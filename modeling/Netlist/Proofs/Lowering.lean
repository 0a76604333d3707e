import Netlist.Proofs.VerilogText
import Netlist.Verilog.Lower

namespace Netlist

/-- A register or memory that was given no clock. -/
def NodeKind.isUnclocked : NodeKind → Bool
  | .register clock _ _ | .memory _ _ clock => clock.isNone
  | _ => false

theorem NodeKind.tag_eq_proxy {kind : NodeKind} : kind.tag = .proxy ↔ kind = .proxy := by
  cases kind <;> simp [NodeKind.tag]

theorem NodeKind.isOutput_iff {kind : NodeKind} : kind.isOutput = true ↔ kind = .output := by
  cases kind <;> simp [NodeKind.isOutput]

namespace Circuit

def Uses (c : Circuit) (user src : NodeId) : Prop :=
  ∃ n pos, c.node? user = some n ∧ n.source? pos = some src

/-- A proxy that is read, and by outputs alone. -/
def Absorbed (c : Circuit) (id : NodeId) : Prop :=
  (∃ n, c.node? id = some n ∧ n.kind = .proxy) ∧ (∃ user, c.Uses user id) ∧
    ∀ user, c.Uses user id → ∃ n, c.node? user = some n ∧ n.kind = .output

end Circuit

namespace Verilog

def noted (m : SideMap (Array NodeId)) (src : NodeId) : List NodeId := ((m.get? src).getD #[]).toList

theorem mem_noted_insert {m : SideMap (Array NodeId)} {user src id other : NodeId} :
    user ∈ noted (m.insert src (((m.get? src).getD #[]).push id)) other ↔
      user ∈ noted m other ∨ user = id ∧ src = other := by
  unfold noted
  rw [SideMap.get?_insert]
  by_cases h : src = other
  · subst h
    simp
  · simp [h]

theorem mem_noted_foldl {m : SideMap (Array NodeId)} {user id other : NodeId}
    (connected : List (Nat × NodeId)) :
    user ∈ noted (connected.foldl (fun m entry =>
      m.insert entry.2 (((m.get? entry.2).getD #[]).push id)) m) other ↔
      user ∈ noted m other ∨ user = id ∧ ∃ pos, (pos, other) ∈ connected := by
  induction connected generalizing m with
  | nil => simp
  | cons entry rest ih =>
    obtain ⟨pos, src⟩ := entry
    have hcons : (∃ pos', (pos', other) ∈ (pos, src) :: rest) ↔
        src = other ∨ ∃ pos', (pos', other) ∈ rest := by
      simp [exists_or, eq_comm]
    rw [List.foldl_cons, ih, mem_noted_insert, hcons, or_assoc, and_or_left]

theorem mem_readers {c : Circuit} {user src : NodeId} :
    user ∈ noted (readers c) src ↔ c.Uses user src := by
  have hfold (ids : List NodeId) (m : SideMap (Array NodeId)) :
      user ∈ noted (ids.foldl (fun m id => (((c.node? id).map (·.connected)).getD []).foldl
        (fun m entry => m.insert entry.2 (((m.get? entry.2).getD #[]).push id)) m) m) src ↔
        user ∈ noted m src ∨ user ∈ ids ∧ c.Uses user src := by
    induction ids generalizing m with
    | nil => simp
    | cons id rest ih =>
      have hconnected : (∃ pos, (pos, src) ∈ ((c.node? id).map (·.connected)).getD []) ↔
          c.Uses id src := by
        cases hn : c.node? id with
        | none => simp [Circuit.Uses, hn]
        | some n => simp [Circuit.Uses, hn, Node.mem_connected]
      rw [List.foldl_cons, ih, mem_noted_foldl, hconnected, List.mem_cons]
      grind
  have hempty : noted .empty src = [] := by simp [noted]
  have hids : c.Uses user src → user ∈ c.ids := fun h => by
    obtain ⟨n, pos, hn, -⟩ := h
    exact Circuit.mem_ids_of_node? hn
  refine (hfold c.ids .empty).trans ?_
  simpa [hempty] using hids

variable {c : Circuit} {order : List NodeId} {id : NodeId} {n : Node}

theorem isAbsorbed_iff : (Plan.ofCircuit c order).isAbsorbed id = true ↔ c.Absorbed id := by
  have huses (user : NodeId) : user ∈ (Plan.ofCircuit c order).usesOf id ↔ c.Uses user id := mem_readers
  have hkind (user : NodeId) (q : NodeKind → Bool) :
      ((Plan.ofCircuit c order).kind? user).any q = true ↔
        ∃ n, c.node? user = some n ∧ q n.kind = true := by
    change ((c.node? user).map (·.kind)).any q = true ↔ _
    cases c.node? user <;> simp
  have hused : (!((Plan.ofCircuit c order).usesOf id).isEmpty) = true ↔ ∃ user, c.Uses user id := by
    rw [Bool.not_eq_true', List.isEmpty_eq_false_iff_exists_mem]
    exact exists_congr huses
  simp only [Plan.isAbsorbed, Bool.and_eq_true, hused, List.all_eq_true, huses, hkind, beq_iff_eq,
    NodeKind.tag_eq_proxy, NodeKind.isOutput_iff, and_assoc, Circuit.Absorbed]

/-- What the circuit reads, apart from outputs, is not absorbed. -/
theorem not_absorbed_of_uses {user src : NodeId} (hn : c.node? user = some n) (hkind : n.kind ≠ .output)
    {pos : Nat} (hsrc : n.source? pos = some src) : ¬ c.Absorbed src := by
  rintro ⟨-, -, honly⟩
  obtain ⟨n', hn', houtput⟩ := honly user ⟨n, pos, hn, hsrc⟩
  rw [hn] at hn'
  cases hn'
  exact hkind houtput

end Verilog

/-- The nodes that are connected at some positions, if there is one at each. -/
def Node.sourcesAt? (n : Node) (positions : List Nat) : Option (List NodeId) := positions.mapM n.source?

theorem Node.exists_source {n : Node} {positions : List Nat} {srcs : List NodeId}
    (h : n.sourcesAt? positions = some srcs) : ∀ src ∈ srcs, ∃ pos, n.source? pos = some src := by
  induction positions generalizing srcs with
  | nil =>
    cases h
    simp
  | cons pos rest ih =>
    rw [sourcesAt?, List.mapM_cons] at h
    obtain ⟨first, hfirst, h⟩ := Option.bind_eq_some_iff.mp h
    obtain ⟨others, hothers, h⟩ := Option.bind_eq_some_iff.mp h
    cases h
    exact List.forall_mem_cons.mpr ⟨⟨pos, hfirst⟩, ih hothers⟩

/-- Enable, address and data of a memory's write port, if all are connected. -/
def Node.writePort? (n : Node) : Option (List NodeId) := n.sourcesAt? [3, 1, 2]

theorem Node.isSome_enable {n : Node} {port : List NodeId} (h : n.writePort? = some port) :
    (n.source? 3).isSome := by
  cases henable : n.source? 3 with
  | none => simp [writePort?, sourcesAt?, henable] at h
  | some enable => rfl

namespace Circuit

instance (c : Circuit) (id : NodeId) : Decidable (c.Absorbed id) :=
  decidable_of_iff ((Verilog.Plan.ofCircuit c []).isAbsorbed id = true) Verilog.isAbsorbed_iff

/-- What drives an output: past an absorbed proxy, the driver of that. -/
def driver? (c : Circuit) (n : Node) : Option NodeId :=
  (n.source? 0).bind fun feed =>
    if c.Absorbed feed then (c.node? feed).bind (·.source? 0) else some feed

/-- The nodes that a node takes its value from, if those that it cannot do without are connected. -/
def operands? (c : Circuit) (n : Node) : Option (List NodeId) :=
  match n.kind with
  | .input .. => none
  | .literal _ => some []
  | .output => (c.driver? n).map fun src => [src]
  | .proxy => n.sourcesAt? [0]
  | .operation op _ => n.sourcesAt? (.range op.arity)
  | .register _ reset _ =>
    -- without a reset nothing loads the initial value
    (n.source? 1).map fun next => (reset.bind fun _ => n.source? 0).toList ++ [next]
  | .memory .. => some (n.source? 0).toList

/-- A node other than an output takes its value from its own sources. -/
theorem exists_source_of_operands {c : Circuit} {n : Node} {srcs : List NodeId}
    (hkind : n.kind ≠ .output) (h : c.operands? n = some srcs) : ∀ src ∈ srcs, ∃ pos, n.source? pos = some src := by
  unfold operands? at h
  split at h
  · cases h
  · cases h
    simp
  · next houtput => exact absurd houtput hkind
  · exact Node.exists_source h
  · exact Node.exists_source h
  · next reset _ _ =>
    obtain ⟨next, hnext, rfl⟩ := Option.map_eq_some_iff.mp h
    refine List.forall_mem_append.mpr ⟨fun src hsrc => ⟨0, ?_⟩, by simpa using ⟨1, hnext⟩⟩
    cases reset with
    | none => simp at hsrc
    | some _ => simpa using hsrc
  · cases h
    exact fun src hsrc => ⟨0, by simpa using hsrc⟩

end Circuit

namespace Verilog

variable {c : Circuit} {order : List NodeId} {id : NodeId} {n : Node}

namespace Entry

def declared? : Entry → Option String
  | port _ name | wire name | reg name | array name => some name
  | _ => none

def target? : Entry → Option String
  | assign target _ | latch _ target _ _ | store _ target _ => some target
  | _ => none

def warned? : Entry → Option String
  | warning name => some name
  | _ => none

/-- The names of the values that are assigned, in whatever way, apart from reset conditions. -/
def reads : Entry → List String
  | assign _ reads | latch _ _ _ reads | store _ _ reads => reads
  | _ => []

def clock? : Entry → Option String
  | latch clock .. | store clock .. => some clock
  | _ => none

def declaring : NodeKind → String → Entry
  | .input .., name => port .input name
  | .output, name => port .output name
  | .register .., name => reg name
  | _, name => wire name

theorem declared?_declaring (kind : NodeKind) (name : String) :
    (declaring kind name).declared? = some name := by
  cases kind <;> rfl

/-- The name of something that a module has to drive. -/
def driven? : Entry → Option String
  | port .output name | wire name | reg name => some name
  | _ => none

section Declared

variable {e : Entry} {name : String}

theorem declared?_of_driven (h : e.driven? = some name) : e.declared? = some name := by
  unfold driven? at h
  split at h <;> first | exact h | cases h

theorem declared?_of_target (h : e.target? = some name) : e.declared? = none := by
  cases e <;> first | rfl | cases h

theorem declared?_of_reads (h : name ∈ e.reads) : e.declared? = none := by
  cases e <;> first | rfl | cases h

theorem target?_of_declared (h : e.declared? = some name) : e.target? = none := by
  cases e <;> first | rfl | cases h

theorem warned?_of_declared (h : e.declared? = some name) : e.warned? = none := by
  cases e <;> first | rfl | cases h

end Declared

end Entry

def declarations (entries : List Entry) (name : String) : List Entry :=
  entries.filter fun e => e.declared? = some name

def drivers (entries : List Entry) (name : String) : List Entry :=
  entries.filter fun e => e.target? = some name

def warnings (entries : List Entry) (name : String) : List Entry :=
  entries.filter fun e => e.warned? = some name

theorem declarations_append (es fs : List Entry) (name : String) :
    declarations (es ++ fs) name = declarations es name ++ declarations fs name := List.filter_append ..

open Naming (Place Owns)

/-- What lowering can rely on. -/
structure Plan.Sound (p : Plan) : Prop where
  wellFormed : p.circuit.WellFormed
  isOrder : p.circuit.IsOrder p.order
  isAbsorbed_iff : ∀ id, p.isAbsorbed id = true ↔ p.circuit.Absorbed id
  legal : ∀ place, Naming.Legal (p.naming.nameOf place)
  injective : ∀ {id other place place'}, Owns p.circuit id place → Owns p.circuit other place' →
    p.naming.nameOf place = p.naming.nameOf place' → place = place'
  ne_clockName : ∀ {id place}, p.implicitClock = true → Owns p.circuit id place →
    p.naming.nameOf place ≠ clockName
  implicitClock : ∀ {id n}, p.circuit.node? id = some n → lacksClock n = true → p.implicitClock = true

theorem sound_ofCircuit (hc : c.WellFormed) (ho : c.IsOrder order) :
    (Plan.ofCircuit c order).Sound where
  wellFormed := hc
  isOrder := ho
  isAbsorbed_iff _ := isAbsorbed_iff
  legal place := Naming.legal_nameOf _ place
  injective := Naming.nameOf_injective _ ho
  ne_clockName := by
    intro id place himplicit hplace
    have hnot := Naming.nameOf_notMem (if c.nodes.values.any lacksClock then [clockName] else [])
      ho hplace
    have hclock : c.nodes.values.any lacksClock = true := himplicit
    intro he
    change Naming.nameOf (.ofCircuit c order _) place = clockName at he
    rw [he] at hnot
    simp [hclock] at hnot
  implicitClock := by
    intro id n hn hlacks
    refine List.any_eq_true.mpr ⟨n, ?_, hlacks⟩
    exact Array.mem_toList_iff.mpr (Array.mem_of_getElem? hn)

namespace Plan

variable {p : Plan}

def clockEntries (p : Plan) : List Entry := if p.implicitClock then [.port .input clockName] else []

def portEntries (p : Plan) (id : NodeId) : List Entry :=
  match p.circuit.node? id with
  | none => []
  | some n =>
    match n.kind with
    | .input .. => [.port .input (p.name id)]
    | .output => [.port .output (p.name id)]
    | _ => []

def declarationEntries (p : Plan) (id : NodeId) : List Entry := (p.declare id).map Declaration.entry

def itemEntries (p : Plan) (id : NodeId) : List Entry := (p.lowerNode id).filterMap Item.statement?

theorem entries_ports (p : Plan) :
    p.ports.map Port.entry = p.clockEntries ++ p.circuit.ids.flatMap p.portEntries := by
  have hclock : (if p.implicitClock then [(⟨.input, 1, clockName⟩ : Port)] else []).map Port.entry =
      p.clockEntries := by
    unfold clockEntries
    split <;> rfl
  -- by induction on the nodes, to go through the filter for ports and the map at once
  have hports (ids : List NodeId) :
      ((ids.filter fun id => (p.circuit.node? id).any (·.kind.isPort)).filterMap fun id =>
        (p.circuit.node? id).map fun n =>
          (⟨if n.kind.isOutput then .output else .input, n.width, p.name id⟩ : Port)).map Port.entry =
      ids.flatMap p.portEntries := by
    induction ids with
    | nil => rfl
    | cons id rest ih =>
      rw [List.flatMap_cons, ← ih]
      cases hn : p.circuit.node? id with
      | none => simp [hn, portEntries]
      | some n =>
        cases hkind : n.kind <;>
          simp [hn, hkind, portEntries, NodeKind.isPort, NodeKind.isOutput, Port.entry]
  rw [← hclock, ← hports, ports, List.map_append]
  rfl

def headEntries (p : Plan) : List Entry :=
  p.clockEntries ++ p.circuit.ids.flatMap p.portEntries ++ p.order.flatMap p.declarationEntries

theorem entries_lower (p : Plan) :
    p.lower.entries = p.headEntries ++ p.order.flatMap p.itemEntries := by
  rw [Module.entries, lower, p.entries_ports, List.map_flatMap, List.filterMap_flatMap]
  rfl

def declaringEntries (p : Plan) (id : NodeId) : List Entry :=
  p.portEntries id ++ p.declarationEntries id

theorem owns_node (hn : p.circuit.node? id = some n) : Owns p.circuit id (.node id) := ⟨n, hn, .inl rfl⟩

theorem owns_array (hn : p.circuit.node? id = some n) (hmemory : n.kind.tag = .memory) :
    Owns p.circuit id (.array id) := ⟨n, hn, .inr ⟨hmemory, rfl⟩⟩

/-- The entry is under a name of node `id`. -/
def Named (p : Plan) (id : NodeId) (name? : Option String) : Prop :=
  ∀ name, name? = some name → ∃ place, Owns p.circuit id place ∧ p.naming.nameOf place = name

theorem named_none (p : Plan) (id : NodeId) : p.Named id none := fun _ h => nomatch h

theorem named_name (hn : p.circuit.node? id = some n) : p.Named id (some (p.name id)) := by
  rintro name ⟨⟩
  exact ⟨.node id, owns_node hn, rfl⟩

theorem named_arrayName (hn : p.circuit.node? id = some n) (hmemory : n.kind.tag = .memory) :
    p.Named id (some (p.naming.arrayName id)) := by
  rintro name ⟨⟩
  exact ⟨.array id, owns_array hn hmemory, rfl⟩

theorem not_absorbed_of_kind (hn : p.circuit.node? id = some n) (hkind : n.kind ≠ .proxy) :
    ¬ p.circuit.Absorbed id := by
  rintro ⟨⟨m, hm, hproxy⟩, -⟩
  rw [hn] at hm
  cases hm
  exact hkind hproxy

/-- A memory has an array, and each node that is not absorbed is declared by its kind. -/
theorem Sound.declaringEntries_eq (h : p.Sound) (hn : p.circuit.node? id = some n) :
    p.declaringEntries id =
      (if n.kind.tag = .memory then [.array (p.naming.arrayName id)] else []) ++
        if p.circuit.Absorbed id then [] else [.declaring n.kind (p.name id)] := by
  have hnot (hkind : n.kind ≠ .proxy) : ¬ p.circuit.Absorbed id := not_absorbed_of_kind hn hkind
  unfold declaringEntries portEntries declarationEntries declare
  simp only [hn, ← h.isAbsorbed_iff] at hnot ⊢
  cases hkind : n.kind with
  | proxy => cases p.isAbsorbed id <;> rfl
  | _ =>
    have hfalse : p.isAbsorbed id = false := Bool.eq_false_iff.mpr (hnot (by simp [hkind]))
    rw [hfalse]
    rfl

theorem Sound.cases_declaringEntries (h : p.Sound) {e : Entry} (he : e ∈ p.declaringEntries id) :
    ∃ n, p.circuit.node? id = some n ∧
      (n.kind.tag = .memory ∧ e = .array (p.naming.arrayName id) ∨
        ¬ p.circuit.Absorbed id ∧ e = .declaring n.kind (p.name id)) := by
  cases hn : p.circuit.node? id with
  | none => simp [declaringEntries, portEntries, declarationEntries, declare, hn] at he
  | some n =>
    refine ⟨n, rfl, ?_⟩
    rw [h.declaringEntries_eq hn, List.mem_append] at he
    rcases he with he | he <;> split at he
    · next hmemory => exact .inl ⟨hmemory, List.mem_singleton.mp he⟩
    · cases he
    · cases he
    · next hnot => exact .inr ⟨hnot, List.mem_singleton.mp he⟩

theorem Sound.exists_declared (h : p.Sound) {e : Entry} (he : e ∈ p.declaringEntries id) :
    ∃ name, e.declared? = some name ∧ p.Named id (some name) := by
  obtain ⟨n, hn, ⟨hmemory, rfl⟩ | ⟨-, rfl⟩⟩ := h.cases_declaringEntries he
  · exact ⟨_, rfl, named_arrayName hn hmemory⟩
  · exact ⟨_, Entry.declared?_declaring n.kind _, named_name hn⟩

/-- The name of something that is declared: an array, or a node that is not absorbed. -/
def Shown (p : Plan) (name : String) : Prop :=
  ∃ id place, Owns p.circuit id place ∧ (place = .node id → ¬ p.circuit.Absorbed id) ∧
    p.naming.nameOf place = name

theorem Sound.shown_source (h : p.Sound) (hn : p.circuit.node? id = some n) (hkind : n.kind ≠ .output)
    {pos : Nat} {src : NodeId} (hsrc : n.source? pos = some src) : p.Shown (p.name src) := by
  obtain ⟨m, hm⟩ := Circuit.exists_node_of_mem
    (Circuit.mem_ids.mpr (h.wellFormed.inside_of_source? hn hsrc))
  exact ⟨src, .node src, owns_node hm, fun _ => not_absorbed_of_uses hn hkind hsrc, rfl⟩

/-- What drives an output is not absorbed: only outputs read what is. -/
theorem Sound.shown_driver (h : p.Sound) (hn : p.circuit.node? id = some n) {d : NodeId}
    (hd : p.circuit.driver? n = some d) : p.Shown (p.name d) := by
  obtain ⟨feed, hfeed, hdriver⟩ := Option.bind_eq_some_iff.mp hd
  split at hdriver
  · next habsorbed =>
    -- the proxy itself is a reader of what drives it, and no output
    obtain ⟨⟨m, hm, hkind⟩, -, -⟩ := habsorbed
    rw [hm, Option.bind_some] at hdriver
    exact h.shown_source hm (by simp [hkind]) hdriver
  · next hnot =>
    cases hdriver
    obtain ⟨m, hm⟩ := Circuit.exists_node_of_mem
      (Circuit.mem_ids.mpr (h.wellFormed.inside_of_source? hn hfeed))
    exact ⟨d, .node d, owns_node hm, fun _ => hnot, rfl⟩

theorem Sound.driver?_eq (h : p.Sound) (n : Node) : p.driver? n = p.circuit.driver? n := by
  unfold driver? Circuit.driver?
  simp only [h.isAbsorbed_iff]

theorem Sound.shown_operands (h : p.Sound) (hn : p.circuit.node? id = some n) {srcs : List NodeId}
    (hsrcs : p.circuit.operands? n = some srcs) : ∀ src ∈ srcs, p.Shown (p.name src) := by
  by_cases hkind : n.kind = .output
  · simp only [Circuit.operands?, hkind, Option.map_eq_some_iff] at hsrcs
    obtain ⟨d, hd, rfl⟩ := hsrcs
    simpa using h.shown_driver hn hd
  · intro src hsrc
    obtain ⟨pos, hpos⟩ := Circuit.exists_source_of_operands hkind hsrcs src hsrc
    exact h.shown_source hn hkind hpos

theorem Sound.shown_writePort (h : p.Sound) (hn : p.circuit.node? id = some n)
    (hmemory : n.kind.tag = .memory) {srcs : List NodeId} (hsrcs : n.writePort? = some srcs) :
    ∀ src ∈ srcs, p.Shown (p.name src) := by
  intro src hsrc
  obtain ⟨pos, hpos⟩ := Node.exists_source hsrcs src hsrc
  exact h.shown_source hn (fun hkind => by simp [hkind, NodeKind.tag] at hmemory) hpos

inductive Emits (p : Plan) (id : NodeId) (n : Node) : List Entry → Prop
  | nothing (hcase : n.kind.tag = .input ∨ p.circuit.Absorbed id) (h : n.kind.tag ≠ .memory) :
    Emits p id n []
  | warning (hsrcs : p.circuit.operands? n = none) (h : n.kind.tag ≠ .memory) :
    Emits p id n [.warning (p.name id)]
  | assign {srcs : List NodeId} (hsrcs : p.circuit.operands? n = some srcs) (h : n.kind.tag ≠ .memory) :
    Emits p id n [.assign (p.name id) (srcs.map p.name)]
  | latch {clock reset enable reset?} {srcs : List NodeId} (h : n.kind = .register clock reset enable)
    (hsrcs : p.circuit.operands? n = some srcs) :
    Emits p id n [.latch (p.clock clock) (p.name id) reset? (srcs.map p.name)]
  | memory {srcs : List NodeId} {write : List Entry} (h : n.kind.tag = .memory)
    (hsrcs : p.circuit.operands? n = some srcs) (hport : n.writePort? = none)
    (hwrite : write = [] ∨ write = [.warning (p.name id)]) :
    Emits p id n (.assign (p.name id) (p.naming.arrayName id :: srcs.map p.name) :: write)
  | store {depth init clock} {srcs port : List NodeId} (h : n.kind = .memory depth init clock)
    (hsrcs : p.circuit.operands? n = some srcs) (hport : n.writePort? = some port) :
    Emits p id n [.assign (p.name id) (p.naming.arrayName id :: srcs.map p.name),
      .store (p.clock clock) (p.naming.arrayName id) (port.map p.name)]

theorem emits_operation {op : Opcode} {signed : Bool} (hkind : n.kind = .operation op signed) :
    p.Emits id n ([p.lowerOperation id n op signed].filterMap Item.statement?) := by
  have hmemory : n.kind.tag ≠ .memory := by simp [hkind, NodeKind.tag]
  unfold lowerOperation operand?
  split
  · next hunary =>
    have hsrcs : p.circuit.operands? n = n.sourcesAt? [0] := by
      simp [Circuit.operands?, hkind, Opcode.arity, hunary, List.range_succ]
    cases hsrc : n.source? 0 with
    | none => exact .warning (by simp [hsrcs, Node.sourcesAt?, hsrc]) hmemory
    | some a =>
      have hone : p.circuit.operands? n = some [a] := by simp [hsrcs, Node.sourcesAt?, hsrc]
      exact .assign hone hmemory
  · next hbinary =>
    have hsrcs : p.circuit.operands? n = n.sourcesAt? [0, 1] := by
      simp [Circuit.operands?, hkind, Opcode.arity, hbinary, List.range_succ]
    cases hlhs : n.source? 0 with
    | none => exact .warning (by simp [hsrcs, Node.sourcesAt?, hlhs]) hmemory
    | some a =>
      cases hrhs : n.source? 1 with
      | none => exact .warning (by simp [hsrcs, Node.sourcesAt?, hlhs, hrhs]) hmemory
      | some b =>
        have htwo : p.circuit.operands? n = some [a, b] := by
          simp [hsrcs, Node.sourcesAt?, hlhs, hrhs]
        exact .assign htwo hmemory

theorem emits_register {clock reset enable : Option NodeId}
    (hkind : n.kind = .register clock reset enable) :
    p.Emits id n ((p.lowerRegister id n clock reset).filterMap Item.statement?) := by
  unfold lowerRegister
  cases hnext : n.source? 1 with
  | none =>
    exact .warning (by simp [Circuit.operands?, hkind, hnext]) (by simp [hkind, NodeKind.tag])
  | some next =>
    have hsrcs : p.circuit.operands? n = some ((reset.bind fun _ => n.source? 0).toList ++ [next]) := by
      simp [Circuit.operands?, hkind, hnext]
    cases hinit : n.source? 0 with
    | none =>
      rw [hinit] at hsrcs
      cases reset <;> exact .latch hkind hsrcs
    | some init =>
      rw [hinit] at hsrcs
      cases reset with
      | some rst => exact .latch hkind hsrcs
      | none =>
        -- the value before the first edge is no assignment by the module
        have hstart : ((p.circuit.constant? init).toList.map fun value =>
            Item.initial (p.name id) (value.truncate n.width)).filterMap Item.statement? = [] := by
          cases p.circuit.constant? init <;> rfl
        simp only [List.filterMap_append, hstart, List.nil_append]
        exact .latch hkind hsrcs

theorem emits_memory {depth : Nat} {init : Array Word} {clock : Option NodeId}
    (hkind : n.kind = .memory depth init clock) :
    p.Emits id n ((p.lowerMemory id n init clock).filterMap Item.statement?) := by
  have hmemory : n.kind.tag = .memory := by simp [hkind, NodeKind.tag]
  have hsrcs : p.circuit.operands? n = some (n.source? 0).toList := by simp [Circuit.operands?, hkind]
  have hpreload (words : List (Nat × Word)) : ((if words.isEmpty then []
      else [Item.preload (p.naming.arrayName id) words]).filterMap Item.statement?) = [] := by
    split <;> rfl
  have hread : ((n.source? 0).map p.name).toList = (n.source? 0).toList.map p.name := by
    cases n.source? 0 <;> rfl
  unfold lowerMemory
  simp only [List.filterMap_append, hpreload, List.nil_append, List.filterMap_cons, Item.statement?,
    Expr.names, hread]
  -- a write port is whole, absent or incomplete
  cases hwaddr : n.source? 1 <;> cases hdata : n.source? 2 <;> cases hen : n.source? 3
  case some.some.some address data enable =>
    have hport : n.writePort? = some [enable, address, data] := by
      simp [Node.writePort?, Node.sourcesAt?, hwaddr, hdata, hen]
    exact .store hkind hsrcs hport
  case none.none.none =>
    exact .memory hmemory hsrcs (by simp [Node.writePort?, Node.sourcesAt?, hen]) (.inl rfl)
  all_goals
    have hport : n.writePort? = none := by simp [Node.writePort?, Node.sourcesAt?, hwaddr, hdata, hen]
    exact .memory hmemory hsrcs hport (.inr rfl)

theorem Sound.emits (h : p.Sound) (hn : p.circuit.node? id = some n) :
    p.Emits id n (p.itemEntries id) := by
  unfold itemEntries lowerNode
  simp only [hn]
  cases hkind : n.kind with
  | literal value =>
    have hsrcs : p.circuit.operands? n = some [] := by simp [Circuit.operands?, hkind]
    exact .assign hsrcs (by simp [hkind, NodeKind.tag])
  | input => exact .nothing (.inl (by simp [hkind, NodeKind.tag])) (by simp [hkind, NodeKind.tag])
  | output =>
    have hmemory : n.kind.tag ≠ .memory := by simp [hkind, NodeKind.tag]
    simp only [h.driver?_eq]
    cases hd : p.circuit.driver? n with
    | none => exact .warning (by simp [Circuit.operands?, hkind, hd]) hmemory
    | some d =>
      have hsrcs : p.circuit.operands? n = some [d] := by simp [Circuit.operands?, hkind, hd]
      exact .assign hsrcs hmemory
  | proxy =>
    have hmemory : n.kind.tag ≠ .memory := by simp [hkind, NodeKind.tag]
    simp only
    split
    · next habsorbed => exact .nothing (.inr ((h.isAbsorbed_iff id).mp habsorbed)) hmemory
    · cases hsrc : n.source? 0 with
      | none => exact .warning (by simp [Circuit.operands?, hkind, Node.sourcesAt?, hsrc]) hmemory
      | some src =>
        have hsrcs : p.circuit.operands? n = some [src] := by
          simp [Circuit.operands?, hkind, Node.sourcesAt?, hsrc]
        exact .assign hsrcs hmemory
  | operation op signed => exact emits_operation hkind
  | register clock reset enable => exact emits_register hkind
  | memory depth init clock => exact emits_memory hkind

inductive Statement (p : Plan) (id : NodeId) (n : Node) : Entry → Prop
  | warning : Statement p id n (.warning (p.name id))
  | assign {reads : List String} (hreads : ∀ name ∈ reads, p.Shown name) :
    Statement p id n (.assign (p.name id) reads)
  | latch {clock reset enable reset?} {reads : List String} (h : n.kind = .register clock reset enable)
    (hreads : ∀ name ∈ reads, p.Shown name) :
    Statement p id n (.latch (p.clock clock) (p.name id) reset? reads)
  | store {depth init clock} {port : List NodeId} (h : n.kind = .memory depth init clock)
    (hport : n.writePort? = some port) (hreads : ∀ name ∈ port.map p.name, p.Shown name) :
    Statement p id n (.store (p.clock clock) (p.naming.arrayName id) (port.map p.name))

theorem Sound.statement_of_emits (h : p.Sound) (hn : p.circuit.node? id = some n) {es : List Entry}
    (hes : p.Emits id n es) {e : Entry} (he : e ∈ es) : p.Statement id n e := by
  have hshown {srcs : List NodeId} (hsrcs : p.circuit.operands? n = some srcs) :
      ∀ name ∈ srcs.map p.name, p.Shown name := List.forall_mem_map.mpr (h.shown_operands hn hsrcs)
  have harray (hmemory : n.kind.tag = .memory) : p.Shown (p.naming.arrayName id) := by
    refine ⟨id, .array id, owns_array hn hmemory, fun hplace => ?_, rfl⟩
    cases hplace
  cases hes with
  | nothing => simp at he
  | warning =>
    cases List.mem_singleton.mp he
    exact .warning
  | assign hsrcs =>
    cases List.mem_singleton.mp he
    exact .assign (hshown hsrcs)
  | latch hkind hsrcs =>
    cases List.mem_singleton.mp he
    exact .latch hkind (hshown hsrcs)
  | memory hmemory hsrcs _ hwrite =>
    rcases List.mem_cons.mp he with rfl | he
    · exact .assign (List.forall_mem_cons.mpr ⟨harray hmemory, hshown hsrcs⟩)
    · rcases hwrite with rfl | rfl
      · simp at he
      · cases List.mem_singleton.mp he
        exact .warning
  | store hkind hsrcs hport =>
    have hmemory : n.kind.tag = .memory := by simp [hkind, NodeKind.tag]
    rcases List.mem_cons.mp he with rfl | he
    · exact .assign (List.forall_mem_cons.mpr ⟨harray hmemory, hshown hsrcs⟩)
    · cases List.mem_singleton.mp he
      exact .store hkind hport (List.forall_mem_map.mpr (h.shown_writePort hn hmemory hport))

namespace Statement

variable {e : Entry}

theorem declared?_eq (h : p.Statement id n e) : e.declared? = none := by
  cases h <;> rfl

theorem named_target (h : p.Statement id n e) (hn : p.circuit.node? id = some n) :
    p.Named id e.target? := by
  cases h with
  | warning => exact p.named_none id
  | assign => exact named_name hn
  | latch => exact named_name hn
  | store hkind => exact named_arrayName hn (by simp [hkind, NodeKind.tag])

theorem named_warned (h : p.Statement id n e) (hn : p.circuit.node? id = some n) :
    p.Named id e.warned? := by
  cases h with
  | warning => exact named_name hn
  | _ => exact p.named_none id

theorem shown_of_reads (h : p.Statement id n e) : ∀ name ∈ e.reads, p.Shown name := by
  cases h with
  | warning => simp [Entry.reads]
  | assign hreads => exact hreads
  | latch _ hreads => exact hreads
  | store _ _ hreads => exact hreads

/-- A statement at the edges of a clock that was not given has the one that is added for lack of it. -/
theorem clock_eq (h : p.Statement id n e) {name : String} (hname : e.clock? = some name)
    (hunclocked : n.kind.isUnclocked = true) : name = clockName ∧ lacksClock n = true := by
  cases h with
  | warning => cases hname
  | assign => cases hname
  | latch hkind =>
    cases hname
    simp_all [NodeKind.isUnclocked, clock, lacksClock]
  | store hkind hport =>
    cases hname
    have henable : (n.source? 3).isSome := Node.isSome_enable hport
    simp_all [NodeKind.isUnclocked, clock, lacksClock]

end Statement

namespace Emits

variable {es : List Entry}

theorem reads_drivers (h : p.Emits id n es) (habsorbed : ¬ p.circuit.Absorbed id)
    (harray : n.kind.tag = .memory → p.naming.arrayName id ≠ p.name id) :
    (drivers es (p.name id)).map Entry.reads = (p.circuit.operands? n).toList.map fun srcs =>
      (if n.kind.tag = .memory then [p.naming.arrayName id] else []) ++ srcs.map p.name := by
  cases h with
  | nothing hcase =>
    have hinput : n.kind.tag = .input := hcase.resolve_right habsorbed
    have hsrcs : p.circuit.operands? n = none := by
      cases hkind : n.kind <;> simp_all [Circuit.operands?, NodeKind.tag]
    rw [hsrcs]
    rfl
  | warning hsrcs =>
    rw [hsrcs]
    rfl
  | assign hsrcs hmemory => simp [drivers, Entry.target?, Entry.reads, hsrcs, hmemory]
  | latch hkind hsrcs => simp [drivers, Entry.target?, Entry.reads, hsrcs, hkind, NodeKind.tag]
  | memory hmemory hsrcs _ hwrite =>
    rcases hwrite with rfl | rfl <;> simp [drivers, Entry.target?, Entry.reads, hsrcs, hmemory]
  | store hkind hsrcs =>
    have hmemory : n.kind.tag = .memory := by simp [hkind, NodeKind.tag]
    simp [drivers, Entry.target?, Entry.reads, hsrcs, hmemory, harray hmemory]

theorem reads_drivers_array (h : p.Emits id n es) (hmemory : n.kind.tag = .memory)
    (harray : p.naming.arrayName id ≠ p.name id) :
    (drivers es (p.naming.arrayName id)).map Entry.reads = n.writePort?.toList.map (·.map p.name) := by
  cases h with
  | nothing _ hnot => exact absurd hmemory hnot
  | warning _ hnot => exact absurd hmemory hnot
  | assign _ hnot => exact absurd hmemory hnot
  | latch hkind => simp [hkind, NodeKind.tag] at hmemory
  | memory _ _ hport hwrite =>
    rcases hwrite with rfl | rfl <;> simp [drivers, Entry.target?, hport, harray.symm]
  | store _ _ hport => simp [drivers, Entry.target?, Entry.reads, hport, harray.symm]

/-- A node that is neither an input nor absorbed is driven by one statement, or there is a warning that
it is not driven. -/
theorem driven (h : p.Emits id n es) (hinput : n.kind.tag ≠ .input)
    (habsorbed : ¬ p.circuit.Absorbed id)
    (harray : n.kind.tag = .memory → p.naming.arrayName id ≠ p.name id) :
    (drivers es (p.name id)).length = 1 ∨
      drivers es (p.name id) = [] ∧ (warnings es (p.name id)).length = 1 := by
  cases h with
  | nothing hcase => exact absurd hcase (not_or.mpr ⟨hinput, habsorbed⟩)
  | warning => exact .inr (by simp [drivers, warnings, Entry.target?, Entry.warned?])
  | assign => exact .inl (by simp [drivers, Entry.target?])
  | latch => exact .inl (by simp [drivers, Entry.target?])
  | memory _ _ _ hwrite =>
    rcases hwrite with rfl | rfl <;> exact .inl (by simp [drivers, Entry.target?])
  | store hkind => exact .inl (by simp [drivers, Entry.target?, harray (by simp [hkind, NodeKind.tag])])

end Emits

namespace Sound

variable (h : p.Sound)
include h

theorem legal_clock (clock : Option NodeId) : Naming.Legal (p.clock clock) := by
  cases clock with
  | none => exact (by decide : Naming.isName clockName = true ∧ clockName ∉ Naming.keywords)
  | some id => exact h.legal (.node id)

theorem legal_lowerOperation (n : Node) (op : Opcode) (signed : Bool) :
    ∀ name ∈ (p.lowerOperation id n op signed).names, Naming.Legal name := by
  have hlegal (id : NodeId) : Naming.Legal (p.name id) := h.legal (.node id)
  unfold lowerOperation operand?
  cases n.source? 0 <;> cases n.source? 1 <;> cases op.isUnary <;>
    simp [Item.names, Expr.names, Warning.name, hlegal]

theorem legal_lowerRegister (n : Node) (clock reset : Option NodeId) :
    ∀ item ∈ p.lowerRegister id n clock reset, ∀ name ∈ item.names, Naming.Legal name := by
  have hlegal (id : NodeId) : Naming.Legal (p.name id) := h.legal (.node id)
  unfold lowerRegister
  cases n.source? 1 with
  | none => simp [Item.names, Warning.name, hlegal]
  | some next =>
    cases reset <;> cases n.source? 0 <;>
      simp [Item.names, Expr.names, hlegal, h.legal_clock, or_imp, forall_and]

theorem legal_lowerMemory (n : Node) (init : Array Word) (clock : Option NodeId) :
    ∀ item ∈ p.lowerMemory id n init clock, ∀ name ∈ item.names, Naming.Legal name := by
  have hlegal (id : NodeId) : Naming.Legal (p.name id) := h.legal (.node id)
  have harray : Naming.Legal (p.naming.arrayName id) := h.legal (.array id)
  have hpreload (words : List (Nat × Word)) : ∀ item ∈ (if words.isEmpty then []
      else [Item.preload (p.naming.arrayName id) words]), ∀ name ∈ item.names, Naming.Legal name := by
    split <;> simp [Item.names, harray]
  have hread : ∀ name ∈ (Item.assign (p.name id) (.element (p.naming.arrayName id)
      ((n.source? 0).map p.name))).names, Naming.Legal name := by
    cases n.source? 0 <;> simp [Item.names, Expr.names, hlegal, harray]
  unfold lowerMemory
  refine List.forall_mem_append.mpr ⟨hpreload _, List.forall_mem_cons.mpr ⟨hread, ?_⟩⟩
  cases n.source? 1 <;> cases n.source? 2 <;> cases n.source? 3 <;>
    simp [Item.names, Warning.name, hlegal, harray, h.legal_clock]

theorem legal_lowerNode (id : NodeId) :
    ∀ item ∈ p.lowerNode id, ∀ name ∈ item.names, Naming.Legal name := by
  have hlegal (id : NodeId) : Naming.Legal (p.name id) := h.legal (.node id)
  unfold lowerNode
  cases p.circuit.node? id with
  | none => simp
  | some n =>
    dsimp only
    cases n.kind with
    | literal value => simp [Item.names, Expr.names, hlegal]
    | input => simp
    | output => cases p.driver? n <;> simp [Item.names, Expr.names, Warning.name, hlegal]
    | proxy =>
      cases p.isAbsorbed id <;> cases n.source? 0 <;>
        simp [Item.names, Expr.names, Warning.name, hlegal]
    | operation op signed => simpa using h.legal_lowerOperation n op signed
    | register clock reset => exact h.legal_lowerRegister n clock reset
    | memory depth init clock => exact h.legal_lowerMemory n init clock

theorem legal_declare (id : NodeId) : ∀ d ∈ p.declare id, Naming.Legal d.name := by
  have hlegal (id : NodeId) : Naming.Legal (p.name id) := h.legal (.node id)
  have harray : Naming.Legal (p.naming.arrayName id) := h.legal (.array id)
  unfold declare
  cases p.circuit.node? id with
  | none => simp
  | some n =>
    dsimp only
    cases n.kind <;> cases p.isAbsorbed id <;> simp [Declaration.name, hlegal, harray]

theorem legal_lower : p.lower.Legal where
  ports := by
    intro port hport
    rcases List.mem_append.mp hport with hport | hport
    · split at hport
      · cases List.mem_singleton.mp hport
        exact h.legal_clock none
      · cases hport
    · obtain ⟨id, -, hport⟩ := List.mem_filterMap.mp hport
      obtain ⟨n, -, rfl⟩ := Option.map_eq_some_iff.mp hport
      exact h.legal (.node id)
  declarations := by
    intro d hd
    obtain ⟨id, -, hd⟩ := List.mem_flatMap.mp hd
    exact h.legal_declare id d hd
  items := by
    intro item hitem
    obtain ⟨id, -, hitem⟩ := List.mem_flatMap.mp hitem
    exact h.legal_lowerNode id item hitem

end Sound

end Plan

end Verilog

end Netlist
