import Netlist.Proofs.EvaluationOrder
import Netlist.Proofs.Lowering

namespace Netlist.Verilog

open Naming (Place Owns)

variable {c : Circuit} {id : NodeId} {n : Node}

theorem flatMap_of_unique {α β : Type} {l : List α} {a : α} {g : α → List β} (hnodup : l.Nodup)
    (ha : a ∈ l) (h : ∀ b, b ≠ a → g b = []) : l.flatMap g = g a := by
  induction l with
  | nil => cases ha
  | cons b rest ih =>
    obtain ⟨hb, hrest⟩ := List.nodup_cons.mp hnodup
    rw [List.flatMap_cons]
    rcases List.mem_cons.mp ha with rfl | ha
    · have hnone : rest.flatMap g = [] :=
        List.flatMap_eq_nil_iff.mpr fun b' hb' => h b' fun he => hb (he ▸ hb')
      rw [hnone, List.append_nil]
    · rw [ih hrest ha, h b fun he => hb (he ▸ ha), List.nil_append]

namespace Plan

variable {p : Plan}

theorem mem_ids_of_owns {place : Place} (h : Owns p.circuit id place) : id ∈ p.circuit.ids := by
  obtain ⟨n, hn, -⟩ := h
  exact Circuit.mem_ids_of_node? hn

theorem owns_id {place : Place} {other : NodeId} (h : Owns p.circuit id place)
    (hother : Owns p.circuit other place) : id = other := by
  obtain ⟨-, -, rfl | ⟨-, rfl⟩⟩ := h <;> obtain ⟨-, -, he | ⟨-, he⟩⟩ := hother <;> cases he <;> rfl

/-- Among what is made node by node, a name of node `id` is only in what is made for `id`. -/
theorem Sound.filter_flatMap (h : p.Sound) {ids : List NodeId} (hnodup : ids.Nodup) (hid : id ∈ ids)
    {f : NodeId → List Entry} {key : Entry → Option String}
    (hkey : ∀ other, ∀ e ∈ f other, p.Named other (key e)) {place : Place}
    (hplace : Owns p.circuit id place) :
    ((ids.flatMap f).filter fun e => key e = some (p.naming.nameOf place)) =
      (f id).filter fun e => key e = some (p.naming.nameOf place) := by
  have hothers (other : NodeId) (hne : other ≠ id) :
      ((f other).filter fun e => key e = some (p.naming.nameOf place)) = [] := by
    refine List.filter_eq_nil_iff.mpr fun e he hname => hne ?_
    obtain ⟨place', howns, heq⟩ := hkey other e he _ (of_decide_eq_true hname)
    exact owns_id (h.injective howns hplace heq ▸ howns) hplace
  rw [List.filter_flatMap]
  exact flatMap_of_unique hnodup hid hothers

theorem Sound.mem_headEntries (h : p.Sound) {e : Entry} : e ∈ p.headEntries ↔
    e ∈ p.clockEntries ∨ ∃ id ∈ p.circuit.ids, e ∈ p.declaringEntries id := by
  simp only [headEntries, List.mem_append, List.mem_flatMap, h.isOrder.mem, declaringEntries,
    and_or_left, exists_or, or_assoc]

theorem mem_clockEntries {e : Entry} :
    e ∈ p.clockEntries ↔ p.implicitClock = true ∧ e = .port .input clockName := by
  unfold clockEntries
  split <;> simp_all

theorem Sound.exists_declared_of_head (h : p.Sound) {e : Entry} (he : e ∈ p.headEntries) :
    ∃ name, e.declared? = some name := by
  rcases h.mem_headEntries.mp he with he | ⟨id, -, he⟩
  · exact ⟨clockName, (mem_clockEntries.mp he).2 ▸ rfl⟩
  · obtain ⟨name, hname, -⟩ := h.exists_declared he
    exact ⟨name, hname⟩

theorem Sound.statement (h : p.Sound) {e : Entry} (he : e ∈ p.itemEntries id) :
    ∃ n, p.circuit.node? id = some n ∧ p.Statement id n e := by
  cases hn : p.circuit.node? id with
  | none => simp [itemEntries, lowerNode, hn] at he
  | some n => exact ⟨n, rfl, h.statement_of_emits hn (h.emits hn) he⟩

section Place

variable {place : Place}

theorem filter_key_eq_nil {es : List Entry} {key : Entry → Option String} {name : String}
    (h : ∀ e ∈ es, key e ≠ some name) : (es.filter fun e => key e = some name) = [] :=
  List.filter_eq_nil_iff.mpr fun e he hkey => h e he (of_decide_eq_true hkey)

theorem Sound.declarations_items (h : p.Sound) (name : String) :
    declarations (p.order.flatMap p.itemEntries) name = [] := by
  refine filter_key_eq_nil fun e he => ?_
  obtain ⟨id, -, he⟩ := List.mem_flatMap.mp he
  obtain ⟨n, -, hstatement⟩ := h.statement he
  simp [hstatement.declared?_eq]

theorem Sound.declarations_lower (h : p.Sound) (hplace : Owns p.circuit id place) :
    declarations p.lower.entries (p.naming.nameOf place) =
      declarations (p.declaringEntries id) (p.naming.nameOf place) := by
  have hid : id ∈ p.circuit.ids := mem_ids_of_owns hplace
  have hclock : declarations p.clockEntries (p.naming.nameOf place) = [] := by
    refine filter_key_eq_nil fun e he hname => ?_
    obtain ⟨himplicit, rfl⟩ := mem_clockEntries.mp he
    exact h.ne_clockName himplicit hplace (Option.some.inj hname).symm
  have hnamed {other : NodeId} {e : Entry} (he : e ∈ p.declaringEntries other) :
      p.Named other e.declared? := by
    obtain ⟨name, hname, hnamed⟩ := h.exists_declared he
    exact hname ▸ hnamed
  have hports := h.filter_flatMap p.circuit.nodup_ids hid
    (fun _ _ he => hnamed (List.mem_append_left _ he)) hplace
  have hdeclarations := h.filter_flatMap h.isOrder.nodup (h.isOrder.mem.mpr hid)
    (fun _ _ he => hnamed (List.mem_append_right _ he)) hplace
  rw [p.entries_lower, headEntries, declarations_append, declarations_append, declarations_append,
    hclock, h.declarations_items, declaringEntries, declarations_append, List.append_nil,
    List.nil_append]
  exact congrArg₂ _ hports hdeclarations

/-- What is said of a name of a node, apart from declarations, is in the statements for that node. -/
theorem Sound.filter_lower (h : p.Sound) (hplace : Owns p.circuit id place)
    {key : Entry → Option String}
    (hdeclared : ∀ {e name}, e.declared? = some name → key e = none)
    (hstatement : ∀ {other n e}, p.circuit.node? other = some n → p.Statement other n e →
      p.Named other (key e)) :
    (p.lower.entries.filter fun e => key e = some (p.naming.nameOf place)) =
      (p.itemEntries id).filter fun e => key e = some (p.naming.nameOf place) := by
  have hhead : (p.headEntries.filter fun e => key e = some (p.naming.nameOf place)) = [] := by
    refine filter_key_eq_nil fun e he => ?_
    obtain ⟨name, hname⟩ := h.exists_declared_of_head he
    simp [hdeclared hname]
  have hnamed (other : NodeId) (e : Entry) (he : e ∈ p.itemEntries other) : p.Named other (key e) := by
    obtain ⟨n, hn, hs⟩ := h.statement he
    exact hstatement hn hs
  rw [p.entries_lower, List.filter_append, hhead, List.nil_append]
  exact h.filter_flatMap h.isOrder.nodup (h.isOrder.mem.mpr (mem_ids_of_owns hplace)) hnamed hplace

theorem Sound.drivers_lower (h : p.Sound) (hplace : Owns p.circuit id place) :
    drivers p.lower.entries (p.naming.nameOf place) =
      drivers (p.itemEntries id) (p.naming.nameOf place) :=
  h.filter_lower hplace Entry.target?_of_declared fun hn hs => hs.named_target hn

theorem Sound.warnings_lower (h : p.Sound) (hplace : Owns p.circuit id place) :
    warnings p.lower.entries (p.naming.nameOf place) =
      warnings (p.itemEntries id) (p.naming.nameOf place) :=
  h.filter_lower hplace Entry.warned?_of_declared fun hn hs => hs.named_warned hn

end Place

namespace Sound

variable (h : p.Sound)
include h

theorem arrayName_ne (hn : p.circuit.node? id = some n) (hmemory : n.kind.tag = .memory) :
    p.naming.arrayName id ≠ p.name id := by
  intro he
  cases h.injective (owns_array hn hmemory) (owns_node hn) he

theorem drivers_name (hn : p.circuit.node? id = some n) :
    drivers p.lower.entries (p.name id) = drivers (p.itemEntries id) (p.name id) :=
  h.drivers_lower (owns_node hn)

theorem declarations_name (hn : p.circuit.node? id = some n) :
    declarations p.lower.entries (p.name id) =
      if p.circuit.Absorbed id then [] else [.declaring n.kind (p.name id)] := by
  have hown : declarations p.lower.entries (p.name id) =
      declarations (p.declaringEntries id) (p.name id) := h.declarations_lower (owns_node hn)
  have harray : declarations (if n.kind.tag = .memory then [.array (p.naming.arrayName id)] else [])
      (p.name id) = [] := by
    split
    · next hmemory => simp [declarations, Entry.declared?, h.arrayName_ne hn hmemory]
    · rfl
  rw [hown, h.declaringEntries_eq hn, declarations_append, harray, List.nil_append]
  split
  · rfl
  · simp [declarations, Entry.declared?_declaring]

theorem declarations_arrayName (hn : p.circuit.node? id = some n) (hmemory : n.kind.tag = .memory) :
    declarations p.lower.entries (p.naming.arrayName id) = [.array (p.naming.arrayName id)] := by
  have hown : declarations p.lower.entries (p.naming.arrayName id) =
      declarations (p.declaringEntries id) (p.naming.arrayName id) :=
    h.declarations_lower (owns_array hn hmemory)
  have hnode : declarations (if p.circuit.Absorbed id then [] else [.declaring n.kind (p.name id)])
      (p.naming.arrayName id) = [] := by
    split
    · rfl
    · simp [declarations, Entry.declared?_declaring, (h.arrayName_ne hn hmemory).symm]
  rw [hown, h.declaringEntries_eq hn, declarations_append, hnode, if_pos hmemory, List.append_nil]
  simp [declarations, Entry.declared?]

theorem length_declarations {name : String} (hname : p.Shown name) :
    (declarations p.lower.entries name).length = 1 := by
  obtain ⟨id, place, ⟨n, hn, rfl | ⟨hmemory, rfl⟩⟩, hshown, rfl⟩ := hname
  · change (declarations p.lower.entries (p.name id)).length = 1
    rw [h.declarations_name hn, if_neg (hshown rfl)]
    rfl
  · change (declarations p.lower.entries (p.naming.arrayName id)).length = 1
    rw [h.declarations_arrayName hn hmemory]
    rfl

/-- The clock that is added is declared once: no node has its name. -/
theorem declarations_clockName (himplicit : p.implicitClock = true) :
    declarations p.lower.entries clockName = [.port .input clockName] := by
  have hnode {id : NodeId} {e : Entry} (he : e ∈ p.declaringEntries id) :
      e.declared? ≠ some clockName := by
    obtain ⟨name, hname, hnamed⟩ := h.exists_declared he
    obtain ⟨place, hplace, rfl⟩ := hnamed name rfl
    rw [hname, ne_eq, Option.some_inj]
    exact h.ne_clockName himplicit hplace
  have hports : declarations (p.circuit.ids.flatMap p.portEntries) clockName = [] := by
    refine filter_key_eq_nil fun e he => ?_
    obtain ⟨id, -, he⟩ := List.mem_flatMap.mp he
    exact hnode (List.mem_append_left _ he)
  have hdeclarations : declarations (p.order.flatMap p.declarationEntries) clockName = [] := by
    refine filter_key_eq_nil fun e he => ?_
    obtain ⟨id, -, he⟩ := List.mem_flatMap.mp he
    exact hnode (List.mem_append_right _ he)
  rw [p.entries_lower, headEntries, declarations_append, declarations_append, declarations_append,
    hports, hdeclarations, h.declarations_items, clockEntries, if_pos himplicit]
  rfl

/-- What is declared is the added clock, the array of a memory or a node that is not absorbed. -/
theorem cases_declared {e : Entry} {name : String} (he : e ∈ p.lower.entries)
    (hname : e.declared? = some name) :
    p.implicitClock = true ∧ e = .port .input clockName ∨
      ∃ id n, p.circuit.node? id = some n ∧ (n.kind.tag = .memory ∧ e = .array (p.naming.arrayName id) ∨
        ¬ p.circuit.Absorbed id ∧ e = .declaring n.kind (p.name id)) := by
  rw [p.entries_lower, List.mem_append] at he
  rcases he with he | he
  · rcases h.mem_headEntries.mp he with he | ⟨id, -, he⟩
    · exact .inl (mem_clockEntries.mp he)
    · exact .inr ⟨id, h.cases_declaringEntries he⟩
  · obtain ⟨id, -, he⟩ := List.mem_flatMap.mp he
    obtain ⟨n, -, hstatement⟩ := h.statement he
    rw [hstatement.declared?_eq] at hname
    cases hname

theorem statement_of_mem {e : Entry} (he : e ∈ p.lower.entries) (hnone : e.declared? = none) :
    ∃ id n, p.circuit.node? id = some n ∧ p.Statement id n e := by
  rw [p.entries_lower, List.mem_append] at he
  rcases he with he | he
  · obtain ⟨name, hname⟩ := h.exists_declared_of_head he
    simp [hnone] at hname
  · obtain ⟨id, -, he⟩ := List.mem_flatMap.mp he
    exact ⟨id, h.statement he⟩

theorem owns_of_target {e : Entry} {name : String} (he : e ∈ p.lower.entries)
    (hname : e.target? = some name) :
    ∃ id place, Owns p.circuit id place ∧ p.naming.nameOf place = name := by
  obtain ⟨id, n, hn, hstatement⟩ := h.statement_of_mem he (Entry.declared?_of_target hname)
  exact ⟨id, hstatement.named_target hn name hname⟩

theorem length_declarations_of_reads {e : Entry} (he : e ∈ p.lower.entries) {name : String}
    (hname : name ∈ e.reads) : (declarations p.lower.entries name).length = 1 := by
  obtain ⟨id, n, -, hstatement⟩ := h.statement_of_mem he (Entry.declared?_of_reads hname)
  exact h.length_declarations (hstatement.shown_of_reads name hname)

theorem clock_of_mem {place : Place} (hn : p.circuit.node? id = some n)
    (hplace : Owns p.circuit id place) (hunclocked : n.kind.isUnclocked = true) {e : Entry}
    (he : e ∈ drivers p.lower.entries (p.naming.nameOf place)) {clock : String}
    (hclock : e.clock? = some clock) :
    clock = clockName ∧ declarations p.lower.entries clockName = [.port .input clockName] := by
  rw [h.drivers_lower hplace] at he
  have hstatement : p.Statement id n e :=
    h.statement_of_emits hn (h.emits hn) (List.mem_of_mem_filter he)
  obtain ⟨rfl, hlacks⟩ := hstatement.clock_eq hclock hunclocked
  exact ⟨rfl, h.declarations_clockName (h.implicitClock hn hlacks)⟩

/-- A node that is not absorbed has one statement, which reads what the node takes its value from, or
none if that is not connected. -/
theorem reads_drivers (hn : p.circuit.node? id = some n) (hnot : ¬ p.circuit.Absorbed id) :
    (drivers p.lower.entries (p.name id)).map Entry.reads =
      (p.circuit.operands? n).toList.map fun srcs =>
        (if n.kind.tag = .memory then [p.naming.arrayName id] else []) ++ srcs.map p.name := by
  rw [h.drivers_name hn]
  exact (h.emits hn).reads_drivers hnot (h.arrayName_ne hn)

theorem reads_drivers_array (hn : p.circuit.node? id = some n) (hmemory : n.kind.tag = .memory) :
    (drivers p.lower.entries (p.naming.arrayName id)).map Entry.reads =
      n.writePort?.toList.map (·.map p.name) := by
  have hdrivers : drivers p.lower.entries (p.naming.arrayName id) =
      drivers (p.itemEntries id) (p.naming.arrayName id) := h.drivers_lower (owns_array hn hmemory)
  rw [hdrivers]
  exact (h.emits hn).reads_drivers_array hmemory (h.arrayName_ne hn hmemory)

theorem driven {e : Entry} {name : String} (he : e ∈ p.lower.entries) (hname : e.driven? = some name) :
    (drivers p.lower.entries name).length = 1 ∨
      drivers p.lower.entries name = [] ∧ (warnings p.lower.entries name).length = 1 := by
  have hdeclared : e.declared? = some name := Entry.declared?_of_driven hname
  obtain ⟨-, rfl⟩ | ⟨id, n, hn, ⟨-, rfl⟩ | ⟨hnot, rfl⟩⟩ := h.cases_declared he hdeclared
  · cases hname
  · cases hname
  · cases Option.some.inj ((Entry.declared?_declaring n.kind _).symm.trans hdeclared)
    have hwarnings : warnings p.lower.entries (p.name id) = warnings (p.itemEntries id) (p.name id) :=
      h.warnings_lower (owns_node hn)
    rw [h.drivers_name hn, hwarnings]
    refine (h.emits hn).driven ?_ hnot (h.arrayName_ne hn)
    intro hinput
    cases hkind : n.kind <;> simp_all [NodeKind.tag, Entry.declaring, Entry.driven?]

theorem length_drivers_array {name : String} (he : .array name ∈ p.lower.entries) :
    (drivers p.lower.entries name).length ≤ 1 := by
  obtain ⟨-, he⟩ | ⟨id, n, hn, ⟨hmemory, he⟩ | ⟨-, he⟩⟩ := h.cases_declared he rfl
  · cases he
  · cases he
    have hlength := congrArg List.length (h.reads_drivers_array hn hmemory)
    rw [List.length_map, List.length_map] at hlength
    exact hlength.trans_le Option.length_toList_le
  · cases hkind : n.kind <;> simp [hkind, Entry.declaring] at he

theorem drivers_input {name : String} (he : .port .input name ∈ p.lower.entries) :
    drivers p.lower.entries name = [] := by
  obtain ⟨himplicit, he⟩ | ⟨id, n, hn, ⟨-, he⟩ | ⟨hnot, he⟩⟩ := h.cases_declared he rfl
  · cases he
    refine filter_key_eq_nil fun e he htarget => ?_
    obtain ⟨id, place, hplace, hname⟩ := h.owns_of_target he htarget
    exact h.ne_clockName himplicit hplace hname
  · cases he
  · have hinput : name = p.name id ∧ p.circuit.operands? n = none := by
      cases hkind : n.kind <;> simp_all [Entry.declaring, Circuit.operands?]
    obtain ⟨rfl, hsrcs⟩ := hinput
    have hreads := h.reads_drivers hn hnot
    rw [hsrcs] at hreads
    exact List.map_eq_nil_iff.mp hreads

end Sound

end Plan

/-- Under the names of its nodes, a circuit is declared and driven by `entries` as a module has to. -/
structure Describes (c : Circuit) (naming : Naming) (entries : List Entry) : Prop where
  /-- A node is declared once, by its kind, unless it is absorbed. -/
  declared : ∀ {id n}, c.node? id = some n → ¬ c.Absorbed id →
    declarations entries (naming.name id) = [.declaring n.kind (naming.name id)]
  absorbed : ∀ {id}, c.Absorbed id → declarations entries (naming.name id) = []
  /-- A memory has one array besides. -/
  array : ∀ {id n}, c.node? id = some n → n.kind.tag = .memory →
    declarations entries (naming.arrayName id) = [.array (naming.arrayName id)]
  /-- A node that is not absorbed takes its value from its operands, if they are connected. -/
  sources : ∀ {id n}, c.node? id = some n → ¬ c.Absorbed id →
    (drivers entries (naming.name id)).map Entry.reads = (c.operands? n).toList.map fun srcs =>
      (if n.kind.tag = .memory then [naming.arrayName id] else []) ++ srcs.map naming.name
  /-- An array is written through the write port of its memory, if that is connected in full. -/
  port : ∀ {id n}, c.node? id = some n → n.kind.tag = .memory →
    (drivers entries (naming.arrayName id)).map Entry.reads =
      n.writePort?.toList.map (·.map naming.name)
  /-- What a statement reads is declared once. -/
  reads : ∀ e ∈ entries, ∀ name ∈ e.reads, (declarations entries name).length = 1
  /-- What was given no clock has the one that is added, and that is declared. -/
  clocked : ∀ {id n place}, c.node? id = some n → Owns c id place → n.kind.isUnclocked = true →
    ∀ e ∈ drivers entries (naming.nameOf place), ∀ clock, e.clock? = some clock →
      clock = clockName ∧ declarations entries clockName = [.port .input clockName]
  /-- A wire, register or output is driven once, or there is one warning that it is not driven. -/
  driven : ∀ e ∈ entries, ∀ name, e.driven? = some name →
    (drivers entries name).length = 1 ∨
      drivers entries name = [] ∧ (warnings entries name).length = 1
  stored : ∀ name, .array name ∈ entries → (drivers entries name).length ≤ 1
  undriven : ∀ name, .port .input name ∈ entries → drivers entries name = []

theorem Plan.Sound.describes {p : Plan} (h : p.Sound) :
    Describes p.circuit p.naming p.lower.entries where
  declared hn hnot := (h.declarations_name hn).trans (if_neg hnot)
  absorbed := by
    intro id habsorbed
    obtain ⟨n, hn, -⟩ := habsorbed.1
    exact (h.declarations_name hn).trans (if_pos habsorbed)
  array := h.declarations_arrayName
  sources := h.reads_drivers
  port := h.reads_drivers_array
  reads _ he _ := h.length_declarations_of_reads he
  clocked hn hplace hunclocked _ he _ := h.clock_of_mem hn hplace hunclocked he
  driven _ he _ := h.driven he
  stored _ := h.length_drivers_array
  undriven _ := h.drivers_input

/-- A circuit without combinational cycles is lowered, by a plan that lowering can rely on. -/
theorem exists_plan (h : c.Reachable) (hacyclic : c.Acyclic) :
    ∃ order, c.order = .ok order ∧ (Plan.ofCircuit c order).Sound ∧
      ofCircuit c = .ok (Plan.ofCircuit c order).lower := by
  obtain ⟨order, horder, ho⟩ := h.wellFormed.exists_isOrder hacyclic
  refine ⟨order, horder, ?_, ?_⟩
  · exact sound_ofCircuit h.wellFormed ho
  · rw [ofCircuit, horder]
    rfl

/-- The text of the module of a circuit without combinational cycles describes the circuit. -/
theorem text_describes_circuit (h : c.Reachable) (hacyclic : c.Acyclic) :
    ∃ order m, c.order = .ok order ∧ ofCircuit c = .ok m ∧
      Describes c (Plan.ofCircuit c order).naming (Entry.ofText m.text) := by
  obtain ⟨order, horder, hsound, hlower⟩ := exists_plan h hacyclic
  refine ⟨order, _, horder, hlower, ?_⟩
  rw [ofText_text hsound.legal_lower]
  exact hsound.describes

/-- Two outputs that share the proxy of one of them, so that the other's has no reader; an output that
is read; an input with the name of the added clock; a register and a memory that are not connected in
full. -/
def patchbayCalls : List Call :=
  [.input 4 "clk" .unknown, .memory 4 2 [] "log" .unknown, .connect ⟨2⟩ 1 (some ⟨0⟩),
   .register 4 none "state" .unknown, .register 4 (some ⟨1⟩) "count" .unknown, .connectNext ⟨4⟩ ⟨1⟩,
   .output 4 "left" .unknown, .drive ⟨6⟩ ⟨1⟩, .output 4 "right" .unknown,
   .connect ⟨8⟩ 0 (some ⟨5⟩), .operation { op := .add } ⟨6⟩ (some ⟨2⟩) "sum" .unknown]

def patchbay : Circuit := .ofCalls patchbayCalls

theorem text_describes_patchbay :
    patchbay.Reachable ∧ patchbay.Acyclic ∧ patchbay.Absorbed ⟨5⟩ ∧ ¬ patchbay.Absorbed ⟨7⟩ ∧
      ∃ order m, patchbay.order = .ok order ∧ ofCircuit patchbay = .ok m ∧
        Describes patchbay (Plan.ofCircuit patchbay order).naming (Entry.ofText m.text) := by
  have hreachable : patchbay.Reachable := Circuit.reachableBy_ofCalls fun _ _ => trivial
  have horder : patchbay.order = .ok [⟨0⟩, ⟨1⟩, ⟨2⟩, ⟨3⟩, ⟨4⟩, ⟨5⟩, ⟨6⟩, ⟨7⟩, ⟨8⟩, ⟨9⟩] := by
    decide +kernel
  have hacyclic : patchbay.Acyclic := (Circuit.isOrder_of_order hreachable.wellFormed horder).acyclic
  have hshared : patchbay.Absorbed ⟨5⟩ ∧ ¬ patchbay.Absorbed ⟨7⟩ := by decide +kernel
  exact ⟨hreachable, hacyclic, hshared.1, hshared.2, text_describes_circuit hreachable hacyclic⟩

end Netlist.Verilog
