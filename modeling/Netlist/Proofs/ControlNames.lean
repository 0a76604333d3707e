import Netlist.Proofs.Description

namespace Netlist

namespace Node

/-- The nodes that control a node where it is assigned to: the clock of a register with a next value or of
a memory with a write port, and the reset of a register that has an initial value as well. -/
def controls (n : Node) : List NodeId :=
  match n.kind with
  | .register clock reset _ =>
    if (n.source? 1).isSome then clock.toList ++ (if (n.source? 0).isSome then reset.toList else [])
    else []
  | .memory _ _ clock => if n.writePort?.isSome then clock.toList else []
  | _ => []

/-- Whether a node that is assigned to at the edges of a clock was given none. -/
def awaitsClock (n : Node) : Bool :=
  match n.kind with
  | .register clock _ _ => clock.isNone && (n.source? 1).isSome
  | .memory _ _ clock => clock.isNone && n.writePort?.isSome
  | _ => false

theorem lacksClock_of_awaitsClock {n : Node} (h : n.awaitsClock = true) :
    Verilog.lacksClock n = true := by
  unfold awaitsClock at h
  unfold Verilog.lacksClock
  cases hkind : n.kind with
  | register clock reset enable =>
    rw [hkind] at h
    exact (Bool.and_eq_true_iff.mp h).1
  | memory depth init clock =>
    rw [hkind] at h
    obtain ⟨hclock, hport⟩ := Bool.and_eq_true_iff.mp h
    obtain ⟨port, hport⟩ := Option.isSome_iff_exists.mp hport
    exact Bool.and_eq_true_iff.mpr ⟨hclock, isSome_enable hport⟩
  | _ => simp [hkind] at h

end Node

namespace Circuit

/-- In a circuit of typed calls, what controls a node is a node. -/
theorem WellTyped.exists_control {c : Circuit} (hc : c.WellTyped) {id control : NodeId} {n : Node}
    (hn : c.node? id = some n) (hcontrol : control ∈ n.controls) : ∃ m, c.node? control = some m := by
  have hinside {src : Option NodeId} (h : c.Inside src) (hmem : control ∈ src.toList) :
      ∃ m, c.node? control = some m :=
    exists_node_of_mem (mem_ids.mpr (h control (Option.mem_toList.mp hmem)))
  have hsuits := hc.suits hn
  unfold Node.controls at hcontrol
  cases hkind : n.kind with
  | register clock reset enable =>
    rw [hkind] at hsuits
    simp only [hkind] at hcontrol
    split at hcontrol
    · rcases List.mem_append.mp hcontrol with hmem | hmem
      · exact hinside hsuits.1 hmem
      · split at hmem
        · exact hinside hsuits.2 hmem
        · cases hmem
    · cases hcontrol
  | memory depth init clock =>
    rw [hkind] at hsuits
    simp only [hkind] at hcontrol
    split at hcontrol
    · exact hinside hsuits.1 hcontrol
    · cases hcontrol
  | _ => simp [hkind] at hcontrol

end Circuit

namespace Verilog

namespace Entry

def controls : Entry → List String
  | latch clock _ reset _ => clock :: reset.toList
  | store clock .. => [clock]
  | _ => []

/-- The name of a port, a wire or a register. -/
def net? : Entry → Option String
  | port _ name | wire name | reg name => some name
  | _ => none

theorem declared?_of_net {e : Entry} {name : String} (h : e.net? = some name) :
    e.declared? = some name := by
  cases e with
  | port direction other => exact h
  | wire other => exact h
  | reg other => exact h
  | _ => cases h

theorem net?_declaring (kind : NodeKind) (name : String) : (declaring kind name).net? = some name := by
  cases kind <;> rfl

theorem declared?_of_controls {e : Entry} {name : String} (h : name ∈ e.controls) :
    e.declared? = none := by
  cases e with
  | latch => rfl
  | store => rfl
  | _ => cases h

end Entry

/-- Each name of a clock or a reset is that of a port, a wire or a register. -/
def ControlsResolve (entries : List Entry) : Prop :=
  ∀ e ∈ entries, ∀ name ∈ e.controls, ∃ d ∈ entries, d.net? = some name

namespace Plan

variable {p : Plan} {id : NodeId} {n : Node}

/-- The names that control a node in the text, among them the clock that is added for lack of another. -/
def controlNames (p : Plan) (n : Node) : List String :=
  (if n.awaitsClock then [clockName] else []) ++ n.controls.map p.name

theorem controls_lowerRegister {clock reset enable : Option NodeId}
    (hkind : n.kind = .register clock reset enable) :
    ((p.lowerRegister id n clock reset).filterMap Item.statement?).flatMap Entry.controls =
      p.controlNames n := by
  have hclock : [p.clock clock] =
      (if clock.isNone then [clockName] else []) ++ clock.toList.map p.name := by
    cases clock <;> rfl
  unfold lowerRegister controlNames Node.controls Node.awaitsClock
  cases hnext : n.source? 1 with
  | none =>
    simp only [hkind]
    simp [Item.statement?, Entry.controls]
  | some next =>
    simp only [hkind, Option.isSome_some, Bool.and_true, if_true, List.map_append, ← List.append_assoc,
      ← hclock]
    cases hinit : n.source? 0 with
    | none => cases reset <;> rfl
    | some init =>
      cases reset with
      | some rst => rfl
      | none =>
        have hstart : ((p.circuit.constant? init).toList.map fun value =>
            Item.initial (p.name id) (value.truncate n.width)).filterMap Item.statement? = [] := by
          cases p.circuit.constant? init <;> rfl
        simp only [List.filterMap_append, hstart, List.nil_append]
        rfl

theorem controls_lowerMemory {depth : Nat} {init : Array Word} {clock : Option NodeId}
    (hkind : n.kind = .memory depth init clock) :
    ((p.lowerMemory id n init clock).filterMap Item.statement?).flatMap Entry.controls =
      p.controlNames n := by
  have hemits : p.Emits id n ((p.lowerMemory id n init clock).filterMap Item.statement?) :=
    emits_memory hkind
  have hmemory : n.kind.tag = .memory := by simp [hkind, NodeKind.tag]
  unfold controlNames Node.controls Node.awaitsClock
  generalize (p.lowerMemory id n init clock).filterMap Item.statement? = es at hemits
  cases hemits with
  | nothing _ hnot => exact absurd hmemory hnot
  | warning _ hnot => exact absurd hmemory hnot
  | assign _ hnot => exact absurd hmemory hnot
  | latch hregister => simp [hregister] at hkind
  | memory _ _ hport hwrite => rcases hwrite with rfl | rfl <;> simp [hkind, hport, Entry.controls]
  | store hstore _ hport =>
    cases hkind.symm.trans hstore
    cases clock <;> simp [hkind, hport, Entry.controls, Plan.clock]

theorem controls_lowerOperation (op : Opcode) (signed : Bool) :
    ([p.lowerOperation id n op signed].filterMap Item.statement?).flatMap Entry.controls = [] := by
  unfold lowerOperation
  cases p.operand? n 0 signed <;> cases p.operand? n 1 (signed && !op.isShift) <;>
    split <;> rfl

theorem controlNames_of_stateless (p : Plan) (h : n.kind.isStateful = false) : p.controlNames n = [] := by
  unfold controlNames Node.controls Node.awaitsClock
  cases hkind : n.kind with
  | register => simp [hkind, NodeKind.isStateful] at h
  | memory => simp [hkind, NodeKind.isStateful] at h
  | _ => rfl

theorem controls_itemEntries (hn : p.circuit.node? id = some n) :
    (p.itemEntries id).flatMap Entry.controls = p.controlNames n := by
  have hstateless (h : n.kind.isStateful = false) := p.controlNames_of_stateless h
  unfold itemEntries lowerNode
  simp only [hn]
  cases hkind : n.kind with
  | register clock reset enable => exact controls_lowerRegister hkind
  | memory depth init clock => exact controls_lowerMemory hkind
  | literal value =>
    rw [hstateless (by rw [hkind]; rfl)]
    rfl
  | input =>
    rw [hstateless (by rw [hkind]; rfl)]
    rfl
  | output =>
    rw [hstateless (by rw [hkind]; rfl)]
    cases p.driver? n <;> rfl
  | proxy =>
    rw [hstateless (by rw [hkind]; rfl)]
    cases p.isAbsorbed id <;> cases n.source? 0 <;> rfl
  | operation op signed =>
    rw [hstateless (by rw [hkind]; rfl)]
    exact controls_lowerOperation op signed

namespace Sound

variable (h : p.Sound)
include h

theorem exists_statement {e : Entry} {name : String} (he : e ∈ p.lower.entries)
    (hname : name ∈ e.controls) :
    ∃ id n, p.circuit.node? id = some n ∧ name ∈ p.controlNames n := by
  rw [p.entries_lower, List.mem_append] at he
  rcases he with he | he
  · obtain ⟨other, hother⟩ := h.exists_declared_of_head he
    rw [Entry.declared?_of_controls hname] at hother
    cases hother
  · obtain ⟨id, -, he⟩ := List.mem_flatMap.mp he
    obtain ⟨n, hn, -⟩ := h.statement he
    exact ⟨id, n, hn, controls_itemEntries hn ▸ List.mem_flatMap.mpr ⟨e, he, hname⟩⟩

theorem exists_control_entry (hn : p.circuit.node? id = some n) {name : String}
    (hname : name ∈ p.controlNames n) : ∃ e ∈ p.lower.entries, name ∈ e.controls := by
  rw [← controls_itemEntries hn] at hname
  obtain ⟨e, he, hname⟩ := List.mem_flatMap.mp hname
  refine ⟨e, ?_, hname⟩
  rw [p.entries_lower]
  refine List.mem_append_right _ (List.mem_flatMap.mpr ⟨id, ?_, he⟩)
  exact h.isOrder.mem.mpr (Circuit.mem_ids_of_node? hn)

theorem exists_net_clockName (himplicit : p.implicitClock = true) :
    ∃ d ∈ p.lower.entries, d.net? = some clockName := by
  have hdeclared := h.declarations_clockName himplicit
  have hmem : Entry.port .input clockName ∈ declarations p.lower.entries clockName := by simp [hdeclared]
  exact ⟨_, List.mem_of_mem_filter hmem, rfl⟩

theorem exists_net_name_iff (hn : p.circuit.node? id = some n) :
    (∃ d ∈ p.lower.entries, d.net? = some (p.name id)) ↔ ¬ p.circuit.Absorbed id := by
  have hdeclared := h.declarations_name hn
  constructor
  · rintro ⟨d, hd, hnet⟩ habsorbed
    have hmem : d ∈ declarations p.lower.entries (p.name id) :=
      List.mem_filter.mpr ⟨hd, decide_eq_true (Entry.declared?_of_net hnet)⟩
    rw [hdeclared, if_pos habsorbed] at hmem
    cases hmem
  · intro hnot
    rw [if_neg hnot] at hdeclared
    have hmem : Entry.declaring n.kind (p.name id) ∈ declarations p.lower.entries (p.name id) := by
      simp [hdeclared]
    exact ⟨_, List.mem_of_mem_filter hmem, Entry.net?_declaring n.kind _⟩

/-- What controls something has to be declared, and all is but absorbed proxies. -/
theorem controlsResolve_iff (hc : p.circuit.WellTyped) : ControlsResolve p.lower.entries ↔
    ∀ id n, p.circuit.node? id = some n → ∀ control ∈ n.controls, ¬ p.circuit.Absorbed control := by
  constructor
  · intro hresolve id n hn control hcontrol
    obtain ⟨m, hm⟩ := hc.exists_control hn hcontrol
    have hname : p.name control ∈ p.controlNames n :=
      List.mem_append_right _ (List.mem_map_of_mem hcontrol)
    obtain ⟨e, he, hname⟩ := h.exists_control_entry hn hname
    exact (h.exists_net_name_iff hm).mp (hresolve e he _ hname)
  · intro hnot e he name hname
    obtain ⟨id, n, hn, hname⟩ := h.exists_statement he hname
    rcases List.mem_append.mp hname with hadded | hgiven
    · split at hadded
      · next hawaits =>
        cases List.mem_singleton.mp hadded
        exact h.exists_net_clockName (h.implicitClock hn (Node.lacksClock_of_awaitsClock hawaits))
      · cases hadded
    · obtain ⟨control, hcontrol, rfl⟩ := List.mem_map.mp hgiven
      obtain ⟨m, hm⟩ := hc.exists_control hn hcontrol
      exact (h.exists_net_name_iff hm).mpr (hnot id n hn control hcontrol)

end Sound

end Plan

/-- In the text of the module of a circuit of typed calls, each name of a clock or a reset is that of a
port, a wire or a register, exactly if no absorbed proxy clocks or resets what is assigned to. -/
theorem controls_resolve_iff_not_absorbed {c : Circuit} (h : c.Typed) (hacyclic : c.Acyclic) :
    ∃ m, ofCircuit c = .ok m ∧ (ControlsResolve (Entry.ofText m.text) ↔
      ∀ id n, c.node? id = some n → ∀ control ∈ n.controls, ¬ c.Absorbed control) := by
  obtain ⟨order, -, hsound, hmodule⟩ := exists_plan h.reachable hacyclic
  refine ⟨_, hmodule, ?_⟩
  rw [ofText_text hsound.legal_lower]
  exact hsound.controlsResolve_iff h.wellTyped

/-- A register with a clock and a reset from inputs, and an output that shows the clock. -/
def clockedCalls : List Call :=
  [.input 1 "clk" .unknown, .input 1 "rst" .unknown, .useClock ⟨1⟩, .useReset ⟨3⟩,
   .literal (.ofNat 1 0) "zero" .unknown, .register 1 (some ⟨4⟩) "r" .unknown, .connectNext ⟨5⟩ ⟨5⟩,
   .output 1 "y" .unknown, .drive ⟨7⟩ ⟨1⟩]

def clocked : Circuit := .ofCalls clockedCalls

theorem clocked_controls_resolve :
    clocked.Typed ∧ clocked.Acyclic ∧ clocked.Absorbed ⟨6⟩ ∧
      ∃ m, ofCircuit clocked = .ok m ∧ ControlsResolve (Entry.ofText m.text) := by
  have htyped : clocked.Typed := Circuit.reachableBy_ofCalls (by decide)
  have horder : clocked.order = .ok [⟨0⟩, ⟨1⟩, ⟨2⟩, ⟨3⟩, ⟨4⟩, ⟨5⟩, ⟨6⟩, ⟨7⟩] := by decide +kernel
  have hacyclic : clocked.Acyclic :=
    (Circuit.isOrder_of_order htyped.reachable.wellFormed horder).acyclic
  have hcontrols : ∀ id ∈ clocked.ids, ∀ control ∈ ((clocked.node? id).map Node.controls).getD [],
      ¬ clocked.Absorbed control := by decide +kernel
  obtain ⟨m, hm, hresolve⟩ := controls_resolve_iff_not_absorbed htyped hacyclic
  refine ⟨htyped, hacyclic, by decide +kernel, m, hm, hresolve.mpr fun id n hn control hcontrol => ?_⟩
  refine hcontrols id (Circuit.mem_ids_of_node? hn) control ?_
  rwa [hn]

/-- A register that is reset by what the proxy of an output collects. -/
def relayedCalls : List Call :=
  [.input 1 "rst" .unknown, .literal (.ofNat 1 0) "zero" .unknown, .output 1 "y" .unknown, .useReset ⟨3⟩,
   .register 1 (some ⟨2⟩) "r" .unknown, .connectNext ⟨5⟩ ⟨5⟩, .drive ⟨4⟩ ⟨0⟩]

def relayed : Circuit := .ofCalls relayedCalls

/-- The text resets the register by the name of that proxy and declares nothing under that name. -/
theorem relayed_reset_undeclared :
    relayed.Typed ∧ relayed.Acyclic ∧ ∃ order m, relayed.order = .ok order ∧ ofCircuit relayed = .ok m ∧
      (∃ e ∈ Entry.ofText m.text, (Plan.ofCircuit relayed order).name ⟨3⟩ ∈ e.controls) ∧
      declarations (Entry.ofText m.text) ((Plan.ofCircuit relayed order).name ⟨3⟩) = [] := by
  have htyped : relayed.Typed := Circuit.reachableBy_ofCalls (by decide)
  have horder : relayed.order = .ok [⟨0⟩, ⟨1⟩, ⟨2⟩, ⟨3⟩, ⟨4⟩, ⟨5⟩] := by decide +kernel
  have hacyclic : relayed.Acyclic :=
    (Circuit.isOrder_of_order htyped.reachable.wellFormed horder).acyclic
  have habsorbed : relayed.Absorbed ⟨3⟩ := by decide +kernel
  obtain ⟨n, hn, hcontrols⟩ : ∃ n, relayed.node? ⟨5⟩ = some n ∧ n.controls = [⟨3⟩] := ⟨_, rfl, rfl⟩
  obtain ⟨proxy, hproxy, -⟩ := habsorbed.1
  obtain ⟨order, horder', hsound, hmodule⟩ := exists_plan htyped.reachable hacyclic
  refine ⟨htyped, hacyclic, order, _, horder', hmodule, ?_⟩
  rw [ofText_text hsound.legal_lower]
  refine ⟨hsound.exists_control_entry hn ?_, (hsound.declarations_name hproxy).trans (if_pos habsorbed)⟩
  exact List.mem_append_right _ (List.mem_map_of_mem (by simp [hcontrols]))

end Verilog

end Netlist
