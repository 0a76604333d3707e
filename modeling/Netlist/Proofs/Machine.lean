import Mathlib.Logic.Function.Basic
import Netlist.Proofs.Dependency
import Netlist.Simulation.Basic

namespace Netlist

structure Machine where
  inputs : NodeId → Word
  registers : NodeId → Word
  /-- The word of each memory at each address. -/
  memories : NodeId → Nat → Word
  /-- Whether there has been a tick. -/
  running : Bool

/-- Values for inputs, which are put on them one after the other. -/
abbrev Stimulus := List (NodeId × Word)

namespace Machine

/-- The value of node `n` when its connected sources have the values `operand`. -/
def shows (m : Machine) (id : NodeId) (n : Node) (operand : Nat → Option Word) : Word :=
  match n.kind with
  | .literal value => value
  | .input .. => m.inputs id
  | .register .. => m.registers id
  | .memory depth .. =>
    let address := ((operand 0).map (·.toNat % depth)).getD 0
    m.memories id address
  | .operation op signed =>
    let lhs := (operand 0).getD (.zero n.width)
    let rhs := (operand 1).getD (.zero n.width)
    (op.eval? signed n.width lhs rhs).getD (.zero n.width)
  | .output | .proxy =>
    ((operand 0).map fun driver => .ofNat n.width driver.toNat).getD (.zero n.width)

/-- A source across a clock edge has no part in the value. -/
theorem shows_congr {m : Machine} {id : NodeId} {n : Node} {f g : Nat → Option Word}
    (h : ∀ pos, n.kind.crossesClock pos = false → f pos = g pos) :
    m.shows id n f = m.shows id n g := by
  unfold shows
  cases hkind : n.kind with
  | literal => rfl
  | input => rfl
  | register => rfl
  | output => simp only [h 0 (by simp [hkind, NodeKind.crossesClock])]
  | proxy => simp only [h 0 (by simp [hkind, NodeKind.crossesClock])]
  | memory => simp only [h 0 (by simp [hkind, NodeKind.crossesClock])]
  | operation =>
    simp only [h 0 (by simp [hkind, NodeKind.crossesClock]),
      h 1 (by simp [hkind, NodeKind.crossesClock])]

end Machine

namespace Circuit

variable {c : Circuit}

instance (c : Circuit) (src id : NodeId) : Decidable (c.Depends src id) :=
  decidable_of_iff _ mem_dependencies

/-- The value of each node, by recursion on what it depends on. -/
noncomputable def value (c : Circuit) (wf : WellFounded c.Depends) (m : Machine) : NodeId → Word :=
  wf.fix fun id value =>
    match c.node? id with
    | none => .zero 0
    | some n => m.shows id n fun pos =>
      (n.source? pos).bind fun src => if h : c.Depends src id then some (value src h) else none

theorem value_eq (wf : WellFounded c.Depends) (m : Machine) {id : NodeId} {n : Node}
    (hn : c.node? id = some n) :
    c.value wf m id = m.shows id n fun pos => (n.source? pos).map (c.value wf m) := by
  rw [value, wf.fix_eq]
  simp only [hn]
  refine Machine.shows_congr fun pos hpos => ?_
  cases hsrc : n.source? pos with
  | none => rfl
  | some src =>
    have hdepends : c.Depends src id := ⟨n, pos, hn, hsrc, hpos⟩
    simp [hdepends]

section Kinds

variable (wf : WellFounded c.Depends) (m : Machine) (id : NodeId) {id' lhs rhs src : NodeId}
  {op : Opcode} {signed : Bool} {width : Nat} {name : String} {loc : Location}

theorem value_literal {word : Word}
    (hn : c.node? id = some ⟨id', .literal word, width, [], name, loc⟩) : c.value wf m id = word :=
  value_eq wf m hn

theorem value_input {default : Word} {driver proxy : Option NodeId}
    (hn : c.node? id = some ⟨id', .input default driver proxy, width, [], name, loc⟩) :
    c.value wf m id = m.inputs id :=
  value_eq wf m hn

theorem value_register {clock reset enable : Option NodeId} {sources : List (Option NodeId)}
    (hn : c.node? id = some ⟨id', .register clock reset enable, width, sources, name, loc⟩) :
    c.value wf m id = m.registers id :=
  value_eq wf m hn

theorem value_proxy (hn : c.node? id = some ⟨id', .proxy, width, [some src], name, loc⟩) :
    c.value wf m id = .ofNat width (c.value wf m src).toNat :=
  value_eq wf m hn

theorem value_output (hn : c.node? id = some ⟨id', .output, width, [some src], name, loc⟩) :
    c.value wf m id = .ofNat width (c.value wf m src).toNat :=
  value_eq wf m hn

theorem value_unary
    (hn : c.node? id = some ⟨id', .operation op signed, width, [some src], name, loc⟩) :
    c.value wf m id = (op.eval? signed width (c.value wf m src) (.zero width)).getD (.zero width) :=
  value_eq wf m hn

theorem value_binary
    (hn : c.node? id = some ⟨id', .operation op signed, width, [some lhs, some rhs], name, loc⟩) :
    c.value wf m id =
      (op.eval? signed width (c.value wf m lhs) (c.value wf m rhs)).getD (.zero width) :=
  value_eq wf m hn

theorem value_memory {depth : Nat} {init : Array Word} {clock : Option NodeId}
    {ports : List (Option NodeId)}
    (hn : c.node? id = some ⟨id', .memory depth init clock, width, some src :: ports, name, loc⟩) :
    c.value wf m id = m.memories id ((c.value wf m src).toNat % depth) :=
  value_eq wf m hn

end Kinds

/-- A register or memory is among the nodes from which the value of `id` is made. -/
def ReadsState (c : Circuit) (id : NodeId) : Prop :=
  ∃ element n, c.node? element = some n ∧ n.kind.isStateful = true ∧
    Relation.ReflTransGen c.Depends element id

theorem readsState_iff {id : NodeId} {n : Node} (hn : c.node? id = some n) :
    c.ReadsState id ↔
      n.kind.isStateful = true ∨ ∃ src, c.Depends src id ∧ c.ReadsState src := by
  constructor
  · rintro ⟨element, e, he, hstateful, hpath⟩
    rcases hpath.cases_tail with rfl | ⟨src, hsrc, hlast⟩
    · cases hn.symm.trans he
      exact .inl hstateful
    · exact .inr ⟨src, hlast, element, e, he, hstateful, hsrc⟩
  · rintro (hstateful | ⟨src, hsrc, element, e, he, hstateful, hpath⟩)
    · exact ⟨id, n, hn, hstateful, .refl⟩
    · exact ⟨element, e, he, hstateful, hpath.tail hsrc⟩

/-- What does not read state is the same in all states. -/
theorem value_eq_of_not_readsState (wf : WellFounded c.Depends) {m m' : Machine}
    (hinputs : m'.inputs = m.inputs) {id : NodeId} (h : ¬ c.ReadsState id) :
    c.value wf m' id = c.value wf m id := by
  induction id using wf.induction with
  | _ id ih =>
    cases hn : c.node? id with
    | none =>
      rw [value, value, wf.fix_eq, wf.fix_eq]
      simp only [hn]
    | some n =>
      rw [readsState_iff hn, not_or] at h
      -- none of the sources that the value is made from reads state either
      have hsources {pos : Nat} (hpos : n.kind.crossesClock pos = false) :
          (n.source? pos).map (c.value wf m') = (n.source? pos).map (c.value wf m) := by
        refine Option.map_congr fun src hsrc => ?_
        have hdepends : c.Depends src id := ⟨n, pos, hn, hsrc, hpos⟩
        exact ih src hdepends fun hreads => h.2 ⟨src, hdepends, hreads⟩
      rw [value_eq wf m' hn, value_eq wf m hn, Machine.shows_congr fun pos => hsources]
      unfold Machine.shows
      cases hkind : n.kind with
      | register => exact absurd (by rw [hkind]; rfl) h.1
      | memory => exact absurd (by rw [hkind]; rfl) h.1
      | input => simp only [hinputs]
      | _ => rfl

end Circuit

namespace Node

/-- What a register loads at a clock edge, given the value of each node: in reset its initial value if
that is connected, and otherwise its next value. Without a next value it holds. -/
def loads (n : Node) (value : NodeId → Word) : Option Word :=
  match n.kind with
  | .register _ reset _ =>
    let inReset := reset.any fun id => (value id).toNat != 0
    let source := if inReset && (n.source? 0).isSome then n.source? 0 else n.source? 1
    source.map fun id => .ofNat n.width (value id).toNat
  | _ => none

/-- The address and the word that a memory stores at a clock edge, if it is enabled. -/
def stores (n : Node) (value : NodeId → Word) : Option (Nat × Word) :=
  match n.kind with
  | .memory depth .. =>
    let enabled := (n.source? 3).any fun id => (value id).toNat != 0
    let address := ((n.source? 1).map fun id => (value id).toNat % depth).getD 0
    let word := ((n.source? 2).map fun id => .ofNat n.width (value id).toNat).getD (.zero n.width)
    if enabled then some (address, word) else none
  | _ => none

end Node

namespace Machine

variable (c : Circuit)

/-- The first tick is no clock edge for an element that samples a value which depends on state. -/
def Holds (m : Machine) (n : Node) : Prop :=
  m.running = false ∧ ∃ src ∈ n.sampled, c.ReadsState src

noncomputable instance (m : Machine) (n : Node) : Decidable (m.Holds c n) :=
  Classical.propDecidable _

/-- One tick. Every register and memory changes on the values from before it. -/
noncomputable def step (wf : WellFounded c.Depends) (m : Machine) : Machine where
  inputs := m.inputs
  registers id :=
    match c.node? id with
    | some n =>
      if m.Holds c n then m.registers id else (n.loads (c.value wf m)).getD (m.registers id)
    | none => m.registers id
  memories id :=
    match c.node? id with
    | some n =>
      if m.Holds c n then m.memories id
      else
        match n.stores (c.value wf m) with
        | some (address, word) => Function.update (m.memories id) address word
        | none => m.memories id
    | none => m.memories id
  running := true

/-- Before the first tick a register holds its initial value if that is a constant, and zero
otherwise. -/
def powerOn : Machine where
  inputs id :=
    match (c.node? id).map Node.kind with
    | some (.input value _ _) => value
    | _ => .zero 0
  registers id :=
    match c.node? id with
    | some n =>
      let constant := (n.source? 0).bind c.constant?
      (constant.map fun value => .ofNat n.width value.toNat).getD (.zero n.width)
    | none => .zero 0
  memories id address :=
    match (c.node? id).map Node.kind with
    | some (.memory _ init _) => init.getD address (.zero 0)
    | _ => .zero 0
  running := false

def put (m : Machine) (id : NodeId) (value : Word) : Machine :=
  { m with inputs := Function.update m.inputs id value }

def drive (m : Machine) (stimulus : Stimulus) : Machine :=
  stimulus.foldl (fun m entry => m.put entry.1 entry.2) m

/-- A tick after each stimulus, from power-on. -/
noncomputable def run (wf : WellFounded c.Depends) (stimuli : List Stimulus) : Machine :=
  stimuli.foldl (fun m stimulus => (m.drive stimulus).step c wf) (powerOn c)

section Steps

variable {c : Circuit} (wf : WellFounded c.Depends) {m : Machine} {id : NodeId} {n : Node}

theorem registers_step (hn : c.node? id = some n) (hrunning : m.running = true) :
    (m.step c wf).registers id = (n.loads (c.value wf m)).getD (m.registers id) := by
  simp [step, hn, Holds, hrunning]

theorem memories_step (hn : c.node? id = some n) (hrunning : m.running = true) :
    (m.step c wf).memories id = (n.stores (c.value wf m)).elim (m.memories id) fun store =>
      Function.update (m.memories id) store.1 store.2 := by
  have hedge : ¬ m.Holds c n := by simp [Holds, hrunning]
  simp only [step, hn, hedge, if_false]
  cases n.stores (c.value wf m) <;> rfl

theorem registers_step_of_holds (hn : c.node? id = some n) (h : m.Holds c n) :
    (m.step c wf).registers id = m.registers id := by
  simp [step, hn, h]

theorem drive_eq (m : Machine) (stimulus : Stimulus) :
    m.drive stimulus = { m with inputs := (m.drive stimulus).inputs } := by
  induction stimulus generalizing m with
  | nil => rfl
  | cons entry rest ih => exact ih (m.put entry.1 entry.2)

theorem running_drive (m : Machine) (stimulus : Stimulus) :
    (m.drive stimulus).running = m.running := by
  rw [drive_eq]

theorem registers_drive (m : Machine) (stimulus : Stimulus) :
    (m.drive stimulus).registers = m.registers := by
  rw [drive_eq]

/-- At the first tick an element that samples what depends on state stays as it is at power-on. -/
theorem registers_first {src : NodeId} (hn : c.node? id = some n) (hsrc : src ∈ n.sampled)
    (hreads : c.ReadsState src) (stimulus : Stimulus) :
    (((powerOn c).drive stimulus).step c wf).registers id = (powerOn c).registers id := by
  have hholds : ((powerOn c).drive stimulus).Holds c n := ⟨running_drive _ _, src, hsrc, hreads⟩
  rw [registers_step_of_holds wf hn hholds, registers_drive]

/-- The machine follows what its stimuli stand for, if the first tick leads to where that starts and
every later tick keeps up with it. -/
theorem run_follows {α β : Type} {stimulus : α → Stimulus} {advance : β → α → β}
    (follows : Machine → β → Prop) {start : β}
    (hfirst : ∀ a, follows (((powerOn c).drive (stimulus a)).step c wf) start)
    (hstep : ∀ {m b} a, follows m b → m.running = true →
      follows ((m.drive (stimulus a)).step c wf) (advance b a))
    {inputs : List α} (hne : inputs ≠ []) :
    follows (run c wf (inputs.map stimulus)) (inputs.tail.foldl advance start) := by
  obtain ⟨a, rest, rfl⟩ := List.exists_cons_of_ne_nil hne
  rw [run, List.foldl_map, List.foldl_cons, List.tail_cons]
  have hrest {m : Machine} {b : β} (h : follows m b) (hrunning : m.running = true) : follows
      (rest.foldl (fun m a => (m.drive (stimulus a)).step c wf) m) (rest.foldl advance b) := by
    induction rest generalizing m b with
    | nil => exact h
    | cons a rest ih => exact ih (List.cons_ne_nil _ _) (hstep a h hrunning) rfl
  exact hrest (hfirst a) rfl

end Steps

end Machine

end Netlist
