import Netlist.Proofs.Settling

namespace Netlist

namespace SideMap

variable {α : Type} (m : SideMap α) (id : NodeId)

theorem contains_insert (a : α) (h : m.contains id = true) :
    (m.insert id a).contains = m.contains := by
  funext other
  simp only [contains, get?_insert] at h ⊢
  split
  · next he => rw [← he, h, Option.isSome_some]
  · rfl

theorem contains_modify (f : α → α) : (m.modify id f).contains = m.contains := by
  funext other
  simp only [contains, get?_modify]
  split
  · exact Option.isSome_map
  · rfl

end SideMap

/-- The sources that a node reads when it settles. -/
def Node.reads (n : Node) : List NodeId :=
  match n.kind with
  | .literal .. | .input .. | .register .. => []
  | .output | .proxy | .memory .. => (n.source? 0).toList
  | .operation .. => (n.source? 0).toList ++ (n.source? 1).toList

namespace Circuit

/-- Whether `id` can settle: all that it reads has a slot, and it has one itself or is a literal. -/
def ready (c : Circuit) (slots : Slots) (id : NodeId) : Bool :=
  match c.node? id with
  | none => true
  | some n => n.reads.all slots.contains && (n.literal?.isSome || slots.contains id)

variable {c : Circuit} {memories : Memories} {slots : Slots} {id : NodeId} {n : Node}

theorem isOk_bind {ε α β : Type} {x : Except ε α} {f : α → Except ε β} {b : Bool}
    (h : ∀ a, (f a).isOk = b) : (x >>= f).isOk = (x.isOk && b) := by
  cases x with
  | error e => rfl
  | ok a => exact h a

theorem isOk_bind_pure {ε α β : Type} (x : Except ε α) (f : α → β) :
    (x >>= fun a => pure (f a)).isOk = x.isOk := by
  cases x <;> rfl

theorem isOk_read (slots : Slots) (source : Option NodeId) :
    (Slots.read slots source).isOk = source.toList.all slots.contains := by
  cases source with
  | none => rfl
  | some src => cases h : slots.get? src <;> simp [Slots.read, SideMap.contains, h] <;> rfl

theorem isOk_operands (slots : Slots) (n : Node) : (operands slots n).isOk =
    ((n.source? 0).toList ++ (n.source? 1).toList).all slots.contains := by
  have hsecond (lhs : Word) : (do
      let rhs := (← Slots.read slots (n.source? 1)).getD (.zero n.width)
      return (lhs, rhs) : Except NodeId (Word × Word)).isOk =
        (n.source? 1).toList.all slots.contains := by
    exact (isOk_bind_pure _ _).trans (isOk_read slots _)
  refine (isOk_bind fun _ => hsecond _).trans ?_
  rw [isOk_read, List.all_append]

theorem isOk_compute (memories : Memories) (slots : Slots) (id : NodeId) (n : Node) :
    (compute memories slots id n).isOk = n.reads.all slots.contains := by
  have hcopy {f : Option Word → Option Word} :
      (Slots.read slots (n.source? 0) >>= fun value => pure (f value)).isOk =
        (n.source? 0).toList.all slots.contains :=
    (isOk_bind_pure _ f).trans (isOk_read slots _)
  unfold compute Node.reads
  cases hkind : n.kind with
  | literal => rfl
  | input => rfl
  | register => rfl
  | output => exact hcopy
  | proxy => exact hcopy
  | memory => exact hcopy
  | operation => exact (isOk_bind_pure _ _).trans (isOk_operands slots n)

theorem isOk_settle (c : Circuit) (memories : Memories) (slots : Slots) (id : NodeId) :
    (c.settle memories slots id).isOk = c.ready slots id := by
  unfold settle ready
  cases c.node? id with
  | none => rfl
  | some n =>
    have hown (value : Option Word) :
        (do if n.literal?.isNone && !slots.contains id then throw id
            return value : Except NodeId (Option Word)).isOk =
          (n.literal?.isSome || slots.contains id) := by
      cases n.literal? <;> cases slots.contains id <;> rfl
    exact (isOk_bind hown).trans (by rw [isOk_compute])

theorem ready_congr {slots' : Slots} (h : slots'.contains = slots.contains) (id : NodeId) :
    c.ready slots' id = c.ready slots id := by
  rw [ready, ready, h]

theorem compute_of_rests (hrests : n.rests = true) : compute memories slots id n = .ok none := by
  unfold Node.rests at hrests
  unfold compute
  cases hkind : n.kind <;> simp_all [Slots.read, bind, Except.bind, pure, Except.pure]

theorem settle_eq_some {value : Word} (h : c.settle memories slots id = .ok (some value)) :
    slots.contains id = true ∧ ∃ n, c.node? id = some n ∧ n.rests = false := by
  have hready : c.ready slots id = true := by
    rw [← isOk_settle c memories slots id, h]
    rfl
  unfold settle at h
  unfold ready at hready
  cases hn : c.node? id with
  | none => simp [hn] at h
  | some n =>
    rw [hn] at h hready
    have hrests : n.rests = false := by
      by_contra hrests
      rw [Bool.not_eq_false] at hrests
      simp only [compute_of_rests hrests, bind, Except.bind, pure, Except.pure] at h
      split at h <;> cases h
    have hliteral : n.literal? = none := by
      unfold Node.rests at hrests
      unfold Node.literal?
      cases hkind : n.kind <;> simp_all
    simp only [hliteral, Option.isSome_none, Bool.false_or, Bool.and_eq_true] at hready
    exact ⟨hready.2, n, rfl, hrests⟩

end Circuit

namespace Simulation

/-- What settling `id` does to a pass that goes on. -/
def Pass.settle (c : Circuit) (memories : Memories) (p : Pass) (id : NodeId) : Pass :=
  match c.settle memories p.slots id with
  | .error _ => { p with missing := addMissing p.missing id }
  | .ok none => p
  | .ok (some value) => { p with slots := p.slots.insert id value }

/-- What sampling an element does to a pass that goes on. -/
def Samples.add (c : Circuit) (ticks : Nat) (slots : Slots) (p : Samples) (element : NodeId × Bool) :
    Samples :=
  if holds ticks element then p
  else
    match c.sample slots element.1 with
    | .error _ => { p with missing := addMissing p.missing element.1 }
    | .ok update => { p with updates := p.updates ++ update.toList }

/-- A step of a pass, which goes on unless it has halted. -/
def proceed {σ α : Type} (missing : σ → List NodeId) (step : σ → α → σ) (strict : Bool) (p : σ)
    (a : α) : σ :=
  if halted strict (missing p) then p else step p a

section Passes

variable (c : Circuit) (mode : Mode) (memories : Memories)

theorem value_settlePass (ids : List NodeId) (p : Pass) :
    (settlePass c mode memories ids p).value =
      ids.foldl (proceed Pass.missing (Pass.settle c memories) mode.strict) p := by
  have hstep : (fun p id => (settleStep c mode memories p id).value) =
      proceed Pass.missing (Pass.settle c memories) mode.strict := by
    funext p id
    unfold settleStep proceed Pass.settle
    split
    · rfl
    · cases c.settle memories p.slots id with
      | error slot => rfl
      | ok value => cases value <;> rfl
  rw [settlePass, Logged.value_foldl, hstep]

theorem value_samplePass (ticks : Nat) (slots : Slots) (elements : List (NodeId × Bool))
    (missing : List NodeId) :
    (samplePass c mode ticks slots elements missing).value =
      elements.foldl (proceed Samples.missing (Samples.add c ticks slots) mode.strict)
        ⟨[], missing⟩ := by
  have hstep : (fun p element => (sampleStep c mode ticks slots p element).value) =
      proceed Samples.missing (Samples.add c ticks slots) mode.strict := by
    funext p element
    unfold sampleStep proceed Samples.add
    cases halted mode.strict p.missing <;> cases holds ticks element <;>
      cases c.sample slots element.1 <;> rfl
  rw [samplePass, Logged.value_foldl, hstep]

end Passes

/-- What every step of a pass keeps, the pass keeps. -/
theorem foldl_proceed {σ α : Type} {missing : σ → List NodeId} {step : σ → α → σ} {P : σ → Prop}
    (hstep : ∀ {p}, P p → ∀ a, P (step p a)) (strict : Bool) {p : σ} (hp : P p) (as : List α) :
    P (as.foldl (proceed missing step strict) p) := by
  induction as generalizing p with
  | nil => exact hp
  | cons a rest ih =>
    refine ih ?_
    unfold proceed
    split
    · exact hp
    · exact hstep hp a

section Settle

variable {c : Circuit} {memories : Memories} (p : Pass) (id : NodeId)

theorem contains_settle : (p.settle c memories id).slots.contains = p.slots.contains := by
  unfold Pass.settle
  cases h : c.settle memories p.slots id with
  | error slot => rfl
  | ok computed =>
    cases computed with
    | none => rfl
    | some value => exact p.slots.contains_insert id value (Circuit.settle_eq_some h).1

theorem get?_settle_of_rests {other : NodeId} {n : Node} (hn : c.node? other = some n)
    (hrests : n.rests = true) : (p.settle c memories id).slots.get? other = p.slots.get? other := by
  unfold Pass.settle
  cases h : c.settle memories p.slots id with
  | error slot => rfl
  | ok computed =>
    cases computed with
    | none => rfl
    | some value =>
      obtain ⟨-, n', hn', hrests'⟩ := Circuit.settle_eq_some h
      have hne : id ≠ other := by
        intro he
        rw [he, hn, Option.some.injEq] at hn'
        rw [hn', hrests'] at hrests
        cases hrests
      exact (SideMap.get?_insert ..).trans (if_neg hne)

theorem missing_settle : (p.settle c memories id).missing =
    if c.ready p.slots id then p.missing else addMissing p.missing id := by
  rw [← Circuit.isOk_settle c memories p.slots id]
  unfold Pass.settle
  cases c.settle memories p.slots id with
  | error slot => rfl
  | ok computed => cases computed <;> rfl

theorem missing_add (c : Circuit) (ticks : Nat) (slots : Slots) (q : Samples)
    (element : NodeId × Bool) :
    (q.add c ticks slots element).missing = q.missing ∨
      (q.add c ticks slots element).missing = addMissing q.missing element.1 := by
  unfold Samples.add
  split
  · exact .inl rfl
  · cases c.sample slots element.1 with
    | error slot => exact .inr rfl
    | ok update => exact .inl rfl

end Settle

theorem prefix_addMissing (missing : List NodeId) (id : NodeId) :
    missing <+: addMissing missing id := by
  unfold addMissing
  split
  · exact List.prefix_rfl
  · exact List.prefix_append missing [id]

theorem prefix_settle (c : Circuit) (memories : Memories) (p : Pass) (id : NodeId) :
    p.missing <+: (p.settle c memories id).missing := by
  rw [missing_settle]
  split
  · exact List.prefix_rfl
  · exact prefix_addMissing p.missing id

theorem addMissing_ne_nil (missing : List NodeId) (id : NodeId) : addMissing missing id ≠ [] := by
  unfold addMissing
  split
  · next h => exact List.ne_nil_of_mem (List.contains_iff_mem.mp h)
  · simp

section Passes

variable {c : Circuit} {mode : Mode} {memories : Memories} {ids : List NodeId} {p : Pass}

theorem contains_settlePass :
    (settlePass c mode memories ids p).value.slots.contains = p.slots.contains := by
  rw [value_settlePass]
  exact foldl_proceed (P := fun q : Pass => q.slots.contains = p.slots.contains)
    (fun hq id => (contains_settle _ id).trans hq) _ rfl ids

theorem get?_settlePass_of_rests {id : NodeId} {n : Node} (hn : c.node? id = some n)
    (hrests : n.rests = true) :
    (settlePass c mode memories ids p).value.slots.get? id = p.slots.get? id := by
  rw [value_settlePass]
  exact foldl_proceed (P := fun q : Pass => q.slots.get? id = p.slots.get? id)
    (fun hq other => (get?_settle_of_rests _ other hn hrests).trans hq) _ rfl ids

theorem prefix_settlePass : p.missing <+: (settlePass c mode memories ids p).value.missing := by
  rw [value_settlePass]
  exact foldl_proceed (P := fun q : Pass => p.missing <+: q.missing)
    (fun hq id => hq.trans (prefix_settle c memories _ id)) _ List.prefix_rfl ids

theorem prefix_samplePass {ticks : Nat} {slots : Slots} {elements : List (NodeId × Bool)}
    {missing : List NodeId} :
    missing <+: (samplePass c mode ticks slots elements missing).value.missing := by
  rw [value_samplePass]
  refine foldl_proceed (P := fun q : Samples => missing <+: q.missing) (fun {q} hq element => ?_) _
    List.prefix_rfl elements
  rcases missing_add c ticks slots q element with h | h
  · rwa [h]
  · rw [h]
    exact hq.trans (prefix_addMissing q.missing element.1)

/-- A pass skips nothing if all its nodes can settle, and only then. -/
theorem missing_settlePass_eq_nil : (settlePass c mode memories ids p).value.missing = [] ↔
    p.missing = [] ∧ ∀ id ∈ ids, c.ready p.slots id = true := by
  rw [value_settlePass]
  induction ids generalizing p with
  | nil => simp
  | cons id rest ih =>
    have hslots : (proceed Pass.missing (Pass.settle c memories) mode.strict p id).slots.contains =
        p.slots.contains := by
      unfold proceed
      split
      · rfl
      · exact contains_settle p id
    have hmissing : (proceed Pass.missing (Pass.settle c memories) mode.strict p id).missing = [] ↔
        p.missing = [] ∧ c.ready p.slots id = true := by
      unfold proceed halted
      rw [apply_ite Pass.missing, missing_settle]
      cases c.ready p.slots id <;> cases hp : p.missing <;> cases mode.strict <;>
        simp [addMissing_ne_nil]
    rw [List.foldl_cons, ih, hmissing, List.forall_mem_cons, and_assoc]
    simp only [Circuit.ready_congr hslots]

end Passes

theorem contains_foldl_commit (updates : List Update) (state : Slots × Memories) :
    (updates.foldl commit state).1.contains = state.1.contains := by
  induction updates generalizing state with
  | nil => rfl
  | cons update rest ih =>
    rw [List.foldl_cons, ih]
    cases update with
    | load id value => exact state.1.contains_modify id fun _ => value
    | store id address data => rfl

section Tick

variable (s : Simulation)

def settled : Pass := (settlePass s.circuit s.mode s.memories s.order ⟨s.slots, []⟩).value

def sampled : Samples :=
  (samplePass s.circuit s.mode s.ticks s.settled.slots s.elements s.settled.missing).value

def committed : Slots × Memories := s.sampled.updates.foldl commit (s.settled.slots, s.memories)

def resettled : Pass :=
  (settlePass s.circuit s.mode s.committed.2 s.dependent ⟨s.committed.1, s.sampled.missing⟩).value

/-- A tick goes through all phases, but a strict one may end after each of them. -/
theorem value_tick : s.tick.value =
    if halted s.mode.strict s.settled.missing then
      (outcome s.settled.missing, { s with slots := s.settled.slots })
    else if halted s.mode.strict s.sampled.missing then
      (outcome s.sampled.missing, { s with slots := s.settled.slots })
    else if halted s.mode.strict s.resettled.missing then
      (outcome s.resettled.missing, { s with slots := s.resettled.slots, memories := s.committed.2 })
    else
      (outcome s.resettled.missing,
        { s with slots := s.resettled.slots, memories := s.committed.2, ticks := s.ticks + 1 }) := by
  simp only [tick, Logged.andThen, apply_ite Logged.value]
  rfl

theorem prefix_sampled : s.settled.missing <+: s.sampled.missing := prefix_samplePass

theorem prefix_resettled : s.sampled.missing <+: s.resettled.missing :=
  prefix_settlePass (p := ⟨s.committed.1, s.sampled.missing⟩)

theorem contains_settled : s.settled.slots.contains = s.slots.contains := contains_settlePass

theorem contains_committed : s.committed.1.contains = s.slots.contains :=
  (contains_foldl_commit ..).trans s.contains_settled

/-- What is not missed while all nodes settle is not missed when some of them settle again. -/
theorem missing_resettled (hdependent : ∀ id ∈ s.dependent, id ∈ s.order)
    (hsettled : s.settled.missing = []) (hsampled : s.sampled.missing = []) :
    s.resettled.missing = [] := by
  have hready := (missing_settlePass_eq_nil.mp hsettled).2
  refine missing_settlePass_eq_nil.mpr ⟨hsampled, fun id hid => ?_⟩
  rw [Circuit.ready_congr s.contains_committed]
  exact hready id (hdependent id hid)

end Tick

end Simulation

end Netlist
