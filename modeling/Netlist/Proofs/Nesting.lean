import Netlist.Scopes

namespace Netlist

namespace Scopes

inductive Step where
  | make (name : String) (config : Config)
  | makeChild (name : String) (parent : CircuitId)
  | release (id : CircuitId)
  | enter (id : CircuitId)
  | leave (id : GuardId)
  | perform (step : Build Unit)

def Step.apply : Step → Scopes → Scopes
  | make name config, s => (s.make name config).2
  | makeChild name parent, s => (s.makeChild name parent).2
  | release id, s => s.release id
  | enter id, s => (s.enter id).value.2
  | leave id, s => (s.leave id).value
  | perform step, s => (s.withCurrent step).value.2

def after (s : Scopes) (steps : List Step) : Scopes := steps.foldl (fun s step => step.apply s) s

/-- The guards in force, the outermost first. -/
def entries (s : Scopes) : List GuardId := s.stack.reverse

/-- What a step does to guards and stack. -/
inductive Effect (step : Step) (s t : Scopes) : Prop
  | none (hguards : t.guards = s.guards) (hentries : t.entries = s.entries)
  | entered (circuit : CircuitId)
      (hguards : t.guards = s.guards.push { circuit, depth := s.entries.length + 1 })
      (hentries : t.entries = s.entries ++ [⟨s.guards.size⟩])
  | left (id : GuardId) (guard : Guard) (hstep : step = .leave id) (hguard : s.guard? id = some guard)
      (hlive : guard.live = true)
      (hguards : t.guards = s.guards.modify id.index ({ · with live := false }))
      (hentries : t.entries = s.entries.take (guard.depth - 1))

section Effects

variable (s : Scopes)

theorem leave_of_live {id : GuardId} {guard : Guard} (hguard : s.guard? id = some guard)
    (hlive : guard.live = true) :
    (s.leave id).value.guards = s.guards.modify id.index ({ · with live := false }) ∧
      (s.leave id).value.entries = s.entries.take (guard.depth - 1) := by
  simp only [leave, hguard, hlive, if_true, entries, List.take_reverse, and_self]

theorem effect_leave (id : GuardId) : Effect (.leave id) s (s.leave id).value := by
  cases hguard : s.guard? id with
  | none =>
    have hsame : (s.leave id).value = s := by simp [leave, hguard]
    rw [hsame]
    exact .none rfl rfl
  | some guard =>
    cases hlive : guard.live with
    | false =>
      have hsame : (s.leave id).value = s := by simp [leave, hguard, hlive]
      rw [hsame]
      exact .none rfl rfl
    | true =>
      obtain ⟨hguards, hentries⟩ := s.leave_of_live hguard hlive
      exact .left id guard rfl hguard hlive hguards hentries

theorem borrow_eq_ok {id : CircuitId} {c : Circuit} {t : Scopes} (h : s.borrow = .ok (id, c, t)) :
    t.guards = s.guards ∧ t.stack = s.stack := by
  unfold borrow at h
  split at h
  · cases h
  · split at h
    · cases h
    · split at h
      · cases h
      · cases h
        exact ⟨rfl, rfl⟩

theorem effect_perform (step : Build Unit) : Effect (.perform step) s (s.withCurrent step).value.2 := by
  unfold withCurrent
  cases hborrow : s.borrow with
  | error e => exact .none rfl rfl
  | ok borrowed =>
    obtain ⟨hguards, hstack⟩ := s.borrow_eq_ok hborrow
    exact .none hguards (congrArg List.reverse hstack)

theorem Step.effect (step : Step) : Effect step s (step.apply s) := by
  cases step with
  | make name config => exact .none rfl rfl
  | makeChild name parent => exact .none rfl rfl
  | release id => exact .none rfl rfl
  | enter id =>
    refine .entered id ?_ ?_
    · simp [Step.apply, Scopes.enter, entries]
    · simp [Step.apply, Scopes.enter, entries]
  | leave id => exact s.effect_leave id
  | perform step => exact s.effect_perform step

end Effects

variable {s t : Scopes} {call : Step} {id g : GuardId} {guard : Guard} {base : List GuardId}

/-- A guard stays as it is until it is dropped, and its place on the stack goes with it. -/
theorem Effect.guard? (e : Effect call s t) (h : s.guard? id = some guard) :
    t.guard? id = some guard ∨
      call = .leave id ∧ t.guard? id = some { guard with live := false } ∧
        t.entries = s.entries.take (guard.depth - 1) := by
  cases e with
  | none hguards => exact .inl (by rwa [Scopes.guard?, hguards])
  | entered circuit hguards =>
    have hlt : id.index < s.guards.size := (Array.getElem?_eq_some_iff.mp h).1
    left
    rwa [Scopes.guard?, hguards, Array.getElem?_push, if_neg (Nat.ne_of_lt hlt)]
  | left other dropped hcall hdropped hlive hguards hentries =>
    unfold Scopes.guard? at h
    by_cases he : other = id
    · subst he
      cases hdropped.symm.trans h
      right
      refine ⟨hcall, ?_, hentries⟩
      rw [Scopes.guard?, hguards, Array.getElem?_modify, if_pos rfl, h]
      rfl
    · left
      have hne : other.index ≠ id.index := fun hi => he (congrArg GuardId.mk hi)
      rwa [Scopes.guard?, hguards, Array.getElem?_modify, if_neg hne]

/-- A guard was there before, or is made for the next place on the stack. -/
theorem Effect.depth (e : Effect call s t) (h : t.guard? id = some guard) :
    (∃ live, s.guard? id = some { guard with live }) ∨ guard.depth = s.entries.length + 1 := by
  unfold Scopes.guard? at h ⊢
  cases e with
  | none hguards => exact .inl ⟨guard.live, hguards ▸ h⟩
  | entered circuit hguards =>
    rw [hguards, Array.getElem?_push] at h
    split at h
    · cases h
      exact .inr rfl
    · exact .inl ⟨guard.live, h⟩
  | left other dropped _ _ _ hguards =>
    rw [hguards, Array.getElem?_modify] at h
    split at h
    · obtain ⟨before, hbefore, rfl⟩ := Option.map_eq_some_iff.mp h
      exact .inl ⟨before.live, hbefore⟩
    · exact .inl ⟨guard.live, h⟩

/-- What is on the stack was there before, or is a guard that was made for its place. -/
theorem Effect.entry {i : Nat} (e : Effect call s t) (h : t.entries[i]? = some id) :
    s.entries[i]? = some id ∨ ∃ circuit, t.guard? id = some { circuit, depth := i + 1 } := by
  cases e with
  | none _ hentries => exact .inl (hentries ▸ h)
  | entered circuit hguards hentries =>
    rw [hentries, List.getElem?_append] at h
    split at h
    · exact .inl h
    · next hge =>
      have hi : i = s.entries.length := by
        have hlt := (List.getElem?_eq_some_iff.mp h).1
        simp only [List.length_singleton] at hlt
        omega
      subst hi
      simp only [Nat.sub_self, List.getElem?_cons_zero, Option.some.injEq] at h
      right
      refine ⟨circuit, ?_⟩
      rw [← h, Scopes.guard?, hguards, Array.getElem?_push_size]
  | left other dropped _ _ _ _ hentries =>
    rw [hentries, List.getElem?_take] at h
    split at h
    · exact .inl h
    · cases h

/-- Each place on the stack is that of a guard which is not dropped yet and was made for it. -/
def Owned (s : Scopes) : Prop :=
  ∀ i id, s.entries[i]? = some id →
    ∃ guard, s.guard? id = some guard ∧ guard.live = true ∧ guard.depth = i + 1

theorem Owned.step (h : s.Owned) (e : Effect call s t) : t.Owned := by
  intro i id hid
  rcases e.entry hid with hold | ⟨circuit, hnew⟩
  · obtain ⟨guard, hguard, hlive, hdepth⟩ := h i id hold
    rcases e.guard? hguard with hsame | ⟨-, -, hentries⟩
    · exact ⟨guard, hsame, hlive, hdepth⟩
    · -- the place of a guard that is dropped is not on the stack any more
      rw [hentries, List.getElem?_take, hdepth] at hid
      simp at hid
  · exact ⟨_, hnew, rfl, rfl⟩

theorem owned_after (h : s.Owned) (steps : List Step) : (s.after steps).Owned := by
  induction steps generalizing s with
  | nil => exact h
  | cons step rest ih => exact ih (h.step (step.effect s))

theorem Owned.stack_eq_nil (h : s.Owned) (hdropped : ∀ guard ∈ s.guards, guard.live = false) :
    s.stack = [] := by
  cases hfirst : s.entries[0]? with
  | none => simpa [entries] using hfirst
  | some id =>
    obtain ⟨guard, hguard, hlive, -⟩ := h 0 id hfirst
    rw [hdropped guard (Array.mem_of_getElem? hguard)] at hlive
    cases hlive

/-- Guards keep the circuit that they were made for. -/
theorem circuit_after (h : s.guard? id = some guard) (steps : List Step) :
    ∃ live, (s.after steps).guard? id = some { guard with live } := by
  induction steps generalizing s guard with
  | nil => exact ⟨guard.live, h⟩
  | cons step rest ih =>
    rcases (step.effect s).guard? h with hsame | ⟨-, hdropped, -⟩
    · exact ih hsame
    · obtain ⟨live, hlast⟩ := ih hdropped
      exact ⟨live, hlast⟩

/-- The stack is `base` with the guard `g` above it, and guards that were made later have their places
above `g`. -/
structure Above (base : List GuardId) (g : GuardId) (s : Scopes) : Prop where
  starts : base ++ [g] <+: s.entries
  lower : ∃ guard, s.guard? g = some guard ∧ guard.live = true ∧ guard.depth = base.length + 1
  upper : ∀ {id guard}, g.index < id.index → s.guard? id = some guard → base.length + 1 < guard.depth

theorem Above.step (h : Above base g s) (e : Effect call s t)
    (hlater : ∀ id, call = .leave id → g.index < id.index) : Above base g t := by
  obtain ⟨lower, hlower, hlive, hdepth⟩ := h.lower
  have hlength : base.length + 1 ≤ s.entries.length := by
    simpa using h.starts.length_le
  refine ⟨?_, ⟨lower, ?_, hlive, hdepth⟩, fun {id guard} hid hguard => ?_⟩
  · cases e with
    | none _ hentries => exact hentries ▸ h.starts
    | entered circuit _ hentries =>
      rw [hentries]
      exact h.starts.trans (List.prefix_append _ _)
    | left id guard hcall hguard _ _ hentries =>
      -- a guard that was made later has its place above `g`, and the cut is made there
      have hupper := h.upper (hlater id hcall) hguard
      rw [hentries]
      refine List.prefix_take_iff.mpr ⟨h.starts, ?_⟩
      simp only [List.length_append, List.length_singleton]
      omega
  · rcases e.guard? hlower with hsame | ⟨hcall, -, -⟩
    · exact hsame
    · exact absurd (hlater g hcall) (Nat.lt_irrefl _)
  · rcases e.depth hguard with ⟨live, hbefore⟩ | hnew
    · have hdepth := h.upper hid hbefore
      exact hdepth
    · omega

theorem above_after (h : Above base g s) {steps : List Step}
    (hlater : ∀ id, .leave id ∈ steps → g.index < id.index) : Above base g (s.after steps) := by
  induction steps generalizing s with
  | nil => exact h
  | cons step rest ih =>
    refine ih (h.step (step.effect s) ?_) fun id hid => hlater id (List.mem_cons_of_mem step hid)
    rintro id rfl
    exact hlater id List.mem_cons_self

theorem above_enter (s : Scopes) (circuit : CircuitId) :
    Above s.entries (s.enter circuit).value.1 (s.enter circuit).value.2 := by
  refine ⟨?_, ?_, ?_⟩
  · simp [enter, entries]
  · exact ⟨_, Array.getElem?_push_size, rfl, by simp [entries]⟩
  · intro id guard hid hguard
    have hlt : id.index < (s.guards.push { circuit, depth := s.stack.length + 1 }).size :=
      (Array.getElem?_eq_some_iff.mp hguard).1
    simp only [enter, Array.size_push] at hid hlt
    omega

theorem Above.leave (h : Above base g s) : (s.leave g).value.entries = base := by
  obtain ⟨guard, hguard, hlive, hdepth⟩ := h.lower
  obtain ⟨more, hmore⟩ := h.starts
  rw [(s.leave_of_live hguard hlive).2, hdepth, ← hmore, List.append_assoc]
  simp

/-- The scopes when `circuit` was entered, `steps` were taken, and its guard was dropped. -/
def during (s : Scopes) (circuit : CircuitId) (steps : List Step) : Scopes :=
  (((s.enter circuit).value.2.after steps).leave (s.enter circuit).value.1).value

theorem during_eq_after (s : Scopes) (circuit : CircuitId) (steps : List Step) :
    s.during circuit steps =
      s.after (.enter circuit :: (steps ++ [.leave (s.enter circuit).value.1])) := by
  simp only [after, List.foldl_cons, List.foldl_append, List.foldl_nil]
  rfl

theorem stack_during (s : Scopes) (circuit : CircuitId) {steps : List Step}
    (hlater : ∀ id, .leave id ∈ steps → (s.enter circuit).value.1.index < id.index) :
    (s.during circuit steps).stack = s.stack := by
  have hentries : (s.during circuit steps).entries = s.entries :=
    (above_after (s.above_enter circuit) hlater).leave
  exact List.reverse_inj.mp hentries

/-- The circuits that are entered, the innermost first. -/
def entered (s : Scopes) : List (Option CircuitId) := s.stack.map fun g => (s.guard? g).map (·.circuit)

theorem current?_eq (s : Scopes) : s.current? = s.entered.head?.join := by
  unfold current? entered
  cases s.stack <;> rfl

theorem Owned.entered_after (h : s.Owned) {steps : List Step}
    (hstack : (s.after steps).stack = s.stack) : (s.after steps).entered = s.entered := by
  unfold entered
  rw [hstack]
  refine List.map_congr_left fun id hid => ?_
  obtain ⟨i, hi⟩ := List.mem_iff_getElem?.mp (List.mem_reverse.mpr hid)
  obtain ⟨guard, hguard, -⟩ := h i id hi
  obtain ⟨live, hlast⟩ := circuit_after hguard steps
  rw [hguard, hlast]
  rfl

/-- The places on the stack belong to guards that are not dropped. Without any it is empty, and a guard
puts it back to where it was, unless one that was made earlier is dropped first. -/
structure LeaksNothing (s : Scopes) : Prop where
  owned : ∀ i id, s.stack.reverse[i]? = some id →
    ∃ guard, s.guard? id = some guard ∧ guard.live = true ∧ guard.depth = i + 1
  empty : (∀ guard ∈ s.guards, guard.live = false) →
    s.stack = [] ∧ s.current? = none ∧
      ∀ circuit, s.isAlive circuit = (s.holding? circuit).any (·.held)
  restores : ∀ circuit steps,
    (∀ id, .leave id ∈ steps → (s.enter circuit).value.1.index < id.index) →
      (s.during circuit steps).stack = s.stack ∧ (s.during circuit steps).entered = s.entered ∧
        (s.during circuit steps).current? = s.current?

/-- Whatever is entered and dropped, in whatever order, no circuit stays current without a guard. As
long as scopes are nested, a guard brings back what was current when it was made. -/
theorem scopes_leak_nothing (steps : List Step) : (after {} steps).LeaksNothing := by
  have howned : (after {} steps).Owned := owned_after (fun i id hid => by simp [entries] at hid) steps
  refine ⟨howned, fun hdropped => ?_, fun circuit more hlater => ?_⟩
  · have hstack := howned.stack_eq_nil hdropped
    refine ⟨hstack, ?_, fun circuit => ?_⟩
    · rw [current?, hstack]
      rfl
    · rw [isAlive, hstack, List.any_nil, Bool.or_false]
  · have hstack := stack_during _ circuit hlater
    have hentered : ((after {} steps).during circuit more).entered = (after {} steps).entered := by
      rw [during_eq_after] at hstack ⊢
      exact howned.entered_after hstack
    exact ⟨hstack, hentered, by rw [current?_eq, current?_eq, hentered]⟩

/-- The first guard is dropped below two others. One of these is dropped later, when its place belongs
to a new guard. -/
def outOfOrder : List Step :=
  [.make "a" {}, .make "b" {}, .enter ⟨0⟩, .enter ⟨1⟩, .enter ⟨0⟩, .leave ⟨0⟩, .enter ⟨1⟩, .enter ⟨0⟩,
   .leave ⟨1⟩]

theorem stale_guards_leak_nothing :
    (after {} outOfOrder).LeaksNothing ∧ (after {} outOfOrder).stack = [⟨3⟩] ∧
      (after {} outOfOrder).current? = some ⟨1⟩ ∧
      ((after {} outOfOrder).during ⟨0⟩ [.enter ⟨1⟩, .leave ⟨6⟩, .enter ⟨0⟩]).current? = some ⟨1⟩ ∧
      (after {} (outOfOrder ++ [.leave ⟨3⟩, .leave ⟨4⟩, .leave ⟨2⟩])).current? = none := by
  have hcurrent : (after {} outOfOrder).current? = some ⟨1⟩ := by decide
  have hlater : ∀ id, Step.leave id ∈ [.enter ⟨1⟩, .leave ⟨6⟩, .enter ⟨0⟩] →
      ((after {} outOfOrder).enter ⟨0⟩).value.1.index < id.index := by
    intro id hid
    have hsix : id = ⟨6⟩ := by simpa using hid
    subst hsix
    decide
  have hdropped : ∀ guard ∈ (after {} (outOfOrder ++ [.leave ⟨3⟩, .leave ⟨4⟩, .leave ⟨2⟩])).guards,
      guard.live = false := by decide
  have hnow := scopes_leak_nothing outOfOrder
  have hlast := scopes_leak_nothing (outOfOrder ++ [.leave ⟨3⟩, .leave ⟨4⟩, .leave ⟨2⟩])
  exact ⟨hnow, by decide, hcurrent, (hnow.restores ⟨0⟩ _ hlater).2.2.trans hcurrent,
    (hlast.empty hdropped).2.1⟩

end Scopes

end Netlist
