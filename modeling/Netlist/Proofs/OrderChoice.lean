import Netlist.Proofs.MissingReport

namespace Netlist

namespace SideMap

theorem size_insert_of_contains {α : Type} {m : SideMap α} {id : NodeId}
    (h : m.contains id = true) (a : α) : (m.insert id a).cells.size = m.cells.size := by
  obtain ⟨old, hold⟩ := Option.isSome_iff_exists.mp h
  have hlt := lt_size_of_get? hold
  rw [size_insert]
  omega

end SideMap

namespace Circuit

variable {c : Circuit} {memories : Memories} {before after after' : Slots}

/-- All slots that the same slots settle into agree, if they do so outside the circuit. -/
theorem Settles.get?_eq (hwf : WellFounded c.Depends) (h : c.Settles memories before after)
    (h' : c.Settles memories before after')
    (houtside : ∀ id, c.node? id = none → after'.get? id = after.get? id) (id : NodeId) :
    after'.get? id = after.get? id := by
  -- by the time a node is looked at, all that it depends on agrees
  induction id using hwf.induction with
  | _ id ih =>
    cases hn : c.node? id with
    | none => exact houtside id hn
    | some n =>
      by_cases hlacks : c.Lacks before id
      · rw [h.skipped hlacks, h'.skipped hlacks]
      · obtain ⟨computed, hcompute, hget⟩ := h.executed hn hlacks
        obtain ⟨computed', hcompute', hget'⟩ := h'.executed hn hlacks
        have hsame : compute memories after' id n = compute memories after id n :=
          compute_congr hn ih fun _ => rfl
        rw [hcompute, hcompute', Except.ok.injEq] at hsame
        rw [hget, hget', hsame]

end Circuit

namespace Simulation

open Circuit

variable {c : Circuit} {memories : Memories} {mode : Mode} {order order' ids : List NodeId} {p : Pass}

theorem size_settle (p : Pass) (id : NodeId) :
    (p.settle c memories id).slots.cells.size = p.slots.cells.size := by
  unfold Pass.settle
  cases h : c.settle memories p.slots id with
  | error slot => rfl
  | ok computed =>
    cases computed with
    | none => rfl
    | some value => exact SideMap.size_insert_of_contains (settle_eq_some h).1 value

theorem get?_settle_of_none {id : NodeId} (hn : c.node? id = none) (p : Pass) (other : NodeId) :
    (p.settle c memories other).slots.get? id = p.slots.get? id := by
  by_cases he : other = id
  · subst he
    simp [Pass.settle, Circuit.settle, hn]
  · exact get?_settle_of_ne he

theorem size_settlePass :
    (settlePass c mode memories ids p).value.slots.cells.size = p.slots.cells.size := by
  rw [value_settlePass]
  exact foldl_proceed (P := fun q : Pass => q.slots.cells.size = p.slots.cells.size)
    (fun {q} hq id => (size_settle q id).trans hq) mode.strict rfl ids

theorem get?_settlePass_of_none {id : NodeId} (hn : c.node? id = none) :
    (settlePass c mode memories ids p).value.slots.get? id = p.slots.get? id := by
  rw [value_settlePass]
  exact foldl_proceed (P := fun q : Pass => q.slots.get? id = p.slots.get? id)
    (fun {q} hq other => (get?_settle_of_none hn q other).trans hq) mode.strict rfl ids

/-- Whatever slots there are and whatever they hold, two lists that have every node once and after all
that it depends on settle into the same slots, and skip the same nodes. -/
theorem lenient_pass_ignores_order (ho : c.IsOrder order) (ho' : c.IsOrder order')
    (hmode : mode.strict = false) (memories : Memories) (p : Pass) :
    (settlePass c mode memories order' p).value.slots =
        (settlePass c mode memories order p).value.slots ∧
      ∀ id, id ∈ (settlePass c mode memories order' p).value.missing ↔
        id ∈ (settlePass c mode memories order p).value.missing := by
  constructor
  · refine SideMap.eq_of_get? (size_settlePass.trans size_settlePass.symm) fun id => ?_
    refine (settles_settlePass ho hmode).get?_eq ho.wellFounded (settles_settlePass ho' hmode) ?_ id
    intro id hn
    rw [get?_settlePass_of_none hn, get?_settlePass_of_none hn]
  · intro id
    rw [settlePass_of_lenient hmode, settlePass_of_lenient hmode, mem_missing_foldl_settle,
      mem_missing_foldl_settle, ho.mem, ho'.mem]

/-- The slot of the proxy that stands for the input is missing, and the register's is too wide. -/
def tornSlots : Slots :=
  ⟨#[some (.ofNat 4 3), none, some (.ofNat 4 5), some (.ofNat 9 260), some (.ofNat 4 1),
     some (.ofNat 4 7), some (.ofNat 4 0), some (.ofNat 4 2)]⟩

/-- The memory is skipped in both orders, but what it held before still gets to the output. -/
theorem accumulator_ignores_order :
    accumulator.IsOrder [⟨0⟩, ⟨1⟩, ⟨2⟩, ⟨3⟩, ⟨4⟩, ⟨5⟩, ⟨6⟩, ⟨7⟩] ∧
      accumulator.IsOrder [⟨2⟩, ⟨3⟩, ⟨0⟩, ⟨1⟩, ⟨5⟩, ⟨6⟩, ⟨7⟩, ⟨4⟩] ∧
      ∃ after after' : Pass,
        (settlePass accumulator {} .empty [⟨0⟩, ⟨1⟩, ⟨2⟩, ⟨3⟩, ⟨4⟩, ⟨5⟩, ⟨6⟩, ⟨7⟩]
          ⟨tornSlots, []⟩).value = after ∧
        (settlePass accumulator {} .empty [⟨2⟩, ⟨3⟩, ⟨0⟩, ⟨1⟩, ⟨5⟩, ⟨6⟩, ⟨7⟩, ⟨4⟩]
          ⟨tornSlots, []⟩).value = after' ∧
        after.missing = [⟨1⟩, ⟨4⟩, ⟨5⟩] ∧ after'.missing = [⟨1⟩, ⟨5⟩, ⟨4⟩] ∧
        after'.slots = after.slots ∧ after'.slots.get? ⟨7⟩ = some (.ofNat 4 7) := by
  have ho : accumulator.IsOrder [⟨0⟩, ⟨1⟩, ⟨2⟩, ⟨3⟩, ⟨4⟩, ⟨5⟩, ⟨6⟩, ⟨7⟩] := by decide +kernel
  have ho' : accumulator.IsOrder [⟨2⟩, ⟨3⟩, ⟨0⟩, ⟨1⟩, ⟨5⟩, ⟨6⟩, ⟨7⟩, ⟨4⟩] := by decide +kernel
  have hmode : ({} : Mode).strict = false := rfl
  obtain ⟨hslots, -⟩ := lenient_pass_ignores_order ho ho' hmode .empty ⟨tornSlots, []⟩
  refine ⟨ho, ho', _, _, rfl, rfl, ?_, ?_, hslots, ?_⟩
  all_goals decide +kernel

end Simulation

end Netlist
