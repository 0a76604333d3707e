import Mathlib.Data.List.Forall2
import Netlist.Proofs.SearchSteps

namespace Netlist

namespace Circuit

namespace Search

variable {c d : Circuit} {s t : State} {roots : List NodeId} {r r' : Except (List NodeId) State}
  {id dep : NodeId} {pos : Nat} {pending : List NodeId} {outer : List Frame}

theorem cycleFrom_advance (hstack : s.stack = ⟨id, pos⟩ :: outer) (dep : NodeId) :
    (s.advance id pos outer).cycleFrom dep = s.cycleFrom dep := by
  simp [State.cycleFrom, State.advance, hstack]

/-- A run finishes its innermost node when nothing is pending there, after it has passed by the sources
that are left. -/
theorem Completes.of_pending_nil (h : Completes c roots s r) (hstack : s.stack = ⟨id, pos⟩ :: outer)
    (hpending : Frame.pending c ⟨id, pos⟩ = []) : Completes c roots (s.finish id outer) r := by
  induction h generalizing pos with
  | halt hempty => cases hempty.symm.trans hstack
  | known hempty => cases hempty.symm.trans hstack
  | root hempty => cases hempty.symm.trans hstack
  | finish hstack' _ _ hrest =>
    cases hstack'.symm.trans hstack
    exact hrest
  | pass hstack' hn hlook _ ih =>
    cases hstack'.symm.trans hstack
    exact ih rfl (by rw [Frame.pending_of_idle hn hlook, hpending])
  | enter hstack' hn hlook | skip hstack' hn hlook | cycle hstack' hn hlook =>
    cases hstack'.symm.trans hstack
    rw [Frame.pending_of_dependency hn hlook] at hpending
    cases hpending

/-- What a run makes of the next dependency of its innermost node. -/
inductive Follows (c : Circuit) (roots : List NodeId) (s t : State) (dep : NodeId) :
    Except (List NodeId) State → Prop
  | enter {r : Except (List NodeId) State} (hmark : s.mark dep = .fresh)
      (hrest : Completes c roots (t.enter dep) r) : Follows c roots s t dep r
  | skip {r : Except (List NodeId) State} (hmark : s.mark dep = .done)
      (hrest : Completes c roots t r) : Follows c roots s t dep r
  | cycle (hmark : s.mark dep = .active) : Follows c roots s t dep (.error (s.cycleFrom dep))

/-- The sources that it passes by on the way to the dependency leave no trace. -/
theorem Completes.of_pending_cons (h : Completes c roots s r)
    (hstack : s.stack = ⟨id, pos⟩ :: outer)
    (hpending : Frame.pending c ⟨id, pos⟩ = dep :: pending) :
    ∃ next, Frame.pending c ⟨id, next⟩ = pending ∧
      Follows c roots s { s with stack := ⟨id, next⟩ :: outer } dep r := by
  -- the run may pass by sources first, and each of them leaves the dependency pending
  induction h generalizing pos with
  | halt hempty => cases hempty.symm.trans hstack
  | known hempty => cases hempty.symm.trans hstack
  | root hempty => cases hempty.symm.trans hstack
  | @finish id n _ _ _ _ hstack' hn =>
    cases hstack'.symm.trans hstack
    have hended : look n n.sources.length = .ended := look_eq_ended_iff.mpr (Nat.le_refl _)
    rw [Frame.pending_of_ended hn hended] at hpending
    cases hpending
  | pass hstack' hn hlook _ ih =>
    cases hstack'.symm.trans hstack
    obtain ⟨next, hnext, hfollows⟩ := ih rfl ((Frame.pending_of_idle hn hlook).trans hpending)
    refine ⟨next, hnext, ?_⟩
    cases hfollows with
    | enter hmark hrest => exact .enter hmark hrest
    | skip hmark hrest => exact .skip hmark hrest
    | cycle hmark =>
      rw [cycleFrom_advance hstack']
      exact .cycle hmark
  | enter hstack' hn hlook _ hmark _ hrest =>
    cases hstack'.symm.trans hstack
    obtain ⟨rfl, htail⟩ := List.cons.inj ((Frame.pending_of_dependency hn hlook).symm.trans hpending)
    exact ⟨_, htail, .enter hmark hrest⟩
  | skip hstack' hn hlook _ hmark hrest =>
    cases hstack'.symm.trans hstack
    obtain ⟨rfl, htail⟩ := List.cons.inj ((Frame.pending_of_dependency hn hlook).symm.trans hpending)
    exact ⟨_, htail, .skip hmark hrest⟩
  | cycle hstack' hn hlook _ hmark =>
    cases hstack'.symm.trans hstack
    obtain ⟨rfl, htail⟩ := List.cons.inj ((Frame.pending_of_dependency hn hlook).symm.trans hpending)
    exact ⟨_, htail, .cycle hmark⟩

/-- The searches of `c` and `d` have come equally far. They expand the same nodes and have the same
dependencies of those before them, but these may stand at other positions, with other sources between
them. -/
structure Abreast (c d : Circuit) (s t : State) : Prop where
  marks : t.marks = s.marks
  finished : t.finished = s.finished
  stack : List.Forall₂ (fun f g => g.id = f.id ∧ g.pending d = f.pending c) s.stack t.stack

/-- Two searches end with the same finished nodes, or with the same cycle. -/
def Agree : Except (List NodeId) State → Except (List NodeId) State → Prop
  | .ok s, .ok t => t.finished = s.finished
  | .error cycle, .error cycle' => cycle' = cycle
  | _, _ => False

namespace Abreast

theorem mark (h : Abreast c d s t) (id : NodeId) : t.mark id = s.mark id := by
  rw [State.mark, State.mark, h.marks]

theorem stack_eq_nil (h : Abreast c d s t) (hstack : s.stack = []) : t.stack = [] := by
  have hforall := h.stack
  rw [hstack] at hforall
  exact List.forall₂_nil_left_iff.mp hforall

theorem ids_eq (h : Abreast c d s t) : t.stack.map (·.id) = s.stack.map (·.id) := by
  have hforall := h.stack
  generalize s.stack = fs, t.stack = gs at hforall
  induction hforall with
  | nil => rfl
  | cons hhead _ ih => rw [List.map_cons, List.map_cons, hhead.1, ih]

theorem cycleFrom_eq (h : Abreast c d s t) (dep : NodeId) : t.cycleFrom dep = s.cycleFrom dep := by
  rw [State.cycleFrom, State.cycleFrom, h.ids_eq]

theorem exists_top (h : Abreast c d s t) (hstack : s.stack = ⟨id, pos⟩ :: outer) :
    ∃ pos' outer', t.stack = ⟨id, pos'⟩ :: outer' ∧
      Frame.pending d ⟨id, pos'⟩ = Frame.pending c ⟨id, pos⟩ ∧
      List.Forall₂ (fun f g => g.id = f.id ∧ g.pending d = f.pending c) outer outer' := by
  have hforall := h.stack
  rw [hstack] at hforall
  obtain ⟨⟨id', pos'⟩, outer', ⟨hid, hpending⟩, houter, ht⟩ := List.forall₂_cons_left_iff.mp hforall
  cases hid
  exact ⟨pos', outer', ht, hpending, houter⟩

theorem enter (h : Abreast c d s t) (hdeps : ∀ id, d.dependencies id = c.dependencies id)
    (id : NodeId) : Abreast c d (s.enter id) (t.enter id) := by
  refine ⟨?_, h.finished, .cons ⟨rfl, ?_⟩ h.stack⟩
  · rw [State.enter, State.enter, h.marks]
  · rw [Frame.pending_zero, Frame.pending_zero, hdeps]

theorem advance {next : Nat} {outer' : List Frame} (h : Abreast c d s t)
    (hnext : Frame.pending d ⟨id, next⟩ = Frame.pending c ⟨id, pos + 1⟩)
    (houter : List.Forall₂ (fun f g => g.id = f.id ∧ g.pending d = f.pending c) outer outer') :
    Abreast c d (s.advance id pos outer) { t with stack := ⟨id, next⟩ :: outer' } :=
  ⟨h.marks, h.finished, .cons ⟨rfl, hnext⟩ houter⟩

theorem finish {outer' : List Frame} (h : Abreast c d s t)
    (houter : List.Forall₂ (fun f g => g.id = f.id ∧ g.pending d = f.pending c) outer outer')
    (id : NodeId) : Abreast c d (s.finish id outer) (t.finish id outer') := by
  refine ⟨?_, ?_, houter⟩
  · rw [State.finish, State.finish, h.marks]
  · rw [State.finish, State.finish, h.finished]

end Abreast

/-- Runs through sources that hold the same dependencies stay abreast, and so they agree in the end. -/
theorem Completes.agree (hdeps : ∀ id, d.dependencies id = c.dependencies id)
    (h : Completes c roots s r) (h' : Completes d roots t r') (hst : Abreast c d s t) :
    Agree r r' := by
  -- the run of `c` leads; where it passes by a source the other one waits, and where it takes a step
  -- that counts the other one catches up with it
  induction h generalizing t r' with
  | halt hstack =>
    cases h' with
    | halt => exact hst.finished
    | finish ht | pass ht | enter ht | skip ht | cycle ht =>
      cases (hst.stack_eq_nil hstack).symm.trans ht
  | known hstack _ hmark _ ih =>
    cases h' with
    | known _ _ _ hrest => exact ih hrest hst
    | root _ _ hfresh => exact absurd ((hst.mark _).symm.trans hfresh) hmark
    | finish ht | pass ht | enter ht | skip ht | cycle ht =>
      cases (hst.stack_eq_nil hstack).symm.trans ht
  | root hstack _ hmark _ _ ih =>
    cases h' with
    | known _ _ hknown => exact absurd ((hst.mark _).trans hmark) hknown
    | root _ _ _ _ hrest => exact ih hrest (hst.enter hdeps _)
    | finish ht | pass ht | enter ht | skip ht | cycle ht =>
      cases (hst.stack_eq_nil hstack).symm.trans ht
  | @finish id n outer roots s r hstack hn _ _ ih =>
    obtain ⟨pos', outer', ht, hpending, houter⟩ := hst.exists_top hstack
    have hended : look n n.sources.length = .ended := look_eq_ended_iff.mpr (Nat.le_refl _)
    rw [Frame.pending_of_ended hn hended] at hpending
    exact ih (h'.of_pending_nil ht hpending) (hst.finish houter id)
  | pass hstack hn hlook _ ih =>
    obtain ⟨pos', outer', ht, hpending, houter⟩ := hst.exists_top hstack
    refine ih h' ⟨hst.marks, hst.finished, ?_⟩
    rw [ht]
    exact .cons ⟨rfl, hpending.trans (Frame.pending_of_idle hn hlook).symm⟩ houter
  | enter hstack hn hlook _ hmark _ _ ih =>
    obtain ⟨pos', outer', ht, hpending, houter⟩ := hst.exists_top hstack
    rw [Frame.pending_of_dependency hn hlook] at hpending
    obtain ⟨next, hnext, hfollows⟩ := h'.of_pending_cons ht hpending
    cases hfollows with
    | enter _ hrest => exact ih hrest ((hst.advance hnext houter).enter hdeps _)
    | skip hdone => cases hmark.symm.trans ((hst.mark _).symm.trans hdone)
    | cycle hactive => cases hmark.symm.trans ((hst.mark _).symm.trans hactive)
  | skip hstack hn hlook _ hmark _ ih =>
    obtain ⟨pos', outer', ht, hpending, houter⟩ := hst.exists_top hstack
    rw [Frame.pending_of_dependency hn hlook] at hpending
    obtain ⟨next, hnext, hfollows⟩ := h'.of_pending_cons ht hpending
    cases hfollows with
    | enter hfresh => cases hmark.symm.trans ((hst.mark _).symm.trans hfresh)
    | skip _ hrest => exact ih hrest (hst.advance hnext houter)
    | cycle hactive => cases hmark.symm.trans ((hst.mark _).symm.trans hactive)
  | cycle hstack hn hlook _ hmark =>
    obtain ⟨pos', outer', ht, hpending, -⟩ := hst.exists_top hstack
    rw [Frame.pending_of_dependency hn hlook] at hpending
    obtain ⟨next, -, hfollows⟩ := h'.of_pending_cons ht hpending
    cases hfollows with
    | enter hfresh => cases hmark.symm.trans ((hst.mark _).symm.trans hfresh)
    | skip hdone => cases hmark.symm.trans ((hst.mark _).symm.trans hdone)
    | cycle => exact hst.cycleFrom_eq _

theorem Agree.map_finished (h : Agree r r') :
    r'.map (·.finished.reverse) = r.map (·.finished.reverse) := by
  match r, r', h with
  | .ok s, .ok t, h => exact congrArg (fun ids => Except.ok ids.reverse) h
  | .error _, .error _, h => exact congrArg Except.error h

end Search

open Search

/-- Circuits with the same dependencies have the same order, or the same cycle, whatever else their
nodes have for sources. -/
theorem search_eq_of_dependencies {c d : Circuit} (hc : c.WellFormed) (hd : d.WellFormed)
    (hsize : d.size = c.size) (hdeps : ∀ id, d.dependencies id = c.dependencies id) :
    d.search = c.search := by
  have hids : d.ids = c.ids := congrArg (fun size => (List.range size).map NodeId.mk) hsize
  obtain ⟨r, hrun, hsearch⟩ := exists_completes hc
  obtain ⟨r', hrun', hsearch'⟩ := exists_completes hd
  have hstart : Abreast c d (start c) (start d) := ⟨by simp [start, hsize], rfl, .nil⟩
  rw [hids] at hrun'
  rw [hsearch, hsearch', (hrun.agree hdeps hrun' hstart).map_finished]

end Circuit

end Netlist
