import Netlist.Proofs.EvaluationOrder

namespace Netlist

namespace Circuit

namespace Search

variable {c : Circuit} {s : State} {roots : List NodeId} {n : Node} {id dep : NodeId} {pos : Nat}
  {outer : List Frame}

/-- One step of the search. The roots that are yet to be visited stand beside the state. -/
inductive Step (c : Circuit) : List NodeId × State → List NodeId × State → Prop
  | known {root : NodeId} {roots : List NodeId} {s : State} (hstack : s.stack = [])
      (hmark : s.mark root ≠ .fresh) : Step c (root :: roots, s) (roots, s)
  | root {root : NodeId} {roots : List NodeId} {s : State} (hstack : s.stack = [])
      (hmark : s.mark root = .fresh) : Step c (root :: roots, s) (roots, s.enter root)
  | finish {id : NodeId} {n : Node} {outer : List Frame} {roots : List NodeId} {s : State}
      (hstack : s.stack = ⟨id, n.sources.length⟩ :: outer) (hn : c.node? id = some n) :
      Step c (roots, s) (roots, s.finish id outer)
  | pass {id : NodeId} {n : Node} {pos : Nat} {outer : List Frame} {roots : List NodeId} {s : State}
      (hstack : s.stack = ⟨id, pos⟩ :: outer) (hn : c.node? id = some n)
      (hlook : look n pos = .idle) : Step c (roots, s) (roots, s.advance id pos outer)
  | enter {id dep : NodeId} {n : Node} {pos : Nat} {outer : List Frame} {roots : List NodeId}
      {s : State} (hstack : s.stack = ⟨id, pos⟩ :: outer) (hn : c.node? id = some n)
      (hlook : look n pos = .dependency dep) (hmark : s.mark dep = .fresh) :
      Step c (roots, s) (roots, (s.advance id pos outer).enter dep)
  | skip {id dep : NodeId} {n : Node} {pos : Nat} {outer : List Frame} {roots : List NodeId}
      {s : State} (hstack : s.stack = ⟨id, pos⟩ :: outer) (hn : c.node? id = some n)
      (hlook : look n pos = .dependency dep) (hmark : s.mark dep = .done) :
      Step c (roots, s) (roots, s.advance id pos outer)

abbrev Steps (c : Circuit) : List NodeId × State → List NodeId × State → Prop :=
  Relation.ReflTransGen (Step c)

/-- Where the search ends, and in what. -/
inductive Stops (c : Circuit) : List NodeId × State → Except (List NodeId) State → Prop
  | done {s : State} (hstack : s.stack = []) : Stops c ([], s) (.ok s)
  | cycle {roots : List NodeId} {s : State} {dep : NodeId} (hmeets : s.Meets c dep) :
      Stops c (roots, s) (.error (s.cycleFrom dep))

theorem Completes.exists_steps {r : Except (List NodeId) State} (h : Completes c roots s r) :
    ∃ last, Steps c (roots, s) last ∧ Stops c last r := by
  have hhead {before middle : List NodeId × State} {r : Except (List NodeId) State}
      (hstep : Step c before middle) (hrest : ∃ last, Steps c middle last ∧ Stops c last r) :
      ∃ last, Steps c before last ∧ Stops c last r := by
    obtain ⟨last, hsteps, hstops⟩ := hrest
    exact ⟨last, .head hstep hsteps, hstops⟩
  induction h with
  | halt hstack => exact ⟨_, .refl, .done hstack⟩
  | known hstack _ hmark _ ih => exact hhead (.known hstack hmark) ih
  | root hstack _ hmark _ _ ih => exact hhead (.root hstack hmark) ih
  | finish hstack hn _ _ ih => exact hhead (.finish hstack hn) ih
  | pass hstack hn hlook _ ih => exact hhead (.pass hstack hn hlook) ih
  | enter hstack hn hlook _ hmark _ _ ih => exact hhead (.enter hstack hn hlook hmark) ih
  | skip hstack hn hlook _ hmark _ ih => exact hhead (.skip hstack hn hlook hmark) ih
  | cycle hstack hn hlook _ hmark =>
    exact ⟨_, .refl, .cycle ⟨⟨_, _, _, _, hstack, hn, hlook⟩, hmark⟩⟩

theorem exists_steps (hc : c.WellFormed) : ∃ last r,
    Steps c (c.ids, start c) last ∧ Stops c last r ∧ c.search = r.map (·.finished.reverse) := by
  obtain ⟨r, hrun, hsearch⟩ := exists_completes hc
  obtain ⟨last, hsteps, hstops⟩ := hrun.exists_steps
  exact ⟨last, r, hsteps, hstops, hsearch⟩

theorem Bounded.lt_size_of_mem_cycleFrom (h : Bounded c s) (hid : id ∈ s.cycleFrom dep) :
    id.index < c.size := by
  have hstack : id ∈ (s.stack.map (·.id)).reverse := (List.dropWhile_sublist _).subset hid
  obtain ⟨f, hf, rfl⟩ := List.mem_map.mp (List.mem_reverse.mp hstack)
  obtain ⟨n, hn, -⟩ := h.stack f hf
  exact lt_size_of_node? hn

/-- What holds wherever the search is. -/
structure OnCourse (c : Circuit) (now : List NodeId × State) : Prop where
  invariant : Invariant c now.2
  roots : ∀ root ∈ now.1, root.index < c.size

theorem onCourse_start (c : Circuit) : OnCourse c (c.ids, start c) :=
  ⟨invariant_start c, fun _ hroot => mem_ids.mp hroot⟩

theorem OnCourse.step {before after : List NodeId × State} (h : OnCourse c before)
    (hc : c.WellFormed) (hstep : Step c before after) : OnCourse c after := by
  obtain ⟨hs, hroots⟩ := h
  cases hstep with
  | known => exact ⟨hs, fun root hroot => hroots root (List.mem_cons_of_mem _ hroot)⟩
  | root hstack hmark =>
    exact ⟨hs.enter_root hstack (hroots _ List.mem_cons_self) hmark,
      fun root hroot => hroots root (List.mem_cons_of_mem _ hroot)⟩
  | finish hstack hn => exact ⟨hs.finish hn hstack, hroots⟩
  | pass hstack hn hlook => exact ⟨hs.pass hstack hn hlook, hroots⟩
  | enter hstack hn hlook hmark => exact ⟨hs.enter_dependency hc hstack hn hlook hmark, hroots⟩
  | skip hstack hn hlook hmark => exact ⟨hs.skip hc hstack hn hlook hmark, hroots⟩

theorem Steps.onCourse {now : List NodeId × State} (h : Steps c (c.ids, start c) now)
    (hc : c.WellFormed) : OnCourse c now := by
  induction h with
  | refl => exact onCourse_start c
  | tail _ hstep ih => exact ih.step hc hstep

end Search

end Circuit

end Netlist
