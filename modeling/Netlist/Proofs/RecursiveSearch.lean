import Netlist.Proofs.SearchSteps

namespace Netlist

namespace Circuit

variable {c : Circuit} {path done : List NodeId} {id : NodeId}

def offPath (c : Circuit) (path : List NodeId) : Nat := (c.ids.filter (· ∉ path)).length

theorem offPath_lt (hid : id ∈ c.ids) (hpath : id ∉ path) :
    c.offPath (path ++ [id]) < c.offPath path := by
  have hothers : c.ids.filter (· ∉ path ++ [id]) = (c.ids.filter (· ∉ path)).filter (· ≠ id) := by
    rw [List.filter_filter]
    refine List.filter_congr fun other _ => ?_
    simp [and_comm]
  unfold offPath
  rw [hothers, List.length_filter_lt_length_iff_exists]
  exact ⟨id, by simp [hid, hpath], by simp⟩

/-- Goes down to `id` along the path, and says which nodes are done then: those that were done before,
and after them the dependencies of `id` and `id` itself. Fails with the part of the path that leads from
`id` back to it. -/
def descend (c : Circuit) (path done : List NodeId) (id : NodeId) :
    Except (List NodeId) (List NodeId) :=
  if id ∈ done then pure done
  else if id ∈ path then throw (path.dropWhile (· != id))
  else do
    let done ← (c.dependencies id).attach.foldlM
      (fun done (dep : { dep // dep ∈ c.dependencies id }) => c.descend (path ++ [id]) done dep.1) done
    return done ++ [id]
termination_by c.offPath path
decreasing_by exact offPath_lt (mem_dependencies.mp dep.2).mem_ids ‹_›

/-- All nodes as they are done when the search goes down to each of them, in ascending order. -/
def postOrder (c : Circuit) : Except (List NodeId) (List NodeId) := c.ids.foldlM (c.descend []) []

theorem descend_of_done (h : id ∈ done) : c.descend path done id = pure done := by
  rw [descend, if_pos h]

theorem descend_of_path (hdone : id ∉ done) (hpath : id ∈ path) :
    c.descend path done id = throw (path.dropWhile (· != id)) := by
  rw [descend, if_neg hdone, if_pos hpath]

theorem descend_of_fresh (hdone : id ∉ done) (hpath : id ∉ path) :
    c.descend path done id = do
      let done ← (c.dependencies id).foldlM (c.descend (path ++ [id])) done
      return done ++ [id] := by
  rw [descend, if_neg hdone, if_neg hpath]
  simp

namespace Search

variable {s : State} {n : Node} {dep : NodeId} {pos : Nat} {outer : List Frame}

def pathOf (stack : List Frame) : List NodeId := (stack.map (·.id)).reverse

theorem pathOf_cons (f : Frame) (stack : List Frame) : pathOf (f :: stack) = pathOf stack ++ [f.id] := by
  simp [pathOf]

theorem pathOf_advance {stack : List Frame} (h : stack = ⟨id, pos⟩ :: outer) :
    pathOf (⟨id, pos + 1⟩ :: outer) = pathOf stack := by
  simp [h, pathOf]

/-- What the recursion still has to do for the nodes that are being expanded. -/
def resume (c : Circuit) : List Frame → List NodeId → Except (List NodeId) (List NodeId)
  | [], done => pure done
  | f :: outer, done => do
    let done ← (f.pending c).foldlM (c.descend (pathOf (f :: outer))) done
    resume c outer (done ++ [f.id])

/-- What the recursion comes to, if it goes on from where the search is. -/
def answer (c : Circuit) (now : List NodeId × State) : Except (List NodeId) (List NodeId) := do
  now.1.foldlM (c.descend []) (← resume c now.2.stack now.2.finished.reverse)

theorem resume_of_ended (hn : c.node? id = some n) (hlook : look n pos = .ended)
    (outer : List Frame) (done : List NodeId) :
    resume c (⟨id, pos⟩ :: outer) done = resume c outer (done ++ [id]) := by
  simp [resume, Frame.pending_of_ended hn hlook]

theorem resume_of_idle (hn : c.node? id = some n) (hlook : look n pos = .idle) (outer : List Frame)
    (done : List NodeId) :
    resume c (⟨id, pos + 1⟩ :: outer) done = resume c (⟨id, pos⟩ :: outer) done := by
  simp [resume, Frame.pending_of_idle hn hlook, pathOf_cons]

theorem resume_of_dependency (hn : c.node? id = some n) (hlook : look n pos = .dependency dep)
    (outer : List Frame) (done : List NodeId) :
    resume c (⟨id, pos⟩ :: outer) done =
      c.descend (pathOf (⟨id, pos + 1⟩ :: outer)) done dep >>= resume c (⟨id, pos + 1⟩ :: outer) := by
  simp [resume, Frame.pending_of_dependency hn hlook, pathOf_cons]

/-- To enter a node that is neither done nor on the path is to go down to it. -/
theorem resume_enter {stack : List Frame} (hdone : id ∉ done) (hpath : id ∉ pathOf stack) :
    resume c (⟨id, 0⟩ :: stack) done = c.descend (pathOf stack) done id >>= resume c stack := by
  simp [resume, Frame.pending_zero, pathOf_cons, descend_of_fresh hdone hpath]

theorem Invariant.mem_finished (h : Invariant c s) (hid : id.index < c.size) :
    id ∈ s.finished.reverse ↔ s.mark id = .done := by
  rw [List.mem_reverse, h.done id hid]

theorem Invariant.mem_pathOf (h : Invariant c s) : id ∈ pathOf s.stack ↔ s.mark id = .active := by
  rw [pathOf, List.mem_reverse, h.active]

theorem Invariant.notMem_of_fresh (h : Invariant c s) (hid : id.index < c.size)
    (hmark : s.mark id = .fresh) : id ∉ s.finished.reverse ∧ id ∉ pathOf s.stack := by
  rw [h.mem_finished hid, h.mem_pathOf, hmark]
  exact ⟨nofun, nofun⟩

/-- No step of the search changes what the recursion comes to. -/
theorem Step.answer_eq {before after : List NodeId × State} (h : Step c before after)
    (hc : c.WellFormed) (hb : OnCourse c before) : answer c after = answer c before := by
  -- each step does one thing that the recursion has before it, or nothing that it sees
  obtain ⟨hs, hroots⟩ := hb
  unfold answer
  cases h with
  | @known root roots s hstack hmark =>
    have hdone : root ∈ s.finished.reverse := by
      rw [hs.mem_finished (hroots root List.mem_cons_self)]
      cases hm : s.mark root with
      | fresh => exact absurd hm hmark
      | active => simp [← hs.mem_pathOf, hstack, pathOf] at hm
      | done => rfl
    simp only [hstack, resume, pure_bind, List.foldlM_cons, descend_of_done hdone]
  | @root root roots s hstack hmark =>
    obtain ⟨hdone, hpath⟩ := hs.notMem_of_fresh (hroots root List.mem_cons_self) hmark
    simp only [State.enter, resume_enter hdone hpath]
    simp only [hstack, resume, bind_pure, pure_bind, List.foldlM_cons]
    rfl
  | @finish id n outer roots s hstack hn =>
    have hended : look n n.sources.length = .ended := look_eq_ended_iff.mpr (Nat.le_refl _)
    simp only [State.finish, hstack, resume_of_ended hn hended, List.reverse_cons]
  | @pass id n pos outer roots s hstack hn hlook =>
    simp only [State.advance, hstack, resume_of_idle hn hlook]
  | @enter id dep n pos outer roots s hstack hn hlook hmark =>
    have hdep : dep.index < c.size := (depends_of_look hn hlook).source_lt hc
    obtain ⟨hdone, hpath⟩ := hs.notMem_of_fresh hdep hmark
    rw [← pathOf_advance hstack] at hpath
    simp only [State.enter, State.advance, resume_enter hdone hpath, hstack,
      resume_of_dependency hn hlook]
  | @skip id dep n pos outer roots s hstack hn hlook hmark =>
    have hdep : dep.index < c.size := (depends_of_look hn hlook).source_lt hc
    have hdone : dep ∈ s.finished.reverse := (hs.mem_finished hdep).mpr hmark
    simp only [State.advance, hstack, resume_of_dependency hn hlook, descend_of_done hdone, pure_bind]

theorem Steps.answer_eq {now : List NodeId × State} (h : Steps c (c.ids, start c) now)
    (hc : c.WellFormed) : answer c now = c.postOrder := by
  induction h with
  | refl => rfl
  | tail hsteps hstep ih => exact (hstep.answer_eq hc (Steps.onCourse hsteps hc)).trans ih

/-- Where the search ends, the recursion has nothing left to do, or fails at once. -/
theorem Stops.answer_eq {now : List NodeId × State} {r : Except (List NodeId) State}
    (h : Stops c now r) (hc : c.WellFormed) (hs : OnCourse c now) :
    answer c now = r.map (·.finished.reverse) := by
  obtain ⟨hs, -⟩ := hs
  unfold answer
  cases h with
  | done hstack =>
    simp only [hstack, resume]
    rfl
  | @cycle roots s dep hmeets =>
    obtain ⟨⟨id, n, pos, outer, hstack, hn, hlook⟩, hmark⟩ := hmeets
    have hdep : dep.index < c.size := (depends_of_look hn hlook).source_lt hc
    have hdone : dep ∉ s.finished.reverse := by
      rw [hs.mem_finished hdep, hmark]
      nofun
    have hresume : resume c s.stack s.finished.reverse = throw (s.cycleFrom dep) := by
      rw [hstack, resume_of_dependency hn hlook, pathOf_advance hstack,
        descend_of_path hdone (hs.mem_pathOf.mpr hmark)]
      rfl
    simp only [hresume]
    rfl

end Search

open Search

/-- The search with a stack and the recursion find the same order, or the same cycle. -/
theorem search_eq_postOrder (hc : c.WellFormed) : c.search = c.postOrder := by
  obtain ⟨now, r, hsteps, hstops, hsearch⟩ := exists_steps hc
  calc c.search = r.map (·.finished.reverse) := hsearch
    _ = answer c now := (hstops.answer_eq hc (hsteps.onCourse hc)).symm
    _ = c.postOrder := hsteps.answer_eq hc

/-- Ordering has the outcome of the search that goes down from the nodes in ascending order, finishes
each node after its dependencies in the order of their positions, and fails at the first dependency that
is on the path, with the part of the path from there on: the same order, or the same cycle. -/
theorem order_by_recursion (h : c.Reachable) :
    c.order = c.postOrder.mapError fun cycle =>
      .combinationalCycle (cycle.map fun id => (id, c.nameOf id)) := by
  rw [← search_eq_postOrder h.wellFormed]
  rfl

/-- The memory reads at the proxy after it, and all that crosses the clock edge is fed back. -/
def wovenCalls : List Call :=
  [.literal (.ofNat 4 1) "one" .unknown, .register 4 none "r" .unknown, .memory 4 2 [] "m" .unknown,
   .operation { op := .add } ⟨1⟩ (some ⟨1⟩) "s" .unknown, .proxy ⟨0⟩ "p" .unknown,
   .connectNext ⟨1⟩ ⟨3⟩, .connectMemory ⟨2⟩ ⟨some ⟨4⟩, some ⟨2⟩, none, some ⟨3⟩⟩]

/-- The proxy shows the memory that it addresses, and the register leads to both. -/
def tangledCalls : List Call :=
  wovenCalls ++ [.connect ⟨1⟩ 0 (some ⟨3⟩), .connect ⟨3⟩ 0 (some ⟨4⟩), .connect ⟨4⟩ 0 (some ⟨2⟩)]

theorem woven_by_recursion :
    (ofCalls wovenCalls).postOrder = .ok [⟨0⟩, ⟨1⟩, ⟨4⟩, ⟨2⟩, ⟨3⟩] ∧
      (ofCalls tangledCalls).postOrder = .error [⟨4⟩, ⟨2⟩] := by
  have hreachable (calls : List Call) : (ofCalls calls).Reachable :=
    reachableBy_ofCalls fun _ _ => trivial
  have hwoven : (ofCalls wovenCalls).order = .ok [⟨0⟩, ⟨1⟩, ⟨4⟩, ⟨2⟩, ⟨3⟩] := by decide
  have htangled : (ofCalls tangledCalls).order =
      .error (.combinationalCycle [(⟨4⟩, "p"), (⟨2⟩, "m")]) := by decide
  rw [order_by_recursion (hreachable _)] at hwoven htangled
  constructor
  · cases hfound : (ofCalls wovenCalls).postOrder with
    | error cycle => rw [hfound] at hwoven; cases hwoven
    | ok order => rw [hfound] at hwoven; exact congrArg Except.ok (Except.ok.inj hwoven)
  · cases hfound : (ofCalls tangledCalls).postOrder with
    | error cycle =>
      rw [hfound, Except.mapError, Except.error.injEq, Error.combinationalCycle.injEq] at htangled
      have hids := congrArg (List.map Prod.fst) htangled
      rw [map_fst_named] at hids
      exact congrArg Except.error hids
    | ok order => rw [hfound] at htangled; cases htangled

end Circuit

end Netlist
