import Mathlib.Algebra.GroupWithZero.Nat
import Mathlib.Algebra.Order.BigOperators.Group.List
import Mathlib.Algebra.Order.Group.Nat
import Netlist.Proofs.Dependency

namespace Netlist

namespace Circuit

namespace Search

variable {c : Circuit} {s t : State} {roots : List NodeId} {r : Except (List NodeId) State}
  {n : Node} {id dep : NodeId} {pos : Nat} {outer : List Frame}

theorem look_eq_ended_iff : look n pos = .ended ↔ n.sources.length ≤ pos := by
  rw [← List.getElem?_eq_none_iff]
  unfold look
  split
  · next h => simp [h]
  · next h => simp [h]
  · next h =>
    rw [h]
    split <;> simp

/-- What a look finds is what the dependencies from there on start with. -/
theorem dependenciesFrom_eq (n : Node) (pos : Nat) :
    n.dependenciesFrom pos =
      match look n pos with
      | .ended => []
      | .idle => n.dependenciesFrom (pos + 1)
      | .dependency dep => dep :: n.dependenciesFrom (pos + 1) := by
  match h : n.sources[pos]? with
  | none =>
    simp only [look, h]
    exact Node.dependenciesFrom_of_length_le (List.getElem?_eq_none_iff.mp h)
  | some none => simp [look, h, Node.dependenciesFrom_of_getElem? h]
  | some (some src) =>
    rw [Node.dependenciesFrom_of_getElem? h]
    simp only [look, h]
    cases n.kind.crossesClock pos <;> rfl

theorem depends_of_look (hn : c.node? id = some n) (hlook : look n pos = .dependency dep) :
    c.Depends dep id := by
  refine ⟨n, pos, hn, ?_⟩
  unfold look at hlook
  split at hlook
  · cases hlook
  · cases hlook
  · next h =>
    cases hcrosses : n.kind.crossesClock pos
    · rw [hcrosses, if_neg (by decide)] at hlook
      cases hlook
      exact ⟨by rw [Node.source?, h]; rfl, rfl⟩
    · rw [hcrosses] at hlook
      cases hlook

theorem lookAt_eq (hn : c.node? id = some n) (pos : Nat) : lookAt c id pos = look n pos := by
  rw [lookAt, hn]
  rfl

theorem sourceCount_eq (hn : c.node? id = some n) : sourceCount c id = n.sources.length := by
  rw [sourceCount, hn]
  rfl

/-- The dependencies that a frame has yet to look at. -/
def Frame.pending (c : Circuit) (f : Frame) : List NodeId :=
  ((c.node? f.id).map (·.dependenciesFrom f.pos)).getD []

theorem Frame.pending_zero (c : Circuit) (id : NodeId) : pending c ⟨id, 0⟩ = c.dependencies id := by
  unfold pending Circuit.dependencies
  cases c.node? id <;> simp [Node.dependenciesFrom_zero]

theorem Frame.pending_eq (hn : c.node? id = some n) (pos : Nat) :
    pending c ⟨id, pos⟩ = n.dependenciesFrom pos := by
  simp [pending, hn]

theorem Frame.pending_of_ended (hn : c.node? id = some n) (hlook : look n pos = .ended) :
    pending c ⟨id, pos⟩ = [] := by
  rw [pending_eq hn, dependenciesFrom_eq, hlook]

theorem Frame.pending_of_idle (hn : c.node? id = some n) (hlook : look n pos = .idle) :
    pending c ⟨id, pos + 1⟩ = pending c ⟨id, pos⟩ := by
  rw [pending_eq hn, pending_eq hn, dependenciesFrom_eq n pos, hlook]

theorem Frame.pending_of_dependency (hn : c.node? id = some n)
    (hlook : look n pos = .dependency dep) :
    pending c ⟨id, pos⟩ = dep :: pending c ⟨id, pos + 1⟩ := by
  rw [pending_eq hn, pending_eq hn, dependenciesFrom_eq n pos, hlook]

/-- From state `s`, with the roots that are yet to be visited, a run of the search ends in `r`. No node,
source or mark is looked up where there is none. -/
inductive Completes (c : Circuit) :
    List NodeId → State → Except (List NodeId) State → Prop
  | halt {s : State} (hstack : s.stack = []) : Completes c [] s (.ok s)
  | known {root : NodeId} {roots : List NodeId} {s : State} {r : Except (List NodeId) State}
      (hstack : s.stack = []) (hin : root.index < s.marks.size) (hmark : s.mark root ≠ .fresh)
      (hrest : Completes c roots s r) : Completes c (root :: roots) s r
  | root {root : NodeId} {roots : List NodeId} {s : State} {r : Except (List NodeId) State}
      (hstack : s.stack = []) (hin : root.index < s.marks.size) (hmark : s.mark root = .fresh)
      (hnode : root.index < c.size) (hrest : Completes c roots (s.enter root) r) :
      Completes c (root :: roots) s r
  | finish {id : NodeId} {n : Node} {outer : List Frame} {roots : List NodeId} {s : State}
      {r : Except (List NodeId) State} (hstack : s.stack = ⟨id, n.sources.length⟩ :: outer)
      (hn : c.node? id = some n) (hin : id.index < s.marks.size)
      (hrest : Completes c roots (s.finish id outer) r) : Completes c roots s r
  | pass {id : NodeId} {n : Node} {pos : Nat} {outer : List Frame} {roots : List NodeId} {s : State}
      {r : Except (List NodeId) State} (hstack : s.stack = ⟨id, pos⟩ :: outer)
      (hn : c.node? id = some n) (hlook : look n pos = .idle)
      (hrest : Completes c roots (s.advance id pos outer) r) : Completes c roots s r
  | enter {id dep : NodeId} {n : Node} {pos : Nat} {outer : List Frame} {roots : List NodeId}
      {s : State} {r : Except (List NodeId) State} (hstack : s.stack = ⟨id, pos⟩ :: outer)
      (hn : c.node? id = some n) (hlook : look n pos = .dependency dep)
      (hin : dep.index < s.marks.size) (hmark : s.mark dep = .fresh) (hnode : dep.index < c.size)
      (hrest : Completes c roots ((s.advance id pos outer).enter dep) r) : Completes c roots s r
  | skip {id dep : NodeId} {n : Node} {pos : Nat} {outer : List Frame} {roots : List NodeId}
      {s : State} {r : Except (List NodeId) State} (hstack : s.stack = ⟨id, pos⟩ :: outer)
      (hn : c.node? id = some n) (hlook : look n pos = .dependency dep)
      (hin : dep.index < s.marks.size) (hmark : s.mark dep = .done)
      (hrest : Completes c roots (s.advance id pos outer) r) : Completes c roots s r
  | cycle {id dep : NodeId} {n : Node} {pos : Nat} {outer : List Frame} {roots : List NodeId}
      {s : State} (hstack : s.stack = ⟨id, pos⟩ :: outer) (hn : c.node? id = some n)
      (hlook : look n pos = .dependency dep) (hin : dep.index < s.marks.size)
      (hmark : s.mark dep = .active) : Completes c roots s (.error (s.cycleFrom dep))

/-- Marks for all nodes, and only nodes on the stack, none of them past the end of its sources. -/
structure Bounded (c : Circuit) (s : State) : Prop where
  marks : s.marks.size = c.size
  stack : ∀ f ∈ s.stack, ∃ n, c.node? f.id = some n ∧ f.pos ≤ n.sources.length

theorem mark_enter (h : id.index < s.marks.size) (other : NodeId) :
    (s.enter id).mark other = if id = other then .active else s.mark other := by
  cases id
  cases other
  simp only [State.mark, State.enter, Array.getElem?_setIfInBounds, NodeId.mk.injEq] at *
  split <;> simp_all

theorem mark_finish (h : id.index < s.marks.size) (other : NodeId) :
    (s.finish id outer).mark other = if id = other then .done else s.mark other := by
  cases id
  cases other
  simp only [State.mark, State.finish, Array.getElem?_setIfInBounds, NodeId.mk.injEq] at *
  split <;> simp_all

theorem mark_start (c : Circuit) (id : NodeId) :
    (start c).mark id = if id.index < c.size then .fresh else .done := by
  simp only [State.mark, start, Array.getElem?_replicate]
  split <;> rfl

theorem bounded_start (c : Circuit) : Bounded c (start c) :=
  ⟨by simp [start], fun f hf => nomatch hf⟩

theorem Bounded.exists_node (h : Bounded c s) (hstack : s.stack = ⟨id, pos⟩ :: outer) :
    ∃ n, c.node? id = some n ∧ pos ≤ n.sources.length :=
  h.stack ⟨id, pos⟩ (by simp [hstack])

theorem Bounded.enter (h : Bounded c s) (hid : id.index < c.size) : Bounded c (s.enter id) := by
  refine ⟨by simpa [State.enter] using h.marks, fun f hf => ?_⟩
  rcases List.mem_cons.mp hf with rfl | hf
  · obtain ⟨n, hn⟩ := exists_node_of_mem (mem_ids.mpr hid)
    exact ⟨n, hn, Nat.zero_le _⟩
  · exact h.stack f hf

theorem Bounded.finish (h : Bounded c s) (hstack : s.stack = ⟨id, pos⟩ :: outer) :
    Bounded c (s.finish id outer) := by
  refine ⟨by simpa [State.finish] using h.marks, fun f hf => h.stack f ?_⟩
  rw [hstack]
  exact List.mem_cons_of_mem _ hf

theorem Bounded.advance (h : Bounded c s) (hstack : s.stack = ⟨id, pos⟩ :: outer)
    (hn : c.node? id = some n) (hlook : look n pos ≠ .ended) :
    Bounded c (s.advance id pos outer) := by
  refine ⟨h.marks, fun f hf => ?_⟩
  rcases List.mem_cons.mp hf with rfl | hf
  · exact ⟨n, hn, Nat.lt_of_not_le fun hle => hlook (look_eq_ended_iff.mpr hle)⟩
  · exact h.stack f (by simp [hstack, hf])

/-- The steps that a node takes: one for each source, and one to finish. -/
def weight (c : Circuit) (id : NodeId) : Nat := sourceCount c id + 1

/-- The steps that the nodes take that are not yet entered. -/
def freshWork (c : Circuit) (s : State) : Nat :=
  (c.ids.map fun id => if s.mark id = .fresh then weight c id else 0).sum

def stackWork (c : Circuit) (stack : List Frame) : Nat :=
  (stack.map fun f => weight c f.id - f.pos).sum

def work (c : Circuit) (s : State) : Nat := freshWork c s + stackWork c s.stack

theorem bound_eq (c : Circuit) : bound c = (c.ids.map (weight c)).sum := by
  unfold bound
  generalize c.ids = ids
  induction ids with
  | nil => rfl
  | cons id ids ih => simp [ih, weight]

theorem work_start (c : Circuit) : work c (start c) = bound c := by
  have hmarks : ∀ id ∈ c.ids, (start c).mark id = .fresh := by
    intro id hid
    rw [mark_start, if_pos (mem_ids.mp hid)]
  rw [bound_eq, work, freshWork, List.map_congr_left fun id hid => if_pos (hmarks id hid)]
  rfl

theorem work_enter (hin : id.index < s.marks.size) (hid : id ∈ c.ids) (hmark : s.mark id = .fresh) :
    work c (s.enter id) = work c s := by
  -- the work of all nodes is that of the entered one and that of the others, which stays
  have hsplit (u : State) := List.sum_map_erase
    (fun id => if u.mark id = .fresh then weight c id else 0) hid
  have hothers : ∀ other ∈ c.ids.erase id,
      (if (s.enter id).mark other = .fresh then weight c other else 0) =
        if s.mark other = .fresh then weight c other else 0 := by
    intro other hother
    have hne : id ≠ other := fun h => ((c.nodup_ids.mem_erase_iff).mp hother).1 h.symm
    rw [mark_enter hin, if_neg hne]
  have hfresh : freshWork c (s.enter id) + weight c id = freshWork c s := by
    unfold freshWork
    rw [← hsplit (s.enter id), ← hsplit s, List.map_congr_left hothers, if_pos hmark,
      mark_enter hin, if_pos rfl, if_neg (by decide)]
    omega
  have hstack : stackWork c (s.enter id).stack = weight c id + stackWork c s.stack := by
    simp [stackWork, State.enter]
  unfold work
  omega

theorem freshWork_finish (hin : id.index < s.marks.size) :
    freshWork c (s.finish id outer) ≤ freshWork c s := by
  apply List.sum_le_sum
  intro other _
  rw [mark_finish hin]
  by_cases h : id = other
  · rw [if_pos h, if_neg (by decide)]
    exact Nat.zero_le _
  · rw [if_neg h]

theorem work_finish (hin : id.index < s.marks.size) (hn : c.node? id = some n)
    (hstack : s.stack = ⟨id, n.sources.length⟩ :: outer) :
    work c (s.finish id outer) + 1 ≤ work c s := by
  have hfresh : freshWork c (s.finish id outer) ≤ freshWork c s := freshWork_finish hin
  have hwork : stackWork c s.stack = 1 + stackWork c outer := by
    simp [stackWork, hstack, weight, sourceCount_eq hn]
  have hafter : stackWork c (s.finish id outer).stack = stackWork c outer := rfl
  unfold work
  omega

theorem work_advance (hn : c.node? id = some n) (hlook : look n pos ≠ .ended)
    (hstack : s.stack = ⟨id, pos⟩ :: outer) : work c (s.advance id pos outer) + 1 = work c s := by
  have hpos : pos < n.sources.length :=
    Nat.lt_of_not_le fun hle => hlook (look_eq_ended_iff.mpr hle)
  have hweight : weight c id = n.sources.length + 1 := by rw [weight, sourceCount_eq hn]
  have hbefore : stackWork c s.stack = weight c id - pos + stackWork c outer := by
    simp [stackWork, hstack]
  have hafter : stackWork c (s.advance id pos outer).stack =
      weight c id - (pos + 1) + stackWork c outer := by
    simp [stackWork, State.advance]
  have hfresh : freshWork c (s.advance id pos outer) = freshWork c s := rfl
  unfold work
  omega

/-- With this much fuel the stack is worked off: a run that continues from where it is empty can start
from `s`, and so can one that ends in the cycle that is found. -/
def WorkedOff (c : Circuit) (fuel : Nat) (s : State) : Prop :=
  match run c fuel s with
  | .error cycle => ∀ roots, Completes c roots s (.error cycle)
  | .ok t => t.stack = [] ∧ Bounded c t ∧ work c t ≤ work c s ∧
      ∀ roots r, Completes c roots t r → Completes c roots s r

theorem WorkedOff.step {fuel : Nat} (h : WorkedOff c fuel t)
    (hrun : run c (fuel + 1) s = run c fuel t) (hwork : work c t ≤ work c s)
    (hcompletes : ∀ roots r, Completes c roots t r → Completes c roots s r) :
    WorkedOff c (fuel + 1) s := by
  unfold WorkedOff at *
  rw [hrun]
  cases hr : run c fuel t with
  | error cycle =>
    rw [hr] at h
    exact fun roots => hcompletes roots _ (h roots)
  | ok u =>
    rw [hr] at h
    exact ⟨h.1, h.2.1, Nat.le_trans h.2.2.1 hwork,
      fun roots r hu => hcompletes roots r (h.2.2.2 roots r hu)⟩

theorem workedOff (hc : c.WellFormed) {fuel : Nat} (hs : Bounded c s) (hfuel : work c s < fuel) :
    WorkedOff c fuel s := by
  -- every step uses up one unit of fuel and at least one of the work that is left
  induction fuel generalizing s with
  | zero => exact absurd hfuel (Nat.not_lt_zero _)
  | succ fuel ih =>
    match hstack : s.stack with
    | [] =>
      have hrun : run c (fuel + 1) s = .ok s := by simp [run, hstack]
      unfold WorkedOff
      rw [hrun]
      exact ⟨hstack, hs, Nat.le_refl _, fun _ _ h => h⟩
    | ⟨id, pos⟩ :: outer =>
      obtain ⟨n, hn, hpos⟩ := hs.exists_node hstack
      cases hlook : look n pos with
      | ended =>
        have hend : pos = n.sources.length := Nat.le_antisymm hpos (look_eq_ended_iff.mp hlook)
        rw [hend] at hstack hlook
        have hin : id.index < s.marks.size := by
          rw [hs.marks]
          exact lt_size_of_node? hn
        have hwork := work_finish hin hn hstack
        refine (ih (hs.finish hstack) (by omega)).step
          (by simp [run, hstack, lookAt_eq hn, hlook]) (by omega) ?_
        exact fun roots r => .finish hstack hn hin
      | idle =>
        have hne : look n pos ≠ .ended := by rw [hlook]; exact nofun
        have hwork := work_advance hn hne hstack
        refine (ih (hs.advance hstack hn hne) (by omega)).step
          (by simp [run, hstack, lookAt_eq hn, hlook]) (by omega) ?_
        exact fun roots r => .pass hstack hn hlook
      | dependency dep =>
        have hne : look n pos ≠ .ended := by rw [hlook]; exact nofun
        have hwork := work_advance hn hne hstack
        have hdep : dep.index < c.size := (depends_of_look hn hlook).source_lt hc
        have hin : dep.index < s.marks.size := by rwa [hs.marks]
        cases hmark : s.mark dep with
        | fresh =>
          -- the steps of the node that is entered were counted as fresh work before
          have hsame : work c ((s.advance id pos outer).enter dep) = work c (s.advance id pos outer) :=
            work_enter hin (mem_ids.mpr hdep) hmark
          refine (ih ((hs.advance hstack hn hne).enter hdep) (by omega)).step
            (by simp [run, hstack, lookAt_eq hn, hlook, hmark]) (by omega) ?_
          exact fun roots r => .enter hstack hn hlook hin hmark hdep
        | active =>
          have hrun : run c (fuel + 1) s = .error (s.cycleFrom dep) := by
            simp [run, hstack, lookAt_eq hn, hlook, hmark]
          unfold WorkedOff
          rw [hrun]
          exact fun roots => .cycle hstack hn hlook hin hmark
        | done =>
          refine (ih (hs.advance hstack hn hne) (by omega)).step
            (by simp [run, hstack, lookAt_eq hn, hlook, hmark]) (by omega) ?_
          exact fun roots r => .skip hstack hn hlook hin hmark

/-- The search from the given roots ends, and the bound does not cut it off. -/
theorem completes_visits (hc : c.WellFormed) (hroots : ∀ root ∈ roots, root.index < c.size)
    (hs : Bounded c s) (hstack : s.stack = []) (hwork : work c s ≤ bound c) :
    Completes c roots s (roots.foldlM (visit c (bound c + 1)) s) := by
  induction roots generalizing s with
  | nil => exact .halt hstack
  | cons root roots ih =>
    have hroot := hroots root List.mem_cons_self
    have hrest : ∀ root ∈ roots, root.index < c.size :=
      fun other h => hroots other (List.mem_cons_of_mem root h)
    have hin : root.index < s.marks.size := by rwa [hs.marks]
    rw [List.foldlM_cons]
    by_cases hmark : s.mark root = .fresh
    -- what is left of the work bounds this visit, and the visits after it find no more
    · have hvisit : visit c (bound c + 1) s root = run c (bound c + 1) (s.enter root) := by
        simp [visit, hmark]
      have hsame : work c (s.enter root) = work c s := work_enter hin (mem_ids.mpr hroot) hmark
      have hoff := workedOff hc (hs.enter hroot) (by omega : work c (s.enter root) < bound c + 1)
      unfold WorkedOff at hoff
      rw [hvisit]
      cases hr : run c (bound c + 1) (s.enter root) with
      | error cycle =>
        rw [hr] at hoff
        exact .root hstack hin hmark hroot (hoff roots)
      | ok t =>
        rw [hr] at hoff
        obtain ⟨htstack, ht, htwork, hback⟩ := hoff
        exact .root hstack hin hmark hroot (hback _ _ (ih hrest ht htstack (by omega)))
    · have hvisit : visit c (bound c + 1) s root = .ok s := by
        unfold visit
        split
        · next h => exact absurd h hmark
        · rfl
      rw [hvisit]
      exact .known hstack hin hmark (ih hrest hs hstack hwork)

/-- The outcome of the search is that of a run. -/
theorem exists_completes (hc : c.WellFormed) :
    ∃ r, Completes c c.ids (start c) r ∧ c.search = r.map (·.finished.reverse) :=
  ⟨_, completes_visits hc (fun _ h => mem_ids.mp h) (bounded_start c) rfl (work_start c).le, rfl⟩

end Search

end Circuit

end Netlist
