import Mathlib.Data.List.Chain
import Netlist.Proofs.SearchSteps

namespace Netlist

namespace Circuit

variable {c : Circuit}

/-- Distinct nodes under their own names, each of which depends on the next one, and the last one on
the first. -/
structure IsCycle (c : Circuit) (cycle : List (NodeId × String)) : Prop where
  ne_nil : cycle ≠ []
  nodup : (cycle.map Prod.fst).Nodup
  named : ∀ {member}, member ∈ cycle → ∃ n, c.node? member.1 = some n ∧ n.name = member.2
  depends : cycle.IsChain fun member next => c.Depends next.1 member.1
  closes : ∀ {first last}, cycle.head? = some first → cycle.getLast? = some last →
    c.Depends first.1 last.1

theorem nameOf_eq {id : NodeId} {n : Node} (h : c.node? id = some n) : c.nameOf id = n.name := by
  rw [nameOf, h, Option.map_some, Option.getD_some]

namespace Search

variable {s : State} {finished : List NodeId}

theorem Stacked.isChain {above : Option NodeId} {stack : List Frame}
    (h : Stacked c finished above stack) : (stack.map (·.id)).IsChain c.Depends := by
  induction stack generalizing above with
  | nil => exact .nil
  | cons f outer ih =>
    refine (ih h.2.2).cons fun id hid => ?_
    cases outer with
    | nil => cases hid
    | cons e outer =>
      cases hid
      exact h.2.2.2.1 f.id rfl

theorem State.exists_cycleFrom {dep : NodeId} (h : dep ∈ s.stack.map (·.id)) :
    ∃ outside inside, (s.stack.map (·.id)).reverse = outside ++ dep :: inside ∧
      s.cycleFrom dep = dep :: inside := by
  obtain ⟨outside, inside, hsplit, hnot⟩ :=
    List.eq_append_cons_of_mem (List.mem_reverse.mpr h)
  refine ⟨outside, inside, hsplit, ?_⟩
  have houtside : ∀ id ∈ outside, (id != dep) = true := by
    intro id hid
    rw [bne_iff_ne]
    rintro rfl
    exact hnot hid
  rw [State.cycleFrom, hsplit, List.dropWhile_append_of_pos houtside,
    List.dropWhile_cons_of_neg (by simp)]

theorem Invariant.mem_stack (h : Invariant c s) {dep : NodeId} (hmeets : s.Meets c dep) :
    dep ∈ s.stack.map (·.id) := (h.active dep).mp hmeets.2

/-- What the search reports where it meets a node that is being expanded is a cycle. -/
theorem Invariant.isCycle (h : Invariant c s) {dep : NodeId} (hmeets : s.Meets c dep) :
    c.IsCycle ((s.cycleFrom dep).map fun id => (id, c.nameOf id)) := by
  obtain ⟨id, n, pos, outer, hstack, hn, hlook⟩ := hmeets.1
  obtain ⟨outside, inside, hsplit, hfrom⟩ := State.exists_cycleFrom (h.mem_stack hmeets)
  have hsuffix : s.cycleFrom dep <:+ (s.stack.map (·.id)).reverse := by
    rw [hsplit, hfrom]
    exact List.suffix_append outside (dep :: inside)
  refine ⟨by simp [hfrom], ?_, ?_, ?_, ?_⟩
  · rw [map_fst_named]
    exact hsuffix.sublist.nodup (List.nodup_reverse.mpr h.nodup_stack)
  · intro member hmember
    obtain ⟨id, hid, rfl⟩ := List.mem_map.mp hmember
    obtain ⟨m, hm⟩ := exists_node_of_mem (mem_ids.mpr (h.bounded.lt_size_of_mem_cycleFrom hid))
    exact ⟨m, hm, (nameOf_eq hm).symm⟩
  · rw [List.isChain_map]
    exact (List.isChain_reverse.mpr h.stacked.isChain).suffix hsuffix
  · intro first last hfirst hlast
    -- the cycle starts at the node that is met and ends at the innermost one
    have hlastId : (s.cycleFrom dep).getLast? = some id := by
      have hwhole : (s.stack.map (·.id)).reverse.getLast? = some id := by simp [hstack]
      rwa [hsplit, List.getLast?_append_of_ne_nil outside (by simp), ← hfrom] at hwhole
    rw [List.head?_map, hfrom, List.head?_cons, Option.map_some, Option.some.injEq] at hfirst
    rw [List.getLast?_map, hlastId, Option.map_some, Option.some.injEq] at hlast
    subst hfirst hlast
    exact depends_of_look hn hlook

end Search

open Search

theorem order_eq_error_iff {cycle : List (NodeId × String)} :
    c.order = .error (.combinationalCycle cycle) ↔
      ∃ ids, c.search = .error ids ∧ cycle = ids.map fun id => (id, c.nameOf id) := by
  unfold Circuit.order
  cases c.search <;> simp [Except.mapError, eq_comm]

/-- A cycle that is reported is one: it has a member, its members are distinct nodes under their own
names, and each of them depends on the next one and the last one on the first. It is read off the stack
where the search meets a node that is being expanded, and that node is on the stack. -/
theorem reported_cycle_is_real (h : c.Reachable) {cycle : List (NodeId × String)}
    (hcycle : c.order = .error (.combinationalCycle cycle)) :
    c.IsCycle cycle ∧ ∃ roots s dep, Steps c (c.ids, start c) (roots, s) ∧ s.Meets c dep ∧
      dep ∈ s.stack.map (·.id) ∧ cycle.map Prod.fst = s.cycleFrom dep := by
  have hc := h.wellFormed
  obtain ⟨ids, hsearch, rfl⟩ := order_eq_error_iff.mp hcycle
  obtain ⟨⟨roots, s⟩, r, hsteps, hstops, hr⟩ := exists_steps hc
  have hs : Invariant c s := (hsteps.onCourse hc).invariant
  rw [hsearch] at hr
  cases hstops with
  | done => cases hr
  | @cycle _ _ dep hmeets =>
    cases hr
    exact ⟨hs.isCycle hmeets, roots, s, dep, hsteps, hmeets, hs.mem_stack hmeets,
      c.map_fst_named _⟩

/-- Proxies of which the first leads into a loop of the two others. -/
def loopedCalls : List Call :=
  [.literal (.ofNat 4 1) "one" .unknown, .proxy ⟨0⟩ "p" .unknown, .proxy ⟨0⟩ "p" .unknown,
   .proxy ⟨2⟩ "q" .unknown, .connect ⟨1⟩ 0 (some ⟨3⟩), .connect ⟨2⟩ 0 (some ⟨3⟩)]

theorem looped_cycle_is_real :
    (ofCalls loopedCalls).order = .error (.combinationalCycle [(⟨3⟩, "q"), (⟨2⟩, "p")]) ∧
      (ofCalls loopedCalls).IsCycle [(⟨3⟩, "q"), (⟨2⟩, "p")] := by
  have hreachable : (ofCalls loopedCalls).Reachable := reachableBy_ofCalls fun _ _ => trivial
  have hcycle : (ofCalls loopedCalls).order =
      .error (.combinationalCycle [(⟨3⟩, "q"), (⟨2⟩, "p")]) := by decide
  exact ⟨hcycle, (reported_cycle_is_real hreachable hcycle).1⟩

end Circuit

end Netlist
