import Netlist.Proofs.Refinement

namespace Netlist

/-- Outputs, proxies and operations show what they make of their sources at once. -/
def NodeKind.isComputed : NodeKind → Bool
  | output | operation .. | proxy => true
  | literal .. | input .. | register .. | memory .. => false

namespace Node

/-- The element may look at `src` at a clock edge. -/
def Samples (n : Node) (src : NodeId) : Prop :=
  match n.kind with
  | .register _ reset _ => n.source? 1 = some src ∨ n.source? 0 = some src ∨ reset = some src
  | .memory .. => n.source? 1 = some src ∨ n.source? 2 = some src ∨ n.source? 3 = some src
  | _ => False

theorem mem_sampled {n : Node} {src : NodeId} : src ∈ n.sampled ↔ n.Samples src := by
  unfold sampled Samples
  cases n.kind <;> simp [List.mem_filterMap, eq_comm]

end Node

namespace Circuit

variable {c : Circuit} {order : List NodeId} {id : NodeId}

/-- A connected source leads from `id`, which is an output, a proxy or an operation, to `src`. -/
def Follows (c : Circuit) (src id : NodeId) : Prop :=
  ∃ n pos, c.node? id = some n ∧ n.kind.isComputed = true ∧ n.source? pos = some src

/-- A register or memory, or a node from which sources lead to one. -/
def ShowsState (c : Circuit) (id : NodeId) : Prop :=
  ∃ element n, c.node? element = some n ∧ n.kind.isStateful = true ∧
    Relation.ReflTransGen c.Follows element id

theorem Follows.depends {src : NodeId} (h : c.Follows src id) : c.Depends src id := by
  obtain ⟨n, pos, hn, hcomputed, hsrc⟩ := h
  refine ⟨n, pos, hn, hsrc, ?_⟩
  cases hkind : n.kind with
  | register => simp [hkind, NodeKind.isComputed] at hcomputed
  | memory => simp [hkind, NodeKind.isComputed] at hcomputed
  | _ => rfl

theorem Depends.follows {src : NodeId} {n : Node} (h : c.Depends src id) (hc : c.WellFormed)
    (hn : c.node? id = some n) (hstateful : n.kind.isStateful = false) : c.Follows src id := by
  have hleaf : n.kind.maxSources ≠ 0 := fun hleaf => hc.not_depends_of_leaf hn hleaf h
  obtain ⟨n', pos, hn', hsrc, -⟩ := h
  cases hn.symm.trans hn'
  refine ⟨n, pos, hn, ?_, hsrc⟩
  cases hkind : n.kind <;> simp_all [NodeKind.isStateful, NodeKind.maxSources, NodeKind.isComputed]

theorem readsState_iff_showsState (hc : c.WellFormed) : c.ReadsState id ↔ c.ShowsState id := by
  constructor
  · rintro ⟨element, e, he, hstateful, hpath⟩
    induction hpath with
    | refl => exact ⟨element, e, he, hstateful, .refl⟩
    | @tail src id _ hlast ih =>
      obtain ⟨n, hn⟩ := exists_node_of_mem hlast.mem_ids
      -- a path may go on through registers and memories, but need not come from before the last of them
      cases hlate : n.kind.isStateful with
      | true => exact ⟨id, n, hn, hlate, .refl⟩
      | false =>
        obtain ⟨nearest, m, hm, hholds, hrest⟩ := ih
        exact ⟨nearest, m, hm, hholds, hrest.tail (hlast.follows hc hn hlate)⟩
  · rintro ⟨element, e, he, hstateful, hpath⟩
    exact ⟨element, e, he, hstateful, hpath.lift (fun id => id) fun _ _ hfollows => hfollows.depends⟩

end Circuit

namespace Simulation

open Circuit

variable {c : Circuit} {mode : Mode} {order : List NodeId} {id : NodeId}

/-- An element is free if all that it samples is found to be stateless, and is in the circuit. -/
theorem free_iff {free : Bool} {n : Node} (hc : c.WellFormed) (ho : c.IsOrder order)
    (hmem : (id, free) ∈ (fresh c mode order).value.elements) (hn : c.node? id = some n) :
    free = true ↔ ∀ src, n.Samples src → ¬ c.ShowsState src ∧ src ∈ c.ids := by
  obtain ⟨id', -, he⟩ := List.mem_map.mp hmem
  cases he
  simp only [hn, Option.map_some, Option.getD_some, List.all_eq_true, stateless_iff hc ho,
    Node.mem_sampled, readsState_iff_showsState hc, and_comm]

/-- A simulation of a circuit without cycles finds exactly the nodes that depend on state, once each
and in the order of evaluation. It finds all registers and memories in ascending order, and of each
whether all that it samples is in the circuit and does not depend on state. -/
theorem dependence_is_exact (h : c.Reachable) (hacyclic : c.Acyclic) (mode : Mode) :
    ∃ s, (start c mode).value = .ok s ∧ c.order = .ok s.order ∧
      s.dependent.Sublist s.order ∧ s.dependent.Nodup ∧
      (∀ id, id ∈ s.dependent ↔ c.ShowsState id) ∧
      s.elements.Pairwise (fun element later => element.1.index < later.1.index) ∧
      (∀ id, (∃ free, (id, free) ∈ s.elements) ↔
        ∃ n, c.node? id = some n ∧ n.kind.isStateful = true) ∧
      ∀ id free n, (id, free) ∈ s.elements → c.node? id = some n →
        (free = true ↔ ∀ src, n.Samples src → src ∉ s.dependent ∧ src ∈ c.ids) := by
  have hc := h.wellFormed
  obtain ⟨order, horder, ho⟩ := hc.exists_isOrder hacyclic
  have hdependent (id : NodeId) : id ∈ (fresh c mode order).value.dependent ↔ c.ShowsState id :=
    (mem_dependent_fresh hc ho mode id).trans (readsState_iff_showsState hc)
  have hsublist : (fresh c mode order).value.dependent.Sublist order := List.filter_sublist
  refine ⟨(fresh c mode order).value, value_start horder mode, horder, hsublist,
    ho.nodup.sublist hsublist, hdependent, ?_, fun id => ?_, fun id free n hmem hn => ?_⟩
  · have hascending := c.pairwise_idsWhere (·.isStateful)
    rwa [← map_fst_elements_fresh c mode order, List.pairwise_map] at hascending
  · rw [← mem_idsWhere, ← map_fst_elements_fresh c mode order]
    simp
  · simp only [hdependent]
    exact free_iff hc ho hmem hn

/-- A register and a memory that sample no state, though the memory is read where state says, and a
register that is reset by a node which is not there. -/
def samplerCalls : List Call :=
  [.input 4 "d" .unknown, .literal (.ofNat 1 1) "on" .unknown, .register 4 none "held" .unknown,
   .connectNext ⟨3⟩ ⟨1⟩, .operation { op := .add } ⟨1⟩ (some ⟨1⟩) "twice" .unknown,
   .operation { op := .add } ⟨3⟩ (some ⟨4⟩) "sum" .unknown, .memory 4 2 [] "words" .unknown,
   .connectMemory ⟨6⟩ ⟨some ⟨5⟩, some ⟨1⟩, some ⟨4⟩, some ⟨2⟩⟩,
   .node (.register none (some ⟨99⟩) none) 4 [none, some ⟨1⟩] "stray" .unknown,
   .output 4 "out" .unknown, .drive ⟨9⟩ ⟨6⟩]

def sampler : Circuit := .ofCalls samplerCalls

theorem sampler_reachable : sampler.Reachable := reachableBy_ofCalls fun _ _ => trivial

theorem sampler_acyclic : sampler.Acyclic := by
  have horder : sampler.order = .ok [⟨0⟩, ⟨1⟩, ⟨2⟩, ⟨3⟩, ⟨4⟩, ⟨5⟩, ⟨6⟩, ⟨7⟩, ⟨8⟩, ⟨9⟩] := by
    decide +kernel
  exact (isOrder_of_order sampler_reachable.wellFormed horder).acyclic

theorem sampler_dependence_is_exact :
    sampler.Reachable ∧ sampler.Acyclic ∧
      ∃ s, (start sampler {}).value = .ok s ∧ s.dependent = [⟨3⟩, ⟨5⟩, ⟨6⟩, ⟨7⟩, ⟨8⟩, ⟨9⟩] ∧
        s.elements = [(⟨3⟩, true), (⟨6⟩, true), (⟨7⟩, false)] ∧
        sampler.ShowsState ⟨9⟩ ∧ ¬ sampler.ShowsState ⟨4⟩ ∧
        ∀ n, sampler.node? ⟨6⟩ = some n → ∀ src, n.Samples src → src ∉ s.dependent := by
  have hfound : (start sampler {}).value.map (fun s => (s.dependent, s.elements)) =
      .ok ([⟨3⟩, ⟨5⟩, ⟨6⟩, ⟨7⟩, ⟨8⟩, ⟨9⟩], [(⟨3⟩, true), (⟨6⟩, true), (⟨7⟩, false)]) := by
    decide +kernel
  obtain ⟨s, hstart, -, -, -, hdependent, -, -, hfree⟩ :=
    dependence_is_exact sampler_reachable sampler_acyclic {}
  simp only [hstart, Except.map, Except.ok.injEq, Prod.mk.injEq] at hfound
  obtain ⟨hnodes, helements⟩ := hfound
  refine ⟨sampler_reachable, sampler_acyclic, s, hstart, hnodes, helements, ?_, ?_,
    fun n hn src hsrc => ?_⟩
  · rw [← hdependent, hnodes]
    decide
  · rw [← hdependent, hnodes]
    decide
  · exact ((hfree ⟨6⟩ true n (by rw [helements]; decide) hn).mp rfl src hsrc).1

end Simulation

end Netlist
