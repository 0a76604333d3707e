import Mathlib.Data.List.Nodup
import Netlist.Circuit.Order
import Netlist.Proofs.Representation

namespace Netlist

namespace Node

theorem mem_connected {n : Node} {pos : Nat} {src : NodeId} :
    (pos, src) ∈ n.connected ↔ n.source? pos = some src := by
  simp only [connected, source?, List.mem_filterMap, Prod.exists, List.mk_mem_zipIdx_iff_getElem?,
    Option.join_eq_some_iff]
  constructor
  · rintro ⟨s, p, hs, he⟩
    obtain ⟨t, rfl, ht⟩ := Option.map_eq_some_iff.mp he
    cases ht
    exact hs
  · intro h
    exact ⟨some src, pos, h, rfl⟩

theorem mem_dependencies {n : Node} {src : NodeId} :
    src ∈ n.dependencies ↔ ∃ pos, n.source? pos = some src ∧ n.kind.crossesClock pos = false := by
  simp only [dependencies, List.mem_map, List.mem_filter, Prod.exists, mem_connected]
  constructor
  · rintro ⟨pos, s, ⟨hs, hc⟩, rfl⟩
    exact ⟨pos, hs, by simpa using hc⟩
  · rintro ⟨pos, hs, hc⟩
    exact ⟨pos, src, ⟨hs, by simp [hc]⟩, rfl⟩

def dependenciesFrom (n : Node) (pos : Nat) : List NodeId :=
  ((n.sources.drop pos).zipIdx pos).filterMap fun (src, pos) =>
    if n.kind.crossesClock pos then none else src

theorem dependenciesFrom_zero (n : Node) : n.dependenciesFrom 0 = n.dependencies := by
  simp only [dependenciesFrom, dependencies, connected, List.drop_zero, List.filter_filterMap,
    List.map_filterMap]
  refine List.filterMap_congr fun ⟨src, pos⟩ _ => ?_
  cases src <;> cases hcrosses : n.kind.crossesClock pos <;> simp [Option.filter, hcrosses]

theorem dependenciesFrom_of_length_le {n : Node} {pos : Nat} (h : n.sources.length ≤ pos) :
    n.dependenciesFrom pos = [] := by
  rw [dependenciesFrom, List.drop_eq_nil_of_le h]
  rfl

theorem dependenciesFrom_of_getElem? {n : Node} {pos : Nat} {src : Option NodeId}
    (h : n.sources[pos]? = some src) :
    n.dependenciesFrom pos =
      (if n.kind.crossesClock pos then none else src).toList ++ n.dependenciesFrom (pos + 1) := by
  obtain ⟨hpos, rfl⟩ := List.getElem?_eq_some_iff.mp h
  rw [dependenciesFrom, List.drop_eq_getElem_cons hpos, List.zipIdx_cons, List.filterMap_cons]
  cases hdep : (if n.kind.crossesClock pos then none else n.sources[pos]) <;>
    simp only [hdep, Option.toList, List.nil_append, List.cons_append] <;> rfl

end Node

namespace Circuit

variable {c : Circuit} {order : List NodeId}

def dependencies (c : Circuit) (id : NodeId) : List NodeId :=
  ((c.node? id).map (·.dependencies)).getD []

/-- A source of `id` is connected to `src`, and the edge does not cross a clock edge. -/
def Depends (c : Circuit) (src id : NodeId) : Prop :=
  ∃ n pos, c.node? id = some n ∧ n.source? pos = some src ∧ n.kind.crossesClock pos = false

def Acyclic (c : Circuit) : Prop := ∀ id, ¬ Relation.TransGen c.Depends id id

/-- Every node once, and after all that it depends on. -/
structure IsOrder (c : Circuit) (order : List NodeId) : Prop where
  perm : order.Perm c.ids
  before : ∀ {dep id}, c.Depends dep id → order.idxOf dep < order.idxOf id

theorem mem_dependencies {src id : NodeId} : src ∈ c.dependencies id ↔ c.Depends src id := by
  unfold dependencies Depends
  cases h : c.node? id with
  | none => simp
  | some n => simp [Node.mem_dependencies]

theorem mem_ids {id : NodeId} : id ∈ c.ids ↔ id.index < c.size := by
  cases id
  simp [ids, Table.ids, size]

theorem nodup_ids (c : Circuit) : c.ids.Nodup :=
  List.nodup_range.map fun _ _ h => NodeId.mk.inj h

theorem node?_isSome {id : NodeId} : (c.node? id).isSome ↔ id ∈ c.ids := by
  simp [mem_ids, node?, Table.get?, size, Table.size]

theorem exists_node_of_mem {id : NodeId} (h : id ∈ c.ids) : ∃ n, c.node? id = some n :=
  Option.isSome_iff_exists.mp (node?_isSome.mpr h)

theorem mem_ids_of_node? {id : NodeId} {n : Node} (h : c.node? id = some n) : id ∈ c.ids :=
  mem_ids.mpr (lt_size_of_node? h)

theorem mem_idsWhere {p : NodeKind → Bool} {id : NodeId} :
    id ∈ c.idsWhere p ↔ ∃ n, c.node? id = some n ∧ p n.kind = true := by
  simp only [idsWhere, List.mem_filter, Option.any_eq_true_iff_get]
  constructor
  · rintro ⟨-, hsome, hp⟩
    exact ⟨_, (Option.some_get hsome).symm, hp⟩
  · rintro ⟨n, hn, hp⟩
    refine ⟨mem_ids_of_node? hn, by simp [hn], by simp [hn, hp]⟩

theorem pairwise_idsWhere (c : Circuit) (p : NodeKind → Bool) :
    (c.idsWhere p).Pairwise fun id later => id.index < later.index := by
  refine List.Pairwise.filter _ ?_
  exact List.pairwise_map.mpr List.pairwise_lt_range

theorem Depends.mem_ids {dep id : NodeId} (h : c.Depends dep id) : id ∈ c.ids := by
  obtain ⟨n, pos, hn, -⟩ := h
  exact mem_ids_of_node? hn

theorem Depends.source_lt {dep id : NodeId} (h : c.Depends dep id) (hc : c.WellFormed) :
    dep.index < c.size := by
  obtain ⟨n, pos, hn, hsrc, -⟩ := h
  exact hc.inside_of_source? hn hsrc

/-- Whether a list is an order can be told from the dependencies of all nodes. -/
theorem isOrder_iff : c.IsOrder order ↔ order.Perm c.ids ∧
    ∀ id ∈ c.ids, ∀ dep ∈ c.dependencies id, order.idxOf dep < order.idxOf id := by
  constructor
  · exact fun h => ⟨h.perm, fun _ _ _ hdep => h.before (mem_dependencies.mp hdep)⟩
  · rintro ⟨hperm, hbefore⟩
    exact ⟨hperm, fun hd => hbefore _ hd.mem_ids _ (mem_dependencies.mpr hd)⟩

instance : Decidable (c.IsOrder order) := decidable_of_iff _ isOrder_iff.symm

theorem acyclic_of_rank (rank : NodeId → Nat)
    (h : ∀ {dep id}, c.Depends dep id → rank dep < rank id) : c.Acyclic := by
  intro id hcycle
  have hlt {a b : NodeId} (hab : Relation.TransGen c.Depends a b) : rank a < rank b := by
    induction hab with
    | single hd => exact h hd
    | tail _ hd ih => exact Nat.lt_trans ih (h hd)
  exact Nat.lt_irrefl _ (hlt hcycle)

/-- A circuit has no cycle if no node depends on itself or a later one. -/
theorem WellFormed.acyclic_of_ascending (hc : c.WellFormed)
    (h : c.nodes.values.all fun n => n.dependencies.all (·.index < n.id.index)) : c.Acyclic := by
  refine acyclic_of_rank NodeId.index fun {dep id} hdep => ?_
  obtain ⟨n, pos, hn, hsrc, hpos⟩ := hdep
  have hmem : n ∈ c.nodes.values := Array.mem_toList_iff.mpr (Array.mem_of_getElem? hn)
  have hall := List.all_eq_true.mp h n hmem
  have hlt := List.all_eq_true.mp hall dep (Node.mem_dependencies.mpr ⟨pos, hsrc, hpos⟩)
  simpa [(hc.holds hn).id_eq] using hlt

namespace IsOrder

theorem mem {id : NodeId} (h : c.IsOrder order) : id ∈ order ↔ id ∈ c.ids := h.perm.mem_iff

theorem nodup (h : c.IsOrder order) : order.Nodup := h.perm.nodup_iff.mpr c.nodup_ids

theorem wellFounded (h : c.IsOrder order) : WellFounded c.Depends :=
  Subrelation.wf (fun hd => h.before hd) (measure order.idxOf).wf

theorem acyclic (h : c.IsOrder order) : c.Acyclic := acyclic_of_rank order.idxOf h.before

theorem mem_of_append {dep id : NodeId} {done rest : List NodeId} (h : c.IsOrder order)
    (ho : order = done ++ id :: rest) (hd : c.Depends dep id) : dep ∈ done := by
  by_contra hnot
  have hlt := h.before hd
  rw [ho, List.idxOf_append_of_notMem hnot] at hlt
  have hid : id ∉ done := by
    have hnodup := h.nodup
    rw [ho] at hnodup
    exact fun hmem => (List.nodup_append.mp hnodup).2.2 id hmem id List.mem_cons_self rfl
  rw [List.idxOf_append_of_notMem hid, List.idxOf_cons_self] at hlt
  omega

end IsOrder

end Circuit

end Netlist
