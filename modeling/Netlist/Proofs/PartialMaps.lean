import Mathlib
import Netlist.NodeId

namespace Netlist.SideMap

variable {α σ : Type}

/-- A change to a map that is keyed by ids. -/
inductive Edit (α : Type) where
  | insert (id : NodeId) (a : α)
  | remove (id : NodeId)
  /-- In place, if there is an entry. -/
  | update (id : NodeId) (f : α → α)
  | clear

/-- The answer to an edit, and the map after it. An insertion and a removal answer with the entry that
was there, and an update with the one that is there now. -/
def edit (m : SideMap α) : Edit α → Option α × SideMap α
  | .insert id a => m.replace id a
  | .remove id => m.take id
  | .update id f => ((m.modify id f).get? id, m.modify id f)
  | .clear => (none, empty)

/-- The same on a partial function. -/
def Edit.onFunction (entries : NodeId → Option α) : Edit α → Option α × (NodeId → Option α)
  | .insert id a => (entries id, Function.update entries id (some a))
  | .remove id => (entries id, Function.update entries id none)
  | .update id f => ((entries id).map f, Function.update entries id ((entries id).map f))
  | .clear => (none, fun _ => none)

def Edit.run (step : σ → Edit α → Option α × σ) (s : σ) : List (Edit α) → List (Option α) × σ
  | [] => ([], s)
  | e :: rest =>
    let (answer, s) := step s e
    let (answers, s) := run step s rest
    (answer :: answers, s)

section Entries

theorem get?_empty_eq : (empty : SideMap α).get? = fun _ => none := by
  funext id
  exact get?_empty id

variable (m : SideMap α) (id : NodeId)

theorem fst_replace (a : α) : (m.replace id a).1 = m.get? id := join_roomFor m.cells id id

theorem get?_insert_eq_update (a : α) : (m.insert id a).get? = Function.update m.get? id (some a) := by
  funext other
  simp only [get?_insert, Function.update_apply, eq_comm]

theorem get?_erase_eq_update : (m.erase id).get? = Function.update m.get? id none := by
  funext other
  simp only [get?_erase, Function.update_apply, eq_comm]

theorem get?_modify_eq_update (f : α → α) :
    (m.modify id f).get? = Function.update m.get? id ((m.get? id).map f) := by
  funext other
  rw [get?_modify, Function.update_apply]
  by_cases h : id = other
  · rw [if_pos h, if_pos h.symm, h]
  · rw [if_neg h, if_neg (Ne.symm h)]

end Entries

theorem edit_eq (m : SideMap α) (e : Edit α) :
    ((m.edit e).1, (m.edit e).2.get?) = Edit.onFunction m.get? e := by
  cases e with
  | insert id a => exact Prod.ext (m.fst_replace id a) (m.get?_insert_eq_update id a)
  | remove id => exact Prod.ext rfl (m.get?_erase_eq_update id)
  | update id f =>
    have hnow := m.get?_modify_eq_update id f
    refine Prod.ext ?_ hnow
    show (m.modify id f).get? id = (m.get? id).map f
    rw [hnow, Function.update_self]
  | clear => exact Prod.ext rfl get?_empty_eq

/-- What holds of one edit holds of a run, as the next edit finds the entries that the last one left. -/
theorem run_edit (edits : List (Edit α)) (m : SideMap α) :
    ((Edit.run edit m edits).1, (Edit.run edit m edits).2.get?) =
      Edit.run Edit.onFunction m.get? edits := by
  induction edits generalizing m with
  | nil => rfl
  | cons e rest ih =>
    simp only [Edit.run]
    rw [← m.edit_eq e, ← ih (m.edit e).2]

section Listing

variable {m : SideMap α}

theorem mem_toList {id : NodeId} {a : α} : (id, a) ∈ m.toList ↔ m.get? id = some a := by
  simp only [toList, List.mem_filterMap, Prod.exists, List.mem_zipIdx_iff_getElem?,
    Array.getElem?_toList, Option.map_eq_some_iff, get?, Option.join_eq_some_iff]
  constructor
  · rintro ⟨cell, i, hcell, b, rfl, heq⟩
    cases heq
    exact hcell
  · intro h
    exact ⟨some a, id.index, h, a, rfl, rfl⟩

theorem pairwise_toList (m : SideMap α) : m.toList.Pairwise fun x y => x.1.index < y.1.index := by
  have hplaces : m.cells.toList.zipIdx.Pairwise fun x y => x.2 < y.2 := by
    rw [← List.pairwise_map, List.zipIdx_map_snd]
    exact List.pairwise_lt_range' 1
  refine hplaces.filterMap _ fun x y hlt first hfirst second hsecond => ?_
  obtain ⟨_, -, rfl⟩ := Option.map_eq_some_iff.mp hfirst
  obtain ⟨_, -, rfl⟩ := Option.map_eq_some_iff.mp hsecond
  exact hlt

theorem length_toList (m : SideMap α) : m.toList.length = m.count := by
  have hcells : m.cells.toList = m.cells.toList.zipIdx.map Prod.fst := (List.zipIdx_map_fst 0 _).symm
  rw [toList, List.length_filterMap_eq_countP, count, ← Array.countP_toList]
  nth_rewrite 2 [hcells]
  rw [List.countP_map]
  apply List.countP_congr
  intro x _
  simp

/-- The ids in the list are those that have an entry, and they are as many as its entries. -/
theorem encard_ids (m : SideMap α) : {id | (m.get? id).isSome = true}.encard = m.count := by
  have hnodup : (m.toList.map (·.1)).Nodup := by
    rw [List.Nodup, List.pairwise_map]
    exact m.pairwise_toList.imp fun hlt heq => Nat.ne_of_lt hlt (congrArg NodeId.index heq)
  have hids : {id | (m.get? id).isSome = true} = ((m.toList.map (·.1)).toFinset : Set NodeId) := by
    ext id
    simp [Option.isSome_iff_exists, mem_toList]
  rw [hids, Set.encard_coe_eq_coe_finsetCard, List.toFinset_card_of_nodup hnodup, List.length_map,
    length_toList]

end Listing

/-- A side map that says and lists the entries of a partial function. -/
structure Holds (m : SideMap α) (entries : NodeId → Option α) : Prop where
  get? : ∀ id, m.get? id = entries id
  contains : ∀ id, m.contains id = (entries id).isSome
  /-- What has an entry is listed with it, and nothing else is. -/
  listed : ∀ id a, (id, a) ∈ m.toList ↔ entries id = some a
  /-- The ids in the list ascend, so that none is listed twice. -/
  ascending : m.toList.Pairwise fun x y => x.1.index < y.1.index
  /-- The count is the number of entries, which are finitely many. -/
  count : {id | (entries id).isSome = true}.encard = m.count

theorem holds_get? (m : SideMap α) : m.Holds m.get? where
  get? _ := rfl
  contains _ := rfl
  listed _ _ := mem_toList
  ascending := m.pairwise_toList
  count := m.encard_ids

/-- Edits of a side map that starts empty are answered as those of a partial function that starts
without entries, and the side map then holds the entries of that function. -/
theorem edits_act_on_partial_function (edits : List (Edit α)) :
    (Edit.run edit empty edits).1 = (Edit.run Edit.onFunction (fun _ => none) edits).1 ∧
      (Edit.run edit empty edits).2.Holds (Edit.run Edit.onFunction (fun _ => none) edits).2 := by
  have hrun := run_edit edits empty
  rw [get?_empty_eq] at hrun
  rw [← hrun]
  exact ⟨rfl, holds_get? _⟩

/-- Three of the four cells are empty at the end, and do not show. -/
example : (Edit.run edit empty
      [.insert ⟨3⟩ 5, .insert ⟨1⟩ 7, .remove ⟨3⟩, .update ⟨1⟩ (· + 1)]).map id toList =
    ([none, none, some 5, some 8], [(⟨1⟩, 8)]) := by decide

end Netlist.SideMap
