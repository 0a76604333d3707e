import Mathlib.Data.List.Dedup
import Mathlib.Order.Bounds.Basic
import Netlist.Proofs.Names
import Std.Data.HashMap.Lemmas

namespace Netlist

namespace NameSupply

variable {s : NameSupply} {stem : String}

@[simp] theorem candidate_zero (stem : String) : candidate stem 0 = stem := rfl

/-- All candidates below the first number to try are taken. -/
def SkipsTaken (s : NameSupply) : Prop :=
  ∀ stem, ∀ k < (s.counts.getD stem 0).toNat, candidate stem k ∈ s.taken

theorem skipsTaken_reserving (names : List String) : (reserving names).SkipsTaken := by
  intro stem k hk
  simp [reserving] at hk

theorem mem_of_lt_firstFree {taken : Std.HashSet String} {tries k j : Nat} (hk : k ≤ j)
    (hj : j < firstFree taken stem tries k) : candidate stem j ∈ taken := by
  induction tries generalizing k with
  | zero =>
    rw [firstFree] at hj
    omega
  | succ tries ih =>
    rw [firstFree] at hj
    split at hj
    · next htaken =>
      rcases Nat.eq_or_lt_of_le hk with rfl | hlt
      · exact Std.HashSet.contains_iff_mem.mp htaken
      · exact ih hlt hj
    · omega

theorem fresh_fst (s : NameSupply) (stem : String) :
    (s.fresh stem).1 = candidate stem (s.number stem) := rfl

theorem getD_counts_fresh (s : NameSupply) (stem other : String) :
    (s.fresh stem).2.counts.getD other 0 =
      if stem = other then .ofNat (s.number stem + 1) else s.counts.getD other 0 := by
  simp [fresh, Std.HashMap.getD_insert]

/-- Whether skipped or tried, the candidates before the chosen one are taken. -/
theorem SkipsTaken.isLeast_number (h : s.SkipsTaken) (stem : String) :
    IsLeast {k | candidate stem k ∉ s.taken} (s.number stem) := by
  constructor
  · exact s.fresh_notMem stem
  · intro k hk
    by_contra hlt
    rw [not_le] at hlt
    apply hk
    rcases Nat.lt_or_ge k (s.counts.getD stem 0).toNat with hskipped | htried
    · exact h stem k hskipped
    · exact mem_of_lt_firstFree htried hlt

theorem SkipsTaken.fresh (h : s.SkipsTaken) (stem : String) : (s.fresh stem).2.SkipsTaken := by
  intro other k hk
  rw [getD_counts_fresh] at hk
  rw [mem_taken_fresh, fresh_fst]
  split at hk
  · next he =>
    subst he
    -- a count that wraps is only smaller
    have hle : k < s.number stem + 1 := hk.trans_le (by simpa using Nat.mod_le _ _)
    rcases Nat.eq_or_lt_of_le (Nat.le_of_lt_succ hle) with rfl | hlt
    · exact .inl rfl
    · right
      by_contra hfree
      exact absurd ((h.isLeast_number stem).2 hfree) (by omega)
  · exact .inr (h other k hk)

def Holds (s : NameSupply) (names : List String) : Prop := ∀ name, name ∈ s.taken ↔ name ∈ names

theorem holds_reserving (names : List String) : (reserving names).Holds names := by
  intro name
  simp [reserving]

theorem Holds.fresh {used : List String} (h : s.Holds used) (stem : String) :
    (s.fresh stem).2.Holds (used ++ [(s.fresh stem).1]) := by
  intro name
  rw [mem_taken_fresh, h name, List.mem_append, List.mem_singleton, or_comm, eq_comm]

theorem size_taken_fresh (s : NameSupply) (stem : String) :
    (s.fresh stem).2.taken.size = s.taken.size + 1 := by
  have hfree : candidate stem (s.number stem) ∉ s.taken := s.fresh_notMem stem
  simp [NameSupply.fresh, Std.HashSet.size_insert, hfree]

/-- As many candidates differ, so that many names are needed to take them. -/
theorem le_length_of_isLeast {used : List String} {k : Nat}
    (h : IsLeast {k | candidate stem k ∉ used} k) : k ≤ used.length := by
  have hnodup : ((List.range k).map (candidate stem)).Nodup :=
    List.nodup_range.map (candidate_injective stem)
  have hsubset : (List.range k).map (candidate stem) ⊆ used := by
    intro name hname
    obtain ⟨j, hj, rfl⟩ := List.mem_map.mp hname
    by_contra hfree
    exact absurd (h.2 hfree) (by simpa using hj)
  simpa using (hnodup.subperm hsubset).length_le

theorem SkipsTaken.number_le (h : s.SkipsTaken) (stem : String) : s.number stem ≤ s.taken.size := by
  have hleast := h.isLeast_number stem
  simp only [← Std.HashSet.mem_toList] at hleast
  rw [← Std.HashSet.length_toList]
  exact le_length_of_isLeast hleast

/-- The next request is answered, whatever its stem. -/
def Answers (s : NameSupply) : Prop := ∀ stem, s.fresh? stem = some (s.fresh stem)

theorem SkipsTaken.answers (h : s.SkipsTaken) (hfew : s.taken.size + 1 < UInt32.size) : s.Answers := by
  intro stem
  have hle := h.number_le stem
  rw [fresh?, if_pos (by omega)]

/-- The names for stems as if every request were answered. -/
def freshAll : NameSupply → List String → List String
  | _, [] => []
  | s, stem :: stems => (s.fresh stem).1 :: (s.fresh stem).2.freshAll stems

theorem freshAll_cons (s : NameSupply) (stem : String) (stems : List String) :
    s.freshAll (stem :: stems) = (s.fresh stem).1 :: (s.fresh stem).2.freshAll stems := rfl

/-- The name at each place is the first candidate that was free before it was given. -/
theorem SkipsTaken.freshAll_getElem? (h : s.SkipsTaken) {used : List String} (hused : s.Holds used)
    {stems : List String} {i : Nat} (hstem : stems[i]? = some stem) :
    ∃ k, (s.freshAll stems)[i]? = some (candidate stem k) ∧
      IsLeast {k | candidate stem k ∉ used ++ (s.freshAll stems).take i} k := by
  induction stems generalizing s used i with
  | nil => cases hstem
  | cons first stems ih =>
    rw [freshAll_cons]
    cases i with
    | zero =>
      cases hstem
      have hleast := h.isLeast_number stem
      simp only [hused _] at hleast
      refine ⟨s.number stem, rfl, ?_⟩
      rwa [List.take_zero, List.append_nil]
    | succ i =>
      obtain ⟨k, hname, hleast⟩ := ih (h.fresh first) (hused.fresh first) hstem
      rw [List.append_assoc, List.singleton_append, ← List.take_succ_cons] at hleast
      exact ⟨k, hname, hleast⟩

theorem candidate_eq_stem_iff {used : List String} {k : Nat}
    (h : IsLeast {k | candidate stem k ∉ used} k) : candidate stem k = stem ↔ stem ∉ used := by
  constructor
  · intro he
    have hfree : candidate stem k ∉ used := h.1
    rwa [he] at hfree
  · intro hfree
    have hzero : k ≤ 0 := h.2 hfree
    rw [Nat.le_zero.mp hzero, candidate_zero]

end NameSupply

namespace Naming

variable {c : Circuit} {s : State} {m : Nat}

/-- At most `m` names are taken, and the counts skip no others. -/
structure Within (m : Nat) (s : State) : Prop where
  skips : s.supply.SkipsTaken
  few : s.supply.taken.size ≤ m

theorem Within.mono {k : Nat} (h : Within k s) (hk : k ≤ m) : Within m s :=
  ⟨h.skips, h.few.trans hk⟩

theorem Within.give (h : Within m s) (place : Place) (stem : String) :
    Within (m + 1) (s.give place stem) where
  skips := h.skips.fresh stem
  few := by
    change (s.supply.fresh stem).2.taken.size ≤ m + 1
    rw [NameSupply.size_taken_fresh]
    exact Nat.add_le_add_right h.few 1

/-- A node takes at most two names, its own and that of its array. -/
theorem Within.nameNode (h : Within m s) (id : NodeId) : Within (m + 2) (nameNode c s id) := by
  have hkept : Within (m + 2) s := h.mono (Nat.le_add_right m 2)
  cases hnamed : s.naming.at? (.node id) with
  | some name => rwa [nameNode_of_named hnamed]
  | none =>
    cases hn : c.node? id with
    | none => rwa [nameNode_of_none hn]
    | some n =>
      rw [nameNode_of_unnamed hn hnamed]
      split
      · exact (h.give _ _).give _ _
      · exact (h.give _ _).mono (Nat.le_succ _)

theorem Within.foldl_nameNode (h : Within m s) (ids : List NodeId) :
    Within (m + 2 * ids.length) (ids.foldl (Naming.nameNode c) s) := by
  induction ids generalizing s m with
  | nil => exact h
  | cons first rest ih =>
    have hrest := ih (h.nameNode (c := c) first)
    rwa [List.length_cons, Nat.mul_succ, Nat.add_comm (2 * rest.length), ← Nat.add_assoc]

/-- Naming a circuit stays within counts of 32 bits if there are fewer than `2 ^ 32` keywords, reserved names
and names to give: before each node, the request for its name is answered, and so is the one after it for an
array. -/
theorem answers_ofCircuit {order ids rest : List NodeId} {reserved : List String} {id : NodeId}
    (hids : c.ports ++ order = ids ++ id :: rest)
    (hfew : keywords.length + reserved.length + 2 * (c.ports.length + order.length) < UInt32.size) :
    (ids.foldl (nameNode c) ⟨.reserving (keywords ++ reserved), {}⟩).supply.Answers ∧
      ∀ stem, ((ids.foldl (nameNode c) ⟨.reserving (keywords ++ reserved), {}⟩).supply.fresh
        stem).2.Answers := by
  have hstart : Within (keywords.length + reserved.length)
      ⟨.reserving (keywords ++ reserved), {}⟩ := by
    refine ⟨NameSupply.skipsTaken_reserving _, ?_⟩
    rw [← List.length_append]
    exact Std.HashSet.size_ofList_le
  have hlength := congrArg List.length hids
  simp only [List.length_append, List.length_cons] at hlength
  have h := hstart.foldl_nameNode (c := c) ids
  have hsize := h.few
  refine ⟨h.skips.answers (by omega), fun stem => (h.skips.fresh stem).answers ?_⟩
  rw [NameSupply.size_taken_fresh]
  omega

end Naming

end Netlist
