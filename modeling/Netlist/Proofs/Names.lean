import Mathlib.Data.List.Nodup
import Mathlib.Data.List.Perm.Subperm
import Netlist.Naming
import Netlist.Proofs.Dependency
import Std.Data.HashSet.Lemmas
import Std.Data.String.ToNat

namespace Netlist

namespace NameSupply

theorem candidate_injective (stem : String) : Function.Injective (candidate stem) := by
  intro i j h
  have hlists := congrArg String.toList h
  by_cases hi : i = 0 <;> by_cases hj : j = 0
  · omega
  · simp [candidate, hi, hj] at hlists
  · simp [candidate, hi, hj] at hlists
  · have hdigits : (toString i).toList = (toString j).toList := by
      simpa [candidate, hi, hj] using hlists
    exact Nat.repr_injective (String.toList_inj.mp hdigits)

theorem exists_free (taken : Std.HashSet String) (stem : String) (k : Nat) :
    ∃ i < taken.size + 1, candidate stem (k + i) ∉ taken := by
  by_contra hnone
  push Not at hnone
  have hnodup : ((List.range (taken.size + 1)).map fun i => candidate stem (k + i)).Nodup :=
    List.nodup_range.map fun i j h => Nat.add_left_cancel (candidate_injective stem h)
  have hsubset : ((List.range (taken.size + 1)).map fun i => candidate stem (k + i)) ⊆
      taken.toList := by
    intro name hname
    obtain ⟨i, hi, rfl⟩ := List.mem_map.mp hname
    exact Std.HashSet.mem_toList.mpr (hnone i (List.mem_range.mp hi))
  have hle := (hnodup.subperm hsubset).length_le
  rw [List.length_map, List.length_range, Std.HashSet.length_toList] at hle
  omega

theorem firstFree_notMem {taken : Std.HashSet String} {stem : String} {tries k : Nat}
    (h : ∃ i < tries, candidate stem (k + i) ∉ taken) :
    candidate stem (firstFree taken stem tries k) ∉ taken := by
  induction tries generalizing k with
  | zero =>
    obtain ⟨i, hi, -⟩ := h
    omega
  | succ tries ih =>
    obtain ⟨i, hi, hfree⟩ := h
    rw [firstFree]
    split
    · next htaken =>
      -- the first candidate is taken, so the free one is among the rest
      cases i with
      | zero => exact absurd (Std.HashSet.contains_iff_mem.mp htaken) hfree
      | succ i => exact ih ⟨i, by omega, by rwa [Nat.add_right_comm, Nat.add_assoc]⟩
    · next htaken => exact fun hmem => htaken (Std.HashSet.contains_iff_mem.mpr hmem)

theorem fresh_notMem (s : NameSupply) (stem : String) : (s.fresh stem).1 ∉ s.taken :=
  firstFree_notMem (exists_free s.taken stem _)

theorem mem_taken_fresh {s : NameSupply} {stem name : String} :
    name ∈ (s.fresh stem).2.taken ↔ (s.fresh stem).1 = name ∨ name ∈ s.taken := by
  simp [fresh]

end NameSupply

namespace Naming

/-- A letter or an underscore, and then letters, digits and underscores. -/
def isName (s : String) : Bool := s.toList.all isIdentChar && s.toList.head?.any (!·.isDigit)

theorem all_isIdentChar {name : String} (h : isName name = true) : ∀ c ∈ name.toList, isIdentChar c = true :=
  List.all_eq_true.mp (Bool.and_eq_true_iff.mp h).1

theorem notMem_of_isName {name : String} (h : isName name = true) {c : Char} (hc : isIdentChar c = false) :
    c ∉ name.toList := by
  intro hmem
  rw [all_isIdentChar h c hmem] at hc
  cases hc

theorem isIdentChar_of_isDigit {c : Char} (h : c.isDigit = true) : isIdentChar c = true := by
  simp [isIdentChar, Char.isAlphanum, h]

theorem isName_append {s t : String} (hs : isName s = true) (ht : t.toList.all isIdentChar = true) :
    isName (s ++ t) = true := by
  unfold isName at hs ⊢
  cases hlist : s.toList with
  | nil => simp [hlist] at hs
  | cons c cs => simp_all

theorem all_toString (k : Nat) : (toString k).toList.all isIdentChar = true := by
  rw [List.all_eq_true]
  intro c hc
  rw [Nat.toString_eq_repr, Nat.toList_repr] at hc
  exact isIdentChar_of_isDigit (Nat.isDigit_of_mem_toDigits (by decide) (by decide) hc)

theorem isName_candidate {stem : String} (h : isName stem = true) (k : Nat) :
    isName (NameSupply.candidate stem k) = true := by
  unfold NameSupply.candidate
  split
  · exact h
  · exact isName_append (isName_append h (by decide)) (all_toString k)

theorem isName_ofList_cons (c : Char) (cs : List Char) :
    isName (.ofList (c :: cs)) = (isIdentChar c && cs.all isIdentChar && !c.isDigit) := by
  simp [isName]

theorem isName_identifier {raw : String} (h : (identifier raw).isEmpty = false) :
    isName (identifier raw) = true := by
  have hmapped (x : Char) : isIdentChar (if isIdentChar x then x else '_') = true := by
    split
    · assumption
    · decide
  unfold identifier at h ⊢
  cases hlist : raw.toList with
  | nil => simp [hlist] at h
  | cons c cs =>
    have hall : (cs.map fun x => if isIdentChar x then x else '_').all isIdentChar = true := by
      simp [hmapped]
    have hhead := hmapped c
    simp only [List.map_cons]
    generalize (cs.map fun x => if isIdentChar x then x else '_') = rest at hall
    generalize (if isIdentChar c then c else '_') = head at hhead
    -- a leading digit gets an underscore in front of it
    split
    · rw [isName_ofList_cons, List.all_cons, hhead, hall]
      decide
    · next hdigit =>
      rw [isName_ofList_cons, hhead, hall]
      simpa using hdigit

theorem isName_kindStem (kind : NodeKind) : isName (kindStem kind) = true := by
  cases kind with
  | operation op signed =>
    change isName op.mnemonic = true
    cases op <;> decide
  | _ =>
    simp only [kindStem]
    decide

theorem isName_stem (n : Node) : isName (stem n) = true := by
  unfold stem
  simp only
  split
  · exact isName_kindStem n.kind
  · next h => exact isName_identifier (by simpa using h)

/-- What has a name: a node, or the array behind a memory. -/
inductive Place where
  | node (id : NodeId)
  | array (id : NodeId)
deriving DecidableEq

def at? (n : Naming) : Place → Option String
  | .node id => n.names.get? id
  | .array id => n.storage.get? id

theorem at?_empty (place : Place) : ({} : Naming).at? place = none := by
  cases place <;> exact SideMap.get?_empty _

def put (n : Naming) (place : Place) (name : String) : Naming :=
  match place with
  | .node id => { n with names := n.names.insert id name }
  | .array id => { n with storage := n.storage.insert id name }

theorem at?_put (n : Naming) (place other : Place) (name : String) :
    (n.put place name).at? other = if place = other then some name else n.at? other := by
  cases place <;> cases other <;> simp [put, at?, SideMap.get?_insert]

def State.give (s : State) (place : Place) (stem : String) : State :=
  ⟨(s.supply.fresh stem).2, s.naming.put place (s.supply.fresh stem).1⟩

theorem State.at?_give (s : State) (place other : Place) (stem : String) :
    (s.give place stem).naming.at? other =
      if place = other then some (s.supply.fresh stem).1 else s.naming.at? other :=
  at?_put s.naming place other _

variable {c : Circuit} {reserved : List String} {s : State} {id : NodeId} {n : Node}

theorem nameNode_of_named {name : String} (h : s.naming.at? (.node id) = some name) :
    nameNode c s id = s := by
  have hcontains : s.naming.names.contains id = true := by
    simpa [SideMap.contains, at?] using Option.isSome_of_eq_some h
  rw [nameNode, if_pos hcontains]

theorem nameNode_of_none (h : c.node? id = none) : nameNode c s id = s := by
  simp [nameNode, h]

theorem nameNode_of_unnamed (hn : c.node? id = some n) (hunnamed : s.naming.at? (.node id) = none) :
    nameNode c s id =
      if n.kind.tag = .memory then
        (s.give (.node id) (stem n)).give (.array id) ((s.supply.fresh (stem n)).1 ++ "_data")
      else s.give (.node id) (stem n) := by
  have hcontains : s.naming.names.contains id = false := by
    simpa [SideMap.contains, at?] using hunnamed
  cases hkind : n.kind <;> simp [nameNode, hcontains, hn, hkind, State.give, put, NodeKind.tag]

/-- The names that were given are identifiers, taken and not reserved, and all different. -/
structure Distinct (reserved : List String) (s : State) : Prop where
  reserved_taken : ∀ name ∈ reserved, name ∈ s.supply.taken
  taken : ∀ {place name}, s.naming.at? place = some name → name ∈ s.supply.taken
  legal : ∀ {place name}, s.naming.at? place = some name → isName name = true
  notMem : ∀ {place name}, s.naming.at? place = some name → name ∉ reserved
  injective : ∀ {place other name}, s.naming.at? place = some name → s.naming.at? other = some name →
    place = other

theorem distinct_reserving (reserved : List String) :
    Distinct reserved ⟨.reserving reserved, {}⟩ := by
  refine ⟨fun name hname => ?_, ?_, ?_, ?_, ?_⟩
  · simpa [NameSupply.reserving] using hname
  all_goals simp [at?_empty]

theorem Distinct.give (h : Distinct reserved s) {stem : String} (hstem : isName stem = true)
    (place : Place) : Distinct reserved (s.give place stem) := by
  have hfree := s.supply.fresh_notMem stem
  -- a name is the fresh one, or it was there before
  have hcases {other : Place} {name : String}
      (hother : (s.give place stem).naming.at? other = some name) :
      place = other ∧ (s.supply.fresh stem).1 = name ∨ s.naming.at? other = some name := by
    rw [State.at?_give] at hother
    split at hother
    · next he => exact .inl ⟨he, Option.some.inj hother⟩
    · exact .inr hother
  refine ⟨fun name hname => ?_, fun hother => ?_, fun hother => ?_, fun hother => ?_,
    fun hfirst hsecond => ?_⟩
  · exact NameSupply.mem_taken_fresh.mpr (.inr (h.reserved_taken name hname))
  · exact NameSupply.mem_taken_fresh.mpr ((hcases hother).imp And.right h.taken)
  · rcases hcases hother with ⟨-, rfl⟩ | hold
    · exact isName_candidate hstem _
    · exact h.legal hold
  · rcases hcases hother with ⟨-, rfl⟩ | hold
    · exact fun hmem => hfree (h.reserved_taken _ hmem)
    · exact h.notMem hold
  · rcases hcases hfirst with ⟨rfl, rfl⟩ | hfirst <;> rcases hcases hsecond with ⟨rfl, he⟩ | hsecond
    · rfl
    · exact absurd (h.taken hsecond) hfree
    · exact absurd (he ▸ h.taken hfirst) hfree
    · exact h.injective hfirst hsecond

theorem Distinct.nameNode (h : Distinct reserved s) (id : NodeId) :
    Distinct reserved (nameNode c s id) := by
  cases hnamed : s.naming.at? (.node id) with
  | some name => rwa [nameNode_of_named hnamed]
  | none =>
    cases hn : c.node? id with
    | none => rwa [nameNode_of_none hn]
    | some n =>
      have hgiven := h.give (isName_stem n) (.node id)
      rw [nameNode_of_unnamed hn hnamed]
      split
      · exact hgiven.give (isName_append (isName_candidate (isName_stem n) _) (by decide)) _
      · exact hgiven

/-- A name at `place` is for node `id`. -/
def Owns (c : Circuit) (id : NodeId) (place : Place) : Prop :=
  ∃ n, c.node? id = some n ∧ (place = .node id ∨ n.kind.tag = .memory ∧ place = .array id)

/-- A node that has a name has all that it needs. -/
def Complete (c : Circuit) (naming : Naming) : Prop :=
  ∀ id place, (naming.at? (.node id)).isSome → Owns c id place → (naming.at? place).isSome

theorem isSome_nameNode (h : Complete c s.naming) (id : NodeId) (place : Place) :
    ((nameNode c s id).naming.at? place).isSome ↔ (s.naming.at? place).isSome ∨ Owns c id place := by
  cases hnamed : s.naming.at? (.node id) with
  | some name =>
    have howned := h id place (Option.isSome_of_eq_some hnamed)
    rw [nameNode_of_named hnamed]
    rw [or_iff_left_of_imp howned]
  | none =>
    cases hn : c.node? id with
    | none =>
      have hnot : ¬ Owns c id place := by simp [Owns, hn]
      rw [nameNode_of_none hn, or_iff_left hnot]
    | some n =>
      rw [nameNode_of_unnamed hn hnamed]
      have hplace (other : Place) : other = place ↔ place = other := eq_comm
      by_cases hmemory : n.kind.tag = .memory
      · by_cases harray : place = .array id <;> by_cases hnode : place = .node id <;>
          simp [State.at?_give, hmemory, Owns, hn, hplace, harray, hnode]
      · by_cases hnode : place = .node id <;>
          simp [State.at?_give, hmemory, Owns, hn, hplace, hnode]

theorem Complete.nameNode (h : Complete c s.naming) (id : NodeId) :
    Complete c (nameNode c s id).naming := by
  intro other place hsome howns
  rw [isSome_nameNode h] at hsome ⊢
  rcases hsome with hsome | ⟨n, hn, he | ⟨-, he⟩⟩
  · exact .inl (h other place hsome howns)
  · cases he
    exact .inr howns
  · cases he

/-- What is named are the nodes of the list and their arrays. -/
theorem isSome_foldl_nameNode (h : Complete c s.naming) (ids : List NodeId) (place : Place) :
    ((ids.foldl (nameNode c) s).naming.at? place).isSome ↔
      (s.naming.at? place).isSome ∨ ∃ id ∈ ids, Owns c id place := by
  induction ids generalizing s with
  | nil => simp
  | cons first rest ih =>
    rw [List.foldl_cons, ih (h.nameNode first), isSome_nameNode h, or_assoc]
    simp

theorem Distinct.foldl_nameNode (h : Distinct reserved s) (ids : List NodeId) :
    Distinct reserved (ids.foldl (Naming.nameNode c) s) := by
  induction ids generalizing s with
  | nil => exact h
  | cons first rest ih => exact ih (h.nameNode first)

/-- An identifier that is no keyword. -/
def Legal (name : String) : Prop := isName name = true ∧ name ∉ keywords

theorem legal_standIn (id : NodeId) : Legal s!"_n{id.index}" := by
  constructor
  · exact isName_append (by decide) (all_toString id.index)
  · intro hmem
    -- no keyword starts with an underscore
    have hkeywords : ∀ word ∈ keywords, word.toList.head? ≠ some '_' := by decide +kernel
    refine hkeywords _ hmem ?_
    rw [String.toList_append]
    rfl

def nameOf (n : Naming) : Place → String
  | .node id => n.name id
  | .array id => n.arrayName id

section Circuit

variable {order : List NodeId} (reserved : List String)

theorem exists_distinct (c : Circuit) (order : List NodeId) (reserved : List String) :
    ∃ supply, Distinct (keywords ++ reserved) ⟨supply, ofCircuit c order reserved⟩ :=
  ⟨_, (distinct_reserving (keywords ++ reserved)).foldl_nameNode _⟩

theorem legal_of_at? {place : Place} {name : String}
    (h : (ofCircuit c order reserved).at? place = some name) : Legal name := by
  obtain ⟨supply, hdistinct⟩ := exists_distinct c order reserved
  exact ⟨hdistinct.legal h, fun hmem => hdistinct.notMem h (List.mem_append_left _ hmem)⟩

theorem legal_name (id : NodeId) : Legal ((ofCircuit c order reserved).name id) := by
  rw [Naming.name]
  cases hname : (ofCircuit c order reserved).names.get? id with
  | none => exact legal_standIn id
  | some name =>
    have hat : (ofCircuit c order reserved).at? (.node id) = some name := hname
    exact legal_of_at? reserved hat

theorem legal_nameOf (place : Place) : Legal ((ofCircuit c order reserved).nameOf place) := by
  cases place with
  | node id => exact legal_name reserved id
  | array id =>
    rw [nameOf, arrayName]
    cases hname : (ofCircuit c order reserved).storage.get? id with
    | none => exact legal_name reserved id
    | some name =>
      have hat : (ofCircuit c order reserved).at? (.array id) = some name := hname
      exact legal_of_at? reserved hat

variable (ho : c.IsOrder order)

include ho

/-- The nodes of the circuit have names and their arrays do, and nothing else does. -/
theorem isSome_at?_iff {place : Place} :
    ((ofCircuit c order reserved).at? place).isSome ↔ ∃ id, Owns c id place := by
  have hcomplete : Complete c ({} : Naming) := fun other _ hsome => by
    simp [at?_empty] at hsome
  refine (isSome_foldl_nameNode hcomplete _ place).trans ?_
  constructor
  · rintro (hsome | ⟨id, -, howns⟩)
    · simp [at?_empty] at hsome
    · exact ⟨id, howns⟩
  · rintro ⟨id, n, hn, hplace⟩
    have hmem : id ∈ order := ho.mem.mpr (Circuit.mem_ids_of_node? hn)
    exact .inr ⟨id, List.mem_append_right _ hmem, n, hn, hplace⟩

theorem at?_eq_nameOf {place : Place} (h : Owns c id place) :
    (ofCircuit c order reserved).at? place = some ((ofCircuit c order reserved).nameOf place) := by
  have hsome := (isSome_at?_iff reserved ho).mpr ⟨id, h⟩
  obtain ⟨name, hname⟩ := Option.isSome_iff_exists.mp hsome
  cases place with
  | node id =>
    have hget : (ofCircuit c order reserved).names.get? id = some name := hname
    rw [hname, nameOf, Naming.name, hget, Option.getD_some]
  | array id =>
    have hget : (ofCircuit c order reserved).storage.get? id = some name := hname
    rw [hname, nameOf, arrayName, hget, Option.getD_some]

theorem nameOf_injective {place other : Place} {id' : NodeId} (h : Owns c id place)
    (hother : Owns c id' other)
    (he : (ofCircuit c order reserved).nameOf place = (ofCircuit c order reserved).nameOf other) :
    place = other := by
  obtain ⟨supply, hdistinct⟩ := exists_distinct c order reserved
  have hname := at?_eq_nameOf reserved ho h
  rw [he] at hname
  exact hdistinct.injective hname (at?_eq_nameOf reserved ho hother)

theorem nameOf_notMem {place : Place} (h : Owns c id place) :
    (ofCircuit c order reserved).nameOf place ∉ reserved := by
  obtain ⟨supply, hdistinct⟩ := exists_distinct c order reserved
  exact fun hmem => hdistinct.notMem (at?_eq_nameOf reserved ho h) (List.mem_append_right _ hmem)

end Circuit

end Naming

end Netlist
