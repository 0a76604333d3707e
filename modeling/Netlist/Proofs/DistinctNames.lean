import Netlist.Proofs.EvaluationOrder
import Netlist.Proofs.Names

namespace Netlist

namespace Naming

/-- What `[0-9]` matches. -/
def IsNumeral (c : Char) : Prop := '0' ≤ c ∧ c ≤ '9'

/-- What `[A-Za-z_]` matches. -/
def IsInitial (c : Char) : Prop := 'A' ≤ c ∧ c ≤ 'Z' ∨ 'a' ≤ c ∧ c ≤ 'z' ∨ c = '_'

/-- What `[A-Za-z_][A-Za-z0-9_]*` matches. -/
def IsIdentifier (s : String) : Prop :=
  ∃ first rest, s.toList = first :: rest ∧ IsInitial first ∧ ∀ c ∈ rest, IsInitial c ∨ IsNumeral c

theorem isBetween_iff {low high c : Char} :
    (decide (low.val ≤ c.val) && decide (c.val ≤ high.val)) = true ↔ low ≤ c ∧ c ≤ high := by
  simp [Char.le_def]

theorem isDigit_iff {c : Char} : c.isDigit = true ↔ IsNumeral c := isBetween_iff

theorem isAlpha_iff {c : Char} :
    c.isAlpha = true ↔ 'A' ≤ c ∧ c ≤ 'Z' ∨ 'a' ≤ c ∧ c ≤ 'z' := by
  have hupper : c.isUpper = true ↔ 'A' ≤ c ∧ c ≤ 'Z' := decide_eq_true_iff
  have hlower : c.isLower = true ↔ 'a' ≤ c ∧ c ≤ 'z' := isBetween_iff
  rw [← hupper, ← hlower]
  exact Bool.or_eq_true_iff

theorem isIdentChar_iff {c : Char} : isIdentChar c = true ↔ IsInitial c ∨ IsNumeral c := by
  simp only [isIdentChar, Char.isAlphanum, Bool.or_eq_true, isAlpha_iff, isDigit_iff, beq_iff_eq,
    IsInitial]
  tauto

theorem IsInitial.not_isNumeral {c : Char} (h : IsInitial c) : ¬ IsNumeral c := by
  rintro ⟨-, hle⟩
  rcases h with ⟨hge, -⟩ | ⟨hge, -⟩ | rfl
  · exact absurd (Char.le_trans hge hle) (by decide)
  · exact absurd (Char.le_trans hge hle) (by decide)
  · exact absurd hle (by decide)

theorem isName_iff {s : String} : isName s = true ↔ IsIdentifier s := by
  unfold isName IsIdentifier
  cases s.toList with
  | nil => simp
  | cons first rest =>
    simp only [List.all_cons, List.head?_cons, Option.any_some, Bool.and_eq_true, List.all_eq_true,
      Bool.not_eq_true', ← Bool.not_eq_true, isIdentChar_iff, isDigit_iff]
    constructor
    · rintro ⟨⟨hfirst, hrest⟩, hnumeral⟩
      exact ⟨first, rest, rfl, hfirst.resolve_right hnumeral, hrest⟩
    · rintro ⟨first', rest', he, hfirst, hrest⟩
      cases he
      exact ⟨⟨.inl hfirst, hrest⟩, hfirst.not_isNumeral⟩

variable {c : Circuit} {order : List NodeId} {id : NodeId}

/-- All nodes, and the arrays behind all memories. -/
def places (c : Circuit) : List Place := c.ids.map .node ++ c.memories.map .array

theorem exists_owns_node : (∃ owner, Owns c owner (.node id)) ↔ id ∈ c.ids := by
  constructor
  · rintro ⟨owner, n, hn, he | ⟨-, he⟩⟩
    · cases he
      exact Circuit.mem_ids_of_node? hn
    · cases he
  · intro hid
    obtain ⟨n, hn⟩ := Circuit.exists_node_of_mem hid
    exact ⟨id, n, hn, .inl rfl⟩

theorem exists_owns_array : (∃ owner, Owns c owner (.array id)) ↔ id ∈ c.memories := by
  constructor
  · rintro ⟨owner, n, hn, he | ⟨hmemory, he⟩⟩
    · cases he
    · cases he
      exact Circuit.mem_idsWhere.mpr ⟨n, hn, beq_iff_eq.mpr hmemory⟩
  · intro hid
    obtain ⟨n, hn, hmemory⟩ := Circuit.mem_idsWhere.mp hid
    exact ⟨id, n, hn, .inr ⟨beq_iff_eq.mp hmemory, rfl⟩⟩

theorem mem_places {place : Place} : place ∈ places c ↔ ∃ owner, Owns c owner place := by
  cases place with
  | node id => simp [places, exists_owns_node]
  | array id => simp [places, exists_owns_array]

theorem nodup_places (c : Circuit) : (places c).Nodup := by
  refine List.Nodup.append ?_ ?_ ?_
  · exact c.nodup_ids.map fun _ _ he => Place.node.inj he
  · exact (c.nodup_ids.filter _).map fun _ _ he => Place.array.inj he
  · intro place hnode harray
    obtain ⟨id, -, rfl⟩ := List.mem_map.mp hnode
    obtain ⟨id', -, he⟩ := List.mem_map.mp harray
    cases he

def given (n : Naming) (c : Circuit) : List String := c.ids.map n.name ++ c.memories.map n.arrayName

theorem given_eq (n : Naming) (c : Circuit) : n.given c = (places c).map n.nameOf := by
  simp [given, places, nameOf, Function.comp_def]

section Order

variable (reserved : List String) (ho : c.IsOrder order)

include ho

theorem at?_eq_nameOf_iff (place : Place) :
    (ofCircuit c order reserved).at? place = some ((ofCircuit c order reserved).nameOf place) ↔
      place ∈ places c := by
  rw [mem_places]
  constructor
  · intro hname
    exact (isSome_at?_iff reserved ho).mp (Option.isSome_of_eq_some hname)
  · rintro ⟨owner, howns⟩
    exact at?_eq_nameOf reserved ho howns

theorem nodup_given : ((ofCircuit c order reserved).given c).Nodup := by
  rw [given_eq]
  refine (nodup_places c).map_on fun place hplace other hother he => ?_
  obtain ⟨owner, howns⟩ := mem_places.mp hplace
  obtain ⟨owner', howns'⟩ := mem_places.mp hother
  exact nameOf_injective reserved ho howns howns' he

theorem legal_given {name : String} (h : name ∈ (ofCircuit c order reserved).given c) :
    IsIdentifier name ∧ name ∉ keywords ∧ name ∉ reserved := by
  rw [given_eq] at h
  obtain ⟨place, hplace, rfl⟩ := List.mem_map.mp h
  obtain ⟨owner, howns⟩ := mem_places.mp hplace
  have hlegal : Legal ((ofCircuit c order reserved).nameOf place) := legal_nameOf reserved place
  exact ⟨isName_iff.mp hlegal.1, hlegal.2, nameOf_notMem reserved ho howns⟩

end Order

/-- The nodes of a circuit have names and the arrays behind its memories have, and nothing else. Whatever
the nodes were called and whatever is reserved, these names are all different, and each is an identifier
that is neither a keyword nor reserved. -/
theorem names_are_distinct (h : c.Reachable) (hacyclic : c.Acyclic) (reserved : List String) :
    ∃ order naming, c.order = .ok order ∧ ofCircuit c order reserved = naming ∧
      (∀ id, naming.names.get? id = some (naming.name id) ↔ id ∈ c.ids) ∧
      (∀ id, naming.storage.get? id = some (naming.arrayName id) ↔ id ∈ c.memories) ∧
      (naming.given c).Nodup ∧
      ∀ name ∈ naming.given c, IsIdentifier name ∧ name ∉ keywords ∧ name ∉ reserved := by
  obtain ⟨order, horder, ho⟩ := h.wellFormed.exists_isOrder hacyclic
  refine ⟨order, _, horder, rfl, ?_, ?_, nodup_given reserved ho, fun name hname => ?_⟩
  · intro id
    have hnode := at?_eq_nameOf_iff reserved ho (.node id)
    rwa [mem_places, exists_owns_node] at hnode
  · intro id
    have harray := at?_eq_nameOf_iff reserved ho (.array id)
    rwa [mem_places, exists_owns_array] at harray
  · exact legal_given reserved ho hname

/-- Two nodes of one name, one that is called as the second of them would be, one without a name, two
that no identifier is like, and one that is called as the array behind the memory would be. -/
def clashingCalls : List Call :=
  [.literal (.ofNat 4 1) "x" .unknown, .proxy ⟨0⟩ "x" .unknown, .proxy ⟨0⟩ "x_1" .unknown,
   .proxy ⟨0⟩ "" .unknown, .proxy ⟨0⟩ "wire" .unknown, .proxy ⟨0⟩ "3é" .unknown,
   .memory 4 2 [] "m" .unknown, .proxy ⟨6⟩ "m_data" .unknown, .input 4 "top" .unknown]

def clashing : Circuit := .ofCalls clashingCalls

theorem clashing_names_are_distinct :
    clashing.Reachable ∧ clashing.Acyclic ∧
      ∃ order naming, clashing.order = .ok order ∧ ofCircuit clashing order ["clk", "x_2"] = naming ∧
        naming.names.get? ⟨3⟩ = some (naming.name ⟨3⟩) ∧
        naming.storage.get? ⟨6⟩ = some (naming.arrayName ⟨6⟩) ∧
        ([⟨0⟩, ⟨1⟩, ⟨2⟩, ⟨3⟩, ⟨4⟩, ⟨5⟩, ⟨6⟩, ⟨7⟩, ⟨8⟩, ⟨9⟩].map naming.name ++
          [naming.arrayName ⟨6⟩]).Nodup ∧
        naming.name ⟨2⟩ ≠ "x_2" ∧ naming.name ⟨4⟩ ≠ "wire" ∧ IsIdentifier (naming.name ⟨5⟩) := by
  have hreachable : clashing.Reachable := Circuit.reachableBy_ofCalls fun _ _ => trivial
  have hacyclic : clashing.Acyclic := hreachable.wellFormed.acyclic_of_ascending (by decide)
  have hids : clashing.ids = [⟨0⟩, ⟨1⟩, ⟨2⟩, ⟨3⟩, ⟨4⟩, ⟨5⟩, ⟨6⟩, ⟨7⟩, ⟨8⟩, ⟨9⟩] := by decide
  have hmemories : clashing.memories = [⟨6⟩] := by decide
  obtain ⟨order, naming, horder, hnaming, hnodes, harrays, hnodup, hlegal⟩ :=
    names_are_distinct hreachable hacyclic ["clk", "x_2"]
  have hname (id : NodeId) (hid : id ∈ clashing.ids) :=
    hlegal (naming.name id) (List.mem_append_left _ (List.mem_map_of_mem hid))
  refine ⟨hreachable, hacyclic, order, naming, horder, hnaming, ?_, ?_, ?_, ?_, ?_, ?_⟩
  · exact (hnodes ⟨3⟩).mpr (by decide)
  · exact (harrays ⟨6⟩).mpr (by decide)
  · rwa [given, hids, hmemories] at hnodup
  · intro he
    exact (hname ⟨2⟩ (by decide)).2.2 (by simp [he])
  · intro he
    exact (hname ⟨4⟩ (by decide)).2.1 (by rw [he]; decide)
  · exact (hname ⟨5⟩ (by decide)).1

end Naming

end Netlist
