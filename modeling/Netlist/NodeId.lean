namespace Netlist

/-- A node's place in its circuit. -/
structure NodeId where
  index : Nat
deriving DecidableEq, Hashable

namespace NodeId

/-- Ids are 32 bits wide, so only the low 32 bits of an index count. -/
def ofIndex (i : Nat) : NodeId := ⟨i % UInt32.size⟩

def text (id : NodeId) : String := "#" ++ toString id.index

instance : ToString NodeId := ⟨text⟩

theorem ofIndex_of_lt {i : Nat} (h : i < UInt32.size) : ofIndex i = ⟨i⟩ := by
  rw [ofIndex, Nat.mod_eq_of_lt h]

end NodeId

/-- One entry for each id below the size. -/
structure Table (α : Type) where
  entries : Array α := #[]

namespace Table

variable {α : Type}

def size (t : Table α) : Nat := t.entries.size

def isEmpty (t : Table α) : Bool := t.entries.isEmpty

def get? (t : Table α) (id : NodeId) : Option α := t.entries[id.index]?

def contains (t : Table α) (id : NodeId) : Bool := id.index < t.size

def nextId (t : Table α) : NodeId := NodeId.ofIndex t.size

def push (t : Table α) (a : α) : Table α := ⟨t.entries.push a⟩

def modify (t : Table α) (id : NodeId) (f : α → α) : Table α := ⟨t.entries.modify id.index f⟩

def ids (t : Table α) : List NodeId := (List.range t.size).map NodeId.mk

def values (t : Table α) : List α := t.entries.toList

def toList (t : Table α) : List (NodeId × α) := t.ids.zip t.values

@[simp] theorem size_push (t : Table α) (a : α) : (t.push a).size = t.size + 1 := by
  simp [push, size]

@[simp] theorem size_modify (t : Table α) (id : NodeId) (f : α → α) :
    (t.modify id f).size = t.size := by
  simp [modify, size]

theorem get?_push (t : Table α) (a : α) (id : NodeId) :
    (t.push a).get? id = if id.index = t.size then some a else t.get? id := by
  by_cases h : id.index = t.size <;> simp_all [push, get?, size, Array.getElem?_push]

theorem get?_modify (t : Table α) (id other : NodeId) (f : α → α) :
    (t.modify id f).get? other = if id = other then (t.get? other).map f else t.get? other := by
  cases id
  cases other
  simp [modify, get?, Array.getElem?_modify]

theorem ext_get? {t t' : Table α} (h : ∀ id, t.get? id = t'.get? id) : t = t' := by
  cases t
  cases t'
  exact congrArg Table.mk (Array.ext_getElem? fun i => h ⟨i⟩)

end Table

/-- At most one entry for each id, most often far from all. -/
structure SideMap (α : Type) where
  cells : Array (Option α) := #[]

namespace SideMap

variable {α : Type}

def empty : SideMap α := {}

def get? (m : SideMap α) (id : NodeId) : Option α := m.cells[id.index]?.join

def contains (m : SideMap α) (id : NodeId) : Bool := (m.get? id).isSome

/-- Cells with a place for `id`. -/
def roomFor (cells : Array (Option α)) (id : NodeId) : Array (Option α) :=
  cells ++ Array.replicate (id.index + 1 - cells.size) none

def insert (m : SideMap α) (id : NodeId) (a : α) : SideMap α :=
  ⟨(roomFor m.cells id).setIfInBounds id.index (some a)⟩

def erase (m : SideMap α) (id : NodeId) : SideMap α :=
  ⟨m.cells.setIfInBounds id.index none⟩

/-- Puts `a` in the place of `id`, and gives back what was there. -/
def replace (m : SideMap α) (id : NodeId) (a : α) : Option α × SideMap α :=
  ((roomFor m.cells id)[id.index]?.join, m.insert id a)

def take (m : SideMap α) (id : NodeId) : Option α × SideMap α := (m.get? id, m.erase id)

def modify (m : SideMap α) (id : NodeId) (f : α → α) : SideMap α :=
  ⟨m.cells.modify id.index (·.map f)⟩

def count (m : SideMap α) : Nat := m.cells.countP (·.isSome)

def toList (m : SideMap α) : List (NodeId × α) :=
  m.cells.toList.zipIdx.filterMap fun (a, i) => a.map (NodeId.mk i, ·)

@[simp] theorem get?_empty (id : NodeId) : (empty : SideMap α).get? id = none := by
  simp [empty, get?]

theorem lt_size_roomFor (cells : Array (Option α)) (id : NodeId) :
    id.index < (roomFor cells id).size := by
  simp only [roomFor, Array.size_append, Array.size_replicate]
  omega

theorem join_roomFor (cells : Array (Option α)) (id other : NodeId) :
    (roomFor cells id)[other.index]?.join = cells[other.index]?.join := by
  simp only [roomFor, Array.getElem?_append, Array.getElem?_replicate]
  split
  · rfl
  · next h =>
    rw [Array.getElem?_eq_none (by omega)]
    split <;> rfl

theorem get?_insert (m : SideMap α) (id other : NodeId) (a : α) :
    (m.insert id a).get? other = if id = other then some a else m.get? other := by
  by_cases h : id = other
  · subst h
    simp [insert, get?, lt_size_roomFor]
  · have hi : id.index ≠ other.index := fun e => h (by cases id; cases other; simp_all)
    simp only [insert, get?, h, if_false, Array.getElem?_setIfInBounds_ne hi, join_roomFor]

theorem get?_erase (m : SideMap α) (id other : NodeId) :
    (m.erase id).get? other = if id = other then none else m.get? other := by
  by_cases h : id = other
  · subst h
    simp only [erase, get?, Array.getElem?_setIfInBounds_self, if_true]
    split <;> rfl
  · have hi : id.index ≠ other.index := fun e => h (by cases id; cases other; simp_all)
    simp only [erase, get?, h, if_false, Array.getElem?_setIfInBounds_ne hi]

theorem get?_modify (m : SideMap α) (id other : NodeId) (f : α → α) :
    (m.modify id f).get? other = if id = other then (m.get? other).map f else m.get? other := by
  cases id with
  | mk i =>
    cases other with
    | mk j =>
      by_cases h : i = j
      · subst h
        simp only [modify, get?, Array.getElem?_modify, if_true]
        cases m.cells[i]? <;> simp
      · simp [modify, get?, Array.getElem?_modify, h]

end SideMap

end Netlist
