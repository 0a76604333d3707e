import Mathlib.Data.List.Nodup
import Netlist.Word

namespace Netlist.Text

theorem toList_append_append (a b c : String) :
    (a ++ b ++ c).toList = a.toList ++ (b.toList ++ c.toList) := by
  rw [String.toList_append, String.toList_append, List.append_assoc]

theorem dropPrefix?_append (x y : List Char) : (x ++ y).dropPrefix? x = some y :=
  List.dropPrefix?_append_of_beq y (beq_self_eq_true x)

theorem line_number (k : Nat) : '\n' ∉ (toString k).toList := by
  rw [Nat.toString_eq_repr, Nat.toList_repr]
  intro hmem
  exact absurd (Nat.isDigit_of_mem_toDigits (by decide) (by decide) hmem) (by decide)

/-- What all hexadecimal digits satisfy holds throughout a number. -/
theorem all_hexDigits {p : Char → Bool} (h : ∀ k : Fin 16, p k.val.digitChar = true) (n : Nat) :
    (hexDigits n).all p = true := by
  rw [hexDigits_eq]
  refine toDigits_induction (motive := fun _ text => text.all p = true) (by decide) ?_ ?_ n
  · intro d hd
    simpa using h ⟨d, hd⟩
  · intro n d text _ hd ih
    rw [List.all_append, ih]
    simpa using h ⟨d, hd⟩

theorem line_literal (value : Word) : '\n' ∉ value.text.toList := by
  have hhex : '\n' ∉ value.hex.toList := by
    have hall := List.all_eq_true.mp (all_hexDigits (p := (· != '\n')) (by decide) value.toNat)
    rw [Word.hex, String.toList_ofList]
    exact fun hmem => absurd (hall _ hmem) (by decide)
  rw [Word.text, toList_append_append]
  simp only [List.mem_append, line_number, hhex, or_false, false_or]
  decide

variable {α : Type} {read : List Char → Option α}

def readLines (read : List Char → Option α) (text : List Char) : List α :=
  (text.splitOn '\n').filterMap read

/-- Lines from which `read` takes `as`, whatever comes after them. -/
def Yields (read : List Char → Option α) (x : List Char) (as : List α) : Prop :=
  ∀ rest, readLines read (x ++ rest) = as ++ readLines read rest

theorem Yields.append {x y : List Char} {as bs : List α} (hx : Yields read x as)
    (hy : Yields read y bs) : Yields read (x ++ y) (as ++ bs) := by
  intro rest
  rw [List.append_assoc, hx, hy, List.append_assoc]

theorem yields_nil (read : List Char → Option α) : Yields read [] [] := fun _ => rfl

theorem yields_flatMap {β : Type} {text : β → List Char} {result : β → List α} (parts : List β)
    (h : ∀ b ∈ parts, Yields read (text b) (result b)) :
    Yields read (parts.flatMap text) (parts.flatMap result) := by
  induction parts with
  | nil => exact yields_nil read
  | cons b rest ih =>
    rw [List.flatMap_cons, List.flatMap_cons]
    exact (h b List.mem_cons_self).append (ih fun b' hb' => h b' (List.mem_cons_of_mem b hb'))

theorem yields_line {line : List Char} {a : Option α} (hline : '\n' ∉ line) (ha : read line = a) :
    Yields read (line ++ ['\n']) a.toList := by
  intro rest
  have hsplit : (line ++ '\n' :: rest).splitOn '\n' = line :: rest.splitOn '\n' := by
    rw [List.splitOn_append_cons_self, List.splitOn_eq_singleton hline]
    rfl
  rw [List.append_assoc, List.singleton_append, readLines, hsplit, List.filterMap_cons, ha]
  cases a <;> rfl

theorem yields_nothing (line : String) (hline : '\n' ∉ line.toList) (h : read line.toList = none) :
    Yields read (line ++ "\n").toList [] := by
  rw [String.toList_append]
  exact yields_line hline h

end Netlist.Text
