import Mathlib
import Netlist.Proofs.RightSides

namespace Netlist

namespace Text

/-- The digits of the bases up to sixteen, each at the place of its value. -/
def digits : List Char :=
  ['0', '1', '2', '3', '4', '5', '6', '7', '8', '9', 'a', 'b', 'c', 'd', 'e', 'f']

def appendDigit? (base n : Nat) (c : Char) : Option Nat :=
  ((digits.take base).idxOf? c).map (base * n + ·)

/-- The number that a text writes in a base. It has digits of that base only, and at least one. -/
def numeral? (base : Nat) (text : List Char) : Option Nat :=
  if text.isEmpty then none else text.foldlM (appendDigit? base) 0

theorem idxOf?_digitChar {base d : Nat} (h16 : base ≤ 16) (hd : d < base) :
    (digits.take base).idxOf? d.digitChar = some d := by
  have hplace : ∀ b : Fin 17, ∀ k : Fin b, (digits.take b).idxOf? k.val.digitChar = some k.val := by
    decide
  exact hplace ⟨base, by omega⟩ ⟨d, hd⟩

section Digits

variable {base : Nat} (hbase : 1 < base) (h16 : base ≤ 16)
include hbase h16

theorem mem_take_digits (n : Nat) : ∀ c ∈ Nat.toDigits base n, c ∈ digits.take base := by
  have hdigit (d : Nat) (hd : d < base) : d.digitChar ∈ digits.take base := by
    apply List.isSome_idxOf?.mp
    rw [idxOf?_digitChar h16 hd, Option.isSome_some]
  refine toDigits_induction (motive := fun _ text => ∀ c ∈ text, c ∈ digits.take base) hbase ?_ ?_ n
  · intro d hd c hc
    rw [List.mem_singleton.mp hc]
    exact hdigit d hd
  · intro n d text _ hd ih c hc
    rw [List.mem_append, List.mem_singleton] at hc
    cases hc with
    | inl htext => exact ih c htext
    | inr hlast =>
      rw [hlast]
      exact hdigit d hd

theorem numeral?_toDigits (n : Nat) : numeral? base (Nat.toDigits base n) = some n := by
  have hread : (Nat.toDigits base n).foldlM (appendDigit? base) 0 = some n := by
    refine toDigits_induction (motive := fun n text => text.foldlM (appendDigit? base) 0 = some n) hbase
      ?_ ?_ n
    · intro d hd
      simp [appendDigit?, idxOf?_digitChar h16 hd]
    · intro n d text _ hd ih
      simp [List.foldlM_append, ih, appendDigit?, idxOf?_digitChar h16 hd]
  rw [numeral?, if_neg (by simp [Nat.toDigits_ne_nil]), hread]

/-- Only zero is written with a zero in front. -/
theorem head?_toDigits_ne {n : Nat} (hn : n ≠ 0) : (Nat.toDigits base n).head? ≠ some '0' := by
  have hdigit : ∀ d : Fin 16, d.val ≠ 0 → d.val.digitChar ≠ '0' := by decide
  -- With a digit behind it a text keeps its head only if it has one, so this goes along.
  refine (toDigits_induction (motive := fun n text => text ≠ [] ∧ (n ≠ 0 → text.head? ≠ some '0')) hbase
    ?_ ?_ n).2 hn
  · intro d hd
    refine ⟨List.cons_ne_nil _ _, fun hpos heq => ?_⟩
    exact hdigit ⟨d, by omega⟩ hpos (Option.some.inj heq)
  · intro n d text hpos _ ih
    refine ⟨List.append_ne_nil_of_left_ne_nil ih.1 _, fun _ => ?_⟩
    rw [List.head?_append_of_ne_nil _ ih.1]
    exact ih.2 hpos

end Digits

/-- A number in lowercase hexadecimal, with no zero in front of other digits. -/
structure IsHex (text : List Char) (n : Nat) : Prop where
  lowercase : ∀ c ∈ text, c ∈ digits
  lead : text.head? = some '0' → text = ['0']
  zero : n = 0 → text = ['0']
  reads : numeral? 16 text = some n

theorem isHex_toDigits (n : Nat) : IsHex (Nat.toDigits 16 n) n where
  lowercase := mem_take_digits (by decide) (by decide) n
  lead := by
    intro hzero
    by_cases hn : n = 0
    · rw [hn, Nat.toDigits_zero]
    · exact absurd hzero (head?_toDigits_ne (by decide) (by decide) hn)
  zero := by
    intro hn
    rw [hn, Nat.toDigits_zero]
  reads := numeral?_toDigits (by decide) (by decide) n

end Text

namespace Word

theorem toList_text (v : Word) :
    v.text.toList = Nat.toDigits 10 v.width ++ '\'' :: 'h' :: Nat.toDigits 16 v.toNat := by
  have hhex : v.hex.toList = Nat.toDigits 16 v.toNat := by
    rw [hex, String.toList_ofList, Text.hexDigits_eq]
  rw [text, String.toList_append, String.toList_append, hhex, Nat.toString_eq_repr, Nat.toList_repr,
    List.append_assoc]
  rfl

theorem lt_two_pow (v : Word) : v.toNat < 2 ^ v.width := by
  rw [← patterns_eq]
  exact v.toNat_lt

/-- Four bits have room for one digit, and what is left of the width for another. -/
theorem length_toDigits_le (v : Word) (hv : 1 ≤ v.width) :
    (Nat.toDigits 16 v.toNat).length ≤ v.width ⌈/⌉ 4 := by
  have hcovers : v.width ≤ 4 * (v.width ⌈/⌉ 4) := by
    rw [Nat.ceilDiv_eq_add_pred_div]
    omega
  apply (Nat.length_toDigits_le_iff (by decide) (by rw [Nat.ceilDiv_eq_add_pred_div]; omega)).mpr
  calc v.toNat < 2 ^ v.width := v.lt_two_pow
    _ ≤ 2 ^ (4 * (v.width ⌈/⌉ 4)) := Nat.pow_le_pow_right (by decide) hcovers
    _ = 16 ^ (v.width ⌈/⌉ 4) := by rw [Nat.pow_mul]

end Word

namespace Verilog

/-- What a literal with a size says. Nothing in its text makes sure that the number fits the size. -/
structure Literal where
  size : Nat
  number : Nat
deriving DecidableEq

/-- The size in decimal, an apostrophe, the letter of the base, and the number in that base. -/
def Literal.ofText? (text : String) : Option Literal :=
  match text.toList.splitOn '\'' with
  | [size, 'h' :: digits] =>
    (Text.numeral? 10 size).bind fun bits => (Text.numeral? 16 digits).map (⟨bits, ·⟩)
  | _ => none

theorem notMem_toDigits {base : Nat} (hbase : 1 < base) (h16 : base ≤ 16) (n : Nat) :
    '\'' ∉ Nat.toDigits base n := by
  intro hmem
  have hdigit : '\'' ∈ Text.digits := List.mem_of_mem_take (Text.mem_take_digits hbase h16 n _ hmem)
  exact absurd hdigit (by decide)

theorem Literal.ofText?_text (v : Word) : ofText? v.text = some ⟨v.width, v.toNat⟩ := by
  have hhex : '\'' ∉ 'h' :: Nat.toDigits 16 v.toNat := by
    simp [notMem_toDigits]
  have hsplit : v.text.toList.splitOn '\'' =
      [Nat.toDigits 10 v.width, 'h' :: Nat.toDigits 16 v.toNat] := by
    rw [v.toList_text, List.splitOn_append_cons_self,
      List.splitOn_eq_singleton (notMem_toDigits (by decide) (by decide) v.width),
      List.splitOn_eq_singleton hhex]
    rfl
  simp [ofText?, hsplit, Text.numeral?_toDigits]

theorem text_injective : Function.Injective Word.text := by
  intro u v h
  have hsame := Literal.ofText?_text u
  rw [h, Literal.ofText?_text v] at hsame
  cases u
  cases v
  simpa using hsame.symm

theorem Plan.Sound.rightSides_literal {p : Plan} (h : p.Sound) {id : NodeId} {n : Node}
    (hn : p.circuit.node? id = some n) {value : Word} (hkind : n.kind = .literal value) :
    rightSides p.lower.text (p.name id) = [value.text] := by
  rw [h.rightSides_name hn]
  simp [lowerNode, hn, hkind, Item.assignment?, Assignment.value?, Expr.text]

/-- The text of a word is its width and its value, in no more digits than the width has room for, and no
other word has it. As a literal it reads as a number that its size does not cut, and it is what a module
assigns to the name of a literal. -/
theorem literals_read_back (v : Word) (hv : 1 ≤ v.width) :
    (∃ digits, v.text = toString v.width ++ "'h" ++ String.ofList digits ∧ Text.IsHex digits v.toNat ∧
      digits.length ≤ v.width ⌈/⌉ 4) ∧
    (∀ u : Word, u.text = v.text ↔ u = v) ∧
    (∃ literal, Literal.ofText? v.text = some literal ∧ literal = ⟨v.width, v.toNat⟩ ∧
      literal.number < 2 ^ literal.size) ∧
    ∀ (c : Circuit) (id : NodeId) (n : Node), c.Reachable → c.Acyclic → c.node? id = some n →
      n.kind = .literal v →
      ∃ order m, c.order = .ok order ∧ ofCircuit c = .ok m ∧
        rightSides m.text ((Plan.ofCircuit c order).name id) = [v.text] := by
  refine ⟨⟨Nat.toDigits 16 v.toNat, ?_, Text.isHex_toDigits v.toNat, v.length_toDigits_le hv⟩, ?_,
    ⟨⟨v.width, v.toNat⟩, Literal.ofText?_text v, rfl, v.lt_two_pow⟩, ?_⟩
  · rw [Word.text, Word.hex, Text.hexDigits_eq]
  · intro u
    exact text_injective.eq_iff
  · intro c id n hreachable hacyclic hn hkind
    obtain ⟨order, horder, hsound, hmodule⟩ := exists_plan hreachable hacyclic
    exact ⟨order, _, horder, hmodule, hsound.rightSides_literal hn hkind⟩

/-- A word of ten bits alone. -/
def tenBits : Circuit := .ofCalls [.literal (.ofNat 10 677) "k" .unknown]

/-- Ten bits have room for three digits, of which the first is at most three. -/
theorem ten_bits_read_back :
    (∃ digits, "10'h2a5" = toString 10 ++ "'h" ++ String.ofList digits ∧ Text.IsHex digits 677 ∧
      digits.length ≤ 3) ∧
    (∀ u : Word, u.text = "10'h2a5" ↔ u = .ofNat 10 677) ∧
    Literal.ofText? "10'h2a5" = some ⟨10, 677⟩ ∧ tenBits.Reachable ∧ tenBits.Acyclic ∧
    ∃ order m, tenBits.order = .ok order ∧ ofCircuit tenBits = .ok m ∧
      rightSides m.text ((Plan.ofCircuit tenBits order).name ⟨0⟩) = ["10'h2a5"] := by
  have htext : (Word.ofNat 10 677).text = "10'h2a5" := by decide +kernel
  have hreachable : tenBits.Reachable := Circuit.reachableBy_ofCalls fun _ _ => trivial
  have horder : tenBits.order = .ok [⟨0⟩] := by decide +kernel
  have hacyclic : tenBits.Acyclic := (Circuit.isOrder_of_order hreachable.wellFormed horder).acyclic
  obtain ⟨hdigits, hunique, ⟨_, hliteral, rfl, -⟩, hprinted⟩ :=
    literals_read_back (.ofNat 10 677) (by decide)
  have hmodule := hprinted tenBits ⟨0⟩ _ hreachable hacyclic rfl rfl
  rw [htext] at hdigits hunique hliteral hmodule
  exact ⟨hdigits, hunique, hliteral, hreachable, hacyclic, hmodule⟩

end Verilog

end Netlist
