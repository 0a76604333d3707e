import Mathlib
import Netlist.Proofs.ExactIntegers

namespace Netlist

namespace Word

variable {a : Word} {w between width : Nat} {signed : Bool}

theorem read_modEq (w : Nat) (i : Int) (signed : Bool) : (ofInt w i).read signed ≡ i [ZMOD 2 ^ w] := by
  cases signed with
  | true => exact toInt_modEq w i
  | false => exact toNat_modEq w i

/-- The two readings differ by the number of patterns, if at all. -/
theorem read_modEq_toNat (a : Word) (signed : Bool) : a.read signed ≡ a.toNat [ZMOD 2 ^ a.width] := by
  unfold read toInt
  split
  · split
    · rw [patterns_eq]
      push_cast
      exact (Int.modEq_sub_modulus_iff.mpr rfl).symm
    · rfl
  · rfl

theorem resize_resize (h : min a.width width ≤ between) :
    (a.resize between signed).resize width signed = a.resize width signed := by
  by_cases hcut : width ≤ between
  · -- what the detour adds is dropped again
    apply ofInt_eq_iff_modEq.mpr
    exact (read_modEq between (a.read signed) signed).of_dvd (pow_dvd_pow 2 hcut)
  · have hkept : (a.resize between signed).read signed = a.read signed := read_resize (by omega)
    rw [resize, hkept, resize]

theorem resize_of_le (h : width ≤ a.width) : a.resize width signed = ofNat width a.toNat := by
  rw [ofNat_eq_ofInt, resize, ofInt_eq_iff_modEq]
  exact (read_modEq_toNat a signed).of_dvd (pow_dvd_pow 2 h)

theorem read_ofInt_zero (w : Nat) (signed : Bool) : (ofInt w 0).read signed = 0 := by
  rw [ofInt_eq_ofBitVec]
  cases signed with
  | true => simp [read_signed]
  | false => simp [read_unsigned]

/-- A single one just above the bits that the detour keeps does not get through. -/
theorem resize_detour_ne (hw : between < w) (hwidth : between < width) (signed : Bool) :
    ((ofNat w (2 ^ between)).resize between signed).resize width signed ≠
      (ofNat w (2 ^ between)).resize width signed := by
  have hbits : (ofNat w (2 ^ between)).toNat = 2 ^ between := by
    rw [toNat_ofNat, patterns_eq, Nat.mod_eq_of_lt (Nat.pow_lt_pow_right (by decide) hw)]
  have hlost : ((ofNat w (2 ^ between)).resize between signed).read signed = 0 := by
    have hzero : (ofNat w (2 ^ between)).resize between signed = ofInt between 0 := by
      rw [resize_of_le (Nat.le_of_lt hw), hbits, ofNat_eq_ofInt, ofInt_eq_iff_modEq]
      push_cast
      exact Int.modEq_zero_iff_dvd.mpr (dvd_refl _)
    rw [hzero, read_ofInt_zero]
  -- by either reading, the bit above those that are kept is there
  have hone : (ofNat w (2 ^ between)).read signed ≡ 2 ^ between [ZMOD 2 ^ (between + 1)] := by
    have hread := (ofNat w (2 ^ between)).read_modEq_toNat signed
    rw [hbits] at hread
    push_cast at hread
    exact hread.of_dvd (pow_dvd_pow 2 hw)
  intro hsame
  have hzero := (ofInt_eq_iff_modEq.mp hsame).of_dvd (pow_dvd_pow (2 : Int) hwidth)
  rw [hlost] at hzero
  have hdvd := Int.modEq_zero_iff_dvd.mp (hzero.trans hone).symm
  have hpos : (0 : Int) < 2 ^ between := by positivity
  have hle := Int.le_of_dvd hpos hdvd
  rw [pow_succ] at hle
  omega

/-- Resizing all words of a width by way of another one makes no difference exactly if the other one is
not below both the width that they have and the one that they get. Widening keeps the reading by which it
extends. Narrowing gives the same pattern for both readings, the old one modulo the number of patterns
that are left. -/
theorem resizing_composes (w between width : Nat) (signed : Bool) :
    ((∀ a : Word, a.width = w →
      (a.resize between signed).resize width signed = a.resize width signed) ↔
        min w width ≤ between) ∧
    ∀ a : Word,
      (a.width ≤ width → (a.resize width signed).read signed = a.read signed) ∧
      (width ≤ a.width → a.resize width true = a.resize width false ∧
        (a.resize width signed).toNat = a.toNat % 2 ^ width) := by
  refine ⟨⟨fun hall => ?_, ?_⟩, fun a => ⟨read_resize, fun h => ⟨?_, ?_⟩⟩⟩
  · by_contra hshort
    have hw : between < w := by omega
    have hwidth : between < width := by omega
    exact resize_detour_ne hw hwidth signed (hall (ofNat w (2 ^ between)) rfl)
  · rintro h a rfl
    exact resize_resize h
  · rw [resize_of_le h, resize_of_le h]
  · rw [resize_of_le h, toNat_ofNat, patterns_eq]

/-- Minus three in four bits, extended by its sign to eight bits and on to sixteen. Cut to three bits it is
a five. -/
theorem minus_three_resized :
    ((ofInt 4 (-3)).resize 8 true).resize 16 true = (ofInt 4 (-3)).resize 16 true ∧
      ((ofInt 4 (-3)).resize 16 true).read true = -3 ∧
      (ofInt 4 (-3)).resize 3 true = (ofInt 4 (-3)).resize 3 false ∧
      ((ofInt 4 (-3)).resize 3 true).toNat = 5 := by
  obtain ⟨hdetour, hread⟩ := resizing_composes 4 8 16 true
  obtain ⟨hsame, hcut⟩ := ((resizing_composes 4 8 3 true).2 (ofInt 4 (-3))).2 (by decide)
  exact ⟨hdetour.mpr (by decide) (ofInt 4 (-3)) rfl, (hread (ofInt 4 (-3))).1 (by decide), hsame,
    hcut.trans (by decide)⟩

end Word

end Netlist
