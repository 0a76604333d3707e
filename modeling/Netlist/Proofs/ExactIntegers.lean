import Mathlib
import Netlist.Opcode
import Netlist.Proofs.BitVectors

namespace Netlist

namespace Word

variable {w : Nat}

section Residues

theorem ofInt_eq_iff_modEq {i j : Int} : ofInt w i = ofInt w j ↔ i ≡ j [ZMOD 2 ^ w] := by
  rw [Int.ModEq, ← natCast_toNat_ofInt, ← natCast_toNat_ofInt, Int.natCast_inj]
  refine ⟨congrArg toNat, fun h => ?_⟩
  rw [ofInt_eq_ofBitVec, ofInt_eq_ofBitVec] at *
  rw [BitVec.eq_of_toNat_eq h]

theorem ofNat_eq_ofInt (w n : Nat) : ofNat w n = ofInt w n := by
  rw [ofNat_eq_ofBitVec, ofInt_eq_ofBitVec, BitVec.ofInt_natCast]

theorem toNat_modEq (w : Nat) (i : Int) : ((ofInt w i).toNat : Int) ≡ i [ZMOD 2 ^ w] := by
  rw [natCast_toNat_ofInt]
  exact Int.mod_modEq i (2 ^ w)

theorem toInt_modEq (w : Nat) (i : Int) : (ofInt w i).toInt ≡ i [ZMOD 2 ^ w] := by
  rw [← ofInt_eq_iff_modEq, ofInt_eq_ofBitVec, ofInt_eq_ofBitVec, toInt_ofBitVec, BitVec.ofInt_toInt]

theorem truncate_ofInt {width : Nat} (h : width ≤ w) (i : Int) :
    (ofInt w i).truncate width = ofInt width i :=
  ofInt_eq_iff_modEq.mpr ((toNat_modEq w i).of_dvd (pow_dvd_pow 2 h))

theorem add_ofInt (i j : Int) : (ofInt w i).add (ofInt w j) = ofInt w (i + j) := by
  rw [add, ofNat_eq_ofInt, width_ofInt, ofInt_eq_iff_modEq]
  push_cast
  exact (toNat_modEq w i).add (toNat_modEq w j)

theorem sub_ofInt (i j : Int) : (ofInt w i).sub (ofInt w j) = ofInt w (i - j) :=
  ofInt_eq_iff_modEq.mpr ((toInt_modEq w i).sub (toInt_modEq w j))

theorem mul_ofInt (i j : Int) : (ofInt w i).mul (ofInt w j) = ofInt w (i * j) := by
  rw [mul, ofNat_eq_ofInt, width_ofInt, ofInt_eq_iff_modEq]
  push_cast
  exact (toNat_modEq w i).mul (toNat_modEq w j)

theorem neg_ofInt (i : Int) : (ofInt w i).neg = ofInt w (-i) :=
  ofInt_eq_iff_modEq.mpr (toInt_modEq w i).neg

theorem not_ofInt (i : Int) : (ofInt w i).not = ofInt w (-i - 1) := by
  have hnot : ~~~BitVec.ofInt w i = BitVec.ofInt w (-i - 1) := by
    have hneg := BitVec.neg_eq_not_add (BitVec.ofInt w i)
    rw [← BitVec.ofInt_neg] at hneg
    rw [sub_eq_add_neg, BitVec.ofInt_add, hneg, BitVec.ofInt_neg]
    simp
  rw [ofInt_eq_ofBitVec, not_ofBitVec, hnot, ← ofInt_eq_ofBitVec]

theorem shl_ofInt (i : Int) (amount : Nat) :
    (ofInt w i).shl amount = ofInt w (i * 2 ^ amount) := by
  rw [shl, width_ofInt]
  split
  · next h =>
    rw [zero, ofNat_eq_ofInt, ofInt_eq_iff_modEq]
    exact (Int.modEq_zero_iff_dvd.mpr ((pow_dvd_pow 2 h).mul_left i)).symm
  · rw [ofNat_eq_ofInt, ofInt_eq_iff_modEq, Nat.shiftLeft_eq]
    push_cast
    exact (toNat_modEq w i).mul_right _

theorem resize_ofBool (b : Bool) : (ofBool b).resize w false = ofInt w b.toInt := by
  cases b <;> rfl

end Residues

section Bits

theorem getLsbD_ofInt (i : Int) (k : Nat) :
    (BitVec.ofInt w i).getLsbD k = (decide (k < w) && i.testBit k) := by
  cases i with
  | ofNat n => simp [BitVec.getLsbD_ofNat, Int.testBit]
  | negSucc n =>
    rw [BitVec.ofInt_negSucc_eq_not_ofNat]
    simp [BitVec.getLsbD_ofNat, Int.testBit]
    grind

theorem ofBitVec_eq_ofInt {x : BitVec w} {i : Int} (h : ∀ k < w, x.getLsbD k = i.testBit k) :
    ofBitVec x = ofInt w i := by
  rw [ofInt_eq_ofBitVec]
  congr 1
  apply BitVec.eq_of_getLsbD_eq
  intro k hk
  rw [h k hk, getLsbD_ofInt, decide_eq_true hk, Bool.true_and]

theorem and_ofInt (i j : Int) : (ofInt w i).and (ofInt w j) = ofInt w (i.land j) := by
  rw [ofInt_eq_ofBitVec w i, ofInt_eq_ofBitVec w j, and_ofBitVec]
  apply ofBitVec_eq_ofInt
  intro k hk
  simp only [BitVec.getLsbD_and, getLsbD_ofInt, Int.testBit_land, hk, decide_true, Bool.true_and]

theorem or_ofInt (i j : Int) : (ofInt w i).or (ofInt w j) = ofInt w (i.lor j) := by
  rw [ofInt_eq_ofBitVec w i, ofInt_eq_ofBitVec w j, or_ofBitVec]
  apply ofBitVec_eq_ofInt
  intro k hk
  simp only [BitVec.getLsbD_or, getLsbD_ofInt, Int.testBit_lor, hk, decide_true, Bool.true_and]

theorem xor_ofInt (i j : Int) : (ofInt w i).xor (ofInt w j) = ofInt w (i.xor j) := by
  rw [ofInt_eq_ofBitVec w i, ofInt_eq_ofBitVec w j, xor_ofBitVec]
  apply ofBitVec_eq_ofInt
  intro k hk
  simp only [BitVec.getLsbD_xor, getLsbD_ofInt, Int.testBit_lxor, hk, decide_true, Bool.true_and]

end Bits

section Widening

variable {a b : Word} {signed : Bool}

theorem exists_ofBitVec (a : Word) : ∃ (w : Nat) (x : BitVec w), a = ofBitVec x :=
  ⟨a.width, equivBitVec a.width ⟨a, rfl⟩,
    congrArg Subtype.val ((equivBitVec a.width).symm_apply_apply ⟨a, rfl⟩).symm⟩

/-- Widening keeps the reading by which it extends. -/
theorem read_resize (h : a.width ≤ w) : (a.resize w signed).read signed = a.read signed := by
  obtain ⟨v, x, rfl⟩ := a.exists_ofBitVec
  rw [width_ofBitVec] at h
  rw [resize, ofInt_eq_ofBitVec]
  cases signed with
  | true =>
    rw [read_signed, read_signed]
    exact BitVec.toInt_signExtend_of_le h
  | false =>
    have hlt : x.toNat < 2 ^ w := Nat.lt_of_lt_of_le x.isLt (Nat.pow_le_pow_right (by decide) h)
    rw [read_unsigned, read_unsigned, BitVec.ofInt_natCast, BitVec.toNat_ofNat, Nat.mod_eq_of_lt hlt]

theorem read_range (a : Word) (signed : Bool) :
    -2 ^ a.width ≤ a.read signed ∧ a.read signed < 2 ^ a.width := by
  obtain ⟨v, x, rfl⟩ := a.exists_ofBitVec
  have hpos : (0 : Int) < 2 ^ v := by positivity
  rw [width_ofBitVec]
  cases signed with
  | true =>
    have hlow := x.le_two_mul_toInt
    have hhigh := x.two_mul_toInt_lt
    rw [read_signed]
    omega
  | false =>
    have hhigh : (x.toNat : Int) < 2 ^ v := by exact_mod_cast x.isLt
    rw [read_unsigned]
    omega

theorem isZero_eq (a : Word) (signed : Bool) : a.isZero = decide (a.read signed = 0) := by
  obtain ⟨v, x, rfl⟩ := a.exists_ofBitVec
  rw [Bool.eq_iff_iff, isZero_ofBitVec, decide_eq_true_iff]
  cases signed with
  | true =>
    rw [read_signed, ← BitVec.toInt_zero (w := v), BitVec.toInt_inj]
    rfl
  | false =>
    rw [read_unsigned]
    simp [BitVec.toNat_eq]

theorem isZero_resize (h : a.width ≤ w) : (a.resize w signed).isZero = a.isZero := by
  rw [isZero_eq _ signed, isZero_eq a signed, read_resize h]

theorem div?_resize (ha : a.width ≤ w) (hb : b.width ≤ w) :
    (a.resize w signed).div? (b.resize w signed) signed =
      if b.isZero then none else some (ofInt w ((a.read signed).tdiv (b.read signed))) := by
  rw [div?, isZero_resize hb, read_resize ha, read_resize hb, width_resize]

theorem mod?_resize (ha : a.width ≤ w) (hb : b.width ≤ w) :
    (a.resize w signed).mod? (b.resize w signed) signed =
      if b.isZero then none else some (ofInt w ((a.read signed).tmod (b.read signed))) := by
  rw [mod?, isZero_resize hb, read_resize ha, read_resize hb, width_resize]

theorem compare_resize (ha : a.width ≤ w) (hb : b.width ≤ w) :
    (a.resize w signed).compare (b.resize w signed) signed =
      Ord.compare (a.read signed) (b.read signed) := by
  rw [Word.compare, read_resize ha, read_resize hb]

theorem shr_resize (h : a.width ≤ w) (amount : Nat) :
    (a.resize w signed).shr amount signed = ofInt w ((a.read signed).fdiv (2 ^ amount)) := by
  have hrange := (a.resize w signed).read_range signed
  rw [read_resize h, width_resize] at hrange
  rw [shr, read_resize h, width_resize, shiftRight_min hrange.1 hrange.2, Int.shiftRight_eq_div_pow,
    Int.fdiv_eq_ediv_of_nonneg _ (by positivity)]
  push_cast
  rfl

end Widening

theorem shl_min (a : Word) (amount : Nat) : a.shl (min amount a.width) = a.shl amount := by
  rcases Nat.le_total amount a.width with h | h
  · rw [Nat.min_eq_left h]
  · rw [Nat.min_eq_right h, shl, shl, if_pos (Nat.le_refl a.width), if_pos h]

theorem shr_min (a : Word) (amount : Nat) (signed : Bool) :
    a.shr (min amount a.width) signed = a.shr amount signed := by
  rw [shr, shr, Nat.min_assoc, Nat.min_self]

end Word

namespace Opcode

/-- What an operator gives on integers of any size. A shift goes by `amount` bits, and to the right it
rounds down. -/
def onIntegers (op : Opcode) (l r : Int) (amount : Nat) : Int :=
  match op with
  | add => l + r
  | sub => l - r
  | mul => l * r
  | div => l.tdiv r
  | mod => l.tmod r
  | and => l.land r
  | or => l.lor r
  | xor => l.xor r
  | not => -l - 1
  | neg => -l
  | shl => l * 2 ^ amount
  | shr => l.fdiv (2 ^ amount)
  | eq => (decide (l = r)).toInt
  | ne => (decide (l ≠ r)).toInt
  | lt => (decide (l < r)).toInt
  | le => (decide (l ≤ r)).toInt
  | gt => (decide (l > r)).toInt
  | ge => (decide (l ≥ r)).toInt

theorem onIntegers_of_isComparison {op : Opcode} (h : op.isComparison = true) (l r : Int)
    (amount : Nat) : op.onIntegers l r amount = (op.holds (Ord.compare l r)).toInt := by
  rcases lt_trichotomy l r with hlt | heq | hgt
  · rw [compare_lt_iff_lt.mpr hlt]
    cases op <;> simp_all [onIntegers, holds, isComparison, hlt.le, hlt.ne, hlt.not_gt, hlt.not_ge]
  · rw [compare_eq_iff_eq.mpr heq]
    cases op <;> simp_all [onIntegers, holds, isComparison]
  · rw [compare_gt_iff_gt.mpr hgt]
    cases op <;> simp_all [onIntegers, holds, isComparison, hgt.le, hgt.ne', hgt.not_gt, hgt.not_ge]

theorem le_workingWidth (op : Opcode) (width l r : Nat) :
    width ≤ op.workingWidth width l r ∧ l ≤ op.workingWidth width l r ∧
      (op.isDivision = true → r ≤ op.workingWidth width l r) := by
  unfold workingWidth
  split
  · refine ⟨by omega, by omega, fun hdivision => ?_⟩
    cases op <;> simp_all [isUnary, isShift, isDivision]
  · omega

variable (op : Opcode) (signed : Bool) (width : Nat) (lhs rhs : Word)

/-- At the working width every operation is the one on integers, or divides by zero. -/
theorem eval?_eq : op.eval? signed width lhs rhs =
    if op.isDivision && rhs.isZero then none
    else some (.ofInt width (op.onIntegers (lhs.read signed) (rhs.read signed) rhs.toNat)) := by
  obtain ⟨hwidth, hl, hr⟩ := op.le_workingWidth width lhs.width rhs.width
  generalize hw : op.workingWidth width lhs.width rhs.width = w at hwidth hl hr
  have hcut {word : Word} {i : Int} (h : word = .ofInt w i) :
      some (word.truncate width) = some (.ofInt width i) := by
    rw [h, Word.truncate_ofInt hwidth]
  have hcompare (h : op.isComparison = true) :
      some (((Word.ofBool (op.holds ((lhs.resize (max lhs.width rhs.width) signed).compare
        (rhs.resize (max lhs.width rhs.width) signed) signed))).resize w false).truncate width) =
      some (.ofInt width (op.onIntegers (lhs.read signed) (rhs.read signed) rhs.toNat)) := by
    rw [Word.compare_resize (Nat.le_max_left ..) (Nat.le_max_right ..), onIntegers_of_isComparison h]
    exact hcut (Word.resize_ofBool _)
  unfold eval? evalBy?
  rw [hw]
  -- an operand at the working width is the pattern of its reading, as `resize` is defined
  cases op with
  | add => exact hcut (Word.add_ofInt _ _)
  | sub => exact hcut (Word.sub_ofInt _ _)
  | mul => exact hcut (Word.mul_ofInt _ _)
  | div =>
    simp only [Word.div?_resize hl (hr rfl), isDivision, Bool.true_and]
    cases rhs.isZero with
    | true => rfl
    | false => exact hcut rfl
  | mod =>
    simp only [Word.mod?_resize hl (hr rfl), isDivision, Bool.true_and]
    cases rhs.isZero with
    | true => rfl
    | false => exact hcut rfl
  | and => exact hcut (Word.and_ofInt _ _)
  | or => exact hcut (Word.or_ofInt _ _)
  | xor => exact hcut (Word.xor_ofInt _ _)
  | not => exact hcut (Word.not_ofInt _)
  | neg => exact hcut (Word.neg_ofInt _)
  | shl => exact hcut (Word.shl_ofInt _ _)
  | shr => exact hcut (Word.shr_resize hl _)
  | eq => exact hcompare rfl
  | ne => exact hcompare rfl
  | lt => exact hcompare rfl
  | le => exact hcompare rfl
  | gt => exact hcompare rfl
  | ge => exact hcompare rfl

/-- A shift goes no further than the working width, so that larger amounts may be capped there or
anywhere above. -/
theorem evalBy?_of_same_amount {op : Opcode} {width : Nat} {lhs rhs other : Word} {amount amount' : Nat}
    (hshift : op.isShift = true)
    (h : min amount' (max width lhs.width) = min amount (max width lhs.width)) :
    op.evalBy? signed width lhs other amount' = op.evalBy? signed width lhs rhs amount := by
  cases op with
  | shl =>
    have hsame : (lhs.resize (max width lhs.width) signed).shl amount' =
        (lhs.resize (max width lhs.width) signed).shl amount := by
      rw [← Word.shl_min, ← Word.shl_min _ amount, Word.width_resize, h]
    exact congrArg (fun word : Word => some (word.truncate width)) hsame
  | shr =>
    have hsame : (lhs.resize (max width lhs.width) signed).shr amount' signed =
        (lhs.resize (max width lhs.width) signed).shr amount signed := by
      rw [← Word.shr_min, ← Word.shr_min _ amount, Word.width_resize, h]
    exact congrArg (fun word : Word => some (word.truncate width)) hsame
  | _ => cases hshift

/-- Amounts in 64 bits are enough for all widths that are themselves below `2 ^ 64`. -/
theorem evalCapped?_eq (hwidth : width < 2 ^ 64) (hlhs : lhs.width < 2 ^ 64) :
    op.evalCapped? signed width lhs rhs = op.eval? signed width lhs rhs := by
  have hsize : UInt64.size = 2 ^ 64 := rfl
  cases hshift : op.isShift with
  | true =>
    refine evalBy?_of_same_amount signed hshift ?_
    rw [Word.unsigned64?]
    split
    · rfl
    · rw [Option.getD_none]
      omega
  | false => cases op <;> first | rfl | cases hshift

/-- The result of an operation is exact modulo `2 ^ width`: it has that width, and it is what the
operator gives on the readings of the operands, unless a division by zero leaves no result. How far a
shift goes beyond the width of its operand and of its result does not matter. -/
theorem results_are_exact :
    (∃ result : Word, result.width = width ∧
      (result.toNat : Int) =
        op.onIntegers (lhs.read signed) (rhs.read signed) rhs.toNat % 2 ^ width ∧
      op.eval? signed width lhs rhs =
        if (op = .div ∨ op = .mod) ∧ rhs.toNat = 0 then none else some result) ∧
    (op.isShift = true → ∀ other : Word,
      min other.toNat (max width lhs.width) = min rhs.toNat (max width lhs.width) →
      op.eval? signed width lhs other = op.eval? signed width lhs rhs) := by
  refine ⟨⟨_, Word.width_ofInt width _, Word.natCast_toNat_ofInt width _, ?_⟩,
    fun hshift other h => evalBy?_of_same_amount signed hshift h⟩
  have hdivision : (op.isDivision && rhs.isZero) = true ↔
      (op = .div ∨ op = .mod) ∧ rhs.toNat = 0 := by
    cases op <;> simp [isDivision, Word.isZero]
  rw [eval?_eq]
  simp only [hdivision]

/-- An amount that needs 70 bits is as good as the largest one of 64 bits: only the sign is left. The
least byte divided by minus one does not fit in a byte, and wraps. -/
theorem results_at_the_limits :
    shr.eval? true 4 (.ofInt 8 (-123)) (.ofNat 70 (2 ^ 69)) = some (.ofInt 4 (-1)) ∧
    ∃ result : Word, result.width = 8 ∧ (result.toNat : Int) = 128 % 2 ^ 8 ∧
      div.eval? true 8 (.ofInt 8 (-128)) (.ofInt 4 (-1)) = some result := by
  have hcapped : shr.eval? true 4 (.ofInt 8 (-123)) (.ofNat 64 (2 ^ 64 - 1)) =
      some (.ofInt 4 (-1)) := by decide
  have hshift := (results_are_exact .shr true 4 (.ofInt 8 (-123)) (.ofNat 64 (2 ^ 64 - 1))).2 rfl
    (.ofNat 70 (2 ^ 69)) (by decide)
  obtain ⟨result, hwidth, hnat, hresult⟩ :=
    (results_are_exact .div true 8 (.ofInt 8 (-128)) (.ofInt 4 (-1))).1
  rw [if_neg (by decide)] at hresult
  exact ⟨hshift.trans hcapped, result, hwidth, hnat, hresult⟩

end Opcode

end Netlist
