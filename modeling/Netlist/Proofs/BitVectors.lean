import Mathlib
import Netlist.Word

namespace Netlist

namespace Word

variable {w : Nat}

theorem patterns_eq (w : Nat) : patterns w = 2 ^ w := Nat.one_shiftLeft w

def ofBitVec (x : BitVec w) : Word := ⟨w, x.toNat, by rw [patterns_eq]; exact x.isLt⟩

@[simp] theorem width_ofBitVec (x : BitVec w) : (ofBitVec x).width = w := rfl

@[simp] theorem toNat_ofBitVec (x : BitVec w) : (ofBitVec x).toNat = x.toNat := rfl

theorem ofNat_eq_ofBitVec (w n : Nat) : ofNat w n = ofBitVec (.ofNat w n) := by
  simp [ofNat, ofBitVec, patterns_eq]

theorem ofInt_eq_ofBitVec (w : Nat) (i : Int) : ofInt w i = ofBitVec (.ofInt w i) := by
  rw [ofInt, ofNat_eq_ofBitVec]
  congr 1
  apply BitVec.eq_of_toNat_eq
  have hlow : i % (2 ^ w : Nat) < (2 ^ w : Nat) := Int.emod_lt_of_pos i (by positivity)
  rw [patterns_eq, BitVec.toNat_ofNat, BitVec.toNat_ofInt, Nat.mod_eq_of_lt (by omega)]

theorem natCast_toNat_ofInt (w : Nat) (i : Int) : ((ofInt w i).toNat : Int) = i % 2 ^ w := by
  have hpos : (0 : Int) < 2 ^ w := by positivity
  have hnonneg := Int.emod_nonneg i hpos.ne'
  rw [ofInt_eq_ofBitVec, toNat_ofBitVec, BitVec.toNat_ofInt]
  push_cast
  omega

/-- Words of width `w` and bit vectors, matched by the number that they read as. -/
def equivBitVec (w : Nat) : { a : Word // a.width = w } ≃ BitVec w where
  toFun a := .ofNat w a.val.toNat
  invFun x := ⟨ofBitVec x, rfl⟩
  left_inv := by
    rintro ⟨a, rfl⟩
    apply Subtype.ext
    have hlt := a.toNat_lt
    rw [patterns_eq] at hlt
    simp [ofBitVec, Nat.mod_eq_of_lt hlt]
  right_inv x := by simp [ofBitVec]

/-- The truncating remainder has the sign of the number. Moved up once and reduced again, it is the
remainder that is never negative. -/
theorem ofInt_eq_ofNat_tmod (w : Nat) (i : Int) :
    ofInt w i = ofNat w ((i.tmod (2 ^ w) + 2 ^ w).tmod (2 ^ w)).natAbs := by
  have hpos : (0 : Int) < 2 ^ w := by positivity
  have hup : 0 ≤ i.tmod (2 ^ w) + 2 ^ w := by
    have hlow := Int.lt_tmod_of_pos i hpos
    omega
  have hwrapped : (i.tmod (2 ^ w) + 2 ^ w).tmod (2 ^ w) = i % 2 ^ w := by
    rw [Int.tmod_eq_emod_of_nonneg hup, Int.add_emod_right, Int.tmod_def, Int.sub_mul_emod_self_left]
  rw [hwrapped, ofInt, patterns_eq]
  push_cast
  congr 1
  have hnonneg := Int.emod_nonneg i hpos.ne'
  omega

section Readings

variable (x y : BitVec w)

theorem msb_ofBitVec : (ofBitVec x).msb = x.msb := by
  rw [Bool.eq_iff_iff, BitVec.msb_eq_true_iff_two_mul_ge]
  simp [msb, patterns_eq]

theorem toInt_ofBitVec : (ofBitVec x).toInt = x.toInt := by
  rw [toInt, msb_ofBitVec, BitVec.toInt_eq_msb_cond, patterns_eq]
  simp

theorem read_unsigned : (ofBitVec x).read false = x.toNat := rfl

theorem read_signed : (ofBitVec x).read true = x.toInt := toInt_ofBitVec x

theorem isZero_ofBitVec : (ofBitVec x).isZero = true ↔ x = 0 := by
  rw [isZero, toNat_ofBitVec, beq_iff_eq, BitVec.toNat_eq]
  simp

theorem unsigned64?_ofBitVec {n : Nat} :
    (ofBitVec x).unsigned64? = some n ↔ x.toNat = n ∧ n < 2 ^ 64 := by
  have hsize : UInt64.size = 2 ^ 64 := rfl
  rw [unsigned64?, toNat_ofBitVec, hsize, Option.ite_none_right_eq_some, Option.some_inj]
  omega

theorem signed64?_ofBitVec {i : Int} :
    (ofBitVec x).signed64? = some i ↔ x.toInt = i ∧ -2 ^ 63 ≤ i ∧ i < 2 ^ 63 := by
  have hmin : Int64.minValue.toInt = -2 ^ 63 := by decide
  have hmax : Int64.maxValue.toInt = 2 ^ 63 - 1 := by decide
  rw [signed64?, toInt_ofBitVec, hmin, hmax, Option.ite_none_right_eq_some, Option.some_inj]
  omega

theorem compare_unsigned : (ofBitVec x).compare (ofBitVec y) false =
    if x.ult y then .lt else if x = y then .eq else .gt := by
  have hlt : x.ult y = true ↔ (x.toNat : Int) < y.toNat := by simp [BitVec.ult_eq_decide]
  have heq : x = y ↔ (x.toNat : Int) = y.toNat := by rw [BitVec.toNat_eq, Int.natCast_inj]
  simp only [hlt, heq]
  rfl

theorem compare_signed : (ofBitVec x).compare (ofBitVec y) true =
    if x.slt y then .lt else if x = y then .eq else .gt := by
  have hlt : x.slt y = true ↔ x.toInt < y.toInt := by simp [BitVec.slt_eq_decide]
  rw [Word.compare, read_signed, read_signed]
  simp only [hlt, ← BitVec.toInt_inj]
  rfl

end Readings

section Operations

variable (x y : BitVec w)

theorem add_ofBitVec : (ofBitVec x).add (ofBitVec y) = ofBitVec (x + y) := by
  rw [add, ofNat_eq_ofBitVec]
  simp [BitVec.ofNat_add]

theorem mul_ofBitVec : (ofBitVec x).mul (ofBitVec y) = ofBitVec (x * y) := by
  rw [mul, ofNat_eq_ofBitVec]
  simp [BitVec.ofNat_mul]

theorem and_ofBitVec : (ofBitVec x).and (ofBitVec y) = ofBitVec (x &&& y) := by
  rw [Word.and, ofNat_eq_ofBitVec]
  simp

theorem or_ofBitVec : (ofBitVec x).or (ofBitVec y) = ofBitVec (x ||| y) := by
  rw [Word.or, ofNat_eq_ofBitVec]
  simp

theorem xor_ofBitVec : (ofBitVec x).xor (ofBitVec y) = ofBitVec (x ^^^ y) := by
  rw [Word.xor, ofNat_eq_ofBitVec]
  simp

theorem not_ofBitVec : (ofBitVec x).not = ofBitVec (~~~x) := by
  have hones : BitVec.ofNat w (patterns w - 1) = .allOnes w := by
    apply BitVec.eq_of_toNat_eq
    simp [patterns_eq]
  rw [Word.not, ofNat_eq_ofBitVec, BitVec.ofNat_xor, width_ofBitVec, hones]
  simp

theorem sub_ofBitVec : (ofBitVec x).sub (ofBitVec y) = ofBitVec (x - y) := by
  rw [sub, ofInt_eq_ofBitVec, toInt_ofBitVec, toInt_ofBitVec]
  congr 1
  apply BitVec.eq_of_toInt_eq
  simp

theorem neg_ofBitVec : (ofBitVec x).neg = ofBitVec (-x) := by
  rw [neg, ofInt_eq_ofBitVec, toInt_ofBitVec]
  simp [BitVec.ofInt_neg]

theorem shl_ofBitVec (amount : Nat) : (ofBitVec x).shl amount = ofBitVec (x <<< amount) := by
  rw [shl, zero, ofNat_eq_ofBitVec, ofNat_eq_ofBitVec]
  split
  · next h =>
    congr 1
    exact (BitVec.shiftLeft_eq_zero h).symm
  · congr 1

/-- Once all bits are shifted out, only the sign is left. -/
theorem shiftRight_min {i : Int} (hlow : -2 ^ w ≤ i) (hhigh : i < 2 ^ w) (amount : Nat) :
    i >>> min amount w = i >>> amount := by
  rcases Nat.le_total amount w with h | h
  · rw [Nat.min_eq_left h]
  · have hpow : (2 : Int) ^ w ≤ 2 ^ amount := pow_le_pow_right₀ (by norm_num) h
    rw [Nat.min_eq_right h, Int.shiftRight_eq_div_pow, Int.shiftRight_eq_div_pow]
    push_cast
    rcases lt_or_ge i 0 with hneg | hnonneg
    · rw [Int.ediv_eq_neg_one_of_neg_of_le hneg (by omega),
        Int.ediv_eq_neg_one_of_neg_of_le hneg (by omega)]
    · rw [Int.ediv_eq_zero_of_lt hnonneg hhigh, Int.ediv_eq_zero_of_lt hnonneg (by omega)]

theorem shr_unsigned (amount : Nat) : (ofBitVec x).shr amount false = ofBitVec (x >>> amount) := by
  have hlow : -2 ^ w ≤ (x.toNat : Int) := by
    have hpos : (0 : Int) < 2 ^ w := by positivity
    omega
  have hhigh : (x.toNat : Int) < 2 ^ w := by exact_mod_cast x.isLt
  rw [shr, ofInt_eq_ofBitVec, read_unsigned, width_ofBitVec, shiftRight_min hlow hhigh,
    ← Int.natCast_shiftRight, BitVec.ofInt_natCast, ← BitVec.toNat_ushiftRight, BitVec.ofNat_toNat,
    BitVec.setWidth_eq]

theorem shr_signed (amount : Nat) :
    (ofBitVec x).shr amount true = ofBitVec (x.sshiftRight amount) := by
  have hlow := x.le_two_mul_toInt
  have hhigh := x.two_mul_toInt_lt
  have hpos : (0 : Int) < 2 ^ w := by positivity
  rw [shr, ofInt_eq_ofBitVec, read_signed, width_ofBitVec,
    shiftRight_min (by omega) (by omega)]
  rfl

theorem div?_unsigned : (ofBitVec x).div? (ofBitVec y) false =
    if y = 0 then none else some (ofBitVec (x / y)) := by
  have hquotient : BitVec.ofInt w ((x.toNat : Int).tdiv y.toNat) = x / y := by
    rw [← Int.ofNat_tdiv, BitVec.ofInt_natCast]
    apply BitVec.eq_of_toNat_eq
    rw [BitVec.toNat_ofNat, BitVec.toNat_udiv]
    exact Nat.mod_eq_of_lt (Nat.lt_of_le_of_lt (Nat.div_le_self _ _) x.isLt)
  simp only [div?, isZero_ofBitVec, ofInt_eq_ofBitVec, width_ofBitVec, read_unsigned, hquotient]

theorem div?_signed : (ofBitVec x).div? (ofBitVec y) true =
    if y = 0 then none else some (ofBitVec (x.sdiv y)) := by
  have hquotient : BitVec.ofInt w (x.toInt.tdiv y.toInt) = x.sdiv y := by
    apply BitVec.eq_of_toInt_eq
    rw [BitVec.toInt_ofInt, BitVec.toInt_sdiv]
  simp only [div?, isZero_ofBitVec, ofInt_eq_ofBitVec, width_ofBitVec, read_signed, hquotient]

theorem mod?_unsigned : (ofBitVec x).mod? (ofBitVec y) false =
    if y = 0 then none else some (ofBitVec (x % y)) := by
  have hrest : BitVec.ofInt w ((x.toNat : Int).tmod y.toNat) = x % y := by
    rw [← Int.ofNat_tmod, BitVec.ofInt_natCast]
    apply BitVec.eq_of_toNat_eq
    rw [BitVec.toNat_ofNat, BitVec.toNat_umod]
    exact Nat.mod_eq_of_lt (Nat.lt_of_le_of_lt (Nat.mod_le _ _) x.isLt)
  simp only [mod?, isZero_ofBitVec, ofInt_eq_ofBitVec, width_ofBitVec, read_unsigned, hrest]

theorem mod?_signed : (ofBitVec x).mod? (ofBitVec y) true =
    if y = 0 then none else some (ofBitVec (x.srem y)) := by
  have hrest : BitVec.ofInt w (x.toInt.tmod y.toInt) = x.srem y := by
    rw [← BitVec.toInt_srem, BitVec.ofInt_toInt]
  simp only [mod?, isZero_ofBitVec, ofInt_eq_ofBitVec, width_ofBitVec, read_signed, hrest]

end Operations

/-- The least number divided by minus one is out of range, and wraps to itself. -/
theorem div?_least (hw : 1 ≤ w) :
    (ofInt w (-2 ^ (w - 1))).div? (ofInt w (-1)) true = some (ofInt w (-2 ^ (w - 1))) := by
  have hleast : BitVec.ofInt w (-2 ^ (w - 1)) = .intMin w := by
    rw [← BitVec.toInt_intMin_of_pos hw, BitVec.ofInt_toInt]
  have hminus : BitVec.ofInt w (-1) = -1#w := BitVec.ofInt_neg
  have hne : -1#w ≠ 0 := by
    intro h
    have hzero := BitVec.neg_one_eq_zero_iff.mp h
    omega
  rw [ofInt_eq_ofBitVec, ofInt_eq_ofBitVec, hleast, hminus, div?_signed, if_neg hne,
    BitVec.intMin_sdiv_neg_one]

/-- Words of `w` bits are bit vectors, and what is done with them is what is done with bit vectors. -/
structure AreBitVecs (w : Nat) : Prop where
  bijective : Function.Bijective (equivBitVec w)
  symm_eq : ∀ x : BitVec w, ((equivBitVec w).symm x).val = ofBitVec x
  ofNat : ∀ n : Nat, (ofNat w n).toNat = n % 2 ^ w ∧ ofNat w n = ofBitVec (.ofNat w n)
  ofInt : ∀ i : Int, (ofInt w i).toNat = i % 2 ^ w ∧ ofInt w i = ofBitVec (.ofInt w i)
  /-- The same reduction by remainders that truncate. -/
  ofInt_tmod : ∀ i : Int, Word.ofInt w i = .ofNat w ((i.tmod (2 ^ w) + 2 ^ w).tmod (2 ^ w)).natAbs
  toInt : ∀ x : BitVec w, (ofBitVec x).toInt = x.toInt
  toInt_range : ∀ x : BitVec w, -2 ^ (w - 1) ≤ (ofBitVec x).toInt ∧ (ofBitVec x).toInt < 2 ^ (w - 1)
  add : ∀ x y : BitVec w, (ofBitVec x).add (ofBitVec y) = ofBitVec (x + y)
  sub : ∀ x y : BitVec w, (ofBitVec x).sub (ofBitVec y) = ofBitVec (x - y)
  mul : ∀ x y : BitVec w, (ofBitVec x).mul (ofBitVec y) = ofBitVec (x * y)
  neg : ∀ x : BitVec w, (ofBitVec x).neg = ofBitVec (-x)
  not : ∀ x : BitVec w, (ofBitVec x).not = ofBitVec (~~~x)
  and : ∀ x y : BitVec w, (ofBitVec x).and (ofBitVec y) = ofBitVec (x &&& y)
  or : ∀ x y : BitVec w, (ofBitVec x).or (ofBitVec y) = ofBitVec (x ||| y)
  xor : ∀ x y : BitVec w, (ofBitVec x).xor (ofBitVec y) = ofBitVec (x ^^^ y)
  shl : ∀ (x : BitVec w) (amount : Nat), (ofBitVec x).shl amount = ofBitVec (x <<< amount)
  shr : ∀ (x : BitVec w) (amount : Nat), (ofBitVec x).shr amount false = ofBitVec (x >>> amount)
  shr_signed : ∀ (x : BitVec w) (amount : Nat),
    (ofBitVec x).shr amount true = ofBitVec (x.sshiftRight amount)
  div : ∀ x y : BitVec w, (ofBitVec x).div? (ofBitVec y) false =
    if y = 0 then none else some (ofBitVec (x / y))
  div_signed : ∀ x y : BitVec w, (ofBitVec x).div? (ofBitVec y) true =
    if y = 0 then none else some (ofBitVec (x.sdiv y))
  div_least : (Word.ofInt w (-2 ^ (w - 1))).div? (.ofInt w (-1)) true =
    some (.ofInt w (-2 ^ (w - 1)))
  mod : ∀ x y : BitVec w, (ofBitVec x).mod? (ofBitVec y) false =
    if y = 0 then none else some (ofBitVec (x % y))
  mod_signed : ∀ x y : BitVec w, (ofBitVec x).mod? (ofBitVec y) true =
    if y = 0 then none else some (ofBitVec (x.srem y))
  compare : ∀ x y : BitVec w, (ofBitVec x).compare (ofBitVec y) false =
    if x.ult y then .lt else if x = y then .eq else .gt
  compare_signed : ∀ x y : BitVec w, (ofBitVec x).compare (ofBitVec y) true =
    if x.slt y then .lt else if x = y then .eq else .gt
  unsigned64 : ∀ (x : BitVec w) (n : Nat), (ofBitVec x).unsigned64? = some n ↔
    x.toNat = n ∧ n < 2 ^ 64
  signed64 : ∀ (x : BitVec w) (i : Int), (ofBitVec x).signed64? = some i ↔
    x.toInt = i ∧ -2 ^ 63 ≤ i ∧ i < 2 ^ 63

/-- Words of one width are the bit vectors of that width: numbers are reduced to them modulo `2 ^ w`,
the signed reading is two's complement, every operation on words of that width is the one on bit
vectors, and the readings in 64 bits are there exactly when they fit. -/
theorem words_are_bitVecs (hw : 1 ≤ w) : AreBitVecs w where
  bijective := (equivBitVec w).bijective
  symm_eq _ := rfl
  ofNat n := ⟨by rw [toNat_ofNat, patterns_eq], ofNat_eq_ofBitVec w n⟩
  ofInt i := ⟨natCast_toNat_ofInt w i, ofInt_eq_ofBitVec w i⟩
  ofInt_tmod := ofInt_eq_ofNat_tmod w
  toInt := toInt_ofBitVec
  toInt_range x := by
    rw [toInt_ofBitVec]
    exact ⟨x.le_toInt, x.toInt_lt⟩
  add := add_ofBitVec
  sub := sub_ofBitVec
  mul := mul_ofBitVec
  neg := neg_ofBitVec
  not := not_ofBitVec
  and := and_ofBitVec
  or := or_ofBitVec
  xor := xor_ofBitVec
  shl := shl_ofBitVec
  shr := shr_unsigned
  shr_signed := shr_signed
  div := div?_unsigned
  div_signed := div?_signed
  div_least := div?_least hw
  mod := mod?_unsigned
  mod_signed := mod?_signed
  compare := compare_unsigned
  compare_signed := compare_signed
  unsigned64 x _ := unsigned64?_ofBitVec x
  signed64 x _ := signed64?_ofBitVec x

/-- At the sign boundary of bytes: the least one divided by minus one, the greatest one plus one, and a
shift beyond the width. -/
theorem bytes_are_bitVecs :
    1 ≤ 8 ∧ (ofInt 8 (-128)).div? (ofInt 8 (-1)) true = some (ofInt 8 (-128)) ∧
      (ofBitVec 127#8).add (ofBitVec 1#8) = ofBitVec (BitVec.intMin 8) ∧
      (ofBitVec (-3#8)).shr 40 true = ofBitVec (-1#8) := by
  have h := words_are_bitVecs (by decide : 1 ≤ 8)
  refine ⟨by decide, h.div_least, ?_, ?_⟩
  · rw [h.add]
    rfl
  · rw [h.shr_signed]
    rfl

end Word

end Netlist
