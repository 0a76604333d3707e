import Netlist.Text.Hex

namespace Netlist

/-- The number of patterns of `width` bits. -/
def Word.patterns (width : Nat) : Nat := 1 <<< width

theorem Word.patterns_pos (width : Nat) : 0 < Word.patterns width := by
  rw [Word.patterns, Nat.one_shiftLeft]
  exact Nat.two_pow_pos width

/-- A pattern of `width` bits, held as the natural number that it reads as. -/
structure Word where
  width : Nat
  toNat : Nat
  toNat_lt : toNat < Word.patterns width
deriving DecidableEq

namespace Word

/-- The low `width` bits of `n`. -/
def ofNat (width n : Nat) : Word :=
  ⟨width, n % patterns width, Nat.mod_lt _ (patterns_pos width)⟩

/-- The two's complement pattern of `i`. -/
def ofInt (width : Nat) (i : Int) : Word :=
  ofNat width (i % patterns width).toNat

def zero (width : Nat) : Word := ofNat width 0

def ofBool (b : Bool) : Word := ofNat 1 b.toNat

@[simp] theorem width_ofNat (w n : Nat) : (ofNat w n).width = w := rfl

@[simp] theorem toNat_ofNat (w n : Nat) : (ofNat w n).toNat = n % patterns w := rfl

theorem toNat_ofBool (b : Bool) : (ofBool b).toNat = b.toNat := by
  cases b <;> rfl

@[simp] theorem width_ofInt (w : Nat) (i : Int) : (ofInt w i).width = w := rfl

@[simp] theorem width_zero (w : Nat) : (zero w).width = w := rfl

def isZero (a : Word) : Bool := a.toNat == 0

def isTrue (a : Word) : Bool := !a.isZero

/-- The sign bit; a word of no bits has none. -/
def msb (a : Word) : Bool := patterns a.width ≤ 2 * a.toNat

def toInt (a : Word) : Int :=
  if a.msb then (a.toNat : Int) - patterns a.width else a.toNat

def read (a : Word) (signed : Bool) : Int :=
  if signed then a.toInt else a.toNat

/-- The unsigned reading, if 64 bits hold it. -/
def unsigned64? (a : Word) : Option Nat :=
  if a.toNat < UInt64.size then some a.toNat else none

/-- The signed reading, if 64 bits hold it. -/
def signed64? (a : Word) : Option Int :=
  if Int64.minValue.toInt ≤ a.toInt ∧ a.toInt ≤ Int64.maxValue.toInt then some a.toInt else none

/-- Widening extends by the sign when `signed` and by zeros otherwise; narrowing drops high bits. -/
def resize (a : Word) (width : Nat) (signed : Bool) : Word :=
  ofInt width (a.read signed)

def truncate (a : Word) (width : Nat) : Word := a.resize width false

@[simp] theorem width_resize (a : Word) (w : Nat) (s : Bool) : (a.resize w s).width = w := rfl

theorem ofNat_toNat {a : Word} {w : Nat} (h : a.width = w) : ofNat w a.toNat = a := by
  subst h
  simp [ofNat, Nat.mod_eq_of_lt a.toNat_lt]

theorem ofNat_toNat_ofNat (w n : Nat) : ofNat w (ofNat w n).toNat = ofNat w n := ofNat_toNat rfl

theorem resize_false (a : Word) (w : Nat) : a.resize w false = ofNat w a.toNat := by
  have hread : (a.read false % (patterns w : Int)).toNat = a.toNat % patterns w := by
    simp only [read, Bool.false_eq_true, if_false]
    omega
  simp [resize, ofInt, ofNat, hread]

@[simp] theorem width_truncate (a : Word) (w : Nat) : (a.truncate w).width = w := rfl

def compare (a b : Word) (signed : Bool) : Ordering :=
  Ord.compare (a.read signed) (b.read signed)

def add (a b : Word) : Word := ofNat a.width (a.toNat + b.toNat)

/-- Both operands are read at their own width, which matters only when the widths differ. -/
def sub (a b : Word) : Word := ofInt a.width (a.toInt - b.toInt)

def mul (a b : Word) : Word := ofNat a.width (a.toNat * b.toNat)

/-- The quotient truncated toward zero, or `none` for a zero divisor. -/
def div? (a b : Word) (signed : Bool) : Option Word :=
  if b.isZero then none else some (ofInt a.width ((a.read signed).tdiv (b.read signed)))

/-- The remainder, which has the sign of the dividend, or `none` for a zero divisor. -/
def mod? (a b : Word) (signed : Bool) : Option Word :=
  if b.isZero then none else some (ofInt a.width ((a.read signed).tmod (b.read signed)))

def and (a b : Word) : Word := ofNat a.width (a.toNat &&& b.toNat)

def or (a b : Word) : Word := ofNat a.width (a.toNat ||| b.toNat)

def xor (a b : Word) : Word := ofNat a.width (a.toNat ^^^ b.toNat)

def not (a : Word) : Word := ofNat a.width (a.toNat ^^^ (patterns a.width - 1))

def neg (a : Word) : Word := ofInt a.width (-a.toInt)

def shl (a : Word) (amount : Nat) : Word :=
  if a.width ≤ amount then zero a.width else ofNat a.width (a.toNat <<< amount)

/-- Shifts in copies of the sign when `signed` and zeros otherwise. -/
def shr (a : Word) (amount : Nat) (signed : Bool) : Word :=
  ofInt a.width (a.read signed >>> min amount a.width)

/-- Lowercase hexadecimal digits, without leading zeros. -/
def hex (a : Word) : String := String.ofList (Text.hexDigits a.toNat)

/-- A sized literal, such as `8'hff`. -/
def text (a : Word) : String := toString a.width ++ "'h" ++ a.hex

instance : ToString Word := ⟨text⟩

end Word

end Netlist
