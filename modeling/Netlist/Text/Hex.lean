namespace Netlist.Text

/-- The last `k` digits of a number, leading zeros included, in front of others. -/
def lowHex : Nat → Nat → List Char → List Char
  | 0, _, tail => tail
  | k + 1, n, tail => lowHex k (n / 16) ((n % 16).digitChar :: tail)

def hexBlock : Nat := 256

/-- The digits of a number in front of others, with up to `blocks` blocks cut off at its end first. -/
def hexOnto : Nat → Nat → List Char → List Char
  | 0, n, tail => Nat.toDigits 16 n ++ tail
  | blocks + 1, n, tail =>
    let high := n >>> (4 * hexBlock)
    if high = 0 then Nat.toDigits 16 n ++ tail
    else hexOnto blocks high (lowHex hexBlock (n % 1 <<< (4 * hexBlock)) tail)

/-- Lowercase digits, without leading zeros. -/
def hexDigits (n : Nat) : List Char := hexOnto (n.log2 / (4 * hexBlock)) n []

theorem lowHex_mod (k n : Nat) (tail : List Char) :
    lowHex k (n % 1 <<< (4 * k)) tail = lowHex k n tail := by
  induction k generalizing n tail with
  | zero => rfl
  | succ k ih =>
    have hpow : 1 <<< (4 * (k + 1)) = 16 * 1 <<< (4 * k) := by
      rw [Nat.one_shiftLeft, Nat.one_shiftLeft, Nat.mul_succ, Nat.pow_add, Nat.mul_comm]
    rw [lowHex, lowHex, hpow, Nat.mod_mul_right_div_self, Nat.mod_mul_right_mod, ih]

theorem toDigits_append_lowHex (k n : Nat) (tail : List Char) (h : n >>> (4 * k) ≠ 0) :
    Nat.toDigits 16 (n >>> (4 * k)) ++ lowHex k n tail = Nat.toDigits 16 n ++ tail := by
  induction k generalizing n tail with
  | zero => rfl
  | succ k ih =>
    have hshift : n >>> (4 * (k + 1)) = (n / 16) >>> (4 * k) := by
      rw [Nat.mul_succ, Nat.add_comm, Nat.shiftRight_add, Nat.shiftRight_eq_div_pow n 4]
    rw [hshift] at h ⊢
    have hle : 16 ≤ n := by
      apply Nat.le_of_not_lt
      intro hlt
      rw [Nat.div_eq_of_lt hlt, Nat.zero_shiftRight] at h
      exact h rfl
    rw [lowHex, ih _ _ h, Nat.toDigits_of_base_le (by decide) hle, List.append_assoc]
    rfl

theorem hexOnto_eq (blocks n : Nat) (tail : List Char) :
    hexOnto blocks n tail = Nat.toDigits 16 n ++ tail := by
  induction blocks generalizing n tail with
  | zero => rfl
  | succ blocks ih =>
    rw [hexOnto]
    split
    · rfl
    · rename_i h
      rw [ih, lowHex_mod, toDigits_append_lowHex _ _ _ h]

/-- Cutting a number into blocks does not change its digits. -/
theorem hexDigits_eq (n : Nat) : hexDigits n = Nat.toDigits 16 n := by
  rw [hexDigits, hexOnto_eq, List.append_nil]

/-- A number is written as a digit, or as a positive number with a digit behind it. -/
theorem toDigits_induction {base : Nat} {motive : Nat → List Char → Prop} (hbase : 1 < base)
    (single : ∀ d < base, motive d [d.digitChar])
    (behind : ∀ n d text, n ≠ 0 → d < base → motive n text →
      motive (base * n + d) (text ++ [d.digitChar]))
    (n : Nat) : motive n (Nat.toDigits base n) := by
  induction n using Nat.strongRecOn with
  | ind n ih =>
    by_cases h : n < base
    · rw [Nat.toDigits_of_lt_base h]
      exact single n h
    · have hhigh : n / base ≠ 0 := Nat.ne_of_gt (Nat.div_pos (by omega) (by omega))
      have hlast : n % base < base := Nat.mod_lt n (by omega)
      have hless : n / base < n := Nat.div_lt_self (by omega) hbase
      have hwhole := behind (n / base) (n % base) _ hhigh hlast (ih (n / base) hless)
      rwa [Nat.div_add_mod, ← Nat.toDigits_of_base_le hbase (by omega)] at hwhole

end Netlist.Text
