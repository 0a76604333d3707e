namespace Netlist.CommandLine

inductive NumberFault where
  | empty | invalidDigit | tooLarge
deriving DecidableEq

def NumberFault.message : NumberFault → String
  | empty => "cannot parse integer from empty string"
  | invalidDigit => "invalid digit found in string"
  | tooLarge => "number too large to fit in target type"

/-- Reads on from the number `n`. The first fault from the left is the one that counts. -/
def readDigits (limit : Nat) : Nat → List Char → Except NumberFault Nat
  | n, [] => .ok n
  | n, c :: cs =>
    if c.isDigit then
      let next := 10 * n + (c.toNat - '0'.toNat)
      if next ≤ limit then readDigits limit next cs else .error .tooLarge
    else .error .invalidDigit

/-- A sign needs a digit after it. -/
def readNumber (limit : Nat) (s : String) : Except NumberFault Nat :=
  match s.toList with
  | [] => .error .empty
  | ['+'] => .error .invalidDigit
  | '+' :: digits => readDigits limit 0 digits
  | digits => readDigits limit 0 digits

end Netlist.CommandLine
