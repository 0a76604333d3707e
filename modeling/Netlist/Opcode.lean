import Netlist.Word

namespace Netlist

inductive Opcode where
  | add | sub | mul | div | mod
  | and | or | xor | not | neg
  | shl | shr
  | eq | ne | lt | le | gt | ge
deriving DecidableEq

namespace Opcode

def all : List Opcode :=
  [add, sub, mul, div, mod, and, or, xor, not, neg, shl, shr, eq, ne, lt, le, gt, ge]

def isUnary : Opcode → Bool
  | not | neg => true
  | _ => false

def isComparison : Opcode → Bool
  | eq | ne | lt | le | gt | ge => true
  | _ => false

def isShift : Opcode → Bool
  | shl | shr => true
  | _ => false

def arity (op : Opcode) : Nat := if op.isUnary then 1 else 2

def resultWidth (op : Opcode) (lhs : Nat) (rhs : Option Nat) : Nat :=
  if op.isComparison then 1
  else if op.isUnary || op.isShift then lhs
  else max lhs (rhs.getD lhs)

/-- The Verilog operator for unsigned operands. -/
def symbol : Opcode → String
  | add => "+" | sub => "-" | mul => "*" | div => "/" | mod => "%"
  | and => "&" | or => "|" | xor => "^" | not => "~" | neg => "-"
  | shl => "<<" | shr => ">>"
  | eq => "==" | ne => "!=" | lt => "<" | le => "<=" | gt => ">" | ge => ">="

def mnemonic : Opcode → String
  | add => "add" | sub => "sub" | mul => "mul" | div => "div" | mod => "mod"
  | and => "and" | or => "or" | xor => "xor" | not => "not" | neg => "neg"
  | shl => "shl" | shr => "shr"
  | eq => "eq" | ne => "ne" | lt => "lt" | le => "le" | gt => "gt" | ge => "ge"

instance : ToString Opcode := ⟨mnemonic⟩

def signedMnemonic (op : Opcode) (signed : Bool) : String :=
  (if signed then "s" else "") ++ op.mnemonic

def ofMnemonic? (s : String) : Option Opcode := all.find? (·.mnemonic == s)

def holds (op : Opcode) (o : Ordering) : Bool :=
  match op with
  | eq => o.isEq
  | ne => o.isNe
  | lt => o.isLT
  | le => o.isLE
  | gt => o.isGT
  | ge => o.isGE
  | _ => false

def isDivision : Opcode → Bool
  | div | mod => true
  | _ => false

/-- The width at which an operation computes before its result is cut to `width`. A unary operation
and a shift take it from their left operand alone. -/
def workingWidth (op : Opcode) (width lhs rhs : Nat) : Nat :=
  if op.isUnary || op.isShift then max width lhs else max (max width lhs) rhs

/-- The result in `width` bits, or `none` for a division by zero. Operands are extended, by sign when
`signed`, to the working width; comparisons extend them to the wider of the two. A shift goes by
`amount`. -/
def evalBy? (op : Opcode) (signed : Bool) (width : Nat) (lhs rhs : Word) (amount : Nat) :
    Option Word :=
  let w := op.workingWidth width lhs.width rhs.width
  let a := lhs.resize w signed
  let b := rhs.resize w signed
  let common := max lhs.width rhs.width
  let result : Option Word :=
    match op with
    | add => some (a.add b)
    | sub => some (a.sub b)
    | mul => some (a.mul b)
    | div => a.div? b signed
    | mod => a.mod? b signed
    | and => some (a.and b)
    | or => some (a.or b)
    | xor => some (a.xor b)
    | not => some a.not
    | neg => some a.neg
    | shl => some (a.shl amount)
    | shr => some (a.shr amount signed)
    | eq | ne | lt | le | gt | ge =>
      let o := (lhs.resize common signed).compare (rhs.resize common signed) signed
      some ((Word.ofBool (op.holds o)).resize w false)
  result.map (·.truncate width)

/-- The result in `width` bits, where a shift goes as far as its right operand says. -/
def eval? (op : Opcode) (signed : Bool) (width : Nat) (lhs rhs : Word) : Option Word :=
  op.evalBy? signed width lhs rhs rhs.toNat

/-- The result if amounts that do not fit in 64 bits are replaced by the largest one that does. At widths
of fewer than `2 ^ 64` bits it is the same. -/
def evalCapped? (op : Opcode) (signed : Bool) (width : Nat) (lhs rhs : Word) : Option Word :=
  op.evalBy? signed width lhs rhs (rhs.unsigned64?.getD (UInt64.size - 1))

end Opcode

end Netlist
