import Mathlib
import Netlist.Proofs.ExactIntegers
import Netlist.Proofs.VerilogText

namespace Netlist

namespace Word

variable {w : Nat}

/-- The bits at another width: extended by copies of the sign if `signed` and by zeros otherwise, or
cut. -/
def bits (a : Word) (width : Nat) (signed : Bool) : BitVec width :=
  let x := BitVec.ofNat a.width a.toNat
  if signed then x.signExtend width else x.setWidth width

theorem bits_unsigned (x : BitVec w) (width : Nat) : (ofBitVec x).bits width false = x.setWidth width := by
  simp [bits]

theorem bits_signed (x : BitVec w) (width : Nat) : (ofBitVec x).bits width true = x.signExtend width := by
  simp [bits]

theorem resize_eq (a : Word) (width : Nat) (signed : Bool) :
    a.resize width signed = ofBitVec (a.bits width signed) := by
  obtain ⟨w, x, rfl⟩ := a.exists_ofBitVec
  rw [resize, ofInt_eq_ofBitVec]
  cases signed with
  | true =>
    rw [read_signed, bits_signed]
    rfl
  | false => rw [read_unsigned, bits_unsigned, BitVec.ofInt_natCast, BitVec.ofNat_toNat]

theorem truncate_ofBitVec (x : BitVec w) (width : Nat) :
    (ofBitVec x).truncate width = ofBitVec (x.setWidth width) := by
  rw [truncate, resize_eq, bits_unsigned]

theorem ofBool_eq (b : Bool) : ofBool b = ofBitVec (BitVec.ofBool b) := by
  cases b <;> rfl

theorem setWidth_bits {a : Word} {width : Nat} (h : width ≤ w) :
    (a.bits w false).setWidth width = a.bits width false := by
  obtain ⟨v, x, rfl⟩ := a.exists_ofBitVec
  rw [bits_unsigned, bits_unsigned, BitVec.setWidth_setWidth_of_le x h]

end Word

namespace Verilog

open Naming (isName isIdentChar all_isIdentChar notMem_of_isName)
open Text (toList_append_append dropPrefix?_append)

/-- A binary operator by the rule that brings its operands to a width: that of the target or of the wider
operand for arithmetic, that of the wider operand for a comparison, and that of the target or of the left
operand for a shift, whose amount is a number. A quotient by zero has unknown bits. -/
inductive Binary where
  | arithmetic (on : (w : Nat) → (signed : Bool) → BitVec w → BitVec w → Option (BitVec w))
  | comparison (on : (w : Nat) → (signed : Bool) → BitVec w → BitVec w → Bool)
  | shift (on : (w : Nat) → (signed : Bool) → BitVec w → Nat → BitVec w)

namespace Binary

def ofSymbol? : String → Option Binary
  | "+" => some (arithmetic fun _ _ x y => some (x + y))
  | "-" => some (arithmetic fun _ _ x y => some (x - y))
  | "*" => some (arithmetic fun _ _ x y => some (x * y))
  | "/" => some (arithmetic fun _ signed x y =>
      if y = 0 then none else some (if signed then x.sdiv y else x / y))
  | "%" => some (arithmetic fun _ signed x y =>
      if y = 0 then none else some (if signed then x.srem y else x % y))
  | "&" => some (arithmetic fun _ _ x y => some (x &&& y))
  | "|" => some (arithmetic fun _ _ x y => some (x ||| y))
  | "^" => some (arithmetic fun _ _ x y => some (x ^^^ y))
  | "<<" | "<<<" => some (shift fun _ _ x amount => x <<< amount)
  | ">>" => some (shift fun _ _ x amount => x >>> amount)
  | ">>>" => some (shift fun _ signed x amount => if signed then x.sshiftRight amount else x >>> amount)
  | "==" => some (comparison fun _ _ x y => x == y)
  | "!=" => some (comparison fun _ _ x y => x != y)
  | "<" => some (comparison fun _ signed x y => if signed then x.slt y else x.ult y)
  | "<=" => some (comparison fun _ signed x y => if signed then x.sle y else x.ule y)
  | ">" => some (comparison fun _ signed x y => if signed then y.slt x else y.ult x)
  | ">=" => some (comparison fun _ signed x y => if signed then y.sle x else y.ule x)
  | _ => none

def result? (operator : Binary) (width : Nat) (a b : Word) (aSigned bSigned : Bool) : Option Word :=
  let signed := aSigned && bSigned
  match operator with
  | arithmetic on =>
    let w := max (max width a.width) b.width
    (on w signed (a.bits w signed) (b.bits w signed)).map fun x => .ofBitVec (x.setWidth width)
  | comparison on =>
    let w := max a.width b.width
    -- a comparison is one unsigned bit
    let bit := BitVec.ofBool (on w signed (a.bits w signed) (b.bits w signed))
    some (.ofBitVec (bit.setWidth width))
  | shift on =>
    let w := max width a.width
    some (.ofBitVec ((on w aSigned (a.bits w aSigned) b.toNat).setWidth width))

end Binary

/-- A unary operator on the bits of its operand at the width of the target or its own. -/
def unary? (symbol : String) (width : Nat) (a : Word) (signed : Bool) : Option Word :=
  let x := a.bits (max width a.width) signed
  match symbol with
  | "~" => some (.ofBitVec ((~~~x).setWidth width))
  | "-" => some (.ofBitVec ((-x).setWidth width))
  | _ => none

inductive Term where
  | operand (operand : Operand)
  | unary (symbol : String) (operand : Operand)
  | binary (lhs : Operand) (symbol : String) (rhs : Operand)
  | choice (condition yes no : Operand)
deriving DecidableEq

def Term.eval? (values : String → Option Word) (width : Nat) : Term → Option Word
  | operand o => (values o.name).map fun a => .ofBitVec (a.bits width o.signed)
  | unary symbol o => (values o.name).bind fun a => unary? symbol width a o.signed
  | binary lhs symbol rhs => do
    let a ← values lhs.name
    let b ← values rhs.name
    let operator ← Binary.ofSymbol? symbol
    operator.result? width a b lhs.signed rhs.signed
  | choice condition yes no => do
    let c ← values condition.name
    let a ← values yes.name
    let b ← values no.name
    let signed := yes.signed && no.signed
    let w := max width (max a.width b.width)
    let x := if c.isTrue then a.bits w signed else b.bits w signed
    return .ofBitVec (x.setWidth width)

section Meaning

open Word

variable {w width : Nat} {a b : Word} {signed bSigned : Bool}

section Readings

variable (signed : Bool) (x y : BitVec w)

theorem eq_read : (x == y) = decide ((ofBitVec x).read signed = (ofBitVec y).read signed) := by
  rw [Bool.beq_eq_decide_eq, decide_eq_decide]
  cases signed with
  | true => rw [read_signed, read_signed, BitVec.toInt_inj]
  | false => rw [read_unsigned, read_unsigned, Int.natCast_inj, BitVec.toNat_inj]

theorem ne_read : (x != y) = decide ((ofBitVec x).read signed ≠ (ofBitVec y).read signed) := by
  rw [bne, eq_read signed, decide_not]

theorem lt_read : (if signed then x.slt y else x.ult y) =
    decide ((ofBitVec x).read signed < (ofBitVec y).read signed) := by
  cases signed with
  | true => simp only [read_signed, BitVec.slt_eq_decide, if_true]
  | false => simp [read_unsigned, BitVec.ult_eq_decide]

theorem le_read : (if signed then x.sle y else x.ule y) =
    decide ((ofBitVec x).read signed ≤ (ofBitVec y).read signed) := by
  cases signed with
  | true => simp only [read_signed, BitVec.sle_eq_decide, if_true]
  | false => simp [read_unsigned, BitVec.ule_eq_decide]

theorem div?_ofBitVec : (ofBitVec x).div? (ofBitVec y) signed =
    (if y = 0 then none else some (if signed then x.sdiv y else x / y)).map ofBitVec := by
  cases signed with
  | true =>
    rw [div?_signed]
    split <;> rfl
  | false =>
    rw [div?_unsigned]
    split <;> rfl

theorem mod?_ofBitVec : (ofBitVec x).mod? (ofBitVec y) signed =
    (if y = 0 then none else some (if signed then x.srem y else x % y)).map ofBitVec := by
  cases signed with
  | true =>
    rw [mod?_signed]
    split <;> rfl
  | false =>
    rw [mod?_unsigned]
    split <;> rfl

end Readings

theorem result?_arithmetic {on : (w : Nat) → Bool → BitVec w → BitVec w → Option (BitVec w)}
    {f : Word → Word → Option Word} (hsigned : (signed && bSigned) = signed)
    (hon : ∀ {w : Nat} (x y : BitVec w), f (ofBitVec x) (ofBitVec y) = (on w signed x y).map ofBitVec) :
    (Binary.arithmetic on).result? width a b signed bSigned =
      (f (a.resize (max (max width a.width) b.width) signed)
        (b.resize (max (max width a.width) b.width) signed)).map (·.truncate width) := by
  rw [resize_eq, resize_eq, hon, Binary.result?, Option.map_map, hsigned]
  congr 1
  funext x
  exact (truncate_ofBitVec x width).symm

/-- A comparison is the relation of its symbol on the readings of the operands. -/
theorem result?_comparison {op : Opcode} {on : (w : Nat) → Bool → BitVec w → BitVec w → Bool}
    (hsigned : (signed && bSigned) = signed) (hop : op.isComparison = true)
    (hon : ∀ {w : Nat} (x y : BitVec w), (on w signed x y).toInt =
      op.onIntegers ((ofBitVec x).read signed) ((ofBitVec y).read signed) 0) :
    (Binary.comparison on).result? width a b signed bSigned = op.eval? signed width a b := by
  have hread : op.onIntegers (a.read signed) (b.read signed) b.toNat =
      (on (max a.width b.width) signed (a.bits _ signed) (b.bits _ signed)).toInt := by
    rw [hon, ← resize_eq, ← resize_eq, read_resize (Nat.le_max_left ..),
      read_resize (Nat.le_max_right ..), Opcode.onIntegers_of_isComparison hop,
      Opcode.onIntegers_of_isComparison hop]
  have hdivision : op.isDivision = false := by
    cases op <;> simp_all [Opcode.isComparison, Opcode.isDivision]
  rw [Opcode.eval?_eq, hdivision, hread, ← resize_ofBool, ofBool_eq, resize_eq, bits_unsigned,
    Binary.result?, hsigned]
  rfl

theorem result?_shift {on : (w : Nat) → Bool → BitVec w → Nat → BitVec w} {f : Word → Nat → Word}
    (hon : ∀ {w : Nat} (x : BitVec w) (amount : Nat),
      f (ofBitVec x) amount = ofBitVec (on w signed x amount)) :
    (Binary.shift on).result? width a b signed bSigned =
      some ((f (a.resize (max width a.width) signed) b.toNat).truncate width) := by
  rw [resize_eq, hon, truncate_ofBitVec, Binary.result?]

/-- The text of a binary operation computes what the operation does: in the symbol, in how the operands
are extended and in the result for each of them. -/
theorem result?_binarySymbol {op : Opcode} (hop : op.isUnary = false) (name : String) :
    ((Binary.ofSymbol? (binarySymbol op ⟨name, signed⟩)).bind fun operator =>
      operator.result? width a b signed (signed && !op.isShift)) = op.eval? signed width a b := by
  have hsymbol {operator : Binary}
      (h : Binary.ofSymbol? (binarySymbol op ⟨name, signed⟩) = some operator)
      (hresult : operator.result? width a b signed (signed && !op.isShift) =
        op.eval? signed width a b) :
      ((Binary.ofSymbol? (binarySymbol op ⟨name, signed⟩)).bind fun operator =>
        operator.result? width a b signed (signed && !op.isShift)) = op.eval? signed width a b := by
    rw [h, Option.bind_some, hresult]
  have hboth (h : op.isShift = false) : (signed && (signed && !op.isShift)) = signed := by simp [h]
  cases op with
  | not => cases hop
  | neg => cases hop
  | add =>
    exact hsymbol rfl (result?_arithmetic (f := fun x y => some (x.add y)) (hboth rfl)
      fun x y => congrArg some (add_ofBitVec x y))
  | sub =>
    exact hsymbol rfl (result?_arithmetic (f := fun x y => some (x.sub y)) (hboth rfl)
      fun x y => congrArg some (sub_ofBitVec x y))
  | mul =>
    exact hsymbol rfl (result?_arithmetic (f := fun x y => some (x.mul y)) (hboth rfl)
      fun x y => congrArg some (mul_ofBitVec x y))
  | div =>
    exact hsymbol rfl (result?_arithmetic (f := fun x y => x.div? y signed) (hboth rfl)
      fun x y => div?_ofBitVec signed x y)
  | mod =>
    exact hsymbol rfl (result?_arithmetic (f := fun x y => x.mod? y signed) (hboth rfl)
      fun x y => mod?_ofBitVec signed x y)
  | and =>
    exact hsymbol rfl (result?_arithmetic (f := fun x y => some (x.and y)) (hboth rfl)
      fun x y => congrArg some (and_ofBitVec x y))
  | or =>
    exact hsymbol rfl (result?_arithmetic (f := fun x y => some (x.or y)) (hboth rfl)
      fun x y => congrArg some (or_ofBitVec x y))
  | xor =>
    exact hsymbol rfl (result?_arithmetic (f := fun x y => some (x.xor y)) (hboth rfl)
      fun x y => congrArg some (xor_ofBitVec x y))
  | shl => exact hsymbol rfl (result?_shift (f := Word.shl) fun x amount => shl_ofBitVec x amount)
  | shr =>
    -- the symbol tells whether the sign is copied
    cases signed with
    | true =>
      exact hsymbol rfl (result?_shift (f := fun x amount => x.shr amount true)
        fun x amount => shr_signed x amount)
    | false =>
      exact hsymbol rfl (result?_shift (f := fun x amount => x.shr amount false)
        fun x amount => shr_unsigned x amount)
  | eq =>
    exact hsymbol rfl (result?_comparison (hboth rfl) rfl
      fun x y => congrArg Bool.toInt (eq_read signed x y))
  | ne =>
    exact hsymbol rfl (result?_comparison (hboth rfl) rfl
      fun x y => congrArg Bool.toInt (ne_read signed x y))
  | lt =>
    exact hsymbol rfl (result?_comparison (hboth rfl) rfl
      fun x y => congrArg Bool.toInt (lt_read signed x y))
  | le =>
    exact hsymbol rfl (result?_comparison (hboth rfl) rfl
      fun x y => congrArg Bool.toInt (le_read signed x y))
  | gt =>
    exact hsymbol rfl (result?_comparison (hboth rfl) rfl
      fun x y => congrArg Bool.toInt (lt_read signed y x))
  | ge =>
    exact hsymbol rfl (result?_comparison (hboth rfl) rfl
      fun x y => congrArg Bool.toInt (le_read signed y x))

theorem unary?_symbol {op : Opcode} (hop : op.isUnary = true) :
    unary? op.symbol width a signed = op.eval? signed width a b := by
  have hcut (x : BitVec (max width a.width)) : some (ofBitVec (x.setWidth width)) =
      some ((ofBitVec x).truncate width) := by rw [truncate_ofBitVec]
  cases op with
  | not =>
    refine (hcut _).trans ?_
    rw [← not_ofBitVec, ← resize_eq]
    rfl
  | neg =>
    refine (hcut _).trans ?_
    rw [← neg_ofBitVec, ← resize_eq]
    rfl
  | _ => cases hop

end Meaning

/-- A name, or a name that is marked as signed. -/
def Operand.ofChars? (text : List Char) : Option Operand :=
  match text.dropPrefix? "$signed(".toList with
  | some rest =>
    let name := String.ofList rest.dropLast
    if rest.getLast? = some ')' ∧ isName name = true then some ⟨name, true⟩ else none
  | none => if isName (String.ofList text) then some ⟨String.ofList text, false⟩ else none

namespace Term

/-- An expression without blanks: an operand, which may have an operator in front. -/
def ofWord? : List Char → Option Term
  | '~' :: rest => (Operand.ofChars? rest).map (unary "~")
  | '-' :: rest => (Operand.ofChars? rest).map (unary "-")
  | word => (Operand.ofChars? word).map operand

/-- Blanks stand around binary operators and around the marks of a choice, and nowhere else. -/
def ofText? (text : String) : Option Term :=
  match text.toList.splitOn ' ' with
  | [word] => ofWord? word
  | [lhs, symbol, rhs] => do
    return binary (← Operand.ofChars? lhs) (String.ofList symbol) (← Operand.ofChars? rhs)
  | [condition, question, yes, colon, no] =>
    if question = ['?'] ∧ colon = [':'] then do
      return choice (← Operand.ofChars? condition) (← Operand.ofChars? yes) (← Operand.ofChars? no)
    else none
  | _ => none

end Term

/-- What a text computes for a target of `width` bits, if it is an expression and its value is known. -/
def evaluate (values : String → Option Word) (width : Nat) (text : String) : Option Word :=
  (Term.ofText? text).bind (·.eval? values width)

section Reading

variable {name : String} {o : Operand}

theorem toList_text_signed (name : String) :
    (Operand.text ⟨name, true⟩).toList = "$signed(".toList ++ (name.toList ++ [')']) :=
  toList_append_append _ _ _

theorem ofChars?_name (h : isName name = true) :
    Operand.ofChars? name.toList = some ⟨name, false⟩ := by
  have hnone : name.toList.dropPrefix? "$signed(".toList = none := by
    cases hlist : name.toList with
    | nil => rfl
    | cons c rest =>
      have hc : c ≠ '$' := by
        rintro rfl
        exact notMem_of_isName h (by decide) (hlist ▸ List.mem_cons_self)
      have hsigned : "$signed(".toList = '$' :: "signed(".toList := by decide
      simp [hsigned, List.dropPrefix?, hc]
  rw [Operand.ofChars?, hnone, String.ofList_toList, if_pos h]

theorem ofChars?_text (h : isName o.name = true) : Operand.ofChars? o.text.toList = some o := by
  obtain ⟨name, signed⟩ := o
  cases signed with
  | false => exact ofChars?_name h
  | true =>
    rw [toList_text_signed, Operand.ofChars?, dropPrefix?_append]
    simp only [List.dropLast_concat, List.getLast?_concat, String.ofList_toList, true_and, if_pos h]

theorem notMem_text (h : isName o.name = true) : ' ' ∉ o.text.toList := by
  have hname : ' ' ∉ o.name.toList := notMem_of_isName h (by decide)
  obtain ⟨name, signed⟩ := o
  cases signed with
  | false => exact hname
  | true =>
    rw [toList_text_signed]
    simp [hname]

theorem splitOn_blank {x : List Char} (h : ' ' ∉ x) (y : List Char) :
    (x ++ ' ' :: y).splitOn ' ' = x :: y.splitOn ' ' := by
  rw [List.splitOn_append_cons_self, List.splitOn_eq_singleton h]
  rfl

theorem ofText?_name (h : isName name = true) : Term.ofText? name = some (.operand ⟨name, false⟩) := by
  have hsplit : name.toList.splitOn ' ' = [name.toList] :=
    List.splitOn_eq_singleton (notMem_of_isName h (by decide))
  have hword : Term.ofWord? name.toList = (Operand.ofChars? name.toList).map .operand := by
    have hfirst {c : Char} (hc : isIdentChar c = false) (rest : List Char) : name.toList ≠ c :: rest := by
      intro hlist
      exact notMem_of_isName h hc (hlist ▸ List.mem_cons_self)
    unfold Term.ofWord?
    split
    · next rest hlist => exact absurd hlist (hfirst (by decide) rest)
    · next rest hlist => exact absurd hlist (hfirst (by decide) rest)
    · rfl
  simp only [Term.ofText?, hsplit, hword, ofChars?_name h, Option.map_some]

theorem ofText?_unary {op : Opcode} (hop : op.isUnary = true) (h : isName o.name = true) :
    Term.ofText? (Expr.unary op o).text = some (.unary op.symbol o) := by
  have htext : (Expr.unary op o).text.toList = op.symbol.toList ++ o.text.toList :=
    String.toList_append ..
  have hsymbol : ' ' ∉ op.symbol.toList := by cases op <;> decide
  have hsplit : (op.symbol.toList ++ o.text.toList).splitOn ' ' = [op.symbol.toList ++ o.text.toList] :=
    List.splitOn_eq_singleton (by simp [hsymbol, notMem_text h])
  have hword : Term.ofWord? (op.symbol.toList ++ o.text.toList) =
      (Operand.ofChars? o.text.toList).map (.unary op.symbol) := by
    cases op with
    | not => rfl
    | neg => rfl
    | _ => cases hop
  simp only [Term.ofText?, htext, hsplit, hword, ofChars?_text h, Option.map_some]

theorem ofText?_binary {op : Opcode} {lhs rhs : Operand} (hlhs : isName lhs.name = true)
    (hrhs : isName rhs.name = true) :
    Term.ofText? (Expr.binary op lhs rhs).text = some (.binary lhs (binarySymbol op lhs) rhs) := by
  have htext : (Expr.binary op lhs rhs).text.toList =
      lhs.text.toList ++ ' ' :: ((binarySymbol op lhs).toList ++ ' ' :: rhs.text.toList) := by
    change (lhs.text ++ " " ++ binarySymbol op lhs ++ " " ++ rhs.text).toList = _
    simp [String.toList_append]
  have hsymbol : ' ' ∉ (binarySymbol op lhs).toList := by
    unfold binarySymbol
    split
    · decide
    · cases op <;> decide
  have hsplit : (Expr.binary op lhs rhs).text.toList.splitOn ' ' =
      [lhs.text.toList, (binarySymbol op lhs).toList, rhs.text.toList] := by
    rw [htext, splitOn_blank (notMem_text hlhs), splitOn_blank hsymbol,
      List.splitOn_eq_singleton (notMem_text hrhs)]
  simp only [Term.ofText?, hsplit, ofChars?_text hlhs, ofChars?_text hrhs, String.ofList_toList]
  rfl

theorem ofText?_choice {condition yes no : String} (hcondition : isName condition = true)
    (hyes : isName yes = true) (hno : isName no = true) :
    Term.ofText? (Expr.choice condition yes no).text =
      some (.choice ⟨condition, false⟩ ⟨yes, false⟩ ⟨no, false⟩) := by
  have htext : (Expr.choice condition yes no).text.toList =
      condition.toList ++ ' ' :: (['?'] ++ ' ' :: (yes.toList ++ ' ' :: ([':'] ++ ' ' :: no.toList))) := by
    change (condition ++ " ? " ++ yes ++ " : " ++ no).toList = _
    simp [String.toList_append]
  have hblank {name : String} (h : isName name = true) : ' ' ∉ name.toList :=
    notMem_of_isName h (by decide)
  have hsplit : (Expr.choice condition yes no).text.toList.splitOn ' ' =
      [condition.toList, ['?'], yes.toList, [':'], no.toList] := by
    rw [htext, splitOn_blank (hblank hcondition), splitOn_blank (by decide),
      splitOn_blank (hblank hyes), splitOn_blank (by decide), List.splitOn_eq_singleton (hblank hno)]
  simp only [Term.ofText?, hsplit, ofChars?_name hcondition, ofChars?_name hyes, ofChars?_name hno]
  rfl

end Reading

section Evaluation

variable {values : String → Option Word} {width : Nat} {op : Opcode} {o lhs rhs : Operand} {a b c : Word}

theorem evaluate_name {name : String} (h : isName name = true) (ha : values name = some a) :
    evaluate values width name = some (a.resize width false) := by
  rw [evaluate, ofText?_name h, Option.bind_some, Term.eval?, ha, Option.map_some, ← Word.resize_eq]

theorem evaluate_unary (hop : op.isUnary = true) (h : isName o.name = true)
    (ha : values o.name = some a) :
    evaluate values width (Expr.unary op o).text = op.eval? o.signed width a b := by
  rw [evaluate, ofText?_unary hop h, Option.bind_some, Term.eval?, ha, Option.bind_some,
    unary?_symbol hop]

theorem evaluate_binary (hop : op.isUnary = false) (hlhs : isName lhs.name = true)
    (hrhs : isName rhs.name = true) (hsigned : rhs.signed = (lhs.signed && !op.isShift))
    (ha : values lhs.name = some a) (hb : values rhs.name = some b) :
    evaluate values width (Expr.binary op lhs rhs).text = op.eval? lhs.signed width a b := by
  rw [evaluate, ofText?_binary hlhs hrhs, Option.bind_some, Term.eval?, ha, hb, hsigned]
  exact result?_binarySymbol hop lhs.name

theorem evaluate_choice {condition yes no : String} (hcondition : isName condition = true)
    (hyes : isName yes = true) (hno : isName no = true) (hc : values condition = some c)
    (ha : values yes = some a) (hb : values no = some b) :
    evaluate values width (Expr.choice condition yes no).text =
      some ((if c.isTrue then a else b).resize width false) := by
  have hcut (word : Word) : Word.ofBitVec ((word.bits (max width (max a.width b.width)) false).setWidth
      width) = word.resize width false := by
    rw [Word.setWidth_bits (Nat.le_max_left ..), ← Word.resize_eq]
  rw [evaluate, ofText?_choice hcondition hyes hno, Option.bind_some, Term.eval?, hc, ha, hb, ← hcut,
    apply_ite fun word : Word => word.bits (max width (max a.width b.width)) false]
  rfl

end Evaluation

end Verilog

end Netlist
