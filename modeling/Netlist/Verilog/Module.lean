import Netlist.Opcode

namespace Netlist.Verilog

inductive Direction where
  | input | output
deriving DecidableEq

structure Port where
  direction : Direction
  width : Nat
  name : String
deriving DecidableEq

inductive Declaration where
  | wire (width : Nat) (name : String)
  | reg (width : Nat) (name : String)
  /-- An array of `depth` registers. -/
  | array (width : Nat) (name : String) (depth : Nat)
deriving DecidableEq

/-- A name, read as signed if so marked. -/
structure Operand where
  name : String
  signed : Bool
deriving DecidableEq

inductive Expr where
  | literal (value : Word)
  | name (name : String)
  | unary (op : Opcode) (operand : Operand)
  | binary (op : Opcode) (lhs rhs : Operand)
  | choice (condition yes no : String)
  /-- A word of an array, the first one if no address is given. -/
  | element (array : String) (address : Option String)
deriving DecidableEq

inductive Warning where
  | output (name : String)
  | proxy (name : String)
  | register (name : String)
  | operand (name : String)
  | operands (name : String)
  | writePort (name : String)
deriving DecidableEq

def Warning.message : Warning → String
  | output name => s!"output `{name}` has no driver"
  | proxy name => s!"proxy `{name}` has no driver"
  | register name => s!"register `{name}` has no next value"
  | operand name => s!"operation `{name}` has no operand"
  | operands name => s!"operation `{name}` is missing an operand"
  | writePort name => s!"memory `{name}` has an incomplete write port"

inductive Item where
  | assign (target : String) (value : Expr)
  /-- The value of a register before the first clock edge. -/
  | initial (target : String) (value : Word)
  /-- The words of an array before the first clock edge. -/
  | preload (array : String) (words : List (Nat × Word))
  /-- At each clock edge a register takes a value. -/
  | latch (clock target : String) (value : Expr)
  /-- At each clock edge an array takes a word, if enabled. -/
  | store (clock enable array address data : String)
  | warning (warning : Warning)
deriving DecidableEq

structure Module where
  ports : List Port
  declarations : List Declaration
  items : List Item
deriving DecidableEq

/-- The range of a vector; a single bit has none. -/
def range (width : Nat) : String := if width = 1 then "" else s!" [{width - 1}:0]"

def Direction.text : Direction → String
  | input => "input"
  | output => "output"

def Port.text (p : Port) : String := s!"{p.direction.text}{range p.width} {p.name}"

def Declaration.text : Declaration → String
  | wire width name => s!"  wire{range width} {name};\n"
  | reg width name => s!"  reg{range width} {name};\n"
  | array width name depth => s!"  reg{range width} {name} [0:{depth - 1}];\n"

/-- Whether a declaration has a text of its own: there is no last word of an array of none. -/
def Declaration.isWritable : Declaration → Bool
  | array _ _ depth => depth != 0
  | _ => true

def Operand.text (o : Operand) : String := if o.signed then s!"$signed({o.name})" else o.name

/-- A signed right shift copies the sign. -/
def binarySymbol (op : Opcode) (lhs : Operand) : String :=
  if op = .shr ∧ lhs.signed then ">>>" else op.symbol

def Expr.text : Expr → String
  | literal value => value.text
  | name n => n
  | unary op operand => s!"{op.symbol}{operand.text}"
  | binary op lhs rhs => s!"{lhs.text} {binarySymbol op lhs} {rhs.text}"
  | choice condition yes no => s!"{condition} ? {yes} : {no}"
  | element array address => array ++ "[" ++ address.getD "0" ++ "]"

def Item.text : Item → String
  | assign target value => s!"  assign {target} = {value.text};\n"
  | initial target value => s!"  initial {target} = {value.text};\n"
  | preload array words =>
    let lines := words.map fun (i, value) => s!"    {array}[{i}] = {value.text};\n"
    s!"  initial begin\n{String.join lines}  end\n"
  | latch clock target value => s!"  always @(posedge {clock}) {target} <= {value.text};\n"
  | store clock enable array address data =>
    s!"  always @(posedge {clock}) if ({enable}) {array}[{address}] <= {data};\n"
  | warning w => s!"  // WARNING: {w.message}\n"

def header (ports : List Port) : String :=
  if ports.isEmpty then "module top ();\n"
  else
    let lines := ports.map fun p => "  " ++ p.text
    "module top (\n" ++ ",\n".intercalate lines ++ "\n);\n"

/-- What comes before the items: the header, the declarations and a blank line. -/
def Module.opening (m : Module) : String :=
  header m.ports ++ String.join (m.declarations.map (·.text)) ++ "\n"

def closing : String := "endmodule\n"

def Module.text (m : Module) : String :=
  m.opening ++ String.join (m.items.map (·.text)) ++ closing

/-- The text of a module, unless writing it breaks off at a declaration. -/
def Module.text? (m : Module) : Option String :=
  if m.declarations.all (·.isWritable) then some m.text else none

def Item.warning? : Item → Option Warning
  | warning w => some w
  | _ => none

def Module.warnings (m : Module) : List Warning := m.items.filterMap (·.warning?)

end Netlist.Verilog
