import Netlist.Node

namespace Netlist

inductive SourceFault where
  | tooMany (tag : NodeKind.Tag) (max : Nat)
  | foreign (source : NodeId) (circuit : String)
  | noPosition (max : Nat)
  | lostProxy
  | operandCount (op : Opcode)
  | operandWidths (op : Opcode) (lhs rhs : Nat)
deriving DecidableEq

def SourceFault.message : SourceFault → String
  | tooMany tag max => s!"a {tag.name} takes at most {max} source(s)"
  | foreign source circuit => s!"{source} is not part of context `{circuit}`"
  | noPosition max => s!"only {max} source position(s) available"
  | lostProxy => "output lost its proxy"
  | operandCount op => s!"`{op}` takes {op.arity} operand(s)"
  | operandWidths op lhs rhs => s!"`{op}` operands differ in width ({lhs} vs {rhs})"

inductive Error where
  /-- No circuit is current. -/
  | noCurrent
  /-- The current circuit is already being changed. -/
  | alreadyBorrowed
  | invalidWidth (name : String) (width : Nat)
  | unknownNode (id : NodeId)
  | invalidSource (node : NodeId) (pos : Nat) (fault : SourceFault)
  | idsExhausted (limit : Nat)
  /-- Each member depends on the next, and the last on the first. -/
  | combinationalCycle (cycle : List (NodeId × String))
  | wrongKind (id : NodeId) (expected found : NodeKind.Tag)
  | memoryContents (name : String) (depth words : Nat)
deriving DecidableEq

namespace Error

/-- The members joined by arrows, with the first one repeated at the end. -/
def cycleText (cycle : List (NodeId × String)) : String :=
  let members := cycle.map fun (id, name) => s!"{name}{id}"
  " -> ".intercalate (members ++ members.take 1)

def message : Error → String
  | noCurrent => "no active context on the current thread"
  | alreadyBorrowed => "current context is already borrowed"
  | invalidWidth name width => s!"invalid width {width} for `{name}`"
  | unknownNode id => s!"node {id} does not exist"
  | invalidSource node pos fault => s!"invalid source {pos} of node {node}: {fault.message}"
  | idsExhausted limit => s!"context exhausted its node ids (limit {limit})"
  | combinationalCycle cycle => s!"combinational cycle: {cycleText cycle}"
  | wrongKind id expected found => s!"node {id} is a {found.name}, expected a {expected.name}"
  | memoryContents name depth words =>
    s!"memory `{name}` of depth {depth} cannot hold {words} initial word(s)"

end Error

end Netlist
