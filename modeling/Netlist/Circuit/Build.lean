import Netlist.Circuit.Basic
import Netlist.Log

namespace Netlist

/-- A step that may change a circuit and may fail, and then says in which circuit it left off. -/
abbrev Build := EStateM Error Circuit

/-- Which operation to make. Without a width the result takes the operator's usual one. -/
structure Operator where
  op : Opcode
  signed : Bool := false
  width : Option Nat := none

namespace Circuit

/-- Adds a node without any check. The name index keeps the first node of each name. -/
def add (c : Circuit) (kind : NodeKind) (width : Nat) (sources : List (Option NodeId)) (name : String)
    (loc : Location) : Circuit :=
  let id := c.nodes.nextId
  { c with
    nodes := c.nodes.push ⟨id, kind, width, sources, name, loc⟩
    names := if (c.names.lookup name).isSome then c.names else (name, id) :: c.names }

def modifyNode (c : Circuit) (id : NodeId) (f : Node → Node) : Circuit :=
  { c with nodes := c.nodes.modify id f }

def hasRoom (c : Circuit) (count : Nat) : Bool :=
  c.size + (count - 1) ≤ c.config.idLimit.toNat

end Circuit

namespace Build

variable {α : Type}

def require (condition : Bool) (fault : Error) : Build Unit :=
  if condition then pure () else throw fault

def requireWidth (name : String) (width : Nat) : Build Unit :=
  require (width != 0) (.invalidWidth name width)

def requireRoom (count : Nat) : Build Unit := do
  let c ← get
  require (c.hasRoom count) (.idsExhausted c.config.idLimit.toNat)

def requireSource (node : NodeId) (pos : Nat) (src : Option NodeId) : Build Unit := do
  let c ← get
  match src with
  | some s => require (c.nodes.contains s) (.invalidSource node pos (.foreign s c.name))
  | none => pure ()

def requireSources (node : NodeId) (sources : List (Option NodeId)) : Build Unit :=
  sources.zipIdx.forM fun (src, pos) => requireSource node pos src

def existing (id : NodeId) : Build Node := do
  match (← get).node? id with
  | some n => pure n
  | none => throw (.unknownNode id)

def existingOf (tag : NodeKind.Tag) (id : NodeId) : Build Node := do
  let n ← existing id
  require (n.kind.tag == tag) (.wrongKind id tag n.kind.tag)
  pure n

def nextId : Build NodeId := do
  requireRoom 1
  pure (← get).nodes.nextId

/-- Makes a node of any kind; all other constructions end here. -/
def node (kind : NodeKind) (width : Nat) (sources : List (Option NodeId)) (name : String)
    (loc : Location) : Build NodeId := do
  requireWidth name width
  let id ← nextId
  require (sources.length ≤ kind.maxSources)
    (.invalidSource id (sources.length - 1) (.tooMany kind.tag kind.maxSources))
  requireSources id sources
  modify (·.add kind width sources name loc)
  pure id

def literal (value : Word) (name : String) (loc : Location) : Build NodeId :=
  node (.literal value) value.width [] name loc

/-- Makes an input port that holds zero, and a proxy for it. -/
def input (width : Nat) (name : String) (loc : Location) : Build NodeId := do
  requireWidth name width
  requireRoom 2
  let id ← node (.input (.zero width) none none) width [] name loc
  let stand ← node .proxy width [some id] name loc
  modify (·.modifyNode id fun n =>
    match n.kind with
    | .input value driver _ => { n with kind := .input value driver (some stand) }
    | _ => n)
  pure id

/-- Makes an output port fed by an unconnected proxy. -/
def output (width : Nat) (name : String) (loc : Location) : Build NodeId := do
  requireWidth name width
  requireRoom 2
  let feed ← node .proxy width [none] name loc
  node .output width [some feed] name loc

def register (width : Nat) (init : Option NodeId) (name : String) (loc : Location) :
    Build NodeId := do
  let c ← get
  node (.register c.clock c.reset none) width [init, none] name loc

/-- Makes an operation. It must have a right operand exactly if the operator is binary. -/
def operation (spec : Operator) (lhs : NodeId) (rhs : Option NodeId) (name : String)
    (loc : Location) : Build NodeId := do
  let id ← nextId
  require (rhs.isSome == (spec.op.arity == 2)) (.invalidSource id 1 (.operandCount spec.op))
  let lhsWidth := (← existing lhs).width
  let rhsWidth ← rhs.mapM fun r => return (← existing r).width
  if let some w := rhsWidth then
    require (!(← get).config.strictWidths || spec.op.isShift || lhsWidth == w)
      (.invalidSource id 1 (.operandWidths spec.op lhsWidth w))
  let width := spec.width.getD (spec.op.resultWidth lhsWidth rhsWidth)
  node (.operation spec.op spec.signed) width (some lhs :: rhs.toList.map some) name loc

def proxy (src : NodeId) (name : String) (loc : Location) : Build NodeId := do
  let n ← existing src
  node .proxy n.width [some src] name loc

/-- Makes a memory on the circuit's clock. Words that `init` does not give are zero. -/
def memory (width depth : Nat) (init : List Word) (name : String) (loc : Location) :
    Build NodeId := do
  requireWidth name width
  require (depth != 0 && init.length ≤ depth) (.memoryContents name depth init.length)
  let given := init.map (·.truncate width)
  let words := given ++ List.replicate (depth - given.length) (.zero width)
  node (.memory depth words.toArray (← get).clock) width [none, none, none, none] name loc

/-- What a step reports: a record for each node that it made. -/
def made (before after : Circuit) : List Record :=
  (after.nodes.values.drop before.size).map fun n =>
    ⟨.trace, .circuit, s!"{after.name}: created {n} at {n.location}"⟩

def perform (step : Build α) (c : Circuit) : Logged (Except Error α × Circuit) :=
  match step.run c with
  | .ok a after => ⟨(.ok a, after), made c after⟩
  | .error e after => ⟨(.error e, after), made c after⟩

/-- Runs a step, and reports a failure instead of returning it. -/
def attempt (step : Build α) (c : Circuit) : Logged (Option α × Circuit) :=
  (perform step c).andThen fun
    | (.ok a, after) => ⟨(some a, after), []⟩
    | (.error e, after) => ⟨(none, after), [⟨.error, .circuit, e.message⟩]⟩

end Build

end Netlist
