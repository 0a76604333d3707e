import Netlist.Circuit.Order
import Netlist.Naming
import Netlist.Simulation.Basic

namespace Netlist.Dot

structure Vertex where
  id : NodeId
  label : String
deriving DecidableEq

/-- From a source to its reader. -/
structure Edge where
  source : NodeId
  target : NodeId
  /-- Which source of the reader this is. -/
  pos : Nat
  /-- Whether the edge crosses a clock edge. -/
  sequential : Bool
  value : Option Word
deriving DecidableEq

structure Graph where
  vertices : List Vertex
  edges : List Edge
deriving DecidableEq

def Edge.label (e : Edge) : String :=
  match e.value with
  | some value => s!"{e.pos}: {value}"
  | none => toString e.pos

abbrev Values := NodeId → Option Word

def Values.ofSimulation (s : Option Simulation) : Values := fun id => s.bind (·.value? id)

/-- The name, kind and width of a node, then what is special to its kind, then its value. -/
def label (naming : Naming) (values : Values) (id : NodeId) (n : Node) : String :=
  let head := s!"{naming.name id}{id}\n{n.kind.tag.name}<{n.width}>"
  let detail :=
    match n.kind with
    | .literal value => "\n" ++ value.text
    | .operation op signed => "\n" ++ op.signedMnemonic signed
    | .memory depth .. => s!"\ndepth {depth}"
    | _ => ""
  let value := ((values id).map fun v => s!"\n= {v}").getD ""
  head ++ detail ++ value

def graph (c : Circuit) (naming : Naming) (values : Values) : Graph where
  vertices := c.ids.filterMap fun id =>
    (c.node? id).map fun n => ⟨id, label naming values id n⟩
  edges := c.ids.flatMap fun id =>
    match c.node? id with
    | none => []
    | some n => n.connected.map fun (pos, src) =>
      ⟨src, id, pos, n.kind.crossesClock pos, values src⟩

def substitute (old : Char) (new : List Char) (text : List Char) : List Char :=
  text.flatMap fun c => if c = old then new else [c]

/-- Makes a text fit between double quotes on one line. Backslashes are doubled before the other steps,
which bring in backslashes of their own. -/
def escape (s : String) : String :=
  let doubled := substitute '\\' ['\\', '\\'] s.toList
  let quoted := substitute '"' ['\\', '"'] doubled
  String.ofList (substitute '\n' ['\\', 'n'] quoted)

def Vertex.text (v : Vertex) : String :=
  s!"    {v.id.index} [ shape=box, label=\"{escape v.label}\"]\n"

def Edge.text (e : Edge) : String :=
  let style := if e.sequential then ", style=dashed" else ""
  s!"    {e.source.index} -> {e.target.index} [ label=\"{e.label}\"{style}]\n"

def Graph.text (g : Graph) : String :=
  "digraph \x7b\n" ++ String.join (g.vertices.map (·.text)) ++ String.join (g.edges.map (·.text)) ++
    "\x7d\n\n"

def ofCircuit (c : Circuit) (values : Values) : Logged (Except Error Graph) :=
  c.orderLogged.map fun order => order.map fun ids => graph c (.ofCircuit c ids []) values

end Netlist.Dot
