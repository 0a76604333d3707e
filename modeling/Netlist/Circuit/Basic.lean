import Netlist.Error

namespace Netlist

structure Config where
  /-- The largest id that a node may get. -/
  idLimit : UInt32 := 4294967294
  /-- Whether operands of different widths are refused. -/
  strictWidths : Bool := false
deriving DecidableEq

structure Circuit where
  name : String
  config : Config := {}
  nodes : Table Node := {}
  /-- The first node of each name. -/
  names : List (String × NodeId) := []
  /-- Clocks the registers and memories that are made from now on. -/
  clock : Option NodeId := none
  /-- Resets the registers that are made from now on. -/
  reset : Option NodeId := none

namespace Circuit

def size (c : Circuit) : Nat := c.nodes.size

def isEmpty (c : Circuit) : Bool := c.nodes.isEmpty

def node? (c : Circuit) (id : NodeId) : Option Node := c.nodes.get? id

def ids (c : Circuit) : List NodeId := c.nodes.ids

/-- The ids of the nodes whose kind satisfies `p`, in ascending order. -/
def idsWhere (c : Circuit) (p : NodeKind → Bool) : List NodeId :=
  c.ids.filter fun id => (c.node? id).any (p ·.kind)

def inputs (c : Circuit) : List NodeId := c.idsWhere (·.tag == .input)

def outputs (c : Circuit) : List NodeId := c.idsWhere (·.tag == .output)

def registers (c : Circuit) : List NodeId := c.idsWhere (·.tag == .register)

def memories (c : Circuit) : List NodeId := c.idsWhere (·.tag == .memory)

def ports (c : Circuit) : List NodeId := c.idsWhere (·.isPort)

def find? (c : Circuit) (name : String) : Option NodeId := c.names.lookup name

def ofTag? (c : Circuit) (tag : NodeKind.Tag) (id : NodeId) : Option Node :=
  (c.node? id).filter (·.kind.tag == tag)

def next? (c : Circuit) (id : NodeId) : Option NodeId :=
  (c.ofTag? .register id).bind (·.source? 1)

def inputProxy? (c : Circuit) (id : NodeId) : Option NodeId :=
  match (c.node? id).map Node.kind with
  | some (.input _ _ proxy) => proxy
  | _ => none

/-- The node noted as driving an input. -/
def inputDriver? (c : Circuit) (id : NodeId) : Option NodeId :=
  match (c.node? id).map Node.kind with
  | some (.input _ driver _) => driver
  | _ => none

/-- The proxy that collects what drives an output. -/
def outputProxy? (c : Circuit) (id : NodeId) : Option NodeId :=
  (c.ofTag? .output id).bind (·.source? 0)

def constantWithin (c : Circuit) : Nat → NodeId → Option Word
  | 0, _ => none
  | steps + 1, id =>
    match c.node? id with
    | none => none
    | some n =>
      match n.kind with
      | .literal value => some value
      | .proxy => (n.source? 0).bind (c.constantWithin steps)
      | _ => none

/-- The literal at the end of the proxies from `id`. A chain that ends visits each node at most once,
so the number of nodes bounds the walk. -/
def constant? (c : Circuit) (id : NodeId) : Option Word := c.constantWithin c.size id

end Circuit

end Netlist
