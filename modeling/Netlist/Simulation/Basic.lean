import Netlist.Circuit.Order

namespace Netlist

inductive SimError where
  /-- These nodes were skipped for want of a value. -/
  | missing (nodes : List NodeId)
  | unknownNode (id : NodeId)
  | widthMismatch (node : NodeId) (expected given : Nat)
  | circuit (cause : Error)
deriving DecidableEq

def SimError.message : SimError → String
  | missing nodes =>
    let list := ", ".intercalate (nodes.map (·.text))
    s!"skipped {nodes.length} instruction(s) with missing values: {list}"
  | unknownNode id => s!"node {id} is not part of the simulated context"
  | widthMismatch node expected given =>
    s!"cannot store a {given}-bit value in {node}, which is {expected} bits wide"
  | circuit cause => cause.message

structure Mode where
  /-- Whether a pass ends at the first missing value. -/
  strict : Bool := false
  /-- Whether ports and registers are reported after each tick. -/
  trace : Bool := false
  /-- Records of ticks that this does not admit are not made. -/
  reported : Threshold := some .trace
deriving DecidableEq

def Mode.reports (m : Mode) (l : Level) : Bool := m.reported.admits l

abbrev Slots := SideMap Word

abbrev Memories := SideMap (Array Word)

structure Simulation where
  circuit : Circuit
  mode : Mode
  order : List NodeId
  /-- The nodes, in the order of evaluation, whose values depend on a register or memory. -/
  dependent : List NodeId
  /-- The registers and memories in ascending order, each with whether all that it samples is
  independent of state. -/
  elements : List (NodeId × Bool)
  slots : Slots
  memories : Memories
  /-- Counted without a bound, which agrees with a count in 64 bits for the first `2 ^ 64 - 1` ticks. -/
  ticks : Nat

namespace Circuit

/-- What the slot of a node holds before the first tick. -/
def powerOn (c : Circuit) (n : Node) : Word :=
  match n.kind with
  | .literal value => value
  | .input value _ _ => value
  | .register .. =>
    match (n.source? 0).bind c.constant? with
    | some value => value.resize n.width false
    | none => .zero n.width
  | _ => .zero n.width

/-- An initial value that is not constant is not known before the first tick. -/
def powerOnRecords (c : Circuit) (n : Node) : List Record :=
  match n.kind, n.source? 0 with
  | .register .., some init =>
    if (c.constant? init).isSome then []
    else [⟨.debug, .simulation, s!"{n.name}: non-constant init ignored at power-on"⟩]
  | _, _ => []

def powerUp (c : Circuit) (ids : List NodeId) (slots : Slots) : Logged Slots :=
  Logged.foldl
    (fun m id =>
      match c.node? id with
      | some n => ⟨m.insert id (c.powerOn n), c.powerOnRecords n⟩
      | none => ⟨m, []⟩)
    slots ids

def firstContents (c : Circuit) : Memories :=
  c.memories.foldl
    (fun m id =>
      match (c.node? id).map Node.kind with
      | some (.memory _ init _) => m.insert id init
      | _ => m)
    .empty

end Circuit

/-- Whether a node is independent of state, given as much of its sources. -/
def Node.isStateless (n : Node) (known : SideMap Bool) : Bool :=
  match n.kind with
  | .literal .. | .input .. => true
  | .register .. | .memory .. => false
  | _ => n.connected.all fun (_, src) => (known.get? src).getD false

/-- What a register or memory may read at a clock edge. -/
def Node.sampled (n : Node) : List NodeId :=
  match n.kind with
  | .register _ reset _ => [n.source? 1, n.source? 0, reset].filterMap fun src => src
  | .memory .. => [n.source? 1, n.source? 2, n.source? 3].filterMap fun src => src
  | _ => []

namespace Circuit

def stateless (c : Circuit) (order : List NodeId) : SideMap Bool :=
  order.foldl
    (fun m id => ((c.node? id).map fun n => m.insert id (n.isStateless m)).getD m)
    .empty

end Circuit

namespace Simulation

/-- A simulation before its first tick, for a circuit whose order is known. -/
def fresh (c : Circuit) (mode : Mode) (order : List NodeId) : Logged Simulation :=
  let stateless := c.stateless order
  let free (id : NodeId) : Bool := (stateless.get? id).getD false
  let elements := (c.idsWhere (·.isStateful)).map fun id =>
    (id, ((c.node? id).map (·.sampled.all free)).getD false)
  (c.powerUp order .empty).andThen fun slots =>
    let counts := s!"{order.length} nodes, {(c.idsWhere (·.tag != .literal)).length} instructions"
    ⟨{ circuit := c
       mode
       order
       dependent := order.filter (!free ·)
       elements
       slots
       memories := c.firstContents
       ticks := 0 },
     [⟨.debug, .simulation, s!"simulating `{c.name}`: {counts}, {elements.length} sequential"⟩]⟩

/-- A simulation of `c` before its first tick. It needs an order of evaluation. -/
def start (c : Circuit) (mode : Mode) : Logged (Except SimError Simulation) :=
  c.orderLogged.andThen fun
    | .ok order => (fresh c mode order).map .ok
    | .error e => ⟨.error (.circuit e), []⟩

/-- Takes all slots and memories back to where they were before the first tick. -/
def reset (s : Simulation) : Logged Simulation :=
  (s.circuit.powerUp s.order s.slots).andThen fun slots =>
    ⟨{ s with slots, memories := s.circuit.firstContents, ticks := 0 },
     [⟨.debug, .simulation, s!"reset `{s.circuit.name}`"⟩]⟩

def value? (s : Simulation) (id : NodeId) : Option Word := s.slots.get? id

def memory? (s : Simulation) (id : NodeId) : Option (Array Word) := s.memories.get? id

def put (s : Simulation) (id : NodeId) (value : Word) : Except SimError Simulation :=
  match s.circuit.node? id with
  | none => .error (.unknownNode id)
  | some n =>
    if value.width = n.width then .ok { s with slots := s.slots.insert id value }
    else .error (.widthMismatch id n.width value.width)

def putNat (s : Simulation) (id : NodeId) (n : Nat) : Except SimError Simulation :=
  match s.circuit.node? id with
  | none => .error (.unknownNode id)
  | some node => s.put id (.ofNat node.width n)

def remove (s : Simulation) (id : NodeId) : Simulation := { s with slots := s.slots.erase id }

end Simulation

end Netlist
