import Netlist.Circuit.Order
import Netlist.Naming
import Netlist.Verilog.Module

namespace Netlist.Verilog

structure Plan where
  circuit : Circuit
  order : List NodeId
  /-- The readers of each node in ascending order, once for each source. -/
  uses : SideMap (Array NodeId)
  /-- Whether something needs a clock that the circuit does not give it. -/
  implicitClock : Bool
  naming : Naming

/-- The name of the clock port that is added where a clock is lacking. -/
def clockName : String := "clk"

def readers (c : Circuit) : SideMap (Array NodeId) :=
  c.ids.foldl
    (fun m id =>
      (((c.node? id).map (·.connected)).getD []).foldl
        (fun m (_, src) => m.insert src (((m.get? src).getD #[]).push id)) m)
    .empty

/-- A register without a clock, or a memory without one that is written, needs one. -/
def lacksClock (n : Node) : Bool :=
  match n.kind with
  | .register clock _ _ => clock.isNone
  | .memory _ _ clock => clock.isNone && (n.source? 3).isSome
  | _ => false

namespace Plan

def ofCircuit (c : Circuit) (order : List NodeId) : Plan :=
  let implicitClock := c.nodes.values.any lacksClock
  let reserved := if implicitClock then [clockName] else []
  { circuit := c
    order
    uses := readers c
    implicitClock
    naming := .ofCircuit c order reserved }

def usesOf (p : Plan) (id : NodeId) : List NodeId := ((p.uses.get? id).getD #[]).toList

def name (p : Plan) (id : NodeId) : String := p.naming.name id

def kind? (p : Plan) (id : NodeId) : Option NodeKind := (p.circuit.node? id).map (·.kind)

/-- Whether a node is a proxy that outputs read and nothing else does. -/
def isAbsorbed (p : Plan) (id : NodeId) : Bool :=
  (p.kind? id).any (·.tag == .proxy) && !(p.usesOf id).isEmpty &&
    (p.usesOf id).all fun user => (p.kind? user).any (·.isOutput)

def clock (p : Plan) (clock : Option NodeId) : String := (clock.map p.name).getD clockName

def ports (p : Plan) : List Port :=
  let clocks := if p.implicitClock then [⟨.input, 1, clockName⟩] else []
  clocks ++ p.circuit.ports.filterMap fun id =>
    (p.circuit.node? id).map fun n =>
      ⟨if n.kind.isOutput then .output else .input, n.width, p.name id⟩

def declare (p : Plan) (id : NodeId) : List Declaration :=
  match p.circuit.node? id with
  | none => []
  | some n =>
    match n.kind with
    | .input .. | .output => []
    | .register .. => [.reg n.width (p.name id)]
    | .memory depth .. => [.array n.width (p.naming.arrayName id) depth, .wire n.width (p.name id)]
    | _ => if p.isAbsorbed id then [] else [.wire n.width (p.name id)]

/-- What drives an output: past an absorbed proxy, the driver of that. -/
def driver? (p : Plan) (n : Node) : Option NodeId :=
  (n.source? 0).bind fun feed =>
    if p.isAbsorbed feed then (p.circuit.node? feed).bind (·.source? 0) else some feed

def operand? (p : Plan) (n : Node) (pos : Nat) (signed : Bool) : Option Operand :=
  (n.source? pos).map fun src => ⟨p.name src, signed⟩

def lowerOperation (p : Plan) (id : NodeId) (n : Node) (op : Opcode) (signed : Bool) : Item :=
  if op.isUnary then
    match p.operand? n 0 signed with
    | some a => .assign (p.name id) (.unary op a)
    | none => .warning (.operand (p.name id))
  else
    -- the amount of a shift is never signed
    match p.operand? n 0 signed, p.operand? n 1 (signed && !op.isShift) with
    | some a, some b => .assign (p.name id) (.binary op a b)
    | _, _ => .warning (.operands (p.name id))

/-- With a reset the initial value is loaded by it; without one it is set before the first edge. -/
def lowerRegister (p : Plan) (id : NodeId) (n : Node) (clock reset : Option NodeId) : List Item :=
  match n.source? 1 with
  | none => [.warning (.register (p.name id))]
  | some next =>
    let latch := Item.latch (p.clock clock) (p.name id)
    match reset, n.source? 0 with
    | some rst, some init => [latch (.choice (p.name rst) (p.name init) (p.name next))]
    | none, some init =>
      let start := (p.circuit.constant? init).toList.map fun value =>
        Item.initial (p.name id) (value.truncate n.width)
      start ++ [latch (.name (p.name next))]
    | _, none => [latch (.name (p.name next))]

def lowerMemory (p : Plan) (id : NodeId) (n : Node) (init : Array Word) (clock : Option NodeId) :
    List Item :=
  let array := p.naming.arrayName id
  let words := init.toList.zipIdx.filterMap fun (value, i) =>
    if value.isTrue then some (i, value) else none
  let preload := if words.isEmpty then [] else [Item.preload array words]
  let write : List Item :=
    match n.source? 1, n.source? 2, n.source? 3 with
    | some address, some data, some enable =>
      [.store (p.clock clock) (p.name enable) array (p.name address) (p.name data)]
    | none, none, none => []
    | _, _, _ => [.warning (.writePort (p.name id))]
  preload ++ .assign (p.name id) (.element array ((n.source? 0).map p.name)) :: write

def lowerNode (p : Plan) (id : NodeId) : List Item :=
  match p.circuit.node? id with
  | none => []
  | some n =>
    match n.kind with
    | .input .. => []
    | .literal value => [.assign (p.name id) (.literal value)]
    | .output =>
      match p.driver? n with
      | some d => [.assign (p.name id) (.name (p.name d))]
      | none => [.warning (.output (p.name id))]
    | .proxy =>
      if p.isAbsorbed id then []
      else
        match n.source? 0 with
        | some src => [.assign (p.name id) (.name (p.name src))]
        | none => [.warning (.proxy (p.name id))]
    | .operation op signed => [p.lowerOperation id n op signed]
    | .register clock reset _ => p.lowerRegister id n clock reset
    | .memory _ init clock => p.lowerMemory id n init clock

def lower (p : Plan) : Module :=
  ⟨p.ports, p.order.flatMap p.declare, p.order.flatMap p.lowerNode⟩

end Plan

def ofCircuit (c : Circuit) : Except Error Module :=
  c.order.map fun order => (Plan.ofCircuit c order).lower

end Netlist.Verilog
