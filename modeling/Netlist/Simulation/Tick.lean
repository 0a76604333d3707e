import Netlist.Simulation.Basic

namespace Netlist

namespace Slots

/-- The value of a source, `none` if it is unconnected, or the slot that is missing. -/
def read (slots : Slots) (src : Option NodeId) : Except NodeId (Option Word) :=
  match src with
  | none => .ok none
  | some id =>
    match slots.get? id with
    | some value => .ok (some value)
    | none => .error id

end Slots

namespace Circuit

/-- The operands of an operation; those that are unconnected are zero. -/
def operands (slots : Slots) (n : Node) : Except NodeId (Word × Word) := do
  let lhs := (← Slots.read slots (n.source? 0)).getD (.zero n.width)
  let rhs := (← Slots.read slots (n.source? 1)).getD (.zero n.width)
  return (lhs, rhs)

/-- The place that an address names; an unconnected address names place 0. Where there are no places, a
tick breaks off instead. -/
def place (depth : Nat) (address : Option Word) : Nat :=
  (address.map (·.toNat % depth)).getD 0

/-- What a node computes from the slots and memories: `none` if it is not computed here, or the slot
that it misses. -/
def compute (memories : Memories) (slots : Slots) (id : NodeId) (n : Node) :
    Except NodeId (Option Word) :=
  match n.kind with
  | .literal .. | .input .. | .register .. => .ok none
  | .output | .proxy => do
    return (← Slots.read slots (n.source? 0)).map (·.resize n.width false)
  | .operation op signed => do
    let (lhs, rhs) ← operands slots n
    return some ((op.eval? signed n.width lhs rhs).getD (.zero n.width))
  | .memory depth .. => do
    let cell := place depth (← Slots.read slots (n.source? 0))
    return some (((memories.get? id).bind (·[cell]?)).getD (.zero n.width))

/-- What node `id` computes, as it needs a slot of its own unless it is a literal. -/
def settle (c : Circuit) (memories : Memories) (slots : Slots) (id : NodeId) :
    Except NodeId (Option Word) :=
  match c.node? id with
  | none => .ok none
  | some n => do
    let value ← compute memories slots id n
    if n.literal?.isNone && !slots.contains id then throw id
    return value

/-- The operator that divides by zero at `id`, if any. -/
def divisionByZero? (c : Circuit) (slots : Slots) (id : NodeId) : Option Opcode :=
  match c.node? id with
  | none => none
  | some n =>
    match n.kind with
    | .operation op signed =>
      if op.isDivision then
        match operands slots n with
        | .ok (lhs, rhs) => if (op.eval? signed n.width lhs rhs).isNone then some op else none
        | .error _ => none
      else none
    | _ => none

end Circuit

/-- What a register or memory does at a clock edge. -/
inductive Update where
  | load (register : NodeId) (value : Word)
  | store (memory : NodeId) (address : Nat) (data : Word)

namespace Circuit

/-- What element `id` does at a clock edge, `none` if it holds, or the slot that it misses. -/
def sample (c : Circuit) (slots : Slots) (id : NodeId) : Except NodeId (Option Update) :=
  match c.node? id with
  | none => .ok none
  | some n =>
    match n.kind with
    | .register _ reset _ => do
      if !slots.contains id then throw id
      let inReset := (← Slots.read slots reset).any (·.isTrue)
      let src := if inReset && (n.source? 0).isSome then n.source? 0 else n.source? 1
      return (← Slots.read slots src).map fun value => .load id (value.resize n.width false)
    | .memory depth .. => do
      let enable ← Slots.read slots (n.source? 3)
      if !enable.any (·.isTrue) then return none
      let address := place depth (← Slots.read slots (n.source? 1))
      let data := (← Slots.read slots (n.source? 2)).map (·.resize n.width false)
      return some (.store id address (data.getD (.zero n.width)))
    | _ => .ok none

def hasPlaces (c : Circuit) : Bool :=
  c.ids.all fun id =>
    match (c.node? id).map Node.kind with
    | some (.memory depth ..) => depth != 0
    | _ => true

/-- Whether an address that has a value is to name one of no places. -/
def namesNoPlace (depth : Nat) (slots : Slots) (address : Option NodeId) : Bool :=
  depth == 0 && address.any slots.contains

/-- Whether a tick breaks off when it comes to settle node `id`. -/
def breaksSettling (c : Circuit) (slots : Slots) (id : NodeId) : Bool :=
  match c.node? id with
  | none => false
  | some n =>
    match n.kind with
    | .memory depth .. => namesNoPlace depth slots (n.source? 0)
    | _ => false

/-- Whether a tick breaks off when it comes to sample element `id`. -/
def breaksSampling (c : Circuit) (slots : Slots) (id : NodeId) : Bool :=
  match c.node? id with
  | none => false
  | some n =>
    match n.kind with
    | .memory depth .. =>
      ((n.source? 3).bind slots.get?).any (·.isTrue) && namesNoPlace depth slots (n.source? 1)
    | _ => false

end Circuit

namespace Simulation

/-- The slots as a pass over the nodes leaves them, and the nodes that were skipped so far. -/
structure Pass where
  slots : Slots
  missing : List NodeId

/-- The updates that were sampled and the nodes that were skipped so far. -/
structure Samples where
  updates : List Update
  missing : List NodeId

/-- In strict mode nothing follows the first skipped node. -/
def halted (strict : Bool) (missing : List NodeId) : Bool := strict && !missing.isEmpty

def addMissing (missing : List NodeId) (id : NodeId) : List NodeId :=
  if missing.contains id then missing else missing ++ [id]

def skipRecords (mode : Mode) (missing : List NodeId) (id slot : NodeId) : List Record :=
  if missing.contains id || !mode.reports .warn then []
  else [⟨.warn, .simulation, s!"skipping {id}: no value for {slot}"⟩]

def divisionRecords (mode : Mode) (c : Circuit) (slots : Slots) (id : NodeId) : List Record :=
  if mode.reports .warn then
    (c.divisionByZero? slots id).toList.map fun op =>
      ⟨.warn, .evaluation, s!"{id}: `{op}` by zero, result forced to 0"⟩
  else []

def settleStep (c : Circuit) (mode : Mode) (memories : Memories) (p : Pass) (id : NodeId) :
    Logged Pass :=
  if halted mode.strict p.missing then ⟨p, []⟩
  else
    let divided := divisionRecords mode c p.slots id
    match c.settle memories p.slots id with
    | .error slot =>
      ⟨{ p with missing := addMissing p.missing id }, divided ++ skipRecords mode p.missing id slot⟩
    | .ok none => ⟨p, divided⟩
    | .ok (some value) => ⟨{ p with slots := p.slots.insert id value }, divided⟩

def settlePass (c : Circuit) (mode : Mode) (memories : Memories) (ids : List NodeId) (p : Pass) :
    Logged Pass :=
  Logged.foldl (settleStep c mode memories) p ids

/-- Whether an element holds through a tick: before the first one, unless it is independent of
state. -/
def holds (ticks : Nat) (element : NodeId × Bool) : Bool := ticks == 0 && !element.2

def sampleStep (c : Circuit) (mode : Mode) (ticks : Nat) (slots : Slots) (p : Samples)
    (element : NodeId × Bool) : Logged Samples :=
  if halted mode.strict p.missing || holds ticks element then ⟨p, []⟩
  else
    match c.sample slots element.1 with
    | .error slot =>
      ⟨{ p with missing := addMissing p.missing element.1 },
       skipRecords mode p.missing element.1 slot⟩
    | .ok update => ⟨{ p with updates := p.updates ++ update.toList }, []⟩

def samplePass (c : Circuit) (mode : Mode) (ticks : Nat) (slots : Slots)
    (elements : List (NodeId × Bool)) (missing : List NodeId) : Logged Samples :=
  Logged.foldl (sampleStep c mode ticks slots) ⟨[], missing⟩ elements

/-- Loads a register that has a slot, or stores a word at a place that the memory has. -/
def commit (state : Slots × Memories) (update : Update) : Slots × Memories :=
  match update with
  | .load id value => (state.1.modify id fun _ => value, state.2)
  | .store id address data => (state.1, state.2.modify id (·.setIfInBounds address data))

def storeRecords (mode : Mode) (updates : List Update) : List Record :=
  if mode.reports .trace then
    updates.filterMap fun
      | .load .. => none
      | .store id address data => some ⟨.trace, .simulation, s!"{id}[{address}] <= {data}"⟩
  else []

def traceRecords (s : Simulation) : List Record :=
  if s.mode.trace && s.mode.reports .trace then
    (s.circuit.inputs ++ s.circuit.outputs ++ s.circuit.registers).filterMap fun id =>
      (s.value? id).map fun value =>
        ⟨.trace, .simulation, s!"[{s.ticks}] {s.circuit.nameOf id} = {value}"⟩
  else []

/-- What a tick answers when `missing` were skipped. -/
def outcome (missing : List NodeId) : Except SimError Unit :=
  if missing.isEmpty then .ok () else .error (.missing missing)

def settleBreaks (c : Circuit) (mode : Mode) (memories : Memories) : List NodeId → Pass → Bool
  | [], _ => false
  | id :: ids, p =>
    !halted mode.strict p.missing &&
      (c.breaksSettling p.slots id ||
        settleBreaks c mode memories ids (settleStep c mode memories p id).value)

def sampleBreaks (c : Circuit) (mode : Mode) (ticks : Nat) (slots : Slots) :
    List (NodeId × Bool) → Samples → Bool
  | [], _ => false
  | element :: elements, p =>
    !halted mode.strict p.missing &&
      (!holds ticks element && c.breaksSampling slots element.1 ||
        sampleBreaks c mode ticks slots elements (sampleStep c mode ticks slots p element).value)

/-- One clock tick, as if every address named a place. -/
def tick (s : Simulation) : Logged (Except SimError Unit × Simulation) :=
  let strict := s.mode.strict
  (settlePass s.circuit s.mode s.memories s.order ⟨s.slots, []⟩).andThen fun settled =>
  if halted strict settled.missing then
    ⟨(outcome settled.missing, { s with slots := settled.slots }), []⟩
  else
  (samplePass s.circuit s.mode s.ticks settled.slots s.elements settled.missing).andThen fun samples =>
  if halted strict samples.missing then
    ⟨(outcome samples.missing, { s with slots := settled.slots }), []⟩
  else
  let (slots, memories) := samples.updates.foldl commit (settled.slots, s.memories)
  -- what does not depend on state is as it was before the clock edge
  let again := settlePass s.circuit s.mode memories s.dependent ⟨slots, samples.missing⟩
  (Logged.mk again.value (storeRecords s.mode samples.updates ++ again.log)).andThen fun resettled =>
  if halted strict resettled.missing then
    ⟨(outcome resettled.missing, { s with slots := resettled.slots, memories }), []⟩
  else
    let after := { s with slots := resettled.slots, memories, ticks := s.ticks + 1 }
    ⟨(outcome resettled.missing, after), after.traceRecords⟩

/-- Whether one of the passes of a tick breaks off; a pass that is halted does not. -/
def passBreaks (s : Simulation) : Bool :=
  let settled := (settlePass s.circuit s.mode s.memories s.order ⟨s.slots, []⟩).value
  let samples :=
    (samplePass s.circuit s.mode s.ticks settled.slots s.elements settled.missing).value
  let (slots, memories) := samples.updates.foldl commit (settled.slots, s.memories)
  settleBreaks s.circuit s.mode s.memories s.order ⟨s.slots, []⟩ ||
    sampleBreaks s.circuit s.mode s.ticks settled.slots s.elements ⟨[], settled.missing⟩ ||
    settleBreaks s.circuit s.mode memories s.dependent ⟨slots, samples.missing⟩

/-- One clock tick, unless it breaks off at an address in a memory that has no places. -/
def tick? (s : Simulation) : Option (Logged (Except SimError Unit × Simulation)) :=
  -- only where some memory has no places do the passes have to be tried beforehand
  if !s.circuit.hasPlaces && s.passBreaks then none else some s.tick

/-- Up to `n` ticks; the first one that fails is the last. -/
def run : Nat → Simulation → Logged (Except SimError Unit × Simulation)
  | 0, s => ⟨(.ok (), s), []⟩
  | n + 1, s =>
    s.tick.andThen fun
      | (.ok (), after) => run n after
      | (.error e, after) => ⟨(.error e, after), []⟩

/-- Up to `n` ticks, unless one of them breaks off. -/
def run? : Nat → Simulation → Option (Logged (Except SimError Unit × Simulation))
  | 0, s => some ⟨(.ok (), s), []⟩
  | n + 1, s =>
    s.tick?.bind fun
      -- nothing else holds on to the simulation, so that its memories change in place
      | ⟨(.ok (), after), log⟩ => (run? n after).map fun rest => ⟨rest.value, log ++ rest.log⟩
      | ⟨(.error e, after), log⟩ => some ⟨(.error e, after), log⟩

end Simulation

end Netlist
