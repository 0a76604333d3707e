import Netlist.Circuit.Build

namespace Netlist

/-- A circuit of a session: the order of its making. -/
structure CircuitId where
  index : Nat
deriving DecidableEq

/-- A guard of a session: the order of its making. -/
structure GuardId where
  index : Nat
deriving DecidableEq

/-- A circuit with what keeps it alive. -/
structure Holding where
  circuit : Circuit
  parent : Option CircuitId := none
  /-- Whether someone holds the circuit apart from the guards on the stack. -/
  held : Bool := true
  /-- Whether the circuit is being changed right now. -/
  borrowed : Bool := false

structure Guard where
  circuit : CircuitId
  /-- The length of the stack just after the guard was made. -/
  depth : Nat
  live : Bool := true

structure Scopes where
  circuits : Array Holding := #[]
  guards : Array Guard := #[]
  /-- The guards in force, the innermost first. -/
  stack : List GuardId := []

namespace Scopes

variable {α : Type}

def holding? (s : Scopes) (id : CircuitId) : Option Holding := s.circuits[id.index]?

def circuit? (s : Scopes) (id : CircuitId) : Option Circuit := (s.holding? id).map (·.circuit)

def guard? (s : Scopes) (id : GuardId) : Option Guard := s.guards[id.index]?

/-- The circuit that the innermost guard entered. -/
def current? (s : Scopes) : Option CircuitId :=
  s.stack.head?.bind fun g => (s.guard? g).map (·.circuit)

/-- A circuit is alive while it is held or on the stack. -/
def isAlive (s : Scopes) (id : CircuitId) : Bool :=
  (s.holding? id).any (·.held) || s.stack.any fun g => (s.guard? g).any (·.circuit == id)

/-- The circuit around `id`, as long as it is alive. -/
def parent? (s : Scopes) (id : CircuitId) : Option Circuit :=
  ((s.holding? id).bind (·.parent)).bind fun p => if s.isAlive p then s.circuit? p else none

def addHolding (s : Scopes) (h : Holding) : CircuitId × Scopes :=
  (⟨s.circuits.size⟩, { s with circuits := s.circuits.push h })

def modifyHolding (s : Scopes) (id : CircuitId) (f : Holding → Holding) : Scopes :=
  { s with circuits := s.circuits.modify id.index f }

def make (s : Scopes) (name : String) (config : Config) : CircuitId × Scopes :=
  s.addHolding { circuit := { name, config } }

/-- Makes an empty circuit below another one, whose settings it takes over. It does not keep that one
alive. -/
def makeChild (s : Scopes) (name : String) (parent : CircuitId) : CircuitId × Scopes :=
  let config := ((s.circuit? parent).map (·.config)).getD {}
  s.addHolding { circuit := { name, config }, parent := some parent }

def release (s : Scopes) (id : CircuitId) : Scopes := s.modifyHolding id ({ · with held := false })

/-- Makes a circuit current until the guard is dropped. -/
def enter (s : Scopes) (id : CircuitId) : Logged (GuardId × Scopes) :=
  let guard : GuardId := ⟨s.guards.size⟩
  let depth := s.stack.length + 1
  ⟨(guard, { s with guards := s.guards.push { circuit := id, depth }, stack := guard :: s.stack }),
   [⟨.trace, .scope, s!"entered context scope at depth {depth}"⟩]⟩

/-- Drops a guard, with all guards above its place. Dropping it again changes nothing. -/
def leave (s : Scopes) (id : GuardId) : Logged Scopes :=
  match s.guard? id with
  | none => ⟨s, []⟩
  | some guard =>
    if guard.live then
      let depth := s.stack.length
      ⟨{ s with
          guards := s.guards.modify id.index ({ · with live := false })
          stack := s.stack.drop (depth - (guard.depth - 1)) },
       if depth = guard.depth then []
       else [⟨.warn, .scope,
         s!"context scopes closed out of order (depth {depth} while closing {guard.depth})"⟩]⟩
    else ⟨s, []⟩

/-- Takes the current circuit for changing it; nobody else can until it is given back. -/
def borrow (s : Scopes) : Except Error (CircuitId × Circuit × Scopes) :=
  match s.current? with
  | none => .error .noCurrent
  | some id =>
    match s.holding? id with
    | none => .error .noCurrent
    | some h =>
      if h.borrowed then .error .alreadyBorrowed
      else .ok (id, h.circuit, s.modifyHolding id ({ · with borrowed := true }))

def giveBack (s : Scopes) (id : CircuitId) (c : Circuit) : Scopes :=
  s.modifyHolding id ({ · with circuit := c, borrowed := false })

def withCurrent (s : Scopes) (step : Build α) : Logged (Except Error α × Scopes) :=
  match s.borrow with
  | .error e => ⟨(.error e, s), []⟩
  | .ok (id, c, s) => (step.perform c).map fun (result, c) => (result, s.giveBack id c)

/-- Runs a step on the current circuit, and reports a failure instead of returning it. -/
def attemptCurrent (s : Scopes) (step : Build α) : Logged (Option α × Scopes) :=
  (s.withCurrent step).andThen fun
    | (.ok a, s) => ⟨(some a, s), []⟩
    | (.error e, s) => ⟨(none, s), [⟨.error, .scope, e.message⟩]⟩

/-- The size of the current circuit, asked for while it is being changed. -/
def sizeWhileBorrowed (s : Scopes) : Except Error Nat := do
  let (_, _, inner) ← s.borrow
  let (_, c, _) ← inner.borrow
  return c.size

/-- Runs a step with `id` as the current circuit, and leaves it again however the step ends. -/
def within (s : Scopes) (id : CircuitId) (step : Build α) : Logged (Except Error α × Scopes) :=
  (s.enter id).andThen fun (guard, s) =>
    (s.withCurrent step).andThen fun (result, s) =>
      (s.leave guard).map fun s => (result, s)

end Scopes

end Netlist
