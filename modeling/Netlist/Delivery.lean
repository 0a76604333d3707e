import Netlist.Dot
import Netlist.Output
import Netlist.Simulation.Tick
import Netlist.Verilog.Lower

namespace Netlist

inductive Failure where
  | circuit (cause : Error)
  | simulation (cause : SimError)
  | file (cause : FileFault)
deriving DecidableEq

/-- A piece of a text, with what is reported just before it is written. -/
structure Passage where
  log : List Record := []
  text : String

/-- What is still to be written of a text. A table is not made before it is written: it may have more
lines than anyone takes. -/
inductive Delivery where
  /-- Passages that are there. -/
  | ready (passages : List Passage)
  /-- A line with the names of all ports, then one with their values after each of a number of ticks. -/
  | table (s : Simulation) (ticks : Nat)
  /-- Lines with the values of some nodes after each of a number of ticks. -/
  | lines (ports : List NodeId) (s : Simulation) (ticks : Nat)
  /-- Nothing, as the text was cut short. -/
  | cut (failure : Failure)

inductive Delivery.Next where
  | ended (outcome : Except Failure Unit)
  | passage (p : Passage) (rest : Delivery)

namespace Delivery

def portHead (ports : List NodeId) (c : Circuit) : String :=
  "tick " ++ " ".intercalate (ports.map c.nameOf) ++ "\n"

def portLine (ports : List NodeId) (s : Simulation) : String :=
  let values := ports.map fun id => ((s.value? id).map (·.text)).getD "x"
  toString s.ticks ++ " " ++ " ".intercalate values ++ "\n"

def next : Delivery → Next
  | ready [] => .ended (.ok ())
  | ready (p :: rest) => .passage p (.ready rest)
  | table s ticks =>
    let ports := s.circuit.ports
    .passage { text := portHead ports s.circuit } (.lines ports s ticks)
  | lines _ _ 0 => .ended (.ok ())
  | lines ports s (ticks + 1) =>
    let ticked := s.tick
    match ticked.value with
    | (.ok (), after) =>
      .passage { log := ticked.log, text := portLine ports after } (.lines ports after ticks)
    | (.error e, _) => .passage { log := ticked.log, text := "" } (.cut (.simulation e))
  | cut failure => .ended (.error failure)

/-- A bound on the number of passages to come. -/
def size : Delivery → Nat
  | ready passages => passages.length
  | table _ ticks => ticks + 2
  | lines _ _ ticks => ticks + 1
  | cut _ => 0

theorem size_lt_of_next {d rest : Delivery} {p : Passage} (h : d.next = .passage p rest) :
    rest.size < d.size := by
  unfold next at h
  split at h
  · cases h
  · cases h; simp [size]
  · cases h; simp [size]
  · cases h
  · dsimp only at h
    split at h <;> cases h <;> simp [size]
  · cases h

def whole (d : Delivery) : List Passage × Except Failure Unit :=
  match h : d.next with
  | .ended outcome => ([], outcome)
  | .passage p rest =>
    have := size_lt_of_next h
    let (passages, outcome) := rest.whole
    (p :: passages, outcome)
termination_by d.size

def text (d : Delivery) : String := String.join (d.whole.1.map (·.text))

def log (d : Delivery) : List Record := d.whole.1.flatMap (·.log)

/-- Texts are gathered up to this many bytes before they are written. -/
def bufferSize : Nat := 8192

/-- What comes of a text when nothing can be written: the fault shows as soon as more is gathered than
the buffer holds, or else at the end, and what would be made or reported after it is not. -/
def refused (fault : FileFault) (gathered : Nat) (d : Delivery) : Logged (Except Failure Unit) :=
  match h : d.next with
  | .ended (.error failure) => ⟨.error failure, []⟩
  | .ended (.ok ()) => ⟨if gathered = 0 then .ok () else .error (.file fault), []⟩
  | .passage p rest =>
    have := size_lt_of_next h
    let gathered := gathered + p.text.utf8ByteSize
    if bufferSize < gathered then ⟨.error (.file fault), p.log⟩
    else (Logged.mk () p.log).andThen fun () => refused fault gathered rest
termination_by d.size

/-- Opens the output and writes the text. Nothing is made or reported if the output does not open. -/
def send (d : Delivery) (o : Output) (sink : Output.Sink) :
    Logged (Except Failure Unit × Output.Sink) :=
  match o.connect sink with
  | .error fault => ⟨(.error (.file fault), sink), []⟩
  | .ok (channel, sink) =>
    match channel.fault? with
    | some fault => (d.refused fault 0).map (·, sink)
    | none =>
      let (passages, outcome) := d.whole
      let sink := sink.add channel (String.join (passages.map (·.text)))
      ⟨(outcome, sink), passages.flatMap (·.log)⟩

/-- The text of a module. Each warning is reported before its line is written. -/
def ofModule (m : Verilog.Module) : Delivery :=
  let items := m.items.map fun item =>
    let log := item.warning?.toList.map fun w => ⟨.warn, .verilog, w.message⟩
    { log, text := item.text : Passage }
  .ready ({ text := m.opening } :: items ++ [{ text := Verilog.closing }])

def verilog (c : Circuit) : Logged (Except Failure Delivery) :=
  c.orderLogged.map fun
    | .error e => .error (.circuit e)
    | .ok order => .ok (ofModule (Verilog.Plan.ofCircuit c order).lower)

def dot (c : Circuit) (values : Dot.Values) : Logged (Except Failure Delivery) :=
  (Dot.ofCircuit c values).map fun
    | .error e => .error (.circuit e)
    | .ok graph => .ok (.ready [{ text := graph.text }])

end Delivery

end Netlist
