import Netlist.Design.Counter
import Netlist.Design.Fifo
import Netlist.Scopes

namespace Netlist

inductive Design where
  | counter | fifo
deriving DecidableEq

namespace Design

def name : Design → String
  | counter => "counter"
  | fifo => "fifo"

def parse (s : String) : Except String Design :=
  if s == "counter" then .ok .counter
  else if s == "fifo" then .ok .fifo
  else .error s!"unknown design `{s}`, expected one of: counter, fifo"

def build (d : Design) (width : Nat) (loc : Location) : Build Unit :=
  match d with
  | counter => do let _ ← Counter.build width loc
  | fifo => do let _ ← Fifo.build width loc

/-- Builds the design in a circuit of its own, which is current meanwhile. -/
def make (d : Design) (width : Nat) (loc : Location) (s : Scopes) :
    Logged (Except Error CircuitId × Scopes) :=
  let (id, s) := s.make d.name {}
  (s.within id (d.build width loc)).map fun
    | (.ok (), s) => (.ok id, s)
    | (.error e, s) => (.error e, s.release id)

end Design

end Netlist
