import Netlist.Circuit.Basic
import Netlist.Log

namespace Netlist

namespace Circuit

namespace Search

/-- What stands at a position among the sources of a node. -/
inductive Look where
  /-- The position is past the last source. -/
  | ended
  /-- Nothing is connected there, or what is connected is read across a clock edge. -/
  | idle
  | dependency (dep : NodeId)
deriving DecidableEq

def look (n : Node) (pos : Nat) : Look :=
  match n.sources[pos]? with
  | none => .ended
  | some none => .idle
  | some (some src) => if n.kind.crossesClock pos then .idle else .dependency src

def lookAt (c : Circuit) (id : NodeId) (pos : Nat) : Look :=
  ((c.node? id).map (look · pos)).getD .ended

inductive Mark where
  | fresh | active | done
deriving DecidableEq

/-- A node that is being expanded, with the position of the source to look at next. -/
structure Frame where
  id : NodeId
  pos : Nat

structure State where
  marks : Array Mark
  /-- Finished nodes, the last one first. -/
  finished : List NodeId := []
  /-- The nodes that are being expanded, the innermost one first. -/
  stack : List Frame := []

/-- Ids outside the circuit count as done. -/
def State.mark (s : State) (id : NodeId) : Mark := s.marks[id.index]?.getD .done

def State.enter (s : State) (id : NodeId) : State :=
  { s with
    marks := s.marks.setIfInBounds id.index .active
    stack := ⟨id, 0⟩ :: s.stack }

def State.advance (s : State) (id : NodeId) (pos : Nat) (outer : List Frame) : State :=
  { s with stack := ⟨id, pos + 1⟩ :: outer }

/-- Finishes the innermost node, and goes on with the frames around it. -/
def State.finish (s : State) (id : NodeId) (outer : List Frame) : State where
  marks := s.marks.setIfInBounds id.index .done
  finished := id :: s.finished
  stack := outer

/-- The nodes being expanded from `entry` on, outermost first. -/
def State.cycleFrom (s : State) (entry : NodeId) : List NodeId :=
  ((s.stack.map (·.id)).reverse).dropWhile (· != entry)

def run (c : Circuit) : Nat → State → Except (List NodeId) State
  | 0, s => .ok s
  | fuel + 1, s =>
    match s.stack with
    | [] => .ok s
    | ⟨id, pos⟩ :: outer =>
      match lookAt c id pos with
      | .ended => run c fuel (s.finish id outer)
      | .idle => run c fuel (s.advance id pos outer)
      | .dependency dep =>
        match s.mark dep with
        | .fresh => run c fuel ((s.advance id pos outer).enter dep)
        -- the dependency is being expanded itself, so the stack leads from it back to it
        | .active => .error (s.cycleFrom dep)
        | .done => run c fuel (s.advance id pos outer)

def sourceCount (c : Circuit) (id : NodeId) : Nat :=
  ((c.node? id).map (·.sources.length)).getD 0

/-- One step for each node and for each of its sources, which is as many as a search can take. -/
def bound (c : Circuit) : Nat :=
  c.ids.foldr (fun id n => sourceCount c id + 1 + n) 0

def visit (c : Circuit) (fuel : Nat) (s : State) (root : NodeId) : Except (List NodeId) State :=
  match s.mark root with
  | .fresh => run c fuel (s.enter root)
  | _ => .ok s

def start (c : Circuit) : State := { marks := Array.replicate c.size .fresh }

end Search

/-- All nodes, each after its dependencies, or the members of a cycle. The search goes from the nodes in
ascending order through their sources in the order of the positions. -/
def search (c : Circuit) : Except (List NodeId) (List NodeId) :=
  (c.ids.foldlM (Search.visit c (Search.bound c + 1)) (Search.start c)).map (·.finished.reverse)

def nameOf (c : Circuit) (id : NodeId) : String := ((c.node? id).map (·.name)).getD ""

def order (c : Circuit) : Except Error (List NodeId) :=
  c.search.mapError fun cycle => .combinationalCycle (cycle.map fun id => (id, c.nameOf id))

def orderLogged (c : Circuit) : Logged (Except Error (List NodeId)) :=
  match c.order with
  | .ok ids => ⟨.ok ids, []⟩
  | .error e => ⟨.error e, [⟨.error, .circuit, s!"{c.name}: {e.message}"⟩]⟩

end Circuit

end Netlist
