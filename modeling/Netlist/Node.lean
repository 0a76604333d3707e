import Netlist.Location
import Netlist.NodeId
import Netlist.Opcode

namespace Netlist

inductive NodeKind where
  | literal (value : Word)
  /-- A port that is driven from outside. `driver` is a note on what drives it and takes no part in
  evaluation; `proxy` stands for the port where it is used. -/
  | input (default : Word) (driver proxy : Option NodeId)
  /-- A port that shows source 0. -/
  | output
  /-- Source 0 is the initial value and source 1 the next value. -/
  | register (clock reset enable : Option NodeId)
  | operation (op : Opcode) (signed : Bool)
  /-- Passes source 0 on. -/
  | proxy
  /-- Sources 0 to 3 are the read address, the write address, the written word and the write enable.
  Reads show at once, writes at the next clock edge. -/
  | memory (depth : Nat) (init : Array Word) (clock : Option NodeId)
deriving DecidableEq

namespace NodeKind

/-- A kind without its payload. -/
inductive Tag where
  | literal | input | output | register | operation | proxy | memory
deriving DecidableEq

def Tag.name : Tag → String
  | literal => "literal"
  | input => "input"
  | output => "output"
  | register => "register"
  | operation => "operation"
  | proxy => "proxy"
  | memory => "memory"

def tag : NodeKind → Tag
  | literal .. => .literal
  | input .. => .input
  | output => .output
  | register .. => .register
  | operation .. => .operation
  | proxy => .proxy
  | memory .. => .memory

def maxSources : NodeKind → Nat
  | literal .. | input .. => 0
  | output | proxy => 1
  | register .. => 2
  | operation op _ => op.arity
  | memory .. => 4

/-- Whether the edge into source `pos` crosses a clock edge, so that it does not constrain the order
of evaluation. -/
def crossesClock (k : NodeKind) (pos : Nat) : Bool :=
  match k with
  | register .. => pos == 1
  | memory .. => pos != 0
  | _ => false

def isStateful : NodeKind → Bool
  | register .. | memory .. => true
  | _ => false

def isPort : NodeKind → Bool
  | input .. | output => true
  | _ => false

def isOutput : NodeKind → Bool
  | output => true
  | _ => false

end NodeKind

structure Node where
  id : NodeId
  kind : NodeKind
  width : Nat
  sources : List (Option NodeId)
  name : String
  location : Location

namespace Node

def source? (n : Node) (pos : Nat) : Option NodeId := n.sources[pos]?.join

/-- Connects source `pos`, after as many unconnected ones as are lacking before it. -/
def setSource (n : Node) (pos : Nat) (src : Option NodeId) : Node :=
  let padded := n.sources ++ List.replicate (pos + 1 - n.sources.length) none
  { n with sources := padded.set pos src }

theorem source?_setSource (n : Node) (pos other : Nat) (src : Option NodeId) :
    (n.setSource pos src).source? other = if other = pos then src else n.source? other := by
  simp only [setSource, source?, List.getElem?_set, List.length_append, List.length_replicate]
  split
  · next h =>
    subst h
    rw [if_pos (by omega), if_pos rfl, Option.join_some]
  · next h =>
    rw [if_neg (Ne.symm h), List.getElem?_append, List.getElem?_replicate]
    split
    · rfl
    · next hout =>
      rw [List.getElem?_eq_none (Nat.le_of_not_lt hout)]
      split <;> rfl

theorem setSource_append (n : Node) (first rest : List (Option NodeId)) (src : Option NodeId) :
    { n with sources := first ++ rest }.setSource first.length src =
      { n with sources := first ++ [src] ++ rest.drop 1 } := by
  cases rest with
  | nil => simp [setSource]
  | cons other rest => simp [setSource]

def connected (n : Node) : List (Nat × NodeId) :=
  n.sources.zipIdx.filterMap fun (src, pos) => src.map (pos, ·)

/-- The connected sources that must be evaluated before the node. -/
def dependencies (n : Node) : List NodeId :=
  (n.connected.filter fun (pos, _) => !n.kind.crossesClock pos).map (·.2)

def literal? (n : Node) : Option Word :=
  match n.kind with
  | .literal value => some value
  | _ => none

/-- Equal but for identity and location. -/
def sameShape (a b : Node) : Bool :=
  a.width == b.width && a.name == b.name && a.sources == b.sources && a.kind == b.kind

def text (n : Node) : String :=
  let head := s!"{n.name}{n.id} {n.kind.tag.name}<{n.width}>"
  match n.kind with
  | .operation op signed => head ++ " " ++ op.signedMnemonic signed
  | _ => head

instance : ToString Node := ⟨text⟩

end Node

end Netlist
