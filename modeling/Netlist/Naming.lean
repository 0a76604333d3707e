import Netlist.Circuit.Basic
import Netlist.NameSupply

namespace Netlist

namespace Naming

/-- The keywords of Verilog-2005 and the name of the module. -/
def keywords : List String :=
  ["always", "and", "assign", "automatic", "begin", "buf", "bufif0", "bufif1", "case", "casex",
   "casez", "cell", "cmos", "config", "deassign", "default", "defparam", "design", "disable", "edge",
   "else", "end", "endcase", "endconfig", "endfunction", "endgenerate", "endmodule", "endprimitive",
   "endspecify", "endtable", "endtask", "event", "for", "force", "forever", "fork", "function",
   "generate", "genvar", "highz0", "highz1", "if", "ifnone", "incdir", "include", "initial", "inout",
   "input", "instance", "integer", "join", "large", "liblist", "library", "localparam", "logic",
   "macromodule", "medium", "module", "nand", "negedge", "nmos", "nor", "noshowcancelled", "not",
   "notif0", "notif1", "or", "output", "parameter", "pmos", "posedge", "primitive", "pull0", "pull1",
   "pulldown", "pullup", "pulsestyle_onevent", "pulsestyle_ondetect", "rcmos", "real", "realtime",
   "reg", "release", "repeat", "rnmos", "rpmos", "rtran", "rtranif0", "rtranif1", "scalared",
   "showcancelled", "signed", "small", "specify", "specparam", "strong0", "strong1", "supply0",
   "supply1", "table", "task", "time", "top", "tran", "tranif0", "tranif1", "tri", "tri0", "tri1",
   "triand", "trior", "trireg", "unsigned", "use", "uwire", "vectored", "wait", "wand", "weak0",
   "weak1", "while", "wire", "wor", "xnor", "xor"]

/-- Letters, digits and underscores of ASCII. -/
def isIdentChar (c : Char) : Bool := c.isAlphanum || c == '_'

/-- Puts an underscore for each character that no identifier has, and one before a leading digit. -/
def identifier (raw : String) : String :=
  let chars := raw.toList.map fun c => if isIdentChar c then c else '_'
  match chars with
  | c :: _ => String.ofList (if c.isDigit then '_' :: chars else chars)
  | [] => ""

def kindStem : NodeKind → String
  | .literal .. => "lit"
  | .input .. => "in"
  | .output => "out"
  | .register .. => "r"
  | .operation op _ => op.mnemonic
  | .proxy => "p"
  | .memory .. => "mem"

def stem (n : Node) : String :=
  let name := identifier n.name
  if name.isEmpty then kindStem n.kind else name

end Naming

structure Naming where
  names : SideMap String := {}
  /-- The arrays behind the memories. -/
  storage : SideMap String := {}

namespace Naming

structure State where
  supply : NameSupply
  naming : Naming

/-- Names a node that has no name yet, and the array behind a memory right after the memory. -/
def nameNode (c : Circuit) (s : State) (id : NodeId) : State :=
  if s.naming.names.contains id then s
  else
    match c.node? id with
    | none => s
    | some n =>
      let (name, supply) := s.supply.fresh (stem n)
      let names := s.naming.names.insert id name
      match n.kind with
      | .memory .. =>
        let (array, supply) := supply.fresh (name ++ "_data")
        ⟨supply, ⟨names, s.naming.storage.insert id array⟩⟩
      | _ => ⟨supply, ⟨names, s.naming.storage⟩⟩

/-- Names the ports, and then the nodes of `order`, with names that are not `reserved`. All requests are
answered while keywords, reserved names and two names for each node are fewer than `2 ^ 32`. -/
def ofCircuit (c : Circuit) (order : List NodeId) (reserved : List String) : Naming :=
  ((c.ports ++ order).foldl (nameNode c) ⟨.reserving (keywords ++ reserved), {}⟩).naming

/-- The name of a node, or a stand-in for a node without one. -/
def name (n : Naming) (id : NodeId) : String := (n.names.get? id).getD s!"_n{id.index}"

def arrayName (n : Naming) (id : NodeId) : String := (n.storage.get? id).getD (n.name id)

end Naming

end Netlist
