namespace Netlist

structure Location where
  file : String := ""
  line : Nat := 0
  column : Nat := 0
deriving DecidableEq

namespace Location

def unknown : Location := {}

/-- Only the file tells: a line without a file is nowhere. -/
def isUnknown (l : Location) : Bool := l.file.isEmpty

def text (l : Location) : String :=
  if l.isUnknown then "<unknown>" else s!"{l.file}:{l.line}:{l.column}"

instance : ToString Location := ⟨text⟩

end Location

end Netlist
