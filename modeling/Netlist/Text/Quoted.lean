import Netlist.Text.Extending
import Netlist.Text.Invisible

namespace Netlist.Text

/-- Whether a character does not show by itself. -/
def isHidden (c : Char) : Bool := isInvisible c || isExtending c

/-- Quotes, backslashes, and characters that do not show, are written as escapes. -/
def quoteChar (c : Char) : List Char :=
  match c with
  | '"' => ['\\', '"']
  | '\\' => ['\\', '\\']
  | '\t' => ['\\', 't']
  | '\n' => ['\\', 'n']
  | '\r' => ['\\', 'r']
  | _ =>
    if c.toNat = 0 then ['\\', '0']
    else if isHidden c then
      ['\\', 'u', '\x7b'] ++ Nat.toDigits 16 c.toNat ++ ['\x7d']
    else [c]

def quote (s : String) : String :=
  String.ofList ('"' :: s.toList.flatMap quoteChar ++ ['"'])

end Netlist.Text
