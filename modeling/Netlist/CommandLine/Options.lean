import Netlist.CommandLine.Number
import Netlist.Design
import Netlist.Output

namespace Netlist.CommandLine

inductive Backend where
  | verilog | dag | sim
deriving DecidableEq

namespace Backend

def name : Backend → String
  | verilog => "verilog"
  | dag => "dag"
  | sim => "sim"

def all : List Backend := [verilog, dag, sim]

def parse (s : String) : Except String Backend :=
  match all.find? (·.name == s) with
  | some b => .ok b
  | none =>
    let names := ", ".intercalate (all.map name)
    .error s!"`{s}` is not a valid backend.\nValid backends: {names}"

end Backend

structure Options where
  design : Design := .counter
  backend : Backend := .verilog
  output : Output := .stdout
  cycles : Nat := 8
  width : Nat := 4
  /-- Whether a graph shows simulated values. -/
  annotate : Bool := false
  strict : Bool := false
  threshold : Threshold := some .warn

structure Given where
  design : Option Design := none
  backend : Option Backend := none
  output : Option Output := none
  cycles : Option Nat := none
  width : Option Nat := none
  threshold : Option Threshold := none
  annotate : Bool := false
  strict : Bool := false

/-- Options that are not given have their usual value. -/
def Given.options (g : Given) : Options :=
  let usual : Options := {}
  { design := g.design.getD usual.design
    backend := g.backend.getD usual.backend
    output := g.output.getD usual.output
    cycles := g.cycles.getD usual.cycles
    width := g.width.getD usual.width
    annotate := g.annotate
    strict := g.strict
    threshold := g.threshold.getD usual.threshold }

inductive Field where
  | design | backend | output | cycles | width | logLevel

def Field.ofArgument? : String → Option Field
  | "--design" => some .design
  | "-b" | "--backend" => some .backend
  | "-o" | "--output" => some .output
  | "--cycles" => some .cycles
  | "--width" => some .width
  | "--log-level" => some .logLevel
  | _ => none

/-- A value is taken once, and only looked at then. -/
def once {α : Type} (present : Option α) (reading : Except String α) : Except String (Option α) :=
  if present.isSome then .error "duplicate values provided" else reading.map some

def number (limit : Nat) (s : String) : Except String Nat :=
  (readNumber limit s).mapError (·.message)

def threshold (s : String) : Except String Threshold :=
  match Threshold.ofName? s with
  | some t => .ok t
  | none => .error "attempted to convert a string that doesn't match an existing log level"

def Given.fill (g : Given) (field : Field) (value : String) : Except String Given :=
  match field with
  | .design => return { g with design := ← once g.design (Design.parse value) }
  | .backend => return { g with backend := ← once g.backend (Backend.parse value) }
  | .output => return { g with output := ← once g.output (Output.parse value) }
  | .cycles => return { g with cycles := ← once g.cycles (number (UInt64.size - 1) value) }
  | .width => return { g with width := ← once g.width (number (UInt32.size - 1) value) }
  | .logLevel => return { g with threshold := ← once g.threshold (CommandLine.threshold value) }

inductive Exit where
  | help
  | usage (message : String)
deriving DecidableEq

def Given.switch? (g : Given) : String → Option Given
  | "--annotate" => some { g with annotate := true }
  | "--strict" => some { g with strict := true }
  | _ => none

def unrecognized (arg : String) : Exit := .usage s!"Unrecognized argument: {arg}\n"

/-- Reads arguments. `help` is set once help was asked for and `ended` once the options have ended. -/
def read (help ended : Bool) (g : Given) : List String → Except Exit Given
  | [] => if help then .error .help else .ok g
  | arg :: rest =>
    -- there are no arguments other than options
    if ended then .error (unrecognized arg)
    else if arg == "--help" || arg == "help" then read true ended g rest
    else if arg == "--" then read help true g rest
    else if !arg.startsWith "-" then .error (unrecognized arg)
    else if help then .error (.usage "Trailing arguments are not allowed after `help`.")
    else
      match g.switch? arg, Field.ofArgument? arg with
      | some g, _ => read help ended g rest
      | none, none => .error (unrecognized arg)
      | none, some field =>
        match rest with
        | [] => .error (.usage s!"No value provided for option '{arg}'.\n")
        | value :: rest =>
          match g.fill field value with
          | .error reason =>
            .error (.usage s!"Error parsing option '{arg}' with value '{value}': {reason}\n")
          | .ok g => read help ended g rest

def Options.parse (args : List String) : Except Exit Options :=
  (read false false {} args).map (·.options)

def helpText : String :=
  "Usage: cash [--design <design>] [-b <backend>] [-o <output>] [--cycles <cycles>] " ++
  "[--width <width>] [--annotate] [--strict] [--log-level <log-level>]\n" ++
  "\n" ++
  "Build a sample hardware design, then lower or simulate it.\n" ++
  "\n" ++
  "Options:\n" ++
  "  --design          design to build: counter or fifo\n" ++
  "  -b, --backend     backend: verilog, dag or sim\n" ++
  "  -o, --output      output file, default is stdout\n" ++
  "  --cycles          number of ticks to simulate before dumping\n" ++
  "  --width           data width of the design\n" ++
  "  --annotate        annotate the graph with simulated values (dag backend only)\n" ++
  "  --strict          abort simulation passes at the first missing value\n" ++
  "  --log-level       logging level\n" ++
  "  --help, help      display usage information\n"

end Netlist.CommandLine
