import Netlist.CommandLine.Options
import Netlist.Delivery
import Netlist.Text.Quoted

namespace Netlist.CommandLine

def faultKind : FileFault → String
  | .notFound => "NotFound"
  | .noDevice => "Uncategorized"
  | .notPermitted => "PermissionDenied"
  | .notDirectory => "NotADirectory"
  | .isDirectory => "IsADirectory"
  | .noSpace => "StorageFull"
  | .busy => "ExecutableFileBusy"
  | .nameTooLong => "InvalidFilename"
  | .invalidName => "InvalidInput"

def faultText (f : FileFault) : String :=
  let head := match f.code? with
    | some code => s!"Os \x7b code: {code}, "
    | none => "Error \x7b "
  s!"{head}kind: {faultKind f}, message: {Text.quote f.description} \x7d"

/-- The line that the program ends with if it fails for a reason of its own. -/
def messageLine (message : String) : String := s!"Error: Misc({Text.quote message})\n"

def failureLine : Failure → String
  | .circuit cause => messageLine cause.message
  | .simulation cause => messageLine cause.message
  | .file cause => s!"Error: Io({faultText cause})\n"

def originName : Origin → String
  | .circuit => "cash_ir::context"
  | .scope => "cash_ir::scope"
  | .simulation => "cash_sim::simulator"
  | .evaluation => "cash_sim::instruction"
  | .verilog => "cash_backend::verilog"
  | .program => "cash::driver"

/-- The level is padded to five characters. -/
def logLine (r : Record) : String :=
  let level := String.ofList (r.level.name.toList.rightpad 5 ' ')
  s!"[{level} {originName r.origin}] {r.text}\n"

def logText (t : Threshold) (log : List Record) : String :=
  String.join ((log.filter fun r => t.admits r.level).map logLine)

def deliver (o : Options) (c : Circuit) : Logged (Except Failure Delivery) :=
  let simulated (use : Simulation → Logged (Except Failure Delivery)) :=
    (Simulation.start c { strict := o.strict, reported := o.threshold }).andThen fun
      | .error e => ⟨.error (.simulation e), []⟩
      | .ok s => use s
  match o.backend with
  | .verilog => Delivery.verilog c
  | .dag =>
    if o.annotate then
      simulated fun s => (s.run o.cycles).andThen fun
        | (.error e, _) => ⟨.error (.simulation e), []⟩
        | (.ok (), s) => Delivery.dot c (.ofSimulation (some s))
    else Delivery.dot c (.ofSimulation none)
  | .sim => simulated fun s => ⟨.ok (.table s o.cycles), []⟩

def job (o : Options) : Logged (Except Failure Delivery) :=
  (o.design.make o.width .unknown {}).andThen fun
    | (.error e, _) => ⟨.error (.circuit e), []⟩
    | (.ok id, scopes) =>
      let c := (scopes.circuit? id).getD { name := o.design.name }
      (Logged.mk c [⟨.info, .program, s!"built `{c.name}` with {c.size} nodes"⟩]).andThen (deliver o)

/-- What the program prints before it writes its output, and then that output, or its exit status. -/
structure Plan where
  stdout : String := ""
  stderr : String := ""
  next : Except UInt32 (Options × Delivery)

def plan (args : List String) : Plan :=
  match Options.parse args with
  | .error .help => { stdout := helpText ++ "\n", next := .error 0 }
  | .error (.usage message) =>
    { stderr := message ++ "\nRun cash --help for more information.\n", next := .error 1 }
  | .ok o =>
    if o.width = 0 then
      { stderr := messageLine "--width must be at least 1", next := .error 1 }
    else
      let result := job o
      let log := logText o.threshold result.log
      match result.value with
      | .error e => { stderr := log ++ failureLine e, next := .error 1 }
      | .ok d => { stderr := log, next := .ok (o, d) }

/-- The exit status, and what is printed on the error stream after the output. -/
def ending (o : Options) (log : List Record) (result : Except Failure Unit) : UInt32 × String :=
  let said := logText o.threshold log
  match result with
  | .ok () => (0, said)
  | .error failure => (1, said ++ failureLine failure)

/-- A run of the program: its exit status and what it leaves behind. -/
def run (args : List String) (sink : Output.Sink) : UInt32 × Output.Sink :=
  let p := plan args
  let sink := { sink with stdout := sink.stdout ++ p.stdout, stderr := sink.stderr ++ p.stderr }
  match p.next with
  | .error status => (status, sink)
  | .ok (o, d) =>
    let sent := d.send o.output sink
    let (result, sink) := sent.value
    let (status, last) := ending o sent.log result
    (status, { sink with stderr := sink.stderr ++ last })

end Netlist.CommandLine
