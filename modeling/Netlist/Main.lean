import Netlist.CommandLine.Program

namespace Netlist.CommandLine

def fileFault : IO.Error → FileFault
  | .inappropriateType _ code _ => if code = 20 then .notDirectory else .isDirectory
  | .invalidArgument _ _ _ => .nameTooLong
  | .permissionDenied _ _ _ => .notPermitted
  | .noSuchThing _ _ _ => .noDevice
  | .resourceBusy _ _ => .busy
  | .resourceExhausted _ _ _ => .noSpace
  | _ => .notFound

def flushTo (stream : IO.FS.Stream) (text : String) : IO (Except FileFault Unit) := do
  try
    stream.putStr text
    stream.flush
    pure (.ok ())
  catch e => pure (.error (fileFault e))

/-- Writes a delivery to a stream. Passages are gathered until they fill the buffer; the newest record
is the first of `log`. -/
partial def sendTo (stream : IO.FS.Stream) (gathered : String) (log : List Record) (d : Delivery) :
    IO (Logged (Except Failure Unit)) := do
  match d.next with
  | .ended (.error failure) =>
    let _ ← flushTo stream gathered
    pure ⟨.error failure, log.reverse⟩
  | .ended (.ok ()) =>
    match ← flushTo stream gathered with
    | .ok () => pure ⟨.ok (), log.reverse⟩
    | .error fault => pure ⟨.error (.file fault), log.reverse⟩
  | .passage p rest =>
    let log := p.log.reverse ++ log
    let gathered := gathered ++ p.text
    if gathered.utf8ByteSize ≤ Delivery.bufferSize then sendTo stream gathered log rest
    else
      match ← flushTo stream gathered with
      | .ok () => sendTo stream "" log rest
      | .error fault => pure ⟨.error (.file fault), log.reverse⟩

/-- As `Delivery.send`, to the outputs of the machine. -/
def sendOut (d : Delivery) (o : Output) : IO (Logged (Except Failure Unit)) := do
  match o with
  | .nowhere =>
    let (passages, outcome) := d.whole
    pure ⟨outcome, passages.flatMap (·.log)⟩
  | .stdout => sendTo (← IO.getStdout) "" [] d
  | .stderr => sendTo (← IO.getStderr) "" [] d
  | .file path _ =>
    match ← (IO.FS.Handle.mk path .write).toBaseIO with
    | .ok handle => sendTo (.ofHandle handle) "" [] d
    | .error e => pure ⟨.error (.file (fileFault e)), []⟩

end Netlist.CommandLine

def main (args : List String) : IO UInt32 := do
  let p := Netlist.CommandLine.plan args
  IO.print p.stdout
  IO.eprint p.stderr
  match p.next with
  | .error status => pure status
  | .ok (o, d) =>
    let sent ← Netlist.CommandLine.sendOut d o.output
    let (status, last) := Netlist.CommandLine.ending o sent.log sent.value
    IO.eprint last
    pure status
