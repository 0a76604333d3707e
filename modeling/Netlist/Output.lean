import Netlist.Output.FileSystem

namespace Netlist

inductive Output where
  | nowhere
  | stdout
  | stderr
  /-- A file; `started` once it was opened for the first time, or that was tried. -/
  | file (path : String) (started : Bool)
deriving DecidableEq

namespace Output

def toFile (path : String) : Output := .file path false

/-- Reads an output's name. All but a few names are paths. -/
def parse (s : String) : Except String Output :=
  if s == "" then .error "empty output path"
  else if s == "-" || s == "<out>" then .ok .stdout
  else if s == "<err>" then .ok .stderr
  else if s == "<null>" then .ok .nowhere
  else .ok (toFile s)

def text : Output → String
  | nowhere => "<null>"
  | stdout => "-"
  | stderr => "<err>"
  | file path _ => path

structure Sink where
  fileSystem : FileSystem := {}
  stdout : String := ""
  stderr : String := ""

def Sink.add (sink : Sink) (channel : Channel) (text : String) : Sink :=
  match channel with
  | .file path => { sink with fileSystem := sink.fileSystem.append path text }
  | .device .stdout => { sink with stdout := sink.stdout ++ text }
  | .device .stderr => { sink with stderr := sink.stderr ++ text }
  | .device _ => sink

/-- Writes a text to what is open. The empty text is never refused. -/
def Sink.put (sink : Sink) (channel : Channel) (text : String) : Except FileFault Sink :=
  match channel.fault? with
  | some fault => if text.isEmpty then .ok sink else .error fault
  | none => .ok (sink.add channel text)

def connect (o : Output) (sink : Sink) : Except FileFault (Channel × Sink) :=
  match o with
  | nowhere => .ok (.device .null, sink)
  | stdout => .ok (.device .stdout, sink)
  | stderr => .ok (.device .stderr, sink)
  | file path false =>
    (sink.fileSystem.create path).map fun (channel, fs) => (channel, { sink with fileSystem := fs })
  | file path true => (sink.fileSystem.openExisting path).map (·, sink)

/-- The output after it was opened, or that was tried: a file counts as started from then on. -/
def tried : Output → Output
  | file path _ => .file path true
  | o => o

/-- Writes a text once opening has ended, if it has given something to write to. -/
def writeTo (o : Output) (sink : Sink) (opened : Except FileFault (Channel × Sink)) (text : String) :
    Except FileFault Unit × Output × Sink :=
  match opened with
  | .error fault => (.error fault, o.tried, sink)
  | .ok (channel, sink) =>
    match sink.put channel text with
    | .error fault => (.error fault, o.tried, sink)
    | .ok sink => (.ok (), o.tried, sink)

def write (o : Output) (sink : Sink) (text : String) : Except FileFault Unit × Output × Sink :=
  o.writeTo sink (o.connect sink) text

end Output

end Netlist
