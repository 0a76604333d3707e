import Netlist.Circuit.Build

namespace Netlist

structure MemoryPorts where
  readAddress : Option NodeId := none
  writeAddress : Option NodeId := none
  writeData : Option NodeId := none
  writeEnable : Option NodeId := none

namespace Build

def connect (id : NodeId) (pos : Nat) (src : Option NodeId) : Build Unit := do
  let n ← existing id
  require (pos < n.kind.maxSources) (.invalidSource id pos (.noPosition n.kind.maxSources))
  requireSource id pos src
  modify (·.modifyNode id (·.setSource pos src))

def connectNext (register next : NodeId) : Build Unit := do
  let _ ← existingOf .register register
  connect register 1 (some next)

/-- Drives an output through the node that feeds it. -/
def drive (output driver : NodeId) : Build Unit := do
  let n ← existingOf .output output
  match n.source? 0 with
  | some feed => connect feed 0 (some driver)
  | none => throw (.invalidSource output 0 .lostProxy)

def noteDriver (input driver : NodeId) : Build Unit := do
  let _ ← existingOf .input input
  requireSource input 0 (some driver)
  modify (·.modifyNode input fun n =>
    match n.kind with
    | .input value _ proxy => { n with kind := .input value (some driver) proxy }
    | _ => n)

/-- Sets what an input holds until something else is put on it. -/
def preset (input : NodeId) (value : Word) : Build Unit := do
  let n ← existingOf .input input
  modify (·.modifyNode input fun m =>
    match m.kind with
    | .input _ driver proxy => { m with kind := .input (value.truncate n.width) driver proxy }
    | _ => m)

/-- Connects all ports of a memory, one after the other. -/
def connectMemory (id : NodeId) (ports : MemoryPorts) : Build Unit := do
  let _ ← existingOf .memory id
  connect id 0 ports.readAddress
  connect id 1 ports.writeAddress
  connect id 2 ports.writeData
  connect id 3 ports.writeEnable

def useClock (id : NodeId) : Build Unit := do
  let _ ← existing id
  modify ({ · with clock := some id })

def useReset (id : NodeId) : Build Unit := do
  let _ ← existing id
  modify ({ · with reset := some id })

end Build

end Netlist
