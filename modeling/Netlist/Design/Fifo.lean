import Netlist.Circuit.Wire

namespace Netlist

structure Fifo where
  clk : NodeId
  reset : NodeId
  push : NodeId
  pop : NodeId
  din : NodeId
  dout : NodeId
  empty : NodeId
  full : NodeId
  memory : NodeId
  writePointer : NodeId
  readPointer : NodeId

namespace Fifo

def depth : Nat := 2

def addressWidth : Nat := 1

def pointerWidth : Nat := addressWidth + 1

def standIn (input : NodeId) : Build NodeId := do
  match (← get).inputProxy? input with
  | some p => pure p
  | none => throw (.unknownNode input)

def build (width : Nat) (loc : Location) : Build Fifo := do
  let clk ← Build.input 1 "clk" loc
  let reset ← Build.input 1 "reset" loc
  Build.useClock clk
  Build.useReset reset
  let push ← Build.input 1 "push" loc
  let pop ← Build.input 1 "pop" loc
  let din ← Build.input width "din" loc
  let pushed ← standIn push
  let popped ← standIn pop
  let word ← standIn din
  let zero ← Build.literal (.zero pointerWidth) "zero" loc
  let mask ← Build.literal (.ofNat pointerWidth 1) "mask" loc
  let capacity ← Build.literal (.ofNat pointerWidth depth) "depth" loc
  let writePointer ← Build.register pointerWidth (some zero) "wptr" loc
  let readPointer ← Build.register pointerWidth (some zero) "rptr" loc
  let isEmpty ← Build.operation { op := .eq } writePointer (some readPointer) "is_empty" loc
  let used ← Build.operation { op := .sub } writePointer (some readPointer) "used" loc
  let isFull ← Build.operation { op := .eq } used (some capacity) "is_full" loc
  let notFull ← Build.operation { op := .not } isFull none "not_full" loc
  let notEmpty ← Build.operation { op := .not } isEmpty none "not_empty" loc
  let doPush ← Build.operation { op := .and } pushed (some notFull) "do_push" loc
  let doPop ← Build.operation { op := .and } popped (some notEmpty) "do_pop" loc
  let nextWrite ← Build.operation { op := .add } writePointer (some doPush) "wptr_next" loc
  let nextRead ← Build.operation { op := .add } readPointer (some doPop) "rptr_next" loc
  Build.connectNext writePointer nextWrite
  Build.connectNext readPointer nextRead
  let address : Operator := { op := .and, width := some addressWidth }
  let writeAddress ← Build.operation address writePointer (some mask) "waddr" loc
  let readAddress ← Build.operation address readPointer (some mask) "raddr" loc
  let memory ← Build.memory width depth [] "mem" loc
  Build.connectMemory memory
    { readAddress := some readAddress
      writeAddress := some writeAddress
      writeData := some word
      writeEnable := some doPush }
  let dout ← Build.output width "dout" loc
  Build.drive dout memory
  let empty ← Build.output 1 "empty" loc
  Build.drive empty isEmpty
  let full ← Build.output 1 "full" loc
  Build.drive full isFull
  return { clk, reset, push, pop, din, dout, empty, full, memory, writePointer, readPointer }

end Fifo

end Netlist
