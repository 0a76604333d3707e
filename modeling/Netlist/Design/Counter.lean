import Netlist.Circuit.Wire

namespace Netlist

structure Counter where
  clk : NodeId
  reset : NodeId
  /-- The register. -/
  count : NodeId
  /-- Shows the count. -/
  out : NodeId
  /-- Shows the complement of the count. -/
  outN : NodeId

def Counter.build (width : Nat) (loc : Location) : Build Counter := do
  let clk ← Build.input 1 "clk" loc
  let reset ← Build.input 1 "reset" loc
  Build.useClock clk
  Build.useReset reset
  let zero ← Build.literal (.zero width) "zero" loc
  let one ← Build.literal (.ofNat width 1) "one" loc
  let count ← Build.register width (some zero) "cnt" loc
  let next ← Build.operation { op := .add } count (some one) "inc" loc
  Build.connectNext count next
  let complement ← Build.operation { op := .not } count none "ncnt" loc
  let out ← Build.output width "out" loc
  Build.drive out count
  let outN ← Build.output width "out_n" loc
  Build.drive outN complement
  return { clk, reset, count, out, outN }

end Netlist
