import Mathlib
import Netlist.Design.Fifo
import Netlist.Proofs.Construction
import Netlist.Proofs.NodeShapes

namespace Netlist

namespace Fifo

open Layout in
/-- The nodes of a queue that is built in an empty circuit. -/
def layout (loc : Location) (width : Nat) : List Node :=
  [inputAt loc 0 1 "clk", proxyAt loc 1 1 0 "clk",
   inputAt loc 2 1 "reset", proxyAt loc 3 1 2 "reset",
   inputAt loc 4 1 "push", proxyAt loc 5 1 4 "push",
   inputAt loc 6 1 "pop", proxyAt loc 7 1 6 "pop",
   inputAt loc 8 width "din", proxyAt loc 9 width 8 "din",
   literalAt loc 10 2 0 "zero", literalAt loc 11 2 1 "mask", literalAt loc 12 2 2 "depth",
   registerAt loc 13 2 10 22 "wptr", registerAt loc 14 2 10 23 "rptr",
   operationAt loc 15 1 .eq [13, 14] "is_empty", operationAt loc 16 2 .sub [13, 14] "used",
   operationAt loc 17 1 .eq [16, 12] "is_full", operationAt loc 18 1 .not [17] "not_full",
   operationAt loc 19 1 .not [15] "not_empty", operationAt loc 20 1 .and [5, 18] "do_push",
   operationAt loc 21 1 .and [7, 19] "do_pop", operationAt loc 22 2 .add [13, 20] "wptr_next",
   operationAt loc 23 2 .add [14, 21] "rptr_next", operationAt loc 24 1 .and [13, 11] "waddr",
   operationAt loc 25 1 .and [14, 11] "raddr",
   ⟨⟨26⟩, .memory 2 #[.zero width, .zero width] (some ⟨0⟩), width,
    [some ⟨25⟩, some ⟨24⟩, some ⟨9⟩, some ⟨20⟩], "mem", loc⟩,
   proxyAt loc 27 width 26 "dout", outputAt loc 28 width 27 "dout",
   proxyAt loc 29 1 15 "empty", outputAt loc 30 1 29 "empty",
   proxyAt loc 31 1 17 "full", outputAt loc 32 1 31 "full"]

def circuit (width : Nat) (loc : Location) (name : String) : Circuit where
  name
  nodes := ⟨(layout loc width).toArray⟩
  names :=
    [("full", ⟨31⟩), ("empty", ⟨29⟩), ("dout", ⟨27⟩), ("mem", ⟨26⟩), ("raddr", ⟨25⟩),
     ("waddr", ⟨24⟩), ("rptr_next", ⟨23⟩), ("wptr_next", ⟨22⟩), ("do_pop", ⟨21⟩), ("do_push", ⟨20⟩),
     ("not_empty", ⟨19⟩), ("not_full", ⟨18⟩), ("is_full", ⟨17⟩), ("used", ⟨16⟩), ("is_empty", ⟨15⟩),
     ("rptr", ⟨14⟩), ("wptr", ⟨13⟩), ("depth", ⟨12⟩), ("mask", ⟨11⟩), ("zero", ⟨10⟩), ("din", ⟨8⟩),
     ("pop", ⟨6⟩), ("push", ⟨4⟩), ("reset", ⟨2⟩), ("clk", ⟨0⟩)]
  clock := some ⟨0⟩
  reset := some ⟨2⟩

def handles : Fifo where
  clk := ⟨0⟩
  reset := ⟨2⟩
  push := ⟨4⟩
  pop := ⟨6⟩
  din := ⟨8⟩
  dout := ⟨28⟩
  empty := ⟨30⟩
  full := ⟨32⟩
  memory := ⟨26⟩
  writePointer := ⟨13⟩
  readPointer := ⟨14⟩

theorem run_build {width : Nat} (h : 1 ≤ width) (loc : Location) (name : String) :
    (build width loc).run { name } = .ok handles (circuit width loc name) := by
  obtain ⟨w, rfl⟩ := Nat.exists_eq_add_of_le' h
  cbv

open Build in
theorem isTyped_standIn (input : NodeId) : IsTyped (standIn input) := by
  refine isTyped_get.bind fun c => ?_
  cases c.inputProxy? input with
  | none => exact isTyped_throw _
  | some proxy => exact isTyped_pure proxy

open Build in
theorem isTyped_build (width : Nat) (loc : Location) : IsTyped (build width loc) := by
  unfold build
  with_reducible repeat' first
    | refine IsTyped.bind ?_ fun _ => ?_
    | exact isTyped_input ..
    | exact isTyped_output ..
    | exact isTyped_literal ..
    | exact isTyped_register ..
    | exact isTyped_operation ..
    | exact isTyped_memory ..
    | exact isTyped_connectNext ..
    | exact isTyped_connectMemory ..
    | exact isTyped_drive ..
    | exact isTyped_useClock ..
    | exact isTyped_useReset ..
    | exact isTyped_standIn ..
    | exact isTyped_pure ..

theorem wellTyped_circuit {width : Nat} (h : 1 ≤ width) (loc : Location) (name : String) :
    (circuit width loc name).WellTyped := by
  have hbuilt := (isTyped_build width loc).wellTyped name {}
  rw [Build.after, run_build h] at hbuilt
  exact hbuilt

theorem dependencies_lt (loc : Location) (width : Nat) :
    (layout loc width).all fun n => n.dependencies.all (·.index < n.id.index) := rfl

theorem acyclic_circuit {width : Nat} (h : 1 ≤ width) (loc : Location) (name : String) :
    (circuit width loc name).Acyclic :=
  (wellTyped_circuit h loc name).wellFormed.acyclic_of_ascending (dependencies_lt loc width)

end Fifo

end Netlist
