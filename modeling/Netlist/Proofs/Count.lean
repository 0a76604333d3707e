import Mathlib
import Netlist.Design.Counter
import Netlist.Proofs.BitVectors
import Netlist.Proofs.Construction
import Netlist.Proofs.NodeShapes

namespace Netlist

namespace Word

theorem ofNat_mod (width n : Nat) : ofNat width (n % 2 ^ width) = ofNat width n := by
  simp [ofNat, patterns_eq]

theorem resize_ofNat (width n : Nat) : (ofNat width n).resize width false = ofNat width n := by
  rw [resize_false, ofNat_toNat_ofNat]

theorem not_ofNat {width n : Nat} (h : n < 2 ^ width) :
    (ofNat width n).not = ofNat width (2 ^ width - 1 - n) := by
  rw [ofNat_eq_ofBitVec, not_ofBitVec, ofNat_eq_ofBitVec]
  congr 1
  apply BitVec.eq_of_toNat_eq
  rw [BitVec.toNat_not, BitVec.toNat_ofNat, BitVec.toNat_ofNat, Nat.mod_eq_of_lt h,
    Nat.mod_eq_of_lt (by omega)]

end Word

namespace Opcode

theorem eval?_add_ofNat (width a b : Nat) :
    add.eval? false width (.ofNat width a) (.ofNat width b) = some (.ofNat width (a + b)) := by
  have hsum : (Word.ofNat width a).add (.ofNat width b) = .ofNat width (a + b) := by
    rw [Word.ofNat_eq_ofBitVec, Word.ofNat_eq_ofBitVec, Word.add_ofBitVec, Word.ofNat_eq_ofBitVec,
      BitVec.ofNat_add]
  simp [eval?, evalBy?, workingWidth, isUnary, isShift, Word.truncate, Word.resize_ofNat, hsum]

theorem eval?_not_ofNat {width n : Nat} (h : n < 2 ^ width) (rhs : Word) :
    Opcode.not.eval? false width (.ofNat width n) rhs = some (.ofNat width (2 ^ width - 1 - n)) := by
  simp [eval?, evalBy?, workingWidth, isUnary, Word.truncate, Word.resize_ofNat, Word.not_ofNat h]

end Opcode

namespace Counter

open Layout in
/-- The nodes of a counter that is built in an empty circuit. -/
def layout (width : Nat) (loc : Location) : List Node :=
  [inputAt loc 0 1 "clk", proxyAt loc 1 1 0 "clk",
   inputAt loc 2 1 "reset", proxyAt loc 3 1 2 "reset",
   literalAt loc 4 width 0 "zero", literalAt loc 5 width 1 "one", registerAt loc 6 width 4 7 "cnt",
   operationAt loc 7 width .add [6, 5] "inc", operationAt loc 8 width .not [6] "ncnt",
   proxyAt loc 9 width 6 "out", outputAt loc 10 width 9 "out",
   proxyAt loc 11 width 8 "out_n", outputAt loc 12 width 11 "out_n"]

def circuit (width : Nat) (loc : Location) (name : String) : Circuit where
  name
  nodes := ⟨(layout width loc).toArray⟩
  names :=
    [("out_n", ⟨11⟩), ("out", ⟨9⟩), ("ncnt", ⟨8⟩), ("inc", ⟨7⟩), ("cnt", ⟨6⟩), ("one", ⟨5⟩),
     ("zero", ⟨4⟩), ("reset", ⟨2⟩), ("clk", ⟨0⟩)]
  clock := some ⟨0⟩
  reset := some ⟨2⟩

def handles : Counter where
  clk := ⟨0⟩
  reset := ⟨2⟩
  count := ⟨6⟩
  out := ⟨10⟩
  outN := ⟨12⟩

section Layout

variable {width : Nat} (hwidth : 1 ≤ width) (loc : Location) (name : String)
include hwidth

theorem run_build : (build width loc).run { name } = .ok handles (circuit width loc name) := by
  obtain ⟨w, rfl⟩ := Nat.exists_eq_add_of_le' hwidth
  cbv
  -- the sum is as wide as the wider of two words that have one width
  rw [ite_self]
  cbv

open Build in
theorem wellTyped_circuit : (circuit width loc name).WellTyped := by
  have htyped : IsTyped (build width loc) :=
    (isTyped_input _ _ _).bind fun _ => (isTyped_input _ _ _).bind fun _ =>
      (isTyped_useClock _).bind fun _ => (isTyped_useReset _).bind fun _ =>
      (isTyped_literal _ _ _).bind fun _ => (isTyped_literal _ _ _).bind fun _ =>
      (isTyped_register _ _ _ _).bind fun _ => (isTyped_operation _ _ _ _ _).bind fun _ =>
      (isTyped_connectNext _ _).bind fun _ => (isTyped_operation _ _ _ _ _).bind fun _ =>
      (isTyped_output _ _ _).bind fun _ => (isTyped_drive _ _).bind fun _ =>
      (isTyped_output _ _ _).bind fun _ => (isTyped_drive _ _).bind fun _ => isTyped_pure _
  have hbuilt := htyped.wellTyped name {}
  rw [Build.after, run_build hwidth] at hbuilt
  exact hbuilt

theorem acyclic_circuit : (circuit width loc name).Acyclic :=
  (wellTyped_circuit hwidth loc name).wellFormed.acyclic_of_ascending rfl

end Layout

def stimulus (k : Counter) (reset : Bool) : Stimulus := [(k.reset, .ofBool reset)]

def advance (width n : Nat) (reset : Bool) : Nat := if reset then 0 else (n + 1) % 2 ^ width

/-- The count after some ticks. The first of them leaves it at zero. -/
def tally (width : Nat) (resets : List Bool) : Nat := resets.tail.foldl (advance width) 0

theorem advance_lt (width n : Nat) (reset : Bool) : advance width n reset < 2 ^ width := by
  unfold advance
  split
  · exact Nat.two_pow_pos width
  · exact Nat.mod_lt _ (Nat.two_pow_pos width)

theorem foldl_advance_lt {width n : Nat} (h : n < 2 ^ width) (resets : List Bool) :
    resets.foldl (advance width) n < 2 ^ width := by
  induction resets generalizing n with
  | nil => exact h
  | cons reset rest ih => exact ih (advance_lt width n reset)

theorem foldl_advance_of_low {width n : Nat} {resets : List Bool} (h : n < 2 ^ width)
    (hlow : ∀ reset ∈ resets, reset = false) :
    resets.foldl (advance width) n = (n + resets.length) % 2 ^ width := by
  induction resets generalizing n with
  | nil => exact (Nat.mod_eq_of_lt h).symm
  | cons reset rest ih =>
    have hfirst : advance width n reset = (n + 1) % 2 ^ width := by
      rw [hlow reset List.mem_cons_self]
      rfl
    rw [List.foldl_cons, hfirst, ih (Nat.mod_lt _ (Nat.two_pow_pos width)) fun reset hreset =>
      hlow reset (List.mem_cons_of_mem _ hreset), Nat.mod_add_mod, List.length_cons]
    congr 1
    omega

/-- Without a reset the ticks after the first are counted. -/
theorem tally_of_low (width : Nat) {resets : List Bool} (hlow : ∀ reset ∈ resets, reset = false) :
    tally width resets = (resets.length - 1) % 2 ^ width := by
  have htail : ∀ reset ∈ resets.tail, reset = false :=
    fun reset hreset => hlow reset (List.mem_of_mem_tail hreset)
  rw [tally, foldl_advance_of_low (Nat.two_pow_pos width) htail, List.length_tail, Nat.zero_add]

section Values

variable {width : Nat} {loc : Location} {name : String}
  {wf : WellFounded (circuit width loc name).Depends} {m : Machine} {n : Nat}

theorem value_count (h : m.registers handles.count = .ofNat width n) :
    (circuit width loc name).value wf m handles.count = .ofNat width n :=
  (Circuit.value_register wf m _ rfl).trans h

theorem value_next (h : m.registers handles.count = .ofNat width n) :
    (circuit width loc name).value wf m ⟨7⟩ = .ofNat width (n + 1) := by
  have hone : (circuit width loc name).value wf m ⟨5⟩ = .ofNat width 1 :=
    Circuit.value_literal wf m _ rfl
  have hcount : (circuit width loc name).value wf m ⟨6⟩ = .ofNat width n := value_count h
  rw [Circuit.value_binary wf m ⟨7⟩ rfl, hcount, hone, Opcode.eval?_add_ofNat, Option.getD_some]

theorem value_out (h : m.registers handles.count = .ofNat width n) :
    (circuit width loc name).value wf m handles.out = .ofNat width n := by
  have hcount : (circuit width loc name).value wf m ⟨6⟩ = .ofNat width n := value_count h
  have hport := Circuit.value_port wf m ⟨10⟩ rfl rfl (congrArg Word.width hcount)
  rw [handles, hport, hcount]

theorem value_outN (h : m.registers handles.count = .ofNat width n) (hn : n < 2 ^ width) :
    (circuit width loc name).value wf m handles.outN = .ofNat width (2 ^ width - 1 - n) := by
  have hcount : (circuit width loc name).value wf m ⟨6⟩ = .ofNat width n := value_count h
  have hcomplement : (circuit width loc name).value wf m ⟨8⟩ = .ofNat width (2 ^ width - 1 - n) := by
    rw [Circuit.value_unary wf m ⟨8⟩ rfl, hcount, Opcode.eval?_not_ofNat hn, Option.getD_some]
  have hport := Circuit.value_port wf m ⟨12⟩ rfl rfl (congrArg Word.width hcomplement)
  rw [handles, hport, hcomplement]

theorem registers_step (h : m.registers handles.count = .ofNat width n) (hrunning : m.running = true)
    {reset : Bool} (hreset : m.inputs handles.reset = .ofBool reset) :
    (m.step (circuit width loc name) wf).registers handles.count =
      .ofNat width (advance width n reset) := by
  have hbit : (circuit width loc name).value wf m ⟨2⟩ = .ofBool reset :=
    (Circuit.value_input wf m _ rfl).trans hreset
  have hzero : (circuit width loc name).value wf m ⟨4⟩ = .ofNat width 0 :=
    Circuit.value_literal wf m _ rfl
  rw [handles, Layout.registers_step rfl hrunning hbit hzero (value_next h)]
  cases reset with
  | true => rfl
  | false => exact (Word.ofNat_mod width (n + 1)).symm

theorem registers_run {resets : List Bool} (hne : resets ≠ []) :
    (Machine.run (circuit width loc name) wf (resets.map handles.stimulus)).registers handles.count =
      .ofNat width (tally width resets) := by
  refine Machine.run_follows wf (fun m n => m.registers handles.count = .ofNat width n)
    (fun _ => Layout.registers_first rfl rfl ⟨_, 0, rfl, rfl, rfl⟩ _)
    (fun {m n} reset h hrunning => ?_) hne
  have hcount : (m.drive (handles.stimulus reset)).registers handles.count = .ofNat width n := by
    rw [Machine.registers_drive, h]
  have hreset : (m.drive (handles.stimulus reset)).inputs handles.reset = .ofBool reset := by
    simp [Machine.drive, Machine.put, stimulus]
  exact registers_step hcount ((m.running_drive _).trans hrunning) hreset

theorem accepts_stimulus (reset : Bool) :
    (circuit width loc name).Accepts (handles.stimulus reset) := by
  intro entry hentry
  rw [List.mem_singleton.mp hentry]
  exact ⟨_, rfl, rfl, rfl⟩

end Values

/-- The counter counts at every width and for whatever resets it gets. No tick fails, and after each
one the register and the first output show the count, and the other output its complement. -/
theorem outputs_show_count {width : Nat} (hwidth : 1 ≤ width) (loc : Location) (name : String)
    (mode : Mode) :
    ∃ k c first, (build width loc).run { name } = .ok k c ∧
      (Simulation.start c mode).value = .ok first ∧
      ∀ resets : List Bool, ∃ s, first.play (resets.map k.stimulus) = .ok s ∧
        s.ticks = resets.length ∧ (resets ≠ [] →
          (s.value? k.count).map Word.toNat = some (tally width resets) ∧
          (s.value? k.out).map Word.toNat = some (tally width resets) ∧
          (s.value? k.outN).map Word.toNat = some (2 ^ width - 1 - tally width resets)) ∧
        ((∀ reset ∈ resets, reset = false) →
          tally width resets = (resets.length - 1) % 2 ^ width) := by
  obtain ⟨wf, first, hstart, hplays⟩ := Simulation.exists_play (wellTyped_circuit hwidth loc name)
    (acyclic_circuit hwidth loc name) mode
  refine ⟨handles, circuit width loc name, first, run_build hwidth loc name, hstart, fun resets => ?_⟩
  have haccepts : ∀ stimulus ∈ resets.map handles.stimulus,
      (circuit width loc name).Accepts stimulus := by
    intro stimulus hstimulus
    obtain ⟨reset, -, rfl⟩ := List.mem_map.mp hstimulus
    exact accepts_stimulus reset
  obtain ⟨s, hplay, hticks, hshown⟩ := hplays _ haccepts
  refine ⟨s, hplay, by simpa using hticks, fun hne => ?_, tally_of_low width⟩
  have hrun : (Machine.run (circuit width loc name) wf (resets.map handles.stimulus)).registers
      handles.count = .ofNat width (tally width resets) := registers_run hne
  have hlt : tally width resets < 2 ^ width := foldl_advance_lt (Nat.two_pow_pos width) _
  have hvalue {id : NodeId} {n : Node} {k : Nat} (hn : (circuit width loc name).node? id = some n)
      (hword : (circuit width loc name).value wf (.run _ wf (resets.map handles.stimulus)) id =
        .ofNat width k) (hk : k < 2 ^ width) : (s.value? id).map Word.toNat = some k := by
    rw [hshown (by simpa using hne) hn, hword]
    simp [Word.patterns_eq, Nat.mod_eq_of_lt hk]
  exact ⟨hvalue rfl (value_count hrun) hlt, hvalue rfl (value_out hrun) hlt,
    hvalue rfl (value_outN hrun hlt) (by omega)⟩

/-- In two bits the count wraps at the fifth tick, and the seventh one is in reset. -/
theorem count_of_two_bits :
    1 ≤ 2 ∧ ∃ k c first s, (build 2 .unknown).run { name := "top" } = .ok k c ∧
      (Simulation.start c {}).value = .ok first ∧
      first.play ([true, false, false, false, false, false, true, false, false].map k.stimulus) =
        .ok s ∧ s.ticks = 9 ∧ (s.value? k.count).map Word.toNat = some 2 ∧
      (s.value? k.out).map Word.toNat = some 2 ∧ (s.value? k.outN).map Word.toNat = some 1 := by
  obtain ⟨k, c, first, hbuild, hstart, hruns⟩ :=
    outputs_show_count (by decide : 1 ≤ 2) .unknown "top" {}
  obtain ⟨s, hplay, hticks, hshows, -⟩ :=
    hruns [true, false, false, false, false, false, true, false, false]
  obtain ⟨hcount, hout, houtN⟩ := hshows (List.cons_ne_nil _ _)
  exact ⟨by decide, k, c, first, s, hbuild, hstart, hplay, hticks, hcount, hout, houtN⟩

end Counter

end Netlist
