import Netlist.Proofs.Refinement

namespace Netlist

namespace Layout

section Shapes

variable (loc : Location)

/-- An input whose proxy is the next node. -/
def inputAt (id width : Nat) (name : String) : Node :=
  ⟨⟨id⟩, .input (.zero width) none (some ⟨id + 1⟩), width, [], name, loc⟩

def proxyAt (id width src : Nat) (name : String) : Node :=
  ⟨⟨id⟩, .proxy, width, [some ⟨src⟩], name, loc⟩

def outputAt (id width src : Nat) (name : String) : Node :=
  ⟨⟨id⟩, .output, width, [some ⟨src⟩], name, loc⟩

def literalAt (id width value : Nat) (name : String) : Node :=
  ⟨⟨id⟩, .literal (.ofNat width value), width, [], name, loc⟩

/-- A register on the clock at node 0. The reset at node 2 takes it back to what `start` shows. -/
def registerAt (id width start next : Nat) (name : String) : Node :=
  ⟨⟨id⟩, .register (some ⟨0⟩) (some ⟨2⟩) none, width, [some ⟨start⟩, some ⟨next⟩], name, loc⟩

def operationAt (id width : Nat) (op : Opcode) (operands : List Nat) (name : String) : Node :=
  ⟨⟨id⟩, .operation op false, width, operands.map fun src => some ⟨src⟩, name, loc⟩

end Shapes

variable {c : Circuit} {m : Machine} {loc : Location} {id width start next : Nat} {name : String}

theorem value_standIn (wf : WellFounded c.Depends)
    (hport : c.node? ⟨id⟩ = some (inputAt loc id width name))
    (hproxy : c.node? ⟨id + 1⟩ = some (proxyAt loc (id + 1) width id name))
    (hwidth : (m.inputs ⟨id⟩).width = width) : c.value wf m ⟨id + 1⟩ = m.inputs ⟨id⟩ := by
  rw [Circuit.value_proxy wf m ⟨id + 1⟩ hproxy, Circuit.value_input wf m ⟨id⟩ hport,
    Word.ofNat_toNat hwidth]

theorem registers_step {wf : WellFounded c.Depends} {reset : Bool} {n : Nat}
    (hn : c.node? ⟨id⟩ = some (registerAt loc id width start next name)) (hrunning : m.running = true)
    (hreset : c.value wf m ⟨2⟩ = .ofBool reset) (hstart : c.value wf m ⟨start⟩ = .ofNat width 0)
    (hnext : c.value wf m ⟨next⟩ = .ofNat width n) :
    (m.step c wf).registers ⟨id⟩ = .ofNat width (if reset then 0 else n) := by
  rw [Machine.registers_step wf hn hrunning]
  cases reset <;>
    simp [registerAt, Node.loads, Node.source?, hreset, hstart, hnext, Word.toNat_ofBool,
      Word.ofNat_toNat_ofNat, -Word.toNat_ofNat]

/-- At the first tick a register stays at zero if its next value depends on it. -/
theorem registers_first {wf : WellFounded c.Depends}
    (hn : c.node? ⟨id⟩ = some (registerAt loc id width start next name))
    (hstart : c.constant? ⟨start⟩ = some (.ofNat width 0))
    (hnext : c.Depends ⟨id⟩ ⟨next⟩) (stimulus : Stimulus) :
    (((Machine.powerOn c).drive stimulus).step c wf).registers ⟨id⟩ = .ofNat width 0 := by
  have hreads : c.ReadsState ⟨next⟩ := ⟨⟨id⟩, _, hn, rfl, .single hnext⟩
  have hsampled : ⟨next⟩ ∈ (registerAt loc id width start next name).sampled := by
    simp [registerAt, Node.sampled, Node.source?]
  rw [Machine.registers_first wf hn hsampled hreads]
  simp [Machine.powerOn, hn, registerAt, Node.source?, hstart, Word.ofNat_toNat_ofNat,
    -Word.toNat_ofNat]

end Layout

end Netlist
