import Netlist.Proofs.QueueLayout

namespace Netlist

namespace Fifo

section Operators

theorem ofNat_pointer_mod (n : Nat) : Word.ofNat 2 (n % 4) = .ofNat 2 n := by
  simp [Word.ofNat, Word.patterns]

theorem ofNat_pointer_add_mod (n k : Nat) : Word.ofNat 2 (n % 4 + k) = .ofNat 2 (n + k) := by
  rw [← ofNat_pointer_mod, Nat.mod_add_mod, ofNat_pointer_mod]

theorem eval?_eq_pointers (first : Nat) {used : Nat} (h : used < 4) :
    Opcode.eq.eval? false 1 (.ofNat 2 (first + used)) (.ofNat 2 first) =
      some (.ofBool (used == 0)) := by
  have hall : ∀ x used : Fin 4, Opcode.eq.eval? false 1 (.ofNat 2 (x + used)) (.ofNat 2 x) =
      some (.ofBool (used.val == 0)) := by decide
  have hmod := hall ⟨first % 4, Nat.mod_lt first (by decide)⟩ ⟨used, h⟩
  rwa [ofNat_pointer_add_mod, ofNat_pointer_mod] at hmod

theorem eval?_sub_pointers (first : Nat) {used : Nat} (h : used < 4) :
    Opcode.sub.eval? false 2 (.ofNat 2 (first + used)) (.ofNat 2 first) = some (.ofNat 2 used) := by
  have hall : ∀ x used : Fin 4, Opcode.sub.eval? false 2 (.ofNat 2 (x + used)) (.ofNat 2 x) =
      some (.ofNat 2 used) := by decide
  have hmod := hall ⟨first % 4, Nat.mod_lt first (by decide)⟩ ⟨used, h⟩
  rwa [ofNat_pointer_add_mod, ofNat_pointer_mod] at hmod

theorem eval?_eq_depth {used : Nat} (h : used < 4) :
    Opcode.eq.eval? false 1 (.ofNat 2 used) (.ofNat 2 2) = some (.ofBool (used == 2)) := by
  have hall : ∀ used : Fin 4, Opcode.eq.eval? false 1 (.ofNat 2 used) (.ofNat 2 2) =
      some (.ofBool (used.val == 2)) := by decide
  exact hall ⟨used, h⟩

theorem eval?_add_pointer (n : Nat) (b : Bool) :
    Opcode.add.eval? false 2 (.ofNat 2 n) (.ofBool b) = some (.ofNat 2 (n + b.toNat)) := by
  have hall : ∀ (x : Fin 4) (b : Bool), Opcode.add.eval? false 2 (.ofNat 2 x) (.ofBool b) =
      some (.ofNat 2 (x + b.toNat)) := by decide
  have hmod := hall ⟨n % 4, Nat.mod_lt n (by decide)⟩ b
  rwa [ofNat_pointer_add_mod, ofNat_pointer_mod] at hmod

theorem eval?_and_mask (n : Nat) :
    Opcode.and.eval? false 1 (.ofNat 2 n) (.ofNat 2 1) = some (.ofNat 1 n) := by
  have hall : ∀ x : Fin 4, Opcode.and.eval? false 1 (.ofNat 2 x) (.ofNat 2 1) =
      some (.ofNat 1 x) := by decide
  have hmod := hall ⟨n % 4, Nat.mod_lt n (by decide)⟩
  have hbit : Word.ofNat 1 (n % 4) = .ofNat 1 n := by
    simp [Word.ofNat, Word.patterns]
  rwa [ofNat_pointer_mod, hbit] at hmod

theorem eval?_and_ofBool : ∀ a b : Bool,
    Opcode.and.eval? false 1 (.ofBool a) (.ofBool b) = some (.ofBool (a && b)) := by decide

theorem eval?_not_ofBool : ∀ a : Bool,
    Opcode.not.eval? false 1 (.ofBool a) (.zero 1) = some (.ofBool !a) := by decide

end Operators

structure Input (width : Nat) where
  reset : Bool
  push : Bool
  pop : Bool
  din : Word
  din_width : din.width = width

variable {width : Nat}

def stimulus (f : Fifo) (i : Input width) : Stimulus :=
  [(f.reset, .ofBool i.reset), (f.push, .ofBool i.push), (f.pop, .ofBool i.pop), (f.din, i.din)]

/-- What a tick does to the queue: a word is taken from its head and another one added, which has
place if there was one before the tick. -/
def advance (q : List Word) (i : Input width) : List Word :=
  if i.reset then []
  else (if i.pop then q.tail else q) ++ if i.push && q.length < depth then [i.din] else []

/-- The queue after some ticks. The first of them leaves it empty. -/
def contents (inputs : List (Input width)) : List Word := inputs.tail.foldl advance []

/-- The words of `q` are in the cells of a ring, from cell number `first` on. -/
def HoldsFrom (cells : Nat → Word) (first : Nat) (q : List Word) : Prop :=
  ∀ i, ∀ word ∈ q[i]?, cells ((first + i) % depth) = word

theorem HoldsFrom.tail {cells : Nat → Word} {first : Nat} {q : List Word} (h : HoldsFrom cells first q) :
    HoldsFrom cells (first + 1) q.tail := by
  intro i word hword
  rw [List.getElem?_tail] at hword
  rw [Nat.add_right_comm, Nat.add_assoc]
  exact h (i + 1) word hword

theorem HoldsFrom.concat {cells : Nat → Word} {first : Nat} {q : List Word} (h : HoldsFrom cells first q)
    (hlength : q.length < depth) (word : Word) :
    HoldsFrom (Function.update cells ((first + q.length) % depth) word) first (q ++ [word]) := by
  intro i other hother
  have hi : i < q.length + 1 := by
    simpa using (List.getElem?_eq_some_iff.mp hother).1
  by_cases hlast : i = q.length
  · subst hlast
    simpa using hother
  · rw [List.getElem?_append_left (by omega)] at hother
    -- fewer than `depth` cells apart, the two are different
    have hcell : (first + i) % depth ≠ (first + q.length) % depth := by
      simp only [depth] at hlength ⊢
      omega
    rw [Function.update_of_ne hcell]
    exact h i other hother

/-- The machine of a queue that holds `q`; `first` words have been taken since the last reset. -/
structure Represents (m : Machine) (width first : Nat) (q : List Word) : Prop where
  length_le : q.length ≤ depth
  width_eq : ∀ word ∈ q, word.width = width
  writePointer : m.registers handles.writePointer = .ofNat 2 (first + q.length)
  readPointer : m.registers handles.readPointer = .ofNat 2 first
  cells : HoldsFrom (m.memories handles.memory) first q

section Values

variable {loc : Location} {name : String} {wf : WellFounded (circuit width loc name).Depends}
  {m : Machine} {first : Nat} {q : List Word}

theorem Represents.value_writePointer (h : Represents m width first q) :
    (circuit width loc name).value wf m ⟨13⟩ = .ofNat 2 (first + q.length) :=
  (Circuit.value_register wf m _ rfl).trans h.writePointer

theorem Represents.value_readPointer (h : Represents m width first q) :
    (circuit width loc name).value wf m ⟨14⟩ = .ofNat 2 first :=
  (Circuit.value_register wf m _ rfl).trans h.readPointer

theorem value_mask : (circuit width loc name).value wf m ⟨11⟩ = .ofNat 2 1 :=
  Circuit.value_literal wf m _ rfl

theorem toNat_address (n : Nat) : (Word.ofNat 1 n).toNat % 2 = n % depth := by
  simp [Word.patterns, depth]

theorem Represents.length_lt (h : Represents m width first q) : q.length < 4 :=
  Nat.lt_of_le_of_lt h.length_le (by decide)

theorem Represents.value_isEmpty (h : Represents m width first q) :
    (circuit width loc name).value wf m ⟨15⟩ = .ofBool (q.length == 0) := by
  rw [Circuit.value_binary wf m ⟨15⟩ rfl, h.value_writePointer, h.value_readPointer,
    eval?_eq_pointers first h.length_lt, Option.getD_some]

theorem Represents.value_isFull (h : Represents m width first q) :
    (circuit width loc name).value wf m ⟨17⟩ = .ofBool (q.length == depth) := by
  have hused : (circuit width loc name).value wf m ⟨16⟩ = .ofNat 2 q.length := by
    rw [Circuit.value_binary wf m ⟨16⟩ rfl, h.value_writePointer, h.value_readPointer,
      eval?_sub_pointers first h.length_lt, Option.getD_some]
  have hdepth : (circuit width loc name).value wf m ⟨12⟩ = .ofNat 2 2 :=
    Circuit.value_literal wf m _ rfl
  rw [Circuit.value_binary wf m ⟨17⟩ rfl, hused, hdepth, eval?_eq_depth h.length_lt,
    Option.getD_some]
  rfl

theorem Represents.value_readAddress (h : Represents m width first q) :
    (circuit width loc name).value wf m ⟨25⟩ = .ofNat 1 first := by
  rw [Circuit.value_binary wf m ⟨25⟩ rfl, h.value_readPointer, value_mask, eval?_and_mask,
    Option.getD_some]

theorem Represents.value_writeAddress (h : Represents m width first q) :
    (circuit width loc name).value wf m ⟨24⟩ = .ofNat 1 (first + q.length) := by
  rw [Circuit.value_binary wf m ⟨24⟩ rfl, h.value_writePointer, value_mask, eval?_and_mask,
    Option.getD_some]

theorem Represents.value_memory (h : Represents m width first q) :
    (circuit width loc name).value wf m ⟨26⟩ = m.memories handles.memory (first % depth) := by
  rw [Circuit.value_memory wf m ⟨26⟩ rfl, h.value_readAddress, toNat_address]
  rfl

theorem Represents.value_empty (h : Represents m width first q) :
    (circuit width loc name).value wf m handles.empty = .ofBool q.isEmpty := by
  have hport := Circuit.value_port wf m ⟨30⟩ rfl rfl (by rw [h.value_isEmpty]; rfl)
  rw [handles, hport, h.value_isEmpty]
  cases q <;> rfl

theorem Represents.value_full (h : Represents m width first q) :
    (circuit width loc name).value wf m handles.full = .ofBool (q.length == depth) := by
  have hport := Circuit.value_port wf m ⟨32⟩ rfl rfl (by rw [h.value_isFull]; rfl)
  rw [handles, hport, h.value_isFull]

theorem Represents.value_dout (h : Represents m width first q) {head : Word} (hhead : head ∈ q.head?) :
    (circuit width loc name).value wf m handles.dout = head := by
  have hmemory : (circuit width loc name).value wf m ⟨26⟩ = head := by
    rw [h.value_memory]
    exact h.cells 0 head (by rwa [← List.head?_eq_getElem?])
  have hport := Circuit.value_port wf m ⟨28⟩ rfl rfl (by
    rw [hmemory, h.width_eq head (List.mem_of_head? hhead)])
  rw [handles, hport, hmemory]

structure Driven (m : Machine) (i : Input width) : Prop where
  reset : m.inputs handles.reset = .ofBool i.reset
  push : m.inputs handles.push = .ofBool i.push
  pop : m.inputs handles.pop = .ofBool i.pop
  din : m.inputs handles.din = i.din

theorem driven_drive (m : Machine) (i : Input width) : Driven (m.drive (handles.stimulus i)) i := by
  constructor <;> simp [Machine.drive, Machine.put, stimulus, handles]

theorem Represents.drive (h : Represents m width first q) (stimulus : Stimulus) :
    Represents (m.drive stimulus) width first q := by
  rw [Machine.drive_eq]
  exact ⟨h.length_le, h.width_eq, h.writePointer, h.readPointer, h.cells⟩

variable {i : Input width}

theorem Driven.value_push (hi : Driven m i) :
    (circuit width loc name).value wf m ⟨5⟩ = .ofBool i.push :=
  (Layout.value_standIn wf rfl rfl (congrArg Word.width hi.push)).trans hi.push

theorem Driven.value_pop (hi : Driven m i) :
    (circuit width loc name).value wf m ⟨7⟩ = .ofBool i.pop :=
  (Layout.value_standIn wf rfl rfl (congrArg Word.width hi.pop)).trans hi.pop

theorem Driven.value_din (hi : Driven m i) :
    (circuit width loc name).value wf m ⟨9⟩ = i.din :=
  (Layout.value_standIn wf rfl rfl ((congrArg Word.width hi.din).trans i.din_width)).trans hi.din

/-- Whether a word is added, apart from a reset. -/
def pushes (q : List Word) (i : Input width) : Bool := i.push && q.length < depth

/-- Whether a word is taken, apart from a reset. -/
def pops (q : List Word) (i : Input width) : Bool := i.pop && !q.isEmpty

theorem Represents.value_doPush (h : Represents m width first q) (hi : Driven m i) :
    (circuit width loc name).value wf m ⟨20⟩ = .ofBool (pushes q i) := by
  have hnotFull : (circuit width loc name).value wf m ⟨18⟩ = .ofBool !(q.length == depth) := by
    rw [Circuit.value_unary wf m ⟨18⟩ rfl, h.value_isFull, eval?_not_ofBool, Option.getD_some]
  have hroom : (!(q.length == depth)) = decide (q.length < depth) := by
    rw [Bool.eq_iff_iff]
    have hle := h.length_le
    simp
    omega
  rw [Circuit.value_binary wf m ⟨20⟩ rfl, hi.value_push, hnotFull, eval?_and_ofBool, hroom,
    Option.getD_some, pushes]

theorem Represents.value_doPop (h : Represents m width first q) (hi : Driven m i) :
    (circuit width loc name).value wf m ⟨21⟩ = .ofBool (pops q i) := by
  have hnotEmpty : (circuit width loc name).value wf m ⟨19⟩ = .ofBool !q.isEmpty := by
    rw [Circuit.value_unary wf m ⟨19⟩ rfl, h.value_isEmpty, eval?_not_ofBool, Option.getD_some]
    cases q <;> rfl
  rw [Circuit.value_binary wf m ⟨21⟩ rfl, hi.value_pop, hnotEmpty, eval?_and_ofBool,
    Option.getD_some, pops]

theorem Represents.value_nextWrite (h : Represents m width first q) (hi : Driven m i) :
    (circuit width loc name).value wf m ⟨22⟩ =
      .ofNat 2 (first + q.length + (pushes q i).toNat) := by
  rw [Circuit.value_binary wf m ⟨22⟩ rfl, h.value_writePointer, h.value_doPush hi,
    eval?_add_pointer, Option.getD_some]

theorem Represents.value_nextRead (h : Represents m width first q) (hi : Driven m i) :
    (circuit width loc name).value wf m ⟨23⟩ = .ofNat 2 (first + (pops q i).toNat) := by
  rw [Circuit.value_binary wf m ⟨23⟩ rfl, h.value_readPointer, h.value_doPop hi,
    eval?_add_pointer, Option.getD_some]

open Layout in
theorem Driven.registers_step (hi : Driven m i) (hrunning : m.running = true) {id next : Nat}
    {pointerName : String}
    (hn : (circuit width loc name).node? ⟨id⟩ = some (registerAt loc id 2 10 next pointerName)) {n : Nat}
    (hnext : (circuit width loc name).value wf m ⟨next⟩ = .ofNat 2 n) :
    (m.step (circuit width loc name) wf).registers ⟨id⟩ = .ofNat 2 (if i.reset then 0 else n) :=
  Layout.registers_step hn hrunning ((Circuit.value_input wf m _ rfl).trans hi.reset)
    (Circuit.value_literal wf m _ rfl) hnext

theorem Represents.memories_step (h : Represents m width first q) (hi : Driven m i)
    (hrunning : m.running = true) :
    (m.step (circuit width loc name) wf).memories handles.memory =
      if pushes q i then
        Function.update (m.memories handles.memory) ((first + q.length) % depth) i.din
      else m.memories handles.memory := by
  have hstores : (circuit width loc name).node? handles.memory =
      some ⟨⟨26⟩, .memory 2 #[.zero width, .zero width] (some ⟨0⟩), width,
        [some ⟨25⟩, some ⟨24⟩, some ⟨9⟩, some ⟨20⟩], "mem", loc⟩ := rfl
  rw [Machine.memories_step wf hstores hrunning]
  cases hbit : pushes q i <;>
    simp [Node.stores, Node.source?, h.value_doPush hi, h.value_writeAddress, hi.value_din, hbit,
      toNat_address, Word.toNat_ofBool, Word.ofNat_toNat i.din_width, -Word.toNat_ofNat]

theorem HoldsFrom.pop {cells : Nat → Word} (h : HoldsFrom cells first q) (i : Input width) :
    HoldsFrom cells (first + (pops q i).toNat) (if i.pop then q.tail else q) := by
  cases hpop : i.pop with
  | false => simpa [pops, hpop] using h
  | true =>
    cases q with
    | nil => exact fun _ _ hword => by simp at hword
    | cons head rest => simpa [pops, hpop] using h.tail

theorem length_pop (q : List Word) (i : Input width) :
    (pops q i).toNat + (if i.pop then q.tail else q).length = q.length := by
  cases hpop : i.pop with
  | false => simp [pops, hpop]
  | true => cases q <;> simp [pops, hpop, Nat.add_comm]

theorem mem_pop {word : Word} (h : word ∈ if i.pop then q.tail else q) : word ∈ q := by
  split at h
  · exact List.mem_of_mem_tail h
  · exact h

theorem advance_of_not_reset (hreset : i.reset = false) :
    advance q i = (if i.pop then q.tail else q) ++ if pushes q i then [i.din] else [] := by
  simp [advance, pushes, hreset]

theorem Represents.step (h : Represents m width first q) (hi : Driven m i)
    (hrunning : m.running = true) :
    ∃ later, Represents (m.step (circuit width loc name) wf) width later (advance q i) := by
  have hwrite : (m.step (circuit width loc name) wf).registers handles.writePointer = _ :=
    hi.registers_step hrunning rfl (h.value_nextWrite hi)
  have hread : (m.step (circuit width loc name) wf).registers handles.readPointer = _ :=
    hi.registers_step hrunning rfl (h.value_nextRead hi)
  have hcells : (m.step (circuit width loc name) wf).memories handles.memory = _ :=
    h.memories_step hi hrunning
  cases hreset : i.reset with
  | true =>
    have hempty : advance q i = [] := by simp [advance, hreset]
    rw [hreset] at hwrite hread
    rw [hempty]
    exact ⟨0, Nat.zero_le _, by simp, hwrite, hread, by simp [HoldsFrom]⟩
  | false =>
    -- a word is taken before one is added, at the cell that follows what is left
    have hleft := h.cells.pop i
    have hwidths (word : Word) (hword : word ∈ if i.pop then q.tail else q) : word.width = width :=
      h.width_eq word (mem_pop hword)
    have hlength := length_pop q i
    have hle := h.length_le
    rw [hreset] at hwrite hread
    rw [advance_of_not_reset hreset]
    generalize (if i.pop then q.tail else q) = left at hleft hwidths hlength
    rw [← hlength, ← Nat.add_assoc] at hcells hwrite
    refine ⟨first + (pops q i).toNat, ?_⟩
    cases hpush : pushes q i with
    | false =>
      rw [hpush] at hcells hwrite
      simp only [Bool.false_eq_true, if_false, List.append_nil] at hcells ⊢
      exact ⟨by omega, hwidths, hwrite, hread, hcells ▸ hleft⟩
    | true =>
      have hroom : q.length < depth := by simpa [pushes] using (Bool.and_eq_true_iff.mp hpush).2
      rw [hpush] at hcells hwrite
      simp only [if_true] at hcells ⊢
      refine ⟨by simp; omega, ?_, by simpa [Nat.add_assoc] using hwrite, hread, ?_⟩
      · intro word hword
        rcases List.mem_append.mp hword with hold | hnew
        · exact hwidths word hold
        · rw [List.mem_singleton.mp hnew, i.din_width]
      · rw [hcells]
        exact hleft.concat (by omega) i.din

theorem represents_first (stimulus : Stimulus) :
    Represents (((Machine.powerOn (circuit width loc name)).drive stimulus).step
      (circuit width loc name) wf) width 0 [] where
  length_le := Nat.zero_le _
  width_eq := by simp
  writePointer := Layout.registers_first rfl rfl ⟨_, 0, rfl, rfl, rfl⟩ stimulus
  readPointer := Layout.registers_first rfl rfl ⟨_, 0, rfl, rfl, rfl⟩ stimulus
  cells := by simp [HoldsFrom]

theorem represents_run {inputs : List (Input width)} (hne : inputs ≠ []) :
    ∃ first, Represents (.run (circuit width loc name) wf (inputs.map handles.stimulus)) width first
      (contents inputs) := by
  refine Machine.run_follows wf (fun m q => ∃ first, Represents m width first q)
    (fun _ => ⟨0, represents_first _⟩) (fun {m} _ i h hrunning => ?_) hne
  obtain ⟨first, hqueue⟩ := h
  exact (hqueue.drive _).step (driven_drive m i) ((m.running_drive _).trans hrunning)

theorem accepts_stimulus (i : Input width) :
    (circuit width loc name).Accepts (handles.stimulus i) := by
  intro entry hentry
  simp only [stimulus, List.mem_cons, List.not_mem_nil, or_false] at hentry
  rcases hentry with rfl | rfl | rfl | rfl
  · exact ⟨_, rfl, rfl, rfl⟩
  · exact ⟨_, rfl, rfl, rfl⟩
  · exact ⟨_, rfl, rfl, rfl⟩
  · exact ⟨_, rfl, rfl, i.din_width⟩

end Values

/-- The queue design holds a queue of two words. Whatever is put on its inputs, no tick fails, and
after each one the outputs show whether the queue is empty, whether it is full, and its head. -/
theorem outputs_show_queue {width : Nat} (hwidth : 1 ≤ width) (loc : Location) (name : String)
    (mode : Mode) :
    ∃ f c first, (build width loc).run { name } = .ok f c ∧
      (Simulation.start c mode).value = .ok first ∧
      ∀ inputs : List (Input width), ∃ s, first.play (inputs.map f.stimulus) = .ok s ∧
        s.ticks = inputs.length ∧ (inputs ≠ [] →
          s.value? f.empty = some (.ofBool (contents inputs).isEmpty) ∧
          s.value? f.full = some (.ofBool ((contents inputs).length == depth)) ∧
          ∀ head ∈ (contents inputs).head?, s.value? f.dout = some head) := by
  obtain ⟨wf, first, hstart, hplays⟩ := Simulation.exists_play (wellTyped_circuit hwidth loc name)
    (acyclic_circuit hwidth loc name) mode
  refine ⟨handles, circuit width loc name, first, run_build hwidth loc name, hstart, fun inputs => ?_⟩
  have haccepts : ∀ stimulus ∈ inputs.map handles.stimulus,
      (circuit width loc name).Accepts stimulus := by
    intro stimulus hstimulus
    obtain ⟨i, -, rfl⟩ := List.mem_map.mp hstimulus
    exact accepts_stimulus i
  obtain ⟨s, hplay, hticks, hshown⟩ := hplays _ haccepts
  refine ⟨s, hplay, by simpa using hticks, fun hne => ?_⟩
  obtain ⟨taken, hqueue⟩ : ∃ taken, Represents (.run _ wf (inputs.map handles.stimulus)) width taken
      (contents inputs) := represents_run hne
  have hvalue {id : NodeId} {n : Node} {word : Word} (hn : (circuit width loc name).node? id = some n)
      (hword : (circuit width loc name).value wf (.run _ wf (inputs.map handles.stimulus)) id = word) :
      s.value? id = some word := by
    rw [hshown (by simpa using hne) hn, hword]
  exact ⟨hvalue rfl hqueue.value_empty, hvalue rfl hqueue.value_full,
    fun head hhead => hvalue rfl (hqueue.value_dout hhead)⟩

/-- The first tick adds nothing, and neither does the third, which is in reset. The sixth one finds the
queue full and only takes a word, and the seventh takes one and adds one. -/
def byteScript : List (Input 8) :=
  [⟨false, true, false, .ofNat 8 17, rfl⟩, ⟨false, true, false, .ofNat 8 18, rfl⟩,
   ⟨true, true, false, .ofNat 8 19, rfl⟩, ⟨false, true, true, .ofNat 8 34, rfl⟩,
   ⟨false, true, false, .ofNat 8 51, rfl⟩, ⟨false, true, true, .ofNat 8 68, rfl⟩,
   ⟨false, true, true, .ofNat 8 85, rfl⟩, ⟨false, true, false, .ofNat 8 102, rfl⟩]

theorem queue_of_bytes :
    1 ≤ 8 ∧ ∃ f c first s, (build 8 .unknown).run { name := "top" } = .ok f c ∧
      (Simulation.start c {}).value = .ok first ∧ first.play (byteScript.map f.stimulus) = .ok s ∧
      contents byteScript = [.ofNat 8 85, .ofNat 8 102] ∧ s.value? f.empty = some (.ofBool false) ∧
      s.value? f.full = some (.ofBool true) ∧ s.value? f.dout = some (.ofNat 8 85) := by
  have hcontents : contents byteScript = [.ofNat 8 85, .ofNat 8 102] := by decide
  obtain ⟨f, c, first, hbuild, hstart, hruns⟩ := outputs_show_queue (by decide : 1 ≤ 8) .unknown "top" {}
  obtain ⟨s, hplay, -, hshows⟩ := hruns byteScript
  obtain ⟨hempty, hfull, hhead⟩ := hshows (List.cons_ne_nil _ _)
  rw [hcontents] at hempty hfull hhead
  exact ⟨by decide, f, c, first, s, hbuild, hstart, hplay, hcontents, hempty, hfull, hhead _ rfl⟩

end Fifo

end Netlist
