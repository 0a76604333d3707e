import Netlist.Proofs.ClockEdge
import Netlist.Proofs.EvaluationOrder

namespace Netlist

namespace SideMap

theorem get?_foldl_insert {α : Type} (f : NodeId → Option α) (ids : List NodeId) (m : SideMap α)
    (id : NodeId) :
    (ids.foldl (fun m id => (f id).elim m (m.insert id)) m).get? id =
      if id ∈ ids then (f id).or (m.get? id) else m.get? id := by
  induction ids generalizing m with
  | nil => rfl
  | cons first rest ih =>
    have hfirst : ((f first).elim m (m.insert first)).get? id =
        if first = id then (f id).or (m.get? id) else m.get? id := by
      by_cases he : first = id
      · subst he
        cases f first <;> simp [get?_insert]
      · cases f first <;> simp [get?_insert, he]
    rw [List.foldl_cons, ih, hfirst]
    by_cases he : first = id
    · subst he
      cases f first <;> simp
    · simp [he, Ne.symm he]

end SideMap

def NodeKind.words? : NodeKind → Option (Array Word)
  | .memory _ init _ => some init
  | _ => none

namespace Circuit

variable {c : Circuit} {order : List NodeId}

theorem get?_powerUp (ho : c.IsOrder order) (slots : Slots) (id : NodeId) :
    SideMap.get? (c.powerUp order slots).value id =
      ((c.node? id).map c.powerOn).or (slots.get? id) := by
  have hstep : (c.powerUp order slots).value =
      order.foldl (fun m id => ((c.node? id).map c.powerOn).elim m (m.insert id)) slots := by
    rw [powerUp, Logged.value_foldl]
    congr 1
    funext m id
    cases c.node? id <;> rfl
  rw [hstep, SideMap.get?_foldl_insert]
  cases hn : c.node? id with
  | none => simp
  | some n => simp [ho.mem.mpr (mem_ids_of_node? hn)]

theorem get?_firstContents {id : NodeId} {n : Node} {depth : Nat} {init : Array Word}
    {clock : Option NodeId} (hn : c.node? id = some n) (hkind : n.kind = .memory depth init clock) :
    c.firstContents.get? id = some init := by
  have hstep : c.firstContents = c.memories.foldl
      (fun m id => (((c.node? id).map Node.kind).bind NodeKind.words?).elim m (m.insert id)) .empty := by
    unfold firstContents
    congr 1
    funext m id
    rcases (c.node? id).map Node.kind with _ | kind
    · rfl
    · cases kind <;> rfl
  have hmem : id ∈ c.memories := mem_idsWhere.mpr ⟨n, hn, by simp [hkind, NodeKind.tag]⟩
  rw [hstep, SideMap.get?_foldl_insert, if_pos hmem]
  simp [NodeKind.words?, hn, hkind]

theorem agrees_powerOn (hc : c.WellTyped) (ho : c.IsOrder order) :
    c.Agrees (.powerOn c) (c.powerUp order .empty).value c.firstContents := by
  refine ⟨fun id => ?_, fun {id n} hn hrests => ?_, fun {id n depth init clock} hn hkind => ?_⟩
  · rw [get?_powerUp ho, SideMap.get?_empty, Option.or_none, Option.isSome_map]
  · rw [get?_powerUp ho, hn, Option.map_some, Option.some_or, Option.some_inj]
    unfold powerOn Machine.shows Machine.powerOn
    cases hkind : n.kind with
    | literal => rfl
    | input => simp [hn, hkind]
    | register =>
      simp only [hn, Word.resize_false]
      cases (n.source? 0).bind c.constant? <;> rfl
    | output => rfl
    | proxy => rfl
    | operation => simp [Node.rests, hkind] at hrests
    | memory => simp [Node.rests, hkind] at hrests
  · have hsuits := hc.suits hn
    rw [hkind] at hsuits
    refine ⟨init, get?_firstContents hn hkind, hsuits.2.2.1, fun address haddress => ?_⟩
    rw [← hsuits.2.2.1] at haddress
    simp [Machine.powerOn, hn, hkind, haddress]

/-- The values that a stimulus is made of: each has the width of the input that it is for. -/
def Accepts (c : Circuit) (stimulus : Stimulus) : Prop :=
  ∀ entry ∈ stimulus, ∃ n, c.node? entry.1 = some n ∧ n.kind.tag = .input ∧ entry.2.width = n.width

end Circuit

namespace Simulation

def drive (s : Simulation) (stimulus : Stimulus) : Except SimError Simulation :=
  stimulus.foldlM (fun s entry => s.put entry.1 entry.2) s

/-- A tick after each stimulus. The first one that fails is the last. -/
def play (s : Simulation) : List Stimulus → Except SimError Simulation
  | [] => .ok s
  | stimulus :: rest => do
    let ready ← s.drive stimulus
    let (outcome, after) := ready.tick.value
    outcome
    after.play rest

/-- The simulation is where the machine is, between two ticks. -/
structure Tracks (c : Circuit) (m : Machine) (s : Simulation) : Prop where
  prepared : s.Prepared c
  agrees : c.Agrees m s.slots s.memories
  running : m.running = (s.ticks != 0)

/-- Every node shows its value, and there are no other slots. -/
def Settled {c : Circuit} (wf : WellFounded c.Depends) (m : Machine) (s : Simulation) : Prop :=
  ∀ id, s.value? id = (c.node? id).map fun _ => c.value wf m id

variable {c : Circuit} {m : Machine} {s : Simulation}

theorem Tracks.put (h : s.Tracks c m) {id : NodeId} {n : Node} {value : Word}
    (hn : c.node? id = some n) (hinput : n.kind.tag = .input) (hwidth : value.width = n.width) :
    ∃ after, s.put id value = .ok after ∧ after.Tracks c (m.put id value) ∧
      after.ticks = s.ticks := by
  have hput : s.put id value = .ok { s with slots := s.slots.insert id value } := by
    simp [Simulation.put, h.prepared.circuit_eq, hn, hwidth]
  have hprepared := h.prepared.withState (s.slots.insert id value) s.memories s.ticks
  refine ⟨_, hput, ⟨hprepared, ⟨fun other => ?_, fun {other n'} hn' hrests => ?_, h.agrees.contents⟩,
    h.running⟩, rfl⟩
  · rw [SideMap.get?_insert]
    split
    · next he => simp [← he, hn]
    · exact h.agrees.present other
  · rw [SideMap.get?_insert]
    split
    · next he =>
      subst he
      cases hn.symm.trans hn'
      obtain ⟨default, driver, proxy, hkind⟩ := NodeKind.eq_input hinput
      simp [Machine.shows, hkind, Machine.put]
    · next he =>
      rw [h.agrees.resting hn' hrests]
      simp only [Machine.shows, Machine.put, Function.update_of_ne (Ne.symm he)]

theorem Tracks.drive {stimulus : Stimulus} (h : s.Tracks c m) (hstimulus : c.Accepts stimulus) :
    ∃ after, s.drive stimulus = .ok after ∧ after.Tracks c (m.drive stimulus) ∧
      after.ticks = s.ticks := by
  induction stimulus generalizing s m with
  | nil => exact ⟨s, rfl, h, rfl⟩
  | cons entry rest ih =>
    obtain ⟨n, hn, hinput, hwidth⟩ := hstimulus entry List.mem_cons_self
    obtain ⟨next, hput, hnext, hticks⟩ := h.put hn hinput hwidth
    obtain ⟨after, hdrive, hafter, hsame⟩ :=
      ih hnext fun other hother => hstimulus other (List.mem_cons_of_mem entry hother)
    refine ⟨after, ?_, hafter, hsame.trans hticks⟩
    rw [Simulation.drive, List.foldlM_cons, hput]
    exact hdrive

/-- A tick takes the simulation to where the machine goes, and leaves all nodes settled. -/
theorem Tracks.tick (wf : WellFounded c.Depends) (hc : c.WellTyped) (h : s.Tracks c m) :
    ∃ after, s.tick.value = (.ok (), after) ∧ after.Tracks c (m.step c wf) ∧
      after.ticks = s.ticks + 1 ∧ after.Settled wf (m.step c wf) := by
  have hp := h.prepared
  -- settle, sample and commit, and settle again
  obtain ⟨settled, hfirst, hagrees, hsettled⟩ := Circuit.settlePass_eq wf s.mode hc hp.isOrder.fed
    (fun id hid => hp.isOrder.mem.mp hid) h.agrees fun _ hid => hid.elim
  have hslots : ∀ id ∈ c.ids, settled.get? id = some (c.value wf m id) := fun id hid =>
    hsettled id (.inr (hp.isOrder.mem.mpr hid))
  have helements : ∀ element ∈ s.elements, element.1 ∈ c.ids := by
    intro element hmem
    obtain ⟨n, hn, -⟩ := hp.element hmem
    exact Circuit.mem_ids_of_node? hn
  have hsample := Circuit.samplePass_eq s.mode s.ticks hc helements hslots
  obtain ⟨⟨slots, memories⟩, hstate⟩ : ∃ state, state =
      (s.elements.filterMap (c.fires s.ticks (c.value wf m))).foldl commit (settled, s.memories) :=
    ⟨_, rfl⟩
  -- the second pass starts from the nodes that the edge has left settled
  have hfree (id : NodeId) (hid : id ∈ c.ids ∧ ¬ c.ReadsState id) :
      slots.get? id = some (c.value wf (m.step c wf) id) :=
    Circuit.slot_of_not_readsState hp h.running hstate hid.1 hid.2 (hslots id hid.1)
  obtain ⟨resettled, hsecond, hagain, hresettled⟩ := Circuit.settlePass_eq wf s.mode hc hp.fed
    (fun id hid => ((hp.mem_dependent id).mp hid).mem_ids) (hagrees.edge hp h.running hstate) hfree
  have hhalted : halted s.mode.strict [] = false := by simp [halted]
  refine ⟨{ s with slots := resettled, memories, ticks := s.ticks + 1 }, ?_,
    ⟨hp.withState resettled memories (s.ticks + 1), hagain, ?_⟩, rfl, fun id => ?_⟩
  · simp [Simulation.tick, Logged.andThen, hp.circuit_eq, hfirst, hsample, ← hstate, hsecond, hhalted,
      outcome]
  · simp [Machine.step]
  · cases hn : c.node? id with
    | none =>
      have hnone := hagain.present id
      rw [hn] at hnone
      simpa [value?] using hnone
    | some n =>
      refine hresettled id ?_
      by_cases hreads : c.ReadsState id
      · exact .inr ((hp.mem_dependent id).mpr hreads)
      · exact .inl ⟨Circuit.mem_ids_of_node? hn, hreads⟩

theorem Tracks.play (wf : WellFounded c.Depends) (hc : c.WellTyped) {stimuli : List Stimulus}
    (h : s.Tracks c m) (hstimuli : ∀ stimulus ∈ stimuli, c.Accepts stimulus) :
    ∃ after, s.play stimuli = .ok after ∧
      after.Tracks c (stimuli.foldl (fun m stimulus => (m.drive stimulus).step c wf) m) ∧
      after.ticks = s.ticks + stimuli.length ∧ (stimuli ≠ [] →
        after.Settled wf (stimuli.foldl (fun m stimulus => (m.drive stimulus).step c wf) m)) := by
  induction stimuli generalizing s m with
  | nil => exact ⟨s, rfl, h, rfl, fun hne => absurd rfl hne⟩
  | cons stimulus rest ih =>
    obtain ⟨ready, hdrive, hready, hsame⟩ := h.drive (hstimuli stimulus List.mem_cons_self)
    obtain ⟨next, htick, hnext, hticks, hsettled⟩ := hready.tick wf hc
    obtain ⟨after, hplay, hafter, hlength, hlast⟩ :=
      ih hnext fun other hother => hstimuli other (List.mem_cons_of_mem stimulus hother)
    refine ⟨after, ?_, hafter, ?_, fun _ => ?_⟩
    · simp [Simulation.play, hdrive, htick, bind, Except.bind, hplay]
    · rw [hlength, hticks, hsame, List.length_cons]
      omega
    · -- the last tick settles all nodes, and with no stimulus left it is this one
      cases rest with
      | nil =>
        cases hplay
        exact hsettled
      | cons other others => exact hlast (List.cons_ne_nil other others)

theorem value_start {order : List NodeId} (h : c.order = .ok order) (mode : Mode) :
    (start c mode).value = .ok (fresh c mode order).value := by
  simp [start, Circuit.orderLogged, h, Logged.andThen, Logged.map]

theorem exists_start (hc : c.WellTyped) (hacyclic : c.Acyclic) (mode : Mode) :
    ∃ first, (start c mode).value = .ok first ∧ first.Tracks c (.powerOn c) ∧ first.ticks = 0 := by
  obtain ⟨order, horder, ho⟩ := hc.wellFormed.exists_isOrder hacyclic
  exact ⟨(fresh c mode order).value, value_start horder mode,
    ⟨prepared_fresh hc ho mode, Circuit.agrees_powerOn hc ho, rfl⟩, rfl⟩

/-- What a circuit accepts can be played to its simulation, and then each node shows its value in the
machine. -/
theorem exists_play (hc : c.WellTyped) (hacyclic : c.Acyclic) (mode : Mode) :
    ∃ (wf : WellFounded c.Depends) (first : Simulation), (start c mode).value = .ok first ∧
      ∀ stimuli : List Stimulus, (∀ stimulus ∈ stimuli, c.Accepts stimulus) →
        ∃ s, first.play stimuli = .ok s ∧ s.ticks = stimuli.length ∧
          (stimuli ≠ [] → ∀ {id n}, c.node? id = some n →
            s.value? id = some (c.value wf (.run c wf stimuli) id)) := by
  obtain ⟨order, -, ho⟩ := hc.wellFormed.exists_isOrder hacyclic
  have wf := ho.wellFounded
  obtain ⟨first, hstart, htracks, hzero⟩ := exists_start hc hacyclic mode
  refine ⟨wf, first, hstart, fun stimuli hstimuli => ?_⟩
  obtain ⟨s, hplay, -, hticks, hsettled⟩ := htracks.play wf hc hstimuli
  refine ⟨s, hplay, by rw [hticks, hzero, Nat.zero_add], fun hne id n hn => ?_⟩
  rw [hsettled hne id, hn]
  rfl

/-- Registers, memories and inputs have what they have in the machine. -/
structure Realizes (c : Circuit) (m : Machine) (s : Simulation) : Prop where
  inputs : ∀ {id n value driver proxy}, c.node? id = some n → n.kind = .input value driver proxy →
    s.value? id = some (m.inputs id)
  registers : ∀ {id n clock reset enable}, c.node? id = some n →
    n.kind = .register clock reset enable → s.value? id = some (m.registers id)
  memories : ∀ {id n depth init clock}, c.node? id = some n → n.kind = .memory depth init clock →
    ∃ words, s.memory? id = some words ∧ words.size = depth ∧
      ∀ address < depth, words[address]? = some (m.memories id address)

theorem Tracks.realizes (h : s.Tracks c m) : s.Realizes c m := by
  have hslot {id : NodeId} {n : Node} (hn : c.node? id = some n) (hrests : n.rests = true) :
      s.value? id = some (m.shows id n fun _ => none) := h.agrees.resting hn hrests
  refine ⟨fun hn hkind => ?_, fun hn hkind => ?_, h.agrees.contents⟩
  · simp [hslot hn (by simp [Node.rests, hkind]), Machine.shows, hkind]
  · simp [hslot hn (by simp [Node.rests, hkind]), Machine.shows, hkind]

/-- A simulation of a circuit without cycles runs the machine of that circuit: whatever is put on the
inputs, no tick fails, registers and memories are where the machine has them, and after every tick
each node shows its value in the machine. -/
theorem play_runs_machine (htyped : c.Typed) (hacyclic : c.Acyclic) (mode : Mode)
    (stimuli : List Stimulus) (hstimuli : ∀ stimulus ∈ stimuli, c.Accepts stimulus) :
    ∃ wf : WellFounded c.Depends, ∃ first s,
      (start c mode).value = .ok first ∧ first.play stimuli = .ok s ∧ s.ticks = stimuli.length ∧
      s.Realizes c (.run c wf stimuli) ∧
      (stimuli ≠ [] → ∀ id, s.value? id =
        (c.node? id).map fun _ => c.value wf (.run c wf stimuli) id) := by
  have hc := htyped.wellTyped
  obtain ⟨order, horder⟩ := (Circuit.exists_order_iff_acyclic hc.wellFormed).mpr hacyclic
  have wf := (Circuit.isOrder_of_order hc.wellFormed horder).wellFounded
  obtain ⟨first, hstart, htracks, hzero⟩ := exists_start hc hacyclic mode
  obtain ⟨s, hplay, hlast, hticks, hsettled⟩ := htracks.play wf hc hstimuli
  refine ⟨wf, first, s, hstart, hplay, ?_, hlast.realizes, hsettled⟩
  rw [hticks, hzero, Nat.zero_add]

/-- Adds up an input in a register that starts at five, and keeps the sums in a memory of two words,
which the output shows. -/
def accumulatorCalls : List Call :=
  [.input 4 "a" .unknown, .literal (.ofNat 4 5) "five" .unknown,
   .register 4 (some ⟨2⟩) "sum" .unknown, .operation { op := .add } ⟨3⟩ (some ⟨1⟩) "next" .unknown,
   .connectNext ⟨3⟩ ⟨4⟩, .memory 4 2 [] "sums" .unknown,
   .connectMemory ⟨5⟩ ⟨some ⟨1⟩, some ⟨1⟩, some ⟨4⟩, some ⟨2⟩⟩,
   .output 4 "out" .unknown, .drive ⟨7⟩ ⟨5⟩]

def accumulator : Circuit := .ofCalls accumulatorCalls

/-- The first tick stores nothing, and the third one finds the input as the second one left it. -/
def summands : List Stimulus := [[(⟨0⟩, .ofNat 4 3)], [(⟨0⟩, .ofNat 4 2)], []]

theorem accumulator_accepts : ∀ stimulus ∈ summands, accumulator.Accepts stimulus := by
  have hport : (accumulator.node? ⟨0⟩).map (fun n => (n.kind.tag, n.width)) = some (.input, 4) := by
    decide +kernel
  obtain ⟨n, hn, hshape⟩ := Option.map_eq_some_iff.mp hport
  have hinput (value : Nat) : ∃ n, accumulator.node? ⟨0⟩ = some n ∧ n.kind.tag = .input ∧
      (Word.ofNat 4 value).width = n.width :=
    ⟨n, hn, congrArg Prod.fst hshape, (congrArg Prod.snd hshape).symm⟩
  intro stimulus hstimulus entry hentry
  simp only [summands, List.mem_cons, List.not_mem_nil, or_false] at hstimulus
  rcases hstimulus with rfl | rfl | rfl
  · rw [List.mem_singleton.mp hentry]
    exact hinput 3
  · rw [List.mem_singleton.mp hentry]
    exact hinput 2
  · cases hentry

theorem accumulator_runs_machine :
    accumulator.Typed ∧ accumulator.Acyclic ∧ (∀ stimulus ∈ summands, accumulator.Accepts stimulus) ∧
      ∃ wf : WellFounded accumulator.Depends,
        accumulator.value wf (.run accumulator wf summands) ⟨7⟩ = .ofNat 4 9 := by
  have htyped : accumulator.Typed := Circuit.reachableBy_ofCalls (by decide)
  have horder : accumulator.order = .ok [⟨0⟩, ⟨1⟩, ⟨2⟩, ⟨3⟩, ⟨4⟩, ⟨5⟩, ⟨6⟩, ⟨7⟩] := by
    decide +kernel
  have hacyclic : accumulator.Acyclic :=
    (Circuit.isOrder_of_order htyped.wellTyped.wellFormed horder).acyclic
  have hshown : ((start accumulator {}).value.bind (·.play summands)).map (·.value? ⟨7⟩) =
      .ok (some (.ofNat 4 9)) := by decide +kernel
  obtain ⟨wf, first, s, hstart, hplay, -, -, hvalues⟩ :=
    play_runs_machine htyped hacyclic {} summands accumulator_accepts
  refine ⟨htyped, hacyclic, accumulator_accepts, wf, ?_⟩
  have hvalue : some (Word.ofNat 4 9) = (accumulator.node? ⟨7⟩).map fun _ =>
      accumulator.value wf (.run accumulator wf summands) ⟨7⟩ := by
    rw [← hvalues (List.cons_ne_nil _ _)]
    simpa [hstart, hplay, Except.bind, Except.map] using hshown.symm
  obtain ⟨n, -, hn⟩ := Option.map_eq_some_iff.mp hvalue.symm
  exact hn

end Simulation

end Netlist
