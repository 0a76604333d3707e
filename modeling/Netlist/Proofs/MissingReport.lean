import Netlist.Proofs.EmptyMemories
import Netlist.Proofs.Resettling
import Netlist.Proofs.Strictness

namespace Netlist

/-- What the slot of a node shows, which is no bit at all if there is none. -/
def Slots.shown (slots : Slots) (id : NodeId) : Word := (slots.get? id).getD (.zero 0)

theorem Slots.get?_of_contains {slots : Slots} {id : NodeId} (h : slots.contains id = true) :
    slots.get? id = some (slots.shown id) := by
  obtain ⟨value, hvalue⟩ := Option.isSome_iff_exists.mp h
  rw [Slots.shown, hvalue, Option.getD_some]

theorem Slots.read_of_present {slots : Slots} {source : Option NodeId}
    (h : ∀ src ∈ source.toList, slots.contains src = true) :
    slots.read source = .ok (source.map slots.shown) :=
  Circuit.read_eq fun src hsrc => get?_of_contains (h src (Option.mem_toList.mpr hsrc))

theorem Slots.of_read_eq_ok {slots : Slots} {source : Option NodeId} {value : Option Word}
    (h : slots.read source = .ok value) :
    value = source.map slots.shown ∧ ∀ src ∈ source.toList, slots.contains src = true := by
  have hpresent : ∀ src ∈ source.toList, slots.contains src = true := by
    rw [← List.all_eq_true, ← Circuit.isOk_read, h]
    rfl
  exact ⟨Except.ok.inj (h.symm.trans (read_of_present hpresent)), hpresent⟩

theorem Slots.any_isTrue_shown (slots : Slots) (source : Option NodeId) :
    (source.map slots.shown).any (·.isTrue) =
      source.any fun id => (slots.shown id).toNat != 0 := by
  cases source <;> rfl

/-- The sources that a node reads at a clock edge, given the value of each node: a register its reset
and then its initial or its next value, and a memory its enable and, if that is not zero, its address
and its data. -/
def Node.edgeReads (n : Node) (value : NodeId → Word) : List NodeId :=
  match n.kind with
  | .register _ reset _ =>
    let inReset := reset.any fun id => (value id).toNat != 0
    let source := if inReset && (n.source? 0).isSome then n.source? 0 else n.source? 1
    reset.toList ++ source.toList
  | .memory .. =>
    let enabled := (n.source? 3).any fun id => (value id).toNat != 0
    (n.source? 3).toList ++ if enabled then (n.source? 1).toList ++ (n.source? 2).toList else []
  | _ => []

def Cell.updated (cell : Cell) (update : Option Update) : Cell :=
  (update.map (·.apply cell)).getD cell

namespace Circuit

/-- A node other than a literal that has no slot, or that reads a source which has none. -/
def Lacks (c : Circuit) (slots : Slots) (id : NodeId) : Prop :=
  ∃ n, c.node? id = some n ∧ n.literal? = none ∧
    (slots.contains id = false ∨ ∃ src ∈ n.reads, slots.contains src = false)

/-- The first tick is no clock edge for an element that samples a value which depends on state, or one
of a node that the circuit does not have. -/
def HeldBack (c : Circuit) (ticks : Nat) (n : Node) : Prop :=
  ticks = 0 ∧ ∃ src ∈ n.sampled, src ∈ c.ids → c.ReadsState src

/-- An element that is not held back, and reads a source at the clock edge which has no slot. -/
def Misses (c : Circuit) (ticks : Nat) (slots : Slots) (id : NodeId) : Prop :=
  ∃ n, c.node? id = some n ∧ ¬ c.HeldBack ticks n ∧
    ∃ src ∈ n.edgeReads slots.shown, slots.contains src = false

/-- How nodes settle: those that lack a slot stay as they are, and every other node that is computed
shows what it computes from the slots as they become. -/
structure Settles (c : Circuit) (memories : Memories) (before after : Slots) : Prop where
  contains_eq : after.contains = before.contains
  skipped : ∀ {id}, c.Lacks before id → after.get? id = before.get? id
  executed : ∀ {id n}, c.node? id = some n → ¬ c.Lacks before id →
    ∃ computed, compute memories after id n = .ok computed ∧
      after.get? id = computed.or (before.get? id)

/-- How slots and memories change at a clock edge: an element that is neither held back nor misses a
source commits its update, and nothing else changes. -/
structure Clocks (c : Circuit) (ticks : Nat) (before after : Slots × Memories) : Prop where
  commits : ∀ {id n}, c.node? id = some n → ¬ c.HeldBack ticks n → ¬ c.Misses ticks before.1 id →
    Cell.of after id = (Cell.of before id).updated (n.update? id before.1.shown)
  keeps : ∀ {id}, (∀ n, c.node? id = some n → c.HeldBack ticks n ∨ c.Misses ticks before.1 id) →
    Cell.of after id = .of before id

section Settling

variable {c : Circuit} {memories : Memories} {slots : Slots} {id : NodeId} {n : Node}

theorem reads_of_literal (h : n.literal?.isSome = true) : n.reads = [] := by
  unfold Node.literal? at h
  unfold Node.reads
  cases hkind : n.kind <;> simp_all

theorem lacks_iff : c.Lacks slots id ↔ c.ready slots id = false := by
  unfold Lacks ready
  cases c.node? id with
  | none => simp
  | some n =>
    cases hliteral : n.literal? with
    | some value =>
      have hreads := reads_of_literal (n := n) (by rw [hliteral]; rfl)
      simp [hliteral, hreads]
    | none =>
      simp only [Option.some.injEq, exists_eq_left', hliteral, true_and, Option.isSome_none,
        Bool.false_or, Bool.and_eq_false_iff, List.all_eq_false, Bool.not_eq_true]
      exact or_comm

theorem lacks_congr {slots' : Slots} (h : slots'.contains = slots.contains) (id : NodeId) :
    c.Lacks slots' id ↔ c.Lacks slots id := by
  rw [lacks_iff, lacks_iff, ready_congr h]

theorem Lacks.mem_ids (h : c.Lacks slots id) : id ∈ c.ids := by
  obtain ⟨n, hn, -⟩ := h
  exact mem_ids_of_node? hn

theorem rests_of_compute (h : compute memories slots id n = .ok none) : n.rests = true := by
  unfold compute at h
  unfold Node.rests
  cases hkind : n.kind with
  | literal => rfl
  | input => rfl
  | register => rfl
  | operation =>
    simp only [hkind] at h
    obtain ⟨_, -, h⟩ := exists_of_bind_eq_ok h
    cases h
  | memory =>
    simp only [hkind] at h
    obtain ⟨_, -, h⟩ := exists_of_bind_eq_ok h
    cases h
  | _ =>
    simp only [hkind] at h
    obtain ⟨value, hread, h⟩ := exists_of_bind_eq_ok h
    obtain rfl : value = none := Option.map_eq_none_iff.mp (Except.ok.inj h)
    have hnone := (Slots.of_read_eq_ok hread).1
    rwa [eq_comm, Option.map_eq_none_iff, ← Option.isNone_iff_eq_none] at hnone

theorem exists_settle (memories : Memories) (hn : c.node? id = some n) (h : ¬ c.Lacks slots id) :
    ∃ computed, c.settle memories slots id = .ok computed ∧
      compute memories slots id n = .ok computed := by
  have hok : (c.settle memories slots id).isOk = true := by
    rw [isOk_settle, ← Bool.not_eq_false]
    exact mt lacks_iff.mpr h
  cases hsettle : c.settle memories slots id with
  | error slot =>
    rw [hsettle] at hok
    cases hok
  | ok computed =>
    refine ⟨computed, rfl, ?_⟩
    simp only [settle, hn] at hsettle
    obtain ⟨value, hcompute, hrest⟩ := exists_of_bind_eq_ok hsettle
    split at hrest
    · cases hrest
    · rw [hcompute]
      exact hrest

end Settling

section Sampling

variable {c : Circuit} {slots : Slots} {id : NodeId} {n : Node}

theorem sample_of_present (hn : c.node? id = some n)
    (hown : n.kind.tag = .register → slots.contains id = true)
    (hreads : ∀ src ∈ n.edgeReads slots.shown, slots.contains src = true) :
    c.sample slots id = .ok (n.update? id slots.shown) := by
  unfold sample
  simp only [hn]
  cases hkind : n.kind with
  | register clock reset enable =>
    rw [Node.update?_of_register (by rw [hkind]; rfl)]
    simp only [Node.edgeReads, hkind, List.forall_mem_append] at hreads
    simp only [hown (by rw [hkind]; rfl), Slots.read_of_present hreads.1, Slots.any_isTrue_shown,
      Slots.read_of_present hreads.2, Node.loads, hkind, Bool.not_true, Bool.false_eq_true, if_false,
      bind, Except.bind, pure, Except.pure, Option.map_map, Function.comp_def, Word.resize_false]
  | memory depth init clock =>
    rw [Node.update?_of_memory (by rw [hkind]; rfl)]
    simp only [Node.edgeReads, hkind, List.forall_mem_append] at hreads
    obtain ⟨henable, hports⟩ := hreads
    simp only [Slots.read_of_present henable, Slots.any_isTrue_shown, Node.stores, hkind, bind,
      Except.bind, pure, Except.pure]
    cases henabled : (n.source? 3).any fun id => (slots.shown id).toNat != 0 with
    | false => rfl
    | true =>
      simp only [henabled, if_true, List.forall_mem_append] at hports
      simp [Slots.read_of_present hports.1, Slots.read_of_present hports.2, place, Option.map_map,
        Function.comp_def, Word.resize_false]
  | _ => simp [Node.update?, Node.loads, Node.stores, hkind]

theorem present_of_sample {update : Option Update} (hn : c.node? id = some n)
    (h : c.sample slots id = .ok update) :
    (n.kind.tag = .register → slots.contains id = true) ∧
      ∀ src ∈ n.edgeReads slots.shown, slots.contains src = true := by
  unfold sample at h
  simp only [hn] at h
  unfold Node.edgeReads
  -- a read that succeeds has found the slot of its source
  cases hkind : n.kind with
  | register clock reset enable =>
    simp only [hkind] at h
    split at h
    · cases h
    · next hown =>
      obtain ⟨value, hread, h⟩ := exists_of_bind_eq_ok h
      obtain ⟨picked, hpicked, -⟩ := exists_of_bind_eq_ok h
      obtain ⟨rfl, hreset⟩ := Slots.of_read_eq_ok hread
      rw [Slots.any_isTrue_shown] at hpicked
      refine ⟨fun _ => by simpa using hown, ?_⟩
      exact List.forall_mem_append.mpr ⟨hreset, (Slots.of_read_eq_ok hpicked).2⟩
  | memory depth init clock =>
    simp only [hkind] at h
    obtain ⟨value, hread, h⟩ := exists_of_bind_eq_ok h
    obtain ⟨rfl, henable⟩ := Slots.of_read_eq_ok hread
    rw [Slots.any_isTrue_shown] at h
    refine ⟨nofun, List.forall_mem_append.mpr ⟨henable, ?_⟩⟩
    cases henabled : (n.source? 3).any fun id => (slots.shown id).toNat != 0 with
    | false => simp
    | true =>
      simp only [henabled, Bool.not_true, Bool.false_eq_true, if_false] at h
      obtain ⟨address, haddress, h⟩ := exists_of_bind_eq_ok h
      obtain ⟨data, hdata, -⟩ := exists_of_bind_eq_ok h
      rw [if_pos rfl, List.forall_mem_append]
      exact ⟨(Slots.of_read_eq_ok haddress).2, (Slots.of_read_eq_ok hdata).2⟩
  | _ => simp [NodeKind.tag]

theorem isOk_sample_iff (hn : c.node? id = some n) : (c.sample slots id).isOk = true ↔
    (n.kind.tag = .register → slots.contains id = true) ∧
      ∀ src ∈ n.edgeReads slots.shown, slots.contains src = true := by
  constructor
  · intro hok
    cases hsample : c.sample slots id with
    | error slot =>
      rw [hsample] at hok
      cases hok
    | ok update => exact present_of_sample hn hsample
  · rintro ⟨hown, hreads⟩
    rw [sample_of_present hn hown hreads]
    rfl

/-- A register without a slot has nothing to load a value into. -/
theorem updated_of_register {cell : Cell} (hregister : n.kind.tag = .register)
    (hslot : cell.slot = none) (value : NodeId → Word) :
    cell.updated (n.update? id value) = cell := by
  rw [Node.update?_of_register hregister]
  cases n.loads value with
  | none => rfl
  | some word =>
    obtain ⟨slot, words⟩ := cell
    obtain rfl : slot = none := hslot
    rfl

end Sampling

end Circuit

namespace Simulation

open Circuit

section Skipping

variable {id other : NodeId} {missing : List NodeId}

theorem mem_addMissing_iff : id ∈ addMissing missing other ↔ id ∈ missing ∨ other = id := by
  unfold addMissing
  split
  · next h =>
    refine ⟨.inl, fun hid => hid.elim (fun hmem => hmem) ?_⟩
    rintro rfl
    exact List.contains_iff_mem.mp h
  · rw [List.mem_append, List.mem_singleton, eq_comm (a := id)]

variable {σ α : Type} {skipped : σ → List NodeId} {step : σ → α → σ} {key : α → NodeId}
  {Skips : α → Prop} {P : σ → Prop} {p : σ} {as : List α}

/-- As long as `P` holds, which steps keep, a step skips the entries of which `Skips` holds. -/
structure Skipping (skipped : σ → List NodeId) (step : σ → α → σ) (key : α → NodeId)
    (Skips : α → Prop) (P : σ → Prop) : Prop where
  keeps : ∀ {p}, P p → ∀ a, P (step p a)
  skips : ∀ {p a}, P p → Skips a → skipped (step p a) = addMissing (skipped p) (key a)
  goes : ∀ {p a}, P p → ¬ Skips a → skipped (step p a) = skipped p

theorem Skipping.mem_step (h : Skipping skipped step key Skips P) (hp : P p) (a : α) :
    id ∈ skipped (step p a) ↔ id ∈ skipped p ∨ Skips a ∧ key a = id := by
  by_cases ha : Skips a
  · rw [h.skips hp ha, mem_addMissing_iff, and_iff_right ha]
  · rw [h.goes hp ha]
    simp [ha]

theorem Skipping.mem_foldl (h : Skipping skipped step key Skips P) (hp : P p) :
    id ∈ skipped (as.foldl step p) ↔ id ∈ skipped p ∨ ∃ a ∈ as, Skips a ∧ key a = id := by
  induction as generalizing p with
  | nil => simp
  | cons a rest ih =>
    rw [List.foldl_cons, ih (h.keeps hp a), h.mem_step hp, or_assoc, List.exists_mem_cons_iff]

/-- Neither settling nor skipping a node makes another one lack a slot. -/
theorem skipping_settle (c : Circuit) (memories : Memories) (slots : Slots) :
    Skipping Pass.missing (Pass.settle c memories) (fun id => id) (c.Lacks slots)
      fun p => p.slots.contains = slots.contains := by
  refine ⟨fun hp id => (contains_settle _ id).trans hp, fun hp hlacks => ?_, fun hp hlacks => ?_⟩
  · rw [lacks_iff, ← ready_congr hp] at hlacks
    rw [missing_settle, hlacks]
    rfl
  · rw [lacks_iff, ← ready_congr hp, Bool.not_eq_false] at hlacks
    rw [missing_settle, hlacks]
    rfl

theorem mem_missing_foldl_settle {c : Circuit} {memories : Memories} {p : Pass} {ids : List NodeId} :
    id ∈ (ids.foldl (Pass.settle c memories) p).missing ↔
      id ∈ p.missing ∨ id ∈ ids ∧ c.Lacks p.slots id := by
  rw [(skipping_settle c memories p.slots).mem_foldl (p := p) rfl]
  simp only [exists_eq_right_right]

def Fails (c : Circuit) (ticks : Nat) (slots : Slots) (element : NodeId × Bool) : Prop :=
  holds ticks element = false ∧ (c.sample slots element.1).isOk = false

end Skipping

section Passes

variable {c : Circuit} {mode : Mode} {memories : Memories} {order ids : List NodeId} {p : Pass}

theorem settlePass_of_lenient (h : mode.strict = false) :
    (settlePass c mode memories ids p).value = ids.foldl (Pass.settle c memories) p := by
  rw [value_settlePass]
  exact foldl_proceed_of_not_halted (by rw [h]; rfl)

theorem samplePass_of_lenient (h : mode.strict = false) {ticks : Nat} {slots : Slots}
    {elements : List (NodeId × Bool)} {missing : List NodeId} :
    (samplePass c mode ticks slots elements missing).value =
      elements.foldl (Samples.add c ticks slots) ⟨[], missing⟩ := by
  rw [value_samplePass]
  exact foldl_proceed_of_not_halted (by rw [h]; rfl)

theorem get?_settle_of_lacks {id : NodeId} (h : c.Lacks p.slots id) (other : NodeId) :
    (p.settle c memories other).slots.get? id = p.slots.get? id := by
  by_cases he : other = id
  · subst he
    rw [lacks_iff, ← isOk_settle c memories] at h
    unfold Pass.settle
    cases hsettle : c.settle memories p.slots other with
    | error slot => rfl
    | ok computed =>
      rw [hsettle] at h
      cases h
  · exact get?_settle_of_ne he

theorem get?_foldl_settle_of_lacks {id : NodeId} (h : c.Lacks p.slots id) (ids : List NodeId) :
    (ids.foldl (Pass.settle c memories) p).slots.get? id = p.slots.get? id := by
  induction ids generalizing p with
  | nil => rfl
  | cons other rest ih =>
    rw [List.foldl_cons, ih ((lacks_congr (contains_settle p other) id).mpr h),
      get?_settle_of_lacks h other]

theorem settles_settlePass (ho : c.IsOrder order) (h : mode.strict = false) :
    c.Settles memories p.slots (settlePass c mode memories order p).value.slots := by
  have hcontains : (settlePass c mode memories order p).value.slots.contains = p.slots.contains :=
    contains_settlePass
  refine ⟨hcontains, fun {id} hlacks => ?_, fun {id n} hn hlacks => ?_⟩
  · rw [settlePass_of_lenient h]
    exact get?_foldl_settle_of_lacks hlacks order
  · -- nothing that the node reads settles after it, so the final slots still give what it settled on
    obtain ⟨computed, hsettle, hcompute⟩ :=
      exists_settle memories hn (mt (lacks_congr hcontains id).mp hlacks)
    refine ⟨computed, hcompute, ?_⟩
    cases computed with
    | none => exact get?_settlePass_of_rests hn (rests_of_compute hcompute)
    | some value =>
      have hid : id ∈ order := ho.mem.mpr (mem_ids_of_node? hn)
      have hsteady : (settlePass c mode memories order p).value.Steady c memories id :=
        steady_settlePass ho (by rw [h]; rfl) hid
      exact (steady_iff.mp hsteady).2 value hsettle

end Passes

/-- Every register and memory is sampled once, unless it is held back. -/
structure Sequenced (s : Simulation) : Prop where
  nodup : (s.elements.map Prod.fst).Nodup
  element : ∀ {element}, element ∈ s.elements → ∃ n, s.circuit.node? element.1 = some n ∧
    n.kind.isStateful = true ∧ (holds s.ticks element = true ↔ s.circuit.HeldBack s.ticks n)
  exists_element : ∀ {id n}, s.circuit.node? id = some n → n.kind.isStateful = true →
    ∃ element ∈ s.elements, element.1 = id

section Edge

/-- What an element that is sampled does, if it misses nothing. -/
def fired (c : Circuit) (ticks : Nat) (slots : Slots) (element : NodeId × Bool) : Option Update :=
  if holds ticks element then none else (c.sample slots element.1).toOption.join

variable {c : Circuit} {ticks : Nat} {slots : Slots} {id : NodeId} {n : Node}

theorem fired_of_not_isOk {element : NodeId × Bool}
    (h : ¬ (c.sample slots element.1).isOk = true) : fired c ticks slots element = none := by
  unfold fired
  cases hsample : c.sample slots element.1 with
  | error slot => simp [Except.toOption]
  | ok update => exact absurd (by rw [hsample]; rfl) h

theorem updates_foldl_add (p : Samples) (elements : List (NodeId × Bool)) :
    (elements.foldl (Samples.add c ticks slots) p).updates =
      p.updates ++ elements.filterMap (fired c ticks slots) := by
  have hadd (p : Samples) (element : NodeId × Bool) : (p.add c ticks slots element).updates =
      p.updates ++ (fired c ticks slots element).toList := by
    unfold Samples.add fired
    split
    · simp
    · cases c.sample slots element.1 with
      | error slot => simp [Except.toOption]
      | ok update => simp [Except.toOption]
  induction elements generalizing p with
  | nil => simp
  | cons element rest ih =>
    rw [List.foldl_cons, ih, hadd, List.append_assoc]
    cases hfired : fired c ticks slots element <;> simp [hfired]

theorem target_of_fired (element : NodeId × Bool) (update : Update)
    (h : fired c ticks slots element = some update) : update.target = element.1 := by
  unfold fired at h
  split at h
  · cases h
  · cases hsample : c.sample slots element.1 with
    | error slot =>
      rw [hsample] at h
      cases h
    | ok sampled =>
      obtain rfl : sampled = some update := by rwa [hsample] at h
      obtain ⟨_, -, -, ⟨_, rfl, -⟩ | ⟨_, _, _, _, _, _, rfl, -⟩⟩ := sample_cases hsample
      · rfl
      · rfl

theorem updated_fired {element : NodeId × Bool} (hn : c.node? element.1 = some n)
    (hholds : holds ticks element = false)
    (hreads : ∀ src ∈ n.edgeReads slots.shown, slots.contains src = true) (memories : Memories) :
    (Cell.of (slots, memories) element.1).updated (fired c ticks slots element) =
      (Cell.of (slots, memories) element.1).updated (n.update? element.1 slots.shown) := by
  by_cases hown : n.kind.tag = .register → slots.contains element.1 = true
  · rw [fired, hholds, sample_of_present hn hown hreads]
    rfl
  · -- a register without a slot does not fire, and the update would come to nothing
    have hnone : fired c ticks slots element = none :=
      fired_of_not_isOk fun hok => hown ((isOk_sample_iff hn).mp hok).1
    obtain ⟨hregister, hslot⟩ := Classical.not_imp.mp hown
    have hempty : (Cell.of (slots, memories) element.1).slot = none :=
      Option.not_isSome_iff_eq_none.mp hslot
    rw [hnone, updated_of_register hregister hempty]
    rfl

end Edge

section Tick

variable {s : Simulation} {id : NodeId} {n : Node}

theorem Sequenced.notMem_of_stateless (h : s.Sequenced) (hn : s.circuit.node? id = some n)
    (hstateless : n.kind.isStateful = false) : id ∉ s.elements.map Prod.fst := by
  intro hid
  obtain ⟨element, hmem, rfl⟩ := List.mem_map.mp hid
  obtain ⟨n', hn', hstateful, -⟩ := h.element hmem
  cases hn.symm.trans hn'
  rw [hstateless] at hstateful
  cases hstateful

theorem committed_eq (hlenient : s.mode.strict = false) : s.committed =
    (s.elements.filterMap (fired s.circuit s.ticks s.settled.slots)).foldl commit
      (s.settled.slots, s.memories) := by
  rw [committed, sampled, samplePass_of_lenient hlenient, updates_foldl_add]
  rfl

theorem cell_of_element (hlenient : s.mode.strict = false) (h : s.Sequenced)
    {element : NodeId × Bool} (hmem : element ∈ s.elements) :
    Cell.of s.committed element.1 = (Cell.of (s.settled.slots, s.memories) element.1).updated
      (fired s.circuit s.ticks s.settled.slots element) := by
  rw [committed_eq hlenient, Update.of_foldl_commit,
    Update.filter_target_of_mem target_of_fired h.nodup hmem]
  cases fired s.circuit s.ticks s.settled.slots element <;> rfl

theorem cell_of_not_element (hlenient : s.mode.strict = false)
    (hid : id ∉ s.elements.map Prod.fst) :
    Cell.of s.committed id = .of (s.settled.slots, s.memories) id := by
  rw [committed_eq hlenient, Update.of_foldl_commit,
    Update.filter_target_of_notMem target_of_fired hid]
  rfl

theorem Sequenced.cell_committed (h : s.Sequenced) (hlenient : s.mode.strict = false)
    (hn : s.circuit.node? id = some n) (hheld : ¬ s.circuit.HeldBack s.ticks n)
    (hmisses : ¬ s.circuit.Misses s.ticks s.settled.slots id) :
    Cell.of s.committed id = (Cell.of (s.settled.slots, s.memories) id).updated
      (n.update? id s.settled.slots.shown) := by
  cases hstateful : n.kind.isStateful with
  | true =>
    obtain ⟨element, hmem, rfl⟩ := h.exists_element hn hstateful
    obtain ⟨n', hn', -, hholds⟩ := h.element hmem
    cases hn.symm.trans hn'
    rw [cell_of_element hlenient h hmem]
    refine updated_fired hn (by simpa using mt hholds.mp hheld) (fun src hsrc => ?_) s.memories
    by_contra habsent
    exact hmisses ⟨n, hn, hheld, src, hsrc, by simpa using habsent⟩
  | false =>
    have hnone : n.update? id s.settled.slots.shown = none := by
      unfold Node.update? Node.loads Node.stores
      cases hkind : n.kind <;> simp_all [NodeKind.isStateful]
    rw [cell_of_not_element hlenient (h.notMem_of_stateless hn hstateful), hnone]
    rfl

theorem Sequenced.fired_eq_none (h : s.Sequenced) {element : NodeId × Bool}
    (hmem : element ∈ s.elements) (hkept : ∀ n, s.circuit.node? element.1 = some n →
      s.circuit.HeldBack s.ticks n ∨ s.circuit.Misses s.ticks s.settled.slots element.1) :
    fired s.circuit s.ticks s.settled.slots element = none := by
  obtain ⟨n, hn, -, hholds⟩ := h.element hmem
  rcases hkept n hn with hheld | ⟨n', hn', -, src, hsrc, habsent⟩
  · rw [fired, if_pos (hholds.mpr hheld)]
  · cases hn.symm.trans hn'
    refine fired_of_not_isOk fun hok => ?_
    have hpresent := ((isOk_sample_iff hn).mp hok).2 src hsrc
    rw [habsent] at hpresent
    cases hpresent

/-- The clock edge of a lenient tick goes on without the elements that miss a source. -/
theorem Sequenced.clocks (h : s.Sequenced) (hlenient : s.mode.strict = false) :
    s.circuit.Clocks s.ticks (s.settled.slots, s.memories) s.committed := by
  refine ⟨h.cell_committed hlenient, fun {id} hkept => ?_⟩
  by_cases hid : id ∈ s.elements.map Prod.fst
  · obtain ⟨element, hmem, rfl⟩ := List.mem_map.mp hid
    rw [cell_of_element hlenient h hmem, h.fired_eq_none hmem hkept]
    rfl
  · exact cell_of_not_element hlenient hid

theorem Sequenced.withStrict (h : s.Sequenced) (strict : Bool) : (s.withStrict strict).Sequenced :=
  ⟨h.nodup, h.element, h.exists_element⟩

theorem Arranged.withStrict (h : s.Arranged) (strict : Bool) : (s.withStrict strict).Arranged :=
  ⟨h.wellFormed, h.isOrder, h.dependent_eq⟩

end Tick

end Simulation

end Netlist
