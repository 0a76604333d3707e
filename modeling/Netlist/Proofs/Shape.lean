import Netlist.Proofs.Rewind

namespace Netlist

theorem exists_of_bind_eq_ok {ε α β : Type} {x : Except ε α} {f : α → Except ε β} {b : β}
    (h : x >>= f = .ok b) : ∃ a, x = .ok a ∧ f a = .ok b := by
  cases x with
  | error e => cases h
  | ok a => exact ⟨a, rfl, h⟩

theorem Opcode.width_eval? {op : Opcode} {signed : Bool} {width : Nat} {lhs rhs result : Word}
    (h : op.eval? signed width lhs rhs = some result) : result.width = width := by
  obtain ⟨full, -, rfl⟩ := Option.map_eq_some_iff.mp h
  exact Word.width_truncate full width

namespace Circuit

variable {c : Circuit} {slots : Slots} {memories : Memories} {id : NodeId} {n : Node}

/-- Every address names a place, however wide it is. -/
theorem place_lt {depth : Nat} (h : 0 < depth) (address : Option Word) :
    place depth address < depth := by
  cases address with
  | none => exact h
  | some word => exact Nat.mod_lt _ h

/-- Slots hold values of the right width, and memories have all their words. -/
structure Shaped (c : Circuit) (state : Slots × Memories) : Prop where
  slot : ∀ {id value}, state.1.get? id = some value →
    ∃ n, c.node? id = some n ∧ value.width = n.width
  words : ∀ {id n depth init clock}, c.node? id = some n → n.kind = .memory depth init clock →
    ∃ words, state.2.get? id = some words ∧ words.size = depth ∧ ∀ word ∈ words, word.width = n.width

theorem compute_memory {depth : Nat} {init words : Array Word} {clock : Option NodeId} {shown : Word}
    (hkind : n.kind = .memory depth init clock) (hdepth : 0 < depth)
    (hwords : memories.get? id = some words) (hsize : words.size = depth)
    (h : compute memories slots id n = .ok (some shown)) :
    ∃ address, Slots.read slots (n.source? 0) = .ok address ∧
      words[place depth address]? = some shown := by
  simp only [compute, hkind, hwords] at h
  obtain ⟨address, hread, h⟩ := exists_of_bind_eq_ok h
  have hplace : place depth address < words.size := hsize ▸ place_lt hdepth address
  have hshown : words[place depth address] = shown := by
    simpa [pure, Except.pure, hplace] using h
  exact ⟨address, hread, by simp [hplace, hshown]⟩

theorem width_of_compute (hc : c.WellTyped) (hn : c.node? id = some n)
    (hshaped : c.Shaped (slots, memories)) {value : Word}
    (h : compute memories slots id n = .ok (some value)) : value.width = n.width := by
  have hcopy (h : (do return (← Slots.read slots (n.source? 0)).map (·.resize n.width false)) =
      (.ok (some value) : Except NodeId (Option Word))) : value.width = n.width := by
    obtain ⟨driver, -, h⟩ := exists_of_bind_eq_ok h
    obtain ⟨word, -, rfl⟩ := Option.map_eq_some_iff.mp (Except.ok.inj h)
    exact Word.width_resize word n.width false
  cases hkind : n.kind with
  | literal => simp [compute, hkind] at h
  | input => simp [compute, hkind] at h
  | register => simp [compute, hkind] at h
  | output => exact hcopy (by simpa only [compute, hkind] using h)
  | proxy => exact hcopy (by simpa only [compute, hkind] using h)
  | operation op signed =>
    simp only [compute, hkind] at h
    obtain ⟨pair, -, h⟩ := exists_of_bind_eq_ok h
    obtain rfl := Option.some.inj (Except.ok.inj h)
    cases heval : op.eval? signed n.width pair.1 pair.2 with
    | none => exact Word.width_zero n.width
    | some result => exact Opcode.width_eval? heval
  | memory depth init clock =>
    obtain ⟨words, hwords, hsize, hwidth⟩ := hshaped.words hn hkind
    have hsuits := hc.suits hn
    rw [hkind] at hsuits
    obtain ⟨address, -, hword⟩ := compute_memory hkind hsuits.2.1 hwords hsize h
    exact hwidth value (Array.mem_of_getElem? hword)

theorem width_of_settle (hc : c.WellTyped) (hshaped : c.Shaped (slots, memories)) {value : Word}
    (h : c.settle memories slots id = .ok (some value)) :
    ∃ n, c.node? id = some n ∧ value.width = n.width := by
  obtain ⟨n, hn⟩ := node?_of_settle h
  simp only [settle, hn] at h
  obtain ⟨computed, hcompute, h⟩ := exists_of_bind_eq_ok h
  split at h
  · cases h
  · obtain rfl := Except.ok.inj h
    exact ⟨n, hn, width_of_compute hc hn hshaped hcompute⟩

/-- A register loads a value of its width, and a memory stores a word of its width at a place that
an address names. -/
theorem sample_cases {update : Update} (h : c.sample slots id = .ok (some update)) :
    ∃ n, c.node? id = some n ∧ n.kind.isStateful = true ∧
      ((∃ value, update = .load id value ∧ value.width = n.width) ∨
        ∃ depth init clock address data, n.kind = .memory depth init clock ∧
          update = .store id (place depth address) data ∧ data.width = n.width) := by
  cases hn : c.node? id with
  | none => simp [sample, hn] at h
  | some n =>
    refine ⟨n, rfl, ?_⟩
    simp only [sample, hn] at h
    cases hkind : n.kind with
    | register clock reset enable =>
      -- a missing read ends the sampling, so each read before the result has succeeded
      simp only [hkind] at h
      split at h
      · cases h
      · obtain ⟨inReset, -, h⟩ := exists_of_bind_eq_ok h
        obtain ⟨picked, -, h⟩ := exists_of_bind_eq_ok h
        obtain ⟨word, -, rfl⟩ := Option.map_eq_some_iff.mp (Except.ok.inj h)
        exact ⟨rfl, .inl ⟨_, rfl, Word.width_resize word n.width false⟩⟩
    | memory depth init clock =>
      simp only [hkind] at h
      obtain ⟨enable, -, h⟩ := exists_of_bind_eq_ok h
      split at h
      · cases h
      · obtain ⟨address, -, h⟩ := exists_of_bind_eq_ok h
        obtain ⟨data, -, h⟩ := exists_of_bind_eq_ok h
        obtain rfl := Option.some.inj (Except.ok.inj h)
        refine ⟨rfl, .inr ⟨depth, init, clock, address, _, rfl, rfl, ?_⟩⟩
        cases data with
        | none => exact Word.width_zero n.width
        | some word => exact Word.width_resize word n.width false
    | _ => simp [hkind] at h

theorem Shaped.insert (h : c.Shaped (slots, memories)) (hn : c.node? id = some n) {value : Word}
    (hwidth : value.width = n.width) : c.Shaped (slots.insert id value, memories) := by
  refine ⟨fun {other shown} hshown => ?_, h.words⟩
  rw [SideMap.get?_insert] at hshown
  split at hshown
  · next he =>
    cases hshown
    exact ⟨n, he ▸ hn, hwidth⟩
  · exact h.slot hshown

theorem Shaped.load (h : c.Shaped (slots, memories)) (hn : c.node? id = some n) {value : Word}
    (hwidth : value.width = n.width) : c.Shaped (slots.modify id fun _ => value, memories) := by
  refine ⟨fun {other shown} hshown => ?_, h.words⟩
  rw [SideMap.get?_modify] at hshown
  split at hshown
  · next he =>
    obtain ⟨old, -, rfl⟩ := Option.map_eq_some_iff.mp hshown
    exact ⟨n, he ▸ hn, hwidth⟩
  · exact h.slot hshown

theorem Shaped.store (h : c.Shaped (slots, memories)) (hn : c.node? id = some n) {data : Word}
    (hwidth : data.width = n.width) (address : Nat) :
    c.Shaped (slots, memories.modify id (·.setIfInBounds address data)) := by
  refine ⟨h.slot, fun {other n'} {depth init clock} hn' hkind => ?_⟩
  obtain ⟨words, hwords, hsize, hwidths⟩ := h.words hn' hkind
  rw [SideMap.get?_modify, hwords]
  split
  · next he =>
    cases (he ▸ hn).symm.trans hn'
    refine ⟨words.setIfInBounds address data, rfl, by simpa using hsize, fun word hword => ?_⟩
    rcases Array.mem_or_eq_of_mem_setIfInBounds hword with hold | rfl
    · exact hwidths word hold
    · exact hwidth
  · exact ⟨words, rfl, hsize, hwidths⟩

theorem WellTyped.width_powerOn (hc : c.WellTyped) (hn : c.node? id = some n) :
    (c.powerOn n).width = n.width := by
  have hsuits := hc.suits hn
  unfold powerOn
  cases hkind : n.kind with
  | literal value =>
    rw [hkind] at hsuits
    exact hsuits
  | input value driver proxy =>
    rw [hkind] at hsuits
    exact hsuits
  | register clock reset enable =>
    cases (n.source? 0).bind c.constant? with
    | none => exact Word.width_zero n.width
    | some value => exact Word.width_resize value n.width false
  | _ => rfl

theorem WellTyped.shaped_firstContents (hc : c.WellTyped)
    (hslots : ∀ {id value}, slots.get? id = some value →
      ∃ n, c.node? id = some n ∧ value.width = n.width) : c.Shaped (slots, c.firstContents) := by
  refine ⟨hslots, fun {id n} {depth init clock} hn hkind => ?_⟩
  have hsuits := hc.suits hn
  rw [hkind] at hsuits
  exact ⟨init, get?_firstContents hn hkind, hsuits.2.2⟩

theorem Shaped.move (hc : c.WellTyped) {before after : Slots × Memories} (h : c.Shaped before)
    (hmove : Simulation.Move c before after) : c.Shaped after := by
  cases hmove with
  | settle hsettle =>
    obtain ⟨n, hn, hwidth⟩ := width_of_settle hc h hsettle
    exact h.insert hn hwidth
  | commit hsample =>
    obtain ⟨n, hn, -,
      ⟨value, rfl, hwidth⟩ | ⟨depth, init, clock, address, data, -, rfl, hwidth⟩⟩ :=
      sample_cases hsample
    · exact h.load hn hwidth
    · exact h.store hn hwidth _
  | put hn hwidth => exact h.insert hn hwidth
  | remove id =>
    refine ⟨fun {other shown} hshown => ?_, h.words⟩
    rw [SideMap.get?_erase] at hshown
    split at hshown
    · cases hshown
    · exact h.slot hshown
  | powerUp hn => exact h.insert hn (hc.width_powerOn hn)
  | refill => exact hc.shaped_firstContents h.slot

theorem WellTyped.shaped_start (hc : c.WellTyped) (order : List NodeId) :
    c.Shaped ((c.powerUp order .empty).value, c.firstContents) := by
  have hempty : c.Shaped (.empty, c.firstContents) := hc.shaped_firstContents (by simp)
  exact (Simulation.moves_powerUp c c.firstContents order .empty).preserves (Shaped.move hc) hempty

theorem stored_of_sample {sampled : Slots} {depth address : Nat} {init words : Array Word}
    {clock : Option NodeId} {data : Word} (hn : c.node? id = some n)
    (hkind : n.kind = .memory depth init clock) (hdepth : 0 < depth)
    (hwords : memories.get? id = some words) (hsize : words.size = depth)
    (h : c.sample sampled id = .ok (some (.store id address data))) :
    ∃ stored, (Simulation.commit (slots, memories) (.store id address data)).2.get? id =
      some stored ∧ stored[address]? = some data := by
  obtain ⟨n', hn', -,
    ⟨value, hload, -⟩ | ⟨depth', init', clock', word, data', hkind', hstore, -⟩⟩ := sample_cases h
  · cases hload
  · cases hn.symm.trans hn'
    cases hkind.symm.trans hkind'
    cases hstore
    have hplace : place depth word < words.size := hsize ▸ place_lt hdepth word
    refine ⟨words.setIfInBounds (place depth word) data, ?_, by simp [hplace]⟩
    simp [Simulation.commit, SideMap.get?_modify, hwords]

end Circuit

namespace Simulation

variable {c : Circuit}

/-- Whatever is asked of a simulation, and whether that succeeds or fails: there are slots for nodes of
the circuit only, with values of their widths, and a memory has as many words as it is deep, all of its
width. An address of any width names one of them, so what a memory shows is read from it, and what it
stores is found there. -/
theorem shape_after_actions (h : c.Typed) (hacyclic : c.Acyclic) (mode : Mode) :
    ∃ first, (start c mode).value = .ok first ∧ ∀ actions,
      (∀ id value, (first.after actions).value? id = some value →
        ∃ n, c.node? id = some n ∧ value.width = n.width) ∧
      ∀ id n depth init clock, c.node? id = some n → n.kind = .memory depth init clock →
        ∃ words, (first.after actions).memory? id = some words ∧ words.size = depth ∧
          (∀ word ∈ words, word.width = n.width) ∧
          (∀ address, Circuit.place depth address < words.size) ∧
          (∀ slots shown,
            Circuit.compute (first.after actions).memories slots id n = .ok (some shown) →
              ∃ address, Slots.read slots (n.source? 0) = .ok address ∧
                words[Circuit.place depth address]? = some shown) ∧
          ∀ slots address data, c.sample slots id = .ok (some (.store id address data)) →
            ∃ stored, (commit (slots, (first.after actions).memories)
              (.store id address data)).2.get? id = some stored ∧ stored[address]? = some data := by
  have hc := h.wellTyped
  obtain ⟨order, horder⟩ := (Circuit.exists_order_iff_acyclic hc.wellFormed).mpr hacyclic
  refine ⟨(fresh c mode order).value, value_start horder mode, fun actions => ?_⟩
  have hleads := leads_after (fresh c mode order).value actions
  have hshaped := hleads.moves.preserves (Circuit.Shaped.move hc) (hc.shaped_start order)
  refine ⟨fun id value => hshaped.slot, fun id n depth init clock hn hkind => ?_⟩
  obtain ⟨words, hwords, hsize, hwidths⟩ := hshaped.words hn hkind
  have hdepth : 0 < depth := by
    have hsuits := hc.suits hn
    rw [hkind] at hsuits
    exact hsuits.2.1
  exact ⟨words, hwords, hsize, hwidths, fun address => hsize ▸ Circuit.place_lt hdepth address,
    fun slots shown => Circuit.compute_memory hkind hdepth hwords hsize,
    fun slots address data => Circuit.stored_of_sample hn hkind hdepth hwords hsize⟩

/-- Addresses are four bits wide and the memory has two words. After a tick that failed, both are
there. -/
theorem accumulator_keeps_shape :
    accumulator.Typed ∧ accumulator.Acyclic ∧
      ∃ first, (start accumulator { strict := true }).value = .ok first ∧
        ∃ words, (first.after disturbances).memory? ⟨5⟩ = some words ∧ words.size = 2 ∧
          (∀ word ∈ words, word.width = 4) ∧ Circuit.place 2 (some (.ofNat 4 15)) < words.size := by
  have htyped : accumulator.Typed := Circuit.reachableBy_ofCalls (by decide)
  have hmemory : (accumulator.node? ⟨5⟩).map (fun n => (n.kind, n.width)) =
      some (.memory 2 #[.zero 4, .zero 4] none, 4) := by decide +kernel
  obtain ⟨n, hn, hshape⟩ := Option.map_eq_some_iff.mp hmemory
  obtain ⟨first, hstart, hall⟩ := shape_after_actions htyped accumulator_acyclic { strict := true }
  obtain ⟨words, hwords, hsize, hwidths, hplace, -⟩ :=
    (hall disturbances).2 ⟨5⟩ n _ _ _ hn (congrArg Prod.fst hshape)
  refine ⟨htyped, accumulator_acyclic, first, hstart, words, hwords, hsize, fun word hword => ?_,
    hplace _⟩
  rw [hwidths word hword]
  exact congrArg Prod.snd hshape

end Simulation

end Netlist
