import Netlist.Proofs.DependenceAnalysis
import Netlist.Proofs.MissingReport

namespace Netlist

namespace Node

/-- The slot holds what it is given, whatever the circuit does: a literal, an input, or an output or
proxy that is not connected. -/
def isGiven (n : Node) : Bool :=
  match n.kind with
  | .literal .. | .input .. => true
  | .output | .proxy => (n.source? 0).isNone
  | .register .. | .operation .. | .memory .. => false

theorem isGiven_of_rests {n : Node} (h : n.rests = true) (hstateful : n.kind.isStateful = false) :
    n.isGiven = true := by
  unfold rests at h
  unfold isGiven
  cases hkind : n.kind <;> simp_all [NodeKind.isStateful]

theorem exists_source_of_reads {n : Node} {src : NodeId} (h : src ∈ n.reads) :
    ∃ pos, n.source? pos = some src := by
  have hat {pos : Nat} (h : src ∈ (n.source? pos).toList) : ∃ pos, n.source? pos = some src :=
    ⟨pos, Option.mem_toList.mp h⟩
  unfold reads at h
  cases hkind : n.kind with
  | operation =>
    rw [hkind] at h
    exact (List.mem_append.mp h).elim hat hat
  | _ => simp only [hkind, List.not_mem_nil] at h <;> exact hat h

theorem samples_of_edgeReads {n : Node} {src : NodeId} {value : NodeId → Word}
    (h : src ∈ n.edgeReads value) : n.Samples src := by
  unfold edgeReads at h
  unfold Samples
  cases hkind : n.kind with
  | register clock reset enable =>
    simp only [hkind, List.mem_append, Option.mem_toList] at h
    rcases h with hreset | hpicked
    · exact .inr (.inr hreset)
    · split at hpicked
      · exact .inr (.inl hpicked)
      · exact .inl hpicked
  | memory depth init clock =>
    simp only [hkind, List.mem_append, Option.mem_toList] at h
    rcases h with henable | hports
    · exact .inr (.inr henable)
    · split at hports
      · exact (List.mem_append.mp hports).elim (fun h => .inl (Option.mem_toList.mp h))
          fun h => .inr (.inl (Option.mem_toList.mp h))
      · cases hports
  | _ => simp [hkind] at h

end Node

namespace Circuit

variable {c : Circuit} {memories memories' : Memories} {slots slots' before before' after after' : Slots}
  {id : NodeId} {n : Node}

/-- There are slots for all nodes, in both maps alike, and those that hold what they are given hold the
same. -/
structure Alike (c : Circuit) (slots slots' : Slots) : Prop where
  present : ∀ id ∈ c.ids, slots.contains id = true
  contains_eq : slots'.contains = slots.contains
  given : ∀ {id n}, c.node? id = some n → n.isGiven = true → slots'.get? id = slots.get? id

theorem Alike.present_right (h : c.Alike slots slots') : ∀ id ∈ c.ids, slots'.contains id = true := by
  rw [h.contains_eq]
  exact h.present

theorem WellFormed.not_lacks (hc : c.WellFormed) (h : ∀ id ∈ c.ids, slots.contains id = true)
    (id : NodeId) : ¬ c.Lacks slots id := by
  rintro ⟨n, hn, -, habsent | ⟨src, hsrc, habsent⟩⟩
  · rw [h id (mem_ids_of_node? hn)] at habsent
    cases habsent
  · obtain ⟨pos, hpos⟩ := Node.exists_source_of_reads hsrc
    rw [h src (mem_ids.mpr (hc.inside_of_source? hn hpos))] at habsent
    cases habsent

/-- Whatever slots settle from slots that are alike, they agree on all nodes that do not read state. -/
theorem Settles.get?_eq_of_not_readsState (hc : c.WellFormed) (hwf : WellFounded c.Depends)
    (halike : c.Alike before before') (h : c.Settles memories before after)
    (h' : c.Settles memories' before' after') (hid : id ∈ c.ids) (hreads : ¬ c.ReadsState id) :
    after'.get? id = after.get? id := by
  -- by the time a node is looked at, all that it depends on agrees, and does not read state either
  induction id using hwf.induction with
  | _ id ih =>
    obtain ⟨n, hn⟩ := exists_node_of_mem hid
    have hstateful := isStateful_of_not_readsState hreads hn
    obtain ⟨computed, hcompute, hget⟩ := h.executed hn (hc.not_lacks halike.present id)
    obtain ⟨computed', hcompute', hget'⟩ := h'.executed hn (hc.not_lacks halike.present_right id)
    have hdeps (dep : NodeId) (hdep : c.Depends dep id) : after'.get? dep = after.get? dep :=
      ih dep hdep (mem_ids.mpr (hdep.source_lt hc)) (not_readsState_of_depends hreads hdep)
    have hwords (hmemory : n.kind.tag = .memory) : memories'.get? id = memories.get? id := by
      cases hkind : n.kind <;> simp_all [NodeKind.tag, NodeKind.isStateful]
    have hsame := compute_congr hn hdeps hwords
    rw [hcompute, hcompute', Except.ok.injEq] at hsame
    subst hsame
    rw [hget, hget']
    cases computed' with
    | some value => rfl
    | none =>
      have hgiven := Node.isGiven_of_rests (rests_of_compute hcompute) hstateful
      exact halike.given hn hgiven

/-- What an element does at a clock edge is made of what it may look at, and of whether it has a slot. -/
theorem sample_congr (hn : c.node? id = some n) (hown : slots'.contains id = slots.contains id)
    (h : ∀ src, n.Samples src → slots'.get? src = slots.get? src) :
    c.sample slots' id = c.sample slots id := by
  unfold Node.Samples at h
  unfold sample
  simp only [hn]
  cases hkind : n.kind with
  | register clock reset enable =>
    simp only [hkind] at h
    have hreset : Slots.read slots' reset = Slots.read slots reset :=
      read_congr fun src hsrc => h src (.inr (.inr hsrc))
    have hpicked (inReset : Bool) :
        Slots.read slots' (if inReset then n.source? 0 else n.source? 1) =
          Slots.read slots (if inReset then n.source? 0 else n.source? 1) := by
      refine read_congr fun src hsrc => h src ?_
      cases inReset with
      | true => exact .inr (.inl hsrc)
      | false => exact .inl hsrc
    simp only [hown, hreset, hpicked]
  | memory depth init clock =>
    simp only [hkind] at h
    have haddress : Slots.read slots' (n.source? 1) = Slots.read slots (n.source? 1) :=
      read_congr fun src hsrc => h src (.inl hsrc)
    have hdata : Slots.read slots' (n.source? 2) = Slots.read slots (n.source? 2) :=
      read_congr fun src hsrc => h src (.inr (.inl hsrc))
    have henable : Slots.read slots' (n.source? 3) = Slots.read slots (n.source? 3) :=
      read_congr fun src hsrc => h src (.inr (.inr hsrc))
    simp only [haddress, hdata, henable]
  | _ => rfl

/-- An element whose slot is there, and the slots of all that it may look at, misses nothing. -/
theorem exists_sample (hn : c.node? id = some n) (hown : slots.contains id = true)
    (h : ∀ src, n.Samples src → slots.contains src = true) :
    ∃ update, c.sample slots id = .ok update :=
  ⟨_, sample_of_present hn (fun _ => hown) fun src hsrc => h src (Node.samples_of_edgeReads hsrc)⟩

end Circuit

namespace Simulation

open Circuit

variable {c : Circuit} {slots : Slots} {order : List NodeId}

/-- If all slots are there, a pass misses nothing, in strict mode as well. -/
theorem exists_settled_of_present (hc : c.WellFormed) (ho : c.IsOrder order)
    (h : ∀ id ∈ c.ids, slots.contains id = true) (mode : Mode) (memories : Memories) :
    ∃ after, (settlePass c mode memories order ⟨slots, []⟩).value = ⟨after, []⟩ ∧
      c.Settles memories slots after := by
  have hmissing : (settlePass c mode memories order ⟨slots, []⟩).value.missing = [] := by
    refine missing_settlePass_eq_nil.mpr ⟨rfl, fun id _ => ?_⟩
    rw [← Bool.not_eq_false]
    exact mt lacks_iff.mpr (hc.not_lacks h id)
  -- a strict pass that misses nothing is a lenient one
  have hlenient : (settlePass c {} memories order ⟨slots, []⟩).value =
      order.foldl (Pass.settle c memories) ⟨slots, []⟩ := settlePass_of_lenient rfl
  have hall : (settlePass c mode memories order ⟨slots, []⟩).value =
      (settlePass c {} memories order ⟨slots, []⟩).value := by
    rw [value_settlePass] at hmissing
    rw [hlenient, value_settlePass]
    exact foldl_proceed_of_not_halted (by rw [hmissing, halted_nil])
  refine ⟨(settlePass c mode memories order ⟨slots, []⟩).value.slots,
    congrArg (Pass.mk _) hmissing, ?_⟩
  rw [hall]
  exact settles_settlePass (p := ⟨slots, []⟩) ho rfl

/-- Whatever registers, memories and computed nodes hold, one pass over all nodes gives every node that
is not found to depend on state the same value, if literals, inputs and what is not connected hold the
same. An element that is found to sample no state then does the same at the clock edge. -/
theorem state_does_not_interfere (h : c.Reachable) (hacyclic : c.Acyclic) (mode : Mode) :
    ∃ s, (start c mode).value = .ok s ∧
      ∀ slots slots' memories memories', c.Alike slots slots' → ∃ after after',
        (settlePass c mode memories s.order ⟨slots, []⟩).value = ⟨after, []⟩ ∧
        (settlePass c mode memories' s.order ⟨slots', []⟩).value = ⟨after', []⟩ ∧
        (∀ id ∈ c.ids, id ∉ s.dependent →
          ∃ value, after.get? id = some value ∧ after'.get? id = some value) ∧
        ∀ id, (id, true) ∈ s.elements →
          ∃ update, c.sample after id = .ok update ∧ c.sample after' id = .ok update := by
  have hc := h.wellFormed
  obtain ⟨order, horder, ho⟩ := hc.exists_isOrder hacyclic
  refine ⟨(fresh c mode order).value, value_start horder mode, ?_⟩
  intro slots slots' memories memories' halike
  obtain ⟨after, hpass, hsettles⟩ := exists_settled_of_present hc ho halike.present mode memories
  obtain ⟨after', hpass', hsettles'⟩ :=
    exists_settled_of_present hc ho halike.present_right mode memories'
  have hsame {id : NodeId} (hid : id ∈ c.ids) (hreads : ¬ c.ReadsState id) :
      after'.get? id = after.get? id :=
    hsettles.get?_eq_of_not_readsState hc ho.wellFounded halike hsettles' hid hreads
  have hthere {id : NodeId} (hid : id ∈ c.ids) : after.contains id = true := by
    rw [hsettles.contains_eq]
    exact halike.present id hid
  refine ⟨after, after', hpass, hpass', fun id hid hnot => ?_, fun id hmem => ?_⟩
  · rw [mem_dependent_fresh hc ho] at hnot
    obtain ⟨value, hvalue⟩ := Option.isSome_iff_exists.mp (hthere hid)
    exact ⟨value, hvalue, (hsame hid hnot).trans hvalue⟩
  · obtain ⟨n, hn, -⟩ := mem_idsWhere.mp
      (map_fst_elements_fresh c mode order ▸ List.mem_map_of_mem hmem)
    have hid := mem_ids_of_node? hn
    have hfree := (free_iff hc ho hmem hn).mp rfl
    obtain ⟨update, hupdate⟩ := exists_sample hn (hthere hid) fun src hsrc => hthere (hfree src hsrc).2
    refine ⟨update, hupdate, ?_⟩
    rw [← hupdate]
    -- all that the element may look at is stateless, so it is the same after both passes
    refine sample_congr hn ?_ fun src hsrc => ?_
    · rw [hsettles.contains_eq, hsettles'.contains_eq, halike.contains_eq]
    · obtain ⟨hshows, hinside⟩ := hfree src hsrc
      exact hsame hinside (mt (readsState_iff_showsState hc).mp hshows)

/-- All slots of the sampler are there, and its input is three. -/
def calmSlots : Slots :=
  ⟨#[some (.ofNat 4 3), some (.zero 4), some (.ofNat 1 1), some (.zero 4), some (.zero 4),
     some (.zero 4), some (.zero 4), some (.zero 4), some (.zero 4), some (.zero 4)]⟩

/-- Here a register, the memory and two nodes that are computed hold something else. -/
def stirredSlots : Slots :=
  (((calmSlots.insert ⟨1⟩ (.ofNat 4 7)).insert ⟨3⟩ (.ofNat 4 9)).insert ⟨6⟩ (.ofNat 4 5)).insert ⟨9⟩
    (.ofNat 9 300)

theorem alike_stirredSlots : sampler.Alike calmSlots stirredSlots := by
  have hcalm : ∀ id ∈ sampler.ids, calmSlots.contains id = true := by decide +kernel
  have hgiven : ∀ id ∈ sampler.ids, (sampler.node? id).all (fun n =>
      !n.isGiven || stirredSlots.get? id == calmSlots.get? id) = true := by decide +kernel
  refine ⟨hcalm, ?_, fun {id n} hn hn' => ?_⟩
  · unfold stirredSlots
    rw [SideMap.contains_insert _ _ _ (by decide +kernel),
      SideMap.contains_insert _ _ _ (by decide +kernel),
      SideMap.contains_insert _ _ _ (by decide +kernel),
      SideMap.contains_insert _ _ _ (by decide +kernel)]
  · simpa [hn, hn'] using hgiven id (mem_ids_of_node? hn)

/-- The sum differs, since it reads a register. The node that doubles the input does not, nor does what
the memory stores. -/
theorem sampler_state_does_not_interfere :
    sampler.Alike calmSlots stirredSlots ∧
      ∃ s after after', (start sampler {}).value = .ok s ∧
        (settlePass sampler {} .empty s.order ⟨calmSlots, []⟩).value = ⟨after, []⟩ ∧
        (settlePass sampler {} sampler.firstContents s.order ⟨stirredSlots, []⟩).value = ⟨after', []⟩ ∧
        after.get? ⟨5⟩ ≠ after'.get? ⟨5⟩ ∧
        (∃ value, after.get? ⟨4⟩ = some value ∧ after'.get? ⟨4⟩ = some value) ∧
        ∃ update, sampler.sample after ⟨6⟩ = .ok update ∧ sampler.sample after' ⟨6⟩ = .ok update := by
  have hfound : (start sampler {}).value.map (fun s =>
      (s.elements.contains (⟨6⟩, true), s.dependent.contains ⟨4⟩,
        (settlePass sampler {} .empty s.order ⟨calmSlots, []⟩).value.slots.get? ⟨5⟩,
        (settlePass sampler {} sampler.firstContents s.order
          ⟨stirredSlots, []⟩).value.slots.get? ⟨5⟩)) =
        .ok (true, false, some (.ofNat 4 6), some (.ofNat 4 15)) := by decide +kernel
  obtain ⟨s, hstart, hpasses⟩ := state_does_not_interfere sampler_reachable sampler_acyclic {}
  obtain ⟨after, after', hafter, hafter', hsame, hsamples⟩ :=
    hpasses calmSlots stirredSlots .empty sampler.firstContents alike_stirredSlots
  simp only [hstart, hafter, hafter', Except.map, Except.ok.injEq, Prod.mk.injEq] at hfound
  obtain ⟨helement, hnot, hsum, hsum'⟩ := hfound
  refine ⟨alike_stirredSlots, s, after, after', hstart, hafter, hafter', ?_, ?_, ?_⟩
  · rw [hsum, hsum']
    decide
  · exact hsame ⟨4⟩ (by decide +kernel) (by simpa using hnot)
  · exact hsamples ⟨6⟩ (by simpa using helement)

end Simulation

end Netlist
