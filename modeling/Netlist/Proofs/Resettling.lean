import Netlist.Proofs.Shape

namespace Netlist

theorem SideMap.insert_eq_self {α : Type} {m : SideMap α} {id : NodeId} {a : α}
    (h : m.get? id = some a) : m.insert id a = m := by
  have hlt := lt_size_of_get? h
  refine eq_of_get? (by rw [size_insert]; omega) fun other => ?_
  rw [get?_insert]
  split
  · next he => rw [← he, h]
  · rfl

theorem foldl_filter_of_invariant {σ α : Type} {step : σ → α → σ} {keep : α → Bool} {P : σ → Prop}
    {as : List α} (hkept : ∀ p, P p → ∀ a ∈ as, keep a = true → P (step p a))
    (hleft : ∀ p, P p → ∀ a ∈ as, keep a = false → step p a = p) {p : σ} (hp : P p) :
    as.foldl step p = (as.filter keep).foldl step p := by
  induction as generalizing p with
  | nil => rfl
  | cons a rest ih =>
    have hrest {p : σ} (hp : P p) := ih
      (fun q hq b hb => hkept q hq b (List.mem_cons_of_mem a hb))
      (fun q hq b hb => hleft q hq b (List.mem_cons_of_mem a hb)) hp
    cases hkeep : keep a with
    | true =>
      rw [List.filter_cons_of_pos hkeep, List.foldl_cons, List.foldl_cons]
      exact hrest (hkept p hp a List.mem_cons_self hkeep)
    | false =>
      rw [List.filter_cons_of_neg (by simp [hkeep]), List.foldl_cons,
        hleft p hp a List.mem_cons_self hkeep]
      exact hrest hp

namespace Circuit

variable {c : Circuit} {memories memories' : Memories} {slots slots' : Slots} {id : NodeId}

theorem read_congr {source : Option NodeId}
    (h : ∀ src, source = some src → slots'.get? src = slots.get? src) :
    Slots.read slots' source = Slots.read slots source := by
  cases source with
  | none => rfl
  | some src => simp only [Slots.read, h src rfl]

theorem compute_congr {n : Node} (hn : c.node? id = some n)
    (hdeps : ∀ dep, c.Depends dep id → slots'.get? dep = slots.get? dep)
    (hwords : n.kind.tag = .memory → memories'.get? id = memories.get? id) :
    compute memories' slots' id n = compute memories slots id n := by
  have hread (pos : Nat) (hpos : n.kind.crossesClock pos = false) :
      Slots.read slots' (n.source? pos) = Slots.read slots (n.source? pos) :=
    read_congr fun src hsrc => hdeps src ⟨n, pos, hn, hsrc, hpos⟩
  unfold compute operands
  cases hkind : n.kind with
  | literal => rfl
  | input => rfl
  | register => rfl
  | output => simp only [hread 0 (by rw [hkind]; rfl)]
  | proxy => simp only [hread 0 (by rw [hkind]; rfl)]
  | operation => simp only [hread 0 (by rw [hkind]; rfl), hread 1 (by rw [hkind]; rfl)]
  | memory => simp only [hread 0 (by rw [hkind]; rfl), hwords (by rw [hkind]; rfl)]

/-- What a node settles on is made of what it depends on, of whether it has a slot, and of its words if
it is a memory. -/
theorem settle_congr (hdeps : ∀ dep, c.Depends dep id → slots'.get? dep = slots.get? dep)
    (hown : slots'.contains id = slots.contains id)
    (hwords : ∀ n, c.node? id = some n → n.kind.tag = .memory →
      memories'.get? id = memories.get? id) :
    c.settle memories' slots' id = c.settle memories slots id := by
  unfold settle
  cases hn : c.node? id with
  | none => rfl
  | some n => simp only [compute_congr hn hdeps (hwords n hn), hown]

theorem IsOrder.pairwise {order : List NodeId} (h : c.IsOrder order) :
    order.Pairwise fun id later => later ≠ id ∧ ¬ c.Depends later id := by
  refine List.pairwise_iff_getElem.mpr fun i j hi hj hlt => ⟨?_, fun hdepends => ?_⟩
  · exact fun he => Nat.ne_of_gt hlt ((h.nodup.getElem_inj_iff).mp he)
  · have hbefore := h.before hdepends
    rw [h.nodup.idxOf_getElem, h.nodup.idxOf_getElem] at hbefore
    omega

theorem IsOrder.not_depends_self {order : List NodeId} (h : c.IsOrder order) (id : NodeId) :
    ¬ c.Depends id id := fun hdepends => h.acyclic id (.single hdepends)

/-- What a node without state depends on is without state. -/
theorem not_readsState_of_depends {src : NodeId} (hreads : ¬ c.ReadsState id)
    (hdepends : c.Depends src id) : ¬ c.ReadsState src := by
  obtain ⟨n, pos, hn, hsrc, hpos⟩ := hdepends
  exact fun h => hreads ((readsState_iff hn).mpr (.inr ⟨src, ⟨n, pos, hn, hsrc, hpos⟩, h⟩))

theorem isStateful_of_not_readsState {n : Node} (hreads : ¬ c.ReadsState id)
    (hn : c.node? id = some n) : n.kind.isStateful = false := by
  by_contra h
  exact hreads ((readsState_iff hn).mpr (.inl (by simpa using h)))

end Circuit

namespace Simulation

open Circuit

section Steady

variable {c : Circuit} {memories memories' : Memories} {p q : Pass} {id other : NodeId}
  {ids : List NodeId}

def Pass.Steady (c : Circuit) (memories : Memories) (p : Pass) (id : NodeId) : Prop :=
  p.settle c memories id = p

theorem addMissing_eq_self {missing : List NodeId} : addMissing missing id = missing ↔ id ∈ missing := by
  unfold addMissing
  split
  · next h => exact iff_of_true rfl (List.contains_iff_mem.mp h)
  · next h => exact iff_of_false (by simp) fun hmem => h (List.contains_iff_mem.mpr hmem)

theorem mem_addMissing {missing : List NodeId} : id ∈ addMissing missing id := by
  unfold addMissing
  split
  · next h => exact List.contains_iff_mem.mp h
  · simp

/-- A node is steady if it was skipped already, or has the value that it settles on. -/
theorem steady_iff : p.Steady c memories id ↔
    (∀ slot, c.settle memories p.slots id = .error slot → id ∈ p.missing) ∧
      ∀ value, c.settle memories p.slots id = .ok (some value) → p.slots.get? id = some value := by
  unfold Pass.Steady Pass.settle
  obtain ⟨slots, missing⟩ := p
  cases c.settle memories slots id with
  | error slot => simp [addMissing_eq_self]
  | ok computed =>
    cases computed with
    | none => simp
    | some value =>
      simp only [Pass.mk.injEq, and_true, reduceCtorEq, false_implies, implies_true, true_and,
        Except.ok.injEq, Option.some.injEq, forall_eq']
      refine ⟨fun h => ?_, SideMap.insert_eq_self⟩
      rw [← h, SideMap.get?_insert, if_pos rfl]

theorem Pass.Steady.transfer (h : p.Steady c memories id)
    (hsettle : c.settle memories' q.slots id = c.settle memories p.slots id)
    (hslot : q.slots.get? id = p.slots.get? id) (hmissing : p.missing <+: q.missing) :
    q.Steady c memories' id := by
  obtain ⟨hskipped, hvalue⟩ := steady_iff.mp h
  refine steady_iff.mpr ⟨fun slot herror => ?_, fun value hsome => ?_⟩
  · exact hmissing.subset (hskipped slot (hsettle ▸ herror))
  · rw [hslot]
    exact hvalue value (hsettle ▸ hsome)

theorem get?_settle_of_ne (h : other ≠ id) :
    (p.settle c memories other).slots.get? id = p.slots.get? id := by
  unfold Pass.settle
  cases c.settle memories p.slots other with
  | error slot => rfl
  | ok computed =>
    cases computed with
    | none => rfl
    | some value => exact (SideMap.get?_insert ..).trans (if_neg h)

/-- Only what depends on a node notices that it settles. -/
theorem settle_after_settle (h : ¬ c.Depends other id) :
    c.settle memories (p.settle c memories other).slots id = c.settle memories p.slots id := by
  refine settle_congr (fun dep hdep => get?_settle_of_ne ?_)
    (congrFun (contains_settle p other) id) fun _ _ _ => rfl
  rintro rfl
  exact h hdep

theorem steady_settle (h : ¬ c.Depends id id) : (p.settle c memories id).Steady c memories id := by
  refine steady_iff.mpr ?_
  rw [settle_after_settle h]
  unfold Pass.settle
  cases c.settle memories p.slots id with
  | error slot =>
    refine ⟨fun _ _ => mem_addMissing, ?_⟩
    rintro _ ⟨⟩
  | ok computed =>
    constructor
    · rintro _ ⟨⟩
    · rintro value ⟨⟩
      exact (SideMap.get?_insert ..).trans (if_pos rfl)

theorem Pass.Steady.settle (h : p.Steady c memories id) (hne : other ≠ id)
    (hdepends : ¬ c.Depends other id) : (p.settle c memories other).Steady c memories id :=
  h.transfer (settle_after_settle hdepends) (get?_settle_of_ne hne)
    (prefix_settle c memories p other)

theorem Pass.Steady.foldl (h : p.Steady c memories id)
    (hids : ∀ other ∈ ids, other ≠ id ∧ ¬ c.Depends other id) :
    (ids.foldl (Pass.settle c memories) p).Steady c memories id := by
  induction ids generalizing p with
  | nil => exact h
  | cons other rest ih =>
    obtain ⟨hne, hdepends⟩ := hids other List.mem_cons_self
    exact ih (h.settle hne hdepends) fun later hlater => hids later (List.mem_cons_of_mem other hlater)

/-- A node that has settled is steady from then on if nothing that it depends on comes up later. -/
theorem steady_foldl (hids : ids.Pairwise fun id later => later ≠ id ∧ ¬ c.Depends later id)
    (hloop : ∀ id, ¬ c.Depends id id) (hid : id ∈ ids) :
    (ids.foldl (Pass.settle c memories) p).Steady c memories id := by
  induction ids generalizing p with
  | nil => cases hid
  | cons first rest ih =>
    obtain ⟨hfirst, hrest⟩ := List.pairwise_cons.mp hids
    rcases List.mem_cons.mp hid with rfl | hlater
    · exact (steady_settle (hloop id)).foldl hfirst
    · exact ih hrest hlater

end Steady

section Halting

variable {σ α : Type} {missing : σ → List NodeId} {step : σ → α → σ} {strict : Bool} {p : σ}

theorem foldl_proceed_of_halted (h : halted strict (missing p) = true) (as : List α) :
    as.foldl (proceed missing step strict) p = p := by
  induction as with
  | nil => rfl
  | cons a rest ih => rw [List.foldl_cons, proceed, if_pos h, ih]

theorem foldl_proceed_of_not_halted {as : List α}
    (h : halted strict (missing (as.foldl (proceed missing step strict) p)) = false) :
    as.foldl (proceed missing step strict) p = as.foldl step p := by
  induction as generalizing p with
  | nil => rfl
  | cons a rest ih =>
    cases hp : halted strict (missing p) with
    | true =>
      rw [foldl_proceed_of_halted hp, hp] at h
      cases h
    | false =>
      have hstep : proceed missing step strict p a = step p a := if_neg (by simp [hp])
      rw [List.foldl_cons, hstep] at h
      rw [List.foldl_cons, List.foldl_cons, hstep]
      exact ih h

theorem proceed_eq_self {a : α} (h : step p a = p) : proceed missing step strict p a = p := by
  unfold proceed
  rw [h, ite_self]

end Halting

section Passes

variable {c : Circuit} {mode : Mode} {memories : Memories} {order : List NodeId} {p : Pass}

/-- A pass in the order of evaluation leaves all nodes steady. -/
theorem steady_settlePass (ho : c.IsOrder order)
    (h : halted mode.strict (settlePass c mode memories order p).value.missing = false) {id : NodeId}
    (hid : id ∈ order) : (settlePass c mode memories order p).value.Steady c memories id := by
  rw [value_settlePass] at h ⊢
  rw [foldl_proceed_of_not_halted h]
  exact steady_foldl ho.pairwise ho.not_depends_self hid

theorem settlePass_of_steady {ids : List NodeId} (h : ∀ id ∈ ids, p.Steady c memories id) :
    (settlePass c mode memories ids p).value = p := by
  rw [value_settlePass]
  induction ids with
  | nil => rfl
  | cons id rest ih =>
    rw [List.foldl_cons, proceed_eq_self (h id List.mem_cons_self)]
    exact ih fun later hlater => h later (List.mem_cons_of_mem id hlater)

/-- Nodes that do not read state may be left out if they are steady. -/
theorem settlePass_filter {keep : NodeId → Bool}
    (hkeep : ∀ id ∈ order, keep id = true ↔ c.ReadsState id)
    (h : ∀ id ∈ order, ¬ c.ReadsState id → p.Steady c memories id) :
    (settlePass c mode memories order p).value =
      (settlePass c mode memories (order.filter keep) p).value := by
  rw [value_settlePass, value_settlePass]
  refine foldl_filter_of_invariant
    (P := fun q => ∀ id ∈ order, ¬ c.ReadsState id → q.Steady c memories id) ?_ ?_ h
  · -- a node that reads state is neither one that does not nor needed by one
    intro q hq reader hreader hkept id hid hreads
    have hreader := (hkeep reader hreader).mp hkept
    unfold proceed
    split
    · exact hq id hid hreads
    · refine (hq id hid hreads).settle ?_ fun hdepends => ?_
      · rintro rfl
        exact hreads hreader
      · exact not_readsState_of_depends hreads hdepends hreader
  · intro q hq id hid hleft
    have hreads : ¬ c.ReadsState id := by
      rw [← hkeep id hid, hleft]
      exact Bool.false_ne_true
    exact proceed_eq_self (hq id hid hreads)

end Passes

theorem get?_foldl_commit {updates : List Update} {id : NodeId}
    (h : ∀ register value, .load register value ∈ updates → register ≠ id)
    (state : Slots × Memories) : (updates.foldl commit state).1.get? id = state.1.get? id := by
  induction updates generalizing state with
  | nil => rfl
  | cons update rest ih =>
    have hrest := ih (fun register value hload => h register value (List.mem_cons_of_mem update hload))
      (commit state update)
    rw [List.foldl_cons, hrest]
    cases update with
    | load register value =>
      have hne := h register value List.mem_cons_self
      simp [commit, SideMap.get?_modify, hne]
    | store => rfl

/-- The simulation goes through all nodes in the order of evaluation, and again through those of them
that read state. -/
structure Arranged (s : Simulation) : Prop where
  wellFormed : s.circuit.WellFormed
  isOrder : s.circuit.IsOrder s.order
  dependent_eq : ∃ keep, s.dependent = s.order.filter keep ∧
    ∀ id ∈ s.order, keep id = true ↔ s.circuit.ReadsState id

theorem arranged_of_leads {c : Circuit} {order : List NodeId} (hc : c.WellFormed)
    (ho : c.IsOrder order) {mode : Mode} {s : Simulation} (h : (fresh c mode order).value.Leads s) :
    s.Arranged := by
  rw [h.prepared]
  refine ⟨hc, ho, _, rfl, fun id hid => ?_⟩
  rw [Bool.not_eq_true', ← Bool.not_eq_true, stateless_iff hc ho, not_and_not_right]
  exact ⟨fun hreads => hreads (ho.mem.mp hid), fun hreads _ => hreads⟩

section Tick

variable {s : Simulation}

theorem get?_committed {id : NodeId} {n : Node} (hn : s.circuit.node? id = some n)
    (hstateful : n.kind.isStateful = false) :
    s.committed.1.get? id = s.settled.slots.get? id := by
  refine get?_foldl_commit (fun register value hload => ?_) _
  obtain ⟨element, hsample⟩ := mem_updates_samplePass hload
  obtain ⟨m, hm, hstateful', ⟨_, heq, -⟩ | ⟨_, _, _, _, _, _, heq, -⟩⟩ := sample_cases hsample
  · cases heq
    rintro rfl
    cases hn.symm.trans hm
    rw [hstateful] at hstateful'
    cases hstateful'
  · cases heq

/-- What does not read state is steady still after the clock edge. -/
theorem Arranged.steady_committed (h : s.Arranged)
    (hgoes : halted s.mode.strict s.settled.missing = false) {id : NodeId} (hid : id ∈ s.order)
    (hreads : ¬ s.circuit.ReadsState id) :
    Pass.Steady s.circuit s.committed.2 ⟨s.committed.1, s.sampled.missing⟩ id := by
  have hslot {src : NodeId} (hsrc : src ∈ s.circuit.ids) (hreads : ¬ s.circuit.ReadsState src) :
      s.committed.1.get? src = s.settled.slots.get? src := by
    obtain ⟨n, hn⟩ := exists_node_of_mem hsrc
    exact get?_committed hn (isStateful_of_not_readsState hreads hn)
  have hown := hslot (h.isOrder.mem.mp hid) hreads
  refine (steady_settlePass h.isOrder hgoes hid).transfer ?_ hown s.prefix_sampled
  refine settle_congr (fun dep hdep => ?_) (congrArg Option.isSome hown) fun n hn hmemory => ?_
  · exact hslot (mem_ids.mpr (hdep.source_lt h.wellFormed)) (not_readsState_of_depends hreads hdep)
  · have hstateful := isStateful_of_not_readsState hreads hn
    cases hkind : n.kind <;> simp_all [NodeKind.tag, NodeKind.isStateful]

/-- The same simulation, but one that settles all nodes again after a clock edge. -/
def settlingAll (s : Simulation) : Simulation := { s with dependent := s.order }

theorem Arranged.resettled_settlingAll (h : s.Arranged)
    (hgoes : halted s.mode.strict s.settled.missing = false) :
    s.settlingAll.resettled = s.resettled := by
  obtain ⟨keep, hdependent, hkeep⟩ := h.dependent_eq
  refine (settlePass_filter hkeep fun id hid hreads => ?_).trans ?_
  · exact h.steady_committed hgoes hid hreads
  · rw [resettled, hdependent]
    rfl

theorem Arranged.tick_settlingAll (h : s.Arranged) :
    s.settlingAll.tick.value = (s.tick.value.1, s.tick.value.2.settlingAll) := by
  have hsettled : s.settlingAll.settled = s.settled := rfl
  have hsampled : s.settlingAll.sampled = s.sampled := rfl
  have hcommitted : s.settlingAll.committed = s.committed := rfl
  have hmode : s.settlingAll.mode = s.mode := rfl
  rw [value_tick, value_tick, hsettled, hsampled, hcommitted, hmode]
  cases hgoes : halted s.mode.strict s.settled.missing with
  | true => rfl
  | false =>
    rw [h.resettled_settlingAll hgoes]
    cases halted s.mode.strict s.sampled.missing with
    | true => rfl
    | false => cases halted s.mode.strict s.resettled.missing <;> rfl

theorem outcome_eq_ok {missing : List NodeId} : outcome missing = .ok () ↔ missing = [] := by
  cases missing <;> simp [outcome]

theorem halted_nil (strict : Bool) : halted strict [] = false := Bool.and_false strict

theorem value_tick_of_ok (hok : s.tick.value.1 = .ok ()) : s.resettled.missing = [] ∧
    s.tick.value.2 =
      { s with slots := s.resettled.slots, memories := s.committed.2, ticks := s.ticks + 1 } := by
  have hgoes {missing : List NodeId} (h : outcome missing = .ok ()) :
      ¬ halted s.mode.strict missing = true := by
    rw [outcome_eq_ok.mp h, halted_nil]
    exact Bool.false_ne_true
  rw [value_tick] at hok ⊢
  split at hok
  · next hhalted => exact absurd hhalted (hgoes hok)
  · next hsettled =>
    rw [if_neg hsettled]
    split at hok
    · next hhalted => exact absurd hhalted (hgoes hok)
    · next hsampled =>
      rw [if_neg hsampled]
      split at hok
      · next hhalted => exact absurd hhalted (hgoes hok)
      · next hresettled =>
        rw [if_neg hresettled]
        exact ⟨outcome_eq_ok.mp hok, rfl⟩

/-- After a tick that succeeds, settling all nodes once more changes nothing. -/
theorem Arranged.settled_of_ok (h : s.Arranged) (hok : s.tick.value.1 = .ok ()) :
    s.tick.value.2.settled = ⟨s.tick.value.2.slots, []⟩ := by
  obtain ⟨hmissing, hafter⟩ := value_tick_of_ok hok
  have hsettled : s.settled.missing = [] :=
    List.prefix_nil.mp (hmissing ▸ s.prefix_sampled.trans s.prefix_resettled)
  have hall := h.resettled_settlingAll (by rw [hsettled, halted_nil])
  have hgoes : halted s.mode.strict s.settlingAll.resettled.missing = false := by
    rw [hall, hmissing, halted_nil]
  rw [hafter]
  refine settlePass_of_steady fun id hid => ?_
  have hsteady : s.settlingAll.resettled.Steady s.circuit s.committed.2 id :=
    steady_settlePass h.isOrder hgoes hid
  have hpass : s.resettled = ⟨s.resettled.slots, []⟩ := by rw [← hmissing]
  rw [hall, hpass] at hsteady
  exact hsteady

end Tick

/-- From wherever a simulation may get, a tick comes to the same whether it settles all nodes again
after the clock edge or only those that read state. If it succeeds, settling all nodes once more
changes nothing. -/
theorem tick_settles_all {c : Circuit} (h : c.Reachable) (hacyclic : c.Acyclic) (mode : Mode) :
    ∃ first, (start c mode).value = .ok first ∧ ∀ actions,
      (first.after actions).settlingAll.tick.value =
        ((first.after actions).tick.value.1, (first.after actions).tick.value.2.settlingAll) ∧
      ((first.after actions).tick.value.1 = .ok () →
        (first.after actions).tick.value.2.settled =
          ⟨(first.after actions).tick.value.2.slots, []⟩) := by
  have hc := h.wellFormed
  obtain ⟨order, horder⟩ := (Circuit.exists_order_iff_acyclic hc).mpr hacyclic
  have ho := Circuit.isOrder_of_order hc horder
  refine ⟨(fresh c mode order).value, value_start horder mode, fun actions => ?_⟩
  have harranged := arranged_of_leads hc ho (leads_after (fresh c mode order).value actions)
  exact ⟨harranged.tick_settlingAll, harranged.settled_of_ok⟩

/-- The tick fails after the disturbances, and succeeds without them. -/
theorem accumulator_settles_all :
    accumulator.Reachable ∧ accumulator.Acyclic ∧
      ∃ first, (start accumulator {}).value = .ok first ∧
        (first.after disturbances).tick.value.1 = .error (.missing [⟨5⟩]) ∧
        (first.after disturbances).settlingAll.tick.value =
          (.error (.missing [⟨5⟩]), (first.after disturbances).tick.value.2.settlingAll) ∧
        (first.after [.run 2]).tick.value.2.settled =
          ⟨(first.after [.run 2]).tick.value.2.slots, []⟩ := by
  have hreachable : accumulator.Reachable := Circuit.reachableBy_ofCalls fun _ _ => trivial
  have houtcomes : (start accumulator {}).value.map (fun first =>
      ((first.after disturbances).tick.value.1, (first.after [.run 2]).tick.value.1)) =
        .ok (.error (.missing [⟨5⟩]), .ok ()) := by decide +kernel
  obtain ⟨first, hstart, hsettles⟩ := tick_settles_all hreachable accumulator_acyclic {}
  simp only [hstart, Except.map, Except.ok.injEq, Prod.mk.injEq] at houtcomes
  refine ⟨hreachable, accumulator_acyclic, first, hstart, houtcomes.1, ?_,
    (hsettles [.run 2]).2 houtcomes.2⟩
  rw [(hsettles disturbances).1, houtcomes.1]

end Simulation

end Netlist
