import Netlist.Proofs.Phases
import Netlist.Proofs.Rewind

namespace Netlist

namespace Simulation

section Passes

variable {σ α : Type} {missing : σ → List NodeId} {step : σ → α → σ} {p q : σ}

/-- A strict pass has gone as far as a lenient one, or has ended at the first node that it skipped. -/
structure CutShort (missing : σ → List NodeId) (strict lenient : σ) : Prop where
  missing_eq : missing strict = (missing lenient).take 1
  eq_of_nil : missing lenient = [] → strict = lenient

/-- A step skips at most one node. -/
def SkipsOne (missing : σ → List NodeId) (step : σ → α → σ) : Prop :=
  ∀ p a, missing (step p a) = missing p ∨ ∃ id, missing (step p a) = addMissing (missing p) id

theorem CutShort.proceed (hstep : SkipsOne missing step) (h : CutShort missing p q) (a : α) :
    CutShort missing (proceed missing step true p a) (proceed missing step false q a) := by
  have hlenient : Simulation.proceed missing step false q a = step q a := by
    simp [Simulation.proceed, halted]
  cases hq : missing q with
  | nil =>
    -- nothing was skipped so far, and both take the step
    have hstrict : Simulation.proceed missing step true p a = step q a := by
      simp [Simulation.proceed, halted, h.eq_of_nil hq, hq]
    rw [hstrict, hlenient]
    refine ⟨?_, fun _ => rfl⟩
    rcases hstep q a with hsame | ⟨id, hadded⟩
    · rw [hsame, hq]
      rfl
    · rw [hadded, hq]
      rfl
  | cons node others =>
    -- the strict pass has ended, and the lenient one only adds behind the first node
    have hp : missing p = [node] := by
      rw [h.missing_eq, hq]
      rfl
    have hstrict : Simulation.proceed missing step true p a = p := by
      simp [Simulation.proceed, halted, hp]
    obtain ⟨more, hmore⟩ : missing q <+: missing (step q a) := by
      rcases hstep q a with hsame | ⟨id, hadded⟩
      · exact hsame ▸ List.prefix_rfl
      · exact hadded ▸ prefix_addMissing (missing q) id
    rw [hq, List.cons_append] at hmore
    rw [hstrict, hlenient]
    refine ⟨?_, fun hnil => ?_⟩
    · rw [hp, ← hmore]
      rfl
    · rw [← hmore] at hnil
      cases hnil

theorem CutShort.foldl (hstep : SkipsOne missing step) (h : CutShort missing p q) (as : List α) :
    CutShort missing (as.foldl (Simulation.proceed missing step true) p)
      (as.foldl (Simulation.proceed missing step false) q) := by
  induction as generalizing p q with
  | nil => exact h
  | cons a rest ih => exact ih (h.proceed hstep a)

theorem skipsOne_settle (c : Circuit) (memories : Memories) :
    SkipsOne Pass.missing (Pass.settle c memories) := by
  intro p id
  rw [missing_settle]
  split
  · exact .inl rfl
  · exact .inr ⟨id, rfl⟩

theorem skipsOne_add (c : Circuit) (ticks : Nat) (slots : Slots) :
    SkipsOne Samples.missing (Samples.add c ticks slots) := by
  intro p element
  exact (missing_add c ticks slots p element).imp_right fun h => ⟨element.1, h⟩

end Passes

def withStrict (s : Simulation) (strict : Bool) : Simulation :=
  { s with mode := { s.mode with strict } }

section Phases

variable (s : Simulation)

theorem cutShort_settled :
    CutShort Pass.missing (s.withStrict true).settled (s.withStrict false).settled := by
  unfold settled
  rw [value_settlePass, value_settlePass]
  exact CutShort.foldl (skipsOne_settle _ _) ⟨rfl, fun _ => rfl⟩ s.order

theorem cutShort_sampled (h : (s.withStrict false).settled.missing = []) :
    CutShort Samples.missing (s.withStrict true).sampled (s.withStrict false).sampled := by
  have hsettled := s.cutShort_settled.eq_of_nil h
  unfold sampled
  rw [value_samplePass, value_samplePass, hsettled, h]
  exact CutShort.foldl (skipsOne_add _ _ _) ⟨rfl, fun _ => rfl⟩ s.elements

theorem committed_withStrict (hsettled : (s.withStrict false).settled.missing = [])
    (hsampled : (s.withStrict false).sampled.missing = []) :
    (s.withStrict true).committed = (s.withStrict false).committed := by
  rw [committed, committed, (s.cutShort_sampled hsettled).eq_of_nil hsampled,
    s.cutShort_settled.eq_of_nil hsettled]
  rfl

theorem cutShort_resettled (hsettled : (s.withStrict false).settled.missing = [])
    (hsampled : (s.withStrict false).sampled.missing = []) :
    CutShort Pass.missing (s.withStrict true).resettled (s.withStrict false).resettled := by
  have hsame := (s.cutShort_sampled hsettled).eq_of_nil hsampled
  unfold resettled
  rw [value_settlePass, value_settlePass, s.committed_withStrict hsettled hsampled, hsame, hsampled]
  exact CutShort.foldl (skipsOne_settle _ _) ⟨rfl, fun _ => rfl⟩ s.dependent

/-- One tick of the simulation if it is strict, or if it is not. -/
def tickWith (strict : Bool) : Except SimError Unit × Simulation := (s.withStrict strict).tick.value

theorem tickWith_false : s.tickWith false =
    (outcome (s.withStrict false).resettled.missing,
      { s.withStrict false with
        slots := (s.withStrict false).resettled.slots
        memories := (s.withStrict false).committed.2
        ticks := s.ticks + 1 }) := by
  rw [tickWith, value_tick]
  rfl

/-- A strict tick that misses nothing is the lenient one. Otherwise it ends at the first node that the
lenient one reports, with nothing done but some of the settling. -/
theorem tickWith_true (hdependent : ∀ id ∈ s.dependent, id ∈ s.order) :
    ((s.withStrict false).resettled.missing = [] ∧
      s.tickWith true = (.ok (), (s.tickWith false).2.withStrict true)) ∨
    ∃ node others, (s.withStrict false).resettled.missing = node :: others ∧
      s.tickWith true = (.error (.missing [node]),
        { s.withStrict true with slots := (s.withStrict true).settled.slots }) := by
  have hgrows := (s.withStrict false).prefix_resettled
  cases hsettled : (s.withStrict false).settled.missing with
  | cons node rest =>
    right
    obtain ⟨others, hothers⟩ := (s.withStrict false).prefix_sampled.trans hgrows
    have hstrict : (s.withStrict true).settled.missing = [node] := by
      rw [s.cutShort_settled.missing_eq, hsettled]
      rfl
    refine ⟨node, rest ++ others, by rw [← hothers, hsettled, List.cons_append], ?_⟩
    rw [tickWith, value_tick, hstrict]
    rfl
  | nil =>
    have hstrict : (s.withStrict true).settled.missing = [] := by
      rw [s.cutShort_settled.missing_eq, hsettled]
      rfl
    cases hsampled : (s.withStrict false).sampled.missing with
    | cons node rest =>
      right
      obtain ⟨others, hothers⟩ := hgrows
      have hstrict' : (s.withStrict true).sampled.missing = [node] := by
        rw [(s.cutShort_sampled hsettled).missing_eq, hsampled]
        rfl
      refine ⟨node, rest ++ others, by rw [← hothers, hsampled, List.cons_append], ?_⟩
      rw [tickWith, value_tick, hstrict, hstrict']
      rfl
    | nil =>
      -- what settles again has settled before, so nothing is missed after the clock edge
      left
      have hresettled := (s.withStrict false).missing_resettled hdependent hsettled hsampled
      have hstrict' := (s.cutShort_sampled hsettled).eq_of_nil hsampled
      have hsame := (s.cutShort_resettled hsettled hsampled).eq_of_nil hresettled
      refine ⟨hresettled, ?_⟩
      rw [s.tickWith_false, tickWith, value_tick, hstrict, hstrict', hsampled, hsame, hresettled,
        s.committed_withStrict hsettled hsampled]
      rfl

end Phases

/-- How a strict tick from `s` stands to a lenient one. -/
structure StopsAtFirstMiss (s : Simulation) : Prop where
  ok_iff : (s.tickWith true).1 = .ok () ↔ (s.tickWith false).1 = .ok ()
  same_of_ok : (s.tickWith true).1 = .ok () →
    (s.tickWith true).2.slots = (s.tickWith false).2.slots ∧
    (s.tickWith true).2.memories = (s.tickWith false).2.memories ∧
    (s.tickWith true).2.ticks = (s.tickWith false).2.ticks
  first_miss : (s.tickWith true).1 ≠ .ok () → ∃ node others,
    (s.tickWith true).1 = .error (.missing [node]) ∧
    (s.tickWith false).1 = .error (.missing (node :: others))
  state_unchanged : (s.tickWith true).1 ≠ .ok () →
    (s.tickWith true).2.memories = s.memories ∧ (s.tickWith true).2.ticks = s.ticks ∧
    (∀ id, (s.tickWith true).2.slots.contains id = s.slots.contains id) ∧
    ∀ id n, s.circuit.node? id = some n → n.kind.tag = .register →
      (s.tickWith true).2.value? id = s.value? id

theorem stopsAtFirstMiss {s : Simulation} (hdependent : ∀ id ∈ s.dependent, id ∈ s.order) :
    s.StopsAtFirstMiss := by
  have hlenient : (s.tickWith false).1 = outcome (s.withStrict false).resettled.missing := by
    rw [tickWith_false]
  -- either nothing is missed and the two ticks are one, or the strict one stops at the first miss
  rcases s.tickWith_true hdependent with ⟨hnil, hstrict⟩ | ⟨node, others, hcons, hstrict⟩
  · have hok : (s.tickWith true).1 = .ok () := by rw [hstrict]
    rw [hnil] at hlenient
    refine ⟨⟨fun _ => hlenient, fun _ => hok⟩, fun _ => ?_, ?_, ?_⟩
    · rw [hstrict]
      exact ⟨rfl, rfl, rfl⟩
    · exact fun hfailed => absurd hok hfailed
    · exact fun hfailed => absurd hok hfailed
  · have herror : (s.tickWith true).1 = .error (.missing [node]) := by rw [hstrict]
    rw [hcons] at hlenient
    refine ⟨?_, ?_, fun _ => ⟨node, others, herror, hlenient⟩, fun _ => ?_⟩
    · rw [herror, hlenient]
      exact ⟨nofun, nofun⟩
    · rw [herror]
      exact nofun
    · rw [hstrict]
      refine ⟨rfl, rfl, fun id => congrFun (s.withStrict true).contains_settled id, ?_⟩
      intro id n hn hregister
      have hrests : n.rests = true := by
        unfold Node.rests
        cases hkind : n.kind <;> simp_all [NodeKind.tag]
      exact get?_settlePass_of_rests hn hrests

/-- From wherever a simulation may get, a strict tick succeeds if a lenient one does, and ends as it
does. Otherwise it reports only the first node that the lenient one reports, and registers, memories,
the number of ticks and the set of slots are as before. -/
theorem strict_tick_stops_at_first_miss {c : Circuit} (h : c.Reachable) (hacyclic : c.Acyclic)
    (mode : Mode) :
    ∃ first, (start c mode).value = .ok first ∧
      ∀ actions, (first.after actions).StopsAtFirstMiss := by
  have hc := h.wellFormed
  obtain ⟨order, horder⟩ := (Circuit.exists_order_iff_acyclic hc).mpr hacyclic
  refine ⟨(fresh c mode order).value, value_start horder mode, fun actions => ?_⟩
  apply stopsAtFirstMiss
  rw [(leads_after _ actions).prepared]
  intro id hid
  exact List.mem_of_mem_filter hid

/-- The sum loses its slot. It cannot settle, nor can the register and the memory sample it. -/
def withoutSum : List Action := [.put ⟨0⟩ (.ofNat 4 3), .run 2, .remove ⟨4⟩]

/-- The literal that enables the memory loses its slot, which only the memory reads, at the clock
edge. -/
def withoutEnable : List Action := [.put ⟨0⟩ (.ofNat 4 3), .run 2, .remove ⟨2⟩]

theorem accumulator_stops_at_first_miss :
    accumulator.Reachable ∧ accumulator.Acyclic ∧
      ∃ first, (start accumulator {}).value = .ok first ∧
        (first.after withoutSum).StopsAtFirstMiss ∧
        ((first.after withoutSum).tickWith true).1 = .error (.missing [⟨4⟩]) ∧
        ((first.after withoutSum).tickWith false).1 = .error (.missing [⟨4⟩, ⟨3⟩, ⟨5⟩]) ∧
        (first.after withoutEnable).StopsAtFirstMiss ∧
        ((first.after withoutEnable).tickWith true).1 = .error (.missing [⟨5⟩]) ∧
        ((first.after withoutEnable).tickWith true).2.value? ⟨3⟩ = some (.ofNat 4 8) ∧
        ((first.after withoutEnable).tickWith false).2.value? ⟨3⟩ = some (.ofNat 4 11) := by
  have hreachable : accumulator.Reachable := Circuit.reachableBy_ofCalls fun _ _ => trivial
  have hearly : (start accumulator {}).value.map (fun first =>
      (((first.after withoutSum).tickWith true).1, ((first.after withoutSum).tickWith false).1)) =
        .ok (.error (.missing [⟨4⟩]), .error (.missing [⟨4⟩, ⟨3⟩, ⟨5⟩])) := by decide +kernel
  have hlate : (start accumulator {}).value.map (fun first =>
      (((first.after withoutEnable).tickWith true).1,
        ((first.after withoutEnable).tickWith true).2.value? ⟨3⟩,
        ((first.after withoutEnable).tickWith false).2.value? ⟨3⟩)) =
        .ok (.error (.missing [⟨5⟩]), some (.ofNat 4 8), some (.ofNat 4 11)) := by decide +kernel
  obtain ⟨first, hstart, hstops⟩ :=
    strict_tick_stops_at_first_miss hreachable accumulator_acyclic {}
  simp only [hstart, Except.map, Except.ok.injEq, Prod.mk.injEq] at hearly hlate
  exact ⟨hreachable, accumulator_acyclic, first, hstart, hstops withoutSum, hearly.1, hearly.2,
    hstops withoutEnable, hlate⟩

end Simulation

end Netlist
