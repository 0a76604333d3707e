import Mathlib.Logic.Relation
import Netlist.Proofs.Phases

namespace Netlist

namespace Simulation

inductive Action where
  | tick
  | run (ticks : Nat)
  | put (id : NodeId) (value : Word)
  | putNat (id : NodeId) (n : Nat)
  | remove (id : NodeId)
  | reset

/-- The simulation as an action leaves it, whether that succeeds or fails. -/
def Action.apply : Action → Simulation → Simulation
  | tick, s => s.tick.value.2
  | run ticks, s => (Simulation.run ticks s).value.2
  | put id value, s => (s.put id value).toOption.getD s
  | putNat id n, s => (s.putNat id n).toOption.getD s
  | remove id, s => s.remove id
  | reset, s => s.reset.value

def after (s : Simulation) (actions : List Action) : Simulation :=
  actions.foldl (fun s action => action.apply s) s

/-- The elementary moves. What is committed may have been sampled from other slots. -/
inductive Move (c : Circuit) : Slots × Memories → Slots × Memories → Prop
  | settle {slots : Slots} {memories : Memories} {id : NodeId} {value : Word}
      (h : c.settle memories slots id = .ok (some value)) :
      Move c (slots, memories) (slots.insert id value, memories)
  | commit {state : Slots × Memories} {sampled : Slots} {id : NodeId} {update : Update}
      (h : c.sample sampled id = .ok (some update)) : Move c state (commit state update)
  | put {slots : Slots} {memories : Memories} {id : NodeId} {n : Node} {value : Word}
      (hn : c.node? id = some n) (hwidth : value.width = n.width) :
      Move c (slots, memories) (slots.insert id value, memories)
  | remove {slots : Slots} {memories : Memories} (id : NodeId) :
      Move c (slots, memories) (slots.erase id, memories)
  | powerUp {slots : Slots} {memories : Memories} {id : NodeId} {n : Node}
      (hn : c.node? id = some n) :
      Move c (slots, memories) (slots.insert id (c.powerOn n), memories)
  | refill {slots : Slots} {memories : Memories} :
      Move c (slots, memories) (slots, c.firstContents)

abbrev Moves (c : Circuit) : Slots × Memories → Slots × Memories → Prop :=
  Relation.ReflTransGen (Move c)

theorem Moves.preserves {c : Circuit} {P : Slots × Memories → Prop}
    (hmove : ∀ {before after}, P before → Move c before after → P after)
    {before after : Slots × Memories} (h : Moves c before after) (hbefore : P before) : P after := by
  induction h with
  | refl => exact hbefore
  | tail _ hlast ih => exact hmove ih hlast

section Passes

variable (c : Circuit) (mode : Mode) (memories : Memories)

theorem moves_settleStep (p : Pass) (id : NodeId) :
    Moves c (p.slots, memories) ((settleStep c mode memories p id).value.slots, memories) := by
  unfold settleStep
  split
  · exact .refl
  · cases h : c.settle memories p.slots id with
    | error slot => exact .refl
    | ok computed =>
      cases computed with
      | none => exact .refl
      | some value => exact .single (.settle h)

theorem moves_settlePass (ids : List NodeId) (p : Pass) :
    Moves c (p.slots, memories) ((settlePass c mode memories ids p).value.slots, memories) := by
  rw [settlePass, Logged.value_foldl]
  induction ids generalizing p with
  | nil => exact .refl
  | cons id ids ih => exact (moves_settleStep c mode memories p id).trans (ih _)

variable {c mode} {ticks : Nat} {slots : Slots} {update : Update}

theorem mem_updates_sampleStep {p : Samples} {element : NodeId × Bool}
    (h : update ∈ (sampleStep c mode ticks slots p element).value.updates) :
    update ∈ p.updates ∨ c.sample slots element.1 = .ok (some update) := by
  unfold sampleStep at h
  split at h
  · exact .inl h
  · cases hsample : c.sample slots element.1 with
    | error slot =>
      rw [hsample] at h
      exact .inl h
    | ok sampled =>
      simp only [hsample, List.mem_append, Option.mem_toList] at h
      exact h.imp_right fun hsampled => by rw [hsampled]

theorem mem_updates_samplePass {elements : List (NodeId × Bool)} {missing : List NodeId}
    (h : update ∈ (samplePass c mode ticks slots elements missing).value.updates) :
    ∃ id, c.sample slots id = .ok (some update) := by
  have hfold (p : Samples)
      (hmem : update ∈ (elements.foldl
        (fun p element => (sampleStep c mode ticks slots p element).value) p).updates) :
      update ∈ p.updates ∨ ∃ id, c.sample slots id = .ok (some update) := by
    clear h
    induction elements generalizing p with
    | nil => exact .inl hmem
    | cons element rest ih =>
      rcases ih _ hmem with hfirst | hrest
      · exact (mem_updates_sampleStep hfirst).imp_right fun hsample => ⟨element.1, hsample⟩
      · exact .inr hrest
  rw [samplePass, Logged.value_foldl] at h
  exact (hfold ⟨[], missing⟩ h).resolve_left List.not_mem_nil

theorem moves_foldl_commit {updates : List Update} (state : Slots × Memories)
    (h : ∀ update ∈ updates, ∃ id, c.sample slots id = .ok (some update)) :
    Moves c state (updates.foldl commit state) := by
  induction updates generalizing state with
  | nil => exact .refl
  | cons update rest ih =>
    obtain ⟨id, hsample⟩ := h update List.mem_cons_self
    have hrest := ih (commit state update) fun other hother =>
      h other (List.mem_cons_of_mem update hother)
    exact .head (.commit hsample) hrest

end Passes

/-- What was prepared before the first tick stays, and slots and memories go through moves. -/
structure Leads (s t : Simulation) : Prop where
  prepared : t = { s with slots := t.slots, memories := t.memories, ticks := t.ticks }
  moves : Moves s.circuit (s.slots, s.memories) (t.slots, t.memories)

variable {s t u : Simulation}

theorem Leads.refl (s : Simulation) : s.Leads s := ⟨rfl, .refl⟩

theorem Leads.circuit_eq (h : s.Leads t) : t.circuit = s.circuit := by
  rw [h.prepared]

theorem Leads.trans (h : s.Leads t) (h' : t.Leads u) : s.Leads u := by
  refine ⟨?_, h.moves.trans (h.circuit_eq ▸ h'.moves)⟩
  have hu := h'.prepared
  rw [h.prepared] at hu
  exact hu

/-- Wherever a tick ends, it has only settled nodes and committed what was sampled. -/
theorem leads_tick (s : Simulation) : s.Leads s.tick.value.2 := by
  have hfirst : Moves s.circuit (s.slots, s.memories) (s.settled.slots, s.memories) :=
    moves_settlePass s.circuit s.mode s.memories s.order ⟨s.slots, []⟩
  have hsampled : ∀ update ∈ s.sampled.updates,
      ∃ id, s.circuit.sample s.settled.slots id = .ok (some update) :=
    fun update hupdate => mem_updates_samplePass hupdate
  have hedge := hfirst.trans (moves_foldl_commit (s.settled.slots, s.memories) hsampled)
  have hsecond := hedge.trans
    (moves_settlePass s.circuit s.mode s.committed.2 s.dependent ⟨s.committed.1, s.sampled.missing⟩)
  rw [value_tick]
  split
  · exact ⟨rfl, hfirst⟩
  · split
    · exact ⟨rfl, hfirst⟩
    · split
      · exact ⟨rfl, hsecond⟩
      · exact ⟨rfl, hsecond⟩

theorem leads_run (ticks : Nat) (s : Simulation) : s.Leads (run ticks s).value.2 := by
  induction ticks generalizing s with
  | zero => exact .refl s
  | succ ticks ih =>
    have hfirst := leads_tick s
    simp only [run, Logged.andThen]
    generalize s.tick.value = ended at hfirst
    obtain ⟨outcome, next⟩ := ended
    cases outcome with
    | ok => exact hfirst.trans (ih next)
    | error => exact hfirst

theorem leads_put (s : Simulation) (id : NodeId) (value : Word) :
    s.Leads ((s.put id value).toOption.getD s) := by
  unfold put
  cases hn : s.circuit.node? id with
  | none => exact .refl s
  | some n =>
    by_cases hwidth : value.width = n.width
    · simp only [hwidth]
      exact ⟨rfl, .single (.put hn hwidth)⟩
    · simp only [hwidth]
      exact .refl s

theorem leads_putNat (s : Simulation) (id : NodeId) (number : Nat) :
    s.Leads ((s.putNat id number).toOption.getD s) := by
  unfold putNat
  cases s.circuit.node? id with
  | none => exact .refl s
  | some n => exact leads_put s id (.ofNat n.width number)

theorem moves_powerUp (c : Circuit) (memories : Memories) (ids : List NodeId) (slots : Slots) :
    Moves c (slots, memories) ((c.powerUp ids slots).value, memories) := by
  rw [Circuit.powerUp, Logged.value_foldl]
  induction ids generalizing slots with
  | nil => exact .refl
  | cons id ids ih =>
    rw [List.foldl_cons]
    cases hn : c.node? id with
    | none => exact ih slots
    | some n => exact .head (.powerUp hn) (ih _)

theorem leads_reset (s : Simulation) : s.Leads s.reset.value :=
  ⟨rfl, (moves_powerUp s.circuit s.memories s.order s.slots).tail .refill⟩

theorem Action.leads (action : Action) (s : Simulation) : s.Leads (action.apply s) := by
  cases action with
  | tick => exact leads_tick s
  | run ticks => exact leads_run ticks s
  | put id value => exact leads_put s id value
  | putNat id number => exact leads_putNat s id number
  | remove id => exact ⟨rfl, .single (.remove id)⟩
  | reset => exact leads_reset s

theorem leads_after (s : Simulation) (actions : List Action) : s.Leads (s.after actions) := by
  induction actions generalizing s with
  | nil => exact .refl s
  | cons action rest ih => exact (action.leads s).trans (ih (action.apply s))

end Simulation

end Netlist
