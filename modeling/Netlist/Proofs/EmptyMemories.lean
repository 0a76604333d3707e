import Netlist.Proofs.Moves
import Netlist.Proofs.Representation
import Netlist.Verilog.Lower

namespace Netlist

namespace Circuit

variable {c : Circuit} {slots slots' : Slots} {id : NodeId}

theorem hasPlaces_iff : c.hasPlaces = true ↔
    ∀ id n depth init clock, c.node? id = some n → n.kind = .memory depth init clock → 0 < depth := by
  unfold hasPlaces
  rw [List.all_eq_true]
  constructor
  · intro h id n depth init clock hn hkind
    have hid := h id (mem_ids_of_node? hn)
    simpa [hn, hkind, Nat.pos_iff_ne_zero] using hid
  · intro h id _
    split
    · next depth init clock hkind =>
      obtain ⟨n, hn, hkind⟩ := Option.map_eq_some_iff.mp hkind
      simpa using Nat.ne_of_gt (h id n depth init clock hn hkind)
    · rfl

theorem WellTyped.hasPlaces (h : c.WellTyped) : c.hasPlaces = true := by
  refine hasPlaces_iff.mpr fun id n depth init clock hn hkind => ?_
  have hsuits := h.suits hn
  rw [hkind] at hsuits
  exact hsuits.2.1

end Circuit

namespace Simulation

section Passes

variable {c : Circuit} {mode : Mode} {memories : Memories} {ticks : Nat} {slots : Slots}

end Passes

variable {s : Simulation}

example : (start (.ofCalls [.input 4 "a" .unknown,
    .node (.memory 0 #[] none) 4 [some ⟨0⟩] "m" .unknown]) {}).value.map (·.tick?.isNone) = .ok true := by
  decide +kernel

/-- Where all memories have places, every tick goes through. -/
theorem tick?_of_hasPlaces (h : s.circuit.hasPlaces = true) : s.tick? = some s.tick := by
  rw [tick?, h]
  rfl

theorem run?_of_hasPlaces (h : s.circuit.hasPlaces = true) (n : Nat) : run? n s = some (run n s) := by
  induction n generalizing s with
  | zero => rfl
  | succ n ih =>
    have hafter : s.tick.value.2.circuit.hasPlaces = true := (leads_tick s).circuit_eq ▸ h
    rw [run?, tick?_of_hasPlaces h, run]
    generalize s.tick = ticked at hafter ⊢
    obtain ⟨⟨_ | _, after⟩, log⟩ := ticked
    · simp [Logged.andThen]
    · simp [Logged.andThen, ih hafter]

end Simulation

namespace Verilog

theorem all_isWritable_declare {p : Plan} (h : p.circuit.hasPlaces = true) (id : NodeId) :
    (p.declare id).all (·.isWritable) = true := by
  unfold Plan.declare
  cases hn : p.circuit.node? id with
  | none => rfl
  | some n =>
    cases hkind : n.kind with
    | memory depth init clock =>
      have hdepth := Nat.ne_of_gt (Circuit.hasPlaces_iff.mp h id n depth init clock hn hkind)
      simp [Declaration.isWritable, hkind, hdepth]
    | _ => simp [Declaration.isWritable, hkind]

/-- Where all memories have places, the module of a circuit has a text. -/
theorem text?_lower {c : Circuit} (h : c.hasPlaces = true) (order : List NodeId) :
    (Plan.ofCircuit c order).lower.text? = some (Plan.ofCircuit c order).lower.text := by
  have hall : (Plan.ofCircuit c order).lower.declarations.all (·.isWritable) = true := by
    change ((order.flatMap (Plan.ofCircuit c order).declare).all (·.isWritable)) = true
    rw [List.all_flatMap, List.all_eq_true]
    exact fun id _ => all_isWritable_declare h id
  rw [Module.text?, if_pos hall]

end Verilog

end Netlist
