import Netlist.Proofs.Moves
import Netlist.Proofs.Refinement

namespace Netlist

namespace SideMap

variable {α : Type} {m m' : SideMap α}

theorem size_insert (m : SideMap α) (id : NodeId) (a : α) :
    (m.insert id a).cells.size = max m.cells.size (id.index + 1) := by
  simp only [insert, roomFor, Array.size_setIfInBounds, Array.size_append, Array.size_replicate]
  omega

theorem lt_size_of_get? {id : NodeId} {a : α} (h : m.get? id = some a) : id.index < m.cells.size := by
  have hcell : m.cells[id.index]? = some (some a) := Option.join_eq_some_iff.mp h
  exact (Array.getElem?_eq_some_iff.mp hcell).1

theorem get?_mk_of_lt {i : Nat} (h : i < m.cells.size) : m.get? ⟨i⟩ = m.cells[i] := by
  simp [get?, h]

/-- Maps with equally many cells are equal if they have the same entries. -/
theorem eq_of_get? (hsize : m.cells.size = m'.cells.size) (h : ∀ id, m.get? id = m'.get? id) :
    m = m' := by
  have hcells : m.cells = m'.cells := by
    refine Array.ext hsize fun i hi hi' => ?_
    rw [← get?_mk_of_lt hi, ← get?_mk_of_lt hi', h]
  cases m
  cases m'
  exact congrArg mk hcells

end SideMap

namespace Circuit

variable {c : Circuit} {order : List NodeId}

/-- There are no slots for nodes that the circuit does not have. -/
def Confined (c : Circuit) (slots : Slots) : Prop := slots.cells.size ≤ c.size

theorem confined_empty (c : Circuit) : c.Confined .empty := Nat.zero_le c.size

theorem Confined.insert {slots : Slots} (h : c.Confined slots) {id : NodeId} {n : Node}
    (hn : c.node? id = some n) (value : Word) : c.Confined (slots.insert id value) := by
  have hid := lt_size_of_node? hn
  unfold Confined at *
  rw [SideMap.size_insert]
  omega

theorem node?_of_settle {memories : Memories} {slots : Slots} {id : NodeId} {value : Word}
    (h : c.settle memories slots id = .ok (some value)) : ∃ n, c.node? id = some n := by
  cases hn : c.node? id with
  | none => simp [settle, hn] at h
  | some n => exact ⟨n, rfl⟩

theorem Confined.move {before after : Slots × Memories} (h : c.Confined before.1)
    (hmove : Simulation.Move c before after) : c.Confined after.1 := by
  cases hmove with
  | settle hsettle =>
    obtain ⟨n, hn⟩ := node?_of_settle hsettle
    exact h.insert hn _
  | @commit _ _ _ update =>
    cases update with
    | load id value => simpa [Confined, Simulation.commit, SideMap.modify] using h
    | store id address data => exact h
  | put hn => exact h.insert hn _
  | remove id => simpa [Confined, SideMap.erase] using h
  | powerUp hn => exact h.insert hn _
  | refill => exact h

theorem Confined.powerUp {slots : Slots} (h : c.Confined slots) :
    c.Confined (c.powerUp order slots).value := by
  have hmoves := Simulation.moves_powerUp c .empty order slots
  exact hmoves.preserves (P := fun state => c.Confined state.1) Confined.move h

theorem Confined.get?_of_none {slots : Slots} (h : c.Confined slots) {id : NodeId}
    (hn : c.node? id = none) : slots.get? id = none := by
  by_contra hsome
  obtain ⟨value, hvalue⟩ := Option.ne_none_iff_exists'.mp hsome
  have hid : id ∈ c.ids := mem_ids.mpr (Nat.lt_of_lt_of_le (SideMap.lt_size_of_get? hvalue) h)
  obtain ⟨n, hn'⟩ := exists_node_of_mem hid
  rw [hn] at hn'
  cases hn'

theorem powerUp_eq (ho : c.IsOrder order) {slots : Slots} (h : c.Confined slots) :
    (c.powerUp order slots).value = (c.powerUp order .empty).value := by
  have hsize {slots : Slots} (h : c.Confined slots) :
      (c.powerUp order slots).value.cells.size = c.size := by
    refine Nat.le_antisymm h.powerUp (Nat.le_of_not_lt fun hlt => ?_)
    -- the first place without a cell is that of a node, which has been given a slot
    let place : NodeId := ⟨(c.powerUp order slots).value.cells.size⟩
    have hplace : place ∈ c.ids := mem_ids.mpr hlt
    obtain ⟨n, hn⟩ := exists_node_of_mem hplace
    have hslot := get?_powerUp ho slots place
    rw [hn, Option.map_some, Option.some_or] at hslot
    exact Nat.lt_irrefl _ (SideMap.lt_size_of_get? hslot)
  refine SideMap.eq_of_get? ((hsize h).trans (hsize c.confined_empty).symm) fun id => ?_
  rw [get?_powerUp ho, get?_powerUp ho]
  cases hn : c.node? id with
  | none => rw [h.get?_of_none hn, SideMap.get?_empty]
  | some n => simp

end Circuit

namespace Simulation

variable {c : Circuit} {order : List NodeId}

theorem reset_of_leads (ho : c.IsOrder order) (mode : Mode) {s : Simulation}
    (h : (fresh c mode order).value.Leads s) : s.reset.value = (fresh c mode order).value := by
  have hfirst : c.Confined (fresh c mode order).value.slots :=
    c.confined_empty.powerUp
  have hconfined : c.Confined s.slots :=
    h.moves.preserves (P := fun state => c.Confined state.1) Circuit.Confined.move hfirst
  rw [h.prepared]
  simp only [reset, Logged.andThen, fresh, Circuit.powerUp_eq ho hconfined]

/-- Whatever was asked of a simulation, and whether that succeeded or failed, a reset makes it the
simulation that was started: slots, memories and ticks are those of the first one, and so is all that
can come of them. -/
theorem reset_after_actions (h : c.Reachable) (hacyclic : c.Acyclic) (mode : Mode) :
    ∃ first, (start c mode).value = .ok first ∧
      ∀ actions, (first.after actions).reset.value = first := by
  have hc := h.wellFormed
  obtain ⟨order, horder⟩ := (Circuit.exists_order_iff_acyclic hc).mpr hacyclic
  have ho := Circuit.isOrder_of_order hc horder
  exact ⟨(fresh c mode order).value, value_start horder mode,
    fun actions => reset_of_leads ho mode (leads_after _ actions)⟩

theorem accumulator_acyclic : accumulator.Acyclic := by
  have htyped : accumulator.Typed := Circuit.reachableBy_ofCalls (by decide)
  have horder : accumulator.order = .ok [⟨0⟩, ⟨1⟩, ⟨2⟩, ⟨3⟩, ⟨4⟩, ⟨5⟩, ⟨6⟩, ⟨7⟩] := by
    decide +kernel
  exact (Circuit.isOrder_of_order htyped.wellTyped.wellFormed horder).acyclic

/-- The literal that enables the memory is taken away, so that the last tick fails. -/
def disturbances : List Action :=
  [.put ⟨0⟩ (.ofNat 4 3), .run 2, .put ⟨3⟩ (.ofNat 4 9), .remove ⟨2⟩, .tick]

theorem accumulator_after_disturbances :
    accumulator.Reachable ∧ accumulator.Acyclic ∧
      ∃ first, (start accumulator { strict := true }).value = .ok first ∧
        (first.after disturbances).value? ⟨2⟩ = none ∧ (first.after disturbances).ticks = 2 ∧
        (first.after disturbances).reset.value = first := by
  have hreachable : accumulator.Reachable := Circuit.reachableBy_ofCalls fun _ _ => trivial
  have hstate : (start accumulator { strict := true }).value.map (fun first =>
      ((first.after disturbances).value? ⟨2⟩, (first.after disturbances).ticks)) = .ok (none, 2) := by
    decide +kernel
  obtain ⟨first, hstart, hreset⟩ :=
    reset_after_actions hreachable accumulator_acyclic { strict := true }
  simp only [hstart, Except.map, Except.ok.injEq, Prod.mk.injEq] at hstate
  exact ⟨hreachable, accumulator_acyclic, first, hstart, hstate.1, hstate.2, hreset disturbances⟩

end Simulation

end Netlist
