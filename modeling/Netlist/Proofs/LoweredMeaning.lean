import Netlist.Proofs.Refinement
import Netlist.Proofs.RightSides

namespace Netlist

theorem Slots.exists_of_read {slots : Slots} {src : NodeId} {found : Option Word}
    (h : slots.read (some src) = .ok found) :
    ∃ value, slots.get? src = some value ∧ found = some value := by
  unfold Slots.read at h
  cases hvalue : slots.get? src with
  | none => simp [hvalue] at h
  | some value =>
    simp only [hvalue] at h
    cases h
    exact ⟨value, rfl, rfl⟩

namespace Circuit

/-- Each node has a value of its width, and nothing else has a value. -/
def IsValued (c : Circuit) (slots : Slots) : Prop :=
  ∀ id, (slots.get? id).map Word.width = (c.node? id).map Node.width

def numbered (c : Circuit) (number : NodeId → Nat) : Slots :=
  c.ids.foldl (fun slots id =>
    ((c.node? id).map fun n => Word.ofNat n.width (number id)).elim slots (slots.insert id)) .empty

variable {c : Circuit} {slots : Slots} {id : NodeId} {n : Node}

theorem get?_numbered (c : Circuit) (number : NodeId → Nat) (id : NodeId) :
    (c.numbered number).get? id = (c.node? id).map fun n => .ofNat n.width (number id) := by
  rw [numbered,
    SideMap.get?_foldl_insert fun id => (c.node? id).map fun n => Word.ofNat n.width (number id)]
  cases hn : c.node? id with
  | none => simp
  | some n => simp [mem_ids_of_node? hn]

theorem isValued_numbered (c : Circuit) (number : NodeId → Nat) : c.IsValued (c.numbered number) := by
  intro id
  rw [get?_numbered, Option.map_map]
  rfl

theorem IsValued.exists_value (h : c.IsValued slots) (hn : c.node? id = some n) :
    ∃ value, slots.get? id = some value ∧ value.width = n.width := by
  have hid := h id
  rw [hn] at hid
  exact Option.map_eq_some_iff.mp hid

theorem IsValued.exists_node (h : c.IsValued slots) {value : Word} (hvalue : slots.get? id = some value) :
    ∃ n, c.node? id = some n := by
  have hid := h id
  rw [hvalue] at hid
  obtain ⟨n, hn, -⟩ := Option.map_eq_some_iff.mp hid.symm
  exact ⟨n, hn⟩

theorem IsValued.exists_source (h : c.IsValued slots) (hc : c.WellFormed) (hn : c.node? id = some n)
    {pos : Nat} {src : NodeId} (hsrc : n.source? pos = some src) :
    ∃ m value, c.node? src = some m ∧ slots.get? src = some value := by
  obtain ⟨m, hm⟩ := exists_node_of_mem (mem_ids.mpr (hc.inside_of_source? hn hsrc))
  obtain ⟨value, hvalue, -⟩ := h.exists_value hm
  exact ⟨m, value, hm, hvalue⟩

theorem IsValued.read_source (h : c.IsValued slots) (hc : c.WellFormed) (hn : c.node? id = some n)
    (pos : Nat) : Slots.read slots (n.source? pos) = .ok ((n.source? pos).bind slots.get?) := by
  cases hsrc : n.source? pos with
  | none => rfl
  | some src =>
    obtain ⟨m, value, -, hvalue⟩ := h.exists_source hc hn hsrc
    simp [Slots.read, hvalue]

theorem IsValued.operands_eq (h : c.IsValued slots) (hc : c.WellFormed) (hn : c.node? id = some n) :
    operands slots n = .ok (((n.source? 0).bind slots.get?).getD (.zero n.width),
      ((n.source? 1).bind slots.get?).getD (.zero n.width)) := by
  rw [operands, h.read_source hc hn, h.read_source hc hn]
  rfl

theorem IsValued.isOk_read_iff (h : c.IsValued slots) (src : Option NodeId) :
    (∃ found, Slots.read slots src = .ok found) ↔ c.Inside src := by
  cases src with
  | none => exact iff_of_true ⟨none, rfl⟩ fun s hs => nomatch hs
  | some src =>
    constructor
    · rintro ⟨found, hread⟩ s ⟨⟩
      obtain ⟨value, hvalue, -⟩ := Slots.exists_of_read hread
      obtain ⟨n, hn⟩ := h.exists_node hvalue
      exact mem_ids.mp (mem_ids_of_node? hn)
    · intro hinside
      obtain ⟨n, hn⟩ := exists_node_of_mem (mem_ids.mpr (hinside src rfl))
      obtain ⟨value, hvalue, -⟩ := h.exists_value hn
      exact ⟨some value, by simp [Slots.read, hvalue]⟩

/-- A register loads its initial value in reset, if it has one, and its next value otherwise. -/
theorem IsValued.sample_register (h : c.IsValued slots) (hc : c.WellFormed) (hn : c.node? id = some n)
    {clock reset enable : Option NodeId} (hkind : n.kind = .register clock reset enable) :
    c.sample slots id = (Slots.read slots reset).map fun inReset =>
      ((if inReset.any (·.isTrue) && (n.source? 0).isSome then n.source? 0 else n.source? 1).bind
        slots.get?).map fun value => .load id (value.resize n.width false) := by
  obtain ⟨own, hown, -⟩ := h.exists_value hn
  have hcontains : slots.contains id = true := by simp [SideMap.contains, hown]
  have hpicked (b : Bool) : Slots.read slots (if b then n.source? 0 else n.source? 1) =
      .ok ((if b then n.source? 0 else n.source? 1).bind slots.get?) := by
    cases b with
    | true => exact h.read_source hc hn 0
    | false => exact h.read_source hc hn 1
  simp only [sample, hn, hkind, hcontains, Bool.not_true]
  cases Slots.read slots reset with
  | error slot => rfl
  | ok inReset =>
    change (Slots.read slots _ >>= fun value => _) = _
    rw [hpicked]
    rfl

end Circuit

namespace Verilog

def valuation (c : Circuit) (naming : Naming) (slots : Slots) (name : String) : Option Word :=
  (c.ids.find? fun id => naming.name id = name).bind slots.get?

namespace Plan.Sound

variable {p : Plan} {slots : Slots} {id : NodeId} {n : Node} (h : p.Sound)
include h

/-- No two nodes have the same name, so that a name has the value of its node. -/
theorem valuation_name (hn : p.circuit.node? id = some n) :
    valuation p.circuit p.naming slots (p.name id) = slots.get? id := by
  have hfind : (p.circuit.ids.find? fun other => p.naming.name other = p.name id) = some id := by
    cases hfound : p.circuit.ids.find? fun other => p.naming.name other = p.name id with
    | none =>
      have hnot := List.find?_eq_none.mp hfound id (Circuit.mem_ids_of_node? hn)
      simp [Plan.name] at hnot
    | some other =>
      obtain ⟨m, hm⟩ := Circuit.exists_node_of_mem (List.mem_of_find?_eq_some hfound)
      have hname : p.naming.name other = p.name id := by simpa using List.find?_some hfound
      cases h.injective (owns_node hm) (owns_node hn) hname
      rfl
  rw [valuation, hfind]
  rfl

theorem isName_name (id : NodeId) : Naming.isName (p.name id) = true := (h.legal (.node id)).1

theorem exists_valuation (hvalued : p.circuit.IsValued slots) (hn : p.circuit.node? id = some n)
    {pos : Nat} {src : NodeId} (hsrc : n.source? pos = some src) :
    ∃ value, slots.get? src = some value ∧
      valuation p.circuit p.naming slots (p.name src) = some value := by
  obtain ⟨m, value, hm, hvalue⟩ := hvalued.exists_source h.wellFormed hn hsrc
  exact ⟨value, hvalue, (h.valuation_name hm).trans hvalue⟩

/-- An operation has one right side, which computes what the operation does. -/
theorem evaluate_operation (hvalued : p.circuit.IsValued slots) (hn : p.circuit.node? id = some n)
    {op : Opcode} {signed : Bool} (hkind : n.kind = .operation op signed)
    (hconnected : ∀ pos < op.arity, (n.source? pos).isSome) :
    ∃ side lhs rhs, rightSides p.lower.text (p.name id) = [side] ∧
      Circuit.operands slots n = .ok (lhs, rhs) ∧
      evaluate (valuation p.circuit p.naming slots) n.width side = op.eval? signed n.width lhs rhs := by
  have harity : 0 < op.arity := by
    unfold Opcode.arity
    split <;> decide
  obtain ⟨first, hfirst⟩ := Option.isSome_iff_exists.mp (hconnected 0 harity)
  obtain ⟨a, ha, hvalue⟩ := h.exists_valuation hvalued hn hfirst
  have hoperands := hvalued.operands_eq h.wellFormed hn
  rw [hfirst, Option.bind_some, ha, Option.getD_some] at hoperands
  cases hop : op.isUnary with
  | true =>
    refine ⟨_, _, _, h.rightSides_unary hn hkind hop hfirst, hoperands, ?_⟩
    exact evaluate_unary hop (h.isName_name first) hvalue
  | false =>
    have hpos : 1 < op.arity := by simp [Opcode.arity, hop]
    obtain ⟨second, hsecond⟩ := Option.isSome_iff_exists.mp (hconnected 1 hpos)
    obtain ⟨b, hb, hvalue'⟩ := h.exists_valuation hvalued hn hsecond
    rw [hsecond, Option.bind_some, hb, Option.getD_some] at hoperands
    refine ⟨_, _, _, h.rightSides_binary hn hkind hop hfirst hsecond, hoperands, ?_⟩
    exact evaluate_binary hop (h.isName_name first) (h.isName_name second) rfl hvalue hvalue'

/-- A register has one right side, which computes what the register loads if it can read its reset. -/
theorem evaluate_register (hvalued : p.circuit.IsValued slots) (hn : p.circuit.node? id = some n)
    {clock reset enable : Option NodeId} (hkind : n.kind = .register clock reset enable) {next : NodeId}
    (hnext : n.source? 1 = some next) :
    ∃ side, rightSides p.lower.text (p.name id) = [side] ∧
      ∀ inReset, Slots.read slots reset = .ok inReset →
        ∃ value, p.circuit.sample slots id = .ok (some (.load id value)) ∧
          evaluate (valuation p.circuit p.naming slots) n.width side = some value := by
  have hsample := hvalued.sample_register h.wellFormed hn hkind
  obtain ⟨b, hb, hvalue⟩ := h.exists_valuation hvalued hn hnext
  have hload : evaluate (valuation p.circuit p.naming slots) n.width (p.name next) =
      some (b.resize n.width false) := evaluate_name (h.isName_name next) hvalue
  cases reset with
  | none =>
    refine ⟨_, h.rightSides_next hn hkind (.inl rfl) hnext, fun inReset hread => ⟨_, ?_, hload⟩⟩
    cases hread
    simp [hsample, Slots.read, Except.map, hnext, hb]
  | some rst =>
    cases hinit : n.source? 0 with
    | none =>
      refine ⟨_, h.rightSides_next hn hkind (.inr hinit) hnext, fun inReset hread => ⟨_, ?_, hload⟩⟩
      simp [hsample, hread, Except.map, hinit, hnext, hb]
    | some init =>
      obtain ⟨a, ha, hvalue'⟩ := h.exists_valuation hvalued hn hinit
      refine ⟨_, h.rightSides_reset hn hkind rfl hinit hnext, fun inReset hread => ?_⟩
      obtain ⟨r, hr, rfl⟩ := Slots.exists_of_read hread
      obtain ⟨m, hm⟩ := hvalued.exists_node hr
      have hcondition := (h.valuation_name hm).trans hr
      refine ⟨_, ?_, evaluate_choice (h.isName_name rst) (h.isName_name init) (h.isName_name next)
        hcondition hvalue' hvalue⟩
      cases hreset : r.isTrue <;>
        simp [hsample, hread, Except.map, hinit, hnext, ha, hb, hreset]

end Plan.Sound

/-- On the values of `slots`, the text assigns to operations what they compute and to registers what they
load. -/
structure Computes (c : Circuit) (naming : Naming) (slots : Slots) (text : String) : Prop where
  /-- An operation whose operands are connected has one right side; only a division by zero has no
  value. -/
  operation : ∀ {id n op signed}, c.node? id = some n → n.kind = .operation op signed →
    (∀ pos < op.arity, (n.source? pos).isSome) →
    ∃ side lhs rhs, rightSides text (naming.name id) = [side] ∧
      Circuit.operands slots n = .ok (lhs, rhs) ∧
      evaluate (valuation c naming slots) n.width side = op.eval? signed n.width lhs rhs ∧
      (op.eval? signed n.width lhs rhs = none ↔ op.isDivision = true ∧ rhs.isZero = true)
  /-- A register with a next value has one right side. If the register can read its reset, it loads the
  value of that side, and otherwise it loads nothing. -/
  register : ∀ {id n clock reset enable next}, c.node? id = some n →
    n.kind = .register clock reset enable → n.source? 1 = some next →
    ∃ side, rightSides text (naming.name id) = [side] ∧
      (c.Inside reset → ∃ value, c.sample slots id = .ok (some (.load id value)) ∧
        evaluate (valuation c naming slots) n.width side = some value) ∧
      (¬ c.Inside reset → ∃ slot, c.sample slots id = .error slot)

theorem Plan.Sound.computes {p : Plan} (h : p.Sound) {slots : Slots}
    (hvalued : p.circuit.IsValued slots) : Computes p.circuit p.naming slots p.lower.text where
  operation := by
    intro id n op signed hn hkind hconnected
    obtain ⟨side, lhs, rhs, hside, hoperands, heval⟩ := h.evaluate_operation hvalued hn hkind hconnected
    refine ⟨side, lhs, rhs, hside, hoperands, heval, ?_⟩
    rw [Opcode.eval?_eq, ite_eq_left_iff, ← Bool.and_eq_true_iff]
    simp
  register := by
    intro id n clock reset enable next hn hkind hnext
    obtain ⟨side, hside, hload⟩ := h.evaluate_register hvalued hn hkind hnext
    refine ⟨side, hside, fun hinside => ?_, fun hnot => ?_⟩
    · obtain ⟨inReset, hread⟩ := (hvalued.isOk_read_iff reset).mpr hinside
      exact hload inReset hread
    · rw [hvalued.sample_register h.wellFormed hn hkind]
      cases hread : Slots.read slots reset with
      | error slot => exact ⟨slot, rfl⟩
      | ok inReset => exact absurd ((hvalued.isOk_read_iff reset).mp ⟨inReset, hread⟩) hnot

/-- The text of the module of a circuit without combinational cycles computes what the circuit does,
whatever the values of its nodes. -/
theorem text_computes_circuit {c : Circuit} (h : c.Reachable) (hacyclic : c.Acyclic) :
    ∃ order m, c.order = .ok order ∧ ofCircuit c = .ok m ∧
      ∀ slots, c.IsValued slots → Computes c (Plan.ofCircuit c order).naming slots m.text := by
  obtain ⟨order, horder, hsound, hmodule⟩ := exists_plan h hacyclic
  exact ⟨order, _, horder, hmodule, fun slots hvalued => hsound.computes hvalued⟩

/-- A signed shift to the right whose result is wider than what is shifted, and a register of the result
that loads a wider word in reset. -/
def shifterCalls : List Call :=
  [.input 4 "a" .unknown, .input 8 "amount" .unknown,
   .operation { op := .shr, signed := true, width := some 6 } ⟨1⟩ (some ⟨3⟩) "shifted" .unknown,
   .input 1 "rst" .unknown, .useReset ⟨6⟩, .literal (.ofNat 8 245) "start" .unknown,
   .register 6 (some ⟨7⟩) "r" .unknown, .connectNext ⟨8⟩ ⟨4⟩]

def shifter : Circuit := .ofCalls shifterCalls

/-- The word `1001` to be shifted by one, in reset. -/
def shifterValues : Slots := shifter.numbered fun id => [9, 9, 1, 1, 0, 1, 1, 245, 0].getD id.index 0

theorem text_computes_shifter :
    shifter.Reachable ∧ shifter.Acyclic ∧ shifter.IsValued shifterValues ∧
      ∃ order m shifted loaded, shifter.order = .ok order ∧ ofCircuit shifter = .ok m ∧
        rightSides m.text ((Plan.ofCircuit shifter order).name ⟨4⟩) = [shifted] ∧
        rightSides m.text ((Plan.ofCircuit shifter order).name ⟨8⟩) = [loaded] ∧
        evaluate (valuation shifter (Plan.ofCircuit shifter order).naming shifterValues) 6 shifted =
          some (.ofNat 6 60) ∧
        evaluate (valuation shifter (Plan.ofCircuit shifter order).naming shifterValues) 6 loaded =
          some (.ofNat 6 53) := by
  have hreachable : shifter.Reachable := Circuit.reachableBy_ofCalls fun _ _ => trivial
  have horder : shifter.order = .ok [⟨0⟩, ⟨1⟩, ⟨2⟩, ⟨3⟩, ⟨4⟩, ⟨5⟩, ⟨6⟩, ⟨7⟩, ⟨8⟩] := by decide +kernel
  have hacyclic : shifter.Acyclic := (Circuit.isOrder_of_order hreachable.wellFormed horder).acyclic
  have hvalued : shifter.IsValued shifterValues := shifter.isValued_numbered _
  obtain ⟨order, m, horder', hm, hcomputes⟩ := text_computes_circuit hreachable hacyclic
  have hnow := hcomputes shifterValues hvalued
  have hshift : shifter.node? ⟨4⟩ = some ⟨⟨4⟩, .operation .shr true, 6, [some ⟨1⟩, some ⟨3⟩], "shifted",
      .unknown⟩ := rfl
  have hregister : shifter.node? ⟨8⟩ = some ⟨⟨8⟩, .register none (some ⟨6⟩) none, 6,
      [some ⟨7⟩, some ⟨4⟩], "r", .unknown⟩ := rfl
  obtain ⟨shifted, lhs, rhs, hshifted, hoperands, hresult, -⟩ := hnow.operation hshift rfl (by decide)
  have hread : Circuit.operands shifterValues ⟨⟨4⟩, .operation .shr true, 6, [some ⟨1⟩, some ⟨3⟩],
      "shifted", .unknown⟩ = .ok (.ofNat 4 9, .ofNat 8 1) := by decide +kernel
  cases hoperands.symm.trans hread
  obtain ⟨loaded, hloaded, hload, -⟩ := hnow.register hregister rfl rfl
  obtain ⟨value, hsample, hvalue⟩ := hload (by rintro s ⟨⟩; decide)
  have hloads : shifter.sample shifterValues ⟨8⟩ = .ok (some (.load ⟨8⟩ (.ofNat 6 53))) := rfl
  cases hsample.symm.trans hloads
  exact ⟨hreachable, hacyclic, hvalued, order, m, shifted, loaded, horder', hm, hshifted, hloaded,
    hresult.trans (by decide +kernel), hvalue⟩

end Verilog

end Netlist
