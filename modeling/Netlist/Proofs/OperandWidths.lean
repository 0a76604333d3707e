import Netlist.Proofs.UntouchedNodes
import Netlist.Scopes

namespace Netlist

/-- Whether nodes of this kind take two operands of which neither is a shift amount. -/
def NodeKind.isPairwise : NodeKind → Bool
  | .operation op _ => op.arity == 2 && !op.isShift
  | _ => false

theorem NodeKind.maxSources_of_isPairwise {kind : NodeKind} (h : kind.isPairwise = true) :
    kind.maxSources = 2 := by
  cases kind with
  | operation op signed =>
    rw [isPairwise, Bool.and_eq_true, beq_iff_eq] at h
    exact h.1
  | _ => cases h

theorem NodeKind.tag_of_isPairwise {kind : NodeKind} (h : kind.isPairwise = true) :
    kind.tag = .operation := by
  cases kind with
  | operation => rfl
  | _ => cases h

namespace Circuit

variable {c d : Circuit} {id : NodeId} {n : Node}

/-- The operands of every operation but a shift agree in width if both are connected. -/
def LevelOperands (c : Circuit) : Prop :=
  ∀ id n lhs rhs, c.node? id = some n → n.kind.isPairwise = true →
    n.source? 0 = some lhs → n.source? 1 = some rhs → c.widthOf? lhs = c.widthOf? rhs

/-- Whether `src` and the other operand differ in width, at one of two positions of an operation. -/
def clashes (c : Circuit) (id : NodeId) (pos : Nat) (src : Option NodeId) : Bool :=
  (c.node? id).any fun n => n.kind.isPairwise && decide (pos < 2) &&
    (src.bind c.widthOf?).any fun width =>
      ((n.source? (1 - pos)).bind c.widthOf?).any (· != width)

theorem clashes_iff {pos : Nat} {src : Option NodeId} : c.clashes id pos src = true ↔
    ∃ n s other width width', c.node? id = some n ∧ n.kind.isPairwise = true ∧ pos < 2 ∧
      src = some s ∧ n.source? (1 - pos) = some other ∧ c.widthOf? s = some width ∧
      c.widthOf? other = some width' ∧ width' ≠ width := by
  simp only [clashes, Option.any_eq_true, Bool.and_eq_true, decide_eq_true_eq, bne_iff_ne,
    Option.bind_eq_some_iff]
  constructor
  · rintro ⟨n, hn, ⟨hkind, hpos⟩, width, ⟨s, hs, hwidth⟩, width', ⟨other, hother, hwidth'⟩, hne⟩
    exact ⟨n, s, other, width, width', hn, hkind, hpos, hs, hother, hwidth, hwidth', hne⟩
  · rintro ⟨n, s, other, width, width', hn, hkind, hpos, hs, hother, hwidth, hwidth', hne⟩
    exact ⟨n, hn, ⟨hkind, hpos⟩, width, ⟨s, hs, hwidth⟩, width', ⟨other, hother, hwidth'⟩, hne⟩

theorem lt_size_of_widthOf? {width : Nat} (h : c.widthOf? id = some width) : id.index < c.size := by
  obtain ⟨n, hn, -⟩ := Option.map_eq_some_iff.mp h
  exact lt_size_of_node? hn

theorem exists_widthOf? (h : id.index < c.size) : ∃ width, c.widthOf? id = some width := by
  have hn : c.node? id = some _ := Array.getElem?_eq_getElem h
  exact ⟨_, congrArg (Option.map Node.width) hn⟩

theorem widthOf?_modifyNode {f : Node → Node} (hn : c.node? id = some n)
    (hwidth : (f n).width = n.width) (other : NodeId) :
    (c.modifyNode id f).widthOf? other = c.widthOf? other := by
  rw [widthOf?, widthOf?, node?_modifyNode]
  split
  · next h => subst h; simp [hn, hwidth]
  · rfl

/-- A source that is replaced keeps the operands level unless it clashes with the other operand. -/
theorem LevelOperands.setSource_iff (hlevel : c.LevelOperands) (hc : c.WellFormed) {pos : Nat}
    {src : Option NodeId} (hn : c.node? id = some n) (hpos : pos < n.kind.maxSources)
    (hsrc : c.Inside src) :
    (c.modifyNode id (·.setSource pos src)).LevelOperands ↔ c.clashes id pos src = false := by
  have hwidths := widthOf?_modifyNode (f := (·.setSource pos src)) hn rfl
  have hself : (c.modifyNode id (·.setSource pos src)).node? id = some (n.setSource pos src) := by
    rw [node?_modifyNode, if_pos rfl, hn, Option.map_some]
  rw [← Bool.not_eq_true, clashes_iff]
  constructor
  · rintro hafter ⟨m, s, other, width, width', hm, hkind, htwo, rfl, hother, hwidth, hwidth', hne⟩
    cases hn.symm.trans hm
    have hat := fun lhs rhs => hafter id _ lhs rhs hself hkind
    simp only [Node.source?_setSource, hwidths] at hat
    obtain rfl | rfl : pos = 0 ∨ pos = 1 := by omega
    · have hsame := hat s other rfl hother
      rw [hwidth, hwidth'] at hsame
      exact hne (Option.some.inj hsame).symm
    · have hsame := hat other s hother rfl
      rw [hwidth, hwidth'] at hsame
      exact hne (Option.some.inj hsame)
  · intro hclash here m lhs rhs hm hkind hlhs hrhs
    rw [hwidths, hwidths]
    by_cases hid : id = here
    · subst hid
      cases hself.symm.trans hm
      rw [Node.source?_setSource] at hlhs hrhs
      change n.kind.isPairwise = true at hkind
      have htwo : pos < 2 := by rwa [NodeKind.maxSources_of_isPairwise hkind] at hpos
      -- the new source is one operand and the other is as before
      have hnew {s other : NodeId} (hs : src = some s) (hother : n.source? (1 - pos) = some other) :
          c.widthOf? s = c.widthOf? other := by
        obtain ⟨width, hwidth⟩ := exists_widthOf? (hsrc s hs)
        obtain ⟨width', hwidth'⟩ := exists_widthOf? (hc.inside_of_source? hn hother)
        by_contra hne
        rw [hwidth, hwidth'] at hne
        exact hclash ⟨n, s, other, width, width', hn, hkind, htwo, hs, hother, hwidth, hwidth',
          fun h => hne (congrArg some h.symm)⟩
      obtain rfl | rfl : pos = 0 ∨ pos = 1 := by omega
      · exact hnew hlhs hrhs
      · exact (hnew hrhs hlhs).symm
    · rw [node?_modifyNode, if_neg hid] at hm
      exact hlevel here m lhs rhs hm hkind hlhs hrhs

theorem widthOf?_add {kind : NodeKind} {width : Nat} {sources : List (Option NodeId)} {name : String}
    {loc : Location} (h : id.index < c.size) :
    (c.add kind width sources name loc).widthOf? id = c.widthOf? id := by
  rw [widthOf?, node?_add, if_neg (Nat.ne_of_lt h), widthOf?]

theorem LevelOperands.spares (hlevel : c.LevelOperands) (hc : c.WellFormed)
    (h : c.Spares .operation d) : d.LevelOperands := by
  intro id n lhs rhs hn hkind hlhs hrhs
  have hold := h.node hn (NodeKind.tag_of_isPairwise hkind)
  rw [h.widthOf?_eq (hc.inside_of_source? hold hlhs), h.widthOf?_eq (hc.inside_of_source? hold hrhs)]
  exact hlevel id n lhs rhs hold hkind hlhs hrhs

theorem LevelOperands.add_operation (hlevel : c.LevelOperands) (hc : c.WellFormed) {op : Opcode}
    {signed : Bool} {width : Nat} {lhs : NodeId} {rhs : Option NodeId} {name : String}
    {loc : Location}
    (hadmits : c.Admits (.operation op signed) width (some lhs :: rhs.toList.map some))
    (hwidths : op.isShift = false → ∀ r, rhs = some r → c.widthOf? lhs = c.widthOf? r) :
    (c.add (.operation op signed) width (some lhs :: rhs.toList.map some) name
      loc).LevelOperands := by
  intro id n l r hn hkind hl hr
  rw [node?_add] at hn
  split at hn
  · cases hn
    have hshift : op.isShift = false := by
      simpa using (Bool.and_eq_true_iff.mp hkind).2
    cases rhs with
    | none => cases hr
    | some rhs =>
      cases hl
      cases hr
      rw [widthOf?_add (hadmits.inside (some lhs) (by simp) lhs rfl),
        widthOf?_add (hadmits.inside (some r) (by simp) r rfl)]
      exact hwidths hshift r rfl
  · rw [widthOf?_add (hc.inside_of_source? hn hl), widthOf?_add (hc.inside_of_source? hn hr)]
    exact hlevel id n l r hn hkind hl hr

theorem config_afterCalls (c : Circuit) (calls : List Call) :
    (c.afterCalls calls).config = c.config := by
  induction calls generalizing c with
  | nil => rfl
  | cons call calls ih => exact (ih (call.apply c)).trans (call.changes c).config_eq

/-- What holds at first holds all along the calls exactly if no call breaks it, where that is said of one
call at a time. -/
theorem forall_afterCalls_iff {first : Circuit} {calls : List Call} {P : Circuit → Prop}
    {breaks : Circuit → Call → Bool} (hfirst : P first)
    (hstep : ∀ {k call}, calls[k]? = some call → P (first.afterCalls (calls.take k)) →
      (P (call.apply (first.afterCalls (calls.take k))) ↔
        breaks (first.afterCalls (calls.take k)) call = false)) :
    (∀ k, P (first.afterCalls (calls.take k))) ↔ ∀ k call, calls[k]? = some call →
      breaks (first.afterCalls (calls.take k)) call = false := by
  have hnext {k : Nat} {call : Call} (hcall : calls[k]? = some call) :
      first.afterCalls (calls.take (k + 1)) = call.apply (first.afterCalls (calls.take k)) := by
    rw [List.take_add_one, hcall, Option.toList_some, afterCalls_concat]
  constructor
  · intro hall k call hcall
    exact (hstep hcall (hall k)).mp (hnext hcall ▸ hall (k + 1))
  -- after the last call the circuit stays as it is
  · intro hkept k
    induction k with
    | zero => exact hfirst
    | succ k ih =>
      cases hcall : calls[k]? with
      | none => rwa [List.take_add_one, hcall, Option.toList_none, List.append_nil]
      | some call =>
        rw [hnext hcall]
        exact (hstep hcall ih).mpr (hkept k call hcall)

theorem typed_afterCalls_take {calls : List Call} (htyped : ∀ call ∈ calls, call.isTyped = true)
    (name : String) (config : Config) (k : Nat) :
    (afterCalls { name, config } (calls.take k)).Typed :=
  (ReachableBy.empty name config).afterCalls fun call hcall => htyped call (List.mem_of_mem_take hcall)

/-- A new circuit whose settings are strict, by itself or below a circuit that has such settings. -/
inductive StartsStrict : Circuit → Prop
  | made (s : Scopes) (name : String) (config : Config) (h : config.strictWidths = true)
      {c : Circuit} (hc : (s.make name config).2.circuit? (s.make name config).1 = some c) :
      StartsStrict c
  | child (s : Scopes) (name : String) (id : CircuitId) {parent : Circuit}
      (hparent : s.circuit? id = some parent) (h : parent.config.strictWidths = true)
      {c : Circuit} (hc : (s.makeChild name id).2.circuit? (s.makeChild name id).1 = some c) :
      StartsStrict c

theorem StartsStrict.eq (h : c.StartsStrict) :
    ∃ name config, c = { name, config } ∧ config.strictWidths = true := by
  cases h with
  | made s name config h hc =>
    refine ⟨name, config, ?_, h⟩
    simpa [Scopes.make, Scopes.addHolding, Scopes.circuit?, Scopes.holding?] using hc.symm
  | @child s name id parent hparent h c hc =>
    refine ⟨name, parent.config, ?_, h⟩
    rw [Scopes.makeChild, hparent] at hc
    simpa [Scopes.addHolding, Scopes.circuit?, Scopes.holding?] using hc.symm

theorem levelOperands_empty (name : String) (config : Config) :
    LevelOperands { name, config } := by
  rintro _ _ _ _ ⟨⟩

end Circuit

namespace Build

open Circuit

variable {c : Circuit}

theorem run_drive {id feed : NodeId} (h : c.outputProxy? id = some feed) (driver : NodeId) :
    (drive id driver).run c = (connect feed 0 (some driver)).run c := by
  obtain ⟨port, hport, hfeed⟩ := Option.bind_eq_some_iff.mp h
  simp only [drive, EStateM.run_bind, run_existingOf hport, hfeed]

theorem levelOperands_connect (hlevel : c.LevelOperands) (hc : c.WellFormed) (id : NodeId) (pos : Nat)
    (src : Option NodeId) :
    (after (connect id pos src) c).LevelOperands ↔ c.clashes id pos src = false := by
  obtain hsame | ⟨_, n, hn, hpos, hsrc, hafter⟩ := (ends_connect id pos src c).after_cases
  · rw [hsame]
    refine iff_of_true hlevel ?_
    by_contra hclash
    obtain ⟨n, s, other, width, width', hn, hkind, hpos, rfl, -, hwidth, -⟩ :=
      clashes_iff.mp (by simpa using hclash)
    have hpos' : pos < n.kind.maxSources := by rwa [NodeKind.maxSources_of_isPairwise hkind]
    have hsrc : c.Inside (some s) := by
      rintro _ ⟨⟩
      exact lt_size_of_widthOf? hwidth
    rw [after, run_connect_of_inside hn hpos' hsrc] at hsame
    have hsafe := hlevel.setSource_iff hc hn hpos' hsrc
    rw [show c.modifyNode id (·.setSource pos (some s)) = c from hsame] at hsafe
    exact hclash (hsafe.mp hlevel)
  · rw [hafter]
    exact hlevel.setSource_iff hc hn hpos hsrc

end Build

namespace Call

open Circuit

/-- Whether the call replaces an operand by one that differs from the other one in width. The proxy of
an output can be any node to which the output has been connected. -/
def mismatches (c : Circuit) : Call → Bool
  | connect id pos src => c.clashes id pos src
  | drive id driver => (c.outputProxy? id).any fun feed => c.clashes feed 0 (some driver)
  | _ => false

theorem levelOperands_apply {c : Circuit} (hc : c.WellFormed) (hstrict : c.config.strictWidths = true)
    (hlevel : c.LevelOperands) {call : Call} (htyped : call.isTyped = true) :
    (call.apply c).LevelOperands ↔ call.mismatches c = false := by
  cases call with
  | node => cases htyped
  | operation spec lhs rhs name loc =>
    refine iff_of_true ?_ rfl
    rw [apply, step, Build.after_map]
    obtain hsame | ⟨_, width, hadmits, hwidths, hafter⟩ :=
      (Build.ends_operation spec lhs rhs name loc c).after_cases
    · rwa [hsame]
    · rw [hafter]
      exact hlevel.add_operation hc hadmits (hwidths hstrict)
  | connect id pos src =>
    rw [apply, step, Build.after_map]
    exact Build.levelOperands_connect hlevel hc id pos src
  | drive id driver =>
    rw [apply, step, Build.after_map, mismatches]
    cases hfeed : c.outputProxy? id with
    | none =>
      refine iff_of_true ?_ rfl
      obtain hsame | ⟨_, feed, _, h, -⟩ := (Build.ends_drive id driver c).after_cases
      · rwa [hsame]
      · cases hfeed.symm.trans h
    | some feed =>
      rw [Build.after, Build.run_drive hfeed driver]
      exact Build.levelOperands_connect hlevel hc feed 0 (some driver)
  | _ => exact iff_of_true (hlevel.spares hc (spares_apply rfl (by decide) c)) rfl

end Call

namespace Circuit

/-- Along the typed calls on a circuit that starts strict, the operands of all operations agree in
width exactly if no call replaces an operand by one that differs from the other one in width. -/
theorem level_unless_mismatched {first : Circuit} (hfirst : first.StartsStrict) {calls : List Call}
    (htyped : ∀ call ∈ calls, call.isTyped = true) :
    (∀ k, (first.afterCalls (calls.take k)).LevelOperands) ↔
      ∀ k (call : Call), calls[k]? = some call →
        call.mismatches (first.afterCalls (calls.take k)) = false := by
  obtain ⟨name, config, rfl, hstrict⟩ := hfirst.eq
  apply forall_afterCalls_iff (P := LevelOperands) (levelOperands_empty name config)
  intro k call hcall hlevel
  have hreach := (typed_afterCalls_take htyped name config k).reachable
  exact Call.levelOperands_apply hreach.wellFormed (by rw [config_afterCalls]; exact hstrict) hlevel
    (htyped call (List.mem_of_getElem? hcall))

def strictTop : Circuit := { name := "top", config := { strictWidths := true } }

theorem strictTop_startsStrict : strictTop.StartsStrict := .made {} "top" _ rfl rfl

/-- Constants of four, four and eight bits, and the sum of the first two, of which the second operand
is replaced. -/
def replacing (operand : NodeId) : List Call := [
  .literal (.ofNat 4 1) "a" .unknown, .literal (.ofNat 4 2) "b" .unknown,
  .literal (.ofNat 8 3) "c" .unknown, .operation { op := .add } ⟨0⟩ (some ⟨1⟩) "s" .unknown,
  .connect ⟨3⟩ 1 (some operand)]

theorem isTyped_replacing (operand : NodeId) : ∀ call ∈ replacing operand, call.isTyped = true := by
  simp [replacing, Call.isTyped]

theorem level_replacing_by_same_width :
    strictTop.StartsStrict ∧ (∀ call ∈ replacing ⟨0⟩, call.isTyped = true) ∧
      ∀ k, (strictTop.afterCalls ((replacing ⟨0⟩).take k)).LevelOperands := by
  refine ⟨strictTop_startsStrict, isTyped_replacing ⟨0⟩,
    (level_unless_mismatched strictTop_startsStrict (isTyped_replacing ⟨0⟩)).mpr ?_⟩
  have hfits : ∀ k : Fin 5, ((replacing ⟨0⟩).get k).mismatches
      (strictTop.afterCalls ((replacing ⟨0⟩).take k)) = false := by decide
  intro k call hcall
  obtain ⟨hk, rfl⟩ := List.getElem?_eq_some_iff.mp hcall
  exact hfits ⟨k, hk⟩

/-- The sum of four bits and eight. -/
theorem uneven_replacing_by_other_width :
    strictTop.StartsStrict ∧ (∀ call ∈ replacing ⟨2⟩, call.isTyped = true) ∧
      ¬ (strictTop.afterCalls (replacing ⟨2⟩)).LevelOperands := by
  refine ⟨strictTop_startsStrict, isTyped_replacing ⟨2⟩, fun hlevel => ?_⟩
  have hsum : ((strictTop.afterCalls (replacing ⟨2⟩)).node? ⟨3⟩).map
      (fun n => (n.kind.isPairwise, n.source? 0, n.source? 1)) =
        some (true, some ⟨0⟩, some ⟨2⟩) := by decide
  obtain ⟨n, hn, hparts⟩ := Option.map_eq_some_iff.mp hsum
  simp only [Prod.mk.injEq] at hparts
  have hsame := hlevel ⟨3⟩ n ⟨0⟩ ⟨2⟩ hn hparts.1 hparts.2.1 hparts.2.2
  revert hsame
  decide

end Circuit

end Netlist
