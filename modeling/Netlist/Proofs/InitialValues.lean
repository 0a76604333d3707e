import Netlist.Proofs.ConstantChains
import Netlist.Proofs.LoweredMeaning

namespace Netlist

theorem Word.ofNat_eq_ofNat_iff {width a b : Nat} :
    Word.ofNat width a = Word.ofNat width b ↔ a % 2 ^ width = b % 2 ^ width := by
  simp [Word.ofNat, Word.patterns_eq]

/-- A number that is cut to `width` bits has no more than `less` exactly if it is the same when cut to
those. -/
theorem mod_two_pow_lt_iff {a less width : Nat} (h : less ≤ width) :
    a % 2 ^ width < 2 ^ less ↔ a % 2 ^ less = a % 2 ^ width := by
  constructor
  · intro hlt
    rw [← Nat.mod_mod_of_dvd a (pow_dvd_pow 2 h), Nat.mod_eq_of_lt hlt]
  · intro he
    rw [← he]
    exact Nat.mod_lt _ (Nat.two_pow_pos less)

namespace Circuit

variable {c : Circuit} {id next last : NodeId} {n : Node} {value : Word}

theorem Passes.exists_node (h : c.Passes id next) : ∃ n, c.node? id = some n := by
  obtain ⟨n, hn, -⟩ := h
  exact ⟨n, hn⟩

/-- Every node on the chain from `id` is wide enough for the number. -/
def Carries (c : Circuit) (id : NodeId) (number : Nat) : Prop :=
  ∀ other n, c.PassesTo id other → c.node? other = some n → number < 2 ^ n.width

theorem carries_of_passes (h : c.Passes id next) (hn : c.node? id = some n) {number : Nat} :
    c.Carries id number ↔ number < 2 ^ n.width ∧ c.Carries next number := by
  constructor
  · intro hcarries
    exact ⟨hcarries id n .refl hn, fun other m hother => hcarries other m (.head h hother)⟩
  · rintro ⟨hfirst, hrest⟩ other m hother hm
    rcases hother.cases_head with rfl | ⟨second, hsecond, hpath⟩
    · cases hn.symm.trans hm
      exact hfirst
    · cases h.unique hsecond
      exact hrest other m hpath hm

theorem WellTyped.carries_of_isLiteral (hc : c.WellTyped) (h : c.IsLiteral id value) {number : Nat}
    (hle : number ≤ value.toNat) : c.Carries id number := by
  intro other m hother hm
  rcases hother.cases_head with rfl | ⟨second, hsecond, -⟩
  · obtain ⟨n, hn, hkind⟩ := h
    cases hn.symm.trans hm
    have hwidth := hc.suits hn
    rw [hkind] at hwidth
    have hfits : value.toNat < 2 ^ value.width := Word.patterns_eq value.width ▸ value.toNat_lt
    exact hle.trans_lt (hwidth ▸ hfits)
  · exact absurd hsecond (h.not_passes second)

section Values

variable (wf : WellFounded c.Depends) (m : Machine)

theorem value_of_isLiteral (h : c.IsLiteral id value) : c.value wf m id = value := by
  obtain ⟨n, hn, hkind⟩ := h
  rw [value_eq wf m hn]
  simp [Machine.shows, hkind]

theorem value_of_passes (h : c.Passes id next) (hn : c.node? id = some n) :
    c.value wf m id = .ofNat n.width (c.value wf m next).toNat := by
  obtain ⟨proxy, hproxy, hkind, hsrc⟩ := h
  cases hn.symm.trans hproxy
  rw [value_eq wf m hn]
  simp [Machine.shows, hkind, hsrc]

/-- The proxies hand on the low bits of a literal exactly if all of them have room for what these make. -/
theorem value_mod_eq_iff (hc : c.WellTyped) (h : c.LeadsTo id value) (width : Nat) :
    (c.value wf m id).toNat % 2 ^ width = value.toNat % 2 ^ width ↔
      c.Carries id (value.toNat % 2 ^ width) := by
  obtain ⟨last, hpath, hliteral⟩ := h
  induction hpath using Relation.ReflTransGen.head_induction_on generalizing width with
  | refl =>
    rw [value_of_isLiteral wf m hliteral]
    exact iff_of_true rfl (hc.carries_of_isLiteral hliteral (Nat.mod_le _ _))
  | @head first second hpasses _ ih =>
    obtain ⟨n, hn⟩ := hpasses.exists_node
    rw [value_of_passes wf m hpasses hn, Word.toNat_ofNat, Word.patterns_eq, carries_of_passes hpasses hn]
    rcases Nat.le_total width n.width with hwide | hnarrow
    · -- the proxy cuts nothing that counts
      rw [Nat.mod_mod_of_dvd _ (pow_dvd_pow 2 hwide), ih]
      have hroom : value.toNat % 2 ^ width < 2 ^ n.width :=
        (Nat.mod_lt _ (Nat.two_pow_pos width)).trans_le (Nat.pow_le_pow_right (by decide) hwide)
      exact (and_iff_right hroom).symm
    · -- what gets through has no more bits than the proxy
      have hcut : (c.value wf m second).toNat % 2 ^ n.width % 2 ^ width =
          (c.value wf m second).toNat % 2 ^ n.width :=
        Nat.mod_eq_of_lt ((Nat.mod_lt _ (Nat.two_pow_pos _)).trans_le
          (Nat.pow_le_pow_right (by decide) hnarrow))
      rw [hcut, mod_two_pow_lt_iff hnarrow]
      constructor
      · intro he
        have hlow : value.toNat % 2 ^ n.width = value.toNat % 2 ^ width := by
          rw [← mod_two_pow_lt_iff hnarrow, ← he]
          exact Nat.mod_lt _ (Nat.two_pow_pos _)
        exact ⟨hlow, hlow ▸ (ih n.width).mp (he.trans hlow.symm)⟩
      · rintro ⟨hlow, hcarries⟩
        rw [← hlow] at hcarries ⊢
        exact (ih n.width).mpr hcarries

/-- A constant is the same behind the proxies and in front of them, once it is cut to a width, exactly if
all of them have room for what is left. -/
theorem WellTyped.truncate_eq_iff (hc : c.WellTyped) (h : c.constant? id = some value) (width : Nat) :
    value.truncate width = (c.value wf m id).truncate width ↔
      c.Carries id (value.truncate width).toNat := by
  have hleads := hc.wellFormed.constant?_eq_some_iff.mp h
  rw [Word.truncate, Word.truncate, Word.resize_false, Word.resize_false, Word.ofNat_eq_ofNat_iff,
    Word.toNat_ofNat, Word.patterns_eq, ← value_mod_eq_iff wf m hc hleads]
  exact eq_comm

end Values

end Circuit

namespace Machine

variable {c : Circuit} {id init : NodeId} {n : Node} {value : Word}

theorem registers_powerOn (hn : c.node? id = some n) (hinit : n.source? 0 = some init)
    (hconstant : c.constant? init = some value) :
    (powerOn c).registers id = value.truncate n.width := by
  simp only [powerOn, hn, hinit, hconstant, Option.bind_some, Option.map_some, Option.getD_some,
    Word.truncate, Word.resize_false]

theorem registers_step_of_reset (wf : WellFounded c.Depends) {m : Machine} (hrunning : m.running = true)
    (hn : c.node? id = some n) {clock enable : Option NodeId} {rst : NodeId}
    (hkind : n.kind = .register clock (some rst) enable) (hinit : n.source? 0 = some init)
    (hreset : (c.value wf m rst).isTrue = true) :
    (m.step c wf).registers id = (c.value wf m init).truncate n.width := by
  have hnonzero : (c.value wf m rst).toNat ≠ 0 := by simpa [Word.isTrue, Word.isZero] using hreset
  rw [registers_step wf hn hrunning]
  simp [Node.loads, hkind, hinit, hnonzero, Word.truncate, Word.resize_false]

end Machine

namespace Simulation

variable {c : Circuit} {m : Machine} {s : Simulation} {id init : NodeId} {n : Node}

theorem Tracks.exists_reset (wf : WellFounded c.Depends) (hc : c.WellTyped) (h : s.Tracks c m)
    (hsettled : s.Settled wf m) (hticks : s.ticks ≠ 0) (hn : c.node? id = some n)
    {clock reset enable : Option NodeId} (hkind : n.kind = .register clock reset enable)
    (hinit : n.source? 0 = some init) :
    ∃ next, s.tick.value = (.ok (), next) ∧
      ∀ rst asserted, reset = some rst → s.value? rst = some asserted → asserted.isTrue = true →
        next.value? id = some ((c.value wf m init).truncate n.width) := by
  obtain ⟨next, htick, hnext, -, -⟩ := h.tick wf hc
  refine ⟨next, htick, ?_⟩
  rintro rst asserted rfl hrst hasserted
  rw [hsettled rst] at hrst
  obtain ⟨_, -, rfl⟩ := Option.map_eq_some_iff.mp hrst
  have hrunning : m.running = true := h.running.trans (bne_iff_ne.mpr hticks)
  rw [hnext.realizes.registers hn hkind,
    Machine.registers_step_of_reset wf hrunning hn hkind hinit hasserted]

end Simulation

namespace Verilog

open Naming (isName)
open Text (readLines Yields dropPrefix?_append)

/-- The value that an `initial` line gives to a name. -/
def Assignment.ofInitial? (line : List Char) : Option Assignment :=
  (line.dropPrefix? "  initial ".toList).bind (ofMarked? .start " = ".toList)

def startValues (text target : String) : List String :=
  (readLines Assignment.ofInitial? text.toList).filterMap (·.value? target)

def Item.start? : Item → Option Assignment
  | initial target value => some ⟨.start, target, value.text⟩
  | _ => none

theorem plain_initial : Plain Assignment.ofInitial? where
  frame := by decide
  preload := by decide
  leads := by
    simp only [plainLeads, List.forall_mem_cons]
    exact ⟨fun _ => rfl, fun _ => rfl, fun _ => rfl, fun _ => rfl, fun _ => rfl, fun _ => rfl, by simp⟩

theorem ofInitial?_text {target : String} (h : isName target = true) (value : String) :
    Assignment.ofInitial? ("  initial ".toList ++ (target.toList ++ (" = ".toList ++
      (value.toList ++ [';'])))) = some ⟨.start, target, value⟩ := by
  rw [Assignment.ofInitial?, dropPrefix?_append]
  exact ofMarked?_text h (by decide) .start ['=', ' '] value

theorem yields_start {i : Item} (h : ∀ name ∈ i.names, isName name = true) :
    Yields Assignment.ofInitial? i.text.toList i.start?.toList := by
  cases i with
  | initial target value => exact yields_initial h (ofInitial?_text (h target List.mem_cons_self) _)
  | assign target value => exact yields_assign h rfl
  | latch clock target value => exact yields_latch h rfl
  | store clock enable array address data => exact yields_store h rfl
  | preload array entries => exact plain_initial.yields_preload (h array List.mem_cons_self) entries
  | warning w => exact plain_initial.yields_warning (h w.name List.mem_cons_self)

namespace Plan

variable {p : Plan} {id : NodeId} {n : Node}

/-- What a node has before the first clock edge, as far as the text says: a register without a reset
starts with its initial value if that is a constant. -/
def start? (p : Plan) (n : Node) : Option Word :=
  match n.kind with
  | .register _ none _ =>
    (n.source? 1).bind fun _ => ((n.source? 0).bind p.circuit.constant?).map (·.truncate n.width)
  | _ => none

theorem starts_lowerRegister {clock reset enable : Option NodeId}
    (hkind : n.kind = .register clock reset enable) :
    (p.lowerRegister id n clock reset).filterMap Item.start? =
      (p.start? n).toList.map fun start => ⟨.start, p.name id, start.text⟩ := by
  unfold lowerRegister start?
  rw [hkind]
  cases n.source? 1 with
  | none => cases reset <;> rfl
  | some next =>
    cases reset with
    | some rst => cases n.source? 0 <;> rfl
    | none =>
      cases n.source? 0 with
      | none => rfl
      | some init =>
        simp only [Option.bind_some]
        cases p.circuit.constant? init <;> rfl

theorem starts_lowerMemory (init : Array Word) (clock : Option NodeId) :
    (p.lowerMemory id n init clock).filterMap Item.start? = [] := by
  have hpreload (words : List (Nat × Word)) : ((if words.isEmpty then []
      else [Item.preload (p.naming.arrayName id) words]).filterMap Item.start?) = [] := by
    split <;> rfl
  unfold lowerMemory
  simp only [List.filterMap_append, hpreload, List.nil_append, List.filterMap_cons, Item.start?]
  cases n.source? 1 <;> cases n.source? 2 <;> cases n.source? 3 <;> rfl

theorem starts_lowerOperation (op : Opcode) (signed : Bool) :
    (p.lowerOperation id n op signed).start? = none := by
  unfold lowerOperation
  split
  · split <;> rfl
  · split <;> rfl

theorem starts_lowerNode (hn : p.circuit.node? id = some n) :
    (p.lowerNode id).filterMap Item.start? =
      (p.start? n).toList.map fun start => ⟨.start, p.name id, start.text⟩ := by
  unfold lowerNode
  simp only [hn]
  cases hkind : n.kind with
  | register clock reset enable => exact starts_lowerRegister hkind
  | memory depth init clock =>
    rw [starts_lowerMemory, start?, hkind]
    rfl
  | output =>
    rw [start?, hkind]
    cases p.driver? n <;> rfl
  | proxy =>
    rw [start?, hkind]
    simp only
    split
    · rfl
    · cases n.source? 0 <;> rfl
  | operation op signed =>
    rw [start?, hkind, List.filterMap_cons, starts_lowerOperation]
    rfl
  | _ =>
    rw [start?, hkind]
    rfl

theorem named_start {i : Item} (hi : i ∈ p.lowerNode id) {a : Assignment} (ha : i.start? = some a) :
    p.Named id (some a.target) := by
  cases hn : p.circuit.node? id with
  | none => simp [lowerNode, hn] at hi
  | some n =>
    have hmem : a ∈ (p.lowerNode id).filterMap Item.start? := List.mem_filterMap.mpr ⟨i, hi, ha⟩
    rw [starts_lowerNode hn] at hmem
    obtain ⟨start, -, rfl⟩ := List.mem_map.mp hmem
    exact named_name hn

theorem Sound.startValues_name (h : p.Sound) (hn : p.circuit.node? id = some n) :
    startValues p.lower.text (p.name id) = (p.start? n).toList.map Word.text := by
  have hread : readLines Assignment.ofInitial? p.lower.text.toList =
      p.lower.items.filterMap Item.start? :=
    readLines_items plain_initial h.legal_lower fun _ _ hnames => yields_start hnames
  have hown := h.filterMap_items hn fun hi ha => named_start hi ha
  rw [← List.filterMap_filterMap, starts_lowerNode hn] at hown
  rw [startValues, hread, hown]
  cases p.start? n <;> simp [Assignment.value?]

theorem Sound.startValues_register (h : p.Sound) (hn : p.circuit.node? id = some n)
    {clock reset enable : Option NodeId} (hkind : n.kind = .register clock reset enable) {init : NodeId}
    (hinit : n.source? 0 = some init) {value : Word} (hconstant : p.circuit.constant? init = some value) :
    startValues p.lower.text (p.name id) =
      if reset.isNone && (n.source? 1).isSome then [(value.truncate n.width).text] else [] := by
  rw [h.startValues_name hn, start?, hkind]
  cases reset with
  | some rst => rfl
  | none => cases n.source? 1 <;> simp [hinit, hconstant]

end Plan

variable {c : Circuit} {id init : NodeId} {n : Node} {value : Word}

/-- A register whose initial value is a constant starts with it. The line in the text says the same, but a
reset may load something else: it does not, exactly if all proxies between the register and the constant
have room for what the register starts with. -/
theorem power_on_is_reset_iff_carried (htyped : c.Typed) (hacyclic : c.Acyclic) (mode : Mode)
    {clock reset enable : Option NodeId} (hn : c.node? id = some n)
    (hkind : n.kind = .register clock reset enable) (hinit : n.source? 0 = some init)
    (hconstant : c.constant? init = some value) {stimuli : List Stimulus} (hne : stimuli ≠ [])
    (hstimuli : ∀ stimulus ∈ stimuli, c.Accepts stimulus) :
    ∃ first s next order m start shown,
      (Simulation.start c mode).value = .ok first ∧ first.play stimuli = .ok s ∧
      s.tick.value = (.ok (), next) ∧ c.order = .ok order ∧ ofCircuit c = .ok m ∧
      start = value.truncate n.width ∧ first.value? id = some start ∧ s.value? init = some shown ∧
      startValues m.text ((Plan.ofCircuit c order).name id) =
        (if reset.isNone && (n.source? 1).isSome then [start.text] else []) ∧
      (∀ rst asserted, reset = some rst → s.value? rst = some asserted → asserted.isTrue = true →
        next.value? id = some (shown.truncate n.width)) ∧
      (start = shown.truncate n.width ↔ c.Carries init start.toNat) := by
  have hc := htyped.wellTyped
  obtain ⟨order, horder, hsound, hmodule⟩ := exists_plan htyped.reachable hacyclic
  have wf := (Circuit.isOrder_of_order hc.wellFormed horder).wellFounded
  obtain ⟨first, hstart, hfirst, hzero⟩ := Simulation.exists_start hc hacyclic mode
  obtain ⟨s, hplay, hlast, hticks, hsettled⟩ := hfirst.play wf hc hstimuli
  have hrunning : s.ticks ≠ 0 := by
    have hlength := List.length_pos_iff.mpr hne
    omega
  obtain ⟨next, htick, hreset⟩ := hlast.exists_reset wf hc (hsettled hne) hrunning hn hkind hinit
  obtain ⟨node, hnode⟩ := Circuit.exists_node_of_mem
    (hc.wellFormed.constant?_eq_some_iff.mp hconstant).mem_ids
  refine ⟨first, s, next, order, _, value.truncate n.width, _, hstart, hplay, htick, horder, hmodule,
    rfl, ?_, ?_, hsound.startValues_register hn hkind hinit hconstant, hreset,
    hc.truncate_eq_iff wf _ hconstant n.width⟩
  · rw [hfirst.realizes.registers hn hkind, Machine.registers_powerOn hn hinit hconstant]
  · rw [hsettled hne init, hnode]
    rfl

/-- Two registers start with a byte that comes through a proxy of four bits, and one of them has a reset. -/
def clipped (byte : Nat) : Circuit :=
  .ofCalls [.literal (.ofNat 8 byte) "k" .unknown, .output 4 "y" .unknown, .drive ⟨2⟩ ⟨0⟩,
    .register 8 (some ⟨1⟩) "a" .unknown, .connectNext ⟨3⟩ ⟨3⟩, .input 1 "rst" .unknown, .useReset ⟨4⟩,
    .register 8 (some ⟨1⟩) "b" .unknown, .connectNext ⟨6⟩ ⟨6⟩]

def inReset : Stimulus := [(⟨4⟩, .ofNat 1 1)]

def clippedShows (byte : Nat) (stimuli : List Stimulus) (id : NodeId) : Except SimError (Option Word) :=
  ((Simulation.start (clipped byte) {}).value.bind (·.play stimuli)).map (·.value? id)

def clippedNode? (byte : Nat) (id : NodeId) :
    Option (NodeKind × Nat × Option NodeId × Option NodeId) :=
  ((clipped byte).node? id).map fun n => (n.kind, n.width, n.source? 0, n.source? 1)

theorem exists_clipped {byte width : Nat} {id : NodeId} {kind : NodeKind} {src₀ src₁ : Option NodeId}
    (h : clippedNode? byte id = some (kind, width, src₀, src₁)) :
    ∃ n, (clipped byte).node? id = some n ∧ n.kind = kind ∧ n.width = width ∧ n.source? 0 = src₀ ∧
      n.source? 1 = src₁ := by
  obtain ⟨n, hn, hparts⟩ := Option.map_eq_some_iff.mp h
  exact ⟨n, hn, by simpa using hparts⟩

theorem clipped_typed (byte : Nat) : (clipped byte).Typed :=
  Circuit.reachableBy_ofCalls (List.all_eq_true.mp rfl)

theorem clipped_acyclic {byte : Nat}
    (h : (clipped byte).order = .ok [⟨0⟩, ⟨1⟩, ⟨2⟩, ⟨3⟩, ⟨4⟩, ⟨5⟩, ⟨6⟩]) : (clipped byte).Acyclic :=
  (Circuit.isOrder_of_order (clipped_typed byte).wellTyped.wellFormed h).acyclic

theorem clipped_accepts {byte : Nat}
    (hport : clippedNode? byte ⟨4⟩ = some (.input (.zero 1) none (some ⟨5⟩), 1, none, none)) :
    (clipped byte).Accepts inReset := by
  obtain ⟨n, hn, hkind, hwidth, -⟩ := exists_clipped hport
  intro entry hentry
  cases List.mem_singleton.mp hentry
  exact ⟨n, hn, by simp [hkind, NodeKind.tag], hwidth.symm⟩

theorem small_byte_is_reset_value :
    (clipped 5).Typed ∧ (clipped 5).Acyclic ∧ (clipped 5).Accepts inReset ∧
      ∃ first s next, (Simulation.start (clipped 5) {}).value = .ok first ∧
        first.play [inReset] = .ok s ∧ s.tick.value = (.ok (), next) ∧
        first.value? ⟨6⟩ = some (.ofNat 8 5) ∧ next.value? ⟨6⟩ = some (.ofNat 8 5) := by
  have htyped := clipped_typed 5
  have hacyclic : (clipped 5).Acyclic := clipped_acyclic (by decide +kernel)
  have haccepts : (clipped 5).Accepts inReset := clipped_accepts (by decide +kernel)
  have hconstant : (clipped 5).constant? ⟨1⟩ = some (.ofNat 8 5) := by decide +kernel
  have hregister : clippedNode? 5 ⟨6⟩ = some (.register none (some ⟨4⟩) none, 8, some ⟨1⟩, some ⟨6⟩) := by
    decide +kernel
  obtain ⟨n, hn, hkind, hwidth, hinit, -⟩ := exists_clipped hregister
  obtain ⟨first, s, next, _, _, _, shown, hstart, hplay, htick, -, -, rfl, hpower, -, -, hreset, hsame⟩ :=
    power_on_is_reset_iff_carried htyped hacyclic {} hn hkind hinit hconstant
      (List.cons_ne_nil inReset []) (by simpa using haccepts)
  have hvalue : (Word.ofNat 8 5).truncate n.width = .ofNat 8 5 := by
    rw [hwidth]
    rfl
  rw [hvalue] at hpower hsame
  have hrst : s.value? ⟨4⟩ = some (.ofNat 1 1) := by
    have hshows : clippedShows 5 [inReset] ⟨4⟩ = .ok (some (.ofNat 1 1)) := by decide +kernel
    simpa [clippedShows, hstart, hplay, Except.bind, Except.map] using hshows
  have hcarries : (clipped 5).Carries ⟨1⟩ 5 := by
    have hproxy : clippedNode? 5 ⟨1⟩ = some (.proxy, 4, some ⟨0⟩, none) := by decide +kernel
    have hbyte : clippedNode? 5 ⟨0⟩ = some (.literal (.ofNat 8 5), 8, none, none) := by decide +kernel
    obtain ⟨proxy, hn, hkind, hwidth, hsrc, -⟩ := exists_clipped hproxy
    obtain ⟨literal, hliteral, hvalue, -⟩ := exists_clipped hbyte
    have hpasses : (clipped 5).Passes ⟨1⟩ ⟨0⟩ := ⟨proxy, hn, hkind, hsrc⟩
    refine (Circuit.carries_of_passes hpasses hn).mpr ⟨by rw [hwidth]; decide, ?_⟩
    exact htyped.wellTyped.carries_of_isLiteral ⟨literal, hliteral, hvalue⟩ (by decide)
  refine ⟨htyped, hacyclic, haccepts, first, s, next, hstart, hplay, htick, hpower, ?_⟩
  rw [hreset ⟨4⟩ _ rfl hrst rfl, ← hsame.mpr hcarries]

/-- A reset loads four bits of the eight that the registers start with. -/
theorem large_byte_is_cut_by_reset :
    (clipped 255).Typed ∧ (clipped 255).Acyclic ∧ (clipped 255).Accepts inReset ∧
      (clipped 255).constant? ⟨1⟩ = some (.ofNat 8 255) ∧
      clippedShows 255 [] ⟨3⟩ = .ok (some (.ofNat 8 255)) ∧
      clippedShows 255 [] ⟨6⟩ = .ok (some (.ofNat 8 255)) ∧
      clippedShows 255 [inReset] ⟨1⟩ = .ok (some (.ofNat 4 15)) ∧
      clippedShows 255 [inReset, []] ⟨6⟩ = .ok (some (.ofNat 8 15)) ∧
      ∃ order m, (clipped 255).order = .ok order ∧ ofCircuit (clipped 255) = .ok m ∧
        startValues m.text ((Plan.ofCircuit (clipped 255) order).name ⟨3⟩) = ["8'hff"] := by
  have htyped := clipped_typed 255
  have hacyclic : (clipped 255).Acyclic := clipped_acyclic (by decide +kernel)
  have haccepts : (clipped 255).Accepts inReset := clipped_accepts (by decide +kernel)
  have hconstant : (clipped 255).constant? ⟨1⟩ = some (.ofNat 8 255) := by decide +kernel
  have hregister : clippedNode? 255 ⟨3⟩ = some (.register none none none, 8, some ⟨1⟩, some ⟨3⟩) := by
    decide +kernel
  obtain ⟨n, hn, hkind, hwidth, hinit, hnext⟩ := exists_clipped hregister
  obtain ⟨order, horder, hsound, hmodule⟩ := exists_plan htyped.reachable hacyclic
  refine ⟨htyped, hacyclic, haccepts, hconstant, by decide +kernel, by decide +kernel, by decide +kernel,
    by decide +kernel, order, _, horder, hmodule, ?_⟩
  rw [hsound.startValues_register hn hkind hinit hconstant, hnext, hwidth]
  decide +kernel

end Verilog

end Netlist
