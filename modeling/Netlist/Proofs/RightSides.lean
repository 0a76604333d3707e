import Netlist.Proofs.Description
import Netlist.Proofs.Expressions

namespace Netlist.Verilog

open Naming (isName isIdentChar all_isIdentChar Legal Owns)
open Text (readLines Yields dropPrefix?_append)

/-- When a value is assigned, which the keyword of a line tells. -/
inductive Timing where
  | continuous
  | edge (clock : String)
  | start
deriving DecidableEq

structure Assignment where
  timing : Timing
  target : String
  value : String
deriving DecidableEq

namespace Assignment

def ofMarked? (timing : Timing) (mark : List Char) (text : List Char) : Option Assignment :=
  ((text.dropWhile isIdentChar).dropPrefix? mark).bind fun value =>
    if value.getLast? = some ';' then
      some ⟨timing, String.ofList (text.takeWhile isIdentChar), String.ofList value.dropLast⟩
    else none

/-- A continuous assignment, or one at the edges of a clock. -/
def ofLine? (line : List Char) : Option Assignment :=
  match line.dropPrefix? "  assign ".toList with
  | some rest => ofMarked? .continuous " = ".toList rest
  | none =>
    (line.dropPrefix? "  always @(posedge ".toList).bind fun rest =>
      ((rest.dropWhile isIdentChar).dropPrefix? ") ".toList).bind
        (ofMarked? (.edge (String.ofList (rest.takeWhile isIdentChar))) " <= ".toList)

def value? (a : Assignment) (target : String) : Option String :=
  if a.target = target then some a.value else none

end Assignment

def rightSides (text target : String) : List String :=
  (readLines Assignment.ofLine? text.toList).filterMap (·.value? target)

def timings (text target : String) : List Timing :=
  ((readLines Assignment.ofLine? text.toList).filter (·.target = target)).map Assignment.timing

def Item.assignment? : Item → Option Assignment
  | assign target value => some ⟨.continuous, target, value.text⟩
  | latch clock target value => some ⟨.edge clock, target, value.text⟩
  | _ => none

section Lines

variable {name target : String} {value : Expr}

theorem takeWhile_name (h : isName name = true) {c : Char} (hc : isIdentChar c = false) (rest : List Char) :
    (name.toList ++ c :: rest).takeWhile isIdentChar = name.toList := by
  rw [List.takeWhile_append_of_pos (all_isIdentChar h), List.takeWhile_cons_of_neg (by simp [hc]),
    List.append_nil]

theorem dropWhile_name (h : isName name = true) {c : Char} (hc : isIdentChar c = false) (rest : List Char) :
    (name.toList ++ c :: rest).dropWhile isIdentChar = c :: rest := by
  rw [List.dropWhile_append_of_pos (all_isIdentChar h), List.dropWhile_cons_of_neg (by simp [hc])]

theorem ofMarked?_text (h : isName target = true) {c : Char} (hc : isIdentChar c = false)
    (timing : Timing) (mark : List Char) (value : String) :
    Assignment.ofMarked? timing (c :: mark) (target.toList ++ (c :: mark ++ (value.toList ++ [';']))) =
      some ⟨timing, target, value⟩ := by
  have htarget := takeWhile_name h hc (mark ++ (value.toList ++ [';']))
  have hrest := dropWhile_name h hc (mark ++ (value.toList ++ [';']))
  rw [← List.cons_append] at htarget hrest
  rw [Assignment.ofMarked?, htarget, hrest, dropPrefix?_append, Option.bind_some,
    List.getLast?_concat, if_pos rfl, List.dropLast_concat, String.ofList_toList, String.ofList_toList]

theorem ofLine?_assign (h : isName target = true) (value : String) :
    Assignment.ofLine? ("  assign ".toList ++ (target.toList ++ (" = ".toList ++
      (value.toList ++ [';'])))) = some ⟨.continuous, target, value⟩ := by
  rw [Assignment.ofLine?, dropPrefix?_append]
  exact ofMarked?_text h (by decide) .continuous ['=', ' '] value

/-- A line that is no continuous assignment may be one at the edges of a clock. -/
theorem ofLine?_always {clock : String} (hclock : isName clock = true) (rest : List Char) :
    Assignment.ofLine? ("  always @(posedge ".toList ++ (clock.toList ++ (") ".toList ++ rest))) =
      Assignment.ofMarked? (.edge clock) " <= ".toList rest := by
  have hassign : ("  always @(posedge ".toList ++ (clock.toList ++ (") ".toList ++ rest))).dropPrefix?
      "  assign ".toList = none := rfl
  have hname : (clock.toList ++ (") ".toList ++ rest)).dropWhile isIdentChar = ") ".toList ++ rest :=
    dropWhile_name hclock (by decide) (' ' :: rest)
  have hedge : (clock.toList ++ (") ".toList ++ rest)).takeWhile isIdentChar = clock.toList :=
    takeWhile_name hclock (by decide) (' ' :: rest)
  rw [Assignment.ofLine?, hassign]
  simp only [dropPrefix?_append, Option.bind_some, hname, hedge, String.ofList_toList]

theorem ofLine?_latch {clock : String} (hclock : isName clock = true) (h : isName target = true)
    (value : String) :
    Assignment.ofLine? ("  always @(posedge ".toList ++ (clock.toList ++ (") ".toList ++
      (target.toList ++ (" <= ".toList ++ (value.toList ++ [';'])))))) =
      some ⟨.edge clock, target, value⟩ := by
  rw [ofLine?_always hclock]
  exact ofMarked?_text h (by decide) (.edge clock) ['<', '=', ' '] value

/-- What is stored in an array is assigned to none of its names. -/
theorem ofLine?_store {clock : String} (hclock : isName clock = true) (rest : List Char) :
    Assignment.ofLine? ("  always @(posedge ".toList ++ (clock.toList ++ (") ".toList ++
      ("if (".toList ++ rest)))) = none := by
  rw [ofLine?_always hclock]
  rfl

end Lines

section Text

theorem plain_assignment : Plain Assignment.ofLine? where
  frame := by decide
  preload := by decide
  leads := by
    simp only [plainLeads, List.forall_mem_cons]
    exact ⟨fun _ => rfl, fun _ => rfl, fun _ => rfl, fun _ => rfl, fun _ => rfl, fun _ => rfl, by simp⟩

theorem yields_item {i : Item} (h : ∀ name ∈ i.names, isName name = true) :
    Yields Assignment.ofLine? i.text.toList i.assignment?.toList := by
  cases i with
  | assign target value => exact yields_assign h (ofLine?_assign (h target (by simp [Item.names])) _)
  | latch clock target value =>
    have hclock := h clock (by simp [Item.names])
    have htarget := h target (by simp [Item.names])
    exact yields_latch h (ofLine?_latch hclock htarget _)
  | store clock enable array address data =>
    exact yields_store h (ofLine?_store (h clock (by simp [Item.names])) _)
  | initial target value => exact yields_initial h rfl
  | preload array entries => exact plain_assignment.yields_preload (h array List.mem_cons_self) entries
  | warning w => exact plain_assignment.yields_warning (h w.name List.mem_cons_self)

/-- The assignments in the text of a module are those that its items make. -/
theorem readLines_assignments {m : Module} (h : m.Legal) :
    readLines Assignment.ofLine? m.text.toList = m.items.filterMap Item.assignment? :=
  readLines_items plain_assignment h fun _ _ hnames => yields_item hnames

end Text

namespace Plan

variable {p : Plan} {id : NodeId} {n : Node}

theorem Sound.named_assignment (h : p.Sound) {other : NodeId} {i : Item} (hi : i ∈ p.lowerNode other)
    {a : Assignment} (ha : i.assignment? = some a) : p.Named other (some a.target) := by
  obtain ⟨e, he, htarget⟩ : ∃ e, i.statement? = some e ∧ e.target? = some a.target := by
    cases i with
    | assign target value =>
      cases ha
      exact ⟨_, rfl, rfl⟩
    | latch clock target value =>
      cases ha
      cases value <;> exact ⟨_, rfl, rfl⟩
    | _ => cases ha
  have hmem : e ∈ p.itemEntries other := List.mem_filterMap.mpr ⟨i, hi, he⟩
  obtain ⟨n, hn, hstatement⟩ := h.statement hmem
  rw [← htarget]
  exact hstatement.named_target hn

/-- What is assigned to the name of a node, by whichever lines, is in the items for that node. -/
theorem Sound.filterMap_items (h : p.Sound) (hn : p.circuit.node? id = some n)
    {pick : Item → Option Assignment} (hnamed : ∀ {other i a}, i ∈ p.lowerNode other → pick i = some a →
      p.Named other (some a.target)) :
    (p.lower.items.filterMap pick).filterMap (·.value? (p.name id)) =
      (p.lowerNode id).filterMap fun i => (pick i).bind (·.value? (p.name id)) := by
  have hothers (other : NodeId) (hne : other ≠ id) : ((p.lowerNode other).filterMap fun i =>
      (pick i).bind (·.value? (p.name id))) = [] := by
    refine List.filterMap_eq_nil_iff.mpr fun i hi => Option.bind_eq_none_iff.mpr fun a ha => ?_
    refine if_neg fun htarget => hne ?_
    obtain ⟨place, howns, hname⟩ := hnamed hi ha a.target rfl
    have hplace : place = .node id := h.injective howns (owns_node hn) (hname.trans htarget)
    exact owns_id (hplace ▸ howns) (owns_node hn)
  have hmem : id ∈ p.order := h.isOrder.mem.mpr (Circuit.mem_ids_of_node? hn)
  rw [List.filterMap_filterMap, lower, List.filterMap_flatMap]
  exact flatMap_of_unique h.isOrder.nodup hmem hothers

theorem Sound.rightSides_name (h : p.Sound) (hn : p.circuit.node? id = some n) :
    rightSides p.lower.text (p.name id) =
      (p.lowerNode id).filterMap fun i => i.assignment?.bind (·.value? (p.name id)) := by
  rw [rightSides, readLines_assignments h.legal_lower]
  exact h.filterMap_items hn fun hi ha => h.named_assignment hi ha

theorem rightSides_eq (text target : String) : rightSides text target =
    ((readLines Assignment.ofLine? text.toList).filter (·.target = target)).map Assignment.value := by
  unfold rightSides
  induction readLines Assignment.ofLine? text.toList with
  | nil => rfl
  | cons a rest ih =>
    rw [List.filterMap_cons, ih, Assignment.value?]
    by_cases h : a.target = target <;> simp [h]

/-- A register takes its value at the edges of its clock, and all else is assigned continuously. -/
def timing (p : Plan) (n : Node) : Timing :=
  match n.kind with
  | .register clock _ _ => .edge (p.clock clock)
  | _ => .continuous

theorem timing_of_assignment (hn : p.circuit.node? id = some n) {a : Assignment}
    (ha : a ∈ (p.lowerNode id).filterMap Item.assignment?) : a.timing = p.timing n := by
  revert a
  unfold lowerNode timing
  simp only [hn]
  cases hkind : n.kind with
  | output => cases p.driver? n <;> simp [Item.assignment?]
  | proxy => cases p.isAbsorbed id <;> cases n.source? 0 <;> simp [Item.assignment?]
  | operation op signed =>
    unfold lowerOperation operand?
    cases n.source? 0 <;> cases n.source? 1 <;> cases hunary : op.isUnary <;>
      simp [Item.assignment?, hunary]
  | register clock reset enable =>
    unfold lowerRegister
    cases n.source? 1 <;> cases reset <;> cases n.source? 0 <;> simp [Item.assignment?]
  | memory depth init clock =>
    have hpreload (words : List (Nat × Word)) : ((if words.isEmpty then []
        else [Item.preload (p.naming.arrayName id) words]).filterMap Item.assignment?) = [] := by
      split <;> rfl
    unfold lowerMemory
    simp only [List.filterMap_append, hpreload, List.nil_append]
    cases n.source? 1 <;> cases n.source? 2 <;> cases n.source? 3 <;> simp [Item.assignment?]
  | _ => simp [Item.assignment?]

/-- All assignments to the name of a node are made at the time that its kind asks for. -/
theorem Sound.timings_name (h : p.Sound) (hn : p.circuit.node? id = some n) :
    timings p.lower.text (p.name id) =
      .replicate (rightSides p.lower.text (p.name id)).length (p.timing n) := by
  refine List.eq_replicate_iff.mpr ⟨?_, fun t ht => ?_⟩
  · rw [timings, rightSides_eq, List.length_map, List.length_map]
  · obtain ⟨a, ha, rfl⟩ := List.mem_map.mp ht
    rw [List.mem_filter, decide_eq_true_eq, readLines_assignments h.legal_lower] at ha
    obtain ⟨hmem, htarget⟩ := ha
    obtain ⟨i, hi, hassigns⟩ := List.mem_filterMap.mp hmem
    obtain ⟨other, -, hi⟩ := List.mem_flatMap.mp hi
    obtain ⟨place, howns, hname⟩ := h.named_assignment hi hassigns a.target rfl
    have hplace : place = .node id := h.injective howns (owns_node hn) (hname.trans htarget)
    obtain rfl : other = id := owns_id (hplace ▸ howns) (owns_node hn)
    exact timing_of_assignment hn (List.mem_filterMap.mpr ⟨i, hi, hassigns⟩)

section Sides

variable (h : p.Sound) (hn : p.circuit.node? id = some n)
include h hn

theorem Sound.rightSides_unary {op : Opcode} {signed : Bool} (hkind : n.kind = .operation op signed)
    (hop : op.isUnary = true) {src : NodeId} (hsrc : n.source? 0 = some src) :
    rightSides p.lower.text (p.name id) = [(Expr.unary op ⟨p.name src, signed⟩).text] := by
  rw [h.rightSides_name hn]
  simp [lowerNode, hn, hkind, lowerOperation, hop, operand?, hsrc, Item.assignment?, Assignment.value?]

theorem Sound.rightSides_binary {op : Opcode} {signed : Bool} (hkind : n.kind = .operation op signed)
    (hop : op.isUnary = false) {lhs rhs : NodeId} (hlhs : n.source? 0 = some lhs)
    (hrhs : n.source? 1 = some rhs) :
    rightSides p.lower.text (p.name id) =
      [(Expr.binary op ⟨p.name lhs, signed⟩ ⟨p.name rhs, signed && !op.isShift⟩).text] := by
  rw [h.rightSides_name hn]
  simp [lowerNode, hn, hkind, lowerOperation, hop, operand?, hlhs, hrhs, Item.assignment?,
    Assignment.value?]

/-- A reset loads the initial value, if there is one. -/
theorem Sound.rightSides_reset {clock reset enable : Option NodeId} {rst init next : NodeId}
    (hkind : n.kind = .register clock reset enable) (hreset : reset = some rst)
    (hinit : n.source? 0 = some init) (hnext : n.source? 1 = some next) :
    rightSides p.lower.text (p.name id) =
      [(Expr.choice (p.name rst) (p.name init) (p.name next)).text] := by
  rw [h.rightSides_name hn]
  simp [lowerNode, hn, hkind, lowerRegister, hreset, hinit, hnext, Item.assignment?, Assignment.value?]

theorem Sound.rightSides_next {clock reset enable : Option NodeId} {next : NodeId}
    (hkind : n.kind = .register clock reset enable) (hcase : reset = none ∨ n.source? 0 = none)
    (hnext : n.source? 1 = some next) :
    rightSides p.lower.text (p.name id) = [p.name next] := by
  rw [h.rightSides_name hn]
  rcases hcase with rfl | hinit
  · cases hinit : n.source? 0 with
    | none =>
      simp [lowerNode, hn, hkind, lowerRegister, hinit, hnext, Item.assignment?, Assignment.value?,
        Expr.text]
    | some init =>
      cases hconstant : p.circuit.constant? init <;>
        simp [lowerNode, hn, hkind, lowerRegister, hinit, hnext, hconstant, Item.assignment?,
          Assignment.value?, Expr.text]
  · simp [lowerNode, hn, hkind, lowerRegister, hinit, hnext, Item.assignment?, Assignment.value?,
      Expr.text]

theorem Sound.rightSides_output (hkind : n.kind = .output) {d : NodeId}
    (hd : p.circuit.driver? n = some d) : rightSides p.lower.text (p.name id) = [p.name d] := by
  rw [h.rightSides_name hn]
  simp [lowerNode, hn, hkind, h.driver?_eq, hd, Item.assignment?, Assignment.value?, Expr.text]

end Sides

end Plan

/-- In the text of a circuit's module a register is assigned to at the edges of its clock, or of the clock
that is added, and every other node continuously. -/
theorem assigned_in_time {c : Circuit} (h : c.Reachable) (hacyclic : c.Acyclic) :
    ∃ order m, c.order = .ok order ∧ ofCircuit c = .ok m ∧ ∀ id n, c.node? id = some n →
      timings m.text ((Plan.ofCircuit c order).name id) =
        .replicate (rightSides m.text ((Plan.ofCircuit c order).name id)).length
          ((Plan.ofCircuit c order).timing n) := by
  obtain ⟨order, horder, hsound, hlower⟩ := exists_plan h hacyclic
  exact ⟨order, _, horder, hlower, fun id n hn => hsound.timings_name hn⟩

end Netlist.Verilog
