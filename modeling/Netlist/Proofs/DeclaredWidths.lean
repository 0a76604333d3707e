import Netlist.Proofs.Description

namespace Netlist.Verilog

open Naming (isName isIdentChar all_isIdentChar Legal Owns Place)
open Text (Yields readLines dropPrefix?_append toList_append_append)

structure Declared where
  name : String
  width : Nat
deriving DecidableEq

namespace Declared

def leads : List String := ["  input", "  output", "  wire", "  reg"]

def afterLead? (line : List Char) : Option (List Char) :=
  leads.findSome? fun lead => line.dropPrefix? lead.toList

/-- The number of bits that a range is for, and what comes after it. Without a range it is one bit. -/
def ofRange? (text : List Char) : Option (Nat × List Char) :=
  match text.dropPrefix? " [".toList with
  | some rest =>
    ((rest.dropWhile Char.isDigit).dropPrefix? ":0]".toList).map
      (Nat.ofDigitChars 10 (rest.takeWhile Char.isDigit) 0 + 1, ·)
  | none => some (1, text)

def ofLine? (line : List Char) : Option Declared :=
  (afterLead? line).bind fun rest =>
    (ofRange? rest).bind fun (width, after) =>
      (after.dropPrefix? " ".toList).map fun name =>
        ⟨String.ofList (name.takeWhile isIdentChar), width⟩

theorem afterLead?_append : ∀ lead ∈ leads, ∀ rest, afterLead? (lead.toList ++ rest) = some rest := by
  intro lead hlead rest
  simp only [leads, List.mem_cons, List.not_mem_nil, or_false] at hlead
  rcases hlead with rfl | rfl | rfl | rfl <;> simp [afterLead?, leads, List.dropPrefix?]

theorem dropPrefix?_range_name {name : String} (hname : isName name = true) (rest : List Char) :
    (" ".toList ++ (name.toList ++ rest)).dropPrefix? " [".toList = none := by
  cases hlist : name.toList with
  | nil => simp [isName, hlist] at hname
  | cons c cs =>
    have hc : c ≠ '[' := by
      rintro rfl
      have hident : isIdentChar '[' = true := by simp_all [isName]
      exact absurd hident (by decide)
    have hbracket : " [".toList = [' ', '['] := by decide
    have hblank : " ".toList = [' '] := by decide
    simp [hbracket, hblank, List.dropPrefix?, hc]

theorem ofRange?_brackets (last : Nat) (rest : List Char) :
    ofRange? ((" [" ++ toString last ++ ":0]").toList ++ rest) = some (last + 1, rest) := by
  have hdigits : ∀ c ∈ Nat.toDigits 10 last, c.isDigit = true := fun _ =>
    Nat.isDigit_of_mem_toDigits (by decide) (by decide)
  -- the digits end at the colon
  have hcolon : ":0]".toList = ':' :: "0]".toList := by decide
  have hafter : (":0]".toList ++ rest).takeWhile Char.isDigit = [] ∧
      (":0]".toList ++ rest).dropWhile Char.isDigit = ":0]".toList ++ rest := by
    rw [hcolon]
    exact ⟨rfl, rfl⟩
  rw [toList_append_append, Nat.toString_eq_repr, Nat.toList_repr, List.append_assoc,
    List.append_assoc, ofRange?, dropPrefix?_append]
  simp only [List.dropWhile_append_of_pos hdigits, List.takeWhile_append_of_pos hdigits, hafter,
    dropPrefix?_append, Option.map_some, List.append_nil, Nat.ofDigitChars_ten_toDigits]

theorem ofRange?_range {width : Nat} (h : 1 ≤ width) {name : String} (hname : isName name = true)
    (rest : List Char) :
    ofRange? ((range width).toList ++ (" ".toList ++ (name.toList ++ rest))) =
      some (width, " ".toList ++ (name.toList ++ rest)) := by
  unfold range
  split
  · next hone =>
    subst hone
    simp only [String.toList_empty, List.nil_append, ofRange?, dropPrefix?_range_name hname]
  · have hbits := ofRange?_brackets (width - 1) (" ".toList ++ (name.toList ++ rest))
    rw [Nat.sub_add_cancel h] at hbits
    exact hbits

theorem ofLine?_declaring {lead : String} (hlead : lead ∈ leads) {width : Nat} (h : 1 ≤ width)
    {name : String} (hname : isName name = true) {rest : List Char}
    (hrest : rest.head?.all (!isIdentChar ·) = true) :
    ofLine? (lead.toList ++ ((range width).toList ++ (" ".toList ++ (name.toList ++ rest)))) =
      some ⟨name, width⟩ := by
  have htake : (name.toList ++ rest).takeWhile isIdentChar = name.toList := by
    have hnone : rest.takeWhile isIdentChar = [] := by cases rest <;> simp_all
    rw [List.takeWhile_append_of_pos (all_isIdentChar hname), hnone, List.append_nil]
  rw [ofLine?, afterLead?_append lead hlead, Option.bind_some, ofRange?_range h hname, Option.bind_some]
  simp only [dropPrefix?_append, Option.map_some, htake, String.ofList_toList]

def itemLeads : List String :=
  ["  assign ", "  always @(posedge ", "  initial ", "    ", "  // WARNING: "]

theorem ofLine?_of_item : ∀ lead ∈ itemLeads, ∀ rest, ofLine? (lead.toList ++ rest) = none := by
  intro lead hlead rest
  simp only [itemLeads, List.mem_cons, List.not_mem_nil, or_false] at hlead
  rcases hlead with rfl | rfl | rfl | rfl | rfl <;>
    simp [ofLine?, afterLead?, leads, List.dropPrefix?]

theorem yields_item {i : Item} (h : ∀ name ∈ i.names, isName name = true) :
    Yields ofLine? i.text.toList [] := by
  cases i with
  | assign target value => exact yields_assign h (ofLine?_of_item "  assign " (by decide) _)
  | initial target value => exact yields_initial h (ofLine?_of_item "  initial " (by decide) _)
  | preload array entries =>
    exact yields_preload (h array List.mem_cons_self) (by decide) (by decide)
      (fun _ => ofLine?_of_item "    " (by decide) _) entries
  | latch clock target value =>
    exact yields_latch h (ofLine?_of_item "  always @(posedge " (by decide) _)
  | store clock enable array address data =>
    exact yields_store h (ofLine?_of_item "  always @(posedge " (by decide) _)
  | warning w =>
    refine yields_warning (a := none) (h w.name List.mem_cons_self) ?_
    rw [w.toList_lead, List.append_assoc]
    exact ofLine?_of_item "  // WARNING: " (by decide) _

end Declared

def Port.declared (p : Port) : Declared := ⟨p.name, p.width⟩

def Declaration.declared (d : Declaration) : Declared := ⟨d.name, d.width⟩

/-- Ports, registers, wires and arrays are declared with their widths, and nothing else is declared. -/
theorem readLines_declared {m : Module} (h : m.Legal) (hports : ∀ p ∈ m.ports, 1 ≤ p.width)
    (hdeclarations : ∀ d ∈ m.declarations, 1 ≤ d.width) :
    readLines Declared.ofLine? m.text.toList =
      m.ports.map Port.declared ++ m.declarations.map Declaration.declared := by
  have hport (p : Port) (hp : p ∈ m.ports) (after : String) (hafter : after ∈ ["", ","]) :
      Yields Declared.ofLine? ("  " ++ p.text ++ after ++ "\n").toList [p.declared] := by
    have hname := (h.ports p hp).1
    have hlead : "  " ++ p.direction.text ∈ Declared.leads := by cases p.direction <;> decide
    have hrest : after.toList.head?.all (!isIdentChar ·) = true := by
      rcases List.mem_cons.mp hafter with rfl | hafter
      · decide
      · cases List.mem_singleton.mp hafter
        decide
    exact yields_port hname hafter (Declared.ofLine?_declaring hlead (hports p hp) hname hrest)
  have hdeclaration (d : Declaration) (hd : d ∈ m.declarations) :
      Yields Declared.ofLine? d.text.toList [d.declared] := by
    have hname := (h.declarations d hd).1
    have hlead : d.lead ∈ Declared.leads := by
      cases d <;> simp [Declaration.lead, Declared.leads]
    have hrest : d.tail.toList.head?.all (!isIdentChar ·) = true := by
      cases d <;> simp [Declaration.tail, String.toList_append] <;> decide
    exact yields_declaration hname (Declared.ofLine?_declaring hlead (hdeclarations d hd) hname hrest)
  have hitems := readLines_text (by decide) hport hdeclaration fun i hi =>
    Declared.yields_item fun name hmem => (h.items i hi name hmem).1
  rw [hitems, List.map_eq_flatMap, List.map_eq_flatMap]
  simp

def declaredWidths (text name : String) : List Nat :=
  ((readLines Declared.ofLine? text.toList).filter (·.name = name)).map Declared.width

theorem declared?_of_statement {i : Item} {e : Entry} (h : i.statement? = some e) :
    e.declared? = none := by
  cases i with
  | latch clock target value => cases value <;> cases h <;> rfl
  | initial => cases h
  | preload => cases h
  | _ => cases h; rfl

/-- A name has as many declared widths as it has declarations. -/
theorem length_declaredWidths {m : Module} (h : m.Legal) (hports : ∀ p ∈ m.ports, 1 ≤ p.width)
    (hdeclarations : ∀ d ∈ m.declarations, 1 ≤ d.width) (name : String) :
    (declaredWidths m.text name).length = (declarations m.entries name).length := by
  have hnone : (m.items.filterMap Item.statement?).filter (fun e => e.declared? = some name) = [] := by
    refine List.filter_eq_nil_iff.mpr fun e he => ?_
    obtain ⟨i, -, hi⟩ := List.mem_filterMap.mp he
    simp [declared?_of_statement hi]
  have hport : (fun e : Entry => decide (e.declared? = some name)) ∘ Port.entry =
      (fun d : Declared => decide (d.name = name)) ∘ Port.declared := by
    funext p
    exact decide_eq_decide.mpr (by simp [Port.entry, Port.declared, Entry.declared?])
  have hdeclaration : (fun e : Entry => decide (e.declared? = some name)) ∘ Declaration.entry =
      (fun d : Declared => decide (d.name = name)) ∘ Declaration.declared := by
    funext d
    refine decide_eq_decide.mpr ?_
    cases d <;> simp [Declaration.entry, Declaration.declared, Entry.declared?, Declaration.name]
  rw [declaredWidths, readLines_declared h hports hdeclarations, declarations, Module.entries,
    List.filter_append, List.filter_append, hnone, List.append_nil, List.filter_append, List.length_map,
    List.length_append, List.length_append, List.filter_map, List.filter_map, List.filter_map,
    List.filter_map, List.length_map, List.length_map, List.length_map, List.length_map, hport,
    hdeclaration]

namespace Plan

variable {p : Plan} {id : NodeId} {n : Node}

/-- A name of a node with the width of the node, or that of the clock that is added. -/
def Fitting (p : Plan) (d : Declared) : Prop :=
  p.implicitClock = true ∧ d = ⟨clockName, 1⟩ ∨
    ∃ id n place, p.circuit.node? id = some n ∧ Owns p.circuit id place ∧
      d = ⟨p.naming.nameOf place, n.width⟩

theorem fitting_of_port {port : Port} (h : port ∈ p.ports) : p.Fitting port.declared := by
  unfold ports at h
  rcases List.mem_append.mp h with hclock | hport
  · split at hclock
    · next himplicit =>
      cases List.mem_singleton.mp hclock
      exact .inl ⟨himplicit, rfl⟩
    · cases hclock
  · obtain ⟨id, -, hport⟩ := List.mem_filterMap.mp hport
    obtain ⟨n, hn, rfl⟩ := Option.map_eq_some_iff.mp hport
    exact .inr ⟨id, n, .node id, hn, owns_node hn, rfl⟩

theorem fitting_of_declaration {d : Declaration} (h : d ∈ p.declare id) : p.Fitting d.declared := by
  unfold declare at h
  cases hn : p.circuit.node? id with
  | none => simp [hn] at h
  | some n =>
    have hnode (hd : d.declared = ⟨p.name id, n.width⟩) : p.Fitting d.declared :=
      .inr ⟨id, n, .node id, hn, owns_node hn, hd⟩
    simp only [hn] at h
    cases hkind : n.kind with
    | memory depth init clock =>
      simp only [hkind, List.mem_cons, List.not_mem_nil, or_false] at h
      rcases h with rfl | rfl
      · exact .inr ⟨id, n, .array id, hn, owns_array hn (by rw [hkind]; rfl), rfl⟩
      · exact hnode rfl
    | input => simp [hkind] at h
    | output => simp [hkind] at h
    | register =>
      simp only [hkind, List.mem_singleton] at h
      exact hnode (h ▸ rfl)
    | _ =>
      simp only [hkind] at h
      split at h
      · cases h
      · exact hnode (List.mem_singleton.mp h ▸ rfl)

variable (h : p.Sound)
include h

theorem Sound.width_pos {d : Declared} (hd : p.Fitting d) : 1 ≤ d.width := by
  rcases hd with ⟨-, rfl⟩ | ⟨id, n, place, hn, -, rfl⟩
  · exact Nat.le_refl 1
  · exact (h.wellFormed.holds hn).width_pos

/-- A name of a node is declared with the width of the node, as often as it is declared. -/
theorem Sound.declaredWidths_nameOf {place : Place} (hn : p.circuit.node? id = some n)
    (hplace : Owns p.circuit id place) :
    declaredWidths p.lower.text (p.naming.nameOf place) =
      .replicate (declarations p.lower.entries (p.naming.nameOf place)).length n.width := by
  have hports : ∀ port ∈ p.lower.ports, 1 ≤ port.width := fun port hport =>
    h.width_pos (fitting_of_port hport)
  have hfitting : ∀ d ∈ p.lower.declarations, p.Fitting d.declared := fun d hd => by
    obtain ⟨id, -, hd⟩ := List.mem_flatMap.mp hd
    exact fitting_of_declaration hd
  have hdeclarations : ∀ d ∈ p.lower.declarations, 1 ≤ d.width := fun d hd => h.width_pos (hfitting d hd)
  refine List.eq_replicate_iff.mpr
    ⟨length_declaredWidths h.legal_lower hports hdeclarations _, fun width hwidth => ?_⟩
  obtain ⟨d, hd, rfl⟩ := List.mem_map.mp hwidth
  rw [List.mem_filter, decide_eq_true_eq, readLines_declared h.legal_lower hports hdeclarations,
    List.mem_append] at hd
  obtain ⟨hmem, hname⟩ := hd
  have hd : p.Fitting d := by
    rcases hmem with hmem | hmem
    · obtain ⟨port, hport, rfl⟩ := List.mem_map.mp hmem
      exact fitting_of_port hport
    · obtain ⟨d, hd, rfl⟩ := List.mem_map.mp hmem
      exact hfitting d hd
  -- neither the added clock nor another node has this name
  rcases hd with ⟨himplicit, rfl⟩ | ⟨other, n', place', hn', hplace', rfl⟩
  · exact absurd hname.symm (h.ne_clockName himplicit hplace)
  · cases h.injective hplace' hplace hname
    cases owns_id hplace' hplace
    cases hn.symm.trans hn'
    rfl

end Plan

/-- The text of a circuit's module declares every node that is not absorbed, and the array behind every
memory, once and with the width of the node. -/
theorem declared_with_node_widths {c : Circuit} (h : c.Reachable) (hacyclic : c.Acyclic) :
    ∃ order m, c.order = .ok order ∧ ofCircuit c = .ok m ∧ ∀ id n, c.node? id = some n →
      (declaredWidths m.text ((Plan.ofCircuit c order).name id) =
        if c.Absorbed id then [] else [n.width]) ∧
      (n.kind.tag = .memory →
        declaredWidths m.text ((Plan.ofCircuit c order).naming.arrayName id) = [n.width]) := by
  obtain ⟨order, horder, hsound, hlower⟩ := exists_plan h hacyclic
  refine ⟨order, _, horder, hlower, fun id n hn => ⟨?_, fun hmemory => ?_⟩⟩
  · have hdeclared : declarations (Plan.ofCircuit c order).lower.entries ((Plan.ofCircuit c order).name id) =
        if c.Absorbed id then [] else [.declaring n.kind ((Plan.ofCircuit c order).name id)] :=
      hsound.declarations_name hn
    refine (hsound.declaredWidths_nameOf hn (Plan.owns_node hn)).trans ?_
    change List.replicate (declarations _ (Plan.name _ id)).length n.width = _
    by_cases habsorbed : c.Absorbed id <;> simp [hdeclared, habsorbed]
  · refine (hsound.declaredWidths_nameOf hn (Plan.owns_array hn hmemory)).trans ?_
    change List.replicate (declarations _ (Naming.arrayName _ id)).length n.width = _
    rw [hsound.declarations_arrayName hn hmemory]
    rfl

end Netlist.Verilog
