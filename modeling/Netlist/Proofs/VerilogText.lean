import Netlist.Proofs.ModuleLines

namespace Netlist.Verilog

open Naming (isName isIdentChar Legal)
open Text (Yields readLines)

/-- What a line of a module says. -/
inductive Entry where
  | port (direction : Direction) (name : String)
  | wire (name : String)
  | reg (name : String)
  | array (name : String)
  | assign (target : String) (reads : List String)
  /-- An assignment at each clock edge, which may be to another value in reset. -/
  | latch (clock target : String) (reset : Option String) (reads : List String)
  /-- An assignment to a word of an array at each clock edge. -/
  | store (clock target : String) (reads : List String)
  | warning (name : String)
deriving DecidableEq

namespace Entry

/-- The rest of a declaration by `reg`: a name, and for an array a range after it. -/
def ofReg (rest : List String) : Option Entry :=
  match rest.dropWhile fun word => !isName word with
  | [] => none
  | [name] => some (.reg name)
  | name :: _ => some (.array name)

/-- The rest of a statement by `always`, which starts with the word `posedge`. -/
def ofAlways : List String → Option Entry
  | _ :: clock :: first :: rest =>
    if first = "if" then
      match rest with
      | enable :: target :: operands => some (.store clock target (enable :: operands))
      | _ => none
    else
      match rest.filter isName with
      | [reset, init, next] => some (.latch clock first (some reset) [init, next])
      | names => some (.latch clock first none names)
  | _ => none

def ofStatement : List String → Option Entry
  | [] => none
  | keyword :: rest =>
    if keyword = "input" then (rest.find? isName).map (.port .input)
    else if keyword = "output" then (rest.find? isName).map (.port .output)
    else if keyword = "wire" then (rest.find? isName).map .wire
    else if keyword = "reg" then ofReg rest
    else if keyword = "assign" then
      match rest with
      | target :: operands => some (.assign target (operands.filter isName))
      | [] => none
    else if keyword = "always" then ofAlways rest
    else none

/-- A warning has the name that it is about after the kind of node. -/
def ofComment : List String → Option Entry
  | first :: _ :: name :: _ => if first = "WARNING" then some (.warning name) else none
  | _ => none

def ofLine? (line : List Char) : Option Entry :=
  if ['/', '/'].isPrefixOf (line.dropWhile (· == ' ')) then ofComment (words line)
  else ofStatement (words line)

def ofText (text : String) : List Entry := readLines ofLine? text.toList

end Entry

def Port.entry (p : Port) : Entry := .port p.direction p.name

def Declaration.entry : Declaration → Entry
  | wire _ name => .wire name
  | reg _ name => .reg name
  | array _ name _ => .array name

def Item.statement? : Item → Option Entry
  | assign target value => some (.assign target value.names)
  | initial .. | preload .. => none
  | latch clock target (.choice reset init next) =>
    some (.latch clock target (some reset) [init, next])
  | latch clock target value => some (.latch clock target none value.names)
  | store clock enable array address data => some (.store clock array [enable, address, data])
  | warning w => some (.warning w.name)

def Module.entries (m : Module) : List Entry :=
  m.ports.map Port.entry ++ m.declarations.map Declaration.entry ++ m.items.filterMap Item.statement?

/-- A text whose first character is no slash, blanks apart. -/
def isCode (x : List Char) : Bool := (x.dropWhile (· == ' ')).head?.any (· != '/')

theorem isCode_append {x : List Char} (h : isCode x = true) (y : List Char) :
    isCode (x ++ y) = true := by
  unfold isCode at h ⊢
  rw [List.dropWhile_append]
  cases hdrop : x.dropWhile (· == ' ') with
  | nil => simp [hdrop] at h
  | cons c rest => simpa [hdrop] using h

namespace Entry

theorem ofLine?_of_reads {x : List Char} {ws : List String} (h : Reads x ws) (hcode : isCode x = true) :
    ofLine? x = ofStatement ws := by
  have hprefix : ['/', '/'].isPrefixOf (x.dropWhile (· == ' ')) = false := by
    unfold isCode at hcode
    cases hdrop : x.dropWhile (· == ' ') with
    | nil => rfl
    | cons c rest =>
      have hc : c ≠ '/' := by simpa [hdrop] using hcode
      rw [List.isPrefixOf, beq_eq_false_iff_ne.mpr hc.symm, Bool.false_and]
  rw [ofLine?, hprefix, h.words_eq]
  rfl

theorem ofLine?_after (lead : String) (gs : List String) {y : List Char} {ys : List String}
    (hy : Reads y ys) (hlead : isGap lead.toList = true ∧ words lead.toList = gs)
    (hcode : isCode lead.toList = true) :
    ofLine? (lead.toList ++ y) = ofStatement (gs ++ ys) :=
  ofLine?_of_reads (hy.lead lead gs hlead) (isCode_append hcode y)

section Declarations

/-- A keyword with a range after it; the range has no names. -/
theorem reads_range {keyword : String} {ws : List String} (h : Reads keyword.toList ws) (width : Nat) :
    ∃ numbers, Reads (keyword.toList ++ (range width).toList) (ws ++ numbers) ∧
      ∀ word ∈ numbers, isName word = false := by
  unfold range
  split
  · exact ⟨[], by simpa using h, by simp⟩
  · obtain ⟨hnumber, hname⟩ := reads_toString (width - 1)
    have hrange := h.gap " [" [] (hnumber.gap ":0]" ["0"] reads_nil (by decide)) (by decide)
    refine ⟨[toString (width - 1), "0"], ?_, List.forall_mem_cons.mpr ⟨hname, by decide⟩⟩
    change Reads (keyword.toList ++ (" [" ++ toString (width - 1) ++ ":0]").toList) _
    simpa [String.toList_append] using hrange

variable {numbers tail : List String} {name : String}

theorem find?_numbers (h : ∀ word ∈ numbers, isName word = false) (hname : isName name = true) :
    (numbers ++ name :: tail).find? isName = some name := by
  have hnone : numbers.find? isName = none := by simpa using h
  simp [List.find?_append, hnone, hname]

theorem dropWhile_numbers (h : ∀ word ∈ numbers, isName word = false) (hname : isName name = true) :
    (numbers ++ name :: tail).dropWhile (fun word => !isName word) = name :: tail := by
  rw [List.dropWhile_append_of_pos (by simpa using h)]
  simp [hname]

theorem ofLine?_declared (keyword word : String) (hkeyword : Reads keyword.toList [word])
    (hcode : isCode keyword.toList = true) (width : Nat) {after : List Char} {rest : List String}
    (hname : Reads (name.toList ++ after) (name :: rest)) :
    ∃ numbers, (∀ word ∈ numbers, isName word = false) ∧
      ofLine? (keyword.toList ++ ((range width).toList ++ (" ".toList ++ (name.toList ++ after)))) =
        ofStatement (word :: (numbers ++ name :: rest)) := by
  obtain ⟨numbers, hrange, hnumbers⟩ := reads_range hkeyword width
  have hline := hrange.gap " " [] hname (by decide)
  rw [List.nil_append, List.append_assoc, List.append_assoc] at hline
  exact ⟨numbers, hnumbers, ofLine?_of_reads hline (isCode_append hcode _)⟩

theorem ofStatement_wire (rest : List String) :
    ofStatement ("wire" :: rest) = (rest.find? isName).map .wire := rfl

theorem ofStatement_reg (rest : List String) :
    ofStatement ("reg" :: rest) = ofReg rest := rfl

theorem ofReg_name (h : ∀ word ∈ numbers, isName word = false) (hname : isName name = true) :
    ofReg (numbers ++ [name]) = some (.reg name) := by
  rw [ofReg, dropWhile_numbers h hname]

theorem ofReg_array {word : String} (h : ∀ word ∈ numbers, isName word = false)
    (hname : isName name = true) :
    ofReg (numbers ++ name :: word :: tail) = some (.array name) := by
  rw [ofReg, dropWhile_numbers h hname]

theorem reads_declared (h : isName name = true) : Reads (name.toList ++ ";".toList) [name] :=
  (reads_name h).gap ";" [] reads_nil (by decide)

theorem ofLine?_declaration {d : Declaration} (h : isName d.name = true) :
    ofLine? (d.lead.toList ++ ((range d.width).toList ++ (" ".toList ++
      (d.name.toList ++ d.tail.toList)))) = some d.entry := by
  cases d with
  | wire width name =>
    replace h : isName name = true := h
    obtain ⟨numbers, hnumbers, hread⟩ := ofLine?_declared "  wire" "wire" ⟨by decide, by decide⟩
      (by decide) width (reads_declared h)
    rw [ofStatement_wire, find?_numbers hnumbers h] at hread
    exact hread
  | reg width name =>
    replace h : isName name = true := h
    obtain ⟨numbers, hnumbers, hread⟩ := ofLine?_declared "  reg" "reg" ⟨by decide, by decide⟩
      (by decide) width (reads_declared h)
    rw [ofStatement_reg, ofReg_name hnumbers h] at hread
    exact hread
  | array width name depth =>
    replace h : isName name = true := h
    have hlast := (reads_toString (depth - 1)).1.gap "];" [] reads_nil (by decide)
    have hname := (reads_name h).gap " [0:" ["0"] hlast (by decide)
    rw [List.singleton_append, List.singleton_append] at hname
    obtain ⟨numbers, hnumbers, hread⟩ := ofLine?_declared "  reg" "reg" ⟨by decide, by decide⟩
      (by decide) width hname
    rw [ofStatement_reg, ofReg_array hnumbers h, List.append_nil, ← Text.toList_append_append] at hread
    exact hread

theorem ofStatement_input (rest : List String) :
    ofStatement ("input" :: rest) = (rest.find? isName).map (.port .input) := rfl

theorem ofStatement_output (rest : List String) :
    ofStatement ("output" :: rest) = (rest.find? isName).map (.port .output) := rfl

theorem ofLine?_port {p : Port} (h : isName p.name = true) {after : String} (hafter : after ∈ ["", ","]) :
    ofLine? (("  " ++ p.direction.text).toList ++ ((range p.width).toList ++ (" ".toList ++
      (p.name.toList ++ after.toList)))) = some p.entry := by
  have hname : Reads (p.name.toList ++ after.toList) [p.name] := by
    rcases List.mem_cons.mp hafter with rfl | hafter
    · simpa using reads_name h
    · cases List.mem_singleton.mp hafter
      simpa using (reads_name h).gap "," [] reads_nil (by decide)
  obtain ⟨direction, width, name⟩ := p
  replace h : isName name = true := h
  cases direction with
  | input =>
    obtain ⟨numbers, hnumbers, hread⟩ := ofLine?_declared "  input" "input" ⟨by decide, by decide⟩
      (by decide) width hname
    rwa [ofStatement_input, find?_numbers hnumbers h] at hread
  | output =>
    obtain ⟨numbers, hnumbers, hread⟩ := ofLine?_declared "  output" "output" ⟨by decide, by decide⟩
      (by decide) width hname
    rwa [ofStatement_output, find?_numbers hnumbers h] at hread

end Declarations

section Items

theorem ofStatement_assign (target : String) (rest : List String) :
    ofStatement ("assign" :: target :: rest) = some (.assign target (rest.filter isName)) := rfl

theorem ofStatement_always (rest : List String) :
    ofStatement ("always" :: rest) = ofAlways rest := rfl

theorem ofStatement_of_legal {word : String} (h : Legal word) (rest : List String) :
    ofStatement (word :: rest) = none := by
  have hne {keyword : String} (hkeyword : keyword ∈ Naming.keywords) : word ≠ keyword :=
    fun he => h.2 (he ▸ hkeyword)
  have hwords : word ≠ "input" ∧ word ≠ "output" ∧ word ≠ "wire" ∧ word ≠ "reg" ∧
      word ≠ "assign" ∧ word ≠ "always" := by
    refine ⟨hne ?_, hne ?_, hne ?_, hne ?_, hne ?_, hne ?_⟩ <;> simp [Naming.keywords]
  simp [ofStatement, hwords]

theorem ofAlways_latch {clock target : String} {value : Expr} {ws : List String} (h : Legal target)
    (hws : ws.filter isName = value.names) :
    ofAlways ("posedge" :: clock :: target :: ws) = (Item.latch clock target value).statement? := by
  have hif : target ≠ "if" := by
    rintro rfl
    exact h.2 (by simp [Naming.keywords])
  cases value with
  | element array address =>
    cases address <;> simp [ofAlways, hif, hws, Expr.names, Item.statement?]
  | _ => simp [ofAlways, hif, hws, Expr.names, Item.statement?]

theorem ofLine?_assign {target : String} {value : Expr}
    (h : ∀ name ∈ (Item.assign target value).names, isName name = true) :
    ofLine? ("  assign ".toList ++ (target.toList ++ (" = ".toList ++ (value.text.toList ++ [';'])))) =
      some (.assign target value.names) := by
  obtain ⟨ws, hws, hnames⟩ := readsNames_expr fun name hmem => h name (List.mem_cons_of_mem target hmem)
  have hboth := (reads_name (h target (by simp [Item.names]))).gap " = " [] hws.close (by decide)
  rw [ofLine?_after "  assign " ["assign"] hboth (by decide) (by decide)]
  exact (ofStatement_assign target ws).trans (by rw [hnames])

theorem ofLine?_latch {clock target : String} {value : Expr}
    (h : ∀ name ∈ (Item.latch clock target value).names, Legal name) :
    ofLine? ("  always @(posedge ".toList ++ (clock.toList ++ (") ".toList ++
      (target.toList ++ (" <= ".toList ++ (value.text.toList ++ [';'])))))) =
      (Item.latch clock target value).statement? := by
  have htarget := h target (by simp [Item.names])
  obtain ⟨ws, hws, hnames⟩ := readsNames_expr fun name hmem =>
    (h name (List.mem_cons_of_mem clock (List.mem_cons_of_mem target hmem))).1
  have hboth := (reads_name htarget.1).gap " <= " [] hws.close (by decide)
  have hclocked := (reads_name (h clock (by simp [Item.names])).1).gap ") " [] hboth (by decide)
  rw [ofLine?_after "  always @(posedge " ["always", "posedge"] hclocked (by decide) (by decide)]
  exact (ofStatement_always _).trans (ofAlways_latch htarget hnames)

theorem ofLine?_store {clock enable array address data : String}
    (h : ∀ name ∈ (Item.store clock enable array address data).names, isName name = true) :
    ofLine? ("  always @(posedge ".toList ++ (clock.toList ++ (") ".toList ++ ("if (".toList ++
      (enable.toList ++ (") ".toList ++ (array.toList ++ ("[".toList ++ (address.toList ++
        ("] <= ".toList ++ (data.toList ++ [';']))))))))))) =
      some (.store clock array [enable, address, data]) := by
  have hname (name : String) (hmem : name ∈ [clock, enable, array, address, data]) :
      Reads name.toList [name] := reads_name (h name hmem)
  have haddress := (hname address (by simp)).gap "] <= " [] (hname data (by simp)).close (by decide)
  have harray := (hname array (by simp)).gap "[" [] haddress (by decide)
  have henable := (hname enable (by simp)).gap ") " [] harray (by decide)
  have hclock := (hname clock (by simp)).gap ") if (" ["if"] henable (by decide)
  have hread := ofLine?_after "  always @(posedge " ["always", "posedge"] hclock (by decide) (by decide)
  exact hread.trans rfl

theorem ofLine?_initial {target : String} (h : isName target = true) (value : Word) :
    ofLine? ("  initial ".toList ++ (target.toList ++ (" = ".toList ++ (value.text.toList ++ [';'])))) =
      none := by
  have hboth := (reads_name h).gap " = " [] (reads_literal value).1.close (by decide)
  rw [ofLine?_after "  initial " ["initial"] hboth (by decide) (by decide)]
  rfl

theorem isCode_name {name : String} (h : isName name = true) (y : List Char) :
    isCode ("    ".toList ++ (name.toList ++ y)) = true := by
  have hblanks : "    ".toList.all (· == ' ') = true := by decide
  have hslash : isIdentChar '/' = false := by decide
  have hblank : isIdentChar ' ' = false := by decide
  unfold isCode
  rw [List.dropWhile_append_of_pos (List.all_eq_true.mp hblanks)]
  cases hlist : name.toList with
  | nil => simp [isName, hlist] at h
  | cons c rest =>
    have hc : isIdentChar c = true := by simp_all [isName]
    have hne : c ≠ ' ' ∧ c ≠ '/' := ⟨by rintro rfl; simp_all, by rintro rfl; simp_all⟩
    simp [hne]

theorem ofLine?_preload {array : String} (h : Legal array) (entry : Nat × Word) :
    ofLine? ("    ".toList ++ (array.toList ++ ("[".toList ++ ((toString entry.1).toList ++
      ("] = ".toList ++ (entry.2.text.toList ++ [';'])))))) = none := by
  have hindex := (reads_toString entry.1).1.gap "] = " [] (reads_literal entry.2).1.close (by decide)
  have harray := (reads_name h.1).gap "[" [] hindex (by decide)
  rw [ofLine?_of_reads (harray.lead "    " [] (by decide)) (isCode_name h.1 _)]
  exact ofStatement_of_legal h _

theorem ofLine?_warning {w : Warning} (h : isName w.name = true) :
    ofLine? (w.lead.toList ++ (w.name.toList ++ ("` ".toList ++ w.lack.toList))) =
      some (.warning w.name) := by
  have hlack : Reads w.lack.toList (words w.lack.toList) := ⟨w.line_lack, rfl⟩
  have hline := ((reads_name h).gap "` " [] hlack (by decide)).lead w.lead _ w.words_lead
  rw [ofLine?, hline.words_eq, w.isPrefixOf_lead]
  rfl

theorem yields_item {i : Item} (h : ∀ name ∈ i.names, Legal name) :
    Yields ofLine? i.text.toList i.statement?.toList := by
  have hnames : ∀ name ∈ i.names, isName name = true := fun name hmem => (h name hmem).1
  cases i with
  | assign target value => exact yields_assign hnames (ofLine?_assign hnames)
  | initial target value =>
    exact yields_initial hnames (ofLine?_initial (hnames target List.mem_cons_self) value)
  | preload array entries =>
    have harray := h array List.mem_cons_self
    exact yields_preload harray.1 (by decide) (by decide) (ofLine?_preload harray) entries
  | latch clock target value => exact yields_latch hnames (ofLine?_latch h)
  | store clock enable array address data => exact yields_store hnames (ofLine?_store hnames)
  | warning w =>
    have hname := hnames w.name List.mem_cons_self
    exact yields_warning hname (ofLine?_warning hname)

end Items

end Entry

/-- Reading the text of a module gives what it was written from. -/
theorem ofText_text {m : Module} (h : m.Legal) : Entry.ofText m.text = m.entries := by
  have hframe : ∀ line ∈ frame, Entry.ofLine? line.toList = none := by decide
  have hports : ∀ p ∈ m.ports, ∀ after ∈ ["", ","],
      Yields Entry.ofLine? ("  " ++ p.text ++ after ++ "\n").toList [p.entry] := by
    intro p hp after hafter
    have hname := (h.ports p hp).1
    exact yields_port hname hafter (Entry.ofLine?_port hname hafter)
  have hdeclarations : ∀ d ∈ m.declarations, Yields Entry.ofLine? d.text.toList [d.entry] := by
    intro d hd
    have hname := (h.declarations d hd).1
    exact yields_declaration hname (Entry.ofLine?_declaration hname)
  rw [Entry.ofText, readLines_text hframe hports hdeclarations fun i hi => Entry.yields_item (h.items i hi),
    Module.entries, List.filterMap_eq_flatMap_toList, List.map_eq_flatMap, List.map_eq_flatMap]

end Netlist.Verilog
