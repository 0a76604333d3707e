import Netlist.Proofs.Names
import Netlist.Proofs.TextLines
import Netlist.Verilog.Module

namespace Netlist.Verilog

open Naming (isName isIdentChar Legal)
open Text (Yields readLines yields_line yields_nothing yields_flatMap toList_append_append line_number
  line_literal)

/-- Quotes are in literals, and a dollar sign is in front of system functions. -/
def isWordChar (c : Char) : Bool := isIdentChar c || c == '\'' || c == '$'

def words (line : List Char) : List String :=
  ((line.splitOnP fun c => !isWordChar c).filter fun word => !word.isEmpty).map String.ofList

section Words

theorem words_append_cons (x y : List Char) {s : Char} (hs : isWordChar s = false) :
    words (x ++ s :: y) = words x ++ words y := by
  unfold words
  rw [List.splitOnP_append_cons x y (by simpa using hs), List.filter_append, List.map_append]

theorem words_of_all {x : List Char} (hne : x ≠ []) (h : x.all isWordChar = true) :
    words x = [String.ofList x] := by
  unfold words
  rw [List.splitOnP_eq_singleton (by simpa using h)]
  simp [hne]

/-- A text that starts and ends between words, on one line. -/
def isGap (g : List Char) : Bool :=
  g.head?.any (!isWordChar ·) && g.getLast?.any (!isWordChar ·) && !g.contains '\n'

/-- A text on one line and its words. -/
structure Reads (x : List Char) (ws : List String) : Prop where
  line : '\n' ∉ x
  words_eq : words x = ws

theorem reads_nil : Reads [] [] := ⟨List.not_mem_nil, rfl⟩

theorem words_cons (y : List Char) {s : Char} (hs : isWordChar s = false) : words (s :: y) = words y :=
  words_append_cons [] y hs

theorem words_gap (x y : List Char) {g : List Char} (hg : isGap g = true) :
    words (x ++ (g ++ y)) = words x ++ (words g ++ words y) := by
  cases g with
  | nil => simp [isGap] at hg
  | cons s t =>
    have hs : isWordChar s = false := by simp_all [isGap]
    rw [List.cons_append, words_append_cons x _ hs, words_cons t hs]
    -- what is left of the gap is empty, or ends between words too
    rcases List.eq_nil_or_concat t with rfl | ⟨t, e, rfl⟩
    · rfl
    · rw [List.concat_eq_append] at hg ⊢
      have he : isWordChar e = false := by
        rw [isGap, ← List.cons_append, List.getLast?_concat] at hg
        simp_all
      rw [List.append_assoc, List.singleton_append, words_append_cons t y he,
        words_append_cons t [] he]
      simp [words]

theorem Reads.gap {x y : List Char} {ws ys : List String} (hx : Reads x ws) (g : String)
    (gs : List String) (hy : Reads y ys) (hg : isGap g.toList = true ∧ words g.toList = gs) :
    Reads (x ++ (g.toList ++ y)) (ws ++ (gs ++ ys)) := by
  obtain ⟨hgap, rfl⟩ := hg
  refine ⟨?_, by rw [words_gap x y hgap, hx.words_eq, hy.words_eq]⟩
  have hline : '\n' ∉ g.toList := by simp_all [isGap]
  simp [hx.line, hy.line, hline]

theorem Reads.lead {y : List Char} {ys : List String} (g : String) (gs : List String) (hy : Reads y ys)
    (hg : isGap g.toList = true ∧ words g.toList = gs) : Reads (g.toList ++ y) (gs ++ ys) :=
  reads_nil.gap g gs hy hg

theorem Reads.close {x : List Char} {ws : List String} (h : Reads x ws) : Reads (x ++ [';']) ws := by
  have hclosed := h.gap ";" [] reads_nil (by decide)
  rwa [List.append_nil, List.append_nil, List.append_nil] at hclosed

theorem isWordChar_of_isIdentChar {c : Char} (h : isIdentChar c = true) : isWordChar c = true := by
  simp [isWordChar, h]

theorem reads_word {word : String} (hne : word.toList ≠ []) (h : word.toList.all isWordChar = true) :
    Reads word.toList [word] := by
  constructor
  · intro hmem
    exact absurd (List.all_eq_true.mp h '\n' hmem) (by decide)
  · rw [words_of_all hne h, String.ofList_toList]

theorem all_isWordChar {x : List Char} (h : x.all isIdentChar = true) : x.all isWordChar = true :=
  List.all_eq_true.mpr fun c hc => isWordChar_of_isIdentChar (List.all_eq_true.mp h c hc)

theorem reads_name {name : String} (h : isName name = true) : Reads name.toList [name] := by
  have hchars : name.toList.all isIdentChar = true ∧ name.toList ≠ [] := by
    cases hlist : name.toList <;> simp_all [isName]
  exact reads_word hchars.2 (all_isWordChar hchars.1)

theorem exists_digit (k : Nat) : ∃ c rest, (toString k).toList = c :: rest ∧ c.isDigit = true := by
  have hdigits : (toString k).toList = Nat.toDigits 10 k := by
    rw [Nat.toString_eq_repr, Nat.toList_repr]
  cases hlist : (toString k).toList with
  | nil => exact absurd (hdigits.symm.trans hlist) Nat.toDigits_ne_nil
  | cons c rest =>
    have hmem : c ∈ Nat.toDigits 10 k := by
      rw [← hdigits, hlist]
      exact List.mem_cons_self
    exact ⟨c, rest, rfl, Nat.isDigit_of_mem_toDigits (by decide) (by decide) hmem⟩

theorem reads_number (k : Nat) {rest : String} (h : rest.toList.all isWordChar = true) :
    Reads (toString k ++ rest).toList [toString k ++ rest] ∧ isName (toString k ++ rest) = false := by
  obtain ⟨c, digits, hlist, hdigit⟩ := exists_digit k
  constructor
  · refine reads_word (by simp [String.toList_append]) ?_
    rw [String.toList_append, List.all_append, all_isWordChar (Naming.all_toString k), h]
    rfl
  · simp only [isName, String.toList_append, hlist, List.cons_append, List.head?_cons,
      Option.any_some, hdigit, Bool.not_true, Bool.and_false]

theorem reads_toString (k : Nat) :
    Reads (toString k).toList [toString k] ∧ isName (toString k) = false := by
  have hempty : "".toList.all isWordChar = true := by decide
  simpa only [String.append_empty] using reads_number k hempty

theorem reads_literal (value : Word) :
    Reads value.text.toList [value.text] ∧ isName value.text = false := by
  have hrest : ("'h" ++ value.hex).toList.all isWordChar = true := by
    have hhex : value.hex.toList = Text.hexDigits value.toNat := String.toList_ofList
    rw [String.toList_append, List.all_append, hhex, all_isWordChar (Text.all_hexDigits (by decide) value.toNat)]
    decide
  rw [Word.text, String.append_assoc]
  exact reads_number value.width hrest

end Words

def Expr.names : Expr → List String
  | literal _ => []
  | name n => [n]
  | unary _ operand => [operand.name]
  | binary _ lhs rhs => [lhs.name, rhs.name]
  | choice condition yes no => [condition, yes, no]
  | element array address => array :: address.toList

/-- A text on one line in which the names stand in this order. -/
def ReadsNames (x : List Char) (names : List String) : Prop :=
  ∃ ws, Reads x ws ∧ ws.filter isName = names

theorem ReadsNames.gap {x y : List Char} {xs ys : List String} (hx : ReadsNames x xs) (g : String)
    (hy : ReadsNames y ys) (hg : isGap g.toList = true ∧ words g.toList = []) :
    ReadsNames (x ++ (g.toList ++ y)) (xs ++ ys) := by
  obtain ⟨ws, hws, rfl⟩ := hx
  obtain ⟨vs, hvs, rfl⟩ := hy
  exact ⟨_, hws.gap g [] hvs hg, by rw [List.nil_append, List.filter_append]⟩

theorem readsNames_name {name : String} (h : isName name = true) : ReadsNames name.toList [name] :=
  ⟨_, reads_name h, by simp [h]⟩

theorem readsNames_nil : ReadsNames [] [] := ⟨[], reads_nil, rfl⟩

theorem readsNames_of_isName_eq_false {word : String} (h : Reads word.toList [word])
    (hname : isName word = false) : ReadsNames word.toList [] := ⟨_, h, by simp [hname]⟩

theorem readsNames_operand {o : Operand} (h : isName o.name = true) :
    ReadsNames o.text.toList [o.name] := by
  have hname := readsNames_name h
  unfold Operand.text
  split
  · have hsigned : ReadsNames "$signed".toList [] :=
      readsNames_of_isName_eq_false (reads_word (by decide) (by decide)) (by decide)
    have hclosed := hname.gap ")" readsNames_nil (by decide)
    have htext := hsigned.gap "(" hclosed (by decide)
    change ReadsNames ("$signed(" ++ o.name ++ ")").toList [o.name]
    simpa [String.toList_append] using htext
  · exact hname

theorem isGap_symbol (op : Opcode) : isGap op.symbol.toList = true ∧ words op.symbol.toList = [] := by
  cases op <;> decide

theorem isGap_binarySymbol (op : Opcode) (lhs : Operand) :
    isGap (" " ++ binarySymbol op lhs ++ " ").toList = true ∧
      words (" " ++ binarySymbol op lhs ++ " ").toList = [] := by
  unfold binarySymbol
  split
  · decide
  · cases op <;> decide

theorem readsNames_expr {e : Expr} (h : ∀ name ∈ e.names, isName name = true) :
    ReadsNames e.text.toList e.names := by
  cases e with
  | literal value =>
    exact readsNames_of_isName_eq_false (reads_literal value).1 (reads_literal value).2
  | name n => exact readsNames_name (h n List.mem_cons_self)
  | unary op operand =>
    have hoperand := readsNames_operand (h operand.name List.mem_cons_self)
    have htext := readsNames_nil.gap op.symbol hoperand (isGap_symbol op)
    change ReadsNames (op.symbol ++ operand.text).toList _
    simpa [String.toList_append, Expr.names] using htext
  | binary op lhs rhs =>
    have hlhs := readsNames_operand (h lhs.name (by simp [Expr.names]))
    have hrhs := readsNames_operand (h rhs.name (by simp [Expr.names]))
    have htext := hlhs.gap _ hrhs (isGap_binarySymbol op lhs)
    change ReadsNames (lhs.text ++ " " ++ binarySymbol op lhs ++ " " ++ rhs.text).toList _
    simpa [String.toList_append, Expr.names] using htext
  | choice condition yes no =>
    have hcondition := readsNames_name (h condition (by simp [Expr.names]))
    have hyes := readsNames_name (h yes (by simp [Expr.names]))
    have hno := readsNames_name (h no (by simp [Expr.names]))
    have hbranches := hyes.gap " : " hno (by decide)
    have htext := hcondition.gap " ? " hbranches (by decide)
    change ReadsNames (condition ++ " ? " ++ yes ++ " : " ++ no).toList _
    simpa [String.toList_append, Expr.names] using htext
  | element array address =>
    have harray := readsNames_name (h array (by simp [Expr.names]))
    have haddress : ReadsNames (address.getD "0").toList address.toList := by
      cases address with
      | none => exact readsNames_of_isName_eq_false (reads_word (by decide) (by decide)) (by decide)
      | some a => exact readsNames_name (h a (by simp [Expr.names]))
    have hclosed := haddress.gap "]" readsNames_nil (by decide)
    have htext := harray.gap "[" hclosed (by decide)
    change ReadsNames (array ++ "[" ++ address.getD "0" ++ "]").toList _
    simpa [String.toList_append, Expr.names] using htext

def Declaration.name : Declaration → String
  | wire _ name | reg _ name | array _ name _ => name

def Declaration.width : Declaration → Nat
  | wire width _ | reg width _ | array width _ _ => width

def Declaration.lead : Declaration → String
  | wire .. => "  wire"
  | reg .. | array .. => "  reg"

def Declaration.tail : Declaration → String
  | wire .. | reg .. => ";"
  | array _ _ depth => " [0:" ++ toString (depth - 1) ++ "];"

def Warning.name : Warning → String
  | output name | proxy name | register name | operand name | operands name | writePort name => name

def Item.names : Item → List String
  | assign target value => target :: value.names
  | initial target _ => [target]
  | preload array _ => [array]
  | latch clock target value => clock :: target :: value.names
  | store clock enable array address data => [clock, enable, array, address, data]
  | warning w => [w.name]

/-- All names in a module are legal. -/
structure Module.Legal (m : Module) : Prop where
  ports : ∀ p ∈ m.ports, Naming.Legal p.name
  declarations : ∀ d ∈ m.declarations, Naming.Legal d.name
  items : ∀ i ∈ m.items, ∀ name ∈ i.names, Naming.Legal name

def Warning.kind : Warning → String
  | output _ => "output"
  | proxy _ => "proxy"
  | register _ => "register"
  | operand _ | operands _ => "operation"
  | writePort _ => "memory"

def Warning.lack : Warning → String
  | output _ | proxy _ => "has no driver"
  | register _ => "has no next value"
  | operand _ => "has no operand"
  | operands _ => "is missing an operand"
  | writePort _ => "has an incomplete write port"

def Warning.lead (w : Warning) : String := "  // WARNING: " ++ w.kind ++ " `"

theorem Warning.toList_message (w : Warning) : w.message.toList =
    w.kind.toList ++ (" `".toList ++ (w.name.toList ++ ("` ".toList ++ w.lack.toList))) := by
  cases w <;> simp [Warning.message, Warning.kind, Warning.lack, Warning.name, String.toList_append,
    toString]

theorem Warning.toList_lead (w : Warning) :
    w.lead.toList = "  // WARNING: ".toList ++ (w.kind.toList ++ " `".toList) :=
  toList_append_append _ _ _

theorem Warning.toList_text (w : Warning) : (Item.warning w).text.toList =
    w.lead.toList ++ (w.name.toList ++ ("` ".toList ++ w.lack.toList)) ++ ['\n'] := by
  have htext : (Item.warning w).text.toList =
      "  // WARNING: ".toList ++ (w.message.toList ++ "\n".toList) := toList_append_append _ _ _
  rw [htext, w.toList_message, w.toList_lead]
  simp only [List.append_assoc]
  rfl

theorem Warning.words_lead (w : Warning) :
    isGap w.lead.toList = true ∧ words w.lead.toList = ["WARNING", w.kind] := by
  unfold Warning.lead
  cases w <;> simp only [Warning.kind] <;> decide

theorem Warning.isPrefixOf_lead (w : Warning) (y : List Char) :
    ['/', '/'].isPrefixOf ((w.lead.toList ++ y).dropWhile (· == ' ')) = true := by
  rw [w.toList_lead, List.append_assoc]
  rfl

theorem Warning.line_lack (w : Warning) : '\n' ∉ w.lack.toList := by
  cases w <;> simp only [Warning.lack] <;> decide

def preloadLine (array : String) (entry : Nat × Word) : String :=
  "    " ++ array ++ "[" ++ toString entry.1 ++ "] = " ++ entry.2.text ++ ";\n"

section Lines

variable {α : Type} {read : List Char → Option α}

theorem line_name {name : String} (h : isName name = true) : '\n' ∉ name.toList :=
  Naming.notMem_of_isName h (by decide)

theorem line_range (width : Nat) : '\n' ∉ (range width).toList := by
  have hnumber := line_number (width - 1)
  unfold range
  split
  · decide
  · change '\n' ∉ (" [" ++ toString (width - 1) ++ ":0]").toList
    rw [toList_append_append]
    simp only [List.mem_append, hnumber, false_or]
    decide

theorem line_expr {value : Expr} (h : ∀ name ∈ value.names, isName name = true) :
    '\n' ∉ value.text.toList := by
  obtain ⟨ws, hws, -⟩ := readsNames_expr h
  exact hws.line

variable {target clock : String} {value : Expr} {a : Option α}

theorem yields_port {p : Port} (h : isName p.name = true) {after : String} (hafter : after ∈ ["", ","])
    (hread : read (("  " ++ p.direction.text).toList ++ ((range p.width).toList ++ (" ".toList ++
      (p.name.toList ++ after.toList)))) = a) :
    Yields read ("  " ++ p.text ++ after ++ "\n").toList a.toList := by
  obtain ⟨direction, width, name⟩ := p
  have hlines : '\n' ∉ direction.text.toList ∧ '\n' ∉ after.toList := by
    constructor
    · cases direction <;> decide
    · rcases List.mem_cons.mp hafter with rfl | hafter
      · decide
      · cases List.mem_singleton.mp hafter
        decide
  have hname : '\n' ∉ name.toList := line_name h
  have hyields := yields_line ?_ hread
  · change Yields read ("  " ++ (direction.text ++ range width ++ " " ++ name) ++ after ++ "\n").toList _
    simpa [String.toList_append] using hyields
  · simp [line_range, hname, hlines]

theorem Declaration.toList_text (d : Declaration) : d.text.toList =
    d.lead.toList ++ ((range d.width).toList ++ (" ".toList ++ (d.name.toList ++ d.tail.toList))) ++
      ['\n'] := by
  cases d with
  | wire width name =>
    change ("  wire" ++ range width ++ " " ++ name ++ ";\n").toList = _
    simp [lead, Declaration.width, Declaration.name, tail, String.toList_append]
  | reg width name =>
    change ("  reg" ++ range width ++ " " ++ name ++ ";\n").toList = _
    simp [lead, Declaration.width, Declaration.name, tail, String.toList_append]
  | array width name depth =>
    change ("  reg" ++ range width ++ " " ++ name ++ " [0:" ++ toString (depth - 1) ++ "];\n").toList = _
    simp [lead, Declaration.width, Declaration.name, tail, String.toList_append]

theorem yields_declaration {d : Declaration} (h : isName d.name = true)
    (hread : read (d.lead.toList ++ ((range d.width).toList ++ (" ".toList ++
      (d.name.toList ++ d.tail.toList)))) = a) :
    Yields read d.text.toList a.toList := by
  have hlead : '\n' ∉ d.lead.toList := by cases d <;> simp only [Declaration.lead] <;> decide
  have htail : '\n' ∉ d.tail.toList := by
    cases d with
    | array width name depth =>
      have hdepth := line_number (depth - 1)
      rw [Declaration.tail, toList_append_append]
      simp only [List.mem_append, hdepth, false_or]
      decide
    | _ =>
      rw [Declaration.tail]
      decide
  rw [d.toList_text]
  refine yields_line ?_ hread
  simp [hlead, line_range, line_name h, htail]

theorem yields_assign (h : ∀ name ∈ (Item.assign target value).names, isName name = true)
    (hread : read ("  assign ".toList ++ (target.toList ++ (" = ".toList ++
      (value.text.toList ++ [';'])))) = a) :
    Yields read (Item.assign target value).text.toList a.toList := by
  have htarget := line_name (h target (by simp [Item.names]))
  have hvalue := line_expr fun name hmem => h name (List.mem_cons_of_mem target hmem)
  have hyields := yields_line ?_ hread
  · change Yields read ("  assign " ++ target ++ " = " ++ value.text ++ ";\n").toList a.toList
    simpa [String.toList_append] using hyields
  · simp [htarget, hvalue]

theorem yields_latch (h : ∀ name ∈ (Item.latch clock target value).names, isName name = true)
    (hread : read ("  always @(posedge ".toList ++ (clock.toList ++ (") ".toList ++
      (target.toList ++ (" <= ".toList ++ (value.text.toList ++ [';'])))))) = a) :
    Yields read (Item.latch clock target value).text.toList a.toList := by
  have hclock := line_name (h clock (by simp [Item.names]))
  have htarget := line_name (h target (by simp [Item.names]))
  have hvalue := line_expr fun name hmem =>
    h name (List.mem_cons_of_mem clock (List.mem_cons_of_mem target hmem))
  have hyields := yields_line ?_ hread
  · change Yields read ("  always @(posedge " ++ clock ++ ") " ++ target ++ " <= " ++ value.text ++
      ";\n").toList a.toList
    simpa [String.toList_append] using hyields
  · simp [hclock, htarget, hvalue]

theorem yields_initial {start : Word}
    (h : ∀ name ∈ (Item.initial target start).names, isName name = true)
    (hread : read ("  initial ".toList ++ (target.toList ++ (" = ".toList ++
      (start.text.toList ++ [';'])))) = a) :
    Yields read (Item.initial target start).text.toList a.toList := by
  have htarget := line_name (h target (by simp [Item.names]))
  have hyields := yields_line ?_ hread
  · change Yields read ("  initial " ++ target ++ " = " ++ start.text ++ ";\n").toList a.toList
    simpa [String.toList_append] using hyields
  · simp [htarget, line_literal]

theorem yields_store {enable array address data : String}
    (h : ∀ name ∈ (Item.store clock enable array address data).names, isName name = true)
    (hread : read ("  always @(posedge ".toList ++ (clock.toList ++ (") ".toList ++ ("if (".toList ++
      (enable.toList ++ (") ".toList ++ (array.toList ++ ("[".toList ++ (address.toList ++
        ("] <= ".toList ++ (data.toList ++ [';']))))))))))) = a) :
    Yields read (Item.store clock enable array address data).text.toList a.toList := by
  have hname (name : String) (hmem : name ∈ [clock, enable, array, address, data]) :
      '\n' ∉ name.toList := line_name (h name hmem)
  have hyields := yields_line ?_ hread
  · change Yields read ("  always @(posedge " ++ clock ++ ") if (" ++ enable ++ ") " ++ array ++ "[" ++
      address ++ "] <= " ++ data ++ ";\n").toList a.toList
    simpa [String.toList_append] using hyields
  · simp [hname clock, hname enable, hname array, hname address, hname data]

theorem yields_preload {array : String} (h : isName array = true)
    (hopening : read "  initial begin".toList = none) (hclosing : read "  end".toList = none)
    (hwords : ∀ entry : Nat × Word, read ("    ".toList ++ (array.toList ++ ("[".toList ++
      ((toString entry.1).toList ++ ("] = ".toList ++ (entry.2.text.toList ++ [';'])))))) = none)
    (entries : List (Nat × Word)) : Yields read (Item.preload array entries).text.toList [] := by
  have hentry (entry : Nat × Word) : Yields read (preloadLine array entry).toList [] := by
    have hyields := yields_line ?_ (hwords entry)
    · simpa [preloadLine, String.toList_append] using hyields
    · simp only [List.mem_append, line_name h, line_number, line_literal]
      decide
  have hlines := yields_flatMap entries fun entry _ => hentry entry
  have hnothing : (entries.flatMap fun _ => ([] : List α)) = [] := by simp
  rw [hnothing] at hlines
  have hopened := yields_nothing "  initial begin" (by decide) hopening
  have hclosed := yields_nothing "  end" (by decide) hclosing
  have hyields := hopened.append (hlines.append hclosed)
  change Yields _ ("  initial begin\n" ++ String.join (entries.map (preloadLine array)) ++
    "  end\n").toList []
  simpa [String.toList_append, String.toList_join, List.flatMap_map] using hyields

theorem yields_warning {w : Warning} (h : isName w.name = true)
    (hread : read (w.lead.toList ++ (w.name.toList ++ ("` ".toList ++ w.lack.toList))) = a) :
    Yields read (Item.warning w).text.toList a.toList := by
  have hlead : '\n' ∉ w.lead.toList := by
    unfold Warning.lead
    cases w <;> simp only [Warning.kind] <;> decide
  rw [w.toList_text]
  refine yields_line ?_ hread
  simp [hlead, line_name h, w.line_lack]

/-- The lines of a module that are not for a port, a declaration or an item. -/
def frame : List String := ["module top ();", "module top (", ");", "", "endmodule"]

theorem yields_ports {result : Port → List α} (p : Port) {ports : List Port}
    (h : ∀ q ∈ p :: ports, ∀ after ∈ ["", ","],
      Yields read ("  " ++ q.text ++ after ++ "\n").toList (result q)) :
    Yields read (",\n".intercalate ((p :: ports).map fun q => "  " ++ q.text) ++ "\n").toList
      ((p :: ports).flatMap result) := by
  induction ports generalizing p with
  | nil => simpa using h p List.mem_cons_self "" (by simp)
  | cons q rest ih =>
    have hlast := ih q fun q' hq' => h q' (List.mem_cons_of_mem p hq')
    have hboth := (h p List.mem_cons_self "," (by simp)).append hlast
    simpa [String.toList_append, String.intercalate_cons_cons] using hboth

theorem yields_header {ports : List Port} {result : Port → List α}
    (hframe : ∀ line ∈ frame, read line.toList = none)
    (h : ∀ p ∈ ports, ∀ after ∈ ["", ","],
      Yields read ("  " ++ p.text ++ after ++ "\n").toList (result p)) :
    Yields read (header ports).toList (ports.flatMap result) := by
  cases ports with
  | nil => exact yields_nothing "module top ();" (by decide) (hframe _ (by simp [frame]))
  | cons p rest =>
    have hopened := yields_nothing "module top (" (by decide) (hframe _ (by simp [frame]))
    have hclosed := yields_nothing ");" (by decide) (hframe _ (by simp [frame]))
    have hyields := hopened.append ((yields_ports p h).append hclosed)
    have hheader : header (p :: rest) =
        "module top (\n" ++ ",\n".intercalate ((p :: rest).map fun q => "  " ++ q.text) ++ "\n);\n" := rfl
    rw [hheader]
    simpa [String.toList_append] using hyields

/-- Whoever reads a module line by line reads its ports, its declarations and its items. -/
theorem readLines_text {m : Module} {ofPort : Port → List α} {ofDeclaration : Declaration → List α}
    {ofItem : Item → List α} (hframe : ∀ line ∈ frame, read line.toList = none)
    (hports : ∀ p ∈ m.ports, ∀ after ∈ ["", ","],
      Yields read ("  " ++ p.text ++ after ++ "\n").toList (ofPort p))
    (hdeclarations : ∀ d ∈ m.declarations, Yields read d.text.toList (ofDeclaration d))
    (hitems : ∀ i ∈ m.items, Yields read i.text.toList (ofItem i)) :
    readLines read m.text.toList =
      m.ports.flatMap ofPort ++ m.declarations.flatMap ofDeclaration ++ m.items.flatMap ofItem := by
  have hblank := yields_nothing "" (by decide) (hframe _ (by simp [frame]))
  have hclosing := yields_nothing "endmodule" (by decide) (hframe _ (by simp [frame]))
  have hopened := (yields_header hframe hports).append ((yields_flatMap _ hdeclarations).append hblank)
  have hwhole := (hopened.append ((yields_flatMap _ hitems).append hclosing)) []
  -- the text ends with a line break, after which there is an empty line
  have hlast : readLines read [] = [] := by
    have hempty : read [] = none := hframe "" (by simp [frame])
    simp [readLines, hempty]
  have htext : m.text.toList = (header m.ports).toList ++
      (m.declarations.flatMap (fun d => d.text.toList) ++ ("" ++ "\n").toList) ++
      (m.items.flatMap (fun i => i.text.toList) ++ ("endmodule" ++ "\n").toList) := by
    simp [Module.text, Module.opening, closing, String.toList_append, String.toList_join,
      List.flatMap_map]
  rw [hlast, List.append_nil, List.append_nil] at hwhole
  rw [htext]
  simpa using hwhole

end Lines

section Plain

variable {α : Type} {read : List Char → Option α}

/-- How the lines for ports, for declarations, for the words of arrays and for warnings start. -/
def plainLeads : List String := ["  input", "  output", "  wire", "  reg", "    ", "  // WARNING: "]

/-- The reader takes nothing from the lines that all modules have, nor from those for ports, for
declarations, for the words of arrays and for warnings. -/
structure Plain (read : List Char → Option α) : Prop where
  frame : ∀ line ∈ frame, read line.toList = none
  preload : ∀ line ∈ ["  initial begin", "  end"], read line.toList = none
  leads : ∀ lead ∈ plainLeads, ∀ tail, read (lead.toList ++ tail) = none

variable (hplain : Plain read)
include hplain

theorem Plain.yields_port {p : Port} (h : isName p.name = true) {after : String}
    (hafter : after ∈ ["", ","]) : Yields read ("  " ++ p.text ++ after ++ "\n").toList [] := by
  have hlead : "  " ++ p.direction.text ∈ plainLeads := by cases p.direction <;> decide
  exact Verilog.yields_port h hafter (hplain.leads _ hlead _)

theorem Plain.yields_declaration {d : Declaration} (h : isName d.name = true) :
    Yields read d.text.toList [] := by
  have hlead : d.lead ∈ plainLeads := by cases d <;> simp [Declaration.lead, plainLeads]
  exact Verilog.yields_declaration h (hplain.leads _ hlead _)

theorem Plain.yields_preload {array : String} (h : isName array = true) (entries : List (Nat × Word)) :
    Yields read (Item.preload array entries).text.toList [] :=
  Verilog.yields_preload h (hplain.preload _ (by decide)) (hplain.preload _ (by decide))
    (fun _ => hplain.leads "    " (by decide) _) entries

theorem Plain.yields_warning {w : Warning} (h : isName w.name = true) :
    Yields read (Item.warning w).text.toList [] := by
  refine Verilog.yields_warning (a := none) h ?_
  rw [w.toList_lead, List.append_assoc]
  exact hplain.leads "  // WARNING: " (by decide) _

/-- From the text of a module the reader takes what it takes from the items. -/
theorem readLines_items {m : Module} (h : m.Legal) {ofItem : Item → Option α}
    (hitems : ∀ i ∈ m.items, (∀ name ∈ i.names, isName name = true) →
      Yields read i.text.toList (ofItem i).toList) :
    readLines read m.text.toList = m.items.filterMap ofItem := by
  have hread := readLines_text hplain.frame (fun p hp _ => hplain.yields_port (h.ports p hp).1)
    (fun d hd => hplain.yields_declaration (h.declarations d hd).1)
    fun i hi => hitems i hi fun name hname => (h.items i hi name hname).1
  have hports : (m.ports.flatMap fun _ => ([] : List α)) = [] := by simp
  have hdeclarations : (m.declarations.flatMap fun _ => ([] : List α)) = [] := by simp
  rw [hread, hports, hdeclarations, List.filterMap_eq_flatMap_toList]
  rfl

end Plain

end Netlist.Verilog
