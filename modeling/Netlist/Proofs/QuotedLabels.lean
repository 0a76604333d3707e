import Mathlib
import Netlist.Dot
import Netlist.Proofs.TextLines

namespace Netlist.Dot

/-- What stands behind a backslash for a character that is not written as it is. -/
def code? : Char → Option Char
  | '\\' => some '\\'
  | '"' => some '"'
  | '\n' => some 'n'
  | _ => none

/-- A text, and what is written for it. -/
inductive Escapes : List Char → List Char → Prop
  | nil : Escapes [] []
  | plain {c : Char} {s t : List Char} (hc : code? c = none) (rest : Escapes s t) :
      Escapes (c :: s) (c :: t)
  | coded {c d : Char} {s t : List Char} (hc : code? c = some d) (rest : Escapes s t) :
      Escapes (c :: s) ('\\' :: d :: t)

/-- Reads a written text from left to right. Only the three codes may stand behind a backslash. -/
def unescape? : List Char → Option (List Char)
  | [] => some []
  | '\\' :: '\\' :: rest => (unescape? rest).map ('\\' :: ·)
  | '\\' :: '"' :: rest => (unescape? rest).map ('"' :: ·)
  | '\\' :: 'n' :: rest => (unescape? rest).map ('\n' :: ·)
  | c :: rest => if c = '\\' then none else (unescape? rest).map (c :: ·)

/-- What stands before the quote that ends a quoted text, and what comes after it. A backslash takes the
next character with it. -/
def quoted? : List Char → Option (List Char × List Char)
  | [] => none
  | '"' :: rest => some ([], rest)
  | '\\' :: c :: rest => (quoted? rest).map (Prod.map (['\\', c] ++ ·) id)
  | c :: rest => (quoted? rest).map (Prod.map (c :: ·) id)

/-- Whether the last backslash of a text would take the next character with it. -/
def pending (text : List Char) : Bool := text.foldl (fun taken c => c == '\\' && !taken) false

variable {s t before after : List Char} {c d : Char}

theorem code?_eq_none_iff : code? c = none ↔ c ≠ '\\' ∧ c ≠ '"' ∧ c ≠ '\n' := by
  unfold code?
  split <;> simp_all

theorem code?_eq_some_iff :
    code? c = some d ↔ c = '\\' ∧ d = '\\' ∨ c = '"' ∧ d = '"' ∨ c = '\n' ∧ d = 'n' := by
  unfold code?
  split <;> simp_all [eq_comm]

section Substitution

variable {old : Char} {new : List Char}

theorem substitute_cons_self (text : List Char) :
    substitute old new (old :: text) = new ++ substitute old new text := by
  simp [substitute]

theorem substitute_cons_of_ne (h : c ≠ old) (text : List Char) :
    substitute old new (c :: text) = c :: substitute old new text := by
  simp [substitute, h]

theorem substitute_append_of_notMem {x : List Char} (h : old ∉ x) (text : List Char) :
    substitute old new (x ++ text) = x ++ substitute old new text := by
  induction x with
  | nil => rfl
  | cons c x ih =>
    rw [List.mem_cons, not_or] at h
    rw [List.cons_append, substitute_cons_of_ne (Ne.symm h.1), ih h.2, List.cons_append]

theorem escapes_escape (s : String) : Escapes s.toList (escape s).toList := by
  simp only [escape, String.toList_ofList]
  induction s.toList with
  | nil => exact .nil
  | cons c text ih =>
    by_cases hslash : c = '\\'
    · -- the two backslashes pass the later steps
      rw [hslash, substitute_cons_self, substitute_append_of_notMem (by decide),
        substitute_append_of_notMem (by decide)]
      exact .coded rfl ih
    rw [substitute_cons_of_ne hslash]
    by_cases hquote : c = '"'
    · -- and so do a backslash and a quote, which come after the doubling
      rw [hquote, substitute_cons_self, substitute_append_of_notMem (by decide)]
      exact .coded rfl ih
    rw [substitute_cons_of_ne hquote]
    by_cases hline : c = '\n'
    · rw [hline, substitute_cons_self]
      exact .coded rfl ih
    · rw [substitute_cons_of_ne hline]
      exact .plain (code?_eq_none_iff.mpr ⟨hslash, hquote, hline⟩) ih

end Substitution

theorem pending_cons (h : c ≠ '\\') (text : List Char) : pending (c :: text) = pending text := by
  have hfirst : (c == '\\' && !false) = false := by simpa using h
  rw [pending, List.foldl_cons, hfirst, pending]

theorem pending_pair (d : Char) (text : List Char) : pending ('\\' :: d :: text) = pending text := by
  simp [pending]

/-- Of the backslashes at the end of a text, each second one is taken by the one before it. -/
theorem odd_backslashes_iff (text : List Char) :
    Odd (text.rtakeWhile (· == '\\')).length ↔ pending text = true := by
  induction text using List.reverseRecOn with
  | nil => decide
  | append_singleton text c ih =>
    have hlast : pending (text ++ [c]) = (c == '\\' && !pending text) := by
      rw [pending, List.foldl_append]
      rfl
    rw [hlast, List.rtakeWhile_concat]
    by_cases hc : c = '\\'
    · simp [hc, Nat.odd_add_one, ih]
    · simp [hc]

namespace Escapes

theorem notMem_newline (h : Escapes s t) : '\n' ∉ t := by
  induction h with
  | nil => exact List.not_mem_nil
  | plain hc rest ih =>
    have hne := (code?_eq_none_iff.mp hc).2.2
    simp [ih, Ne.symm hne]
  | coded hc rest ih =>
    obtain ⟨-, rfl⟩ | ⟨-, rfl⟩ | ⟨-, rfl⟩ := code?_eq_some_iff.mp hc <;> simp [ih]

theorem pending_before (h : Escapes s t) (hsplit : t = before ++ '"' :: after) :
    pending before = true := by
  induction h generalizing before with
  | nil => simp at hsplit
  | plain hc rest ih =>
    obtain ⟨hslash, hquote, -⟩ := code?_eq_none_iff.mp hc
    cases before with
    | nil => exact absurd (List.head_eq_of_cons_eq hsplit) hquote
    | cons b before =>
      rw [← List.head_eq_of_cons_eq hsplit, pending_cons hslash]
      exact ih (List.tail_eq_of_cons_eq hsplit)
  | coded hc rest ih =>
    cases before with
    | nil => exact absurd (List.head_eq_of_cons_eq hsplit) (by decide)
    | cons b before =>
      rw [← List.head_eq_of_cons_eq hsplit]
      cases before with
      | nil =>
        -- the quote is the code itself, behind this one backslash
        rfl
      | cons b before =>
        rw [pending_pair]
        exact ih (List.tail_eq_of_cons_eq (List.tail_eq_of_cons_eq hsplit))

theorem pending_eq_false (h : Escapes s t) : pending t = false := by
  induction h with
  | nil => rfl
  | plain hc rest ih => rw [pending_cons (code?_eq_none_iff.mp hc).1, ih]
  | coded hc rest ih => rw [pending_pair, ih]

theorem quoted?_append (h : Escapes s t) (after : List Char) :
    quoted? (t ++ '"' :: after) = some (t, after) := by
  induction h with
  | nil => rfl
  | plain hc rest ih =>
    obtain ⟨hslash, hquote, -⟩ := code?_eq_none_iff.mp hc
    rw [List.cons_append, quoted?, ih, Option.map_some, Prod.map_apply, id]
    · exact hquote
    · intro d rest heq
      exact absurd heq hslash
  | coded hc rest ih => simp [quoted?, ih]

theorem unescape?_eq (h : Escapes s t) : unescape? t = some s := by
  induction h with
  | nil => rfl
  | plain hc rest ih =>
    have hslash := (code?_eq_none_iff.mp hc).1
    rw [unescape?, if_neg hslash, ih, Option.map_some]
    all_goals
      intro rest heq
      exact absurd heq hslash
  | coded hc rest ih =>
    obtain ⟨rfl, rfl⟩ | ⟨rfl, rfl⟩ | ⟨rfl, rfl⟩ := code?_eq_some_iff.mp hc <;> simp [unescape?, ih]

end Escapes

theorem escape_injective : Function.Injective escape := by
  intro s t h
  have hsame := (escapes_escape s).unescape?_eq
  rw [h, (escapes_escape t).unescape?_eq] at hsame
  exact String.toList_injective (Option.some.inj hsame).symm

section Lines

open Text (readLines Yields yields_line yields_nothing yields_flatMap line_literal line_number
  dropPrefix?_append)

def indent : String := "    "

def labelMark : String := " [ shape=box, label=\""

def label? (value : List Char) : Option String :=
  (quoted? value).bind fun parts =>
    if parts.2 = [']'] then (unescape? parts.1).map String.ofList else none

def Vertex.ofLine? (line : List Char) : Option Vertex :=
  (line.dropPrefix? indent.toList).bind fun rest =>
    ((rest.dropWhile Char.isDigit).dropPrefix? labelMark.toList).bind fun value =>
      (label? value).map (⟨⟨Nat.ofDigitChars 10 (rest.takeWhile Char.isDigit) 0⟩, ·⟩)

def lineFor (id : NodeId) (rest : List Char) : List Char :=
  indent.toList ++ (Nat.toDigits 10 id.index ++ rest)

def labelled (label : String) : List Char := labelMark.toList ++ ((escape label).toList ++ ['"', ']'])

theorem label?_escape (label : String) : label? ((escape label).toList ++ ['"', ']']) = some label := by
  have hescapes := escapes_escape label
  rw [label?, hescapes.quoted?_append, Option.bind_some, if_pos rfl, hescapes.unescape?_eq,
    Option.map_some, String.ofList_toList]

theorem notMem_labelled (label : String) : '\n' ∉ labelled label := by
  have hmark : '\n' ∉ labelMark.toList := by decide
  simp [labelled, hmark, (escapes_escape label).notMem_newline]

theorem notMem_lineFor (id : NodeId) {rest : List Char} (h : '\n' ∉ rest) : '\n' ∉ lineFor id rest := by
  have hnumber := line_number id.index
  rw [Nat.toString_eq_repr, Nat.toList_repr] at hnumber
  have hindent : '\n' ∉ indent.toList := by decide
  simp [lineFor, hindent, hnumber, h]

/-- The id ends where the digits end. -/
theorem Vertex.ofLine?_lineFor (id : NodeId) {rest : List Char}
    (h : rest.head?.any Char.isDigit = false) :
    Vertex.ofLine? (lineFor id rest) =
      (rest.dropPrefix? labelMark.toList).bind fun value => (label? value).map (⟨id, ·⟩) := by
  have hdigits : ∀ c ∈ Nat.toDigits 10 id.index, c.isDigit = true := fun _ =>
    Nat.isDigit_of_mem_toDigits (by decide) (by decide)
  have htake : rest.takeWhile Char.isDigit = [] := by cases rest <;> simp_all
  have hdrop : rest.dropWhile Char.isDigit = rest := by cases rest <;> simp_all
  rw [ofLine?, lineFor, dropPrefix?_append, Option.bind_some, List.dropWhile_append_of_pos hdigits,
    List.takeWhile_append_of_pos hdigits, htake, hdrop, List.append_nil, Nat.ofDigitChars_ten_toDigits]

theorem Vertex.toList_text (v : Vertex) :
    v.text.toList = lineFor v.id (labelled v.label) ++ ['\n'] := by
  have htext : v.text = indent ++ toString v.id.index ++ labelMark ++ escape v.label ++ "\"]\n" := rfl
  have hclosing : "\"]\n".toList = ['"', ']', '\n'] := by decide
  rw [htext, lineFor, labelled]
  simp only [String.toList_append, hclosing, Nat.toString_eq_repr, Nat.toList_repr, List.append_assoc,
    List.cons_append, List.nil_append]

theorem yields_vertex (v : Vertex) : Yields Vertex.ofLine? v.text.toList [v] := by
  have hread : Vertex.ofLine? (lineFor v.id (labelled v.label)) = some v := by
    rw [Vertex.ofLine?_lineFor v.id rfl, labelled, dropPrefix?_append, Option.bind_some, label?_escape,
      Option.map_some]
  rw [v.toList_text]
  exact yields_line (notMem_lineFor v.id (notMem_labelled v.label)) hread

theorem Edge.notMem_label (e : Edge) : '\n' ∉ e.label.toList := by
  unfold Edge.label
  cases e.value with
  | none => exact line_number e.pos
  | some value =>
    have hcolon : '\n' ∉ ": ".toList := by decide
    change '\n' ∉ (toString e.pos ++ ": " ++ value.text).toList
    simp only [String.toList_append, List.mem_append, not_or]
    exact ⟨⟨line_number e.pos, hcolon⟩, line_literal value⟩

/-- The line of an edge has an arrow where that of a vertex has its label. -/
theorem Edge.exists_line (e : Edge) : ∃ rest,
    '\n' ∉ rest ∧ e.text.toList = lineFor e.source (" -> ".toList ++ rest) ++ ['\n'] := by
  let style := if e.sequential then ", style=dashed" else ""
  have htext : e.text = indent ++ toString e.source.index ++ " -> " ++ toString e.target.index ++
      " [ label=\"" ++ e.label ++ "\"" ++ style ++ "]\n" := rfl
  have hclosing : "]\n".toList = [']', '\n'] := by decide
  refine ⟨(toString e.target.index ++ " [ label=\"" ++ e.label ++ "\"" ++ style).toList ++ [']'],
    ?_, ?_⟩
  · have hopening : '\n' ∉ " [ label=\"".toList := by decide
    have hquote : '\n' ∉ "\"".toList := by decide
    have hstyle : '\n' ∉ style.toList := by
      unfold style
      split <;> decide
    simp only [String.toList_append, List.mem_append, not_or]
    exact ⟨⟨⟨⟨⟨line_number e.target.index, hopening⟩, e.notMem_label⟩, hquote⟩, hstyle⟩, by decide⟩
  · rw [htext, lineFor]
    simp only [String.toList_append, hclosing, Nat.toString_eq_repr, Nat.toList_repr, List.append_assoc,
      List.cons_append, List.nil_append]

theorem yields_edge (e : Edge) : Yields Vertex.ofLine? e.text.toList [] := by
  obtain ⟨rest, hline, htext⟩ := e.exists_line
  have harrow : '\n' ∉ " -> ".toList ++ rest := by simpa using hline
  have hread : Vertex.ofLine? (lineFor e.source (" -> ".toList ++ rest)) = none := by
    rw [Vertex.ofLine?_lineFor e.source rfl]
    rfl
  rw [htext]
  exact yields_line (notMem_lineFor e.source harrow) hread

/-- The vertices of a graph can be read off its text. -/
theorem readLines_text (g : Graph) : readLines Vertex.ofLine? g.text.toList = g.vertices := by
  have hframe (line : String) (hline : line ∈ ["digraph \x7b", "\x7d", ""]) :
      Yields Vertex.ofLine? (line ++ "\n").toList [] := by
    simp only [List.mem_cons, List.not_mem_nil, or_false] at hline
    rcases hline with rfl | rfl | rfl <;> exact yields_nothing _ (by decide) rfl
  have hvertices := yields_flatMap g.vertices fun v _ => yields_vertex v
  have hedges := yields_flatMap g.edges fun e _ => yields_edge e
  have hwhole := (hframe "digraph \x7b" (by simp)).append (hvertices.append (hedges.append
    ((hframe "\x7d" (by simp)).append (hframe "" (by simp)))))
  have htext : g.text.toList = ("digraph \x7b" ++ "\n").toList ++
      (g.vertices.flatMap (·.text.toList) ++ (g.edges.flatMap (·.text.toList) ++
        (("\x7d" ++ "\n").toList ++ ("" ++ "\n").toList))) := by
    simp [Graph.text, String.toList_append, String.toList_join, List.flatMap_map]
  have hnone : (g.edges.flatMap fun _ => ([] : List Vertex)) = [] := by simp
  have hlast : readLines Vertex.ofLine? [] = [] := rfl
  have hread := hwhole []
  rw [List.append_nil, ← htext, hnone, hlast] at hread
  simpa using hread

end Lines

/-- Escaping loses nothing, and nothing gets out of the quotes. Each quote in the result has a backslash
of its own, no backslash is left over to take the closing quote, and no line ends before it. So the
quoted text ends where it should, it reads as the text that it was made from and as no other, and the
vertices of a graph can be read off its text, whatever their labels. -/
theorem labels_stay_in_quotes (s : String) :
    '\n' ∉ (escape s).toList ∧
    (∀ before after, (escape s).toList = before ++ '"' :: after →
      Odd (before.rtakeWhile (· == '\\')).length) ∧
    Even ((escape s).toList.rtakeWhile (· == '\\')).length ∧
    (∀ after, quoted? ((escape s).toList ++ '"' :: after) = some ((escape s).toList, after)) ∧
    unescape? (escape s).toList = some s.toList ∧
    (∀ other, escape other = escape s ↔ other = s) ∧
    ∀ g : Graph, Text.readLines Vertex.ofLine? g.text.toList = g.vertices := by
  have hescapes := escapes_escape s
  refine ⟨hescapes.notMem_newline, ?_, ?_, hescapes.quoted?_append, hescapes.unescape?_eq, ?_,
    readLines_text⟩
  · intro before after hsplit
    exact (odd_backslashes_iff before).mpr (hescapes.pending_before hsplit)
  · rw [← Nat.not_odd_iff_even, odd_backslashes_iff, hescapes.pending_eq_false]
    decide
  · intro other
    exact escape_injective.eq_iff

/-- A backslash, a quote and a new line, and then a backslash and the letter that a new line is written
with. -/
theorem mixed_label_stays_in_quotes :
    escape "\\\"\n\\n" = "\\\\\\\"\\n\\\\n" ∧
      Odd (['\\', '\\', '\\'].rtakeWhile (· == '\\')).length ∧
      quoted? ("\\\\\\\"\\n\\\\n".toList ++ ['"', ']']) =
        some ("\\\\\\\"\\n\\\\n".toList, [']']) ∧
      unescape? "\\\\\\\"\\n\\\\n".toList = some "\\\"\n\\n".toList := by
  have htext : escape "\\\"\n\\n" = "\\\\\\\"\\n\\\\n" := by decide +kernel
  obtain ⟨-, hodd, -, hquoted, hread, -⟩ := labels_stay_in_quotes "\\\"\n\\n"
  rw [htext] at hodd hquoted hread
  exact ⟨htext, hodd ['\\', '\\', '\\'] ['\\', 'n', '\\', '\\', 'n'] rfl, hquoted [']'], hread⟩

end Netlist.Dot
