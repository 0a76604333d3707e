import Mathlib
import Netlist.Output

namespace Netlist

namespace FileSystem

variable {fs : FileSystem} {path text : String} {place : TreePath}

theorem walk_put {folder : TreePath} {parts : List String} {found : Place}
    (h : fs.walk folder parts = .ok found) : (fs.put place text).walk folder parts = .ok found := by
  induction parts generalizing folder with
  | nil => exact h
  | cons part rest ih =>
    -- Only the fault of a way that leads nowhere depends on the files.
    have hfollow : ∀ other, (fs.put place text).follow other = fs.follow other := fun _ => rfl
    have hfolder : ∀ other, (fs.put place text).isFolder other = fs.isFolder other := fun _ => rfl
    simp only [walk, hfollow, hfolder] at h ⊢
    by_cases hstays : (part == "" || part == ".") = true
    · rw [if_pos hstays] at h ⊢
      exact ih h
    rw [if_neg hstays] at h ⊢
    by_cases hup : (part == "..") = true
    · rw [if_pos hup] at h ⊢
      exact ih h
    rw [if_neg hup] at h ⊢
    by_cases hlast : rest.all (· == "") = true
    · rwa [if_pos hlast] at h ⊢
    rw [if_neg hlast] at h ⊢
    by_cases hpasses : fs.isFolder (fs.follow (part :: folder)) = true
    · rw [if_pos hpasses] at h ⊢
      exact ih h
    · rw [if_neg hpasses] at h
      cases h

theorem resolve_put {found : Place} (h : fs.resolve path = .ok found) :
    (fs.put place text).resolve path = .ok found := by
  have hhome : (fs.put place text).home = fs.home := rfl
  simp only [resolve, hhome] at h ⊢
  split_ifs at h ⊢ <;> exact walk_put h

@[simp]
theorem read?_put (fs : FileSystem) (place : TreePath) (text : String) :
    (fs.put place text).read? place = some text := by
  simp [read?, put]

@[simp]
theorem read?_append (fs : FileSystem) (place : TreePath) (text : String) :
    (fs.append place text).read? place = some ((fs.read? place).getD "" ++ text) :=
  read?_put ..

/-- A path leads to a place where a plain file is or can be made. -/
structure IsPlain (fs : FileSystem) (path : String) (place : TreePath) : Prop where
  resolve : fs.resolve path = .ok (.leaf place false)
  short : isLong place = false
  noDevice : Device.at? place = none
  unlocked : lockFault? place.tail = none

theorem IsPlain.put (h : fs.IsPlain path place) (text : String) : (fs.put place text).IsPlain path place :=
  ⟨resolve_put h.resolve, h.short, h.noDevice, h.unlocked⟩

theorem IsPlain.append (h : fs.IsPlain path place) (text : String) :
    (fs.append place text).IsPlain path place :=
  h.put _

theorem IsPlain.create_eq (h : fs.IsPlain path place) :
    fs.create path = .ok (.file place, fs.put place "") := by
  simp [create, h.resolve, h.short, h.noDevice, h.unlocked]

theorem IsPlain.openExisting_eq (h : fs.IsPlain path place) :
    fs.openExisting path =
      if (fs.read? place).isSome then .ok (.file place) else .error .notFound := by
  cases hread : fs.read? place with
  | none => simp [openExisting, channel?, h.resolve, h.short, h.noDevice, hread]
  | some text => simp [openExisting, channel?, h.resolve, h.short, h.noDevice, hread]

end FileSystem

namespace Output

/-- A writing, and why the system refuses to open the output for it, if it does. -/
structure Attempt where
  refusal : Option FileFault := none
  text : String

def attempt (o : Output) (sink : Sink) (a : Attempt) : Except FileFault Unit × Output × Sink :=
  o.writeTo sink (a.refusal.elim (o.connect sink) .error) a.text

structure Session where
  output : Output
  sink : Sink
  /-- The texts of the writings that succeeded. -/
  written : List String := []

namespace Session

def step (s : Session) (a : Attempt) : Session where
  output := (s.output.attempt s.sink a).2.1
  sink := (s.output.attempt s.sink a).2.2
  written := if (s.output.attempt s.sink a).1.isOk then s.written ++ [a.text] else s.written

def run (s : Session) (attempts : List Attempt) : Session := attempts.foldl step s

/-- The texts of the writings that the system does not refuse. -/
def allowed (attempts : List Attempt) : List String :=
  (attempts.filter (·.refusal.isNone)).map (·.text)

end Session

variable {o : Output} {sink : Sink} {a : Attempt} {path : String} {place : TreePath}

theorem attempt_of_allowed (o : Output) (sink : Sink) (h : a.refusal = none) :
    o.attempt sink a = o.write sink a.text := by
  simp [attempt, write, h]

theorem attempt_of_refused {fault : FileFault} (h : a.refusal = some fault) :
    o.attempt sink a = (.error fault, o.tried, sink) := by
  simp [attempt, writeTo, h]

theorem output_attempt (o : Output) (sink : Sink) (a : Attempt) : (o.attempt sink a).2.1 = o.tried := by
  unfold attempt writeTo
  split
  · rfl
  · split <;> rfl

theorem tried_tried (o : Output) : o.tried.tried = o.tried := by
  cases o <;> rfl

theorem write_toFile (h : sink.fileSystem.IsPlain path place) (text : String) :
    (toFile path).write sink text =
      (.ok (), .file path true,
        { sink with fileSystem := (sink.fileSystem.put place "").append place text }) := by
  simp [write, toFile, connect, h.create_eq, Except.map, writeTo, Sink.put, Channel.fault?, Sink.add, tried]

theorem write_toFile_of_fault {fault : FileFault} (h : sink.fileSystem.resolve path = .error fault)
    (text : String) : (toFile path).write sink text = (.error fault, .file path true, sink) := by
  simp [write, toFile, connect, FileSystem.create, h, Except.map, writeTo, tried]

theorem write_started (h : sink.fileSystem.IsPlain path place) {old : String}
    (hold : sink.fileSystem.read? place = some old) (text : String) :
    (file path true).write sink text =
      (.ok (), .file path true, { sink with fileSystem := sink.fileSystem.append place text }) := by
  simp [write, connect, h.openExisting_eq, hold, Except.map, writeTo, Sink.put, Channel.fault?, Sink.add,
    tried]

/-- A file that counts as started is never made. -/
theorem write_started_of_absent (h : sink.fileSystem.IsPlain path place)
    (hold : sink.fileSystem.read? place = none) (text : String) :
    (file path true).write sink text = (.error .notFound, .file path true, sink) := by
  simp [write, connect, h.openExisting_eq, hold, Except.map, writeTo, tried]

namespace Session

variable {s : Session} {fault : FileFault} {old : String} {attempts : List Attempt}

theorem output_step (s : Session) (a : Attempt) : (s.step a).output = s.output.tried :=
  output_attempt ..

theorem output_run (s : Session) (a : Attempt) (attempts : List Attempt) :
    (s.run (a :: attempts)).output = s.output.tried := by
  induction attempts generalizing s a with
  | nil => exact output_step s a
  | cons b rest ih =>
    calc ((s.step a).run (b :: rest)).output
      _ = (s.step a).output.tried := ih (s.step a) b
      _ = s.output.tried := by rw [output_step, tried_tried]

theorem step_of_refused (s : Session) (h : a.refusal = some fault) :
    s.step a = { s with output := s.output.tried } := by
  simp [step, attempt_of_refused h, Except.isOk, Except.toBool]

theorem step_of_refused_of_started (houtput : s.output = .file path true) (h : a.refusal = some fault) :
    s.step a = s := by
  rw [step_of_refused s h, houtput, tried, ← houtput]

theorem step_of_success (h : a.refusal = none)
    (hwrite : s.output.write s.sink a.text = (.ok (), o, sink)) :
    s.step a = ⟨o, sink, s.written ++ [a.text]⟩ := by
  simp [step, attempt_of_allowed _ _ h, hwrite, Except.isOk, Except.toBool]

theorem step_of_failure (h : a.refusal = none)
    (hwrite : s.output.write s.sink a.text = (.error fault, o, sink)) :
    s.step a = ⟨o, sink, s.written⟩ := by
  simp [step, attempt_of_allowed _ _ h, hwrite, Except.isOk, Except.toBool]

theorem allowed_cons (a : Attempt) (attempts : List Attempt) :
    allowed (a :: attempts) = allowed [a] ++ allowed attempts := by
  simp only [allowed, ← List.map_append, ← List.filter_append, List.singleton_append]

theorem allowed_of_refused (h : a.refusal = some fault) : allowed [a] = [] := by
  simp [allowed, h]

theorem allowed_of_allowed (h : a.refusal = none) : allowed [a] = [a.text] := by
  simp [allowed, h]

/-- The output is a started file with a text. -/
structure Holds (s : Session) (path : String) (place : TreePath) (text : String) : Prop where
  output : s.output = .file path true
  isPlain : s.sink.fileSystem.IsPlain path place
  read : s.sink.fileSystem.read? place = some text

theorem Holds.step (h : s.Holds path place old) (a : Attempt) :
    (s.step a).Holds path place (old ++ String.join (allowed [a])) ∧
      (s.step a).written = s.written ++ allowed [a] := by
  cases hrefusal : a.refusal with
  | some fault =>
    rw [step_of_refused_of_started h.output hrefusal, allowed_of_refused hrefusal]
    simpa using h
  | none =>
    have hwrite := write_started h.isPlain h.read a.text
    rw [← h.output] at hwrite
    rw [step_of_success hrefusal hwrite, allowed_of_allowed hrefusal]
    exact ⟨⟨h.output, h.isPlain.append a.text, by simp [h.read]⟩, rfl⟩

theorem Holds.run (h : s.Holds path place old) (attempts : List Attempt) :
    (s.run attempts).Holds path place (old ++ String.join (allowed attempts)) ∧
      (s.run attempts).written = s.written ++ allowed attempts := by
  induction attempts generalizing s old with
  | nil => simpa [Session.run, allowed, String.join] using h
  | cons a rest ih =>
    obtain ⟨hstep, hwritten⟩ := h.step a
    obtain ⟨hrun, hrest⟩ := ih hstep
    rw [allowed_cons]
    exact ⟨by simpa [Session.run, String.append_assoc] using hrun,
      by simpa [Session.run, hwritten] using hrest⟩

/-- No writing succeeds once a file that is not there counts as started. -/
theorem run_of_absent (houtput : s.output = .file path true)
    (hplain : s.sink.fileSystem.IsPlain path place) (hread : s.sink.fileSystem.read? place = none)
    (attempts : List Attempt) : s.run attempts = s := by
  have hstep : ∀ a, s.step a = s := by
    intro a
    cases hrefusal : a.refusal with
    | some fault => exact step_of_refused_of_started houtput hrefusal
    | none =>
      have hwrite := write_started_of_absent hplain hread a.text
      rw [← houtput] at hwrite
      rw [step_of_failure hrefusal hwrite]
  induction attempts with
  | nil => rfl
  | cons a rest ih => rwa [run, List.foldl_cons, hstep a]

def start (path : String) (sink : Sink) : Session := { output := toFile path, sink }

theorem run_start_of_allowed (hplain : sink.fileSystem.IsPlain path place) (h : a.refusal = none)
    (attempts : List Attempt) :
    ((start path sink).run (a :: attempts)).Holds path place (String.join (allowed (a :: attempts))) ∧
      ((start path sink).run (a :: attempts)).written = allowed (a :: attempts) := by
  have hstep := step_of_success (s := start path sink) h (write_toFile hplain a.text)
  have hholds : ((start path sink).step a).Holds path place a.text := by
    rw [hstep]
    exact ⟨rfl, (hplain.put "").append a.text, by simp⟩
  have hwritten : ((start path sink).step a).written = [a.text] := by
    rw [hstep]
    rfl
  rw [allowed_cons, allowed_of_allowed h]
  simpa [hwritten, run] using hholds.run attempts

theorem run_start_of_refused (hplain : sink.fileSystem.IsPlain path place) (h : a.refusal = some fault)
    (attempts : List Attempt) :
    ((start path sink).run (a :: attempts)).sink.fileSystem.read? place =
        (sink.fileSystem.read? place).map
          (· ++ String.join ((start path sink).run (a :: attempts)).written) ∧
      ((start path sink).run (a :: attempts)).written =
        if (sink.fileSystem.read? place).isSome then allowed (a :: attempts) else [] := by
  have hstep : (start path sink).run (a :: attempts) =
      Session.run { output := .file path true, sink } attempts := by
    rw [run, List.foldl_cons, step_of_refused _ h]
    rfl
  rw [hstep, allowed_cons, allowed_of_refused h, List.nil_append]
  cases hread : sink.fileSystem.read? place with
  | none =>
    have hrun := run_of_absent (s := { output := .file path true, sink }) rfl hplain hread attempts
    simp [hrun, hread]
  | some old =>
    have hstarted : Holds { output := .file path true, sink } path place old := ⟨rfl, hplain, hread⟩
    obtain ⟨hrun, hwritten⟩ := hstarted.run attempts
    simp [hrun.read, hwritten]

def Fails (s : Session) (a : Attempt) : Prop := ∃ fault, (s.output.attempt s.sink a).1 = .error fault

/-- Every writing that fails leaves the output as it was. -/
def IsSteady (s : Session) (attempts : List Attempt) : Prop :=
  ∀ before a after, attempts = before ++ a :: after →
    (s.run before).Fails a → ((s.run before).step a).output = (s.run before).output

/-- Once something was written, the file holds the texts that were written and no more. -/
def HoldsWritten (s : Session) (place : TreePath) : Prop :=
  s.written ≠ [] → s.sink.fileSystem.read? place = some (String.join s.written)

/-- Only the first writing can change a file's output. -/
theorem isSteady_start_iff (path : String) (sink : Sink) (attempts : List Attempt) :
    (start path sink).IsSteady attempts ↔ ∀ a ∈ attempts.head?, ¬ (start path sink).Fails a := by
  constructor
  · intro hsteady a hhead hfails
    obtain ⟨rest, rfl⟩ := List.head?_eq_some_iff.mp hhead
    have hkept := hsteady [] a rest rfl hfails
    simp [output_step, run, start, toFile, tried] at hkept
  · rintro hfirst before a after rfl hfails
    cases before with
    | nil => exact absurd hfails (hfirst a rfl)
    | cons b rest => rw [output_step, output_run, tried_tried]

theorem fails_start_iff (hplain : sink.fileSystem.IsPlain path place) (a : Attempt) :
    (start path sink).Fails a ↔ a.refusal ≠ none := by
  cases hrefusal : a.refusal with
  | none => simp [Fails, start, attempt_of_allowed _ _ hrefusal, write_toFile hplain]
  | some fault => simp [Fails, attempt_of_refused hrefusal]

theorem holdsWritten_run_start_iff (hplain : sink.fileSystem.IsPlain path place)
    (attempts : List Attempt) :
    ((start path sink).run attempts).HoldsWritten place ↔
      (∀ a ∈ attempts.head?, a.refusal = none) ∨ (sink.fileSystem.read? place).getD "" = "" ∨
        allowed attempts = [] := by
  cases attempts with
  | nil => simp [HoldsWritten, run, start]
  | cons a rest =>
    cases hrefusal : a.refusal with
    | none =>
      obtain ⟨hholds, hwritten⟩ := run_start_of_allowed hplain hrefusal rest
      simp [HoldsWritten, hwritten, hholds.read, hrefusal]
    | some fault =>
      obtain ⟨hread, hwritten⟩ := run_start_of_refused hplain hrefusal rest
      rw [HoldsWritten, hread, hwritten]
      cases hold : sink.fileSystem.read? place with
      | none => simp
      | some old => simp [hrefusal, or_iff_not_imp_right]

/-- Let the system refuse to open a file as often as it likes. Writings that fail leave the output as it
was just if the first one does not fail. Where a plain file is or can be made, the file ends with the
texts of the writings that succeeded and nothing of what it held before, just if the first writing was
not refused, or the file held nothing, or every writing was refused; a first refusal leaves an old text
in front of the new ones, and lets no writing succeed where there was no file. -/
theorem holds_written_iff_first_allowed (path : String) (sink : Sink) (attempts : List Attempt) :
    ((start path sink).IsSteady attempts ↔ ∀ a ∈ attempts.head?, ¬ (start path sink).Fails a) ∧
    ∀ place, sink.fileSystem.IsPlain path place →
      ((start path sink).IsSteady attempts ↔ ∀ a ∈ attempts.head?, a.refusal = none) ∧
      (((start path sink).run attempts).HoldsWritten place ↔
        (∀ a ∈ attempts.head?, a.refusal = none) ∨ (sink.fileSystem.read? place).getD "" = "" ∨
          allowed attempts = []) ∧
      ((∀ a ∈ attempts.head?, a.refusal = none) →
        ((start path sink).run attempts).written = allowed attempts) ∧
      (∀ a ∈ attempts.head?, a.refusal ≠ none →
        ((start path sink).run attempts).sink.fileSystem.read? place =
            (sink.fileSystem.read? place).map
              (· ++ String.join ((start path sink).run attempts).written) ∧
          ((start path sink).run attempts).written =
            if (sink.fileSystem.read? place).isSome then allowed attempts else []) := by
  refine ⟨isSteady_start_iff path sink attempts, fun place hplain => ⟨?_, ?_, ?_, ?_⟩⟩
  · rw [isSteady_start_iff]
    simp only [fails_start_iff hplain, not_not]
  · exact holdsWritten_run_start_iff hplain attempts
  · intro hfirst
    cases attempts with
    | nil => rfl
    | cons a rest => exact (run_start_of_allowed hplain (hfirst a rfl) rest).2
  · intro a hhead hrefused
    obtain ⟨rest, rfl⟩ := List.head?_eq_some_iff.mp hhead
    obtain ⟨fault, hfault⟩ := Option.ne_none_iff_exists'.mp hrefused
    exact run_start_of_refused hplain hfault rest

/-- A folder with an old text in the file `top.v`. -/
def oldText : Sink := { fileSystem := ({} : FileSystem).put ["top.v", "work", "tmp"] "old" }

theorem isPlain_oldText : oldText.fileSystem.IsPlain "top.v" ["top.v", "work", "tmp"] := by
  have hparts : "top.v".splitToList (· == '/') = ["top.v"] := by
    rw [String.splitToList_of_valid]
    decide +kernel
  have hresolve : ({} : FileSystem).resolve "top.v" = .ok (.leaf ["top.v", "work", "tmp"] false) := by
    simp only [FileSystem.resolve, hparts, String.contains_char_eq]
    decide +kernel
  have hplain : ({} : FileSystem).IsPlain "top.v" ["top.v", "work", "tmp"] :=
    ⟨hresolve, by decide, by decide, by decide⟩
  exact hplain.put "old"

/-- A refusal after the first writing does no harm. -/
theorem old_text_replaced :
    ((start "top.v" oldText).run
          [{ text := "a" }, { refusal := some .notPermitted, text := "b" }, { text := "c" }]).written =
        ["a", "c"] ∧
      ((start "top.v" oldText).run
          [{ text := "a" }, { refusal := some .notPermitted, text := "b" }, { text := "c" }]).HoldsWritten
        ["top.v", "work", "tmp"] := by
  obtain ⟨-, hplain⟩ := holds_written_iff_first_allowed "top.v" oldText
    [{ text := "a" }, { refusal := some .notPermitted, text := "b" }, { text := "c" }]
  obtain ⟨-, hholds, hwritten, -⟩ := hplain _ isPlain_oldText
  exact ⟨hwritten (by simp), hholds.mpr (.inl (by simp))⟩

/-- An old text outlives a refused first writing, and a folder that is missing is enough to change the
output. -/
theorem old_text_kept :
    ((start "top.v" oldText).run
        [{ refusal := some .notPermitted, text := "a" }, { text := "b" }]).written = ["b"] ∧
      ((start "top.v" oldText).run
          [{ refusal := some .notPermitted, text := "a" }, { text := "b" }]).sink.fileSystem.read?
        ["top.v", "work", "tmp"] = some "oldb" ∧
      ((toFile "missing/top.v").write {} "a").1 = .error .notFound ∧
      ((toFile "missing/top.v").write {} "a").2.1 ≠ toFile "missing/top.v" := by
  have hread : oldText.fileSystem.read? ["top.v", "work", "tmp"] = some "old" := by decide
  have hparts : "missing/top.v".splitToList (· == '/') = ["missing", "top.v"] := by
    rw [String.splitToList_of_valid]
    decide +kernel
  have hresolve : ({} : FileSystem).resolve "missing/top.v" = .error .notFound := by
    simp only [FileSystem.resolve, hparts, String.contains_char_eq]
    decide +kernel
  obtain ⟨hkept, hwritten⟩ := run_start_of_refused isPlain_oldText
    (a := { refusal := some .notPermitted, text := "a" }) rfl [{ text := "b" }]
  rw [hread] at hwritten hkept
  refine ⟨hwritten, ?_, ?_, ?_⟩
  · rw [hkept, hwritten]
    decide
  · rw [write_toFile_of_fault hresolve]
  · rw [write_toFile_of_fault hresolve]
    decide

end Session

end Output

end Netlist
