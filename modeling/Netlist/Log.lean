namespace Netlist

inductive Level where
  | error | warn | info | debug | trace
deriving DecidableEq

namespace Level

def rank : Level → Nat
  | error => 1 | warn => 2 | info => 3 | debug => 4 | trace => 5

def name : Level → String
  | error => "ERROR" | warn => "WARN" | info => "INFO" | debug => "DEBUG" | trace => "TRACE"

def all : List Level := [error, warn, info, debug, trace]

end Level

/-- The least severe level that is shown, or `none` for silence. -/
abbrev Threshold := Option Level

namespace Threshold

def admits (t : Threshold) (l : Level) : Bool :=
  match t with
  | none => false
  | some least => l.rank ≤ least.rank

def name : Threshold → String
  | none => "OFF"
  | some l => l.name

def ofName? (s : String) : Option Threshold :=
  (none :: Level.all.map some).find? fun t => s.map Char.toUpper == Threshold.name t

end Threshold

inductive Origin where
  | circuit | scope | simulation | evaluation | verilog | program
deriving DecidableEq

structure Record where
  level : Level
  origin : Origin
  text : String
deriving DecidableEq

/-- A value and the records of its making, oldest first. -/
structure Logged (α : Type) where
  value : α
  log : List Record := []

namespace Logged

variable {α β σ : Type}

def map (f : α → β) (a : Logged α) : Logged β := ⟨f a.value, a.log⟩

def andThen (a : Logged α) (f : α → Logged β) : Logged β :=
  let b := f a.value
  ⟨b.value, a.log ++ b.log⟩

def foldl (step : σ → α → Logged σ) : σ → List α → Logged σ
  | s, [] => ⟨s, []⟩
  | s, a :: as =>
    let first := step s a
    let rest := foldl step first.value as
    ⟨rest.value, first.log ++ rest.log⟩

@[simp] theorem value_foldl (step : σ → α → Logged σ) (s : σ) (as : List α) :
    (foldl step s as).value = as.foldl (fun s a => (step s a).value) s := by
  induction as generalizing s with
  | nil => rfl
  | cons a as ih => exact ih (step s a).value

end Logged

end Netlist
