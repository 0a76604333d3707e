import Netlist.Proofs.Representation

namespace Netlist

namespace Build

variable {α β : Type}

theorem after_map (g : α → β) (step : Build α) (c : Circuit) : after (g <$> step) c = after step c := by
  unfold after
  rw [map_eq_pure_bind, EStateM.run_bind]
  cases step.run c <;> rfl

/-- Whatever its outcome, the step amounts to changes with payloads that fit. -/
def IsTyped (step : Build α) : Prop := ∀ c : Circuit, c.Changes True (after step c)

theorem IsTyped.bind {x : Build α} {f : α → Build β} (hx : IsTyped x) (hf : ∀ a, IsTyped (f a)) :
    IsTyped (x >>= f) := fun c => changes_bind (hx c) hf

theorem isTyped_pure (a : α) : IsTyped (pure a) := fun _ => .refl

theorem isTyped_get : IsTyped get := fun _ => .refl

theorem isTyped_throw (e : Error) : IsTyped (throw e : Build α) := fun _ => .refl

theorem isTyped_of_call {step : Build α} {g : α → Option NodeId} (call : Call)
    (hstep : call.step = g <$> step) (h : call.isTyped = true) : IsTyped step := by
  intro c
  have hchanges := call.changes c
  rw [Call.apply, hstep, after_map] at hchanges
  have hweaken (d e : Circuit) (hchange : d.Change (call.isTyped = true) e) : d.Change True e :=
    hchange.weaken fun _ => h
  exact hchanges.lift id hweaken

theorem isTyped_literal (value : Word) (name : String) (loc : Location) :
    IsTyped (literal value name loc) := isTyped_of_call (.literal value name loc) rfl rfl

theorem isTyped_input (width : Nat) (name : String) (loc : Location) :
    IsTyped (input width name loc) := isTyped_of_call (.input width name loc) rfl rfl

theorem isTyped_output (width : Nat) (name : String) (loc : Location) :
    IsTyped (output width name loc) := isTyped_of_call (.output width name loc) rfl rfl

theorem isTyped_register (width : Nat) (init : Option NodeId) (name : String) (loc : Location) :
    IsTyped (register width init name loc) := isTyped_of_call (.register width init name loc) rfl rfl

theorem isTyped_operation (spec : Operator) (lhs : NodeId) (rhs : Option NodeId) (name : String)
    (loc : Location) : IsTyped (operation spec lhs rhs name loc) :=
  isTyped_of_call (.operation spec lhs rhs name loc) rfl rfl

theorem isTyped_memory (width depth : Nat) (init : List Word) (name : String) (loc : Location) :
    IsTyped (memory width depth init name loc) :=
  isTyped_of_call (.memory width depth init name loc) rfl rfl

theorem isTyped_connectNext (id next : NodeId) : IsTyped (connectNext id next) :=
  isTyped_of_call (.connectNext id next) rfl rfl

theorem isTyped_drive (id driver : NodeId) : IsTyped (drive id driver) :=
  isTyped_of_call (.drive id driver) rfl rfl

theorem isTyped_connectMemory (id : NodeId) (ports : MemoryPorts) : IsTyped (connectMemory id ports) :=
  isTyped_of_call (.connectMemory id ports) rfl rfl

theorem isTyped_useClock (id : NodeId) : IsTyped (useClock id) := isTyped_of_call (.useClock id) rfl rfl

theorem isTyped_useReset (id : NodeId) : IsTyped (useReset id) := isTyped_of_call (.useReset id) rfl rfl

/-- What typed steps build in an empty circuit is well typed. -/
theorem IsTyped.wellTyped {step : Build α} (h : IsTyped step) (name : String) (config : Config) :
    (after step { name, config }).WellTyped := by
  have hchanges := h { name, config }
  generalize after step { name, config } = d at hchanges
  induction hchanges with
  | refl => exact ⟨Circuit.wellFormed_empty name config, fun hn => nomatch hn⟩
  | tail _ hlast ih => exact ih.change hlast

end Build

end Netlist
