import Netlist.Proofs.Calls

namespace Netlist

namespace Circuit

theorem size_addInput (c : Circuit) (width : Nat) (name : String) (loc : Location) :
    (c.addInput width name loc).size = c.size + 2 := by
  simp [addInput]

theorem size_addOutput (c : Circuit) (width : Nat) (name : String) (loc : Location) :
    (c.addOutput width name loc).size = c.size + 2 := by
  simp [addOutput]

end Circuit

theorem Build.Ends.unchanged {α : Type} {step : Build α} {c after : Circuit} {e : Error}
    {post : α → Circuit → Prop} (h : step.Ends c post) (hr : step.run c = .error e after) :
    after = c := by
  unfold Build.Ends at h
  rw [hr] at h
  exact h

namespace Call

theorem isStepwise_eq_false {call : Call} (h : ∀ id ports, call ≠ .connectMemory id ports) :
    call.isStepwise = false := by
  cases call with
  | connectMemory id ports => exact absurd rfl (h id ports)
  | _ => rfl

theorem size_apply_port {call : Call} {width : Nat} {name : String} {loc : Location}
    (h : call = .input width name loc ∨ call = .output width name loc) (c : Circuit) :
    (call.apply c).size = c.size ∨ (call.apply c).size = c.size + 2 := by
  rcases h with rfl | rfl
  · have hends : (Call.input width name loc).step.Ends c fun _ after =>
        after = c.addInput width name loc :=
      Build.ends_map ((Build.ends_input width name loc c).mono fun _ _ h => h.2.2)
    obtain hsame | ⟨_, hboth⟩ := hends.after_cases
    · exact .inl (congrArg Circuit.size hsame)
    · exact .inr ((congrArg Circuit.size hboth).trans (c.size_addInput width name loc))
  · have hends : (Call.output width name loc).step.Ends c fun _ after =>
        after = c.addOutput width name loc :=
      Build.ends_map ((Build.ends_output width name loc c).mono fun _ _ h => h.2.2)
    obtain hsame | ⟨_, hboth⟩ := hends.after_cases
    · exact .inl (congrArg Circuit.size hsame)
    · exact .inr ((congrArg Circuit.size hboth).trans (c.size_addOutput width name loc))

/-- Every call but the one for the ports of a memory either succeeds or leaves the circuit as it was,
and a port is made with both of its nodes or with none. -/
theorem failed_call_unchanged (call : Call) (h : ∀ id ports, call ≠ .connectMemory id ports)
    (c : Circuit) :
    (∀ e after, call.step.run c = .error e after → after = c) ∧
      ∀ width name loc, call = .input width name loc ∨ call = .output width name loc →
        (call.apply c).size = c.size ∨ (call.apply c).size = c.size + 2 :=
  ⟨fun _ _ => (ends_step call (isStepwise_eq_false h) c).unchanged,
    fun _ _ _ hport => size_apply_port hport c⟩

/-- Of the two ids that a port needs, one is left. -/
theorem refused_port_unchanged :
    ∃ e after, (Call.input 4 "a" .unknown).step.run { name := "top", config := { idLimit := 0 } } =
      .error e after ∧ after = { name := "top", config := { idLimit := 0 } } :=
  ⟨.idsExhausted 0, _, rfl,
    (failed_call_unchanged (.input 4 "a" .unknown) (fun _ _ h => nomatch h) _).1 _ _ rfl⟩

end Call

end Netlist
