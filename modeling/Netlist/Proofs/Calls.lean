import Mathlib.Logic.Relation
import Netlist.Proofs.Steps

namespace Netlist

/-- The circuit in which a step leaves off, whether it succeeds or fails. -/
def Build.after {α : Type} (step : Build α) (c : Circuit) : Circuit :=
  match step.run c with
  | .ok _ after => after
  | .error _ after => after

/-- A step that builds or wires a circuit, with its arguments. -/
inductive Call where
  | node (kind : NodeKind) (width : Nat) (sources : List (Option NodeId)) (name : String)
      (loc : Location)
  | literal (value : Word) (name : String) (loc : Location)
  | input (width : Nat) (name : String) (loc : Location)
  | output (width : Nat) (name : String) (loc : Location)
  | register (width : Nat) (init : Option NodeId) (name : String) (loc : Location)
  | operation (spec : Operator) (lhs : NodeId) (rhs : Option NodeId) (name : String) (loc : Location)
  | proxy (src : NodeId) (name : String) (loc : Location)
  | memory (width depth : Nat) (init : List Word) (name : String) (loc : Location)
  | connect (id : NodeId) (pos : Nat) (src : Option NodeId)
  | connectNext (id next : NodeId)
  | drive (id driver : NodeId)
  | noteDriver (id driver : NodeId)
  | preset (id : NodeId) (value : Word)
  | connectMemory (id : NodeId) (ports : MemoryPorts)
  | useClock (id : NodeId)
  | useReset (id : NodeId)

namespace Call

/-- The step of a call. A call that builds returns the node that it makes. -/
def step : Call → Build (Option NodeId)
  | node kind width sources name loc => some <$> Build.node kind width sources name loc
  | literal value name loc => some <$> Build.literal value name loc
  | input width name loc => some <$> Build.input width name loc
  | output width name loc => some <$> Build.output width name loc
  | register width init name loc => some <$> Build.register width init name loc
  | operation spec lhs rhs name loc => some <$> Build.operation spec lhs rhs name loc
  | proxy src name loc => some <$> Build.proxy src name loc
  | memory width depth init name loc => some <$> Build.memory width depth init name loc
  | connect id pos src => (fun _ => none) <$> Build.connect id pos src
  | connectNext id next => (fun _ => none) <$> Build.connectNext id next
  | drive id driver => (fun _ => none) <$> Build.drive id driver
  | noteDriver id driver => (fun _ => none) <$> Build.noteDriver id driver
  | preset id value => (fun _ => none) <$> Build.preset id value
  | connectMemory id ports => (fun _ => none) <$> Build.connectMemory id ports
  | useClock id => (fun _ => none) <$> Build.useClock id
  | useReset id => (fun _ => none) <$> Build.useReset id

/-- All calls but the one that makes a node of any kind from a payload that nothing checks. -/
def isTyped : Call → Bool
  | node .. => false
  | _ => true

def apply (call : Call) (c : Circuit) : Circuit := call.step.after c

end Call

namespace Circuit

/-- Allowed calls lead to the circuit from an empty one. -/
inductive ReachableBy (allowed : Call → Prop) : Circuit → Prop
  | empty (name : String) (config : Config) : ReachableBy allowed { name, config }
  | call {c : Circuit} (call : Call) (before : ReachableBy allowed c) (ok : allowed call) :
      ReachableBy allowed (call.apply c)

abbrev Reachable : Circuit → Prop := ReachableBy fun _ => True

/-- Reachable without a node whose payload nothing checks. -/
abbrev Typed : Circuit → Prop := ReachableBy fun call => call.isTyped = true

theorem ReachableBy.mono {allowed allowed' : Call → Prop} {c : Circuit} (h : ReachableBy allowed c)
    (himp : ∀ call, allowed call → allowed' call) : ReachableBy allowed' c := by
  induction h with
  | empty name config => exact .empty name config
  | call call _ hok ih => exact .call call ih (himp call hok)

theorem Typed.reachable {c : Circuit} (h : c.Typed) : c.Reachable := h.mono fun _ _ => trivial

def afterCalls (c : Circuit) (calls : List Call) : Circuit :=
  calls.foldl (fun c call => call.apply c) c

theorem afterCalls_concat (c : Circuit) (calls : List Call) (call : Call) :
    c.afterCalls (calls ++ [call]) = call.apply (c.afterCalls calls) :=
  List.foldl_append

theorem ReachableBy.afterCalls {allowed : Call → Prop} {c : Circuit} {calls : List Call}
    (h : ReachableBy allowed c) (hcalls : ∀ call ∈ calls, allowed call) :
    ReachableBy allowed (c.afterCalls calls) := by
  induction calls generalizing c with
  | nil => exact h
  | cons call calls ih =>
    exact ih (h.call call (hcalls call List.mem_cons_self)) fun other hother =>
      hcalls other (List.mem_cons_of_mem call hother)

/-- The circuit that calls lead to, from an empty one. -/
def ofCalls (calls : List Call) : Circuit := afterCalls { name := "top" } calls

theorem reachableBy_ofCalls {allowed : Call → Prop} {calls : List Call}
    (h : ∀ call ∈ calls, allowed call) : ReachableBy allowed (ofCalls calls) :=
  (ReachableBy.empty "top" {}).afterCalls h

/-- A payload that suits a node of the given width, made in circuit `c`. -/
def Fits (c : Circuit) (width : Nat) : NodeKind → Prop
  | .literal value => value.width = width
  | .input value _ _ => value.width = width
  | .register clock reset _ => clock = c.clock ∧ reset = c.reset
  | .memory depth init clock =>
    clock = c.clock ∧ 0 < depth ∧ init.size = depth ∧ ∀ word ∈ init, word.width = width
  | _ => True

/-- The elementary changes. Only untyped calls add a payload that does not fit. -/
inductive Change (typed : Prop) (c : Circuit) : Circuit → Prop
  | add {kind : NodeKind} {width : Nat} {sources : List (Option NodeId)} {name : String}
      {loc : Location} (hadmits : c.Admits kind width sources)
      (hfits : typed → c.Fits width kind) : Change typed c (c.add kind width sources name loc)
  | connect {id : NodeId} {pos : Nat} {src : Option NodeId} {n : Node} (hn : c.node? id = some n)
      (hpos : pos < n.kind.maxSources) (hinside : c.Inside src) :
      Change typed c (c.modifyNode id (·.setSource pos src))
  | retune {id : NodeId} {n : Node} {f : Node → Node} {value value' : Word}
      {driver proxy driver' proxy' : Option NodeId} (hn : c.node? id = some n)
      (hkind : n.kind = .input value driver proxy)
      (hf : f n = { n with kind := .input value' driver' proxy' })
      (hvalue : value' = value ∨ value'.width = n.width) : Change typed c (c.modifyNode id f)
  | useClock {id : NodeId} (hid : id.index < c.size) : Change typed c { c with clock := some id }
  | useReset {id : NodeId} (hid : id.index < c.size) : Change typed c { c with reset := some id }

abbrev Changes (typed : Prop) : Circuit → Circuit → Prop := Relation.ReflTransGen (Change typed)

theorem changes_addInput {c : Circuit} {width : Nat} (hwidth : width ≠ 0)
    (hroom : c.hasRoom 2 = true) (typed : Prop) (name : String) (loc : Location) :
    c.Changes typed (c.addInput width name loc) := by
  let port := c.add (.input (.zero width) none none) width [] name loc
  let both := port.add .proxy width [some c.nodes.nextId] name loc
  have hport : Change typed c port := .add (admits_input hwidth hroom) fun _ => rfl
  have hboth : Change typed port both :=
    .add (admits_second hwidth hroom (Nat.le_refl 1)) fun _ => trivial
  have hnode : both.node? c.nodes.nextId =
      some ⟨c.nodes.nextId, .input (.zero width) none none, width, [], name, loc⟩ := by
    simp [both, port, node?_add, nextId_eq (hasRoom_one hroom)]
  exact ((Relation.ReflTransGen.single hport).tail hboth).tail
    (.retune hnode rfl rfl (.inl rfl))

theorem changes_addOutput {c : Circuit} {width : Nat} (hwidth : width ≠ 0)
    (hroom : c.hasRoom 2 = true) (typed : Prop) (name : String) (loc : Location) :
    c.Changes typed (c.addOutput width name loc) :=
  (Relation.ReflTransGen.single (.add (admits_feed hwidth hroom) fun _ => trivial)).tail
    (.add (admits_second hwidth hroom (Nat.le_refl 1)) fun _ => trivial)

end Circuit

namespace Build

variable {α β : Type}

theorem Ends.after_cases {step : Build α} {c : Circuit} {post : α → Circuit → Prop}
    (h : Ends step c post) : after step c = c ∨ ∃ a, post a (after step c) := by
  unfold Ends at h
  unfold after
  cases hr : step.run c with
  | ok a d => rw [hr] at h; exact .inr ⟨a, h⟩
  | error e d => rw [hr] at h; exact .inl h

theorem Ends.changes {step : Build α} {c : Circuit} {typed : Prop}
    (h : Ends step c fun _ after => c.Changes typed after) : c.Changes typed (after step c) := by
  obtain hsame | ⟨_, hchanges⟩ := h.after_cases
  · rw [hsame]
  · exact hchanges

theorem changes_bind {x : Build α} {f : α → Build β} {c : Circuit} {typed : Prop}
    (hx : c.Changes typed (after x c)) (hf : ∀ a (d : Circuit), d.Changes typed (after (f a) d)) :
    c.Changes typed (after (x >>= f) c) := by
  unfold after at hx
  unfold after
  rw [EStateM.run_bind]
  cases hr : x.run c with
  | ok a d => rw [hr] at hx; exact hx.trans (hf a d)
  | error e d => rw [hr] at hx; exact hx

theorem changes_map {step : Build α} {g : α → β} {c : Circuit} {typed : Prop}
    (h : c.Changes typed (after step c)) : c.Changes typed (after (g <$> step) c) := by
  rw [map_eq_pure_bind]
  exact changes_bind h fun _ _ => .refl

/-- A memory's ports are connected one after the other, so that a failure leaves the earlier ones
connected. -/
theorem changes_connectMemory (id : NodeId) (ports : MemoryPorts) (c : Circuit) (typed : Prop) :
    c.Changes typed (after (connectMemory id ports) c) := by
  have hconnect (pos : Nat) (src : Option NodeId) (d : Circuit) :
      d.Changes typed (after (connect id pos src) d) := by
    refine Ends.changes ((ends_connect id pos src d).mono ?_)
    rintro _ _ ⟨n, hn, hpos, hsrc, rfl⟩
    exact .single (.connect hn hpos hsrc)
  have hlook : Ends (existingOf .memory id) c fun _ after => c.Changes typed after :=
    (looks_existingOf .memory id c).mono fun _ _ h => h.1 ▸ .refl
  apply changes_bind hlook.changes
  intro _ c
  apply changes_bind (hconnect 0 ports.readAddress c)
  intro _ c
  apply changes_bind (hconnect 1 ports.writeAddress c)
  intro _ c
  apply changes_bind (hconnect 2 ports.writeData c)
  intro _ c
  exact hconnect 3 ports.writeEnable c

end Build

namespace Call

open Circuit

/-- Whether the call changes a memory's ports one after the other. -/
def isStepwise : Call → Bool
  | connectMemory .. => true
  | _ => false

/-- A call that does all at once fails without a change. -/
theorem ends_step (call : Call) (h : call.isStepwise = false) (c : Circuit) :
    call.step.Ends c fun _ after => c.Changes (call.isTyped = true) after := by
  cases call with
  | node kind width sources name loc =>
    refine Build.ends_map ((Build.ends_node kind width sources name loc c).mono ?_)
    rintro _ _ ⟨hadmits, _, rfl⟩
    exact .single (.add hadmits fun htyped => nomatch htyped)
  | literal value name loc =>
    refine Build.ends_map ((Build.ends_node _ _ [] name loc c).mono ?_)
    rintro _ _ ⟨hadmits, _, rfl⟩
    exact .single (.add hadmits fun _ => rfl)
  | input width name loc =>
    refine Build.ends_map ((Build.ends_input width name loc c).mono ?_)
    rintro _ _ ⟨hwidth, hroom, rfl⟩
    exact changes_addInput hwidth hroom _ name loc
  | output width name loc =>
    refine Build.ends_map ((Build.ends_output width name loc c).mono ?_)
    rintro _ _ ⟨hwidth, hroom, rfl⟩
    exact changes_addOutput hwidth hroom _ name loc
  | register width init name loc =>
    refine Build.ends_map (Build.ends_get ((Build.ends_node _ width _ name loc c).mono ?_))
    rintro _ _ ⟨hadmits, _, rfl⟩
    exact .single (.add hadmits fun _ => ⟨rfl, rfl⟩)
  | operation spec lhs rhs name loc =>
    refine Build.ends_map ((Build.ends_operation spec lhs rhs name loc c).mono ?_)
    rintro _ _ ⟨width, hadmits, -, rfl⟩
    exact .single (.add hadmits fun _ => trivial)
  | proxy src name loc =>
    refine Build.ends_map ((Build.ends_proxy src name loc c).mono ?_)
    rintro _ _ ⟨width, hadmits, rfl⟩
    exact .single (.add hadmits fun _ => trivial)
  | memory width depth init name loc =>
    refine Build.ends_map ((Build.ends_memory width depth init name loc c).mono ?_)
    rintro _ _ ⟨words, hwords, hadmits, rfl⟩
    exact .single (.add hadmits fun _ => ⟨rfl, hwords⟩)
  | connect id pos src =>
    refine Build.ends_map ((Build.ends_connect id pos src c).mono ?_)
    rintro _ _ ⟨n, hn, hpos, hsrc, rfl⟩
    exact .single (.connect hn hpos hsrc)
  | connectNext id next =>
    refine Build.ends_map ((Build.ends_connectNext id next c).mono ?_)
    rintro _ _ ⟨n, hn, hpos, hsrc, rfl⟩
    exact .single (.connect (ofTag?_eq_some.mp hn).1 hpos hsrc)
  | drive id driver =>
    refine Build.ends_map ((Build.ends_drive id driver c).mono ?_)
    rintro _ _ ⟨feed, n, -, hn, hpos, hsrc, rfl⟩
    exact .single (.connect hn hpos hsrc)
  | noteDriver id driver =>
    refine Build.ends_map ((Build.ends_noteDriver id driver c).mono ?_)
    rintro _ _ ⟨n, f, value, driver', proxy, hn, hkind, hf, rfl⟩
    exact .single (.retune hn hkind hf (.inl rfl))
  | preset id value =>
    refine Build.ends_map ((Build.ends_preset id value c).mono ?_)
    rintro _ _ ⟨n, f, value', driver, proxy, hn, hkind, hf, rfl⟩
    exact .single (.retune hn hkind hf (.inr rfl))
  | connectMemory id ports => cases h
  | useClock id =>
    refine Build.ends_map ((Build.ends_useClock id c).mono ?_)
    rintro _ _ ⟨hid, rfl⟩
    exact .single (.useClock hid)
  | useReset id =>
    refine Build.ends_map ((Build.ends_useReset id c).mono ?_)
    rintro _ _ ⟨hid, rfl⟩
    exact .single (.useReset hid)

/-- Whatever its outcome, a call amounts to elementary changes. -/
theorem changes (call : Call) (c : Circuit) : c.Changes (call.isTyped = true) (call.apply c) := by
  cases h : call.isStepwise with
  | false => exact (ends_step call h c).changes
  | true =>
    cases call with
    | connectMemory id ports =>
      exact Build.changes_map (Build.changes_connectMemory id ports c _)
    | _ => cases h

end Call

namespace Circuit

theorem Changes.config_eq {typed : Prop} {c d : Circuit} (h : c.Changes typed d) :
    d.config = c.config := by
  induction h with
  | refl => rfl
  | tail _ hstep ih => cases hstep <;> exact ih

theorem Change.weaken {typed typed' : Prop} {c d : Circuit} (h : Change typed c d)
    (ht : typed' → typed) : Change typed' c d := by
  cases h with
  | add hadmits hfits => exact .add hadmits fun h => hfits (ht h)
  | connect hn hpos hsrc => exact .connect hn hpos hsrc
  | retune hn hkind hf hvalue => exact .retune hn hkind hf hvalue
  | useClock hid => exact .useClock hid
  | useReset hid => exact .useReset hid

/-- What an empty circuit has and every change preserves, every reachable circuit has. -/
theorem ReachableBy.of_change {allowed : Call → Prop} {typed : Prop} {P : Circuit → Prop}
    (hallowed : ∀ call, allowed call → typed → call.isTyped = true)
    (hempty : ∀ name config, P { name, config })
    (hchange : ∀ c d, P c → Change typed c d → P d) {c : Circuit} (h : ReachableBy allowed c) :
    P c := by
  induction h with
  | empty name config => exact hempty name config
  | @call c call _ hok ih =>
    -- one call is several changes, so the invariant is carried through each of them
    have hsteps := call.changes c
    generalize call.apply c = d at hsteps ⊢
    induction hsteps with
    | refl => exact ih
    | tail _ hstep hprev => exact hchange _ _ hprev (hstep.weaken (hallowed call hok))

end Circuit

end Netlist
