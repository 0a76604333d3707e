import Mathlib.Data.List.TakeWhile
import Netlist.Proofs.Representation

namespace Netlist

theorem NodeKind.maxSources_of_memory {kind : NodeKind} (h : kind.tag = .memory) :
    kind.maxSources = 4 := by
  cases kind with
  | memory => rfl
  | _ => cases h

def MemoryPorts.sources (ports : MemoryPorts) : List (Option NodeId) :=
  [ports.readAddress, ports.writeAddress, ports.writeData, ports.writeEnable]

theorem MemoryPorts.length_sources (ports : MemoryPorts) : ports.sources.length = 4 := rfl

namespace Circuit

variable {c d : Circuit} {id : NodeId} {n : Node}

def holdsSource (c : Circuit) (src : Option NodeId) : Bool := src.all c.nodes.contains

theorem holdsSource_iff {src : Option NodeId} : c.holdsSource src = true ↔ c.Inside src := by
  cases src <;> simp [holdsSource, Inside, Table.contains, size]

/-- The ports before the first one that is not in the circuit. -/
def reached (c : Circuit) (ports : MemoryPorts) : List (Option NodeId) :=
  ports.sources.takeWhile c.holdsSource

theorem reached_eq_sources {ports : MemoryPorts} :
    c.reached ports = ports.sources ↔ ∀ src ∈ ports.sources, c.Inside src := by
  simp only [reached, List.takeWhile_eq_self_iff, holdsSource_iff]

/-- The circuit with the first sources of a node replaced. -/
def replug (c : Circuit) (id : NodeId) (first : List (Option NodeId)) : Circuit :=
  c.modifyNode id fun n => { n with sources := first ++ n.sources.drop first.length }

theorem node?_replug (hn : c.node? id = some n) (first : List (Option NodeId)) :
    (c.replug id first).node? id =
      some { n with sources := first ++ n.sources.drop first.length } := by
  rw [replug, node?_modifyNode, if_pos rfl, hn, Option.map_some]

theorem inside_replug {first : List (Option NodeId)} {src : Option NodeId} :
    (c.replug id first).Inside src ↔ c.Inside src := by
  simp only [Inside, replug, size_modifyNode]

theorem replug_nil (c : Circuit) (id : NodeId) : c.replug id [] = c := by
  refine (ext_node? (fun other => ?_) rfl).symm
  rw [replug, node?_modifyNode]
  split
  · cases c.node? other <;> rfl
  · rfl

theorem replug_concat (c : Circuit) (id : NodeId) (first : List (Option NodeId))
    (src : Option NodeId) :
    (c.replug id first).modifyNode id (·.setSource first.length src) =
      c.replug id (first ++ [src]) := by
  refine ext_node? (fun other => ?_) rfl
  simp only [replug, node?_modifyNode]
  split
  · cases c.node? other with
    | none => rfl
    | some n => simp [Node.setSource_append]
  · rfl

theorem replug_eq_self (hn : c.node? id = some n) {first : List (Option NodeId)} :
    c.replug id first = c ↔ first <+: n.sources := by
  constructor
  · intro h
    have hnode := node?_replug hn first
    rw [h, hn, Option.some_inj] at hnode
    exact ⟨_, (congrArg Node.sources hnode).symm⟩
  · rintro ⟨rest, hrest⟩
    refine (ext_node? (fun other => ?_) rfl).symm
    rw [replug, node?_modifyNode]
    split
    · next he =>
      have hsame : { n with sources := first ++ n.sources.drop first.length } = n := by
        rw [← hrest, List.drop_left, hrest]
      rw [← he, hn, Option.map_some, hsame]
    · rfl

/-- A record has as many ports as a memory takes, so nothing is left of the sources before. -/
theorem WellFormed.replug_memory (hc : c.WellFormed) (hn : c.ofTag? .memory id = some n)
    (ports : MemoryPorts) : c.replug id ports.sources =
      c.modifyNode id fun n => { n with sources := ports.sources } := by
  obtain ⟨hnode, htag⟩ := ofTag?_eq_some.mp hn
  refine ext_node? (fun other => ?_) rfl
  rw [replug, node?_modifyNode, node?_modifyNode]
  split
  · next he =>
    subst he
    have hdrop : n.sources.drop 4 = [] := by
      have harity := (hc.holds hnode).arity
      rw [NodeKind.maxSources_of_memory htag] at harity
      exact List.drop_eq_nil_of_le harity
    simp [hnode, ports.length_sources, hdrop]
  · rfl

end Circuit

namespace Build

open Circuit

variable {c : Circuit} {id : NodeId} {n : Node}

theorem run_existing (hn : c.node? id = some n) : (existing id).run c = .ok n c := by
  simp [existing, EStateM.run_bind, EStateM.run_get, hn]

theorem run_existingOf {tag : NodeKind.Tag} (h : c.ofTag? tag id = some n) :
    (existingOf tag id).run c = .ok n c := by
  obtain ⟨hn, htag⟩ := ofTag?_eq_some.mp h
  simp only [existingOf, EStateM.run_bind, run_existing hn, run_require (beq_iff_eq.mpr htag),
    EStateM.run_pure]

theorem run_existingOf_of_none {tag : NodeKind.Tag} (h : c.ofTag? tag id = none) :
    ∃ e, (existingOf tag id).run c = .error e c := by
  have hlooks := looks_existingOf tag id c
  unfold Looks Ends at hlooks
  cases hrun : (existingOf tag id).run c with
  | ok n after =>
    rw [hrun] at hlooks
    rw [ofTag?_eq_some.mpr hlooks.2] at h
    cases h
  | error e after =>
    rw [hrun] at hlooks
    exact ⟨e, by rw [hlooks]⟩

theorem run_requireSource_of_foreign {src : NodeId} (h : ¬ c.Inside (some src)) (node : NodeId)
    (pos : Nat) : (requireSource node pos (some src)).run c =
      .error (.invalidSource node pos (.foreign src c.name)) c := by
  have hout : c.nodes.contains src = false := by
    simpa [Inside, Table.contains, size] using h
  simp only [requireSource, EStateM.run_bind, EStateM.run_get, hout]
  rfl

theorem run_connect_of_inside {pos : Nat} {src : Option NodeId} (hn : c.node? id = some n)
    (hpos : pos < n.kind.maxSources) (hsrc : c.Inside src) :
    (connect id pos src).run c = .ok () (c.modifyNode id (·.setSource pos src)) := by
  simp only [connect, EStateM.run_bind, run_existing hn, run_require (decide_eq_true hpos),
    run_requireSource hsrc, EStateM.run_modify]

theorem run_connect_of_foreign {pos : Nat} {src : NodeId} (hn : c.node? id = some n)
    (hpos : pos < n.kind.maxSources) (hsrc : ¬ c.Inside (some src)) :
    (connect id pos (some src)).run c =
      .error (.invalidSource id pos (.foreign src c.name)) c := by
  simp only [connect, EStateM.run_bind, run_existing hn, run_require (decide_eq_true hpos),
    run_requireSource_of_foreign hsrc]

/-- Connects sources of a node from position `pos` on, one after the other. -/
def connectFrom (id : NodeId) : Nat → List (Option NodeId) → Build Unit
  | _, [] => pure ()
  | pos, src :: rest => do
    connect id pos src
    connectFrom id (pos + 1) rest

theorem connectMemory_eq (id : NodeId) (ports : MemoryPorts) : connectMemory id ports = (do
    let _ ← existingOf .memory id
    connectFrom id 0 ports.sources) := by
  simp only [connectMemory, MemoryPorts.sources, connectFrom, bind_pure_unit]

theorem run_connectFrom_append (hn : c.node? id = some n) (first : List (Option NodeId))
    {good : List (Option NodeId)} (hgood : ∀ src ∈ good, c.Inside src) (more : List (Option NodeId))
    (hroom : first.length + good.length ≤ n.kind.maxSources) :
    (connectFrom id first.length (good ++ more)).run (c.replug id first) =
      (connectFrom id (first ++ good).length more).run (c.replug id (first ++ good)) := by
  induction good generalizing first with
  | nil => rw [List.nil_append, List.append_nil]
  | cons src rest ih =>
    rw [List.length_cons] at hroom
    have hrest := ih (first ++ [src])
      (fun other hother => hgood other (List.mem_cons_of_mem src hother))
      (by rw [List.length_append, List.length_singleton]; omega)
    rw [List.length_append, List.length_singleton, List.append_assoc, List.singleton_append] at hrest
    rw [List.cons_append, connectFrom, EStateM.run_bind,
      run_connect_of_inside (node?_replug hn first) (Nat.lt_of_lt_of_le (by omega) hroom)
        (inside_replug.mpr (hgood src List.mem_cons_self)), replug_concat]
    exact hrest

/-- The ports of a memory are connected as far as they are in the circuit. If not all of them are, the
call fails, and names the first one that is not. -/
theorem run_connectMemory (hn : c.ofTag? .memory id = some n) (ports : MemoryPorts) :
    (c.reached ports = ports.sources ∧
      (connectMemory id ports).run c = .ok () (c.replug id (c.reached ports))) ∨
    ∃ foreign, ports.sources[(c.reached ports).length]? = some (some foreign) ∧
      (connectMemory id ports).run c =
        .error (.invalidSource id (c.reached ports).length (.foreign foreign c.name))
          (c.replug id (c.reached ports)) := by
  obtain ⟨hnode, htag⟩ := ofTag?_eq_some.mp hn
  have hmax := NodeKind.maxSources_of_memory htag
  have hsplit : c.reached ports ++ ports.sources.dropWhile c.holdsSource = ports.sources :=
    List.takeWhile_append_dropWhile
  have hlength := congrArg List.length hsplit
  rw [List.length_append, ports.length_sources] at hlength
  have hgood : ∀ src ∈ c.reached ports, c.Inside src := fun src hsrc =>
    holdsSource_iff.mp (List.all_eq_true.mp List.all_takeWhile src hsrc)
  -- up to the first foreign port nothing fails, so the call goes on from there
  have hrun : (connectMemory id ports).run c =
      (connectFrom id (c.reached ports).length (ports.sources.dropWhile c.holdsSource)).run
        (c.replug id (c.reached ports)) := by
    have happend := run_connectFrom_append hnode [] hgood (ports.sources.dropWhile c.holdsSource)
      (by rw [List.length_nil]; omega)
    rw [hsplit, replug_nil] at happend
    rw [connectMemory_eq, EStateM.run_bind, run_existingOf hn]
    exact happend
  rw [hrun]
  cases hrest : ports.sources.dropWhile c.holdsSource with
  | nil =>
    rw [hrest, List.append_nil] at hsplit
    exact .inl ⟨hsplit, rfl⟩
  | cons src more =>
    have hout : c.holdsSource src = false := by
      have hhead := List.head?_dropWhile_not c.holdsSource ports.sources
      rw [hrest] at hhead
      exact hhead
    cases src with
    | none => cases hout
    | some foreign =>
      -- connecting the ports before it has brought no node into the circuit
      have hforeign : ¬ (c.replug id (c.reached ports)).Inside (some foreign) := by
        rw [inside_replug, ← holdsSource_iff, hout]
        exact Bool.false_ne_true
      rw [hrest, List.length_cons] at hlength
      refine .inr ⟨foreign, ?_, ?_⟩
      · rw [← hsplit, hrest, List.getElem?_append_right (Nat.le_refl _), Nat.sub_self]
        rfl
      · rw [connectFrom, EStateM.run_bind,
          run_connect_of_foreign (node?_replug hnode _) (by rw [hmax]; omega) hforeign]
        rfl

theorem run_connectMemory_of_none (h : c.ofTag? .memory id = none) (ports : MemoryPorts) :
    ∃ e, (connectMemory id ports).run c = .error e c := by
  obtain ⟨e, he⟩ := run_existingOf_of_none h
  exact ⟨e, by rw [connectMemory_eq, EStateM.run_bind, he]⟩

/-- A call that connects a memory succeeds if the memory and all that it is connected to are there, and
then its sources are the ports of the record and nothing else has changed. A call that fails leaves the
circuit as it was exactly if the ports before the first one that is missing were connected so before. -/
theorem memory_connected_up_to_first_foreign (h : c.Reachable) (id : NodeId) (ports : MemoryPorts) :
    ((∃ after, (connectMemory id ports).run c = .ok () after) ↔
      (∃ n, c.ofTag? .memory id = some n) ∧ ∀ src ∈ ports.sources, c.Inside src) ∧
    (∀ after, (connectMemory id ports).run c = .ok () after →
      after = c.modifyNode id fun n => { n with sources := ports.sources }) ∧
    ∀ e after, (connectMemory id ports).run c = .error e after →
      (after = c ↔ ∀ n, c.ofTag? .memory id = some n → c.reached ports <+: n.sources) := by
  cases hn : c.ofTag? .memory id with
  | none =>
    obtain ⟨e, he⟩ := run_connectMemory_of_none hn ports
    rw [he]
    refine ⟨⟨?_, ?_⟩, ?_, ?_⟩
    · rintro ⟨_, ⟨⟩⟩
    · rintro ⟨⟨_, ⟨⟩⟩, -⟩
    · rintro _ ⟨⟩
    · rintro _ _ ⟨⟩
      exact ⟨fun _ m hm => absurd hm.symm (Option.some_ne_none m), fun _ => rfl⟩
  | some n =>
    rw [← reached_eq_sources]
    rcases run_connectMemory hn ports with ⟨hall, hrun⟩ | ⟨foreign, hforeign, hrun⟩
    · rw [hrun]
      refine ⟨⟨fun _ => ⟨⟨n, rfl⟩, hall⟩, fun _ => ⟨_, rfl⟩⟩, ?_, ?_⟩
      · rintro _ ⟨⟩
        rw [hall, h.wellFormed.replug_memory hn]
      · rintro _ _ ⟨⟩
    · rw [hrun]
      refine ⟨⟨?_, ?_⟩, ?_, ?_⟩
      · rintro ⟨_, ⟨⟩⟩
      · rintro ⟨-, hall⟩
        rw [hall, List.getElem?_eq_none (Nat.le_refl _)] at hforeign
        cases hforeign
      · rintro _ ⟨⟩
      · rintro _ _ ⟨⟩
        rw [replug_eq_self (ofTag?_eq_some.mp hn).1]
        exact ⟨fun hprefix m hm => Option.some.inj hm ▸ hprefix, fun hprefix => hprefix n rfl⟩

/-- A bit, and a memory of two bytes. -/
def bank : Circuit := .ofCalls [.literal (.ofNat 1 1) "a" .unknown, .memory 8 2 [] "m" .unknown]

theorem bank_reachable : bank.Reachable := reachableBy_ofCalls fun _ _ => trivial

theorem bank_memory : ∃ n, bank.ofTag? .memory ⟨1⟩ = some n ∧ n.sources = [none, none, none, none] := by
  have hsources : (bank.ofTag? .memory ⟨1⟩).map (·.sources) = some [none, none, none, none] := by
    decide
  exact Option.map_eq_some_iff.mp hsources

/-- The bit is connected to three ports. It is connected to none if the first port is to be a node that
is not there. -/
theorem bank_connected :
    bank.Reachable ∧
      (∃ after, (connectMemory ⟨1⟩ ⟨some ⟨0⟩, some ⟨0⟩, none, some ⟨0⟩⟩).run bank = .ok () after ∧
        after = bank.modifyNode ⟨1⟩
          fun n => { n with sources := [some ⟨0⟩, some ⟨0⟩, none, some ⟨0⟩] }) ∧
      ∀ e after, (connectMemory ⟨1⟩ ⟨some ⟨9⟩, some ⟨0⟩, none, none⟩).run bank = .error e after →
        after = bank := by
  obtain ⟨n, hn, -⟩ := bank_memory
  have hinside : ∀ src ∈ [some ⟨0⟩, some ⟨0⟩, none, some ⟨0⟩], bank.Inside src := by
    simp only [← holdsSource_iff]
    decide
  have hall := memory_connected_up_to_first_foreign bank_reachable ⟨1⟩
    ⟨some ⟨0⟩, some ⟨0⟩, none, some ⟨0⟩⟩
  have hnone := memory_connected_up_to_first_foreign bank_reachable ⟨1⟩
    ⟨some ⟨9⟩, some ⟨0⟩, none, none⟩
  obtain ⟨after, hafter⟩ := hall.1.mpr ⟨⟨n, hn⟩, hinside⟩
  exact ⟨bank_reachable, ⟨after, hafter, hall.2.1 after hafter⟩,
    fun e after herror => (hnone.2.2 e after herror).mpr fun _ _ => List.nil_prefix⟩

/-- The node for the write address is not there, but the read address is connected by then. -/
theorem bank_changed_by_failure :
    bank.Reachable ∧ ∃ e after,
      (connectMemory ⟨1⟩ ⟨some ⟨0⟩, some ⟨9⟩, none, none⟩).run bank = .error e after ∧
        after ≠ bank := by
  obtain ⟨n, hn, hsources⟩ := bank_memory
  have hreached : bank.reached ⟨some ⟨0⟩, some ⟨9⟩, none, none⟩ = [some ⟨0⟩] := by decide
  refine ⟨bank_reachable, ?_⟩
  rcases run_connectMemory hn ⟨some ⟨0⟩, some ⟨9⟩, none, none⟩ with ⟨hall, -⟩ | ⟨foreign, -, hrun⟩
  · rw [hreached] at hall
    cases hall
  · refine ⟨_, _, hrun, fun hsame => ?_⟩
    rw [replug_eq_self (ofTag?_eq_some.mp hn).1, hreached, hsources] at hsame
    simp at hsame

end Build

end Netlist
