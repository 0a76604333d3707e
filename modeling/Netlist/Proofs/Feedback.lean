import Netlist.Proofs.Growth
import Netlist.Proofs.LockStep

namespace Netlist

namespace NodeKind

theorem crossesClock_of_register {kind : NodeKind} (h : kind.tag = .register) :
    kind.crossesClock 1 = true := by
  cases kind with
  | register => rfl
  | _ => cases h

theorem crossesClock_of_memory {kind : NodeKind} (h : kind.tag = .memory) {pos : Nat}
    (hpos : pos ≠ 0) : kind.crossesClock pos = true := by
  cases kind with
  | memory => exact bne_iff_ne.mpr hpos
  | _ => cases h

end NodeKind

namespace Node

theorem dependencies_append_none (n : Node) (sources : List (Option NodeId)) (count : Nat) :
    { n with sources := sources ++ List.replicate count none }.dependencies =
      { n with sources }.dependencies := by
  have hnone (start : Nat) :
      ((List.replicate count none).zipIdx start).filterMap
        (fun entry : Option NodeId × Nat => entry.1.map (entry.2, ·)) = [] := by
    induction count generalizing start with
    | zero => rfl
    | succ count ih => simpa [List.replicate_succ] using ih (start + 1)
  simp only [dependencies, connected, List.zipIdx_append, List.filterMap_append]
  rw [hnone, List.append_nil]

theorem dependencies_replace (n : Node) {before after : List (Option NodeId)}
    (h : n.kind.crossesClock before.length = true) (old new : Option NodeId) :
    { n with sources := before ++ new :: after }.dependencies =
      { n with sources := before ++ old :: after }.dependencies := by
  have hleft (src : Option NodeId) :
      { n with sources := before ++ src :: after }.dependencies =
        { n with sources := before ++ none :: after }.dependencies := by
    cases src <;> simp [dependencies, connected, List.zipIdx_append, h]
  rw [hleft new, hleft old]

theorem dependencies_setSource {n : Node} {pos : Nat} (h : n.kind.crossesClock pos = true)
    (src : Option NodeId) : (n.setSource pos src).dependencies = n.dependencies := by
  let padded := n.sources ++ List.replicate (pos + 1 - n.sources.length) none
  have hpos : pos < padded.length := by
    simp only [padded, List.length_append, List.length_replicate]
    omega
  have hlength : (padded.take pos).length = pos := List.length_take_of_le (Nat.le_of_lt hpos)
  have hset : padded.set pos src = padded.take pos ++ src :: padded.drop (pos + 1) := by
    rw [List.set_eq_take_append_cons_drop, if_pos hpos]
  calc (n.setSource pos src).dependencies
    _ = { n with sources := padded.take pos ++ src :: padded.drop (pos + 1) }.dependencies := by
      rw [← hset]
      rfl
    _ = { n with sources := padded.take pos ++ padded[pos] :: padded.drop (pos + 1) }.dependencies :=
      dependencies_replace n (by rwa [hlength]) padded[pos] src
    _ = { n with sources := padded }.dependencies := by
      rw [List.getElem_cons_drop, List.take_append_drop]
    _ = n.dependencies := dependencies_append_none n n.sources _

end Node

namespace Circuit

variable {c d : Circuit}

/-- The call replaces the next value of a register, what a memory writes, or the note on what drives an
input. -/
inductive FeedsBack (c : Circuit) : Call → Prop
  | next (register next : NodeId) : FeedsBack c (.connectNext register next)
  | register {id : NodeId} {n : Node} (hn : c.ofTag? .register id = some n) (src : Option NodeId) :
      FeedsBack c (.connect id 1 src)
  | memory {id : NodeId} {n : Node} {pos : Nat} (hn : c.ofTag? .memory id = some n)
      (hpos : pos = 1 ∨ pos = 2 ∨ pos = 3) (src : Option NodeId) : FeedsBack c (.connect id pos src)
  | driver (input driver : NodeId) : FeedsBack c (.noteDriver input driver)

theorem grows_setSource {id : NodeId} {n : Node} {pos : Nat} (hn : c.node? id = some n)
    (hpos : n.kind.crossesClock pos = true) (src : Option NodeId) :
    c.Grows 0 (c.modifyNode id (·.setSource pos src)) :=
  grows_modifyNode hn (Node.dependencies_setSource hpos src) rfl

theorem ends_connect_of_crossesClock {id : NodeId} {n : Node} {pos : Nat} (hn : c.node? id = some n)
    (hpos : n.kind.crossesClock pos = true) (src : Option NodeId) :
    (Call.connect id pos src).step.Ends c fun _ after => c.Grows 0 after := by
  refine Build.ends_map ((Build.ends_connect id pos src c).mono ?_)
  rintro _ _ ⟨-, -, -, -, rfl⟩
  exact grows_setSource hn hpos src

theorem FeedsBack.ends_grows {call : Call} (h : c.FeedsBack call) :
    call.step.Ends c fun _ after => c.Grows 0 after := by
  cases h with
  | next register next =>
    refine Build.ends_map ((Build.ends_connectNext register next c).mono ?_)
    rintro _ _ ⟨n, hn, -, -, rfl⟩
    obtain ⟨hn, htag⟩ := ofTag?_eq_some.mp hn
    exact grows_setSource hn (NodeKind.crossesClock_of_register htag) (some next)
  | register hn src =>
    obtain ⟨hn, htag⟩ := ofTag?_eq_some.mp hn
    exact ends_connect_of_crossesClock hn (NodeKind.crossesClock_of_register htag) src
  | memory hn hpos src =>
    obtain ⟨hn, htag⟩ := ofTag?_eq_some.mp hn
    exact ends_connect_of_crossesClock hn (NodeKind.crossesClock_of_memory htag (by omega)) src
  | driver input driver => exact Call.ends_grows (.noteDriver input driver) rfl c

theorem Grows.dependencies_eq_self (h : c.Grows 0 d) (id : NodeId) :
    d.dependencies id = c.dependencies id := by
  by_cases hid : id.index < c.size
  · exact h.dependencies_eq hid
  · have hnone {e : Circuit} (hout : ¬ id.index < e.size) : e.dependencies id = [] := by
      rw [← mem_ids, ← node?_isSome, Bool.not_eq_true, Option.isSome_eq_false_iff,
        Option.isNone_iff_eq_none] at hout
      rw [dependencies, hout]
      rfl
    rw [hnone hid, hnone (by rwa [h.size_eq])]

/-- Nothing new means that the searches go in lock step, to the same order or the same cycle. -/
theorem Grows.order_eq_self (h : c.Grows 0 d) (hc : c.WellFormed) (hd : d.WellFormed) :
    d.order = c.order := by
  unfold Circuit.order
  rw [search_eq_of_dependencies hc hd h.size_eq h.dependencies_eq_self]
  cases hsearch : c.search with
  | ok order => rfl
  | error cycle => simp only [Except.mapError, h.map_nameOf hc hsearch]

theorem Changes.name_eq {typed : Prop} (h : c.Changes typed d) : d.name = c.name := by
  induction h with
  | refl => rfl
  | tail _ hstep ih => cases hstep <;> exact ih

/-- Whatever a register takes on next, whatever a memory writes and whatever is noted to drive an input:
to replace it leaves the order of evaluation as it is, or the cycle that is found instead, and with it
what is reported. -/
theorem feedback_keeps_order {call : Call} {made : Option NodeId} (h : c.Reachable)
    (hcall : c.FeedsBack call) (hrun : call.step.run c = .ok made d) :
    d.order = c.order ∧ d.orderLogged = c.orderLogged := by
  have happly : call.apply c = d := by rw [Call.apply, Build.after, hrun]
  have hd : d.Reachable := happly ▸ h.call call trivial
  have hname : d.name = c.name := (happly ▸ call.changes c).name_eq
  have horder : d.order = c.order :=
    (hcall.ends_grows.of_run hrun).order_eq_self h.wellFormed hd.wellFormed
  exact ⟨horder, by rw [orderLogged, orderLogged, horder, hname]⟩

/-- A register that feeds itself while the adder is a cycle, one that the memory feeds, a memory with a
port left open, and an input noted to be driven by what reads the register. -/
theorem woven_feedback_keeps_order :
    (ofCalls (shortedCalls ++ [.connectNext ⟨1⟩ ⟨1⟩])).order =
        .error (.combinationalCycle [(⟨2⟩, "sum")]) ∧
      (ofCalls (wovenCalls ++ [.connect ⟨1⟩ 1 (some ⟨2⟩)])).order = .ok [⟨0⟩, ⟨1⟩, ⟨4⟩, ⟨2⟩, ⟨3⟩] ∧
      (ofCalls (wovenCalls ++ [.connect ⟨2⟩ 3 none])).order = .ok [⟨0⟩, ⟨1⟩, ⟨4⟩, ⟨2⟩, ⟨3⟩] ∧
      (ofCalls (wovenCalls ++ [.input 2 "a" .unknown, .noteDriver ⟨5⟩ ⟨3⟩])).order =
        .ok [⟨0⟩, ⟨1⟩, ⟨4⟩, ⟨2⟩, ⟨3⟩, ⟨5⟩, ⟨6⟩] := by
  have hreachable (calls : List Call) : (ofCalls calls).Reachable :=
    reachableBy_ofCalls fun _ _ => trivial
  have hregister : ((ofCalls wovenCalls).ofTag? .register ⟨1⟩).isSome := by decide
  have hmemory : ((ofCalls wovenCalls).ofTag? .memory ⟨2⟩).isSome := by decide
  obtain ⟨r, hr⟩ := Option.isSome_iff_exists.mp hregister
  obtain ⟨m, hm⟩ := Option.isSome_iff_exists.mp hmemory
  have hlooped : (Call.connectNext ⟨1⟩ ⟨1⟩).step.run (ofCalls shortedCalls) =
      .ok none (ofCalls (shortedCalls ++ [.connectNext ⟨1⟩ ⟨1⟩])) := by rfl
  have hcrossed : (Call.connect ⟨1⟩ 1 (some ⟨2⟩)).step.run (ofCalls wovenCalls) =
      .ok none (ofCalls (wovenCalls ++ [.connect ⟨1⟩ 1 (some ⟨2⟩)])) := by rfl
  have hleftOpen : (Call.connect ⟨2⟩ 3 none).step.run (ofCalls wovenCalls) =
      .ok none (ofCalls (wovenCalls ++ [.connect ⟨2⟩ 3 none])) := by rfl
  have hnoted : (Call.noteDriver ⟨5⟩ ⟨3⟩).step.run (ofCalls (wovenCalls ++ [.input 2 "a" .unknown])) =
      .ok none (ofCalls (wovenCalls ++ [.input 2 "a" .unknown, .noteDriver ⟨5⟩ ⟨3⟩])) := by rfl
  refine ⟨?_, ?_, ?_, ?_⟩
  · rw [(feedback_keeps_order (hreachable _) (.next ⟨1⟩ ⟨1⟩) hlooped).1]
    decide
  · rw [(feedback_keeps_order (hreachable _) (.register hr (some ⟨2⟩)) hcrossed).1]
    decide
  · rw [(feedback_keeps_order (hreachable _) (.memory hm (by decide) none) hleftOpen).1]
    decide
  · rw [(feedback_keeps_order (hreachable _) (.driver ⟨5⟩ ⟨3⟩) hnoted).1]
    decide

end Circuit

end Netlist
