import Netlist.Proofs.OperandWidths

namespace Netlist

namespace NodeKind

/-- Whether an output that is fed by a node of this kind can be driven only through a proxy: the node is
one, or it takes no source. -/
def Tag.feedsSafely : Tag → Bool
  | proxy | literal | input => true
  | output | register | operation | memory => false

variable {kind : NodeKind}

theorem maxSources_pos (h : kind.tag.feedsSafely = false) : 0 < kind.maxSources := by
  cases kind with
  | literal | input | proxy => cases h
  | output | register | memory => simp [maxSources]
  | operation op signed =>
    simp only [maxSources, Opcode.arity]
    split <;> omega

theorem eq_proxy (h : kind.tag.feedsSafely = true) (hpos : 0 < kind.maxSources) : kind = .proxy := by
  cases kind with
  | proxy => rfl
  | literal | input => cases hpos
  | output | register | operation | memory => cases h

theorem tag_eq_output : kind.tag = .output ↔ kind = .output := by
  cases kind <;> simp [tag]

end NodeKind

namespace Circuit

variable {c d : Circuit} {id feed driver : NodeId} {n : Node}

section Frame

def sourceAt? (c : Circuit) (id : NodeId) (pos : Nat) : Option NodeId :=
  (c.node? id).bind (·.source? pos)

/-- The circuits differ at most in source 0 of node `id`, which is `src` in the second one. -/
structure Rewired (c d : Circuit) (id src : NodeId) : Prop where
  source : d.sourceAt? id 0 = some src
  slots : ∀ {other pos}, (other, pos) ≠ (id, 0) → d.sourceAt? other pos = c.sourceAt? other pos
  nodes : ∀ {other}, other ≠ id → d.node? other = c.node? other
  payload : ∃ n sources, c.node? id = some n ∧ d.node? id = some { n with sources }
  rest : d = { c with nodes := d.nodes }

/-- Output `id` is fed by node `feed`, and the circuits differ at most in source 0 of that node, which
is `driver` in the second one. -/
structure Drives (c d : Circuit) (id driver feed : NodeId) (n : Node) : Prop where
  fed : ∃ port, c.node? id = some port ∧ port.kind = .output ∧ port.source? 0 = some feed
  node : c.node? feed = some n
  rewired : c.Rewired d feed driver

theorem node?_setSource (hn : c.node? id = some n) (pos : Nat) (src : Option NodeId) :
    (c.modifyNode id (·.setSource pos src)).node? id = some (n.setSource pos src) := by
  rw [node?_modifyNode, if_pos rfl, hn, Option.map_some]

theorem rewired_setSource (hn : c.node? id = some n) (src : NodeId) :
    c.Rewired (c.modifyNode id (·.setSource 0 (some src))) id src := by
  have hid := node?_setSource hn 0 (some src)
  have hother {other : NodeId} (h : other ≠ id) :
      (c.modifyNode id (·.setSource 0 (some src))).node? other = c.node? other := by
    rw [node?_modifyNode, if_neg h.symm]
  refine ⟨?_, fun {other pos} hslot => ?_, hother, ⟨n, _, hn, hid⟩, rfl⟩
  · rw [sourceAt?, hid, Option.bind_some, Node.source?_setSource, if_pos rfl]
  · by_cases h : other = id
    · subst h
      have hpos : pos ≠ 0 := fun hzero => hslot (by rw [hzero])
      rw [sourceAt?, sourceAt?, hid, hn, Option.bind_some, Option.bind_some, Node.source?_setSource,
        if_neg hpos]
    · rw [sourceAt?, sourceAt?, hother h]

theorem outputProxy?_eq_some : c.outputProxy? id = some feed ↔
    ∃ port, c.node? id = some port ∧ port.kind = .output ∧ port.source? 0 = some feed := by
  simp only [outputProxy?, Option.bind_eq_some_iff, ofTag?_eq_some, NodeKind.tag_eq_output, and_assoc]

theorem drives_of_run (hrun : (Build.drive id driver).run c = .ok () d) :
    ∃ feed n, c.Drives d id driver feed n ∧ 0 < n.kind.maxSources := by
  obtain ⟨feed, n, hfeed, hn, hpos, -, rfl⟩ := (Build.ends_drive id driver c).of_run hrun
  exact ⟨feed, n, ⟨outputProxy?_eq_some.mp hfeed, hn, rewired_setSource hn driver⟩, hpos⟩

/-- An output that is fed by a node which takes sources can be driven, if by nothing else then by
itself. -/
theorem exists_run_drive (hfeed : c.outputProxy? id = some feed) (hn : c.node? feed = some n)
    (hpos : 0 < n.kind.maxSources) : ∃ d, (Build.drive id id).run c = .ok () d := by
  obtain ⟨port, hport, -⟩ := outputProxy?_eq_some.mp hfeed
  have hinside : c.Inside (some id) := by
    rintro _ ⟨⟩
    exact lt_size_of_node? hport
  exact ⟨_, (Build.run_drive hfeed id).trans (Build.run_connect_of_inside hn hpos hinside)⟩

end Frame

theorem tagOf?_setSource (c : Circuit) (id : NodeId) (pos : Nat) (src : Option NodeId)
    (other : NodeId) : (c.modifyNode id (·.setSource pos src)).tagOf? other = c.tagOf? other := by
  rw [tagOf?, tagOf?, node?_modifyNode]
  split
  · rw [Option.map_map]
    rfl
  · rfl

/-- Every output that is fed is fed by a proxy or by a node that takes no source. -/
def SafelyFed (c : Circuit) : Prop :=
  ∀ id feed tag, c.outputProxy? id = some feed → c.tagOf? feed = some tag → tag.feedsSafely = true

/-- Driving outputs changes proxies alone exactly if all outputs are safely fed. -/
theorem drives_proxies_iff_safelyFed : (∀ id driver d, (Build.drive id driver).run c = .ok () d →
    ∃ feed n, c.Drives d id driver feed n ∧ n.kind = .proxy) ↔ c.SafelyFed := by
  constructor
  · intro hall id feed tag hfeed htag
    by_contra hmisfeeding
    obtain ⟨n, hn, rfl⟩ := Option.map_eq_some_iff.mp htag
    have hpos := NodeKind.maxSources_pos (Bool.not_eq_true _ ▸ hmisfeeding)
    obtain ⟨d, hrun⟩ := exists_run_drive hfeed hn hpos
    obtain ⟨feed', m, hdrives, hproxy⟩ := hall id id d hrun
    cases hfeed.symm.trans (outputProxy?_eq_some.mpr hdrives.fed)
    cases hn.symm.trans hdrives.node
    rw [hproxy] at hmisfeeding
    exact hmisfeeding rfl
  · intro hsafe id driver d hrun
    obtain ⟨feed, n, hdrives, hpos⟩ := drives_of_run hrun
    have hfeeds := hsafe id feed _ (outputProxy?_eq_some.mpr hdrives.fed) (tagOf?_eq hdrives.node)
    exact ⟨feed, n, hdrives, NodeKind.eq_proxy hfeeds hpos⟩

theorem safelyFed_empty (name : String) (config : Config) : SafelyFed { name, config } := by
  rintro _ _ _ _ ⟨⟩

theorem SafelyFed.spares (h : c.SafelyFed) (hc : c.WellFormed) (hd : c.Spares .output d) :
    d.SafelyFed := by
  intro id feed tag hfeed htag
  obtain ⟨port, hport, hkind, hsource⟩ := outputProxy?_eq_some.mp hfeed
  have hold := hd.node hport (NodeKind.tag_eq_output.mpr hkind)
  rw [hd.tagOf?_eq (hc.inside_of_source? hold hsource)] at htag
  exact h id feed tag (outputProxy?_eq_some.mpr ⟨port, hold, hkind, hsource⟩) htag

theorem SafelyFed.addOutput (h : c.SafelyFed) (hc : c.WellFormed) {width : Nat} (hwidth : width ≠ 0)
    (hroom : c.hasRoom 2 = true) (name : String) (loc : Location) :
    (c.addOutput width name loc).SafelyFed := by
  let fed := c.add .proxy width [none] name loc
  have hfed : fed.SafelyFed := h.spares hc (spares_add c .proxy (by decide) width [none] name loc)
  have hfedc : fed.WellFormed := hc.add (admits_feed hwidth hroom) name loc
  have hproxy : (c.addOutput width name loc).tagOf? c.nodes.nextId = some .proxy := by
    simp [Circuit.addOutput, tagOf?, node?_add, nextId_eq (hasRoom_one hroom), NodeKind.tag]
  intro id feed tag hfeed htag
  obtain ⟨port, hport, hkind, hsource⟩ := outputProxy?_eq_some.mp hfeed
  rw [Circuit.addOutput, node?_add] at hport
  split at hport
  · cases hport
    cases hsource
    cases hproxy.symm.trans htag
    rfl
  · have hinside := hfedc.inside_of_source? hport hsource
    rw [tagOf?, Circuit.addOutput, node?_add, if_neg (Nat.ne_of_lt hinside)] at htag
    exact hfed id feed tag (outputProxy?_eq_some.mpr ⟨port, hport, hkind, hsource⟩) htag

/-- Whether `id` is an output and `src` a node that does not feed it safely. -/
def misfed (c : Circuit) (id : NodeId) (src : Option NodeId) : Bool :=
  (c.ofTag? .output id).isSome && (src.bind c.tagOf?).any fun tag => !tag.feedsSafely

theorem misfed_iff {src : Option NodeId} : c.misfed id src = true ↔
    ∃ port s tag, c.ofTag? .output id = some port ∧ src = some s ∧ c.tagOf? s = some tag ∧
      tag.feedsSafely = false := by
  simp only [misfed, Bool.and_eq_true, Option.isSome_iff_exists, Option.any_eq_true,
    Option.bind_eq_some_iff, Bool.not_eq_true']
  constructor
  · rintro ⟨⟨port, hport⟩, tag, ⟨s, hs, htag⟩, hmisfeeding⟩
    exact ⟨port, s, tag, hport, hs, htag, hmisfeeding⟩
  · rintro ⟨port, s, tag, hport, hs, htag, hmisfeeding⟩
    exact ⟨⟨port, hport⟩, tag, ⟨s, hs, htag⟩, hmisfeeding⟩

/-- A source that is replaced keeps the outputs safely fed unless it is that of an output, and what it is
replaced by does not feed safely. -/
theorem SafelyFed.setSource_iff (h : c.SafelyFed) {pos : Nat} (hn : c.node? id = some n)
    (hpos : pos < n.kind.maxSources) (src : Option NodeId) :
    (c.modifyNode id (·.setSource pos src)).SafelyFed ↔ (pos == 0 && c.misfed id src) = false := by
  have hself := node?_setSource hn pos src
  have hsource : (n.setSource pos src).source? pos = src := by
    rw [Node.source?_setSource, if_pos rfl]
  constructor
  · intro hafter
    by_contra hmisfed
    rw [Bool.not_eq_false, Bool.and_eq_true, beq_iff_eq] at hmisfed
    obtain ⟨rfl, hmisfed⟩ := hmisfed
    obtain ⟨port, s, tag, hport, rfl, htag, hmisfeeding⟩ := misfed_iff.mp hmisfed
    obtain ⟨hport, hoption⟩ := ofTag?_eq_some.mp hport
    cases hn.symm.trans hport
    have hfeed := outputProxy?_eq_some.mpr ⟨_, hself, NodeKind.tag_eq_output.mp hoption, hsource⟩
    have hsafe := hafter id s tag hfeed (by rw [tagOf?_setSource, htag])
    rw [hmisfeeding] at hsafe
    cases hsafe
  · intro hsafe other feed tag hfeed htag
    rw [tagOf?_setSource] at htag
    obtain ⟨port, hport, hkind, hfed⟩ := outputProxy?_eq_some.mp hfeed
    by_cases hid : other = id
    · subst hid
      cases hself.symm.trans hport
      -- an output has only one source to replace
      obtain rfl : pos = 0 := by
        rw [show n.kind = .output from hkind] at hpos
        exact Nat.lt_one_iff.mp hpos
      by_contra hmisfeeding
      have hmisfed : c.misfed other src = true :=
        misfed_iff.mpr ⟨n, feed, tag, ofTag?_eq_some.mpr ⟨hn, NodeKind.tag_eq_output.mpr hkind⟩,
          hsource.symm.trans hfed, htag, by simpa using hmisfeeding⟩
      rw [hmisfed] at hsafe
      cases hsafe
    · rw [node?_modifyNode, if_neg (Ne.symm hid)] at hport
      exact h other feed tag (outputProxy?_eq_some.mpr ⟨port, hport, hkind, hfed⟩) htag

/-- A connection by which an output is not safely fed is made all the same. -/
theorem safelyFed_connect (h : c.SafelyFed) (id : NodeId) (pos : Nat) (src : Option NodeId) :
    (Build.after (Build.connect id pos src) c).SafelyFed ↔
      (pos == 0 && c.misfed id src) = false := by
  obtain hsame | ⟨_, n, hn, hpos, -, hafter⟩ := (Build.ends_connect id pos src c).after_cases
  · rw [hsame]
    refine iff_of_true h ?_
    by_contra hmisfed
    obtain ⟨hzero, hid⟩ := Bool.and_eq_true_iff.mp (Bool.not_eq_false _ ▸ hmisfed)
    obtain ⟨port, s, tag, hport, rfl, htag, -⟩ := misfed_iff.mp hid
    obtain ⟨hnode, houtput⟩ := ofTag?_eq_some.mp hport
    have hpos : pos < port.kind.maxSources := by
      rw [beq_iff_eq.mp hzero, NodeKind.tag_eq_output.mp houtput]
      decide
    have hinside : c.Inside (some s) := by
      rintro _ ⟨⟩
      obtain ⟨n, hn, -⟩ := Option.map_eq_some_iff.mp htag
      exact lt_size_of_node? hn
    rw [Build.after, Build.run_connect_of_inside hnode hpos hinside] at hsame
    have hsafe := (h.setSource_iff hnode hpos (some s)).mp
    rw [show c.modifyNode id (·.setSource pos (some s)) = c from hsame] at hsafe
    exact hmisfed (hsafe h)
  · rw [hafter]
    exact h.setSource_iff hn hpos src

end Circuit

namespace Call

open Circuit

/-- Whether the call connects an output to a node that does not feed it safely. -/
def misfeeds (c : Circuit) : Call → Bool
  | connect id pos src => pos == 0 && c.misfed id src
  | _ => false

theorem safelyFed_apply {c : Circuit} (hc : c.WellFormed) (h : c.SafelyFed) {call : Call}
    (htyped : call.isTyped = true) : (call.apply c).SafelyFed ↔ call.misfeeds c = false := by
  cases call with
  | node => cases htyped
  | output width name loc =>
    refine iff_of_true ?_ rfl
    rw [apply, step, Build.after_map]
    obtain hsame | ⟨_, hwidth, hroom, hafter⟩ := (Build.ends_output width name loc c).after_cases
    · rwa [hsame]
    · rw [hafter]
      exact h.addOutput hc hwidth hroom name loc
  | connect id pos src =>
    rw [apply, step, Build.after_map]
    exact safelyFed_connect h id pos src
  | drive id driver =>
    refine iff_of_true ?_ rfl
    rw [apply, step, Build.after_map]
    obtain hsame | ⟨_, feed, n, hfeed, hn, hpos, -, hafter⟩ :=
      (Build.ends_drive id driver c).after_cases
    · rwa [hsame]
    · rw [hafter]
      have hproxy := NodeKind.eq_proxy (h id feed _ hfeed (tagOf?_eq hn)) hpos
      exact h.spares hc (spares_modifyNode hn (by rw [hproxy]; decide) rfl rfl)
  | _ => exact iff_of_true (h.spares hc (spares_apply rfl (by decide) c)) rfl

end Call

namespace Circuit

/-- Driving an output replaces source 0 of the node that feeds it and changes nothing else. Along the typed
calls on an empty circuit, that node is a proxy whenever an output can be driven, exactly if no call
connects an output to an operation, a register, a memory or an output. -/
theorem driving_changes_proxies_iff (name : String) (config : Config) {calls : List Call}
    (htyped : ∀ call ∈ calls, call.isTyped = true) :
    (∀ k id driver d,
      (Build.drive id driver).run (afterCalls { name, config } (calls.take k)) = .ok () d →
        ∃ feed n, (afterCalls { name, config } (calls.take k)).Drives d id driver feed n) ∧
    ((∀ k id driver d,
      (Build.drive id driver).run (afterCalls { name, config } (calls.take k)) = .ok () d →
        ∃ feed n, (afterCalls { name, config } (calls.take k)).Drives d id driver feed n ∧
          n.kind = .proxy) ↔
      ∀ k (call : Call), calls[k]? = some call →
        call.misfeeds (afterCalls { name, config } (calls.take k)) = false) := by
  refine ⟨fun k id driver d hrun => ?_, ?_⟩
  · obtain ⟨feed, n, hdrives, -⟩ := drives_of_run hrun
    exact ⟨feed, n, hdrives⟩
  · simp only [drives_proxies_iff_safelyFed]
    apply forall_afterCalls_iff (P := SafelyFed) (safelyFed_empty name config)
    intro k call hcall hsafe
    have hreach := (typed_afterCalls_take htyped name config k).reachable
    exact Call.safelyFed_apply hreach.wellFormed hsafe (htyped call (List.mem_of_getElem? hcall))

/-- Two constants, their sum, a proxy of the first one, and an output that is then fed by another node. -/
def refed (feed : NodeId) : List Call := [
  .literal (.ofNat 4 1) "a" .unknown, .literal (.ofNat 4 2) "b" .unknown,
  .operation { op := .add } ⟨0⟩ (some ⟨1⟩) "s" .unknown, .proxy ⟨0⟩ "p" .unknown,
  .output 4 "y" .unknown, .connect ⟨5⟩ 0 (some feed)]

theorem isTyped_refed (feed : NodeId) : ∀ call ∈ refed feed, call.isTyped = true := by
  simp [refed, Call.isTyped]

/-- The output is fed by the proxy of the constant in the end, and driven through it. -/
theorem refed_by_proxy :
    (∀ call ∈ refed ⟨3⟩, call.isTyped = true) ∧
      ∀ k id driver d, (Build.drive id driver).run (afterCalls { name := "top" } ((refed ⟨3⟩).take k)) =
        .ok () d → ∃ feed n, (afterCalls { name := "top" } ((refed ⟨3⟩).take k)).Drives d id driver feed n ∧
          n.kind = .proxy := by
  refine ⟨isTyped_refed ⟨3⟩, (driving_changes_proxies_iff "top" {} (isTyped_refed ⟨3⟩)).2.mpr ?_⟩
  have hsafe : ∀ k : Fin 6, ((refed ⟨3⟩).get k).misfeeds
      (afterCalls { name := "top" } ((refed ⟨3⟩).take k)) = false := by decide
  intro k call hcall
  obtain ⟨hk, rfl⟩ := List.getElem?_eq_some_iff.mp hcall
  exact hsafe ⟨k, hk⟩

/-- Fed by the sum, the output is driven at the cost of the sum's first operand. -/
theorem refed_by_operation :
    (∀ call ∈ refed ⟨2⟩, call.isTyped = true) ∧
      ∃ d, (Build.drive ⟨5⟩ ⟨1⟩).run (afterCalls { name := "top" } (refed ⟨2⟩)) = .ok () d ∧
        d.tagOf? ⟨2⟩ = some .operation ∧
        (afterCalls { name := "top" } (refed ⟨2⟩)).sourceAt? ⟨2⟩ 0 = some ⟨0⟩ ∧
        d.sourceAt? ⟨2⟩ 0 = some ⟨1⟩ ∧
        ¬ ∃ feed n, (afterCalls { name := "top" } (refed ⟨2⟩)).Drives d ⟨5⟩ ⟨1⟩ feed n ∧
          n.kind = .proxy := by
  refine ⟨isTyped_refed ⟨2⟩, _, rfl, by decide, by decide, by decide, ?_⟩
  rintro ⟨feed, n, hdrives, hproxy⟩
  have hfed : (afterCalls { name := "top" } (refed ⟨2⟩)).outputProxy? ⟨5⟩ = some ⟨2⟩ := by decide
  cases hfed.symm.trans (outputProxy?_eq_some.mpr hdrives.fed)
  have htag := tagOf?_eq hdrives.node
  rw [hproxy] at htag
  revert htag
  decide

end Circuit

end Netlist
