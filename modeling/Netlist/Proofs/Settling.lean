import Netlist.Proofs.StateDependence
import Netlist.Simulation.Tick

namespace Netlist

/-- A node that is never computed, and keeps what its slot holds. -/
def Node.rests (n : Node) : Bool :=
  match n.kind with
  | .literal .. | .input .. | .register .. => true
  | .output | .proxy => (n.source? 0).isNone
  | .operation .. | .memory .. => false

namespace Circuit

/-- Every node has a slot, nodes at rest show the state and inputs of the machine, and memories hold
the same words. -/
structure Agrees (c : Circuit) (m : Machine) (slots : Slots) (memories : Memories) : Prop where
  present : ∀ id, (slots.get? id).isSome = (c.node? id).isSome
  resting : ∀ {id n}, c.node? id = some n → n.rests = true →
    slots.get? id = some (m.shows id n fun _ => none)
  contents : ∀ {id n depth init clock}, c.node? id = some n → n.kind = .memory depth init clock →
    ∃ words, memories.get? id = some words ∧ words.size = depth ∧
      ∀ address < depth, words[address]? = some (m.memories id address)

variable {c : Circuit} {wf : WellFounded c.Depends} {m : Machine} {slots : Slots}
  {memories : Memories} {id : NodeId} {n : Node}

theorem value_of_rests (wf : WellFounded c.Depends) (m : Machine) (hn : c.node? id = some n)
    (h : n.rests = true) : c.value wf m id = m.shows id n fun _ => none := by
  rw [value_eq wf m hn]
  unfold Node.rests at h
  unfold Machine.shows
  cases hkind : n.kind with
  | literal => rfl
  | input => rfl
  | register => rfl
  | output => simp_all
  | proxy => simp_all
  | operation => simp [hkind] at h
  | memory => simp [hkind] at h

/-- An output shows the value of what drives it, through its proxy. -/
theorem value_port (wf : WellFounded c.Depends) (m : Machine) (port : NodeId)
    {proxy src portId proxyId : NodeId} {width : Nat} {name proxyName : String}
    {loc proxyLoc : Location}
    (hport : c.node? port = some ⟨portId, .output, width, [some proxy], name, loc⟩)
    (hproxy : c.node? proxy = some ⟨proxyId, .proxy, width, [some src], proxyName, proxyLoc⟩)
    (hwidth : (c.value wf m src).width = width) : c.value wf m port = c.value wf m src := by
  rw [value_output wf m port hport, value_proxy wf m proxy hproxy, Word.ofNat_toNat hwidth,
    Word.ofNat_toNat hwidth]

theorem read_eq {value : NodeId → Word} {source : Option NodeId}
    (h : ∀ src, source = some src → slots.get? src = some (value src)) :
    Slots.read slots source = .ok (source.map value) := by
  cases source with
  | none => rfl
  | some src => simp [Slots.read, h src rfl]

/-- A node at rest is not computed, and every other node takes its value in the machine. -/
theorem compute_eq (hc : c.WellTyped) (h : c.Agrees m slots memories) (hn : c.node? id = some n)
    (hdeps : ∀ dep, c.Depends dep id → slots.get? dep = some (c.value wf m dep)) :
    compute memories slots id n = .ok (if n.rests then none else some (c.value wf m id)) := by
  have hread (pos : Nat) (hpos : n.kind.crossesClock pos = false) :
      Slots.read slots (n.source? pos) = .ok ((n.source? pos).map (c.value wf m)) :=
    read_eq fun src hsrc => hdeps src ⟨n, pos, hn, hsrc, hpos⟩
  have hvalue := value_eq wf m hn
  -- outputs and proxies hand on what drives them, and rest if nothing does
  have hcopy (hpos : n.kind.crossesClock 0 = false)
      (hshows : c.value wf m id = (((n.source? 0).map (c.value wf m)).map fun driver =>
        Word.ofNat n.width driver.toNat).getD (.zero n.width)) :
      (do return (← Slots.read slots (n.source? 0)).map (·.resize n.width false)) =
        (.ok (if (n.source? 0).isNone then none else some (c.value wf m id)) :
          Except NodeId (Option Word)) := by
    rw [hread 0 hpos, hshows]
    cases n.source? 0 with
    | none => rfl
    | some src => simp [Word.resize_false, bind, Except.bind, pure, Except.pure]
  unfold compute Node.rests
  unfold Machine.shows at hvalue
  cases hkind : n.kind with
  | literal => rfl
  | input => rfl
  | register => rfl
  | output => exact hcopy (by rw [hkind]; rfl) (by simpa only [hkind] using hvalue)
  | proxy => exact hcopy (by rw [hkind]; rfl) (by simpa only [hkind] using hvalue)
  | operation op signed =>
    rw [hvalue]
    simp [operands, hread 0 (by rw [hkind]; rfl), hread 1 (by rw [hkind]; rfl), hkind, bind,
      Except.bind, pure, Except.pure]
  | memory depth init clock =>
    obtain ⟨words, hwords, hsize, hword⟩ := h.contents hn hkind
    have hsuits := hc.suits hn
    rw [hkind] at hsuits
    have hplace : place depth ((n.source? 0).map (c.value wf m)) < depth := by
      cases n.source? 0 with
      | none => exact hsuits.2.1
      | some src => exact Nat.mod_lt _ hsuits.2.1
    rw [hvalue]
    simp only [hread 0 (by rw [hkind]; rfl), hwords, hkind]
    simp only [bind, Except.bind, pure, Except.pure, Option.bind_some, hword _ hplace]
    rfl

theorem settle_eq (hc : c.WellTyped) (h : c.Agrees m slots memories) (hn : c.node? id = some n)
    (hdeps : ∀ dep, c.Depends dep id → slots.get? dep = some (c.value wf m dep)) :
    c.settle memories slots id = .ok (if n.rests then none else some (c.value wf m id)) := by
  have hslot : slots.contains id = true := by
    rw [SideMap.contains, h.present, hn]
    rfl
  unfold settle
  simp [hn, compute_eq hc h hn hdeps, hslot, bind, Except.bind, pure, Except.pure]

theorem settleStep_eq (mode : Mode) (hc : c.WellTyped) (h : c.Agrees m slots memories)
    (hn : c.node? id = some n)
    (hdeps : ∀ dep, c.Depends dep id → slots.get? dep = some (c.value wf m dep)) :
    ∃ after, (Simulation.settleStep c mode memories ⟨slots, []⟩ id).value = ⟨after, []⟩ ∧
      ∀ other, after.get? other = if id = other then some (c.value wf m id) else slots.get? other := by
  have hsettle := settle_eq hc h hn hdeps
  have hhalted : Simulation.halted mode.strict [] = false := by simp [Simulation.halted]
  unfold Simulation.settleStep
  cases hrests : n.rests with
  | true =>
    rw [hrests] at hsettle
    refine ⟨slots, by simp [hhalted, hsettle], fun other => ?_⟩
    split
    · next he =>
      subst he
      rw [h.resting hn hrests, value_of_rests wf m hn hrests]
    · rfl
  | false =>
    rw [hrests] at hsettle
    refine ⟨slots.insert id (c.value wf m id), by simp [hhalted, hsettle], fun other => ?_⟩
    rw [SideMap.get?_insert]

theorem Agrees.settle {after : Slots} (h : c.Agrees m slots memories) (hn : c.node? id = some n)
    (hafter : ∀ other, after.get? other =
      if id = other then some (c.value wf m id) else slots.get? other) :
    c.Agrees m after memories := by
  refine ⟨fun other => ?_, fun {other n'} hn' hrests => ?_, h.contents⟩
  · rw [hafter]
    split
    · next he =>
      rw [← he, hn]
      rfl
    · exact h.present other
  · rw [hafter]
    split
    · next he =>
      subst he
      rw [value_of_rests wf m hn' hrests]
    · exact h.resting hn' hrests

/-- A pass over nodes that are fed by what is settled, or by one another, settles all of them. -/
theorem settlePass_eq (wf : WellFounded c.Depends) (mode : Mode) (hc : c.WellTyped)
    {known : NodeId → Prop} {ids : List NodeId} (hfed : c.Fed known ids)
    (hids : ∀ id ∈ ids, id ∈ c.ids) (h : c.Agrees m slots memories)
    (hknown : ∀ id, known id → slots.get? id = some (c.value wf m id)) :
    ∃ after, (Simulation.settlePass c mode memories ids ⟨slots, []⟩).value = ⟨after, []⟩ ∧
      c.Agrees m after memories ∧
      ∀ id, known id ∨ id ∈ ids → after.get? id = some (c.value wf m id) := by
  -- what is known grows by each node that is settled, as in `Fed`
  induction ids generalizing known slots with
  | nil => exact ⟨slots, rfl, h, fun id hid => hknown id (hid.resolve_right fun h => nomatch h)⟩
  | cons first rest ih =>
    obtain ⟨n, hn⟩ := exists_node_of_mem (hids first List.mem_cons_self)
    obtain ⟨next, hstep, hnext⟩ :=
      settleStep_eq mode hc h hn fun dep hdep => hknown dep (hfed.1 dep hdep)
    have hsettled (id : NodeId) (hid : id = first ∨ known id) :
        next.get? id = some (c.value wf m id) := by
      rw [hnext]
      split
      · next he => rw [he]
      · next he => exact hknown id (hid.resolve_left (Ne.symm he))
    obtain ⟨after, hpass, hagrees, hafter⟩ :=
      ih hfed.2 (fun id hid => hids id (List.mem_cons_of_mem first hid)) (h.settle hn hnext) hsettled
    refine ⟨after, ?_, hagrees, fun id hid => hafter id ?_⟩
    · rw [← hpass]
      simp [Simulation.settlePass, hstep]
    · rwa [or_assoc, or_left_comm, ← List.mem_cons]

end Circuit

end Netlist
