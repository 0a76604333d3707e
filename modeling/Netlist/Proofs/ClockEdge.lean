import Netlist.Proofs.Settling

namespace Netlist

/-- What a simulation has for one node: its slot, and its words if it is a memory. -/
structure Cell where
  slot : Option Word
  words : Option (Array Word)

def Cell.of (state : Slots × Memories) (id : NodeId) : Cell := ⟨state.1.get? id, state.2.get? id⟩

namespace Update

def target : Update → NodeId
  | load id _ => id
  | store id _ _ => id

def apply : Update → Cell → Cell
  | load _ value, cell => { cell with slot := cell.slot.map fun _ => value }
  | store _ address data, cell => { cell with words := cell.words.map (·.setIfInBounds address data) }

theorem of_commit (state : Slots × Memories) (update : Update) (id : NodeId) :
    Cell.of (Simulation.commit state update) id =
      if update.target = id then update.apply (.of state id) else .of state id := by
  cases update with
  | load element value =>
    by_cases h : element = id <;>
      simp [Cell.of, Simulation.commit, target, apply, SideMap.get?_modify, h]
  | store element address data =>
    by_cases h : element = id <;>
      simp [Cell.of, Simulation.commit, target, apply, SideMap.get?_modify, h]

theorem of_foldl_commit (updates : List Update) (state : Slots × Memories) (id : NodeId) :
    Cell.of (updates.foldl Simulation.commit state) id =
      (updates.filter (·.target = id)).foldl (fun cell update => update.apply cell)
        (.of state id) := by
  induction updates generalizing state with
  | nil => rfl
  | cons update rest ih =>
    rw [List.foldl_cons, ih, of_commit]
    by_cases h : update.target = id
    · rw [if_pos h, List.filter_cons_of_pos (by simpa using h), List.foldl_cons]
    · rw [if_neg h, List.filter_cons_of_neg (by simpa using h)]

variable {elements : List (NodeId × Bool)} {fire : NodeId × Bool → Option Update}

theorem filter_target_of_notMem {id : NodeId}
    (htarget : ∀ element update, fire element = some update → update.target = element.1)
    (h : id ∉ elements.map Prod.fst) : (elements.filterMap fire).filter (·.target = id) = [] := by
  rw [List.filter_eq_nil_iff]
  intro update hupdate
  obtain ⟨element, helement, hfire⟩ := List.mem_filterMap.mp hupdate
  rw [htarget element update hfire, decide_eq_true_eq]
  rintro rfl
  exact h (List.mem_map_of_mem helement)

/-- An element has at most one update, its own. -/
theorem filter_target_of_mem {element : NodeId × Bool}
    (htarget : ∀ element update, fire element = some update → update.target = element.1)
    (hnodup : (elements.map Prod.fst).Nodup) (h : element ∈ elements) :
    (elements.filterMap fire).filter (·.target = element.1) = (fire element).toList := by
  induction elements with
  | nil => exact nomatch h
  | cons first rest ih =>
    obtain ⟨hnot, hnodup⟩ := List.nodup_cons.mp hnodup
    -- ids are distinct: after the element no update is its own, and none is before it
    rcases List.mem_cons.mp h with rfl | h
    · have hrest := filter_target_of_notMem htarget hnot
      cases hfire : fire element with
      | none => simpa [List.filterMap_cons, hfire] using hrest
      | some update => simpa [List.filterMap_cons, hfire, htarget element update hfire] using hrest
    · have hne : first.1 ≠ element.1 := fun he => hnot (he ▸ List.mem_map_of_mem h)
      cases hfire : fire first with
      | none => simpa [List.filterMap_cons, hfire] using ih hnodup h
      | some update =>
        simpa [List.filterMap_cons, hfire, htarget first update hfire, hne] using ih hnodup h

end Update

namespace Node

variable {n : Node} {id : NodeId} {value : NodeId → Word}

/-- What a node does at a clock edge, given the value of each node. -/
def update? (n : Node) (id : NodeId) (value : NodeId → Word) : Option Update :=
  ((n.loads value).map (.load id)).or ((n.stores value).map fun entry => .store id entry.1 entry.2)

theorem target_of_update? {update : Update} (h : n.update? id value = some update) :
    update.target = id := by
  unfold update? at h
  rcases Option.or_eq_some_iff.mp h with h | ⟨-, h⟩
  · obtain ⟨word, -, rfl⟩ := Option.map_eq_some_iff.mp h
    rfl
  · obtain ⟨entry, -, rfl⟩ := Option.map_eq_some_iff.mp h
    rfl

theorem loads_of_not_register (h : n.kind.tag ≠ .register) : n.loads value = none := by
  unfold loads
  cases hkind : n.kind with
  | register => exact absurd (by rw [hkind]; rfl) h
  | _ => rfl

theorem stores_of_not_memory (h : n.kind.tag ≠ .memory) : n.stores value = none := by
  unfold stores
  cases hkind : n.kind with
  | memory => exact absurd (by rw [hkind]; rfl) h
  | _ => rfl

theorem update?_of_register (h : n.kind.tag = .register) :
    n.update? id value = (n.loads value).map (.load id) := by
  rw [update?, stores_of_not_memory (by simp [h]), Option.map_none, Option.or_none]

theorem update?_of_memory (h : n.kind.tag = .memory) :
    n.update? id value = (n.stores value).map fun entry => .store id entry.1 entry.2 := by
  rw [update?, loads_of_not_register (by simp [h]), Option.map_none, Option.none_or]

variable (n id value)

-- a node loads or stores but never does both, so that its slot and its words change apart
theorem slot_update? (cell : Cell) : (((n.update? id value).map (·.apply cell)).getD cell).slot =
    ((n.loads value).map fun word => cell.slot.map fun _ => word).getD cell.slot := by
  unfold update?
  cases n.loads value with
  | some word => rfl
  | none => cases n.stores value <;> rfl

theorem words_update? (cell : Cell) : (((n.update? id value).map (·.apply cell)).getD cell).words =
    ((n.stores value).map fun entry =>
      cell.words.map (·.setIfInBounds entry.1 entry.2)).getD cell.words := by
  by_cases h : n.kind.tag = .memory
  · rw [update?_of_memory h]
    cases n.stores value <;> rfl
  · rw [update?, stores_of_not_memory h]
    cases n.loads value <;> rfl

end Node

namespace Machine

variable {c : Circuit} {wf : WellFounded c.Depends} {m : Machine} {id : NodeId} {n : Node}
  {operand : Nat → Option Word}

theorem shows_of_register (h : n.kind.tag = .register) : m.shows id n operand = m.registers id := by
  unfold shows
  cases hkind : n.kind <;> simp_all [NodeKind.tag]

/-- Of the nodes at rest, only registers show what a tick changes. -/
theorem shows_step (hrests : n.rests = true) (h : n.kind.tag ≠ .register) :
    (m.step c wf).shows id n operand = m.shows id n operand := by
  unfold shows
  cases hkind : n.kind <;> simp_all [NodeKind.tag, Node.rests, Machine.step]

end Machine

namespace Circuit

variable {c : Circuit} {wf : WellFounded c.Depends} {m : Machine} {slots : Slots}
  {memories : Memories} {value : NodeId → Word}

/-- On settled slots nothing is missing. -/
theorem sample_eq (hc : c.WellTyped) {id : NodeId} {n : Node} (hn : c.node? id = some n)
    (hslots : ∀ id ∈ c.ids, slots.get? id = some (value id)) :
    c.sample slots id = .ok (n.update? id value) := by
  have hread {source : Option NodeId} (h : c.Inside source) :
      Slots.read slots source = .ok (source.map value) :=
    read_eq fun src hsrc => hslots src (mem_ids.mpr (h src hsrc))
  have hsource (pos : Nat) : c.Inside (n.source? pos) := fun src hsrc =>
    hc.wellFormed.inside_of_source? hn hsrc
  have hsuits := hc.suits hn
  unfold sample
  simp only [hn]
  cases hkind : n.kind with
  | register clock reset enable =>
    rw [hkind] at hsuits
    have hslot : slots.contains id = true := by
      rw [SideMap.contains, hslots id (mem_ids_of_node? hn)]
      rfl
    have hreset : (reset.map value).any (·.isTrue) = reset.any fun id => (value id).toNat != 0 := by
      cases reset <;> rfl
    rw [Node.update?_of_register (by rw [hkind]; rfl)]
    -- whether in reset or not, the source that is loaded is in the circuit
    have hpicked (inReset : Bool) : c.Inside (if inReset then n.source? 0 else n.source? 1) := by
      cases inReset with
      | false => exact hsource 1
      | true => exact hsource 0
    simp only [hslot, hread hsuits.2, hread (hpicked _), Node.loads, hkind, hreset, Bool.not_true,
      Bool.false_eq_true, if_false, bind, Except.bind, pure, Except.pure, Option.map_map,
      Function.comp_def, Word.resize_false]
  | memory depth init clock =>
    rw [Node.update?_of_memory (by rw [hkind]; rfl)]
    simp only [hread (hsource 3), hread (hsource 1), hread (hsource 2), Node.stores, hkind, bind,
      Except.bind, pure, Except.pure]
    have henable : ((n.source? 3).map value).any (·.isTrue) =
        (n.source? 3).any fun id => (value id).toNat != 0 := by
      cases n.source? 3 <;> rfl
    rw [henable]
    cases (n.source? 3).any fun id => (value id).toNat != 0 with
    | false => rfl
    | true => simp [place, Option.map_map, Function.comp_def, Word.resize_false]
  | _ => simp [Node.update?, Node.loads, Node.stores, hkind]

def fires (c : Circuit) (ticks : Nat) (value : NodeId → Word) (element : NodeId × Bool) :
    Option Update :=
  if Simulation.holds ticks element then none
  else (c.node? element.1).bind (·.update? element.1 value)

theorem target_of_fires {ticks : Nat} (element : NodeId × Bool) (update : Update)
    (h : c.fires ticks value element = some update) : update.target = element.1 := by
  unfold fires at h
  split at h
  · cases h
  · obtain ⟨n, -, hupdate⟩ := Option.bind_eq_some_iff.mp h
    exact Node.target_of_update? hupdate

theorem samplePass_eq (mode : Mode) (ticks : Nat) (hc : c.WellTyped)
    {elements : List (NodeId × Bool)} (helements : ∀ element ∈ elements, element.1 ∈ c.ids)
    (hslots : ∀ id ∈ c.ids, slots.get? id = some (value id)) :
    (Simulation.samplePass c mode ticks slots elements []).value =
      ⟨elements.filterMap (c.fires ticks value), []⟩ := by
  have hhalted : Simulation.halted mode.strict [] = false := by simp [Simulation.halted]
  have hstep {updates : List Update} {element : NodeId × Bool} (hmem : element.1 ∈ c.ids) :
      (Simulation.sampleStep c mode ticks slots ⟨updates, []⟩ element).value =
        ⟨updates ++ (c.fires ticks value element).toList, []⟩ := by
    obtain ⟨n, hn⟩ := exists_node_of_mem hmem
    unfold Simulation.sampleStep fires
    cases hholds : Simulation.holds ticks element with
    | true => simp
    | false => simp [hhalted, sample_eq hc hn hslots, hn]
  have hfold (updates : List Update) :
      (Logged.foldl (Simulation.sampleStep c mode ticks slots) ⟨updates, []⟩ elements).value =
        ⟨updates ++ elements.filterMap (c.fires ticks value), []⟩ := by
    rw [Logged.value_foldl]
    induction elements generalizing updates with
    | nil => simp
    | cons element rest ih =>
      rw [List.foldl_cons, hstep (helements element List.mem_cons_self),
        ih fun other hother => helements other (List.mem_cons_of_mem element hother)]
      cases hfires : c.fires ticks value element <;> simp [hfires]
  exact hfold []

section Edge

variable {s : Simulation} {id : NodeId} {n : Node}

theorem holds_iff (hp : s.Prepared c) (hrunning : m.running = (s.ticks != 0)) {free : Bool}
    (hmem : (id, free) ∈ s.elements) (hn : c.node? id = some n) :
    Simulation.holds s.ticks (id, free) = true ↔ m.Holds c n := by
  obtain ⟨n', hn', -, hfree⟩ := hp.element hmem
  cases hn.symm.trans hn'
  have hreads : (!free) = true ↔ ∃ src ∈ n.sampled, c.ReadsState src := by
    rw [Bool.not_eq_true', ← Bool.not_eq_true, hfree]
    simp only [not_forall, not_not, exists_prop]
  have hfirst : (s.ticks == 0) = true ↔ m.running = false := by simp [hrunning]
  rw [Simulation.holds, Bool.and_eq_true, hreads, hfirst, Machine.Holds]

theorem edge_of_not_element (hid : id ∉ s.elements.map Prod.fst) (value : NodeId → Word)
    (state : Slots × Memories) :
    Cell.of ((s.elements.filterMap (c.fires s.ticks value)).foldl Simulation.commit state) id =
      .of state id := by
  rw [Update.of_foldl_commit, Update.filter_target_of_notMem target_of_fires hid]
  rfl

/-- What the edge makes of a node is decided by the settled values alone. -/
theorem edge_of_node (hp : s.Prepared c) (hrunning : m.running = (s.ticks != 0))
    (hn : c.node? id = some n) (value : NodeId → Word) (state : Slots × Memories) :
    Cell.of ((s.elements.filterMap (c.fires s.ticks value)).foldl Simulation.commit state) id =
      if m.Holds c n then .of state id
      else ((n.update? id value).map (·.apply (.of state id))).getD (.of state id) := by
  by_cases hstateful : n.kind.isStateful = true
  · obtain ⟨free, hmem⟩ := hp.mem_elements hn hstateful
    have hholds := holds_iff hp hrunning hmem hn
    rw [Update.of_foldl_commit, Update.filter_target_of_mem target_of_fires hp.nodup_elements hmem,
      fires]
    by_cases h : m.Holds c n
    · simp [h, hholds.mpr h]
    · rw [if_neg (mt hholds.mp h), if_neg h]
      simp only [hn, Option.bind_some]
      cases n.update? id value <;> rfl
  · have hnot : id ∉ s.elements.map Prod.fst := by
      intro hmem
      obtain ⟨n', hn', hstateful'⟩ := hp.stateful hmem
      cases hn.symm.trans hn'
      exact hstateful hstateful'
    have hnone : n.update? id value = none := by
      unfold Node.update? Node.loads Node.stores
      cases hkind : n.kind <;> simp_all [NodeKind.isStateful]
    rw [edge_of_not_element hnot, hnone]
    simp

variable {state : Slots × Memories}

theorem slot_of_edge (hp : s.Prepared c) (hrunning : m.running = (s.ticks != 0))
    (hstate : state = (s.elements.filterMap (c.fires s.ticks value)).foldl
      Simulation.commit (slots, memories)) (hn : c.node? id = some n) :
    state.1.get? id = if m.Holds c n then slots.get? id
      else ((n.loads value).map fun word => (slots.get? id).map fun _ => word).getD
        (slots.get? id) := by
  have hcell := congrArg Cell.slot (edge_of_node hp hrunning hn value (slots, memories))
  rw [← hstate, apply_ite Cell.slot, Node.slot_update?] at hcell
  exact hcell

theorem words_of_edge (hp : s.Prepared c) (hrunning : m.running = (s.ticks != 0))
    (hstate : state = (s.elements.filterMap (c.fires s.ticks value)).foldl
      Simulation.commit (slots, memories)) (hn : c.node? id = some n) :
    state.2.get? id = if m.Holds c n then memories.get? id
      else ((n.stores value).map fun entry =>
        (memories.get? id).map (·.setIfInBounds entry.1 entry.2)).getD (memories.get? id) := by
  have hcell := congrArg Cell.words (edge_of_node hp hrunning hn value (slots, memories))
  rw [← hstate, apply_ite Cell.words, Node.words_update?] at hcell
  exact hcell

/-- The edge takes the slots and memories to where the machine goes. -/
theorem Agrees.edge (hp : s.Prepared c) (hrunning : m.running = (s.ticks != 0))
    (h : c.Agrees m slots memories)
    (hstate : state = (s.elements.filterMap (c.fires s.ticks (c.value wf m))).foldl
      Simulation.commit (slots, memories)) :
    c.Agrees (m.step c wf) state.1 state.2 := by
  -- the slots that there are, what nodes at rest show, and the words of memories
  refine ⟨fun id => ?_, fun {id n} hn hrests => ?_, fun {id n depth init clock} hn hkind => ?_⟩
  · rw [← h.present]
    cases hn : c.node? id with
    | none =>
      have hnot : id ∉ s.elements.map Prod.fst := by
        intro hmem
        obtain ⟨n, hn', -⟩ := hp.stateful hmem
        cases hn.symm.trans hn'
      have hcell := edge_of_not_element (c := c) hnot (c.value wf m) (slots, memories)
      rw [← hstate] at hcell
      exact congrArg (fun cell => cell.slot.isSome) hcell
    | some n =>
      rw [slot_of_edge hp hrunning hstate hn]
      split
      · rfl
      · cases n.loads (c.value wf m) <;> simp
  · rw [slot_of_edge hp hrunning hstate hn, h.resting hn hrests]
    by_cases hregister : n.kind.tag = .register
    · simp only [Machine.shows_of_register hregister, Machine.step, hn]
      split
      · rfl
      · cases n.loads (c.value wf m) <;> rfl
    · rw [Node.loads_of_not_register hregister, Machine.shows_step hrests hregister]
      split <;> rfl
  · obtain ⟨words, hold, hsize, hword⟩ := h.contents hn hkind
    rw [words_of_edge hp hrunning hstate hn, hold]
    simp only [Machine.step, hn]
    split
    · exact ⟨words, rfl, hsize, hword⟩
    · cases n.stores (c.value wf m) with
      | none => exact ⟨words, rfl, hsize, hword⟩
      | some entry =>
        refine ⟨words.setIfInBounds entry.1 entry.2, rfl, by simpa using hsize, ?_⟩
        intro address haddress
        change _ = some (Function.update (m.memories id) entry.1 entry.2 address)
        rw [Array.getElem?_setIfInBounds, Function.update_apply]
        by_cases he : entry.1 = address
        · simp [he, hsize, haddress]
        · simp [he, Ne.symm he, hword address haddress]

/-- What does not read state is still settled after the edge. -/
theorem slot_of_not_readsState (hp : s.Prepared c) (hrunning : m.running = (s.ticks != 0))
    (hstate : state = (s.elements.filterMap (c.fires s.ticks (c.value wf m))).foldl
      Simulation.commit (slots, memories)) (hid : id ∈ c.ids) (hreads : ¬ c.ReadsState id)
    (hslot : slots.get? id = some (c.value wf m id)) :
    state.1.get? id = some (c.value wf (m.step c wf) id) := by
  obtain ⟨n, hn⟩ := exists_node_of_mem hid
  have hregister : n.kind.tag ≠ .register := by
    intro htag
    have hstateful : n.kind.isStateful = true := by
      cases hkind : n.kind <;> simp_all [NodeKind.tag, NodeKind.isStateful]
    exact hreads ((readsState_iff hn).mpr (.inl hstateful))
  have hinputs : (m.step c wf).inputs = m.inputs := rfl
  rw [slot_of_edge hp hrunning hstate hn, Node.loads_of_not_register hregister, Option.map_none,
    Option.getD_none, ite_self, hslot, value_eq_of_not_readsState wf hinputs hreads]

end Edge

end Circuit

end Netlist
