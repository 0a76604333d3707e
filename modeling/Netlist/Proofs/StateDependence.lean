import Netlist.Proofs.Machine

namespace Netlist

namespace Circuit

variable {c : Circuit} {order ids : List NodeId} {known more : NodeId → Prop}

/-- All that a node of the list depends on is known or comes before it. -/
def Fed (c : Circuit) : (NodeId → Prop) → List NodeId → Prop
  | _, [] => True
  | known, id :: rest =>
    (∀ dep, c.Depends dep id → known dep) ∧ Fed c (fun other => other = id ∨ known other) rest

theorem Fed.mono (h : c.Fed known ids) (hmore : ∀ id, known id → more id) : c.Fed more ids := by
  induction ids generalizing known more with
  | nil => trivial
  | cons id rest ih =>
    exact ⟨fun dep hdep => hmore dep (h.1 dep hdep),
      ih h.2 fun other hother => hother.imp_right (hmore other)⟩

theorem Fed.filter {p : NodeId → Bool} (h : c.Fed known ids) (hmore : ∀ id, known id → more id)
    (hout : ∀ id ∈ ids, p id = false → more id) : c.Fed more (ids.filter p) := by
  induction ids generalizing known more with
  | nil => trivial
  | cons id rest ih =>
    have hrest : ∀ other ∈ rest, p other = false → more other := fun other hother =>
      hout other (List.mem_cons_of_mem id hother)
    cases hp : p id with
    | true =>
      rw [List.filter_cons_of_pos hp]
      refine ⟨fun dep hdep => hmore dep (h.1 dep hdep), ih h.2 ?_ ?_⟩
      · exact fun other hother => hother.imp_right (hmore other)
      · exact fun other hother hfalse => .inr (hrest other hother hfalse)
    | false =>
      rw [List.filter_cons_of_neg (by simp [hp])]
      -- what is left out is among the known nodes already, so these need not grow
      refine ih h.2 ?_ hrest
      rintro other (rfl | hother)
      · exact hout other List.mem_cons_self hp
      · exact hmore other hother

theorem IsOrder.fed (h : c.IsOrder order) : c.Fed (fun _ => False) order := by
  have hrest (done rest : List NodeId) (ho : order = done ++ rest) : c.Fed (· ∈ done) rest := by
    induction rest generalizing done with
    | nil => trivial
    | cons id rest ih =>
      refine ⟨fun dep hdep => h.mem_of_append ho hdep, (ih (done ++ [id]) (by simp [ho])).mono ?_⟩
      intro other hother
      simpa [or_comm] using hother
  exact (hrest [] order rfl).mono fun _ hid => nomatch hid

theorem WellFormed.not_depends_of_leaf {src id : NodeId} {n : Node} (hc : c.WellFormed)
    (hn : c.node? id = some n) (hleaf : n.kind.maxSources = 0) : ¬ c.Depends src id := by
  rintro ⟨n', pos, hn', hsrc, -⟩
  cases hn.symm.trans hn'
  have hnil : n.sources = [] := by
    have harity := (hc.holds hn).arity
    rw [hleaf] at harity
    exact List.eq_nil_of_length_eq_zero (Nat.le_zero.mp harity)
  simp [Node.source?, hnil] at hsrc

theorem isStateless_iff (hc : c.WellFormed) {id : NodeId} {n : Node} (hn : c.node? id = some n)
    {found : SideMap Bool} (hdeps : ∀ dep, c.Depends dep id → known dep)
    (hfound : ∀ other, (found.get? other).getD false = true ↔ known other ∧ ¬ c.ReadsState other) :
    n.isStateless found = true ↔ ¬ c.ReadsState id := by
  rw [readsState_iff hn, not_or]
  have hsources (hcrosses : ∀ pos, n.kind.crossesClock pos = false) :
      (∀ pos src, n.source? pos = some src → (found.get? src).getD false = true) ↔
        ¬ ∃ src, c.Depends src id ∧ c.ReadsState src := by
    have hdepends {pos : Nat} {src : NodeId} (hsrc : n.source? pos = some src) : c.Depends src id :=
      ⟨n, pos, hn, hsrc, hcrosses pos⟩
    simp only [hfound]
    constructor
    · rintro hall ⟨src, ⟨n', pos, hn', hsrc, -⟩, hreads⟩
      cases hn.symm.trans hn'
      exact (hall pos src hsrc).2 hreads
    · intro hnone pos src hsrc
      exact ⟨hdeps src (hdepends hsrc), fun hreads => hnone ⟨src, hdepends hsrc, hreads⟩⟩
  have hleaf (h : n.kind.maxSources = 0) : ¬ ∃ src, c.Depends src id ∧ c.ReadsState src := by
    rintro ⟨src, hsrc, -⟩
    exact hc.not_depends_of_leaf hn h hsrc
  unfold Node.isStateless
  cases hkind : n.kind with
  | literal => simpa [NodeKind.isStateful] using hleaf (by rw [hkind]; rfl)
  | input => simpa [NodeKind.isStateful] using hleaf (by rw [hkind]; rfl)
  | register => simp [NodeKind.isStateful]
  | memory => simp [NodeKind.isStateful]
  | output => simpa [NodeKind.isStateful, Node.mem_connected] using hsources fun _ => by rw [hkind]; rfl
  | proxy => simpa [NodeKind.isStateful, Node.mem_connected] using hsources fun _ => by rw [hkind]; rfl
  | operation =>
    simpa [NodeKind.isStateful, Node.mem_connected] using hsources fun _ => by rw [hkind]; rfl

theorem stateless_foldl (hc : c.WellFormed) {found : SideMap Bool} (hfed : c.Fed known ids)
    (hids : ∀ id ∈ ids, id ∈ c.ids)
    (hfound : ∀ other, (found.get? other).getD false = true ↔ known other ∧ ¬ c.ReadsState other)
    (id : NodeId) :
    ((ids.foldl (fun m id => ((c.node? id).map fun n => m.insert id (n.isStateless m)).getD m)
      found).get? id).getD false = true ↔ (known id ∨ id ∈ ids) ∧ ¬ c.ReadsState id := by
  -- a node that comes up is known from then on; the list is fed by what is known before it
  induction ids generalizing known found with
  | nil => simpa using hfound id
  | cons first rest ih =>
    obtain ⟨n, hn⟩ := exists_node_of_mem (hids first List.mem_cons_self)
    have hfirst := isStateless_iff hc hn hfed.1 hfound
    have hnext (other : NodeId) :
        ((found.insert first (n.isStateless found)).get? other).getD false = true ↔
          (other = first ∨ known other) ∧ ¬ c.ReadsState other := by
      rw [SideMap.get?_insert]
      by_cases he : first = other
      · subst he
        simpa using hfirst
      · simpa [he, Ne.symm he] using hfound other
    have hrest := ih hfed.2 (fun other hother => hids other (List.mem_cons_of_mem first hother)) hnext
    rw [List.foldl_cons, hn]
    refine hrest.trans (and_congr_left fun _ => ?_)
    rw [List.mem_cons, or_assoc, or_left_comm]

/-- The nodes found to be stateless are those that do not read state. -/
theorem stateless_iff (hc : c.WellFormed) (ho : c.IsOrder order) (id : NodeId) :
    ((c.stateless order).get? id).getD false = true ↔ id ∈ c.ids ∧ ¬ c.ReadsState id := by
  have hempty (other : NodeId) : ((SideMap.empty : SideMap Bool).get? other).getD false = true ↔
      False ∧ ¬ c.ReadsState other := by simp
  have hall := stateless_foldl hc ho.fed (fun id hid => ho.mem.mp hid) hempty id
  rw [stateless, hall, ho.mem, false_or]

theorem ReadsState.mem_ids {id : NodeId} (h : c.ReadsState id) : id ∈ c.ids := by
  obtain ⟨element, n, hn, -, hpath⟩ := h
  rcases hpath.cases_tail with rfl | ⟨src, -, hlast⟩
  · exact mem_ids_of_node? hn
  · exact hlast.mem_ids

theorem WellTyped.mem_ids_of_sampled {id src : NodeId} {n : Node} (hc : c.WellTyped)
    (hn : c.node? id = some n) (hsrc : src ∈ n.sampled) : src ∈ c.ids := by
  have hsource {pos : Nat} (h : n.source? pos = some src) : src.index < c.size :=
    hc.wellFormed.inside_of_source? hn h
  have hsuits := hc.suits hn
  rw [mem_ids]
  unfold Node.sampled at hsrc
  cases hkind : n.kind with
  | register clock reset enable =>
    rw [hkind] at hsrc hsuits
    obtain ⟨s, hs, he⟩ := List.mem_filterMap.mp hsrc
    subst he
    simp only [List.mem_cons, List.not_mem_nil, or_false] at hs
    rcases hs with hs | hs | hs
    · exact hsource hs.symm
    · exact hsource hs.symm
    · exact hsuits.2 src hs.symm
  | memory depth init clock =>
    rw [hkind] at hsrc
    obtain ⟨s, hs, he⟩ := List.mem_filterMap.mp hsrc
    subst he
    simp only [List.mem_cons, List.not_mem_nil, or_false] at hs
    rcases hs with hs | hs | hs <;> exact hsource hs.symm
  | _ => simp [hkind] at hsrc

end Circuit

/-- What a simulation of `c` knows before its first tick, and never changes. -/
structure Simulation.Prepared (c : Circuit) (s : Simulation) : Prop where
  circuit_eq : s.circuit = c
  isOrder : c.IsOrder s.order
  mem_dependent : ∀ id, id ∈ s.dependent ↔ c.ReadsState id
  fed : c.Fed (fun id => id ∈ c.ids ∧ ¬ c.ReadsState id) s.dependent
  nodup_elements : (s.elements.map Prod.fst).Nodup
  element : ∀ {id free}, (id, free) ∈ s.elements → ∃ n, c.node? id = some n ∧
    n.kind.isStateful = true ∧ (free = true ↔ ∀ src ∈ n.sampled, ¬ c.ReadsState src)
  mem_elements : ∀ {id n}, c.node? id = some n → n.kind.isStateful = true →
    ∃ free, (id, free) ∈ s.elements

theorem Simulation.Prepared.stateful {c : Circuit} {s : Simulation} (h : s.Prepared c) {id : NodeId}
    (hid : id ∈ s.elements.map Prod.fst) :
    ∃ n, c.node? id = some n ∧ n.kind.isStateful = true := by
  obtain ⟨element, hmem, rfl⟩ := List.mem_map.mp hid
  obtain ⟨n, hn, hstateful, -⟩ := h.element hmem
  exact ⟨n, hn, hstateful⟩

theorem Simulation.Prepared.withState {c : Circuit} {s : Simulation} (h : s.Prepared c)
    (slots : Slots) (memories : Memories) (ticks : Nat) :
    Prepared c { s with slots, memories, ticks } :=
  ⟨h.circuit_eq, h.isOrder, h.mem_dependent, h.fed, h.nodup_elements, h.element, h.mem_elements⟩

/-- The nodes that do not pass for stateless are those that read state. -/
theorem Simulation.mem_dependent_fresh {c : Circuit} {order : List NodeId} (hc : c.WellFormed)
    (ho : c.IsOrder order) (mode : Mode) (id : NodeId) :
    id ∈ (fresh c mode order).value.dependent ↔ c.ReadsState id := by
  change id ∈ order.filter _ ↔ _
  rw [List.mem_filter, ho.mem, Bool.not_eq_true', ← Bool.not_eq_true, Circuit.stateless_iff hc ho,
    not_and_not_right]
  exact ⟨fun h => h.2 h.1, fun h => ⟨h.mem_ids, fun _ => h⟩⟩

theorem Simulation.map_fst_elements_fresh (c : Circuit) (mode : Mode) (order : List NodeId) :
    (fresh c mode order).value.elements.map Prod.fst = c.idsWhere (·.isStateful) := by
  change ((c.idsWhere _).map _).map Prod.fst = _
  rw [List.map_map]
  exact List.map_id' _

theorem Simulation.prepared_fresh {c : Circuit} {order : List NodeId} (hc : c.WellTyped)
    (ho : c.IsOrder order) (mode : Mode) : (fresh c mode order).value.Prepared c := by
  have hfree := Circuit.stateless_iff hc.wellFormed ho
  refine ⟨rfl, ho, mem_dependent_fresh hc.wellFormed ho mode, ?_, ?_, ?_, ?_⟩
  · refine ho.fed.filter (fun _ h => h.elim) fun id _ hid => ?_
    rw [← hfree]
    simpa using hid
  · rw [map_fst_elements_fresh]
    exact c.nodup_ids.filter _
  · intro id free hmem
    obtain ⟨id', hid, he⟩ := List.mem_map.mp hmem
    cases he
    obtain ⟨n, hn, hstateful⟩ := Circuit.mem_idsWhere.mp hid
    refine ⟨n, hn, hstateful, ?_⟩
    simp only [hn, Option.map_some, Option.getD_some, List.all_eq_true, hfree]
    exact ⟨fun h src hsrc => (h src hsrc).2,
      fun h src hsrc => ⟨hc.mem_ids_of_sampled hn hsrc, h src hsrc⟩⟩
  · intro id n hn hstateful
    exact ⟨_, List.mem_map.mpr ⟨id, Circuit.mem_idsWhere.mpr ⟨n, hn, hstateful⟩, rfl⟩⟩

end Netlist
