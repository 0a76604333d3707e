import Netlist.Proofs.Calls

namespace Netlist

theorem Node.mem_sources_of_source? {n : Node} {pos : Nat} {src : NodeId}
    (h : n.source? pos = some src) : some src ∈ n.sources :=
  List.mem_of_getElem? (Option.join_eq_some_iff.mp h)

namespace Circuit

variable {c : Circuit}

def nameAt? (c : Circuit) (id : NodeId) : Option String := (c.node? id).map (·.name)

/-- `id` is the smallest id of a node called `name`. -/
def IsFirst (c : Circuit) (name : String) (id : NodeId) : Prop :=
  c.nameAt? id = some name ∧ ∀ other, c.nameAt? other = some name → id.index ≤ other.index

structure Holds (c : Circuit) (id : NodeId) (n : Node) : Prop where
  id_eq : n.id = id
  width_pos : 1 ≤ n.width
  arity : n.sources.length ≤ n.kind.maxSources
  inside : ∀ src ∈ n.sources, c.Inside src

structure WellFormed (c : Circuit) : Prop where
  holds : ∀ {id n}, c.node? id = some n → c.Holds id n
  size_le : c.size ≤ c.config.idLimit.toNat + 1
  clock_inside : c.Inside c.clock
  reset_inside : c.Inside c.reset
  found : ∀ {name id}, c.find? name = some id → c.IsFirst name id
  unknown : ∀ {name}, c.find? name = none → ∀ id, c.nameAt? id ≠ some name

theorem Inside.mono {d : Circuit} {src : Option NodeId} (h : c.Inside src) (hsize : c.size ≤ d.size) :
    d.Inside src := fun s hs => Nat.lt_of_lt_of_le (h s hs) hsize

theorem Holds.mono {d : Circuit} {id : NodeId} {n : Node} (h : c.Holds id n)
    (hsize : c.size ≤ d.size) : d.Holds id n :=
  ⟨h.id_eq, h.width_pos, h.arity, fun src hsrc => (h.inside src hsrc).mono hsize⟩

theorem lt_size_of_nameAt? {id : NodeId} {name : String} (h : c.nameAt? id = some name) :
    id.index < c.size := by
  obtain ⟨n, hn, -⟩ := Option.map_eq_some_iff.mp h
  exact lt_size_of_node? hn

theorem nameAt?_add (c : Circuit) (kind : NodeKind) (width : Nat) (sources : List (Option NodeId))
    (name : String) (loc : Location) (id : NodeId) :
    (c.add kind width sources name loc).nameAt? id =
      if id.index = c.size then some name else c.nameAt? id := by
  rw [nameAt?, node?_add]
  split <;> rfl

theorem find?_add (c : Circuit) (kind : NodeKind) (width : Nat) (sources : List (Option NodeId))
    (name other : String) (loc : Location) :
    (c.add kind width sources name loc).find? other =
      if other = name ∧ c.find? name = none then some c.nodes.nextId else c.find? other := by
  have hfind : (c.add kind width sources name loc).find? other =
      (if (c.find? name).isSome then c.names else (name, c.nodes.nextId) :: c.names).lookup other :=
    rfl
  rw [hfind]
  cases hname : c.find? name with
  | some id => simp [find?]
  | none =>
    by_cases h : other = name
    · simp [h]
    · have hbeq : (other == name) = false := by simpa using h
      simp [h, hbeq, List.lookup_cons, find?]

theorem wellFormed_empty (name : String) (config : Config) :
    WellFormed { name, config } where
  holds h := nomatch h
  size_le := Nat.zero_le _
  clock_inside _ h := nomatch h
  reset_inside _ h := nomatch h
  found h := nomatch h
  unknown _ _ h := nomatch h

theorem IsFirst.add {name other : String} {id : NodeId} (h : c.IsFirst other id) (kind : NodeKind)
    (width : Nat) (sources : List (Option NodeId)) (loc : Location) :
    (c.add kind width sources name loc).IsFirst other id := by
  have hlt := lt_size_of_nameAt? h.1
  refine ⟨?_, fun id' hid' => ?_⟩
  · rw [nameAt?_add, if_neg (Nat.ne_of_lt hlt), h.1]
  · rw [nameAt?_add] at hid'
    split at hid'
    · omega
    · exact h.2 id' hid'

/-- A new node comes after all nodes of its name, and is the first one only if there is none. -/
theorem WellFormed.add (h : c.WellFormed) {kind : NodeKind} {width : Nat}
    {sources : List (Option NodeId)} (hadmits : c.Admits kind width sources) (name : String)
    (loc : Location) : (c.add kind width sources name loc).WellFormed := by
  have hsize : c.size ≤ (c.add kind width sources name loc).size := by simp
  have hid := nextId_eq hadmits.room
  refine ⟨?_, ?_, h.clock_inside.mono hsize, h.reset_inside.mono hsize, ?_, ?_⟩
  · intro id n hn
    rw [node?_add] at hn
    split at hn
    · next hindex =>
      cases hn
      refine ⟨?_, Nat.one_le_iff_ne_zero.mpr hadmits.width_ne, hadmits.arity,
        fun src hsrc => (hadmits.inside src hsrc).mono hsize⟩
      rw [hid, ← hindex]
    · exact (h.holds hn).mono hsize
  · have hroom : c.size ≤ c.config.idLimit.toNat := by simpa [hasRoom] using hadmits.room
    rw [size_add]
    exact Nat.succ_le_succ hroom
  -- a name that is found was found before, or is new and found as the new node
  · intro other id hfound
    rw [find?_add] at hfound
    split at hfound
    · next hnew =>
      cases hfound
      obtain ⟨rfl, hnone⟩ := hnew
      refine ⟨by simp [nameAt?_add, hid], fun id' hid' => ?_⟩
      rw [nameAt?_add] at hid'
      split at hid'
      · next hindex =>
        rw [hid]
        exact Nat.le_of_eq hindex.symm
      · exact absurd hid' (h.unknown hnone id')
    · exact (h.found hfound).add kind width sources loc
  · intro other hnone id hname
    rw [find?_add] at hnone
    split at hnone
    · cases hnone
    · next hold =>
      rw [nameAt?_add] at hname
      split at hname
      · cases hname
        exact hold ⟨rfl, hnone⟩
      · exact h.unknown hnone id hname

theorem nameAt?_modifyNode {id : NodeId} {n : Node} {f : Node → Node} (hn : c.node? id = some n)
    (hname : (f n).name = n.name) (other : NodeId) :
    (c.modifyNode id f).nameAt? other = c.nameAt? other := by
  rw [nameAt?, nameAt?, node?_modifyNode]
  split
  · next h => subst h; simp [hn, hname]
  · rfl

theorem WellFormed.modifyNode (h : c.WellFormed) {id : NodeId} {n : Node} {f : Node → Node}
    (hn : c.node? id = some n) (hname : (f n).name = n.name) (hnew : c.Holds id (f n)) :
    (c.modifyNode id f).WellFormed := by
  have hsize : c.size ≤ (c.modifyNode id f).size := by simp
  have hnames := nameAt?_modifyNode hn hname
  refine ⟨?_, Nat.le_trans (Nat.le_of_eq (size_modifyNode c id f)) h.size_le, h.clock_inside.mono hsize,
    h.reset_inside.mono hsize, ?_, ?_⟩
  · intro other m hm
    rw [node?_modifyNode] at hm
    split at hm
    · next heq =>
      subst heq
      rw [hn] at hm
      cases hm
      exact hnew.mono hsize
    · exact (h.holds hm).mono hsize
  · intro name other hfound
    refine ⟨?_, fun id' hid' => ?_⟩
    · rw [hnames]
      exact (h.found hfound).1
    · rw [hnames] at hid'
      exact (h.found hfound).2 id' hid'
  · intro name hnone other
    rw [hnames]
    exact h.unknown hnone other

theorem Holds.setSource {id : NodeId} {n : Node} {pos : Nat} {src : Option NodeId}
    (h : c.Holds id n) (hpos : pos < n.kind.maxSources) (hsrc : c.Inside src) :
    c.Holds id (n.setSource pos src) := by
  refine ⟨h.id_eq, h.width_pos, ?_, ?_⟩
  · have harity := h.arity
    simp only [Node.setSource, List.length_set, List.length_append, List.length_replicate]
    omega
  · intro other hother
    rcases List.mem_or_eq_of_mem_set hother with hold | rfl
    · rcases List.mem_append.mp hold with hold | hpad
      · exact h.inside other hold
      · rw [List.eq_of_mem_replicate hpad]
        rintro _ ⟨⟩
    · exact hsrc

theorem WellFormed.change {d : Circuit} {typed : Prop} (h : c.WellFormed) (hd : Change typed c d) :
    d.WellFormed := by
  cases hd with
  | add hadmits _ => exact h.add hadmits _ _
  | connect hn hpos hsrc => exact h.modifyNode hn rfl ((h.holds hn).setSource hpos hsrc)
  | @retune id n f _ _ _ _ _ _ hn hkind hf _ =>
    have hold := h.holds hn
    have harity : n.sources.length ≤ 0 := by simpa [hkind, NodeKind.maxSources] using hold.arity
    refine h.modifyNode hn (by rw [hf]) ?_
    rw [hf]
    exact ⟨hold.id_eq, hold.width_pos, harity, hold.inside⟩
  | useClock hid =>
    refine ⟨fun hn => ?_, h.size_le, ?_, h.reset_inside, h.found, h.unknown⟩
    · exact (h.holds hn).mono (Nat.le_refl c.size)
    · rintro _ ⟨⟩
      exact hid
  | useReset hid =>
    refine ⟨fun hn => ?_, h.size_le, h.clock_inside, ?_, h.found, h.unknown⟩
    · exact (h.holds hn).mono (Nat.le_refl c.size)
    · rintro _ ⟨⟩
      exact hid

theorem Reachable.wellFormed (h : c.Reachable) : c.WellFormed :=
  ReachableBy.of_change (fun _ _ => False.elim) wellFormed_empty (fun _ _ => WellFormed.change) h

theorem WellFormed.inside_of_source? {id src : NodeId} {n : Node} {pos : Nat} (h : c.WellFormed)
    (hn : c.node? id = some n) (hsrc : n.source? pos = some src) : src.index < c.size :=
  (h.holds hn).inside _ (Node.mem_sources_of_source? hsrc) src rfl

/-- A payload that suits its node. Only a payload that nothing has checked does not. -/
def Suits (c : Circuit) (width : Nat) : NodeKind → Prop
  | .literal value => value.width = width
  | .input value _ _ => value.width = width
  | .register clock reset _ => c.Inside clock ∧ c.Inside reset
  | .memory depth init clock =>
    c.Inside clock ∧ 0 < depth ∧ init.size = depth ∧ ∀ word ∈ init, word.width = width
  | _ => True

theorem Suits.mono {d : Circuit} {width : Nat} {kind : NodeKind} (h : c.Suits width kind)
    (hsize : c.size ≤ d.size) : d.Suits width kind := by
  cases kind with
  | register clock reset enable => exact ⟨h.1.mono hsize, h.2.mono hsize⟩
  | memory depth init clock => exact ⟨h.1.mono hsize, h.2⟩
  | _ => exact h

theorem WellFormed.suits_of_fits {width : Nat} {kind : NodeKind} (h : c.WellFormed)
    (hfits : c.Fits width kind) : c.Suits width kind := by
  cases kind with
  | register clock reset enable =>
    obtain ⟨rfl, rfl⟩ := hfits
    exact ⟨h.clock_inside, h.reset_inside⟩
  | memory depth init clock =>
    obtain ⟨rfl, hrest⟩ := hfits
    exact ⟨h.clock_inside, hrest⟩
  | literal value => exact hfits
  | input value driver proxy => exact hfits
  | _ => trivial

/-- Well-formed, with payloads that suit all nodes. -/
structure WellTyped (c : Circuit) : Prop where
  wellFormed : c.WellFormed
  suits : ∀ {id n}, c.node? id = some n → c.Suits n.width n.kind

theorem WellTyped.modifyNode (h : c.WellTyped) {id : NodeId} {n : Node} {f : Node → Node}
    (hd : (c.modifyNode id f).WellFormed) (hn : c.node? id = some n)
    (hnew : c.Suits (f n).width (f n).kind) : (c.modifyNode id f).WellTyped := by
  have hsize : c.size ≤ (c.modifyNode id f).size := by simp
  refine ⟨hd, fun {other m} hm => ?_⟩
  rw [node?_modifyNode] at hm
  split at hm
  · next heq =>
    subst heq
    rw [hn] at hm
    cases hm
    exact hnew.mono hsize
  · exact (h.suits hm).mono hsize

theorem WellTyped.change {d : Circuit} (h : c.WellTyped) (hd : Change True c d) : d.WellTyped := by
  have hformed := h.wellFormed.change hd
  cases hd with
  | @add kind width sources name loc hadmits hfits =>
    have hsize : c.size ≤ (c.add kind width sources name loc).size := by simp
    refine ⟨hformed, fun {id n} hn => ?_⟩
    rw [node?_add] at hn
    split at hn
    · cases hn
      exact (h.wellFormed.suits_of_fits (hfits trivial)).mono hsize
    · exact (h.suits hn).mono hsize
  | @connect id pos src n hn _ _ =>
    have hold : c.Suits n.width n.kind := h.suits hn
    exact h.modifyNode hformed hn hold
  | retune hn hkind hf hvalue =>
    refine h.modifyNode hformed hn ?_
    have hold := h.suits hn
    rw [hkind] at hold
    rw [hf]
    rcases hvalue with rfl | hvalue
    · exact hold
    · exact hvalue
  | useClock _ => exact ⟨hformed, fun hn => (h.suits hn).mono (Nat.le_refl c.size)⟩
  | useReset _ => exact ⟨hformed, fun hn => (h.suits hn).mono (Nat.le_refl c.size)⟩

theorem Typed.wellTyped (h : c.Typed) : c.WellTyped :=
  ReachableBy.of_change (fun _ hok _ => hok)
    (fun name config => ⟨wellFormed_empty name config, fun hn => nomatch hn⟩)
    (fun _ _ hc => hc.change) h

theorem IsFirst.index_unique {name : String} {id id' : NodeId} (h : c.IsFirst name id)
    (h' : c.IsFirst name id') : id = id' := by
  cases id
  cases id'
  exact congrArg NodeId.mk (Nat.le_antisymm (h.2 _ h'.1) (h'.2 _ h.1))

theorem WellFormed.find?_eq_some_iff (h : c.WellFormed) {name : String} {id : NodeId} :
    c.find? name = some id ↔ c.IsFirst name id := by
  refine ⟨h.found, fun hfirst => ?_⟩
  cases hfind : c.find? name with
  | none => exact absurd hfirst.1 (h.unknown hfind id)
  | some id' => rw [(h.found hfind).index_unique hfirst]

theorem WellFormed.find?_eq_none_iff (h : c.WellFormed) {name : String} :
    c.find? name = none ↔ ∀ id, c.nameAt? id ≠ some name := by
  refine ⟨h.unknown, fun hnone => ?_⟩
  cases hfind : c.find? name with
  | none => rfl
  | some id => exact absurd (h.found hfind).1 (hnone id)

/-- Whatever calls were made, and whether they succeeded or failed: the id of a node is its place and
is not cut to 32 bits, ids stay within the limit, nodes have a width and no more sources than their
kind takes, all that is referred to exists, and a name is found as the first node that has it. -/
theorem representation_of_reachable (h : c.Reachable) :
    (∀ i n, c.node? ⟨i⟩ = some n → n.id = ⟨i⟩) ∧
    c.size ≤ c.config.idLimit.toNat + 1 ∧
    (∀ id n, c.node? id = some n → 1 ≤ n.width ∧ n.sources.length ≤ n.kind.maxSources ∧
      ∀ pos src, n.source? pos = some src → src.index < c.size) ∧
    (∀ id, c.clock = some id → id.index < c.size) ∧
    (∀ id, c.reset = some id → id.index < c.size) ∧
    (∀ name id, c.find? name = some id ↔ c.IsFirst name id) ∧
    ∀ name, c.find? name = none ↔ ∀ id, c.nameAt? id ≠ some name := by
  have hc := h.wellFormed
  refine ⟨fun i n hn => (hc.holds hn).id_eq, hc.size_le, fun id n hn => ?_, hc.clock_inside,
    hc.reset_inside, fun name id => hc.find?_eq_some_iff, fun name => hc.find?_eq_none_iff⟩
  have hnode := hc.holds hn
  exact ⟨hnode.width_pos, hnode.arity, fun pos src => hc.inside_of_source? hn⟩

/-- A literal and then a port for which only one id is left: the port is refused. -/
def crowded : Circuit :=
  (Call.input 4 "a" .unknown).apply
    ((Call.literal (.ofNat 4 9) "a" .unknown).apply { name := "top", config := { idLimit := 1 } })

theorem crowded_reachable : crowded.Reachable :=
  .call _ (.call _ (.empty "top" { idLimit := 1 }) trivial) trivial

theorem representation_of_crowded :
    crowded.Reachable ∧ crowded.size ≤ 2 ∧ (∀ n, crowded.node? ⟨0⟩ = some n → n.id = ⟨0⟩) ∧
      crowded.IsFirst "a" ⟨0⟩ ∧ ∀ id, crowded.nameAt? id ≠ some "b" := by
  obtain ⟨hid, hsize, -, -, -, hsome, hnone⟩ := representation_of_reachable crowded_reachable
  exact ⟨crowded_reachable, hsize, hid 0, (hsome "a" ⟨0⟩).mp (by decide),
    (hnone "b").mp (by decide)⟩

end Circuit

end Netlist
