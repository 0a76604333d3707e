import Netlist.Circuit.Wire

namespace Netlist

theorem NodeKind.eq_input {kind : NodeKind} (h : kind.tag = .input) :
    ∃ value driver proxy, kind = .input value driver proxy := by
  cases kind with
  | input value driver proxy => exact ⟨value, driver, proxy, rfl⟩
  | _ => cases h

namespace Circuit

/-- Unconnected, or a node of the circuit. -/
def Inside (c : Circuit) (src : Option NodeId) : Prop := ∀ s, src = some s → s.index < c.size

/-- What is checked before a node is added. -/
structure Admits (c : Circuit) (kind : NodeKind) (width : Nat) (sources : List (Option NodeId)) :
    Prop where
  width_ne : width ≠ 0
  room : c.hasRoom 1 = true
  arity : sources.length ≤ kind.maxSources
  inside : ∀ src ∈ sources, c.Inside src

def widthOf? (c : Circuit) (id : NodeId) : Option Nat := (c.node? id).map (·.width)

theorem lt_size_of_node? {c : Circuit} {id : NodeId} {n : Node} (h : c.node? id = some n) :
    id.index < c.size := (Array.getElem?_eq_some_iff.mp h).1

theorem ofTag?_eq_some {c : Circuit} {tag : NodeKind.Tag} {id : NodeId} {n : Node} :
    c.ofTag? tag id = some n ↔ c.node? id = some n ∧ n.kind.tag = tag := by
  rw [ofTag?, Option.filter_eq_some_iff, beq_iff_eq]

@[simp] theorem size_add (c : Circuit) (kind : NodeKind) (width : Nat)
    (sources : List (Option NodeId)) (name : String) (loc : Location) :
    (c.add kind width sources name loc).size = c.size + 1 := Table.size_push _ _

@[simp] theorem size_modifyNode (c : Circuit) (id : NodeId) (f : Node → Node) :
    (c.modifyNode id f).size = c.size := Table.size_modify _ _ _

theorem node?_add (c : Circuit) (kind : NodeKind) (width : Nat) (sources : List (Option NodeId))
    (name : String) (loc : Location) (id : NodeId) :
    (c.add kind width sources name loc).node? id =
      if id.index = c.size then some ⟨c.nodes.nextId, kind, width, sources, name, loc⟩
      else c.node? id := Table.get?_push _ _ _

theorem node?_modifyNode (c : Circuit) (id other : NodeId) (f : Node → Node) :
    (c.modifyNode id f).node? other =
      if id = other then (c.node? other).map f else c.node? other := Table.get?_modify _ _ _ _

theorem ext_node? {c d : Circuit} (h : ∀ id, c.node? id = d.node? id) (hd : d = { c with nodes := d.nodes }) :
    c = d := by
  rw [hd, ← Table.ext_get? h]

/-- Room is what keeps the next id from being cut to 32 bits. -/
theorem nextId_eq {c : Circuit} (h : c.hasRoom 1 = true) : c.nodes.nextId = ⟨c.size⟩ := by
  apply NodeId.ofIndex_of_lt
  have hlimit : c.config.idLimit.toNat < UInt32.size := c.config.idLimit.toNat_lt_size
  have hsize : c.size ≤ c.config.idLimit.toNat := by simpa [hasRoom] using h
  exact Nat.lt_of_le_of_lt hsize hlimit

theorem hasRoom_one {c : Circuit} (h : c.hasRoom 2 = true) : c.hasRoom 1 = true := by
  simp only [hasRoom, decide_eq_true_eq] at *
  omega

theorem hasRoom_add (c : Circuit) (kind : NodeKind) (width : Nat) (sources : List (Option NodeId))
    (name : String) (loc : Location) :
    (c.add kind width sources name loc).hasRoom 1 = c.hasRoom 2 := by
  simp only [hasRoom, size_add]
  rfl

/-- The input port with its proxy, which the port is told of last. -/
def addInput (c : Circuit) (width : Nat) (name : String) (loc : Location) : Circuit :=
  let port := c.add (.input (.zero width) none none) width [] name loc
  (port.add .proxy width [some c.nodes.nextId] name loc).modifyNode c.nodes.nextId fun n =>
    match n.kind with
    | .input value driver _ => { n with kind := .input value driver (some port.nodes.nextId) }
    | _ => n

def addOutput (c : Circuit) (width : Nat) (name : String) (loc : Location) : Circuit :=
  (c.add .proxy width [none] name loc).add .output width [some c.nodes.nextId] name loc

theorem admits_input {c : Circuit} {width : Nat} (hwidth : width ≠ 0) (hroom : c.hasRoom 2 = true) :
    c.Admits (.input (.zero width) none none) width [] :=
  ⟨hwidth, hasRoom_one hroom, Nat.le_refl 0, fun _ h => nomatch h⟩

theorem admits_feed {c : Circuit} {width : Nat} (hwidth : width ≠ 0) (hroom : c.hasRoom 2 = true) :
    c.Admits .proxy width [none] := by
  refine ⟨hwidth, hasRoom_one hroom, Nat.le_refl 1, ?_⟩
  intro src hsrc s hs
  rw [List.mem_singleton.mp hsrc] at hs
  cases hs

/-- After one node of two, the second may refer to it. -/
theorem admits_second {c : Circuit} {kind kind' : NodeKind} {width width' : Nat}
    {sources : List (Option NodeId)} {name : String} {loc : Location} (hwidth : width' ≠ 0)
    (hroom : c.hasRoom 2 = true) (harity : 1 ≤ kind'.maxSources) :
    (c.add kind width sources name loc).Admits kind' width' [some c.nodes.nextId] := by
  refine ⟨hwidth, (hasRoom_add c kind width sources name loc).trans hroom, harity, ?_⟩
  intro src hsrc s hs
  rw [List.mem_singleton.mp hsrc, nextId_eq (hasRoom_one hroom)] at hs
  cases hs
  simp

end Circuit

namespace Build

variable {α β : Type}

/-- From `c` the step either fails and leaves `c` as it is, or ends in a result and a circuit of which
`post` holds. -/
def Ends (step : Build α) (c : Circuit) (post : α → Circuit → Prop) : Prop :=
  match step.run c with
  | .ok a after => post a after
  | .error _ after => after = c

/-- A step that changes nothing and whose results satisfy `good`. -/
abbrev Looks (step : Build α) (c : Circuit) (good : α → Prop) : Prop :=
  Ends step c fun a after => after = c ∧ good a

theorem ends_bind {x : Build α} {f : α → Build β} {c : Circuit} {good : α → Prop}
    {post : β → Circuit → Prop} (hx : Looks x c good) (hf : ∀ a, good a → Ends (f a) c post) :
    Ends (x >>= f) c post := by
  unfold Looks Ends at hx
  unfold Ends
  rw [EStateM.run_bind]
  cases hr : x.run c with
  | ok a after =>
    rw [hr] at hx
    obtain ⟨rfl, ha⟩ := hx
    exact hf a ha
  | error e after =>
    rw [hr] at hx
    exact hx

theorem Ends.mono {step : Build α} {c : Circuit} {post post' : α → Circuit → Prop}
    (h : Ends step c post) (hp : ∀ a after, post a after → post' a after) : Ends step c post' := by
  unfold Ends at *
  cases hr : step.run c with
  | ok a after => rw [hr] at h; exact hp a after h
  | error e after => rw [hr] at h; exact h

theorem Ends.of_run {step : Build α} {c d : Circuit} {post : α → Circuit → Prop} {a : α}
    (h : Ends step c post) (hrun : step.run c = .ok a d) : post a d := by
  unfold Ends at h
  rw [hrun] at h
  exact h

theorem ends_map {step : Build α} {g : α → β} {c : Circuit} {post : β → Circuit → Prop}
    (h : Ends step c fun a after => post (g a) after) : Ends (g <$> step) c post := by
  unfold Ends at *
  rw [map_eq_pure_bind, EStateM.run_bind]
  cases hr : step.run c with
  | ok a after => rw [hr] at h; exact h
  | error e after => rw [hr] at h; exact h

theorem ends_throw {e : Error} {c : Circuit} {post : α → Circuit → Prop} :
    Ends (throw e) c post := rfl

theorem ends_get {f : Circuit → Build β} {c : Circuit} {post : β → Circuit → Prop}
    (h : Ends (f c) c post) : Ends (get >>= f) c post := h

theorem ends_modify {g : Circuit → Circuit} {c : Circuit} {post : Unit → Circuit → Prop}
    (h : post () (g c)) : Ends (modify g) c post := h

theorem looks_require (b : Bool) (e : Error) (c : Circuit) :
    Looks (require b e) c fun _ => b = true := by
  cases b with
  | true => exact ⟨rfl, rfl⟩
  | false => rfl

theorem looks_requireWidth (name : String) (width : Nat) (c : Circuit) :
    Looks (requireWidth name width) c fun _ => width ≠ 0 :=
  (looks_require _ _ c).mono fun _ _ h => ⟨h.1, by simpa using h.2⟩

theorem looks_requireRoom (count : Nat) (c : Circuit) :
    Looks (requireRoom count) c fun _ => c.hasRoom count = true :=
  ends_get (looks_require _ _ c)

theorem looks_requireSource (node : NodeId) (pos : Nat) (src : Option NodeId) (c : Circuit) :
    Looks (requireSource node pos src) c fun _ => c.Inside src := by
  apply ends_get
  cases src with
  | none => exact ⟨rfl, fun s h => nomatch h⟩
  | some s =>
    apply (looks_require _ _ c).mono
    intro _ after h
    refine ⟨h.1, fun t ht => ?_⟩
    cases ht
    simpa [Table.contains, Circuit.size] using h.2

theorem looks_forM {as : List β} {f : β → Build PUnit} {c : Circuit} {good : β → Prop}
    (h : ∀ a ∈ as, Looks (f a) c fun _ => good a) :
    Looks (as.forM f) c fun _ => ∀ a ∈ as, good a := by
  induction as with
  | nil => exact ⟨rfl, fun a ha => nomatch ha⟩
  | cons a as ih =>
    apply ends_bind (h a List.mem_cons_self)
    intro _ ha
    apply (ih fun b hb => h b (List.mem_cons_of_mem a hb)).mono
    intro _ after hrest
    refine ⟨hrest.1, ?_⟩
    intro b hb
    rcases List.mem_cons.mp hb with rfl | hb
    · exact ha
    · exact hrest.2 b hb

theorem looks_requireSources (node : NodeId) (sources : List (Option NodeId)) (c : Circuit) :
    Looks (requireSources node sources) c fun _ => ∀ src ∈ sources, c.Inside src := by
  apply (looks_forM fun a _ => looks_requireSource node a.2 a.1 c).mono
  intro _ after h
  refine ⟨h.1, ?_⟩
  intro src hsrc
  obtain ⟨i, hi, rfl⟩ := List.getElem_of_mem hsrc
  exact h.2 (sources[i], i) (List.mk_mem_zipIdx_iff_getElem?.mpr (List.getElem?_eq_getElem hi))

theorem looks_existing (id : NodeId) (c : Circuit) :
    Looks (existing id) c fun n => c.node? id = some n := by
  apply ends_get
  cases h : c.node? id with
  | none => exact rfl
  | some n => exact ⟨rfl, rfl⟩

theorem looks_existingOf (tag : NodeKind.Tag) (id : NodeId) (c : Circuit) :
    Looks (existingOf tag id) c fun n => c.node? id = some n ∧ n.kind.tag = tag := by
  apply ends_bind (looks_existing id c)
  intro n hn
  apply ends_bind (looks_require _ _ c)
  intro _ htag
  exact ⟨rfl, hn, by simpa using htag⟩

theorem looks_nextId (c : Circuit) :
    Looks nextId c fun id => c.hasRoom 1 = true ∧ id = c.nodes.nextId := by
  apply ends_bind (looks_requireRoom 1 c)
  intro _ hroom
  exact ⟨rfl, hroom, rfl⟩

theorem ends_node (kind : NodeKind) (width : Nat) (sources : List (Option NodeId)) (name : String)
    (loc : Location) (c : Circuit) :
    Ends (node kind width sources name loc) c fun id after => c.Admits kind width sources ∧
      id = c.nodes.nextId ∧ after = c.add kind width sources name loc := by
  apply ends_bind (looks_requireWidth name width c)
  intro _ hwidth
  apply ends_bind (looks_nextId c)
  rintro id ⟨hroom, rfl⟩
  apply ends_bind (looks_require _ _ c)
  intro _ harity
  apply ends_bind (looks_requireSources _ sources c)
  intro _ hinside
  exact ⟨⟨hwidth, hroom, by simpa using harity, hinside⟩, rfl, rfl⟩

theorem run_require {b : Bool} (h : b = true) (e : Error) (c : Circuit) :
    (require b e).run c = .ok () c := by
  subst h
  rfl

theorem run_requireSource {src : Option NodeId} {c : Circuit} (h : c.Inside src) (node : NodeId)
    (pos : Nat) : (requireSource node pos src).run c = .ok () c := by
  cases src with
  | none => rfl
  | some s => exact run_require (by simpa [Table.contains, Circuit.size] using h s rfl) _ c

theorem run_forM {as : List β} {f : β → Build PUnit} {c : Circuit}
    (h : ∀ a ∈ as, (f a).run c = .ok () c) : (as.forM f).run c = .ok () c := by
  induction as with
  | nil => rfl
  | cons a as ih =>
    change EStateM.run (f a >>= fun _ => as.forM f) c = _
    rw [EStateM.run_bind, h a List.mem_cons_self]
    exact ih fun b hb => h b (List.mem_cons_of_mem a hb)

theorem run_node {kind : NodeKind} {width : Nat} {sources : List (Option NodeId)} {c : Circuit}
    (h : c.Admits kind width sources) (name : String) (loc : Location) :
    (node kind width sources name loc).run c =
      .ok c.nodes.nextId (c.add kind width sources name loc) := by
  have hsources : (requireSources c.nodes.nextId sources).run c = .ok () c := by
    apply run_forM
    rintro ⟨src, pos⟩ hmem
    exact run_requireSource (h.inside src (List.fst_mem_of_mem_zipIdx hmem)) _ _
  have hwidth : (requireWidth name width).run c = .ok () c :=
    run_require (by simpa using h.width_ne) _ c
  have hroom : (requireRoom 1).run c = .ok () c := run_require h.room _ c
  have harity (e : Error) : (require (sources.length ≤ kind.maxSources) e).run c = .ok () c :=
    run_require (by simpa using h.arity) e c
  simp only [node, nextId, EStateM.run_bind, EStateM.run_get, EStateM.run_pure, EStateM.run_modify,
    hwidth, hroom, harity, hsources]

/-- Room for both nodes of a port is checked first, so that neither of them can fail afterwards. -/
theorem ends_input (width : Nat) (name : String) (loc : Location) (c : Circuit) :
    Ends (input width name loc) c fun _ after =>
      width ≠ 0 ∧ c.hasRoom 2 = true ∧ after = c.addInput width name loc := by
  apply ends_bind (looks_requireWidth name width c)
  intro _ hwidth
  apply ends_bind (looks_requireRoom 2 c)
  intro _ hroom
  have hproxy : (c.add (.input (.zero width) none none) width [] name loc).Admits .proxy width
      [some c.nodes.nextId] := Circuit.admits_second hwidth hroom (Nat.le_refl 1)
  simp only [Ends, EStateM.run_bind, run_node (Circuit.admits_input hwidth hroom),
    run_node hproxy, EStateM.run_modify, EStateM.run_pure]
  exact ⟨hwidth, hroom, rfl⟩

theorem ends_output (width : Nat) (name : String) (loc : Location) (c : Circuit) :
    Ends (output width name loc) c fun _ after =>
      width ≠ 0 ∧ c.hasRoom 2 = true ∧ after = c.addOutput width name loc := by
  apply ends_bind (looks_requireWidth name width c)
  intro _ hwidth
  apply ends_bind (looks_requireRoom 2 c)
  intro _ hroom
  have hport : (c.add .proxy width [none] name loc).Admits .output width [some c.nodes.nextId] :=
    Circuit.admits_second hwidth hroom (Nat.le_refl 1)
  simp only [Ends, EStateM.run_bind, run_node (Circuit.admits_feed hwidth hroom), run_node hport]
  exact ⟨hwidth, hroom, rfl⟩

theorem looks_operandWidth (rhs : Option NodeId) (c : Circuit) :
    Looks (rhs.mapM fun r => return (← existing r).width) c fun w =>
      rhs.map c.widthOf? = w.map some := by
  cases rhs with
  | none => exact ⟨rfl, rfl⟩
  | some r =>
    apply ends_map
    apply ends_bind (looks_existing r c)
    intro n hn
    exact ⟨rfl, by simp [Circuit.widthOf?, hn]⟩

theorem ends_operation (spec : Operator) (lhs : NodeId) (rhs : Option NodeId) (name : String)
    (loc : Location) (c : Circuit) :
    Ends (operation spec lhs rhs name loc) c fun _ after =>
      ∃ width, c.Admits (.operation spec.op spec.signed) width (some lhs :: rhs.toList.map some) ∧
        (c.config.strictWidths = true → spec.op.isShift = false →
          ∀ r, rhs = some r → c.widthOf? lhs = c.widthOf? r) ∧
        after = c.add (.operation spec.op spec.signed) width (some lhs :: rhs.toList.map some) name
          loc := by
  apply ends_bind (looks_nextId c)
  intro id _
  apply ends_bind (looks_require _ _ c)
  intro _ _
  apply ends_bind (looks_existing lhs c)
  intro l hl
  apply ends_bind (looks_operandWidth rhs c)
  intro w hw
  cases w with
  | none =>
    refine (ends_node _ _ _ name loc c).mono fun _ _ h => ⟨_, h.1, fun _ _ r hr => ?_, h.2.2⟩
    cases hr
    cases hw
  | some w =>
    apply ends_get
    apply ends_bind (looks_require _ _ c)
    intro _ hlevel
    refine (ends_node _ _ _ name loc c).mono fun _ _ h => ⟨_, h.1, ?_, h.2.2⟩
    rintro hstrict hshift r rfl
    have hr : c.widthOf? r = some w := Option.some.inj hw
    rw [hr]
    simpa [hstrict, hshift, Circuit.widthOf?, hl] using hlevel

theorem ends_proxy (src : NodeId) (name : String) (loc : Location) (c : Circuit) :
    Ends (proxy src name loc) c fun _ after =>
      ∃ width, c.Admits .proxy width [some src] ∧
        after = c.add .proxy width [some src] name loc := by
  apply ends_bind (looks_existing src c)
  intro n _
  exact (ends_node .proxy n.width [some src] name loc c).mono fun _ _ h => ⟨n.width, h.1, h.2.2⟩

theorem ends_memory (width depth : Nat) (init : List Word) (name : String) (loc : Location)
    (c : Circuit) :
    Ends (memory width depth init name loc) c fun _ after =>
      ∃ words, (0 < depth ∧ words.size = depth ∧ ∀ word ∈ words, word.width = width) ∧
        c.Admits (.memory depth words c.clock) width [none, none, none, none] ∧
        after = c.add (.memory depth words c.clock) width [none, none, none, none] name loc := by
  apply ends_bind (looks_requireWidth name width c)
  intro _ _
  apply ends_bind (looks_require _ _ c)
  intro _ hdepth
  apply ends_get
  refine (ends_node _ width _ name loc c).mono fun _ _ h => ⟨_, ⟨?_, ?_, ?_⟩, h.1, h.2.2⟩
  · simp at hdepth
    omega
  · simp at hdepth
    simp
    omega
  · intro word hword
    simp only [List.mem_toArray, List.mem_append, List.mem_map, List.mem_replicate] at hword
    rcases hword with ⟨given, _, rfl⟩ | ⟨_, rfl⟩ <;> rfl

theorem ends_connect (id : NodeId) (pos : Nat) (src : Option NodeId) (c : Circuit) :
    Ends (connect id pos src) c fun _ after =>
      ∃ n, c.node? id = some n ∧ pos < n.kind.maxSources ∧ c.Inside src ∧
        after = c.modifyNode id (·.setSource pos src) := by
  apply ends_bind (looks_existing id c)
  intro n hn
  apply ends_bind (looks_require _ _ c)
  intro _ hpos
  apply ends_bind (looks_requireSource id pos src c)
  intro _ hsrc
  exact ends_modify ⟨n, hn, by simpa using hpos, hsrc, rfl⟩

theorem ends_connectNext (id next : NodeId) (c : Circuit) :
    Ends (connectNext id next) c fun _ after =>
      ∃ n, c.ofTag? .register id = some n ∧ 1 < n.kind.maxSources ∧ c.Inside (some next) ∧
        after = c.modifyNode id (·.setSource 1 (some next)) := by
  apply ends_bind (looks_existingOf .register id c)
  intro n hn
  apply (ends_connect id 1 (some next) c).mono
  rintro _ _ ⟨m, hm, hpos, hsrc, rfl⟩
  cases hn.1.symm.trans hm
  exact ⟨n, Circuit.ofTag?_eq_some.mpr hn, hpos, hsrc, rfl⟩

theorem ends_drive (id driver : NodeId) (c : Circuit) :
    Ends (drive id driver) c fun _ after =>
      ∃ feed n, c.outputProxy? id = some feed ∧ c.node? feed = some n ∧ 0 < n.kind.maxSources ∧
        c.Inside (some driver) ∧ after = c.modifyNode feed (·.setSource 0 (some driver)) := by
  apply ends_bind (looks_existingOf .output id c)
  intro port hport
  cases hfeed : port.source? 0 with
  | none => exact ends_throw
  | some feed =>
    have hproxy : c.outputProxy? id = some feed := by
      rw [Circuit.outputProxy?, Circuit.ofTag?_eq_some.mpr hport, Option.bind_some, hfeed]
    apply (ends_connect feed 0 (some driver) c).mono
    rintro _ _ ⟨n, h⟩
    exact ⟨feed, n, hproxy, h⟩

theorem ends_noteDriver (id driver : NodeId) (c : Circuit) :
    Ends (noteDriver id driver) c fun _ after => ∃ n f value driver' proxy,
      c.node? id = some n ∧ n.kind = .input value driver' proxy ∧
        f n = { n with kind := .input value (some driver) proxy } ∧ after = c.modifyNode id f := by
  apply ends_bind (looks_existingOf .input id c)
  rintro n ⟨hn, htag⟩
  apply ends_bind (looks_requireSource id 0 (some driver) c)
  intro _ _
  obtain ⟨value, driver', proxy, hkind⟩ := NodeKind.eq_input htag
  exact ends_modify ⟨n, _, value, driver', proxy, hn, hkind, by rw [hkind], rfl⟩

theorem ends_preset (id : NodeId) (value : Word) (c : Circuit) :
    Ends (preset id value) c fun _ after => ∃ n f value' driver proxy,
      c.node? id = some n ∧ n.kind = .input value' driver proxy ∧
        f n = { n with kind := .input (value.truncate n.width) driver proxy } ∧
        after = c.modifyNode id f := by
  apply ends_bind (looks_existingOf .input id c)
  rintro n ⟨hn, htag⟩
  obtain ⟨value', driver, proxy, hkind⟩ := NodeKind.eq_input htag
  exact ends_modify ⟨n, _, value', driver, proxy, hn, hkind, by rw [hkind], rfl⟩

theorem ends_useClock (id : NodeId) (c : Circuit) :
    Ends (useClock id) c fun _ after => id.index < c.size ∧ after = { c with clock := some id } := by
  apply ends_bind (looks_existing id c)
  intro n hn
  exact ends_modify ⟨Circuit.lt_size_of_node? hn, rfl⟩

theorem ends_useReset (id : NodeId) (c : Circuit) :
    Ends (useReset id) c fun _ after => id.index < c.size ∧ after = { c with reset := some id } := by
  apply ends_bind (looks_existing id c)
  intro n hn
  exact ends_modify ⟨Circuit.lt_size_of_node? hn, rfl⟩

end Build

end Netlist
