import Netlist.Proofs.Search

namespace Netlist

namespace Circuit

variable {c : Circuit}

namespace Search

variable {s t : State} {roots finished : List NodeId} {n : Node} {id dep : NodeId} {pos : Nat}
  {outer : List Frame}

/-- All that a node of the list depends on comes after it. -/
def Closed (c : Circuit) : List NodeId → Prop
  | [] => True
  | id :: older => (∀ dep, c.Depends dep id → dep ∈ older) ∧ Closed c older

/-- Each frame has looked at a front part of its dependencies, and those are finished but for the
frame above, which is one of them. -/
def Stacked (c : Circuit) (finished : List NodeId) : Option NodeId → List Frame → Prop
  | _, [] => True
  | above, f :: outer =>
    (∃ seen, c.dependencies f.id = seen ++ f.pending c ∧
      ∀ dep ∈ seen, dep ∈ finished ∨ above = some dep) ∧
    (∀ dep, above = some dep → c.Depends dep f.id) ∧ Stacked c finished (some f.id) outer

structure Invariant (c : Circuit) (s : State) : Prop where
  bounded : Bounded c s
  active : ∀ id, s.mark id = .active ↔ id ∈ s.stack.map (·.id)
  done : ∀ id, id.index < c.size → (s.mark id = .done ↔ id ∈ s.finished)
  inside : ∀ id ∈ s.finished, id.index < c.size
  nodup_stack : (s.stack.map (·.id)).Nodup
  nodup_finished : s.finished.Nodup
  closed : Closed c s.finished
  stacked : Stacked c s.finished none s.stack

theorem Stacked.mono {above : Option NodeId} {stack : List Frame} {more : List NodeId}
    (h : Stacked c finished above stack) (hmore : ∀ id ∈ finished, id ∈ more) :
    Stacked c more above stack := by
  induction stack generalizing above with
  | nil => trivial
  | cons f outer ih =>
    obtain ⟨⟨seen, hseen, hdone⟩, habove, houter⟩ := h
    exact ⟨⟨seen, hseen, fun dep hdep => (hdone dep hdep).imp_left (hmore dep)⟩, habove, ih houter⟩

theorem Stacked.finish {stack : List Frame}
    (h : Stacked c finished (some id) stack) : Stacked c (id :: finished) none stack := by
  cases stack with
  | nil => trivial
  | cons f outer =>
    obtain ⟨⟨seen, hseen, hdone⟩, habove, houter⟩ := h
    refine ⟨⟨seen, hseen, fun dep hdep => ?_⟩, (fun _ h => nomatch h),
      houter.mono fun _ hid => List.mem_cons_of_mem id hid⟩
    rcases hdone dep hdep with hfin | hid
    · exact .inl (List.mem_cons_of_mem id hfin)
    · cases hid
      exact .inl List.mem_cons_self

/-- The stack is a path: each frame depends on the ones above it. -/
theorem Stacked.transGen {above : Option NodeId} {f : Frame}
    (h : Stacked c finished above (f :: outer)) :
    ∀ g ∈ outer, Relation.TransGen c.Depends f.id g.id := by
  induction outer generalizing above f with
  | nil => exact fun g hg => nomatch hg
  | cons e outer ih =>
    have houter : Stacked c finished (some f.id) (e :: outer) := h.2.2
    have hstep : c.Depends f.id e.id := houter.2.1 f.id rfl
    intro g hg
    rcases List.mem_cons.mp hg with rfl | hg
    · exact .single hstep
    · exact .head hstep (ih houter g hg)

theorem invariant_start (c : Circuit) : Invariant c (start c) where
  bounded := bounded_start c
  active id := by
    rw [mark_start]
    split <;> simp [start]
  done id hid := by
    rw [mark_start, if_pos hid]
    simp [start]
  inside _ h := nomatch h
  nodup_stack := List.nodup_nil
  nodup_finished := List.nodup_nil
  closed := trivial
  stacked := trivial

theorem Invariant.enter (h : Invariant c s) {stack : List Frame}
    (hids : stack.map (·.id) = s.stack.map (·.id))
    (hbounded : Bounded c { s with stack := stack })
    (hstacked : Stacked c s.finished (some id) stack) (hid : id.index < c.size)
    (hmark : s.mark id = .fresh) : Invariant c ({ s with stack := stack }.enter id) := by
  have hin : id.index < s.marks.size := by rwa [h.bounded.marks]
  have hmarks := mark_enter (s := { s with stack := stack }) hin
  -- what is on the stack is marked as active, and the new node is fresh
  have hnew : id ∉ s.stack.map (·.id) := by
    rw [← h.active, hmark]
    exact fun h => nomatch h
  refine ⟨hbounded.enter hid, fun other => ?_, fun other hother => ?_, h.inside, ?_,
    h.nodup_finished, h.closed, ?_⟩
  · change _ ↔ other ∈ id :: stack.map (·.id)
    rw [hmarks, List.mem_cons, hids]
    by_cases he : id = other
    · simp [he]
    · rw [if_neg he]
      exact (h.active other).trans ⟨.inr, fun hor => hor.resolve_left (Ne.symm he)⟩
  · rw [hmarks]
    change _ ↔ other ∈ s.finished
    by_cases he : id = other
    · subst he
      rw [← h.done id hid, hmark]
      simp
    · rw [if_neg he]
      exact h.done other hother
  · change (id :: stack.map (·.id)).Nodup
    rw [hids]
    exact List.nodup_cons.mpr ⟨hnew, h.nodup_stack⟩
  · exact ⟨⟨[], (Frame.pending_zero c id).symm, fun _ h => nomatch h⟩, (fun _ h => nomatch h),
      hstacked⟩

theorem Invariant.finish (h : Invariant c s) (hn : c.node? id = some n)
    (hstack : s.stack = ⟨id, n.sources.length⟩ :: outer) : Invariant c (s.finish id outer) := by
  have hid : id.index < c.size := lt_size_of_node? hn
  have hin : id.index < s.marks.size := by rwa [h.bounded.marks]
  have hnodup := h.nodup_stack
  have hstacked := h.stacked
  rw [hstack] at hnodup hstacked
  obtain ⟨hnot, hnodup⟩ := List.nodup_cons.mp hnodup
  have hactive : s.mark id = .active := (h.active id).mpr (by simp [hstack])
  have hnew : id ∉ s.finished := by
    rw [← h.done id hid, hactive]
    exact fun h => nomatch h
  refine ⟨h.bounded.finish hstack, fun other => ?_, fun other hother => ?_, ?_, hnodup,
    List.nodup_cons.mpr ⟨hnew, h.nodup_finished⟩, ⟨fun dep hdep => ?_, h.closed⟩,
    hstacked.2.2.finish⟩
  · rw [mark_finish hin]
    change _ ↔ other ∈ outer.map (·.id)
    by_cases he : id = other
    · subst he
      simpa using hnot
    · rw [if_neg he, h.active other, hstack]
      simp [Ne.symm he]
  · rw [mark_finish hin]
    change _ ↔ other ∈ id :: s.finished
    by_cases he : id = other
    · simp [he]
    · rw [if_neg he, h.done other hother]
      simp [Ne.symm he]
  · intro other hother
    rcases List.mem_cons.mp hother with rfl | hother
    · exact hid
    · exact h.inside other hother
  · -- nothing is pending, so all dependencies were seen, and no frame is above
    obtain ⟨⟨seen, hseen, hdone⟩, -, -⟩ := hstacked
    have hended : look n n.sources.length = .ended := look_eq_ended_iff.mpr (Nat.le_refl _)
    rw [Frame.pending_of_ended hn hended, List.append_nil] at hseen
    have hmem : dep ∈ seen := hseen ▸ mem_dependencies.mpr hdep
    exact (hdone dep hmem).resolve_right fun h => nomatch h

theorem Invariant.advance (h : Invariant c s) (hstack : s.stack = ⟨id, pos⟩ :: outer)
    (hn : c.node? id = some n) (hlook : look n pos ≠ .ended)
    (hstacked : Stacked c s.finished none (⟨id, pos + 1⟩ :: outer)) :
    Invariant c (s.advance id pos outer) := by
  have hids : (⟨id, pos + 1⟩ :: outer : List Frame).map (·.id) = s.stack.map (·.id) := by
    simp [hstack]
  refine ⟨h.bounded.advance hstack hn hlook, fun other => ?_, h.done, h.inside, ?_, h.nodup_finished,
    h.closed, hstacked⟩
  · change _ ↔ other ∈ (⟨id, pos + 1⟩ :: outer : List Frame).map (·.id)
    rw [hids]
    exact h.active other
  · change ((⟨id, pos + 1⟩ :: outer : List Frame).map (·.id)).Nodup
    rw [hids]
    exact h.nodup_stack

theorem Invariant.pass (h : Invariant c s) (hstack : s.stack = ⟨id, pos⟩ :: outer)
    (hn : c.node? id = some n) (hlook : look n pos = .idle) :
    Invariant c (s.advance id pos outer) := by
  have hstacked := h.stacked
  rw [hstack] at hstacked
  obtain ⟨⟨seen, hseen, hdone⟩, habove, houter⟩ := hstacked
  refine h.advance hstack hn (by rw [hlook]; exact nofun) ⟨⟨seen, ?_, hdone⟩, habove, houter⟩
  rw [Frame.pending_of_idle hn hlook]
  exact hseen

/-- The next dependency is looked at, and is finished or is entered next. -/
theorem Invariant.stacked_advance (h : Invariant c s) {above : Option NodeId}
    (hstack : s.stack = ⟨id, pos⟩ :: outer) (hn : c.node? id = some n)
    (hlook : look n pos = .dependency dep)
    (hdep : dep ∈ s.finished ∧ above = none ∨ above = some dep) :
    Stacked c s.finished above (⟨id, pos + 1⟩ :: outer) := by
  have hstacked := h.stacked
  rw [hstack] at hstacked
  obtain ⟨⟨seen, hseen, hdone⟩, -, houter⟩ := hstacked
  rw [Frame.pending_of_dependency hn hlook] at hseen
  refine ⟨⟨seen ++ [dep], by simpa using hseen, fun d hd => ?_⟩, fun d hd => ?_, houter⟩
  · rcases List.mem_append.mp hd with hd | hd
    · exact .inl ((hdone d hd).resolve_right fun h => nomatch h)
    · rw [List.mem_singleton.mp hd]
      exact hdep.imp_left And.left
  · rcases hdep with ⟨_, hnone⟩ | hsome
    · exact absurd (hnone.symm.trans hd) (fun h => nomatch h)
    · rw [← Option.some.inj (hsome.symm.trans hd)]
      exact depends_of_look hn hlook

theorem Invariant.skip (h : Invariant c s) (hc : c.WellFormed)
    (hstack : s.stack = ⟨id, pos⟩ :: outer) (hn : c.node? id = some n)
    (hlook : look n pos = .dependency dep) (hmark : s.mark dep = .done) :
    Invariant c (s.advance id pos outer) := by
  have hdep : dep.index < c.size := (depends_of_look hn hlook).source_lt hc
  exact h.advance hstack hn (by rw [hlook]; exact nofun)
    (h.stacked_advance hstack hn hlook (.inl ⟨(h.done dep hdep).mp hmark, rfl⟩))

theorem Invariant.enter_root (h : Invariant c s) (hstack : s.stack = []) (hid : id.index < c.size)
    (hmark : s.mark id = .fresh) : Invariant c (s.enter id) := by
  refine h.enter rfl h.bounded ?_ hid hmark
  rw [hstack]
  trivial

theorem Invariant.enter_dependency (h : Invariant c s) (hc : c.WellFormed)
    (hstack : s.stack = ⟨id, pos⟩ :: outer) (hn : c.node? id = some n)
    (hlook : look n pos = .dependency dep) (hmark : s.mark dep = .fresh) :
    Invariant c ((s.advance id pos outer).enter dep) :=
  h.enter (by simp [hstack]) (h.bounded.advance hstack hn (by rw [hlook]; exact nofun))
    (h.stacked_advance hstack hn hlook (.inr rfl)) ((depends_of_look hn hlook).source_lt hc) hmark

/-- The innermost node looks at a dependency which is being expanded itself. -/
def State.Meets (c : Circuit) (s : State) (dep : NodeId) : Prop :=
  (∃ id n pos outer, s.stack = ⟨id, pos⟩ :: outer ∧ c.node? id = some n ∧
    look n pos = .dependency dep) ∧ s.mark dep = .active

theorem Invariant.transGen_of_meets (h : Invariant c s) (hmeets : s.Meets c dep) :
    Relation.TransGen c.Depends dep dep := by
  obtain ⟨⟨id, n, pos, outer, hstack, hn, hlook⟩, hmark⟩ := hmeets
  have hstacked := h.stacked
  have hmem := (h.active dep).mp hmark
  rw [hstack] at hstacked hmem
  have hdepends : c.Depends dep id := depends_of_look hn hlook
  rcases List.mem_cons.mp hmem with rfl | hmem
  · exact .single hdepends
  · obtain ⟨g, hg, rfl⟩ := List.mem_map.mp hmem
    exact .head hdepends (hstacked.transGen g hg)

/-- What a run that starts in `s` comes to: a state with nothing on the stack in which all roots are
visited, or a state that meets a cycle. -/
def Outcome (c : Circuit) (roots : List NodeId) (s : State) : Except (List NodeId) State → Prop
  | .ok t => Invariant c t ∧ t.stack = [] ∧ (∀ id, s.mark id ≠ .fresh → t.mark id ≠ .fresh) ∧
      ∀ root ∈ roots, t.mark root ≠ .fresh
  | .error cycle => ∃ t dep, Invariant c t ∧ t.Meets c dep ∧ cycle = t.cycleFrom dep

theorem Outcome.of_step {r : Except (List NodeId) State} (h : Outcome c roots t r)
    (hmarks : ∀ id, s.mark id ≠ .fresh → t.mark id ≠ .fresh) : Outcome c roots s r := by
  cases r with
  | error cycle => exact h
  | ok u => exact ⟨h.1, h.2.1, fun id hid => h.2.2.1 id (hmarks id hid), h.2.2.2⟩

theorem Outcome.of_root {r : Except (List NodeId) State} {root : NodeId} (h : Outcome c roots t r)
    (hmarks : ∀ id, s.mark id ≠ .fresh → t.mark id ≠ .fresh) (hroot : t.mark root ≠ .fresh) :
    Outcome c (root :: roots) s r := by
  cases r with
  | error cycle => exact h
  | ok u =>
    refine ⟨h.1, h.2.1, fun id hid => h.2.2.1 id (hmarks id hid), fun id hid => ?_⟩
    rcases List.mem_cons.mp hid with rfl | hid
    · exact h.2.2.1 id hroot
    · exact h.2.2.2 id hid

theorem mark_enter_ne_fresh (hin : id.index < s.marks.size) (other : NodeId)
    (h : s.mark other ≠ .fresh) : (s.enter id).mark other ≠ .fresh := by
  rw [mark_enter hin]
  split
  · decide
  · exact h

theorem Completes.outcome (hc : c.WellFormed) {r : Except (List NodeId) State}
    (h : Completes c roots s r) (hs : Invariant c s) : Outcome c roots s r := by
  -- nodes that are visited stay so, which carries the roots from where they are taken to the end
  induction h with
  | halt hstack => exact ⟨hs, hstack, fun _ h => h, fun _ h => nomatch h⟩
  | known _ _ hmark _ ih => exact (ih hs).of_root (fun _ h => h) hmark
  | root hstack hin hmark hnode _ ih =>
    refine (ih (hs.enter_root hstack hnode hmark)).of_root (mark_enter_ne_fresh hin) ?_
    rw [mark_enter hin, if_pos rfl]
    decide
  | finish hstack hn hin _ ih =>
    refine (ih (hs.finish hn hstack)).of_step fun other hother => ?_
    rw [mark_finish hin]
    split
    · decide
    · exact hother
  | pass hstack hn hlook _ ih => exact (ih (hs.pass hstack hn hlook)).of_step fun _ h => h
  | @enter id dep n pos outer roots s r hstack hn hlook hin hmark _ _ ih =>
    exact (ih (hs.enter_dependency hc hstack hn hlook hmark)).of_step
      (mark_enter_ne_fresh (s := s.advance id pos outer) hin)
  | skip hstack hn hlook _ hmark _ ih =>
    exact (ih (hs.skip hc hstack hn hlook hmark)).of_step fun _ h => h
  | cycle hstack hn hlook _ hmark =>
    exact ⟨_, _, hs, ⟨⟨_, _, _, _, hstack, hn, hlook⟩, hmark⟩, rfl⟩

theorem Closed.mem_older {finished newer older : List NodeId} {dep id : NodeId}
    (h : Closed c finished) (hf : finished = newer ++ id :: older) (hd : c.Depends dep id) :
    dep ∈ older := by
  subst hf
  induction newer with
  | nil => exact h.1 dep hd
  | cons _ newer ih => exact ih h.2

theorem Outcome.isOrder (h : Outcome c c.ids (start c) (.ok t)) : c.IsOrder t.finished.reverse := by
  obtain ⟨hinv, hstack, -, hroots⟩ := h
  have hall (id : NodeId) : id ∈ t.finished ↔ id ∈ c.ids := by
    refine ⟨fun hid => mem_ids.mpr (hinv.inside id hid), fun hid => ?_⟩
    have hactive : t.mark id ≠ .active := by simp [hinv.active, hstack]
    rw [← hinv.done id (mem_ids.mp hid)]
    cases hmark : t.mark id with
    | fresh => exact absurd hmark (hroots id hid)
    | active => exact absurd hmark hactive
    | done => rfl
  refine ⟨?_, fun {dep id} hd => ?_⟩
  · refine (List.perm_ext_iff_of_nodup (List.nodup_reverse.mpr hinv.nodup_finished) c.nodup_ids).mpr ?_
    intro id
    rw [List.mem_reverse, hall]
  · obtain ⟨newer, older, hsplit⟩ := List.append_of_mem ((hall id).mpr hd.mem_ids)
    have hdep : dep ∈ older.reverse := List.mem_reverse.mpr (hinv.closed.mem_older hsplit hd)
    have hnot : id ∉ older.reverse := by
      have hnodup := hinv.nodup_finished
      rw [hsplit] at hnodup
      rw [List.mem_reverse]
      exact (List.nodup_cons.mp (List.nodup_append.mp hnodup).2.1).1
    have hrev : t.finished.reverse = older.reverse ++ id :: newer.reverse := by simp [hsplit]
    rw [hrev, List.idxOf_append_of_mem hdep, List.idxOf_append_of_notMem hnot]
    exact Nat.lt_add_right _ (List.idxOf_lt_length_of_mem hdep)

/-- The search finds an order, or the members of a cycle. -/
theorem cases_search (hc : c.WellFormed) :
    (∃ order, c.search = .ok order ∧ c.IsOrder order) ∨
      ∃ t dep, Invariant c t ∧ t.Meets c dep ∧ c.search = .error (t.cycleFrom dep) := by
  obtain ⟨r, hrun, hsearch⟩ := exists_completes hc
  have houtcome := hrun.outcome hc (invariant_start c)
  rw [hsearch]
  cases r with
  | ok t => exact .inl ⟨_, rfl, houtcome.isOrder⟩
  | error cycle =>
    obtain ⟨t, dep, hinv, hmeets, rfl⟩ := houtcome
    exact .inr ⟨t, dep, hinv, hmeets, rfl⟩

end Search

open Search

theorem order_eq_ok_iff {order : List NodeId} : c.order = .ok order ↔ c.search = .ok order := by
  unfold Circuit.order
  cases c.search <;> simp [Except.mapError]

theorem map_fst_named (c : Circuit) (cycle : List NodeId) :
    (cycle.map fun id => (id, c.nameOf id)).map Prod.fst = cycle := by
  rw [List.map_map]
  exact List.map_id' cycle

theorem isOrder_of_order {order : List NodeId} (hc : c.WellFormed) (h : c.order = .ok order) :
    c.IsOrder order := by
  rw [order_eq_ok_iff] at h
  obtain ⟨found, hfound, hisOrder⟩ | ⟨t, dep, -, -, herror⟩ := cases_search hc
  · cases h.symm.trans hfound
    exact hisOrder
  · cases h.symm.trans herror

theorem exists_order_iff_acyclic (hc : c.WellFormed) : (∃ order, c.order = .ok order) ↔ c.Acyclic := by
  constructor
  · rintro ⟨order, h⟩
    exact (isOrder_of_order hc h).acyclic
  · intro hacyclic
    obtain ⟨order, horder, -⟩ | ⟨t, dep, hinv, hmeets, -⟩ := cases_search hc
    · exact ⟨order, order_eq_ok_iff.mpr horder⟩
    · exact absurd (hinv.transGen_of_meets hmeets) (hacyclic dep)

theorem WellFormed.exists_isOrder (hc : c.WellFormed) (hacyclic : c.Acyclic) :
    ∃ order, c.order = .ok order ∧ c.IsOrder order := by
  obtain ⟨order, horder⟩ := (exists_order_iff_acyclic hc).mpr hacyclic
  exact ⟨order, horder, isOrder_of_order hc horder⟩

/-- Ordering comes to an end, looks at no node and no mark outside the circuit, and succeeds exactly
if the dependencies have no cycle; the order then has every node once, and after all that it depends
on. -/
theorem order_of_reachable (h : c.Reachable) :
    (∃ r, Completes c c.ids (start c) r ∧ c.search = r.map (·.finished.reverse)) ∧
      ((∃ order, c.order = .ok order) ↔ c.Acyclic) ∧
      ∀ order, c.order = .ok order → order.Perm c.ids ∧ order.Nodup ∧
        ∀ dep id, c.Depends dep id → order.idxOf dep < order.idxOf id :=
  have hc := h.wellFormed
  ⟨exists_completes hc, exists_order_iff_acyclic hc, fun _ horder =>
    have hisOrder := isOrder_of_order hc horder
    ⟨hisOrder.perm, hisOrder.nodup, fun _ _ hd => hisOrder.before hd⟩⟩

/-- A register that counts up through an adder, which closes a loop across the clock edge. -/
def counterCalls : List Call :=
  [.literal (.ofNat 4 1) "one" .unknown, .register 4 (some ⟨0⟩) "count" .unknown,
   .operation { op := .add } ⟨1⟩ (some ⟨0⟩) "sum" .unknown, .connectNext ⟨1⟩ ⟨2⟩]

/-- The adder feeds itself, past the clock edge. -/
def shortedCalls : List Call := counterCalls ++ [.connect ⟨2⟩ 1 (some ⟨2⟩)]

theorem order_of_counter :
    (ofCalls counterCalls).order = .ok [⟨0⟩, ⟨1⟩, ⟨2⟩] ∧ (ofCalls counterCalls).Acyclic ∧
      (∀ dep id, (ofCalls counterCalls).Depends dep id →
        [⟨0⟩, ⟨1⟩, ⟨2⟩].idxOf dep < [⟨0⟩, ⟨1⟩, ⟨2⟩].idxOf id) ∧
      ¬ (ofCalls shortedCalls).Acyclic := by
  have hreachable (calls : List Call) : (ofCalls calls).Reachable :=
    reachableBy_ofCalls fun _ _ => trivial
  obtain ⟨-, hacyclic, horder⟩ := order_of_reachable (hreachable counterCalls)
  obtain ⟨-, hshorted, -⟩ := order_of_reachable (hreachable shortedCalls)
  have hfound : (ofCalls counterCalls).order = .ok [⟨0⟩, ⟨1⟩, ⟨2⟩] := by decide
  have hcycle : (ofCalls shortedCalls).search = .error [⟨2⟩] := by rfl
  refine ⟨hfound, hacyclic.mp ⟨_, hfound⟩, (horder _ hfound).2.2, fun h => ?_⟩
  obtain ⟨order, h⟩ := hshorted.mpr h
  cases (order_eq_ok_iff.mp h).symm.trans hcycle

end Circuit

end Netlist
