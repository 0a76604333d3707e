import Mathlib.Data.List.Chain
import Mathlib.Data.List.Perm.Subperm
import Netlist.Proofs.Dependency

namespace Netlist

namespace Circuit

/-- Node `id` is a proxy, and its source 0 is connected to `next`. -/
def Passes (c : Circuit) (id next : NodeId) : Prop :=
  ∃ n, c.node? id = some n ∧ n.kind = .proxy ∧ n.source? 0 = some next

/-- Finitely many proxies, or none, lead from `id` to `last`. -/
abbrev PassesTo (c : Circuit) : NodeId → NodeId → Prop := Relation.ReflTransGen c.Passes

def Loops (c : Circuit) (id : NodeId) : Prop := Relation.TransGen c.Passes id id

def IsLiteral (c : Circuit) (id : NodeId) (value : Word) : Prop :=
  ∃ n, c.node? id = some n ∧ n.kind = .literal value

/-- A proxy that is not connected, or a node that is neither a proxy nor a literal. -/
def EndsOpen (c : Circuit) (id : NodeId) : Prop :=
  ∃ n, c.node? id = some n ∧
    (n.kind = .proxy ∧ n.source? 0 = none ∨ n.kind.tag ≠ .proxy ∧ n.kind.tag ≠ .literal)

variable {c : Circuit} {id next last : NodeId} {value : Word}

theorem Passes.unique {other : NodeId} (h : c.Passes id next) (h' : c.Passes id other) :
    next = other := by
  obtain ⟨n, hn, -, hsrc⟩ := h
  obtain ⟨m, hm, -, hsrc'⟩ := h'
  cases hn.symm.trans hm
  exact Option.some.inj (hsrc.symm.trans hsrc')

theorem IsLiteral.not_passes (h : c.IsLiteral id value) (next : NodeId) : ¬ c.Passes id next := by
  rintro ⟨m, hm, hproxy, -⟩
  obtain ⟨n, hn, hkind⟩ := h
  cases hn.symm.trans hm
  rw [hkind] at hproxy
  cases hproxy

theorem EndsOpen.not_passes (h : c.EndsOpen id) (next : NodeId) : ¬ c.Passes id next := by
  rintro ⟨m, hm, hproxy, hsrc⟩
  obtain ⟨n, hn, hopen⟩ := h
  cases hn.symm.trans hm
  rcases hopen with ⟨-, hnone⟩ | ⟨htag, -⟩
  · rw [hnone] at hsrc
    cases hsrc
  · exact htag (by rw [hproxy]; rfl)

theorem EndsOpen.not_isLiteral (h : c.EndsOpen id) : ¬ c.IsLiteral id value := by
  rintro ⟨m, hm, hliteral⟩
  obtain ⟨n, hn, hopen⟩ := h
  cases hn.symm.trans hm
  rcases hopen with ⟨hproxy, -⟩ | ⟨-, htag⟩
  · rw [hproxy] at hliteral
    cases hliteral
  · exact htag (by rw [hliteral]; rfl)

theorem cases_node {n : Node} (hn : c.node? id = some n) :
    (∃ value, c.IsLiteral id value) ∨ (∃ next, c.Passes id next) ∨ c.EndsOpen id := by
  cases hkind : n.kind with
  | literal value => exact .inl ⟨value, n, hn, hkind⟩
  | proxy =>
    cases hsrc : n.source? 0 with
    | none => exact .inr (.inr ⟨n, hn, .inl ⟨hkind, hsrc⟩⟩)
    | some next => exact .inr (.inl ⟨next, n, hn, hkind, hsrc⟩)
  | _ => exact .inr (.inr ⟨n, hn, .inr (by simp [hkind, NodeKind.tag])⟩)

section Chains

theorem Passes.lt_size (h : c.Passes id next) (hc : c.WellFormed) : next.index < c.size := by
  obtain ⟨n, hn, -, hsrc⟩ := h
  exact hc.inside_of_source? hn hsrc

theorem PassesTo.mem_ids (h : c.PassesTo id last) (hc : c.WellFormed) (hid : id ∈ c.ids) :
    last ∈ c.ids := by
  induction h with
  | refl => exact hid
  | tail _ hlast _ => exact Circuit.mem_ids.mpr (hlast.lt_size hc)

/-- Of two nodes on the chain from `id`, one comes before the other. -/
theorem PassesTo.total {other : NodeId} (h : c.PassesTo id last) (h' : c.PassesTo id other) :
    c.PassesTo last other ∨ c.PassesTo other last :=
  Relation.ReflTransGen.total_of_right_unique (fun _ _ _ => Passes.unique) h h'

/-- A chain that ends has its end behind every node on it. -/
theorem PassesTo.of_end {other : NodeId} (h : c.PassesTo id last) (h' : c.PassesTo id other)
    (hend : ∀ next, ¬ c.Passes last next) : c.PassesTo other last := by
  rcases h.total h' with hafter | hbefore
  · rcases hafter.cases_head with rfl | ⟨next, hnext, -⟩
    · exact .refl
    · exact absurd hnext (hend next)
  · exact hbefore

theorem Loops.passes (h : c.Loops id) (hlast : c.PassesTo id last) : ∃ next, c.Passes last next := by
  have hloops : c.Loops last := by
    induction hlast with
    | refl => exact h
    | tail _ hnext ih =>
      -- the loop goes on where the chain does
      obtain ⟨next, hfirst, hback⟩ := Relation.TransGen.head'_iff.mp ih
      cases hnext.unique hfirst
      exact Relation.TransGen.tail' hback hnext
  obtain ⟨next, hnext, -⟩ := Relation.TransGen.head'_iff.mp hloops
  exact ⟨next, hnext⟩

theorem passesTo_of_isChain {rest : List NodeId} (h : (id :: rest).IsChain c.Passes) :
    ∀ other ∈ id :: rest, c.PassesTo id other := by
  intro other hother
  have hpairs := (h.imp fun _ _ => Relation.TransGen.single).pairwise
  rcases List.mem_cons.mp hother with rfl | hrest
  · exact .refl
  · exact (List.rel_of_pairwise_cons hpairs hrest).to_reflTransGen

/-- A chain on which there is no loop leads through each node at most once. -/
theorem nodup_of_isChain {rest : List NodeId} (h : (id :: rest).IsChain c.Passes)
    (hloop : ∀ other, c.PassesTo id other → ¬ c.Loops other) : (id :: rest).Nodup := by
  have hpairs := (h.imp fun _ _ => Relation.TransGen.single).pairwise
  refine hpairs.imp_of_mem ?_
  intro first second hfirst _ hpath he
  exact hloop first (passesTo_of_isChain h first hfirst) (he ▸ hpath)

theorem WellFormed.length_le_of_isChain (hc : c.WellFormed) (hid : id ∈ c.ids) {rest : List NodeId}
    (h : (id :: rest).IsChain c.Passes)
    (hloop : ∀ other, c.PassesTo id other → ¬ c.Loops other) : rest.length + 1 ≤ c.size := by
  have hsubset : id :: rest ⊆ c.ids := fun other hother =>
    (passesTo_of_isChain h other hother).mem_ids hc hid
  have hle := ((nodup_of_isChain h hloop).subperm hsubset).length_le
  simpa [ids, Table.ids, size] using hle

theorem exists_isChain (h : ∀ other, c.PassesTo id other → ∃ next, c.Passes other next)
    (length : Nat) : ∃ rest : List NodeId, rest.length = length ∧ (id :: rest).IsChain c.Passes := by
  induction length generalizing id with
  | zero => exact ⟨[], rfl, .singleton id⟩
  | succ length ih =>
    obtain ⟨next, hnext⟩ := h id .refl
    obtain ⟨rest, hlength, hchain⟩ := ih fun other hother => h other (.head hnext hother)
    exact ⟨next :: rest, by rw [List.length_cons, hlength], .cons_cons hnext hchain⟩

end Chains

section Walks

/-- The chain from `id` ends in a literal of this value. -/
def LeadsTo (c : Circuit) (id : NodeId) (value : Word) : Prop :=
  ∃ last, c.PassesTo id last ∧ c.IsLiteral last value

theorem LeadsTo.of_passesTo {other : NodeId} (h : c.LeadsTo id value) (hother : c.PassesTo id other) :
    c.LeadsTo other value := by
  obtain ⟨last, hlast, hliteral⟩ := h
  exact ⟨last, hlast.of_end hother hliteral.not_passes, hliteral⟩

theorem LeadsTo.not_loops (h : c.LeadsTo id value) : ¬ c.Loops id := by
  intro hloops
  obtain ⟨last, hlast, hliteral⟩ := h
  obtain ⟨next, hnext⟩ := hloops.passes hlast
  exact hliteral.not_passes next hnext

theorem LeadsTo.not_endsOpen (h : c.LeadsTo id value) : ¬ c.EndsOpen id := by
  intro hopen
  obtain ⟨last, hlast, hliteral⟩ := h
  rcases hlast.cases_head with rfl | ⟨next, hnext, -⟩
  · exact hopen.not_isLiteral hliteral
  · exact hopen.not_passes next hnext

theorem LeadsTo.mem_ids (h : c.LeadsTo id value) : id ∈ c.ids := by
  obtain ⟨last, hlast, n, hn, -⟩ := h
  rcases hlast.cases_head with rfl | ⟨next, ⟨m, hm, -⟩, -⟩
  · exact mem_ids_of_node? hn
  · exact mem_ids_of_node? hm

theorem constantWithin_succ {steps : Nat} : c.constantWithin (steps + 1) id = some value ↔
    c.IsLiteral id value ∨ ∃ next, c.Passes id next ∧ c.constantWithin steps next = some value := by
  unfold IsLiteral Passes
  rw [constantWithin]
  cases hn : c.node? id with
  | none => simp
  | some n =>
    cases hkind : n.kind with
    | proxy => cases hsrc : n.source? 0 <;> simp [hkind, hsrc]
    | _ => simp [hkind]

theorem leadsTo_of_constantWithin {steps : Nat} (h : c.constantWithin steps id = some value) :
    c.LeadsTo id value := by
  induction steps generalizing id with
  | zero => cases h
  | succ steps ih =>
    rcases constantWithin_succ.mp h with hliteral | ⟨next, hnext, hrest⟩
    · exact ⟨id, .refl, hliteral⟩
    · obtain ⟨last, hlast, hliteral⟩ := ih hrest
      exact ⟨last, .head hnext hlast, hliteral⟩

theorem constantWithin_of_isChain {rest : List NodeId} {steps : Nat}
    (h : (id :: rest).IsChain c.Passes)
    (hliteral : c.IsLiteral ((id :: rest).getLast (List.cons_ne_nil id rest)) value)
    (hsteps : rest.length < steps) : c.constantWithin steps id = some value := by
  induction rest generalizing id steps with
  | nil =>
    cases steps with
    | zero => omega
    | succ steps => exact constantWithin_succ.mpr (.inl hliteral)
  | cons next rest ih =>
    cases steps with
    | zero => omega
    | succ steps =>
      rw [List.isChain_cons_cons] at h
      rw [List.getLast_cons (List.cons_ne_nil next rest)] at hliteral
      have hrest := ih h.2 hliteral (Nat.lt_of_succ_lt_succ hsteps)
      exact constantWithin_succ.mpr (.inr ⟨next, h.1, hrest⟩)

/-- The number of nodes is enough steps. -/
theorem WellFormed.constant?_eq_some_iff (hc : c.WellFormed) :
    c.constant? id = some value ↔ c.LeadsTo id value := by
  constructor
  · exact leadsTo_of_constantWithin
  · intro h
    obtain ⟨last, hlast, hliteral⟩ := h
    obtain ⟨rest, hchain, rfl⟩ := List.exists_isChain_cons_of_relationReflTransGen hlast
    have hleads : c.LeadsTo id value := ⟨_, hlast, hliteral⟩
    have hloop : ∀ other, c.PassesTo id other → ¬ c.Loops other := fun other hother =>
      (hleads.of_passesTo hother).not_loops
    have hlength := hc.length_le_of_isChain hleads.mem_ids hchain hloop
    exact constantWithin_of_isChain hchain hliteral (by omega)

/-- A chain without a literal ends without one, or there is a loop on it. -/
theorem WellFormed.constant?_eq_none_iff (hc : c.WellFormed) (hid : id ∈ c.ids) :
    c.constant? id = none ↔
      ∃ last, c.PassesTo id last ∧ (c.EndsOpen last ∨ c.Loops last) := by
  constructor
  · intro hnone
    by_contra hnot
    push Not at hnot
    have hpasses : ∀ other, c.PassesTo id other → ∃ next, c.Passes other next := by
      intro other hother
      obtain ⟨n, hn⟩ := exists_node_of_mem (hother.mem_ids hc hid)
      rcases cases_node hn with ⟨value, hliteral⟩ | hnext | hopen
      · have hsome := hc.constant?_eq_some_iff.mpr ⟨other, hother, hliteral⟩
        rw [hnone] at hsome
        cases hsome
      · exact hnext
      · exact absurd hopen (hnot other hother).1
    -- a chain with more nodes than the circuit has
    obtain ⟨rest, hlength, hchain⟩ := exists_isChain hpasses c.size
    have hle := hc.length_le_of_isChain hid hchain fun other hother => (hnot other hother).2
    omega
  · rintro ⟨last, hlast, hend⟩
    rw [Option.eq_none_iff_forall_ne_some]
    intro value hvalue
    have hleads := (hc.constant?_eq_some_iff.mp hvalue).of_passesTo hlast
    exact hend.elim hleads.not_endsOpen hleads.not_loops

end Walks

/-- The constant of a node is the literal at the end of its chain of proxies. There is none exactly for an id
outside the circuit, for a chain that ends in an unconnected proxy or a node of another kind, and for a chain
that runs into a loop. No number of steps finds a literal that the number of nodes does not. -/
theorem constant_is_end_of_chain (h : c.Reachable) (id : NodeId) :
    (∀ value, c.constant? id = some value ↔
      id ∈ c.ids ∧ ∃ last, c.PassesTo id last ∧ c.IsLiteral last value) ∧
    (c.constant? id = none ↔ id ∉ c.ids ∨ (∃ last, c.PassesTo id last ∧ c.EndsOpen last) ∨
      ∃ entry, c.PassesTo id entry ∧ c.Loops entry) ∧
    ∀ steps value, c.constantWithin steps id = some value → c.constant? id = some value := by
  have hc := h.wellFormed
  refine ⟨fun value => ?_, ?_, fun steps value hfound => ?_⟩
  · rw [hc.constant?_eq_some_iff]
    exact ⟨fun hleads => ⟨hleads.mem_ids, hleads⟩, And.right⟩
  · by_cases hid : id ∈ c.ids
    · rw [hc.constant?_eq_none_iff hid]
      simp only [hid, not_true, false_or, ← exists_or, and_or_left]
    · have hnone : c.constant? id = none := by
        rw [Option.eq_none_iff_forall_ne_some]
        intro value hvalue
        exact hid (hc.constant?_eq_some_iff.mp hvalue).mem_ids
      simp [hid, hnone]
  · exact hc.constant?_eq_some_iff.mpr (leadsTo_of_constantWithin hfound)

/-- Two proxies behind a literal, and three of which the first two drive each other. -/
def knottedCalls : List Call :=
  [.literal (.ofNat 2 3) "k" .unknown, .proxy ⟨0⟩ "p" .unknown, .proxy ⟨1⟩ "q" .unknown,
   .proxy ⟨2⟩ "a" .unknown, .proxy ⟨3⟩ "b" .unknown, .connect ⟨3⟩ 0 (some ⟨4⟩),
   .proxy ⟨4⟩ "c" .unknown]

def knotted : Circuit := .ofCalls knottedCalls

theorem knotted_constants :
    knotted.Reachable ∧ knotted.constant? ⟨2⟩ = some (.ofNat 2 3) ∧
      (∃ last, knotted.PassesTo ⟨2⟩ last ∧ knotted.IsLiteral last (.ofNat 2 3)) ∧
      knotted.PassesTo ⟨5⟩ ⟨4⟩ ∧ knotted.Loops ⟨4⟩ ∧ knotted.constant? ⟨5⟩ = none ∧
      knotted.constant? ⟨6⟩ = none := by
  have hreachable : knotted.Reachable := reachableBy_ofCalls fun _ _ => trivial
  have hfound : knotted.constant? ⟨2⟩ = some (.ofNat 2 3) := by decide +kernel
  have hinto : knotted.PassesTo ⟨5⟩ ⟨4⟩ := .single ⟨_, rfl, rfl, rfl⟩
  have hback : knotted.Passes ⟨4⟩ ⟨3⟩ := ⟨_, rfl, rfl, rfl⟩
  have hforth : knotted.Passes ⟨3⟩ ⟨4⟩ := ⟨_, rfl, rfl, rfl⟩
  have hloops : knotted.Loops ⟨4⟩ := .tail (.single hback) hforth
  have hsome := (constant_is_end_of_chain hreachable ⟨2⟩).1 (.ofNat 2 3)
  have hnone := (constant_is_end_of_chain hreachable ⟨5⟩).2.1
  have houtside := (constant_is_end_of_chain hreachable ⟨6⟩).2.1
  exact ⟨hreachable, hfound, (hsome.mp hfound).2, hinto, hloops,
    hnone.mpr (.inr (.inr ⟨⟨4⟩, hinto, hloops⟩)), houtside.mpr (.inl (by decide))⟩

end Circuit

end Netlist
