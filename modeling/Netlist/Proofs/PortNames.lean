import Netlist.Proofs.DistinctNames
import Netlist.Proofs.LeastNames

namespace Netlist

namespace Naming

variable {c : Circuit} {s : State} {id : NodeId} {n : Node}

theorem at?_nameNode_of_some {other : NodeId} {name : String}
    (h : s.naming.at? (.node other) = some name) (id : NodeId) :
    (nameNode c s id).naming.at? (.node other) = some name := by
  cases hnamed : s.naming.at? (.node id) with
  | some given => rw [nameNode_of_named hnamed, h]
  | none =>
    cases hn : c.node? id with
    | none => rw [nameNode_of_none hn, h]
    | some n =>
      have hne : Place.node id ≠ .node other := by
        intro he
        rw [he, h] at hnamed
        cases hnamed
      rw [nameNode_of_unnamed hn hnamed]
      split
      · rw [State.at?_give, if_neg (by simp), State.at?_give, if_neg hne, h]
      · rw [State.at?_give, if_neg hne, h]

theorem at?_foldl_nameNode_of_some {other : NodeId} {name : String} (ids : List NodeId)
    (h : s.naming.at? (.node other) = some name) :
    (ids.foldl (nameNode c) s).naming.at? (.node other) = some name := by
  induction ids generalizing s with
  | nil => exact h
  | cons first rest ih => exact ih (at?_nameNode_of_some h first)

def stemAt (c : Circuit) (id : NodeId) : String := ((c.node? id).map stem).getD ""

/-- Nodes that have no arrays are named by one request each. -/
theorem map_at?_foldl_nameNode {ids : List NodeId} (hnodup : ids.Nodup)
    (hids : ∀ id ∈ ids, ∃ n, c.node? id = some n ∧ n.kind.tag ≠ .memory)
    (hunnamed : ∀ id ∈ ids, s.naming.at? (.node id) = none) :
    ids.map (fun id => (ids.foldl (nameNode c) s).naming.at? (.node id)) =
      (s.supply.freshAll (ids.map (stemAt c))).map some := by
  induction ids generalizing s with
  | nil => rfl
  | cons first rest ih =>
    obtain ⟨hfirst, hrest⟩ := List.nodup_cons.mp hnodup
    obtain ⟨n, hn, hmemory⟩ := hids first List.mem_cons_self
    have hstem : stemAt c first = stem n := by simp [stemAt, hn]
    have hstep := nameNode_of_unnamed hn (hunnamed first List.mem_cons_self)
    rw [if_neg hmemory] at hstep
    -- the others are still to be named, and the first one keeps its name
    have hothers : ∀ id ∈ rest, (s.give (.node first) (stem n)).naming.at? (.node id) = none := by
      intro id hid
      have hne : Place.node first ≠ .node id := fun he => hfirst (Place.node.inj he ▸ hid)
      rw [State.at?_give, if_neg hne]
      exact hunnamed id (List.mem_cons_of_mem first hid)
    have hnamed : (s.give (.node first) (stem n)).naming.at? (.node first) =
        some (s.supply.fresh (stem n)).1 := by
      rw [State.at?_give, if_pos rfl]
    rw [List.map_cons, List.map_cons, NameSupply.freshAll_cons, List.map_cons, List.foldl_cons, hstep,
      hstem, at?_foldl_nameNode_of_some rest hnamed]
    exact congrArg _ (ih hrest (fun id hid => hids id (List.mem_cons_of_mem first hid)) hothers)

theorem mem_ports : id ∈ c.ports ↔ ∃ n, c.node? id = some n ∧ n.kind.isPort = true :=
  Circuit.mem_idsWhere

/-- Which of the ports are inputs, and what they are called, in ascending order. -/
def portTitles (c : Circuit) : List (Bool × String) :=
  c.ports.filterMap fun id => (c.node? id).map fun n => (n.kind.tag == .input, n.name)

def portStem (title : Bool × String) : String :=
  let name := identifier title.2
  if name.isEmpty then if title.1 then "in" else "out" else name

theorem stem_eq_portStem (h : n.kind.isPort = true) :
    stem n = portStem (n.kind.tag == .input, n.name) := by
  unfold stem portStem
  cases hkind : n.kind with
  | input => rfl
  | output => rfl
  | _ => simp [hkind, NodeKind.isPort] at h

theorem map_stemAt_ports (c : Circuit) : c.ports.map (stemAt c) = (portTitles c).map portStem := by
  have hports : ∀ id ∈ c.ports, some (stemAt c id) =
      ((c.node? id).map fun n => (n.kind.tag == .input, n.name)).map portStem := by
    intro id hid
    obtain ⟨n, hn, hport⟩ := mem_ports.mp hid
    simp [stemAt, hn, stem_eq_portStem hport]
  rw [portTitles, List.map_filterMap, ← List.filterMap_eq_map]
  exact List.filterMap_congr hports

theorem exists_eq_some_of_map_eq {f : NodeId → Option String} {ids : List NodeId} {names : List String}
    (h : ids.map f = names.map some) (hid : id ∈ ids) : ∃ name, f id = some name := by
  have hmem : f id ∈ names.map some := h ▸ List.mem_map_of_mem hid
  obtain ⟨name, -, hname⟩ := List.mem_map.mp hmem
  exact ⟨name, hname.symm⟩

/-- The ports get the names that a fresh supply gives out for their stems. -/
theorem map_names_ports (c : Circuit) (order : List NodeId) (reserved : List String) :
    c.ports.map (ofCircuit c order reserved).names.get? =
      ((NameSupply.reserving (keywords ++ reserved)).freshAll ((portTitles c).map portStem)).map some := by
  have hids : ∀ id ∈ c.ports, ∃ n, c.node? id = some n ∧ n.kind.tag ≠ .memory := by
    intro id hid
    obtain ⟨n, hn, hport⟩ := mem_ports.mp hid
    refine ⟨n, hn, fun hmemory => ?_⟩
    cases hkind : n.kind <;> simp_all [NodeKind.isPort, NodeKind.tag]
  have hnodup : c.ports.Nodup := c.nodup_ids.filter _
  have hnamed := map_at?_foldl_nameNode (s := ⟨.reserving (keywords ++ reserved), {}⟩) hnodup hids
    fun id _ => at?_empty (.node id)
  rw [map_stemAt_ports] at hnamed
  rw [← hnamed]
  refine List.map_congr_left fun id hid => ?_
  -- what comes after the ports leaves their names alone
  obtain ⟨name, hname⟩ := exists_eq_some_of_map_eq hnamed hid
  rw [hname, ofCircuit, List.foldl_append]
  exact at?_foldl_nameNode_of_some order hname

theorem mem_take_iff {ids : List NodeId} {i : Nat} {other : NodeId}
    (h : ids.Pairwise fun id later => id.index < later.index) (hid : ids[i]? = some id) :
    other ∈ ids.take i ↔ other ∈ ids ∧ other.index < id.index := by
  obtain ⟨hlt, hget⟩ := List.getElem?_eq_some_iff.mp hid
  have hsplit : ids = ids.take i ++ id :: ids.drop (i + 1) := by
    rw [← hget, List.cons_getElem_drop_succ, List.take_append_drop]
  have hall := h
  rw [hsplit, List.pairwise_append, List.pairwise_cons] at hall
  constructor
  · intro hother
    exact ⟨List.mem_of_mem_take hother, hall.2.2 other hother id List.mem_cons_self⟩
  · rintro ⟨hother, hless⟩
    rw [hsplit, List.mem_append, List.mem_cons] at hother
    rcases hother with hbefore | rfl | hafter
    · exact hbefore
    · omega
    · have hmore := hall.2.1.1 other hafter
      omega

/-- A port is called what it asks for unless that is reserved or the name of a smaller port. -/
theorem names_port_eq_stem_iff (order : List NodeId) (reserved : List String) (hn : c.node? id = some n)
    (hport : n.kind.isPort = true) :
    (ofCircuit c order reserved).names.get? id = some (stem n) ↔
      stem n ∉ keywords ++ reserved ∧ ∀ other ∈ c.ports, other.index < id.index →
        (ofCircuit c order reserved).names.get? other ≠ some (stem n) := by
  have hnames := map_names_ports c order reserved
  obtain ⟨i, hi⟩ := List.mem_iff_getElem?.mp (mem_ports.mpr ⟨n, hn, hport⟩)
  have hstem : ((portTitles c).map portStem)[i]? = some (stem n) := by
    rw [← map_stemAt_ports, List.getElem?_map, hi, Option.map_some, stemAt, hn]
    rfl
  obtain ⟨k, hname, hleast⟩ := (NameSupply.skipsTaken_reserving (keywords ++ reserved)).freshAll_getElem?
    (NameSupply.holds_reserving (keywords ++ reserved)) hstem
  generalize (NameSupply.reserving (keywords ++ reserved)).freshAll ((portTitles c).map portStem) =
    names at hnames hname hleast
  have hget : (ofCircuit c order reserved).names.get? id = some (NameSupply.candidate (stem n) k) := by
    have hat := congrArg (·[i]?) hnames
    simpa [hi, hname] using hat
  have hascending : c.ports.Pairwise fun id later => id.index < later.index := c.pairwise_idsWhere _
  -- ports are listed in ascending order, so the names given before are those of smaller ports
  have hbefore : stem n ∈ names.take i ↔ ∃ other ∈ c.ports, other.index < id.index ∧
      (ofCircuit c order reserved).names.get? other = some (stem n) := by
    have hmem : some (stem n) ∈ (names.take i).map some ↔
        ∃ other ∈ c.ports.take i, (ofCircuit c order reserved).names.get? other = some (stem n) := by
      rw [List.map_take, ← hnames, ← List.map_take, List.mem_map]
    rw [List.mem_map_of_injective (Option.some_injective String)] at hmem
    simp only [hmem, mem_take_iff hascending hi, and_assoc]
  rw [hget, Option.some_inj, NameSupply.candidate_eq_stem_iff hleast, List.mem_append, not_or, hbefore]
  simp

/-- The names of the ports of a circuit without cycles are settled by which ports are inputs, what they are
called and what is reserved: other circuits that agree on that have the same names for their ports, whatever
else they are made of. A port keeps the name that it asks for exactly if that is neither reserved nor given to
a port before it. -/
theorem port_names_are_stable (h : c.Reachable) (hacyclic : c.Acyclic) (reserved : List String) :
    ∃ order naming, c.order = .ok order ∧ ofCircuit c order reserved = naming ∧
      (∀ id ∈ c.ports, (naming.names.get? id).isSome) ∧
      (∀ d : Circuit, d.Reachable → d.Acyclic → portTitles d = portTitles c →
        ∃ order', d.order = .ok order' ∧
          d.ports.map (ofCircuit d order' reserved).names.get? = c.ports.map naming.names.get?) ∧
      ∀ id n, c.node? id = some n → n.kind.isPort = true →
        (naming.names.get? id = some (stem n) ↔
          stem n ∉ keywords ++ reserved ∧ ∀ other ∈ c.ports, other.index < id.index →
            naming.names.get? other ≠ some (stem n)) := by
  obtain ⟨order, horder, -⟩ := h.wellFormed.exists_isOrder hacyclic
  refine ⟨order, _, horder, rfl, fun id hid => ?_, fun d hd hdacyclic htitles => ?_,
    fun id n hn hport => names_port_eq_stem_iff order reserved hn hport⟩
  · obtain ⟨name, hname⟩ := exists_eq_some_of_map_eq (map_names_ports c order reserved) hid
    exact Option.isSome_of_eq_some hname
  · obtain ⟨order', horder', -⟩ := hd.wellFormed.exists_isOrder hdacyclic
    exact ⟨order', horder', by rw [map_names_ports, map_names_ports, htitles]⟩

/-- An input and an output of one name, and a keyword for an output. -/
def bare : Circuit :=
  .ofCalls [.input 4 "y" .unknown, .output 4 "y" .unknown, .output 1 "wire" .unknown]

/-- Ports that are called the same, among nodes that are called as the ports are or would be. -/
def crowded : Circuit :=
  .ofCalls [.literal (.ofNat 2 1) "y" .unknown, .input 8 "y" .unknown, .memory 4 2 [] "y_1" .unknown,
    .connectMemory ⟨3⟩ ⟨some ⟨2⟩, none, none, none⟩, .output 2 "y" .unknown, .drive ⟨5⟩ ⟨3⟩,
    .register 3 (some ⟨0⟩) "wire_1" .unknown, .output 3 "wire" .unknown, .drive ⟨8⟩ ⟨6⟩]

theorem crowded_port_names :
    bare.Reachable ∧ bare.Acyclic ∧ crowded.Reachable ∧ crowded.Acyclic ∧
      portTitles crowded = portTitles bare ∧
      ∃ order naming order', bare.order = .ok order ∧ ofCircuit bare order ["clk"] = naming ∧
        crowded.order = .ok order' ∧
        crowded.ports.map (ofCircuit crowded order' ["clk"]).names.get? = bare.ports.map naming.names.get? ∧
        naming.names.get? ⟨0⟩ = some "y" ∧ naming.names.get? ⟨3⟩ ≠ some "y" ∧
        naming.names.get? ⟨5⟩ ≠ some "wire" := by
  have hbare : bare.Reachable := Circuit.reachableBy_ofCalls fun _ _ => trivial
  have hcrowded : crowded.Reachable := Circuit.reachableBy_ofCalls fun _ _ => trivial
  have hbare' : bare.Acyclic := hbare.wellFormed.acyclic_of_ascending (by decide)
  have hcrowded' : crowded.Acyclic := by
    have horder : crowded.order = .ok [⟨0⟩, ⟨1⟩, ⟨2⟩, ⟨3⟩, ⟨4⟩, ⟨5⟩, ⟨6⟩, ⟨7⟩, ⟨8⟩] := by decide +kernel
    exact (Circuit.isOrder_of_order hcrowded.wellFormed horder).acyclic
  have htitles : portTitles crowded = portTitles bare := by decide +kernel
  obtain ⟨order, naming, horder, hnaming, -, hsame, hkept⟩ :=
    port_names_are_stable hbare hbare' ["clk"]
  obtain ⟨order', horder', hnames⟩ := hsame crowded hcrowded hcrowded' htitles
  have hinput : naming.names.get? ⟨0⟩ = some "y" := by
    refine (hkept ⟨0⟩ _ rfl rfl).mpr ⟨by decide +kernel, fun other _ hless => ?_⟩
    exact absurd hless (Nat.not_lt_zero _)
  refine ⟨hbare, hbare', hcrowded, hcrowded', htitles, order, naming, order', horder, hnaming, horder',
    hnames, hinput, fun hname => ?_, fun hname => ?_⟩
  · exact ((hkept ⟨3⟩ _ rfl rfl).mp hname).2 ⟨0⟩ (by decide +kernel) (by decide) hinput
  · exact ((hkept ⟨5⟩ _ rfl rfl).mp hname).1 (by decide +kernel)

end Naming

end Netlist
