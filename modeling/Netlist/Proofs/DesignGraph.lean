import Mathlib.Data.List.Nodup
import Netlist.Dot
import Netlist.Proofs.EvaluationOrder

namespace Netlist

theorem Node.nodup_positions (n : Node) : (n.connected.map (·.1)).Nodup := by
  have hdistinct : n.sources.zipIdx.Pairwise fun a b => a.2 ≠ b.2 := by
    rw [← List.pairwise_map, List.zipIdx_map_snd]
    exact List.nodup_range'
  rw [List.Nodup, List.pairwise_map, connected]
  refine hdistinct.filterMap _ fun a b hne first hfirst second hsecond => ?_
  obtain ⟨_, -, rfl⟩ := Option.map_eq_some_iff.mp hfirst
  obtain ⟨_, -, rfl⟩ := Option.map_eq_some_iff.mp hsecond
  exact hne

def Circuit.positions (c : Circuit) (id : NodeId) : List Nat :=
  ((c.node? id).map fun n => n.connected.map (·.1)).getD []

theorem Circuit.nodup_positions (c : Circuit) (id : NodeId) : (c.positions id).Nodup := by
  unfold positions
  cases c.node? id with
  | none => exact List.nodup_nil
  | some n => exact n.nodup_positions

namespace Dot

open Circuit

variable {c : Circuit} {naming : Naming} {values : Values} {e : Edge}

theorem map_id_vertices_graph (c : Circuit) (naming : Naming) (values : Values) :
    (graph c naming values).vertices.map (·.id) = c.ids := by
  have hkept : ∀ id ∈ c.ids, ((c.node? id).map fun n => Vertex.mk id (label naming values id n)).map
      (·.id) = some id := by
    intro id hid
    obtain ⟨n, hn⟩ := exists_node_of_mem hid
    simp [hn]
  rw [graph, List.map_filterMap, List.filterMap_congr hkept, List.filterMap_some]

theorem mem_edges_graph :
    e ∈ (graph c naming values).edges ↔
      ∃ n, c.node? e.target = some n ∧ n.source? e.pos = some e.source ∧
        e.sequential = n.kind.crossesClock e.pos ∧ e.value = values e.source := by
  simp only [graph, List.mem_flatMap]
  constructor
  · rintro ⟨id, -, he⟩
    cases hn : c.node? id with
    | none => simp [hn] at he
    | some n =>
      simp only [hn, List.mem_map, Prod.exists, Node.mem_connected] at he
      obtain ⟨pos, src, hsrc, rfl⟩ := he
      exact ⟨n, hn, hsrc, rfl, rfl⟩
  · rintro ⟨n, hn, hsrc, hsequential, hvalue⟩
    refine ⟨e.target, mem_ids_of_node? hn, ?_⟩
    simp only [hn, List.mem_map, Prod.exists, Node.mem_connected]
    exact ⟨e.pos, e.source, hsrc, by rw [← hsequential, ← hvalue]⟩

theorem slots_graph (c : Circuit) (naming : Naming) (values : Values) :
    ((graph c naming values).edges.map fun e => (e.target, e.pos)) =
      c.ids.flatMap fun id => (c.positions id).map fun pos => (id, pos) := by
  rw [graph, List.map_flatMap]
  congr 1
  funext id
  unfold positions
  cases c.node? id with
  | none => rfl
  | some n => simp

theorem nodup_slots_graph (c : Circuit) (naming : Naming) (values : Values) :
    ((graph c naming values).edges.map fun e => (e.target, e.pos)).Nodup := by
  rw [slots_graph, List.nodup_flatMap]
  refine ⟨fun id _ => (c.nodup_positions id).map (Prod.mk_right_injective id), ?_⟩
  -- The slots of two readers differ in the reader.
  refine c.nodup_ids.imp fun {a b} hne => ?_
  intro slot ha hb
  obtain ⟨_, -, rfl⟩ := List.mem_map.mp ha
  obtain ⟨_, -, heq⟩ := List.mem_map.mp hb
  exact hne (congrArg Prod.fst heq).symm

theorem ofSimulation_eq_some {s : Option Simulation} {id : NodeId} {value : Word} :
    Values.ofSimulation s id = some value ↔ ∃ sim, s = some sim ∧ sim.slots.get? id = some value :=
  Option.bind_eq_some_iff

/-- An edge that does not cross a clock edge leads from `src` to `id`. -/
def Graph.Solid (g : Graph) (src id : NodeId) : Prop :=
  ∃ e ∈ g.edges, e.sequential = false ∧ e.source = src ∧ e.target = id

theorem solid_graph {src id : NodeId} : (graph c naming values).Solid src id ↔ c.Depends src id := by
  simp only [Graph.Solid, mem_edges_graph]
  constructor
  · rintro ⟨e, ⟨n, hn, hsrc, hsequential, -⟩, hsolid, rfl, rfl⟩
    exact ⟨n, e.pos, hn, hsrc, hsequential.symm.trans hsolid⟩
  · rintro ⟨n, pos, hn, hsrc, hpos⟩
    exact ⟨⟨src, id, pos, false, values src⟩, ⟨n, hn, hsrc, hpos.symm, rfl⟩, rfl, rfl, rfl⟩

/-- The graph of a circuit, with the values of a simulation if there is one. -/
structure Graph.Shows (g : Graph) (c : Circuit) (s : Option Simulation) : Prop where
  /-- The vertices are the nodes, each at the index that is its id. -/
  vertices : g.vertices.map (·.id) = (List.range c.size).map NodeId.mk
  /-- No two edges are for one source of one node. -/
  slots : (g.edges.map fun e => (e.target, e.pos)).Nodup
  /-- The edges are the connected sources. An edge shows the value of its source if there is a
  simulation and that has one. -/
  edges : ∀ e, e ∈ g.edges ↔
    ∃ n, c.node? e.target = some n ∧ n.source? e.pos = some e.source ∧
      e.sequential = n.kind.crossesClock e.pos ∧
      ∀ value, e.value = some value ↔ ∃ sim, s = some sim ∧ sim.slots.get? e.source = some value
  /-- Edges join vertices. -/
  ends : ∀ e ∈ g.edges, e.source.index < g.vertices.length ∧ e.target.index < g.vertices.length
  acyclic : ∀ id, ¬ Relation.TransGen g.Solid id id

theorem shows_graph (hc : c.WellFormed) (hacyclic : c.Acyclic) (naming : Naming)
    (s : Option Simulation) : (graph c naming (.ofSimulation s)).Shows c s where
  vertices := map_id_vertices_graph ..
  slots := nodup_slots_graph ..
  edges e := by
    simp only [mem_edges_graph, ← ofSimulation_eq_some, ← Option.ext_iff]
  ends e he := by
    have hlength : (graph c naming (.ofSimulation s)).vertices.length = c.size := by
      simpa [ids, Table.ids, size] using congrArg List.length (map_id_vertices_graph c naming (.ofSimulation s))
    obtain ⟨n, hn, hsrc, -⟩ := mem_edges_graph.mp he
    rw [hlength]
    exact ⟨hc.inside_of_source? hn hsrc, lt_size_of_node? hn⟩
  acyclic id hcycle := hacyclic id (Relation.TransGen.mono (fun _ _ => solid_graph.mp) _ _ hcycle)

theorem value_ofCircuit_eq_ok {g : Graph} :
    (ofCircuit c values).value = .ok g ↔
      ∃ order, c.order = .ok order ∧ graph c (.ofCircuit c order []) values = g := by
  unfold ofCircuit orderLogged
  cases c.order with
  | ok order => simp [Logged.map, Except.map]
  | error e => simp [Logged.map, Except.map]

/-- A circuit has a graph exactly if no cycle avoids the clock edges, and the graph then shows its design,
with or without a simulation. -/
theorem graph_of_reachable (h : c.Reachable) (s : Option Simulation) :
    ((∃ g, (ofCircuit c (.ofSimulation s)).value = .ok g) ↔ c.Acyclic) ∧
      ∀ g, (ofCircuit c (.ofSimulation s)).value = .ok g → g.Shows c s := by
  have hc := h.wellFormed
  simp only [value_ofCircuit_eq_ok]
  constructor
  · rw [← exists_order_iff_acyclic hc]
    constructor
    · rintro ⟨_, order, horder, -⟩
      exact ⟨order, horder⟩
    · rintro ⟨order, horder⟩
      exact ⟨_, order, horder, rfl⟩
  · rintro _ ⟨order, horder, rfl⟩
    exact shows_graph hc ((exists_order_iff_acyclic hc).mp ⟨order, horder⟩) _ s

/-- A register that feeds itself, and an adder that reads it twice. -/
def doubledCalls : List Call :=
  [.register 4 none "held" .unknown, .connectNext ⟨0⟩ ⟨0⟩,
   .operation { op := .add } ⟨0⟩ (some ⟨0⟩) "twice" .unknown]

def doubled : Simulation := (Simulation.fresh (ofCalls doubledCalls) {} [⟨0⟩, ⟨1⟩]).value

theorem graph_of_doubled :
    (∃ g, (ofCircuit (ofCalls doubledCalls) (.ofSimulation (some doubled))).value = .ok g ∧
      g.Shows (ofCalls doubledCalls) (some doubled) ∧
      ⟨⟨0⟩, ⟨0⟩, 1, true, some (.zero 4)⟩ ∈ g.edges ∧ ⟨⟨0⟩, ⟨1⟩, 0, false, some (.zero 4)⟩ ∈ g.edges ∧
      ⟨⟨0⟩, ⟨1⟩, 1, false, some (.zero 4)⟩ ∈ g.edges) ∧
    ∃ g, (ofCircuit (ofCalls doubledCalls) (.ofSimulation (some (doubled.remove ⟨0⟩)))).value = .ok g ∧
      ⟨⟨0⟩, ⟨1⟩, 0, false, none⟩ ∈ g.edges := by
  have hreachable : (ofCalls doubledCalls).Reachable := reachableBy_ofCalls fun _ _ => trivial
  have hacyclic : (ofCalls doubledCalls).Acyclic :=
    (exists_order_iff_acyclic hreachable.wellFormed).mp ⟨[⟨0⟩, ⟨1⟩], by decide⟩
  have hslot : doubled.slots.get? ⟨0⟩ = some (.zero 4) := by decide
  have hempty : (doubled.remove ⟨0⟩).slots.get? ⟨0⟩ = none := by decide
  obtain ⟨hexists, hshows⟩ := graph_of_reachable hreachable (some doubled)
  obtain ⟨hexists', hshows'⟩ := graph_of_reachable hreachable (some (doubled.remove ⟨0⟩))
  obtain ⟨g, hg⟩ := hexists.mpr hacyclic
  obtain ⟨g', hg'⟩ := hexists'.mpr hacyclic
  refine ⟨⟨g, hg, hshows g hg, ?_, ?_, ?_⟩, g', hg', ?_⟩
  · exact ((hshows g hg).edges _).mpr ⟨_, rfl, rfl, rfl, by simp [hslot]⟩
  · exact ((hshows g hg).edges _).mpr ⟨_, rfl, rfl, rfl, by simp [hslot]⟩
  · exact ((hshows g hg).edges _).mpr ⟨_, rfl, rfl, rfl, by simp [hslot]⟩
  · exact ((hshows' g' hg').edges _).mpr ⟨_, rfl, rfl, rfl, by simp [hempty]⟩

end Dot

end Netlist
