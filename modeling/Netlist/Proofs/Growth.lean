import Netlist.Proofs.RecursiveSearch

namespace Netlist

namespace Node

theorem dependencies_of_input {n : Node} {value value' : Word}
    {driver proxy driver' proxy' : Option NodeId} (h : n.kind = .input value driver proxy) :
    { n with kind := .input value' driver' proxy' }.dependencies = n.dependencies := by
  unfold dependencies
  rw [h]
  rfl

end Node

namespace Circuit

variable {c d e : Circuit} {count more : Nat} {path done : List NodeId} {id : NodeId}

def nextIds (c : Circuit) (count : Nat) : List NodeId :=
  (List.range count).map fun i => ⟨c.size + i⟩

/-- `d` has the nodes of `c` with their names and dependencies, and after them as many others, which
depend on nodes before them. -/
structure Grows (c : Circuit) (count : Nat) (d : Circuit) : Prop where
  size_eq : d.size = c.size + count
  dependencies_eq : ∀ {id}, id.index < c.size → d.dependencies id = c.dependencies id
  name_eq : ∀ {id}, id.index < c.size → d.nameOf id = c.nameOf id
  depends_lt : ∀ {dep id}, d.Depends dep id → c.size ≤ id.index → dep.index < id.index

theorem nextIds_succ (c : Circuit) (count : Nat) :
    c.nextIds (count + 1) = c.nextIds count ++ [⟨c.size + count⟩] := by
  simp [nextIds, List.range_succ]

theorem mem_nextIds : id ∈ c.nextIds count ↔ c.size ≤ id.index ∧ id.index < c.size + count := by
  obtain ⟨index⟩ := id
  simp only [nextIds, List.mem_map, List.mem_range, NodeId.mk.injEq]
  constructor
  · rintro ⟨i, hi, rfl⟩
    omega
  · intro h
    exact ⟨index - c.size, by omega, by omega⟩

namespace Grows

theorem ids_eq (h : c.Grows count d) : d.ids = c.ids ++ c.nextIds count := by
  change (List.range d.size).map NodeId.mk = (List.range c.size).map NodeId.mk ++ c.nextIds count
  rw [h.size_eq, List.range_add, List.map_append, List.map_map]
  rfl

theorem of_same (hsize : d.size = c.size) (hdependencies : ∀ id, d.dependencies id = c.dependencies id)
    (hname : ∀ id, d.nameOf id = c.nameOf id) : c.Grows 0 d := by
  refine ⟨hsize, fun _ => hdependencies _, fun _ => hname _, fun hdep hid => ?_⟩
  have hlt := Circuit.mem_ids.mp hdep.mem_ids
  omega

theorem refl (c : Circuit) : c.Grows 0 c := of_same rfl (fun _ => rfl) fun _ => rfl

theorem trans (h : c.Grows count d) (h' : d.Grows more e) : c.Grows (count + more) e := by
  have hsize := h.size_eq
  refine ⟨by rw [h'.size_eq, hsize, Nat.add_assoc], fun hid => ?_, fun hid => ?_,
    fun {dep id} hdep hid => ?_⟩
  · rw [h'.dependencies_eq (by omega), h.dependencies_eq hid]
  · rw [h'.name_eq (by omega), h.name_eq hid]
  · by_cases hmiddle : d.size ≤ id.index
    · exact h'.depends_lt hdep hmiddle
    · rw [← mem_dependencies, h'.dependencies_eq (by omega), mem_dependencies] at hdep
      exact h.depends_lt hdep hid

end Grows

theorem grows_add {kind : NodeKind} {width : Nat} {sources : List (Option NodeId)}
    (h : c.Admits kind width sources) (name : String) (loc : Location) :
    c.Grows 1 (c.add kind width sources name loc) := by
  have hold {id : NodeId} (hid : id.index < c.size) :
      (c.add kind width sources name loc).node? id = c.node? id := by
    rw [node?_add, if_neg (Nat.ne_of_lt hid)]
  refine ⟨c.size_add .., fun hid => ?_, fun hid => ?_, ?_⟩
  · rw [dependencies, hold hid, dependencies]
  · rw [nameOf, hold hid, nameOf]
  · rintro dep id ⟨n, pos, hn, hsrc, -⟩ hid
    rw [node?_add] at hn
    split at hn
    · cases hn
      have hmem : some dep ∈ sources := Node.mem_sources_of_source? hsrc
      exact Nat.lt_of_lt_of_le (h.inside _ hmem dep rfl) hid
    · exact absurd (lt_size_of_node? hn) (Nat.not_lt.mpr hid)

theorem grows_modifyNode {n : Node} {f : Node → Node} (hn : c.node? id = some n)
    (hdependencies : (f n).dependencies = n.dependencies) (hname : (f n).name = n.name) :
    c.Grows 0 (c.modifyNode id f) := by
  refine .of_same (c.size_modifyNode id f) (fun other => ?_) fun other => ?_
  · rw [dependencies, node?_modifyNode, dependencies]
    split
    · next h => subst h; simp [hn, hdependencies]
    · rfl
  · rw [nameOf, node?_modifyNode, nameOf]
    split
    · next h => subst h; simp [hn, hname]
    · rfl

theorem grows_retune {n : Node} {f : Node → Node} {value value' : Word}
    {driver proxy driver' proxy' : Option NodeId} (hn : c.node? id = some n)
    (hkind : n.kind = .input value driver proxy)
    (hf : f n = { n with kind := .input value' driver' proxy' }) : c.Grows 0 (c.modifyNode id f) :=
  grows_modifyNode hn (by rw [hf, Node.dependencies_of_input hkind]) (by rw [hf])

theorem grows_addInput {width : Nat} (hwidth : width ≠ 0) (hroom : c.hasRoom 2 = true) (name : String)
    (loc : Location) : c.Grows 2 (c.addInput width name loc) := by
  let port := c.add (.input (.zero width) none none) width [] name loc
  have hport : c.Grows 1 port := grows_add (admits_input hwidth hroom) name loc
  have hadmits : port.Admits .proxy width [some c.nodes.nextId] :=
    admits_second hwidth hroom (Nat.le_refl 1)
  have hnode : (port.add .proxy width [some c.nodes.nextId] name loc).node? c.nodes.nextId =
      some ⟨c.nodes.nextId, .input (.zero width) none none, width, [], name, loc⟩ := by
    simp [port, node?_add, nextId_eq (hasRoom_one hroom)]
  exact (hport.trans (grows_add hadmits name loc)).trans (grows_retune hnode rfl rfl)

theorem grows_addOutput {width : Nat} (hwidth : width ≠ 0) (hroom : c.hasRoom 2 = true) (name : String)
    (loc : Location) : c.Grows 2 (c.addOutput width name loc) := by
  have hadmits : (c.add .proxy width [none] name loc).Admits .output width [some c.nodes.nextId] :=
    admits_second hwidth hroom (Nat.le_refl 1)
  exact (grows_add (admits_feed hwidth hroom) name loc).trans (grows_add hadmits name loc)

end Circuit

namespace Call

open Circuit

/-- Whether the call replaces sources of nodes that exist. -/
def rewires : Call → Bool
  | connect .. | connectNext .. | drive .. | connectMemory .. => true
  | _ => false

/-- How many nodes the call makes if it succeeds. -/
def makes : Call → Nat
  | node .. | literal .. | register .. | operation .. | proxy .. | memory .. => 1
  | input .. | output .. => 2
  | _ => 0

theorem ends_grows (call : Call) (h : call.rewires = false) (c : Circuit) :
    call.step.Ends c fun _ after => c.Grows call.makes after := by
  cases call with
  -- these are the calls that replace sources; every other one adds nodes or changes a payload
  | connect | connectNext | drive | connectMemory => cases h
  | node kind width sources name loc =>
    refine Build.ends_map ((Build.ends_node kind width sources name loc c).mono ?_)
    rintro _ _ ⟨hadmits, -, rfl⟩
    exact grows_add hadmits name loc
  | literal value name loc =>
    refine Build.ends_map ((Build.ends_node _ _ [] name loc c).mono ?_)
    rintro _ _ ⟨hadmits, -, rfl⟩
    exact grows_add hadmits name loc
  | input width name loc =>
    refine Build.ends_map ((Build.ends_input width name loc c).mono ?_)
    rintro _ _ ⟨hwidth, hroom, rfl⟩
    exact grows_addInput hwidth hroom name loc
  | output width name loc =>
    refine Build.ends_map ((Build.ends_output width name loc c).mono ?_)
    rintro _ _ ⟨hwidth, hroom, rfl⟩
    exact grows_addOutput hwidth hroom name loc
  | register width init name loc =>
    refine Build.ends_map (Build.ends_get ((Build.ends_node _ width _ name loc c).mono ?_))
    rintro _ _ ⟨hadmits, -, rfl⟩
    exact grows_add hadmits name loc
  | operation spec lhs rhs name loc =>
    refine Build.ends_map ((Build.ends_operation spec lhs rhs name loc c).mono ?_)
    rintro _ _ ⟨width, hadmits, -, rfl⟩
    exact grows_add hadmits name loc
  | proxy src name loc =>
    refine Build.ends_map ((Build.ends_proxy src name loc c).mono ?_)
    rintro _ _ ⟨width, hadmits, rfl⟩
    exact grows_add hadmits name loc
  | memory width depth init name loc =>
    refine Build.ends_map ((Build.ends_memory width depth init name loc c).mono ?_)
    rintro _ _ ⟨words, -, hadmits, rfl⟩
    exact grows_add hadmits name loc
  | noteDriver id driver =>
    refine Build.ends_map ((Build.ends_noteDriver id driver c).mono ?_)
    rintro _ _ ⟨n, f, value, driver', proxy, hn, hkind, hf, rfl⟩
    exact grows_retune hn hkind hf
  | preset id value =>
    refine Build.ends_map ((Build.ends_preset id value c).mono ?_)
    rintro _ _ ⟨n, f, value', driver, proxy, hn, hkind, hf, rfl⟩
    exact grows_retune hn hkind hf
  | useClock id =>
    refine Build.ends_map ((Build.ends_useClock id c).mono ?_)
    rintro _ _ ⟨-, rfl⟩
    exact .of_same rfl (fun _ => rfl) fun _ => rfl
  | useReset id =>
    refine Build.ends_map ((Build.ends_useReset id c).mono ?_)
    rintro _ _ ⟨-, rfl⟩
    exact .of_same rfl (fun _ => rfl) fun _ => rfl

end Call

namespace Circuit

open Search

variable {c d : Circuit} {count : Nat} {path done : List NodeId} {id : NodeId}

theorem foldlM_descend_of_done {ids : List NodeId} (h : ∀ id ∈ ids, id ∈ done) :
    ids.foldlM (c.descend path) done = pure done := by
  induction ids with
  | nil => rfl
  | cons id ids ih =>
    rw [List.foldlM_cons, descend_of_done (h id List.mem_cons_self), pure_bind,
      ih fun other hother => h other (List.mem_cons_of_mem id hother)]

/-- A node is finished at once after all that it depends on. -/
theorem descend_of_ready (hdone : id ∉ done) (hpath : id ∉ path)
    (hdependencies : ∀ dep ∈ c.dependencies id, dep ∈ done) :
    c.descend path done id = pure (done ++ [id]) := by
  rw [descend_of_fresh hdone hpath, foldlM_descend_of_done hdependencies, pure_bind]

theorem foldlM_descend_congr {ids : List NodeId}
    (h : ∀ id ∈ ids, ∀ done, d.descend path done id = c.descend path done id) (done : List NodeId) :
    ids.foldlM (d.descend path) done = ids.foldlM (c.descend path) done := by
  induction ids generalizing done with
  | nil => rfl
  | cons id ids ih =>
    simp only [List.foldlM_cons, h id List.mem_cons_self,
      ih fun other hother => h other (List.mem_cons_of_mem id hother)]

theorem lt_size_of_search_error {cycle : List NodeId} (hc : c.WellFormed) (h : c.search = .error cycle)
    (hid : id ∈ cycle) : id.index < c.size := by
  obtain ⟨order, hfound, -⟩ | ⟨t, dep, hinv, -, herror⟩ := cases_search hc
  · cases h.symm.trans hfound
  · cases h.symm.trans herror
    exact hinv.bounded.lt_size_of_mem_cycleFrom hid

namespace Grows

/-- The way down to an old node meets old nodes only. -/
theorem descend_eq (h : c.Grows count d) (hc : c.WellFormed) (hid : id.index < c.size) :
    d.descend path done id = c.descend path done id := by
  -- each step down leaves fewer old nodes off the path
  induction hoff : c.offPath path using Nat.strongRecOn generalizing path done id with
  | ind off ih =>
    by_cases hdone : id ∈ done
    · rw [descend_of_done hdone, descend_of_done hdone]
    by_cases hpath : id ∈ path
    · rw [descend_of_path hdone hpath, descend_of_path hdone hpath]
    rw [descend_of_fresh hdone hpath, descend_of_fresh hdone hpath, h.dependencies_eq hid]
    have hfewer : c.offPath (path ++ [id]) < off := hoff ▸ offPath_lt (mem_ids.mpr hid) hpath
    rw [foldlM_descend_congr fun dep hdep done =>
      ih _ hfewer ((mem_dependencies.mp hdep).source_lt hc) rfl]

/-- Where all old nodes are done, the new ones follow one after the other. -/
theorem foldlM_descend_nextIds (h : c.Grows count d) (hdone : ∀ id, id ∈ done ↔ id.index < c.size)
    (more : Nat) : (c.nextIds more).foldlM (d.descend []) done = pure (done ++ c.nextIds more) := by
  have hbefore (more : Nat) (id : NodeId) :
      id ∈ done ++ c.nextIds more ↔ id.index < c.size + more := by
    rw [List.mem_append, hdone, mem_nextIds]
    omega
  induction more with
  | zero => simp [nextIds]
  | succ more ih =>
    have hready : d.descend [] (done ++ c.nextIds more) ⟨c.size + more⟩ =
        pure (done ++ c.nextIds more ++ [⟨c.size + more⟩]) := by
      refine descend_of_ready (by simp [hbefore]) List.not_mem_nil fun dep hdep => ?_
      rw [hbefore]
      exact h.depends_lt (mem_dependencies.mp hdep) (Nat.le_add_right c.size more)
    rw [nextIds_succ, List.foldlM_append, ih, pure_bind, List.foldlM_cons, hready, pure_bind,
      List.foldlM_nil, List.append_assoc]

theorem postOrder_eq (h : c.Grows count d) (hc : c.WellFormed) :
    d.postOrder = c.postOrder.map (· ++ c.nextIds count) := by
  have hold : c.ids.foldlM (d.descend []) [] = c.postOrder :=
    foldlM_descend_congr (fun id hid done => h.descend_eq hc (mem_ids.mp hid)) []
  rw [postOrder, h.ids_eq, List.foldlM_append, hold]
  cases hfound : c.postOrder with
  | error cycle => rfl
  | ok order =>
    have horder : c.IsOrder order := by
      apply isOrder_of_order hc
      rw [order_eq_ok_iff, search_eq_postOrder hc, hfound]
    exact h.foldlM_descend_nextIds (fun id => horder.mem.trans mem_ids) count

theorem map_nameOf (h : c.Grows count d) (hc : c.WellFormed) {cycle : List NodeId}
    (hsearch : c.search = .error cycle) :
    cycle.map (fun id => (id, d.nameOf id)) = cycle.map fun id => (id, c.nameOf id) :=
  List.map_congr_left fun id hid => by rw [h.name_eq (lt_size_of_search_error hc hsearch hid)]

/-- The new nodes come last, in ascending order, unless the old ones have no order already. -/
theorem order_eq (h : c.Grows count d) (hc : c.WellFormed) (hd : d.WellFormed) :
    d.order = c.order.map (· ++ c.nextIds count) := by
  unfold Circuit.order
  rw [search_eq_postOrder hd, h.postOrder_eq hc, ← search_eq_postOrder hc]
  cases hsearch : c.search with
  | ok order => rfl
  | error cycle => simp only [Except.map, Except.mapError, h.map_nameOf hc hsearch]

end Grows

/-- A circuit in which no source was replaced has grown from nothing. -/
theorem ReachableBy.exists_grows (h : ReachableBy (fun call => call.rewires = false) c) :
    ∃ name config count, Grows { name, config } count c := by
  induction h with
  | empty name config => exact ⟨name, config, 0, .refl _⟩
  | @call c call _ hok ih =>
    obtain ⟨name, config, count, hgrows⟩ := ih
    obtain hsame | ⟨_, hcall⟩ := (call.ends_grows hok c).after_cases
    · exact ⟨name, config, count, by rwa [Call.apply, hsame]⟩
    · exact ⟨name, config, count + call.makes, hgrows.trans hcall⟩

/-- A call that replaces no source leaves the order as it is and puts the nodes that it makes behind
it, in ascending order, or leaves the cycle that is reported. So a circuit in which no source was ever
replaced has no cycle, and the order of its nodes is that in which they were made. -/
theorem construction_appends_to_order :
    (∀ (c d : Circuit) (call : Call) (made : Option NodeId), c.Reachable → call.rewires = false →
      call.step.run c = .ok made d →
        d.ids = c.ids ++ c.nextIds call.makes ∧
          d.order = c.order.map (· ++ c.nextIds call.makes)) ∧
    ∀ c : Circuit, ReachableBy (fun call => call.rewires = false) c →
      c.Acyclic ∧ c.order = .ok ((List.range c.size).map NodeId.mk) := by
  constructor
  · intro c d call made hc hcall hrun
    have hgrows : c.Grows call.makes d := (call.ends_grows hcall c).of_run hrun
    have hd : d.Reachable := by
      have happly : call.apply c = d := by rw [Call.apply, Build.after, hrun]
      exact happly ▸ hc.call call trivial
    exact ⟨hgrows.ids_eq, hgrows.order_eq hc.wellFormed hd.wellFormed⟩
  · intro c h
    have hc : c.WellFormed := Reachable.wellFormed (h.mono fun _ _ => trivial)
    obtain ⟨name, config, count, hgrows⟩ := h.exists_grows
    have horder : c.order = .ok c.ids := by
      rw [hgrows.order_eq (wellFormed_empty name config) hc, hgrows.ids_eq]
      rfl
    exact ⟨(isOrder_of_order hc horder).acyclic, horder⟩

theorem woven_order_appended :
    (Call.input 2 "a" .unknown).step.run (ofCalls wovenCalls) =
        .ok (some ⟨5⟩) (ofCalls (wovenCalls ++ [.input 2 "a" .unknown])) ∧
      (ofCalls (wovenCalls ++ [.input 2 "a" .unknown])).order =
        .ok [⟨0⟩, ⟨1⟩, ⟨4⟩, ⟨2⟩, ⟨3⟩, ⟨5⟩, ⟨6⟩] ∧
      (Call.output 2 "y" .unknown).step.run (ofCalls tangledCalls) =
        .ok (some ⟨6⟩) (ofCalls (tangledCalls ++ [.output 2 "y" .unknown])) ∧
      (ofCalls (tangledCalls ++ [.output 2 "y" .unknown])).order =
        .error (.combinationalCycle [(⟨4⟩, "p"), (⟨2⟩, "m")]) ∧
      (ofCalls (wovenCalls.take 5)).Acyclic ∧
      (ofCalls (wovenCalls.take 5)).order = .ok [⟨0⟩, ⟨1⟩, ⟨2⟩, ⟨3⟩, ⟨4⟩] := by
  have hreachable (calls : List Call) : (ofCalls calls).Reachable :=
    reachableBy_ofCalls fun _ _ => trivial
  obtain ⟨happends, hunwired⟩ := construction_appends_to_order
  have hinput : (Call.input 2 "a" .unknown).step.run (ofCalls wovenCalls) =
      .ok (some ⟨5⟩) (ofCalls (wovenCalls ++ [.input 2 "a" .unknown])) := by rfl
  have houtput : (Call.output 2 "y" .unknown).step.run (ofCalls tangledCalls) =
      .ok (some ⟨6⟩) (ofCalls (tangledCalls ++ [.output 2 "y" .unknown])) := by rfl
  have hwoven : (ofCalls wovenCalls).order = .ok [⟨0⟩, ⟨1⟩, ⟨4⟩, ⟨2⟩, ⟨3⟩] := by decide
  have htangled : (ofCalls tangledCalls).order =
      .error (.combinationalCycle [(⟨4⟩, "p"), (⟨2⟩, "m")]) := by decide
  refine ⟨hinput, ?_, houtput, ?_, hunwired _ (reachableBy_ofCalls (by decide))⟩
  · rw [(happends _ _ _ _ (hreachable _) rfl hinput).2, hwoven]
    rfl
  · rw [(happends _ _ _ _ (hreachable _) rfl houtput).2, htangled]
    rfl

end Circuit

end Netlist
