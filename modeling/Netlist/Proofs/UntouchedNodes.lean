import Netlist.Proofs.Construction
import Netlist.Proofs.MemoryPorts

namespace Netlist

namespace Circuit

variable {c d : Circuit} {tag : NodeKind.Tag} {id : NodeId} {n : Node}

/-- Every node of the given kind in `d` stands in `c` as it is, and the nodes of `c` keep their kinds and
widths. -/
structure Spares (tag : NodeKind.Tag) (c d : Circuit) : Prop where
  node : ∀ {id n}, d.node? id = some n → n.kind.tag = tag → c.node? id = some n
  shape : ∀ {id n}, c.node? id = some n →
    ∃ m, d.node? id = some m ∧ m.kind.tag = n.kind.tag ∧ m.width = n.width

def tagOf? (c : Circuit) (id : NodeId) : Option NodeKind.Tag := (c.node? id).map (·.kind.tag)

theorem tagOf?_eq (hn : c.node? id = some n) : c.tagOf? id = some n.kind.tag := by
  rw [tagOf?, hn, Option.map_some]

namespace Spares

theorem refl (tag : NodeKind.Tag) (c : Circuit) : c.Spares tag c :=
  ⟨fun hn _ => hn, fun hn => ⟨_, hn, rfl, rfl⟩⟩

theorem trans {e : Circuit} (h : Spares tag c d) (h' : Spares tag d e) : Spares tag c e := by
  refine ⟨fun hn htag => h.node (h'.node hn htag) htag, fun hn => ?_⟩
  obtain ⟨m, hm, htag, hwidth⟩ := h.shape hn
  obtain ⟨k, hk, htag', hwidth'⟩ := h'.shape hm
  exact ⟨k, hk, htag'.trans htag, hwidth'.trans hwidth⟩

theorem widthOf?_eq (h : Spares tag c d) (hid : id.index < c.size) : d.widthOf? id = c.widthOf? id := by
  have hn : c.node? id = some _ := Array.getElem?_eq_getElem hid
  obtain ⟨m, hm, -, hwidth⟩ := h.shape hn
  rw [widthOf?, widthOf?, hm, hn, Option.map_some, Option.map_some, hwidth]

theorem tagOf?_eq (h : Spares tag c d) (hid : id.index < c.size) : d.tagOf? id = c.tagOf? id := by
  have hn : c.node? id = some _ := Array.getElem?_eq_getElem hid
  obtain ⟨m, hm, htag, -⟩ := h.shape hn
  rw [Circuit.tagOf?_eq hm, Circuit.tagOf?_eq hn, htag]

end Spares

theorem spares_add (c : Circuit) (kind : NodeKind) (h : kind.tag ≠ tag) (width : Nat)
    (sources : List (Option NodeId)) (name : String) (loc : Location) :
    c.Spares tag (c.add kind width sources name loc) := by
  refine ⟨fun {id n} hn htag => ?_, fun {id n} hn => ⟨n, ?_, rfl, rfl⟩⟩
  · rw [node?_add] at hn
    split at hn
    · cases hn
      exact absurd htag h
    · exact hn
  · rw [node?_add, if_neg (Nat.ne_of_lt (lt_size_of_node? hn)), hn]

theorem spares_modifyNode {f : Node → Node} (hn : c.node? id = some n) (h : n.kind.tag ≠ tag)
    (htag : (f n).kind.tag = n.kind.tag) (hwidth : (f n).width = n.width) :
    c.Spares tag (c.modifyNode id f) := by
  refine ⟨fun {other m} hm hmtag => ?_, fun {other m} hm => ?_⟩
  · rw [node?_modifyNode] at hm
    split at hm
    · next he =>
      subst he
      rw [hn, Option.map_some] at hm
      cases hm
      exact absurd (htag.symm.trans hmtag) h
    · exact hm
  · rw [node?_modifyNode]
    split
    · next he =>
      subst he
      cases hn.symm.trans hm
      exact ⟨f n, by rw [hn, Option.map_some], htag, hwidth⟩
    · exact ⟨m, hm, rfl, rfl⟩

theorem spares_addInput (c : Circuit) (hroom : c.hasRoom 2 = true) (hinput : .input ≠ tag)
    (hproxy : .proxy ≠ tag) (width : Nat) (name : String) (loc : Location) :
    c.Spares tag (c.addInput width name loc) := by
  let port := c.add (.input (.zero width) none none) width [] name loc
  have hport : c.Spares tag port := spares_add c (.input (.zero width) none none) hinput width [] name loc
  have hstand : port.Spares tag (port.add .proxy width [some c.nodes.nextId] name loc) :=
    spares_add port .proxy hproxy width _ name loc
  have hnode : (port.add .proxy width [some c.nodes.nextId] name loc).node? c.nodes.nextId =
      some ⟨c.nodes.nextId, .input (.zero width) none none, width, [], name, loc⟩ := by
    simp [port, node?_add, nextId_eq (hasRoom_one hroom)]
  exact (hport.trans hstand).trans (spares_modifyNode hnode hinput rfl rfl)

theorem spares_addOutput (c : Circuit) (hproxy : .proxy ≠ tag) (houtput : .output ≠ tag) (width : Nat)
    (name : String) (loc : Location) : c.Spares tag (c.addOutput width name loc) :=
  (spares_add c .proxy hproxy width [none] name loc).trans
    (spares_add _ .output houtput width _ name loc)

end Circuit

namespace Build

open Circuit

variable {c : Circuit} {tag : NodeKind.Tag}

theorem Ends.spares {α : Type} {step : Build α} (h : step.Ends c fun _ d => c.Spares tag d) :
    c.Spares tag (after step c) := by
  obtain hsame | ⟨_, hafter⟩ := h.after_cases
  · rw [hsame]
    exact .refl tag c
  · exact hafter

theorem spares_connectMemory (id : NodeId) (ports : MemoryPorts) (c : Circuit) (h : .memory ≠ tag) :
    c.Spares tag (after (connectMemory id ports) c) := by
  cases hn : c.ofTag? .memory id with
  | none =>
    obtain ⟨e, he⟩ := run_connectMemory_of_none hn ports
    rw [after, he]
    exact .refl tag c
  | some n =>
    obtain ⟨hnode, htag⟩ := ofTag?_eq_some.mp hn
    rcases run_connectMemory hn ports with ⟨-, hrun⟩ | ⟨_, -, hrun⟩ <;>
    · rw [after, hrun]
      exact spares_modifyNode hnode (htag ▸ h) rfl rfl

end Build

namespace Call

open Circuit

/-- The kinds of the nodes that a call may make or change, or `none` if it may be any kind. -/
def touched? : Call → Option (List NodeKind.Tag)
  | node .. | connect .. | drive .. => none
  | literal .. => some [.literal]
  | input .. => some [.input, .proxy]
  | output .. => some [.proxy, .output]
  | register .. | connectNext .. => some [.register]
  | operation .. => some [.operation]
  | proxy .. => some [.proxy]
  | memory .. | connectMemory .. => some [.memory]
  | noteDriver .. | preset .. => some [.input]
  | useClock .. | useReset .. => some []

/-- A call spares the nodes of all kinds that it does not touch, whatever its outcome. -/
theorem spares_apply {call : Call} {tags : List NodeKind.Tag} (h : call.touched? = some tags)
    {tag : NodeKind.Tag} (htag : tag ∉ tags) (c : Circuit) : c.Spares tag (call.apply c) := by
  have hne : ∀ other ∈ tags, other ≠ tag := fun _ hother he => htag (he ▸ hother)
  cases call with
  | node | connect | drive => cases h
  | literal value name loc =>
    cases h
    refine Build.Ends.spares (Build.ends_map ((Build.ends_node _ _ [] name loc c).mono ?_))
    rintro _ _ ⟨-, -, rfl⟩
    exact spares_add c _ (hne _ List.mem_cons_self) _ _ name loc
  | input width name loc =>
    cases h
    refine Build.Ends.spares (Build.ends_map ((Build.ends_input width name loc c).mono ?_))
    rintro _ _ ⟨-, hroom, rfl⟩
    exact spares_addInput c hroom (hne .input (by simp)) (hne .proxy (by simp)) width name loc
  | output width name loc =>
    cases h
    refine Build.Ends.spares (Build.ends_map ((Build.ends_output width name loc c).mono ?_))
    rintro _ _ ⟨-, -, rfl⟩
    exact spares_addOutput c (hne .proxy (by simp)) (hne .output (by simp)) width name loc
  | register width init name loc =>
    cases h
    refine Build.Ends.spares (Build.ends_map (Build.ends_get ?_))
    refine (Build.ends_node _ width _ name loc c).mono ?_
    rintro _ _ ⟨-, -, rfl⟩
    exact spares_add c _ (hne _ List.mem_cons_self) _ _ name loc
  | operation spec lhs rhs name loc =>
    cases h
    refine Build.Ends.spares (Build.ends_map ((Build.ends_operation spec lhs rhs name loc c).mono ?_))
    rintro _ _ ⟨width, -, -, rfl⟩
    exact spares_add c _ (hne _ List.mem_cons_self) _ _ name loc
  | proxy src name loc =>
    cases h
    refine Build.Ends.spares (Build.ends_map ((Build.ends_proxy src name loc c).mono ?_))
    rintro _ _ ⟨width, -, rfl⟩
    exact spares_add c _ (hne _ List.mem_cons_self) _ _ name loc
  | memory width depth init name loc =>
    cases h
    refine Build.Ends.spares (Build.ends_map ((Build.ends_memory width depth init name loc c).mono ?_))
    rintro _ _ ⟨words, -, -, rfl⟩
    exact spares_add c _ (hne _ List.mem_cons_self) _ _ name loc
  | connectNext id next =>
    cases h
    refine Build.Ends.spares (Build.ends_map ((Build.ends_connectNext id next c).mono ?_))
    rintro _ _ ⟨n, hn, -, -, rfl⟩
    obtain ⟨hnode, hkind⟩ := ofTag?_eq_some.mp hn
    exact spares_modifyNode hnode (hkind ▸ hne .register List.mem_cons_self) rfl rfl
  | noteDriver id driver =>
    cases h
    refine Build.Ends.spares (Build.ends_map ((Build.ends_noteDriver id driver c).mono ?_))
    rintro _ _ ⟨n, f, value, driver', proxy, hn, hkind, hf, rfl⟩
    exact spares_modifyNode hn (hkind ▸ hne .input List.mem_cons_self) (by rw [hf, hkind]; rfl)
      (by rw [hf])
  | preset id value =>
    cases h
    refine Build.Ends.spares (Build.ends_map ((Build.ends_preset id value c).mono ?_))
    rintro _ _ ⟨n, f, value', driver, proxy, hn, hkind, hf, rfl⟩
    exact spares_modifyNode hn (hkind ▸ hne .input List.mem_cons_self) (by rw [hf, hkind]; rfl)
      (by rw [hf])
  | connectMemory id ports =>
    cases h
    rw [apply, step, Build.after_map]
    exact Build.spares_connectMemory id ports c (hne .memory List.mem_cons_self)
  | useClock id =>
    refine Build.Ends.spares (Build.ends_map ((Build.ends_useClock id c).mono ?_))
    rintro _ _ ⟨-, rfl⟩
    exact ⟨fun hn _ => hn, fun hn => ⟨_, hn, rfl, rfl⟩⟩
  | useReset id =>
    refine Build.Ends.spares (Build.ends_map ((Build.ends_useReset id c).mono ?_))
    rintro _ _ ⟨-, rfl⟩
    exact ⟨fun hn _ => hn, fun hn => ⟨_, hn, rfl, rfl⟩⟩

end Call

end Netlist
