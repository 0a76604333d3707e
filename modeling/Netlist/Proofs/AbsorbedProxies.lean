import Netlist.Proofs.LoweredMeaning
import Netlist.Proofs.Resizing

namespace Netlist

namespace Circuit

/-- An output, the absorbed proxy that feeds it, and what drives the proxy. -/
structure Bypass (c : Circuit) (id feed driver : NodeId) (n proxy source : Node) : Prop where
  node_id : c.node? id = some n
  node_feed : c.node? feed = some proxy
  node_driver : c.node? driver = some source
  isOutput : n.kind = .output
  fed : n.source? 0 = some feed
  absorbed : c.Absorbed feed
  driven : proxy.source? 0 = some driver

variable {c : Circuit} {slots : Slots} {id feed driver : NodeId} {n proxy source : Node}

theorem IsValued.settle_copy (h : c.IsValued slots) (hn : c.node? id = some n)
    (hkind : n.kind = .output ∨ n.kind = .proxy) {src : NodeId} (hsrc : n.source? 0 = some src)
    {value : Word} (hvalue : slots.get? src = some value) (memories : Memories) :
    c.settle memories slots id = .ok (some (value.resize n.width false)) := by
  obtain ⟨own, hown, -⟩ := h.exists_value hn
  have hcontains : slots.contains id = true := by simp [SideMap.contains, hown]
  have hcompute : compute memories slots id n = .ok (some (value.resize n.width false)) := by
    rcases hkind with hkind | hkind <;> simp only [compute, hkind, Slots.read, hsrc, hvalue] <;> rfl
  simp only [settle, hn, hcompute, hcontains, Bool.not_true, Bool.and_false]
  rfl

namespace Bypass

variable (h : c.Bypass id feed driver n proxy source)
include h

theorem isProxy : proxy.kind = .proxy := by
  obtain ⟨⟨m, hm, hkind⟩, -, -⟩ := h.absorbed
  rw [h.node_feed] at hm
  cases hm
  exact hkind

theorem driver?_eq : c.driver? n = some driver := by
  rw [driver?, h.fed, Option.bind_some, if_pos h.absorbed, h.node_feed, Option.bind_some, h.driven]

/-- Once the proxy shows what drives it, the output shows that, cut to both widths. -/
theorem settle_output (hvalued : c.IsValued slots) {memories : Memories}
    (hsettled : c.settle memories slots feed = .ok (slots.get? feed)) {value : Word}
    (hvalue : slots.get? driver = some value) :
    c.settle memories slots id = .ok (some ((value.resize proxy.width false).resize n.width false)) := by
  have hfeed := hvalued.settle_copy h.node_feed (.inr h.isProxy) h.driven hvalue memories
  rw [hsettled] at hfeed
  exact hvalued.settle_copy h.node_id (.inl h.isOutput) h.fed (Except.ok.inj hfeed) memories

/-- The word with the first bit that the proxy has no room for. The proxy shows zero for it. -/
theorem exists_cut (hnarrow : proxy.width < source.width) (memories : Memories) :
    ∃ slots, c.IsValued slots ∧ c.settle memories slots feed = .ok (slots.get? feed) ∧
      slots.get? driver = some (.ofNat source.width (2 ^ proxy.width)) := by
  have hvalued := c.isValued_numbered fun _ => 2 ^ proxy.width
  have hdriver : (c.numbered fun _ => 2 ^ proxy.width).get? driver =
      some (.ofNat source.width (2 ^ proxy.width)) := by
    rw [get?_numbered, h.node_driver, Option.map_some]
  refine ⟨_, hvalued, ?_, hdriver⟩
  have hfits : 2 ^ proxy.width < 2 ^ source.width := Nat.pow_lt_pow_right (by decide) hnarrow
  rw [hvalued.settle_copy h.node_feed (.inr h.isProxy) h.driven hdriver, get?_numbered, h.node_feed,
    Option.map_some, Word.resize_false, Word.toNat_ofNat, Word.patterns_eq, Nat.mod_eq_of_lt hfits]

end Bypass

end Circuit

namespace Verilog

variable {c : Circuit}

namespace Plan.Sound

variable {p : Plan} {id feed driver : NodeId} {n proxy source : Node} (hp : p.Sound)
  (h : p.circuit.Bypass id feed driver n proxy source)
include hp h

theorem evaluate_bypass {slots : Slots} {value : Word} (hvalue : slots.get? driver = some value) :
    evaluate (valuation p.circuit p.naming slots) n.width (p.name driver) =
      some (value.resize n.width false) :=
  evaluate_name (hp.isName_name driver) ((hp.valuation_name h.node_driver).trans hvalue)

theorem bypass_iff :
    (∀ slots memories, p.circuit.IsValued slots →
      p.circuit.settle memories slots feed = .ok (slots.get? feed) →
      p.circuit.settle memories slots id =
        .ok (evaluate (valuation p.circuit p.naming slots) n.width (p.name driver))) ↔
      min source.width n.width ≤ proxy.width := by
  constructor
  · intro hsame
    -- a bit that the proxy has no room for, but both others have, is lost on the way
    by_contra hnarrow
    obtain ⟨slots, hvalued, hsettled, hvalue⟩ := h.exists_cut (by omega) .empty
    have hequal := hsame slots .empty hvalued hsettled
    rw [h.settle_output hvalued hsettled hvalue, hp.evaluate_bypass h hvalue] at hequal
    have hnat := congrArg Word.toNat (Option.some.inj (Except.ok.inj hequal))
    have hsource : 2 ^ proxy.width < 2 ^ source.width := Nat.pow_lt_pow_right (by decide) (by omega)
    have houtput : 2 ^ proxy.width < 2 ^ n.width := Nat.pow_lt_pow_right (by decide) (by omega)
    simp only [Word.resize_false, Word.toNat_ofNat, Word.patterns_eq, Nat.mod_eq_of_lt hsource,
      Nat.mod_eq_of_lt houtput, Nat.mod_self, Nat.zero_mod] at hnat
    exact absurd hnat.symm (Nat.two_pow_pos _).ne'
  · intro hwide slots memories hvalued hsettled
    obtain ⟨value, hvalue, hwidth⟩ := hvalued.exists_value h.node_driver
    rw [h.settle_output hvalued hsettled hvalue, hp.evaluate_bypass h hvalue,
      Word.resize_resize (by rwa [hwidth])]

end Plan.Sound

/-- The text assigns to an output what drives the absorbed proxy before it. For all values that is what
the output shows in a simulation, exactly if the proxy is as wide as its driver or as the output. -/
theorem bypass_keeps_values_iff_wide (h : c.Reachable) (hacyclic : c.Acyclic) :
    ∃ order m, c.order = .ok order ∧ ofCircuit c = .ok m ∧
      ∀ {id feed driver n proxy source}, c.Bypass id feed driver n proxy source →
        rightSides m.text ((Plan.ofCircuit c order).name id) = [(Plan.ofCircuit c order).name driver] ∧
        ((∀ slots memories, c.IsValued slots → c.settle memories slots feed = .ok (slots.get? feed) →
            c.settle memories slots id = .ok (evaluate (valuation c (Plan.ofCircuit c order).naming slots)
              n.width ((Plan.ofCircuit c order).name driver))) ↔
          min source.width n.width ≤ proxy.width) := by
  obtain ⟨order, horder, hsound, hmodule⟩ := exists_plan h hacyclic
  refine ⟨order, _, horder, hmodule, fun hbypass => ⟨?_, hsound.bypass_iff hbypass⟩⟩
  exact hsound.rightSides_output hbypass.node_id hbypass.isOutput hbypass.driver?_eq

/-- An output of the low half of an input. -/
def halved : Circuit :=
  .ofCalls [.input 8 "d" .unknown, .output 4 "y" .unknown, .drive ⟨3⟩ ⟨0⟩]

theorem halved_bypass : ∃ n proxy source, halved.Bypass ⟨3⟩ ⟨2⟩ ⟨0⟩ n proxy source ∧
    min source.width n.width ≤ proxy.width := by
  refine ⟨_, _, _, ⟨rfl, rfl, rfl, rfl, rfl, ?_, rfl⟩, ?_⟩ <;> decide +kernel

theorem halved_keeps_values :
    halved.Reachable ∧ halved.Acyclic ∧ ∃ order m n proxy source, halved.order = .ok order ∧
      ofCircuit halved = .ok m ∧ halved.Bypass ⟨3⟩ ⟨2⟩ ⟨0⟩ n proxy source ∧
      rightSides m.text ((Plan.ofCircuit halved order).name ⟨3⟩) =
        [(Plan.ofCircuit halved order).name ⟨0⟩] ∧
      ∀ slots memories, halved.IsValued slots → halved.settle memories slots ⟨2⟩ = .ok (slots.get? ⟨2⟩) →
        halved.settle memories slots ⟨3⟩ = .ok (evaluate (valuation halved
          (Plan.ofCircuit halved order).naming slots) n.width ((Plan.ofCircuit halved order).name ⟨0⟩)) := by
  have hreachable : halved.Reachable := Circuit.reachableBy_ofCalls fun _ _ => trivial
  have horder : halved.order = .ok [⟨0⟩, ⟨1⟩, ⟨2⟩, ⟨3⟩] := by decide +kernel
  have hacyclic : halved.Acyclic := (Circuit.isOrder_of_order hreachable.wellFormed horder).acyclic
  obtain ⟨n, proxy, source, hbypass, hwide⟩ := halved_bypass
  obtain ⟨order, m, horder', hm, hsame⟩ := bypass_keeps_values_iff_wide hreachable hacyclic
  obtain ⟨hside, hvalues⟩ := hsame hbypass
  exact ⟨hreachable, hacyclic, order, m, n, proxy, source, horder', hm, hbypass, hside,
    hvalues.mpr hwide⟩

/-- A byte on its way to an output through a proxy of one bit. -/
def narrowed : Circuit :=
  .ofCalls [.input 8 "d" .unknown, .literal (.ofNat 1 1) "a" .unknown, .proxy ⟨2⟩ "p" .unknown,
    .output 8 "y" .unknown, .connect ⟨3⟩ 0 (some ⟨0⟩), .connect ⟨5⟩ 0 (some ⟨3⟩)]

def narrowedValues : Slots := narrowed.numbered fun id => [254, 254, 1, 0, 0, 0].getD id.index 0

/-- The output shows none of the bits that the text assigns to it. -/
theorem narrow_proxy_cuts_output :
    narrowed.Reachable ∧ narrowed.Acyclic ∧ narrowed.Absorbed ⟨3⟩ ∧ narrowed.IsValued narrowedValues ∧
      narrowed.settle .empty narrowedValues ⟨3⟩ = .ok (narrowedValues.get? ⟨3⟩) ∧
      narrowed.settle .empty narrowedValues ⟨5⟩ = .ok (some (.ofNat 8 0)) ∧
      ∃ order m, narrowed.order = .ok order ∧ ofCircuit narrowed = .ok m ∧
        rightSides m.text ((Plan.ofCircuit narrowed order).name ⟨5⟩) =
          [(Plan.ofCircuit narrowed order).name ⟨0⟩] ∧
        evaluate (valuation narrowed (Plan.ofCircuit narrowed order).naming narrowedValues) 8
          ((Plan.ofCircuit narrowed order).name ⟨0⟩) = some (.ofNat 8 254) := by
  have hreachable : narrowed.Reachable := Circuit.reachableBy_ofCalls fun _ _ => trivial
  have horder : narrowed.order = .ok [⟨0⟩, ⟨1⟩, ⟨2⟩, ⟨3⟩, ⟨4⟩, ⟨5⟩] := by decide +kernel
  have hacyclic : narrowed.Acyclic := (Circuit.isOrder_of_order hreachable.wellFormed horder).acyclic
  have habsorbed : narrowed.Absorbed ⟨3⟩ := by decide +kernel
  have hvalue : narrowedValues.get? ⟨0⟩ = some (.ofNat 8 254) := rfl
  obtain ⟨order, horder', hsound, hmodule⟩ := exists_plan hreachable hacyclic
  obtain ⟨n, proxy, source, hbypass, hwidth⟩ : ∃ n proxy source,
      narrowed.Bypass ⟨5⟩ ⟨3⟩ ⟨0⟩ n proxy source ∧ n.width = 8 :=
    ⟨_, _, _, ⟨rfl, rfl, rfl, rfl, rfl, habsorbed, rfl⟩, rfl⟩
  have hside := hsound.rightSides_output hbypass.node_id hbypass.isOutput hbypass.driver?_eq
  have hassigned := hsound.evaluate_bypass hbypass hvalue
  rw [hwidth] at hassigned
  exact ⟨hreachable, hacyclic, habsorbed, narrowed.isValued_numbered _, rfl, rfl, order, _, horder',
    hmodule, hside, hassigned⟩

end Verilog

end Netlist
