import BoardNets.Proofs.Bus.Agreement
import BoardNets.Proofs.Net.Planned
import BoardNets.Proofs.Net.Series
import BoardNets.Proofs.Net.Served
import BoardNets.Proofs.Netlist.Owned

/-! Pins of parts outside the tree. Only the parts of the tree are asked for their pins and roles,
but what they name need not be in the tree: a filter's candidates that were not chosen may still be
named by an ancillary or a fragment. The pins of such a part get into nets with the wires that end
at them, and in no other way. -/
namespace BoardNets
namespace Circuit

/-- Something in the tree names a node: an ancillary that is bound to its pins or to an interface of
it, or a required fragment that ends there. -/
inductive Named (c : Circuit) (x : NodeId) : Prop
  | byPins {id : NodeId} {a : Ancillary} (role : (id, a) ∈ c.ancillaries)
      (binding : a.binding = .pins x)
  | byInterface {id parent : NodeId} {a : Ancillary} {i : InterfaceRef}
      (role : (id, a) ∈ c.ancillaries) (binding : a.binding = .interface parent i)
      (component : i.component = x)
  | byFragment {id : FragmentId} {i : InterfaceRef} (required : c.Requires root true id)
      (ends : c.EndsAt id i) (component : i.component = x)

/-- A node in the tree, or one that is named there. -/
def Known (c : Circuit) (x : NodeId) : Prop := c.InTree root x ∨ c.Named x

variable {c : Circuit}

theorem inTree_of_mem_partPins {p : ComponentPin} (h : p ∈ c.partPins) :
    c.InTree root p.component :=
  (mem_partPins.1 h).1

theorem component_of_referencePin {pins : SortedSet ComponentPin} {kind : ReferenceKind}
    {r : ComponentPin} (h : c.referencePin pins kind = .ok (some r)) :
    ∃ p ∈ pins, r.component = p.component := by
  obtain ⟨references, hreferences, h⟩ := bind_eq_ok.1 h
  obtain ⟨keyed, hkeyed, h⟩ := bind_eq_ok.1 h
  obtain ⟨key, hkey, rfl⟩ := Option.map_eq_some_iff.1 (pure_eq_ok.1 h)
  have hin : key ∈ keyed := List.mem_mergeSort.1 (List.mem_of_mem_head? hkey)
  obtain ⟨r, hr, hkey⟩ := (mem_of_mapM hkeyed).1 hin
  obtain ⟨pin, _, hkey⟩ := bind_eq_ok.1 hkey
  obtain rfl := pure_eq_ok.1 hkey
  obtain ⟨p, hp, hpr⟩ := exists_of_mem_filterMapM hreferences (SortedSet.mem_ofList.1 hr)
  obtain ⟨declared, _, hpr⟩ := bind_eq_ok.1 hpr
  refine ⟨p, hp, ?_⟩
  cases hreference : declared.reference kind with
  | none =>
    rw [hreference] at hpr
    cases hpr
  | some id =>
    rw [hreference] at hpr
    obtain ⟨q, hq, hpr⟩ := bind_eq_ok.1 hpr
    obtain rfl := Circuit.componentPin_eq_ok hq
    obtain rfl := Option.some.inj (pure_eq_ok.1 hpr)
    rfl

/-- The input pins of an ancillary of the tree are on a part that it names. -/
theorem named_of_inputPins (hc : c.Balanced) {id : NodeId} {a : Ancillary}
    (ha : (id, a) ∈ c.ancillaries) {n : AncillaryConnection} {pins : SortedSet ComponentPin}
    (h : n.inputPins c a.binding = .ok pins) {p : ComponentPin} (hp : p ∈ pins) :
    c.Named p.component := by
  cases hbinding : a.binding with
  | bus bus =>
    rw [hbinding] at h
    cases h
  | board board =>
    rw [hbinding] at h
    cases h
  | interface parent i =>
    rw [hbinding] at h
    obtain ⟨x, hx, h⟩ := bind_eq_ok.1 h
    obtain ⟨assignment, _, h⟩ := bind_eq_ok.1 h
    obtain rfl := pure_eq_ok.1 h
    exact .byInterface ha hbinding (hc.component_of_activePins hx hp).symm
  | pins parent =>
    rw [hbinding, AncillaryConnection.inputPins] at h
    cases hto : n.attachment with
    | interfacePin slot assignment =>
      rw [hto] at h
      cases h
    | pin pin =>
      rw [hto] at h
      obtain ⟨q, hq, h⟩ := bind_eq_ok.1 h
      obtain rfl := componentPin_eq_ok hq
      obtain rfl := pure_eq_ok.1 h
      obtain rfl := List.mem_singleton.1 (SortedSet.mem_ofList.1 hp)
      exact .byPins ha hbinding

/-- The pins of a bus's networks are on parts at the ends of its fragments. -/
theorem named_of_busNetworks (hc : c.Balanced) {buses : List Bus}
    (hbuses : c.flattenedBuses root = .ok buses) {bus : Bus} (hbus : bus ∈ buses)
    {networks : SortedMap LogicalNetwork NetworkPins}
    (hnetworks : c.busNetworks bus = .ok networks) {N : LogicalNetwork} {m : NetworkPins}
    (hm : networks.find? N = some m) {p : ComponentPin} (hp : p ∈ m.pins) :
    c.Named p.component := by
  obtain ⟨family, _, hgathered⟩ := gathered_busNetworks hnetworks
  obtain ⟨i, hi, x, hx, slot, _, hactive, _⟩ := (hgathered N p).1 ⟨m, hm, hp⟩
  obtain ⟨members, hmembers, hof, _⟩ := exists_members hbuses
  obtain ⟨s, hs⟩ := hof bus hbus
  obtain ⟨id, hid, hends⟩ := (hs.interfaces_iff hmembers).1 (mem_interfaces_of_physical hi)
  obtain ⟨member, hmember, _, rfl⟩ := hs.mem_fragments.1 hid
  exact .byFragment (hmembers.only member hmember).1 hends
    (hc.component_of_activePins hx hactive).symm

end Circuit

namespace Wires

/-- Connections end at known nodes, and one of a pin with itself is on a part of the tree. All
replacements are on parts of the tree. -/
def Step.Within (c : Circuit) : Step → Prop
  | .connect a b => c.Known a.component ∧ c.Known b.component ∧ (a = b → a ∈ c.partPins)
  | .mask _ replacement => replacement ∈ c.partPins

variable {d : Design} {buses : List Bus}

section Connection

variable {c : Circuit} {id : NodeId} {a : Ancillary} {n : AncillaryConnection}
  {pins : SortedSet ComponentPin} (hpins : ∀ p ∈ pins, c.Known p.component) {done : Application}
include hpins

theorem within_of_joinReference (hpart : (⟨id, n.ancillaryPin⟩ : ComponentPin) ∈ c.partPins)
    {kind : ReferenceKind} (h : n.joinReference c id a pins kind = .ok done) :
    ∀ s ∈ done.steps, s.Within c := by
  obtain ⟨r?, hr, h⟩ := bind_eq_ok.1 h
  cases r? with
  | none => exact absurd h throw_ne_ok
  | some r =>
    obtain rfl := pure_eq_ok.1 h
    obtain ⟨p, hp, hsame⟩ := Circuit.component_of_referencePin hr
    intro s hs
    obtain ⟨pair, hpair, rfl⟩ := Application.mem_steps_connections.1 hs
    obtain rfl := List.mem_singleton.1 hpair
    exact ⟨.inl (Circuit.inTree_of_mem_partPins hpart), hsame ▸ hpins p hp, fun _ => hpart⟩

theorem within_of_applyTo (ha : (id, a) ∈ c.ancillaries) (h : n.applyTo c id a pins = .ok done) :
    ∀ s ∈ done.steps, s.Within c := by
  obtain ⟨own, hown, h⟩ := bind_eq_ok.1 h
  obtain rfl := Circuit.componentPin_eq_ok hown
  obtain ⟨pin, hpin, _⟩ := bind_eq_ok.1 hown
  have hpart := Circuit.mem_partPins_of_ancillary ha hpin
  have hknown : c.Known id := .inl (Circuit.inTree_of_mem_partPins hpart)
  cases hrole : n.role with
  | input =>
    rw [hrole] at h
    obtain rfl := pure_eq_ok.1 h
    intro s hs
    obtain ⟨pair, hpair, rfl⟩ := Application.mem_steps_connections.1 hs
    obtain ⟨p, hp, rfl⟩ := List.mem_map.1 hpair
    exact ⟨hpins p hp, hknown, fun heq => heq ▸ hpart⟩
  | output =>
    rw [hrole] at h
    obtain rfl := pure_eq_ok.1 h
    intro s hs
    obtain ⟨p, _, rfl⟩ := Application.mem_steps_masks.1 hs
    exact hpart
  | voltageReference =>
    rw [hrole] at h
    exact within_of_joinReference hpins hpart h
  | groundReference =>
    rw [hrole] at h
    exact within_of_joinReference hpins hpart h

end Connection

theorem within_of_mem (hc : d.circuit.Balanced)
    (hbuses : d.circuit.flattenedBuses Circuit.root = .ok buses) {steps : List Step}
    (h : plan d buses = .ok steps) : ∀ s ∈ steps, s.Within d.circuit := by
  intro s hs
  cases planned_of_mem h hs with
  | onParent ha _ hinput hdone hs =>
    refine within_of_applyTo (fun p hp => .inr ?_) ha hdone s hs
    exact Circuit.named_of_inputPins hc ha hinput hp
  | onNetwork ha _ hbus hnetworks hm hdone hs =>
    refine within_of_applyTo (fun p hp => .inr ?_) ha hdone s hs
    exact Circuit.named_of_busNetworks hc hbuses hbus hnetworks hm hp
  | @network bus networks N m hbus hnetworks hm hs =>
    have hnamed {p : ComponentPin} (hp : p ∈ m.pins) : d.circuit.Known p.component :=
      .inr (Circuit.named_of_busNetworks hc hbuses hbus hnetworks hm hp)
    obtain ⟨first, rest, hpins, p, hp, rfl⟩ := mem_star.1 hs
    obtain ⟨hfirst, hrest⟩ := mem_of_mem_star hs
    refine ⟨hnamed hfirst, hnamed hrest, ?_⟩
    rintro rfl
    have hnodup := m.pins.nodup
    rw [hpins] at hnodup
    exact absurd hp (List.nodup_cons.1 hnodup).1

def Local (w : Wires) (c : Circuit) : Prop :=
  ∀ p r, w.masks.find? p = some r → r ∈ c.partPins

variable {c : Circuit} {w : Wires}

theorem Local.take (hw : w.Local c) {s : Step} (hs : s.Within c) : (w.take s).Local c := by
  intro p r hr
  cases s with
  | connect a b =>
    rw [Wires.take, masks_connect] at hr
    exact hw p r hr
  | mask q replacement =>
    rw [Wires.take, mask, SortedMap.find?_insert] at hr
    split at hr
    · exact Option.some.inj hr ▸ hs
    · exact hw p r hr

theorem Local.carry (hw : w.Local c) {steps : List Step} (h : ∀ s ∈ steps, s.Within c) :
    (w.carry steps).Local c := by
  induction steps generalizing w with
  | nil => exact hw
  | cons s steps ih =>
    obtain ⟨hs, hsteps⟩ := List.forall_mem_cons.1 h
    exact ih (hw.take hs) hsteps

/-- What stands for a pin is the pin itself or on a part of the tree. -/
theorem Local.masked_cases (hw : w.Local c) (p : ComponentPin) :
    (w.masks.find? p = none ∧ w.masked p = p) ∨ w.masked p ∈ c.partPins := by
  rw [masked]
  cases hp : w.masks.find? p with
  | none => exact .inl ⟨rfl, rfl⟩
  | some r => exact .inr (hw p r hp)

/-- What stands for a pin outside the tree is that pin alone, unreplaced. -/
theorem Local.eq_of_masked (hw : w.Local c) {p q : ComponentPin} (hp : p ∉ c.partPins)
    (h : w.masked q = p) : q = p ∧ w.masks.find? p = none := by
  rcases hw.masked_cases q with ⟨hnone, hsame⟩ | hpart
  · obtain rfl : q = p := hsame.symm.trans h
    exact ⟨rfl, hnone⟩
  · exact absurd (h ▸ hpart) hp

theorem find?_masks_carry_none {steps : List Step} {p : ComponentPin} :
    (w.carry steps).masks.find? p = none ↔
      w.masks.find? p = none ∧ ∀ r, .mask p r ∉ steps := by
  induction steps generalizing w with
  | nil => simp [carry]
  | cons s steps ih =>
    rw [carry_cons, ih]
    cases s with
    | connect a b => simp [take, masks_connect]
    | mask q replacement =>
      rw [take, mask, SortedMap.find?_insert]
      by_cases hpq : p = q
      · subst hpq
        refine iff_of_false (fun h => ?_) fun h => h.2 replacement List.mem_cons_self
        rw [if_pos rfl] at h
        cases h.1
      · simp [hpq]

/-- A pin outside the tree has edges where a connection ends at it before it is replaced. -/
theorem laid_outside_iff (hw : w.Local c) {p : ComponentPin} (hp : p ∉ c.partPins)
    (hfree : w.masks.find? p = none) {steps : List Step} (h : ∀ s ∈ steps, s.Within c) :
    (∃ e ∈ w.laid steps, p = e.1 ∨ p = e.2) ↔
      ∃ before a b after, steps = before ++ .connect a b :: after ∧ (a = p ∨ b = p) ∧
        ∀ r, .mask p r ∉ before := by
  constructor
  · rintro ⟨e, he, hends⟩
    obtain ⟨before, a, b, after, rfl, hadded⟩ := mem_laid_iff.1 he
    obtain ⟨_, rfl⟩ := mem_added.1 hadded
    have hlocal : (w.carry before).Local c :=
      hw.carry fun s hs => h s (List.mem_append_left _ hs)
    rcases hends with ha | hb
    · obtain ⟨hsame, hnone⟩ := hlocal.eq_of_masked hp ha.symm
      exact ⟨before, a, b, after, rfl, .inl hsame, (find?_masks_carry_none.1 hnone).2⟩
    · obtain ⟨hsame, hnone⟩ := hlocal.eq_of_masked hp hb.symm
      exact ⟨before, a, b, after, rfl, .inr hsame, (find?_masks_carry_none.1 hnone).2⟩
  · rintro ⟨before, a, b, after, rfl, hends, hnone⟩
    have hlocal : (w.carry before).Local c :=
      hw.carry fun s hs => h s (List.mem_append_left _ hs)
    have hmasked : (w.carry before).masked p = p := by
      rw [masked, find?_masks_carry_none.2 ⟨hfree, hnone⟩]
      rfl
    have hother {q : ComponentPin} (hq : (w.carry before).masked q = p) : q = p :=
      (hlocal.eq_of_masked hp hq).1
    -- only pins of the tree are connected with themselves
    have hwithin := h (.connect a b) (List.mem_append_right _ List.mem_cons_self)
    have hne : a ≠ b := fun heq => by
      have hpart := hwithin.2.2 heq
      rcases hends with rfl | rfl
      · exact hp hpart
      · exact hp (heq ▸ hpart)
    rcases hends with rfl | rfl
    · refine ⟨(a, (w.carry before).masked b), ?_, .inl rfl⟩
      refine mem_laid_iff.2 ⟨before, a, b, after, rfl, ?_⟩
      refine mem_added.2 ⟨fun heq => hne (hother ?_).symm, by rw [hmasked]⟩
      rw [← heq, hmasked]
    · refine ⟨((w.carry before).masked a, b), ?_, .inr rfl⟩
      refine mem_laid_iff.2 ⟨before, a, b, after, rfl, ?_⟩
      refine mem_added.2 ⟨fun heq => hne (hother ?_), by rw [hmasked]⟩
      rw [heq, hmasked]

theorem known_of_mem_laid (hw : w.Local c) {steps : List Step} (h : ∀ s ∈ steps, s.Within c)
    {e : ComponentPin × ComponentPin} (he : e ∈ w.laid steps) :
    c.Known e.1.component ∧ c.Known e.2.component := by
  obtain ⟨before, a, b, after, rfl, hadded⟩ := mem_laid_iff.1 he
  obtain ⟨_, rfl⟩ := mem_added.1 hadded
  have hlocal : (w.carry before).Local c := hw.carry fun s hs => h s (List.mem_append_left _ hs)
  have hwithin := h (.connect a b) (List.mem_append_right _ List.mem_cons_self)
  have hknown {q : ComponentPin} (hq : c.Known q.component) :
      c.Known ((w.carry before).masked q).component := by
    rcases hlocal.masked_cases q with ⟨_, hsame⟩ | hpart
    · rwa [hsame]
    · exact .inl (Circuit.inTree_of_mem_partPins hpart)
  exact ⟨hknown hwithin.1, hknown hwithin.2.1⟩

end Wires

namespace Stages

variable {d : Design} {n : Netlist}

theorem isPart_of_mem (s : Stages d n) {net : Net} (hnet : net ∈ n.nets) {p : ComponentPin}
    (hp : p ∈ net.pins) : ∃ part, d.circuit.component? p.component = some part ∧
      part.isPart = true ∧ ∃ pin ∈ part.pins, pin.id = p.pin := by
  obtain ⟨g, hg, _, hsub⟩ := s.exists_group hnet
  obtain ⟨owners, _, hgroups⟩ := bind_eq_ok.1 s.grouped
  obtain ⟨pins, _, hgroup⟩ := (mem_of_mapM hgroups).1 hg
  obtain ⟨nets, hnets⟩ := exists_mapM_iff.1 ⟨s.nets, s.cut⟩ g hg
  obtain ⟨r, hr⟩ := (PinGroup.nets_eq_ok hnets).2 p (hsub p hp)
  obtain ⟨pin, hpin, _⟩ := bind_eq_ok.1 hr
  obtain ⟨part, hpart, hpins⟩ := Circuit.exists_of_pin hpin
  have hispart := Wires.isPart_of_group hgroup p (Wires.group_pins hgroup ▸ hsub p hp)
  exact ⟨part, hpart, by simpa [Circuit.isPart, hpart] using hispart, hpins⟩

end Stages

/-- Every pin of a net is a pin of a part, which is in the tree or is named there by an ancillary or
a fragment. A pin outside the tree is in a net just in case some wire ends at it before an output
replaces it; so nets keep to the tree if nothing in the tree names what is not in it. -/
theorem net_pins_known {d d' : Design} {n : Netlist} (hc : d.circuit.Reachable)
    (h : d.synthesize = .ok (d', n)) :
    (∀ net ∈ n.nets, ∀ p ∈ net.pins, d.circuit.Known p.component ∧
      ∃ part, d.circuit.component? p.component = some part ∧ part.isPart = true ∧
        ∃ pin ∈ part.pins, pin.id = p.pin) ∧
    ∃ buses steps, d.circuit.flattenedBuses Circuit.root = .ok buses ∧
      Wires.plan d buses = .ok steps ∧
      ∀ p, ¬d.circuit.InTree Circuit.root p.component →
        ((∃ net ∈ n.nets, p ∈ net.pins) ↔
          ∃ before a b after, steps = before ++ .connect a b :: after ∧ (a = p ∨ b = p) ∧
            ∀ r, .mask p r ∉ before) := by
  obtain ⟨s⟩ := Design.synthesize_eq_ok h
  obtain ⟨steps, hsteps, hwires⟩ := Wires.ofDesign_eq_ok.1 s.wired
  have hwithin := Wires.within_of_mem hc.balanced s.flattened hsteps
  have hbare : (Wires.bare d.circuit).Local d.circuit := fun _ _ hr => by cases hr
  have hnode {p : ComponentPin} : (∃ net ∈ n.nets, p ∈ net.pins) ↔ p ∈ d.circuit.partPins ∨
      ∃ e ∈ (Wires.bare d.circuit).laid steps, p = e.1 ∨ p = e.2 := by
    rw [s.exists_net_iff, ← hwires, Wires.mem_nodes_carry_iff, Wires.mem_nodes_bare]
  constructor
  · intro net hnet p hp
    refine ⟨?_, s.isPart_of_mem hnet hp⟩
    rcases hnode.1 ⟨net, hnet, hp⟩ with hpart | ⟨e, he, rfl | rfl⟩
    · exact .inl (Circuit.inTree_of_mem_partPins hpart)
    · exact (Wires.known_of_mem_laid hbare hwithin he).1
    · exact (Wires.known_of_mem_laid hbare hwithin he).2
  · refine ⟨s.buses, steps, s.flattened, hsteps, fun p hp => ?_⟩
    have hout : p ∉ d.circuit.partPins := fun hpart => hp (Circuit.inTree_of_mem_partPins hpart)
    rw [hnode, or_iff_right hout]
    exact Wires.laid_outside_iff hbare hout rfl hwithin

namespace Specimen

/-- A filter that has been replaced by its second candidate, and a pull-up on its first one. -/
def straying : Design where
  circuit := (Circuit.new catalog).after [
    .filter Circuit.root "U1" "oscillator" none,
    .candidate ⟨1⟩ oscillator,
    .candidate ⟨1⟩ oscillator,
    .resolve ⟨1⟩ ⟨3⟩,
    .ancillary Circuit.root "R1" "pull-up" consumer {
      type := .pullupResistor
      binding := .pins ⟨2⟩
      connections := [⟨⟨⟨9⟩⟩, .input, .pin ⟨⟨8⟩⟩⟩] }]
  boards := []
  mainBoardReference := "MAIN"
  options := { splitByBoard := false }

theorem exists_synthesize_straying : ∃ r, straying.synthesize = .ok r :=
  isOk_iff.1 (by decide +kernel)

/-- The first candidate is not in the tree, but its pin is in the net of the pull-up. -/
theorem exists_stray_net {d : Design} {n : Netlist} (h : straying.synthesize = .ok (d, n)) :
    ¬straying.circuit.InTree Circuit.root ⟨2⟩ ∧
      ∃ net ∈ n.nets, (⟨⟨2⟩, ⟨⟨8⟩⟩⟩ : ComponentPin) ∈ net.pins := by
  constructor
  · intro hin
    have hout : (⟨2⟩ : NodeId) ∉ straying.circuit.subtree Circuit.root := by decide +kernel
    exact hout (Circuit.mem_subtree_iff.2 hin)
  · obtain ⟨s⟩ := Design.synthesize_eq_ok h
    obtain ⟨net, hnet, hp, _⟩ := (joins_iff s rfl (p := ⟨⟨2⟩, ⟨⟨8⟩⟩⟩) (q := ⟨⟨4⟩, ⟨⟨9⟩⟩⟩)
      (b := true) (by decide +kernel)).2 rfl
    exact ⟨net, hnet, hp⟩

end Specimen

/-- The pull-up names the candidate, and a wire ends at its pin. -/
theorem net_pins_known_specimen : ∃ d n, Specimen.straying.synthesize = .ok (d, n) ∧
    Specimen.straying.circuit.Reachable ∧ Specimen.straying.circuit.Known ⟨2⟩ ∧
    ∃ buses before a b after,
      Wires.plan Specimen.straying buses = .ok (before ++ .connect a b :: after) ∧
        (a = ⟨⟨2⟩, ⟨⟨8⟩⟩⟩ ∨ b = ⟨⟨2⟩, ⟨⟨8⟩⟩⟩) := by
  obtain ⟨⟨d, n⟩, h⟩ := Specimen.exists_synthesize_straying
  obtain ⟨hout, net, hnet, hp⟩ := Specimen.exists_stray_net h
  have hc : Specimen.straying.circuit.Reachable := ⟨_, _, rfl⟩
  obtain ⟨hknown, buses, steps, _, hsteps, hwired⟩ := net_pins_known hc h
  obtain ⟨before, a, b, after, rfl, hends, _⟩ := (hwired _ hout).1 ⟨net, hnet, hp⟩
  exact ⟨d, n, h, hc, (hknown net hnet _ hp).1, buses, before, a, b, after, hsteps, hends⟩

/-- A candidate that was not chosen may have a pin in a net. -/
theorem net_leaves_tree : ∃ d n, Specimen.straying.synthesize = .ok (d, n) ∧
    Specimen.straying.circuit.Reachable ∧ ∃ net ∈ n.nets, ∃ p ∈ net.pins,
      ¬Specimen.straying.circuit.InTree Circuit.root p.component := by
  obtain ⟨⟨d, n⟩, h⟩ := Specimen.exists_synthesize_straying
  obtain ⟨hout, net, hnet, hp⟩ := Specimen.exists_stray_net h
  exact ⟨d, n, h, ⟨_, _, rfl⟩, net, hnet, _, hp, hout⟩

end BoardNets
