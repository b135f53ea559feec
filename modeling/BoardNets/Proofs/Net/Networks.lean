import BoardNets.Proofs.Circuit.Arena
import BoardNets.Proofs.Netlist.Partition

/-! Nets without ancillaries. Each bus gathers its active pins by logical network and joins those of
a network, so pins share a net exactly when a chain of such networks leads from one to the other. -/
namespace BoardNets
namespace Circuit

variable (c : Circuit)

/-- A pin is active on a physical interface of a bus, as a slot of a logical network. The side on
which the slot is looked up is that of its interface in the bus. -/
def OnNetwork (bus : Bus) (family : FamilyKey) (network : LogicalNetwork) (p : ComponentPin) :
    Prop :=
  ∃ i ∈ bus.physicalInterfaces c, ∃ interface, c.interface i = .ok interface ∧
    ∃ slot ∈ interface.activeInterfacePins, p ∈ interface.activePins (some slot) none ∧
      c.catalog.logicalNetwork family slot (i ∈ bus.sourceInterfaces c) = .ok network

/-- Two pins are on one logical network of one flattened bus. -/
def SameNetwork (p q : ComponentPin) : Prop :=
  ∃ buses, c.flattenedBuses root = .ok buses ∧ ∃ bus ∈ buses, ∃ family, bus.family c = .ok family ∧
    ∃ network, c.OnNetwork bus family.key network p ∧ c.OnNetwork bus family.key network q

/-- No part of the tree is an ancillary. -/
def Plain : Prop :=
  ∀ id part, c.InTree root id → c.component? id = some part → part.isPart = true →
    part.ancillary = none

variable {c}

theorem ancillaries_eq_nil (h : c.Plain) : c.ancillaries = [] := by
  rw [ancillaries, List.filterMap_eq_nil_iff]
  intro id hid
  obtain ⟨htree, hpart⟩ := mem_parts_iff.1 hid
  cases hid' : c.component? id with
  | none => rfl
  | some part =>
    have hnone := h id part htree hid' (by simpa [isPart, hid'] using hpart)
    simp [hnone]

theorem mem_ancillaries {e : NodeId × Ancillary} : e ∈ c.ancillaries ↔ c.InTree root e.1 ∧
    ∃ p, c.component? e.1 = some p ∧ p.isPart = true ∧ p.ancillary = some e.2 := by
  obtain ⟨id, a⟩ := e
  simp only [ancillaries, List.mem_filterMap, mem_parts_iff]
  constructor
  · rintro ⟨x, ⟨htree, hpart⟩, hx⟩
    obtain ⟨p, hp, hx⟩ := Option.bind_eq_some_iff.1 hx
    obtain ⟨b, hb, hx⟩ := Option.bind_eq_some_iff.1 hx
    obtain ⟨rfl, rfl⟩ := Prod.mk.inj (Option.some.inj hx)
    exact ⟨htree, p, hp, by simpa [isPart, hp] using hpart, hb⟩
  · rintro ⟨htree, p, hp, hpart, ha⟩
    refine ⟨id, ⟨htree, by simpa [isPart, hp] using hpart⟩, ?_⟩
    simp [hp, ha]

def Gathered (networks : SortedMap LogicalNetwork NetworkPins) (x : LogicalNetwork × ComponentPin) :
    Prop :=
  ∃ n, networks.find? x.1 = some n ∧ x.2 ∈ n.pins

theorem gathered_addToNetwork {family : FamilyKey} {interface : ComponentInterface}
    {requesting : Bool} {networks networks' : SortedMap LogicalNetwork NetworkPins}
    {slot : InterfacePinId}
    (h : c.addToNetwork family interface requesting networks slot = .ok networks')
    (x : LogicalNetwork × ComponentPin) :
    Gathered networks' x ↔ Gathered networks x ∨
      (x.2 ∈ interface.activePins (some slot) none ∧
        c.catalog.logicalNetwork family slot requesting = .ok x.1) := by
  rw [addToNetwork, bind_eq_ok] at h
  obtain ⟨network, hnetwork, h⟩ := h
  rw [lift_eq_ok] at hnetwork
  rw [pure_eq_ok] at h
  subst h
  obtain ⟨N, p⟩ := x
  by_cases hN : N = network
  · subst hN
    cases hfind : networks.find? N <;> simp [Gathered, hnetwork, hfind]
  · have hne : network ≠ N := fun h => hN h.symm
    simp [Gathered, hnetwork, hN, hne]

theorem gathered_addInterface {bus : Bus} {family : FamilyKey} {i : InterfaceRef}
    {networks networks' : SortedMap LogicalNetwork NetworkPins}
    (h : c.addInterface bus family networks i = .ok networks')
    (x : LogicalNetwork × ComponentPin) :
    Gathered networks' x ↔ Gathered networks x ∨ ∃ interface, c.interface i = .ok interface ∧
      ∃ slot ∈ interface.activeInterfacePins, x.2 ∈ interface.activePins (some slot) none ∧
        c.catalog.logicalNetwork family slot (i ∈ bus.sourceInterfaces c) = .ok x.1 := by
  rw [addInterface, bind_eq_ok] at h
  obtain ⟨interface, hinterface, h⟩ := h
  simp only [hinterface, Except.ok.injEq, exists_eq_left']
  exact foldlM_gathers (fun _ _ _ hstep => gathered_addToNetwork hstep) h x

/-- The networks of a bus hold its active pins, each as the slot it is active as. -/
theorem gathered_busNetworks {bus : Bus} {networks : SortedMap LogicalNetwork NetworkPins}
    (h : c.busNetworks bus = .ok networks) : ∃ family, bus.family c = .ok family ∧
      ∀ N p, Gathered networks (N, p) ↔ c.OnNetwork bus family.key N p := by
  rw [busNetworks, bind_eq_ok] at h
  obtain ⟨family, hfamily, h⟩ := h
  refine ⟨family, hfamily, fun N p => ?_⟩
  rw [foldlM_gathers (fun _ _ _ hstep => gathered_addInterface hstep) h]
  simp only [Gathered, SortedMap.find?_empty, reduceCtorEq, false_and, exists_false, false_or]
  rfl

end Circuit

/-- Picked parts are in the role of an ancillary that passes the test. -/
theorem Design.test_of_mem_ancillaryParts {d : Design} {test : Ancillary → Result Bool}
    {parts : List NodeId} (h : d.ancillaryParts test = .ok parts) {x : NodeId} (hx : x ∈ parts) :
    ∃ a, (x, a) ∈ d.circuit.ancillaries ∧ test a = .ok true := by
  obtain ⟨atoms, hatoms, h⟩ := bind_eq_ok.1 h
  obtain ⟨_, _, hatoms⟩ := bind_eq_ok.1 hatoms
  obtain rfl := pure_eq_ok.1 hatoms
  obtain ⟨hall, rfl⟩ := filterM_eq_ok.1 h
  obtain ⟨hpart, hyes⟩ := List.mem_filter.1 hx
  obtain ⟨b, hb⟩ := hall x hpart
  rw [hb] at hyes
  obtain rfl : b = true := hyes
  obtain ⟨p, hp, htest⟩ := bind_eq_ok.1 hb
  rw [Circuit.component_eq_ok] at hp
  obtain ⟨htree, hpart⟩ := Circuit.mem_parts_iff.1 hpart
  cases ha : p.ancillary with
  | none =>
    rw [ha] at htest
    cases htest
  | some a =>
    rw [ha] at htest
    refine ⟨a, Circuit.mem_ancillaries.2 ⟨htree, p, hp, ?_, ha⟩, htest⟩
    simpa [Circuit.isPart, hp] using hpart

namespace Wires

theorem networkPlan_nil (c : Circuit) (network : LogicalNetwork) (n : NetworkPins) :
    networkPlan c [] network n = .ok (star n.pins) := by
  rw [networkPlan]
  cases n.requested <;> rfl

theorem busAncillaries_eq_nil {d : Design} (h : ∀ e ∈ d.circuit.ancillaries, e.2.isLocal = true)
    {bus : Bus} {parts : List NodeId} (hparts : d.busAncillaries bus none = .ok parts) :
    parts = [] := by
  refine List.eq_nil_iff_forall_not_mem.2 fun x hx => ?_
  obtain ⟨a, ha, htest⟩ := Design.test_of_mem_ancillaryParts hparts hx
  have hlocal := h (x, a) ha
  obtain ⟨type, connectionType, latency, connections, binding⟩ := a
  cases binding with
  | bus bus => cases hlocal
  | interface parent i => cases htest
  | pins parent => cases htest
  | board id => cases hlocal

theorem busPlan_local {d : Design} (h : ∀ e ∈ d.circuit.ancillaries, e.2.isLocal = true)
    {bus : Bus} {steps : List Step} (hplan : busPlan d bus = .ok steps) :
    ∃ networks, d.circuit.busNetworks bus = .ok networks ∧
      ∀ s, s ∈ steps ↔ ∃ N n, networks.find? N = some n ∧ s ∈ star n.pins := by
  obtain ⟨networks, hnetworks, hplan⟩ := bind_eq_ok.1 hplan
  obtain ⟨parts, hparts, hplan⟩ := bind_eq_ok.1 hplan
  obtain rfl := busAncillaries_eq_nil h hparts
  have hnone : d.circuit.ancillaries.filter (fun e => decide (e.1 ∈ ([] : List NodeId))) = [] :=
    List.filter_eq_nil_iff.2 fun _ _ => by simp
  rw [hnone] at hplan
  simp only [Ancillary.sort, List.mergeSort_nil, networkPlan_nil, bind_eq_ok, pure_eq_ok] at hplan
  obtain ⟨stars, hstars, rfl⟩ := hplan
  refine ⟨networks, hnetworks, fun s => ?_⟩
  simp only [List.mem_flatten, mem_of_mapM hstars, Except.ok.injEq, SortedMap.find?_eq_some_iff]
  constructor
  · rintro ⟨_, ⟨⟨N, n⟩, hmem, rfl⟩, hs⟩
    exact ⟨N, n, hmem, hs⟩
  · rintro ⟨N, n, hmem, hs⟩
    exact ⟨star n.pins, ⟨(N, n), hmem, rfl⟩, hs⟩

theorem exists_busNetworks {d : Design} {buses : List Bus} {w : Wires}
    (h : ofDesign d buses = .ok w) {bus : Bus} (hbus : bus ∈ buses) :
    ∃ networks, d.circuit.busNetworks bus = .ok networks := by
  obtain ⟨steps, hsteps, _⟩ := ofDesign_eq_ok.1 h
  obtain ⟨_, _, hplan⟩ := bind_eq_ok.1 hsteps
  obtain ⟨plans, hplans, _⟩ := bind_eq_ok.1 hplan
  obtain ⟨plan, hplan⟩ := exists_mapM_iff.1 ⟨plans, hplans⟩ bus hbus
  obtain ⟨networks, hnetworks, _⟩ := bind_eq_ok.1 hplan
  exact ⟨networks, hnetworks⟩

theorem localPlan_plain {c : Circuit} (h : c.Plain) : localPlan c = .ok [] := by
  rw [localPlan, Circuit.ancillaries_eq_nil h]
  simp [Ancillary.sort, pure, Except.pure, bind, Except.bind]

theorem plan_local {d : Design} (h : ∀ e ∈ d.circuit.ancillaries, e.2.isLocal = true)
    {buses : List Bus} {steps : List Step} (hplan : plan d buses = .ok steps) :
    ∃ first stars, localPlan d.circuit = .ok first ∧ steps = first ++ stars ∧
      ∀ s, s ∈ stars ↔ ∃ bus ∈ buses, ∃ networks, d.circuit.busNetworks bus = .ok networks ∧
        ∃ N n, networks.find? N = some n ∧ s ∈ star n.pins := by
  obtain ⟨first, hfirst, hplan⟩ := bind_eq_ok.1 hplan
  obtain ⟨plans, hplans, hplan⟩ := bind_eq_ok.1 hplan
  refine ⟨first, plans.flatten, hfirst, (pure_eq_ok.1 hplan).symm, fun s => ?_⟩
  simp only [List.mem_flatten, mem_of_mapM hplans]
  constructor
  · rintro ⟨t, ⟨bus, hbus, ht⟩, hs⟩
    obtain ⟨networks, hnetworks, hmem⟩ := busPlan_local h ht
    exact ⟨bus, hbus, networks, hnetworks, (hmem s).1 hs⟩
  · rintro ⟨bus, hbus, networks, hnetworks, hs⟩
    obtain ⟨t, ht⟩ := exists_mapM_iff.1 ⟨plans, hplans⟩ bus hbus
    obtain ⟨networks', hnetworks', hmem⟩ := busPlan_local h ht
    obtain rfl := Except.ok.inj (hnetworks.symm.trans hnetworks')
    exact ⟨t, ⟨bus, hbus, ht⟩, (hmem s).2 hs⟩

theorem plan_plain {d : Design} (h : d.circuit.Plain) {buses : List Bus} {steps : List Step}
    (hplan : plan d buses = .ok steps) (s : Step) :
    s ∈ steps ↔ ∃ bus ∈ buses, ∃ networks, d.circuit.busNetworks bus = .ok networks ∧
      ∃ N n, networks.find? N = some n ∧ s ∈ star n.pins := by
  have hlocal : ∀ e ∈ d.circuit.ancillaries, e.2.isLocal = true := by
    rw [Circuit.ancillaries_eq_nil h]
    exact List.forall_mem_nil _
  obtain ⟨first, stars, hfirst, rfl, hmem⟩ := plan_local hlocal hplan
  rw [localPlan_plain h] at hfirst
  obtain rfl := Except.ok.inj hfirst
  exact hmem s

end Wires

namespace Stages

variable {d : Design} {n : Netlist}

theorem mem_edges_plain (s : Stages d n) (h : d.circuit.Plain) {a b : ComponentPin} :
    (a, b) ∈ s.wires.graph.edges ↔ a ≠ b ∧ ∃ bus ∈ s.buses, ∃ networks,
      d.circuit.busNetworks bus = .ok networks ∧
        ∃ N m, networks.find? N = some m ∧ .connect a b ∈ Wires.star m.pins := by
  obtain ⟨steps, hsteps, hwires⟩ := Wires.ofDesign_eq_ok.1 s.wired
  have hconnect : ∀ t ∈ steps, ∃ a b, t = .connect a b := by
    intro t ht
    obtain ⟨_, _, _, _, _, _, _, hstar⟩ := (Wires.plan_plain h hsteps t).1 ht
    obtain ⟨first, _, _, p, _, heq⟩ := Wires.mem_star.1 hstar
    exact ⟨first, p, heq⟩
  have hbare : (Wires.bare d.circuit).graph.edges = [] := Wires.edges_bare d.circuit
  rw [← hwires, Wires.carry_connects rfl hconnect, hbare, Wires.plan_plain h hsteps]
  exact or_iff_right List.not_mem_nil

theorem sameNetwork_iff (s : Stages d n) {p q : ComponentPin}
    (hnetworks : ∀ bus ∈ s.buses, ∃ networks, d.circuit.busNetworks bus = .ok networks) :
    d.circuit.SameNetwork p q ↔ ∃ bus ∈ s.buses, ∃ networks,
      d.circuit.busNetworks bus = .ok networks ∧
        ∃ N m, networks.find? N = some m ∧ p ∈ m.pins ∧ q ∈ m.pins := by
  constructor
  · rintro ⟨buses, hbuses, bus, hbus, family, hfamily, N, hp, hq⟩
    obtain rfl := Except.ok.inj (hbuses.symm.trans s.flattened)
    obtain ⟨networks, hnets⟩ := hnetworks bus hbus
    obtain ⟨family', hfamily', hgathered⟩ := Circuit.gathered_busNetworks hnets
    obtain rfl := Except.ok.inj (hfamily.symm.trans hfamily')
    obtain ⟨m, hm, hp⟩ := (hgathered N p).2 hp
    obtain ⟨m', hm', hq⟩ := (hgathered N q).2 hq
    obtain rfl := Option.some.inj (hm.symm.trans hm')
    exact ⟨bus, hbus, networks, hnets, N, m, hm, hp, hq⟩
  · rintro ⟨bus, hbus, networks, hnets, N, m, hm, hp, hq⟩
    obtain ⟨family, hfamily, hgathered⟩ := Circuit.gathered_busNetworks hnets
    exact ⟨s.buses, s.flattened, bus, hbus, family, hfamily, N, (hgathered N p).1 ⟨m, hm, hp⟩,
      (hgathered N q).1 ⟨m, hm, hq⟩⟩

theorem exists_busNetworks (s : Stages d n) {bus : Bus} (hbus : bus ∈ s.buses) :
    ∃ networks, d.circuit.busNetworks bus = .ok networks :=
  Wires.exists_busNetworks s.wired hbus

theorem linked_iff_sameNetwork (s : Stages d n) (h : d.circuit.Plain) {p q : ComponentPin} :
    s.wires.graph.Linked p q ↔
      p ∈ s.wires.graph.nodes ∧ Relation.ReflTransGen d.circuit.SameNetwork p q := by
  have hsame {a b : ComponentPin} :=
    s.sameNetwork_iff (p := a) (q := b) fun _ => s.exists_busNetworks
  rw [Graph.linked_iff_reflTransGen]
  refine and_congr_right fun _ => ⟨fun hpath => ?_, fun hchain => ?_⟩
  · refine Relation.ReflTransGen.mono (fun a b hab => hsame.2 ?_) p q hpath
    rcases hab with hab | hab
    · obtain ⟨_, bus, hbus, networks, hnets, N, m, hm, hstar⟩ := (s.mem_edges_plain h).1 hab
      obtain ⟨ha, hb⟩ := Wires.mem_of_mem_star hstar
      exact ⟨bus, hbus, networks, hnets, N, m, hm, ha, hb⟩
    · obtain ⟨_, bus, hbus, networks, hnets, N, m, hm, hstar⟩ := (s.mem_edges_plain h).1 hab
      obtain ⟨hb, ha⟩ := Wires.mem_of_mem_star hstar
      exact ⟨bus, hbus, networks, hnets, N, m, hm, ha, hb⟩
  · induction hchain with
    | refl => exact .refl
    | tail _ hab ih =>
      obtain ⟨bus, hbus, networks, hnets, N, m, hm, ha, hb⟩ := hsame.1 hab
      refine ih.trans (Wires.star_joins (fun x y hxy hstar => ?_) ha hb)
      have hedge := (s.mem_edges_plain h).2 ⟨hxy, bus, hbus, networks, hnets, N, m, hm, hstar⟩
      exact ⟨.inl hedge, .inr hedge⟩

theorem sameNet_iff (s : Stages d n) (h : d.circuit.Plain)
    (hsplit : d.options.splitByBoard = false) {p q : ComponentPin} :
    n.SameNet p q ↔ (∃ net ∈ n.nets, p ∈ net.pins) ∧
      Relation.ReflTransGen d.circuit.SameNetwork p q := by
  rw [s.sameNet_iff_linked hsplit, s.linked_iff_sameNetwork h, s.exists_net_iff]

theorem exists_net_of_mem_partPins (s : Stages d n) {p : ComponentPin}
    (hp : p ∈ d.circuit.partPins) : ∃ net ∈ n.nets, p ∈ net.pins :=
  s.exists_net_iff.2 (Wires.mem_nodes_ofDesign s.wired hp)

end Stages

/-- Without ancillaries, nets that are not split are the classes of pins that chains of shared
logical networks link. The pins are those in some net, among them all pins of the tree's parts. -/
theorem sameNet_iff_sameNetwork {d d' : Design} {n : Netlist} (h : d.synthesize = .ok (d', n))
    (hplain : d.circuit.Plain) (hsplit : d.options.splitByBoard = false) {p : ComponentPin}
    (hp : p ∈ d.circuit.partPins ∨ ∃ net ∈ n.nets, p ∈ net.pins) (q : ComponentPin) :
    n.SameNet p q ↔ Relation.ReflTransGen d.circuit.SameNetwork p q := by
  obtain ⟨s⟩ := Design.synthesize_eq_ok h
  rw [s.sameNet_iff hplain hsplit]
  exact and_iff_right (hp.elim s.exists_net_of_mem_partPins id)

namespace Specimen

def wholeDesign : Design := design.unsplit

theorem reachable : wholeDesign.circuit.Reachable := ⟨catalog, steps, rfl⟩

theorem plain : wholeDesign.circuit.Plain := by
  have hparts : ∀ id ∈ wholeDesign.circuit.parts Circuit.root,
      wholeDesign.circuit.isAncillary id = false := by decide +kernel
  intro id part htree hid hpart
  have hmem : id ∈ wholeDesign.circuit.parts Circuit.root :=
    Circuit.mem_parts_iff.2 ⟨htree, by simpa [Circuit.isPart, hid] using hpart⟩
  have hnone := hparts id hmem
  simpa [Circuit.isAncillary, hid] using hnone

theorem exists_synthesize_whole : ∃ r, wholeDesign.synthesize = .ok r :=
  isOk_iff.1 (by decide +kernel)

end Specimen

/-- The net of the oscillator's clock pin is what its clock network links. -/
theorem sameNet_iff_specimen : ∃ d n, Specimen.wholeDesign.synthesize = .ok (d, n) ∧
    ∀ q, n.SameNet ⟨⟨2⟩, ⟨⟨8⟩⟩⟩ q ↔
      Relation.ReflTransGen Specimen.wholeDesign.circuit.SameNetwork ⟨⟨2⟩, ⟨⟨8⟩⟩⟩ q := by
  obtain ⟨⟨d, n⟩, h⟩ := Specimen.exists_synthesize_whole
  exact ⟨d, n, h, fun q =>
    sameNet_iff_sameNetwork h Specimen.plain rfl (.inl (by decide +kernel)) q⟩

end BoardNets
