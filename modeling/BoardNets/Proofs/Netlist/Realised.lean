import BoardNets.Proofs.Bus.Members
import BoardNets.Proofs.Catalog.Networks
import BoardNets.Proofs.Circuit.Ledger
import BoardNets.Proofs.Circuit.Owners
import BoardNets.Proofs.Fragment.Connections
import BoardNets.Proofs.Net.Networks

/-! What becomes of the pin pairs that a fragment was wired with. Nets know logical networks alone,
so a pair is realised where the slots of its two uses belong to one network. That is so for slots
that the family knows to be compatible; slots that were paired because they are equal or for their
position may be on networks that nothing joins. -/
namespace BoardNets

open Std

namespace Circuit

variable {c : Circuit}

theorem onNetwork_of_use {bus : Bus} {networks : SortedMap LogicalNetwork NetworkPins} {u : PinUse}
    (h : c.busNetworks bus = .ok networks) (hi : u.interface ∈ bus.physicalInterfaces c)
    (hu : u ∈ (c.usesOf u.interface).uses) {family : Family} (hfamily : bus.family c = .ok family) :
    ∃ N, c.catalog.logicalNetwork family.key u.interfacePin
      (u.interface ∈ bus.sourceInterfaces c) = .ok N ∧ c.OnNetwork bus family.key N u.pin := by
  obtain ⟨family', hfamily', h⟩ := bind_eq_ok.1 h
  obtain rfl := Except.ok.inj (hfamily.symm.trans hfamily')
  obtain ⟨before, after, hadd⟩ := foldlM_each h u.interface hi
  obtain ⟨interface, hinterface, hadd⟩ := bind_eq_ok.1 hadd
  rw [usesOf_of_interface hinterface] at hu
  have hslot : u.interfacePin ∈ interface.activeInterfacePins :=
    SortedSet.mem_ofList.2 (List.mem_map_of_mem hu)
  have hpin : u.pin ∈ interface.activePins (some u.interfacePin) none :=
    SortedSet.mem_ofList.2 (List.mem_map_of_mem (List.mem_filter.2 ⟨hu, by simp⟩))
  obtain ⟨before, after, hslots⟩ := foldlM_each hadd u.interfacePin hslot
  obtain ⟨N, hN, _⟩ := bind_eq_ok.1 hslots
  rw [lift_eq_ok] at hN
  exact ⟨N, hN, u.interface, hi, interface, hinterface, u.interfacePin, hslot, hpin, hN⟩

/-- A bus carries two paired uses on networks: that of the first is looked up as a source's, that of
the second as its interface stands in the bus. -/
structure Carries (c : Circuit) (bus : Bus) (family : FamilyKey) (u v : PinUse)
    (N M : LogicalNetwork) : Prop where
  source : u.interface ∈ bus.sourceInterfaces c
  target : v.interface ∈ bus.targetInterfaces c
  sourceNetwork : c.catalog.logicalNetwork family u.interfacePin true = .ok N
  targetNetwork : c.catalog.logicalNetwork family v.interfacePin
    (v.interface ∈ bus.sourceInterfaces c) = .ok M
  sourcePin : c.OnNetwork bus family N u.pin
  targetPin : c.OnNetwork bus family M v.pin

/-- Compatible slots are on one network, unless the second one is on the requesting side too. -/
theorem Carries.eq_of_drives {bus : Bus} {family : FamilyKey} {u v : PinUse} {N M : LogicalNetwork}
    (h : c.Carries bus family u v N M) {f : Family} (hf : c.catalog.family family = .ok f)
    (hdrives : c.catalog.Drives f u.interfacePin v.interfacePin)
    (hside : v.interface ∈ bus.sourceInterfaces c →
      ∀ o, ¬c.catalog.Drives f v.interfacePin o) : N = M :=
  Catalog.logicalNetwork_of_drives hf hdrives h.sourceNetwork h.targetNetwork
    fun hsource => hside (by simpa using hsource)

/-- Two networks of a bus meet where a chain of shared networks leads from a pin of the one to a pin
of the other. -/
def Meet (c : Circuit) (bus : Bus) (family : FamilyKey) (N M : LogicalNetwork) : Prop :=
  ∃ a b, c.OnNetwork bus family N a ∧ c.OnNetwork bus family M b ∧
    Relation.ReflTransGen c.SameNetwork a b

theorem Carries.meet_of_eq {bus : Bus} {family : FamilyKey} {u v : PinUse} {N M : LogicalNetwork}
    (h : c.Carries bus family u v N M) (heq : N = M) : c.Meet bus family N M :=
  ⟨u.pin, u.pin, h.sourcePin, heq ▸ h.sourcePin, .refl⟩

theorem Carries.chain_iff_meet {buses : List Bus} {bus : Bus} {family : Family} {u v : PinUse}
    {N M : LogicalNetwork} (h : c.Carries bus family.key u v N M)
    (hbuses : c.flattenedBuses root = .ok buses) (hbus : bus ∈ buses)
    (hfamily : bus.family c = .ok family) :
    Relation.ReflTransGen c.SameNetwork u.pin v.pin ↔ c.Meet bus family.key N M := by
  have shared {K : LogicalNetwork} {a b : ComponentPin} (ha : c.OnNetwork bus family.key K a)
      (hb : c.OnNetwork bus family.key K b) : c.SameNetwork a b :=
    ⟨buses, hbuses, bus, hbus, family, hfamily, K, ha, hb⟩
  constructor
  · exact fun hchain => ⟨u.pin, v.pin, h.sourcePin, h.targetPin, hchain⟩
  · rintro ⟨a, b, ha, hb, hchain⟩
    exact (hchain.tail (shared hb h.targetPin)).head (shared h.sourcePin ha)

end Circuit

namespace Stages

variable {d : Design} {n : Netlist}

theorem sameNet_of_sameNetwork (s : Stages d n) (hplain : d.circuit.Plain)
    (hsplit : d.options.splitByBoard = false) {p q : ComponentPin} (hne : p ≠ q)
    (h : d.circuit.SameNetwork p q) : n.SameNet p q := by
  have hsame := (s.sameNetwork_iff (p := p) (q := q) fun _ => s.exists_busNetworks).1 h
  obtain ⟨bus, hbus, networks, hnets, N, m, hm, hp, hq⟩ := hsame
  have hpath : Relation.ReflTransGen (fun a b => (a, b) ∈ s.wires.graph.edges ∨
      (b, a) ∈ s.wires.graph.edges) p q := by
    refine Wires.star_joins (fun a b hab hstar => ?_) hp hq
    have hedge := (s.mem_edges_plain hplain).2 ⟨hab, bus, hbus, networks, hnets, N, m, hm, hstar⟩
    exact ⟨.inl hedge, .inr hedge⟩
  have hnode : p ∈ s.wires.graph.nodes := by
    have hends := (Wires.wellFormed_ofDesign s.wired).ends
    rcases hpath.cases_head with heq | ⟨r, hr | hr, _⟩
    · exact absurd heq hne
    · exact (hends _ hr).1
    · exact (hends _ hr).2
  exact (s.sameNet_iff hplain hsplit).2 ⟨s.exists_net_iff.2 hnode, .single h⟩

theorem sameNet_of_chain (s : Stages d n) (hplain : d.circuit.Plain)
    (hsplit : d.options.splitByBoard = false) {p q : ComponentPin} (hne : p ≠ q)
    (h : Relation.ReflTransGen d.circuit.SameNetwork p q) : n.SameNet p q := by
  induction h with
  | refl => exact absurd rfl hne
  | @tail b q hchain hlast ih =>
    by_cases hpb : p = b
    · exact s.sameNet_of_sameNetwork hplain hsplit hne (hpb ▸ hlast)
    · have hnet := (s.sameNet_iff hplain hsplit).1 (ih hpb)
      exact (s.sameNet_iff hplain hsplit).2 ⟨hnet.1, hchain.tail hlast⟩

/-- The bus of a fragment carries its pairs, as long as they lie on the interfaces that the fragment
has at its ends. -/
theorem exists_carries (s : Stages d n) (hc : d.circuit.Reachable) {x : NodeId} {id : FragmentId}
    {f : Fragment} (hx : d.circuit.InTree Circuit.root x) (hid : id ∈ d.circuit.requirementsOf x)
    (hf : d.circuit.fragment? id = some f) {u v : PinUse} (huv : f.Pairs u v)
    (hu : d.circuit.isPart u.pin.component = true) (hv : d.circuit.isPart v.pin.component = true)
    (hsource : f.interface d.circuit .source = .ok (some u.interface))
    (htarget : f.interface d.circuit .target = .ok (some v.interface)) :
    ∃ bus ∈ s.buses, ∃ family N M, bus.family d.circuit = .ok family ∧
      d.circuit.Carries bus family.key u v N M := by
  obtain ⟨key, hukey, hvkey⟩ := huv
  have huse := hc.balanced.mem_usesOf hf
    (List.mem_append_left _ (Connections.mem_entries.2 hukey))
  have hvuse := hc.balanced.mem_usesOf hf
    (List.mem_append_right _ (Connections.mem_entries.2 hvkey))
  have husource : d.circuit.isPart f.source.node = true := by
    have hnode : u.interface.component = f.source.node := Circuit.component_of_interface hsource
    rwa [← hnode, ← (hc.balanced.on _ u huse).2]
  have hvtarget : d.circuit.isPart f.target.node = true := by
    have hnode : v.interface.component = f.target.node := Circuit.component_of_interface htarget
    rwa [← hnode, ← (hc.balanced.on _ v hvuse).2]
  have hne : x ≠ Circuit.root := by
    rintro rfl
    obtain ⟨g, hg, hroot⟩ := hc.rooted.requirements id hid
    obtain ⟨r, hr, hpart⟩ := hc.rooted.subcircuit
    obtain rfl := Option.some.inj (hf.symm.trans hg)
    rw [hroot, Circuit.isPart, hr] at husource
    exact absurd husource (by simp [hpart])
  have hbelow := Circuit.mem_descendants hx hne
  obtain ⟨r, hr⟩ := Circuit.component_of_buses s.flattened hbelow
  rw [Circuit.requirementsOf_eq (Circuit.component?_eq_some.1 hr)] at hid
  obtain ⟨m, hm, bus, hbus, hmem⟩ := Circuit.exists_bus s.flattened hbelow hr hid
  obtain ⟨g, i, j, hg, hi, hj, rfl⟩ := Circuit.busMember_eq_ok.1 hm
  obtain rfl := Option.some.inj (hf.symm.trans hg)
  obtain rfl := Option.some.inj (Except.ok.inj (hi.symm.trans hsource))
  obtain rfl := Option.some.inj (Except.ok.inj (hj.symm.trans htarget))
  have husource : u.interface ∈ bus.sourceInterfaces d.circuit :=
    SortedSet.mem_ofList.2 (List.mem_map.2 ⟨_, List.mem_filter.2 ⟨hmem, husource⟩, rfl⟩)
  have hvtarget : v.interface ∈ bus.targetInterfaces d.circuit :=
    SortedSet.mem_ofList.2 (List.mem_map.2 ⟨_, List.mem_filter.2 ⟨hmem, hvtarget⟩, rfl⟩)
  obtain ⟨networks, hnetworks⟩ := s.exists_busNetworks hbus
  obtain ⟨family, hfamily, _⟩ := Circuit.gathered_busNetworks hnetworks
  obtain ⟨N, hN, hupin⟩ := Circuit.onNetwork_of_use hnetworks
    (SortedSet.mem_union.2 (.inl husource)) huse hfamily
  obtain ⟨M, hM, hvpin⟩ := Circuit.onNetwork_of_use hnetworks
    (SortedSet.mem_union.2 (.inr hvtarget)) hvuse hfamily
  rw [decide_eq_true husource] at hN
  exact ⟨bus, hbus, family, N, M, hfamily, husource, hvtarget, hN, hM, hupin, hvpin⟩

end Stages

/-- A pin pair of a fragment is realised exactly when a chain of logical networks links its pins. As
long as the pair lies on the interfaces that the fragment has at its ends, this is up to the slots:
the fragment's bus puts either pin on the network of the slot it is used as, and the pair is
realised exactly when these networks meet. Slots that the family knows to be compatible have one
network, unless the second one stands on the requesting side too. -/
theorem connection_realised_iff {d d' : Design} {n : Netlist} (hc : d.circuit.Reachable)
    (h : d.synthesize = .ok (d', n)) (hplain : d.circuit.Plain)
    (hsplit : d.options.splitByBoard = false) {x : NodeId} {id : FragmentId} {f : Fragment}
    (hx : d.circuit.InTree Circuit.root x) (hid : id ∈ d.circuit.requirementsOf x)
    (hf : d.circuit.fragment? id = some f) {p q : ComponentPin}
    (hpq : q ∈ (f.connections.find? p).getD ∅) (hp : d.circuit.isPart p.component = true)
    (hq : d.circuit.isPart q.component = true) :
    (n.SameNet p q ↔ (∃ net ∈ n.nets, p ∈ net.pins) ∧
      Relation.ReflTransGen d.circuit.SameNetwork p q) ∧
    (∃ u v, f.Pairs u v ∧ u.pin = p ∧ v.pin = q) ∧
    ∀ u v, f.Pairs u v → u.pin = p → v.pin = q →
      f.interface d.circuit .source = .ok (some u.interface) →
      f.interface d.circuit .target = .ok (some v.interface) →
      ∃ buses, d.circuit.flattenedBuses Circuit.root = .ok buses ∧ ∃ bus ∈ buses,
        ∃ family N M, bus.family d.circuit = .ok family ∧
          d.circuit.Carries bus family.key u v N M ∧
          (p ≠ q → (n.SameNet p q ↔ d.circuit.Meet bus family.key N M)) ∧
          ∀ known, d.circuit.catalog.family family.key = .ok known →
            d.circuit.catalog.Drives known u.interfacePin v.interfacePin →
            (v.interface ∈ bus.sourceInterfaces d.circuit →
              ∀ o, ¬d.circuit.catalog.Drives known v.interfacePin o) → N = M := by
  obtain ⟨s⟩ := Design.synthesize_eq_ok h
  refine ⟨s.sameNet_iff hplain hsplit, Fragment.mem_connections.1 hpq, ?_⟩
  rintro u v huv rfl rfl hsource htarget
  obtain ⟨bus, hbus, family, N, M, hfamily, hcarries⟩ :=
    s.exists_carries hc hx hid hf huv hp hq hsource htarget
  refine ⟨s.buses, s.flattened, bus, hbus, family, N, M, hfamily, hcarries, fun hne => ?_, ?_⟩
  · rw [← hcarries.chain_iff_meet s.flattened hbus hfamily]
    constructor
    · exact fun hnet => ((s.sameNet_iff hplain hsplit).1 hnet).2
    · exact s.sameNet_of_chain hplain hsplit hne
  · intro known hknown hdrives hside
    exact hcarries.eq_of_drives hknown hdrives hside

namespace Specimen

def sourceUse : PinUse := ⟨⟨⟨2⟩, ⟨⟨8⟩⟩⟩, output, ⟨⟨2⟩, 0⟩⟩
def targetUse : PinUse := ⟨⟨⟨3⟩, ⟨⟨8⟩⟩⟩, input, ⟨⟨3⟩, 0⟩⟩

def clockFamily : Family :=
  { key := clock, name := "clock", label := "CLK", types := [driver, receiver] }

theorem exists_fragment : ∃ f, wholeDesign.circuit.fragment? ⟨0⟩ = some f ∧
    f.Pairs sourceUse targetUse ∧
    f.interface wholeDesign.circuit .source = .ok (some sourceUse.interface) ∧
    f.interface wholeDesign.circuit .target = .ok (some targetUse.interface) := by
  have hany : (wholeDesign.circuit.fragment? ⟨0⟩).any (fun f =>
      sourceUse ∈ f.source.connections.under output ∧
      targetUse ∈ f.target.connections.under output ∧
      f.interface wholeDesign.circuit .source = .ok (some sourceUse.interface) ∧
      f.interface wholeDesign.circuit .target = .ok (some targetUse.interface)) = true := by
    decide +kernel
  obtain ⟨f, hf, hall⟩ := (Option.any_eq_true _ _).1 hany
  obtain ⟨hsource, htarget, hinterfaces⟩ := of_decide_eq_true hall
  exact ⟨f, hf, ⟨output, hsource, htarget⟩, hinterfaces⟩

theorem drives : catalog.Drives clockFamily output input :=
  ⟨driver, List.mem_cons_self, clockType driver receiver "driver" output true, rfl, rfl,
    output, List.mem_cons_self, slot output driver "OUT" input, rfl, rfl, by decide⟩

theorem not_drives (o : InterfacePinId) : ¬catalog.Drives clockFamily input o := by
  rintro ⟨id, hid, type, htype, hrequesting, pinId, hpinId, pin, hpin, heq, _⟩
  rcases List.mem_cons.1 hid with rfl | hid
  · obtain rfl := Except.ok.inj htype
    obtain rfl := List.mem_singleton.1 hpinId
    obtain rfl := Except.ok.inj hpin
    exact absurd heq (by decide)
  · obtain rfl := List.mem_singleton.1 hid
    obtain rfl := Except.ok.inj htype
    cases hrequesting

theorem families : ∀ buses, wholeDesign.circuit.flattenedBuses Circuit.root = .ok buses →
    ∀ bus ∈ buses, bus.family wholeDesign.circuit = .ok clockFamily := by
  have hall : (wholeDesign.circuit.flattenedBuses Circuit.root).toOption.all (fun buses =>
      buses.all fun bus => bus.family wholeDesign.circuit = .ok clockFamily) = true := by
    decide +kernel
  intro buses hbuses bus hbus
  rw [hbuses] at hall
  simpa using List.all_eq_true.1 hall bus hbus

theorem oscillator_inTree : wholeDesign.circuit.InTree Circuit.root ⟨2⟩ :=
  .child (.child .root (by decide +kernel : ⟨1⟩ ∈ wholeDesign.circuit.children Circuit.root))
    (by decide +kernel)

end Specimen

/-- The clock pins of the specimen are paired for compatible slots, and share a net. -/
theorem connection_realised_specimen : ∃ d n f, Specimen.wholeDesign.synthesize = .ok (d, n) ∧
    Specimen.wholeDesign.circuit.fragment? ⟨0⟩ = some f ∧
    Specimen.targetUse.pin ∈ (f.connections.find? Specimen.sourceUse.pin).getD ∅ ∧
    n.SameNet Specimen.sourceUse.pin Specimen.targetUse.pin := by
  obtain ⟨⟨d, n⟩, h⟩ := Specimen.exists_synthesize_whole
  obtain ⟨f, hf, hpairs, hsource, htarget⟩ := Specimen.exists_fragment
  have hpq := Fragment.mem_connections.2 ⟨_, _, hpairs, rfl, rfl⟩
  have hall := connection_realised_iff Specimen.reachable h Specimen.plain rfl
    Specimen.oscillator_inTree (by decide +kernel) hf hpq (by decide +kernel) (by decide +kernel)
  obtain ⟨buses, hbuses, bus, hbus, family, N, M, hfamily, hcarries, hrealised, hsame⟩ :=
    hall.2.2 _ _ hpairs rfl rfl hsource htarget
  obtain rfl := Except.ok.inj (hfamily.symm.trans (Specimen.families buses hbuses bus hbus))
  have hdrives := hsame Specimen.clockFamily (by decide +kernel) Specimen.drives
    fun _ => Specimen.not_drives
  exact ⟨d, n, f, h, hf, hpq, (hrealised (by decide)).2 (hcarries.meet_of_eq hdrives)⟩

end BoardNets
