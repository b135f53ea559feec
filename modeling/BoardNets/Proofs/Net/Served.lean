import BoardNets.Proofs.Net.Planned
import BoardNets.Proofs.Net.Relisted

/-! Ancillaries on buses. A bus carries out the connections of its ancillaries on the logical
networks that it requests, each connection on those that have its interface pin among their
requesting pins. As long as no pin is replaced, such a connection joins the net of all pins of the
network; a connection that names a pin of the receiving side joins nothing. -/
namespace BoardNets
namespace Circuit

/-- An interface at a source of the bus is active as a requesting pin of the network. -/
def Requests (c : Circuit) (bus : Bus) (family : FamilyKey) (network : LogicalNetwork) : Prop :=
  ∃ i ∈ bus.sourceInterfaces c, ∃ interface, c.interface i = .ok interface ∧
    ∃ slot ∈ interface.activeInterfacePins, slot ∈ network.requesting ∧
      c.catalog.logicalNetwork family slot true = .ok network

/-- No ancillary in the tree has an output. -/
def OutputFree (c : Circuit) : Prop :=
  ∀ e ∈ c.ancillaries, ∀ n ∈ e.2.connections, n.role ≠ .output

instance (c : Circuit) : Decidable c.OutputFree :=
  inferInstanceAs (Decidable (∀ e ∈ c.ancillaries, ∀ n ∈ e.2.connections, _))

variable {c : Circuit}

theorem mem_partPins_of_ancillary {id : NodeId} {a : Ancillary} (ha : (id, a) ∈ c.ancillaries)
    {k : PinId} {pin : Pin} (h : c.pin ⟨id, k⟩ = .ok pin) : ⟨id, k⟩ ∈ c.partPins := by
  obtain ⟨htree, p, hp, hpart, _⟩ := mem_ancillaries.1 ha
  obtain ⟨q, hq, hpin⟩ := bind_eq_ok.1 h
  obtain rfl := Option.some.inj (hp.symm.trans (component_eq_ok.1 hq))
  rw [elim_throw_eq_ok] at hpin
  exact mem_partPins.2 ⟨htree, p, hp, hpart, pin, List.mem_of_find?_eq_some hpin,
    by simpa using List.find?_some hpin⟩

def Requested (networks : SortedMap LogicalNetwork NetworkPins) (N : LogicalNetwork) : Prop :=
  ∃ n, networks.find? N = some n ∧ n.requested = true

theorem requested_addToNetwork {family : FamilyKey} {interface : ComponentInterface}
    {requesting : Bool} {networks networks' : SortedMap LogicalNetwork NetworkPins}
    {slot : InterfacePinId}
    (h : c.addToNetwork family interface requesting networks slot = .ok networks')
    (N : LogicalNetwork) : Requested networks' N ↔ Requested networks N ∨ (requesting = true ∧
      slot ∈ N.requesting ∧ c.catalog.logicalNetwork family slot requesting = .ok N) := by
  obtain ⟨network, hnetwork, h⟩ := bind_eq_ok.1 h
  rw [lift_eq_ok] at hnetwork
  obtain rfl := pure_eq_ok.1 h
  by_cases hN : N = network
  · subst hN
    cases hfind : networks.find? N <;> simp [Requested, hnetwork, hfind]
  · have hne : network ≠ N := fun h => hN h.symm
    simp [Requested, hnetwork, hN, hne]

theorem requested_addInterface {bus : Bus} {family : FamilyKey} {i : InterfaceRef}
    {networks networks' : SortedMap LogicalNetwork NetworkPins}
    (h : c.addInterface bus family networks i = .ok networks') (N : LogicalNetwork) :
    Requested networks' N ↔ Requested networks N ∨ (i ∈ bus.sourceInterfaces c ∧
      ∃ interface, c.interface i = .ok interface ∧ ∃ slot ∈ interface.activeInterfacePins,
        slot ∈ N.requesting ∧ c.catalog.logicalNetwork family slot true = .ok N) := by
  obtain ⟨interface, hinterface, h⟩ := bind_eq_ok.1 h
  rw [foldlM_gathers (fun _ _ _ hstep => requested_addToNetwork hstep) h]
  simp only [hinterface, Except.ok.injEq, exists_eq_left', decide_eq_true_eq]
  refine or_congr Iff.rfl ?_
  by_cases hi : i ∈ bus.sourceInterfaces c
  · simp only [hi, true_and]
    rfl
  · simp [hi]

/-- A network is marked as requested exactly if the bus requests it. -/
theorem requested_busNetworks {bus : Bus} {networks : SortedMap LogicalNetwork NetworkPins}
    (h : c.busNetworks bus = .ok networks) {family : Family} (hfamily : bus.family c = .ok family)
    (N : LogicalNetwork) : Requested networks N ↔ c.Requests bus family.key N := by
  obtain ⟨family', hfamily', h⟩ := bind_eq_ok.1 h
  obtain rfl := Except.ok.inj (hfamily.symm.trans hfamily')
  rw [foldlM_gathers (fun _ _ _ hstep => requested_addInterface hstep) h]
  simp only [Requested, SortedMap.find?_empty, reduceCtorEq, false_and, exists_false, false_or]
  refine exists_congr fun i => ⟨And.right, fun hi => ⟨?_, hi⟩⟩
  exact SortedSet.mem_union.2 (.inl hi.1)

end Circuit

/-- An ancillary of the tree on an overlapping bus is picked for the bus. -/
theorem Design.mem_busAncillaries {d : Design} {bus bound : Bus} {parts : List NodeId}
    (h : d.busAncillaries bus none = .ok parts) {id : NodeId} {a : Ancillary}
    (ha : (id, a) ∈ d.circuit.ancillaries) (hbound : a.binding = .bus bound)
    (hoverlaps : bound.overlaps bus = true) : id ∈ parts := by
  obtain ⟨htree, p, hp, hpart, hancillary⟩ := Circuit.mem_ancillaries.1 ha
  obtain ⟨atoms, hatoms, h⟩ := bind_eq_ok.1 h
  obtain ⟨_, _, hatoms⟩ := bind_eq_ok.1 hatoms
  obtain rfl := pure_eq_ok.1 hatoms
  obtain ⟨_, rfl⟩ := filterM_eq_ok.1 h
  refine List.mem_filter.2 ⟨Circuit.mem_parts_iff.2 ⟨htree, ?_⟩, ?_⟩
  · simpa [Circuit.isPart, hp] using hpart
  · have hserves : (bound.overlaps bus && a.serves none) = true := by rw [hoverlaps]; rfl
    simp only [Circuit.component_eq_ok.2 hp, bind, Except.bind, hancillary, hbound,
      Ancillary.accepts, affirmed]
    exact hserves

namespace Wires

theorem connects_application {done : Application} (h : done.masks = ∅) : Connects done.steps := by
  intro s hs
  rw [Application.steps, h] at hs
  simp only [SortedMap.toList_empty, List.map_nil, List.append_nil, List.mem_map] at hs
  obtain ⟨p, _, rfl⟩ := hs
  exact ⟨p.first, p.second, rfl⟩

theorem connects_plan {d : Design} (hd : d.circuit.OutputFree) {buses : List Bus}
    {steps : List Step} (h : plan d buses = .ok steps) : Connects steps := by
  have hnone {id : NodeId} {a : Ancillary} {n : AncillaryConnection}
      {pins : SortedSet ComponentPin} {done : Application} (ha : (id, a) ∈ d.circuit.ancillaries)
      (hn : n ∈ a.connections) (hdone : n.applyTo d.circuit id a pins = .ok done) :
      Connects done.steps :=
    connects_application (AncillaryConnection.masks_of_applyTo (hd (id, a) ha n hn) hdone)
  intro s hs
  cases planned_of_mem h hs with
  | onParent ha hn _ hdone hs => exact hnone ha hn hdone s hs
  | onNetwork ha hn _ _ _ hdone hs => exact hnone ha hn hdone s hs
  | network _ _ _ hs => exact connects_star _ s hs

theorem mem_ancillaryPlan {c : Circuit} {network : LogicalNetwork} {pins : SortedSet ComponentPin}
    {id : NodeId} {a : Ancillary} {steps : List Step}
    (h : ancillaryPlan c network pins id a = .ok steps) {n : AncillaryConnection}
    (hn : n ∈ a.connections) (hrole : n.role = .input) {slot : InterfacePinId}
    (hslot : n.interfacePin? = some slot) (hrequesting : slot ∈ network.requesting)
    {p : ComponentPin} (hp : p ∈ pins) : (∃ pin, c.pin ⟨id, n.ancillaryPin⟩ = .ok pin) ∧
      .connect p ⟨id, n.ancillaryPin⟩ ∈ steps := by
  obtain ⟨plans, hplans, h⟩ := bind_eq_ok.1 h
  obtain rfl := pure_eq_ok.1 h
  have hused : n ∈ a.connections.filter fun n =>
      n.interfacePin?.any (· ∈ network.requesting) := by
    refine List.mem_filter.2 ⟨hn, ?_⟩
    rw [hslot]
    exact decide_eq_true hrequesting
  obtain ⟨steps, hsteps⟩ := exists_mapM_iff.1 ⟨plans, hplans⟩ n hused
  have hmem := (mem_of_mapM hplans).2 ⟨n, hused, hsteps⟩
  obtain ⟨done, hdone, hsteps⟩ := bind_eq_ok.1 hsteps
  obtain rfl := pure_eq_ok.1 hsteps
  obtain ⟨own, hown, hdone⟩ := bind_eq_ok.1 hdone
  obtain rfl := Circuit.componentPin_eq_ok hown
  obtain ⟨pin, hpin, _⟩ := bind_eq_ok.1 hown
  rw [hrole] at hdone
  obtain rfl := pure_eq_ok.1 hdone
  refine ⟨⟨pin, hpin⟩, List.mem_flatten.2 ⟨_, hmem, ?_⟩⟩
  refine List.mem_append_left _ (List.mem_map.2 ⟨⟨p, ⟨id, n.ancillaryPin⟩⟩, ?_, rfl⟩)
  exact SortedSet.mem_ofList.2 (List.mem_map_of_mem hp)

theorem mem_networkPlan {c : Circuit} {ancillaries : List (NodeId × Ancillary)}
    {network : LogicalNetwork} {m : NetworkPins} {steps : List Step}
    (h : networkPlan c ancillaries network m = .ok steps) (hrequested : m.requested = true)
    {id : NodeId} {a : Ancillary} (ha : (id, a) ∈ ancillaries) {n : AncillaryConnection}
    (hn : n ∈ a.connections) (hrole : n.role = .input) {slot : InterfacePinId}
    (hslot : n.interfacePin? = some slot) (hrequesting : slot ∈ network.requesting)
    {p : ComponentPin} (hp : p ∈ m.pins) : (∃ pin, c.pin ⟨id, n.ancillaryPin⟩ = .ok pin) ∧
      .connect p ⟨id, n.ancillaryPin⟩ ∈ steps := by
  rw [networkPlan, if_pos hrequested] at h
  obtain ⟨plans, hplans, h⟩ := bind_eq_ok.1 h
  obtain rfl := pure_eq_ok.1 h
  obtain ⟨own, hown⟩ := exists_mapM_iff.1 ⟨plans, hplans⟩ (id, a) ha
  have hmem := (mem_of_mapM hplans).2 ⟨(id, a), ha, hown⟩
  exact (mem_ancillaryPlan hown hn hrole hslot hrequesting hp).imp_right fun hconnect =>
    List.mem_append_left _ (List.mem_flatten.2 ⟨own, hmem, hconnect⟩)

/-- An input on a requested network of a bus is connected to all its pins. -/
theorem mem_busPlan {d : Design} {bus bound : Bus} {steps : List Step}
    (h : busPlan d bus = .ok steps) {networks : SortedMap LogicalNetwork NetworkPins}
    (hnetworks : d.circuit.busNetworks bus = .ok networks) {N : LogicalNetwork} {m : NetworkPins}
    (hm : networks.find? N = some m) (hrequested : m.requested = true) {id : NodeId}
    {a : Ancillary} (ha : (id, a) ∈ d.circuit.ancillaries) (hbound : a.binding = .bus bound)
    (hoverlaps : bound.overlaps bus = true) {n : AncillaryConnection} (hn : n ∈ a.connections)
    (hrole : n.role = .input) {slot : InterfacePinId} (hslot : n.interfacePin? = some slot)
    (hrequesting : slot ∈ N.requesting) {p : ComponentPin} (hp : p ∈ m.pins) :
    (∃ pin, d.circuit.pin ⟨id, n.ancillaryPin⟩ = .ok pin) ∧
      .connect p ⟨id, n.ancillaryPin⟩ ∈ steps := by
  obtain ⟨networks', hnetworks', h⟩ := bind_eq_ok.1 h
  obtain rfl := Except.ok.inj (hnetworks.symm.trans hnetworks')
  obtain ⟨parts, hparts, h⟩ := bind_eq_ok.1 h
  obtain ⟨plans, hplans, h⟩ := bind_eq_ok.1 h
  obtain rfl := pure_eq_ok.1 h
  have hmem : (N, m) ∈ networks.toList := SortedMap.find?_eq_some_iff.1 hm
  have hpicked : (id, a) ∈ Ancillary.sort (d.circuit.ancillaries.filter (·.1 ∈ parts)) := by
    refine List.mem_mergeSort.2 (List.mem_filter.2 ⟨ha, ?_⟩)
    exact decide_eq_true (Design.mem_busAncillaries hparts ha hbound hoverlaps)
  obtain ⟨own, hown⟩ := exists_mapM_iff.1 ⟨plans, hplans⟩ (N, m) hmem
  have hin := (mem_of_mapM hplans).2 ⟨(N, m), hmem, hown⟩
  exact (mem_networkPlan hown hrequested hpicked hn hrole hslot hrequesting hp).imp_right
    fun hconnect => List.mem_flatten.2 ⟨own, hin, hconnect⟩

end Wires

/-- Where no ancillary has an output, the inputs of a bus ancillary are in the nets that they ask
for: on every flattened bus that its bus overlaps, an input that attaches to a requesting pin of a
logical network that the bus requests is in one net with all active pins of that network. -/
theorem input_joins_network {d d' : Design} {n : Netlist} (h : d.synthesize = .ok (d', n))
    (hsplit : d.options.splitByBoard = false) (houtputs : d.circuit.OutputFree)
    {buses : List Bus} (hbuses : d.circuit.flattenedBuses Circuit.root = .ok buses)
    {bus : Bus} (hbus : bus ∈ buses) {id : NodeId} {a : Ancillary}
    (ha : (id, a) ∈ d.circuit.ancillaries) {bound : Bus} (hbound : a.binding = .bus bound)
    (hoverlaps : bound.overlaps bus = true) {k : AncillaryConnection} (hk : k ∈ a.connections)
    (hrole : k.role = .input) {slot : InterfacePinId} (hslot : k.interfacePin? = some slot)
    {family : Family} (hfamily : bus.family d.circuit = .ok family) {N : LogicalNetwork}
    (hrequesting : slot ∈ N.requesting) (hrequested : d.circuit.Requests bus family.key N)
    {p : ComponentPin} (hp : d.circuit.OnNetwork bus family.key N p) :
    n.SameNet ⟨id, k.ancillaryPin⟩ p := by
  obtain ⟨s⟩ := Design.synthesize_eq_ok h
  obtain rfl := Except.ok.inj (hbuses.symm.trans s.flattened)
  obtain ⟨networks, hnetworks⟩ := s.exists_busNetworks hbus
  obtain ⟨family', hfamily', hgathered⟩ := Circuit.gathered_busNetworks hnetworks
  obtain rfl := Except.ok.inj (hfamily.symm.trans hfamily')
  obtain ⟨m, hm, hpin⟩ := (hgathered N p).2 hp
  obtain ⟨m', hm', hyes⟩ := (Circuit.requested_busNetworks hnetworks hfamily N).2 hrequested
  obtain rfl := Option.some.inj (hm.symm.trans hm')
  obtain ⟨steps, hsteps, hwires⟩ := Wires.ofDesign_eq_ok.1 s.wired
  obtain ⟨⟨pin, hown⟩, hconnect⟩ : (∃ pin, d.circuit.pin ⟨id, k.ancillaryPin⟩ = .ok pin) ∧
      .connect p ⟨id, k.ancillaryPin⟩ ∈ steps := by
    obtain ⟨first, _, hplan⟩ := bind_eq_ok.1 hsteps
    obtain ⟨plans, hplans, hplan⟩ := bind_eq_ok.1 hplan
    obtain rfl := pure_eq_ok.1 hplan
    obtain ⟨own, hown⟩ := exists_mapM_iff.1 ⟨plans, hplans⟩ bus hbus
    have hin := (mem_of_mapM hplans).2 ⟨bus, hbus, hown⟩
    exact (Wires.mem_busPlan hown hnetworks hm hyes ha hbound hoverlaps hk hrole hslot hrequesting
      hpin).imp_right fun hconnect =>
        List.mem_append_right _ (List.mem_flatten.2 ⟨own, hin, hconnect⟩)
  have hnode : (⟨id, k.ancillaryPin⟩ : ComponentPin) ∈ s.wires.graph.nodes :=
    Wires.mem_nodes_ofDesign s.wired (Circuit.mem_partPins_of_ancillary ha hown)
  rw [s.sameNet_iff_linked hsplit]
  by_cases hsame : p = ⟨id, k.ancillaryPin⟩
  · subst hsame
    exact .refl hnode
  · have hedge : (p, ⟨id, k.ancillaryPin⟩) ∈ s.wires.graph.edges := by
      rw [← hwires, Wires.carry_connects rfl (Wires.connects_plan houtputs hsteps)]
      exact .inr ⟨hsame, hconnect⟩
    exact .step (.refl hnode) (.inr hedge)

namespace Specimen

/-- A resistor that pulls up a line of a bus, by an interface pin. -/
def pullUp (bus : Bus) (slot : InterfacePinId) : Ancillary where
  type := .pullupResistor
  binding := .bus bus
  connections := [⟨⟨⟨9⟩⟩, .input, .interfacePin slot none⟩]

/-- The parts with one requirement, and a pull-up on its bus. -/
def pulledUp (requirement : Requirement) (bus : Bus) (slot : InterfacePinId) : Design :=
  { wholeDesign with
    circuit := (Circuit.new catalog).after (steps.take 3 ++ [
      .require requirement,
      .ancillary Circuit.root "R1" "pull-up" consumer (pullUp bus slot)]) }

/-- The requirement of the clock, and the same stated from the part that is clocked. -/
def forwards : Requirement where
  origin := .persisted ⟨1⟩
  function := "clock"
  source := { node := ⟨2⟩, interface := some "CK" }
  target := { node := ⟨3⟩, interface := some "CK" }

def backwards : Requirement where
  origin := .persisted ⟨1⟩
  function := "clock"
  source := { node := ⟨3⟩, interface := some "CK", type := some receiver }
  target := { node := ⟨2⟩, interface := some "CK", type := some driver }

def backwardsBus : Bus := { members := .ofList [⟨⟨0⟩, ⟨⟨3⟩, 0⟩, ⟨⟨2⟩, 0⟩, ⟨3⟩, ⟨2⟩⟩] }

def clockPin : ComponentPin := ⟨⟨2⟩, ⟨⟨8⟩⟩⟩
def pullUpPin : ComponentPin := ⟨⟨4⟩, ⟨⟨9⟩⟩⟩

/-- Whether the bus is one that the other overlaps, with the clock on a network that has both the
output and the input of the clock, and the clock's interface at a source. -/
def clocks (bound : Bus) (atSource : Bool) (c : Circuit) (bus : Bus) : Result Bool := do
  let family ← bus.family c
  let network ← c.catalog.logicalNetwork family.key output atSource
  let interface ← c.interface ⟨⟨2⟩, 0⟩
  return bound.overlaps bus && ⟨⟨2⟩, 0⟩ ∈ bus.physicalInterfaces c &&
    decide (⟨⟨2⟩, 0⟩ ∈ bus.sourceInterfaces c) = atSource &&
    output ∈ interface.activeInterfacePins && clockPin ∈ interface.activePins (some output) none &&
    output ∈ network.requesting && input ∈ network.receiving

def hasClock (bound : Bus) (atSource : Bool) (c : Circuit) : Result Bool := do
  return (← c.flattenedBuses Circuit.root).any fun bus => affirmed (clocks bound atSource c bus)

theorem exists_clockNetwork (bound : Bus) (atSource : Bool) {c : Circuit}
    (h : affirmed (hasClock bound atSource c) = true) :
    ∃ buses bus family N, c.flattenedBuses Circuit.root = .ok buses ∧ bus ∈ buses ∧
      bound.overlaps bus = true ∧ bus.family c = .ok family ∧
      (atSource = true → c.Requests bus family.key N) ∧ c.OnNetwork bus family.key N clockPin ∧
      output ∈ N.requesting ∧ input ∈ N.receiving := by
  have hyes {x : Result Bool} (h : affirmed x = true) : x = .ok true := by
    cases x with
    | error e => cases h
    | ok b => exact congrArg Except.ok h
  obtain ⟨buses, hbuses, h⟩ := bind_eq_ok.1 (hyes h)
  obtain ⟨bus, hbus, h⟩ := List.any_eq_true.1 (pure_eq_ok.1 h)
  obtain ⟨family, hfamily, h⟩ := bind_eq_ok.1 (hyes h)
  obtain ⟨N, hN, h⟩ := bind_eq_ok.1 h
  obtain ⟨interface, hinterface, h⟩ := bind_eq_ok.1 h
  have hall := pure_eq_ok.1 h
  simp only [Bool.and_eq_true, decide_eq_true_eq] at hall
  obtain ⟨⟨⟨⟨⟨⟨hoverlaps, hphysical⟩, hside⟩, hactive⟩, hpin⟩, hrequesting⟩, hreceiving⟩ := hall
  rw [Circuit.lift_eq_ok] at hN
  refine ⟨buses, bus, family, N, hbuses, hbus, hoverlaps, hfamily, ?_,
    ⟨_, hphysical, interface, hinterface, output, hactive, hpin, hside ▸ hN⟩,
    hrequesting, hreceiving⟩
  rintro rfl
  exact ⟨_, of_decide_eq_true hside, interface, hinterface, output, hactive, hrequesting, hN⟩

def joins (d : Design) (p q : ComponentPin) : Result Bool := do
  let w ← Wires.ofDesign d (← d.circuit.flattenedBuses Circuit.root)
  return w.graph.components.any fun pins => p ∈ pins && q ∈ pins

theorem joins_iff {d : Design} {n : Netlist} (s : Stages d n)
    (hsplit : d.options.splitByBoard = false) {p q : ComponentPin} {b : Bool}
    (h : joins d p q = .ok b) : n.SameNet p q ↔ b = true := by
  rw [← s.of_wires h]
  simp only [List.any_eq_true, Bool.and_eq_true, decide_eq_true_eq]
  constructor
  · rintro ⟨net, hnet, hp, hq⟩
    exact ⟨net.pins, (s.mem_components hsplit).1 ⟨net, hnet, rfl⟩, hp, hq⟩
  · rintro ⟨pins, hpins, hp, hq⟩
    obtain ⟨net, hnet, rfl⟩ := (s.mem_components hsplit).2 hpins
    exact ⟨net, hnet, hp, hq⟩

end Specimen

/-- A pull-up that names the output of the clock is in the clock's net. -/
theorem input_joins_network_specimen : ∃ e n,
    (Specimen.pulledUp Specimen.forwards Specimen.clockBus Specimen.output).synthesize =
      .ok (e, n) ∧
    n.SameNet Specimen.pullUpPin Specimen.clockPin := by
  obtain ⟨⟨e, n⟩, h⟩ : ∃ r, (Specimen.pulledUp Specimen.forwards Specimen.clockBus
      Specimen.output).synthesize = .ok r := isOk_iff.1 (by decide +kernel)
  obtain ⟨buses, bus, family, N, hbuses, hbus, hoverlaps, hfamily, hrequests, hon, hslot, _⟩ :=
    Specimen.exists_clockNetwork Specimen.clockBus true
      (c := (Specimen.pulledUp Specimen.forwards Specimen.clockBus Specimen.output).circuit)
      (by decide +kernel)
  have ha : (⟨4⟩, Specimen.pullUp Specimen.clockBus Specimen.output) ∈ (Specimen.pulledUp
      Specimen.forwards Specimen.clockBus Specimen.output).circuit.ancillaries := by
    decide +kernel
  exact ⟨e, n, h, input_joins_network h rfl (by decide +kernel) hbuses hbus ha rfl hoverlaps
    List.mem_cons_self rfl rfl hfamily hslot (hrequests rfl) hon⟩

/-- A bus ancillary with no output beside it in the tree has an input for the slot, apart from a
pin that is on the network of a flattened bus that its own bus overlaps. -/
def Design.LeavesOut (d : Design) (bus : Bus) (family : FamilyKey) (N : LogicalNetwork)
    (slot : InterfacePinId) : Prop :=
  ∃ e n, d.synthesize = .ok (e, n) ∧ d.options.splitByBoard = false ∧ d.circuit.OutputFree ∧
    (∃ buses, d.circuit.flattenedBuses Circuit.root = .ok buses ∧ bus ∈ buses) ∧
    (∃ found, bus.family d.circuit = .ok found ∧ found.key = family) ∧
    ∃ id a, (id, a) ∈ d.circuit.ancillaries ∧
      (∃ bound, a.binding = .bus bound ∧ bound.overlaps bus = true) ∧
      ∃ k ∈ a.connections, k.role = .input ∧ k.interfacePin? = some slot ∧
        ∃ p, d.circuit.OnNetwork bus family N p ∧ ¬n.SameNet ⟨id, k.ancillaryPin⟩ p

theorem Specimen.exists_leavesOut (requirement : Requirement) (bound : Bus) (slot : InterfacePinId)
    (atSource : Bool)
    (hresult : Except.isOk (pulledUp requirement bound slot).synthesize = true)
    (hout : (pulledUp requirement bound slot).circuit.OutputFree)
    (ha : (⟨4⟩, pullUp bound slot) ∈ (pulledUp requirement bound slot).circuit.ancillaries)
    (hclock : affirmed (hasClock bound atSource (pulledUp requirement bound slot).circuit) = true)
    (hjoins : joins (pulledUp requirement bound slot) pullUpPin clockPin = .ok false) :
    ∃ bus family N, (pulledUp requirement bound slot).LeavesOut bus family N slot ∧
      (atSource = true → (pulledUp requirement bound slot).circuit.Requests bus family N) ∧
      output ∈ N.requesting ∧ input ∈ N.receiving := by
  obtain ⟨⟨e, n⟩, h⟩ := isOk_iff.1 hresult
  obtain ⟨buses, bus, family, N, hbuses, hbus, hoverlaps, hfamily, hrequests, hon, hsides⟩ :=
    exists_clockNetwork bound atSource hclock
  obtain ⟨s⟩ := Design.synthesize_eq_ok h
  have hapart : ¬n.SameNet pullUpPin clockPin := fun hsame =>
    Bool.false_ne_true ((joins_iff s rfl hjoins).1 hsame)
  exact ⟨bus, family.key, N, ⟨e, n, h, rfl, hout, ⟨buses, hbuses, hbus⟩, ⟨family, hfamily, rfl⟩,
    _, _, ha, ⟨bound, rfl, hoverlaps⟩, _, List.mem_cons_self, rfl, rfl, clockPin, hon, hapart⟩,
    hrequests, hsides⟩

/-- Neither condition on the interface pin can be dropped. An input that names a receiving pin is
left out of a network that its bus requests, and one that names a requesting pin is left out where
the requirement comes from the receiving side. -/
theorem inputs_are_left_out :
    (∃ bus family N, (Specimen.pulledUp Specimen.forwards Specimen.clockBus
        Specimen.input).LeavesOut bus family N Specimen.input ∧
      (Specimen.pulledUp Specimen.forwards Specimen.clockBus Specimen.input).circuit.Requests
        bus family N ∧ Specimen.input ∈ N.receiving) ∧
    ∃ bus family N, (Specimen.pulledUp Specimen.backwards Specimen.backwardsBus
        Specimen.output).LeavesOut bus family N Specimen.output ∧
      Specimen.output ∈ N.requesting := by
  constructor
  · obtain ⟨bus, family, N, hleaves, hrequests, -, hreceiving⟩ :=
      Specimen.exists_leavesOut Specimen.forwards Specimen.clockBus Specimen.input true
        (by decide +kernel) (by decide +kernel) (by decide +kernel) (by decide +kernel)
        (by decide +kernel)
    exact ⟨bus, family, N, hleaves, hrequests rfl, hreceiving⟩
  · obtain ⟨bus, family, N, hleaves, -, hrequesting, -⟩ :=
      Specimen.exists_leavesOut Specimen.backwards Specimen.backwardsBus Specimen.output false
        (by decide +kernel) (by decide +kernel) (by decide +kernel) (by decide +kernel)
        (by decide +kernel)
    exact ⟨bus, family, N, hleaves, hrequesting⟩

end BoardNets
