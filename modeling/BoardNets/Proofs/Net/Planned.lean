import BoardNets.Proofs.Net.Networks

/-! Where the steps of a plan come from. A step is one of an ancillary's connection on its own input
pins, of a bus ancillary's connection on the pins of a network, or of a network itself; so whatever
holds of these holds of all that a design lays. -/
namespace BoardNets
namespace Application

theorem mem_steps_connections {pairs : List PinPair} {s : Wires.Step} :
    s ∈ ({ connections := .ofList pairs } : Application).steps ↔
      ∃ p ∈ pairs, s = .connect p.first p.second := by
  simp only [steps, SortedMap.toList_empty, List.map_nil, List.append_nil, List.mem_map,
    ← SortedSet.mem_def, SortedSet.mem_ofList, eq_comm]

theorem mem_steps_masks {pins : List ComponentPin} {own : ComponentPin} {s : Wires.Step} :
    s ∈ ({ masks := .ofList (pins.map (·, own)) } : Application).steps ↔
      ∃ p ∈ pins, s = .mask p own := by
  have hentry (p replacement : ComponentPin) :
      (p, replacement) ∈ (SortedMap.ofList (pins.map (·, own))).toList ↔
        p ∈ pins ∧ replacement = own := by
    rw [← SortedMap.find?_eq_some_iff, SortedMap.ofList, SortedMap.find?_insertAll_const]
    by_cases hp : p ∈ pins <;> simp [hp, eq_comm]
  simp only [steps, SortedSet.toList_empty, List.map_nil, List.nil_append, List.mem_map,
    Prod.exists, hentry]
  constructor
  · rintro ⟨p, _, ⟨hp, rfl⟩, rfl⟩
    exact ⟨p, hp, rfl⟩
  · rintro ⟨p, hp, rfl⟩
    exact ⟨p, own, ⟨hp, rfl⟩, rfl⟩

end Application

theorem Application.mem_steps_merge {a b : Application} {s : Wires.Step}
    (h : s ∈ (a.merge b).steps) : s ∈ a.steps ∨ s ∈ b.steps := by
  simp only [steps, List.mem_append, List.mem_map] at h ⊢
  rcases h with ⟨p, hp, rfl⟩ | ⟨m, hm, rfl⟩
  · exact (SortedSet.mem_union.1 hp).imp (fun hp => .inl ⟨p, hp, rfl⟩) fun hp => .inl ⟨p, hp, rfl⟩
  · obtain ⟨key, value⟩ := m
    change (key, value) ∈ (a.masks.insertAll b.masks.toList).toList at hm
    rw [← SortedMap.find?_eq_some_iff, SortedMap.find?_insertAll b.masks.increasing,
      Option.or_eq_some_iff] at hm
    rcases hm with hm | ⟨_, hm⟩
    · exact .inr (.inr ⟨_, SortedMap.find?_eq_some_iff.1 hm, rfl⟩)
    · exact .inl (.inr ⟨_, SortedMap.find?_eq_some_iff.1 hm, rfl⟩)

theorem Ancillary.exists_connection {c : Circuit} {id : NodeId} {a : Ancillary} {done : Application}
    (h : a.apply c id = .ok done) {s : Wires.Step} (hs : s ∈ done.steps) :
    ∃ n ∈ a.connections, ∃ pins more, n.inputPins c a.binding = .ok pins ∧
      n.applyTo c id a pins = .ok more ∧ s ∈ more.steps := by
  refine foldlM_keeps (P := fun done : Application => ∀ s ∈ done.steps,
    ∃ n ∈ a.connections, ∃ pins more, n.inputPins c a.binding = .ok pins ∧
      n.applyTo c id a pins = .ok more ∧ s ∈ more.steps)
    (fun done done' n hn hdone hstep => ?_) (List.forall_mem_nil _) h s hs
  obtain ⟨more, hmore, hstep⟩ := bind_eq_ok.1 hstep
  obtain rfl := pure_eq_ok.1 hstep
  obtain ⟨pins, hpins, hmore⟩ := bind_eq_ok.1 hmore
  intro s hs
  rcases Application.mem_steps_merge hs with hs | hs
  · exact hdone s hs
  · exact ⟨n, hn, pins, more, hpins, hmore, hs⟩

namespace Wires

inductive Planned (d : Design) (buses : List Bus) (s : Step) : Prop
  /-- An ancillary on an interface or on pins is applied to pins of its own. -/
  | onParent {id : NodeId} {a : Ancillary} {n : AncillaryConnection}
      {pins : SortedSet ComponentPin} {done : Application} (role : (id, a) ∈ d.circuit.ancillaries)
      (connection : n ∈ a.connections) (input : n.inputPins d.circuit a.binding = .ok pins)
      (applied : n.applyTo d.circuit id a pins = .ok done) (mem : s ∈ done.steps)
  /-- A bus ancillary is applied to the pins of a network. -/
  | onNetwork {id : NodeId} {a : Ancillary} {n : AncillaryConnection} {done : Application}
      {bus : Bus} {networks : SortedMap LogicalNetwork NetworkPins} {N : LogicalNetwork}
      {m : NetworkPins} (role : (id, a) ∈ d.circuit.ancillaries) (connection : n ∈ a.connections)
      (listed : bus ∈ buses) (gathered : d.circuit.busNetworks bus = .ok networks)
      (network : networks.find? N = some m)
      (applied : n.applyTo d.circuit id a m.pins = .ok done) (mem : s ∈ done.steps)
  /-- The pins of a network are connected. -/
  | network {bus : Bus} {networks : SortedMap LogicalNetwork NetworkPins} {N : LogicalNetwork}
      {m : NetworkPins} (listed : bus ∈ buses)
      (gathered : d.circuit.busNetworks bus = .ok networks) (network : networks.find? N = some m)
      (mem : s ∈ star m.pins)

variable {d : Design} {buses : List Bus}

theorem planned_of_mem_localPlan {steps : List Step} (h : localPlan d.circuit = .ok steps)
    {s : Step} (hs : s ∈ steps) : Planned d buses s := by
  obtain ⟨plans, hplans, h⟩ := bind_eq_ok.1 h
  obtain rfl := pure_eq_ok.1 h
  obtain ⟨own, hown, hs⟩ := List.mem_flatten.1 hs
  obtain ⟨⟨id, a⟩, ha, hown⟩ := (mem_of_mapM hplans).1 hown
  obtain ⟨done, hdone, hown⟩ := bind_eq_ok.1 hown
  obtain rfl := pure_eq_ok.1 hown
  obtain ⟨n, hn, pins, more, hpins, hmore, hs⟩ := Ancillary.exists_connection hdone hs
  exact .onParent (List.mem_filter.1 (List.mem_mergeSort.1 ha)).1 hn hpins hmore hs

theorem planned_of_mem_networkPlan {bus : Bus} (hbus : bus ∈ buses)
    {networks : SortedMap LogicalNetwork NetworkPins}
    (hnetworks : d.circuit.busNetworks bus = .ok networks) {N : LogicalNetwork} {m : NetworkPins}
    (hm : networks.find? N = some m) {ancillaries : List (NodeId × Ancillary)}
    (hroles : ∀ e ∈ ancillaries, e ∈ d.circuit.ancillaries) {steps : List Step}
    (h : networkPlan d.circuit ancillaries N m = .ok steps) {s : Step} (hs : s ∈ steps) :
    Planned d buses s := by
  rw [networkPlan] at h
  split at h
  · obtain ⟨served, hserved, h⟩ := bind_eq_ok.1 h
    obtain rfl := pure_eq_ok.1 h
    rcases List.mem_append.1 hs with hs | hs
    · obtain ⟨own, hown, hs⟩ := List.mem_flatten.1 hs
      obtain ⟨⟨id, a⟩, ha, hown⟩ := (mem_of_mapM hserved).1 hown
      obtain ⟨plans, hplans, hown⟩ := bind_eq_ok.1 hown
      obtain rfl := pure_eq_ok.1 hown
      obtain ⟨one, hone, hs⟩ := List.mem_flatten.1 hs
      obtain ⟨n, hn, hone⟩ := (mem_of_mapM hplans).1 hone
      obtain ⟨done, hdone, hone⟩ := bind_eq_ok.1 hone
      obtain rfl := pure_eq_ok.1 hone
      exact .onNetwork (hroles _ ha) (List.mem_filter.1 hn).1 hbus hnetworks hm hdone hs
    · exact .network hbus hnetworks hm hs
  · obtain rfl := pure_eq_ok.1 h
    exact .network hbus hnetworks hm hs

theorem planned_of_mem {steps : List Step} (h : plan d buses = .ok steps) {s : Step}
    (hs : s ∈ steps) : Planned d buses s := by
  obtain ⟨first, hfirst, h⟩ := bind_eq_ok.1 h
  obtain ⟨plans, hplans, h⟩ := bind_eq_ok.1 h
  obtain rfl := pure_eq_ok.1 h
  rcases List.mem_append.1 hs with hs | hs
  · exact planned_of_mem_localPlan hfirst hs
  · obtain ⟨own, hown, hs⟩ := List.mem_flatten.1 hs
    obtain ⟨bus, hbus, hown⟩ := (mem_of_mapM hplans).1 hown
    obtain ⟨networks, hnetworks, hown⟩ := bind_eq_ok.1 hown
    obtain ⟨parts, _, hown⟩ := bind_eq_ok.1 hown
    obtain ⟨each, heach, hown⟩ := bind_eq_ok.1 hown
    obtain rfl := pure_eq_ok.1 hown
    obtain ⟨one, hone, hs⟩ := List.mem_flatten.1 hs
    obtain ⟨⟨N, m⟩, hm, hone⟩ := (mem_of_mapM heach).1 hone
    refine planned_of_mem_networkPlan hbus hnetworks (SortedMap.find?_eq_some_iff.2 hm)
      (fun e he => ?_) hone hs
    exact (List.mem_filter.1 (List.mem_mergeSort.1 he)).1

end Wires
end BoardNets
