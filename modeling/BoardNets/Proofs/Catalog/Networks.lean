import BoardNets.Catalog.Network
import BoardNets.Proofs.Graph.Components
import BoardNets.Proofs.Sorted.Listing
import BoardNets.Proofs.Traversal

/-! Logical networks hold what is compatible. A pin that a requesting type of the family drives
another one with is in the network that holds the other pin on the receiving side, and no pin is in
two networks on one side. -/
namespace BoardNets
namespace Catalog

variable {c : Catalog}

/-- A requesting type of the family has the pin `a`, which is compatible with `b`. -/
def Drives (c : Catalog) (f : Family) (a b : InterfacePinId) : Prop :=
  ∃ id ∈ f.types, ∃ type, c.interfaceType id = .ok type ∧ type.canBeRequired = true ∧
    ∃ slot ∈ type.pins, ∃ pin, c.interfacePin slot = .ok pin ∧ pin.id = a ∧ b ∈ pin.compatiblePins

theorem edges_addPairs {a : InterfacePinId} {others : List InterfacePinId} {g : Graph SidedPin}
    {e : SidedPin × SidedPin} :
    e ∈ (others.foldl (fun g o => g.addEdge ⟨a, true⟩ ⟨o, false⟩) g).edges ↔
      e ∈ g.edges ∨ ∃ o ∈ others, e = (⟨a, true⟩, ⟨o, false⟩) := by
  induction others generalizing g with
  | nil => simp
  | cons o others ih =>
    rw [List.foldl_cons, ih, Graph.edges_addEdge, List.mem_append, List.mem_singleton, or_assoc]
    simp only [List.mem_cons, exists_eq_or_imp]

theorem wellFormed_addPairs {a : InterfacePinId} {others : List InterfacePinId}
    {g : Graph SidedPin} (hg : g.WellFormed) :
    (others.foldl (fun g o => g.addEdge ⟨a, true⟩ ⟨o, false⟩) g).WellFormed := by
  induction others generalizing g with
  | nil => exact hg
  | cons o others ih => exact ih (hg.addEdge _ _)

theorem edges_addSlots {slots : List InterfacePinId} {g g' : Graph SidedPin}
    (h : slots.foldlM (fun g slot => do
      let pin ← c.interfacePin slot
      return pin.compatiblePins.toList.foldl (fun g o => g.addEdge ⟨pin.id, true⟩ ⟨o, false⟩) g) g =
        .ok g') (e : SidedPin × SidedPin) : e ∈ g'.edges ↔ e ∈ g.edges ∨
      ∃ slot ∈ slots, ∃ pin, c.interfacePin slot = .ok pin ∧
        ∃ o ∈ pin.compatiblePins.toList, e = (⟨pin.id, true⟩, ⟨o, false⟩) := by
  refine foldlM_gathers (M := fun g e => e ∈ Graph.edges g) (C := fun slot e =>
    ∃ pin, c.interfacePin slot = .ok pin ∧
      ∃ o ∈ pin.compatiblePins.toList, e = (⟨pin.id, true⟩, ⟨o, false⟩)) ?_ h e
  intro g g' slot hstep e
  obtain ⟨pin, hpin, hstep⟩ := bind_eq_ok.1 hstep
  obtain rfl := pure_eq_ok.1 hstep
  simp only [hpin, Except.ok.injEq, exists_eq_left']
  exact edges_addPairs

theorem edges_addTypePairs {g g' : Graph SidedPin} {id : InterfaceTypeId}
    (h : c.addTypePairs g id = .ok g') (e : SidedPin × SidedPin) : e ∈ g'.edges ↔ e ∈ g.edges ∨
      ∃ type, c.interfaceType id = .ok type ∧ type.canBeRequired = true ∧
        ∃ slot ∈ type.pins, ∃ pin, c.interfacePin slot = .ok pin ∧
          ∃ o ∈ pin.compatiblePins.toList, e = (⟨pin.id, true⟩, ⟨o, false⟩) := by
  obtain ⟨type, htype, h⟩ := bind_eq_ok.1 h
  simp only [htype, Except.ok.injEq, exists_eq_left']
  split at h
  · rename_i hnot
    obtain rfl := pure_eq_ok.1 h
    simp [by simpa using hnot]
  · rename_i hrequesting
    rw [edges_addSlots h]
    simp [by simpa using hrequesting]

theorem edges_pairGraph {f : Family} {g : Graph SidedPin} (h : c.pairGraph f = .ok g)
    {a b : SidedPin} : (a, b) ∈ g.edges ↔
      a.requesting = true ∧ b.requesting = false ∧ c.Drives f a.pin b.pin := by
  have hall := foldlM_gathers (M := fun g e => e ∈ Graph.edges g)
    (fun _ _ _ hstep => edges_addTypePairs hstep) h (a, b)
  rw [hall]
  constructor
  · rintro (hnone | ⟨id, hid, type, htype, hrequesting, slot, hslot, pin, hpin, o, ho, heq⟩)
    · cases hnone
    · obtain ⟨rfl, rfl⟩ := Prod.mk.inj heq
      exact ⟨rfl, rfl, id, hid, type, htype, hrequesting, slot, hslot, pin, hpin, rfl, ho⟩
  · obtain ⟨a, _⟩ := a
    obtain ⟨b, _⟩ := b
    rintro ⟨rfl, rfl, id, hid, type, htype, hrequesting, slot, hslot, pin, hpin, rfl, hb⟩
    exact .inr ⟨id, hid, type, htype, hrequesting, slot, hslot, pin, hpin, b, hb, rfl⟩

/-- Both ends of every compatible pair are nodes, and there are no others. -/
def Covered (g : Graph SidedPin) : Prop :=
  ∀ n ∈ g.nodes, ∃ m, (n, m) ∈ g.edges ∨ (m, n) ∈ g.edges

theorem Covered.addEdge {g : Graph SidedPin} (hg : Covered g) (a b : SidedPin) :
    Covered (g.addEdge a b) := by
  intro n hn
  simp only [Graph.edges_addEdge, List.mem_append, List.mem_singleton]
  rcases Graph.mem_nodes_addEdge.1 hn with hn | rfl | rfl
  · obtain ⟨m, hm⟩ := hg n hn
    exact ⟨m, hm.imp .inl .inl⟩
  · exact ⟨b, .inl (.inr rfl)⟩
  · exact ⟨a, .inr (.inr rfl)⟩

theorem covered_addPairs {a : InterfacePinId} {others : List InterfacePinId} {g : Graph SidedPin}
    (hg : Covered g) : Covered (others.foldl (fun g o => g.addEdge ⟨a, true⟩ ⟨o, false⟩) g) := by
  induction others generalizing g with
  | nil => exact hg
  | cons o others ih => exact ih (hg.addEdge _ _)

theorem pairGraph_induction {P : Graph SidedPin → Prop} (hempty : P ∅)
    (hadd : ∀ (g : Graph SidedPin) (a : InterfacePinId) (others : List InterfacePinId), P g →
      P (others.foldl (fun g o => g.addEdge ⟨a, true⟩ ⟨o, false⟩) g))
    {f : Family} {g : Graph SidedPin} (h : c.pairGraph f = .ok g) : P g := by
  refine foldlM_keeps (fun g g' id _ hg hstep => ?_) hempty h
  obtain ⟨type, _, hstep⟩ := bind_eq_ok.1 hstep
  split at hstep
  · exact pure_eq_ok.1 hstep ▸ hg
  · refine foldlM_keeps (fun g g' slot _ hg hpin => ?_) hg hstep
    obtain ⟨pin, _, hpin⟩ := bind_eq_ok.1 hpin
    exact pure_eq_ok.1 hpin ▸ hadd g pin.id pin.compatiblePins.toList hg

theorem wellFormed_pairGraph {f : Family} {g : Graph SidedPin} (h : c.pairGraph f = .ok g) :
    g.WellFormed :=
  pairGraph_induction Graph.wellFormed_empty (fun _ _ _ hg => wellFormed_addPairs hg) h

theorem drives_of_mem_nodes {f : Family} {g : Graph SidedPin} (h : c.pairGraph f = .ok g)
    {a : InterfacePinId} (ha : ⟨a, true⟩ ∈ g.nodes) : ∃ b, c.Drives f a b := by
  have hcovered : Covered g := pairGraph_induction (P := Covered)
    (fun _ hn => absurd hn List.not_mem_nil) (fun _ _ _ hg => covered_addPairs hg) h
  obtain ⟨m, hm | hm⟩ := hcovered _ ha
  · exact ⟨m.pin, ((edges_pairGraph h).1 hm).2.2⟩
  · exact absurd ((edges_pairGraph h).1 hm).2.1 (by simp)

theorem hasNode_ofPins (requesting receiving : List (InterfacePinId × String))
    (pin : InterfacePinId) (side : Bool) :
    (LogicalNetwork.ofPins requesting receiving).hasNode pin side = true ↔
      pin ∈ (if side then requesting else receiving).map (·.1) := by
  cases side with
  | true => exact decide_eq_true_iff.trans SortedSet.mem_ofList
  | false => exact decide_eq_true_iff.trans SortedSet.mem_ofList

theorem hasNode_networkOf {nodes : SortedSet SidedPin} {N : LogicalNetwork}
    (h : c.networkOf nodes = .ok N) (pin : InterfacePinId) (side : Bool) :
    N.hasNode pin side = true ↔ ⟨pin, side⟩ ∈ nodes := by
  obtain ⟨pins, hpins, h⟩ := bind_eq_ok.1 h
  obtain rfl := pure_eq_ok.1 h
  have hlisted : pins.map (·.1) = nodes.toList.map id := by
    refine map_of_mapM hpins fun n p hp => ?_
    obtain ⟨_, _, hp⟩ := bind_eq_ok.1 hp
    exact (congrArg Prod.fst (pure_eq_ok.1 hp)).symm
  have hside : pin ∈ ((pins.filter fun p => p.1.requesting = side).map
      fun p => (p.1.pin, p.2)).map (·.1) ↔ (⟨pin, side⟩ : SidedPin) ∈ nodes := by
    rw [SortedSet.mem_def, ← List.map_id nodes.toList, ← hlisted]
    simp only [List.map_map, List.mem_map, List.mem_filter, decide_eq_true_eq, Function.comp_apply]
    constructor
    · rintro ⟨p, ⟨hp, rfl⟩, rfl⟩
      exact ⟨p, hp, rfl⟩
    · rintro ⟨p, hp, heq⟩
      exact ⟨p, ⟨hp, by rw [heq]⟩, by rw [heq]⟩
  rw [hasNode_ofPins, ← hside]
  cases side <;> rfl

/-- Networks come from the components of the graph of compatible pairs. -/
theorem mem_logicalNetworks {key : FamilyKey} {networks : List LogicalNetwork}
    (h : c.logicalNetworks key = .ok networks) : ∃ f g, c.family key = .ok f ∧
      c.pairGraph f = .ok g ∧
      (∀ N, N ∈ networks ↔ ∃ nodes ∈ g.components, c.networkOf nodes = .ok N) ∧
      ∀ nodes ∈ g.components, ∃ N, c.networkOf nodes = .ok N := by
  obtain ⟨f, hf, h⟩ := bind_eq_ok.1 h
  obtain ⟨g, hg, h⟩ := bind_eq_ok.1 h
  obtain ⟨made, hmade, h⟩ := bind_eq_ok.1 h
  obtain rfl := pure_eq_ok.1 h
  refine ⟨f, g, hf, hg, fun N => ?_, exists_mapM_iff.1 ⟨made, hmade⟩⟩
  rw [List.mem_mergeSort, mem_of_mapM hmade]

theorem mem_components_iff {g : Graph SidedPin} {nodes : SortedSet SidedPin} :
    nodes ∈ g.components ↔ ∃ d ∈ g.classes, SortedSet.ofList d = nodes :=
  List.mem_map

/-- Two pins are on one network, each on its side, exactly when a chain of compatible pairs links
them. -/
theorem exists_network_iff {key : FamilyKey} {networks : List LogicalNetwork} {f : Family}
    {g : Graph SidedPin} (h : c.logicalNetworks key = .ok networks) (hf : c.family key = .ok f)
    (hg : c.pairGraph f = .ok g) {a b : SidedPin} :
    (∃ N ∈ networks, N.hasNode a.pin a.requesting = true ∧ N.hasNode b.pin b.requesting = true) ↔
      g.Linked a b := by
  obtain ⟨f', g', hf', hg', hmem, hmade⟩ := mem_logicalNetworks h
  obtain rfl := Except.ok.inj (hf.symm.trans hf')
  obtain rfl := Except.ok.inj (hg.symm.trans hg')
  rw [← Graph.together_classes_iff (wellFormed_pairGraph hg)]
  constructor
  · rintro ⟨N, hN, ha, hb⟩
    obtain ⟨nodes, hnodes, hN⟩ := (hmem N).1 hN
    obtain ⟨d, hd, rfl⟩ := mem_components_iff.1 hnodes
    rw [hasNode_networkOf hN, SortedSet.mem_ofList] at ha hb
    exact ⟨d, hd, ha, hb⟩
  · rintro ⟨d, hd, ha, hb⟩
    have hnodes := mem_components_iff.2 ⟨d, hd, rfl⟩
    obtain ⟨N, hN⟩ := hmade _ hnodes
    refine ⟨N, (hmem N).2 ⟨_, hnodes, hN⟩, ?_, ?_⟩
    · rw [hasNode_networkOf hN, SortedSet.mem_ofList]
      exact ha
    · rw [hasNode_networkOf hN, SortedSet.mem_ofList]
      exact hb

theorem network_unique {key : FamilyKey} {networks : List LogicalNetwork}
    (h : c.logicalNetworks key = .ok networks) {N M : LogicalNetwork} (hN : N ∈ networks)
    (hM : M ∈ networks) {pin : InterfacePinId} {side : Bool} (hpin : N.hasNode pin side = true)
    (hpin' : M.hasNode pin side = true) : N = M := by
  obtain ⟨f, g, _, hg, hmem, _⟩ := mem_logicalNetworks h
  obtain ⟨nodes, hnodes, hN⟩ := (hmem N).1 hN
  obtain ⟨nodes', hnodes', hM⟩ := (hmem M).1 hM
  obtain ⟨d, hd, rfl⟩ := mem_components_iff.1 hnodes
  obtain ⟨e, he, rfl⟩ := mem_components_iff.1 hnodes'
  rw [hasNode_networkOf hN, SortedSet.mem_ofList] at hpin
  rw [hasNode_networkOf hM, SortedSet.mem_ofList] at hpin'
  have hnodup : g.classes.flatten.Nodup :=
    (Graph.classes_flatten_perm g).nodup_iff.2 (wellFormed_pairGraph hg).nodup
  obtain rfl := Graph.class_unique hnodup hd he hpin hpin'
  exact Except.ok.inj (hN.symm.trans hM)

/-- What a lookup answers holds the pin, and on the given side if some network does. -/
theorem logicalNetwork_eq_ok {key : FamilyKey} {pin : InterfacePinId} {side : Bool}
    {N : LogicalNetwork} (h : c.logicalNetwork key pin side = .ok N) :
    ∃ networks, c.logicalNetworks key = .ok networks ∧ N ∈ networks ∧ (N.hasNode pin side = true ∨
      (∀ M ∈ networks, M.hasNode pin side = false) ∧
        ∀ M ∈ networks, M.contains pin = true → M = N) := by
  obtain ⟨networks, hnetworks, h⟩ := bind_eq_ok.1 h
  refine ⟨networks, hnetworks, ?_⟩
  split at h
  · rename_i hfind
    obtain rfl := pure_eq_ok.1 h
    exact ⟨List.mem_of_find?_eq_some hfind, .inl (by simpa using List.find?_some hfind)⟩
  · rename_i hnone
    split at h
    · rename_i M hfilter
      obtain rfl := pure_eq_ok.1 h
      have honly (K : LogicalNetwork) : K ∈ networks ∧ K.contains pin = true ↔ K ∈ [M] := by
        rw [← hfilter, List.mem_filter]
      refine ⟨((honly M).2 List.mem_cons_self).1, .inr ⟨fun K hK => ?_, fun K hK hpin => ?_⟩⟩
      · simpa using List.find?_eq_none.1 hnone K hK
      · exact List.mem_singleton.1 ((honly K).1 ⟨hK, hpin⟩)
    · exact absurd h throw_ne_ok
    · exact absurd h throw_ne_ok

theorem contains_of_hasNode {N : LogicalNetwork} {pin : InterfacePinId} {side : Bool}
    (h : N.hasNode pin side = true) : N.contains pin = true := by
  rw [LogicalNetwork.hasNode] at h
  rw [LogicalNetwork.contains, decide_eq_true_eq]
  split at h
  · exact .inl (by simpa using h)
  · exact .inr (by simpa using h)

/-- Both ends of a compatible pair find one network: the requesting pin as a source, and the other
pin as a target or, unless it is itself requesting, as a source. -/
theorem logicalNetwork_of_drives {key : FamilyKey} {f : Family} {a b : InterfacePinId} {side : Bool}
    {N M : LogicalNetwork} (hf : c.family key = .ok f) (hab : c.Drives f a b)
    (hN : c.logicalNetwork key a true = .ok N) (hM : c.logicalNetwork key b side = .ok M)
    (hside : side = true → ∀ o, ¬c.Drives f b o) : N = M := by
  obtain ⟨networks, hnetworks, hNmem, hN⟩ := logicalNetwork_eq_ok hN
  obtain ⟨networks', hnetworks', hMmem, hM⟩ := logicalNetwork_eq_ok hM
  obtain rfl := Except.ok.inj (hnetworks.symm.trans hnetworks')
  obtain ⟨f', g, hf', hg, _, _⟩ := mem_logicalNetworks hnetworks
  obtain rfl := Except.ok.inj (hf.symm.trans hf')
  have hnet {a b : SidedPin} := exists_network_iff (a := a) (b := b) hnetworks hf hg
  have hedge : ((⟨a, true⟩, ⟨b, false⟩) : SidedPin × SidedPin) ∈ g.edges :=
    (edges_pairGraph hg).2 ⟨rfl, rfl, hab⟩
  have hnode := ((wellFormed_pairGraph hg).ends _ hedge).1
  obtain ⟨K, hK, hKa, hKb⟩ := hnet.2 (.step (.refl hnode) (.inl hedge))
  have hNK : N = K := by
    rcases hN with hN | ⟨hnone, _⟩
    · exact network_unique hnetworks hNmem hK hN hKa
    · exact absurd hKa (by simp [hnone K hK])
  have hMK : M = K := by
    rcases hM with hM | ⟨hnone, honly⟩
    · cases side with
      | false => exact network_unique hnetworks hMmem hK hM hKb
      | true =>
        have hb := Graph.linked_mem_left
          (hnet (a := ⟨b, true⟩) (b := ⟨b, true⟩) |>.1 ⟨M, hMmem, hM, hM⟩)
        obtain ⟨o, ho⟩ := drives_of_mem_nodes hg hb
        exact absurd ho (hside rfl o)
    · exact (honly K hK (contains_of_hasNode hKb)).symm
  exact hNK.trans hMK.symm

end Catalog
end BoardNets
