import BoardNets.Proofs.Bus.Partition
import BoardNets.Proofs.Circuit.Resemblance

/-! Buses of circuits that resemble each other. The same fragments are required at the same nodes,
under other ids, so the graphs of their interfaces have the same components. Every bus of one
circuit has a counterpart in the other one, made of the same fragments, and what is asked of a bus
when it is wired depends on the ends of its fragments alone. -/
namespace BoardNets
namespace ComponentInterface

variable {x y : ComponentInterface} (huses : ∀ u, u ∈ y.uses.uses ↔ u ∈ x.uses.uses)
include huses

theorem activePins_congr (slot : Option InterfacePinId) (assignment : Option PinAssignment) :
    y.activePins slot assignment = x.activePins slot assignment := by
  refine SortedSet.ext fun p => ?_
  simp only [activePins, SortedSet.mem_ofList, List.mem_map, List.mem_filter, huses]

theorem activeInterfacePins_congr : y.activeInterfacePins = x.activeInterfacePins := by
  refine SortedSet.ext fun slot => ?_
  simp only [activeInterfacePins, SortedSet.mem_ofList, List.mem_map, huses]

end ComponentInterface

def BusMember.ends (m : BusMember) : (InterfaceRef × InterfaceRef) × (NodeId × NodeId) :=
  ((m.sourceInterface, m.targetInterface), (m.source, m.target))

namespace Circuit

variable {c c' : Circuit} {a : NodeId} {deep : Bool} {m m' : BusMember}

theorem considers_of_frame (h : c'.frame = c.frame) {x : NodeId} :
    c'.Considers a deep x ↔ c.Considers a deep x := by
  rw [← mem_descendants_iff, ← mem_descendants_iff, descendants, descendants, below_of_frame h]

/-- Two members are of the same fragment, but for its origin, and have the same ends. -/
structure Counterpart (c c' : Circuit) (m m' : BusMember) : Prop where
  fragment : (c'.fragment? m'.fragment).map Fragment.unsigned =
    (c.fragment? m.fragment).map Fragment.unsigned
  ends : m'.ends = m.ends

theorem Counterpart.symm (h : Counterpart c c' m m') : Counterpart c' c m' m :=
  ⟨h.fragment.symm, h.ends.symm⟩

theorem Counterpart.exists_fragment (h : Counterpart c c' m m') {f : Fragment}
    (hf : c.fragment? m.fragment = some f) :
    ∃ f', c'.fragment? m'.fragment = some f' ∧ f'.unsigned = f.unsigned := by
  have hfragment := h.fragment
  rw [hf, Option.map_some] at hfragment
  exact Option.map_eq_some_iff.1 hfragment

structure SameFragments (c c' : Circuit) (b b' : Bus) : Prop where
  there : ∀ m ∈ b.members, ∃ m' ∈ b'.members, Counterpart c c' m m'
  back : ∀ m' ∈ b'.members, ∃ m ∈ b.members, Counterpart c c' m m'

theorem SameFragments.symm {b b' : Bus} (h : SameFragments c c' b b') :
    SameFragments c' c b' b where
  there := fun m' hm' => by
    obtain ⟨m, hm, hcounterpart⟩ := h.back m' hm'
    exact ⟨m, hm, hcounterpart.symm⟩
  back := fun m hm => by
    obtain ⟨m', hm', hcounterpart⟩ := h.there m hm
    exact ⟨m', hm', hcounterpart.symm⟩

theorem SameFragments.exists_ends {b b' : Bus} (h : SameFragments c c' b b')
    {F : (InterfaceRef × InterfaceRef) × (NodeId × NodeId) → Prop} :
    (∃ m' ∈ b'.members, F m'.ends) ↔ ∃ m ∈ b.members, F m.ends := by
  constructor
  · rintro ⟨m', hm', hF⟩
    obtain ⟨m, hm, hcounterpart⟩ := h.back m' hm'
    exact ⟨m, hm, hcounterpart.ends ▸ hF⟩
  · rintro ⟨m, hm, hF⟩
    obtain ⟨m', hm', hcounterpart⟩ := h.there m hm
    exact ⟨m', hm', hcounterpart.ends ▸ hF⟩

namespace Resembles

variable (h : c.Resembles c')
include h

theorem interface_eq {f f' : Fragment} (hf : f'.unsigned = f.unsigned) (side : Side) :
    f'.interface c' side = f.interface c side := by
  rw [← Fragment.interface_outline, h.outline, Fragment.interface_outline]
  refine Fragment.read_of_unsigned hf (F := fun f => f.interface c side) fun f => ?_
  cases side <;> rfl

theorem reference_eq {f f' : Fragment} (hf : f'.unsigned = f.unsigned) :
    f'.reference c' = f.reference c := by
  rw [← Fragment.reference_outline, h.outline, Fragment.reference_outline]
  exact Fragment.read_of_unsigned hf (F := fun f => f.reference c) fun _ => rfl

theorem exists_counterpart {members members' : List BusMember} (hall : c.Gathers a deep members)
    (hall' : c'.Gathers a deep members') (hm : m ∈ members) :
    ∃ m' ∈ members', Counterpart c c' m m' := by
  obtain ⟨⟨x, hx, hid⟩, hknows⟩ := hall.only m hm
  obtain ⟨f, s, t, hf, hs, ht, heq⟩ := busMember_eq_ok.1 hknows
  obtain ⟨id', f', hid', hf', hsame⟩ := (h.demands x f).2 ⟨m.fragment, f, hid, hf, rfl⟩
  obtain ⟨m', hm', rfl⟩ := hall'.all id' ⟨x, (considers_of_frame h.frame).2 hx, hid'⟩
  refine ⟨m', hm', by rw [hf', hf, Option.map_some, Option.map_some, hsame], ?_⟩
  obtain ⟨g, s', t', hg, hs', ht', heq'⟩ := busMember_eq_ok.1 (hall'.only m' hm').2
  obtain rfl := Option.some.inj (hf'.symm.trans hg)
  rw [h.interface_eq hsame, hs] at hs'
  rw [h.interface_eq hsame, ht] at ht'
  obtain ⟨hsource, htarget⟩ := Prod.mk.inj
    (Fragment.read_of_unsigned hsame (F := Fragment.ends) fun _ => rfl)
  rw [heq, heq', Option.some.inj (Except.ok.inj hs'), Option.some.inj (Except.ok.inj ht'), hsource,
    htarget]
  rfl

theorem mem_components_joined {members members' : List BusMember} (hall : c.Gathers a deep members)
    (hall' : c'.Gathers a deep members') {s : SortedSet InterfaceRef} :
    s ∈ (joined members').components ↔ s ∈ (joined members).components := by
  have hends {F : (InterfaceRef × InterfaceRef) × (NodeId × NodeId) → Prop} :
      (∃ m ∈ members', F m.ends) ↔ ∃ m ∈ members, F m.ends := by
    constructor
    · rintro ⟨m', hm', hF⟩
      obtain ⟨m, hm, hcounterpart⟩ := h.symm.exists_counterpart hall' hall hm'
      exact ⟨m, hm, hcounterpart.ends ▸ hF⟩
    · rintro ⟨m, hm, hF⟩
      obtain ⟨m', hm', hcounterpart⟩ := h.exists_counterpart hall hall' hm
      exact ⟨m', hm', hcounterpart.ends ▸ hF⟩
  refine Graph.mem_components_congr (wellFormed_joined _) (wellFormed_joined _) (fun i => ?_)
    fun e => ?_
  · rw [joined, joined, mem_nodes_joined, mem_nodes_joined]
    exact or_congr_right (hends (F := fun ends => i = ends.1.1 ∨ i = ends.1.2))
  · rw [mem_edges_joined, mem_edges_joined]
    exact hends (F := fun ends => e = ends.1)

theorem exists_sameFragments {buses buses' : List Bus} (hb : c.buses a deep = .ok buses)
    (hb' : c'.buses a deep = .ok buses') {b : Bus} (hin : b ∈ buses) :
    ∃ b' ∈ buses', SameFragments c c' b b' := by
  obtain ⟨members, hall, hbuses⟩ := mapM_of_buses hb
  obtain ⟨members', hall', hbuses'⟩ := mapM_of_buses hb'
  obtain ⟨s, hs, hof⟩ := (mem_of_mapM hbuses).1 hin
  have hs' := (h.mem_components_joined hall hall').2 hs
  obtain ⟨b', hof'⟩ := exists_mapM_iff.1 ⟨buses', hbuses'⟩ s hs'
  have hbus := busOf_ofMembers hs hof
  have hbus' := busOf_ofMembers hs' hof'
  refine ⟨b', (mem_of_mapM hbuses').2 ⟨s, hs', hof'⟩, fun m hm => ?_, fun m' hm' => ?_⟩
  · obtain ⟨hm, hsource⟩ := (hbus.members m).1 hm
    obtain ⟨m', hm', hcounterpart⟩ := h.exists_counterpart hall hall' hm
    have hsame : m'.sourceInterface = m.sourceInterface := congrArg (·.1.1) hcounterpart.ends
    exact ⟨m', (hbus'.members m').2 ⟨hm', hsame ▸ hsource⟩, hcounterpart⟩
  · obtain ⟨hm', hsource⟩ := (hbus'.members m').1 hm'
    obtain ⟨m, hm, hcounterpart⟩ := h.symm.exists_counterpart hall' hall hm'
    have hsame : m.sourceInterface = m'.sourceInterface := congrArg (·.1.1) hcounterpart.ends
    exact ⟨m, (hbus.members m).2 ⟨hm, hsame ▸ hsource⟩, hcounterpart.symm⟩

section Counterparts

variable {b b' : Bus} (hb : SameFragments c c' b b')
include hb

theorem sourceInterfaces : b'.sourceInterfaces c' = b.sourceInterfaces c := by
  refine SortedSet.ext fun i => ?_
  simp only [Bus.sourceInterfaces, Bus.sourceMembers, SortedSet.mem_ofList, List.mem_map,
    List.mem_filter, isPart_of_frame h.frame, and_assoc]
  exact hb.exists_ends (F := fun ends => c.isPart ends.2.1 = true ∧ ends.1.1 = i)

theorem targetInterfaces : b'.targetInterfaces c' = b.targetInterfaces c := by
  refine SortedSet.ext fun i => ?_
  simp only [Bus.targetInterfaces, Bus.targetMembers, SortedSet.mem_ofList, List.mem_map,
    List.mem_filter, isPart_of_frame h.frame, and_assoc]
  exact hb.exists_ends (F := fun ends => c.isPart ends.2.2 = true ∧ ends.1.2 = i)

theorem physicalInterfaces : b'.physicalInterfaces c' = b.physicalInterfaces c := by
  rw [Bus.physicalInterfaces, Bus.physicalInterfaces, h.sourceInterfaces hb, h.targetInterfaces hb]

omit h in
theorem interfaces : b'.interfaces = b.interfaces := by
  refine SortedSet.ext fun i => ?_
  simp only [Bus.interfaces, SortedSet.mem_ofList, List.mem_flatMap]
  exact hb.exists_ends (F := fun ends => i ∈ [ends.1.1, ends.1.2])

theorem family {family : Family} (hfamily : b.family c = .ok family) :
    b'.family c' = .ok family := by
  obtain ⟨families, hfamilies, hfamily⟩ := bind_eq_ok.1 hfamily
  refine bind_eq_ok.2 ⟨families, ?_, ?_⟩
  · rw [h.physicalInterfaces hb, interfaces hb]
    refine mapM_mono hfamilies fun i _ key hkey => ?_
    obtain ⟨x, hx, hkey⟩ := bind_eq_ok.1 hkey
    obtain ⟨y, hy, hidle, _⟩ := h.interface hx
    have htype : y.interface = x.interface := (ComponentInterface.mk.inj hidle).2.1
    rw [catalog_of_frame h.frame]
    exact bind_eq_ok.2 ⟨y, hy, htype ▸ hkey⟩
  · rw [catalog_of_frame h.frame]
    split at hfamily
    · exact hfamily
    · exact hfamily
    · exact absurd hfamily throw_ne_ok

theorem busNetworks {networks : SortedMap LogicalNetwork NetworkPins}
    (hnetworks : c.busNetworks b = .ok networks) : c'.busNetworks b' = .ok networks := by
  obtain ⟨family, hfamily, hnetworks⟩ := bind_eq_ok.1 hnetworks
  refine bind_eq_ok.2 ⟨family, h.family hb hfamily, ?_⟩
  rw [h.physicalInterfaces hb]
  refine foldlM_mono hnetworks fun networks i _ networks' hadd => ?_
  obtain ⟨x, hx, hadd⟩ := bind_eq_ok.1 hadd
  obtain ⟨y, hy, _, huses⟩ := h.interface hx
  refine bind_eq_ok.2 ⟨y, hy, ?_⟩
  rw [h.sourceInterfaces hb, ComponentInterface.activeInterfacePins_congr huses]
  refine foldlM_mono hadd fun _ _ _ _ hslot => ?_
  rwa [addToNetwork, catalog_of_frame h.frame, ComponentInterface.activePins_congr huses]

end Counterparts
end Resembles
end Circuit
end BoardNets
