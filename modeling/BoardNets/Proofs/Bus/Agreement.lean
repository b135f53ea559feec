import BoardNets.Net.Group
import BoardNets.Proofs.Ancillary.Agreement
import BoardNets.Proofs.Bus.Drivers
import BoardNets.Proofs.Bus.Extension
import BoardNets.Proofs.Circuit.Duties
import BoardNets.Proofs.Fragment.Connections

/-! Buses of known members. In a circuit that extends another one they have the same family, the
same networks, the same pins and the same drivers as before, or fail for the same reason. -/
namespace BoardNets
namespace Circuit

variable {c c' : Circuit}

theorem Knows.has_of_interfaces {bus : Bus} (hbus : ∀ m ∈ bus.members, c.Knows m) :
    ∀ i ∈ bus.interfaces.toList, c.Has i.component := by
  intro i hi
  obtain ⟨m, hm, hi⟩ := List.mem_flatMap.1 (SortedSet.mem_ofList.1 hi)
  obtain ⟨_, _, _, _, _, hsource, htarget⟩ := (hbus m hm).fragment
  rcases List.mem_cons.1 hi with rfl | hi
  · exact hsource ▸ (hbus m hm).source
  · obtain rfl := List.mem_singleton.1 hi
    exact htarget ▸ (hbus m hm).target

theorem mem_interfaces_of_physical {bus : Bus} {i : InterfaceRef}
    (h : i ∈ bus.physicalInterfaces c) : i ∈ bus.interfaces := by
  rw [Bus.interfaces, SortedSet.mem_ofList, List.mem_flatMap]
  rcases SortedSet.mem_union.1 h with h | h
  · obtain ⟨m, hm, rfl⟩ := List.mem_map.1 (SortedSet.mem_ofList.1 h)
    exact ⟨m, (List.mem_filter.1 hm).1, List.mem_cons_self⟩
  · obtain ⟨m, hm, rfl⟩ := List.mem_map.1 (SortedSet.mem_ofList.1 h)
    exact ⟨m, (List.mem_filter.1 hm).1, List.mem_cons_of_mem _ List.mem_cons_self⟩

theorem Knows.has_of_physical {bus : Bus} (hbus : ∀ m ∈ bus.members, c.Knows m) :
    ∀ i ∈ (bus.physicalInterfaces c).toList, c.Has i.component :=
  fun i hi => has_of_interfaces hbus i (mem_interfaces_of_physical hi)

namespace Extends

variable (h : c.Extends c')
include h

theorem busMember_eq {id : FragmentId} {s t : NodeId} (hends : c.ends id = some (s, t))
    (hs : c.Has s) (ht : c.Has t) : c'.busMember id = c.busMember id := by
  obtain ⟨f, hf, hst⟩ := Option.map_eq_some_iff.1 hends
  obtain ⟨rfl, rfl⟩ := Prod.mk.inj hst
  have hanchored : f.Anchored c := by
    intro side
    cases side
    · exact hs
    · exact ht
  have hsource := Fragment.interface_extends h hanchored .source
  have htarget := Fragment.interface_extends h hanchored .target
  refine bind_congr_of_ok (h.fragment id) fun g hg => ?_
  obtain rfl := Except.ok.inj ((fragment_eq_ok.2 hf).symm.trans hg)
  exact bind_congr_of_ok hsource fun source _ => bind_congr_of_ok htarget fun target _ => by
    rw [Fragment.describe_extends h hanchored]

theorem sourcePinsOf (bus : Bus) (p : ComponentPin) :
    bus.sourcePinsOf c' p = bus.sourcePinsOf c p := by
  have hfragment : c'.fragment = c.fragment := funext h.fragment
  rw [Bus.sourcePinsOf, Bus.sourcePinsOf, Bus.drivers, Bus.drivers, hfragment]

variable {bus : Bus} (hbus : ∀ m ∈ bus.members, c.Knows m)
include hbus

theorem sourceComponents : bus.sourceComponents c' = bus.sourceComponents c := by
  rw [Bus.sourceComponents, Bus.sourceComponents, Bus.sourceMembers, Bus.sourceMembers,
    List.filter_congr fun m hm => h.isPart (hbus m hm).source]

theorem physicalPins : bus.physicalPins c' = bus.physicalPins c := by
  rw [Bus.physicalPins, Bus.physicalPins, Bus.pinsOf, Bus.pinsOf, h.physicalInterfaces hbus,
    mapM_congr fun i hi => h.interface (Knows.has_of_physical hbus i hi)]

theorem family_eq : bus.family c' = bus.family c := by
  have hhas : ∀ i ∈ (if (bus.physicalInterfaces c).isEmpty then bus.interfaces
      else bus.physicalInterfaces c).toList, c.Has i.component := by
    split
    · exact Knows.has_of_interfaces hbus
    · exact Knows.has_of_physical hbus
  simp only [Bus.family]
  rw [h.physicalInterfaces hbus, h.describeBus (Knows.has_of_interfaces hbus), h.catalog,
    mapM_congr fun i hi => by rw [h.interface (hhas i hi)]]

theorem busNetworks_eq : c'.busNetworks bus = c.busNetworks bus := by
  rw [Circuit.busNetworks, Circuit.busNetworks, h.family_eq hbus, h.physicalInterfaces hbus]
  refine bind_congr fun family => foldlM_congr fun networks i hi => ?_
  have hslot : c'.addToNetwork = c.addToNetwork := by
    funext family interface requesting networks slot
    rw [addToNetwork, addToNetwork, h.catalog]
  rw [addInterface, addInterface, h.interface (Knows.has_of_physical hbus i hi),
    h.sourceInterfaces hbus, hslot]

omit hbus in
theorem busOwners {buses : List Bus} (hbuses : ∀ bus ∈ buses, ∀ m ∈ bus.members, c.Knows m) :
    c'.busOwners buses = c.busOwners buses := by
  rw [Circuit.busOwners, Circuit.busOwners,
    mapM_congr fun bus hbus => h.physicalPins (hbuses bus hbus)]

end Extends

theorem Balanced.has_of_entry (hc : c.Balanced) {id : FragmentId} {f : Fragment}
    (hf : c.fragment? id = some f) {e : InterfacePinId × PinUse} (he : e ∈ f.entries) :
    c.Has e.2.pin.component := by
  have huse := hc.mem_usesOf hf he
  rw [(hc.on e.2.interface e.2 huse).2]
  rw [usesOf] at huse
  cases hi : c.interface? e.2.interface with
  | none =>
    rw [hi] at huse
    cases huse
  | some x => exact has_of_interface (interface_eq_ok.2 hi)

end Circuit
end BoardNets
