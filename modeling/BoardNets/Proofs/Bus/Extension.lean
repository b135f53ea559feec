import BoardNets.Net.Wires
import BoardNets.Proofs.Bus.Members
import BoardNets.Proofs.Circuit.Extension

/-! Buses of circuits that extend others. New nodes that require nothing leave the buses of a
circuit what they were, and their logical networks too. -/
namespace BoardNets
namespace Circuit

variable {c c' : Circuit}

theorem has_of_fragmentInterface {f : Fragment} {side : Side} {i : InterfaceRef}
    (h : f.interface c side = .ok (some i)) : c.Has (f.endpoint side).node := by
  rw [Fragment.interface] at h
  split at h
  · cases h
  · obtain ⟨type, _, h⟩ := bind_eq_ok.1 h
    obtain ⟨p, hp, _⟩ := bind_eq_ok.1 (interfaceNamed?_eq_some h)
    exact has_of_component? (component_eq_ok.1 hp)

def Knows (c : Circuit) (m : BusMember) : Prop := c.busMember m.fragment = .ok m

theorem knows_of_busMember {id : FragmentId} {m : BusMember} (h : c.busMember id = .ok m) :
    c.Knows m := by
  obtain ⟨_, _, _, _, _, _, rfl⟩ := busMember_eq_ok.1 h
  exact h

theorem Knows.fragment {m : BusMember} (h : c.Knows m) :
    ∃ f, c.fragment m.fragment = .ok f ∧ f.Anchored c ∧ f.source.node = m.source ∧
      f.target.node = m.target ∧ m.sourceInterface.component = m.source ∧
      m.targetInterface.component = m.target := by
  obtain ⟨f, s, t, hf, hs, ht, hm⟩ := busMember_eq_ok.1 h
  refine ⟨f, fragment_eq_ok.2 hf, ?_, ?_⟩
  · intro side
    cases side
    · exact has_of_fragmentInterface hs
    · exact has_of_fragmentInterface ht
  · rw [hm]
    exact ⟨rfl, rfl, component_of_interface hs, component_of_interface ht⟩

theorem Knows.source {m : BusMember} (h : c.Knows m) : c.Has m.source := by
  obtain ⟨f, _, hf, hsource, _⟩ := h.fragment
  exact hsource ▸ hf .source

theorem Knows.target {m : BusMember} (h : c.Knows m) : c.Has m.target := by
  obtain ⟨f, _, hf, _, htarget, _⟩ := h.fragment
  exact htarget ▸ hf .target

namespace Extends

variable (h : c.Extends c')
include h

theorem busMember {id : FragmentId} {m : BusMember} (hm : c.busMember id = .ok m) :
    c'.busMember id = .ok m := by
  obtain ⟨f, s, t, hf, hs, ht, rfl⟩ := busMember_eq_ok.1 hm
  obtain ⟨g, hg, hanchored, _⟩ := (knows_of_busMember hm).fragment
  obtain rfl := Except.ok.inj ((fragment_eq_ok.2 hf).symm.trans hg)
  refine busMember_eq_ok.2 ⟨f, s, t, ?_, ?_, ?_, rfl⟩
  · rwa [fragment?, h.fragments]
  · rw [Fragment.interface_extends h hanchored, hs]
  · rw [Fragment.interface_extends h hanchored, ht]

theorem ofMembers {members : List BusMember} (hm : ∀ m ∈ members, c.Knows m) :
    Bus.ofMembers c' members = Bus.ofMembers c members := by
  have hreference : ∀ m ∈ (SortedSet.ofList members).toList.head?,
      (do (← c'.fragment m.fragment).reference c') =
        (do (← c.fragment m.fragment).reference c) := by
    intro m hhead
    have hmem : m ∈ SortedSet.ofList members := List.mem_of_mem_head? hhead
    obtain ⟨f, hf, hanchored, _⟩ := (hm m (SortedSet.mem_ofList.1 hmem)).fragment
    rw [h.fragment, hf]
    exact Fragment.reference_extends h hanchored
  simp only [Bus.ofMembers]
  cases hhead : (SortedSet.ofList members).toList.head? with
  | none => rfl
  | some m =>
    simp only [Option.mapM_some]
    rw [hreference m hhead]

end Extends

theorem knows_of_buses {a : NodeId} {deep : Bool} {buses : List Bus} {b : Bus}
    (h : c.buses a deep = .ok buses) (hb : b ∈ buses) {m : BusMember} (hm : m ∈ b.members) :
    c.Knows m := by
  obtain ⟨members, hmembers, h⟩ := bind_eq_ok.1 h
  obtain ⟨interfaces, _, hof⟩ := (mem_of_mapM h).1 hb
  rw [members_ofMembers hof, SortedSet.mem_ofList, List.mem_filter] at hm
  obtain ⟨ms, hms, hm⟩ := List.mem_flatten.1 hm.1
  obtain ⟨x, _, hx⟩ := (mem_of_mapM hmembers).1 hms
  obtain ⟨p, _, hp⟩ := bind_eq_ok.1 hx
  obtain ⟨id, _, hid⟩ := (mem_of_mapM hp).1 hm
  exact knows_of_busMember hid

namespace Extends

variable (h : c.Extends c')
include h

/-- Nodes that require nothing do not change the buses below a node. -/
theorem buses {a : NodeId} {deep : Bool} {keep : NodeId → Bool}
    (hkeep : (c'.descendants a deep).filter keep = c.descendants a deep)
    (hnew : ∀ x ∈ c'.descendants a deep, keep x = false →
      ∃ p, c'.component? x = some p ∧ p.requirements = [])
    {buses : List Bus} (hb : c.buses a deep = .ok buses) : c'.buses a deep = .ok buses := by
  obtain ⟨members, hmembers, hb⟩ := bind_eq_ok.1 hb
  have hkept : ((c'.descendants a deep).filter keep).mapM (fun n => do
      (← c'.component n).requirements.mapM c'.busMember) = .ok members := by
    rw [hkeep]
    refine mapM_mono hmembers fun x _ ms hx => ?_
    obtain ⟨p, hp, hms⟩ := bind_eq_ok.1 hx
    obtain ⟨children, ancillary, hp'⟩ := h.component (component_eq_ok.1 hp)
    refine bind_eq_ok.2 ⟨_, component_eq_ok.2 hp', ?_⟩
    exact mapM_mono hms fun _ _ _ hm => h.busMember hm
  obtain ⟨members', hmembers', hflat⟩ := mapM_of_filter hkept fun x hx hout => by
    obtain ⟨p, hp, hnone⟩ := hnew x hx hout
    exact bind_eq_ok.2 ⟨p, component_eq_ok.2 hp, by rw [hnone]; rfl⟩
  have hknown : ∀ m ∈ members.flatten, c.Knows m := by
    intro m hm
    obtain ⟨ms, hms, hm⟩ := List.mem_flatten.1 hm
    obtain ⟨x, _, hx⟩ := (mem_of_mapM hmembers).1 hms
    obtain ⟨p, _, hp⟩ := bind_eq_ok.1 hx
    obtain ⟨id, _, hid⟩ := (mem_of_mapM hp).1 hm
    exact knows_of_busMember hid
  refine bind_eq_ok.2 ⟨members', hmembers', ?_⟩
  dsimp only at hb ⊢
  rw [hflat]
  refine mapM_mono hb fun interfaces _ b hof => ?_
  rw [h.ofMembers fun m hm => hknown m (List.mem_filter.1 hm).1]
  exact hof

variable {bus : Bus} (hbus : ∀ m ∈ bus.members, c.Knows m)
include hbus

theorem sourceInterfaces : bus.sourceInterfaces c' = bus.sourceInterfaces c := by
  rw [Bus.sourceInterfaces, Bus.sourceInterfaces, Bus.sourceMembers, Bus.sourceMembers]
  have hpart : ∀ m ∈ bus.members.toList, c'.isPart m.source = c.isPart m.source :=
    fun m hm => h.isPart (hbus m hm).source
  rw [List.filter_congr hpart]

theorem targetInterfaces : bus.targetInterfaces c' = bus.targetInterfaces c := by
  rw [Bus.targetInterfaces, Bus.targetInterfaces, Bus.targetMembers, Bus.targetMembers]
  have hpart : ∀ m ∈ bus.members.toList, c'.isPart m.target = c.isPart m.target :=
    fun m hm => h.isPart (hbus m hm).target
  rw [List.filter_congr hpart]

theorem physicalInterfaces : bus.physicalInterfaces c' = bus.physicalInterfaces c := by
  rw [Bus.physicalInterfaces, Bus.physicalInterfaces, h.sourceInterfaces hbus,
    h.targetInterfaces hbus]

theorem family {family : Family} (hfamily : bus.family c = .ok family) :
    bus.family c' = .ok family := by
  obtain ⟨families, hfamilies, hfamily⟩ := bind_eq_ok.1 hfamily
  refine bind_eq_ok.2 ⟨families, ?_, ?_⟩
  · rw [h.physicalInterfaces hbus]
    refine mapM_mono hfamilies fun i _ key hkey => ?_
    obtain ⟨x, hx, hkey⟩ := bind_eq_ok.1 hkey
    rw [h.interface (has_of_interface hx), h.catalog]
    exact bind_eq_ok.2 ⟨x, hx, hkey⟩
  · rw [h.catalog]
    split at hfamily
    · exact hfamily
    · exact hfamily
    · exact absurd hfamily throw_ne_ok

theorem busNetworks {networks : SortedMap LogicalNetwork NetworkPins}
    (hnetworks : c.busNetworks bus = .ok networks) : c'.busNetworks bus = .ok networks := by
  obtain ⟨family, hfamily, hnetworks⟩ := bind_eq_ok.1 hnetworks
  refine bind_eq_ok.2 ⟨family, h.family hbus hfamily, ?_⟩
  rw [h.physicalInterfaces hbus]
  refine foldlM_mono hnetworks fun networks i _ networks' hadd => ?_
  obtain ⟨x, hx, hadd⟩ := bind_eq_ok.1 hadd
  refine bind_eq_ok.2 ⟨x, (h.interface (has_of_interface hx)).trans hx, ?_⟩
  rw [h.sourceInterfaces hbus]
  refine foldlM_mono hadd fun _ _ _ _ hslot => ?_
  rwa [addToNetwork, h.catalog]

end Extends
end Circuit
end BoardNets
