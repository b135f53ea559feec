import BoardNets.Net.Shape
import BoardNets.Proofs.Ancillary.Extension
import BoardNets.Proofs.Circuit.Ledger

/-! Ancillaries that are bound to nodes of the circuit. They do in a circuit that extends it what
they did there, and where they failed they still fail with the same message. -/
namespace BoardNets

def Binding.Stands (b : Binding) (c : Circuit) : Prop :=
  match b with
  | .bus own => ∀ i ∈ own.interfaces.toList, c.Has i.component
  | .interface parent i => c.Has parent ∧ c.Has i.component
  | .pins parent => c.Has parent
  | .board id => c.Has id

instance (b : Binding) (c : Circuit) : Decidable (b.Stands c) :=
  match b with
  | .bus own => inferInstanceAs (Decidable (∀ i ∈ own.interfaces.toList, c.Has i.component))
  | .interface parent i => inferInstanceAs (Decidable (c.Has parent ∧ c.Has i.component))
  | .pins parent => inferInstanceAs (Decidable (c.Has parent))
  | .board id => inferInstanceAs (Decidable (c.Has id))

variable {c c' : Circuit}

namespace Circuit

theorem has_of_referencePin {pins : SortedSet ComponentPin} {kind : ReferenceKind}
    {r : ComponentPin} (h : c.referencePin pins kind = .ok (some r)) : c.Has r.component := by
  obtain ⟨_, _, h⟩ := bind_eq_ok.1 h
  obtain ⟨keyed, hkeyed, h⟩ := bind_eq_ok.1 h
  obtain ⟨key, hkey, rfl⟩ := Option.map_eq_some_iff.1 (pure_eq_ok.1 h)
  have hin : key ∈ keyed := List.mem_mergeSort.1 (List.mem_of_mem_head? hkey)
  obtain ⟨r, _, hkey⟩ := (mem_of_mapM hkeyed).1 hin
  obtain ⟨pin, hpin, hkey⟩ := bind_eq_ok.1 hkey
  obtain rfl := pure_eq_ok.1 hkey
  exact has_of_pin hpin

theorem mem_of_lowestPin {pins : SortedSet ComponentPin} {lowest : RankedPin}
    (h : c.lowestPin pins = .ok (some lowest)) : lowest.pin ∈ pins := by
  obtain ⟨ranked, hranked, h⟩ := bind_eq_ok.1 h
  have hhead := pure_eq_ok.1 h
  have hin : lowest ∈ ranked := List.mem_mergeSort.1 (List.mem_of_mem_head? hhead)
  obtain ⟨p, hp, hlowest⟩ := (mem_of_mapM hranked).1 hin
  obtain ⟨_, _, hlowest⟩ := bind_eq_ok.1 hlowest
  obtain rfl := pure_eq_ok.1 hlowest
  exact hp

/-- The input pins of an ancillary are on the node that it is bound to. -/
theorem Balanced.has_of_inputPins (hc : c.Balanced) {n : AncillaryConnection} {b : Binding}
    {pins : SortedSet ComponentPin} (h : n.inputPins c b = .ok pins) :
    ∀ p ∈ pins, c.Has p.component := by
  intro p hp
  cases b with
  | bus bus => exact absurd h throw_ne_ok
  | board id => exact absurd h throw_ne_ok
  | interface parent i =>
    obtain ⟨x, hx, h⟩ := bind_eq_ok.1 h
    obtain ⟨assignment, _, h⟩ := bind_eq_ok.1 h
    obtain rfl := pure_eq_ok.1 h
    rw [hc.component_of_activePins hx hp]
    exact has_of_interface hx
  | pins parent =>
    rw [AncillaryConnection.inputPins] at h
    cases hto : n.attachment with
    | interfacePin slot assignment =>
      rw [hto] at h
      exact absurd h throw_ne_ok
    | pin pin =>
      rw [hto] at h
      obtain ⟨q, hq, h⟩ := bind_eq_ok.1 h
      obtain rfl := pure_eq_ok.1 h
      obtain rfl := List.mem_singleton.1 (SortedSet.mem_ofList.1 hp)
      obtain ⟨pin, hpin, hq⟩ := bind_eq_ok.1 hq
      obtain rfl := pure_eq_ok.1 hq
      exact has_of_pin hpin

theorem Balanced.has_of_parentPins (hc : c.Balanced) {a : Ancillary}
    {pins : SortedSet ComponentPin} (h : a.parentPins c = .ok pins) :
    ∀ p ∈ pins, c.Has p.component := by
  rw [Ancillary.parentPins] at h
  split at h
  · obtain ⟨all, hall, h⟩ := bind_eq_ok.1 h
    obtain rfl := pure_eq_ok.1 h
    intro p hp
    rw [foldl_gathers (M := fun s : SortedSet ComponentPin => p ∈ s) (C := fun s => p ∈ s)
      fun s x => SortedSet.mem_union] at hp
    obtain ⟨own, hown, hp⟩ := hp.resolve_left SortedSet.not_mem_empty
    obtain ⟨n, _, hn⟩ := (mem_of_mapM hall).1 hown
    exact hc.has_of_inputPins hn p hp
  · obtain rfl := pure_eq_ok.1 h
    intro p hp
    exact absurd hp SortedSet.not_mem_empty

namespace Extends

variable (h : c.Extends c')
include h

theorem rankPin {p : ComponentPin} (hp : c.Has p.component) : c'.rankPin p = c.rankPin p := by
  rw [Circuit.rankPin, Circuit.rankPin, h.pin hp, h.reference hp]

theorem pinLabel {p : ComponentPin} (hp : c.Has p.component) : c'.pinLabel p = c.pinLabel p := by
  rw [Circuit.pinLabel, Circuit.pinLabel, h.pin hp, h.reference hp]

theorem interfaceLabel {i : InterfaceRef} (hi : c.Has i.component) :
    c'.interfaceLabel i = c.interfaceLabel i := by
  rw [Circuit.interfaceLabel, Circuit.interfaceLabel, h.interface hi, h.reference hi]

theorem describeBus {bus : Bus} (hbus : ∀ i ∈ bus.interfaces.toList, c.Has i.component) :
    bus.describe c' = bus.describe c := by
  rw [Bus.describe, Bus.describe, List.map_congr_left fun i hi => h.interfaceLabel (hbus i hi)]

theorem describeAncillary {a : Ancillary} (ha : a.binding.Stands c) :
    a.describe c' = a.describe c := by
  rw [Ancillary.describe, Ancillary.describe]
  cases hb : a.binding with
  | bus bus =>
    have hbus : (Binding.bus bus).Stands c := hb ▸ ha
    simp only [h.describeBus hbus]
  | interface parent i =>
    have hi : (Binding.interface parent i).Stands c := hb ▸ ha
    simp only [h.interfaceLabel hi.2]
  | pins parent =>
    have hparent : (Binding.pins parent).Stands c := hb ▸ ha
    simp only [h.reference hparent]
  | board id =>
    have hid : (Binding.board id).Stands c := hb ▸ ha
    simp only [h.reference hid]

section Pins

variable {pins : SortedSet ComponentPin} (hpins : ∀ p ∈ pins, c.Has p.component)
include hpins

theorem lowestPin : c'.lowestPin pins = c.lowestPin pins := by
  rw [Circuit.lowestPin, Circuit.lowestPin, mapM_congr fun p hp => h.rankPin (hpins p hp)]

theorem describePins : c'.describePins pins = c.describePins pins := by
  rw [Circuit.describePins, Circuit.describePins,
    List.map_congr_left fun p hp => h.pinLabel (hpins p hp)]

theorem referencePin_eq (kind : ReferenceKind) :
    c'.referencePin pins kind = c.referencePin pins kind := by
  rw [Circuit.referencePin, Circuit.referencePin]
  refine bind_congr_of_ok (filterMapM_congr fun p hp => ?_) fun references hreferences => ?_
  · have hcomponentPin : c'.componentPin p.component = c.componentPin p.component :=
      funext fun _ => h.componentPin (hpins p hp)
    rw [h.pin (hpins p hp), hcomponentPin]
  · have hfound : ∀ r ∈ (SortedSet.ofList references).toList, c.Has r.component := by
      intro r hr
      obtain ⟨p, _, hpr⟩ := exists_of_mem_filterMapM hreferences (SortedSet.mem_ofList.1 hr)
      obtain ⟨pin, _, hpr⟩ := bind_eq_ok.1 hpr
      cases hreference : pin.reference kind with
      | none =>
        rw [hreference] at hpr
        cases hpr
      | some id =>
        rw [hreference] at hpr
        obtain ⟨q, hq, hpr⟩ := bind_eq_ok.1 hpr
        obtain ⟨_, hpin, hq⟩ := bind_eq_ok.1 hq
        obtain rfl := pure_eq_ok.1 hq
        obtain rfl := Option.some.inj (pure_eq_ok.1 hpr)
        exact has_of_pin hpin
    rw [mapM_congr fun r hr => by rw [h.pin (hfound r hr), h.reference (hfound r hr)]]

variable {n : AncillaryConnection} {id : NodeId} {a : Ancillary} (hid : c.Has id)
  (ha : a.binding.Stands c)
include hid ha

theorem applyTo : n.applyTo c' id a pins = n.applyTo c id a pins := by
  have hjoin (kind : ReferenceKind) :
      n.joinReference c' id a pins kind = n.joinReference c id a pins kind := by
    have hlabel : c'.pinLabel ⟨id, n.ancillaryPin⟩ = c.pinLabel ⟨id, n.ancillaryPin⟩ :=
      h.pinLabel hid
    simp only [AncillaryConnection.joinReference, h.referencePin_eq hpins, hlabel,
      h.describeAncillary ha]
  simp only [AncillaryConnection.applyTo, h.componentPin hid, hjoin]

end Pins

theorem inputPins {n : AncillaryConnection} {b : Binding} (hb : b.Stands c) :
    n.inputPins c' b = n.inputPins c b := by
  cases b with
  | bus bus => rfl
  | board id => rfl
  | interface parent i => simp only [AncillaryConnection.inputPins, h.interface hb.2]
  | pins parent =>
    have hcomponentPin : c'.componentPin parent = c.componentPin parent :=
      funext fun _ => h.componentPin hb
    simp only [AncillaryConnection.inputPins, hcomponentPin]

theorem parentPins {a : Ancillary} (ha : a.binding.Stands c) :
    a.parentPins c' = a.parentPins c := by
  rw [Ancillary.parentPins, Ancillary.parentPins, mapM_congr fun n _ => h.inputPins ha]

theorem applyAncillary (hc : c.Balanced) {id : NodeId} (hid : c.Has id) {a : Ancillary}
    (ha : a.binding.Stands c) : a.apply c' id = a.apply c id := by
  refine foldlM_congr fun done n _ => ?_
  have happly : n.apply c' id a = n.apply c id a :=
    bind_congr_of_ok (h.inputPins ha) fun pins hpins =>
      h.applyTo (hc.has_of_inputPins hpins) hid ha
  rw [happly]

end Extends
end Circuit
end BoardNets
