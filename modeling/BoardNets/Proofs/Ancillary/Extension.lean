import BoardNets.Ancillary.Basic
import BoardNets.Proofs.Circuit.Extension

/-! Ancillaries in circuits that extend others. What an ancillary connects and replaces in the
smaller circuit, it connects and replaces in the larger one. -/
namespace BoardNets

variable {c c' : Circuit}

namespace Circuit

theorem has_of_componentPin {id : NodeId} {pin : PinId} {p : ComponentPin}
    (h : c.componentPin id pin = .ok p) : c.Has id := by
  obtain ⟨_, hpin, _⟩ := bind_eq_ok.1 h
  exact has_of_pin hpin

namespace Extends

variable (h : c.Extends c')
include h

theorem componentPin_eq_ok {id : NodeId} {pin : PinId} {p : ComponentPin}
    (hp : c.componentPin id pin = .ok p) : c'.componentPin id pin = .ok p := by
  rwa [h.componentPin (has_of_componentPin hp)]

theorem referencePin {pins : SortedSet ComponentPin} {kind : ReferenceKind}
    {reference : Option ComponentPin} (hr : c.referencePin pins kind = .ok reference) :
    c'.referencePin pins kind = .ok reference := by
  obtain ⟨references, hreferences, hr⟩ := bind_eq_ok.1 hr
  obtain ⟨keyed, hkeyed, hr⟩ := bind_eq_ok.1 hr
  refine bind_eq_ok.2 ⟨references, ?_, bind_eq_ok.2 ⟨keyed, ?_, hr⟩⟩
  · refine filterMapM_mono hreferences fun p _ r hpr => ?_
    obtain ⟨pin, hpin, hpr⟩ := bind_eq_ok.1 hpr
    have hp := has_of_pin hpin
    have hcomponentPin : c'.componentPin p.component = c.componentPin p.component :=
      funext fun _ => h.componentPin hp
    rw [hcomponentPin]
    exact bind_eq_ok.2 ⟨pin, (h.pin hp).trans hpin, hpr⟩
  · refine mapM_mono hkeyed fun p _ key hkey => ?_
    obtain ⟨pin, hpin, hkey⟩ := bind_eq_ok.1 hkey
    have hp := has_of_pin hpin
    rw [h.reference hp]
    exact bind_eq_ok.2 ⟨pin, (h.pin hp).trans hpin, hkey⟩

end Extends
end Circuit

namespace AncillaryConnection

variable {n : AncillaryConnection} {id : NodeId} {a : Ancillary} {pins : SortedSet ComponentPin}
  {done : Application}

theorem joinReference_mono (h : c.Extends c') {kind : ReferenceKind}
    (hn : n.joinReference c id a pins kind = .ok done) (a' : Ancillary) :
    n.joinReference c' id a' pins kind = .ok done := by
  obtain ⟨reference, hreference, hn⟩ := bind_eq_ok.1 hn
  refine bind_eq_ok.2 ⟨reference, h.referencePin hreference, ?_⟩
  cases reference with
  | none => exact absurd hn throw_ne_ok
  | some r => exact hn

theorem applyTo_mono (h : c.Extends c') (hn : n.applyTo c id a pins = .ok done) (a' : Ancillary) :
    n.applyTo c' id a' pins = .ok done := by
  obtain ⟨own, hown, hn⟩ := bind_eq_ok.1 hn
  refine bind_eq_ok.2 ⟨own, h.componentPin_eq_ok hown, ?_⟩
  cases hrole : n.role with
  | input =>
    rw [hrole] at hn
    exact hn
  | output =>
    rw [hrole] at hn
    exact hn
  | voltageReference =>
    rw [hrole] at hn
    exact joinReference_mono h hn a'
  | groundReference =>
    rw [hrole] at hn
    exact joinReference_mono h hn a'

theorem inputPins_mono (h : c.Extends c') {binding : Binding}
    (hn : n.inputPins c binding = .ok pins) : n.inputPins c' binding = .ok pins := by
  cases binding with
  | bus bus => exact hn
  | board board => exact hn
  | interface parent i =>
    obtain ⟨x, hx, hn⟩ := bind_eq_ok.1 hn
    exact bind_eq_ok.2 ⟨x, (h.interface (Circuit.has_of_interface hx)).trans hx, hn⟩
  | pins parent =>
    rw [inputPins] at hn ⊢
    cases hto : n.attachment with
    | interfacePin pin assignment =>
      rw [hto] at hn
      exact absurd hn throw_ne_ok
    | pin pin =>
      rw [hto] at hn
      obtain ⟨p, hp, hn⟩ := bind_eq_ok.1 hn
      exact bind_eq_ok.2 ⟨p, h.componentPin_eq_ok hp, hn⟩

end AncillaryConnection

theorem Ancillary.apply_mono (h : c.Extends c') {a : Ancillary} {id : NodeId} {done : Application}
    (ha : a.apply c id = .ok done) : a.apply c' id = .ok done := by
  refine foldlM_mono ha fun done n _ done' hn => ?_
  obtain ⟨more, hmore, hn⟩ := bind_eq_ok.1 hn
  obtain ⟨pins, hpins, hmore⟩ := bind_eq_ok.1 hmore
  have happly : n.apply c' id a = .ok more :=
    bind_eq_ok.2 ⟨pins, AncillaryConnection.inputPins_mono h hpins,
      AncillaryConnection.applyTo_mono h hmore a⟩
  exact bind_eq_ok.2 ⟨more, happly, hn⟩

end BoardNets
