import BoardNets.Fragment.Deduction
import BoardNets.Proofs.Circuit.Arena
import BoardNets.Proofs.Circuit.Uses

/-! What deduction may answer. All uses of a pairing are of pins that belong to the two interfaces
it was made for, and both interfaces are there. -/
namespace BoardNets

/-- Uses of pins on the component of an interface, through this interface. -/
def Connections.On (c : Connections) (i : InterfaceRef) : Prop :=
  ∀ u ∈ c.uses, u.interface = i ∧ u.pin.component = i.component

theorem Connections.on_empty (i : InterfaceRef) : (∅ : Connections).On i := by
  intro u hu
  cases hu

theorem Connections.On.add {c : Connections} {i : InterfaceRef} (hc : c.On i)
    {key : InterfacePinId} {us : List PinUse}
    (hus : ∀ u ∈ us, u.interface = i ∧ u.pin.component = i.component) : (c.add key us).On i := by
  intro u hu
  exact (mem_uses_add.1 hu).elim (hc u) (hus u)

namespace Circuit

theorem componentPin_eq_ok {c : Circuit} {id : NodeId} {pin : PinId} {p : ComponentPin}
    (h : c.componentPin id pin = .ok p) : p = ⟨id, pin⟩ := by
  rw [componentPin, bind_eq_ok] at h
  obtain ⟨_, _, h⟩ := h
  exact (pure_eq_ok.1 h).symm

theorem pinUses_eq_ok {c : Circuit} {i : InterfaceRef} {a : PinAssignment}
    {slot : InterfacePinId} {us : List PinUse} (h : c.pinUses i a slot = .ok us) :
    ∀ u ∈ us, u.interfacePin = slot ∧ u.interface = i ∧ u.pin.component = i.component := by
  intro u hu
  obtain ⟨pin, _, hpin⟩ := (mem_of_mapM h).1 hu
  obtain ⟨p, hp, hu⟩ := bind_eq_ok.1 hpin
  obtain rfl := pure_eq_ok.1 hu
  exact ⟨rfl, rfl, by rw [componentPin_eq_ok hp]⟩

end Circuit

structure Pairing.On (p : Pairing) (source target : InterfaceRef) : Prop where
  source : p.source.On source
  target : p.target.On target

theorem Pairing.on_empty (source target : InterfaceRef) : ({} : Pairing).On source target where
  source := Connections.on_empty source
  target := Connections.on_empty target

namespace Fragment

variable {f : Fragment} {c : Circuit} {source target : Placed}

theorem pairCompatible_on {p q : Pairing} {a : PinAssignment}
    (hp : p.On source.1 target.1) (h : pairCompatible c source target p a = .ok q) :
    q.On source.1 target.1 := by
  rw [pairCompatible] at h
  obtain ⟨slot, _, h⟩ := bind_eq_ok.1 h
  obtain ⟨fromUses, hfrom, h⟩ := bind_eq_ok.1 h
  obtain ⟨toUses, hto, h⟩ := bind_eq_ok.1 h
  obtain rfl := pure_eq_ok.1 h
  refine ⟨hp.source.add fun u hu => (Circuit.pinUses_eq_ok hfrom u hu).2, ?_⟩
  dsimp only
  split
  · exact hp.target
  · refine hp.target.add fun u hu => ?_
    obtain ⟨us, hus, hu⟩ := List.mem_flatten.1 hu
    obtain ⟨b, _, hb⟩ := (mem_of_mapM hto).1 hus
    exact (Circuit.pinUses_eq_ok hb u hu).2

theorem pairEqual_on {p q : Pairing} {a : PinAssignment}
    (hp : p.On source.1 target.1) (h : f.pairEqual c source target p a = .ok q) :
    q.On source.1 target.1 := by
  rw [pairEqual] at h
  split at h
  · exact absurd h throw_ne_ok
  · obtain ⟨fromUses, hfrom, h⟩ := bind_eq_ok.1 h
    obtain ⟨toUses, hto, h⟩ := bind_eq_ok.1 h
    obtain rfl := pure_eq_ok.1 h
    exact ⟨hp.source.add fun u hu => (Circuit.pinUses_eq_ok hfrom u hu).2,
      hp.target.add fun u hu => (Circuit.pinUses_eq_ok hto u hu).2⟩

theorem on_insert {i : InterfaceRef} {key : InterfacePinId} {us : List PinUse}
    (hus : ∀ u ∈ us, u.interface = i ∧ u.pin.component = i.component) :
    Connections.On ((∅ : Connections).insert key us) i := by
  intro u hu
  obtain ⟨k, hk⟩ := Connections.mem_uses.1 hu
  rw [Connections.under, SortedMap.find?_insert] at hk
  split at hk
  · exact hus u hk
  · cases hk

theorem pairSingle_on {sourceType targetType : InterfaceTypeId} {q : Pairing}
    (h : pairSingle c sourceType targetType source target = .ok q) :
    q.On source.1 target.1 := by
  rw [pairSingle] at h
  split at h
  · split at h
    · obtain ⟨fromType, _, h⟩ := bind_eq_ok.1 h
      obtain ⟨toType, _, h⟩ := bind_eq_ok.1 h
      split at h
      · obtain ⟨fromUses, hfrom, h⟩ := bind_eq_ok.1 h
        obtain ⟨toUses, hto, h⟩ := bind_eq_ok.1 h
        obtain rfl := pure_eq_ok.1 h
        exact ⟨on_insert fun u hu => (Circuit.pinUses_eq_ok hfrom u hu).2,
          on_insert fun u hu => (Circuit.pinUses_eq_ok hto u hu).2⟩
      · exact pure_eq_ok.1 h ▸ Pairing.on_empty source.1 target.1
    · exact pure_eq_ok.1 h ▸ Pairing.on_empty source.1 target.1
  · exact pure_eq_ok.1 h ▸ Pairing.on_empty source.1 target.1

theorem pair_on {sourceType targetType : InterfaceTypeId} {q : Pairing}
    (h : f.pair c sourceType targetType source target = .ok q) : q.On source.1 target.1 := by
  rw [pair] at h
  obtain ⟨compatible, _, h⟩ := bind_eq_ok.1 h
  split at h
  · exact foldlM_keeps (fun _ _ _ _ hp hstep => pairCompatible_on hp hstep) (Pairing.on_empty _ _) h
  · split at h
    · exact foldlM_keeps (fun _ _ _ _ hp hstep => pairEqual_on hp hstep) (Pairing.on_empty _ _) h
    · exact pairSingle_on h

theorem keys_of_checkPairing {p : Pairing} (h : f.checkPairing c p = .ok ()) :
    p.source.keys = p.target.keys := by
  rw [checkPairing] at h
  split at h
  · exact absurd h throw_ne_ok
  · split at h
    · assumption
    · exact absurd h throw_ne_ok

/-- A pairing that passes has uses on both sides, if only under keys without pins. -/
theorem ne_empty_of_checkPairing {p : Pairing} (h : f.checkPairing c p = .ok ()) :
    p.source ≠ ∅ ∧ p.target ≠ ∅ := by
  have hkeys := keys_of_checkPairing h
  have hempty : p.source = ∅ ↔ p.target = ∅ := by
    rw [← SortedMap.keys_eq_nil, ← SortedMap.keys_eq_nil, hkeys]
  have hsource : p.source ≠ ∅ := by
    intro hsource
    rw [checkPairing, hsource, hempty.1 hsource, if_pos ⟨rfl, rfl⟩] at h
    exact throw_ne_ok h
  exact ⟨hsource, fun htarget => hsource (hempty.2 htarget)⟩

/-- A wiring between interfaces that are there, with uses on them and equal keys on both sides. -/
structure Sound (c : Circuit) (sourceNode : NodeId) (w : Wiring) : Prop where
  sourceNode : w.sourceInterface.component = sourceNode
  source : (c.interface? w.sourceInterface).isSome
  target : (c.interface? w.targetInterface).isSome
  on : w.pairing.On w.sourceInterface w.targetInterface
  keys : w.pairing.source.keys = w.pairing.target.keys

theorem sound_of_wire {sourceType targetType : InterfaceTypeId} {s t : InterfaceRef} {w : Wiring}
    (h : f.wire c sourceType targetType s t = .ok (.resolved w)) : Sound c s.component w := by
  rw [wire] at h
  obtain ⟨x, hx, h⟩ := bind_eq_ok.1 h
  obtain ⟨y, hy, h⟩ := bind_eq_ok.1 h
  obtain ⟨p, hp, h⟩ := bind_eq_ok.1 h
  obtain ⟨⟨⟩, hcheck, h⟩ := bind_eq_ok.1 h
  cases pure_eq_ok.1 h
  exact {
    sourceNode := rfl
    source := Option.isSome_iff_exists.2 ⟨x, Circuit.interface_eq_ok.1 hx⟩
    target := Option.isSome_iff_exists.2 ⟨y, Circuit.interface_eq_ok.1 hy⟩
    on := pair_on hp
    keys := keys_of_checkPairing hcheck }

end Fragment

namespace Circuit

theorem interfaceNamed_eq_ok {c : Circuit} {id : NodeId} {name : String} {type : InterfaceTypeId}
    {i : InterfaceRef} (h : c.interfaceNamed id name type = .ok i) : i.component = id := by
  rw [interfaceNamed] at h
  obtain ⟨component, _, h⟩ := bind_eq_ok.1 h
  split at h
  · exact (congrArg InterfaceRef.component (pure_eq_ok.1 h)).symm
  · exact absurd h throw_ne_ok
  · exact absurd h throw_ne_ok

theorem interfaceNamed?_eq_some {c : Circuit} {id : NodeId} {name : String}
    {type : InterfaceTypeId} {i : InterfaceRef}
    (h : c.interfaceNamed? id name type = .ok (some i)) :
    c.interfaceNamed id name type = .ok i := by
  rw [interfaceNamed?] at h
  split at h
  · rename_i j hj
    rw [hj, Option.some.inj (Except.ok.inj h)]
  · cases h
  · cases h

end Circuit

namespace Fragment

variable {f : Fragment} {c : Circuit}

/-- What deduction resolves, it wires between named interfaces of the two ends. -/
theorem wire_of_deduce {sourceNode : NodeId} {w : Wiring}
    (h : f.deduce c sourceNode = .ok (.resolved w)) : ∃ sourceType targetType source target,
      source.component = sourceNode ∧
        f.wire c sourceType targetType source target = .ok (.resolved w) := by
  rw [deduce] at h
  split at h
  · cases h
  · split at h
    · obtain ⟨target, _, h⟩ := bind_eq_ok.1 h
      split at h
      · cases h
      · rw [deduceNamed] at h
        split at h
        · obtain ⟨source?, hsource, h⟩ := bind_eq_ok.1 h
          obtain ⟨target?, _, h⟩ := bind_eq_ok.1 h
          split at h
          · have hnamed := Circuit.interfaceNamed?_eq_some hsource
            exact ⟨_, _, _, _, Circuit.interfaceNamed_eq_ok hnamed, h⟩
          · cases h
        · cases h
    · cases h

theorem sound_of_deduce {sourceNode : NodeId} {w : Wiring}
    (h : f.deduce c sourceNode = .ok (.resolved w)) : Sound c sourceNode w := by
  obtain ⟨_, _, _, _, hsource, h⟩ := wire_of_deduce h
  exact hsource ▸ sound_of_wire h

theorem ne_empty_of_deduce {sourceNode : NodeId} {w : Wiring}
    (h : f.deduce c sourceNode = .ok (.resolved w)) :
    w.pairing.source ≠ ∅ ∧ w.pairing.target ≠ ∅ := by
  obtain ⟨_, _, _, _, _, h⟩ := wire_of_deduce h
  obtain ⟨_, _, h⟩ := bind_eq_ok.1 h
  obtain ⟨_, _, h⟩ := bind_eq_ok.1 h
  obtain ⟨p, _, h⟩ := bind_eq_ok.1 h
  obtain ⟨⟨⟩, hcheck, h⟩ := bind_eq_ok.1 h
  cases pure_eq_ok.1 h
  exact ne_empty_of_checkPairing hcheck

end Fragment
end BoardNets
