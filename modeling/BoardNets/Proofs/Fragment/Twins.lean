import BoardNets.Proofs.Circuit.Steady
import BoardNets.Proofs.Fragment.Pairing

/-! Components with the same pins and interfaces. What is deduced with one of them as the target is
deduced with the other one, but for the component that the uses are on: each way to pair two
interfaces commutes with moving the uses of the target's side from the one to the other. -/
namespace BoardNets

def PinUse.onto (x : NodeId) (u : PinUse) : PinUse where
  pin := ⟨x, u.pin.pin⟩
  interfacePin := u.interfacePin
  interface := ⟨x, u.interface.index⟩

def Connections.onto (x : NodeId) (c : Connections) : Connections :=
  c.mapValues (List.map (PinUse.onto x))

theorem Connections.onto_add (x : NodeId) (c : Connections) (key : InterfacePinId)
    (us : List PinUse) : (c.add key us).onto x = (c.onto x).add key (us.map (PinUse.onto x)) := by
  refine SortedMap.ext fun k => ?_
  simp only [onto, add, SortedMap.find?_mapValues, SortedMap.find?_update]
  by_cases h : k = key
  · subst h
    cases c.find? k <;> simp
  · simp [h]

theorem Connections.onto_insert (x : NodeId) (key : InterfacePinId) (us : List PinUse) :
    Connections.onto x ((∅ : Connections).insert key us) =
      (∅ : Connections).insert key (us.map (PinUse.onto x)) := by
  refine SortedMap.ext fun k => ?_
  simp only [onto, SortedMap.find?_mapValues, SortedMap.find?_insert, SortedMap.find?_empty]
  split <;> rfl

/-- Connections whose uses are all on the component are the same there. -/
theorem Connections.onto_eq_self {x : NodeId} {c : Connections}
    (h : ∀ u ∈ c.uses, u.onto x = u) : c.onto x = c := by
  refine SortedMap.ext fun k => ?_
  rw [onto, SortedMap.find?_mapValues]
  cases hk : c.find? k with
  | none => rfl
  | some us =>
    refine congrArg some ((List.map_congr_left fun u hu => h u ?_).trans (List.map_id us))
    exact Connections.mem_uses.2 ⟨k, by rwa [Connections.under, hk]⟩

/-- The pairing with its target's side on another component. -/
def Pairing.onto (x : NodeId) (p : Pairing) : Pairing :=
  { p with target := p.target.onto x }

def Wiring.onto (x : NodeId) (w : Wiring) : Wiring where
  sourceInterface := w.sourceInterface
  targetInterface := ⟨x, w.targetInterface.index⟩
  pairing := w.pairing.onto x

namespace Circuit

variable {c : Circuit} {a b : NodeId}

def Twins (c : Circuit) (a b : NodeId) : Prop :=
  ∃ p q, c.component? a = some p ∧ c.component? b = some q ∧ q.pins = p.pins ∧
    q.interfaces.map ComponentInterface.idle = p.interfaces.map ComponentInterface.idle

theorem twins_of_stock {p q : Component} (ha : c.component? a = some p)
    (hb : c.component? b = some q) (hp : p.Stock c.catalog) (hq : q.Stock c.catalog)
    (h : q.connectivity = p.connectivity) : c.Twins a b := by
  rw [Component.Stock, h] at hq
  obtain ⟨hpins, hinterfaces⟩ := Prod.mk.inj (Except.ok.inj (hq.symm.trans hp))
  exact ⟨p, q, ha, hb, hpins, hinterfaces⟩

theorem matching_congr {p q : Component} (h : q.interfaces.map ComponentInterface.idle =
    p.interfaces.map ComponentInterface.idle) (name : String) (type : InterfaceTypeId) :
    matching q name type = matching p name type := by
  have houtline : matching q.outline name type = matching p.outline name type := by
    rw [matching, matching, Component.outline, Component.outline, h]
  rw [← matching_outline, houtline, matching_outline]

theorem Twins.interfaceNamed? (h : c.Twins a b) {name : String} {type : InterfaceTypeId}
    {i : InterfaceRef} (hi : c.interfaceNamed? a name type = .ok (some i)) :
    i.component = a ∧ c.interfaceNamed? b name type = .ok (some ⟨b, i.index⟩) := by
  obtain ⟨p, q, hp, hq, _, hinterfaces⟩ := h
  rw [interfaceNamed?_eq_ok_some, interfaceNamed_eq_ok_iff] at hi ⊢
  obtain ⟨ha, p', hp', hmatching⟩ := hi
  obtain rfl := Option.some.inj (hp.symm.trans hp')
  exact ⟨ha, rfl, q, hq, (matching_congr hinterfaces name type).trans hmatching⟩

theorem Twins.interface (h : c.Twins a b) {k : Nat} {i : ComponentInterface}
    (hi : c.interface ⟨a, k⟩ = .ok i) :
    ∃ j, c.interface ⟨b, k⟩ = .ok j ∧ j.interface = i.interface := by
  obtain ⟨p, q, hp, hq, _, hinterfaces⟩ := h
  simp only [interface_eq_ok, interface?, hp, hq, Option.bind_some] at hi ⊢
  have hk := congrArg (·[k]?) hinterfaces
  simp only [List.getElem?_map, hi, Option.map_some, Option.map_eq_some_iff] at hk
  obtain ⟨j, hj, hidle⟩ := hk
  exact ⟨j, hj, (ComponentInterface.mk.inj hidle).2.1⟩

theorem Twins.pinUses (h : c.Twins a b) {k : Nat} {asg : PinAssignment} {slot : InterfacePinId}
    {us : List PinUse} (hus : c.pinUses ⟨a, k⟩ asg slot = .ok us) :
    c.pinUses ⟨b, k⟩ asg slot = .ok (us.map (PinUse.onto b)) := by
  obtain ⟨p, q, hp, hq, hpins, _⟩ := h
  refine mapM_translated hus fun pin _ u hu => ?_
  obtain ⟨place, hplace, hu⟩ := bind_eq_ok.1 hu
  obtain rfl := pure_eq_ok.1 hu
  obtain rfl := componentPin_eq_ok hplace
  refine bind_eq_ok.2 ⟨⟨b, pin⟩, ?_, rfl⟩
  obtain ⟨physical, hphysical, -⟩ := bind_eq_ok.1 hplace
  refine bind_eq_ok.2 ⟨physical, ?_, rfl⟩
  obtain ⟨p', hp', hphysical⟩ := bind_eq_ok.1 hphysical
  obtain rfl := Option.some.inj (hp.symm.trans (component_eq_ok.1 hp'))
  refine bind_eq_ok.2 ⟨q, component_eq_ok.2 hq, ?_⟩
  rw [elim_throw_eq_ok] at hphysical ⊢
  rw [← hphysical, Component.pin?, Component.pin?, hpins]

end Circuit

namespace Fragment

variable {f g : Fragment} {c : Circuit} {a b : NodeId}

theorem checkPairing_onto {p : Pairing} (hp : f.checkPairing c p = .ok ⟨⟩) :
    g.checkPairing c (p.onto b) = .ok ⟨⟩ := by
  have hkeys : (p.onto b).target.keys = p.target.keys := SortedMap.keys_mapValues _ _
  have hempty : (p.onto b).target.isEmpty = p.target.isEmpty := SortedMap.isEmpty_mapValues _ _
  have hsource : (p.onto b).source = p.source := rfl
  rw [checkPairing, hkeys, hempty, hsource]
  rw [checkPairing] at hp
  split at hp
  · exact absurd hp throw_ne_ok
  · rename_i hsome
    rw [if_neg hsome]
    split at hp
    · rename_i hsame
      exact if_pos hsame
    · exact absurd hp throw_ne_ok

theorem target_of_deduceNamed {sourceType targetType : InterfaceTypeId} {w : Wiring}
    (hw : f.deduceNamed c sourceType targetType a b = .ok (.resolved w)) :
    w.targetInterface.component = b := by
  rw [deduceNamed] at hw
  split at hw
  · obtain ⟨i?, _, hafter⟩ := bind_eq_ok.1 hw
    obtain ⟨j?, hj, hwired⟩ := bind_eq_ok.1 hafter
    split at hwired
    · obtain ⟨_, _, hwired⟩ := bind_eq_ok.1 hwired
      obtain ⟨_, _, hwired⟩ := bind_eq_ok.1 hwired
      obtain ⟨_, _, hwired⟩ := bind_eq_ok.1 hwired
      obtain ⟨_, _, hwired⟩ := bind_eq_ok.1 hwired
      obtain rfl := Deduction.resolved.inj (pure_eq_ok.1 hwired)
      exact Circuit.interfaceNamed_eq_ok (Circuit.interfaceNamed?_eq_some hj)
    · cases hwired
  · cases hw

section Twins

variable (h : c.Twins a b) {k : Nat} {source : Placed} {assignments : List PinAssignment}
  {p q : Pairing}
include h

theorem pairCompatible_twin {asg : PinAssignment}
    (hp : pairCompatible c source (⟨a, k⟩, assignments) p asg = .ok q) :
    pairCompatible c source (⟨b, k⟩, assignments) (p.onto b) asg = .ok (q.onto b) := by
  obtain ⟨slot, hslot, hp⟩ := bind_eq_ok.1 hp
  obtain ⟨fromUses, hfrom, hp⟩ := bind_eq_ok.1 hp
  obtain ⟨toUses, hto, hp⟩ := bind_eq_ok.1 hp
  obtain rfl := pure_eq_ok.1 hp
  refine bind_eq_ok.2 ⟨slot, hslot, bind_eq_ok.2 ⟨fromUses, hfrom, bind_eq_ok.2
    ⟨toUses.map (List.map (PinUse.onto b)), ?_, ?_⟩⟩⟩
  · exact mapM_translated hto fun _ _ _ hus => h.pinUses hus
  · refine congrArg Except.ok (Pairing.mk.injEq .. ▸ ⟨rfl, ?_⟩)
    dsimp only [Pairing.onto]
    split
    · rfl
    · rw [Connections.onto_add, List.map_flatten]

theorem pairEqual_twin {asg : PinAssignment}
    (hp : f.pairEqual c source (⟨a, k⟩, assignments) p asg = .ok q) :
    g.pairEqual c source (⟨b, k⟩, assignments) (p.onto b) asg = .ok (q.onto b) := by
  rw [pairEqual] at hp ⊢
  dsimp only at hp ⊢
  split at hp
  · exact absurd hp throw_ne_ok
  · rename_i partner hpartner
    obtain ⟨fromUses, hfrom, hp⟩ := bind_eq_ok.1 hp
    obtain ⟨toUses, hto, hp⟩ := bind_eq_ok.1 hp
    obtain rfl := pure_eq_ok.1 hp
    refine bind_eq_ok.2 ⟨fromUses, hfrom, bind_eq_ok.2 ⟨_, h.pinUses hto, ?_⟩⟩
    rw [Pairing.onto, Pairing.onto, Connections.onto_add]
    rfl

theorem pairSingle_twin {sourceType targetType : InterfaceTypeId}
    (hp : pairSingle c sourceType targetType source (⟨a, k⟩, assignments) = .ok q) :
    pairSingle c sourceType targetType source (⟨b, k⟩, assignments) = .ok (q.onto b) := by
  rw [pairSingle] at hp ⊢
  dsimp only at hp ⊢
  split at hp
  · split at hp
    · rename_i hwidth
      obtain ⟨fromType, hfromType, hp⟩ := bind_eq_ok.1 hp
      obtain ⟨toType, htoType, hp⟩ := bind_eq_ok.1 hp
      rw [if_pos hwidth]
      refine bind_eq_ok.2 ⟨fromType, hfromType, bind_eq_ok.2 ⟨toType, htoType, ?_⟩⟩
      split at hp
      · obtain ⟨fromUses, hfrom, hp⟩ := bind_eq_ok.1 hp
        obtain ⟨toUses, hto, hp⟩ := bind_eq_ok.1 hp
        obtain rfl := pure_eq_ok.1 hp
        refine bind_eq_ok.2 ⟨fromUses, hfrom, bind_eq_ok.2 ⟨_, h.pinUses hto, ?_⟩⟩
        rw [Pairing.onto, Connections.onto_insert]
        rfl
      · obtain rfl := pure_eq_ok.1 hp
        rfl
    · rename_i hwidth
      obtain rfl := pure_eq_ok.1 hp
      rw [if_neg hwidth]
      rfl
  · obtain rfl := pure_eq_ok.1 hp
    rfl

theorem pair_twin {sourceType targetType : InterfaceTypeId}
    (hp : f.pair c sourceType targetType source (⟨a, k⟩, assignments) = .ok q) :
    g.pair c sourceType targetType source (⟨b, k⟩, assignments) = .ok (q.onto b) := by
  rw [pair] at hp ⊢
  obtain ⟨compatible, hcompatible, hp⟩ := bind_eq_ok.1 hp
  refine bind_eq_ok.2 ⟨compatible, hcompatible, ?_⟩
  split at hp
  · rename_i hyes
    rw [if_pos hyes]
    exact foldlM_translated hp fun _ _ _ _ => pairCompatible_twin h
  · rename_i hno
    rw [if_neg hno]
    split at hp
    · rename_i hequal
      rw [if_pos hequal]
      exact foldlM_translated hp fun _ _ _ _ => pairEqual_twin h
    · rename_i hdiffer
      rw [if_neg hdiffer]
      exact pairSingle_twin h hp

theorem wire_twin {sourceType targetType : InterfaceTypeId} {s : InterfaceRef} {w : Wiring}
    (hw : f.wire c sourceType targetType s ⟨a, k⟩ = .ok (.resolved w)) :
    g.wire c sourceType targetType s ⟨b, k⟩ = .ok (.resolved (w.onto b)) := by
  obtain ⟨i, hi, hw⟩ := bind_eq_ok.1 hw
  obtain ⟨j, hj, hw⟩ := bind_eq_ok.1 hw
  obtain ⟨p, hp, hw⟩ := bind_eq_ok.1 hw
  obtain ⟨⟨⟩, hcheck, hw⟩ := bind_eq_ok.1 hw
  obtain ⟨j', hj', hsame⟩ := h.interface hj
  obtain rfl := Deduction.resolved.inj (pure_eq_ok.1 hw)
  refine bind_eq_ok.2 ⟨i, hi, bind_eq_ok.2 ⟨j', hj', bind_eq_ok.2 ⟨p.onto b, ?_, ?_⟩⟩⟩
  · rw [hsame]
    exact pair_twin h hp
  · exact bind_eq_ok.2 ⟨⟨⟩, checkPairing_onto hcheck, rfl⟩

theorem deduceNamed_twin {sourceType targetType : InterfaceTypeId} {s : NodeId} {w : Wiring}
    (hsource : g.source.interface = f.source.interface)
    (htarget : g.target.interface = f.target.interface)
    (hw : f.deduceNamed c sourceType targetType s a = .ok (.resolved w)) :
    g.deduceNamed c sourceType targetType s b = .ok (.resolved (w.onto b)) := by
  rw [deduceNamed] at hw ⊢
  rw [hsource, htarget]
  split at hw
  · obtain ⟨i?, hi, hafter⟩ := bind_eq_ok.1 hw
    obtain ⟨j?, hj, hwired⟩ := bind_eq_ok.1 hafter
    refine bind_eq_ok.2 ⟨i?, hi, ?_⟩
    split at hwired
    · rename_i i j
      obtain ⟨rfl, hb⟩ := h.interfaceNamed? hj
      exact bind_eq_ok.2 ⟨some ⟨b, j.index⟩, hb, wire_twin h hwired⟩
    · cases hwired
  · cases hw

end Twins

end Fragment

end BoardNets
