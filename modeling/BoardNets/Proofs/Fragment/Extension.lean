import BoardNets.Proofs.Ancillary.Extension
import BoardNets.Proofs.Circuit.Resolution

/-! Deduction in circuits that extend others. A fragment between nodes of the smaller circuit is
completed in the larger one with the same connections, so it does not matter how much of a circuit
is there when a fragment is required. -/
namespace BoardNets

variable {c c' : Circuit}

namespace Circuit

theorem has_of_node {x : NodeId} {n : Node} (h : c.node x = .ok n) : c.Has x := by
  rw [Has, node_eq_ok.1 h]
  rfl

theorem Extends.pinUses (h : c.Extends c') {i : InterfaceRef} {a : PinAssignment}
    {slot : InterfacePinId} {uses : List PinUse} (huses : c.pinUses i a slot = .ok uses) :
    c'.pinUses i a slot = .ok uses := by
  refine mapM_mono huses fun pin _ u hu => ?_
  obtain ⟨p, hp, hu⟩ := bind_eq_ok.1 hu
  exact bind_eq_ok.2 ⟨p, h.componentPin_eq_ok hp, hu⟩

end Circuit

namespace Fragment

variable {f g : Fragment} {source target : Placed} {sourceType targetType : InterfaceTypeId}

theorem targetComponent?_mono (h : c.Extends c') {t : Option NodeId}
    (ht : f.targetComponent? c = .ok t) : f.targetComponent? c' = .ok t := by
  obtain ⟨n, hn, ht⟩ := bind_eq_ok.1 ht
  obtain ⟨n', hn', hlike⟩ := h.nodes _ n (Circuit.node_eq_ok.1 hn)
  refine bind_eq_ok.2 ⟨n', Circuit.node_eq_ok.2 hn', ?_⟩
  cases hlike with
  | component children ancillary => exact ht
  | filter k =>
    obtain ⟨connectivities, hconnectivities, ht⟩ := bind_eq_ok.1 ht
    refine bind_eq_ok.2 ⟨connectivities, mapM_mono hconnectivities fun x _ _ hx => ?_, ht⟩
    obtain ⟨p, hp, hx⟩ := bind_eq_ok.1 hx
    obtain ⟨children, ancillary, hp'⟩ := h.component (Circuit.component_eq_ok.1 hp)
    exact bind_eq_ok.2 ⟨_, Circuit.component_eq_ok.2 hp', hx⟩

theorem has_of_targetComponent? {t : NodeId} (ht : f.targetComponent? c = .ok (some t)) :
    c.Has t := by
  obtain ⟨n, hn, ht⟩ := bind_eq_ok.1 ht
  cases n with
  | component p =>
    obtain rfl := Option.some.inj (pure_eq_ok.1 ht)
    exact Circuit.has_of_node hn
  | filter k =>
    obtain ⟨connectivities, hconnectivities, ht⟩ := bind_eq_ok.1 ht
    split at ht
    · cases ht
    · rename_i first rest hfeasible
      split at ht
      · obtain rfl := Option.some.inj (pure_eq_ok.1 ht)
        obtain ⟨_, hfirst⟩ := exists_mapM_iff.1 ⟨_, hconnectivities⟩ first (by simp [hfeasible])
        obtain ⟨p, hp, _⟩ := bind_eq_ok.1 hfirst
        exact Circuit.has_of_component? (Circuit.component_eq_ok.1 hp)
      · cases ht

theorem pairCompatible_mono (h : c.Extends c') {p q : Pairing} {a : PinAssignment}
    (hq : pairCompatible c source target p a = .ok q) :
    pairCompatible c' source target p a = .ok q := by
  obtain ⟨slot, hslot, hq⟩ := bind_eq_ok.1 hq
  obtain ⟨fromUses, hfrom, hq⟩ := bind_eq_ok.1 hq
  obtain ⟨toUses, hto, hq⟩ := bind_eq_ok.1 hq
  refine bind_eq_ok.2 ⟨slot, by rwa [h.catalog], bind_eq_ok.2 ⟨fromUses, h.pinUses hfrom, ?_⟩⟩
  exact bind_eq_ok.2 ⟨toUses, mapM_mono hto fun _ _ _ hb => h.pinUses hb, hq⟩

theorem pairEqual_mono (h : c.Extends c') {p q : Pairing} {a : PinAssignment}
    (hq : f.pairEqual c source target p a = .ok q) :
    f.pairEqual c' source target p a = .ok q := by
  rw [pairEqual] at hq ⊢
  split at hq
  · exact absurd hq throw_ne_ok
  · obtain ⟨fromUses, hfrom, hq⟩ := bind_eq_ok.1 hq
    obtain ⟨toUses, hto, hq⟩ := bind_eq_ok.1 hq
    exact bind_eq_ok.2 ⟨fromUses, h.pinUses hfrom, bind_eq_ok.2 ⟨toUses, h.pinUses hto, hq⟩⟩

theorem pairSingle_mono (h : c.Extends c') {q : Pairing}
    (hq : pairSingle c sourceType targetType source target = .ok q) :
    pairSingle c' sourceType targetType source target = .ok q := by
  rw [pairSingle] at hq ⊢
  split at hq
  · split at hq
    · obtain ⟨fromType, hfromType, hq⟩ := bind_eq_ok.1 hq
      obtain ⟨toType, htoType, hq⟩ := bind_eq_ok.1 hq
      rw [if_pos ‹_›, h.catalog]
      refine bind_eq_ok.2 ⟨fromType, hfromType, bind_eq_ok.2 ⟨toType, htoType, ?_⟩⟩
      split at hq
      · obtain ⟨fromUses, hfrom, hq⟩ := bind_eq_ok.1 hq
        obtain ⟨toUses, hto, hq⟩ := bind_eq_ok.1 hq
        exact bind_eq_ok.2 ⟨fromUses, h.pinUses hfrom, bind_eq_ok.2 ⟨toUses, h.pinUses hto, hq⟩⟩
      · exact hq
    · rw [if_neg ‹_›]
      exact hq
  · exact hq

theorem pair_mono (h : c.Extends c') {q : Pairing}
    (hq : f.pair c sourceType targetType source target = .ok q) :
    f.pair c' sourceType targetType source target = .ok q := by
  obtain ⟨compatible, hcompatible, hq⟩ := bind_eq_ok.1 hq
  refine bind_eq_ok.2 ⟨compatible, by rwa [h.catalog], ?_⟩
  cases compatible with
  | true => exact foldlM_mono hq fun _ _ _ _ hstep => pairCompatible_mono h hstep
  | false =>
    by_cases htypes : sourceType = targetType
    · simp only [htypes, if_true, Bool.false_eq_true, if_false] at hq ⊢
      exact foldlM_mono hq fun _ _ _ _ hstep => pairEqual_mono h hstep
    · simp only [htypes, Bool.false_eq_true, if_false] at hq ⊢
      exact pairSingle_mono h hq

theorem wire_mono (h : c.Extends c') (hf : f.Anchored c) {source target : InterfaceRef}
    {answer : Deduction} (hw : f.wire c sourceType targetType source target = .ok answer) :
    f.wire c' sourceType targetType source target = .ok answer := by
  obtain ⟨x, hx, hw⟩ := bind_eq_ok.1 hw
  obtain ⟨y, hy, hw⟩ := bind_eq_ok.1 hw
  obtain ⟨q, hq, hw⟩ := bind_eq_ok.1 hw
  obtain ⟨⟨⟩, hcheck, hw⟩ := bind_eq_ok.1 hw
  refine bind_eq_ok.2 ⟨x, (h.interface (Circuit.has_of_interface hx)).trans hx, ?_⟩
  refine bind_eq_ok.2 ⟨y, (h.interface (Circuit.has_of_interface hy)).trans hy, ?_⟩
  refine bind_eq_ok.2 ⟨q, pair_mono h hq, bind_eq_ok.2 ⟨⟨⟩, ?_, hw⟩⟩
  rwa [checkPairing, describe_extends h hf]

theorem deduceNamed_mono (h : c.Extends c') (hf : f.Anchored c) {s t : NodeId} (hs : c.Has s)
    (ht : c.Has t) {answer : Deduction}
    (hd : f.deduceNamed c sourceType targetType s t = .ok answer) :
    f.deduceNamed c' sourceType targetType s t = .ok answer := by
  rw [deduceNamed] at hd ⊢
  split at hd
  · simp only [h.interfaceNamed? hs, h.interfaceNamed? ht]
    obtain ⟨i, hi, hd⟩ := bind_eq_ok.1 hd
    obtain ⟨j, hj, hd⟩ := bind_eq_ok.1 hd
    refine bind_eq_ok.2 ⟨i, hi, bind_eq_ok.2 ⟨j, hj, ?_⟩⟩
    split at hd
    · exact wire_mono h hf hd
    · exact hd
  · exact hd

theorem deduce_mono (h : c.Extends c') (hf : f.Anchored c) {s : NodeId} (hs : c.Has s)
    {answer : Deduction} (hd : f.deduce c s = .ok answer) : f.deduce c' s = .ok answer := by
  rw [deduce] at hd ⊢
  rw [sourceType_extends h hf, targetType_extends h hf]
  split at hd
  · exact hd
  · split at hd
    · obtain ⟨t?, ht, hd⟩ := bind_eq_ok.1 hd
      refine bind_eq_ok.2 ⟨t?, targetComponent?_mono h ht, ?_⟩
      cases t? with
      | none => exact hd
      | some t => exact deduceNamed_mono h hf hs (has_of_targetComponent? ht) hd
    · exact hd

/-- A fragment is completed in a larger circuit as it is in a smaller one. -/
theorem completed_mono (h : c.Extends c') (hf : f.Anchored c) (hg : f.completed c = .ok g) :
    f.completed c' = .ok g := by
  obtain ⟨n, hn, hg⟩ := bind_eq_ok.1 hg
  obtain ⟨n', hn', hlike⟩ := h.nodes _ n (Circuit.node_eq_ok.1 hn)
  refine bind_eq_ok.2 ⟨n', Circuit.node_eq_ok.2 hn', ?_⟩
  cases hlike with
  | filter k => exact hg
  | component children ancillary =>
    obtain ⟨answer, hanswer, hg⟩ := bind_eq_ok.1 hg
    exact bind_eq_ok.2 ⟨answer, deduce_mono h hf (hf .source) hanswer, hg⟩

end Fragment
end BoardNets
