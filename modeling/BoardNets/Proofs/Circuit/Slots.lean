import BoardNets.Proofs.Circuit.Additions
import BoardNets.Proofs.Circuit.Reordering

/-! The slot that a pin is used as. A component's pin takes the slot of its first active use: on the
first interface that uses it, under the first key. Uses under one key stand in the order in which
their fragments were required, so the slot does not depend on that order where an interface uses a
pin as one slot under each key. -/
namespace BoardNets

/-- The slot that an interface uses a pin as, by the first use of it. -/
def ComponentInterface.slotOf (x : ComponentInterface) (p : ComponentPin) :
    Option InterfacePinId :=
  (x.uses.uses.find? fun u => u.pin = p).map PinUse.interfacePin

def Connections.OneSlot (c : Connections) : Prop :=
  ∀ key, ∀ u ∈ c.under key, ∀ v ∈ c.under key, u.pin = v.pin → u.interfacePin = v.interfacePin

namespace Connections

variable {c c' : Connections} {P : PinUse → Bool}

/-- The first use of some kind is the first one under the first key that has one. -/
theorem find?_uses_eq_some {u : PinUse} (h : c.uses.find? P = some u) :
    ∃ key, (c.under key).find? P = some u ∧
      ∀ k, compare k key = .lt → (c.under k).find? P = none := by
  rw [uses, SortedMap.values, List.find?_flatten, List.findSome?_map,
    List.findSome?_eq_some_iff] at h
  obtain ⟨before, ⟨key, us⟩, after, hlist, hu, hnone⟩ := h
  have hunder {k : InterfacePinId} {vs : List PinUse} (hvs : (k, vs) ∈ c.toList) :
      c.under k = vs := by
    rw [under, SortedMap.find?_eq_some_iff.2 hvs, Option.getD_some]
  have hin : (key, us) ∈ c.toList := by simp [hlist]
  refine ⟨key, by rwa [hunder hin], fun k hk => ?_⟩
  cases hfind : c.find? k with
  | none => rw [under, hfind, Option.getD_none, List.find?_nil]
  | some vs =>
    have hvs := SortedMap.find?_eq_some_iff.1 hfind
    rw [hunder hvs]
    have hincreasing := c.increasing
    rw [hlist, List.pairwise_append, List.pairwise_cons] at hincreasing
    rw [hlist, List.mem_append, List.mem_cons] at hvs
    rcases hvs with hvs | hvs | hvs
    · exact hnone _ hvs
    · obtain ⟨rfl, rfl⟩ := Prod.mk.inj hvs
      rw [Std.compare_self] at hk
      cases hk
    · have hgt : compare key k = .lt := hincreasing.2.1.1 _ hvs
      rw [Std.OrientedCmp.gt_iff_lt.2 hgt] at hk
      cases hk

theorem find?_uses_eq_none : c.uses.find? P = none ↔ ∀ key, (c.under key).find? P = none := by
  simp only [List.find?_eq_none, mem_uses, forall_exists_index]
  exact forall_comm

/-- What is read off the first use of some kind is decided key by key. -/
theorem find?_uses_congr {β : Type} {F : PinUse → β}
    (h : ∀ key, ((c'.under key).find? P).map F = ((c.under key).find? P).map F) :
    (c'.uses.find? P).map F = (c.uses.find? P).map F := by
  have hnone (key : InterfacePinId) :
      (c'.under key).find? P = none ↔ (c.under key).find? P = none := by
    rw [← Option.map_eq_none_iff (f := F), h, Option.map_eq_none_iff]
  cases hu : c.uses.find? P with
  | none => rw [find?_uses_eq_none.2 fun key => (hnone key).2 (find?_uses_eq_none.1 hu key)]
  | some u =>
    cases hv : c'.uses.find? P with
    | none =>
      rw [find?_uses_eq_none.2 fun key => (hnone key).1 (find?_uses_eq_none.1 hv key)] at hu
      cases hu
    | some v =>
      obtain ⟨key, hukey, hufirst⟩ := find?_uses_eq_some hu
      obtain ⟨key', hvkey, hvfirst⟩ := find?_uses_eq_some hv
      -- neither of the two keys comes before the other
      have hkeys : key = key' := by
        cases hcompare : compare key key' with
        | lt =>
          rw [(hnone key).1 (hvfirst key hcompare)] at hukey
          cases hukey
        | eq => exact Std.LawfulEqOrd.eq_of_compare hcompare
        | gt =>
          rw [(hnone key').2 (hufirst key' (Std.OrientedCmp.gt_iff_lt.1 hcompare))] at hvkey
          cases hvkey
      subst hkeys
      rw [← hukey, ← hvkey, h]

end Connections

namespace ComponentInterface

variable {x y : ComponentInterface} {p : ComponentPin}

/-- The order of uses under one key does not matter for a pin with one slot. -/
theorem slotOf_congr (hx : x.uses.OneSlot)
    (h : ∀ key, (y.uses.under key).Perm (x.uses.under key)) : y.slotOf p = x.slotOf p := by
  refine Connections.find?_uses_congr fun key => ?_
  cases hu : (x.uses.under key).find? fun u => u.pin = p with
  | none =>
    rw [List.find?_eq_none] at hu
    rw [List.find?_eq_none.2 fun v hv => hu v ((h key).mem_iff.1 hv)]
  | some u =>
    cases hv : (y.uses.under key).find? fun u => u.pin = p with
    | none =>
      have hmem := (h key).mem_iff.2 (List.mem_of_find?_eq_some hu)
      exact absurd (List.find?_some hu) (List.find?_eq_none.1 hv u hmem)
    | some v =>
      have hmem := (h key).mem_iff.1 (List.mem_of_find?_eq_some hv)
      have hup := List.find?_some hu
      have hvp := List.find?_some hv
      have hpins : v.pin = u.pin := (of_decide_eq_true hvp).trans (of_decide_eq_true hup).symm
      exact congrArg some (hx key v hmem u (List.mem_of_find?_eq_some hu) hpins)

end ComponentInterface

namespace Circuit

variable {c c' : Circuit} {p : ComponentPin} {slot : Option InterfacePinId}

theorem assignedInterfacePin_eq_ok (hc : c.Marked) : c.assignedInterfacePin p = .ok slot ↔
    ∃ part, c.component p.component = .ok part ∧
      (part.interfaces.map (·.slotOf p)).findSome? id = slot := by
  simp only [assignedInterfacePin, bind_eq_ok, pure_eq_ok]
  refine exists_congr fun part => and_congr_right fun hpart => ?_
  have hidle : ∀ x ∈ part.interfaces, ¬x.active = true → x.uses.uses = [] := by
    intro x hx hactive
    have hmarked := hc p.component
    rw [component?_eq_some.1 (component_eq_ok.1 hpart)] at hmarked
    rw [Decidable.not_not.1 (mt (hmarked x hx).2 hactive)]
    rfl
  rw [← flatMap_filter (fun _ _ _ => rfl) hidle, List.find?_flatMap, List.map_findSome?,
    List.findSome?_map]
  rfl

theorem exists_component_of_frame (h : c'.frame = c.frame) {x : NodeId} {part : Component}
    (hpart : c.component x = .ok part) :
    ∃ part', c'.component x = .ok part' ∧ part'.frame = part.frame := by
  have hframe := component_frame (c := c') x
  rw [h, component_frame, hpart] at hframe
  cases hpart' : c'.component x with
  | error e =>
    rw [hpart'] at hframe
    cases hframe
  | ok part' =>
    rw [hpart'] at hframe
    exact ⟨part', rfl, (Except.ok.inj hframe).symm⟩

def SameSlots (c c' : Circuit) : Prop := ∀ p slot,
  c.assignedInterfacePin p = .ok slot → c'.assignedInterfacePin p = .ok slot

theorem sameSlots_of_interfaces (hframe : c'.frame = c.frame) (hc : c.Marked) (hc' : c'.Marked)
    (h : ∀ i x y, c.interface? i = some x → c'.interface? i = some y →
      ∀ p, y.slotOf p = x.slotOf p) : c.SameSlots c' := by
  intro p slot hslot
  rw [assignedInterfacePin_eq_ok hc] at hslot
  obtain ⟨part, hpart, rfl⟩ := hslot
  obtain ⟨part', hpart', hparts⟩ := exists_component_of_frame hframe hpart
  refine (assignedInterfacePin_eq_ok hc').2 ⟨part', hpart', ?_⟩
  have hlength : part'.interfaces.length = part.interfaces.length := by
    simpa [Component.frame] using congrArg (·.interfaces.length) hparts
  have hinterface {d : Circuit} {part : Component} (hpart : d.component p.component = .ok part)
      {k : Nat} : d.interface? ⟨p.component, k⟩ = part.interfaces[k]? := by
    rw [interface?, component_eq_ok.1 hpart, Option.bind_some]
  congr 1
  refine List.ext_getElem? fun k => ?_
  rw [List.getElem?_map, List.getElem?_map]
  cases hx : part.interfaces[k]? with
  | none =>
    rw [List.getElem?_eq_none_iff, ← hlength, ← List.getElem?_eq_none_iff] at hx
    rw [hx]
  | some x =>
    have hlt : k < part'.interfaces.length := hlength ▸ (List.getElem?_eq_some_iff.1 hx).1
    have hy := List.getElem?_eq_getElem hlt
    rw [hy]
    exact congrArg some (h _ _ _ ((hinterface hpart).trans hx) ((hinterface hpart').trans hy) p)

def OneSlot (c : Circuit) : Prop := ∀ i, (c.usesOf i).OneSlot

/-- Pins with one slot each have it in whatever order fragments are required. -/
theorem Reordered.sameSlots (h : c.Reordered c') (hc : c.OneSlot) : c.SameSlots c' := by
  refine sameSlots_of_interfaces h.frame h.orderly.1.reachable.marked h.orderly.2.reachable.marked
    fun i x y hx hy p => ComponentInterface.slotOf_congr ?_ fun key => ?_
  · rw [← usesOf_of_interface (interface_eq_ok.2 hx)]
    exact hc i
  · rw [← usesOf_of_interface (interface_eq_ok.2 hx), ← usesOf_of_interface (interface_eq_ok.2 hy)]
    exact h.perm_under i key

end Circuit
end BoardNets
