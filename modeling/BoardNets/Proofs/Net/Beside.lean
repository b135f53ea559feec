import BoardNets.Proofs.Bus.Sources
import BoardNets.Proofs.Net.Idle
import BoardNets.Proofs.Net.Shape

/-! Names beside idle parts. What the name of a net is made from is read off pins that were there:
those of the net, the pins that its ancillaries attach to, and the pins that drive them. -/
namespace BoardNets
namespace Circuit

variable {c c' : Circuit} {added : List NodeId}

theorem Balanced.has_of_nonAncillaryPins (hc : c.Balanced) {pins : SortedSet ComponentPin}
    (hpins : ∀ p ∈ pins, c.Has p.component) {bus : Bus} {stand : SortedSet ComponentPin}
    (h : c.nonAncillaryPins pins bus = .ok stand) : ∀ p ∈ stand, c.Has p.component := by
  rw [nonAncillaryPins_eq] at h
  obtain ⟨busPins, _, h⟩ := bind_eq_ok.1 h
  obtain ⟨lists, hlists, h⟩ := bind_eq_ok.1 h
  obtain rfl := pure_eq_ok.1 h
  intro p hp
  obtain ⟨list, hlist, hp⟩ := List.mem_flatten.1 (SortedSet.mem_ofList.1 hp)
  obtain ⟨q, hq, hlist⟩ := (mem_of_mapM hlists).1 hlist
  obtain ⟨part, _, hlist⟩ := bind_eq_ok.1 hlist
  cases ha : part.ancillary with
  | none =>
    rw [ha] at hlist
    obtain rfl := pure_eq_ok.1 hlist
    exact List.mem_singleton.1 hp ▸ hpins q hq
  | some a =>
    rw [ha] at hlist
    obtain ⟨parents, hparents, hlist⟩ := bind_eq_ok.1 hlist
    obtain rfl := pure_eq_ok.1 hlist
    exact hc.has_of_parentPins hparents p (List.mem_filter.1 hp).1

namespace Idles

variable (h : c.Idles c' added)
include h

/-- What depends on the role of a part is as before, as far as it looks at the parent's pins. -/
theorem role_bind {β : Type} {x : NodeId} (hx : c.Has x) (plain : Result β)
    (role : Result (SortedSet ComponentPin) → Result β) :
    (do
      match (← c'.component x).ancillary with
      | none => plain
      | some a => role (a.parentPins c')) =
    (do
      match (← c.component x).ancillary with
      | none => plain
      | some a => role (a.parentPins c)) := by
  rw [h.component_bind hx fun _ _ => rfl]
  refine bind_congr_of_ok rfl fun part hpart => ?_
  cases ha : part.ancillary with
  | none => rfl
  | some a =>
    dsimp only
    rw [h.parentPins (h.standing x part a (component_eq_ok.1 hpart) ha)]

section Pins

variable {pins : SortedSet ComponentPin} (hpins : ∀ p ∈ pins, c.Has p.component)
include hpins

theorem reachesSeveral : c'.reachesSeveral pins = c.reachesSeveral pins :=
  bind_congr_of_ok (mapM_congr fun p hp => h.role_bind (hpins p hp) (pure [p.component])
    fun parents => do return (← parents).toList.map ComponentPin.component) fun _ _ => rfl

theorem plainShape {nonAncillary : SortedSet ComponentPin}
    (hnonAncillary : ∀ p ∈ nonAncillary, c.Has p.component) (isGlobal : Bool) :
    c'.plainShape pins nonAncillary isGlobal = c.plainShape pins nonAncillary isGlobal := by
  have hnamed : ∀ p ∈ (if nonAncillary.isEmpty then pins else nonAncillary), c.Has p.component := by
    split
    · exact hpins
    · exact hnonAncillary
  rw [Circuit.plainShape, Circuit.plainShape, h.describePins hpins]
  refine bind_congr_of_ok (h.lowestPin hnamed) fun lowest? hlowest => ?_
  cases lowest? with
  | none => rfl
  | some lowest => exact h.component_bind (hnamed _ (mem_of_lowestPin hlowest)) fun _ _ => rfl

end Pins

section Bus

variable {bus : Bus} (hbus : ∀ m ∈ bus.members, c.Knows m) {pins : SortedSet ComponentPin}
  (hpins : ∀ p ∈ pins, c.Has p.component)
include hbus hpins

theorem nonAncillaryPins : c'.nonAncillaryPins pins bus = c.nonAncillaryPins pins bus := by
  rw [nonAncillaryPins_eq, nonAncillaryPins_eq, h.physicalPins hbus]
  refine bind_congr fun busPins => bind_congr_of_ok (mapM_congr fun p hp => ?_) fun _ _ => rfl
  exact h.role_bind (hpins p hp) (pure [p]) fun parents => do
    return (← parents).toList.filter (· ∈ busPins)

theorem netNetwork : c'.netNetwork pins bus = c.netNetwork pins bus := by
  rw [Circuit.netNetwork, Circuit.netNetwork, h.firstUsed hpins, h.family_eq hbus,
    h.sourceComponents hbus, h.catalog]

omit hbus in
theorem sourcesOf (p : ComponentPin) (hp : p ∈ pins) : c'.sourcesOf bus p = c.sourcesOf bus p := by
  refine bind_congr_of_ok (h.sourcePinsOf bus p) fun sources hsources => ?_
  have hhas := h.old.balanced.has_of_sourcePinsOf (hpins p hp) hsources
  rw [List.filter_congr fun s hs => by rw [h.isAncillary (hhas s hs)]]
  refine mapM_congr fun s hs => ?_
  have hs := hhas s (List.mem_filter.1 hs).1
  rw [h.pin hs, h.reference hs]

omit hpins in
omit hbus in
theorem isSharedNetwork (network : LogicalNetwork) :
    c'.isSharedNetwork network = c.isSharedNetwork network := by
  rw [Circuit.isSharedNetwork, Circuit.isSharedNetwork, h.catalog]

omit hpins in
omit hbus in
theorem sharedShape {isGlobal : Bool} {family : Family} {network : LogicalNetwork} :
    c'.sharedShape pins bus isGlobal family network =
      c.sharedShape pins bus isGlobal family network := by
  rw [Circuit.sharedShape, Circuit.sharedShape, h.catalog]

omit hbus in
theorem drivenShape {nonAncillary : SortedSet ComponentPin}
    (hnonAncillary : ∀ p ∈ nonAncillary, c.Has p.component) (isGlobal : Bool)
    (network : LogicalNetwork) : c'.drivenShape pins nonAncillary bus isGlobal network =
      c.drivenShape pins nonAncillary bus isGlobal network := by
  rw [Circuit.drivenShape, Circuit.drivenShape, h.describePins hpins]
  refine bind_congr_of_ok (mapM_congr fun p hp => h.sourcesOf hnonAncillary p hp)
    fun lists hlists => ?_
  dsimp only
  split
  · rfl
  · rename_i name reference source hhead
    have hin := List.mem_mergeSort.1 (List.mem_of_mem_head? hhead)
    obtain ⟨list, hlist, hin⟩ := List.mem_flatten.1 hin
    obtain ⟨p, hp, hlist⟩ := (mem_of_mapM hlists).1 hlist
    obtain ⟨sources, hsources, hlist⟩ := bind_eq_ok.1 hlist
    obtain ⟨s, hs, hin⟩ := (mem_of_mapM hlist).1 hin
    obtain ⟨_, hpin, hin⟩ := bind_eq_ok.1 hin
    obtain ⟨_, _, rfl⟩ : _ ∧ _ ∧ s = source := by simpa using pure_eq_ok.1 hin
    exact h.component_bind (has_of_pin hpin) fun _ _ => rfl

theorem netShape : c'.netShape pins bus = c.netShape pins bus := by
  rw [Circuit.netShape, Circuit.netShape, h.reachesSeveral hpins]
  refine bind_congr_of_ok (h.nonAncillaryPins hbus hpins) fun nonAncillary hnonAncillary => ?_
  have hhas := h.old.balanced.has_of_nonAncillaryPins hpins hnonAncillary
  have hlabel : pins.toList.head?.elim "" c'.pinLabel = pins.toList.head?.elim "" c.pinLabel := by
    cases hhead : pins.toList.head? with
    | none => rfl
    | some p => exact h.pinLabel (hpins p (List.mem_of_mem_head? hhead))
  have hbussed (isGlobal : Bool) : c'.bussedShape? pins nonAncillary bus isGlobal =
      c.bussedShape? pins nonAncillary bus isGlobal := by
    rw [Circuit.bussedShape?, Circuit.bussedShape?, h.netNetwork hbus hhas]
    simp only [h.isSharedNetwork, h.sharedShape, h.drivenShape hpins hhas]
  simp only [hlabel, hbussed, h.plainShape hpins hhas]

end Bus
end Idles
end Circuit
end BoardNets
