import BoardNets.Proofs.Bus.Drivers
import BoardNets.Proofs.Circuit.Slots
import BoardNets.Proofs.Netlist.Reordered

/-! Shapes of nets in circuits that resemble each other. The same pins on counterparts of one bus
get one shape, provided that pins keep their slots and that a bus whose nets go by its reference
keeps it. -/
namespace BoardNets

variable {c c' : Circuit} {b b' : Bus} {pins : SortedSet ComponentPin}

theorem Component.eq_of_frame {p q : Component} (h : p.frame = q.frame) :
    p.reference = q.reference ∧ p.function = q.function ∧ p.ancillary = q.ancillary := by
  obtain ⟨hreference, hfunction, _, _, _, _, _, _, _, hrole⟩ := Component.mk.inj h
  exact ⟨hreference, hfunction, hrole⟩

namespace Circuit

/-- Nets of the bus may be of a shared network, and go by the reference of the bus then. -/
def Shares (c : Circuit) (b : Bus) : Prop :=
  ∃ family, b.family c = .ok family ∧ ∃ slot requesting network,
    c.catalog.logicalNetwork family.key slot requesting = .ok network ∧
      c.isSharedNetwork network = .ok true

structure NamedAlike (c c' : Circuit) (b b' : Bus) : Prop extends SameFragments c c' b b' where
  reference : c.Shares b → b'.reference = b.reference

theorem isAncillary_of_frame (h : c'.frame = c.frame) (x : NodeId) :
    c'.isAncillary x = c.isAncillary x :=
  component_of_frame h (F := Option.any fun p : Component => p.ancillary.isSome) (fun _ => rfl) x

/-- Pins that stand for a net, once the pins of its bus are known. -/
def standing (c : Circuit) (pins busPins : SortedSet ComponentPin) :
    Result (SortedSet ComponentPin) := do
  let stand ← pins.toList.mapM fun p => do
    match (← c.component p.component).ancillary with
    | none => return [p]
    | some a => return (← a.parentPins c).toList.filter (· ∈ busPins)
  return .ofList stand.flatten

theorem nonAncillaryPins_eq (c : Circuit) (pins : SortedSet ComponentPin) (b : Bus) :
    c.nonAncillaryPins pins b =
      (if b.isEmpty then pure ∅ else b.physicalPins c) >>= c.standing pins := by
  rw [nonAncillaryPins]
  split <;> rfl

/-- The shape of a net, once it is known whether it reaches several components. -/
def shapeOf (c : Circuit) (pins : SortedSet ComponentPin) (b : Bus)
    (nonAncillary : SortedSet ComponentPin) (isGlobal : Bool) : Result NetShape :=
  if pins.size ≤ 1 then
    return {
      identifier := pins.toList.head?.elim "" c.pinLabel
      nonAncillaryPins := nonAncillary
      isGlobal }
  else (if b.isEmpty then pure none else c.bussedShape? pins nonAncillary b isGlobal) >>=
    fun bussed => bussed.elim (c.plainShape pins nonAncillary isGlobal) pure

theorem netShape_eq (c : Circuit) (pins : SortedSet ComponentPin) (b : Bus) :
    c.netShape pins b = (do
      let nonAncillary ← c.nonAncillaryPins pins b
      (if 1 < pins.size ∧ b.isEmpty then pure true else c.reachesSeveral pins) >>=
        c.shapeOf pins b nonAncillary) := by
  rw [netShape]
  refine bind_congr fun nonAncillary => ?_
  dsimp only
  split
  all_goals
    refine bind_congr fun isGlobal => ?_
    rw [shapeOf]
    split
    · rfl
    · split <;> exact bind_congr fun bussed => by cases bussed <;> rfl

theorem SameSlots.firstUsed (hslots : c.SameSlots c') {ps : List ComponentPin}
    {first : Option (ComponentPin × InterfacePinId)} (hfirst : c.firstUsed ps = .ok first) :
    c'.firstUsed ps = .ok first := by
  induction ps with
  | nil => exact hfirst
  | cons p ps ih =>
    obtain ⟨slot, hslot, hfirst⟩ := bind_eq_ok.1 hfirst
    refine bind_eq_ok.2 ⟨slot, hslots p slot hslot, ?_⟩
    cases slot with
    | some slot => exact hfirst
    | none => exact ih hfirst

namespace Resembles

variable (h : c.Resembles c')
include h

theorem pin (p : ComponentPin) : c'.pin p = c.pin p := by
  rw [← pin_outline, h.outline, pin_outline]

theorem lowestPin (pins : SortedSet ComponentPin) : c'.lowestPin pins = c.lowestPin pins := by
  have hrank : c'.rankPin = c.rankPin := funext fun p => by
    rw [rankPin, rankPin, h.pin, reference_of_frame h.frame]
  rw [Circuit.lowestPin, Circuit.lowestPin, hrank]

theorem pinLabel (p : ComponentPin) : c'.pinLabel p = c.pinLabel p := by
  rw [← pinLabel_outline, h.outline, pinLabel_outline]

theorem parentPins {a : Ancillary} (ha : a.parentPins c = .ok pins) :
    a.parentPins c' = .ok pins := by
  rw [Ancillary.parentPins] at ha ⊢
  split at ha
  · obtain ⟨inputs, hinputs, ha⟩ := bind_eq_ok.1 ha
    rw [if_pos ‹_›]
    exact bind_eq_ok.2 ⟨inputs, mapM_mono hinputs fun n _ _ hn => h.inputPins hn, ha⟩
  · rw [if_neg ‹_›]
    exact ha

theorem isSharedNetwork (N : LogicalNetwork) : c'.isSharedNetwork N = c.isSharedNetwork N := by
  rw [Circuit.isSharedNetwork, Circuit.isSharedNetwork, catalog_of_frame h.frame]

theorem reachesSeveral {several : Bool} (hseveral : c.reachesSeveral pins = .ok several) :
    c'.reachesSeveral pins = .ok several := by
  obtain ⟨reached, hreached, hseveral⟩ := bind_eq_ok.1 hseveral
  refine bind_eq_ok.2 ⟨reached, mapM_mono hreached fun p _ _ hp => ?_, hseveral⟩
  obtain ⟨part, hpart, hp⟩ := bind_eq_ok.1 hp
  obtain ⟨part', hpart', hframe⟩ := exists_component_of_frame h.frame hpart
  obtain ⟨_, _, hrole⟩ := Component.eq_of_frame hframe
  refine bind_eq_ok.2 ⟨part', hpart', ?_⟩
  rw [hrole]
  cases ha : part.ancillary with
  | none =>
    rw [ha] at hp
    exact hp
  | some a =>
    rw [ha] at hp
    obtain ⟨parents, hparents, hp⟩ := bind_eq_ok.1 hp
    exact bind_eq_ok.2 ⟨parents, h.parentPins hparents, hp⟩

theorem plainShape {nonAncillary : SortedSet ComponentPin} {isGlobal : Bool} {shape : NetShape}
    (hshape : c.plainShape pins nonAncillary isGlobal = .ok shape) :
    c'.plainShape pins nonAncillary isGlobal = .ok shape := by
  obtain ⟨lowest, hlowest, hshape⟩ := bind_eq_ok.1 hshape
  refine bind_eq_ok.2 ⟨lowest, (h.lowestPin _).trans hlowest, ?_⟩
  cases lowest with
  | none => exact absurd hshape throw_ne_ok
  | some lowest =>
    obtain ⟨part, hpart, hshape⟩ := bind_eq_ok.1 hshape
    obtain ⟨part', hpart', hframe⟩ := exists_component_of_frame h.frame hpart
    obtain ⟨hreference, hfunction, _⟩ := Component.eq_of_frame hframe
    refine bind_eq_ok.2 ⟨part', hpart', ?_⟩
    rw [hfunction, hreference]
    exact hshape

theorem nonAncillaryPins (hb : SameFragments c c' b b') {stand : SortedSet ComponentPin}
    (hstand : c.nonAncillaryPins pins b = .ok stand) :
    c'.nonAncillaryPins pins b' = .ok stand := by
  rw [nonAncillaryPins_eq] at hstand ⊢
  obtain ⟨busPins, hbusPins, hstand⟩ := bind_eq_ok.1 hstand
  obtain ⟨stands, hstands, hstand⟩ := bind_eq_ok.1 hstand
  refine bind_eq_ok.2 ⟨busPins, ?_, bind_eq_ok.2 ⟨stands, mapM_mono hstands fun p _ _ hp => ?_,
    hstand⟩⟩
  · rw [hb.isEmpty_eq]
    split at hbusPins
    · rwa [if_pos ‹_›]
    · rw [if_neg ‹_›]
      exact h.physicalPins hb hbusPins
  · obtain ⟨part, hpart, hp⟩ := bind_eq_ok.1 hp
    obtain ⟨part', hpart', hframe⟩ := exists_component_of_frame h.frame hpart
    obtain ⟨_, _, hrole⟩ := Component.eq_of_frame hframe
    refine bind_eq_ok.2 ⟨part', hpart', ?_⟩
    rw [hrole]
    cases ha : part.ancillary with
    | none =>
      rw [ha] at hp
      exact hp
    | some a =>
      rw [ha] at hp
      obtain ⟨parents, hparents, hp⟩ := bind_eq_ok.1 hp
      exact bind_eq_ok.2 ⟨parents, h.parentPins hparents, hp⟩

theorem netNetwork (hslots : c.SameSlots c') (hb : SameFragments c c' b b')
    {network : Option (Family × LogicalNetwork)} (hnetwork : c.netNetwork pins b = .ok network) :
    c'.netNetwork pins b' = .ok network := by
  obtain ⟨first, hfirst, hnetwork⟩ := bind_eq_ok.1 hnetwork
  refine bind_eq_ok.2 ⟨first, hslots.firstUsed hfirst, ?_⟩
  cases first with
  | none => exact hnetwork
  | some first =>
    obtain ⟨family, hfamily, hnetwork⟩ := bind_eq_ok.1 hnetwork
    refine bind_eq_ok.2 ⟨family, h.family hb hfamily, ?_⟩
    rw [h.sourceComponents hb, catalog_of_frame h.frame]
    exact hnetwork

theorem sourcesOf (hb : SameFragments c c' b b') {p : ComponentPin}
    {sources : List (String × String × ComponentPin)} (hsources : c.sourcesOf b p = .ok sources) :
    c'.sourcesOf b' p = .ok sources := by
  obtain ⟨found, hfound, hsources⟩ := bind_eq_ok.1 hsources
  refine bind_eq_ok.2 ⟨found, hb.sourcePinsOf hfound, ?_⟩
  simp only [isAncillary_of_frame h.frame, h.pin, reference_of_frame h.frame]
  exact hsources

theorem drivenShape (hb : SameFragments c c' b b') {nonAncillary : SortedSet ComponentPin}
    {isGlobal : Bool} {N : LogicalNetwork} {shape : NetShape}
    (hshape : c.drivenShape pins nonAncillary b isGlobal N = .ok shape) :
    c'.drivenShape pins nonAncillary b' isGlobal N = .ok shape := by
  obtain ⟨sources, hsources, hshape⟩ := bind_eq_ok.1 hshape
  refine bind_eq_ok.2 ⟨sources, mapM_mono hsources fun _ _ _ hp => h.sourcesOf hb hp, ?_⟩
  dsimp only at hshape ⊢
  split at hshape
  · exact absurd hshape throw_ne_ok
  · obtain ⟨part, hpart, hshape⟩ := bind_eq_ok.1 hshape
    obtain ⟨part', hpart', hframe⟩ := exists_component_of_frame h.frame hpart
    obtain ⟨_, hfunction, _⟩ := Component.eq_of_frame hframe
    refine bind_eq_ok.2 ⟨part', hpart', ?_⟩
    rw [hfunction]
    exact hshape

theorem bussedShape? (hslots : c.SameSlots c') (hb : NamedAlike c c' b b')
    {nonAncillary : SortedSet ComponentPin} {isGlobal : Bool} {shape : Option NetShape}
    (hshape : c.bussedShape? pins nonAncillary b isGlobal = .ok shape) :
    c'.bussedShape? pins nonAncillary b' isGlobal = .ok shape := by
  obtain ⟨network, hnetwork, hshape⟩ := bind_eq_ok.1 hshape
  refine bind_eq_ok.2 ⟨network, h.netNetwork hslots hb.toSameFragments hnetwork, ?_⟩
  cases network with
  | none => exact hshape
  | some network =>
    obtain ⟨family, N⟩ := network
    obtain ⟨shared, hshared, hshape⟩ := bind_eq_ok.1 hshape
    refine bind_eq_ok.2 ⟨shared, (h.isSharedNetwork N).trans hshared, ?_⟩
    cases shared with
    | true =>
      have hshares : c.Shares b := by
        obtain ⟨first, _, hnetwork⟩ := bind_eq_ok.1 hnetwork
        cases first with
        | none => cases hnetwork
        | some first =>
          obtain ⟨family', hfamily, hnetwork⟩ := bind_eq_ok.1 hnetwork
          obtain ⟨N', hN, hnetwork⟩ := bind_eq_ok.1 hnetwork
          obtain ⟨rfl, rfl⟩ := Prod.mk.inj (Option.some.inj (pure_eq_ok.1 hnetwork))
          exact ⟨family', hfamily, _, _, N', lift_eq_ok.1 hN, hshared⟩
      simp only [sharedShape, catalog_of_frame h.frame, hb.reference hshares]
      exact hshape
    | false =>
      obtain ⟨driven, hdriven, hshape⟩ := bind_eq_ok.1 hshape
      exact bind_eq_ok.2 ⟨driven, h.drivenShape hb.toSameFragments hdriven, hshape⟩

theorem shapeOf (hslots : c.SameSlots c') (hb : NamedAlike c c' b b')
    {nonAncillary : SortedSet ComponentPin} {isGlobal : Bool} {shape : NetShape}
    (hshape : c.shapeOf pins b nonAncillary isGlobal = .ok shape) :
    c'.shapeOf pins b' nonAncillary isGlobal = .ok shape := by
  rw [Circuit.shapeOf] at hshape ⊢
  rw [hb.isEmpty_eq, funext h.pinLabel]
  split at hshape
  · rwa [if_pos ‹_›]
  · rw [if_neg ‹_›]
    obtain ⟨bussed, hbussed, hshape⟩ := bind_eq_ok.1 hshape
    refine bind_eq_ok.2 ⟨bussed, ?_, ?_⟩
    · split at hbussed
      · rwa [if_pos ‹_›]
      · rw [if_neg ‹_›]
        exact h.bussedShape? hslots hb hbussed
    · cases bussed with
      | some shape => exact hshape
      | none => exact h.plainShape hshape

theorem netShape (hslots : c.SameSlots c') (hb : NamedAlike c c' b b') {shape : NetShape}
    (hshape : c.netShape pins b = .ok shape) : c'.netShape pins b' = .ok shape := by
  rw [netShape_eq] at hshape ⊢
  obtain ⟨nonAncillary, hstand, hshape⟩ := bind_eq_ok.1 hshape
  obtain ⟨isGlobal, hglobal, hshape⟩ := bind_eq_ok.1 hshape
  refine bind_eq_ok.2 ⟨nonAncillary, h.nonAncillaryPins hb.toSameFragments hstand, ?_⟩
  refine bind_eq_ok.2 ⟨isGlobal, ?_, h.shapeOf hslots hb hshape⟩
  rw [hb.isEmpty_eq]
  split at hglobal
  · rwa [if_pos ‹_›]
  · rw [if_neg ‹_›]
    exact h.reachesSeveral hglobal

end Resembles
end Circuit
end BoardNets
