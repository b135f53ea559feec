import BoardNets.Proofs.Catalog.Consistency
import BoardNets.Proofs.Circuit.Additions
import BoardNets.Proofs.Circuit.Lineage

/-! How a part comes by its interfaces. An interface stays whole unless its type has children, and
else there is one for each child, on the same pins. What can be missing is a slot of a child for one
that is assigned, and then nothing is added. A type is entered among the children of another once
for each time that its record names it. -/
namespace BoardNets
namespace Catalog

variable {s : Snapshot} {c : Catalog}

structure ChildPin (c : Catalog) (pin : InterfacePinId) (childType : InterfaceTypeId)
    (child : InterfacePinId) : Prop where
  belongs : ∃ u, c.interfaceType childType = .ok u ∧ child ∈ u.pins
  descends : ∃ p, c.interfacePin pin = .ok p ∧ child ∈ p.childPins

theorem Linked.childPin_iff (h : Linked s c) {pin : InterfacePinId} {p : InterfacePin}
    (hp : c.interfacePin pin = .ok p) {childType : InterfaceTypeId} {child : InterfacePinId} :
    c.ChildPin pin childType child ↔ child ∈ p.childPins ∧
      ∃ q, c.interfacePin child = .ok q ∧ q.interfaceType = childType := by
  constructor
  · rintro ⟨⟨u, hu, hchild⟩, p', hp', hdescends⟩
    obtain rfl := Except.ok.inj (hp.symm.trans hp')
    exact ⟨hdescends, ((h.type_pins hu).2 child).1 hchild⟩
  · rintro ⟨hdescends, q, hq, rfl⟩
    obtain ⟨u, hu⟩ := h.resolved.pin_type hq
    exact ⟨⟨u, hu, ((h.type_pins hu).2 child).2 ⟨q, hq, rfl⟩⟩, p, hp, hdescends⟩

theorem Linked.mem_candidates (h : Linked s c) {p q : InterfacePin} :
    q ∈ p.childPins.toList.filterMap c.interfacePins.find? ↔
      q.id ∈ p.childPins ∧ c.interfacePin q.id = .ok q := by
  simp only [List.mem_filterMap, ← interfacePin_eq_ok]
  constructor
  · rintro ⟨child, hchild, hq⟩
    obtain rfl := h.resolved.pin_id hq
    exact ⟨hchild, hq⟩
  · rintro ⟨hchild, hq⟩
    exact ⟨q.id, hchild, hq⟩

theorem Linked.childPin_of_eq_ok (h : Linked s c) {pin : InterfacePinId}
    {childType : InterfaceTypeId} {q : InterfacePin} (hq : c.childPin pin childType = .ok q) :
    c.ChildPin pin childType q.id := by
  obtain ⟨p, hp, hq⟩ := bind_eq_ok.1 hq
  rw [elim_eq_ok] at hq
  obtain ⟨hdescends, hpin⟩ := h.mem_candidates.1 (List.mem_of_find?_eq_some hq)
  exact (h.childPin_iff hp).2 ⟨hdescends, q, hpin, by simpa using List.find?_some hq⟩

theorem Linked.missing_of_eq_error (h : Linked s c) {pin : InterfacePinId} {p : InterfacePin}
    (hp : c.interfacePin pin = .ok p) {childType : InterfaceTypeId} {e : CatalogError}
    (he : c.childPin pin childType = .error e) :
    e = .missingChildPin p.reference childType ∧ ∀ child, ¬c.ChildPin pin childType child := by
  rw [childPin, hp] at he
  change Option.elim _ _ _ = _ at he
  cases hfind : (p.childPins.toList.filterMap c.interfacePins.find?).find? fun q =>
      q.interfaceType = childType with
  | some q =>
    rw [hfind] at he
    cases he
  | none =>
    rw [hfind] at he
    refine ⟨(Except.error.inj he).symm, fun child hchild => ?_⟩
    obtain ⟨hdescends, q, hq, htype⟩ := (h.childPin_iff hp).1 hchild
    obtain rfl := h.resolved.pin_id hq
    have hother := List.find?_eq_none.1 hfind q (h.mem_candidates.2 ⟨hdescends, hq⟩)
    simp [htype] at hother

end Catalog

/-- An assignment for a child type: its slot is a child of the one that was declared, which it
remembers, and all else is as declared. -/
structure PinAssignment.Specialises (catalog : Catalog) (childType : InterfaceTypeId)
    (declared a : PinAssignment) : Prop where
  slot : catalog.ChildPin declared.interfacePin childType a.interfacePin
  parent : a.parentInterfacePin = some declared.interfacePin
  original : a.declaredInterfacePin = some declared.interfacePin
  pins : a.pins = declared.pins
  id : a.id = declared.id
  channel : a.channel = declared.channel

namespace Interface

structure SplitInto (catalog : Catalog) (i : Interface) (childType : InterfaceTypeId)
    (x : ComponentInterface) : Prop where
  name : x.name = i.name
  inner_name : x.interface.name = i.name
  type : x.interface.type = childType
  parentType : x.interface.parentType = some i.type
  function : ∃ t, catalog.interfaceType i.type = .ok t ∧ x.interface.function = i.functionOr t
  isRequired : ∃ u, catalog.interfaceType childType = .ok u ∧
    x.interface.isRequired = u.canBeRequired
  idle : x.uses = ∅ ∧ x.active = false
  assignments : List.Forall₂ (PinAssignment.Specialises catalog childType) i.assignments
    x.interface.assignments

/-- What a part gets for an interface that its connectivity declares. -/
inductive Realises (catalog : Catalog) (i : Interface) : List ComponentInterface → Prop where
  | whole {t : InterfaceType} (ht : catalog.interfaceType i.type = .ok t)
      (hwhole : t.children = []) :
    Realises catalog i [{ name := i.name, interface := { i with function := i.functionOr t } }]
  | split {t : InterfaceType} (ht : catalog.interfaceType i.type = .ok t)
      (hsplit : t.children ≠ []) {xs : List ComponentInterface}
      (hxs : List.Forall₂ (i.SplitInto catalog) t.children xs) :
    Realises catalog i xs

/-- A child type has no slot for an assigned one, which has the reference. -/
def Lacks (catalog : Catalog) (i : Interface) (slot : String) (childType : InterfaceTypeId) :
    Prop :=
  ∃ t, catalog.interfaceType i.type = .ok t ∧ childType ∈ t.children ∧
    ∃ a ∈ i.assignments, ∃ p, catalog.interfacePin a.interfacePin = .ok p ∧ p.reference = slot ∧
      ∀ child, ¬catalog.ChildPin a.interfacePin childType child

end Interface

section Realise

variable {s : Snapshot} {c : Catalog} {i : Interface} {childType : InterfaceTypeId}

open Catalog

namespace Interface

theorem specialises_of_eq_ok (h : Linked s c) {declared a : PinAssignment}
    (ha : childAssignment c childType declared = .ok a) :
    declared.Specialises c childType a := by
  obtain ⟨q, hq, ha⟩ := bind_eq_ok.1 ha
  obtain rfl := pure_eq_ok.1 ha
  exact ⟨h.childPin_of_eq_ok hq, rfl, rfl, rfl, rfl, rfl⟩

theorem splitInto_of_eq_ok (h : Linked s c) {t : InterfaceType}
    (ht : c.interfaceType i.type = .ok t) {x : ComponentInterface}
    (hx : childInterface c i t childType = .ok x) : i.SplitInto c childType x := by
  obtain ⟨assignments, hassignments, hx⟩ := bind_eq_ok.1 hx
  obtain ⟨u, hu, hx⟩ := bind_eq_ok.1 hx
  obtain rfl := pure_eq_ok.1 hx
  exact ⟨rfl, rfl, rfl, congrArg some (h.resolved.type_id ht), ⟨t, ht, rfl⟩, ⟨u, hu, rfl⟩,
    ⟨rfl, rfl⟩, (mapM_eq_ok_iff.1 hassignments).imp fun _ _ => specialises_of_eq_ok h⟩

theorem realises_of_eq_ok (h : Linked s c) {xs : List ComponentInterface}
    (hxs : i.realise c = .ok xs) : i.Realises c xs := by
  obtain ⟨t, ht, hxs⟩ := bind_eq_ok.1 hxs
  split at hxs
  next hsplit =>
    have hne : t.children ≠ [] := by simpa [InterfaceType.isSeparable] using hsplit
    exact .split ht hne ((mapM_eq_ok_iff.1 hxs).imp fun _ _ => splitInto_of_eq_ok h ht)
  next hwhole =>
    obtain rfl := pure_eq_ok.1 hxs
    exact .whole ht (by simpa [InterfaceType.isSeparable] using hwhole)

theorem Realises.not_lacks {xs : List ComponentInterface} (h : i.Realises c xs) {slot : String} :
    ¬i.Lacks c slot childType := by
  rintro ⟨t, ht, hchild, a, ha, _, _, _, hmissing⟩
  cases h with
  | whole ht' hwhole =>
    obtain rfl := Except.ok.inj (ht.symm.trans ht')
    rw [hwhole] at hchild
    cases hchild
  | split ht' _ hxs =>
    obtain rfl := Except.ok.inj (ht.symm.trans ht')
    obtain ⟨x, hx⟩ := exists_forall₂_iff.1 ⟨_, hxs⟩ childType hchild
    obtain ⟨b, hb⟩ := exists_forall₂_iff.1 ⟨_, hx.assignments⟩ a ha
    exact hmissing b.interfacePin hb.slot

/-- A child type gets an interface for each time that it names the type that is split. -/
theorem Realises.countP_type (h : Catalog.ofSnapshot s = .ok c) {xs : List ComponentInterface}
    (hxs : i.Realises c xs) {t u : InterfaceType} (ht : c.interfaceType i.type = .ok t)
    (hsplit : t.children ≠ []) (hu : c.interfaceType childType = .ok u) :
    xs.countP (·.interface.type = childType) = u.parents.count i.type := by
  cases hxs with
  | whole ht' hwhole =>
    obtain rfl := Except.ok.inj (ht.symm.trans ht')
    exact absurd hwhole hsplit
  | split ht' _ hxs =>
    obtain rfl := Except.ok.inj (ht.symm.trans ht')
    have htypes : t.children = xs.map (·.interface.type) := by
      rw [← List.forall₂_eq_eq_eq, List.forall₂_map_right_iff]
      exact hxs.imp fun _ _ hx => hx.type.symm
    rw [← Catalog.count_children h ht hu, htypes, List.count_eq_countP, List.countP_map]
    exact List.countP_congr fun x _ => by simp

theorem lacks_of_eq_error (h : Linked s c) {t : InterfaceType}
    (ht : c.interfaceType i.type = .ok t)
    (hslots : ∀ a ∈ i.assignments, ∃ p, c.interfacePin a.interfacePin = .ok p) {e : CatalogError}
    (he : i.realise c = .error e) :
    ∃ slot childType, i.Lacks c slot childType ∧ e = .missingChildPin slot childType := by
  rw [realise, ht] at he
  change (if t.isSeparable then _ else _) = _ at he
  split at he
  · obtain ⟨childType, hchild, he⟩ := exists_of_mapM_error he
    rcases bind_eq_error.1 he with he | ⟨_, _, he⟩
    · obtain ⟨a, ha, he⟩ := exists_of_mapM_error he
      obtain ⟨p, hp⟩ := hslots a ha
      rcases bind_eq_error.1 he with he | ⟨_, _, he⟩
      · obtain ⟨rfl, hmissing⟩ := h.missing_of_eq_error hp he
        exact ⟨_, _, ⟨t, ht, hchild, a, ha, p, hp, rfl, hmissing⟩, rfl⟩
      · cases he
    · -- child types are known in a linked catalog
      obtain ⟨u, hu⟩ := h.resolved.type_children ht childType hchild
      rw [hu] at he
      cases he
  · cases he

end Interface

namespace Connectivity

variable {part : Connectivity}

/-- What a part gets for all that its connectivity declares, in the order of declaration. -/
def Realises (catalog : Catalog) (part : Connectivity) (xs : List ComponentInterface) : Prop :=
  ∃ pieces, List.Forall₂ (Interface.Realises catalog) part.interfaces pieces ∧ xs = pieces.flatten

theorem realises_of_eq_ok (h : Linked s c) {xs : List ComponentInterface}
    (hxs : part.realise c = .ok xs) : part.Realises c xs := by
  obtain ⟨pieces, hpieces, hxs⟩ := bind_eq_ok.1 hxs
  obtain rfl := pure_eq_ok.1 hxs
  exact ⟨pieces, (mapM_eq_ok_iff.1 hpieces).imp fun _ _ => Interface.realises_of_eq_ok h, rfl⟩

theorem Realises.not_lacks {xs : List ComponentInterface} (h : part.Realises c xs) {slot : String}
    (hi : i ∈ part.interfaces) : ¬i.Lacks c slot childType := by
  obtain ⟨pieces, hpieces, _⟩ := h
  obtain ⟨xs, hxs⟩ := exists_forall₂_iff.1 ⟨_, hpieces⟩ i hi
  exact hxs.not_lacks

theorem lacks_of_eq_error (h : Linked s c) {id : ConnectivityId}
    (hpart : c.connectivity id = .ok part) {e : CatalogError} (he : part.realise c = .error e) :
    ∃ i ∈ part.interfaces, ∃ slot childType, i.Lacks c slot childType ∧
      e = .missingChildPin slot childType := by
  rcases bind_eq_error.1 he with he | ⟨_, _, he⟩
  · obtain ⟨i, hi, he⟩ := exists_of_mapM_error he
    obtain ⟨t, ht⟩ := h.resolved.part_types hpart i hi
    exact ⟨i, hi, Interface.lacks_of_eq_error h ht (h.resolved.part_slots hpart i hi) he⟩
  · cases he

end Connectivity
end Realise

namespace Circuit

variable {s : Snapshot} {c : Circuit} {parent : NodeId} {name : String} {id : ConnectivityId}
  {part : Connectivity}

def referenceBelow (c : Circuit) (parent : NodeId) (name : String) : String :=
  if parent = root then name else c.reference parent ++ "." ++ name

theorem childReference_of_isSegment (hname : IsSegment name)
    (hparent : (c.component? parent).isSome) :
    c.childReference parent name = .ok (c.referenceBelow parent name) := by
  obtain ⟨p, hp⟩ := Option.isSome_iff_exists.1 hparent
  have hreference : c.reference parent = p.reference := by
    rw [Circuit.reference, component?_eq_some.1 hp]
    rfl
  rw [childReference, if_neg (not_or.2 hname), referenceBelow, hreference,
    component_eq_ok.2 hp]
  split <;> rfl

/-- The part as it is ordered, with the pins of its connectivity and with interfaces. -/
def orderedPart (c : Circuit) (parent : NodeId) (name function : String) (id : ConnectivityId)
    (part : Connectivity) (interfaces : List ComponentInterface) : Component where
  reference := c.referenceBelow parent name
  function := function
  kind := .part
  connectivity := some id
  pins := part.pins
  interfaces := interfaces
  parent := some parent

/-- Once its name and its parent are right, a part stands or falls with its interfaces. -/
theorem run_addPart_eq (hpart : c.catalog.connectivity id = .ok part)
    (hname : IsSegment name) (hparent : (c.component? parent).isSome) (function : String) :
    c.run (addPart parent name function id) = match part.realise c.catalog with
      | .ok xs => (.ok c.nextNode,
          c.grown parent (.component (c.orderedPart parent name function id part xs)))
      | .error e => (.error (.catalog e), c) := by
  have hcomponent : c.newComponent parent (c.referenceBelow parent name) function .part (some id) =
      match part.realise c.catalog with
      | .ok xs => .ok (c.orderedPart parent name function id part xs)
      | .error e => .error (.catalog e) := by
    rw [newComponent, hpart]
    change (do
      let xs ← part.realise c.catalog
      return c.orderedPart parent name function id part xs : Result Component) = _
    cases part.realise c.catalog <;> rfl
  rw [addPart, addComponent, run_ask_bind, childReference_of_isSegment hname hparent]
  dsimp only
  rw [run_ask_bind, hcomponent]
  cases part.realise c.catalog with
  | ok xs =>
    dsimp only
    rw [run_addChild _ parent rfl hparent]
    rfl
  | error e => rfl

end Circuit

/-- A part gets what its connectivity declares, in that order: whole interfaces and split ones, on
the same pins. It is refused, and the circuit is left as it is, just where a child type lacks a slot
for an assigned one. A child type gets as many interfaces of a split one as it names its type. -/
theorem part_realised {s : Snapshot} {c : Circuit} (hs : Catalog.ofSnapshot s = .ok c.catalog)
    {id : ConnectivityId} {part : Connectivity} (hpart : c.catalog.connectivity id = .ok part)
    {parent : NodeId} {name : String} (hname : IsSegment name)
    (hparent : (c.component? parent).isSome) (function : String) :
    (∀ new c', c.run (Circuit.addPart parent name function id) = (.ok new, c') →
      ∃ xs, part.Realises c.catalog xs ∧
        c'.component? new = some (c.orderedPart parent name function id part xs) ∧
        new = c.nextNode ∧
        c' = c.grown parent (.component (c.orderedPart parent name function id part xs))) ∧
    (∀ e c', c.run (Circuit.addPart parent name function id) = (.error e, c') →
      c' = c ∧ ∃ i ∈ part.interfaces, ∃ slot childType, i.Lacks c.catalog slot childType ∧
        e = .catalog (.missingChildPin slot childType)) ∧
    ((∃ e c', c.run (Circuit.addPart parent name function id) = (.error e, c')) ↔
      ∃ i ∈ part.interfaces, ∃ slot childType, i.Lacks c.catalog slot childType) ∧
    ∀ (i : Interface) xs, i.Realises c.catalog xs → ∀ t u childType,
      c.catalog.interfaceType i.type = .ok t → t.children ≠ [] →
        c.catalog.interfaceType childType = .ok u →
          xs.countP (·.interface.type = childType) = u.parents.count i.type := by
  have hlinked := Catalog.linked_ofSnapshot hs
  have hrun := Circuit.run_addPart_eq hpart hname hparent function
  cases hrealise : part.realise c.catalog with
  | ok xs =>
    rw [hrealise] at hrun
    have hxs := Connectivity.realises_of_eq_ok hlinked hrealise
    rw [hrun]
    refine ⟨?_, nofun, ⟨nofun, ?_⟩, fun _ _ h _ _ _ => h.countP_type hs⟩
    · rintro new c' heq
      obtain ⟨hnew, rfl⟩ := Prod.mk.inj heq
      obtain rfl := Except.ok.inj hnew
      exact ⟨xs, hxs, Circuit.component_nextNode_grown hparent, rfl, rfl⟩
    · rintro ⟨i, hi, slot, childType, hlacks⟩
      exact absurd hlacks (hxs.not_lacks hi)
  | error e =>
    rw [hrealise] at hrun
    obtain ⟨i, hi, slot, childType, hlacks, rfl⟩ :=
      Connectivity.lacks_of_eq_error hlinked hpart hrealise
    rw [hrun]
    refine ⟨nofun, ?_, ⟨fun _ => ⟨i, hi, slot, childType, hlacks⟩, fun _ => ⟨_, _, rfl⟩⟩,
      fun _ _ h _ _ _ => h.countP_type hs⟩
    rintro e' c' heq
    obtain ⟨he, rfl⟩ := Prod.mk.inj heq
    exact ⟨rfl, i, hi, slot, childType, hlacks, (Except.error.inj he).symm⟩

namespace Catalog.Specimen

/-- The chip of the lines, which assigns one pin to a line. -/
def chip : Connectivity where
  id := ⟨⟨9⟩⟩
  name := "CHIP"
  pins := [{ id := ⟨⟨10⟩⟩, type := .digital, name := "PA9", number := "1" }]
  interfaces := [
    { type := ⟨⟨2⟩⟩, name := "UART",
      assignments := [{ interfacePin := ⟨⟨6⟩⟩, pins := [⟨⟨10⟩⟩] }] }]

/-- The slot of the receiver is no child of that of the line. -/
def orphaned : Snapshot := { lines with
  interfacePins := lines.interfacePins.map fun r =>
    if r.reference = "RX" then { r with parentPins := [] } else r }

/-- The sender names the line as its parent twice. -/
def namedTwice : Snapshot := { lines with
  interfaceTypes := lines.interfaceTypes.map fun r =>
    if r.name = "sender" then { r with parents := r.parents ++ r.parents } else r }

/-- What comes of adding a chip to the root alone. -/
def addChip (c : Catalog) : Except Error NodeId × Circuit :=
  (Circuit.new c).run (Circuit.addPart Circuit.root "U1" "uart" ⟨⟨9⟩⟩)

end Catalog.Specimen

/-- The line of the chip is split, and where the receiver has no slot for it no chip is added. -/
theorem part_realised_specimen :
    (∃ c new c' p, Catalog.ofSnapshot Catalog.Specimen.lines = .ok c ∧
      Catalog.Specimen.addChip c = (.ok new, c') ∧ c'.component? new = some p ∧
      Catalog.Specimen.chip.Realises c p.interfaces) ∧
    ∃ c slot childType, Catalog.ofSnapshot Catalog.Specimen.orphaned = .ok c ∧
      Catalog.Specimen.addChip c =
        (.error (.catalog (.missingChildPin slot childType)), Circuit.new c) := by
  have hname : IsSegment "U1" := by decide
  have hroot (c : Catalog) : ((Circuit.new c).component? Circuit.root).isSome := rfl
  have hlines : (Catalog.ofSnapshot Catalog.Specimen.lines).map
      (fun c => (Catalog.Specimen.addChip c).1.isOk) = .ok true := by decide +kernel
  have horphaned : (Catalog.ofSnapshot Catalog.Specimen.orphaned).map
      (fun c => (Catalog.Specimen.addChip c).1.isOk) = .ok false := by decide +kernel
  constructor
  · obtain ⟨c, hc, hadded⟩ := map_eq_ok.1 hlines
    have hpart : c.connectivity ⟨⟨9⟩⟩ = .ok Catalog.Specimen.chip :=
      (Catalog.linked_ofSnapshot hc).part_iff.2 ⟨by decide, rfl⟩
    obtain ⟨hok, _⟩ := part_realised (c := Circuit.new c) hc hpart hname (hroot c) "uart"
    obtain ⟨new, hnew⟩ := isOk_iff.1 hadded
    obtain ⟨xs, hxs, hcomponent, _⟩ := hok new _ (Prod.ext hnew rfl)
    exact ⟨c, new, _, _, hc, Prod.ext hnew rfl, hcomponent, hxs⟩
  · obtain ⟨c, hc, hrefused⟩ := map_eq_ok.1 horphaned
    have hpart : c.connectivity ⟨⟨9⟩⟩ = .ok Catalog.Specimen.chip :=
      (Catalog.linked_ofSnapshot hc).part_iff.2 ⟨by decide, rfl⟩
    obtain ⟨_, herror, _⟩ := part_realised (c := Circuit.new c) hc hpart hname (hroot c) "uart"
    cases hrun : (Catalog.Specimen.addChip c).1 with
    | ok new =>
      rw [hrun] at hrefused
      cases hrefused
    | error e =>
      obtain ⟨hsame, _, _, slot, childType, _, rfl⟩ := herror e _ (Prod.ext hrun rfl)
      exact ⟨c, slot, childType, hc, Prod.ext hrun hsame⟩

/-- A sender that names the line twice gets two interfaces of the chip, of one name. -/
theorem child_type_split_twice : ∃ c p,
    Catalog.ofSnapshot Catalog.Specimen.namedTwice = .ok c ∧
      (Catalog.Specimen.addChip c).2.component? ⟨1⟩ = some p ∧
      p.interfaces.map (fun x => (x.name, x.interface.type)) =
        [("UART", ⟨⟨3⟩⟩), ("UART", ⟨⟨3⟩⟩), ("UART", ⟨⟨4⟩⟩)] := by
  have hadded : (Catalog.ofSnapshot Catalog.Specimen.namedTwice).map (fun c =>
      ((Catalog.Specimen.addChip c).2.component? ⟨1⟩).map fun p =>
        p.interfaces.map fun x => (x.name, x.interface.type)) =
      .ok (some [("UART", ⟨⟨3⟩⟩), ("UART", ⟨⟨3⟩⟩), ("UART", ⟨⟨4⟩⟩)]) := by decide +kernel
  obtain ⟨c, hc, hadded⟩ := map_eq_ok.1 hadded
  obtain ⟨p, hp, hinterfaces⟩ := Option.map_eq_some_iff.1 hadded
  exact ⟨c, p, hc, hp, hinterfaces⟩

end BoardNets
