import BoardNets.Proofs.Catalog.Components

/-! Linked catalogs are consistent. They hold what the records declare and nothing else. Every
identifier in them resolves, the pins of every declared pair are compatible, in both directions, and
no others are, children are the other side of parents, and every type lists its own pins. Nothing
that a catalog answers about itself is missing later. -/
namespace BoardNets

/-- Some record of the pin `a` declares it compatible with `b`. -/
def Snapshot.DeclaresCompatible (s : Snapshot) (a b : InterfacePinId) : Prop :=
  ∃ r ∈ s.interfacePins, r.id = a ∧ b ∈ r.compatiblePins

instance (s : Snapshot) (a b : InterfacePinId) : Decidable (s.DeclaresCompatible a b) :=
  inferInstanceAs (Decidable (∃ r ∈ s.interfacePins, r.id = a ∧ b ∈ r.compatiblePins))

namespace Catalog

/-- What is found is what there are records of, with the relations that these declare. -/
structure Recorded (s : Snapshot) (c : Catalog) : Prop where
  families : ∀ id, (∃ f, c.family (.declared id) = .ok f) ↔ ∃ r ∈ s.families, r.id = id
  implicit : ∀ id, (∃ f, c.family (.implicit id) = .ok f) ↔
    ∃ r ∈ s.interfaceTypes, r.id = id ∧ r.family = none
  types : ∀ id, (∃ t, c.interfaceType id = .ok t) ↔ ∃ r ∈ s.interfaceTypes, r.id = id
  /-- A type has its relations from one of its records. -/
  type_relations : ∀ {id t}, c.interfaceType id = .ok t → ∃ r ∈ s.interfaceTypes, r.id = id ∧
    t.family = r.familyKey ∧ t.parents = r.parents ∧ t.compatibleTypes = r.compatibleTypes
  pins : ∀ id, (∃ p, c.interfacePin id = .ok p) ↔ ∃ r ∈ s.interfacePins, r.id = id
  pin_relations : ∀ r ∈ s.interfacePins, ∃ p, c.interfacePin r.id = .ok p ∧
    p.interfaceType = r.interfaceType ∧ ∀ o, o ∈ p.parentPins ↔ o ∈ r.parentPins
  parts : ∀ id part, c.connectivity id = .ok part ↔ part ∈ s.connectivities ∧ part.id = id

/-- Both directions of every relation agree with each other and with the records. -/
structure Consistent (s : Snapshot) (c : Catalog) : Prop where
  compatible : ∀ a b, (∃ p, c.interfacePin a = .ok p ∧ b ∈ p.compatiblePins) ↔
    s.DeclaresCompatible a b ∨ s.DeclaresCompatible b a
  childPins : ∀ a b, (∃ p, c.interfacePin a = .ok p ∧ b ∈ p.childPins) ↔
    ∃ q, c.interfacePin b = .ok q ∧ a ∈ q.parentPins
  childTypes : ∀ a b, (∃ t, c.interfaceType a = .ok t ∧ b ∈ t.children) ↔
    ∃ u, c.interfaceType b = .ok u ∧ a ∈ u.parents
  pins : ∀ a o, (∃ t, c.interfaceType a = .ok t ∧ o ∈ t.pins) ↔
    ∃ p, c.interfacePin o = .ok p ∧ p.interfaceType = a
  pins_nodup : ∀ {a t}, c.interfaceType a = .ok t → t.pins.Nodup

variable {s : Snapshot} {c : Catalog}

theorem Linked.recorded (h : Linked s c) : c.Recorded s where
  families := by
    intro id
    simp only [family_eq_ok, reduceCtorEq, false_and, false_or, ne_eq, not_false_eq_true, true_and,
      h.declared]
    constructor
    · rintro ⟨_, r, hr, hid, _⟩
      exact ⟨r, hr, hid⟩
    · rintro ⟨r, hr, hid⟩
      exact ⟨_, r, hr, hid, rfl⟩
  implicit := by
    intro id
    simp only [family_eq_ok, reduceCtorEq, false_and, false_or, ne_eq, not_false_eq_true, true_and,
      h.implicit, ← Option.isSome_iff_exists, Option.isSome_map, List.find?_isSome]
    simp [and_comm]
  types := by
    intro id
    constructor
    · rintro ⟨t, ht⟩
      obtain ⟨r, hr, hid, _⟩ := h.exists_typeRecord ht
      exact ⟨r, hr, hid⟩
    · rintro ⟨r, hr, rfl⟩
      exact h.exists_type hr
  type_relations := by
    intro id t ht
    obtain ⟨r, hr, hid, heq⟩ := h.exists_typeRecord ht
    exact ⟨r, hr, hid, by rw [heq]; rfl, by rw [heq]; rfl, by rw [heq]; rfl⟩
  pins := by
    intro id
    simp only [h.exists_pinRecord]
    constructor
    · rintro ⟨_, r, hr, hid, _⟩
      exact ⟨r, hr, hid⟩
    · rintro ⟨r, hr, hid⟩
      exact ⟨_, r, hr, hid, rfl⟩
  pin_relations r hr := ⟨_, h.exists_pinRecord.2 ⟨r, hr, rfl, rfl⟩, rfl,
    fun _ => mem_parentPins_linkedPin⟩
  parts _ _ := h.part_iff

/-- Every declared pair is found, from either end, and pins are in no other pairs. -/
theorem Linked.compatible (h : Linked s c) (a b : InterfacePinId) :
    (∃ p, c.interfacePin a = .ok p ∧ b ∈ p.compatiblePins) ↔
      s.DeclaresCompatible a b ∨ s.DeclaresCompatible b a := by
  constructor
  · rintro ⟨p, hp, hb⟩
    obtain ⟨r, hr, rfl, rfl⟩ := h.exists_pinRecord.1 hp
    exact (mem_compatiblePins_linkedPin.1 hb).imp_left fun hb => ⟨r, hr, rfl, hb⟩
  · rintro (⟨r, hr, rfl, hb⟩ | ⟨q, hq, rfl, ha⟩)
    · exact ⟨_, h.exists_pinRecord.2 ⟨r, hr, rfl, rfl⟩, mem_compatiblePins_linkedPin.2 (.inl hb)⟩
    · -- the pin that is declared at the other end is one that there is a record of
      obtain ⟨p, hp⟩ := exists_interfacePin_iff.2 ((h.pin_related q hq).1 a ha)
      obtain ⟨r, hr, rfl, rfl⟩ := h.exists_pinRecord.1 hp
      exact ⟨_, hp, mem_compatiblePins_linkedPin.2 (.inr ⟨q, hq, rfl, ha⟩)⟩

theorem Linked.consistent (h : Linked s c) : c.Consistent s where
  compatible := h.compatible
  childPins := by
    intro a b
    constructor
    · rintro ⟨p, hp, hb⟩
      exact (h.childPins hp b).1 hb
    · rintro ⟨q, hq, ha⟩
      obtain ⟨p, hp⟩ := h.resolved.pin_parents hq a ha
      exact ⟨p, hp, (h.childPins hp b).2 ⟨q, hq, ha⟩⟩
  childTypes := by
    intro a b
    constructor
    · rintro ⟨t, ht, hb⟩
      exact (h.childTypes ht b).1 hb
    · rintro ⟨u, hu, ha⟩
      obtain ⟨t, ht⟩ := h.resolved.type_parents hu a ha
      exact ⟨t, ht, (h.childTypes ht b).2 ⟨u, hu, ha⟩⟩
  pins := by
    intro a o
    constructor
    · rintro ⟨t, ht, ho⟩
      exact ((h.type_pins ht).2 o).1 ho
    · rintro ⟨p, hp, rfl⟩
      obtain ⟨t, ht⟩ := h.resolved.pin_type hp
      exact ⟨t, ht, ((h.type_pins ht).2 o).2 ⟨p, hp, rfl⟩⟩
  pins_nodup ht := (h.type_pins ht).1

/-- A linked catalog holds what it was linked from, is closed and consistent, and so every family of
it has its networks. -/
theorem consistent_ofSnapshot (h : ofSnapshot s = .ok c) :
    c.Recorded s ∧ c.Resolved ∧ c.Consistent s ∧
      ∀ key f, c.family key = .ok f → ∃ networks, c.logicalNetworks key = .ok networks := by
  have hlinked := linked_ofSnapshot h
  exact ⟨hlinked.recorded, hlinked.resolved, hlinked.consistent,
    fun _ _ hf => hlinked.resolved.closed.exists_logicalNetworks hf⟩

namespace Specimen

def lines : Snapshot where
  families := [{ id := ⟨⟨1⟩⟩, name := "serial", label := "UART" }]
  interfaceTypes := [
    { id := ⟨⟨2⟩⟩, name := "line", label := "line", family := some ⟨⟨1⟩⟩ },
    { id := ⟨⟨3⟩⟩, name := "sender", label := "sender", family := some ⟨⟨1⟩⟩, canBeRequired := true,
      parents := [⟨⟨2⟩⟩], compatibleTypes := [⟨⟨4⟩⟩] },
    { id := ⟨⟨4⟩⟩, name := "receiver", label := "receiver", family := some ⟨⟨1⟩⟩,
      parents := [⟨⟨2⟩⟩] },
    { id := ⟨⟨5⟩⟩, name := "supply", label := "supply" }]
  interfacePins := [
    { id := ⟨⟨6⟩⟩, interfaceType := ⟨⟨2⟩⟩, reference := "LINE", pinType := .digital },
    { id := ⟨⟨7⟩⟩, interfaceType := ⟨⟨3⟩⟩, reference := "TX", pinType := .digital,
      compatiblePins := [⟨⟨8⟩⟩], parentPins := [⟨⟨6⟩⟩] },
    { id := ⟨⟨8⟩⟩, interfaceType := ⟨⟨4⟩⟩, reference := "RX", pinType := .digital,
      parentPins := [⟨⟨6⟩⟩] }]
  connectivities := [
    { id := ⟨⟨9⟩⟩, name := "CHIP",
      pins := [{ id := ⟨⟨10⟩⟩, type := .digital, name := "PA9", number := "1" }],
      interfaces := [
        { type := ⟨⟨2⟩⟩, name := "UART",
          assignments := [{ interfacePin := ⟨⟨6⟩⟩, pins := [⟨⟨10⟩⟩] }] }] }]

end Specimen

/-- The sender's pin is compatible with the receiver's, which does not declare so itself, both are
children of the line's, and the family that they are in has its networks. -/
theorem consistent_ofSnapshot_specimen : ∃ c, ofSnapshot Specimen.lines = .ok c ∧
    c.Recorded Specimen.lines ∧ c.Resolved ∧ c.Consistent Specimen.lines ∧
    (∃ tx rx line, c.interfacePin ⟨⟨7⟩⟩ = .ok tx ∧ c.interfacePin ⟨⟨8⟩⟩ = .ok rx ∧
      c.interfacePin ⟨⟨6⟩⟩ = .ok line ∧ rx.id ∈ tx.compatiblePins ∧ tx.id ∈ rx.compatiblePins ∧
      tx.id ∈ line.childPins ∧ rx.id ∈ line.childPins) ∧
    ∃ networks, c.logicalNetworks (.declared ⟨⟨1⟩⟩) = .ok networks := by
  have hlinked : (ofSnapshot Specimen.lines).isOk = true := by decide +kernel
  obtain ⟨c, hc⟩ := isOk_iff.1 hlinked
  obtain ⟨hrecorded, hresolved, hconsistent, hnetworks⟩ := consistent_ofSnapshot hc
  have hdeclared : Specimen.lines.DeclaresCompatible ⟨⟨7⟩⟩ ⟨⟨8⟩⟩ := by decide
  obtain ⟨tx, htx, hrx⟩ := (hconsistent.compatible ⟨⟨7⟩⟩ ⟨⟨8⟩⟩).2 (.inl hdeclared)
  obtain ⟨rx, hrx', htx'⟩ := (hconsistent.compatible ⟨⟨8⟩⟩ ⟨⟨7⟩⟩).2 (.inr hdeclared)
  have hparent : ∀ id ∈ [(⟨⟨7⟩⟩ : InterfacePinId), ⟨⟨8⟩⟩],
      ∃ p, c.interfacePin id = .ok p ∧ ⟨⟨6⟩⟩ ∈ p.parentPins := by
    intro id hid
    obtain ⟨r, hr, rfl, hline⟩ : ∃ r ∈ Specimen.lines.interfacePins, r.id = id ∧
        ⟨⟨6⟩⟩ ∈ r.parentPins := by
      revert id
      decide
    obtain ⟨p, hp, -, hparents⟩ := hrecorded.pin_relations r hr
    exact ⟨p, hp, (hparents _).2 hline⟩
  obtain ⟨line, hline, htxChild⟩ := (hconsistent.childPins ⟨⟨6⟩⟩ ⟨⟨7⟩⟩).2 (hparent _ (by simp))
  obtain ⟨line', hline', hrxChild⟩ := (hconsistent.childPins ⟨⟨6⟩⟩ ⟨⟨8⟩⟩).2 (hparent _ (by simp))
  obtain rfl := Except.ok.inj (hline.symm.trans hline')
  obtain ⟨f, hf⟩ := (hrecorded.families ⟨⟨1⟩⟩).2 (by decide)
  refine ⟨c, hc, hrecorded, hresolved, hconsistent, ⟨tx, rx, line, htx, hrx', hline, ?_⟩,
    hnetworks _ f hf⟩
  rw [hresolved.pin_id htx, hresolved.pin_id hrx']
  exact ⟨hrx, htx', htxChild, hrxChild⟩

end Catalog
end BoardNets
