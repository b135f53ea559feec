import BoardNets.Proofs.Catalog.Linking

/-! What linking keeps of the records. Families, interface pins and parts are all found again under
their identifiers, for each of these is entered once only. Types are told apart by their names alone
and parts by their identifiers alone: of the types with one identifier and of the parts with one
name, the last record takes the place of those before it. -/
namespace BoardNets

/-- Keys that what is told apart can be read from are told apart themselves. -/
theorem nodup_of_read {α κ ν : Type} {l : List α} {key : α → κ} {name : α → ν}
    (read : κ → Option ν) (hread : ∀ a ∈ l, read (key a) = some (name a))
    (hnames : (l.map name).Nodup) : (l.map key).Nodup := by
  refine List.Nodup.of_map read ?_
  have hmap : (l.map key).map read = (l.map name).map some := by
    simpa using hread
  rw [hmap]
  exact hnames.map fun _ _ => Option.some.inj

/-- The family has what the record says. -/
structure FamilyRecord.Describes (r : FamilyRecord) (f : Family) : Prop where
  key : f.key = .declared r.id
  name : f.name = r.name
  label : f.label = r.label

/-- The pin has what the record says. Pins that name this one may be compatible with it too. -/
structure InterfacePinRecord.Describes (r : InterfacePinRecord) (p : InterfacePin) : Prop where
  id : p.id = r.id
  interfaceType : p.interfaceType = r.interfaceType
  reference : p.reference = r.reference
  pinType : p.pinType = r.pinType
  isRequired : p.isRequired = r.isRequired
  sharing : p.sharing = r.sharing
  multipleUse : p.multipleUse = r.multipleUse
  compatiblePins : ∀ o ∈ r.compatiblePins, o ∈ p.compatiblePins
  parentPins : ∀ o, o ∈ p.parentPins ↔ o ∈ r.parentPins

/-- The type has what the record says, and the pins of the records that name it. -/
structure InterfaceTypeRecord.Describes (r : InterfaceTypeRecord) (pins : List InterfacePinRecord)
    (t : InterfaceType) : Prop where
  id : t.id = r.id
  name : t.name = r.name
  label : t.label = r.label
  family : t.family = r.familyKey
  function : t.function = r.function
  canBeRequired : t.canBeRequired = r.canBeRequired
  canBeSpecialised : t.canBeSpecialised = r.canBeSpecialised
  pins : t.pins = (pins.filter fun p => p.interfaceType = r.id).map InterfacePinRecord.id
  parents : t.parents = r.parents
  compatibleTypes : t.compatibleTypes = r.compatibleTypes

namespace Snapshot

/-- The last type record with an identifier. -/
def lastType (s : Snapshot) (id : InterfaceTypeId) : Option InterfaceTypeRecord :=
  s.interfaceTypes.reverse.find? fun r => r.id = id

/-- The last part with a name. -/
def lastPart (s : Snapshot) (name : String) : Option Connectivity :=
  s.connectivities.reverse.find? fun part => part.name = name

end Snapshot

namespace Catalog

/-- The family of the record lists its type once, and no other family does. -/
def ListsOnce (c : Catalog) (r : InterfaceTypeRecord) : Prop :=
  (∃ f, c.family r.familyKey = .ok f ∧ f.types.count r.id = 1) ∧
    ∀ key f, c.family key = .ok f → r.id ∈ f.types → key = r.familyKey

/-- No record is lost: each is found by its identifier and by its name. -/
structure Keeps (s : Snapshot) (c : Catalog) : Prop where
  families : ∀ r ∈ s.families, ∃ f, c.family (.declared r.id) = .ok f ∧ r.Describes f
  pins : ∀ r ∈ s.interfacePins, ∃ p, c.interfacePin r.id = .ok p ∧ r.Describes p
  parts : ∀ part ∈ s.connectivities, c.connectivity part.id = .ok part
  types : ∀ r ∈ s.interfaceTypes, ∃ t, c.interfaceType r.id = .ok t ∧
    r.Describes s.interfacePins t ∧ c.interfaceTypeNamed r.name = .ok t
  listed : ∀ r ∈ s.interfaceTypes, c.ListsOnce r
  partNames : ∀ part ∈ s.connectivities, c.connectivityNamed part.name = .ok part

theorem interfaceTypeNamed_eq_ok {c : Catalog} {name : String} {t : InterfaceType} :
    c.interfaceTypeNamed name = .ok t ↔
      ∃ id, c.typeNames.find? name = some id ∧ c.interfaceType id = .ok t := by
  rw [interfaceTypeNamed, elim_eq_ok]
  simp [interfaceType_eq_ok, Option.bind_eq_some_iff]

theorem connectivityNamed_eq_ok {c : Catalog} {name : String} {part : Connectivity} :
    c.connectivityNamed name = .ok part ↔
      ∃ id, c.connectivityNames.find? name = some id ∧ c.connectivity id = .ok part := by
  rw [connectivityNamed, elim_eq_ok]
  simp [connectivity_eq_ok, Option.bind_eq_some_iff]

variable {s : Snapshot} {c : Catalog}

theorem describes_declaredFamily (r : FamilyRecord) (types : List InterfaceTypeId) :
    r.Describes { declaredFamily r with types } where
  key := rfl
  name := rfl
  label := rfl

theorem describes_linkedPin (records : List InterfacePinRecord) (r : InterfacePinRecord) :
    r.Describes (linkedPin records r) where
  id := rfl
  interfaceType := rfl
  reference := rfl
  pinType := rfl
  isRequired := rfl
  sharing := rfl
  multipleUse := rfl
  compatiblePins _ ho := mem_compatiblePins_linkedPin.2 (.inl ho)
  parentPins _ := mem_parentPins_linkedPin

theorem describes_unlinkedType (pins : List InterfacePinRecord) (r : InterfaceTypeRecord)
    (children : List InterfaceTypeId) :
    r.Describes pins { unlinkedType pins r with children } where
  id := rfl
  name := rfl
  label := rfl
  family := rfl
  function := rfl
  canBeRequired := rfl
  canBeSpecialised := rfl
  pins := rfl
  parents := rfl
  compatibleTypes := rfl

theorem Linked.keeps_family (h : Linked s c) {r : FamilyRecord} (hr : r ∈ s.families) :
    ∃ f, c.family (.declared r.id) = .ok f ∧ r.Describes f :=
  ⟨_, family_eq_ok.2 (.inr ⟨by simp, h.declared.2 ⟨r, hr, rfl, rfl⟩⟩), describes_declaredFamily r _⟩

theorem Linked.keeps_pin (h : Linked s c) {r : InterfacePinRecord} (hr : r ∈ s.interfacePins) :
    ∃ p, c.interfacePin r.id = .ok p ∧ r.Describes p :=
  ⟨_, h.exists_pinRecord.2 ⟨r, hr, rfl, rfl⟩, describes_linkedPin s.interfacePins r⟩

theorem Linked.keeps_part (h : Linked s c) {part : Connectivity} (hpart : part ∈ s.connectivities) :
    c.connectivity part.id = .ok part :=
  h.part_iff.2 ⟨hpart, rfl⟩

theorem Linked.exists_lastType (h : Linked s c) {r : InterfaceTypeRecord}
    (hr : r ∈ s.interfaceTypes) : ∃ t q, c.interfaceType r.id = .ok t ∧
      s.lastType r.id = some q ∧ q ∈ s.interfaceTypes ∧ q.Describes s.interfacePins t := by
  obtain ⟨t, ht⟩ := h.exists_type hr
  have htype := h.type r.id
  rw [interfaceType_eq_ok.1 ht, Option.map_some] at htype
  obtain ⟨q, hq, hsame⟩ := Option.map_eq_some_iff.1 htype.symm
  refine ⟨t, q, ht, hq, List.mem_reverse.1 (List.mem_of_find?_eq_some hq), ?_⟩
  have hdescribes := describes_unlinkedType s.interfacePins q t.children
  rwa [hsame] at hdescribes

theorem Linked.keeps_type_iff (h : Linked s c) {r : InterfaceTypeRecord}
    (hr : r ∈ s.interfaceTypes) :
    (∃ t, c.interfaceType r.id = .ok t ∧ r.Describes s.interfacePins t) ↔
      s.lastType r.id = some r := by
  obtain ⟨t, q, ht, hlast, hq, hdescribes⟩ := h.exists_lastType hr
  constructor
  · rintro ⟨t', ht', hdescribes'⟩
    obtain rfl : t = t' := Except.ok.inj (ht.symm.trans ht')
    -- Identifiers may repeat, but names do not, and the type has one name.
    have hname : q.name = r.name := hdescribes.name.symm.trans hdescribes'.name
    rwa [List.inj_on_of_nodup_map h.type_names hq hr hname] at hlast
  · intro hlast'
    obtain rfl : q = r := Option.some.inj (hlast.symm.trans hlast')
    exact ⟨t, ht, hdescribes⟩

theorem Linked.keeps_partName_iff (h : Linked s c) {part : Connectivity}
    (hpart : part ∈ s.connectivities) :
    c.connectivityNamed part.name = .ok part ↔ s.lastPart part.name = some part := by
  rw [connectivityNamed_eq_ok, h.partName]
  show (∃ id, (s.lastPart part.name).map Connectivity.id = some id ∧ _) ↔ _
  constructor
  · rintro ⟨id, hid, hfound⟩
    obtain ⟨last, hlast, rfl⟩ := Option.map_eq_some_iff.1 hid
    have hmem : last ∈ s.connectivities := List.mem_reverse.1 (List.mem_of_find?_eq_some hlast)
    rw [hlast, Except.ok.inj ((h.keeps_part hmem).symm.trans hfound)]
  · intro hlast
    exact ⟨part.id, by rw [hlast, Option.map_some], h.keeps_part hpart⟩

theorem Linked.interfaceTypeNamed_eq_ok (h : Linked s c) {r : InterfaceTypeRecord}
    (hr : r ∈ s.interfaceTypes) {t : InterfaceType} (ht : c.interfaceType r.id = .ok t) :
    c.interfaceTypeNamed r.name = .ok t :=
  Catalog.interfaceTypeNamed_eq_ok.2 ⟨r.id, h.typeName.2 ⟨r, hr, rfl, rfl⟩, ht⟩

/-- Where identifiers tell the types apart, a family that types join lists each of them once. -/
theorem Linked.count_types (h : Linked s c)
    (hids : (s.interfaceTypes.map InterfaceTypeRecord.id).Nodup) {r : InterfaceTypeRecord}
    (hr : r ∈ s.interfaceTypes) {f : Family} (hf : c.families.find? r.familyKey = some f) :
    f.types.count r.id = 1 := by
  rw [InterfaceTypeRecord.familyKey] at hf
  cases hfamily : r.family with
  | some key =>
    rw [hfamily, Option.elim_some, h.declared] at hf
    obtain ⟨_, _, _, rfl⟩ := hf
    refine List.count_eq_one_of_mem (hids.sublist (List.filter_sublist.map _)) ?_
    exact List.mem_map.2 ⟨r, List.mem_filter.2 ⟨hr, by simpa using hfamily⟩, rfl⟩
  | none =>
    rw [hfamily, Option.elim_none, h.implicit] at hf
    obtain ⟨last, hlast, rfl⟩ := Option.map_eq_some_iff.1 hf
    obtain ⟨_, hid⟩ : last.family = none ∧ last.id = r.id := by simpa using List.find?_some hlast
    simp [implicitFamily, hid]

/-- Where identifiers tell the types apart, no type joins two families or one twice. -/
theorem Linked.listsOnce (h : Linked s c)
    (hids : (s.interfaceTypes.map InterfaceTypeRecord.id).Nodup) {r : InterfaceTypeRecord}
    (hr : r ∈ s.interfaceTypes) : c.ListsOnce r := by
  constructor
  · obtain ⟨t, ht, hdescribes⟩ := (h.keeps_type_iff hr).2
      ((find?_reverse_eq_some_iff hids).2 ⟨hr, rfl⟩)
    obtain ⟨f, hf⟩ := h.exists_family ht
    rw [hdescribes.family] at hf
    refine ⟨f, hf, ?_⟩
    rcases family_eq_ok.1 hf with ⟨hkey, _⟩ | ⟨_, hf⟩
    · exact absurd hkey r.familyKey_ne
    · exact h.count_types hids hr hf
  · intro key f hf hid
    obtain ⟨q, hq, hid, hkey⟩ := (h.exists_records_of_family hf).2 r.id hid
    rw [← hkey, List.inj_on_of_nodup_map hids hq hr hid]

/-- Nothing is lost where identifiers tell the types apart and names the parts, and only there. -/
theorem Linked.keeps_iff (h : Linked s c) : c.Keeps s ↔
    (s.interfaceTypes.map InterfaceTypeRecord.id).Nodup ∧
      (s.connectivities.map Connectivity.name).Nodup := by
  constructor
  · intro hkeeps
    constructor
    · refine nodup_of_read (fun id => (c.interfaceType id).toOption.map InterfaceType.name)
        (fun r hr => ?_) h.type_names
      obtain ⟨t, ht, hdescribes, _⟩ := hkeeps.types r hr
      simp [ht, Except.toOption, hdescribes.name]
    · refine nodup_of_read (fun name => (c.connectivityNamed name).toOption.map Connectivity.id)
        (fun part hpart => ?_) h.part_ids
      simp [hkeeps.partNames part hpart, Except.toOption]
  · rintro ⟨hids, hnames⟩
    constructor
    case families => exact fun _ => h.keeps_family
    case pins => exact fun _ => h.keeps_pin
    case parts => exact fun _ => h.keeps_part
    case types =>
      intro r hr
      obtain ⟨t, ht, hdescribes⟩ := (h.keeps_type_iff hr).2
        ((find?_reverse_eq_some_iff hids).2 ⟨hr, rfl⟩)
      exact ⟨t, ht, hdescribes, h.interfaceTypeNamed_eq_ok hr ht⟩
    case listed => exact fun _ => h.listsOnce hids
    case partNames =>
      intro part hpart
      exact (h.keeps_partName_iff hpart).2 ((find?_reverse_eq_some_iff hnames).2 ⟨hpart, rfl⟩)

/-- Linking keeps every family, every interface pin and every part under its identifier. It keeps
the last type of each identifier and finds the last part of each name, so that it loses no record
where identifiers tell the types apart and names the parts, and only there. -/
theorem keeps_records (h : ofSnapshot s = .ok c) :
    (∀ r ∈ s.families, ∃ f, c.family (.declared r.id) = .ok f ∧ r.Describes f) ∧
    (∀ r ∈ s.interfacePins, ∃ p, c.interfacePin r.id = .ok p ∧ r.Describes p) ∧
    (∀ part ∈ s.connectivities, c.connectivity part.id = .ok part) ∧
    (∀ r ∈ s.interfaceTypes, (∃ t, c.interfaceType r.id = .ok t ∧ r.Describes s.interfacePins t) ↔
      s.lastType r.id = some r) ∧
    (∀ part ∈ s.connectivities, c.connectivityNamed part.name = .ok part ↔
      s.lastPart part.name = some part) ∧
    (c.Keeps s ↔ (s.interfaceTypes.map InterfaceTypeRecord.id).Nodup ∧
      (s.connectivities.map Connectivity.name).Nodup) := by
  have hlinked := linked_ofSnapshot h
  exact ⟨fun _ => hlinked.keeps_family, fun _ => hlinked.keeps_pin, fun _ => hlinked.keeps_part,
    fun _ => hlinked.keeps_type_iff, fun _ => hlinked.keeps_partName_iff, hlinked.keeps_iff⟩

namespace Specimen

/-- The identifier of the receiver and the name of the second part tell them from the first. -/
def pairs (receiver : InterfaceTypeId) (second : String) : Snapshot where
  families := [{ id := ⟨⟨1⟩⟩, name := "serial", label := "UART" }]
  interfaceTypes := [
    { id := ⟨⟨2⟩⟩, name := "sender", label := "TX", family := some ⟨⟨1⟩⟩, canBeRequired := true },
    { id := receiver, name := "receiver", label := "RX" }]
  interfacePins := [
    { id := ⟨⟨4⟩⟩, interfaceType := ⟨⟨2⟩⟩, reference := "TX", pinType := .digital }]
  connectivities := [{ id := ⟨⟨5⟩⟩, name := "CHIP" }, { id := ⟨⟨6⟩⟩, name := second }]

end Specimen

theorem keeps_records_specimen : ∃ c, ofSnapshot (Specimen.pairs ⟨⟨3⟩⟩ "BOARD") = .ok c ∧
    c.Keeps (Specimen.pairs ⟨⟨3⟩⟩ "BOARD") := by
  have hlinked : (ofSnapshot (Specimen.pairs ⟨⟨3⟩⟩ "BOARD")).isOk = true := by decide +kernel
  obtain ⟨c, hc⟩ := isOk_iff.1 hlinked
  obtain ⟨_, _, _, _, _, hkeeps⟩ := keeps_records hc
  exact ⟨c, hc, hkeeps.2 (by decide)⟩

/-- A receiver with the identifier of the sender takes its place, and so does a part with the name
of another one. -/
theorem records_are_lost :
    (∃ c, ofSnapshot (Specimen.pairs ⟨⟨2⟩⟩ "BOARD") = .ok c ∧
      ¬c.Keeps (Specimen.pairs ⟨⟨2⟩⟩ "BOARD")) ∧
    ∃ c, ofSnapshot (Specimen.pairs ⟨⟨3⟩⟩ "CHIP") = .ok c ∧
      ¬c.Keeps (Specimen.pairs ⟨⟨3⟩⟩ "CHIP") := by
  constructor
  · have hlinked : (ofSnapshot (Specimen.pairs ⟨⟨2⟩⟩ "BOARD")).isOk = true := by decide +kernel
    obtain ⟨c, hc⟩ := isOk_iff.1 hlinked
    exact ⟨c, hc, (linked_ofSnapshot hc).keeps_iff.not.2 (by decide)⟩
  · have hlinked : (ofSnapshot (Specimen.pairs ⟨⟨3⟩⟩ "CHIP")).isOk = true := by decide +kernel
    obtain ⟨c, hc⟩ := isOk_iff.1 hlinked
    exact ⟨c, hc, (linked_ofSnapshot hc).keeps_iff.not.2 (by decide)⟩

end Catalog
end BoardNets
