import BoardNets.Proofs.Catalog.Entries

/-! Linked catalogs have no dangling identifiers. A catalog is told by the records that it was linked
from, table by table, and what these tables name they hold: the types of a family, the pins of a
type and the pins compatible with a pin are all there. -/
namespace BoardNets
namespace Catalog

/-- Every question that starts from what the catalog holds is answered. -/
structure Closed (c : Catalog) : Prop where
  types : ∀ {key f id}, c.family key = .ok f → id ∈ f.types → ∃ t, c.interfaceType id = .ok t
  pins : ∀ {id t slot}, c.interfaceType id = .ok t → slot ∈ t.pins →
    ∃ p, c.interfacePin slot = .ok p
  keyed : ∀ {slot p}, c.interfacePin slot = .ok p → p.id = slot
  compatible : ∀ {slot p o}, c.interfacePin slot = .ok p → o ∈ p.compatiblePins →
    ∃ q, c.interfacePin o = .ok q

/-- Everything is found under its own identifier, and so is all that it names. -/
structure Resolved (c : Catalog) : Prop where
  family_key : ∀ {key f}, c.family key = .ok f → f.key = key
  family_types : ∀ {key f}, c.family key = .ok f → ∀ id ∈ f.types, ∃ t, c.interfaceType id = .ok t
  type_id : ∀ {id t}, c.interfaceType id = .ok t → t.id = id
  type_family : ∀ {id t}, c.interfaceType id = .ok t → ∃ f, c.family t.family = .ok f
  type_pins : ∀ {id t}, c.interfaceType id = .ok t → ∀ o ∈ t.pins, ∃ p, c.interfacePin o = .ok p
  type_parents : ∀ {id t}, c.interfaceType id = .ok t →
    ∀ o ∈ t.parents, ∃ u, c.interfaceType o = .ok u
  type_children : ∀ {id t}, c.interfaceType id = .ok t →
    ∀ o ∈ t.children, ∃ u, c.interfaceType o = .ok u
  type_compatible : ∀ {id t}, c.interfaceType id = .ok t →
    ∀ o ∈ t.compatibleTypes, ∃ u, c.interfaceType o = .ok u
  pin_id : ∀ {id p}, c.interfacePin id = .ok p → p.id = id
  pin_type : ∀ {id p}, c.interfacePin id = .ok p → ∃ t, c.interfaceType p.interfaceType = .ok t
  pin_compatible : ∀ {id p}, c.interfacePin id = .ok p →
    ∀ o ∈ p.compatiblePins, ∃ q, c.interfacePin o = .ok q
  pin_parents : ∀ {id p}, c.interfacePin id = .ok p →
    ∀ o ∈ p.parentPins, ∃ q, c.interfacePin o = .ok q
  pin_children : ∀ {id p}, c.interfacePin id = .ok p →
    ∀ o ∈ p.childPins, ∃ q, c.interfacePin o = .ok q
  part_id : ∀ {id part}, c.connectivity id = .ok part → part.id = id
  part_types : ∀ {id part}, c.connectivity id = .ok part →
    ∀ i ∈ part.interfaces, ∃ t, c.interfaceType i.type = .ok t
  part_slots : ∀ {id part}, c.connectivity id = .ok part →
    ∀ i ∈ part.interfaces, ∀ a ∈ i.assignments, ∃ p, c.interfacePin a.interfacePin = .ok p
  part_pins : ∀ {id part}, c.connectivity id = .ok part →
    ∀ i ∈ part.interfaces, ∀ a ∈ i.assignments, ∀ o ∈ a.pins, ∃ p, part.pin? o = some p

/-- What linking makes of records that it accepts, and what it has checked of them. -/
structure Linked (s : Snapshot) (c : Catalog) : Prop where
  declared : ∀ {id f}, c.families.find? (.declared id) = some f ↔
    ∃ r ∈ s.families, r.id = id ∧ f = { declaredFamily r with
      types := (s.interfaceTypes.filter fun t => t.family = some id).map InterfaceTypeRecord.id }
  implicit : ∀ id, c.families.find? (.implicit id) =
    (s.interfaceTypes.reverse.find? fun r => r.family = none ∧ r.id = id).map implicitFamily
  pin : ∀ {id p}, c.interfacePins.find? id = some p ↔
    ∃ r ∈ s.interfacePins, r.id = id ∧ linkedPin s.interfacePins r = p
  pin_ids : (s.interfacePins.map InterfacePinRecord.id).Nodup
  pin_related : ∀ r ∈ s.interfacePins, (∀ o ∈ r.compatiblePins, c.interfacePins.contains o = true) ∧
    ∀ o ∈ r.parentPins, c.interfacePins.contains o = true
  pin_typed : ∀ r ∈ s.interfacePins, c.interfaceTypes.contains r.interfaceType = true
  /-- The last record of an identifier, up to the children that others add. -/
  type : ∀ id, (c.interfaceTypes.find? id).map (fun t => { t with children := [] }) =
    (s.interfaceTypes.reverse.find? fun r => r.id = id).map (unlinkedType s.interfacePins)
  type_children : ∀ {id t}, c.interfaceTypes.find? id = some t → ∀ o, o ∈ t.children ↔
    ∃ u, c.interfaceTypes.find? o = some u ∧ id ∈ u.parents
  type_related : ∀ {id t}, c.interfaceTypes.find? id = some t →
    (∀ o ∈ t.compatibleTypes, c.interfaceTypes.contains o = true) ∧
      ∀ o ∈ t.parents, c.interfaceTypes.contains o = true
  type_family : ∀ {id t}, c.interfaceTypes.find? id = some t → c.families.contains t.family = true
  type_names : (s.interfaceTypes.map InterfaceTypeRecord.name).Nodup
  typeName : ∀ {name id}, c.typeNames.find? name = some id ↔
    ∃ r ∈ s.interfaceTypes, r.name = name ∧ r.id = id
  part : ∀ {id part}, c.connectivities.find? id = some part ↔ part ∈ s.connectivities ∧ part.id = id
  part_ids : (s.connectivities.map Connectivity.id).Nodup
  part_checked : ∀ part ∈ s.connectivities, CheckedPart c.interfaceTypes c.interfacePins part
  partName : ∀ name, c.connectivityNames.find? name =
    (s.connectivities.reverse.find? fun part => part.name = name).map Connectivity.id

theorem contains_enterFamily {families : SortedMap FamilyKey Family} {key : FamilyKey}
    (h : families.contains key = true) (r : InterfaceTypeRecord) :
    (enterFamily families r).contains key = true := by
  rw [enterFamily]
  split
  · rw [SortedMap.contains_modify, h]
  · exact SortedMap.contains_insert.2 (.inl h)

theorem contains_family {pins : List InterfacePinRecord} {records : List InterfaceTypeRecord}
    {families : SortedMap FamilyKey Family} {tables : TypeTables}
    (h : records.foldlM (addType pins) { families } = .ok tables) :
    ∀ id t, tables.types.find? id = some t → tables.families.contains t.family = true := by
  refine foldlM_keeps (P := fun tables : TypeTables => ∀ id t, tables.types.find? id = some t →
    tables.families.contains t.family = true) (fun tables tables' r _ hs hstep => ?_)
    (fun _ _ ht => by cases ht) h
  obtain ⟨_, hknown, rfl⟩ := addType_eq_ok hstep
  intro id t ht
  rw [SortedMap.find?_insert] at ht
  split at ht
  · rw [← Option.some.inj ht]
    exact hknown
  · exact contains_enterFamily (hs id t ht) r

theorem id_of_unlinked {pins : List InterfacePinRecord} {records : List InterfaceTypeRecord}
    {families : SortedMap FamilyKey Family} {tables : TypeTables}
    (h : records.foldlM (addType pins) { families } = .ok tables) {id : InterfaceTypeId}
    {u : InterfaceType} (hu : tables.types.find? id = some u) : u.id = id ∧ u.children = [] := by
  rw [find?_unlinkedTypes h rfl] at hu
  obtain ⟨r, hr, rfl⟩ := Option.map_eq_some_iff.1 hu
  have hid : r.id = id := by simpa using List.find?_some hr
  exact ⟨hid, rfl⟩

/-- A linked type is the one that was entered, with the types that name it as children. -/
theorem exists_unlinked {pins : List InterfacePinRecord} {records : List InterfaceTypeRecord}
    {families : SortedMap FamilyKey Family} {tables : TypeTables} {types : Types}
    (h : records.foldlM (addType pins) { families } = .ok tables)
    (hlink : linkTypes tables.types = .ok types) {id : InterfaceTypeId} {t : InterfaceType}
    (ht : types.find? id = some t) :
    ∃ u, tables.types.find? id = some u ∧
      t = { u with children := typeChildren tables.types id } := by
  rw [find?_linkedTypes hlink] at ht
  obtain ⟨u, hu, rfl⟩ := Option.map_eq_some_iff.1 ht
  exact ⟨u, hu, by rw [(id_of_unlinked h hu).2, List.nil_append]⟩

theorem linked_ofSnapshot {s : Snapshot} {c : Catalog} (h : ofSnapshot s = .ok c) : Linked s c := by
  obtain ⟨families, hfamilies, h⟩ := bind_eq_ok.1 h
  obtain ⟨unlinked, hunlinked, h⟩ := bind_eq_ok.1 h
  obtain ⟨pins, hpins, h⟩ := bind_eq_ok.1 h
  obtain ⟨tables, htables, h⟩ := bind_eq_ok.1 h
  obtain ⟨types, htypes, h⟩ := bind_eq_ok.1 h
  obtain ⟨_, htyped, h⟩ := bind_eq_ok.1 h
  obtain ⟨parts, hparts, h⟩ := bind_eq_ok.1 h
  obtain rfl := pure_eq_ok.1 h
  obtain ⟨hsame, hrelated⟩ := linkTypes_checked htypes
  constructor
  case declared =>
    intro id f
    show tables.families.find? (.declared id) = some f ↔ _
    simp only [find?_declaredFamily htables, Option.map_eq_some_iff, find?_families hfamilies,
      FamilyKey.declared.injEq]
    constructor
    · rintro ⟨_, ⟨r, hr, hid, rfl⟩, rfl⟩
      exact ⟨r, hr, hid, rfl⟩
    · rintro ⟨r, hr, hid, rfl⟩
      exact ⟨declaredFamily r, ⟨r, hr, hid, rfl⟩, rfl⟩
  case implicit =>
    intro id
    refine find?_implicitFamily htables id ?_
    rw [Option.eq_none_iff_forall_ne_some]
    intro f hf
    obtain ⟨_, _, hkey, _⟩ := (find?_families hfamilies).1 hf
    cases hkey
  case pin => exact find?_linkedPins hunlinked hpins
  case pin_ids => exact nodup_pins hunlinked
  case pin_related => exact fun r hr => linkPins_checked hunlinked hpins hr
  case pin_typed =>
    intro r hr
    have hpin := (find?_linkedPins hunlinked hpins).2 ⟨r, hr, rfl, rfl⟩
    exact requireType_eq_ok.1 (forM_eq_ok_iff.1 htyped _ (SortedMap.mem_values.2 ⟨r.id, hpin⟩))
  case type =>
    intro id
    show (types.find? id).map _ = _
    rw [find?_linkedTypes htypes, find?_unlinkedTypes htables rfl, Option.map_map, Option.map_map]
    rfl
  case type_children =>
    intro id t ht o
    show _ ↔ ∃ u, types.find? o = some u ∧ id ∈ u.parents
    obtain ⟨u, hu, rfl⟩ := exists_unlinked htables htypes ht
    rw [mem_typeChildren fun _ _ hu => (id_of_unlinked htables hu).1]
    simp [find?_linkedTypes htypes]
  case type_related =>
    intro id t ht
    obtain ⟨u, hu, rfl⟩ := exists_unlinked htables htypes ht
    exact hrelated u (SortedMap.mem_values.2 ⟨id, hu⟩)
  case type_family =>
    intro id t ht
    obtain ⟨u, hu, rfl⟩ := exists_unlinked htables htypes ht
    exact contains_family htables id u hu
  case type_names => exact nodup_typeNames htables
  case typeName => exact find?_typeNames htables rfl
  case part => exact find?_parts hparts
  case part_ids => exact nodup_parts hparts
  case part_checked => exact checkedParts hparts
  case partName => exact find?_partNames hparts

theorem elim_eq_ok {ν : Type} {v? : Option ν} {e : CatalogError} {v : ν} :
    (v?.elim (throw e) pure : Check ν) = .ok v ↔ v? = some v := by
  cases v? with
  | none => simp [throw_ne_ok]
  | some w => simp [pure_eq_ok]

theorem interfacePin_eq_ok {c : Catalog} {id : InterfacePinId} {p : InterfacePin} :
    c.interfacePin id = .ok p ↔ c.interfacePins.find? id = some p :=
  elim_eq_ok

theorem interfaceType_eq_ok {c : Catalog} {id : InterfaceTypeId} {t : InterfaceType} :
    c.interfaceType id = .ok t ↔ c.interfaceTypes.find? id = some t :=
  elim_eq_ok

theorem connectivity_eq_ok {c : Catalog} {id : ConnectivityId} {part : Connectivity} :
    c.connectivity id = .ok part ↔ c.connectivities.find? id = some part :=
  elim_eq_ok

/-- A type is a child of another as often as it names that one as a parent. -/
theorem count_children {s : Snapshot} {c : Catalog} (h : ofSnapshot s = .ok c)
    {a b : InterfaceTypeId} {t u : InterfaceType} (ht : c.interfaceType a = .ok t)
    (hu : c.interfaceType b = .ok u) : t.children.count b = u.parents.count a := by
  obtain ⟨families, _, h⟩ := bind_eq_ok.1 h
  obtain ⟨unlinked, _, h⟩ := bind_eq_ok.1 h
  obtain ⟨pins, _, h⟩ := bind_eq_ok.1 h
  obtain ⟨tables, htables, h⟩ := bind_eq_ok.1 h
  obtain ⟨types, htypes, h⟩ := bind_eq_ok.1 h
  obtain ⟨_, _, h⟩ := bind_eq_ok.1 h
  obtain ⟨parts, _, h⟩ := bind_eq_ok.1 h
  obtain rfl := pure_eq_ok.1 h
  obtain ⟨_, _, ht⟩ := exists_unlinked htables htypes (interfaceType_eq_ok.1 ht)
  obtain ⟨w, hw, hu⟩ := exists_unlinked htables htypes (interfaceType_eq_ok.1 hu)
  rw [ht, hu]
  show (typeChildren tables.types a).count b = w.parents.count a
  exact count_typeChildren (fun _ _ hv => (id_of_unlinked htables hv).1) hw

theorem exists_interfaceType_iff {c : Catalog} {id : InterfaceTypeId} :
    (∃ t, c.interfaceType id = .ok t) ↔ c.interfaceTypes.contains id = true := by
  simp only [interfaceType_eq_ok, SortedMap.contains_iff]

theorem exists_interfacePin_iff {c : Catalog} {id : InterfacePinId} :
    (∃ p, c.interfacePin id = .ok p) ↔ c.interfacePins.contains id = true := by
  simp only [interfacePin_eq_ok, SortedMap.contains_iff]

/-- The families of a catalog are those that it stores, and the one without types. -/
theorem family_eq_ok {c : Catalog} {key : FamilyKey} {f : Family} : c.family key = .ok f ↔
    (key = .doNotConnect ∧ f = .doNotConnect) ∨
      (key ≠ .doNotConnect ∧ c.families.find? key = some f) := by
  cases key with
  | declared id => simp [family, elim_eq_ok]
  | implicit type => simp [family, elim_eq_ok]
  | doNotConnect =>
    rw [family, pure_eq_ok]
    simp [eq_comm]

section Answers

variable {s : Snapshot} {c : Catalog}

theorem Linked.exists_typeRecord (h : Linked s c) {id : InterfaceTypeId} {t : InterfaceType}
    (ht : c.interfaceType id = .ok t) : ∃ r ∈ s.interfaceTypes, r.id = id ∧
      t = { unlinkedType s.interfacePins r with children := t.children } := by
  have htype := h.type id
  rw [interfaceType_eq_ok.1 ht, Option.map_some] at htype
  obtain ⟨r, hr, hsame⟩ := Option.map_eq_some_iff.1 htype.symm
  refine ⟨r, List.mem_reverse.1 (List.mem_of_find?_eq_some hr), by simpa using List.find?_some hr, ?_⟩
  rw [hsame]

/-- The type of every record is there, of this record or of a later one. -/
theorem Linked.exists_type (h : Linked s c) {r : InterfaceTypeRecord} (hr : r ∈ s.interfaceTypes) :
    ∃ t, c.interfaceType r.id = .ok t := by
  have htype := h.type r.id
  cases ht : c.interfaceTypes.find? r.id with
  | some t => exact ⟨t, interfaceType_eq_ok.2 ht⟩
  | none =>
    rw [ht, Option.map_none, eq_comm, Option.map_eq_none_iff, List.find?_eq_none] at htype
    simpa using htype r (List.mem_reverse.2 hr)

/-- The families of the catalog, each under its own key, list types of records that chose them. -/
theorem Linked.exists_records_of_family (h : Linked s c) {key : FamilyKey} {f : Family}
    (hf : c.family key = .ok f) : f.key = key ∧
      ∀ id ∈ f.types, ∃ r ∈ s.interfaceTypes, r.id = id ∧ r.familyKey = key := by
  rcases family_eq_ok.1 hf with ⟨rfl, rfl⟩ | ⟨_, hf⟩
  · exact ⟨rfl, fun _ hid => by cases hid⟩
  · cases key with
    | declared key =>
      obtain ⟨r, _, rfl, rfl⟩ := h.declared.1 hf
      refine ⟨rfl, fun id hid => ?_⟩
      obtain ⟨t, ht, rfl⟩ := List.mem_map.1 hid
      obtain ⟨ht, hfamily⟩ := List.mem_filter.1 ht
      refine ⟨t, ht, rfl, ?_⟩
      rw [InterfaceTypeRecord.familyKey, of_decide_eq_true hfamily, Option.elim_some]
    | implicit key =>
      rw [h.implicit] at hf
      obtain ⟨r, hfind, rfl⟩ := Option.map_eq_some_iff.1 hf
      obtain ⟨hfamily, rfl⟩ : r.family = none ∧ r.id = key := by simpa using List.find?_some hfind
      refine ⟨rfl, fun id hid => ⟨r, List.mem_reverse.1 (List.mem_of_find?_eq_some hfind),
        (List.mem_singleton.1 hid).symm, ?_⟩⟩
      rw [InterfaceTypeRecord.familyKey, hfamily, Option.elim_none]
    | doNotConnect => contradiction

theorem Linked.exists_pinRecord (h : Linked s c) {id : InterfacePinId} {p : InterfacePin} :
    c.interfacePin id = .ok p ↔
      ∃ r ∈ s.interfacePins, r.id = id ∧ linkedPin s.interfacePins r = p := by
  rw [interfacePin_eq_ok, h.pin]

theorem Linked.part_iff (h : Linked s c) {id : ConnectivityId} {part : Connectivity} :
    c.connectivity id = .ok part ↔ part ∈ s.connectivities ∧ part.id = id := by
  rw [connectivity_eq_ok, h.part]

theorem Linked.exists_family (h : Linked s c) {id : InterfaceTypeId} {t : InterfaceType}
    (ht : c.interfaceType id = .ok t) : ∃ f, c.family t.family = .ok f := by
  obtain ⟨f, hf⟩ := SortedMap.contains_iff.1 (h.type_family (interfaceType_eq_ok.1 ht))
  obtain ⟨r, _, _, heq⟩ := h.exists_typeRecord ht
  refine ⟨f, family_eq_ok.2 (.inr ⟨?_, hf⟩)⟩
  rw [heq]
  exact r.familyKey_ne

theorem Linked.type_pins (h : Linked s c) {a : InterfaceTypeId} {t : InterfaceType}
    (ht : c.interfaceType a = .ok t) : t.pins.Nodup ∧ ∀ o, o ∈ t.pins ↔
      ∃ p, c.interfacePin o = .ok p ∧ p.interfaceType = a := by
  obtain ⟨r, _, rfl, heq⟩ := h.exists_typeRecord ht
  rw [heq]
  constructor
  · exact h.pin_ids.sublist (List.filter_sublist.map _)
  · intro o
    simp only [h.exists_pinRecord, unlinkedType, List.mem_map, List.mem_filter, decide_eq_true_eq]
    constructor
    · rintro ⟨q, ⟨hq, htype⟩, rfl⟩
      exact ⟨_, ⟨q, hq, rfl, rfl⟩, htype⟩
    · rintro ⟨_, ⟨q, hq, rfl, rfl⟩, htype⟩
      exact ⟨q, ⟨hq, htype⟩, rfl⟩

theorem Linked.childPins (h : Linked s c) {a : InterfacePinId} {p : InterfacePin}
    (hp : c.interfacePin a = .ok p) (b : InterfacePinId) :
    b ∈ p.childPins ↔ ∃ q, c.interfacePin b = .ok q ∧ a ∈ q.parentPins := by
  obtain ⟨r, _, rfl, rfl⟩ := h.exists_pinRecord.1 hp
  simp only [mem_childPins_linkedPin, h.exists_pinRecord]
  constructor
  · rintro ⟨q, hq, rfl, hparent⟩
    exact ⟨_, ⟨q, hq, rfl, rfl⟩, mem_parentPins_linkedPin.2 hparent⟩
  · rintro ⟨_, ⟨q, hq, rfl, rfl⟩, hparent⟩
    exact ⟨q, hq, rfl, mem_parentPins_linkedPin.1 hparent⟩

theorem Linked.childTypes (h : Linked s c) {a : InterfaceTypeId} {t : InterfaceType}
    (ht : c.interfaceType a = .ok t) (b : InterfaceTypeId) :
    b ∈ t.children ↔ ∃ u, c.interfaceType b = .ok u ∧ a ∈ u.parents := by
  simp only [interfaceType_eq_ok]
  exact h.type_children (interfaceType_eq_ok.1 ht) b

theorem Linked.resolved (h : Linked s c) : c.Resolved where
  family_key hf := (h.exists_records_of_family hf).1
  family_types := by
    intro key f hf id hid
    obtain ⟨r, hr, rfl, _⟩ := (h.exists_records_of_family hf).2 id hid
    exact h.exists_type hr
  type_id := by
    intro id t ht
    obtain ⟨r, _, rfl, heq⟩ := h.exists_typeRecord ht
    rw [heq]
    rfl
  type_family := h.exists_family
  type_pins := by
    intro id t ht o ho
    obtain ⟨p, hp, _⟩ := ((h.type_pins ht).2 o).1 ho
    exact ⟨p, hp⟩
  type_parents ht o ho :=
    exists_interfaceType_iff.2 ((h.type_related (interfaceType_eq_ok.1 ht)).2 o ho)
  type_children := by
    intro id t ht o ho
    obtain ⟨u, hu, _⟩ := (h.childTypes ht o).1 ho
    exact ⟨u, hu⟩
  type_compatible ht o ho :=
    exists_interfaceType_iff.2 ((h.type_related (interfaceType_eq_ok.1 ht)).1 o ho)
  pin_id := by
    intro id p hp
    obtain ⟨r, _, rfl, rfl⟩ := h.exists_pinRecord.1 hp
    rfl
  pin_type := by
    intro id p hp
    obtain ⟨r, hr, _, rfl⟩ := h.exists_pinRecord.1 hp
    exact exists_interfaceType_iff.2 (h.pin_typed r hr)
  pin_compatible := by
    intro id p hp o ho
    obtain ⟨r, hr, _, rfl⟩ := h.exists_pinRecord.1 hp
    rcases mem_compatiblePins_linkedPin.1 ho with ho | ⟨q, hq, rfl, _⟩
    · exact exists_interfacePin_iff.2 ((h.pin_related r hr).1 o ho)
    · exact ⟨_, h.exists_pinRecord.2 ⟨q, hq, rfl, rfl⟩⟩
  pin_parents := by
    intro id p hp o ho
    obtain ⟨r, hr, _, rfl⟩ := h.exists_pinRecord.1 hp
    exact exists_interfacePin_iff.2
      ((h.pin_related r hr).2 o (mem_parentPins_linkedPin.1 ho))
  pin_children := by
    intro id p hp o ho
    obtain ⟨q, hq, _⟩ := (h.childPins hp o).1 ho
    exact ⟨q, hq⟩
  part_id hpart := (h.part_iff.1 hpart).2
  part_types hpart i hi :=
    exists_interfaceType_iff.2 ((h.part_checked _ (h.part_iff.1 hpart).1).types i hi)
  part_slots hpart i hi a ha :=
    exists_interfacePin_iff.2 ((h.part_checked _ (h.part_iff.1 hpart).1).slots i hi a ha)
  part_pins hpart := (h.part_checked _ (h.part_iff.1 hpart).1).pins

theorem Resolved.closed (h : c.Resolved) : c.Closed where
  types hf hid := h.family_types hf _ hid
  pins ht hslot := h.type_pins ht _ hslot
  keyed hp := h.pin_id hp
  compatible hp ho := h.pin_compatible hp _ ho

theorem closed_ofSnapshot (h : ofSnapshot s = .ok c) : c.Closed :=
  (linked_ofSnapshot h).resolved.closed

end Answers

end Catalog
end BoardNets
