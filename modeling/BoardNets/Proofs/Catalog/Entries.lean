import BoardNets.Catalog.Linking
import BoardNets.Proofs.Traversal
import Mathlib.Data.List.Count
import Mathlib.Data.List.Nodup

/-! What linking enters. Every table of a catalog is told from the records that filled it: what is
found under a key was made of the last record with that key, and where keys are told apart this is
the only one. Linked pins and types have what their records declare, and the other direction of
each relation. -/
namespace BoardNets

/-- Where keys are told apart, the last element with a key is the only one. -/
theorem find?_reverse_eq_some_iff {α κ : Type} [DecidableEq κ] {key : α → κ} {l : List α}
    (hl : (l.map key).Nodup) {k : κ} {a : α} :
    l.reverse.find? (fun b => key b = k) = some a ↔ a ∈ l ∧ key a = k := by
  have hsound {b : α} (hb : l.reverse.find? (fun b => key b = k) = some b) : b ∈ l ∧ key b = k :=
    ⟨List.mem_reverse.1 (List.mem_of_find?_eq_some hb), by simpa using List.find?_some hb⟩
  refine ⟨hsound, fun ⟨ha, hk⟩ => ?_⟩
  cases hfind : l.reverse.find? fun b => key b = k with
  | none =>
    rw [List.find?_eq_none] at hfind
    exact absurd hk (by simpa using hfind a (List.mem_reverse.2 ha))
  | some b =>
    obtain ⟨hb, hkb⟩ := hsound hfind
    rw [List.inj_on_of_nodup_map hl hb ha (hkb.trans hk.symm)]

namespace SortedMap

open Std

variable {α ε κ ν σ : Type} [Ord κ]

theorem contains_iff {m : SortedMap κ ν} {k : κ} : m.contains k = true ↔ ∃ v, m.find? k = some v :=
  Option.isSome_iff_exists

variable [TransOrd κ] [LawfulEqOrd κ]

theorem mem_values {m : SortedMap κ ν} {v : ν} : v ∈ m.values ↔ ∃ k, m.find? k = some v := by
  simp [values, find?_eq_some_iff]

variable [DecidableEq κ] {f : σ → α → Except ε σ} {xs : List α} {s t : σ}

theorem contains_modify {m : SortedMap κ ν} {k k' : κ} {g : ν → ν} :
    (m.modify k g).contains k' = m.contains k' := by
  by_cases h : k' = k
  · simp [contains, h]
  · simp [contains, h]

theorem contains_insert {m : SortedMap κ ν} {k k' : κ} {v : ν} :
    (m.insert k v).contains k' = true ↔ m.contains k' = true ∨ k = k' := by
  by_cases h : k' = k
  · simp [contains, h]
  · simp [contains, h, Ne.symm h]

variable (table : σ → SortedMap κ ν) (key : α → κ) (value : α → ν)

theorem find?_of_foldlM
    (step : ∀ s x t, f s x = .ok t → table t = (table s).insert (key x) (value x))
    (hs : table s = ∅) (h : xs.foldlM f s = .ok t) (k : κ) :
    (table t).find? k = (xs.reverse.find? fun x => key x = k).map value := by
  have hlast := replaced_of_foldlM (V := fun s => (table s).find? k) (p := fun x => key x = k)
    (g := value) (fun s x t hstep => by simp [step s x t hstep, eq_comm]) h
  simpa [hs] using hlast

variable (step : ∀ s x t, f s x = .ok t → (table s).contains (key x) = false ∧
  table t = (table s).insert (key x) (value x))

include step

theorem nodup_of_foldlM (h : xs.foldlM f s = .ok t) : (xs.map key).Nodup := by
  refine (BoardNets.nodup_of_foldlM (M := fun s k => (table s).contains k = true) ?_ h).1
  intro s x t hstep
  obtain ⟨hnew, henter⟩ := step s x t hstep
  exact ⟨by simp [hnew], fun k => by rw [henter, contains_insert]⟩

theorem find?_eq_some_of_foldlM (hs : table s = ∅) (h : xs.foldlM f s = .ok t) {k : κ} {v : ν} :
    (table t).find? k = some v ↔ ∃ x ∈ xs, key x = k ∧ value x = v := by
  rw [find?_of_foldlM table key value (fun s x t hstep => (step s x t hstep).2) hs h]
  simp only [Option.map_eq_some_iff, find?_reverse_eq_some_iff (nodup_of_foldlM table key value step h),
    and_assoc]

end SortedMap

def InterfaceTypeRecord.familyKey (r : InterfaceTypeRecord) : FamilyKey :=
  r.family.elim (.implicit r.id) .declared

theorem InterfaceTypeRecord.familyKey_ne (r : InterfaceTypeRecord) :
    r.familyKey ≠ .doNotConnect := by
  rw [familyKey]
  cases r.family <;> simp

namespace Catalog

def declaredFamily (r : FamilyRecord) : Family :=
  { key := .declared r.id, name := r.name, label := r.label }

def implicitFamily (r : InterfaceTypeRecord) : Family :=
  { key := .implicit r.id, name := r.name, label := r.label, types := [r.id] }

theorem addFamily_eq_ok {families families' : SortedMap FamilyKey Family} {r : FamilyRecord}
    (h : addFamily families r = .ok families') : families.contains (.declared r.id) = false ∧
      families' = families.insert (.declared r.id) (declaredFamily r) := by
  rw [addFamily] at h
  split at h
  · exact absurd h throw_ne_ok
  · rename_i hnew
    exact ⟨by simpa using hnew, (pure_eq_ok.1 h).symm⟩

theorem find?_families {records : List FamilyRecord} {families : SortedMap FamilyKey Family}
    (h : records.foldlM addFamily ∅ = .ok families) {key : FamilyKey} {f : Family} :
    families.find? key = some f ↔
      ∃ r ∈ records, FamilyKey.declared r.id = key ∧ declaredFamily r = f :=
  SortedMap.find?_eq_some_of_foldlM (fun m => m) (fun r => .declared r.id) declaredFamily
    (fun _ _ _ => addFamily_eq_ok) rfl h

/-- What linking makes of the record of an interface pin: compatible in both directions, and with
the pins that name it as a parent. -/
def linkedPin (records : List InterfacePinRecord) (r : InterfacePinRecord) : InterfacePin :=
  { unlinkedPin r with
    compatiblePins := .ofList (r.compatiblePins ++
      (records.filter fun q => q.compatiblePins.contains r.id).map InterfacePinRecord.id)
    childPins := .ofList ((records.filter fun q => q.parentPins.contains r.id).map InterfacePinRecord.id) }

@[simp] theorem mem_compatiblePins_linkedPin {records : List InterfacePinRecord}
    {r : InterfacePinRecord} {o : InterfacePinId} : o ∈ (linkedPin records r).compatiblePins ↔
      o ∈ r.compatiblePins ∨ ∃ q ∈ records, q.id = o ∧ r.id ∈ q.compatiblePins := by
  simp [linkedPin, and_comm, and_left_comm]

@[simp] theorem mem_parentPins_linkedPin {records : List InterfacePinRecord}
    {r : InterfacePinRecord} {o : InterfacePinId} :
    o ∈ (linkedPin records r).parentPins ↔ o ∈ r.parentPins := by
  simp [linkedPin, unlinkedPin]

@[simp] theorem mem_childPins_linkedPin {records : List InterfacePinRecord}
    {r : InterfacePinRecord} {o : InterfacePinId} : o ∈ (linkedPin records r).childPins ↔
      ∃ q ∈ records, q.id = o ∧ r.id ∈ q.parentPins := by
  simp [linkedPin, and_comm, and_left_comm]

section Pins

variable {records : List InterfacePinRecord} {unlinked pins pins' : Pins}

theorem addPin_eq_ok {r : InterfacePinRecord} (h : addPin pins r = .ok pins') :
    pins.contains r.id = false ∧ pins' = pins.insert r.id (unlinkedPin r) := by
  rw [addPin] at h
  split at h
  · exact absurd h throw_ne_ok
  · rename_i hnew
    exact ⟨by simpa using hnew, (pure_eq_ok.1 h).symm⟩

theorem relatePin_eq_ok {change : InterfacePinId → InterfacePin → InterfacePin}
    {relation : InterfacePinId × InterfacePinId} (h : relatePin change pins relation = .ok pins') :
    pins.contains relation.1 = true ∧ pins' = pins.modify relation.1 (change relation.2) := by
  rw [relatePin] at h
  split at h
  · rename_i hknown
    exact ⟨hknown, (pure_eq_ok.1 h).symm⟩
  · exact absurd h throw_ne_ok

theorem nodup_pins (h : records.foldlM addPin ∅ = .ok unlinked) :
    (records.map InterfacePinRecord.id).Nodup :=
  SortedMap.nodup_of_foldlM (fun m => m) InterfacePinRecord.id unlinkedPin
    (fun _ _ _ => addPin_eq_ok) h

theorem find?_unlinkedPins (h : records.foldlM addPin ∅ = .ok unlinked) {id : InterfacePinId}
    {p : InterfacePin} :
    unlinked.find? id = some p ↔ ∃ r ∈ records, r.id = id ∧ unlinkedPin r = p :=
  SortedMap.find?_eq_some_of_foldlM (fun m => m) InterfacePinRecord.id unlinkedPin
    (fun _ _ _ => addPin_eq_ok) rfl h

def naming (named : InterfacePin → SortedSet InterfacePinId) (pins : Pins) (id : InterfacePinId) :
    List InterfacePinId :=
  ((relations named pins).filter fun relation => relation.1 = id).map Prod.snd

theorem mem_naming (h : records.foldlM addPin ∅ = .ok unlinked)
    {named : InterfacePin → SortedSet InterfacePinId} {id o : InterfacePinId} :
    o ∈ naming named unlinked id ↔ ∃ q ∈ records, q.id = o ∧ id ∈ named (unlinkedPin q) := by
  have hvalues {p : InterfacePin} : p ∈ unlinked.values ↔ ∃ q ∈ records, unlinkedPin q = p := by
    simp only [SortedMap.mem_values, find?_unlinkedPins h]
    exact ⟨fun ⟨_, q, hq, _, hp⟩ => ⟨q, hq, hp⟩, fun ⟨q, hq, hp⟩ => ⟨q.id, q, hq, rfl, hp⟩⟩
  simp only [naming, relations, List.mem_map, List.mem_filter, List.mem_flatMap, hvalues,
    decide_eq_true_eq]
  constructor
  · rintro ⟨_, ⟨⟨_, ⟨q, hq, rfl⟩, n, hn, rfl⟩, rfl⟩, rfl⟩
    exact ⟨q, hq, rfl, hn⟩
  · rintro ⟨q, hq, rfl, hid⟩
    exact ⟨(id, q.id), ⟨⟨unlinkedPin q, ⟨q, hq, rfl⟩, id, hid, rfl⟩, rfl⟩, rfl⟩

theorem find?_relatePins {change : InterfacePinId → InterfacePin → InterfacePin}
    {named : InterfacePin → SortedSet InterfacePinId} {source : Pins}
    (h : (relations named source).foldlM (relatePin change) unlinked = .ok pins)
    (id : InterfacePinId) : pins.find? id =
      (unlinked.find? id).map fun p => (naming named source id).foldl (fun p o => change o p) p := by
  have hchange := modified_of_foldlM (V := fun m : Pins => m.find? id)
    (p := fun relation => relation.1 = id) (g := fun relation => change relation.2)
    (fun m relation m' hstep => by
      rw [(relatePin_eq_ok hstep).2, SortedMap.find?_modify]
      simp only [eq_comm]
      split <;> simp_all) h
  simpa [naming, List.foldl_map] using hchange

/-- Relations that were entered name known pins, and no pin is lost or made by them. -/
theorem contains_relatePins {change : InterfacePinId → InterfacePin → InterfacePin}
    {related : List (InterfacePinId × InterfacePinId)}
    (h : related.foldlM (relatePin change) unlinked = .ok pins) :
    pins.contains = unlinked.contains ∧
      ∀ relation ∈ related, unlinked.contains relation.1 = true := by
  have hstep : ∀ m m' : Pins, ∀ relation ∈ related, m.contains = unlinked.contains →
      relatePin change m relation = .ok m' → m'.contains = unlinked.contains := by
    rintro m m' relation _ hm hstep
    funext id
    rw [(relatePin_eq_ok hstep).2, SortedMap.contains_modify, hm]
  refine ⟨foldlM_keeps (P := fun m : Pins => m.contains = unlinked.contains) hstep rfl h, ?_⟩
  intro relation hrelation
  obtain ⟨m, _, hm, hadd⟩ := foldlM_each_from
    (P := fun m : Pins => m.contains = unlinked.contains) hstep rfl h relation hrelation
  exact hm ▸ (relatePin_eq_ok hadd).1

theorem foldl_compatible (os : List InterfacePinId) (p : InterfacePin) :
    os.foldl (fun p o => { p with compatiblePins := p.compatiblePins.insert o }) p =
      { p with compatiblePins := p.compatiblePins.insertAll os } := by
  induction os generalizing p with
  | nil => rfl
  | cons o os ih => simp [ih]

theorem foldl_children (os : List InterfacePinId) (p : InterfacePin) :
    os.foldl (fun p o => { p with childPins := p.childPins.insert o }) p =
      { p with childPins := p.childPins.insertAll os } := by
  induction os generalizing p with
  | nil => rfl
  | cons o os ih => simp [ih]

theorem find?_linkedPins (h : records.foldlM addPin ∅ = .ok unlinked)
    (hlink : linkPins unlinked = .ok pins) {id : InterfacePinId} {p : InterfacePin} :
    pins.find? id = some p ↔ ∃ r ∈ records, r.id = id ∧ linkedPin records r = p := by
  obtain ⟨related, hrelated, hlink⟩ := bind_eq_ok.1 hlink
  rw [find?_relatePins hlink, find?_relatePins hrelated]
  simp only [Option.map_map, Option.map_eq_some_iff, find?_unlinkedPins h, Function.comp_apply,
    foldl_compatible, foldl_children]
  have hpin (r : InterfacePinRecord) : linkedPin records r = { unlinkedPin r with
      compatiblePins := (unlinkedPin r).compatiblePins.insertAll
        (naming InterfacePin.compatiblePins unlinked r.id)
      childPins := (unlinkedPin r).childPins.insertAll
        (naming InterfacePin.parentPins unlinked r.id) } := by
    rw [linkedPin]
    congr 1
    · refine SortedSet.ext fun o => ?_
      simp [mem_naming h, unlinkedPin, and_comm, and_left_comm]
    · refine SortedSet.ext fun o => ?_
      simp [mem_naming h, unlinkedPin, and_comm, and_left_comm]
  constructor
  · rintro ⟨_, ⟨r, hr, rfl, rfl⟩, rfl⟩
    exact ⟨r, hr, rfl, hpin r⟩
  · rintro ⟨r, hr, rfl, rfl⟩
    exact ⟨_, ⟨r, hr, rfl, rfl⟩, (hpin r).symm⟩

theorem linkPins_checked (h : records.foldlM addPin ∅ = .ok unlinked)
    (hlink : linkPins unlinked = .ok pins) {r : InterfacePinRecord} (hr : r ∈ records) :
    (∀ o ∈ r.compatiblePins, pins.contains o = true) ∧
      ∀ o ∈ r.parentPins, pins.contains o = true := by
  obtain ⟨related, hrelated, hlink⟩ := bind_eq_ok.1 hlink
  obtain ⟨hrelatedSame, hcompatible⟩ := contains_relatePins hrelated
  obtain ⟨hsame, hparents⟩ := contains_relatePins hlink
  have hr : unlinkedPin r ∈ unlinked.values :=
    SortedMap.mem_values.2 ⟨r.id, (find?_unlinkedPins h).2 ⟨r, hr, rfl, rfl⟩⟩
  have hnamed {named : InterfacePin → SortedSet InterfacePinId} {o : InterfacePinId}
      (ho : o ∈ named (unlinkedPin r)) : (o, r.id) ∈ relations named unlinked :=
    List.mem_flatMap.2 ⟨unlinkedPin r, hr, List.mem_map.2 ⟨o, ho, rfl⟩⟩
  constructor
  · intro o ho
    rw [hsame, hrelatedSame]
    exact hcompatible _ (hnamed (SortedSet.mem_ofList.2 ho))
  · intro o ho
    rw [hsame]
    exact hparents _ (hnamed (SortedSet.mem_ofList.2 ho))

end Pins

def unlinkedType (pins : List InterfacePinRecord) (r : InterfaceTypeRecord) : InterfaceType where
  id := r.id
  name := r.name
  label := r.label
  family := r.familyKey
  function := r.function
  canBeRequired := r.canBeRequired
  canBeSpecialised := r.canBeSpecialised
  pins := (pins.filter fun p => p.interfaceType = r.id).map InterfacePinRecord.id
  parents := r.parents
  children := []
  compatibleTypes := r.compatibleTypes

def enterFamily (families : SortedMap FamilyKey Family) (r : InterfaceTypeRecord) :
    SortedMap FamilyKey Family :=
  match r.family with
  | some id => families.modify (.declared id) fun f => { f with types := f.types ++ [r.id] }
  | none => families.insert (.implicit r.id) (implicitFamily r)

section Types

variable {pins : List InterfacePinRecord} {records : List InterfaceTypeRecord}
  {tables tables' : TypeTables}

theorem addToFamily_eq_ok {families families' : SortedMap FamilyKey Family} {key : FamilyKey}
    {r : InterfaceTypeRecord} (h : addToFamily families r = .ok (key, families')) :
    key = r.familyKey ∧ families' = enterFamily families r ∧
      families'.contains r.familyKey = true := by
  rw [addToFamily] at h
  rw [enterFamily, InterfaceTypeRecord.familyKey]
  split at h
  · rename_i id hid
    dsimp only at h
    split at h
    · rename_i hknown
      obtain ⟨rfl, rfl⟩ := Prod.mk.inj (pure_eq_ok.1 h)
      obtain ⟨f, hf⟩ := Option.isSome_iff_exists.1 hknown
      simp [hid, SortedMap.contains, hf]
    · exact absurd h throw_ne_ok
  · rename_i hnone
    obtain ⟨rfl, rfl⟩ := Prod.mk.inj (pure_eq_ok.1 h)
    simp [hnone, implicitFamily, SortedMap.contains]

theorem addType_eq_ok {r : InterfaceTypeRecord} (h : addType pins tables r = .ok tables') :
    tables.names.contains r.name = false ∧ tables'.families.contains r.familyKey = true ∧
      tables' = ⟨enterFamily tables.families r, tables.types.insert r.id (unlinkedType pins r),
        tables.names.insert r.name r.id⟩ := by
  obtain ⟨⟨key, families⟩, hfamilies, h⟩ := bind_eq_ok.1 h
  obtain ⟨rfl, rfl, hknown⟩ := addToFamily_eq_ok hfamilies
  dsimp only at h
  split at h
  · obtain ⟨_, h, _⟩ := bind_eq_ok.1 h
    exact absurd h throw_ne_ok
  · rename_i hnew
    obtain rfl := pure_eq_ok.1 h
    exact ⟨by simpa using hnew, hknown, rfl⟩

theorem nodup_typeNames (h : records.foldlM (addType pins) tables = .ok tables') :
    (records.map InterfaceTypeRecord.name).Nodup :=
  SortedMap.nodup_of_foldlM TypeTables.names InterfaceTypeRecord.name InterfaceTypeRecord.id
    (fun _ _ _ hstep => ⟨(addType_eq_ok hstep).1, by rw [(addType_eq_ok hstep).2.2]⟩) h

theorem find?_unlinkedTypes (h : records.foldlM (addType pins) tables = .ok tables')
    (hstart : tables.types = ∅) (id : InterfaceTypeId) : tables'.types.find? id =
      (records.reverse.find? fun r => r.id = id).map (unlinkedType pins) :=
  SortedMap.find?_of_foldlM TypeTables.types InterfaceTypeRecord.id (unlinkedType pins)
    (fun _ _ _ hstep => by rw [(addType_eq_ok hstep).2.2]) hstart h id

theorem find?_typeNames (h : records.foldlM (addType pins) tables = .ok tables')
    (hstart : tables.names = ∅) {name : String} {id : InterfaceTypeId} :
    tables'.names.find? name = some id ↔ ∃ r ∈ records, r.name = name ∧ r.id = id :=
  SortedMap.find?_eq_some_of_foldlM TypeTables.names InterfaceTypeRecord.name InterfaceTypeRecord.id
    (fun _ _ _ hstep => ⟨(addType_eq_ok hstep).1, by rw [(addType_eq_ok hstep).2.2]⟩) hstart h

/-- A declared family gets the types that declare it, in their order. -/
theorem find?_declaredFamily (h : records.foldlM (addType pins) tables = .ok tables')
    (id : FamilyId) : tables'.families.find? (.declared id) =
      (tables.families.find? (.declared id)).map fun f => { f with
        types := f.types ++ (records.filter fun r => r.family = some id).map
          InterfaceTypeRecord.id } := by
  have hchange := modified_of_foldlM (V := fun tables : TypeTables =>
      tables.families.find? (.declared id)) (p := fun r => r.family = some id)
    (g := fun r f => { f with types := f.types ++ [r.id] })
    (fun tables r tables' hstep => by
      rw [(addType_eq_ok hstep).2.2, enterFamily]
      cases hfamily : r.family with
      | none => simp
      | some key => by_cases hkey : id = key <;> simp [hkey, Ne.symm]) h
  rw [hchange]
  congr 1
  funext f
  induction records.filter fun r => r.family = some id generalizing f with
  | nil => simp
  | cons r rs ih => simp [ih]

/-- Of the records that make one implicit family the last one counts. -/
theorem find?_implicitFamily (h : records.foldlM (addType pins) tables = .ok tables')
    (id : InterfaceTypeId) (hstart : tables.families.find? (.implicit id) = none) :
    tables'.families.find? (.implicit id) =
      (records.reverse.find? fun r => r.family = none ∧ r.id = id).map implicitFamily := by
  have hlast := replaced_of_foldlM (V := fun tables : TypeTables =>
      tables.families.find? (.implicit id)) (p := fun r => r.family = none ∧ r.id = id)
    (g := implicitFamily)
    (fun tables r tables' hstep => by
      rw [(addType_eq_ok hstep).2.2, enterFamily]
      cases hfamily : r.family with
      | none => simp [eq_comm]
      | some key => simp) h
  rw [hlast, hstart, Option.or_none]

/-- The types that name a type as a parent, once for each time they do. -/
def typeChildren (types : Types) (id : InterfaceTypeId) : List InterfaceTypeId :=
  ((types.values.flatMap fun t => t.parents.map (·, t.id)).filter fun relation =>
    relation.1 = id).map Prod.snd

theorem mem_typeChildren {types : Types} (hkeyed : ∀ id t, types.find? id = some t → t.id = id)
    {id o : InterfaceTypeId} :
    o ∈ typeChildren types id ↔ ∃ t, types.find? o = some t ∧ id ∈ t.parents := by
  simp only [typeChildren, List.mem_map, List.mem_filter, List.mem_flatMap, decide_eq_true_eq,
    SortedMap.mem_values]
  constructor
  · rintro ⟨_, ⟨⟨t, ⟨key, ht⟩, parent, hparent, rfl⟩, rfl⟩, rfl⟩
    exact ⟨t, hkeyed key t ht ▸ ht, hparent⟩
  · rintro ⟨t, ht, hid⟩
    exact ⟨(id, t.id), ⟨⟨t, ⟨o, ht⟩, id, hid, rfl⟩, rfl⟩, hkeyed o t ht⟩

theorem count_typeChildren {types : Types} (hkeyed : ∀ id t, types.find? id = some t → t.id = id)
    {a b : InterfaceTypeId} {u : InterfaceType} (hu : types.find? b = some u) :
    (typeChildren types a).count b = u.parents.count a := by
  have hrelations : (typeChildren types a).count b =
      (types.values.flatMap fun t => t.parents.map (·, t.id)).count (a, b) := by
    rw [typeChildren, List.count_eq_countP, List.countP_map, List.countP_filter,
      List.count_eq_countP]
    refine List.countP_congr fun relation _ => ?_
    simp [Prod.ext_iff, and_comm]
  obtain ⟨before, after, hlist⟩ := List.append_of_mem (SortedMap.find?_eq_some_iff.1 hu)
  have honce := hlist ▸ types.nodup
  rw [List.nodup_middle, List.nodup_cons] at honce
  have hothers : ∀ l ⊆ before ++ after,
      ((l.map Prod.snd).flatMap fun t => t.parents.map (·, t.id)).count (a, b) = 0 := by
    intro l hl
    rw [List.count_eq_zero, List.mem_flatMap]
    rintro ⟨t, ht, hrelation⟩
    obtain ⟨⟨key, t'⟩, hentry, rfl⟩ := List.mem_map.1 ht
    obtain ⟨_, _, heq⟩ := List.mem_map.1 hrelation
    have hmem : (key, t') ∈ types.toList := by
      rw [hlist]
      have := hl hentry
      simp only [List.mem_append, List.mem_cons] at this ⊢
      tauto
    have hfind := SortedMap.find?_eq_some_of_mem hmem
    have hkey : key = b := (hkeyed key t' hfind).symm.trans (Prod.mk.inj heq).2
    subst hkey
    obtain rfl := Option.some.inj (hu.symm.trans hfind)
    exact honce.1 (hl hentry)
  have hown : (u.parents.map (·, u.id)).count (a, b) = u.parents.count a := by
    rw [hkeyed b u hu]
    exact List.count_map_of_injective _ _ (fun _ _ h => (Prod.mk.inj h).1) a
  rw [hrelations, SortedMap.values, hlist, List.map_append, List.map_cons, List.flatMap_append,
    List.flatMap_cons, List.count_append, List.count_append, hown,
    hothers before (List.subset_append_left _ _), hothers after (List.subset_append_right _ _)]
  omega

theorem find?_linkedTypes {unlinked types : Types} (h : linkTypes unlinked = .ok types)
    (id : InterfaceTypeId) : types.find? id = (unlinked.find? id).map fun t =>
      { t with children := t.children ++ typeChildren unlinked id } := by
  obtain ⟨_, _, h⟩ := bind_eq_ok.1 h
  have hchange := modified_of_foldlM (V := fun types : Types => types.find? id)
    (p := fun relation => relation.1 = id)
    (g := fun relation t => { t with children := t.children ++ [relation.2] })
    (fun types relation types' hstep => by
      obtain ⟨_, _, hstep⟩ := bind_eq_ok.1 hstep
      rw [← pure_eq_ok.1 hstep, SortedMap.find?_modify]
      simp only [eq_comm]
      split <;> simp_all) h
  rw [hchange, typeChildren]
  congr 1
  funext t
  induction (unlinked.values.flatMap fun t => t.parents.map (·, t.id)).filter fun relation =>
    relation.1 = id generalizing t with
  | nil => simp
  | cons relation rest ih => simp [ih]

theorem requireType_eq_ok {ν : Type} {types : SortedMap InterfaceTypeId ν} {id : InterfaceTypeId} :
    requireType types id = .ok () ↔ types.contains id = true := by
  rw [requireType]
  split
  · simp_all [pure, Except.pure]
  · simp_all [throw_ne_ok]

/-- Types name known types only, and none is lost or made by linking. -/
theorem linkTypes_checked {unlinked types : Types} (h : linkTypes unlinked = .ok types) :
    types.contains = unlinked.contains ∧ ∀ t ∈ unlinked.values,
      (∀ o ∈ t.compatibleTypes, types.contains o = true) ∧
        ∀ o ∈ t.parents, types.contains o = true := by
  obtain ⟨_, hcompatible, hparents⟩ := bind_eq_ok.1 h
  have hsame : types.contains = unlinked.contains := by
    funext id
    rw [SortedMap.contains, SortedMap.contains, find?_linkedTypes h, Option.isSome_map]
  have hstep : ∀ m m' : Types, ∀ relation ∈ unlinked.values.flatMap fun t => t.parents.map (·, t.id),
      m.contains = unlinked.contains → addChild m relation = .ok m' →
        m'.contains = unlinked.contains := by
    rintro m m' relation _ hm hstep
    obtain ⟨_, _, hstep⟩ := bind_eq_ok.1 hstep
    funext id
    rw [← pure_eq_ok.1 hstep, SortedMap.contains_modify, hm]
  refine ⟨hsame, fun t ht => ⟨fun o ho => ?_, fun o ho => ?_⟩⟩
  · rw [hsame]
    exact requireType_eq_ok.1 (forM_eq_ok_iff.1 (forM_eq_ok_iff.1 hcompatible t ht) o ho)
  · obtain ⟨m, _, hm, hadd⟩ := foldlM_each_from
      (P := fun m : Types => m.contains = unlinked.contains) hstep rfl hparents (o, t.id)
      (List.mem_flatMap.2 ⟨t, ht, List.mem_map.2 ⟨o, ho, rfl⟩⟩)
    obtain ⟨_, hknown, _⟩ := bind_eq_ok.1 hadd
    rw [hsame, ← hm]
    exact requireType_eq_ok.1 hknown

end Types

/-- Every interface of a part has a known type and binds known slots to pins of the part. -/
structure CheckedPart (types : Types) (pins : Pins) (part : Connectivity) : Prop where
  types : ∀ i ∈ part.interfaces, types.contains i.type = true
  slots : ∀ i ∈ part.interfaces, ∀ a ∈ i.assignments, pins.contains a.interfacePin = true
  pins : ∀ i ∈ part.interfaces, ∀ a ∈ i.assignments, ∀ id ∈ a.pins, ∃ p, part.pin? id = some p

section Connectivities

variable {types : Types} {pins : Pins} {records : List Connectivity}
  {tables tables' : ConnectivityTables}

theorem checkAssignment_eq_ok {part : Connectivity} {a : PinAssignment}
    (h : checkAssignment pins part a = .ok ()) : pins.contains a.interfacePin = true ∧
      ∀ id ∈ a.pins, ∃ p, part.pin? id = some p := by
  rw [checkAssignment] at h
  split at h
  · obtain ⟨_, h, _⟩ := bind_eq_ok.1 h
    exact absurd h throw_ne_ok
  · rename_i hknown
    split at h
    · exact absurd h throw_ne_ok
    · rename_i hfind
      refine ⟨by simpa using hknown, fun id hid => Option.ne_none_iff_exists'.1 ?_⟩
      simpa using List.find?_eq_none.1 hfind id hid

theorem addConnectivity_eq_ok {part : Connectivity}
    (h : addConnectivity types pins tables part = .ok tables') : CheckedPart types pins part ∧
      tables.connectivities.contains part.id = false ∧
      tables' = ⟨tables.connectivities.insert part.id part,
        tables.names.insert part.name part.id⟩ := by
  obtain ⟨_, hchecked, h⟩ := bind_eq_ok.1 h
  have hinterface {i : Interface} (hi : i ∈ part.interfaces) : types.contains i.type = true ∧
      ∀ a ∈ i.assignments, checkAssignment pins part a = .ok () := by
    obtain ⟨_, htype, hassignments⟩ := bind_eq_ok.1 (forM_eq_ok_iff.1 hchecked i hi)
    exact ⟨requireType_eq_ok.1 htype, forM_eq_ok_iff.1 hassignments⟩
  split at h
  · obtain ⟨_, h, _⟩ := bind_eq_ok.1 h
    exact absurd h throw_ne_ok
  · rename_i hnew
    refine ⟨⟨fun i hi => (hinterface hi).1, fun i hi a ha => ?_, fun i hi a ha => ?_⟩,
      by simpa using hnew, (pure_eq_ok.1 h).symm⟩
    · exact (checkAssignment_eq_ok ((hinterface hi).2 a ha)).1
    · exact (checkAssignment_eq_ok ((hinterface hi).2 a ha)).2

theorem checkedParts (h : records.foldlM (addConnectivity types pins) tables = .ok tables') :
    ∀ part ∈ records, CheckedPart types pins part := by
  intro part hpart
  obtain ⟨_, _, hadd⟩ := foldlM_each h part hpart
  exact (addConnectivity_eq_ok hadd).1

theorem nodup_parts (h : records.foldlM (addConnectivity types pins) tables = .ok tables') :
    (records.map Connectivity.id).Nodup :=
  SortedMap.nodup_of_foldlM ConnectivityTables.connectivities Connectivity.id id
    (fun _ _ _ hstep => ⟨(addConnectivity_eq_ok hstep).2.1,
      by rw [(addConnectivity_eq_ok hstep).2.2, id]⟩) h

theorem find?_parts (h : records.foldlM (addConnectivity types pins) {} = .ok tables')
    {id : ConnectivityId} {part : Connectivity} :
    tables'.connectivities.find? id = some part ↔ part ∈ records ∧ part.id = id := by
  rw [SortedMap.find?_eq_some_of_foldlM ConnectivityTables.connectivities Connectivity.id
    (fun part => part) (fun _ _ _ hstep => ⟨(addConnectivity_eq_ok hstep).2.1,
      by rw [(addConnectivity_eq_ok hstep).2.2]⟩) rfl h]
  exact ⟨fun ⟨_, hpart, hid, rfl⟩ => ⟨hpart, hid⟩, fun ⟨hpart, hid⟩ => ⟨part, hpart, hid, rfl⟩⟩

theorem find?_partNames (h : records.foldlM (addConnectivity types pins) {} = .ok tables')
    (name : String) : tables'.names.find? name =
      (records.reverse.find? fun part => part.name = name).map Connectivity.id :=
  SortedMap.find?_of_foldlM ConnectivityTables.names Connectivity.name Connectivity.id
    (fun _ _ _ hstep => by rw [(addConnectivity_eq_ok hstep).2.2]) rfl h name

end Connectivities

end Catalog
end BoardNets
