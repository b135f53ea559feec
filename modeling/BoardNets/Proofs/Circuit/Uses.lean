import BoardNets.Circuit.Basic
import BoardNets.Proofs.Sorted.Listing
import Mathlib.Data.List.Count

/-! Pin uses under their keys. Only the uses under each key and how often they occur there matter to
what wiring and unwiring do, so every operation on connections is described by the list under each
key. -/
namespace BoardNets
namespace Connections

/-- The uses under a key. -/
def under (c : Connections) (key : InterfacePinId) : List PinUse := (c.find? key).getD []

@[simp] theorem under_empty (key : InterfacePinId) : (∅ : Connections).under key = [] := rfl

theorem mem_under {c : Connections} {key : InterfacePinId} {u : PinUse} :
    u ∈ c.under key ↔ ∃ us, (key, us) ∈ c.toList ∧ u ∈ us := by
  simp only [← SortedMap.find?_eq_some_iff, under]
  cases c.find? key <;> simp

theorem mem_uses {c : Connections} {u : PinUse} : u ∈ c.uses ↔ ∃ key, u ∈ c.under key := by
  simp only [uses, SortedMap.values, List.mem_flatten, List.mem_map, mem_under]
  constructor
  · rintro ⟨_, ⟨⟨key, us⟩, hus, rfl⟩, hu⟩
    exact ⟨key, us, hus, hu⟩
  · rintro ⟨key, us, hus, hu⟩
    exact ⟨us, ⟨(key, us), hus, rfl⟩, hu⟩

theorem under_add {c : Connections} {key k : InterfacePinId} {us : List PinUse} :
    (c.add key us).under k = if k = key then c.under k ++ us else c.under k := by
  rw [under, add, SortedMap.find?_update]
  by_cases h : k = key
  · simp [h, under]
  · simp [h, under]

theorem mem_uses_add {c : Connections} {key : InterfacePinId} {us : List PinUse} {u : PinUse} :
    u ∈ (c.add key us).uses ↔ u ∈ c.uses ∨ u ∈ us := by
  simp only [mem_uses, under_add]
  constructor
  · rintro ⟨k, hu⟩
    by_cases h : k = key
    · rw [if_pos h, List.mem_append] at hu
      exact hu.imp_left fun hu => ⟨k, hu⟩
    · rw [if_neg h] at hu
      exact .inl ⟨k, hu⟩
  · rintro (⟨k, hu⟩ | hu)
    · refine ⟨k, ?_⟩
      split
      · exact List.mem_append_left _ hu
      · exact hu
    · exact ⟨key, by simp [hu]⟩

theorem under_addAll (c more : Connections) (k : InterfacePinId) :
    (c.addAll more).under k = c.under k ++ more.under k := by
  obtain ⟨l, hl⟩ := more
  change (l.foldl (fun c entry => c.add entry.1 entry.2) c).under k =
    c.under k ++ (SortedMap.lookup k l).getD []
  induction l generalizing c with
  | nil => simp [SortedMap.lookup]
  | cons p rest ih =>
    obtain ⟨key, us⟩ := p
    rw [List.foldl_cons, ih (c.add key us) (List.pairwise_cons.1 hl).2, under_add,
      SortedMap.lookup_cons]
    by_cases h : k = key
    · simp [h, SortedMap.lookup_of_lt hl rfl]
    · simp [h]

def entries (c : Connections) : List (InterfacePinId × PinUse) :=
  c.toList.flatMap fun e => e.2.map (e.1, ·)

theorem count_map_pair (key k : InterfacePinId) (us : List PinUse) (u : PinUse) :
    (us.map (key, ·)).count (k, u) = if k = key then us.count u else 0 := by
  by_cases h : k = key
  · subst h
    rw [if_pos rfl]
    exact List.count_map_of_injective _ _ (fun a b hab => (Prod.mk.inj hab).2) _
  · rw [if_neg h, List.count_eq_zero]
    intro hmem
    obtain ⟨_, _, heq⟩ := List.mem_map.1 hmem
    exact h (Prod.mk.inj heq).1.symm

theorem count_entries (c : Connections) (k : InterfacePinId) (u : PinUse) :
    c.entries.count (k, u) = (c.under k).count u := by
  obtain ⟨l, hl⟩ := c
  change (l.flatMap fun e => e.2.map (e.1, ·)).count (k, u) =
    ((SortedMap.lookup k l).getD []).count u
  induction l with
  | nil => simp [SortedMap.lookup]
  | cons p rest ih =>
    obtain ⟨key, us⟩ := p
    rw [List.flatMap_cons, List.count_append, count_map_pair, ih (List.pairwise_cons.1 hl).2,
      SortedMap.lookup_cons]
    by_cases h : k = key
    · simp [h, SortedMap.lookup_of_lt hl rfl]
    · simp [h]

theorem mem_entries {c : Connections} {k : InterfacePinId} {u : PinUse} :
    (k, u) ∈ c.entries ↔ u ∈ c.under k := by
  rw [← List.count_pos_iff, count_entries, List.count_pos_iff]

/-- Connections put over others hide what these have under the same keys. -/
theorem under_insertAll {c more : Connections} {k : InterfacePinId} :
    Connections.under (c.insertAll more.toList) k =
      if k ∈ more.keys then more.under k else c.under k := by
  simp only [under, SortedMap.find?_insertAll more.increasing, SortedMap.mem_keys_iff]
  change ((more.find? k).or (c.find? k)).getD [] = _
  cases more.find? k <;> simp

theorem mem_entries_insertAll {c more : Connections} {e : InterfacePinId × PinUse}
    (h : e ∈ Connections.entries (c.insertAll more.toList)) : e ∈ more.entries ∨ e ∈ c.entries := by
  rw [mem_entries, under_insertAll] at h
  split at h
  · exact .inl (mem_entries.2 h)
  · exact .inr (mem_entries.2 h)

theorem mem_uses_of_mem_entries {c : Connections} {e : InterfacePinId × PinUse}
    (h : e ∈ c.entries) : e.2 ∈ c.uses :=
  mem_uses.2 ⟨e.1, mem_entries.1 h⟩

end Connections

namespace ComponentInterface

theorem under_activate (i : ComponentInterface) (more : Connections) (k : InterfacePinId) :
    (i.activate more).uses.under k = i.uses.under k ++ more.under k :=
  Connections.under_addAll _ _ _

theorem under_release (i : ComponentInterface) (key k : InterfacePinId) (use : PinUse) :
    (i.release key use).uses.under k =
      if k = key then (i.uses.under k).erase use else i.uses.under k := by
  change ((i.uses.alter key _).find? k).getD [] = _
  rw [SortedMap.find?_alter]
  by_cases h : k = key
  · subst h
    rw [if_pos rfl, if_pos rfl, Connections.under]
    cases i.uses.find? k with
    | none => rfl
    | some us =>
      change (if (us.erase use).isEmpty = true then none else some (us.erase use)).getD [] = _
      by_cases hleft : us.erase use = []
      · rw [if_pos (by simpa using hleft), Option.getD_none, Option.getD_some, hleft]
      · rw [if_neg (by simpa using hleft), Option.getD_some, Option.getD_some]
  · rw [if_neg h, if_neg h]
    rfl

end ComponentInterface
end BoardNets
