import BoardNets.Sorted.Map
import BoardNets.Sorted.Set
import Mathlib.Data.List.Induction
import Mathlib.Data.List.Nodup
import Mathlib.Data.List.Pairwise
import Mathlib.Data.List.Perm.Basic

/-! The lists behind sorted sets and maps. What has been put into a set is listed once each, and
lists that are cut up by the value of a key come together again. Sorting a part of a list gives a
part of the sorted list. -/
namespace BoardNets

open Std

variable {α κ : Type}

namespace SortedSet

variable [Ord α] [TransOrd α] [LawfulEqOrd α]

theorem toList_ofList_perm {l : List α} (hl : l.Nodup) : (ofList l).toList.Perm l :=
  (List.perm_ext_iff_of_nodup (nodup _) hl).2 fun _ => mem_ofList

omit [LawfulEqOrd α] in
theorem head?_congr {s t : SortedSet α} (hsub : ∀ a ∈ s, a ∈ t)
    (hbehind : ∀ b ∈ t, b ∈ s ∨ ∃ a ∈ s, compare a b = .lt) :
    t.toList.head? = s.toList.head? := by
  have hfirst {s : SortedSet α} {a b : α} {rest : List α} (hs : s.toList = a :: rest)
      (hb : b ∈ s) : b = a ∨ compare a b = .lt := by
    have hincreasing := s.increasing
    rw [mem_def, hs, List.mem_cons] at hb
    rw [hs, List.pairwise_cons] at hincreasing
    exact hb.imp_right (hincreasing.1 b)
  have hnone {s : SortedSet α} (hs : s.toList = []) (a : α) : a ∉ s := by
    rw [mem_def, hs]
    exact List.not_mem_nil
  have hasymm {a b : α} (hab : compare a b = .lt) (hba : compare b a = .lt) : False := by
    rw [OrientedCmp.gt_iff_lt.2 hab] at hba
    cases hba
  cases hs : s.toList with
  | nil =>
    rw [List.head?_nil, List.head?_eq_none_iff, List.eq_nil_iff_forall_not_mem]
    intro b hb
    rcases hbehind b hb with hb | ⟨a, ha, _⟩
    · exact hnone hs b hb
    · exact hnone hs a ha
  | cons a rest =>
    have ha : a ∈ s := mem_def.2 (hs ▸ List.mem_cons_self)
    cases ht : t.toList with
    | nil => exact (hnone ht a (hsub a ha)).elim
    | cons b rest' =>
      have hb : b ∈ t := mem_def.2 (ht ▸ List.mem_cons_self)
      refine congrArg some ?_
      rcases hbehind b hb with hbs | ⟨x, hx, hxb⟩
      · rcases hfirst hs hbs with rfl | hab
        · rfl
        · rcases hfirst ht (hsub a ha) with rfl | hba
          · rfl
          · exact (hasymm hab hba).elim
      · rcases hfirst ht (hsub x hx) with rfl | hbx
        · exact (hasymm hxb hxb).elim
        · exact (hasymm hxb hbx).elim

end SortedSet

namespace SortedMap

variable {ν : Type} [Ord κ]

theorem lookup_of_lt {k : κ} {p : κ × ν} {rest : List (κ × ν)}
    (h : (p :: rest).Pairwise fun p q => compare p.1 q.1 = .lt) (hk : k = p.1) :
    lookup k rest = none :=
  lookup_eq_none fun q hq => hk ▸ (List.pairwise_cons.1 h).1 q hq

theorem eq_empty_of_isEmpty {m : SortedMap κ ν} (h : m.isEmpty = true) : m = ∅ := by
  obtain ⟨l, hl⟩ := m
  obtain rfl := List.isEmpty_iff.1 h
  rfl

theorem keys_eq_nil {m : SortedMap κ ν} : m.keys = [] ↔ m = ∅ := by
  constructor
  · intro h
    exact eq_empty_of_isEmpty (List.isEmpty_iff.2 (List.map_eq_nil_iff.1 h))
  · rintro rfl
    rfl

theorem keys_eq_iff [TransOrd κ] {ν' : Type} {m : SortedMap κ ν} {n : SortedMap κ ν'} :
    m.keys = n.keys ↔ ∀ k, k ∈ m.keys ↔ k ∈ n.keys := by
  refine ⟨fun h k => by rw [h], fun h => ?_⟩
  have hsame : (⟨m.keys, List.pairwise_map.2 m.increasing⟩ : SortedSet κ) =
      ⟨n.keys, List.pairwise_map.2 n.increasing⟩ := SortedSet.ext h
  exact congrArg SortedSet.toList hsame

def mapValues {ν' : Type} (g : ν → ν') (m : SortedMap κ ν) : SortedMap κ ν' where
  toList := m.toList.map fun e => (e.1, g e.2)
  increasing := List.pairwise_map.2 m.increasing

theorem keys_mapValues {ν' : Type} (g : ν → ν') (m : SortedMap κ ν) :
    (m.mapValues g).keys = m.keys :=
  List.map_map

theorem isEmpty_mapValues {ν' : Type} (g : ν → ν') (m : SortedMap κ ν) :
    (m.mapValues g).isEmpty = m.isEmpty :=
  List.isEmpty_map

theorem find?_mapValues {ν' : Type} (g : ν → ν') (m : SortedMap κ ν) (k : κ) :
    (m.mapValues g).find? k = (m.find? k).map g := by
  obtain ⟨l, hl⟩ := m
  change lookup k (l.map fun e => (e.1, g e.2)) = (lookup k l).map g
  clear hl
  induction l with
  | nil => rfl
  | cons e l ih =>
    rw [List.map_cons, lookup, lookup, ih]
    split <;> rfl

variable [LawfulEqOrd κ]

theorem lookup_cons [DecidableEq κ] {k k' : κ} {v : ν} {rest : List (κ × ν)} :
    lookup k ((k', v) :: rest) = if k = k' then some v else lookup k rest := by
  rw [lookup]
  by_cases h : k = k'
  · simp [h, compare_self]
  · have hne : compare k k' ≠ .eq := fun e => h (LawfulEqOrd.eq_of_compare e)
    simp [h, hne]

theorem lookup_eq_some_iff [DecidableEq κ] {k : κ} {v : ν} {l : List (κ × ν)} :
    lookup k l = some v ↔
      ∃ before after, l = before ++ (k, v) :: after ∧ k ∉ before.map Prod.fst := by
  induction l with
  | nil => simp [lookup]
  | cons p l ih =>
    obtain ⟨k', v'⟩ := p
    rw [lookup_cons]
    constructor
    · intro h
      by_cases hk : k = k'
      · rw [if_pos hk, Option.some.injEq] at h
        exact ⟨[], l, by rw [hk, h, List.nil_append], List.not_mem_nil⟩
      · rw [if_neg hk] at h
        obtain ⟨before, after, rfl, hbefore⟩ := ih.1 h
        exact ⟨(k', v') :: before, after, rfl, by simpa [hk] using hbefore⟩
    · rintro ⟨before, after, heq, hbefore⟩
      cases before with
      | nil =>
        obtain ⟨rfl, rfl⟩ := Prod.mk.inj (List.cons.inj heq).1
        rw [if_pos rfl]
      | cons p before =>
        obtain ⟨rfl, rfl⟩ := List.cons.inj heq
        rw [List.map_cons, List.mem_cons, not_or] at hbefore
        rw [if_neg hbefore.1]
        exact ih.2 ⟨before, after, rfl, hbefore.2⟩

variable [TransOrd κ]

theorem mem_keys_iff {m : SortedMap κ ν} {k : κ} : k ∈ m.keys ↔ (m.find? k).isSome := by
  rw [Option.isSome_iff_exists, keys, List.mem_map]
  simp only [find?_eq_some_iff]
  constructor
  · rintro ⟨⟨_, v⟩, hv, rfl⟩
    exact ⟨v, hv⟩
  · rintro ⟨v, hv⟩
    exact ⟨(k, v), hv, rfl⟩

theorem find?_insertAll [DecidableEq κ] {m : SortedMap κ ν} {l : List (κ × ν)}
    (hl : l.Pairwise fun p q => compare p.1 q.1 = .lt) {k : κ} :
    (m.insertAll l).find? k = (lookup k l).or (m.find? k) := by
  induction l generalizing m with
  | nil => rfl
  | cons p rest ih =>
    obtain ⟨k', v⟩ := p
    change ((m.insert k' v).insertAll rest).find? k = _
    rw [ih (List.pairwise_cons.1 hl).2, find?_insert, lookup_cons]
    by_cases h : k = k'
    · simp [h, lookup_of_lt hl rfl]
    · simp [h]

theorem find?_insertAll_const [DecidableEq κ] {m : SortedMap κ ν} {l : List κ} {v : ν} {k : κ} :
    (m.insertAll (l.map (·, v))).find? k = if k ∈ l then some v else m.find? k := by
  induction l generalizing m with
  | nil => simp [insertAll]
  | cons k' l ih =>
    change ((m.insert k' v).insertAll (l.map (·, v))).find? k = _
    rw [ih, find?_insert]
    by_cases hl : k ∈ l
    · simp [hl]
    · simp [hl]

theorem ofList_concat (l : List (κ × ν)) (k : κ) (v : ν) :
    ofList (l ++ [(k, v)]) = (ofList l).insert k v := List.foldl_concat ..

theorem find?_ofList [DecidableEq κ] (l : List (κ × ν)) (k : κ) :
    (ofList l).find? k = lookup k l.reverse := by
  induction l using List.reverseRecOn with
  | nil => rfl
  | append_singleton l p ih =>
    rw [ofList_concat, find?_insert, ih, List.reverse_concat, lookup_cons]

/-- The last value that a list has for a key is the one in its map. -/
theorem find?_ofList_eq_some [DecidableEq κ] {l : List (κ × ν)} {k : κ} {v : ν} :
    (ofList l).find? k = some v ↔
      ∃ before after, l = before ++ (k, v) :: after ∧ k ∉ after.map Prod.fst := by
  rw [find?_ofList, lookup_eq_some_iff]
  constructor
  · rintro ⟨after, before, heq, hafter⟩
    refine ⟨before.reverse, after.reverse, ?_, by simpa using hafter⟩
    simpa using congrArg List.reverse heq
  · rintro ⟨before, after, rfl, hafter⟩
    exact ⟨after.reverse, before.reverse, by simp, by simpa using hafter⟩

theorem mem_keys_ofList [DecidableEq κ] {l : List (κ × ν)} {k : κ} :
    k ∈ (ofList l).keys ↔ k ∈ l.map Prod.fst := by
  induction l using List.reverseRecOn with
  | nil => simp [ofList, insertAll, keys]
  | append_singleton l p ih =>
    rw [mem_keys_iff] at ih
    rw [mem_keys_iff, ofList_concat, find?_insert, List.map_append, List.mem_append, ← ih]
    by_cases hk : k = p.1
    · simp [hk]
    · simp [hk]

theorem empty_insertAll [DecidableEq κ] (m : SortedMap κ ν) :
    (∅ : SortedMap κ ν).insertAll m.toList = m := by
  refine ext fun k => ?_
  rw [find?_insertAll m.increasing, find?_empty, Option.or_none]
  rfl

end SortedMap

/-- The pieces of a list by the value of a key, for all values that occur. -/
theorem flatMap_filter_perm [DecidableEq κ] {l : List α} {keys : List κ} (f : α → κ) (hl : l.Nodup)
    (hkeys : keys.Nodup) (hall : ∀ a ∈ l, f a ∈ keys) :
    (keys.flatMap fun k => l.filter fun a => f a = k).Perm l := by
  have hnodup : (keys.flatMap fun k => l.filter fun a => f a = k).Nodup := by
    rw [List.nodup_flatMap]
    refine ⟨fun k _ => hl.filter _, hkeys.imp fun {j k} hjk a hj hk => hjk ?_⟩
    have hfj : f a = j := by simpa using (List.mem_filter.1 hj).2
    have hfk : f a = k := by simpa using (List.mem_filter.1 hk).2
    exact hfj.symm.trans hfk
  refine (List.perm_ext_iff_of_nodup hnodup hl).2 fun a => ?_
  simp only [List.mem_flatMap, List.mem_filter, decide_eq_true_eq]
  constructor
  · rintro ⟨k, _, ha, _⟩
    exact ha
  · intro ha
    exact ⟨f a, hall a ha, ha, rfl⟩

/-- Where nothing is listed twice, what is listed is listed in one place. -/
theorem existsUnique_of_nodup_flatMap {l : List κ} {f : κ → List α} (hl : (l.flatMap f).Nodup)
    {a : α} (ha : a ∈ l.flatMap f) : ∃! k, k ∈ l ∧ a ∈ f k := by
  obtain ⟨k, hk, hak⟩ := List.mem_flatMap.1 ha
  refine ⟨k, ⟨hk, hak⟩, ?_⟩
  rintro j ⟨hj, haj⟩
  by_contra hne
  have hdisj := (List.nodup_flatMap.1 hl).2
  have hsymm : Std.Symm (Function.onFun List.Disjoint f) := ⟨fun _ _ h => List.disjoint_symm h⟩
  exact hdisj.forall hj hk hne haj hak

theorem isLE_total {cmp : α → α → Ordering} [OrientedCmp cmp] (a b : α) :
    ((cmp a b).isLE || (cmp b a).isLE) = true := by
  have hswap : cmp b a = (cmp a b).swap := OrientedCmp.eq_swap
  rw [hswap]
  cases cmp a b <;> rfl

section Sorting

variable {le : α → α → Bool} (htrans : ∀ a b c, le a b = true → le b c = true → le a c = true)
  (htotal : ∀ a b, (le a b || le b a) = true)

/-- A list is cut in one way into what fails a test and what passes it. -/
theorem append_inj_of_test {q : α → Prop} {xs xs' ys ys' : List α} (h : xs ++ ys = xs' ++ ys')
    (hxs : ∀ x ∈ xs, ¬q x) (hxs' : ∀ x ∈ xs', ¬q x) (hys : ∀ y ∈ ys, q y)
    (hys' : ∀ y ∈ ys', q y) : xs = xs' ∧ ys = ys' := by
  induction xs generalizing xs' with
  | nil =>
    cases xs' with
    | nil => exact ⟨rfl, h⟩
    | cons x xs' =>
      rw [List.nil_append] at h
      exact absurd (hys x (h ▸ List.mem_cons_self)) (hxs' x List.mem_cons_self)
  | cons x xs ih =>
    cases xs' with
    | nil =>
      rw [List.nil_append] at h
      exact absurd (hys' x (h ▸ List.mem_cons_self)) (hxs x List.mem_cons_self)
    | cons x' xs' =>
      rw [List.cons_append, List.cons_append] at h
      obtain ⟨rfl, hrest⟩ := List.cons.inj h
      obtain ⟨rfl, hy⟩ := ih hrest (fun x hx => hxs x (List.mem_cons_of_mem _ hx))
        fun x hx => hxs' x (List.mem_cons_of_mem _ hx)
      exact ⟨rfl, hy⟩

include htrans htotal

theorem exists_mergeSort_cons (a : α) (l : List α) : ∃ xs ys,
    (a :: l).mergeSort le = xs ++ a :: ys ∧ l.mergeSort le = xs ++ ys ∧
      (∀ x ∈ xs, ¬le a x = true) ∧ ∀ y ∈ ys, le a y = true := by
  obtain ⟨xs, ys, hsort, hrest, hxs⟩ := List.mergeSort_cons htrans htotal a l
  have hsorted := List.pairwise_mergeSort htrans htotal (a :: l)
  rw [hsort] at hsorted
  refine ⟨xs, ys, hsort, hrest, fun x hx => by simpa using hxs x hx, ?_⟩
  exact (List.pairwise_cons.1 (List.pairwise_append.1 hsorted).2.1).1

theorem mergeSort_filter (p : α → Bool) (l : List α) :
    (l.filter p).mergeSort le = (l.mergeSort le).filter p := by
  induction l with
  | nil => rw [List.filter_nil, List.mergeSort_nil, List.filter_nil]
  | cons a l ih =>
    obtain ⟨xs, ys, hsort, hrest, hxs, hys⟩ := exists_mergeSort_cons htrans htotal a l
    rw [hrest, List.filter_append] at ih
    rw [hsort, List.filter_append]
    by_cases hp : p a = true
    · obtain ⟨xs', ys', hsort', hrest', hxs', hys'⟩ :=
        exists_mergeSort_cons htrans htotal a (l.filter p)
      obtain ⟨hfirst, hlast⟩ := append_inj_of_test (q := (le a · = true)) (hrest'.symm.trans ih)
        hxs' (fun x hx => hxs x (List.mem_of_mem_filter hx)) hys'
        fun y hy => hys y (List.mem_of_mem_filter hy)
      rw [List.filter_cons_of_pos hp, List.filter_cons_of_pos hp, hsort', hfirst, hlast]
    · rw [List.filter_cons_of_neg hp, List.filter_cons_of_neg hp, ih]

end Sorting

end BoardNets
