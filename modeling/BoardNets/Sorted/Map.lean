import BoardNets.Sorted.Order

/-! Finite maps kept as lists of pairs with strictly increasing keys. Every change is an `alter` at
one key, and `find?_alter` says what it does to each key; maps that answer alike are equal. -/
namespace BoardNets

open Std

structure SortedMap (κ ν : Type) [Ord κ] where
  toList : List (κ × ν)
  increasing : toList.Pairwise fun p q => compare p.1 q.1 = .lt

namespace SortedMap

variable {κ ν : Type} [Ord κ]

def empty : SortedMap κ ν := ⟨[], .nil⟩

instance : EmptyCollection (SortedMap κ ν) := ⟨empty⟩

instance : Inhabited (SortedMap κ ν) := ⟨empty⟩

instance [DecidableEq κ] [DecidableEq ν] : DecidableEq (SortedMap κ ν)
  | ⟨xs, _⟩, ⟨ys, _⟩ => decidable_of_iff (xs = ys) (by simp)

@[simp] theorem toList_empty : (∅ : SortedMap κ ν).toList = [] := rfl

def lookup (k : κ) : List (κ × ν) → Option ν
  | [] => none
  | (k', v) :: rest => if compare k k' = .eq then some v else lookup k rest

def find? (m : SortedMap κ ν) (k : κ) : Option ν := lookup k m.toList

def contains (m : SortedMap κ ν) (k : κ) : Bool := (m.find? k).isSome

def keys (m : SortedMap κ ν) : List κ := m.toList.map Prod.fst

def values (m : SortedMap κ ν) : List ν := m.toList.map Prod.snd

def size (m : SortedMap κ ν) : Nat := m.toList.length

def isEmpty (m : SortedMap κ ν) : Bool := m.toList.isEmpty

@[simp] theorem find?_empty {k : κ} : (∅ : SortedMap κ ν).find? k = none := rfl

def entry (k : κ) (v? : Option ν) : List (κ × ν) := (v?.map (k, ·)).toList

def change (k : κ) (f : Option ν → Option ν) : List (κ × ν) → List (κ × ν)
  | [] => entry k (f none)
  | (k', v) :: rest =>
    match compare k k' with
    | .lt => entry k (f none) ++ (k', v) :: rest
    | .eq => entry k' (f (some v)) ++ rest
    | .gt => (k', v) :: change k f rest

omit [Ord κ] in
theorem fst_of_mem_entry {k : κ} {v? : Option ν} {p : κ × ν} (h : p ∈ entry k v?) : p.1 = k := by
  cases v? <;> simp_all [entry]

theorem fst_of_mem_change [LawfulEqOrd κ] {k : κ} {f : Option ν → Option ν} {p : κ × ν} :
    ∀ {l : List (κ × ν)}, p ∈ change k f l → p.1 = k ∨ p ∈ l
  | [], h => .inl (fst_of_mem_entry h)
  | (k', v) :: rest, h => by
    rw [change] at h
    split at h
    · exact (List.mem_append.1 h).imp_left fst_of_mem_entry
    · rename_i e
      rcases List.mem_append.1 h with h | h
      · exact .inl ((fst_of_mem_entry h).trans (LawfulEqOrd.eq_of_compare e).symm)
      · exact .inr (List.mem_cons_of_mem _ h)
    · rcases List.mem_cons.1 h with rfl | h
      · exact .inr List.mem_cons_self
      · exact (fst_of_mem_change h).imp_right (List.mem_cons_of_mem _)

theorem mem_of_lookup [LawfulEqOrd κ] {k : κ} {v : ν} :
    ∀ {l : List (κ × ν)}, lookup k l = some v → (k, v) ∈ l
  | (k', w) :: rest, h => by
    rw [lookup] at h
    split at h
    · rename_i e
      cases LawfulEqOrd.eq_of_compare e
      cases h
      exact List.mem_cons_self
    · exact List.mem_cons_of_mem _ (mem_of_lookup h)

theorem lookup_eq_none {k : κ} : ∀ {l : List (κ × ν)},
    (∀ p ∈ l, compare k p.1 = .lt) → lookup k l = none
  | [], _ => rfl
  | p :: rest, h => by
    rw [lookup, h p List.mem_cons_self]
    simpa using lookup_eq_none fun q hq => h q (List.mem_cons_of_mem p hq)

theorem lookup_entry_append {k k' : κ} {v? : Option ν} {l : List (κ × ν)} :
    lookup k' (entry k v? ++ l) =
      if compare k' k = .eq then v?.or (lookup k' l) else lookup k' l := by
  cases v? <;> simp [entry, lookup]

variable [TransOrd κ]

theorem lt_of_increasing {p : κ × ν} {rest : List (κ × ν)} {k : κ}
    (h : (p :: rest).Pairwise fun p q => compare p.1 q.1 = .lt) (hk : compare k p.1 = .lt) :
    ∀ q ∈ p :: rest, compare k q.1 = .lt := by
  intro q hq
  rcases List.mem_cons.1 hq with rfl | hq
  · exact hk
  · exact TransCmp.lt_trans hk ((List.pairwise_cons.1 h).1 q hq)

variable [LawfulEqOrd κ]

theorem pairwise_change (k : κ) (f : Option ν → Option ν) : ∀ {l : List (κ × ν)},
    l.Pairwise (fun p q => compare p.1 q.1 = .lt) →
      (change k f l).Pairwise fun p q => compare p.1 q.1 = .lt
  | [], _ => by cases h : f none <;> simp [change, entry, h]
  | (k', v) :: rest, h => by
    obtain ⟨hk, hrest⟩ := List.pairwise_cons.1 h
    rw [change]
    split
    · rename_i lt
      have below := lt_of_increasing h lt
      cases f none with
      | none => exact h
      | some w => exact List.pairwise_cons.2 ⟨below, h⟩
    · cases f (some v) with
      | none => exact hrest
      | some w => exact List.pairwise_cons.2 ⟨hk, hrest⟩
    · rename_i gt
      refine List.pairwise_cons.2 ⟨fun q hq => ?_, pairwise_change k f hrest⟩
      rcases fst_of_mem_change hq with e | hq
      · exact e ▸ OrientedCmp.lt_of_gt gt
      · exact hk q hq

/-- What `f` makes of the value at `k` takes its place; other keys stay. -/
def alter (m : SortedMap κ ν) (k : κ) (f : Option ν → Option ν) : SortedMap κ ν :=
  ⟨change k f m.toList, pairwise_change k f m.increasing⟩

theorem lookup_change {k k' : κ} {f : Option ν → Option ν} : ∀ {l : List (κ × ν)},
    l.Pairwise (fun p q => compare p.1 q.1 = .lt) →
      lookup k' (change k f l) = if compare k' k = .eq then f (lookup k l) else lookup k' l
  | [], _ => by
    rw [change, ← List.append_nil (entry k (f none)), lookup_entry_append]
    simp [lookup]
  | (j, v) :: rest, h => by
    obtain ⟨hj, hrest⟩ := List.pairwise_cons.1 h
    rw [change]
    split
    · rename_i lt
      rw [lookup_entry_append, lookup_eq_none (lt_of_increasing h lt)]
      split
      · rename_i e
        cases LawfulEqOrd.eq_of_compare e
        rw [lookup_eq_none (lt_of_increasing h lt), Option.or_none]
      · rfl
    · rename_i e
      cases LawfulEqOrd.eq_of_compare e
      have none_below : lookup k rest = none := lookup_eq_none hj
      rw [lookup_entry_append]
      by_cases e' : compare k' k = .eq
      · cases LawfulEqOrd.eq_of_compare e'
        simp [lookup, none_below, compare_self]
      · simp [lookup, e']
    · rename_i gt
      rw [lookup, lookup_change hrest]
      by_cases e' : compare k' k = .eq
      · cases LawfulEqOrd.eq_of_compare e'
        simp [lookup, gt]
      · simp [lookup, e']

theorem find?_alter [DecidableEq κ] {m : SortedMap κ ν} {k k' : κ} {f : Option ν → Option ν} :
    (m.alter k f).find? k' = if k' = k then f (m.find? k) else m.find? k' := by
  rw [find?, alter, lookup_change m.increasing]
  by_cases e : k' = k
  · simp [e, find?, compare_self]
  · have : compare k' k ≠ .eq := fun h => e (LawfulEqOrd.eq_of_compare h)
    simp [e, this, find?]

def insert (m : SortedMap κ ν) (k : κ) (v : ν) : SortedMap κ ν := m.alter k fun _ => some v

@[simp] theorem find?_insert [DecidableEq κ] {m : SortedMap κ ν} {k k' : κ} {v : ν} :
    (m.insert k v).find? k' = if k' = k then some v else m.find? k' := find?_alter

def erase (m : SortedMap κ ν) (k : κ) : SortedMap κ ν := m.alter k fun _ => none

@[simp] theorem find?_erase [DecidableEq κ] {m : SortedMap κ ν} {k k' : κ} :
    (m.erase k).find? k' = if k' = k then none else m.find? k' := find?_alter

/-- Changes the value at `k`, starting from `start` where there is none. -/
def update (m : SortedMap κ ν) (k : κ) (start : ν) (f : ν → ν) : SortedMap κ ν :=
  m.alter k fun v? => some (f (v?.getD start))

@[simp] theorem find?_update [DecidableEq κ] {m : SortedMap κ ν} {k k' : κ} {start : ν}
    {f : ν → ν} :
    (m.update k start f).find? k' =
      if k' = k then some (f ((m.find? k).getD start)) else m.find? k' := find?_alter

def modify (m : SortedMap κ ν) (k : κ) (f : ν → ν) : SortedMap κ ν := m.alter k (·.map f)

@[simp] theorem find?_modify [DecidableEq κ] {m : SortedMap κ ν} {k k' : κ} {f : ν → ν} :
    (m.modify k f).find? k' = if k' = k then (m.find? k).map f else m.find? k' := find?_alter

def insertAll (m : SortedMap κ ν) (l : List (κ × ν)) : SortedMap κ ν :=
  l.foldl (fun m p => m.insert p.1 p.2) m

def ofList (l : List (κ × ν)) : SortedMap κ ν := (∅ : SortedMap κ ν).insertAll l

theorem find?_eq_some_of_mem {m : SortedMap κ ν} {k : κ} {v : ν} (h : (k, v) ∈ m.toList) :
    m.find? k = some v := by
  obtain ⟨l, hl⟩ := m
  rw [find?]
  induction l with
  | nil => cases h
  | cons p rest ih =>
    obtain ⟨hp, hrest⟩ := List.pairwise_cons.1 hl
    rcases List.mem_cons.1 h with rfl | h
    · simp [lookup, compare_self]
    · have := OrientedCmp.gt_of_lt (hp (k, v) h)
      simpa [lookup, this] using ih hrest h

theorem find?_eq_some_iff {m : SortedMap κ ν} {k : κ} {v : ν} :
    m.find? k = some v ↔ (k, v) ∈ m.toList :=
  ⟨mem_of_lookup, find?_eq_some_of_mem⟩

omit [TransOrd κ] in
theorem nodup (m : SortedMap κ ν) : m.toList.Nodup := by
  refine m.increasing.imp fun {p q} h e => ?_
  subst e
  rw [compare_self] at h
  cases h

theorem ext {m n : SortedMap κ ν} (h : ∀ k, m.find? k = n.find? k) : m = n := by
  have mem : ∀ p, p ∈ m.toList ↔ p ∈ n.toList := fun p => by
    obtain ⟨k, v⟩ := p
    rw [← find?_eq_some_iff, ← find?_eq_some_iff, h]
  have perm := (List.perm_ext_iff_of_nodup m.nodup n.nodup).2 mem
  obtain ⟨l, hl⟩ := m
  obtain ⟨l', hl'⟩ := n
  have : l = l' := perm.eq_of_pairwise
    (fun p q _ _ hpq hqp => by
      rw [OrientedOrd.eq_swap, hqp] at hpq
      cases hpq) hl hl'
  subst this
  rfl

end SortedMap
end BoardNets
