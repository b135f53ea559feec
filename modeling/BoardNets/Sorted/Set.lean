import BoardNets.Sorted.Order

/-! Finite sets kept as strictly increasing lists. A set has exactly one list, so two sets with the
same members are equal (`SortedSet.ext`), and reading the list visits the members in order. -/
namespace BoardNets

open Std

structure SortedSet (α : Type) [Ord α] where
  toList : List α
  increasing : toList.Pairwise fun a b => compare a b = .lt

namespace SortedSet

variable {α : Type} [Ord α]

def empty : SortedSet α := ⟨[], .nil⟩

instance : EmptyCollection (SortedSet α) := ⟨empty⟩

instance : Inhabited (SortedSet α) := ⟨empty⟩

instance : Membership α (SortedSet α) := ⟨fun s a => a ∈ s.toList⟩

instance [DecidableEq α] (a : α) (s : SortedSet α) : Decidable (a ∈ s) :=
  inferInstanceAs (Decidable (a ∈ s.toList))

instance [DecidableEq α] : DecidableEq (SortedSet α)
  | ⟨xs, _⟩, ⟨ys, _⟩ => decidable_of_iff (xs = ys) (by simp)

theorem mem_def {a : α} {s : SortedSet α} : a ∈ s ↔ a ∈ s.toList := Iff.rfl

@[simp] theorem not_mem_empty {a : α} : a ∉ (∅ : SortedSet α) := List.not_mem_nil

@[simp] theorem toList_empty : (∅ : SortedSet α).toList = [] := rfl

def place (a : α) : List α → List α
  | [] => [a]
  | b :: bs =>
    match compare a b with
    | .lt => a :: b :: bs
    | .eq => b :: bs
    | .gt => b :: place a bs

theorem mem_of_mem_place {a x : α} : ∀ {l : List α}, x ∈ place a l → x = a ∨ x ∈ l
  | [], h => .inl (List.mem_singleton.1 h)
  | b :: bs, h => by
    rw [place] at h
    split at h
    · exact List.mem_cons.1 h
    · exact .inr h
    · rcases List.mem_cons.1 h with rfl | h
      · exact .inr List.mem_cons_self
      · exact (mem_of_mem_place h).imp_right (List.mem_cons_of_mem b)

theorem mem_place_of_mem {a x : α} : ∀ {l : List α}, x ∈ l → x ∈ place a l
  | b :: bs, h => by
    rw [place]
    split
    · exact List.mem_cons_of_mem a h
    · exact h
    · rcases List.mem_cons.1 h with rfl | h
      · exact List.mem_cons_self
      · exact List.mem_cons_of_mem b (mem_place_of_mem h)

theorem mem_place_self [LawfulEqOrd α] (a : α) : ∀ l : List α, a ∈ place a l
  | [] => List.mem_singleton.2 rfl
  | b :: bs => by
    rw [place]
    split
    · exact List.mem_cons_self
    · rename_i h
      exact LawfulEqOrd.eq_of_compare h ▸ List.mem_cons_self
    · exact List.mem_cons_of_mem b (mem_place_self a bs)

variable [TransOrd α]

theorem pairwise_place (a : α) : ∀ {l : List α},
    l.Pairwise (fun a b => compare a b = .lt) → (place a l).Pairwise fun a b => compare a b = .lt
  | [], _ => List.pairwise_singleton _ a
  | b :: bs, h => by
    obtain ⟨hb, hbs⟩ := List.pairwise_cons.1 h
    rw [place]
    split
    · rename_i hab
      refine List.pairwise_cons.2 ⟨fun c hc => ?_, h⟩
      rcases List.mem_cons.1 hc with rfl | hc
      · exact hab
      · exact TransCmp.lt_trans hab (hb c hc)
    · exact h
    · rename_i hab
      refine List.pairwise_cons.2 ⟨fun c hc => ?_, pairwise_place a hbs⟩
      rcases mem_of_mem_place hc with rfl | hc
      · exact OrientedCmp.lt_of_gt hab
      · exact hb c hc

def insert (s : SortedSet α) (a : α) : SortedSet α :=
  ⟨place a s.toList, pairwise_place a s.increasing⟩

@[simp] theorem mem_insert [LawfulEqOrd α] {s : SortedSet α} {a x : α} :
    x ∈ s.insert a ↔ x = a ∨ x ∈ s :=
  ⟨mem_of_mem_place, fun h => h.elim (fun e => e ▸ mem_place_self x s.toList) mem_place_of_mem⟩

def insertAll (s : SortedSet α) (l : List α) : SortedSet α := l.foldl insert s

@[simp] theorem insertAll_nil {s : SortedSet α} : s.insertAll [] = s := rfl

@[simp] theorem insertAll_cons {s : SortedSet α} {a : α} {l : List α} :
    s.insertAll (a :: l) = (s.insert a).insertAll l := rfl

@[simp] theorem mem_insertAll [LawfulEqOrd α] {s : SortedSet α} {l : List α} {x : α} :
    x ∈ s.insertAll l ↔ x ∈ s ∨ x ∈ l := by
  induction l generalizing s with
  | nil => simp
  | cons a l ih => simp [ih, or_assoc, or_comm, or_left_comm]

def ofList (l : List α) : SortedSet α := (∅ : SortedSet α).insertAll l

@[simp] theorem mem_ofList [LawfulEqOrd α] {l : List α} {x : α} : x ∈ ofList l ↔ x ∈ l := by
  simp [ofList]

def union (s t : SortedSet α) : SortedSet α := s.insertAll t.toList

instance : Union (SortedSet α) := ⟨union⟩

@[simp] theorem mem_union [LawfulEqOrd α] {s t : SortedSet α} {x : α} :
    x ∈ s ∪ t ↔ x ∈ s ∨ x ∈ t :=
  mem_insertAll

def size (s : SortedSet α) : Nat := s.toList.length

def isEmpty (s : SortedSet α) : Bool := s.toList.isEmpty

theorem nodup (s : SortedSet α) : s.toList.Nodup := by
  refine s.increasing.imp fun {a b} h e => ?_
  subst e
  rw [compare_self] at h
  cases h

theorem ext {s t : SortedSet α} (h : ∀ x, x ∈ s ↔ x ∈ t) : s = t := by
  obtain ⟨l, hl⟩ := s
  obtain ⟨m, hm⟩ := t
  have perm : l.Perm m :=
    (List.perm_ext_iff_of_nodup (nodup ⟨l, hl⟩) (nodup ⟨m, hm⟩)).2 h
  have : l = m := perm.eq_of_pairwise
    (fun a b _ _ hab hba => by
      rw [OrientedOrd.eq_swap, hba] at hab
      cases hab) hl hm
  subst this
  rfl

end SortedSet
end BoardNets
