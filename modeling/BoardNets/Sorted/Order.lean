/-! Orders given by a key. A type is ordered by comparing keys; when the key tells the values apart
the order is lawful, so that sets and maps over the type have one list each. -/
namespace BoardNets

open Std

/-- Keys compared in a transitive order give a transitive order. -/
theorem transOrd_of_key {α β : Type} [Ord α] [Ord β] [TransOrd β] (key : α → β)
    (h : ∀ a b : α, compare a b = compare (key a) (key b)) : TransOrd α where
  eq_swap := by
    intro a b
    rw [h, h]
    exact OrientedCmp.eq_swap
  isLE_trans := by
    intro a b c
    rw [h, h, h]
    exact TransCmp.isLE_trans

/-- An injective key makes equal-comparing values equal. -/
theorem lawfulEqOrd_of_key {α β : Type} [Ord α] [Ord β] [LawfulEqOrd β] (key : α → β)
    (h : ∀ a b : α, compare a b = compare (key a) (key b))
    (inj : ∀ a b : α, key a = key b → a = b) : LawfulEqOrd α where
  compare_self := by
    intro a
    rw [h]
    exact ReflCmp.compare_self
  eq_of_compare := by
    intro a b hab
    rw [h] at hab
    exact inj a b (LawfulEqCmp.eq_of_compare hab)

end BoardNets
