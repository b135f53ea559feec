import BoardNets.Sorted.Order
import BoardNets.Text.Natural

/-! The natural order is an order. Texts are cut into runs of digits and signs that are no digits.
Such tokens are told apart by keys: every number stands where its digits stand among the signs, the
ones with a leading zero before the others, and those by their lengths before their digits. -/
namespace BoardNets.Text

open Std

/-- Lists compare by what their elements are mapped to, where those compare alike. -/
theorem compareLex_map {α β : Type} {cmp : α → α → Ordering} {cmp' : β → β → Ordering} {f : α → β}
    {xs ys : List α} (h : ∀ x ∈ xs, ∀ y ∈ ys, cmp x y = cmp' (f x) (f y)) :
    List.compareLex cmp xs ys = List.compareLex cmp' (xs.map f) (ys.map f) := by
  induction xs generalizing ys with
  | nil => cases ys <;> rfl
  | cons x xs ih =>
    cases ys with
    | nil => rfl
    | cons y ys =>
      rw [List.map_cons, List.map_cons, List.compareLex_cons_cons, List.compareLex_cons_cons,
        h x List.mem_cons_self y List.mem_cons_self,
        ih fun x hx y hy => h x (List.mem_cons_of_mem _ hx) y (List.mem_cons_of_mem _ hy)]

namespace Token

abbrev Key := Char × Nat × List Char

abbrev keyOrd : Ord Key := @lexOrd _ _ _ lexOrd

/-- What a token is compared by. -/
def key : Token → Key
  | .number a as => ('0', if a = '0' then 0 else as.length + 1, a :: as)
  | .sign c => (c, 0, [])

def IsCut : Token → Prop
  | .number a _ => a.isDigit = true
  | .sign c => c.isDigit = false

theorem compare_eq_lt {a b : Char} : compare a b = .lt ↔ a.toNat < b.toNat :=
  compareOfLessAndEq_eq_lt

theorem isDigit_iff {c : Char} : c.isDigit = true ↔ 48 ≤ c.toNat ∧ c.toNat ≤ 57 := by
  simp [Char.isDigit, UInt32.le_iff_toNat_le]

theorem compare_zero_digit {b : Char} (hb : b.isDigit = true) (hne : b ≠ '0') :
    compare '0' b = .lt := by
  have hcode : b.toNat ≠ 48 := fun h => hne (Char.toNat_inj.1 h)
  have hrange := isDigit_iff.1 hb
  exact compare_eq_lt.2 (by change 48 < b.toNat; omega)

theorem compare_digit_sign {a c : Char} (ha : a.isDigit = true) (hc : c.isDigit = false) :
    compare a c = compare '0' c ∧ compare '0' c ≠ .eq := by
  have hdigit := isDigit_iff.1 ha
  have hsign : ¬(48 ≤ c.toNat ∧ c.toNat ≤ 57) := fun h => by
    rw [isDigit_iff.2 h] at hc
    cases hc
  have hzero : '0'.toNat = 48 := rfl
  by_cases h : c.toNat < 48
  · have hbelow {d : Char} (hd : 48 ≤ d.toNat) : compare d c = .gt :=
      OrientedCmp.gt_iff_lt.2 (compare_eq_lt.2 (by omega))
    rw [hbelow hdigit.1, hbelow (by omega)]
    exact ⟨rfl, nofun⟩
  · have habove {d : Char} (hd : d.toNat ≤ 57) : compare d c = .lt := compare_eq_lt.2 (by omega)
    rw [habove hdigit.2, habove (by omega)]
    exact ⟨rfl, nofun⟩

theorem order_number {a b : Char} (ha : a.isDigit = true) (hb : b.isDigit = true)
    (as bs : List Char) : (number a as).order (number b bs) =
      keyOrd.compare (number a as).key (number b bs).key := by
  have hcons : compare (a :: as) (b :: bs) = (compare a b).then (compare as bs) :=
    List.compare_cons_cons
  change _ = (compare (if a = '0' then 0 else as.length + 1)
    (if b = '0' then 0 else bs.length + 1)).then (compare (a :: as) (b :: bs))
  rw [order]
  by_cases ha0 : a = '0' <;> by_cases hb0 : b = '0'
  · simp [ha0, hb0]
  · rw [if_pos (.inl ha0), if_pos ha0, if_neg hb0, hcons, ha0, compare_zero_digit hb hb0]
    rfl
  · have hgt : compare a b = .gt :=
      OrientedCmp.gt_iff_lt.2 (hb0 ▸ compare_zero_digit ha ha0)
    rw [if_pos (.inr hb0), if_neg ha0, if_pos hb0, hcons, hgt]
    rfl
  · have hsucc : compare (as.length + 1) (bs.length + 1) = compare as.length bs.length := by
      simp [compare, compareOfLessAndEq]
    rw [if_neg (not_or.2 ⟨ha0, hb0⟩), if_neg ha0, if_neg hb0, hsucc]

theorem order_eq {s t : Token} (hs : s.IsCut) (ht : t.IsCut) :
    s.order t = keyOrd.compare s.key t.key := by
  cases s with
  | number a as =>
    cases t with
    | number b bs => exact order_number hs ht as bs
    | sign c =>
      obtain ⟨hside, hne⟩ := compare_digit_sign hs ht
      change compare a c = (compare '0' c).then _
      rw [hside]
      cases h : compare '0' c with
      | eq => exact absurd h hne
      | lt => rfl
      | gt => rfl
  | sign c =>
    cases t with
    | number b bs =>
      obtain ⟨hside, hne⟩ := compare_digit_sign ht hs
      have hswap (d : Char) : compare c d = (compare d c).swap := OrientedCmp.eq_swap
      change compare c b = (compare c '0').then _
      rw [hswap b, hswap '0', hside]
      cases h : compare '0' c with
      | eq => exact absurd h hne
      | lt => rfl
      | gt => rfl
    | sign d => exact Ordering.then_eq.symm

end Token

theorem isCut_of_mem_tokens {cs : List Char} : ∀ t ∈ tokens cs, t.IsCut := by
  fun_induction tokens cs with
  | case1 => exact List.forall_mem_nil _
  | case2 c cs hblank ih => exact ih
  | case3 c cs hblank hdigit d ds ts hrun htokens ih =>
    rw [hrun] at ih
    exact List.forall_mem_cons.2 ⟨hdigit, (List.forall_mem_cons.1 ih).2⟩
  | case4 c cs hblank hdigit hrun ih => exact List.forall_mem_cons.2 ⟨hdigit, ih⟩
  | case5 c cs hblank hdigit ih =>
    exact List.forall_mem_cons.2 ⟨Bool.eq_false_iff.2 hdigit, ih⟩

abbrev NaturalKey := List Token.Key × String

abbrev naturalKeyOrd : Ord NaturalKey := @lexOrd _ _ (@List.instOrd _ Token.keyOrd) _

/-- What a text is compared by: its tokens, and where these tie the text itself. -/
def naturalKey (s : String) : NaturalKey := ((tokens s.toList).map Token.key, s)

theorem naturalOrder_eq (a b : String) : naturalOrder a b =
    naturalKeyOrd.compare (naturalKey a) (naturalKey b) := by
  have hkeys : List.compareLex Token.order (tokens a.toList) (tokens b.toList) =
      List.compareLex Token.keyOrd.compare (naturalKey a).1 (naturalKey b).1 :=
    compareLex_map fun s hs t ht =>
      Token.order_eq (isCut_of_mem_tokens s hs) (isCut_of_mem_tokens t ht)
  exact congrArg (Ordering.then · (compare a b)) hkeys

instance : TransCmp naturalOrder :=
  @transOrd_of_key _ _ ⟨naturalOrder⟩ naturalKeyOrd _ naturalKey naturalOrder_eq

end BoardNets.Text
