import BoardNets.Proofs.Text.Natural
import Mathlib.Algebra.Ring.Nat

/-! Numbers in texts. Behind a text that does not end in a digit, numerals are tokens of their own,
and one that is written without leading zeros is the longer or the first in the order of its digits
exactly where it is the greater number. -/
namespace BoardNets.Text

open Std

def digit (c : Char) : Nat := c.toNat - '0'.toNat

/-- The number that decimal digits write. -/
def decimal (cs : List Char) : Nat := Nat.ofDigitChars 10 cs 0

/-- Decimal digits without leading zeros. -/
structure IsNumeral (cs : List Char) : Prop where
  nonempty : cs ≠ []
  digits : ∀ c ∈ cs, c.isDigit = true
  unpadded : cs.head? = some '0' → cs = ['0']

def EndsInDigit (cs : List Char) : Prop := ∃ c, cs.getLast? = some c ∧ c.isDigit = true

theorem decimal_cons (c : Char) (cs : List Char) :
    decimal (c :: cs) = 10 ^ cs.length * digit c + decimal cs := by
  rw [decimal, Nat.ofDigitChars_cons, Nat.ofDigitChars_eq_ofDigitChars_zero]
  simp [digit, decimal]

theorem toNat_eq_digit {c : Char} (hc : c.isDigit = true) : c.toNat = '0'.toNat + digit c := by
  have hrange := Token.isDigit_iff.1 hc
  have hzero : '0'.toNat = 48 := rfl
  rw [digit]
  omega

theorem digit_lt {c : Char} (hc : c.isDigit = true) : digit c < 10 := by
  have hrange := Token.isDigit_iff.1 hc
  have hzero : '0'.toNat = 48 := rfl
  rw [digit]
  omega

theorem digit_pos {c : Char} (hc : c.isDigit = true) (hne : c ≠ '0') : 0 < digit c := by
  refine Nat.pos_of_ne_zero fun hzero => hne (Char.toNat_inj.1 ?_)
  rw [toNat_eq_digit hc, hzero, Nat.add_zero]

theorem compare_digits {c d : Char} (hc : c.isDigit = true) (hd : d.isDigit = true) :
    compare c d = compare (digit c) (digit d) := by
  have hlt {c d : Char} (hc : c.isDigit = true) (hd : d.isDigit = true) :
      compare c d = .lt ↔ compare (digit c) (digit d) = .lt := by
    rw [Token.compare_eq_lt, Nat.compare_eq_lt, toNat_eq_digit hc, toNat_eq_digit hd,
      Nat.add_lt_add_iff_left]
  cases h : compare (digit c) (digit d) with
  | lt => exact (hlt hc hd).2 h
  | gt =>
    rw [OrientedCmp.gt_iff_lt] at h ⊢
    exact (hlt hd hc).2 h
  | eq =>
    have hcode : c.toNat = d.toNat := by
      rw [toNat_eq_digit hc, toNat_eq_digit hd, Nat.compare_eq_eq.1 h]
    rw [Char.toNat_inj.1 hcode, compare_self]

theorem decimal_lt {cs : List Char} (hcs : ∀ c ∈ cs, c.isDigit = true) :
    decimal cs < 10 ^ cs.length := by
  induction cs with
  | nil => exact Nat.one_pos
  | cons c cs ih =>
    obtain ⟨hc, hrest⟩ := List.forall_mem_cons.1 hcs
    rw [decimal_cons, List.length_cons, Nat.pow_succ]
    calc 10 ^ cs.length * digit c + decimal cs
        < 10 ^ cs.length * digit c + 10 ^ cs.length := Nat.add_lt_add_left (ih hrest) _
      _ = 10 ^ cs.length * (digit c + 1) := rfl
      _ ≤ 10 ^ cs.length * 10 := Nat.mul_le_mul_left _ (digit_lt hc)

theorem le_decimal {c : Char} {cs : List Char} (hc : c.isDigit = true) (hne : c ≠ '0') :
    10 ^ cs.length ≤ decimal (c :: cs) := by
  rw [decimal_cons]
  exact Nat.le_trans (Nat.le_mul_of_pos_right _ (digit_pos hc hne)) (Nat.le_add_right _ _)

theorem compare_multiples {base a b x y : Nat} (hx : x < base) (hy : y < base) :
    compare (base * a + x) (base * b + y) = (compare a b).then (compare x y) := by
  have hlt {a b x y : Nat} (hx : x < base) (hab : a < b) : base * a + x < base * b + y :=
    calc base * a + x < base * a + base := Nat.add_lt_add_left hx _
      _ = base * (a + 1) := rfl
      _ ≤ base * b := Nat.mul_le_mul_left _ hab
      _ ≤ base * b + y := Nat.le_add_right _ _
  rcases Nat.lt_trichotomy a b with hab | rfl | hba
  · rw [Nat.compare_eq_lt.2 hab, Nat.compare_eq_lt.2 (hlt hx hab)]
    rfl
  · rw [compare_self, Ordering.eq_then]
    simp [compare, compareOfLessAndEq]
  · rw [Nat.compare_eq_gt.2 hba, Nat.compare_eq_gt.2 (hlt hy hba)]
    rfl

theorem compare_of_length_eq {cs ds : List Char} (hcs : ∀ c ∈ cs, c.isDigit = true)
    (hds : ∀ d ∈ ds, d.isDigit = true) (hlength : cs.length = ds.length) :
    compare cs ds = compare (decimal cs) (decimal ds) := by
  induction cs generalizing ds with
  | nil =>
    obtain rfl := List.length_eq_zero_iff.1 hlength.symm
    rfl
  | cons c cs ih =>
    obtain ⟨d, ds, rfl⟩ := List.exists_cons_of_length_eq_add_one hlength.symm
    obtain ⟨hc, hcs⟩ := List.forall_mem_cons.1 hcs
    obtain ⟨hd, hds⟩ := List.forall_mem_cons.1 hds
    have hrest : cs.length = ds.length := Nat.succ.inj hlength
    have hcons : compare (c :: cs) (d :: ds) = (compare c d).then (compare cs ds) :=
      List.compare_cons_cons
    rw [hcons, ih hcs hds hrest, compare_digits hc hd, decimal_cons, decimal_cons, ← hrest,
      compare_multiples (decimal_lt hcs) (hrest ▸ decimal_lt hds)]

theorem decimal_lt_of_length_lt {c d : Char} {cs ds : List Char}
    (hcs : ∀ x ∈ c :: cs, x.isDigit = true) (hd : d.isDigit = true) (hne : d ≠ '0')
    (hlt : cs.length < ds.length) : decimal (c :: cs) < decimal (d :: ds) :=
  calc decimal (c :: cs) < 10 ^ (c :: cs).length := decimal_lt hcs
    _ ≤ 10 ^ ds.length := Nat.pow_le_pow_right (by decide) hlt
    _ ≤ decimal (d :: ds) := le_decimal hd hne

theorem Token.order_numerals {c d : Char} {cs ds : List Char} (hcs : IsNumeral (c :: cs))
    (hds : IsNumeral (d :: ds)) :
    (number c cs).order (number d ds) = compare (decimal (c :: cs)) (decimal (d :: ds)) := by
  have hc := hcs.digits c List.mem_cons_self
  have hd := hds.digits d List.mem_cons_self
  rw [order]
  split
  · -- a numeral that starts with a zero is the zero alone
    rename_i hzero
    have hlone {c : Char} {cs : List Char} (h : IsNumeral (c :: cs)) (hc : c = '0') : cs = [] :=
      (List.cons.inj (h.unpadded (congrArg some hc))).2
    have hpos {c : Char} {cs : List Char} (hc : c.isDigit = true) (hne : c ≠ '0') :
        decimal ['0'] < decimal (c :: cs) :=
      Nat.lt_of_lt_of_le (Nat.pow_pos (by decide : 0 < 10)) (le_decimal hc hne)
    have hcons : compare (c :: cs) (d :: ds) = (compare c d).then (compare cs ds) :=
      List.compare_cons_cons
    rw [hcons]
    by_cases hc0 : c = '0' <;> by_cases hd0 : d = '0'
    · rw [hlone hcs hc0, hlone hds hd0, hc0, hd0]
      rfl
    · rw [hlone hcs hc0, hc0, compare_zero_digit hd hd0, Nat.compare_eq_lt.2 (hpos hd hd0)]
      rfl
    · rw [hlone hds hd0, hd0, OrientedCmp.gt_iff_lt.2 (compare_zero_digit hc hc0),
        Nat.compare_eq_gt.2 (hpos hc hc0)]
      rfl
    · exact absurd hzero (not_or.2 ⟨hc0, hd0⟩)
  · rename_i hzero
    obtain ⟨hc0, hd0⟩ := not_or.1 hzero
    rcases Nat.lt_trichotomy cs.length ds.length with hlt | heq | hgt
    · rw [Nat.compare_eq_lt.2 hlt,
        Nat.compare_eq_lt.2 (decimal_lt_of_length_lt hcs.digits hd hd0 hlt)]
      rfl
    · rw [Nat.compare_eq_eq.2 heq, Ordering.eq_then]
      exact compare_of_length_eq hcs.digits hds.digits (congrArg (· + 1) heq)
    · rw [Nat.compare_eq_gt.2 hgt,
        Nat.compare_eq_gt.2 (decimal_lt_of_length_lt hds.digits hc hc0 hgt)]
      rfl

theorem isBlank_eq_false {c : Char} (hc : c.isDigit = true) : isBlank c = false := by
  have hrange := Token.isDigit_iff.1 hc
  simp only [isBlank, inRanges, blankRanges, List.any_cons, List.any_nil, Bool.or_false,
    Bool.or_eq_false_iff, Bool.and_eq_false_iff, decide_eq_false_iff_not]
  omega

theorem exists_tokens {cs : List Char} (h : startsWithDigit cs = true) :
    ∃ d ds ts, tokens cs = .number d ds :: ts := by
  cases cs with
  | nil => cases h
  | cons c cs =>
    have hblank := isBlank_eq_false h
    have hdigit : c.isDigit = true := h
    rw [tokens, if_neg (by simp [hblank]), if_pos hdigit]
    split
    · exact ⟨_, _, _, rfl⟩
    · exact ⟨_, _, _, rfl⟩

theorem tokens_append {cs : List Char} (h : ¬EndsInDigit cs) (ds : List Char) :
    tokens (cs ++ ds) = tokens cs ++ tokens ds := by
  induction cs with
  | nil => rfl
  | cons c cs ih =>
    have hrest : ¬EndsInDigit cs := by
      rintro ⟨x, hx, hdigit⟩
      exact h ⟨x, by rw [List.getLast?_cons, hx]; rfl, hdigit⟩
    rw [List.cons_append, tokens, tokens, ih hrest]
    split
    · rfl
    · split
      · rename_i hdigit
        have hne : cs ≠ [] := by
          rintro rfl
          exact h ⟨c, rfl, hdigit⟩
        have hstart : startsWithDigit (cs ++ ds) = startsWithDigit cs := by
          cases cs with
          | nil => exact absurd rfl hne
          | cons x cs => rfl
        rw [hstart]
        cases hrun : startsWithDigit cs with
        | false => rfl
        | true =>
          obtain ⟨d, run, ts, htokens⟩ := exists_tokens hrun
          rw [htokens]
          rfl
      · rfl

theorem tokens_digits {c : Char} {cs : List Char} (h : ∀ x ∈ c :: cs, x.isDigit = true) :
    tokens (c :: cs) = [.number c cs] := by
  induction cs generalizing c with
  | nil =>
    have hc := h c List.mem_cons_self
    rw [tokens, if_neg (by simp [isBlank_eq_false hc]), if_pos hc]
    rfl
  | cons d cs ih =>
    obtain ⟨hc, hcs⟩ := List.forall_mem_cons.1 h
    have hstart : startsWithDigit (d :: cs) = true := hcs d List.mem_cons_self
    rw [tokens, if_neg (by simp [isBlank_eq_false hc]), if_pos hc, ih hcs, hstart]

theorem compareLex_append_left {α : Type} {cmp : α → α → Ordering} [ReflCmp cmp]
    (xs ys zs : List α) :
    List.compareLex cmp (xs ++ ys) (xs ++ zs) = List.compareLex cmp ys zs := by
  induction xs with
  | nil => rfl
  | cons x xs ih =>
    have hself : cmp x x = .eq := ReflCmp.compare_self
    rw [List.cons_append, List.cons_append, List.compareLex_cons_cons, hself, Ordering.eq_then, ih]

instance : ReflCmp Token.order where
  compare_self := by
    rintro (⟨c, cs⟩ | c)
    · rw [Token.order]
      split
      · exact compare_self
      · rw [compare_self, Ordering.eq_then, compare_self]
    · exact compare_self

/-- Numerals behind a common start are in the order of their numbers. -/
theorem naturalOrder_append {u m n : String} (hu : ¬EndsInDigit u.toList)
    (hm : IsNumeral m.toList) (hn : IsNumeral n.toList) : naturalOrder (u ++ m) (u ++ n) =
      (compare (decimal m.toList) (decimal n.toList)).then (compare (u ++ m) (u ++ n)) := by
  obtain ⟨c, cs, hcs⟩ := List.exists_cons_of_ne_nil hm.nonempty
  obtain ⟨d, ds, hds⟩ := List.exists_cons_of_ne_nil hn.nonempty
  rw [naturalOrder, String.toList_append, String.toList_append, tokens_append hu, tokens_append hu]
  change (List.compareLex Token.order _ _).then _ = _
  rw [hcs] at hm ⊢
  rw [hds] at hn ⊢
  rw [compareLex_append_left, tokens_digits hm.digits, tokens_digits hn.digits,
    List.compareLex_cons_cons, Token.order_numerals hm hn, List.compareLex_nil_nil,
    Ordering.then_eq]

theorem IsNumeral.eq_of_decimal_eq {cs ds : List Char} (hcs : IsNumeral cs) (hds : IsNumeral ds)
    (h : decimal cs = decimal ds) : cs = ds := by
  obtain ⟨c, cs, rfl⟩ := List.exists_cons_of_ne_nil hcs.nonempty
  obtain ⟨d, ds, rfl⟩ := List.exists_cons_of_ne_nil hds.nonempty
  have horder := Token.order_numerals hcs hds
  rw [h, compare_self, Token.order] at horder
  split at horder
  · exact LawfulEqCmp.eq_of_compare horder
  · exact LawfulEqCmp.eq_of_compare (Ordering.then_eq_eq.1 horder).2

theorem naturalOrder_eq_eq {a b : String} : naturalOrder a b = .eq ↔ a = b := by
  constructor
  · intro h
    exact LawfulEqCmp.eq_of_compare (Ordering.then_eq_eq.1 h).2
  · rintro rfl
    exact ReflCmp.compare_self

/-- The natural order is a total order, and behind a start that does not end in a digit it is the
order of numbers. -/
theorem naturalOrder_total_numeric :
    (∀ a b, naturalOrder a b = .eq ↔ a = b) ∧
    (∀ a b, naturalOrder b a = (naturalOrder a b).swap) ∧
    (∀ a b c, (naturalOrder a b).isLE = true → (naturalOrder b c).isLE = true →
      (naturalOrder a c).isLE = true) ∧
    (∀ u m n : String, ¬EndsInDigit u.toList → IsNumeral m.toList → IsNumeral n.toList →
      (naturalOrder (u ++ m) (u ++ n) = .lt ↔ decimal m.toList < decimal n.toList)) := by
  refine ⟨fun a b => naturalOrder_eq_eq, fun a b => OrientedCmp.eq_swap,
    fun a b c => TransCmp.isLE_trans, fun u m n hu hm hn => ?_⟩
  rw [naturalOrder_append hu hm hn]
  rcases Nat.lt_trichotomy (decimal m.toList) (decimal n.toList) with hlt | heq | hgt
  · rw [Nat.compare_eq_lt.2 hlt]
    exact iff_of_true rfl hlt
  · obtain rfl := String.toList_inj.1 (hm.eq_of_decimal_eq hn heq)
    rw [compare_self, Ordering.eq_then, compare_self]
    exact iff_of_false nofun (Nat.lt_irrefl _)
  · rw [Nat.compare_eq_gt.2 hgt]
    exact iff_of_false nofun (Nat.lt_asymm hgt)

theorem naturalOrder_total_numeric_pins :
    (naturalOrder "PA9" "PB1").isLE = true ∧ ¬EndsInDigit "PA".toList ∧ IsNumeral "9".toList ∧
      IsNumeral "10".toList ∧ naturalOrder ("PA" ++ "9") ("PA" ++ "10") = .lt := by
  have hstart : ¬EndsInDigit "PA".toList := by
    rintro ⟨c, hlast, hdigit⟩
    obtain rfl : 'A' = c := Option.some.inj hlast
    cases hdigit
  have hnine : IsNumeral "9".toList :=
    ⟨by decide, List.all_eq_true.1 (by decide), by decide⟩
  have hten : IsNumeral "10".toList :=
    ⟨by decide, List.all_eq_true.1 (by decide), by decide⟩
  obtain ⟨-, -, htrans, hnumeric⟩ := naturalOrder_total_numeric
  exact ⟨htrans "PA9" "PA10" "PB1" (by decide) (by decide), hstart, hnine, hten,
    (hnumeric "PA" "9" "10" hstart hnine hten).2 (by decide)⟩

end BoardNets.Text
