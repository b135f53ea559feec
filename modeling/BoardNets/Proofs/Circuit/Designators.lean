import BoardNets.Circuit.Designator
import BoardNets.Proofs.Text.Natural
import Mathlib.Data.List.Basic
import Mathlib.Data.List.TakeWhile

/-! Designators as texts. Dots stand only after segments and no character of a label is a digit, so
a reference reads as a designator in one way. Numbers written in plain digits are read back, and
from there the next free number after a full run of them is the one that follows. -/
namespace BoardNets
namespace Designator

structure IsLabel (label : String) : Prop where
  ne_empty : label ≠ ""
  chars : ∀ c ∈ label.toList, isLabelChar c = true

structure IsNumber (digits : List Char) : Prop where
  ne_nil : digits ≠ []
  digits : ∀ c ∈ digits, Text.isDecimal c = true

/-- The text of a path: its segments, each closed by a dot. -/
def closed (path : List (List Char)) : List Char := path.flatMap (· ++ ['.'])

/-- The references that stand for a designator, somewhere in a hierarchy. -/
def Spells (d : Designator) (reference : String) : Prop :=
  IsLabel d.label ∧ IsNumber d.number ∧ ∃ path : List (List Char),
    (∀ s ∈ path, s ≠ [] ∧ '.' ∉ s) ∧ reference.toList = closed path ++ (d.label.toList ++ d.number)

theorem segments_of_not_mem {cs : List Char} (h : '.' ∉ cs) : segments cs = [cs] := by
  induction cs with
  | nil => rfl
  | cons c cs ih =>
    rw [List.mem_cons, not_or] at h
    rw [segments, if_neg fun hc => h.1 hc.symm, ih h.2]

theorem segments_append_dot {s : List Char} (h : '.' ∉ s) (cs : List Char) :
    segments (s ++ '.' :: cs) = s :: segments cs := by
  induction s with
  | nil => simp [segments]
  | cons c s ih =>
    rw [List.mem_cons, not_or] at h
    rw [List.cons_append, segments, if_neg fun hc => h.1 hc.symm, ih h.2]

theorem segments_closed {path : List (List Char)} {last : List Char} (hpath : ∀ s ∈ path, '.' ∉ s)
    (hlast : '.' ∉ last) : segments (closed path ++ last) = path ++ [last] := by
  induction path with
  | nil => exact segments_of_not_mem hlast
  | cons s path ih =>
    rw [List.forall_mem_cons] at hpath
    have htext : closed (s :: path) ++ last = s ++ '.' :: (closed path ++ last) := by simp [closed]
    rw [htext, segments_append_dot hpath.1, ih hpath.2, List.cons_append]

theorem exists_closed (cs : List Char) : ∃ path last, (∀ s ∈ path, '.' ∉ s) ∧ '.' ∉ last ∧
    cs = closed path ++ last := by
  induction cs with
  | nil => exact ⟨[], [], by simp [closed]⟩
  | cons c cs ih =>
    obtain ⟨path, last, hpath, hlast, rfl⟩ := ih
    by_cases hc : c = '.'
    · exact ⟨[] :: path, last, by simpa using hpath, hlast, by simp [closed, hc]⟩
    · cases path with
      | nil => exact ⟨[], c :: last, by simp, by simp [Ne.symm hc, hlast], by simp [closed]⟩
      | cons s path =>
        rw [List.forall_mem_cons] at hpath
        refine ⟨(c :: s) :: path, last, ?_, hlast, by simp [closed]⟩
        rw [List.forall_mem_cons]
        exact ⟨by simp [Ne.symm hc, hpath.1], hpath.2⟩

/-- Labels have neither dots nor plain digits, and no character as far up as the other digits. -/
theorem isLabelChar_bound {c : Char} (h : isLabelChar c = true) :
    c.toNat ≠ 46 ∧ ¬(48 ≤ c.toNat ∧ c.toNat ≤ 57) ∧ c.toNat < 1632 := by
  simp only [isLabelChar, decide_eq_true_eq] at h
  rcases h with h | rfl | rfl | rfl
  · have hlow : 65 ≤ c.toNat := h.1
    have hhigh : c.toNat ≤ 90 := h.2
    omega
  · decide
  · decide
  · decide

theorem isDecimal_bound {c : Char} (h : Text.isDecimal c = true) :
    (48 ≤ c.toNat ∧ c.toNat ≤ 57) ∨ 1632 ≤ c.toNat := by
  have htable : ∀ r ∈ Text.decimalRanges, (r.1 = 48 ∧ r.2 = 57) ∨ 1632 ≤ r.1 := by decide
  obtain ⟨r, hr, hc⟩ := List.any_eq_true.1 h
  rw [Bool.and_eq_true, decide_eq_true_eq, decide_eq_true_eq] at hc
  have := htable r hr
  omega

theorem isDecimal_of_isDigit {c : Char} (h : c.isDigit = true) : Text.isDecimal c = true := by
  have hrange := Text.Token.isDigit_iff.1 h
  refine List.any_eq_true.2 ⟨(48, 57), by decide, ?_⟩
  simpa using hrange

theorem isLabelChar_eq_false {c : Char} (h : Text.isDecimal c = true) : isLabelChar c = false := by
  refine Bool.eq_false_iff.2 fun hlabel => ?_
  have hbound := isLabelChar_bound hlabel
  have := isDecimal_bound h
  omega

theorem dot_not_mem {d : Designator} (hlabel : IsLabel d.label) (hnumber : IsNumber d.number) :
    '.' ∉ d.label.toList ++ d.number := by
  have hdot : '.'.toNat = 46 := rfl
  rw [List.mem_append, not_or]
  constructor
  · intro h
    exact (isLabelChar_bound (hlabel.chars _ h)).1 hdot
  · intro h
    have := isDecimal_bound (hnumber.digits _ h)
    omega

theorem takeWhile_dropWhile_label {label number : List Char}
    (hlabel : ∀ c ∈ label, isLabelChar c = true) (hnumber : IsNumber number) :
    (label ++ number).takeWhile isLabelChar = label ∧
      (label ++ number).dropWhile isLabelChar = number := by
  obtain ⟨hne, hdigits⟩ := hnumber
  rw [List.takeWhile_append_of_pos hlabel, List.dropWhile_append_of_pos hlabel]
  cases number with
  | nil => exact absurd rfl hne
  | cons c cs =>
    have hc := isLabelChar_eq_false (hdigits c List.mem_cons_self)
    simp [hc]

theorem parse?_eq_some {reference : String} {d : Designator} :
    parse? reference = some d ↔ d.Spells reference := by
  constructor
  · intro h
    obtain ⟨path, last, hpath, hlast, htext⟩ := exists_closed reference.toList
    simp only [parse?, htext, segments_closed hpath hlast, List.getLastD_concat,
      List.dropLast_concat, Option.ite_none_right_eq_some, Bool.and_eq_true, List.all_eq_true,
      Bool.not_eq_true', List.isEmpty_eq_false_iff, Option.some.injEq] at h
    obtain ⟨⟨⟨⟨hsegments, hlabel⟩, hnumber⟩, hdigits⟩, rfl⟩ := h
    refine ⟨⟨?_, ?_⟩, ⟨hnumber, hdigits⟩, path, fun s hs => ⟨hsegments s hs, hpath s hs⟩, ?_⟩
    · simpa using hlabel
    · simpa using fun c hc => List.mem_takeWhile_imp hc
    · simp [htext]
  · rintro ⟨hlabel, hnumber, path, hpath, htext⟩
    have hsegments := segments_closed (fun s hs => (hpath s hs).2) (dot_not_mem hlabel hnumber)
    obtain ⟨htake, hdrop⟩ := takeWhile_dropWhile_label hlabel.chars hnumber
    have hne : d.label.toList ≠ [] := by simpa using hlabel.ne_empty
    simp only [parse?, htext, hsegments, List.getLastD_concat, List.dropLast_concat, htake, hdrop,
      String.ofList_toList]
    rw [if_pos]
    simpa [hne, hnumber.ne_nil] using ⟨fun s hs => (hpath s hs).1, hnumber.digits⟩

theorem toList_numbered (label : String) (n : Nat) :
    (label ++ toString n).toList = label.toList ++ Nat.toDigits 10 n := by simp

theorem isNumber_toDigits (n : Nat) : IsNumber (Nat.toDigits 10 n) where
  ne_nil := Nat.toDigits_ne_nil
  digits _ hc := isDecimal_of_isDigit (Nat.isDigit_of_mem_toDigits (by decide) (by decide) hc)

theorem parse?_numbered {label : String} (h : IsLabel label) (n : Nat) :
    parse? (label ++ toString n) = some ⟨label, Nat.toDigits 10 n⟩ :=
  parse?_eq_some.2 ⟨h, isNumber_toDigits n, [], by simp, toList_numbered label n⟩

theorem value?_toDigits (label : String) {n : Nat} (h : n < UInt64.size) :
    (Designator.mk label (Nat.toDigits 10 n)).value? = some n := by
  have hdigits : (Nat.toDigits 10 n).all Char.isDigit = true :=
    List.all_eq_true.2 fun _ hc => Nat.isDigit_of_mem_toDigits (by decide) (by decide) hc
  simp [value?, hdigits, h, Nat.ofDigitChars_toDigits]

theorem firstFree_range' (n : Nat) : firstFree (List.range' 1 n) = n + 1 := by
  have htaken : (List.range' 1 n).find? (fun k => k ∉ List.range' 1 n) = none :=
    List.find?_eq_none.2 fun k hk => by
      rw [decide_eq_true_eq, not_not]
      exact hk
  have hfree : n + 1 ∉ List.range' 1 n := by
    rw [List.mem_range'_1]
    omega
  rw [firstFree, List.length_range', List.range'_concat, List.find?_append, htaken, Nat.one_mul,
    Nat.add_comm 1 n, Option.none_or, List.find?_cons_of_pos (by simpa using hfree)]
  rfl

/-- A label that has been numbered up to `n` gets the number after it. -/
theorem nextReference_numbered {label : String} (h : IsLabel label) {n : Nat}
    (hn : n < UInt64.size) :
    nextReference label ((List.range' 1 n).map (label ++ toString ·)) =
      label ++ toString (n + 1) := by
  have htaken : (List.range' 1 n).filterMap (fun k => (parse? (label ++ toString k)).bind fun d =>
      if d.label = label then d.value? else none) = List.range' 1 n := by
    refine (List.filterMap_congr fun k hk => ?_).trans List.filterMap_some
    have hlt : k < UInt64.size := by
      have := List.mem_range'_1.1 hk
      omega
    rw [parse?_numbered h k, Option.bind_some, if_pos rfl, value?_toDigits label hlt]
  rw [nextReference, List.filterMap_map]
  exact congrArg (label ++ toString ·) ((congrArg firstFree htaken).trans (firstFree_range' n))

end Designator
end BoardNets
