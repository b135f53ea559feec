import BoardNets.Id.Uuid
import BoardNets.Proofs.Text.Hex
import Mathlib.Algebra.Ring.Nat

/-! Identifiers are read as they are written: the digits come together again, their hyphens are
where groups end, and no other written form starts or ends that way. -/
namespace BoardNets.Uuid

open Text (hexDigit readHex hexValue?_hexDigit hexDigit_ne readHex_concat)

theorem length_hexDigits (count n : Nat) : (hexDigits count n).length = count := by
  induction count generalizing n with
  | zero => rfl
  | succ count ih => simp [hexDigits, ih]

theorem exists_of_mem_hexDigits {count n : Nat} {c : Char} (h : c ∈ hexDigits count n) :
    ∃ d, d < 16 ∧ c = hexDigit d := by
  induction count generalizing n with
  | zero => cases h
  | succ count ih =>
    rw [hexDigits, List.mem_append, List.mem_singleton] at h
    rcases h with h | rfl
    · exact ih h
    · exact ⟨n % 16, by omega, rfl⟩

theorem readHex_hexDigits (count n : Nat) : readHex (hexDigits count n) = some (n % 16 ^ count) := by
  induction count generalizing n with
  | zero => simp [hexDigits, readHex, Nat.mod_one]
  | succ count ih =>
    have hdigit : n % 16 < 16 := by omega
    rw [hexDigits, readHex_concat, ih, Option.bind_some, hexValue?_hexDigit hdigit, Option.map_some,
      Nat.pow_succ', Nat.mod_mul, Nat.add_comm]

theorem unhyphenate_hyphenate (ns : List Nat) {cs : List Char} (h : cs.length = ns.sum) :
    unhyphenate ns (hyphenate ns cs) = some cs := by
  induction ns generalizing cs with
  | nil => rfl
  | cons n ns ih =>
    cases ns with
    | nil => rw [hyphenate, unhyphenate, if_pos (by simpa using h)]
    | cons m ns =>
      have hlength : (cs.take n).length = n := by
        simp only [List.length_take, List.sum_cons] at h ⊢
        omega
      have hrest : unhyphenate (m :: ns) (hyphenate (m :: ns) (cs.drop n)) = some (cs.drop n) :=
        ih (by rw [List.length_drop, h, List.sum_cons, Nat.add_sub_cancel_left])
      have hcut : hyphenate (n :: m :: ns) cs =
          cs.take n ++ '-' :: hyphenate (m :: ns) (cs.drop n) := rfl
      simp only [hcut, unhyphenate, List.drop_left' hlength, List.take_left' hlength, hrest,
        Option.map_some, List.take_append_drop]

theorem length_hyphenate_groups {cs : List Char} (h : cs.length = 32) :
    (hyphenate groups cs).length = 36 := by
  simp [hyphenate, groups, h]

theorem parseChars_hyphenate {cs : List Char} (hlength : cs.length = 32)
    (hdigits : ∀ c ∈ cs, ∃ d, d < 16 ∧ c = hexDigit d) :
    parseChars (hyphenate groups cs) = ofDigits? cs := by
  have hread : ofHyphenated? (hyphenate groups cs) = ofDigits? cs := by
    rw [ofHyphenated?, unhyphenate_hyphenate groups hlength, Option.bind_eq_bind, Option.bind_some]
  have hlong := length_hyphenate_groups hlength
  cases cs with
  | nil => simp at hlength
  | cons c cs =>
    obtain ⟨d, hd, rfl⟩ := hdigits c List.mem_cons_self
    obtain ⟨hurn, hbrace⟩ := hexDigit_ne hd
    obtain ⟨rest, hrest⟩ : ∃ rest, hyphenate groups (hexDigit d :: cs) = hexDigit d :: rest :=
      ⟨_, rfl⟩
    rw [hrest] at hread hlong ⊢
    have hnotUrn : ofUrn? (hexDigit d :: rest) = none := by
      rw [ofUrn?, if_neg]
      intro h
      exact hurn (List.cons.inj h).1
    have hnotBraced : ofBraced? (hexDigit d :: rest) = none := by
      rw [ofBraced?]
      exact fun _ h => hbrace (List.cons.inj h).1
    rw [parseChars, hnotUrn, hnotBraced, if_neg (by omega), hread, Option.none_or, Option.none_or]

theorem parse?_toString (u : Uuid) : parse? u.toString = some u := by
  have hbits : u.bits.toNat % 16 ^ 32 = u.bits.toNat := by
    have := u.bits.isLt
    omega
  rw [parse?, Uuid.toString, String.toList_ofList,
    parseChars_hyphenate (length_hexDigits 32 _) fun _ => exists_of_mem_hexDigits, ofDigits?,
    readHex_hexDigits, hbits, Option.map_some, BitVec.ofNat_toNat, BitVec.setWidth_eq]

end BoardNets.Uuid
