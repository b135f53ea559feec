import BoardNets.Text.Hex

/-! Hexadecimal digits are read as the numbers they were written for. -/
namespace BoardNets.Text

/-- Digits have their values and are no letters of another notation. -/
theorem hexValue?_hexDigit : ∀ {n : Nat}, n < 16 → hexValue? (hexDigit n) = some n := by
  decide

theorem hexDigit_ne : ∀ {n : Nat}, n < 16 → (hexDigit n).toLower ≠ 'u' ∧ hexDigit n ≠ '\x7b' := by
  decide

theorem readHex_concat (cs : List Char) (c : Char) : readHex (cs ++ [c]) =
    (readHex cs).bind fun n => (hexValue? c).map (16 * n + ·) := by
  rw [readHex, List.foldlM_append]
  cases h : cs.foldlM (fun n c => (hexValue? c).map (16 * n + ·)) 0 <;> simp [readHex, h]

end BoardNets.Text
