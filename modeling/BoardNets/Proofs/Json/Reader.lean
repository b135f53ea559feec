import BoardNets.Json.Reader
import BoardNets.Proofs.Text.Hex

/-! JSON is read as it is written. Strings come back piece by piece, whatever characters they hold,
and natural numbers digit by digit. Readability is kept by arrays and objects, so what is built from
readable values is read back from its text. -/
namespace BoardNets.Json

open Reader
open Text (hexDigit readHex hexValue? hexValue?_hexDigit)

/-- What a written character is read as, before surrogates are joined. -/
def pieceOf (c : Char) : Piece :=
  if c.toNat < 32 ∧ c ∉ ['\x08', '\t', '\n', '\x0c', '\r'] then .unit c.toNat else .char c

theorem readHex_control {n : Nat} (h : n < 32) :
    readHex ['0', '0', hexDigit (n / 16), hexDigit (n % 16)] = some n := by
  have hhigh := hexValue?_hexDigit (n := n / 16) (by omega)
  have hlow := hexValue?_hexDigit (n := n % 16) (by omega)
  have hzero : hexValue? '0' = some 0 := by decide
  simp only [readHex, List.foldlM_cons, List.foldlM_nil, hzero, hhigh, hlow, Option.map_some,
    Option.bind_eq_bind, Option.bind_some, Option.pure_def, Option.some.injEq]
  omega

theorem literal_escape (c : Char) (rest : List Char) : literal (escape c ++ rest) =
    (literal rest).map fun read => (pieceOf c :: read.1, read.2) := by
  -- Seven characters have an escape of their own, and only other control characters become units.
  by_cases hshort : c ∈ ['"', '\\', '\x08', '\t', '\n', '\x0c', '\r']
  · simp only [List.mem_cons, List.not_mem_nil, or_false] at hshort
    rcases hshort with rfl | rfl | rfl | rfl | rfl | rfl | rfl <;>
      cases h : literal rest <;> simp [escape, literal, simpleEscape?, pieceOf, h]
  · simp only [List.mem_cons, List.not_mem_nil, or_false, not_or] at hshort
    obtain ⟨hquote, hslash, hback, htab, hnewline, hfeed, hreturn⟩ := hshort
    by_cases hcontrol : c.toNat < 32
    · have hescape : escape c =
          ['\\', 'u', '0', '0', hexDigit (c.toNat / 16), hexDigit (c.toNat % 16)] := by
        simp [escape, hquote, hslash, hback, htab, hnewline, hfeed, hreturn, hcontrol]
      have hpiece : pieceOf c = .unit c.toNat := by
        simp [pieceOf, hcontrol, hback, htab, hnewline, hfeed, hreturn]
      rw [hescape, hpiece]
      show literal ('\\' :: 'u' :: '0' :: '0' :: _ :: _ :: rest) = _
      rw [literal, readHex_control hcontrol]
      cases literal rest <;> rfl
    · have hescape : escape c = [c] := by
        simp [escape, hquote, hslash, hback, htab, hnewline, hfeed, hreturn, hcontrol]
      have hpiece : pieceOf c = .char c := by simp [pieceOf, hcontrol]
      rw [hescape, hpiece, List.singleton_append, literal, if_neg (by simp [hslash, hcontrol])]
      · exact hquote
      · exact fun _ _ _ _ _ h => absurd h hslash
      · exact fun _ _ h => absurd h hslash

theorem literal_escapes (cs rest : List Char) : literal (cs.flatMap escape ++ '"' :: rest) =
    some (cs.map pieceOf, rest) := by
  induction cs with
  | nil => rw [List.flatMap_nil, List.nil_append, literal, List.map_nil]
  | cons c cs ih => rw [List.flatMap_cons, List.append_assoc, literal_escape, ih]; rfl

theorem decode_pieceOf (c : Char) (pieces : List Piece) :
    decode (pieceOf c :: pieces) = (decode pieces).map (c :: ·) := by
  rw [pieceOf]
  split
  · rename_i hcontrol
    have hhigh : isHigh c.toNat = false := by simp [isHigh]; omega
    have hlow : isLow c.toNat = false := by simp [isLow]; omega
    -- A unit may be joined with the next one, but control characters are no surrogates.
    cases pieces with
    | nil => simp [decode, hhigh, hlow, Char.ofNat_toNat]
    | cons piece pieces =>
      cases piece with
      | char d => simp [decode, hhigh, hlow, Char.ofNat_toNat]
      | unit n => rw [decode]; simp [hhigh, hlow, Char.ofNat_toNat]
  · rw [decode]

theorem textOf_pieces (s : String) : textOf (s.toList.map pieceOf) = some s := by
  have hdecode (cs : List Char) : decode (cs.map pieceOf) = some cs := by
    induction cs with
    | nil => rw [List.map_nil, decode]
    | cons c cs ih => rw [List.map_cons, decode_pieceOf, ih, Option.map_some]
  rw [textOf, hdecode, Option.map_some, String.ofList_toList]

theorem literal_quote (text : Option String) (rest : List Char) : ∃ written pieces,
    quote text ++ rest = '"' :: written ∧ literal written = some (pieces, rest) ∧
      textOf pieces = text := by
  cases text with
  | none => exact ⟨_, [.unit 0xD800], rfl, rfl, rfl⟩
  | some s =>
    refine ⟨_, _, ?_, literal_escapes s.toList rest, textOf_pieces s⟩
    simp [quote]

/-- What may stand after a value: the next one, the end of a list or of the text. -/
inductive Ends : List Char → Prop
  | done : Ends []
  | comma (cs : List Char) : Ends (',' :: cs)
  | line (cs : List Char) : Ends ('\n' :: cs)

theorem exists_toDigits {n : Nat} (h : 0 < n) : ∃ d ds, Nat.toDigits 10 n = d :: ds ∧ d ≠ '0' := by
  induction n using Nat.strongRecOn with
  | ind n ih =>
    by_cases hn : n < 10
    · have hdigit : ∀ n < 10, 0 < n → n.digitChar ≠ '0' := by decide
      exact ⟨_, [], Nat.toDigits_of_lt_base hn, hdigit n hn h⟩
    · obtain ⟨d, ds, hds, hd⟩ := ih (n / 10) (by omega) (by omega)
      rw [Nat.toDigits_of_base_le (by decide) (by omega), hds]
      exact ⟨d, _, rfl, hd⟩

theorem exists_digit (n : Nat) : ∃ d ds, Nat.toDigits 10 n = d :: ds ∧ d.isDigit = true := by
  cases h : Nat.toDigits 10 n with
  | nil => exact absurd h Nat.toDigits_ne_nil
  | cons d ds =>
    have hd : d ∈ Nat.toDigits 10 n := h ▸ List.mem_cons_self
    exact ⟨d, ds, rfl, Nat.isDigit_of_mem_toDigits (by decide) (by decide) hd⟩

theorem digits_append {ds rest : List Char} (hne : ds ≠ []) (hds : ∀ d ∈ ds, d.isDigit = true)
    (h : Ends rest) : digits (ds ++ rest) = some (ds, rest) := by
  have htake : (ds ++ rest).takeWhile Char.isDigit = ds := by
    rw [List.takeWhile_append_of_pos hds]
    cases h <;> simp
  have hdrop : (ds ++ rest).dropWhile Char.isDigit = rest := by
    rw [List.dropWhile_append_of_pos hds]
    cases h <;> simp
  rw [digits, htake, hdrop]
  cases ds with
  | nil => exact absurd rfl hne
  | cons d ds => rfl

theorem integerPart_toDigits (n : Nat) {rest : List Char} (h : Ends rest) :
    integerPart (Nat.toDigits 10 n ++ rest) = some (Nat.toDigits 10 n, rest) := by
  by_cases hn : n = 0
  · subst hn
    cases h <;> rfl
  · have hread : digits (Nat.toDigits 10 n ++ rest) = some (Nat.toDigits 10 n, rest) :=
      digits_append Nat.toDigits_ne_nil
        (fun _ hd => Nat.isDigit_of_mem_toDigits (by decide) (by decide) hd) h
    obtain ⟨d, ds, hds, hd⟩ := exists_toDigits (Nat.pos_of_ne_zero hn)
    rw [hds] at hread ⊢
    rw [← hread, List.cons_append, integerPart]
    exact fun _ heq => hd (List.cons.inj heq).1

theorem number_toDigits (n : Nat) {rest : List Char} (h : Ends rest) :
    Reader.number (Nat.toDigits 10 n ++ rest) = some (Nat.toDigits 10 n, rest) := by
  have hfraction : fractionPart rest = some ([], rest) := by cases h <;> rfl
  have hexponent : exponentPart rest = some ([], rest) := by cases h <;> rfl
  have hmagnitude : magnitude (Nat.toDigits 10 n ++ rest) = some (Nat.toDigits 10 n, rest) := by
    rw [magnitude, integerPart_toDigits n h]
    simp [hfraction, hexponent]
  obtain ⟨d, ds, hds, hd⟩ := exists_digit n
  rw [← hmagnitude, hds, List.cons_append, Reader.number]
  rintro _ heq
  rw [(List.cons.inj heq).1] at hd
  exact absurd hd (by decide)

theorem skipSpace_newline (depth : Nat) (cs : List Char) :
    skipSpace (newline depth ++ cs) = skipSpace cs := by
  refine List.dropWhile_append_of_pos fun c hc => ?_
  rcases List.mem_cons.1 hc with rfl | hc
  · rfl
  · rw [(List.mem_replicate.1 hc).2]
    rfl

theorem skipSpace_cons {c : Char} (h : isSpace c = false) (cs : List Char) :
    skipSpace (c :: cs) = c :: cs := by
  simp [skipSpace, h]

theorem value_congr {cs cs' : List Char} (h : skipSpace cs = skipSpace cs') (fuel : Nat) :
    value fuel cs = value fuel cs' := by
  cases fuel with
  | zero => simp only [value]
  | succ fuel => simp only [value, h]

theorem items_congr {cs cs' : List Char} (h : skipSpace cs = skipSpace cs') (fuel : Nat) :
    items fuel cs = items fuel cs' := by
  cases fuel with
  | zero => simp only [items]
  | succ fuel => simp only [items, value_congr h]

theorem members_congr {cs cs' : List Char} (h : skipSpace cs = skipSpace cs') (fuel : Nat) :
    members fuel cs = members fuel cs' := by
  cases fuel with
  | zero => simp only [members]
  | succ fuel => simp only [members, h]

/-- A value is read as it is written, whatever may go on after it. Twice the length of the text is
fuel enough, for every part of a value has a character of its own. -/
structure Readable (j : Json) : Prop where
  start : ∀ depth, ∃ c cs, render depth j = c :: cs ∧ isSpace c = false ∧ c ≠ ']'
  read : ∀ depth {fuel rest}, 2 * (render depth j).length ≤ fuel + 1 → Ends rest →
    value (fuel + 1) (render depth j ++ rest) = some (j, rest)

theorem Readable.length_pos {j : Json} (h : Readable j) (depth : Nat) :
    0 < (render depth j).length := by
  obtain ⟨c, cs, hcs, _⟩ := h.start depth
  simp [hcs]

theorem readable_bool (b : Bool) : Readable (.bool b) where
  start depth := by
    cases b
    · exact ⟨'f', _, rfl, rfl, by decide⟩
    · exact ⟨'t', _, rfl, rfl, by decide⟩
  read depth fuel rest _ _ := by
    cases b <;> rfl

theorem readable_string (text : Option String) : Readable (.string text) where
  start depth := ⟨'"', _, rfl, rfl, by decide⟩
  read depth fuel rest _ _ := by
    obtain ⟨written, pieces, hquote, hliteral, rfl⟩ := literal_quote text rest
    rw [render, hquote, value, skipSpace_cons rfl]
    simp [hliteral]

theorem digit_ne {d c : Char} (hd : d.isDigit = true) (hc : c.isDigit = false) : d ≠ c := by
  rintro rfl
  rw [hd] at hc
  cases hc

theorem isSpace_digit {d : Char} (hd : d.isDigit = true) : isSpace d = false := by
  simp [isSpace, digit_ne hd]

theorem value_digit {d : Char} (hd : d.isDigit = true) (fuel : Nat) (cs : List Char) :
    value (fuel + 1) (d :: cs) =
      (Reader.number (d :: cs)).map fun read => (.number read.1, read.2) := by
  rw [value, skipSpace_cons (isSpace_digit hd)]
  split
  case h_7 => rfl
  all_goals
    rename_i heq
    exact absurd (List.cons.inj heq).1 (digit_ne hd rfl)

theorem readable_ofNat (n : Nat) : Readable (ofNat n) where
  start depth := by
    obtain ⟨d, ds, hds, hd⟩ := exists_digit n
    exact ⟨d, ds, by rw [ofNat, render, hds], isSpace_digit hd, digit_ne hd rfl⟩
  read depth fuel rest _ hrest := by
    obtain ⟨d, ds, hds, hd⟩ := exists_digit n
    have hread := number_toDigits n hrest
    rw [ofNat, render]
    rw [hds, List.cons_append] at hread ⊢
    rw [value_digit hd, hread, Option.map_some]

theorem ends_newline (depth : Nat) (cs : List Char) : Ends (newline depth ++ cs) := .line _

/-- An item is read, and then the bracket or the items after a comma. -/
theorem items_item {item : Json} (h : Readable item) {depth fuel : Nat} {after : List Char}
    (hfuel : 2 * (render depth item).length ≤ fuel + 1) (hafter : Ends after) :
    items (fuel + 2) (render depth item ++ after) =
      match skipSpace after with
      | ']' :: after => some ([item], after)
      | ',' :: after => do
        let (items, after) ← items (fuel + 1) after
        return (item :: items, after)
      | _ => none := by
  rw [items, h.read depth hfuel hafter]
  rfl

/-- A member is read, and then the brace or the members after a comma. -/
theorem members_member {item : Json} (h : Readable item) (name : Option String) {depth fuel : Nat}
    {after : List Char} (hfuel : 2 * (render depth item).length ≤ fuel + 1) (hafter : Ends after) :
    members (fuel + 2) (quote name ++ (':' :: ' ' :: (render depth item ++ after))) =
      match skipSpace after with
      | '\x7d' :: after => some ([(name, item)], after)
      | ',' :: after => do
        let (members, after) ← members (fuel + 1) after
        return ((name, item) :: members, after)
      | _ => none := by
  obtain ⟨written, pieces, hquote, hliteral, rfl⟩ := literal_quote name
    (':' :: ' ' :: (render depth item ++ after))
  have hvalue : value (fuel + 1) (' ' :: (render depth item ++ after)) = some (item, after) :=
    (value_congr rfl _).trans (h.read depth hfuel hafter)
  rw [hquote, members, skipSpace_cons (c := '"') rfl]
  simp only [hliteral, skipSpace_cons (c := ':') rfl, hvalue, Option.bind_eq_bind, Option.bind_some]
  rfl

theorem items_render {item : Json} {rest : List Json} (hitem : Readable item)
    (hrest : ∀ j ∈ rest, Readable j) {depth fuel : Nat} (close : Nat) (after : List Char)
    (hfuel : 2 * (render depth item ++ renderItems depth rest).length ≤ fuel + 1) :
    items (fuel + 2)
      (render depth item ++ (renderItems depth rest ++ (newline close ++ ']' :: after))) =
        some (item :: rest, after) := by
  induction rest generalizing item fuel with
  | nil =>
    rw [renderItems, List.append_nil] at hfuel
    rw [renderItems, List.nil_append, items_item hitem hfuel (ends_newline close _),
      skipSpace_newline, skipSpace_cons (c := ']') rfl]
    rfl
  | cons next rest ih =>
    obtain ⟨hnext, hrest⟩ := List.forall_mem_cons.1 hrest
    have hpos := hitem.length_pos depth
    simp only [renderItems, List.length_append, List.length_cons] at hfuel
    obtain ⟨fuel, rfl⟩ : ∃ f, fuel = f + 1 := ⟨fuel - 1, by omega⟩
    have hfits : 2 * (render depth next ++ renderItems depth rest).length ≤ fuel + 1 := by
      rw [List.length_append]
      omega
    rw [renderItems]
    simp only [List.cons_append, List.append_assoc]
    rw [items_item hitem (by omega) (.comma _), skipSpace_cons (c := ',') rfl]
    simp [items_congr (skipSpace_newline depth _), ih hnext hrest hfits]

theorem members_render (name : Option String) {item : Json}
    {rest : List (Option String × Json)} (hitem : Readable item) (hrest : ∀ m ∈ rest, Readable m.2) {depth fuel : Nat} (close : Nat)
    (after : List Char)
    (hfuel : 2 * (render depth item ++ renderMembers depth rest).length ≤ fuel + 1) :
    members (fuel + 2) (quote name ++ (':' :: ' ' :: (render depth item ++
      (renderMembers depth rest ++ (newline close ++ '\x7d' :: after))))) =
        some ((name, item) :: rest, after) := by
  induction rest generalizing name item fuel with
  | nil =>
    rw [renderMembers, List.append_nil] at hfuel
    rw [renderMembers, List.nil_append, members_member hitem name hfuel (ends_newline close _),
      skipSpace_newline, skipSpace_cons (c := '\x7d') rfl]
    rfl
  | cons next rest ih =>
    obtain ⟨hnext, hrest⟩ := List.forall_mem_cons.1 hrest
    have hpos := hitem.length_pos depth
    simp only [renderMembers, List.length_append, List.length_cons] at hfuel
    obtain ⟨fuel, rfl⟩ : ∃ f, fuel = f + 1 := ⟨fuel - 1, by omega⟩
    have hfits : 2 * (render depth next.2 ++ renderMembers depth rest).length ≤ fuel + 1 := by
      rw [List.length_append]
      omega
    rw [renderMembers]
    simp only [List.cons_append, List.append_assoc, List.nil_append]
    rw [members_member hitem name (by omega) (.comma _), skipSpace_cons (c := ',') rfl]
    simp [members_congr (skipSpace_newline depth _), ih next.1 hnext hrest hfits]

theorem readable_array {list : List Json} (h : ∀ j ∈ list, Readable j) : Readable (.array list) where
  start depth := by
    cases list with
    | nil => exact ⟨'[', _, rfl, rfl, by decide⟩
    | cons item rest => exact ⟨'[', _, rfl, rfl, by decide⟩
  read depth fuel after hfuel _ := by
    cases list with
    | nil => rfl
    | cons item rest =>
      obtain ⟨hitem, hrest⟩ := List.forall_mem_cons.1 h
      simp only [render, List.length_append, List.length_cons] at hfuel
      obtain ⟨fuel, rfl⟩ : ∃ f, fuel = f + 2 := ⟨fuel - 2, by omega⟩
      have hfits : 2 * (render (depth + 1) item ++ renderItems (depth + 1) rest).length ≤
          fuel + 1 := by
        rw [List.length_append]
        omega
      have hread := items_render hitem hrest depth after hfits
      obtain ⟨c, cs, hcs, hspace, hne⟩ := hitem.start (depth + 1)
      rw [hcs, List.cons_append] at hread
      rw [render, value]
      simp only [List.cons_append, List.append_assoc, List.nil_append,
        skipSpace_cons (c := '[') rfl]
      rw [skipSpace_newline, hcs, List.cons_append, skipSpace_cons hspace]
      split
      · rename_i heq
        exact absurd (List.cons.inj heq).1 hne
      · rw [hread, Option.map_some]

theorem readable_object {list : List (Option String × Json)} (h : ∀ m ∈ list, Readable m.2) :
    Readable (.object list) where
  start depth := by
    cases list with
    | nil => exact ⟨'\x7b', _, rfl, rfl, by decide⟩
    | cons member rest => exact ⟨'\x7b', _, rfl, rfl, by decide⟩
  read depth fuel after hfuel _ := by
    cases list with
    | nil => rfl
    | cons member rest =>
      obtain ⟨hitem, hrest⟩ := List.forall_mem_cons.1 h
      simp only [render, List.length_append, List.length_cons] at hfuel
      obtain ⟨fuel, rfl⟩ : ∃ f, fuel = f + 2 := ⟨fuel - 2, by omega⟩
      have hfits : 2 * (render (depth + 1) member.2 ++ renderMembers (depth + 1) rest).length ≤
          fuel + 1 := by
        rw [List.length_append]
        omega
      have hread := members_render member.1 hitem hrest depth after hfits
      rw [render, value]
      simp only [List.cons_append, List.append_assoc, List.nil_append,
        skipSpace_cons (c := '\x7b') rfl]
      obtain ⟨written, hwritten⟩ : ∃ written, quote member.1 = '"' :: written := ⟨_, rfl⟩
      rw [hwritten, List.cons_append] at hread
      rw [skipSpace_newline, hwritten, List.cons_append, skipSpace_cons rfl]
      simp [hread]

theorem Readable.read_toText {j : Json} (h : Readable j) : parse? j.toText = some j := by
  have hread : value (2 * (render 0 j).length + 2) (render 0 j ++ []) = some (j, []) :=
    h.read 0 (by omega) .done
  rw [List.append_nil] at hread
  simp [parse?, toText, String.toList_ofList, hread, skipSpace]

end BoardNets.Json
