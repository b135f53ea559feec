import BoardNets.Text.CharClass

/-! Natural order of texts: numbers inside a text count by value, blanks only separate. A text is
cut into tokens, token lists compare lexicographically, and texts with equal tokens compare by
character, so that only equal texts tie. -/
namespace BoardNets.Text

/-- A run of digits, never empty, or any other character but a blank. -/
inductive Token where
  | number (first : Char) (rest : List Char)
  | sign (c : Char)
  deriving DecidableEq

def startsWithDigit : List Char → Bool
  | [] => false
  | c :: _ => c.isDigit

def tokens : List Char → List Token
  | [] => []
  | c :: cs =>
    if isBlank c then tokens cs
    else if c.isDigit then
      match startsWithDigit cs, tokens cs with
      | true, .number d ds :: ts => .number c (d :: ds) :: ts
      | _, ts => .number c [] :: ts
    else .sign c :: tokens cs

/-- Runs compare like decimal fractions when either starts with a zero, and else by value: the
longer run is the larger number. -/
def Token.order : Token → Token → Ordering
  | .number a as, .number b bs =>
    if a = '0' ∨ b = '0' then compare (a :: as) (b :: bs)
    else (compare as.length bs.length).then (compare (a :: as) (b :: bs))
  | .number a _, .sign b => compare a b
  | .sign a, .number b _ => compare a b
  | .sign a, .sign b => compare a b

instance : Ord Token := ⟨Token.order⟩

def naturalOrder (a b : String) : Ordering :=
  (compare (tokens a.toList) (tokens b.toList)).then (compare a b)

def naturalSort (l : List String) : List String := l.mergeSort fun a b => (naturalOrder a b).isLE

end BoardNets.Text
