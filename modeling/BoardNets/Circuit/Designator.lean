import BoardNets.Circuit.Error
import BoardNets.Text.CharClass

/-! Designators, the references of parts: any number of non-empty segments closed by dots, then a
label over capital letters, `_`, `$` and `-`, then a number in decimal digits. -/
namespace BoardNets

structure Designator where
  label : String
  number : List Char
  deriving DecidableEq

namespace Designator

/-- The segments between dots, of which there is one more than there are dots. -/
def segments : List Char → List (List Char)
  | [] => [[]]
  | c :: cs =>
    if c = '.' then [] :: segments cs
    else
      match segments cs with
      | [] => [[c]]
      | s :: ss => (c :: s) :: ss

def isLabelChar (c : Char) : Bool := ('A' ≤ c ∧ c ≤ 'Z') ∨ c = '_' ∨ c = '$' ∨ c = '-'

def parse? (reference : String) : Option Designator :=
  let segments := segments reference.toList
  let last := segments.getLastD []
  let label := last.takeWhile isLabelChar
  let number := last.dropWhile isLabelChar
  if segments.dropLast.all (! ·.isEmpty) && !label.isEmpty && !number.isEmpty &&
      number.all Text.isDecimal then
    some ⟨String.ofList label, number⟩
  else none

/-- The value of a number in plain digits that fits 64 bits. -/
def value? (d : Designator) : Option Nat :=
  let value := Nat.ofDigitChars 10 d.number 0
  if d.number.all Char.isDigit && value < UInt64.size then some value else none

def firstFree (taken : List Nat) : Nat :=
  ((List.range' 1 (taken.length + 1)).find? fun n => n ∉ taken).getD 1

end Designator

def referenceLabel (reference : String) : Result String :=
  (Designator.parse? reference).elim (throw (.invalidReference reference)) (pure ·.label)

/-- The label with the smallest number that no existing reference with this label has. -/
def nextReference (label : String) (existing : List String) : String :=
  let taken := existing.filterMap fun r =>
    (Designator.parse? r).bind fun d => if d.label = label then d.value? else none
  label ++ toString (Designator.firstFree taken)

end BoardNets
