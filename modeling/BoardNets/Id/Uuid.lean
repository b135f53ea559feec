import BoardNets.Sorted.Order
import BoardNets.Text.Hex

/-! 128-bit identifiers and their texts: 32 hexadecimal digits, plain or in hyphenated groups, the
latter also in braces or as a URN. Identifiers are written hyphenated in lower case. -/
namespace BoardNets

open Std

structure Uuid where
  bits : BitVec 128
  deriving DecidableEq

namespace Uuid

instance : Ord Uuid := ⟨fun a b => compare a.bits b.bits⟩

instance : TransOrd Uuid := transOrd_of_key bits fun _ _ => rfl

instance : LawfulEqOrd Uuid := lawfulEqOrd_of_key bits (fun _ _ => rfl)
  fun | ⟨_⟩, ⟨_⟩, rfl => rfl

def nil : Uuid := ⟨0⟩

instance : Inhabited Uuid := ⟨nil⟩

def hexDigits : (count n : Nat) → List Char
  | 0, _ => []
  | count + 1, n => hexDigits count (n / 16) ++ [Text.hexDigit (n % 16)]

def groups : List Nat := [8, 4, 4, 4, 12]

def hyphenate : List Nat → List Char → List Char
  | [], cs => cs
  | [_], cs => cs
  | n :: ns, cs => cs.take n ++ '-' :: hyphenate ns (cs.drop n)

/-- The digits of a text that has a hyphen after every group but the last. -/
def unhyphenate : List Nat → List Char → Option (List Char)
  | [], cs => some cs
  | [n], cs => if cs.length = n then some cs else none
  | n :: ns, cs =>
    match cs.drop n with
    | '-' :: rest => (unhyphenate ns rest).map (cs.take n ++ ·)
    | _ => none

protected def toString (u : Uuid) : String :=
  String.ofList (hyphenate groups (hexDigits 32 u.bits.toNat))

instance : ToString Uuid := ⟨Uuid.toString⟩

def ofDigits? (cs : List Char) : Option Uuid := (Text.readHex cs).map fun n => ⟨BitVec.ofNat 128 n⟩

def ofHyphenated? (cs : List Char) : Option Uuid := unhyphenate groups cs >>= ofDigits?

/-- What a name written as a URN starts with, in any letter case. -/
def urnStart : List Char := ['u', 'r', 'n', ':', 'u', 'u', 'i', 'd', ':']

def ofUrn? (cs : List Char) : Option Uuid :=
  if (cs.take urnStart.length).map Char.toLower = urnStart then
    ofHyphenated? (cs.drop urnStart.length)
  else none

def ofBraced? : List Char → Option Uuid
  | '{' :: rest => if rest.getLast? = some '}' then ofHyphenated? rest.dropLast else none
  | _ => none

/-- Reads any of the four written forms; no text is in two of them. -/
def parseChars (cs : List Char) : Option Uuid :=
  (ofUrn? cs).or <| (ofBraced? cs).or <|
    if cs.length = 32 then ofDigits? cs else ofHyphenated? cs

def parse? (s : String) : Option Uuid := parseChars s.toList

end Uuid
end BoardNets
