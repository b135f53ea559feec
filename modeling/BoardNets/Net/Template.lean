import BoardNets.Sorted.Order
import BoardNets.Text.Case

/-! Templates of net names, with a slot for an index that is filled only where several nets of a
board would have the same name. -/
namespace BoardNets

open Std

/-- The number that the first index is written as. -/
inductive IndexBase where
  | zero
  | one
  deriving DecidableEq

def IndexBase.first : IndexBase → Nat
  | .zero => 0
  | .one => 1

structure NameTemplate where
  stem : String
  base : IndexBase
  ending : String
  deriving DecidableEq

namespace NameTemplate

abbrev keyOrd : Ord (String × Nat × String) := @lexOrd _ _ _ lexOrd

def key (t : NameTemplate) : String × Nat × String := (t.stem, t.base.first, t.ending)

instance : Ord NameTemplate := ⟨fun a b => keyOrd.compare a.key b.key⟩

instance : TransOrd NameTemplate := @transOrd_of_key _ _ _ keyOrd _ key fun _ _ => rfl

theorem eq_of_key : ∀ a b : NameTemplate, a.key = b.key → a = b
  | ⟨_, .zero, _⟩, ⟨_, .zero, _⟩, rfl => rfl
  | ⟨_, .one, _⟩, ⟨_, .one, _⟩, rfl => rfl

instance : LawfulEqOrd NameTemplate :=
  @lawfulEqOrd_of_key _ _ _ keyOrd _ key (fun _ _ => rfl) eq_of_key

/-- For signals that several nets of a family share: label, index from zero, and pin. -/
def shared (familyLabel : String) (pin : Option String) : NameTemplate where
  stem := Text.upper familyLabel
  base := .zero
  ending := pin.elim "" fun p => "_" ++ Text.upper p

def nonShared (function pin : String) : NameTemplate where
  stem := Text.upper function
  base := .one
  ending := "_" ++ Text.upper pin

def render (t : NameTemplate) (index : Option Nat) : String :=
  t.stem ++ index.elim "" (fun i => toString (i + t.base.first)) ++ t.ending

def label (t : NameTemplate) : String :=
  t.stem ++ "<index" ++ toString t.base.first ++ ">" ++ t.ending

end NameTemplate
end BoardNets
