import BoardNets.Catalog.Basic

/-! Specialisation turns a generic interface into a concrete one by picking pins by position:
positions count from one among the pins of the generic interface, sorted by number. A specialisation
answers each connectivity once and gives the same answer from then on. -/
namespace BoardNets

structure Specialisation where
  type : InterfaceTypeId
  name : String
  positions : SortedMap InterfacePinId (List Nat)
  deriving DecidableEq

namespace Specialisation

/-- The pins of a generic interface in the order of their numbers. -/
def sortedPins (connectivity : Connectivity) (generic : Interface) :
    Except CatalogError (List Pin) := do
  let pins ← generic.assignedPins.mapM fun id =>
    (connectivity.pin? id).elim (throw (.unknownPin connectivity.name (toString id))) pure
  return pins.mergeSort fun p q => (Text.naturalOrder p.number q.number).isLE

def pick (connectivity : Connectivity) (pins : List Pin) (slot : InterfacePinId) (position : Nat) :
    Except CatalogError PinId :=
  match position with
  | 0 => throw (.specialisationIndex slot 0 pins.length connectivity.id)
  | index + 1 =>
    match pins[index]? with
    | some pin => pure pin.id
    | none => throw (.specialisationIndex slot position pins.length connectivity.id)

/-- The concrete interface, without an identifier. -/
def fresh (s : Specialisation) (c : Catalog) (connectivity : Connectivity) (generic : Interface) :
    Except CatalogError Interface := do
  let type ← c.interfaceType s.type
  let pins ← sortedPins connectivity generic
  let assignments ← s.positions.toList.mapM fun (slot, positions) => do
    return { interfacePin := slot, pins := ← positions.mapM (pick connectivity pins slot) }
  return {
    type := type.id
    name := s.name
    function := type.function
    isRequired := type.canBeRequired
    assignments }

/-- Answers given so far, each with the number that tells it from the others. -/
structure Memo where
  answers : SortedMap ConnectivityId (Nat × Interface) := ∅
  next : Nat := 0

/-- The answer of a connectivity is worked out from the generic interface of its first request. A
new answer gets the next number; a failure leaves no trace. -/
def request (s : Specialisation) (c : Catalog) (connectivity : Connectivity)
    (generic : Interface) (memo : Memo) : Except CatalogError (Nat × Interface) × Memo :=
  match memo.answers.find? connectivity.id with
  | some answer => (.ok answer, memo)
  | none =>
    match s.fresh c connectivity generic with
    | .error e => (.error e, memo)
    | .ok interface =>
      let answer := (memo.next, interface)
      (.ok answer, ⟨memo.answers.insert connectivity.id answer, memo.next + 1⟩)

end Specialisation
end BoardNets
