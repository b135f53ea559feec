import BoardNets.Catalog.Error
import BoardNets.Circuit.Place

/-! What can go wrong while a circuit is built, examined or turned into nets. -/
namespace BoardNets

inductive Error where
  | catalog (e : CatalogError)
  | unknownComponent (name : String)
  | unresolvedFilter (reference : String)
  | notACandidate (filter component : String)
  | invalidFragment (reason : String)
  | unresolvedFragment (fragment : String)
  | undeterminedInterfaceType (fragment : String) (side : Side) (reason : String)
  | interfaceNotFound (component name type : String)
  | ambiguousInterface (component name type : String) (count : Nat)
  | pinNotFound (component pin : String)
  | pinAssignmentNotFound (interface : String) (assignment : PinAssignmentId)
  | unsupportedPairing (fragment reason : String)
  | connectionKeyMismatch (fragment : String)
  | invalidAncillary (reason : String)
  | unknownRole (name : String)
  | missingReferencePin (kind : ReferenceKind) (connection : String)
  | mixedFamilies (bus : String)
  | multipleBuses (pins : String)
  | unbussedPins (pins : String)
  | nonPartPin (pin : String)
  | noSourcePin (pins : String)
  | invalidReference (reference : String)
  | invalidBoard (reference : String)
  /-- Options that cannot be read. -/
  | invalidOptions
  /-- An options file that cannot be fetched. -/
  | missingOptions
  deriving DecidableEq

inductive ErrorKind where
  /-- Something is described inconsistently. -/
  | definition
  /-- Something that should exist could not be found. -/
  | lookup
  deriving DecidableEq

namespace Error

def message : Error → String
  | catalog e => e.message
  | unknownComponent name => "Unknown component: " ++ name
  | unresolvedFilter reference => reference ++ " is an unresolved component filter"
  | notACandidate filter component => component ++ " is not a candidate of filter " ++ filter
  | invalidFragment reason => "Invalid bus fragment: " ++ reason
  | unresolvedFragment fragment => "Bus fragment " ++ fragment ++ " has unresolved interfaces"
  | undeterminedInterfaceType fragment side reason =>
    "Cannot determine the " ++ side.name ++ " interface type of " ++ fragment ++ ": " ++ reason
  | interfaceNotFound component name type =>
    "No interface " ++ name ++ " of type " ++ type ++ " on " ++ component
  | ambiguousInterface component name type count =>
    "Found " ++ toString count ++ " interfaces " ++ name ++ " of type " ++ type ++ " on " ++
      component
  | pinNotFound component pin => component ++ " has no pin " ++ pin
  | pinAssignmentNotFound interface assignment =>
    "No pin assignment " ++ toString assignment ++ " on interface " ++ interface
  | unsupportedPairing fragment reason =>
    "Cannot deduce connections of " ++ fragment ++ ": " ++ reason
  | connectionKeyMismatch fragment =>
    "Deduced connections of " ++ fragment ++ " do not cover the same interface pins"
  | invalidAncillary reason => "Invalid ancillary: " ++ reason
  | unknownRole name => "Unknown ancillary connection role: " ++ name
  | missingReferencePin kind connection =>
    "No " ++ kind.name ++ " reference pin for " ++ connection
  | mixedFamilies bus => "Bus " ++ bus ++ " spans more than one interface family"
  | multipleBuses pins => "Pins " ++ pins ++ " belong to more than one bus"
  | unbussedPins pins => "Failed to connect pins " ++ pins ++ ": no bus could be found"
  | nonPartPin pin => "Pin " ++ pin ++ " is not on a part"
  | noSourcePin pins => "No source pin for net " ++ pins
  | invalidReference reference => "Invalid reference: " ++ reference
  | invalidBoard reference => reference ++ " is not a board: boards must be children of the root"
  | invalidOptions => "Invalid synthesis configuration"
  | missingOptions => "Failed to read options"

def kind : Error → ErrorKind
  | catalog e => if e.isLookup then .lookup else .definition
  | unknownComponent _ | interfaceNotFound _ _ _ | pinNotFound _ _ | pinAssignmentNotFound _ _
  | missingReferencePin _ _ | noSourcePin _ => .lookup
  | _ => .definition

end Error

abbrev Result := Except Error

instance : MonadLift (Except CatalogError) Result := ⟨Except.mapError .catalog⟩

end BoardNets
