import BoardNets.Catalog.Interface

/-! Catalog data as it is stored: flat lists of records that name each other by identifier. -/
namespace BoardNets

/-- Whether a signal may be joined by more than two interfaces of a bus. -/
inductive Sharing where
  | exclusive
  | shared
  deriving DecidableEq

def Sharing.name : Sharing → String
  | .exclusive => "exclusive"
  | .shared => "shared"

structure FamilyRecord where
  id : FamilyId
  name : String
  label : String
  deriving DecidableEq

structure InterfaceTypeRecord where
  id : InterfaceTypeId
  name : String
  label : String
  family : Option FamilyId := none
  function : String := ""
  canBeRequired : Bool := false
  canBeSpecialised : Bool := false
  parents : List InterfaceTypeId := []
  compatibleTypes : List InterfaceTypeId := []
  deriving DecidableEq

structure InterfacePinRecord where
  id : InterfacePinId
  interfaceType : InterfaceTypeId
  reference : String
  pinType : PinType
  isRequired : Bool := true
  sharing : Sharing := .exclusive
  multipleUse : Bool := false
  compatiblePins : List InterfacePinId := []
  parentPins : List InterfacePinId := []
  deriving DecidableEq

structure Snapshot where
  families : List FamilyRecord := []
  interfaceTypes : List InterfaceTypeRecord := []
  interfacePins : List InterfacePinRecord := []
  connectivities : List Connectivity := []
  deriving DecidableEq

end BoardNets
