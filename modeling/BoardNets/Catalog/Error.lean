import BoardNets.Catalog.Family

/-! What can be wrong with catalog data or with a question put to a catalog. -/
namespace BoardNets

inductive Unique where
  | family
  | interfacePin
  | interfaceType
  | connectivity
  deriving DecidableEq

def Unique.name : Unique → String
  | .family => "family"
  | .interfacePin => "interface pin"
  | .interfaceType => "interface type"
  | .connectivity => "connectivity"

def directionName (requesting : Bool) : String := if requesting then "requesting" else "receiving"

inductive CatalogError where
  | unknownInterfaceType (name : String)
  | unknownInterfacePin (name : String)
  | unknownFamily (name : String)
  | unknownConnectivity (name : String)
  | unknownPin (connectivity pin : String)
  | unknownPinReference (interfaceType reference : String)
  | missingChildPin (pin : String) (childType : InterfaceTypeId)
  | duplicate (kind : Unique) (name : String)
  | noLogicalNetwork (family : FamilyKey) (pin : String) (requesting : Bool)
  | ambiguousLogicalNetwork (family : FamilyKey) (pin : InterfacePinId) (count : Nat)
  | specialisationIndex (pin : InterfacePinId) (index available : Nat)
      (connectivity : ConnectivityId)
  /-- A stored snapshot cannot be fetched. -/
  | unavailable
  /-- A stored snapshot cannot be read. -/
  | unreadable
  deriving DecidableEq

namespace CatalogError

def message : CatalogError → String
  | unknownInterfaceType name => "Unknown interface type: " ++ name
  | unknownInterfacePin name => "Unknown interface pin: " ++ name
  | unknownFamily name => "Unknown interface family: " ++ name
  | unknownConnectivity name => "Unknown connectivity: " ++ name
  | unknownPin connectivity pin => "Connectivity " ++ connectivity ++ " has no pin " ++ pin
  | unknownPinReference type reference =>
    "Interface type " ++ type ++ " has no pin with reference " ++ reference
  | missingChildPin pin childType =>
    "Interface pin " ++ pin ++ " has no child pin on interface type " ++ toString childType
  | duplicate kind name => "Duplicate " ++ kind.name ++ " in catalog: " ++ name
  | noLogicalNetwork family pin requesting =>
    "No logical network of " ++ family.label ++ " contains " ++ directionName requesting ++
      " pin " ++ pin
  | ambiguousLogicalNetwork family pin count =>
    "Interface pin " ++ toString pin ++ " belongs to " ++ toString count ++
      " logical networks of " ++ family.label
  | specialisationIndex pin index available connectivity =>
    "Pin index " ++ toString index ++ " of specialised pin " ++ toString pin ++
      " is out of range for " ++ toString connectivity ++ " (" ++ toString available ++
      " pins available)"
  | unavailable => "Catalog provider failed"
  | unreadable => "Invalid catalog snapshot"

/-- Whether something could not be found, rather than being ill described. -/
def isLookup : CatalogError → Bool
  | unknownInterfaceType _ | unknownInterfacePin _ | unknownFamily _ | unknownConnectivity _
  | unknownPin _ _ | unknownPinReference _ _ | missingChildPin _ _ | noLogicalNetwork _ _ _ => true
  | _ => false

end CatalogError
end BoardNets
