import BoardNets.Catalog.Error

/-! The linked catalog: interface types, their pins with relations in both directions, families and
connectivities, each found by identifier and some by name. -/
namespace BoardNets

/-- A named signal slot of an interface type. -/
structure InterfacePin where
  id : InterfacePinId
  interfaceType : InterfaceTypeId
  reference : String
  pinType : PinType
  isRequired : Bool
  sharing : Sharing
  multipleUse : Bool
  /-- Symmetric in a linked catalog. -/
  compatiblePins : SortedSet InterfacePinId
  parentPins : SortedSet InterfacePinId
  childPins : SortedSet InterfacePinId
  deriving DecidableEq

namespace InterfacePin

def isShared (p : InterfacePin) : Bool := p.sharing = .shared

def isCompatibleWith (p : InterfacePin) (other : InterfacePinId) : Bool :=
  other ∈ p.compatiblePins

end InterfacePin

structure InterfaceType where
  id : InterfaceTypeId
  name : String
  label : String
  family : FamilyKey
  function : String
  /-- The requesting side of a bus: a master, a source, a driver. -/
  canBeRequired : Bool
  canBeSpecialised : Bool
  pins : List InterfacePinId
  parents : List InterfaceTypeId
  children : List InterfaceTypeId
  compatibleTypes : List InterfaceTypeId
  deriving DecidableEq

namespace InterfaceType

/-- Either type lists the other as compatible or as a parent. -/
def isCompatible (a b : InterfaceType) : Bool :=
  b.id ∈ a.compatibleTypes ∨ a.id ∈ b.compatibleTypes ∨ b.id ∈ a.parents ∨ a.id ∈ b.parents

def hasPin (t : InterfaceType) (pin : InterfacePinId) : Bool := pin ∈ t.pins

def firstPin? (t : InterfaceType) : Option InterfacePinId := t.pins.head?

/-- A generic type, split into one interface per child type on a part. -/
def isSeparable (t : InterfaceType) : Bool := !t.children.isEmpty

end InterfaceType

structure Catalog where
  families : SortedMap FamilyKey Family
  interfaceTypes : SortedMap InterfaceTypeId InterfaceType
  interfacePins : SortedMap InterfacePinId InterfacePin
  connectivities : SortedMap ConnectivityId Connectivity
  typeNames : SortedMap String InterfaceTypeId
  connectivityNames : SortedMap String ConnectivityId
  deriving DecidableEq

namespace Catalog

variable (c : Catalog)

def interfaceType (id : InterfaceTypeId) : Except CatalogError InterfaceType :=
  (c.interfaceTypes.find? id).elim (throw (.unknownInterfaceType (toString id))) pure

def interfaceTypeNamed (name : String) : Except CatalogError InterfaceType :=
  (c.typeNames.find? name >>= c.interfaceTypes.find?).elim
    (throw (.unknownInterfaceType name)) pure

def interfacePin (id : InterfacePinId) : Except CatalogError InterfacePin :=
  (c.interfacePins.find? id).elim (throw (.unknownInterfacePin (toString id))) pure

def interfacePinReferenced (type : InterfaceTypeId) (reference : String) :
    Except CatalogError InterfacePin := do
  let type ← c.interfaceType type
  ((type.pins.filterMap c.interfacePins.find?).find? fun p => p.reference = reference).elim
    (throw (.unknownPinReference type.name reference)) pure

def childPin (pin : InterfacePinId) (childType : InterfaceTypeId) :
    Except CatalogError InterfacePin := do
  let parent ← c.interfacePin pin
  ((parent.childPins.toList.filterMap c.interfacePins.find?).find? fun p =>
    p.interfaceType = childType).elim (throw (.missingChildPin parent.reference childType)) pure

def family : FamilyKey → Except CatalogError Family
  | .doNotConnect => pure .doNotConnect
  | key => (c.families.find? key).elim (throw (.unknownFamily key.label)) pure

def familyOf (type : InterfaceTypeId) : Except CatalogError Family := do
  c.family (← c.interfaceType type).family

def connectivity (id : ConnectivityId) : Except CatalogError Connectivity :=
  (c.connectivities.find? id).elim (throw (.unknownConnectivity (toString id))) pure

def connectivityNamed (name : String) : Except CatalogError Connectivity :=
  (c.connectivityNames.find? name >>= c.connectivities.find?).elim
    (throw (.unknownConnectivity name)) pure

def isCompatible (a b : InterfaceTypeId) : Except CatalogError Bool := do
  return (← c.interfaceType a).isCompatible (← c.interfaceType b)

/-- The reference of an interface pin, or its identifier when it is unknown. -/
def pinLabel (pin : InterfacePinId) : String :=
  (c.interfacePins.find? pin).elim (toString pin) InterfacePin.reference

/-- The name of an interface type, or its identifier when it is unknown. -/
def typeLabel (type : InterfaceTypeId) : String :=
  (c.interfaceTypes.find? type).elim (toString type) InterfaceType.name

end Catalog
end BoardNets
