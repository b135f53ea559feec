import BoardNets.Catalog.Pin

/-! Interfaces as parts declare them: slots of an interface type bound to physical pins. -/
namespace BoardNets

/-- Binds one slot of an interface to physical pins. -/
structure PinAssignment where
  id : Option PinAssignmentId := none
  interfacePin : InterfacePinId
  channel : UInt32 := 0
  parentInterfacePin : Option InterfacePinId := none
  pins : List PinId
  /-- The slot that was declared, for an interface that was split by child types. -/
  declaredInterfacePin : Option InterfacePinId := none
  deriving DecidableEq

structure Interface where
  id : Option InterfaceId := none
  type : InterfaceTypeId
  name : String
  function : String := ""
  isRequired : Bool := false
  assignments : List PinAssignment
  /-- The generic type this interface was split out of. -/
  parentType : Option InterfaceTypeId := none
  deriving DecidableEq

namespace Interface

def assignment? (i : Interface) (id : PinAssignmentId) : Option PinAssignment :=
  i.assignments.find? fun a => a.id = some id

def assignedPins (i : Interface) : List PinId := i.assignments.flatMap PinAssignment.pins

end Interface

/-- Pins and interfaces of one kind of part. -/
structure Connectivity where
  id : ConnectivityId
  name : String
  pins : List Pin := []
  interfaces : List Interface := []
  deriving DecidableEq

namespace Connectivity

def pin? (c : Connectivity) (id : PinId) : Option Pin := c.pins.find? fun p => p.id = id

def pinNamed? (c : Connectivity) (name : String) : Option Pin :=
  c.pins.find? fun p => p.name = name

end Connectivity
end BoardNets
