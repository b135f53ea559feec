import BoardNets.Catalog.Basic

/-! Adapters let an interface of one type stand in for another type, pin by pin, on either side of a
connection. -/
namespace BoardNets

/-- What an adapter does on one side: the pins of its base type and those they become. -/
structure Adaptation where
  pins : SortedMap InterfacePinId InterfacePinId := ∅
  base : Option InterfaceTypeId := none
  adapted : Option InterfaceTypeId := none
  deriving DecidableEq

/-- The adapted type owns the first adapted pin; without pins it is the base type. -/
def Adaptation.ofPins (c : Catalog) (base : Option InterfaceTypeId)
    (pins : SortedMap InterfacePinId InterfacePinId) : Except CatalogError Adaptation := do
  let adapted ← pins.values.head?.mapM fun pin => do return (← c.interfacePin pin).interfaceType
  return { pins, base, adapted := adapted.or base }

structure Adapter where
  source : Adaptation := {}
  target : Adaptation := {}
  deriving DecidableEq

end BoardNets
