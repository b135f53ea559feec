import BoardNets.Circuit.Basic

/-! How a connectivity's interfaces are realised on a component. An interface of a type with
children is split into one interface for each child type, on the same pins. -/
namespace BoardNets
namespace Interface

/-- An interface without a function of its own has that of its type. -/
def functionOr (i : Interface) (type : InterfaceType) : String :=
  if i.function = "" then type.function else i.function

/-- The assignment moved to the child of its slot, which it remembers. -/
def childAssignment (catalog : Catalog) (childType : InterfaceTypeId) (a : PinAssignment) :
    Except CatalogError PinAssignment := do
  let child ← catalog.childPin a.interfacePin childType
  return { a with
    interfacePin := child.id
    parentInterfacePin := some a.interfacePin
    declaredInterfacePin := some a.interfacePin }

def childInterface (catalog : Catalog) (i : Interface) (type : InterfaceType)
    (childType : InterfaceTypeId) : Except CatalogError ComponentInterface := do
  let assignments ← i.assignments.mapM (childAssignment catalog childType)
  let child ← catalog.interfaceType childType
  return {
    name := i.name
    interface := {
      id := i.id.map fun id => .ofKey (toString id ++ "/" ++ toString childType)
      type := childType
      name := i.name
      function := i.functionOr type
      isRequired := child.canBeRequired
      assignments
      parentType := some type.id } }

def realise (catalog : Catalog) (i : Interface) :
    Except CatalogError (List ComponentInterface) := do
  let type ← catalog.interfaceType i.type
  if type.isSeparable then type.children.mapM (childInterface catalog i type)
  else return [{ name := i.name, interface := { i with function := i.functionOr type } }]

end Interface

def Connectivity.realise (catalog : Catalog) (c : Connectivity) :
    Except CatalogError (List ComponentInterface) := do
  return (← c.interfaces.mapM (Interface.realise catalog)).flatten

namespace Circuit

/-- Names and types of the interfaces of a node, or that its connectivity will give a filter. -/
def interfaceCandidates (c : Circuit) (id : NodeId) : Result (List (String × InterfaceTypeId)) := do
  let offered := fun (i : ComponentInterface) => (i.name, i.interface.type)
  match ← c.node id with
  | .component component => return component.interfaces.map offered
  | .filter f =>
    match f.connectivity with
    | none => return []
    | some id => return (← (← c.catalog.connectivity id).realise c.catalog).map offered

end Circuit
end BoardNets
