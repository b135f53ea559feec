import BoardNets.Catalog.Network
import BoardNets.Circuit.Designator
import BoardNets.Circuit.Node

/-! The circuit: an arena of nodes, of which the first is the root of the tree, and an arena of
fragments. Lookups answer what the arenas hold at an index or why they do not. -/
namespace BoardNets

structure Circuit where
  catalog : Catalog
  nodes : Array Node
  fragments : Array Fragment
  deriving DecidableEq

namespace Circuit

def root : NodeId := ⟨0⟩

def rootReference : String := "ROOT1"

/-- A circuit that holds the root alone. -/
def new (catalog : Catalog) : Circuit where
  catalog
  nodes := #[.component
    { reference := rootReference, function := "root", kind := .subcircuit, parent := none }]
  fragments := #[]

variable (c : Circuit)

def node? (id : NodeId) : Option Node := c.nodes[id.index]?

def node (id : NodeId) : Result Node :=
  (c.node? id).elim (throw (.unknownComponent ("#" ++ toString id.index))) pure

def component (id : NodeId) : Result Component := do
  match ← c.node id with
  | .component component => return component
  | .filter f => throw (.unresolvedFilter f.reference)

def component? (id : NodeId) : Option Component :=
  match c.node? id with
  | some (.component component) => some component
  | _ => none

def isFilter (id : NodeId) : Bool :=
  match c.node? id with
  | some (.filter _) => true
  | _ => false

/-- The reference of a node, or a question mark where there is no node. -/
def reference (id : NodeId) : String := (c.node? id).elim "?" Node.reference

def parent? (id : NodeId) : Option NodeId := c.node? id >>= Node.parent

def isPart (id : NodeId) : Bool := (c.component? id).any Component.isPart

def isAncillary (id : NodeId) : Bool := (c.component? id).any (·.ancillary.isSome)

def children (id : NodeId) : List NodeId := (c.component? id).elim [] Component.children

def fragment (id : FragmentId) : Result Fragment :=
  (c.fragments[id.index]?).elim
    (throw (.invalidFragment ("unknown fragment #" ++ toString id.index))) pure

def noInterface (component : Component) (index : Nat) : Error :=
  .interfaceNotFound component.reference ("#" ++ toString index) "?"

def interface (i : InterfaceRef) : Result ComponentInterface := do
  let component ← c.component i.component
  (component.interfaces[i.index]?).elim (throw (noInterface component i.index)) pure

def interfaceLabel (i : InterfaceRef) : String :=
  match c.interface i with
  | .ok interface => c.reference i.component ++ "." ++ interface.name
  | .error _ => c.reference i.component ++ ".#" ++ toString i.index

/-- Places of the interfaces of a component with the given name and type. -/
def matching (component : Component) (name : String) (type : InterfaceTypeId) : List Nat :=
  component.interfaces.zipIdx.filterMap fun (i, index) =>
    if i.name = name ∧ i.interface.type = type then some index else none

/-- The one interface of a component with the given name and type. -/
def interfaceNamed (id : NodeId) (name : String) (type : InterfaceTypeId) :
    Result InterfaceRef := do
  let component ← c.component id
  match matching component name type with
  | [index] => return ⟨id, index⟩
  | [] => throw (.interfaceNotFound component.reference name (c.catalog.typeLabel type))
  | several =>
    let type := c.catalog.typeLabel type
    throw (.ambiguousInterface component.reference name type several.length)

/-- Like `interfaceNamed`, but a missing interface is no failure. -/
def interfaceNamed? (id : NodeId) (name : String) (type : InterfaceTypeId) :
    Result (Option InterfaceRef) :=
  match c.interfaceNamed id name type with
  | .ok i => .ok (some i)
  | .error (.interfaceNotFound ..) => .ok none
  | .error e => .error e

def activeInterfaces (id : NodeId) : Result (List InterfaceRef) := do
  return (← c.component id).interfaces.zipIdx.filterMap fun (i, index) =>
    if i.active then some ⟨id, index⟩ else none

def missingPin (component : Component) (pin : String) : Error :=
  .pinNotFound component.reference pin

def pin (p : ComponentPin) : Result Pin := do
  let component ← c.component p.component
  (component.pin? p.pin).elim (throw (missingPin component (toString p.pin))) pure

def componentPin (id : NodeId) (pin : PinId) : Result ComponentPin := do
  let _ ← c.pin ⟨id, pin⟩
  return ⟨id, pin⟩

def pinNamed (id : NodeId) (name : String) : Result ComponentPin := do
  let component ← c.component id
  (component.pinNamed? name).elim (throw (missingPin component name)) fun p => pure ⟨id, p.id⟩

def pinLabel (p : ComponentPin) : String :=
  match c.pin p with
  | .ok pin => c.reference p.component ++ "." ++ pin.name
  | .error _ => c.reference p.component ++ "." ++ toString p.pin

/-- Labels of pins, sorted and joined. -/
def describePins (pins : SortedSet ComponentPin) : String :=
  ", ".intercalate ((pins.toList.map c.pinLabel).mergeSort fun a b => (compare a b).isLE)

/-- The interface pin a component's pin is used as, by its first active use. -/
def assignedInterfacePin (p : ComponentPin) : Result (Option InterfacePinId) := do
  let uses := ((← c.component p.component).interfaces.filter ComponentInterface.active).flatMap
    (·.uses.uses)
  return (uses.find? fun u => u.pin = p).map PinUse.interfacePin

end Circuit

namespace ComponentInterface

/-- Pins in use, of one interface pin or of one assignment if these are given. -/
def activePins (i : ComponentInterface) (interfacePin : Option InterfacePinId)
    (assignment : Option PinAssignment) : SortedSet ComponentPin :=
  .ofList ((i.uses.uses.filter fun u =>
    interfacePin.all (u.interfacePin = ·) && assignment.all (u.pin.pin ∈ ·.pins)).map PinUse.pin)

def activeInterfacePins (i : ComponentInterface) : SortedSet InterfacePinId :=
  .ofList (i.uses.uses.map PinUse.interfacePin)

def activate (i : ComponentInterface) (connections : Connections) : ComponentInterface :=
  { i with active := true, uses := i.uses.addAll connections }

/-- Removes one occurrence of a use. Without uses under any key, the interface is inactive. -/
def release (i : ComponentInterface) (key : InterfacePinId) (use : PinUse) : ComponentInterface :=
  let uses := i.uses.alter key fun uses? =>
    uses?.bind fun uses =>
      let left := uses.erase use
      if left.isEmpty then none else some left
  { i with uses, active := i.active && !uses.isEmpty }

end ComponentInterface
end BoardNets
