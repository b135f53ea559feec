import BoardNets.Bus.Basic

/-! Ancillaries: what they attach to, in which order they are applied, and the pin connections and
replacements that applying them gives. -/
namespace BoardNets

def Role.parse (name : String) : Result Role :=
  (Role.all.find? fun r => r.name = name).elim (throw (.unknownRole name)) pure

namespace AncillaryConnection

def interfacePin? (n : AncillaryConnection) : Option InterfacePinId :=
  match n.attachment with
  | .interfacePin pin _ => some pin
  | .pin _ => none

def pin? (n : AncillaryConnection) : Option PinId :=
  match n.attachment with
  | .interfacePin _ _ => none
  | .pin pin => some pin

/-- The assignment a connection is narrowed to, which the interface must have. -/
def assignmentOn (n : AncillaryConnection) (i : ComponentInterface) :
    Result (Option PinAssignment) :=
  match n.attachment with
  | .interfacePin _ (some id) =>
    (i.interface.assignment? id).elim (throw (.pinAssignmentNotFound i.name id)) (pure ∘ some)
  | _ => pure none

/-- The pins of the parent that a connection attaches to. Those of a bus are known only for each of
its logical networks. -/
def inputPins (n : AncillaryConnection) (c : Circuit) (binding : Binding) :
    Result (SortedSet ComponentPin) := do
  match binding with
  | .bus _ =>
    throw (.invalidAncillary "input pins of a bus ancillary must be given explicitly")
  | .interface _ interface =>
    let i ← c.interface interface
    let assignment ← n.assignmentOn i
    return i.activePins n.interfacePin? assignment
  | .pins parent =>
    match n.attachment with
    | .pin pin => return .ofList [← c.componentPin parent pin]
    | .interfacePin _ _ =>
      throw (.invalidAncillary "pin ancillary connection targets an interface pin")
  | .board _ => throw (.invalidAncillary "board ancillaries have no input pins")

end AncillaryConnection

/-- Pins to be connected, and pins to be replaced downstream by pins of an ancillary. -/
structure Application where
  connections : SortedSet PinPair := ∅
  masks : SortedMap ComponentPin ComponentPin := ∅
  deriving DecidableEq

/-- Both, where the second replaces a pin that the first replaces too. -/
def Application.merge (a b : Application) : Application where
  connections := a.connections ∪ b.connections
  masks := a.masks.insertAll b.masks.toList

namespace Circuit

/-- Orders pins by number, name, reference of the component and place. -/
def referenceOrder (a b : ComponentPin × Pin × String) : Ordering :=
  (a.2.1.order b.2.1).then ((compare a.2.2 b.2.2).then (compare a.1 b.1))

/-- The reference pin of the given kind that pins declare; of several, the lowest. -/
def referencePin (c : Circuit) (pins : SortedSet ComponentPin) (kind : ReferenceKind) :
    Result (Option ComponentPin) := do
  let references ← pins.toList.filterMapM fun p => do
    (← c.pin p).reference kind |>.mapM (c.componentPin p.component)
  let keyed ← (SortedSet.ofList references).toList.mapM fun p => do
    return (p, ← c.pin p, c.reference p.component)
  return (keyed.mergeSort fun a b => (referenceOrder a b).isLE).head?.map (·.1)

end Circuit

namespace Ancillary

/-- Whether some connection attaches to an interface pin, or none is asked for. -/
def serves (a : Ancillary) (interfacePin : Option InterfacePinId) : Bool :=
  interfacePin.all fun pin => a.connections.any (·.interfacePin? = some pin)

/-- An ancillary of a given type. Only a connector may have no connections, and only connections of
a pins ancillary attach to plain pins. -/
def checked (type : AncillaryType) (binding : Binding) (connections : List AncillaryConnection) :
    Result Ancillary :=
  if type ≠ .connector ∧ connections = [] then
    throw (.invalidAncillary ("a " ++ type.name ++ " ancillary needs at least one connection"))
  else
    let onPins := match binding with
      | .pins _ => true
      | _ => false
    if !onPins && connections.any (·.interfacePin?.isNone) then
      throw (.invalidAncillary ("connections of a " ++ type.name ++
        " ancillary must target interface pins"))
    else pure { type, connections, binding }

/-- By latency, then by type. -/
def order (a b : Ancillary) : Ordering :=
  (compare (Latency.limit a.maximumLatency) (Latency.limit b.maximumLatency)).then
    (compare a.type.rank b.type.rank)

/-- Ancillaries in the order of their application, ties in the given order. -/
def sort {α : Type} (ancillaries : List (α × Ancillary)) : List (α × Ancillary) :=
  ancillaries.mergeSort fun a b => (order a.2 b.2).isLE

variable (a : Ancillary) (c : Circuit)

def bus? : Option Bus :=
  match a.binding with
  | .bus bus => some bus
  | _ => none

def interface? : Option InterfaceRef :=
  match a.binding with
  | .interface _ interface => some interface
  | _ => none

/-- Interface and pins ancillaries, whose input pins are known from the circuit alone. -/
def isLocal : Bool :=
  match a.binding with
  | .interface _ _ | .pins _ => true
  | _ => false

def describe : String :=
  let place := match a.binding with
    | .bus bus => "bus " ++ bus.describe c
    | .interface _ interface => c.interfaceLabel interface
    | .pins parent => "pins of " ++ c.reference parent
    | .board board => "board " ++ c.reference board
  a.type.name ++ " on " ++ place

/-- What an ancillary is matched against. -/
structure Query where
  interfacePin : Option InterfacePinId := none
  pin : Option PinId := none
  bus : Option Bus := none
  interface : Option InterfaceRef := none

/-- Whether the ancillary serves what is asked for. The query holds just what the binding needs. -/
def accepts (q : Query) : Result Bool :=
  let invalid := fun what =>
    throw (.invalidAncillary ("cannot match a " ++ a.type.name ++ " ancillary " ++ what))
  match a.binding with
  | .bus own =>
    if q.pin.isSome ∨ q.interface.isSome then invalid "against a pin or interface"
    else q.bus.elim (invalid "without a bus") fun bus =>
      pure (own.overlaps bus && a.serves q.interfacePin)
  | .interface _ own =>
    if q.pin.isSome ∨ q.bus.isSome then invalid "against a pin or bus"
    else q.interface.elim (invalid "without an interface") fun interface =>
      pure (own = interface && a.serves q.interfacePin)
  | .pins _ =>
    if q.interfacePin.isSome ∨ q.bus.isSome ∨ q.interface.isSome then
      invalid "against an interface pin, bus or interface"
    else q.pin.elim (invalid "without a pin") fun pin =>
      pure (a.connections.any (·.pin? = some pin))
  | .board _ => pure false

def parentPins : Result (SortedSet ComponentPin) := do
  if a.isLocal then
    let pins ← a.connections.mapM (·.inputPins c a.binding)
    return pins.foldl (· ∪ ·) ∅
  else return ∅

end Ancillary

namespace AncillaryConnection

/-- A reference role joins the reference pin of the input pins. -/
def joinReference (n : AncillaryConnection) (c : Circuit) (component : NodeId) (a : Ancillary)
    (pins : SortedSet ComponentPin) (kind : ReferenceKind) : Result Application := do
  let own : ComponentPin := ⟨component, n.ancillaryPin⟩
  match ← c.referencePin pins kind with
  | some reference => return { connections := .ofList [⟨own, reference⟩] }
  | none =>
    throw (.missingReferencePin kind (c.pinLabel own ++ " of " ++ a.describe c))

/-- Applies a connection of the ancillary on `component` to the input pins. -/
def applyTo (n : AncillaryConnection) (c : Circuit) (component : NodeId) (a : Ancillary)
    (pins : SortedSet ComponentPin) : Result Application := do
  let own ← c.componentPin component n.ancillaryPin
  match n.role with
  | .input => return { connections := .ofList (pins.toList.map fun p => ⟨p, own⟩) }
  | .output => return { masks := .ofList (pins.toList.map fun p => (p, own)) }
  | .voltageReference => n.joinReference c component a pins .voltage
  | .groundReference => n.joinReference c component a pins .ground

/-- Applies a connection to its own input pins. -/
def apply (n : AncillaryConnection) (c : Circuit) (component : NodeId) (a : Ancillary) :
    Result Application := do
  n.applyTo c component a (← n.inputPins c a.binding)

end AncillaryConnection

/-- Applies all connections of the ancillary on `component`. -/
def Ancillary.apply (a : Ancillary) (c : Circuit) (component : NodeId) : Result Application :=
  a.connections.foldlM (fun done n => do return done.merge (← n.apply c component a)) {}

end BoardNets
