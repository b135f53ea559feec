import BoardNets.Ancillary.Basic
import BoardNets.Net.Template

/-! What the name of a net is made from: the template and the identifier of a group of connected
pins. -/
namespace BoardNets

structure NetShape where
  template : Option NameTemplate := none
  /-- Tells nets with one template apart. -/
  identifier : String
  nonAncillaryPins : SortedSet ComponentPin
  network : Option LogicalNetwork := none
  isShared : Bool := false
  /-- The requesting pin that a name which is not shared comes from. -/
  sourcePin : Option ComponentPin := none
  isGlobal : Bool
  deriving DecidableEq

/-- A pin with what orders it for a reader: reference of the component, number and name. -/
structure RankedPin where
  pin : ComponentPin
  reference : String
  number : String
  name : String
  deriving DecidableEq

def RankedPin.order (a b : RankedPin) : Ordering :=
  (compare a.reference b.reference).then
    ((Text.naturalOrder a.number b.number).then (compare a.name b.name))

namespace Circuit

variable (c : Circuit)

def rankPin (p : ComponentPin) : Result RankedPin := do
  let pin ← c.pin p
  return ⟨p, c.reference p.component, pin.number, pin.name⟩

def lowestPin (pins : SortedSet ComponentPin) : Result (Option RankedPin) := do
  let ranked ← pins.toList.mapM c.rankPin
  return (ranked.mergeSort fun a b => (RankedPin.order a b).isLE).head?

/-- Pins that stand for a net: those of ordinary parts, and bus pins its ancillaries attach to. -/
def nonAncillaryPins (pins : SortedSet ComponentPin) (bus : Bus) :
    Result (SortedSet ComponentPin) := do
  let busPins ← if bus.isEmpty then pure ∅ else bus.physicalPins c
  let stand ← pins.toList.mapM fun p => do
    match (← c.component p.component).ancillary with
    | none => return [p]
    | some a => return (← a.parentPins c).toList.filter (· ∈ busPins)
  return .ofList stand.flatten

/-- Whether pins reach more than one component, where ancillaries count as their parents. -/
def reachesSeveral (pins : SortedSet ComponentPin) : Result Bool := do
  let reached ← pins.toList.mapM fun p => do
    match (← c.component p.component).ancillary with
    | none => return [p.component]
    | some a => return (← a.parentPins c).toList.map ComponentPin.component
  return 1 < (SortedSet.ofList reached.flatten).size

/-- The first pin that is in active use, with the interface pin it is used as. -/
def firstUsed : List ComponentPin → Result (Option (ComponentPin × InterfacePinId))
  | [] => return none
  | p :: rest => do
    match ← c.assignedInterfacePin p with
    | some slot => return some (p, slot)
    | none => firstUsed rest

/-- The network of a net's pins on a bus, by the first of them in use. -/
def netNetwork (nonAncillary : SortedSet ComponentPin) (bus : Bus) :
    Result (Option (Family × LogicalNetwork)) := do
  match ← c.firstUsed nonAncillary.toList with
  | none => return none
  | some (pin, slot) =>
    let family ← bus.family c
    let requesting : Bool := pin.component ∈ bus.sourceComponents c
    return some (family, ← c.catalog.logicalNetwork family.key slot requesting)

def isSharedNetwork (network : LogicalNetwork) : Result Bool := do
  let pins ← network.pins.toList.mapM fun p => (c.catalog.interfacePin p : Except CatalogError _)
  return pins.any InterfacePin.isShared

/-- Nets of a shared network are told apart by their buses. -/
def sharedShape (nonAncillary : SortedSet ComponentPin) (bus : Bus) (isGlobal : Bool)
    (family : Family) (network : LogicalNetwork) : Result NetShape := do
  let pins ← network.requesting.toList.mapM fun p =>
    (c.catalog.interfacePin p : Except CatalogError _)
  let networks ← c.catalog.logicalNetworks family.key
  let first := (SortedSet.ofList (pins.map InterfacePin.reference)).toList.head?
  return {
    template := some (.shared family.label (if networks.length = 1 then none else first))
    identifier := bus.reference
    nonAncillaryPins := nonAncillary
    network := some network
    isShared := true
    isGlobal }

/-- A pin with its name and its component's reference, which order it as a source. -/
def sourceOrder (a b : String × String × ComponentPin) : Ordering :=
  (compare a.1 b.1).then ((compare a.2.1 b.2.1).then (compare a.2.2 b.2.2))

/-- Requesting pins, other than those of ancillaries, at the ends of the chains that reach `p`. -/
def sourcesOf (bus : Bus) (p : ComponentPin) : Result (List (String × String × ComponentPin)) := do
  let sources ← bus.sourcePinsOf c p
  (sources.toList.filter fun s => !c.isAncillary s.component).mapM fun s => do
    return ((← c.pin s).name, c.reference s.component, s)

/-- Nets of other networks are told apart by the components that drive them. -/
def drivenShape (pins nonAncillary : SortedSet ComponentPin) (bus : Bus) (isGlobal : Bool)
    (network : LogicalNetwork) : Result NetShape := do
  let sources := (← nonAncillary.toList.mapM (c.sourcesOf bus)).flatten
  match (sources.mergeSort fun a b => (sourceOrder a b).isLE).head? with
  | none => throw (.noSourcePin (c.describePins pins))
  | some (name, reference, source) =>
    let component ← c.component source.component
    return {
      template := some (.nonShared component.function name)
      identifier := reference
      nonAncillaryPins := nonAncillary
      network := some network
      sourcePin := some source
      isGlobal }

def bussedShape? (pins nonAncillary : SortedSet ComponentPin) (bus : Bus) (isGlobal : Bool) :
    Result (Option NetShape) := do
  match ← c.netNetwork nonAncillary bus with
  | none => return none
  | some (family, network) =>
    if ← c.isSharedNetwork network then
      return some (← c.sharedShape nonAncillary bus isGlobal family network)
    else return some (← c.drivenShape pins nonAncillary bus isGlobal network)

/-- Without a bus that has a say, a net is named after the pin that comes first for a reader. -/
def plainShape (pins nonAncillary : SortedSet ComponentPin) (isGlobal : Bool) :
    Result NetShape := do
  match ← c.lowestPin (if nonAncillary.isEmpty then pins else nonAncillary) with
  | none => throw (.noSourcePin (c.describePins pins))
  | some lowest =>
    let component ← c.component lowest.pin.component
    return {
      template := some (.nonShared component.function lowest.name)
      identifier := component.reference
      nonAncillaryPins := nonAncillary
      sourcePin := some lowest.pin
      isGlobal }

/-- The shape of a group of connected pins. Pins joined outside any bus are never local. -/
def netShape (pins : SortedSet ComponentPin) (bus : Bus) : Result NetShape := do
  let nonAncillary ← c.nonAncillaryPins pins bus
  let isGlobal ← if 1 < pins.size ∧ bus.isEmpty then pure true else c.reachesSeveral pins
  if pins.size ≤ 1 then
    let identifier := pins.toList.head?.elim "" c.pinLabel
    return { identifier, nonAncillaryPins := nonAncillary, isGlobal }
  let bussed ← if bus.isEmpty then pure none else c.bussedShape? pins nonAncillary bus isGlobal
  match bussed with
  | some shape => return shape
  | none => c.plainShape pins nonAncillary isGlobal

end Circuit
end BoardNets
