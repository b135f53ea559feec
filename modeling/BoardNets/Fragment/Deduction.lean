import BoardNets.Fragment.Basic

/-! Which pins of a fragment's two interfaces are wired together. Compatible types pair each source
pin with its compatible target pins, equal types pair equal interface pins, and otherwise two single
assignments of equal width are wired straight through. -/
namespace BoardNets

/-- Why connections cannot be worked out yet. -/
inductive Deferral where
  | notPersisted
  | unknownInterfaceTypes
  | unresolvedTarget
  | missingInterfaceName
  | missingInterface
  deriving DecidableEq

def Deferral.reason : Deferral → String
  | .notPersisted => "fragment is not persisted"
  | .unknownInterfaceTypes => "interface types are not known yet"
  | .unresolvedTarget => "target filter has no single candidate connectivity"
  | .missingInterfaceName => "interface names are not known yet"
  | .missingInterface => "interface is not present on the component"

/-- Pin uses of both ends, by the interface pins of the source. -/
structure Pairing where
  source : Connections := ∅
  target : Connections := ∅
  deriving DecidableEq

structure Wiring where
  sourceInterface : InterfaceRef
  targetInterface : InterfaceRef
  pairing : Pairing
  deriving DecidableEq

inductive Deduction where
  | deferred (why : Deferral)
  | resolved (wiring : Wiring)
  deriving DecidableEq

namespace Circuit

/-- The pins of an assignment, used as a slot of an interface. -/
def pinUses (c : Circuit) (interface : InterfaceRef) (a : PinAssignment) (slot : InterfacePinId) :
    Result (List PinUse) :=
  a.pins.mapM fun pin => do
    return { pin := ← c.componentPin interface.component pin, interfacePin := slot, interface }

end Circuit

namespace Fragment

variable (f : Fragment) (c : Circuit)

/-- The component that stands for the target: of a filter whose candidates all have one
connectivity, its first candidate. -/
def targetComponent? : Result (Option NodeId) := do
  match ← c.node f.target.node with
  | .component _ => return some f.target.node
  | .filter filter =>
    let connectivities ← filter.feasible.mapM fun id => do return (← c.component id).connectivity
    match filter.feasible with
    | [] => return none
    | first :: _ =>
      if connectivities.all (· = connectivities.headD none) then return some first else return none

/-- An interface with its place. -/
abbrev Placed := InterfaceRef × List PinAssignment

/-- Pairs one source assignment with all compatible target assignments. -/
def pairCompatible (source target : Placed) (p : Pairing) (a : PinAssignment) : Result Pairing := do
  let key := a.interfacePin
  let slot ← c.catalog.interfacePin key
  let fromUses ← c.pinUses source.1 a key
  let partners := target.2.filter fun b => slot.isCompatibleWith b.interfacePin
  let toUses ← partners.mapM fun b => c.pinUses target.1 b b.interfacePin
  return {
    source := p.source.add key fromUses
    target := if partners.isEmpty then p.target else p.target.add key toUses.flatten }

/-- Pairs one source assignment with the target's assignment of the same slot. -/
def pairEqual (source target : Placed) (p : Pairing) (a : PinAssignment) : Result Pairing := do
  let key := a.interfacePin
  match target.2.find? fun b => b.interfacePin = key with
  | none => throw (.unsupportedPairing (f.describe c)
      ("the target interface has no assignment for " ++ c.catalog.pinLabel key))
  | some b =>
    let fromUses ← c.pinUses source.1 a key
    let toUses ← c.pinUses target.1 b key
    return { source := p.source.add key fromUses, target := p.target.add key toUses }

/-- Wires two single assignments of equal width, under the first pin of the source type. -/
def pairSingle (sourceType targetType : InterfaceTypeId) (source target : Placed) :
    Result Pairing := do
  match source.2, target.2 with
  | [a], [b] =>
    if a.pins.length = b.pins.length then
      let fromType ← c.catalog.interfaceType sourceType
      let toType ← c.catalog.interfaceType targetType
      match fromType.firstPin?, toType.firstPin? with
      | some fromKey, some toKey =>
        let fromUses ← c.pinUses source.1 a fromKey
        let toUses ← c.pinUses target.1 b toKey
        return {
          source := (∅ : Connections).insert fromKey fromUses
          target := (∅ : Connections).insert fromKey toUses }
      | _, _ => return {}
    else return {}
  | _, _ => return {}

def pair (sourceType targetType : InterfaceTypeId) (source target : Placed) : Result Pairing := do
  let compatible ← c.catalog.isCompatible sourceType targetType
  if compatible then source.2.foldlM (pairCompatible c source target) {}
  else if sourceType = targetType then source.2.foldlM (f.pairEqual c source target) {}
  else pairSingle c sourceType targetType source target

/-- A pairing that covers the same interface pins on both sides, and at least one. -/
def checkPairing (p : Pairing) : Result Unit :=
  if p.source.isEmpty ∧ p.target.isEmpty then
    throw (.unsupportedPairing (f.describe c) <|
      "the interface types are neither compatible nor identical, and the " ++
      "interfaces are not single assignments of equal width")
  else if p.source.keys = p.target.keys then pure ()
  else throw (.connectionKeyMismatch (f.describe c))

def wire (sourceType targetType : InterfaceTypeId) (source target : InterfaceRef) :
    Result Deduction := do
  let fromAssignments := (← c.interface source).interface.assignments
  let toAssignments := (← c.interface target).interface.assignments
  let pairing ← f.pair c sourceType targetType (source, fromAssignments) (target, toAssignments)
  f.checkPairing c pairing
  return .resolved ⟨source, target, pairing⟩

def deduceNamed (sourceType targetType : InterfaceTypeId) (sourceNode targetNode : NodeId) :
    Result Deduction := do
  match f.source.interface, f.target.interface with
  | some sourceName, some targetName =>
    let source ← c.interfaceNamed? sourceNode sourceName sourceType
    let target ← c.interfaceNamed? targetNode targetName targetType
    match source, target with
    | some source, some target => f.wire c sourceType targetType source target
    | _, _ => return .deferred .missingInterface
  | _, _ => return .deferred .missingInterfaceName

/-- Works out the connections of a fragment whose source interface is on `sourceNode`. -/
def deduce (sourceNode : NodeId) : Result Deduction := do
  match f.origin with
  | .derived => return .deferred .notPersisted
  | .persisted _ =>
    match f.sourceType c, f.targetType c with
    | .ok sourceType, .ok targetType =>
      match ← f.targetComponent? c with
      | none => return .deferred .unresolvedTarget
      | some targetNode => f.deduceNamed c sourceType targetType sourceNode targetNode
    | _, _ => return .deferred .unknownInterfaceTypes

end Fragment
end BoardNets
