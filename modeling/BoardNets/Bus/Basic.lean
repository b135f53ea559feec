import BoardNets.Circuit.Tree
import BoardNets.Fragment.Basic

/-! Buses: fragments connected through shared interfaces. Those interfaces of a bus that are on
parts are its physical ones; the others are on the boundaries of subcircuits. -/
namespace BoardNets
namespace Bus

/-- A bus of the given members, under the reference of the first one's fragment. -/
def ofMembers (c : Circuit) (members : List BusMember) : Result Bus := do
  let members := SortedSet.ofList members
  let reference ← members.toList.head?.mapM fun m => do (← c.fragment m.fragment).reference c
  return { members, reference := reference.getD "" }

variable (b : Bus) (c : Circuit)

def isEmpty : Bool := b.members.isEmpty

def fragments : List FragmentId := b.members.toList.map BusMember.fragment

/-- Buses overlap when they share a fragment. -/
def overlaps (other : Bus) : Bool := b.fragments.any (· ∈ other.fragments)

def sourceMembers : List BusMember := b.members.toList.filter fun m => c.isPart m.source

def targetMembers : List BusMember := b.members.toList.filter fun m => c.isPart m.target

def sourceInterfaces : SortedSet InterfaceRef :=
  .ofList ((b.sourceMembers c).map BusMember.sourceInterface)

def targetInterfaces : SortedSet InterfaceRef :=
  .ofList ((b.targetMembers c).map BusMember.targetInterface)

def physicalInterfaces : SortedSet InterfaceRef := b.sourceInterfaces c ∪ b.targetInterfaces c

def interfaces : SortedSet InterfaceRef :=
  .ofList (b.members.toList.flatMap fun m => [m.sourceInterface, m.targetInterface])

def sourceComponents : SortedSet NodeId := .ofList ((b.sourceMembers c).map BusMember.source)

def targetComponents : SortedSet NodeId := .ofList ((b.targetMembers c).map BusMember.target)

def physicalComponents : SortedSet NodeId :=
  .ofList ((b.physicalInterfaces c).toList.map InterfaceRef.component)

def interfacePinsOf (interfaces : SortedSet InterfaceRef) : Result (SortedSet InterfacePinId) := do
  return .ofList ((← interfaces.toList.mapM c.interface).flatMap (·.activeInterfacePins.toList))

def pinsOf (interfaces : SortedSet InterfaceRef) : Result (SortedSet ComponentPin) := do
  return .ofList ((← interfaces.toList.mapM c.interface).flatMap fun i =>
    (i.activePins none none).toList)

def physicalPins : Result (SortedSet ComponentPin) := pinsOf c (b.physicalInterfaces c)

/-- Driven pins with the pins driving them, over all fragments. -/
def drivers : Result (SortedMap ComponentPin (SortedSet ComponentPin)) := do
  let fragments ← b.fragments.mapM c.fragment
  return (fragments.flatMap fun f => f.drivers.toList).foldl (fun driven (pin, sources) =>
    driven.update pin ∅ (· ∪ sources)) ∅

/-- Follows drivers backwards from the pins on the stack. The pins without drivers are the answer,
which there is only if the fuel, counting pins to be taken off the stack, lasts until it is empty. -/
def search (drivers : SortedMap ComponentPin (SortedSet ComponentPin)) :
    (fuel : Nat) → (stack : List ComponentPin) → (visited found : SortedSet ComponentPin) →
      Option (SortedSet ComponentPin)
  | _, [], _, found => some found
  | 0, _ :: _, _, _ => none
  | fuel + 1, pin :: stack, visited, found =>
    if pin ∈ visited then search drivers fuel stack visited found
    else
      match drivers.find? pin with
      | some sources =>
        search drivers fuel (sources.toList ++ stack) (visited.insert pin) found
      | none => search drivers fuel stack (visited.insert pin) (found.insert pin)

/-- Fuel for one pin and every driver of any pin. -/
def searchFuel (drivers : SortedMap ComponentPin (SortedSet ComponentPin)) : Nat :=
  1 + (drivers.values.flatMap SortedSet.toList).length

/-- The pins at the requesting ends of the fragment chains that reach a pin. -/
def sourcePinsOf (pin : ComponentPin) : Result (SortedSet ComponentPin) := do
  let drivers ← b.drivers c
  return (search drivers (searchFuel drivers) [pin] ∅ ∅).getD ∅

def describe : String :=
  if b.isEmpty then "<empty bus>"
  else b.reference ++ " [" ++
    ", ".intercalate (b.interfaces.toList.map c.interfaceLabel) ++ "]"

/-- The family of the physical interfaces, or of all where none is physical. An empty bus is in the
family of what is not connected. -/
def family : Result Family := do
  let physical := b.physicalInterfaces c
  let interfaces := if physical.isEmpty then b.interfaces else physical
  let families ← interfaces.toList.mapM fun i => do
    let type := (← c.interface i).interface.type
    let family ← c.catalog.familyOf type
    return family.key
  match (SortedSet.ofList families).toList with
  | [] => return .doNotConnect
  | [key] => c.catalog.family key
  | _ => throw (.mixedFamilies (b.describe c))

end Bus

namespace Circuit

variable (c : Circuit)

/-- The member that a required fragment becomes. -/
def busMember (id : FragmentId) : Result BusMember := do
  let f ← c.fragment id
  match ← f.interface c .source, ← f.interface c .target with
  | some source, some target => return ⟨id, source, target, f.source.node, f.target.node⟩
  | _, _ => throw (.unresolvedFragment (f.describe c))

/-- The nodes below one: its children, or with `deep` all descendants. -/
def descendants (id : NodeId) (deep : Bool) : List NodeId :=
  ((c.below id).filter fun p => deep || p.1 = id).map (·.2)

/-- Buses of the fragments that descendants require. -/
def buses (id : NodeId) (deep : Bool) : Result (List Bus) := do
  let members ← (c.descendants id deep).mapM fun n => do
    (← c.component n).requirements.mapM c.busMember
  let members := members.flatten
  let graph := members.foldl (fun g m => g.addEdge m.sourceInterface m.targetInterface)
    (∅ : Graph InterfaceRef)
  graph.components.mapM fun interfaces =>
    Bus.ofMembers c (members.filter fun m =>
      m.sourceInterface ∈ interfaces ∨ m.targetInterface ∈ interfaces)

def internalBuses (id : NodeId) : Result (List Bus) := c.buses id false

def flattenedBuses (id : NodeId) : Result (List Bus) := c.buses id true

end Circuit
end BoardNets
