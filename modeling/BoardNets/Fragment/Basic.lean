import BoardNets.Circuit.Realisation

/-! Fragments as circuits see them: their description, the interface types and interfaces at their
ends, and the pin pairs that their connections make. -/
namespace BoardNets
namespace Requirement

/-- An adapter takes the type given for a side as its base type. -/
def withBase (a : Adaptation) (t : Terminal) : Adaptation :=
  { a with base := a.base.or t.type }

/-- With an adapter, the type of a side is the adapted one. -/
def endpointOf (a : Option Adaptation) (t : Terminal) : Endpoint :=
  { t with type := (a.bind Adaptation.adapted).or t.type }

/-- A requirement names a source interface or its type. -/
def fragment (r : Requirement) : Result Fragment :=
  if r.source.type.isNone ∧ r.source.interface.isNone then
    throw (.invalidFragment "a bus fragment needs a from interface type or name")
  else pure {
    origin := r.origin
    function := r.function
    source := endpointOf (r.adapter.map Adapter.source) r.source
    target := endpointOf (r.adapter.map Adapter.target) r.target
    adapter := r.adapter.map fun a =>
      { source := withBase a.source r.source, target := withBase a.target r.target } }

end Requirement

namespace Fragment

variable (f : Fragment) (c : Circuit)

def describeEnd (side : Side) : String :=
  c.reference (f.endpoint side).node ++ "." ++ (f.endpoint side).interface.getD "?"

def describe : String := f.describeEnd c .source ++ " -> " ++ f.describeEnd c .target

def requiredName (side : Side) : Result String :=
  (f.endpoint side).interface.elim (throw (.undeterminedInterfaceType (f.describe c) side
    "neither a type nor an interface name is given")) pure

def singleType (side : Side) (name : String) (candidates : SortedSet InterfaceTypeId) :
    Result InterfaceTypeId :=
  match candidates.toList with
  | [type] => pure type
  | [] => throw (.interfaceNotFound (c.reference (f.endpoint side).node) name "any matching type")
  | several => throw (.undeterminedInterfaceType (f.describe c) side
      (toString several.length ++ " candidate interface types"))

/-- Types of the candidates at one end with the given name. -/
def namedTypes (side : Side) (name : String) : Result (List InterfaceTypeId) := do
  let candidates ← c.interfaceCandidates (f.endpoint side).node
  return (candidates.filter fun candidate => candidate.1 = name).map (·.2)

/-- The type given, or the only requesting type among the source's interfaces of the name. -/
def sourceType : Result InterfaceTypeId := do
  match f.source.type with
  | some type => return type
  | none =>
    let name ← f.requiredName c .source
    let requesting ← (← f.namedTypes c .source name).filterM fun type => do
      return (← c.catalog.interfaceType type).canBeRequired
    f.singleType c .source name (.ofList requesting)

/-- The type given, or that of the target's interfaces of the name; of several, the only one that is
compatible with the source type. -/
def targetType : Result InterfaceTypeId := do
  match f.target.type with
  | some type => return type
  | none =>
    let name ← f.requiredName c .target
    let candidates := SortedSet.ofList (← f.namedTypes c .target name)
    if candidates.size = 1 then f.singleType c .target name candidates
    else
      let source ← f.sourceType c
      let compatible ← candidates.toList.filterM fun type =>
        (c.catalog.isCompatible source type : Except CatalogError Bool)
      f.singleType c .target name (.ofList compatible)

def interfaceType : Side → Result InterfaceTypeId
  | .source => f.sourceType c
  | .target => f.targetType c

/-- The interface at one end, if it is named and present. -/
def interface (side : Side) : Result (Option InterfaceRef) := do
  match (f.endpoint side).interface with
  | none => return none
  | some name => c.interfaceNamed? (f.endpoint side).node name (← f.interfaceType c side)

/-- The reference of the bus a fragment starts: family and function, and for types without shared
signals the source and its interface around them. -/
def reference : Result String := do
  let type ← c.catalog.interfaceType (← f.sourceType c)
  let family ← c.catalog.family type.family
  let base := family.label ++ "__" ++ f.function
  let pins ← type.pins.mapM fun pin => (c.catalog.interfacePin pin : Except CatalogError _)
  if pins.any InterfacePin.isShared then return base
  else return c.reference f.source.node ++ "__" ++ base ++ "__" ++ f.source.interface.getD ""

/-- Requesting pins with the pins they are wired to. -/
def connections : SortedMap ComponentPin (SortedSet ComponentPin) :=
  f.source.connections.toList.foldl (fun wired (key, uses) =>
    match f.target.connections.find? key with
    | none => wired
    | some targets => uses.foldl (fun wired use =>
        wired.update use.pin ∅ (·.insertAll (targets.map PinUse.pin))) wired) ∅

/-- Pins with the pins that drive them. -/
def drivers : SortedMap ComponentPin (SortedSet ComponentPin) :=
  f.connections.toList.foldl (fun driven (pin, targets) =>
    targets.toList.foldl (fun driven target => driven.update target ∅ (·.insert pin)) driven) ∅

def isResolved : Bool :=
  match f.interface c .source, f.interface c .target with
  | .ok (some _), .ok (some _) => !f.source.connections.isEmpty
  | _, _ => false

end Fragment
end BoardNets
