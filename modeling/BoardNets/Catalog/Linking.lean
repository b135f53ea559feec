import BoardNets.Catalog.Basic

/-! From stored records to a linked catalog. Records are checked in a fixed order (families,
interface pins and their relations, interface types and theirs, connectivities) and the first fault
is the answer. -/
namespace BoardNets
namespace Catalog

abbrev Check := Except CatalogError

def addFamily (families : SortedMap FamilyKey Family) (r : FamilyRecord) :
    Check (SortedMap FamilyKey Family) :=
  let key := FamilyKey.declared r.id
  if families.contains key then throw (.duplicate .family r.name)
  else pure (families.insert key { key, name := r.name, label := r.label })

def unlinkedPin (r : InterfacePinRecord) : InterfacePin where
  id := r.id
  interfaceType := r.interfaceType
  reference := r.reference
  pinType := r.pinType
  isRequired := r.isRequired
  sharing := r.sharing
  multipleUse := r.multipleUse
  compatiblePins := .ofList r.compatiblePins
  parentPins := .ofList r.parentPins
  childPins := ∅

abbrev Pins := SortedMap InterfacePinId InterfacePin

def addPin (pins : Pins) (r : InterfacePinRecord) : Check Pins :=
  if pins.contains r.id then throw (.duplicate .interfacePin r.reference)
  else pure (pins.insert r.id (unlinkedPin r))

def relatePin (change : InterfacePinId → InterfacePin → InterfacePin) (pins : Pins)
    (relation : InterfacePinId × InterfacePinId) : Check Pins :=
  if pins.contains relation.1 then pure (pins.modify relation.1 (change relation.2))
  else throw (.unknownInterfacePin (toString relation.1))

/-- The pairs of a named pin and the pin that names it, in the order of the naming pins. -/
def relations (named : InterfacePin → SortedSet InterfacePinId) (pins : Pins) :
    List (InterfacePinId × InterfacePinId) :=
  pins.values.flatMap fun p => (named p).toList.map (·, p.id)

/-- Makes compatibility symmetric and enters every pin at its parents. -/
def linkPins (pins : Pins) : Check Pins := do
  let linked ← (relations InterfacePin.compatiblePins pins).foldlM
    (relatePin fun id p => { p with compatiblePins := p.compatiblePins.insert id }) pins
  (relations InterfacePin.parentPins pins).foldlM
    (relatePin fun id p => { p with childPins := p.childPins.insert id }) linked

abbrev Types := SortedMap InterfaceTypeId InterfaceType

/-- What the records of interface types build up. -/
structure TypeTables where
  families : SortedMap FamilyKey Family
  types : Types := ∅
  names : SortedMap String InterfaceTypeId := ∅

def addToFamily (families : SortedMap FamilyKey Family) (r : InterfaceTypeRecord) :
    Check (FamilyKey × SortedMap FamilyKey Family) :=
  match r.family with
  | some id =>
    let key := FamilyKey.declared id
    if families.contains key then
      pure (key, families.modify key fun f => { f with types := f.types ++ [r.id] })
    else throw (.unknownFamily (toString id))
  | none =>
    let key := FamilyKey.implicit r.id
    pure (key, families.insert key { key, name := r.name, label := r.label, types := [r.id] })

def addType (pins : List InterfacePinRecord) (tables : TypeTables) (r : InterfaceTypeRecord) :
    Check TypeTables := do
  let (family, families) ← addToFamily tables.families r
  if tables.names.contains r.name then throw (.duplicate .interfaceType r.name)
  let type : InterfaceType := {
    id := r.id
    name := r.name
    label := r.label
    family
    function := r.function
    canBeRequired := r.canBeRequired
    canBeSpecialised := r.canBeSpecialised
    pins := (pins.filter fun p => p.interfaceType = r.id).map InterfacePinRecord.id
    parents := r.parents
    children := []
    compatibleTypes := r.compatibleTypes }
  return ⟨families, tables.types.insert r.id type, tables.names.insert r.name r.id⟩

def requireType {ν : Type} (types : SortedMap InterfaceTypeId ν) (id : InterfaceTypeId) :
    Check Unit :=
  if types.contains id then pure () else throw (.unknownInterfaceType (toString id))

def addChild (types : Types) (relation : InterfaceTypeId × InterfaceTypeId) : Check Types := do
  requireType types relation.1
  return types.modify relation.1 fun t => { t with children := t.children ++ [relation.2] }

/-- Enters every type at its parents, once for each time it names them. -/
def linkTypes (types : Types) : Check Types := do
  types.values.forM fun t => t.compatibleTypes.forM (requireType types)
  (types.values.flatMap fun t => t.parents.map (·, t.id)).foldlM addChild types

def checkAssignment (pins : Pins) (c : Connectivity) (a : PinAssignment) : Check Unit := do
  if !pins.contains a.interfacePin then throw (.unknownInterfacePin (toString a.interfacePin))
  match a.pins.find? fun p => (c.pin? p).isNone with
  | some p => throw (.unknownPin c.name (toString p))
  | none => pure ()

def checkInterface (types : Types) (pins : Pins) (c : Connectivity) (i : Interface) :
    Check Unit := do
  requireType types i.type
  i.assignments.forM (checkAssignment pins c)

structure ConnectivityTables where
  connectivities : SortedMap ConnectivityId Connectivity := ∅
  names : SortedMap String ConnectivityId := ∅

def addConnectivity (types : Types) (pins : Pins) (tables : ConnectivityTables)
    (c : Connectivity) : Check ConnectivityTables := do
  c.interfaces.forM (checkInterface types pins c)
  if tables.connectivities.contains c.id then throw (.duplicate .connectivity c.name)
  return ⟨tables.connectivities.insert c.id c, tables.names.insert c.name c.id⟩

def ofSnapshot (s : Snapshot) : Check Catalog := do
  let families ← s.families.foldlM addFamily ∅
  let pins ← linkPins (← s.interfacePins.foldlM addPin ∅)
  let tables ← s.interfaceTypes.foldlM (addType s.interfacePins) { families }
  let types ← linkTypes tables.types
  pins.values.forM fun p => requireType types p.interfaceType
  let parts ← s.connectivities.foldlM (addConnectivity types pins) {}
  return {
    families := tables.families
    interfaceTypes := types
    interfacePins := pins
    connectivities := parts.connectivities
    typeNames := tables.names
    connectivityNames := parts.names }

end Catalog
end BoardNets
