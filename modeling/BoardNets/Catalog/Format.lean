import BoardNets.Catalog.Snapshot
import BoardNets.Json.Reader
import BoardNets.Json.Record

/-! The JSON form of catalog data. Absent identifiers and empty lists of relations are left out;
reading fills in the defaults. -/
namespace BoardNets

open Json (record fields? required orDefault nullable)

def Id.toJson {kind : IdKind} (id : Id kind) : Json := .ofString (toString id)

def Id.ofJson? {kind : IdKind} (j : Json) : Option (Id kind) :=
  j.string? >>= Uuid.parse? |>.map Id.mk

def Id.listToJson {kind : IdKind} (ids : List (Id kind)) : Json := .array (ids.map Id.toJson)

def Id.relations {kind : IdKind} (ids : List (Id kind)) : Option Json :=
  if ids.isEmpty then none else some (listToJson ids)

def PinType.ofJson? : Json → Option PinType := Json.choice? (PinType.all.map fun t => (t.name, t))

def Sharing.ofJson? : Json → Option Sharing :=
  Json.choice? ([exclusive, shared].map fun s => (s.name, s))

namespace Pin

def toJson (p : Pin) : Json := record [
  ("id", p.id.toJson),
  ("pin_type", Json.ofString p.type.name),
  ("name", Json.ofString p.name),
  ("number", Json.ofString p.number),
  ("voltage_reference_pin", p.voltageReference.map Id.toJson),
  ("gnd_reference_pin", p.groundReference.map Id.toJson)]

def ofJson? (j : Json) : Option Pin := do
  match ← fields?
    ["id", "pin_type", "name", "number", "voltage_reference_pin", "gnd_reference_pin"] j with
  | [id, type, name, number, voltage, ground] =>
    return {
      id := ← required Id.ofJson? id
      type := ← required PinType.ofJson? type
      name := ← required Json.string? name
      number := ← required Json.string? number
      voltageReference := ← orDefault none (nullable Id.ofJson?) voltage
      groundReference := ← orDefault none (nullable Id.ofJson?) ground }
  | _ => none

end Pin

namespace PinAssignment

def toJson (a : PinAssignment) : Json := record [
  ("id", a.id.map Id.toJson),
  ("interface_pin", a.interfacePin.toJson),
  ("channel", Json.ofNat a.channel.toNat),
  ("parent_interface_pin", a.parentInterfacePin.map Id.toJson),
  ("pins", Id.listToJson a.pins),
  ("original_interface_pin", a.declaredInterfacePin.map Id.toJson)]

def channel? (j : Json) : Option UInt32 := do
  let n ← j.nat?
  if n < UInt32.size then some (UInt32.ofNat n) else none

def ofJson? (j : Json) : Option PinAssignment := do
  match ← fields? ["id", "interface_pin", "channel", "parent_interface_pin", "pins",
    "original_interface_pin"] j with
  | [id, interfacePin, channel, parent, pins, declared] =>
    return {
      id := ← orDefault none (nullable Id.ofJson?) id
      interfacePin := ← required Id.ofJson? interfacePin
      channel := ← orDefault 0 channel? channel
      parentInterfacePin := ← orDefault none (nullable Id.ofJson?) parent
      pins := ← required (Json.list? Id.ofJson?) pins
      declaredInterfacePin := ← orDefault none (nullable Id.ofJson?) declared }
  | _ => none

end PinAssignment

namespace Interface

def toJson (i : Interface) : Json := record [
  ("id", i.id.map Id.toJson),
  ("interface_type", i.type.toJson),
  ("name", Json.ofString i.name),
  ("function", Json.ofString i.function),
  ("is_required", Json.bool i.isRequired),
  ("pin_assignments", Json.array (i.assignments.map PinAssignment.toJson)),
  ("parent_interface_type", i.parentType.map Id.toJson)]

def ofJson? (j : Json) : Option Interface := do
  match ← fields? ["id", "interface_type", "name", "function", "is_required", "pin_assignments",
    "parent_interface_type"] j with
  | [id, type, name, function, isRequired, assignments, parent] =>
    return {
      id := ← orDefault none (nullable Id.ofJson?) id
      type := ← required Id.ofJson? type
      name := ← required Json.string? name
      function := ← orDefault "" Json.string? function
      isRequired := ← orDefault false Json.bool? isRequired
      assignments := ← required (Json.list? PinAssignment.ofJson?) assignments
      parentType := ← orDefault none (nullable Id.ofJson?) parent }
  | _ => none

end Interface

namespace Connectivity

def toJson (c : Connectivity) : Json := record [
  ("id", c.id.toJson),
  ("name", Json.ofString c.name),
  ("pins", Json.array (c.pins.map Pin.toJson)),
  ("interfaces", Json.array (c.interfaces.map Interface.toJson))]

def ofJson? (j : Json) : Option Connectivity := do
  match ← fields? ["id", "name", "pins", "interfaces"] j with
  | [id, name, pins, interfaces] =>
    return {
      id := ← required Id.ofJson? id
      name := ← required Json.string? name
      pins := ← orDefault [] (Json.list? Pin.ofJson?) pins
      interfaces := ← orDefault [] (Json.list? Interface.ofJson?) interfaces }
  | _ => none

end Connectivity

namespace FamilyRecord

def toJson (r : FamilyRecord) : Json := record [
  ("id", r.id.toJson),
  ("name", Json.ofString r.name),
  ("label", Json.ofString r.label)]

def ofJson? (j : Json) : Option FamilyRecord := do
  match ← fields? ["id", "name", "label"] j with
  | [id, name, label] =>
    return {
      id := ← required Id.ofJson? id
      name := ← required Json.string? name
      label := ← required Json.string? label }
  | _ => none

end FamilyRecord

namespace InterfaceTypeRecord

def toJson (r : InterfaceTypeRecord) : Json := record [
  ("id", r.id.toJson),
  ("name", Json.ofString r.name),
  ("label", Json.ofString r.label),
  ("family", r.family.map Id.toJson),
  ("function", Json.ofString r.function),
  ("can_be_required", Json.bool r.canBeRequired),
  ("can_be_specialised", Json.bool r.canBeSpecialised),
  ("parents", Id.relations r.parents),
  ("compatible_types", Id.relations r.compatibleTypes)]

def ofJson? (j : Json) : Option InterfaceTypeRecord := do
  match ← fields? ["id", "name", "label", "family", "function", "can_be_required",
    "can_be_specialised", "parents", "compatible_types"] j with
  | [id, name, label, family, function, canBeRequired, canBeSpecialised, parents, compatible] =>
    return {
      id := ← required Id.ofJson? id
      name := ← required Json.string? name
      label := ← required Json.string? label
      family := ← orDefault none (nullable Id.ofJson?) family
      function := ← orDefault "" Json.string? function
      canBeRequired := ← orDefault false Json.bool? canBeRequired
      canBeSpecialised := ← orDefault false Json.bool? canBeSpecialised
      parents := ← orDefault [] (Json.list? Id.ofJson?) parents
      compatibleTypes := ← orDefault [] (Json.list? Id.ofJson?) compatible }
  | _ => none

end InterfaceTypeRecord

namespace InterfacePinRecord

def toJson (r : InterfacePinRecord) : Json := record [
  ("id", r.id.toJson),
  ("interface_type", r.interfaceType.toJson),
  ("reference", Json.ofString r.reference),
  ("pin_type", Json.ofString r.pinType.name),
  ("is_required", Json.bool r.isRequired),
  ("sharing", Json.ofString r.sharing.name),
  ("multiple_use", Json.bool r.multipleUse),
  ("compatible_pins", Id.relations r.compatiblePins),
  ("parent_pins", Id.relations r.parentPins)]

def ofJson? (j : Json) : Option InterfacePinRecord := do
  match ← fields? ["id", "interface_type", "reference", "pin_type", "is_required", "sharing",
    "multiple_use", "compatible_pins", "parent_pins"] j with
  | [id, type, reference, pinType, isRequired, sharing, multipleUse, compatible, parents] =>
    return {
      id := ← required Id.ofJson? id
      interfaceType := ← required Id.ofJson? type
      reference := ← required Json.string? reference
      pinType := ← required PinType.ofJson? pinType
      isRequired := ← orDefault true Json.bool? isRequired
      sharing := ← orDefault .exclusive Sharing.ofJson? sharing
      multipleUse := ← orDefault false Json.bool? multipleUse
      compatiblePins := ← orDefault [] (Json.list? Id.ofJson?) compatible
      parentPins := ← orDefault [] (Json.list? Id.ofJson?) parents }
  | _ => none

end InterfacePinRecord

namespace Snapshot

def toJson (s : Snapshot) : Json := record [
  ("families", Json.array (s.families.map FamilyRecord.toJson)),
  ("interface_types", Json.array (s.interfaceTypes.map InterfaceTypeRecord.toJson)),
  ("interface_pins", Json.array (s.interfacePins.map InterfacePinRecord.toJson)),
  ("connectivities", Json.array (s.connectivities.map Connectivity.toJson))]

def ofJson? (j : Json) : Option Snapshot := do
  match ← fields? ["families", "interface_types", "interface_pins", "connectivities"] j with
  | [families, types, pins, connectivities] =>
    return {
      families := ← orDefault [] (Json.list? FamilyRecord.ofJson?) families
      interfaceTypes := ← orDefault [] (Json.list? InterfaceTypeRecord.ofJson?) types
      interfacePins := ← orDefault [] (Json.list? InterfacePinRecord.ofJson?) pins
      connectivities := ← orDefault [] (Json.list? Connectivity.ofJson?) connectivities }
  | _ => none

def toText (s : Snapshot) : String := s.toJson.toText

def parse? (text : String) : Option Snapshot := Json.parse? text >>= ofJson?

end Snapshot
end BoardNets
