import BoardNets.Catalog.Linking
import BoardNets.Text.Case

/-! Catalogs written down by name. Identifiers come from names: an interface pin from its type and
reference, a physical pin from its connectivity and name. A draft keeps the first fault of its
entries and goes on without the faulty ones. -/
namespace BoardNets

def InterfacePinId.named (type reference : String) : InterfacePinId :=
  .ofKey (type ++ "/" ++ reference)

def PinId.named (connectivity pin : String) : PinId := .ofKey (connectivity ++ "/" ++ pin)

namespace Draft

inductive Entry where
  | family (name label : String)
  /-- Without a family, the type forms its own. -/
  | interfaceType (name label : String) (family : Option String)
  | requesting (type : String)
  | specialisable (type : String)
  | typeFunction (type function : String)
  | childType (parent child : String)
  | compatibleTypes (type other : String)
  | interfacePin (type reference : String) (pinType : PinType) (sharing : Sharing)
  | compatiblePins (type reference otherType otherReference : String)
  | childPin (parentType parentReference childType childReference : String)
  | connectivity (name : String)
  | pin (connectivity name number : String) (type : PinType)
  | voltageReference (connectivity pin reference : String)
  | groundReference (connectivity pin reference : String)
  | interface (connectivity name type : String) (assignments : List (String × List String))

/-- Changes the first element that `p` holds of, unless that fails or there is none. -/
def modifyFirst {α : Type} (p : α → Bool) (missing : CatalogError)
    (f : α → Except CatalogError α) : List α → Except CatalogError (List α)
  | [] => throw missing
  | a :: l => if p a then (f a).map (· :: l) else (modifyFirst p missing f l).map (a :: ·)

def changeType (s : Snapshot) (name : String)
    (f : InterfaceTypeRecord → InterfaceTypeRecord) : Except CatalogError Snapshot := do
  return { s with
    interfaceTypes := ← modifyFirst (fun t => t.id = .ofKey name) (.unknownInterfaceType name)
      (pure ∘ f) s.interfaceTypes }

def changeInterfacePin (s : Snapshot) (type reference : String)
    (f : InterfacePinRecord → InterfacePinRecord) : Except CatalogError Snapshot := do
  return { s with
    interfacePins := ← modifyFirst (fun p => p.id = .named type reference)
      (.unknownPinReference type reference) (pure ∘ f) s.interfacePins }

def changeConnectivity (s : Snapshot) (name : String)
    (f : Connectivity → Except CatalogError Connectivity) : Except CatalogError Snapshot := do
  return { s with
    connectivities := ← modifyFirst (fun c => c.id = .ofKey name) (.unknownConnectivity name) f
      s.connectivities }

def changePin (s : Snapshot) (connectivity pin : String) (f : Pin → Pin) :
    Except CatalogError Snapshot :=
  changeConnectivity s connectivity fun c => do
    return { c with
      pins := ← modifyFirst (fun p => p.id = .named connectivity pin) (.unknownPin c.name pin)
        (pure ∘ f) c.pins }

def enter (s : Snapshot) : Entry → Except CatalogError Snapshot
  | .family name label =>
    pure { s with families := s.families ++ [{ id := .ofKey name, name, label }] }
  | .interfaceType name label family =>
    let record : InterfaceTypeRecord := {
      id := .ofKey name, name, label
      family := family.map Id.ofKey
      function := Text.lower label }
    pure { s with interfaceTypes := s.interfaceTypes ++ [record] }
  | .requesting type => changeType s type fun t => { t with canBeRequired := true }
  | .specialisable type => changeType s type fun t => { t with canBeSpecialised := true }
  | .typeFunction type function => changeType s type fun t => { t with function }
  | .childType parent child =>
    changeType s child fun t => { t with parents := t.parents ++ [.ofKey parent] }
  | .compatibleTypes type other =>
    changeType s type fun t => { t with compatibleTypes := t.compatibleTypes ++ [.ofKey other] }
  | .interfacePin type reference pinType sharing =>
    let record : InterfacePinRecord :=
      { id := .named type reference, interfaceType := .ofKey type, reference, pinType, sharing }
    pure { s with interfacePins := s.interfacePins ++ [record] }
  | .compatiblePins type reference otherType otherReference =>
    changeInterfacePin s type reference fun p =>
      { p with compatiblePins := p.compatiblePins ++ [.named otherType otherReference] }
  | .childPin parentType parentReference childType childReference =>
    changeInterfacePin s childType childReference fun p =>
      { p with parentPins := p.parentPins ++ [.named parentType parentReference] }
  | .connectivity name =>
    pure { s with connectivities := s.connectivities ++ [{ id := .ofKey name, name }] }
  | .pin connectivity name number type =>
    changeConnectivity s connectivity fun c =>
      pure { c with pins := c.pins ++ [{ id := .named connectivity name, type, name, number }] }
  | .voltageReference connectivity pin reference =>
    changePin s connectivity pin fun p =>
      { p with voltageReference := some (.named connectivity reference) }
  | .groundReference connectivity pin reference =>
    changePin s connectivity pin fun p =>
      { p with groundReference := some (.named connectivity reference) }
  | .interface connectivity name type assignments =>
    changeConnectivity s connectivity fun c =>
      let interface : Interface := {
        id := some (.ofKey (connectivity ++ "/" ++ name ++ "/" ++ type))
        type := .ofKey type
        name
        assignments := assignments.map fun (reference, pins) =>
          { interfacePin := .named type reference, pins := pins.map (.named connectivity) } }
      pure { c with interfaces := c.interfaces ++ [interface] }

end Draft

structure Draft where
  records : Snapshot := {}
  fault : Option CatalogError := none

namespace Draft

def add (d : Draft) (e : Entry) : Draft :=
  match enter d.records e with
  | .ok records => { d with records }
  | .error fault => { d with fault := d.fault.or (some fault) }

def ofEntries (entries : List Entry) : Draft := entries.foldl add {}

def snapshot (d : Draft) : Except CatalogError Snapshot := d.fault.elim (pure d.records) throw

def build (d : Draft) : Except CatalogError Catalog := d.snapshot >>= Catalog.ofSnapshot

end Draft
end BoardNets
