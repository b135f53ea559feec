import BoardNets.Catalog.Adapter
import BoardNets.Circuit.Latency
import BoardNets.Circuit.Place

/-! What a circuit is made of: components and filters in a tree, fragments that require interfaces
to be wired, the buses these make up, and ancillary roles of parts. -/
namespace BoardNets

open Std

/-- Where a fragment came from. Only persisted fragments have their pin connections deduced. -/
inductive Origin where
  | persisted (id : Uuid)
  | derived
  deriving DecidableEq

/-- A node and what is known about the interface to be wired there. -/
structure Terminal where
  node : NodeId
  type : Option InterfaceTypeId := none
  interface : Option String := none
  deriving DecidableEq

/-- A directed requirement, as given, that an interface of the source be wired to the target. -/
structure Requirement where
  origin : Origin := .derived
  function : String
  source : Terminal
  target : Terminal
  adapter : Option Adapter := none
  deriving DecidableEq

/-- One end of a fragment, with the pin uses that are wired there. -/
structure Endpoint extends Terminal where
  connections : Connections := ∅
  deriving DecidableEq

/-- A requirement in a circuit. -/
structure Fragment where
  origin : Origin := .derived
  function : String
  source : Endpoint
  target : Endpoint
  adapter : Option Adapter := none
  deriving DecidableEq

def Fragment.endpoint (f : Fragment) : Side → Endpoint
  | .source => f.source
  | .target => f.target

/-- A fragment whose interfaces are known, as part of a bus. -/
structure BusMember where
  fragment : FragmentId
  sourceInterface : InterfaceRef
  targetInterface : InterfaceRef
  source : NodeId
  target : NodeId
  deriving DecidableEq

namespace BusMember

def key (m : BusMember) : List Nat := [m.fragment.index, m.sourceInterface.component.index,
  m.sourceInterface.index, m.targetInterface.component.index, m.targetInterface.index,
  m.source.index, m.target.index]

instance : Ord BusMember := ⟨fun a b => compare a.key b.key⟩

instance : TransOrd BusMember := transOrd_of_key key fun _ _ => rfl

theorem eq_of_key : ∀ a b : BusMember, a.key = b.key → a = b
  | ⟨⟨_⟩, ⟨⟨_⟩, _⟩, ⟨⟨_⟩, _⟩, ⟨_⟩, ⟨_⟩⟩, ⟨⟨_⟩, ⟨⟨_⟩, _⟩, ⟨⟨_⟩, _⟩, ⟨_⟩, ⟨_⟩⟩, rfl => rfl

instance : LawfulEqOrd BusMember := lawfulEqOrd_of_key key (fun _ _ => rfl) eq_of_key

end BusMember

/-- Fragments connected through shared interfaces, under the reference of the first. -/
structure Bus where
  members : SortedSet BusMember := ∅
  reference : String := ""
  deriving DecidableEq

inductive AncillaryType where
  | custom
  | seriesCapacitor
  | seriesResistor
  | ferrite
  | decoupling
  | pullupResistor
  | pullupCapacitor
  | pulldownResistor
  | pulldownCapacitor
  | connector
  deriving DecidableEq

namespace AncillaryType

def all : List AncillaryType := [custom, seriesCapacitor, seriesResistor, ferrite, decoupling,
  pullupResistor, pullupCapacitor, pulldownResistor, pulldownCapacitor, connector]

/-- The order of application among ancillaries of equal latency. -/
def rank : AncillaryType → Nat
  | custom => 0
  | seriesCapacitor => 1
  | seriesResistor => 2
  | ferrite => 3
  | decoupling => 4
  | pullupResistor => 5
  | pullupCapacitor => 6
  | pulldownResistor => 7
  | pulldownCapacitor => 8
  | connector => 9

def name : AncillaryType → String
  | custom => "custom"
  | seriesCapacitor => "series capacitor"
  | seriesResistor => "series resistor"
  | ferrite => "ferrite"
  | decoupling => "decoupling"
  | pullupResistor => "pull-up resistor"
  | pullupCapacitor => "pull-up capacitor"
  | pulldownResistor => "pull-down resistor"
  | pulldownCapacitor => "pull-down capacitor"
  | connector => "connector"

end AncillaryType

inductive ConnectionType where
  | series
  | parallel
  deriving DecidableEq

inductive Role where
  /-- Joins the input pins. -/
  | input
  /-- Takes the place of the input pins downstream. -/
  | output
  /-- Joins the voltage reference of the input pins. -/
  | voltageReference
  /-- Joins the ground reference of the input pins. -/
  | groundReference
  deriving DecidableEq

namespace Role

def all : List Role := [input, output, voltageReference, groundReference]

def name : Role → String
  | input => "input"
  | output => "output"
  | voltageReference => "v_ref"
  | groundReference => "gnd_ref"

end Role

/-- What an ancillary's pin attaches to. -/
inductive Attachment where
  | interfacePin (pin : InterfacePinId) (assignment : Option PinAssignmentId)
  | pin (pin : PinId)
  deriving DecidableEq

structure AncillaryConnection where
  ancillaryPin : PinId
  role : Role
  attachment : Attachment
  deriving DecidableEq

/-- What an ancillary as a whole is attached to. -/
inductive Binding where
  | bus (bus : Bus)
  | interface (parent : NodeId) (interface : InterfaceRef)
  | pins (parent : NodeId)
  | board (board : NodeId)
  deriving DecidableEq

def Binding.parent? : Binding → Option NodeId
  | .bus _ => none
  | .interface parent _ => some parent
  | .pins parent => some parent
  | .board id => some id

/-- The role of a part that supports another part, an interface, a bus or a board. -/
structure Ancillary where
  type : AncillaryType
  connectionType : Option ConnectionType := none
  maximumLatency : Option Latency := none
  connections : List AncillaryConnection
  binding : Binding
  deriving DecidableEq

/-- An interface as realised on a component, with the uses that wired fragments make of it. -/
structure ComponentInterface where
  name : String
  interface : Interface
  uses : Connections := ∅
  active : Bool := false
  deriving DecidableEq

inductive ComponentKind where
  | part
  | subcircuit
  deriving DecidableEq

structure Component where
  reference : String
  function : String
  kind : ComponentKind
  connectivity : Option ConnectivityId := none
  pins : List Pin := []
  interfaces : List ComponentInterface := []
  parent : Option NodeId
  children : List NodeId := []
  requirements : List FragmentId := []
  ancillary : Option Ancillary := none
  deriving DecidableEq

namespace Component

def isPart (c : Component) : Bool := c.kind = .part

def pin? (c : Component) (id : PinId) : Option Pin := c.pins.find? fun p => p.id = id

def pinNamed? (c : Component) (name : String) : Option Pin := c.pins.find? fun p => p.name = name

end Component

/-- Stands for a component that has not been chosen yet. -/
structure Filter where
  reference : String
  function : String
  connectivity : Option ConnectivityId := none
  /-- Filters to be resolved together with this one. -/
  links : List NodeId := []
  /-- Candidates, which are not in the tree. -/
  feasible : List NodeId := []
  parent : Option NodeId
  requirements : List FragmentId := []
  deriving DecidableEq

inductive Node where
  | component (c : Component)
  | filter (f : Filter)
  deriving DecidableEq

namespace Node

def reference : Node → String
  | component c => c.reference
  | filter f => f.reference

def function : Node → String
  | component c => c.function
  | filter f => f.function

def connectivity : Node → Option ConnectivityId
  | component c => c.connectivity
  | filter f => f.connectivity

def parent : Node → Option NodeId
  | component c => c.parent
  | filter f => f.parent

def requirements : Node → List FragmentId
  | component c => c.requirements
  | filter f => f.requirements

def require (id : FragmentId) : Node → Node
  | component c => .component { c with requirements := c.requirements ++ [id] }
  | filter f => .filter { f with requirements := f.requirements ++ [id] }

end Node
end BoardNets
