import BoardNets.Catalog.Interface
import BoardNets.Sorted.Map
import BoardNets.Sorted.Set

/-! Places in a circuit: its nodes and fragments by index, the pins and interfaces of its
components, and the uses of pins that wired interfaces hold. -/
namespace BoardNets

open Std

structure NodeId where
  index : Nat
  deriving DecidableEq

namespace NodeId

instance : Ord NodeId := ⟨fun a b => compare a.index b.index⟩

instance : TransOrd NodeId := transOrd_of_key index fun _ _ => rfl

instance : LawfulEqOrd NodeId := lawfulEqOrd_of_key index (fun _ _ => rfl)
  fun | ⟨_⟩, ⟨_⟩, rfl => rfl

end NodeId

structure FragmentId where
  index : Nat
  deriving DecidableEq

namespace FragmentId

instance : Ord FragmentId := ⟨fun a b => compare a.index b.index⟩

instance : TransOrd FragmentId := transOrd_of_key index fun _ _ => rfl

instance : LawfulEqOrd FragmentId := lawfulEqOrd_of_key index (fun _ _ => rfl)
  fun | ⟨_⟩, ⟨_⟩, rfl => rfl

end FragmentId

/-- A physical pin of one component. -/
structure ComponentPin where
  component : NodeId
  pin : PinId
  deriving DecidableEq

namespace ComponentPin

instance : Ord ComponentPin := ⟨fun a b => lexOrd.compare (a.component, a.pin) (b.component, b.pin)⟩

instance : TransOrd ComponentPin :=
  @transOrd_of_key _ _ _ lexOrd _ (fun p => (component p, pin p)) fun _ _ => rfl

instance : LawfulEqOrd ComponentPin :=
  @lawfulEqOrd_of_key _ _ _ lexOrd _ (fun p => (component p, pin p)) (fun _ _ => rfl)
    fun | ⟨_, _⟩, ⟨_, _⟩, rfl => rfl

end ComponentPin

structure PinPair where
  first : ComponentPin
  second : ComponentPin
  deriving DecidableEq

namespace PinPair

instance : Ord PinPair := ⟨fun a b => lexOrd.compare (a.first, a.second) (b.first, b.second)⟩

instance : TransOrd PinPair :=
  @transOrd_of_key _ _ _ lexOrd _ (fun p => (first p, second p)) fun _ _ => rfl

instance : LawfulEqOrd PinPair :=
  @lawfulEqOrd_of_key _ _ _ lexOrd _ (fun p => (first p, second p)) (fun _ _ => rfl)
    fun | ⟨_, _⟩, ⟨_, _⟩, rfl => rfl

end PinPair

/-- An interface of one component, by its place in the component's list. -/
structure InterfaceRef where
  component : NodeId
  index : Nat
  deriving DecidableEq

namespace InterfaceRef

instance : Ord InterfaceRef :=
  ⟨fun a b => lexOrd.compare (a.component, a.index) (b.component, b.index)⟩

instance : TransOrd InterfaceRef :=
  @transOrd_of_key _ _ _ lexOrd _ (fun i => (component i, index i)) fun _ _ => rfl

instance : LawfulEqOrd InterfaceRef :=
  @lawfulEqOrd_of_key _ _ _ lexOrd _ (fun i => (component i, index i)) (fun _ _ => rfl)
    fun | ⟨_, _⟩, ⟨_, _⟩, rfl => rfl

end InterfaceRef

/-- A component's pin, used through an interface as one of its slots. -/
structure PinUse where
  pin : ComponentPin
  interfacePin : InterfacePinId
  interface : InterfaceRef
  deriving DecidableEq

abbrev Connections := SortedMap InterfacePinId (List PinUse)

namespace Connections

def uses (c : Connections) : List PinUse := c.values.flatten

def add (c : Connections) (key : InterfacePinId) (uses : List PinUse) : Connections :=
  c.update key [] (· ++ uses)

def addAll (c : Connections) (more : Connections) : Connections :=
  more.toList.foldl (fun c entry => c.add entry.1 entry.2) c

end Connections

/-- The two ends of a directed requirement. -/
inductive Side where
  | source
  | target
  deriving DecidableEq

def Side.name : Side → String
  | .source => "from"
  | .target => "to"

end BoardNets
