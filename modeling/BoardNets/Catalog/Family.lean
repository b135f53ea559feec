import BoardNets.Catalog.Snapshot
import BoardNets.Sorted.Map
import BoardNets.Sorted.Set

/-! Families of interface types that can be wired into one bus, and their logical networks. -/
namespace BoardNets

open Std

/-- Types without a declared family form a family of their own. -/
inductive FamilyKey where
  | declared (id : FamilyId)
  | implicit (type : InterfaceTypeId)
  /-- The family reported for buses without fragments. -/
  | doNotConnect
  deriving DecidableEq

namespace FamilyKey

def label : FamilyKey → String
  | .declared id => "family " ++ toString id
  | .implicit type => "implicit family of " ++ toString type
  | .doNotConnect => "DNC family"

def rank : FamilyKey → Nat
  | .declared _ => 0
  | .implicit _ => 1
  | .doNotConnect => 2

def uuid : FamilyKey → Uuid
  | .declared id => id.uuid
  | .implicit type => type.uuid
  | .doNotConnect => .nil

theorem eq_of_rank_uuid : ∀ a b : FamilyKey, (a.rank, a.uuid) = (b.rank, b.uuid) → a = b
  | .declared ⟨_⟩, .declared ⟨_⟩, rfl => rfl
  | .implicit ⟨_⟩, .implicit ⟨_⟩, rfl => rfl
  | .doNotConnect, .doNotConnect, _ => rfl

instance : Ord FamilyKey := ⟨fun a b => lexOrd.compare (a.rank, a.uuid) (b.rank, b.uuid)⟩

instance : TransOrd FamilyKey :=
  @transOrd_of_key _ _ _ lexOrd _ (fun k => (rank k, uuid k)) fun _ _ => rfl

instance : LawfulEqOrd FamilyKey :=
  @lawfulEqOrd_of_key _ _ _ lexOrd _ (fun k => (rank k, uuid k)) (fun _ _ => rfl) eq_of_rank_uuid

end FamilyKey

structure Family where
  key : FamilyKey
  name : String
  label : String
  types : List InterfaceTypeId := []
  deriving DecidableEq

namespace Family

def doNotConnect : Family := { key := .doNotConnect, name := "Do not connect", label := "DNC" }

def isImplicit (f : Family) : Bool :=
  match f.key with
  | .implicit _ => true
  | _ => false

end Family

/-- An interface pin on the requesting or on the receiving side of a bus. -/
structure SidedPin where
  pin : InterfacePinId
  requesting : Bool
  deriving DecidableEq

namespace SidedPin

instance : Ord SidedPin := ⟨fun a b => lexOrd.compare (a.pin, a.requesting) (b.pin, b.requesting)⟩

instance : TransOrd SidedPin :=
  @transOrd_of_key _ _ _ lexOrd _ (fun p => (pin p, requesting p)) fun _ _ => rfl

instance : LawfulEqOrd SidedPin :=
  @lawfulEqOrd_of_key _ _ _ lexOrd _ (fun p => (pin p, requesting p)) (fun _ _ => rfl)
    fun | ⟨_, _⟩, ⟨_, _⟩, rfl => rfl

end SidedPin

/-- One signal of a family: the requesting pins that drive it and the receiving pins they reach. -/
structure LogicalNetwork where
  name : String
  requesting : SortedSet InterfacePinId
  receiving : SortedSet InterfacePinId
  deriving DecidableEq

namespace LogicalNetwork

def key (n : LogicalNetwork) : String × List InterfacePinId × List InterfacePinId :=
  (n.name, n.requesting.toList, n.receiving.toList)

theorem eq_of_key : ∀ a b : LogicalNetwork, a.key = b.key → a = b
  | ⟨_, ⟨_, _⟩, ⟨_, _⟩⟩, ⟨_, ⟨_, _⟩, ⟨_, _⟩⟩, rfl => rfl

abbrev keyOrd : Ord (String × List InterfacePinId × List InterfacePinId) := @lexOrd _ _ _ lexOrd

instance : Ord LogicalNetwork := ⟨fun a b => keyOrd.compare a.key b.key⟩

instance : TransOrd LogicalNetwork := @transOrd_of_key _ _ _ keyOrd _ key fun _ _ => rfl

instance : LawfulEqOrd LogicalNetwork :=
  @lawfulEqOrd_of_key _ _ _ keyOrd _ key (fun _ _ => rfl) eq_of_key

def sideName (references : List String) : String :=
  ", ".intercalate (SortedSet.ofList references).toList

def ofPins (requesting receiving : List (InterfacePinId × String)) : LogicalNetwork where
  name := sideName (requesting.map (·.2)) ++ " -> " ++ sideName (receiving.map (·.2))
  requesting := .ofList (requesting.map (·.1))
  receiving := .ofList (receiving.map (·.1))

def pins (n : LogicalNetwork) : SortedSet InterfacePinId := n.requesting ∪ n.receiving

def contains (n : LogicalNetwork) (pin : InterfacePinId) : Bool :=
  pin ∈ n.requesting ∨ pin ∈ n.receiving

def hasNode (n : LogicalNetwork) (pin : InterfacePinId) (requesting : Bool) : Bool :=
  if requesting then pin ∈ n.requesting else pin ∈ n.receiving

end LogicalNetwork
end BoardNets
