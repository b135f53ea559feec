import BoardNets.Id.Digest
import BoardNets.Id.Uuid

/-! Identifiers of catalog objects. Each kind of object has its own identifiers, which may be
derived from a readable key: the hash of the kind's tag and the key in one fixed namespace. -/
namespace BoardNets

open Std

inductive IdKind where
  /-- Physical pins of a connectivity. -/
  | pin
  /-- Pin slots of an interface type. -/
  | interfacePin
  | interfaceType
  | family
  /-- Kinds of parts. -/
  | connectivity
  | interface
  | pinAssignment
  deriving DecidableEq

def IdKind.tag : IdKind → String
  | .pin => "pin"
  | .interfacePin => "interface-pin"
  | .interfaceType => "interface-type"
  | .family => "family"
  | .connectivity => "connectivity"
  | .interface => "interface"
  | .pinAssignment => "pin-assignment"

def catalogSpace : Uuid := ⟨0x6c1f4a2e93d04b7a8e552f1d0c9b7a31⟩

/-- The name-based identifier of version 5: hash of namespace and name, with version and variant
stamped over the bits that belong to them. -/
def Uuid.named (space : Uuid) (name : String) : Uuid :=
  let hash := (Digest.hash (Digest.bigEndian 16 space.bits.toNat ++ name.toUTF8.toList)).leading
  ⟨(hash &&& 0xFFFFFFFFFFFF0FFF3FFFFFFFFFFFFFFF) ||| 0x00000000000050008000000000000000⟩

structure Id (kind : IdKind) where
  uuid : Uuid
  deriving DecidableEq

namespace Id

variable {kind : IdKind}

instance : Ord (Id kind) := ⟨fun a b => compare a.uuid b.uuid⟩

instance : TransOrd (Id kind) := transOrd_of_key uuid fun _ _ => rfl

instance : LawfulEqOrd (Id kind) := lawfulEqOrd_of_key uuid (fun _ _ => rfl)
  fun | ⟨_⟩, ⟨_⟩, rfl => rfl

instance : Inhabited (Id kind) := ⟨⟨.nil⟩⟩

instance : ToString (Id kind) := ⟨fun id => id.uuid.toString⟩

def ofKey (key : String) : Id kind := ⟨catalogSpace.named (kind.tag ++ ":" ++ key)⟩

end Id

abbrev PinId := Id .pin
abbrev InterfacePinId := Id .interfacePin
abbrev InterfaceTypeId := Id .interfaceType
abbrev FamilyId := Id .family
abbrev ConnectivityId := Id .connectivity
abbrev InterfaceId := Id .interface
abbrev PinAssignmentId := Id .pinAssignment

end BoardNets
