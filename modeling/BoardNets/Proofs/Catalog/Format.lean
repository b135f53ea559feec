import BoardNets.Catalog.Format
import BoardNets.Proofs.Id.Uuid
import BoardNets.Proofs.Json.Record

/-! Catalog data is read as it is written. Every record is written with the names it is read by, what
it leaves out is what its reader fills in, and so a whole snapshot comes back from its text. -/
namespace BoardNets

open Json (Readable Stored fields?_record readable_record stored_string stored_bool stored_nat
  stored_choice)

namespace Id

variable {kind : IdKind}

theorem stored : Stored (@toJson kind) ofJson? where
  read id := by
    simp [toJson, ofJson?, toString, stored_string.read, Uuid.parse?_toString]
  readable id := Json.readable_string (some (toString id))

theorem read_optional (id? : Option (Id kind)) :
    Json.orDefault none (Json.nullable ofJson?) (id?.map toJson) = some id? :=
  stored.optional (fun _ => nofun) id?

theorem read_relations (ids : List (Id kind)) :
    Json.orDefault [] (Json.list? ofJson?) (relations ids) = some ids := by
  cases ids with
  | nil => rfl
  | cons id ids => exact stored.list.read (id :: ids)

theorem readable_relations (ids : List (Id kind)) : ∀ j ∈ relations ids, Readable j := by
  intro j hj
  cases ids with
  | nil => cases hj
  | cons id ids =>
    obtain rfl := Option.some.inj hj
    exact stored.list.readable (id :: ids)

end Id

theorem PinType.stored : Stored (fun t : PinType => Json.ofString t.name) ofJson? :=
  stored_choice fun t => by cases t <;> rfl

theorem Sharing.stored : Stored (fun s : Sharing => Json.ofString s.name) ofJson? :=
  stored_choice fun s => by cases s <;> rfl

theorem Pin.stored : Stored toJson ofJson? where
  read p := by
    rw [toJson, ofJson?, fields?_record]
    · simp [Id.stored.read, Id.read_optional, PinType.stored.read, stored_string.read]
    · rfl
    · decide
  readable p := readable_record (by
    simp [Id.stored.readable, PinType.stored.readable, stored_string.readable])

namespace PinAssignment

theorem stored_channel : Stored (fun n : UInt32 => Json.ofNat n.toNat) channel? where
  read n := by simp [channel?, stored_nat.read, UInt32.toNat_lt_size]
  readable n := stored_nat.readable n.toNat

theorem stored : Stored toJson ofJson? where
  read a := by
    rw [toJson, ofJson?, fields?_record]
    · simp [Id.stored.read, Id.read_optional, stored_channel.read, Id.listToJson,
        Id.stored.list.read]
    · rfl
    · decide
  readable a := readable_record (by
    simp [Id.stored.readable, stored_channel.readable, Id.listToJson, Id.stored.list.readable])

end PinAssignment

theorem Interface.stored : Stored toJson ofJson? where
  read i := by
    rw [toJson, ofJson?, fields?_record]
    · simp [Id.stored.read, Id.read_optional, stored_string.read, stored_bool.read,
        PinAssignment.stored.list.read]
    · rfl
    · decide
  readable i := readable_record (by
    simp [Id.stored.readable, stored_string.readable, stored_bool.readable,
      PinAssignment.stored.list.readable])

theorem Connectivity.stored : Stored toJson ofJson? where
  read c := by
    rw [toJson, ofJson?, fields?_record]
    · simp [Id.stored.read, stored_string.read, Pin.stored.list.read, Interface.stored.list.read]
    · rfl
    · decide
  readable c := readable_record (by
    simp [Id.stored.readable, stored_string.readable, Pin.stored.list.readable,
      Interface.stored.list.readable])

theorem FamilyRecord.stored : Stored toJson ofJson? where
  read r := by
    rw [toJson, ofJson?, fields?_record]
    · simp [Id.stored.read, stored_string.read]
    · rfl
    · decide
  readable r := readable_record (by simp [Id.stored.readable, stored_string.readable])

theorem InterfaceTypeRecord.stored : Stored toJson ofJson? where
  read r := by
    rw [toJson, ofJson?, fields?_record]
    · simp [Id.stored.read, Id.read_optional, Id.read_relations, stored_string.read,
        stored_bool.read]
    · rfl
    · decide
  readable r := readable_record (by
    simpa [Id.stored.readable, stored_string.readable, stored_bool.readable] using
      And.intro (Id.readable_relations r.parents) (Id.readable_relations r.compatibleTypes))

theorem InterfacePinRecord.stored : Stored toJson ofJson? where
  read r := by
    rw [toJson, ofJson?, fields?_record]
    · simp [Id.stored.read, Id.read_relations, PinType.stored.read, Sharing.stored.read,
        stored_string.read, stored_bool.read]
    · rfl
    · decide
  readable r := readable_record (by
    simpa [Id.stored.readable, PinType.stored.readable, Sharing.stored.readable,
      stored_string.readable, stored_bool.readable] using
      And.intro (Id.readable_relations r.compatiblePins) (Id.readable_relations r.parentPins))

namespace Snapshot

theorem stored : Stored toJson ofJson? where
  read s := by
    rw [toJson, ofJson?, fields?_record]
    · simp [FamilyRecord.stored.list.read, InterfaceTypeRecord.stored.list.read,
        InterfacePinRecord.stored.list.read, Connectivity.stored.list.read]
    · rfl
    · decide
  readable s := readable_record (by
    simp [FamilyRecord.stored.list.readable, InterfaceTypeRecord.stored.list.readable,
      InterfacePinRecord.stored.list.readable, Connectivity.stored.list.readable])

/-- Every snapshot is read back from the text that it is written as. -/
theorem parse?_toText (s : Snapshot) : parse? s.toText = some s := by
  rw [parse?, toText, (stored.readable s).read_toText]
  exact stored.read s

end Snapshot
end BoardNets
