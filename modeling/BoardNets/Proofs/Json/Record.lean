import BoardNets.Json.Record
import BoardNets.Proofs.Json.Reader
import Mathlib.Data.List.Nodup

/-! Records are read as they are written. Members that are left out are read as missing, all others
under their own names, and what a default stands for is what was left out. -/
namespace BoardNets.Json

section Members

variable {members : List (String × Option Json)}

def present (members : List (String × Option Json)) : List (Option String × Json) :=
  members.filterMap fun m => m.2.map (some m.1, ·)

theorem record_eq : record members = .object (present members) := rfl

theorem names_present_sublist :
    ((present members).map Prod.fst).Sublist ((members.map Prod.fst).map some) := by
  induction members with
  | nil => exact .slnil
  | cons m members ih =>
    obtain ⟨name, value⟩ := m
    cases value with
    | none => exact ih.cons _
    | some j => exact ih.cons_cons _

theorem name_of_mem_present {p : Option String × Json} (hp : p ∈ present members) :
    ∃ name ∈ members.map Prod.fst, p.1 = some name := by
  obtain ⟨name, hname, heq⟩ := List.mem_map.1
    (names_present_sublist.subset (List.mem_map.2 ⟨p, hp, rfl⟩))
  exact ⟨name, hname, heq.symm⟩

theorem member?_present (h : (members.map Prod.fst).Nodup) {m : String × Option Json}
    (hm : m ∈ members) : member? m.1 (present members) = m.2 := by
  induction members with
  | nil => cases hm
  | cons first members ih =>
    obtain ⟨name, value⟩ := first
    obtain ⟨hnew, hrest⟩ := List.nodup_cons.1 h
    have hmissing : member? name (present members) = none := by
      refine List.lookup_eq_none_iff.2 fun p hp => ?_
      obtain ⟨other, hother, heq⟩ := name_of_mem_present hp
      rw [heq]
      simpa using fun hsame : name = other => hnew (hsame ▸ hother)
    rcases List.mem_cons.1 hm with rfl | hm
    · cases value with
      | none => exact hmissing
      | some j => simp [present, member?]
    · have hne : (m.1 == name) = false := by
        simpa using fun hsame : m.1 = name => hnew (hsame ▸ List.mem_map.2 ⟨m, hm, rfl⟩)
      rw [← ih hrest hm]
      cases value with
      | none => rfl
      | some j => simp [present, member?, List.lookup_cons, hne]

theorem fields?_record {names : List String} (hnames : members.map Prod.fst = names)
    (h : names.Nodup) : fields? names (record members) = some (members.map Prod.snd) := by
  subst hnames
  have hnamed : (present members).any (·.1.isNone) = false := by
    rw [List.any_eq_false]
    intro p hp
    obtain ⟨name, _, heq⟩ := name_of_mem_present hp
    simp [heq]
  have honce : (members.map Prod.fst).any (fun name =>
      1 < (present members).countP (·.1 == some name)) = false := by
    rw [List.any_eq_false]
    intro name _
    have hcount : (present members).countP (·.1 == some name) ≤ 1 := by
      have hdistinct := names_present_sublist.nodup (h.map fun _ _ => Option.some.inj)
      rw [List.nodup_iff_count_le_one] at hdistinct
      simpa [List.count, List.countP_map, Function.comp_def] using hdistinct (some name)
    simpa using hcount
  have hfields : (members.map Prod.fst).map (member? · (present members)) =
      members.map Prod.snd := by
    rw [List.map_map]
    exact List.map_congr_left fun m hm => member?_present h hm
  rw [record_eq, fields?, hnamed, honce, hfields]
  rfl

theorem readable_record (h : ∀ m ∈ members, ∀ j ∈ m.2, Readable j) :
    Readable (record members) := by
  refine readable_object fun m hm => ?_
  obtain ⟨source, hsource, heq⟩ := List.mem_filterMap.1 hm
  obtain ⟨j, hj, rfl⟩ := Option.map_eq_some_iff.1 heq
  exact h source hsource j hj

end Members

/-- What is written of a value is readable and is read as that value. -/
structure Stored {α : Type} (write : α → Json) (read : Json → Option α) : Prop where
  read (a : α) : read (write a) = some a
  readable (a : α) : Readable (write a)

section Values

variable {α : Type} {write : α → Json} {read : Json → Option α}

theorem stored_string : Stored ofString string? where
  read _ := rfl
  readable s := readable_string (some s)

theorem stored_bool : Stored Json.bool bool? where
  read _ := rfl
  readable := readable_bool

theorem stored_nat : Stored ofNat nat? where
  read n := by
    have hdigits : (Nat.toDigits 10 n).all Char.isDigit = true := List.all_eq_true.2 fun _ hd =>
      Nat.isDigit_of_mem_toDigits (by decide) (by decide) hd
    rw [ofNat, nat?, if_pos hdigits, Nat.ofDigitChars_toDigits (by decide) (by decide)]
  readable := readable_ofNat

theorem Stored.list (h : Stored write read) :
    Stored (fun l => .array (l.map write)) (list? read) where
  read l := by
    show (l.map write).mapM read = some l
    induction l with
    | nil => rfl
    | cons a l ih => simp [h.read, ih]
  readable l := by
    refine readable_array fun j hj => ?_
    obtain ⟨a, _, rfl⟩ := List.mem_map.1 hj
    exact h.readable a

theorem stored_choice {name : α → String} {values : List α}
    (h : ∀ a, (values.map fun a => (name a, a)).lookup (name a) = some a) :
    Stored (fun a => ofString (name a)) (choice? (values.map fun a => (name a, a))) where
  read := h
  readable a := readable_string (some (name a))

@[simp] theorem required_some (j : Json) : required read (some j) = read j := rfl

@[simp] theorem orDefault_some (a : α) (j : Json) : orDefault a read (some j) = read j := rfl

/-- A value that may be missing is written where it is there, and it is never written as null. -/
theorem Stored.optional (h : Stored write read) (hnull : ∀ a, write a ≠ .null) (a? : Option α) :
    orDefault none (nullable read) (a?.map write) = some a? := by
  cases a? with
  | none => rfl
  | some a =>
    show nullable read (write a) = _
    rw [nullable]
    · rw [h.read, Option.map_some]
    · exact hnull a

end Values

end BoardNets.Json
