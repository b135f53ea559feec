import BoardNets.Catalog.Linking
import BoardNets.Catalog.Specialisation
import BoardNets.Proofs.Sorted.Listing
import BoardNets.Proofs.Text.Natural
import BoardNets.Proofs.Traversal
import Mathlib.Data.List.Induction

/-! What specialisations answer. A fresh answer picks its pins by position, and fails only where a
type, a pin or a position is missing. Of the calls with one connectivity the first one that does not
fail settles the answer of all later ones, whatever generic interface they are about, so that a row
of calls is answered afresh exactly where calls with one connectivity agree. -/
namespace BoardNets

open Std

namespace Specialisation

structure Call where
  catalog : Catalog
  connectivity : Connectivity
  generic : Interface

def Call.fresh (s : Specialisation) (call : Call) : Except CatalogError Interface :=
  Specialisation.fresh s call.catalog call.connectivity call.generic

structure StablySorted (pins sorted : List Pin) : Prop where
  perm : sorted.Perm pins
  increasing : sorted.Pairwise fun p q => (Text.naturalOrder p.number q.number).isLE = true
  stable : ∀ number, sorted.filter (fun p => Text.naturalOrder p.number number = .eq) =
    pins.filter fun p => Text.naturalOrder p.number number = .eq

def IsAt (pins : List Pin) (position : Nat) (id : PinId) : Prop :=
  ∃ index p, position = index + 1 ∧ pins[index]? = some p ∧ p.id = id

/-- All that an answer is made of is there. -/
structure Applies (s : Specialisation) (call : Call) : Prop where
  type : ∃ t, call.catalog.interfaceType s.type = .ok t
  pins : ∀ id ∈ call.generic.assignedPins, ∃ p, call.connectivity.pin? id = some p
  positions : ∀ e ∈ s.positions.toList, ∀ position ∈ e.2,
    1 ≤ position ∧ position ≤ call.generic.assignedPins.length

/-- The interface that a call is about, with pins picked by their positions in its generic one. -/
structure Specialises (s : Specialisation) (call : Call) (i : Interface) : Prop where
  type : ∃ t, call.catalog.interfaceType s.type = .ok t ∧ i.type = t.id ∧
    i.function = t.function ∧ i.isRequired = t.canBeRequired
  name : i.name = s.name
  unsplit : i.parentType = none
  assignments : ∃ pins sorted,
    List.Forall₂ (fun id p => call.connectivity.pin? id = some p) call.generic.assignedPins pins ∧
    StablySorted pins sorted ∧
    List.Forall₂ (fun e a => a.interfacePin = e.1 ∧ List.Forall₂ (IsAt sorted) e.2 a.pins)
      s.positions.toList i.assignments

theorem stablySorted_mergeSort (pins : List Pin) : StablySorted pins
    (pins.mergeSort fun p q => (Text.naturalOrder p.number q.number).isLE) := by
  have htrans (p q r : Pin) : (Text.naturalOrder p.number q.number).isLE = true →
      (Text.naturalOrder q.number r.number).isLE = true →
        (Text.naturalOrder p.number r.number).isLE = true := TransCmp.isLE_trans
  have htotal (p q : Pin) : ((Text.naturalOrder p.number q.number).isLE ||
      (Text.naturalOrder q.number p.number).isLE) = true := isLE_total p.number q.number
  constructor
  case perm => exact List.mergeSort_perm pins _
  case increasing => exact List.pairwise_mergeSort htrans htotal pins
  case stable =>
    intro number
    rw [← mergeSort_filter htrans htotal]
    refine List.mergeSort_of_pairwise (List.pairwise_of_forall_mem_list fun p hp q hq => ?_)
    have hp := of_decide_eq_true (List.mem_filter.1 hp).2
    have hq := of_decide_eq_true (List.mem_filter.1 hq).2
    rw [TransCmp.eq_trans hp (OrientedCmp.eq_symm hq)]
    rfl

theorem pin_eq_ok {connectivity : Connectivity} {id : PinId} {p : Pin} :
    ((connectivity.pin? id).elim (throw (.unknownPin connectivity.name (toString id))) pure :
      Except CatalogError Pin) = .ok p ↔ connectivity.pin? id = some p := by
  cases connectivity.pin? id with
  | none => simp [throw_ne_ok]
  | some q => simp [pure_eq_ok]

theorem sortedPins_eq_ok {connectivity : Connectivity} {generic : Interface} {sorted : List Pin} :
    sortedPins connectivity generic = .ok sorted ↔ ∃ pins,
      List.Forall₂ (fun id p => connectivity.pin? id = some p) generic.assignedPins pins ∧
      pins.mergeSort (fun p q => (Text.naturalOrder p.number q.number).isLE) = sorted := by
  rw [sortedPins, bind_eq_ok]
  simp only [mapM_eq_ok_iff, pin_eq_ok, pure_eq_ok]

theorem length_sortedPins {connectivity : Connectivity} {generic : Interface} {sorted : List Pin}
    (h : sortedPins connectivity generic = .ok sorted) :
    sorted.length = generic.assignedPins.length := by
  obtain ⟨pins, hpins, rfl⟩ := sortedPins_eq_ok.1 h
  rw [List.length_mergeSort, hpins.length_eq]

theorem pick_eq_ok {connectivity : Connectivity} {pins : List Pin} {slot : InterfacePinId}
    {position : Nat} {id : PinId} :
    pick connectivity pins slot position = .ok id ↔ IsAt pins position id := by
  cases position with
  | zero => simp [pick, IsAt, throw_ne_ok]
  | succ index =>
    cases h : pins[index]? with
    | none => simp [pick, IsAt, h, throw_ne_ok]
    | some p => simp [pick, IsAt, h, pure_eq_ok]

theorem exists_isAt {pins : List Pin} {position : Nat} :
    (∃ id, IsAt pins position id) ↔ 1 ≤ position ∧ position ≤ pins.length := by
  constructor
  · rintro ⟨_, index, p, rfl, hp, _⟩
    obtain ⟨hindex, _⟩ := List.getElem?_eq_some_iff.1 hp
    omega
  · rintro ⟨hfirst, hlast⟩
    have hindex : position - 1 < pins.length := by omega
    exact ⟨_, position - 1, pins[position - 1], by omega, List.getElem?_eq_getElem hindex, rfl⟩

variable {s : Specialisation} {call : Call}

theorem fresh_eq_ok {i : Interface} : call.fresh s = .ok i ↔ ∃ t sorted assignments,
    call.catalog.interfaceType s.type = .ok t ∧
    sortedPins call.connectivity call.generic = .ok sorted ∧
    List.Forall₂ (fun e a => ∃ picked, List.Forall₂ (IsAt sorted) e.2 picked ∧
      { interfacePin := e.1, pins := picked } = a) s.positions.toList assignments ∧
    { type := t.id, name := s.name, function := t.function, isRequired := t.canBeRequired,
      assignments } = i := by
  rw [Call.fresh, Specialisation.fresh]
  simp only [bind_eq_ok, mapM_eq_ok_iff, pure_eq_ok, pick_eq_ok]
  constructor
  · rintro ⟨t, ht, sorted, hsorted, assignments, hassignments, rfl⟩
    exact ⟨t, sorted, assignments, ht, hsorted, hassignments, rfl⟩
  · rintro ⟨t, sorted, assignments, ht, hsorted, hassignments, rfl⟩
    exact ⟨t, ht, sorted, hsorted, assignments, hassignments, rfl⟩

theorem specialises_of_fresh {i : Interface} (h : call.fresh s = .ok i) : s.Specialises call i := by
  obtain ⟨t, sorted, assignments, ht, hsorted, hassignments, rfl⟩ := fresh_eq_ok.1 h
  obtain ⟨pins, hpins, rfl⟩ := sortedPins_eq_ok.1 hsorted
  constructor
  case type => exact ⟨t, ht, rfl, rfl, rfl⟩
  case name => rfl
  case unsplit => rfl
  case assignments =>
    refine ⟨pins, _, hpins, stablySorted_mergeSort pins, hassignments.imp ?_⟩
    rintro e _ ⟨picked, hpicked, rfl⟩
    exact ⟨rfl, hpicked⟩

theorem exists_fresh_iff : (∃ i, call.fresh s = .ok i) ↔ s.Applies call := by
  have hsorted : (∃ sorted, sortedPins call.connectivity call.generic = .ok sorted) ↔
      ∀ id ∈ call.generic.assignedPins, ∃ p, call.connectivity.pin? id = some p := by
    simp only [sortedPins_eq_ok, ← exists_forall₂_iff]
    exact ⟨fun ⟨_, pins, hpins, _⟩ => ⟨pins, hpins⟩, fun ⟨pins, hpins⟩ => ⟨_, pins, hpins, rfl⟩⟩
  have hpicked (sorted : List Pin) : (∃ assignments : List PinAssignment, List.Forall₂ (fun e a =>
      ∃ picked, List.Forall₂ (IsAt sorted) e.2 picked ∧
        { interfacePin := e.1, pins := picked } = a) s.positions.toList assignments) ↔
      ∀ e ∈ s.positions.toList, ∀ position ∈ e.2, 1 ≤ position ∧ position ≤ sorted.length := by
    refine exists_forall₂_iff.trans (forall₂_congr fun e _ => ?_)
    simp only [← exists_isAt, ← exists_forall₂_iff]
    exact ⟨fun ⟨_, picked, hpicked, _⟩ => ⟨picked, hpicked⟩,
      fun ⟨picked, hpicked⟩ => ⟨_, picked, hpicked, rfl⟩⟩
  constructor
  · rintro ⟨i, h⟩
    obtain ⟨t, sorted, assignments, ht, hpins, hassignments, _⟩ := fresh_eq_ok.1 h
    refine ⟨⟨t, ht⟩, hsorted.1 ⟨sorted, hpins⟩, ?_⟩
    rw [← length_sortedPins hpins]
    exact (hpicked sorted).1 ⟨assignments, hassignments⟩
  · rintro ⟨⟨t, ht⟩, hpins, hpositions⟩
    obtain ⟨sorted, hpins⟩ := hsorted.2 hpins
    rw [← length_sortedPins hpins] at hpositions
    obtain ⟨assignments, hassignments⟩ := (hpicked sorted).2 hpositions
    exact ⟨_, fresh_eq_ok.2 ⟨t, sorted, assignments, ht, hpins, hassignments, rfl⟩⟩

/-- What a call answers of what is remembered, and what is remembered then. -/
def Call.ask (s : Specialisation) (memo : Memo) (call : Call) :
    Except CatalogError (Nat × Interface) × Memo :=
  s.request call.catalog call.connectivity call.generic memo

def memoOf (s : Specialisation) (calls : List Call) : Memo :=
  calls.foldl (fun memo call => (call.ask s memo).2) {}

/-- The answer to a call that comes after others, without its number. -/
def answer (s : Specialisation) (before : List Call) (call : Call) :
    Except CatalogError Interface :=
  (call.ask s (s.memoOf before)).1.map Prod.snd

/-- The answer of the first of some calls of a connectivity that does not fail. -/
def settled (s : Specialisation) (calls : List Call) (id : ConnectivityId) : Option Interface :=
  calls.findSome? fun call => if call.connectivity.id = id then (call.fresh s).toOption else none

/-- Every call is answered as if it were the only one. -/
def Transparent (s : Specialisation) (calls : List Call) : Prop :=
  ∀ before call, before ++ [call] <+: calls → s.answer before call = call.fresh s

/-- A later call with the connectivity of an earlier one has the answer of that one, if it has. -/
def Agree (s : Specialisation) (a b : Call) : Prop :=
  a.connectivity.id = b.connectivity.id → ∀ i, a.fresh s = .ok i → b.fresh s = .ok i

theorem answer_ask (memo : Memo) : (call.ask s memo).1.map Prod.snd =
    ((memo.answers.find? call.connectivity.id).map Prod.snd).elim (call.fresh s) .ok := by
  rw [Call.ask, request]
  cases memo.answers.find? call.connectivity.id with
  | some answer => rfl
  | none =>
    change _ = call.fresh s
    rw [← Call.fresh]
    cases call.fresh s <;> rfl

/-- One call settles the answer of its connectivity, unless it is settled or the call fails. -/
theorem find?_ask (memo : Memo) (id : ConnectivityId) :
    ((call.ask s memo).2.answers.find? id).map Prod.snd =
      ((memo.answers.find? id).map Prod.snd).or
        (if call.connectivity.id = id then (call.fresh s).toOption else none) := by
  rw [Call.ask, request, ← Call.fresh]
  by_cases hid : call.connectivity.id = id
  · subst hid
    cases hfound : memo.answers.find? call.connectivity.id with
    | some answer => simp [hfound]
    | none => cases hfresh : call.fresh s <;> simp [hfound, Except.toOption]
  · cases hfound : memo.answers.find? call.connectivity.id with
    | some answer => simp [hid]
    | none => cases hfresh : call.fresh s <;> simp [hid, Ne.symm hid]

theorem settled_append (calls : List Call) (call : Call) (id : ConnectivityId) :
    s.settled (calls ++ [call]) id = (s.settled calls id).or
      (if call.connectivity.id = id then (call.fresh s).toOption else none) := by
  simp [settled, List.findSome?_append]

/-- What is remembered of a connectivity is what its calls settled. -/
theorem find?_memoOf (calls : List Call) (id : ConnectivityId) :
    ((s.memoOf calls).answers.find? id).map Prod.snd = s.settled calls id := by
  induction calls using List.reverseRecOn with
  | nil => rfl
  | append_singleton calls call ih =>
    rw [settled_append, ← ih, ← find?_ask, memoOf, memoOf, List.foldl_append]
    rfl

theorem answer_eq (before : List Call) (call : Call) : s.answer before call =
    (s.settled before call.connectivity.id).elim (call.fresh s) .ok := by
  rw [answer, answer_ask, find?_memoOf]

theorem exists_of_settled {calls : List Call} {id : ConnectivityId} {i : Interface}
    (h : s.settled calls id = some i) :
    ∃ a ∈ calls, a.connectivity.id = id ∧ a.fresh s = .ok i := by
  obtain ⟨a, ha, hi⟩ := List.exists_of_findSome?_eq_some h
  split at hi
  · rename_i hid
    cases hfresh : a.fresh s with
    | error e => simp [hfresh, Except.toOption] at hi
    | ok j =>
      obtain rfl : j = i := by simpa [hfresh, Except.toOption] using hi
      exact ⟨a, ha, hid, hfresh⟩
  · cases hi

theorem exists_settled {calls : List Call} {a : Call} {i : Interface} (ha : a ∈ calls)
    (hi : a.fresh s = .ok i) : ∃ j, s.settled calls a.connectivity.id = some j := by
  rw [← Option.ne_none_iff_exists']
  intro hnone
  have := List.findSome?_eq_none_iff.1 hnone a ha
  simp [hi, Except.toOption] at this

theorem transparent_append {calls : List Call} : s.Transparent (calls ++ [call]) ↔
    s.Transparent calls ∧ s.answer calls call = call.fresh s := by
  constructor
  · intro h
    exact ⟨fun before b hb => h before b (hb.trans (List.prefix_append calls [call])),
      h calls call (List.prefix_refl _)⟩
  · rintro ⟨hcalls, hlast⟩ before b hb
    rcases List.prefix_concat_iff.1 hb with heq | hb
    · obtain ⟨rfl, hsame⟩ := List.append_inj' heq rfl
      obtain rfl : b = call := by simpa using hsame
      exact hlast
    · exact hcalls before b hb

/-- Calls that agree settle one answer for each connectivity, and so a further call is answered
afresh exactly where it agrees with them. -/
theorem answer_eq_fresh_iff {calls : List Call} (h : calls.Pairwise s.Agree) :
    s.answer calls call = call.fresh s ↔ ∀ a ∈ calls, s.Agree a call := by
  -- Two successful calls agree in whichever order they came.
  have hsymm : Symm fun a b : Call => a.connectivity.id = b.connectivity.id →
      ∀ i j, a.fresh s = .ok i → b.fresh s = .ok j → i = j :=
    ⟨fun _ _ hone hid i j hi hj => (hone hid.symm j i hj hi).symm⟩
  have hone : ∀ a ∈ calls, ∀ b ∈ calls, a.connectivity.id = b.connectivity.id →
      ∀ i j, a.fresh s = .ok i → b.fresh s = .ok j → i = j := by
    refine List.Pairwise.forall_of_forall (fun _ _ _ _ _ hi hj => ?_)
      (h.imp fun hagree hid i _ hi hj => ?_)
    · exact Except.ok.inj (hi.symm.trans hj)
    · exact Except.ok.inj ((hagree hid i hi).symm.trans hj)
  rw [answer_eq]
  constructor
  · intro hanswer a ha hid i hi
    obtain ⟨j, hj⟩ := exists_settled ha hi
    obtain ⟨b, hb, hbid, hbj⟩ := exists_of_settled hj
    rw [← hid, hj, Option.elim_some] at hanswer
    rw [← hanswer, hone a ha b hb hbid.symm i j hi hbj]
  · intro hagree
    cases hsettled : s.settled calls call.connectivity.id with
    | none => rfl
    | some i =>
      obtain ⟨a, ha, hid, hi⟩ := exists_of_settled hsettled
      exact (hagree a ha hid i hi).symm

theorem transparent_iff {calls : List Call} : s.Transparent calls ↔ calls.Pairwise s.Agree := by
  -- From the last call back, for its answer depends on all calls before it.
  induction calls using List.reverseRecOn with
  | nil =>
    refine iff_of_true (fun before call h => ?_) .nil
    simp at h
  | append_singleton calls call ih =>
    rw [transparent_append, List.pairwise_append, ih]
    refine and_congr_right fun h => (answer_eq_fresh_iff h).trans ?_
    simp

/-- A fresh answer is made of the pins at the given positions, and fails only where something that
it is made of is missing. A call is answered as the first call with its connectivity that did not
fail, or afresh; so a row of calls is answered afresh exactly where calls with one connectivity
agree. -/
theorem answers_settled (s : Specialisation) :
    (∀ call, ((∃ i, call.fresh s = .ok i) ↔ s.Applies call) ∧
      ∀ i, call.fresh s = .ok i → s.Specialises call i) ∧
    (∀ before call, s.answer before call =
      (s.settled before call.connectivity.id).elim (call.fresh s) .ok) ∧
    ∀ calls, s.Transparent calls ↔ calls.Pairwise s.Agree :=
  ⟨fun _ => ⟨exists_fresh_iff, fun _ => specialises_of_fresh⟩, answer_eq, fun _ => transparent_iff⟩

namespace Specimen

def outputs : Snapshot where
  interfaceTypes := [{ id := ⟨⟨1⟩⟩, name := "output", label := "GPIO", canBeRequired := true }]
  interfacePins := [
    { id := ⟨⟨2⟩⟩, interfaceType := ⟨⟨1⟩⟩, reference := "IO", pinType := .digital }]

def chip : Connectivity where
  id := ⟨⟨3⟩⟩
  name := "CHIP"
  pins := [
    { id := ⟨⟨4⟩⟩, type := .digital, name := "PA9", number := "1" },
    { id := ⟨⟨5⟩⟩, type := .digital, name := "PB1", number := "2" }]

def port (pins : List PinId) : Interface where
  type := ⟨⟨1⟩⟩
  name := "PORT"
  assignments := [{ interfacePin := ⟨⟨2⟩⟩, pins }]

def lamp : Specialisation where
  type := ⟨⟨1⟩⟩
  name := "LED"
  positions := .ofList [(⟨⟨2⟩⟩, [1])]

end Specimen

/-- A port with another pin and a port with none get the pin of the first port. -/
theorem ports_share_answer : ∃ c, Catalog.ofSnapshot Specimen.outputs = .ok c ∧
    ∀ pins ∈ [[⟨⟨5⟩⟩], []], ¬Specimen.lamp.Transparent
      [⟨c, Specimen.chip, Specimen.port [⟨⟨4⟩⟩]⟩, ⟨c, Specimen.chip, Specimen.port pins⟩] := by
  have hlinked : ((Catalog.ofSnapshot Specimen.outputs).bind fun c => do
      let i ← Call.fresh Specimen.lamp ⟨c, Specimen.chip, Specimen.port [⟨⟨4⟩⟩]⟩
      if ∀ pins ∈ ([[⟨⟨5⟩⟩], []] : List (List PinId)),
        (Call.fresh Specimen.lamp ⟨c, Specimen.chip, Specimen.port pins⟩).toOption ≠ some i
      then pure i else throw .unavailable).isOk = true := by
    decide +kernel
  obtain ⟨_, h⟩ := isOk_iff.1 hlinked
  obtain ⟨c, hc, h⟩ := bind_eq_ok.1 h
  obtain ⟨i, hi, h⟩ := bind_eq_ok.1 h
  refine ⟨c, hc, fun pins hpins => ?_⟩
  rw [transparent_iff, List.pairwise_pair]
  intro hagree
  split at h
  · rename_i hother
    exact hother pins hpins (by rw [hagree rfl i hi]; rfl)
  · exact throw_ne_ok h

end Specialisation
end BoardNets
