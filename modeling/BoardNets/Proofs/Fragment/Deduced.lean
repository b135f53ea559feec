import BoardNets.Proofs.Circuit.Pinned
import BoardNets.Proofs.Fragment.Connections

/-! What deduction answers. However two interfaces are paired, each assignment of the source goes
with a list of assignments of the target that its slot decides; a pairing passes when there are such
assignments for every slot, and it connects the pins of those that go together. -/
namespace BoardNets

/-- The pins of an assignment on a component. -/
def PinAssignment.pinsOn (a : PinAssignment) (x : NodeId) : List ComponentPin := a.pins.map (⟨x, ·⟩)

/-- The uses that an interface makes of the pins of an assignment. -/
def PinAssignment.uses (a : PinAssignment) (i : InterfaceRef) (slot : InterfacePinId) :
    List PinUse :=
  a.pins.map fun pin => { pin := ⟨i.component, pin⟩, interfacePin := slot, interface := i }

theorem PinAssignment.exists_use {a : PinAssignment} {i : InterfaceRef} {slot : InterfacePinId}
    {p : ComponentPin} : (∃ u ∈ a.uses i slot, u.pin = p) ↔ p ∈ a.pinsOn i.component := by
  simp [uses, pinsOn]

theorem PinAssignment.use_eq {a : PinAssignment} {i : InterfaceRef} {slot : InterfacePinId}
    {u : PinUse} (h : u ∈ a.uses i slot) :
    u.interface = i ∧ u.interfacePin = slot ∧ u.pin.component = i.component := by
  obtain ⟨pin, _, rfl⟩ := List.mem_map.1 h
  exact ⟨rfl, rfl, rfl⟩

/-- The slot is known, and the other one is compatible with it. -/
def Catalog.pairs (catalog : Catalog) (slot other : InterfacePinId) : Bool :=
  (catalog.interfacePins.find? slot).any (·.isCompatibleWith other)

theorem Catalog.isCompatible_eq_ok {catalog : Catalog} {a b : InterfaceTypeId} {s t : InterfaceType}
    (hs : catalog.interfaceType a = .ok s) (ht : catalog.interfaceType b = .ok t) :
    catalog.isCompatible a b = .ok (s.isCompatible t) :=
  bind_eq_ok.2 ⟨s, hs, bind_eq_ok.2 ⟨t, ht, rfl⟩⟩

theorem InterfaceType.exists_firstPin {t : InterfaceType} :
    (∃ key, t.firstPin? = some key) ↔ t.pins ≠ [] := by
  rw [firstPin?]
  cases t.pins <;> simp

theorem Connections.mem_keys_add {c : Connections} {key k : InterfacePinId} {us : List PinUse} :
    k ∈ (c.add key us).keys ↔ k ∈ c.keys ∨ key = k := by
  rw [SortedMap.mem_keys_iff, SortedMap.mem_keys_iff, add, SortedMap.find?_update]
  by_cases h : k = key
  · simp [h]
  · simp [h, Ne.symm h]

namespace Circuit

def Places (c : Circuit) (placed : Fragment.Placed) : Prop :=
  ∃ x, c.interface? placed.1 = some x ∧ x.interface.assignments = placed.2

theorem Places.pinUses {c : Circuit} {placed : Fragment.Placed} (h : c.Places placed)
    (hc : c.Pinned) {a : PinAssignment} (ha : a ∈ placed.2) (slot : InterfacePinId) :
    c.pinUses placed.1 a slot = .ok (a.uses placed.1 slot) := by
  obtain ⟨x, hx, hassignments⟩ := h
  obtain ⟨p, hp, hxp⟩ := Option.bind_eq_some_iff.1 hx
  refine mapM_eq_map fun pin hpin => ?_
  obtain ⟨o, ho⟩ := Option.isSome_iff_exists.1
    (hc _ p hp x (List.mem_of_getElem? hxp) a (hassignments ▸ ha) pin hpin)
  have hpin : c.pin ⟨placed.1.component, pin⟩ = .ok o :=
    bind_eq_ok.2 ⟨p, component_eq_ok.2 hp, elim_throw_eq_ok.2 ho⟩
  exact bind_eq_ok.2 ⟨_, bind_eq_ok.2 ⟨o, hpin, rfl⟩, rfl⟩

end Circuit

namespace Pairing

section

variable (source target : InterfaceRef) (partners : InterfacePinId → List PinAssignment)

/-- One more assignment of the source, with those that go with its slot. -/
def extend (p : Pairing) (a : PinAssignment) : Pairing :=
  let key := a.interfacePin
  { source := p.source.add key (a.uses source key)
    target :=
      if (partners key).isEmpty then p.target
      else p.target.add key ((partners key).map fun b => b.uses target b.interfacePin).flatten }

/-- Assignments of the source, each with those that go with its slot. -/
def bySlots (assignments : List PinAssignment) : Pairing :=
  assignments.foldl (extend source target partners) {}

end

variable {source target : InterfaceRef} {partners : InterfacePinId → List PinAssignment}
  {assignments : List PinAssignment} {k : InterfacePinId} {u : PinUse}

theorem mem_keys_source_bySlots :
    k ∈ (bySlots source target partners assignments).source.keys ↔
      ∃ a ∈ assignments, a.interfacePin = k := by
  refine (foldl_gathers (M := fun p : Pairing => k ∈ p.source.keys)
    (C := fun a => a.interfacePin = k) fun p a => Connections.mem_keys_add).trans ?_
  exact or_iff_right List.not_mem_nil

theorem mem_keys_target_bySlots :
    k ∈ (bySlots source target partners assignments).target.keys ↔
      ∃ a ∈ assignments, a.interfacePin = k ∧ partners k ≠ [] := by
  refine (foldl_gathers (M := fun p : Pairing => k ∈ p.target.keys)
    (C := fun a => a.interfacePin = k ∧ partners k ≠ []) fun p a => ?_).trans ?_
  · dsimp only [extend]
    split
    · rename_i hnone
      refine (or_iff_left ?_).symm
      rintro ⟨rfl, hne⟩
      exact hne (List.isEmpty_iff.1 hnone)
    · rename_i hsome
      refine Connections.mem_keys_add.trans (or_congr Iff.rfl ⟨?_, And.left⟩)
      rintro rfl
      exact ⟨rfl, fun h => hsome (List.isEmpty_iff.2 h)⟩
  · exact or_iff_right List.not_mem_nil

theorem mem_under_source_bySlots :
    u ∈ (bySlots source target partners assignments).source.under k ↔
      ∃ a ∈ assignments, a.interfacePin = k ∧ u ∈ a.uses source k := by
  refine (foldl_gathers (M := fun p : Pairing => u ∈ p.source.under k)
    (C := fun a => a.interfacePin = k ∧ u ∈ a.uses source k) fun p a => ?_).trans ?_
  · dsimp only [extend]
    rw [Connections.under_add]
    by_cases h : k = a.interfacePin
    · simp [h]
    · simp [h, Ne.symm h]
  · exact or_iff_right List.not_mem_nil

theorem mem_under_target_bySlots :
    u ∈ (bySlots source target partners assignments).target.under k ↔
      ∃ a ∈ assignments, a.interfacePin = k ∧
        ∃ b ∈ partners k, u ∈ b.uses target b.interfacePin := by
  refine (foldl_gathers (M := fun p : Pairing => u ∈ p.target.under k)
    (C := fun a => a.interfacePin = k ∧ ∃ b ∈ partners k, u ∈ b.uses target b.interfacePin)
    fun p a => ?_).trans ?_
  · dsimp only [extend]
    split
    · rename_i hnone
      refine (or_iff_left ?_).symm
      rintro ⟨rfl, b, hb, _⟩
      rw [List.isEmpty_iff.1 hnone] at hb
      cases hb
    · rw [Connections.under_add]
      by_cases h : k = a.interfacePin
      · simp [h]
      · simp [h, Ne.symm h]
  · exact or_iff_right List.not_mem_nil

/-- Both sides have the same slots, and at least one. -/
def Passes (p : Pairing) : Prop := p.source.keys = p.target.keys ∧ p.source.keys ≠ []

theorem bySlots_passes : (bySlots source target partners assignments).Passes ↔
    assignments ≠ [] ∧ ∀ a ∈ assignments, partners a.interfacePin ≠ [] := by
  rw [Passes, SortedMap.keys_eq_iff, and_comm]
  refine and_congr ?_ ?_
  · simp only [ne_eq, List.eq_nil_iff_forall_not_mem, mem_keys_source_bySlots]
    refine not_congr ⟨fun h a ha => h a.interfacePin ⟨a, ha, rfl⟩, ?_⟩
    rintro h k ⟨a, ha, _⟩
    exact h a ha
  · simp only [mem_keys_source_bySlots, mem_keys_target_bySlots]
    constructor
    · intro h a ha
      obtain ⟨_, _, _, hne⟩ := (h a.interfacePin).1 ⟨a, ha, rfl⟩
      exact hne
    · rintro h k
      refine exists_congr fun a => and_congr_right fun ha => ⟨?_, And.left⟩
      rintro rfl
      exact ⟨rfl, h a ha⟩

/-- One assignment of the source wired to one of the target. -/
def through (source target : InterfaceRef) (fromKey toKey : InterfacePinId)
    (a b : PinAssignment) : Pairing where
  source := (∅ : Connections).insert fromKey (a.uses source fromKey)
  target := (∅ : Connections).insert fromKey (b.uses target toKey)

theorem through_passes (source target : InterfaceRef) (fromKey toKey : InterfacePinId)
    (a b : PinAssignment) : (through source target fromKey toKey a b).Passes :=
  ⟨rfl, List.cons_ne_nil _ _⟩

end Pairing

namespace Fragment

variable {f : Fragment} {c : Circuit}

/-- The fragment's connections pair the two pins. -/
def Connects (f : Fragment) (p q : ComponentPin) : Prop := q ∈ (f.connections.find? p).getD ∅

theorem holding_pairs {p : Pairing} {u v : PinUse} : (f.bare.holding p).Pairs u v ↔
    ∃ k, u ∈ p.source.under k ∧ v ∈ p.target.under k := by
  have hsource : (f.bare.holding p).source.connections = p.source := SortedMap.empty_insertAll _
  have htarget : (f.bare.holding p).target.connections = p.target := SortedMap.empty_insertAll _
  rw [Pairs, hsource, htarget]

theorem bySlots_connects {source target : InterfaceRef}
    {partners : InterfacePinId → List PinAssignment} {assignments : List PinAssignment}
    {x y : ComponentPin} :
    (f.bare.holding (Pairing.bySlots source target partners assignments)).Connects x y ↔
      ∃ a ∈ assignments, ∃ b ∈ partners a.interfacePin,
        x ∈ a.pinsOn source.component ∧ y ∈ b.pinsOn target.component := by
  rw [Connects, mem_connections]
  simp only [holding_pairs, Pairing.mem_under_source_bySlots, Pairing.mem_under_target_bySlots]
  constructor
  · rintro ⟨u, v, ⟨_, ⟨a, ha, rfl, hu⟩, _, _, _, b, hb, hv⟩, hx, hy⟩
    exact ⟨a, ha, b, hb, PinAssignment.exists_use.1 ⟨u, hu, hx⟩,
      PinAssignment.exists_use.1 ⟨v, hv, hy⟩⟩
  · rintro ⟨a, ha, b, hb, hx, hy⟩
    obtain ⟨u, hu, hux⟩ := PinAssignment.exists_use.2 hx
    obtain ⟨v, hv, hvy⟩ := PinAssignment.exists_use.2 hy
    exact ⟨u, v, ⟨a.interfacePin, ⟨a, ha, rfl, hu⟩, a, ha, rfl, b, hb, hv⟩, hux, hvy⟩

theorem through_pairs {source target : InterfaceRef} {fromKey toKey : InterfacePinId}
    {a b : PinAssignment} {u v : PinUse} :
    (f.bare.holding (Pairing.through source target fromKey toKey a b)).Pairs u v ↔
      u ∈ a.uses source fromKey ∧ v ∈ b.uses target toKey := by
  have hunder (us : List PinUse) (k : InterfacePinId) :
      Connections.under ((∅ : Connections).insert fromKey us) k =
        if k = fromKey then us else [] := by
    rw [Connections.under, SortedMap.find?_insert]
    split <;> rfl
  rw [holding_pairs]
  simp only [Pairing.through, hunder]
  constructor
  · rintro ⟨k, hu, hv⟩
    by_cases hk : k = fromKey
    · rw [if_pos hk] at hu hv
      exact ⟨hu, hv⟩
    · rw [if_neg hk] at hu
      cases hu
  · intro h
    exact ⟨fromKey, by simpa only [if_true] using h⟩

/-- Straight through, every pin of the one is connected with every pin of the other. -/
theorem through_connects {source target : InterfaceRef} {fromKey toKey : InterfacePinId}
    {a b : PinAssignment} {x y : ComponentPin} :
    (f.bare.holding (Pairing.through source target fromKey toKey a b)).Connects x y ↔
      x ∈ a.pinsOn source.component ∧ y ∈ b.pinsOn target.component := by
  rw [Connects, mem_connections]
  simp only [through_pairs]
  constructor
  · rintro ⟨u, v, ⟨hu, hv⟩, hx, hy⟩
    exact ⟨PinAssignment.exists_use.1 ⟨u, hu, hx⟩, PinAssignment.exists_use.1 ⟨v, hv, hy⟩⟩
  · rintro ⟨hx, hy⟩
    obtain ⟨u, hu, hux⟩ := PinAssignment.exists_use.2 hx
    obtain ⟨v, hv, hvy⟩ := PinAssignment.exists_use.2 hy
    exact ⟨u, v, ⟨hu, hv⟩, hux, hvy⟩

theorem checkPairing_eq_ok {p : Pairing} : f.checkPairing c p = .ok () ↔ p.Passes := by
  refine ⟨fun h => ⟨keys_of_checkPairing h, ?_⟩, ?_⟩
  · rw [Ne, SortedMap.keys_eq_nil]
    exact (ne_empty_of_checkPairing h).1
  · rintro ⟨hkeys, hne⟩
    have hsome : ¬(p.source.isEmpty = true ∧ p.target.isEmpty = true) := fun h =>
      hne (SortedMap.keys_eq_nil.2 (SortedMap.eq_empty_of_isEmpty h.1))
    rw [checkPairing, if_neg hsome, if_pos hkeys]
    rfl

/-- Where no slot is assigned twice, an assignment is found by its slot. -/
theorem find?_slot_eq_some {assignments : List PinAssignment}
    (h : (assignments.map PinAssignment.interfacePin).Nodup) {key : InterfacePinId}
    {b : PinAssignment} : assignments.find? (fun b => b.interfacePin = key) = some b ↔
      b ∈ assignments ∧ b.interfacePin = key := by
  constructor
  · intro hb
    exact ⟨List.mem_of_find?_eq_some hb, by simpa using List.find?_some hb⟩
  · rintro ⟨hb, rfl⟩
    cases hfind : assignments.find? fun b' => b'.interfacePin = b.interfacePin with
    | none => simpa using List.find?_eq_none.1 hfind b hb
    | some b' =>
      have hslot : b'.interfacePin = b.interfacePin := by simpa using List.find?_some hfind
      rw [List.inj_on_of_nodup_map h (List.mem_of_find?_eq_some hfind) hb hslot]

/-- The end of a fragment, where its interface is found. -/
structure Finds (f : Fragment) (c : Circuit) (side : Side) (type : InterfaceType)
    (placed : Placed) : Prop where
  component : (c.component? (f.endpoint side).node).isSome
  determined : f.interfaceType c side = .ok type.id
  known : c.catalog.interfaceType type.id = .ok type
  found : f.interface c side = .ok (some placed.1)
  places : c.Places placed
  slots : ∀ a ∈ placed.2, ∃ slot, c.catalog.interfacePin a.interfacePin = .ok slot

theorem Finds.named {side : Side} {type : InterfaceType} {placed : Placed}
    (h : f.Finds c side type placed) : ∃ name, (f.endpoint side).interface = some name ∧
      c.interfaceNamed? (f.endpoint side).node name type.id = .ok (some placed.1) := by
  have hfound := h.found
  rw [Fragment.interface] at hfound
  split at hfound
  · cases pure_eq_ok.1 hfound
  · rename_i name hname
    rw [h.determined] at hfound
    exact ⟨name, hname, hfound⟩

section

variable {S T : InterfaceType} {source target : Placed}
  (hsource : f.Finds c .source S source) (htarget : f.Finds c .target T target)
include hsource htarget

theorem deduce_eq_wire {id : Uuid} (horigin : f.origin = .persisted id) :
    f.deduce c f.source.node = f.wire c S.id T.id source.1 target.1 := by
  obtain ⟨sourceName, hsourceName, hsourceNamed⟩ := hsource.named
  obtain ⟨targetName, htargetName, htargetNamed⟩ := htarget.named
  obtain ⟨p, hp⟩ := Option.isSome_iff_exists.1 htarget.component
  dsimp only [endpoint] at hsourceName hsourceNamed htargetName htargetNamed hp
  have hsourceType : f.sourceType c = .ok S.id := hsource.determined
  have htargetType : f.targetType c = .ok T.id := htarget.determined
  have hcomponent : f.targetComponent? c = .ok (some f.target.node) :=
    bind_eq_ok.2 ⟨_, Circuit.node_eq_ok.2 (Circuit.component?_eq_some.1 hp), rfl⟩
  rw [deduce, horigin, hsourceType, htargetType, hcomponent]
  change f.deduceNamed c S.id T.id f.source.node f.target.node = _
  rw [deduceNamed, hsourceName, htargetName]
  dsimp only
  rw [hsourceNamed, htargetNamed]
  rfl

omit hsource htarget in
theorem wire_ne_deferred {i j : InterfaceRef} {why : Deferral} :
    f.wire c S.id T.id i j ≠ .ok (.deferred why) := by
  intro h
  obtain ⟨_, _, h⟩ := bind_eq_ok.1 h
  obtain ⟨_, _, h⟩ := bind_eq_ok.1 h
  obtain ⟨_, _, h⟩ := bind_eq_ok.1 h
  obtain ⟨⟨⟩, _, h⟩ := bind_eq_ok.1 h
  cases pure_eq_ok.1 h

/-- What deduction resolves is what a pairing that passes makes of the two interfaces. -/
theorem resolved_iff {id : Uuid} (horigin : f.origin = .persisted id) {w : Wiring} :
    f.deduce c f.source.node = .ok (.resolved w) ↔
      ∃ p, f.pair c S.id T.id source target = .ok p ∧ p.Passes ∧ w = ⟨source.1, target.1, p⟩ := by
  obtain ⟨x, hx, hsourceAssignments⟩ := hsource.places
  obtain ⟨y, hy, htargetAssignments⟩ := htarget.places
  rw [deduce_eq_wire hsource htarget horigin, wire, Circuit.interface_eq_ok.2 hx,
    Circuit.interface_eq_ok.2 hy]
  change (f.pair c S.id T.id (source.1, x.interface.assignments)
    (target.1, y.interface.assignments) >>= _) = _ ↔ _
  rw [hsourceAssignments, htargetAssignments, bind_eq_ok]
  refine exists_congr fun p => and_congr_right fun _ => ?_
  rw [bind_eq_ok]
  constructor
  · rintro ⟨⟨⟩, hcheck, h⟩
    have h := pure_eq_ok.1 h
    cases h
    exact ⟨checkPairing_eq_ok.1 hcheck, rfl⟩
  · rintro ⟨hpasses, rfl⟩
    exact ⟨(), checkPairing_eq_ok.2 hpasses, rfl⟩

end

section

variable {S T : InterfaceType} {source target : Placed} (hc : c.Pinned)
  (hsource : f.Finds c .source S source) (htarget : f.Finds c .target T target)
include hc hsource htarget

theorem pairCompatible_eq {a : PinAssignment} (ha : a ∈ source.2) (p : Pairing) :
    pairCompatible c source target p a = .ok (p.extend source.1 target.1
      (fun key => target.2.filter fun b => c.catalog.pairs key b.interfacePin) a) := by
  obtain ⟨slot, hslot⟩ := hsource.slots a ha
  have hpartners : (target.2.filter fun b => c.catalog.pairs a.interfacePin b.interfacePin) =
      target.2.filter fun b => slot.isCompatibleWith b.interfacePin := by
    simp only [Catalog.pairs, Catalog.interfacePin_eq_ok.1 hslot, Option.any_some]
  refine bind_eq_ok.2 ⟨slot, Circuit.lift_eq_ok.2 hslot, bind_eq_ok.2 ⟨_,
    hsource.places.pinUses hc ha _, bind_eq_ok.2 ⟨_, mapM_eq_map fun b hb =>
      htarget.places.pinUses hc (List.mem_of_mem_filter hb) b.interfacePin, ?_⟩⟩⟩
  rw [pure_eq_ok, Pairing.extend, hpartners]

theorem pairEqual_eq {a b : PinAssignment} (ha : a ∈ source.2)
    (hb : target.2.find? (fun b => b.interfacePin = a.interfacePin) = some b) (p : Pairing) :
    f.pairEqual c source target p a = .ok (p.extend source.1 target.1
      (fun key => (target.2.find? fun b => b.interfacePin = key).toList) a) := by
  have hkey : b.interfacePin = a.interfacePin := by simpa using List.find?_some hb
  rw [pairEqual, hb]
  refine bind_eq_ok.2 ⟨_, hsource.places.pinUses hc ha _, bind_eq_ok.2 ⟨_,
    htarget.places.pinUses hc (List.mem_of_find?_eq_some hb) _, ?_⟩⟩
  rw [pure_eq_ok, Pairing.extend]
  simp [hb, hkey]

theorem pair_compatible (h : S.isCompatible T = true) :
    f.pair c S.id T.id source target = .ok (Pairing.bySlots source.1 target.1
      (fun key => target.2.filter fun b => c.catalog.pairs key b.interfacePin) source.2) := by
  refine bind_eq_ok.2 ⟨_, Circuit.lift_eq_ok.2
    (Catalog.isCompatible_eq_ok hsource.known htarget.known), ?_⟩
  rw [if_pos h]
  exact foldlM_eq_foldl fun p a ha => pairCompatible_eq hc hsource htarget ha p

/-- Equal types pair where the target has the slots of the source, and fail elsewhere. -/
theorem pair_equal (hnot : S.isCompatible T = false) (hsame : S.id = T.id) {p : Pairing} :
    f.pair c S.id T.id source target = .ok p ↔
      (∀ a ∈ source.2, (target.2.find? fun b => b.interfacePin = a.interfacePin).toList ≠ []) ∧
        p = Pairing.bySlots source.1 target.1
          (fun key => (target.2.find? fun b => b.interfacePin = key).toList) source.2 := by
  have hcompatible := Circuit.lift_eq_ok.2
    (Catalog.isCompatible_eq_ok hsource.known htarget.known)
  have hfold : f.pair c S.id T.id source target =
      source.2.foldlM (f.pairEqual c source target) {} := by
    rw [pair, hcompatible]
    change (if S.isCompatible T = true then _ else _) = _
    rw [hnot, if_neg Bool.false_ne_true, if_pos hsame]
  rw [hfold]
  constructor
  · intro h
    have hall : ∀ a ∈ source.2,
        ∃ b, target.2.find? (fun b => b.interfacePin = a.interfacePin) = some b := by
      intro a ha
      obtain ⟨q, r, hstep⟩ := foldlM_each h a ha
      rw [pairEqual] at hstep
      split at hstep
      · exact absurd hstep throw_ne_ok
      · rename_i b hb
        exact ⟨b, hb⟩
    have hpaired := foldlM_eq_foldl (s := {}) fun p a ha =>
      (hall a ha).elim fun b hb => f.pairEqual_eq hc hsource htarget ha hb p
    refine ⟨fun a ha => ?_, Except.ok.inj (h.symm.trans hpaired)⟩
    obtain ⟨b, hb⟩ := hall a ha
    simp [hb]
  · rintro ⟨hall, rfl⟩
    refine foldlM_eq_foldl fun p a ha => ?_
    cases hb : target.2.find? fun b => b.interfacePin = a.interfacePin with
    | none => exact absurd (by rw [hb]; rfl) (hall a ha)
    | some b => exact pairEqual_eq hc hsource htarget ha hb p

/-- Types that are neither pair where two single assignments are equally wide. -/
theorem pair_single (hnot : S.isCompatible T = false) (hother : S.id ≠ T.id) {p : Pairing} :
    (f.pair c S.id T.id source target = .ok p ∧ p.Passes) ↔ ∃ a b fromKey toKey,
      source.2 = [a] ∧ target.2 = [b] ∧ a.pins.length = b.pins.length ∧
        S.firstPin? = some fromKey ∧ T.firstPin? = some toKey ∧
          p = Pairing.through source.1 target.1 fromKey toKey a b := by
  have hcompatible := Circuit.lift_eq_ok.2
    (Catalog.isCompatible_eq_ok hsource.known htarget.known)
  have hsingle : f.pair c S.id T.id source target = pairSingle c S.id T.id source target := by
    rw [pair, hcompatible]
    change (if S.isCompatible T = true then _ else _) = _
    rw [hnot, if_neg Bool.false_ne_true, if_neg hother]
  have hnothing : ¬Pairing.Passes {} := fun h => h.2 rfl
  rw [hsingle]
  constructor
  · rintro ⟨h, hpasses⟩
    rw [pairSingle] at h
    split at h
    · rename_i a b ha hb
      split at h
      · rename_i hwidth
        obtain ⟨fromType, hfrom, h⟩ := bind_eq_ok.1 h
        obtain ⟨toType, hto, h⟩ := bind_eq_ok.1 h
        obtain rfl := Except.ok.inj (hsource.known.symm.trans (Circuit.lift_eq_ok.1 hfrom))
        obtain rfl := Except.ok.inj (htarget.known.symm.trans (Circuit.lift_eq_ok.1 hto))
        split at h
        · rename_i fromKey toKey hfromKey htoKey
          rw [hsource.places.pinUses hc (ha ▸ List.mem_singleton_self a) fromKey,
            htarget.places.pinUses hc (hb ▸ List.mem_singleton_self b) toKey] at h
          exact ⟨a, b, fromKey, toKey, ha, hb, hwidth, hfromKey, htoKey, (pure_eq_ok.1 h).symm⟩
        · exact absurd (pure_eq_ok.1 h ▸ hpasses) hnothing
      · exact absurd (pure_eq_ok.1 h ▸ hpasses) hnothing
    · exact absurd (pure_eq_ok.1 h ▸ hpasses) hnothing
  · rintro ⟨a, b, fromKey, toKey, ha, hb, hwidth, hfromKey, htoKey, rfl⟩
    refine ⟨?_, Pairing.through_passes _ _ _ _ _ _⟩
    rw [pairSingle, ha, hb]
    dsimp only
    rw [if_pos hwidth]
    refine bind_eq_ok.2 ⟨S, Circuit.lift_eq_ok.2 hsource.known,
      bind_eq_ok.2 ⟨T, Circuit.lift_eq_ok.2 htarget.known, ?_⟩⟩
    rw [hfromKey, htoKey]
    dsimp only
    rw [hsource.places.pinUses hc (ha ▸ List.mem_singleton_self a) fromKey,
      htarget.places.pinUses hc (hb ▸ List.mem_singleton_self b) toKey]
    rfl

end

/-- Deduction answers with a wiring. -/
def Resolves (f : Fragment) (c : Circuit) (w : Wiring) : Prop :=
  f.deduce c f.source.node = .ok (.resolved w)

section

variable {id : Uuid} {S T : InterfaceType} {source target : Placed} (hc : c.Pinned)
  (horigin : f.origin = .persisted id) (hsource : f.Finds c .source S source)
  (htarget : f.Finds c .target T target)
include hc horigin hsource htarget

theorem resolves_compatible (h : S.isCompatible T = true) :
    ((∃ w, f.Resolves c w) ↔ source.2 ≠ [] ∧ ∀ a ∈ source.2, ∃ b ∈ target.2,
      c.catalog.pairs a.interfacePin b.interfacePin = true) ∧
    ∀ w, f.Resolves c w → ∀ p q, (f.bare.holding w.pairing).Connects p q ↔
      ∃ a ∈ source.2, ∃ b ∈ target.2, c.catalog.pairs a.interfacePin b.interfacePin = true ∧
        p ∈ a.pinsOn source.1.component ∧ q ∈ b.pinsOn target.1.component := by
  simp only [Resolves, resolved_iff hsource htarget horigin,
    pair_compatible hc hsource htarget h, Except.ok.injEq, exists_eq_left']
  constructor
  · simp [Pairing.bySlots_passes, List.filter_eq_nil_iff]
  · rintro _ ⟨_, rfl⟩ p q
    rw [bySlots_connects]
    simp only [List.mem_filter, and_assoc]

theorem resolves_equal (hnot : S.isCompatible T = false) (hsame : S.id = T.id) :
    ((∃ w, f.Resolves c w) ↔ source.2 ≠ [] ∧ ∀ a ∈ source.2, ∃ b ∈ target.2,
      b.interfacePin = a.interfacePin) ∧
    ((target.2.map PinAssignment.interfacePin).Nodup →
      ∀ w, f.Resolves c w → ∀ p q, (f.bare.holding w.pairing).Connects p q ↔
        ∃ a ∈ source.2, ∃ b ∈ target.2, b.interfacePin = a.interfacePin ∧
          p ∈ a.pinsOn source.1.component ∧ q ∈ b.pinsOn target.1.component) := by
  simp only [Resolves, resolved_iff hsource htarget horigin,
    pair_equal hc hsource htarget hnot hsame]
  constructor
  · have hassigned (key : InterfacePinId) :
        (target.2.find? fun b => b.interfacePin = key).toList ≠ [] ↔
          ∃ b ∈ target.2, b.interfacePin = key := by simp
    simp only [hassigned]
    constructor
    · rintro ⟨_, _, ⟨hall, rfl⟩, hpasses, _⟩
      exact ⟨(Pairing.bySlots_passes.1 hpasses).1, hall⟩
    · rintro ⟨hne, hall⟩
      exact ⟨_, _, ⟨hall, rfl⟩,
        Pairing.bySlots_passes.2 ⟨hne, fun a ha => (hassigned _).2 (hall a ha)⟩, rfl⟩
  · rintro hnodup _ ⟨_, ⟨_, rfl⟩, _, rfl⟩ p q
    rw [bySlots_connects]
    simp only [Option.mem_toList, find?_slot_eq_some hnodup, and_assoc]

theorem resolves_single (hnot : S.isCompatible T = false) (hother : S.id ≠ T.id) :
    (∃ w, f.Resolves c w) ↔ ∃ a b, source.2 = [a] ∧ target.2 = [b] ∧
      a.pins.length = b.pins.length ∧ S.pins ≠ [] ∧ T.pins ≠ [] := by
  constructor
  · rintro ⟨w, hw⟩
    obtain ⟨p, hp, hpasses, -⟩ := (resolved_iff hsource htarget horigin).1 hw
    obtain ⟨a, b, fromKey, toKey, ha, hb, hwidth, hfromKey, htoKey, -⟩ :=
      (pair_single hc hsource htarget hnot hother).1 ⟨hp, hpasses⟩
    exact ⟨a, b, ha, hb, hwidth, InterfaceType.exists_firstPin.1 ⟨fromKey, hfromKey⟩,
      InterfaceType.exists_firstPin.1 ⟨toKey, htoKey⟩⟩
  · rintro ⟨a, b, ha, hb, hwidth, hS, hT⟩
    obtain ⟨fromKey, hfromKey⟩ := InterfaceType.exists_firstPin.2 hS
    obtain ⟨toKey, htoKey⟩ := InterfaceType.exists_firstPin.2 hT
    obtain ⟨hp, hpasses⟩ := (pair_single hc hsource htarget hnot hother).2
      ⟨a, b, fromKey, toKey, ha, hb, hwidth, hfromKey, htoKey, rfl⟩
    exact ⟨_, (resolved_iff hsource htarget horigin).2 ⟨_, hp, hpasses, rfl⟩⟩

end

/-- Deduction told in full, over a linked catalog, for any fragment between two interfaces that are
there. -/
theorem deduction_exact {s : Snapshot} {id : Uuid} {S T : InterfaceType} {source target : Placed}
    (hc : c.Reachable) (hcatalog : Catalog.ofSnapshot s = .ok c.catalog)
    (horigin : f.origin = .persisted id) (hsource : f.Finds c .source S source)
    (htarget : f.Finds c .target T target) :
    (S.isCompatible T = true →
      ((∃ w, f.Resolves c w) ↔ source.2 ≠ [] ∧ ∀ a ∈ source.2, ∃ b ∈ target.2,
        c.catalog.pairs a.interfacePin b.interfacePin = true) ∧
      ∀ w, f.Resolves c w → ∀ p q, (f.bare.holding w.pairing).Connects p q ↔
        ∃ a ∈ source.2, ∃ b ∈ target.2, c.catalog.pairs a.interfacePin b.interfacePin = true ∧
          p ∈ a.pinsOn source.1.component ∧ q ∈ b.pinsOn target.1.component) ∧
    (S.isCompatible T = false → S.id = T.id →
      ((∃ w, f.Resolves c w) ↔ source.2 ≠ [] ∧ ∀ a ∈ source.2, ∃ b ∈ target.2,
        b.interfacePin = a.interfacePin) ∧
      ((target.2.map PinAssignment.interfacePin).Nodup →
        ∀ w, f.Resolves c w → ∀ p q, (f.bare.holding w.pairing).Connects p q ↔
          ∃ a ∈ source.2, ∃ b ∈ target.2, b.interfacePin = a.interfacePin ∧
            p ∈ a.pinsOn source.1.component ∧ q ∈ b.pinsOn target.1.component)) ∧
    (S.isCompatible T = false → S.id ≠ T.id →
      ((∃ w, f.Resolves c w) ↔ ∃ a b, source.2 = [a] ∧ target.2 = [b] ∧
        a.pins.length = b.pins.length ∧ S.pins ≠ [] ∧ T.pins ≠ [])) ∧
    (∀ w, f.Resolves c w → w.pairing.Passes) ∧
    ((¬∃ w, f.Resolves c w) → ∃ e, f.deduce c f.source.node = .error e) := by
  have hpinned := hc.pinned (Catalog.linked_ofSnapshot hcatalog).resolved
  refine ⟨resolves_compatible hpinned horigin hsource htarget,
    resolves_equal hpinned horigin hsource htarget, resolves_single hpinned horigin hsource htarget,
    fun w hw => ?_, fun hnone => ?_⟩
  · obtain ⟨_, _, hpasses, rfl⟩ := (resolved_iff hsource htarget horigin).1 hw
    exact hpasses
  · cases hanswer : f.deduce c f.source.node with
    | error e => exact ⟨e, rfl⟩
    | ok answer =>
      cases answer with
      | resolved w => exact absurd ⟨w, hanswer⟩ hnone
      | deferred why =>
        rw [deduce_eq_wire hsource htarget horigin] at hanswer
        exact absurd hanswer wire_ne_deferred

end Fragment

namespace Specimen

def lines (type : InterfaceTypeId) (name : String) (slot : InterfacePinId) : Interface where
  type := type
  name := name
  assignments := [{ interfacePin := slot, pins := [⟨⟨9⟩⟩, ⟨⟨10⟩⟩] }]

def twoLines (id : ConnectivityId) (name : String) (interfaces : List Interface) :
    Connectivity where
  id := id
  name := name
  pins := [{ id := ⟨⟨9⟩⟩, type := .digital, name := "A", number := "1" },
    { id := ⟨⟨10⟩⟩, type := .digital, name := "B", number := "2" }]
  interfaces := interfaces

/-- Outputs are compatible with inputs. With terminals only their slots are. -/
def wires : Snapshot where
  families := [{ id := ⟨⟨11⟩⟩, name := "wires", label := "W" }]
  interfaceTypes := [
    { id := ⟨⟨1⟩⟩, name := "output", label := "output", family := some ⟨⟨11⟩⟩,
      canBeRequired := true, compatibleTypes := [⟨⟨2⟩⟩] },
    { id := ⟨⟨2⟩⟩, name := "input", label := "input", family := some ⟨⟨11⟩⟩ },
    { id := ⟨⟨3⟩⟩, name := "terminal", label := "terminal", family := some ⟨⟨11⟩⟩ }]
  interfacePins := [
    { id := ⟨⟨4⟩⟩, interfaceType := ⟨⟨1⟩⟩, reference := "OUT", pinType := .digital,
      compatiblePins := [⟨⟨5⟩⟩, ⟨⟨6⟩⟩] },
    { id := ⟨⟨5⟩⟩, interfaceType := ⟨⟨2⟩⟩, reference := "IN", pinType := .digital },
    { id := ⟨⟨6⟩⟩, interfaceType := ⟨⟨3⟩⟩, reference := "T", pinType := .digital }]
  connectivities := [twoLines ⟨⟨7⟩⟩ "DRIVER" [lines ⟨⟨1⟩⟩ "OUT" ⟨⟨4⟩⟩],
    twoLines ⟨⟨8⟩⟩ "LOAD" [lines ⟨⟨1⟩⟩ "OUT" ⟨⟨4⟩⟩, lines ⟨⟨2⟩⟩ "IN" ⟨⟨5⟩⟩, lines ⟨⟨3⟩⟩ "T" ⟨⟨6⟩⟩]]

def wireType (id : InterfaceTypeId) (name : String) (canBeRequired : Bool) (slot : InterfacePinId)
    (compatibleTypes : List InterfaceTypeId) : InterfaceType where
  id := id
  name := name
  label := name
  family := .declared ⟨⟨11⟩⟩
  function := ""
  canBeRequired := canBeRequired
  canBeSpecialised := false
  pins := [slot]
  parents := []
  children := []
  compatibleTypes := compatibleTypes

def outputType : InterfaceType := wireType ⟨⟨1⟩⟩ "output" true ⟨⟨4⟩⟩ [⟨⟨2⟩⟩]

def inputType : InterfaceType := wireType ⟨⟨2⟩⟩ "input" false ⟨⟨5⟩⟩ []

def terminalType : InterfaceType := wireType ⟨⟨3⟩⟩ "terminal" false ⟨⟨6⟩⟩ []

def wireCatalog : Catalog := (Catalog.ofSnapshot wires).toOption.getD ⟨∅, ∅, ∅, ∅, ∅, ∅⟩

def driverAndLoad : List Circuit.Instruction := [
  .part Circuit.root "U1" "driver" ⟨⟨7⟩⟩,
  .part Circuit.root "U2" "load" ⟨⟨8⟩⟩]

def twoParts : Circuit := (Circuit.new wireCatalog).after driverAndLoad

/-- Both lines of the driver, wired to an interface of the load. -/
def toward (interface : String) : Fragment where
  origin := .persisted ⟨1⟩
  function := "drive"
  source := { node := ⟨1⟩, interface := some "OUT" }
  target := { node := ⟨2⟩, interface := some interface }

theorem linked_wires : Catalog.ofSnapshot wires = .ok wireCatalog := by decide +kernel

theorem finds_driver (interface : String) : (toward interface).Finds twoParts .source outputType
    (⟨⟨1⟩, 0⟩, (lines ⟨⟨1⟩⟩ "OUT" ⟨⟨4⟩⟩).assignments) where
  component := rfl
  determined := rfl
  known := rfl
  found := rfl
  places := ⟨_, rfl, rfl⟩
  slots := List.forall_mem_singleton.2 ⟨_, rfl⟩

theorem finds_output : (toward "OUT").Finds twoParts .target outputType
    (⟨⟨2⟩, 0⟩, (lines ⟨⟨1⟩⟩ "OUT" ⟨⟨4⟩⟩).assignments) where
  component := rfl
  determined := rfl
  known := rfl
  found := rfl
  places := ⟨_, rfl, rfl⟩
  slots := List.forall_mem_singleton.2 ⟨_, rfl⟩

theorem finds_input : (toward "IN").Finds twoParts .target inputType
    (⟨⟨2⟩, 1⟩, (lines ⟨⟨2⟩⟩ "IN" ⟨⟨5⟩⟩).assignments) where
  component := rfl
  determined := rfl
  known := rfl
  found := rfl
  places := ⟨_, rfl, rfl⟩
  slots := List.forall_mem_singleton.2 ⟨_, rfl⟩

theorem finds_terminal : (toward "T").Finds twoParts .target terminalType
    (⟨⟨2⟩, 2⟩, (lines ⟨⟨3⟩⟩ "T" ⟨⟨6⟩⟩).assignments) where
  component := rfl
  determined := rfl
  known := rfl
  found := rfl
  places := ⟨_, rfl, rfl⟩
  slots := List.forall_mem_singleton.2 ⟨_, rfl⟩

theorem reachable_twoParts : twoParts.Reachable := ⟨wireCatalog, driverAndLoad, rfl⟩

end Specimen

theorem deduction_exact_specimen :
    (∃ w, (Specimen.toward "IN").Resolves Specimen.twoParts w ∧
      ((Specimen.toward "IN").bare.holding w.pairing).Connects ⟨⟨1⟩, ⟨⟨9⟩⟩⟩ ⟨⟨2⟩, ⟨⟨10⟩⟩⟩) ∧
    (∃ w, (Specimen.toward "OUT").Resolves Specimen.twoParts w ∧
      ((Specimen.toward "OUT").bare.holding w.pairing).Connects ⟨⟨1⟩, ⟨⟨9⟩⟩⟩ ⟨⟨2⟩, ⟨⟨10⟩⟩⟩) ∧
    ∃ w, (Specimen.toward "T").Resolves Specimen.twoParts w ∧ w.pairing.Passes := by
  have hexact {name : String} {T : InterfaceType} {target : Fragment.Placed}
      (h : (Specimen.toward name).Finds Specimen.twoParts .target T target) :=
    Fragment.deduction_exact Specimen.reachable_twoParts Specimen.linked_wires rfl
      (Specimen.finds_driver name) h
  obtain ⟨hresolves, hconnects⟩ := (hexact Specimen.finds_input).1 (by decide +kernel)
  obtain ⟨w, hw⟩ := hresolves.2 (by decide +kernel)
  obtain ⟨hequal, hpairs⟩ := (hexact Specimen.finds_output).2.1 (by decide +kernel) rfl
  obtain ⟨v, hv⟩ := hequal.2 (by decide +kernel)
  obtain ⟨-, -, hsingle, hpasses, -⟩ := hexact Specimen.finds_terminal
  obtain ⟨u, hu⟩ := (hsingle (by decide +kernel) (by decide)).2
    ⟨_, _, rfl, rfl, rfl, by decide, by decide⟩
  exact ⟨⟨w, hw, (hconnects w hw _ _).2 (by decide +kernel)⟩,
    ⟨v, hv, (hpairs (by decide) v hv _ _).2 (by decide +kernel)⟩, u, hu, hpasses u hu⟩

end BoardNets
