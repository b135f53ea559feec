import BoardNets.Proofs.Fragment.Deduced
import BoardNets.Proofs.Net.Order
import BoardNets.Proofs.Netlist.Realised
import Mathlib.Data.List.Sort

/-! Single assignments wired straight through. All pins of both sides stand under one slot, so every
pin of the one is connected with every pin of the other, and nets, which tell pins apart by their
slots, have all pins of a side in one piece. Only single pins are wired one to one. -/
namespace BoardNets

open Std

theorem product_eq_zip_iff {α β : Type} {xs : List α} {ys : List β}
    (hlength : xs.length = ys.length) (hxs : xs.Nodup) (hys : ys.Nodup) :
    (∀ x y, (x ∈ xs ∧ y ∈ ys) ↔ (x, y) ∈ xs.zip ys) ↔ xs.length ≤ 1 := by
  match xs, ys with
  | [], [] => simp
  | [x], [y] => simp
  | x :: x' :: xs, y :: y' :: ys =>
    refine iff_of_false (fun h => ?_) (by simp)
    have hcrossed := (h x y').1 ⟨List.mem_cons_self, by simp⟩
    rw [List.zip_cons_cons, List.mem_cons, Prod.mk.injEq] at hcrossed
    rcases hcrossed with ⟨-, hy⟩ | hmem
    · simp [hy] at hys
    · exact (List.nodup_cons.1 hxs).1 (List.of_mem_zip hmem).1

namespace Fragment

/-- The fragment connects each of the one pins with the other pin of the same position alone. -/
def Straight (f : Fragment) (ps qs : List ComponentPin) : Prop :=
  ∀ p q, f.Connects p q ↔ (p, q) ∈ ps.zip qs

end Fragment

theorem PinAssignment.nodup_pinsOn {a : PinAssignment} (h : a.pins.Nodup) (x : NodeId) :
    (a.pinsOn x).Nodup :=
  h.map fun _ _ hpq => (ComponentPin.mk.inj hpq).2

namespace Stages

variable {d : Design} {n : Netlist}

/-- Pins that an interface of a bus uses as one slot are on one network of it. -/
theorem sameNetwork_of_slot (s : Stages d n) {bus : Bus} (hbus : bus ∈ s.buses) {u v : PinUse}
    (hi : u.interface ∈ bus.physicalInterfaces d.circuit) (hinterface : v.interface = u.interface)
    (hslot : v.interfacePin = u.interfacePin) (hu : u ∈ (d.circuit.usesOf u.interface).uses)
    (hv : v ∈ (d.circuit.usesOf v.interface).uses) : d.circuit.SameNetwork u.pin v.pin := by
  obtain ⟨networks, hnetworks⟩ := s.exists_busNetworks hbus
  obtain ⟨family, hfamily, _⟩ := Circuit.gathered_busNetworks hnetworks
  obtain ⟨N, hN, hupin⟩ := Circuit.onNetwork_of_use hnetworks hi hu hfamily
  obtain ⟨M, hM, hvpin⟩ := Circuit.onNetwork_of_use hnetworks (hinterface ▸ hi) hv hfamily
  rw [hslot, hinterface, hN] at hM
  obtain rfl := Except.ok.inj hM
  exact ⟨s.buses, s.flattened, bus, hbus, family, hfamily, N, hupin, hvpin⟩

/-- Where single assignments are wired straight through, each of them is in one net. -/
theorem sameNet_of_through (s : Stages d n) (hc : d.circuit.Reachable) (hplain : d.circuit.Plain)
    (hsplit : d.options.splitByBoard = false) {x : NodeId} {id : FragmentId} {f : Fragment}
    {i j : InterfaceRef} {fromKey toKey : InterfacePinId} {a b : PinAssignment}
    (hx : d.circuit.InTree Circuit.root x) (hid : id ∈ d.circuit.requirementsOf x)
    (hf : d.circuit.fragment? id = some (f.bare.holding (.through i j fromKey toKey a b)))
    (hsource : f.interface d.circuit .source = .ok (some i))
    (htarget : f.interface d.circuit .target = .ok (some j))
    (hi : d.circuit.isPart i.component = true) (hj : d.circuit.isPart j.component = true)
    {p p' q q' : ComponentPin} (hp : p ∈ a.pinsOn i.component) (hp' : p' ∈ a.pinsOn i.component)
    (hq : q ∈ b.pinsOn j.component) (hq' : q' ∈ b.pinsOn j.component) :
    (p ≠ p' → n.SameNet p p') ∧ (q ≠ q' → n.SameNet q q') := by
  have hentry {u v : PinUse} (hu : u ∈ a.uses i fromKey) (hv : v ∈ b.uses j toKey) :
      u ∈ (d.circuit.usesOf u.interface).uses ∧ v ∈ (d.circuit.usesOf v.interface).uses := by
    obtain ⟨key, hukey, hvkey⟩ := Fragment.through_pairs (f := f).2 ⟨hu, hv⟩
    exact ⟨hc.balanced.mem_usesOf hf (List.mem_append_left _ (Connections.mem_entries.2 hukey)),
      hc.balanced.mem_usesOf hf (List.mem_append_right _ (Connections.mem_entries.2 hvkey))⟩
  obtain ⟨u, hu, rfl⟩ := PinAssignment.exists_use.2 hp
  obtain ⟨u', hu', rfl⟩ := PinAssignment.exists_use.2 hp'
  obtain ⟨v, hv, rfl⟩ := PinAssignment.exists_use.2 hq
  obtain ⟨v', hv', rfl⟩ := PinAssignment.exists_use.2 hq'
  obtain ⟨hui, huslot, hupin⟩ := PinAssignment.use_eq hu
  obtain ⟨hui', huslot', -⟩ := PinAssignment.use_eq hu'
  obtain ⟨hvj, hvslot, hvpin⟩ := PinAssignment.use_eq hv
  obtain ⟨hvj', hvslot', -⟩ := PinAssignment.use_eq hv'
  obtain ⟨bus, hbus, _, _, _, _, hcarries⟩ := s.exists_carries hc hx hid hf
    (Fragment.through_pairs.2 ⟨hu, hv⟩) (hupin ▸ hi) (hvpin ▸ hj) (hui ▸ hsource) (hvj ▸ htarget)
  constructor
  · intro hne
    refine s.sameNet_of_sameNetwork hplain hsplit hne (s.sameNetwork_of_slot hbus
      (SortedSet.mem_union.2 (.inl hcarries.source)) (hui'.trans hui.symm)
      (huslot'.trans huslot.symm) (hentry hu hv).1 (hentry hu' hv).1)
  · intro hne
    refine s.sameNet_of_sameNetwork hplain hsplit hne (s.sameNetwork_of_slot hbus
      (SortedSet.mem_union.2 (.inr hcarries.target)) (hvj'.trans hvj.symm)
      (hvslot'.trans hvslot.symm) (hentry hu hv).2 (hentry hu hv').2)

end Stages

/-- Types that are neither compatible nor equal are wired through one assignment at each end. All
its pins are connected with all those of the other one, which is one to one for a single pin alone,
and without ancillaries each of the two assignments is in one net. -/
theorem single_assignments_joined {d : Design} {s : Snapshot} {uuid : Uuid} {f : Fragment}
    {S T : InterfaceType} {source target : Fragment.Placed} {w : Wiring}
    (hc : d.circuit.Reachable) (hcatalog : Catalog.ofSnapshot s = .ok d.circuit.catalog)
    (horigin : f.origin = .persisted uuid) (hsource : f.Finds d.circuit .source S source)
    (htarget : f.Finds d.circuit .target T target) (hnot : S.isCompatible T = false)
    (hother : S.id ≠ T.id) (hw : f.Resolves d.circuit w) :
    ∃ a b, source.2 = [a] ∧ target.2 = [b] ∧ a.pins.length = b.pins.length ∧
      (∀ p q, (f.bare.holding w.pairing).Connects p q ↔
        p ∈ a.pinsOn source.1.component ∧ q ∈ b.pinsOn target.1.component) ∧
      (a.pins.Nodup → b.pins.Nodup → ((f.bare.holding w.pairing).Straight
        (a.pinsOn source.1.component) (b.pinsOn target.1.component) ↔ a.pins.length ≤ 1)) ∧
      ∀ d' n x id, d.synthesize = .ok (d', n) → d.circuit.Plain → d.options.splitByBoard = false →
        d.circuit.fragment? id = some (f.bare.holding w.pairing) →
        d.circuit.InTree Circuit.root x → id ∈ d.circuit.requirementsOf x →
        d.circuit.isPart source.1.component = true → d.circuit.isPart target.1.component = true →
        ∀ p ∈ a.pinsOn source.1.component, ∀ p' ∈ a.pinsOn source.1.component,
        ∀ q ∈ b.pinsOn target.1.component, ∀ q' ∈ b.pinsOn target.1.component,
          (p ≠ p' → n.SameNet p p') ∧ (q ≠ q' → n.SameNet q q') := by
  have hpinned := hc.pinned (Catalog.linked_ofSnapshot hcatalog).resolved
  obtain ⟨_, hpair, hpasses, rfl⟩ := (Fragment.resolved_iff hsource htarget horigin).1 hw
  obtain ⟨a, b, fromKey, toKey, ha, hb, hwidth, -, -, rfl⟩ :=
    (Fragment.pair_single hpinned hsource htarget hnot hother).1 ⟨hpair, hpasses⟩
  refine ⟨a, b, ha, hb, hwidth, fun p q => Fragment.through_connects, fun hna hnb => ?_, ?_⟩
  · have hlength : (a.pinsOn source.1.component).length = (b.pinsOn target.1.component).length := by
      rw [PinAssignment.pinsOn, PinAssignment.pinsOn, List.length_map, List.length_map, hwidth]
    have hzip := product_eq_zip_iff hlength (PinAssignment.nodup_pinsOn hna _)
      (PinAssignment.nodup_pinsOn hnb _)
    rw [PinAssignment.pinsOn, List.length_map] at hzip
    simp only [Fragment.Straight, Fragment.through_connects]
    exact hzip
  · intro d' n x id h hplain hsplit hf hx hid hi hj p hp p' hp' q hq q' hq'
    obtain ⟨stages⟩ := Design.synthesize_eq_ok h
    exact stages.sameNet_of_through hc hplain hsplit hx hid hf hsource.found htarget.found hi hj
      hp hp' hq hq'

theorem mergeSort_eq_insertionSort {α : Type} {cmp : α → α → Ordering} [TransCmp cmp]
    [LawfulEqCmp cmp] (l : List α) : l.mergeSort (fun a b => (cmp a b).isLE) =
      l.insertionSort fun a b => (cmp a b).isLE = true := by
  have htotal : Std.Total fun a b => (cmp a b).isLE = true :=
    ⟨fun a b => by simpa using @isLE_total _ cmp _ a b⟩
  have htrans : IsTrans α fun a b => (cmp a b).isLE = true := ⟨fun _ _ _ => TransCmp.isLE_trans⟩
  have hantisymm : Std.Antisymm fun a b => (cmp a b).isLE = true :=
    ⟨fun _ _ hab hba => LawfulEqCmp.eq_of_compare (OrientedCmp.isLE_antisymm hab hba)⟩
  rw [← List.mergeSort_eq_insertionSort]
  simp only [Bool.decide_eq_true]

namespace Circuit

instance : TransCmp sourceOrder :=
  inferInstanceAs (TransCmp (compareLex (compareOn (·.1)) (compareLex (compareOn fun s => s.2.1)
    (compareOn fun s : String × String × ComponentPin => s.2.2))))

instance : LawfulEqCmp sourceOrder where
  eq_of_compare h := by
    obtain ⟨hname, hrest⟩ := Ordering.then_eq_eq.1 h
    obtain ⟨hreference, hpin⟩ := Ordering.then_eq_eq.1 hrest
    exact Prod.ext (LawfulEqCmp.eq_of_compare hname) (Prod.ext
      (LawfulEqCmp.eq_of_compare hreference) (LawfulEqCmp.eq_of_compare hpin))

end Circuit

namespace Specimen

/-- Both lines of the driver, wired to terminals of the load. -/
def terminals : Circuit.Instruction := .require {
  origin := .persisted ⟨1⟩
  function := "drive"
  source := { node := ⟨1⟩, interface := some "OUT" }
  target := { node := ⟨2⟩, interface := some "T" } }

def terminalDesign : Design where
  circuit := (Circuit.new wireCatalog).after (driverAndLoad ++ [terminals])
  boards := []
  mainBoardReference := "MAIN"
  options := { splitByBoard := false }

def driven : PinAssignment := { interfacePin := ⟨⟨4⟩⟩, pins := [⟨⟨9⟩⟩, ⟨⟨10⟩⟩] }

def taken : PinAssignment := { interfacePin := ⟨⟨6⟩⟩, pins := [⟨⟨9⟩⟩, ⟨⟨10⟩⟩] }

def lineWiring : Wiring := ⟨⟨⟨1⟩, 0⟩, ⟨⟨2⟩, 2⟩, .through ⟨⟨1⟩, 0⟩ ⟨⟨2⟩, 2⟩ ⟨⟨4⟩⟩ ⟨⟨6⟩⟩ driven taken⟩

theorem resolves_terminals : (toward "T").Resolves terminalDesign.circuit lineWiring := rfl

theorem fragments_terminals : terminalDesign.circuit.fragments =
    #[(toward "T").bare.holding lineWiring.pairing] := by decide +kernel

theorem reachable_terminals : terminalDesign.circuit.Reachable :=
  ⟨wireCatalog, driverAndLoad ++ [terminals], rfl⟩

theorem plain_terminals : terminalDesign.circuit.Plain := by
  have hparts : ∀ id ∈ terminalDesign.circuit.parts Circuit.root,
      terminalDesign.circuit.isAncillary id = false := by decide +kernel
  intro id part htree hid hpart
  have hmem : id ∈ terminalDesign.circuit.parts Circuit.root :=
    Circuit.mem_parts_iff.2 ⟨htree, by simpa [Circuit.isPart, hid] using hpart⟩
  have hnone := hparts id hmem
  simpa [Circuit.isAncillary, hid] using hnone

theorem exists_synthesize_terminals : ∃ r, terminalDesign.synthesize = .ok r := by
  refine isOk_iff.1 ?_
  simp only [Design.synthesize, Design.netlist, PinGroup.nets, Circuit.netShape,
    Circuit.bussedShape?, Circuit.drivenShape, mergeSort_eq_insertionSort]
  decide +kernel

theorem fragment_terminals : terminalDesign.circuit.fragment? ⟨0⟩ =
    some ((toward "T").bare.holding lineWiring.pairing) := by
  rw [Circuit.fragment?, fragments_terminals]
  rfl

theorem driver_inTree : terminalDesign.circuit.InTree Circuit.root ⟨1⟩ :=
  .child .root (by decide +kernel)

end Specimen

/-- Two lines of one assignment, whose partners by position are different pins. The fragment
connects each line with both partners, and the lines are in one net. -/
theorem lines_are_joined : ∃ d n, Specimen.terminalDesign.circuit.fragments =
      #[(Specimen.toward "T").bare.holding Specimen.lineWiring.pairing] ∧
    (Specimen.toward "T").Resolves Specimen.terminalDesign.circuit Specimen.lineWiring ∧
    Specimen.outputType.isCompatible Specimen.terminalType = false ∧
    Specimen.outputType.id ≠ Specimen.terminalType.id ∧
    Specimen.terminalDesign.circuit.Plain ∧ Specimen.terminalDesign.synthesize = .ok (d, n) ∧
    ¬((Specimen.toward "T").bare.holding Specimen.lineWiring.pairing).Straight
      (Specimen.driven.pinsOn ⟨1⟩) (Specimen.taken.pinsOn ⟨2⟩) ∧
    n.SameNet ⟨⟨1⟩, ⟨⟨9⟩⟩⟩ ⟨⟨1⟩, ⟨⟨10⟩⟩⟩ := by
  obtain ⟨⟨d, n⟩, h⟩ := Specimen.exists_synthesize_terminals
  obtain ⟨stages⟩ := Design.synthesize_eq_ok h
  have htaken : (⟨⟨2⟩, ⟨⟨9⟩⟩⟩ : ComponentPin) ∈ Specimen.taken.pinsOn ⟨2⟩ := by decide
  have hsame : n.SameNet ⟨⟨1⟩, ⟨⟨9⟩⟩⟩ ⟨⟨1⟩, ⟨⟨10⟩⟩⟩ :=
    (stages.sameNet_of_through Specimen.reachable_terminals Specimen.plain_terminals rfl
      Specimen.driver_inTree (by decide +kernel) Specimen.fragment_terminals rfl rfl
      (by decide +kernel) (by decide +kernel) (by decide) (by decide) htaken htaken).1 (by decide)
  refine ⟨d, n, Specimen.fragments_terminals, Specimen.resolves_terminals, by decide, by decide,
    Specimen.plain_terminals, h, fun hstraight => ?_, hsame⟩
  have hcrossed := (hstraight ⟨⟨1⟩, ⟨⟨9⟩⟩⟩ ⟨⟨2⟩, ⟨⟨10⟩⟩⟩).1
    (Fragment.through_connects.2 ⟨by decide, by decide⟩)
  exact absurd hcrossed (by decide)

namespace Specimen

theorem finds_lines : (toward "T").Finds terminalDesign.circuit .source outputType
    (⟨⟨1⟩, 0⟩, [driven]) where
  component := rfl
  determined := rfl
  known := rfl
  found := rfl
  places := ⟨_, rfl, rfl⟩
  slots := List.forall_mem_singleton.2 ⟨_, rfl⟩

theorem finds_terminals : (toward "T").Finds terminalDesign.circuit .target terminalType
    (⟨⟨2⟩, 2⟩, [taken]) where
  component := rfl
  determined := rfl
  known := rfl
  found := rfl
  places := ⟨_, rfl, rfl⟩
  slots := List.forall_mem_singleton.2 ⟨_, rfl⟩

end Specimen

theorem single_assignments_joined_specimen : ∃ d n,
    Specimen.terminalDesign.synthesize = .ok (d, n) ∧
    (∀ p q, ((Specimen.toward "T").bare.holding Specimen.lineWiring.pairing).Connects p q ↔
      p ∈ Specimen.driven.pinsOn ⟨1⟩ ∧ q ∈ Specimen.taken.pinsOn ⟨2⟩) ∧
    n.SameNet ⟨⟨2⟩, ⟨⟨9⟩⟩⟩ ⟨⟨2⟩, ⟨⟨10⟩⟩⟩ := by
  obtain ⟨⟨d, n⟩, h⟩ := Specimen.exists_synthesize_terminals
  obtain ⟨a, b, ha, hb, -, hconnects, -, hnets⟩ := single_assignments_joined
    Specimen.reachable_terminals Specimen.linked_wires rfl Specimen.finds_lines
    Specimen.finds_terminals (by decide) (by decide) Specimen.resolves_terminals
  obtain rfl := (List.cons.inj ha).1
  obtain rfl := (List.cons.inj hb).1
  exact ⟨d, n, h, hconnects, (hnets d n ⟨1⟩ ⟨0⟩ h Specimen.plain_terminals rfl
    Specimen.fragment_terminals Specimen.driver_inTree (by decide +kernel) (by decide +kernel)
    (by decide +kernel) ⟨⟨1⟩, ⟨⟨9⟩⟩⟩ (by decide) ⟨⟨1⟩, ⟨⟨9⟩⟩⟩ (by decide) ⟨⟨2⟩, ⟨⟨9⟩⟩⟩ (by decide)
    ⟨⟨2⟩, ⟨⟨10⟩⟩⟩ (by decide)).2 (by decide)⟩

end BoardNets
