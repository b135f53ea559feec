import BoardNets.Proofs.Bus.Agreement
import BoardNets.Proofs.Netlist.Partition
import BoardNets.Proofs.Search

/-! The requesting ends of the fragment chains that reach a pin. They are the pins without drivers
from which the pin is reachable over driver edges, and there are none where all such chains come out
of a cycle. The search for them stops after every driver has been on its stack once. -/
namespace BoardNets

open Search

namespace Fragment

/-- A pin has an entry among the drivers only where something drives it. -/
theorem isSome_find?_drivers {f : Fragment} {q : ComponentPin} :
    (f.drivers.find? q).isSome ↔ ∃ p, q ∈ (f.connections.find? p).getD ∅ := by
  have htargets (pin : ComponentPin) (targets : SortedSet ComponentPin)
      (m : SortedMap ComponentPin (SortedSet ComponentPin)) :
      ((targets.toList.foldl (fun m target => m.update target ∅ (·.insert pin)) m).find? q).isSome ↔
        (m.find? q).isSome ∨ ∃ target ∈ targets.toList, q = target :=
    foldl_gathers (M := fun m : SortedMap ComponentPin (SortedSet ComponentPin) =>
      (m.find? q).isSome) fun m target => by
        rw [SortedMap.find?_update]
        by_cases hq : q = target <;> simp [hq]
  have hfold : (f.drivers.find? q).isSome ↔
      ((∅ : SortedMap ComponentPin (SortedSet ComponentPin)).find? q).isSome ∨
        ∃ e ∈ f.connections.toList, ∃ target ∈ e.2.toList, q = target :=
    foldl_gathers (M := fun m : SortedMap ComponentPin (SortedSet ComponentPin) =>
      (m.find? q).isSome) fun m e => htargets e.1 e.2 m
  rw [hfold]
  constructor
  · rintro (h | ⟨⟨p, targets⟩, he, target, htarget, rfl⟩)
    · simp at h
    · refine ⟨p, ?_⟩
      rwa [SortedMap.find?_eq_some_iff.2 he]
  · rintro ⟨p, hq⟩
    cases htargets : f.connections.find? p with
    | none => simp [htargets] at hq
    | some targets =>
      rw [htargets] at hq
      exact .inr ⟨(p, targets), SortedMap.find?_eq_some_iff.1 htargets, q, hq, rfl⟩

end Fragment

namespace Bus

/-- Some fragment of the bus connects the first pin, at its requesting end, with the second one. -/
def Drives (b : Bus) (c : Circuit) (p q : ComponentPin) : Prop :=
  ∃ id ∈ b.fragments, ∃ f, c.fragment id = .ok f ∧ q ∈ (f.connections.find? p).getD ∅

/-- The pins without drivers from which a pin is reached, the pin itself among them. -/
structure IsSource (b : Bus) (c : Circuit) (q p : ComponentPin) : Prop where
  undriven : ∀ r, ¬b.Drives c r q
  reaches : Relation.ReflTransGen (b.Drives c) q p

section Drivers

variable {b : Bus} {c : Circuit} {drivers : SortedMap ComponentPin (SortedSet ComponentPin)}
  (h : b.drivers c = .ok drivers)
include h

theorem exists_united : ∃ fragments, b.fragments.mapM c.fragment = .ok fragments ∧
    drivers = SortedMap.united (fragments.flatMap fun f => f.drivers.toList) := by
  obtain ⟨fragments, hfragments, h⟩ := bind_eq_ok.1 h
  exact ⟨fragments, hfragments, (pure_eq_ok.1 h).symm⟩

theorem mem_drivers_iff {p q : ComponentPin} :
    p ∈ (drivers.find? q).getD ∅ ↔ b.Drives c p q := by
  obtain ⟨fragments, hfragments, rfl⟩ := exists_united h
  rw [SortedMap.mem_find?_united, Drives]
  constructor
  · rintro ⟨e, he, rfl, hp⟩
    obtain ⟨f, hf, he⟩ := List.mem_flatMap.1 he
    obtain ⟨id, hid, hf⟩ := (mem_of_mapM hfragments).1 hf
    refine ⟨id, hid, f, hf, Fragment.mem_drivers.1 ?_⟩
    rwa [SortedMap.find?_eq_some_iff.2 he]
  · rintro ⟨id, hid, f, hf, hq⟩
    have hp := Fragment.mem_drivers.2 hq
    cases hfind : f.drivers.find? q with
    | none => simp [hfind] at hp
    | some sources =>
      rw [hfind] at hp
      exact ⟨(q, sources), List.mem_flatMap.2 ⟨f, (mem_of_mapM hfragments).2 ⟨id, hid, hf⟩,
        SortedMap.find?_eq_some_iff.1 hfind⟩, rfl, hp⟩

theorem find?_drivers_eq_none {q : ComponentPin} :
    drivers.find? q = none ↔ ∀ p, ¬b.Drives c p q := by
  obtain ⟨fragments, hfragments, rfl⟩ := exists_united h
  rw [← Option.not_isSome_iff_eq_none, SortedMap.isSome_find?_united, ← not_exists, not_iff_not]
  constructor
  · rintro ⟨e, he, rfl⟩
    obtain ⟨f, hf, he⟩ := List.mem_flatMap.1 he
    obtain ⟨id, hid, hf⟩ := (mem_of_mapM hfragments).1 hf
    have hsome : (f.drivers.find? e.1).isSome := by simp [SortedMap.find?_eq_some_iff.2 he]
    obtain ⟨p, hp⟩ := Fragment.isSome_find?_drivers.1 hsome
    exact ⟨p, id, hid, f, hf, hp⟩
  · rintro ⟨p, id, hid, f, hf, hq⟩
    obtain ⟨sources, hsources⟩ :=
      Option.isSome_iff_exists.1 (Fragment.isSome_find?_drivers.2 ⟨p, hq⟩)
    exact ⟨(q, sources), List.mem_flatMap.2 ⟨f, (mem_of_mapM hfragments).2 ⟨id, hid, hf⟩,
      SortedMap.find?_eq_some_iff.1 hsources⟩, rfl⟩

end Drivers

def driversOf (drivers : SortedMap ComponentPin (SortedSet ComponentPin)) (p : ComponentPin) :
    List ComponentPin :=
  ((drivers.find? p).getD ∅).toList

section Steps

variable {drivers : SortedMap ComponentPin (SortedSet ComponentPin)} {fuel more : Nat}
  {stack : List ComponentPin} {visited found sources : SortedSet ComponentPin} {p q : ComponentPin}

theorem driversOf_of_find? (h : drivers.find? p = some sources) :
    driversOf drivers p = sources.toList := by
  simp [driversOf, h]

theorem driversOf_of_undriven (h : drivers.find? p = none) : driversOf drivers p = [] := by
  simp [driversOf, h]

theorem mem_keys_of_driversOf (h : driversOf drivers p ≠ []) : p ∈ drivers.keys := by
  cases hfind : drivers.find? p with
  | none => exact absurd (driversOf_of_undriven hfind) h
  | some sources => exact List.mem_map.2 ⟨(p, sources), SortedMap.find?_eq_some_iff.1 hfind, rfl⟩

theorem searchFuel_eq (drivers : SortedMap ComponentPin (SortedSet ComponentPin)) :
    searchFuel drivers = 1 + (drivers.keys.flatMap (driversOf drivers)).length := by
  rw [searchFuel, SortedMap.values, SortedMap.keys, List.flatMap_map, List.flatMap_map]
  congr 2
  exact List.flatMap_congr fun e he => (driversOf_of_find? (SortedMap.find?_eq_some_iff.2 he)).symm

@[simp] theorem search_nil : search drivers fuel [] visited found = some found := by
  cases fuel <;> rfl

theorem search_of_mem (hp : p ∈ visited) : search drivers (fuel + 1) (p :: stack) visited found =
    search drivers fuel stack visited found := by
  simp [search, hp]

/-- A new pin has its drivers searched next. It is found if it has none. -/
theorem search_of_not_mem (hp : p ∉ visited) :
    search drivers (fuel + 1) (p :: stack) visited found =
      search drivers fuel (driversOf drivers p ++ stack) (visited.insert p)
        (if drivers.find? p = none then found.insert p else found) := by
  rw [search, if_neg hp]
  cases hfind : drivers.find? p with
  | some sources => simp [driversOf_of_find? hfind]
  | none => simp [driversOf_of_undriven hfind]

/-- The search stops. With fuel for the stack and for the drivers of all pins that have not been
visited, the stack gets empty. -/
theorem exists_search
    (hfuel : stack.length + pending (driversOf drivers) drivers.keys visited ≤ fuel) :
    ∃ sources, search drivers fuel stack visited found = some sources := by
  induction fuel generalizing stack visited found with
  | zero =>
    obtain rfl : stack = [] := List.length_eq_zero_iff.1 (by omega)
    exact ⟨found, rfl⟩
  | succ fuel ih =>
    cases stack with
    | nil => exact ⟨found, rfl⟩
    | cons p stack =>
      rw [List.length_cons] at hfuel
      by_cases hp : p ∈ visited
      · rw [search_of_mem hp]
        exact ih (by omega)
      · -- what comes onto the stack is no longer pending
        have hpending := pending_insert hp (@mem_keys_of_driversOf drivers p)
        rw [search_of_not_mem hp]
        exact ih (by rw [List.length_append]; omega)

/-- The search for sources collects what it visits without drivers. -/
theorem mem_search_iff (h : search drivers fuel stack visited found = some sources) :
    q ∈ sources ↔
      q ∈ found ∨ q ∈ visits (driversOf drivers) fuel stack visited ∧ drivers.find? q = none := by
  induction fuel generalizing stack visited found with
  | zero =>
    cases stack with
    | nil => simp [← Option.some.inj h]
    | cons => cases h
  | succ fuel ih =>
    cases stack with
    | nil => simp [← Option.some.inj h]
    | cons p stack =>
      by_cases hp : p ∈ visited
      · rw [search_of_mem hp] at h
        rw [visits_of_mem hp, ih h]
      · rw [search_of_not_mem hp] at h
        have hfound : q ∈ (if drivers.find? p = none then found.insert p else found) ↔
            q = p ∧ drivers.find? q = none ∨ q ∈ found := by
          by_cases hqp : q = p
          · subst hqp
            split <;> simp [*]
          · split <;> simp [hqp]
        rw [visits_of_not_mem hp, List.mem_cons, ih h, hfound]
        tauto

/-- More fuel makes no difference to a search that has stopped. -/
theorem search_mono (hle : fuel ≤ more)
    (h : search drivers fuel stack visited found = some sources) :
    search drivers more stack visited found = some sources := by
  induction fuel generalizing more stack visited found with
  | zero =>
    cases stack with
    | nil => simpa using h
    | cons => cases h
  | succ fuel ih =>
    obtain ⟨more, rfl⟩ : ∃ k, more = k + 1 := ⟨more - 1, by omega⟩
    cases stack with
    | nil => exact h
    | cons p stack =>
      by_cases hp : p ∈ visited
      · rw [search_of_mem hp] at h ⊢
        exact ih (by omega) h
      · rw [search_of_not_mem hp] at h ⊢
        exact ih (by omega) h

end Steps

/-- The search from a pin stops on its fuel, and any more would give the same. -/
theorem search_of_sourcePinsOf {b : Bus} {c : Circuit} {p : ComponentPin}
    {sources : SortedSet ComponentPin} (h : b.sourcePinsOf c p = .ok sources) :
    ∃ drivers, b.drivers c = .ok drivers ∧
      ∀ fuel, searchFuel drivers ≤ fuel → search drivers fuel [p] ∅ ∅ = some sources := by
  obtain ⟨drivers, hdrivers, h⟩ := bind_eq_ok.1 h
  have hfuel : [p].length + pending (driversOf drivers) drivers.keys ∅ ≤ searchFuel drivers := by
    simp [searchFuel_eq, pending]
  obtain ⟨found, hfound⟩ : ∃ found, search drivers (searchFuel drivers) [p] ∅ ∅ = some found :=
    exists_search hfuel
  obtain rfl : found = sources := by simpa [hfound] using pure_eq_ok.1 h
  exact ⟨drivers, hdrivers, fun fuel hle => search_mono hle hfound⟩

theorem mem_sourcePinsOf {b : Bus} {c : Circuit} {p : ComponentPin}
    {sources : SortedSet ComponentPin} (h : b.sourcePinsOf c p = .ok sources) (q : ComponentPin) :
    q ∈ sources ↔ b.IsSource c q p := by
  obtain ⟨drivers, hdrivers, hsearch⟩ := search_of_sourcePinsOf h
  have hstep : (fun x y => y ∈ driversOf drivers x) = Function.swap (b.Drives c) := by
    funext x y
    exact propext (mem_drivers_iff hdrivers)
  rw [mem_search_iff (hsearch _ le_rfl), searchFuel_eq, mem_visits_iff fun _ => mem_keys_of_driversOf,
    Reaches, hstep, Relation.reflTransGen_swap, find?_drivers_eq_none hdrivers]
  constructor
  · rintro (hq | ⟨hreaches, hundriven⟩)
    · simp at hq
    · exact ⟨hundriven, hreaches⟩
  · rintro ⟨hundriven, hreaches⟩
    exact .inr ⟨hreaches, hundriven⟩

theorem exists_sourcePinsOf {b : Bus} {c : Circuit} {p : ComponentPin} :
    (∃ sources, b.sourcePinsOf c p = .ok sources) ↔
      ∀ id ∈ b.fragments, ∃ f, c.fragment id = .ok f := by
  rw [← exists_mapM_iff]
  constructor
  · rintro ⟨_, h⟩
    obtain ⟨drivers, hdrivers, _⟩ := bind_eq_ok.1 h
    obtain ⟨fragments, hfragments, _⟩ := exists_united hdrivers
    exact ⟨fragments, hfragments⟩
  · rintro ⟨fragments, hfragments⟩
    exact ⟨_, bind_eq_ok.2 ⟨_, bind_eq_ok.2 ⟨fragments, hfragments, rfl⟩, rfl⟩⟩

end Bus

/-- Sources of a pin are on nodes that are there. -/
theorem Circuit.Balanced.has_of_sourcePinsOf {c : Circuit} (hc : c.Balanced) {b : Bus}
    {p : ComponentPin} (hp : c.Has p.component) {sources : SortedSet ComponentPin}
    (h : b.sourcePinsOf c p = .ok sources) : ∀ s ∈ sources, c.Has s.component := by
  intro s hs
  rcases ((Bus.mem_sourcePinsOf h s).1 hs).reaches.cases_head with rfl | ⟨r, hdrives, _⟩
  · exact hp
  · obtain ⟨id, _, f, hf, hr⟩ := hdrives
    obtain ⟨u, v, ⟨key, hu, _⟩, rfl, _⟩ := Fragment.mem_connections.1 hr
    have hentry : (key, u) ∈ f.entries := List.mem_append_left _ (Connections.mem_entries.2 hu)
    exact hc.has_of_entry (Circuit.fragment_eq_ok.1 hf) hentry

/-- The search for the sources of a pin stops on its fuel or on any more. It finds the pins without
drivers that reach the pin, and there are none where all of those fail to. It gives an answer for
every bus whose fragments are in the circuit, as those of the circuit's own buses are. -/
theorem source_pins_exact (b : Bus) (c : Circuit) (p : ComponentPin) :
    ((∃ sources, b.sourcePinsOf c p = .ok sources) ↔
      ∀ id ∈ b.fragments, ∃ f, c.fragment id = .ok f) ∧
    (∀ a deep buses, c.buses a deep = .ok buses → b ∈ buses →
      ∃ sources, b.sourcePinsOf c p = .ok sources) ∧
    ∀ sources, b.sourcePinsOf c p = .ok sources →
      (∃ drivers, b.drivers c = .ok drivers ∧ ∀ fuel, Bus.searchFuel drivers ≤ fuel →
        Bus.search drivers fuel [p] ∅ ∅ = some sources) ∧
      (∀ q, q ∈ sources ↔ b.IsSource c q p) ∧
      (sources = ∅ ↔ ∀ q, (∀ r, ¬b.Drives c r q) → ¬Relation.ReflTransGen (b.Drives c) q p) := by
  refine ⟨Bus.exists_sourcePinsOf, fun a deep buses hbuses hb => ?_, fun sources h => ?_⟩
  · refine Bus.exists_sourcePinsOf.2 fun id hid => ?_
    obtain ⟨m, hm, rfl⟩ := List.mem_map.1 hid
    obtain ⟨f, hf, _⟩ := (Circuit.knows_of_buses hbuses hb hm).fragment
    exact ⟨f, hf⟩
  · have hmem := Bus.mem_sourcePinsOf h
    refine ⟨Bus.search_of_sourcePinsOf h, hmem, fun hempty q hundriven hreaches => ?_,
      fun hnone => ?_⟩
    · have hq := (hmem q).2 ⟨hundriven, hreaches⟩
      simp [hempty] at hq
    · refine SortedSet.ext fun q => ?_
      rw [hmem q]
      constructor
      · rintro ⟨hundriven, hreaches⟩
        exact absurd hreaches (hnone q hundriven)
      · simp

namespace Specimen

def wiredClock (source target : NodeId) : Circuit.Instruction :=
  .require {
    origin := .persisted ⟨1⟩
    function := "clock"
    source := { node := source, interface := some "CK" }
    target := { node := target, interface := some "CK" } }

def drivenInCycle : Circuit := (Circuit.new catalog).after [
  .part Circuit.root "U1" "oscillator" oscillator,
  .part Circuit.root "U2" "oscillator" oscillator,
  .part Circuit.root "U3" "oscillator" oscillator,
  .part Circuit.root "U4" "pll" consumer,
  wiredClock ⟨1⟩ ⟨2⟩, wiredClock ⟨2⟩ ⟨1⟩, wiredClock ⟨2⟩ ⟨4⟩, wiredClock ⟨3⟩ ⟨4⟩]

def ckPin (id : NodeId) : ComponentPin := ⟨id, ⟨⟨8⟩⟩⟩

def sourcesInCycle (p : ComponentPin) : Result (List (SortedSet ComponentPin)) := do
  (← drivenInCycle.buses Circuit.root true).mapM fun b => b.sourcePinsOf drivenInCycle p

end Specimen

/-- Only the third oscillator is a source of the part that it drives. The search around the cycle
stops as well, without a source. -/
theorem source_pins_exact_specimen : ∃ b, Specimen.drivenInCycle.buses Circuit.root true = .ok [b] ∧
    (∀ q, b.IsSource Specimen.drivenInCycle q (Specimen.ckPin ⟨4⟩) ↔ q = Specimen.ckPin ⟨3⟩) ∧
    (∃ drivers, b.drivers Specimen.drivenInCycle = .ok drivers ∧
      ∀ fuel, Bus.searchFuel drivers ≤ fuel →
        Bus.search drivers fuel [Specimen.ckPin ⟨1⟩] ∅ ∅ = some ∅) ∧
    ∀ q, (∀ r, ¬b.Drives Specimen.drivenInCycle r q) →
      ¬Relation.ReflTransGen (b.Drives Specimen.drivenInCycle) q (Specimen.ckPin ⟨1⟩) := by
  have hbehind : Specimen.sourcesInCycle (Specimen.ckPin ⟨4⟩) =
      .ok [.ofList [Specimen.ckPin ⟨3⟩]] := by decide +kernel
  have hcycle : Specimen.sourcesInCycle (Specimen.ckPin ⟨1⟩) = .ok [∅] := by decide +kernel
  obtain ⟨buses, hbuses, hbehind⟩ := bind_eq_ok.1 hbehind
  obtain ⟨_, hbuses', hcycle⟩ := bind_eq_ok.1 hcycle
  obtain rfl := Except.ok.inj (hbuses.symm.trans hbuses')
  rw [mapM_eq_ok_iff] at hbehind hcycle
  cases hbehind with
  | @cons b _ rest _ hbehind hrest =>
    cases hrest
    refine ⟨b, hbuses, fun q => ?_, ?_⟩
    · rw [← ((source_pins_exact b _ _).2.2 _ hbehind).2.1 q]
      simp
    · cases hcycle with
      | cons hcycle _ =>
        obtain ⟨hsearch, _, hnone⟩ := (source_pins_exact b _ _).2.2 _ hcycle
        exact ⟨hsearch, hnone.1 rfl⟩

end BoardNets
