import BoardNets.Proofs.Ancillary.Order
import BoardNets.Proofs.Net.Edges
import BoardNets.Proofs.Net.Networks

/-! Edges at replaced pins. A new wire goes to the pins that replace its ends at that time, and no
further: where a replacement has been replaced itself, the wire ends there all the same. Other
replaced pins get no new edges. -/
namespace BoardNets
namespace Wires

variable {w : Wires} {x : ComponentPin}

theorem find?_masks_take (w : Wires) (s : Step) (hx : (w.masks.find? x).isSome = true) :
    ((w.take s).masks.find? x).isSome = true := by
  cases s with
  | connect a b => rwa [take, masks_connect]
  | mask p replacement =>
    rw [take, mask, SortedMap.find?_insert]
    split
    · rfl
    · exact hx

theorem find?_masks_carry (steps : List Step) (hx : (w.masks.find? x).isSome = true) :
    ((w.carry steps).masks.find? x).isSome = true := by
  induction steps generalizing w with
  | nil => exact hx
  | cons s steps ih => exact ih (find?_masks_take w s hx)

theorem find?_chainStarts_take (w : Wires) (s : Step) (hx : (w.chainStarts.find? x).isSome = true) :
    ((w.take s).chainStarts.find? x).isSome = true := by
  cases s with
  | connect a b => rwa [take, chainStarts_connect]
  | mask p replacement =>
    rw [take, mask, SortedMap.find?_insert]
    split
    · rfl
    · exact hx

theorem find?_chainStarts_carry (steps : List Step) (hx : (w.chainStarts.find? x).isSome = true) :
    ((w.carry steps).chainStarts.find? x).isSome = true := by
  induction steps generalizing w with
  | nil => exact hx
  | cons s steps ih => exact ih (find?_chainStarts_take w s hx)

/-- Each replacement has the start of its chain on record. -/
def Recorded (w : Wires) : Prop :=
  ∀ p replacement, w.masks.find? p = some replacement →
    (w.chainStarts.find? replacement).isSome = true

theorem recorded_bare (c : Circuit) : (bare c).Recorded := by
  intro p replacement h
  cases h

theorem Recorded.take (hw : w.Recorded) (s : Step) : (w.take s).Recorded := by
  cases s with
  | connect a b =>
    intro p replacement h
    rw [Wires.take, masks_connect] at h
    rw [Wires.take, chainStarts_connect]
    exact hw p replacement h
  | mask q new =>
    intro p replacement h
    rw [Wires.take, mask, SortedMap.find?_insert] at h
    rw [Wires.take, mask, SortedMap.find?_insert]
    split
    · rfl
    · rename_i hne
      split at h
      · exact absurd (Option.some.inj h).symm hne
      · exact hw p replacement h

theorem Recorded.carry (hw : w.Recorded) (steps : List Step) : (w.carry steps).Recorded := by
  induction steps generalizing w with
  | nil => exact hw
  | cons s steps ih => exact ih (hw.take s)

theorem masked_eq_iff (hx : (w.masks.find? x).isSome = true) {a : ComponentPin} :
    w.masked a = x ↔ w.masks.find? a = some x := by
  rw [masked]
  cases ha : w.masks.find? a with
  | some r => simp
  | none =>
    have hne : a ≠ x := by
      rintro rfl
      rw [ha] at hx
      cases hx
    simp [hne]

/-- Edges end at a replaced pin where it replaces an end of a connection. -/
theorem touches_added_iff (hx : (w.masks.find? x).isSome = true) {a b : ComponentPin} :
    (∃ e ∈ w.added (.connect a b), e.1 = x ∨ e.2 = x) ↔
      w.masked a ≠ w.masked b ∧ (w.masks.find? a = some x ∨ w.masks.find? b = some x) := by
  rw [← masked_eq_iff hx, ← masked_eq_iff hx]
  constructor
  · rintro ⟨e, he, hends⟩
    obtain ⟨hne, rfl⟩ := mem_added.1 he
    exact ⟨hne, hends⟩
  · rintro ⟨hne, hends⟩
    exact ⟨_, mem_added.2 ⟨hne, rfl⟩, hends⟩

theorem touches_laid_iff (hx : (w.masks.find? x).isSome = true) {steps : List Step} :
    (∃ e ∈ w.laid steps, e.1 = x ∨ e.2 = x) ↔
      ∃ first a b rest, steps = first ++ .connect a b :: rest ∧
        (w.carry first).masked a ≠ (w.carry first).masked b ∧
        ((w.carry first).masks.find? a = some x ∨ (w.carry first).masks.find? b = some x) := by
  constructor
  · rintro ⟨e, he, hends⟩
    obtain ⟨first, a, b, rest, hsteps, he⟩ := mem_laid_iff.1 he
    have hfirst := find?_masks_carry first hx
    exact ⟨first, a, b, rest, hsteps, (touches_added_iff hfirst).1 ⟨e, he, hends⟩⟩
  · rintro ⟨first, a, b, rest, hsteps, h⟩
    have hfirst := find?_masks_carry first hx
    obtain ⟨e, he, hends⟩ := (touches_added_iff hfirst).2 h
    exact ⟨e, mem_laid_iff.2 ⟨first, a, b, rest, hsteps, he⟩, hends⟩

/-- What has never replaced another pin gets no more edges once it has been replaced. -/
theorem not_touches_laid (hw : w.Recorded) (hx : (w.masks.find? x).isSome = true)
    {steps : List Step} (hnone : (w.carry steps).chainStarts.find? x = none) :
    ∀ e ∈ w.laid steps, e.1 ≠ x ∧ e.2 ≠ x := by
  intro e he
  by_contra hends
  have htouches : e.1 = x ∨ e.2 = x := by tauto
  obtain ⟨first, a, b, rest, rfl, _, hreplaces⟩ := (touches_laid_iff hx).1 ⟨e, he, htouches⟩
  have hrecorded := hw.carry first
  have hknown : ((w.carry first).chainStarts.find? x).isSome = true :=
    hreplaces.elim (hrecorded a x) (hrecorded b x)
  have hkept := find?_chainStarts_carry (.connect a b :: rest) hknown
  rw [← carry_append, hnone] at hkept
  cases hkept

end Wires

/-- Let a pin be replaced at some time of a run. From then on, the edges at it are just those of
connections with an end that it replaces itself; so there are none unless it is a replacement, the
output of an ancillary, and every connection to a pin behind which it stands ends at it even though
it has been replaced. -/
theorem late_edge_iff {d : Design} {buses : List Bus} {before after : List Wires.Step}
    (hplan : Wires.plan d buses = .ok (before ++ after)) {x : ComponentPin}
    (hx : (((Wires.bare d.circuit).carry before).masks.find? x).isSome = true) :
    ∃ w, Wires.ofDesign d buses = .ok w ∧
      w.graph.edges = ((Wires.bare d.circuit).carry before).graph.edges ++
        ((Wires.bare d.circuit).carry before).laid after ∧
      ((∃ e ∈ ((Wires.bare d.circuit).carry before).laid after, e.1 = x ∨ e.2 = x) ↔
        ∃ first a b rest, after = first ++ .connect a b :: rest ∧
          ((Wires.bare d.circuit).carry (before ++ first)).masked a ≠
            ((Wires.bare d.circuit).carry (before ++ first)).masked b ∧
          (((Wires.bare d.circuit).carry (before ++ first)).masks.find? a = some x ∨
            ((Wires.bare d.circuit).carry (before ++ first)).masks.find? b = some x)) ∧
      (w.chainStarts.find? x = none →
        ∀ e ∈ ((Wires.bare d.circuit).carry before).laid after, e.1 ≠ x ∧ e.2 ≠ x) := by
  refine ⟨_, Wires.ofDesign_eq_ok.2 ⟨_, hplan, rfl⟩, ?_, ?_, ?_⟩
  · rw [Wires.carry_append, Wires.edges_carry]
  · simp only [Wires.carry_append]
    exact Wires.touches_laid_iff hx
  · rw [Wires.carry_append]
    exact Wires.not_touches_laid ((Wires.recorded_bare d.circuit).carry before) hx

namespace Specimen

/-- A series resistor on some pin of a node, wired from its first pin to its second one. -/
def resistor (parent : NodeId) (pin : PinId) : Ancillary where
  type := .seriesResistor
  binding := .pins parent
  connections := [⟨⟨⟨8⟩⟩, .input, .pin pin⟩, ⟨⟨⟨9⟩⟩, .output, .pin pin⟩]

/-- A resistor on the oscillator's clock pin, and one more on the output of the first. -/
def cascade : Design :=
  { wholeDesign with
    circuit := (Circuit.new catalog).after (steps ++ [
      .ancillary Circuit.root "R1" "resistor" consumer (resistor ⟨2⟩ ⟨⟨8⟩⟩),
      .ancillary Circuit.root "R2" "resistor" consumer (resistor ⟨4⟩ ⟨⟨9⟩⟩)]) }

/-- The output of the first resistor and that of the second. -/
def midway : ComponentPin := ⟨⟨4⟩, ⟨⟨9⟩⟩⟩
def endpoint : ComponentPin := ⟨⟨5⟩, ⟨⟨9⟩⟩⟩

theorem exists_cascade : ∃ buses before after,
    cascade.circuit.flattenedBuses Circuit.root = .ok buses ∧
    Wires.plan cascade buses = .ok (before ++ after) ∧
    ((Wires.bare cascade.circuit).carry before).masks.find? midway = some endpoint ∧
    (midway, (⟨⟨3⟩, ⟨⟨8⟩⟩⟩ : ComponentPin)) ∈
      ((Wires.bare cascade.circuit).carry before).laid after := by
  have hsorted : Ancillary.sort (cascade.circuit.ancillaries.filter (·.2.isLocal)) =
      cascade.circuit.ancillaries.filter (·.2.isLocal) := Ancillary.sort_eq_self (by decide +kernel)
  have hrun : (do
      let buses ← cascade.circuit.flattenedBuses Circuit.root
      let before ← Wires.localPlan cascade.circuit
      let after ← buses.mapM (Wires.busPlan cascade)
      let w := (Wires.bare cascade.circuit).carry before
      return (w.masks.find? midway, w.laid after.flatten)) =
        .ok (some endpoint, [(midway, (⟨⟨3⟩, ⟨⟨8⟩⟩⟩ : ComponentPin))]) := by
    rw [Wires.localPlan, hsorted]
    decide +kernel
  obtain ⟨buses, hbuses, hrun⟩ := bind_eq_ok.1 hrun
  obtain ⟨before, hbefore, hrun⟩ := bind_eq_ok.1 hrun
  obtain ⟨after, hafter, hrun⟩ := bind_eq_ok.1 hrun
  obtain ⟨hmask, hlaid⟩ := Prod.mk.inj (pure_eq_ok.1 hrun)
  refine ⟨buses, before, after.flatten, hbuses, ?_, hmask, hlaid ▸ List.mem_cons_self⟩
  rw [Wires.plan, hbefore, hafter]
  rfl

end Specimen

/-- The bus of the cascade is connected to the output of the first resistor, which the second has
replaced, because it is connected to a pin that the first one replaces. -/
theorem late_edge_cascade : ∃ buses before after,
    Wires.plan Specimen.cascade buses = .ok (before ++ after) ∧
    ∃ first a b rest, after = first ++ .connect a b :: rest ∧
      (((Wires.bare Specimen.cascade.circuit).carry (before ++ first)).masks.find? a =
          some Specimen.midway ∨
        ((Wires.bare Specimen.cascade.circuit).carry (before ++ first)).masks.find? b =
          some Specimen.midway) := by
  obtain ⟨buses, before, after, _, hplan, hmask, hlaid⟩ := Specimen.exists_cascade
  have hx := Option.isSome_of_eq_some hmask
  obtain ⟨_, _, _, hiff, _⟩ := late_edge_iff hplan hx
  obtain ⟨first, a, b, rest, hafter, _, hreplaces⟩ := hiff.1 ⟨_, hlaid, .inl rfl⟩
  exact ⟨buses, before, after, hplan, first, a, b, rest, hafter, hreplaces⟩

/-- A pin that a different pin has replaced does get edges afterwards. -/
theorem replaced_pin_gains_edge : ∃ buses before after,
    Specimen.cascade.circuit.flattenedBuses Circuit.root = .ok buses ∧
    Wires.plan Specimen.cascade buses = .ok (before ++ after) ∧
    ∃ x replacement, x ≠ replacement ∧
      ((Wires.bare Specimen.cascade.circuit).carry before).masks.find? x = some replacement ∧
      ∃ e ∈ ((Wires.bare Specimen.cascade.circuit).carry before).laid after, e.1 = x ∨ e.2 = x := by
  obtain ⟨buses, before, after, hbuses, hplan, hmask, hlaid⟩ := Specimen.exists_cascade
  exact ⟨buses, before, after, hbuses, hplan, _, _, by decide, hmask, _, hlaid, .inl rfl⟩

end BoardNets
