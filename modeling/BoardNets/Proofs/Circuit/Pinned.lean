import BoardNets.Proofs.Catalog.Linking
import BoardNets.Proofs.Circuit.Steady

/-! Assigned pins are there. Linking turns down connectivities that assign pins they do not have,
splitting an interface by child types keeps its pins, and adapters only add interfaces on the pins
of others. -/
namespace BoardNets

/-- The pins that interfaces are assigned are pins of the component. -/
def Component.Pinned (p : Component) : Prop :=
  ∀ i ∈ p.interfaces, ∀ a ∈ i.interface.assignments, ∀ pin ∈ a.pins, (p.pin? pin).isSome

theorem Interface.pins_of_realise {catalog : Catalog} {i : Interface}
    {realised : List ComponentInterface} (h : i.realise catalog = .ok realised) :
    ∀ x ∈ realised, ∀ a ∈ x.interface.assignments, ∃ b ∈ i.assignments, b.pins = a.pins := by
  intro x hx a ha
  obtain ⟨type, _, h⟩ := bind_eq_ok.1 h
  split at h
  · obtain ⟨childType, _, hchild⟩ := (mem_of_mapM h).1 hx
    obtain ⟨assignments, hassignments, hchild⟩ := bind_eq_ok.1 hchild
    obtain ⟨child, _, hchild⟩ := bind_eq_ok.1 hchild
    obtain rfl := pure_eq_ok.1 hchild
    obtain ⟨b, hb, hslot⟩ := (mem_of_mapM hassignments).1 ha
    obtain ⟨slot, _, hslot⟩ := bind_eq_ok.1 hslot
    obtain rfl := pure_eq_ok.1 hslot
    exact ⟨b, hb, rfl⟩
  · obtain rfl := pure_eq_ok.1 h
    obtain rfl := List.mem_singleton.1 hx
    exact ⟨a, ha, rfl⟩

namespace Component

variable {p q : Component}

theorem Pinned.congr (hp : p.Pinned) (h : q.outline = p.outline) : q.Pinned := by
  obtain ⟨_, _, _, _, hpins, hinterfaces, _⟩ := Component.mk.inj h
  intro i hi a ha pin hpin
  have hidle : i.idle ∈ p.interfaces.map ComponentInterface.idle :=
    hinterfaces ▸ List.mem_map_of_mem hi
  obtain ⟨j, hj, hji⟩ := List.mem_map.1 hidle
  have hsame : j.idle.interface = i.idle.interface := by rw [hji]
  rw [Component.pin?, hpins]
  exact hp j hj a (hsame ▸ ha) pin hpin

theorem Stock.pinned {catalog : Catalog} (hp : p.Stock catalog) (hc : catalog.Resolved) :
    p.Pinned := by
  rw [Stock] at hp
  intro i hi a ha pin hpin
  have hidle : i.idle ∈ p.interfaces.map ComponentInterface.idle := List.mem_map_of_mem hi
  cases hconnectivity : p.connectivity with
  | none =>
    rw [hconnectivity] at hp
    obtain ⟨-, hnone⟩ := Prod.mk.inj (pure_eq_ok.1 hp)
    rw [← hnone] at hidle
    cases hidle
  | some id =>
    rw [hconnectivity] at hp
    obtain ⟨k, hk, hp⟩ := bind_eq_ok.1 hp
    obtain ⟨realised, hrealised, hp⟩ := bind_eq_ok.1 hp
    obtain ⟨hpins, hinterfaces⟩ := Prod.mk.inj (pure_eq_ok.1 hp)
    obtain ⟨each, heach, hrealised⟩ := bind_eq_ok.1 hrealised
    obtain rfl := pure_eq_ok.1 hrealised
    rw [← hinterfaces] at hidle
    obtain ⟨xs, hxs, hx⟩ := List.mem_flatten.1 hidle
    obtain ⟨declared, hdeclared, hxs⟩ := (mem_of_mapM heach).1 hxs
    obtain ⟨b, hb, hba⟩ := Interface.pins_of_realise hxs i.idle hx a ha
    obtain ⟨o, ho⟩ := hc.part_pins hk declared hdeclared b hb pin (hba ▸ hpin)
    rw [Component.pin?, ← hpins]
    exact Option.isSome_iff_exists.2 ⟨o, ho⟩

theorem Pinned.adapt {i : ComponentInterface} (hp : p.Pinned) (hi : p.HasPinsOf i) :
    Component.Pinned { p with interfaces := p.interfaces ++ [i] } := by
  intro j hj a ha pin hpin
  rcases List.mem_append.1 hj with hj | hj
  · exact hp j hj a ha pin hpin
  · obtain rfl := List.mem_singleton.1 hj
    obtain ⟨base, hbase, hpins⟩ := hi
    obtain ⟨b, hb, hba⟩ := hpins a ha
    exact hp base hbase b hb pin (hba ▸ hpin)

end Component

namespace Circuit

def Pinned (c : Circuit) : Prop := ∀ x p, c.component? x = some p → p.Pinned

namespace Steady

theorem pinned : Steady
    (fun c => ∀ x p, c.component? x = some p → c.catalog.Resolved → p.Pinned) {} :=
  at_components (Q := fun catalog p => catalog.Resolved → p.Pinned)
    (fun _ _ _ hq hp hc => (hp hc).congr hq) (fun _ _ hp hc => hp.pinned hc)
    fun _ _ _ _ hpins _ hp hc => (hp hc).adapt hpins

/-- A property that no step is too much for is kept by all of them. -/
theorem after {P : Circuit → Prop} (hP : Steady P {}) {c : Circuit} (hc : P c)
    (steps : List Instruction) : P (c.after steps) := by
  induction steps generalizing c with
  | nil => exact hc
  | cons step steps ih =>
    exact ih (hP.keeps_perform (fun _ _ _ => trivial) (fun _ _ _ => trivial) c hc)

end Steady

variable {c : Circuit}

/-- Over a closed catalog, whatever is built, assigned pins are there. -/
theorem Reachable.pinned (hc : c.Reachable) (hcatalog : c.catalog.Resolved) : c.Pinned := by
  obtain ⟨catalog, steps, rfl⟩ := hc
  intro x p hp
  refine Steady.pinned.after (fun x p hp hnew => ?_) steps x p hp hcatalog
  exact (stocked_new catalog x p hp).pinned hnew

end Circuit
end BoardNets
