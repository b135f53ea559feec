import BoardNets.Net.Wires
import BoardNets.Proofs.Graph.Components
import BoardNets.Proofs.Traversal

/-! Laying wires in two stages. A design decides beforehand which pin pairs are connected and which
pins are replaced, in which order; carrying this plan out then needs no decision but that a replaced
pin is kept out of new wires. Facts about finished wires follow the plan step by step. -/
namespace BoardNets
namespace Wires

/-- One step of a plan. -/
inductive Step
  | connect (a b : ComponentPin)
  | mask (p replacement : ComponentPin)

def take (w : Wires) : Step → Wires
  | .connect a b => w.connect a b
  | .mask p replacement => w.mask p replacement

/-- Carries out a plan. -/
def carry (w : Wires) (steps : List Step) : Wires := steps.foldl take w

theorem carry_append (w : Wires) (s t : List Step) : w.carry (s ++ t) = (w.carry s).carry t := by
  simp [carry, List.foldl_append]

theorem foldlM_carry {α : Type} (plan : α → Result (List Step)) (w : Wires) (xs : List α) :
    xs.foldlM (fun w x => do return w.carry (← plan x)) w =
      (do return w.carry (← xs.mapM plan).flatten) := by
  induction xs generalizing w with
  | nil => rfl
  | cons x xs ih =>
    rw [List.foldlM_cons, List.mapM_cons]
    cases hx : plan x with
    | error e => rfl
    | ok steps =>
      change xs.foldlM _ (w.carry steps) = _
      rw [ih]
      cases hxs : xs.mapM plan with
      | error e => rfl
      | ok rest =>
        change Except.ok ((w.carry steps).carry rest.flatten) = _
        rw [← carry_append]
        rfl

end Wires

def Application.steps (a : Application) : List Wires.Step :=
  a.connections.toList.map (fun p => .connect p.first p.second) ++
    a.masks.toList.map fun m => .mask m.1 m.2

namespace Wires

theorem apply_eq_carry (w : Wires) (a : Application) : w.apply a = w.carry a.steps := by
  simp [apply, carry, Application.steps, List.foldl_append, List.foldl_map, take]

def star (pins : SortedSet ComponentPin) : List Step :=
  pins.toList.tail.map fun p => .connect (pins.toList.headD p) p

theorem connectAll_eq_carry (w : Wires) (pins : SortedSet ComponentPin) :
    w.connectAll pins = w.carry (star pins) := by
  rw [connectAll, carry, star]
  cases pins.toList with
  | nil => rfl
  | cons first rest => simp [List.foldl_map, take]

def localPlan (c : Circuit) : Result (List Step) := do
  let steps ← (Ancillary.sort (c.ancillaries.filter (·.2.isLocal))).mapM fun (id, a) => do
    return (← a.apply c id).steps
  return steps.flatten

theorem applyLocal_eq (w : Wires) (c : Circuit) :
    w.applyLocal c = (do return w.carry (← localPlan c)) := by
  rw [applyLocal, localPlan]
  simp only [apply_eq_carry, bind_assoc, pure_bind]
  rw [← foldlM_carry]
  simp only [bind_assoc, pure_bind]

def ancillaryPlan (c : Circuit) (network : LogicalNetwork) (pins : SortedSet ComponentPin)
    (id : NodeId) (a : Ancillary) : Result (List Step) := do
  let used := a.connections.filter fun n => n.interfacePin?.any (· ∈ network.requesting)
  let steps ← used.mapM fun n => do return (← n.applyTo c id a pins).steps
  return steps.flatten

theorem applyToNetwork_eq (w : Wires) (c : Circuit) (network : LogicalNetwork)
    (pins : SortedSet ComponentPin) (id : NodeId) (a : Ancillary) :
    w.applyToNetwork c network pins id a =
      (do return w.carry (← ancillaryPlan c network pins id a)) := by
  rw [applyToNetwork, ancillaryPlan]
  simp only [apply_eq_carry, bind_assoc, pure_bind]
  rw [← foldlM_carry]
  simp only [bind_assoc, pure_bind]

/-- Bus ancillaries on a network come before the network itself. -/
def networkPlan (c : Circuit) (ancillaries : List (NodeId × Ancillary)) (network : LogicalNetwork)
    (n : NetworkPins) : Result (List Step) := do
  let steps ← if n.requested then
    ancillaries.mapM fun (id, a) => ancillaryPlan c network n.pins id a
  else pure []
  return steps.flatten ++ star n.pins

theorem connectNetwork_eq (w : Wires) (c : Circuit) (ancillaries : List (NodeId × Ancillary))
    (network : LogicalNetwork) (n : NetworkPins) :
    w.connectNetwork c ancillaries network n =
      (do return w.carry (← networkPlan c ancillaries network n)) := by
  rw [connectNetwork, networkPlan]
  by_cases h : n.requested = true
  · simp only [h, if_true, applyToNetwork_eq, connectAll_eq_carry, foldlM_carry, bind_assoc,
      pure_bind, carry_append]
  · simp [h, connectAll_eq_carry]

def busPlan (d : Design) (bus : Bus) : Result (List Step) := do
  let networks ← d.circuit.busNetworks bus
  let parts ← d.busAncillaries bus none
  let ancillaries := Ancillary.sort (d.circuit.ancillaries.filter (·.1 ∈ parts))
  let steps ← networks.toList.mapM fun (network, n) =>
    networkPlan d.circuit ancillaries network n
  return steps.flatten

theorem connectBus_eq (w : Wires) (d : Design) (bus : Bus) :
    w.connectBus d bus = (do return w.carry (← busPlan d bus)) := by
  rw [connectBus, busPlan]
  simp only [connectNetwork_eq, foldlM_carry, bind_assoc, pure_bind]

/-- All that is done for a design: local ancillaries first, then bus by bus. -/
def plan (d : Design) (buses : List Bus) : Result (List Step) := do
  let first ← localPlan d.circuit
  let steps ← buses.mapM (busPlan d)
  return first ++ steps.flatten

theorem ofDesign_eq (d : Design) (buses : List Bus) :
    ofDesign d buses = (do return (bare d.circuit).carry (← plan d buses)) := by
  rw [ofDesign, plan]
  simp only [applyLocal_eq, connectBus_eq, foldlM_carry, bind_assoc, pure_bind, carry_append]

theorem ofDesign_eq_ok {d : Design} {buses : List Bus} {w : Wires} : ofDesign d buses = .ok w ↔
    ∃ steps, plan d buses = .ok steps ∧ (bare d.circuit).carry steps = w := by
  rw [ofDesign_eq]
  simp only [bind_eq_ok, pure_eq_ok]

theorem graph_connect (w : Wires) (a b : ComponentPin) :
    (w.connect a b).graph =
      if w.masked a = w.masked b then w.graph else w.graph.addEdge (w.masked a) (w.masked b) := by
  simp only [connect]
  split <;> rfl

/-- Without replacements, a wire between different pins is an edge. -/
theorem edges_connect {w : Wires} (hw : w.masks = ∅) {a b x y : ComponentPin} :
    (a, b) ∈ (w.connect x y).graph.edges ↔
      (a, b) ∈ w.graph.edges ∨ (a ≠ b ∧ a = x ∧ b = y) := by
  have hmasked (p : ComponentPin) : w.masked p = p := by simp [masked, hw]
  rw [graph_connect, hmasked, hmasked]
  by_cases hxy : x = y
  · have hnone : ¬(a ≠ b ∧ a = x ∧ b = y) := fun ⟨hne, ha, hb⟩ => hne (by rw [ha, hb, hxy])
    rw [if_pos hxy, or_iff_left hnone]
  · have hne (h : a = x ∧ b = y) : a ≠ b := by rwa [h.1, h.2]
    rw [if_neg hxy, Graph.edges_addEdge, List.mem_append, List.mem_singleton, Prod.mk.injEq,
      and_iff_right_of_imp hne]

theorem wellFormed_take {w : Wires} (hw : w.graph.WellFormed) (s : Step) :
    (w.take s).graph.WellFormed := by
  cases s with
  | connect a b =>
    rw [take, graph_connect]
    split
    · exact hw
    · exact hw.addEdge _ _
  | mask p replacement => exact hw

theorem wellFormed_carry {w : Wires} (hw : w.graph.WellFormed) (steps : List Step) :
    (w.carry steps).graph.WellFormed := by
  induction steps generalizing w with
  | nil => exact hw
  | cons s steps ih => exact ih (wellFormed_take hw s)

theorem mem_nodes_take {w : Wires} {p : ComponentPin} (hp : p ∈ w.graph.nodes) (s : Step) :
    p ∈ (w.take s).graph.nodes := by
  cases s with
  | connect a b =>
    rw [take, graph_connect]
    split
    · exact hp
    · exact Graph.mem_nodes_addEdge.2 (.inl hp)
  | mask p replacement => exact hp

theorem mem_nodes_carry {w : Wires} {p : ComponentPin} (hp : p ∈ w.graph.nodes)
    (steps : List Step) : p ∈ (w.carry steps).graph.nodes := by
  induction steps generalizing w with
  | nil => exact hp
  | cons s steps ih => exact ih (mem_nodes_take hp s)

/-- Without replacements, each pair of different pins in a plan becomes an edge. -/
theorem carry_connects {w : Wires} (hw : w.masks = ∅) {steps : List Step}
    (h : ∀ s ∈ steps, ∃ a b, s = .connect a b) {a b : ComponentPin} :
    (a, b) ∈ (w.carry steps).graph.edges ↔
      (a, b) ∈ w.graph.edges ∨ (a ≠ b ∧ .connect a b ∈ steps) := by
  induction steps generalizing w with
  | nil => simp [carry]
  | cons s steps ih =>
    obtain ⟨⟨x, y, rfl⟩, hsteps⟩ := List.forall_mem_cons.1 h
    have hmasks : (w.connect x y).masks = ∅ := by
      rw [connect]
      split <;> exact hw
    have hfirst : (a, b) ∈ (w.connect x y).graph.edges ↔
        (a, b) ∈ w.graph.edges ∨ (a ≠ b ∧ a = x ∧ b = y) := edges_connect hw
    change (a, b) ∈ ((w.connect x y).carry steps).graph.edges ↔ _
    rw [ih hmasks hsteps, hfirst, List.mem_cons, Step.connect.injEq, or_assoc, ← and_or_left]

theorem mem_star {pins : SortedSet ComponentPin} {s : Step} : s ∈ star pins ↔
    ∃ first rest, pins.toList = first :: rest ∧ ∃ p ∈ rest, s = .connect first p := by
  rw [star]
  cases pins.toList with
  | nil => simp
  | cons first rest =>
    simp only [List.tail_cons, List.headD_cons, List.mem_map, List.cons.injEq]
    constructor
    · rintro ⟨p, hp, rfl⟩
      exact ⟨first, rest, ⟨rfl, rfl⟩, p, hp, rfl⟩
    · rintro ⟨_, _, ⟨rfl, rfl⟩, p, hp, rfl⟩
      exact ⟨p, hp, rfl⟩

theorem mem_of_mem_star {pins : SortedSet ComponentPin} {a b : ComponentPin}
    (h : .connect a b ∈ star pins) : a ∈ pins ∧ b ∈ pins := by
  obtain ⟨first, rest, hpins, p, hp, heq⟩ := mem_star.1 h
  obtain ⟨rfl, rfl⟩ := Step.connect.inj heq
  rw [SortedSet.mem_def, SortedSet.mem_def, hpins]
  exact ⟨List.mem_cons_self, List.mem_cons_of_mem _ hp⟩

theorem star_joins {pins : SortedSet ComponentPin} {R : ComponentPin → ComponentPin → Prop}
    (hR : ∀ a b, a ≠ b → .connect a b ∈ star pins → R a b ∧ R b a) {p q : ComponentPin}
    (hp : p ∈ pins) (hq : q ∈ pins) : Relation.ReflTransGen R p q := by
  obtain ⟨first, rest, hpins⟩ := List.exists_cons_of_ne_nil (List.ne_nil_of_mem hp)
  have toFirst (x : ComponentPin) (hx : x ∈ pins) (hne : first ≠ x) : R first x ∧ R x first := by
    rw [SortedSet.mem_def, hpins, List.mem_cons] at hx
    rcases hx with rfl | hx
    · exact absurd rfl hne
    · exact hR _ _ hne (mem_star.2 ⟨first, rest, hpins, x, hx, rfl⟩)
  have hin : Relation.ReflTransGen R p first := by
    by_cases hpf : first = p
    · exact hpf ▸ .refl
    · exact .single (toFirst p hp hpf).2
  by_cases hqf : first = q
  · exact hqf ▸ hin
  · exact hin.tail (toFirst q hq hqf).1

theorem addNodes_wellFormed (pins : List ComponentPin) {g : Graph ComponentPin}
    (hg : g.WellFormed) : (pins.foldl Graph.addNode g).WellFormed := by
  induction pins generalizing g with
  | nil => exact hg
  | cons p pins ih => exact ih (hg.addNode p)

theorem mem_addNodes {pins : List ComponentPin} {g : Graph ComponentPin} {p : ComponentPin} :
    p ∈ (pins.foldl Graph.addNode g).nodes ↔ p ∈ g.nodes ∨ p ∈ pins := by
  induction pins generalizing g with
  | nil => simp
  | cons q pins ih => rw [List.foldl_cons, ih, Graph.mem_nodes_addNode, List.mem_cons, or_assoc]

theorem wellFormed_bare (c : Circuit) : (bare c).graph.WellFormed :=
  addNodes_wellFormed c.partPins Graph.wellFormed_empty

theorem mem_nodes_bare {c : Circuit} {p : ComponentPin} :
    p ∈ (bare c).graph.nodes ↔ p ∈ c.partPins := by
  rw [bare, mem_addNodes]
  exact or_iff_right List.not_mem_nil

theorem edges_bare (c : Circuit) : (bare c).graph.edges = [] := by
  have hkeep (pins : List ComponentPin) (g : Graph ComponentPin) :
      (pins.foldl Graph.addNode g).edges = g.edges := by
    induction pins generalizing g with
    | nil => rfl
    | cons p pins ih => rw [List.foldl_cons, ih, Graph.edges_addNode]
  exact hkeep c.partPins ∅

/-- Finished wires are a graph over the pins of all parts, at least. -/
theorem wellFormed_ofDesign {d : Design} {buses : List Bus} {w : Wires}
    (h : ofDesign d buses = .ok w) : w.graph.WellFormed := by
  obtain ⟨steps, _, rfl⟩ := ofDesign_eq_ok.1 h
  exact wellFormed_carry (wellFormed_bare _) steps

theorem mem_nodes_ofDesign {d : Design} {buses : List Bus} {w : Wires}
    (h : ofDesign d buses = .ok w) {p : ComponentPin} (hp : p ∈ d.circuit.partPins) :
    p ∈ w.graph.nodes := by
  obtain ⟨steps, _, rfl⟩ := ofDesign_eq_ok.1 h
  exact mem_nodes_carry (mem_nodes_bare.2 hp) steps

end Wires
end BoardNets
