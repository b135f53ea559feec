import BoardNets.Proofs.Circuit.Idle
import BoardNets.Proofs.Graph.Order
import BoardNets.Proofs.Net.Edges
import BoardNets.Proofs.Net.Planned
import BoardNets.Proofs.Netlist.Reordered

/-! Wires beside idle parts. The plan is the same, and all of its pins are on nodes that were there.
Carried out, it lays the same wires; the pins of the idle parts stand among the others, with no wire
at them. -/
namespace BoardNets
namespace Wires

/-- Both pins of the step are on nodes that are there, and the replacement is. -/
def Step.Stands (c : Circuit) : Step → Prop
  | .connect a b => c.Has a.component ∧ c.Has b.component
  | .mask _ replacement => c.Has replacement.component

theorem stands_of_applyTo {c : Circuit} {id : NodeId} {a : Ancillary} {n : AncillaryConnection}
    {pins : SortedSet ComponentPin} (hpins : ∀ p ∈ pins, c.Has p.component) {done : Application}
    (h : n.applyTo c id a pins = .ok done) : ∀ s ∈ done.steps, s.Stands c := by
  obtain ⟨own, hown, h⟩ := bind_eq_ok.1 h
  have hid := Circuit.has_of_componentPin hown
  obtain rfl := Circuit.componentPin_eq_ok hown
  have hjoin {kind : ReferenceKind} (h : n.joinReference c id a pins kind = .ok done) :
      ∀ s ∈ done.steps, s.Stands c := by
    obtain ⟨r?, hr, h⟩ := bind_eq_ok.1 h
    cases r? with
    | none => exact absurd h throw_ne_ok
    | some r =>
      obtain rfl := pure_eq_ok.1 h
      intro s hs
      obtain ⟨pair, hpair, rfl⟩ := Application.mem_steps_connections.1 hs
      obtain rfl := List.mem_singleton.1 hpair
      exact ⟨hid, Circuit.has_of_referencePin hr⟩
  cases hrole : n.role with
  | input =>
    rw [hrole] at h
    obtain rfl := pure_eq_ok.1 h
    intro s hs
    obtain ⟨pair, hpair, rfl⟩ := Application.mem_steps_connections.1 hs
    obtain ⟨p, hp, rfl⟩ := List.mem_map.1 hpair
    exact ⟨hpins p hp, hid⟩
  | output =>
    rw [hrole] at h
    obtain rfl := pure_eq_ok.1 h
    intro s hs
    obtain ⟨p, _, rfl⟩ := Application.mem_steps_masks.1 hs
    exact hid
  | voltageReference =>
    rw [hrole] at h
    exact hjoin h
  | groundReference =>
    rw [hrole] at h
    exact hjoin h

theorem has_of_busNetworks {c : Circuit} (hc : c.Balanced) {bus : Bus}
    {networks : SortedMap LogicalNetwork NetworkPins} (h : c.busNetworks bus = .ok networks)
    {N : LogicalNetwork} {m : NetworkPins} (hm : networks.find? N = some m) :
    ∀ p ∈ m.pins, c.Has p.component := by
  intro p hp
  obtain ⟨family, _, hgathered⟩ := Circuit.gathered_busNetworks h
  obtain ⟨i, _, x, hx, slot, _, hactive, _⟩ := (hgathered N p).1 ⟨m, hm, hp⟩
  rw [hc.component_of_activePins hx hactive]
  exact Circuit.has_of_interface hx

theorem stands_of_mem {d : Design} {buses : List Bus} (hc : d.circuit.Balanced)
    {steps : List Step} (h : plan d buses = .ok steps) : ∀ s ∈ steps, s.Stands d.circuit := by
  intro s hs
  cases planned_of_mem h hs with
  | onParent _ _ hinput hdone hs => exact stands_of_applyTo (hc.has_of_inputPins hinput) hdone s hs
  | onNetwork _ _ _ hnetworks hm hdone hs =>
    exact stands_of_applyTo (has_of_busNetworks hc hnetworks hm) hdone s hs
  | network _ hnetworks hm hs =>
    obtain ⟨first, rest, hpins, p, hp, rfl⟩ := mem_star.1 hs
    obtain ⟨hfirst, hrest⟩ := mem_of_mem_star hs
    have hhas := has_of_busNetworks hc hnetworks hm
    exact ⟨hhas _ hfirst, hhas _ hrest⟩

end Wires

namespace Circuit.Idles

variable {c c' : Circuit} {added : List NodeId} (h : c.Idles c' added)
include h

theorem localPlan : Wires.localPlan c' = Wires.localPlan c := by
  rw [Wires.localPlan, Wires.localPlan, h.ancillaries]
  refine bind_congr_of_ok (mapM_congr fun e he => ?_) fun _ _ => rfl
  obtain ⟨hid, ha⟩ := h.stands (List.mem_filter.1 (List.mem_mergeSort.1 he)).1
  dsimp only
  rw [h.applyAncillary h.old.balanced hid ha]

theorem networkPlan {listed : List (NodeId × Ancillary)} (hlisted : ∀ e ∈ listed, e ∈ c.ancillaries)
    {network : LogicalNetwork} {n : NetworkPins} (hn : ∀ p ∈ n.pins, c.Has p.component) :
    Wires.networkPlan c' listed network n = Wires.networkPlan c listed network n := by
  rw [Wires.networkPlan, Wires.networkPlan]
  split
  · refine bind_congr_of_ok (mapM_congr fun e he => ?_) fun _ _ => rfl
    obtain ⟨hid, ha⟩ := h.stands (hlisted e he)
    exact bind_congr_of_ok (mapM_congr fun k _ => by rw [h.applyTo hn hid ha]) fun _ _ => rfl
  · rfl

end Circuit.Idles

namespace Circuit.Idles

variable {d : Design} {c' : Circuit} {added : List NodeId} (h : d.circuit.Idles c' added)
include h

theorem busPlan {bus : Bus} (hbus : ∀ m ∈ bus.members, d.circuit.Knows m) :
    Wires.busPlan (d.over c') bus = Wires.busPlan d bus := by
  have hparts : (d.over c').busAncillaries bus none = d.busAncillaries bus none :=
    h.ancillaryParts rfl rfl
  rw [Wires.busPlan, Wires.busPlan, hparts]
  refine bind_congr_of_ok (h.busNetworks_eq hbus) fun networks hnetworks =>
    bind_congr fun parts => bind_congr_of_ok ?_ fun _ _ => rfl
  rw [Design.over, h.ancillaries]
  refine mapM_congr fun e he => h.networkPlan (fun role hrole => ?_) ?_
  · exact (List.mem_filter.1 (List.mem_mergeSort.1 hrole)).1
  · exact Wires.has_of_busNetworks h.old.balanced hnetworks (SortedMap.find?_eq_some_iff.2 he)

theorem plan {buses : List Bus} (hbuses : ∀ bus ∈ buses, ∀ m ∈ bus.members, d.circuit.Knows m) :
    Wires.plan (d.over c') buses = Wires.plan d buses := by
  rw [Wires.plan, Wires.plan, mapM_congr fun bus hbus => h.busPlan (hbuses bus hbus)]
  exact bind_congr_of_ok h.localPlan fun _ _ => rfl

end Circuit.Idles

namespace Graph

variable {α : Type} [DecidableEq α] {keep : α → Bool} {g g' : Graph α}

theorem filter_addNode (h : g'.nodes.filter keep = g.nodes) {a : α} (ha : keep a = true) :
    (g'.addNode a).nodes.filter keep = (g.addNode a).nodes := by
  have hmem : a ∈ g.nodes ↔ a ∈ g'.nodes := by
    rw [← h, List.mem_filter, and_iff_left ha]
  rw [addNode, addNode]
  by_cases hold : a ∈ g'.nodes
  · rw [if_pos hold, if_pos (hmem.2 hold), h]
  · rw [if_neg hold, if_neg (mt hmem.1 hold), List.filter_append, h,
      List.filter_cons_of_pos ha, List.filter_nil]

theorem filter_addNode_of_out (h : g'.nodes.filter keep = g.nodes) {a : α} (ha : keep a = false) :
    (g'.addNode a).nodes.filter keep = g.nodes := by
  rw [addNode]
  split
  · exact h
  · rw [List.filter_append, h, List.filter_cons_of_neg (by simp [ha]), List.filter_nil,
      List.append_nil]

theorem filter_addNodes (l : List α) (h : g'.nodes.filter keep = g.nodes) :
    (l.foldl addNode g').nodes.filter keep = ((l.filter keep).foldl addNode g).nodes := by
  induction l generalizing g g' with
  | nil => exact h
  | cons a l ih =>
    cases ha : keep a with
    | true =>
      rw [List.filter_cons_of_pos ha]
      exact ih (filter_addNode h ha)
    | false =>
      rw [List.filter_cons_of_neg (by simp [ha])]
      exact ih (filter_addNode_of_out h ha)

end Graph

namespace Wires

/-- The wires `w'` are those of `w`, with nodes besides that are not kept and that no wire ends
at. -/
structure Beside (keep : ComponentPin → Bool) (w w' : Wires) : Prop where
  masks : w'.masks = w.masks
  chainStarts : w'.chainStarts = w.chainStarts
  edges : w'.graph.edges = w.graph.edges
  nodes : w'.graph.nodes.filter keep = w.graph.nodes
  ends : ∀ e ∈ w.graph.edges, keep e.1 = true ∧ keep e.2 = true
  replacements : ∀ p r, w.masks.find? p = some r → keep r = true

namespace Beside

variable {keep : ComponentPin → Bool} {w w' : Wires} (h : Beside keep w w')
include h

theorem keep_masked {p : ComponentPin} (hp : keep p = true) : keep (w.masked p) = true := by
  rw [masked]
  cases hr : w.masks.find? p with
  | none => exact hp
  | some r => exact h.replacements p r hr

theorem connect {a b : ComponentPin} (ha : keep a = true) (hb : keep b = true) :
    Beside keep (w.connect a b) (w'.connect a b) := by
  have hmasked (p : ComponentPin) : w'.masked p = w.masked p := by
    rw [masked, masked, h.masks]
  rw [Wires.connect, Wires.connect]
  simp only [hmasked]
  split
  · exact h
  · exact {
      masks := h.masks
      chainStarts := h.chainStarts
      edges := by simp only [Graph.edges_addEdge, h.edges]
      nodes := Graph.filter_addNode (Graph.filter_addNode h.nodes (h.keep_masked ha))
        (h.keep_masked hb)
      ends := by
        intro e he
        rw [Graph.edges_addEdge, List.mem_append, List.mem_singleton] at he
        rcases he with he | rfl
        · exact h.ends e he
        · exact ⟨h.keep_masked ha, h.keep_masked hb⟩
      replacements := h.replacements }

theorem mask (p : ComponentPin) {r : ComponentPin} (hr : keep r = true) :
    Beside keep (w.mask p r) (w'.mask p r) where
  masks := congrArg (·.insert p r) h.masks
  chainStarts := by
    have hstart : w'.chainStart p = w.chainStart p := by
      rw [chainStart, chainStart, h.chainStarts]
    exact congrArg₂ (SortedMap.insert · r ·) h.chainStarts hstart
  edges := h.edges
  nodes := h.nodes
  ends := h.ends
  replacements := by
    intro q s hs
    change (w.masks.insert p r).find? q = some s at hs
    rw [SortedMap.find?_insert] at hs
    split at hs
    · exact Option.some.inj hs ▸ hr
    · exact h.replacements q s hs

omit h in
theorem carry {c : Circuit} (hkeep : ∀ p : ComponentPin, c.Has p.component → keep p = true)
    {steps : List Step} (hsteps : ∀ s ∈ steps, s.Stands c) (h : Beside keep w w') :
    Beside keep (w.carry steps) (w'.carry steps) := by
  induction steps generalizing w w' with
  | nil => exact h
  | cons s steps ih =>
    obtain ⟨hs, hrest⟩ := List.forall_mem_cons.1 hsteps
    cases s with
    | connect a b => exact ih hrest (h.connect (hkeep a hs.1) (hkeep b hs.2))
    | mask p r => exact ih hrest (h.mask p (hkeep r hs))

end Beside
end Wires

namespace Circuit

def holds (c : Circuit) (p : ComponentPin) : Bool := c.Has p.component

theorem holds_iff {c : Circuit} {p : ComponentPin} : c.holds p = true ↔ c.Has p.component :=
  decide_eq_true_iff

namespace Adds

variable {c c' : Circuit} {added : List NodeId} (h : c.Adds c' added) (hc : c.Reachable)
include h hc

theorem filter_partPins : c'.partPins.filter c.holds = c.partPins := by
  rw [partPins, partPins, ← h.filter_parts hc.forest hc.has_root, List.filter_flatMap]
  refine flatMap_filter (fun x _ hold => ?_) fun x _ hnew => ?_
  · have hhas := of_decide_eq_true hold
    cases hp' : c'.component? x with
    | some p' =>
      obtain ⟨p, children, hp, rfl⟩ := h.component_of_has hhas hp'
      rw [hp]
      exact List.filter_eq_self.2 fun q hq => by
        obtain ⟨pin, _, rfl⟩ := List.mem_map.1 hq
        exact hold
    | none =>
      cases hp : c.component? x with
      | none => rfl
      | some p =>
        obtain ⟨_, _, hsome⟩ := h.component hp
        rw [hsome] at hp'
        cases hp'
  · refine List.filter_eq_nil_iff.2 fun q hq => ?_
    cases hp' : c'.component? x with
    | none =>
      rw [hp'] at hq
      cases hq
    | some p' =>
      rw [hp'] at hq
      obtain ⟨pin, _, rfl⟩ := List.mem_map.1 hq
      exact hnew

theorem beside_bare : Wires.Beside c.holds (Wires.bare c) (Wires.bare c') where
  masks := rfl
  chainStarts := rfl
  edges := by rw [Wires.edges_bare, Wires.edges_bare]
  nodes := by
    rw [Wires.bare, Wires.bare, ← h.filter_partPins hc]
    exact Graph.filter_addNodes c'.partPins rfl
  ends := by
    rw [Wires.edges_bare]
    exact List.forall_mem_nil _
  replacements := by
    intro p r hr
    cases hr

end Adds

theorem Idles.beside {d : Design} {c' : Circuit} {added : List NodeId}
    (h : d.circuit.Idles c' added) {buses : List Bus} {steps : List Wires.Step}
    (hsteps : Wires.plan d buses = .ok steps) :
    Wires.Beside d.circuit.holds ((Wires.bare d.circuit).carry steps)
      ((Wires.bare c').carry steps) :=
  .carry (fun _ => holds_iff.2) (Wires.stands_of_mem h.old.balanced hsteps) (h.beside_bare h.old)

end Circuit
end BoardNets
