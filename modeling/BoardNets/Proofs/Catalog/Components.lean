import BoardNets.Proofs.Catalog.Linking
import BoardNets.Proofs.Catalog.Networks
import BoardNets.Proofs.Graph.Covers
import Mathlib.Data.Set.Basic

/-! The logical networks of a linked catalog are the connected components of its compatible pairs.
None of them shares a pin with another one on the same side, so a pin that no network has on the
side it is asked for is on the other side of one network at most, and no lookup is ambiguous. -/
namespace BoardNets

/-- The pins of a network, each on its side. -/
def LogicalNetwork.nodes (n : LogicalNetwork) : Set SidedPin :=
  {s | n.hasNode s.pin s.requesting = true}

namespace Catalog

variable {c : Catalog} {f : Family} {key : FamilyKey} {networks : List LogicalNetwork}

/-- A requesting pin and a pin that it drives, in either order. -/
def Joined (c : Catalog) (f : Family) (a b : SidedPin) : Prop :=
  (a.requesting = true ∧ b.requesting = false ∧ c.Drives f a.pin b.pin) ∨
    (b.requesting = true ∧ a.requesting = false ∧ c.Drives f b.pin a.pin)

/-- All that chains of compatible pairs reach from one end of a pair. -/
def IsComponent (c : Catalog) (f : Family) (s : Set SidedPin) : Prop :=
  ∃ a, (∃ b, c.Joined f a b) ∧ ∀ b, b ∈ s ↔ Relation.ReflTransGen (c.Joined f) a b

/-- What a lookup of a pin on a side has to answer, given the networks of the family. -/
inductive Answer (c : Catalog) (key : FamilyKey) (networks : List LogicalNetwork)
    (pin : InterfacePinId) (side : Bool) : Except CatalogError LogicalNetwork → Prop
  | held {N : LogicalNetwork} : N ∈ networks → N.hasNode pin side = true →
      Answer c key networks pin side (.ok N)
  | opposite {N : LogicalNetwork} : (∀ M ∈ networks, M.hasNode pin side = false) → N ∈ networks →
      N.hasNode pin (!side) = true → Answer c key networks pin side (.ok N)
  | missing : (∀ M ∈ networks, ∀ any, M.hasNode pin any = false) →
      Answer c key networks pin side (.error (.noLogicalNetwork key (c.pinLabel pin) side))

theorem Closed.ends_of_drives (hc : c.Closed) {a b : InterfacePinId} (h : c.Drives f a b) :
    (∃ p, c.interfacePin a = .ok p) ∧ ∃ p, c.interfacePin b = .ok p := by
  obtain ⟨_, _, _, _, _, slot, _, pin, hpin, rfl, hb⟩ := h
  exact ⟨⟨pin, hc.keyed hpin ▸ hpin⟩, hc.compatible hpin hb⟩

theorem Closed.exists_pairGraph (hc : c.Closed) (hf : c.family key = .ok f) :
    ∃ g, c.pairGraph f = .ok g := by
  refine exists_foldlM fun g id hid => ?_
  obtain ⟨type, htype⟩ := hc.types hf hid
  rw [addTypePairs, htype]
  by_cases hrequesting : type.canBeRequired = true
  · obtain ⟨g', hg'⟩ : ∃ g', type.pins.foldlM (fun g pin => do
        let pin ← c.interfacePin pin
        return pin.compatiblePins.toList.foldl
          (fun g o => g.addEdge ⟨pin.id, true⟩ ⟨o, false⟩) g) g = .ok g' := by
      refine exists_foldlM fun g slot hslot => ?_
      obtain ⟨pin, hpin⟩ := hc.pins htype hslot
      rw [hpin]
      exact ⟨_, rfl⟩
    exact ⟨g', by simpa [hrequesting, bind, Except.bind] using hg'⟩
  · exact ⟨g, by simp [hrequesting, bind, Except.bind, pure, Except.pure]⟩

theorem covered_pairGraph {g : Graph SidedPin} (h : c.pairGraph f = .ok g) : Covered g :=
  pairGraph_induction (fun _ hn => absurd hn List.not_mem_nil) (fun _ _ _ hg => covered_addPairs hg)
    h

theorem joined_iff {g : Graph SidedPin} (h : c.pairGraph f = .ok g) {a b : SidedPin} :
    c.Joined f a b ↔ (a, b) ∈ g.edges ∨ (b, a) ∈ g.edges := by
  rw [edges_pairGraph h, edges_pairGraph h]
  rfl

theorem mem_nodes_pairGraph {g : Graph SidedPin} (h : c.pairGraph f = .ok g) {a : SidedPin} :
    a ∈ g.nodes ↔ ∃ b, c.Joined f a b := by
  simp only [joined_iff h]
  constructor
  · exact covered_pairGraph h a
  · rintro ⟨b, hab | hba⟩
    · exact ((wellFormed_pairGraph h).ends _ hab).1
    · exact ((wellFormed_pairGraph h).ends _ hba).2

theorem Closed.exists_networkOf (hc : c.Closed) {g : Graph SidedPin} (hg : c.pairGraph f = .ok g)
    {nodes : SortedSet SidedPin} (hnodes : nodes ∈ g.components) :
    ∃ N, c.networkOf nodes = .ok N := by
  obtain ⟨pins, hpins⟩ : ∃ pins, nodes.toList.mapM (fun n => do
      return (n, (← c.interfacePin n.pin).reference)) = Except.ok pins := by
    refine exists_mapM_iff.2 fun n hn => ?_
    have hmem := Graph.mem_nodes_of_component (wellFormed_pairGraph hg) hnodes hn
    obtain ⟨m, ⟨_, _, hdrives⟩ | ⟨_, _, hdrives⟩⟩ := (mem_nodes_pairGraph hg).1 hmem
    · obtain ⟨p, hp⟩ := (hc.ends_of_drives hdrives).1
      exact ⟨_, by rw [hp]; rfl⟩
    · obtain ⟨p, hp⟩ := (hc.ends_of_drives hdrives).2
      exact ⟨_, by rw [hp]; rfl⟩
  exact ⟨_, by rw [networkOf, hpins]; rfl⟩

theorem Closed.exists_logicalNetworks (hc : c.Closed) (hf : c.family key = .ok f) :
    ∃ networks, c.logicalNetworks key = .ok networks := by
  obtain ⟨g, hg⟩ := hc.exists_pairGraph hf
  obtain ⟨made, hmade⟩ : ∃ made, g.components.mapM c.networkOf = .ok made :=
    exists_mapM_iff.2 fun _ hnodes => hc.exists_networkOf hg hnodes
  exact ⟨_, bind_eq_ok.2 ⟨f, hf, bind_eq_ok.2 ⟨g, hg, bind_eq_ok.2 ⟨made, hmade, rfl⟩⟩⟩⟩

theorem nodes_networkOf {nodes : SortedSet SidedPin} {N : LogicalNetwork}
    (h : c.networkOf nodes = .ok N) : N.nodes = {n | n ∈ nodes} :=
  Set.ext fun n => hasNode_networkOf h n.pin n.requesting

theorem isComponent_iff {g : Graph SidedPin} (hg : c.pairGraph f = .ok g) {s : Set SidedPin} :
    c.IsComponent f s ↔ ∃ nodes ∈ g.components, {n | n ∈ nodes} = s := by
  have hwell := wellFormed_pairGraph hg
  have hchain {a : SidedPin} (ha : a ∈ g.nodes) (b : SidedPin) :
      Relation.ReflTransGen (c.Joined f) a b ↔ g.Linked a b := by
    rw [Graph.linked_iff_reflTransGen, and_iff_right ha]
    simp only [← joined_iff hg]
  constructor
  · rintro ⟨a, ha, hs⟩
    have ha := (mem_nodes_pairGraph hg).2 ha
    obtain ⟨nodes, hnodes, hmem⟩ := Graph.exists_component ha
    obtain ⟨base, _, hbase⟩ := (Graph.mem_components_iff hwell).1 hnodes
    have hab := (hbase a).1 hmem
    refine ⟨nodes, hnodes, Set.ext fun b => ?_⟩
    rw [Set.mem_ofPred_eq, hbase, hs, hchain ha]
    exact ⟨Graph.linked_trans (Graph.linked_symm hwell hab), Graph.linked_trans hab⟩
  · rintro ⟨nodes, hnodes, rfl⟩
    obtain ⟨base, hin, hbase⟩ := (Graph.mem_components_iff hwell).1 hnodes
    refine ⟨base, (mem_nodes_pairGraph hg).1 hin, fun b => ?_⟩
    rw [hchain hin]
    exact hbase b

theorem isComponent_iff_network (h : c.logicalNetworks key = .ok networks)
    (hf : c.family key = .ok f) {s : Set SidedPin} :
    c.IsComponent f s ↔ ∃ N ∈ networks, N.nodes = s := by
  obtain ⟨f', g, hf', hg, hmem, hmade⟩ := mem_logicalNetworks h
  obtain rfl := Except.ok.inj (hf.symm.trans hf')
  rw [isComponent_iff hg]
  constructor
  · rintro ⟨nodes, hnodes, rfl⟩
    obtain ⟨N, hN⟩ := hmade nodes hnodes
    exact ⟨N, (hmem N).2 ⟨nodes, hnodes, hN⟩, nodes_networkOf hN⟩
  · rintro ⟨N, hN, rfl⟩
    obtain ⟨nodes, hnodes, hN⟩ := (hmem N).1 hN
    exact ⟨nodes, hnodes, (nodes_networkOf hN).symm⟩

theorem pairwise_logicalNetworks (h : c.logicalNetworks key = .ok networks) :
    networks.Pairwise fun N M => ∀ n ∈ N.nodes, n ∉ M.nodes := by
  obtain ⟨f, hf, h⟩ := bind_eq_ok.1 h
  obtain ⟨g, hg, h⟩ := bind_eq_ok.1 h
  obtain ⟨made, hmade, h⟩ := bind_eq_ok.1 h
  obtain rfl := pure_eq_ok.1 h
  have hpairwise : made.Pairwise fun N M => ∀ n ∈ N.nodes, n ∉ M.nodes := by
    refine pairwise_of_mapM hmade (Graph.pairwise_components (wellFormed_pairGraph hg)) ?_
    intro s t N M hN hM hst
    rw [nodes_networkOf hN, nodes_networkOf hM]
    exact hst
  exact hpairwise.perm (List.mergeSort_perm _ _).symm fun h n hM hN => h n hN hM

theorem filter_eq_find? {α : Type} {p : α → Bool} {xs : List α}
    (h : xs.Pairwise fun a b => ¬(p a = true ∧ p b = true)) :
    xs.filter p = (xs.find? p).toList := by
  induction xs with
  | nil => rfl
  | cons x xs ih =>
    obtain ⟨hx, hxs⟩ := List.pairwise_cons.1 h
    cases hp : p x with
    | false =>
      rw [List.filter_cons_of_neg (by simp [hp]), List.find?_cons_of_neg (by simp [hp])]
      exact ih hxs
    | true =>
      have hnone : xs.filter p = [] := List.filter_eq_nil_iff.2 fun y hy hpy => hx y hy ⟨hp, hpy⟩
      rw [List.filter_cons_of_pos hp, List.find?_cons_of_pos hp, hnone]
      rfl

theorem contains_eq_or (N : LogicalNetwork) (pin : InterfacePinId) (side : Bool) :
    N.contains pin = (N.hasNode pin side || N.hasNode pin (!side)) := by
  cases side with
  | true => simp [LogicalNetwork.contains, LogicalNetwork.hasNode]
  | false => simp [LogicalNetwork.contains, LogicalNetwork.hasNode, Bool.or_comm]

/-- Where a pin is on one side of no network, one network at most has it on the other side, and that
one is answered. -/
theorem answer_logicalNetwork (h : c.logicalNetworks key = .ok networks) (pin : InterfacePinId)
    (side : Bool) : c.Answer key networks pin side (c.logicalNetwork key pin side) := by
  rw [logicalNetwork, h]
  simp only [bind, Except.bind]
  cases hfind : networks.find? (·.hasNode pin side) with
  | some N =>
    have hN : N.hasNode pin side = true := by simpa using List.find?_some hfind
    exact .held (List.mem_of_find?_eq_some hfind) hN
  | none =>
    have hnone : ∀ N ∈ networks, N.hasNode pin side = false := fun N hN => by
      simpa using List.find?_eq_none.1 hfind N hN
    have hopposite : networks.filter (·.contains pin) =
        (networks.find? (·.hasNode pin (!side))).toList := by
      have hexclusive : networks.Pairwise fun N M =>
          ¬(N.hasNode pin (!side) = true ∧ M.hasNode pin (!side) = true) := by
        exact (pairwise_logicalNetworks h).imp fun hapart hboth =>
          hapart ⟨pin, !side⟩ hboth.1 hboth.2
      rw [← filter_eq_find? hexclusive]
      refine List.filter_congr fun N hN => ?_
      rw [contains_eq_or N pin side, hnone N hN, Bool.false_or]
    rw [hopposite]
    cases hother : networks.find? (·.hasNode pin (!side)) with
    | some N =>
      have hN : N.hasNode pin (!side) = true := by simpa using List.find?_some hother
      exact .opposite hnone (List.mem_of_find?_eq_some hother) hN
    | none =>
      refine .missing fun N hN any => ?_
      rcases Bool.eq_or_eq_not any side with rfl | rfl
      · exact hnone N hN
      · simpa using List.find?_eq_none.1 hother N hN

/-- In a linked catalog the networks of a family are the connected components of its compatible
pairs, each once, and a lookup answers the network that holds the pin on the side it is asked for,
else the one that holds it on the other side, else that there is none. -/
theorem networks_are_components {s : Snapshot} (hc : ofSnapshot s = .ok c)
    (hf : c.family key = .ok f) : ∃ networks, c.logicalNetworks key = .ok networks ∧
      (∀ nodes, c.IsComponent f nodes ↔ ∃ N ∈ networks, N.nodes = nodes) ∧
      (networks.Pairwise fun N M => ∀ n ∈ N.nodes, n ∉ M.nodes) ∧
      ∀ pin side, c.Answer key networks pin side (c.logicalNetwork key pin side) ∧
        ∀ key' pin' count,
          c.logicalNetwork key pin side ≠ .error (.ambiguousLogicalNetwork key' pin' count) := by
  obtain ⟨networks, h⟩ := (closed_ofSnapshot hc).exists_logicalNetworks hf
  refine ⟨networks, h, fun _ => isComponent_iff_network h hf, pairwise_logicalNetworks h,
    fun pin side => ?_⟩
  have hanswer := answer_logicalNetwork h pin side
  refine ⟨hanswer, fun key' pin' count heq => ?_⟩
  rw [heq] at hanswer
  cases hanswer

namespace Specimen

def serial : Snapshot where
  families := [{ id := ⟨⟨1⟩⟩, name := "serial", label := "UART" }]
  interfaceTypes := [
    { id := ⟨⟨2⟩⟩, name := "link", label := "link", family := some ⟨⟨1⟩⟩, canBeRequired := true },
    { id := ⟨⟨3⟩⟩, name := "probe", label := "probe", family := some ⟨⟨1⟩⟩ }]
  interfacePins := [
    { id := ⟨⟨4⟩⟩, interfaceType := ⟨⟨2⟩⟩, reference := "TX", pinType := .digital,
      compatiblePins := [⟨⟨5⟩⟩] },
    { id := ⟨⟨5⟩⟩, interfaceType := ⟨⟨2⟩⟩, reference := "RX", pinType := .digital },
    { id := ⟨⟨6⟩⟩, interfaceType := ⟨⟨3⟩⟩, reference := "IN", pinType := .digital,
      compatiblePins := [⟨⟨4⟩⟩] }]

end Specimen

/-- What the probe listens to is also what it is asked to send on. -/
theorem networks_are_components_specimen : ∃ c f networks, ofSnapshot Specimen.serial = .ok c ∧
    c.family (.declared ⟨⟨1⟩⟩) = .ok f ∧ c.logicalNetworks (.declared ⟨⟨1⟩⟩) = .ok networks ∧
    (∀ nodes, c.IsComponent f nodes ↔ ∃ N ∈ networks, N.nodes = nodes) ∧
    (networks.Pairwise fun N M => ∀ n ∈ N.nodes, n ∉ M.nodes) ∧
    c.Answer (.declared ⟨⟨1⟩⟩) networks ⟨⟨6⟩⟩ true
      (c.logicalNetwork (.declared ⟨⟨1⟩⟩) ⟨⟨6⟩⟩ true) := by
  have hlinked : ((ofSnapshot Specimen.serial).bind
      (Catalog.family · (.declared ⟨⟨1⟩⟩))).isOk = true := by decide +kernel
  obtain ⟨f, h⟩ := isOk_iff.1 hlinked
  obtain ⟨c, hc, hf⟩ := bind_eq_ok.1 h
  obtain ⟨networks, h, hcomponents, hpairwise, hlookup⟩ := networks_are_components hc hf
  exact ⟨c, f, networks, hc, hf, h, hcomponents, hpairwise, (hlookup ⟨⟨6⟩⟩ true).1⟩

end Catalog
end BoardNets
