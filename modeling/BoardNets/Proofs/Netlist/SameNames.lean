import BoardNets.Proofs.Graph.Order
import BoardNets.Proofs.Net.Names
import BoardNets.Proofs.Net.Shape
import BoardNets.Proofs.Netlist.Outsiders

/-! Names and the order of requirements. Without filters all connected pins are on parts of the
tree, so they stand in one order however they were wired. Each group then has the counterpart of its
bus and gets the same nets, and these are put into order and named alike. Three things must not
depend on the order of the requirements for that: which bus a pin counts for, which slot it has, and
which reference a bus goes by. -/
namespace BoardNets
namespace Wires

theorem nodes_prefix_carry (w : Wires) (steps : List Step) :
    w.graph.nodes <+: (w.carry steps).graph.nodes := by
  induction steps generalizing w with
  | nil => exact List.prefix_rfl
  | cons s steps ih =>
    have hfirst : w.graph.nodes <+: (w.take s).graph.nodes := by
      cases s with
      | mask p replacement => exact List.prefix_rfl
      | connect a b =>
        rw [take, graph_connect]
        split
        · exact List.prefix_rfl
        · exact Graph.nodes_prefix_addEdge _ _ _
    exact hfirst.trans (ih _)

end Wires

/-- A list without repetition that begins with all of its elements ends there. -/
theorem eq_of_prefix {α : Type} {l m : List α} (h : l <+: m) (hm : m.Nodup)
    (hall : ∀ a ∈ m, a ∈ l) : m = l := by
  obtain ⟨rest, rfl⟩ := h
  cases rest with
  | nil => exact List.append_nil l
  | cons a rest =>
    have ha : a ∈ l := hall a (by simp)
    exact (List.disjoint_of_nodup_append hm ha List.mem_cons_self).elim

namespace Stages

variable {d : Design} {n : Netlist}

theorem nodes_eq (s : Stages d n) (hc : d.circuit.Reachable) (hnone : d.circuit.Unfiltered) :
    s.wires.graph.nodes = (Wires.bare d.circuit).graph.nodes := by
  obtain ⟨steps, _, hwires⟩ := Wires.ofDesign_eq_ok.1 s.wired
  refine eq_of_prefix (hwires ▸ Wires.nodes_prefix_carry _ steps)
    (Wires.wellFormed_ofDesign s.wired).nodup fun p hp => Wires.mem_nodes_bare.2 ?_
  obtain ⟨net, hnet, hp⟩ := s.exists_net_iff.2 hp
  obtain ⟨part, hpart, hispart, pin, hpin, hid⟩ := s.isPart_of_mem hnet hp
  have htree : d.circuit.InTree Circuit.root p.component :=
    hc.whole hnone _ (Circuit.isSome_of_component (Option.isSome_iff_exists.2 ⟨part, hpart⟩))
  exact Circuit.mem_partPins.2 ⟨htree, part, hpart, hispart, pin, hpin, hid⟩

end Stages

variable {c' : Circuit}

theorem Circuit.Reordered.components_eq {d : Design} {n n' : Netlist}
    (h : d.circuit.Reordered c') (s : Stages d n) (t : Stages (d.over c') n') :
    t.wires.graph.components = s.wires.graph.components := by
  have hnodes : t.wires.graph.nodes = s.wires.graph.nodes := by
    rw [s.nodes_eq h.orderly.1.reachable h.orderly.1.unfiltered,
      t.nodes_eq h.orderly.2.reachable h.orderly.2.unfiltered, Wires.bare, Wires.bare]
    exact congrArg (fun pins : List ComponentPin => (pins.foldl Graph.addNode ∅).nodes)
      (partPins_of_frame h.frame)
  exact Graph.components_congr (Wires.wellFormed_ofDesign s.wired)
    (Wires.wellFormed_ofDesign t.wired) hnodes (h.same_wires s t).edges

def Circuit.Exclusive (c : Circuit) (buses : List Bus) : Prop :=
  ∀ b ∈ buses, ∀ b' ∈ buses, ∀ p, c.ActiveOn b p → c.ActiveOn b' p → b = b'

namespace Wires

variable {w : Wires} {c : Circuit} {buses : List Bus} {b : Bus} {p : ComponentPin}

/-- The pin that a pin stands in for is active on a bus, or if it is active on none then the pin
itself. -/
def Serves (w : Wires) (c : Circuit) (buses : List Bus) (b : Bus) (p : ComponentPin) : Prop :=
  c.ActiveOn b (w.chainStart p) ∨
    (∀ bus ∈ buses, ¬c.ActiveOn bus (w.chainStart p)) ∧ c.ActiveOn b p

theorem CountsFor.serves {k : Nat} (h : w.CountsFor c buses p k) (hb : buses[k]? = some b) :
    w.Serves c buses b p := by
  have hsame {b' : Bus} (hb' : buses[k]? = some b') : b' = b :=
    Option.some.inj (hb'.symm.trans hb)
  rcases h with h | ⟨hnone, h⟩
  · obtain ⟨b', hb', hactive⟩ := h.holds
    exact .inl (hsame hb' ▸ hactive)
  · obtain ⟨b', hb', hactive⟩ := h.holds
    exact .inr ⟨hnone, hsame hb' ▸ hactive⟩

/-- A pin counts for the bus that it serves, if pins are active on one bus at most. -/
theorem Serves.countsFor (h : w.Serves c buses b p) (hc : c.Exclusive buses) (hb : b ∈ buses) :
    ∃ k, w.CountsFor c buses p k ∧ buses[k]? = some b := by
  have hlast {q : ComponentPin} (hq : c.ActiveOn b q) :
      ∃ k, LastAt buses (c.ActiveOn · q) k ∧ buses[k]? = some b := by
    obtain ⟨k, hk⟩ := LastAt.exists_of_mem (P := (c.ActiveOn · q)) ⟨b, hb, hq⟩
    obtain ⟨b', hb', hactive⟩ := hk.holds
    obtain rfl := hc b hb b' (List.mem_of_getElem? hb') q hq hactive
    exact ⟨k, hk, hb'⟩
  rcases h with h | ⟨hnone, h⟩
  · obtain ⟨k, hk, hkb⟩ := hlast h
    exact ⟨k, .inl hk, hkb⟩
  · obtain ⟨k, hk, hkb⟩ := hlast h
    exact ⟨k, .inr ⟨hnone, hk⟩, hkb⟩

/-- The bus of a group is the one that its pins serve, if they serve one. -/
theorem bus_of_group_served {d : Design} {owners : BusOwners} {pins : SortedSet ComponentPin}
    {g : PinGroup} (hc : d.circuit.Exclusive buses)
    (howners : d.circuit.busOwners buses = .ok owners)
    (h : w.group d buses owners pins = .ok g) (hsize : 1 < pins.size) :
    (g.bus = {} ∧ ∀ p ∈ pins, ∀ b ∈ buses, ¬w.Serves d.circuit buses b p) ∨
      g.bus ∈ buses ∧ (∃ p ∈ pins, w.Serves d.circuit buses g.bus p) ∧
        ∀ p ∈ pins, ∀ b ∈ buses, w.Serves d.circuit buses b p → b = g.bus := by
  rcases bus_of_group howners h hsize with ⟨hempty, hnone⟩ | ⟨k, hk, ⟨p, hp, hpk⟩, hone⟩
  · refine .inl ⟨hempty, fun p hp b hb hserves => ?_⟩
    obtain ⟨j, hj, _⟩ := hserves.countsFor hc hb
    exact hnone p hp j hj
  · refine .inr ⟨List.mem_of_getElem? hk, ⟨p, hp, hpk.serves hk⟩, fun q hq b hb hserves => ?_⟩
    obtain ⟨j, hj, hjb⟩ := hserves.countsFor hc hb
    rw [hone q hq j hj, hk] at hjb
    exact (Option.some.inj hjb).symm

theorem bus_of_single {d : Design} {owners : BusOwners} {pins : SortedSet ComponentPin}
    {g : PinGroup} (h : w.group d buses owners pins = .ok g) (hsize : ¬1 < pins.size) :
    g.bus = {} := by
  have hnone : pins.toList.find? (fun p => !d.circuit.isPart p.component) = none :=
    List.find?_eq_none.2 fun p hp => by simp [isPart_of_group h p hp]
  simp only [group, hnone, if_pos (Nat.not_lt.1 hsize)] at h
  exact (congrArg PinGroup.bus (pure_eq_ok.1 h)).symm

end Wires

namespace Circuit

/-- What makes names independent of the order of requirements. -/
structure Unequivocal (c : Circuit) (buses : List Bus) : Prop where
  /-- A pin is active on one bus at most, -/
  exclusive : c.Exclusive buses
  /-- and as one slot for each key of an interface. -/
  oneSlot : c.OneSlot
  /-- Where nets go by the reference of their bus, all fragments of the bus have that reference. -/
  reference : ∀ b ∈ buses, c.Shares b → ∀ id ∈ b.fragments, ∀ f, c.fragment? id = some f →
    f.reference c = .ok b.reference

namespace Resembles

variable {c : Circuit} {buses buses' : List Bus} (h : c.Resembles c')
  (hbuses : c.flattenedBuses root = .ok buses) (hbuses' : c'.flattenedBuses root = .ok buses')
include h hbuses hbuses'

theorem exclusive (hc : c.Exclusive buses) : c'.Exclusive buses' := by
  intro b₁ hb₁ b₂ hb₂ p hp₁ hp₂
  obtain ⟨a₁, ha₁, hsame₁⟩ := h.symm.exists_sameFragments hbuses' hbuses hb₁
  obtain ⟨a₂, ha₂, hsame₂⟩ := h.symm.exists_sameFragments hbuses' hbuses hb₂
  obtain rfl := hc a₁ ha₁ a₂ ha₂ p ((h.symm.activeOn_iff hsame₁).2 hp₁)
    ((h.symm.activeOn_iff hsame₂).2 hp₂)
  exact hsame₁.symm.unique hsame₂.symm hbuses hbuses' ha₁ hb₁ hb₂

theorem serves {w w' : Wires} (hstarts : w'.chainStarts = w.chainStarts) {b b' : Bus}
    (hsame : SameFragments c c' b b') {p : ComponentPin} (hp : w.Serves c buses b p) :
    w'.Serves c' buses' b' p := by
  have hstart : w'.chainStart p = w.chainStart p := by
    rw [Wires.chainStart, Wires.chainStart, hstarts]
  rw [Wires.Serves, hstart]
  refine hp.imp (h.activeOn_iff hsame).2 (And.imp (fun hnone bus' hbus' hactive' => ?_)
    (h.activeOn_iff hsame).2)
  obtain ⟨bus, hbus, hsame'⟩ := h.symm.exists_sameFragments hbuses' hbuses hbus'
  exact hnone bus hbus ((h.symm.activeOn_iff hsame').2 hactive')

omit hbuses in
theorem namedAlike (hc : c.Unequivocal buses) {b b' : Bus} (hb : b ∈ buses) (hb' : b' ∈ buses')
    (hsame : SameFragments c c' b b') : NamedAlike c c' b b' := by
  refine ⟨hsame, fun hshares => ?_⟩
  obtain ⟨m', hm', f, hf, hreference⟩ := exists_reference hbuses' hb'
  obtain ⟨m, hm, hcounterpart⟩ := hsame.back m' hm'
  obtain ⟨g, hg, hfg⟩ := hcounterpart.symm.exists_fragment hf
  have hreference' := hc.reference b hb hshares m.fragment (List.mem_map_of_mem hm) g hg
  rw [← h.reference_eq hfg.symm, hreference] at hreference'
  exact Except.ok.inj hreference'

end Resembles

theorem NamedAlike.empty (c c' : Circuit) : NamedAlike c c' {} {} where
  there := fun _ hm => (SortedSet.not_mem_empty hm).elim
  back := fun _ hm => (SortedSet.not_mem_empty hm).elim
  reference := fun _ => rfl

theorem Reordered.group {d : Design} {n n' : Netlist} (h : d.circuit.Reordered c')
    (s : Stages d n) (t : Stages (d.over c') n') (hc : d.circuit.Unequivocal s.buses)
    {owners owners' : BusOwners} (howners : d.circuit.busOwners s.buses = .ok owners)
    (howners' : c'.busOwners t.buses = .ok owners') {pins : SortedSet ComponentPin}
    {g g' : PinGroup} (hg : s.wires.group d s.buses owners pins = .ok g)
    (hg' : t.wires.group (d.over c') t.buses owners' pins = .ok g') :
    NamedAlike d.circuit c' g.bus g'.bus := by
  by_cases hsize : 1 < pins.size
  · have hstarts := (h.same_wires s t).chainStarts
    have hbus' := Wires.bus_of_group_served (d := d.over c')
      (h.resembles.exclusive s.flattened t.flattened hc.exclusive) howners' hg' hsize
    rcases Wires.bus_of_group_served hc.exclusive howners hg hsize with
      ⟨hempty, hnone⟩ | ⟨hb, ⟨p, hp, hserves⟩, hone⟩
    · rcases hbus' with ⟨hempty', _⟩ | ⟨hb', ⟨p, hp, hserves⟩, _⟩
      · rw [hempty, hempty']
        exact .empty _ _
      · obtain ⟨b, hb, hsame⟩ := h.resembles.symm.exists_sameFragments t.flattened s.flattened hb'
        exact (hnone p hp b hb (h.resembles.symm.serves t.flattened s.flattened hstarts.symm hsame
          hserves)).elim
    · obtain ⟨b', hb', hsame⟩ := h.resembles.exists_sameFragments s.flattened t.flattened hb
      have hserves' := h.resembles.serves s.flattened t.flattened hstarts hsame hserves
      rcases hbus' with ⟨_, hnone⟩ | ⟨_, _, hone'⟩
      · exact (hnone p hp b' hb' hserves').elim
      · obtain rfl := hone' p hp b' hb' hserves'
        exact h.resembles.namedAlike t.flattened hc hb hb' hsame
  · rw [Wires.bus_of_single hg hsize, Wires.bus_of_single hg' hsize]
    exact .empty _ _

end Circuit

namespace Net

def onBus (b : Bus) (n : Net) : Net := { n with bus := b }

/-- The net without its bus. -/
def unbound (n : Net) : Net := n.onBus {}

theorem unbound_onBus (b : Bus) (nets : List Net) :
    (nets.map (onBus b)).map unbound = nets.map unbound := by
  rw [List.map_map]
  rfl

theorem unbound_sort (nets : List Net) : (sort nets).map unbound = sort (nets.map unbound) :=
  List.map_mergeSort fun _ _ _ _ => rfl

theorem unbound_assignNames_sort (nets : List Net) :
    (assignNames (sort nets)).map unbound = assignNames (sort (nets.map unbound)) := by
  rw [← unbound_sort, assignNames_map (f := unbound) (fun _ => ⟨rfl, rfl⟩) fun _ _ => rfl]

end Net

namespace Circuit.Resembles

variable {d : Design} (h : d.circuit.Resembles c')
include h

theorem ofPins {pins : SortedSet ComponentPin} {b b' : Bus} {board : Option NodeId}
    {shape : NetShape} {net : Net} (hnet : Net.ofPins d.circuit pins b board shape = .ok net) :
    Net.ofPins c' pins b' board shape = .ok (net.onBus b') := by
  obtain ⟨lowest, hlowest, hnet⟩ := bind_eq_ok.1 hnet
  obtain rfl := pure_eq_ok.1 hnet
  exact bind_eq_ok.2 ⟨lowest, (h.lowestPin pins).trans hlowest, rfl⟩

theorem nets (hslots : d.circuit.SameSlots c') {g g' : PinGroup} (hpins : g'.pins = g.pins)
    (hbus : NamedAlike d.circuit c' g.bus g'.bus) {nets : List Net} (hnets : g.nets d = .ok nets) :
    g'.nets (d.over c') = .ok (nets.map (Net.onBus g'.bus)) := by
  obtain ⟨shape, hshape, hnets⟩ := bind_eq_ok.1 hnets
  refine bind_eq_ok.2 ⟨shape, hpins ▸ h.netShape hslots hbus hshape, ?_⟩
  split at hnets
  · rw [if_pos ‹_›]
    simp only [hpins, h.board?]
    refine mapM_translated hnets fun board _ net hnet => ?_
    simp only [PinGroup.net, hpins, h.board?]
    exact h.ofPins hnet
  · rw [if_neg ‹_›, hpins]
    obtain ⟨net, hnet, hnets⟩ := bind_eq_ok.1 hnets
    obtain rfl := pure_eq_ok.1 hnets
    exact bind_eq_ok.2 ⟨_, h.ofPins hnet, rfl⟩

/-- Groups that are alike one by one have the same nets but for the buses. -/
theorem cut (hslots : d.circuit.SameSlots c') {groups groups' : List PinGroup}
    (halike : List.Forall₂ (fun g g' => g'.pins = g.pins ∧ NamedAlike d.circuit c' g.bus g'.bus)
      groups groups') {cuts : List (List Net)} (hcuts : groups.mapM (·.nets d) = .ok cuts) :
    ∃ cuts', groups'.mapM (·.nets (d.over c')) = .ok cuts' ∧
      cuts'.flatten.map Net.unbound = cuts.flatten.map Net.unbound := by
  obtain ⟨cuts', hcuts', hsame⟩ := exists_mapM_of_forall₂
    (S := fun nets nets' => nets'.map Net.unbound = nets.map Net.unbound) halike hcuts
    fun g g' nets hg hnets => ⟨_, h.nets hslots hg.1 hg.2 hnets, Net.unbound_onBus g'.bus nets⟩
  refine ⟨cuts', hcuts', ?_⟩
  have hmaps : cuts'.map (List.map Net.unbound) = cuts.map (List.map Net.unbound) := by
    rw [← List.forall₂_eq_eq_eq, List.forall₂_map_left_iff, List.forall₂_map_right_iff]
    exact hsame.flip
  rw [List.map_flatten, List.map_flatten, hmaps]

end Circuit.Resembles

theorem Circuit.Reordered.unbound_nets {d : Design} {n n' : Netlist} (h : d.circuit.Reordered c')
    (s : Stages d n) (t : Stages (d.over c') n') (hc : d.circuit.Unequivocal s.buses) :
    n'.nets.map Net.unbound = n.nets.map Net.unbound := by
  obtain ⟨owners, howners, hgroups⟩ := bind_eq_ok.1 s.grouped
  obtain ⟨owners', howners', hgroups'⟩ := bind_eq_ok.1 t.grouped
  rw [h.components_eq s t] at hgroups'
  have halike : List.Forall₂ (fun g g' => g'.pins = g.pins ∧
      NamedAlike d.circuit c' g.bus g'.bus) s.groups t.groups := by
    refine forall₂_of_mapM₂ (R := Eq) (List.forall₂_refl _) hgroups hgroups' ?_
    rintro pins _ g g' rfl hg hg'
    exact ⟨(Wires.group_pins hg').trans (Wires.group_pins hg).symm,
      h.group s t hc howners howners' hg hg'⟩
  obtain ⟨cuts, hcuts, hsame⟩ := h.resembles.cut (h.sameSlots hc.oneSlot) halike s.cut
  obtain rfl := Except.ok.inj (hcuts.symm.trans t.cut)
  rw [t.named, s.named, Net.unbound_assignNames_sort, Net.unbound_assignNames_sort, hsame]

/-- Circuits that are built by the same plain steps but for the order of their requirements have the
same nets in the same order, with the same names, if no pin is active on two buses, each pin has one
slot under each key of an interface, and all fragments of a bus have one reference where nets go by
it. -/
theorem reordered_names {catalog : Catalog} {steps steps' : List Circuit.Instruction}
    {options : Options} {references : List String} {c : Circuit} {d d' e e' : Design}
    {n n' : Netlist} {buses : List Bus} (h : Circuit.Reordering steps steps')
    (hc : (Circuit.new catalog).build steps = .ok c)
    (hc' : (Circuit.new catalog).build steps' = .ok c')
    (hd : (Design.new c options).withBoards references = .ok d)
    (hd' : (Design.new c' options).withBoards references = .ok d')
    (hn : d.synthesize = .ok (e, n)) (hn' : d'.synthesize = .ok (e', n'))
    (hbuses : c.flattenedBuses Circuit.root = .ok buses) (hone : c.Unequivocal buses) :
    n'.nets.map Net.unbound = n.nets.map Net.unbound ∧
      ∀ net ∈ n.nets, ∀ net' ∈ n'.nets, ∀ p ∈ net.pins, p ∈ net'.pins → net'.name = net.name := by
  have hreordered := h.reordered hc hc'
  obtain ⟨hcircuit, hover⟩ := Design.withBoards_over hreordered.frame hd
  obtain rfl : d.over c' = d' := Except.ok.inj (hover.symm.trans hd')
  obtain rfl : d.circuit = c := hcircuit
  obtain ⟨s⟩ := Design.synthesize_eq_ok hn
  obtain ⟨t⟩ := Design.synthesize_eq_ok hn'
  obtain rfl : s.buses = buses := Except.ok.inj (s.flattened.symm.trans hbuses)
  have hsame := hreordered.unbound_nets s t hone
  refine ⟨hsame, fun net hnet net' hnet' p hp hp' => ?_⟩
  obtain ⟨twin, htwin, heq⟩ := List.mem_map.1 (hsame ▸ List.mem_map_of_mem hnet')
  obtain ⟨hpins, _, _, _, _, hname⟩ := Net.mk.inj heq
  -- the pin is in one net of the first netlist
  obtain ⟨_, _, hunique⟩ := existsUnique_of_nodup_flatMap s.pins_nodup
    (List.mem_flatMap.2 ⟨net, hnet, hp⟩)
  rw [← hname, hunique net ⟨hnet, hp⟩, hunique twin ⟨htwin, hpins ▸ hp'⟩]

namespace Circuit

variable {c : Circuit} {buses : List Bus}

/-- Whether pins, slots and references are told apart by what the circuit holds. -/
def isUnequivocal (c : Circuit) (buses : List Bus) : Bool :=
  buses.all (fun b => (b.physicalPins c).isOk) &&
    decide (buses.flatMap fun b => (b.physicalPins c).toOption.elim [] SortedSet.toList).Nodup &&
    c.entries.all (fun e => c.entries.all fun e' =>
      e.2.pin ≠ e'.2.pin || e.2.interfacePin = e'.2.interfacePin) &&
    buses.all fun b => b.fragments.all fun id =>
      decide ((do (← c.fragment id).reference c) = .ok b.reference)

theorem unequivocal_of_check (hc : c.Balanced) (h : c.isUnequivocal buses = true) :
    c.Unequivocal buses := by
  simp only [isUnequivocal, Bool.and_eq_true, List.all_eq_true, decide_eq_true_eq] at h
  obtain ⟨⟨⟨hfound, hnodup⟩, hslots⟩, hreferences⟩ := h
  have hpins {b : Bus} (hb : b ∈ buses) {p : ComponentPin} (hp : c.ActiveOn b p) :
      p ∈ (b.physicalPins c).toOption.elim [] SortedSet.toList := by
    obtain ⟨pins, hpins⟩ := isOk_iff.1 (hfound b hb)
    rw [hpins]
    exact (mem_physicalPins hpins).2 hp
  constructor
  case exclusive =>
    intro b hb b' hb' p hp hp'
    obtain ⟨_, _, hunique⟩ := existsUnique_of_nodup_flatMap hnodup
      (List.mem_flatMap.2 ⟨b, hb, hpins hb hp⟩)
    rw [hunique b ⟨hb, hpins hb hp⟩, hunique b' ⟨hb', hpins hb' hp'⟩]
  case oneSlot =>
    intro i key u hu v hv hpin
    have hentry {u : PinUse} (hu : u ∈ (c.usesOf i).under key) : (key, u) ∈ c.entries := by
      have hon := (hc.on i u (Connections.mem_uses.2 ⟨key, hu⟩)).1
      rw [← List.count_pos_iff, ← hc.counts, tally, hon]
      exact List.count_pos_iff.2 hu
    simpa [hpin] using hslots _ (hentry hu) _ (hentry hv)
  case reference =>
    intro b hb _ id hid f hf
    have hreference := hreferences b hb id hid
    rwa [fragment_eq_ok.2 hf] at hreference

end Circuit

namespace Specimen

def single (p : Connectivity) : Connectivity := { p with pins := p.pins.take 1 }

def singleCatalog : Catalog :=
  { catalog with
    connectivities := .ofList [
      (oscillator, single (clocked oscillator "OSC" driver output)),
      (consumer, single (clocked consumer "PLL" receiver input))] }

def clockFor (function : String) (source target : NodeId) : Circuit.Instruction :=
  .require {
    origin := .persisted ⟨1⟩
    function
    source := { node := source, interface := some "CK" }
    target := { node := target, interface := some "CK" } }

/-- An oscillator with two parts to clock and one with a third part. -/
def twoTrees (clocks : List Circuit.Instruction) : List Circuit.Instruction := [
  .part Circuit.root "U1" "oscillator" oscillator,
  .part Circuit.root "U2" "pll" consumer,
  .part Circuit.root "U3" "pll" consumer,
  .part Circuit.root "U4" "oscillator" oscillator,
  .part Circuit.root "U5" "pll" consumer] ++ clocks

/-- Both buses have one function throughout, so their nets clash. -/
def uniform : List Circuit.Instruction :=
  twoTrees [clockFor "clock" ⟨1⟩ ⟨2⟩, clockFor "clock" ⟨1⟩ ⟨3⟩, clockFor "clock" ⟨4⟩ ⟨5⟩]

def uniformReversed : List Circuit.Instruction :=
  twoTrees [clockFor "clock" ⟨4⟩ ⟨5⟩, clockFor "clock" ⟨1⟩ ⟨3⟩, clockFor "clock" ⟨1⟩ ⟨2⟩]

theorem reordering_uniform : Circuit.Reordering uniform uniformReversed where
  plain := by decide
  perm := by decide
  rest := rfl

end Specimen

/-- The clocks of two oscillators have one name but for a number, and keep it in any order. -/
theorem reordered_names_specimen : ∃ c c' d d' e e' n n' buses,
    (Circuit.new Specimen.singleCatalog).build Specimen.uniform = .ok c ∧
    (Circuit.new Specimen.singleCatalog).build Specimen.uniformReversed = .ok c' ∧
    (Design.new c {}).withBoards [] = .ok d ∧ (Design.new c' {}).withBoards [] = .ok d' ∧
    d.synthesize = .ok (e, n) ∧ d'.synthesize = .ok (e', n') ∧
    c.flattenedBuses Circuit.root = .ok buses ∧ c.Unequivocal buses ∧
    n'.nets.map Net.unbound = n.nets.map Net.unbound ∧
      ∀ net ∈ n.nets, ∀ net' ∈ n'.nets, ∀ p ∈ net.pins, p ∈ net'.pins → net'.name = net.name := by
  have hassembled : ∀ steps ∈ [Specimen.uniform, Specimen.uniformReversed],
      (Specimen.assembled Specimen.singleCatalog [] steps).isOk = true := by
    decide +kernel
  obtain ⟨c, d, e, n, hc, hd, hn⟩ :=
    Specimen.assembled_eq_ok (hassembled Specimen.uniform (by simp))
  obtain ⟨c', d', e', n', hc', hd', hn'⟩ :=
    Specimen.assembled_eq_ok (hassembled Specimen.uniformReversed (by simp))
  have hcheck : (do
      let c ← (Circuit.new Specimen.singleCatalog).build Specimen.uniform
      let buses ← c.flattenedBuses Circuit.root
      return c.isUnequivocal buses) = Except.ok true := by
    decide +kernel
  obtain ⟨_, hsame, hcheck⟩ := bind_eq_ok.1 hcheck
  obtain rfl := Except.ok.inj (hc.symm.trans hsame)
  obtain ⟨buses, hbuses, hcheck⟩ := bind_eq_ok.1 hcheck
  have hreachable := (Specimen.reordering_uniform.reordered hc hc').orderly.1.reachable
  have hone := Circuit.unequivocal_of_check hreachable.balanced (pure_eq_ok.1 hcheck)
  exact ⟨c, c', d, d', e, e', n, n', buses, hc, hc', hd, hd', hn, hn', hbuses, hone,
    reordered_names Specimen.reordering_uniform hc hc' hd hd' hn hn' hbuses hone⟩

namespace Net

/-- What the name of a net is made from, apart from the order among nets. -/
def bare (n : Net) : Net := { n with bus := {}, firstPin := none }

end Net

namespace Design

def bareNets (d : Design) : Result (List Net) := do
  let buses ← d.circuit.flattenedBuses Circuit.root
  let w ← Wires.ofDesign d buses
  let groups ← w.groups d buses
  return (← groups.mapM (·.nets d)).flatten.map Net.bare

/-- Whether a pin's net has the given name in whatever order the nets are. -/
def names (d : Design) (p : ComponentPin) (name : String) : Bool :=
  d.bareNets.toOption.any fun nets => nets.permutations'.all fun nets =>
    (Net.assignNames nets).any fun net => p ∈ net.pins && net.name = some name

theorem exists_net_named {d e : Design} {n : Netlist} (hn : d.synthesize = .ok (e, n))
    {p : ComponentPin} {name : String} (h : d.names p name = true) :
    ∃ net ∈ n.nets, p ∈ net.pins ∧ net.name = some name := by
  obtain ⟨s⟩ := synthesize_eq_ok hn
  have hbare : d.bareNets = .ok (s.nets.flatten.map Net.bare) := by
    refine bind_eq_ok.2 ⟨s.buses, s.flattened, bind_eq_ok.2 ⟨s.wires, s.wired, ?_⟩⟩
    exact bind_eq_ok.2 ⟨s.groups, s.grouped, bind_eq_ok.2 ⟨s.nets, s.cut, rfl⟩⟩
  have hperm : ((Net.sort s.nets.flatten).map Net.bare).Perm (s.nets.flatten.map Net.bare) :=
    (Net.sort_perm _).map _
  rw [names, hbare, Except.toOption, Option.any_some, List.all_eq_true] at h
  have hnamed := h _ (List.mem_permutations'.2 hperm)
  rw [Net.assignNames_map (f := Net.bare) (fun _ => ⟨rfl, rfl⟩) fun _ _ => rfl, ← s.named,
    List.any_map, List.any_eq_true] at hnamed
  obtain ⟨net, hnet, hnamed⟩ := hnamed
  rw [Function.comp_apply, Bool.and_eq_true, decide_eq_true_eq, decide_eq_true_eq] at hnamed
  exact ⟨net, hnet, hnamed⟩

end Design

namespace Specimen

/-- The clocks of the first oscillator have different functions, and the later one comes first. -/
def laterFirst : List Circuit.Instruction :=
  twoTrees [clockFor "z" ⟨1⟩ ⟨2⟩, clockFor "a" ⟨1⟩ ⟨3⟩, clockFor "m" ⟨4⟩ ⟨5⟩]

def earlierFirst : List Circuit.Instruction :=
  twoTrees [clockFor "a" ⟨1⟩ ⟨3⟩, clockFor "z" ⟨1⟩ ⟨2⟩, clockFor "m" ⟨4⟩ ⟨5⟩]

theorem reordering_functions : Circuit.Reordering laterFirst earlierFirst where
  plain := by decide
  perm := by decide
  rest := rfl

end Specimen

/-- The bus of the first oscillator has the reference of the clock that is required first, which is
sorted before or after that of the other bus; so its net is the second one or the first. -/
theorem names_follow_first_requirement : ∃ c c' d d' e e' n n',
    Circuit.Reordering Specimen.laterFirst Specimen.earlierFirst ∧
    (Circuit.new Specimen.singleCatalog).build Specimen.laterFirst = .ok c ∧
    (Circuit.new Specimen.singleCatalog).build Specimen.earlierFirst = .ok c' ∧
    (Design.new c {}).withBoards [] = .ok d ∧ (Design.new c' {}).withBoards [] = .ok d' ∧
    d.synthesize = .ok (e, n) ∧ d'.synthesize = .ok (e', n') ∧
    ∃ net ∈ n.nets, ∃ net' ∈ n'.nets, ∃ p ∈ net.pins, p ∈ net'.pins ∧
      net.name = some "CLK1" ∧ net'.name = some "CLK0" := by
  have hassembled : ∀ steps ∈ [Specimen.laterFirst, Specimen.earlierFirst],
      (Specimen.assembled Specimen.singleCatalog [] steps).isOk = true := by
    decide +kernel
  obtain ⟨c, d, e, n, hc, hd, hn⟩ :=
    Specimen.assembled_eq_ok (hassembled Specimen.laterFirst (by simp))
  obtain ⟨c', d', e', n', hc', hd', hn'⟩ :=
    Specimen.assembled_eq_ok (hassembled Specimen.earlierFirst (by simp))
  have hnames : ∀ x ∈ [(Specimen.laterFirst, "CLK1"), (Specimen.earlierFirst, "CLK0")], (do
      let c ← (Circuit.new Specimen.singleCatalog).build x.1
      let d ← (Design.new c {}).withBoards []
      return d.names (Specimen.clockPinOf ⟨1⟩) x.2) = Except.ok true := by
    decide +kernel
  have hname := hnames (Specimen.laterFirst, "CLK1") (by simp)
  have hname' := hnames (Specimen.earlierFirst, "CLK0") (by simp)
  simp only [hc, hc', hd, hd', bind, Except.bind] at hname hname'
  obtain ⟨net, hnet, hp, hlast⟩ := Design.exists_net_named hn (pure_eq_ok.1 hname)
  obtain ⟨net', hnet', hp', hfirst⟩ := Design.exists_net_named hn' (pure_eq_ok.1 hname')
  exact ⟨c, c', d, d', e, e', n, n', Specimen.reordering_functions, hc, hc', hd, hd', hn, hn',
    net, hnet, net', hnet', _, hp, hp', hlast, hfirst⟩

end BoardNets
