import BoardNets.Circuit.Build
import BoardNets.Netlist.Synthesis
import BoardNets.Proofs.Circuit.Tree
import BoardNets.Proofs.Net.Plan
import BoardNets.Proofs.Sorted.Listing

/-! Nets are a partition. The pins of the wires, which are all pins of the tree's parts and maybe
more, stand in exactly one net each, whatever ancillaries and buses have joined; splitting by board
cuts each net along the boards of its pins and does nothing else. -/
namespace BoardNets

def Net.place (n : Net) : Option NodeId × SortedSet ComponentPin := (n.board, n.pins)

namespace Net

theorem length_names (nets : List Net) : (names nets).length = nets.length := by
  simp [names, draftTally, tally, drafts]

theorem map_assignNames {α : Type} {f : Net → α} (hf : ∀ n name, f { n with name := name } = f n)
    (nets : List Net) : (assignNames nets).map f = nets.map f := by
  have hnames (ns : List (Option String)) (h : ns.length = nets.length) :
      (List.zipWith (fun (n : Net) name => { n with name }) nets ns).map f = nets.map f := by
    induction nets generalizing ns with
    | nil => rfl
    | cons n nets ih =>
      cases ns with
      | nil => cases h
      | cons name ns =>
        rw [List.zipWith_cons_cons, List.map_cons, List.map_cons, hf, ih ns (Nat.succ.inj h)]
  exact hnames _ (length_names nets)

theorem sort_perm (nets : List Net) : (sort nets).Perm nets := List.mergeSort_perm _ _

theorem ofPins_eq_ok {c : Circuit} {pins : SortedSet ComponentPin} {bus : Bus}
    {board : Option NodeId} {shape : NetShape} {n : Net}
    (h : ofPins c pins bus board shape = .ok n) :
    n.place = (board, pins) ∧ ∀ p ∈ pins, ∃ r, c.rankPin p = .ok r := by
  rw [ofPins, bind_eq_ok] at h
  obtain ⟨lowest, hlowest, h⟩ := h
  rw [pure_eq_ok] at h
  subst h
  rw [Circuit.lowestPin, bind_eq_ok] at hlowest
  obtain ⟨ranked, hranked, _⟩ := hlowest
  exact ⟨rfl, exists_mapM_iff.1 ⟨ranked, hranked⟩⟩

theorem exists_ofPins {c : Circuit} {pins : SortedSet ComponentPin}
    (h : ∀ p ∈ pins, ∃ r, c.rankPin p = .ok r) (bus : Bus) (board : Option NodeId)
    (shape : NetShape) : ∃ n, ofPins c pins bus board shape = .ok n := by
  obtain ⟨ranked, hranked⟩ := exists_mapM_iff.2 h
  simp only [ofPins, Circuit.lowestPin, bind_eq_ok, pure_eq_ok]
  exact ⟨_, _, ⟨ranked, hranked, rfl⟩, rfl⟩

end Net

namespace Design

variable (d : Design)

def boardsOf (pins : SortedSet ComponentPin) : SortedSet (Option NodeId) :=
  .ofList (pins.toList.map fun p => d.board? p.component)

def onBoard (pins : SortedSet ComponentPin) (board : Option NodeId) : SortedSet ComponentPin :=
  .ofList (pins.toList.filter fun p => d.board? p.component = board)

/-- The boards and pins of the nets that connected pins give. -/
def cuts (pins : SortedSet ComponentPin) : List (Option NodeId × SortedSet ComponentPin) :=
  if d.options.splitByBoard then
    (d.boardsOf pins).toList.map fun board => (board, d.onBoard pins board)
  else [(none, pins)]

variable {d}

theorem mem_boardsOf {pins : SortedSet ComponentPin} {board : Option NodeId} :
    board ∈ d.boardsOf pins ↔ ∃ p ∈ pins, d.board? p.component = board := by
  rw [boardsOf, SortedSet.mem_ofList, List.mem_map]
  rfl

theorem mem_onBoard {pins : SortedSet ComponentPin} {board : Option NodeId} {p : ComponentPin} :
    p ∈ d.onBoard pins board ↔ p ∈ pins ∧ d.board? p.component = board := by
  rw [onBoard, SortedSet.mem_ofList, List.mem_filter, decide_eq_true_eq]
  rfl

theorem cuts_split (h : d.options.splitByBoard = true) {pins : SortedSet ComponentPin} :
    d.cuts pins = (d.boardsOf pins).toList.map fun board => (board, d.onBoard pins board) := by
  rw [cuts, if_pos h]

theorem cuts_whole (h : d.options.splitByBoard = false) {pins : SortedSet ComponentPin} :
    d.cuts pins = [(none, pins)] := by
  rw [cuts, h, if_neg Bool.false_ne_true]

theorem cuts_perm (pins : SortedSet ComponentPin) :
    ((d.cuts pins).flatMap (·.2.toList)).Perm pins.toList := by
  by_cases h : d.options.splitByBoard = true
  · have hpieces (board : Option NodeId) : ((d.onBoard pins board).toList).Perm
        (pins.toList.filter fun p => d.board? p.component = board) :=
      SortedSet.toList_ofList_perm (pins.nodup.filter _)
    have hall : ∀ p ∈ pins.toList, d.board? p.component ∈ (d.boardsOf pins).toList :=
      fun p hp => mem_boardsOf.2 ⟨p, hp, rfl⟩
    rw [cuts_split h, List.flatMap_map]
    exact (List.Perm.flatMap_left _ fun board _ => hpieces board).trans
      (flatMap_filter_perm _ pins.nodup (d.boardsOf pins).nodup hall)
  · rw [cuts_whole (by simpa using h)]
    simp

theorem nonempty_of_mem_cuts {pins : SortedSet ComponentPin} (hpins : ∃ p, p ∈ pins)
    {cut : Option NodeId × SortedSet ComponentPin} (h : cut ∈ d.cuts pins) : ∃ p, p ∈ cut.2 := by
  by_cases hsplit : d.options.splitByBoard = true
  · rw [cuts_split hsplit, List.mem_map] at h
    obtain ⟨board, hboard, rfl⟩ := h
    obtain ⟨p, hp, hpb⟩ := mem_boardsOf.1 hboard
    exact ⟨p, mem_onBoard.2 ⟨hp, hpb⟩⟩
  · rw [cuts_whole (by simpa using hsplit), List.mem_singleton] at h
    exact h ▸ hpins

end Design

namespace PinGroup

theorem net_eq_ok {g : PinGroup} {d : Design} {shape : NetShape} {board : Option NodeId} {n : Net}
    (h : g.net d shape board = .ok n) :
    n.place = (board, d.onBoard g.pins board) ∧
      ∀ p ∈ d.onBoard g.pins board, ∃ r, d.circuit.rankPin p = .ok r :=
  Net.ofPins_eq_ok h

/-- The nets of a group are its cuts, and every pin of the group can be ranked. -/
theorem nets_eq_ok {g : PinGroup} {d : Design} {nets : List Net} (h : g.nets d = .ok nets) :
    nets.map Net.place = d.cuts g.pins ∧ ∀ p ∈ g.pins, ∃ r, d.circuit.rankPin p = .ok r := by
  rw [PinGroup.nets, bind_eq_ok] at h
  obtain ⟨shape, _, h⟩ := h
  by_cases hsplit : d.options.splitByBoard = true
  · rw [if_pos hsplit] at h
    constructor
    · rw [Design.cuts_split hsplit]
      exact map_of_mapM h fun board n hn => (net_eq_ok hn).1
    · intro p hp
      have hboard : d.board? p.component ∈ (d.boardsOf g.pins).toList :=
        Design.mem_boardsOf.2 ⟨p, hp, rfl⟩
      obtain ⟨n, hn⟩ := exists_mapM_iff.1 ⟨nets, h⟩ _ hboard
      exact (net_eq_ok hn).2 p (Design.mem_onBoard.2 ⟨hp, rfl⟩)
  · rw [if_neg hsplit, bind_eq_ok] at h
    obtain ⟨n, hn, h⟩ := h
    rw [pure_eq_ok] at h
    subst h
    obtain ⟨hplace, hranked⟩ := Net.ofPins_eq_ok hn
    rw [Design.cuts_whole (by simpa using hsplit)]
    exact ⟨by simp [hplace], hranked⟩

end PinGroup

namespace Wires

theorem group_pins {w : Wires} {d : Design} {buses : List Bus} {owners : BusOwners}
    {pins : SortedSet ComponentPin} {g : PinGroup} (h : w.group d buses owners pins = .ok g) :
    g.pins = pins := by
  rw [group] at h
  cases hpart : pins.toList.find? fun p => !d.circuit.isPart p.component with
  | some p =>
    rw [hpart] at h
    exact absurd h throw_ne_ok
  | none =>
    simp only [hpart] at h
    split at h
    · exact (congrArg PinGroup.pins (pure_eq_ok.1 h)).symm
    · split at h
      · split at h
        · exact absurd h throw_ne_ok
        · exact (congrArg PinGroup.pins (pure_eq_ok.1 h)).symm
      · exact (congrArg PinGroup.pins (pure_eq_ok.1 h)).symm
      · exact absurd h throw_ne_ok

theorem groups_pins {w : Wires} {d : Design} {buses : List Bus} {groups : List PinGroup}
    (h : w.groups d buses = .ok groups) : groups.map PinGroup.pins = w.graph.components := by
  rw [Wires.groups, bind_eq_ok] at h
  obtain ⟨owners, _, h⟩ := h
  have hpins := map_of_mapM (k := id) h fun pins g hg => group_pins hg
  rwa [List.map_id] at hpins

theorem components_perm (w : Wires) (hw : w.graph.WellFormed) :
    (w.graph.components.flatMap SortedSet.toList).Perm w.graph.nodes := by
  have hclasses := Graph.classes_flatten_perm w.graph
  have hnodup : w.graph.classes.flatten.Nodup := hclasses.nodup_iff.2 hw.nodup
  rw [Graph.components, List.flatMap_map]
  refine .trans ?_ hclasses
  rw [← List.flatMap_id]
  exact List.Perm.flatMap_left _ fun c hc =>
    SortedSet.toList_ofList_perm ((List.nodup_flatten.1 hnodup).1 c hc)

theorem nonempty_of_mem_components {w : Wires} {pins : SortedSet ComponentPin}
    (h : pins ∈ w.graph.components) : ∃ p, p ∈ pins := by
  obtain ⟨c, hc, rfl⟩ := List.mem_map.1 h
  obtain ⟨p, hp⟩ := List.exists_mem_of_ne_nil c (Graph.classes_ne_nil hc)
  exact ⟨p, SortedSet.mem_ofList.2 hp⟩

end Wires

structure Stages (d : Design) (n : Netlist) where
  buses : List Bus
  wires : Wires
  groups : List PinGroup
  nets : List (List Net)
  resolved : d.circuit.checkResolved Circuit.root = .ok ()
  flattened : d.circuit.flattenedBuses Circuit.root = .ok buses
  wired : Wires.ofDesign d buses = .ok wires
  grouped : wires.groups d buses = .ok groups
  cut : groups.mapM (·.nets d) = .ok nets
  named : n.nets = Net.assignNames (Net.sort nets.flatten)

namespace Design

theorem netlist_eq_ok {d : Design} {n : Netlist} {warnings : List String}
    (h : d.netlist = .ok (n, warnings)) : Nonempty (Stages d n) := by
  simp only [netlist, bind_eq_ok, pure_eq_ok, Prod.mk.injEq] at h
  obtain ⟨⟨⟩, resolved, buses, flattened, wires, wired, groups, grouped, nets, cut, rfl, rfl⟩ := h
  exact ⟨⟨buses, wires, groups, nets, resolved, flattened, wired, grouped, cut, rfl⟩⟩

theorem exists_netlist {d : Design} {buses : List Bus} {wires : Wires} {groups : List PinGroup}
    {nets : List (List Net)} (resolved : d.circuit.checkResolved Circuit.root = .ok ())
    (flattened : d.circuit.flattenedBuses Circuit.root = .ok buses)
    (wired : Wires.ofDesign d buses = .ok wires) (grouped : wires.groups d buses = .ok groups)
    (cut : groups.mapM (·.nets d) = .ok nets) : ∃ n warnings, d.netlist = .ok (n, warnings) := by
  simp only [netlist, bind_eq_ok, pure_eq_ok]
  exact ⟨_, _, (), resolved, buses, flattened, wires, wired, groups, grouped, nets, cut, rfl⟩

theorem synthesize_eq_ok {d d' : Design} {n : Netlist} (h : d.synthesize = .ok (d', n)) :
    Nonempty (Stages d n) := by
  simp only [synthesize, bind_eq_ok, pure_eq_ok, Prod.mk.injEq] at h
  obtain ⟨⟨m, warnings⟩, h, _, rfl⟩ := h
  exact netlist_eq_ok h

theorem exists_stages {d d' : Design} {n : Netlist} (h : d.synthesize = .ok (d', n)) :
    ∃ s : Stages d n, n.masks = s.wires.masks ∧ n.chainStarts = s.wires.chainStarts := by
  simp only [synthesize, netlist, bind_eq_ok, pure_eq_ok, Prod.mk.injEq] at h
  obtain ⟨_, ⟨⟨⟩, resolved, buses, flattened, wires, wired, groups, grouped, nets, cut, rfl⟩, _,
    rfl⟩ := h
  exact ⟨⟨buses, wires, groups, nets, resolved, flattened, wired, grouped, cut, rfl⟩, rfl, rfl⟩

end Design

namespace Stages

variable {d : Design} {n : Netlist}

theorem places (s : Stages d n) :
    (n.nets.map Net.place).Perm (s.wires.graph.components.flatMap d.cuts) := by
  have hcuts : s.nets.flatten.map Net.place = s.wires.graph.components.flatMap d.cuts := by
    rw [← Wires.groups_pins s.grouped, List.flatMap_map, List.map_flatten, List.flatMap_def]
    exact congrArg List.flatten (map_of_mapM s.cut fun g nets hg => (PinGroup.nets_eq_ok hg).1)
  rw [s.named, Net.map_assignNames fun _ _ => rfl, ← hcuts]
  exact (Net.sort_perm _).map _

theorem mem_places (s : Stages d n) {board : Option NodeId} {pins : SortedSet ComponentPin} :
    (∃ net ∈ n.nets, net.board = board ∧ net.pins = pins) ↔
      ∃ c ∈ s.wires.graph.components, (board, pins) ∈ d.cuts c := by
  rw [← List.mem_flatMap, ← s.places.mem_iff, List.mem_map]
  simp only [Net.place, Prod.mk.injEq]

/-- What is read off the wires of a design is what the stages have. -/
theorem of_wires (s : Stages d n) {β : Type} {g : Wires → β} {b : β}
    (h : (do
      let w ← Wires.ofDesign d (← d.circuit.flattenedBuses Circuit.root)
      return g w) = .ok b) : g s.wires = b := by
  rw [s.flattened] at h
  obtain ⟨buses, hbuses, h⟩ := bind_eq_ok.1 h
  obtain rfl := Except.ok.inj hbuses
  obtain ⟨w, hw, h⟩ := bind_eq_ok.1 h
  obtain rfl := Except.ok.inj (hw.symm.trans s.wired)
  exact pure_eq_ok.1 h

theorem mem_components (s : Stages d n) (hsplit : d.options.splitByBoard = false)
    {pins : SortedSet ComponentPin} :
    (∃ net ∈ n.nets, net.pins = pins) ↔ pins ∈ s.wires.graph.components := by
  have hplaces (board : Option NodeId) := @mem_places d n s board pins
  simp only [Design.cuts_whole hsplit, List.mem_singleton, Prod.mk.injEq] at hplaces
  constructor
  · rintro ⟨net, hnet, rfl⟩
    obtain ⟨_, hc, _, rfl⟩ := (hplaces net.board).1 ⟨net, hnet, rfl, rfl⟩
    exact hc
  · intro hc
    obtain ⟨net, hnet, _, hpins⟩ := (hplaces none).2 ⟨pins, hc, rfl, rfl⟩
    exact ⟨net, hnet, hpins⟩

theorem pins_perm (s : Stages d n) : (n.nets.flatMap (·.pins.toList)).Perm s.wires.graph.nodes := by
  have hplaces : n.nets.flatMap (·.pins.toList) = (n.nets.map Net.place).flatMap (·.2.toList) := by
    rw [List.flatMap_map]
    rfl
  rw [hplaces]
  refine (s.places.flatMap_right _).trans ?_
  rw [List.flatMap_assoc]
  refine .trans ?_ (s.wires.components_perm (Wires.wellFormed_ofDesign s.wired))
  exact List.Perm.flatMap_left _ fun pins _ => Design.cuts_perm pins

theorem pins_nodup (s : Stages d n) : (n.nets.flatMap (·.pins.toList)).Nodup :=
  s.pins_perm.nodup_iff.2 (Wires.wellFormed_ofDesign s.wired).nodup

theorem nonempty (s : Stages d n) {net : Net} (h : net ∈ n.nets) : ∃ p, p ∈ net.pins := by
  obtain ⟨c, hc, hcut⟩ := s.mem_places.1 ⟨net, h, rfl, rfl⟩
  exact Design.nonempty_of_mem_cuts (Wires.nonempty_of_mem_components hc) hcut

end Stages

theorem Circuit.mem_partPins {c : Circuit} {p : ComponentPin} :
    p ∈ c.partPins ↔ c.InTree root p.component ∧ ∃ part, c.component? p.component = some part ∧
      part.isPart = true ∧ ∃ pin ∈ part.pins, pin.id = p.pin := by
  obtain ⟨id, pinId⟩ := p
  simp only [partPins, List.mem_flatMap, mem_parts_iff]
  constructor
  · rintro ⟨i, ⟨htree, hpart⟩, hp⟩
    cases hi : c.component? i with
    | none => simp [hi] at hp
    | some part =>
      simp only [hi, Option.elim_some, List.mem_map, ComponentPin.mk.injEq] at hp
      obtain ⟨pin, hpin, rfl, rfl⟩ := hp
      refine ⟨htree, part, hi, ?_, pin, hpin, rfl⟩
      simpa [isPart, hi] using hpart
  · rintro ⟨htree, part, hi, hpart, pin, hpin, rfl⟩
    refine ⟨id, ⟨htree, by simpa [isPart, hi] using hpart⟩, ?_⟩
    simp only [hi, Option.elim_some, List.mem_map]
    exact ⟨pin, hpin, rfl⟩

namespace Netlist

/-- Non-empty disjoint nets that hold all pins of the parts in the tree of a circuit. -/
structure Partitions (n : Netlist) (c : Circuit) : Prop where
  nonempty : ∀ net ∈ n.nets, ∃ p, p ∈ net.pins
  disjoint : n.nets.Pairwise fun a b => ∀ p ∈ a.pins, p ∉ b.pins
  covers : ∀ id part pin, c.InTree Circuit.root id → c.component? id = some part →
    part.isPart = true → pin ∈ part.pins → ∃! net, net ∈ n.nets ∧ ⟨id, pin.id⟩ ∈ net.pins

/-- The nets of `n` are the non-empty restrictions of the nets of `whole` to the boards of a
design. -/
def Restricts (n whole : Netlist) (d : Design) : Prop :=
  ∀ board pins, (∃ net ∈ n.nets, net.board = board ∧ net.pins = pins) ↔
    (∃ p, p ∈ pins) ∧ ∃ net ∈ whole.nets,
      ∀ p, p ∈ pins ↔ p ∈ net.pins ∧ d.board? p.component = board

end Netlist

/-- Two pins are in one net. -/
def Netlist.SameNet (n : Netlist) (p q : ComponentPin) : Prop :=
  ∃ net ∈ n.nets, p ∈ net.pins ∧ q ∈ net.pins

namespace Stages

variable {d : Design} {n : Netlist}

theorem exists_net_iff (s : Stages d n) {p : ComponentPin} :
    (∃ net ∈ n.nets, p ∈ net.pins) ↔ p ∈ s.wires.graph.nodes := by
  rw [← s.pins_perm.mem_iff, List.mem_flatMap]
  rfl

theorem sameNet_iff_linked (s : Stages d n) (hsplit : d.options.splitByBoard = false)
    {p q : ComponentPin} : n.SameNet p q ↔ s.wires.graph.Linked p q := by
  rw [← Graph.together_classes_iff (Wires.wellFormed_ofDesign s.wired)]
  constructor
  · rintro ⟨net, hnet, hp, hq⟩
    obtain ⟨c, hc, hpins⟩ := List.mem_map.1 ((s.mem_components hsplit).1 ⟨net, hnet, rfl⟩)
    rw [← hpins, SortedSet.mem_ofList] at hp hq
    exact ⟨c, hc, hp, hq⟩
  · rintro ⟨c, hc, hp, hq⟩
    obtain ⟨net, hnet, hpins⟩ := (s.mem_components hsplit).2 (List.mem_map_of_mem hc)
    refine ⟨net, hnet, ?_, ?_⟩
    · rw [hpins, SortedSet.mem_ofList]
      exact hp
    · rw [hpins, SortedSet.mem_ofList]
      exact hq

theorem partitions (s : Stages d n) : n.Partitions d.circuit where
  nonempty := fun _ => s.nonempty
  disjoint := (List.nodup_flatMap.1 s.pins_nodup).2
  covers := by
    intro id part pin htree hid hpart hpin
    have hnode : (⟨id, pin.id⟩ : ComponentPin) ∈ s.wires.graph.nodes :=
      Wires.mem_nodes_ofDesign s.wired
        (Circuit.mem_partPins.2 ⟨htree, part, hid, hpart, pin, hpin, rfl⟩)
    exact existsUnique_of_nodup_flatMap s.pins_nodup (s.pins_perm.mem_iff.2 hnode)

end Stages

namespace Design

/-- The design with its nets in one piece each. -/
def unsplit (d : Design) : Design := { d with options := { d.options with splitByBoard := false } }

end Design

/-- Nothing but the last cut depends on whether nets are split, and what can be cut by board can be
left whole. -/
theorem Stages.unsplit {d : Design} {n : Netlist} (s : Stages d n) :
    ∃ whole warnings, d.unsplit.netlist = .ok (whole, warnings) := by
  have hcut : ∃ nets, s.groups.mapM (·.nets d.unsplit) = .ok nets := by
    rw [exists_mapM_iff]
    intro g hg
    obtain ⟨nets, hnets⟩ := exists_mapM_iff.1 ⟨s.nets, s.cut⟩ g hg
    have hranked := (PinGroup.nets_eq_ok hnets).2
    rw [PinGroup.nets, bind_eq_ok] at hnets
    obtain ⟨shape, hshape, _⟩ := hnets
    obtain ⟨net, hnet⟩ := Net.exists_ofPins hranked g.bus none shape
    refine ⟨[net], bind_eq_ok.2 ⟨shape, hshape, ?_⟩⟩
    change (do return [← Net.ofPins d.circuit g.pins g.bus none shape]) = _
    rw [hnet]
    rfl
  obtain ⟨nets, hnets⟩ := hcut
  exact Design.exists_netlist s.resolved s.flattened s.wired s.grouped hnets

/-- The wires of both designs are the same, and so are the connected pins. -/
theorem Stages.wires_unsplit {d : Design} {n whole : Netlist} (s : Stages d n)
    (t : Stages d.unsplit whole) : t.wires = s.wires := by
  have hbuses : t.buses = s.buses := Except.ok.inj (t.flattened.symm.trans s.flattened)
  have hwired : Wires.ofDesign d s.buses = .ok t.wires := hbuses ▸ t.wired
  exact Except.ok.inj (hwired.symm.trans s.wired)

theorem Stages.restricts {d : Design} {n whole : Netlist} (s : Stages d n)
    (t : Stages d.unsplit whole) (hsplit : d.options.splitByBoard = true) :
    n.Restricts whole d := by
  have hwhole (c : SortedSet ComponentPin) :
      (∃ net ∈ whole.nets, net.pins = c) ↔ c ∈ s.wires.graph.components := by
    rw [← s.wires_unsplit t]
    exact t.mem_components rfl
  intro board pins
  rw [s.mem_places]
  simp only [Design.cuts_split hsplit, List.mem_map, Prod.mk.injEq]
  constructor
  · rintro ⟨c, hc, b, hb, rfl, rfl⟩
    obtain ⟨p, hp, hpb⟩ := Design.mem_boardsOf.1 hb
    obtain ⟨net, hnet, rfl⟩ := (hwhole c).2 hc
    exact ⟨⟨p, Design.mem_onBoard.2 ⟨hp, hpb⟩⟩, net, hnet, fun _ => Design.mem_onBoard⟩
  · rintro ⟨⟨p, hp⟩, net, hnet, hpins⟩
    have hp' := (hpins p).1 hp
    refine ⟨net.pins, (hwhole net.pins).1 ⟨net, hnet, rfl⟩, board,
      Design.mem_boardsOf.2 ⟨p, hp'⟩, rfl, SortedSet.ext fun q => ?_⟩
    rw [Design.mem_onBoard, hpins]

/-- Nets are non-empty and disjoint, and each pin of a part in the tree is in one of them. Split by
board, they are the restrictions to one board of the nets of the same design left whole. -/
theorem netlist_partitions {d d' : Design} {n : Netlist} (h : d.synthesize = .ok (d', n)) :
    n.Partitions d.circuit ∧ (d.options.splitByBoard = true →
      ∃ whole, d.unsplit.synthesize = .ok whole ∧ n.Restricts whole.2 d) := by
  obtain ⟨s⟩ := Design.synthesize_eq_ok h
  refine ⟨s.partitions, fun hsplit => ?_⟩
  obtain ⟨whole, warnings, hwhole⟩ := s.unsplit
  obtain ⟨t⟩ := Design.netlist_eq_ok hwhole
  refine ⟨(d.unsplit.warnAll warnings, whole), ?_, s.restricts t hsplit⟩
  rw [Design.synthesize, hwhole]
  rfl

namespace Specimen

def output : InterfacePinId := ⟨⟨1⟩⟩
def input : InterfacePinId := ⟨⟨2⟩⟩
def driver : InterfaceTypeId := ⟨⟨3⟩⟩
def receiver : InterfaceTypeId := ⟨⟨4⟩⟩
def oscillator : ConnectivityId := ⟨⟨5⟩⟩
def consumer : ConnectivityId := ⟨⟨6⟩⟩
def clock : FamilyKey := .declared ⟨⟨7⟩⟩

def slot (id : InterfacePinId) (type : InterfaceTypeId) (reference : String)
    (partner : InterfacePinId) : InterfacePin where
  id := id
  interfaceType := type
  reference := reference
  pinType := .digital
  isRequired := true
  sharing := .shared
  multipleUse := false
  compatiblePins := .ofList [partner]
  parentPins := ∅
  childPins := ∅

def clockType (id partner : InterfaceTypeId) (name : String) (pin : InterfacePinId)
    (canBeRequired : Bool) : InterfaceType where
  id := id
  name := name
  label := name
  family := clock
  function := "clock"
  canBeRequired := canBeRequired
  canBeSpecialised := false
  pins := [pin]
  parents := []
  children := []
  compatibleTypes := [partner]

/-- A part with a clock pin and a pin that is in no interface. -/
def clocked (id : ConnectivityId) (name : String) (type : InterfaceTypeId) (pin : InterfacePinId) :
    Connectivity where
  id := id
  name := name
  pins := [{ id := ⟨⟨8⟩⟩, type := .digital, name := "CLK", number := "1" },
    { id := ⟨⟨9⟩⟩, type := .power, name := "VDD", number := "2" }]
  interfaces := [{ type, name := "CK", assignments := [{ interfacePin := pin, pins := [⟨⟨8⟩⟩] }] }]

def catalog : Catalog where
  families := .ofList
    [(clock, { key := clock, name := "clock", label := "CLK", types := [driver, receiver] })]
  interfaceTypes := .ofList [(driver, clockType driver receiver "driver" output true),
    (receiver, clockType receiver driver "receiver" input false)]
  interfacePins := .ofList [(output, slot output driver "OUT" input),
    (input, slot input receiver "IN" output)]
  connectivities := .ofList [(oscillator, clocked oscillator "OSC" driver output),
    (consumer, clocked consumer "PLL" receiver input)]
  typeNames := ∅
  connectivityNames := ∅

def steps : List Circuit.Instruction := [
  .subcircuit Circuit.root "A1" "reference" none,
  .part ⟨1⟩ "U1" "oscillator" oscillator,
  .part Circuit.root "U2" "pll" consumer,
  .require {
    origin := .persisted ⟨1⟩
    function := "clock"
    source := { node := ⟨2⟩, interface := some "CK" }
    target := { node := ⟨3⟩, interface := some "CK" } }]

def design : Design where
  circuit := (Circuit.new catalog).after steps
  boards := [⟨1⟩]
  mainBoardReference := "MAIN"
  options := {}

theorem exists_synthesize : ∃ r, design.synthesize = .ok r := isOk_iff.1 (by decide +kernel)

end Specimen

/-- The clock net of the specimen is cut between its two boards. -/
theorem netlist_partitions_specimen : ∃ d n, Specimen.design.synthesize = .ok (d, n) ∧
    n.Partitions Specimen.design.circuit ∧
      ∃ whole, Specimen.design.unsplit.synthesize = .ok whole ∧
        n.Restricts whole.2 Specimen.design := by
  obtain ⟨⟨d, n⟩, h⟩ := Specimen.exists_synthesize
  exact ⟨d, n, h, (netlist_partitions h).1, (netlist_partitions h).2 rfl⟩

end BoardNets
