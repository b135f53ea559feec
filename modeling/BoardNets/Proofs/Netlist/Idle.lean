import BoardNets.Proofs.Net.Beside
import BoardNets.Proofs.Net.Order
import BoardNets.Proofs.Net.Parallel
import BoardNets.Proofs.Net.Series
import BoardNets.Proofs.Net.Unnamed

/-! Netlists beside idle parts. The pins of an idle part are groups of their own, wherever they
stand in the graph: they give unnamed nets of one pin each. All other groups are those from before,
and so are their nets, in the same order and under the same names, as neither sorting nor naming
looks at unnamed nets. -/
namespace BoardNets

theorem Net.shape_of_ofPins {c : Circuit} {pins : SortedSet ComponentPin} {bus : Bus}
    {board : Option NodeId} {shape : NetShape} {n : Net}
    (h : ofPins c pins bus board shape = .ok n) : n.shape = shape := by
  obtain ⟨_, _, h⟩ := bind_eq_ok.1 h
  rw [← pure_eq_ok.1 h]

/-- The nets of a netlist, and warnings with those of clashes. -/
def Net.finish (warnings : List String) (nets : List Net) : List Net × List String :=
  (assignNames (sort nets), warnings ++ clashes (sort nets))

/-- Nets without a template may be left out before or after they are sorted and named. -/
theorem Net.finish_filter {warnings : List String} {nets : List Net} {keep : Net → Bool}
    (h : ∀ n ∈ nets, keep n = false → n.shape.template = none)
    (hkeep : ∀ n name, keep { n with name } = keep n) :
    finish warnings (nets.filter keep) =
      ((assignNames (sort nets)).filter keep, warnings ++ clashes (sort nets)) := by
  have hsorted : ∀ n ∈ sort nets, keep n = false → n.shape.template = none :=
    fun n hn => h n ((sort_perm nets).mem_iff.1 hn)
  rw [finish, sort_filter, clashes_filter hsorted, filter_assignNames hsorted hkeep]

theorem Circuit.exists_pin_of_mem_partPins {c : Circuit} {p : ComponentPin}
    (h : p ∈ c.partPins) : ∃ pin, c.pin p = .ok pin := by
  obtain ⟨_, part, hpart, _, pin, hpin, hid⟩ := mem_partPins.1 h
  have hsome : (part.pin? p.pin).isSome :=
    List.find?_isSome.2 ⟨pin, hpin, decide_eq_true hid⟩
  obtain ⟨found, hfound⟩ := Option.isSome_iff_exists.1 hsome
  refine ⟨found, bind_eq_ok.2 ⟨part, component_eq_ok.2 hpart, ?_⟩⟩
  rw [hfound]
  rfl

theorem Circuit.isPart_of_mem_partPins {c : Circuit} {p : ComponentPin} (h : p ∈ c.partPins) :
    c.isPart p.component = true := by
  obtain ⟨_, part, hpart, hkind, _⟩ := mem_partPins.1 h
  rwa [isPart, hpart]

/-- The pins of the group are on nodes that are there, and its bus is known. -/
structure PinGroup.Stands (c : Circuit) (g : PinGroup) : Prop where
  has : ∀ p ∈ g.pins, c.Has p.component
  knows : ∀ m ∈ g.bus.members, c.Knows m

def PinGroup.IsLone (c c' : Circuit) (g : PinGroup) : Prop :=
  ∃ q ∈ c'.partPins, ¬c.Has q.component ∧ g = { pins := .ofList [q] }

namespace Circuit.Idles

variable {d : Design} {c' : Circuit} {added : List NodeId} (h : d.circuit.Idles c' added)
include h

theorem board? {x : NodeId} (hx : d.circuit.Has x) : (d.over c').board? x = d.board? x :=
  congrArg (List.find? d.isBoard) (h.ancestors h.old h.new hx)

theorem nets {g : PinGroup} (hg : g.Stands d.circuit) : g.nets (d.over c') = g.nets d := by
  refine bind_congr_of_ok (h.netShape hg.knows hg.has) fun shape _ => ?_
  have hboards : g.pins.toList.map (fun p => (d.over c').board? p.component) =
      g.pins.toList.map fun p => d.board? p.component :=
    List.map_congr_left fun p hp => h.board? (hg.has p hp)
  have hofPins {pins : SortedSet ComponentPin} (hpins : ∀ p ∈ pins, p ∈ g.pins)
      (board : Option NodeId) :
      Net.ofPins c' pins g.bus board shape = Net.ofPins d.circuit pins g.bus board shape := by
    rw [Net.ofPins, Net.ofPins, h.lowestPin fun p hp => hg.has p (hpins p hp)]
  have hnet : g.net (d.over c') shape = g.net d shape := by
    funext board
    rw [PinGroup.net, PinGroup.net,
      List.filter_congr fun p hp => by rw [h.board? (hg.has p hp)]]
    exact hofPins (fun p hp => (List.mem_filter.1 (SortedSet.mem_ofList.1 hp)).1) board
  rw [hboards, hnet, Design.over, hofPins fun _ hp => hp]

theorem nets_of_isLone {g : PinGroup} (hg : g.IsLone d.circuit c') : ∃ nets,
    g.nets (d.over c') = .ok nets ∧
      ∀ n ∈ nets, n.pins = g.pins ∧ n.bus = {} ∧ n.shape.template = none := by
  obtain ⟨q, hq, hnew, rfl⟩ := hg
  obtain ⟨htree, part, hpart, _⟩ := mem_partPins.1 hq
  have hplain := h.idle _ ((h.mem_added _).2 ⟨htree, hnew⟩) part hpart
  have hpart := component_eq_ok.2 hpart
  have hrank : ∀ p ∈ SortedSet.ofList [q], ∃ r, c'.rankPin p = .ok r := by
    intro p hp
    obtain ⟨pin, hpin⟩ := exists_pin_of_mem_partPins hq
    obtain rfl := List.mem_singleton.1 (SortedSet.mem_ofList.1 hp)
    exact ⟨_, bind_eq_ok.2 ⟨pin, hpin, rfl⟩⟩
  obtain ⟨shape, hshape, htemplate⟩ : ∃ shape, c'.netShape (.ofList [q]) {} = .ok shape ∧
      shape.template = none := by
    have hstand : c'.nonAncillaryPins (.ofList [q]) {} = .ok (.ofList [q]) := by
      rw [nonAncillaryPins_eq]
      refine bind_eq_ok.2 ⟨∅, rfl, bind_eq_ok.2 ⟨[[q]],
        mapM_eq_ok_iff.2 (.cons (bind_eq_ok.2 ⟨part, hpart, ?_⟩) .nil), rfl⟩⟩
      rw [hplain]
      rfl
    have hreach : ∃ b, c'.reachesSeveral (.ofList [q]) = .ok b := by
      refine ⟨_, bind_eq_ok.2 ⟨[[q.component]],
        mapM_eq_ok_iff.2 (.cons (bind_eq_ok.2 ⟨part, hpart, ?_⟩) .nil), rfl⟩⟩
      rw [hplain]
      rfl
    obtain ⟨isGlobal, hglobal⟩ := hreach
    rw [netShape_eq]
    exact ⟨_, bind_eq_ok.2 ⟨_, hstand, bind_eq_ok.2 ⟨isGlobal, hglobal, rfl⟩⟩, rfl⟩
  obtain ⟨n, hn⟩ := Net.exists_ofPins hrank {}
    (if d.options.splitByBoard then (d.over c').board? q.component else none) shape
  refine ⟨[n], bind_eq_ok.2 ⟨shape, hshape, ?_⟩, fun m hm => ?_⟩
  · by_cases hsplit : d.options.splitByBoard = true
    · rw [if_pos hsplit] at hn
      rw [if_pos (show (d.over c').options.splitByBoard = true from hsplit)]
      have hall : ([q].filter fun p =>
          (d.over c').board? p.component = (d.over c').board? q.component) = [q] := by simp
      refine mapM_eq_ok_iff.2 (.cons ?_ .nil)
      change Net.ofPins c' (.ofList ([q].filter fun p =>
        (d.over c').board? p.component = (d.over c').board? q.component)) {} _ shape = .ok n
      rwa [hall]
    · rw [if_neg hsplit] at hn
      rw [if_neg (show ¬(d.over c').options.splitByBoard = true from hsplit)]
      exact bind_eq_ok.2 ⟨n, hn, rfl⟩
  · obtain rfl := List.mem_singleton.1 hm
    exact ⟨congrArg Prod.snd (Net.ofPins_eq_ok hn).1, Net.bus_of_ofPins hn,
      Net.shape_of_ofPins hn ▸ htemplate⟩

theorem group {w w' : Wires} (hw : Wires.Beside d.circuit.holds w w') {buses : List Bus}
    {owners : BusOwners} {pins : SortedSet ComponentPin}
    (hpins : ∀ p ∈ pins, d.circuit.Has p.component) :
    w'.group (d.over c') buses owners pins = w.group d buses owners pins := by
  have howner : w'.owner = w.owner := by
    funext owners p
    rw [Wires.owner, Wires.owner, Wires.chainStart, Wires.chainStart, hw.chainStarts]
  have hfind : (pins.toList.find? fun p => !c'.isPart p.component) =
      pins.toList.find? fun p => !d.circuit.isPart p.component := by
    rw [← List.head?_filter, ← List.head?_filter,
      List.filter_congr fun p hp => by rw [h.isPart (hpins p hp)]]
  have hlabel : ∀ p, (pins.toList.find? fun p => !d.circuit.isPart p.component) = some p →
      c'.pinLabel p = d.circuit.pinLabel p :=
    fun p hp => h.pinLabel (hpins p (List.mem_of_find?_eq_some hp))
  rw [Wires.group, Wires.group, Wires.owners, Wires.owners, howner]
  simp only [Design.over, hfind, h.describePins hpins, Wires.unbussed]
  cases hp : pins.toList.find? fun p => !d.circuit.isPart p.component with
  | none => rfl
  | some p => simp only [hlabel p hp]

end Circuit.Idles

namespace Wires

theorem group_singleton (w : Wires) (d : Design) {buses : List Bus} {owners : BusOwners}
    {q : ComponentPin} (hq : d.circuit.isPart q.component = true) :
    w.group d buses owners (.ofList [q]) = .ok { pins := .ofList [q] } := by
  have hfind : (SortedSet.ofList [q]).toList.find? (fun p => !d.circuit.isPart p.component) =
      none := by
    change [q].find? _ = none
    simp [hq]
  rw [group, hfind]
  rfl

theorem bus_mem_of_group {w : Wires} {d : Design} {buses : List Bus} {owners : BusOwners}
    {pins : SortedSet ComponentPin} {g : PinGroup} (h : w.group d buses owners pins = .ok g) :
    g.bus = {} ∨ g.bus ∈ buses := by
  rw [group] at h
  cases hpart : pins.toList.find? fun p => !d.circuit.isPart p.component with
  | some p =>
    rw [hpart] at h
    exact absurd h throw_ne_ok
  | none =>
    simp only [hpart] at h
    split at h
    · exact .inl (congrArg PinGroup.bus (pure_eq_ok.1 h)).symm
    · split at h
      · split at h
        · exact absurd h throw_ne_ok
        · exact .inl (congrArg PinGroup.bus (pure_eq_ok.1 h)).symm
      · rename_i index _
        rw [← pure_eq_ok.1 h, List.getD_eq_getElem?_getD]
        cases hbus : buses[index]? with
        | none => exact .inl rfl
        | some bus => exact .inr (List.mem_of_getElem? hbus)
      · exact absurd h throw_ne_ok

end Wires

def PinGroup.isOld (c : Circuit) (g : PinGroup) : Bool := g.pins.toList.any c.holds

namespace Circuit.Idles

variable {d : Design} {c' : Circuit} {added : List NodeId} (h : d.circuit.Idles c' added)
  {buses : List Bus} (hbuses : ∀ bus ∈ buses, ∀ m ∈ bus.members, d.circuit.Knows m)
  {steps : List Wires.Step} (hsteps : Wires.plan d buses = .ok steps)
include h hsteps

theorem mem_partPins_of_node {q : ComponentPin}
    (hq : q ∈ ((Wires.bare c').carry steps).graph.nodes) (hnew : d.circuit.holds q = false) :
    q ∈ c'.partPins := by
  have hw := h.beside hsteps
  rcases Wires.mem_nodes_carry_iff.1 hq with hq | ⟨e, he, hq⟩
  · exact Wires.mem_nodes_bare.1 hq
  · have hedge : e ∈ ((Wires.bare d.circuit).carry steps).graph.edges := by
      rw [← hw.edges, Wires.edges_carry]
      exact List.mem_append_right _ he
    obtain ⟨hfirst, hsecond⟩ := hw.ends e hedge
    rcases hq with rfl | rfl
    · exact absurd (hnew.symm.trans hfirst) Bool.false_ne_true
    · exact absurd (hnew.symm.trans hsecond) Bool.false_ne_true

theorem components : ((Wires.bare c').carry steps).graph.components.filter
      (·.toList.any d.circuit.holds) = ((Wires.bare d.circuit).carry steps).graph.components ∧
    ∀ s ∈ ((Wires.bare c').carry steps).graph.components, s.toList.any d.circuit.holds = false →
      ∃ q ∈ c'.partPins, ¬d.circuit.Has q.component ∧ s = .ofList [q] := by
  have hw := h.beside hsteps
  obtain ⟨hold, hnew⟩ := Graph.components_filter hw.nodes hw.edges hw.ends
  refine ⟨hold, fun s hs hnone => ?_⟩
  obtain ⟨q, hq, rfl⟩ := hnew s hs hnone
  have hout : d.circuit.holds q = false :=
    by simpa using List.any_eq_false.1 hnone q (SortedSet.mem_ofList.2 (List.mem_singleton_self q))
  exact ⟨q, h.mem_partPins_of_node hsteps hq hout,
    fun hhas => absurd (hout.symm.trans (holds_iff.2 hhas)) Bool.false_ne_true, rfl⟩

theorem has_of_component {s : SortedSet ComponentPin}
    (hs : s ∈ ((Wires.bare c').carry steps).graph.components)
    (hold : s.toList.any d.circuit.holds = true) : ∀ p ∈ s, d.circuit.Has p.component := by
  intro p hp
  have hw := h.beside hsteps
  have hmem : s ∈ ((Wires.bare d.circuit).carry steps).graph.components := by
    rw [← (h.components hsteps).1]
    exact List.mem_filter.2 ⟨hs, hold⟩
  have hnode := Graph.mem_nodes_of_component
    (Wires.wellFormed_carry (Wires.wellFormed_bare d.circuit) steps) hmem hp
  rw [← hw.nodes] at hnode
  exact holds_iff.1 (List.mem_filter.1 hnode).2

include hbuses

theorem groups : List.filter (·.isOld d.circuit) <$>
      ((Wires.bare c').carry steps).groups (d.over c') buses =
    ((Wires.bare d.circuit).carry steps).groups d buses := by
  have hw := h.beside hsteps
  obtain ⟨hold, hlone⟩ := h.components hsteps
  rw [Wires.groups, Wires.groups, map_bind, Design.over, h.busOwners hbuses, ← hold]
  refine bind_congr fun owners => mapM_filter (fun s hs hold => ?_) fun s hs hnew => ?_
  · refine ⟨h.group hw (h.has_of_component hsteps hs hold), fun g hg => ?_⟩
    rwa [PinGroup.isOld, Wires.group_pins hg]
  · obtain ⟨q, hq, _, rfl⟩ := hlone s hs hnew
    exact ⟨_, Wires.group_singleton _ (d.over c') (isPart_of_mem_partPins hq), hnew⟩

theorem stands_or_isLone {gs : List PinGroup}
    (hgs : ((Wires.bare c').carry steps).groups (d.over c') buses = .ok gs) {g : PinGroup}
    (hg : g ∈ gs) : g.isOld d.circuit = true ∧ g.Stands d.circuit ∨
      g.isOld d.circuit = false ∧ g.IsLone d.circuit c' := by
  obtain ⟨owners, howners, hgs⟩ := bind_eq_ok.1 hgs
  obtain ⟨s, hs, hg⟩ := (mem_of_mapM hgs).1 hg
  have hpins := Wires.group_pins hg
  cases hold : s.toList.any d.circuit.holds with
  | true =>
    refine .inl ⟨by rwa [PinGroup.isOld, hpins], ⟨?_, fun m hm => ?_⟩⟩
    · rw [hpins]
      exact h.has_of_component hsteps hs hold
    · rcases Wires.bus_mem_of_group hg with hbus | hbus
      · rw [hbus] at hm
        cases hm
      · exact hbuses _ hbus m hm
  | false =>
    obtain ⟨q, hq, hnew, rfl⟩ := (h.components hsteps).2 s hs hold
    have hsame : ((Wires.bare c').carry steps).group (d.over c') buses owners (.ofList [q]) =
        .ok { pins := .ofList [q] } :=
      Wires.group_singleton _ (d.over c') (isPart_of_mem_partPins hq)
    obtain rfl := Except.ok.inj (hsame.symm.trans hg)
    exact .inr ⟨hold, q, hq, hnew, rfl⟩

end Circuit.Idles

def Net.isOld (c : Circuit) (n : Net) : Bool := n.pins.toList.all c.holds

theorem PinGroup.Stands.isOld_of_nets {d : Design} {g : PinGroup} (hg : g.Stands d.circuit)
    {nets : List Net} (h : g.nets d = .ok nets) : ∀ n ∈ nets, n.isOld d.circuit = true := by
  intro n hn
  have hcut : n.place ∈ d.cuts g.pins := by
    rw [← (PinGroup.nets_eq_ok h).1]
    exact List.mem_map_of_mem hn
  refine List.all_eq_true.2 fun p hp => Circuit.holds_iff.2 (hg.has p ?_)
  exact Design.mem_of_mem_cuts hcut hp

theorem PinGroup.IsLone.isOld_of_pins {c c' : Circuit} {g : PinGroup} (hg : g.IsLone c c')
    {n : Net} (hn : n.pins = g.pins) : n.isOld c = false := by
  obtain ⟨q, _, hnew, rfl⟩ := hg
  rw [Net.isOld, hn, List.all_eq_false]
  exact ⟨q, SortedSet.mem_ofList.2 (List.mem_singleton_self q), mt Circuit.holds_iff.1 hnew⟩

structure Net.IsLone (c c' : Circuit) (n : Net) : Prop where
  pin : ∃ q ∈ c'.partPins, ¬c.Has q.component ∧ n.pins = .ofList [q]
  bus : n.bus = {}
  template : n.shape.template = none

namespace Circuit.Idles

variable {d : Design} {c' : Circuit} {added : List NodeId} (h : d.circuit.Idles c' added)
  {buses : List Bus} (hbuses : ∀ bus ∈ buses, ∀ m ∈ bus.members, d.circuit.Knows m)
  {steps : List Wires.Step} (hsteps : Wires.plan d buses = .ok steps) {gs : List PinGroup}
  (hgs : ((Wires.bare c').carry steps).groups (d.over c') buses = .ok gs)
include h hbuses hsteps hgs

theorem cut : List.flatMap (List.filter (·.isOld d.circuit)) <$> gs.mapM (·.nets (d.over c')) =
    List.flatten <$> (gs.filter (·.isOld d.circuit)).mapM (·.nets d) := by
  have hflatten : List.flatten = List.flatMap (@id (List Net)) := funext fun l =>
    List.flatMap_id.symm
  rw [hflatten]
  refine mapM_flatMap_filter (fun g hg hold => ?_) fun g hg hnew => ?_
  · have hstands := ((h.stands_or_isLone hbuses hsteps hgs hg).resolve_right
      fun hnew => absurd (hnew.1.symm.trans hold) Bool.false_ne_true).2
    rw [h.nets hstands]
    cases hnets : g.nets d with
    | error e => rfl
    | ok nets => exact congrArg Except.ok (List.filter_eq_self.2 (hstands.isOld_of_nets hnets))
  · have hlone := ((h.stands_or_isLone hbuses hsteps hgs hg).resolve_left
      fun hold => absurd (hnew.symm.trans hold.1) Bool.false_ne_true).2
    obtain ⟨nets, hnets, hall⟩ := h.nets_of_isLone hlone
    rw [hnets]
    refine congrArg Except.ok (List.filter_eq_nil_iff.2 fun n hn => ?_)
    rw [hlone.isOld_of_pins (hall n hn).1]
    exact Bool.false_ne_true

theorem isLone_of_cut {nets : List (List Net)} (hcut : gs.mapM (·.nets (d.over c')) = .ok nets)
    {n : Net} (hn : n ∈ nets.flatten) (hnew : n.isOld d.circuit = false) :
    n.IsLone d.circuit c' := by
  obtain ⟨own, hown, hn⟩ := List.mem_flatten.1 hn
  obtain ⟨g, hg, hown⟩ := (mem_of_mapM hcut).1 hown
  rcases h.stands_or_isLone hbuses hsteps hgs hg with ⟨_, hstands⟩ | ⟨_, hlone⟩
  · rw [h.nets hstands] at hown
    exact absurd (hnew.symm.trans (hstands.isOld_of_nets hown n hn)) Bool.false_ne_true
  · obtain ⟨found, hfound, hall⟩ := h.nets_of_isLone hlone
    obtain rfl := Except.ok.inj (hfound.symm.trans hown)
    obtain ⟨hpins, hbus, htemplate⟩ := hall n hn
    obtain ⟨q, hq, hout, rfl⟩ := hlone
    exact ⟨⟨q, hq, hout, hpins⟩, hbus, htemplate⟩

theorem warnings : gs.filterMap (·.warning? c') =
    (gs.filter (·.isOld d.circuit)).filterMap (·.warning? d.circuit) := by
  rw [List.filterMap_filter]
  refine List.filterMap_congr fun g hg => ?_
  rcases h.stands_or_isLone hbuses hsteps hgs hg with ⟨hold, hstands⟩ | ⟨hnew, q, _, _, rfl⟩
  · rw [if_pos hold, PinGroup.warning?, PinGroup.warning?, Wires.unbussed, Wires.unbussed,
      h.describePins hstands.has]
  · rw [if_neg (by simp [hnew])]
    rfl

theorem finish : ((gs.mapM fun g => g.nets (d.over c')) >>= fun nets => (pure
      ((Net.assignNames (Net.sort nets.flatten)).filter fun n => n.isOld d.circuit,
        (gs.filterMap fun g => g.warning? c') ++ Net.clashes (Net.sort nets.flatten)) :
          Result (List Net × List String))) =
    ((gs.filter fun g => g.isOld d.circuit).mapM fun g => g.nets d) >>= fun nets =>
      pure (Net.finish ((gs.filter fun g => g.isOld d.circuit).filterMap fun g =>
        g.warning? d.circuit) nets.flatten) := by
  rw [← h.warnings hbuses hsteps hgs,
    ← bind_map_left List.flatten _ fun nets =>
      (pure (Net.finish (gs.filterMap (·.warning? c')) nets) : Result _),
    ← h.cut hbuses hsteps hgs, bind_map_left]
  refine bind_congr_of_ok rfl fun lists hlists => congrArg Except.ok ?_
  have hflatten : lists.flatMap (List.filter (·.isOld d.circuit)) =
      lists.flatten.filter (·.isOld d.circuit) := by
    rw [List.filter_flatten, List.flatMap_def]
  rw [hflatten, Net.finish_filter (fun n hn hnew =>
    (h.isLone_of_cut hbuses hsteps hgs hlists hn hnew).template) fun _ _ => rfl]

end Circuit.Idles

namespace Circuit.Idles

variable {d : Design} {c' : Circuit} {added : List NodeId} (h : d.circuit.Idles c' added)
include h

/-- Without the nets of new pins the netlist has the nets from before, and the same warnings. -/
theorem netlist :
    (fun r => (r.1.nets.filter (·.isOld d.circuit), r.2)) <$> (d.over c').netlist =
      (fun r => (r.1.nets, r.2)) <$> d.netlist := by
  rw [Design.netlist, Design.netlist]
  simp only [map_bind, map_pure]
  refine bind_congr_of_ok (h.checkResolved h.old) fun _ _ =>
    bind_congr_of_ok (h.flattenedBuses_eq h.old) fun buses hbuses => ?_
  have hknown : ∀ bus ∈ buses, ∀ m ∈ bus.members, d.circuit.Knows m :=
    fun bus hbus m hm => knows_of_buses hbuses hbus hm
  rw [Wires.ofDesign_eq, Wires.ofDesign_eq, bind_assoc, bind_assoc]
  refine bind_congr_of_ok (h.plan hknown) fun steps hsteps => ?_
  rw [pure_bind, pure_bind, ← h.groups hknown hsteps, bind_map_left]
  refine bind_congr_of_ok rfl fun gs hgs => ?_
  exact h.finish hknown hsteps hgs

/-- Each net of the larger netlist was there, or is unnamed and of one new pin. -/
theorem isOld_or_isLone {n : Netlist} (s : Stages (d.over c') n) {net : Net} (hnet : net ∈ n.nets) :
    net.isOld d.circuit = true ∨ net.isOld d.circuit = false ∧ net.name = none ∧
      ∃ q ∈ c'.partPins, ¬d.circuit.Has q.component ∧ net.pins = .ofList [q] := by
  cases hold : net.isOld d.circuit with
  | true => exact .inl rfl
  | false =>
    refine .inr ⟨rfl, ?_⟩
    have hbuses := (h.flattenedBuses_eq h.old).symm.trans s.flattened
    have hknown : ∀ bus ∈ s.buses, ∀ m ∈ bus.members, d.circuit.Knows m :=
      fun bus hbus m hm => knows_of_buses hbuses hbus hm
    obtain ⟨steps, hsteps, hwires⟩ := Wires.ofDesign_eq_ok.1 s.wired
    rw [h.plan hknown] at hsteps
    have hgrouped := s.grouped
    rw [← hwires] at hgrouped
    have hlone (m : Net) (hm : m ∈ Net.sort s.nets.flatten) (hnew : m.isOld d.circuit = false) :
        m.IsLone d.circuit c' :=
      h.isLone_of_cut hknown hsteps hgrouped s.cut ((Net.sort_perm _).mem_iff.1 hm) hnew
    have hpins : net.pins ∈ n.nets.map Net.pins := List.mem_map_of_mem hnet
    rw [s.named] at hnet
    rw [s.named, Net.map_assignNames fun _ _ => rfl] at hpins
    obtain ⟨m, hm, hpins⟩ := List.mem_map.1 hpins
    have hnew : m.isOld d.circuit = false := by rwa [Net.isOld, hpins]
    exact ⟨Net.name_eq_none (fun m hm hnew => (hlone m hm hnew).template) (fun _ _ => rfl) hnet
      hold, hpins ▸ (hlone m hm hnew).pin⟩

end Circuit.Idles

/-- The pins of a component that stands at a node. -/
def Component.pinsAt (p : Component) (x : NodeId) : SortedSet ComponentPin :=
  .ofList (p.pins.map fun pin => ⟨x, pin.id⟩)

/-- The netlist `n'` has the nets of `n` in their order, and among them an unnamed net for each of
the pins of a component. -/
structure Netlist.Beside (n n' : Netlist) (x : NodeId) (pins : SortedSet ComponentPin) : Prop where
  kept : n'.nets.filter (x ∉ ·.components) = n.nets
  lone : ((n'.nets.filter (x ∈ ·.components)).map Net.pins).Perm
    (pins.toList.map fun q => .ofList [q])
  unnamed : ∀ net ∈ n'.nets, x ∈ net.components → net.name = none

namespace Circuit.Idles

variable {d : Design} {c' : Circuit} {x : NodeId} (h : d.circuit.Idles c' [x])
include h

theorem mem_components_iff {n : Netlist} (s : Stages (d.over c') n) {net : Net}
    (hnet : net ∈ n.nets) : x ∈ net.components ↔ net.isOld d.circuit = false := by
  have hnew : ¬d.circuit.Has x := ((h.mem_added x).1 (List.mem_singleton_self x)).2
  rw [Net.components, SortedSet.mem_ofList, List.mem_map]
  rcases h.isOld_or_isLone s hnet with hold | ⟨hlone, _, q, hq, hout, hpins⟩
  · refine iff_of_false ?_ (by simp [hold])
    rintro ⟨p, hp, rfl⟩
    exact hnew (holds_iff.1 (List.all_eq_true.1 hold p hp))
  · have hadded := (h.mem_added q.component).2 ⟨(mem_partPins.1 hq).1, hout⟩
    refine iff_of_true ⟨q, ?_, List.mem_singleton.1 hadded⟩ hlone
    rw [hpins]
    exact List.mem_singleton_self q

theorem lone_perm {n : Netlist} (s : Stages (d.over c') n) {part : Component}
    (hpart : c'.component? x = some part) :
    ((n.nets.filter (x ∈ ·.components)).map Net.pins).Perm
      ((part.pinsAt x).toList.map fun q => .ofList [q]) := by
  have hsingle {q q' : ComponentPin} (heq : SortedSet.ofList [q] = .ofList [q']) : q = q' :=
    List.mem_singleton.1 (SortedSet.mem_ofList.1 (heq ▸ SortedSet.mem_ofList.2
      (List.mem_singleton_self q)))
  have hpins {q : ComponentPin} : q ∈ part.pinsAt x ↔ q ∈ c'.partPins ∧ q.component = x := by
    obtain ⟨htree, _⟩ := (h.mem_added x).1 (List.mem_singleton_self x)
    obtain ⟨_, hsame, hkind, _⟩ := h.parts x (List.mem_singleton_self x)
    obtain rfl := Option.some.inj (hpart.symm.trans hsame)
    rw [Component.pinsAt, SortedSet.mem_ofList, List.mem_map]
    constructor
    · rintro ⟨pin, hpin, rfl⟩
      exact ⟨mem_partPins.2 ⟨htree, part, hpart, hkind, pin, hpin, rfl⟩, rfl⟩
    · rintro ⟨hq, rfl⟩
      obtain ⟨_, found, hfound, _, pin, hpin, hid⟩ := mem_partPins.1 hq
      obtain rfl := Option.some.inj (hpart.symm.trans hfound)
      exact ⟨pin, hpin, by rw [hid]⟩
  have hlone {net : Net} (hnet : net ∈ n.nets) (hx : x ∈ net.components) :
      ∃ q ∈ part.pinsAt x, net.pins = .ofList [q] := by
    have hnew := (h.mem_components_iff s hnet).1 hx
    rcases h.isOld_or_isLone s hnet with hold | ⟨_, _, q, hq, hout, hone⟩
    · exact absurd (hnew.symm.trans hold) Bool.false_ne_true
    · have hadded := (h.mem_added q.component).2 ⟨(mem_partPins.1 hq).1, hout⟩
      exact ⟨q, hpins.2 ⟨hq, List.mem_singleton.1 hadded⟩, hone⟩
  refine (List.perm_ext_iff_of_nodup ?_ ?_).2 fun pins => ?_
  · exact s.nodup_pins.sublist (List.filter_sublist.map Net.pins)
  · exact (part.pinsAt x).nodup.map fun _ _ => hsingle
  · simp only [List.mem_map, List.mem_filter, decide_eq_true_eq]
    constructor
    · rintro ⟨net, ⟨hnet, hx⟩, rfl⟩
      obtain ⟨q, hq, hone⟩ := hlone hnet hx
      exact ⟨q, hq, hone.symm⟩
    · rintro ⟨q, hq, rfl⟩
      obtain ⟨hpart, hcomponent⟩ := hpins.1 hq
      obtain ⟨net, hnet, hin⟩ := s.exists_net_of_mem_partPins hpart
      have hx : x ∈ net.components := SortedSet.mem_ofList.2 (List.mem_map.2 ⟨q, hin, hcomponent⟩)
      obtain ⟨q', _, hone⟩ := hlone hnet hx
      rw [hone, SortedSet.mem_ofList, List.mem_singleton] at hin
      exact ⟨net, ⟨hnet, hx⟩, hin ▸ hone⟩

/-- Synthesis fails as before, or gives the nets from before and those of the new pins. -/
theorem synthesize {part : Component} (hpart : c'.component? x = some part) :
    (∀ e n, d.synthesize = .ok (e, n) → ∃ n', (d.over c').synthesize = .ok (e.over c', n') ∧
      n.Beside n' x (part.pinsAt x)) ∧
    ∀ error, d.synthesize = .error error → (d.over c').synthesize = .error error := by
  have hnetlist := h.netlist
  have hwarn (warnings : List String) :
      (d.over c').warnAll warnings = (d.warnAll warnings).over c' :=
    List.foldl_hom (Design.over · c') fun _ _ => rfl
  cases hd : d.netlist with
  | error error =>
    have hfails : (d.over c').netlist = .error error := by
      rw [hd] at hnetlist
      cases hd' : (d.over c').netlist with
      | error error' => exact congrArg Except.error (Except.error.inj (hd' ▸ hnetlist))
      | ok r =>
        rw [hd'] at hnetlist
        cases hnetlist
    rw [Design.synthesize, Design.synthesize, hd, hfails]
    refine ⟨fun e n hok => ?_, fun _ h => h⟩
    cases hok
  | ok r =>
    obtain ⟨n, warnings⟩ := r
    rw [hd] at hnetlist
    cases hd' : (d.over c').netlist with
    | error error' =>
      rw [hd'] at hnetlist
      cases hnetlist
    | ok r' =>
      obtain ⟨n', warnings'⟩ := r'
      rw [hd'] at hnetlist
      obtain ⟨hnets, rfl⟩ := Prod.mk.inj (Except.ok.inj hnetlist)
      rw [Design.synthesize, Design.synthesize, hd, hd']
      refine ⟨fun e m hm => ?_, fun error herror => ?_⟩
      swap
      · cases herror
      obtain ⟨rfl, rfl⟩ := Prod.mk.inj (Except.ok.inj hm)
      obtain ⟨s⟩ := Design.netlist_eq_ok hd'
      refine ⟨n', congrArg Except.ok (congrArg (·, n') (hwarn warnings')), ⟨?_, ?_, ?_⟩⟩
      · rw [← hnets]
        refine List.filter_congr fun net hnet => ?_
        rw [Bool.eq_iff_iff, decide_eq_true_iff, h.mem_components_iff s hnet, Bool.not_eq_false]
      · exact h.lone_perm s hpart
      · intro net hnet hx
        rcases h.isOld_or_isLone s hnet with hold | ⟨_, hname, _⟩
        · have hnew := (h.mem_components_iff s hnet).1 hx
          exact absurd (hnew.symm.trans hold) Bool.false_ne_true
        · exact hname

end Circuit.Idles

/-- A part that is added to the tree without a role and without a requirement changes nothing else,
provided that ancillaries are bound to what is there: synthesis fails as it did, or gives the same
nets in the same order with the same warnings, and among them an unnamed net for each new pin. -/
theorem idle_part_beside {d : Design} (hc : d.circuit.Reachable) (hstanding : d.circuit.Standing)
    {parent x : NodeId} {name function : String} {connectivity : ConnectivityId} {c' : Circuit}
    (h : d.circuit.run (Circuit.addPart parent name function connectivity) = (.ok x, c'))
    (htree : d.circuit.InTree Circuit.root parent) :
    ∃ part, c'.component? x = some part ∧
      (∀ e n, d.synthesize = .ok (e, n) → ∃ n', (d.over c').synthesize = .ok (e.over c', n') ∧
        n.Beside n' x (part.pinsAt x)) ∧
      ∀ error, d.synthesize = .error error → (d.over c').synthesize = .error error := by
  obtain ⟨part, hpart, hfresh, hparent, rfl, hgrown⟩ := Circuit.run_addPart hc.base h
  have happends := Circuit.appends_grown hparent hfresh hpart
  have hnew := hc.after [.part parent name function connectivity]
  have hafter : d.circuit.after [.part parent name function connectivity] = c' := by
    rw [Circuit.after, List.foldl_cons, List.foldl_nil, Circuit.Instruction.perform,
      map_eq_pure_bind, Circuit.run_bind, h]
    rfl
  rw [← hgrown] at happends
  rw [hafter] at hnew
  have hidles : d.circuit.Idles c' [d.circuit.nextNode] := {
    happends.adds hc.forest hc.has_root htree with
    old := hc
    new := hnew
    standing := hstanding
    idle := by
      intro y hy p hp
      obtain rfl := List.mem_singleton.1 hy
      obtain rfl := Option.some.inj (happends.component.symm.trans hp)
      exact hfresh.2.2.2 }
  exact ⟨part, happends.component, hidles.synthesize happends.component⟩

namespace Specimen

/-- One more consumer on the board of a clock that is damped and pulled up. -/
def spared : Circuit := (pulledUpBehind.circuit.run (Circuit.addPart ⟨1⟩ "U9" "spare" consumer)).2

theorem run_spare : pulledUpBehind.circuit.run (Circuit.addPart ⟨1⟩ "U9" "spare" consumer) =
    (.ok ⟨6⟩, spared) :=
  Prod.ext (by decide +kernel) rfl

end Specimen

/-- The spare consumer's two pins are on nets of their own, and the clock's are as before. -/
theorem idle_part_beside_specimen : ∃ part e n n',
    Specimen.spared.component? ⟨6⟩ = some part ∧ part.pins.length = 2 ∧
    Specimen.pulledUpBehind.synthesize = .ok (e, n) ∧
    (Specimen.pulledUpBehind.over Specimen.spared).synthesize = .ok (e.over Specimen.spared, n') ∧
    n.Beside n' ⟨6⟩ (part.pinsAt ⟨6⟩) := by
  have hstanding : Specimen.pulledUpBehind.circuit.Standing := by decide +kernel
  have htree : ⟨1⟩ ∈ Specimen.pulledUpBehind.circuit.subtree Circuit.root := by decide +kernel
  have hpins : (Specimen.spared.component? ⟨6⟩).map (·.pins.length) = some 2 := by decide +kernel
  obtain ⟨⟨e, n⟩, h⟩ : ∃ r, Specimen.pulledUpBehind.synthesize = .ok r :=
    isOk_iff.1 (by decide +kernel)
  obtain ⟨part, hpart, hok, _⟩ := idle_part_beside ((Specimen.reachable.after _).after _) hstanding
    Specimen.run_spare (Circuit.mem_subtree_iff.1 htree)
  obtain ⟨n', h', hbeside⟩ := hok e n h
  rw [hpart] at hpins
  exact ⟨part, e, n, n', hpart, Option.some.inj hpins, h, h', hbeside⟩

end BoardNets
