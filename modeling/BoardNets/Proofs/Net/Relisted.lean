import BoardNets.Proofs.Ancillary.Listing
import BoardNets.Proofs.Ancillary.Order
import BoardNets.Proofs.Bus.Extension
import BoardNets.Proofs.Net.Networks

/-! Nets and the order in which a bus ancillary lists its connections. The design is the same but
for one listing, so its buses and their networks are, and so is all that other ancillaries do; what
the relisted one does is alike as long as the same connections come before its output. -/
namespace BoardNets
namespace Circuit

variable {c : Circuit} {R : NodeId} {listing : List AncillaryConnection}

/-- The circuit with the connections of one ancillary listed as given. -/
def relisted (c : Circuit) (R : NodeId) (listing : List AncillaryConnection) : Circuit :=
  c.editComponent R fun p =>
    { p with ancillary := p.ancillary.map fun a => { a with connections := listing } }

def relist (R : NodeId) (listing : List AncillaryConnection) (entry : NodeId × Ancillary) :
    NodeId × Ancillary :=
  if entry.1 = R then (entry.1, { entry.2 with connections := listing }) else entry

theorem extends_relisted : c.Extends (c.relisted R listing) :=
  .editComponent fun p => ⟨p.children, _, rfl⟩

theorem walk_congr {c c' : Circuit} (h : ∀ x, c'.children x = c.children x) (depth : Nat)
    (x : NodeId) : c'.walk depth x = c.walk depth x := by
  induction depth generalizing x with
  | zero => rfl
  | succ depth ih => simp only [walk, h, ih]

/-- What is read off a component without its ancillary role is what it was. -/
theorem read_relisted {β : Type} {F : Option Component → β}
    (hF : ∀ p ancillary, F (some { p with ancillary }) = F (some p)) (x : NodeId) :
    F ((c.relisted R listing).component? x) = F (c.component? x) := by
  rw [relisted, component?_editComponent]
  split
  · cases c.component? x with
    | none => rfl
    | some p => exact hF p _
  · rfl

theorem below_relisted (x : NodeId) : (c.relisted R listing).below x = c.below x := by
  have hchildren (y : NodeId) : (c.relisted R listing).children y = c.children y :=
    read_relisted (F := fun p? => p?.elim [] Component.children) (fun _ _ => rfl) y
  rw [below, below, walk_congr hchildren, relisted, size_editComponent]

theorem descendants_relisted (x : NodeId) (deep : Bool) :
    (c.relisted R listing).descendants x deep = c.descendants x deep := by
  rw [descendants, descendants, below_relisted]

theorem subtree_relisted (x : NodeId) : (c.relisted R listing).subtree x = c.subtree x := by
  rw [subtree, subtree, below_relisted]

theorem parts_relisted (x : NodeId) : (c.relisted R listing).parts x = c.parts x := by
  rw [parts, parts, subtree_relisted]
  refine List.filter_congr fun y _ => ?_
  exact read_relisted (F := (·.any Component.isPart)) (fun _ _ => rfl) y

theorem partPins_relisted : (c.relisted R listing).partPins = c.partPins := by
  rw [partPins, partPins, parts_relisted]
  refine List.flatMap_congr fun id _ => ?_
  exact read_relisted (F := fun p? => p?.elim [] fun part =>
    part.pins.map fun pin => (⟨id, pin.id⟩ : ComponentPin)) (fun _ _ => rfl) id

theorem ancillaries_relisted :
    (c.relisted R listing).ancillaries = c.ancillaries.map (relist R listing) := by
  rw [ancillaries, ancillaries, parts_relisted, List.map_filterMap]
  refine List.filterMap_congr fun id _ => ?_
  rw [relisted, component?_editComponent]
  cases c.component? id with
  | none => simp
  | some p =>
    cases ha : p.ancillary with
    | none => split <;> simp [ha]
    | some a => split <;> simp [relist, *]

end Circuit

namespace Design

variable {d : Design} {R : NodeId} {listing : List AncillaryConnection}

/-- The design with the connections of one ancillary listed as given. -/
def relisted (d : Design) (R : NodeId) (listing : List AncillaryConnection) : Design :=
  { d with circuit := d.circuit.relisted R listing }

theorem cuts_relisted (pins : SortedSet ComponentPin) :
    (d.relisted R listing).cuts pins = d.cuts pins := by
  have hparent (x : NodeId) : (d.circuit.relisted R listing).parent? x = d.circuit.parent? x :=
    Circuit.view_editComponent (V := fun n => n >>= Node.parent) (fun _ => by rfl) x
  have hclimb (steps : Nat) (x : NodeId) :
      (d.circuit.relisted R listing).climb steps x = d.circuit.climb steps x := by
    induction steps generalizing x with
    | zero => rfl
    | succ steps ih => simp only [Circuit.climb, hparent, ih]
  have hboard (x : NodeId) : (d.relisted R listing).board? x = d.board? x := by
    have hancestors : (d.circuit.relisted R listing).ancestors x true =
        d.circuit.ancestors x true := by
      rw [Circuit.ancestors, Circuit.ancestors, hclimb, Circuit.relisted,
        Circuit.size_editComponent]
    exact congrArg (List.find? d.isBoard) hancestors
  simp only [cuts, boardsOf, onBoard, hboard]
  rfl

/-- Which ancillaries are on a bus does not depend on their connections. -/
theorem busAncillaries_relisted {bus : Bus} {parts : List NodeId}
    (hresolved : (d.circuit.relisted R listing).checkResolved Circuit.root = .ok ())
    (h : d.busAncillaries bus none = .ok parts) :
    (d.relisted R listing).busAncillaries bus none = .ok parts := by
  obtain ⟨atoms, hatoms, h⟩ := bind_eq_ok.1 h
  obtain ⟨_, _, hatoms⟩ := bind_eq_ok.1 hatoms
  obtain rfl := pure_eq_ok.1 hatoms
  refine bind_eq_ok.2 ⟨_, bind_eq_ok.2 ⟨(), hresolved, ?_⟩, filterM_mono h fun id _ b hb => ?_⟩
  · exact congrArg _ (Circuit.parts_relisted Circuit.root)
  · obtain ⟨p, hp, hb⟩ := bind_eq_ok.1 hb
    rw [Circuit.component_eq_ok] at hp
    have hid : (d.circuit.relisted R listing).component? id = some (if id = R then
        { p with ancillary := p.ancillary.map fun a => { a with connections := listing } }
        else p) := by
      rw [Circuit.relisted, Circuit.component?_editComponent, hp]
      split <;> rfl
    refine bind_eq_ok.2 ⟨_, Circuit.component_eq_ok.2 hid, ?_⟩
    by_cases hR : id = R
    · rw [if_pos hR]
      cases ha : p.ancillary with
      | none =>
        rw [ha] at hb
        exact hb
      | some a =>
        rw [ha] at hb
        obtain ⟨type, connectionType, latency, connections, binding⟩ := a
        cases binding <;> exact hb
    · rw [if_neg hR]
      exact hb

end Design

theorem Circuit.sort_relist (R : NodeId) (listing : List AncillaryConnection)
    (ancillaries : List (NodeId × Ancillary)) :
    Ancillary.sort (ancillaries.map (relist R listing)) =
      (Ancillary.sort ancillaries).map (relist R listing) := by
  refine (List.map_mergeSort fun e _ e' _ => ?_).symm
  simp only [relist]
  split <;> split <;> rfl

theorem Wires.networkPlan_eq_ok {c : Circuit} {ancillaries : List (NodeId × Ancillary)}
    {network : LogicalNetwork} {n : NetworkPins} {steps : List Step} :
    networkPlan c ancillaries network n = .ok steps ↔
      ∃ plans, (if n.requested then
        ancillaries.mapM fun e => ancillaryPlan c network n.pins e.1 e.2 else pure []) = .ok plans ∧
          plans.flatten ++ star n.pins = steps := by
  rw [networkPlan]
  cases hrequested : n.requested with
  | false => simp [pure_eq_ok]
  | true => simp only [if_true, bind_eq_ok, pure_eq_ok]

/-- An ancillary on a bus with at most one output, and its connections in another order that keeps
those that come before the output on each network. -/
structure Relisting (c : Circuit) (R : NodeId) (a : Ancillary)
    (listing : List AncillaryConnection) : Prop where
  holds : ∃ part, c.component? R = some part ∧ part.ancillary = some a
  onBus : ∃ bus, a.binding = .bus bus
  perm : listing.Perm a.connections
  one : (a.connections.filter fun n => n.role = .output).length ≤ 1
  before : ∀ network, (AncillaryConnection.beforeOutput
    ({ a with connections := listing }.on network)).Perm
      (AncillaryConnection.beforeOutput (a.on network))

namespace Relisting

variable {c : Circuit} {R : NodeId} {a : Ancillary} {listing : List AncillaryConnection}
  (hr : Relisting c R a listing)
include hr

theorem eq_of_mem {b : Ancillary} (hb : (R, b) ∈ c.ancillaries) : b = a := by
  obtain ⟨_, p, hp, _, hb⟩ := Circuit.mem_ancillaries.1 hb
  obtain ⟨part, hpart, ha⟩ := hr.holds
  obtain rfl := Option.some.inj (hp.symm.trans hpart)
  exact Option.some.inj (hb.symm.trans ha)

theorem localAncillaries : (c.relisted R listing).ancillaries.filter (·.2.isLocal) =
    c.ancillaries.filter (·.2.isLocal) := by
  have hsame : (fun e : NodeId × Ancillary => e.2.isLocal) ∘ Circuit.relist R listing =
      fun e => e.2.isLocal := by
    funext ⟨id, b⟩
    simp only [Function.comp_apply, Circuit.relist]
    split <;> rfl
  rw [Circuit.ancillaries_relisted, List.filter_map, hsame]
  refine (List.map_congr_left fun e he => ?_).trans (List.map_id _)
  obtain ⟨hmem, hlocal⟩ := List.mem_filter.1 he
  obtain ⟨id, b⟩ := e
  refine if_neg ?_
  rintro rfl
  obtain ⟨bus, hbus⟩ := hr.onBus
  rw [hr.eq_of_mem hmem, Ancillary.isLocal, hbus] at hlocal
  cases hlocal

theorem localPlan {steps : List Wires.Step} (h : Wires.localPlan c = .ok steps) :
    Wires.localPlan (c.relisted R listing) = .ok steps := by
  obtain ⟨plans, hplans, h⟩ := bind_eq_ok.1 h
  refine bind_eq_ok.2 ⟨plans, ?_, h⟩
  rw [hr.localAncillaries]
  refine mapM_mono hplans fun e _ steps hsteps => ?_
  obtain ⟨done, hdone, hsteps⟩ := bind_eq_ok.1 hsteps
  exact bind_eq_ok.2 ⟨done, Ancillary.apply_mono Circuit.extends_relisted hdone, hsteps⟩

theorem one_on (network : LogicalNetwork) :
    ((a.on network).filter fun n => n.role = .output).length ≤ 1 :=
  (List.filter_sublist.filter _).length_le.trans hr.one

theorem alike_ancillaryPlan {network : LogicalNetwork} {pins : SortedSet ComponentPin}
    {e : NodeId × Ancillary} (he : e ∈ c.ancillaries) {steps steps' : List Wires.Step}
    (h : Wires.ancillaryPlan c network pins e.1 e.2 = .ok steps)
    (h' : Wires.ancillaryPlan (c.relisted R listing) network pins
      (Circuit.relist R listing e).1 (Circuit.relist R listing e).2 = .ok steps') :
    Wires.Alike steps steps' := by
  obtain ⟨id, b⟩ := e
  obtain ⟨plans, hplans, rfl⟩ := Wires.ancillaryPlan_eq_ok.1 h
  obtain ⟨plans', hplans', rfl⟩ := Wires.ancillaryPlan_eq_ok.1 h'
  have hmono (b' : Ancillary) (n : AncillaryConnection) (steps : List Wires.Step)
      (hn : n.stepsOn c id b pins = .ok steps) :
      n.stepsOn (c.relisted R listing) id b' pins = .ok steps :=
    AncillaryConnection.stepsOn_mono Circuit.extends_relisted hn b'
  by_cases hid : id = R
  · subst hid
    obtain rfl := hr.eq_of_mem he
    rw [Circuit.relist, if_pos rfl] at hplans'
    have hperm : ({ b with connections := listing }.on network).Perm (b.on network) :=
      hr.perm.filter _
    obtain ⟨plans₀, hplans₀⟩ := exists_mapM_iff.2 fun n hn =>
      exists_mapM_iff.1 ⟨plans, hplans⟩ n (hperm.mem_iff.1 hn)
    have hsame := mapM_mono hplans₀ fun n _ => hmono { b with connections := listing } n
    obtain rfl := Except.ok.inj (hplans'.symm.trans hsame)
    exact Wires.alike_of_relisting hperm (hr.one_on network) (hr.before network) hplans hplans₀
  · rw [Circuit.relist, if_neg hid] at hplans'
    obtain rfl := Except.ok.inj (hplans'.symm.trans (mapM_mono hplans fun n _ => hmono b n))
    exact .refl _

theorem alike_networkPlan {network : LogicalNetwork} {pins : NetworkPins}
    {ancillaries : List (NodeId × Ancillary)} (hmem : ∀ e ∈ ancillaries, e ∈ c.ancillaries)
    {steps steps' : List Wires.Step}
    (h : Wires.networkPlan c ancillaries network pins = .ok steps)
    (h' : Wires.networkPlan (c.relisted R listing) (ancillaries.map (Circuit.relist R listing))
      network pins = .ok steps') : Wires.Alike steps steps' := by
  obtain ⟨plans, hplans, rfl⟩ := Wires.networkPlan_eq_ok.1 h
  obtain ⟨plans', hplans', rfl⟩ := Wires.networkPlan_eq_ok.1 h'
  refine Wires.Alike.append (.flatten ?_) (.refl _)
  cases hrequested : pins.requested with
  | false =>
    rw [hrequested] at hplans hplans'
    obtain rfl := pure_eq_ok.1 hplans
    obtain rfl := pure_eq_ok.1 hplans'
    exact .nil
  | true =>
    rw [hrequested] at hplans hplans'
    exact forall₂_of_mapM hplans hplans' fun e he _ _ hsteps hsteps' =>
      hr.alike_ancillaryPlan (hmem e he) hsteps hsteps'

end Relisting

namespace Relisting

variable {d : Design} {R : NodeId} {a : Ancillary} {listing : List AncillaryConnection}
  (hr : Relisting d.circuit R a listing)
  (hresolved : (d.relisted R listing).circuit.checkResolved Circuit.root = .ok ())
include hr hresolved

theorem alike_busPlan {bus : Bus} (hbus : ∀ m ∈ bus.members, d.circuit.Knows m)
    {steps steps' : List Wires.Step} (h : Wires.busPlan d bus = .ok steps)
    (h' : Wires.busPlan (d.relisted R listing) bus = .ok steps') : Wires.Alike steps steps' := by
  obtain ⟨networks, hnetworks, h⟩ := bind_eq_ok.1 h
  obtain ⟨parts, hparts, h⟩ := bind_eq_ok.1 h
  obtain ⟨plans, hplans, h⟩ := bind_eq_ok.1 h
  obtain rfl := pure_eq_ok.1 h
  obtain ⟨networks', hnetworks', h'⟩ := bind_eq_ok.1 h'
  obtain ⟨parts', hparts', h'⟩ := bind_eq_ok.1 h'
  obtain ⟨plans', hplans', h'⟩ := bind_eq_ok.1 h'
  obtain rfl := pure_eq_ok.1 h'
  have hextends : d.circuit.Extends (d.relisted R listing).circuit := Circuit.extends_relisted
  obtain rfl := Except.ok.inj (hnetworks'.symm.trans (hextends.busNetworks hbus hnetworks))
  obtain rfl := Except.ok.inj (hparts'.symm.trans (Design.busAncillaries_relisted hresolved hparts))
  have hsorted : Ancillary.sort ((d.relisted R listing).circuit.ancillaries.filter (·.1 ∈ parts')) =
      (Ancillary.sort (d.circuit.ancillaries.filter (·.1 ∈ parts'))).map
        (Circuit.relist R listing) := by
    rw [← Circuit.sort_relist, Design.relisted, Circuit.ancillaries_relisted, List.filter_map]
    congr 3
    funext e
    simp only [Function.comp_apply, Circuit.relist]
    split <;> rfl
  rw [hsorted] at hplans'
  rw [← List.map_id networks'.toList] at hplans'
  refine .flatten (forall₂_of_mapM hplans hplans' fun e _ _ _ hsteps hsteps' => ?_)
  refine hr.alike_networkPlan (fun e he => ?_) hsteps hsteps'
  exact (List.mem_filter.1 ((Ancillary.sort_perm _).mem_iff.1 he)).1

theorem same_wires {n n' : Netlist} (s : Stages d n) (t : Stages (d.relisted R listing) n') :
    Wires.Same s.wires t.wires := by
  have hextends : d.circuit.Extends (d.relisted R listing).circuit := Circuit.extends_relisted
  have hkeep : ((d.relisted R listing).circuit.descendants Circuit.root true).filter
      (fun _ => true) = d.circuit.descendants Circuit.root true := by
    rw [List.filter_true, Design.relisted, Circuit.descendants_relisted]
  have hflattened := hextends.buses hkeep (fun x _ h => by cases h) s.flattened
  have hbuses : t.buses = s.buses := Except.ok.inj (t.flattened.symm.trans hflattened)
  obtain ⟨steps, hsteps, hwires⟩ := Wires.ofDesign_eq_ok.1 s.wired
  obtain ⟨steps', hsteps', hwires'⟩ := Wires.ofDesign_eq_ok.1 t.wired
  obtain ⟨first, hfirst, hsteps⟩ := bind_eq_ok.1 hsteps
  obtain ⟨plans, hplans, hsteps⟩ := bind_eq_ok.1 hsteps
  obtain ⟨first', hfirst', hsteps'⟩ := bind_eq_ok.1 hsteps'
  obtain ⟨plans', hplans', hsteps'⟩ := bind_eq_ok.1 hsteps'
  obtain rfl := pure_eq_ok.1 hsteps
  obtain rfl := pure_eq_ok.1 hsteps'
  obtain rfl := Except.ok.inj (hfirst'.symm.trans (hr.localPlan hfirst))
  rw [hbuses, ← List.map_id s.buses] at hplans'
  -- local ancillaries do the same as before, and each bus does something alike
  have halike : Wires.Alike (first' ++ plans.flatten) (first' ++ plans'.flatten) :=
    (Wires.Alike.refl first').append <| .flatten <|
      forall₂_of_mapM hplans hplans' fun bus hbus _ _ hbusPlan hbusPlan' =>
        hr.alike_busPlan hresolved (fun _ => Circuit.knows_of_buses s.flattened hbus) hbusPlan
          hbusPlan'
  have hbare : Wires.bare (d.relisted R listing).circuit = Wires.bare d.circuit := by
    rw [Wires.bare, Wires.bare, Design.relisted, Circuit.partPins_relisted]
  rw [← hwires, ← hwires', hbare]
  exact halike _ _ (.refl _)

end Relisting

/-- Listing the connections of a bus ancillary in another order changes neither the nets nor which
pins are replaced, as long as the same connections come before its output on each network. Those
attach to the pins of the network as they were, and those after the output attach to the output
itself. Ancillaries on interfaces and pins, which are applied as a whole, attach to pins as they
were whatever their order. -/
theorem relisted_nets {d e e' : Design} {n n' : Netlist} {R : NodeId} {a : Ancillary}
    {listing : List AncillaryConnection} (hr : Relisting d.circuit R a listing)
    (h : d.synthesize = .ok (e, n)) (h' : (d.relisted R listing).synthesize = .ok (e', n')) :
    n'.masks = n.masks ∧
    (∀ board pins, (∃ net ∈ n'.nets, net.board = board ∧ net.pins = pins) ↔
      ∃ net ∈ n.nets, net.board = board ∧ net.pins = pins) ∧
    (∀ network pins steps, Wires.ancillaryPlan d.circuit network pins R a = .ok steps → ∀ w edge,
      edge ∈ Wires.laid w steps ↔
        (∃ m ∈ AncillaryConnection.beforeOutput (a.on network),
          m.Attaches d.circuit R a pins w.masked edge) ∨
        ∃ out rest, AncillaryConnection.fromOutput (a.on network) = out :: rest ∧ ∃ m ∈ rest,
          m.Attaches d.circuit R a pins
            (fun p => if p ∈ pins then ⟨R, out.ancillaryPin⟩ else w.masked p) edge) ∧
    ∀ id b done, Ancillary.apply b d.circuit id = .ok done → ∀ w edge,
      edge ∈ Wires.laid w done.steps ↔ ∃ p ∈ done.connections,
        w.masked p.first ≠ w.masked p.second ∧ edge = (w.masked p.first, w.masked p.second) := by
  obtain ⟨s, hmasks, _⟩ := Design.exists_stages h
  obtain ⟨t, hmasks', _⟩ := Design.exists_stages h'
  have hsame := hr.same_wires t.resolved s t
  refine ⟨by rw [hmasks, hmasks', hsame.masks], fun board pins => ?_, ?_, ?_⟩
  · have hcomponents (c : SortedSet ComponentPin) :
        c ∈ t.wires.graph.components ↔ c ∈ s.wires.graph.components :=
      hsame.mem_components (Wires.wellFormed_ofDesign s.wired) (Wires.wellFormed_ofDesign t.wired)
    rw [s.mem_places, t.mem_places]
    simp only [hcomponents, Design.cuts_relisted]
  · exact fun network _ _ hplan _ _ => Wires.mem_laid_ancillaryPlan (hr.one_on network) hplan
  · exact fun _ _ _ _ _ _ => Wires.mem_laid_application

namespace Specimen

def clockBus : Bus := { members := .ofList [⟨⟨0⟩, ⟨⟨2⟩, 0⟩, ⟨⟨3⟩, 0⟩, ⟨2⟩, ⟨3⟩⟩] }

def clockConnection (pin : PinId) (role : Role) : AncillaryConnection :=
  ⟨pin, role, .interfacePin output none⟩

def ferrite (listing : List AncillaryConnection) : Ancillary where
  type := .ferrite
  binding := .bus clockBus
  connections := listing

def filtered (listing : List AncillaryConnection) : Design :=
  { wholeDesign with
    circuit := (Circuit.new catalog).after (steps ++ [
      .ancillary Circuit.root "L1" "ferrite" consumer (ferrite listing)]) }

def inlet : AncillaryConnection := clockConnection ⟨⟨8⟩⟩ .input
def outlet : AncillaryConnection := clockConnection ⟨⟨9⟩⟩ .output
def bypass : AncillaryConnection := clockConnection ⟨⟨9⟩⟩ .input

theorem exists_filtered : (∃ r, (filtered [inlet, bypass, outlet]).synthesize = .ok r) ∧
    ∃ r, ((filtered [inlet, bypass, outlet]).relisted ⟨4⟩ [bypass, inlet, outlet]).synthesize =
      .ok r := by
  constructor
  · exact isOk_iff.1 (by decide +kernel)
  · exact isOk_iff.1 (by decide +kernel)

theorem relisting : Relisting (filtered [inlet, bypass, outlet]).circuit ⟨4⟩
    (ferrite [inlet, bypass, outlet]) [bypass, inlet, outlet] where
  holds := by
    have hpart : ((filtered [inlet, bypass, outlet]).circuit.component? ⟨4⟩).any (fun part =>
        part.ancillary = some (ferrite [inlet, bypass, outlet])) = true := by decide +kernel
    obtain ⟨part, hpart, ha⟩ := (Option.any_eq_true _ _).1 hpart
    exact ⟨part, hpart, of_decide_eq_true ha⟩
  onBus := ⟨clockBus, rfl⟩
  perm := .swap _ _ _
  one := by decide
  before := by
    intro network
    by_cases h : output ∈ network.requesting
    · simp [Ancillary.on, AncillaryConnection.beforeOutput, AncillaryConnection.interfacePin?,
        ferrite, inlet, bypass, outlet, clockConnection, h, List.Perm.swap]
    · simp [Ancillary.on, AncillaryConnection.beforeOutput, AncillaryConnection.interfacePin?,
        ferrite, inlet, bypass, outlet, clockConnection, h]

/-- The clock pins with the pin of the ferrite that is both its input and its output. -/
def clockLine : SortedSet ComponentPin := .ofList [⟨⟨2⟩, ⟨⟨8⟩⟩⟩, ⟨⟨3⟩, ⟨⟨8⟩⟩⟩, ⟨⟨4⟩, ⟨⟨9⟩⟩⟩]

theorem exists_cut : (∃ r, (filtered [bypass, outlet]).synthesize = .ok r) ∧
    ∃ r, ((filtered [bypass, outlet]).relisted ⟨4⟩ [outlet, bypass]).synthesize = .ok r := by
  constructor
  · exact isOk_iff.1 (by decide +kernel)
  · exact isOk_iff.1 (by decide +kernel)

def connects (d : Design) (pins : SortedSet ComponentPin) : Result Bool := do
  let w ← Wires.ofDesign d (← d.circuit.flattenedBuses Circuit.root)
  return pins ∈ w.graph.components

theorem connects_iff {d : Design} {n : Netlist} (s : Stages d n)
    (hsplit : d.options.splitByBoard = false) (pins : SortedSet ComponentPin) (b : Bool)
    (h : connects d pins = .ok b) : (∃ net ∈ n.nets, net.pins = pins) ↔ b = true := by
  rw [← s.of_wires h, s.mem_components hsplit, decide_eq_true_iff]

end Specimen

/-- The specimen's ferrite filters the clock, whichever of its inputs is listed first. -/
theorem relisted_nets_specimen : ∃ e n e' n',
    (Specimen.filtered [Specimen.inlet, Specimen.bypass, Specimen.outlet]).synthesize =
      .ok (e, n) ∧
    ((Specimen.filtered [Specimen.inlet, Specimen.bypass, Specimen.outlet]).relisted ⟨4⟩
      [Specimen.bypass, Specimen.inlet, Specimen.outlet]).synthesize = .ok (e', n') ∧
    n'.masks = n.masks ∧
    ∀ board pins, (∃ net ∈ n'.nets, net.board = board ∧ net.pins = pins) ↔
      ∃ net ∈ n.nets, net.board = board ∧ net.pins = pins := by
  obtain ⟨⟨⟨e, n⟩, h⟩, ⟨e', n'⟩, h'⟩ := Specimen.exists_filtered
  obtain ⟨hmasks, hnets, _⟩ := relisted_nets Specimen.relisting h h'
  exact ⟨e, n, e', n', h, h', hmasks, hnets⟩

/-- Listed after the output, an input attaches to the output and no longer to the clock. -/
theorem late_input_misses_network : ∃ part a e n e' n',
    (Specimen.filtered [Specimen.bypass, Specimen.outlet]).circuit.component? ⟨4⟩ = some part ∧
    part.ancillary = some a ∧ a.binding = .bus Specimen.clockBus ∧
    [Specimen.outlet, Specimen.bypass].Perm a.connections ∧
    (a.connections.filter fun n => n.role = .output).length ≤ 1 ∧
    (Specimen.filtered [Specimen.bypass, Specimen.outlet]).synthesize = .ok (e, n) ∧
    ((Specimen.filtered [Specimen.bypass, Specimen.outlet]).relisted ⟨4⟩
      [Specimen.outlet, Specimen.bypass]).synthesize = .ok (e', n') ∧
    (∃ net ∈ n.nets, net.pins = Specimen.clockLine) ∧
    ¬∃ net ∈ n'.nets, net.pins = Specimen.clockLine := by
  have hpart : ((Specimen.filtered [Specimen.bypass, Specimen.outlet]).circuit.component? ⟨4⟩).any
      (fun part => part.ancillary =
        some (Specimen.ferrite [Specimen.bypass, Specimen.outlet])) = true := by
    decide +kernel
  obtain ⟨part, hpart, ha⟩ := (Option.any_eq_true _ _).1 hpart
  obtain ⟨⟨⟨e, n⟩, h⟩, ⟨e', n'⟩, h'⟩ := Specimen.exists_cut
  obtain ⟨s⟩ := Design.synthesize_eq_ok h
  obtain ⟨t⟩ := Design.synthesize_eq_ok h'
  have hbefore := Specimen.connects_iff s rfl Specimen.clockLine true (by decide +kernel)
  have hafter := Specimen.connects_iff t rfl Specimen.clockLine false (by decide +kernel)
  exact ⟨part, _, e, n, e', n', hpart, of_decide_eq_true ha, rfl, .swap _ _ _, by decide, h, h',
    hbefore.2 rfl, fun hnet => Bool.false_ne_true (hafter.1 hnet)⟩

end BoardNets
