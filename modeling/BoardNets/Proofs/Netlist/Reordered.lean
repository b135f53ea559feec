import BoardNets.Proofs.Ancillary.Extension
import BoardNets.Proofs.Bus.Resemblance
import BoardNets.Proofs.Net.Alike
import BoardNets.Proofs.Net.Networks

/-! Nets and the order of requirements. Local ancillaries find the same pins in use and are applied
in the same order; after them each bus lays the stars of its networks, which are those of its
counterpart. So the same wires are laid, and the same pins are replaced before any of them. -/
namespace BoardNets

variable {c c' : Circuit}

namespace Circuit

variable (c)

theorem componentPin_outline : c.outline.componentPin = c.componentPin := by
  funext id pin
  rw [componentPin, componentPin, pin_outline]

theorem referencePin_outline (pins : SortedSet ComponentPin) (kind : ReferenceKind) :
    c.outline.referencePin pins kind = c.referencePin pins kind := by
  simp only [referencePin, pin_outline, componentPin_outline, reference_outline]

theorem pinLabel_outline (p : ComponentPin) : c.outline.pinLabel p = c.pinLabel p := by
  simp only [pinLabel, pin_outline, reference_outline]

theorem interfaceLabel_outline (i : InterfaceRef) :
    c.outline.interfaceLabel i = c.interfaceLabel i := by
  rw [interfaceLabel, interfaceLabel, interface_outline, reference_outline]
  cases c.interface i <;> rfl

end Circuit

theorem Ancillary.describe_outline (a : Ancillary) (c : Circuit) :
    a.describe c.outline = a.describe c := by
  have hlabel : c.outline.interfaceLabel = c.interfaceLabel := funext c.interfaceLabel_outline
  simp only [describe, Bus.describe, hlabel, Circuit.reference_outline]

theorem AncillaryConnection.applyTo_outline (n : AncillaryConnection) (c : Circuit) (id : NodeId)
    (a : Ancillary) (pins : SortedSet ComponentPin) :
    n.applyTo c.outline id a pins = n.applyTo c id a pins := by
  simp only [applyTo, joinReference, Circuit.componentPin_outline, Circuit.referencePin_outline,
    Circuit.pinLabel_outline, Ancillary.describe_outline]

namespace Circuit.Resembles

variable (h : c.Resembles c')
include h

theorem inputPins {n : AncillaryConnection} {binding : Binding} {pins : SortedSet ComponentPin}
    (hn : n.inputPins c binding = .ok pins) : n.inputPins c' binding = .ok pins := by
  cases binding with
  | bus bus => exact hn
  | board board => exact hn
  | interface parent i =>
    obtain ⟨x, hx, hn⟩ := bind_eq_ok.1 hn
    obtain ⟨assignment, hassignment, hn⟩ := bind_eq_ok.1 hn
    obtain ⟨y, hy, hidle, huses⟩ := h.interface hx
    obtain ⟨hname, hinterface, -, -⟩ := ComponentInterface.mk.inj hidle
    refine bind_eq_ok.2 ⟨y, hy, bind_eq_ok.2 ⟨assignment, ?_, ?_⟩⟩
    · simp only [AncillaryConnection.assignmentOn] at hassignment ⊢
      rwa [show y.interface = x.interface from hinterface, show y.name = x.name from hname]
    · rwa [ComponentInterface.activePins_congr huses]
  | pins parent =>
    have hpin : c'.componentPin = c.componentPin := by
      rw [← c'.componentPin_outline, h.outline, c.componentPin_outline]
    rwa [AncillaryConnection.inputPins, hpin]

theorem apply {a : Ancillary} {id : NodeId} {done : Application} (ha : a.apply c id = .ok done) :
    a.apply c' id = .ok done := by
  refine foldlM_mono ha fun done n _ done' hn => ?_
  obtain ⟨more, hmore, hn⟩ := bind_eq_ok.1 hn
  obtain ⟨pins, hpins, hmore⟩ := bind_eq_ok.1 hmore
  rw [← n.applyTo_outline, ← h.outline, n.applyTo_outline] at hmore
  exact bind_eq_ok.2 ⟨more, bind_eq_ok.2 ⟨pins, h.inputPins hpins, hmore⟩, hn⟩

theorem localPlan {steps : List Wires.Step} (hsteps : Wires.localPlan c = .ok steps) :
    Wires.localPlan c' = .ok steps := by
  obtain ⟨plans, hplans, hsteps⟩ := bind_eq_ok.1 hsteps
  refine bind_eq_ok.2 ⟨plans, ?_, hsteps⟩
  rw [ancillaries_of_frame h.frame]
  refine mapM_mono hplans fun e _ steps hplan => ?_
  obtain ⟨done, hdone, hplan⟩ := bind_eq_ok.1 hplan
  exact bind_eq_ok.2 ⟨done, h.apply hdone, hplan⟩

end Circuit.Resembles

theorem Circuit.Orderly.ancillaries (hc : c.Orderly) :
    ∀ e ∈ c.ancillaries, e.2.isLocal = true := by
  intro e he
  obtain ⟨_, p, hp, _, ha⟩ := Circuit.mem_ancillaries.1 he
  exact hc.roles _ p e.2 hp ha

/-- The design over another circuit. -/
def Design.over (d : Design) (c : Circuit) : Design := { d with circuit := c }

namespace Circuit.Resembles

variable {d : Design} (h : d.circuit.Resembles c')
include h

theorem board? (x : NodeId) : (d.over c').board? x = d.board? x :=
  congrArg (List.find? d.isBoard) (ancestors_of_frame h.frame x true)

theorem cuts (pins : SortedSet ComponentPin) : (d.over c').cuts pins = d.cuts pins := by
  simp only [Design.cuts, Design.boardsOf, Design.onBoard, h.board?]
  rfl

theorem stars {buses buses' : List Bus} (hbuses : d.circuit.buses root true = .ok buses)
    (hbuses' : c'.buses root true = .ok buses') {s : Wires.Step}
    (hs : ∃ bus ∈ buses, ∃ networks, d.circuit.busNetworks bus = .ok networks ∧
      ∃ N n, networks.find? N = some n ∧ s ∈ Wires.star n.pins) :
    ∃ bus ∈ buses', ∃ networks, c'.busNetworks bus = .ok networks ∧
      ∃ N n, networks.find? N = some n ∧ s ∈ Wires.star n.pins := by
  obtain ⟨bus, hbus, networks, hnetworks, hs⟩ := hs
  obtain ⟨bus', hbus', hsame⟩ := h.exists_sameFragments hbuses hbuses' hbus
  exact ⟨bus', hbus', networks, h.busNetworks hsame hnetworks, hs⟩

end Circuit.Resembles

theorem Circuit.Reordered.same_wires {d : Design} (h : d.circuit.Reordered c') {n n' : Netlist}
    (s : Stages d n) (t : Stages (d.over c') n') : Wires.Same s.wires t.wires := by
  obtain ⟨steps, hsteps, hwires⟩ := Wires.ofDesign_eq_ok.1 s.wired
  obtain ⟨steps', hsteps', hwires'⟩ := Wires.ofDesign_eq_ok.1 t.wired
  obtain ⟨first, stars, hfirst, rfl, hmem⟩ := Wires.plan_local h.orderly.1.ancillaries hsteps
  obtain ⟨first', stars', hfirst', rfl, hmem'⟩ :=
    Wires.plan_local (d := d.over c') h.orderly.2.ancillaries hsteps'
  obtain rfl := Except.ok.inj (hfirst'.symm.trans (h.resembles.localPlan hfirst))
  have hstars (x : Wires.Step) : x ∈ stars' ↔ x ∈ stars := by
    rw [hmem, hmem']
    constructor
    · exact h.symm.resembles.stars (d := d.over c') t.flattened s.flattened
    · exact h.resembles.stars s.flattened t.flattened
  have hconnects : Wires.Connects stars := by
    intro x hx
    obtain ⟨_, _, _, _, _, _, _, hstar⟩ := (hmem x).1 hx
    exact Wires.connects_star _ x hstar
  have halike : Wires.Alike (first' ++ stars) (first' ++ stars') :=
    (Wires.Alike.refl first').append <|
      .of_connects hconnects (fun x hx => hconnects x ((hstars x).1 hx)) hstars
  have hbare : Wires.bare (d.over c').circuit = Wires.bare d.circuit := by
    rw [Wires.bare, Wires.bare, Design.over, partPins_of_frame h.frame]
  rw [← hwires, ← hwires', hbare]
  exact halike _ _ (.refl _)

namespace Design

theorem addBoard_eq_ok {d e : Design} {reference : String} : d.addBoard reference = .ok e ↔
    ∃ id, d.circuit.find reference = .ok id ∧ d.circuit.parent? id = some Circuit.root ∧
      { d with boards := if id ∈ d.boards then d.boards else d.boards ++ [id] } = e := by
  rw [addBoard, bind_eq_ok]
  refine exists_congr fun id => and_congr_right fun _ => ?_
  by_cases hparent : d.circuit.parent? id = some Circuit.root
  · by_cases hboard : id ∈ d.boards <;> simp [hparent, hboard, pure_eq_ok]
  · simp [hparent, throw, throwThe, MonadExceptOf.throw, bind, Except.bind]

theorem withBoards_over {d e : Design} {references : List String} (h : c'.frame = d.circuit.frame)
    (he : d.withBoards references = .ok e) :
    e.circuit = d.circuit ∧ (d.over c').withBoards references = .ok (e.over c') := by
  induction references generalizing d with
  | nil =>
    obtain rfl := pure_eq_ok.1 he
    exact ⟨rfl, rfl⟩
  | cons reference references ih =>
    rw [withBoards, List.foldlM_cons, bind_eq_ok] at he ⊢
    obtain ⟨d₁, hadd, he⟩ := he
    obtain ⟨id, hid, hparent, hd₁⟩ := addBoard_eq_ok.1 hadd
    have hcircuit : d₁.circuit = d.circuit := hd₁ ▸ rfl
    obtain ⟨hsame, hrest⟩ := ih (d := d₁) (hcircuit ▸ h) he
    refine ⟨hsame.trans hcircuit, d₁.over c', addBoard_eq_ok.2 ⟨id, ?_, ?_, hd₁ ▸ rfl⟩, hrest⟩
    · rw [Design.over, Circuit.find_of_frame h, hid]
    · rw [Design.over, Circuit.parent?_of_frame h, hparent]

end Design

/-- Circuits that are built by the same plain steps but for the order of their requirements have
the same nets, and the same pins are replaced. -/
theorem reordered_nets {catalog : Catalog} {steps steps' : List Circuit.Instruction}
    {options : Options} {references : List String} {d d' e e' : Design} {n n' : Netlist}
    (h : Circuit.Reordering steps steps') (hc : (Circuit.new catalog).build steps = .ok c)
    (hc' : (Circuit.new catalog).build steps' = .ok c')
    (hd : (Design.new c options).withBoards references = .ok d)
    (hd' : (Design.new c' options).withBoards references = .ok d')
    (hn : d.synthesize = .ok (e, n)) (hn' : d'.synthesize = .ok (e', n')) :
    (∀ board pins, (∃ net ∈ n'.nets, net.board = board ∧ net.pins = pins) ↔
      ∃ net ∈ n.nets, net.board = board ∧ net.pins = pins) ∧
    n'.masks = n.masks ∧ n'.chainStarts = n.chainStarts := by
  have hreordered := h.reordered hc hc'
  obtain ⟨hcircuit, hover⟩ := Design.withBoards_over hreordered.frame hd
  obtain rfl : d.over c' = d' := Except.ok.inj (hover.symm.trans hd')
  obtain rfl : d.circuit = c := hcircuit
  obtain ⟨s, hmasks, hstarts⟩ := Design.exists_stages hn
  obtain ⟨t, hmasks', hstarts'⟩ := Design.exists_stages hn'
  have hsame := hreordered.same_wires s t
  have hcomponents (pins : SortedSet ComponentPin) :
      pins ∈ t.wires.graph.components ↔ pins ∈ s.wires.graph.components :=
    hsame.mem_components (Wires.wellFormed_ofDesign s.wired) (Wires.wellFormed_ofDesign t.wired)
  refine ⟨fun board pins => ?_, ?_, ?_⟩
  · rw [s.mem_places, t.mem_places]
    simp only [hcomponents, hreordered.resembles.cuts]
  · rw [hmasks, hmasks', hsame.masks]
  · rw [hstarts, hstarts', hsame.chainStarts]

namespace Specimen

def clockInto (target : NodeId) : Circuit.Instruction :=
  .require {
    origin := .persisted ⟨1⟩
    function := "clock"
    source := { node := ⟨2⟩, interface := some "CK" }
    target := { node := target, interface := some "CK" } }

/-- A resistor in series with all clock pins of the oscillator. -/
def stopper : Ancillary where
  type := .seriesResistor
  binding := .interface ⟨2⟩ ⟨⟨2⟩, 0⟩
  connections := [⟨⟨⟨8⟩⟩, .input, .interfacePin output none⟩,
    ⟨⟨⟨9⟩⟩, .output, .interfacePin output none⟩]

def source : List Circuit.Instruction := [
  .subcircuit Circuit.root "A1" "reference" none,
  .part ⟨1⟩ "U1" "oscillator" oscillator]

def eager : List Circuit.Instruction := source ++ [
  .part Circuit.root "U2" "pll" consumer, clockInto ⟨3⟩,
  .ancillary Circuit.root "R1" "resistor" consumer stopper,
  .part Circuit.root "U3" "pll" consumer, clockInto ⟨5⟩]

/-- Clocks are required after everything else, the later one first. -/
def deferred : List Circuit.Instruction := source ++ [
  .part Circuit.root "U2" "pll" consumer,
  .ancillary Circuit.root "R1" "resistor" consumer stopper,
  .part Circuit.root "U3" "pll" consumer, clockInto ⟨5⟩, clockInto ⟨3⟩]

theorem reordering : Circuit.Reordering eager deferred where
  plain := by decide
  perm := by decide
  rest := rfl

/-- The circuit that steps build and the netlist of its design. -/
def assembled (catalog : Catalog) (references : List String) (steps : List Circuit.Instruction) :
    Result (Circuit × Design × Design × Netlist) := do
  let c ← (Circuit.new catalog).build steps
  let d ← (Design.new c {}).withBoards references
  return (c, d, ← d.synthesize)

theorem assembled_eq_ok {catalog : Catalog} {references : List String}
    {steps : List Circuit.Instruction} (h : (assembled catalog references steps).isOk = true) :
    ∃ c d e n, (Circuit.new catalog).build steps = .ok c ∧
      (Design.new c {}).withBoards references = .ok d ∧ d.synthesize = .ok (e, n) := by
  obtain ⟨_, h⟩ := isOk_iff.1 h
  obtain ⟨c, hc, h⟩ := bind_eq_ok.1 h
  obtain ⟨d, hd, h⟩ := bind_eq_ok.1 h
  obtain ⟨⟨e, n⟩, hn, _⟩ := bind_eq_ok.1 h
  exact ⟨c, d, e, n, hc, hd, hn⟩

end Specimen

/-- The specimen's clocks run through the resistor, whichever of them is required first. -/
theorem reordered_nets_specimen : ∃ c c' d d' e e' n n',
    (Circuit.new Specimen.catalog).build Specimen.eager = .ok c ∧
    (Circuit.new Specimen.catalog).build Specimen.deferred = .ok c' ∧
    (Design.new c {}).withBoards ["A1"] = .ok d ∧ (Design.new c' {}).withBoards ["A1"] = .ok d' ∧
    d.synthesize = .ok (e, n) ∧ d'.synthesize = .ok (e', n') ∧
    (∀ board pins, (∃ net ∈ n'.nets, net.board = board ∧ net.pins = pins) ↔
      ∃ net ∈ n.nets, net.board = board ∧ net.pins = pins) ∧
    n'.masks = n.masks ∧ n'.chainStarts = n.chainStarts := by
  have hassembled : ∀ steps ∈ [Specimen.eager, Specimen.deferred],
      (Specimen.assembled Specimen.catalog ["A1"] steps).isOk = true := by
    decide +kernel
  obtain ⟨c, d, e, n, hc, hd, hn⟩ := Specimen.assembled_eq_ok (hassembled Specimen.eager (by simp))
  obtain ⟨c', d', e', n', hc', hd', hn'⟩ :=
    Specimen.assembled_eq_ok (hassembled Specimen.deferred (by simp))
  exact ⟨c, c', d, d', e, e', n, n', hc, hc', hd, hd', hn, hn',
    reordered_nets Specimen.reordering hc hc' hd hd' hn hn'⟩

end BoardNets
