import BoardNets.Proofs.Bus.Repetition
import BoardNets.Proofs.Net.Served
import BoardNets.Proofs.Netlist.SameNames

/-! Netlists of a requirement that is made twice. A circuit is mirrored by another one that
resembles it, where pins have the same slots and each bus has a counterpart in its place. The same
plan is carried out for both, so the same pins are connected, and their groups get the same nets but
for the buses, which nothing in the text of a netlist is read from. A circuit and the one with the
repetition mirror each other. -/
namespace BoardNets

/-- What is not read off buses is the same for nets that differ in nothing else. -/
theorem Net.map_of_unbound {nets nets' : List Net}
    (h : nets'.map Net.unbound = nets.map Net.unbound) {α : Type} {F : Net → α}
    (hF : ∀ net, F net.unbound = F net) : nets'.map F = nets.map F := by
  have hmaps := congrArg (List.map F) h
  rwa [List.map_map, List.map_map, funext hF (f := F ∘ Net.unbound)] at hmaps

namespace Netlist

/-- The netlist without the buses of its nets. -/
def unbound (n : Netlist) : Netlist := { n with nets := n.nets.map Net.unbound }

theorem render_unbound (n : Netlist) : n.unbound.render = n.render := by
  have hlines (board : Option (Option NodeId)) (nets : List Net) :
      n.unbound.lines board (nets.map Net.unbound) = n.lines board nets := by
    induction nets generalizing board with
    | nil => rfl
    | cons net nets ih =>
      rw [List.map_cons, lines, lines, ih]
      rfl
  rw [render, render]
  exact congrArg (fun lines : List String => String.join (lines.map (· ++ "\n"))) (hlines _ _)

/-- Two netlists show the same: the same pins under the same names, and the same text. -/
structure Shows (n n' : Netlist) : Prop where
  pins : n'.nets.map Net.pins = n.nets.map Net.pins
  names : n'.nets.map Net.name = n.nets.map Net.name
  render : n'.render = n.render

theorem shows_of_unbound {n n' : Netlist} (h : n'.unbound = n.unbound) : n.Shows n' where
  pins := Net.map_of_unbound (congrArg Netlist.nets h) fun _ => rfl
  names := Net.map_of_unbound (congrArg Netlist.nets h) fun _ => rfl
  render := by rw [← render_unbound, h, render_unbound]

end Netlist

namespace Circuit

variable {c c' : Circuit}

structure WiredAlike (c c' : Circuit) (b b' : Bus) : Prop extends NamedAlike c c' b b' where
  overlaps : ∀ e ∈ c.ancillaries, ∀ own ∈ e.2.bus?, own.overlaps b' = own.overlaps b

theorem namedAlike_getD {bs bs' : List Bus} (hbs : List.Forall₂ (WiredAlike c c') bs bs')
    (k : Nat) : NamedAlike c c' (bs.getD k {}) (bs'.getD k {}) := by
  induction hbs generalizing k with
  | nil => exact .empty _ _
  | cons hb _ ih =>
    cases k with
    | zero => exact hb.toNamedAlike
    | succ k => exact ih k

/-- The circuit `c'` has the wires and nets of `c`, wherever `c` has any. -/
structure Mirrors (c c' : Circuit) : Prop where
  resembles : c.Resembles c'
  slots : c.SameSlots c'
  buses : ∀ bs, c.flattenedBuses root = .ok bs →
    ∃ bs', c'.flattenedBuses root = .ok bs' ∧ List.Forall₂ (WiredAlike c c') bs bs'

end Circuit

/-- Ancillary parts are picked alike over one frame, if the tests agree on the ancillaries. -/
theorem Design.ancillaryParts_mono {d : Design} {c' : Circuit} (h : c'.frame = d.circuit.frame)
    {test test' : Ancillary → Result Bool} {parts : List NodeId}
    (htest : ∀ e ∈ d.circuit.ancillaries, test' e.2 = test e.2)
    (hparts : d.ancillaryParts test = .ok parts) :
    (d.over c').ancillaryParts test' = .ok parts := by
  obtain ⟨atoms, hatoms, hparts⟩ := bind_eq_ok.1 hparts
  obtain ⟨_, hresolved, hatoms⟩ := bind_eq_ok.1 hatoms
  obtain rfl := pure_eq_ok.1 hatoms
  refine bind_eq_ok.2 ⟨d.circuit.parts Circuit.root, bind_eq_ok.2 ⟨(), ?_, ?_⟩, ?_⟩
  · exact (Circuit.checkResolved_of_frame h Circuit.root).trans hresolved
  · exact congrArg Except.ok (Circuit.parts_of_frame h Circuit.root)
  · refine filterM_mono hparts fun x hx picked hpicked => ?_
    obtain ⟨part, hpart, hpicked⟩ := bind_eq_ok.1 hpicked
    obtain ⟨part', hpart', hparts⟩ := Circuit.exists_component_of_frame h hpart
    obtain ⟨_, _, hrole⟩ := Component.eq_of_frame hparts
    refine bind_eq_ok.2 ⟨part', hpart', ?_⟩
    rw [hrole]
    cases ha : part.ancillary with
    | none =>
      rw [ha] at hpicked
      exact hpicked
    | some a =>
      rw [ha] at hpicked
      obtain ⟨htree, hispart⟩ := Circuit.mem_parts_iff.1 hx
      have hsome := Circuit.component_eq_ok.1 hpart
      have hin : (x, a) ∈ d.circuit.ancillaries := Circuit.mem_ancillaries.2
        ⟨htree, part, hsome, by simpa [Circuit.isPart, hsome] using hispart, ha⟩
      exact (htest (x, a) hin).trans hpicked

namespace Circuit.Mirrors

variable {d : Design} {c' : Circuit} (h : d.circuit.Mirrors c')
include h

theorem networkPlan_eq (ancillaries : List (NodeId × Ancillary)) (network : LogicalNetwork)
    (n : NetworkPins) : Wires.networkPlan c' ancillaries network n =
      Wires.networkPlan d.circuit ancillaries network n := by
  have happly (m : AncillaryConnection) (id : NodeId) (a : Ancillary)
      (pins : SortedSet ComponentPin) : m.applyTo c' id a pins = m.applyTo d.circuit id a pins := by
    rw [← m.applyTo_outline, h.resembles.outline, m.applyTo_outline]
  simp only [Wires.networkPlan, Wires.ancillaryPlan, happly]

section Buses

variable {b b' : Bus} (hb : WiredAlike d.circuit c' b b')
include hb

theorem busAncillaries {parts : List NodeId} (hparts : d.busAncillaries b none = .ok parts) :
    (d.over c').busAncillaries b' none = .ok parts := by
  refine Design.ancillaryParts_mono h.resembles.frame (fun e he => ?_) hparts
  have hoverlaps := hb.overlaps e he
  obtain ⟨id, type, connectionType, latency, connections, binding⟩ := e
  cases binding with
  | bus own => exact congrArg (fun yes : Bool => pure (yes && _)) (hoverlaps own rfl)
  | _ => rfl

theorem busPlan {steps : List Wires.Step} (hsteps : Wires.busPlan d b = .ok steps) :
    Wires.busPlan (d.over c') b' = .ok steps := by
  obtain ⟨networks, hnetworks, hsteps⟩ := bind_eq_ok.1 hsteps
  obtain ⟨parts, hparts, hsteps⟩ := bind_eq_ok.1 hsteps
  obtain ⟨plans, hplans, hsteps⟩ := bind_eq_ok.1 hsteps
  refine bind_eq_ok.2 ⟨networks, h.resembles.busNetworks hb.toSameFragments hnetworks,
    bind_eq_ok.2 ⟨parts, h.busAncillaries hb hparts, bind_eq_ok.2 ⟨plans, ?_, hsteps⟩⟩⟩
  rw [Design.over, ancillaries_of_frame h.resembles.frame]
  exact mapM_mono hplans fun x _ _ hplan => (h.networkPlan_eq _ x.1 x.2).trans hplan

end Buses

variable {bs bs' : List Bus} (hbs : List.Forall₂ (WiredAlike d.circuit c') bs bs')
include hbs

theorem ofDesign {w : Wires} (hw : Wires.ofDesign d bs = .ok w) :
    Wires.ofDesign (d.over c') bs' = .ok w := by
  obtain ⟨steps, hsteps, rfl⟩ := Wires.ofDesign_eq_ok.1 hw
  obtain ⟨first, hfirst, hsteps⟩ := bind_eq_ok.1 hsteps
  obtain ⟨plans, hplans, hsteps⟩ := bind_eq_ok.1 hsteps
  have hplans' : bs'.mapM (Wires.busPlan (d.over c')) = .ok plans :=
    mapM_of_forall₂ hbs hplans fun _ _ _ hb hsteps => h.busPlan hb hsteps
  refine Wires.ofDesign_eq_ok.2 ⟨steps, bind_eq_ok.2 ⟨first, h.resembles.localPlan hfirst,
    bind_eq_ok.2 ⟨plans, hplans', hsteps⟩⟩, ?_⟩
  rw [Wires.bare, Wires.bare, Design.over, partPins_of_frame h.resembles.frame]

theorem busOwners {owners : BusOwners} (howners : d.circuit.busOwners bs = .ok owners) :
    c'.busOwners bs' = .ok owners := by
  obtain ⟨pins, hpins, howners⟩ := bind_eq_ok.1 howners
  exact bind_eq_ok.2 ⟨pins, mapM_of_forall₂ hbs hpins fun _ _ _ hb hpins =>
    h.resembles.physicalPins hb.toSameFragments hpins, howners⟩

theorem group {w : Wires} {owners : BusOwners} {pins : SortedSet ComponentPin} {g : PinGroup}
    (hg : w.group d bs owners pins = .ok g) : ∃ g', w.group (d.over c') bs' owners pins = .ok g' ∧
      g'.pins = g.pins ∧ NamedAlike d.circuit c' g.bus g'.bus := by
  have hispart : (d.over c').circuit.isPart = d.circuit.isPart :=
    funext (isPart_of_frame h.resembles.frame)
  rw [Wires.group] at hg
  rw [Wires.group, hispart]
  cases hfind : pins.toList.find? fun p => !d.circuit.isPart p.component with
  | some p =>
    rw [hfind] at hg
    exact absurd hg throw_ne_ok
  | none =>
    simp only [hfind] at hg ⊢
    by_cases hsize : pins.size ≤ 1
    · rw [if_pos hsize] at hg ⊢
      obtain rfl := pure_eq_ok.1 hg
      exact ⟨_, rfl, rfl, .empty _ _⟩
    · rw [if_neg hsize] at hg ⊢
      cases howners : (w.owners owners pins).toList with
      | nil =>
        simp only [howners] at hg ⊢
        by_cases hstrict : d.options.strict = true
        · rw [if_pos hstrict] at hg
          exact absurd hg throw_ne_ok
        · rw [if_neg hstrict] at hg
          rw [Design.over, if_neg hstrict]
          obtain rfl := pure_eq_ok.1 hg
          exact ⟨_, rfl, rfl, .empty _ _⟩
      | cons k ks =>
        cases ks with
        | nil =>
          simp only [howners] at hg ⊢
          obtain rfl := pure_eq_ok.1 hg
          exact ⟨_, rfl, rfl, namedAlike_getD hbs k⟩
        | cons _ _ =>
          simp only [howners] at hg
          exact absurd hg throw_ne_ok

omit hbs

theorem netlist {n : Netlist} {warnings : List String} (hn : d.netlist = .ok (n, warnings)) :
    ∃ n' warnings', (d.over c').netlist = .ok (n', warnings') ∧ n'.unbound = n.unbound := by
  simp only [Design.netlist, bind_eq_ok, pure_eq_ok, Prod.mk.injEq] at hn
  obtain ⟨⟨⟩, hresolved, bs, hbs, w, hw, groups, hgroups, cuts, hcuts, rfl, -⟩ := hn
  obtain ⟨bs', hbs', halike⟩ := h.buses bs hbs
  obtain ⟨owners, howners, hgroups⟩ := bind_eq_ok.1 hgroups
  obtain ⟨groups', hgroups', hsame⟩ := exists_mapM_of_forall₂ (R := Eq)
    (S := fun g g' => g'.pins = g.pins ∧ NamedAlike d.circuit c' g.bus g'.bus)
    (g := w.group (d.over c') bs' owners) (List.forall₂_refl _) hgroups (by
      rintro pins _ g rfl hg
      exact h.group halike hg)
  obtain ⟨cuts', hcuts', hnets⟩ := h.resembles.cut h.slots hsame hcuts
  have hsorted : (Net.sort cuts'.flatten).map Net.unbound =
      (Net.sort cuts.flatten).map Net.unbound := by
    rw [Net.unbound_sort, Net.unbound_sort, hnets]
  refine ⟨_, _, bind_eq_ok.2 ⟨(), ?_, bind_eq_ok.2 ⟨bs', hbs', bind_eq_ok.2 ⟨w, ?_,
    bind_eq_ok.2 ⟨groups', ?_, bind_eq_ok.2 ⟨cuts', hcuts', rfl⟩⟩⟩⟩⟩, ?_⟩
  · exact (checkResolved_of_frame h.resembles.frame root).trans hresolved
  · exact h.ofDesign halike hw
  · exact bind_eq_ok.2 ⟨owners, h.busOwners halike howners, hgroups'⟩
  · have hlabel : (d.over c').circuit.pinLabel = d.circuit.pinLabel := funext h.resembles.pinLabel
    have hboard : (d.over c').boardReference = d.boardReference := by
      funext board
      rw [Design.boardReference, Design.boardReference, Design.over,
        funext (reference_of_frame h.resembles.frame)]
    simp only [Netlist.unbound, Net.unbound_assignNames_sort, hnets, hlabel, hboard,
      List.flatMap_def, Net.map_of_unbound hsorted (F := fun net => net.pins.toList) fun _ => rfl,
      Net.map_of_unbound hsorted (F := fun net => (net.board, d.boardReference net.board))
        fun _ => rfl]

end Circuit.Mirrors

def Options.load : Option (String × Option String) → Except Failure Options
  | none => pure {}
  | some (path, text?) =>
    (text?.elim (throw .missingOptions) Options.parse).mapError (Failure.mk (.options path))

theorem Circuit.synthesize_eq_ok {c : Circuit} {options : Option (String × Option String)}
    {boards : List String} {r : Design × Netlist} : c.synthesize options boards = .ok r ↔
      ∃ o, Options.load options = .ok o ∧
        ∃ d, (Design.new c o).withBoards boards = .ok d ∧ d.synthesize = .ok r := by
  cases options <;> simp only [synthesize, Options.load, bind_eq_ok, mapError_eq_ok]

namespace Circuit

variable {c c' : Circuit}

theorem Mirrors.synthesize (h : c.Mirrors c') {options : Option (String × Option String)}
    {boards : List String} {d : Design} {n : Netlist}
    (hn : c.synthesize options boards = .ok (d, n)) :
    ∃ d' n', c'.synthesize options boards = .ok (d', n') ∧ n.Shows n' := by
  obtain ⟨o, ho, e, he, hn⟩ := synthesize_eq_ok.1 hn
  obtain ⟨⟨m, warnings⟩, hm, hn⟩ := bind_eq_ok.1 hn
  obtain ⟨rfl, rfl⟩ := Prod.mk.inj (pure_eq_ok.1 hn)
  obtain ⟨hcircuit, hover⟩ := Design.withBoards_over h.resembles.frame he
  obtain rfl : e.circuit = c := hcircuit
  obtain ⟨n', warnings', hn', hsame⟩ := h.netlist hm
  exact ⟨_, n', synthesize_eq_ok.2 ⟨o, ho, e.over c', hover,
    bind_eq_ok.2 ⟨(n', warnings'), hn', rfl⟩⟩, Netlist.shows_of_unbound hsame⟩

/-- No ancillary of the tree is on a bus of the given fragment. A bus goes by the ids of its
fragments, so one from a copy of the circuit could name a fragment that is yet to come. -/
def BusesLack (c : Circuit) (id : FragmentId) : Prop :=
  ∀ e ∈ c.ancillaries, ∀ own ∈ e.2.bus?, id ∉ own.fragments

/-- Ancillaries on buses of fragments that are there are on none of the next one. -/
theorem busesLack_nextFragment (h : ∀ e ∈ c.ancillaries, ∀ own ∈ e.2.bus?, ∀ id ∈ own.fragments,
    (c.fragment? id).isSome) : c.BusesLack c.nextFragment := by
  intro e he own hown hnext
  have hsome := h e he own hown c.nextFragment hnext
  rw [fragment?_nextFragment] at hsome
  cases hsome

/-- Ancillaries are on no bus for the sake of a repetition that none of them waits for. -/
theorem EchoedBus.overlaps_eq {b b' : Bus} (hb : EchoedBus c c' c.nextFragment b b')
    (hc : c.BusesLack c.nextFragment) {e : NodeId × Ancillary} (he : e ∈ c.ancillaries) {own : Bus}
    (hown : own ∈ e.2.bus?) : own.overlaps b' = own.overlaps b := by
  rw [Bus.overlaps, Bus.overlaps, Bool.eq_iff_iff, List.any_eq_true, List.any_eq_true]
  refine exists_congr fun j => and_congr_right fun hj => ?_
  rw [decide_eq_true_eq, decide_eq_true_eq]
  refine hb.fragments j ?_
  rintro rfl
  exact hc e he own hown hj

namespace Repeats

variable {id : FragmentId} {g : Fragment} (h : c.Repeats c' id g)
include h

/-- The circuits with and without the repetition mirror each other. -/
theorem mirrors (hc : c.BusesLack c.nextFragment) : c.Mirrors c' ∧ c'.Mirrors c := by
  have halike {b b' : Bus} (hb : EchoedBus c c' c.nextFragment b b') :
      WiredAlike c c' b b' ∧ WiredAlike c' c b' b := by
    refine ⟨⟨⟨hb.toSameFragments, fun _ => hb.reference⟩, fun e he own hown => ?_⟩,
      ⟨⟨hb.toSameFragments.symm, fun _ => hb.reference.symm⟩, fun e he own hown => ?_⟩⟩
    · exact hb.overlaps_eq hc he hown
    · rw [ancillaries_of_frame h.frame] at he
      exact (hb.overlaps_eq hc he hown).symm
  refine ⟨⟨h.resembles, h.sameSlots.1, fun bs hbs => ?_⟩,
    ⟨h.resembles.symm, h.sameSlots.2, fun bs' hbs' => ?_⟩⟩
  · obtain ⟨bs', hbs', hall⟩ := h.buses hbs
    exact ⟨bs', hbs', hall.imp fun _ _ hb => (halike hb).1⟩
  · -- the buses from before are found first, and then those with the repetition are theirs
    obtain ⟨bs, hbs⟩ := h.buses_back hbs'
    obtain ⟨bs'', hbs'', hall⟩ := h.buses hbs
    obtain rfl := Except.ok.inj (hbs'.symm.trans hbs'')
    exact ⟨bs, hbs, hall.flip.imp fun _ _ hb => (halike hb).2⟩

end Repeats
end Circuit

/-- A requirement that was accepted among the direct steps that built a circuit is accepted once
more, for another fragment. Whatever the options and boards are, both circuits fail to be
synthesized or both have the same pins on their nets, under the same names, and the same text,
provided that no ancillary of the tree is on a bus of the fragment that is to come. -/
theorem repeated_requirement_unseen {catalog : Catalog} {before later : List Circuit.Instruction}
    {r r' : Requirement} {id : FragmentId} {c : Circuit}
    (hdirect : ∀ step ∈ before ++ .require r :: later, step.IsDirect)
    (haccepted : (((Circuit.new catalog).after before).run (Circuit.require r)).1 = .ok id)
    (hc : (Circuit.new catalog).after (before ++ .require r :: later) = c)
    (hsame : r'.Restates r) (hlack : c.BusesLack c.nextFragment) :
    ∃ c', c.run (Circuit.require r') = (.ok c.nextFragment, c') ∧ ∀ options boards,
      (∃ e e', c.synthesize options boards = .error e ∧
        c'.synthesize options boards = .error e') ∨
      ∃ d d' n n', c.synthesize options boards = .ok (d, n) ∧
        c'.synthesize options boards = .ok (d', n') ∧
        n'.nets.map Net.pins = n.nets.map Net.pins ∧
        n'.nets.map Net.name = n.nets.map Net.name ∧ n'.render = n.render := by
  have hreachable : c.Reachable := ⟨catalog, _, hc.symm⟩
  have hr : r.adapter = none := hdirect (.require r) (by simp)
  -- what was accepted then would be wired in the same way now
  have hretains : (((Circuit.new catalog).after before).run (Circuit.require r)).2.Retains c := by
    have hlater : (((Circuit.new catalog).after before).run (Circuit.require r)).2.after later =
        c := by
      rw [← Circuit.run_perform_require, ← hc, Circuit.after_append]
      rfl
    rw [← hlater]
    exact Circuit.retains_after fun step hstep =>
      hdirect step (List.mem_append_right _ (List.mem_cons_of_mem _ hstep))
  obtain ⟨g, hg⟩ := Circuit.accepted_of_run hr (Prod.ext haccepted rfl)
  obtain ⟨c', hrun, hrepeats⟩ := (hg.retained hretains).again hreachable hr hsame
  obtain ⟨hmirrors, hback⟩ := hrepeats.mirrors hlack
  refine ⟨c', hrun, fun options boards => ?_⟩
  cases h : c.synthesize options boards with
  | error e =>
    cases h' : c'.synthesize options boards with
    | error e' => exact .inl ⟨e, e', rfl, rfl⟩
    | ok answer =>
      obtain ⟨_, _, hn, _⟩ := hback.synthesize h'
      rw [h] at hn
      cases hn
  | ok answer =>
    obtain ⟨d', n', hn', hshows⟩ := hmirrors.synthesize h
    exact .inr ⟨_, d', _, n', rfl, hn', hshows.pins, hshows.names, hshows.render⟩

namespace Specimen

/-- What comes after the clock: a resistor in series with the oscillator, a pull-up on the bus of
the clock, and a part that is clocked as well. -/
def afterClock : List Circuit.Instruction := [
  .ancillary Circuit.root "R1" "resistor" consumer stopper,
  .ancillary Circuit.root "R2" "pull-up" consumer (pullUp clockBus output),
  .part Circuit.root "U3" "pll" consumer,
  clockInto ⟨6⟩]

/-- The clock from the oscillator to the first part, as another source has it. -/
def forwardsAgain : Requirement := { forwards with origin := .persisted ⟨2⟩ }

def clockedTwice : Circuit :=
  (Circuit.new catalog).after (steps.take 3 ++ .require forwards :: afterClock)

end Specimen

/-- The clock that is required from two sources is on one net of each board. -/
theorem repeated_requirement_unseen_specimen : ∃ c' d d' n n',
    Specimen.clockedTwice.run (Circuit.require Specimen.forwardsAgain) = (.ok ⟨2⟩, c') ∧
    Specimen.clockedTwice.synthesize none ["A1"] = .ok (d, n) ∧
    c'.synthesize none ["A1"] = .ok (d', n') ∧
    n'.nets.map Net.pins = n.nets.map Net.pins ∧
    n'.nets.map Net.name = n.nets.map Net.name ∧ n'.render = n.render := by
  have haccepted : (((Circuit.new Specimen.catalog).after (Specimen.steps.take 3)).run
      (Circuit.require Specimen.forwards)).1 = .ok ⟨0⟩ := by
    decide +kernel
  have hdirect : ∀ step ∈ Specimen.steps.take 3 ++ .require Specimen.forwards ::
      Specimen.afterClock, step.IsDirect := by
    decide
  have hc : (Circuit.new Specimen.catalog).after (Specimen.steps.take 3 ++
      .require Specimen.forwards :: Specimen.afterClock) = Specimen.clockedTwice := rfl
  have hsame : Specimen.forwardsAgain.Restates Specimen.forwards := by decide
  have hlack : Specimen.clockedTwice.BusesLack Specimen.clockedTwice.nextFragment :=
    Circuit.busesLack_nextFragment (by decide +kernel)
  have hnext : Specimen.clockedTwice.nextFragment = ⟨2⟩ := by decide +kernel
  obtain ⟨c', hrun, hnetlists⟩ := repeated_requirement_unseen hdirect haccepted hc hsame hlack
  have hok : (Specimen.clockedTwice.synthesize none ["A1"]).isOk = true := by decide +kernel
  rcases hnetlists none ["A1"] with ⟨e, _, he, _⟩ | ⟨d, d', n, n', h, h', hshows⟩
  · rw [he] at hok
    cases hok
  · exact ⟨c', d, d', n, n', hnext ▸ hrun, h, h', hshows⟩

namespace Specimen

/-- A copy of the circuit of the clock, in which the clock is required again. -/
def copy : Circuit :=
  (Circuit.new catalog).after (steps.take 3 ++ [.require forwards, .require forwardsAgain])

def copiedBus : Bus where
  members := .ofList [⟨⟨1⟩, ⟨⟨2⟩, 0⟩, ⟨⟨3⟩, 0⟩, ⟨2⟩, ⟨3⟩⟩]
  reference := "CLK__clock"

def onCopiedBus : Circuit.Instruction :=
  .ancillary Circuit.root "R1" "pull-up" consumer (pullUp copiedBus output)

/-- The circuit itself, with a pull-up on the bus from its copy. -/
def awaiting : Circuit :=
  (Circuit.new catalog).after (steps.take 3 ++ .require forwards :: [onCopiedBus])

def pulledLine : SortedSet ComponentPin := .ofList [clockPin, ⟨⟨3⟩, ⟨⟨8⟩⟩⟩, pullUpPin]

/-- Whether the clock and the pull-up make a net, without boards. -/
def isPulled (c : Circuit) : Result Bool := do
  let d ← (Design.new c {}).withBoards []
  let w ← Wires.ofDesign d (← d.circuit.flattenedBuses Circuit.root)
  return w.graph.components.any fun pins => (d.cuts pins).any (·.2 = pulledLine)

theorem isPulled_iff {c : Circuit} {d : Design} {n : Netlist} {yes : Bool}
    (h : c.synthesize none [] = .ok (d, n)) (hyes : isPulled c = .ok yes) :
    (∃ net ∈ n.nets, net.pins = pulledLine) ↔ yes = true := by
  obtain ⟨o, ho, e, he, hn⟩ := Circuit.synthesize_eq_ok.1 h
  obtain rfl := pure_eq_ok.1 ho
  obtain ⟨s⟩ := Design.synthesize_eq_ok hn
  rw [isPulled, he] at hyes
  rw [← s.of_wires hyes]
  simp only [List.any_eq_true, decide_eq_true_eq]
  constructor
  · rintro ⟨net, hnet, hpins⟩
    obtain ⟨pins, hin, hcut⟩ := s.mem_places.1 ⟨net, hnet, rfl, rfl⟩
    exact ⟨pins, hin, _, hcut, hpins⟩
  · rintro ⟨pins, hin, ⟨board, _⟩, hcut, rfl⟩
    obtain ⟨net, hnet, _, hpins⟩ := s.mem_places.2 ⟨pins, hin, hcut⟩
    exact ⟨net, hnet, hpins⟩

end Specimen

/-- A pull-up on a bus from a copy of the circuit is joined to the clock by a repetition, which gets
the id that the bus names. With the repetition, the circuit is the copy with the pull-up. -/
theorem repetition_joins_awaiting : ∃ c' d d' n n',
    (do Bus.ofMembers Specimen.copy [← Specimen.copy.busMember ⟨1⟩]) = .ok Specimen.copiedBus ∧
    (∀ step ∈ Specimen.steps.take 3 ++ .require Specimen.forwards :: [Specimen.onCopiedBus],
      step.IsDirect) ∧
    (((Circuit.new Specimen.catalog).after (Specimen.steps.take 3)).run
      (Circuit.require Specimen.forwards)).1 = .ok ⟨0⟩ ∧
    Specimen.forwardsAgain.Restates Specimen.forwards ∧
    Specimen.awaiting.run (Circuit.require Specimen.forwardsAgain) = (.ok ⟨1⟩, c') ∧
    c' = Specimen.copy.after [Specimen.onCopiedBus] ∧
    Specimen.awaiting.synthesize none [] = .ok (d, n) ∧ c'.synthesize none [] = .ok (d', n') ∧
    (¬∃ net ∈ n.nets, net.pins = Specimen.pulledLine) ∧
    ∃ net ∈ n'.nets, net.pins = Specimen.pulledLine := by
  have hbus : (do Bus.ofMembers Specimen.copy [← Specimen.copy.busMember ⟨1⟩]) =
      .ok Specimen.copiedBus := by
    decide +kernel
  have haccepted : (((Circuit.new Specimen.catalog).after (Specimen.steps.take 3)).run
      (Circuit.require Specimen.forwards)).1 = .ok ⟨0⟩ := by
    decide +kernel
  have hrun : Specimen.awaiting.run (Circuit.require Specimen.forwardsAgain) =
      (.ok ⟨1⟩, Specimen.copy.after [Specimen.onCopiedBus]) := by
    decide +kernel
  have hok : (Specimen.awaiting.synthesize none []).isOk = true ∧
      ((Specimen.copy.after [Specimen.onCopiedBus]).synthesize none []).isOk = true := by
    decide +kernel
  obtain ⟨⟨d, n⟩, h⟩ := isOk_iff.1 hok.1
  obtain ⟨⟨d', n'⟩, h'⟩ := isOk_iff.1 hok.2
  have hbefore := @Specimen.isPulled_iff _ d n false h (by decide +kernel)
  have hafter := @Specimen.isPulled_iff _ d' n' true h' (by decide +kernel)
  exact ⟨_, d, d', n, n', hbus, by decide, haccepted, by decide, hrun, rfl, h, h',
    fun hnet => Bool.false_ne_true (hbefore.1 hnet), hafter.2 rfl⟩

end BoardNets
