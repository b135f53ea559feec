import BoardNets.Proofs.Net.Series
import BoardNets.Proofs.Net.Served

/-! Ancillaries in parallel. One without an output replaces no pin, so wherever its turn comes, what
it adds to the plan are connections among the steps that were there. Carried out side by side, the
longer plan keeps to the replacements of the shorter one and lays all of its edges. -/
namespace BoardNets

/-- An ancillary without an output. -/
def Ancillary.IsParallel (a : Ancillary) : Prop := ∀ n ∈ a.connections, n.role ≠ .output

instance (a : Ancillary) : Decidable a.IsParallel :=
  inferInstanceAs (Decidable (∀ n ∈ a.connections, n.role ≠ .output))

namespace Wires

/-- The second plan is the first one with connections inserted. -/
inductive Enlarges : List Step → List Step → Prop
  | nil : Enlarges [] []
  | keep (s : Step) {steps steps' : List Step} : Enlarges steps steps' →
      Enlarges (s :: steps) (s :: steps')
  | insert (a b : ComponentPin) {steps steps' : List Step} : Enlarges steps steps' →
      Enlarges steps (.connect a b :: steps')

namespace Enlarges

variable {steps steps' more more' : List Step}

theorem refl : ∀ steps, Enlarges steps steps
  | [] => .nil
  | s :: steps => .keep s (refl steps)

theorem append (h : Enlarges steps steps') (hmore : Enlarges more more') :
    Enlarges (steps ++ more) (steps' ++ more') := by
  induction h with
  | nil => exact hmore
  | keep s _ ih => exact .keep s ih
  | insert a b _ ih => exact .insert a b ih

theorem of_connects (h : Connects steps) : Enlarges [] steps := by
  induction steps with
  | nil => exact .nil
  | cons s steps ih =>
    obtain ⟨⟨a, b, rfl⟩, hsteps⟩ := List.forall_mem_cons.1 h
    exact .insert a b (ih hsteps)

/-- Plans made for more and more are enlarged by the plans of those that are left out. -/
theorem of_mapM {α : Type} {keep : α → Bool} {f g : α → Result (List Step)} {xs : List α}
    {plans plans' : List (List Step)} (h : (xs.filter keep).mapM f = .ok plans)
    (h' : xs.mapM g = .ok plans')
    (hkeep : ∀ x ∈ xs, keep x = true → ∀ s s', f x = .ok s → g x = .ok s' → Enlarges s s')
    (hout : ∀ x ∈ xs, keep x = false → ∀ s', g x = .ok s' → Connects s') :
    Enlarges plans.flatten plans'.flatten := by
  induction xs generalizing plans plans' with
  | nil =>
    obtain rfl := pure_eq_ok.1 h
    obtain rfl := pure_eq_ok.1 h'
    exact .nil
  | cons x xs ih =>
    obtain ⟨hx, hkeep⟩ := List.forall_mem_cons.1 hkeep
    obtain ⟨hx', hout⟩ := List.forall_mem_cons.1 hout
    rw [List.mapM_cons] at h'
    obtain ⟨s', hs', h'⟩ := bind_eq_ok.1 h'
    obtain ⟨rest', hrest', h'⟩ := bind_eq_ok.1 h'
    obtain rfl := pure_eq_ok.1 h'
    cases hkept : keep x with
    | true =>
      rw [List.filter_cons_of_pos hkept, List.mapM_cons] at h
      obtain ⟨s, hs, h⟩ := bind_eq_ok.1 h
      obtain ⟨rest, hrest, h⟩ := bind_eq_ok.1 h
      obtain rfl := pure_eq_ok.1 h
      exact (hx hkept s s' hs hs').append (ih hrest hrest' hkeep hout)
    | false =>
      rw [List.filter_cons_of_neg (by simp [hkept])] at h
      exact (of_connects (hx' hkept s' hs')).append (ih h hrest' hkeep hout)

theorem of_each {α : Type} {f g : α → Result (List Step)} {xs : List α}
    {plans plans' : List (List Step)} (h : xs.mapM f = .ok plans) (h' : xs.mapM g = .ok plans')
    (hall : ∀ x ∈ xs, ∀ s s', f x = .ok s → g x = .ok s' → Enlarges s s') :
    Enlarges plans.flatten plans'.flatten := by
  have hsame : (xs.filter fun _ => true).mapM f = .ok plans := by rwa [List.filter_true]
  exact of_mapM hsame h' (fun x hx _ => hall x hx) fun _ _ h => nomatch h

end Enlarges

structure Covers (w w' : Wires) : Prop where
  masks : w'.masks = w.masks
  chainStarts : w'.chainStarts = w.chainStarts
  nodes : ∀ p ∈ w.graph.nodes, p ∈ w'.graph.nodes
  edges : ∀ e ∈ w.graph.edges, e ∈ w'.graph.edges

namespace Covers

variable {w w' : Wires} (h : w.Covers w')
include h

theorem masked (p : ComponentPin) : w'.masked p = w.masked p := by
  rw [Wires.masked, Wires.masked, h.masks]

theorem connect_right (a b : ComponentPin) : w.Covers (w'.connect a b) where
  masks := (masks_connect w' a b).trans h.masks
  chainStarts := (chainStarts_connect w' a b).trans h.chainStarts
  nodes := fun p hp => mem_nodes_take (h.nodes p hp) (.connect a b)
  edges := fun e he => by
    change e ∈ (w'.take (.connect a b)).graph.edges
    rw [edges_take]
    exact List.mem_append_left _ (h.edges e he)

theorem take (s : Step) : (w.take s).Covers (w'.take s) := by
  have hadded : w'.added s = w.added s := by
    cases s with
    | connect a b => rw [added, added, h.masked, h.masked]
    | mask p replacement => rfl
  have hnodes : ∀ p ∈ (w.take s).graph.nodes, p ∈ (w'.take s).graph.nodes := by
    intro p hp
    rw [mem_nodes_take_iff] at hp ⊢
    rw [hadded]
    exact hp.imp_left (h.nodes p)
  have hedges : ∀ e ∈ (w.take s).graph.edges, e ∈ (w'.take s).graph.edges := by
    intro e he
    rw [edges_take, List.mem_append] at he ⊢
    rw [hadded]
    exact he.imp_left (h.edges e)
  cases s with
  | connect a b =>
    refine ⟨?_, ?_, hnodes, hedges⟩
    · exact (masks_connect w' a b).trans (h.masks.trans (masks_connect w a b).symm)
    · exact (chainStarts_connect w' a b).trans
        (h.chainStarts.trans (chainStarts_connect w a b).symm)
  | mask p replacement =>
    have hstart : w'.chainStart p = w.chainStart p := by
      rw [chainStart, chainStart, h.chainStarts]
    refine ⟨?_, ?_, hnodes, hedges⟩
    · exact congrArg (·.insert p replacement) h.masks
    · exact congrArg₂ (SortedMap.insert · replacement ·) h.chainStarts hstart

omit h in
theorem carry {steps steps' : List Step} (hsteps : Enlarges steps steps') (h : w.Covers w') :
    (w.carry steps).Covers (w'.carry steps') := by
  induction hsteps generalizing w w' with
  | nil => exact h
  | keep s _ ih => exact ih (h.take s)
  | insert a b _ ih => exact ih (h.connect_right a b)

theorem linked {p q : ComponentPin} (hpq : w.graph.Linked p q) : w'.graph.Linked p q := by
  induction hpq with
  | refl hp => exact .refl (h.nodes _ hp)
  | step _ hedge ih => exact .step ih (hedge.imp (h.edges _) (h.edges _))

end Covers

theorem connects_apply {c : Circuit} {id : NodeId} {a : Ancillary} (ha : a.IsParallel)
    {done : Application} (h : a.apply c id = .ok done) : Connects done.steps := by
  intro s hs
  obtain ⟨n, hn, _, _, _, hmore, hs⟩ := Ancillary.exists_connection h hs
  exact connects_application (AncillaryConnection.masks_of_applyTo (ha n hn) hmore) s hs

theorem connects_ancillaryPlan {c : Circuit} {network : LogicalNetwork}
    {pins : SortedSet ComponentPin} {id : NodeId} {a : Ancillary} (ha : a.IsParallel)
    {steps : List Step} (h : ancillaryPlan c network pins id a = .ok steps) : Connects steps := by
  obtain ⟨plans, hplans, h⟩ := bind_eq_ok.1 h
  obtain rfl := pure_eq_ok.1 h
  refine .flatten fun steps hsteps => ?_
  obtain ⟨n, hn, hsteps⟩ := (mem_of_mapM hplans).1 hsteps
  obtain ⟨done, hdone, hsteps⟩ := bind_eq_ok.1 hsteps
  obtain rfl := pure_eq_ok.1 hsteps
  exact connects_application
    (AncillaryConnection.masks_of_applyTo (ha n (List.mem_filter.1 hn).1) hdone)

theorem ancillaryPlan_mono {c c' : Circuit} (h : c.Extends c') {network : LogicalNetwork}
    {pins : SortedSet ComponentPin} {id : NodeId} {a : Ancillary} {steps : List Step}
    (hsteps : ancillaryPlan c network pins id a = .ok steps) :
    ancillaryPlan c' network pins id a = .ok steps := by
  obtain ⟨plans, hplans, hsteps⟩ := bind_eq_ok.1 hsteps
  refine bind_eq_ok.2 ⟨plans, mapM_mono hplans fun n _ s hs => ?_, hsteps⟩
  obtain ⟨done, hdone, hs⟩ := bind_eq_ok.1 hs
  exact bind_eq_ok.2 ⟨done, AncillaryConnection.applyTo_mono h hdone a, hs⟩

end Wires

/-- A circuit, and the same circuit with parts added whose ancillaries are parallel. -/
structure ParallelAddition (c c' : Circuit) (added : List NodeId) : Prop where
  old : c.Reachable
  new : c'.Reachable
  adds : c.Adds c' added
  parallel : ∀ e ∈ c'.ancillaries, ¬c.Has e.1 → e.2.IsParallel

namespace ParallelAddition

variable {c c' : Circuit} {added : List NodeId} (h : ParallelAddition c c' added)
include h

/-- Ancillaries in their order of application, of which a test picks some. -/
theorem sort_filter (test test' : NodeId × Ancillary → Bool)
    (htest : ∀ e ∈ c.ancillaries, test' e = test e) :
    (Ancillary.sort (c'.ancillaries.filter test')).filter (c.Has ·.1) =
      Ancillary.sort (c.ancillaries.filter test) := by
  have hold := h.adds.filter_ancillaries h.old.forest h.old.has_root
  rw [← Ancillary.sort_filter, List.filter_comm, hold, List.filter_congr htest]

theorem localPlan {steps steps' : List Wires.Step} (hsteps : Wires.localPlan c = .ok steps)
    (hsteps' : Wires.localPlan c' = .ok steps') : Wires.Enlarges steps steps' := by
  obtain ⟨plans, hplans, hsteps⟩ := bind_eq_ok.1 hsteps
  obtain rfl := pure_eq_ok.1 hsteps
  obtain ⟨plans', hplans', hsteps'⟩ := bind_eq_ok.1 hsteps'
  obtain rfl := pure_eq_ok.1 hsteps'
  rw [← h.sort_filter (·.2.isLocal) (·.2.isLocal) fun _ _ => rfl] at hplans
  refine .of_mapM hplans hplans' (fun e _ _ s s' hs hs' => ?_) fun e he hnew s' hs' => ?_
  · obtain ⟨done, hdone, hs⟩ := bind_eq_ok.1 hs
    obtain rfl := pure_eq_ok.1 hs
    have hsame := Ancillary.apply_mono h.adds.toExtends hdone
    obtain ⟨done', hdone', hs'⟩ := bind_eq_ok.1 hs'
    obtain rfl := pure_eq_ok.1 hs'
    obtain rfl := Except.ok.inj (hsame.symm.trans hdone')
    exact .refl _
  · obtain ⟨done', hdone', hs'⟩ := bind_eq_ok.1 hs'
    obtain rfl := pure_eq_ok.1 hs'
    have he := (List.mem_filter.1 (List.mem_mergeSort.1 he)).1
    exact Wires.connects_apply (h.parallel e he (by simpa using hnew)) hdone'

theorem networkPlan {listed listed' : List (NodeId × Ancillary)}
    (hlisted : listed'.filter (c.Has ·.1) = listed)
    (hroles : ∀ e ∈ listed', e ∈ c'.ancillaries) {network : LogicalNetwork} {n : NetworkPins}
    {steps steps' : List Wires.Step} (hsteps : Wires.networkPlan c listed network n = .ok steps)
    (hsteps' : Wires.networkPlan c' listed' network n = .ok steps') :
    Wires.Enlarges steps steps' := by
  rw [Wires.networkPlan] at hsteps hsteps'
  split at hsteps
  · rename_i hrequested
    rw [if_pos hrequested] at hsteps'
    obtain ⟨plans, hplans, hsteps⟩ := bind_eq_ok.1 hsteps
    obtain rfl := pure_eq_ok.1 hsteps
    obtain ⟨plans', hplans', hsteps'⟩ := bind_eq_ok.1 hsteps'
    obtain rfl := pure_eq_ok.1 hsteps'
    rw [← hlisted] at hplans
    refine .append (.of_mapM hplans hplans' (fun e _ _ s s' hs hs' => ?_)
      fun e he hnew s' hs' => ?_) (.refl _)
    · have hsame := Wires.ancillaryPlan_mono h.adds.toExtends hs
      obtain rfl := Except.ok.inj (hsame.symm.trans hs')
      exact .refl _
    · exact Wires.connects_ancillaryPlan
        (h.parallel e (hroles e he) (by simpa using hnew)) hs'
  · rename_i hnot
    rw [if_neg hnot] at hsteps'
    obtain rfl := pure_eq_ok.1 hsteps
    obtain rfl := pure_eq_ok.1 hsteps'
    exact .refl _

variable {d d' : Design} (hd : d.circuit = c) (hd' : d'.circuit = c')
include hd hd'

theorem mem_busAncillaries {bus : Bus} {parts parts' : List NodeId}
    (hparts : d.busAncillaries bus none = .ok parts)
    (hparts' : d'.busAncillaries bus none = .ok parts') {e : NodeId × Ancillary}
    (he : e ∈ c.ancillaries) : e.1 ∈ parts' ↔ e.1 ∈ parts := by
  subst hd hd'
  obtain ⟨_, p, hp, _⟩ := Circuit.mem_ancillaries.1 he
  have hhas := Circuit.has_of_component? hp
  obtain ⟨atoms, hatoms, hparts⟩ := bind_eq_ok.1 hparts
  obtain ⟨_, _, hatoms⟩ := bind_eq_ok.1 hatoms
  obtain rfl := pure_eq_ok.1 hatoms
  obtain ⟨_, rfl⟩ := filterM_eq_ok.1 hparts
  obtain ⟨atoms', hatoms', hparts'⟩ := bind_eq_ok.1 hparts'
  obtain ⟨_, _, hatoms'⟩ := bind_eq_ok.1 hatoms'
  obtain rfl := pure_eq_ok.1 hatoms'
  obtain ⟨_, rfl⟩ := filterM_eq_ok.1 hparts'
  obtain ⟨children, ancillary, hp'⟩ := h.adds.component hp
  have hrole : ancillary = p.ancillary := h.adds.roles _ p _ hp hp'
  have hin : e.1 ∈ d'.circuit.parts Circuit.root ↔ e.1 ∈ d.circuit.parts Circuit.root := by
    rw [← h.adds.filter_parts h.old.forest h.old.has_root, List.mem_filter, decide_eq_true_iff,
      and_iff_left hhas]
  rw [List.mem_filter, List.mem_filter, hin, Circuit.component_eq_ok.2 hp,
    Circuit.component_eq_ok.2 hp', hrole]
  rfl

theorem busPlan {bus : Bus} (hbus : ∀ m ∈ bus.members, c.Knows m) {steps steps' : List Wires.Step}
    (hsteps : Wires.busPlan d bus = .ok steps) (hsteps' : Wires.busPlan d' bus = .ok steps') :
    Wires.Enlarges steps steps' := by
  obtain ⟨networks, hnetworks, hsteps⟩ := bind_eq_ok.1 hsteps
  obtain ⟨parts, hparts, hsteps⟩ := bind_eq_ok.1 hsteps
  obtain ⟨plans, hplans, hsteps⟩ := bind_eq_ok.1 hsteps
  obtain rfl := pure_eq_ok.1 hsteps
  obtain ⟨networks', hnetworks', hsteps'⟩ := bind_eq_ok.1 hsteps'
  obtain ⟨parts', hparts', hsteps'⟩ := bind_eq_ok.1 hsteps'
  obtain ⟨plans', hplans', hsteps'⟩ := bind_eq_ok.1 hsteps'
  obtain rfl := pure_eq_ok.1 hsteps'
  have hmem := fun e (he : e ∈ c.ancillaries) => h.mem_busAncillaries hd hd' hparts hparts' he
  rw [hd] at hnetworks hplans
  rw [hd'] at hnetworks' hplans'
  obtain rfl := Except.ok.inj
    ((h.adds.toExtends.busNetworks hbus hnetworks).symm.trans hnetworks')
  refine .of_each hplans hplans' fun n _ s s' hs hs' => ?_
  refine h.networkPlan ?_ ?_ hs hs'
  · exact h.sort_filter _ _ fun e he => decide_eq_decide.2 (hmem e he)
  · exact fun e he => (List.mem_filter.1 (List.mem_mergeSort.1 he)).1

theorem plan {buses : List Bus} (hbuses : c.flattenedBuses Circuit.root = .ok buses)
    {steps steps' : List Wires.Step} (hsteps : Wires.plan d buses = .ok steps)
    (hsteps' : Wires.plan d' buses = .ok steps') : Wires.Enlarges steps steps' := by
  obtain ⟨first, hfirst, hsteps⟩ := bind_eq_ok.1 hsteps
  obtain ⟨plans, hplans, hsteps⟩ := bind_eq_ok.1 hsteps
  obtain rfl := pure_eq_ok.1 hsteps
  obtain ⟨first', hfirst', hsteps'⟩ := bind_eq_ok.1 hsteps'
  obtain ⟨plans', hplans', hsteps'⟩ := bind_eq_ok.1 hsteps'
  obtain rfl := pure_eq_ok.1 hsteps'
  rw [hd] at hfirst
  rw [hd'] at hfirst'
  refine (h.localPlan hfirst hfirst').append
    (.of_each hplans hplans' fun bus hbus s s' hs hs' => ?_)
  exact h.busPlan hd hd' (fun m hm => Circuit.knows_of_buses hbuses hbus hm) hs hs'

theorem covers {n n' : Netlist} (s : Stages d n) (s' : Stages d' n') : s.wires.Covers s'.wires := by
  have hforest := h.old.forest
  have hroot := h.old.has_root
  have hflattened := s.flattened
  have hflattened' := s'.flattened
  rw [hd] at hflattened
  rw [hd', h.adds.flattenedBuses hforest hroot hflattened] at hflattened'
  obtain ⟨steps, hsteps, hwires⟩ := Wires.ofDesign_eq_ok.1 s.wired
  obtain ⟨steps', hsteps', hwires'⟩ := Wires.ofDesign_eq_ok.1 s'.wired
  rw [← Except.ok.inj hflattened'] at hsteps'
  rw [← hwires, ← hwires', hd, hd']
  refine Wires.Covers.carry (h.plan hd hd' hflattened hsteps hsteps') ⟨rfl, rfl, fun p hp => ?_, ?_⟩
  · rw [Wires.mem_nodes_bare] at hp ⊢
    exact (h.adds.mem_partPins hforest hroot).2 (.inl hp)
  · rw [Wires.edges_bare]
    exact List.forall_mem_nil _

end ParallelAddition

theorem Circuit.Reachable.parallelAddition {c : Circuit} (hc : c.Reachable) {parent : NodeId}
    {name function : String} {connectivity : ConnectivityId} {a : Ancillary} {addition : Addition}
    (hadd : (c.run (Instruction.ancillary parent name function connectivity a).perform).1 =
      .ok addition) (ha : a.IsParallel) :
    ∃ added,
      ParallelAddition c (c.after [.ancillary parent name function connectivity a]) added := by
  obtain ⟨p, hpart, hfresh, hparent, hafter⟩ := after_ancillary hc.base hadd
  have happends := appends_withAncillary (a := a) hparent hfresh hpart
  obtain ⟨added, hadds, hnew⟩ := happends.exists_adds hc.forest hc.has_root
  have hreachable := hc.after [.ancillary parent name function connectivity a]
  rw [hafter] at hreachable ⊢
  refine ⟨added, hc, hreachable, hadds, fun e he hout => ?_⟩
  obtain ⟨htree, q, hq, _, hrole⟩ := mem_ancillaries.1 he
  have hnext : e.1 = c.nextNode := hnew e.1 ((hadds.mem_added e.1).2 ⟨htree, hout⟩)
  rw [hnext, happends.component] at hq
  obtain rfl := Option.some.inj hq
  exact Option.some.inj hrole ▸ ha

/-- A part whose ancillary has no output disconnects nothing: unless nets are split by board, pins
in one net stay in one net, and pins are replaced as before. -/
theorem parallel_keeps_nets {c : Circuit} (hc : c.Reachable) {parent : NodeId}
    {name function : String} {connectivity : ConnectivityId} {a : Ancillary}
    {addition : Circuit.Addition}
    (hadd : (c.run (Circuit.Instruction.ancillary parent name function connectivity a).perform).1 =
      .ok addition) (ha : a.IsParallel) {d d' e e' : Design} {n n' : Netlist}
    (hd : d.circuit = c)
    (hd' : d'.circuit = c.after [.ancillary parent name function connectivity a])
    (hsplit : d.options.splitByBoard = false) (hsplit' : d'.options.splitByBoard = false)
    (h : d.synthesize = .ok (e, n)) (h' : d'.synthesize = .ok (e', n')) :
    (∀ p q, n.SameNet p q → n'.SameNet p q) ∧ n'.masks = n.masks ∧
      n'.chainStarts = n.chainStarts := by
  obtain ⟨added, haddition⟩ := hc.parallelAddition hadd ha
  obtain ⟨s, hmasks, hstarts⟩ := Design.exists_stages h
  obtain ⟨s', hmasks', hstarts'⟩ := Design.exists_stages h'
  have hcovers := haddition.covers hd hd' s s'
  refine ⟨fun p q hpq => ?_, ?_, ?_⟩
  · rw [s.sameNet_iff_linked hsplit] at hpq
    rw [s'.sameNet_iff_linked hsplit']
    exact hcovers.linked hpq
  · rw [hmasks', hmasks, hcovers.masks]
  · rw [hstarts', hstarts, hcovers.chainStarts]

namespace Specimen

/-- The clock with a resistor before it, and with a pull-up on its bus besides. -/
def dampedOnce : Design := { wholeDesign with circuit := wholeDesign.circuit.after [dampers[0]] }

def pulledUpBehind : Design :=
  { wholeDesign with
    circuit := dampedOnce.circuit.after
      [.ancillary Circuit.root "R3" "pull-up" consumer (pullUp clockBus output)] }

end Specimen

/-- The resistor still drives the part that is clocked when a pull-up joins the line. -/
theorem parallel_keeps_nets_specimen : ∃ e n e' n', Specimen.dampedOnce.synthesize = .ok (e, n) ∧
    Specimen.pulledUpBehind.synthesize = .ok (e', n') ∧
    n'.SameNet ⟨⟨4⟩, ⟨⟨9⟩⟩⟩ ⟨⟨3⟩, ⟨⟨8⟩⟩⟩ ∧ n'.masks = n.masks ∧ n'.chainStarts = n.chainStarts := by
  obtain ⟨⟨e, n⟩, h⟩ : ∃ r, Specimen.dampedOnce.synthesize = .ok r := isOk_iff.1 (by decide +kernel)
  obtain ⟨⟨e', n'⟩, h'⟩ : ∃ r, Specimen.pulledUpBehind.synthesize = .ok r :=
    isOk_iff.1 (by decide +kernel)
  obtain ⟨s⟩ := Design.synthesize_eq_ok h
  have hdriven : n.SameNet ⟨⟨4⟩, ⟨⟨9⟩⟩⟩ ⟨⟨3⟩, ⟨⟨8⟩⟩⟩ :=
    (Specimen.joins_iff s rfl (b := true) (by decide +kernel)).2 rfl
  have hadd : Except.isOk (Specimen.dampedOnce.circuit.run (Circuit.Instruction.ancillary
      Circuit.root "R3" "pull-up" Specimen.consumer
      (Specimen.pullUp Specimen.clockBus Specimen.output)).perform).1 = true := by decide +kernel
  obtain ⟨_, hadd⟩ := isOk_iff.1 hadd
  obtain ⟨hnets, hmasks, hstarts⟩ := parallel_keeps_nets (Specimen.reachable.after _) hadd
    (by decide) rfl rfl rfl rfl h h'
  exact ⟨e, n, e', n', h, h', hnets _ _ hdriven, hmasks, hstarts⟩

end BoardNets
