import BoardNets.Proofs.Ancillary.Extension
import BoardNets.Proofs.Ancillary.Order
import BoardNets.Proofs.Ancillary.Series
import BoardNets.Proofs.Circuit.Additions
import BoardNets.Proofs.Circuit.Ledger

/-! Nets before and after parts are put in series before a pin. The wires are those from before with
the end of the chain in the place of the pin, and the chain's links beside them, which no other wire
touches. -/
namespace BoardNets
namespace Circuit

variable {c c' : Circuit} {p : ComponentPin} {rs : List SeriesPart}

/-- Ancillary parts in series before a pin, in the order of their application, where ties are broken
by the order of the tree. -/
structure InSeries (c : Circuit) (p : ComponentPin) (rs : List SeriesPart) : Prop where
  roles : ∀ r ∈ rs, ∃ part, c.component? r.part = some part ∧ part.ancillary = some r.role
  bound : ∀ r ∈ rs, r.At p
  ordered : rs.Pairwise fun r s => Ancillary.order r.role s.role = .lt ∨
    Ancillary.order r.role s.role = .eq ∧ [r.part, s.part].Sublist (c.parts root)

/-- A pin of a part in series that is neither its input nor its output. -/
def Spare (c : Circuit) (rs : List SeriesPart) (x : ComponentPin) : Prop :=
  ∃ r ∈ rs, ∃ part, c.component? r.part = some part ∧ (∃ pin ∈ part.pins, x = ⟨r.part, pin.id⟩) ∧
    x ≠ r.inputPin ∧ x ≠ r.outputPin

theorem Forest.nodup_ancillaries (hc : c.Forest) : c.ancillaries.Nodup := by
  refine List.Nodup.filterMap ?_ ((hc.nodup_subtree root).filter _)
  intro x y e hx hy
  obtain ⟨_, _, hx⟩ := Option.bind_eq_some_iff.1 hx
  obtain ⟨_, _, hx⟩ := Option.bind_eq_some_iff.1 hx
  obtain ⟨_, _, hy⟩ := Option.bind_eq_some_iff.1 hy
  obtain ⟨_, _, hy⟩ := Option.bind_eq_some_iff.1 hy
  rw [← Option.some.inj hx] at hy
  exact (Prod.mk.inj (Option.some.inj hy)).1.symm

namespace InSeries

variable (h : c.InSeries p rs)
include h

theorem role_eq {r s : SeriesPart} (hr : r ∈ rs) (hs : s ∈ rs) (heq : r.part = s.part) :
    r.role = s.role := by
  obtain ⟨part, hpart, hrole⟩ := h.roles r hr
  obtain ⟨part', hpart', hrole'⟩ := h.roles s hs
  rw [heq] at hpart
  obtain rfl := Option.some.inj (hpart.symm.trans hpart')
  exact Option.some.inj (hrole.symm.trans hrole')

theorem before : (rs.map SeriesPart.entry).Pairwise (Ancillary.Before c.ancillaries) := by
  refine List.pairwise_map.2 (h.ordered.imp_of_mem fun {r s} hr hs hrs => ?_)
  refine hrs.imp_right (And.imp_right fun hlist => ?_)
  obtain ⟨part, hpart, hrole⟩ := h.roles r hr
  obtain ⟨part', hpart', hrole'⟩ := h.roles s hs
  have hentries : ([r.part, s.part].filterMap fun id => do
      let part ← c.component? id
      return (id, ← part.ancillary)) = [r.entry, s.entry] := by
    simp [hpart, hrole, hpart', hrole', SeriesPart.entry]
  rw [← hentries]
  exact hlist.filterMap _

theorem nodup (hc : c.Forest) : (rs.map SeriesPart.part).Nodup := by
  have hbefore := List.pairwise_map.1 h.before
  refine List.pairwise_map.2 (hbefore.imp_of_mem fun {r s} hr hs hrs heq => ?_)
  have hsame : r.entry = s.entry := Prod.ext heq (h.role_eq hr hs heq)
  exact Ancillary.not_before hc.nodup_ancillaries hrs (hsame ▸ hrs)

end InSeries

/-- Each part in series does its own part of the plan, and it has the pins that it is bound by. -/
theorem plan_of_mapM (hbound : ∀ r ∈ rs, r.At p) {plans : List (List Wires.Step)}
    (hplans : (rs.map SeriesPart.entry).mapM (fun e => do return (← e.2.apply c e.1).steps) =
      .ok plans) : plans.flatten = SeriesPart.plan p rs ∧
    ∀ r ∈ rs, (∃ pin, c.pin r.inputPin = .ok pin) ∧ ∃ pin, c.pin r.outputPin = .ok pin := by
  induction rs generalizing plans with
  | nil =>
    obtain rfl := pure_eq_ok.1 hplans
    exact ⟨rfl, List.forall_mem_nil _⟩
  | cons r rs ih =>
    obtain ⟨hr, hbound⟩ := List.forall_mem_cons.1 hbound
    rw [List.map_cons, List.mapM_cons] at hplans
    obtain ⟨steps, hsteps, hplans⟩ := bind_eq_ok.1 hplans
    obtain ⟨done, hdone, hsteps⟩ := bind_eq_ok.1 hsteps
    obtain rfl := pure_eq_ok.1 hsteps
    obtain ⟨rest, hrest, hplans⟩ := bind_eq_ok.1 hplans
    obtain rfl := pure_eq_ok.1 hplans
    obtain ⟨hsteps, hpins⟩ := hr.steps_apply hdone
    obtain ⟨hplan, hall⟩ := ih hbound hrest
    rw [List.flatten_cons, hsteps, hplan]
    exact ⟨rfl, List.forall_mem_cons.2 ⟨hpins, hall⟩⟩

namespace InSeries

variable (h : c'.InSeries p rs) (hc : c.Forest) (hroot : c.Has root) (hplain : c.Plain)
  (hadds : c.Adds c' (rs.map SeriesPart.part))
include h hc hroot hplain hadds

theorem mem_ancillaries {e : NodeId × Ancillary} :
    e ∈ c'.ancillaries ↔ e ∈ rs.map SeriesPart.entry := by
  rw [hadds.mem_ancillaries hc hroot hplain, List.mem_map, List.mem_map]
  constructor
  · rintro ⟨⟨r, hr, hpart⟩, part, he, ha⟩
    obtain ⟨part', hpart', hrole⟩ := h.roles r hr
    rw [hpart] at hpart'
    obtain rfl := Option.some.inj (he.symm.trans hpart')
    exact ⟨r, hr, Prod.ext hpart (Option.some.inj (hrole.symm.trans ha))⟩
  · rintro ⟨r, hr, rfl⟩
    exact ⟨⟨r, hr, rfl⟩, h.roles r hr⟩

theorem isLocal : ∀ e ∈ c'.ancillaries, e.2.isLocal = true := by
  intro e he
  obtain ⟨r, hr, rfl⟩ := List.mem_map.1 ((h.mem_ancillaries hc hroot hplain hadds).1 he)
  exact (h.bound r hr).isLocal

theorem sorted (hc' : c'.Forest) : Ancillary.sort c'.ancillaries = rs.map SeriesPart.entry := by
  have hnodup : (rs.map SeriesPart.entry).Nodup := by
    refine List.Nodup.of_map Prod.fst ?_
    rw [List.map_map]
    exact h.nodup hc'
  refine Ancillary.sort_eq hc'.nodup_ancillaries ?_ h.before
  rw [List.perm_ext_iff_of_nodup hnodup hc'.nodup_ancillaries]
  exact fun e => (h.mem_ancillaries hc hroot hplain hadds).symm

theorem localPlan_eq (hc' : c'.Forest) {steps : List Wires.Step}
    (hsteps : Wires.localPlan c' = .ok steps) : steps = SeriesPart.plan p rs ∧
      ∀ r ∈ rs, (∃ pin, c'.pin r.inputPin = .ok pin) ∧ ∃ pin, c'.pin r.outputPin = .ok pin := by
  obtain ⟨plans, hplans, hsteps⟩ := bind_eq_ok.1 hsteps
  obtain rfl := pure_eq_ok.1 hsteps
  rw [List.filter_eq_self.2 (h.isLocal hc hroot hplain hadds),
    h.sorted hc hroot hplain hadds hc'] at hplans
  exact plan_of_mapM h.bound hplans

end InSeries

theorem has_of_mem_partPins {q : ComponentPin} (hq : q ∈ c.partPins) : c.Has q.component := by
  obtain ⟨_, _, hpart, _⟩ := mem_partPins.1 hq
  exact has_of_component? hpart

theorem exists_of_pin {q : ComponentPin} {pin : Pin} (h : c.pin q = .ok pin) :
    ∃ part, c.component? q.component = some part ∧ ∃ pin ∈ part.pins, pin.id = q.pin := by
  obtain ⟨part, hpart, h⟩ := bind_eq_ok.1 h
  rw [elim_throw_eq_ok] at h
  have hid := List.find?_some h
  exact ⟨part, component_eq_ok.1 hpart, pin, List.mem_of_find?_eq_some h, of_decide_eq_true hid⟩

theorem Balanced.has_of_onNetwork (hc : c.Balanced) {bus : Bus} {family : FamilyKey}
    {network : LogicalNetwork} {q : ComponentPin} (h : c.OnNetwork bus family network q) :
    c.Has q.component := by
  obtain ⟨i, _, interface, hi, slot, _, hq, _⟩ := h
  rw [hc.component_of_activePins hi hq]
  exact has_of_interface hi

end Circuit

namespace Stages

variable {d : Design} {n : Netlist} (s : Stages d n)
include s

theorem nodup_pins : (n.nets.map Net.pins).Nodup := by
  refine List.pairwise_map.2 ?_
  refine (List.nodup_flatMap.1 s.pins_nodup).2.imp_of_mem fun {a b} ha _ hapart heq => ?_
  obtain ⟨x, hx⟩ := s.nonempty ha
  have hxb : x ∈ b.pins := heq ▸ hx
  exact hapart hx hxb

theorem mem_nodes_iff {x : ComponentPin} : x ∈ s.wires.graph.nodes ↔
    x ∈ d.circuit.partPins ∨ ∃ e ∈ s.wires.graph.edges, Graph.IsEnd e x := by
  obtain ⟨steps, _, hwires⟩ := Wires.ofDesign_eq_ok.1 s.wired
  rw [← hwires, Wires.mem_nodes_carry_iff, Wires.mem_nodes_bare, Wires.edges_carry,
    Wires.edges_bare, List.nil_append]
  rfl

end Stages

/-- A circuit without ancillaries, and the same circuit with parts in series before a pin. -/
structure SeriesAddition (c c' : Circuit) (p : ComponentPin) (rs : List SeriesPart) : Prop where
  old : c.Reachable
  new : c'.Reachable
  plain : c.Plain
  pin : p ∈ c.partPins
  adds : c.Adds c' (rs.map SeriesPart.part)
  series : c'.InSeries p rs

namespace SeriesAddition

variable {c c' : Circuit} {p : ComponentPin} {rs : List SeriesPart}
  (h : SeriesAddition c c' p rs)
include h

theorem root : c.Has Circuit.root := h.old.has_root

theorem not_part {x : NodeId} (hx : c.Has x) : x ∉ rs.map SeriesPart.part :=
  fun hadded => ((h.adds.mem_added x).1 hadded).2 hx

theorem chain : SeriesPart.Chain p rs where
  nodup := h.series.nodup h.new.forest
  start := h.not_part (Circuit.has_of_mem_partPins h.pin)
  distinct := fun r hr => (h.series.bound r hr).distinct

/-- No pin that was there is named like the end of the chain, unless that is the pin. -/
theorem eq_of_renamed_eq {a b : ComponentPin} (ha : c.Has a.component) (hb : c.Has b.component)
    (heq : SeriesPart.renamed p rs a = SeriesPart.renamed p rs b) : a = b := by
  have hend {q : ComponentPin} (hq : c.Has q.component) (heq : SeriesPart.chainEnd p rs = q) :
      p = q := by
    rcases SeriesPart.component_chainEnd p rs with hp | hpart
    · exact hp.symm.trans heq
    · exact absurd (heq ▸ hpart) (h.not_part hq)
  simp only [SeriesPart.renamed] at heq
  split at heq <;> split at heq
  · simp [*]
  · rename_i hap _
    exact hap.trans (hend hb heq)
  · rename_i _ hbp
    exact ((hbp.trans (hend ha heq.symm)).symm)
  · exact heq

end SeriesAddition

namespace SeriesAddition

variable {d d' : Design} {n n' : Netlist} {p : ComponentPin} {rs : List SeriesPart}
  (h : SeriesAddition d.circuit d'.circuit p rs) (s : Stages d n) (t : Stages d' n')
include h s t

theorem buses_eq : t.buses = s.buses :=
  Except.ok.inj (t.flattened.symm.trans (h.adds.flattenedBuses h.old.forest h.root s.flattened))

theorem star_iff {step : Wires.Step} :
    (∃ bus ∈ t.buses, ∃ networks, d'.circuit.busNetworks bus = .ok networks ∧
      ∃ N m, networks.find? N = some m ∧ step ∈ Wires.star m.pins) ↔
    ∃ bus ∈ s.buses, ∃ networks, d.circuit.busNetworks bus = .ok networks ∧
      ∃ N m, networks.find? N = some m ∧ step ∈ Wires.star m.pins := by
  rw [h.buses_eq s t]
  refine exists_congr fun bus => and_congr_right fun hbus => ?_
  obtain ⟨networks, hnetworks⟩ := s.exists_busNetworks hbus
  have hsame := h.adds.toExtends.busNetworks (fun _ => Circuit.knows_of_buses s.flattened hbus)
    hnetworks
  simp only [hnetworks, hsame]

omit t in
theorem has_of_edge {e : ComponentPin × ComponentPin} (he : e ∈ s.wires.graph.edges) :
    d.circuit.Has e.1.component ∧ d.circuit.Has e.2.component := by
  obtain ⟨_, bus, _, networks, hnetworks, N, m, hm, hstar⟩ := (s.mem_edges_plain h.plain).1 he
  obtain ⟨family, _, hgathered⟩ := Circuit.gathered_busNetworks hnetworks
  obtain ⟨hfirst, hsecond⟩ := Wires.mem_of_mem_star hstar
  exact ⟨h.old.balanced.has_of_onNetwork ((hgathered N e.1).1 ⟨m, hm, hfirst⟩),
    h.old.balanced.has_of_onNetwork ((hgathered N e.2).1 ⟨m, hm, hsecond⟩)⟩

theorem exists_stars : ∃ stars,
    (Wires.bare d'.circuit).carry (SeriesPart.plan p rs ++ stars) = t.wires ∧
    Wires.Connects stars ∧
    (∀ a b, .connect a b ∈ stars ∧ a ≠ b ↔ (a, b) ∈ s.wires.graph.edges) ∧
    ∀ r ∈ rs, (∃ pin, d'.circuit.pin r.inputPin = .ok pin) ∧
      ∃ pin, d'.circuit.pin r.outputPin = .ok pin := by
  have hforest := h.old.forest
  obtain ⟨steps, hsteps, hwires⟩ := Wires.ofDesign_eq_ok.1 t.wired
  obtain ⟨first, stars, hfirst, rfl, hstars⟩ :=
    Wires.plan_local (h.series.isLocal hforest h.root h.plain h.adds) hsteps
  obtain ⟨rfl, hpins⟩ := h.series.localPlan_eq hforest h.root h.plain h.adds h.new.forest hfirst
  refine ⟨stars, hwires, fun step hstep => ?_, fun a b => ?_, hpins⟩
  · obtain ⟨_, _, _, _, _, m, _, hstar⟩ := (hstars step).1 hstep
    exact Wires.connects_star m.pins step hstar
  · rw [hstars, h.star_iff s t, s.mem_edges_plain h.plain, and_comm]

theorem edges {e : ComponentPin × ComponentPin} : e ∈ t.wires.graph.edges ↔
    e ∈ SeriesPart.links p rs ∨ ∃ a ∈ s.wires.graph.edges,
      e = (SeriesPart.renamed p rs a.1, SeriesPart.renamed p rs a.2) := by
  obtain ⟨stars, hwires, hconnects, hstars, _⟩ := h.exists_stars s t
  obtain ⟨hlaid, hmasked⟩ := h.chain.carry_plan (w := Wires.bare d'.circuit)
    (h.not_part (Circuit.has_of_mem_partPins h.pin)) (fun _ _ => rfl)
  -- past the chain every pin goes by its new name, so the stars are laid under the new names
  have hrenamed (q : ComponentPin) :
      ((Wires.bare d'.circuit).carry (SeriesPart.plan p rs)).masked q =
        SeriesPart.renamed p rs q := hmasked q
  rw [← hwires, Wires.edges_carry, Wires.edges_bare, List.nil_append, Wires.laid_append,
    List.mem_append, hlaid, Wires.mem_laid_connects hconnects]
  simp only [hrenamed]
  refine or_congr_right ⟨?_, ?_⟩
  · rintro ⟨a, b, hab, hne, rfl⟩
    exact ⟨(a, b), (hstars a b).1 ⟨hab, fun heq => hne (heq ▸ rfl)⟩, rfl⟩
  · rintro ⟨⟨a, b⟩, hab, rfl⟩
    obtain ⟨ha, hb⟩ := h.has_of_edge s hab
    obtain ⟨hstar, hne⟩ := (hstars a b).2 hab
    exact ⟨a, b, hstar, fun heq => hne (h.eq_of_renamed_eq ha hb heq), rfl⟩

theorem mem_partPins {x : ComponentPin} : x ∈ d'.circuit.partPins ↔ x ∈ d.circuit.partPins ∨
    d'.circuit.Spare rs x ∨ ∃ r ∈ rs, x = r.inputPin ∨ x = r.outputPin := by
  obtain ⟨_, _, _, _, hpins⟩ := h.exists_stars s t
  rw [h.adds.mem_partPins h.old.forest h.root]
  refine or_congr_right ⟨?_, ?_⟩
  · rintro ⟨hadded, part, hpart, pin, hpin, hid⟩
    obtain ⟨r, hr, hrx⟩ := List.mem_map.1 hadded
    by_cases hin : x = r.inputPin
    · exact .inr ⟨r, hr, .inl hin⟩
    · by_cases hout : x = r.outputPin
      · exact .inr ⟨r, hr, .inr hout⟩
      · exact .inl ⟨r, hr, part, hrx ▸ hpart, ⟨pin, hpin, by rw [hrx, hid]⟩, hin, hout⟩
  · rintro (⟨r, hr, part, hpart, ⟨pin, hpin, rfl⟩, _, _⟩ | ⟨r, hr, rfl | rfl⟩)
    · exact ⟨List.mem_map_of_mem hr, part, hpart, pin, hpin, rfl⟩
    · obtain ⟨pin, hpin⟩ := (hpins r hr).1
      exact ⟨List.mem_map_of_mem hr, Circuit.exists_of_pin hpin⟩
    · obtain ⟨pin, hpin⟩ := (hpins r hr).2
      exact ⟨List.mem_map_of_mem hr, Circuit.exists_of_pin hpin⟩

omit t in
theorem has_of_node {x : ComponentPin} (hx : x ∈ s.wires.graph.nodes) :
    d.circuit.Has x.component := by
  rcases s.mem_nodes_iff.1 hx with hx | ⟨e, he, rfl | rfl⟩
  · exact Circuit.has_of_mem_partPins hx
  · exact (h.has_of_edge s he).1
  · exact (h.has_of_edge s he).2

omit s t in
theorem spare_apart {x : ComponentPin} (hx : d'.circuit.Spare rs x) :
    ¬(x = p ∨ ∃ r ∈ rs, x = r.inputPin ∨ x = r.outputPin) := by
  obtain ⟨r, hr, part, _, ⟨pin, _, rfl⟩, hin, hout⟩ := hx
  rintro (heq | ⟨r', hr', heq⟩)
  · have hstart := h.chain.start
    rw [← heq] at hstart
    exact hstart (List.mem_map_of_mem hr)
  · have hpart : r.part = r'.part :=
      heq.elim (congrArg ComponentPin.component) (congrArg ComponentPin.component)
    obtain rfl := List.inj_on_of_nodup_map h.chain.nodup hr hr' hpart
    exact heq.elim hin hout

theorem mem_nodes {x : ComponentPin} : x ∈ t.wires.graph.nodes ↔
    (∃ b ∈ s.wires.graph.nodes, x = SeriesPart.renamed p rs b) ∨
      (∃ e ∈ SeriesPart.links p rs, Graph.IsEnd e x) ∨ d'.circuit.Spare rs x := by
  have hpin : p ∈ s.wires.graph.nodes := s.mem_nodes_iff.2 (.inl h.pin)
  -- the pin starts the chain, and the last pin of the chain is its new name
  rw [t.mem_nodes_iff, h.mem_partPins s t]
  constructor
  · have hchain (hx : x = p ∨ ∃ r ∈ rs, x = r.inputPin ∨ x = r.outputPin) :
        (∃ b ∈ s.wires.graph.nodes, x = SeriesPart.renamed p rs b) ∨
          (∃ e ∈ SeriesPart.links p rs, Graph.IsEnd e x) ∨ d'.circuit.Spare rs x := by
      rcases SeriesPart.isEnd_or_chainEnd_iff.2 hx with hlink | hend
      · exact .inr (.inl hlink)
      · exact .inl ⟨p, hpin, hend.trans (if_pos rfl).symm⟩
    rintro ((hx | hx | hx) | ⟨e, he, hx⟩)
    · by_cases hxp : x = p
      · exact hchain (.inl hxp)
      · exact .inl ⟨x, s.mem_nodes_iff.2 (.inl hx), (if_neg hxp).symm⟩
    · exact .inr (.inr hx)
    · exact hchain (.inr hx)
    · rcases (h.edges s t).1 he with he | ⟨a, ha, rfl⟩
      · exact .inr (.inl ⟨e, he, hx⟩)
      · rcases hx with rfl | rfl
        · exact .inl ⟨a.1, s.mem_nodes_iff.2 (.inr ⟨a, ha, .inl rfl⟩), rfl⟩
        · exact .inl ⟨a.2, s.mem_nodes_iff.2 (.inr ⟨a, ha, .inr rfl⟩), rfl⟩
  · rintro (⟨b, hb, rfl⟩ | ⟨e, he, hx⟩ | hx)
    · rcases s.mem_nodes_iff.1 hb with hb | ⟨e, he, hend⟩
      · by_cases hbp : b = p
        · rw [SeriesPart.renamed, if_pos hbp]
          rcases SeriesPart.isEnd_or_chainEnd_iff.1 (.inr rfl) with heq | hend
          · exact .inl (.inl (heq ▸ h.pin))
          · exact .inl (.inr (.inr hend))
        · rw [SeriesPart.renamed, if_neg hbp]
          exact .inl (.inl hb)
      · refine .inr ⟨_, (h.edges s t).2 (.inr ⟨e, he, rfl⟩), ?_⟩
        exact hend.imp (congrArg _) (congrArg _)
    · exact .inr ⟨e, (h.edges s t).2 (.inl he), hx⟩
    · exact .inl (.inr (.inl hx))

/-- The wires relocate those from before, with the links beside them. -/
theorem relocates : Graph.Relocates s.wires.graph t.wires.graph (SeriesPart.renamed p rs)
    (SeriesPart.links p rs) (d'.circuit.Spare rs) where
  nodes := fun _ => h.mem_nodes s t
  edges := fun _ => h.edges s t
  injective := fun _ ha _ hb => h.eq_of_renamed_eq (h.has_of_node s ha) (h.has_of_node s hb)
  extra_apart := by
    intro e he x hx
    refine ⟨fun hspare => h.spare_apart hspare (SeriesPart.isEnd_or_chainEnd_iff.1
      (.inl ⟨e, he, hx⟩)), fun b hb heq => ?_⟩
    rw [SeriesPart.renamed] at heq
    split at heq
    · exact h.chain.not_isEnd_chainEnd he (heq ▸ hx)
    · rename_i hbp
      rcases SeriesPart.component_of_isEnd he hx with hxp | hpart
      · exact hbp (heq.symm.trans hxp)
      · exact h.not_part (h.has_of_node s hb) (heq ▸ hpart)
  lone_apart := by
    intro x hx b hb heq
    rw [SeriesPart.renamed] at heq
    split at heq
    · exact h.spare_apart hx (SeriesPart.isEnd_or_chainEnd_iff.1 (.inr heq))
    · obtain ⟨r, hr, _, _, ⟨pin, _, hpin⟩, _⟩ := hx
      refine h.not_part (h.has_of_node s hb) ?_
      rw [← heq, hpin]
      exact List.mem_map_of_mem hr
  extra_disjoint := fun _ he _ hd _ hea hda => h.chain.eq_of_isEnd he hd hea hda

end SeriesAddition

/-- Parts in series before a pin leave the nets as they were, with the end of the chain in the place
of the pin. The pin makes a net with the first input, each output one with the next input, and each
spare pin one by itself. -/
theorem series_nets {d d' e e' : Design} {n n' : Netlist} {p : ComponentPin} {rs : List SeriesPart}
    (h : SeriesAddition d.circuit d'.circuit p rs) (hsplit : d.options.splitByBoard = false)
    (hsplit' : d'.options.splitByBoard = false) (hrun : d.synthesize = .ok (e, n))
    (hrun' : d'.synthesize = .ok (e', n')) :
    (n'.nets.map Net.pins).Nodup ∧ ∀ pins, (∃ net ∈ n'.nets, net.pins = pins) ↔
      (∃ net ∈ n.nets, pins = .ofList (net.pins.toList.map (SeriesPart.renamed p rs))) ∨
      (∃ link ∈ SeriesPart.links p rs, pins = .ofList [link.1, link.2]) ∨
      ∃ x, d'.circuit.Spare rs x ∧ pins = .ofList [x] := by
  obtain ⟨s⟩ := Design.synthesize_eq_ok hrun
  obtain ⟨t⟩ := Design.synthesize_eq_ok hrun'
  refine ⟨t.nodup_pins, fun pins => ?_⟩
  rw [t.mem_components hsplit', (h.relocates s t).mem_components (Wires.wellFormed_ofDesign s.wired)
    (Wires.wellFormed_ofDesign t.wired)]
  constructor
  · rintro (hc | hlink | hx)
    · obtain ⟨net, hnet, rfl⟩ := (s.mem_components hsplit).2 hc
      exact .inl ⟨net, hnet, rfl⟩
    · exact .inr (.inl ⟨_, hlink, rfl⟩)
    · exact .inr (.inr ⟨_, hx, rfl⟩)
  · rintro (⟨net, hnet, rfl⟩ | ⟨link, hlink, rfl⟩ | ⟨x, hx, rfl⟩)
    · exact .copy ((s.mem_components hsplit).1 ⟨net, hnet, rfl⟩)
    · exact .extra hlink
    · exact .lone hx

namespace Specimen

def damper (connections : List AncillaryConnection) : Ancillary where
  type := .seriesResistor
  binding := .pins ⟨2⟩
  connections := connections

def damperInput : AncillaryConnection := ⟨⟨⟨8⟩⟩, .input, .pin ⟨⟨8⟩⟩⟩
def damperOutput : AncillaryConnection := ⟨⟨⟨9⟩⟩, .output, .pin ⟨⟨8⟩⟩⟩

/-- A resistor on the main board, and one that comes before it in the tree. -/
def dampers : List Circuit.Instruction := [
  .ancillary Circuit.root "R1" "resistor" consumer (damper [damperInput, damperOutput]),
  .ancillary ⟨1⟩ "R2" "resistor" consumer (damper [damperOutput, damperInput])]

def damped : Design := { wholeDesign with circuit := wholeDesign.circuit.after dampers }

def series : List SeriesPart := [
  ⟨⟨5⟩, damper [damperOutput, damperInput], ⟨⟨8⟩⟩, ⟨⟨9⟩⟩⟩,
  ⟨⟨4⟩, damper [damperInput, damperOutput], ⟨⟨8⟩⟩, ⟨⟨9⟩⟩⟩]

theorem dampers_steps : wholeDesign.circuit.AncillarySteps dampers := by
  have hfirst : Except.isOk (wholeDesign.circuit.run dampers[0].perform).1 = true := by
    decide +kernel
  have hsecond : Except.isOk ((wholeDesign.circuit.after [dampers[0]]).run
    dampers[1].perform).1 = true := by decide +kernel
  obtain ⟨_, hfirst⟩ := isOk_iff.1 hfirst
  obtain ⟨_, hsecond⟩ := isOk_iff.1 hsecond
  refine .cons .root hfirst (.cons (.child .root ?_) hsecond .nil)
  decide +kernel

theorem damping : SeriesAddition wholeDesign.circuit damped.circuit ⟨⟨2⟩, ⟨⟨8⟩⟩⟩ series where
  old := reachable
  new := reachable.after dampers
  plain := plain
  pin := by decide +kernel
  adds := (dampers_steps.adds reachable).perm (by decide +kernel)
  series := {
    roles := by
      intro r hr
      have hroles : ∀ r ∈ series, (damped.circuit.component? r.part).any
          (fun part => part.ancillary = some r.role) = true := by decide +kernel
      obtain ⟨part, hpart, hrole⟩ := (Option.any_eq_true _ _).1 (hroles r hr)
      exact ⟨part, hpart, of_decide_eq_true hrole⟩
    bound := List.forall_mem_cons.2 ⟨⟨rfl, by decide, .swap _ _ _⟩,
      List.forall_mem_cons.2 ⟨⟨rfl, by decide, .refl _⟩, List.forall_mem_nil _⟩⟩
    ordered := by
      refine List.pairwise_pair.2 (.inr ⟨by decide, ?_⟩)
      decide +kernel }

theorem exists_damped : ∃ r, damped.synthesize = .ok r := by
  have hsorted : Ancillary.sort (damped.circuit.ancillaries.filter (·.2.isLocal)) =
      damped.circuit.ancillaries.filter (·.2.isLocal) := Ancillary.sort_eq_self (by decide +kernel)
  refine isOk_iff.1 ?_
  simp only [Design.synthesize, Design.netlist, Wires.ofDesign_eq, Wires.plan, Wires.localPlan,
    hsorted]
  decide +kernel

end Specimen

/-- The clock pin is before the resistor on the board, which is before the other one. -/
theorem series_nets_specimen : ∃ e n e' n', Specimen.wholeDesign.synthesize = .ok (e, n) ∧
    Specimen.damped.synthesize = .ok (e', n') ∧ (n'.nets.map Net.pins).Nodup ∧
    (∀ net ∈ n.nets, ∃ net' ∈ n'.nets, net'.pins =
      .ofList (net.pins.toList.map fun q => if q = ⟨⟨2⟩, ⟨⟨8⟩⟩⟩ then ⟨⟨4⟩, ⟨⟨9⟩⟩⟩ else q)) ∧
    (∃ net' ∈ n'.nets, net'.pins = .ofList [⟨⟨2⟩, ⟨⟨8⟩⟩⟩, ⟨⟨5⟩, ⟨⟨8⟩⟩⟩]) ∧
    ∃ net' ∈ n'.nets, net'.pins = .ofList [⟨⟨5⟩, ⟨⟨9⟩⟩⟩, ⟨⟨4⟩, ⟨⟨8⟩⟩⟩] := by
  obtain ⟨⟨e, n⟩, h⟩ := Specimen.exists_synthesize_whole
  obtain ⟨⟨e', n'⟩, h'⟩ := Specimen.exists_damped
  obtain ⟨hnodup, hnets⟩ := series_nets Specimen.damping rfl rfl h h'
  refine ⟨e, n, e', n', h, h', hnodup, fun net hnet => ?_, ?_, ?_⟩
  · exact (hnets _).2 (.inl ⟨net, hnet, rfl⟩)
  · exact (hnets _).2 (.inr (.inl ⟨_, List.mem_cons_self, rfl⟩))
  · exact (hnets _).2 (.inr (.inl ⟨_, List.mem_cons_of_mem _ List.mem_cons_self, rfl⟩))

end BoardNets
