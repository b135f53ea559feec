import BoardNets.Proofs.Circuit.Resolution
import BoardNets.Proofs.Fragment.Inference
import BoardNets.Proofs.Fragment.Twins

/-! Deduction against candidates. As long as a target is a filter whose candidates are of one
connectivity, the first of them stands for it. All candidates are twins then, so a fragment that was
deduced early comes out of the resolution of its filter as if it were deduced then. -/
namespace BoardNets
namespace Circuit

/-- A filter that declares a connectivity has only candidates of that connectivity. -/
def Declared (c : Circuit) (f : Filter) : Prop :=
  ∀ id ∈ f.connectivity, ∀ y ∈ f.feasible, ∀ p ∈ c.component? y, p.connectivity = some id

instance (c : Circuit) (f : Filter) : Decidable (c.Declared f) :=
  inferInstanceAs (Decidable (∀ id ∈ f.connectivity, ∀ y ∈ f.feasible, ∀ p ∈ c.component? y, _))

/-- The candidates of a filter offer what their connectivities give them, which is what the filter
declares, if it declares any. -/
structure Offers (c : Circuit) (f : Filter) : Prop where
  stock : ∀ y ∈ f.feasible, ∀ p, c.component? y = some p → p.Stock c.catalog
  declared : c.Declared f

variable {c : Circuit} {F x : NodeId} {k : Filter}

theorem Offers.interfaceCandidates (h : c.Offers k) (hF : c.node? F = some (.filter k))
    (hx : x ∈ k.feasible) {p : Component} (hp : c.component? x = some p) {id : ConnectivityId}
    (hid : k.connectivity = some id) {offered : List (String × InterfaceTypeId)}
    (hoffered : c.interfaceCandidates F = .ok offered) :
    c.interfaceCandidates x = .ok offered := by
  have hstock := h.stock x hx p hp
  rw [Component.Stock, h.declared id hid x hx p hp] at hstock
  rw [Circuit.interfaceCandidates, node_eq_ok.2 hF] at hoffered
  simp only [bind, Except.bind, hid] at hoffered
  obtain ⟨found, hfound, hoffered⟩ := bind_eq_ok.1 hoffered
  obtain ⟨realised, hrealised, hoffered⟩ := bind_eq_ok.1 hoffered
  rw [lift_eq_ok] at hfound hrealised
  have hequipment : c.catalog.equipment (some id) = .ok (found.pins, realised) :=
    bind_eq_ok.2 ⟨found, hfound, bind_eq_ok.2 ⟨realised, hrealised, rfl⟩⟩
  obtain rfl := (Prod.mk.inj (Except.ok.inj (hequipment.symm.trans hstock))).2
  obtain rfl := pure_eq_ok.1 hoffered
  rw [Circuit.interfaceCandidates, node_eq_ok.2 (component?_eq_some.1 hp), List.map_map]
  rfl

end Circuit

namespace Fragment

variable {f g : Fragment} {c : Circuit} {F x : NodeId} {k : Filter}

/-- All candidates of a filter that stands for a component have one connectivity. -/
theorem targetComponent?_eq_some (hF : c.node? f.target.node = some (.filter k)) {a : NodeId}
    (h : f.targetComponent? c = .ok (some a)) : a ∈ k.feasible ∧
      ∃ id, ∀ y ∈ k.feasible, ∃ p, c.component? y = some p ∧ p.connectivity = id := by
  obtain ⟨n, hn, h⟩ := bind_eq_ok.1 h
  obtain rfl := Option.some.inj (hF.symm.trans (Circuit.node_eq_ok.1 hn))
  obtain ⟨connectivities, hall, h⟩ := bind_eq_ok.1 h
  split at h
  · cases h
  · rename_i first rest hfeasible
    split at h
    · rename_i hsame
      obtain rfl := Option.some.inj (pure_eq_ok.1 h)
      refine ⟨by simp [hfeasible], connectivities.headD none, fun y hy => ?_⟩
      obtain ⟨id, hid⟩ := exists_mapM_iff.1 ⟨_, hall⟩ y hy
      have hmem := (mem_of_mapM hall).2 ⟨y, hy, hid⟩
      obtain ⟨p, hp, hid⟩ := bind_eq_ok.1 hid
      refine ⟨p, Circuit.component_eq_ok.1 hp, ?_⟩
      rw [pure_eq_ok.1 hid]
      exact of_decide_eq_true (List.all_eq_true.1 hsame id hmem)
    · cases h

theorem alike_retarget_source (hsource : f.source.node ≠ F) :
    f.Alike c (Circuit.retarget F x f) c .source where
  type := rfl
  interface := rfl
  named := by
    intro name types _ _ htypes
    have hnode : (Circuit.retarget F x f).source.node = f.source.node := if_neg hsource
    rw [namedTypes, endpoint] at htypes ⊢
    rwa [hnode]

/-- An end at the filter finds the same types at its candidate, provided the filter declares any. -/
theorem alike_retarget_target (h : c.Offers k) (hF : c.node? F = some (.filter k))
    (hx : x ∈ k.feasible) {p : Component} (hp : c.component? x = some p)
    (htarget : f.target.node = F) (htype : f.target.type = none → k.connectivity ≠ none) :
    f.Alike c (Circuit.retarget F x f) c .target where
  type := rfl
  interface := rfl
  named := by
    intro name types hgiven _ htypes
    obtain ⟨id, hid⟩ := Option.ne_none_iff_exists'.1 (htype hgiven)
    have hnode : (Circuit.retarget F x f).target.node = x := if_pos htarget
    rw [namedTypes, endpoint, htarget] at htypes
    obtain ⟨offered, hoffered, htypes⟩ := bind_eq_ok.1 htypes
    rw [namedTypes, endpoint, hnode]
    exact bind_eq_ok.2 ⟨offered, h.interfaceCandidates hF hx hp hid hoffered, htypes⟩

theorem declares_of_targetType (hF : c.node? f.target.node = some (.filter k))
    (hgiven : f.target.type = none) {type : InterfaceTypeId} (h : f.targetType c = .ok type) :
    k.connectivity ≠ none := by
  intro hnone
  rw [targetType, hgiven] at h
  obtain ⟨name, _, h⟩ := bind_eq_ok.1 h
  obtain ⟨types, htypes, h⟩ := bind_eq_ok.1 h
  have hnil : types = [] := by
    rw [namedTypes, endpoint, Circuit.interfaceCandidates, Circuit.node_eq_ok.2 hF] at htypes
    simp only [bind, Except.bind, hnone] at htypes
    exact (pure_eq_ok.1 htypes).symm
  subst hnil
  rw [if_neg (by decide)] at h
  obtain ⟨_, _, h⟩ := bind_eq_ok.1 h
  obtain ⟨compatible, hcompatible, h⟩ := bind_eq_ok.1 h
  obtain rfl := pure_eq_ok.1 hcompatible
  cases singleType_eq_ok.1 h

/-- What is deduced with the first candidate is deduced with every other one. -/
theorem deduce_retarget (h : c.Offers k) (hF : c.node? F = some (.filter k))
    (hx : x ∈ k.feasible) (htarget : f.target.node = F) (hsource : f.source.node ≠ F)
    {w : Wiring} (hw : f.deduce c f.source.node = .ok (.resolved w)) :
    w.targetInterface.component ∈ k.feasible ∧
      (Circuit.retarget F x f).deduce c f.source.node = .ok (.resolved (w.onto x)) := by
  have hfilter : c.node? f.target.node = some (.filter k) := by rw [htarget, hF]
  have hnode : (Circuit.retarget F x f).target.node = x := if_pos htarget
  have horigin : (Circuit.retarget F x f).origin = f.origin := rfl
  rw [deduce] at hw ⊢
  rw [horigin]
  split at hw
  · cases hw
  · split at hw
    · rename_i sourceType targetType hsourceType htargetType
      obtain ⟨a?, ha, hnamed⟩ := bind_eq_ok.1 hw
      split at hnamed
      · cases hnamed
      · rename_i a
        obtain ⟨hmem, id, hall⟩ := targetComponent?_eq_some hfilter ha
        obtain ⟨p, hp, hpid⟩ := hall a hmem
        obtain ⟨q, hq, hqid⟩ := hall x hx
        have htwins : c.Twins a x := Circuit.twins_of_stock hp hq (h.stock a hmem p hp)
          (h.stock x hx q hq) (hqid.trans hpid.symm)
        have hfrom := alike_retarget_source (c := c) (x := x) hsource
        have hto := alike_retarget_target h hF hx hq htarget fun hgiven =>
          declares_of_targetType hfilter hgiven htargetType
        have hchosen : (Circuit.retarget F x f).targetComponent? c = .ok (some x) := by
          rw [targetComponent?, hnode]
          exact bind_eq_ok.2 ⟨_, Circuit.node_eq_ok.2 (Circuit.component?_eq_some.1 hq), rfl⟩
        rw [sourceType_mono rfl hfrom hsourceType, targetType_mono rfl hfrom hto htargetType]
        have hfromName : (Circuit.retarget F x f).source.interface = f.source.interface := rfl
        have htoName : (Circuit.retarget F x f).target.interface = f.target.interface := rfl
        have hdone := deduceNamed_twin htwins hfromName htoName hnamed
        refine ⟨?_, bind_eq_ok.2 ⟨some x, hchosen, hdone⟩⟩
        rwa [target_of_deduceNamed hnamed]
    · cases hw

theorem bare_eq_self :
    f.bare = f ↔ f.source.connections = ∅ ∧ f.target.connections = ∅ := by
  constructor
  · intro h
    rw [← h]
    exact ⟨rfl, rfl⟩
  · rintro ⟨hsource, htarget⟩
    obtain ⟨_, _, ⟨_, _⟩, ⟨_, _⟩, _⟩ := f
    subst hsource htarget
    rfl

/-- A fragment without connections is worked out when its filter is resolved. -/
theorem moved_of_bare (hbare : f.bare = f) :
    f.moved c F x = if f.source.node = F ∨ f.target.node = F
      then (Circuit.retarget F x f).completed c else return f := by
  obtain ⟨hsource, htarget⟩ := bare_eq_self.1 hbare
  have hentries : (Circuit.retarget F x f).entries = [] := by
    change f.source.connections.entries ++ f.target.connections.entries = []
    rw [hsource, htarget]
    rfl
  have hempty : (Circuit.retarget F x f).source.connections.isEmpty = true :=
    congrArg SortedMap.isEmpty hsource
  rw [moved, mended, current_eq_self hentries, if_pos hempty]

/-- Connections that were deduced with the first candidate are those of the chosen one, unless they
are out of date. -/
theorem onto_of_current {w : Wiring} (hbare : f.bare = f)
    (hon : w.pairing.target.On w.targetInterface) (hmem : w.targetInterface.component ∈ k.feasible)
    (hne : f.source.node ≠ F) (hsource : f.source.node ∉ k.feasible) (htarget : f.target.node = F)
    (hcurrent : ¬(Circuit.retarget F x (f.holding w.pairing)).Stale) :
    w.pairing.onto x = w.pairing := by
  have hheld : (f.holding w.pairing).target.connections = w.pairing.target := by
    rw [holding, (bare_eq_self.1 hbare).2]
    exact SortedMap.empty_insertAll _
  have hsame : w.pairing.target.onto x = w.pairing.target := by
    refine Connections.onto_eq_self fun u hu => ?_
    obtain ⟨hinterface, hpin⟩ := hon u hu
    obtain ⟨e, he, hue⟩ := mem_uses_iff.1
      (List.mem_append.2 (.inr (hheld ▸ hu)) : u ∈ (f.holding w.pairing).source.connections.uses ++
        (f.holding w.pairing).target.connections.uses)
    have hends : u.interface.component = f.source.node ∨ u.interface.component = x := by
      by_contra hfar
      have hnode : (Circuit.retarget F x (f.holding w.pairing)).source.node = f.source.node :=
        if_neg hne
      have hnode' : (Circuit.retarget F x (f.holding w.pairing)).target.node = x := if_pos htarget
      refine hcurrent ⟨e, he, ?_⟩
      rw [hnode, hnode', hue]
      simpa using hfar
    have hat : u.interface.component = x := by
      refine hends.resolve_left fun hsame => hsource ?_
      rw [← hsame, hinterface]
      exact hmem
    rw [PinUse.onto, ← hat]
    congr 1
    rw [hinterface, ← hpin]
  rw [Pairing.onto, hsame]

/-- To deduce a fragment and then resolve a filter comes to the same as to resolve the filter and
then deduce the fragment. -/
theorem moved_of_completed (h : c.Offers k) (hF : c.node? F = some (.filter k))
    (hx : x ∈ k.feasible) (hbare : f.bare = f) (hsource : f.source.node ∉ k.feasible)
    {f₁ f₂ f₃ : Fragment} (hearly : f.completed c = .ok f₁) (hmoved : f₁.moved c F x = .ok f₂)
    (hlate : (Circuit.retarget F x f).completed c = .ok f₃) : f₂ = f₃ := by
  by_cases hends : f.source.node = F ∨ f.target.node = F
  swap
  · -- the fragment has nothing to do with the filter
    obtain ⟨hnode, hnode'⟩ := ends_completed hearly
    rw [moved, hnode, hnode', if_neg hends] at hmoved
    rw [Circuit.retarget_of_away hends, hearly] at hlate
    exact (pure_eq_ok.1 hmoved).symm.trans (Except.ok.inj hlate)
  obtain rfl | ⟨w, hcomponent, hdeduce, rfl⟩ := completed_cases hearly
  · rw [moved_of_bare hbare, if_pos hends] at hmoved
    exact Except.ok.inj (hmoved.symm.trans hlate)
  have hne : f.source.node ≠ F := by
    intro heq
    rw [heq, Circuit.component?, hF] at hcomponent
    cases hcomponent
  have htarget := hends.resolve_left hne
  obtain ⟨hmem, hdeduce'⟩ := deduce_retarget h hF hx htarget hne hdeduce
  have hmended : (Circuit.retarget F x (f.holding w.pairing)).mended c = .ok f₂ := by
    have hheld : (f.holding w.pairing).source.node = F ∨ (f.holding w.pairing).target.node = F :=
      hends
    rwa [moved, if_pos hheld] at hmoved
  by_cases hstale : (Circuit.retarget F x (f.holding w.pairing)).Stale
  · -- what was deduced is forgotten, and worked out again
    have hcurrent : (Circuit.retarget F x (f.holding w.pairing)).current =
        Circuit.retarget F x f := by
      rw [current, if_pos hstale]
      exact congrArg (Circuit.retarget F x) hbare
    have hempty : (Circuit.retarget F x f).source.connections.isEmpty = true :=
      congrArg SortedMap.isEmpty (bare_eq_self.1 hbare).1
    rw [mended, hcurrent, if_pos hempty] at hmended
    exact Except.ok.inj (hmended.symm.trans hlate)
  · -- what was deduced is kept, and what would be deduced is the same
    have hcurrent : (Circuit.retarget F x (f.holding w.pairing)).current =
        Circuit.retarget F x (f.holding w.pairing) := if_neg hstale
    have hheld :
        (Circuit.retarget F x (f.holding w.pairing)).source.connections.isEmpty = false := by
      refine Bool.eq_false_iff.2 fun hempty => (ne_empty_of_deduce hdeduce).1 ?_
      have hsame : (f.holding w.pairing).source.connections = w.pairing.source := by
        rw [holding, (bare_eq_self.1 hbare).1]
        exact SortedMap.empty_insertAll _
      rw [← hsame]
      exact SortedMap.eq_empty_of_isEmpty hempty
    rw [mended, hcurrent, hheld] at hmended
    have honto := onto_of_current hbare (sound_of_deduce hdeduce).on.target hmem hne hsource
      htarget hstale
    have hnode : (Circuit.retarget F x f).source.node = f.source.node := if_neg hne
    rw [completed_of_deduce (hnode.symm ▸ hcomponent) (hnode.symm ▸ hdeduce')] at hlate
    refine (pure_eq_ok.1 hmended).symm.trans (Eq.trans ?_ (Except.ok.inj hlate))
    rw [Wiring.onto, honto]
    rfl

end Fragment
end BoardNets
