import BoardNets.Proofs.Circuit.Activity
import BoardNets.Proofs.Fragment.Candidates
import BoardNets.Proofs.Fragment.Standing

/-! Resolutions in any order. Two filters are in two places, and their candidates are apart. A
fragment that ends at both of them has no connections yet; whether it is deduced with the first
candidate of its target and then moved, or with the chosen one at once, it ends up the same. So does
a fragment that is required before its filter is resolved, or after. -/
namespace BoardNets
namespace Circuit

variable {c c' c'' : Circuit}

theorem Reachable.perform (hc : c.Reachable) (step : Instruction) :
    (c.run step.perform).2.Reachable := by
  obtain ⟨catalog, steps, rfl⟩ := hc
  exact ⟨catalog, steps ++ [step], by simp [after]⟩

theorem Reachable.resolveFilter (hc : c.Reachable) {F x : NodeId} {result : Result Unit}
    (h : c.run (resolveFilter F x) = (result, c')) : c'.Reachable := by
  have hperform := hc.perform (.resolve F x)
  rw [Instruction.perform, seqRight_eq_bind, run_bind_pure, h] at hperform
  exact hperform

theorem Reachable.require (hc : c.Reachable) {r : Requirement} {result : Result FragmentId}
    (h : c.run (Circuit.require r) = (result, c')) : c'.Reachable := by
  have hperform := hc.perform (.require r)
  rwa [run_perform_require, h] at hperform

def Sourced (c : Circuit) : Prop := ∀ id f, c.fragment? id = some f →
  f.source.connections ≠ ∅ → (c.component? f.source.node).isSome

theorem Sourced.edit (hc : c.Sourced) (h : Edit c c') : c'.Sourced := by
  intro id g hg hne
  rcases h.fragment hg with ⟨f, hf, hsource, _⟩ | ⟨hsource, _⟩ | ⟨f, w, hf, _, hdeduce, rfl⟩
  · have hp := hc id f hf (hsource ▸ hne)
    obtain ⟨g', hg', hnode⟩ := h.source hf hp
    obtain rfl := Option.some.inj (hg.symm.trans hg')
    rw [hnode]
    exact h.grows.component_isSome hp
  · exact absurd hsource hne
  · have hsound := Fragment.sound_of_deduce hdeduce
    refine h.grows.component_isSome ?_
    change (c.component? f.source.node).isSome
    obtain ⟨i, hi⟩ := Option.isSome_iff_exists.1 hsound.source
    obtain ⟨p, hp, _⟩ := Option.bind_eq_some_iff.1 hi
    rw [← hsound.sourceNode, hp]
    rfl

theorem Reachable.sourced (hc : c.Reachable) : c.Sourced :=
  hc.induction (fun _ _ _ hf => nomatch hf) fun _ _ _ hsourced hedit => hsourced.edit hedit

theorem Reachable.bare_of_filter (hc : c.Reachable) {id : FragmentId} {f : Fragment}
    (hf : c.fragment? id = some f) {g : Filter}
    (hfilter : c.node? f.source.node = some (.filter g)) : f.bare = f := by
  have hsource : f.source.connections = ∅ := by
    by_contra hne
    have hcomponent := hc.sourced id f hf hne
    rw [component?, hfilter] at hcomponent
    cases hcomponent
  exact Fragment.bare_eq_self.2 ⟨hsource, hc.balanced.target_eq_empty hf hsource⟩

structure Apart (c : Circuit) (F₁ F₂ x₁ x₂ : NodeId) (k₁ k₂ : Filter) : Prop where
  filter₁ : c.node? F₁ = some (.filter k₁)
  filter₂ : c.node? F₂ = some (.filter k₂)
  filters : F₁ ≠ F₂
  mem₁ : x₁ ∈ k₁.feasible
  mem₂ : x₂ ∈ k₂.feasible
  component₁ : x₁ ≠ F₂
  component₂ : x₂ ≠ F₁
  foreign₁ : x₁ ∉ k₂.feasible
  foreign₂ : x₂ ∉ k₁.feasible

namespace Apart

variable {F₁ F₂ x₁ x₂ : NodeId} {k₁ k₂ : Filter}

theorem of_forest (hc : c.Forest) (hF₁ : c.node? F₁ = some (.filter k₁))
    (hF₂ : c.node? F₂ = some (.filter k₂)) (hF : F₁ ≠ F₂) (hx₁ : x₁ ∈ k₁.feasible)
    (hx₂ : x₂ ∈ k₂.feasible) : c.Apart F₁ F₂ x₁ x₂ k₁ k₂ := by
  have hcomponent {F x G : NodeId} {f g : Filter} (hF : c.node? F = some (.filter f))
      (hx : x ∈ f.feasible) (hG : c.node? G = some (.filter g)) : x ≠ G := by
    rintro rfl
    have hsome := (hc.candidate F f hF x hx).2
    rw [component?, hG] at hsome
    cases hsome
  exact {
    filter₁ := hF₁
    filter₂ := hF₂
    filters := hF
    mem₁ := hx₁
    mem₂ := hx₂
    component₁ := hcomponent hF₁ hx₁ hF₂
    component₂ := hcomponent hF₂ hx₂ hF₁
    foreign₁ := fun hx => hF (hc.apart F₁ k₁ hF₁ F₂ k₂ hF₂ x₁ hx₁ hx)
    foreign₂ := fun hx => hF (hc.apart F₁ k₁ hF₁ F₂ k₂ hF₂ x₂ hx hx₂) }

theorem symm (h : c.Apart F₁ F₂ x₁ x₂ k₁ k₂) : c.Apart F₂ F₁ x₂ x₁ k₂ k₁ :=
  ⟨h.filter₂, h.filter₁, h.filters.symm, h.mem₂, h.mem₁, h.component₂, h.component₁, h.foreign₂,
    h.foreign₁⟩

theorem replace_comm (h : c.Apart F₁ F₂ x₁ x₂ k₁ k₂) (y : NodeId) :
    replace F₁ x₁ (replace F₂ x₂ y) = replace F₂ x₂ (replace F₁ x₁ y) := by
  simp only [replace]
  by_cases hy₁ : y = F₁
  · simp [hy₁, h.filters, h.component₁]
  · by_cases hy₂ : y = F₂
    · simp [hy₂, h.filters.symm, h.component₂]
    · simp [hy₁, hy₂]

theorem retarget_comm (h : c.Apart F₁ F₂ x₁ x₂ k₁ k₂) (f : Fragment) :
    retarget F₁ x₁ (retarget F₂ x₂ f) = retarget F₂ x₂ (retarget F₁ x₁ f) := by
  simp only [retarget, h.replace_comm]

theorem reseated_comm (h : c.Apart F₁ F₂ x₁ x₂ k₁ k₂) (y : NodeId) (n : Node) :
    (n.reseated F₁ x₁ k₁ y).reseated F₂ x₂ k₂ y =
      (n.reseated F₂ x₂ k₂ y).reseated F₁ x₁ k₁ y := by
  have hcandidates : x₁ ≠ x₂ := fun heq => h.foreign₁ (heq ▸ h.mem₂)
  cases n with
  | filter g => rfl
  | component p =>
    have hchildren : (p.children.map (replace F₂ x₂)).map (replace F₁ x₁) =
        (p.children.map (replace F₁ x₁)).map (replace F₂ x₂) := by
      simp only [List.map_map]
      exact List.map_congr_left fun z _ => h.replace_comm z
    simp only [Node.reseated]
    by_cases hy : y = x₁
    · subst hy
      split_ifs <;> simp_all
    · split_ifs <;> simp_all

end Apart

theorem perm_of_fragments (hc : c.Reachable) (hc' : c'.Reachable)
    (h : ∀ j, c'.fragment? j = c.fragment? j) (i : InterfaceRef) (key : InterfacePinId) :
    ((c'.usesOf i).under key).Perm ((c.usesOf i).under key) := by
  have hfragments : c'.fragments = c.fragments := Array.ext_getElem? fun k => h ⟨k⟩
  have hheld : c'.heldOn i key = c.heldOn i key := by rw [heldOn, heldOn, hfragments]
  exact (hc'.balanced.perm_heldOn i key).trans (hheld ▸ (hc.balanced.perm_heldOn i key).symm)

end Circuit

namespace Fragment

variable {c : Circuit} {F₁ F₂ x₁ x₂ : NodeId} {k₁ k₂ : Filter} {f g₁ g₂ h₁ h₂ : Fragment}

theorem moved_of_away (h : ¬(f.source.node = F₁ ∨ f.target.node = F₁)) :
    f.moved c F₁ x₁ = .ok f := by
  rw [moved, if_neg h]
  rfl

theorem ends_moved (h : f.moved c F₁ x₁ = .ok g₁) :
    g₁.source.node = Circuit.replace F₁ x₁ f.source.node ∧
      g₁.target.node = Circuit.replace F₁ x₁ f.target.node := by
  rw [moved] at h
  split at h
  · exact ends_mended h
  · rename_i haway
    obtain rfl := pure_eq_ok.1 h
    rw [not_or] at haway
    exact ⟨(if_neg haway.1).symm, (if_neg haway.2).symm⟩

theorem completed_of_filter (h : c.node? f.source.node = some (.filter k₁)) :
    f.completed c = .ok f :=
  bind_eq_ok.2 ⟨_, Circuit.node_eq_ok.2 h, rfl⟩

/-- A fragment from one filter to another one comes out the same in either order: it is deduced with
the first candidate of its target and then moved, or with the chosen one at once. -/
theorem moved_between (h : c.Apart F₁ F₂ x₁ x₂ k₁ k₂) (hoffers : c.Offers k₂) (hbare : f.bare = f)
    (hsource : f.source.node = F₁) (htarget : f.target.node = F₂)
    (hg₁ : f.moved c F₁ x₁ = .ok g₁) (hh₁ : g₁.moved c F₂ x₂ = .ok h₁)
    (hg₂ : f.moved c F₂ x₂ = .ok g₂) (hh₂ : g₂.moved c F₁ x₁ = .ok h₂) : h₁ = h₂ := by
  have hbare' (F x : NodeId) : (Circuit.retarget F x f).bare = Circuit.retarget F x f :=
    congrArg (Circuit.retarget F x) hbare
  have hwaits : (Circuit.retarget F₂ x₂ f).source.node = F₁ := by
    rw [Circuit.retarget, Circuit.replace, if_neg (hsource ▸ h.filters), hsource]
  have hstarts : (Circuit.retarget F₁ x₁ f).source.node = x₁ := if_pos hsource
  rw [moved_of_bare hbare, if_pos (.inl hsource)] at hg₁
  rw [moved_of_bare hbare, if_pos (.inr htarget),
    completed_of_filter (by rw [hwaits, h.filter₁])] at hg₂
  obtain rfl := Except.ok.inj hg₂
  rw [moved_of_bare (hbare' F₂ x₂), if_pos (.inl hwaits),
    h.retarget_comm] at hh₂
  exact moved_of_completed hoffers h.filter₂ h.mem₂ (hbare' F₁ x₁) (hstarts.symm ▸ h.foreign₁)
    hg₁ hh₁ hh₂

/-- A fragment that does not end at the first filter is moved by the second resolution alone. -/
theorem moved_away (h : c.Apart F₁ F₂ x₁ x₂ k₁ k₂)
    (haway : ¬(f.source.node = F₁ ∨ f.target.node = F₁))
    (hg₁ : f.moved c F₁ x₁ = .ok g₁) (hh₁ : g₁.moved c F₂ x₂ = .ok h₁)
    (hg₂ : f.moved c F₂ x₂ = .ok g₂) (hh₂ : g₂.moved c F₁ x₁ = .ok h₂) : h₁ = h₂ := by
  have hnever {y : NodeId} (hy : y ≠ F₁) : Circuit.replace F₂ x₂ y ≠ F₁ := by
    rw [Circuit.replace]
    split
    · exact h.component₂
    · exact hy
  obtain ⟨hsource, htarget⟩ := ends_moved hg₂
  have haway' : ¬(g₂.source.node = F₁ ∨ g₂.target.node = F₁) := by
    rw [not_or] at haway ⊢
    rw [hsource, htarget]
    exact ⟨hnever haway.1, hnever haway.2⟩
  obtain rfl := Except.ok.inj ((moved_of_away haway).symm.trans hg₁)
  obtain rfl := Except.ok.inj ((moved_of_away haway').symm.trans hh₂)
  exact Except.ok.inj (hh₁.symm.trans hg₂)

/-- Two resolutions move a fragment to the same place in either order. -/
theorem moved_comm (h : c.Apart F₁ F₂ x₁ x₂ k₁ k₂) (hoffers₁ : c.Offers k₁)
    (hoffers₂ : c.Offers k₂)
    (hbare : ∀ k, c.node? f.source.node = some (.filter k) → f.bare = f)
    (hg₁ : f.moved c F₁ x₁ = .ok g₁) (hh₁ : g₁.moved c F₂ x₂ = .ok h₁)
    (hg₂ : f.moved c F₂ x₂ = .ok g₂) (hh₂ : g₂.moved c F₁ x₁ = .ok h₂) : h₁ = h₂ := by
  by_cases hends₁ : f.source.node = F₁ ∨ f.target.node = F₁
  swap
  · exact moved_away h hends₁ hg₁ hh₁ hg₂ hh₂
  by_cases hends₂ : f.source.node = F₂ ∨ f.target.node = F₂
  swap
  · exact (moved_away h.symm hends₂ hg₂ hh₂ hg₁ hh₁).symm
  rcases hends₁ with hsource | htarget
  · have htarget := hends₂.resolve_left fun heq => h.filters (hsource.symm.trans heq)
    exact moved_between h hoffers₂ (hbare k₁ (hsource ▸ h.filter₁)) hsource htarget hg₁ hh₁ hg₂ hh₂
  · have hsource := hends₂.resolve_right fun heq => h.filters (htarget.symm.trans heq)
    exact (moved_between h.symm hoffers₁ (hbare k₂ (hsource ▸ h.filter₂)) hsource htarget
      hg₂ hh₂ hg₁ hh₁).symm

end Fragment

namespace Circuit

variable {c c₁ c' c'' : Circuit} {F₁ F₂ x₁ x₂ : NodeId} {k₁ k₂ : Filter}

theorem Resolves.twice (h₁ : c.Resolves c₁ F₁ x₁ k₁) {k : Filter} (h₂ : c₁.Resolves c' F₂ x₂ k)
    (hF₂ : c.node? F₂ = some (.filter k₂)) :
    c'.catalog = c.catalog ∧
    (∀ y, c'.unused y =
      ((c.unused y).map (Node.reseated F₁ x₁ k₁ y)).map (Node.reseated F₂ x₂ k₂ y)) ∧
    (∀ j f, c.fragment? j = some f → ∃ g h, f.moved c F₁ x₁ = .ok g ∧ g.moved c F₂ x₂ = .ok h ∧
      c'.fragment? j = some h) ∧
    ∀ j, c.fragment? j = none → c'.fragment? j = none := by
  -- the first resolution may have changed the links of the second filter
  have hfilter : (Node.filter k).unused = (Node.filter k₂).unused := by
    have hunused := h₁.nodes F₂
    rw [unused, unused, h₂.filter, hF₂] at hunused
    exact Option.some.inj hunused
  obtain ⟨_, _, _, _, _, hparent, hrequirements⟩ := Filter.mk.inj (Node.filter.inj hfilter)
  have hreseated (y : NodeId) (n : Node) : n.reseated F₂ x₂ k y = n.reseated F₂ x₂ k₂ y := by
    cases n with
    | component p => rw [Node.reseated, Node.reseated, hparent, hrequirements]
    | filter g => rfl
  refine ⟨h₂.catalog.trans h₁.catalog, fun y => ?_, fun j f hf => ?_, fun j hj => ?_⟩
  · rw [h₂.nodes, h₁.nodes]
    exact Option.map_congr fun n _ => hreseated y n
  · obtain ⟨g, hg, hmoved⟩ := h₁.fragments.some j f hf
    obtain ⟨h, hh, hmoved'⟩ := h₂.fragments.some j g hg
    exact ⟨g, h, hmoved, Fragment.moved_congr h₁.outline F₂ x₂ ▸ hmoved', hh⟩
  · exact h₂.fragments.none j (h₁.fragments.none j hj)

end Circuit

/-- Two filters may be resolved in either order: without adapters, and with filters that have only
candidates of the connectivity that they declare, if any, the nodes are the same but for links, the
fragments are the same with all their connections, and so are the uses of every interface. -/
theorem resolutions_commute (c : Circuit) (hc : c.Unadapted) (F₁ F₂ x₁ x₂ : NodeId)
    (k₁ k₂ : Filter) (hF₁ : c.node? F₁ = some (.filter k₁)) (hF₂ : c.node? F₂ = some (.filter k₂))
    (hF : F₁ ≠ F₂) (hdeclared₁ : c.Declared k₁) (hdeclared₂ : c.Declared k₂) (c' c'' : Circuit)
    (h : c.run (do Circuit.resolveFilter F₁ x₁; Circuit.resolveFilter F₂ x₂) = (.ok ⟨⟩, c'))
    (h' : c.run (do Circuit.resolveFilter F₂ x₂; Circuit.resolveFilter F₁ x₁) = (.ok ⟨⟩, c'')) :
    c'.SameTree c'' ∧ (∀ id, c''.fragment? id = c'.fragment? id) ∧
    ∀ i key, ((c''.usesOf i).under key).Perm ((c'.usesOf i).under key) := by
  have hreachable := hc.reachable
  obtain ⟨⟨⟩, c₁, hrun₁, hrun₂⟩ := Circuit.run_bind_eq_ok.1 h
  obtain ⟨⟨⟩, c₂, hrun₂', hrun₁'⟩ := Circuit.run_bind_eq_ok.1 h'
  have hreachable₁ := hreachable.resolveFilter hrun₁
  have hreachable₂ := hreachable.resolveFilter hrun₂'
  obtain ⟨k, hfirst⟩ := Circuit.resolves_of_run hreachable.base hrun₁
  obtain rfl := Node.filter.inj (Option.some.inj (hF₁.symm.trans hfirst.filter))
  obtain ⟨k, hfirst'⟩ := Circuit.resolves_of_run hreachable.base hrun₂'
  obtain rfl := Node.filter.inj (Option.some.inj (hF₂.symm.trans hfirst'.filter))
  obtain ⟨_, hsecond⟩ := Circuit.resolves_of_run hreachable₁.base hrun₂
  obtain ⟨_, hsecond'⟩ := Circuit.resolves_of_run hreachable₂.base hrun₁'
  have hapart := Circuit.Apart.of_forest hreachable.forest hF₁ hF₂ hF hfirst.candidate
    hfirst'.candidate
  obtain ⟨hcatalog, hnodes, hsome, hnone⟩ := hfirst.twice hsecond hF₂
  obtain ⟨hcatalog', hnodes', hsome', hnone'⟩ := hfirst'.twice hsecond' hF₁
  have hstock (k : Filter) : ∀ y ∈ k.feasible, ∀ p, c.component? y = some p → p.Stock c.catalog :=
    fun y _ p hp => hc.stocked y p hp
  have hfragments (id : FragmentId) : c''.fragment? id = c'.fragment? id := by
    cases hf : c.fragment? id with
    | none => rw [hnone id hf, hnone' id hf]
    | some f =>
      obtain ⟨g₁, h₁, hg₁, hh₁, hkept⟩ := hsome id f hf
      obtain ⟨g₂, h₂, hg₂, hh₂, hkept'⟩ := hsome' id f hf
      rw [hkept, hkept', Fragment.moved_comm hapart ⟨hstock k₁, hdeclared₁⟩ ⟨hstock k₂, hdeclared₂⟩
        (fun _ => hreachable.bare_of_filter hf) hg₁ hh₁ hg₂ hh₂]
  refine ⟨⟨hcatalog'.trans hcatalog.symm, fun y => ?_⟩, hfragments,
    Circuit.perm_of_fragments (hreachable₁.resolveFilter hrun₂) (hreachable₂.resolveFilter hrun₁')
      hfragments⟩
  rw [hnodes, hnodes', Option.map_map, Option.map_map]
  exact Option.map_congr fun n _ => (hapart.reseated_comm y n).symm

namespace Specimen

/-- An oscillator and two receivers, of which the clock has yet to be chosen. -/
def undecided : Circuit := (Circuit.new catalog).after [
  .filter Circuit.root "U1" "oscillator" (some oscillator),
  .filter Circuit.root "U2" "pll" (some consumer),
  .candidate ⟨1⟩ oscillator,
  .candidate ⟨2⟩ consumer,
  .candidate ⟨2⟩ consumer,
  .require (clocking none)]

theorem unadapted_undecided : undecided.Unadapted := by
  refine ⟨_, _, fun i hi r hr => ?_, rfl⟩
  subst hr
  simp only [List.mem_cons, List.not_mem_nil, or_false, reduceCtorEq, false_or] at hi
  rw [Circuit.Instruction.require.inj hi]
  rfl

end Specimen

namespace Circuit

variable {c : Circuit}

theorem run_of_isOk {α : Type} {b : Build α} (h : (c.run b).1.isOk = true) :
    ∃ a, c.run b = (.ok a, (c.run b).2) := by
  obtain ⟨a, ha⟩ := isOk_iff.1 h
  exact ⟨a, Prod.ext ha rfl⟩

/-- There is a filter, with only candidates of the connectivity that it declares. -/
def declaresAt (c : Circuit) (F : NodeId) : Bool :=
  (c.node? F).any fun
    | .filter f => decide (c.Declared f)
    | .component _ => false

theorem exists_of_declaresAt {F : NodeId} (h : c.declaresAt F = true) :
    ∃ f, c.node? F = some (.filter f) ∧ c.Declared f := by
  obtain ⟨n, hn, h⟩ := (Option.any_eq_true _ _).1 h
  cases n with
  | component p => cases h
  | filter f => exact ⟨f, hn, of_decide_eq_true h⟩

end Circuit

/-- With the oscillator first, the clock is deduced with the first receiver and moved to the
second; with the receiver first, it is deduced with that one. -/
theorem resolutions_commute_specimen : ∃ c' c'',
    Specimen.undecided.run (do Circuit.resolveFilter ⟨1⟩ ⟨3⟩; Circuit.resolveFilter ⟨2⟩ ⟨5⟩) =
      (.ok ⟨⟩, c') ∧
    Specimen.undecided.run (do Circuit.resolveFilter ⟨2⟩ ⟨5⟩; Circuit.resolveFilter ⟨1⟩ ⟨3⟩) =
      (.ok ⟨⟩, c'') ∧
    (c'.fragment? ⟨0⟩).any (fun f => f.target.node = ⟨5⟩ && !f.source.connections.isEmpty) ∧
    c'.SameTree c'' ∧ (∀ id, c''.fragment? id = c'.fragment? id) ∧
    ∀ i key, ((c''.usesOf i).under key).Perm ((c'.usesOf i).under key) := by
  obtain ⟨k₁, hF₁, hdeclared₁⟩ : ∃ f, Specimen.undecided.node? ⟨1⟩ = some (.filter f) ∧
    Specimen.undecided.Declared f := Circuit.exists_of_declaresAt (by decide +kernel)
  obtain ⟨k₂, hF₂, hdeclared₂⟩ : ∃ f, Specimen.undecided.node? ⟨2⟩ = some (.filter f) ∧
    Specimen.undecided.Declared f := Circuit.exists_of_declaresAt (by decide +kernel)
  obtain ⟨⟨⟩, h⟩ := Circuit.run_of_isOk (c := Specimen.undecided)
    (b := do Circuit.resolveFilter ⟨1⟩ ⟨3⟩; Circuit.resolveFilter ⟨2⟩ ⟨5⟩) (by decide +kernel)
  obtain ⟨⟨⟩, h'⟩ := Circuit.run_of_isOk (c := Specimen.undecided)
    (b := do Circuit.resolveFilter ⟨2⟩ ⟨5⟩; Circuit.resolveFilter ⟨1⟩ ⟨3⟩) (by decide +kernel)
  exact ⟨_, _, h, h', by decide +kernel, resolutions_commute Specimen.undecided
    Specimen.unadapted_undecided ⟨1⟩ ⟨2⟩ ⟨3⟩ ⟨5⟩ k₁ k₂ hF₁ hF₂ (by decide) hdeclared₁ hdeclared₂
    _ _ h h'⟩

/-- The requirement of the candidate in place of the filter. -/
def Requirement.retarget (F x : NodeId) (r : Requirement) : Requirement :=
  { r with
    source.node := Circuit.replace F x r.source.node
    target.node := Circuit.replace F x r.target.node }

theorem Requirement.fragment_retarget {r : Requirement} {f : Fragment} (h : r.fragment = .ok f)
    (F x : NodeId) : (r.retarget F x).fragment = .ok (Circuit.retarget F x f) := by
  rw [fragment] at h ⊢
  split at h
  · exact absurd h throw_ne_ok
  · rename_i hnamed
    obtain rfl := pure_eq_ok.1 h
    exact if_neg hnamed

theorem Requirement.bare_fragment {r : Requirement} {f : Fragment} (h : r.fragment = .ok f) :
    f.bare = f ∧ f.source.node = r.source.node := by
  rw [fragment] at h
  split at h
  · exact absurd h throw_ne_ok
  · obtain rfl := pure_eq_ok.1 h
    exact ⟨rfl, rfl⟩

/-- Without an adapter, a requirement of a filter that is resolved later comes to the same as the
requirement of its candidate: the fragments are the same with all their connections, every node
offers the same, and every interface has the same uses. -/
theorem requirement_then_resolution (c : Circuit) (hc : c.Reachable) (F x : NodeId) (k : Filter)
    (hF : c.node? F = some (.filter k)) (hoffers : c.Offers k) (r : Requirement)
    (hplain : r.adapter = none) (hsource : r.source.node ∉ k.feasible) (c' c'' : Circuit)
    (id id' : FragmentId)
    (h : c.run (do let id ← Circuit.require r; Circuit.resolveFilter F x; return id) =
      (.ok id, c'))
    (h' : c.run (do Circuit.resolveFilter F x; Circuit.require (r.retarget F x)) =
      (.ok id', c'')) :
    id' = id ∧ (∀ j, c''.fragment? j = c'.fragment? j) ∧ c''.outline = c'.outline ∧
    ∀ i key, ((c''.usesOf i).under key).Perm ((c'.usesOf i).under key) := by
  obtain ⟨_, c₁, hrequire, h⟩ := Circuit.run_bind_eq_ok.1 h
  obtain ⟨⟨⟩, c₂, hresolve, h⟩ := Circuit.run_bind_eq_ok.1 h
  obtain rfl := Except.ok.inj (congrArg Prod.fst h)
  obtain rfl := Circuit.eq_of_run_pure h
  obtain ⟨⟨⟩, c₃, hresolve', hrequire'⟩ := Circuit.run_bind_eq_ok.1 h'
  obtain ⟨f, hf, hrecord⟩ := Circuit.record_of_require hplain hrequire
  obtain ⟨f', hf', hrecord'⟩ := Circuit.record_of_require (r := r.retarget F x) hplain hrequire'
  obtain rfl := Except.ok.inj ((Requirement.fragment_retarget hf F x).symm.trans hf')
  obtain ⟨hbare, hnode⟩ := Requirement.bare_fragment hf
  obtain ⟨rfl, houtline, f₁, hearly, hnew⟩ := Circuit.evolves_record hrecord
  obtain ⟨rfl, houtline', f₃, hlate, hnew'⟩ := Circuit.evolves_record hrecord'
  have hreachable := hc.require hrequire
  have hreachable' := hc.resolveFilter hresolve'
  obtain ⟨_, hresolves⟩ := Circuit.resolves_of_run hreachable.base hresolve
  obtain ⟨_, hresolves'⟩ := Circuit.resolves_of_run hc.base hresolve'
  obtain rfl := Node.filter.inj (Option.some.inj (hF.symm.trans hresolves'.filter))
  have hnext := hresolves'.fragments.nextFragment
  have hfragments (j : FragmentId) : c''.fragment? j = c'.fragment? j := by
    rw [hnew', hnext]
    by_cases hj : j = c.nextFragment
    · obtain ⟨f₂, hf₂, hmoved⟩ := hresolves.fragments.some j f₁ (by rw [hnew, if_pos hj])
      rw [Fragment.moved_congr houtline] at hmoved
      rw [Fragment.completed_congr hresolves'.outline] at hlate
      rw [if_pos hj, hf₂, Fragment.moved_of_completed hoffers hF hresolves'.candidate hbare
        (hnode ▸ hsource) hearly hmoved hlate]
    · rw [if_neg hj]
      cases hg : c.fragment? j with
      | none =>
        rw [hresolves'.fragments.none j hg,
          hresolves.fragments.none j (by rw [hnew, if_neg hj, hg])]
      | some g =>
        obtain ⟨g₁, hg₁, hmoved⟩ := hresolves.fragments.some j g (by rw [hnew, if_neg hj, hg])
        obtain ⟨g₂, hg₂, hmoved'⟩ := hresolves'.fragments.some j g hg
        rw [Fragment.moved_congr houtline] at hmoved
        rw [hg₁, hg₂, Except.ok.inj (hmoved.symm.trans hmoved')]
  refine ⟨hnext, hfragments, ?_, Circuit.perm_of_fragments (hreachable.resolveFilter hresolve)
    (hreachable'.require hrequire') hfragments⟩
  rw [houtline', hresolves'.outline, hresolves.outline, houtline]

namespace Specimen

/-- An oscillator and two receivers, of which one has yet to be chosen. -/
def pending : Circuit := (Circuit.new catalog).after [
  .part Circuit.root "U1" "oscillator" oscillator,
  .filter Circuit.root "U2" "pll" (some consumer),
  .candidate ⟨2⟩ consumer,
  .candidate ⟨2⟩ consumer]

theorem unadapted_pending : pending.Unadapted := by
  refine ⟨_, _, fun i hi r hr => ?_, rfl⟩
  subst hr
  simp at hi

def clockThenChoice : Build FragmentId := do
  let id ← Circuit.require (clocking none)
  Circuit.resolveFilter ⟨2⟩ ⟨4⟩
  return id

def choiceThenClock : Build FragmentId := do
  Circuit.resolveFilter ⟨2⟩ ⟨4⟩
  Circuit.require ((clocking none).retarget ⟨2⟩ ⟨4⟩)

end Specimen

/-- A clock to the second candidate of a filter, required before the choice and after it. -/
theorem requirement_then_resolution_specimen : ∃ c' c'' id id',
    Specimen.pending.run Specimen.clockThenChoice = (.ok id, c') ∧
    Specimen.pending.run Specimen.choiceThenClock = (.ok id', c'') ∧
    (c'.fragment? ⟨0⟩).any (fun f => f.target.node = ⟨4⟩ && !f.source.connections.isEmpty) ∧
    id' = id ∧ (∀ j, c''.fragment? j = c'.fragment? j) ∧ c''.outline = c'.outline ∧
    ∀ i key, ((c''.usesOf i).under key).Perm ((c'.usesOf i).under key) := by
  obtain ⟨k, hF, hdeclared⟩ : ∃ f, Specimen.pending.node? ⟨2⟩ = some (.filter f) ∧
    Specimen.pending.Declared f := Circuit.exists_of_declaresAt (by decide +kernel)
  have hforeign : (Specimen.clocking none).source.node ∉ k.feasible := by
    intro hmem
    have hlater := (Specimen.unadapted_pending.reachable.forest.candidate ⟨2⟩ k hF _ hmem).1
    exact absurd hlater (by decide)
  have hoffers : Specimen.pending.Offers k :=
    ⟨fun y _ p hp => Specimen.unadapted_pending.stocked y p hp, hdeclared⟩
  obtain ⟨id, h⟩ := Circuit.run_of_isOk (c := Specimen.pending) (b := Specimen.clockThenChoice)
    (by decide +kernel)
  obtain ⟨id', h'⟩ := Circuit.run_of_isOk (c := Specimen.pending) (b := Specimen.choiceThenClock)
    (by decide +kernel)
  exact ⟨_, _, id, id', h, h', by decide +kernel, requirement_then_resolution Specimen.pending
    Specimen.unadapted_pending.reachable ⟨2⟩ ⟨4⟩ k hF hoffers (Specimen.clocking none) rfl hforeign
    _ _ id id' h h'⟩

namespace Specimen

/-- A receiver and an oscillator that has yet to be chosen. -/
def awaited : Circuit := (Circuit.new strobed).after [
  .filter Circuit.root "U1" "oscillator" (some oscillator),
  .part Circuit.root "U2" "pll" consumer,
  .candidate ⟨1⟩ oscillator]

def strobeThenChoice : Build FragmentId := do
  let id ← Circuit.require strobing
  Circuit.resolveFilter ⟨1⟩ ⟨3⟩
  return id

def choiceThenStrobe : Build FragmentId := do
  Circuit.resolveFilter ⟨1⟩ ⟨3⟩
  Circuit.require (strobing.retarget ⟨1⟩ ⟨3⟩)

end Specimen

/-- A strobe that is required of a filter is not adapted when the filter is resolved: the candidate
gets no second interface, and the strobe is not wired. Required of the candidate, it is. -/
theorem filter_is_never_adapted : Specimen.awaited.Reachable ∧ ∃ c' c'' id id',
    Specimen.awaited.run Specimen.strobeThenChoice = (.ok id, c') ∧
    Specimen.awaited.run Specimen.choiceThenStrobe = (.ok id', c'') ∧
    (c'.fragment? ⟨0⟩).any (·.source.connections.isEmpty) = true ∧
    (c''.fragment? ⟨0⟩).any (!·.source.connections.isEmpty) = true ∧
    (c'.interface? ⟨⟨3⟩, 1⟩).isSome = false ∧ (c''.interface? ⟨⟨3⟩, 1⟩).isSome = true := by
  obtain ⟨id, h⟩ := Circuit.run_of_isOk (c := Specimen.awaited) (b := Specimen.strobeThenChoice)
    (by decide +kernel)
  obtain ⟨id', h'⟩ := Circuit.run_of_isOk (c := Specimen.awaited) (b := Specimen.choiceThenStrobe)
    (by decide +kernel)
  exact ⟨⟨_, _, rfl⟩, _, _, id, id', h, h', by decide +kernel, by decide +kernel, by decide +kernel,
    by decide +kernel⟩

end BoardNets
