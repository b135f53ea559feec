import BoardNets.Proofs.Fragment.Home

/-! Fragments that resolutions leave behind. A resolution may give a target another component to
stand for it than the one that it is connected to. Then its connections have to be worked out again,
and all that can go wrong is that they are not: the repairs stop before they come to the fragment,
or the old component is still one of its ends, as its source. What is left behind stays so, for both
of its ends are components from then on. -/
namespace BoardNets
namespace Circuit

variable {c c' : Circuit}

/-- The resolution gives a fragment another target than the one it is connected to, and does not
connect it anew. -/
def Abandons (c : Circuit) (step : Instruction) (id : FragmentId) : Prop :=
  ∃ F x k y f, step = .resolve F x ∧ c.filterOf F x = .ok k ∧ k.feasible.head? = some y ∧ y ≠ x ∧
    c.fragment? id = some f ∧ f.target.node = F ∧ f.target.connections.uses ≠ [] ∧
      (f.source.node = y ∨ ¬c.ComesTo F x id)

section Touched

variable {F x y : NodeId} {k : Filter} {id : FragmentId} {f f' : Fragment}

/-- What is connected to a filter is connected to its first candidate. -/
theorem Lodged.on_head (hc : c.Lodged) (hF : c.node? F = some (.filter k))
    (hy : k.feasible.head? = some y) (hf : c.fragment? id = some f) (htarget : f.target.node = F) :
    ∀ u ∈ f.target.connections.uses, u.interface.component = y := by
  intro u hu
  have hnone : c.component? f.target.node = none := by rw [htarget, component?, hF]
  rcases hc.target id f hf with hcomponent | hhome
  · rw [hnone] at hcomponent
    cases hcomponent
  · rcases hhome u hu with ⟨hcomponent, _⟩ | ⟨k', hk', hhead⟩
    · rw [hnone] at hcomponent
      cases hcomponent
    · rw [htarget, hF] at hk'
      obtain rfl := Node.filter.inj (Option.some.inj hk')
      exact Option.some.inj (hhead.symm.trans hy)

/-- With the candidate for its target, a fragment is at home if it was connected to it, or to
nothing. -/
theorem Lodged.home_retarget_iff (hc : c.Lodged) (hF : c.node? F = some (.filter k))
    (hx : (c.component? x).isSome) (hy : k.feasible.head? = some y)
    (hf : c.fragment? id = some f) (htarget : f.target.node = F) :
    (retarget F x f).Home c ↔ f.target.connections.uses = [] ∨ y = x := by
  have hon := hc.on_head hF hy hf htarget
  have hnode : (retarget F x f).target.node = x := if_pos htarget
  have huses : (retarget F x f).target.connections.uses = f.target.connections.uses := rfl
  rw [Fragment.home_iff_of_component (by rwa [hnode]), hnode, huses]
  constructor
  · intro hhome
    cases hcases : f.target.connections.uses with
    | nil => exact .inl rfl
    | cons u rest =>
      have hu : u ∈ f.target.connections.uses := by simp [hcases]
      exact .inr ((hon u hu).symm.trans (hhome u hu))
  · intro h u hu
    rcases h with hnil | rfl
    · rw [hnil] at hu
      cases hu
    · exact hon u hu

theorem Lodged.stale_retarget_iff (hc : c.Lodged) (hF : c.node? F = some (.filter k))
    (hy : k.feasible.head? = some y) (hf : c.fragment? id = some f) (htarget : f.target.node = F)
    (hsource : f.source.node ≠ F) :
    (retarget F x f).Stale ↔ f.target.connections.uses ≠ [] ∧ f.source.node ≠ y ∧ y ≠ x := by
  have hon := hc.on_head hF hy hf htarget
  have htargetNode : (retarget F x f).target.node = x := if_pos htarget
  have hsourceNode : (retarget F x f).source.node = f.source.node := if_neg hsource
  have huses : (retarget F x f).source.connections.uses ++
      (retarget F x f).target.connections.uses =
    f.source.connections.uses ++ f.target.connections.uses := rfl
  rw [Fragment.stale_iff, htargetNode, hsourceNode, huses]
  constructor
  · rintro ⟨u, hu, hne, hne'⟩
    rcases List.mem_append.1 hu with hu | hu
    · exact absurd (hc.source id f hf u hu) hne
    · rw [hon u hu] at hne hne'
      exact ⟨List.ne_nil_of_mem hu, hne.symm, hne'⟩
  · rintro ⟨hne, haway, hother⟩
    obtain ⟨u, hu⟩ := List.exists_mem_of_ne_nil _ hne
    refine ⟨u, List.mem_append_right _ hu, ?_⟩
    rw [hon u hu]
    exact ⟨haway.symm, hother⟩

theorem abandons_resolve_iff (hfilter : c.filterOf F x = .ok k) (hy : k.feasible.head? = some y)
    (hf : c.fragment? id = some f) : c.Abandons (.resolve F x) id ↔
      y ≠ x ∧ f.target.node = F ∧ f.target.connections.uses ≠ [] ∧
        (f.source.node = y ∨ ¬c.ComesTo F x id) := by
  constructor
  · rintro ⟨F', x', k', y', f', hstep, hfilter', hy', hrest⟩
    obtain ⟨rfl, rfl⟩ := Instruction.resolve.inj hstep
    obtain rfl := Except.ok.inj (hfilter.symm.trans hfilter')
    obtain rfl := Option.some.inj (hy.symm.trans hy')
    rw [hf] at hrest
    obtain ⟨hne, hsame, hrest⟩ := hrest
    obtain rfl := Option.some.inj hsame
    exact ⟨hne, hrest⟩
  · rintro ⟨hne, hrest⟩
    exact ⟨F, x, k, y, f, rfl, hfilter, hy, hne, hf, hrest⟩

/-- The fragment after the resolution: it has its new ends, and is mended if its turn comes. -/
def Moved (c : Circuit) (F x : NodeId) (id : FragmentId) (f f' : Fragment) : Prop :=
  (c.ComesTo F x id ∧ f' = (retarget F x f).repaired c) ∨
    (¬c.ComesTo F x id ∧ f' = retarget F x f)

theorem Moved.ends (h : c.Moved F x id f f') : f'.ends = (retarget F x f).ends := by
  rcases h with ⟨_, rfl⟩ | ⟨_, rfl⟩
  · exact Fragment.ends_repaired
  · rfl

theorem Moved.home_of_bare (h : c.Moved F x id f f') (hbare : f.bare = f) : f'.Home c := by
  have hmoved : (retarget F x f).bare = retarget F x f := congrArg (retarget F x) hbare
  rcases h with ⟨_, rfl⟩ | ⟨_, rfl⟩
  · have hbalanced : (retarget F x f).source.connections = ∅ →
        (retarget F x f).target.connections = ∅ := fun _ => (Fragment.bare_eq_self.1 hmoved).2
    exact (Fragment.home_repaired_iff hbalanced).2 (.inr (Fragment.home_of_bare hmoved))
  · exact Fragment.home_of_bare hmoved

theorem Moved.home_iff (h : c.Moved F x id f f') (hc : c.Reachable)
    (hfilter : c.filterOf F x = .ok k) (hf : c.fragment? id = some f)
    (htarget : f.target.node = F) (hsource : f.source.node ≠ F) :
    f'.Home c ↔ ¬c.Abandons (.resolve F x) id := by
  obtain ⟨hF, hx⟩ := filterOf_eq_ok.1 hfilter
  obtain ⟨y, hy⟩ : ∃ y, k.feasible.head? = some y := by
    cases hfeasible : k.feasible with
    | nil => simp [hfeasible] at hx
    | cons y rest => exact ⟨y, rfl⟩
  have hcomponent := (hc.base.filters F k hF).1 x hx
  have hmoved := hc.lodged.home_retarget_iff hF hcomponent hy hf htarget
  rw [abandons_resolve_iff hfilter hy hf]
  rcases h with ⟨hcomes, rfl⟩ | ⟨hcomes, rfl⟩
  · have hbalanced : f.source.connections = ∅ → f.target.connections = ∅ :=
      hc.balanced.target_eq_empty hf
    have hrepaired : ((retarget F x f).repaired c).Home c ↔
        (retarget F x f).Stale ∨ (retarget F x f).Home c := Fragment.home_repaired_iff hbalanced
    rw [hrepaired, hmoved, hc.lodged.stale_retarget_iff hF hy hf htarget hsource]
    tauto
  · rw [hmoved]
    tauto

/-- A resolution brings the fragments of the filter home, but for those that it abandons. -/
theorem home_resolve (hc : c.Reachable) (hfilter : c.filterOf F x = .ok k)
    (hf : c.fragment? id = some f) (hends : f.source.node = F ∨ f.target.node = F)
    (hf' : (c.run (Instruction.resolve F x).perform).2.fragment? id = some f') :
    f'.Home (c.run (Instruction.resolve F x).perform).2 ↔ ¬c.Abandons (.resolve F x) id := by
  obtain ⟨hF, hx⟩ := filterOf_eq_ok.1 hfilter
  have hedits : Relation.ReflTransGen Edit c (c.run (Instruction.resolve F x).perform).2 :=
    edits_perform (.resolve F x) c hc.base
  have hmoved : c.Moved F x id f f' := by
    rw [Instruction.perform, seqRight_eq_bind, run_bind_pure] at hf'
    obtain ⟨hreached, hunreached⟩ := (run_resolution hc.base hF hx rfl).2 id f hf
    by_cases hcomes : c.ComesTo F x id
    · exact .inl ⟨hcomes, Option.some.inj (hf'.symm.trans (hreached hends hcomes))⟩
    · exact .inr ⟨hcomes, Option.some.inj (hf'.symm.trans (hunreached fun h => hcomes h.2))⟩
  by_cases hsource : f.source.node = F
  · have hbare := hc.bare_of_filter hf (hsource ▸ hF)
    have hhome := hmoved.home_of_bare hbare
    refine iff_of_true ((home_edits (.inr hhome) hedits).2 hhome) ?_
    rintro ⟨_, _, _, _, f₀, _, _, _, _, hf₀, _, hne, _⟩
    obtain rfl := Option.some.inj (hf.symm.trans hf₀)
    rw [(Fragment.bare_eq_self.1 hbare).2] at hne
    exact hne rfl
  · have htarget := hends.resolve_left hsource
    have hnode : f'.target.node = x :=
      (congrArg Prod.snd hmoved.ends).trans (if_pos htarget)
    have hstands : (c.component? f'.target.node).isSome :=
      hnode ▸ (hc.base.filters F k hF).1 x hx
    rw [home_edits (.inl hstands) hedits, hmoved.home_iff hc hfilter hf htarget hsource]

end Touched

variable {id : FragmentId} {f f' : Fragment}

theorem home_new (hc : c.Reachable) {step : Instruction} (hf : c.fragment? id = none)
    (hf' : (c.run step.perform).2.fragment? id = some f') :
    f'.Home (c.run step.perform).2 := by
  have houtcome := outcome hc.base step
  generalize (c.run step.perform).2 = c' at hf' houtcome ⊢
  have hsome : (c'.fragment? id).isSome := by rw [hf', Option.isSome_some]
  cases houtcome with
  | quiet hduties _ =>
    rw [hduties.isSome_fragment, hf] at hsome
    cases hsome
  | resolved _ hduties =>
    rw [hduties.isSome_fragment, fragment?_resolved, hf] at hsome
    cases hsome
  | required hr _ hduties _ hrecorded hrenews =>
    rw [hrecorded.isSome_fragment] at hsome
    rw [hrenews.fragments, if_pos (hduties.eq_nextFragment hf hsome)] at hf'
    obtain rfl := Option.some.inj hf'
    have hbare := (Requirement.bare_and_ends hr).1
    exact fun u hu => (Fragment.home_attempted hbare u hu).sameTree hrenews.tree
  | stray hr _ hduties _ =>
    rw [fragment?_pushFragment, if_pos (hduties.eq_nextFragment hf hsome)] at hf'
    obtain rfl := Option.some.inj hf'
    exact Fragment.home_of_bare (Requirement.bare_and_ends hr).1

theorem home_of_touched (hc : c.Reachable) {F : NodeId} {k : Filter}
    (hF : c.node? F = some (.filter k)) (hf : c.fragment? id = some f)
    (hends : f.source.node = F ∨ f.target.node = F) : f.Home c := by
  rcases hends with hsource | htarget
  · exact Fragment.home_of_bare (hc.bare_of_filter hf (hsource ▸ hF))
  · refine (hc.lodged.target id f hf).resolve_left fun hcomponent => ?_
    rw [htarget, component?, hF] at hcomponent
    cases hcomponent

theorem home_perform (hc : c.Reachable) {step : Instruction} (hf : c.fragment? id = some f)
    (hf' : (c.run step.perform).2.fragment? id = some f') :
    f'.Home (c.run step.perform).2 ↔ f.Home c ∧ ¬c.Abandons step id := by
  by_cases htouched : ∃ F x k, step = .resolve F x ∧ c.filterOf F x = .ok k ∧
    (f.source.node = F ∨ f.target.node = F)
  · obtain ⟨F, x, k, rfl, hfilter, hends⟩ := htouched
    have hhome := home_of_touched hc (filterOf_eq_ok.1 hfilter).1 hf hends
    rw [home_resolve hc hfilter hf hends hf', and_iff_right hhome]
  · have hsame : f' = f := by
      by_cases hrefused : ∃ F x e, step = .resolve F x ∧ c.filterOf F x = .error e
      · obtain ⟨F, x, e, rfl, hfilter⟩ := hrefused
        rw [Instruction.perform, seqRight_eq_bind, run_bind_pure, resolveFilter, run_ask_bind,
          hfilter, hf] at hf'
        exact (Option.some.inj hf').symm
      · have hkept := (Steady.same_fragment id f).keeps_perform (i := step) (fun _ _ _ => trivial)
          (fun F x hstep => not_or.1 fun hends => ?_) c hf
        · exact Option.some.inj (hf'.symm.trans hkept)
        · cases hfilter : c.filterOf F x with
          | error e => exact hrefused ⟨F, x, e, hstep, hfilter⟩
          | ok k => exact htouched ⟨F, x, k, hstep, hfilter, hends⟩
    subst hsame
    have hstays : ¬c.Abandons step id := by
      rintro ⟨F, x, k, _, g, hstep, hfilter, _, _, hg, htarget, _⟩
      obtain rfl := Option.some.inj (hf.symm.trans hg)
      exact htouched ⟨F, x, k, hstep, hfilter, .inr htarget⟩
    rw [home_edits (hc.lodged.target id f' hf) (edits_perform step c hc.base),
      and_iff_left hstays]

/-- One of the steps abandons the fragment. -/
def Abandoned (c : Circuit) (steps : List Instruction) (id : FragmentId) : Prop :=
  ∃ before step rest, steps = before ++ step :: rest ∧ (c.after before).Abandons step id

theorem not_abandoned_nil : ¬c.Abandoned [] id := by
  rintro ⟨before, step, rest, hsteps, _⟩
  simp at hsteps

theorem abandoned_append_iff {steps : List Instruction} {step : Instruction} :
    c.Abandoned (steps ++ [step]) id ↔
      c.Abandoned steps id ∨ (c.after steps).Abandons step id := by
  constructor
  · rintro ⟨before, last, rest, hsteps, habandons⟩
    rcases List.eq_nil_or_concat rest with rfl | ⟨rest, last', rfl⟩
    · obtain ⟨rfl, hlast⟩ := List.append_inj' hsteps rfl
      obtain rfl := List.head_eq_of_cons_eq hlast
      exact .inr habandons
    · have hsame : steps ++ [step] = (before ++ last :: rest) ++ [last'] := by
        simpa using hsteps
      exact .inl ⟨before, last, rest, (List.append_inj' hsame rfl).1, habandons⟩
  · rintro (⟨before, last, rest, rfl, habandons⟩ | habandons)
    · exact ⟨before, last, rest ++ [step], by simp, habandons⟩
    · exact ⟨steps, step, [], rfl, habandons⟩

theorem home_after (catalog : Catalog) (steps : List Instruction) :
    (((new catalog).after steps).fragment? id = none → ¬(new catalog).Abandoned steps id) ∧
    (((new catalog).after steps).fragment? id = some f →
      (f.Home ((new catalog).after steps) ↔ ¬(new catalog).Abandoned steps id)) := by
  induction steps using List.reverseRecOn generalizing f with
  | nil =>
    refine ⟨fun _ => not_abandoned_nil, fun hf => ?_⟩
    cases hf
  | append_singleton steps step ih =>
    have hreachable : ((new catalog).after steps).Reachable := ⟨catalog, steps, rfl⟩
    have hafter : (new catalog).after (steps ++ [step]) =
        (((new catalog).after steps).run step.perform).2 := by simp [after]
    rw [hafter, abandoned_append_iff, not_or]
    generalize (new catalog).after steps = c at ih hreachable ⊢
    cases hbefore : c.fragment? id with
    | none =>
      have hstays : ¬c.Abandons step id := by
        rintro ⟨_, _, _, _, g, _, _, _, _, hg, _⟩
        rw [hbefore] at hg
        cases hg
      have hnever := (ih (f := f)).1 hbefore
      exact ⟨fun _ => ⟨hnever, hstays⟩, fun hf =>
        iff_of_true (home_new hreachable hbefore hf) ⟨hnever, hstays⟩⟩
    | some g =>
      have hsome : (c.fragment? id).isSome := by rw [hbefore, Option.isSome_some]
      have hkept := isSome_fragment_perform hsome step
      refine ⟨fun hnone => ?_, fun hf => ?_⟩
      · rw [hnone] at hkept
        cases hkept
      · rw [home_perform hreachable hbefore hf, ← (ih (f := g)).2 hbefore]

end Circuit

/-- The connections of a source lie on it. Those of a target lie on the component that stands for
it, unless a step so far has abandoned the fragment. -/
theorem connections_at_ends (catalog : Catalog) (steps : List Circuit.Instruction)
    (id : FragmentId) (f : Fragment)
    (hf : ((Circuit.new catalog).after steps).fragment? id = some f) :
    (∀ u ∈ f.source.connections.uses ++ f.target.connections.uses,
      (((Circuit.new catalog).after steps).interface? u.interface).isSome) ∧
    (∀ u ∈ f.source.connections.uses, u.interface.component = f.source.node) ∧
    (f.Home ((Circuit.new catalog).after steps) ↔
      ¬(Circuit.new catalog).Abandoned steps id) := by
  have hreachable : ((Circuit.new catalog).after steps).Reachable := ⟨catalog, steps, rfl⟩
  refine ⟨fun u hu => ?_, hreachable.lodged.source id f hf, (Circuit.home_after catalog steps).2 hf⟩
  obtain ⟨e, he, rfl⟩ := Fragment.mem_uses_iff.1 hu
  exact hreachable.base.placed id f hf e he

namespace Specimen

def blank : ConnectivityId := ⟨⟨30⟩⟩

/-- The catalog with a part whose clock interface has no pins. -/
def blanked : Catalog := { catalog with
  connectivities := catalog.connectivities.insert blank { clocked blank "BLANK" receiver input with
    interfaces := [{ type := receiver, name := "CK", assignments := [] }] } }

/-- The clock of the rewired circuit comes after a fragment that cannot be wired. -/
def leaving : List Circuit.Instruction := [
  .part Circuit.root "U1" "oscillator" oscillator,
  .filter Circuit.root "U2" "pll" (some consumer),
  .candidate ⟨2⟩ consumer,
  .candidate ⟨2⟩ consumer,
  .part Circuit.root "U3" "blank" blank,
  .require {
    origin := .persisted ⟨1⟩
    function := "blank"
    source := { node := ⟨2⟩, type := some receiver, interface := some "CK" }
    target := { node := ⟨5⟩, interface := some "CK" } },
  .require {
    origin := .persisted ⟨1⟩
    function := "clock"
    source := { node := ⟨1⟩, interface := some "CK" }
    target := { node := ⟨2⟩, interface := some "CK" } },
  .resolve ⟨2⟩ ⟨4⟩]

/-- A clock runs from one candidate to the filter, which is resolved to the other one. -/
def crossing : List Circuit.Instruction := [
  .filter Circuit.root "U1" "oscillator" (some oscillator),
  .candidate ⟨1⟩ oscillator,
  .candidate ⟨1⟩ oscillator,
  .require {
    origin := .persisted ⟨1⟩
    function := "clock"
    source := { node := ⟨2⟩, interface := some "CK" }
    target := { node := ⟨1⟩, interface := some "CK" } },
  .resolve ⟨1⟩ ⟨3⟩]

def left : Circuit := (Circuit.new blanked).after leaving

def crossed : Circuit := (Circuit.new catalog).after crossing

end Specimen

/-- The fragment has a use of its target that is not on it. -/
def Fragment.strays (f : Fragment) (c : Circuit) : Bool :=
  (c.component? f.target.node).isSome &&
    f.target.connections.uses.any (·.interface.component ≠ f.target.node)

theorem Fragment.not_home_of_strays {f : Fragment} {c : Circuit} (h : f.strays c = true) :
    ¬f.Home c := by
  simp only [strays, Bool.and_eq_true, List.any_eq_true, decide_eq_true_eq] at h
  obtain ⟨hcomponent, u, hu, haway⟩ := h
  exact fun hhome => haway ((home_iff_of_component hcomponent).1 hhome u hu)

/-- The rewired clock is at home, and the crossed one has been abandoned. -/
theorem connections_at_ends_specimen :
    (∃ f, Specimen.rewired.fragment? ⟨0⟩ = some f ∧ f.source.connections.uses ≠ [] ∧
      (∀ u ∈ f.source.connections.uses, u.interface.component = f.source.node) ∧
      (f.Home Specimen.rewired ↔
        ¬(Circuit.new Specimen.catalog).Abandoned Specimen.rewiring ⟨0⟩)) ∧
    (Circuit.new Specimen.catalog).Abandoned Specimen.crossing ⟨0⟩ := by
  have hrewired : (Specimen.rewired.fragment? ⟨0⟩).any
      (fun f => f.source.connections.uses ≠ []) = true := by decide +kernel
  have hcrossed : (Specimen.crossed.fragment? ⟨0⟩).any (·.strays Specimen.crossed) = true := by
    decide +kernel
  obtain ⟨f, hf, hne⟩ := (Option.any_eq_true _ _).1 hrewired
  obtain ⟨g, hg, hstrays⟩ := (Option.any_eq_true _ _).1 hcrossed
  obtain ⟨_, hsource, hhome⟩ := connections_at_ends Specimen.catalog Specimen.rewiring ⟨0⟩ f hf
  have habandoned := (connections_at_ends Specimen.catalog Specimen.crossing ⟨0⟩ g hg).2.2
  refine ⟨⟨f, hf, by simpa using hne, hsource, hhome⟩, ?_⟩
  by_contra hnever
  exact Fragment.not_home_of_strays hstrays (habandoned.2 hnever)

/-- A resolution that fails leaves a later fragment connected to the first candidate, and so does
one that succeeds when that candidate is the source of the fragment. -/
theorem resolutions_leave_connections :
    (∃ f, Specimen.left.Reachable ∧ Specimen.left.fragment? ⟨1⟩ = some f ∧
      ¬f.Home Specimen.left) ∧
    ∃ f, Specimen.crossed.Reachable ∧ Specimen.crossed.fragment? ⟨0⟩ = some f ∧
      ¬f.Home Specimen.crossed := by
  have hleft : (Specimen.left.fragment? ⟨1⟩).any (·.strays Specimen.left) = true := by
    decide +kernel
  have hcrossed : (Specimen.crossed.fragment? ⟨0⟩).any (·.strays Specimen.crossed) = true := by
    decide +kernel
  obtain ⟨f, hf, hstrays⟩ := (Option.any_eq_true _ _).1 hleft
  obtain ⟨g, hg, hstrays'⟩ := (Option.any_eq_true _ _).1 hcrossed
  exact ⟨⟨f, ⟨_, _, rfl⟩, hf, Fragment.not_home_of_strays hstrays⟩,
    g, ⟨_, _, rfl⟩, hg, Fragment.not_home_of_strays hstrays'⟩

end BoardNets
