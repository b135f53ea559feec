import BoardNets.Proofs.Circuit.Attempts

/-! What steps do to duties: which nodes require which fragments, and between which nodes these run.
A requirement adds a fragment and puts it on the list of its source, a resolution hands the list of
the filter on to the candidate, and nothing else that building does has to do with either. -/
namespace BoardNets

def Fragment.ends (f : Fragment) : NodeId × NodeId := (f.source.node, f.target.node)

theorem Requirement.bare_and_ends {r : Requirement} {f : Fragment} (h : r.fragment = .ok f) :
    f.bare = f ∧ f.ends = (r.source.node, r.target.node) := by
  rw [fragment] at h
  split at h
  · exact absurd h throw_ne_ok
  · obtain rfl := pure_eq_ok.1 h
    exact ⟨rfl, rfl⟩

theorem Fragment.ends_attempted {f : Fragment} {c : Circuit} : (f.attempted c).ends = f.ends := by
  obtain h | ⟨w, _, h⟩ := attempted_cases (f := f) (c := c) <;> rw [h]
  rfl

namespace Circuit

variable {c c' c'' : Circuit}

def ends (c : Circuit) (id : FragmentId) : Option (NodeId × NodeId) :=
  (c.fragment? id).map Fragment.ends

/-- The same nodes require the same fragments, which run between the same nodes. -/
structure SameDuties (c c' : Circuit) : Prop where
  requirements : ∀ x, c'.requirementsOf x = c.requirementsOf x
  ends : ∀ id, c'.ends id = c.ends id

theorem SameTree.requirementsOf (h : c.SameTree c') (x : NodeId) :
    c'.requirementsOf x = c.requirementsOf x := by
  have hunused (n : Option Node) : requirementsAt (n.map Node.unused) = requirementsAt n := by
    rcases n with _ | _ | _ <;> rfl
  rw [Circuit.requirementsOf, Circuit.requirementsOf, ← hunused, ← hunused (c.node? x)]
  exact congrArg requirementsAt (h.nodes x)

theorem Renews.sameDuties {id : FragmentId} {f g : Fragment} (h : c.Renews c' id g)
    (hf : c.fragment? id = some f) (hends : g.ends = f.ends) : c.SameDuties c' where
  requirements := h.tree.requirementsOf
  ends := by
    intro j
    rw [ends, ends, h.fragments]
    split
    · rename_i hj
      rw [hj, hf, Option.map_some, Option.map_some, hends]
    · rfl

namespace SameDuties

theorem refl (c : Circuit) : c.SameDuties c := ⟨fun _ => rfl, fun _ => rfl⟩

theorem trans (h : c.SameDuties c') (h' : c'.SameDuties c'') : c.SameDuties c'' where
  requirements := fun x => (h'.requirements x).trans (h.requirements x)
  ends := fun id => (h'.ends id).trans (h.ends id)

theorem isSome_fragment (h : c.SameDuties c') (id : FragmentId) :
    (c'.fragment? id).isSome = (c.fragment? id).isSome := by
  have hends := congrArg Option.isSome (h.ends id)
  rwa [Circuit.ends, Circuit.ends, Option.isSome_map, Option.isSome_map] at hends

theorem eq_nextFragment (h : c.SameDuties c') {id : FragmentId} {f : Fragment}
    (hnone : c.fragment? id = none) (hsome : ((c'.pushFragment f).fragment? id).isSome) :
    id = c'.nextFragment := by
  by_contra hne
  rw [fragment?_pushFragment, if_neg hne, h.isSome_fragment, hnone] at hsome
  cases hsome

theorem editComponent {x : NodeId} {g : Component → Component}
    (hg : ∀ p, (g p).requirements = p.requirements) : c.SameDuties (c.editComponent x g) where
  requirements := fun y => view_editComponent (V := requirementsAt) (fun p => hg p) y
  ends := fun id => by rw [Circuit.ends, fragment?_editComponent, Circuit.ends]

theorem setFilter {F : NodeId} {f g : Filter} (hF : c.node? F = some (.filter f))
    (hg : g.requirements = f.requirements) : c.SameDuties (c.setNode F (.filter g)) where
  requirements := fun y => view_setNode (V := requirementsAt) (m := .filter g) hF hg y
  ends := fun _ => rfl

theorem pushNode {n : Node} (hn : n.Fresh) : c.SameDuties (c.pushNode n) where
  requirements := fun y => view_pushNode (V := requirementsAt) (requirementsAt_fresh hn) y
  ends := fun _ => rfl

theorem editFragment {id : FragmentId} {g : Fragment → Fragment} (hg : ∀ f, (g f).ends = f.ends) :
    c.SameDuties (c.editFragment id g) where
  requirements := fun _ => rfl
  ends := by
    intro j
    rw [Circuit.ends, fragment?_editFragment, Circuit.ends]
    split
    · rw [Option.map_map]
      exact Option.map_congr fun f _ => hg f
    · rfl

variable {α β : Type} {c₀ : Circuit}

theorem keeps_changeComponent (x : NodeId) {g : Component → Component}
    (hg : ∀ p, (g p).requirements = p.requirements) :
    Keeps c₀.SameDuties (changeComponent x g) := by
  intro c hc
  rw [run_changeComponent]
  split
  · exact hc.trans (editComponent hg)
  · exact hc

theorem keeps_changeInterface (i : InterfaceRef) (g : ComponentInterface → ComponentInterface) :
    Keeps c₀.SameDuties (changeInterface i g) := by
  rw [changeInterface]
  exact (Keeps.ask _).bind fun _ => keeps_changeComponent i.component fun _ => rfl

theorem keeps_changeFragment (id : FragmentId) {g : Fragment → Fragment}
    (hg : ∀ f, (g f).ends = f.ends) : Keeps c₀.SameDuties (changeFragment id g) :=
  fun _ hc => hc.trans (editFragment hg)

theorem addChild {n : Node} (hn : n.Fresh) (hc : c₀.SameDuties c) :
    c₀.SameDuties (c.run (addChild n)).2 := by
  rw [Circuit.addChild, run_bind, run_addNode]
  dsimp only
  have hpushed : c₀.SameDuties (c.pushNode n) := hc.trans (pushNode hn)
  split
  · rename_i parent _
    rw [run_bind_pure]
    exact keeps_changeComponent parent (fun _ => by rfl) _ hpushed
  · exact hpushed

theorem keeps_addComponent (parent : NodeId) (name function : String) (kind : ComponentKind)
    (connectivity : Option ConnectivityId) :
    Keeps c₀.SameDuties (addComponent parent name function kind connectivity) := by
  intro c hc
  rw [addComponent]
  refine Keeps.ask_bind hc fun reference _ => Keeps.ask_bind hc fun p hp => ?_
  exact addChild (newComponent_eq_ok hp).2.2.2 hc

theorem keeps_addFilter (parent : NodeId) (name function : String)
    (connectivity : Option ConnectivityId) :
    Keeps c₀.SameDuties (addFilter parent name function connectivity) := by
  intro c hc
  rw [addFilter]
  refine Keeps.ask_bind hc fun reference _ => ?_
  cases connectivity with
  | none => exact addChild ⟨rfl, rfl, rfl⟩ hc
  | some id => exact Keeps.ask_bind hc fun _ _ => addChild ⟨rfl, rfl, rfl⟩ hc

theorem keeps_addCandidate (F : NodeId) (connectivity : ConnectivityId) :
    Keeps c₀.SameDuties (addCandidate F connectivity) := by
  intro c hc
  rw [addCandidate]
  refine Keeps.ask_bind hc fun f _ => Keeps.ask_bind hc fun p hp => ?_
  rw [run_bind, run_addNode]
  have hpushed : c₀.SameDuties (c.pushNode (.component p)) :=
    hc.trans (pushNode (newComponent_eq_ok hp).2.2.2)
  refine Keeps.ask_bind hpushed fun g hg => ?_
  exact hpushed.trans (setFilter (filter_eq_ok.1 hg) rfl)

theorem keeps_linkTo (F other : NodeId) : Keeps c₀.SameDuties (linkTo F other) := by
  intro c hc
  rw [linkTo]
  refine Keeps.ask_bind hc fun f hf => ?_
  split
  · exact hc.trans (setFilter (filter_eq_ok.1 hf) rfl)
  · exact hc

theorem keeps_setAncillary (x : NodeId) (a : Ancillary) :
    Keeps c₀.SameDuties (setAncillary x a) := by
  rw [setAncillary]
  split
  · exact (Keeps.ask _).bind fun _ => keeps_changeComponent x fun _ => rfl
  · exact keeps_changeComponent x fun _ => rfl

theorem keeps_adaptInterface (f : Fragment) (side : Side) (a : Adaptation) :
    Keeps c₀.SameDuties (adaptInterface f side a) := by
  rw [adaptInterface]
  refine (Keeps.ask _).bind fun n => ?_
  cases n with
  | filter g => exact .pure _
  | component p =>
    refine (Keeps.ask _).bind fun name => (Keeps.ask _).bind fun type =>
      (Keeps.ask _).bind fun present => ?_
    split
    · exact .pure _
    · exact (Keeps.ask _).bind fun i => (Keeps.ask _).bind fun base => (Keeps.ask _).bind fun _ =>
        keeps_changeComponent _ fun _ => rfl

theorem keeps_tryDeduce (id : FragmentId) : Keeps c₀.SameDuties (tryDeduce id) := by
  rw [tryDeduce]
  refine (Keeps.ask _).bind fun f => (Keeps.ask _).bind fun n => ?_
  split
  · exact .pure _
  · refine (Keeps.ask _).bind fun answer => ?_
    split
    · exact .pure _
    · refine Keeps.bind ?_ fun _ => Keeps.bind ?_ fun _ => keeps_changeFragment id fun _ => rfl
      · exact keeps_changeInterface _ _
      · exact keeps_changeInterface _ _

theorem keeps_forgetStale (id : FragmentId) : Keeps c₀.SameDuties (forgetStale id) := by
  rw [forgetStale]
  refine (Keeps.ask _).bind fun f => ?_
  dsimp only
  split
  · refine Keeps.bind (keeps_changeFragment id fun _ => by rfl) fun _ =>
      .forM fun e _ => .forM fun u _ => ?_
    exact keeps_changeInterface u.interface _
  · exact .pure _

theorem keeps_repair (id : FragmentId) : Keeps c₀.SameDuties (repair id) := by
  rw [repair]
  refine (keeps_forgetStale id).bind fun _ => (Keeps.ask _).bind fun f => ?_
  split
  · exact keeps_tryDeduce id
  · exact .pure _

end SameDuties

/-- What a step comes to, as far as duties go. -/
inductive Outcome (c : Circuit) : Instruction → Circuit → Prop
  /-- Nothing. -/
  | quiet {step : Instruction} {c' : Circuit} : c.SameDuties c' →
      (∀ F x k, step = .resolve F x → c.filterOf F x ≠ .ok k) → Outcome c step c'
  /-- A filter is replaced. -/
  | resolved {F x : NodeId} {k : Filter} {c' : Circuit} : c.filterOf F x = .ok k →
      (c.resolved F x k).SameDuties c' → Outcome c (.resolve F x) c'
  /-- A fragment is required. -/
  | required {r : Requirement} {f : Fragment} {d c' : Circuit} {owner : Node} :
      r.fragment = .ok f → d.Base → c.SameDuties d → d.node? f.source.node = some owner →
      (d.recorded f owner).SameDuties c' →
      (d.recorded f owner).Renews c' d.nextFragment (f.attempted (d.recorded f owner)) →
      Outcome c (.require r) c'
  /-- A fragment is there that no node requires. -/
  | stray {r : Requirement} {f : Fragment} {d : Circuit} :
      r.fragment = .ok f → d.Base → c.SameDuties d → d.node? f.source.node = none →
      Outcome c (.require r) (d.pushFragment f)

theorem outcome_record {r : Requirement} {f : Fragment} {d : Circuit} (hr : r.fragment = .ok f)
    (hd : d.Base) (hc : c.SameDuties d) : c.Outcome (.require r) (d.run (record f)).2 := by
  rcases run_record (c := d) f with ⟨e, hnone, hrun⟩ | ⟨owner, c', howner, hrenews, hrun⟩
  · rw [hrun]
    exact .stray hr hd hc hnone
  · rw [hrun]
    have hkept := hrenews.sameDuties fragment?_recorded Fragment.ends_attempted
    rw [← Fragment.attempted_congr (outline_recorded howner)] at hrenews
    exact .required hr hd hc howner hkept hrenews

theorem outcome_require (hc : c.Base) (r : Requirement) :
    c.Outcome (.require r) (c.run (Circuit.require r)).2 := by
  have hquiet {d : Circuit} (h : c.SameDuties d) : c.Outcome (.require r) d :=
    .quiet h (by simp)
  rw [Circuit.require, run_ask_bind]
  cases hr : r.fragment with
  | error e => exact hquiet (.refl c)
  | ok f =>
    dsimp only
    rw [addFragment, run_ask_bind]
    cases c.node f.target.node with
    | error e => exact hquiet (.refl c)
    | ok n =>
      dsimp only
      cases f.adapter with
      | none => exact outcome_record hr hc (.refl c)
      | some a =>
        have hsource := SameDuties.keeps_adaptInterface f .source a.source c (.refl c)
        have hbase := hc.edits (edits_adaptInterface f .source a.source c hc)
        dsimp only
        rw [run_bind]
        cases hrun : c.run (adaptInterface f .source a.source) with
        | mk result c₁ =>
          rw [hrun] at hsource hbase
          cases result with
          | error e => exact hquiet hsource
          | ok _ =>
            have htarget := SameDuties.keeps_adaptInterface f .target a.target c₁ hsource
            have hbase₂ := hbase.edits (edits_adaptInterface f .target a.target c₁ hbase)
            dsimp only
            rw [run_bind]
            cases hrun₂ : c₁.run (adaptInterface f .target a.target) with
            | mk result c₂ =>
              rw [hrun₂] at htarget hbase₂
              cases result with
              | error e => exact hquiet htarget
              | ok _ => exact outcome_record hr hbase₂ htarget

theorem outcome_resolveFilter (hc : c.Base) (F x : NodeId) :
    c.Outcome (.resolve F x) (c.run (resolveFilter F x)).2 := by
  cases h : c.filterOf F x with
  | error e =>
    rw [resolveFilter, run_ask_bind, h]
    refine .quiet (.refl c) fun G y k heq hk => ?_
    obtain ⟨rfl, rfl⟩ := Instruction.resolve.inj heq
    rw [h] at hk
    cases hk
  | ok k =>
    obtain ⟨hF, hx⟩ := filterOf_eq_ok.1 h
    rw [run_resolveFilter hc hF hx]
    have hrepairs : Keeps (c.resolved F x k).SameDuties ((c.touching F).forM repair) :=
      .forM fun id _ => SameDuties.keeps_repair id
    exact .resolved h (hrepairs _ (.refl _))

theorem outcome (hc : c.Base) (step : Instruction) : c.Outcome step (c.run step.perform).2 := by
  have hquiet {step : Instruction} (hkeeps : Keeps c.SameDuties step.perform)
      (hstep : ∀ F x, step ≠ .resolve F x) : c.Outcome step (c.run step.perform).2 :=
    .quiet (hkeeps c (.refl c)) fun F x _ heq => absurd heq (hstep F x)
  cases step with
  | part parent name function id =>
    refine hquiet (.map _ ?_) (by simp)
    exact SameDuties.keeps_addComponent parent name function .part (some id)
  | subcircuit parent name function connectivity =>
    refine hquiet (.map _ ?_) (by simp)
    exact SameDuties.keeps_addComponent parent name function .subcircuit connectivity
  | filter parent name function connectivity =>
    refine hquiet (.map _ ?_) (by simp)
    exact SameDuties.keeps_addFilter parent name function connectivity
  | candidate F id =>
    exact hquiet (.map _ (SameDuties.keeps_addCandidate F id)) (by simp)
  | link a b =>
    refine hquiet (.seqRight ?_ _) (by simp)
    rw [linkFilters]
    exact (SameDuties.keeps_linkTo a b).bind fun _ => SameDuties.keeps_linkTo b a
  | resolve F x =>
    rw [Instruction.perform, seqRight_eq_bind, run_bind_pure]
    exact outcome_resolveFilter hc F x
  | ancillary parent name function id role =>
    refine hquiet (.map _ ?_) (by simp)
    rw [addAncillary]
    refine (SameDuties.keeps_addComponent parent name function .part (some id)).bind fun x => ?_
    exact (SameDuties.keeps_setAncillary x role).bind fun _ => .pure x
  | setAncillary x role =>
    exact hquiet (.seqRight (SameDuties.keeps_setAncillary x role) _) (by simp)
  | require r =>
    rw [run_perform_require]
    exact outcome_require hc r

theorem isSome_fragment_perform {id : FragmentId} (h : (c.fragment? id).isSome)
    (step : Instruction) : ((c.run step.perform).2.fragment? id).isSome :=
  (Steady.has_fragment id).keeps_perform (fun _ _ _ => trivial) (fun _ _ _ => trivial) c h

end Circuit
end BoardNets
