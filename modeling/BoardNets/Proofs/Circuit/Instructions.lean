import BoardNets.Proofs.Circuit.Building

/-! Every instruction, followed through its questions and changes. Where a question is answered the
next change is part of an edit; where it is not, the instruction stops between two edits. -/
namespace BoardNets
namespace Circuit

variable {α β : Type} {c : Circuit}

def Edits (b : Build α) : Prop := ∀ c : Circuit, c.Base → Relation.ReflTransGen Edit c (c.run b).2

namespace Edits

theorem pure (a : α) : Edits (Pure.pure a) := fun _ _ => .refl

theorem ask (question : Circuit → Result α) : Edits (Circuit.ask question) := fun _ _ => .refl

theorem bind {x : Build α} {f : α → Build β} (hx : Edits x) (hf : ∀ a, Edits (f a)) :
    Edits (x >>= f) := by
  intro c hc
  have hfirst := hx c hc
  rw [run_bind]
  cases hrun : c.run x with
  | mk result c' =>
    rw [hrun] at hfirst
    cases result with
    | error e => exact hfirst
    | ok a => exact hfirst.trans (hf a c' (hc.edits hfirst))

theorem ask_bind {question : Circuit → Result α} {f : α → Build β}
    (hf : ∀ (c : Circuit) a, c.Base → question c = .ok a →
      Relation.ReflTransGen Edit c (c.run (f a)).2) : Edits (Circuit.ask question >>= f) := by
  intro c hc
  rw [run_ask_bind]
  cases h : question c with
  | error e => exact .refl
  | ok a => exact hf c a hc h

theorem map {x : Build α} (f : α → β) (hx : Edits x) : Edits (f <$> x) := by
  rw [← bind_pure_comp]
  exact hx.bind fun _ => .pure _

theorem seqRight {x : Build α} (hx : Edits x) (b : β) : Edits (x *> Pure.pure b) := by
  rw [seqRight_eq_bind]
  exact hx.bind fun _ => .pure b

theorem forM {xs : List α} {f : α → Build PUnit} (hf : ∀ x, Edits (f x)) : Edits (xs.forM f) := by
  induction xs with
  | nil => exact .pure _
  | cons x xs ih => exact (hf x).bind fun _ => ih

end Edits

theorem parent_isSome_of_childReference (hc : c.Base) {parent : NodeId} {name reference : String}
    (h : c.childReference parent name = .ok reference) : (c.component? parent).isSome := by
  rw [childReference] at h
  split at h
  · exact absurd h throw_ne_ok
  · split at h
    · rename_i hroot
      exact hroot ▸ hc.root
    · obtain ⟨p, hp, _⟩ := bind_eq_ok.1 h
      exact Option.isSome_iff_exists.2 ⟨p, component_eq_ok.1 hp⟩

theorem run_addChild (n : Node) (parent : NodeId) (hn : n.parent = some parent)
    (hp : (c.component? parent).isSome) :
    c.run (addChild n) = (.ok c.nextNode, (c.pushNode n).editComponent parent fun p =>
      { p with children := p.children ++ [c.nextNode] }) := by
  obtain ⟨p, hp⟩ := Option.isSome_iff_exists.1 ((Grows.pushNode n).component_isSome hp)
  rw [addChild, run_bind, run_addNode]
  dsimp only
  rw [hn]
  dsimp only
  rw [run_bind, run_changeComponent, component_eq_ok.2 hp]
  rfl

theorem edits_addComponent (parent : NodeId) (name function : String) (kind : ComponentKind)
    (connectivity : Option ConnectivityId) :
    Edits (addComponent parent name function kind connectivity) := by
  intro c hc
  rw [addComponent, run_ask_bind]
  cases hreference : c.childReference parent name with
  | error e => exact .refl
  | ok reference =>
    dsimp only
    rw [run_ask_bind]
    cases hcomponent : c.newComponent parent reference function kind connectivity with
    | error e => exact .refl
    | ok p =>
      obtain ⟨hname, hparent, _, hfresh⟩ := newComponent_eq_ok hcomponent
      have hp := parent_isSome_of_childReference hc hreference
      dsimp only
      rw [run_addChild (.component p) parent hparent hp]
      exact .single (.child (n := .component p) (hname ▸ hreference) hparent hfresh hp)

theorem edits_addFilter (parent : NodeId) (name function : String)
    (connectivity : Option ConnectivityId) :
    Edits (addFilter parent name function connectivity) := by
  intro c hc
  rw [addFilter, run_ask_bind]
  cases hreference : c.childReference parent name with
  | error e => exact .refl
  | ok reference =>
    have hp := parent_isSome_of_childReference hc hreference
    have hadd : Relation.ReflTransGen Edit c (c.run (addChild
        (.filter { reference, function, connectivity, parent := some parent }))).2 := by
      rw [run_addChild _ parent rfl hp]
      exact .single (.child hreference rfl ⟨rfl, rfl, rfl⟩ hp)
    cases connectivity with
    | none => exact hadd
    | some id =>
      dsimp only
      rw [run_ask_bind]
      split
      · exact hadd
      · exact .refl

theorem edits_addCandidate (F : NodeId) (connectivity : ConnectivityId) :
    Edits (addCandidate F connectivity) := by
  intro c hc
  rw [addCandidate, run_ask_bind]
  cases hF : c.filter F with
  | error e => exact .refl
  | ok f =>
    dsimp only
    rw [run_ask_bind]
    cases hp : c.newComponent (f.parent.getD root) f.reference f.function .part
        (some connectivity) with
    | error e => exact .refl
    | ok p =>
      obtain ⟨hname, hparent, hkind, hfresh⟩ := newComponent_eq_ok hp
      rw [filter_eq_ok] at hF
      have hpush := filter_eq_ok.2 (node?_pushNode_of_some (m := .component p) hF)
      dsimp only
      rw [run_bind, run_addNode]
      dsimp only
      rw [run_ask_bind, hpush]
      exact .single (.candidate hF hname hparent (by simp [Component.isPart, hkind]) hfresh)

theorem edits_linkTo (F other : NodeId) : Edits (linkTo F other) := by
  intro c hc
  rw [linkTo, run_ask_bind]
  cases hF : c.filter F with
  | error e => exact .refl
  | ok f =>
    dsimp only
    split
    · exact .single (.link (filter_eq_ok.1 hF))
    · exact .refl

theorem edits_changeAncillary (id : NodeId) (a : Ancillary) :
    Edits (changeComponent id fun n => { n with ancillary := some a }) := by
  intro c hc
  rw [run_changeComponent]
  split
  · exact .single .ancillary
  · exact .refl

theorem edits_setAncillary (id : NodeId) (a : Ancillary) : Edits (setAncillary id a) := by
  rw [setAncillary]
  split
  · exact (Edits.ask _).bind fun _ => edits_changeAncillary id a
  · exact edits_changeAncillary id a

theorem run_activate {i : InterfaceRef} (hi : (c.interface? i).isSome) (more : Connections) :
    c.run (activate i more) = (.ok (), c.editInterface i (·.activate more)) := by
  obtain ⟨x, hx⟩ := Option.isSome_iff_exists.1 hi
  rw [activate, run_changeInterface, interface_eq_ok.2 hx]

theorem run_deactivate {e : InterfacePinId × PinUse} (he : (c.interface? e.2.interface).isSome) :
    c.run (deactivate e.1 e.2) = (.ok (), c.release e) := by
  obtain ⟨x, hx⟩ := Option.isSome_iff_exists.1 he
  rw [deactivate, run_changeInterface, interface_eq_ok.2 hx]
  rfl

/-- A fragment without connections is wired as a whole or not at all. -/
theorem edits_tryDeduce (c : Circuit) (id : FragmentId)
    (hbare : ∀ f, c.fragment? id = some f → f.source.connections = ∅) :
    Relation.ReflTransGen Edit c (c.run (tryDeduce id)).2 := by
  rw [tryDeduce, run_ask_bind]
  cases hf : c.fragment id with
  | error e => exact .refl
  | ok f =>
    dsimp only
    rw [run_ask_bind]
    cases hn : c.node f.source.node with
    | error e => exact .refl
    | ok n =>
      cases n with
      | filter g => exact .refl
      | component p =>
        dsimp only
        rw [run_ask_bind]
        cases hdeduce : f.deduce c f.source.node with
        | error e => exact .refl
        | ok answer =>
          cases answer with
          | deferred why => exact .refl
          | resolved w =>
            rw [fragment_eq_ok] at hf
            have hsound := Fragment.sound_of_deduce hdeduce
            have htarget := (grows_activate w.sourceInterface w.pairing.source).interface_isSome
              hsound.target
            have hp : (c.component? f.source.node).isSome := by
              rw [component?_eq_some.2 (node_eq_ok.1 hn)]
              rfl
            dsimp only
            rw [run_bind, run_activate hsound.source]
            dsimp only
            rw [run_bind, run_activate htarget]
            exact .single (.wire hf (hbare f hf) hp hdeduce)

theorem adaptedInterface_eq_ok {f : Fragment} {pins : SortedMap InterfacePinId InterfacePinId}
    {type : InterfaceTypeId} {base x : ComponentInterface}
    (h : c.adaptedInterface f pins type base = .ok x) : x.uses = ∅ ∧ x.active = false := by
  obtain ⟨assignments, _, h⟩ := bind_eq_ok.1 h
  obtain rfl := pure_eq_ok.1 h
  exact ⟨rfl, rfl⟩

theorem edits_adaptInterface (f : Fragment) (side : Side) (a : Adaptation) :
    Edits (adaptInterface f side a) := by
  rw [adaptInterface]
  refine (Edits.ask _).bind fun n => ?_
  cases n with
  | filter g => exact .pure _
  | component p =>
    refine (Edits.ask _).bind fun name => (Edits.ask _).bind fun type =>
      (Edits.ask _).bind fun present => ?_
    split
    · exact .pure _
    · refine (Edits.ask _).bind fun i => (Edits.ask _).bind fun base => ?_
      refine .ask_bind fun c x hc hx => ?_
      obtain ⟨huses, hactive⟩ := adaptedInterface_eq_ok hx
      rw [run_changeComponent]
      split
      · exact .single (.adapt huses hactive)
      · exact .refl

/-- What is done with a fragment once its interfaces are there. -/
def record (f : Fragment) : Build FragmentId := do
  let id : FragmentId := ⟨(← get).fragments.size⟩
  modify fun c => { c with fragments := c.fragments.push f }
  let owner ← ask (·.node f.source.node)
  putNode f.source.node (owner.require id)
  tryDeduce id
  return id

theorem edits_record {f : Fragment} (hsource : f.source.connections = ∅)
    (htarget : f.target.connections = ∅) : Edits (record f) := by
  intro c hc
  rw [record, run_bind, run_get]
  dsimp only
  rw [run_bind, run_modify]
  change Relation.ReflTransGen Edit c ((c.pushFragment f).run (ask (·.node f.source.node) >>= _)).2
  have hnode : (c.pushFragment f).node f.source.node = c.node f.source.node := rfl
  rw [run_ask_bind, hnode]
  cases hn : c.node f.source.node with
  | error e =>
    refine .single (.stray hsource htarget ?_)
    cases hnone : c.node? f.source.node with
    | none => rfl
    | some n =>
      rw [node_eq_ok.2 hnone] at hn
      cases hn
  | ok owner =>
    have hrequire : Edit c ((c.pushFragment f).setNode f.source.node
        (owner.require c.nextFragment)) := .require hsource htarget (node_eq_ok.1 hn)
    refine .trans (.single hrequire) ?_
    change Relation.ReflTransGen Edit _ (((c.pushFragment f).setNode f.source.node
      (owner.require c.nextFragment)).run (tryDeduce c.nextFragment >>= fun _ => Pure.pure _)).2
    rw [run_bind_pure]
    refine edits_tryDeduce _ _ fun g hg => ?_
    change (c.pushFragment f).fragment? c.nextFragment = some g at hg
    rw [fragment?_pushFragment, if_pos rfl] at hg
    exact Option.some.inj hg ▸ hsource

theorem edits_addFragment {f : Fragment} (hsource : f.source.connections = ∅)
    (htarget : f.target.connections = ∅) : Edits (addFragment f) := by
  rw [addFragment]
  refine (Edits.ask _).bind fun _ => ?_
  split
  · exact (edits_adaptInterface _ _ _).bind fun _ => (edits_adaptInterface _ _ _).bind fun _ =>
      edits_record hsource htarget
  · exact edits_record hsource htarget

theorem edits_require (r : Requirement) : Edits (Circuit.require r) := by
  rw [Circuit.require]
  refine .ask_bind fun c f hc hf => ?_
  rw [Requirement.fragment] at hf
  split at hf
  · exact absurd hf throw_ne_ok
  · obtain rfl := pure_eq_ok.1 hf
    exact edits_addFragment rfl rfl c hc

/-- A traversal whose steps all succeed changes the circuit as a fold does. -/
theorem run_forM {xs : List α} {b : α → Build PUnit} (g : Circuit → α → Circuit)
    (P : Circuit → α → Prop) (keep : ∀ c x y, P c y → P (g c x) y)
    (step : ∀ c x, P c x → c.run (b x) = (.ok ⟨⟩, g c x)) (hxs : ∀ x ∈ xs, P c x) :
    c.run (xs.forM b) = (.ok ⟨⟩, xs.foldl g c) := by
  induction xs generalizing c with
  | nil => rfl
  | cons x xs ih =>
    change c.run (b x >>= fun _ => xs.forM b) = _
    rw [run_bind, step c x (hxs x List.mem_cons_self)]
    exact ih fun y hy => keep c x y (hxs y (List.mem_cons_of_mem x hy))

def releaseUnder (key : InterfacePinId) (c : Circuit) (u : PinUse) : Circuit := c.release (key, u)

theorem run_deactivateAll {key : InterfacePinId} {us : List PinUse}
    (h : ∀ u ∈ us, (c.interface? u.interface).isSome) :
    c.run (us.forM (deactivate key)) = (.ok ⟨⟩, us.foldl (releaseUnder key) c) :=
  run_forM (releaseUnder key) (fun c u => (c.interface? u.interface).isSome)
    (fun _ u _ hv => (grows_release (key, u)).interface_isSome hv)
    (fun _ u hu => run_deactivate (e := (key, u)) hu) h

theorem grows_releaseUnder (key : InterfacePinId) (us : List PinUse) :
    c.Grows (us.foldl (releaseUnder key) c) := by
  induction us generalizing c with
  | nil => exact .refl c
  | cons u us ih => exact (grows_release (key, u)).trans ih

theorem run_releaseAll {connections : List (InterfacePinId × List PinUse)}
    (h : ∀ e ∈ connections, ∀ u ∈ e.2, (c.interface? u.interface).isSome) :
    c.run (connections.forM fun (key, uses) => uses.forM (deactivate key)) =
      (.ok ⟨⟩, (connections.flatMap fun e => e.2.map (e.1, ·)).foldl release c) := by
  rw [List.foldl_flatMap]
  simp only [List.foldl_map]
  exact run_forM (fun c (e : InterfacePinId × List PinUse) => e.2.foldl (releaseUnder e.1) c)
    (fun c e => ∀ u ∈ e.2, (c.interface? u.interface).isSome)
    (fun _ x _ hy u hu => (grows_releaseUnder x.1 x.2).interface_isSome (hy u hu))
    (fun _ _ hx => run_deactivateAll hx) h

theorem any_stale_iff {f : Fragment} :
    (f.source.connections.uses ++ f.target.connections.uses).any (fun u =>
      u.interface.component ∉ [f.source.node, f.target.node]) = true ↔ f.Stale := by
  simp only [List.any_eq_true, Fragment.mem_uses_iff, decide_eq_true_eq, Fragment.Stale]
  constructor
  · rintro ⟨_, ⟨e, he, rfl⟩, haway⟩
    exact ⟨e, he, haway⟩
  · rintro ⟨e, he, haway⟩
    exact ⟨e.2, ⟨e, he, rfl⟩, haway⟩

theorem run_forgetStale (hc : c.Base) {id : FragmentId} {f : Fragment}
    (hf : c.fragment? id = some f) :
    c.run (forgetStale id) = (.ok ⟨⟩, if f.Stale then c.unwired id f else c) := by
  rw [forgetStale, run_ask_bind, fragment_eq_ok.2 hf]
  dsimp only
  split
  · rename_i hstale
    rw [if_pos (any_stale_iff.1 hstale), run_bind, run_changeFragment]
    dsimp only
    rw [run_releaseAll]
    · rw [List.flatMap_append]
      rfl
    · intro e he u hu
      refine hc.placed id f hf (e.1, u) ?_
      rw [Fragment.entries, Connections.entries, Connections.entries, ← List.flatMap_append]
      exact List.mem_flatMap.2 ⟨e, he, List.mem_map_of_mem hu⟩
  · rename_i hstale
    rw [if_neg fun h => hstale (any_stale_iff.2 h)]
    rfl

theorem edits_forgetStale (id : FragmentId) : Edits (forgetStale id) := by
  intro c hc
  cases hf : c.fragment? id with
  | none =>
    rw [forgetStale, run_ask_bind]
    cases h : c.fragment id with
    | error e => exact .refl
    | ok f =>
      rw [fragment_eq_ok, hf] at h
      cases h
  | some f =>
    rw [run_forgetStale hc hf]
    dsimp only
    split
    · rename_i hstale
      exact .single (.unwire hf hstale)
    · exact .refl

theorem edits_repair (id : FragmentId) : Edits (repair id) := by
  rw [repair]
  refine (edits_forgetStale id).bind fun _ => .ask_bind fun c f hc hf => ?_
  split
  · rename_i hempty
    refine edits_tryDeduce c id fun g hg => ?_
    rw [fragment_eq_ok.1 hf] at hg
    exact Option.some.inj hg ▸ SortedMap.eq_empty_of_isEmpty hempty
  · exact .refl

theorem filterOf_eq_ok {F x : NodeId} {f : Filter} :
    c.filterOf F x = .ok f ↔ c.node? F = some (.filter f) ∧ x ∈ f.feasible := by
  rw [filterOf, bind_eq_ok]
  constructor
  · rintro ⟨g, hg, h⟩
    split at h
    · rename_i hx
      obtain rfl := pure_eq_ok.1 h
      exact ⟨filter_eq_ok.1 hg, hx⟩
    · exact absurd h throw_ne_ok
  · rintro ⟨hf, hx⟩
    exact ⟨f, filter_eq_ok.2 hf, if_pos hx⟩

theorem run_relink (F x link : NodeId) :
    c.run (relink F x link) = (.ok ⟨⟩, c.relinked F x link) := by
  rw [relink, run_modify, relinked]
  cases c.node? link with
  | none => rfl
  | some n => cases n <;> rfl

theorem run_relinkAll (F x : NodeId) (links : List NodeId) :
    c.run (links.forM (relink F x)) = (.ok ⟨⟩, links.foldl (relinked F x) c) :=
  run_forM (relinked F x) (fun _ _ => True) (fun _ _ _ _ => trivial)
    (fun _ _ _ => run_relink F x _) fun _ _ => trivial

/-- Once the filter is off its parent's children, a resolution comes to the repairs. -/
theorem run_resolveSwapped {F x : NodeId} {f : Filter} (hc : c.Base)
    (hfilter : c.node? F = some (.filter f)) (hx : x ∈ f.feasible) :
    (c.swapped f.parent F x).run (do
      f.links.forM (relink F x)
      let touched := (← get).touching F
      modify fun c => { c with fragments := c.fragments.map (retarget F x) }
      changeComponent x fun n =>
        { n with parent := f.parent, requirements := n.requirements ++ f.requirements }
      touched.forM repair) = (c.resolved F x f).run ((c.touching F).forM repair) := by
  have hgrows : c.Grows (f.links.foldl (relinked F x) (c.swapped f.parent F x)) :=
    (grows_swapped f.parent F x).trans (grows_relinkAll F x f.links)
  have hcandidate := (hgrows.trans (.fragments _ ((f.links.foldl (relinked F x)
    (c.swapped f.parent F x)).fragments.map (retarget F x)))).component_isSome
      ((hc.filters F f hfilter).1 x hx)
  obtain ⟨p, hp⟩ := Option.isSome_iff_exists.1 hcandidate
  have htouching : (f.links.foldl (relinked F x) (c.swapped f.parent F x)).touching F =
      c.touching F := by
    rw [touching, touching, fragments_relinkAll, fragments_swapped]
  rw [run_bind, run_relinkAll]
  dsimp only
  rw [run_bind, run_get]
  dsimp only
  rw [run_bind, run_modify]
  dsimp only
  rw [run_bind, run_changeComponent, component_eq_ok.2 hp, htouching]
  rfl

/-- A resolution replaces the filter everywhere, and then repairs the fragments that ended there. -/
theorem run_resolveFilter {F x : NodeId} {f : Filter} (hc : c.Base)
    (hfilter : c.node? F = some (.filter f)) (hx : x ∈ f.feasible) :
    c.run (resolveFilter F x) = (c.resolved F x f).run ((c.touching F).forM repair) := by
  have hrest := run_resolveSwapped hc hfilter hx
  have hparent := (hc.filters F f hfilter).2
  rw [resolveFilter, run_ask_bind, filterOf_eq_ok.2 ⟨hfilter, hx⟩]
  dsimp only
  rw [swapped] at hrest
  cases hp : f.parent with
  | none =>
    rw [hp] at hrest
    exact hrest
  | some parent =>
    obtain ⟨p, hparent⟩ := Option.isSome_iff_exists.1 (hparent parent hp)
    rw [hp] at hrest
    dsimp only
    rw [run_bind, run_changeComponent, component_eq_ok.2 hparent]
    exact hrest

theorem edits_resolveFilter (F x : NodeId) : Edits (resolveFilter F x) := by
  intro c hc
  cases hF : c.filterOf F x with
  | error e =>
    rw [resolveFilter, run_ask_bind, hF]
  | ok f =>
    obtain ⟨hfilter, hx⟩ := filterOf_eq_ok.1 hF
    have hresolve : Edit c (c.resolved F x f) := .resolve hfilter hx
    rw [run_resolveFilter hc hfilter hx]
    exact (Edits.forM edits_repair _ (hc.edit hresolve)).head hresolve

theorem edits_linkFilters (a b : NodeId) : Edits (linkFilters a b) := by
  rw [linkFilters]
  exact (edits_linkTo a b).bind fun _ => edits_linkTo b a

theorem edits_addAncillary (parent : NodeId) (name function : String)
    (connectivity : ConnectivityId) (a : Ancillary) :
    Edits (addAncillary parent name function connectivity a) := by
  rw [addAncillary]
  refine (edits_addComponent parent name function .part connectivity).bind fun id => ?_
  exact (edits_setAncillary id a).bind fun _ => .pure id

theorem run_perform_require {c : Circuit} (r : Requirement) :
    (c.run (Instruction.require r).perform).2 = (c.run (Circuit.require r)).2 := by
  rw [Instruction.perform, ← bind_pure_comp, run_bind]
  rcases c.run (Circuit.require r) with ⟨_ | _, _⟩ <;> rfl

theorem edits_perform (i : Instruction) : Edits i.perform := by
  cases i with
  | part parent name function id =>
    exact .map _ (edits_addComponent parent name function .part (some id))
  | subcircuit parent name function connectivity =>
    exact .map _ (edits_addComponent parent name function .subcircuit connectivity)
  | filter parent name function connectivity =>
    exact .map _ (edits_addFilter parent name function connectivity)
  | candidate F id => exact .map _ (edits_addCandidate F id)
  | link a b => exact .seqRight (edits_linkFilters a b) _
  | resolve F x => exact .seqRight (edits_resolveFilter F x) _
  | ancillary parent name function id role =>
    exact .map _ (edits_addAncillary parent name function id role)
  | setAncillary id role => exact .seqRight (edits_setAncillary id role) _
  | require r => exact .map _ (edits_require r)

theorem edits_after (hc : c.Base) (steps : List Instruction) :
    Relation.ReflTransGen Edit c (c.after steps) := by
  induction steps generalizing c with
  | nil => exact .refl
  | cons step steps ih =>
    have hfirst := edits_perform step c hc
    exact hfirst.trans (ih (hc.edits hfirst))

/-- What holds of every circuit with the root alone and is kept by every edit holds of every
reachable circuit. -/
theorem Reachable.induction {P : Circuit → Prop} (hnew : ∀ catalog, P (new catalog))
    (hedit : ∀ c c', c.Base → P c → Edit c c' → P c') (hc : c.Reachable) : P c := by
  obtain ⟨catalog, steps, rfl⟩ := hc
  have hedits := edits_after (base_new catalog) steps
  generalize (new catalog).after steps = c at hedits
  have hkept : c.Base ∧ P c := by
    induction hedits with
    | refl => exact ⟨base_new catalog, hnew catalog⟩
    | tail _ hlast ih => exact ⟨ih.1.edit hlast, hedit _ _ ih.1 ih.2 hlast⟩
  exact hkept.2

theorem Reachable.base (hc : c.Reachable) : c.Base :=
  hc.induction base_new fun _ _ hbase _ hedit => hbase.edit hedit

end Circuit
end BoardNets
