import BoardNets.Proofs.Circuit.Duties
import BoardNets.Proofs.Netlist.Partition

/-! Who owns a fragment. A requirement puts a fragment on the list of its source, if this is there.
A candidate that takes the place of a filter inherits what is on the list of the filter, which keeps
its list all the same: a filter that is resolved again has another heir. So the nodes that have a
fragment on their lists are its first source and the heirs of that source since, each as often as it
has inherited, and its source is the first of the heirs, if there is one. -/
namespace BoardNets
namespace Circuit

variable {c c' d : Circuit}

/-- The candidate that the step puts in the place of the filter. -/
def heir? (c : Circuit) (F : NodeId) : Instruction → Option NodeId
  | .resolve G x => if G = F ∧ (c.filterOf G x).isOk then some x else none
  | _ => none

/-- The candidates that take the place of the filter, one after another. -/
def heirs (F : NodeId) : Circuit → List Instruction → List NodeId
  | _, [] => []
  | c, step :: steps => (c.heir? F step).toList ++ heirs F (c.run step.perform).2 steps

variable {F x : NodeId} {step : Instruction}

theorem heir?_eq_some :
    c.heir? F step = some x ↔ step = .resolve F x ∧ ∃ k, c.filterOf F x = .ok k := by
  cases step with
  | resolve G y =>
    rw [heir?]
    constructor
    · intro h
      split at h
      · rename_i hboth
        obtain ⟨rfl, hok⟩ := hboth
        obtain rfl := Option.some.inj h
        exact ⟨rfl, isOk_iff.1 hok⟩
      · cases h
    · rintro ⟨hstep, hok⟩
      obtain ⟨rfl, rfl⟩ := Instruction.resolve.inj hstep
      exact if_pos ⟨rfl, isOk_iff.2 hok⟩
  | _ => simp [heir?]

theorem after_append (c : Circuit) (before rest : List Instruction) :
    c.after (before ++ rest) = (c.after before).after rest := List.foldl_append

theorem heirs_append (c : Circuit) (before rest : List Instruction) :
    c.heirs F (before ++ rest) = c.heirs F before ++ (c.after before).heirs F rest := by
  induction before generalizing c with
  | nil => rfl
  | cons step before ih =>
    rw [List.cons_append, heirs, ih, heirs, List.append_assoc]
    rfl

theorem isSome_heir (hc : c.Base) (h : c.heir? F step = some x) : (c.component? x).isSome := by
  obtain ⟨_, k, hk⟩ := heir?_eq_some.1 h
  obtain ⟨hF, hx⟩ := filterOf_eq_ok.1 hk
  exact (hc.filters F k hF).1 x hx

theorem isSome_heirs (hc : c.Base) {steps : List Instruction} (hx : x ∈ c.heirs F steps) :
    ((c.after steps).component? x).isSome := by
  induction steps generalizing c with
  | nil => cases hx
  | cons step steps ih =>
    have hstep := edits_perform step c hc
    have hnext := hc.edits hstep
    rw [heirs, List.mem_append, Option.mem_toList] at hx
    rcases hx with hx | hx
    · have hcomponent := isSome_component_edits hstep (isSome_heir hc hx)
      exact isSome_component_edits (edits_after hnext steps) hcomponent
    · exact ih hnext hx

theorem filter_of_heirs (hc : c.Base) {steps : List Instruction} (h : c.heirs F steps ≠ []) :
    ∃ k, (c.after steps).node? F = some (.filter k) := by
  induction steps generalizing c with
  | nil => exact absurd rfl h
  | cons step steps ih =>
    have hstep := edits_perform step c hc
    have hnext := hc.edits hstep
    cases hheir : c.heir? F step with
    | none => exact ih hnext (by simpa [heirs, hheir] using h)
    | some x =>
      obtain ⟨_, k, hk⟩ := heir?_eq_some.1 hheir
      obtain ⟨k', hk'⟩ := edits_keep_filter hstep (filterOf_eq_ok.1 hk).1
      exact edits_keep_filter (edits_after hnext steps) hk'

theorem heirs_of_component (hc : c.Base) {steps : List Instruction}
    (hx : ((c.after steps).component? x).isSome) : c.heirs x steps = [] := by
  by_contra h
  obtain ⟨k, hk⟩ := filter_of_heirs hc h
  rw [component?, hk] at hx
  cases hx

theorem requirementsOf_heir {k : Filter} (hF : c.node? F = some (.filter k))
    (hx : (c.component? x).isSome) :
    (c.resolved F x k).requirementsOf x = c.requirementsOf x ++ c.requirementsOf F := by
  have hreplaced : requirementsAt (((k.links.foldl (relinked F x)
      (c.swapped k.parent F x)).retargeted F x).node? x) = c.requirementsOf x :=
    view_replaced (V := requirementsAt) (fun _ _ => rfl) (fun _ _ => rfl) k.parent F x k.links x
  have hgrows : c.Grows ((k.links.foldl (relinked F x)
      (c.swapped k.parent F x)).retargeted F x) :=
    ((grows_swapped _ _ _).trans (grows_relinkAll _ _ _)).trans (.fragments _ _)
  obtain ⟨p, hp⟩ := Option.isSome_iff_exists.1 (hgrows.component_isSome hx)
  rw [component?_eq_some.1 hp] at hreplaced
  have hinherits : (c.resolved F x k).component? x =
      some { p with parent := k.parent, requirements := p.requirements ++ k.requirements } := by
    rw [resolved, inherited, component?_editComponent, if_pos rfl, hp, Option.map_some]
  rw [requirementsOf_eq (component?_eq_some.1 hinherits), ← hreplaced, requirementsOf_eq hF]
  rfl

def Listed (c : Circuit) : Prop := ∀ x, ∀ id ∈ c.requirementsOf x, (c.fragment? id).isSome

theorem listed_new (catalog : Catalog) : (new catalog).Listed := by
  intro x id hid
  have hnone : (new catalog).requirementsOf x = [] := by
    obtain ⟨k⟩ := x
    cases k <;> rfl
  rw [hnone] at hid
  cases hid

theorem Listed.perform (hlisted : c.Listed) (hc : c.Base) (step : Instruction) :
    (c.run step.perform).2.Listed := by
  intro x id hid
  have hold (y : NodeId) (h : id ∈ c.requirementsOf y) :=
    isSome_fragment_perform (hlisted y id h) step
  have houtcome := outcome hc step
  generalize (c.run step.perform).2 = c' at hid hold houtcome ⊢
  cases houtcome with
  | quiet hduties _ =>
    rw [hduties.requirements] at hid
    exact hold x hid
  | @resolved F y k _ hfilter hduties =>
    obtain ⟨hF, hy⟩ := filterOf_eq_ok.1 hfilter
    rw [hduties.requirements] at hid
    by_cases hxy : x = y
    · rw [hxy, requirementsOf_heir hF ((hc.filters F k hF).1 y hy), List.mem_append] at hid
      rcases hid with hid | hid
      · exact hold y hid
      · exact hold F hid
    · rw [requirementsOf_resolved hxy] at hid
      exact hold x hid
  | @required r f d _ owner _ _ hduties howner hrecorded hrenews =>
    rw [hrecorded.requirements, recorded, requirementsOf_require howner] at hid
    split at hid
    · rw [List.mem_append, List.mem_singleton, hduties.requirements] at hid
      rcases hid with hid | rfl
      · exact hold x hid
      · rw [hrenews.fragments, if_pos rfl, Option.isSome_some]
    · exact hold x (hduties.requirements x ▸ hid)
  | stray _ _ hduties _ => exact hold x (hduties.requirements x ▸ hid)

theorem listed_after (hlisted : c.Listed) (hc : c.Base) (steps : List Instruction) :
    (c.after steps).Listed := by
  induction steps generalizing c with
  | nil => exact hlisted
  | cons step steps ih =>
    exact ih (hlisted.perform hc step) (hc.edits (edits_perform step c hc))

theorem ends_pushFragment {f : Fragment} {id : FragmentId} :
    (c.pushFragment f).ends id = if id = c.nextFragment then some f.ends else c.ends id := by
  rw [ends, fragment?_pushFragment]
  split <;> rfl

theorem ends_resolved {k : Filter} {id : FragmentId} : (c.resolved F x k).ends id =
    (c.ends id).map fun e => (replace F x e.1, replace F x e.2) := by
  rw [ends, fragment?_resolved, ends, Option.map_map, Option.map_map]
  rfl

/-- What a fragment that began at a source, listed there or not, has come to, given the heirs of the
source since. -/
structure Descends (c : Circuit) (id : FragmentId) (origin : NodeId) (listed : Bool)
    (heirs : List NodeId) : Prop where
  source : (c.ends id).map Prod.fst = some (heirs.headD origin)
  counts : ∀ x, (c.requirementsOf x).count id = if listed then (origin :: heirs).count x else 0

namespace Descends

variable {id : FragmentId} {s : NodeId} {listed : Bool} {heirs : List NodeId}

theorem congr (h : c.Descends id s listed heirs) (hsame : c.SameDuties c') :
    c'.Descends id s listed heirs where
  source := by rw [hsame.ends, h.source]
  counts := fun x => by rw [hsame.requirements, h.counts]

theorem ne_nextFragment (h : c.Descends id s listed heirs) : id ≠ c.nextFragment := by
  rintro rfl
  have hsource := h.source
  rw [ends, fragment?_nextFragment] at hsource
  cases hsource

theorem pushFragment (h : c.Descends id s listed heirs) (f : Fragment) :
    (c.pushFragment f).Descends id s listed heirs where
  source := by rw [ends_pushFragment, if_neg h.ne_nextFragment, h.source]
  counts := h.counts

theorem recorded (h : c.Descends id s listed heirs) {f : Fragment} {owner : Node}
    (howner : c.node? f.source.node = some owner) :
    (c.recorded f owner).Descends id s listed heirs where
  source := (h.pushFragment f).source
  counts := by
    intro x
    rw [← h.counts, Circuit.recorded, requirementsOf_require howner]
    split
    · rw [List.count_append, List.count_singleton]
      simp [h.ne_nextFragment.symm]
    · rfl

/-- The heir of the source is its last heir; what other filters have on their lists is no concern of
the fragment. -/
theorem resolved (h : c.Descends id s listed heirs) {k : Filter}
    (hheirs : ∀ y ∈ heirs, (c.component? y).isSome) (hF : c.node? F = some (.filter k))
    (hx : (c.component? x).isSome) :
    (c.resolved F x k).Descends id s listed (heirs ++ if F = s then [x] else []) := by
  have hfilter : F ∉ heirs := by
    intro hmem
    have hcomponent := hheirs F hmem
    rw [component?, hF] at hcomponent
    cases hcomponent
  constructor
  case source =>
    have hsource : ((c.resolved F x k).ends id).map Prod.fst =
        ((c.ends id).map Prod.fst).map (replace F x) := by
      rw [ends_resolved, Option.map_map, Option.map_map]
      rfl
    rw [hsource, h.source, Option.map_some, replace]
    cases heirs with
    | nil =>
      by_cases hFs : F = s
      · simp [hFs]
      · simp [hFs, Ne.symm hFs]
    | cons y rest =>
      have hy : y ≠ F := fun heq => hfilter (heq ▸ List.mem_cons_self)
      simp [hy]
  case counts =>
    have hinherited : (c.requirementsOf F).count id = if listed ∧ F = s then 1 else 0 := by
      rw [h.counts, List.count_cons, List.count_eq_zero_of_not_mem hfilter]
      by_cases hFs : F = s
      · simp [hFs]
      · simp [hFs, Ne.symm hFs]
    intro y
    by_cases hyx : y = x
    · subst hyx
      rw [requirementsOf_heir hF hx, List.count_append, hinherited, h.counts]
      cases listed
      · simp
      · by_cases hFs : F = s
        · simp [hFs, List.count_cons]
          omega
        · simp [hFs]
    · rw [requirementsOf_resolved hyx, h.counts]
      by_cases hFs : F = s
      · simp [hFs, List.count_cons, Ne.symm hyx]
      · simp [hFs]

theorem perform (h : c.Descends id s listed heirs) (hc : c.Base)
    (hheirs : ∀ y ∈ heirs, (c.component? y).isSome) (step : Instruction) :
    (c.run step.perform).2.Descends id s listed (heirs ++ (c.heir? s step).toList) := by
  have houtcome := outcome hc step
  generalize (c.run step.perform).2 = c' at houtcome ⊢
  cases houtcome with
  | quiet hduties hnever =>
    have hnone : c.heir? s step = none := by
      refine Option.eq_none_iff_forall_ne_some.2 fun x hx => ?_
      obtain ⟨hstep, k, hk⟩ := heir?_eq_some.1 hx
      exact hnever s x k hstep hk
    rw [hnone, Option.toList_none, List.append_nil]
    exact h.congr hduties
  | @resolved F x k _ hfilter hduties =>
    obtain ⟨hF, hx⟩ := filterOf_eq_ok.1 hfilter
    have hheir : (c.heir? s (.resolve F x)).toList = if F = s then [x] else [] := by
      rw [heir?, isOk_iff.2 ⟨k, hfilter⟩]
      by_cases hFs : F = s
      · simp [hFs]
      · simp [hFs]
    rw [hheir]
    exact (h.resolved hheirs hF ((hc.filters F k hF).1 x hx)).congr hduties
  | @required r _ _ _ _ _ _ hduties howner hrecorded _ =>
    have hnone : c.heir? s (.require r) = none := rfl
    rw [hnone, Option.toList_none, List.append_nil]
    exact ((h.congr hduties).recorded howner).congr hrecorded
  | @stray r _ _ _ _ hduties _ =>
    have hnone : c.heir? s (.require r) = none := rfl
    rw [hnone, Option.toList_none, List.append_nil]
    exact (h.congr hduties).pushFragment _

theorem after (h : c.Descends id s listed heirs) (hc : c.Base)
    (hheirs : ∀ y ∈ heirs, (c.component? y).isSome) (steps : List Instruction) :
    (c.after steps).Descends id s listed (heirs ++ c.heirs s steps) := by
  induction steps generalizing c heirs with
  | nil =>
    rw [Circuit.heirs, List.append_nil]
    exact h
  | cons step steps ih =>
    have hedits := edits_perform step c hc
    have hnext : ∀ y ∈ heirs ++ (c.heir? s step).toList,
        ((c.run step.perform).2.component? y).isSome := by
      intro y hy
      rw [List.mem_append, Option.mem_toList] at hy
      rcases hy with hy | hy
      · exact isSome_component_edits hedits (hheirs y hy)
      · exact isSome_component_edits hedits (isSome_heir hc hy)
    have hrest := ih (h.perform hc hheirs step) (hc.edits hedits) hnext
    rwa [List.append_assoc] at hrest

end Descends

/-- Fragments come from requirements, and are listed at their sources if these are there. -/
theorem descends_of_new (hc : c.Base) (hlisted : c.Listed) {id : FragmentId}
    (hnone : c.fragment? id = none) (hsome : ((c.run step.perform).2.fragment? id).isSome) :
    ∃ r, step = .require r ∧ (c.run step.perform).2.Descends id r.source.node
      ((c.run step.perform).2.node? r.source.node).isSome [] := by
  have houtcome := outcome hc step
  generalize (c.run step.perform).2 = c' at houtcome hsome ⊢
  have hsource {r : Requirement} {f : Fragment} (hr : r.fragment = .ok f) :
      f.source.node = r.source.node := congrArg Prod.fst (Requirement.bare_and_ends hr).2
  have hunlisted (x : NodeId) : (c.requirementsOf x).count id = 0 := by
    refine List.count_eq_zero_of_not_mem fun hid => ?_
    have hfound := hlisted x id hid
    rw [hnone] at hfound
    cases hfound
  cases houtcome with
  | quiet hduties _ =>
    rw [hduties.isSome_fragment, hnone] at hsome
    cases hsome
  | resolved _ hduties =>
    rw [hduties.isSome_fragment, fragment?_resolved, hnone] at hsome
    cases hsome
  | @required r f d _ owner hr _ hduties howner hrecorded hrenews =>
    rw [hrecorded.isSome_fragment] at hsome
    have hid := hduties.eq_nextFragment hnone hsome
    have hthere : (c'.node? r.source.node).isSome = true := by
      have hnode := congrArg Option.isSome (hrenews.tree.nodes r.source.node)
      rw [unused, unused, Option.isSome_map, Option.isSome_map] at hnode
      rw [hnode, ← hsource hr, recorded, node?_setNode, if_pos rfl, node?_pushFragment, howner]
      rfl
    refine ⟨r, rfl, ?_, fun x => ?_⟩
    · rw [hrecorded.ends]
      change ((d.pushFragment f).ends id).map Prod.fst = _
      rw [ends_pushFragment, if_pos hid, ← hsource hr]
      rfl
    · rw [hrecorded.requirements, recorded, requirementsOf_require howner, hduties.requirements,
        hthere, hsource hr]
      by_cases hx : x = r.source.node
      · rw [if_pos hx, List.count_append, hunlisted, ← hid]
        simp [hx]
      · simp [hx, Ne.symm hx, hunlisted]
  | @stray r f d hr _ hduties hmissing =>
    have hid := hduties.eq_nextFragment hnone hsome
    have hgone : ((d.pushFragment f).node? r.source.node).isSome = false := by
      rw [node?_pushFragment, ← hsource hr, hmissing]
      rfl
    refine ⟨r, rfl, ?_, fun x => ?_⟩
    · rw [ends_pushFragment, if_pos hid, ← hsource hr]
      rfl
    · change (d.requirementsOf x).count id = _
      rw [hduties.requirements, hunlisted, hgone]
      rfl

theorem exists_step_of_new {id : FragmentId} {steps : List Instruction}
    (hnone : c.fragment? id = none) (hsome : ((c.after steps).fragment? id).isSome) :
    ∃ before step rest, steps = before ++ step :: rest ∧ (c.after before).fragment? id = none ∧
      (((c.after before).run step.perform).2.fragment? id).isSome := by
  induction steps generalizing c with
  | nil =>
    change (c.fragment? id).isSome at hsome
    rw [hnone] at hsome
    cases hsome
  | cons step steps ih =>
    cases hnext : (c.run step.perform).2.fragment? id with
    | some f =>
      have hfirst : ((c.run step.perform).2.fragment? id).isSome := by
        rw [hnext, Option.isSome_some]
      exact ⟨[], step, steps, rfl, hnone, hfirst⟩
    | none =>
      obtain ⟨before, later, rest, rfl, hbefore, hafter⟩ := ih hnext hsome
      exact ⟨step :: before, later, rest, rfl, hbefore, hafter⟩

/-- The filter has been replaced in the course of the steps. -/
def Replaced (c : Circuit) (steps : List Instruction) (F : NodeId) : Prop := c.heirs F steps ≠ []

/-- Of all nodes but those that have been replaced, the source of the fragment has it on its list,
once, and no other one has it. -/
def OwnedOnce (c : Circuit) (replaced : NodeId → Prop) (id : FragmentId) (f : Fragment) : Prop :=
  ¬replaced f.source.node ∧
    ∀ x, ¬replaced x → (c.requirementsOf x).count id = if x = f.source.node then 1 else 0

namespace Descends

variable {id : FragmentId} {s y : NodeId} {listed : Bool} {heirs rest : List NodeId}
  {replaced : NodeId → Prop} {f : Fragment}

theorem source_eq (h : c.Descends id s listed heirs) (hf : c.fragment? id = some f) :
    f.source.node = heirs.headD s := by
  have hends := h.source
  rw [ends, hf] at hends
  exact Option.some.inj hends

theorem listed_of_ownedOnce (h : c.Descends id s listed heirs)
    (howned : c.OwnedOnce replaced id f) : listed = true := by
  have hown := howned.2 f.source.node howned.1
  rw [if_pos rfl, h.counts] at hown
  cases listed
  · simp at hown
  · rfl

theorem ownedOnce_nil_iff (h : c.Descends id s listed []) (hf : c.fragment? id = some f) :
    c.OwnedOnce replaced id f ↔ listed = true ∧ ¬replaced s := by
  have hsource : f.source.node = s := h.source_eq hf
  constructor
  · exact fun howned => ⟨h.listed_of_ownedOnce howned, hsource ▸ howned.1⟩
  · rintro ⟨hlisted, hlive⟩
    refine ⟨hsource ▸ hlive, fun x _ => ?_⟩
    rw [h.counts, if_pos hlisted, hsource]
    by_cases hx : x = s
    · simp [hx]
    · simp [hx, Ne.symm hx]

theorem ownedOnce_cons_iff (h : c.Descends id s listed (y :: rest))
    (hf : c.fragment? id = some f) (hheirs : ∀ z ∈ y :: rest, ¬replaced z) (hs : replaced s) :
    c.OwnedOnce replaced id f ↔ listed = true ∧ rest = [] := by
  have hsource : f.source.node = y := h.source_eq hf
  have hne {x : NodeId} (hlive : ¬replaced x) : s ≠ x := fun heq => hlive (heq ▸ hs)
  constructor
  · intro howned
    have hlisted := h.listed_of_ownedOnce howned
    refine ⟨hlisted, ?_⟩
    cases rest with
    | nil => rfl
    | cons z rest =>
      -- the second heir has the fragment too, or the first one has it twice
      have hz := hheirs z (by simp)
      have hcount := howned.2 z hz
      rw [h.counts, if_pos hlisted, hsource] at hcount
      by_cases hzy : z = y
      · simp [hzy, hzy ▸ hne hz] at hcount
      · simp [hzy, hne hz, Ne.symm hzy] at hcount
  · rintro ⟨hlisted, rfl⟩
    refine ⟨hsource ▸ hheirs y (by simp), fun x hlive => ?_⟩
    rw [h.counts, if_pos hlisted, hsource]
    by_cases hx : x = y
    · simp [hx, hx ▸ hne hlive]
    · simp [hx, Ne.symm hx, hne hlive]

/-- A fragment has one owner if it was listed at first, and its first source has had one heir since,
or none at all. -/
theorem ownedOnce_iff (h : c.Descends id s listed heirs) (hf : c.fragment? id = some f)
    (hheirs : ∀ y ∈ heirs, ¬replaced y) (hs : heirs ≠ [] → replaced s) :
    c.OwnedOnce replaced id f ↔ listed = true ∧ (¬replaced s ∨ heirs.length = 1) := by
  cases heirs with
  | nil =>
    rw [h.ownedOnce_nil_iff hf]
    simp
  | cons y rest =>
    have hreplaced : replaced s := hs (by simp)
    rw [h.ownedOnce_cons_iff hf hheirs hreplaced]
    simp [hreplaced]

end Descends

end Circuit

/-- A fragment is on the list of the source that it was required with, if this was there, and on
those of the heirs that this source has had since, the first of which is its source now. So it has
one owner unless its source was missing, or has had more than one heir, or was a filter that had
been replaced before and had none. -/
theorem ownership (catalog : Catalog) (steps : List Circuit.Instruction) (id : FragmentId)
    (f : Fragment) (hf : ((Circuit.new catalog).after steps).fragment? id = some f) :
    ∃ before r rest born, steps = before ++ .require r :: rest ∧
      born = (Circuit.new catalog).after (before ++ [.require r]) ∧
      ((Circuit.new catalog).after before).fragment? id = none ∧ (born.fragment? id).isSome ∧
      f.source.node = (born.heirs r.source.node rest).headD r.source.node ∧
      (∀ x, (((Circuit.new catalog).after steps).requirementsOf x).count id =
        if (born.node? r.source.node).isSome then
          (r.source.node :: born.heirs r.source.node rest).count x else 0) ∧
      (((Circuit.new catalog).after steps).OwnedOnce ((Circuit.new catalog).Replaced steps) id f ↔
        (born.node? r.source.node).isSome ∧
          (¬(Circuit.new catalog).Replaced steps r.source.node ∨
            (born.heirs r.source.node rest).length = 1)) := by
  have hnew := Circuit.base_new catalog
  have hstart : (Circuit.new catalog).fragment? id = none := rfl
  obtain ⟨before, step, rest, rfl, hnone, hsome⟩ :=
    Circuit.exists_step_of_new hstart (by rw [hf, Option.isSome_some])
  have hbefore := hnew.edits (Circuit.edits_after hnew before)
  have hlisted := Circuit.listed_after (Circuit.listed_new catalog) hnew before
  obtain ⟨r, rfl, hdescends⟩ := Circuit.descends_of_new hbefore hlisted hnone hsome
  have hborn : (Circuit.new catalog).after (before ++ [.require r]) =
      (((Circuit.new catalog).after before).run (Circuit.Instruction.require r).perform).2 :=
    Circuit.after_append _ before [.require r]
  have hsplit : before ++ .require r :: rest = (before ++ [.require r]) ++ rest := by simp
  rw [← hborn] at hdescends hsome
  refine ⟨before, r, rest, _, rfl, rfl, hnone, hsome, ?_⟩
  have hbase := hnew.edits (Circuit.edits_after hnew (before ++ [.require r]))
  have hafter := hdescends.after hbase (by simp) rest
  rw [List.nil_append, ← Circuit.after_append, ← hsplit] at hafter
  refine ⟨hafter.source_eq hf, hafter.counts,
    hafter.ownedOnce_iff hf (fun y hy => ?_) fun hne => ?_⟩
  · have hcomponent := Circuit.isSome_heirs hbase hy
    rw [← Circuit.after_append, ← hsplit] at hcomponent
    exact fun hreplaced => hreplaced (Circuit.heirs_of_component hnew hcomponent)
  · rw [Circuit.Replaced, hsplit, Circuit.heirs_append]
    exact fun hnil => hne (List.append_eq_nil_iff.1 hnil).2

namespace Specimen

def clockOf (source target : NodeId) : Circuit.Instruction := .require {
  origin := .persisted ⟨1⟩
  function := "clock"
  source := { node := source, interface := some "CK" }
  target := { node := target, interface := some "CK" } }

def choosing : List Circuit.Instruction := [
  .filter Circuit.root "U1" "oscillator" (some oscillator),
  .candidate ⟨1⟩ oscillator,
  .candidate ⟨1⟩ oscillator,
  .part Circuit.root "U2" "pll" consumer]

def choosingOnce : List Circuit.Instruction := choosing ++ [clockOf ⟨1⟩ ⟨4⟩, .resolve ⟨1⟩ ⟨3⟩]

def choosingTwice : List Circuit.Instruction := choosingOnce ++ [.resolve ⟨1⟩ ⟨2⟩]

def choosingFirst : List Circuit.Instruction := choosing ++ [.resolve ⟨1⟩ ⟨3⟩, clockOf ⟨1⟩ ⟨4⟩]

def choosingNone : List Circuit.Instruction := choosing ++ [clockOf ⟨9⟩ ⟨4⟩]

/-- A node bears witness that the clock has not just one owner: the source if it has been replaced,
any other node by its list. -/
theorem exists_disowned {steps : List Circuit.Instruction} {x : NodeId}
    (h : (((Circuit.new catalog).after steps).fragment? ⟨0⟩).any (fun f =>
      (Circuit.new catalog).heirs f.source.node steps ≠ [] ∨
        (Circuit.new catalog).heirs x steps = [] ∧
          (((Circuit.new catalog).after steps).requirementsOf x).count ⟨0⟩ ≠
            if x = f.source.node then 1 else 0) = true) :
    ∃ f, ((Circuit.new catalog).after steps).fragment? ⟨0⟩ = some f ∧
      ¬((Circuit.new catalog).after steps).OwnedOnce
        ((Circuit.new catalog).Replaced steps) ⟨0⟩ f := by
  obtain ⟨f, hf, h⟩ := (Option.any_eq_true _ _).1 h
  rw [decide_eq_true_eq] at h
  refine ⟨f, hf, fun howned => ?_⟩
  rcases h with hreplaced | ⟨hlive, hcount⟩
  · exact howned.1 hreplaced
  · exact hcount (howned.2 x fun hreplaced => hreplaced hlive)

end Specimen

/-- The clock has one owner after the choice. -/
theorem ownership_specimen : ∃ f,
    ((Circuit.new Specimen.catalog).after Specimen.choosingOnce).fragment? ⟨0⟩ = some f ∧
      ((Circuit.new Specimen.catalog).after Specimen.choosingOnce).OwnedOnce
        ((Circuit.new Specimen.catalog).Replaced Specimen.choosingOnce) ⟨0⟩ f := by
  have hsome : (((Circuit.new Specimen.catalog).after Specimen.choosingOnce).fragment?
      ⟨0⟩).isSome = true := by decide +kernel
  obtain ⟨f, hf⟩ := Option.isSome_iff_exists.1 hsome
  obtain ⟨before, r, rest, born, hsteps, rfl, _, _, _, _, howned⟩ :=
    ownership Specimen.catalog Specimen.choosingOnce ⟨0⟩ f hf
  refine ⟨f, hf, howned.2 ?_⟩
  -- the clock is the only requirement, after four other steps
  have hbefore : before = Specimen.choosing := by
    clear howned
    rcases before with _ | ⟨_, _ | ⟨_, _ | ⟨_, _ | ⟨_, _ | ⟨_, _ | ⟨_, before⟩⟩⟩⟩⟩⟩
    all_goals simp [Specimen.choosingOnce, Specimen.choosing, Specimen.clockOf] at hsteps ⊢
    grind
  subst hbefore
  obtain ⟨hclock, hrest⟩ := List.cons.inj (List.append_cancel_left hsteps)
  obtain rfl := Circuit.Instruction.require.inj hclock
  subst hrest
  exact ⟨by decide +kernel, .inr (by decide +kernel)⟩

/-- A fragment that is required from nowhere has no owner, one whose filter is resolved twice has
two, and one that is required from a filter after its resolution belongs to the filter alone. -/
theorem fragments_without_one_owner :
    (∃ f, ((Circuit.new Specimen.catalog).after Specimen.choosingNone).fragment? ⟨0⟩ = some f ∧
      ¬((Circuit.new Specimen.catalog).after Specimen.choosingNone).OwnedOnce
        ((Circuit.new Specimen.catalog).Replaced Specimen.choosingNone) ⟨0⟩ f) ∧
    (∃ f, ((Circuit.new Specimen.catalog).after Specimen.choosingTwice).fragment? ⟨0⟩ = some f ∧
      ¬((Circuit.new Specimen.catalog).after Specimen.choosingTwice).OwnedOnce
        ((Circuit.new Specimen.catalog).Replaced Specimen.choosingTwice) ⟨0⟩ f) ∧
    ∃ f, ((Circuit.new Specimen.catalog).after Specimen.choosingFirst).fragment? ⟨0⟩ = some f ∧
      ¬((Circuit.new Specimen.catalog).after Specimen.choosingFirst).OwnedOnce
        ((Circuit.new Specimen.catalog).Replaced Specimen.choosingFirst) ⟨0⟩ f := by
  refine ⟨Specimen.exists_disowned (x := ⟨9⟩) ?_, Specimen.exists_disowned (x := ⟨2⟩) ?_,
    Specimen.exists_disowned (x := ⟨1⟩) ?_⟩
  · decide +kernel
  · decide +kernel
  · decide +kernel

end BoardNets
