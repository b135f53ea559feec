import BoardNets.Proofs.Circuit.Activity
import BoardNets.Proofs.Circuit.Confluence
import BoardNets.Proofs.Circuit.Duties
import BoardNets.Proofs.Circuit.Frame
import BoardNets.Proofs.Circuit.Unfiltered
import BoardNets.Proofs.Fragment.Extension

/-! Requirements in any order. Without filters and adapters, each requirement becomes the fragment
that is drawn for it in the finished frame, whatever was there when it came in. So circuits that are
built by the same steps, but for the order of their requirements, have one frame and the same
fragments, filed at the same nodes, and their interfaces have the same uses. -/
namespace BoardNets

def Requirement.drawn (r : Requirement) (c : Circuit) : Result Fragment := do
  (← r.fragment).completed c

namespace Circuit

namespace Instruction

def requirement? : Instruction → Option Requirement
  | .require r => some r
  | _ => none

def role? : Instruction → Option Ancillary
  | .ancillary _ _ _ _ a | .setAncillary _ a => some a
  | _ => none

/-- Steps without filters and adapters. -/
def IsDirect : Instruction → Prop
  | .part .. | .subcircuit .. | .ancillary .. | .setAncillary .. => True
  | .require r => r.adapter = none
  | .filter .. | .candidate .. | .link .. | .resolve .. => False

instance : DecidablePred IsDirect := fun i => by
  cases i <;> unfold IsDirect <;> infer_instance

def IsPlain : Instruction → Prop
  | .part .. | .subcircuit .. => True
  | .ancillary _ _ _ _ a | .setAncillary _ a => a.isLocal = true
  | .require r => r.adapter = none
  | .filter .. | .candidate .. | .link .. | .resolve .. => False

instance : DecidablePred IsPlain := fun i => by
  cases i <;> unfold IsPlain <;> infer_instance

theorem IsPlain.isDirect {i : Instruction} (h : i.IsPlain) : i.IsDirect := by
  cases i with
  | ancillary | setAncillary => trivial
  | part | subcircuit | require | filter | candidate | link | resolve => exact h

theorem IsPlain.isLocal {i : Instruction} (h : i.IsPlain) {a : Ancillary} (ha : i.role? = some a) :
    a.isLocal = true := by
  cases i with
  | ancillary | setAncillary =>
    obtain rfl := Option.some.inj ha
    exact h
  | part | subcircuit | require | filter | candidate | link | resolve => cases ha

end Instruction

/-- The circuit after building steps that all succeed. -/
def build (c : Circuit) (steps : List Instruction) : Result Circuit :=
  steps.foldlM (fun c step => match c.run step.perform with
    | (.ok _, c') => .ok c'
    | (.error e, _) => .error e) c

variable {α : Type} {c c₀ c' : Circuit} {step : Instruction} {steps : List Instruction}

theorem build_cons : c.build (step :: steps) = .ok c' ↔
    ∃ a c₁, c.run step.perform = (.ok a, c₁) ∧ c₁.build steps = .ok c' := by
  rw [build, List.foldlM_cons, bind_eq_ok]
  constructor
  · rintro ⟨c₁, hstep, h⟩
    split at hstep
    · rename_i a _ hrun
      obtain rfl := Except.ok.inj hstep
      exact ⟨a, _, hrun, h⟩
    · cases hstep
  · rintro ⟨a, c₁, hrun, h⟩
    exact ⟨c₁, by rw [hrun], h⟩

namespace Framed

theorem map {β : Type} {x : Build α} (f : α → β) (hx : Framed x) : Framed (f <$> x) := by
  rw [map_eq_pure_bind]
  exact hx.bind fun _ => .pure _

theorem seqRight {β : Type} {x : Build α} (hx : Framed x) (b : β) :
    Framed (x *> Pure.pure b) := by
  rw [seqRight_eq_bind]
  exact hx.bind fun _ => .pure b

theorem perform (hdirect : step.IsDirect) (hstep : step.requirement? = none) :
    Framed step.perform := by
  cases step with
  | part parent name function id => exact .map _ (addComponent parent name function .part (some id))
  | subcircuit parent name function connectivity =>
    exact .map _ (addComponent parent name function .subcircuit connectivity)
  | ancillary parent name function id a =>
    exact .map _ (addAncillary parent name function id a)
  | setAncillary x a => exact .seqRight (setAncillary x a) _
  | require r => cases hstep
  | filter | candidate | link | resolve => exact hdirect.elim

end Framed

namespace Extends

theorem frame (h : c.Extends c') : c.frame.Extends c'.frame where
  catalog := h.catalog
  fragments := rfl
  nodes := by
    intro x n hn
    rw [node?_frame] at hn
    obtain ⟨m, hm, rfl⟩ := Option.map_eq_some_iff.1 hn
    obtain ⟨m', hm', hlike⟩ := h.nodes x m hm
    refine ⟨m'.frame, by rw [node?_frame, hm', Option.map_some], ?_⟩
    cases hlike with
    | component children ancillary => exact .component children ancillary
    | filter f => exact .filter _

theorem refl (c : Circuit) : c.Extends c := ⟨rfl, rfl, fun _ n hn => ⟨n, hn, .refl n⟩⟩

end Extends

/-- A property of circuits that new components, new children and certain roles do not spoil. -/
structure Additive (roles : Ancillary → Prop) (P : Circuit → Prop) : Prop where
  push : ∀ {c : Circuit} {p : Component}, (Node.component p).Fresh → P c →
    P (c.pushNode (.component p))
  child : ∀ {c : Circuit} (x y : NodeId), P c →
    P (c.editComponent x fun p => { p with children := p.children ++ [y] })
  role : ∀ {c : Circuit} (x : NodeId) {a : Ancillary}, roles a → P c →
    P (c.editComponent x fun p => { p with ancillary := some a })

namespace Additive

variable {roles : Ancillary → Prop} {P : Circuit → Prop} (hP : Additive roles P)
include hP

theorem keeps_addComponent (parent : NodeId) (name function : String) (kind : ComponentKind)
    (connectivity : Option ConnectivityId) :
    Keeps P (addComponent parent name function kind connectivity) := by
  intro c hc
  rw [addComponent]
  refine Keeps.ask_bind hc fun reference _ => Keeps.ask_bind hc fun p hp => ?_
  have hpush := hP.push (newComponent_eq_ok hp).2.2.2 hc
  rw [addChild, run_bind, run_addNode]
  dsimp only
  split
  · rw [run_bind_pure, run_changeComponent]
    split
    · exact hP.child _ _ hpush
    · exact hpush
  · exact hpush

theorem keeps_setAncillary (x : NodeId) {a : Ancillary} (ha : roles a) :
    Keeps P (setAncillary x a) := by
  have hchange : Keeps P (changeComponent x fun n => { n with ancillary := some a }) := by
    intro c hc
    rw [run_changeComponent]
    split
    · exact hP.role x ha hc
    · exact hc
  rw [setAncillary]
  split
  · exact (Keeps.ask _).bind fun _ => hchange
  · exact hchange

theorem keeps_perform (hdirect : step.IsDirect) (hroles : ∀ a, step.role? = some a → roles a)
    (hstep : step.requirement? = none) : Keeps P step.perform := by
  cases step with
  | part parent name function id =>
    exact .map _ (hP.keeps_addComponent parent name function .part (some id))
  | subcircuit parent name function connectivity =>
    exact .map _ (hP.keeps_addComponent parent name function .subcircuit connectivity)
  | ancillary parent name function id a =>
    refine .map _ ?_
    rw [addAncillary]
    refine (hP.keeps_addComponent parent name function .part (some id)).bind fun x => ?_
    exact (hP.keeps_setAncillary x (hroles a rfl)).bind fun _ => .pure x
  | setAncillary x a => exact .seqRight (hP.keeps_setAncillary x (hroles a rfl)) _
  | require r => cases hstep
  | filter | candidate | link | resolve => exact hdirect.elim

end Additive

theorem Additive.extends {roles : Ancillary → Prop} (c₀ : Circuit) :
    Additive roles c₀.Extends where
  push := fun _ hc => hc.trans (.pushNode _)
  child := fun _ _ hc => hc.trans (.editComponent fun p => ⟨_, p.ancillary, rfl⟩)
  role := fun _ _ _ hc => hc.trans (.editComponent fun p => ⟨p.children, _, rfl⟩)

theorem Additive.sameDuties {roles : Ancillary → Prop} (c₀ : Circuit) :
    Additive roles c₀.SameDuties where
  push := fun hfresh hc => hc.trans (.pushNode hfresh)
  child := fun _ _ hc => hc.trans (.editComponent fun _ => rfl)
  role := fun _ _ _ hc => hc.trans (.editComponent fun _ => rfl)

def LocalRoles (c : Circuit) : Prop :=
  ∀ x p a, c.component? x = some p → p.ancillary = some a → a.isLocal = true

theorem Additive.localRoles : Additive (·.isLocal = true) LocalRoles where
  push := by
    intro c p hfresh hc x q a hq ha
    rw [component?_eq_some, node?_pushNode] at hq
    split at hq
    · obtain rfl := Node.component.inj (Option.some.inj hq)
      rw [hfresh.2.2.2] at ha
      cases ha
    · exact hc x q a (component?_eq_some.2 hq) ha
  child := by
    intro c x y hc z q a hq ha
    rw [component?_editComponent] at hq
    split at hq
    · obtain ⟨p, hp, rfl⟩ := Option.map_eq_some_iff.1 hq
      exact hc z p a hp ha
    · exact hc z q a hq ha
  role := by
    intro c x b hb hc z q a hq ha
    rw [component?_editComponent] at hq
    split at hq
    · obtain ⟨p, hp, rfl⟩ := Option.map_eq_some_iff.1 hq
      exact Option.some.inj ha ▸ hb
    · exact hc z q a hq ha

theorem LocalRoles.of_frame (h : c'.frame = c.frame) (hc : c.LocalRoles) : c'.LocalRoles := by
  intro x p a hp ha
  have hrole := component_of_frame h (F := fun p? => p? >>= Component.ancillary) (fun _ => rfl) x
  rw [hp] at hrole
  obtain ⟨q, hq, hqa⟩ := Option.bind_eq_some_iff.1 (hrole.symm.trans ha)
  exact hc x q a hq hqa

theorem localRoles_new (catalog : Catalog) : (new catalog).LocalRoles := by
  rintro ⟨k⟩ p a hp ha
  rw [component?_eq_some] at hp
  cases k with
  | zero =>
    cases hp
    cases ha
  | succ k => cases hp

theorem Additive.unfiltered {roles : Ancillary → Prop} : Additive roles Unfiltered where
  push := by
    intro c p _ hc F f hF
    rw [node?_pushNode] at hF
    split at hF
    · cases hF
    · exact hc F f hF
  child := by
    intro c x y hc F f hF
    obtain ⟨g, hg, _⟩ := filter_of_choices (view_editComponent (fun _ => by rfl) F) hF
    exact hc F g hg
  role := by
    intro c x a _ hc F f hF
    obtain ⟨g, hg, _⟩ := filter_of_choices (view_editComponent (fun _ => by rfl) F) hF
    exact hc F g hg

theorem Unfiltered.of_frame (h : c'.frame = c.frame) (hc : c.Unfiltered) : c'.Unfiltered := by
  intro F f hF
  have hfilter := read_of_frame h (F := fun n => (choices n).isSome) (fun n => by cases n <;> rfl) F
  rw [hF] at hfilter
  cases hn : c.node? F with
  | none =>
    rw [hn] at hfilter
    cases hfilter
  | some n =>
    cases n with
    | component p =>
      rw [hn] at hfilter
      cases hfilter
    | filter g => exact hc F g hn

theorem unfiltered_new (catalog : Catalog) : (new catalog).Unfiltered := by
  rintro ⟨k⟩ f hF
  cases k <;> cases hF

/-- A requirement adds its fragment to the list of its source, and the frame stays. -/
structure Admits (c c' : Circuit) (r : Requirement) (f g : Fragment) : Prop where
  fragment : r.fragment = .ok f
  anchored : f.Anchored c
  completed : f.completed c = .ok g
  frame : c'.frame = c.frame
  fragments : c'.fragments = c.fragments.push g
  requirements : ∀ x, c'.requirementsOf x =
    if x = g.source.node then c.requirementsOf x ++ [c.nextFragment] else c.requirementsOf x

theorem admits_of_run {r : Requirement} (hr : r.adapter = none) {id : FragmentId}
    (h : c.run (Circuit.require r) = (.ok id, c')) : ∃ f g, c.Admits c' r f g := by
  obtain ⟨f, hf, hrecord⟩ := record_of_require hr h
  rw [Circuit.require, hf] at h
  obtain ⟨_, hsame, h⟩ := run_ask_bind_eq_ok.1 h
  obtain rfl := Except.ok.inj hsame
  obtain ⟨n, htarget, -⟩ := run_ask_bind_eq_ok.1 h
  obtain ⟨-, owner, g, howner, hg, hrenews⟩ := renews_record hrecord
  have hframe : ((c.pushFragment f).setNode f.source.node
      (owner.require c.nextFragment)).frame = c.frame :=
    frame_setNode (c := c.pushFragment f) howner (by cases owner <;> rfl)
  refine ⟨f, g, hf, fun side => ?_, hg, hrenews.tree.frame.trans hframe, ?_, fun x => ?_⟩
  · cases side with
    | source => exact has_of_node (node_eq_ok.2 howner)
    | target => exact has_of_node htarget
  · refine Array.ext_getElem? fun k => ?_
    have hk := hrenews.fragments ⟨k⟩
    change c'.fragments[k]? = if _ then some g else (c.pushFragment f).fragment? ⟨k⟩ at hk
    rw [hk, fragment?_pushFragment, Array.getElem?_push, nextFragment]
    simp only [FragmentId.mk.injEq]
    split <;> rfl
  · rw [(Fragment.ends_completed hg).1, ← requirementsOf_require howner]
    exact hrenews.tree.requirementsOf x

/-- Fragments are filed at their sources, and nowhere else. -/
def Filed (c : Circuit) : Prop := ∀ id x, id ∈ c.requirementsOf x ↔
  ∃ f, c.fragment? id = some f ∧ f.source.node = x

theorem filed_new (catalog : Catalog) : (new catalog).Filed := by
  intro id x
  have hnone : (new catalog).fragment? id = none := rfl
  have hempty : (new catalog).requirementsOf x = [] := by
    obtain ⟨k⟩ := x
    cases k <;> rfl
  simp [hnone, hempty]

theorem Admits.filed {r : Requirement} {f g : Fragment} (h : c.Admits c' r f g)
    (hc : c.Filed) : c'.Filed := by
  intro id x
  have hold : c.nextFragment ∉ c.requirementsOf x := by
    rw [hc]
    rintro ⟨_, hf, _⟩
    rw [fragment?_nextFragment] at hf
    cases hf
  rw [h.requirements, fragment?_of_push h.fragments]
  by_cases hid : id = c.nextFragment
  · subst hid
    by_cases hx : x = g.source.node <;> simp [hx, hold, eq_comm]
  · rw [if_neg hid, ← hc]
    split <;> simp [hid]

structure Orderly (c : Circuit) : Prop where
  reachable : c.Reachable
  filed : c.Filed
  roles : c.LocalRoles
  unfiltered : c.Unfiltered

theorem orderly_new (catalog : Catalog) : (new catalog).Orderly :=
  ⟨⟨catalog, [], rfl⟩, filed_new catalog, localRoles_new catalog, unfiltered_new catalog⟩

structure Draws (c c' : Circuit) (steps : List Instruction) : Prop where
  orderly : c'.Orderly
  frame : c.frame.build (steps.filter (·.requirement?.isNone)) = .ok c'.frame
  larger : c.frame.Extends c'.frame
  fragments : ∃ drawn, (steps.filterMap Instruction.requirement?).mapM (·.drawn c'.frame) =
    .ok drawn ∧ c'.fragments.toList = c.fragments.toList ++ drawn

theorem completed_frame (f : Fragment) : f.completed c.frame = f.completed c :=
  Fragment.completed_congr (outline_eq_of_nodes rfl fun x => by
    rw [node?_frame, Option.map_map]
    exact Option.map_congr fun n _ => Node.outline_frame n)

theorem anchored_frame {f : Fragment} (h : f.Anchored c) : f.Anchored c.frame := by
  intro side
  rw [Has, node?_frame, Option.isSome_map]
  exact h side

section Step

variable {c₁ : Circuit} {r : Requirement} {f g : Fragment}

theorem Orderly.built {a : Addition} (hc : c.Orderly) (hplain : step.IsPlain)
    (hstep : step.requirement? = none) (hrun : c.run step.perform = (.ok a, c₁)) :
    c₁.Orderly ∧ c.Extends c₁ := by
  have hreachable := hc.reachable.perform step
  have hkeeps {P : Circuit → Prop} (hP : Additive (·.isLocal = true) P) : Keeps P step.perform :=
    hP.keeps_perform hplain.isDirect (fun _ => hplain.isLocal) hstep
  have hextends := hkeeps (.extends c) c (.refl c)
  have hduties := hkeeps (.sameDuties c) c (.refl c)
  have hroles := hkeeps .localRoles c hc.roles
  have hunfiltered := hkeeps .unfiltered c hc.unfiltered
  rw [hrun] at hreachable hextends hduties hroles hunfiltered
  refine ⟨⟨hreachable, fun id x => ?_, hroles, hunfiltered⟩, hextends⟩
  have hfragment : c₁.fragment? id = c.fragment? id :=
    congrArg (fun fragments : Array Fragment => fragments[id.index]?) hextends.fragments
  rw [hduties.requirements, hfragment]
  exact hc.filed id x

theorem Orderly.admits (hc : c.Orderly) (hreachable : c₁.Reachable) (h : c.Admits c₁ r f g) :
    c₁.Orderly :=
  ⟨hreachable, h.filed hc.filed, hc.roles.of_frame h.frame, hc.unfiltered.of_frame h.frame⟩

theorem Draws.built {a : Addition} (h : c₁.Draws c' steps) (hplain : step.IsPlain)
    (hstep : step.requirement? = none) (hrun : c.run step.perform = (.ok a, c₁))
    (hextends : c.Extends c₁) : c.Draws c' (step :: steps) := by
  obtain ⟨horderly, hframe, hlarger, drawn, hdrawn, hfragments⟩ := h
  have hframed := Framed.perform hplain.isDirect hstep c
  rw [hrun] at hframed
  refine ⟨horderly, ?_, hextends.frame.trans hlarger, drawn, ?_, ?_⟩
  · rw [List.filter_cons_of_pos (by simp [hstep])]
    exact build_cons.2 ⟨a, _, hframed, hframe⟩
  · rwa [List.filterMap_cons_none hstep]
  · rw [hfragments, hextends.fragments]

/-- A requirement leaves the frame as it is, and its fragment is the one that is drawn at last. -/
theorem Draws.admits (h : c₁.Draws c' steps) (hadmits : c.Admits c₁ r f g) :
    c.Draws c' (.require r :: steps) := by
  obtain ⟨horderly, hframe, hlarger, drawn, hdrawn, hfragments⟩ := h
  rw [hadmits.frame] at hframe hlarger
  refine ⟨horderly, hframe, hlarger, g :: drawn, ?_, ?_⟩
  · have hg : f.completed c'.frame = .ok g := Fragment.completed_mono hlarger
      (anchored_frame hadmits.anchored) ((completed_frame f).trans hadmits.completed)
    have hdraw : r.drawn c'.frame = .ok g := bind_eq_ok.2 ⟨f, hadmits.fragment, hg⟩
    rw [List.filterMap_cons_some (f := Instruction.requirement?) rfl, List.mapM_cons]
    exact bind_eq_ok.2 ⟨g, hdraw, bind_eq_ok.2 ⟨drawn, hdrawn, rfl⟩⟩
  · rw [hfragments, hadmits.fragments, Array.toList_push, List.append_assoc]
    rfl

end Step

/-- Steps other than requirements work on the frame, and each requirement adds the fragment that is
drawn for it in the frame that is there in the end. -/
theorem draws_of_build (hsteps : ∀ step ∈ steps, step.IsPlain) (hc : c.Orderly)
    (h : c.build steps = .ok c') : c.Draws c' steps := by
  induction steps generalizing c with
  | nil =>
    obtain rfl := pure_eq_ok.1 h
    exact ⟨hc, rfl, .refl _, [], rfl, (List.append_nil _).symm⟩
  | cons step steps ih =>
    obtain ⟨hplain, hrest⟩ := List.forall_mem_cons.1 hsteps
    obtain ⟨a, c₁, hrun, hbuild⟩ := build_cons.1 h
    cases hstep : step.requirement? with
    | none =>
      obtain ⟨horderly, hextends⟩ := hc.built hplain hstep hrun
      exact (ih hrest horderly hbuild).built hplain hstep hrun hextends
    | some r =>
      obtain rfl : step = .require r := by
        cases step <;> cases hstep
        rfl
      have hreachable := hc.reachable.perform (.require r)
      rw [hrun] at hreachable
      rw [Instruction.perform, ← bind_pure_comp] at hrun
      obtain ⟨id, c₂, hrun, hpure⟩ := run_bind_eq_ok.1 hrun
      obtain rfl := eq_of_run_pure hpure
      obtain ⟨f, g, hadmits⟩ := admits_of_run hplain hrun
      exact (ih hrest (hc.admits hreachable hadmits) hbuild).admits hadmits

/-- Plain steps in two orders that differ in the places of the requirements only. -/
structure Reordering (steps steps' : List Instruction) : Prop where
  plain : ∀ step ∈ steps, step.IsPlain
  perm : steps'.Perm steps
  rest : steps'.filter (·.requirement?.isNone) = steps.filter (·.requirement?.isNone)

/-- Circuits over one frame with the same fragments, in whatever order. -/
structure Reordered (c c' : Circuit) : Prop where
  orderly : c.Orderly ∧ c'.Orderly
  frame : c'.frame = c.frame
  fragments : c'.fragments.toList.Perm c.fragments.toList

theorem Reordered.symm (h : c.Reordered c') : c'.Reordered c :=
  ⟨h.orderly.symm, h.frame.symm, h.fragments.symm⟩

end Circuit

/-- Questions in another order have their answers in another order. -/
theorem perm_of_mapM {ε α β : Type} {f : α → Except ε β} {xs xs' : List α} {ys ys' : List β}
    (h : xs.mapM f = .ok ys) (h' : xs'.mapM f = .ok ys') (hxs : xs'.Perm xs) : ys'.Perm ys := by
  have hmap {xs : List α} {ys : List β} (h : xs.mapM f = .ok ys) :
      ys.map some = xs.map fun x => (f x).toOption :=
    map_of_mapM h fun x y hy => by rw [hy, Except.toOption]
  refine (List.map_perm_map_iff (Option.some_injective β)).1 ?_
  rw [hmap h, hmap h']
  exact hxs.map _

namespace Circuit

variable {c c' : Circuit}

/-- Requirements in another order make the same fragments over the same frame. -/
theorem Reordering.reordered {catalog : Catalog} {steps steps' : List Instruction}
    (h : Reordering steps steps') (hc : (new catalog).build steps = .ok c)
    (hc' : (new catalog).build steps' = .ok c') : c.Reordered c' := by
  have hplain : ∀ step ∈ steps', step.IsPlain := fun step hstep =>
    h.plain step (h.perm.mem_iff.1 hstep)
  have hdraws := draws_of_build h.plain (orderly_new catalog) hc
  have hdraws' := draws_of_build hplain (orderly_new catalog) hc'
  have hframe : c'.frame = c.frame := by
    have hbuild' := hdraws'.frame
    rw [h.rest, hdraws.frame] at hbuild'
    exact (Except.ok.inj hbuild').symm
  obtain ⟨drawn, hdrawn, hfragments⟩ := hdraws.fragments
  obtain ⟨drawn', hdrawn', hfragments'⟩ := hdraws'.fragments
  rw [hframe] at hdrawn'
  refine ⟨⟨hdraws.orderly, hdraws'.orderly⟩, hframe, ?_⟩
  rw [hfragments, hfragments']
  exact (perm_of_mapM hdrawn hdrawn' (h.perm.filterMap _)).append_left _

namespace Reordered

variable (h : c.Reordered c')
include h

/-- Interfaces have the same uses under each key, in whatever order. -/
theorem perm_under (i : InterfaceRef) (key : InterfacePinId) :
    ((c'.usesOf i).under key).Perm ((c.usesOf i).under key) := by
  have hheld : (c'.heldOn i key).Perm (c.heldOn i key) := (h.fragments.flatMap_right _).filter _
  exact (h.orderly.2.reachable.balanced.perm_heldOn i key).trans
    (hheld.trans (h.orderly.1.reachable.balanced.perm_heldOn i key).symm)

/-- A fragment that a node requires, the same node requires in the other circuit. -/
theorem requires {id : FragmentId} {f : Fragment} {x : NodeId} (hf : c.fragment? id = some f)
    (hid : id ∈ c.requirementsOf x) :
    ∃ id', c'.fragment? id' = some f ∧ id' ∈ c'.requirementsOf x := by
  have hmem : f ∈ c'.fragments.toList := by
    rw [h.fragments.mem_iff, Array.mem_toList_iff]
    exact Array.mem_of_getElem? hf
  obtain ⟨k, hk⟩ := List.mem_iff_getElem?.1 hmem
  obtain ⟨g, hg, hx⟩ := (h.orderly.1.filed id x).1 hid
  obtain rfl := Option.some.inj (hf.symm.trans hg)
  have hf' : c'.fragment? ⟨k⟩ = some f := by rwa [Array.getElem?_toList] at hk
  exact ⟨⟨k⟩, hf', (h.orderly.2.filed _ x).2 ⟨f, hf', hx⟩⟩

end Reordered
end Circuit
end BoardNets
