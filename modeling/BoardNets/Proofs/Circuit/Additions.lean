import BoardNets.Proofs.Bus.Extension
import BoardNets.Proofs.Circuit.Forest
import BoardNets.Proofs.Net.Networks

/-! Parts added to a circuit. They stand in the tree, alone or below one another, and require
nothing, so what is in the tree besides them is what was there before. -/
namespace BoardNets
namespace Circuit

variable {c c' : Circuit} {added : List NodeId}

/-- What is in the tree of `c'` and not in `c` are the added parts, which have no nodes of `c` below
them. The nodes of `c` have the children that they had, besides added ones. -/
structure Adds (c c' : Circuit) (added : List NodeId) : Prop extends c.Extends c' where
  roles : ∀ x p p', c.component? x = some p → c'.component? x = some p' →
    p'.ancillary = p.ancillary
  children : ∀ x, c.Has x → (c'.children x).filter (c.Has ·) = c.children x
  mem_added : ∀ x, x ∈ added ↔ c'.InTree root x ∧ ¬c.Has x
  parts : ∀ x ∈ added, ∃ p, c'.component? x = some p ∧ p.isPart = true ∧ p.requirements = []
  beneath : ∀ x ∈ added, ∀ y ∈ c'.children x, ¬c.Has y

theorem flatMap_filter {α β : Type} {keep : α → Bool} {f g : α → List β} {xs : List α}
    (hin : ∀ x ∈ xs, keep x = true → f x = g x) (hout : ∀ x ∈ xs, ¬keep x = true → f x = []) :
    xs.flatMap f = (xs.filter keep).flatMap g := by
  induction xs with
  | nil => rfl
  | cons x xs ih =>
    obtain ⟨hx, hin⟩ := List.forall_mem_cons.1 hin
    obtain ⟨hx', hout⟩ := List.forall_mem_cons.1 hout
    by_cases h : keep x = true
    · rw [List.filter_cons_of_pos h, List.flatMap_cons, List.flatMap_cons, hx h, ih hin hout]
    · rw [List.filter_cons_of_neg h, List.flatMap_cons, hx' h, List.nil_append, ih hin hout]

theorem Extends.size_le (h : c.Extends c') : c.nodes.size ≤ c'.nodes.size := by
  by_contra hlt
  have hnext : c.Has c'.nextNode := by
    rw [Has, node?, nextNode, Array.getElem?_eq_getElem (Nat.lt_of_not_le hlt)]
    rfl
  have hnone := h.has hnext
  rw [Has, node?_nextNode] at hnone
  cases hnone

theorem Forest.has_of_inTree (hc : c.Forest) (hroot : c.Has root) {x : NodeId}
    (h : c.InTree root x) : c.Has x := by
  cases h with
  | root => exact hroot
  | child _ hx => exact (hc.later _ x hx).2

theorem Forest.filter_children (hc : c.Forest) (x : NodeId) :
    (c.children x).filter (c.Has ·) = c.children x :=
  List.filter_eq_self.2 fun y hy => decide_eq_true (hc.later x y hy).2

theorem not_has_nextNode : ¬c.Has c.nextNode := by
  rw [Has, node?_nextNode]
  exact Bool.false_ne_true

namespace Adds

variable (h : c.Adds c' added)
include h

theorem component_of_has {x : NodeId} (hx : c.Has x) {p' : Component}
    (hp' : c'.component? x = some p') :
    ∃ p children, c.component? x = some p ∧ p' = { p with children } := by
  obtain ⟨n, n', hn, hn', hlike⟩ := h.at_node hx
  rw [component?_eq_some, hn'] at hp'
  cases hlike with
  | @component p children ancillary =>
    obtain rfl := Node.component.inj (Option.some.inj hp')
    obtain rfl : ancillary = p.ancillary :=
      h.roles x p _ (component?_eq_some.2 hn) (component?_eq_some.2 hn')
    exact ⟨p, children, component?_eq_some.2 hn, rfl⟩
  | filter f => cases hp'

theorem mem_added_of_inTree {x y : NodeId} (hx : x ∈ added) (hy : c'.InTree x y) : y ∈ added := by
  induction hy with
  | root => exact hx
  | @child parent y _ hy ih =>
    exact (h.mem_added y).2 ⟨.child ((h.mem_added parent).1 ih).1 hy, h.beneath parent ih y hy⟩

theorem filter_walk (depth : Nat) {a : NodeId} (ha : c.Has a) (htree : c'.InTree root a) :
    ((c'.walk depth a).map (·.2)).filter (c.Has ·) =
      (c.walk depth a).map (·.2) := by
  induction depth generalizing a with
  | zero => rfl
  | succ depth ih =>
    rw [walk, walk, List.map_flatMap, List.map_flatMap, List.filter_flatMap, ← h.children a ha]
    refine flatMap_filter (fun y hy hold => ?_) fun y hy hnew => ?_
    · rw [decide_eq_true_iff] at hold
      rw [List.map_cons, List.map_cons, List.filter_cons_of_pos (by simpa using hold),
        ih hold (.child htree hy)]
    · -- an added node has only added ones below it, and all of them are left out
      rw [decide_eq_true_iff] at hnew
      have hadded : y ∈ added := (h.mem_added y).2 ⟨.child htree hy, hnew⟩
      refine List.filter_eq_nil_iff.2 fun z hz => ?_
      have hz : c'.InTree y z := inTree_of_mem_visit hz
      rw [decide_eq_true_iff]
      exact ((h.mem_added z).1 (h.mem_added_of_inTree hadded hz)).2

variable (hc : c.Forest) (hroot : c.Has root)
include hc hroot

theorem filter_below : ((c'.below root).map (·.2)).filter (c.Has ·) =
    (c.below root).map (·.2) := by
  have hsize := h.size_le
  have hlonger : c.walk (c'.nodes.size + 1) root = c.walk (c.nodes.size + 1) root :=
    hc.walk_eq (by omega) (by omega)
  rw [below, below, h.filter_walk _ hroot .root, hlonger]

theorem filter_subtree : (c'.subtree root).filter (c.Has ·) = c.subtree root := by
  rw [subtree, List.filter_cons_of_pos (by simpa using hroot), h.filter_below hc hroot, subtree]

/-- The nodes of the old tree are those of the new one that were there. -/
theorem inTree_iff {x : NodeId} : c.InTree root x ↔ c'.InTree root x ∧ c.Has x := by
  rw [← mem_subtree_iff, ← mem_subtree_iff, ← h.filter_subtree hc hroot, List.mem_filter,
    decide_eq_true_iff]

theorem filter_parts : (c'.parts root).filter (c.Has ·) = c.parts root := by
  rw [Circuit.parts, Circuit.parts, ← h.filter_subtree hc hroot, List.filter_filter,
    List.filter_filter]
  refine List.filter_congr fun x _ => ?_
  by_cases hx : c.Has x
  · simp [hx, h.isPart hx]
  · simp [hx]

/-- Without the added parts the ancillaries are the ones before, in their order. -/
theorem filter_ancillaries : c'.ancillaries.filter (c.Has ·.1) = c.ancillaries := by
  have hentry (x : NodeId) (hx : c.Has x) :
      (do
        let part ← c'.component? x
        return (x, ← part.ancillary)) =
      (do
        let part ← c.component? x
        return (x, ← part.ancillary)) := by
    cases hp' : c'.component? x with
    | some p' =>
      obtain ⟨p, children, hp, rfl⟩ := h.component_of_has hx hp'
      rw [hp]
      rfl
    | none =>
      cases hp : c.component? x with
      | none => rfl
      | some p =>
        obtain ⟨_, _, hsome⟩ := h.component hp
        exact absurd (hp'.symm.trans hsome) (Option.some_ne_none _).symm
  rw [ancillaries, ancillaries, ← h.filter_parts hc hroot, List.filter_filterMap,
    List.filterMap_filter]
  refine List.filterMap_congr fun x _ => ?_
  by_cases hx : c.Has x
  · rw [if_pos (decide_eq_true hx), ← hentry x hx]
    cases c'.component? x with
    | none => rfl
    | some p' => cases hp : p'.ancillary <;> simp [hp, hx, Option.filter]
  · rw [if_neg (by simpa using hx)]
    cases c'.component? x with
    | none => rfl
    | some p' => cases hp : p'.ancillary <;> simp [hp, hx, Option.filter]

theorem inTree_iff_or {x : NodeId} : c'.InTree root x ↔ c.InTree root x ∨ x ∈ added := by
  rw [h.inTree_iff hc hroot, h.mem_added, ← and_or_left]
  exact (and_iff_left (em _)).symm

theorem flattenedBuses {buses : List Bus} (hb : c.flattenedBuses root = .ok buses) :
    c'.flattenedBuses root = .ok buses := by
  have hdescendants (c : Circuit) : c.descendants root true = (c.below root).map (·.2) := by
    simp [descendants]
  have hkept : (c'.descendants root true).filter (c.Has ·) = c.descendants root true := by
    rw [hdescendants, hdescendants]
    exact h.filter_below hc hroot
  refine h.toExtends.buses hkept (fun x hx hnew => ?_) hb
  · have htree : c'.InTree root x := by
      rw [← mem_subtree_iff, subtree, ← hdescendants]
      exact List.mem_cons_of_mem _ hx
    have hadded : x ∈ added :=
      (h.mem_added x).2 ⟨htree, of_decide_eq_false hnew⟩
    obtain ⟨p, hp, _, hnone⟩ := h.parts x hadded
    exact ⟨p, hp, hnone⟩

theorem mem_partPins {q : ComponentPin} : q ∈ c'.partPins ↔ q ∈ c.partPins ∨
    q.component ∈ added ∧ ∃ part, c'.component? q.component = some part ∧
      ∃ pin ∈ part.pins, pin.id = q.pin := by
  rw [Circuit.mem_partPins, Circuit.mem_partPins]
  constructor
  · rintro ⟨htree, part', hpart', hkind, hpin⟩
    rcases (h.inTree_iff_or hc hroot).1 htree with hold | hadded
    · obtain ⟨part, _, hpart, rfl⟩ := h.component_of_has (hc.has_of_inTree hroot hold) hpart'
      exact .inl ⟨hold, part, hpart, hkind, hpin⟩
    · exact .inr ⟨hadded, part', hpart', hpin⟩
  · rintro (⟨hold, part, hpart, hkind, hpin⟩ | ⟨hadded, part, hpart, hpin⟩)
    · obtain ⟨children, ancillary, hpart'⟩ := h.component hpart
      exact ⟨(h.inTree_iff_or hc hroot).2 (.inl hold), _, hpart', hkind, hpin⟩
    · obtain ⟨p, hp, hkind, _⟩ := h.parts _ hadded
      obtain rfl := Option.some.inj (hpart.symm.trans hp)
      exact ⟨(h.inTree_iff_or hc hroot).2 (.inr hadded), part, hpart, hkind, hpin⟩

/-- Where there were no ancillaries, the added parts are all there are. -/
theorem mem_ancillaries (hplain : c.Plain) {e : NodeId × Ancillary} : e ∈ c'.ancillaries ↔
    e.1 ∈ added ∧ ∃ part, c'.component? e.1 = some part ∧ part.ancillary = some e.2 := by
  rw [Circuit.mem_ancillaries]
  constructor
  · rintro ⟨htree, part', hpart', hkind, ha⟩
    rcases (h.inTree_iff_or hc hroot).1 htree with hold | hadded
    · obtain ⟨part, _, hpart, rfl⟩ := h.component_of_has (hc.has_of_inTree hroot hold) hpart'
      have hnone := hplain _ part hold hpart hkind
      exact absurd (ha.symm.trans hnone) (Option.some_ne_none _)
    · exact ⟨hadded, part', hpart', ha⟩
  · rintro ⟨hadded, part, hpart, ha⟩
    obtain ⟨p, hp, hkind, _⟩ := h.parts _ hadded
    obtain rfl := Option.some.inj (hpart.symm.trans hp)
    exact ⟨(h.inTree_iff_or hc hroot).2 (.inr hadded), part, hpart, hkind, ha⟩

end Adds

namespace Adds

variable {c'' : Circuit} {more : List NodeId}

theorem perm (h : c.Adds c' added) (hperm : more.Perm added) : c.Adds c' more where
  toExtends := h.toExtends
  roles := h.roles
  children := h.children
  mem_added := fun x => hperm.mem_iff.trans (h.mem_added x)
  parts := fun x hx => h.parts x (hperm.mem_iff.1 hx)
  beneath := fun x hx => h.beneath x (hperm.mem_iff.1 hx)

theorem trans (h : c.Adds c' added) (h' : c'.Adds c'' more) (hc' : c'.Forest)
    (hroot : c'.Has root) : c.Adds c'' (added ++ more) where
  toExtends := h.toExtends.trans h'.toExtends
  roles := by
    intro x p p'' hp hp''
    obtain ⟨_, _, hp'⟩ := h.component hp
    exact (h'.roles x _ p'' hp' hp'').trans (h.roles x p _ hp hp')
  children := by
    intro x hx
    rw [← h.children x hx, ← h'.children x (h.has hx), List.filter_filter]
    refine List.filter_congr fun y _ => ?_
    by_cases hy : c.Has y
    · simp [hy, h.has hy]
    · simp [hy]
  mem_added := by
    intro x
    rw [List.mem_append, h.mem_added, h'.mem_added, h'.inTree_iff hc' hroot]
    constructor
    · rintro (⟨⟨htree, _⟩, hnew⟩ | ⟨htree, hnew⟩)
      · exact ⟨htree, hnew⟩
      · exact ⟨htree, fun hold => hnew (h.has hold)⟩
    · rintro ⟨htree, hnew⟩
      by_cases hx : c'.Has x
      · exact .inl ⟨⟨htree, hx⟩, hnew⟩
      · exact .inr ⟨htree, hx⟩
  parts := by
    intro x hx
    rcases List.mem_append.1 hx with hx | hx
    · obtain ⟨p, hp, hkind, hnone⟩ := h.parts x hx
      obtain ⟨_, _, hp''⟩ := h'.component hp
      exact ⟨_, hp'', hkind, hnone⟩
    · exact h'.parts x hx
  beneath := by
    intro x hx y hy hold
    rcases List.mem_append.1 hx with hx | hx
    · obtain ⟨p, hp, _⟩ := h.parts x hx
      have hy' : y ∈ c'.children x := by
        rw [← h'.children x (has_of_component? hp)]
        exact List.mem_filter.2 ⟨hy, decide_eq_true (h.has hold)⟩
      exact h.beneath x hx y hy' hold
    · exact h'.beneath x hx y hy (h.has hold)

end Adds

/-- The circuit `c'` has one more part than `c`, behind the children of a node. -/
structure Appends (c c' : Circuit) (parent : NodeId) (p : Component) : Prop
    extends c.Extends c' where
  roles : ∀ x q q', c.component? x = some q → c'.component? x = some q' →
    q'.ancillary = q.ancillary
  children : ∀ x, c'.children x =
    if x = parent then c.children x ++ [c.nextNode] else c.children x
  parent_ne : parent ≠ c.nextNode
  component : c'.component? c.nextNode = some p
  isPart : p.isPart = true
  requirements : p.requirements = []

namespace Appends

variable {parent : NodeId} {p : Component} (h : c.Appends c' parent p) (hc : c.Forest)
include h

theorem mem_children {x y : NodeId} :
    y ∈ c'.children x ↔ y ∈ c.children x ∨ x = parent ∧ y = c.nextNode := by
  rw [h.children]
  split <;> simp [*]

include hc

theorem filter_children (x : NodeId) : (c'.children x).filter (c.Has ·) = c.children x := by
  rw [h.children]
  split
  · rw [List.filter_append, hc.filter_children,
      List.filter_cons_of_neg (by simpa using not_has_nextNode), List.filter_nil, List.append_nil]
  · exact hc.filter_children x

theorem adds (hroot : c.Has root) (htree : c.InTree root parent) : c.Adds c' [c.nextNode] where
  toExtends := h.toExtends
  roles := h.roles
  children := fun x _ => h.filter_children hc x
  mem_added := by
    intro x
    rw [List.mem_singleton]
    constructor
    · rintro rfl
      have hgrown := htree.mono fun y z hz => h.mem_children.2 (.inl hz)
      exact ⟨.child hgrown (h.mem_children.2 (.inr ⟨rfl, rfl⟩)), not_has_nextNode⟩
    · rintro ⟨hx, hold⟩
      cases hx with
      | root => exact absurd hroot hold
      | child _ hx =>
        rcases h.mem_children.1 hx with hx | ⟨_, hx⟩
        · exact absurd (hc.later _ x hx).2 hold
        · exact hx
  parts := by
    intro x hx
    obtain rfl := List.mem_singleton.1 hx
    exact ⟨p, h.component, h.isPart, h.requirements⟩
  beneath := by
    intro x hx y hy
    obtain rfl := List.mem_singleton.1 hx
    rw [h.children, if_neg h.parent_ne.symm, children_eq, node?_nextNode] at hy
    cases hy

theorem adds_none (hroot : c.Has root) (hout : ¬c.InTree root parent) : c.Adds c' [] where
  toExtends := h.toExtends
  roles := h.roles
  children := fun x _ => h.filter_children hc x
  mem_added := by
    have hsame {x : NodeId} (hx : c'.InTree root x) : c.InTree root x := by
      induction hx with
      | root => exact .root
      | child _ hx ih =>
        rcases h.mem_children.1 hx with hx | ⟨rfl, _⟩
        · exact .child ih hx
        · exact absurd ih hout
    intro x
    exact iff_of_false List.not_mem_nil
      fun ⟨hx, hnew⟩ => hnew (hc.has_of_inTree hroot (hsame hx))
  parts := List.forall_mem_nil _
  beneath := List.forall_mem_nil _

theorem exists_adds (hroot : c.Has root) :
    ∃ added, c.Adds c' added ∧ ∀ x ∈ added, x = c.nextNode := by
  by_cases htree : c.InTree root parent
  · exact ⟨_, h.adds hc hroot htree, fun _ => List.mem_singleton.1⟩
  · exact ⟨_, h.adds_none hc hroot htree, List.forall_mem_nil _⟩

end Appends

theorem ne_nextNode {parent : NodeId} (hparent : (c.component? parent).isSome) :
    parent ≠ c.nextNode := by
  rintro rfl
  rw [component?, node?_nextNode] at hparent
  cases hparent

section Grown

variable {parent : NodeId} {p : Component} (hparent : (c.component? parent).isSome)
include hparent

theorem component_nextNode_grown :
    (c.grown parent (.component p)).component? c.nextNode = some p := by
  rw [grown, component?_editComponent, if_neg (ne_nextNode hparent).symm, component?_eq_some,
    node?_pushNode, if_pos rfl]

theorem appends_grown (hfresh : (Node.component p).Fresh) (hpart : p.isPart = true) :
    c.Appends (c.grown parent (.component p)) parent p where
  toExtends := (Extends.pushNode _).trans (.editComponent fun q => ⟨_, q.ancillary, rfl⟩)
  roles := by
    intro x q q' hq hq'
    have hpush : (c.pushNode (.component p)).component? x = some q :=
      component?_eq_some.2 (node?_pushNode_of_some (component?_eq_some.1 hq))
    rw [grown, component?_editComponent, hpush] at hq'
    split at hq' <;> exact (Option.some.inj hq') ▸ rfl
  children := children_grown hfresh hparent
  parent_ne := ne_nextNode hparent
  component := component_nextNode_grown hparent
  isPart := hpart
  requirements := hfresh.2.2.1

end Grown

/-- The circuit with a new part as the last child of a component, in the role of an ancillary. -/
def withAncillary (c : Circuit) (parent : NodeId) (p : Component) (a : Ancillary) : Circuit :=
  (c.grown parent (.component p)).editComponent c.nextNode fun q => { q with ancillary := some a }

section WithAncillary

variable {parent : NodeId} {p : Component} {a : Ancillary}

theorem size_withAncillary : (c.withAncillary parent p a).nodes.size = c.nodes.size + 1 := by
  rw [withAncillary, grown, size_editComponent, size_editComponent, pushNode, Array.size_push]

theorem appends_withAncillary (hparent : (c.component? parent).isSome)
    (hfresh : (Node.component p).Fresh) (hpart : p.isPart = true) :
    c.Appends (c.withAncillary parent p a) parent { p with ancillary := some a } := by
  have hgrown := appends_grown hparent hfresh hpart
  refine { hgrown with
    toExtends := hgrown.toExtends.trans (.editComponent fun q => ⟨q.children, _, rfl⟩)
    roles := fun x q q' hq hq' => ?_
    children := fun x => ?_
    component := ?_ }
  · have hx : x ≠ c.nextNode := fun heq => not_has_nextNode (heq ▸ has_of_component? hq)
    rw [withAncillary, component?_editComponent, if_neg hx] at hq'
    exact hgrown.roles x q q' hq hq'
  · rw [← hgrown.children, children_eq, children_eq]
    exact view_editComponent (fun _ => by rfl) x
  · rw [withAncillary, component?_editComponent, if_pos rfl, component_nextNode_grown hparent]
    rfl

end WithAncillary

theorem run_addPart (hc : c.Base) {parent : NodeId} {name function : String}
    {connectivity : ConnectivityId} {id : NodeId}
    (h : c.run (addPart parent name function connectivity) = (.ok id, c')) :
    ∃ p, p.isPart = true ∧ (Node.component p).Fresh ∧ (c.component? parent).isSome ∧
      id = c.nextNode ∧ c' = c.grown parent (.component p) := by
  rw [addPart, addComponent, run_ask_bind] at h
  cases hreference : c.childReference parent name with
  | error e => simp [hreference] at h
  | ok reference =>
    have hparent := parent_isSome_of_childReference hc hreference
    rw [hreference] at h
    dsimp only at h
    rw [run_ask_bind] at h
    cases hcomponent : c.newComponent parent reference function .part (some connectivity) with
    | error e => simp [hcomponent] at h
    | ok p =>
      obtain ⟨_, hp, hkind, hfresh⟩ := newComponent_eq_ok hcomponent
      rw [hcomponent] at h
      dsimp only at h
      rw [run_addChild (.component p) parent hp hparent] at h
      obtain ⟨hid, rfl⟩ := Prod.mk.inj h
      exact ⟨p, by simp [Component.isPart, hkind], hfresh, hparent, (Except.ok.inj hid).symm, rfl⟩

theorem run_setAncillary {x : NodeId} {a : Ancillary} {u : Unit}
    (h : c.run (setAncillary x a) = (.ok u, c')) :
    c' = c.editComponent x fun q => { q with ancillary := some a } := by
  have hchange {d d' : Circuit} (h : d.run (changeComponent x fun q =>
      { q with ancillary := some a }) = (.ok u, d')) :
      d' = d.editComponent x fun q => { q with ancillary := some a } := by
    rw [run_changeComponent] at h
    split at h
    · exact (Prod.mk.inj h).2.symm
    · cases (Prod.mk.inj h).1
  rw [setAncillary] at h
  split at h
  · rw [run_ask_bind] at h
    split at h
    · exact hchange h
    · cases (Prod.mk.inj h).1
  · exact hchange h

section Ancillary

variable (hc : c.Base) {parent : NodeId} {name function : String} {connectivity : ConnectivityId}
  {a : Ancillary}
include hc

theorem run_addAncillary {id : NodeId}
    (h : c.run (addAncillary parent name function connectivity a) = (.ok id, c')) :
    ∃ p, p.isPart = true ∧ (Node.component p).Fresh ∧ (c.component? parent).isSome ∧
      c' = c.withAncillary parent p a := by
  rw [addAncillary, run_bind] at h
  cases hrun : c.run (addPart parent name function connectivity) with
  | mk result d =>
    rw [hrun] at h
    cases result with
    | error e => cases (Prod.mk.inj h).1
    | ok x =>
      obtain ⟨p, hpart, hfresh, hparent, rfl, rfl⟩ := run_addPart hc hrun
      dsimp only at h
      rw [run_bind] at h
      refine ⟨p, hpart, hfresh, hparent, ?_⟩
      split at h
      · rename_i hset
        obtain ⟨_, rfl⟩ := Prod.mk.inj h
        exact run_setAncillary hset
      · cases (Prod.mk.inj h).1

theorem after_ancillary {addition : Addition}
    (h : (c.run (Instruction.ancillary parent name function connectivity a).perform).1 =
      .ok addition) :
    ∃ p, p.isPart = true ∧ (Node.component p).Fresh ∧ (c.component? parent).isSome ∧
      c.after [.ancillary parent name function connectivity a] = c.withAncillary parent p a := by
  rw [after, List.foldl_cons, List.foldl_nil]
  rw [Instruction.perform, map_eq_pure_bind, run_bind] at h ⊢
  cases hrun : c.run (addAncillary parent name function connectivity a) with
  | mk result c' =>
    rw [hrun] at h
    cases result with
    | error e => cases h
    | ok id => exact run_addAncillary hc hrun

end Ancillary

/-- Building steps that add ancillary parts to the tree, one after another. -/
inductive AncillarySteps : Circuit → List Instruction → Prop
  | nil {c : Circuit} : AncillarySteps c []
  | cons {c : Circuit} {parent : NodeId} {name function : String} {connectivity : ConnectivityId}
      {a : Ancillary} {addition : Addition} {steps : List Instruction} : c.InTree root parent →
      (c.run (Instruction.ancillary parent name function connectivity a).perform).1 = .ok addition →
      AncillarySteps (c.after [.ancillary parent name function connectivity a]) steps →
      AncillarySteps c (.ancillary parent name function connectivity a :: steps)

theorem Reachable.after (hc : c.Reachable) (steps : List Instruction) :
    (c.after steps).Reachable := by
  obtain ⟨catalog, first, rfl⟩ := hc
  exact ⟨catalog, first ++ steps, (List.foldl_append).symm⟩

theorem Adds.refl (hc : c.Forest) (hroot : c.Has root) : c.Adds c [] where
  catalog := rfl
  fragments := rfl
  nodes := fun _ n hn => ⟨n, hn, .refl n⟩
  roles := by
    intro x p p' hp hp'
    rw [Option.some.inj (hp.symm.trans hp')]
  children := fun x _ => hc.filter_children x
  mem_added := by
    intro x
    exact iff_of_false List.not_mem_nil fun ⟨htree, hnew⟩ => hnew (hc.has_of_inTree hroot htree)
  parts := List.forall_mem_nil _
  beneath := List.forall_mem_nil _

theorem Reachable.has_root (hc : c.Reachable) : c.Has root := by
  obtain ⟨_, hr⟩ := Option.isSome_iff_exists.1 hc.base.root
  exact has_of_component? hr

/-- Steps that add ancillary parts add as many parts, which stand last in the arena. -/
theorem AncillarySteps.adds {steps : List Instruction} (h : c.AncillarySteps steps)
    (hc : c.Reachable) :
    c.Adds (c.after steps) ((List.range' c.nodes.size steps.length).map NodeId.mk) := by
  induction h with
  | nil => exact .refl hc.forest hc.has_root
  | @cons c parent name function connectivity a addition steps htree hok _ ih =>
    obtain ⟨p, hpart, hfresh, hparent, hafter⟩ := after_ancillary hc.base hok
    have hnext := hc.after [.ancillary parent name function connectivity a]
    have hrest := ih hnext
    rw [hafter] at hnext hrest
    rw [size_withAncillary] at hrest
    have hfirst := (appends_withAncillary (a := a) hparent hfresh hpart).adds hc.forest hc.has_root
      htree
    have hall := hfirst.trans hrest hnext.forest hnext.has_root
    rwa [← hafter] at hall

end Circuit
end BoardNets
