import BoardNets.Proofs.Circuit.Owners
import BoardNets.Proofs.Circuit.Tree
import Mathlib.Data.List.Nodup

/-! The tree of a circuit is one. A child stands later in the arena than its only parent, and a
candidate gets into the tree by pushing its filter out, so a walk comes to each node once and ends
before it is cut off. -/
namespace BoardNets
namespace Circuit

variable {c c' : Circuit}

def childrenAt : Option Node → List NodeId
  | some (.component p) => p.children
  | _ => []

theorem children_eq (x : NodeId) : c.children x = childrenAt (c.node? x) := by
  rw [children, component?]
  cases c.node? x with
  | none => rfl
  | some n => cases n <;> rfl

theorem childrenAt_fresh {n : Node} (hn : n.Fresh) : childrenAt (some n) = [] := by
  cases n with
  | component p => exact hn.2.1
  | filter f => rfl

/-- Whether a node is there, its children, and the candidates and the parent of a filter. -/
def shape (n : Option Node) : Bool × List NodeId × Option (List NodeId × Option NodeId) :=
  (n.isSome, childrenAt n, choices n)

/-- Children and candidates are later nodes. A node is the child of one parent, a filter that of its
own, and a candidate belongs to one filter and is no child as long as that is one. -/
structure Forest (c : Circuit) : Prop where
  later : ∀ a, ∀ y ∈ c.children a, a.index < y.index ∧ (c.node? y).isSome
  nodup : ∀ a, (c.children a).Nodup
  unique : ∀ a b y, y ∈ c.children a → y ∈ c.children b → a = b
  candidate : ∀ F f, c.node? F = some (.filter f) → ∀ x ∈ f.feasible,
    F.index < x.index ∧ (c.component? x).isSome
  place : ∀ F f, c.node? F = some (.filter f) → ∀ a, F ∈ c.children a → f.parent = some a
  waiting : ∀ F f, c.node? F = some (.filter f) → ∀ a, F ∈ c.children a →
    ∀ x ∈ f.feasible, ∀ b, x ∉ c.children b
  apart : ∀ F f, c.node? F = some (.filter f) → ∀ G g, c.node? G = some (.filter g) →
    ∀ x ∈ f.feasible, x ∈ g.feasible → F = G

theorem index_lt_nextNode {x : NodeId} (h : (c.node? x).isSome) : x.index < c.nextNode.index := by
  by_contra hle
  rw [node?, Array.getElem?_eq_none (Nat.le_of_not_lt hle)] at h
  cases h

theorem isSome_of_component {x : NodeId} (h : (c.component? x).isSome) : (c.node? x).isSome := by
  obtain ⟨p, hp⟩ := Option.isSome_iff_exists.1 h
  rw [component?_eq_some.1 hp, Option.isSome_some]

theorem isSome_pushNode {x : NodeId} {n : Node} (h : (c.node? x).isSome) :
    ((c.pushNode n).node? x).isSome := by
  obtain ⟨m, hm⟩ := Option.isSome_iff_exists.1 h
  rw [node?_pushNode_of_some hm, Option.isSome_some]

/-- The circuit with a new node as the last child of a component. -/
def grown (c : Circuit) (parent : NodeId) (n : Node) : Circuit :=
  (c.pushNode n).editComponent parent fun p => { p with children := p.children ++ [c.nextNode] }

section Grown

variable {parent : NodeId} {n : Node}

theorem grows_grown : c.Grows (c.grown parent n) :=
  (Grows.pushNode n).trans (.editComponent fun _ => .same rfl rfl rfl)

theorem isSome_grown (y : NodeId) :
    ((c.grown parent n).node? y).isSome = ((c.pushNode n).node? y).isSome :=
  view_editComponent (V := Option.isSome) (fun _ => by rfl) y

theorem children_grown (hfresh : n.Fresh) (hp : (c.component? parent).isSome) (a : NodeId) :
    (c.grown parent n).children a =
      if a = parent then c.children a ++ [c.nextNode] else c.children a := by
  have hpush : (c.pushNode n).children a = c.children a := by
    rw [children_eq, children_eq]
    exact view_pushNode (childrenAt_fresh hfresh) a
  rw [← hpush, grown, children, component?_editComponent]
  split
  · rename_i ha
    obtain ⟨p, hp⟩ := Option.isSome_iff_exists.1 hp
    have ha : (c.pushNode n).component? a = some p :=
      component?_eq_some.2 (node?_pushNode_of_some (component?_eq_some.1 (ha ▸ hp)))
    rw [children, ha]
    rfl
  · rfl

theorem mem_children_grown (hfresh : n.Fresh) (hp : (c.component? parent).isSome)
    {a y : NodeId} : y ∈ (c.grown parent n).children a ↔
      y ∈ c.children a ∨ a = parent ∧ y = c.nextNode := by
  rw [children_grown hfresh hp]
  split <;> simp [*]

theorem filter_grown (hparent : n.parent = some parent) (hfresh : n.Fresh) {F : NodeId}
    {f : Filter} (hF : (c.grown parent n).node? F = some (.filter f)) :
    F = c.nextNode ∧ f.feasible = [] ∧ f.parent = some parent ∨ F ≠ c.nextNode ∧
      ∃ g, c.node? F = some (.filter g) ∧ f.feasible = g.feasible ∧ f.parent = g.parent := by
  obtain ⟨g, hg, hfeasible, hsame⟩ :=
    filter_of_choices (view_editComponent (fun _ => by rfl) F) hF
  rw [node?_pushNode] at hg
  split at hg
  · rename_i hnext
    obtain rfl := Option.some.inj hg
    exact .inl ⟨hnext, hfeasible.trans hfresh.2.1, hsame.trans hparent⟩
  · rename_i hnext
    exact .inr ⟨hnext, g, hg, hfeasible, hsame⟩

end Grown

/-- The circuit with a new component as the last candidate of a filter. -/
def offered (c : Circuit) (F : NodeId) (f : Filter) (p : Component) : Circuit :=
  (c.pushNode (.component p)).setNode F
    (.filter { f with feasible := f.feasible ++ [c.nextNode] })

section Offered

variable {F : NodeId} {f : Filter} {p : Component} (hF : c.node? F = some (.filter f))
include hF

theorem grows_offered : c.Grows (c.offered F f p) :=
  (Grows.pushNode _).trans (.setFilter (node?_pushNode_of_some hF))

theorem isSome_offered (y : NodeId) :
    ((c.offered F f p).node? y).isSome = ((c.pushNode (.component p)).node? y).isSome :=
  view_setNode (V := Option.isSome) (node?_pushNode_of_some hF) (by rfl) y

theorem children_offered (hfresh : (Node.component p).Fresh) (a : NodeId) :
    (c.offered F f p).children a = c.children a := by
  have hpush := view_pushNode (c := c) (childrenAt_fresh hfresh) a
  rw [children_eq, children_eq, ← hpush]
  exact view_setNode (node?_pushNode_of_some hF) (by rfl) a

theorem component_offered : ((c.offered F f p).component? c.nextNode).isSome := by
  have hnew : ((c.pushNode (.component p)).component? c.nextNode).isSome := by
    simp [component?, node?_pushNode]
  exact (Grows.setFilter (node?_pushNode_of_some hF)).component_isSome hnew

theorem filter_offered {G : NodeId} {g : Filter}
    (hG : (c.offered F f p).node? G = some (.filter g)) :
    ∃ g', c.node? G = some (.filter g') ∧ g.parent = g'.parent ∧
      ∀ x, x ∈ g.feasible ↔ x ∈ g'.feasible ∨ G = F ∧ x = c.nextNode := by
  rw [offered, node?_setNode] at hG
  split at hG
  · rename_i hGF
    rw [hGF, node?_pushNode_of_some hF, Option.map_some] at hG
    obtain rfl := Node.filter.inj (Option.some.inj hG)
    exact ⟨f, hGF ▸ hF, rfl, fun x => by simp [hGF]⟩
  · rename_i hGF
    rw [node?_pushNode] at hG
    split at hG
    · cases hG
    · exact ⟨g, hG, rfl, fun x => by simp [hGF]⟩

end Offered

section Resolved

variable {F x y : NodeId}

theorem mem_map_replace {l : List NodeId} :
    y ∈ l.map (replace F x) ↔ y ∈ l ∧ y ≠ F ∨ F ∈ l ∧ y = x := by
  rw [List.mem_map]
  constructor
  · rintro ⟨z, hz, rfl⟩
    by_cases h : z = F
    · exact .inr ⟨h ▸ hz, if_pos h⟩
    · rw [replace, if_neg h]
      exact .inl ⟨hz, h⟩
  · rintro (⟨hy, hne⟩ | ⟨hF, rfl⟩)
    · exact ⟨y, hy, if_neg hne⟩
    · exact ⟨F, hF, if_pos rfl⟩

theorem nodup_map_replace {l : List NodeId} (hl : l.Nodup) (hx : F ∈ l → x ∉ l) :
    (l.map (replace F x)).Nodup := by
  refine (List.nodup_map_iff_inj_on hl).2 fun y hy z hz hyz => ?_
  simp only [replace] at hyz
  split at hyz <;> split at hyz
  · simp [*]
  · rename_i hyF _
    exact absurd (hyz ▸ hz) (hx (hyF ▸ hy))
  · rename_i _ hzF
    exact absurd (hyz ▸ hy) (hx (hzF ▸ hz))
  · exact hyz

theorem children_resolved (F x : NodeId) (f : Filter) (a : NodeId) :
    (c.resolved F x f).children a =
      if f.parent = some a then (c.children a).map (replace F x) else c.children a := by
  have hswapped : (c.resolved F x f).children a = (c.swapped f.parent F x).children a := by
    rw [children_eq, children_eq]
    exact (view_editComponent (fun _ => by rfl) a).trans
      (view_relinkAll (fun _ _ => by rfl) F x f.links a)
  rw [hswapped, swapped]
  cases f.parent with
  | none => rfl
  | some parent =>
    rw [Option.elim_some, children, component?_editComponent, children]
    by_cases h : a = parent
    · subst h
      rw [if_pos rfl, if_pos rfl]
      cases c.component? a <;> rfl
    · rw [if_neg h, if_neg fun heq => h (Option.some.inj heq).symm]

theorem isSome_resolved (f : Filter) :
    ((c.resolved F x f).node? y).isSome = (c.node? y).isSome := by
  have hreplaced := view_replaced (c := c) (V := Option.isSome) (fun _ _ => by rfl)
    (fun _ _ => by rfl) f.parent F x f.links y
  exact (view_editComponent (fun _ => by rfl) y).trans hreplaced

end Resolved

namespace Forest

theorem not_child (hc : c.Forest) (a : NodeId) : c.nextNode ∉ c.children a := by
  intro h
  have hsome := (hc.later a _ h).2
  rw [node?_nextNode] at hsome
  cases hsome

theorem not_candidate (hc : c.Forest) {F : NodeId} {f : Filter}
    (hF : c.node? F = some (.filter f)) : c.nextNode ∉ f.feasible := by
  intro h
  have hsome := (hc.candidate F f hF _ h).2
  rw [component?, node?_nextNode] at hsome
  cases hsome

theorem congr (hc : c.Forest) (hgrows : c.Grows c')
    (h : ∀ x, shape (c'.node? x) = shape (c.node? x)) : c'.Forest := by
  have hsome (x : NodeId) : (c'.node? x).isSome = (c.node? x).isSome := (Prod.mk.inj (h x)).1
  have hchildren (x : NodeId) : c'.children x = c.children x := by
    rw [children_eq, children_eq]
    exact (Prod.mk.inj (Prod.mk.inj (h x)).2).1
  have hfilter {F : NodeId} {f : Filter} (hF : c'.node? F = some (.filter f)) :
      ∃ g, c.node? F = some (.filter g) ∧ f.feasible = g.feasible ∧ f.parent = g.parent :=
    filter_of_choices (Prod.mk.inj (Prod.mk.inj (h F)).2).2 hF
  constructor
  case later =>
    intro a y hy
    rw [hsome]
    exact hc.later a y (hchildren a ▸ hy)
  case nodup => exact fun a => (hchildren a).symm ▸ hc.nodup a
  case unique =>
    intro a b y
    rw [hchildren, hchildren]
    exact hc.unique a b y
  case candidate =>
    intro F f hF x hx
    obtain ⟨g, hg, hfeasible, _⟩ := hfilter hF
    exact (hc.candidate F g hg x (hfeasible ▸ hx)).imp_right hgrows.component_isSome
  case place =>
    intro F f hF a ha
    obtain ⟨g, hg, _, hparent⟩ := hfilter hF
    exact hparent.trans (hc.place F g hg a (hchildren a ▸ ha))
  case waiting =>
    intro F f hF a ha x hx b
    obtain ⟨g, hg, hfeasible, _⟩ := hfilter hF
    rw [hchildren]
    exact hc.waiting F g hg a (hchildren a ▸ ha) x (hfeasible ▸ hx) b
  case apart =>
    intro F f hF G g hG x hx hxg
    obtain ⟨f', hf', hfeasible, _⟩ := hfilter hF
    obtain ⟨g', hg', hfeasible', _⟩ := hfilter hG
    exact hc.apart F f' hf' G g' hg' x (hfeasible ▸ hx) (hfeasible' ▸ hxg)

theorem grown (hc : c.Forest) {parent : NodeId} {n : Node} (hparent : n.parent = some parent)
    (hfresh : n.Fresh) (hp : (c.component? parent).isSome) : (c.grown parent n).Forest := by
  have hmem {a y : NodeId} := mem_children_grown (c := c) (a := a) (y := y) hfresh hp
  -- the new node has no candidates, so a filter that has some was there before
  have hnew {F : NodeId} {f : Filter} {x : NodeId}
      (hF : (c.grown parent n).node? F = some (.filter f)) (hx : x ∈ f.feasible) :
      F ≠ c.nextNode ∧ ∃ g, c.node? F = some (.filter g) ∧ x ∈ g.feasible := by
    rcases filter_grown hparent hfresh hF with ⟨_, hnone, _⟩ | ⟨hne, g, hg, hfeasible, _⟩
    · rw [hnone] at hx
      cases hx
    · exact ⟨hne, g, hg, hfeasible ▸ hx⟩
  constructor
  case later =>
    intro a y hy
    rw [isSome_grown]
    rcases hmem.1 hy with hy | ⟨rfl, rfl⟩
    · exact (hc.later a y hy).imp_right isSome_pushNode
    · refine ⟨index_lt_nextNode (isSome_of_component hp), ?_⟩
      rw [node?_pushNode, if_pos rfl, Option.isSome_some]
  case nodup =>
    intro a
    rw [children_grown hfresh hp]
    split
    · exact List.nodup_append_comm.1 (List.nodup_cons.2 ⟨hc.not_child a, hc.nodup a⟩)
    · exact hc.nodup a
  case unique =>
    intro a b y ha hb
    rw [hmem] at ha hb
    rcases ha with ha | ⟨ha, hy⟩ <;> rcases hb with hb | ⟨hb, hy'⟩
    · exact hc.unique a b y ha hb
    · exact absurd (hy' ▸ ha) (hc.not_child a)
    · exact absurd (hy ▸ hb) (hc.not_child b)
    · exact ha.trans hb.symm
  case candidate =>
    intro F f hF x hx
    obtain ⟨_, g, hg, hx⟩ := hnew hF hx
    exact (hc.candidate F g hg x hx).imp_right grows_grown.component_isSome
  case place =>
    intro F f hF a ha
    rcases filter_grown hparent hfresh hF with ⟨rfl, _, hpar⟩ | ⟨hne, g, hg, _, hpar⟩
    · rcases hmem.1 ha with ha | ⟨rfl, _⟩
      · exact absurd ha (hc.not_child a)
      · exact hpar
    · rcases hmem.1 ha with ha | ⟨_, hF⟩
      · exact hpar.trans (hc.place F g hg a ha)
      · exact absurd hF hne
  case waiting =>
    intro F f hF a ha x hx b hb
    obtain ⟨hne, g, hg, hx⟩ := hnew hF hx
    rcases hmem.1 ha with ha | ⟨_, hF⟩
    · rcases hmem.1 hb with hb | ⟨_, rfl⟩
      · exact hc.waiting F g hg a ha x hx b hb
      · exact hc.not_candidate hg hx
    · exact hne hF
  case apart =>
    intro F f hF G g hG x hx hxg
    obtain ⟨_, f', hf', hx⟩ := hnew hF hx
    obtain ⟨_, g', hg', hxg⟩ := hnew hG hxg
    exact hc.apart F f' hf' G g' hg' x hx hxg

theorem offered (hc : c.Forest) {F : NodeId} {f : Filter} {p : Component}
    (hF : c.node? F = some (.filter f)) (hfresh : (Node.component p).Fresh) :
    (c.offered F f p).Forest := by
  have hchildren := children_offered (p := p) hF hfresh
  constructor
  case later =>
    intro a y hy
    rw [isSome_offered hF]
    exact (hc.later a y (hchildren a ▸ hy)).imp_right isSome_pushNode
  case nodup => exact fun a => (hchildren a).symm ▸ hc.nodup a
  case unique =>
    intro a b y
    rw [hchildren, hchildren]
    exact hc.unique a b y
  case candidate =>
    intro G g hG x hx
    obtain ⟨g', hg', _, hmem⟩ := filter_offered hF hG
    rcases (hmem x).1 hx with hx | ⟨rfl, rfl⟩
    · exact (hc.candidate G g' hg' x hx).imp_right (grows_offered hF).component_isSome
    · exact ⟨index_lt_nextNode (by rw [hF, Option.isSome_some]), component_offered hF⟩
  case place =>
    intro G g hG a ha
    obtain ⟨g', hg', hparent, _⟩ := filter_offered hF hG
    exact hparent.trans (hc.place G g' hg' a (hchildren a ▸ ha))
  case waiting =>
    intro G g hG a ha x hx b
    obtain ⟨g', hg', _, hmem⟩ := filter_offered hF hG
    rw [hchildren]
    rcases (hmem x).1 hx with hx | ⟨_, rfl⟩
    · exact hc.waiting G g' hg' a (hchildren a ▸ ha) x hx b
    · exact hc.not_child b
  case apart =>
    intro G g hG H h hH x hx hxh
    obtain ⟨g', hg', _, hmem⟩ := filter_offered hF hG
    obtain ⟨h', hh', _, hmem'⟩ := filter_offered hF hH
    rw [hmem] at hx
    rw [hmem'] at hxh
    rcases hx with hx | ⟨hGF, hnext⟩ <;> rcases hxh with hxh | ⟨hHF, hnext'⟩
    · exact hc.apart G g' hg' H h' hh' x hx hxh
    · exact absurd (hnext' ▸ hx) (hc.not_candidate hg')
    · exact absurd (hnext ▸ hxh) (hc.not_candidate hh')
    · exact hGF.trans hHF.symm

section Resolved

variable (hc : c.Forest) {F x : NodeId} {f : Filter} (hF : c.node? F = some (.filter f))
include hc hF

theorem mem_children_resolved {a y : NodeId} : y ∈ (c.resolved F x f).children a ↔
    y ∈ c.children a ∧ y ≠ F ∨ F ∈ c.children a ∧ y = x := by
  rw [children_resolved]
  split
  · exact mem_map_replace
  · rename_i hparent
    have hout : F ∉ c.children a := fun ha => hparent (hc.place F f hF a ha)
    constructor
    · exact fun hy => .inl ⟨hy, fun heq => hout (heq ▸ hy)⟩
    · exact fun hy => hy.elim And.left fun ha => absurd ha.1 hout

/-- A candidate that pushes its filter out of the tree, if that is in it. -/
theorem resolved (hx : x ∈ f.feasible) : (c.resolved F x f).Forest := by
  have hcomponent (g : Filter) : c.node? x ≠ some (.filter g) := by
    intro hg
    have hsome := (hc.candidate F f hF x hx).2
    rw [component?, hg] at hsome
    cases hsome
  -- as long as the filter is a child, none of its candidates is
  have hout {a b : NodeId} (ha : F ∈ c.children a) : x ∉ c.children b :=
    hc.waiting F f hF a ha x hx b
  have hmem {a y : NodeId} := mem_children_resolved hc hF (x := x) (a := a) (y := y)
  have hfilter {G : NodeId} {g : Filter} (hG : (c.resolved F x f).node? G = some (.filter g)) :
      ∃ g', c.node? G = some (.filter g') ∧ g.feasible = g'.feasible ∧ g.parent = g'.parent :=
    filter_of_choices (choices_resolved F x f G) hG
  constructor
  case later =>
    intro a y hy
    rw [isSome_resolved]
    rcases hmem.1 hy with ⟨hy, _⟩ | ⟨ha, rfl⟩
    · exact hc.later a y hy
    · obtain ⟨hlt, hx⟩ := hc.candidate F f hF y hx
      exact ⟨(hc.later a F ha).1.trans hlt, isSome_of_component hx⟩
  case nodup =>
    intro a
    rw [children_resolved]
    split
    · exact nodup_map_replace (hc.nodup a) hout
    · exact hc.nodup a
  case unique =>
    intro a b y ha hb
    rw [hmem] at ha hb
    rcases ha with ⟨ha, _⟩ | ⟨ha, hy⟩ <;> rcases hb with ⟨hb, _⟩ | ⟨hb, hy'⟩
    · exact hc.unique a b y ha hb
    · exact absurd (hy' ▸ ha) (hout hb)
    · exact absurd (hy ▸ hb) (hout ha)
    · exact hc.unique a b F ha hb
  case candidate =>
    intro G g hG y hy
    obtain ⟨g', hg', hfeasible, _⟩ := hfilter hG
    have hgrows : c.Grows (c.resolved F x f) := (Edit.resolve hF hx).grows
    exact (hc.candidate G g' hg' y (hfeasible ▸ hy)).imp_right hgrows.component_isSome
  case place =>
    intro G g hG a ha
    obtain ⟨g', hg', _, hparent⟩ := hfilter hG
    rcases hmem.1 ha with ⟨ha, _⟩ | ⟨_, rfl⟩
    · exact hparent.trans (hc.place G g' hg' a ha)
    · exact absurd hg' (hcomponent g')
  case waiting =>
    intro G g hG a ha y hy b hb
    obtain ⟨g', hg', hfeasible, _⟩ := hfilter hG
    rw [hfeasible] at hy
    rcases hmem.1 ha with ⟨ha, hne⟩ | ⟨_, rfl⟩
    · rcases hmem.1 hb with ⟨hb, _⟩ | ⟨_, rfl⟩
      · exact hc.waiting G g' hg' a ha y hy b hb
      · exact hne (hc.apart G g' hg' F f hF y hy hx)
    · exact hcomponent g' hg'
  case apart =>
    intro G g hG H h hH y hy hyh
    obtain ⟨g', hg', hfeasible, _⟩ := hfilter hG
    obtain ⟨h', hh', hfeasible', _⟩ := hfilter hH
    exact hc.apart G g' hg' H h' hh' y (hfeasible ▸ hy) (hfeasible' ▸ hyh)

end Resolved

theorem edit (hc : c.Forest) (h : Edit c c') : c'.Forest := by
  have hgrows := h.grows
  cases h with
  | child _ hparent hfresh hp => exact hc.grown hparent hfresh hp
  | candidate hF _ _ _ hfresh => exact hc.offered hF hfresh
  | link hF => exact hc.congr hgrows fun x => view_setNode hF (by rfl) x
  | ancillary => exact hc.congr hgrows fun x => view_editComponent (fun _ => by rfl) x
  | adapt _ _ => exact hc.congr hgrows fun x => view_editComponent (fun _ => by rfl) x
  | @require f owner _ _ howner =>
    refine hc.congr hgrows fun x => view_setNode (c := c.pushFragment f) howner ?_ x
    cases owner <;> rfl
  | stray _ _ _ => exact hc.congr hgrows fun _ => rfl
  | @wire id f w _ _ _ _ =>
    exact hc.congr hgrows fun x => view_wired (fun _ _ => by rfl) id w x
  | @unwire id f _ _ =>
    exact hc.congr hgrows fun x => view_releaseAll (fun _ _ => by rfl) f.entries x
  | resolve hF hx => exact hc.resolved hF hx

end Forest

theorem forest_new (catalog : Catalog) : (new catalog).Forest := by
  have hchildren (a : NodeId) : (new catalog).children a = [] := by
    obtain ⟨k⟩ := a
    cases k <;> rfl
  have hnone (F : NodeId) (f : Filter) : (new catalog).node? F ≠ some (.filter f) := by
    obtain ⟨k⟩ := F
    cases k <;> exact nofun
  refine ⟨?_, ?_, ?_, ?_, ?_, ?_, ?_⟩
  · exact fun a y hy => absurd (hchildren a ▸ hy) List.not_mem_nil
  · exact fun a => (hchildren a).symm ▸ List.nodup_nil
  · exact fun a _ y hy => absurd (hchildren a ▸ hy) List.not_mem_nil
  · exact fun F f hF => absurd hF (hnone F f)
  · exact fun F f hF => absurd hF (hnone F f)
  · exact fun F f hF => absurd hF (hnone F f)
  · exact fun F f hF => absurd hF (hnone F f)

theorem Reachable.forest (hc : c.Reachable) : c.Forest :=
  hc.induction forest_new fun _ _ _ hforest hedit => hforest.edit hedit

theorem exists_path_of_mem_walk {depth : Nat} {a b : NodeId}
    (h : b ∈ (c.walk depth a).map (·.2)) : ∃ n, c.Path (n + 1) a b := by
  obtain ⟨⟨p, _⟩, hp, rfl⟩ := List.mem_map.1 h
  obtain ⟨n, _, hn⟩ := mem_walk_iff.1 ⟨p, hp⟩
  exact ⟨n, hn⟩

theorem inTree_of_mem_visit {depth : Nat} {p y b : NodeId}
    (h : b ∈ ((p, y) :: c.walk depth y).map (·.2)) : c.InTree y b := by
  rcases List.mem_cons.1 h with rfl | h
  · exact .root
  · obtain ⟨n, hn⟩ := exists_path_of_mem_walk h
    exact inTree_iff_path.2 ⟨n + 1, hn⟩

namespace Forest

variable (hc : c.Forest)
include hc

theorem index_le_of_path {n : Nat} {a b : NodeId} (h : c.Path n a b) : a.index + n ≤ b.index := by
  induction n generalizing b with
  | zero => exact (congrArg NodeId.index h).le
  | succ n ih =>
    obtain ⟨m, hm, hb⟩ := h
    exact Nat.succ_le_of_lt ((ih hm).trans_lt (hc.later m b hb).1)

theorem comparable {a b y : NodeId} (ha : c.InTree a y) (hb : c.InTree b y) :
    c.InTree a b ∨ c.InTree b a := by
  induction ha with
  | root => exact .inr hb
  | @child parent y hparent hy ih =>
    cases hb with
    | root => exact .inl (.child hparent hy)
    | child hb hy' => exact ih (hc.unique _ _ y hy hy' ▸ hb)

theorem eq_of_inTree {p a b y : NodeId} (ha : a ∈ c.children p) (hb : b ∈ c.children p)
    (hay : c.InTree a y) (hby : c.InTree b y) : a = b := by
  have hbelow {u v : NodeId} (hu : u ∈ c.children p) (hv : v ∈ c.children p)
      (h : c.InTree u v) : u = v := by
    cases h with
    | root => rfl
    | @child m _ hm hv' =>
      obtain ⟨n, hn⟩ := inTree_iff_path.1 (hc.unique _ _ v hv' hv ▸ hm)
      have hle := hc.index_le_of_path hn
      have hlt := (hc.later p u hu).1
      omega
  rcases hc.comparable hay hby with h | h
  · exact hbelow ha hb h
  · exact (hbelow hb ha h).symm

theorem lt_of_mem_walk {depth : Nat} {a b : NodeId} (h : b ∈ (c.walk depth a).map (·.2)) :
    a.index < b.index := by
  obtain ⟨n, hn⟩ := exists_path_of_mem_walk h
  have hle := hc.index_le_of_path hn
  omega

theorem nodup_walk (depth : Nat) (a : NodeId) : ((c.walk depth a).map (·.2)).Nodup := by
  induction depth generalizing a with
  | zero => exact List.nodup_nil
  | succ depth ih =>
    rw [walk, List.map_flatMap, List.nodup_flatMap]
    constructor
    · intro y _
      exact List.nodup_cons.2 ⟨fun hy => Nat.lt_irrefl _ (hc.lt_of_mem_walk hy), ih y⟩
    · refine (hc.nodup a).pairwise_of_forall_ne fun y hy z hz hne => ?_
      intro b hb hb'
      exact hne (hc.eq_of_inTree hy hz (inTree_of_mem_visit hb) (inTree_of_mem_visit hb'))

theorem nodup_subtree (a : NodeId) : (c.subtree a).Nodup :=
  List.nodup_cons.2 ⟨fun ha => Nat.lt_irrefl _ (hc.lt_of_mem_walk ha), hc.nodup_walk _ a⟩

theorem walk_eq {depth depth' : Nat} {a : NodeId} (h : c.nodes.size ≤ a.index + depth)
    (h' : c.nodes.size ≤ a.index + depth') : c.walk depth a = c.walk depth' a := by
  have hstop {depth : Nat} {a : NodeId} (h : c.nodes.size ≤ a.index + 0) :
      c.walk depth a = [] := by
    have hleaf : c.children a = [] := List.eq_nil_iff_forall_not_mem.2 fun y hy =>
      absurd (index_lt_of_mem_children hy) (Nat.not_lt_of_le h)
    cases depth with
    | zero => rfl
    | succ depth => rw [walk, hleaf, List.flatMap_nil]
  induction depth generalizing a depth' with
  | zero => rw [hstop h, hstop h]
  | succ depth ih =>
    cases depth' with
    | zero => rw [hstop h', hstop h']
    | succ depth' =>
      rw [walk, walk]
      refine List.flatMap_congr fun y hy => ?_
      have hlt := (hc.later a y hy).1
      have hsame : c.walk depth y = c.walk depth' y := ih (by omega) (by omega)
      rw [hsame]

end Forest
end Circuit
end BoardNets
