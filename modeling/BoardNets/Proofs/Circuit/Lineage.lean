import BoardNets.Proofs.Circuit.Forest
import BoardNets.Proofs.Netlist.Partition

/-! Where nodes stand. A node is given its parent and its reference when it is made, and a candidate
is given those of its filter, so a candidate that takes the place of its filter does not move: the
children are listed anew, but the links to parents are what they were. As parents are earlier nodes,
climbing comes to the root in fewer steps than there are nodes. -/
namespace BoardNets

/-- A name between the dots of a reference. -/
def IsSegment (name : String) : Prop := name ≠ "" ∧ '.' ∉ name.toList

instance (name : String) : Decidable (IsSegment name) :=
  inferInstanceAs (Decidable (_ ∧ _))

namespace Circuit

variable {c c' : Circuit}

def Names (c : Circuit) (parent : NodeId) (reference : String) : Prop :=
  ∃ name, IsSegment name ∧
    reference = if parent = root then name else c.reference parent ++ "." ++ name

def seat (n : Option Node) : Option (Option NodeId × String) :=
  n.map fun n => (n.parent, n.reference)

def stand (n : Option Node) :
    Option (Option NodeId × String) × Bool × List NodeId × Option (List NodeId × Option NodeId) :=
  (seat n, shape n)

theorem parent?_eq (x : NodeId) : c.parent? x = (seat (c.node? x)).bind Prod.fst := by
  rw [parent?, seat]
  cases c.node? x <;> rfl

theorem reference_eq (x : NodeId) : c.reference x = (seat (c.node? x)).elim "?" Prod.snd := by
  rw [reference, seat]
  cases c.node? x <;> rfl

theorem isSome_seat (n : Option Node) : (seat n).isSome = n.isSome := by
  rw [seat, Option.isSome_map]

theorem childReference_eq_ok {parent : NodeId} {name reference : String}
    (h : c.childReference parent name = .ok reference) : c.Names parent reference := by
  rw [childReference] at h
  split at h
  · exact absurd h throw_ne_ok
  · rename_i hname
    have hsegment : IsSegment name := not_or.1 hname
    refine ⟨name, hsegment, ?_⟩
    split at h
    · rename_i hroot
      rw [if_pos hroot]
      exact (pure_eq_ok.1 h).symm
    · rename_i hroot
      obtain ⟨p, hp, h⟩ := bind_eq_ok.1 h
      have hreference : c.reference parent = p.reference := by
        rw [Circuit.reference, component?_eq_some.1 (component_eq_ok.1 hp)]
        rfl
      rw [if_neg hroot, hreference]
      exact (pure_eq_ok.1 h).symm

theorem Names.congr {parent : NodeId} {reference : String} (h : c.Names parent reference)
    (hsame : c'.reference parent = c.reference parent) : c'.Names parent reference := by
  obtain ⟨name, hsegment, hname⟩ := h
  exact ⟨name, hsegment, by rw [hname, hsame]⟩

/-- Parents are earlier nodes and pass on their references, candidates stand where their filter
does, and children are listed by their parents. -/
structure Lineage (c : Circuit) : Prop where
  root : c.parent? root = none
  above : ∀ x, (c.node? x).isSome → x ≠ Circuit.root →
    ∃ p, c.parent? x = some p ∧ p.index < x.index
  named : ∀ x p, c.parent? x = some p → c.Names p (c.reference x)
  candidate : ∀ F f, c.node? F = some (.filter f) → ∀ x ∈ f.feasible,
    seat (c.node? x) = some (f.parent, f.reference)
  child : ∀ a, ∀ y ∈ c.children a, c.parent? y = some a

namespace Lineage

theorem of_seats (hc : c.Lineage) (hseat : ∀ x, seat (c'.node? x) = seat (c.node? x))
    (hchoices : ∀ x, choices (c'.node? x) = choices (c.node? x))
    (hchild : ∀ a, ∀ y ∈ c'.children a, c.parent? y = some a) : c'.Lineage := by
  have hparent (x : NodeId) : c'.parent? x = c.parent? x := by
    rw [parent?_eq, parent?_eq, hseat]
  have hreference (x : NodeId) : c'.reference x = c.reference x := by
    rw [reference_eq, reference_eq, hseat]
  constructor
  case root => rw [hparent, hc.root]
  case above =>
    intro x hx hroot
    rw [← isSome_seat, hseat, isSome_seat] at hx
    rw [hparent]
    exact hc.above x hx hroot
  case named =>
    intro x p hp
    rw [hreference]
    exact (hc.named x p (hparent x ▸ hp)).congr (hreference p)
  case candidate =>
    intro F f hF x hx
    obtain ⟨g, hg, hfeasible, _⟩ := filter_of_choices (hchoices F) hF
    have hsame : (f.parent, f.reference) = (g.parent, g.reference) := by
      have hFseat := hseat F
      rw [hF, hg] at hFseat
      exact Option.some.inj hFseat
    rw [hseat, hsame]
    exact hc.candidate F g hg x (hfeasible ▸ hx)
  case child =>
    intro a y hy
    rw [hparent]
    exact hchild a y hy

theorem congr (hc : c.Lineage) (h : ∀ x, stand (c'.node? x) = stand (c.node? x)) : c'.Lineage := by
  have hshape (x : NodeId) : shape (c'.node? x) = shape (c.node? x) := (Prod.mk.inj (h x)).2
  refine hc.of_seats (fun x => (Prod.mk.inj (h x)).1)
    (fun x => (Prod.mk.inj (Prod.mk.inj (hshape x)).2).2) ?_
  intro a y hy
  have hchildren : c'.children a = c.children a := by
    rw [children_eq, children_eq]
    exact (Prod.mk.inj (Prod.mk.inj (hshape a)).2).1
  exact hc.child a y (hchildren ▸ hy)

theorem extend (hc : c.Lineage) {p : NodeId} {reference : String}
    (hroot : (c.node? Circuit.root).isSome) (hp : (c.node? p).isSome)
    (hname : c.Names p reference) (hnew : seat (c'.node? c.nextNode) = some (some p, reference))
    (hold : ∀ x, x ≠ c.nextNode → seat (c'.node? x) = seat (c.node? x))
    (hcandidate : ∀ F f, c'.node? F = some (.filter f) → ∀ x ∈ f.feasible,
      seat (c'.node? x) = some (f.parent, f.reference))
    (hchild : ∀ a, ∀ y ∈ c'.children a, y ∈ c.children a ∨ y = c.nextNode ∧ a = p) :
    c'.Lineage := by
  have hne {x : NodeId} (hx : (c.node? x).isSome) : x ≠ c.nextNode := by
    rintro rfl
    rw [node?_nextNode] at hx
    cases hx
  have hparent {x : NodeId} (hx : x ≠ c.nextNode) : c'.parent? x = c.parent? x := by
    rw [parent?_eq, parent?_eq, hold x hx]
  have hreference {x : NodeId} (hx : x ≠ c.nextNode) : c'.reference x = c.reference x := by
    rw [reference_eq, reference_eq, hold x hx]
  have hnext : c'.parent? c.nextNode = some p := by
    rw [parent?_eq, hnew]
    rfl
  constructor
  case root => rw [hparent (hne hroot), hc.root]
  case above =>
    intro x hx hxroot
    by_cases h : x = c.nextNode
    · subst h
      exact ⟨p, hnext, index_lt_nextNode hp⟩
    · rw [← isSome_seat, hold x h, isSome_seat] at hx
      rw [hparent h]
      exact hc.above x hx hxroot
  case named =>
    intro x q hq
    by_cases h : x = c.nextNode
    · subst h
      have hqp : q = p := Option.some.inj (hq.symm.trans hnext)
      have hgiven : c'.reference c.nextNode = reference := by
        rw [reference_eq, hnew]
        rfl
      rw [hqp, hgiven]
      exact hname.congr (hreference (hne hp))
    · rw [hparent h] at hq
      have hx : (c.node? x).isSome := by
        by_contra hnone
        rw [parent?, Option.not_isSome_iff_eq_none.1 hnone] at hq
        cases hq
      have hxroot : x ≠ Circuit.root := by
        rintro rfl
        rw [hc.root] at hq
        cases hq
      -- the parent of an old node is an old node
      have hqnext : q ≠ c.nextNode := by
        obtain ⟨q', hq', hlt⟩ := hc.above x hx hxroot
        rintro rfl
        have hle := index_lt_nextNode hx
        have hsame : q' = c.nextNode := Option.some.inj (hq'.symm.trans hq)
        rw [hsame] at hlt
        omega
      rw [hreference h]
      exact (hc.named x q hq).congr (hreference hqnext)
  case candidate => exact hcandidate
  case child =>
    intro a y hy
    rcases hchild a y hy with hy | ⟨rfl, rfl⟩
    · have hyne : y ≠ c.nextNode := by
        rintro rfl
        have hnone := hc.child a _ hy
        rw [parent?, node?_nextNode] at hnone
        cases hnone
      rw [hparent hyne]
      exact hc.child a y hy
    · exact hnext

end Lineage

section Seats

variable {parent F x y : NodeId} {n : Node} {f : Filter} {p : Component}

theorem seat_grown (y : NodeId) : seat ((c.grown parent n).node? y) =
    if y = c.nextNode then some (n.parent, n.reference) else seat (c.node? y) := by
  have hedit : seat ((c.grown parent n).node? y) = seat ((c.pushNode n).node? y) := by
    rw [grown]
    exact view_editComponent (fun _ => by rfl) y
  rw [hedit, node?_pushNode]
  split <;> rfl

theorem seat_offered (hF : c.node? F = some (.filter f)) (y : NodeId) :
    seat ((c.offered F f p).node? y) =
      if y = c.nextNode then some (p.parent, p.reference) else seat (c.node? y) := by
  have hset : seat ((c.offered F f p).node? y) = seat ((c.pushNode (.component p)).node? y) := by
    rw [offered]
    exact view_setNode (node?_pushNode_of_some hF) (by rfl) y
  rw [hset, node?_pushNode]
  split <;> rfl

theorem seat_resolved (hx : seat (c.node? x) = some (f.parent, f.reference)) (y : NodeId) :
    seat ((c.resolved F x f).node? y) = seat (c.node? y) := by
  let d := (f.links.foldl (relinked F x) (c.swapped f.parent F x)).retargeted F x
  have hd (y : NodeId) : seat (d.node? y) = seat (c.node? y) :=
    view_replaced (fun _ _ => rfl) (fun _ _ => rfl) f.parent F x f.links y
  change seat ((d.inherited x f).node? y) = _
  rw [inherited, editComponent]
  cases hp : d.component? x with
  | none => exact hd y
  | some p =>
    have hseat : seat (some (.component p)) = some (f.parent, f.reference) := by
      rw [← hx, ← hd, component?_eq_some.1 hp]
    have hparent : p.parent = f.parent := (Prod.mk.inj (Option.some.inj hseat)).1
    refine (view_setNode (component?_eq_some.1 hp) ?_ y).trans (hd y)
    simp [seat, Node.parent, Node.reference, hparent]

end Seats

namespace Lineage

variable (hc : c.Lineage) (hbase : c.Base) (hforest : c.Forest)
include hc hbase hforest

theorem grown {parent : NodeId} {name : String} {n : Node}
    (hname : c.childReference parent name = .ok n.reference) (hparent : n.parent = some parent)
    (hfresh : n.Fresh) (hp : (c.component? parent).isSome) : (c.grown parent n).Lineage := by
  refine hc.extend (isSome_of_component hbase.root) (isSome_of_component hp)
    (childReference_eq_ok hname) ?_ ?_ ?_ ?_
  · rw [seat_grown, if_pos rfl, hparent]
  · intro x hx
    rw [seat_grown, if_neg hx]
  · intro F f hF x hx
    have hseat : seat ((c.grown parent n).node? F) =
        if F = c.nextNode then some (n.parent, n.reference) else seat (c.node? F) := seat_grown F
    rcases filter_grown hparent hfresh hF with ⟨_, hnone, _⟩ | ⟨hne, g, hg, hfeasible, _⟩
    · rw [hnone] at hx
      cases hx
    · rw [hfeasible] at hx
      have hxne : x ≠ c.nextNode := fun h => hforest.not_candidate hg (h ▸ hx)
      rw [if_neg hne, hF, hg] at hseat
      rw [seat_grown, if_neg hxne, hc.candidate F g hg x hx]
      exact hseat.symm
  · intro a y hy
    exact ((mem_children_grown hfresh hp).1 hy).imp_right And.symm

omit hforest in
theorem exists_parent {F : NodeId} {f : Filter} (hF : c.node? F = some (.filter f)) :
    ∃ p, f.parent = some p := by
  have hne : F ≠ Circuit.root := by
    rintro rfl
    have hroot := hbase.root
    rw [component?, hF] at hroot
    cases hroot
  obtain ⟨p, hp, _⟩ := hc.above F (by rw [hF, Option.isSome_some]) hne
  rw [parent?, hF] at hp
  exact ⟨p, hp⟩

theorem offered {F : NodeId} {f : Filter} {p : Component} (hF : c.node? F = some (.filter f))
    (hreference : p.reference = f.reference)
    (hparent : p.parent = some (f.parent.getD Circuit.root))
    (hfresh : (Node.component p).Fresh) : (c.offered F f p).Lineage := by
  obtain ⟨q, hq⟩ := hc.exists_parent hbase hF
  have hseat : some (p.parent, p.reference) = seat (c.node? F) := by
    rw [hparent, hreference, hq, hF, seat, Option.map_some, Node.parent, Node.reference, hq]
    rfl
  have hname : c.Names q p.reference := by
    have hnamed := hc.named F q (by rw [parent?_eq, ← hseat, hparent, hq]; rfl)
    rwa [reference_eq, ← hseat] at hnamed
  have hnext {G : NodeId} {g : Filter} (hG : c.node? G = some (.filter g)) : G ≠ c.nextNode := by
    rintro rfl
    rw [node?_nextNode] at hG
    cases hG
  refine hc.extend (isSome_of_component hbase.root)
    (isSome_of_component ((hbase.filters F f hF).2 q hq)) hname ?_ ?_ ?_ ?_
  · rw [seat_offered hF, if_pos rfl, hparent, hq]
    rfl
  · intro x hx
    rw [seat_offered hF, if_neg hx]
  · intro G g hG x hx
    obtain ⟨g', hg', _, hmem⟩ := filter_offered hF hG
    have hsame := seat_offered (p := p) hF G
    rw [hG, if_neg (hnext hg'), hg'] at hsame
    rw [seat_offered hF]
    rcases (hmem x).1 hx with hx | ⟨rfl, rfl⟩
    · have hxne : x ≠ c.nextNode := fun h => hforest.not_candidate hg' (h ▸ hx)
      rw [if_neg hxne, hc.candidate G g' hg' x hx]
      exact hsame.symm
    · rw [if_pos rfl, hseat, hg']
      exact hsame.symm
  · intro a y hy
    rw [children_offered hF hfresh] at hy
    exact .inl hy

omit hbase in
theorem resolved {F x : NodeId} {f : Filter} (hF : c.node? F = some (.filter f))
    (hx : x ∈ f.feasible) : (c.resolved F x f).Lineage := by
  have hseat := hc.candidate F f hF x hx
  refine hc.of_seats (seat_resolved hseat) (choices_resolved F x f) ?_
  intro a y hy
  rcases (hforest.mem_children_resolved hF).1 hy with ⟨hy, _⟩ | ⟨ha, rfl⟩
  · exact hc.child a y hy
  · rw [parent?_eq, hseat]
    exact hforest.place F f hF a ha

theorem edit (h : Edit c c') : c'.Lineage := by
  cases h with
  | child hname hparent hfresh hp => exact hc.grown hbase hforest hname hparent hfresh hp
  | candidate hF hreference hparent _ hfresh =>
    exact hc.offered hbase hforest hF hreference hparent hfresh
  | link hF => exact hc.congr fun x => view_setNode hF (by rfl) x
  | ancillary => exact hc.congr fun x => view_editComponent (fun _ => by rfl) x
  | adapt _ _ => exact hc.congr fun x => view_editComponent (fun _ => by rfl) x
  | @require f owner _ _ howner =>
    refine hc.congr fun x => view_setNode (c := c.pushFragment f) howner ?_ x
    cases owner <;> rfl
  | stray _ _ _ => exact hc.congr fun _ => rfl
  | @wire id f w _ _ _ _ => exact hc.congr fun x => view_wired (fun _ _ => by rfl) id w x
  | @unwire id f _ _ => exact hc.congr fun x => view_releaseAll (fun _ _ => by rfl) f.entries x
  | resolve hF hx => exact hc.resolved hforest hF hx

end Lineage

theorem lineage_new (catalog : Catalog) : (new catalog).Lineage := by
  have hnone {x : NodeId} (hx : x ≠ root) : (new catalog).node? x = none := by
    obtain ⟨k⟩ := x
    cases k with
    | zero => exact absurd rfl hx
    | succ k => rfl
  have hroot : (new catalog).parent? root = none := rfl
  constructor
  case root => exact hroot
  case above =>
    intro x hx hne
    rw [hnone hne] at hx
    cases hx
  case named =>
    intro x p hp
    by_cases hx : x = root
    · rw [hx, hroot] at hp
      cases hp
    · rw [parent?, hnone hx] at hp
      cases hp
  case candidate =>
    intro F f hF
    by_cases hroot : F = root
    · rw [hroot] at hF
      cases hF
    · rw [hnone hroot] at hF
      cases hF
  case child =>
    intro a y hy
    by_cases ha : a = root
    · rw [ha] at hy
      cases hy
    · rw [children, component?, hnone ha] at hy
      cases hy

theorem Reachable.lineage (hc : c.Reachable) : c.Lineage := by
  have hboth : c.Forest ∧ c.Lineage := by
    refine Reachable.induction (P := fun c => c.Forest ∧ c.Lineage)
      (fun catalog => ⟨forest_new catalog, lineage_new catalog⟩) ?_ hc
    intro c c' hbase hkept hedit
    exact ⟨hkept.1.edit hedit, hkept.2.edit hbase hkept.1 hedit⟩
  exact hboth.2

theorem isSome_of_lt {x y : NodeId} (hy : (c.node? y).isSome) (h : x.index < y.index) :
    (c.node? x).isSome := by
  have hlt : x.index < c.nodes.size := h.trans (index_lt_nextNode hy)
  rw [node?, Array.getElem?_eq_getElem hlt, Option.isSome_some]

namespace Lineage

variable (hc : c.Lineage)
include hc

theorem lt_of_parent {x p : NodeId} (h : c.parent? x = some p) :
    (c.node? p).isSome ∧ p.index < x.index := by
  have hx : (c.node? x).isSome := by
    by_contra hnone
    rw [parent?, Option.not_isSome_iff_eq_none.1 hnone] at h
    cases h
  have hroot : x ≠ Circuit.root := by
    rintro rfl
    rw [hc.root] at h
    cases h
  obtain ⟨q, hq, hlt⟩ := hc.above x hx hroot
  have hqp : q = p := Option.some.inj (hq.symm.trans h)
  rw [← hqp]
  exact ⟨isSome_of_lt hx hlt, hlt⟩

theorem climb_eq {x : NodeId} {steps steps' : Nat} (h : x.index ≤ steps)
    (h' : x.index ≤ steps') : c.climb steps x = c.climb steps' x := by
  have hfirst {steps : Nat} {x : NodeId} (h : x.index ≤ 0) : c.climb steps x = [] := by
    have hroot : x = Circuit.root := NodeId.ext (Nat.le_zero.1 h)
    cases steps with
    | zero => rfl
    | succ steps =>
      rw [hroot, climb, hc.root]
      rfl
  induction steps generalizing x steps' with
  | zero => rw [hfirst h, hfirst h]
  | succ steps ih =>
    cases steps' with
    | zero => rw [hfirst h', hfirst h']
    | succ steps' =>
      rw [climb, climb]
      cases hp : c.parent? x with
      | none => rfl
      | some p =>
        have hlt := (hc.lt_of_parent hp).2
        have hsame : c.climb steps p = c.climb steps' p := ih (by omega) (by omega)
        rw [Option.elim_some, Option.elim_some, hsame]

theorem getLast?_climb {x : NodeId} {steps : Nat} (hx : (c.node? x).isSome)
    (h : x.index ≤ steps) : (x :: c.climb steps x).getLast? = some Circuit.root := by
  induction steps generalizing x with
  | zero =>
    have hroot : x = Circuit.root := NodeId.ext (Nat.le_zero.1 h)
    rw [hroot]
    rfl
  | succ steps ih =>
    by_cases hroot : x = Circuit.root
    · rw [hroot, climb, hc.root]
      rfl
    · obtain ⟨p, hp, hlt⟩ := hc.above x hx hroot
      rw [climb, hp, Option.elim_some, List.getLast?_cons_cons]
      exact ih (isSome_of_lt hx hlt) (by omega)

theorem ancestors_eq (x : NodeId) :
    c.ancestors x false = (c.parent? x).elim [] fun p => c.ancestors p true := by
  change c.climb (c.nodes.size + 1) x = _
  rw [climb]
  cases hp : c.parent? x with
  | none => rfl
  | some p =>
    have hlt := index_lt_nextNode (hc.lt_of_parent hp).1
    have hsame : c.climb c.nodes.size p = c.climb (c.nodes.size + 1) p :=
      hc.climb_eq hlt.le (Nat.le_succ_of_le hlt.le)
    rw [Option.elim_some, Option.elim_some, hsame]
    rfl

theorem ancestors_end (x : NodeId) (hx : (c.node? x).isSome) :
    (c.ancestors x true).getLast? = some Circuit.root :=
  hc.getLast?_climb hx (Nat.le_succ_of_le (index_lt_nextNode hx).le)

end Lineage

namespace Forest

variable (hc : c.Forest)
include hc

theorem below_eq (a : NodeId) :
    c.below a = (c.children a).flatMap fun y => (a, y) :: c.below y := by
  rw [below, walk]
  refine List.flatMap_congr fun y hy => ?_
  have hsame : c.walk c.nodes.size y = c.below y := hc.walk_eq (by omega) (by omega)
  rw [hsame]

/-- A walk goes from a node to later ones, which are bounded by the arena. -/
theorem wellFounded_children : WellFounded fun y a => y ∈ c.children a := by
  refine Subrelation.wf ?_ (measure fun x : NodeId => c.nodes.size - x.index).wf
  intro y a hy
  obtain ⟨hlt, hsome⟩ := hc.later a y hy
  have hbound : y.index < c.nodes.size := index_lt_nextNode hsome
  change c.nodes.size - y.index < c.nodes.size - a.index
  omega

theorem nodup_children : (((List.range c.nodes.size).map NodeId.mk).flatMap c.children).Nodup := by
  rw [List.nodup_flatMap]
  constructor
  · exact fun a _ => hc.nodup a
  · have hnodup : ((List.range c.nodes.size).map NodeId.mk).Nodup :=
      List.nodup_range.map fun _ _ h => congrArg NodeId.index h
    refine hnodup.imp fun {a b} hne => ?_
    intro y ha hb
    exact hne (hc.unique a b y ha hb)

theorem nodup_iterate (a : NodeId) (includeRoot : Bool) :
    ((c.iterate a includeRoot).map (·.2)).Nodup := by
  have hbelow : (c.below a).map (Prod.snd ∘ fun p => (some p.1, p.2)) = (c.below a).map (·.2) := rfl
  rw [iterate, List.map_append, List.map_map, hbelow]
  cases includeRoot with
  | true => exact hc.nodup_subtree a
  | false => exact hc.nodup_walk _ a

end Forest

/-- The nodes are a tree in both of its records, and the ways through it come to an end. -/
structure IsTree (c : Circuit) : Prop where
  root : c.parent? root = none
  /-- Every other node stands below an earlier one, whose reference its own extends. -/
  parent : ∀ x, (c.node? x).isSome → x ≠ Circuit.root →
    ∃ p, c.parent? x = some p ∧ p.index < x.index ∧ c.Names p (c.reference x)
  once : (((List.range c.nodes.size).map NodeId.mk).flatMap c.children).Nodup
  child : ∀ a, ∀ y ∈ c.children a, c.parent? y = some a
  /-- Going down comes to an end, so the walk through the whole tree is the one that is cut off. -/
  down : WellFounded fun y a => y ∈ c.children a
  below : ∀ a, c.below a = (c.children a).flatMap fun y => (a, y) :: c.below y
  visits : ∀ a includeRoot, ((c.iterate a includeRoot).map (·.2)).Nodup
  /-- Going up comes to an end, at the root. -/
  up : WellFounded fun p x => c.parent? x = some p
  ancestors : ∀ x, c.ancestors x false = (c.parent? x).elim [] fun p => c.ancestors p true
  top : ∀ x, (c.node? x).isSome → (c.ancestors x true).getLast? = some Circuit.root ∧
    (x ≠ Circuit.root → (c.ancestors x false).getLast? = some Circuit.root)

/-- The nodes of every reachable circuit are a tree. -/
theorem nodes_form_tree (hc : c.Reachable) : c.IsTree := by
  have hlineage := hc.lineage
  have hforest := hc.forest
  constructor
  case root => exact hlineage.root
  case parent =>
    intro x hx hroot
    obtain ⟨p, hp, hlt⟩ := hlineage.above x hx hroot
    exact ⟨p, hp, hlt, hlineage.named x p hp⟩
  case once => exact hforest.nodup_children
  case child => exact hlineage.child
  case down => exact hforest.wellFounded_children
  case below => exact hforest.below_eq
  case visits => exact hforest.nodup_iterate
  case up =>
    refine Subrelation.wf ?_ (measure NodeId.index).wf
    intro p x hp
    exact (hlineage.lt_of_parent hp).2
  case ancestors => exact hlineage.ancestors_eq
  case top =>
    intro x hx
    refine ⟨hlineage.ancestors_end x hx, fun hroot => ?_⟩
    obtain ⟨p, hp, hlt⟩ := hlineage.above x hx hroot
    rw [hlineage.ancestors_eq, hp, Option.elim_some]
    exact hlineage.ancestors_end p (isSome_of_lt hx hlt)

end Circuit

namespace Specimen

/-- A filter below a subcircuit, resolved to the second of its candidates. -/
def nesting : List Circuit.Instruction := [
  .subcircuit Circuit.root "A1" "reference" none,
  .filter ⟨1⟩ "U1" "pll" (some consumer),
  .candidate ⟨2⟩ consumer,
  .candidate ⟨2⟩ consumer,
  .part Circuit.root "U2" "oscillator" oscillator,
  .resolve ⟨2⟩ ⟨4⟩]

def nested : Circuit := (Circuit.new catalog).after nesting

end Specimen

/-- The candidate is in the tree instead of its filter, and the other one has a place beside it. -/
theorem nodes_form_tree_specimen : Specimen.nested.IsTree ∧
    Specimen.nested.iterate Circuit.root true =
      [(none, Circuit.root), (some Circuit.root, ⟨1⟩), (some ⟨1⟩, ⟨4⟩), (some Circuit.root, ⟨5⟩)] ∧
    Specimen.nested.ancestors ⟨3⟩ true = [⟨3⟩, ⟨1⟩, Circuit.root] ∧
    Specimen.nested.reference ⟨3⟩ = "A1.U1" := by
  refine ⟨?_, by decide +kernel, by decide +kernel, by decide +kernel⟩
  exact Circuit.nodes_form_tree ⟨Specimen.catalog, Specimen.nesting, rfl⟩

end BoardNets
