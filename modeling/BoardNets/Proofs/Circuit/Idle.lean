import BoardNets.Proofs.Bus.Agreement
import BoardNets.Proofs.Bus.Partition
import BoardNets.Proofs.Circuit.Additions
import BoardNets.Proofs.Circuit.Anchors
import BoardNets.Proofs.Circuit.Lineage

/-! Idle parts: added parts that require nothing and are in no role. What is asked of the tree or of
a node that was there is answered as it was without them, provided that ancillaries are bound to
nodes that were there too. -/
namespace BoardNets
namespace Circuit

/-- Every ancillary is bound to nodes that are there. -/
def Standing (c : Circuit) : Prop :=
  ∀ x p a, c.component? x = some p → p.ancillary = some a → a.binding.Stands c

theorem standing_iff {c : Circuit} : c.Standing ↔ ∀ k < c.nodes.size,
    ∀ a ∈ (c.component? ⟨k⟩).bind Component.ancillary, a.binding.Stands c := by
  constructor
  · intro h k _ a ha
    obtain ⟨p, hp, ha⟩ := Option.bind_eq_some_iff.1 ha
    exact h ⟨k⟩ p a hp ha
  · intro h x p a hp ha
    exact h x.index (index_lt_nextNode (has_of_component? hp)) a
      (Option.bind_eq_some_iff.2 ⟨p, hp, ha⟩)

instance (c : Circuit) : Decidable c.Standing := decidable_of_iff' _ standing_iff

/-- A circuit of standing ancillaries, and the same with idle parts added. -/
structure Idles (c c' : Circuit) (added : List NodeId) : Prop extends c.Adds c' added where
  old : c.Reachable
  new : c'.Reachable
  standing : c.Standing
  idle : ∀ x ∈ added, ∀ p, c'.component? x = some p → p.ancillary = none

variable {c c' : Circuit} {added : List NodeId}

namespace Adds

variable (h : c.Adds c' added)
include h

/-- What is asked of a component, other than its children, is answered as before. -/
theorem component_bind {β : Type} {x : NodeId} (hx : c.Has x) {f : Component → Result β}
    (hf : ∀ p children, f { p with children } = f p) :
    c'.component x >>= f = c.component x >>= f := by
  cases hp' : c'.component? x with
  | some p' =>
    obtain ⟨p, children, hp, rfl⟩ := h.component_of_has hx hp'
    rw [component_eq_ok.2 hp', component_eq_ok.2 hp]
    exact hf p children
  | none =>
    obtain ⟨n, n', hn, hn', hlike⟩ := h.at_node hx
    cases hlike with
    | component children ancillary =>
      rw [component?_eq_some.2 hn'] at hp'
      cases hp'
    | filter f => simp only [component, node, hn, hn']

theorem isAncillary {x : NodeId} (hx : c.Has x) : c'.isAncillary x = c.isAncillary x := by
  rw [Circuit.isAncillary, Circuit.isAncillary]
  cases hp' : c'.component? x with
  | some p' =>
    obtain ⟨p, children, hp, rfl⟩ := h.component_of_has hx hp'
    rw [hp]
    rfl
  | none =>
    cases hp : c.component? x with
    | none => rfl
    | some p =>
      obtain ⟨_, _, hsome⟩ := h.component hp
      rw [hsome] at hp'
      cases hp'

theorem assignedInterfacePin {p : ComponentPin} (hp : c.Has p.component) :
    c'.assignedInterfacePin p = c.assignedInterfacePin p :=
  h.component_bind hp fun _ _ => rfl

theorem firstUsed {pins : List ComponentPin} (hpins : ∀ p ∈ pins, c.Has p.component) :
    c'.firstUsed pins = c.firstUsed pins := by
  induction pins with
  | nil => rfl
  | cons p pins ih =>
    obtain ⟨hp, hpins⟩ := List.forall_mem_cons.1 hpins
    rw [Circuit.firstUsed, Circuit.firstUsed, h.assignedInterfacePin hp, ih hpins]

variable (hc : c.Reachable)
include hc

theorem checkResolved : c'.checkResolved root = c.checkResolved root := by
  have hfilters : c'.unresolvedFilters root = c.unresolvedFilters root := by
    rw [unresolvedFilters, unresolvedFilters, ← h.filter_subtree hc.forest hc.has_root,
      List.filter_filter]
    refine List.filter_congr fun x hx => ?_
    by_cases hold : c.Has x
    · obtain ⟨n, n', hn, hn', hlike⟩ := h.at_node hold
      rw [isFilter, isFilter, hn, hn', decide_eq_true hold, Bool.and_true]
      cases hlike <;> rfl
    · obtain ⟨p, hp, _⟩ := h.parts x ((h.mem_added x).2 ⟨mem_subtree_iff.1 hx, hold⟩)
      rw [isFilter, component?_eq_some.1 hp, decide_eq_false hold, Bool.and_false]
  rw [Circuit.checkResolved, Circuit.checkResolved, hfilters]
  cases hhead : (c.unresolvedFilters root).head? with
  | none => rfl
  | some x =>
    have hx := (List.mem_filter.1 (List.mem_of_mem_head? hhead)).1
    rw [Option.elim_some, Option.elim_some,
      h.reference (hc.forest.has_of_inTree hc.has_root (mem_subtree_iff.1 hx))]

theorem flattenedBuses_eq : c'.flattenedBuses root = c.flattenedBuses root := by
  have hbuses (c : Circuit) : c.flattenedBuses root = List.flatMap id <$>
      (((c.below root).map (·.2)).mapM fun n => do
        (← c.component n).requirements.mapM c.busMember) >>= fun members =>
      (joined members).components.mapM fun interfaces => Bus.ofMembers c (members.filter fun m =>
        m.sourceInterface ∈ interfaces ∨ m.targetInterface ∈ interfaces) := by
    have hdescendants : c.descendants root true = (c.below root).map (·.2) := by
      simp [descendants]
    rw [Circuit.flattenedBuses, buses, bind_map_left, hdescendants]
    simp only [List.flatMap_id]
    rfl
  rw [hbuses, hbuses]
  refine bind_congr_of_ok ?_ fun members hmembers => mapM_congr fun interfaces _ =>
    h.ofMembers fun m hm => ?_
  · rw [← h.filter_below hc.forest hc.has_root]
    refine mapM_flatMap_filter (fun x _ hold => ?_) fun x hx hnew => ?_
    · have hhas := of_decide_eq_true hold
      rw [h.component_bind hhas fun _ _ => rfl]
      refine congrArg (id <$> ·) (bind_congr_of_ok rfl fun p hp => mapM_congr fun id hid => ?_)
      have hlisted : id ∈ c.requirementsOf x := by
        rwa [requirementsOf_eq (component?_eq_some.1 (component_eq_ok.1 hp))]
      obtain ⟨s, t, hends, hs, ht⟩ := hc.moored x id hlisted
      exact h.busMember_eq hends hs ht
    · have htree : c'.InTree root x := mem_subtree_iff.1 (List.mem_cons_of_mem _ hx)
      obtain ⟨p, hp, _, hnone⟩ := h.parts x ((h.mem_added x).2 ⟨htree, of_decide_eq_false hnew⟩)
      rw [component_eq_ok.2 hp]
      change id <$> p.requirements.mapM c'.busMember = .ok []
      rw [hnone]
      rfl
  · obtain ⟨lists, hlists, rfl⟩ : ∃ lists, (((c.below root).map (·.2)).mapM fun n => do
        (← c.component n).requirements.mapM c.busMember) = .ok lists ∧
        lists.flatMap id = members := by
      rw [map_eq_pure_bind, bind_eq_ok] at hmembers
      obtain ⟨lists, hlists, hflat⟩ := hmembers
      exact ⟨lists, hlists, pure_eq_ok.1 hflat⟩
    obtain ⟨list, hlist, hmem⟩ := List.mem_flatMap.1 (List.mem_filter.1 hm).1
    obtain ⟨x, _, hx⟩ := (mem_of_mapM hlists).1 hlist
    obtain ⟨p, _, hp⟩ := bind_eq_ok.1 hx
    obtain ⟨id, _, hid⟩ := (mem_of_mapM hp).1 hmem
    exact knows_of_busMember hid

theorem ancestors (hc' : c'.Reachable) {x : NodeId} (hx : c.Has x) :
    c'.ancestors x true = c.ancestors x true := by
  have hparent {x : NodeId} (hx : c.Has x) : c'.parent? x = c.parent? x := by
    obtain ⟨n, n', hn, hn', hlike⟩ := h.at_node hx
    rw [parent?, parent?, hn, hn']
    cases hlike <;> rfl
  have hclimb (steps : Nat) {x : NodeId} (hx : c.Has x) : c'.climb steps x = c.climb steps x := by
    induction steps generalizing x with
    | zero => rfl
    | succ steps ih =>
      rw [climb, climb, hparent hx]
      cases hp : c.parent? x with
      | none => rfl
      | some p => rw [Option.elim_some, Option.elim_some, ih (hc.lineage.lt_of_parent hp).1]
  have hindex : x.index < c.nodes.size := index_lt_nextNode hx
  have hsize := h.size_le
  have hsame : c'.climb (c'.nodes.size + 1) x = c'.climb (c.nodes.size + 1) x :=
    hc'.lineage.climb_eq (by omega) (by omega)
  rw [Circuit.ancestors, Circuit.ancestors, hsame, hclimb _ hx]

end Adds

namespace Idles

variable (h : c.Idles c' added)
include h

theorem ancillaries : c'.ancillaries = c.ancillaries := by
  rw [← h.filter_ancillaries h.old.forest h.old.has_root]
  refine (List.filter_eq_self.2 fun e he => ?_).symm
  obtain ⟨htree, p, hp, _, ha⟩ := mem_ancillaries.1 he
  by_contra hnew
  have hnone := h.idle e.1 ((h.mem_added e.1).2 ⟨htree, by simpa using hnew⟩) p hp
  rw [hnone] at ha
  cases ha

theorem stands {e : NodeId × Ancillary} (he : e ∈ c.ancillaries) :
    c.Has e.1 ∧ e.2.binding.Stands c := by
  obtain ⟨_, p, hp, _, ha⟩ := mem_ancillaries.1 he
  exact ⟨has_of_component? hp, h.standing _ p _ hp ha⟩

theorem ancillaryParts {d d' : Design} (hd : d.circuit = c) (hd' : d'.circuit = c')
    {test : Ancillary → Result Bool} : d'.ancillaryParts test = d.ancillaryParts test := by
  rw [Design.ancillaryParts, Design.ancillaryParts, atomicComponents, atomicComponents, hd, hd',
    h.checkResolved h.old, ← h.filter_parts h.old.forest h.old.has_root, bind_assoc, bind_assoc]
  refine bind_congr fun _ => ?_
  rw [pure_bind, pure_bind]
  refine filterM_filter (fun x _ hold => ?_) fun x hx hnew => ?_
  · exact h.component_bind (of_decide_eq_true hold) fun _ _ => rfl
  · have htree : c'.InTree root x := mem_subtree_iff.1 (List.mem_filter.1 hx).1
    have hadded := (h.mem_added x).2 ⟨htree, of_decide_eq_false hnew⟩
    obtain ⟨p, hp, _⟩ := h.parts x hadded
    refine bind_eq_ok.2 ⟨p, component_eq_ok.2 hp, ?_⟩
    rw [h.idle x hadded p hp]
    rfl

end Idles
end Circuit
end BoardNets
