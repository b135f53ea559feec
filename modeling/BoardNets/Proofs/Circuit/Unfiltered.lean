import BoardNets.Proofs.Circuit.Forest

/-! Circuits without filters. A new component becomes the last child of another one at once, and
only the candidates of a filter wait outside the tree. A filter stays where it is even when a
candidate has replaced it, so a circuit that has no filter never had one, and all of its nodes are
in the tree. -/
namespace BoardNets
namespace Circuit

variable {c c' : Circuit}

def Unfiltered (c : Circuit) : Prop := ∀ F f, c.node? F ≠ some (.filter f)

def Whole (c : Circuit) : Prop := ∀ x, (c.node? x).isSome → c.InTree root x

theorem Unfiltered.before (hc : c'.Unfiltered) (h : Edit c c') : c.Unfiltered := by
  intro F f hF
  obtain ⟨f', hF', _⟩ := h.keeps_filter hF
  exact hc F f' hF'

namespace Whole

/-- Nothing else matters than which nodes are there and what their children are. -/
theorem congr (hc : c.Whole) (h : ∀ x, shape (c'.node? x) = shape (c.node? x)) : c'.Whole := by
  have hchildren (x : NodeId) : c'.children x = c.children x := by
    rw [children_eq, children_eq]
    exact (Prod.mk.inj (Prod.mk.inj (h x)).2).1
  intro x hx
  rw [(Prod.mk.inj (h x)).1] at hx
  exact (hc x hx).mono fun y z hz => by rwa [hchildren]

theorem grown (hc : c.Whole) {parent : NodeId} {n : Node} (hfresh : n.Fresh)
    (hp : (c.component? parent).isSome) : (c.grown parent n).Whole := by
  have hmem {a y : NodeId} := mem_children_grown (c := c) (a := a) (y := y) hfresh hp
  have hold {x : NodeId} (hx : (c.node? x).isSome) : (c.grown parent n).InTree root x :=
    (hc x hx).mono fun _ _ hy => hmem.2 (.inl hy)
  intro x hx
  rw [isSome_grown, node?_pushNode] at hx
  split at hx
  · rename_i hnext
    exact .child (hold (isSome_of_component hp)) (hmem.2 (.inr ⟨rfl, hnext⟩))
  · exact hold hx

theorem edit (hc : c.Whole) (hnone : c.Unfiltered) (h : Edit c c') : c'.Whole := by
  cases h with
  | child _ _ hfresh hp => exact hc.grown hfresh hp
  | candidate hF _ _ _ _ => exact (hnone _ _ hF).elim
  | link hF => exact (hnone _ _ hF).elim
  | ancillary => exact hc.congr fun x => view_editComponent (fun _ => by rfl) x
  | adapt _ _ => exact hc.congr fun x => view_editComponent (fun _ => by rfl) x
  | @require f owner _ _ howner =>
    refine hc.congr fun x => view_setNode (c := c.pushFragment f) howner ?_ x
    cases owner <;> rfl
  | stray _ _ _ => exact hc.congr fun _ => rfl
  | @wire id f w _ _ _ _ => exact hc.congr fun x => view_wired (fun _ _ => by rfl) id w x
  | @unwire id f _ _ => exact hc.congr fun x => view_releaseAll (fun _ _ => by rfl) f.entries x
  | resolve hF _ => exact (hnone _ _ hF).elim

end Whole

theorem whole_new (catalog : Catalog) : (new catalog).Whole := by
  rintro ⟨k⟩ hx
  cases k with
  | zero => exact .root
  | succ k => cases hx

theorem Reachable.whole (hc : c.Reachable) (hnone : c.Unfiltered) : c.Whole :=
  hc.induction (P := fun c => c.Unfiltered → c.Whole) (fun catalog _ => whole_new catalog)
    (fun _ _ _ hwhole hedit hnone' =>
      (hwhole (hnone'.before hedit)).edit (hnone'.before hedit) hedit)
    hnone

end Circuit
end BoardNets
