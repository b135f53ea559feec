import BoardNets.Proofs.Circuit.Instructions

/-! Who requires a fragment. Nodes collect the fragments that start at them, and a candidate takes
over those of its filter. The root is never a candidate, so what it requires starts at it. -/
namespace BoardNets
namespace Circuit

variable {c c' : Circuit}

def requirementsAt : Option Node → List FragmentId
  | some n => n.requirements
  | none => []

/-- What a node requires. -/
def requirementsOf (c : Circuit) (x : NodeId) : List FragmentId := requirementsAt (c.node? x)

theorem requirementsOf_eq {x : NodeId} {n : Node} (h : c.node? x = some n) :
    c.requirementsOf x = n.requirements := by
  rw [requirementsOf, h]
  rfl

theorem requirementsOf_require {f : Fragment} {owner : Node} {x : NodeId}
    (h : c.node? f.source.node = some owner) :
    ((c.pushFragment f).setNode f.source.node (owner.require c.nextFragment)).requirementsOf x =
      if x = f.source.node then c.requirementsOf x ++ [c.nextFragment] else c.requirementsOf x := by
  rw [requirementsOf, node?_setNode, node?_pushFragment]
  split
  · rename_i hx
    rw [hx, h, requirementsOf_eq h]
    cases owner <;> rfl
  · rfl

theorem node?_editComponent_of_ne {id x : NodeId} {g : Component → Component} (h : x ≠ id) :
    (c.editComponent id g).node? x = c.node? x := by
  rw [editComponent]
  cases c.component? id with
  | none => rfl
  | some p => rw [Option.elim_some, node?_setNode, if_neg h]

theorem requirementsOf_resolved {F x y : NodeId} {f : Filter} (h : y ≠ x) :
    (c.resolved F x f).requirementsOf y = c.requirementsOf y := by
  rw [requirementsOf, resolved, inherited, node?_editComponent_of_ne h]
  exact view_replaced (V := requirementsAt) (fun _ _ => rfl) (fun _ _ => rfl) f.parent F x f.links y

theorem requirementsAt_fresh {n : Node} (hn : n.Fresh) : requirementsAt (some n) = [] := by
  cases n with
  | component p => exact hn.2.2.1
  | filter f => exact hn.2.2

/-- Nodes keep their requirements, but for the source of a new fragment and for a candidate that
takes the place of its filter. -/
theorem Edit.requirements (h : Edit c c') (x : NodeId) : c'.requirementsOf x = c.requirementsOf x ∨
    (c'.requirementsOf x = c.requirementsOf x ++ [c.nextFragment] ∧
      ∃ f, c'.fragment? c.nextFragment = some f ∧ f.source.node = x) ∨
    ∃ F f, c.node? F = some (.filter f) ∧ x ∈ f.feasible := by
  simp only [requirementsOf]
  cases h with
  | child _ _ hfresh _ =>
    have hpush := view_pushNode (c := c) (requirementsAt_fresh hfresh) x
    exact .inl ((view_editComponent (fun _ => by rfl) x).trans hpush)
  | candidate hF _ _ _ hfresh =>
    have hpush := view_pushNode (c := c) (requirementsAt_fresh hfresh) x
    exact .inl ((view_setNode (node?_pushNode_of_some hF) (by rfl) x).trans hpush)
  | link hF => exact .inl (view_setNode hF (by rfl) x)
  | ancillary => exact .inl (view_editComponent (fun _ => by rfl) x)
  | adapt _ _ => exact .inl (view_editComponent (fun _ => by rfl) x)
  | @require f owner _ _ howner =>
    rw [← requirementsOf, requirementsOf_require howner]
    split
    · rename_i hx
      refine .inr (.inl ⟨rfl, f, ?_, hx.symm⟩)
      change (c.pushFragment f).fragment? c.nextFragment = some f
      rw [fragment?_pushFragment, if_pos rfl]
    · exact .inl rfl
  | stray _ _ _ => exact .inl rfl
  | @wire id f w _ _ _ _ => exact .inl (view_wired (fun _ _ => by rfl) id w x)
  | @unwire id f _ _ => exact .inl (view_releaseAll (fun _ _ => by rfl) f.entries x)
  | @resolve F y f hF hy =>
    by_cases h : x = y
    · exact .inr (.inr ⟨F, f, hF, h ▸ hy⟩)
    · exact .inl (requirementsOf_resolved h)

theorem Edit.source (h : Edit c c') {id : FragmentId} {f : Fragment} (hf : c.fragment? id = some f)
    (hp : (c.component? f.source.node).isSome) :
    ∃ g, c'.fragment? id = some g ∧ g.source.node = f.source.node := by
  have pushed (f' : Fragment) : (c.pushFragment f').fragment? id = some f := by
    rw [fragment?_pushFragment, if_neg, hf]
    rintro rfl
    simp [fragment?, nextFragment] at hf
  cases h with
  | child _ _ _ _ => exact ⟨f, by rwa [fragment?_editComponent], rfl⟩
  | candidate _ _ _ _ _ => exact ⟨f, hf, rfl⟩
  | link _ => exact ⟨f, hf, rfl⟩
  | ancillary => exact ⟨f, by rwa [fragment?_editComponent], rfl⟩
  | adapt _ _ => exact ⟨f, by rwa [fragment?_editComponent], rfl⟩
  | require _ _ _ => exact ⟨f, pushed _, rfl⟩
  | stray _ _ _ => exact ⟨f, pushed _, rfl⟩
  | @wire id' f' w _ _ _ _ =>
    rw [fragment?_wired, hf]
    split
    · exact ⟨_, rfl, rfl⟩
    · exact ⟨f, rfl, rfl⟩
  | unwire _ _ =>
    rw [fragment?_unwired, hf]
    split
    · exact ⟨_, rfl, rfl⟩
    · exact ⟨f, rfl, rfl⟩
  | @resolve F x _ hF _ =>
    rw [fragment?_resolved, hf]
    refine ⟨_, rfl, if_neg ?_⟩
    rintro hsource
    rw [hsource, component?, hF] at hp
    cases hp

/-- The root is a subcircuit and no candidate, and what it requires starts at it. -/
structure Rooted (c : Circuit) : Prop where
  subcircuit : ∃ p, c.component? root = some p ∧ p.isPart = false
  candidates : ∀ F f, c.node? F = some (.filter f) → root ∉ f.feasible
  requirements : ∀ id ∈ c.requirementsOf root, ∃ f, c.fragment? id = some f ∧ f.source.node = root

theorem nextNode_ne_root (hc : c.Rooted) : c.nextNode ≠ root := by
  obtain ⟨p, hp, _⟩ := hc.subcircuit
  intro h
  rw [← h, component?, node?_nextNode] at hp
  cases hp

theorem Rooted.edit (hc : c.Rooted) (h : Edit c c') : c'.Rooted := by
  obtain ⟨p, hp, hpart⟩ := hc.subcircuit
  refine ⟨?_, fun F f hF => ?_, fun id hid => ?_⟩
  · obtain ⟨q, hq, hpq⟩ := h.grows.components root p hp
    exact ⟨q, hq, by rwa [Component.isPart, hpq.kind]⟩
  · rcases h.filter hF with ⟨f', hf', hfeasible, _⟩ | ⟨hfeasible, _⟩ | ⟨f', hf', hfeasible, _⟩
    · exact hfeasible ▸ hc.candidates F f' hf'
    · simp [hfeasible]
    · rw [hfeasible, List.mem_append, List.mem_singleton, not_or]
      exact ⟨hc.candidates F f' hf', (nextNode_ne_root hc).symm⟩
  · have old (hid : id ∈ c.requirementsOf root) :
        ∃ f, c'.fragment? id = some f ∧ f.source.node = root := by
      obtain ⟨f, hf, hsource⟩ := hc.requirements id hid
      obtain ⟨g, hg, hsame⟩ := h.source hf (by rw [hsource, hp]; rfl)
      exact ⟨g, hg, hsame.trans hsource⟩
    rcases h.requirements root with hsame | ⟨hmore, hnew⟩ | ⟨F, f, hF, hroot⟩
    · exact old (hsame ▸ hid)
    · rw [hmore, List.mem_append, List.mem_singleton] at hid
      rcases hid with hid | rfl
      · exact old hid
      · exact hnew
    · exact absurd hroot (hc.candidates F f hF)

theorem rooted_new (catalog : Catalog) : (new catalog).Rooted where
  subcircuit := ⟨_, rfl, rfl⟩
  candidates := by
    intro F f hF
    obtain ⟨k⟩ := F
    cases k with
    | zero => cases hF
    | succ k => cases hF
  requirements := by
    intro id hid
    cases hid

theorem Reachable.rooted (hc : c.Reachable) : c.Rooted :=
  hc.induction rooted_new fun _ _ _ hrooted hedit => hrooted.edit hedit

end Circuit
end BoardNets
