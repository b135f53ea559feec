import BoardNets.Proofs.Graph.Covers

/-! Graphs that hold a copy of another one under other names. Beside the copy there are separate
edges and lone nodes, and neither touches the other, so the components are those of the copied graph
under their new names, the ends of each separate edge, and each lone node by itself. -/
namespace BoardNets
namespace Graph

open Std

variable {α : Type} {g g' : Graph α}

def IsEnd (e : α × α) (a : α) : Prop := a = e.1 ∨ a = e.2

/-- A copy of `g` under the names that `f` gives, beside edges with ends of their own and lone
nodes. -/
structure Relocates (g g' : Graph α) (f : α → α) (extra : List (α × α)) (lone : α → Prop) :
    Prop where
  nodes : ∀ a, a ∈ g'.nodes ↔
    (∃ b ∈ g.nodes, a = f b) ∨ (∃ e ∈ extra, IsEnd e a) ∨ lone a
  edges : ∀ e, e ∈ g'.edges ↔ e ∈ extra ∨ ∃ d ∈ g.edges, e = (f d.1, f d.2)
  injective : ∀ a ∈ g.nodes, ∀ b ∈ g.nodes, f a = f b → a = b
  extra_apart : ∀ e ∈ extra, ∀ a, IsEnd e a → ¬lone a ∧ ∀ b ∈ g.nodes, a ≠ f b
  lone_apart : ∀ a, lone a → ∀ b ∈ g.nodes, a ≠ f b
  extra_disjoint : ∀ e ∈ extra, ∀ d ∈ extra, ∀ a, IsEnd e a → IsEnd d a → e = d

variable {f : α → α} {extra : List (α × α)} {lone : α → Prop}

namespace Relocates

variable (h : Relocates g g' f extra lone)
include h

theorem linked {a b : α} (hab : g.Linked a b) : g'.Linked (f a) (f b) := by
  induction hab with
  | refl ha => exact .refl ((h.nodes _).2 (.inl ⟨_, ha, rfl⟩))
  | step _ hedge ih =>
    refine .step ih (hedge.imp (fun hedge => ?_) fun hedge => ?_)
    · exact (h.edges _).2 (.inr ⟨_, hedge, rfl⟩)
    · exact (h.edges _).2 (.inr ⟨_, hedge, rfl⟩)

theorem linked_extra {e : α × α} (he : e ∈ extra) {b : α} (hb : IsEnd e b) :
    g'.Linked e.1 b := by
  have hfirst : g'.Linked e.1 e.1 := .refl ((h.nodes _).2 (.inr (.inl ⟨e, he, .inl rfl⟩)))
  rcases hb with rfl | rfl
  · exact hfirst
  · exact .step hfirst (.inl ((h.edges e).2 (.inl he)))

end Relocates

variable [Ord α] [TransOrd α] [LawfulEqOrd α]

theorem mem_copy {t : SortedSet α} {a : α} :
    a ∈ SortedSet.ofList (t.toList.map f) ↔ ∃ b ∈ t, f b = a := by
  rw [SortedSet.mem_ofList, List.mem_map]
  rfl

theorem mem_ends {e : α × α} {a : α} : a ∈ SortedSet.ofList [e.1, e.2] ↔ IsEnd e a := by
  rw [SortedSet.mem_ofList, List.mem_pair, IsEnd]

theorem mem_alone {a b : α} : a ∈ SortedSet.ofList [b] ↔ a = b := by
  rw [SortedSet.mem_ofList, List.mem_singleton]

variable [DecidableEq α]

/-- What a graph that relocates another one falls into. -/
inductive Pieces (g : Graph α) (f : α → α) (extra : List (α × α)) (lone : α → Prop) :
    SortedSet α → Prop
  | copy {t : SortedSet α} : t ∈ g.components →
      Pieces g f extra lone (.ofList (t.toList.map f))
  | extra {e : α × α} : e ∈ extra → Pieces g f extra lone (.ofList [e.1, e.2])
  | lone {a : α} : lone a → Pieces g f extra lone (.ofList [a])

namespace Relocates

variable (h : Relocates g g' f extra lone) (hg : g.WellFormed) {s : SortedSet α}
include h hg

theorem eq_ends (hs : Pieces g f extra lone s) {e : α × α} (he : e ∈ extra) {a : α}
    (ha : IsEnd e a) (has : a ∈ s) : s = .ofList [e.1, e.2] := by
  obtain ⟨hlone, hout⟩ := h.extra_apart e he a ha
  rcases hs with ht | hd | hl
  · obtain ⟨b, hb, rfl⟩ := mem_copy.1 has
    exact absurd rfl (hout b (mem_nodes_of_component hg ht hb))
  · rw [h.extra_disjoint e he _ hd a ha (mem_ends.1 has)]
  · exact absurd (mem_alone.1 has ▸ hl) hlone

theorem eq_copy (hs : Pieces g f extra lone s) {b : α} (hb : b ∈ g.nodes) (hbs : f b ∈ s) :
    ∃ t ∈ g.components, s = .ofList (t.toList.map f) ∧ b ∈ t := by
  rcases hs with ht | he | hl
  · obtain ⟨a, ha, hab⟩ := mem_copy.1 hbs
    exact ⟨_, ht, rfl, h.injective a (mem_nodes_of_component hg ht ha) b hb hab ▸ ha⟩
  · exact absurd rfl ((h.extra_apart _ he _ (mem_ends.1 hbs)).2 b hb)
  · exact absurd (mem_alone.1 hbs).symm (h.lone_apart _ hl b hb)

theorem covers : g'.Covers (Pieces g f extra lone) where
  joined := by
    rintro s (ht | he | ha)
    · obtain ⟨base, hnode, hbase⟩ := (mem_components_iff hg).1 ht
      refine ⟨f base, mem_copy.2 ⟨base, (hbase base).2 (.refl hnode), rfl⟩, fun b hb => ?_⟩
      obtain ⟨a, ha, rfl⟩ := mem_copy.1 hb
      exact h.linked ((hbase a).1 ha)
    · exact ⟨_, mem_ends.2 (.inl rfl), fun b hb => h.linked_extra he (mem_ends.1 hb)⟩
    · refine ⟨_, mem_alone.2 rfl, fun b hb => ?_⟩
      obtain rfl := mem_alone.1 hb
      exact .refl ((h.nodes b).2 (.inr (.inr ha)))
  closed := by
    intro s hs e he
    rcases (h.edges e).1 he with he | ⟨d, hd, rfl⟩
    · have hwhole {a b : α} (ha : IsEnd e a) (hb : IsEnd e b) (has : a ∈ s) : b ∈ s := by
        rw [h.eq_ends hg hs he ha has]
        exact mem_ends.2 hb
      exact ⟨hwhole (.inl rfl) (.inr rfl), hwhole (.inr rfl) (.inl rfl)⟩
    · -- a copied edge stays within the copy of the component that has it
      have hends := hg.ends d hd
      constructor
      · intro hds
        obtain ⟨t, ht, rfl, hdt⟩ := h.eq_copy hg hs hends.1 hds
        exact mem_copy.2 ⟨d.2, (mem_component_iff_of_edge hg ht hd).1 hdt, rfl⟩
      · intro hds
        obtain ⟨t, ht, rfl, hdt⟩ := h.eq_copy hg hs hends.2 hds
        exact mem_copy.2 ⟨d.1, (mem_component_iff_of_edge hg ht hd).2 hdt, rfl⟩
  all := by
    intro a ha
    rcases (h.nodes a).1 ha with ⟨b, hb, rfl⟩ | ⟨e, he, hend⟩ | ha
    · obtain ⟨t, ht, hbt⟩ := exists_component hb
      exact ⟨_, .copy ht, mem_copy.2 ⟨b, hbt, rfl⟩⟩
    · exact ⟨_, .extra he, mem_ends.2 hend⟩
    · exact ⟨_, .lone ha, mem_alone.2 rfl⟩

end Relocates

theorem Relocates.mem_components (h : Relocates g g' f extra lone) (hg : g.WellFormed)
    (hg' : g'.WellFormed) {s : SortedSet α} :
    s ∈ g'.components ↔ Pieces g f extra lone s :=
  (h.covers hg).mem_components_iff hg'

end Graph
end BoardNets
