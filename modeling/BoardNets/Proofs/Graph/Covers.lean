import BoardNets.Proofs.Graph.Components

/-! Connected components as sets. They are the classes of linked nodes, so graphs with the same
nodes and edges have the same ones whatever order these were added in; and sets that cover a graph,
are joined by its edges and are not left by any of them are its components. -/
namespace BoardNets
namespace Graph

open Std

variable {α : Type} {g g' : Graph α}

theorem linked_congr (hnodes : ∀ a, a ∈ g'.nodes ↔ a ∈ g.nodes)
    (hedges : ∀ e, e ∈ g'.edges ↔ e ∈ g.edges) {a b : α} : g'.Linked a b ↔ g.Linked a b := by
  rw [linked_iff_reflTransGen, linked_iff_reflTransGen, hnodes]
  simp only [hedges]

variable [Ord α]

structure Covers (g : Graph α) (P : SortedSet α → Prop) : Prop where
  joined : ∀ s, P s → ∃ a ∈ s, ∀ b ∈ s, g.Linked a b
  closed : ∀ s, P s → ∀ e ∈ g.edges, e.1 ∈ s ↔ e.2 ∈ s
  all : ∀ a ∈ g.nodes, ∃ s, P s ∧ a ∈ s

theorem Covers.mem_of_linked {P : SortedSet α → Prop} (h : g.Covers P) {s : SortedSet α} (hs : P s)
    {a b : α} (ha : a ∈ s) (hab : g.Linked a b) : b ∈ s := by
  induction hab with
  | refl _ => exact ha
  | step _ hedge ih =>
    rcases hedge with hedge | hedge
    · exact (h.closed s hs _ hedge).1 ih
    · exact (h.closed s hs _ hedge).2 ih

variable [DecidableEq α] [TransOrd α] [LawfulEqOrd α]

theorem exists_component {a : α} (ha : a ∈ g.nodes) : ∃ s ∈ g.components, a ∈ s := by
  obtain ⟨c, hc, hac⟩ := List.mem_flatten.1 ((classes_flatten_perm g).mem_iff.2 ha)
  exact ⟨.ofList c, List.mem_map_of_mem hc, SortedSet.mem_ofList.2 hac⟩

theorem pairwise_components (hg : g.WellFormed) :
    g.components.Pairwise fun s t => ∀ a ∈ s, a ∉ t := by
  have hnodup : g.classes.flatten.Nodup := (classes_flatten_perm g).nodup_iff.2 hg.nodup
  rw [components, List.pairwise_map]
  refine (List.nodup_flatten.1 hnodup).2.imp fun hdisjoint a ha hb => ?_
  rw [SortedSet.mem_ofList] at ha hb
  exact hdisjoint ha hb

theorem mem_components_iff (hg : g.WellFormed) {s : SortedSet α} :
    s ∈ g.components ↔ ∃ a ∈ g.nodes, ∀ b, b ∈ s ↔ g.Linked a b := by
  have hperm := classes_flatten_perm g
  have hnodup : g.classes.flatten.Nodup := hperm.nodup_iff.2 hg.nodup
  have hclass {c : List α} (hc : c ∈ g.classes) {a : α} (ha : a ∈ c) (b : α) :
      b ∈ c ↔ g.Linked a b := by
    rw [← together_classes_iff hg]
    constructor
    · exact fun hb => ⟨c, hc, ha, hb⟩
    · rintro ⟨d, hd, had, hbd⟩
      rwa [class_unique hnodup hc hd ha had]
  constructor
  · intro hs
    obtain ⟨c, hc, rfl⟩ := List.mem_map.1 hs
    obtain ⟨a, ha⟩ := List.exists_mem_of_ne_nil c (classes_ne_nil hc)
    refine ⟨a, hperm.mem_iff.1 (List.mem_flatten.2 ⟨c, hc, ha⟩), fun b => ?_⟩
    rw [SortedSet.mem_ofList]
    exact hclass hc ha b
  · rintro ⟨a, ha, hs⟩
    obtain ⟨c, hc, hac⟩ := List.mem_flatten.1 (hperm.mem_iff.2 ha)
    refine List.mem_map.2 ⟨c, hc, SortedSet.ext fun b => ?_⟩
    rw [SortedSet.mem_ofList, hs, hclass hc hac]

theorem mem_nodes_of_component (hg : g.WellFormed) {s : SortedSet α} (hs : s ∈ g.components) {a : α}
    (ha : a ∈ s) : a ∈ g.nodes := by
  obtain ⟨base, _, hbase⟩ := (mem_components_iff hg).1 hs
  exact linked_mem_left (linked_symm hg ((hbase a).1 ha))

theorem mem_component_iff_of_edge (hg : g.WellFormed) {s : SortedSet α} (hs : s ∈ g.components)
    {e : α × α} (he : e ∈ g.edges) : e.1 ∈ s ↔ e.2 ∈ s := by
  obtain ⟨base, _, hbase⟩ := (mem_components_iff hg).1 hs
  rw [hbase, hbase]
  exact ⟨fun h => .step h (.inl he), fun h => .step h (.inr he)⟩

theorem mem_components_congr (hg : g.WellFormed) (hg' : g'.WellFormed)
    (hnodes : ∀ a, a ∈ g'.nodes ↔ a ∈ g.nodes) (hedges : ∀ e, e ∈ g'.edges ↔ e ∈ g.edges)
    {s : SortedSet α} : s ∈ g'.components ↔ s ∈ g.components := by
  rw [mem_components_iff hg, mem_components_iff hg']
  simp only [hnodes, linked_congr hnodes hedges]

theorem Covers.mem_components_iff {P : SortedSet α → Prop} (h : g.Covers P) (hg : g.WellFormed)
    {s : SortedSet α} : s ∈ g.components ↔ P s := by
  rw [Graph.mem_components_iff hg]
  constructor
  · rintro ⟨a, ha, hs⟩
    obtain ⟨t, ht, hat⟩ := h.all a ha
    obtain ⟨base, _, hbase⟩ := h.joined t ht
    have hst : s = t := by
      refine SortedSet.ext fun b => ?_
      rw [hs]
      constructor
      · exact h.mem_of_linked ht hat
      · exact fun hb => linked_trans (linked_symm hg (hbase a hat)) (hbase b hb)
    exact hst ▸ ht
  · intro hs
    obtain ⟨base, hin, hbase⟩ := h.joined s hs
    exact ⟨base, linked_mem_left (hbase base hin), fun b => ⟨hbase b, h.mem_of_linked hs hin⟩⟩

end Graph
end BoardNets
