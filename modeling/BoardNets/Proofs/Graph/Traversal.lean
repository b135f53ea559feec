import BoardNets.Proofs.Graph.Order
import BoardNets.Proofs.Search

/-! Connected components by search. A depth-first search from each node that no earlier search has
seen finds the same components, in the same order, as merging classes edge by edge does. What has
been seen is closed under edges, so a later search meets none of it. -/
namespace BoardNets
namespace Graph

open Std Search

variable {α : Type} {g : Graph α} {a b : α}

/-- What searches have seen, when it is what is linked to the nodes searched from. -/
def Seen (g : Graph α) (done seen : List α) : Prop := ∀ b, b ∈ seen ↔ ∃ a ∈ done, g.Linked a b

theorem Seen.skip {done seen : List α} (h : g.Seen done seen) (ha : a ∈ seen) :
    g.Seen (done ++ [a]) seen := by
  intro b
  simp only [h b, List.mem_append, List.mem_singleton, or_and_right, exists_or, exists_eq_left]
  refine ⟨.inl, ?_⟩
  rintro (hb | hab)
  · exact hb
  · obtain ⟨x, hx, hxa⟩ := (h a).1 ha
    exact ⟨x, hx, linked_trans hxa hab⟩

variable [DecidableEq α]

/-- The other ends of the edges of a node, which are taken in both directions. -/
def neighbours (g : Graph α) (a : α) : List α :=
  g.edges.flatMap fun e => (if e.1 = a then [e.2] else []) ++ if e.2 = a then [e.1] else []

theorem mem_neighbours : b ∈ g.neighbours a ↔ (a, b) ∈ g.edges ∨ (b, a) ∈ g.edges := by
  simp only [neighbours, List.mem_flatMap, List.mem_append, List.mem_ite_nil_right,
    List.mem_singleton, Prod.exists]
  constructor
  · rintro ⟨x, y, he, ⟨rfl, rfl⟩ | ⟨rfl, rfl⟩⟩
    · exact .inl he
    · exact .inr he
  · rintro (he | he)
    · exact ⟨a, b, he, .inl ⟨rfl, rfl⟩⟩
    · exact ⟨b, a, he, .inr ⟨rfl, rfl⟩⟩

variable [Ord α] [TransOrd α]

/-- The nodes that a depth-first search from a node visits. -/
def explore (g : Graph α) (a : α) : List α :=
  visits g.neighbours (1 + (g.nodes.flatMap g.neighbours).length) [a] ∅

/-- A search from each node that has not been seen, in the order of the nodes. -/
def explorations (g : Graph α) : (starts seen : List α) → List (List α)
  | [], _ => []
  | a :: starts, seen =>
    if a ∈ seen then explorations g starts seen
    else g.explore a :: explorations g starts (seen ++ g.explore a)

variable [LawfulEqOrd α]

theorem mem_explore (hg : g.WellFormed) (ha : a ∈ g.nodes) : b ∈ g.explore a ↔ g.Linked a b := by
  have hdomain : ∀ x, g.neighbours x ≠ [] → x ∈ g.nodes := by
    intro x hx
    obtain ⟨y, hy⟩ := List.exists_mem_of_ne_nil _ hx
    rcases mem_neighbours.1 hy with he | he
    · exact (hg.ends _ he).1
    · exact (hg.ends _ he).2
  simp only [explore, mem_visits_iff hdomain, Reaches, mem_neighbours, linked_iff_reflTransGen, ha,
    true_and]

theorem Seen.search {done seen : List α} (h : g.Seen done seen) (hg : g.WellFormed)
    (ha : a ∈ g.nodes) : g.Seen (done ++ [a]) (seen ++ g.explore a) := by
  intro b
  simp only [h b, List.mem_append, List.mem_singleton, or_and_right, exists_or, exists_eq_left,
    mem_explore hg ha]

/-- Searches from the nodes that are left. Each finds what is linked to a new node, together they
find all that has not been seen, and they stand in the order of their first nodes. -/
theorem explorations_spec (hg : g.WellFormed) {done starts seen : List α}
    (hnodes : g.nodes = done ++ starts) (hseen : g.Seen done seen) :
    (∀ c ∈ g.explorations starts seen, ∃ a ∈ starts, a ∉ seen ∧ c = g.explore a) ∧
      (∀ a ∈ starts, a ∈ seen ∨ ∃ c ∈ g.explorations starts seen, a ∈ c) ∧
      ((g.explorations starts seen).map SortedSet.ofList).Pairwise (Before g.nodes) := by
  induction starts generalizing done seen with
  | nil => simp [explorations]
  | cons a starts ih =>
    have ha : a ∈ g.nodes := by simp [hnodes]
    have hnodes' : g.nodes = done ++ [a] ++ starts := by simp [hnodes]
    rw [explorations]
    by_cases hin : a ∈ seen
    · rw [if_pos hin]
      obtain ⟨hnew, hall, hordered⟩ := ih hnodes' (hseen.skip hin)
      refine ⟨fun c hc => ?_, List.forall_mem_cons.2 ⟨.inl hin, hall⟩, hordered⟩
      obtain ⟨x, hx, hc⟩ := hnew c hc
      exact ⟨x, List.mem_cons_of_mem a hx, hc⟩
    · rw [if_neg hin]
      have hseen' := hseen.search hg ha
      obtain ⟨hnew, hall, hordered⟩ := ih hnodes' hseen'
      have hself : a ∈ g.explore a := (mem_explore hg ha).2 (.refl ha)
      refine ⟨List.forall_mem_cons.2 ⟨⟨a, by simp, hin, rfl⟩, fun c hc => ?_⟩,
        List.forall_mem_cons.2 ⟨.inr ⟨_, by simp, hself⟩, fun x hx => ?_⟩, ?_⟩
      · obtain ⟨x, hx, hxnew, rfl⟩ := hnew c hc
        exact ⟨x, List.mem_cons_of_mem a hx, fun h => hxnew (List.mem_append_left _ h), rfl⟩
      · rcases hall x hx with h | ⟨c, hc, hxc⟩
        · exact (List.mem_append.1 h).imp_right fun h => ⟨_, by simp, h⟩
        · exact .inr ⟨c, List.mem_cons_of_mem _ hc, hxc⟩
      · rw [List.map_cons, List.pairwise_cons]
        refine ⟨fun t ht => ⟨a, SortedSet.mem_ofList.2 hself, fun b hb => ?_⟩, hordered⟩
        obtain ⟨_, hc, rfl⟩ := List.mem_map.1 ht
        obtain ⟨x, hx, hxnew, rfl⟩ := hnew _ hc
        -- a node searched from before would have led to the start of the later search
        have hxb := (mem_explore hg (by simp [hnodes, hx])).1 (SortedSet.mem_ofList.1 hb)
        have hlate : b ∉ done ++ [a] := fun h =>
          hxnew ((hseen' x).2 ⟨b, h, linked_symm hg hxb⟩)
        have hb := linked_mem_right hg hxb
        rw [hnodes', List.mem_append] at hb
        rw [hnodes]
        exact idxOf_lt_of_mem (hnodes ▸ hg.nodup) (hb.resolve_left hlate)

theorem nodup_explorations (hg : g.WellFormed) : ∀ c ∈ g.explorations g.nodes [], c.Nodup := by
  obtain ⟨hnew, _⟩ :=
    explorations_spec hg (List.nil_append _).symm (fun b => by simp : g.Seen [] [])
  intro c hc
  obtain ⟨a, _, _, rfl⟩ := hnew c hc
  exact (nodup_visits _ _ _ _).1

theorem components_eq_explorations (hg : g.WellFormed) :
    g.components = (g.explorations g.nodes []).map SortedSet.ofList := by
  obtain ⟨hnew, hall, hordered⟩ :=
    explorations_spec hg (List.nil_append _).symm (fun b => by simp : g.Seen [] [])
  have hset {a : α} (ha : a ∈ g.nodes) (b : α) :
      b ∈ SortedSet.ofList (g.explore a) ↔ g.Linked a b := by
    rw [SortedSet.mem_ofList, mem_explore hg ha]
  refine eq_of_before (before_components hg) hordered fun s => ?_
  rw [mem_components_iff hg, List.mem_map]
  constructor
  · rintro ⟨a, ha, hs⟩
    obtain ⟨c, hc, hac⟩ := (hall a ha).resolve_left (by simp)
    obtain ⟨x, hx, _, rfl⟩ := hnew c hc
    have hxa := (mem_explore hg hx).1 hac
    refine ⟨_, hc, SortedSet.ext fun b => ?_⟩
    rw [hset hx, hs]
    exact ⟨linked_trans (linked_symm hg hxa), linked_trans hxa⟩
  · rintro ⟨c, hc, rfl⟩
    obtain ⟨x, hx, _, rfl⟩ := hnew c hc
    exact ⟨x, hx, hset hx⟩

end Graph
end BoardNets
