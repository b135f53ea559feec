import BoardNets.Proofs.Graph.Covers

/-! The order of connected components. A merged class keeps the place of its earlier part and begins
with its first node, so classes stand in the order of their first nodes. Which order edges were
added in is not to be seen there, and neither are lone nodes but for themselves. -/
namespace BoardNets
namespace Graph

open Std

variable {α : Type} [DecidableEq α] {ns : List α}

/-- The first node of a class comes before all nodes of another one. -/
def Precedes (ns c d : List α) : Prop := ∃ a, c.head? = some a ∧ ∀ b ∈ d, ns.idxOf a < ns.idxOf b

theorem pairwise_join {cs : List (List α)} (a b : α) (hcs : cs.Pairwise (Precedes ns))
    (hne : ∀ c ∈ cs, c ≠ []) : (join a b cs).Pairwise (Precedes ns) := by
  induction cs with
  | nil => exact .nil
  | cons c cs ih =>
    obtain ⟨hc, hcs⟩ := List.pairwise_cons.1 hcs
    obtain ⟨hcne, hne⟩ := List.forall_mem_cons.1 hne
    obtain ⟨x, hx⟩ := Option.ne_none_iff_exists'.1 (mt List.head?_eq_none_iff.1 hcne)
    have hfirst : ∀ d ∈ cs, ∀ y ∈ d, ns.idxOf x < ns.idxOf y := by
      intro d hd y hy
      obtain ⟨x', hx', hbefore⟩ := hc d hd
      obtain rfl := Option.some.inj (hx.symm.trans hx')
      exact hbefore y hy
    rw [join]
    split
    · refine List.pairwise_cons.2 ⟨fun d hd => ⟨x, ?_, ?_⟩, hcs.filter _⟩
      · rw [List.head?_append, hx, Option.some_or]
      · exact hfirst d (List.mem_of_mem_filter hd)
    · refine List.pairwise_cons.2 ⟨fun d hd => ⟨x, hx, fun y hy => ?_⟩, ih hcs hne⟩
      rcases mem_join.1 hd with ⟨hd, _⟩ | ⟨_, rfl⟩
      · exact hfirst d hd y hy
      · obtain ⟨e, he, hy⟩ := List.mem_flatten.1 hy
        exact hfirst e (List.mem_of_mem_filter he) y hy

theorem pairwise_idxOf (hns : ns.Nodup) : ns.Pairwise fun a b => ns.idxOf a < ns.idxOf b := by
  rw [List.pairwise_iff_getElem]
  intro i j hi hj hij
  rwa [hns.idxOf_getElem, hns.idxOf_getElem]

/-- What stands earlier in a list without repetition is found earlier. -/
theorem idxOf_lt_of_mem {a b : α} {done rest : List α} (h : (done ++ a :: rest).Nodup)
    (hb : b ∈ rest) : (done ++ a :: rest).idxOf a < (done ++ a :: rest).idxOf b := by
  have hafter := (List.pairwise_append.1 (pairwise_idxOf h)).2.1
  exact (List.pairwise_cons.1 hafter).1 b hb

theorem pairwise_classes {g : Graph α} (hg : g.nodes.Nodup) :
    g.classes.Pairwise (Precedes g.nodes) := by
  obtain ⟨ns, es⟩ := g
  induction es using List.reverseRecOn with
  | nil =>
    simp only [classes, List.foldl_nil, List.pairwise_map]
    exact (pairwise_idxOf hg).imp fun hab => ⟨_, rfl, by simpa using hab⟩
  | append_singleton es e ih =>
    rw [classes_append]
    exact pairwise_join _ _ (ih hg) fun c hc => classes_ne_nil hc

/-- One set comes before another one by the first of its nodes. -/
def Before [Ord α] (ns : List α) (s t : SortedSet α) : Prop :=
  ∃ a ∈ s, ∀ b ∈ t, ns.idxOf a < ns.idxOf b

theorem Before.asymm [Ord α] {s t : SortedSet α} (h : Before ns s t) : ¬Before ns t s := by
  rintro ⟨b, hb, hbs⟩
  obtain ⟨a, ha, hat⟩ := h
  exact absurd (hat b hb) (Nat.lt_asymm (hbs a ha))

theorem eq_of_before [Ord α] {cs ds : List (SortedSet α)} (hcs : cs.Pairwise (Before ns))
    (hds : ds.Pairwise (Before ns)) (h : ∀ s, s ∈ cs ↔ s ∈ ds) : cs = ds := by
  have hnodup {es : List (SortedSet α)} (hes : es.Pairwise (Before ns)) : es.Nodup :=
    hes.imp fun hst heq => (heq ▸ hst).asymm (heq ▸ hst)
  have hperm := (List.perm_ext_iff_of_nodup (hnodup hcs) (hnodup hds)).2 h
  exact hperm.eq_of_pairwise (fun s t _ _ hst hts => absurd hts hst.asymm) hcs hds

section Components

variable [Ord α] [TransOrd α] [LawfulEqOrd α] {g g' : Graph α}

theorem before_components (hg : g.WellFormed) : g.components.Pairwise (Before g.nodes) := by
  rw [components, List.pairwise_map]
  refine (pairwise_classes hg.nodup).imp fun {c d} hcd => ?_
  obtain ⟨a, ha, hbefore⟩ := hcd
  exact ⟨a, SortedSet.mem_ofList.2 (List.mem_of_mem_head? ha), fun b hb =>
    hbefore b (SortedSet.mem_ofList.1 hb)⟩

/-- Graphs on one list of nodes with the same edges have the same components in the same order. -/
theorem components_congr (hg : g.WellFormed) (hg' : g'.WellFormed) (hnodes : g'.nodes = g.nodes)
    (hedges : ∀ e, e ∈ g'.edges ↔ e ∈ g.edges) : g'.components = g.components :=
  eq_of_before (hnodes ▸ before_components hg') (before_components hg) fun _ =>
    mem_components_congr hg hg' (fun a => by rw [hnodes]) hedges

end Components

section Lone

variable {keep : α → Bool} {a b : α}

/-- What an edge joins, it joins as well when classes that it does not touch are left out. -/
theorem join_filter {cs : List (List α)} (h : ∀ c ∈ cs, a ∈ c ∨ b ∈ c → c.any keep = true) :
    join a b (cs.filter (·.any keep)) = (join a b cs).filter (·.any keep) := by
  induction cs with
  | nil => rfl
  | cons c cs ih =>
    obtain ⟨hc, hcs⟩ := List.forall_mem_cons.1 h
    by_cases htouched : a ∈ c ∨ b ∈ c
    · have hkeep := hc htouched
      have hrest : (cs.filter (·.any keep)).filter (fun d => a ∈ d ∨ b ∈ d) =
          cs.filter fun d => a ∈ d ∨ b ∈ d := by
        rw [List.filter_comm, List.filter_eq_self]
        intro d hd
        exact hcs d (List.mem_of_mem_filter hd) (by simpa using (List.mem_filter.1 hd).2)
      have hwhole : (c ++ (cs.filter fun d => a ∈ d ∨ b ∈ d).flatten).any keep = true := by
        rw [List.any_append, hkeep, Bool.true_or]
      rw [List.filter_cons, if_pos hkeep, join, if_pos htouched, hrest, join, if_pos htouched,
        List.filter_cons, if_pos hwhole, List.filter_comm]
    · rw [List.filter_cons, join, if_neg htouched, List.filter_cons, ← ih hcs]
      split
      · rw [join, if_neg htouched]
      · rfl

variable {g g' : Graph α}

/-- Nodes that no edge ends at are classes of their own, wherever they stand. -/
theorem classes_filter (hnodes : g'.nodes.filter keep = g.nodes) (hedges : g'.edges = g.edges)
    (hends : ∀ e ∈ g.edges, keep e.1 = true ∧ keep e.2 = true) :
    g'.classes.filter (·.any keep) = g.classes ∧
      ∀ c ∈ g'.classes, c.any keep = false → ∃ x ∈ g'.nodes, c = [x] := by
  obtain ⟨ns, es⟩ := g
  obtain ⟨ns', es'⟩ := g'
  obtain rfl : es' = es := hedges
  dsimp only at hnodes hends ⊢
  induction es' using List.reverseRecOn with
  | nil =>
    refine ⟨?_, fun c hc _ => ?_⟩
    · simp only [classes, List.foldl_nil, List.filter_map, ← hnodes]
      congr 2
      funext x
      simp
    · obtain ⟨x, hx, rfl⟩ := List.mem_map.1 hc
      exact ⟨x, hx, rfl⟩
  | append_singleton es e ih =>
    obtain ⟨hfilter, hlone⟩ := ih fun f hf => hends f (List.mem_append_left _ hf)
    obtain ⟨hfirst, hsecond⟩ := hends e (by simp)
    rw [classes_append, classes_append, ← hfilter, join_filter]
    · refine ⟨rfl, fun c hc hnone => ?_⟩
      rcases mem_join.1 hc with ⟨hc, _⟩ | ⟨⟨d, hd, hmem⟩, rfl⟩
      · exact hlone c hc hnone
      · rw [List.any_flatten, List.any_eq_false] at hnone
        have hd' := hnone d (List.mem_filter.2 ⟨hd, by simpa using hmem⟩)
        rw [List.any_eq_true] at hd'
        exact absurd (hmem.elim (fun h => ⟨_, h, hfirst⟩) fun h => ⟨_, h, hsecond⟩) hd'
    · rintro c - (h | h)
      · exact List.any_eq_true.2 ⟨_, h, hfirst⟩
      · exact List.any_eq_true.2 ⟨_, h, hsecond⟩

variable [Ord α] [TransOrd α] [LawfulEqOrd α]

theorem components_filter (hnodes : g'.nodes.filter keep = g.nodes) (hedges : g'.edges = g.edges)
    (hends : ∀ e ∈ g.edges, keep e.1 = true ∧ keep e.2 = true) :
    g'.components.filter (·.toList.any keep) = g.components ∧
      ∀ s ∈ g'.components, s.toList.any keep = false → ∃ x ∈ g'.nodes, s = .ofList [x] := by
  obtain ⟨hfilter, hlone⟩ := classes_filter hnodes hedges hends
  have hany (c : List α) : (SortedSet.ofList c).toList.any keep = c.any keep := by
    rw [Bool.eq_iff_iff, List.any_eq_true, List.any_eq_true]
    exact exists_congr fun x => and_congr_left fun _ => SortedSet.mem_ofList
  refine ⟨?_, fun s hs hnone => ?_⟩
  · rw [components, components, List.filter_map, ← hfilter]
    congr 2
    exact funext hany
  · obtain ⟨c, hc, rfl⟩ := List.mem_map.1 hs
    rw [hany] at hnone
    obtain ⟨x, hx, rfl⟩ := hlone c hc hnone
    exact ⟨x, hx, rfl⟩

end Lone

theorem nodes_prefix_addNode (g : Graph α) (a : α) : g.nodes <+: (g.addNode a).nodes := by
  rw [addNode]
  split
  · exact List.prefix_rfl
  · exact List.prefix_append _ _

theorem nodes_prefix_addEdge (g : Graph α) (a b : α) : g.nodes <+: (g.addEdge a b).nodes :=
  (g.nodes_prefix_addNode a).trans ((g.addNode a).nodes_prefix_addNode b)

theorem nodes_addNode_congr {g g' : Graph α} (h : g'.nodes = g.nodes) (a : α) :
    (g'.addNode a).nodes = (g.addNode a).nodes := by
  rw [addNode, addNode, h]
  split <;> simp [h]

theorem nodes_addEdge_congr {g g' : Graph α} (h : g'.nodes = g.nodes) (a b : α) :
    (g'.addEdge a b).nodes = (g.addEdge a b).nodes :=
  nodes_addNode_congr (nodes_addNode_congr h a) b

theorem nodes_addEdge_of_mem {g : Graph α} {a b : α} (ha : a ∈ g.nodes) (hb : b ∈ g.nodes) :
    (g.addEdge a b).nodes = g.nodes := by
  have hfirst : g.addNode a = g := if_pos ha
  change ((g.addNode a).addNode b).nodes = g.nodes
  rw [hfirst, addNode, if_pos hb]

end Graph
end BoardNets
