import BoardNets.Proofs.Graph.Traversal

/-! Graphs built by insertions, and their components. Nodes stand in the order in which insertions
first name them. The components are lists without repetition that share out the nodes, by the paths
between them and in the order of their first nodes, and a depth-first search finds the same. -/
namespace BoardNets
namespace Graph

open Std

variable {α : Type}

/-- A node or an edge that is put into a graph. -/
inductive Insertion (α : Type) where
  | node (a : α)
  | edge (a b : α)

/-- The nodes that an insertion names: an edge brings its first end along, then its second. -/
def Insertion.ends : Insertion α → List α
  | node a => [a]
  | edge a b => [a, b]

/-- The nodes that insertions name, each as often as they do. -/
def named (l : List (Insertion α)) : List α := l.flatMap Insertion.ends

/-- An inserted edge joins two nodes, in one direction or the other. -/
def Joined (l : List (Insertion α)) (a b : α) : Prop := .edge a b ∈ l ∨ .edge b a ∈ l

variable [DecidableEq α]

def insert (g : Graph α) : Insertion α → Graph α
  | .node a => g.addNode a
  | .edge a b => g.addEdge a b

def ofInsertions (l : List (Insertion α)) : Graph α := l.foldl insert ∅

/-- How components answer to the insertions of a graph. -/
structure ComponentsOf [Ord α] (l : List (Insertion α)) (cs : List (List α)) : Prop where
  nonempty : ∀ c ∈ cs, c ≠ []
  increasing : ∀ c ∈ cs, c.Pairwise fun a b => compare a b = .lt
  /-- No node is listed twice, in one component or in two. -/
  nodup : cs.flatten.Nodup
  all : ∀ a, a ∈ cs.flatten ↔ a ∈ named l
  joined : ∀ a b, (∃ c ∈ cs, a ∈ c ∧ b ∈ c) ↔
    a ∈ named l ∧ Relation.ReflTransGen (Joined l) a b
  /-- Some node of a component is named before all nodes of later ones. -/
  ordered : cs.Pairwise fun c d => ∃ a ∈ c, ∀ b ∈ d, (named l).idxOf a < (named l).idxOf b

variable {l : List (Insertion α)} {i : Insertion α} {a b : α}

theorem ofInsertions_append : ofInsertions (l ++ [i]) = (ofInsertions l).insert i := by
  simp [ofInsertions]

omit [DecidableEq α] in
theorem named_append : named (l ++ [i]) = named l ++ i.ends := by simp [named]

theorem wellFormed_ofInsertions (l : List (Insertion α)) : (ofInsertions l).WellFormed := by
  induction l using List.reverseRecOn with
  | nil => exact wellFormed_empty
  | append_singleton l i ih =>
    rw [ofInsertions_append]
    cases i with
    | node a => exact ih.addNode a
    | edge a b => exact ih.addEdge a b

theorem mem_edges_ofInsertions : (a, b) ∈ (ofInsertions l).edges ↔ .edge a b ∈ l := by
  induction l using List.reverseRecOn with
  | nil => exact iff_of_false List.not_mem_nil List.not_mem_nil
  | append_singleton l i ih =>
    rw [ofInsertions_append]
    cases i <;> simp [insert, ih]

theorem mem_nodes_ofInsertions : a ∈ (ofInsertions l).nodes ↔ a ∈ named l := by
  induction l using List.reverseRecOn with
  | nil => exact iff_of_false List.not_mem_nil List.not_mem_nil
  | append_singleton l i ih =>
    rw [ofInsertions_append, named_append]
    cases i with
    | node x => simp [insert, Insertion.ends, mem_nodes_addNode, ih]
    | edge x y => simp [insert, Insertion.ends, mem_nodes_addEdge, ih]

/-- Nodes stand once each, in the order in which a list of names first has them. -/
structure Lists (ns names : List α) : Prop where
  mem : ∀ a, a ∈ ns ↔ a ∈ names
  ordered : ns.Pairwise fun a b => names.idxOf a < names.idxOf b

theorem Lists.addNode {g : Graph α} {names : List α} (h : Lists g.nodes names) (x : α) :
    Lists (g.addNode x).nodes (names ++ [x]) where
  mem := by
    intro a
    rw [mem_nodes_addNode, h.mem, List.mem_append, List.mem_singleton]
  ordered := by
    have hold : g.nodes.Pairwise fun a b => (names ++ [x]).idxOf a < (names ++ [x]).idxOf b := by
      refine h.ordered.imp_of_mem fun ha hb hab => ?_
      rwa [List.idxOf_append_of_mem ((h.mem _).1 ha), List.idxOf_append_of_mem ((h.mem _).1 hb)]
    by_cases hx : x ∈ g.nodes
    · rwa [Graph.addNode, if_pos hx]
    · rw [Graph.addNode, if_neg hx]
      refine List.pairwise_append.2 ⟨hold, List.pairwise_singleton _ x, fun a ha b hb => ?_⟩
      obtain rfl := List.mem_singleton.1 hb
      have ha' := (h.mem a).1 ha
      rw [List.idxOf_append_of_mem ha', List.idxOf_append_of_notMem (mt (h.mem b).2 hx)]
      have := List.idxOf_lt_length_iff.2 ha'
      omega

theorem lists_ofInsertions (l : List (Insertion α)) : Lists (ofInsertions l).nodes (named l) := by
  induction l using List.reverseRecOn with
  | nil => exact ⟨fun a => iff_of_false List.not_mem_nil List.not_mem_nil, .nil⟩
  | append_singleton l i ih =>
    rw [ofInsertions_append, named_append]
    cases i with
    | node x => exact ih.addNode x
    | edge x y =>
      have hboth := (ih.addNode x).addNode y
      rwa [List.append_assoc] at hboth

theorem Lists.idxOf_lt {ns names : List α} (h : Lists ns names) (hb : b ∈ ns)
    (hab : ns.idxOf a < ns.idxOf b) : names.idxOf a < names.idxOf b := by
  have hbound := List.idxOf_lt_length_iff.2 hb
  have := List.pairwise_iff_getElem.1 h.ordered _ _ (Nat.lt_trans hab hbound) hbound hab
  simpa using this

theorem linked_ofInsertions : (ofInsertions l).Linked a b ↔
    a ∈ named l ∧ Relation.ReflTransGen (Joined l) a b := by
  rw [linked_iff_reflTransGen, mem_nodes_ofInsertions]
  simp only [mem_edges_ofInsertions]
  rfl

variable [Ord α] [TransOrd α] [LawfulEqOrd α]

/-- Components share out the nodes of a graph by the paths between them, in the order of their first
nodes, and they are what a depth-first search from each node not yet seen finds, sorted. No search
lists a node twice. -/
theorem ofInsertions_components (l : List (Insertion α)) :
    ComponentsOf l ((ofInsertions l).components.map SortedSet.toList) ∧
      (ofInsertions l).components =
        ((ofInsertions l).explorations (ofInsertions l).nodes []).map SortedSet.ofList ∧
      ∀ c ∈ (ofInsertions l).explorations (ofInsertions l).nodes [], c.Nodup := by
  have hg := wellFormed_ofInsertions l
  have hset {s : SortedSet α} (hs : s ∈ (ofInsertions l).components) :
      ∃ a ∈ s, ∀ b, b ∈ s ↔ (ofInsertions l).Linked a b := by
    obtain ⟨a, ha, hs⟩ := (mem_components_iff hg).1 hs
    exact ⟨a, (hs a).2 (.refl ha), hs⟩
  refine ⟨?_, components_eq_explorations hg, nodup_explorations hg⟩
  constructor
  case nonempty =>
    rintro _ hc hnil
    obtain ⟨s, hs, rfl⟩ := List.mem_map.1 hc
    obtain ⟨a, ha, _⟩ := hset hs
    rw [SortedSet.mem_def, hnil] at ha
    cases ha
  case increasing =>
    rintro _ hc
    obtain ⟨s, _, rfl⟩ := List.mem_map.1 hc
    exact s.increasing
  case nodup =>
    rw [List.nodup_flatten, List.forall_mem_map, List.pairwise_map]
    exact ⟨fun s _ => s.nodup, (pairwise_components hg).imp fun hst a ha hb => hst a ha hb⟩
  case all =>
    intro a
    rw [← mem_nodes_ofInsertions, List.mem_flatten]
    constructor
    · rintro ⟨_, hc, ha⟩
      obtain ⟨s, hs, rfl⟩ := List.mem_map.1 hc
      exact mem_nodes_of_component hg hs ha
    · intro ha
      obtain ⟨s, hs, has⟩ := exists_component ha
      exact ⟨_, List.mem_map_of_mem hs, has⟩
  case joined =>
    intro a b
    rw [← linked_ofInsertions]
    constructor
    · rintro ⟨_, hc, ha, hb⟩
      obtain ⟨s, hs, rfl⟩ := List.mem_map.1 hc
      obtain ⟨x, _, hx⟩ := hset hs
      exact linked_trans (linked_symm hg ((hx a).1 ha)) ((hx b).1 hb)
    · intro hab
      obtain ⟨s, hs, has⟩ := exists_component (linked_mem_left hab)
      obtain ⟨x, _, hx⟩ := hset hs
      exact ⟨_, List.mem_map_of_mem hs, has, (hx b).2 (linked_trans ((hx a).1 has) hab)⟩
  case ordered =>
    rw [List.pairwise_map]
    refine (before_components hg).imp_of_mem fun {s t} _ ht hst => ?_
    obtain ⟨a, ha, hbefore⟩ := hst
    exact ⟨a, ha, fun b hb => (lists_ofInsertions l).idxOf_lt (mem_nodes_of_component hg ht hb)
      (hbefore b hb)⟩

theorem ofInsertions_components_specimen :
    ComponentsOf [.edge (3 : Nat) 1, .edge 4 4, .edge 1 2, .node 5, .edge 2 3]
      [[1, 2, 3], [4], [5]] := by
  have h := ofInsertions_components [.edge (3 : Nat) 1, .edge 4 4, .edge 1 2, .node 5, .edge 2 3]
  have hlists : (ofInsertions [.edge (3 : Nat) 1, .edge 4 4, .edge 1 2, .node 5,
      .edge 2 3]).components.map SortedSet.toList = [[1, 2, 3], [4], [5]] := by decide
  exact hlists ▸ h.1

end Graph
end BoardNets
