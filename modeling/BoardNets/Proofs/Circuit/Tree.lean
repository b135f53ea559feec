import BoardNets.Circuit.Tree
import Mathlib.Data.Fintype.Card
import Mathlib.Data.Nat.Find

/-! The tree of a circuit as a relation. A node is below another one when a path of child links
leads there; the walk, which is cut off at the number of nodes, finds every such node, because a
shortest path does not come back to a node that it has left. -/
namespace BoardNets
namespace Circuit

variable (c : Circuit)

/-- The tree below a node, by child links. -/
inductive InTree (root : NodeId) : NodeId → Prop
  | root : InTree root root
  | child {parent id : NodeId} : InTree root parent → id ∈ c.children parent → InTree root id

theorem InTree.mono {c c' : Circuit} {a b : NodeId}
    (hchildren : ∀ x, ∀ y ∈ c.children x, y ∈ c'.children x) (h : c.InTree a b) :
    c'.InTree a b := by
  induction h with
  | root => exact .root
  | child _ hb ih => exact .child ih (hchildren _ _ hb)

def Path : Nat → NodeId → NodeId → Prop
  | 0, a, b => a = b
  | n + 1, a, b => ∃ m, Path n a m ∧ b ∈ c.children m

variable {c}

theorem inTree_iff_path {a b : NodeId} : c.InTree a b ↔ ∃ n, c.Path n a b := by
  constructor
  · intro h
    induction h with
    | root => exact ⟨0, rfl⟩
    | child _ hb ih =>
      obtain ⟨n, hn⟩ := ih
      exact ⟨n + 1, _, hn, hb⟩
  · rintro ⟨n, hn⟩
    induction n generalizing b with
    | zero => exact hn ▸ .root
    | succ n ih =>
      obtain ⟨m, hm, hb⟩ := hn
      exact .child (ih hm) hb

theorem path_cons {a m b : NodeId} {n : Nat} (hm : m ∈ c.children a) (h : c.Path n m b) :
    c.Path (n + 1) a b := by
  induction n generalizing b with
  | zero => exact ⟨a, rfl, h ▸ hm⟩
  | succ n ih =>
    obtain ⟨k, hk, hb⟩ := h
    exact ⟨k, ih hk, hb⟩

theorem path_succ {a b : NodeId} {n : Nat} (h : c.Path (n + 1) a b) :
    ∃ m ∈ c.children a, c.Path n m b := by
  induction n generalizing b with
  | zero =>
    obtain ⟨k, rfl, hb⟩ := h
    exact ⟨b, hb, rfl⟩
  | succ n ih =>
    obtain ⟨k, hk, hb⟩ := h
    obtain ⟨m, hm, hmk⟩ := ih hk
    exact ⟨m, hm, k, hmk, hb⟩

theorem mem_walk_iff {a b : NodeId} {depth : Nat} :
    (∃ p, (p, b) ∈ c.walk depth a) ↔ ∃ n < depth, c.Path (n + 1) a b := by
  induction depth generalizing a with
  | zero => simp [walk]
  | succ depth ih =>
    simp only [walk, List.mem_flatMap, List.mem_cons, Prod.mk.injEq]
    constructor
    · rintro ⟨p, m, hm, ⟨rfl, rfl⟩ | hp⟩
      · exact ⟨0, Nat.succ_pos _, path_cons hm rfl⟩
      · obtain ⟨n, hn, hpath⟩ := ih.1 ⟨p, hp⟩
        exact ⟨n + 1, Nat.succ_lt_succ hn, path_cons hm hpath⟩
    · rintro ⟨n, hn, hpath⟩
      obtain ⟨m, hm, hmb⟩ := path_succ hpath
      cases n with
      | zero => exact ⟨a, m, hm, .inl ⟨rfl, hmb.symm⟩⟩
      | succ n =>
        obtain ⟨p, hp⟩ := ih.2 ⟨n, Nat.lt_of_succ_lt_succ hn, hmb⟩
        exact ⟨p, m, hm, .inr hp⟩

theorem index_lt_of_mem_children {a b : NodeId} (h : b ∈ c.children a) :
    a.index < c.nodes.size := by
  by_contra hlt
  have hnone : c.component? a = none := by
    simp [component?, node?, Array.getElem?_eq_none (Nat.le_of_not_lt hlt)]
  simp [children, hnone] at h

theorem exists_at_distance {a b : NodeId} {n k : Nat} (h : c.Path n a b)
    (least : ∀ m < n, ¬c.Path m a b) (hk : k < n) :
    ∃ m, c.Path k a m ∧ (∀ j < k, ¬c.Path j a m) ∧ c.children m ≠ [] := by
  induction n generalizing b with
  | zero => exact absurd hk (Nat.not_lt_zero k)
  | succ n ih =>
    obtain ⟨m, hm, hb⟩ := h
    have hleast : ∀ j < n, ¬c.Path j a m :=
      fun j hj hjm => least (j + 1) (Nat.succ_lt_succ hj) ⟨m, hjm, hb⟩
    rcases Nat.lt_succ_iff_lt_or_eq.1 hk with hk | rfl
    · exact ih hm hleast hk
    · exact ⟨m, hm, hleast, List.ne_nil_of_mem hb⟩

theorem exists_short_path {a b : NodeId} (h : c.InTree a b) :
    ∃ n ≤ c.nodes.size, c.Path n a b := by
  classical
  have hex := inTree_iff_path.1 h
  refine ⟨Nat.find hex, ?_, Nat.find_spec hex⟩
  have hmid := fun k : Fin (Nat.find hex) =>
    exists_at_distance (Nat.find_spec hex) (fun m hm => Nat.find_min hex hm) k.2
  choose mid hpath hleast hchildren using hmid
  have inArena (k) : (mid k).index < c.nodes.size :=
    index_lt_of_mem_children (List.getLast_mem (hchildren k))
  let place : Fin (Nat.find hex) → Fin c.nodes.size := fun k => ⟨(mid k).index, inArena k⟩
  have hinj : Function.Injective place := by
    intro i j hij
    have heq : mid i = mid j := by
      have hindex : (mid i).index = (mid j).index := by simpa [place] using hij
      cases hi : mid i
      cases hj : mid j
      simp_all
    rcases Nat.lt_trichotomy i.1 j.1 with hlt | heq' | hlt
    · exact absurd (heq ▸ hpath i) (hleast j i hlt)
    · exact Fin.ext heq'
    · exact absurd (heq ▸ hpath j) (hleast i j hlt)
  simpa using Fintype.card_le_of_injective place hinj

theorem mem_subtree_iff {a b : NodeId} : b ∈ c.subtree a ↔ c.InTree a b := by
  have hbelow : b ∈ (c.below a).map (·.2) ↔ ∃ p, (p, b) ∈ c.below a := by simp
  rw [subtree, List.mem_cons, hbelow, below, mem_walk_iff]
  constructor
  · rintro (rfl | ⟨n, _, hpath⟩)
    · exact .root
    · exact inTree_iff_path.2 ⟨n + 1, hpath⟩
  · intro h
    obtain ⟨n, hn, hpath⟩ := exists_short_path h
    cases n with
    | zero => exact .inl hpath.symm
    | succ n => exact .inr ⟨n, Nat.lt_succ_of_lt hn, hpath⟩

theorem mem_parts_iff {a b : NodeId} : b ∈ c.parts a ↔ c.InTree a b ∧ c.isPart b = true := by
  rw [parts, List.mem_filter, mem_subtree_iff]

end Circuit
end BoardNets
