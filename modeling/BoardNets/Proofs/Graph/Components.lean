import BoardNets.Graph
import Mathlib.Data.List.Induction
import Mathlib.Data.List.Nodup
import Mathlib.Data.List.Pairwise
import Mathlib.Data.List.Perm.Basic
import Mathlib.Logic.Relation

/-! Connected components are what their name says. The classes of a graph hold each node once, and
two nodes share a class exactly when a path of edges joins them. Both facts follow the merging of
classes edge by edge. -/
namespace BoardNets
namespace Graph

open Std

variable {α : Type}

structure WellFormed (g : Graph α) : Prop where
  nodup : g.nodes.Nodup
  ends : ∀ e ∈ g.edges, e.1 ∈ g.nodes ∧ e.2 ∈ g.nodes

theorem wellFormed_empty : (∅ : Graph α).WellFormed where
  nodup := List.nodup_nil
  ends := by
    intro e he
    cases he

theorem linked_mem_right {g : Graph α} (hg : g.WellFormed) {a b : α} (h : g.Linked a b) :
    b ∈ g.nodes := by
  induction h with
  | refl ha => exact ha
  | step _ hbc _ =>
    rcases hbc with hbc | hbc
    · exact (hg.ends _ hbc).2
    · exact (hg.ends _ hbc).1

theorem linked_mem_left {g : Graph α} {a b : α} (h : g.Linked a b) : a ∈ g.nodes := by
  induction h with
  | refl ha => exact ha
  | step _ _ ih => exact ih

theorem linked_trans {g : Graph α} {a b c : α} (hab : g.Linked a b) (hbc : g.Linked b c) :
    g.Linked a c := by
  induction hbc with
  | refl _ => exact hab
  | step _ hcd ih => exact .step ih hcd

theorem linked_symm {g : Graph α} (hg : g.WellFormed) {a b : α} (h : g.Linked a b) :
    g.Linked b a := by
  induction h with
  | refl ha => exact .refl ha
  | step hab hbc ih =>
    have hc := linked_mem_right hg (.step hab hbc)
    exact linked_trans (.step (.refl hc) hbc.symm) ih

theorem linked_iff_reflTransGen {g : Graph α} {a b : α} :
    g.Linked a b ↔
      a ∈ g.nodes ∧ Relation.ReflTransGen (fun x y => (x, y) ∈ g.edges ∨ (y, x) ∈ g.edges) a b := by
  constructor
  · intro h
    refine ⟨linked_mem_left h, ?_⟩
    induction h with
    | refl _ => exact .refl
    | step _ hbc ih => exact ih.tail hbc
  · rintro ⟨ha, h⟩
    induction h with
    | refl => exact .refl ha
    | tail _ hbc ih => exact .step ih hbc

theorem linked_nil_iff {ns : List α} {x y : α} : Linked ⟨ns, []⟩ x y ↔ x ∈ ns ∧ x = y := by
  constructor
  · intro h
    refine ⟨linked_mem_left h, ?_⟩
    induction h with
    | refl _ => rfl
    | step _ hbc _ => simp at hbc
  · rintro ⟨hx, rfl⟩
    exact .refl hx

def Together (cs : List (List α)) (a b : α) : Prop := ∃ c ∈ cs, a ∈ c ∧ b ∈ c

theorem Together.symm {cs : List (List α)} {a b : α} (h : Together cs a b) : Together cs b a := by
  obtain ⟨c, hc, ha, hb⟩ := h
  exact ⟨c, hc, hb, ha⟩

theorem together_self {cs : List (List α)} {a : α} (h : a ∈ cs.flatten) : Together cs a a := by
  obtain ⟨c, hc, ha⟩ := List.mem_flatten.1 h
  exact ⟨c, hc, ha, ha⟩

theorem class_unique {cs : List (List α)} (hcs : cs.flatten.Nodup) {a : α} {d e : List α}
    (hd : d ∈ cs) (he : e ∈ cs) (had : a ∈ d) (hae : a ∈ e) : d = e := by
  by_contra hne
  have hdisj := (List.nodup_flatten.1 hcs).2
  have hsymm : Std.Symm (List.Disjoint (α := α)) := ⟨fun _ _ h => List.disjoint_symm h⟩
  exact hdisj.forall hd he hne had hae

theorem Together.trans {cs : List (List α)} (hcs : cs.flatten.Nodup) {a b c : α}
    (hab : Together cs a b) (hbc : Together cs b c) : Together cs a c := by
  obtain ⟨d, hd, ha, hb⟩ := hab
  obtain ⟨e, he, hb', hc⟩ := hbc
  obtain rfl := class_unique hcs hd he hb hb'
  exact ⟨d, hd, ha, hc⟩

variable [DecidableEq α]

theorem mem_nodes_addNode {g : Graph α} {a x : α} :
    x ∈ (g.addNode a).nodes ↔ x ∈ g.nodes ∨ x = a := by
  by_cases h : a ∈ g.nodes
  · rw [addNode, if_pos h]
    constructor
    · exact Or.inl
    · rintro (hx | rfl)
      · exact hx
      · exact h
  · simp [addNode, h]

@[simp] theorem edges_addNode {g : Graph α} {a : α} : (g.addNode a).edges = g.edges := by
  by_cases h : a ∈ g.nodes <;> simp [addNode, h]

theorem mem_nodes_addEdge {g : Graph α} {a b x : α} :
    x ∈ (g.addEdge a b).nodes ↔ x ∈ g.nodes ∨ x = a ∨ x = b := by
  change x ∈ ((g.addNode a).addNode b).nodes ↔ _
  rw [mem_nodes_addNode, mem_nodes_addNode, or_assoc]

@[simp] theorem edges_addEdge {g : Graph α} {a b : α} :
    (g.addEdge a b).edges = g.edges ++ [(a, b)] := by
  simp [addEdge]

theorem WellFormed.addNode {g : Graph α} (hg : g.WellFormed) (a : α) :
    (g.addNode a).WellFormed where
  nodup := by
    by_cases h : a ∈ g.nodes
    · simpa [Graph.addNode, h] using hg.nodup
    · simp only [Graph.addNode, h, if_false]
      exact hg.nodup.append (List.nodup_singleton a) (List.disjoint_singleton.2 h)
  ends := by
    intro e he
    rw [edges_addNode] at he
    have hends := hg.ends e he
    exact ⟨mem_nodes_addNode.2 (.inl hends.1), mem_nodes_addNode.2 (.inl hends.2)⟩

theorem WellFormed.addEdge {g : Graph α} (hg : g.WellFormed) (a b : α) :
    (g.addEdge a b).WellFormed where
  nodup := ((hg.addNode a).addNode b).nodup
  ends := by
    intro e he
    rw [edges_addEdge] at he
    rw [mem_nodes_addEdge, mem_nodes_addEdge]
    rcases List.mem_append.1 he with he | he
    · have hends := hg.ends e he
      exact ⟨.inl hends.1, .inl hends.2⟩
    · rw [List.mem_singleton.1 he]
      exact ⟨.inr (.inl rfl), .inr (.inr rfl)⟩

/-- The classes after a merge: those the edge does not touch, and all others as one. -/
theorem mem_join {a b : α} {d : List α} {cs : List (List α)} :
    d ∈ join a b cs ↔ (d ∈ cs ∧ ¬(a ∈ d ∨ b ∈ d)) ∨
      ((∃ c ∈ cs, a ∈ c ∨ b ∈ c) ∧ d = (cs.filter fun c => a ∈ c ∨ b ∈ c).flatten) := by
  induction cs with
  | nil => simp [join]
  | cons c cs ih =>
    by_cases h : a ∈ c ∨ b ∈ c
    · simp only [join, h, if_true, List.mem_cons, List.mem_filter, decide_eq_true_eq,
        List.filter_cons, List.flatten_cons, exists_eq_or_imp, true_or, true_and, decide_true]
      constructor
      · rintro (rfl | hd)
        · exact .inr rfl
        · exact .inl ⟨.inr hd.1, hd.2⟩
      · rintro (⟨rfl | hd, hn⟩ | rfl)
        · exact absurd h hn
        · exact .inr ⟨hd, hn⟩
        · exact .inl rfl
    · simp only [join, h, if_false, List.mem_cons, ih, List.filter_cons, exists_eq_or_imp,
        false_or, decide_false, Bool.false_eq_true]
      constructor
      · rintro (rfl | ⟨hd, hn⟩ | hd)
        · exact .inl ⟨.inl rfl, h⟩
        · exact .inl ⟨.inr hd, hn⟩
        · exact .inr hd
      · rintro (⟨rfl | hd, hn⟩ | hd)
        · exact .inl rfl
        · exact .inr (.inl ⟨hd, hn⟩)
        · exact .inr (.inr hd)

theorem join_flatten_perm (a b : α) (cs : List (List α)) :
    (join a b cs).flatten.Perm cs.flatten := by
  induction cs with
  | nil => exact .refl _
  | cons c cs ih =>
    by_cases h : a ∈ c ∨ b ∈ c
    · have hperm := (List.filter_append_perm (fun d => a ∈ d ∨ b ∈ d) cs).flatten
      simp only [join, h, if_true, List.flatten_cons, List.append_assoc]
      rw [List.flatten_append] at hperm
      simpa using hperm.append_left c
    · simpa [join, h] using ih.append_left c

theorem together_join {a b x y : α} {cs : List (List α)} :
    Together (join a b cs) x y ↔ (∃ d ∈ cs, ¬(a ∈ d ∨ b ∈ d) ∧ x ∈ d ∧ y ∈ d) ∨
      ((Together cs x a ∨ Together cs x b) ∧ (Together cs y a ∨ Together cs y b)) := by
  have touched (z : α) : z ∈ (cs.filter fun c => a ∈ c ∨ b ∈ c).flatten ↔
      Together cs z a ∨ Together cs z b := by
    simp only [List.mem_flatten, List.mem_filter, decide_eq_true_eq, Together]
    constructor
    · rintro ⟨c, ⟨hc, ha | hb⟩, hz⟩
      · exact .inl ⟨c, hc, hz, ha⟩
      · exact .inr ⟨c, hc, hz, hb⟩
    · rintro (⟨c, hc, hz, ha⟩ | ⟨c, hc, hz, hb⟩)
      · exact ⟨c, ⟨hc, .inl ha⟩, hz⟩
      · exact ⟨c, ⟨hc, .inr hb⟩, hz⟩
  constructor
  · rintro ⟨d, hd, hx, hy⟩
    rcases mem_join.1 hd with ⟨hd, hn⟩ | ⟨_, rfl⟩
    · exact .inl ⟨d, hd, hn, hx, hy⟩
    · exact .inr ⟨(touched x).1 hx, (touched y).1 hy⟩
  · rintro (⟨d, hd, hn, hx, hy⟩ | ⟨hx, hy⟩)
    · exact ⟨d, mem_join.2 (.inl ⟨hd, hn⟩), hx, hy⟩
    · have hx := (touched x).2 hx
      have hsome : ∃ c ∈ cs, a ∈ c ∨ b ∈ c := by
        obtain ⟨c, hc, _⟩ := List.mem_flatten.1 hx
        rw [List.mem_filter, decide_eq_true_eq] at hc
        exact ⟨c, hc⟩
      exact ⟨_, mem_join.2 (.inr ⟨hsome, rfl⟩), hx, (touched y).2 hy⟩

theorem Together.join {a b x y : α} {cs : List (List α)} (h : Together cs x y) :
    Together (Graph.join a b cs) x y := by
  obtain ⟨d, hd, hx, hy⟩ := h
  refine together_join.2 ?_
  by_cases hab : a ∈ d ∨ b ∈ d
  · have touching (z : α) (hz : z ∈ d) : Together cs z a ∨ Together cs z b :=
      hab.imp (fun ha => ⟨d, hd, hz, ha⟩) fun hb => ⟨d, hd, hz, hb⟩
    exact .inr ⟨touching x hx, touching y hy⟩
  · exact .inl ⟨d, hd, hab, hx, hy⟩

omit [DecidableEq α] in
theorem linked_mono {ns : List α} {es fs : List (α × α)} (h : ∀ e ∈ es, e ∈ fs) {x y : α}
    (hxy : Linked ⟨ns, es⟩ x y) : Linked ⟨ns, fs⟩ x y := by
  induction hxy with
  | refl hx => exact .refl hx
  | step _ hbc ih => exact .step ih (hbc.imp (h _) (h _))

theorem classes_flatten_perm (g : Graph α) : g.classes.flatten.Perm g.nodes := by
  obtain ⟨ns, es⟩ := g
  simp only [classes]
  induction es using List.reverseRecOn with
  | nil => simp [← List.flatMap_def]
  | append_singleton es e ih =>
    rw [List.foldl_append]
    exact (join_flatten_perm _ _ _).trans ih

theorem together_classes_nil {ns : List α} {x y : α} :
    Together (classes ⟨ns, []⟩) x y ↔ x ∈ ns ∧ x = y := by
  simp only [Together, classes, List.foldl_nil, List.mem_map, exists_exists_and_eq_and,
    List.mem_singleton]
  constructor
  · rintro ⟨z, hz, rfl, rfl⟩
    exact ⟨hz, rfl⟩
  · rintro ⟨hx, rfl⟩
    exact ⟨x, hx, rfl, rfl⟩

section LastEdge

variable {ns : List α} {es : List (α × α)} {e : α × α} (hg : WellFormed ⟨ns, es ++ [e]⟩)
  (ih : ∀ {x y}, Together (classes ⟨ns, es⟩) x y ↔ Linked ⟨ns, es⟩ x y)

theorem classes_append : classes ⟨ns, es ++ [e]⟩ = join e.1 e.2 (classes ⟨ns, es⟩) := by
  simp [classes, List.foldl_append]

include hg ih

theorem linked_of_together_append {x y : α} (h : Together (classes ⟨ns, es ++ [e]⟩) x y) :
    Linked ⟨ns, es ++ [e]⟩ x y := by
  have grow {u v : α} (h : Together (classes ⟨ns, es⟩) u v) : Linked ⟨ns, es ++ [e]⟩ u v :=
    linked_mono (fun f hf => List.mem_append_left _ hf) (ih.1 h)
  have hedge : Linked ⟨ns, es ++ [e]⟩ e.1 e.2 :=
    .step (.refl (hg.ends e (by simp)).1) (.inl (by simp))
  rw [classes_append, together_join] at h
  rcases h with ⟨d, hd, _, hx, hy⟩ | ⟨hx, hy⟩
  · exact grow ⟨d, hd, hx, hy⟩
  · have toFirst {z : α} (hz : Together (classes ⟨ns, es⟩) z e.1 ∨
        Together (classes ⟨ns, es⟩) z e.2) : Linked ⟨ns, es ++ [e]⟩ z e.1 := by
      rcases hz with hz | hz
      · exact grow hz
      · exact linked_trans (grow hz) (linked_symm hg hedge)
    exact linked_trans (toFirst hx) (linked_symm hg (toFirst hy))

theorem together_of_edge_append {u v : α} (huv : (u, v) ∈ es ++ [e]) :
    Together (classes ⟨ns, es ++ [e]⟩) u v := by
  have hends := hg.ends (u, v) huv
  rw [classes_append]
  rcases List.mem_append.1 huv with huv | huv
  · exact .join (ih.2 (.step (.refl hends.1) (.inl huv)))
  · obtain rfl := List.mem_singleton.1 huv
    have hfirst : Together (classes ⟨ns, es⟩) u u := ih.2 (.refl hends.1)
    have hsecond : Together (classes ⟨ns, es⟩) v v := ih.2 (.refl hends.2)
    exact together_join.2 (.inr ⟨.inl hfirst, .inr hsecond⟩)

theorem together_of_linked_append {x y : α} (h : Linked ⟨ns, es ++ [e]⟩ x y) :
    Together (classes ⟨ns, es ++ [e]⟩) x y := by
  have hnodup : (classes ⟨ns, es ++ [e]⟩).flatten.Nodup :=
    (classes_flatten_perm _).nodup_iff.2 hg.nodup
  induction h with
  | refl hx => exact together_self ((classes_flatten_perm _).mem_iff.2 hx)
  | step _ hbc ihp =>
    rcases hbc with hbc | hbc
    · exact ihp.trans hnodup (together_of_edge_append hg ih hbc)
    · exact ihp.trans hnodup (together_of_edge_append hg ih hbc).symm

end LastEdge

theorem together_classes_iff {g : Graph α} (hg : g.WellFormed) {x y : α} :
    Together g.classes x y ↔ g.Linked x y := by
  obtain ⟨ns, es⟩ := g
  induction es using List.reverseRecOn generalizing x y with
  | nil => rw [together_classes_nil, linked_nil_iff]
  | append_singleton es e ih =>
    have hes : WellFormed ⟨ns, es⟩ := ⟨hg.nodup, fun f hf => hg.ends f (List.mem_append_left _ hf)⟩
    exact ⟨linked_of_together_append hg (ih hes), together_of_linked_append hg (ih hes)⟩

theorem classes_ne_nil {g : Graph α} {c : List α} (hc : c ∈ g.classes) : c ≠ [] := by
  obtain ⟨ns, es⟩ := g
  simp only [classes] at hc
  induction es using List.reverseRecOn generalizing c with
  | nil =>
    obtain ⟨x, _, rfl⟩ := List.mem_map.1 hc
    simp
  | append_singleton es e ih =>
    rw [List.foldl_append] at hc
    rcases mem_join.1 hc with ⟨hc, _⟩ | ⟨⟨d, hd, hmem⟩, rfl⟩
    · exact ih hc
    · intro hnil
      have hempty := List.flatten_eq_nil_iff.1 hnil d
      exact ih hd (hempty (List.mem_filter.2 ⟨hd, by simpa using hmem⟩))

end Graph
end BoardNets
