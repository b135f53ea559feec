import BoardNets.Sorted.Set
import Mathlib.Data.List.Basic
import Mathlib.Logic.Relation

/-! Depth-first search among elements that have successors. With fuel for all successors it finds
what is reachable, each element once. At every moment the successors of a visited element are
visited themselves or on the stack, so nothing leads out of the visited ones when the stack is
empty. -/
namespace BoardNets
namespace Search

open Std

variable {α : Type} [Ord α] [TransOrd α] [DecidableEq α]

/-- Takes elements off the stack and puts the successors of new ones on it. The fuel counts elements
to be taken off the stack. -/
def visits (next : α → List α) :
    (fuel : Nat) → (stack : List α) → (visited : SortedSet α) → List α
  | 0, _, _ => []
  | _, [], _ => []
  | fuel + 1, a :: stack, visited =>
    if a ∈ visited then visits next fuel stack visited
    else a :: visits next fuel (next a ++ stack) (visited.insert a)

abbrev Reaches (next : α → List α) : α → α → Prop := Relation.ReflTransGen fun a b => b ∈ next a

/-- The number of successors that may still come onto the stack. -/
def pending (next : α → List α) (domain : List α) (visited : SortedSet α) : Nat :=
  ((domain.filter (· ∉ visited)).flatMap next).length

variable {next : α → List α} {domain : List α} {fuel : Nat} {a b : α} {stack : List α}
  {visited : SortedSet α}

@[simp] theorem visits_nil : visits next fuel [] visited = [] := by cases fuel <;> rfl

theorem visits_of_mem (ha : a ∈ visited) :
    visits next (fuel + 1) (a :: stack) visited = visits next fuel stack visited := by
  simp [visits, ha]

theorem visits_of_not_mem (ha : a ∉ visited) : visits next (fuel + 1) (a :: stack) visited =
    a :: visits next fuel (next a ++ stack) (visited.insert a) := by
  simp [visits, ha]

theorem reaches_of_mem_visits (h : b ∈ visits next fuel stack visited) :
    ∃ a ∈ stack, Reaches next a b := by
  induction fuel generalizing stack visited with
  | zero => simp [visits] at h
  | succ fuel ih =>
    cases stack with
    | nil => simp at h
    | cons a stack =>
      by_cases ha : a ∈ visited
      · rw [visits_of_mem ha] at h
        obtain ⟨x, hx, hxb⟩ := ih h
        exact ⟨x, List.mem_cons_of_mem a hx, hxb⟩
      · rw [visits_of_not_mem ha] at h
        rcases List.mem_cons.1 h with rfl | h
        · exact ⟨b, by simp, .refl⟩
        · obtain ⟨x, hx, hxb⟩ := ih h
          rcases List.mem_append.1 hx with hx | hx
          · exact ⟨a, by simp, .head hx hxb⟩
          · exact ⟨x, List.mem_cons_of_mem a hx, hxb⟩

variable [LawfulEqOrd α]

theorem pending_insert (ha : a ∉ visited) (hdomain : next a ≠ [] → a ∈ domain) :
    (next a).length + pending next domain (visited.insert a) ≤ pending next domain visited := by
  have hrest : domain.filter (· ∉ visited.insert a) =
      (domain.filter (· ∉ visited)).filter (· ≠ a) := by
    rw [List.filter_filter]
    refine List.filter_congr fun x _ => ?_
    simp [not_or]
  have hsplit := ((List.filter_append_perm (· ≠ a) (domain.filter (· ∉ visited))).flatMap_right
    next).length_eq
  rw [List.flatMap_append, List.length_append] at hsplit
  have hown : (next a).length ≤ (((domain.filter (· ∉ visited)).filter fun x =>
      !decide (x ≠ a)).flatMap next).length := by
    by_cases hnil : next a = []
    · simp [hnil]
    · refine (List.infix_flatMap_of_mem ?_ next).length_le
      simp [hdomain hnil, ha]
  rw [pending, pending, hrest]
  omega

theorem nodup_visits (next : α → List α) (fuel : Nat) (stack : List α) (visited : SortedSet α) :
    (visits next fuel stack visited).Nodup ∧
      ∀ a ∈ visits next fuel stack visited, a ∉ visited := by
  induction fuel generalizing stack visited with
  | zero => simp [visits]
  | succ fuel ih =>
    cases stack with
    | nil => simp
    | cons a stack =>
      by_cases ha : a ∈ visited
      · rw [visits_of_mem ha]
        exact ih stack visited
      · obtain ⟨hnodup, hnew⟩ := ih (next a ++ stack) (visited.insert a)
        simp only [SortedSet.mem_insert, not_or] at hnew
        rw [visits_of_not_mem ha, List.nodup_cons, List.forall_mem_cons]
        exact ⟨⟨fun hin => (hnew a hin).1 rfl, hnodup⟩, ha, fun b hb => (hnew b hb).2⟩

/-- What is visited when a search ends. -/
def Known (next : α → List α) (fuel : Nat) (stack : List α) (visited : SortedSet α) (a : α) :
    Prop :=
  a ∈ visited ∨ a ∈ visits next fuel stack visited

omit [LawfulEqOrd α] in
theorem known_of_mem (ha : a ∈ visited) :
    Known next (fuel + 1) (a :: stack) visited b ↔ Known next fuel stack visited b := by
  rw [Known, Known, visits_of_mem ha]

theorem known_of_not_mem (ha : a ∉ visited) : Known next (fuel + 1) (a :: stack) visited b ↔
    Known next fuel (next a ++ stack) (visited.insert a) b := by
  rw [Known, Known, visits_of_not_mem ha, SortedSet.mem_insert, List.mem_cons, or_assoc,
    or_left_comm]

/-- With fuel for the stack and for what is pending, the search ends with an empty stack, and then
all successors are known. -/
theorem closed_visits (hdomain : ∀ a, next a ≠ [] → a ∈ domain)
    (hfuel : stack.length + pending next domain visited ≤ fuel)
    (hvisited : ∀ a ∈ visited, ∀ b ∈ next a, b ∈ visited ∨ b ∈ stack) :
    (∀ a ∈ stack, Known next fuel stack visited a) ∧
      ∀ a, Known next fuel stack visited a → ∀ b ∈ next a, Known next fuel stack visited b := by
  induction fuel generalizing stack visited with
  | zero =>
    obtain rfl : stack = [] := List.length_eq_zero_iff.1 (by omega)
    simpa [Known] using hvisited
  | succ fuel ih =>
    cases stack with
    | nil => simpa [Known] using hvisited
    | cons a stack =>
      rw [List.length_cons] at hfuel
      by_cases ha : a ∈ visited
      · simp only [known_of_mem ha, List.forall_mem_cons]
        have hrest := @ih stack visited (by omega) fun x hx b hb => by
          rcases hvisited x hx b hb with hb | hb
          · exact .inl hb
          · rcases List.mem_cons.1 hb with rfl | hb
            · exact .inl ha
            · exact .inr hb
        exact ⟨⟨.inl ha, hrest.1⟩, hrest.2⟩
      · simp only [known_of_not_mem ha, List.forall_mem_cons]
        have hpending := pending_insert ha (hdomain a)
        have hrest := @ih (next a ++ stack) (visited.insert a)
          (by rw [List.length_append]; omega) fun x hx b hb => by
            rw [SortedSet.mem_insert, List.mem_append]
            rcases SortedSet.mem_insert.1 hx with rfl | hx
            · exact .inr (.inl hb)
            · rcases hvisited x hx b hb with hb | hb
              · exact .inl (.inr hb)
              · rcases List.mem_cons.1 hb with rfl | hb
                · exact .inl (.inl rfl)
                · exact .inr (.inr hb)
        refine ⟨⟨.inl (SortedSet.mem_insert.2 (.inl rfl)), fun x hx => ?_⟩, hrest.2⟩
        exact hrest.1 x (List.mem_append_right _ hx)

theorem mem_visits_iff (hdomain : ∀ a, next a ≠ [] → a ∈ domain) :
    b ∈ visits next (1 + (domain.flatMap next).length) [a] ∅ ↔ Reaches next a b := by
  constructor
  · intro h
    obtain ⟨x, hx, hxb⟩ := reaches_of_mem_visits h
    rwa [List.mem_singleton.1 hx] at hxb
  · intro h
    have hfuel : [a].length + pending next domain ∅ ≤ 1 + (domain.flatMap next).length := by
      simp [pending]
    obtain ⟨hstack, hclosed⟩ := closed_visits hdomain hfuel (by simp)
    have hknown : Known next (1 + (domain.flatMap next).length) [a] ∅ b := by
      induction h with
      | refl => exact hstack a (by simp)
      | tail _ hxb ih => exact hclosed _ ih _ hxb
    exact hknown.resolve_left SortedSet.not_mem_empty

end Search
end BoardNets
