import BoardNets.Ancillary.Basic
import BoardNets.Proofs.Sorted.Listing
import Mathlib.Data.List.Perm.Basic
import Mathlib.Data.List.Nodup

/-! The order of application. Sorting keeps the order of ancillaries of which neither is before the
other, so a list with the same ancillaries is the sorted one as soon as it is in order and breaks
ties like the list sorted. -/
namespace BoardNets

open Std

section Before

variable {α : Type} {l : List α} {a b : α}

theorem not_before_and_after (hl : l.Nodup) (h : [a, b].Sublist l) : ¬[b, a].Sublist l := by
  induction l with
  | nil => cases h
  | cons x l ih =>
    obtain ⟨hx, hl⟩ := List.nodup_cons.1 hl
    rw [List.cons_sublist_cons'] at h ⊢
    rintro (h' | ⟨rfl, h'⟩)
    · rcases h with h | ⟨rfl, _⟩
      · exact ih hl h h'
      · exact hx (h'.subset (by simp))
    · rcases h with h | ⟨_, h⟩
      · exact hx (h.subset (by simp))
      · exact hx (h.subset (by simp))

theorem before_or_after (ha : a ∈ l) (hb : b ∈ l) (hne : a ≠ b) :
    [a, b].Sublist l ∨ [b, a].Sublist l := by
  induction l with
  | nil => cases ha
  | cons x l ih =>
    rcases List.mem_cons.1 ha with rfl | hal <;> rcases List.mem_cons.1 hb with rfl | hbl
    · exact absurd rfl hne
    · exact .inl ((List.singleton_sublist.2 hbl).cons_cons a)
    · exact .inr ((List.singleton_sublist.2 hal).cons_cons b)
    · exact (ih hal hbl).imp (.cons x) (.cons x)

end Before

namespace Ancillary

variable {α β : Type}

def urgency (a : Ancillary) : Int × Nat := ((Latency.limit a.maximumLatency).rank, a.type.rank)

theorem order_eq (a b : Ancillary) :
    order a b = (compare a.urgency.1 b.urgency.1).then (compare a.urgency.2 b.urgency.2) := rfl

theorem order_isLE_trans {a b c : Ancillary} (hab : (order a b).isLE = true)
    (hbc : (order b c).isLE = true) : (order a c).isLE = true := by
  rw [order_eq] at *
  exact @TransCmp.isLE_trans _ (@compare _ (lexOrd (α := Int) (β := Nat))) inferInstance
    a.urgency b.urgency c.urgency hab hbc

theorem order_swap (a b : Ancillary) : order a b = (order b a).swap := by
  rw [order_eq, order_eq]
  exact @OrientedCmp.eq_swap _ (@compare _ (lexOrd (α := Int) (β := Nat))) inferInstance
    a.urgency b.urgency

theorem order_isLE_total (a b : Ancillary) : ((order a b).isLE || (order b a).isLE) = true := by
  rw [order_swap a b]
  cases order b a <;> rfl

theorem sort_perm (l : List (α × Ancillary)) : (sort l).Perm l := List.mergeSort_perm _ _

theorem sort_eq_self {l : List (α × Ancillary)}
    (h : l.Pairwise fun a b => (order a.2 b.2).isLE = true) : sort l = l :=
  List.mergeSort_of_pairwise h

/-- Whether `a` is applied before `b`: the order says so, or else the list does. -/
def Before (l : List (α × Ancillary)) (a b : α × Ancillary) : Prop :=
  order a.2 b.2 = .lt ∨ order a.2 b.2 = .eq ∧ [a, b].Sublist l

theorem not_before {l : List (α × Ancillary)} (hl : l.Nodup) {a b : α × Ancillary}
    (hab : Before l a b) : ¬Before l b a := by
  intro hba
  rw [Before, order_swap b.2 a.2] at hba
  rcases hab with hab | ⟨hab, hlist⟩ <;> rcases hba with hba | ⟨hba, hback⟩
  · rw [hab] at hba
    cases hba
  · rw [hab] at hba
    cases hba
  · rw [hab] at hba
    cases hba
  · exact not_before_and_after hl hlist hback

theorem order_snd_trans (a b c : α × Ancillary) (hab : (order a.2 b.2).isLE = true)
    (hbc : (order b.2 c.2).isLE = true) : (order a.2 c.2).isLE = true :=
  order_isLE_trans hab hbc

theorem order_snd_total (a b : α × Ancillary) :
    ((order a.2 b.2).isLE || (order b.2 a.2).isLE) = true :=
  order_isLE_total a.2 b.2

theorem before_sort {l : List (α × Ancillary)} (hl : l.Nodup) :
    (sort l).Pairwise (Before l) := by
  have hsorted : (sort l).Nodup := (sort_perm l).nodup_iff.2 hl
  rw [List.pairwise_iff_forall_sublist]
  intro a b hab
  have hle := List.pairwise_iff_forall_sublist.1
    (List.pairwise_mergeSort order_snd_trans order_snd_total l) hab
  cases horder : order a.2 b.2 with
  | lt => exact .inl horder
  | gt =>
    rw [horder] at hle
    cases hle
  | eq =>
    have hne : a ≠ b := List.rel_of_pairwise_cons (hsorted.sublist hab) (by simp)
    have ha : a ∈ l := (sort_perm l).mem_iff.1 (hab.subset (by simp))
    have hb : b ∈ l := (sort_perm l).mem_iff.1 (hab.subset (by simp))
    -- the sort is stable, so it would have kept them the other way round
    refine .inr ⟨horder, (before_or_after ha hb hne).resolve_right fun hba => ?_⟩
    have hback : (order b.2 a.2).isLE = true := by
      rw [order_swap, horder]
      rfl
    exact not_before_and_after hsorted hab
      (List.pair_sublist_mergeSort order_snd_trans order_snd_total hback hba)

theorem sort_eq {l l' : List (α × Ancillary)} (hl : l.Nodup) (hperm : l'.Perm l)
    (h : l'.Pairwise (Before l)) : sort l = l' :=
  ((sort_perm l).trans hperm.symm).eq_of_pairwise
    (fun _ _ _ _ hab hba => absurd hba (not_before hl hab)) (before_sort hl) h

/-- Leaving ancillaries out does not change the order of the others. -/
theorem sort_filter (l : List (α × Ancillary)) (p : α × Ancillary → Bool) :
    sort (l.filter p) = (sort l).filter p :=
  mergeSort_filter order_snd_trans order_snd_total p l

end Ancillary
end BoardNets
