import BoardNets.Fragment.Basic
import BoardNets.Proofs.Circuit.Uses
import BoardNets.Proofs.Traversal

/-! The pin pairs of a fragment. Uses that stand under one key on both sides are paired, and a
fragment's connections are the pins of its pairs. Its drivers tell the same from the other side. -/
namespace BoardNets
namespace Fragment

/-- Two uses under one key, on the source's side and on the target's. -/
def Pairs (f : Fragment) (u v : PinUse) : Prop :=
  ∃ key, u ∈ f.source.connections.under key ∧ v ∈ f.target.connections.under key

def Wired (m : SortedMap ComponentPin (SortedSet ComponentPin)) (p q : ComponentPin) : Prop :=
  q ∈ (m.find? p).getD ∅

theorem wired_update {m : SortedMap ComponentPin (SortedSet ComponentPin)} {x p q : ComponentPin}
    {ys : List ComponentPin} :
    Wired (m.update x ∅ (·.insertAll ys)) p q ↔ Wired m p q ∨ (x = p ∧ q ∈ ys) := by
  rw [Wired, SortedMap.find?_update]
  by_cases h : x = p
  · subst h
    rw [if_pos rfl, Option.getD_some, SortedSet.mem_insertAll]
    exact or_congr Iff.rfl (and_iff_right rfl).symm
  · rw [if_neg (Ne.symm h)]
    exact (or_iff_left fun hx => h hx.1).symm

theorem wired_uses {us vs : List PinUse} {m : SortedMap ComponentPin (SortedSet ComponentPin)}
    {p q : ComponentPin} :
    Wired (us.foldl (fun m u => m.update u.pin ∅ (·.insertAll (vs.map PinUse.pin))) m) p q ↔
      Wired m p q ∨ ∃ u ∈ us, ∃ v ∈ vs, u.pin = p ∧ v.pin = q := by
  refine (foldl_gathers (M := fun m => Wired m p q)
    (C := fun u : PinUse => u.pin = p ∧ q ∈ vs.map PinUse.pin) fun m u => wired_update).trans ?_
  refine or_congr Iff.rfl (exists_congr fun u => and_congr_right fun _ => ?_)
  rw [List.mem_map]
  constructor
  · rintro ⟨hp, v, hv, hq⟩
    exact ⟨v, hv, hp, hq⟩
  · rintro ⟨v, hv, hp, hq⟩
    exact ⟨hp, v, hv, hq⟩

theorem mem_connections {f : Fragment} {p q : ComponentPin} :
    q ∈ (f.connections.find? p).getD ∅ ↔ ∃ u v, f.Pairs u v ∧ u.pin = p ∧ v.pin = q := by
  change Wired f.connections p q ↔ _
  refine (foldl_gathers (M := fun m => Wired m p q) (C := fun e => ∃ u ∈ e.2,
    ∃ v ∈ f.target.connections.under e.1, u.pin = p ∧ v.pin = q) fun m e => ?_).trans ?_
  · obtain ⟨key, us⟩ := e
    dsimp only [Connections.under]
    cases f.target.connections.find? key with
    | none => simp
    | some vs => exact wired_uses
  · have hnone : ¬Wired ∅ p q := SortedSet.not_mem_empty
    rw [or_iff_right hnone]
    constructor
    · rintro ⟨⟨key, us⟩, he, u, hu, v, hv, hp, hq⟩
      exact ⟨u, v, ⟨key, Connections.mem_under.2 ⟨us, he, hu⟩, hv⟩, hp, hq⟩
    · rintro ⟨u, v, ⟨key, hu, hv⟩, hp, hq⟩
      obtain ⟨us, hus, hu⟩ := Connections.mem_under.1 hu
      exact ⟨(key, us), hus, u, hu, v, hv, hp, hq⟩

theorem mem_drivers {f : Fragment} {p q : ComponentPin} :
    p ∈ (f.drivers.find? q).getD ∅ ↔ q ∈ (f.connections.find? p).getD ∅ := by
  have htargets (pin : ComponentPin) (targets : SortedSet ComponentPin)
      (m : SortedMap ComponentPin (SortedSet ComponentPin)) :
      Wired (targets.toList.foldl (fun m target => m.update target ∅ (·.insert pin)) m) q p ↔
        Wired m q p ∨ q ∈ targets ∧ p = pin := by
    refine (foldl_gathers (M := fun m => Wired m q p)
      (C := fun target : ComponentPin => target = q ∧ p ∈ [pin]) fun m target =>
        wired_update).trans (or_congr Iff.rfl ?_)
    simp [SortedSet.mem_def]
  change Wired f.drivers q p ↔ _
  refine (foldl_gathers (M := fun m => Wired m q p) (C := fun e => q ∈ e.2 ∧ p = e.1)
    fun m e => htargets e.1 e.2 m).trans ?_
  have hnone : ¬Wired ∅ q p := SortedSet.not_mem_empty
  rw [or_iff_right hnone]
  constructor
  · rintro ⟨⟨_, targets⟩, he, hq, rfl⟩
    rwa [SortedMap.find?_eq_some_iff.2 he]
  · intro hq
    cases htargets : f.connections.find? p with
    | none =>
      rw [htargets] at hq
      exact absurd hq SortedSet.not_mem_empty
    | some targets =>
      rw [htargets] at hq
      exact ⟨(p, targets), SortedMap.find?_eq_some_iff.1 htargets, hq, rfl⟩

end Fragment
end BoardNets
