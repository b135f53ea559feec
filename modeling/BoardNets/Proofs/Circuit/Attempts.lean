import BoardNets.Proofs.Circuit.Resolution

/-! Resolutions that may fail. Repairs stop at the first one that fails, so a resolution that fails
has new ends for all fragments of the filter, but has not come to those behind the one that it
failed at. -/
namespace BoardNets
namespace Circuit

variable {c c' : Circuit}

/-- Repairs in a row come to a fragment unless one before it fails. -/
def Reaches (c : Circuit) (ids : List FragmentId) (id : FragmentId) : Prop :=
  ∀ j ∈ ids, j.index < id.index → ∀ f, c.fragment? j = some f → ∃ g, f.mended c = .ok g

theorem reaches_head {i : FragmentId} {ids : List FragmentId}
    (hbefore : ∀ j ∈ ids, i.index < j.index) : c.Reaches (i :: ids) i := by
  intro j hj hlt
  rcases List.mem_cons.1 hj with rfl | hj
  · exact absurd hlt (Nat.lt_irrefl _)
  · exact absurd (hbefore j hj) (Nat.not_lt_of_lt hlt)

theorem Renews.reaches_iff {i id : FragmentId} {ids : List FragmentId} {f g k : Fragment}
    (h : c.Renews c' i k) (hf : c.fragment? i = some f) (hmended : f.mended c = .ok g)
    (hi : i ∉ ids) : c'.Reaches ids id ↔ c.Reaches (i :: ids) id := by
  have hrest (j : FragmentId) (hj : j ∈ ids) : (∀ f, c'.fragment? j = some f →
      ∃ g, f.mended c' = .ok g) ↔ ∀ f, c.fragment? j = some f → ∃ g, f.mended c = .ok g := by
    have hne : j ≠ i := fun heq => hi (heq ▸ hj)
    simp only [h.fragments, if_neg hne, Fragment.mended_congr h.tree.outline]
  constructor
  · intro hreaches j hj hlt
    rcases List.mem_cons.1 hj with rfl | hj
    · intro f' hf'
      obtain rfl := Option.some.inj (hf.symm.trans hf')
      exact ⟨g, hmended⟩
    · exact (hrest j hj).1 (hreaches j hj hlt)
  · exact fun hreaches j hj hlt => (hrest j hj).2 (hreaches j (List.mem_cons_of_mem i hj) hlt)

/-- Repairs in the order of the arena, up to the first one that fails. -/
theorem run_repairs (hc : c.Base) {ids : List FragmentId}
    (hids : ids.Pairwise fun i j => i.index < j.index)
    (hall : ∀ id ∈ ids, (c.fragment? id).isSome) {result : Result PUnit}
    (h : c.run (ids.forM repair) = (result, c')) :
    c.SameTree c' ∧ ∀ id f, c.fragment? id = some f →
      (id ∈ ids → c.Reaches ids id → c'.fragment? id = some (f.repaired c)) ∧
      (¬(id ∈ ids ∧ c.Reaches ids id) → c'.fragment? id = some f) := by
  induction ids generalizing c with
  | nil =>
    obtain rfl : c = c' := congrArg Prod.snd h
    refine ⟨.refl c, fun id f hf => ⟨fun hid => ?_, fun _ => hf⟩⟩
    cases hid
  | cons i ids ih =>
    obtain ⟨hbefore, hids⟩ := List.pairwise_cons.1 hids
    obtain ⟨hsome, hrest⟩ := List.forall_mem_cons.1 hall
    obtain ⟨k, hk⟩ := Option.isSome_iff_exists.1 hsome
    obtain ⟨c₁, hrun, hrenews⟩ := run_repair hc hk
    change c.run (repair i >>= fun _ => ids.forM repair) = _ at h
    rw [run_bind, hrun] at h
    have hout : i ∉ ids := fun hi => Nat.lt_irrefl _ (hbefore i hi)
    have hkept {id : FragmentId} (hne : id ≠ i) : c₁.fragment? id = c.fragment? id := by
      rw [hrenews.fragments, if_neg hne]
    -- the first repair is the only one that has to do with its fragment
    have hfirst {f : Fragment} (hf : c.fragment? i = some f)
        (hlast : c'.fragment? i = some (k.repaired c)) :
        (i ∈ i :: ids → c.Reaches (i :: ids) i → c'.fragment? i = some (f.repaired c)) ∧
        (¬(i ∈ i :: ids ∧ c.Reaches (i :: ids) i) → c'.fragment? i = some f) := by
      obtain rfl := Option.some.inj (hk.symm.trans hf)
      exact ⟨fun _ _ => hlast, fun hnot => absurd ⟨List.mem_cons_self, reaches_head hbefore⟩ hnot⟩
    have hrepaired : c₁.fragment? i = some (k.repaired c) := by rw [hrenews.fragments, if_pos rfl]
    cases hmended : k.mended c with
    | error e =>
      -- it fails, and there are no others
      rw [hmended] at h
      obtain rfl : c₁ = c' := congrArg Prod.snd h
      refine ⟨hrenews.tree, fun id f hf => ?_⟩
      by_cases hi : id = i
      · subst hi
        exact hfirst hf hrepaired
      · refine ⟨fun hid hreaches => ?_, fun _ => (hkept hi).trans hf⟩
        have hlt := hbefore id ((List.mem_cons.1 hid).resolve_left hi)
        obtain ⟨g, hg⟩ := hreaches i List.mem_cons_self hlt k hk
        rw [hmended] at hg
        cases hg
    | ok g =>
      rw [hmended] at h
      have hbase : c₁.Base := by
        have hedits := hc.edits (edits_repair i c hc)
        rwa [hrun] at hedits
      obtain ⟨htree, hfragments⟩ := ih hbase hids (fun j hj => by
        have hne : j ≠ i := fun heq => hout (heq ▸ hj)
        rw [hkept hne]
        exact hrest j hj) h
      refine ⟨hrenews.tree.trans htree, fun id f hf => ?_⟩
      by_cases hi : id = i
      · subst hi
        exact hfirst hf ((hfragments id _ hrepaired).2 fun hid => hout hid.1)
      · have hboth := hfragments id f ((hkept hi).trans hf)
        rw [Fragment.repaired_congr hrenews.tree.outline,
          hrenews.reaches_iff hk hmended hout] at hboth
        simpa only [List.mem_cons, hi, false_or] using hboth

theorem increasing_touching (F : NodeId) :
    (c.touching F).Pairwise fun i j => i.index < j.index := by
  rw [touching]
  refine List.Pairwise.filter _ ?_
  rw [List.pairwise_map]
  exact List.pairwise_lt_range

/-- A resolution comes to a fragment unless the repair of an earlier one fails. -/
def ComesTo (c : Circuit) (F x : NodeId) (id : FragmentId) : Prop :=
  ∀ j f, j.index < id.index → c.fragment? j = some f → ∃ g, f.moved c F x = .ok g

theorem reaches_resolved_iff {F x : NodeId} {k : Filter} {id : FragmentId} :
    (c.resolved F x k).Reaches (c.touching F) id ↔ c.ComesTo F x id := by
  have hresolved (j : FragmentId) : (c.resolved F x k).fragment? j =
      (c.fragment? j).map (retarget F x) := fragment?_resolved
  have hmended (f : Fragment) : f.mended (c.resolved F x k) = f.mended c :=
    Fragment.mended_congr (outline_resolved F x k)
  constructor
  · intro h j f hlt hf
    rw [Fragment.moved]
    split
    · rename_i htouches
      obtain ⟨g, hg⟩ := h j (mem_touching.2 ⟨f, hf, htouches⟩) hlt (retarget F x f)
        (by rw [hresolved, hf, Option.map_some])
      exact ⟨g, hmended _ ▸ hg⟩
    · exact ⟨f, rfl⟩
  · intro h j hj hlt f hf
    obtain ⟨f₀, hf₀, htouches⟩ := mem_touching.1 hj
    rw [hresolved, hf₀, Option.map_some] at hf
    obtain rfl := Option.some.inj hf
    obtain ⟨g, hg⟩ := h j f₀ hlt hf₀
    rw [Fragment.moved, if_pos htouches] at hg
    exact ⟨g, hmended _ ▸ hg⟩

/-- A resolution, successful or failed, gives the fragments of the filter new ends, and mends those
that it comes to. -/
theorem run_resolution (hc : c.Base) {F x : NodeId} {k : Filter}
    (hF : c.node? F = some (.filter k)) (hx : x ∈ k.feasible) {result : Result Unit}
    (h : c.run (resolveFilter F x) = (result, c')) :
    (c.resolved F x k).SameTree c' ∧ ∀ id f, c.fragment? id = some f →
      ((f.source.node = F ∨ f.target.node = F) → c.ComesTo F x id →
        c'.fragment? id = some ((retarget F x f).repaired c)) ∧
      (¬((f.source.node = F ∨ f.target.node = F) ∧ c.ComesTo F x id) →
        c'.fragment? id = some (retarget F x f)) := by
  have hresolved (j : FragmentId) : (c.resolved F x k).fragment? j =
      (c.fragment? j).map (retarget F x) := fragment?_resolved
  rw [run_resolveFilter hc hF hx] at h
  obtain ⟨htree, hfragments⟩ := run_repairs (hc.edit (.resolve hF hx)) (increasing_touching F)
    (fun id hid => by
      obtain ⟨f, hf, _⟩ := mem_touching.1 hid
      rw [hresolved, hf, Option.map_some]
      rfl) h
  refine ⟨htree, fun id f hf => ?_⟩
  obtain ⟨hreached, hunreached⟩ := hfragments id (retarget F x f)
    (by rw [hresolved, hf, Option.map_some])
  have htouching : id ∈ c.touching F ↔ f.source.node = F ∨ f.target.node = F := by
    rw [mem_touching, hf]
    simp
  rw [reaches_resolved_iff, htouching, Fragment.repaired_congr (outline_resolved F x k)] at hreached
  rw [reaches_resolved_iff, htouching] at hunreached
  exact ⟨hreached, hunreached⟩

end Circuit
end BoardNets
