import BoardNets.Proofs.Circuit.Extension
import BoardNets.Proofs.Circuit.Inheritance

/-! Where required fragments end. A requirement is refused if its target is not there, and its
source has it on the list, so both ends of what is on lists are nodes of the circuit. Resolutions
move ends to candidates, which are there as well. -/
namespace BoardNets
namespace Circuit

variable {c c' : Circuit}

def Moored (c : Circuit) : Prop :=
  ∀ x, ∀ id ∈ c.requirementsOf x, ∃ s t, c.ends id = some (s, t) ∧ c.Has s ∧ c.Has t

theorem has_of_mem_requirementsOf {x : NodeId} {id : FragmentId} (h : id ∈ c.requirementsOf x) :
    c.Has x := by
  rw [requirementsOf] at h
  cases hx : c.node? x with
  | none =>
    rw [hx] at h
    cases h
  | some n =>
    rw [Has, hx]
    rfl

theorem Has.edits (hedits : Relation.ReflTransGen Edit c c') {x : NodeId} (hx : c.Has x) :
    c'.Has x := by
  obtain ⟨n, hn⟩ := Option.isSome_iff_exists.1 hx
  cases n with
  | component p =>
    have hp := isSome_component_edits hedits (by rw [component?_eq_some.2 hn]; rfl)
    exact isSome_of_component hp
  | filter k =>
    obtain ⟨k', hk'⟩ := edits_keep_filter hedits hn
    rw [Has, hk']
    rfl

theorem run_require_of_missing {r : Requirement} {f : Fragment} (hr : r.fragment = .ok f)
    (hf : ¬c.Has f.target.node) : (c.run (Instruction.require r).perform).2 = c := by
  have hnone : c.node? f.target.node = none := by simpa [Has] using hf
  have hmissing : ∃ e, c.node f.target.node = .error e := ⟨_, by rw [node, hnone]; rfl⟩
  obtain ⟨e, he⟩ := hmissing
  rw [run_perform_require, Circuit.require, run_ask_bind, hr]
  dsimp only
  rw [addFragment, run_ask_bind, he]

theorem ends_nextFragment : c.ends c.nextFragment = none := by
  rw [ends, fragment?_nextFragment]
  rfl

theorem SameDuties.ne_nextFragment {d : Circuit} (h : c.SameDuties d) {id : FragmentId}
    {e : NodeId × NodeId} (he : c.ends id = some e) : id ≠ d.nextFragment := by
  rintro rfl
  rw [← h.ends, ends_nextFragment] at he
  cases he

theorem moored_new (catalog : Catalog) : (new catalog).Moored := by
  intro x id hid
  obtain ⟨f, hf⟩ := Option.isSome_iff_exists.1 (listed_new catalog x id hid)
  cases hf

/-- What was on lists keeps its ends, or a filter among them is replaced by a candidate. -/
theorem Moored.perform (hmoored : c.Moored) (hc : c.Base) (step : Instruction) :
    (c.run step.perform).2.Moored := by
  intro x id hid
  have hkeep {y : NodeId} (hy : c.Has y) : (c.run step.perform).2.Has y :=
    hy.edits (edits_perform step c hc)
  have hmissing (r : Requirement) (f : Fragment) (hstep : step = .require r)
      (hr : r.fragment = .ok f) (hf : ¬c.Has f.target.node) : (c.run step.perform).2 = c := by
    rw [hstep]
    exact run_require_of_missing hr hf
  have houtcome := outcome hc step
  generalize (c.run step.perform).2 = c' at hid hkeep hmissing houtcome ⊢
  have hx : c'.Has x := has_of_mem_requirementsOf hid
  cases houtcome with
  | quiet hduties _ =>
    rw [hduties.requirements] at hid
    obtain ⟨s, t, hends, hs, ht⟩ := hmoored x id hid
    exact ⟨s, t, by rw [hduties.ends, hends], hkeep hs, hkeep ht⟩
  | @resolved F y k _ hfilter hduties =>
    obtain ⟨hF, hy⟩ := filterOf_eq_ok.1 hfilter
    have hcandidate : c.Has y := isSome_of_component ((hc.filters F k hF).1 y hy)
    have hmoved {z : NodeId} (hz : c.Has z) : c'.Has (replace F y z) := by
      rw [replace]
      split
      · exact hkeep hcandidate
      · exact hkeep hz
    obtain ⟨z, hz⟩ : ∃ z, id ∈ c.requirementsOf z := by
      rw [hduties.requirements] at hid
      by_cases hxy : x = y
      · rw [hxy, requirementsOf_heir hF ((hc.filters F k hF).1 y hy), List.mem_append] at hid
        exact hid.elim (fun h => ⟨y, h⟩) fun h => ⟨F, h⟩
      · exact ⟨x, requirementsOf_resolved hxy ▸ hid⟩
    obtain ⟨s, t, hends, hs, ht⟩ := hmoored z id hz
    exact ⟨_, _, by rw [hduties.ends, ends_resolved, hends]; rfl, hmoved hs, hmoved ht⟩
  | @required r f d _ owner hr _ hduties howner hrecorded hrenews =>
    have hends (j : FragmentId) :
        c'.ends j = if j = d.nextFragment then some f.ends else c.ends j := by
      rw [hrecorded.ends]
      change (d.pushFragment f).ends j = _
      rw [ends_pushFragment, hduties.ends]
    have hold {y : NodeId} (hy : id ∈ c.requirementsOf y) :
        ∃ s t, c'.ends id = some (s, t) ∧ c'.Has s ∧ c'.Has t := by
      obtain ⟨s, t, hst, hs, ht⟩ := hmoored y id hy
      refine ⟨s, t, ?_, hkeep hs, hkeep ht⟩
      rw [hends, if_neg (hduties.ne_nextFragment hst), hst]
    have htarget : c'.Has f.target.node := by
      by_contra hout
      have hsame := hmissing r f rfl hr fun h => hout (hkeep h)
      have hnew := hends d.nextFragment
      rw [if_pos rfl, hsame] at hnew
      exact hduties.ne_nextFragment hnew rfl
    rw [hrecorded.requirements, recorded, requirementsOf_require howner] at hid
    split at hid
    · rename_i hsource
      rw [List.mem_append, List.mem_singleton, hduties.requirements] at hid
      rcases hid with hid | rfl
      · exact hold hid
      · exact ⟨f.source.node, f.target.node, by rw [hends, if_pos rfl]; rfl, hsource ▸ hx, htarget⟩
    · exact hold (hduties.requirements x ▸ hid)
  | @stray r f d hr _ hduties _ =>
    rw [show (d.pushFragment f).requirementsOf x = d.requirementsOf x from rfl,
      hduties.requirements] at hid
    obtain ⟨s, t, hst, hs, ht⟩ := hmoored x id hid
    refine ⟨s, t, ?_, hkeep hs, hkeep ht⟩
    rw [ends_pushFragment, if_neg (hduties.ne_nextFragment hst), hduties.ends, hst]

theorem Reachable.moored (hc : c.Reachable) : c.Moored := by
  obtain ⟨catalog, steps, rfl⟩ := hc
  have hafter {c : Circuit} (hmoored : c.Moored) (hc : c.Base) : (c.after steps).Moored := by
    induction steps generalizing c with
    | nil => exact hmoored
    | cons step steps ih =>
      exact ih (hmoored.perform hc step) (hc.edits (edits_perform step c hc))
  exact hafter (moored_new catalog) (base_new catalog)

end Circuit
end BoardNets
