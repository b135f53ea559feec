import BoardNets.Proofs.Circuit.Steady

/-! Types that a fragment does not give. They are inferred from the interfaces of the given name,
each time they are asked for, so a fragment that finds the same types under its names infers the
same types, whatever else there is. -/
namespace BoardNets
namespace Fragment

variable {f g : Fragment} {c c' : Circuit}

theorem requiredName_eq_ok {side : Side} {name : String} :
    f.requiredName c side = .ok name ↔ (f.endpoint side).interface = some name :=
  Circuit.elim_throw_eq_ok

theorem singleType_eq_ok {side : Side} {name : String} {candidates : SortedSet InterfaceTypeId}
    {type : InterfaceTypeId} :
    f.singleType c side name candidates = .ok type ↔ candidates.toList = [type] := by
  rw [singleType]
  split
  · rename_i t ht
    rw [ht, pure_eq_ok, List.cons.injEq]
    exact (and_iff_left rfl).symm
  · rename_i hnil
    simp [hnil, throw_ne_ok]
  · rename_i hne _
    refine ⟨fun h => absurd h throw_ne_ok, fun h => ?_⟩
    exact absurd h (hne type)

/-- An end that asks for the same interface finds the same types under its name. -/
structure Alike (f : Fragment) (c : Circuit) (g : Fragment) (c' : Circuit) (side : Side) :
    Prop where
  type : (g.endpoint side).type = (f.endpoint side).type
  interface : (g.endpoint side).interface = (f.endpoint side).interface
  named : ∀ name types, (f.endpoint side).type = none → (f.endpoint side).interface = some name →
    f.namedTypes c side name = .ok types → g.namedTypes c' side name = .ok types

variable {type : InterfaceTypeId}

theorem sourceType_mono (hcatalog : c'.catalog = c.catalog) (hsource : f.Alike c g c' .source)
    (h : f.sourceType c = .ok type) : g.sourceType c' = .ok type := by
  have hgiven : g.source.type = f.source.type := hsource.type
  rw [sourceType] at h ⊢
  rw [hgiven]
  cases htype : f.source.type with
  | some given => rwa [htype] at h
  | none =>
    simp only [htype] at h
    obtain ⟨name, hname, h⟩ := bind_eq_ok.1 h
    obtain ⟨types, htypes, h⟩ := bind_eq_ok.1 h
    obtain ⟨requesting, hrequesting, h⟩ := bind_eq_ok.1 h
    rw [requiredName_eq_ok] at hname
    refine bind_eq_ok.2 ⟨name, requiredName_eq_ok.2 (hsource.interface.trans hname), ?_⟩
    refine bind_eq_ok.2 ⟨types, hsource.named name types htype hname htypes, ?_⟩
    rw [hcatalog]
    exact bind_eq_ok.2 ⟨requesting, hrequesting, singleType_eq_ok.2 (singleType_eq_ok.1 h)⟩

theorem targetType_mono (hcatalog : c'.catalog = c.catalog) (hsource : f.Alike c g c' .source)
    (htarget : f.Alike c g c' .target) (h : f.targetType c = .ok type) :
    g.targetType c' = .ok type := by
  have hgiven : g.target.type = f.target.type := htarget.type
  rw [targetType] at h ⊢
  rw [hgiven]
  cases htype : f.target.type with
  | some given => rwa [htype] at h
  | none =>
    simp only [htype] at h
    obtain ⟨name, hname, h⟩ := bind_eq_ok.1 h
    obtain ⟨types, htypes, h⟩ := bind_eq_ok.1 h
    rw [requiredName_eq_ok] at hname
    refine bind_eq_ok.2 ⟨name, requiredName_eq_ok.2 (htarget.interface.trans hname), ?_⟩
    refine bind_eq_ok.2 ⟨types, htarget.named name types htype hname htypes, ?_⟩
    dsimp only at h ⊢
    split at h
    · rename_i hsingle
      rw [if_pos hsingle]
      exact singleType_eq_ok.2 (singleType_eq_ok.1 h)
    · rename_i hseveral
      rw [if_neg hseveral]
      obtain ⟨source, hsourceType, h⟩ := bind_eq_ok.1 h
      obtain ⟨compatible, hcompatible, h⟩ := bind_eq_ok.1 h
      refine bind_eq_ok.2 ⟨source, sourceType_mono hcatalog hsource hsourceType, ?_⟩
      rw [hcatalog]
      exact bind_eq_ok.2 ⟨compatible, hcompatible, singleType_eq_ok.2 (singleType_eq_ok.1 h)⟩

theorem interfaceType_mono (hcatalog : c'.catalog = c.catalog)
    (halike : ∀ side, f.Alike c g c' side) {side : Side} (h : f.interfaceType c side = .ok type) :
    g.interfaceType c' side = .ok type := by
  cases side with
  | source => exact sourceType_mono hcatalog (halike .source) h
  | target => exact targetType_mono hcatalog (halike .source) (halike .target) h

theorem interface_eq_ok_some {side : Side} {i : InterfaceRef} :
    f.interface c side = .ok (some i) ↔ ∃ name type, (f.endpoint side).interface = some name ∧
      f.interfaceType c side = .ok type ∧
        c.interfaceNamed (f.endpoint side).node name type = .ok i := by
  rw [interface]
  cases hname : (f.endpoint side).interface with
  | none => simp [pure_eq_ok]
  | some name => simp [bind_eq_ok, Circuit.interfaceNamed?_eq_ok_some]

theorem isResolved_eq_true : f.isResolved c = true ↔
    (∀ side, ∃ i, f.interface c side = .ok (some i)) ∧ f.source.connections.isEmpty = false := by
  have hsides : (∀ side, ∃ i, f.interface c side = .ok (some i)) ↔
      (∃ i, f.interface c .source = .ok (some i)) ∧ ∃ i, f.interface c .target = .ok (some i) := by
    refine ⟨fun h => ⟨h .source, h .target⟩, fun h side => ?_⟩
    cases side with
    | source => exact h.1
    | target => exact h.2
  rw [hsides, isResolved]
  split
  · rename_i i j hi hj
    simp [hi, hj]
  · rename_i hne
    refine ⟨nofun, ?_⟩
    rintro ⟨⟨⟨i, hi⟩, j, hj⟩, _⟩
    exact absurd hj (hne i j hi)

end Fragment
end BoardNets
