import BoardNets.Proofs.Circuit.Confluence
import BoardNets.Proofs.Circuit.Duties

/-! Where the connections of fragments lie. Those of a source lie on it. Those of a target are
deduced with the component that stands for it, and while the target is a filter that remains its
first candidate, whatever is built. -/
namespace BoardNets
namespace Circuit

variable {c c' : Circuit}

/-- A component stands for itself, and for a filter its first candidate does. -/
def Stands (c : Circuit) (x y : NodeId) : Prop :=
  (c.component? x).isSome ∧ y = x ∨
    ∃ k, c.node? x = some (.filter k) ∧ k.feasible.head? = some y

end Circuit

namespace Fragment

/-- The uses of the target are on the component that stands for it. -/
def Home (f : Fragment) (c : Circuit) : Prop :=
  ∀ u ∈ f.target.connections.uses, c.Stands f.target.node u.interface.component

variable {f g : Fragment} {c c' : Circuit}

theorem home_of_uses_eq_nil (h : f.target.connections.uses = []) : f.Home c := by
  intro u hu
  rw [h] at hu
  cases hu

theorem home_of_bare (h : f.bare = f) : f.Home c := by
  refine home_of_uses_eq_nil ?_
  rw [(bare_eq_self.1 h).2]
  rfl

theorem stands_of_targetComponent? {y : NodeId} (h : f.targetComponent? c = .ok (some y)) :
    c.Stands f.target.node y := by
  obtain ⟨n, hn, h⟩ := bind_eq_ok.1 h
  rw [Circuit.node_eq_ok] at hn
  cases n with
  | component p =>
    refine .inl ⟨?_, (Option.some.inj (pure_eq_ok.1 h)).symm⟩
    rw [Circuit.component?_eq_some.2 hn, Option.isSome_some]
  | filter k =>
    refine .inr ⟨k, hn, ?_⟩
    obtain ⟨connectivities, _, h⟩ := bind_eq_ok.1 h
    split at h
    · cases h
    · rename_i first rest hfeasible
      split at h
      · rw [hfeasible, Option.some.inj (pure_eq_ok.1 h)]
        rfl
      · cases h

/-- Deduction wires the source with the component that stands for the target. -/
theorem stands_of_deduce {source : NodeId} {w : Wiring}
    (h : f.deduce c source = .ok (.resolved w)) :
    c.Stands f.target.node w.targetInterface.component := by
  rw [deduce] at h
  split at h
  · cases h
  · split at h
    · obtain ⟨y?, hy, h⟩ := bind_eq_ok.1 h
      split at h
      · cases h
      · rw [target_of_deduceNamed h]
        exact stands_of_targetComponent? hy
    · cases h

theorem holding_of_bare (h : f.bare = f) (p : Pairing) :
    (f.holding p).source.connections = p.source ∧ (f.holding p).target.connections = p.target := by
  obtain ⟨hsource, htarget⟩ := bare_eq_self.1 h
  rw [holding, hsource, htarget]
  exact ⟨SortedMap.empty_insertAll _, SortedMap.empty_insertAll _⟩

theorem home_holding (hbare : f.bare = f) {source : NodeId} {w : Wiring}
    (h : f.deduce c source = .ok (.resolved w)) : (f.holding w.pairing).Home c := by
  intro u hu
  rw [(holding_of_bare hbare _).2] at hu
  rw [((sound_of_deduce h).on.target u hu).1]
  exact stands_of_deduce h

theorem home_attempted (hbare : f.bare = f) : (f.attempted c).Home c := by
  rcases attempted_cases (f := f) (c := c) with h | ⟨w, hdeduce, h⟩
  · rw [h]
    exact home_of_bare hbare
  · rw [h]
    exact home_holding hbare hdeduce

theorem ends_repaired : (f.repaired c).ends = f.ends := by
  have hcurrent : f.current.ends = f.ends := by
    rw [current]
    split <;> rfl
  rw [repaired]
  split
  · rw [ends_attempted, hcurrent]
  · exact hcurrent

/-- A repair brings home what is out of date, and leaves the rest where it is. -/
theorem home_repaired_iff (hbalanced : f.source.connections = ∅ → f.target.connections = ∅) :
    (f.repaired c).Home c ↔ f.Stale ∨ f.Home c := by
  by_cases hstale : f.Stale
  · have hcurrent : f.current = f.bare := if_pos hstale
    have hempty : f.bare.source.connections.isEmpty = true := rfl
    rw [repaired, hcurrent, if_pos hempty]
    exact iff_of_true (home_attempted rfl) (.inl hstale)
  · have hcurrent : f.current = f := if_neg hstale
    rw [repaired, hcurrent, or_iff_right hstale]
    by_cases hempty : f.source.connections = ∅
    · have hbare : f.bare = f := bare_eq_self.2 ⟨hempty, hbalanced hempty⟩
      have hnone : f.source.connections.isEmpty = true := congrArg SortedMap.isEmpty hempty
      rw [if_pos hnone]
      exact iff_of_true (home_attempted hbare) (home_of_bare hbare)
    · rw [if_neg fun h => hempty (SortedMap.eq_empty_of_isEmpty h)]

theorem home_iff_of_component (h : (c.component? f.target.node).isSome) :
    f.Home c ↔ ∀ u ∈ f.target.connections.uses, u.interface.component = f.target.node := by
  constructor
  · intro hf u hu
    rcases hf u hu with ⟨_, hy⟩ | ⟨k, hk, _⟩
    · exact hy
    · rw [Circuit.component?, hk] at h
      cases h
  · exact fun hf u hu => .inl ⟨h, hf u hu⟩

theorem stale_iff : f.Stale ↔
    ∃ u ∈ f.source.connections.uses ++ f.target.connections.uses,
      u.interface.component ≠ f.source.node ∧ u.interface.component ≠ f.target.node := by
  have hends (u : PinUse) : u.interface.component ∉ [f.source.node, f.target.node] ↔
      u.interface.component ≠ f.source.node ∧ u.interface.component ≠ f.target.node := by simp
  simp only [mem_uses_iff, ← hends]
  constructor
  · rintro ⟨e, he, haway⟩
    exact ⟨e.2, ⟨e, he, rfl⟩, haway⟩
  · rintro ⟨_, ⟨e, he, rfl⟩, haway⟩
    exact ⟨e, he, haway⟩

end Fragment

namespace Circuit

variable {c c' : Circuit}

theorem Stands.edit {x y : NodeId} (hxy : c.Stands x y) (h : Edit c c') : c'.Stands x y := by
  rcases hxy with ⟨hx, hy⟩ | ⟨k, hk, hhead⟩
  · exact .inl ⟨h.grows.component_isSome hx, hy⟩
  · obtain ⟨k', hk', rest, hrest⟩ := h.keeps_filter hk
    refine .inr ⟨k', hk', ?_⟩
    rw [← hrest, List.head?_append, hhead]
    rfl

theorem Stands.edits {x y : NodeId} (hxy : c.Stands x y) (h : Relation.ReflTransGen Edit c c') :
    c'.Stands x y := by
  induction h with
  | refl => exact hxy
  | tail _ hedit ih => exact ih.edit hedit

theorem Stands.sameTree {x y : NodeId} (hxy : c.Stands x y) (h : c.SameTree c') :
    c'.Stands x y := by
  have hnode := h.nodes x
  rw [unused, unused] at hnode
  rcases hxy with ⟨hx, hy⟩ | ⟨k, hk, hhead⟩
  · obtain ⟨p, hp⟩ := Option.isSome_iff_exists.1 hx
    rw [component?_eq_some.1 hp] at hnode
    obtain ⟨n, hn, hsame⟩ := Option.map_eq_some_iff.1 hnode
    cases n with
    | component q => exact .inl ⟨by rw [component?_eq_some.2 hn, Option.isSome_some], hy⟩
    | filter g => cases hsame
  · rw [hk] at hnode
    obtain ⟨n, hn, hsame⟩ := Option.map_eq_some_iff.1 hnode
    cases n with
    | component q => cases hsame
    | filter g =>
      have hlinks : { g with links := [] } = { k with links := [] } := Node.filter.inj hsame
      have hfeasible := congrArg Filter.feasible hlinks
      dsimp only at hfeasible
      exact .inr ⟨g, hn, hfeasible ▸ hhead⟩

/-- What an edit makes of a fragment: it is as before, has no connections, is wired, or has a
candidate in the place of a filter. -/
theorem Edit.fragment_cases (h : Edit c c') {id : FragmentId} {g : Fragment}
    (hg : c'.fragment? id = some g) :
    c.fragment? id = some g ∨ g.bare = g ∨
    (∃ f w, c.fragment? id = some f ∧ f.source.connections = ∅ ∧
      f.deduce c f.source.node = .ok (.resolved w) ∧ g = f.holding w.pairing) ∨
    ∃ F x k f, c.node? F = some (.filter k) ∧ x ∈ k.feasible ∧ c.fragment? id = some f ∧
      g = retarget F x f := by
  have pushed {f : Fragment} (hsource : f.source.connections = ∅)
      (htarget : f.target.connections = ∅) (hg : (c.pushFragment f).fragment? id = some g) :
      c.fragment? id = some g ∨ g.bare = g := by
    rw [fragment?_pushFragment] at hg
    split at hg
    · obtain rfl := Option.some.inj hg
      exact .inr (Fragment.bare_eq_self.2 ⟨hsource, htarget⟩)
    · exact .inl hg
  cases h with
  | child _ _ _ _ => exact .inl (by rwa [fragment?_editComponent] at hg)
  | candidate _ _ _ _ _ => exact .inl hg
  | link _ => exact .inl hg
  | ancillary => exact .inl (by rwa [fragment?_editComponent] at hg)
  | adapt _ _ => exact .inl (by rwa [fragment?_editComponent] at hg)
  | require hsource htarget _ => exact (pushed hsource htarget hg).imp_right .inl
  | stray hsource htarget _ => exact (pushed hsource htarget hg).imp_right .inl
  | @wire j f w hf hsource _ hdeduce =>
    rw [fragment?_wired] at hg
    split at hg
    · rename_i hid
      rw [hid, hf, Option.map_some] at hg
      exact .inr (.inr (.inl ⟨f, w, hid ▸ hf, hsource, hdeduce, (Option.some.inj hg).symm⟩))
    · exact .inl hg
  | unwire _ _ =>
    rw [fragment?_unwired] at hg
    split at hg
    · obtain ⟨f, _, rfl⟩ := Option.map_eq_some_iff.1 hg
      exact .inr (.inl rfl)
    · exact .inl hg
  | @resolve F x k hF hx =>
    rw [fragment?_resolved] at hg
    obtain ⟨f, hf, rfl⟩ := Option.map_eq_some_iff.1 hg
    exact .inr (.inr (.inr ⟨F, x, k, f, hF, hx, hf, rfl⟩))

/-- Uses of a source are on it, and those of a target that is no component yet are where they
belong. -/
structure Lodged (c : Circuit) : Prop where
  source : ∀ id f, c.fragment? id = some f → ∀ u ∈ f.source.connections.uses,
    u.interface.component = f.source.node
  target : ∀ id f, c.fragment? id = some f → (c.component? f.target.node).isSome ∨ f.Home c

theorem Lodged.edit (hc : c.Lodged) (hbase : c.Base) (hsourced : c.Sourced) (hbalanced : c.Balanced)
    (h : Edit c c') : c'.Lodged := by
  have hbare {id : FragmentId} {f : Fragment} (hf : c.fragment? id = some f)
      (hempty : f.source.connections = ∅) : f.bare = f :=
    Fragment.bare_eq_self.2 ⟨hempty, hbalanced.target_eq_empty hf hempty⟩
  have hhome {f : Fragment} (hf : (c.component? f.target.node).isSome ∨ f.Home c) :
      (c'.component? f.target.node).isSome ∨ f.Home c' :=
    hf.imp h.grows.component_isSome fun hf u hu => (hf u hu).edit h
  constructor
  case source =>
    intro id g hg u hu
    rcases h.fragment_cases hg with hg | hg | ⟨f, w, hf, hempty, hdeduce, rfl⟩ |
      ⟨F, x, k, f, hF, _, hf, rfl⟩
    · exact hc.source id g hg u hu
    · rw [(Fragment.bare_eq_self.1 hg).1] at hu
      cases hu
    · have hsound := Fragment.sound_of_deduce hdeduce
      rw [(Fragment.holding_of_bare (hbare hf hempty) _).1] at hu
      rw [(hsound.on.source u hu).1, hsound.sourceNode]
      rfl
    · have hsource : f.source.connections ≠ ∅ := by
        intro hempty
        change u ∈ f.source.connections.uses at hu
        rw [hempty] at hu
        cases hu
      have haway : f.source.node ≠ F := by
        intro heq
        have hcomponent := hsourced id f hf hsource
        rw [heq, component?, hF] at hcomponent
        cases hcomponent
      rw [retarget, replace, if_neg haway]
      exact hc.source id f hf u hu
  case target =>
    intro id g hg
    rcases h.fragment_cases hg with hg | hg | ⟨f, w, hf, hempty, hdeduce, rfl⟩ |
      ⟨F, x, k, f, hF, hx, hf, rfl⟩
    · exact hhome (hc.target id g hg)
    · exact .inr (Fragment.home_of_bare hg)
    · exact hhome (.inr (Fragment.home_holding (hbare hf hempty) hdeduce))
    · by_cases htarget : f.target.node = F
      · have hnode : (retarget F x f).target.node = x := if_pos htarget
        rw [hnode]
        exact .inl (h.grows.component_isSome ((hbase.filters F k hF).1 x hx))
      · have hsame : (retarget F x f).target = f.target := by
          simp only [retarget, replace, if_neg htarget]
        rw [hsame, Fragment.Home, hsame]
        exact hhome (hc.target id f hf)

theorem Reachable.lodged (hc : c.Reachable) : c.Lodged := by
  have hall : c.Sourced ∧ c.Balanced ∧ c.Lodged := by
    refine Reachable.induction (P := fun c => c.Sourced ∧ c.Balanced ∧ c.Lodged) ?_ ?_ hc
    · intro catalog
      have hnone (id : FragmentId) (f : Fragment) : (new catalog).fragment? id ≠ some f := by
        intro hf
        cases hf
      exact ⟨fun id f hf => absurd hf (hnone id f), balanced_new catalog,
        fun id f hf => absurd hf (hnone id f), fun id f hf => absurd hf (hnone id f)⟩
    · intro c c' hbase hkept hedit
      obtain ⟨hsourced, hbalanced, hlodged⟩ := hkept
      exact ⟨hsourced.edit hedit, hbalanced.edit hedit,
        hlodged.edit hbase hsourced hbalanced hedit⟩
  exact hall.2.2

/-- Edits do not take a fragment from home, nor bring it there, while its target is the same. -/
theorem home_edits {f : Fragment} (hf : (c.component? f.target.node).isSome ∨ f.Home c)
    (h : Relation.ReflTransGen Edit c c') : f.Home c' ↔ f.Home c := by
  rcases hf with hcomponent | hhome
  · have hstill := isSome_component_edits h hcomponent
    rw [Fragment.home_iff_of_component hcomponent, Fragment.home_iff_of_component hstill]
  · exact iff_of_true (fun u hu => (hhome u hu).edits h) hhome

end Circuit
end BoardNets
