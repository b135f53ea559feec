import BoardNets.Proofs.Circuit.Anchors
import BoardNets.Proofs.Circuit.Resemblance
import BoardNets.Proofs.Circuit.Slots

/-! Requirements that are made twice. Direct steps add to a circuit and take nothing from what it
has required, so an accepted requirement would be wired at any later time as it was when it came in.
Once more, it is accepted again: there is another fragment that is wired like the first, listed
behind it, and all of its uses stand behind the same ones of the first. So the circuit resembles the
one before, and pins keep their slots. -/
namespace BoardNets

/-- The same requirement, from an origin of the same kind. -/
def Requirement.Restates (r' r : Requirement) : Prop :=
  r' = { r with origin := r'.origin } ∧ (r'.origin = .derived ↔ r.origin = .derived)

instance (r' r : Requirement) : Decidable (r'.Restates r) := inferInstanceAs (Decidable (_ ∧ _))

namespace Fragment

def signed (f : Fragment) (o : Origin) : Fragment := { f with origin := o }

theorem unsigned_signed (f : Fragment) (o : Origin) : (f.signed o).unsigned = f.unsigned := rfl

theorem deduce_signed {f : Fragment} {o : Origin} (h : o = .derived ↔ f.origin = .derived)
    (c : Circuit) (x : NodeId) : (f.signed o).deduce c x = f.deduce c x := by
  obtain ⟨origin, function, source, target, adapter⟩ := f
  cases o <;> cases origin
  · rfl
  · exact absurd (h.2 rfl) (by simp)
  · exact absurd (h.1 rfl) (by simp)
  · rfl

theorem completed_signed {f g : Fragment} {o : Origin} (h : o = .derived ↔ f.origin = .derived)
    {c : Circuit} (hg : f.completed c = .ok g) : (f.signed o).completed c = .ok (g.signed o) := by
  obtain ⟨n, hn, hg⟩ := bind_eq_ok.1 hg
  refine bind_eq_ok.2 ⟨n, hn, ?_⟩
  cases n with
  | filter k =>
    obtain rfl := pure_eq_ok.1 hg
    rfl
  | component p =>
    obtain ⟨answer, hanswer, hg⟩ := bind_eq_ok.1 hg
    refine bind_eq_ok.2 ⟨answer, (deduce_signed h c _).trans hanswer, ?_⟩
    cases answer <;>
    · obtain rfl := pure_eq_ok.1 hg
      rfl

end Fragment

theorem Requirement.Restates.fragment {r r' : Requirement} (h : r'.Restates r) {f : Fragment}
    (hf : r.fragment = .ok f) : r'.fragment = .ok (f.signed r'.origin) ∧
      (r'.origin = .derived ↔ f.origin = .derived) := by
  obtain ⟨hsame, hkind⟩ := h
  rw [Requirement.fragment] at hf
  split at hf
  · exact absurd hf throw_ne_ok
  · rename_i hnamed
    obtain rfl := pure_eq_ok.1 hf
    refine ⟨?_, hkind⟩
    rw [hsame, Requirement.fragment, if_neg hnamed]
    rfl

namespace Circuit

variable {c c' c'' : Circuit}

/-- The frame is larger, and fragments are what they were and on the lists they were on. -/
structure Retains (c c' : Circuit) : Prop where
  larger : c.frame.Extends c'.frame
  fragments : ∀ id f, c.fragment? id = some f → c'.fragment? id = some f
  requirements : ∀ x, ∀ id ∈ c.requirementsOf x, id ∈ c'.requirementsOf x

namespace Retains

theorem refl (c : Circuit) : c.Retains c := ⟨.refl _, fun _ _ hf => hf, fun _ _ hid => hid⟩

theorem trans (h : c.Retains c') (h' : c'.Retains c'') : c.Retains c'' where
  larger := h.larger.trans h'.larger
  fragments := fun id f hf => h'.fragments id f (h.fragments id f hf)
  requirements := fun x id hid => h'.requirements x id (h.requirements x id hid)

end Retains

theorem retains_record (f : Fragment) : c.Retains (c.run (record f)).2 := by
  have hpush {id : FragmentId} {g : Fragment} (hg : c.fragment? id = some g) :
      id ≠ c.nextFragment := by
    rintro rfl
    rw [fragment?_nextFragment] at hg
    cases hg
  rcases run_record (c := c) f with ⟨e, _, hrun⟩ | ⟨owner, c', howner, hrenews, hrun⟩
  · rw [hrun]
    refine ⟨.refl _, fun id g hg => ?_, fun _ _ hid => hid⟩
    rw [fragment?_pushFragment, if_neg (hpush hg), hg]
  · rw [hrun]
    have hframe : (c.recorded f owner).frame = c.frame :=
      frame_setNode (c := c.pushFragment f) howner (by cases owner <;> rfl)
    refine ⟨?_, fun id g hg => ?_, fun x id hid => ?_⟩
    · rw [hrenews.tree.frame, hframe]
      exact .refl _
    · rw [hrenews.fragments, if_neg (hpush hg)]
      change (c.pushFragment f).fragment? id = some g
      rw [fragment?_pushFragment, if_neg (hpush hg), hg]
    · rw [hrenews.tree.requirementsOf, recorded, requirementsOf_require howner]
      split
      · exact List.mem_append_left _ hid
      · exact hid

/-- A requirement that adapts nothing is recorded if its target is there. -/
theorem run_require_of_has {r : Requirement} {f : Fragment} (hr : r.adapter = none)
    (hf : r.fragment = .ok f) (htarget : c.Has f.target.node) :
    c.run (Circuit.require r) = c.run (record f) := by
  obtain ⟨n, hn⟩ := Option.isSome_iff_exists.1 htarget
  rw [Circuit.require, run_ask_bind, hf]
  dsimp only
  rw [addFragment, run_ask_bind, node_eq_ok.2 hn, Requirement.adapter_fragment hf hr]
  rfl

theorem retains_perform {step : Instruction} (hdirect : step.IsDirect) :
    c.Retains (c.run step.perform).2 := by
  cases hstep : step.requirement? with
  | none =>
    have hkeeps {P : Circuit → Prop} (hP : Additive (fun _ => True) P) : Keeps P step.perform :=
      hP.keeps_perform hdirect (fun _ _ => trivial) hstep
    have hextends := hkeeps (.extends c) c (.refl c)
    have hduties := hkeeps (.sameDuties c) c (.refl c)
    generalize (c.run step.perform).2 = c' at hextends hduties
    refine ⟨hextends.frame, fun id f hf => ?_, fun x id hid => ?_⟩
    · rw [fragment?, hextends.fragments]
      exact hf
    · rwa [hduties.requirements]
  | some r =>
    obtain rfl : step = .require r := by
      cases step <;> cases hstep
      rfl
    rw [run_perform_require]
    cases hf : r.fragment with
    | error e =>
      rw [Circuit.require, run_ask_bind, hf]
      exact .refl c
    | ok f =>
      by_cases htarget : c.Has f.target.node
      · rw [run_require_of_has hdirect hf htarget]
        exact retains_record f
      · rw [← run_perform_require, run_require_of_missing hf htarget]
        exact .refl c

theorem retains_after {steps : List Instruction} (hdirect : ∀ step ∈ steps, step.IsDirect) :
    c.Retains (c.after steps) := by
  induction steps generalizing c with
  | nil => exact .refl c
  | cons step steps ih =>
    obtain ⟨hstep, hrest⟩ := List.forall_mem_cons.1 hdirect
    exact (retains_perform hstep).trans (ih hrest)

/-- The requirement has become a fragment, which is on the list of its source and wired as it would
be now. -/
structure Accepted (c : Circuit) (r : Requirement) (id : FragmentId) (g : Fragment) : Prop where
  drawn : ∃ f, r.fragment = .ok f ∧ f.Anchored c ∧ f.completed c = .ok g
  fragment : c.fragment? id = some g
  listed : id ∈ c.requirementsOf g.source.node

theorem accepted_of_run {r : Requirement} (hr : r.adapter = none) {id : FragmentId}
    (h : c.run (Circuit.require r) = (.ok id, c')) : ∃ g, c'.Accepted r id g := by
  obtain ⟨f, g, hadmits⟩ := admits_of_run hr h
  obtain ⟨_, _, hrecord⟩ := record_of_require hr h
  obtain ⟨rfl, _⟩ := renews_record hrecord
  refine ⟨g, ⟨f, hadmits.fragment, fun side => ?_, ?_⟩, ?_, ?_⟩
  · have hframed := anchored_frame hadmits.anchored side
    rwa [← hadmits.frame, Has, node?_frame, Option.isSome_map] at hframed
  · rw [Fragment.completed_congr (outline_of_frame hadmits.frame)]
    exact hadmits.completed
  · rw [fragment?_of_push hadmits.fragments, if_pos rfl]
  · rw [hadmits.requirements, if_pos rfl]
    exact List.mem_append_right _ List.mem_cons_self

theorem Accepted.retained {r : Requirement} {id : FragmentId} {g : Fragment}
    (hg : c.Accepted r id g) (h : c.Retains c') : c'.Accepted r id g := by
  obtain ⟨f, hf, hanchored, hcompleted⟩ := hg.drawn
  have hframed := anchored_frame hanchored
  refine ⟨⟨f, hf, fun side => ?_, ?_⟩, h.fragments id g hg.fragment, h.requirements _ id hg.listed⟩
  · have hlarger := h.larger.has (hframed side)
    rwa [Has, node?_frame, Option.isSome_map] at hlarger
  · rw [← completed_frame] at hcompleted ⊢
    exact Fragment.completed_mono h.larger hframed hcompleted

theorem keeps_under_tryDeduce (i : InterfaceRef) (key : InterfacePinId) (us : List PinUse)
    (id : FragmentId) : Keeps (fun c => us <+: (c.usesOf i).under key) (tryDeduce id) := by
  have hactivate (j : InterfaceRef) (more : Connections) :
      Keeps (fun c => us <+: (c.usesOf i).under key) (activate j more) := by
    intro c hc
    rw [activate, run_changeInterface]
    cases hj : c.interface j with
    | error e => exact hc
    | ok x =>
      have hsome : (c.interface? j).isSome := by rw [interface_eq_ok.1 hj, Option.isSome_some]
      change us <+: ((c.editInterface j (·.activate more)).usesOf i).under key
      rw [under_usesOf_activate hsome]
      exact hc.trans (List.prefix_append _ _)
  rw [tryDeduce]
  refine (Keeps.ask _).bind fun f => (Keeps.ask _).bind fun n => ?_
  split
  · exact .pure _
  · refine (Keeps.ask _).bind fun answer => ?_
    split
    · exact .pure _
    · refine (hactivate _ _).bind fun _ => (hactivate _ _).bind fun _ => ?_
      exact fun c hc => hc

theorem prefix_under_record (f : Fragment) (i : InterfaceRef) (key : InterfacePinId) :
    (c.usesOf i).under key <+: ((c.run (record f)).2.usesOf i).under key := by
  rw [record, run_bind, run_get]
  dsimp only
  rw [run_bind, run_modify]
  change _ <+: (((c.pushFragment f).run (ask (·.node f.source.node) >>= _)).2.usesOf i).under key
  refine Keeps.ask_bind (P := fun d => (c.usesOf i).under key <+: (d.usesOf i).under key)
    List.prefix_rfl fun owner howner => ?_
  refine ((keeps_under_tryDeduce i key _ c.nextFragment).bind fun _ => .pure _)
    (c.recorded f owner) ?_
  have hsame : (c.recorded f owner).usesOf i = c.usesOf i := by
    rw [usesOf_eq, usesOf_eq, recorded]
    exact view_setNode (c := c.pushFragment f) (V := usesAt i.index) (node_eq_ok.1 howner)
      (by cases owner <;> rfl) i.component
  dsimp only
  rw [hsame]

/-- The circuit `c'` has another fragment that is the same as `g`, which is `id` in `c`, but for its
origin. -/
structure Repeats (c c' : Circuit) (id : FragmentId) (g : Fragment) : Prop where
  reachable : c.Reachable ∧ c'.Reachable
  frame : c'.frame = c.frame
  original : c.fragment? id = some g
  listed : id ∈ c.requirementsOf g.source.node
  fragments : ∃ o, c'.fragments = c.fragments.push (g.signed o)
  requirements : ∀ x, c'.requirementsOf x =
    if x = g.source.node then c.requirementsOf x ++ [c.nextFragment] else c.requirementsOf x
  uses : ∀ i key, (c.usesOf i).under key <+: (c'.usesOf i).under key

theorem Accepted.again {r r' : Requirement} {id : FragmentId} {g : Fragment}
    (hg : c.Accepted r id g) (hc : c.Reachable) (hr : r.adapter = none) (h : r'.Restates r) :
    ∃ c', c.run (Circuit.require r') = (.ok c.nextFragment, c') ∧ c.Repeats c' id g := by
  obtain ⟨f, hf, hanchored, hcompleted⟩ := hg.drawn
  obtain ⟨hf', hkind⟩ := h.fragment hf
  have hr' : r'.adapter = none := by
    rw [h.1]
    exact hr
  have hcompleted' := Fragment.completed_signed hkind hcompleted
  obtain ⟨c', hrun⟩ : ∃ c', c.run (Circuit.require r') = (.ok c.nextFragment, c') := by
    rw [run_require_of_has hr' hf' (hanchored .target)]
    rcases run_record (c := c) (f.signed r'.origin) with ⟨e, hnone, _⟩ | ⟨_, c', _, _, hrun⟩
    · -- the source is there, as it was when the requirement came in
      have hsource := hanchored .source
      rw [Has, show c.node? (f.endpoint .source).node = none from hnone] at hsource
      cases hsource
    · exact ⟨c', by rw [hrun, hcompleted']; rfl⟩
  obtain ⟨f₁, g₁, hadmits⟩ := admits_of_run hr' hrun
  obtain rfl := Except.ok.inj (hf'.symm.trans hadmits.fragment)
  obtain rfl := Except.ok.inj (hcompleted'.symm.trans hadmits.completed)
  obtain ⟨f₂, hf₂, hrecord⟩ := record_of_require hr' hrun
  refine ⟨c', hrun, ⟨hc, hc.require hrun⟩, hadmits.frame, hg.fragment, hg.listed,
    ⟨_, hadmits.fragments⟩, hadmits.requirements, fun i key => ?_⟩
  have hprefix := prefix_under_record (c := c) f₂ i key
  rwa [hrecord] at hprefix

namespace Repeats

variable {id : FragmentId} {g : Fragment} (h : c.Repeats c' id g)
include h

theorem fragment?_next : ∃ o, c'.fragment? c.nextFragment = some (g.signed o) := by
  obtain ⟨o, ho⟩ := h.fragments
  exact ⟨o, by rw [fragment?_of_push ho, if_pos rfl]⟩

theorem fragment?_of_ne {j : FragmentId} (hj : j ≠ c.nextFragment) :
    c'.fragment? j = c.fragment? j := by
  obtain ⟨o, ho⟩ := h.fragments
  rw [fragment?_of_push ho, if_neg hj]

theorem ne_next {x : NodeId} {j : FragmentId} (hj : j ∈ c.requirementsOf x) :
    j ≠ c.nextFragment := by
  obtain ⟨s, t, hends, _⟩ := h.reachable.1.moored x j hj
  exact (SameDuties.refl c).ne_nextFragment hends

theorem mem_requirementsOf {x : NodeId} {j : FragmentId} : j ∈ c'.requirementsOf x ↔
    j ∈ c.requirementsOf x ∨ x = g.source.node ∧ j = c.nextFragment := by
  rw [h.requirements]
  split <;> simp [*]

theorem mem_under {i : InterfaceRef} {key : InterfacePinId} {u : PinUse} :
    u ∈ (c'.usesOf i).under key ↔ u ∈ (c.usesOf i).under key := by
  refine ⟨fun hu => ?_, fun hu => (h.uses i key).subset hu⟩
  obtain ⟨o, ho⟩ := h.fragments
  rw [(h.reachable.2.balanced.perm_heldOn i key).mem_iff, heldOn, List.mem_filter,
    List.mem_flatMap, ho, Array.toList_push] at hu
  rw [(h.reachable.1.balanced.perm_heldOn i key).mem_iff, heldOn, List.mem_filter,
    List.mem_flatMap]
  obtain ⟨⟨f, hf, hu⟩, hon⟩ := hu
  refine ⟨?_, hon⟩
  rcases List.mem_append.1 hf with hf | hf
  · exact ⟨f, hf, hu⟩
  · obtain rfl := List.mem_singleton.1 hf
    exact ⟨g, Array.mem_toList_iff.2 (Array.mem_of_getElem? h.original), hu⟩

theorem resembles : c.Resembles c' where
  frame := h.frame
  uses := fun _ _ _ => h.mem_under
  demands := by
    intro x f
    constructor
    · rintro ⟨j, f', hj, hf', hsame⟩
      rcases h.mem_requirementsOf.1 hj with hold | ⟨rfl, rfl⟩
      · exact ⟨j, f', hold, (h.fragment?_of_ne (h.ne_next hold)) ▸ hf', hsame⟩
      · obtain ⟨o, ho⟩ := h.fragment?_next
        obtain rfl := Option.some.inj (ho.symm.trans hf')
        exact ⟨id, g, h.listed, h.original, hsame⟩
    · rintro ⟨j, f', hj, hf', hsame⟩
      exact ⟨j, f', h.mem_requirementsOf.2 (.inl hj),
        (h.fragment?_of_ne (h.ne_next hj)).trans hf', hsame⟩

/-- Pins have the slots of their first uses, which come first in either circuit. -/
theorem slotOf_eq {i : InterfaceRef} {x y : ComponentInterface} (hx : c.interface? i = some x)
    (hy : c'.interface? i = some y) (p : ComponentPin) : y.slotOf p = x.slotOf p := by
  refine Connections.find?_uses_congr fun key => congrArg _ ?_
  have hprefix := h.uses i key
  have hall (u : PinUse) : u ∈ (c'.usesOf i).under key ↔ u ∈ (c.usesOf i).under key := h.mem_under
  simp only [usesOf_of_interface (interface_eq_ok.2 hx),
    usesOf_of_interface (interface_eq_ok.2 hy)] at hprefix hall
  obtain ⟨rest, hrest⟩ := hprefix
  rw [← hrest, List.find?_append]
  cases hfind : (x.uses.under key).find? fun u => u.pin = p with
  | some u => rfl
  | none =>
    rw [Option.none_or, List.find?_eq_none]
    rw [List.find?_eq_none] at hfind
    exact fun u hu => hfind u ((hall u).1 (hrest ▸ List.mem_append_right _ hu))

theorem sameSlots : c.SameSlots c' ∧ c'.SameSlots c :=
  ⟨sameSlots_of_interfaces h.frame h.reachable.1.marked h.reachable.2.marked
    fun _ _ _ hx hy => h.slotOf_eq hx hy,
  sameSlots_of_interfaces h.frame.symm h.reachable.2.marked h.reachable.1.marked
    fun _ _ _ hx hy p => (h.slotOf_eq hy hx p).symm⟩

end Repeats
end Circuit
end BoardNets
