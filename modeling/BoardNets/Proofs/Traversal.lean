import Mathlib.Data.List.Forall2

/-! Answers of questions that go through lists. A traversal answers exactly when each of its steps
does, and what every step keeps the whole traversal keeps. -/
namespace BoardNets

variable {ε α β γ : Type}

theorem bind_eq_ok {x : Except ε α} {f : α → Except ε β} {b : β} :
    x >>= f = .ok b ↔ ∃ a, x = .ok a ∧ f a = .ok b := by
  cases x <;> simp [bind, Except.bind]

theorem bind_eq_error {x : Except ε α} {f : α → Except ε β} {e : ε} :
    x >>= f = .error e ↔ x = .error e ∨ ∃ a, x = .ok a ∧ f a = .error e := by
  cases x <;> simp [bind, Except.bind]

theorem pure_eq_ok {a b : α} : (pure a : Except ε α) = .ok b ↔ a = b := by
  simp [pure, Except.pure]

theorem throw_ne_ok {e : ε} {b : α} : (throw e : Except ε α) ≠ .ok b := by
  simp [throw, throwThe, MonadExceptOf.throw]

theorem map_eq_ok {f : α → β} {x : Except ε α} {b : β} :
    x.map f = .ok b ↔ ∃ a, x = .ok a ∧ f a = b := by
  cases x <;> simp [Except.map]

theorem mapError_eq_ok {ε' : Type} {f : ε → ε'} {x : Except ε α} {a : α} :
    x.mapError f = .ok a ↔ x = .ok a := by
  cases x <;> simp [Except.mapError]

theorem isOk_iff {x : Except ε α} : x.isOk = true ↔ ∃ a, x = .ok a := by
  cases x <;> simp [Except.isOk, Except.toBool]

theorem mapM_eq_ok_iff {f : α → Except ε β} {xs : List α} {ys : List β} :
    xs.mapM f = .ok ys ↔ List.Forall₂ (fun x y => f x = .ok y) xs ys := by
  induction xs generalizing ys with
  | nil =>
    rw [List.mapM_nil, pure_eq_ok, List.forall₂_nil_left_iff]
    exact eq_comm
  | cons x xs ih =>
    simp only [List.mapM_cons, bind_eq_ok, pure_eq_ok, List.forall₂_cons_left_iff, ih]
    constructor
    · rintro ⟨y, hy, zs, hzs, rfl⟩
      exact ⟨y, zs, hy, hzs, rfl⟩
    · rintro ⟨y, zs, hy, hzs, rfl⟩
      exact ⟨y, hy, zs, hzs, rfl⟩

theorem mem_of_mapM {f : α → Except ε β} {xs : List α} {ys : List β} (h : xs.mapM f = .ok ys)
    {y : β} : y ∈ ys ↔ ∃ x ∈ xs, f x = .ok y := by
  rw [mapM_eq_ok_iff] at h
  induction h with
  | nil => simp
  | cons hxy _ ih =>
    simp only [List.mem_cons, ih, exists_eq_or_imp, hxy, Except.ok.injEq]
    exact or_congr_left eq_comm

/-- Partners are found for a whole list where each element has one. -/
theorem exists_forall₂_iff {R : α → β → Prop} {xs : List α} :
    (∃ ys, List.Forall₂ R xs ys) ↔ ∀ x ∈ xs, ∃ y, R x y := by
  induction xs with
  | nil => simp
  | cons x xs ih =>
    simp only [List.forall₂_cons_left_iff, List.forall_mem_cons, ← ih]
    constructor
    · rintro ⟨_, y, ys, hy, hys, rfl⟩
      exact ⟨⟨y, hy⟩, ys, hys⟩
    · rintro ⟨⟨y, hy⟩, ys, hys⟩
      exact ⟨y :: ys, y, ys, hy, hys, rfl⟩

theorem exists_mapM_iff {f : α → Except ε β} {xs : List α} :
    (∃ ys, xs.mapM f = .ok ys) ↔ ∀ x ∈ xs, ∃ y, f x = .ok y := by
  simp only [mapM_eq_ok_iff, exists_forall₂_iff]

theorem mapM_eq_map {f : α → Except ε β} {g : α → β} {xs : List α}
    (h : ∀ x ∈ xs, f x = .ok (g x)) : xs.mapM f = .ok (xs.map g) :=
  mapM_eq_ok_iff.2 (List.forall₂_map_right_iff.2 (List.forall₂_same.2 h))

theorem mapM_eq_error {f : α → Except ε β} {before after : List α} {a : α} {e : ε}
    (hbefore : ∀ x ∈ before, ∃ y, f x = .ok y) (ha : f a = .error e) :
    (before ++ a :: after).mapM f = .error e := by
  induction before with
  | nil =>
    rw [List.nil_append, List.mapM_cons, ha]
    rfl
  | cons x before ih =>
    obtain ⟨⟨y, hy⟩, hrest⟩ := List.forall_mem_cons.1 hbefore
    rw [List.cons_append, List.mapM_cons, hy]
    simp only [bind, Except.bind, ih hrest]

theorem exists_of_mapM_error {f : α → Except ε β} {xs : List α} {e : ε}
    (h : xs.mapM f = .error e) : ∃ x ∈ xs, f x = .error e := by
  induction xs with
  | nil => cases h
  | cons x xs ih =>
    rw [List.mapM_cons] at h
    rcases bind_eq_error.1 h with hx | ⟨y, _, h⟩
    · exact ⟨x, List.mem_cons_self, hx⟩
    · rcases bind_eq_error.1 h with hxs | ⟨ys, _, h⟩
      · obtain ⟨z, hz, hfz⟩ := ih hxs
        exact ⟨z, List.mem_cons_of_mem x hz, hfz⟩
      · cases h

/-- What each answer shows of its question, the list of answers shows of the questions. -/
theorem map_of_mapM {f : α → Except ε β} {g : β → γ} {k : α → γ} {xs : List α} {ys : List β}
    (h : xs.mapM f = .ok ys) (hf : ∀ x y, f x = .ok y → g y = k x) : ys.map g = xs.map k := by
  rw [mapM_eq_ok_iff] at h
  induction h with
  | nil => rfl
  | cons hxy _ ih => rw [List.map_cons, List.map_cons, hf _ _ hxy, ih]

/-- What holds of any two elements carries over to what a traversal makes of them. -/
theorem pairwise_of_mapM {f : α → Except ε β} {P : α → α → Prop} {Q : β → β → Prop}
    {xs : List α} {ys : List β} (h : xs.mapM f = .ok ys) (hP : xs.Pairwise P)
    (hQ : ∀ x y x' y', f x = .ok y → f x' = .ok y' → P x x' → Q y y') : ys.Pairwise Q := by
  rw [mapM_eq_ok_iff] at h
  induction h with
  | nil => exact .nil
  | @cons x y xs ys hxy hrest ih =>
    rw [List.pairwise_cons] at hP ⊢
    refine ⟨fun y' hy' => ?_, ih hP.2⟩
    obtain ⟨x', hx', hxy'⟩ := (mem_of_mapM (mapM_eq_ok_iff.2 hrest)).1 hy'
    exact hQ x y x' y' hxy hxy' (hP.1 x' hx')

/-- Two traversals that answer relate what they answer as they relate what they are asked. -/
theorem forall₂_of_mapM₂ {α' β' : Type} {f : α → Except ε β} {g : α' → Except ε β'}
    {R : α → α' → Prop} {S : β → β' → Prop} {xs : List α} {xs' : List α'} {ys : List β}
    {ys' : List β'} (hxs : List.Forall₂ R xs xs') (h : xs.mapM f = .ok ys)
    (h' : xs'.mapM g = .ok ys')
    (hS : ∀ x x' y y', R x x' → f x = .ok y → g x' = .ok y' → S y y') : List.Forall₂ S ys ys' := by
  rw [mapM_eq_ok_iff] at h h'
  induction hxs generalizing ys ys' with
  | nil =>
    rw [List.forall₂_nil_left_iff] at h h'
    exact h ▸ h' ▸ .nil
  | cons hx _ ih =>
    rw [List.forall₂_cons_left_iff] at h h'
    obtain ⟨y, ys, hy, hys, rfl⟩ := h
    obtain ⟨y', ys', hy', hys', rfl⟩ := h'
    exact .cons (hS _ _ _ _ hx hy hy') (ih hys hys')

theorem forall₂_of_mapM {δ : Type} {f : α → Except ε β} {g : γ → Except ε δ} {k : α → γ}
    {R : β → δ → Prop} {xs : List α} {ys : List β} {zs : List δ} (h : xs.mapM f = .ok ys)
    (h' : (xs.map k).mapM g = .ok zs)
    (hR : ∀ x ∈ xs, ∀ y z, f x = .ok y → g (k x) = .ok z → R y z) : List.Forall₂ R ys zs := by
  refine forall₂_of_mapM₂ (R := fun x x' => x ∈ xs ∧ k x = x') ?_ h h' ?_
  · exact List.forall₂_map_right_iff.2 (List.forall₂_same.2 fun x hx => ⟨hx, rfl⟩)
  · rintro x _ y z ⟨hx, rfl⟩ hy hz
    exact hR x hx y z hy hz

/-- Where the questions of a second traversal answer whenever their counterparts do, so does the
traversal. -/
theorem exists_mapM_of_forall₂ {α' β' : Type} {f : α → Except ε β} {g : α' → Except ε β'}
    {R : α → α' → Prop} {S : β → β' → Prop} {xs : List α} {xs' : List α'} {ys : List β}
    (hxs : List.Forall₂ R xs xs') (h : xs.mapM f = .ok ys)
    (hS : ∀ x x' y, R x x' → f x = .ok y → ∃ y', g x' = .ok y' ∧ S y y') :
    ∃ ys', xs'.mapM g = .ok ys' ∧ List.Forall₂ S ys ys' := by
  simp only [mapM_eq_ok_iff] at h ⊢
  induction hxs generalizing ys with
  | nil =>
    rw [List.forall₂_nil_left_iff] at h
    exact ⟨[], .nil, h ▸ .nil⟩
  | cons hx _ ih =>
    rw [List.forall₂_cons_left_iff] at h
    obtain ⟨y, ys, hy, hys, rfl⟩ := h
    obtain ⟨y', hy', hS'⟩ := hS _ _ _ hx hy
    obtain ⟨ys', hys', hall⟩ := ih hys
    exact ⟨y' :: ys', .cons hy' hys', .cons hS' hall⟩

/-- Questions that answer as their counterparts do answer alike in a row. -/
theorem mapM_of_forall₂ {α' : Type} {f : α → Except ε β} {g : α' → Except ε β}
    {R : α → α' → Prop} {xs : List α} {xs' : List α'} {ys : List β} (hxs : List.Forall₂ R xs xs')
    (h : xs.mapM f = .ok ys) (hfg : ∀ x x' y, R x x' → f x = .ok y → g x' = .ok y) :
    xs'.mapM g = .ok ys := by
  obtain ⟨ys', hys', hsame⟩ := exists_mapM_of_forall₂ (S := Eq) hxs h
    fun x x' y hx hy => ⟨y, hfg x x' y hx hy, rfl⟩
  rw [List.forall₂_eq_eq_eq] at hsame
  rwa [hsame]

theorem mapM_translated {f : α → Except ε β} {g : α → Except ε γ} {k : β → γ} {xs : List α}
    {ys : List β} (h : xs.mapM f = .ok ys) (hfg : ∀ x ∈ xs, ∀ y, f x = .ok y → g x = .ok (k y)) :
    xs.mapM g = .ok (ys.map k) := by
  rw [mapM_eq_ok_iff] at h ⊢
  induction h with
  | nil => exact .nil
  | cons hxy _ ih =>
    obtain ⟨hx, hxs⟩ := List.forall_mem_cons.1 hfg
    exact .cons (hx _ hxy) (ih hxs)

theorem mapM_mono {f g : α → Except ε β} {xs : List α} {ys : List β} (h : xs.mapM f = .ok ys)
    (hfg : ∀ x ∈ xs, ∀ y, f x = .ok y → g x = .ok y) : xs.mapM g = .ok ys := by
  have hsame : xs.mapM g = .ok (ys.map id) := mapM_translated h hfg
  rwa [List.map_id] at hsame

theorem mapM_of_filter {f : α → Except ε (List β)} {keep : α → Bool} {xs : List α}
    {ys : List (List β)} (h : (xs.filter keep).mapM f = .ok ys)
    (hnil : ∀ x ∈ xs, keep x = false → f x = .ok []) :
    ∃ zs, xs.mapM f = .ok zs ∧ zs.flatten = ys.flatten := by
  induction xs generalizing ys with
  | nil => exact ⟨ys, h, rfl⟩
  | cons x xs ih =>
    obtain ⟨hx, hxs⟩ := List.forall_mem_cons.1 hnil
    cases hkeep : keep x with
    | false =>
      rw [List.filter_cons_of_neg (by simp [hkeep])] at h
      obtain ⟨zs, hzs, hflat⟩ := ih h hxs
      refine ⟨[] :: zs, ?_, by rw [List.flatten_cons, List.nil_append, hflat]⟩
      simp only [List.mapM_cons, hx hkeep, hzs]
      rfl
    | true =>
      rw [List.filter_cons_of_pos hkeep, List.mapM_cons] at h
      obtain ⟨y, hy, h⟩ := bind_eq_ok.1 h
      obtain ⟨ys, hys, h⟩ := bind_eq_ok.1 h
      obtain rfl := pure_eq_ok.1 h
      obtain ⟨zs, hzs, hflat⟩ := ih hys hxs
      refine ⟨y :: zs, ?_, by rw [List.flatten_cons, List.flatten_cons, hflat]⟩
      simp only [List.mapM_cons, hy, hzs]
      rfl

theorem filterMapM_mono {f g : α → Except ε (Option β)} {xs : List α} {ys : List β}
    (h : xs.filterMapM f = .ok ys) (hfg : ∀ x ∈ xs, ∀ y, f x = .ok y → g x = .ok y) :
    xs.filterMapM g = .ok ys := by
  induction xs generalizing ys with
  | nil => exact h
  | cons x xs ih =>
    obtain ⟨hx, hxs⟩ := List.forall_mem_cons.1 hfg
    rw [List.filterMapM_cons, bind_eq_ok] at h ⊢
    obtain ⟨y, hy, h⟩ := h
    refine ⟨y, hx y hy, ?_⟩
    cases y with
    | none => exact ih h hxs
    | some b =>
      obtain ⟨zs, hzs, h⟩ := bind_eq_ok.1 h
      exact bind_eq_ok.2 ⟨zs, ih hzs hxs, h⟩

theorem exists_of_mem_filterMapM {f : α → Except ε (Option β)} {xs : List α} {ys : List β}
    (h : xs.filterMapM f = .ok ys) {y : β} (hy : y ∈ ys) : ∃ x ∈ xs, f x = .ok (some y) := by
  induction xs generalizing ys with
  | nil =>
    rw [List.filterMapM_nil, pure_eq_ok] at h
    rw [← h] at hy
    cases hy
  | cons x xs ih =>
    rw [List.filterMapM_cons, bind_eq_ok] at h
    obtain ⟨z, hz, h⟩ := h
    cases z with
    | none =>
      obtain ⟨x', hx', hfx'⟩ := ih h hy
      exact ⟨x', List.mem_cons_of_mem _ hx', hfx'⟩
    | some z =>
      obtain ⟨zs, hzs, h⟩ := bind_eq_ok.1 h
      obtain rfl := pure_eq_ok.1 h
      rcases List.mem_cons.1 hy with rfl | hy
      · exact ⟨x, List.mem_cons_self, hz⟩
      · obtain ⟨x', hx', hfx'⟩ := ih hzs hy
        exact ⟨x', List.mem_cons_of_mem _ hx', hfx'⟩

/-- A fold that follows another one through a translation of its states. -/
theorem foldlM_translated {f : β → α → Except ε β} {g : γ → α → Except ε γ} {k : β → γ}
    {xs : List α} {s t : β} (h : xs.foldlM f s = .ok t)
    (hfg : ∀ s, ∀ x ∈ xs, ∀ t, f s x = .ok t → g (k s) x = .ok (k t)) :
    xs.foldlM g (k s) = .ok (k t) := by
  induction xs generalizing s with
  | nil =>
    rw [List.foldlM_nil, pure_eq_ok] at h ⊢
    rw [h]
  | cons x xs ih =>
    rw [List.foldlM_cons, bind_eq_ok] at h ⊢
    obtain ⟨u, hu, h⟩ := h
    exact ⟨k u, hfg s x List.mem_cons_self u hu,
      ih h fun s y hy => hfg s y (List.mem_cons_of_mem x hy)⟩

theorem foldlM_mono {f g : β → α → Except ε β} {xs : List α} {s t : β}
    (h : xs.foldlM f s = .ok t) (hfg : ∀ s, ∀ x ∈ xs, ∀ t, f s x = .ok t → g s x = .ok t) :
    xs.foldlM g s = .ok t :=
  foldlM_translated (k := id) h hfg

theorem foldlM_keeps {f : β → α → Except ε β} {P : β → Prop} {xs : List α}
    (step : ∀ s t, ∀ x ∈ xs, P s → f s x = .ok t → P t) {s t : β} (hs : P s)
    (h : xs.foldlM f s = .ok t) : P t := by
  induction xs generalizing s with
  | nil =>
    rw [List.foldlM_nil, pure_eq_ok] at h
    exact h ▸ hs
  | cons x xs ih =>
    rw [List.foldlM_cons, bind_eq_ok] at h
    obtain ⟨u, hu, h⟩ := h
    have hP := step s u x List.mem_cons_self hs hu
    exact ih (fun s t y hy => step s t y (List.mem_cons_of_mem x hy)) hP h

theorem foldlM_gathers {f : β → α → Except ε β} {M : β → γ → Prop} {C : α → γ → Prop}
    (step : ∀ s t x, f s x = .ok t → ∀ y, M t y ↔ M s y ∨ C x y) {xs : List α} {s t : β}
    (h : xs.foldlM f s = .ok t) (y : γ) : M t y ↔ M s y ∨ ∃ x ∈ xs, C x y := by
  induction xs generalizing s with
  | nil =>
    rw [List.foldlM_nil, pure_eq_ok] at h
    simp [h]
  | cons x xs ih =>
    rw [List.foldlM_cons, bind_eq_ok] at h
    obtain ⟨u, hu, h⟩ := h
    rw [ih h, step s u x hu, or_assoc]
    simp only [List.mem_cons, exists_eq_or_imp]

theorem foldlM_eq_foldl {f : β → α → Except ε β} {g : β → α → β} {xs : List α} {s : β}
    (h : ∀ s, ∀ x ∈ xs, f s x = .ok (g s x)) : xs.foldlM f s = .ok (xs.foldl g s) := by
  induction xs generalizing s with
  | nil => rfl
  | cons x xs ih =>
    rw [List.foldlM_cons, h s x List.mem_cons_self]
    exact ih fun s y hy => h s y (List.mem_cons_of_mem x hy)

theorem foldl_gathers {f : β → α → β} {M : β → Prop} {C : α → Prop}
    (step : ∀ s x, M (f s x) ↔ M s ∨ C x) {xs : List α} {s : β} :
    M (xs.foldl f s) ↔ M s ∨ ∃ x ∈ xs, C x := by
  induction xs generalizing s with
  | nil => simp
  | cons x xs ih =>
    rw [List.foldl_cons, ih, step, or_assoc]
    simp only [List.mem_cons, exists_eq_or_imp]

/-- A fold that succeeds has taken every step, from a state that has what all steps keep. -/
theorem foldlM_each_from {f : β → α → Except ε β} {P : β → Prop} {xs : List α}
    (step : ∀ s t, ∀ x ∈ xs, P s → f s x = .ok t → P t) {s t : β} (hs : P s)
    (h : xs.foldlM f s = .ok t) : ∀ x ∈ xs, ∃ u v, P u ∧ f u x = .ok v := by
  induction xs generalizing s with
  | nil => simp
  | cons x xs ih =>
    rw [List.foldlM_cons, bind_eq_ok] at h
    obtain ⟨u, hu, h⟩ := h
    have hP := step s u x List.mem_cons_self hs hu
    exact List.forall_mem_cons.2 ⟨⟨s, u, hs, hu⟩,
      ih (fun s t y hy => step s t y (List.mem_cons_of_mem x hy)) hP h⟩

theorem exists_foldlM {f : β → α → Except ε β} {xs : List α} {s : β}
    (h : ∀ s, ∀ x ∈ xs, ∃ t, f s x = .ok t) : ∃ t, xs.foldlM f s = .ok t := by
  induction xs generalizing s with
  | nil => exact ⟨s, rfl⟩
  | cons x xs ih =>
    obtain ⟨u, hu⟩ := h s x List.mem_cons_self
    obtain ⟨t, ht⟩ := ih (s := u) fun s y hy => h s y (List.mem_cons_of_mem x hy)
    exact ⟨t, by rw [List.foldlM_cons, hu]; exact ht⟩

theorem foldlM_each {f : β → α → Except ε β} {xs : List α} {s t : β}
    (h : xs.foldlM f s = .ok t) : ∀ x ∈ xs, ∃ u v, f u x = .ok v := by
  intro x hx
  obtain ⟨u, v, _, huv⟩ :=
    foldlM_each_from (P := fun _ => True) (fun _ _ _ _ _ _ => trivial) trivial h x hx
  exact ⟨u, v, huv⟩

/-- A traversal for its checks alone passes when each of them does. -/
theorem forM_eq_ok_iff {f : α → Except ε Unit} {xs : List α} {u : Unit} :
    xs.forM f = .ok u ↔ ∀ x ∈ xs, f x = .ok () := by
  induction xs with
  | nil => simp [pure, Except.pure]
  | cons x xs ih =>
    show (f x >>= fun _ => xs.forM f) = .ok u ↔ _
    rw [bind_eq_ok, List.forall_mem_cons, ← ih]
    constructor
    · rintro ⟨⟨⟩, hx, hxs⟩
      exact ⟨hx, hxs⟩
    · rintro ⟨hx, hxs⟩
      exact ⟨(), hx, hxs⟩

section Tables

variable {f : β → α → Except ε β} {V : β → Option γ} {p : α → Prop} [DecidablePred p]
  {xs : List α} {s t : β}

/-- Where steps replace what is there, the last one that applies has the word. -/
theorem replaced_of_foldlM {g : α → γ}
    (step : ∀ s x t, f s x = .ok t → V t = if p x then some (g x) else V s)
    (h : xs.foldlM f s = .ok t) :
    V t = ((xs.reverse.find? fun x => p x).map g).or (V s) := by
  induction xs generalizing s with
  | nil =>
    rw [List.foldlM_nil, pure_eq_ok] at h
    simp [h]
  | cons x xs ih =>
    rw [List.foldlM_cons, bind_eq_ok] at h
    obtain ⟨u, hu, h⟩ := h
    rw [ih h, step s x u hu, List.reverse_cons, List.find?_append]
    by_cases hx : p x
    · cases xs.reverse.find? fun x => p x <;> simp [hx]
    · simp [hx]

/-- Where steps change what is there, all that apply do so one after the other. -/
theorem modified_of_foldlM {g : α → γ → γ}
    (step : ∀ s x t, f s x = .ok t → V t = if p x then (V s).map (g x) else V s)
    (h : xs.foldlM f s = .ok t) :
    V t = (V s).map fun v => (xs.filter fun x => p x).foldl (fun v x => g x v) v := by
  induction xs generalizing s with
  | nil =>
    rw [List.foldlM_nil, pure_eq_ok] at h
    simp [h]
  | cons x xs ih =>
    rw [List.foldlM_cons, bind_eq_ok] at h
    obtain ⟨u, hu, h⟩ := h
    rw [ih h, step s x u hu]
    by_cases hx : p x
    · simp [hx, Function.comp_def]
    · simp [hx]

end Tables

/-- Where each step finds its key missing and enters it, no key comes twice. -/
theorem nodup_of_foldlM {f : β → α → Except ε β} {M : β → γ → Prop} {key : α → γ}
    (step : ∀ s x t, f s x = .ok t → ¬M s (key x) ∧ ∀ k, M t k ↔ M s k ∨ key x = k)
    {xs : List α} {s t : β} (h : xs.foldlM f s = .ok t) :
    (xs.map key).Nodup ∧ ∀ x ∈ xs, ¬M s (key x) := by
  induction xs generalizing s with
  | nil => simp
  | cons x xs ih =>
    rw [List.foldlM_cons, bind_eq_ok] at h
    obtain ⟨u, hu, h⟩ := h
    obtain ⟨hnew, henter⟩ := step s x u hu
    obtain ⟨hnodup, hrest⟩ := ih h
    simp only [henter, not_or] at hrest
    rw [List.map_cons, List.nodup_cons, List.forall_mem_cons]
    refine ⟨⟨fun hx => ?_, hnodup⟩, hnew, fun y hy => (hrest y hy).1⟩
    obtain ⟨y, hy, heq⟩ := List.mem_map.1 hx
    exact (hrest y hy).2 heq.symm

theorem bind_congr_of_ok {x y : Except ε α} {f g : α → Except ε β} (hxy : y = x)
    (hfg : ∀ a, x = .ok a → g a = f a) : y >>= g = x >>= f := by
  subst hxy
  cases y with
  | error e => rfl
  | ok a => exact hfg a rfl

theorem mapM_congr {f g : α → Except ε β} {xs : List α} (h : ∀ x ∈ xs, g x = f x) :
    xs.mapM g = xs.mapM f := by
  induction xs with
  | nil => rfl
  | cons x xs ih =>
    obtain ⟨hx, hxs⟩ := List.forall_mem_cons.1 h
    rw [List.mapM_cons, List.mapM_cons, hx, ih hxs]

theorem filterMapM_congr {f g : α → Except ε (Option β)} {xs : List α} (h : ∀ x ∈ xs, g x = f x) :
    xs.filterMapM g = xs.filterMapM f := by
  induction xs with
  | nil => rfl
  | cons x xs ih =>
    obtain ⟨hx, hxs⟩ := List.forall_mem_cons.1 h
    rw [List.filterMapM_cons, List.filterMapM_cons, hx, ih hxs]

theorem foldlM_congr {f g : β → α → Except ε β} {xs : List α} {s : β}
    (h : ∀ s, ∀ x ∈ xs, g s x = f s x) : xs.foldlM g s = xs.foldlM f s := by
  induction xs generalizing s with
  | nil => rfl
  | cons x xs ih =>
    rw [List.foldlM_cons, List.foldlM_cons, h s x List.mem_cons_self]
    exact bind_congr fun t => ih fun s y hy => h s y (List.mem_cons_of_mem x hy)

theorem flatMap_mapM_cons {f : α → Except ε β} {k : β → List γ} {x : α} {xs : List α} :
    List.flatMap k <$> (x :: xs).mapM f =
      (do return (← k <$> f x) ++ (← List.flatMap k <$> xs.mapM f)) := by
  rw [List.mapM_cons]
  cases f x with
  | error e => rfl
  | ok y => cases xs.mapM f <;> rfl

/-- Questions whose answers contribute nothing may be left out, failures being the same. -/
theorem mapM_flatMap_filter {β' : Type} {f : α → Except ε β} {g : α → Except ε β'} {k : β → List γ}
    {k' : β' → List γ} {keep : α → Bool} {xs : List α}
    (hin : ∀ x ∈ xs, keep x = true → k' <$> g x = k <$> f x)
    (hout : ∀ x ∈ xs, keep x = false → k' <$> g x = .ok []) :
    List.flatMap k' <$> xs.mapM g = List.flatMap k <$> (xs.filter keep).mapM f := by
  induction xs with
  | nil => rfl
  | cons x xs ih =>
    obtain ⟨hxin, hin⟩ := List.forall_mem_cons.1 hin
    obtain ⟨hxout, hout⟩ := List.forall_mem_cons.1 hout
    rw [flatMap_mapM_cons, ih hin hout]
    cases hx : keep x with
    | true => rw [List.filter_cons_of_pos hx, flatMap_mapM_cons, hxin hx]
    | false =>
      rw [List.filter_cons_of_neg (by simp [hx]), hxout hx]
      cases List.flatMap k <$> (xs.filter keep).mapM f <;> rfl

theorem mapM_filter {f g : α → Except ε β} {keep : α → Bool} {test : β → Bool} {xs : List α}
    (hin : ∀ x ∈ xs, keep x = true → g x = f x ∧ ∀ y, f x = .ok y → test y = true)
    (hout : ∀ x ∈ xs, keep x = false → ∃ y, g x = .ok y ∧ test y = false) :
    List.filter test <$> xs.mapM g = (xs.filter keep).mapM f := by
  induction xs with
  | nil => rfl
  | cons x xs ih =>
    obtain ⟨hxin, hin⟩ := List.forall_mem_cons.1 hin
    obtain ⟨hxout, hout⟩ := List.forall_mem_cons.1 hout
    cases hx : keep x with
    | true =>
      obtain ⟨hsame, htest⟩ := hxin hx
      rw [List.filter_cons_of_pos hx, List.mapM_cons, List.mapM_cons, hsame, ← ih hin hout]
      cases hy : f x with
      | error e => rfl
      | ok y =>
        cases xs.mapM g with
        | error e => rfl
        | ok ys => exact congrArg Except.ok (List.filter_cons_of_pos (htest y hy))
    | false =>
      obtain ⟨y, hy, htest⟩ := hxout hx
      rw [List.filter_cons_of_neg (by simp [hx]), List.mapM_cons, hy, ← ih hin hout]
      cases xs.mapM g with
      | error e => rfl
      | ok ys => exact congrArg Except.ok (List.filter_cons_of_neg (by simp [htest]))

def affirmed (x : Except ε Bool) : Bool := x.toOption.getD false

theorem filterAuxM_eq_ok {f : α → Except ε Bool} {xs acc ys : List α} :
    xs.filterAuxM f acc = .ok ys ↔
      (∀ x ∈ xs, ∃ b, f x = .ok b) ∧ ys = (xs.filter fun x => affirmed (f x)).reverse ++ acc := by
  induction xs generalizing acc with
  | nil =>
    rw [List.filterAuxM, pure_eq_ok]
    simp [eq_comm]
  | cons x xs ih =>
    rw [List.filterAuxM, bind_eq_ok]
    simp only [ih, List.forall_mem_cons]
    constructor
    · rintro ⟨b, hb, hxs, rfl⟩
      refine ⟨⟨⟨b, hb⟩, hxs⟩, ?_⟩
      cases b <;> simp [affirmed, hb, Except.toOption]
    · rintro ⟨⟨⟨b, hb⟩, hxs⟩, rfl⟩
      refine ⟨b, hb, hxs, ?_⟩
      cases b <;> simp [affirmed, hb, Except.toOption]

theorem filterM_eq_ok {f : α → Except ε Bool} {xs ys : List α} : xs.filterM f = .ok ys ↔
    (∀ x ∈ xs, ∃ b, f x = .ok b) ∧ ys = xs.filter fun x => affirmed (f x) := by
  simp only [List.filterM, bind_eq_ok, pure_eq_ok, filterAuxM_eq_ok, List.append_nil]
  constructor
  · rintro ⟨_, ⟨hall, rfl⟩, rfl⟩
    exact ⟨hall, List.reverse_reverse _⟩
  · rintro ⟨hall, rfl⟩
    exact ⟨_, ⟨hall, rfl⟩, List.reverse_reverse _⟩

theorem filterM_mono {f g : α → Except ε Bool} {xs ys : List α} (h : xs.filterM f = .ok ys)
    (hfg : ∀ x ∈ xs, ∀ b, f x = .ok b → g x = .ok b) : xs.filterM g = .ok ys := by
  obtain ⟨hall, rfl⟩ := filterM_eq_ok.1 h
  refine filterM_eq_ok.2 ⟨fun x hx => ?_, List.filter_congr fun x hx => ?_⟩
  · obtain ⟨b, hb⟩ := hall x hx
    exact ⟨b, hfg x hx b hb⟩
  · obtain ⟨b, hb⟩ := hall x hx
    rw [hb, hfg x hx b hb]

/-- Elements that are turned down may be left out, failures being the same. -/
theorem filterM_filter {f g : α → Except ε Bool} {keep : α → Bool} {xs : List α}
    (hin : ∀ x ∈ xs, keep x = true → g x = f x)
    (hout : ∀ x ∈ xs, keep x = false → g x = .ok false) :
    xs.filterM g = (xs.filter keep).filterM f := by
  have haux (acc : List α) : xs.filterAuxM g acc = (xs.filter keep).filterAuxM f acc := by
    induction xs generalizing acc with
    | nil => rfl
    | cons x xs ih =>
      obtain ⟨hxin, hin⟩ := List.forall_mem_cons.1 hin
      obtain ⟨hxout, hout⟩ := List.forall_mem_cons.1 hout
      cases hx : keep x with
      | true =>
        rw [List.filter_cons_of_pos hx, List.filterAuxM, List.filterAuxM, hxin hx]
        exact bind_congr fun b => ih hin hout _
      | false =>
        rw [List.filter_cons_of_neg (by simp [hx]), List.filterAuxM, hxout hx]
        exact ih hin hout acc
  rw [List.filterM, List.filterM, haux]

end BoardNets
