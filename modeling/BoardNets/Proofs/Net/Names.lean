import BoardNets.Netlist.Synthesis
import BoardNets.Proofs.Netlist.Partition
import Mathlib.Data.List.Nodup

/-! Which names stay apart. Nets of a board with one draft name are numbered, so they never get one
name; what a number can do is to make the name of another net, whose draft was alone on the board.
Since the last number of a name can be read off it, there is no other way for names to clash. -/
namespace BoardNets
namespace Net

/-- No two nets of a board have one name. -/
def DistinctNames (nets : List Net) : Prop :=
  nets.Pairwise fun a b => a.board = b.board → a.name.isSome → a.name ≠ b.name

/-- The names that nets have on their boards before clashes are settled. -/
def boardDrafts (nets : List Net) : List (Option BoardName) :=
  List.zipWith (fun n name => name.map (n.board, ·)) nets (drafts nets)

/-- The number of nets of a board that a name is the draft of. -/
def sharing (nets : List Net) (x : BoardName) : Nat := (boardDrafts nets).count (some x)

/-- The name of the net that comes after `before` nets with the same draft. -/
def numbered (x : BoardName) (before : Nat) : BoardName :=
  (x.1, x.2 ++ "_" ++ toString (before + 1))

/-- A shared draft of which some numbered form is the draft of exactly one net. -/
def Collides (nets : List Net) : Prop :=
  ∃ x before, 2 ≤ sharing nets x ∧ before < sharing nets x ∧ sharing nets (numbered x before) = 1

theorem eq_of_append_separator {a b s t : List Char} (hs : '_' ∉ s) (ht : '_' ∉ t)
    (h : a ++ '_' :: s = b ++ '_' :: t) : a = b ∧ s = t := by
  rcases List.append_eq_append_iff.1 h with ⟨l, rfl, hl⟩ | ⟨l, rfl, hl⟩
  · cases l with
    | nil => simpa using hl
    | cons c l =>
      rw [List.cons_append, List.cons.injEq] at hl
      exact absurd (hl.2 ▸ by simp) hs
  · cases l with
    | nil => simpa using hl.symm
    | cons c l =>
      rw [List.cons_append, List.cons.injEq] at hl
      exact absurd (hl.2 ▸ by simp) ht

theorem numbered_inj {x y : BoardName} {m n : Nat} (h : numbered x m = numbered y n) :
    x = y ∧ m = n := by
  obtain ⟨hboard, hname⟩ := Prod.mk.inj h
  have hlist : x.2.toList ++ '_' :: Nat.toDigits 10 (m + 1) =
      y.2.toList ++ '_' :: Nat.toDigits 10 (n + 1) := by
    simpa using congrArg String.toList hname
  obtain ⟨htext, hdigits⟩ := eq_of_append_separator Nat.underscore_not_in_toDigits
    Nat.underscore_not_in_toDigits hlist
  have hnumber : m + 1 = n + 1 := by
    simpa using congrArg (fun digits => Nat.ofDigitChars 10 digits 0) hdigits
  exact ⟨Prod.ext hboard (String.toList_inj.1 htext), Nat.succ.inj hnumber⟩

section Tally

variable {κ : Type} [BEq κ]

theorem getElem?_tally (keys : List κ) (i : Nat) :
    (tally keys)[i]? = keys[i]?.map fun k => (k, (keys.take i).count k, keys.count k) := by
  simp only [tally, List.getElem?_map, List.getElem?_zipIdx, Option.map_map, Nat.zero_add]
  rfl

variable [LawfulBEq κ]

/-- Each number below the count is the number of equal keys before some place. -/
theorem exists_count_take {keys : List κ} {k : κ} {n : Nat} (h : n < keys.count k) :
    ∃ i, keys[i]? = some k ∧ (keys.take i).count k = n := by
  induction keys generalizing n with
  | nil => simp at h
  | cons a keys ih =>
    by_cases hak : a = k
    · subst hak
      cases n with
      | zero => exact ⟨0, by simp⟩
      | succ n =>
        rw [List.count_cons_self] at h
        obtain ⟨i, hi, hcount⟩ := ih (Nat.lt_of_succ_lt_succ h)
        exact ⟨i + 1, by simpa using hi, by simp [hcount]⟩
    · rw [List.count_cons_of_ne hak] at h
      obtain ⟨i, hi, hcount⟩ := ih h
      exact ⟨i + 1, by simpa using hi, by simp [hcount, List.count_cons_of_ne hak]⟩

theorem count_take_lt {keys : List κ} {k : κ} {i j : Nat} (hi : keys[i]? = some k) (hij : i < j) :
    (keys.take i).count k < (keys.take j).count k := by
  induction keys generalizing i j with
  | nil => simp at hi
  | cons a keys ih =>
    obtain ⟨j, rfl⟩ := Nat.exists_eq_succ_of_ne_zero (Nat.ne_of_gt (Nat.zero_lt_of_lt hij))
    cases i with
    | zero =>
      have hak : a = k := by simpa using hi
      simp [hak]
    | succ i =>
      have hrest := ih (by simpa using hi) (Nat.lt_of_succ_lt_succ hij)
      simp only [Nat.succ_eq_add_one, List.take_succ_cons, List.count_cons]
      omega

theorem count_take_inj {keys : List κ} {k : κ} {i j : Nat} (hi : keys[i]? = some k)
    (hj : keys[j]? = some k) (h : (keys.take i).count k = (keys.take j).count k) : i = j := by
  rcases Nat.lt_trichotomy i j with hij | hij | hij
  · exact absurd h (Nat.ne_of_lt (count_take_lt hi hij))
  · exact hij
  · exact absurd h (Nat.ne_of_gt (count_take_lt hj hij))

theorem count_take_lt_count {keys : List κ} {k : κ} {i : Nat} (hi : keys[i]? = some k) :
    (keys.take i).count k < keys.count k := by
  have hlt := List.getElem?_eq_some_iff.1 hi
  simpa using count_take_lt hi hlt.1

end Tally

/-- What becomes of a draft that comes after `before` equal ones, of `total` in all. -/
def settle (x : BoardName) (before total : Nat) : BoardName :=
  if total < 2 then x else numbered x before

def boardName (n : Net) : Option BoardName := n.name.map (n.board, ·)

/-- Final names on their boards. -/
def settled (nets : List Net) : List (Option BoardName) :=
  (draftTally nets).map fun (draft, before, total) => draft.map (settle · before total)

theorem settled_eq_some_iff {nets : List Net} {i : Nat} {z : BoardName} :
    (settled nets)[i]? = some (some z) ↔ ∃ x, (boardDrafts nets)[i]? = some (some x) ∧
      settle x (((boardDrafts nets).take i).count (some x)) (sharing nets x) = z := by
  rw [settled, draftTally, List.getElem?_map, getElem?_tally]
  change (((boardDrafts nets)[i]?.map _).map _) = _ ↔ _
  cases h : (boardDrafts nets)[i]? with
  | none => simp
  | some draft => cases draft <;> simp [sharing, boardDrafts]

theorem settle_snd (x : BoardName) (before total : Nat) : (settle x before total).2 =
    if total < 2 then x.2 else x.2 ++ "_" ++ toString (before + 1) := by
  rw [settle]
  split <;> rfl

theorem settle_fst (x : BoardName) (before total : Nat) : (settle x before total).1 = x.1 := by
  rw [settle]
  split <;> rfl

theorem boardName_assignNames (nets : List Net) :
    (assignNames nets).map boardName = settled nets := by
  apply List.ext_getElem?
  intro i
  simp only [assignNames, names, settled, draftTally, List.getElem?_map, List.getElem?_zipWith,
    getElem?_tally]
  cases nets[i]? with
  | none => rfl
  | some n =>
    cases (drafts nets)[i]? with
    | none => rfl
    | some draft =>
      cases draft with
      | none => rfl
      | some name => simp [boardName, Prod.ext_iff, settle_fst, settle_snd]

theorem distinctNames_iff {nets : List Net} : DistinctNames nets ↔
    ∀ (i j : Nat) (z : BoardName), (nets.map boardName)[i]? = some (some z) →
      (nets.map boardName)[j]? = some (some z) → i = j := by
  have hname (n : Net) (z : BoardName) :
      n.boardName = some z ↔ n.board = z.1 ∧ n.name = some z.2 := by
    obtain ⟨board, name⟩ := z
    cases hn : n.name <;> simp [boardName, hn]
  rw [DistinctNames, List.pairwise_iff_getElem]
  simp only [List.getElem?_map, Option.map_eq_some_iff, hname]
  constructor
  · rintro h i j z ⟨a, ha, hboard, hz⟩ ⟨b, hb, hboard', hz'⟩
    obtain ⟨hi, rfl⟩ := List.getElem?_eq_some_iff.1 ha
    obtain ⟨hj, rfl⟩ := List.getElem?_eq_some_iff.1 hb
    rcases Nat.lt_trichotomy i j with hij | hij | hij
    · exact absurd (hz.trans hz'.symm) (h i j hi hj hij (hboard.trans hboard'.symm) (by simp [hz]))
    · exact hij
    · exact absurd (hz'.trans hz.symm) (h j i hj hi hij (hboard'.trans hboard.symm) (by simp [hz']))
  · intro h i j hi hj hij hboard hsome heq
    obtain ⟨name, hz⟩ := Option.isSome_iff_exists.1 hsome
    have hplace := h i j (nets[i].board, name) ⟨_, List.getElem?_eq_getElem hi, rfl, hz⟩
      ⟨_, List.getElem?_eq_getElem hj, hboard.symm, heq ▸ hz⟩
    exact absurd hplace (Nat.ne_of_lt hij)

theorem settle_of_shared {nets : List Net} {x : BoardName} {before : Nat}
    (h : 2 ≤ sharing nets x) : settle x before (sharing nets x) = numbered x before := by
  rw [settle, if_neg (by omega)]

theorem settle_of_alone {nets : List Net} {x : BoardName} {before : Nat}
    (h : sharing nets x < 2) : settle x before (sharing nets x) = x := if_pos h

/-- A numbered form of a shared draft that is another draft is the draft of one net. -/
theorem collides_of_numbered_eq {nets : List Net} {x y : BoardName} {before : Nat}
    (hx : 2 ≤ sharing nets x) (hbefore : before < sharing nets x) (hxy : numbered x before = y)
    (hy : sharing nets y < 2) (hpos : 0 < sharing nets y) : Collides nets := by
  subst hxy
  exact ⟨x, before, hx, hbefore, by omega⟩

/-- Names clash on a board exactly where a numbered name is another net's only draft. -/
theorem distinctNames_assignNames {nets : List Net} :
    DistinctNames (assignNames nets) ↔ ¬Collides nets := by
  rw [distinctNames_iff, boardName_assignNames]
  constructor
  · rintro h ⟨x, before, hshared, hbefore, halone⟩
    -- the place of the shared draft and that of the lone one
    obtain ⟨i, hi, hcount⟩ := exists_count_take hbefore
    obtain ⟨j, hj, _⟩ := exists_count_take (show 0 < sharing nets (numbered x before) by omega)
    have hij : i = j := by
      refine h i j (numbered x before) (settled_eq_some_iff.2 ⟨x, hi, ?_⟩)
        (settled_eq_some_iff.2 ⟨numbered x before, hj, settle_of_alone (by omega)⟩)
      rw [hcount, settle_of_shared hshared]
    subst hij
    have heq : x = numbered x before := Option.some.inj (Option.some.inj (hi.symm.trans hj))
    rw [← heq] at halone
    omega
  · intro h i j z hi hj
    obtain ⟨x, hx, hxz⟩ := settled_eq_some_iff.1 hi
    obtain ⟨y, hy, hyz⟩ := settled_eq_some_iff.1 hj
    have hxbefore := count_take_lt_count hx
    have hybefore := count_take_lt_count hy
    rcases Nat.lt_or_ge (sharing nets x) 2 with hxs | hxs
    · rw [settle_of_alone hxs] at hxz
      subst hxz
      rcases Nat.lt_or_ge (sharing nets y) 2 with hys | hys
      · rw [settle_of_alone hys] at hyz
        subst hyz
        rw [sharing] at hys
        exact count_take_inj hx hy (by omega)
      · rw [settle_of_shared hys] at hyz
        have hpos : 0 < sharing nets x := Nat.zero_lt_of_lt hxbefore
        exact absurd (collides_of_numbered_eq hys hybefore hyz hxs hpos) h
    · rw [settle_of_shared hxs] at hxz
      subst hxz
      rcases Nat.lt_or_ge (sharing nets y) 2 with hys | hys
      · rw [settle_of_alone hys] at hyz
        have hpos : 0 < sharing nets y := Nat.zero_lt_of_lt hybefore
        exact absurd (collides_of_numbered_eq hxs hxbefore hyz.symm hys hpos) h
      · rw [settle_of_shared hys] at hyz
        obtain ⟨rfl, hcount⟩ := numbered_inj hyz
        exact count_take_inj hx hy hcount.symm

def unnamed (n : Net) : Net := { n with name := none }

section Map

variable {f : Net → Net} (hf : ∀ n, (f n).board = n.board ∧ (f n).shape = n.shape)
include hf

theorem identifiers_map (nets : List Net) (board : Option NodeId) (template : NameTemplate) :
    identifiers (nets.map f) board template = identifiers nets board template := by
  simp only [identifiers, List.filter_map, List.map_map, Function.comp_def, (hf _).1, (hf _).2]

theorem boardDrafts_map (nets : List Net) : boardDrafts (nets.map f) = boardDrafts nets := by
  have hglobal (n : Net) : globalName (nets.map f) (f n) = globalName nets n := by
    simp only [globalName, identifiers_map hf, (hf n).1, (hf n).2]
  have hlocal (n : Net) : (f n).localName = n.localName := by
    simp only [localName, (hf n).1, (hf n).2, funext_iff, implies_true]
  have hdraft (n : Net) : (f n).draft = n.draft := by
    simp only [draft, (hf n).2, funext_iff, implies_true]
  have hdrafts : drafts (nets.map f) = drafts nets := by
    simp only [drafts, List.map_map, Function.comp_def, hglobal, hlocal, List.zipWith_map_left,
      hdraft]
  simp only [boardDrafts, hdrafts, List.zipWith_map_left, (hf _).1]

theorem names_map (nets : List Net) : names (nets.map f) = names nets := by
  have htally : draftTally (nets.map f) = draftTally nets :=
    congrArg tally (boardDrafts_map hf nets)
  rw [names, names, htally]

theorem assignNames_map (hname : ∀ n name, f { n with name } = { f n with name })
    (nets : List Net) : assignNames (nets.map f) = (assignNames nets).map f := by
  rw [assignNames, assignNames, names_map hf, List.map_zipWith, List.zipWith_map_left]
  congr 1
  exact funext₂ fun n name => (hname n name).symm

end Map

theorem collides_assignNames {nets : List Net} : Collides (assignNames nets) ↔ Collides nets := by
  have hdrafts : boardDrafts (assignNames nets) = boardDrafts nets := by
    have hunnamed (nets : List Net) : boardDrafts (nets.map unnamed) = boardDrafts nets :=
      boardDrafts_map (f := unnamed) (fun _ => ⟨rfl, rfl⟩) nets
    rw [← hunnamed, map_assignNames fun _ _ => rfl, hunnamed]
  simp only [Collides, sharing, hdrafts]

/-- The names given to nets are distinct on every board exactly where no number that settles a clash
makes the name of another net, and so are the names of every netlist. -/
theorem distinctNames_iff_not_collides (nets : List Net) :
    (DistinctNames (assignNames nets) ↔ ¬Collides nets) ∧
      ∀ (d d' : Design) (n : Netlist), d.synthesize = .ok (d', n) →
        (DistinctNames n.nets ↔ ¬Collides n.nets) := by
  refine ⟨distinctNames_assignNames, fun d d' n h => ?_⟩
  obtain ⟨s⟩ := Design.synthesize_eq_ok h
  rw [s.named, collides_assignNames, distinctNames_assignNames]

theorem distinctNames_iff_specimen : ∃ d n, Specimen.design.synthesize = .ok (d, n) ∧
    (DistinctNames n.nets ↔ ¬Collides n.nets) := by
  obtain ⟨⟨d, n⟩, h⟩ := Specimen.exists_synthesize
  exact ⟨d, n, h, (distinctNames_iff_not_collides n.nets).2 _ d n h⟩

def signal (component : Nat) (function pin : String) : Net where
  pins := .ofList [⟨⟨component⟩, ⟨⟨1⟩⟩⟩, ⟨⟨component + 1⟩, ⟨⟨1⟩⟩⟩]
  bus := {}
  board := none
  shape := {
    template := some (.nonShared function pin)
    identifier := "U" ++ toString component
    nonAncillaryPins := ∅
    isGlobal := true }
  firstPin := none

/-- In net order, the number on the first of two drafts `X_A_B` makes the third net's name. -/
theorem names_collide : ∃ nets : List Net, nets.Pairwise (fun a b => (order a b).isLE) ∧
    ¬DistinctNames (assignNames nets) := by
  refine ⟨[signal 1 "x" "a_b", signal 3 "x_a" "b", signal 5 "x_a_b" "1"], by decide, ?_⟩
  rw [distinctNames_assignNames, not_not]
  exact ⟨(none, "X_A_B"), 0, by decide, by decide, by decide⟩

end Net
end BoardNets
