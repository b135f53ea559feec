import BoardNets.Circuit.Tree
import BoardNets.Proofs.Circuit.Confluence
import BoardNets.Proofs.Circuit.Designators
import BoardNets.Proofs.Sorted.Listing
import BoardNets.Proofs.Traversal

/-! References without hierarchy. A walk hands out, label by label, the numbers from one on: what
has been handed out for a label is read back as the numbers up to the count of its references, so
the next free number is the next count. -/
namespace BoardNets
namespace Designator

def IsDesignator (reference : String) : Prop := ∃ d : Designator, d.Spells reference

def HasLabel (reference label : String) : Prop :=
  ∃ number, (Designator.mk label number).Spells reference

def labelOf (reference : String) : Option String := (parse? reference).map (·.label)

theorem hasLabel_iff {reference label : String} :
    HasLabel reference label ↔ labelOf reference = some label := by
  rw [labelOf, Option.map_eq_some_iff]
  constructor
  · rintro ⟨number, h⟩
    exact ⟨_, parse?_eq_some.2 h, rfl⟩
  · rintro ⟨d, h, rfl⟩
    exact ⟨d.number, parse?_eq_some.1 h⟩

instance (reference label : String) : Decidable (HasLabel reference label) :=
  decidable_of_iff _ hasLabel_iff.symm

theorem isDesignator_iff {reference : String} :
    IsDesignator reference ↔ ∃ label, HasLabel reference label := by
  constructor
  · rintro ⟨d, h⟩
    exact ⟨d.label, d.number, h⟩
  · rintro ⟨label, number, h⟩
    exact ⟨_, h⟩

instance (reference : String) : Decidable (IsDesignator reference) :=
  decidable_of_iff ((parse? reference).isSome = true) <|
    Option.isSome_iff_exists.trans (exists_congr fun _ => parse?_eq_some)

theorem referenceLabel_of_hasLabel {reference label : String} (h : HasLabel reference label) :
    referenceLabel reference = .ok label := by
  obtain ⟨number, h⟩ := h
  rw [referenceLabel, parse?_eq_some.2 h]
  rfl

theorem referenceLabel_of_not_isDesignator {reference : String} (h : ¬IsDesignator reference) :
    referenceLabel reference = .error (.invalidReference reference) := by
  have hnone : parse? reference = none := by
    refine Option.eq_none_iff_forall_ne_some.2 fun d hd => h ⟨d, parse?_eq_some.1 hd⟩
  rw [referenceLabel, hnone]
  rfl

theorem hasLabel_numbered {label : String} (h : IsLabel label) (n : Nat) :
    HasLabel (label ++ toString n) label :=
  ⟨_, parse?_eq_some.1 (parse?_numbered h n)⟩

theorem numbered_inj {label label' : String} (h : IsLabel label) (h' : IsLabel label') {m n : Nat}
    (heq : label ++ toString m = label' ++ toString n) : label = label' ∧ m = n := by
  have hread := parse?_numbered h m
  rw [heq, parse?_numbered h' n, Option.some.injEq, Designator.mk.injEq] at hread
  obtain ⟨rfl, hdigits⟩ := hread
  have hvalue := congrArg (fun digits => Nat.ofDigitChars 10 digits 0) hdigits
  simp only [Nat.ofDigitChars_toDigits (b := 10) (by decide) (by decide)] at hvalue
  exact ⟨rfl, hvalue.symm⟩

def occurrences (refs : List String) (label : String) : Nat := refs.countP (HasLabel · label)

/-- The flat references of a list: the n-th reference with a label has that label and number n. -/
structure Numbered (refs flats : List String) : Prop where
  length_eq : flats.length = refs.length
  flat_eq : ∀ {k : Nat} {r label : String}, refs[k]? = some r → HasLabel r label →
    flats[k]? = some (label ++ toString (occurrences (refs.take (k + 1)) label))

theorem HasLabel.unique {reference label label' : String} (h : HasLabel reference label)
    (h' : HasLabel reference label') : label = label' :=
  Option.some.inj ((hasLabel_iff.1 h).symm.trans (hasLabel_iff.1 h'))

theorem HasLabel.isLabel {reference label : String} (h : HasLabel reference label) :
    IsLabel label :=
  h.elim fun _ hspells => hspells.1

theorem occurrences_concat (refs : List String) (r label : String) :
    occurrences (refs ++ [r]) label =
      occurrences refs label + if HasLabel r label then 1 else 0 := by
  simp [occurrences, List.countP_append, List.countP_singleton]

theorem occurrences_le_length (refs : List String) (label : String) :
    occurrences refs label ≤ refs.length :=
  List.countP_le_length

namespace Numbered

variable {refs flats : List String}

theorem nil : Numbered [] [] := ⟨rfl, by simp⟩

theorem concat (h : Numbered refs flats) {r label : String} (hr : HasLabel r label) :
    Numbered (refs ++ [r]) (flats ++ [label ++ toString (occurrences refs label + 1)]) := by
  refine ⟨by simp [h.length_eq], ?_⟩
  intro k r' label' hk hlabel
  rcases Nat.lt_or_ge k refs.length with hlt | hge
  · rw [List.getElem?_append_left hlt] at hk
    rw [List.getElem?_append_left (h.length_eq ▸ hlt), List.take_append_of_le_length hlt]
    exact h.flat_eq hk hlabel
  · rw [List.getElem?_append_right hge, List.getElem?_singleton] at hk
    split at hk
    next hlast =>
      obtain rfl := Option.some.inj hk
      obtain rfl := hr.unique hlabel
      have hend : k = flats.length := by
        rw [h.length_eq]
        omega
      have htake : (refs ++ [r]).take (k + 1) = refs ++ [r] :=
        List.take_of_length_le (by simp; omega)
      rw [htake, occurrences_concat, if_pos hr, hend, List.getElem?_concat_length]
    next => cases hk

/-- Flat references have the labels of the references they stand for. -/
theorem hasLabel (h : Numbered refs flats) {k : Nat} {r f label : String} (hr : refs[k]? = some r)
    (hf : flats[k]? = some f) (hlabel : HasLabel r label) : HasLabel f label := by
  rw [h.flat_eq hr hlabel, Option.some.injEq] at hf
  exact hf ▸ hasLabel_numbered hlabel.isLabel _

theorem nodup (h : Numbered refs flats) (hrefs : ∀ r ∈ refs, IsDesignator r) : flats.Nodup := by
  -- of two references with one label the later one has the greater number
  have hgrows {i j : Nat} {r label : String} (hij : i < j) (hr : refs[j]? = some r)
      (hlabel : HasLabel r label) :
      occurrences (refs.take (i + 1)) label < occurrences (refs.take (j + 1)) label := by
    have hbefore : occurrences (refs.take (i + 1)) label ≤ occurrences (refs.take j) label :=
      (List.take_sublist_take_left hij).countP_le
    have hstep : refs.take (j + 1) = refs.take j ++ [r] := by
      rw [List.take_add_one, hr, Option.toList_some]
    rw [hstep, occurrences_concat, if_pos hlabel]
    exact Nat.lt_succ_of_le hbefore
  have hread {k : Nat} (hk : k < refs.length) :
      ∃ r label, refs[k]? = some r ∧ HasLabel r label :=
    ⟨refs[k], (isDesignator_iff.1 (hrefs _ (List.getElem_mem hk))).imp fun label hlabel =>
      ⟨List.getElem?_eq_getElem hk, hlabel⟩⟩
  refine List.nodup_iff_getElem?_ne_getElem?.2 fun i j hij hj heq => ?_
  rw [h.length_eq] at hj
  obtain ⟨r, label, hr, hlabel⟩ := hread (hij.trans hj)
  obtain ⟨r', label', hr', hlabel'⟩ := hread hj
  rw [h.flat_eq hr hlabel, h.flat_eq hr' hlabel', Option.some.injEq] at heq
  obtain ⟨rfl, hnumber⟩ := numbered_inj hlabel.isLabel hlabel'.isLabel heq
  exact absurd hnumber (Nat.ne_of_lt (hgrows hij hr' hlabel'))

end Numbered

/-- A map of references to flat ones. Each reference has the number that its last place gets. -/
structure Flattening (refs : List String) (flat : SortedMap String String) : Prop where
  numbered : ∃ flats, Numbered refs flats ∧ flats.Nodup ∧ flat = .ofList (refs.zip flats)
  mem_keys : ∀ r, r ∈ flat.keys ↔ r ∈ refs
  find?_last : ∀ (k : Nat) {r : String} (label : String), refs[k]? = some r → HasLabel r label →
    r ∉ refs.drop (k + 1) →
      flat.find? r = some (label ++ toString (occurrences (refs.take (k + 1)) label))
  hasLabel : ∀ {r f label : String}, flat.find? r = some f → HasLabel r label → HasLabel f label
  injective : ∀ {r r' f : String}, flat.find? r = some f → flat.find? r' = some f → r = r'

theorem Numbered.flattening {refs flats : List String} (h : Numbered refs flats)
    (hrefs : ∀ r ∈ refs, IsDesignator r) : Flattening refs (.ofList (refs.zip flats)) := by
  have hkeys : (refs.zip flats).map Prod.fst = refs :=
    List.map_fst_zip (Nat.le_of_eq h.length_eq.symm)
  have hplace {r f : String} (hf : (SortedMap.ofList (refs.zip flats)).find? r = some f) :
      ∃ k : Nat, refs[k]? = some r ∧ flats[k]? = some f := by
    obtain ⟨before, after, heq, _⟩ := SortedMap.find?_ofList_eq_some.1 hf
    have hmem : (r, f) ∈ refs.zip flats := heq ▸ List.mem_append_cons_self
    obtain ⟨k, hk⟩ := List.mem_iff_getElem?.1 hmem
    exact ⟨k, List.getElem?_zip_eq_some.1 hk⟩
  refine ⟨⟨flats, h, h.nodup hrefs, rfl⟩, fun r => ?_, fun k r label hr hlabel hlast => ?_,
    fun hf hlabel => ?_, fun hf hf' => ?_⟩
  · rw [SortedMap.mem_keys_ofList, hkeys]
  · have hpair : (refs.zip flats)[k]? =
        some (r, label ++ toString (occurrences (refs.take (k + 1)) label)) :=
      List.getElem?_zip_eq_some.2 ⟨hr, h.flat_eq hr hlabel⟩
    refine SortedMap.find?_ofList_eq_some.2
      ⟨(refs.zip flats).take k, (refs.zip flats).drop (k + 1), ?_, ?_⟩
    · conv_lhs => rw [← List.take_append_drop k (refs.zip flats),
        List.drop_eq_getElem?_toList_append, hpair]
      rfl
    · rwa [List.map_drop, hkeys]
  · obtain ⟨k, hr, hf⟩ := hplace hf
    exact h.hasLabel hr hf hlabel
  · obtain ⟨k, hr, hk⟩ := hplace hf
    obtain ⟨k', hr', hk'⟩ := hplace hf'
    have hlt := (List.getElem?_eq_some_iff.1 hk).1
    have hsame : k = k' :=
      (List.getElem?_inj hlt (h.nodup hrefs)).1 (hk.trans hk'.symm)
    rw [hsame] at hr
    exact Option.some.inj (hr.symm.trans hr')

end Designator

namespace Circuit

open Designator

theorem Flat.add_of_not_isDesignator (flat : Flat) {r : String} (h : ¬IsDesignator r) :
    flat.add r = .error (.invalidReference r) := by
  rw [Flat.add, referenceLabel_of_not_isDesignator h]
  rfl

theorem Flat.add_of_hasLabel (flat : Flat) {r label : String} (h : HasLabel r label) :
    flat.add r = .ok ⟨flat.taken.update label []
        (· ++ [BoardNets.nextReference label ((flat.taken.find? label).getD [])]),
      flat.references.insert r
        (BoardNets.nextReference label ((flat.taken.find? label).getD []))⟩ := by
  rw [Flat.add, referenceLabel_of_hasLabel h]
  rfl

structure Flat.Holds (flat : Flat) (refs flats : List String) : Prop where
  numbered : Numbered refs flats
  taken : ∀ label, (flat.taken.find? label).getD [] =
    (List.range' 1 (occurrences refs label)).map (label ++ toString ·)
  references : flat.references = .ofList (refs.zip flats)

theorem Flat.holds_nil : Flat.Holds {} [] [] := ⟨.nil, fun _ => rfl, rfl⟩

theorem Flat.Holds.add {flat : Flat} {refs flats : List String} (h : flat.Holds refs flats)
    {r label : String} (hr : HasLabel r label) (hsize : refs.length < UInt64.size) :
    ∃ flat', flat.add r = .ok flat' ∧
      flat'.Holds (refs ++ [r]) (flats ++ [label ++ toString (occurrences refs label + 1)]) := by
  have hlt := Nat.lt_of_le_of_lt (occurrences_le_length refs label) hsize
  have hnext : BoardNets.nextReference label ((flat.taken.find? label).getD []) =
      label ++ toString (occurrences refs label + 1) := by
    rw [h.taken label, nextReference_numbered hr.isLabel hlt]
  refine ⟨_, flat.add_of_hasLabel hr, h.numbered.concat hr, fun label' => ?_, ?_⟩
  · rw [SortedMap.find?_update, hnext, occurrences_concat]
    by_cases heq : label' = label
    · subst heq
      rw [if_pos rfl, if_pos hr, h.taken, List.range'_concat]
      simp [Nat.add_comm]
    · rw [if_neg heq, if_neg fun hr' => heq (hr'.unique hr), h.taken, Nat.add_zero]
  · rw [hnext, h.references, ← SortedMap.ofList_concat, List.zip_append h.numbered.length_eq.symm]
    rfl

theorem Flat.Holds.addAll {flat : Flat} {before refs flats : List String}
    (h : flat.Holds before flats) (hrefs : ∀ r ∈ refs, IsDesignator r)
    (hsize : before.length + refs.length ≤ UInt64.size) :
    ∃ flat' flats', refs.foldlM Flat.add flat = .ok flat' ∧
      flat'.Holds (before ++ refs) flats' := by
  induction refs generalizing flat before flats with
  | nil => exact ⟨flat, flats, rfl, (List.append_nil before).symm ▸ h⟩
  | cons r refs ih =>
    rw [List.forall_mem_cons] at hrefs
    rw [List.length_cons] at hsize
    obtain ⟨label, hr⟩ := isDesignator_iff.1 hrefs.1
    obtain ⟨next, hadd, hnext⟩ := h.add hr (by omega)
    obtain ⟨flat', flats', hfold, hflat'⟩ := ih hnext hrefs.2 (by simp; omega)
    refine ⟨flat', flats', ?_, by simpa using hflat'⟩
    rw [List.foldlM_cons, hadd]
    exact hfold

theorem addAll_eq_error {refs : List String} {flat : Flat} {e : Error} :
    refs.foldlM Flat.add flat = .error e ↔ ∃ before r after, refs = before ++ r :: after ∧
      (∀ q ∈ before, IsDesignator q) ∧ ¬IsDesignator r ∧ e = .invalidReference r := by
  induction refs generalizing flat with
  | nil => simp [pure, Except.pure]
  | cons r refs ih =>
    rw [List.foldlM_cons]
    by_cases hr : IsDesignator r
    · obtain ⟨label, hlabel⟩ := isDesignator_iff.1 hr
      rw [flat.add_of_hasLabel hlabel]
      change refs.foldlM Flat.add _ = _ ↔ _
      rw [ih]
      constructor
      · rintro ⟨before, q, after, rfl, hbefore, hq, he⟩
        exact ⟨r :: before, q, after, rfl, List.forall_mem_cons.2 ⟨hr, hbefore⟩, hq, he⟩
      · rintro ⟨before, q, after, heq, hbefore, hq, he⟩
        cases before with
        | nil => exact absurd ((List.cons.inj heq).1 ▸ hr) hq
        | cons _ before =>
          have hbefore := (List.forall_mem_cons.1 hbefore).2
          exact ⟨before, q, after, (List.cons.inj heq).2, hbefore, hq, he⟩
    · rw [flat.add_of_not_isDesignator hr]
      change Except.error _ = _ ↔ _
      rw [Except.error.injEq]
      constructor
      · intro he
        exact ⟨[], r, refs, rfl, List.forall_mem_nil _, hr, he.symm⟩
      · rintro ⟨before, q, after, heq, hbefore, hq, rfl⟩
        cases before with
        | nil => rw [(List.cons.inj heq).1]
        | cons _ before =>
          exact absurd ((List.cons.inj heq).1 ▸ List.forall_mem_cons.1 hbefore |>.1) hr

variable (c : Circuit) (id : NodeId)

theorem flattenedReferences_eq_error {e : Error} : c.flattenedReferences id = .error e ↔
    ∃ before part after, c.parts id = before ++ part :: after ∧
      (∀ q ∈ before, IsDesignator (c.reference q)) ∧ ¬IsDesignator (c.reference part) ∧
        e = .invalidReference (c.reference part) := by
  have hfold : c.flattenedReferences id = .error e ↔
      ((c.parts id).map c.reference).foldlM Flat.add {} = .error e := by
    rw [flattenedReferences]
    cases ((c.parts id).map c.reference).foldlM Flat.add {} with
    | error e' => simp only [Except.error.injEq, bind, Except.bind]
    | ok flat => exact ⟨nofun, nofun⟩
  rw [hfold, addAll_eq_error]
  constructor
  · rintro ⟨_, _, _, heq, hbefore, hr, he⟩
    obtain ⟨before, rest, hparts, rfl, hrest⟩ := List.map_eq_append_iff.1 heq
    obtain ⟨part, after, rfl, rfl, rfl⟩ := List.map_eq_cons_iff.1 hrest
    exact ⟨before, part, after, hparts, List.forall_mem_map.1 hbefore, hr, he⟩
  · rintro ⟨before, part, after, hparts, hbefore, hr, he⟩
    have hrefs := congrArg (List.map c.reference) hparts
    rw [List.map_append, List.map_cons] at hrefs
    exact ⟨_, _, _, hrefs, List.forall_mem_map.2 hbefore, hr, he⟩

theorem flattenedReferences_isOk : (∃ flat, c.flattenedReferences id = .ok flat) ↔
    ∀ part ∈ c.parts id, IsDesignator (c.reference part) := by
  constructor
  · rintro ⟨flat, hflat⟩
    simp only [flattenedReferences, bind_eq_ok] at hflat
    obtain ⟨done, hdone, _⟩ := hflat
    refine List.forall_mem_map.1 fun r hr => ?_
    obtain ⟨before, next, hnext⟩ := foldlM_each hdone r hr
    by_contra hnot
    rw [before.add_of_not_isDesignator hnot] at hnext
    cases hnext
  · intro hall
    cases h : c.flattenedReferences id with
    | ok flat => exact ⟨flat, rfl⟩
    | error e =>
      obtain ⟨before, part, after, hparts, _, hpart, _⟩ :=
        (c.flattenedReferences_eq_error id).1 h
      exact absurd (hall part (hparts ▸ List.mem_append_cons_self)) hpart

/-- Flattening fails at the first part whose reference is no designator, and else numbers the parts
within their labels in the order of the walk. Arenas are indexed in 64 bits, so walks are no longer
than there are numbers. -/
theorem flattenedReferences_numbered :
    (∀ e, c.flattenedReferences id = .error e ↔ ∃ before part after,
      c.parts id = before ++ part :: after ∧ (∀ q ∈ before, IsDesignator (c.reference q)) ∧
        ¬IsDesignator (c.reference part) ∧ e = .invalidReference (c.reference part)) ∧
    ((∃ flat, c.flattenedReferences id = .ok flat) ↔
      ∀ part ∈ c.parts id, IsDesignator (c.reference part)) ∧
    ((c.parts id).length ≤ UInt64.size → ∀ flat, c.flattenedReferences id = .ok flat →
      Flattening ((c.parts id).map c.reference) flat) := by
  refine ⟨fun e => c.flattenedReferences_eq_error id, c.flattenedReferences_isOk id, ?_⟩
  intro hsize flat hflat
  have hparts := (c.flattenedReferences_isOk id).1 ⟨flat, hflat⟩
  have hrefs : ∀ r ∈ (c.parts id).map c.reference, IsDesignator r := List.forall_mem_map.2 hparts
  obtain ⟨done, flats, hdone, hholds⟩ := Flat.holds_nil.addAll hrefs (by simpa using hsize)
  rw [flattenedReferences, hdone] at hflat
  obtain rfl := Except.ok.inj hflat
  rw [hholds.references]
  exact hholds.numbered.flattening hrefs

end Circuit

namespace Specimen

/-- Two boards with an oscillator each, and a receiver on the first. -/
def twoBoards : Circuit := (Circuit.new catalog).after [
  .subcircuit Circuit.root "MAIN" "board" none,
  .subcircuit Circuit.root "AUX" "board" none,
  .part ⟨2⟩ "U1" "oscillator" oscillator,
  .part ⟨1⟩ "U1" "oscillator" oscillator,
  .part ⟨1⟩ "PLL_7" "pll" consumer]

/-- A part whose reference has no number, after one that has. -/
def unnumbered : Circuit := (Circuit.new catalog).after [
  .part Circuit.root "U1" "oscillator" oscillator,
  .part Circuit.root "U" "oscillator" oscillator]

end Specimen

/-- The boards stand in the order in which they were added, whatever the order of their parts. -/
theorem flattenedReferences_numbered_specimen :
    (∃ flat, Specimen.twoBoards.flattenedReferences Circuit.root = .ok flat ∧
      flat.find? "MAIN.U1" = some "U1" ∧ flat.find? "AUX.U1" = some "U2" ∧
      flat.find? "MAIN.PLL_7" = some "PLL_1") ∧
    Specimen.unnumbered.flattenedReferences Circuit.root = .error (.invalidReference "U") := by
  obtain ⟨_, hok, hflat⟩ := Circuit.flattenedReferences_numbered Specimen.twoBoards Circuit.root
  obtain ⟨herror, _⟩ := Circuit.flattenedReferences_numbered Specimen.unnumbered Circuit.root
  constructor
  · obtain ⟨flat, heq⟩ := hok.2 (by decide +kernel)
    have hnumbers := hflat (by decide +kernel) flat heq
    have hparts : (Specimen.twoBoards.parts Circuit.root).map Specimen.twoBoards.reference =
        ["MAIN.U1", "MAIN.PLL_7", "AUX.U1"] := by decide +kernel
    rw [hparts] at hnumbers
    refine ⟨flat, heq, ?_, ?_, ?_⟩
    · exact hnumbers.find?_last 0 "U" rfl (by decide +kernel) (by decide)
    · exact hnumbers.find?_last 2 "U" rfl (by decide +kernel) (by decide)
    · exact hnumbers.find?_last 1 "PLL_" rfl (by decide +kernel) (by decide)
  · exact (herror _).2 ⟨[⟨1⟩], ⟨2⟩, [], by decide +kernel⟩

end BoardNets
