import BoardNets.Proofs.Net.Names

/-! Nets without a template. They have no name, and what the other nets are called does not depend
on them: an index counts identifiers of one template, and the numbers of local nets and of clashes
count names. -/
namespace BoardNets

section Places

variable {α β : Type}

def places : (before : List α) → List α → List (List α × α)
  | _, [] => []
  | before, a :: l => (before, a) :: places (before ++ [a]) l

theorem getElem?_places (before l : List α) (i : Nat) :
    (places before l)[i]? = l[i]?.map fun a => (before ++ l.take i, a) := by
  induction l generalizing before i with
  | nil => rfl
  | cons a l ih =>
    cases i with
    | zero => simp [places]
    | succ i => simp [places, ih]

theorem mem_of_mem_places {before l : List α} {e : List α × α} (h : e ∈ places before l) :
    (∀ a ∈ e.1, a ∈ before ∨ a ∈ l) ∧ e.2 ∈ l := by
  obtain ⟨i, hi⟩ := List.getElem?_of_mem h
  rw [getElem?_places, Option.map_eq_some_iff] at hi
  obtain ⟨a, ha, rfl⟩ := hi
  exact ⟨fun b hb => (List.mem_append.1 hb).imp_right List.mem_of_mem_take,
    List.mem_of_getElem? ha⟩

/-- Left out elements leave the places of the others what they were. -/
theorem places_filter (keep : α → Bool) (before l : List α) :
    places (before.filter keep) (l.filter keep) =
      ((places before l).filter fun e => keep e.2).map fun e => (e.1.filter keep, e.2) := by
  induction l generalizing before with
  | nil => rfl
  | cons a l ih =>
    have hrest := ih (before ++ [a])
    rw [List.filter_append] at hrest
    cases ha : keep a with
    | true =>
      rw [List.filter_cons_of_pos ha, List.filter_nil] at hrest
      rw [List.filter_cons_of_pos ha, places, places, hrest, List.filter_cons, if_pos ha,
        List.map_cons]
    | false =>
      rw [List.filter_cons_of_neg (by simp [ha]), List.filter_nil, List.append_nil] at hrest
      rw [List.filter_cons_of_neg (by simp [ha]), places, hrest,
        List.filter_cons_of_neg (by simp [ha])]

theorem count_map_filter {κ : Type} [BEq κ] [LawfulBEq κ] {keep : α → Bool} {f : α → κ} {k : κ}
    {l : List α} (h : ∀ a ∈ l, keep a = false → f a ≠ k) :
    ((l.filter keep).map f).count k = (l.map f).count k := by
  induction l with
  | nil => rfl
  | cons a l ih =>
    obtain ⟨ha, hl⟩ := List.forall_mem_cons.1 h
    cases hkeep : keep a with
    | true => simp [hkeep, List.count_cons, ih hl]
    | false => simp [hkeep, ih hl, List.count_cons_of_ne (ha hkeep)]

end Places

namespace Net

section Names

variable (nets : List Net)

/-- The name that a net has to share with others of its kind, if any. -/
def localKey (n : Net) : Option BoardName := localName n (globalName nets n)

def draftAt (before : List Net) (n : Net) : Option String :=
  (globalName nets n).map (draft n · ((before.map (localKey nets)).count (localKey nets n))
    ((nets.map (localKey nets)).count (localKey nets n)))

def draftKeys (first : List Net) : List (Option BoardName) :=
  (places [] first).map fun e => (draftAt nets e.1 e.2).map (e.2.board, ·)

def nameAt (before : List Net) (n : Net) : Option String :=
  (draftAt nets before n).map fun name =>
    if (draftKeys nets nets).count (some (n.board, name)) < 2 then name
    else name ++ "_" ++ toString ((draftKeys nets before).count (some (n.board, name)) + 1)

theorem drafts_eq : drafts nets = (places [] nets).map fun e => draftAt nets e.1 e.2 := by
  refine List.ext_getElem? fun i => ?_
  simp only [drafts, List.getElem?_zipWith, getElem?_tally, List.getElem?_map, getElem?_places]
  cases nets[i]? with
  | none => rfl
  | some n =>
    simp only [Option.map_some, List.map_map, List.nil_append, draftAt, ← List.map_take]
    rfl

theorem boardDrafts_eq : boardDrafts nets = draftKeys nets nets := by
  refine List.ext_getElem? fun i => ?_
  simp only [boardDrafts, draftKeys, drafts_eq, List.getElem?_zipWith, List.getElem?_map,
    getElem?_places]
  cases nets[i]? <;> rfl

theorem take_draftKeys (i : Nat) : (draftKeys nets nets).take i = draftKeys nets (nets.take i) := by
  refine List.ext_getElem? fun j => ?_
  simp only [draftKeys, List.getElem?_take, List.getElem?_map, getElem?_places]
  split
  · rename_i hj
    rw [List.take_take, Nat.min_eq_left hj.le]
  · rfl

theorem draftTally_eq : draftTally nets = (places [] nets).map fun e =>
    ((draftAt nets e.1 e.2).map (e.2.board, ·),
      (draftKeys nets e.1).count ((draftAt nets e.1 e.2).map (e.2.board, ·)),
      (draftKeys nets nets).count ((draftAt nets e.1 e.2).map (e.2.board, ·))) := by
  refine List.ext_getElem? fun i => ?_
  rw [draftTally, ← boardDrafts, getElem?_tally, boardDrafts_eq, take_draftKeys]
  simp only [draftKeys, List.getElem?_map, getElem?_places]
  cases nets[i]? <;> rfl

theorem names_eq : names nets = (places [] nets).map fun e => nameAt nets e.1 e.2 := by
  rw [names, draftTally_eq, List.map_map]
  refine List.map_congr_left fun e _ => ?_
  simp only [Function.comp_apply, nameAt]
  cases draftAt nets e.1 e.2 <;> rfl

theorem assignNames_eq : assignNames nets =
    (places [] nets).map fun e => { e.2 with name := nameAt nets e.1 e.2 } := by
  refine List.ext_getElem? fun i => ?_
  simp only [assignNames, names_eq, List.getElem?_zipWith, List.getElem?_map, getElem?_places]
  cases nets[i]? <;> rfl

/-- The warning that a net gives which comes after others. -/
def clashAt (before : List Net) (n : Net) : Option String :=
  (draftAt nets before n).bind fun name =>
    let total := (draftKeys nets nets).count (some (n.board, name))
    if (draftKeys nets before).count (some (n.board, name)) = 0 ∧ 2 ≤ total then
      some ("Net name " ++ name ++ " is shared by " ++ toString total ++
        " nets, adding numeric suffixes")
    else none

theorem clashes_eq : clashes nets = (places [] nets).filterMap fun e => clashAt nets e.1 e.2 := by
  rw [clashes, draftTally_eq, List.filterMap_map]
  refine List.filterMap_congr fun e _ => ?_
  simp only [Function.comp_apply, clashAt]
  cases draftAt nets e.1 e.2 with
  | none => simp
  | some name => simp

end Names

section Unnamed

variable {nets : List Net} {keep : Net → Bool}
  (h : ∀ n ∈ nets, keep n = false → n.shape.template = none)
include h

theorem globalName_filter (n : Net) : globalName (nets.filter keep) n = globalName nets n := by
  have hids (board : Option NodeId) (template : NameTemplate) :
      identifiers (nets.filter keep) board template = identifiers nets board template := by
    rw [identifiers, identifiers, List.filter_filter]
    congr 2
    refine List.filter_congr fun m hm => ?_
    cases hkeep : keep m with
    | true => simp
    | false => simp [h m hm hkeep]
  simp only [globalName, hids]

theorem localKey_filter : localKey (nets.filter keep) = localKey nets := by
  funext n
  rw [localKey, localKey, globalName_filter h]

theorem draftAt_filter {before : List Net} (hbefore : ∀ m ∈ before, m ∈ nets) (n : Net) :
    draftAt (nets.filter keep) (before.filter keep) n = draftAt nets before n := by
  rw [draftAt, draftAt, globalName_filter h, localKey_filter h]
  cases hname : globalName nets n with
  | none => rfl
  | some name =>
    rw [Option.map_some, Option.map_some, draft, draft]
    by_cases hglobal : n.shape.isGlobal = true
    · rw [if_pos hglobal, if_pos hglobal]
    · have hkey : localKey nets n = some (n.board, name) := by
        rw [localKey, localName, if_neg hglobal, hname, Option.map_some]
      have hout : ∀ m ∈ nets, keep m = false → localKey nets m ≠ localKey nets n := by
        intro m hm hkeep
        rw [hkey, localKey, localName, globalName, h m hm hkeep]
        split <;> exact (Option.some_ne_none _).symm
      rw [count_map_filter hout, count_map_filter fun m hm => hout m (hbefore m hm)]

theorem draftAt_eq_none {n : Net} (hn : n ∈ nets) (hkeep : keep n = false) (before : List Net) :
    draftAt nets before n = none := by
  rw [draftAt, globalName, h n hn hkeep]
  rfl

theorem count_draftKeys_filter {first : List Net} (hfirst : ∀ m ∈ first, m ∈ nets)
    (x : BoardName) : (draftKeys (nets.filter keep) (first.filter keep)).count (some x) =
      (draftKeys nets first).count (some x) := by
  have hplaces := places_filter keep [] first
  rw [List.filter_nil] at hplaces
  rw [draftKeys, hplaces, List.map_map, draftKeys]
  have hsame : ((places [] first).filter fun e => keep e.2).map
      ((fun e => (draftAt (nets.filter keep) e.1 e.2).map (e.2.board, ·)) ∘
        fun e => (e.1.filter keep, e.2)) =
      ((places [] first).filter fun e => keep e.2).map
        fun e => (draftAt nets e.1 e.2).map (e.2.board, ·) := by
    refine List.map_congr_left fun e he => ?_
    have hbefore := (mem_of_mem_places (List.mem_of_mem_filter he)).1
    rw [Function.comp_apply, draftAt_filter h fun m hm =>
      hfirst m ((hbefore m hm).resolve_left List.not_mem_nil)]
  rw [hsame]
  refine count_map_filter fun e he hkeep => ?_
  rw [draftAt_eq_none h (hfirst _ (mem_of_mem_places he).2) hkeep]
  exact (Option.some_ne_none _).symm

theorem nameAt_filter {before : List Net} (hbefore : ∀ m ∈ before, m ∈ nets) (n : Net) :
    nameAt (nets.filter keep) (before.filter keep) n = nameAt nets before n := by
  simp only [nameAt, draftAt_filter h hbefore, count_draftKeys_filter h hbefore,
    count_draftKeys_filter h fun _ hm => hm]

theorem clashAt_filter {before : List Net} (hbefore : ∀ m ∈ before, m ∈ nets) (n : Net) :
    clashAt (nets.filter keep) (before.filter keep) n = clashAt nets before n := by
  simp only [clashAt, draftAt_filter h hbefore, count_draftKeys_filter h hbefore,
    count_draftKeys_filter h fun _ hm => hm]

omit h in
theorem before_of_mem_places {e : List Net × Net} (he : e ∈ places [] nets) :
    ∀ m ∈ e.1, m ∈ nets :=
  fun m hm => ((mem_of_mem_places he).1 m hm).resolve_left List.not_mem_nil

/-- The nets that are kept get the names that they would have without the others. -/
theorem filter_assignNames (hkeep : ∀ n name, keep { n with name } = keep n) :
    (assignNames nets).filter keep = assignNames (nets.filter keep) := by
  have hplaces := places_filter keep [] nets
  rw [List.filter_nil] at hplaces
  rw [assignNames_eq, assignNames_eq, hplaces, List.map_map, List.filter_map]
  have htest : keep ∘ (fun e : List Net × Net => { e.2 with name := nameAt nets e.1 e.2 }) =
      fun e => keep e.2 := funext fun e => hkeep e.2 _
  rw [htest]
  refine List.map_congr_left fun e he => ?_
  rw [Function.comp_apply, nameAt_filter h (before_of_mem_places (List.mem_of_mem_filter he))]

theorem name_eq_none (hkeep : ∀ n name, keep { n with name } = keep n) {n : Net}
    (hn : n ∈ assignNames nets) (hout : keep n = false) : n.name = none := by
  rw [assignNames_eq] at hn
  obtain ⟨e, he, rfl⟩ := List.mem_map.1 hn
  rw [hkeep] at hout
  change nameAt nets e.1 e.2 = none
  rw [nameAt, draftAt_eq_none h (mem_of_mem_places he).2 hout]
  rfl

theorem clashes_filter : clashes (nets.filter keep) = clashes nets := by
  have hplaces := places_filter keep [] nets
  rw [List.filter_nil] at hplaces
  rw [clashes_eq, clashes_eq, hplaces, List.filterMap_map, List.filterMap_filter]
  refine List.filterMap_congr fun e he => ?_
  split
  · rw [Function.comp_apply, clashAt_filter h (before_of_mem_places he)]
  · rename_i hout
    rw [clashAt, draftAt_eq_none h (mem_of_mem_places he).2 (by simpa using hout)]
    rfl

end Unnamed
end Net
end BoardNets
