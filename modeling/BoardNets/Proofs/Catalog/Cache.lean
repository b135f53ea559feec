import BoardNets.Catalog.Cache
import BoardNets.Proofs.Traversal

/-! What a cache answers to a row of requests. Of each source it holds what the last successful get
since the last invalidation answered, under a number that it gives out once. So two gets answer one
catalog exactly where nothing has come between them that replaces it or drops it. -/
namespace BoardNets
namespace Cache

/-- What a cache is asked. -/
inductive Request where
  | get (p : Provider)
  | version (p : Provider)
  | invalidate

inductive Answer where
  | catalog (result : Except CatalogError CacheEntry)
  | version (version : Option UInt64)
  | cleared

/-- The answer to a request, and the cache after it. -/
def answer (cache : Cache) : Request → Answer × Cache
  | .get p => (.catalog (cache.get p).1, (cache.get p).2)
  | .version p => (.version (cache.cachedVersion p), cache)
  | .invalidate => (.cleared, cache.invalidate)

def after (cache : Cache) (requests : List Request) : Cache :=
  requests.foldl (fun cache r => (cache.answer r).2) cache

def answersFrom (cache : Cache) : List Request → List Answer
  | [] => []
  | r :: rest => (cache.answer r).1 :: answersFrom (cache.answer r).2 rest

/-- What a new cache answers to requests in a row. -/
def answers (requests : List Request) : List Answer := answersFrom {} requests

/-- The request at a place gets a catalog. -/
def Answered (requests : List Request) (k : Nat) (p : Provider) (e : CacheEntry) : Prop :=
  requests[k]? = some (.get p) ∧ (answers requests)[k]? = some (.catalog (.ok e))

/-- Between two places nothing is invalidated, and a source is served in one version alone. -/
structure Undisturbed (requests : List Request) (i j : Nat) (source : String) (version : UInt64) :
    Prop where
  valid : ∀ k, i < k → k < j → requests[k]? ≠ some .invalidate
  version : ∀ k p e, i < k → k < j → Answered requests k p e → p.source = source →
    p.version = version

/-- The last get of a source that succeeds before a place, with nothing invalidated since. -/
def Latest (requests : List Request) (j : Nat) (source : String) (p : Provider) (e : CacheEntry) :
    Prop :=
  p.source = source ∧ ∃ i < j, Answered requests i p e ∧ ∀ k, i < k → k < j →
    requests[k]? ≠ some .invalidate ∧ ∀ q a, Answered requests k q a → q.source ≠ source

variable {cache : Cache} {p q : Provider} {e : CacheEntry}

theorem get_hit (h : cache.entries.find? p.source = some e) (hversion : e.version = p.version) :
    cache.get p = (.ok e, cache) := by
  rw [get, h]
  exact if_pos hversion

theorem get_miss (h : cache.cachedVersion p ≠ some p.version) : cache.get p =
    match Catalog.ofSnapshot p.snapshot with
    | .error error => (.error error, cache)
    | .ok catalog => (.ok ⟨p.version, cache.next, catalog⟩,
        ⟨cache.entries.insert p.source ⟨p.version, cache.next, catalog⟩, cache.next + 1⟩) := by
  rw [get]
  cases hfound : cache.entries.find? p.source with
  | none => rfl
  | some e =>
    rw [cachedVersion, hfound, Option.map_some, ne_eq, Option.some.injEq] at h
    exact if_neg h

theorem cachedVersion_eq_some {version : UInt64} : cache.cachedVersion p = some version ↔
    ∃ e, cache.entries.find? p.source = some e ∧ e.version = version := by
  rw [cachedVersion, Option.map_eq_some_iff]

theorem get_cases (h : (cache.get p).1 = .ok e) : e.version = p.version ∧
    (cache.entries.find? p.source = some e ∧ (cache.get p).2 = cache ∨
      e.number = cache.next ∧ Catalog.ofSnapshot p.snapshot = .ok e.catalog ∧
        (cache.get p).2 = ⟨cache.entries.insert p.source e, cache.next + 1⟩) := by
  by_cases hcached : cache.cachedVersion p = some p.version
  · obtain ⟨a, ha, hversion⟩ := cachedVersion_eq_some.1 hcached
    rw [get_hit ha hversion] at h ⊢
    obtain rfl := Except.ok.inj h
    exact ⟨hversion, .inl ⟨ha, rfl⟩⟩
  · rw [get_miss hcached] at h ⊢
    cases hlinked : Catalog.ofSnapshot p.snapshot with
    | error error =>
      rw [hlinked] at h
      cases h
    | ok catalog =>
      rw [hlinked] at h
      obtain rfl := Except.ok.inj h
      exact ⟨rfl, .inr ⟨rfl, rfl, rfl⟩⟩

/-- A get fails where its snapshot does, and leaves the cache alone. -/
theorem get_eq_error {error : CatalogError} : (cache.get p).1 = .error error ↔
    cache.cachedVersion p ≠ some p.version ∧ Catalog.ofSnapshot p.snapshot = .error error := by
  by_cases hcached : cache.cachedVersion p = some p.version
  · obtain ⟨a, ha, hversion⟩ := cachedVersion_eq_some.1 hcached
    simp [get_hit ha hversion, hcached]
  · rw [get_miss hcached]
    cases Catalog.ofSnapshot p.snapshot <;> simp [hcached]

theorem get_failed {error : CatalogError} (h : (cache.get p).1 = .error error) :
    (cache.get p).2 = cache := by
  obtain ⟨hcached, hlinked⟩ := get_eq_error.1 h
  rw [get_miss hcached, hlinked]

theorem find?_get (h : (cache.get p).1 = .ok e) (source : String) :
    (cache.get p).2.entries.find? source =
      if source = p.source then some e else cache.entries.find? source := by
  rcases (get_cases h).2 with ⟨hfound, hsame⟩ | ⟨-, -, hinserted⟩
  · rw [hsame]
    split
    · rename_i hsource
      rw [hsource, hfound]
    · rfl
  · rw [hinserted, SortedMap.find?_insert]

/-- A source keeps what it has through a get of another source, or of itself in the same version. -/
theorem find?_get_of_same {a : CacheEntry} {source : String}
    (ha : cache.entries.find? source = some a) (h : (cache.get p).1 = .ok e)
    (hsame : p.source = source → p.version = a.version) :
    (cache.get p).2.entries.find? source = some a := by
  rw [find?_get h]
  split
  · rename_i hsource
    subst hsource
    rw [get_hit ha (hsame rfl).symm] at h
    exact congrArg some (Except.ok.inj h).symm
  · exact ha

structure Numbered (cache : Cache) : Prop where
  below : ∀ source e, cache.entries.find? source = some e → e.number < cache.next
  apart : ∀ source source' e e', cache.entries.find? source = some e →
    cache.entries.find? source' = some e' → e.number = e'.number → source = source'

def Spent (cache : Cache) (number : Nat) : Prop :=
  number < cache.next ∧ ∀ source e, cache.entries.find? source = some e → e.number ≠ number

theorem numbered_new : Numbered {} where
  below := fun _ _ h => by cases h
  apart := fun _ _ _ _ h => by cases h

theorem Numbered.get (hcache : cache.Numbered) : (cache.get p).2.Numbered := by
  cases h : (cache.get p).1 with
  | error error => rwa [get_failed h]
  | ok e =>
    rcases (get_cases h).2 with ⟨-, hsame⟩ | ⟨hnumber, -, hinserted⟩
    · rwa [hsame]
    · have hnew {source : String} {a : CacheEntry}
          (ha : (cache.get p).2.entries.find? source = some a) :
          source = p.source ∧ a = e ∨
            cache.entries.find? source = some a ∧ a.number < cache.next := by
        rw [find?_get h] at ha
        split at ha
        · rename_i hsource
          exact .inl ⟨hsource, (Option.some.inj ha).symm⟩
        · exact .inr ⟨ha, hcache.below source a ha⟩
      have hnext : (cache.get p).2.next = cache.next + 1 := by rw [hinserted]
      constructor
      case below =>
        intro source a ha
        rw [hnext]
        rcases hnew ha with ⟨-, rfl⟩ | ⟨-, hlt⟩ <;> omega
      case apart =>
        intro source source' a a' ha ha' heq
        rcases hnew ha with ⟨hsource, rfl⟩ | ⟨hold, hlt⟩ <;>
          rcases hnew ha' with ⟨hsource', rfl⟩ | ⟨hold', hlt'⟩
        · exact hsource.trans hsource'.symm
        · omega
        · omega
        · exact hcache.apart source source' a a' hold hold' heq

theorem Numbered.answer (hcache : cache.Numbered) (r : Request) : (cache.answer r).2.Numbered := by
  cases r with
  | get p => exact hcache.get
  | version p => exact hcache
  | invalidate => exact ⟨fun _ _ h => (by cases h), fun _ _ _ _ h => (by cases h)⟩

theorem Numbered.after (hcache : cache.Numbered) (requests : List Request) :
    (cache.after requests).Numbered := by
  induction requests generalizing cache with
  | nil => exact hcache
  | cons r requests ih => exact ih (hcache.answer r)

theorem Spent.ne_of_get {number : Nat} (hspent : cache.Spent number)
    (h : (cache.get p).1 = .ok e) : e.number ≠ number := by
  rcases (get_cases h).2 with ⟨hfound, -⟩ | ⟨hnumber, -, -⟩
  · exact hspent.2 _ e hfound
  · have hlt := hspent.1
    omega

theorem Spent.answer {number : Nat} (hspent : cache.Spent number) (r : Request) :
    (cache.answer r).2.Spent number := by
  cases r with
  | version p => exact hspent
  | invalidate => exact ⟨hspent.1, fun _ _ h => (by cases h)⟩
  | get p =>
    change (cache.get p).2.Spent number
    cases h : (cache.get p).1 with
    | error error => rwa [get_failed h]
    | ok e =>
      refine ⟨?_, fun source a ha => ?_⟩
      · rcases (get_cases h).2 with ⟨-, hsame⟩ | ⟨-, -, hinserted⟩
        · rw [hsame]
          exact hspent.1
        · rw [hinserted]
          exact Nat.lt_succ_of_lt hspent.1
      · rw [find?_get h] at ha
        split at ha
        · exact Option.some.inj ha ▸ hspent.ne_of_get h
        · exact hspent.2 source a ha

/-- A get that answers something else for a source spends the number that the source had. -/
theorem spent_of_get {a : CacheEntry} (hcache : cache.Numbered)
    (ha : cache.entries.find? p.source = some a) (hversion : a.version ≠ p.version)
    (h : (cache.get p).1 = .ok e) : (cache.get p).2.Spent a.number := by
  have hlt := hcache.below _ a ha
  obtain ⟨hp, ⟨hfound, -⟩ | ⟨hnumber, -, hinserted⟩⟩ := get_cases h
  · obtain rfl := Option.some.inj (ha.symm.trans hfound)
    exact absurd hp hversion
  · refine ⟨by rw [hinserted]; exact Nat.lt_succ_of_lt hlt, fun source b hb heq => ?_⟩
    rw [find?_get h] at hb
    split at hb
    · obtain rfl := Option.some.inj hb
      omega
    · rename_i hsource
      exact hsource (hcache.apart source p.source b a hb ha heq)

variable {requests : List Request} {i j : Nat}

/-- The cache that the request at a place finds. -/
def before (requests : List Request) (k : Nat) : Cache := after {} (requests.take k)

theorem numbered_before (requests : List Request) (k : Nat) : (before requests k).Numbered :=
  numbered_new.after _

theorem before_succ {r : Request} (h : requests[j]? = some r) :
    before requests (j + 1) = ((before requests j).answer r).2 := by
  rw [before, before, List.take_add_one, h, after, after, List.foldl_append]
  rfl

theorem getElem?_answersFrom (cache : Cache) (requests : List Request) (k : Nat) :
    (answersFrom cache requests)[k]? =
      requests[k]?.map fun r => ((cache.after (requests.take k)).answer r).1 := by
  induction requests generalizing cache k with
  | nil => rfl
  | cons r requests ih =>
    cases k with
    | zero => rfl
    | succ k => exact ih (cache.answer r).2 k

theorem getElem?_answers {r : Request} (h : requests[j]? = some r) :
    (answers requests)[j]? = some ((before requests j).answer r).1 := by
  rw [answers, getElem?_answersFrom, h]
  rfl

theorem answered_iff : Answered requests j p e ↔
    requests[j]? = some (.get p) ∧ ((before requests j).get p).1 = .ok e := by
  refine and_congr_right fun h => ?_
  rw [getElem?_answers h, answer, Option.some.injEq, Answer.catalog.injEq]

theorem answersFrom_eraseIdx {r : Request} {cache : Cache} {k : Nat} (h : requests[k]? = some r)
    (hsame : ((cache.after (requests.take k)).answer r).2 = cache.after (requests.take k)) :
    answersFrom cache (requests.eraseIdx k) = (answersFrom cache requests).eraseIdx k := by
  induction requests generalizing cache k with
  | nil => cases h
  | cons x requests ih =>
    cases k with
    | zero =>
      obtain rfl := Option.some.inj h
      change answersFrom cache requests = answersFrom (cache.answer x).2 requests
      exact congrArg (answersFrom · requests) hsame.symm
    | succ k => exact congrArg ((cache.answer x).1 :: ·) (ih h hsame)

/-- What a source has after a request: what the request answered, or what it left. -/
theorem find?_before_succ {r : Request} (h : requests[j]? = some r) (source : String) :
    (before requests (j + 1)).entries.find? source = some e ↔
      (∃ p, p.source = source ∧ Answered requests j p e) ∨
      ((before requests j).entries.find? source = some e ∧ requests[j]? ≠ some .invalidate ∧
        ∀ q a, Answered requests j q a → q.source ≠ source) := by
  rw [before_succ h]
  simp only [answered_iff, h]
  cases r with
  | version p => simp [answer]
  | invalidate => simp [answer, invalidate]
  | get p =>
    change (((before requests j).get p).2.entries.find? source = some e) ↔ _
    cases hget : ((before requests j).get p).1 with
    | error error =>
      rw [get_failed hget]
      constructor
      · refine fun hfound => .inr ⟨hfound, by simp, fun q a hq => ?_⟩
        obtain rfl := Request.get.inj (Option.some.inj hq.1)
        rw [hget] at hq
        cases hq.2
      · rintro (⟨q, _, hq, ha⟩ | ⟨hfound, _⟩)
        · obtain rfl := Request.get.inj (Option.some.inj hq)
          rw [hget] at ha
          cases ha
        · exact hfound
    | ok b =>
      rw [find?_get hget]
      constructor
      · intro hfound
        split at hfound
        · rename_i hsource
          exact .inl ⟨p, hsource.symm, rfl, hget.trans (congrArg _ (Option.some.inj hfound))⟩
        · rename_i hsource
          refine .inr ⟨hfound, by simp, fun q a hq => ?_⟩
          obtain rfl := Request.get.inj (Option.some.inj hq.1)
          exact Ne.symm hsource
      · rintro (⟨q, hsource, hq, ha⟩ | ⟨hfound, _, hother⟩)
        · obtain rfl := Request.get.inj (Option.some.inj hq)
          rw [if_pos hsource.symm, ← Except.ok.inj (hget.symm.trans ha)]
        · rw [if_neg (hother p b ⟨rfl, hget⟩).symm, hfound]

theorem latest_succ {source : String} : Latest requests (j + 1) source p e ↔
    (p.source = source ∧ Answered requests j p e) ∨
    (Latest requests j source p e ∧ requests[j]? ≠ some .invalidate ∧
      ∀ q a, Answered requests j q a → q.source ≠ source) := by
  constructor
  · rintro ⟨hsource, i, hi, hanswered, hsince⟩
    rcases Nat.lt_succ_iff_lt_or_eq.1 hi with hlt | rfl
    · exact .inr ⟨⟨hsource, i, hlt, hanswered, fun k hik hkj => hsince k hik (by omega)⟩,
        hsince j hlt (by omega)⟩
    · exact .inl ⟨hsource, hanswered⟩
  · rintro (⟨hsource, hanswered⟩ | ⟨⟨hsource, i, hi, hanswered, hsince⟩, hlast⟩)
    · exact ⟨hsource, j, by omega, hanswered, fun k hjk hkj => by omega⟩
    · refine ⟨hsource, i, by omega, hanswered, fun k hik hkj => ?_⟩
      rcases Nat.lt_succ_iff_lt_or_eq.1 hkj with hlt | rfl
      · exact hsince k hik hlt
      · exact hlast

theorem find?_before_iff (hj : j ≤ requests.length) (source : String) (e : CacheEntry) :
    (before requests j).entries.find? source = some e ↔ ∃ p, Latest requests j source p e := by
  induction j generalizing e with
  | zero =>
    refine iff_of_false (fun h => by cases h) ?_
    rintro ⟨p, -, i, hi, -⟩
    omega
  | succ j ih =>
    have hr : requests[j]? = some requests[j] := List.getElem?_eq_getElem (by omega)
    rw [find?_before_succ hr]
    simp only [latest_succ, exists_or, exists_and_right, ← ih (by omega)]

theorem cachedVersion_before (hj : j ≤ requests.length) (p : Provider) (version : UInt64) :
    (before requests j).cachedVersion p = some version ↔
      ∃ q e, Latest requests j p.source q e ∧ q.version = version := by
  have hversion {q : Provider} {e : CacheEntry} (h : Latest requests j p.source q e) :
      e.version = q.version := by
    obtain ⟨-, i, -, hanswered, -⟩ := h
    exact (get_cases (answered_iff.1 hanswered).2).1
  rw [cachedVersion_eq_some]
  simp only [find?_before_iff hj]
  constructor
  · rintro ⟨e, ⟨q, hq⟩, rfl⟩
    exact ⟨q, e, hq, (hversion hq).symm⟩
  · rintro ⟨q, e, hq, rfl⟩
    exact ⟨e, ⟨q, hq⟩, hversion hq⟩

theorem undisturbed_next (source : String) (version : UInt64) :
    Undisturbed requests i (i + 1) source version where
  valid := fun k hik hki => by omega
  version := fun k p e hik hki => by omega

theorem undisturbed_succ (hij : i < j) {source : String} {version : UInt64} :
    Undisturbed requests i (j + 1) source version ↔
      Undisturbed requests i j source version ∧ requests[j]? ≠ some .invalidate ∧
        ∀ p e, Answered requests j p e → p.source = source → p.version = version := by
  constructor
  · intro h
    exact ⟨⟨fun k hik hkj => h.valid k hik (by omega),
      fun k p e hik hkj => h.version k p e hik (by omega)⟩, h.valid j hij (by omega),
      fun p e => h.version j p e hij (by omega)⟩
  · rintro ⟨h, hvalid, hversion⟩
    constructor
    case valid =>
      intro k hik hkj
      rcases Nat.lt_succ_iff_lt_or_eq.1 hkj with hlt | rfl
      · exact h.valid k hik hlt
      · exact hvalid
    case version =>
      intro k p e hik hkj
      rcases Nat.lt_succ_iff_lt_or_eq.1 hkj with hlt | rfl
      · exact h.version k p e hik hlt
      · exact hversion p e

/-- An entry stays in the cache while its source is not disturbed, and its number is spent then. -/
theorem held_or_spent {a : CacheEntry} (hi : Answered requests i p a) (hij : i + 1 ≤ j)
    (hj : j ≤ requests.length) :
    (Undisturbed requests i j p.source p.version ∧
      (before requests j).entries.find? p.source = some a) ∨
    (¬Undisturbed requests i j p.source p.version ∧ (before requests j).Spent a.number) := by
  obtain ⟨hget, ha⟩ := answered_iff.1 hi
  induction hij with
  | refl =>
    refine .inl ⟨undisturbed_next _ _, ?_⟩
    rw [before_succ hget]
    exact (find?_get ha p.source).trans (if_pos rfl)
  | @step j hij ih =>
    have hr : requests[j]? = some requests[j] := List.getElem?_eq_getElem (by omega)
    generalize requests[j] = r at hr
    rw [undisturbed_succ hij, before_succ hr]
    rcases ih (by omega) with ⟨hsame, hheld⟩ | ⟨hnot, hspent⟩
    · simp only [hsame, true_and, answered_iff, hr]
      cases r with
      | version q => exact .inl ⟨by simp, hheld⟩
      | invalidate =>
        have hlt := (numbered_before requests j).below _ a hheld
        exact .inr ⟨by simp, hlt, fun _ _ h => by cases h⟩
      | get q =>
        change _ ∧ ((before requests j).get q).2.entries.find? _ = _ ∨
          _ ∧ ((before requests j).get q).2.Spent _
        cases hq : ((before requests j).get q).1 with
        | error error =>
          rw [get_failed hq]
          refine .inl ⟨⟨by simp, fun q' e hq' => ?_⟩, hheld⟩
          obtain rfl := Request.get.inj (Option.some.inj hq'.1)
          rw [hq] at hq'
          cases hq'.2
        | ok b =>
          have hversion := (get_cases ha).1
          by_cases hserved : q.source = p.source → q.version = p.version
          · refine .inl ⟨⟨by simp, fun q' e hq' hsource => ?_⟩,
              find?_get_of_same hheld hq fun hsource => (hserved hsource).trans hversion.symm⟩
            obtain rfl := Request.get.inj (Option.some.inj hq'.1)
            exact hserved hsource
          · obtain ⟨hsource, hne⟩ := Classical.not_imp.1 hserved
            refine .inr ⟨fun h => hne (h.2 q b ⟨rfl, hq⟩ hsource), ?_⟩
            exact spent_of_get (numbered_before requests j) (hsource ▸ hheld)
              (fun h => hne (h.symm.trans hversion)) hq
    · exact .inr ⟨fun h => hnot h.1, hspent.answer r⟩

theorem same_number_iff {a b : CacheEntry} (hij : i < j) (hi : Answered requests i p a)
    (hj : Answered requests j q b) :
    (a.number = b.number ↔ p.source = q.source ∧ p.version = q.version ∧
      Undisturbed requests i j p.source p.version) ∧ (a.number = b.number → a = b) := by
  obtain ⟨hget, hb⟩ := answered_iff.1 hj
  have hlength : j ≤ requests.length := Nat.le_of_lt (List.getElem?_eq_some_iff.1 hget).1
  have hp := (get_cases (answered_iff.1 hi).2).1
  obtain ⟨hq, hfrom⟩ := get_cases hb
  rcases held_or_spent hi hij hlength with ⟨hsame, hheld⟩ | ⟨hnot, hspent⟩
  · have hnumbered := numbered_before requests j
    have hfirst (heq : a.number = b.number) : p.source = q.source ∧ a = b := by
      rcases hfrom with ⟨hfound, -⟩ | ⟨hnumber, -, -⟩
      · have hsource := hnumbered.apart _ _ a b hheld hfound heq
        exact ⟨hsource, Option.some.inj (hheld.symm.trans (hsource ▸ hfound))⟩
      · have hlt := hnumbered.below _ a hheld
        omega
    refine ⟨⟨fun heq => ?_, ?_⟩, fun heq => (hfirst heq).2⟩
    · obtain ⟨hsource, rfl⟩ := hfirst heq
      exact ⟨hsource, hp.symm.trans hq, hsame⟩
    · rintro ⟨hsource, hversion, -⟩
      rw [get_hit (hsource ▸ hheld) (hp.trans hversion)] at hb
      rw [Except.ok.inj hb]
  · have hne : a.number ≠ b.number := (hspent.ne_of_get hb).symm
    exact ⟨iff_of_false hne fun h => hnot h.2.2, fun heq => absurd heq hne⟩

/-- A cache answers by what was asked before. Two gets that succeed answer one catalog exactly where
source and version are the same and nothing between them is invalidated or serves the source in
another version; a catalog that no earlier get has answered is linked from the snapshot at hand. The
cached version is that of the last get of the source that succeeded since anything was invalidated.
A get fails where neither the cache has its version nor its snapshot links, and what fails may be
left out. -/
theorem answers_by_history (requests : List Request) :
    (∀ i j p q a b, i < j → Answered requests i p a → Answered requests j q b →
      (a.number = b.number ↔ p.source = q.source ∧ p.version = q.version ∧
        Undisturbed requests i j p.source p.version) ∧ (a.number = b.number → a = b)) ∧
    (∀ j p e, Answered requests j p e →
      (∀ i q a, i < j → Answered requests i q a → a.number ≠ e.number) →
        Catalog.ofSnapshot p.snapshot = .ok e.catalog) ∧
    (∀ j p, requests[j]? = some (.version p) → ∃ version?,
      (answers requests)[j]? = some (.version version?) ∧ ∀ version, version? = some version ↔
        ∃ q e, Latest requests j p.source q e ∧ q.version = version) ∧
    (∀ j p, requests[j]? = some (.get p) → (∃ e, Answered requests j p e) ∨
      ∃ error, (answers requests)[j]? = some (.catalog (.error error)) ∧
        (¬∃ q e, Latest requests j p.source q e ∧ q.version = p.version) ∧
        Catalog.ofSnapshot p.snapshot = .error error ∧
        answers (requests.eraseIdx j) = (answers requests).eraseIdx j) := by
  have hlength {j : Nat} {r : Request} (h : requests[j]? = some r) : j ≤ requests.length :=
    Nat.le_of_lt (List.getElem?_eq_some_iff.1 h).1
  refine ⟨fun i j p q a b hij hi hj => same_number_iff hij hi hj, ?_, ?_, ?_⟩
  · intro j p e hj hnew
    obtain ⟨hget, he⟩ := answered_iff.1 hj
    rcases (get_cases he).2 with ⟨hfound, -⟩ | ⟨-, hlinked, -⟩
    · obtain ⟨q, -, i, hi, hanswered, -⟩ := (find?_before_iff (hlength hget) _ e).1 hfound
      exact absurd rfl (hnew i q e hi hanswered)
    · exact hlinked
  · intro j p hp
    exact ⟨_, getElem?_answers hp, cachedVersion_before (hlength hp) p⟩
  · intro j p hp
    rw [← cachedVersion_before (hlength hp)]
    cases hget : ((before requests j).get p).1 with
    | ok e => exact .inl ⟨e, answered_iff.2 ⟨hp, hget⟩⟩
    | error error =>
      obtain ⟨hcached, hlinked⟩ := get_eq_error.1 hget
      refine .inr ⟨error, ?_, hcached, hlinked, answersFrom_eraseIdx hp (get_failed hget)⟩
      rw [getElem?_answers hp, answer, hget]

namespace Specimen

def lab : Provider where
  name := "lab"
  version := 1
  snapshot := { interfaceTypes := [{ id := ⟨⟨1⟩⟩, name := "GPIO", label := "GPIO" }] }

def shop : Provider := { lab with name := "shop" }

/-- The next version of the lab has a pin of a type that is not there. -/
def draft : Provider where
  name := "lab"
  version := 2
  snapshot := { interfacePins := [
    { id := ⟨⟨2⟩⟩, interfaceType := ⟨⟨3⟩⟩, reference := "IO", pinType := .digital }] }

def history : List Request :=
  [.get lab, .get shop, .get draft, .get lab, .version draft, .invalidate, .get lab]

theorem linked : (Catalog.ofSnapshot lab.snapshot).isOk = true := by decide +kernel

theorem unlinked : (Catalog.ofSnapshot draft.snapshot).isOk = false := by decide +kernel

/-- The draft does not link, so that the lab is served in its first version alone. -/
theorem undisturbed : Undisturbed history 0 3 lab.source lab.version where
  valid := by
    intro k hfirst hlast
    obtain rfl | rfl : k = 1 ∨ k = 2 := by omega
    · exact nofun
    · exact nofun
  version := by
    intro k p e hfirst hlast h hsource
    obtain ⟨hget, he⟩ := answered_iff.1 h
    obtain rfl | rfl : k = 1 ∨ k = 2 := by omega
    · obtain rfl := Request.get.inj (Option.some.inj hget)
      exact absurd hsource (by decide)
    · obtain rfl := Request.get.inj (Option.some.inj hget)
      have hmissing : (before history 2).cachedVersion draft ≠ some draft.version := by
        decide +kernel
      obtain ⟨error, herror⟩ : ∃ error, Catalog.ofSnapshot draft.snapshot = .error error := by
        cases hlinked : Catalog.ofSnapshot draft.snapshot with
        | error error => exact ⟨error, rfl⟩
        | ok catalog =>
          have hunlinked := unlinked
          rw [hlinked] at hunlinked
          cases hunlinked
      rw [get_eq_error.2 ⟨hmissing, herror⟩] at he
      cases he

end Specimen

/-- The lab is served from the cache until that is invalidated. -/
theorem answers_by_history_specimen : ∃ a b c, Answered Specimen.history 0 Specimen.lab a ∧
    Answered Specimen.history 3 Specimen.lab b ∧ Answered Specimen.history 6 Specimen.lab c ∧
    a.number = b.number ∧ a.number ≠ c.number := by
  obtain ⟨hsame, -, -, hserved⟩ := answers_by_history Specimen.history
  have hanswered (j : Nat) (hj : Specimen.history[j]? = some (.get Specimen.lab)) :
      ∃ e, Answered Specimen.history j Specimen.lab e := by
    refine (hserved j Specimen.lab hj).resolve_right ?_
    rintro ⟨error, -, -, herror, -⟩
    have hlinked := Specimen.linked
    rw [herror] at hlinked
    cases hlinked
  obtain ⟨a, ha⟩ := hanswered 0 rfl
  obtain ⟨b, hb⟩ := hanswered 3 rfl
  obtain ⟨c, hc⟩ := hanswered 6 rfl
  refine ⟨a, b, c, ha, hb, hc, ?_, ?_⟩
  · exact (hsame 0 3 _ _ a b (by decide) ha hb).1.2 ⟨rfl, rfl, Specimen.undisturbed⟩
  · intro heq
    obtain ⟨-, -, hundisturbed⟩ := (hsame 0 6 _ _ a c (by decide) ha hc).1.1 heq
    exact hundisturbed.valid 5 (by decide) (by decide) rfl

end Cache
end BoardNets
