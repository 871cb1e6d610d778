import SimpleServ.Utility.FileManager

/-
  `CacheFileFetcher::get_file` over a fetcher of which nothing is known.

  The fetcher's answer for a path may change from call to call, and a call of it may end in an
  exception. `recorded` is the same fetcher with a record of what it was asked and how it
  answered; on it the cache does what it does on the plain one (`getFiles_recorded`).

  `getFile_firstAnswer`: behind any calls, a call returns the first success in the record for
  its path, and ends as the fetcher does at the moment where there is none.
-/

namespace SimpleServ.Utility

open SimpleServ.Cxx Outcome

section History

variable {F T E : Type}

/-- What the fetcher was asked for, and its answer. -/
abbrev Ask (E T : Type) := Bytes × Outcome (Except E T)

/-- The fetcher `fetch`, with a record of its answers. -/
def recorded (fetch : F → Bytes → Outcome (Except E T) × F) (fetcher : F × List (Ask E T))
    (path : Bytes) : Outcome (Except E T) × (F × List (Ask E T)) :=
  let (answer, next) := fetch fetcher.1 path
  (answer, next, fetcher.2 ++ [(path, answer)])

/-- The file that an answer gives. -/
def success : Outcome (Except E T) → Option T
  | ret (.ok value) => some value
  | _ => none

def firstSuccess (asks : List (Ask E T)) (path : Bytes) : Option T :=
  asks.findSome? fun ask => if ask.1 = path then success ask.2 else none

/-- `get_file` on one path after another. -/
def CacheFileFetcher.getFiles (fetch : F → Bytes → Outcome (Except E T) × F)
    (cache : CacheFileFetcher F T) :
    List Bytes → List (Outcome (Except E T)) × CacheFileFetcher F T
  | [] => ([], cache)
  | path :: paths =>
    let (result, cache) := cache.getFile fetch path
    let (results, cache) := cache.getFiles fetch paths
    (result :: results, cache)

/-- A call for `path` that finds the cache in `before` and leaves it in `after`. -/
structure FirstAnswer (before after : CacheFileFetcher (F × List (Ask E T)) T) (path : Bytes)
    (result : Outcome (Except E T)) : Prop where
  /-- It returns the first success there has been, this call included. -/
  success : ∀ value, firstSuccess after.file_fetcher.2 path = some value → result = ret (.ok value)
  /-- Where there has been none, it returns the error that the fetcher gives now, or ends as the
      fetcher does now where that does not return. -/
  failure : firstSuccess after.file_fetcher.2 path = none →
    after.file_fetcher.2 = before.file_fetcher.2 ++ [(path, result)] ∧
      ((∃ e, result = ret (.error e)) ∨ ¬ result.Returns)
  /-- After a success the fetcher is not asked. -/
  silent : ∀ value, firstSuccess before.file_fetcher.2 path = some value →
    after.file_fetcher = before.file_fetcher
  /-- Whatever is no success leaves the cache as it was. -/
  kept : (∀ value, result ≠ ret (.ok value)) → after.file_cache = before.file_cache

/-- The cache holds the first successes. -/
def HoldsFirst (cache : CacheFileFetcher (F × List (Ask E T)) T) : Prop :=
  ∀ path, cache.file_cache[path]?.map fromFileCacheEntry = firstSuccess cache.file_fetcher.2 path

variable {fetch : F → Bytes → Outcome (Except E T) × F}
  {cache : CacheFileFetcher (F × List (Ask E T)) T} {asks : List (Ask E T)} {path : Bytes}
  {answer : Outcome (Except E T)}

theorem success_eq_some {value : T} : success answer = some value ↔ answer = ret (.ok value) := by
  cases answer with
  | ret result => cases result <;> simp [success]
  | throw e => simp [success]
  | ub => simp [success]
  | killed => simp [success]

theorem firstSuccess_concat (asks : List (Ask E T)) (ask : Ask E T) (path : Bytes) :
    firstSuccess (asks ++ [ask]) path =
      (firstSuccess asks path).or (if ask.1 = path then success ask.2 else none) := by
  rw [firstSuccess, List.findSome?_append]
  simp only [List.findSome?_cons, List.findSome?_nil]
  rw [firstSuccess]
  congr 1
  cases (if ask.1 = path then success ask.2 else none) with
  | none => rfl
  | some value => rfl

theorem firstSuccess_failed (ha : ∀ value, answer ≠ ret (.ok value)) (asks : List (Ask E T))
    (path' path : Bytes) : firstSuccess (asks ++ [(path', answer)]) path = firstSuccess asks path := by
  have hs : success answer = none :=
    Option.eq_none_iff_forall_ne_some.mpr fun value h => ha value (success_eq_some.mp h)
  rw [firstSuccess_concat, hs, ite_self, Option.or_none]

theorem firstSuccess_fetched (h : firstSuccess asks path = none) (value : T) :
    firstSuccess (asks ++ [(path, (ret (.ok value) : Outcome (Except E T)))]) path =
      some value := by
  rw [firstSuccess_concat, h, Option.none_or, if_pos rfl]
  rfl

/-! ## One call -/

theorem HoldsFirst.miss (h : HoldsFirst cache) (hm : cache.file_cache[path]? = none) :
    firstSuccess cache.file_fetcher.2 path = none := by
  rw [← h path, hm]
  rfl

/-- A success for a path that had none goes into the cache. -/
theorem HoldsFirst.insert (h : HoldsFirst cache) (hm : cache.file_cache[path]? = none)
    (value : T) (next : F) :
    HoldsFirst (⟨(next, cache.file_fetcher.2 ++ [(path, ret (.ok value))]),
      cache.file_cache.insert path (createFileCacheEntry path value)⟩ :
        CacheFileFetcher (F × List (Ask E T)) T) := by
  intro other
  dsimp only
  rw [Lib.getElem?_insert]
  by_cases ho : other = path
  · rw [if_pos ho, ho, firstSuccess_fetched (h.miss hm)]
    rfl
  · rw [if_neg ho, firstSuccess_concat, if_neg (Ne.symm ho), Option.or_none]
    exact h other

theorem recorded_eq {next : F} (hf : fetch cache.file_fetcher.1 path = (answer, next)) :
    recorded fetch cache.file_fetcher path =
      (answer, next, cache.file_fetcher.2 ++ [(path, answer)]) := by
  rw [recorded, hf]

/-- One call keeps the first successes and returns as it should. -/
theorem HoldsFirst.getFile (h : HoldsFirst cache)
    (fetch : F → Bytes → Outcome (Except E T) × F) (path : Bytes) :
    HoldsFirst (cache.getFile (recorded fetch) path).2 ∧
      FirstAnswer cache (cache.getFile (recorded fetch) path).2 path
        (cache.getFile (recorded fetch) path).1 := by
  cases hm : cache.file_cache[path]? with
  | some entry =>
    have hs : firstSuccess cache.file_fetcher.2 path = some entry.value := by
      rw [← h path, hm]
      rfl
    rw [CacheFileFetcher.getFile_hit hm]
    refine ⟨h, ?_, ?_, fun _ _ => rfl, fun _ => rfl⟩
    · intro value hv
      rw [hs, Option.some.injEq] at hv
      rw [hv]
    · intro hn
      rw [hs] at hn
      cases hn
  | none =>
    have hnone := h.miss hm
    cases hf : fetch cache.file_fetcher.1 path with
    | mk answer next =>
      by_cases ha : ∃ value, answer = ret (.ok value)
      · obtain ⟨value, rfl⟩ := ha
        have hs := firstSuccess_fetched hnone value
        rw [CacheFileFetcher.getFile_fetched hm (recorded_eq hf)]
        refine ⟨h.insert hm value next, ?_, ?_, ?_, fun hne => absurd rfl (hne value)⟩
        · intro value' hv
          rw [hs, Option.some.injEq] at hv
          rw [hv]
        · intro hn
          rw [hs] at hn
          cases hn
        · intro value' hv
          rw [hnone] at hv
          cases hv
      · have hfailed : ∀ value, answer ≠ ret (.ok value) := fun value he => ha ⟨value, he⟩
        rw [CacheFileFetcher.getFile_failed hm (recorded_eq hf) hfailed]
        refine ⟨fun other => ?_, ?_, fun _ => ⟨rfl, ?_⟩, ?_, fun _ => rfl⟩
        · rw [firstSuccess_failed hfailed]
          exact h other
        · intro value hv
          rw [firstSuccess_failed hfailed, hnone] at hv
          cases hv
        · by_cases hr : answer.Returns
          · obtain ⟨result, rfl⟩ := hr
            cases result with
            | ok value => exact absurd rfl (hfailed value)
            | error e => exact .inl ⟨e, rfl⟩
          · exact .inr hr
        · intro value hv
          rw [hnone] at hv
          cases hv

/-! ## Runs -/

theorem holdsFirst_empty (fetcher : F) :
    HoldsFirst (⟨(fetcher, []), ∅⟩ : CacheFileFetcher (F × List (Ask E T)) T) := by
  intro path
  rw [Std.ExtTreeMap.getElem?_empty]
  rfl

/-- By induction on the calls. -/
theorem HoldsFirst.getFiles (h : HoldsFirst cache)
    (fetch : F → Bytes → Outcome (Except E T) × F) (paths : List Bytes) :
    HoldsFirst (cache.getFiles (recorded fetch) paths).2 := by
  induction paths generalizing cache with
  | nil => exact h
  | cons path paths ih => exact ih (h.getFile fetch path).1

/-- The cache without the record. -/
def CacheFileFetcher.plain (cache : CacheFileFetcher (F × List (Ask E T)) T) : CacheFileFetcher F T :=
  ⟨cache.file_fetcher.1, cache.file_cache⟩

theorem getFile_recorded (fetch : F → Bytes → Outcome (Except E T) × F)
    (cache : CacheFileFetcher (F × List (Ask E T)) T) (path : Bytes) :
    cache.plain.getFile fetch path = ((cache.getFile (recorded fetch) path).1,
      (cache.getFile (recorded fetch) path).2.plain) := by
  cases hm : cache.file_cache[path]? with
  | some entry =>
    have hplain : cache.plain.file_cache[path]? = some entry := hm
    rw [CacheFileFetcher.getFile_hit hm, CacheFileFetcher.getFile_hit hplain]
  | none =>
    have hplain : cache.plain.file_cache[path]? = none := hm
    cases hf : fetch cache.file_fetcher.1 path with
    | mk answer next =>
      by_cases ha : ∃ value, answer = ret (.ok value)
      · obtain ⟨value, rfl⟩ := ha
        rw [CacheFileFetcher.getFile_fetched hm (recorded_eq hf),
          CacheFileFetcher.getFile_fetched hplain hf]
        rfl
      · have hfailed : ∀ value, answer ≠ ret (.ok value) := fun value he => ha ⟨value, he⟩
        rw [CacheFileFetcher.getFile_failed hm (recorded_eq hf) hfailed,
          CacheFileFetcher.getFile_failed hplain hf hfailed]
        rfl

/-- The record changes nothing. -/
theorem getFiles_recorded (fetch : F → Bytes → Outcome (Except E T) × F)
    (cache : CacheFileFetcher (F × List (Ask E T)) T) (paths : List Bytes) :
    cache.plain.getFiles fetch paths = ((cache.getFiles (recorded fetch) paths).1,
      (cache.getFiles (recorded fetch) paths).2.plain) := by
  induction paths generalizing cache with
  | nil => rfl
  | cons path paths ih =>
    rw [CacheFileFetcher.getFiles, getFile_recorded]
    dsimp only
    rw [ih, CacheFileFetcher.getFiles]

/-- **A call returns the first success for its path, or the error of the moment.** The calls
    before it are any, and `fetch` answers as it likes. -/
theorem getFile_firstAnswer (fetch : F → Bytes → Outcome (Except E T) × F) (fetcher : F)
    (paths : List Bytes) (path : Bytes) :
    let plain := (CacheFileFetcher.getFiles fetch ⟨fetcher, ∅⟩ paths).2
    let cache := (CacheFileFetcher.getFiles (recorded fetch) ⟨(fetcher, []), ∅⟩ paths).2
    cache.plain = plain ∧
      cache.plain.getFile fetch path = ((cache.getFile (recorded fetch) path).1,
        (cache.getFile (recorded fetch) path).2.plain) ∧
      FirstAnswer cache (cache.getFile (recorded fetch) path).2 path
        (cache.getFile (recorded fetch) path).1 := by
  refine ⟨?_, getFile_recorded fetch _ path, ?_⟩
  · have h := getFiles_recorded fetch (⟨(fetcher, []), ∅⟩ : CacheFileFetcher (F × List (Ask E T)) T)
      paths
    exact (congrArg Prod.snd h).symm
  · exact ((holdsFirst_empty fetcher).getFiles fetch paths |>.getFile fetch path).2

end History

end SimpleServ.Utility
