import SimpleServ.Utility.Percent

/-
  `URL`, `path`, `searchpart` and `from_string` (url.cpp).

  Positions are those of `std::string`: `find` searches from a position on, `substr` throws
  behind the end, and lengths are `size_t` differences (`sizeSub`). `searchpart` looks for
  the next `=` and the next `&` apart from each other; it ends because each round goes to a
  later position.

  What it should give is `splitQuery`: the text behind the `?`, cut at each `&`. It does so
  exactly when no segment without `=` stands before one with it (`fromString_iff`); else the
  search for `=` runs over the next `&` and a key swallows it. Encoded pairs all have their
  `=`, hence `fromString_encoded`.
-/

namespace SimpleServ.Utility

open SimpleServ.Cxx Outcome

/-- `std::map<std::string, std::string>`. -/
abbrev Query := Std.ExtTreeMap Bytes Bytes

structure URL where
  path : Bytes
  query : Query

/-! ## Positions in a string -/

/-- `str.find (c, pos)`; `none` is `npos`. -/
def find (str : Bytes) (c : Byte) (pos : Nat) : Option Nat :=
  if pos ≤ str.length then (findFirstOf (str.drop pos) [c]).map (pos + ·) else none

/-- `str.substr (pos, count)`. -/
def substr (str : Bytes) (pos count : Nat) : Outcome Bytes :=
  if pos ≤ str.length then ret ((str.drop pos).take count) else .throw .out_of_range

/-- `a - b` on `size_t`. -/
def sizeSub (a b : Nat) : Nat := if b ≤ a then a - b else a + 2 ^ 64 - b

theorem find_bounds {str : Bytes} {c : Byte} {pos i : Nat} (h : find str c pos = some i) :
    pos ≤ i ∧ i < str.length := by
  unfold find at h
  by_cases hp : pos ≤ str.length
  · rw [if_pos hp] at h
    obtain ⟨n, hn, rfl⟩ := Option.map_eq_some_iff.mp h
    have hlt := (List.findIdx?_eq_some_iff_findIdx_eq.mp hn).1
    rw [List.length_drop] at hlt
    omega
  · rw [if_neg hp] at h
    cases h

theorem substr_of_le {str : Bytes} {pos : Nat} (h : pos ≤ str.length) (count : Nat) :
    substr str pos count = ret ((str.drop pos).take count) := if_pos h

theorem sizeSub_of_le {a b : Nat} (h : b ≤ a) : sizeSub a b = a - b := if_pos h

/-! ## The functions -/

def path (str : Bytes) : Outcome Bytes :=
  match find str (chr '?') 0 with
  | some query_index => substr str 0 query_index
  | none => ret str

/-- A round of the loop: the positions that `substr` is called with, and the pair that is stored. -/
structure SearchRound where
  key_pos : Nat
  value_pos : Nat
  key : Bytes
  value : Bytes
  deriving DecidableEq, Repr

/-- The `while` loop of `searchpart`. The record of its rounds is not the code's. -/
def searchpartLoop (str : Bytes) (query : Query) (query_index : Nat) :
    Outcome (List SearchRound × Query) :=
  let amp_pos := (find str (chr '&') query_index).getD str.length
  match _h : find str (chr '=') query_index with
  | none => ret ([], query)
  | some eq_pos => do
    let key ← substr str query_index (sizeSub eq_pos query_index)
    let value ← substr str (eq_pos + 1) (sizeSub (sizeSub amp_pos eq_pos) 1)
    let (rounds, query) ← searchpartLoop str (query.insert key value) (amp_pos + 1)
    return (⟨query_index, eq_pos + 1, key, value⟩ :: rounds, query)
termination_by str.length + 1 - query_index
decreasing_by
  have he := find_bounds _h
  have ha : query_index ≤ amp_pos := by
    show query_index ≤ (find str (chr '&') query_index).getD str.length
    cases hf : find str (chr '&') query_index with
    | none =>
      rw [Option.getD_none]
      omega
    | some i => exact (find_bounds hf).1
  omega

/-- The loop without the record. -/
def searchpartFrom (str : Bytes) (query : Query) (query_index : Nat) : Outcome Query :=
  Prod.snd <$> searchpartLoop str query query_index

def searchpart (str : Bytes) (start : Nat) : Outcome Query := searchpartFrom str ∅ start

/-- It never returns an `unexpected`. -/
def fromString (str : Bytes) : Outcome (Except Bytes URL) := do
  let path_str ← path str
  let query ← searchpart str (path_str.length + 1)
  return .ok ⟨path_str, query⟩

/-! ## What the query of a URL is -/

/-- The text before the first `?`, and the text behind it. -/
def pathText (str : Bytes) : Bytes := str.takeWhile (· ≠ chr '?')

def searchText (str : Bytes) : Bytes := (str.dropWhile (· ≠ chr '?')).drop 1

/-- A segment with an `=` gives the key before the first one and the value behind it. -/
def addSegment (query : Query) (segment : Bytes) : Query :=
  if chr '=' ∈ segment then
    query.insert (segment.takeWhile (· ≠ chr '=')) ((segment.dropWhile (· ≠ chr '=')).drop 1)
  else query

def splitQuery (text : Bytes) : Query := (text.splitOn (chr '&')).foldl addSegment ∅

/-- No segment without `=` stands before a segment with it. -/
def EqualsFirst (segments : List Bytes) : Prop :=
  segments.Pairwise fun segment later => chr '=' ∈ later → chr '=' ∈ segment

/-- The URL of `str` is its path and the query that its segments give. In particular no key
    has a separator in it and no value an `&`. -/
def ReadsQuery (str : Bytes) : Prop :=
  ∃ url, fromString str = ret (.ok url) ∧ url.path = pathText str ∧
    url.query = splitQuery (searchText str) ∧
    ∀ key value : Bytes, url.query[key]? = some value →
      chr '&' ∉ key ∧ chr '=' ∉ key ∧ chr '&' ∉ value

variable {str segment after text : Bytes} {query : Query} {c : Byte} {i : Nat}

/-! ## The searches of one round -/

theorem append_behind (before segment : Bytes) (c : Byte) (after : Bytes) :
    before ++ (segment ++ c :: after) = (before ++ (segment ++ [c])) ++ after := by
  simp

/-- The position behind a byte that is behind a segment. -/
theorem length_behind (before segment : Bytes) (c : Byte) :
    (before ++ (segment ++ [c])).length = before.length + segment.length + 1 := by
  rw [List.length_append, List.length_append, List.length_singleton, Nat.add_assoc]

theorem find_split (before : Bytes) (ha : c ∉ segment) (after : Bytes) :
    find (before ++ (segment ++ c :: after)) c before.length =
      some (before.length + segment.length) := by
  unfold find
  rw [if_pos (by simp), List.drop_left, findFirstOf_byte ha, Option.map_some]

theorem find_none (before : Bytes) (h : c ∉ after) : find (before ++ after) c before.length = none := by
  unfold find
  rw [if_pos (by simp), List.drop_left, findFirstOf_byte_none h, Option.map_none]

theorem find_behind (h : str.length < i) (c : Byte) : find str c i = none := by
  unfold find
  rw [if_neg (by omega)]

theorem substr_split (before segment after : Bytes) :
    substr (before ++ (segment ++ after)) before.length segment.length = ret segment := by
  rw [substr_of_le (by simp), List.drop_left, List.take_left]

theorem searchpartLoop_end (h : find str (chr '=') i = none) (query : Query) :
    searchpartLoop str query i = ret ([], query) := by
  rw [searchpartLoop]
  split
  · rfl
  · next he =>
    rw [h] at he
    cases he

theorem searchpartLoop_round {eq_pos : Nat} (h : find str (chr '=') i = some eq_pos)
    (query : Query) :
    searchpartLoop str query i = (do
      let amp_pos := (find str (chr '&') i).getD str.length
      let key ← substr str i (sizeSub eq_pos i)
      let value ← substr str (eq_pos + 1) (sizeSub (sizeSub amp_pos eq_pos) 1)
      let (rounds, query) ← searchpartLoop str (query.insert key value) (amp_pos + 1)
      return (⟨i, eq_pos + 1, key, value⟩ :: rounds, query)) := by
  conv_lhs => rw [searchpartLoop]
  split
  · next he =>
    rw [h] at he
    cases he
  · next e he =>
    rw [h, Option.some.injEq] at he
    subst he
    rfl

theorem searchpartFrom_end (h : find str (chr '=') i = none) (query : Query) :
    searchpartFrom str query i = ret query := by
  rw [searchpartFrom, searchpartLoop_end h]
  rfl

theorem searchpartFrom_round {eq_pos : Nat} {key value : Bytes}
    (h : find str (chr '=') i = some eq_pos)
    (hkey : substr str i (sizeSub eq_pos i) = ret key)
    (hvalue : substr str (eq_pos + 1)
      (sizeSub (sizeSub ((find str (chr '&') i).getD str.length) eq_pos) 1) = ret value)
    (query : Query) : searchpartFrom str query i =
      searchpartFrom str (query.insert key value) ((find str (chr '&') i).getD str.length + 1) := by
  rw [searchpartFrom, searchpartFrom, searchpartLoop_round h]
  dsimp only
  rw [hkey, hvalue, ret_bind, ret_bind, map_bind, map_eq_pure_bind]
  rfl

/-- What stands behind a segment: nothing, or an `&`. -/
def SegmentEnd (after : Bytes) : Prop := after = [] ∨ ∃ rest, after = chr '&' :: rest

theorem amp_pos_eq (before : Bytes) (hs : chr '&' ∉ segment) (ha : SegmentEnd after) :
    (find (before ++ (segment ++ after)) (chr '&') before.length).getD
      (before ++ (segment ++ after)).length = before.length + segment.length := by
  rcases ha with rfl | ⟨rest, rfl⟩
  · rw [List.append_nil, find_none before hs, Option.getD_none, List.length_append]
  · rw [find_split before hs, Option.getD_some]

/-- A segment splits at its first `=`. -/
theorem segment_split (he : chr '=' ∈ segment) : ∃ key value,
    segment = key ++ chr '=' :: value ∧ chr '=' ∉ key ∧
      ∀ query, addSegment query segment = query.insert key value := by
  obtain ⟨key, value, rfl, hk⟩ := List.eq_append_cons_of_mem he
  refine ⟨key, value, rfl, hk, fun query => ?_⟩
  have hall : ∀ y ∈ key, y ≠ chr '=' := by
    rintro y hy rfl
    exact hk hy
  unfold addSegment
  rw [if_pos he, List.takeWhile_append_of_pos (by simpa using hall),
    List.dropWhile_append_of_pos (by simpa using hall)]
  simp

/-- A round that begins at a segment with an `=` reads it and goes behind it. -/
theorem searchpartFrom_segment (before : Bytes) (hs : chr '&' ∉ segment)
    (he : chr '=' ∈ segment) (ha : SegmentEnd after) (query : Query) :
    searchpartFrom (before ++ (segment ++ after)) query before.length =
      searchpartFrom (before ++ (segment ++ after)) (addSegment query segment)
        (before.length + segment.length + 1) := by
  have hamp := amp_pos_eq before hs ha
  obtain ⟨key, value, rfl, hk, hq⟩ := segment_split he
  have hstr : before ++ ((key ++ chr '=' :: value) ++ after) =
      before ++ (key ++ chr '=' :: (value ++ after)) := by simp
  have heq : find (before ++ ((key ++ chr '=' :: value) ++ after)) (chr '=') before.length =
      some (before.length + key.length) := by
    rw [hstr]
    exact find_split before hk _
  have hkey : substr (before ++ ((key ++ chr '=' :: value) ++ after)) before.length
      (sizeSub (before.length + key.length) before.length) = ret key := by
    rw [hstr, sizeSub_of_le (by omega), Nat.add_sub_cancel_left]
    exact substr_split _ _ _
  have hvalue : substr (before ++ ((key ++ chr '=' :: value) ++ after))
      (before.length + key.length + 1)
      (sizeSub (sizeSub (before.length + (key ++ chr '=' :: value).length)
        (before.length + key.length)) 1) = ret value := by
    have hn : sizeSub (before.length + (key ++ chr '=' :: value).length)
        (before.length + key.length) = value.length + 1 := by
      rw [List.length_append, List.length_cons, sizeSub_of_le (by omega)]
      omega
    rw [hn, sizeSub_of_le (by omega), Nat.add_sub_cancel, hstr, append_behind,
      ← length_behind _ _ (chr '=')]
    exact substr_split _ _ _
  rw [searchpartFrom_round heq hkey (hamp.symm ▸ hvalue), hamp, hq]

/-- A round that begins at a segment without an `=` puts it into the next key, `&` and all. -/
theorem searchpartFrom_swallow (before : Bytes) (hs : chr '&' ∉ segment)
    (hn : chr '=' ∉ segment) (he : chr '=' ∈ after) (query : Query) : ∃ key value, chr '&' ∈ key ∧
      searchpartFrom (before ++ (segment ++ chr '&' :: after)) query before.length =
        searchpartFrom (before ++ (segment ++ chr '&' :: after)) (query.insert key value)
          (before.length + segment.length + 1) := by
  have hamp := amp_pos_eq before hs (Or.inr ⟨after, rfl⟩)
  obtain ⟨u, rest, rfl, hu⟩ := List.eq_append_cons_of_mem he
  let key := segment ++ chr '&' :: u
  have hk : chr '=' ∉ key := by
    simp only [key, List.mem_append, List.mem_cons, not_or]
    exact ⟨hn, by decide, hu⟩
  have hstr : before ++ (segment ++ chr '&' :: (u ++ chr '=' :: rest)) =
      before ++ (key ++ chr '=' :: rest) := by simp [key]
  have heq := find_split before hk rest
  have hkey : substr (before ++ (key ++ chr '=' :: rest)) before.length
      (sizeSub (before.length + key.length) before.length) = ret key := by
    rw [sizeSub_of_le (by omega), Nat.add_sub_cancel_left]
    exact substr_split _ _ _
  -- the length of the value is a difference that went below zero
  obtain ⟨value, hvalue⟩ : ∃ value, substr (before ++ (key ++ chr '=' :: rest))
      (before.length + key.length + 1) (sizeSub (sizeSub (before.length + segment.length)
        (before.length + key.length)) 1) = ret value :=
    ⟨_, substr_of_le (by simp) _⟩
  refine ⟨key, value, by simp [key], ?_⟩
  rw [hstr] at hamp ⊢
  rw [searchpartFrom_round heq hkey (hamp.symm ▸ hvalue), hamp]

/-! ## Segments -/

theorem not_mem_of_mem_splitOn {d : Byte} (hs : segment ∈ text.splitOn d) : d ∉ segment := by
  induction text generalizing segment with
  | nil =>
    rw [List.splitOn_nil, List.mem_singleton] at hs
    rw [hs]
    exact List.not_mem_nil
  | cons x text ih =>
    rw [List.splitOn_cons_eq_if_modifyHead] at hs
    by_cases hx : x = d
    · rw [if_pos (by simpa using hx), List.mem_cons] at hs
      rcases hs with rfl | hs
      · exact List.not_mem_nil
      · exact ih hs
    · rw [if_neg (by simpa using hx)] at hs
      obtain ⟨first, others, hf⟩ := List.exists_cons_of_ne_nil (List.splitOn_ne_nil d text)
      rw [hf, List.modifyHead_cons, List.mem_cons] at hs
      rcases hs with rfl | hs
      · rw [List.mem_cons, not_or]
        exact ⟨fun h => hx h.symm, ih (by rw [hf]; simp)⟩
      · exact ih (by rw [hf]; simp [hs])

theorem mem_intercalate {segments : List Bytes} {c d : Byte} (hc : c ≠ d) :
    c ∈ [d].intercalate segments ↔ ∃ segment ∈ segments, c ∈ segment := by
  induction segments with
  | nil => simp
  | cons segment rest ih =>
    by_cases hr : rest = []
    · subst hr
      simp
    · rw [List.intercalate_cons_of_ne_nil hr]
      simp [hc, ih]

/-- No key has a separator in it and no value an `&`. -/
def CleanQuery (query : Query) : Prop := ∀ key value : Bytes, query[key]? = some value →
  chr '&' ∉ key ∧ chr '=' ∉ key ∧ chr '&' ∉ value

theorem CleanQuery.addSegment (h : CleanQuery query) (hs : chr '&' ∉ segment) :
    CleanQuery (addSegment query segment) := by
  by_cases he : chr '=' ∈ segment
  · obtain ⟨key, value, rfl, hk, hq⟩ := segment_split he
    rw [hq]
    intro key' value' hg
    rw [Lib.getElem?_insert] at hg
    by_cases hc : key' = key
    · rw [if_pos hc, Option.some.injEq] at hg
      rw [hc, ← hg]
      simp only [List.mem_append, List.mem_cons, not_or] at hs
      exact ⟨hs.1, hk, hs.2.2⟩
    · rw [if_neg hc] at hg
      exact h key' value' hg
  · rwa [Utility.addSegment, if_neg he]

theorem splitQuery_clean (text : Bytes) : CleanQuery (splitQuery text) := by
  have hfold : ∀ segments : List Bytes, ∀ query, CleanQuery query →
      (∀ segment ∈ segments, chr '&' ∉ segment) →
        CleanQuery (segments.foldl addSegment query) := by
    intro segments
    induction segments with
    | nil => exact fun query hq _ => hq
    | cons segment rest ih =>
      intro query hq hs
      exact ih _ (hq.addSegment (hs segment (by simp))) fun s hm => hs s (by simp [hm])
  refine hfold _ _ ?_ fun segment hs => not_mem_of_mem_splitOn hs
  intro key value hg
  simp at hg

theorem foldl_addSegment_plain {segments : List Bytes} (h : ∀ segment ∈ segments, chr '=' ∉ segment)
    (query : Query) : segments.foldl addSegment query = query := by
  induction segments with
  | nil => rfl
  | cons segment rest ih =>
    rw [List.foldl_cons, addSegment, if_neg (h segment (by simp))]
    exact ih fun s hs => h s (by simp [hs])

/-! ## The whole loop -/

/-- The loop returns, and a key that it has set stays set. -/
theorem searchpartFrom_keeps (str : Bytes) (query : Query) (i : Nat) :
    ∃ final, searchpartFrom str query i = ret final ∧ ∀ key ∈ query, key ∈ final := by
  induction query, i using searchpartLoop.induct str with
  | case1 query i he => exact ⟨query, searchpartFrom_end he query, fun _ hk => hk⟩
  | case2 query i amp_pos eq_pos he ih =>
    have hb := find_bounds he
    obtain ⟨final, hf, hk⟩ := ih _ _
    refine ⟨final, ?_, fun key hm => hk key ?_⟩
    · rw [searchpartFrom_round he (substr_of_le (by omega) _) (substr_of_le (by omega) _), hf]
    · rw [Std.ExtTreeMap.mem_insert]
      exact Or.inr hm

theorem equalsFirst_cons {segments : List Bytes} : EqualsFirst (segment :: segments) ↔
    (chr '=' ∈ segment ∨ ∀ later ∈ segments, chr '=' ∉ later) ∧ EqualsFirst segments := by
  unfold EqualsFirst
  rw [List.pairwise_cons]
  refine and_congr_left fun _ => ?_
  by_cases he : chr '=' ∈ segment
  · simp [he]
  · simp [he]

/-- Without any `=` there is nothing to order. -/
theorem equalsFirst_plain {segments : List Bytes} (h : ∀ segment ∈ segments, chr '=' ∉ segment) :
    EqualsFirst segments := by
  induction segments with
  | nil => exact .nil
  | cons segment rest ih =>
    have hr : ∀ later ∈ rest, chr '=' ∉ later := fun s hs => h s (by simp [hs])
    exact equalsFirst_cons.mpr ⟨Or.inr hr, ih hr⟩

/-- The segments from a position on are read one by one, or a key swallows an `&`. -/
theorem searchpartFrom_segments {segments : List Bytes} (hne : segments ≠ [])
    (hs : ∀ segment ∈ segments, chr '&' ∉ segment) (before : Bytes) (query : Query) :
    (EqualsFirst segments →
      searchpartFrom (before ++ [chr '&'].intercalate segments) query before.length =
        ret (segments.foldl addSegment query)) ∧
    (¬ EqualsFirst segments → ∃ final key,
      searchpartFrom (before ++ [chr '&'].intercalate segments) query before.length = ret final ∧
        key ∈ final ∧ chr '&' ∈ key) := by
  induction segments generalizing before query with
  | nil => exact absurd rfl hne
  | cons segment rest ih =>
    have hseg := hs segment (by simp)
    have hrest : ∀ s ∈ rest, chr '&' ∉ s := fun s hm => hs s (by simp [hm])
    by_cases hplain : ∀ s ∈ segment :: rest, chr '=' ∉ s
    · -- the search for `=` ends the loop
      have hnone : chr '=' ∉ [chr '&'].intercalate (segment :: rest) := by
        rw [mem_intercalate (by decide)]
        rintro ⟨s, hm, he⟩
        exact hplain s hm he
      refine ⟨fun _ => ?_, fun hn => absurd (equalsFirst_plain hplain) hn⟩
      rw [searchpartFrom_end (find_none before hnone), foldl_addSegment_plain hplain]
    by_cases he : chr '=' ∈ segment
    · by_cases hr : rest = []
      · subst hr
        refine ⟨fun _ => ?_, fun hn => absurd (List.pairwise_singleton _ _) hn⟩
        have hround := searchpartFrom_segment before hseg he (Or.inl rfl) query
        rw [List.append_nil] at hround
        rw [List.intercalate_singleton, hround, searchpartFrom_end (find_behind (by simp) _)]
        rfl
      · have hround := searchpartFrom_segment before hseg he
          (Or.inr ⟨[chr '&'].intercalate rest, rfl⟩) query
        obtain ⟨hgood, hbad⟩ := ih hr hrest (before ++ (segment ++ [chr '&']))
          (addSegment query segment)
        rw [List.intercalate_cons_of_ne_nil hr, List.append_assoc, List.singleton_append, hround,
          append_behind, ← length_behind _ _ (chr '&'), equalsFirst_cons]
        exact ⟨fun h => hgood h.2, fun h => hbad fun hn => h ⟨Or.inl he, hn⟩⟩
    · obtain ⟨later, hm, hl⟩ : ∃ later ∈ rest, chr '=' ∈ later := by
        by_contra hn
        push Not at hn
        refine hplain fun s hm => ?_
        rcases List.mem_cons.mp hm with rfl | hm
        · exact he
        · exact hn s hm
      have hr : rest ≠ [] := List.ne_nil_of_mem hm
      refine ⟨fun h => ?_, fun _ => ?_⟩
      · rcases (equalsFirst_cons.mp h).1 with h | h
        · exact absurd h he
        · exact absurd hl (h later hm)
      · have hi : chr '=' ∈ [chr '&'].intercalate rest :=
          (mem_intercalate (by decide)).mpr ⟨later, hm, hl⟩
        obtain ⟨key, value, hk, hround⟩ := searchpartFrom_swallow before hseg he hi query
        obtain ⟨final, hf, hkeep⟩ := searchpartFrom_keeps
          (before ++ (segment ++ chr '&' :: [chr '&'].intercalate rest)) (query.insert key value)
          (before.length + segment.length + 1)
        rw [List.intercalate_cons_of_ne_nil hr, List.append_assoc, List.singleton_append, hround]
        exact ⟨final, key, hf, hkeep key (Std.ExtTreeMap.mem_insert_self), hk⟩

/-! ## `from_string` -/

theorem pathText_append {a : Bytes} (ha : chr '?' ∉ a) (b : Bytes) :
    pathText (a ++ chr '?' :: b) = a ∧ searchText (a ++ chr '?' :: b) = b := by
  have hall : ∀ y ∈ a, y ≠ chr '?' := by
    rintro y hy rfl
    exact ha hy
  unfold pathText searchText
  rw [List.takeWhile_append_of_pos (by simpa using hall),
    List.dropWhile_append_of_pos (by simpa using hall)]
  simp

theorem pathText_plain (hq : chr '?' ∉ str) : pathText str = str ∧ searchText str = [] := by
  have hall : ∀ y ∈ str, decide (y ≠ chr '?') = true := by
    intro y hy
    rw [decide_eq_true_eq]
    rintro rfl
    exact hq hy
  unfold pathText searchText
  rw [List.takeWhile_eq_self_iff.mpr hall, List.dropWhile_eq_nil_iff.mpr hall]
  exact ⟨rfl, rfl⟩

theorem path_eq (str : Bytes) : path str = ret (pathText str) := by
  unfold path
  by_cases hq : chr '?' ∈ str
  · obtain ⟨a, b, rfl, ha⟩ := List.eq_append_cons_of_mem hq
    have hf : find (a ++ chr '?' :: b) (chr '?') 0 = some a.length := by
      simpa using find_split [] ha b
    rw [hf, (pathText_append ha b).1]
    simpa using substr_split [] a (chr '?' :: b)
  · have hf : find str (chr '?') 0 = none := find_none [] hq
    rw [hf, (pathText_plain hq).1]

theorem fromString_eq (str : Bytes) : fromString str =
    (searchpartFrom str ∅ ((pathText str).length + 1) >>= fun query =>
      ret (.ok ⟨pathText str, query⟩)) := by
  rw [fromString, path_eq]
  rfl

/-- Behind the `?` the loop reads the segments; without one there is nothing to read. -/
theorem fromString_segments (str : Bytes) :
    (EqualsFirst ((searchText str).splitOn (chr '&')) →
      fromString str = ret (.ok ⟨pathText str, splitQuery (searchText str)⟩)) ∧
    (¬ EqualsFirst ((searchText str).splitOn (chr '&')) → ∃ query key,
      fromString str = ret (.ok ⟨pathText str, query⟩) ∧ key ∈ query ∧ chr '&' ∈ key) := by
  rw [fromString_eq]
  by_cases hq : chr '?' ∈ str
  · obtain ⟨a, b, rfl, ha⟩ := List.eq_append_cons_of_mem hq
    obtain ⟨hpath, hsearch⟩ := pathText_append ha b
    have hl : a.length + 1 = (a ++ [chr '?']).length := by simp
    have hstr : a ++ chr '?' :: b =
        (a ++ [chr '?']) ++ [chr '&'].intercalate (b.splitOn (chr '&')) := by
      simp [List.intercalate_splitOn]
    obtain ⟨hgood, hbad⟩ := searchpartFrom_segments (List.splitOn_ne_nil (chr '&') b)
      (fun s hs => not_mem_of_mem_splitOn hs) (a ++ [chr '?']) ∅
    rw [← hstr, ← hl] at hgood hbad
    rw [hpath, hsearch]
    refine ⟨fun h => ?_, fun h => ?_⟩
    · rw [hgood h]
      rfl
    · obtain ⟨query, key, hf, hk⟩ := hbad h
      rw [hf]
      exact ⟨query, key, rfl, hk⟩
  · obtain ⟨hpath, hsearch⟩ := pathText_plain hq
    rw [hpath, hsearch, searchpartFrom_end (find_behind (by omega) _), List.splitOn_nil]
    refine ⟨fun _ => ?_, fun h => absurd (List.pairwise_singleton _ _) h⟩
    rw [ret_bind]
    congr 3

theorem readsQuery_of_equalsFirst (h : EqualsFirst ((searchText str).splitOn (chr '&'))) :
    ReadsQuery str :=
  ⟨_, (fromString_segments str).1 h, rfl, rfl, splitQuery_clean _⟩

theorem not_readsQuery (h : ¬ EqualsFirst ((searchText str).splitOn (chr '&'))) :
    ¬ ReadsQuery str := by
  rintro ⟨url, hu, -, -, hclean⟩
  obtain ⟨query, key, hq, hk, ha⟩ := (fromString_segments str).2 h
  rw [hq, ret.injEq, Except.ok.injEq] at hu
  subst hu
  have hg := Std.ExtTreeMap.getElem?_eq_some_getElem hk
  exact (hclean key _ hg).1 ha

/-- **`from_string` splits the query at each `&` exactly when no segment without `=` stands
    before a segment with it.** -/
theorem fromString_iff (str : Bytes) :
    ReadsQuery str ↔ EqualsFirst ((searchText str).splitOn (chr '&')) :=
  ⟨fun h => by_contra fun hn => not_readsQuery hn h, readsQuery_of_equalsFirst⟩

/-- `?a&b=c` gives the key `a&b`. -/
theorem not_readsQuery_swallowed : ¬ ∀ str, ReadsQuery str := by
  intro h
  refine not_readsQuery ?_ (h (lit "?a&b=c"))
  have hs : (searchText (lit "?a&b=c")).splitOn (chr '&') = [lit "a", lit "b=c"] := by decide
  rw [hs, equalsFirst_cons]
  rintro ⟨hn, -⟩
  revert hn
  decide

/-! ## Queries of encoded pairs -/

/-- A key and its value as they are written into a query. -/
def pairText (pair : Bytes × Bytes) : Bytes :=
  percentEncode pair.1 ++ lit "=" ++ percentEncode pair.2

/-- The pairs joined by `&`. -/
def encodedQuery (pairs : List (Bytes × Bytes)) : Bytes :=
  (lit "&").intercalate (pairs.map pairText)

def insertPair (query : Query) (pair : Bytes × Bytes) : Query :=
  query.insert (percentEncode pair.1) (percentEncode pair.2)

variable {pairs : List (Bytes × Bytes)} {pair : Bytes × Bytes}

theorem pairText_eq (pair : Bytes × Bytes) :
    pairText pair = percentEncode pair.1 ++ chr '=' :: percentEncode pair.2 := by
  simp [pairText, lit]

theorem pairText_segment (pair : Bytes × Bytes) :
    chr '=' ∈ pairText pair ∧ chr '&' ∉ pairText pair := by
  have hk := percentEncode_no_separator pair.1 (chr '&')
  have hv := percentEncode_no_separator pair.2 (chr '&')
  rw [pairText_eq]
  refine ⟨by simp, ?_⟩
  simp only [List.mem_append, List.mem_cons, not_or]
  exact ⟨fun h => hk h (by decide), by decide, fun h => hv h (by decide)⟩

theorem addSegment_pairText (query : Query) (pair : Bytes × Bytes) :
    addSegment query (pairText pair) = insertPair query pair := by
  have hall : ∀ y ∈ percentEncode pair.1, y ≠ chr '=' := by
    rintro y hy rfl
    exact percentEncode_no_separator pair.1 _ hy (by decide)
  unfold addSegment
  rw [if_pos (pairText_segment pair).1, pairText_eq,
    List.takeWhile_append_of_pos (by simpa using hall),
    List.dropWhile_append_of_pos (by simpa using hall)]
  simp [insertPair]

theorem splitOn_encodedQuery (hne : pairs ≠ []) :
    (encodedQuery pairs).splitOn (chr '&') = pairs.map pairText := by
  refine List.splitOn_intercalate (chr '&') ?_ (by simpa using hne)
  intro segment hs
  obtain ⟨pair, -, rfl⟩ := List.mem_map.mp hs
  exact (pairText_segment pair).2

theorem equalsFirst_encodedQuery (pairs : List (Bytes × Bytes)) :
    EqualsFirst ((encodedQuery pairs).splitOn (chr '&')) := by
  by_cases hne : pairs = []
  · subst hne
    exact List.pairwise_singleton _ _
  · rw [splitOn_encodedQuery hne]
    refine List.pairwise_of_forall_mem_list fun segment hs later _ _ => ?_
    obtain ⟨pair, -, rfl⟩ := List.mem_map.mp hs
    exact (pairText_segment pair).1

theorem splitQuery_encodedQuery (pairs : List (Bytes × Bytes)) :
    splitQuery (encodedQuery pairs) = pairs.foldl insertPair ∅ := by
  unfold splitQuery
  by_cases hne : pairs = []
  · subst hne
    rfl
  · rw [splitOn_encodedQuery hne, List.foldl_map]
    simp only [addSegment_pairText]

theorem insertPairs_getElem? (query : Query) (pairs : List (Bytes × Bytes)) (k : Bytes) :
    (pairs.foldl insertPair query)[percentEncode k]? =
      ((pairs.reverse.lookup k).map percentEncode).or query[percentEncode k]? := by
  induction pairs generalizing query with
  | nil => rfl
  | cons pair pairs ih =>
    obtain ⟨key, value⟩ := pair
    rw [List.foldl_cons, ih, insertPair, Lib.getElem?_insert, List.reverse_cons,
      List.lookup_append, Option.map_or, Option.or_assoc]
    congr 1
    by_cases hk : key = k
    · subst hk
      simp
    · have hc : percentEncode k ≠ percentEncode key := fun h => hk (percentEncode_injective h).symm
      have hb : (k == key) = false := by simpa using fun h : k = key => hk h.symm
      rw [if_neg hc, List.lookup_cons, hb]
      rfl

theorem insertPairs_keys {query : Query} {key : Bytes} (h : key ∈ pairs.foldl insertPair query) :
    key ∈ query ∨ ∃ pair ∈ pairs, key = percentEncode pair.1 := by
  induction pairs generalizing query with
  | nil => exact Or.inl h
  | cons pair pairs ih =>
    rcases ih h with h | ⟨p, hp, rfl⟩
    · rw [insertPair, Std.ExtTreeMap.mem_insert] at h
      rcases h with h | h
      · exact Or.inr ⟨pair, by simp, (Std.LawfulEqCmp.eq_of_compare h).symm⟩
      · exact Or.inl h
    · exact Or.inr ⟨p, by simp [hp], rfl⟩

/-- **Encoded queries carry arbitrary pairs.** Behind a path without `?` the query map has the
    entry `percent_encode (k)` for each `k` of the list and no other, with the last value given
    for `k`, and two keys that are not the same have two entries. -/
theorem fromString_encoded (path : Bytes) (hp : chr '?' ∉ path) (pairs : List (Bytes × Bytes)) :
    ∃ query : Query, fromString (path ++ lit "?" ++ encodedQuery pairs) = ret (.ok ⟨path, query⟩) ∧
      (∀ k, query[percentEncode k]? = (pairs.reverse.lookup k).map percentEncode) ∧
      (∀ key ∈ query, ∃ pair ∈ pairs, key = percentEncode pair.1) ∧
      ∀ k k', percentEncode k = percentEncode k' → k = k' := by
  have hstr : path ++ lit "?" ++ encodedQuery pairs = path ++ chr '?' :: encodedQuery pairs := by
    simp [lit]
  obtain ⟨hpath, hsearch⟩ := pathText_append hp (encodedQuery pairs)
  have he := equalsFirst_encodedQuery pairs
  rw [← hsearch] at he
  have hf := (fromString_segments _).1 he
  rw [hpath, hsearch, splitQuery_encodedQuery] at hf
  refine ⟨_, hstr ▸ hf, fun k => ?_, fun key hk => ?_, fun k k' h => percentEncode_injective h⟩
  · rw [insertPairs_getElem?, Std.ExtTreeMap.getElem?_empty, Option.or_none]
  · rcases insertPairs_keys hk with h | h
    · exact absurd h (by simp)
    · exact h

/-- Keys and values made of separators, one of the keys given twice. -/
theorem fromString_encoded_ampersand : ∃ query : Query,
    fromString (lit "/a" ++ lit "?" ++ encodedQuery [(lit "&", lit "="), ([], []), (lit "&", lit "x")]) =
        ret (.ok ⟨lit "/a", query⟩) ∧
      query[percentEncode (lit "&")]? = some (percentEncode (lit "x")) := by
  obtain ⟨query, hq, hk, -⟩ := fromString_encoded (lit "/a") (by decide)
    [(lit "&", lit "="), ([], []), (lit "&", lit "x")]
  exact ⟨query, hq, by rw [hk]; decide⟩

end SimpleServ.Utility
