import SimpleServ.Utility.Url

/-
  What a `URL` is asked for (url.hpp).

  `GetQuery (key)` is `query[key]` on a `std::map`: it gives the empty string for a key that is
  missing, and puts the key in. So a missing key and one without a value look the same to it,
  and the map grows with the questions.

  `getQuery_encoded`: the answers to questions about encoded pairs, in any number and order,
  and the map behind them.
-/

namespace SimpleServ.Utility

open SimpleServ.Cxx SimpleServ.Lib Outcome

def URL.getPath (url : URL) : Bytes := url.path

/-- `GetQuery ()` -/
def URL.getQueryMap (url : URL) : Query := url.query

def URL.getQuery (url : URL) (key : Bytes) : Bytes × URL :=
  let (value, query) := subscript [] url.query key
  (value, { url with query := query })

/-- Calls of `GetQuery (key)`, one after another. -/
def URL.getQueries : List Bytes → URL → List Bytes × URL
  | [], url => ([], url)
  | key :: keys, url =>
    let (value, url) := url.getQuery key
    let (values, url) := URL.getQueries keys url
    (value :: values, url)

theorem getQueries_eq (keys : List Bytes) (url : URL) :
    URL.getQueries keys url = ((subscripts [] keys url.query).1,
      { url with query := (subscripts [] keys url.query).2 }) := by
  induction keys generalizing url with
  | nil => rfl
  | cons key keys ih =>
    show (_ :: (URL.getQueries keys (url.getQuery key).2).1,
      (URL.getQueries keys (url.getQuery key).2).2) = _
    rw [ih]
    rfl

theorem fromString_pairs {path : Bytes} (hp : chr '?' ∉ path) (pairs : List (Bytes × Bytes)) :
    fromString (path ++ lit "?" ++ encodedQuery pairs) =
      ret (.ok ⟨path, pairs.foldl insertPair ∅⟩) := by
  have hstr : path ++ lit "?" ++ encodedQuery pairs = path ++ chr '?' :: encodedQuery pairs := by
    simp [lit]
  obtain ⟨hpath, hsearch⟩ := pathText_append hp (encodedQuery pairs)
  have he := equalsFirst_encodedQuery pairs
  rw [← hsearch] at he
  have hf := (fromString_segments _).1 he
  rw [hpath, hsearch, splitQuery_encodedQuery] at hf
  exact hstr ▸ hf

/-- **Questions do not change the answers, but the map.** A URL of encoded pairs answers each
    question about a key `k` with the last value given for `k`, or with nothing, whatever it was
    asked before; the keys that it was asked for and that were not given are in its map behind
    the questions, and nothing else is new. -/
theorem getQuery_encoded (path : Bytes) (hp : chr '?' ∉ path) (pairs : List (Bytes × Bytes)) :
    ∃ url, fromString (path ++ lit "?" ++ encodedQuery pairs) = ret (.ok url) ∧
      ∀ keys : List Bytes,
        (URL.getQueries (keys.map percentEncode) url).1 =
          keys.map (fun k => ((pairs.reverse.lookup k).map percentEncode).getD []) ∧
        (URL.getQueries (keys.map percentEncode) url).2.getPath = path ∧
        ∀ k, (URL.getQueries (keys.map percentEncode) url).2.getQueryMap[percentEncode k]? =
          ((pairs.reverse.lookup k).map percentEncode).or
            (if k ∈ keys then some [] else none) := by
  have hvalue (k : Bytes) : (pairs.foldl insertPair ∅)[percentEncode k]? =
      (pairs.reverse.lookup k).map percentEncode := by
    rw [insertPairs_getElem?, Std.ExtTreeMap.getElem?_empty, Option.or_none]
  refine ⟨_, fromString_pairs hp pairs, fun keys => ?_⟩
  rw [getQueries_eq]
  refine ⟨?_, rfl, fun k => ?_⟩
  · rw [subscripts_fst, List.map_map]
    exact List.map_congr_left fun k _ => congrArg (Option.getD · []) (hvalue k)
  · have hmem : percentEncode k ∈ keys.map percentEncode ↔ k ∈ keys :=
      List.mem_map_of_injective fun _ _ h => percentEncode_injective h
    show (subscripts [] _ _).2[percentEncode k]? = _
    rw [getElem?_subscripts, hvalue]
    by_cases hk : k ∈ keys
    · rw [if_pos hk, if_pos (hmem.mpr hk)]
    · rw [if_neg hk, if_neg (hmem.not.mpr hk)]

/-- A missing key is asked for twice, and is then in the map. -/
theorem getQuery_encoded_missing : ∃ url,
    fromString (lit "/" ++ lit "?" ++ encodedQuery [(lit "a", lit "1")]) = ret (.ok url) ∧
      (URL.getQueries (([lit "b", lit "a", lit "b"] : List Bytes).map percentEncode) url).1 =
        [[], lit "1", []] ∧
      (URL.getQueries (([lit "b", lit "a", lit "b"] : List Bytes).map percentEncode)
        url).2.getQueryMap[percentEncode (lit "b")]? = some [] := by
  obtain ⟨url, hu, hk⟩ := getQuery_encoded (lit "/") (by decide) [(lit "a", lit "1")]
  obtain ⟨hvalues, -, hmap⟩ := hk [lit "b", lit "a", lit "b"]
  exact ⟨url, hu, by rw [hvalues]; decide, by rw [hmap]; decide⟩

end SimpleServ.Utility
