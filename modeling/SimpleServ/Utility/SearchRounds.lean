import SimpleServ.Utility.Url

/-
  How often the loop of `searchpart` (url.cpp) goes round.

  A round goes behind the segment that it begins in (`segmentsFrom_next`), in whatever order it
  finds the separators and whatever becomes of the length of the value. So the rounds are not
  more than the segments (`searchpart_bounded`).
-/

namespace SimpleServ.Utility

open SimpleServ.Cxx Outcome

/-- How many segments stand at and behind the position. -/
def segmentsFrom (str : Bytes) (i : Nat) : Nat :=
  if i ≤ str.length then (str.drop i).count (chr '&') + 1 else 0

variable {str : Bytes} {i : Nat}

theorem segmentsFrom_le (str : Bytes) (i : Nat) :
    segmentsFrom str i ≤ (str.drop i).count (chr '&') + 1 := by
  unfold segmentsFrom
  split
  · exact le_rfl
  · exact Nat.zero_le _

/-- Behind the next `&`, or behind the end, there is one segment less. -/
theorem segmentsFrom_next (hi : i ≤ str.length) :
    segmentsFrom str ((find str (chr '&') i).getD str.length + 1) + 1 = segmentsFrom str i := by
  obtain ⟨before, rest, rfl, rfl⟩ : ∃ before rest, str = before ++ rest ∧ before.length = i :=
    ⟨str.take i, str.drop i, (List.take_append_drop i str).symm, by simpa using hi⟩
  by_cases hm : chr '&' ∈ rest
  · obtain ⟨segment, after, rfl, hs⟩ := List.eq_append_cons_of_mem hm
    rw [find_split before hs, Option.getD_some]
    unfold segmentsFrom
    rw [if_pos (by simp), if_pos hi, List.drop_left, append_behind,
      ← length_behind before segment (chr '&'), List.drop_left, List.count_append,
      List.count_cons_self, List.count_eq_zero_of_not_mem hs]
    omega
  · rw [find_none before hm, Option.getD_none]
    unfold segmentsFrom
    rw [if_neg (by omega), if_pos hi, List.drop_left, List.count_eq_zero_of_not_mem hm]

/-- By the loop's own induction: each round but the last goes behind a segment. -/
theorem searchpartLoop_rounds (str : Bytes) (query : Query) (i : Nat) :
    ∃ rounds final, searchpartLoop str query i = ret (rounds, final) ∧
      final = rounds.foldl (fun query round => query.insert round.key round.value) query ∧
      rounds.length ≤ segmentsFrom str i ∧
      ∀ round ∈ rounds, round.key_pos ≤ str.length ∧ round.value_pos ≤ str.length := by
  induction query, i using searchpartLoop.induct str with
  | case1 query i he =>
    exact ⟨[], query, searchpartLoop_end he query, rfl, Nat.zero_le _, by simp⟩
  | case2 query i amp_pos eq_pos he ih =>
    have hb := find_bounds he
    have hk : i ≤ str.length := by omega
    have hv : eq_pos + 1 ≤ str.length := by omega
    obtain ⟨key, hkey⟩ : ∃ key, substr str i (sizeSub eq_pos i) = ret key :=
      ⟨_, substr_of_le hk _⟩
    -- the count may have wrapped
    obtain ⟨value, hvalue⟩ : ∃ value, substr str (eq_pos + 1)
        (sizeSub (sizeSub amp_pos eq_pos) 1) = ret value := ⟨_, substr_of_le hv _⟩
    obtain ⟨rounds, final, hl, hq, hn, hr⟩ := ih key value
    have hnext : segmentsFrom str (amp_pos + 1) + 1 = segmentsFrom str i := segmentsFrom_next hk
    refine ⟨⟨i, eq_pos + 1, key, value⟩ :: rounds, final, ?_, hq, ?_, ?_⟩
    · rw [searchpartLoop_round he]
      dsimp only
      rw [hkey, hvalue, ret_bind, ret_bind, hl]
      rfl
    · rw [List.length_cons]
      omega
    · intro round hm
      rcases List.mem_cons.mp hm with rfl | hm
      · exact ⟨hk, hv⟩
      · exact hr round hm

/-- **`searchpart` ends**, after one round for each segment at most; no more pairs are stored than
    there are segments, and `substr` is always called inside the string. -/
theorem searchpart_bounded (str : Bytes) (start : Nat) : ∃ rounds query,
    searchpartLoop str ∅ start = ret (rounds, query) ∧
      searchpart str start = ret query ∧
      query = rounds.foldl (fun query round => query.insert round.key round.value) ∅ ∧
      rounds.length ≤ (str.drop start).count (chr '&') + 1 ∧
      ∀ round ∈ rounds, round.key_pos ≤ str.length ∧ round.value_pos ≤ str.length := by
  obtain ⟨rounds, query, hl, hq, hn, hr⟩ := searchpartLoop_rounds str ∅ start
  refine ⟨rounds, query, hl, ?_, hq, hn.trans (segmentsFrom_le str start), hr⟩
  rw [searchpart, searchpartFrom, hl]
  rfl

end SimpleServ.Utility
