import Mathlib.Data.List.DropRight
import SimpleServ.Cxx.Text

/-
  `std::filesystem::path` as libstdc++ has it on POSIX systems, on the native string.

  A path is its bytes: nothing is normalised, `..` and doubled separators stay. `filename`
  is what follows the last separator, `parent_path` drops it and the separators before it,
  `operator/=` puts one separator between two parts that have none.

  `append_decompose`: a path and an entry of the directory it names are joined by at most
  one separator, so that the joined path ends in the entry's name.
-/

namespace SimpleServ.Cxx

namespace FsPath

/-- `filename ()` -/
def filename (path : Bytes) : Bytes := path.rtakeWhile (· ≠ chr '/')

/-- `extension ()`: from the last dot of the filename on, unless that dot is its first byte. -/
def extension (path : Bytes) : Bytes :=
  let name := filename path
  -- `stem` ends in the last dot
  let stem := name.rdropWhile (· ≠ chr '.')
  if name = lit ".." ∨ stem.length ≤ 1 then [] else chr '.' :: name.rtakeWhile (· ≠ chr '.')

/-- `parent_path ()`. A path of separators only is its own parent; of a root behind other
    parts one separator stays. -/
def parentPath (path : Bytes) : Bytes :=
  if path.all (· = chr '/') then path
  else
    let dir := path.rdropWhile (· ≠ chr '/')
    let parent := dir.rdropWhile (· = chr '/')
    if parent = [] then dir.take 1 else parent

/-- `operator/=` -/
def append (path other : Bytes) : Bytes :=
  if startsWithChar other (chr '/') then other
  else if path = [] ∨ endsWithChar path (chr '/') then path ++ other
  else path ++ chr '/' :: other

end FsPath

open FsPath

/-! ## Runs at the end of a string -/

theorem rtakeWhile_append {p : Byte → Bool} {a b : Bytes} (hb : ∀ y ∈ b, p y = true)
    (ha : ∀ y ∈ a.getLast?, p y = false) : (a ++ b).rtakeWhile p = b := by
  rw [List.rtakeWhile, List.reverse_append, List.takeWhile_append_of_pos (by simpa using hb)]
  have hn : a.reverse.takeWhile p = [] := by
    rcases List.eq_nil_or_concat a with rfl | ⟨front, x, rfl⟩
    · rfl
    · have hx : p x = false := ha x (by simp)
      simp [hx]
  rw [hn, List.append_nil, List.reverse_reverse]

theorem rdropWhile_append {p : Byte → Bool} {a b : Bytes} (hb : ∀ y ∈ b, p y = true)
    (ha : ∀ y ∈ a.getLast?, p y = false) : (a ++ b).rdropWhile p = a := by
  rw [List.rdropWhile, List.reverse_append, List.dropWhile_append_of_pos (by simpa using hb)]
  rcases List.eq_nil_or_concat a with rfl | ⟨front, x, rfl⟩
  · rfl
  · have hx : p x = false := ha x (by simp)
    simp [hx]

theorem filename_of_no_separator {name : Bytes} (hn : chr '/' ∉ name) : filename name = name := by
  rw [filename, List.rtakeWhile_eq_self_iff]
  exact fun y hy => decide_eq_true fun h => hn (h ▸ hy)

theorem extension_concat {stem suffix : Bytes} (hstem : stem ≠ []) (hs : suffix ≠ [])
    (hslash : chr '/' ∉ stem ++ chr '.' :: suffix) (hdot : chr '.' ∉ suffix) :
    extension (stem ++ chr '.' :: suffix) = chr '.' :: suffix := by
  have hname := filename_of_no_separator hslash
  have hsplit : stem ++ chr '.' :: suffix = (stem ++ [chr '.']) ++ suffix := by simp
  have hbytes : ∀ y ∈ suffix, decide (y ≠ chr '.') = true :=
    fun y hy => decide_eq_true fun h => hdot (h ▸ hy)
  have hlast : ∀ y ∈ (stem ++ [chr '.']).getLast?, decide (y ≠ chr '.') = false := by
    intro y hy
    rw [List.getLast?_concat] at hy
    rw [← Option.some.inj hy]
    rfl
  have hne : ¬ (stem ++ chr '.' :: suffix = lit ".." ∨ (stem ++ [chr '.']).length ≤ 1) := by
    rintro (h | h)
    · have hl : stem.length + (suffix.length + 1) = 2 := by
        have hlen := congrArg List.length h
        rwa [List.length_append, List.length_cons] at hlen
      have := List.length_pos_iff.mpr hstem
      have := List.length_pos_iff.mpr hs
      omega
    · have := List.length_pos_iff.mpr hstem
      rw [List.length_append, List.length_singleton] at h
      omega
  rw [extension, hname, hsplit, rdropWhile_append hbytes hlast, rtakeWhile_append hbytes hlast,
    ← hsplit, if_neg hne]

/-! ## A path and an entry below it -/

variable {path name : Bytes}

theorem not_startsWith_separator (hn : chr '/' ∉ name) : startsWithChar name (chr '/') = false := by
  cases name with
  | nil => rfl
  | cons x rest =>
    have hx : x ≠ chr '/' := fun h => hn (h ▸ List.mem_cons_self)
    simpa [startsWithChar] using hx

theorem append_entry (hn : chr '/' ∉ name) : append path name =
    if path = [] ∨ endsWithChar path (chr '/') then path ++ name else path ++ chr '/' :: name := by
  rw [append, not_startsWith_separator hn, if_neg Bool.false_ne_true]

/-- The joined path is the name behind a text that is empty or ends in a separator. -/
theorem append_decompose (path : Bytes) (hn : chr '/' ∉ name) : ∃ dir, append path name = dir ++ name ∧
    (∀ y ∈ dir.getLast?, y = chr '/') ∧ (dir = path ∨ dir = path ++ [chr '/']) := by
  rw [append_entry hn]
  by_cases hp : path = [] ∨ endsWithChar path (chr '/') = true
  · rw [if_pos hp]
    refine ⟨path, rfl, fun y hy => ?_, Or.inl rfl⟩
    rcases hp with rfl | hp
    · cases hy
    · have hl : path.getLast? = some (chr '/') := by simpa [endsWithChar] using hp
      rw [hl] at hy
      exact (Option.some.inj hy).symm
  · rw [if_neg hp]
    refine ⟨path ++ [chr '/'], by rw [List.append_assoc]; rfl, fun y hy => ?_, Or.inr rfl⟩
    rw [List.getLast?_concat] at hy
    exact (Option.some.inj hy).symm

theorem filename_append (hn : chr '/' ∉ name) : filename (append path name) = name := by
  obtain ⟨dir, ha, hd, -⟩ := append_decompose path hn
  rw [ha, filename]
  refine rtakeWhile_append (fun y hy => ?_) (fun y hy => ?_)
  · exact decide_eq_true fun h => hn (h ▸ hy)
  · rw [hd y hy]
    rfl

/-- Text put behind the joined path goes to the name. -/
theorem append_concat {suffix : Bytes} (hn : chr '/' ∉ name) (hs : chr '/' ∉ suffix) :
    append path name ++ suffix = append path (name ++ suffix) := by
  have hns : chr '/' ∉ name ++ suffix := by simp [hn, hs]
  rw [append_entry hn, append_entry hns]
  split
  · rw [List.append_assoc]
  · rw [List.append_assoc]
    rfl

/-- The path up to the separators at its end. -/
theorem split_separators (path : Bytes) : ∃ front k, path = front ++ List.replicate k (chr '/') ∧
    ∀ y ∈ front.getLast?, y ≠ chr '/' := by
  obtain ⟨run, rest, hp, hrun, hrest⟩ := split_run (· = chr '/') path.reverse
  refine ⟨rest.reverse, run.length, ?_, ?_⟩
  · have hr : run = List.replicate run.length (chr '/') := List.eq_replicate_of_mem hrun
    have hrev : path = rest.reverse ++ run.reverse := by
      rw [← List.reverse_append, ← hp, List.reverse_reverse]
    rw [hrev, hr, List.reverse_replicate, List.length_replicate]
  · intro y hy
    cases rest with
    | nil => cases hy
    | cons x rest =>
      rw [List.reverse_cons, List.getLast?_concat] at hy
      obtain rfl := Option.some.inj hy
      exact hrest x rest rfl

/-- The parent of a joined path is the first path, up to separators at its end. -/
theorem parentPath_append (hp : path ≠ []) (hn : chr '/' ∉ name) (hne : name ≠ []) :
    parentPath (append path name) ≠ [] ∧
      ∃ k, path = parentPath (append path name) ++ List.replicate k (chr '/') := by
  obtain ⟨dir, ha, hd, hdir⟩ := append_decompose path hn
  obtain ⟨front, k, hk, hf⟩ := split_separators path
  -- the text before the name is `front` and a run of separators
  obtain ⟨k', hk'⟩ : ∃ k', dir = front ++ List.replicate k' (chr '/') := by
    rcases hdir with rfl | rfl
    · exact ⟨k, hk⟩
    · refine ⟨k + 1, ?_⟩
      rw [hk, List.append_assoc, List.replicate_succ']
  have hall : ¬ (append path name).all (· = chr '/') = true := by
    obtain ⟨x, rest, rfl⟩ := List.exists_cons_of_ne_nil hne
    have hx : x ≠ chr '/' := fun h => hn (h ▸ List.mem_cons_self)
    rw [ha]
    simp [hx]
  have hfirst : (dir ++ name).rdropWhile (· ≠ chr '/') = dir :=
    rdropWhile_append (fun y hy => decide_eq_true fun h => hn (h ▸ hy)) fun y hy => by
      rw [hd y hy]
      rfl
  have hsecond : dir.rdropWhile (· = chr '/') = front := by
    rw [hk']
    exact rdropWhile_append (fun y hy => decide_eq_true (List.eq_of_mem_replicate hy))
      fun y hy => decide_eq_false (hf y hy)
  rw [parentPath, if_neg hall, ha]
  dsimp only
  rw [hfirst, hsecond]
  cases front with
  | cons x rest => exact ⟨List.cons_ne_nil _ _, k, hk⟩
  | nil =>
    rw [List.nil_append] at hk hk'
    rw [if_pos rfl]
    cases k with
    | zero => exact absurd hk hp
    | succ k =>
      cases k' with
      | zero =>
        rcases hdir with rfl | rfl
        · exact absurd hk' hp
        · simp at hk'
      | succ k' =>
        rw [hk', hk]
        exact ⟨List.cons_ne_nil _ _, k, rfl⟩

end SimpleServ.Cxx
