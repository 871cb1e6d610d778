import SimpleServ.Utility.FileManager

/-
  The file manager over a disk that changes.

  A history is a list of calls of `get_file`, each with the disk as it stands at that call.
  A call for a listed path that is not in the cache reads the chosen representation and caches
  what it read; one whose read fails throws and stores nothing, so the next call reads again.
  An `std::ifstream` that was not opened reads as empty, and the fetcher does not ask, so the
  empty string is served and kept as the file. `honest_iff`: a history is honest exactly when
  every call that reads can open its file.
-/

namespace SimpleServ.Utility

open SimpleServ.Cxx Outcome

/-- The disk at a call of `get_file`, and the path it asks for. -/
abbrev FileCall := Disk × Bytes

def FileManager.after (table : FileTable) (calls : List FileCall) : FileManager :=
  calls.foldl (fun manager call => (manager.getFile call.1 call.2).2) (fresh table)

/-- The call behind `before` serves what was read from an open file, and passes failures on. -/
structure HonestCall (table : FileTable) (before : List FileCall) (disk : Disk) (path : Bytes) :
    Prop where
  /-- Data comes from a call for the same path that read these bytes from the chosen file. -/
  served : ∀ data, ((FileManager.after table before).getFile disk path).1 = ret (.ok data) →
    ∃ call ∈ before ++ [(disk, path)], call.2 = path ∧ ∃ file_descriptor,
      table[path]? = some file_descriptor ∧
      call.1.read (chosenPath file_descriptor) = .reads data.content
  /-- A listed file that is fetched and cannot be opened gives an error and is not cached. -/
  failed : ∀ file_descriptor, table[path]? = some file_descriptor →
    (FileManager.after table before).file_fetcher.file_cache[path]? = none →
    disk.read (chosenPath file_descriptor) = .notOpened →
    (∃ e, ((FileManager.after table before).getFile disk path).1 = ret (.error e)) ∧
      ((FileManager.after table before).getFile disk path).2 = FileManager.after table before
  /-- One that is fetched and cannot be read is neither served nor cached. -/
  unread : ∀ file_descriptor, table[path]? = some file_descriptor →
    (FileManager.after table before).file_fetcher.file_cache[path]? = none →
    disk.read (chosenPath file_descriptor) = .fails →
    (∀ data, ((FileManager.after table before).getFile disk path).1 ≠ ret (.ok data)) ∧
      ((FileManager.after table before).getFile disk path).2 = FileManager.after table before

/-- Every call of the history is honest. -/
def Honest (table : FileTable) (calls : List FileCall) : Prop :=
  ∀ before disk path later, calls = before ++ (disk, path) :: later →
    HonestCall table before disk path

/-- No call before has read the file: each of those for the same path has found one that opens
    and cannot be read. -/
def Unread (file_descriptor : FileDescriptor) (path : Bytes) (before : List FileCall) : Prop :=
  ∀ call ∈ before, call.2 = path → call.1.read (chosenPath file_descriptor) = .fails

/-- Each call for a listed path that has not been read yet can open the chosen file. -/
def FetchesOpen (table : FileTable) (calls : List FileCall) : Prop :=
  ∀ before disk path later, calls = before ++ (disk, path) :: later →
    ∀ file_descriptor, table[path]? = some file_descriptor → Unread file_descriptor path before →
      disk.read (chosenPath file_descriptor) ≠ .notOpened

variable {table : FileTable} {manager : FileManager} {disk : Disk} {path : Bytes}
  {file_descriptor : FileDescriptor} {before : List FileCall}

/-! ## What the cache holds after a history -/

/-- The cache holds what the first call that has read each listed path has read. -/
structure CacheHistory (table : FileTable) (before : List FileCall) (manager : FileManager) :
    Prop where
  table_eq : manager.file_fetcher.file_fetcher = ⟨table⟩
  entries : ∀ path entry, manager.file_fetcher.file_cache[path]? = some entry →
    ∃ file_descriptor first disk later, table[path]? = some file_descriptor ∧
      before = first ++ (disk, path) :: later ∧ Unread file_descriptor path first ∧
      readFile disk (chosenPath file_descriptor) = ret entry.value.content
  misses : ∀ path file_descriptor, manager.file_fetcher.file_cache[path]? = none →
    table[path]? = some file_descriptor → Unread file_descriptor path before

theorem cacheHistory_fresh (table : FileTable) : CacheHistory table [] (FileManager.fresh table) where
  table_eq := rfl
  entries := by
    intro path entry h
    simp [FileManager.fresh] at h
  misses := by
    intro path file_descriptor _ _ call hc
    cases hc

theorem Unread.concat {call : FileCall} (h : Unread file_descriptor path before)
    (hc : call.2 = path → call.1.read (chosenPath file_descriptor) = .fails) :
    Unread file_descriptor path (before ++ [call]) := by
  intro call' hm
  rcases List.mem_append.mp hm with hm | hm
  · exact h call' hm
  · rwa [List.mem_singleton.mp hm]

/-- A call that leaves the manager as it is: one that is answered from the cache, one for a
    path that is not listed, one whose read fails. -/
theorem CacheHistory.same (h : CacheHistory table before manager) (call : FileCall)
    (hc : ∀ file_descriptor, manager.file_fetcher.file_cache[call.2]? = none →
      table[call.2]? = some file_descriptor →
        call.1.read (chosenPath file_descriptor) = .fails) :
    CacheHistory table (before ++ [call]) manager where
  table_eq := h.table_eq
  entries := by
    intro path entry he
    obtain ⟨d, first, disk, later, hd, rfl, hfirst, hr⟩ := h.entries path entry he
    exact ⟨d, first, disk, later ++ [call], hd, by simp, hfirst, hr⟩
  misses := by
    intro path file_descriptor hm hd
    refine (h.misses path file_descriptor hm hd).concat ?_
    rintro rfl
    exact hc file_descriptor hm hd

/-- The call that reads a listed path. -/
theorem CacheHistory.insert (h : CacheHistory table before manager)
    (hd : table[path]? = some file_descriptor)
    (hm : manager.file_fetcher.file_cache[path]? = none) {data : HTTPFileData}
    (hdata : readFile disk (chosenPath file_descriptor) = ret data.content) :
    CacheHistory table (before ++ [(disk, path)]) ⟨⟨table⟩,
      manager.file_fetcher.file_cache.insert path ⟨path, data⟩⟩ where
  table_eq := rfl
  entries := by
    intro path' entry he
    rw [Lib.getElem?_insert] at he
    by_cases hc : path' = path
    · subst hc
      rw [if_pos rfl, Option.some.injEq] at he
      exact ⟨file_descriptor, before, disk, [], hd, rfl, h.misses _ _ hm hd, he ▸ hdata⟩
    · rw [if_neg hc] at he
      obtain ⟨d, first, disk', later, hd', rfl, hfirst, hr⟩ := h.entries path' entry he
      exact ⟨d, first, disk', later ++ [(disk, path)], hd', by simp, hfirst, hr⟩
  misses := by
    intro path' file_descriptor' hm' hd'
    rw [Lib.getElem?_insert] at hm'
    by_cases hc : path' = path
    · rw [if_pos hc] at hm'
      cases hm'
    · rw [if_neg hc] at hm'
      exact (h.misses path' file_descriptor' hm' hd').concat fun he => absurd he.symm hc

theorem CacheHistory.call (h : CacheHistory table before manager) (disk : Disk) (path : Bytes) :
    CacheHistory table (before ++ [(disk, path)]) (manager.getFile disk path).2 := by
  cases hm : manager.file_fetcher.file_cache[path]? with
  | some entry =>
    rw [FileManager.getFile_cached hm]
    exact h.same _ fun _ hn => nomatch hm.symm.trans hn
  | none =>
    cases hd : table[path]? with
    | none =>
      obtain ⟨e, he⟩ := FileManager.getFile_unlisted disk h.table_eq hd hm
      rw [he]
      exact h.same _ fun _ _ hn => nomatch hd.symm.trans hn
    | some file_descriptor =>
      by_cases hr : disk.read (chosenPath file_descriptor) = .fails
      · rw [FileManager.getFile_fails h.table_eq hd hm hr]
        refine h.same _ fun _ _ hd' => ?_
        rwa [← Option.some.inj (hd.symm.trans hd')]
      · obtain ⟨content, hc⟩ := readFile_returns_iff.mpr hr
        rw [FileManager.getFile_read h.table_eq hd hm hc]
        exact h.insert hd hm hc

/-- By induction on the history, its last call first. -/
theorem cacheHistory_after (table : FileTable) (before : List FileCall) :
    CacheHistory table before (FileManager.after table before) := by
  induction before using List.reverseRecOn with
  | nil => exact cacheHistory_fresh table
  | append_singleton before call ih =>
    have ha : FileManager.after table (before ++ [call]) =
        ((FileManager.after table before).getFile call.1 call.2).2 := by
      rw [FileManager.after, List.foldl_append]
      rfl
    rw [ha]
    exact ih.call call.1 call.2

/-! ## Honest histories -/

/-- What an open file gives is what it holds. -/
theorem reads_of_open {content : Bytes} (hr : readFile disk path = ret content)
    (ho : disk.read path ≠ .notOpened) : disk.read path = .reads content :=
  (readFile_eq_ret hr).resolve_right fun h => ho h.1

/-- A call is honest when the calls that read have opened their files. -/
theorem honestCall_of_fetchesOpen {later : List FileCall}
    (h : FetchesOpen table (before ++ (disk, path) :: later)) :
    HonestCall table before disk path where
  served := by
    intro data hdata
    have hh := cacheHistory_after table before
    cases hm : (FileManager.after table before).file_fetcher.file_cache[path]? with
    | some entry =>
      obtain ⟨d, first, disk', rest, hd, rfl, hfirst, hr⟩ := hh.entries path entry hm
      rw [FileManager.getFile_cached hm, ret.injEq, Except.ok.injEq] at hdata
      have ho := h first disk' path (rest ++ (disk, path) :: later) (by simp) d hd hfirst
      exact ⟨(disk', path), by simp, rfl, d, hd, hdata ▸ reads_of_open hr ho⟩
    | none =>
      cases hd : table[path]? with
      | none =>
        obtain ⟨e, he⟩ := FileManager.getFile_unlisted disk hh.table_eq hd hm
        rw [he] at hdata
        cases hdata
      | some d =>
        have ho := h before disk path later rfl d hd (hh.misses path d hm hd)
        by_cases hf : disk.read (chosenPath d) = .fails
        · rw [FileManager.getFile_fails hh.table_eq hd hm hf] at hdata
          cases hdata
        · obtain ⟨content, hr⟩ := readFile_returns_iff.mpr hf
          rw [FileManager.getFile_read hh.table_eq hd hm hr, ret.injEq, Except.ok.injEq] at hdata
          subst hdata
          exact ⟨(disk, path), by simp, rfl, d, rfl, reads_of_open hr ho⟩
  failed := by
    intro d hd hm hn
    exact absurd hn (h before disk path later rfl d hd ((cacheHistory_after table before).misses
      path d hm hd))
  unread := by
    intro d hd hm hf
    rw [FileManager.getFile_fails (cacheHistory_after table before).table_eq hd hm hf]
    exact ⟨fun _ => nofun, rfl⟩

/-- What was not read is not in the cache. -/
theorem CacheHistory.uncached (h : CacheHistory table before manager)
    (hd : table[path]? = some file_descriptor) (hu : Unread file_descriptor path before) :
    manager.file_fetcher.file_cache[path]? = none := by
  cases hm : manager.file_fetcher.file_cache[path]? with
  | none => rfl
  | some entry =>
    obtain ⟨d, first, disk', rest, hd', rfl, -, hr⟩ := h.entries path entry hm
    obtain rfl := Option.some.inj (hd.symm.trans hd')
    have hf := hu (disk', path) (by simp) rfl
    exact absurd hf (readFile_returns_iff.mp ⟨_, hr⟩)

/-- A fetch that cannot open its file is answered with data. -/
theorem not_honestCall (hu : Unread file_descriptor path before)
    (hd : table[path]? = some file_descriptor)
    (hn : disk.read (chosenPath file_descriptor) = .notOpened) :
    ¬ HonestCall table before disk path := by
  intro h
  have hh := cacheHistory_after table before
  have hm := hh.uncached hd hu
  have hr : readFile disk (chosenPath file_descriptor) = ret [] := by rw [readFile, hn]
  obtain ⟨⟨e, he⟩, -⟩ := h.failed file_descriptor hd hm hn
  rw [FileManager.getFile_read hh.table_eq hd hm hr] at he
  cases he

/-- **A history is honest exactly when every call that reads a listed file can open it.** -/
theorem honest_iff (table : FileTable) (calls : List FileCall) :
    Honest table calls ↔ FetchesOpen table calls := by
  constructor
  · intro h before disk path later hc d hd hu hn
    exact not_honestCall hu hd hn (h before disk path later hc)
  · rintro h before disk path later rfl
    exact honestCall_of_fetchesOpen h

/-- A listed page on a disk that has lost it. -/
theorem not_honest_removed : ¬ ∀ table calls, Honest table calls := by
  intro h
  let page : FileDescriptor := ⟨lit "index.html", .TEXT_HTML, fun _ => some ⟨lit "index.html"⟩⟩
  let table : FileTable := (∅ : FileTable).insert (lit "../webdir/index.html") page
  have hd : table[lit "../webdir/index.html"]? = some page := Std.ExtTreeMap.getElem?_insert_self
  have hu : Unread page (lit "../webdir/index.html") [] := by
    intro call hc
    cases hc
  exact not_honestCall hu hd rfl
    (h table [(Disk.empty, lit "../webdir/index.html")] [] _ _ [] rfl)

end SimpleServ.Utility
