import SimpleServ.Cxx.Filesystem

/-
  The file manager (file_manager.hpp, file_manager.cpp): descriptor table, disk fetcher,
  read-through cache.

  A `Disk` says what comes of opening and reading the file at a path. The fetcher does not ask
  whether its `std::ifstream` was opened; one that was not reads as empty (`readFile`). Where
  the file was opened and a read fails, as on a directory, the stream's buffer throws
  `std::ios_base::failure` through `istreambuf_iterator`, and nothing above catches it.
  `std::unordered_map` is `Std.ExtTreeMap` where only lookups and assignments matter; the map
  from encodings to representations is a function. `CacheFileFetcher` is generic in the fetcher
  below it, which may change its state from call to call. Log lines and the two unused mutexes
  are left out.

  `getFile_of_faithful`: over a fetcher with fixed answers, a cache whose entries are these
  answers returns them and stays so.
-/

namespace SimpleServ.Utility

open SimpleServ.Cxx Outcome

inductive FileType where
  | TEXT_HTML | TEXT_CSS | TEXT_JS | TEXT_PLAIN
  | IMAGE_PNG | IMAGE_SVG
  | FONT_TTF | FONT_WOFF | FONT_WOFF2
  deriving DecidableEq, Repr

inductive FileEncoding where
  | NONE | BROTLI | DEFLATE | GZIP
  deriving DecidableEq, Repr

def decodeFiletype : FileType → Bytes
  | .TEXT_HTML => lit "text/html"
  | .TEXT_CSS => lit "text/css"
  | .TEXT_JS => lit "text/javascript"
  | .TEXT_PLAIN => lit "text/plain"
  | .IMAGE_PNG => lit "image/png"
  | .IMAGE_SVG => lit "image/svg+xml"
  | .FONT_TTF => lit "font/ttf"
  | .FONT_WOFF => lit "font/woff"
  | .FONT_WOFF2 => lit "font/woff2"

def decodeFileEncoding : FileEncoding → Bytes
  | .NONE => []
  | .BROTLI => lit "br"
  | .DEFLATE => lit "deflate"
  | .GZIP => lit "gzip"

structure FileEntry where
  path : Bytes := []
  deriving DecidableEq, Repr

/-- A file and the paths of its representations. -/
structure FileDescriptor where
  filename : Bytes
  filetype : FileType := .TEXT_PLAIN
  file_paths : FileEncoding → Option FileEntry

structure HTTPFileData where
  filetype : FileType := .TEXT_PLAIN
  file_encoding : FileEncoding := .NONE
  content : Bytes
  deriving DecidableEq, Repr

structure FileManagerException where
  message : Bytes
  deriving DecidableEq, Repr

/-! ## The disk fetcher -/

/-- Reading an `std::ifstream` to its end. -/
def readFile (disk : Disk) (path : Bytes) : Outcome Bytes :=
  match disk.read path with
  | .notOpened => ret []
  | .fails => .throw .ios_failure
  | .reads content => ret content

theorem readFile_of_reads {disk : Disk} {path content : Bytes} (h : disk.read path = .reads content) :
    readFile disk path = ret content := by
  rw [readFile, h]

theorem readFile_eq_ret {disk : Disk} {path content : Bytes} (h : readFile disk path = ret content) :
    disk.read path = .reads content ∨ (disk.read path = .notOpened ∧ content = []) := by
  unfold readFile at h
  split at h
  · next hr =>
    cases h
    exact .inr ⟨hr, rfl⟩
  · cases h
  · next content' hr =>
    cases h
    exact .inl hr

theorem readFile_returns_iff {disk : Disk} {path : Bytes} :
    (readFile disk path).Returns ↔ disk.read path ≠ .fails := by
  unfold readFile
  cases disk.read path <;> simp

abbrev FileTable := Std.ExtTreeMap Bytes FileDescriptor

structure DiskFileFetcher where
  file_descriptors : FileTable

def DiskFileFetcher.getFile (disk : Disk) (fetcher : DiskFileFetcher) (full_path : Bytes) :
    Outcome (Except FileManagerException HTTPFileData) :=
  match fetcher.file_descriptors[full_path]? with
  | none => ret (.error ⟨lit "File not found: " ++ full_path⟩)
  | some file_descriptor =>
    match file_descriptor.file_paths .BROTLI with
    | some entry => do
      let content ← readFile disk entry.path
      return .ok ⟨file_descriptor.filetype, .BROTLI, content⟩
    | none => do
      -- `operator[]` makes an empty entry where there is none
      let entry := (file_descriptor.file_paths .NONE).getD {}
      let content ← readFile disk entry.path
      return .ok ⟨file_descriptor.filetype, .NONE, content⟩

/-- `actual_path` in `DiskFileFetcher::get_file`. -/
def chosenPath (file_descriptor : FileDescriptor) : Bytes :=
  match file_descriptor.file_paths .BROTLI with
  | some entry => entry.path
  | none => ((file_descriptor.file_paths .NONE).getD {}).path

/-- `file_encoding` beside it. -/
def chosenEncoding (file_descriptor : FileDescriptor) : FileEncoding :=
  match file_descriptor.file_paths .BROTLI with
  | some _ => .BROTLI
  | none => .NONE

theorem DiskFileFetcher.getFile_listed {table : FileTable} {path : Bytes}
    {file_descriptor : FileDescriptor} (disk : Disk) (h : table[path]? = some file_descriptor) :
    DiskFileFetcher.getFile disk ⟨table⟩ path =
      (fun content => .ok ⟨file_descriptor.filetype, chosenEncoding file_descriptor, content⟩) <$>
        readFile disk (chosenPath file_descriptor) := by
  unfold DiskFileFetcher.getFile chosenPath chosenEncoding
  rw [h]
  dsimp only
  cases file_descriptor.file_paths .BROTLI with
  | some entry => rfl
  | none => rfl

theorem DiskFileFetcher.getFile_unlisted {table : FileTable} {path : Bytes} (disk : Disk)
    (h : table[path]? = none) : ∃ e, DiskFileFetcher.getFile disk ⟨table⟩ path = ret (.error e) := by
  unfold DiskFileFetcher.getFile
  rw [h]
  exact ⟨_, rfl⟩

/-! ## The cache -/

structure CacheFileFetcherEntry (T : Type) where
  filename : Bytes
  value : T

def createFileCacheEntry {T : Type} (filename : Bytes) (data : T) : CacheFileFetcherEntry T :=
  ⟨filename, data⟩

def fromFileCacheEntry {T : Type} (cache_entry : CacheFileFetcherEntry T) : T := cache_entry.value

structure CacheFileFetcher (F T : Type) where
  file_fetcher : F
  file_cache : Std.ExtTreeMap Bytes (CacheFileFetcherEntry T)

section Cache

variable {F T E : Type}

/-- `fetch` is the `get_file` of the fetcher below. -/
def CacheFileFetcher.getFile (fetch : F → Bytes → Outcome (Except E T) × F)
    (cache : CacheFileFetcher F T) (full_path : Bytes) :
    Outcome (Except E T) × CacheFileFetcher F T :=
  match cache.file_cache[full_path]? with
  | none =>
    let (returned, fetcher) := fetch cache.file_fetcher full_path
    andThen (returned, ⟨fetcher, cache.file_cache⟩) fun returned cache =>
      match returned with
      | .ok returned =>
        let entry := createFileCacheEntry full_path returned
        (ret (.ok (fromFileCacheEntry entry)),
          ⟨cache.file_fetcher, cache.file_cache.insert full_path entry⟩)
      | .error e => (ret (.error e), cache)
  | some file_cache_entry => (ret (.ok (fromFileCacheEntry file_cache_entry)), cache)

/-- Every entry holds what `answer` gives for its key. -/
def Faithful (answer : Bytes → Outcome (Except E T))
    (file_cache : Std.ExtTreeMap Bytes (CacheFileFetcherEntry T)) : Prop :=
  ∀ path entry, file_cache[path]? = some entry → answer path = ret (.ok entry.value)

theorem faithful_empty (answer : Bytes → Outcome (Except E T)) : Faithful answer ∅ := by
  intro path entry h
  simp at h

theorem Faithful.insert {answer : Bytes → Outcome (Except E T)} {path : Bytes} {data : T}
    {file_cache : Std.ExtTreeMap Bytes (CacheFileFetcherEntry T)} (h : Faithful answer file_cache)
    (ha : answer path = ret (.ok data)) :
    Faithful answer (file_cache.insert path (createFileCacheEntry path data)) := by
  intro path' entry he
  rw [Lib.getElem?_insert] at he
  by_cases hp : path' = path
  · rw [if_pos hp, Option.some.injEq] at he
    rw [hp, ha, ← he]
    rfl
  · rw [if_neg hp] at he
    exact h path' entry he

section Calls

variable {fetch : F → Bytes → Outcome (Except E T) × F} {cache : CacheFileFetcher F T}
  {path : Bytes} {next : F}

theorem CacheFileFetcher.getFile_hit {entry : CacheFileFetcherEntry T}
    (h : cache.file_cache[path]? = some entry) :
    cache.getFile fetch path = (ret (.ok entry.value), cache) := by
  unfold CacheFileFetcher.getFile
  rw [h]
  rfl

theorem CacheFileFetcher.getFile_fetched {value : T} (h : cache.file_cache[path]? = none)
    (hf : fetch cache.file_fetcher path = (ret (.ok value), next)) :
    cache.getFile fetch path = (ret (.ok value),
      ⟨next, cache.file_cache.insert path (createFileCacheEntry path value)⟩) := by
  unfold CacheFileFetcher.getFile
  rw [h]
  dsimp only
  rw [hf]
  rfl

/-- Where the fetcher gives no file, nothing is stored. -/
theorem CacheFileFetcher.getFile_failed {answer : Outcome (Except E T)}
    (h : cache.file_cache[path]? = none) (hf : fetch cache.file_fetcher path = (answer, next))
    (ha : ∀ value, answer ≠ ret (.ok value)) :
    cache.getFile fetch path = (answer, ⟨next, cache.file_cache⟩) := by
  unfold CacheFileFetcher.getFile
  rw [h]
  dsimp only
  rw [hf]
  cases answer with
  | ret result =>
    cases result with
    | ok value => exact absurd rfl (ha value)
    | error e => rfl
  | throw e => rfl
  | ub => rfl
  | killed => rfl

end Calls

/-- Over a fetcher with fixed answers the cache returns these answers and keeps them. -/
theorem getFile_of_faithful (fetch : F → Bytes → Outcome (Except E T) × F)
    {cache : CacheFileFetcher F T} {answer : Bytes → Outcome (Except E T)}
    (hf : ∀ path, fetch cache.file_fetcher path = (answer path, cache.file_fetcher))
    (hc : Faithful answer cache.file_cache) (path : Bytes) :
    (cache.getFile fetch path).1 = answer path ∧
      (cache.getFile fetch path).2.file_fetcher = cache.file_fetcher ∧
      Faithful answer (cache.getFile fetch path).2.file_cache := by
  cases hm : cache.file_cache[path]? with
  | some entry =>
    rw [CacheFileFetcher.getFile_hit hm]
    exact ⟨(hc path entry hm).symm, rfl, hc⟩
  | none =>
    by_cases ha : ∃ value, answer path = ret (.ok value)
    · obtain ⟨value, ha⟩ := ha
      rw [CacheFileFetcher.getFile_fetched hm ((hf path).trans (by rw [ha])), ha]
      exact ⟨rfl, rfl, hc.insert ha⟩
    · rw [CacheFileFetcher.getFile_failed hm (hf path) fun value h => ha ⟨value, h⟩]
      exact ⟨rfl, rfl, hc⟩

end Cache

/-! ## The file manager -/

structure FileManager where
  file_fetcher : CacheFileFetcher DiskFileFetcher HTTPFileData

/-- A file manager with the descriptor table `table` and an empty cache. -/
def FileManager.fresh (table : FileTable) : FileManager := ⟨⟨⟨table⟩, ∅⟩⟩

def FileManager.getFile (disk : Disk) (manager : FileManager) (full_path : Bytes) :
    Outcome (Except FileManagerException HTTPFileData) × FileManager :=
  let (result, file_fetcher) := manager.file_fetcher.getFile
    (fun fetcher path => (fetcher.getFile disk path, fetcher)) full_path
  (result, ⟨file_fetcher⟩)

/-- The manager's table is `table` and its cache holds what the disk fetcher answers. -/
structure FileManager.Sound (disk : Disk) (table : FileTable) (manager : FileManager) : Prop where
  table_eq : manager.file_fetcher.file_fetcher = ⟨table⟩
  faithful : Faithful (DiskFileFetcher.getFile disk ⟨table⟩) manager.file_fetcher.file_cache

theorem FileManager.sound_fresh (disk : Disk) (table : FileTable) :
    (fresh table).Sound disk table :=
  ⟨rfl, faithful_empty _⟩

/-- On a sound manager `get_file` answers as the disk fetcher does and stays sound. -/
theorem FileManager.Sound.getFile {disk : Disk} {table : FileTable} {manager : FileManager}
    (h : manager.Sound disk table) (path : Bytes) :
    (manager.getFile disk path).1 = DiskFileFetcher.getFile disk ⟨table⟩ path ∧
      (manager.getFile disk path).2.Sound disk table := by
  obtain ⟨ha, hf, hc⟩ := getFile_of_faithful
    (fun fetcher path => (fetcher.getFile disk path, fetcher))
    (fun p => by rw [h.table_eq]) h.faithful path
  exact ⟨ha, hf.trans h.table_eq, hc⟩

section Manager

variable {disk : Disk} {manager : FileManager} {table : FileTable} {path : Bytes}
  {file_descriptor : FileDescriptor}

theorem FileManager.getFile_cached {entry : CacheFileFetcherEntry HTTPFileData}
    (h : manager.file_fetcher.file_cache[path]? = some entry) :
    manager.getFile disk path = (ret (.ok entry.value), manager) := by
  unfold FileManager.getFile
  rw [CacheFileFetcher.getFile_hit h]

theorem FileManager.getFile_miss (h : manager.file_fetcher.file_cache[path]? = none)
    {data : HTTPFileData}
    (hd : manager.file_fetcher.file_fetcher.getFile disk path = ret (.ok data)) :
    manager.getFile disk path = (ret (.ok data), ⟨manager.file_fetcher.file_fetcher,
      manager.file_fetcher.file_cache.insert path ⟨path, data⟩⟩) := by
  unfold FileManager.getFile
  rw [CacheFileFetcher.getFile_fetched h (by rw [hd])]
  rfl

/-- A call that comes to no file leaves the manager as it was. -/
theorem FileManager.getFile_failed (h : manager.file_fetcher.file_cache[path]? = none)
    (hd : ∀ data, manager.file_fetcher.file_fetcher.getFile disk path ≠ ret (.ok data)) :
    manager.getFile disk path = (manager.file_fetcher.file_fetcher.getFile disk path, manager) := by
  unfold FileManager.getFile
  rw [CacheFileFetcher.getFile_failed h rfl hd]

/-- A call that reads the file. -/
theorem FileManager.getFile_read (ht : manager.file_fetcher.file_fetcher = ⟨table⟩)
    (hd : table[path]? = some file_descriptor)
    (hm : manager.file_fetcher.file_cache[path]? = none) {content : Bytes}
    (hr : readFile disk (chosenPath file_descriptor) = ret content) :
    manager.getFile disk path =
      (ret (.ok ⟨file_descriptor.filetype, chosenEncoding file_descriptor, content⟩),
        ⟨⟨table⟩, manager.file_fetcher.file_cache.insert path
          ⟨path, file_descriptor.filetype, chosenEncoding file_descriptor, content⟩⟩) := by
  rw [FileManager.getFile_miss hm (by rw [ht, DiskFileFetcher.getFile_listed disk hd, hr, map_ret]),
    ht]

/-- A call whose read fails. -/
theorem FileManager.getFile_fails (ht : manager.file_fetcher.file_fetcher = ⟨table⟩)
    (hd : table[path]? = some file_descriptor)
    (hm : manager.file_fetcher.file_cache[path]? = none)
    (hr : disk.read (chosenPath file_descriptor) = .fails) :
    manager.getFile disk path = (.throw .ios_failure, manager) := by
  have he : manager.file_fetcher.file_fetcher.getFile disk path = .throw .ios_failure := by
    rw [ht, DiskFileFetcher.getFile_listed disk hd, readFile, hr]
    rfl
  rw [FileManager.getFile_failed hm (by rw [he]; nofun), he]

/-- A call for a path that is not listed. -/
theorem FileManager.getFile_unlisted (disk : Disk)
    (ht : manager.file_fetcher.file_fetcher = ⟨table⟩) (hd : table[path]? = none)
    (hm : manager.file_fetcher.file_cache[path]? = none) :
    ∃ e, manager.getFile disk path = (ret (.error e), manager) := by
  obtain ⟨e, he⟩ := DiskFileFetcher.getFile_unlisted disk hd
  have hf : manager.file_fetcher.file_fetcher.getFile disk path = ret (.error e) := ht ▸ he
  exact ⟨e, by rw [FileManager.getFile_failed hm (by rw [hf]; nofun), hf]⟩

end Manager

end SimpleServ.Utility
