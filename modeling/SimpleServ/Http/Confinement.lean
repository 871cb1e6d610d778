import SimpleServ.Http.EncodedBody
import SimpleServ.Utility.EncodedFiles

/-
  Confinement: what a client gets depends on the web directory alone.

  The handler puts `../webdir` in front of a target and does not look for `..` in it. The path
  is then a key of the descriptor table, found there byte by byte or not at all, and the keys
  are the paths of the files that the walk has met.

  `serve_confined`: two servers, started on disks that agree below their web directories, give
  the same answers to the same requests, whatever stands elsewhere and in whatever order
  directories and tables are gone through.
-/

namespace SimpleServ.Http

open SimpleServ.Cxx SimpleServ.Utility Outcome

def webdirName : Name := ⟨lit "webdir", by decide⟩

def webdirPath : OsPath := ⟨lit "../webdir", by decide⟩

/-- Where the web directory is: beside the working directory. -/
def webdir (fs : Filesystem) : Location := fs.cwd.dropLast ++ [webdirName]

/-- The start of the server on the disk `fs`, then a list of requests. -/
def serve (compress : BrotliEncoderCompress) (order : DirectoryOrder) (iteration : TableOrder)
    (fs : Filesystem) (requests : List Bytes) : Outcome (List (Outcome (Option Bytes))) := do
  let (table, fs) ← startFiles compress order iteration fs webdirPath
  ret (handleAll fs.disk requests (FileManager.fresh table)).1

/-- Two disks agree on what is below two locations, and on where it cannot be written. -/
structure AgreeBelow (fs₁ fs₂ : Filesystem) (base₁ base₂ : Location) : Prop where
  nodes : ∀ rel, fs₁.nodes[base₁ ++ rel]? = fs₂.nodes[base₂ ++ rel]?
  refused : ∀ rel, fs₁.refused (base₁ ++ rel) = fs₂.refused (base₂ ++ rel)

/-! ## The handler on two disks -/

section Handler

variable {disk₁ disk₂ : Disk} {table : FileTable} {file_manager : FileManager}

/-- The disks give the same for every file that the table chooses. -/
def SameFiles (disk₁ disk₂ : Disk) (table : FileTable) : Prop :=
  ∀ (path : Bytes) (file_descriptor : FileDescriptor), table[path]? = some file_descriptor →
    disk₁.read (chosenPath file_descriptor) = disk₂.read (chosenPath file_descriptor)

theorem SameFiles.fetch (h : SameFiles disk₁ disk₂ table) (path : Bytes) :
    DiskFileFetcher.getFile disk₁ ⟨table⟩ path = DiskFileFetcher.getFile disk₂ ⟨table⟩ path := by
  cases ht : table[path]? with
  | none =>
    unfold DiskFileFetcher.getFile
    rw [ht]
  | some file_descriptor =>
    rw [DiskFileFetcher.getFile_listed disk₁ ht, DiskFileFetcher.getFile_listed disk₂ ht, readFile,
      readFile, h path file_descriptor ht]

theorem SameFiles.getFile (h : SameFiles disk₁ disk₂ table)
    (hs : file_manager.Sound disk₁ table) (path : Bytes) :
    file_manager.getFile disk₁ path = file_manager.getFile disk₂ path := by
  unfold FileManager.getFile CacheFileFetcher.getFile
  cases file_manager.file_fetcher.file_cache[path]? with
  | some entry => rfl
  | none =>
    rw [hs.table_eq]
    dsimp only
    rw [h.fetch path]

theorem SameFiles.handle (h : SameFiles disk₁ disk₂ table) (hs : file_manager.Sound disk₁ table)
    (str : Bytes) : handle disk₁ str file_manager = handle disk₂ str file_manager := by
  unfold Http.handle prepareResponse
  simp only [h.getFile hs]

/-- By induction on the requests: the managers of the two runs stay equal. -/
theorem SameFiles.handleAll (h : SameFiles disk₁ disk₂ table)
    (hs : file_manager.Sound disk₁ table) (requests : List Bytes) :
    handleAll disk₁ requests file_manager = handleAll disk₂ requests file_manager := by
  induction requests generalizing file_manager with
  | nil => rfl
  | cons str rest ih =>
    have hnext := ih (handle_sound hs str)
    rw [Http.handleAll, Http.handleAll, ← h.handle hs]
    dsimp only
    rw [hnext]

end Handler

/-! ## The start on two disks -/

section Start

variable {compress : BrotliEncoderCompress} {fs₁ fs₂ fs₁' fs₂' : Filesystem}
  {base₁ base₂ rel : Location} {root : OsPath} {table₁ table₂ : FileTable}

theorem AgreeBelow.symm (h : AgreeBelow fs₁ fs₂ base₁ base₂) : AgreeBelow fs₂ fs₁ base₂ base₁ :=
  ⟨fun rel => (h.nodes rel).symm, fun rel => (h.refused rel).symm⟩

theorem AgreeBelow.root_eq (h : AgreeBelow fs₁ fs₂ base₁ base₂) :
    fs₁.nodes[base₁]? = fs₂.nodes[base₂]? := by
  have hn := h.nodes []
  rwa [List.append_nil, List.append_nil] at hn

/-- The same is written beside a file on both disks. -/
theorem AgreeBelow.buffer_eq (h : AgreeBelow fs₁ fs₂ base₁ base₂) (hne : rel ≠ []) :
    encodedBuffer compress fs₁ (base₁ ++ rel) = encodedBuffer compress fs₂ (base₂ ++ rel) := by
  refine encodedBuffer_congr ?_ (fun _ _ _ => h.nodes rel) ?_ ?_
  · rw [List.getLast?_append_of_ne_nil _ hne, List.getLast?_append_of_ne_nil _ hne]
  · rw [brLocation_append _ hne, brLocation_append _ hne, h.nodes]
  · rw [brLocation_append _ hne, brLocation_append _ hne, h.refused]

theorem buffer_ne_nil {fs : Filesystem} {base : Location} {buffer : Bytes}
    (hroot : fs.nodes[base]? = some .dir)
    (hb : encodedBuffer compress fs (base ++ rel) = some buffer) : rel ≠ [] := by
  obtain ⟨-, content, hfile⟩ := file_of_encodedBuffer hb
  exact Filesystem.below_ne_nil hroot hfile

/-- After the start the disks still agree below their roots. -/
theorem AgreeBelow.started (h : AgreeBelow fs₁ fs₂ base₁ base₂)
    (hroot : fs₁.nodes[base₁]? = some .dir)
    (h₁ : Started compress fs₁ root base₁ table₁ fs₁')
    (h₂ : Started compress fs₂ root base₂ table₂ fs₂') (rel : Location) :
    fs₁'.nodes[base₁ ++ rel]? = fs₂'.nodes[base₂ ++ rel]? := by
  have hroot₂ : fs₂.nodes[base₂]? = some .dir := by rw [← h.root_eq, hroot]
  by_cases ho : ∃ rel' buffer, encodedBuffer compress fs₁ (base₁ ++ rel') = some buffer ∧
      rel = brLocation rel'
  · obtain ⟨rel', buffer, hb, rfl⟩ := ho
    have hne := buffer_ne_nil hroot hb
    have hw₁ := h₁.written rel' buffer hb
    have hw₂ := h₂.written rel' buffer (by rw [← h.buffer_eq hne, hb])
    rw [brLocation_append _ hne] at hw₁ hw₂
    rw [hw₁, hw₂]
  · rw [h₁.kept, h₂.kept, h.nodes]
    · intro rel' buffer hb he
      have hne := buffer_ne_nil hroot₂ hb
      rw [brLocation_append _ hne] at he
      exact ho ⟨rel', buffer, by rw [h.buffer_eq hne, hb], List.append_cancel_left he⟩
    · intro rel' buffer hb he
      rw [brLocation_append _ (buffer_ne_nil hroot hb)] at he
      exact ho ⟨rel', buffer, hb, List.append_cancel_left he⟩

/-- An entry of the one table is an entry of the other. -/
theorem AgreeBelow.entry (h : AgreeBelow fs₁ fs₂ base₁ base₂)
    (hroot : fs₁.nodes[base₁]? = some .dir)
    (h₁ : Started compress fs₁ root base₁ table₁ fs₁')
    (h₂ : Started compress fs₂ root base₂ table₂ fs₂') {path : Bytes}
    {file_descriptor : FileDescriptor} (ht : table₁[path]? = some file_descriptor) :
    table₂[path]? = some file_descriptor := by
  obtain ⟨rel, content, hfile, hpath, rfl⟩ := (h₁.entries path file_descriptor).mp ht
  have hne := Filesystem.below_ne_nil hroot hfile
  refine (h₂.entries path _).mpr ⟨rel, content, by rw [← h.nodes, hfile], hpath, ?_⟩
  rw [finalDescriptor, finalDescriptor, h.buffer_eq hne]

theorem AgreeBelow.table_eq (h : AgreeBelow fs₁ fs₂ base₁ base₂)
    (hroot : fs₁.nodes[base₁]? = some .dir)
    (h₁ : Started compress fs₁ root base₁ table₁ fs₁')
    (h₂ : Started compress fs₂ root base₂ table₂ fs₂') : table₁ = table₂ := by
  have hroot₂ : fs₂.nodes[base₂]? = some .dir := by rw [← h.root_eq, hroot]
  refine Std.ExtTreeMap.ext_getElem? fun path => Option.ext fun file_descriptor => ?_
  exact ⟨h.entry hroot h₁ h₂, h.symm.entry hroot₂ h₂ h₁⟩

theorem chosenPath_some {fs : Filesystem} {loc : Location} {buffer : Bytes}
    (hb : encodedBuffer compress fs loc = some buffer) (path : Bytes) :
    chosenPath (finalDescriptor compress fs loc path) = encodedFrom path ++ lit ".br" := by
  rw [finalDescriptor_some hb]
  rfl

theorem chosenPath_none {fs : Filesystem} {loc : Location}
    (hb : encodedBuffer compress fs loc = none) (path : Bytes) :
    chosenPath (finalDescriptor compress fs loc path) = path := by
  rw [finalDescriptor_none hb]
  rfl

/-- Every path that the table chooses leads below the root, to the same place on both disks. -/
theorem AgreeBelow.sameFiles (h : AgreeBelow fs₁ fs₂ base₁ base₂)
    (hroot₁ : fs₁.directory root.val = some base₁) (hroot₂ : fs₂.directory root.val = some base₂)
    (h₁ : Started compress fs₁ root base₁ table₁ fs₁')
    (h₂ : Started compress fs₂ root base₂ table₂ fs₂') :
    SameFiles fs₁'.disk fs₂'.disk table₁ := by
  intro path file_descriptor ht
  have hdir := (Filesystem.directory_eq_some.mp hroot₁).2
  obtain ⟨rel, content, hfile, rfl, rfl⟩ := (h₁.entries path file_descriptor).mp ht
  have hfile₂ : fs₂.nodes[base₂ ++ rel]? = some (.file content) := by rw [← h.nodes, hfile]
  have hne := Filesystem.below_ne_nil hdir hfile
  have hnodes := h.started hdir h₁ h₂
  cases hb : encodedBuffer compress fs₁ (base₁ ++ rel) with
  | none =>
    rw [chosenPath_none hb]
    refine Filesystem.disk_congr ?_ ?_ (hnodes rel)
    · rw [h₁.same.resolve, OsPath.resolve_below hroot₁ hfile]
    · rw [h₂.same.resolve, OsPath.resolve_below hroot₂ hfile₂]
  | some buffer =>
    rw [chosenPath_some hb]
    obtain ⟨above, name, rfl⟩ := (List.eq_nil_or_concat' rel).resolve_left hne
    refine Filesystem.disk_congr ?_ ?_ (hnodes (above ++ [brName name]))
    · rw [h₁.same.resolve, (resolve_encodedFrom hroot₁ hfile).2]
    · rw [h₂.same.resolve, (resolve_encodedFrom hroot₂ hfile₂).2]

end Start

/-! ## Confinement -/

theorem directory_webdir (fs : Filesystem) : fs.directory webdirPath.val =
    if fs.nodes[webdir fs]? = some .dir then some (webdir fs) else none := by
  have hr : fs.resolve webdirPath.val = some (webdir fs) :=
    Filesystem.resolve_append (by decide) fs.directory_dots webdirName
  rw [Filesystem.directory, hr]
  simp only [Option.filter_some, decide_eq_true_eq]

/-- **What stands outside the web directory never reaches a client.** -/
theorem serve_confined (compress : BrotliEncoderCompress) (order₁ order₂ : DirectoryOrder)
    (iteration₁ iteration₂ : TableOrder) (fs₁ fs₂ : Filesystem) (requests : List Bytes)
    (h : AgreeBelow fs₁ fs₂ (webdir fs₁) (webdir fs₂)) :
    serve compress order₁ iteration₁ fs₁ requests =
      serve compress order₂ iteration₂ fs₂ requests := by
  have hd₁ := directory_webdir fs₁
  have hd₂ := directory_webdir fs₂
  by_cases hdir : fs₁.nodes[webdir fs₁]? = some .dir
  · have hdir₂ := hdir
    rw [h.root_eq] at hdir₂
    rw [if_pos hdir] at hd₁
    rw [if_pos hdir₂] at hd₂
    obtain ⟨table₁, fs₁', hs₁, h₁⟩ := startFiles_started compress order₁ iteration₁ hd₁
    obtain ⟨table₂, fs₂', hs₂, h₂⟩ := startFiles_started compress order₂ iteration₂ hd₂
    have hf := h.sameFiles hd₁ hd₂ h₁ h₂
    have hm := FileManager.sound_fresh fs₁'.disk table₁
    rw [serve, serve, hs₁, hs₂, ret_bind, ret_bind]
    dsimp only
    rw [hf.handleAll hm, h.table_eq hdir h₁ h₂]
  · have hdir₂ := hdir
    rw [h.root_eq] at hdir₂
    rw [if_neg hdir] at hd₁
    rw [if_neg hdir₂] at hd₂
    rw [serve, serve, startFiles_throws _ _ _ hd₁, startFiles_throws _ _ _ hd₂]

/-- A page in the web directory, and the same with a file beside that directory. -/
def emptySite : Filesystem :=
  Filesystem.empty.put [webdirName] .dir
    (Filesystem.vacant_child [] Filesystem.empty.root_dir (Filesystem.getElem?_empty (by simp)))

theorem vacant_page : emptySite.Vacant [webdirName, indexName] := by
  refine Filesystem.vacant_child [webdirName] ?_ ?_
  · rw [emptySite, Filesystem.getElem?_put, if_pos rfl]
  · rw [emptySite, Filesystem.getElem?_put, if_neg (by simp)]
    exact Filesystem.getElem?_empty (by simp)

def pageSite : Filesystem := emptySite.put [webdirName, indexName] (.file tenLetters) vacant_page

def secretName : Name := ⟨lit "secret", by decide⟩

theorem secretName_ne : secretName ≠ webdirName := by decide

theorem vacant_secret : pageSite.Vacant [secretName] := by
  refine Filesystem.vacant_child [] pageSite.root_dir ?_
  rw [pageSite, Filesystem.getElem?_put, if_neg (by simp), emptySite, Filesystem.getElem?_put,
    if_neg (by simp [secretName_ne])]
  exact Filesystem.getElem?_empty (by simp)

def secretSite : Filesystem := pageSite.put [secretName] (.file (lit "secret")) vacant_secret

theorem sites_agree : AgreeBelow secretSite pageSite (webdir secretSite) (webdir pageSite) where
  nodes := by
    intro rel
    show (pageSite.put [secretName] _ _).nodes[webdirName :: rel]? = pageSite.nodes[webdirName :: rel]?
    rw [Filesystem.getElem?_put, if_neg]
    intro h
    exact secretName_ne (List.cons.inj h).1.symm
  refused := fun _ => rfl

theorem serve_confined_secret :
    serve letterCompress .sorted .sorted secretSite
        [lit "GET /../secret HTTP/1.1\r\n\r\n", lit "GET /index.html HTTP/1.1\r\n\r\n"] =
      serve letterCompress .reversed .sorted pageSite
        [lit "GET /../secret HTTP/1.1\r\n\r\n", lit "GET /index.html HTTP/1.1\r\n\r\n"] :=
  serve_confined _ _ _ _ _ _ _ _ sites_agree

end SimpleServ.Http
