import SimpleServ.Cxx.Path
import SimpleServ.Lib.OrderedMap

/-
  A POSIX file system of directories and files, as a process sees it.

  A location is the list of names from the root to an entry; `resolve` walks a path to one,
  from the working directory where the path is relative. The system reads a path up to its
  first NUL. Links, permissions to read and devices are left out; `refused` says where a file
  cannot be opened for writing (a name that is too long, a directory that is read-only).

  The order in which a directory lists its entries is a parameter (`DirectoryOrder`).

  `resolve_append`: behind the path of a directory, a name leads to that entry of it.
  `SameDirectories.resolve`: what a path leads to is decided by the directories alone.
-/

namespace SimpleServ.Cxx

open FsPath Lib

/-! ## Reading a file -/

/-- What comes of opening the file at a path and reading it to its end. -/
inductive ReadResult where
  | notOpened
  /-- It is opened, and a read fails. -/
  | fails
  | reads (content : Bytes)
  deriving DecidableEq, Repr

/-- No file has the empty path. -/
structure Disk where
  read : Bytes → ReadResult
  read_nil : read [] = .notOpened

/-- The disk without files. -/
def Disk.empty : Disk := ⟨fun _ => .notOpened, rfl⟩

/-! ## Names and locations -/

/-- What a directory can list. -/
def FileName (name : Bytes) : Prop :=
  name ≠ [] ∧ name ≠ lit "." ∧ name ≠ lit ".." ∧ chr '/' ∉ name ∧ 0 ∉ name

instance : DecidablePred FileName := fun _ => inferInstanceAs (Decidable (_ ∧ _))

abbrev Name := {name : Bytes // FileName name}

instance : Ord Name := ⟨compareOn Subtype.val⟩

instance : Std.TransOrd Name :=
  inferInstanceAs (Std.TransCmp (compareOn (Subtype.val : Name → Bytes)))

instance : Std.LawfulEqOrd Name where
  eq_of_compare h := Subtype.ext (Std.LawfulEqCmp.eq_of_compare h)

theorem Name.ne_nil (name : Name) : name.val ≠ [] := name.property.1

theorem Name.no_separator (name : Name) : chr '/' ∉ name.val := name.property.2.2.2.1

theorem Name.no_nul (name : Name) : 0 ∉ name.val := name.property.2.2.2.2

/-- The names from the root to an entry. -/
abbrev Location := List Name

inductive Node where
  | file (content : Bytes)
  | dir
  deriving DecidableEq, Repr

structure Filesystem where
  nodes : Std.ExtTreeMap Location Node
  /-- The working directory. -/
  cwd : Location
  /-- Where a file cannot be opened for writing. -/
  refused : Location → Bool
  root_dir : nodes[([] : Location)]? = some .dir
  parent_dir : ∀ (loc : Location) (name : Name) (node : Node),
    nodes[loc ++ [name]]? = some node → nodes[loc]? = some .dir
  cwd_dir : nodes[cwd]? = some .dir

namespace Filesystem

variable {fs fs' : Filesystem} {loc : Location} {name : Name}

/-- Whatever stands above an entry is a directory. -/
theorem dir_of_above {rest : Location} {node : Node} (h : fs.nodes[loc ++ rest]? = some node)
    (hne : rest ≠ []) : fs.nodes[loc]? = some .dir := by
  induction rest using List.reverseRecOn generalizing node with
  | nil => exact absurd rfl hne
  | append_singleton rest name ih =>
    rw [← List.append_assoc] at h
    have hp := fs.parent_dir _ _ _ h
    rcases eq_or_ne rest [] with rfl | hr
    · rwa [List.append_nil] at hp
    · exact ih hp hr

/-- No file is where a directory is. -/
theorem below_ne_nil {rel : Location} {content : Bytes} (hd : fs.nodes[loc]? = some .dir)
    (h : fs.nodes[loc ++ rel]? = some (.file content)) : rel ≠ [] := by
  rintro rfl
  rw [List.append_nil, hd] at h
  cases h

theorem dir_dropLast (h : fs.nodes[loc]? = some .dir) : fs.nodes[loc.dropLast]? = some .dir := by
  rcases List.eq_nil_or_concat loc with rfl | ⟨front, name, rfl⟩
  · exact h
  · rw [List.concat_eq_append] at h ⊢
    rw [List.dropLast_concat]
    exact fs.parent_dir _ _ _ h

/-- A file system is its entries, its working directory and what it refuses. -/
theorem ext_nodes (hn : ∀ loc : Location, fs.nodes[loc]? = fs'.nodes[loc]?) (hc : fs.cwd = fs'.cwd)
    (hr : fs.refused = fs'.refused) : fs = fs' := by
  have hnodes : fs.nodes = fs'.nodes := Std.ExtTreeMap.ext_getElem? hn
  obtain ⟨nodes, cwd, refused, _, _, _⟩ := fs
  obtain ⟨nodes', cwd', refused', _, _, _⟩ := fs'
  subst hnodes hc hr
  rfl

/-! ## Resolving a path -/

/-- What the system sees of a path. -/
def cString (path : Bytes) : Bytes := path.takeWhile (· ≠ 0)

/-- One component of a path, from the location reached so far. -/
def step (fs : Filesystem) (loc : Location) (component : Bytes) : Option Location :=
  if fs.nodes[loc]? = some .dir then
    if component = [] ∨ component = lit "." then some loc
    else if component = lit ".." then some loc.dropLast
    else if h : FileName component then some (loc ++ [⟨component, h⟩])
    else none
  else none

def resolve (fs : Filesystem) (path : Bytes) : Option Location :=
  let path := cString path
  if path = [] then none
  else
    ((path.splitOn (chr '/')).foldlM fs.step
      (if startsWithChar path (chr '/') then [] else fs.cwd))

/-- The directory at a path. -/
def directory (fs : Filesystem) (path : Bytes) : Option Location :=
  (fs.resolve path).filter fun loc => fs.nodes[loc]? = some .dir

def isDirectory (fs : Filesystem) (path : Bytes) : Bool := (fs.directory path).isSome

/-- What the regular file at a path holds. -/
def file (fs : Filesystem) (path : Bytes) : Option Bytes :=
  match (fs.resolve path).bind fun loc => fs.nodes[loc]? with
  | some (.file content) => some content
  | _ => none

/-- A directory can be opened, but not read. -/
def disk (fs : Filesystem) : Disk where
  read path :=
    match (fs.resolve path).bind fun loc => fs.nodes[loc]? with
    | none => .notOpened
    | some .dir => .fails
    | some (.file content) => .reads content
  read_nil := rfl

theorem disk_reads_iff {path content : Bytes} :
    fs.disk.read path = .reads content ↔ fs.file path = some content := by
  unfold disk file
  dsimp only
  cases (fs.resolve path).bind fun loc => fs.nodes[loc]? with
  | none => simp
  | some node => cases node <;> simp

theorem directory_eq_some {path : Bytes} :
    fs.directory path = some loc ↔ fs.resolve path = some loc ∧ fs.nodes[loc]? = some .dir := by
  rw [directory, Option.filter_eq_some_iff, decide_eq_true_iff]

theorem step_name (h : fs.nodes[loc]? = some .dir) : fs.step loc name.val = some (loc ++ [name]) := by
  obtain ⟨component, hne, hdot, hdots, hrest⟩ := name
  have hn : ¬ (component = [] ∨ component = lit ".") := not_or.mpr ⟨hne, hdot⟩
  rw [step, if_pos h, if_neg hn, if_neg hdots, dif_pos ⟨hne, hdot, hdots, hrest⟩]

theorem step_nil (h : fs.nodes[loc]? = some .dir) : fs.step loc [] = some loc := by
  rw [step, if_pos h, if_pos (Or.inl rfl)]

/-- `fs'` differs from `fs` in files only. -/
structure SameDirectories (fs fs' : Filesystem) : Prop where
  cwd_eq : fs'.cwd = fs.cwd
  refused_eq : fs'.refused = fs.refused
  dirs : ∀ loc : Location, fs'.nodes[loc]? = some Node.dir ↔ fs.nodes[loc]? = some Node.dir

theorem SameDirectories.refl (fs : Filesystem) : SameDirectories fs fs := ⟨rfl, rfl, fun _ => Iff.rfl⟩

theorem SameDirectories.trans {fs'' : Filesystem} (h : SameDirectories fs fs')
    (h' : SameDirectories fs' fs'') : SameDirectories fs fs'' :=
  ⟨h'.cwd_eq.trans h.cwd_eq, h'.refused_eq.trans h.refused_eq,
    fun loc => (h'.dirs loc).trans (h.dirs loc)⟩

/-- What a path leads to is decided by the directories alone. -/
theorem SameDirectories.resolve (h : SameDirectories fs fs') (path : Bytes) :
    fs'.resolve path = fs.resolve path := by
  have hstep : fs'.step = fs.step := by
    funext loc component
    unfold step
    simp only [h.dirs]
  unfold Filesystem.resolve
  rw [h.cwd_eq, hstep]

theorem SameDirectories.directory (h : SameDirectories fs fs') (path : Bytes) :
    fs'.directory path = fs.directory path := by
  unfold Filesystem.directory
  simp only [h.resolve, h.dirs]

/-! ## A path and an entry below it -/

theorem cString_of_no_nul {path : Bytes} (h : 0 ∉ path) : cString path = path := by
  rw [cString, List.takeWhile_eq_self_iff]
  exact fun y hy => decide_eq_true fun h0 => h (h0 ▸ hy)

theorem directory_ne_nil {path : Bytes} (h : fs.directory path = some loc) : path ≠ [] := by
  rintro rfl
  cases (directory_eq_some.mp h).1

/-- Without a NUL, all components count. -/
theorem resolve_eq {path : Bytes} (hnul : 0 ∉ path) (hne : path ≠ []) : fs.resolve path =
    (path.splitOn (chr '/')).foldlM fs.step
      (if startsWithChar path (chr '/') then [] else fs.cwd) := by
  unfold resolve
  rw [cString_of_no_nul hnul, if_neg hne]

theorem startsWithChar_append {path : Bytes} (hne : path ≠ []) (text : Bytes) (c : Byte) :
    startsWithChar (path ++ text) c = startsWithChar path c := by
  cases path with
  | nil => exact absurd rfl hne
  | cons x rest => rfl

/-- Where the components of `path` lead, of which more follow. -/
def along (fs : Filesystem) (path : Bytes) : Option Location :=
  (path.splitOn (chr '/')).foldlM fs.step
    (if startsWithChar (path ++ [chr '/']) (chr '/') then [] else fs.cwd)

theorem along_eq_resolve {path : Bytes} (hnul : 0 ∉ path) (hne : path ≠ []) :
    fs.along path = fs.resolve path := by
  rw [along, resolve_eq hnul hne, startsWithChar_append hne]

theorem resolve_component (fs : Filesystem) {path component : Bytes} (hnul : 0 ∉ path)
    (hnul' : 0 ∉ component) (hc : chr '/' ∉ component) :
    fs.resolve (path ++ chr '/' :: component) =
      (fs.along path).bind fun loc => fs.step loc component := by
  have h0 : (0 : Byte) ≠ chr '/' := by decide
  have hn : 0 ∉ path ++ chr '/' :: component := by simp [hnul, hnul', h0]
  have hs : startsWithChar (path ++ chr '/' :: component) (chr '/') =
      startsWithChar (path ++ [chr '/']) (chr '/') := by
    cases path <;> rfl
  rw [resolve_eq hn (by simp), hs, List.splitOn_append_cons_self, List.splitOn_eq_singleton hc,
    List.foldlM_append, along]
  simp only [List.foldlM_cons, List.foldlM_nil, bind_pure]
  rfl

theorem along_of_directory {path : Bytes} (hnul : 0 ∉ path)
    (h : fs.directory (path ++ [chr '/']) = some loc) : fs.along path = some loc := by
  have hr := (directory_eq_some.mp h).1
  rw [resolve_component fs hnul (by simp) (by simp)] at hr
  obtain ⟨loc', hl, hs⟩ := Option.bind_eq_some_iff.mp hr
  have hloc : loc' = loc := by
    unfold step at hs
    split at hs
    · rwa [if_pos (Or.inl rfl), Option.some.injEq] at hs
    · cases hs
  rw [hl, hloc]

/-- Behind the path of a directory, a name leads to that entry of it. -/
theorem resolve_append {path : Bytes} (hnul : 0 ∉ path) (h : fs.directory path = some loc)
    (name : Name) : fs.resolve (append path name.val) = some (loc ++ [name]) := by
  have hne := directory_ne_nil h
  obtain ⟨hr, hd⟩ := directory_eq_some.mp h
  rw [append_entry name.no_separator]
  by_cases hp : endsWithChar path (chr '/') = true
  · -- the separator is there already
    rw [if_pos (Or.inr hp)]
    obtain ⟨front, rfl⟩ : ∃ front, path = front ++ [chr '/'] := by
      rcases List.eq_nil_or_concat path with rfl | ⟨front, x, rfl⟩
      · exact absurd rfl hne
      · rw [List.concat_eq_append] at hp ⊢
        have hx : x = chr '/' := by simpa [endsWithChar] using hp
        exact ⟨front, by rw [hx]⟩
    have hf : 0 ∉ front := fun h0 => hnul (List.mem_append_left _ h0)
    rw [List.append_assoc]
    have hc := resolve_component fs hf name.no_nul name.no_separator
    rw [along_of_directory hf h, Option.bind_some, step_name hd] at hc
    exact hc
  · rw [if_neg (not_or.mpr ⟨hne, hp⟩), resolve_component fs hnul name.no_nul name.no_separator,
      along_eq_resolve hnul hne, hr, Option.bind_some, step_name hd]

/-- The parent of the working directory. -/
theorem directory_dots (fs : Filesystem) : fs.directory (lit "..") = some fs.cwd.dropLast := by
  refine directory_eq_some.mpr ⟨?_, dir_dropLast fs.cwd_dir⟩
  have hs : fs.step fs.cwd (lit "..") = some fs.cwd.dropLast := by
    rw [step, if_pos fs.cwd_dir, if_neg (by decide), if_pos rfl]
  rw [resolve_eq (by decide) (by decide)]
  show [lit ".."].foldlM fs.step fs.cwd = _
  rw [List.foldlM_cons, hs]
  rfl

theorem directory_root (fs : Filesystem) : fs.directory (lit "/") = some [] := by
  refine directory_eq_some.mpr ⟨?_, fs.root_dir⟩
  have ha : fs.along [] = some [] := by
    show [[]].foldlM fs.step [] = some []
    rw [List.foldlM_cons, step_nil fs.root_dir]
    rfl
  have hc := resolve_component fs (List.not_mem_nil (a := 0)) (List.not_mem_nil (a := 0)) (by simp)
  rwa [ha, Option.bind_some, step_nil fs.root_dir] at hc

/-- Separators at its end do not change where a directory's path leads. -/
theorem directory_of_separators {path : Bytes} (hne : path ≠ []) (k : Nat)
    (hnul : 0 ∉ path) (h : fs.directory (path ++ List.replicate k (chr '/')) = some loc) :
    fs.directory path = some loc := by
  have h0 : (0 : Byte) ≠ chr '/' := by decide
  induction k with
  | zero => rwa [List.replicate_zero, List.append_nil] at h
  | succ k ih =>
    apply ih
    rw [List.replicate_succ', ← List.append_assoc] at h
    have hn : 0 ∉ path ++ List.replicate k (chr '/') := by
      simp [hnul, List.mem_replicate, h0]
    refine directory_eq_some.mpr ⟨?_, (directory_eq_some.mp h).2⟩
    rw [← along_eq_resolve hn (by simp [hne])]
    exact along_of_directory hn h

/-- The parent of a joined path is the path of the same directory. -/
theorem directory_parentPath {path : Bytes} (hnul : 0 ∉ path) (h : fs.directory path = some loc)
    (name : Name) : 0 ∉ parentPath (append path name.val) ∧
      fs.directory (parentPath (append path name.val)) = some loc := by
  obtain ⟨hne, k, hk⟩ := parentPath_append (directory_ne_nil h) name.no_separator name.ne_nil
  have hn : 0 ∉ parentPath (append path name.val) := by
    intro h0
    rw [hk] at hnul
    exact hnul (List.mem_append_left _ h0)
  rw [hk] at h
  exact ⟨hn, directory_of_separators hne k hn h⟩

/-! ## Writing -/

/-- An entry can be put there: below a directory, and over no other directory. -/
def Vacant (fs : Filesystem) (loc : Location) : Prop :=
  loc ≠ [] ∧ fs.nodes[loc.dropLast]? = some .dir ∧ fs.nodes[loc]? ≠ some .dir

instance (fs : Filesystem) (loc : Location) : Decidable (fs.Vacant loc) :=
  inferInstanceAs (Decidable (_ ∧ _))

theorem Vacant.insert_dir (h : fs.Vacant loc) {loc' : Location} (hd : fs.nodes[loc']? = some .dir)
    (node : Node) : (fs.nodes.insert loc node)[loc']? = some .dir := by
  rw [getElem?_insert, if_neg, hd]
  rintro rfl
  exact h.2.2 hd

def put (fs : Filesystem) (loc : Location) (node : Node) (h : fs.Vacant loc) : Filesystem where
  nodes := fs.nodes.insert loc node
  cwd := fs.cwd
  refused := fs.refused
  root_dir := h.insert_dir fs.root_dir node
  parent_dir := by
    intro above name node' hn
    rw [getElem?_insert] at hn
    apply h.insert_dir
    split at hn
    · next he =>
      have hp := h.2.1
      rwa [← he, List.dropLast_concat] at hp
    · exact fs.parent_dir above name node' hn
  cwd_dir := h.insert_dir fs.cwd_dir node

/-- A file system with an empty root. -/
def empty : Filesystem where
  nodes := (∅ : Std.ExtTreeMap Location Node).insert [] .dir
  cwd := []
  refused := fun _ => false
  root_dir := Std.ExtTreeMap.getElem?_insert_self
  parent_dir := by
    intro loc name node h
    rw [getElem?_insert, if_neg (by simp)] at h
    simp at h
  cwd_dir := Std.ExtTreeMap.getElem?_insert_self

theorem getElem?_empty (hne : loc ≠ []) : empty.nodes[loc]? = none := by
  show ((∅ : Std.ExtTreeMap Location Node).insert [] .dir)[loc]? = none
  rw [getElem?_insert, if_neg hne]
  simp

theorem vacant_child (loc : Location) (hd : fs.nodes[loc]? = some .dir)
    (hv : fs.nodes[loc ++ [name]]? = none) : fs.Vacant (loc ++ [name]) := by
  refine ⟨by simp, ?_, ?_⟩
  · rwa [List.dropLast_concat]
  · rw [hv]
    simp

/-- An `std::ofstream` on a path: the new file, or `none` where it cannot be opened. -/
def writeFile (fs : Filesystem) (path content : Bytes) : Option Filesystem :=
  match fs.resolve path with
  | none => none
  | some loc =>
    if h : fs.Vacant loc ∧ fs.refused loc = false then some (fs.put loc (.file content) h.1)
    else none

theorem writeFile_of_occupied {path : Bytes} (hr : fs.resolve path = some loc)
    (h : fs.nodes[loc]? = some .dir ∨ fs.refused loc = true) (content : Bytes) :
    fs.writeFile path content = none := by
  rw [writeFile, hr]
  refine dif_neg ?_
  rintro ⟨hv, hw⟩
  rcases h with h | h
  · exact hv.2.2 h
  · rw [h] at hw
    cases hw

theorem getElem?_put {node : Node} (h : fs.Vacant loc) (loc' : Location) :
    (fs.put loc node h).nodes[loc']? = if loc' = loc then some node else fs.nodes[loc']? :=
  getElem?_insert fs.nodes loc loc' node

theorem sameDirectories_put (h : fs.Vacant loc) (content : Bytes) :
    SameDirectories fs (fs.put loc (.file content) h) where
  cwd_eq := rfl
  refused_eq := rfl
  dirs := by
    intro loc'
    rw [getElem?_put]
    split
    · next he =>
      subst he
      exact iff_of_false (by simp) h.2.2
    · rfl

theorem writeFile_eq_some {path content : Bytes} (h : fs.writeFile path content = some fs') :
    ∃ loc hv, fs.resolve path = some loc ∧ fs' = fs.put loc (.file content) hv := by
  unfold writeFile at h
  split at h
  · cases h
  · next loc hr =>
    split at h
    · next hv => exact ⟨loc, hv.1, hr, (Option.some.inj h).symm⟩
    · cases h

theorem writeFile_of_vacant {path : Bytes} (hr : fs.resolve path = some loc) (hv : fs.Vacant loc)
    (hw : fs.refused loc = false) (content : Bytes) :
    fs.writeFile path content = some (fs.put loc (.file content) hv) := by
  rw [writeFile, hr]
  exact dif_pos ⟨hv, hw⟩

theorem file_eq_some {path content : Bytes} : fs.file path = some content ↔
    ∃ loc, fs.resolve path = some loc ∧ fs.nodes[loc]? = some (.file content) := by
  unfold file
  cases hr : fs.resolve path with
  | none => simp
  | some loc =>
    rw [Option.bind_some]
    cases hn : fs.nodes[loc]? with
    | none => simp [hn]
    | some node => cases node <;> simp [hn]

theorem disk_reads_of {path content : Bytes} (hr : fs.resolve path = some loc)
    (hn : fs.nodes[loc]? = some (.file content)) : fs.disk.read path = .reads content :=
  disk_reads_iff.mpr (file_eq_some.mpr ⟨loc, hr, hn⟩)

/-- What a path opens to depends on the entry that it leads to. -/
theorem disk_congr {path : Bytes} {loc' : Location} (hr : fs.resolve path = some loc)
    (hr' : fs'.resolve path = some loc') (hn : fs.nodes[loc]? = fs'.nodes[loc']?) :
    fs.disk.read path = fs'.disk.read path := by
  unfold disk
  dsimp only
  rw [hr, hr', Option.bind_some, Option.bind_some, hn]

/-- A path that was written reads as what was written. -/
theorem file_writeFile {path content : Bytes} (h : fs.writeFile path content = some fs') :
    fs'.file path = some content := by
  obtain ⟨loc, hv, hr, rfl⟩ := writeFile_eq_some h
  refine file_eq_some.mpr ⟨loc, ?_, ?_⟩
  · rw [(sameDirectories_put hv content).resolve, hr]
  · rw [getElem?_put, if_pos rfl]

/-! ## Listing a directory -/

/-- The names of a directory's entries. -/
def children (fs : Filesystem) (loc : Location) : List Name :=
  fs.nodes.keys.filterMap fun key => if key.dropLast = loc then key.getLast? else none

theorem mem_children : name ∈ fs.children loc ↔ ∃ node, fs.nodes[loc ++ [name]]? = some node := by
  rw [children, List.mem_filterMap, ← mem_keys_iff]
  constructor
  · rintro ⟨key, hk, h⟩
    split at h
    · next he =>
      have hsplit := List.dropLast_append_getLast? name h
      rwa [← he, hsplit]
    · cases h
  · intro h
    exact ⟨loc ++ [name], h, by rw [List.dropLast_concat, if_pos rfl, List.getLast?_concat]⟩

theorem nodup_children (fs : Filesystem) (loc : Location) : (fs.children loc).Nodup := by
  refine List.Nodup.filterMap ?_ Std.ExtTreeMap.nodup_keys
  intro key key' name h h'
  split at h
  · next hk =>
    split at h'
    · next hk' =>
      rw [← List.dropLast_append_getLast? name h, ← List.dropLast_append_getLast? name h', hk, hk']
    · cases h'
  · cases h

/-- A bound for how deep a directory is. -/
def height (fs : Filesystem) : Nat :=
  ((fs.nodes.keys.filter fun loc => fs.nodes[loc]? = some .dir).map List.length).sum

theorem length_le_height (h : fs.nodes[loc]? = some .dir) : loc.length ≤ fs.height := by
  have hmem : loc ∈ fs.nodes.keys := mem_keys_iff.mpr ⟨_, h⟩
  apply List.le_sum_of_mem
  exact List.mem_map_of_mem (List.mem_filter.mpr ⟨hmem, decide_eq_true h⟩)

theorem SameDirectories.height (h : SameDirectories fs fs') : fs'.height = fs.height := by
  have hperm : (fs'.nodes.keys.filter fun loc => fs'.nodes[loc]? = some .dir).Perm
      (fs.nodes.keys.filter fun loc => fs.nodes[loc]? = some .dir) := by
    refine (List.perm_ext_iff_of_nodup (Std.ExtTreeMap.nodup_keys.filter _)
      (Std.ExtTreeMap.nodup_keys.filter _)).mpr fun loc => ?_
    have hkey : ∀ (fs : Filesystem),
        loc ∈ (fs.nodes.keys.filter fun loc => fs.nodes[loc]? = some .dir) ↔
          fs.nodes[loc]? = some .dir := by
      intro fs
      rw [List.mem_filter, mem_keys_iff, decide_eq_true_iff]
      exact ⟨fun h => h.2, fun h => ⟨⟨_, h⟩, h⟩⟩
    rw [hkey, hkey, h.dirs]
  exact (hperm.map List.length).sum_eq

end Filesystem

/-- The order in which directories list their entries. -/
structure DirectoryOrder where
  list : Filesystem → Location → List Name
  perm : ∀ fs loc, (list fs loc).Perm (fs.children loc)

/-- Listings in the order of the names. -/
def DirectoryOrder.sorted : DirectoryOrder := ⟨Filesystem.children, fun _ _ => .refl _⟩

/-- Listings in the opposite order. -/
def DirectoryOrder.reversed : DirectoryOrder :=
  ⟨fun fs loc => (fs.children loc).reverse, fun fs loc => (fs.children loc).reverse_perm⟩

theorem DirectoryOrder.mem_list (order : DirectoryOrder) {fs : Filesystem} {loc : Location}
    {name : Name} : name ∈ order.list fs loc ↔ ∃ node, fs.nodes[loc ++ [name]]? = some node :=
  (order.perm fs loc).mem_iff.trans Filesystem.mem_children

/-- A path that the system reads to its end. -/
abbrev OsPath := {path : Bytes // 0 ∉ path}

/-- The path of an entry of the directory at `path`. -/
def OsPath.append (path : OsPath) (name : Name) : OsPath :=
  ⟨FsPath.append path.val name.val, by
    have h0 : (0 : Byte) ≠ chr '/' := by decide
    have hp := path.property
    have hn := name.no_nul
    rw [append_entry name.no_separator]
    split <;> simp [hp, hn, h0]⟩

/-- The path below `root` that the names of `rel` make. -/
def OsPath.below (root : OsPath) (rel : Location) : OsPath := rel.foldl OsPath.append root

theorem OsPath.below_concat (root : OsPath) (rel : Location) (name : Name) :
    root.below (rel ++ [name]) = (root.below rel).append name :=
  List.foldl_concat ..

section Below

variable {fs : Filesystem} {root : OsPath} {base rel rel' : Location} {node node' : Node}

/-- Below the path of a directory, the path of an entry leads to it. -/
theorem OsPath.resolve_below (hroot : fs.directory root.val = some base)
    (h : fs.nodes[base ++ rel]? = some node) :
    fs.resolve (root.below rel).val = some (base ++ rel) := by
  induction rel using List.reverseRecOn generalizing node with
  | nil =>
    rw [List.append_nil]
    exact (Filesystem.directory_eq_some.mp hroot).1
  | append_singleton rel name ih =>
    rw [← List.append_assoc] at h ⊢
    have hp := fs.parent_dir _ _ _ h
    have hd := Filesystem.directory_eq_some.mpr ⟨ih hp, hp⟩
    rw [below_concat]
    exact Filesystem.resolve_append (root.below rel).property hd name

theorem OsPath.directory_below (hroot : fs.directory root.val = some base)
    (h : fs.nodes[base ++ rel]? = some .dir) :
    fs.directory (root.below rel).val = some (base ++ rel) :=
  Filesystem.directory_eq_some.mpr ⟨resolve_below hroot h, h⟩

theorem OsPath.isDirectory_below (hroot : fs.directory root.val = some base)
    (h : fs.nodes[base ++ rel]? = some node) :
    fs.isDirectory (root.below rel).val = true ↔ node = .dir := by
  rw [Filesystem.isDirectory, Filesystem.directory, resolve_below hroot h, Option.isSome_iff_exists]
  simp [Option.filter, h]

/-- Different entries have different paths. -/
theorem OsPath.below_injective (hroot : fs.directory root.val = some base)
    (h : fs.nodes[base ++ rel]? = some node) (h' : fs.nodes[base ++ rel']? = some node')
    (he : (root.below rel).val = (root.below rel').val) : rel = rel' := by
  have hr := resolve_below hroot h
  rw [he, resolve_below hroot h', Option.some.injEq] at hr
  exact (List.append_cancel_left hr).symm

end Below

end SimpleServ.Cxx
