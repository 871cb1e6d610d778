import SimpleServ.Cxx.Filesystem
import SimpleServ.Utility.FileManager

/-
  `construct_file_descriptors` (file_manager.hpp): the walk that fills the descriptor table.

  The walk keeps a stack of directories. It takes one off, pushes the directories it lists and
  records its other entries under the path that the walk has reached them by. Every path on
  the stack is one the system reads to its end (`OsPath`): a walk from a path with a NUL in it
  would list one directory again and again. It ends because every directory on the stack is
  replaced by deeper ones.

  `construct_lists`: the table lists the files below the root, each under its path, whatever
  the order of the listings.
-/

namespace SimpleServ.Utility

open SimpleServ.Cxx SimpleServ.Lib Outcome

/-- `extension_map` -/
def extensionMap : List (Bytes × FileType) :=
  [(lit ".html", .TEXT_HTML), (lit ".css", .TEXT_CSS), (lit ".js", .TEXT_JS),
    (lit ".png", .IMAGE_PNG), (lit ".svg", .IMAGE_SVG), (lit ".ttf", .FONT_TTF),
    (lit ".woff", .FONT_WOFF), (lit ".woff2", .FONT_WOFF2)]

def encodeFiletype (filename : Bytes) : FileType :=
  (extensionMap.lookup (FsPath.extension filename)).getD .TEXT_PLAIN

/-- The descriptor of a file that the walk has met. -/
def plainDescriptor (path : Bytes) : FileDescriptor :=
  let filename := FsPath.filename path
  let filetype := encodeFiletype filename
  ⟨filename, filetype, fun encoding => if encoding = .NONE then some ⟨path⟩ else none⟩

/-- One entry of the listing of `dir_path`: the stack and the table behind it. -/
def collectEntry (fs : Filesystem) (dir_path : OsPath) (state : List OsPath × FileTable)
    (name : Name) : List OsPath × FileTable :=
  let dir_entry := dir_path.append name
  if fs.isDirectory dir_entry.val then (dir_entry :: state.1, state.2)
  else (state.1, state.2.insert dir_entry.val (plainDescriptor dir_entry.val))

variable {order : DirectoryOrder} {fs : Filesystem} {root dir_path : OsPath}
  {base loc rel : Location} {names : List Name} {directories : List OsPath}
  {table : FileTable}

/-- How much deeper directories can get. -/
def depthLeft (fs : Filesystem) (path : OsPath) : Nat :=
  fs.height - ((fs.directory path.val).getD []).length

theorem depthLeft_append {name : Name} (h : fs.directory dir_path.val = some loc)
    (hd : fs.isDirectory (dir_path.append name).val = true) :
    depthLeft fs (dir_path.append name) < depthLeft fs dir_path := by
  obtain ⟨loc', hl⟩ := Option.isSome_iff_exists.mp hd
  have hr := Filesystem.resolve_append dir_path.property h name
  obtain ⟨hr', hdir⟩ := Filesystem.directory_eq_some.mp hl
  have hloc : loc' = loc ++ [name] := by
    have he : fs.resolve (dir_path.append name).val = some (loc ++ [name]) := hr
    rw [hr', Option.some.injEq] at he
    exact he
  have hle := Filesystem.length_le_height hdir
  rw [hloc, List.length_append, List.length_singleton] at hle
  rw [depthLeft, depthLeft, hl, h, Option.getD_some, Option.getD_some, hloc, List.length_append,
    List.length_singleton]
  omega

/-- What a listing adds to the stack and to the table. -/
theorem collectEntries_eq (fs : Filesystem) (dir_path : OsPath) (names : List Name)
    (directories : List OsPath) (table : FileTable) :
    names.foldl (collectEntry fs dir_path) (directories, table) =
      (((names.map dir_path.append).filter fun p => fs.isDirectory p.val).reverse ++ directories,
        (((names.map dir_path.append).filter fun p => !fs.isDirectory p.val).map Subtype.val).foldl
          (fun table path => table.insert path (plainDescriptor path)) table) := by
  induction names generalizing directories table with
  | nil => rfl
  | cons name names ih =>
    rw [List.foldl_cons, collectEntry]
    by_cases hd : fs.isDirectory (dir_path.append name).val = true
    · rw [if_pos hd, ih]
      simp [hd]
    · rw [if_neg hd, ih]
      simp [hd]

/-- The depths left on the stack. -/
def depthsLeft (fs : Filesystem) (directories : List OsPath) : Multiset Nat :=
  directories.map (depthLeft fs)

/-- Directories of the listing are deeper than the one they replace. -/
theorem depthsLeft_pushed (h : fs.directory dir_path.val = some loc) {pushed : List OsPath}
    (hp : ∀ p ∈ pushed, ∃ name, p = dir_path.append name ∧ fs.isDirectory p.val = true)
    (directories : List OsPath) :
    (depthsLeft fs (pushed ++ directories)).IsDershowitzMannaLT
      (depthsLeft fs (dir_path :: directories)) := by
  refine ⟨depthsLeft fs directories, depthsLeft fs pushed, {depthLeft fs dir_path},
    Multiset.singleton_ne_zero _, ?_, ?_, ?_⟩
  · unfold depthsLeft
    rw [List.map_append, ← Multiset.coe_add, add_comm]
  · unfold depthsLeft
    rw [List.map_cons, ← Multiset.cons_coe, ← Multiset.singleton_add, add_comm]
  · intro y hy
    refine ⟨_, Multiset.mem_singleton_self _, ?_⟩
    obtain ⟨p, hm, rfl⟩ := List.mem_map.mp (Multiset.mem_coe.mp hy)
    obtain ⟨name, rfl, hd⟩ := hp p hm
    exact depthLeft_append h hd

theorem depthsLeft_lt (h : fs.directory dir_path.val = some loc) (names : List Name)
    (directories : List OsPath) (table : FileTable) :
    (depthsLeft fs (names.foldl (collectEntry fs dir_path) (directories, table)).1).IsDershowitzMannaLT
      (depthsLeft fs (dir_path :: directories)) := by
  rw [collectEntries_eq]
  refine depthsLeft_pushed h (fun p hp => ?_) directories
  obtain ⟨hm, hd⟩ := List.mem_filter.mp (List.mem_reverse.mp hp)
  obtain ⟨name, -, rfl⟩ := List.mem_map.mp hm
  exact ⟨name, rfl, hd⟩

/-- The loop of `construct_file_descriptors`. -/
def collectFrom (order : DirectoryOrder) (fs : Filesystem) :
    List OsPath → FileTable → Outcome FileTable
  | [], file_descriptors => ret file_descriptors
  | dir_path :: directories, file_descriptors =>
    match _hd : fs.directory dir_path.val with
    | none => throw .filesystem_error
    | some loc =>
      let state := (order.list fs loc).foldl (collectEntry fs dir_path)
        (directories, file_descriptors)
      collectFrom order fs state.1 state.2
termination_by directories => depthsLeft fs directories
decreasing_by exact depthsLeft_lt _hd _ _ _

def constructFileDescriptors (order : DirectoryOrder) (fs : Filesystem) (path : OsPath)
    (file_descriptors : FileTable) : Outcome FileTable :=
  collectFrom order fs [path] file_descriptors

/-! ## What the walk has met -/

/-- The walk has recorded files below the root only, and will come to the rest. -/
structure Walked (fs : Filesystem) (root : OsPath) (base : Location) (directories : List OsPath)
    (table : FileTable) : Prop where
  stacked : ∀ p ∈ directories, ∃ rel : Location, p = root.below rel ∧
    fs.nodes[base ++ rel]? = some .dir
  recorded : ∀ (path : Bytes) (file_descriptor : FileDescriptor),
    table[path]? = some file_descriptor → ∃ (rel : Location) (content : Bytes),
      fs.nodes[base ++ rel]? = some (.file content) ∧ path = (root.below rel).val ∧
        file_descriptor = plainDescriptor path
  covered : ∀ (rel : Location) (content : Bytes), fs.nodes[base ++ rel]? = some (.file content) →
    table[(root.below rel).val]? = some (plainDescriptor (root.below rel).val) ∨
      ∃ p ∈ directories, ∃ above rest : Location, p = root.below above ∧ rel = above ++ rest

theorem walked_start (hroot : fs.directory root.val = some base) : Walked fs root base [root] ∅ where
  stacked := by
    intro p hp
    refine ⟨[], List.mem_singleton.mp hp, ?_⟩
    rw [List.append_nil]
    exact (Filesystem.directory_eq_some.mp hroot).2
  recorded := by
    intro path file_descriptor h
    simp at h
  covered := fun rel _ _ => Or.inr ⟨root, List.mem_singleton_self _, [], rel, rfl, rfl⟩

theorem mem_collected {path : OsPath} :
    path ∈ (names.foldl (collectEntry fs dir_path) (directories, table)).1 ↔
      (∃ name ∈ names, path = dir_path.append name ∧ fs.isDirectory path.val = true) ∨
        path ∈ directories := by
  rw [collectEntries_eq, List.mem_append, List.mem_reverse, List.mem_filter, List.mem_map]
  constructor
  · rintro (⟨⟨name, hn, rfl⟩, hd⟩ | h)
    · exact Or.inl ⟨name, hn, rfl, hd⟩
    · exact Or.inr h
  · rintro (⟨name, hn, rfl, hd⟩ | h)
    · exact Or.inl ⟨⟨name, hn, rfl⟩, hd⟩
    · exact Or.inr h

theorem collected_getElem? (fs : Filesystem) (dir_path : OsPath) (names : List Name)
    (directories : List OsPath) (table : FileTable) (path : Bytes) :
    (names.foldl (collectEntry fs dir_path) (directories, table)).2[path]? =
      if ∃ name ∈ names, path = (dir_path.append name).val ∧ fs.isDirectory path = false then
        some (plainDescriptor path)
      else table[path]? := by
  have hmem :
      path ∈ ((names.map dir_path.append).filter fun p => !fs.isDirectory p.val).map Subtype.val ↔
        ∃ name ∈ names, path = (dir_path.append name).val ∧ fs.isDirectory path = false := by
    simp only [List.mem_map, List.mem_filter, Bool.not_eq_true']
    constructor
    · rintro ⟨p, ⟨⟨name, hn, rfl⟩, hd⟩, rfl⟩
      exact ⟨name, hn, rfl, hd⟩
    · rintro ⟨name, hn, rfl, hd⟩
      exact ⟨_, ⟨⟨name, hn, rfl⟩, hd⟩, rfl⟩
  rw [collectEntries_eq, getElem?_foldl_insert]
  simp only [hmem]

/-- A stacked path that stands above a file stands for the directory it names. -/
theorem above_eq {above rest : Location} {content : Bytes}
    (hroot : fs.directory root.val = some base) (hdir : fs.nodes[base ++ rel]? = some .dir)
    (hfile : fs.nodes[base ++ (above ++ rest)]? = some (.file content))
    (hp : root.below above = root.below rel) : above = rel := by
  obtain ⟨node, hnode⟩ : ∃ node, fs.nodes[base ++ above]? = some node := by
    rcases eq_or_ne rest [] with rfl | hr
    · rw [List.append_nil] at hfile
      exact ⟨_, hfile⟩
    · rw [← List.append_assoc] at hfile
      exact ⟨_, Filesystem.dir_of_above hfile hr⟩
  exact OsPath.below_injective hroot hnode hdir (congrArg Subtype.val hp)

/-- The entry of `above` that leads to a file, which is the file where nothing follows. -/
theorem child_above {above rest : Location} {name : Name} {content : Bytes}
    (hfile : fs.nodes[base ++ (above ++ name :: rest)]? = some (.file content)) :
    ∃ node, fs.nodes[base ++ (above ++ [name])]? = some node ∧ (node ≠ .dir → rest = []) := by
  have hsplit : base ++ (above ++ name :: rest) = (base ++ (above ++ [name])) ++ rest := by simp
  rw [hsplit] at hfile
  rcases eq_or_ne rest [] with rfl | hr
  · rw [List.append_nil] at hfile
    exact ⟨_, hfile, fun _ => rfl⟩
  · exact ⟨.dir, Filesystem.dir_of_above hfile hr, fun h => absurd rfl h⟩

/-- A file below the directory that is listed is recorded, or below what is pushed. -/
theorem covered_listed {rest : Location} {content : Bytes}
    (hroot : fs.directory root.val = some base) (hdir : fs.nodes[base ++ rel]? = some .dir)
    (hlist : ∀ name : Name, name ∈ names ↔ ∃ node, fs.nodes[base ++ (rel ++ [name])]? = some node)
    (hfile : fs.nodes[base ++ (rel ++ rest)]? = some (.file content)) :
    let state := names.foldl (collectEntry fs (root.below rel)) (directories, table)
    state.2[(root.below (rel ++ rest)).val]? =
        some (plainDescriptor (root.below (rel ++ rest)).val) ∨
      ∃ p ∈ state.1, ∃ above rest' : Location, p = root.below above ∧
        rel ++ rest = above ++ rest' := by
  cases rest with
  | nil =>
    rw [List.append_nil, hdir] at hfile
    cases hfile
  | cons name rest =>
    obtain ⟨node, hnode, hrest⟩ := child_above hfile
    have hn := (hlist name).mpr ⟨node, hnode⟩
    have hd := OsPath.isDirectory_below hroot hnode
    cases node with
    | dir =>
      right
      refine ⟨(root.below rel).append name, ?_, rel ++ [name], rest, ?_, by simp⟩
      · refine mem_collected.mpr (Or.inl ⟨name, hn, rfl, ?_⟩)
        rw [← OsPath.below_concat, hd]
      · rw [OsPath.below_concat]
    | file content' =>
      left
      obtain rfl := hrest nofun
      have hnot : fs.isDirectory (root.below (rel ++ [name])).val = false := by
        rw [Bool.eq_false_iff, ne_eq, hd]
        nofun
      rw [collected_getElem?, if_pos ⟨name, hn, by rw [OsPath.below_concat], hnot⟩]

/-- One directory of the stack. -/
theorem Walked.step (h : Walked fs root base (root.below rel :: directories) table)
    (hroot : fs.directory root.val = some base) (hdir : fs.nodes[base ++ rel]? = some .dir)
    (order : DirectoryOrder) :
    let state := (order.list fs (base ++ rel)).foldl (collectEntry fs (root.below rel))
      (directories, table)
    Walked fs root base state.1 state.2 := by
  have hlist : ∀ name : Name, name ∈ order.list fs (base ++ rel) ↔
      ∃ node, fs.nodes[base ++ (rel ++ [name])]? = some node := by
    intro name
    rw [order.mem_list, List.append_assoc]
  refine ⟨?_, ?_, ?_⟩
  · intro p hp
    rcases mem_collected.mp hp with ⟨name, hn, rfl, hd⟩ | hp
    · obtain ⟨node, hnode⟩ := (hlist name).mp hn
      rw [← OsPath.below_concat] at hd ⊢
      obtain rfl := (OsPath.isDirectory_below hroot hnode).mp hd
      exact ⟨rel ++ [name], rfl, hnode⟩
    · exact h.stacked p (List.mem_cons_of_mem _ hp)
  · intro path file_descriptor ht
    rw [collected_getElem?] at ht
    split at ht
    · next hn =>
      obtain ⟨name, hn, rfl, hd⟩ := hn
      obtain ⟨node, hnode⟩ := (hlist name).mp hn
      rw [← OsPath.below_concat] at hd ht ⊢
      cases node with
      | dir =>
        rw [(OsPath.isDirectory_below hroot hnode).mpr rfl] at hd
        cases hd
      | file content => exact ⟨rel ++ [name], content, hnode, rfl, (Option.some.inj ht).symm⟩
    · exact h.recorded path file_descriptor ht
  · intro rel' content hfile
    rcases h.covered rel' content hfile with ht | ⟨p, hp, above, rest, rfl, rfl⟩
    · -- what was recorded stays so
      left
      rw [collected_getElem?]
      split
      · rfl
      · exact ht
    · rcases List.mem_cons.mp hp with hp | hp
      · obtain rfl := above_eq hroot hdir hfile hp
        exact covered_listed hroot hdir hlist hfile
      · exact Or.inr ⟨_, mem_collected.mpr (Or.inr hp), above, rest, rfl, rfl⟩

/-- The table lists the files below the root, each under its path, and nothing else. -/
def ListsFiles (fs : Filesystem) (root : OsPath) (base : Location) (table : FileTable) : Prop :=
  ∀ (path : Bytes) (file_descriptor : FileDescriptor), table[path]? = some file_descriptor ↔
    ∃ (rel : Location) (content : Bytes), fs.nodes[base ++ rel]? = some (.file content) ∧
      path = (root.below rel).val ∧ file_descriptor = plainDescriptor path

theorem Walked.listsFiles (h : Walked fs root base [] table) : ListsFiles fs root base table := by
  intro path file_descriptor
  constructor
  · exact h.recorded path file_descriptor
  · rintro ⟨rel, content, hfile, rfl, rfl⟩
    rcases h.covered rel content hfile with ht | ⟨p, hp, -⟩
    · exact ht
    · cases hp

theorem collectFrom_cons (hd : fs.directory dir_path.val = some loc) (directories : List OsPath)
    (table : FileTable) : collectFrom order fs (dir_path :: directories) table =
      let state := (order.list fs loc).foldl (collectEntry fs dir_path) (directories, table)
      collectFrom order fs state.1 state.2 := by
  rw [collectFrom]
  split
  · next hn =>
    rw [hd] at hn
    cases hn
  · next hn =>
    rw [hd] at hn
    cases hn
    rfl

/-- The walk comes to its end with every file recorded: by induction on the stack, the depths
    left on it falling. -/
theorem collectFrom_lists (hroot : fs.directory root.val = some base)
    (h : Walked fs root base directories table) :
    ∃ table', collectFrom order fs directories table = ret table' ∧
      ListsFiles fs root base table' := by
  induction directories, table using collectFrom.induct order fs with
  | case1 table => exact ⟨table, by rw [collectFrom], h.listsFiles⟩
  | case2 p directories table hd =>
    obtain ⟨rel, rfl, hdir⟩ := h.stacked p List.mem_cons_self
    rw [OsPath.directory_below hroot hdir] at hd
    cases hd
  | case3 p directories table loc hd state ih =>
    obtain ⟨rel, rfl, hdir⟩ := h.stacked p List.mem_cons_self
    rw [OsPath.directory_below hroot hdir] at hd
    cases hd
    obtain ⟨table', ht, hl⟩ := ih (h.step hroot hdir order)
    exact ⟨table', (collectFrom_cons (OsPath.directory_below hroot hdir) _ _).trans ht, hl⟩

/-- **The table lists exactly the files below the root, in whatever order directories list.** -/
theorem construct_lists (order : DirectoryOrder) (hroot : fs.directory root.val = some base) :
    ∃ table, constructFileDescriptors order fs root ∅ = ret table ∧
      ListsFiles fs root base table :=
  collectFrom_lists hroot (walked_start hroot)

/-- Without a directory at the root, the walk ends in an exception. -/
theorem construct_throws (order : DirectoryOrder) (hroot : fs.directory root.val = none)
    (table : FileTable) :
    constructFileDescriptors order fs root table = Outcome.throw .filesystem_error := by
  rw [constructFileDescriptors, collectFrom]
  split
  · rfl
  · next hn =>
    rw [hroot] at hn
    cases hn

end SimpleServ.Utility
