import SimpleServ.Utility.ContentCoding
import SimpleServ.Utility.DescriptorTable

/-
  `generate_encoded_files` (file_manager.hpp), and the start of the server: the walk, then
  the encoding of what the walk has listed.

  The loop runs over the table in the order of the hash map, a parameter (`TableOrder`), and
  changes entries of that table and files of the disk as it goes. Every output is a file with
  the extension `.br`, which is none of the encoded types, so no output is an input.

  `startFilesRecorded_started`: table and disk after the start are functions of the tree below
  the root as it was before, whatever the two orders, and so are the calls of `Brotli::encode`.
-/

namespace SimpleServ.Utility

open SimpleServ.Cxx SimpleServ.Lib Outcome

/-- The order in which the hash map goes through its entries. -/
structure TableOrder where
  keys : FileTable → List Bytes
  perm : ∀ table, (keys table).Perm table.keys

def TableOrder.sorted : TableOrder := ⟨Std.ExtTreeMap.keys, fun _ => .refl _⟩

/-- The types that are worth an encoding. -/
def Compressible (filetype : FileType) : Prop :=
  filetype = .TEXT_HTML ∨ filetype = .TEXT_CSS ∨ filetype = .TEXT_JS

instance : DecidablePred Compressible := fun _ => inferInstanceAs (Decidable (_ ∨ _ ∨ _))

def FileDescriptor.withPath (file_descriptor : FileDescriptor) (encoding : FileEncoding)
    (path : Bytes) : FileDescriptor :=
  { file_descriptor with
    file_paths := fun other =>
      if other = encoding then some ⟨path⟩ else file_descriptor.file_paths other }

theorem FileDescriptor.withPath_withPath (file_descriptor : FileDescriptor) (encoding : FileEncoding)
    (path path' : Bytes) : (file_descriptor.withPath encoding path).withPath encoding path' =
      file_descriptor.withPath encoding path' := by
  unfold FileDescriptor.withPath
  rw [FileDescriptor.mk.injEq]
  refine ⟨rfl, rfl, funext fun other => ?_⟩
  dsimp only
  split <;> rfl

/-- A call of `Brotli::encode`. -/
structure EncodeCall where
  path : Bytes
  returned : Bytes
  deriving DecidableEq, Repr

/-- One entry of the loop: the calls so far, table and disk. The record of the calls is not the
    code's. -/
def encodeEntry (compress : BrotliEncoderCompress) (state : List EncodeCall × FileTable × Filesystem)
    (path : Bytes) : Outcome (List EncodeCall × FileTable × Filesystem) :=
  let (calls, file_descriptors, fs) := state
  match file_descriptors[path]? with
  | none => ret state
  | some file_descriptor =>
    if Compressible file_descriptor.filetype then do
      let file_path := FsPath.append (FsPath.parentPath path) file_descriptor.filename
      let (output_path, fs) ← Brotli.encode compress fs file_path
      let calls := calls ++ [⟨file_path, output_path⟩]
      if output_path ≠ [] then
        ret (calls, file_descriptors.insert path (file_descriptor.withPath .BROTLI output_path), fs)
      else ret (calls, file_descriptors, fs)
    else ret state

def generateEncodedFiles (compress : BrotliEncoderCompress) (iteration : TableOrder)
    (file_descriptors : FileTable) (fs : Filesystem) :
    Outcome (List EncodeCall × FileTable × Filesystem) :=
  (iteration.keys file_descriptors).foldlM (encodeEntry compress) ([], file_descriptors, fs)

/-- `construct_file_descriptors` and `generate_encoded_files` on an empty table. -/
def startFilesRecorded (compress : BrotliEncoderCompress) (order : DirectoryOrder)
    (iteration : TableOrder) (fs : Filesystem) (path : OsPath) :
    Outcome (List EncodeCall × FileTable × Filesystem) := do
  let file_descriptors ← constructFileDescriptors order fs path ∅
  generateEncodedFiles compress iteration file_descriptors fs

/-- The start without the record. -/
def startFiles (compress : BrotliEncoderCompress) (order : DirectoryOrder) (iteration : TableOrder)
    (fs : Filesystem) (path : OsPath) : Outcome (FileTable × Filesystem) :=
  Prod.snd <$> startFilesRecorded compress order iteration fs path

variable {compress : BrotliEncoderCompress} {fs fs' : Filesystem} {root : OsPath}
  {base loc rel : Location} {name : Name} {content buffer : Bytes} {table : FileTable}

/-! ## The file beside a file -/

/-- The name of the encoded file. -/
def brName (name : Name) : Name :=
  ⟨name.val ++ lit ".br", by
    obtain ⟨name, -, -, -, hslash, hnul⟩ := name
    have hlong : ∀ text : Bytes, text.length ≤ 2 → name ++ lit ".br" ≠ text := by
      rintro text ht rfl
      have h3 : (lit ".br").length = 3 := rfl
      rw [List.length_append, h3] at ht
      omega
    refine ⟨hlong _ (by decide), hlong _ (by decide), hlong _ (by decide), ?_, ?_⟩
    · have hs : chr '/' ∉ lit ".br" := by decide
      simp [hslash, hs]
    · have hs : 0 ∉ lit ".br" := by decide
      simp [hnul, hs]⟩

theorem brName_injective {name' : Name} (h : brName name = brName name') : name = name' :=
  Subtype.ext (List.append_cancel_right (congrArg Subtype.val h))

/-- An encoded file is not encoded again. -/
theorem not_compressible_brName (name : Name) : ¬ Compressible (encodeFiletype (brName name).val) := by
  have he : FsPath.extension (brName name).val = lit ".br" :=
    extension_concat name.ne_nil (by decide) (brName name).no_separator (by decide)
  rw [encodeFiletype, he]
  decide

/-- Where the encoded file of the file at `loc` goes. -/
def brLocation (loc : Location) : Location :=
  match loc.getLast? with
  | none => []
  | some name => loc.dropLast ++ [brName name]

theorem brLocation_concat (loc : Location) (name : Name) :
    brLocation (loc ++ [name]) = loc ++ [brName name] := by
  rw [brLocation, List.getLast?_concat, List.dropLast_concat]

theorem brLocation_append (base : Location) (hne : rel ≠ []) :
    brLocation (base ++ rel) = base ++ brLocation rel := by
  obtain ⟨above, name, rfl⟩ := (List.eq_nil_or_concat' rel).resolve_left hne
  rw [← List.append_assoc, brLocation_concat, brLocation_concat, List.append_assoc]

theorem brLocation_injective {loc' : Location} (hne : loc ≠ []) (hne' : loc' ≠ [])
    (h : brLocation loc = brLocation loc') : loc = loc' := by
  obtain ⟨above, name, rfl⟩ := (List.eq_nil_or_concat' loc).resolve_left hne
  obtain ⟨above', name', rfl⟩ := (List.eq_nil_or_concat' loc').resolve_left hne'
  rw [brLocation_concat, brLocation_concat] at h
  obtain ⟨rfl, hn⟩ := List.append_inj' h rfl
  rw [brName_injective (List.singleton_inj.mp hn)]

/-- What the start writes beside the file at `loc`, if it writes anything. -/
def encodedBuffer (compress : BrotliEncoderCompress) (fs : Filesystem) (loc : Location) :
    Option Bytes :=
  match loc.getLast? with
  | none => none
  | some name =>
    if Compressible (encodeFiletype name.val) ∧ fs.nodes[brLocation loc]? ≠ some .dir ∧
        fs.refused (brLocation loc) = false then
      match fs.nodes[loc]? with
      | some (.file content) => (encodeInput compress content).map Prod.snd
      | _ => none
    else none

theorem encodedBuffer_concat (compress : BrotliEncoderCompress) (fs : Filesystem) (loc : Location)
    (name : Name) : encodedBuffer compress fs (loc ++ [name]) =
      if Compressible (encodeFiletype name.val) ∧ fs.nodes[loc ++ [brName name]]? ≠ some .dir ∧
          fs.refused (loc ++ [brName name]) = false then
        match fs.nodes[loc ++ [name]]? with
        | some (.file content) => (encodeInput compress content).map Prod.snd
        | _ => none
      else none := by
  rw [encodedBuffer, List.getLast?_concat, brLocation_concat]

theorem encodedBuffer_of_not (hc : ¬ Compressible (encodeFiletype name.val)) :
    encodedBuffer compress fs (loc ++ [name]) = none := by
  rw [encodedBuffer_concat, if_neg fun h => hc h.1]

theorem file_of_encodedBuffer (h : encodedBuffer compress fs loc = some buffer) :
    loc ≠ [] ∧ ∃ content, fs.nodes[loc]? = some (.file content) := by
  unfold encodedBuffer at h
  split at h
  · cases h
  · next name hl =>
    refine ⟨?_, ?_⟩
    · rintro rfl
      cases hl
    · split at h
      · split at h
        · next content hn => exact ⟨content, hn⟩
        · cases h
      · cases h

/-- What is written beside a file depends on the file and on what stands there. -/
theorem encodedBuffer_congr {loc' : Location} (hlast : loc'.getLast? = loc.getLast?)
    (hnode : ∀ name ∈ loc.getLast?, Compressible (encodeFiletype name.val) →
      fs'.nodes[loc']? = fs.nodes[loc]?)
    (hdir : fs'.nodes[brLocation loc']? = some .dir ↔ fs.nodes[brLocation loc]? = some .dir)
    (href : fs'.refused (brLocation loc') = fs.refused (brLocation loc)) :
    encodedBuffer compress fs' loc' = encodedBuffer compress fs loc := by
  unfold encodedBuffer
  rw [hlast]
  cases hl : loc.getLast? with
  | none => rfl
  | some name =>
    dsimp only
    by_cases hc : Compressible (encodeFiletype name.val)
    · rw [hnode name hl hc, href]
      simp only [ne_eq, hdir]
    · rw [if_neg fun h => hc h.1, if_neg fun h => hc h.1]

/-! ## Encoding one file of the tree -/

/-- The path that `encode` is called on for the entry of the table under `path`. -/
def encodedFrom (path : Bytes) : Bytes := FsPath.append (FsPath.parentPath path) (FsPath.filename path)

/-- Both paths of the call lead where they should. -/
theorem resolve_encodedFrom (hroot : fs.directory root.val = some base)
    (hfile : fs.nodes[base ++ (rel ++ [name])]? = some (.file content)) :
    fs.resolve (encodedFrom (root.below (rel ++ [name])).val) = some (base ++ (rel ++ [name])) ∧
      fs.resolve (encodedFrom (root.below (rel ++ [name])).val ++ lit ".br") =
        some (base ++ (rel ++ [brName name])) := by
  rw [← List.append_assoc] at hfile
  have hd := OsPath.directory_below hroot (fs.parent_dir _ _ _ hfile)
  obtain ⟨hnul, hparent⟩ := Filesystem.directory_parentPath (root.below rel).property hd name
  have he : encodedFrom (root.below (rel ++ [name])).val =
      FsPath.append (FsPath.parentPath (FsPath.append (root.below rel).val name.val)) name.val := by
    rw [OsPath.below_concat, encodedFrom]
    exact congrArg (FsPath.append _) (filename_append name.no_separator)
  rw [he, append_concat name.no_separator (by decide), ← List.append_assoc, ← List.append_assoc]
  exact ⟨Filesystem.resolve_append hnul hparent name,
    Filesystem.resolve_append hnul hparent (brName name)⟩

section At

variable {path : Bytes}

/-- `encode` on a path that leads to a file writes what `encodedBuffer` says, -/
theorem encode_some_at (hr : fs.resolve path = some (loc ++ [name]))
    (hr' : fs.resolve (path ++ lit ".br") = some (loc ++ [brName name]))
    (hfile : fs.nodes[loc ++ [name]]? = some (.file content))
    (hb : encodedBuffer compress fs (loc ++ [name]) = some buffer) :
    ∃ hv : fs.Vacant (brLocation (loc ++ [name])),
      Brotli.encode compress fs path =
        ret (path ++ lit ".br", fs.put (brLocation (loc ++ [name])) (.file buffer) hv) := by
  rw [encodedBuffer_concat, hfile] at hb
  split at hb
  · next hc =>
    obtain ⟨⟨n, output_data⟩, hn, rfl⟩ := Option.map_eq_some_iff.mp hb
    have hv : fs.Vacant (loc ++ [brName name]) := by
      refine ⟨by simp, ?_, hc.2.1⟩
      rw [List.dropLast_concat]
      exact fs.parent_dir _ _ _ hfile
    have hw := Filesystem.writeFile_of_vacant hr' hv hc.2.2 output_data
    have hinput := Filesystem.file_eq_some.mpr ⟨_, hr, hfile⟩
    rw [brLocation_concat]
    exact ⟨hv, encode_written hinput hn hw⟩
  · cases hb

/-- and leaves the disk as it is where that is nothing. -/
theorem encode_none_at (hr : fs.resolve path = some (loc ++ [name]))
    (hr' : fs.resolve (path ++ lit ".br") = some (loc ++ [brName name]))
    (hfile : fs.nodes[loc ++ [name]]? = some (.file content))
    (hc : Compressible (encodeFiletype name.val))
    (hb : encodedBuffer compress fs (loc ++ [name]) = none) :
    Brotli.encode compress fs path = ret ([], fs) := by
  refine encode_given_up (Filesystem.file_eq_some.mpr ⟨_, hr, hfile⟩) fun n output_data hn => ?_
  rw [encodedBuffer_concat, hfile] at hb
  refine Filesystem.writeFile_of_occupied hr' ?_ output_data
  by_contra hoccupied
  rw [not_or, Bool.not_eq_true] at hoccupied
  rw [if_pos ⟨hc, hoccupied⟩] at hb
  dsimp only at hb
  rw [hn] at hb
  cases hb

end At

/-! ## Disks with encoded files -/

/-- No output is an input. -/
theorem brLocation_ne (hc : Compressible (encodeFiletype name.val)) (loc' : Location) :
    loc ++ [name] ≠ brLocation loc' := by
  intro h
  rcases List.eq_nil_or_concat' loc' with rfl | ⟨above, name', rfl⟩
  · simp [brLocation] at h
  · rw [brLocation_concat] at h
    obtain ⟨-, hn⟩ := List.append_inj' h rfl
    rw [List.singleton_inj.mp hn] at hc
    exact not_compressible_brName name' hc

/-- `fs'` is the disk `fs` with the encoded files of the files `done`. -/
structure Written (compress : BrotliEncoderCompress) (fs : Filesystem) (base : Location)
    (done : List Location) (fs' : Filesystem) : Prop where
  same : fs.SameDirectories fs'
  written : ∀ rel ∈ done, ∀ buffer, encodedBuffer compress fs (base ++ rel) = some buffer →
    fs'.nodes[brLocation (base ++ rel)]? = some (.file buffer)
  kept : ∀ loc, (∀ rel ∈ done, ∀ buffer, encodedBuffer compress fs (base ++ rel) = some buffer →
    loc ≠ brLocation (base ++ rel)) → fs'.nodes[loc]? = fs.nodes[loc]?

section Written

variable {done : List Location}

theorem written_start (compress : BrotliEncoderCompress) (fs : Filesystem) (base : Location) :
    Written compress fs base [] fs where
  same := .refl fs
  written := fun _ hm => nomatch hm
  kept := fun _ _ => rfl

/-- A file of an encoded type stays as it is. -/
theorem Written.input (h : Written compress fs base done fs')
    (hc : Compressible (encodeFiletype name.val)) :
    fs'.nodes[loc ++ [name]]? = fs.nodes[loc ++ [name]]? :=
  h.kept _ fun _ _ _ _ => brLocation_ne hc _

/-- What is going to be written does not change. -/
theorem Written.encodedBuffer_eq (h : Written compress fs base done fs') (loc : Location) :
    encodedBuffer compress fs' loc = encodedBuffer compress fs loc := by
  refine encodedBuffer_congr rfl ?_ (h.same.dirs _) (by rw [h.same.refused_eq])
  intro name hn hc
  rw [← List.dropLast_append_getLast? name hn]
  exact h.input hc

/-- A file for which nothing is written. -/
theorem Written.skip (h : Written compress fs base done fs')
    (hb : encodedBuffer compress fs (base ++ rel) = none) :
    Written compress fs base (done ++ [rel]) fs' where
  same := h.same
  written := by
    intro rel' hm buffer hbuf
    rcases List.mem_append.mp hm with hm | hm
    · exact h.written rel' hm buffer hbuf
    · rw [List.mem_singleton.mp hm, hb] at hbuf
      cases hbuf
  kept := fun loc hloc => h.kept loc fun rel' hm => hloc rel' (List.mem_append_left _ hm)

/-- A file beside which the encoder's buffer is put. -/
theorem Written.put (h : Written compress fs base done fs')
    (hb : encodedBuffer compress fs (base ++ rel) = some buffer)
    (hv : fs'.Vacant (brLocation (base ++ rel))) :
    Written compress fs base (done ++ [rel])
      (fs'.put (brLocation (base ++ rel)) (.file buffer) hv) where
  same := h.same.trans (Filesystem.sameDirectories_put hv buffer)
  written := by
    intro rel' hm buffer' hbuf
    rw [Filesystem.getElem?_put]
    by_cases he : brLocation (base ++ rel') = brLocation (base ++ rel)
    · have hloc := brLocation_injective (file_of_encodedBuffer hbuf).1 (file_of_encodedBuffer hb).1 he
      rw [hloc, hb, Option.some.injEq] at hbuf
      rw [if_pos he, hbuf]
    · rw [if_neg he]
      rcases List.mem_append.mp hm with hm | hm
      · exact h.written rel' hm buffer' hbuf
      · exact absurd (by rw [List.mem_singleton.mp hm]) he
  kept := by
    intro loc hloc
    rw [Filesystem.getElem?_put, if_neg (hloc rel (by simp) buffer hb)]
    exact h.kept loc fun rel' hm => hloc rel' (List.mem_append_left _ hm)

/-- A call of `encode` on a path that leads to a file of an encoded type. -/
theorem Written.encode {path : Bytes} {above : Location} (h : Written compress fs base done fs')
    (hr : fs'.resolve path = some (base ++ (above ++ [name])))
    (hr' : fs'.resolve (path ++ lit ".br") = some (base ++ (above ++ [brName name])))
    (hfile : fs.nodes[base ++ (above ++ [name])]? = some (.file content))
    (hc : Compressible (encodeFiletype name.val)) :
    ∃ fs'', Brotli.encode compress fs' path =
        ret (if (encodedBuffer compress fs (base ++ (above ++ [name]))).isSome then
          path ++ lit ".br" else [], fs'') ∧
      Written compress fs base (done ++ [above ++ [name]]) fs'' := by
  have hfile' : fs'.nodes[base ++ (above ++ [name])]? = some (.file content) := by
    rw [← List.append_assoc] at hfile ⊢
    rw [h.input hc, hfile]
  have hbuf := h.encodedBuffer_eq (base ++ (above ++ [name]))
  rw [← List.append_assoc] at hr hr' hfile'
  cases hb : encodedBuffer compress fs (base ++ (above ++ [name])) with
  | none =>
    rw [hb, ← List.append_assoc] at hbuf
    exact ⟨fs', encode_none_at hr hr' hfile' hc hbuf, h.skip hb⟩
  | some buffer =>
    rw [hb, ← List.append_assoc] at hbuf
    obtain ⟨hv, he⟩ := encode_some_at hr hr' hfile' hbuf
    have hp : base ++ above ++ [name] = base ++ (above ++ [name]) := List.append_assoc ..
    rw! [hp] at hv he
    exact ⟨_, he, h.put hb hv⟩

end Written

/-! ## The loop -/

/-- The entry of the table for the file at `loc` after the loop. -/
def finalDescriptor (compress : BrotliEncoderCompress) (fs : Filesystem) (loc : Location)
    (path : Bytes) : FileDescriptor :=
  if (encodedBuffer compress fs loc).isSome then
    (plainDescriptor path).withPath .BROTLI (encodedFrom path ++ lit ".br")
  else plainDescriptor path

/-- The same while the loop has been through the files of `done`. -/
def entryAfter (compress : BrotliEncoderCompress) (fs : Filesystem) (base : Location)
    (done : List Location) (rel : Location) (path : Bytes) : FileDescriptor :=
  if rel ∈ done then finalDescriptor compress fs (base ++ rel) path else plainDescriptor path

/-- The loop has been through the files of `done`; `fs` is the disk it began with. -/
structure Encoding (compress : BrotliEncoderCompress) (fs : Filesystem) (root : OsPath)
    (base : Location) (done : List Location) (table : FileTable) (fs' : Filesystem) : Prop where
  same : fs.SameDirectories fs'
  written : ∀ rel ∈ done, ∀ buffer, encodedBuffer compress fs (base ++ rel) = some buffer →
    fs'.nodes[brLocation (base ++ rel)]? = some (.file buffer)
  kept : ∀ loc, (∀ rel ∈ done, ∀ buffer, encodedBuffer compress fs (base ++ rel) = some buffer →
    loc ≠ brLocation (base ++ rel)) → fs'.nodes[loc]? = fs.nodes[loc]?
  entries : ∀ (path : Bytes) (file_descriptor : FileDescriptor),
    table[path]? = some file_descriptor ↔ ∃ (rel : Location) (content : Bytes),
      fs.nodes[base ++ rel]? = some (.file content) ∧ path = (root.below rel).val ∧
        file_descriptor = entryAfter compress fs base done rel path

variable {done : List Location}

theorem encoding_start (compress : BrotliEncoderCompress)
    (h : ListsFiles fs root base table) :
    Encoding compress fs root base [] table fs where
  same := .refl fs
  written := fun _ hm => nomatch hm
  kept := fun _ _ => rfl
  entries := by
    intro path file_descriptor
    have hplain : ∀ rel path, entryAfter compress fs base [] rel path = plainDescriptor path :=
      fun _ _ => if_neg List.not_mem_nil
    simp only [hplain]
    exact h path file_descriptor

theorem entryAfter_other {rel' : Location} (hne : rel' ≠ rel) (path : Bytes) :
    entryAfter compress fs base (done ++ [rel]) rel' path =
      entryAfter compress fs base done rel' path := by
  unfold entryAfter
  simp only [List.mem_append, List.mem_singleton, hne, or_false]

theorem entryAfter_self (path : Bytes) : entryAfter compress fs base (done ++ [rel]) rel path =
    finalDescriptor compress fs (base ++ rel) path :=
  if_pos (List.mem_append_right _ (List.mem_singleton_self rel))

theorem finalDescriptor_none (hb : encodedBuffer compress fs loc = none) (path : Bytes) :
    finalDescriptor compress fs loc path = plainDescriptor path := by
  rw [finalDescriptor, hb, if_neg (by simp)]

theorem finalDescriptor_some (hb : encodedBuffer compress fs loc = some buffer) (path : Bytes) :
    finalDescriptor compress fs loc path =
      (plainDescriptor path).withPath .BROTLI (encodedFrom path ++ lit ".br") :=
  if_pos (by rw [hb]; rfl)

/-- The loop changes the entry of a file in its BROTLI path alone. -/
theorem entryAfter_withPath (rel : Location) (path out : Bytes) :
    (entryAfter compress fs base done rel path).withPath .BROTLI out =
      (plainDescriptor path).withPath .BROTLI out := by
  unfold entryAfter finalDescriptor
  split
  · split
    · exact FileDescriptor.withPath_withPath _ _ _ _
    · rfl
  · rfl

theorem Encoding.toWritten (h : Encoding compress fs root base done table fs') :
    Written compress fs base done fs' :=
  ⟨h.same, h.written, h.kept⟩

/-- What `encode` does for a file of an encoded type while the loop runs. -/
theorem Encoding.encode {above : Location} (h : Encoding compress fs root base done table fs')
    (hroot : fs.directory root.val = some base)
    (hfile : fs.nodes[base ++ (above ++ [name])]? = some (.file content))
    (hc : Compressible (encodeFiletype name.val)) : ∃ fs'',
      Brotli.encode compress fs' (encodedFrom (root.below (above ++ [name])).val) =
        ret (if (encodedBuffer compress fs (base ++ (above ++ [name]))).isSome then
          encodedFrom (root.below (above ++ [name])).val ++ lit ".br" else [], fs'') ∧
      Written compress fs base (done ++ [above ++ [name]]) fs'' := by
  obtain ⟨hr, hr'⟩ := resolve_encodedFrom hroot hfile
  rw [← h.same.resolve] at hr hr'
  exact h.toWritten.encode hr hr' hfile hc

/-- A file for which nothing is written leaves the table as it is. -/
theorem Encoding.skip {fs'' : Filesystem} (h : Encoding compress fs root base done table fs')
    (hb : encodedBuffer compress fs (base ++ rel) = none)
    (hw : Written compress fs base (done ++ [rel]) fs'') :
    Encoding compress fs root base (done ++ [rel]) table fs'' where
  same := hw.same
  written := hw.written
  kept := hw.kept
  entries := by
    intro path file_descriptor
    rw [h.entries]
    have hsame : ∀ rel', entryAfter compress fs base (done ++ [rel]) rel' path =
        entryAfter compress fs base done rel' path := by
      intro rel'
      rcases eq_or_ne rel' rel with rfl | hne
      · rw [entryAfter_self, finalDescriptor_none hb, entryAfter, finalDescriptor_none hb, ite_self]
      · exact entryAfter_other hne path
    simp only [hsame]

/-- A file beside which the encoder's buffer is put gets its BROTLI path. -/
theorem Encoding.insert {fs'' : Filesystem} (h : Encoding compress fs root base done table fs')
    (hroot : fs.directory root.val = some base)
    (hb : encodedBuffer compress fs (base ++ rel) = some buffer)
    (hw : Written compress fs base (done ++ [rel]) fs'') :
    Encoding compress fs root base (done ++ [rel])
      (table.insert (root.below rel).val
        (finalDescriptor compress fs (base ++ rel) (root.below rel).val)) fs'' where
  same := hw.same
  written := hw.written
  kept := hw.kept
  entries := by
    intro path file_descriptor
    obtain ⟨-, content, hfile⟩ := file_of_encodedBuffer hb
    rw [getElem?_insert]
    by_cases hp : path = (root.below rel).val
    · subst hp
      rw [if_pos rfl, Option.some.injEq]
      constructor
      · rintro rfl
        exact ⟨rel, content, hfile, rfl, (entryAfter_self _).symm⟩
      · rintro ⟨rel', content', hfile', hpath, rfl⟩
        obtain rfl := OsPath.below_injective hroot hfile hfile' hpath
        exact (entryAfter_self _).symm
    · rw [if_neg hp, h.entries]
      have hne : ∀ rel', path = (root.below rel').val → rel' ≠ rel := by
        rintro rel' hpath rfl
        exact hp hpath
      constructor
      · rintro ⟨rel', content', hfile', hpath, rfl⟩
        exact ⟨rel', content', hfile', hpath, (entryAfter_other (hne rel' hpath) path).symm⟩
      · rintro ⟨rel', content', hfile', hpath, rfl⟩
        exact ⟨rel', content', hfile', hpath, entryAfter_other (hne rel' hpath) path⟩

theorem entryAfter_filename (done : List Location) (rel : Location) (path : Bytes) :
    (entryAfter compress fs base done rel path).filename = FsPath.filename path := by
  unfold entryAfter finalDescriptor
  split
  · split <;> rfl
  · rfl

theorem entryAfter_filetype (done : List Location) (rel : Location) (path : Bytes) :
    (entryAfter compress fs base done rel path).filetype = encodeFiletype (FsPath.filename path) := by
  unfold entryAfter finalDescriptor
  split
  · split <;> rfl
  · rfl

theorem filename_below (root : OsPath) (above : Location) (name : Name) :
    FsPath.filename (root.below (above ++ [name])).val = name.val := by
  rw [OsPath.below_concat]
  exact filename_append name.no_separator

/-! ## The rounds -/

/-- The call of `encode` for the file at `rel`. -/
def callFor (compress : BrotliEncoderCompress) (fs : Filesystem) (root : OsPath)
    (base rel : Location) : EncodeCall :=
  let file_path := encodedFrom (root.below rel).val
  ⟨file_path,
    if (encodedBuffer compress fs (base ++ rel)).isSome then file_path ++ lit ".br" else []⟩

/-- A file of an encoded type stands at `rel`. -/
def isInput (fs : Filesystem) (base rel : Location) : Bool :=
  match rel.getLast?, fs.nodes[base ++ rel]? with
  | some name, some (.file _) => decide (Compressible (encodeFiletype name.val))
  | _, _ => false

theorem isInput_concat {above : Location}
    (hfile : fs.nodes[base ++ (above ++ [name])]? = some (.file content)) :
    isInput fs base (above ++ [name]) = true ↔ Compressible (encodeFiletype name.val) := by
  rw [isInput, List.getLast?_concat, hfile]
  exact decide_eq_true_iff

theorem isInput_iff : isInput fs base rel = true ↔ ∃ above name content, rel = above ++ [name] ∧
    Compressible (encodeFiletype name.val) ∧ fs.nodes[base ++ rel]? = some (.file content) := by
  constructor
  · intro h
    unfold isInput at h
    split at h
    · next name content hl hfile =>
      exact ⟨rel.dropLast, name, content, (List.dropLast_append_getLast? name hl).symm,
        of_decide_eq_true h, hfile⟩
    · cases h
  · rintro ⟨above, name, content, rfl, hc, hfile⟩
    exact (isInput_concat hfile).mpr hc

/-- One round on an entry as the walk or the loop has left it. -/
theorem encodeEntry_entry {path : Bytes}
    (ht : table[path]? = some (entryAfter compress fs base done rel path)) (calls : List EncodeCall) :
    encodeEntry compress (calls, table, fs') path =
      if Compressible (encodeFiletype (FsPath.filename path)) then do
        let (output_path, fs'') ← Brotli.encode compress fs' (encodedFrom path)
        let calls := calls ++ [⟨encodedFrom path, output_path⟩]
        if output_path ≠ [] then
          ret (calls, table.insert path ((plainDescriptor path).withPath .BROTLI output_path), fs'')
        else ret (calls, table, fs'')
      else ret (calls, table, fs') := by
  unfold encodeEntry
  dsimp only
  rw [ht]
  dsimp only
  simp only [entryAfter_filename, entryAfter_filetype, entryAfter_withPath]
  rfl

/-- One round of the loop: the call for the file, if it is of an encoded type. -/
theorem Encoding.step (h : Encoding compress fs root base done table fs')
    (hroot : fs.directory root.val = some base)
    (hfile : fs.nodes[base ++ rel]? = some (.file content)) (calls : List EncodeCall) :
    ∃ table' fs'', encodeEntry compress (calls, table, fs') (root.below rel).val =
        ret (calls ++ if isInput fs base rel then [callFor compress fs root base rel] else [],
          table', fs'') ∧
      Encoding compress fs root base (done ++ [rel]) table' fs'' := by
  have hne := Filesystem.below_ne_nil (Filesystem.directory_eq_some.mp hroot).2 hfile
  obtain ⟨above, name, rfl⟩ := (List.eq_nil_or_concat' rel).resolve_left hne
  rw [encodeEntry_entry ((h.entries _ _).mpr ⟨_, content, hfile, rfl, rfl⟩), filename_below]
  by_cases hc : Compressible (encodeFiletype name.val)
  · obtain ⟨fs'', he, hw⟩ := h.encode hroot hfile hc
    rw [if_pos hc, if_pos ((isInput_concat hfile).mpr hc), he, ret_bind]
    cases hb : encodedBuffer compress fs (base ++ (above ++ [name])) with
    | none =>
      refine ⟨table, fs'', ?_, h.skip hb hw⟩
      rw [callFor, hb]
      rfl
    | some buffer =>
      have hout : encodedFrom (root.below (above ++ [name])).val ++ lit ".br" ≠ [] := by
        intro hnil
        exact absurd (List.append_eq_nil_iff.mp hnil).2 (by decide)
      refine ⟨_, fs'', ?_, h.insert hroot hb hw⟩
      rw [callFor, hb]
      simp only [Option.isSome_some, if_true]
      rw [if_pos hout, finalDescriptor_some hb]
  · have hb : encodedBuffer compress fs (base ++ (above ++ [name])) = none := by
      rw [← List.append_assoc]
      exact encodedBuffer_of_not hc
    rw [if_neg hc, if_neg (mt (isInput_concat hfile).mp hc), List.append_nil]
    exact ⟨table, fs', rfl, h.skip hb (h.toWritten.skip hb)⟩

/-- By induction on the files that are left. -/
theorem Encoding.run (h : Encoding compress fs root base done table fs')
    (hroot : fs.directory root.val = some base) {rels : List Location}
    (hfiles : ∀ rel ∈ rels, ∃ content, fs.nodes[base ++ rel]? = some (.file content))
    (calls : List EncodeCall) :
    ∃ table' fs'', (rels.map fun rel => (root.below rel).val).foldlM (encodeEntry compress)
        (calls, table, fs') = ret (calls ++ (rels.filter (isInput fs base)).map
          (callFor compress fs root base), table', fs'') ∧
      Encoding compress fs root base (done ++ rels) table' fs'' := by
  induction rels generalizing done table fs' calls with
  | nil => exact ⟨table, fs', by simp, by rwa [List.append_nil]⟩
  | cons rel rels ih =>
    obtain ⟨content, hfile⟩ := hfiles rel List.mem_cons_self
    obtain ⟨table₁, fs₁, hr, h₁⟩ := h.step hroot hfile calls
    obtain ⟨table₂, fs₂, hr', h₂⟩ :=
      ih h₁ (fun rel' hm => hfiles rel' (List.mem_cons_of_mem _ hm)) _
    refine ⟨table₂, fs₂, ?_, by rwa [List.append_assoc] at h₂⟩
    rw [List.map_cons, List.foldlM_cons, hr, ret_bind, hr']
    cases hi : isInput fs base rel with
    | true => simp [hi]
    | false => simp [hi]

/-! ## The start -/

/-- Table and disk after the start, in terms of the disk `fs` before it: an entry for each file
    below the root, an encoded file beside those that have one, and everything else as it was. -/
structure Started (compress : BrotliEncoderCompress) (fs : Filesystem) (root : OsPath)
    (base : Location) (table : FileTable) (fs' : Filesystem) : Prop where
  same : fs.SameDirectories fs'
  entries : ∀ (path : Bytes) (file_descriptor : FileDescriptor),
    table[path]? = some file_descriptor ↔ ∃ (rel : Location) (content : Bytes),
      fs.nodes[base ++ rel]? = some (.file content) ∧ path = (root.below rel).val ∧
        file_descriptor = finalDescriptor compress fs (base ++ rel) path
  written : ∀ rel buffer, encodedBuffer compress fs (base ++ rel) = some buffer →
    fs'.nodes[brLocation (base ++ rel)]? = some (.file buffer)
  kept : ∀ loc, (∀ rel buffer, encodedBuffer compress fs (base ++ rel) = some buffer →
    loc ≠ brLocation (base ++ rel)) → fs'.nodes[loc]? = fs.nodes[loc]?

/-- Once every file has been through the loop, it is done. -/
theorem Encoding.started (h : Encoding compress fs root base done table fs')
    (hdone : ∀ rel content, fs.nodes[base ++ rel]? = some (.file content) → rel ∈ done) :
    Started compress fs root base table fs' where
  same := h.same
  entries := by
    intro path file_descriptor
    rw [h.entries]
    constructor
    · rintro ⟨rel, content, hfile, hpath, rfl⟩
      exact ⟨rel, content, hfile, hpath, if_pos (hdone rel content hfile)⟩
    · rintro ⟨rel, content, hfile, hpath, rfl⟩
      exact ⟨rel, content, hfile, hpath, (if_pos (hdone rel content hfile)).symm⟩
  written := by
    intro rel buffer hb
    obtain ⟨-, content, hfile⟩ := file_of_encodedBuffer hb
    exact h.written rel (hdone rel content hfile) buffer hb
  kept := fun loc hloc => h.kept loc fun rel _ => hloc rel

/-- The keys of the table are the paths of the files below the root. -/
theorem ListsFiles.keys (h : ListsFiles fs root base table)
    (hroot : fs.directory root.val = some base) (iteration : TableOrder) :
    ∃ rels : List Location, iteration.keys table = rels.map (fun rel => (root.below rel).val) ∧
      ∀ rel, rel ∈ rels ↔ ∃ content, fs.nodes[base ++ rel]? = some (.file content) := by
  have hmem : ∀ path, path ∈ iteration.keys table ↔ ∃ (rel : Location) (content : Bytes),
      fs.nodes[base ++ rel]? = some (.file content) ∧ path = (root.below rel).val := by
    intro path
    rw [(iteration.perm table).mem_iff, mem_keys_iff]
    constructor
    · rintro ⟨file_descriptor, ht⟩
      obtain ⟨rel, content, hfile, hpath, -⟩ := (h path file_descriptor).mp ht
      exact ⟨rel, content, hfile, hpath⟩
    · rintro ⟨rel, content, hfile, hpath⟩
      exact ⟨_, (h path _).mpr ⟨rel, content, hfile, hpath, rfl⟩⟩
  let pathOf (file : {rel : Location // ∃ content, fs.nodes[base ++ rel]? = some (.file content)}) :=
    (root.below file.val).val
  obtain ⟨files, hfiles⟩ : iteration.keys table ∈ Set.range (List.map pathOf) := by
    rw [Set.range_list_map]
    intro path hm
    obtain ⟨rel, content, hfile, rfl⟩ := (hmem path).mp hm
    exact ⟨⟨rel, content, hfile⟩, rfl⟩
  refine ⟨files.map Subtype.val, by rw [← hfiles, List.map_map]; rfl, fun rel => ⟨fun hm => ?_, ?_⟩⟩
  · obtain ⟨file, -, rfl⟩ := List.mem_map.mp hm
    exact file.property
  · rintro ⟨content, hfile⟩
    have hin := (hmem _).mpr ⟨rel, content, hfile, rfl⟩
    rw [← hfiles] at hin
    obtain ⟨file, hm, hpath⟩ := List.mem_map.mp hin
    obtain ⟨content', hfile'⟩ := file.property
    rw [← OsPath.below_injective hroot hfile' hfile hpath]
    exact List.mem_map_of_mem hm

/-- **What the start leaves is a function of the tree below the root**, and it makes the call for
    each file of an encoded type, in the order in which the table is gone through. -/
theorem startFilesRecorded_started (compress : BrotliEncoderCompress) (order : DirectoryOrder)
    (iteration : TableOrder) (hroot : fs.directory root.val = some base) :
    ∃ (rels : List Location) (table : FileTable) (fs' : Filesystem),
      startFilesRecorded compress order iteration fs root =
        ret ((rels.filter (isInput fs base)).map (callFor compress fs root base), table, fs') ∧
      Started compress fs root base table fs' ∧ rels.Nodup ∧
      ∀ rel, rel ∈ rels ↔ ∃ content, fs.nodes[base ++ rel]? = some (.file content) := by
  obtain ⟨table, ht, hl⟩ := construct_lists order hroot
  obtain ⟨rels, hk, hr⟩ := hl.keys hroot iteration
  obtain ⟨table', fs', hrun, he⟩ :=
    (encoding_start compress hl).run hroot (fun rel hm => (hr rel).mp hm) []
  refine ⟨rels, table', fs', ?_, he.started fun rel content hfile => ?_, ?_, hr⟩
  · rw [startFilesRecorded, ht, ret_bind, generateEncodedFiles, hk, hrun, List.nil_append]
  · exact List.mem_append_right _ ((hr rel).mpr ⟨content, hfile⟩)
  · have hn : (iteration.keys table).Nodup := (iteration.perm table).nodup_iff.mpr
      Std.ExtTreeMap.nodup_keys
    rw [hk] at hn
    exact hn.of_map _

theorem startFiles_started (compress : BrotliEncoderCompress) (order : DirectoryOrder)
    (iteration : TableOrder) (hroot : fs.directory root.val = some base) :
    ∃ table fs', startFiles compress order iteration fs root = ret (table, fs') ∧
      Started compress fs root base table fs' := by
  obtain ⟨rels, table, fs', hr, hs, -, -⟩ :=
    startFilesRecorded_started compress order iteration hroot
  refine ⟨table, fs', ?_, hs⟩
  rw [startFiles, hr]
  rfl

theorem startFiles_throws (compress : BrotliEncoderCompress) (order : DirectoryOrder)
    (iteration : TableOrder) (hroot : fs.directory root.val = none) :
    startFiles compress order iteration fs root = Outcome.throw .filesystem_error := by
  rw [startFiles, startFilesRecorded, construct_throws order hroot, throw_bind, map_throw]

/-! ## A second start -/

variable {fs₁ fs₂ : Filesystem} {table₁ table₂ : FileTable}

/-- A start does not change what a start writes. -/
theorem Started.encodedBuffer_eq (h : Started compress fs root base table fs') (loc : Location) :
    encodedBuffer compress fs' loc = encodedBuffer compress fs loc := by
  refine encodedBuffer_congr rfl ?_ (h.same.dirs _) (by rw [h.same.refused_eq])
  intro name hn hc
  refine h.kept loc fun rel _ _ => ?_
  rw [← List.dropLast_append_getLast? name hn]
  exact brLocation_ne hc _

/-- The second start finds what it writes on the disk already. -/
theorem Started.again (h₁ : Started compress fs root base table₁ fs₁)
    (h₂ : Started compress fs₁ root base table₂ fs₂) : fs₂ = fs₁ := by
  refine Filesystem.ext_nodes (fun loc => ?_) h₂.same.cwd_eq h₂.same.refused_eq
  by_cases hw : ∃ rel buffer, encodedBuffer compress fs₁ (base ++ rel) = some buffer ∧
      loc = brLocation (base ++ rel)
  · obtain ⟨rel, buffer, hb, rfl⟩ := hw
    rw [h₂.written rel buffer hb, h₁.written rel buffer (by rw [← h₁.encodedBuffer_eq, hb])]
  · exact h₂.kept loc fun rel buffer hb he => hw ⟨rel, buffer, hb, he⟩

theorem below_brLocation (root : OsPath) (hne : rel ≠ []) :
    (root.below (brLocation rel)).val = (root.below rel).val ++ lit ".br" := by
  obtain ⟨above, name, rfl⟩ := (List.eq_nil_or_concat' rel).resolve_left hne
  rw [brLocation_concat, OsPath.below_concat, OsPath.below_concat]
  exact (append_concat name.no_separator (by decide)).symm

end SimpleServ.Utility
