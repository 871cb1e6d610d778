import SimpleServ.Lib.Frontier
import SimpleServ.Utility.EncodeCalls

/-
  `FileEncoder::encode_directory` (content_coding.cpp): the walk that encodes as it goes.

  It writes into a directory while that is being listed. What the listing shows is a
  parameter (`LiveListing`): all that the directory held when it was opened, in any order, and
  of what has been created since as much as one likes. A name comes up once, and one that is
  not on the disk when its turn comes does not come up.

  `encodeDirectory_agrees`: the walk calls `encode` for the files that the start of the server
  calls it for, each once, and leaves the same disk.
-/

namespace SimpleServ.Utility

open SimpleServ.Cxx SimpleServ.Lib Outcome

/-- What a directory shows from its opening to its end. -/
structure LiveListing where
  names : Filesystem → Location → List Name
  nodup : ∀ fs loc, (names fs loc).Nodup
  complete : ∀ fs loc name, name ∈ fs.children loc → name ∈ names fs loc

/-- The directories still to go through, the calls of `encode` so far and the disk. The calls
    are a record that the code does not keep. -/
abbrev EncoderState := List OsPath × List EncodeCall × Filesystem

/-- One entry of the listing of `current_directory`. -/
def encodeListed (compress : BrotliEncoderCompress) (current_directory : OsPath)
    (state : EncoderState) (name : Name) : Outcome EncoderState :=
  let (directories, calls, fs) := state
  let dir_entry := current_directory.append name
  if fs.isDirectory dir_entry.val then ret (dir_entry :: directories, calls, fs)
  else if (fs.file dir_entry.val).isNone then ret state
  else
    let filename := FsPath.filename dir_entry.val
    let extension := FsPath.extension dir_entry.val
    if extension = lit ".html" ∨ extension = lit ".css" ∨ extension = lit ".js" then do
      let file_path := FsPath.append current_directory.val filename
      let (output_path, fs) ← Brotli.encode compress fs file_path
      ret (directories, calls ++ [⟨file_path, output_path⟩], fs)
    else ret state

variable {compress : BrotliEncoderCompress} {live : LiveListing} {fs fs' : Filesystem}
  {root current_directory : OsPath} {base rel above : Location} {name : Name}
  {content : Bytes} {directories : List OsPath} {calls : List EncodeCall}
  {done : List Location} {names : List Name}

/-! ## The loop ends -/

theorem encode_same {path out : Bytes} (h : Brotli.encode compress fs path = ret (out, fs')) :
    fs.SameDirectories fs' := by
  unfold Brotli.encode writeToFile at h
  split at h
  · cases h
  · split at h
    · cases h
      exact .refl fs
    · dsimp only at h
      split at h
      · next hw =>
        cases h
        obtain ⟨loc, hv, -, rfl⟩ := Filesystem.writeFile_eq_some hw
        exact Filesystem.sameDirectories_put hv _
      · cases h
        exact .refl fs

/-- An entry pushes itself, if it is a directory, and creates files at most. -/
theorem encodeListed_pushes {state state' : EncoderState}
    (h : encodeListed compress current_directory state name = ret state') :
    ∃ pushed, state'.1 = pushed ++ state.1 ∧ state.2.2.SameDirectories state'.2.2 ∧
      ∀ p ∈ pushed, ∃ name, p = current_directory.append name ∧
        state.2.2.isDirectory p.val = true := by
  obtain ⟨directories, calls, fs⟩ := state
  unfold encodeListed at h
  dsimp only at h
  split at h
  · next hd =>
    cases h
    refine ⟨[current_directory.append name], rfl, .refl fs, fun p hp => ?_⟩
    rw [List.mem_singleton.mp hp]
    exact ⟨name, rfl, hd⟩
  · split at h
    · cases h
      exact ⟨[], rfl, .refl fs, nofun⟩
    · split at h
      · obtain ⟨⟨out, fs'⟩, he, hr⟩ := bind_eq_ret h
        cases hr
        exact ⟨[], rfl, encode_same he, nofun⟩
      · cases h
        exact ⟨[], rfl, .refl fs, nofun⟩

theorem encodeListing_pushes {state state' : EncoderState}
    (h : names.foldlM (encodeListed compress current_directory) state = ret state') :
    ∃ pushed, state'.1 = pushed ++ state.1 ∧ state.2.2.SameDirectories state'.2.2 ∧
      ∀ p ∈ pushed, ∃ name, p = current_directory.append name ∧
        state.2.2.isDirectory p.val = true := by
  induction names generalizing state with
  | nil =>
    cases h
    exact ⟨[], rfl, .refl _, nofun⟩
  | cons name names ih =>
    rw [List.foldlM_cons] at h
    obtain ⟨state₁, h₁, h₂⟩ := bind_eq_ret h
    obtain ⟨pushed₁, he₁, hs₁, hp₁⟩ := encodeListed_pushes h₁
    obtain ⟨pushed₂, he₂, hs₂, hp₂⟩ := ih h₂
    refine ⟨pushed₂ ++ pushed₁, by rw [he₂, he₁, List.append_assoc], hs₁.trans hs₂, ?_⟩
    intro p hp
    rcases List.mem_append.mp hp with hp | hp
    · obtain ⟨name, rfl, hd⟩ := hp₂ p hp
      exact ⟨name, rfl, by rwa [Filesystem.isDirectory, hs₁.directory] at hd⟩
    · exact hp₁ p hp

theorem depthsLeft_same (h : fs.SameDirectories fs') (directories : List OsPath) :
    depthsLeft fs' directories = depthsLeft fs directories := by
  have hd : depthLeft fs' = depthLeft fs := by
    funext path
    rw [depthLeft, depthLeft, h.height, h.directory]
  rw [depthsLeft, depthsLeft, hd]

/-- The loop of `encode_directory`. -/
def encodeFrom (compress : BrotliEncoderCompress) (live : LiveListing) :
    List OsPath → List EncodeCall → Filesystem → Outcome (List EncodeCall × Filesystem)
  | [], calls, fs => ret (calls, fs)
  | current_directory :: directories, calls, fs =>
    match _hd : fs.directory current_directory.val with
    | none => throw .filesystem_error
    | some loc =>
      match _hs : (live.names fs loc).foldlM (encodeListed compress current_directory)
          (directories, calls, fs) with
      | ret (directories', calls', fs') => encodeFrom compress live directories' calls' fs'
      | .throw e => .throw e
      | .ub => .ub
      | .killed => .killed
termination_by directories _ fs => depthsLeft fs directories
decreasing_by
  obtain ⟨pushed, he, hs, hp⟩ := encodeListing_pushes _hs
  dsimp only at he hs hp
  rw [he, depthsLeft_same hs]
  exact depthsLeft_pushed _hd hp directories

def encodeDirectory (compress : BrotliEncoderCompress) (live : LiveListing) (fs : Filesystem)
    (path : OsPath) : Outcome (List EncodeCall × Filesystem) :=
  encodeFrom compress live [path] [] fs

/-! ## One entry of a listing -/

theorem extension_of_compressible : ∀ entry ∈ extensionMap, Compressible entry.2 →
    entry.1 = lit ".html" ∨ entry.1 = lit ".css" ∨ entry.1 = lit ".js" := by
  decide

/-- The extensions that the walk tests are those of the encoded types. -/
theorem compressible_iff_extension (filename : Bytes) : Compressible (encodeFiletype filename) ↔
    FsPath.extension filename = lit ".html" ∨ FsPath.extension filename = lit ".css" ∨
      FsPath.extension filename = lit ".js" := by
  rw [encodeFiletype]
  generalize FsPath.extension filename = extension
  constructor
  · intro h
    cases hl : extensionMap.lookup extension with
    | none =>
      rw [hl] at h
      exact absurd h (by decide)
    | some filetype =>
      rw [hl] at h
      obtain ⟨front, rest, hmap, -⟩ := List.lookup_eq_some_iff.mp hl
      have hm : (extension, filetype) ∈ extensionMap := by
        rw [hmap]
        exact List.mem_append_right _ List.mem_cons_self
      exact extension_of_compressible _ hm h
  · rintro (rfl | rfl | rfl) <;> decide

/-- The call of `encode` that the walk makes for the file at `rel`. -/
def listedCall (compress : BrotliEncoderCompress) (fs : Filesystem) (root : OsPath)
    (base rel : Location) : EncodeCall :=
  let file_path := (root.below rel).val
  ⟨file_path, if (encodedBuffer compress fs (base ++ rel)).isSome then file_path ++ lit ".br" else []⟩

/-- A directory stands at the name. -/
def isSubdirectory (fs : Filesystem) (loc : Location) (name : Name) : Bool :=
  decide (fs.nodes[loc ++ [name]]? = some .dir)

theorem Written.exists (h : Written compress fs base done fs') {loc : Location} {node : Node}
    (hn : fs.nodes[loc]? = some node) : ∃ node', fs'.nodes[loc]? = some node' := by
  by_cases hw : ∃ rel ∈ done, ∃ buffer, encodedBuffer compress fs (base ++ rel) = some buffer ∧
      loc = brLocation (base ++ rel)
  · obtain ⟨rel, hm, buffer, hb, rfl⟩ := hw
    exact ⟨_, h.written rel hm buffer hb⟩
  · refine ⟨node, ?_⟩
    rw [h.kept loc fun rel hm buffer hb he => hw ⟨rel, hm, buffer, hb, he⟩, hn]

/-- An entry of the listing, in terms of what stands there. -/
theorem encodeListed_eq {loc : Location}
    (hr : fs.resolve (FsPath.append current_directory.val name.val) = some (loc ++ [name]))
    (directories : List OsPath) (calls : List EncodeCall) :
    encodeListed compress current_directory (directories, calls, fs) name =
      match fs.nodes[loc ++ [name]]? with
      | some .dir => ret (current_directory.append name :: directories, calls, fs)
      | some (.file _) =>
        if Compressible (encodeFiletype name.val) then do
          let (output_path, fs) ← Brotli.encode compress fs (current_directory.append name).val
          ret (directories, calls ++ [⟨(current_directory.append name).val, output_path⟩], fs)
        else ret (directories, calls, fs)
      | none => ret (directories, calls, fs) := by
  have hval : (current_directory.append name).val = FsPath.append current_directory.val name.val := rfl
  have hfilename : FsPath.filename (FsPath.append current_directory.val name.val) = name.val :=
    filename_append name.no_separator
  have hextension : FsPath.extension (FsPath.append current_directory.val name.val) =
      FsPath.extension name.val := by
    rw [FsPath.extension, FsPath.extension, hfilename, filename_of_no_separator name.no_separator]
  unfold encodeListed
  dsimp only
  rw [hval, hfilename, hextension, Filesystem.isDirectory, Filesystem.directory, Filesystem.file, hr]
  cases hn : fs.nodes[loc ++ [name]]? with
  | none => simp [hn]
  | some node =>
    cases node with
    | dir => simp [hn]
    | file content => simp [hn, compressible_iff_extension]

theorem isInput_concat_iff : isInput fs base (above ++ [name]) = true ↔
    Compressible (encodeFiletype name.val) ∧
      ∃ content, fs.nodes[base ++ (above ++ [name])]? = some (.file content) := by
  constructor
  · intro h
    obtain ⟨above', name', content, he, hc, hfile⟩ := isInput_iff.mp h
    obtain ⟨-, hn⟩ := List.append_inj' he rfl
    rw [← List.singleton_inj.mp hn] at hc
    exact ⟨hc, content, hfile⟩
  · rintro ⟨hc, content, hfile⟩
    exact (isInput_concat hfile).mpr hc

theorem isInput_of_no_file
    (h : ∀ content, fs.nodes[base ++ above ++ [name]]? ≠ some (.file content)) :
    isInput fs base (above ++ [name]) = false := by
  rw [Bool.eq_false_iff]
  intro hi
  obtain ⟨-, content, hfile⟩ := isInput_concat_iff.mp hi
  rw [← List.append_assoc] at hfile
  exact h content hfile

/-- One entry of the listing: what it does is known from the disk before the walk. -/
theorem Written.encodeListed (h : Written compress fs base done fs')
    (hroot : fs.directory root.val = some base) (hdir : fs.nodes[base ++ above]? = some .dir)
    (directories : List OsPath) (calls : List EncodeCall) (name : Name) :
    ∃ fs'', encodeListed compress (root.below above) (directories, calls, fs') name =
        ret ((if isSubdirectory fs (base ++ above) name then
            (root.below above).append name :: directories else directories),
          (if isInput fs base (above ++ [name]) then
            calls ++ [listedCall compress fs root base (above ++ [name])] else calls), fs'') ∧
      Written compress fs base
        (if isInput fs base (above ++ [name]) then done ++ [above ++ [name]] else done) fs'' := by
  have hresolve : ∀ name : Name, fs'.resolve (FsPath.append (root.below above).val name.val) =
      some (base ++ above ++ [name]) := by
    intro name
    rw [h.same.resolve]
    exact Filesystem.resolve_append (root.below above).property (OsPath.directory_below hroot hdir) name
  rw [encodeListed_eq (hresolve name)]
  unfold isSubdirectory
  by_cases hd : fs.nodes[base ++ above ++ [name]]? = some .dir
  · have hin : isInput fs base (above ++ [name]) = false :=
      isInput_of_no_file fun content hfile => nomatch hd.symm.trans hfile
    rw [(h.same.dirs _).mpr hd, decide_eq_true hd, hin]
    exact ⟨fs', rfl, h⟩
  rw [decide_eq_false hd]
  by_cases hc : Compressible (encodeFiletype name.val)
  · rw [h.input hc]
    cases hn : fs.nodes[base ++ above ++ [name]]? with
    | none =>
      have hin : isInput fs base (above ++ [name]) = false :=
        isInput_of_no_file fun content hfile => nomatch hn.symm.trans hfile
      rw [hin]
      exact ⟨fs', rfl, h⟩
    | some node =>
      cases node with
      | dir => exact absurd hn hd
      | file content =>
        rw [List.append_assoc] at hn
        have hr := hresolve name
        have hr' := hresolve (brName name)
        have hbr : FsPath.append (root.below above).val (brName name).val =
            FsPath.append (root.below above).val name.val ++ lit ".br" :=
          (append_concat name.no_separator (by decide)).symm
        rw [hbr] at hr'
        rw [List.append_assoc] at hr hr'
        obtain ⟨fs'', he, hw⟩ := h.encode hr hr' hn hc
        rw [(isInput_concat hn).mpr hc]
        refine ⟨fs'', ?_, hw⟩
        have hval : ((root.below above).append name).val =
            FsPath.append (root.below above).val name.val := rfl
        dsimp only
        rw [if_pos hc, hval, he, ret_bind, if_pos rfl, listedCall, OsPath.below_concat]
        rfl
  · have hin : isInput fs base (above ++ [name]) = false := by
      rw [Bool.eq_false_iff]
      exact fun hi => hc (isInput_concat_iff.mp hi).1
    rw [hin]
    refine ⟨fs', ?_, h⟩
    cases hn : fs'.nodes[base ++ above ++ [name]]? with
    | none => rfl
    | some node =>
      cases node with
      | dir => exact absurd ((h.same.dirs _).mp hn) hd
      | file content =>
        dsimp only
        rw [if_neg hc]
        rfl

/-- A whole listing: by induction on the names it shows. -/
theorem Written.encodeListing (h : Written compress fs base done fs')
    (hroot : fs.directory root.val = some base) (hdir : fs.nodes[base ++ above]? = some .dir)
    (directories : List OsPath) (calls : List EncodeCall) (names : List Name) :
    ∃ fs'', names.foldlM (Utility.encodeListed compress (root.below above))
        (directories, calls, fs') =
          ret (((names.filter (isSubdirectory fs (base ++ above))).reverse.map
              fun name => root.below (above ++ [name])) ++ directories,
            calls ++ ((names.filter fun name => isInput fs base (above ++ [name])).map
              fun name => above ++ [name]).map (listedCall compress fs root base), fs'') ∧
      Written compress fs base
        (done ++ (names.filter fun name => isInput fs base (above ++ [name])).map
          fun name => above ++ [name]) fs'' := by
  induction names generalizing done fs' directories calls with
  | nil => exact ⟨fs', by simp, by simpa using h⟩
  | cons name names ih =>
    obtain ⟨fs₁, he, h₁⟩ := h.encodeListed hroot hdir directories calls name
    obtain ⟨fs₂, hrun, h₂⟩ := ih h₁ _ _
    rw [List.foldlM_cons, he, ret_bind, hrun, List.filter_cons, List.filter_cons]
    refine ⟨fs₂, ?_, ?_⟩
    · cases isSubdirectory fs (base ++ above) name <;>
        cases isInput fs base (above ++ [name]) <;> simp [OsPath.below_concat]
    · cases hi : isInput fs base (above ++ [name]) with
      | false => simpa [hi] using h₂
      | true => simpa [hi] using h₂

/-! ## The walk -/

theorem not_isInput_of_dir (hdir : fs.nodes[base ++ rel]? = some .dir) :
    ¬ isInput fs base rel = true := by
  intro hi
  obtain ⟨above, name, content, rfl, -, hfile⟩ := isInput_iff.mp hi
  rw [hdir] at hfile
  cases hfile

theorem encodeFrom_cons {loc : Location} {state : EncoderState}
    (hd : fs.directory current_directory.val = some loc)
    (hs : (live.names fs loc).foldlM (encodeListed compress current_directory)
      (directories, calls, fs) = ret state) :
    encodeFrom compress live (current_directory :: directories) calls fs =
      encodeFrom compress live state.1 state.2.1 state.2.2 := by
  rw [encodeFrom]
  split
  · next hn =>
    rw [hd] at hn
    cases hn
  · next hn =>
    rw [hd] at hn
    cases hn
    split
    · next he =>
      rw [hs] at he
      cases he
      rfl
    · next he =>
      rw [hs] at he
      cases he
    · next he =>
      rw [hs] at he
      cases he
    · next he =>
      rw [hs] at he
      cases he

/-- A directory's listing meets the inputs in it, and pushes what leads to the others. -/
theorem frontier_listing {names : List Name} {stack : List Location}
    (h : Frontier (fun rel => isInput fs base rel = true) (above :: stack) done)
    (hdir : fs.nodes[base ++ above]? = some .dir) (hn : names.Nodup)
    (hcomplete : ∀ name node, fs.nodes[base ++ above ++ [name]]? = some node → name ∈ names) :
    Frontier (fun rel => isInput fs base rel = true)
      (((names.filter (isSubdirectory fs (base ++ above))).reverse.map
        fun name => above ++ [name]) ++ stack)
      (done ++ (names.filter fun name => isInput fs base (above ++ [name])).map
        fun name => above ++ [name]) := by
  refine h.step (List.nodup_reverse.mpr (hn.filter _)) (hn.filter _) ?_ ?_ (not_isInput_of_dir hdir) ?_
  · intro name hp hm
    have hd := of_decide_eq_true (List.mem_filter.mp (List.mem_reverse.mp hp)).2
    rw [List.append_assoc] at hd
    exact not_isInput_of_dir hd (List.mem_filter.mp hm).2
  · intro name hm
    exact (List.mem_filter.mp hm).2
  · intro name rest hi
    obtain ⟨-, -, content, -, -, hfile⟩ := isInput_iff.mp hi
    obtain ⟨node, hnode, hrest⟩ := child_above hfile
    rw [← List.append_assoc] at hnode
    have hmem := hcomplete name node hnode
    by_cases hd : node = .dir
    · left
      rw [hd] at hnode
      exact List.mem_reverse.mpr (List.mem_filter.mpr ⟨hmem, decide_eq_true hnode⟩)
    · right
      obtain rfl := hrest hd
      exact ⟨List.mem_filter.mpr ⟨hmem, hi⟩, rfl⟩

/-- The walk has called `encode` for `done` and stacked the directories `stack`. -/
structure Encodes (compress : BrotliEncoderCompress) (fs : Filesystem) (root : OsPath)
    (base : Location) (stack done : List Location) (state : EncoderState) : Prop where
  directories : state.1 = stack.map root.below
  stacked : ∀ rel ∈ stack, fs.nodes[base ++ rel]? = some .dir
  frontier : Frontier (fun rel => isInput fs base rel = true) stack done
  calls : state.2.1 = done.map (listedCall compress fs root base)
  written : Written compress fs base done state.2.2

theorem encodes_start (compress : BrotliEncoderCompress) (hroot : fs.directory root.val = some base) :
    Encodes compress fs root base [[]] [] ([root], [], fs) where
  directories := rfl
  stacked := by
    intro rel hm
    rw [List.mem_singleton.mp hm, List.append_nil]
    exact (Filesystem.directory_eq_some.mp hroot).2
  frontier := frontier_start _
  calls := rfl
  written := written_start compress fs base

/-- One directory of the stack. -/
theorem Encodes.step {stack : List Location}
    (h : Encodes compress fs root base stack done (current_directory :: directories, calls, fs'))
    (hroot : fs.directory root.val = some base) (live : LiveListing) :
    ∃ loc state, fs'.directory current_directory.val = some loc ∧
      (live.names fs' loc).foldlM (encodeListed compress current_directory)
        (directories, calls, fs') = ret state ∧
      ∃ stack' done', Encodes compress fs root base stack' done' state := by
  cases stack with
  | nil => cases h.directories
  | cons above stack =>
    obtain ⟨rfl, rfl⟩ := List.cons.inj h.directories
    have hdir := h.stacked above List.mem_cons_self
    have hd : fs'.directory (root.below above).val = some (base ++ above) := by
      rw [h.written.same.directory]
      exact OsPath.directory_below hroot hdir
    have hc : calls = done.map (listedCall compress fs root base) := h.calls
    obtain ⟨fs'', hrun, hw⟩ := h.written.encodeListing hroot hdir (stack.map root.below) calls
      (live.names fs' (base ++ above))
    refine ⟨_, _, hd, hrun, ((((live.names fs' (base ++ above)).filter
      (isSubdirectory fs (base ++ above))).reverse.map fun name => above ++ [name]) ++ stack), _,
      ?_, ?_, ?_, ?_, hw⟩
    · simp [Function.comp_def]
    · intro rel hm
      rcases List.mem_append.mp hm with hm | hm
      · obtain ⟨name, hn, rfl⟩ := List.mem_map.mp hm
        rw [← List.append_assoc]
        exact of_decide_eq_true (List.mem_filter.mp (List.mem_reverse.mp hn)).2
      · exact h.stacked rel (List.mem_cons_of_mem _ hm)
    · refine frontier_listing h.frontier hdir (live.nodup _ _) fun name node hn => ?_
      obtain ⟨node', hn'⟩ := h.written.exists hn
      exact live.complete _ _ _ (Filesystem.mem_children.mpr ⟨node', hn'⟩)
    · rw [hc, List.map_append]

/-- What the listing of the directory on top leaves, where the walk has found the directory. -/
theorem Encodes.listing {stack : List Location} {loc : Location}
    (h : Encodes compress fs root base stack done (current_directory :: directories, calls, fs'))
    (hroot : fs.directory root.val = some base) (live : LiveListing)
    (hd : fs'.directory current_directory.val = some loc) :
    ∃ state, (live.names fs' loc).foldlM (encodeListed compress current_directory)
        (directories, calls, fs') = ret state ∧
      ∃ stack' done', Encodes compress fs root base stack' done' state := by
  obtain ⟨loc', state, hd', hs, hnext⟩ := h.step hroot live
  rw [hd] at hd'
  cases hd'
  exact ⟨state, hs, hnext⟩

/-- The walk comes to its end with every input met once: by induction on its loop. -/
theorem encodeFrom_meets {stack : List Location} (live : LiveListing)
    (hroot : fs.directory root.val = some base)
    (h : Encodes compress fs root base stack done (directories, calls, fs')) :
    ∃ done' calls' fs'', encodeFrom compress live directories calls fs' = ret (calls', fs'') ∧
      Encodes compress fs root base [] done' ([], calls', fs'') := by
  induction directories, calls, fs' using encodeFrom.induct compress live generalizing stack done with
  | case1 calls fs' =>
    obtain rfl := List.map_eq_nil_iff.mp h.directories.symm
    exact ⟨done, calls, fs', by rw [encodeFrom], h⟩
  | case2 p directories calls fs' hd =>
    obtain ⟨loc, -, hd', -⟩ := h.step hroot live
    rw [hd'] at hd
    cases hd
  | case3 p directories calls fs' loc hd directories₁ calls₁ fs₁ hs ih =>
    obtain ⟨state, hs', stack', done', h'⟩ := h.listing hroot live hd
    rw [hs] at hs'
    cases hs'
    obtain ⟨done₂, calls₂, fs₂, hrun, h₂⟩ := ih h'
    exact ⟨done₂, calls₂, fs₂, (encodeFrom_cons hd hs).trans hrun, h₂⟩
  | case4 p directories calls fs' loc hd e hs =>
    obtain ⟨state, hs', -⟩ := h.listing hroot live hd
    rw [hs] at hs'
    cases hs'
  | case5 p directories calls fs' loc hd hs =>
    obtain ⟨state, hs', -⟩ := h.listing hroot live hd
    rw [hs] at hs'
    cases hs'
  | case6 p directories calls fs' loc hd hs =>
    obtain ⟨state, hs', -⟩ := h.listing hroot live hd
    rw [hs] at hs'
    cases hs'

/-! ## Both ways -/

/-- Two disks with the same encoded files are the same. -/
theorem Written.unique {fs'' : Filesystem} (h : Written compress fs base done fs')
    (h' : Written compress fs base done fs'') : fs' = fs'' := by
  refine Filesystem.ext_nodes (fun loc => ?_) ?_ ?_
  · by_cases hw : ∃ rel ∈ done, ∃ buffer, encodedBuffer compress fs (base ++ rel) = some buffer ∧
        loc = brLocation (base ++ rel)
    · obtain ⟨rel, hm, buffer, hb, rfl⟩ := hw
      rw [h.written rel hm buffer hb, h'.written rel hm buffer hb]
    · have hloc : ∀ rel ∈ done, ∀ buffer, encodedBuffer compress fs (base ++ rel) = some buffer →
          loc ≠ brLocation (base ++ rel) :=
        fun rel hm buffer hb he => hw ⟨rel, hm, buffer, hb, he⟩
      rw [h.kept loc hloc, h'.kept loc hloc]
  · rw [h.same.cwd_eq, h'.same.cwd_eq]
  · rw [h.same.refused_eq, h'.same.refused_eq]

theorem Started.toWritten {table : FileTable} (h : Started compress fs root base table fs')
    (hd : ∀ rel buffer, encodedBuffer compress fs (base ++ rel) = some buffer → rel ∈ done) :
    Written compress fs base done fs' :=
  ⟨h.same, fun rel _ => h.written rel,
    fun loc hloc => h.kept loc fun rel buffer hb => hloc rel (hd rel buffer hb) buffer hb⟩

/-- What is written beside a file is written for an input. -/
theorem isInput_of_encodedBuffer {buffer : Bytes} (hbase : fs.nodes[base]? = some .dir)
    (hb : encodedBuffer compress fs (base ++ rel) = some buffer) : isInput fs base rel = true := by
  obtain ⟨-, content, hfile⟩ := file_of_encodedBuffer hb
  have hne := Filesystem.below_ne_nil hbase hfile
  obtain ⟨above, name, rfl⟩ := (List.eq_nil_or_concat' rel).resolve_left hne
  exact (isInput_concat hfile).mpr (compressible_of_buffer (by rw [hb]; rfl))

/-- Calls for inputs lead to these inputs. -/
theorem resolve_calls {callOf : Location → EncodeCall}
    (hcall : ∀ rel, isInput fs base rel = true →
      fs.resolve (callOf rel).path = some (base ++ rel))
    (hin : ∀ rel ∈ done, isInput fs base rel = true) :
    ((done.map callOf).map fun call => fs.resolve call.path) =
      (done.map (base ++ ·)).map some := by
  rw [List.map_map, List.map_map]
  exact List.map_congr_left fun rel hm => hcall rel (hin rel hm)

/-- **Both ways of encoding a directory call `encode` for the same files, each of them once, and
    leave the same disk.** -/
theorem encodeDirectory_agrees (compress : BrotliEncoderCompress) (live : LiveListing)
    (order : DirectoryOrder) (iteration : TableOrder) (fs : Filesystem) (root : OsPath)
    (base : Location) (hroot : fs.directory root.val = some base) :
    ∃ (calls calls' : List EncodeCall) (table : FileTable) (fs' : Filesystem)
        (files : List Location),
      encodeDirectory compress live fs root = ret (calls, fs') ∧
      startFilesRecorded compress order iteration fs root = ret (calls', table, fs') ∧
      files.Nodup ∧ (calls.map fun call => fs.resolve call.path).Perm (files.map some) ∧
      (calls'.map fun call => fs.resolve call.path).Perm (files.map some) := by
  obtain ⟨done, calls, fs', hrun, h⟩ :=
    encodeFrom_meets live hroot (encodes_start compress hroot)
  obtain ⟨rels, table, fs'', hstart, hs, hnodup, hrels⟩ :=
    startFilesRecorded_started compress order iteration hroot
  obtain ⟨hdone, hmem⟩ := h.frontier.complete
  have hcalls : calls = done.map (listedCall compress fs root base) := h.calls
  have hdir := (Filesystem.directory_eq_some.mp hroot).2
  have hdisk : fs'' = fs' := by
    refine (hs.toWritten fun rel buffer hb => ?_).unique h.written
    exact (hmem rel).mpr (isInput_of_encodedBuffer hdir hb)
  have hperm : (rels.filter (isInput fs base)).Perm done := by
    refine (List.perm_ext_iff_of_nodup (hnodup.filter _) hdone).mpr fun rel => ?_
    rw [hmem, List.mem_filter, hrels]
    constructor
    · exact fun hm => hm.2
    · intro hi
      obtain ⟨above, name, content, rfl, -, hfile⟩ := isInput_iff.mp hi
      exact ⟨⟨content, hfile⟩, hi⟩
  refine ⟨calls, _, table, fs', done.map (base ++ ·), hrun, hdisk ▸ hstart, ?_, ?_, ?_⟩
  · exact hdone.map fun rel rel' he => List.append_cancel_left he
  · rw [hcalls, resolve_calls ?_ fun rel hm => (hmem rel).mp hm]
    intro rel hi
    obtain ⟨above, name, content, rfl, -, hfile⟩ := isInput_iff.mp hi
    exact OsPath.resolve_below hroot hfile
  · rw [resolve_calls ?_ fun rel hm => (List.mem_filter.mp hm).2]
    · exact (hperm.map _).map _
    · intro rel hi
      obtain ⟨above, name, content, rfl, -, hfile⟩ := isInput_iff.mp hi
      exact (resolve_encodedFrom hroot hfile).1

/-- Listings that show the encoded files behind the others. -/
def LiveListing.withEncoded : LiveListing where
  names fs loc := fs.children loc ++
    ((fs.children loc).map brName).filter fun name => name ∉ fs.children loc
  nodup := by
    intro fs loc
    have hbr := ((fs.nodup_children loc).map fun _ _ h => brName_injective h).filter
      fun name => name ∉ fs.children loc
    refine List.Nodup.append (fs.nodup_children loc) hbr fun name hm hm' => ?_
    exact of_decide_eq_true (List.mem_filter.mp hm').2 hm
  complete := fun _ _ _ hm => List.mem_append_left _ hm

/-- Both ways make one call on the script's file system, for the script. -/
theorem encodeDirectory_agrees_script :
    ∃ (call call' : EncodeCall) (table : FileTable) (fs' : Filesystem),
      encodeDirectory storeBuffer .withEncoded scriptSystem scriptRoot = ret ([call], fs') ∧
      startFilesRecorded storeBuffer .sorted .sorted scriptSystem scriptRoot =
        ret ([call'], table, fs') ∧
      scriptSystem.resolve call.path = some [scriptName] ∧
      scriptSystem.resolve call'.path = some [scriptName] := by
  obtain ⟨calls, calls', table, fs', files, hrun, hstart, -, hcalls, hcalls'⟩ :=
    encodeDirectory_agrees storeBuffer .withEncoded .sorted .sorted scriptSystem scriptRoot []
      (Filesystem.directory_root _)
  obtain ⟨table', fs'', hone⟩ := startFilesRecorded_script
  rw [hone, ret.injEq, Prod.mk.injEq] at hstart
  obtain ⟨rfl, htable⟩ := hstart
  have hresolve : scriptSystem.resolve (lit "/a.js") = some [scriptName] := by decide
  have hmap : calls.map (fun call => scriptSystem.resolve call.path) = [some [scriptName]] := by
    rw [← List.perm_singleton, ← hresolve]
    exact hcalls.trans hcalls'.symm
  obtain ⟨call, rest, rfl, hcall, hrest⟩ := List.map_eq_cons_iff.mp hmap
  obtain rfl := List.map_eq_nil_iff.mp hrest
  exact ⟨call, _, table, fs', hrun, htable ▸ hone, hcall, hresolve⟩

end SimpleServ.Utility
