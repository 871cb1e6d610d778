import SimpleServ.Http.Confinement

/-
  A second start of the server, on the disk that the first one has left.

  The first start puts an encoded file beside each file of an encoded type. The second one
  walks over these too. It writes what is there already, but it lists them as files of their
  own, of type `TEXT_PLAIN`.

  `restart_unseen_iff`: the answer to a request is the same after both starts exactly when the
  request is not for one of the encoded files.
-/

namespace SimpleServ.Http

open SimpleServ.Cxx SimpleServ.Utility Outcome

/-- A start on the disk `fs`, then one request: the answer, and the disk that is left. -/
def startAndHandle (compress : BrotliEncoderCompress) (order : DirectoryOrder)
    (iteration : TableOrder) (fs : Filesystem) (str : Bytes) :
    Outcome (Outcome (Option Bytes) × Filesystem) := do
  let (table, fs) ← startFiles compress order iteration fs webdirPath
  ret ((handle fs.disk str (FileManager.fresh table)).1, fs)

/-- Both starts succeed, and the request has the same answer after them. -/
def RestartUnseen (compress : BrotliEncoderCompress) (order₁ order₂ : DirectoryOrder)
    (iteration₁ iteration₂ : TableOrder) (fs : Filesystem) (str : Bytes) : Prop :=
  ∃ result fs₁ fs₂, startAndHandle compress order₁ iteration₁ fs str = ret (result, fs₁) ∧
    startAndHandle compress order₂ iteration₂ fs₁ str = ret (result, fs₂)

/-- No entry below `base` has a name that ends in `.br`. -/
def NoneEncoded (fs : Filesystem) (base : Location) : Prop :=
  ∀ (above : Location) (name : Name) (node : Node),
    fs.nodes[base ++ (above ++ [name])]? = some node → ¬ lit ".br" <:+ name.val

/-- The request is accepted and asks for an encoded file that a start on `fs` writes. -/
def AsksForEncoded (compress : BrotliEncoderCompress) (fs : Filesystem) (str : Bytes) : Prop :=
  ∃ request rel buffer, parseHttpRequest str = ret (.ok request) ∧
    encodedBuffer compress fs (webdir fs ++ rel) = some buffer ∧
    servedKey request = (webdirPath.below rel).val ++ lit ".br"

variable {compress : BrotliEncoderCompress} {order order₁ order₂ : DirectoryOrder}
  {iteration iteration₁ iteration₂ : TableOrder} {fs fs' fs₁ fs₂ : Filesystem} {root : OsPath}
  {base rel : Location} {table table₁ table₂ : FileTable} {str path content buffer : Bytes}
  {request : HTTPRequest}

/-! ## Two tables over one disk -/

theorem answer_congr {disk : Disk}
    (h : table₁[servedKey request]? = table₂[servedKey request]?) :
    answer disk table₁ request = answer disk table₂ request := by
  have hf : DiskFileFetcher.getFile disk ⟨table₁⟩ (servedKey request) =
      DiskFileFetcher.getFile disk ⟨table₂⟩ (servedKey request) := by
    unfold DiskFileFetcher.getFile
    rw [h]
  rw [answer, answer, hf]

/-- The two status lines differ in the first digit of the code. -/
theorem okMessage_ne (filetype : FileType) (body : Bytes) :
    okMessage filetype false body ≠ notFoundMessage := by
  intro h
  have hok : (okMessage filetype false body)[9]? = some (chr '2') := by
    rw [okMessage, if_neg Bool.false_ne_true, List.append_nil, List.append_assoc, List.append_assoc,
      List.append_assoc, List.getElem?_append_left (by decide)]
    decide
  rw [h] at hok
  exact absurd hok (by decide)

/-- A page is not answered with 404. -/
theorem answer_plain_ne (disk : Disk) (h : table[servedKey request]? = some (plainDescriptor path)) :
    answer disk table request ≠ ret notFoundMessage := by
  intro he
  have hr : (readFile disk (chosenPath (plainDescriptor path))).Returns := by
    rw [← returns_map, ← DiskFileFetcher.getFile_listed disk h, ← returns_map]
    exact ⟨_, he⟩
  obtain ⟨content, hc⟩ := hr
  rw [answer_listed h hc] at he
  exact okMessage_ne _ _ (ret.inj he)

/-- Only the answer to an accepted request depends on the table. -/
theorem handle_fresh_congr {disk : Disk}
    (h : ∀ request, parseHttpRequest str = ret (.ok request) →
      answer disk table₁ request = answer disk table₂ request) :
    (handle disk str (FileManager.fresh table₁)).1 =
      (handle disk str (FileManager.fresh table₂)).1 := by
  by_cases hp : ∃ request, parseHttpRequest str = ret (.ok request)
  · obtain ⟨request, hp⟩ := hp
    rw [(handle_accepted (FileManager.sound_fresh disk table₁) hp).1,
      (handle_accepted (FileManager.sound_fresh disk table₂) hp).1, h request hp]
  · unfold handle
    split
    · next request hr => exact absurd ⟨request, hr⟩ hp
    · rfl
    · rfl
    · rfl
    · rfl

/-! ## The tables of the two starts -/

theorem NoneEncoded.ne_brLocation {loc : Location} {node : Node} (h : NoneEncoded fs base)
    (hne : loc ≠ []) (hn : fs.nodes[base ++ rel]? = some node) : rel ≠ brLocation loc := by
  rintro rfl
  obtain ⟨above, name, rfl⟩ := (List.eq_nil_or_concat' loc).resolve_left hne
  rw [brLocation_concat] at hn
  exact h above (brName name) node hn ⟨name.val, rfl⟩

/-- What stood below the root before the first start stands there after it. -/
theorem NoneEncoded.kept {node : Node} (h : NoneEncoded fs base) (hdir : fs.nodes[base]? = some .dir)
    (h₁ : Started compress fs root base table₁ fs₁) (hn : fs.nodes[base ++ rel]? = some node) :
    fs₁.nodes[base ++ rel]? = some node := by
  rw [h₁.kept, hn]
  intro rel' buffer hb he
  have hne := buffer_ne_nil hdir hb
  rw [brLocation_append base hne] at he
  exact h.ne_brLocation hne hn (List.append_cancel_left he)

theorem written_below (hdir : fs.nodes[base]? = some .dir)
    (h₁ : Started compress fs root base table₁ fs₁)
    (hb : encodedBuffer compress fs (base ++ rel) = some buffer) :
    fs₁.nodes[base ++ brLocation rel]? = some (.file buffer) := by
  rw [← brLocation_append base (buffer_ne_nil hdir hb)]
  exact h₁.written rel buffer hb

/-- An encoded file is not in the first table, -/
theorem NoneEncoded.unlisted (h : NoneEncoded fs base) (hroot : fs.directory root.val = some base)
    (h₁ : Started compress fs root base table₁ fs₁)
    (hb : encodedBuffer compress fs (base ++ rel) = some buffer) :
    table₁[(root.below (brLocation rel)).val]? = none := by
  have hdir := (Filesystem.directory_eq_some.mp hroot).2
  rw [Option.eq_none_iff_forall_ne_some]
  intro file_descriptor ht
  obtain ⟨rel', content, hfile, hpath, -⟩ := (h₁.entries _ _).mp ht
  have hroot₁ : fs₁.directory root.val = some base := by rw [h₁.same.directory, hroot]
  have he := OsPath.below_injective hroot₁ (written_below hdir h₁ hb) (h.kept hdir h₁ hfile) hpath
  exact h.ne_brLocation (buffer_ne_nil hdir hb) hfile he.symm

/-- and it is in the second one, as a file of its own. -/
theorem listed_again (hdir : fs.nodes[base]? = some .dir)
    (h₁ : Started compress fs root base table₁ fs₁) (h₂ : Started compress fs₁ root base table₂ fs₂)
    (hb : encodedBuffer compress fs (base ++ rel) = some buffer) :
    table₂[(root.below (brLocation rel)).val]? =
      some (plainDescriptor (root.below (brLocation rel)).val) := by
  refine (h₂.entries _ _).mpr ⟨brLocation rel, buffer, written_below hdir h₁ hb, rfl, ?_⟩
  obtain ⟨above, name, rfl⟩ := (List.eq_nil_or_concat' rel).resolve_left (buffer_ne_nil hdir hb)
  rw [brLocation_concat, ← List.append_assoc,
    finalDescriptor_none (encodedBuffer_of_not (not_compressible_brName name))]

/-- Every other path has the same entry in both. -/
theorem NoneEncoded.same_entry (h : NoneEncoded fs base) (hdir : fs.nodes[base]? = some .dir)
    (h₁ : Started compress fs root base table₁ fs₁) (h₂ : Started compress fs₁ root base table₂ fs₂)
    (hpath : ∀ rel buffer, encodedBuffer compress fs (base ++ rel) = some buffer →
      path ≠ (root.below (brLocation rel)).val) : table₁[path]? = table₂[path]? := by
  have hfinal : ∀ rel, finalDescriptor compress fs₁ (base ++ rel) path =
      finalDescriptor compress fs (base ++ rel) path := by
    intro rel
    rw [finalDescriptor, finalDescriptor, h₁.encodedBuffer_eq]
  refine Option.ext fun file_descriptor => ?_
  constructor
  · intro ht
    obtain ⟨rel, content, hfile, rfl, rfl⟩ := (h₁.entries path file_descriptor).mp ht
    exact (h₂.entries _ _).mpr ⟨rel, content, h.kept hdir h₁ hfile, rfl, (hfinal rel).symm⟩
  · intro ht
    obtain ⟨rel, content, hfile, rfl, rfl⟩ := (h₂.entries path file_descriptor).mp ht
    refine (h₁.entries _ _).mpr ⟨rel, content, ?_, rfl, hfinal rel⟩
    -- a file that is new is one that the first start has written
    by_contra hn
    rw [h₁.kept] at hfile
    · exact hn hfile
    · intro rel' buffer hb he
      rw [brLocation_append base (buffer_ne_nil hdir hb)] at he
      exact hpath rel' buffer hb (by rw [List.append_cancel_left he])

/-! ## The two starts -/

/-- The two starts of `RestartUnseen`, one after the other. -/
theorem started_twice (compress : BrotliEncoderCompress) (order₁ order₂ : DirectoryOrder)
    (iteration₁ iteration₂ : TableOrder) (hdir : fs.nodes[webdir fs]? = some .dir) :
    ∃ table₁ table₂ fs₁, startFiles compress order₁ iteration₁ fs webdirPath = ret (table₁, fs₁) ∧
      startFiles compress order₂ iteration₂ fs₁ webdirPath = ret (table₂, fs₁) ∧
      Started compress fs webdirPath (webdir fs) table₁ fs₁ ∧
      Started compress fs₁ webdirPath (webdir fs) table₂ fs₁ := by
  have hroot := directory_webdir fs
  rw [if_pos hdir] at hroot
  obtain ⟨table₁, fs₁, hs₁, h₁⟩ := startFiles_started compress order₁ iteration₁ hroot
  have hroot₁ : fs₁.directory webdirPath.val = some (webdir fs) := by
    rw [h₁.same.directory, hroot]
  obtain ⟨table₂, fs₂, hs₂, h₂⟩ := startFiles_started compress order₂ iteration₂ hroot₁
  obtain rfl := h₁.again h₂
  exact ⟨table₁, table₂, fs₂, hs₁, hs₂, h₁, h₂⟩

theorem restartUnseen_iff_handle {table₁ table₂ : FileTable}
    (hs₁ : startFiles compress order₁ iteration₁ fs webdirPath = ret (table₁, fs₁))
    (hs₂ : startFiles compress order₂ iteration₂ fs₁ webdirPath = ret (table₂, fs₁)) :
    RestartUnseen compress order₁ order₂ iteration₁ iteration₂ fs str ↔
      (handle fs₁.disk str (FileManager.fresh table₁)).1 =
        (handle fs₁.disk str (FileManager.fresh table₂)).1 := by
  unfold RestartUnseen startAndHandle
  rw [hs₁, ret_bind]
  constructor
  · rintro ⟨result, fs', fs'', h, h'⟩
    cases h
    rw [hs₂, ret_bind] at h'
    exact (Prod.mk.inj (ret.inj h')).1.symm
  · intro h
    exact ⟨_, fs₁, fs₁, rfl, by rw [hs₂, ret_bind]; dsimp only; rw [h]⟩

/-- An encoded file that is asked for is found after the second start only. -/
theorem not_restartUnseen (hdir : fs.nodes[webdir fs]? = some .dir)
    (hnone : NoneEncoded fs (webdir fs)) (h : AsksForEncoded compress fs str) :
    ¬ RestartUnseen compress order₁ order₂ iteration₁ iteration₂ fs str := by
  obtain ⟨request, rel, buffer, hp, hb, hkey⟩ := h
  obtain ⟨table₁, table₂, fs₁, hs₁, hs₂, h₁, h₂⟩ :=
    started_twice compress order₁ order₂ iteration₁ iteration₂ hdir
  have hroot := directory_webdir fs
  rw [if_pos hdir] at hroot
  rw [← below_brLocation _ (buffer_ne_nil hdir hb)] at hkey
  rw [restartUnseen_iff_handle hs₁ hs₂,
    (handle_accepted (FileManager.sound_fresh fs₁.disk table₁) hp).1,
    (handle_accepted (FileManager.sound_fresh fs₁.disk table₂) hp).1]
  have hfirst : answer fs₁.disk table₁ request = ret notFoundMessage := by
    apply answer_unlisted
    rw [hkey]
    exact hnone.unlisted hroot h₁ hb
  have hlisted := listed_again hdir h₁ h₂ hb
  rw [← hkey] at hlisted
  rw [hfirst, map_ret]
  intro he
  obtain ⟨message, hm⟩ := (returns_map some (answer fs₁.disk table₂ request)).mp ⟨_, he.symm⟩
  rw [hm, map_ret] at he
  obtain rfl := Option.some.inj (ret.inj he)
  exact answer_plain_ne fs₁.disk hlisted hm

/-- **A restart is not seen exactly by the requests that do not ask for an encoded file.** -/
theorem restart_unseen_iff (compress : BrotliEncoderCompress) (order₁ order₂ : DirectoryOrder)
    (iteration₁ iteration₂ : TableOrder) (fs : Filesystem) (str : Bytes)
    (hdir : fs.nodes[webdir fs]? = some .dir) (hnone : NoneEncoded fs (webdir fs)) :
    RestartUnseen compress order₁ order₂ iteration₁ iteration₂ fs str ↔
      ¬ AsksForEncoded compress fs str := by
  constructor
  · intro h ha
    exact not_restartUnseen hdir hnone ha h
  · intro ha
    obtain ⟨table₁, table₂, fs₁, hs₁, hs₂, h₁, h₂⟩ :=
      started_twice compress order₁ order₂ iteration₁ iteration₂ hdir
    rw [restartUnseen_iff_handle hs₁ hs₂]
    refine handle_fresh_congr fun request hp => answer_congr ?_
    refine hnone.same_entry hdir h₁ h₂ fun rel buffer hb hkey => ha ?_
    rw [below_brLocation _ (buffer_ne_nil hdir hb)] at hkey
    exact ⟨request, rel, buffer, hp, hb, hkey⟩

/-! ## A page -/

theorem pageSite_webdir : pageSite.nodes[webdir pageSite]? = some .dir := by
  show pageSite.nodes[[webdirName]]? = some .dir
  rw [pageSite, Filesystem.getElem?_put, if_neg (by simp), emptySite, Filesystem.getElem?_put,
    if_pos rfl]

theorem pageSite_page : pageSite.nodes[webdir pageSite ++ [indexName]]? = some (.file tenLetters) := by
  show pageSite.nodes[[webdirName, indexName]]? = _
  rw [pageSite, Filesystem.getElem?_put, if_pos rfl]

theorem pageSite_other {loc : Location} (hne : loc ≠ []) (hpage : loc ≠ [indexName]) :
    pageSite.nodes[webdir pageSite ++ loc]? = none := by
  show pageSite.nodes[webdirName :: loc]? = none
  rw [pageSite, Filesystem.getElem?_put, if_neg (by simp [hpage]), emptySite,
    Filesystem.getElem?_put, if_neg (by simp [hne])]
  exact Filesystem.getElem?_empty (by simp)

theorem noneEncoded_pageSite : NoneEncoded pageSite (webdir pageSite) := by
  intro above name node hn
  by_cases hpage : above ++ [name] = [indexName]
  · have hend : above ++ [name] = [] ++ [indexName] := hpage
    obtain ⟨-, he⟩ := List.append_inj' hend rfl
    rw [List.singleton_inj.mp he]
    decide
  · rw [pageSite_other (by simp) hpage] at hn
    cases hn

theorem encodedBuffer_pageSite :
    encodedBuffer letterCompress pageSite (webdir pageSite ++ [indexName]) = some tenStream := by
  have hbr : pageSite.nodes[webdir pageSite ++ [brName indexName]]? = none :=
    pageSite_other (by simp) (by decide)
  rw [encodedBuffer_concat, hbr, pageSite_page, if_pos ⟨by decide, by simp, rfl⟩]
  decide

/-- The page itself is answered as before. -/
theorem restart_unseen_iff_page :
    RestartUnseen letterCompress .sorted .reversed .sorted .sorted pageSite
        (lit "GET /index.html HTTP/1.1\r\n\r\n") ↔
      ¬ AsksForEncoded letterCompress pageSite (lit "GET /index.html HTTP/1.1\r\n\r\n") :=
  restart_unseen_iff _ _ _ _ _ _ _ pageSite_webdir noneEncoded_pageSite

/-- What the first start writes beside the page is not found, and after a second start it is. -/
theorem not_restart_unseen_page :
    ¬ ∀ (compress : BrotliEncoderCompress) (order₁ order₂ : DirectoryOrder)
        (iteration₁ iteration₂ : TableOrder) (fs : Filesystem) (str : Bytes),
      fs.nodes[webdir fs]? = some .dir → NoneEncoded fs (webdir fs) →
        RestartUnseen compress order₁ order₂ iteration₁ iteration₂ fs str := by
  intro h
  have hp : parseHttpRequest (lit "GET /index.html.br HTTP/1.1\r\n\r\n") =
      ret (.ok (HTTPRequest.new .GET (lit "/index.html.br") .HTTP_1_1)) := by decide +kernel
  have hs := h letterCompress .sorted .sorted .sorted .sorted pageSite
    (lit "GET /index.html.br HTTP/1.1\r\n\r\n") pageSite_webdir noneEncoded_pageSite
  exact not_restartUnseen pageSite_webdir noneEncoded_pageSite
    ⟨_, [indexName], tenStream, hp, encodedBuffer_pageSite, by decide⟩ hs

end SimpleServ.Http
