import SimpleServ.Http.Restart
import SimpleServ.Utility.EncodeCalls

/-
  What the handler serves after a start, told by the web directory alone.

  A request is for a file when its target, up to the first `?`, spells the way to the file: the
  names on it, each behind a `/`, byte by byte. What a client gets of the file is what the start
  has left: the encoded buffer where one is written, else the file, which may itself stand where
  the buffer of another one goes (`ServedAs`).

  `serve_site`: an accepted request for a file is answered with it, and any other one with 404,
  whatever was asked before.
-/

namespace SimpleServ.Http

open SimpleServ.Cxx SimpleServ.Utility Outcome

/-- The names on the way, each behind a separator. -/
def spelled (rel : Location) : Bytes := rel.flatMap fun name => chr '/' :: name.val

/-- The target up to the query. -/
def targetPath (request : HTTPRequest) : Bytes := request.path.takeWhile (· ≠ chr '?')

/-- What is served of the file at `rel` below the web directory, and whether it is encoded. -/
inductive ServedAs (compress : BrotliEncoderCompress) (fs : Filesystem) (rel : Location) :
    Bool → Bytes → Prop where
  | encoded (buffer : Bytes) (hb : encodedBuffer compress fs (webdir fs ++ rel) = some buffer) :
    ServedAs compress fs rel true buffer
  | overwritten (other : Location) (content buffer : Bytes)
    (hf : fs.nodes[webdir fs ++ rel]? = some (.file content))
    (hn : encodedBuffer compress fs (webdir fs ++ rel) = none)
    (hb : encodedBuffer compress fs (webdir fs ++ other) = some buffer)
    (he : rel = brLocation other) : ServedAs compress fs rel false buffer
  | plain (content : Bytes) (hf : fs.nodes[webdir fs ++ rel]? = some (.file content))
    (hn : encodedBuffer compress fs (webdir fs ++ rel) = none)
    (hk : ∀ other buffer, encodedBuffer compress fs (webdir fs ++ other) = some buffer →
      rel ≠ brLocation other) : ServedAs compress fs rel false content

/-- The answer to a request, by the web directory. -/
inductive SiteAnswer (compress : BrotliEncoderCompress) (fs : Filesystem) (request : HTTPRequest) :
    Bytes → Prop where
  | found (above : Location) (name : Name) (brotli : Bool) (body : Bytes)
    (ht : targetPath request = spelled (above ++ [name]))
    (hs : ServedAs compress fs (above ++ [name]) brotli body) :
    SiteAnswer compress fs request (okMessage (encodeFiletype name.val) brotli
      (if request.method = .HEAD then [] else body))
  | notFound (h : ∀ rel content, fs.nodes[webdir fs ++ rel]? = some (.file content) →
      targetPath request ≠ spelled rel) : SiteAnswer compress fs request notFoundMessage

variable {compress : BrotliEncoderCompress} {fs fs' : Filesystem} {rel : Location}
  {table : FileTable} {request : HTTPRequest} {brotli brotli' : Bool}
  {content body body' message message' : Bytes}

/-! ## One answer for each request -/

theorem below_webdir (hne : rel ≠ []) :
    (webdirPath.below rel).val = lit "../webdir" ++ spelled rel :=
  below_eq_fullPath (by decide) hne

/-- The table's key for a file is asked for by the targets that spell the way to it. -/
theorem servedKey_eq_iff (hne : rel ≠ []) :
    servedKey request = (webdirPath.below rel).val ↔ targetPath request = spelled rel := by
  rw [below_webdir hne]
  exact List.append_right_inj (lit "../webdir")

theorem ServedAs.file (h : ServedAs compress fs rel brotli body) :
    ∃ content, fs.nodes[webdir fs ++ rel]? = some (.file content) := by
  cases h with
  | encoded buffer hb => exact (file_of_encodedBuffer hb).2
  | overwritten other content buffer hf hn hb he => exact ⟨content, hf⟩
  | plain content hf hn hk => exact ⟨body, hf⟩

theorem ServedAs.unique (hdir : fs.nodes[webdir fs]? = some .dir)
    (h : ServedAs compress fs rel brotli body) (h' : ServedAs compress fs rel brotli' body') :
    brotli = brotli' ∧ body = body' := by
  cases h with
  | encoded buffer hb =>
    cases h' with
    | encoded buffer' hb' => exact ⟨rfl, Option.some.inj (hb.symm.trans hb')⟩
    | overwritten other content buffer' hf hn hb' he => cases hb.symm.trans hn
    | plain content hf hn hk => cases hb.symm.trans hn
  | overwritten other content buffer hf hn hb he =>
    cases h' with
    | encoded buffer' hb' => cases hb'.symm.trans hn
    | overwritten other' content' buffer' hf' hn' hb' he' =>
      obtain rfl := brLocation_injective (buffer_ne_nil hdir hb) (buffer_ne_nil hdir hb')
        (he.symm.trans he')
      exact ⟨rfl, Option.some.inj (hb.symm.trans hb')⟩
    | plain content' hf' hn' hk => exact absurd he (hk other _ hb)
  | plain content hf hn hk =>
    cases h' with
    | encoded buffer' hb' => cases hb'.symm.trans hn
    | overwritten other content' buffer' hf' hn' hb' he' => exact absurd he' (hk other _ hb')
    | plain content' hf' hn' hk' =>
      obtain ⟨⟩ := hf.symm.trans hf'
      exact ⟨rfl, rfl⟩

theorem SiteAnswer.unique (hdir : fs.nodes[webdir fs]? = some .dir)
    (h : SiteAnswer compress fs request message) (h' : SiteAnswer compress fs request message') :
    message = message' := by
  have hroot := directory_webdir fs
  rw [if_pos hdir] at hroot
  cases h with
  | found above name brotli body ht hs =>
    obtain ⟨content, hf⟩ := hs.file
    cases h' with
    | found above' name' brotli' body' ht' hs' =>
      obtain ⟨content', hf'⟩ := hs'.file
      have hpath : (webdirPath.below (above ++ [name])).val =
          (webdirPath.below (above' ++ [name'])).val := by
        rw [below_webdir (by simp), below_webdir (by simp), ← ht, ← ht']
      have hrel := OsPath.below_injective hroot hf hf' hpath
      obtain ⟨rfl, hname⟩ := List.append_inj' hrel rfl
      obtain rfl := List.singleton_inj.mp hname
      obtain ⟨rfl, rfl⟩ := hs.unique hdir hs'
      rfl
    | notFound hno => exact absurd ht (hno _ content hf)
  | notFound hno =>
    cases h' with
    | found above' name' brotli' body' ht' hs' =>
      obtain ⟨content', hf'⟩ := hs'.file
      exact absurd ht' (hno _ content' hf')
    | notFound _ => rfl

/-! ## The answer of the handler -/

/-- The file as the start leaves it: the one that stood there, or a buffer written over it. -/
theorem left_plain (hdir : fs.nodes[webdir fs]? = some .dir)
    (h : Started compress fs webdirPath (webdir fs) table fs')
    (hf : fs.nodes[webdir fs ++ rel]? = some (.file content))
    (hn : encodedBuffer compress fs (webdir fs ++ rel) = none) :
    ∃ body, fs'.nodes[webdir fs ++ rel]? = some (.file body) ∧
      ServedAs compress fs rel false body := by
  by_cases hk : ∃ other buffer, encodedBuffer compress fs (webdir fs ++ other) = some buffer ∧
      rel = brLocation other
  · obtain ⟨other, buffer, hb, he⟩ := hk
    exact ⟨buffer, he ▸ written_below hdir h hb, .overwritten other content buffer hf hn hb he⟩
  · refine ⟨content, ?_, .plain content hf hn fun other buffer hb he => hk ⟨other, buffer, hb, he⟩⟩
    rw [h.kept, hf]
    intro other buffer hb he
    rw [brLocation_append _ (buffer_ne_nil hdir hb)] at he
    exact hk ⟨other, buffer, hb, List.append_cancel_left he⟩

/-- A path of the start's table is answered with the file that its descriptor chooses. -/
theorem answer_final {disk : Disk} {path : Bytes} (hkey : servedKey request = path)
    (ht : table[path]? = some (finalDescriptor compress fs (webdir fs ++ rel) path))
    (hd : disk.read (chosenPath (finalDescriptor compress fs (webdir fs ++ rel) path)) =
      .reads body) :
    answer disk table request = ret (okMessage (encodeFiletype (FsPath.filename path))
      (encodedBuffer compress fs (webdir fs ++ rel)).isSome
      (if request.method = .HEAD then [] else body)) := by
  subst hkey
  rw [answer_listed ht (readFile_of_reads hd)]
  cases hb : encodedBuffer compress fs (webdir fs ++ rel) with
  | some buffer =>
    rw [finalDescriptor_some hb]
    rfl
  | none =>
    rw [finalDescriptor_none hb]
    rfl

/-- The file that the handler reads for a file of the web directory. -/
theorem chosen_served {above : Location} {name : Name} {path : Bytes}
    (hdir : fs.nodes[webdir fs]? = some .dir)
    (h : Started compress fs webdirPath (webdir fs) table fs')
    (hf : fs.nodes[webdir fs ++ (above ++ [name])]? = some (.file content))
    (hpath : path = (webdirPath.below (above ++ [name])).val) :
    ∃ body, fs'.disk.read (chosenPath (finalDescriptor compress fs
        (webdir fs ++ (above ++ [name])) path)) = .reads body ∧
      ServedAs compress fs (above ++ [name])
        (encodedBuffer compress fs (webdir fs ++ (above ++ [name]))).isSome body := by
  have hroot := directory_webdir fs
  rw [if_pos hdir] at hroot
  subst hpath
  cases hb : encodedBuffer compress fs (webdir fs ++ (above ++ [name])) with
  | some buffer =>
    have hr := (resolve_encodedFrom hroot hf).2
    have hw := written_below hdir h hb
    rw [← h.same.resolve] at hr
    rw [brLocation_concat] at hw
    rw [chosenPath_some hb]
    exact ⟨buffer, Filesystem.disk_reads_of hr hw, .encoded buffer hb⟩
  | none =>
    obtain ⟨body, hleft, hs⟩ := left_plain hdir h hf hb
    have hr := OsPath.resolve_below hroot hf
    rw [← h.same.resolve] at hr
    rw [chosenPath_none hb]
    exact ⟨body, Filesystem.disk_reads_of hr hleft, hs⟩

/-- Every request is answered as the web directory says. -/
theorem siteAnswer_answer (hdir : fs.nodes[webdir fs]? = some .dir)
    (h : Started compress fs webdirPath (webdir fs) table fs') (request : HTTPRequest) :
    ∃ message, answer fs'.disk table request = ret message ∧
      SiteAnswer compress fs request message := by
  cases ht : table[servedKey request]? with
  | none =>
    refine ⟨_, answer_unlisted _ ht, .notFound fun rel content hf he => ?_⟩
    have hkey := (servedKey_eq_iff (Filesystem.below_ne_nil hdir hf)).mpr he
    rw [hkey, (h.entries _ _).mpr ⟨rel, content, hf, rfl, rfl⟩] at ht
    cases ht
  | some file_descriptor =>
    obtain ⟨rel, content, hf, hkey, rfl⟩ := (h.entries _ _).mp ht
    have hne := Filesystem.below_ne_nil hdir hf
    obtain ⟨above, name, rfl⟩ := (List.eq_nil_or_concat' rel).resolve_left hne
    obtain ⟨body, hd, hs⟩ := chosen_served hdir h hf hkey
    have hfilename : FsPath.filename (servedKey request) = name.val := by
      rw [hkey, filename_below]
    have ha := answer_final rfl ht hd
    rw [hfilename] at ha
    exact ⟨_, ha, .found above name _ body ((servedKey_eq_iff hne).mp hkey) hs⟩

/-- **What a client gets, by the web directory.** An accepted request for a file is answered with
    the file as the start has left it, encoded where the start has encoded it, and every other
    accepted request with 404, whatever was asked before. -/
theorem serve_site (compress : BrotliEncoderCompress) (order : DirectoryOrder)
    (iteration : TableOrder) (fs : Filesystem) (requests : List Bytes)
    (hdir : fs.nodes[webdir fs]? = some .dir) :
    ∃ outcomes, serve compress order iteration fs requests = ret outcomes ∧
      ∀ (i : Nat) (str : Bytes) (request : HTTPRequest), requests[i]? = some str →
        parseHttpRequest str = ret (.ok request) → ∀ message,
          outcomes[i]? = some (ret (some message)) ↔ SiteAnswer compress fs request message := by
  have hroot := directory_webdir fs
  rw [if_pos hdir] at hroot
  obtain ⟨table, fs', hs, h⟩ := startFiles_started compress order iteration hroot
  refine ⟨_, by rw [serve, hs, ret_bind], fun i str request hi hp message => ?_⟩
  obtain ⟨sent, ha, hsite⟩ := siteAnswer_answer hdir h request
  rw [handleAll_accepted (FileManager.sound_fresh fs'.disk table) requests i hi hp, ha, map_ret]
  constructor
  · intro he
    cases he
    exact hsite
  · intro hm
    rw [hsite.unique hdir hm]

/-- The page is served with its encoded buffer, with a query behind its name as well. -/
theorem serve_site_page : ∃ outcomes,
    serve letterCompress .sorted .sorted pageSite
        [lit "GET /index.html HTTP/1.1\r\n\r\n", lit "GET /index.html?a=b HTTP/1.1\r\n\r\n"] =
      ret outcomes ∧
    outcomes[0]? = some (ret (some (okMessage .TEXT_HTML true tenStream))) ∧
    outcomes[1]? = some (ret (some (okMessage .TEXT_HTML true tenStream))) := by
  obtain ⟨outcomes, hs, hsite⟩ := serve_site letterCompress .sorted .sorted pageSite
    [lit "GET /index.html HTTP/1.1\r\n\r\n", lit "GET /index.html?a=b HTTP/1.1\r\n\r\n"]
    pageSite_webdir
  have hp : parseHttpRequest (lit "GET /index.html HTTP/1.1\r\n\r\n") =
      ret (.ok (HTTPRequest.new .GET (lit "/index.html") .HTTP_1_1)) := by decide +kernel
  have hq : parseHttpRequest (lit "GET /index.html?a=b HTTP/1.1\r\n\r\n") =
      ret (.ok (HTTPRequest.new .GET (lit "/index.html?a=b") .HTTP_1_1)) := by decide +kernel
  have hserved : ServedAs letterCompress pageSite ([] ++ [indexName]) true tenStream :=
    .encoded tenStream encodedBuffer_pageSite
  exact ⟨outcomes, hs,
    (hsite 0 _ _ rfl hp _).mpr (.found [] indexName true tenStream (by decide) hserved),
    (hsite 1 _ _ rfl hq _).mpr (.found [] indexName true tenStream (by decide) hserved)⟩

end SimpleServ.Http
