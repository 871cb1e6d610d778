import SimpleServ.Http.Restart
import SimpleServ.Server.HttpService

/-
  `main` (main.cpp) and the file manager that its servers use (http_handler.hpp).

  http_handler.hpp declares `file_manager` as `static`, so every translation unit that includes
  the header has an object of its own: main.cpp fills one, and `HTTPHandler::handle`, which is
  compiled in http_handler.cpp, asks another. Nothing fills that one.

  An empty file manager is only searched, and calls that search it do not get in each other's
  way: here `handle` says what a call gives also where calls overlap.

  `main_notFound`: whatever is in the web directory, the HTTP server that `main` starts answers
  every request that is accepted with 404.
-/

namespace SimpleServ.Server

open SimpleServ.Cxx SimpleServ.Http SimpleServ.Lib SimpleServ.Utility
  SimpleServ.RequestProcessing Outcome

/-- The translation units of the executable that include http_handler.hpp. -/
inductive TranslationUnit where
  | main
  | http_handler
  deriving DecidableEq, Repr

/-- The disk, and the objects `http::file_manager`. -/
structure Program where
  fs : Filesystem
  file_manager : TranslationUnit → FileManager

/-- `main` up to the construction of the server manager. -/
def main (compress : BrotliEncoderCompress) (order : DirectoryOrder) (iteration : TableOrder)
    (fs : Filesystem) : Outcome Program := do
  let (file_descriptors, fs) ← startFiles compress order iteration fs webdirPath
  return {
    fs := fs
    file_manager := Function.update (fun _ => FileManager.fresh ∅) .main
      (FileManager.fresh file_descriptors) }

/-- What a connection leaves on its socket when no file is known. -/
def refusal (socket : ClientSocket) (conn_obj : HTTPConnectionObject) : ClientSocket :=
  match parseHttpRequest conn_obj.request with
  | ret (.ok _) => (socket.send notFoundMessage).close
  | _ => socket.close

variable {compress : BrotliEncoderCompress} {order : DirectoryOrder} {iteration : TableOrder}
  {fs : Filesystem} {program : Program}

theorem main_eq_ret (h : main compress order iteration fs = ret program) : ∃ table fs',
    startFiles compress order iteration fs webdirPath = ret (table, fs') ∧
      program.file_manager .main = FileManager.fresh table ∧
      program.file_manager .http_handler = FileManager.fresh ∅ := by
  obtain ⟨⟨table, fs'⟩, hs, h⟩ := bind_eq_ret h
  cases h
  exact ⟨table, fs', hs, rfl, rfl⟩

/-- The table of a start that comes to its end lists every file of the web directory. -/
theorem listed_of_start {table : FileTable} {fs' : Filesystem}
    (hs : startFiles compress order iteration fs webdirPath = ret (table, fs')) (rel : Location)
    (content : Bytes) (hf : fs.nodes[webdir fs ++ rel]? = some (.file content)) :
    table[(webdirPath.below rel).val]?.isSome = true := by
  have hd := directory_webdir fs
  by_cases hdir : fs.nodes[webdir fs]? = some .dir
  · rw [if_pos hdir] at hd
    obtain ⟨table', fs'', hs', h⟩ := startFiles_started compress order iteration hd
    cases hs.symm.trans hs'
    rw [(h.entries _ _).mpr ⟨rel, content, hf, rfl, rfl⟩]
    rfl
  · rw [if_neg hdir] at hd
    rw [startFiles_throws _ _ _ hd] at hs
    cases hs

theorem exchange_empty (disk : Disk) (socket : ClientSocket) (conn_obj : HTTPConnectionObject) :
    exchange disk ∅ socket conn_obj = refusal socket conn_obj := by
  unfold exchange refusal
  rw [answerTo_empty]
  cases parseHttpRequest conn_obj.request with
  | ret result => cases result <;> rfl
  | throw e => rfl
  | ub => rfl
  | killed => rfl

/-- **`main` serves nothing.** Its own file manager lists every file of the web directory; but in
    every permitted run of the HTTP server, once the pool has drained, each socket has seen 404
    for every request that was read from it and accepted. -/
theorem main_notFound (compress : BrotliEncoderCompress) (order : DirectoryOrder)
    (iteration : TableOrder) (fs : Filesystem) (program : Program)
    (hm : main compress order iteration fs = ret program) :
    (∃ table, program.file_manager .main = FileManager.fresh table ∧
      ∀ (rel : Location) (content : Bytes), fs.nodes[webdir fs ++ rel]? = some (.file content) →
        table[(webdirPath.below rel).val]?.isSome = true) ∧
    ∀ (network : Network) (num_threads : Nat) (kept : Bool) (errno : Errno)
      (events : List (HttpService.Event num_threads)) (s : HttpService num_threads),
      StepsMeet HttpService.Permitted
        (HttpService.step program.fs.disk (handle program.fs.disk) kept)
        (.new num_threads errno (program.file_manager .http_handler) network) events →
      run (HttpService.step program.fs.disk (handle program.fs.disk) kept)
        (.new num_threads errno (program.file_manager .http_handler) network) events = some s →
      s.pool.Drained → ∀ fd, s.pool.world.2 fd = ((HttpService.arrivals events).filter fun conn =>
        conn.client_fd = fd).foldl refusal (network fd) := by
  obtain ⟨table, fs', hs, htable, hempty⟩ := main_eq_ret hm
  refine ⟨⟨table, htable, listed_of_start hs⟩, ?_⟩
  intro network num_threads kept errno events s hc hr hd fd
  have hserving := HttpService.serving_of_run (fun _ _ => id) (fun _ _ _ => .inl rfl) hc hr
  rw [hempty] at hserving
  have hrefusal : exchange program.fs.disk ∅ = refusal := by
    funext socket conn_obj
    exact exchange_empty _ socket conn_obj
  rw [← HttpService.arrivals_of_run hr, ← hrefusal]
  exact (hserving.serial hd.goesOn).sockets hd fd

def getPage : Bytes := lit "GET /index.html HTTP/1.1\r\n\r\n"

/-- The page is in the web directory, and is not found. -/
theorem main_notFound_page : ∃ program s,
    main letterCompress .sorted .sorted pageSite = ret program ∧
    run (HttpService.step program.fs.disk (handle program.fs.disk) false) (.new 4 (.other 0)
      (program.file_manager .http_handler) fun _ => { answers := fun _ => .takes 80 })
      (HttpService.readOnce getPage) = some s ∧
    s.pool.world.2 5 =
      (ClientSocket.send { answers := fun _ => .takes 80 } notFoundMessage).close := by
  have hroot := directory_webdir pageSite
  rw [if_pos pageSite_webdir] at hroot
  obtain ⟨table, fs', hs, -⟩ := startFiles_started letterCompress .sorted .sorted hroot
  have hm : main letterCompress .sorted .sorted pageSite = ret ⟨fs',
      Function.update (fun _ => FileManager.fresh ∅) .main (FileManager.fresh table)⟩ := by
    rw [main, hs]
    rfl
  have hp : parseHttpRequest getPage =
      ret (.ok (HTTPRequest.new .GET (lit "/index.html") .HTTP_1_1)) := by decide +kernel
  obtain ⟨ha, -⟩ := handle_accepted (FileManager.sound_fresh fs'.disk ∅) hp
  have hcut : getPage.takeWhile (· ≠ 0) = getPage := by decide
  have hb : getPage.length ≤ MAXBUFLEN - 1 := by decide
  rw [← hcut, answer_unlisted fs'.disk Std.ExtTreeMap.getElem?_empty] at ha
  obtain ⟨s, ⟨hc, hr⟩, hd⟩ := HttpService.readOnce_runs (handle fs'.disk) hb ha
    (fun _ => { answers := fun _ => .takes 80 }) rfl
  refine ⟨_, s, hm, hr, ?_⟩
  rw [(main_notFound _ _ _ _ _ hm).2 _ _ _ _ _ s (hc.imp fun _ _ h => h.1) hr hd 5]
  show refusal _ ⟨5, getPage.takeWhile (· ≠ 0)⟩ = _
  rw [refusal, hcut, hp]

end SimpleServ.Server
