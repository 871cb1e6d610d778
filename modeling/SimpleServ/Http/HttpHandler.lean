import SimpleServ.Http.RoundTrip
import SimpleServ.Utility.FileManager

/-
  `HTTPHandler::handle` (http_handler.cpp) and runs of it.

  The file manager is a global object, so a call gives its outcome and the manager it
  leaves, also when it ends in an exception. The parser does not touch the manager: a call
  whose request is not accepted leaves it as it was. `handleAll` gives a list of request
  strings to the handler one after another.

  `handle_returns_iff`: a call returns exactly outside the texts on which the parser throws
  or strays, and outside those that ask for a file that is opened and cannot be read.
  `handleAll_answers`: over a disk that stays as it is, the answer to an accepted request is a
  function of the request alone.
-/

namespace SimpleServ.Http

open SimpleServ.Cxx SimpleServ.Utility Outcome

def removeQuery (str : Bytes) : Bytes :=
  match findFirstOf str [chr '?'] with
  | some query_index => substrTo str (some query_index)
  | none => str

def convertToFiledirectory (request_path : Bytes) : Bytes :=
  lit "../webdir" ++ removeQuery request_path

/-- The response to `request` on the data that the file manager gave. -/
def composeResponse (request : HTTPRequest) : Except FileManagerException HTTPFileData → HTTPResponse
  | .error _ => HTTPResponse.new .NOT_FOUND .HTTP_1_1
  | .ok file_data =>
    let response := HTTPResponse.new .OK .HTTP_1_1
    let response := response.setHeader (lit "Content-Type") (decodeFiletype file_data.filetype)
    let response :=
      if file_data.file_encoding ≠ .NONE then
        response.setHeader (lit "Content-Encoding") (decodeFileEncoding file_data.file_encoding)
      else response
    if request.method ≠ .HEAD then response.setContent file_data.content else response

def prepareResponse (disk : Disk) (request : HTTPRequest) (file_manager : FileManager) :
    Outcome HTTPResponse × FileManager :=
  let path := convertToFiledirectory request.path
  andThen (file_manager.getFile disk path) fun expected_file_data file_manager =>
    (ret (composeResponse request expected_file_data), file_manager)

/-- `none` is `std::nullopt`. -/
def handle (disk : Disk) (str : Bytes) (file_manager : FileManager) :
    Outcome (Option Bytes) × FileManager :=
  match parseHttpRequest str with
  | ret (.ok request) =>
    andThen (prepareResponse disk request file_manager) fun response file_manager =>
      (some <$> response.print, file_manager)
  | ret (.error _) => (ret none, file_manager)
  | .throw e => (.throw e, file_manager)
  | ub => (ub, file_manager)
  | killed => (killed, file_manager)

def handleAll (disk : Disk) : List Bytes → FileManager → List (Outcome (Option Bytes)) × FileManager
  | [], file_manager => ([], file_manager)
  | str :: rest, file_manager =>
    let (outcome, file_manager) := handle disk str file_manager
    let (outcomes, file_manager) := handleAll disk rest file_manager
    (outcome :: outcomes, file_manager)

variable {disk : Disk} {table : FileTable} {file_manager : FileManager} {str : Bytes}
  {request : HTTPRequest}

/-! ## When a call returns -/

/-- The response is always one of version 1.1, so it can be printed. -/
theorem composeResponse_version (request : HTTPRequest)
    (data : Except FileManagerException HTTPFileData) :
    (composeResponse request data).version = .HTTP_1_1 := by
  cases data with
  | error e => rfl
  | ok data =>
    unfold composeResponse
    dsimp only
    split <;> split <;> rfl

/-- The text of a response of version 1.1. -/
def responseText (response : HTTPResponse) : Bytes :=
  lit "HTTP/1.1" ++ lit " " ++ statusCodeToString response.status_code ++ crlf ++
    response.printHeaders

theorem print_returns {response : HTTPResponse} (h : response.version = .HTTP_1_1) :
    response.print = ret (responseText response) := by
  simp [HTTPResponse.print, h, HTTPVersion.string, responseText]

/-- The key a request looks up: `../webdir` and the target up to its first `?`. -/
def servedKey (request : HTTPRequest) : Bytes :=
  lit "../webdir" ++ request.path.takeWhile (· ≠ chr '?')

theorem removeQuery_eq (str : Bytes) : removeQuery str = str.takeWhile (· ≠ chr '?') := by
  unfold removeQuery
  by_cases hq : chr '?' ∈ str
  · obtain ⟨a, b, rfl, ha⟩ := List.eq_append_cons_of_mem hq
    have hn : ∀ y ∈ a, y ≠ chr '?' := by
      rintro y hy rfl
      exact ha hy
    rw [findFirstOf_byte ha, takeWhile_run hn (notAhead_cons.mpr (not_not.mpr rfl))]
    exact substrTo_append a _
  · have hn : ∀ y ∈ str, y ≠ chr '?' := by
      rintro y hy rfl
      exact hq hy
    have ht := takeWhile_run (v := []) hn notAhead_nil
    rw [List.append_nil] at ht
    rw [findFirstOf_byte_none hq, ht]

theorem convertToFiledirectory_eq (request : HTTPRequest) :
    convertToFiledirectory request.path = servedKey request := by
  rw [convertToFiledirectory, removeQuery_eq]
  rfl

/-- What becomes of an accepted request is what becomes of its file. -/
theorem handle_of_accepted (h : parseHttpRequest str = ret (.ok request)) :
    handle disk str file_manager =
      andThen (file_manager.getFile disk (servedKey request)) fun file_data file_manager =>
        (ret (some (responseText (composeResponse request file_data))), file_manager) := by
  simp only [handle, h, prepareResponse, convertToFiledirectory_eq]
  obtain ⟨outcome, next⟩ := file_manager.getFile disk (servedKey request)
  cases outcome with
  | ret file_data =>
    rw [andThen_ret, andThen_ret, andThen_ret, print_returns (composeResponse_version _ _)]
    rfl
  | throw e => rfl
  | ub => rfl
  | killed => rfl

theorem handle_of_not_accepted (h : ∀ request, parseHttpRequest str ≠ ret (.ok request)) :
    (handle disk str file_manager).2 = file_manager := by
  unfold handle
  split
  · next request hr => exact absurd hr (h request)
  · rfl
  · rfl
  · rfl
  · rfl

/-- `path` is listed and not in the cache, and its file is opened and cannot be read. -/
def UnreadableFile (disk : Disk) (file_manager : FileManager) (path : Bytes) : Prop :=
  file_manager.file_fetcher.file_cache[path]? = none ∧
    ∃ file_descriptor, file_manager.file_fetcher.file_fetcher.file_descriptors[path]? =
      some file_descriptor ∧ disk.read (chosenPath file_descriptor) = .fails

/-- `str` is a request for such a file. -/
def UnreadableRequest (disk : Disk) (file_manager : FileManager) (str : Bytes) : Prop :=
  ∃ request, RequestText str request ∧ UnreadableFile disk file_manager (servedKey request)

/-- Such a file is the one cause of an exception in `get_file`. -/
theorem getFile_ends (disk : Disk) (file_manager : FileManager) (path : Bytes) :
    ((file_manager.getFile disk path).1.Returns ∧ ¬ UnreadableFile disk file_manager path) ∨
      (file_manager.getFile disk path = (.throw .ios_failure, file_manager) ∧
        UnreadableFile disk file_manager path) := by
  cases hm : file_manager.file_fetcher.file_cache[path]? with
  | some entry =>
    rw [FileManager.getFile_cached hm]
    exact .inl ⟨returns_ret _, fun hu => nomatch hm.symm.trans hu.1⟩
  | none =>
    cases hd : file_manager.file_fetcher.file_fetcher.file_descriptors[path]? with
    | none =>
      obtain ⟨e, he⟩ := FileManager.getFile_unlisted disk rfl hd hm
      rw [he]
      exact .inl ⟨returns_ret _, fun ⟨_, _, hd', _⟩ => nomatch hd.symm.trans hd'⟩
    | some file_descriptor =>
      by_cases hr : disk.read (chosenPath file_descriptor) = .fails
      · exact .inr ⟨FileManager.getFile_fails rfl hd hm hr, hm, file_descriptor, hd, hr⟩
      · obtain ⟨content, hc⟩ := readFile_returns_iff.mpr hr
        rw [FileManager.getFile_read rfl hd hm hc]
        refine .inl ⟨returns_ret _, fun ⟨_, _, hd', hr'⟩ => hr ?_⟩
        rwa [Option.some.inj (hd.symm.trans hd')]

theorem getFile_returns_iff {path : Bytes} :
    (file_manager.getFile disk path).1.Returns ↔ ¬ UnreadableFile disk file_manager path := by
  rcases getFile_ends disk file_manager path with ⟨hr, hu⟩ | ⟨he, hu⟩
  · exact iff_of_true hr hu
  · rw [he]
    exact iff_of_false (not_returns_throw _) (not_not.mpr hu)

theorem handle_accepted_returns_iff (h : parseHttpRequest str = ret (.ok request)) :
    (handle disk str file_manager).1.Returns ↔
      ¬ UnreadableFile disk file_manager (servedKey request) := by
  rw [handle_of_accepted h, returns_andThen_iff, ← getFile_returns_iff]
  simp [Outcome.Returns]

theorem handle_returns_iff (disk : Disk) (str : Bytes) (file_manager : FileManager) :
    (handle disk str file_manager).1.Returns ↔
      ¬ CutShort str ∧ ¬ StrayRequest str ∧ ¬ UnreadableRequest disk file_manager str := by
  rw [← and_assoc, ← parseHttpRequest_returns_iff]
  have hnot (hp : ∀ request, parseHttpRequest str ≠ ret (.ok request)) :
      ¬ UnreadableRequest disk file_manager str :=
    fun ⟨request, hr, _⟩ => hp request (parseHttpRequest_ok hr)
  cases hp : parseHttpRequest str with
  | ret result =>
    cases result with
    | ok request =>
      have hu : UnreadableRequest disk file_manager str ↔
          UnreadableFile disk file_manager (servedKey request) := by
        unfold UnreadableRequest
        simp [← parseHttpRequest_ok_iff, hp]
      rw [handle_accepted_returns_iff hp, hu]
      simp
    | error e =>
      have hu := hnot (by simp [hp])
      simp [handle, hp, hu]
  | throw e => simp [handle, hp]
  | ub => simp [handle, hp]
  | killed => simp [handle, hp]

/-- A call of `get_file` stores what it can read, and nothing else. -/
theorem unreadableFile_getFile (disk : Disk) (file_manager : FileManager) (path path' : Bytes) :
    UnreadableFile disk (file_manager.getFile disk path').2 path ↔
      UnreadableFile disk file_manager path := by
  cases hm : file_manager.file_fetcher.file_cache[path']? with
  | some entry => rw [FileManager.getFile_cached hm]
  | none =>
    cases hd : file_manager.file_fetcher.file_fetcher.file_descriptors[path']? with
    | none =>
      obtain ⟨e, he⟩ := FileManager.getFile_unlisted disk rfl hd hm
      rw [he]
    | some file_descriptor =>
      by_cases hr : disk.read (chosenPath file_descriptor) = .fails
      · rw [FileManager.getFile_fails rfl hd hm hr]
      · obtain ⟨content, hc⟩ := readFile_returns_iff.mpr hr
        rw [FileManager.getFile_read rfl hd hm hc]
        unfold UnreadableFile
        dsimp only
        rw [Lib.getElem?_insert]
        by_cases hp : path = path'
        · subst hp
          rw [if_pos rfl, hd]
          refine iff_of_false nofun fun ⟨_, _, hd', hr'⟩ => hr ?_
          rwa [Option.some.inj hd']
        · rw [if_neg hp]

theorem unreadableRequest_handle (disk : Disk) (str' : Bytes) (file_manager : FileManager)
    (str : Bytes) : UnreadableRequest disk (handle disk str' file_manager).2 str ↔
      UnreadableRequest disk file_manager str := by
  by_cases hp : ∃ request, parseHttpRequest str' = ret (.ok request)
  · obtain ⟨request, hp⟩ := hp
    have hm : (handle disk str' file_manager).2 =
        (file_manager.getFile disk (servedKey request)).2 := by
      rw [handle_of_accepted hp]
      rcases getFile_ends disk file_manager (servedKey request) with ⟨⟨data, hd⟩, -⟩ | ⟨he, -⟩
      · rw [andThen_of_ret hd]
      · rw [he]
        rfl
    rw [hm]
    unfold UnreadableRequest
    simp only [unreadableFile_getFile]
  · rw [handle_of_not_accepted fun request h => hp ⟨request, h⟩]

/-! ## What an accepted request is answered -/

def notFoundMessage : Bytes := lit "HTTP/1.1 404 Not Found\r\n\r\n"

def okMessage (filetype : FileType) (brotli : Bool) (body : Bytes) : Bytes :=
  lit "HTTP/1.1 200 OK\r\n" ++ (if brotli then lit "Content-Encoding: br\r\n" else []) ++
    lit "Content-Type: " ++ decodeFiletype filetype ++ lit "\r\n\r\n" ++ body

/-- `message` is the answer to `request` over `table` and `disk`: not found where the table
    has no entry; else the BROTLI file where the entry lists one and the NONE file where it
    lists only that, without the body for `HEAD`. -/
def Answers (disk : Disk) (table : FileTable) (request : HTTPRequest) (message : Bytes) : Prop :=
  match table[servedKey request]? with
  | none => message = notFoundMessage
  | some descriptor =>
    ∃ content, message = okMessage descriptor.filetype (descriptor.file_paths .BROTLI).isSome
        (if request.method = .HEAD then [] else content) ∧
      ∀ entry, (descriptor.file_paths .BROTLI).or (descriptor.file_paths .NONE) = some entry →
        disk.read entry.path = .reads content

/-- Every file that the table lists can be read. -/
def AllReadable (disk : Disk) (table : FileTable) : Prop :=
  ∀ (path : Bytes) (descriptor : FileDescriptor) (encoding : FileEncoding) (entry : FileEntry),
    table[path]? = some descriptor → descriptor.file_paths encoding = some entry →
      ∃ content, disk.read entry.path = .reads content

theorem printHeaders_of_lines {lines : Bytes} {map : HeaderMap} (version : HTTPVersion)
    (h : encodeHeaders (headersOf map) = lines) (body : Bytes) :
    HTTPMessage.printHeaders ⟨version, map, body⟩ = lines ++ (crlf ++ body) := by
  rw [printHeaders_eq, h]

theorem contentType_lines (filetype : FileType) :
    encodeHeaders (headersOf ((∅ : HeaderMap).insert (lit "Content-Type") (decodeFiletype filetype))) =
      lit "Content-Type: " ++ decodeFiletype filetype ++ crlf := by
  cases filetype <;> decide

/-- `Content-Encoding` is printed first: the map is in key order. -/
theorem contentEncoding_lines (filetype : FileType) :
    encodeHeaders (headersOf (((∅ : HeaderMap).insert (lit "Content-Type")
        (decodeFiletype filetype)).insert (lit "Content-Encoding") (decodeFileEncoding .BROTLI))) =
      lit "Content-Encoding: br\r\n" ++ lit "Content-Type: " ++ decodeFiletype filetype ++ crlf := by
  cases filetype <;> decide

/-- The answer as a function of disk, table and request. -/
def answer (disk : Disk) (table : FileTable) (request : HTTPRequest) : Outcome Bytes :=
  (fun file_data => responseText (composeResponse request file_data)) <$>
    DiskFileFetcher.getFile disk ⟨table⟩ (servedKey request)

theorem statusLine_ok :
    lit "HTTP/1.1" ++ lit " " ++ statusCodeToString .OK ++ crlf = lit "HTTP/1.1 200 OK\r\n" := by
  decide

theorem crlf_crlf : crlf ++ crlf = lit "\r\n\r\n" := by decide

/-- The headers of a 200 response. -/
def okHeaders (filetype : FileType) (file_encoding : FileEncoding) : HeaderMap :=
  let headers := (∅ : HeaderMap).insert (lit "Content-Type") (decodeFiletype filetype)
  if file_encoding ≠ .NONE then
    headers.insert (lit "Content-Encoding") (decodeFileEncoding file_encoding)
  else headers

/-- The method decides about the body and about nothing else. -/
theorem setContent_unless_head (method : HTTPMethod) (headers : HeaderMap) (content : Bytes) :
    (if method ≠ .HEAD then HTTPResponse.setContent ⟨⟨.HTTP_1_1, headers, []⟩, .OK⟩ content
      else ⟨⟨.HTTP_1_1, headers, []⟩, .OK⟩) =
      ⟨⟨.HTTP_1_1, headers, if method = .HEAD then [] else content⟩, .OK⟩ := by
  by_cases hm : method = .HEAD
  · rw [if_neg (not_not.mpr hm), if_pos hm]
  · rw [if_pos hm, if_neg hm]
    rfl

theorem composeResponse_ok (request : HTTPRequest) (data : HTTPFileData) :
    composeResponse request (.ok data) =
      ⟨⟨.HTTP_1_1, okHeaders data.filetype data.file_encoding,
        if request.method = .HEAD then [] else data.content⟩, .OK⟩ := by
  rw [← setContent_unless_head]
  unfold composeResponse okHeaders
  by_cases he : data.file_encoding = .NONE
  · simp only [if_neg (not_not.mpr he)]
    rfl
  · simp only [if_pos he]
    rfl

/-- The two 200 messages. -/
theorem ok_message (request : HTTPRequest) (filetype : FileType) (content : Bytes) (brotli : Bool) :
    responseText (composeResponse request
        (.ok ⟨filetype, if brotli then .BROTLI else .NONE, content⟩)) =
      okMessage filetype brotli (if request.method = .HEAD then [] else content) := by
  rw [responseText, composeResponse_ok]
  dsimp only
  cases brotli with
  | true =>
    have hl : encodeHeaders (headersOf (okHeaders filetype .BROTLI)) = _ :=
      contentEncoding_lines filetype
    rw [if_pos rfl, printHeaders_of_lines _ hl, statusLine_ok, okMessage, ← crlf_crlf, if_pos rfl]
    simp only [List.append_assoc]
  | false =>
    have hl : encodeHeaders (headersOf (okHeaders filetype .NONE)) = _ :=
      contentType_lines filetype
    rw [if_neg Bool.false_ne_true, printHeaders_of_lines _ hl, statusLine_ok, okMessage,
      ← crlf_crlf, if_neg Bool.false_ne_true]
    simp only [List.append_assoc, List.nil_append]

theorem notFound_message (request : HTTPRequest) (e : FileManagerException) :
    responseText (composeResponse request (.error e)) = notFoundMessage := by
  have hr : composeResponse request (.error e) = HTTPResponse.new .NOT_FOUND .HTTP_1_1 := rfl
  rw [hr]
  decide

theorem answer_unlisted (disk : Disk) (h : table[servedKey request]? = none) :
    answer disk table request = ret notFoundMessage := by
  obtain ⟨e, he⟩ := DiskFileFetcher.getFile_unlisted disk h
  rw [answer, he, map_ret, notFound_message]

theorem chosenEncoding_eq (file_descriptor : FileDescriptor) : chosenEncoding file_descriptor =
    if (file_descriptor.file_paths .BROTLI).isSome then .BROTLI else .NONE := by
  unfold chosenEncoding
  cases file_descriptor.file_paths .BROTLI <;> rfl

/-- A listed file is answered with what is read of it. -/
theorem answer_listed {file_descriptor : FileDescriptor} {content : Bytes}
    (h : table[servedKey request]? = some file_descriptor)
    (hr : readFile disk (chosenPath file_descriptor) = ret content) :
    answer disk table request = ret (okMessage file_descriptor.filetype
      (file_descriptor.file_paths .BROTLI).isSome
      (if request.method = .HEAD then [] else content)) := by
  rw [answer, DiskFileFetcher.getFile_listed disk h, hr, map_ret, map_ret, chosenEncoding_eq,
    ok_message]

/-- The path that is read is one that is listed, or empty. -/
theorem chosenPath_cases (file_descriptor : FileDescriptor) :
    (∃ entry, (file_descriptor.file_paths .BROTLI).or (file_descriptor.file_paths .NONE) =
      some entry ∧ chosenPath file_descriptor = entry.path) ∨
    ((file_descriptor.file_paths .BROTLI).or (file_descriptor.file_paths .NONE) = none ∧
      chosenPath file_descriptor = []) := by
  unfold chosenPath
  cases file_descriptor.file_paths .BROTLI with
  | some entry => exact .inl ⟨entry, rfl, rfl⟩
  | none =>
    cases file_descriptor.file_paths .NONE with
    | some entry => exact .inl ⟨entry, rfl, rfl⟩
    | none => exact .inr ⟨rfl, rfl⟩

/-- Where every listed file can be read, every request has its answer. -/
theorem answers_answer (hr : AllReadable disk table) (request : HTTPRequest) :
    ∃ message, answer disk table request = ret message ∧ Answers disk table request message := by
  unfold Answers
  cases ht : table[servedKey request]? with
  | none => exact ⟨_, answer_unlisted disk ht, rfl⟩
  | some descriptor =>
    rcases chosenPath_cases descriptor with ⟨entry, he, hp⟩ | ⟨hn, hp⟩
    · have hlisted : ∃ encoding, descriptor.file_paths encoding = some entry := by
        rcases Option.or_eq_some_iff.mp he with hb | ⟨-, hb⟩
        · exact ⟨_, hb⟩
        · exact ⟨_, hb⟩
      obtain ⟨encoding, hlisted⟩ := hlisted
      obtain ⟨content, hc⟩ := hr _ _ _ _ ht hlisted
      refine ⟨_, answer_listed ht (hp ▸ readFile_of_reads hc), content, rfl, fun entry' he' => ?_⟩
      obtain rfl := Option.some.inj (he.symm.trans he')
      exact hc
    · have hempty : readFile disk (chosenPath descriptor) = ret [] := by
        rw [hp, readFile, disk.read_nil]
      refine ⟨_, answer_listed ht hempty, [], rfl, fun entry' he' => ?_⟩
      cases hn.symm.trans he'

/-- On a sound manager an accepted request gets its answer, and the manager stays sound. -/
theorem handle_accepted (hs : file_manager.Sound disk table)
    (hp : parseHttpRequest str = ret (.ok request)) :
    (handle disk str file_manager).1 = some <$> answer disk table request ∧
      (handle disk str file_manager).2.Sound disk table := by
  obtain ⟨hg, hs'⟩ := hs.getFile (servedKey request)
  rw [handle_of_accepted hp, answer, ← hg]
  revert hs'
  obtain ⟨outcome, next⟩ := file_manager.getFile disk (servedKey request)
  intro hs'
  cases outcome with
  | ret file_data => exact ⟨rfl, hs'⟩
  | throw e => exact ⟨rfl, hs'⟩
  | ub => exact ⟨rfl, hs'⟩
  | killed => exact ⟨rfl, hs'⟩

/-- Every call keeps the manager sound. -/
theorem handle_sound (hs : file_manager.Sound disk table) (str : Bytes) :
    (handle disk str file_manager).2.Sound disk table := by
  by_cases hp : ∃ request, parseHttpRequest str = ret (.ok request)
  · obtain ⟨request, hp⟩ := hp
    exact (handle_accepted hs hp).2
  · rw [handle_of_not_accepted fun request h => hp ⟨request, h⟩]
    exact hs

theorem handleAll_accepted (hs : file_manager.Sound disk table) (requests : List Bytes) (i : Nat)
    (hi : requests[i]? = some str) (hp : parseHttpRequest str = ret (.ok request)) :
    (handleAll disk requests file_manager).1[i]? = some (some <$> answer disk table request) := by
  induction requests generalizing i file_manager with
  | nil => simp at hi
  | cons first rest ih =>
    cases i with
    | zero =>
      rw [List.getElem?_cons_zero, Option.some.injEq] at hi
      subst hi
      rw [handleAll, List.getElem?_cons_zero, (handle_accepted hs hp).1]
    | succ i =>
      rw [List.getElem?_cons_succ] at hi
      rw [handleAll, List.getElem?_cons_succ]
      exact ih (handle_sound hs first) i hi

/-- **The answer to an accepted request depends on that request alone.** In every run of
    requests over a disk that stays as it is, from an empty cache, each accepted request is
    answered as `Answers` says, whatever came before it. -/
theorem handleAll_answers (disk : Disk) (table : FileTable) (hr : AllReadable disk table) :
    ∃ answer : HTTPRequest → Bytes, (∀ request, Answers disk table request (answer request)) ∧
      ∀ (requests : List Bytes) (i : Nat) (str : Bytes) (request : HTTPRequest),
        requests[i]? = some str → parseHttpRequest str = ret (.ok request) →
        (handleAll disk requests (FileManager.fresh table)).1[i]? =
          some (ret (some (answer request))) := by
  choose message hm ha using answers_answer hr
  refine ⟨message, ha, fun requests i str request hi hp => ?_⟩
  rw [handleAll_accepted (FileManager.sound_fresh disk table) requests i hi hp, hm request, map_ret]

/-- A disk with one file, and the table that lists it as a Brotli page. -/
def onePageDisk : Disk where
  read path := if path = lit "index.html.br" then .reads (lit "page") else .notOpened
  read_nil := rfl

def onePage : FileDescriptor where
  filename := lit "index.html"
  filetype := .TEXT_HTML
  file_paths encoding := if encoding = .BROTLI then some ⟨lit "index.html.br"⟩ else none

def onePageTable : FileTable := (∅ : FileTable).insert (lit "../webdir/index.html") onePage

theorem allReadable_onePage : AllReadable onePageDisk onePageTable := by
  intro path descriptor encoding entry ht he
  rw [onePageTable, Std.ExtTreeMap.getElem?_insert] at ht
  split at ht
  · obtain rfl := Option.some.inj ht
    dsimp only [onePage] at he
    split at he
    · obtain rfl := Option.some.inj he
      exact ⟨_, rfl⟩
    · cases he
  · simp at ht

theorem answers_onePage {message : Bytes} (hk : servedKey request = lit "../webdir/index.html")
    (h : Answers onePageDisk onePageTable request message) :
    message = okMessage .TEXT_HTML true (if request.method = .HEAD then [] else lit "page") := by
  have ht : onePageTable[servedKey request]? = some onePage := by
    rw [hk]
    exact Std.ExtTreeMap.getElem?_insert_self
  unfold Answers at h
  rw [ht] at h
  obtain ⟨content, rfl, hc⟩ := h
  cases hc _ rfl
  rfl

/-- The page asked for twice, the second time without its body, and something else between. -/
theorem handleAll_answers_onePage :
    let outcomes := (handleAll onePageDisk [lit "GET /index.html?a HTTP/1.1\r\n\r\n",
      lit "GET /other HTTP/1.1\r\n\r\n", lit "HEAD /index.html HTTP/1.1\r\n\r\n"]
      (FileManager.fresh onePageTable)).1
    outcomes[0]? = some (ret (some (okMessage .TEXT_HTML true (lit "page")))) ∧
      outcomes[1]? = some (ret (some notFoundMessage)) ∧
      outcomes[2]? = some (ret (some (okMessage .TEXT_HTML true []))) := by
  obtain ⟨message, ha, hall⟩ := handleAll_answers onePageDisk onePageTable allReadable_onePage
  have hfirst : parseHttpRequest (lit "GET /index.html?a HTTP/1.1\r\n\r\n") =
      ret (.ok (HTTPRequest.new .GET (lit "/index.html?a") .HTTP_1_1)) := by decide +kernel
  have hsecond : parseHttpRequest (lit "GET /other HTTP/1.1\r\n\r\n") =
      ret (.ok (HTTPRequest.new .GET (lit "/other") .HTTP_1_1)) := by decide +kernel
  have hthird : parseHttpRequest (lit "HEAD /index.html HTTP/1.1\r\n\r\n") =
      ret (.ok (HTTPRequest.new .HEAD (lit "/index.html") .HTTP_1_1)) := by decide +kernel
  refine ⟨?_, ?_, ?_⟩
  · rw [hall _ 0 _ _ rfl hfirst, answers_onePage (by decide) (ha _)]
    rfl
  · rw [hall _ 1 _ _ rfl hsecond]
    have hm := ha (HTTPRequest.new .GET (lit "/other") .HTTP_1_1)
    have ht : onePageTable[servedKey (HTTPRequest.new .GET (lit "/other") .HTTP_1_1)]? = none := by
      decide +kernel
    unfold Answers at hm
    rw [ht] at hm
    rw [hm]
  · rw [hall _ 2 _ _ rfl hthird, answers_onePage (by decide) (ha _)]
    rfl

end SimpleServ.Http
