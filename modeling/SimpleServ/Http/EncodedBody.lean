import SimpleServ.Http.HttpHandler
import SimpleServ.Utility.ContentCoding
import SimpleServ.Utility.DiskHistory

/-
  What a client gets of a file that `Brotli::encode` has written.

  Three sizes meet in `encode`: that of the file, that of the buffer and `*encoded_size`, the
  size of the stream. The buffer is as long as the file, and all of it is written.

  `encode_exact_iff`: the file that `encode` leaves, the body that `get_file` returns and the
  message that `handle` sends are the Brotli stream of the content exactly when that stream is
  as long as the content. A shorter stream is followed by the rest of the buffer.
-/

namespace SimpleServ.Http

open SimpleServ.Cxx SimpleServ.Utility Outcome

/-- `out` holds `stream`, a Brotli stream of `content`, and that is what is served of it. -/
structure ServesStream (decode : Bytes → Option Bytes) (fs : Filesystem)
    (out content stream : Bytes) : Prop where
  decodes : decode stream = some content
  file : fs.file out = some stream
  fetched : ∀ (table : FileTable) (path : Bytes) (file_descriptor : FileDescriptor),
    table[path]? = some file_descriptor → file_descriptor.file_paths .BROTLI = some ⟨out⟩ →
      DiskFileFetcher.getFile fs.disk ⟨table⟩ path =
        ret (.ok ⟨file_descriptor.filetype, .BROTLI, stream⟩)
  sent : ∀ (table : FileTable) (file_manager : FileManager) (str : Bytes) (request : HTTPRequest)
      (file_descriptor : FileDescriptor), file_manager.Sound fs.disk table →
    parseHttpRequest str = ret (.ok request) → request.method ≠ .HEAD →
    table[servedKey request]? = some file_descriptor →
    file_descriptor.file_paths .BROTLI = some ⟨out⟩ →
      (handle fs.disk str file_manager).1 =
        ret (some (okMessage file_descriptor.filetype true stream))

theorem chosen_brotli {out : Bytes} {file_descriptor : FileDescriptor}
    (hb : file_descriptor.file_paths .BROTLI = some ⟨out⟩) :
    chosenPath file_descriptor = out ∧ chosenEncoding file_descriptor = .BROTLI := by
  rw [chosenPath, chosenEncoding, hb]
  exact ⟨rfl, rfl⟩

theorem servesStream_of_file {decode : Bytes → Option Bytes} {fs : Filesystem}
    {out content stream : Bytes} (hd : decode stream = some content)
    (hf : fs.file out = some stream) : ServesStream decode fs out content stream := by
  have hread {file_descriptor : FileDescriptor}
      (hb : file_descriptor.file_paths .BROTLI = some ⟨out⟩) :
      readFile fs.disk (chosenPath file_descriptor) = ret stream := by
    rw [(chosen_brotli hb).1]
    exact readFile_of_reads (Filesystem.disk_reads_iff.mpr hf)
  refine ⟨hd, hf, ?_, ?_⟩
  · intro table path file_descriptor ht hb
    rw [DiskFileFetcher.getFile_listed _ ht, hread hb, map_ret, (chosen_brotli hb).2]
  · intro table file_manager str request file_descriptor hs hp hm ht hb
    rw [(handle_accepted hs hp).1, answer_listed ht (hread hb), map_ret, hb, if_neg hm]
    rfl

variable {compress : BrotliEncoderCompress} {decode : Bytes → Option Bytes}
  {fs fs' : Filesystem} {path out content buffer : Bytes} {n : Nat}

/-- The whole buffer is in the file. -/
theorem encode_writes_buffer (hc : fs.file path = some content)
    (he : Brotli.encode compress fs path = ret (out, fs')) (hne : out ≠ [])
    (hn : encodeInput compress content = some (n, buffer)) : fs'.file out = some buffer := by
  obtain ⟨n', buffer', hn', hw⟩ := encode_success hc he hne
  rw [hn] at hn'
  cases hn'
  exact Filesystem.file_writeFile hw

/-- **The file that `encode` leaves is the stream exactly when the stream fills the buffer.** -/
theorem encode_exact_iff (hk : EncoderContract compress decode) (hc : fs.file path = some content)
    (he : Brotli.encode compress fs path = ret (out, fs')) (hne : out ≠ [])
    (hn : encodeInput compress content = some (n, buffer)) :
    ServesStream decode fs' out content (buffer.take n) ↔ n = content.length := by
  obtain ⟨hle, hl, hd⟩ := hk.encodeInput hn
  have hb := encode_writes_buffer hc he hne hn
  constructor
  · intro h
    have hf : some (buffer.take n) = some buffer := by rw [← h.file, hb]
    have hlen : (buffer.take n).length = buffer.length := congrArg List.length (Option.some.inj hf)
    rw [List.length_take] at hlen
    omega
  · rintro rfl
    refine servesStream_of_file hd ?_
    rw [hb, ← hl, List.take_length]

/-! ## Two pages

What the encoder makes of ten and of eleven times the letter `a` is ten bytes each time. -/

def tenLetters : Bytes := List.replicate 10 (chr 'a')

def tenStream : Bytes := [27, 9, 0, 0, 36, 194, 226, 145, 64, 0]

def elevenLetters : Bytes := List.replicate 11 (chr 'a')

def elevenStream : Bytes := [27, 10, 0, 0, 36, 194, 2, 153, 64, 0]

/-- The encoder on these two inputs. -/
def letterStream (input : Bytes) : Option Bytes :=
  if input = tenLetters then some tenStream
  else if input = elevenLetters then some elevenStream
  else none

def letterDecode (stream : Bytes) : Option Bytes :=
  if stream = tenStream then some tenLetters
  else if stream = elevenStream then some elevenLetters
  else none

def letterCompress : BrotliEncoderCompress := fun input encoded_size encoded_buffer =>
  match letterStream input with
  | none => none
  | some stream =>
    if stream.length ≤ encoded_size then
      some (stream.length, stream ++ encoded_buffer.drop stream.length)
    else none

theorem letterDecode_letterStream {input stream : Bytes} (h : letterStream input = some stream) :
    letterDecode stream = some input := by
  unfold letterStream at h
  split at h
  · next hi =>
    cases h
    rw [hi]
    rfl
  · split at h
    · next hi =>
      cases h
      rw [hi]
      rfl
    · cases h

theorem letter_contract : EncoderContract letterCompress letterDecode := by
  intro input encoded_buffer n buffer h
  unfold letterCompress at h
  split at h
  · cases h
  · next stream hs =>
    split at h
    · next hle =>
      cases h
      refine ⟨hle, ?_, ?_⟩
      · rw [List.length_append, List.length_drop]
        omega
      · rw [List.take_left]
        exact letterDecode_letterStream hs
    · cases h

def indexName : Name := ⟨lit "index.html", by decide⟩

def indexBrName : Name := ⟨lit "index.html.br", by decide⟩

theorem vacant_index : Filesystem.empty.Vacant [indexName] :=
  Filesystem.vacant_child [] Filesystem.empty.root_dir (Filesystem.getElem?_empty (by simp))

/-- A file system with one page, in its root. -/
def onePageSystem (content : Bytes) : Filesystem :=
  Filesystem.empty.put [indexName] (.file content) vacant_index

theorem onePageSystem_resolve (content : Bytes) (name : Name) :
    (onePageSystem content).resolve (lit "/" ++ name.val) = some [name] := by
  have ha : FsPath.append (lit "/") name.val = lit "/" ++ name.val := by
    rw [append_entry name.no_separator, if_pos (by decide)]
  have hd := Filesystem.directory_root (onePageSystem content)
  have hr := Filesystem.resolve_append (by decide) hd name
  rwa [ha] at hr

theorem onePageSystem_file (content : Bytes) :
    (onePageSystem content).file (lit "/index.html") = some content := by
  refine Filesystem.file_eq_some.mpr ⟨[indexName], onePageSystem_resolve content indexName, ?_⟩
  rw [onePageSystem, Filesystem.getElem?_put, if_pos rfl]

theorem vacant_indexBr (content : Bytes) : (onePageSystem content).Vacant [indexBrName] := by
  refine Filesystem.vacant_child [] (onePageSystem content).root_dir ?_
  rw [onePageSystem, Filesystem.getElem?_put, if_neg (by decide)]
  exact Filesystem.getElem?_empty (by simp)

/-- The page's file system after the encoder's buffer was written. -/
def encodedPageSystem (content buffer : Bytes) : Filesystem :=
  (onePageSystem content).put [indexBrName] (.file buffer) (vacant_indexBr content)

theorem encode_onePage {compress : BrotliEncoderCompress} {content buffer : Bytes} {n : Nat}
    (hn : encodeInput compress content = some (n, buffer)) :
    Brotli.encode compress (onePageSystem content) (lit "/index.html") =
      ret (lit "/index.html.br", encodedPageSystem content buffer) :=
  encode_written (onePageSystem_file content) hn
    (Filesystem.writeFile_of_vacant (onePageSystem_resolve content indexBrName)
      (vacant_indexBr content) rfl buffer)

/-- The stream of ten letters fills the buffer. -/
theorem encode_exact_iff_tenLetters :
    ServesStream letterDecode (encodedPageSystem tenLetters tenStream) (lit "/index.html.br")
      tenLetters (tenStream.take 10) :=
  (encode_exact_iff letter_contract (onePageSystem_file tenLetters)
    (encode_onePage (n := 10) (by decide)) (by decide) (by decide)).mpr rfl

/-- The stream of eleven letters is followed by a byte of the buffer. -/
theorem not_exact_elevenLetters :
    ¬ ∀ (compress : BrotliEncoderCompress) (decode : Bytes → Option Bytes),
      EncoderContract compress decode →
      ∀ (fs fs' : Filesystem) (path out content buffer : Bytes) (n : Nat),
        fs.file path = some content → Brotli.encode compress fs path = ret (out, fs') → out ≠ [] →
        encodeInput compress content = some (n, buffer) →
          ServesStream decode fs' out content (buffer.take n) := by
  intro h
  have hn : encodeInput letterCompress elevenLetters = some (10, elevenStream ++ [0]) := by decide
  have hd := onePageSystem_file elevenLetters
  have he := encode_onePage hn
  have hs := h _ _ letter_contract _ _ _ _ _ _ _ hd he (by decide) hn
  have hb := encode_writes_buffer hd he (by decide) hn
  rw [hs.file] at hb
  exact absurd hb (by decide)

end SimpleServ.Http
