import SimpleServ.Cxx.Filesystem

/-
  `Brotli::encode` (content_coding.cpp).

  `BrotliEncoderCompress` is code of the Brotli library: a parameter `compress`. What the
  library says of a call that succeeds is `EncoderContract`: the stream is the first
  `*encoded_size` bytes of the buffer. `encode` gives the encoder a buffer of the input's
  size and writes that buffer to the file, whatever size the encoder reported.

  `encode_success`: a call that returns a path has written the encoder's buffer to it.
-/

namespace SimpleServ.Utility

open SimpleServ.Cxx Outcome

/-- `BrotliEncoderCompress` with the quality, window and mode of `Brotli::encode`. It takes
    the input, `*encoded_size` and the buffer and gives the last two as it leaves them;
    `none` is `BROTLI_FALSE`. -/
abbrev BrotliEncoderCompress := Bytes → Nat → Bytes → Option (Nat × Bytes)

/-- A call that succeeds leaves in front of its buffer a stream that decodes to the input. -/
def EncoderContract (compress : BrotliEncoderCompress) (decode : Bytes → Option Bytes) : Prop :=
  ∀ input encoded_buffer n buffer,
    compress input encoded_buffer.length encoded_buffer = some (n, buffer) →
      n ≤ encoded_buffer.length ∧ buffer.length = encoded_buffer.length ∧
        decode (buffer.take n) = some input

/-- `none` is `false`: the file could not be opened. -/
def writeToFile (fs : Filesystem) (output_path output_data : Bytes) : Option Filesystem :=
  fs.writeFile output_path output_data

/-- The encoder call on a file's bytes: the buffer is as long as the input. -/
def encodeInput (compress : BrotliEncoderCompress) (input : Bytes) : Option (Nat × Bytes) :=
  let output_size := input.length
  let output_data := List.replicate input.length 0
  compress input output_size output_data

/-- `Brotli::encode`: the path and the disk it leaves. `file_size` throws where there is no
    file. -/
def Brotli.encode (compress : BrotliEncoderCompress) (fs : Filesystem) (path : Bytes) :
    Outcome (Bytes × Filesystem) :=
  match fs.file path with
  | none => throw .filesystem_error
  | some input =>
    match encodeInput compress input with
    | none => ret ([], fs)
    | some (_output_size, output_data) =>
      let output_path := path ++ lit ".br"
      match writeToFile fs output_path output_data with
      | some fs => ret (output_path, fs)
      | none => ret ([], fs)

variable {compress : BrotliEncoderCompress} {decode : Bytes → Option Bytes}
  {fs fs' : Filesystem} {path out content buffer : Bytes} {n : Nat}

theorem EncoderContract.encodeInput (h : EncoderContract compress decode)
    (hn : encodeInput compress content = some (n, buffer)) :
    n ≤ content.length ∧ buffer.length = content.length ∧ decode (buffer.take n) = some content := by
  have hl : (List.replicate content.length (0 : Byte)).length = content.length :=
    List.length_replicate
  have hc := h content (List.replicate content.length 0) n buffer (by rw [hl]; exact hn)
  rwa [hl] at hc

theorem encode_written (hc : fs.file path = some content)
    (hn : encodeInput compress content = some (n, buffer))
    (hw : fs.writeFile (path ++ lit ".br") buffer = some fs') :
    Brotli.encode compress fs path = ret (path ++ lit ".br", fs') := by
  unfold Brotli.encode writeToFile
  rw [hc]
  dsimp only
  rw [hn]
  dsimp only
  rw [hw]

/-- Where the encoder gives up or the file cannot be opened, nothing changes. -/
theorem encode_given_up (hc : fs.file path = some content)
    (hn : ∀ n buffer, encodeInput compress content = some (n, buffer) →
      fs.writeFile (path ++ lit ".br") buffer = none) :
    Brotli.encode compress fs path = ret ([], fs) := by
  unfold Brotli.encode writeToFile
  rw [hc]
  dsimp only
  cases he : encodeInput compress content with
  | none => rfl
  | some result =>
    obtain ⟨n, buffer⟩ := result
    dsimp only
    rw [hn n buffer he]

theorem encode_success (hc : fs.file path = some content)
    (he : Brotli.encode compress fs path = ret (out, fs')) (hne : out ≠ []) :
    ∃ n buffer, encodeInput compress content = some (n, buffer) ∧
      fs.writeFile out buffer = some fs' := by
  by_cases hw : ∃ n buffer fs'', encodeInput compress content = some (n, buffer) ∧
      fs.writeFile (path ++ lit ".br") buffer = some fs''
  · obtain ⟨n, buffer, fs'', hn, hw⟩ := hw
    rw [encode_written hc hn hw] at he
    cases he
    exact ⟨n, buffer, hn, hw⟩
  · rw [encode_given_up hc] at he
    · cases he
      exact absurd rfl hne
    · intro n buffer hn
      rw [Option.eq_none_iff_forall_ne_some]
      exact fun fs'' h => hw ⟨n, buffer, fs'', hn, h⟩

end SimpleServ.Utility
