import SimpleServ.Http.Extension
import SimpleServ.Server.TlsServer

/-
  The way of a request from a read to the thread pool (tcp_server.hpp, tls_server.hpp).

  Both loops write a terminator behind the bytes of the read and make a string of the buffer's
  address. The string ends at the first zero byte, which may be one of the request.

  `handsOver_iff`: the loops hand over what was read exactly when no byte of it is zero, and
  the loop of the `TLSServer` only when it does not read again over it. An accepted request
  that is cut off at a zero byte is parsed as another one, or not accepted.
-/

namespace SimpleServ.Server

open SimpleServ.Cxx SimpleServ.Http SimpleServ.Lib Outcome

/-- The loop waits in `recv`, which gives `bytes`: it adds the connection to the pool with
    these bytes as its request, and the parser finds in the request what it finds in them. -/
def TcpServer.HandsOver (server : TcpServer) (bytes : Bytes) : Prop :=
  ∃ (server' : TcpServer) (request : Bytes),
    TcpServer.acceptIncoming server (.recv (.ok bytes)) = some server' ∧
    server'.log = server.log ++ [.addTask ⟨server.client_fd, request⟩] ∧
    request = bytes ∧ parseHttpRequest request = parseHttpRequest bytes

/-- The same of `wolfSSL_read`, behind which `wolfSSL_get_error` answers `err`. -/
def TlsServer.HandsOver (server : TlsServer) (bytes : Bytes) (err : TlsServer.SslError) : Prop :=
  ∃ (server' : TlsServer) (request : Bytes),
    TlsServer.acceptIncoming server (.wolfSSL_read bytes.length bytes err) = some server' ∧
    server'.log = server.log ++ [.addTask ⟨server.client_fd, server.ssl, request⟩] ∧
    request = bytes ∧ parseHttpRequest request = parseHttpRequest bytes

variable {buf bytes s t : Bytes} {request : HTTPRequest}

/-! ## The request string -/

/-- The string goes up to the first zero byte; behind the bytes stands the terminator. -/
theorem requestStr_readInto (buf bytes : Bytes) :
    requestStr (readInto buf bytes) bytes.length = bytes.takeWhile (· ≠ 0) := by
  have hend : ((buf.drop bytes.length).set 0 0).takeWhile (· ≠ 0) = [] := by
    cases buf.drop bytes.length with
    | nil => rfl
    | cons y rest => exact List.takeWhile_cons_of_neg (by decide)
  unfold requestStr readInto
  rw [List.set_append_right _ _ le_rfl, Nat.sub_self, List.takeWhile_append, hend, List.append_nil]
  split
  · next h => exact ((List.takeWhile_prefix _).eq_of_length h).symm
  · rfl

theorem requestStr_eq_iff (buf : Bytes) :
    requestStr (readInto buf bytes) bytes.length = bytes ↔ 0 ∉ bytes := by
  rw [requestStr_readInto, List.takeWhile_eq_self_iff]
  constructor
  · intro h hm
    simpa using h 0 hm
  · intro h x hx
    rw [decide_eq_true_iff]
    rintro rfl
    exact h hx

/-- Without its end an accepted request is not the same. -/
theorem parse_cut (h : parseHttpRequest (s ++ t) = ret (.ok request)) (ht : t ≠ []) :
    parseHttpRequest s ≠ ret (.ok request) := by
  intro hs
  have hlong := (parseHttpRequest_ok_iff.mp hs).append t
  have hbody := congrArg (fun request => request.body) ((parseHttpRequest_ok_iff.mp h).unique hlong)
  exact ht (List.append_right_eq_self.mp hbody.symm)

theorem parse_requestStr_iff (h : parseHttpRequest bytes = ret (.ok request)) :
    parseHttpRequest (requestStr (readInto buf bytes) bytes.length) = ret (.ok request) ↔
      0 ∉ bytes := by
  constructor
  · intro hp hm
    obtain ⟨t, ht⟩ := List.takeWhile_prefix (l := bytes) (· ≠ 0)
    rw [requestStr_readInto] at hp
    refine parse_cut (t := t) (by rwa [ht]) ?_ hp
    rintro rfl
    rw [List.append_nil, ← requestStr_readInto buf] at ht
    exact (requestStr_eq_iff buf).mp ht hm
  · intro h0
    rwa [(requestStr_eq_iff buf).mpr h0]

/-! ## The loops -/

theorem TcpServer.handsOver_receiving_iff {server : TcpServer} (hp : server.pc = .receiving)
    (hb : bytes.length ≤ MAXBUFLEN - 1) : server.HandsOver bytes ↔ 0 ∉ bytes := by
  have hstep : acceptIncoming server (.recv (.ok bytes)) = some ⟨server.addTask
      ⟨server.client_fd, requestStr (readInto zeroBuf bytes) bytes.length⟩, .loop⟩ := by
    unfold acceptIncoming
    rw [hp]
    exact if_pos hb
  rw [← requestStr_eq_iff zeroBuf]
  constructor
  · rintro ⟨server', request, hs, hl, rfl, -⟩
    rw [hstep, Option.some.injEq] at hs
    rw [← hs] at hl
    simpa [Loop.addTask] using hl
  · intro h
    exact ⟨_, _, hstep, rfl, h, by rw [h]⟩

theorem TlsServer.handsOver_reading_iff {server : TlsServer} (hp : server.pc = .reading)
    (hb : bytes.length ≤ MAXBUFLEN - 1) (err : SslError) :
    server.HandsOver bytes err ↔ err ≠ .WANT_READ ∧ 0 ∉ bytes := by
  have hstep : acceptIncoming server (.wolfSSL_read bytes.length bytes err) =
      if err = .WANT_READ then some { server with buf := readInto server.buf bytes }
      else some { server with
        toLoop := server.addTask ⟨server.client_fd, server.ssl,
          requestStr (readInto server.buf bytes) bytes.length⟩
        buf := readInto server.buf bytes, pc := .loop } := by
    unfold acceptIncoming
    rw [hp]
    dsimp only
    rw [if_pos ⟨rfl, hb⟩, if_neg (by omega : ¬ (bytes.length : Int) < 0)]
    rfl
  rw [← requestStr_eq_iff server.buf]
  by_cases he : err = .WANT_READ
  · -- the loop reads again
    rw [if_pos he] at hstep
    refine iff_of_false ?_ fun h => h.1 he
    rintro ⟨server', request, hs, hl, -⟩
    rw [hstep, Option.some.injEq] at hs
    rw [← hs] at hl
    simp at hl
  · rw [if_neg he] at hstep
    constructor
    · rintro ⟨server', request, hs, hl, rfl, -⟩
      rw [hstep, Option.some.injEq] at hs
      rw [← hs] at hl
      exact ⟨he, by simpa [Loop.addTask] using hl⟩
    · rintro ⟨-, h⟩
      exact ⟨_, _, hstep, rfl, h, by rw [h]⟩

/-- **What is read is handed over exactly when it has no zero byte** and, over TLS, when the
    loop does not read again. What the parser accepts it finds again under the same condition. -/
theorem handsOver_iff (bytes : Bytes) (hb : bytes.length ≤ MAXBUFLEN - 1) :
    (∀ server : TcpServer, server.pc = .receiving → (server.HandsOver bytes ↔ 0 ∉ bytes)) ∧
    (∀ (server : TlsServer) (err : TlsServer.SslError), server.pc = .reading →
      (server.HandsOver bytes err ↔ err ≠ .WANT_READ ∧ 0 ∉ bytes)) ∧
    ∀ buf request, parseHttpRequest bytes = ret (.ok request) →
      (parseHttpRequest (requestStr (readInto buf bytes) bytes.length) = ret (.ok request) ↔
        0 ∉ bytes) :=
  ⟨fun _ hp => TcpServer.handsOver_receiving_iff hp hb,
    fun _ err hp => TlsServer.handsOver_reading_iff hp hb err, fun _ _ h => parse_requestStr_iff h⟩

/-- A loop that has accepted a connection. -/
def receiving : TcpServer :=
  { errno := .other 0, client_fd := 5, log := [.accept4 5], pc := .receiving }

def reading : TlsServer :=
  { errno := .other 0, client_fd := 5, log := [.accept4 5], pc := .reading }

/-- A request with the body `body`. -/
def getWithBody (body : Bytes) : Bytes := lit "GET / HTTP/1.1\r\n\r\n" ++ body

set_option maxRecDepth 4000 in
theorem handsOver_iff_bytes :
    receiving.HandsOver (getWithBody [255, 1]) ∧
      reading.HandsOver (getWithBody [255, 1]) (.other 0) ∧
      ∃ request, parseHttpRequest (requestStr (readInto zeroBuf (getWithBody [255, 1]))
        (getWithBody [255, 1]).length) = ret (.ok request) := by
  have hb : (getWithBody [255, 1]).length ≤ MAXBUFLEN - 1 := by decide
  have h0 : 0 ∉ getWithBody [255, 1] := by decide
  obtain ⟨request, ht, -⟩ := wellFormedHead_get.accepted
  have hp := parseHttpRequest_ok (ht.append [255, 1])
  exact ⟨((handsOver_iff _ hb).1 receiving rfl).mpr h0,
    ((handsOver_iff _ hb).2.1 reading (.other 0) rfl).mpr ⟨by decide, h0⟩,
    _, ((handsOver_iff _ hb).2.2 zeroBuf _ hp).mpr h0⟩

set_option maxRecDepth 4000 in
/-- A zero byte in the body, in a loop that a run has left in `recv`. -/
theorem not_handsOver_zeroByte :
    ¬ ∀ (events : List TcpServer.Event) (server : TcpServer) (bytes : Bytes),
      run TcpServer.acceptIncoming { errno := .other 0 } events = some server →
      server.pc = .receiving → bytes.length ≤ MAXBUFLEN - 1 → server.HandsOver bytes := by
  intro h
  have hb : (getWithBody [1, 0, 2]).length ≤ MAXBUFLEN - 1 := by decide
  have hs := h [.stop_requested false, .accept4 (.ok 5)] receiving (getWithBody [1, 0, 2])
    rfl rfl hb
  exact (TcpServer.handsOver_receiving_iff rfl hb).mp hs (by decide)

end SimpleServ.Server
