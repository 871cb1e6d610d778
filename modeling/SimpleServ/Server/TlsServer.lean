import SimpleServ.Server.TcpServer

/-
  `TLSServer::AcceptIncoming` (tls_server.hpp) as a machine, like that of `TcpServer`.

  A connection goes through `wolfSSL_new`, `wolfSSL_accept` and reads. The loop goes on after
  a failed `wolfSSL_new` and a failed handshake; it reads again while `wolfSSL_get_error`,
  which it asks about the handshake's result and not the read's, answers WANT_READ. Each
  read is one event with this answer. Log lines are left out. Up to the first call of `accept4`
  the member `client_fd` is uninitialised, and the loop does not look at it: `-1` stands for
  any value.

  `accept_loops_return_on_stop_iff`: in which runs the two servers' loops return on
  `stop_requested` only.
-/

namespace SimpleServ.Server

open SimpleServ.Cxx SimpleServ.Lib

/-- `ssl` is the address of a WOLFSSL object, `none` the null pointer. -/
structure HTTPSConnectionObject where
  client_fd : Int := -1
  ssl : Option Nat := none
  request : Bytes
  deriving DecidableEq, Repr

namespace TlsServer

/-- What `wolfSSL_get_error` answers. -/
inductive SslError where
  | WANT_READ
  | other (code : Int)
  deriving DecidableEq, Repr

inductive Pc where
  | loop | accepting | creating | handshaking | reading | returned
  deriving DecidableEq, Repr

/-- A read gives `numbytes` and writes `bytes`, none where the count is negative. -/
inductive Event where
  | stop_requested (requested : Bool)
  | accept4 (result : CallResult Nat)
  | wolfSSL_new (ssl : Option Nat)
  | wolfSSL_accept (ret : Int)
  | wolfSSL_read (numbytes : Int) (bytes : Bytes) (err : SslError)
  deriving DecidableEq, Repr

end TlsServer

open TlsServer

structure TlsServer extends Loop HTTPSConnectionObject where
  ssl : Option Nat := none
  ret : Int := 0
  buf : Bytes := zeroBuf
  pc : Pc := .loop
  deriving DecidableEq, Repr

namespace TlsServer

def acceptIncoming (server : TlsServer) (event : Event) : Option TlsServer :=
  match server.pc, event with
  | .loop, .stop_requested requested =>
    some { server with pc := if requested then .returned else .accepting }
  | .accepting, .accept4 result =>
    let loop := server.accept4 result
    if loop.client_fd ≠ -1 ∧ loop.errno ≠ .EAGAIN then
      some { server with toLoop := loop, buf := zeroBuf, ret := 0, pc := .creating }
    else some { server with toLoop := loop, pc := .loop }
  | .creating, .wolfSSL_new ssl =>
    some { server with ssl := ssl, ret := if ssl = none then -1 else server.ret, pc := .handshaking }
  | .handshaking, .wolfSSL_accept ret => some { server with ret := ret, pc := .reading }
  | .reading, .wolfSSL_read numbytes bytes err =>
    if bytes.length = numbytes.toNat ∧ bytes.length ≤ MAXBUFLEN - 1 then
      let server := { server with buf := readInto server.buf bytes }
      if err = .WANT_READ then some server
      else if numbytes < 0 then some { server with pc := .returned }
      else
        let request_str := requestStr server.buf numbytes.toNat
        some { server with
          toLoop := server.addTask ⟨server.client_fd, server.ssl, request_str⟩, pc := .loop }
    else none
  | _, _ => none

/-- The kinds of steps of the loop. -/
inductive Step (server : TlsServer) : Event → TlsServer → Prop where
  | stop (hp : server.pc = .loop) :
    Step server (.stop_requested true) { server with pc := .returned }
  | goOn (hp : server.pc = .loop) :
    Step server (.stop_requested false) { server with pc := .accepting }
  | acceptError (hp : server.pc = .accepting) (errno : Errno) :
    Step server (.accept4 (.error errno))
      { server with toLoop := server.accept4 (.error errno), pc := .loop }
  | accept (hp : server.pc = .accepting) (he : server.errno ≠ .EAGAIN) (fd : Nat) :
    Step server (.accept4 (.ok fd)) { server with
      toLoop := server.accept4 (.ok fd), buf := zeroBuf, ret := 0, pc := .creating }
  | drop (hp : server.pc = .accepting) (he : server.errno = .EAGAIN) (fd : Nat) :
    Step server (.accept4 (.ok fd)) { server with toLoop := server.accept4 (.ok fd), pc := .loop }
  | create (hp : server.pc = .creating) (ssl : Option Nat) :
    Step server (.wolfSSL_new ssl)
      { server with ssl := ssl, ret := if ssl = none then -1 else server.ret, pc := .handshaking }
  | handshake (hp : server.pc = .handshaking) (ret : Int) :
    Step server (.wolfSSL_accept ret) { server with ret := ret, pc := .reading }
  | readAgain (hp : server.pc = .reading) (numbytes : Int) (bytes : Bytes) :
    Step server (.wolfSSL_read numbytes bytes .WANT_READ)
      { server with buf := readInto server.buf bytes }
  | readError (hp : server.pc = .reading) (numbytes : Int) (bytes : Bytes) (err : SslError)
      (he : err ≠ .WANT_READ) (hn : numbytes < 0) :
    Step server (.wolfSSL_read numbytes bytes err)
      { server with buf := readInto server.buf bytes, pc := .returned }
  | handOver (hp : server.pc = .reading) (numbytes : Int) (bytes : Bytes) (err : SslError)
      (he : err ≠ .WANT_READ) (hn : ¬ numbytes < 0) (hb : bytes.length = numbytes.toNat) :
    Step server (.wolfSSL_read numbytes bytes err) { server with
      toLoop := server.addTask ⟨server.client_fd, server.ssl,
        requestStr (readInto server.buf bytes) numbytes.toNat⟩
      buf := readInto server.buf bytes, pc := .loop }

variable {server server' : TlsServer} {event : Event} {events : List Event}

theorem step_of_acceptIncoming (h : acceptIncoming server event = some server') :
    Step server event server' := by
  unfold acceptIncoming at h
  split at h
  · next requested hp =>
    cases h
    cases requested with
    | true => exact .stop hp
    | false => exact .goOn hp
  · next result hp =>
    cases result with
    | error errno =>
      rw [if_neg (server.accept4_error_not_taken errno)] at h
      cases h
      exact .acceptError hp errno
    | ok fd =>
      by_cases he : server.errno = .EAGAIN
      · rw [if_neg (mt (server.accept4_ok_taken_iff fd).mp (not_not.mpr he))] at h
        cases h
        exact .drop hp he fd
      · rw [if_pos ((server.accept4_ok_taken_iff fd).mpr he)] at h
        cases h
        exact .accept hp he fd
  · next ssl hp =>
    cases h
    exact .create hp ssl
  · next ret hp =>
    cases h
    exact .handshake hp ret
  · next numbytes bytes err hp =>
    split at h
    · next hb =>
      by_cases he : err = .WANT_READ
      · rw [if_pos he] at h
        cases h
        exact he ▸ .readAgain hp numbytes bytes
      · rw [if_neg he] at h
        by_cases hn : numbytes < 0
        · rw [if_pos hn] at h
          cases h
          exact .readError hp numbytes bytes err he hn
        · rw [if_neg hn] at h
          cases h
          exact .handOver hp numbytes bytes err he hn hb.1
    · cases h
  · cases h

/-! ## How the loop ends -/

/-- A last read with a negative count. -/
def ReadFails (event : Event) : Prop :=
  ∃ numbytes bytes err, numbytes < 0 ∧ err ≠ .WANT_READ ∧ event = .wolfSSL_read numbytes bytes err

theorem no_step_after_return (server : TlsServer) (event : Event) (h : server.pc = .returned) :
    acceptIncoming server event = none := by
  unfold acceptIncoming
  rw [h]

theorem returned_iff_of_step (hs : Step server event server') :
    server'.pc = .returned ↔ event = .stop_requested true ∨ ReadFails event := by
  cases hs with
  | stop hp => simp
  | goOn hp => simp [ReadFails]
  | acceptError hp errno => simp [ReadFails]
  | accept hp he fd => simp [ReadFails]
  | drop hp he fd => simp [ReadFails]
  | create hp ssl => simp [ReadFails]
  | handshake hp ret => simp [ReadFails]
  | readAgain hp numbytes bytes => simp [ReadFails, hp]
  | readError hp numbytes bytes err he hn => simp [ReadFails, he, hn]
  | handOver hp numbytes bytes err he hn hb => simp [ReadFails, hn]

theorem returns_on_stop_iff (errno : Errno)
    (hr : run acceptIncoming { errno := errno } events = some server) :
    (server.pc = .returned → ∃ before event, events = before ++ [event] ∧
      event = .stop_requested true) ↔ ∀ event ∈ events, ¬ ReadFails event := by
  refine exit_iff no_step_after_return
    (fun _ _ _ hs => returned_iff_of_step (step_of_acceptIncoming hs)) ?_ Pc.noConfusion hr
  rintro _ rfl ⟨numbytes, bytes, err, -, -, he⟩
  cases he

end TlsServer

/-- **Which runs of the accept loops end on `stop_requested` only.** A loop that has returned
    did so on a requested stop exactly when no client's read failed: no `recv` with an error
    other than `EAGAIN`, no last `wolfSSL_read` with a negative count. -/
theorem accept_loops_return_on_stop_iff (errno : Errno) :
    (∀ events server, run TcpServer.acceptIncoming { errno := errno } events = some server →
      ((server.pc = .returned → ∃ before event, events = before ++ [event] ∧
          event = .stop_requested true) ↔ ∀ event ∈ events, ¬ TcpServer.ReadFails event)) ∧
    ∀ events server, run TlsServer.acceptIncoming { errno := errno } events = some server →
      ((server.pc = .returned → ∃ before event, events = before ++ [event] ∧
          event = .stop_requested true) ↔ ∀ event ∈ events, ¬ TlsServer.ReadFails event) :=
  ⟨fun _ _ hr => TcpServer.returns_on_stop_iff errno hr,
    fun _ _ hr => TlsServer.returns_on_stop_iff errno hr⟩

/-- A connection is read and handed over, and then the loop is stopped. -/
def tcpStopped : List TcpServer.Event :=
  [.stop_requested false, .accept4 (.ok 5), .recv (.ok (lit "GET")), .stop_requested true]

def tlsStopped : List TlsServer.Event :=
  [.stop_requested false, .accept4 (.ok 5), .wolfSSL_new (some 1), .wolfSSL_accept 1,
    .wolfSSL_read 3 (lit "GET") (.other 0), .stop_requested true]

theorem accept_loops_return_on_stop_iff_stopped :
    (∃ server, run TcpServer.acceptIncoming { errno := .other 0 } tcpStopped = some server ∧
      server.log = [.accept4 5, .addTask ⟨5, lit "GET"⟩] ∧ server.pc = .returned ∧
      ∃ before event, tcpStopped = before ++ [event] ∧ event = .stop_requested true) ∧
    ∃ server, run TlsServer.acceptIncoming { errno := .other 0 } tlsStopped = some server ∧
      server.log = [.accept4 5, .addTask ⟨5, some 1, lit "GET"⟩] ∧ server.pc = .returned ∧
      ∃ before event, tlsStopped = before ++ [event] ∧ event = .stop_requested true := by
  constructor
  · have hr : run TcpServer.acceptIncoming { errno := .other 0 } tcpStopped =
        some ⟨⟨.other 0, 5, [.accept4 5, .addTask ⟨5, lit "GET"⟩]⟩, .returned⟩ := by decide
    refine ⟨_, hr, rfl, rfl, ((accept_loops_return_on_stop_iff (.other 0)).1 _ _ hr).mpr ?_ rfl⟩
    simp [tcpStopped, TcpServer.ReadFails]
  · have hr : run TlsServer.acceptIncoming { errno := .other 0 } tlsStopped =
        some ⟨⟨.other 0, 5, [.accept4 5, .addTask ⟨5, some 1, lit "GET"⟩]⟩, some 1, 1,
          readInto zeroBuf (lit "GET"), .returned⟩ := rfl
    refine ⟨_, hr, rfl, rfl, ((accept_loops_return_on_stop_iff (.other 0)).2 _ _ hr).mpr ?_ rfl⟩
    rintro event hm ⟨numbytes, bytes, err, hn, -, rfl⟩
    have he : numbytes = 3 ∧ bytes = lit "GET" ∧ err = .other 0 := by simpa [tlsStopped] using hm
    omega

/-- A client that resets its connection before it is read (`ECONNRESET` is 104) ends the loop
    of either server. -/
theorem accept_loops_return_on_reset :
    run TcpServer.acceptIncoming { errno := .other 0 } [.stop_requested false, .accept4 (.ok 5),
        .recv (.error (.other 104))] =
      some ⟨⟨.other 104, 5, [.accept4 5]⟩, .returned⟩ ∧
    run TlsServer.acceptIncoming { errno := .other 0 } [.stop_requested false, .accept4 (.ok 5),
        .wolfSSL_new (some 1), .wolfSSL_accept (-1), .wolfSSL_read (-1) [] (.other (-308))] =
      some ⟨⟨.other 0, 5, [.accept4 5]⟩, some 1, -1, zeroBuf, .returned⟩ :=
  ⟨rfl, rfl⟩

end SimpleServ.Server
