import Mathlib.Data.List.Basic
import Mathlib.Data.Nat.Find
import SimpleServ.RequestProcessing.Threadpool
import SimpleServ.Server.TlsServer

/-
  `TLSSender` and `TLSCloser` (tls_connection.hpp), on non-blocking sockets.

  How a WOLFSSL object answers calls of `wolfSSL_write` is fixed beforehand, call by call. It
  writes all that is offered, or nothing: partial writes are not switched on. `SendMsg` offers
  as many bytes as the length of the response is as an `int`, and calls again while the answer is
  WANT_WRITE, which the object does not give for ever. The closer closes the descriptor first,
  and shuts the session down over it afterwards.

  A record goes to the connection that the descriptor belongs to when it is written (`peer`),
  and to nobody when the descriptor is closed.

  `tls_closed_when_sent_iff`: when `handle_connection` closes the descriptor, a response of less
  than 2^31 bytes has been written or the session has failed, exactly when the first answer
  other than WANT_WRITE is not WANT_READ, or the response is empty.
-/

namespace SimpleServ.RequestProcessing

open SimpleServ.Cxx SimpleServ.Server Outcome

/-- An answer to `wolfSSL_write`, and what `wolfSSL_get_error` says of it. -/
inductive WriteResult where
  | written
  | WANT_WRITE
  | WANT_READ
  | fails
  deriving DecidableEq, Repr

inductive SslEvent where
  | wrote (bytes : Bytes)
  | blocked
  | failed
  | closed
  | shutdown
  | freed
  deriving DecidableEq, Repr

/-- What an answer makes of a call that offers `bytes`. -/
def WriteResult.event (bytes : Bytes) : WriteResult → SslEvent
  | .written => .wrote bytes
  | .WANT_WRITE | .WANT_READ => .blocked
  | .fails => .failed

/-- A WOLFSSL object; `notifies` says whether its shutdown sends an alert. -/
structure TlsSession where
  answers : Nat → WriteResult
  passes : ∀ n, ∃ m, n ≤ m ∧ answers m ≠ .WANT_WRITE
  notifies : Bool := true
  calls : Nat := 0
  log : List SslEvent := []

namespace TlsSession

variable {session : TlsSession} {bytes : Bytes}

/-- The first answer from now on that is not WANT_WRITE. -/
def firstAnswer (session : TlsSession) : Nat := Nat.find (session.passes session.calls)

theorem firstAnswer_spec (session : TlsSession) : session.calls ≤ session.firstAnswer ∧
    session.answers session.firstAnswer ≠ .WANT_WRITE :=
  Nat.find_spec (session.passes session.calls)

theorem wantWrite_before {m : Nat} (hm : session.calls ≤ m) (hlt : m < session.firstAnswer) :
    session.answers m = .WANT_WRITE := by
  by_contra hne
  exact Nat.find_min (session.passes session.calls) hlt ⟨hm, hne⟩

/-- `wolfSSL_write (ssl, bytes, length)` -/
def write (session : TlsSession) (bytes : Bytes) : TlsSession :=
  { session with
    calls := session.calls + 1
    log := session.log ++ [(session.answers session.calls).event bytes] }

def note (session : TlsSession) (event : SslEvent) : TlsSession :=
  { session with log := session.log ++ [event] }

theorem firstAnswer_write (h : session.answers session.calls = .WANT_WRITE) :
    (session.write bytes).firstAnswer = session.firstAnswer := by
  obtain ⟨hle, hne⟩ := session.firstAnswer_spec
  have hlt : session.calls ≠ session.firstAnswer := by
    intro he
    rw [← he] at hne
    exact hne h
  refine (Nat.find_eq_iff _).mpr ⟨⟨?_, hne⟩, fun m hm hc => ?_⟩
  · show session.calls + 1 ≤ session.firstAnswer
    omega
  · have hle' : session.calls + 1 ≤ m := hc.1
    have hw : session.answers m = .WANT_WRITE := wantWrite_before (by omega) hm
    exact hc.2 hw

/-- The loop of `SendMsg`. -/
def writeLoop (session : TlsSession) (response : Bytes) : TlsSession :=
  if _h : session.answers session.calls = .WANT_WRITE then
    (session.write response).writeLoop response
  else session.write response
termination_by session.firstAnswer - session.calls
decreasing_by
  obtain ⟨hle, hne⟩ := session.firstAnswer_spec
  rw [firstAnswer_write _h]
  show session.firstAnswer - (session.calls + 1) < _
  have hlt : session.calls ≠ session.firstAnswer := by
    intro he
    rw [← he] at hne
    exact hne _h
  omega

/-- Every call offers the whole response; the last one has the first answer that is not
    WANT_WRITE. -/
theorem writeLoop_eq (session : TlsSession) (response : Bytes) : session.writeLoop response =
    { session with
      calls := session.firstAnswer + 1
      log := session.log ++ List.replicate (session.firstAnswer - session.calls) .blocked ++
        [(session.answers session.firstAnswer).event response] } := by
  induction session using writeLoop.induct response with
  | case1 session h ih =>
    obtain ⟨hle, hne⟩ := session.firstAnswer_spec
    have hlt : session.calls ≠ session.firstAnswer := by
      intro he
      rw [← he] at hne
      exact hne h
    have hn : session.firstAnswer - session.calls =
        session.firstAnswer - (session.calls + 1) + 1 := by omega
    rw [writeLoop, dif_pos h, ih, firstAnswer_write h, hn, List.replicate_succ]
    simp [write, h, WriteResult.event]
  | case2 session h =>
    have hfirst : session.firstAnswer = session.calls :=
      (Nat.find_eq_iff _).mpr ⟨⟨le_rfl, h⟩, fun m hm hc => absurd hc.1 (Nat.not_le.mpr hm)⟩
    rw [writeLoop, dif_neg h, hfirst, Nat.sub_self]
    simp [write]

end TlsSession

/-! ## The process -/

/-- What is written on a descriptor, with the WOLFSSL object that wrote it. -/
inductive Record where
  | data (ssl : Nat) (response : Bytes)
  | closeNotify (ssl : Nat)
  deriving DecidableEq, Repr

/-- `peer` gives the connection that a descriptor belongs to, `received` what has come at each
    connection. -/
structure TlsNetwork where
  sessions : Nat → TlsSession
  peer : Int → Option Nat := fun _ => none
  received : List (Nat × Record) := []

namespace TlsNetwork

def update (network : TlsNetwork) (ssl : Nat) (session : TlsSession) : TlsNetwork :=
  { network with sessions := Function.update network.sessions ssl session }

def deliver (network : TlsNetwork) (fd : Int) (record : Record) : TlsNetwork :=
  match network.peer fd with
  | some k => { network with received := network.received ++ [(k, record)] }
  | none => network

/-- `accept4` has given the descriptor to the connection `k`. -/
def connect (k : Nat) (conn_obj : HTTPSConnectionObject) (network : TlsNetwork) : TlsNetwork :=
  { network with peer := Function.update network.peer conn_obj.client_fd (some k) }

end TlsNetwork

/-- `static_cast<int>(bytes.length())` -/
def intLength (bytes : Bytes) : Int := (BitVec.ofNat 32 bytes.length).toInt

/-- The calls on a null pointer do nothing; a negative length is BAD_FUNC_ARG. -/
def TLSSender.sendMsg (conn_obj : HTTPSConnectionObject) (response : Bytes)
    (network : TlsNetwork) : TlsNetwork :=
  match conn_obj.ssl with
  | none => network
  | some ssl =>
    let session := network.sessions ssl
    if intLength response < 0 then network.update ssl (session.note .failed)
    else
      let bytes := response.take (intLength response).toNat
      let network := network.update ssl (session.writeLoop bytes)
      if session.answers session.firstAnswer = .written then
        network.deliver conn_obj.client_fd (.data ssl bytes)
      else network

/-- The calls of `CloseConnection`. -/
inductive TlsCall where
  | close
  | wolfSSL_shutdown
  | wolfSSL_free
  deriving DecidableEq, Repr

def TLSCloser.call (call : TlsCall) (conn_obj : HTTPSConnectionObject) (network : TlsNetwork) :
    TlsNetwork :=
  match call, conn_obj.ssl with
  | .close, none =>
    { network with peer := Function.update network.peer conn_obj.client_fd none }
  | .close, some ssl =>
    let network := network.update ssl ((network.sessions ssl).note .closed)
    { network with peer := Function.update network.peer conn_obj.client_fd none }
  | .wolfSSL_shutdown, some ssl =>
    let session := network.sessions ssl
    let network := network.update ssl (session.note .shutdown)
    if session.notifies then network.deliver conn_obj.client_fd (.closeNotify ssl) else network
  | .wolfSSL_free, some ssl => network.update ssl ((network.sessions ssl).note .freed)
  | .wolfSSL_shutdown, none | .wolfSSL_free, none => network

def TLSCloser.closeConnection (conn_obj : HTTPSConnectionObject) (network : TlsNetwork) :
    TlsNetwork :=
  let network := TLSCloser.call .close conn_obj network
  let network := TLSCloser.call .wolfSSL_shutdown conn_obj network
  TLSCloser.call .wolfSSL_free conn_obj network

/-- The worker's template parameters in `TLSServer`, with any handler on a world `H`. -/
def tlsCallPolicies {H : Type} (handle overlapped : Bytes → H → Outcome (Option Bytes) × H) :
    CallPolicies HTTPSConnectionObject (H × TlsNetwork) TlsCall where
  request := HTTPSConnectionObject.request
  handle str world :=
    let (outcome, h) := handle str world.1
    (outcome, h, world.2)
  overlapped str world :=
    let (outcome, h) := overlapped str world.1
    (outcome, h, world.2)
  sendMsg conn_obj response world := (ret (), world.1, TLSSender.sendMsg conn_obj response world.2)
  closeConnection conn_obj world := (world.1, TLSCloser.closeConnection conn_obj world.2)
  firstCall := .close
  laterCalls := [.wolfSSL_shutdown, .wolfSSL_free]
  call k conn_obj world := (world.1, TLSCloser.call k conn_obj world.2)
  closeConnection_eq := fun _ _ => rfl

/-! ## One connection -/

/-- All bytes that a session has written. -/
def written (log : List SslEvent) : Bytes :=
  log.flatMap fun event => match event with
    | .wrote bytes => bytes
    | _ => []

/-- When the descriptor is closed, the response has been written, or the session has failed. -/
def TlsClosedWhenSent (response : Bytes) (log : List SslEvent) : Prop :=
  ∀ before after, log = before ++ .closed :: after →
    written before = response ∨ .failed ∈ before

section Connection

variable {H : Type} {handle overlapped : Bytes → H → Outcome (Option Bytes) × H}
  {conn_obj : HTTPSConnectionObject} {h h' : H} {network : TlsNetwork} {response : Bytes}
  {ssl : Nat}

/-- The whole of a response that is not too long is offered. -/
theorem offered_eq (h : response.length < 2 ^ 31) :
    ¬ intLength response < 0 ∧ response.take (intLength response).toNat = response := by
  have hnat : (BitVec.ofNat 32 response.length).toNat = response.length := by
    rw [BitVec.toNat_ofNat]
    omega
  have hlength : intLength response = response.length := by
    rw [intLength, BitVec.toInt_eq_toNat_of_lt (by omega), hnat]
  rw [hlength, Int.toNat_natCast]
  exact ⟨by omega, List.take_length⟩

@[simp] theorem deliver_sessions (network : TlsNetwork) (fd : Int) (record : Record) :
    (network.deliver fd record).sessions = network.sessions := by
  unfold TlsNetwork.deliver
  split <;> rfl

theorem sendMsg_sessions (hs : conn_obj.ssl = some ssl) (hshort : response.length < 2 ^ 31) :
    (TLSSender.sendMsg conn_obj response network).sessions =
      Function.update network.sessions ssl ((network.sessions ssl).writeLoop response) := by
  obtain ⟨hpos, hall⟩ := offered_eq hshort
  unfold TLSSender.sendMsg
  rw [hs]
  dsimp only
  rw [if_neg hpos, hall]
  split
  · rw [deliver_sessions]
    rfl
  · rfl

/-- What the closer leaves in the log of the session. -/
theorem closeConnection_log (hs : conn_obj.ssl = some ssl) :
    ((TLSCloser.closeConnection conn_obj network).sessions ssl).log =
      (network.sessions ssl).log ++ [.closed, .shutdown, .freed] := by
  unfold TLSCloser.closeConnection TLSCloser.call
  rw [hs]
  dsimp only
  split
  · simp [TlsNetwork.update, TlsSession.note]
  · simp [TlsNetwork.update, TlsSession.note]

/-- What `handle_connection` does with the session of a connection with a response. -/
theorem handleConnection_tls_log (hs : conn_obj.ssl = some ssl)
    (hshort : response.length < 2 ^ 31)
    (hh : handle conn_obj.request h = (ret (some response), h')) :
    ((handleConnection (tlsCallPolicies handle overlapped).toPolicies conn_obj
      (h, network)).2.2.sessions ssl).log =
      ((network.sessions ssl).writeLoop response).log ++ [.closed, .shutdown, .freed] := by
  have hp : (tlsCallPolicies handle overlapped).handle
      ((tlsCallPolicies handle overlapped).request conn_obj) (h, network) =
      (ret (some response), h', network) := by
    show (let (outcome, h) := handle conn_obj.request h; (outcome, h, network)) = _
    rw [hh]
  rw [handleConnection_some hp]
  show ((TLSCloser.closeConnection conn_obj (TLSSender.sendMsg conn_obj response
    network)).sessions ssl).log = _
  rw [closeConnection_log hs, sendMsg_sessions hs hshort, Function.update_self]

/-- A log with one closing asks for what stands before it. -/
theorem tlsClosedWhenSent_iff {before after : List SslEvent} (hb : .closed ∉ before)
    (ha : .closed ∉ after) : TlsClosedWhenSent response (before ++ .closed :: after) ↔
      written before = response ∨ .failed ∈ before := by
  constructor
  · exact fun hs => hs before after rfl
  · intro hs before' after' he
    obtain ⟨rfl, -, -⟩ := (List.append_cons_inj_of_notMem hb ha).mp he
    exact hs

theorem written_blocked (n : Nat) (event : SslEvent) :
    written (List.replicate n .blocked ++ [event]) = written [event] := by
  induction n with
  | zero => rfl
  | succ n ih =>
    rw [List.replicate_succ, List.cons_append]
    exact ih

/-- **A TLS connection is closed on a written response unless WANT_READ comes in between**, where
    the response is shorter than 2^31 bytes. -/
theorem tls_closed_when_sent_iff (handle overlapped : Bytes → H → Outcome (Option Bytes) × H)
    (conn_obj : HTTPSConnectionObject) (ssl : Nat) (h h' : H) (network : TlsNetwork)
    (response : Bytes) (hshort : response.length < 2 ^ 31) (hs : conn_obj.ssl = some ssl)
    (hcalls : (network.sessions ssl).calls = 0) (hlog : (network.sessions ssl).log = [])
    (hh : handle conn_obj.request h = (ret (some response), h')) :
    TlsClosedWhenSent response ((handleConnection
        (tlsCallPolicies handle overlapped).toPolicies conn_obj (h, network)).2.2.sessions
          ssl).log ↔
      response = [] ∨ ∃ n, (∀ m < n, (network.sessions ssl).answers m = .WANT_WRITE) ∧
        ((network.sessions ssl).answers n = .written ∨
          (network.sessions ssl).answers n = .fails) := by
  rw [handleConnection_tls_log hs hshort hh]
  generalize network.sessions ssl = session at hcalls hlog ⊢
  have hspec := session.firstAnswer_spec
  have hbefore : ∀ m < session.firstAnswer, session.answers m = .WANT_WRITE :=
    fun m hm => TlsSession.wantWrite_before (by omega) hm
  -- only the first answer that is not WANT_WRITE counts
  have hfirst : (∃ n, (∀ m < n, session.answers m = .WANT_WRITE) ∧
      (session.answers n = .written ∨ session.answers n = .fails)) ↔
      session.answers session.firstAnswer = .written ∨
        session.answers session.firstAnswer = .fails := by
    constructor
    · rintro ⟨n, hn, ha⟩
      rcases Nat.lt_trichotomy n session.firstAnswer with hlt | rfl | hgt
      · rw [hbefore n hlt] at ha
        simp at ha
      · exact ha
      · exact absurd (hn _ hgt) hspec.2
    · exact fun ha => ⟨_, hbefore, ha⟩
  have hl : (session.writeLoop response).log ++ [.closed, .shutdown, .freed] =
      (List.replicate session.firstAnswer .blocked ++
        [(session.answers session.firstAnswer).event response]) ++
          .closed :: [.shutdown, .freed] := by
    rw [TlsSession.writeLoop_eq]
    simp [hcalls, hlog]
  have hclosed : SslEvent.closed ∉ List.replicate session.firstAnswer SslEvent.blocked ++
      [(session.answers session.firstAnswer).event response] := by
    cases session.answers session.firstAnswer <;> simp [WriteResult.event]
  rw [hl, tlsClosedWhenSent_iff hclosed (by decide), written_blocked, hfirst]
  cases ha : session.answers session.firstAnswer with
  | written => simp [WriteResult.event, written]
  | WANT_WRITE => exact absurd ha hspec.2
  | WANT_READ => simp [WriteResult.event, written, eq_comm]
  | fails => simp [WriteResult.event]

end Connection

/-- An object that blocks once and then writes. -/
def blocksOnce : TlsSession where
  answers := fun n => if n = 0 then .WANT_WRITE else .written
  passes := fun n => ⟨n + 1, Nat.le_succ n, by simp⟩

theorem tls_closed_when_sent_iff_blocksOnce :
    TlsClosedWhenSent (lit "hello") ((handleConnection
      (tlsCallPolicies helloHandler helloHandler).toPolicies ⟨5, some 7, []⟩
        ((), { sessions := fun _ => blocksOnce })).2.2.sessions 7).log :=
  (tls_closed_when_sent_iff helloHandler helloHandler ⟨5, some 7, []⟩ 7 () ()
    { sessions := fun _ => blocksOnce } (lit "hello") (by decide) rfl rfl rfl rfl).mpr
    (.inr ⟨1, by simp [blocksOnce], .inl rfl⟩)

end SimpleServ.RequestProcessing
