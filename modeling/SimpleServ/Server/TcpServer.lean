import SimpleServ.Server.Socket

/-
  `TCPServer::AcceptIncoming` (tcp_server.hpp) as a machine.

  An event is what `stop_requested`, `accept4` or `recv` answers; the state says which of them
  the loop waits for. `errno` lives on from call to call, and the loop reads it also after a
  call that succeeded. Output and the log line of a failed `recv` are left out.

  `noConnectionDropped_of_run`: no connection is dropped in a run in which `accept4` never
  succeeds while `errno` is `EAGAIN` from an earlier call.
-/

namespace SimpleServ.Server

open SimpleServ.Cxx SimpleServ.Lib

structure HTTPConnectionObject where
  client_fd : Int := -1
  request : Bytes
  deriving DecidableEq, Repr

namespace TcpServer

/-- Where the loop is: before `stop_requested`, `accept4` or `recv`, or after its `return`. -/
inductive Pc where
  | loop | accepting | receiving | returned
  deriving DecidableEq, Repr

inductive Event where
  | stop_requested (requested : Bool)
  | accept4 (result : CallResult Nat)
  | recv (result : CallResult Bytes)
  deriving DecidableEq, Repr

end TcpServer

open TcpServer

structure TcpServer extends Loop HTTPConnectionObject where
  pc : Pc := .loop
  deriving DecidableEq, Repr

namespace TcpServer

def acceptIncoming (server : TcpServer) (event : Event) : Option TcpServer :=
  match server.pc, event with
  | .loop, .stop_requested requested =>
    some { server with pc := if requested then .returned else .accepting }
  | .accepting, .accept4 result =>
    let loop := server.accept4 result
    if loop.client_fd ≠ -1 ∧ loop.errno ≠ .EAGAIN then some ⟨loop, .receiving⟩
    else some ⟨loop, .loop⟩
  | .receiving, .recv (.error errno) =>
    some { server with errno := errno, pc := if errno = .EAGAIN then .receiving else .returned }
  | .receiving, .recv (.ok bytes) =>
    if bytes.length ≤ MAXBUFLEN - 1 then
      let request_str := requestStr (readInto zeroBuf bytes) bytes.length
      some ⟨server.addTask ⟨server.client_fd, request_str⟩, .loop⟩
    else none
  | _, _ => none

/-- The kinds of steps of the loop. -/
inductive Step (server : TcpServer) : Event → TcpServer → Prop where
  | stop (hp : server.pc = .loop) :
    Step server (.stop_requested true) { server with pc := .returned }
  | goOn (hp : server.pc = .loop) :
    Step server (.stop_requested false) { server with pc := .accepting }
  | acceptError (hp : server.pc = .accepting) (errno : Errno) :
    Step server (.accept4 (.error errno)) ⟨server.accept4 (.error errno), .loop⟩
  | accept (hp : server.pc = .accepting) (he : server.errno ≠ .EAGAIN) (fd : Nat) :
    Step server (.accept4 (.ok fd)) ⟨server.accept4 (.ok fd), .receiving⟩
  | drop (hp : server.pc = .accepting) (he : server.errno = .EAGAIN) (fd : Nat) :
    Step server (.accept4 (.ok fd)) ⟨server.accept4 (.ok fd), .loop⟩
  | wouldBlock (hp : server.pc = .receiving) :
    Step server (.recv (.error .EAGAIN)) { server with errno := .EAGAIN }
  | recvError (hp : server.pc = .receiving) (errno : Errno) (he : errno ≠ .EAGAIN) :
    Step server (.recv (.error errno)) { server with errno := errno, pc := .returned }
  | handOver (hp : server.pc = .receiving) (bytes : Bytes) (hb : bytes.length ≤ MAXBUFLEN - 1) :
    Step server (.recv (.ok bytes)) ⟨server.addTask
      ⟨server.client_fd, requestStr (readInto zeroBuf bytes) bytes.length⟩, .loop⟩

variable {server server' : TcpServer} {event : Event} {events : List Event}

theorem step_of_acceptIncoming (h : acceptIncoming server event = some server') :
    Step server event server' := by
  unfold acceptIncoming at h
  split at h
  · next requested hp =>
    cases h
    cases requested with
    | true => exact .stop hp
    | false => exact .goOn hp
  · next result hp =>
    cases result with
    | error errno =>
      rw [if_neg (server.accept4_error_not_taken errno)] at h
      cases h
      exact .acceptError hp errno
    | ok fd =>
      by_cases he : server.errno = .EAGAIN
      · rw [if_neg (mt (server.accept4_ok_taken_iff fd).mp (not_not.mpr he))] at h
        cases h
        exact .drop hp he fd
      · rw [if_pos ((server.accept4_ok_taken_iff fd).mpr he)] at h
        cases h
        exact .accept hp he fd
  · next errno hp =>
    cases h
    by_cases he : errno = .EAGAIN
    · subst he
      rw [if_pos rfl]
      exact hp ▸ .wouldBlock hp
    · rw [if_neg he]
      exact .recvError hp errno he
  · next bytes hp =>
    split at h
    · next hb =>
      cases h
      exact .handOver hp bytes hb
    · cases h
  · cases h

/-! ## Dropped connections -/

/-- `accept4` does not succeed while `errno` is `EAGAIN`. -/
def AcceptsClean (server : TcpServer) (event : Event) : Prop :=
  ∀ fd, event = .accept4 (.ok fd) → server.errno ≠ .EAGAIN

/-- No connection has been dropped; the descriptor at hand is settled, or about to be read. -/
structure KeepsConnections (server : TcpServer) : Prop where
  kept : NoConnectionDropped HTTPConnectionObject.client_fd server.log
  settled : server.pc = .loop ∨ server.pc = .accepting →
    Settled HTTPConnectionObject.client_fd server.log
  pending : server.pc = .receiving → ∃ before, server.log = before ++ [.accept4 server.client_fd]

theorem keepsConnections_fresh (errno : Errno) : KeepsConnections { errno := errno } :=
  ⟨noConnectionDropped_nil, fun _ => settled_nil, nofun⟩

theorem KeepsConnections.step (hk : KeepsConnections server) (hc : AcceptsClean server event)
    (hs : Step server event server') : KeepsConnections server' := by
  obtain ⟨hn, hse, hp⟩ := hk
  cases hs with
  | stop hpc => exact ⟨hn, by simp, by simp⟩
  | goOn hpc => exact ⟨hn, fun _ => hse (.inl hpc), by simp⟩
  | acceptError hpc errno =>
    exact ⟨hn.concat fun _ _ => hse (.inr hpc), fun _ => settled_accept_error _, by simp⟩
  | accept hpc he fd =>
    exact ⟨hn.concat fun _ _ => hse (.inr hpc), by simp, fun _ => ⟨server.log, rfl⟩⟩
  | drop hpc he fd => exact absurd he (hc fd rfl)
  | wouldBlock hpc => exact ⟨hn, by simp [hpc], fun _ => hp hpc⟩
  | recvError hpc errno he => exact ⟨hn, by simp, by simp⟩
  | handOver hpc bytes hb =>
    obtain ⟨before, hl⟩ := hp hpc
    refine ⟨hn.concat nofun, fun _ => ?_, by simp⟩
    dsimp only [Loop.addTask]
    rw [hl]
    exact settled_addTask before ⟨server.client_fd, _⟩

/-- **No connection is dropped** in any state of a run whose steps are all clean. -/
theorem noConnectionDropped_of_run (errno : Errno)
    (hc : StepsMeet AcceptsClean acceptIncoming { errno := errno } events)
    (hr : run acceptIncoming { errno := errno } events = some server) :
    NoConnectionDropped HTTPConnectionObject.client_fd server.log :=
  (run_invariant (fun _ _ _ hk hc hs => KeepsConnections.step hk hc (step_of_acceptIncoming hs))
    (keepsConnections_fresh errno) hc hr).kept

/-- One connection is accepted, read and handed over; the next call would block. -/
def oneConnection : List Event :=
  [.stop_requested false, .accept4 (.ok 5), .recv (.ok (lit "GET")), .stop_requested false,
    .accept4 (.error .EAGAIN)]

theorem noConnectionDropped_oneConnection : ∃ server,
    run acceptIncoming { errno := .other 0 } oneConnection = some server ∧
      server.log = [.accept4 5, .addTask ⟨5, lit "GET"⟩, .accept4 (-1)] ∧
      NoConnectionDropped HTTPConnectionObject.client_fd server.log := by
  have hr : run acceptIncoming { errno := .other 0 } oneConnection =
      some ⟨⟨.EAGAIN, -1, [.accept4 5, .addTask ⟨5, lit "GET"⟩, .accept4 (-1)]⟩, .loop⟩ := by
    decide
  refine ⟨_, hr, rfl, noConnectionDropped_of_run (.other 0) ?_ hr⟩
  refine ⟨nofun, ?_⟩
  rintro _ ⟨⟩
  refine ⟨fun _ _ => nofun, ?_⟩
  rintro _ ⟨⟩
  refine ⟨nofun, ?_⟩
  rintro _ ⟨⟩
  refine ⟨nofun, ?_⟩
  rintro _ ⟨⟩
  exact ⟨nofun, fun _ _ => trivial⟩

/-- After a call that would block, a connection is accepted and forgotten. -/
theorem dropped_after_wouldBlock :
    run acceptIncoming { errno := .other 0 } [.stop_requested false, .accept4 (.error .EAGAIN),
        .stop_requested false, .accept4 (.ok 5), .stop_requested false,
        .accept4 (.error .EAGAIN)] =
      some ⟨⟨.EAGAIN, -1, [.accept4 (-1), .accept4 5, .accept4 (-1)]⟩, .loop⟩ ∧
      ¬ NoConnectionDropped HTTPConnectionObject.client_fd
        [.accept4 (-1), .accept4 5, .accept4 (-1)] := by
  refine ⟨by decide, fun h => ?_⟩
  rcases h [.accept4 (-1), .accept4 5] (-1) [] rfl 5 [] rfl (by decide) with hc | hc
  · cases hc
  · cases hc

/-! ## How the loop ends -/

/-- A `recv` that fails for another reason than that it would block. -/
def ReadFails (event : Event) : Prop := ∃ errno, errno ≠ .EAGAIN ∧ event = .recv (.error errno)

theorem no_step_after_return (server : TcpServer) (event : Event) (h : server.pc = .returned) :
    acceptIncoming server event = none := by
  unfold acceptIncoming
  rw [h]

theorem returned_iff_of_step (hs : Step server event server') :
    server'.pc = .returned ↔ event = .stop_requested true ∨ ReadFails event := by
  cases hs with
  | stop hp => simp
  | goOn hp => simp [ReadFails]
  | acceptError hp errno => simp [ReadFails]
  | accept hp he fd => simp [ReadFails]
  | drop hp he fd => simp [ReadFails]
  | wouldBlock hp => simp [ReadFails, hp]
  | recvError hp errno he => simp [ReadFails, he]
  | handOver hp bytes hb => simp [ReadFails]

theorem returns_on_stop_iff (errno : Errno)
    (hr : run acceptIncoming { errno := errno } events = some server) :
    (server.pc = .returned → ∃ before event, events = before ++ [event] ∧
      event = .stop_requested true) ↔ ∀ event ∈ events, ¬ ReadFails event := by
  refine exit_iff no_step_after_return
    (fun _ _ _ hs => returned_iff_of_step (step_of_acceptIncoming hs)) ?_ Pc.noConfusion hr
  rintro _ rfl ⟨errno, -, he⟩
  cases he

end TcpServer

end SimpleServ.Server
