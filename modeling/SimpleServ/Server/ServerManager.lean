import Mathlib.Data.List.Nodup
import SimpleServ.RequestProcessing.ConnectionHandler
import SimpleServ.Server.TlsServer

/-
  `ServerManager` (server_manager.hpp) with its servers: what they acquire and what they
  release, from the constructor to the end of the destructor.

  The manager, the accept loops and the workers take turns in any order. The manager's steps
  are one pass of one of its loops each, or the end of a loop. Its own members are destroyed
  behind the destructor's body, and the first server's destructor stops that server again; the
  threads of its pool are joinable then, and the process ends (`std::terminate`).

  A descriptor is named by the call that gave it: a number that the system gives out again is
  another descriptor. The queue of a pool may give a connection to more than one worker.
  `client_fd` of a `TLSServer` is uninitialised before the first call of `accept4`, and may have
  the number of any descriptor, or of none.

  `releasedOnce_of_run`: nothing is released twice in a run in which no connection is given to
  two workers, no server is stopped while its `client_fd` is uninitialised or a descriptor that
  it has handed to its pool, and no server is destroyed. In every run to the end something is
  released twice, unless there is no server.
-/

namespace SimpleServ.Server

open SimpleServ.Cxx SimpleServ.Lib

inductive ServerType where
  | HTTP | HTTPS
  deriving DecidableEq, Repr

/-- What is acquired, with the index of its server. -/
inductive Resource where
  | listening (server : Nat)
  | accepted (server : Nat) (fd : Int)
  | context (server : Nat)
  deriving DecidableEq, Repr

/-! ## The accept loop of either server -/

/-- The descriptors of the connections that were added to the pool. -/
def handedFds {C : Type} (fdOf : C → Int) (log : List (Action C)) : List Int :=
  log.filterMap fun action => match action with
    | .addTask obj => some (fdOf obj)
    | _ => none

inductive AcceptLoop where
  | tcp (server : TcpServer)
  | tls (server : TlsServer)
  deriving DecidableEq, Repr

namespace AcceptLoop

inductive Event where
  | tcp (event : TcpServer.Event)
  | tls (event : TlsServer.Event)
  deriving DecidableEq, Repr

def acceptIncoming : AcceptLoop → Event → Option AcceptLoop
  | .tcp server, .tcp event => (TcpServer.acceptIncoming server event).map .tcp
  | .tls server, .tls event => (TlsServer.acceptIncoming server event).map .tls
  | _, _ => none

def clientFd : AcceptLoop → Int
  | .tcp server => server.client_fd
  | .tls server => server.client_fd

def handed : AcceptLoop → List Int
  | .tcp server => handedFds HTTPConnectionObject.client_fd server.log
  | .tls server => handedFds HTTPSConnectionObject.client_fd server.log

/-- `client_fd` has a value. -/
def Assigned : AcceptLoop → Prop
  | .tcp _ => True
  | .tls server => sinceAccept server.log ≠ none

instance : DecidablePred Assigned
  | .tcp _ => inferInstanceAs (Decidable True)
  | .tls server => inferInstanceAs (Decidable (sinceAccept server.log ≠ none))

/-- The loop is about to hand its `client_fd` over. -/
def Holding : AcceptLoop → Prop
  | .tcp server => server.pc = .receiving
  | .tls server => server.pc = .creating ∨ server.pc = .handshaking ∨ server.pc = .reading

def Returned : AcceptLoop → Prop
  | .tcp server => server.pc = .returned
  | .tls server => server.pc = .returned

instance : DecidablePred Returned
  | .tcp server => inferInstanceAs (Decidable (server.pc = .returned))
  | .tls server => inferInstanceAs (Decidable (server.pc = .returned))

/-- What `stop_requested` answers in the event, if it is one of that call. -/
def Event.stopRequested : Event → Option Bool
  | .tcp (.stop_requested requested) => some requested
  | .tls (.stop_requested requested) => some requested
  | _ => none

/-- The descriptor that `accept4` gives in the event. -/
def Event.gives : Event → Option Int
  | .tcp (.accept4 (.ok fd)) => some fd
  | .tls (.accept4 (.ok fd)) => some fd
  | _ => none

end AcceptLoop

/-- `pool` lists the descriptors of connections that no worker has closed yet; `uninitialised` is
    the descriptor whose number `client_fd` has before it is assigned. -/
structure ServerUnit where
  server : AcceptLoop
  uninitialised : Option Resource
  opened : Bool := false
  stop_requested : Bool := false
  pool : List Int := []
  deriving DecidableEq, Repr

/-- `configure_server` -/
def configureServer : ServerType → AcceptLoop
  | .HTTP => .tcp { errno := .other 0 }
  | .HTTPS => .tls { errno := .other 0 }

def closeClient (i : Nat) (client_fd : Int) : List Resource :=
  if client_fd = -1 then [] else [.accepted i client_fd]

/-- What `Start` of the server acquires. -/
def startServer (i : Nat) : AcceptLoop → List Resource
  | .tcp _ => [.listening i]
  | .tls _ => [.listening i, .context i]

/-- What `Stop` of the server releases. -/
def stopServer (i : Nat) (unit : ServerUnit) : List Resource :=
  (if unit.server.Assigned then closeClient i unit.server.clientFd
    else unit.uninitialised.toList) ++
  match unit.server with
  | .tcp _ => [.listening i]
  | .tls _ => [.listening i, .context i]

namespace ServerManager

/-- Where the manager is. The number is the place of the iterator. -/
inductive Stage where
  | starting (i : Nat)
  | opening (i : Nat)
  | running
  | requesting (i : Nat)
  | joining (i : Nat)
  | stopping (i : Nat)
  /-- Behind the destructor's body, before the members. -/
  | destroying
  | destroyed
  | terminated
  /-- After `quick_exit`. -/
  | exited
  deriving DecidableEq, Repr

def Stage.Alive (stage : Stage) : Prop :=
  stage ≠ .destroyed ∧ stage ≠ .terminated ∧ stage ≠ .exited

instance (stage : Stage) : Decidable stage.Alive := inferInstanceAs (Decidable (_ ∧ _))

/-- `manager` is the manager's next step, `started` whether `Start` succeeds in it. -/
inductive Event where
  | manager (started : Bool)
  | accept (i : Nat) (event : AcceptLoop.Event)
  | finish (i : Nat) (fd : Int)
  deriving DecidableEq, Repr

end ServerManager

open ServerManager

structure ServerManager where
  servers : List ServerUnit
  stage : Stage := .starting 0
  acquired : List Resource := []
  released : List Resource := []
  deriving DecidableEq, Repr

namespace ServerManager

/-- `uninitialised` is what stands in each server's `client_fd` before it is assigned. -/
def new (configs : List ServerType) (uninitialised : Nat → Option Resource) : ServerManager where
  servers := configs.mapIdx fun i config =>
    { server := configureServer config, uninitialised := uninitialised i }

def setServer (s : ServerManager) (i : Nat) (unit : ServerUnit) : ServerManager :=
  { s with servers := s.servers.set i unit }

/-- The manager's next step. -/
def advance (s : ServerManager) (started : Bool) : Option ServerManager :=
  match s.stage with
  | .starting i =>
    match s.servers[i]? with
    | none => some { s with stage := .opening 0 }
    | some unit =>
      if started then
        some { s with stage := .starting (i + 1), acquired := s.acquired ++ startServer i unit.server }
      else some { s with stage := .exited }
  | .opening i =>
    match s.servers[i]? with
    | none => some { s with stage := .running }
    | some unit => some { s.setServer i { unit with opened := true } with stage := .opening (i + 1) }
  | .running => some { s with stage := .requesting 0 }
  | .requesting i =>
    match s.servers[i]? with
    | none => some { s with stage := .joining 0 }
    | some unit =>
      some { s.setServer i { unit with stop_requested := true } with stage := .requesting (i + 1) }
  | .joining i =>
    match s.servers[i]? with
    | none => some { s with stage := .stopping 0 }
    | some unit => if unit.server.Returned then some { s with stage := .joining (i + 1) } else none
  | .stopping i =>
    match s.servers[i]? with
    | none => some { s with stage := .destroying }
    | some unit =>
      some { s with stage := .stopping (i + 1), released := s.released ++ stopServer i unit }
  | .destroying =>
    match s.servers with
    | [] => some { s with stage := .destroyed }
    | unit :: _ =>
      some { s with stage := .terminated, released := s.released ++ stopServer 0 unit }
  | .destroyed | .terminated | .exited => none

/-- A step of the accept loop of the server `i`. -/
def accept (s : ServerManager) (i : Nat) (event : AcceptLoop.Event) : Option ServerManager :=
  match s.servers[i]? with
  | none => none
  | some unit =>
    if s.stage.Alive ∧ unit.opened = true ∧
        (∀ requested ∈ event.stopRequested, requested = unit.stop_requested) ∧
        ∀ fd ∈ event.gives, .accepted i fd ∉ s.acquired then
      match unit.server.acceptIncoming event with
      | none => none
      | some server =>
        let tasks := server.handed.drop unit.server.handed.length
        some { s.setServer i { unit with server := server, pool := unit.pool ++ tasks } with
          acquired := s.acquired ++ event.gives.toList.map (Resource.accepted i) }
    else none

/-- A worker of the server `i` is done with a connection and closes it. -/
def finish (s : ServerManager) (i : Nat) (fd : Int) : Option ServerManager :=
  match s.servers[i]? with
  | none => none
  | some unit =>
    if s.stage.Alive ∧ fd ∈ unit.server.handed then
      some { s.setServer i { unit with pool := unit.pool.erase fd } with
        released := s.released ++ [.accepted i fd] }
    else none

def step (s : ServerManager) : Event → Option ServerManager
  | .manager started => s.advance started
  | .accept i event => s.accept i event
  | .finish i fd => s.finish i fd

/-- The manager's next step stops no server whose `client_fd` is uninitialised or was handed to
    the pool, and destroys no server. -/
def MayAdvance (s : ServerManager) : Stage → Prop
  | .stopping i => ∀ unit ∈ s.servers[i]?,
    unit.server.Assigned ∧ unit.server.clientFd ∉ unit.server.handed
  | .destroying => s.servers = []
  | _ => True

/-- The manager's step is such a one, and a worker closes a connection that no other one has
    had. -/
def Harmless (s : ServerManager) : Event → Prop
  | .manager _ => s.MayAdvance s.stage
  | .accept _ _ => True
  | .finish i fd => ∀ unit ∈ s.servers[i]?, fd ∈ unit.pool

instance (s : ServerManager) : ∀ stage, Decidable (s.MayAdvance stage)
  | .stopping i => inferInstanceAs (Decidable (∀ unit ∈ s.servers[i]?,
      unit.server.Assigned ∧ unit.server.clientFd ∉ unit.server.handed))
  | .destroying => inferInstanceAs (Decidable (s.servers = []))
  | .starting _ | .opening _ | .running | .requesting _ | .joining _ | .destroyed | .terminated
  | .exited => .isTrue trivial

instance (s : ServerManager) : ∀ event, Decidable (Harmless s event)
  | .manager _ => inferInstanceAs (Decidable (s.MayAdvance s.stage))
  | .accept _ _ => .isTrue trivial
  | .finish i fd => inferInstanceAs (Decidable (∀ unit ∈ s.servers[i]?, fd ∈ unit.pool))

end ServerManager

/-! ## One event of a loop -/

/-- What an event changes of `client_fd` and of what was handed over. -/
inductive AcceptLoop.Change (loop : AcceptLoop) (event : AcceptLoop.Event) (loop' : AcceptLoop) :
    Prop where
  | rest (hg : event.gives = none) (hh : loop'.handed = loop.handed)
    (hc : loop'.clientFd = loop.clientFd) (hold : loop'.Holding → loop.Holding)
  | refuse (hg : event.gives = none) (hh : loop'.handed = loop.handed) (hold : ¬ loop'.Holding)
  | accept (fd : Int) (hg : event.gives = some fd) (hh : loop'.handed = loop.handed)
    (hc : loop'.clientFd = fd)
  | handOver (hg : event.gives = none) (hold : loop.Holding)
    (hh : loop'.handed = loop.handed ++ [loop.clientFd]) (hold' : ¬ loop'.Holding)

namespace AcceptLoop

variable {loop loop' : AcceptLoop} {event : Event}

theorem handedFds_addTask {C : Type} (fdOf : C → Int) (log : List (Action C)) (obj : C) :
    handedFds fdOf (log ++ [.addTask obj]) = handedFds fdOf log ++ [fdOf obj] := by
  simp [handedFds]

theorem handedFds_accept4 {C : Type} (fdOf : C → Int) (log : List (Action C)) (fd : Int) :
    handedFds fdOf (log ++ [.accept4 fd]) = handedFds fdOf log := by
  simp [handedFds]

theorem change_tcp {server server' : TcpServer} {event : TcpServer.Event}
    (hs : TcpServer.Step server event server') : Change (.tcp server) (.tcp event) (.tcp server') := by
  cases hs with
  | stop hp => exact .rest rfl rfl rfl (by simp [Holding])
  | goOn hp => exact .rest rfl rfl rfl (by simp [Holding])
  | acceptError hp errno => exact .refuse rfl (handedFds_accept4 _ _ _) (by simp [Holding])
  | accept hp he fd => exact .accept fd rfl (handedFds_accept4 _ _ _) rfl
  | drop hp he fd => exact .accept fd rfl (handedFds_accept4 _ _ _) rfl
  | wouldBlock hp => exact .rest rfl rfl rfl id
  | recvError hp errno he => exact .rest rfl rfl rfl (by simp [Holding])
  | handOver hp bytes hb =>
    exact .handOver rfl hp (handedFds_addTask _ _ _) (by simp [Holding])

theorem change_tls {server server' : TlsServer} {event : TlsServer.Event}
    (hs : TlsServer.Step server event server') : Change (.tls server) (.tls event) (.tls server') := by
  cases hs with
  | stop hp => exact .rest rfl rfl rfl (by simp [Holding])
  | goOn hp => exact .rest rfl rfl rfl (by simp [Holding])
  | acceptError hp errno => exact .refuse rfl (handedFds_accept4 _ _ _) (by simp [Holding])
  | accept hp he fd => exact .accept fd rfl (handedFds_accept4 _ _ _) rfl
  | drop hp he fd => exact .accept fd rfl (handedFds_accept4 _ _ _) rfl
  | create hp ssl => exact .rest rfl rfl rfl fun _ => .inl hp
  | handshake hp ret => exact .rest rfl rfl rfl fun _ => .inr (.inl hp)
  | readAgain hp numbytes bytes => exact .rest rfl rfl rfl fun _ => .inr (.inr hp)
  | readError hp numbytes bytes err he hn => exact .rest rfl rfl rfl (by simp [Holding])
  | handOver hp numbytes bytes err he hn hb =>
    exact .handOver rfl (.inr (.inr hp)) (handedFds_addTask _ _ _) (by simp [Holding])

theorem change_of_acceptIncoming (h : acceptIncoming loop event = some loop') :
    Change loop event loop' := by
  cases loop with
  | tcp server =>
    cases event with
    | tcp event =>
      obtain ⟨server', hs, rfl⟩ := Option.map_eq_some_iff.mp h
      exact change_tcp (TcpServer.step_of_acceptIncoming hs)
    | tls event => cases h
  | tls server =>
    cases event with
    | tcp event => cases h
    | tls event =>
      obtain ⟨server', hs, rfl⟩ := Option.map_eq_some_iff.mp h
      exact change_tls (TlsServer.step_of_acceptIncoming hs)

theorem not_returned_of_acceptIncoming (h : acceptIncoming loop event = some loop') :
    ¬ loop.Returned := by
  intro hr
  cases loop with
  | tcp server =>
    cases event with
    | tcp event =>
      obtain ⟨server', hs, -⟩ := Option.map_eq_some_iff.mp h
      rw [TcpServer.no_step_after_return server event hr] at hs
      cases hs
    | tls event => cases h
  | tls server =>
    cases event with
    | tcp event => cases h
    | tls event =>
      obtain ⟨server', hs, -⟩ := Option.map_eq_some_iff.mp h
      rw [TlsServer.no_step_after_return server event hr] at hs
      cases hs

end AcceptLoop

namespace ServerManager

variable {s s' : ServerManager} {event : Event} {events : List Event} {configs : List ServerType}
  {started : Bool} {i j : Nat} {unit unit' : ServerUnit} {fd : Int}

/-! ## The manager's steps -/

/-- The kinds of steps of the manager. -/
inductive Advance (s : ServerManager) : ServerManager → Prop where
  | start (i : Nat) (unit : ServerUnit) (hs : s.stage = .starting i) (hi : s.servers[i]? = some unit) :
    Advance s { s with
      stage := .starting (i + 1), acquired := s.acquired ++ startServer i unit.server }
  | fail (i : Nat) (hs : s.stage = .starting i) : Advance s { s with stage := .exited }
  | started (i : Nat) (hs : s.stage = .starting i) : Advance s { s with stage := .opening 0 }
  | open (i : Nat) (unit : ServerUnit) (hs : s.stage = .opening i) (hi : s.servers[i]? = some unit) :
    Advance s { s.setServer i { unit with opened := true } with stage := .opening (i + 1) }
  | opened (i : Nat) (hs : s.stage = .opening i) : Advance s { s with stage := .running }
  | destroy (hs : s.stage = .running) : Advance s { s with stage := .requesting 0 }
  | request (i : Nat) (unit : ServerUnit) (hs : s.stage = .requesting i)
      (hi : s.servers[i]? = some unit) :
    Advance s { s.setServer i { unit with stop_requested := true } with
      stage := .requesting (i + 1) }
  | requested (i : Nat) (hs : s.stage = .requesting i) : Advance s { s with stage := .joining 0 }
  | join (i : Nat) (unit : ServerUnit) (hs : s.stage = .joining i) (hi : s.servers[i]? = some unit)
      (hr : unit.server.Returned) : Advance s { s with stage := .joining (i + 1) }
  | joined (i : Nat) (hs : s.stage = .joining i) (hi : s.servers[i]? = none) :
    Advance s { s with stage := .stopping 0 }
  | stop (i : Nat) (unit : ServerUnit) (hs : s.stage = .stopping i) (hi : s.servers[i]? = some unit) :
    Advance s { s with
      stage := .stopping (i + 1), released := s.released ++ stopServer i unit }
  | stopped (i : Nat) (hs : s.stage = .stopping i) (hi : s.servers[i]? = none) :
    Advance s { s with stage := .destroying }
  | empty (hs : s.stage = .destroying) (he : s.servers = []) :
    Advance s { s with stage := .destroyed }
  | terminate (unit : ServerUnit) (rest : List ServerUnit) (hs : s.stage = .destroying)
      (he : s.servers = unit :: rest) :
    Advance s { s with stage := .terminated, released := s.released ++ stopServer 0 unit }

theorem advance_of_step (h : s.advance started = some s') : Advance s s' := by
  unfold advance at h
  split at h
  · next i hs =>
    split at h
    · cases h
      exact .started i hs
    · next unit hi =>
      split at h
      · cases h
        exact .start i unit hs hi
      · cases h
        exact .fail i hs
  · next i hs =>
    split at h
    · cases h
      exact .opened i hs
    · next unit hi =>
      cases h
      exact .open i unit hs hi
  · next hs =>
    cases h
    exact .destroy hs
  · next i hs =>
    split at h
    · cases h
      exact .requested i hs
    · next unit hi =>
      cases h
      exact .request i unit hs hi
  · next i hs =>
    split at h
    · next hi =>
      cases h
      exact .joined i hs hi
    · next unit hi =>
      split at h
      · next hr =>
        cases h
        exact .join i unit hs hi hr
      · cases h
  · next i hs =>
    split at h
    · next hi =>
      cases h
      exact .stopped i hs hi
    · next unit hi =>
      cases h
      exact .stop i unit hs hi
  · next hs =>
    split at h
    · next he =>
      cases h
      exact .empty hs he
    · next unit rest he =>
      cases h
      exact .terminate unit rest hs he
  · cases h
  · cases h
  · cases h

theorem accept_of_step {event : AcceptLoop.Event} (h : s.accept i event = some s') :
    ∃ unit server, s.servers[i]? = some unit ∧
      (∀ fd ∈ event.gives, .accepted i fd ∉ s.acquired) ∧
      unit.server.acceptIncoming event = some server ∧
      s' = { s.setServer i { unit with
          server := server
          pool := unit.pool ++ server.handed.drop unit.server.handed.length } with
        acquired := s.acquired ++ event.gives.toList.map (Resource.accepted i) } := by
  unfold ServerManager.accept at h
  split at h
  · cases h
  · next unit hi =>
    split at h
    · next hg =>
      split at h
      · cases h
      · next server hloop =>
        cases h
        exact ⟨unit, server, hi, hg.2.2.2, hloop, rfl⟩
    · cases h

theorem finish_of_step (h : s.finish i fd = some s') :
    ∃ unit, s.servers[i]? = some unit ∧ s.stage.Alive ∧
      s' = { s.setServer i { unit with pool := unit.pool.erase fd } with
        released := s.released ++ [.accepted i fd] } := by
  unfold ServerManager.finish at h
  split at h
  · cases h
  · next unit hi =>
    split at h
    · next hg =>
      cases h
      exact ⟨unit, hi, hg.1, rfl⟩
    · cases h

/-- Joined before the manager came to `stage`. -/
def Stage.Joined : Stage → Nat → Prop
  | .joining k, i => i < k
  | .stopping _, _ | .destroying, _ | .destroyed, _ | .terminated, _ => True
  | _, _ => False

/-- Stopped before the manager came to `stage`. -/
def Stage.Stopped : Stage → Nat → Prop
  | .stopping k, i => i < k
  | .destroying, _ | .destroyed, _ | .terminated, _ => True
  | _, _ => False

theorem Stage.Stopped.joined {stage : Stage} (h : stage.Stopped i) : stage.Joined i := by
  cases stage <;> first | exact h | trivial

theorem getElem?_setServer (h : (s.setServer i unit).servers[j]? = some unit') :
    j = i ∧ unit' = unit ∨ j ≠ i ∧ s.servers[j]? = some unit' := by
  rw [setServer, List.getElem?_set] at h
  by_cases hj : i = j
  · rw [if_pos hj] at h
    split at h
    · exact .inl ⟨hj.symm, (Option.some.inj h).symm⟩
    · cases h
  · rw [if_neg hj] at h
    exact .inr ⟨Ne.symm hj, h⟩

/-! ## What is released once -/

/-- The connections of the server `i`: the loop has its `client_fd` to itself until it hands it
    over, and a worker has what the pool gives it. -/
structure Owned (s : ServerManager) (i : Nat) (unit : ServerUnit) : Prop where
  pool_nodup : unit.pool.Nodup
  pool_handed : ∀ fd ∈ unit.pool, fd ∈ unit.server.handed
  handed_acquired : ∀ fd ∈ unit.server.handed, .accepted i fd ∈ s.acquired
  holding : unit.server.Holding →
    .accepted i unit.server.clientFd ∈ s.acquired ∧ unit.server.clientFd ∉ unit.server.handed
  released_pool : ∀ fd, .accepted i fd ∈ s.released → fd ∉ unit.pool
  released_handed : ¬ s.stage.Stopped i → ∀ fd, .accepted i fd ∈ s.released →
    fd ∈ unit.server.handed
  joined : s.stage.Joined i → unit.server.Returned

structure ReleasedOnce (s : ServerManager) : Prop where
  nodup : s.released.Nodup
  stopped : ∀ i, .listening i ∈ s.released ∨ .context i ∈ s.released → s.stage.Stopped i
  owned : ∀ i unit, s.servers[i]? = some unit → Owned s i unit

theorem releasedOnce_new (configs : List ServerType) (uninitialised : Nat → Option Resource) :
    ReleasedOnce (new configs uninitialised) where
  nodup := List.nodup_nil
  stopped := by
    rintro i (h | h) <;> cases h
  owned := by
    intro i unit hi
    obtain ⟨config, -, rfl⟩ : ∃ config, configs[i]? = some config ∧
        { server := configureServer config, uninitialised := uninitialised i } = unit := by
      simpa [new] using hi
    cases config with
    | HTTP => exact ⟨List.nodup_nil, nofun, nofun, nofun, nofun, nofun, nofun⟩
    | HTTPS =>
      refine ⟨List.nodup_nil, nofun, nofun, ?_, nofun, nofun, nofun⟩
      rintro (h | h | h) <;> cases h

/-- Where nothing is handed over and nothing of the server is released. -/
theorem Owned.keep (h : Owned s i unit) (hhanded : unit'.server.handed = unit.server.handed)
    (hpool : unit'.pool = unit.pool) (hacquired : ∀ r ∈ s.acquired, r ∈ s'.acquired)
    (hreleased : ∀ fd, .accepted i fd ∈ s'.released → .accepted i fd ∈ s.released)
    (hstopped : s.stage.Stopped i → s'.stage.Stopped i)
    (hholding : unit'.server.Holding → .accepted i unit'.server.clientFd ∈ s'.acquired ∧
      unit'.server.clientFd ∉ unit'.server.handed)
    (hjoined : s'.stage.Joined i → unit'.server.Returned) : Owned s' i unit' where
  pool_nodup := by
    rw [hpool]
    exact h.pool_nodup
  pool_handed := by
    rw [hpool, hhanded]
    exact h.pool_handed
  handed_acquired := by
    rw [hhanded]
    exact fun fd hm => hacquired _ (h.handed_acquired fd hm)
  holding := hholding
  released_pool := by
    rw [hpool]
    exact fun fd hm => h.released_pool fd (hreleased fd hm)
  released_handed := by
    rw [hhanded]
    exact fun hns fd hm => h.released_handed (mt hstopped hns) fd (hreleased fd hm)
  joined := hjoined

theorem Owned.mono (h : Owned s i unit) (hserver : unit'.server = unit.server)
    (hpool : unit'.pool = unit.pool) (hacquired : ∀ r ∈ s.acquired, r ∈ s'.acquired)
    (hreleased : ∀ fd, .accepted i fd ∈ s'.released → .accepted i fd ∈ s.released)
    (hstopped : s.stage.Stopped i → s'.stage.Stopped i)
    (hjoined : s'.stage.Joined i → unit.server.Returned) : Owned s' i unit' := by
  refine h.keep (by rw [hserver]) hpool hacquired hreleased hstopped ?_ ?_
  · rw [hserver]
    exact fun hh => ⟨hacquired _ (h.holding hh).1, (h.holding hh).2⟩
  · rwa [hserver]

/-- Where the loop hands its `client_fd` over. -/
theorem Owned.handOver (h : Owned s i unit) (hold : unit.server.Holding)
    (hhanded : unit'.server.handed = unit.server.handed ++ [unit.server.clientFd])
    (hpool : unit'.pool = unit.pool ++ [unit.server.clientFd]) (hholding : ¬ unit'.server.Holding)
    (hacquired : ∀ r ∈ s.acquired, r ∈ s'.acquired) (hreleased : s'.released = s.released)
    (hstage : s'.stage = s.stage) (hjoined : ¬ s.stage.Joined i) : Owned s' i unit' where
  pool_nodup := by
    rw [hpool]
    refine List.Nodup.append h.pool_nodup (List.nodup_singleton _) fun fd hm hm' => ?_
    rw [List.mem_singleton.mp hm'] at hm
    exact (h.holding hold).2 (h.pool_handed _ hm)
  pool_handed := by
    rw [hpool, hhanded]
    intro fd hm
    rcases List.mem_append.mp hm with hm | hm
    · exact List.mem_append_left _ (h.pool_handed fd hm)
    · exact List.mem_append_right _ hm
  handed_acquired := by
    rw [hhanded]
    intro fd hm
    rcases List.mem_append.mp hm with hm | hm
    · exact hacquired _ (h.handed_acquired fd hm)
    · rw [List.mem_singleton.mp hm]
      exact hacquired _ (h.holding hold).1
  holding := fun hh => absurd hh hholding
  released_pool := by
    rw [hpool, hreleased]
    intro fd hr hm
    rcases List.mem_append.mp hm with hm | hm
    · exact h.released_pool fd hr hm
    · -- what is released of a server that runs was handed over before
      rw [List.mem_singleton.mp hm] at hr
      exact (h.holding hold).2 (h.released_handed (fun hs => hjoined hs.joined) _ hr)
  released_handed := by
    rw [hhanded, hreleased, hstage]
    exact fun hns fd hr => List.mem_append_left _ (h.released_handed hns fd hr)
  joined := by
    rw [hstage]
    exact fun hs => absurd hs hjoined

/-- A step that releases nothing and changes no loop and no pool. -/
theorem ReleasedOnce.move (h : ReleasedOnce s) (hreleased : s'.released = s.released)
    (hacquired : ∀ r ∈ s.acquired, r ∈ s'.acquired)
    (hstopped : ∀ i, s.stage.Stopped i → s'.stage.Stopped i)
    (hservers : ∀ (i : Nat) (unit' : ServerUnit), s'.servers[i]? = some unit' →
      ∃ unit, s.servers[i]? = some unit ∧ unit'.server = unit.server ∧ unit'.pool = unit.pool)
    (hjoined : ∀ i unit, s.servers[i]? = some unit → s'.stage.Joined i → unit.server.Returned) :
    ReleasedOnce s' where
  nodup := by rw [hreleased]; exact h.nodup
  stopped := by
    rw [hreleased]
    exact fun i hm => hstopped i (h.stopped i hm)
  owned := by
    intro i unit' hi'
    obtain ⟨unit, hi, hserver, hpool⟩ := hservers i unit' hi'
    refine (h.owned i unit hi).mono hserver hpool hacquired ?_ (hstopped i) (hjoined i unit hi)
    intro fd hm
    rwa [hreleased] at hm

/-- A step to another stage, and nothing else. -/
theorem ReleasedOnce.goTo (h : ReleasedOnce s) (stage : Stage)
    (hstopped : ∀ i, s.stage.Stopped i → stage.Stopped i)
    (hjoined : ∀ i unit, s.servers[i]? = some unit → stage.Joined i → unit.server.Returned) :
    ReleasedOnce { s with stage := stage } :=
  h.move rfl (fun _ hr => hr) hstopped (fun _ unit hi => ⟨unit, hi, rfl, rfl⟩) hjoined

theorem mem_closeClient {r : Resource} (h : r ∈ closeClient i fd) : r = .accepted i fd := by
  unfold closeClient at h
  split at h
  · cases h
  · exact List.mem_singleton.mp h

theorem stopServer_assigned (h : unit.server.Assigned) :
    ∃ rest, stopServer i unit = closeClient i unit.server.clientFd ++ rest ∧ rest.Nodup ∧
      ∀ r ∈ rest, r = .listening i ∨ r = .context i := by
  unfold stopServer
  rw [if_pos h]
  cases unit.server with
  | tcp server => exact ⟨_, rfl, by simp, by simp⟩
  | tls server => exact ⟨_, rfl, by simp, by simp⟩

theorem mem_stopServer (ha : unit.server.Assigned) {r : Resource} (h : r ∈ stopServer i unit) :
    r = .accepted i unit.server.clientFd ∨ r = .listening i ∨ r = .context i := by
  obtain ⟨rest, he, -, hrest⟩ := stopServer_assigned (i := i) ha
  rw [he] at h
  exact (List.mem_append.mp h).imp mem_closeClient (hrest r)

theorem accepted_mem_stopServer (ha : unit.server.Assigned)
    (h : .accepted j fd ∈ stopServer i unit) : j = i ∧ fd = unit.server.clientFd := by
  rcases mem_stopServer ha h with he | he | he <;> cases he
  exact ⟨rfl, rfl⟩

theorem socket_mem_stopServer (ha : unit.server.Assigned)
    (h : .listening j ∈ stopServer i unit ∨ .context j ∈ stopServer i unit) : j = i := by
  rcases h with h | h <;> rcases mem_stopServer ha h with he | he | he <;> cases he <;> rfl

theorem nodup_stopServer (i : Nat) (ha : unit.server.Assigned) : (stopServer i unit).Nodup := by
  obtain ⟨rest, he, hn, hrest⟩ := stopServer_assigned (i := i) ha
  have hclient : (closeClient i unit.server.clientFd).Nodup := by
    unfold closeClient
    split
    · exact List.nodup_nil
    · exact List.nodup_singleton _
  rw [he]
  refine List.Nodup.append hclient hn fun r hr hm => ?_
  rw [mem_closeClient hr] at hm
  rcases hrest _ hm with h | h <;> cases h

/-- `Stop` of a server whose `client_fd` is assigned and was not handed to the pool. -/
theorem ReleasedOnce.stop (h : ReleasedOnce s) (hs : s.stage = .stopping i)
    (hi : s.servers[i]? = some unit) (ha : unit.server.Assigned)
    (hclient : unit.server.clientFd ∉ unit.server.handed) :
    ReleasedOnce { s with
      stage := .stopping (i + 1), released := s.released ++ stopServer i unit } where
  nodup := by
    refine List.Nodup.append h.nodup (nodup_stopServer i ha) fun r hr hm => ?_
    have hns : ¬ s.stage.Stopped i := by
      rw [hs]
      exact Nat.lt_irrefl i
    rcases mem_stopServer ha hm with rfl | rfl | rfl
    · exact hclient ((h.owned i unit hi).released_handed hns _ hr)
    · exact hns (h.stopped i (.inl hr))
    · exact hns (h.stopped i (.inr hr))
  stopped := by
    intro j hm
    have hj : .listening j ∈ s.released ∨ .context j ∈ s.released ∨ j = i := by
      rcases hm with hm | hm <;> rcases List.mem_append.mp hm with hm | hm
      · exact .inl hm
      · exact .inr (.inr (socket_mem_stopServer ha (.inl hm)))
      · exact .inr (.inl hm)
      · exact .inr (.inr (socket_mem_stopServer ha (.inr hm)))
    have hold : .listening j ∈ s.released ∨ .context j ∈ s.released → j < i := by
      intro hm
      have hst := h.stopped j hm
      rwa [hs] at hst
    show j < i + 1
    rcases hj with hj | hj | rfl
    · exact Nat.lt_succ_of_lt (hold (.inl hj))
    · exact Nat.lt_succ_of_lt (hold (.inr hj))
    · exact Nat.lt_succ_self j
  owned := by
    intro j unit' hj
    have ho := h.owned j unit' hj
    have hnew : ∀ fd, .accepted j fd ∈ s.released ++ stopServer i unit →
        .accepted j fd ∈ s.released ∨ j = i ∧ fd = unit.server.clientFd := by
      intro fd hm
      rcases List.mem_append.mp hm with hm | hm
      · exact .inl hm
      · exact .inr (accepted_mem_stopServer ha hm)
    refine ⟨ho.pool_nodup, ho.pool_handed, ho.handed_acquired, ho.holding, ?_, ?_, ?_⟩
    · intro fd hm
      rcases hnew fd hm with hm | ⟨rfl, rfl⟩
      · exact ho.released_pool fd hm
      · rw [hi, Option.some.injEq] at hj
        subst hj
        exact fun hp => hclient (ho.pool_handed _ hp)
    · intro hns fd hm
      have hlt : ¬ j < i + 1 := hns
      rcases hnew fd hm with hm | ⟨rfl, rfl⟩
      · refine ho.released_handed ?_ fd hm
        rw [hs]
        show ¬ j < i
        omega
      · exact absurd (Nat.lt_succ_self j) hlt
    · intro _
      refine ho.joined ?_
      rw [hs]
      trivial

/-- A worker closes a connection of its pool. -/
theorem ReleasedOnce.finish (h : ReleasedOnce s) (hi : s.servers[i]? = some unit)
    (hfd : fd ∈ unit.pool) : ReleasedOnce { s.setServer i { unit with pool := unit.pool.erase fd } with
      released := s.released ++ [.accepted i fd] } where
  nodup := by
    refine List.Nodup.append h.nodup (List.nodup_singleton _) fun r hr hm => ?_
    obtain rfl := List.mem_singleton.mp hm
    exact (h.owned i unit hi).released_pool fd hr hfd
  stopped := by
    intro j hm
    apply h.stopped j
    simpa using hm
  owned := by
    intro j unit' hj
    rcases getElem?_setServer hj with ⟨rfl, rfl⟩ | ⟨hne, hj⟩
    · have ho := h.owned j unit hi
      have hnew : ∀ fd', .accepted j fd' ∈ s.released ++ [.accepted j fd] →
          .accepted j fd' ∈ s.released ∨ fd' = fd := by
        intro fd' hm
        simpa using hm
      refine ⟨ho.pool_nodup.erase fd, fun fd' hm => ho.pool_handed fd' (List.mem_of_mem_erase hm),
        ho.handed_acquired, ho.holding, ?_, ?_, ho.joined⟩
      · intro fd' hm hp
        rcases hnew fd' hm with hm | rfl
        · exact ho.released_pool fd' hm (List.mem_of_mem_erase hp)
        · exact ho.pool_nodup.not_mem_erase hp
      · intro hns fd' hm
        rcases hnew fd' hm with hm | rfl
        · exact ho.released_handed hns fd' hm
        · exact ho.pool_handed _ hfd
    · refine (h.owned j unit' hj).mono rfl rfl (fun r hr => hr) ?_ id (h.owned j unit' hj).joined
      intro fd' hm
      rcases List.mem_append.mp hm with hm | hm
      · exact hm
      · cases List.mem_singleton.mp hm
        exact absurd rfl hne

/-- An event of the accept loop of the server `i`. -/
theorem ReleasedOnce.accept {event : AcceptLoop.Event} {server : AcceptLoop} (h : ReleasedOnce s)
    (hi : s.servers[i]? = some unit) (hfresh : ∀ fd ∈ event.gives, .accepted i fd ∉ s.acquired)
    (hloop : unit.server.acceptIncoming event = some server) :
    ReleasedOnce { s.setServer i { unit with
        server := server
        pool := unit.pool ++ server.handed.drop unit.server.handed.length } with
      acquired := s.acquired ++ event.gives.toList.map (Resource.accepted i) } where
  nodup := h.nodup
  stopped := h.stopped
  owned := by
    intro j unit' hj
    rcases getElem?_setServer hj with ⟨rfl, rfl⟩ | ⟨hne, hj⟩
    · have ho := h.owned j unit hi
      have hreturned := AcceptLoop.not_returned_of_acceptIncoming hloop
      have hjoined : ¬ s.stage.Joined j := fun hs => hreturned (ho.joined hs)
      have hsame : server.handed = unit.server.handed →
          unit.pool ++ server.handed.drop unit.server.handed.length = unit.pool := by
        intro hh
        rw [hh, List.drop_length, List.append_nil]
      cases AcceptLoop.change_of_acceptIncoming hloop with
      | rest hg hh hc hold =>
        refine ho.keep hh (hsame hh) (fun r hr => List.mem_append_left _ hr) (fun fd hm => hm) id ?_
          fun hs => absurd hs hjoined
        intro hholding
        dsimp only
        rw [hh, hc]
        exact ⟨List.mem_append_left _ (ho.holding (hold hholding)).1, (ho.holding (hold hholding)).2⟩
      | refuse hg hh hold =>
        exact ho.keep hh (hsame hh) (fun r hr => List.mem_append_left _ hr) (fun fd hm => hm) id
          (fun hholding => absurd hholding hold) fun hs => absurd hs hjoined
      | accept fd hg hh hc =>
        refine ho.keep hh (hsame hh) (fun r hr => List.mem_append_left _ hr) (fun fd hm => hm) id ?_
          fun hs => absurd hs hjoined
        -- the descriptor is new, so it was not handed over before
        intro _
        dsimp only
        rw [hh, hc, hg]
        refine ⟨List.mem_append_right _ (List.mem_singleton_self _), fun hm => ?_⟩
        exact hfresh fd hg (ho.handed_acquired fd hm)
      | handOver hg hold hh hold' =>
        refine ho.handOver hold hh ?_ hold' (fun r hr => List.mem_append_left _ hr) rfl rfl hjoined
        dsimp only
        rw [hh, List.drop_left]
    · exact (h.owned j unit' hj).mono rfl rfl (fun r hr => List.mem_append_left _ hr)
        (fun fd hm => hm) id (h.owned j unit' hj).joined

/-- A harmless step of the manager. -/
theorem ReleasedOnce.advance (h : ReleasedOnce s) (hc : Harmless s (.manager started))
    (ha : Advance s s') : ReleasedOnce s' := by
  have hkeep : ∀ (i : Nat) (unit' : ServerUnit), s.servers[i]? = some unit' →
      ∃ unit, s.servers[i]? = some unit ∧ unit'.server = unit.server ∧ unit'.pool = unit.pool :=
    fun i unit' hi => ⟨unit', hi, rfl, rfl⟩
  have hset : ∀ {i : Nat} {unit unit' : ServerUnit}, s.servers[i]? = some unit →
      unit'.server = unit.server → unit'.pool = unit.pool →
      ∀ (j : Nat) (other : ServerUnit), (s.setServer i unit').servers[j]? = some other →
        ∃ unit, s.servers[j]? = some unit ∧ other.server = unit.server ∧ other.pool = unit.pool := by
    intro i unit unit' hi hserver hpool j other hj
    rcases getElem?_setServer hj with ⟨rfl, rfl⟩ | ⟨-, hj⟩
    · exact ⟨unit, hi, hserver, hpool⟩
    · exact hkeep j other hj
  cases ha with
  | start i unit hs hi =>
    exact h.move rfl (fun r hr => List.mem_append_left _ hr) (by rw [hs]; exact fun _ => id) hkeep
      fun _ _ _ => False.elim
  | fail i hs =>
    exact h.goTo _ (by rw [hs]; exact fun _ => id) fun _ _ _ => False.elim
  | started i hs =>
    exact h.goTo _ (by rw [hs]; exact fun _ => id) fun _ _ _ => False.elim
  | «open» i unit hs hi =>
    exact h.move rfl (fun r hr => hr) (by rw [hs]; exact fun _ => id) (hset hi rfl rfl)
      fun _ _ _ => False.elim
  | opened i hs =>
    exact h.goTo _ (by rw [hs]; exact fun _ => id) fun _ _ _ => False.elim
  | destroy hs =>
    exact h.goTo _ (by rw [hs]; exact fun _ => id) fun _ _ _ => False.elim
  | request i unit hs hi =>
    exact h.move rfl (fun r hr => hr) (by rw [hs]; exact fun _ => id) (hset hi rfl rfl)
      fun _ _ _ => False.elim
  | requested i hs =>
    exact h.goTo _ (by rw [hs]; exact fun _ => id) fun j _ _ hj => absurd hj (Nat.not_lt_zero j)
  | join i unit hs hi hr =>
    refine h.goTo _ (by rw [hs]; exact fun _ => id) fun j unit' hj hlt => ?_
    rcases Nat.lt_succ_iff_lt_or_eq.mp hlt with hlt | rfl
    · refine (h.owned j unit' hj).joined ?_
      rw [hs]
      exact hlt
    · rw [hi, Option.some.injEq] at hj
      rwa [← hj]
  | joined i hs hi =>
    refine h.goTo _ (by rw [hs]; exact fun _ => False.elim) fun j unit hj _ => ?_
    refine (h.owned j unit hj).joined ?_
    have hlt := (List.getElem?_eq_some_iff.mp hj).1
    have hle := List.getElem?_eq_none_iff.mp hi
    rw [hs]
    exact Nat.lt_of_lt_of_le hlt hle
  | stop i unit hs hi =>
    have hstop : s.MayAdvance s.stage := hc
    rw [hs] at hstop
    obtain ⟨hassigned, hclient⟩ := hstop unit hi
    exact h.stop hs hi hassigned hclient
  | stopped i hs hi =>
    refine h.goTo _ (fun _ _ => trivial) fun j unit hj _ => (h.owned j unit hj).joined ?_
    rw [hs]
    trivial
  | empty hs he =>
    refine h.goTo _ (fun _ _ => trivial) fun j unit hj _ => ?_
    rw [he] at hj
    cases hj
  | terminate unit rest hs he =>
    have hempty : s.MayAdvance s.stage := hc
    rw [hs] at hempty
    cases he.symm.trans hempty

theorem ReleasedOnce.step (h : ReleasedOnce s) (hc : Harmless s event)
    (hs : step s event = some s') : ReleasedOnce s' := by
  cases event with
  | manager started => exact h.advance hc (advance_of_step hs)
  | accept i event =>
    obtain ⟨unit, server, hi, hfresh, hloop, rfl⟩ := accept_of_step hs
    exact h.accept hi hfresh hloop
  | finish i fd =>
    obtain ⟨unit, hi, -, rfl⟩ := finish_of_step hs
    exact h.finish hi (hc unit hi)

/-! ## Runs to the end -/

/-- In any run: the listening descriptors of the servers that were stopped are released, and
    the process does not end before it has released one of them again. -/
structure Stops (configs : List ServerType) (s : ServerManager) : Prop where
  length : s.servers.length = configs.length
  none : configs = [] → s.released = []
  listening : ∀ i < configs.length, s.stage.Stopped i → .listening i ∈ s.released
  destroyed : s.stage = .destroyed → configs = []
  terminated : s.stage = .terminated → configs ≠ [] ∧ ¬ s.released.Nodup

theorem stops_new (configs : List ServerType) (uninitialised : Nat → Option Resource) :
    Stops configs (new configs uninitialised) where
  length := List.length_mapIdx
  none := fun _ => rfl
  listening := fun _ _ => False.elim
  destroyed := nofun
  terminated := nofun

theorem listening_mem_stopServer (i : Nat) (unit : ServerUnit) :
    .listening i ∈ stopServer i unit := by
  unfold stopServer
  cases unit.server with
  | tcp server => exact List.mem_append_right _ List.mem_cons_self
  | tls server => exact List.mem_append_right _ List.mem_cons_self

/-- A step before the end, which releases no less. -/
theorem Stops.move (h : Stops configs s) (hlength : s'.servers.length = s.servers.length)
    (hreleased : ∃ more, s'.released = s.released ++ more ∧ (s.servers = [] → more = []))
    (hstopped : ∀ i < configs.length, s'.stage.Stopped i →
      s.stage.Stopped i ∨ .listening i ∈ s'.released)
    (hdestroyed : s'.stage ≠ .destroyed) (hterminated : s'.stage ≠ .terminated) :
    Stops configs s' where
  length := hlength.trans h.length
  none := by
    rintro rfl
    obtain ⟨more, hr, hm⟩ := hreleased
    rw [hr, h.none rfl, hm (List.length_eq_zero_iff.mp h.length)]
    rfl
  listening := by
    intro i hi hs
    obtain ⟨more, hr, -⟩ := hreleased
    rcases hstopped i hi hs with hs | hm
    · rw [hr]
      exact List.mem_append_left _ (h.listening i hi hs)
    · exact hm
  destroyed := fun hs => absurd hs hdestroyed
  terminated := fun hs => absurd hs hterminated

theorem Stops.advance (h : Stops configs s) (ha : Advance s s') : Stops configs s' := by
  have hsame : ∃ more, s.released = s.released ++ more ∧ (s.servers = [] → more = []) :=
    ⟨[], (List.append_nil _).symm, fun _ => rfl⟩
  have hset : ∀ (i : Nat) (unit : ServerUnit),
      (s.setServer i unit).servers.length = s.servers.length := fun _ _ => List.length_set
  cases ha with
  | start i unit hs hi => exact h.move rfl hsame (fun _ _ => False.elim) nofun nofun
  | fail i hs => exact h.move rfl hsame (fun _ _ => False.elim) nofun nofun
  | started i hs => exact h.move rfl hsame (fun _ _ => False.elim) nofun nofun
  | «open» i unit hs hi => exact h.move (hset _ _) hsame (fun _ _ => False.elim) nofun nofun
  | opened i hs => exact h.move rfl hsame (fun _ _ => False.elim) nofun nofun
  | destroy hs => exact h.move rfl hsame (fun _ _ => False.elim) nofun nofun
  | request i unit hs hi => exact h.move (hset _ _) hsame (fun _ _ => False.elim) nofun nofun
  | requested i hs => exact h.move rfl hsame (fun _ _ => False.elim) nofun nofun
  | join i unit hs hi hr => exact h.move rfl hsame (fun _ _ => False.elim) nofun nofun
  | joined i hs hi =>
    exact h.move rfl hsame (fun j _ hj => absurd hj (Nat.not_lt_zero j)) nofun nofun
  | stop i unit hs hi =>
    refine h.move rfl ⟨_, rfl, fun he => ?_⟩ (fun j _ hj => ?_) nofun nofun
    · rw [he] at hi
      cases hi
    · rcases Nat.lt_succ_iff_lt_or_eq.mp hj with hj | rfl
      · left
        rw [hs]
        exact hj
      · exact .inr (List.mem_append_right _ (listening_mem_stopServer _ _))
  | stopped i hs hi =>
    refine h.move rfl hsame (fun j hj _ => .inl ?_) nofun nofun
    have hle := List.getElem?_eq_none_iff.mp hi
    rw [h.length] at hle
    rw [hs]
    exact Nat.lt_of_lt_of_le hj hle
  | empty hs he =>
    have hc : configs = [] := by
      rw [← List.length_eq_zero_iff, ← h.length, he]
      rfl
    subst hc
    exact ⟨h.length, h.none, nofun, fun _ => rfl, nofun⟩
  | terminate unit rest hs he =>
    have hlt : 0 < configs.length := by
      rw [← h.length, he]
      exact Nat.succ_pos _
    have hold : .listening 0 ∈ s.released := by
      refine h.listening 0 hlt ?_
      rw [hs]
      trivial
    have hne : configs ≠ [] := List.ne_nil_of_length_pos hlt
    refine ⟨h.length, fun hc => absurd hc hne, fun i hi _ => ?_, nofun, fun _ => ⟨hne, fun hn => ?_⟩⟩
    · refine List.mem_append_left _ (h.listening i hi ?_)
      rw [hs]
      trivial
    · -- the destructor closes what `Stop` has closed
      exact List.disjoint_of_nodup_append hn hold (listening_mem_stopServer 0 _)

theorem Stops.step (h : Stops configs s) (hs : step s event = some s') : Stops configs s' := by
  have hlength : ∀ (i : Nat) (unit : ServerUnit),
      (s.setServer i unit).servers.length = s.servers.length := fun _ _ => List.length_set
  cases event with
  | manager started => exact h.advance (advance_of_step hs)
  | accept i event =>
    obtain ⟨unit, server, hi, -, -, rfl⟩ := accept_of_step hs
    exact ⟨(hlength _ _).trans h.length, h.none, h.listening, h.destroyed, h.terminated⟩
  | finish i fd =>
    obtain ⟨unit, hi, halive, rfl⟩ := finish_of_step hs
    refine h.move (hlength _ _) ⟨_, rfl, fun he => ?_⟩ (fun _ _ => .inl) halive.1 halive.2.1
    rw [he] at hi
    cases hi

/-- **Which runs release nothing twice.** Nothing is released twice in a run whose steps are
    all harmless: no connection is given to two workers, no server is stopped while its
    `client_fd` is uninitialised or one that it has handed to its pool, and none is destroyed. In
    a run to the end of the manager, something is released twice unless there is no server. -/
theorem releasedOnce_of_run (configs : List ServerType) (uninitialised : Nat → Option Resource) :
    (∀ events s, StepsMeet Harmless step (new configs uninitialised) events →
      run step (new configs uninitialised) events = some s → s.released.Nodup) ∧
    ∀ events s, run step (new configs uninitialised) events = some s →
      s.stage = .destroyed ∨ s.stage = .terminated → (s.released.Nodup ↔ configs = []) := by
  constructor
  · intro events s hc hr
    exact (run_invariant (fun _ _ _ h hc hs => h.step hc hs)
      (releasedOnce_new configs uninitialised) hc hr).nodup
  · intro events s hr hend
    have h : Stops configs s := run_induction (J := fun _ s => Stops configs s)
      (stops_new configs uninitialised) (fun _ _ _ _ h hs => h.step hs) hr
    rcases hend with hs | hs
    · have hc := h.destroyed hs
      rw [h.none hc]
      exact iff_of_true List.nodup_nil hc
    · exact iff_of_false (h.terminated hs).2 (h.terminated hs).1

/-- The manager constructs one HTTP server, which takes a connection and reads a request that the
    handler answers; a worker closes it. -/
def oneConnection : List Event :=
  [.manager true, .manager true, .manager true, .manager true,
    .accept 0 (.tcp (.stop_requested false)), .accept 0 (.tcp (.accept4 (.ok 5))),
    .accept 0 (.tcp (.recv (.ok RequestProcessing.getRoot))), .finish 0 5]

/-- The manager is destroyed as far as to its `Stop` of the server. -/
def destroyToStop : List Event :=
  [.manager true, .manager true, .manager true, .accept 0 (.tcp (.stop_requested true)),
    .manager true, .manager true, .manager true]

/-- Once another call of `accept4` has found nothing, `Stop` releases what is left; and a manager
    without servers to its end. -/
theorem releasedOnce_of_run_quiet :
    (∃ s, run step (new [.HTTP] fun _ => none) (oneConnection ++
        [.accept 0 (.tcp (.stop_requested false)), .accept 0 (.tcp (.accept4 (.error .EAGAIN)))] ++
        destroyToStop) = some s ∧ s.stage = .stopping 1 ∧
      s.released = [.accepted 0 5, .listening 0] ∧ s.released.Nodup) ∧
    ∃ s, run step (new [] fun _ => none) (List.replicate 7 (.manager true)) = some s ∧
      s.stage = .destroyed ∧ (s.released.Nodup ↔ ([] : List ServerType) = []) :=
  ⟨⟨_, rfl, rfl, rfl, (releasedOnce_of_run [.HTTP] fun _ => none).1 (oneConnection ++
      [.accept 0 (.tcp (.stop_requested false)), .accept 0 (.tcp (.accept4 (.error .EAGAIN)))] ++
      destroyToStop) _ (by decide) rfl⟩,
    ⟨_, rfl, rfl, (releasedOnce_of_run [] fun _ => none).2 (List.replicate 7 (.manager true)) _ rfl
      (.inl rfl)⟩⟩

/-- `Stop` closes the connection that the worker has closed. -/
theorem not_releasedOnce_oneConnection :
    ¬ ∀ (configs : List ServerType) (uninitialised : Nat → Option Resource) (events : List Event)
      (s : ServerManager), run step (new configs uninitialised) events = some s →
        s.released.Nodup := by
  intro h
  have hn : [Resource.accepted 0 5, .accepted 0 5, .listening 0].Nodup :=
    h [.HTTP] (fun _ => none) (oneConnection ++ destroyToStop) _ rfl
  exact absurd hn (by decide)

end ServerManager

end SimpleServ.Server
