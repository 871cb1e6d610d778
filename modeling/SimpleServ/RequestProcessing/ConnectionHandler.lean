import SimpleServ.Http.HttpHandler

/-
  The worker of the thread pool (connection_handler.hpp): it pops connections and handles
  each one, without a `catch`.

  A worker runs over the results of its pops; other threads push and pop between them, so
  these are any list of `none` and connections. The template parameters `Handler`, `Sender`
  and `Closer` are the fields of `Policies`, over any world they act on. A call of the sender
  may end the process (SIGPIPE). An exception leaves `Start` and with it the thread; the output
  that the debug flags switch on is left out.

  `loop_returns_iff`: where the handler returns or not by the request and a part of the world
  that no call changes, a worker outlives exactly the pops whose requests it returns on.
  `worker_outlives_iff` is the case of `HTTPHandler`.
-/

namespace SimpleServ.RequestProcessing

open SimpleServ.Cxx SimpleServ.Utility SimpleServ.Http Outcome

/-- The template parameters, and the request of a `ConnectionObject`. -/
structure Policies (C W : Type) where
  request : C → Bytes
  handle : Bytes → W → Outcome (Option Bytes) × W
  sendMsg : C → Bytes → W → Outcome Unit × W
  closeConnection : C → W → W

section Worker

variable {C W : Type}

def handleConnection (policies : Policies C W) (conn_obj : C) (world : W) : Outcome Unit × W :=
  andThen (policies.handle (policies.request conn_obj) world) fun response world =>
    match response with
    | some response =>
      andThen (policies.sendMsg conn_obj response world) fun _ world =>
        (ret (), policies.closeConnection conn_obj world)
    | none => (ret (), policies.closeConnection conn_obj world)

/-- The `while` loop over these pops; `ret` says that the worker is still in it. -/
def loop (policies : Policies C W) : List (Option C) → W → Outcome Unit × W
  | [], world => (ret (), world)
  | none :: pops, world => loop policies pops world
  | some obj :: pops, world =>
    andThen (handleConnection policies obj world) fun _ world => loop policies pops world

/-- `Start`; `ready` is false for a worker that was built without a queue. -/
def start (policies : Policies C W) (ready : Bool) (pops : List (Option C)) (world : W) :
    Outcome Unit × W :=
  if ready then loop policies pops world else (.throw .runtime_error, world)

/-- Every call of the sender returns. -/
def SendsReturn (policies : Policies C W) : Prop :=
  ∀ conn_obj response world, (policies.sendMsg conn_obj response world).1 = ret ()

variable {policies : Policies C W} {conn_obj : C} {world world' : W}

theorem handleConnection_some {response : Bytes}
    (h : policies.handle (policies.request conn_obj) world = (ret (some response), world')) :
    handleConnection policies conn_obj world =
      andThen (policies.sendMsg conn_obj response world') fun _ world =>
        (ret (), policies.closeConnection conn_obj world) := by
  rw [handleConnection, h]
  rfl

theorem handleConnection_none
    (h : policies.handle (policies.request conn_obj) world = (ret none, world')) :
    handleConnection policies conn_obj world =
      (ret (), policies.closeConnection conn_obj world') := by
  rw [handleConnection, h]
  rfl

/-- Where the handler does not return, nothing is sent or closed. -/
theorem handleConnection_of_not_returns
    (h : ¬ (policies.handle (policies.request conn_obj) world).1.Returns) :
    ¬ (handleConnection policies conn_obj world).1.Returns ∧
      (handleConnection policies conn_obj world).2 =
        (policies.handle (policies.request conn_obj) world).2 :=
  andThen_of_not_returns h

theorem handleConnection_returns_iff (hs : SendsReturn policies) (conn_obj : C) (world : W) :
    (handleConnection policies conn_obj world).1.Returns ↔
      (policies.handle (policies.request conn_obj) world).1.Returns := by
  refine ⟨fun h => of_not_not fun hn => (handleConnection_of_not_returns hn).1 h, ?_⟩
  rintro ⟨answer, ha⟩
  have hh : policies.handle (policies.request conn_obj) world =
      (ret answer, (policies.handle (policies.request conn_obj) world).2) := Prod.ext ha rfl
  cases answer with
  | none =>
    rw [handleConnection_none hh]
    exact returns_ret ()
  | some response =>
    rw [handleConnection_some hh, andThen_of_ret (hs _ _ _)]
    exact returns_ret ()

/-- A round that returns leaves the worker in its loop, any other one ends it. -/
theorem loop_cons_returns_iff (obj : C) (pops : List (Option C)) (world : W) :
    (loop policies (some obj :: pops) world).1.Returns ↔
      (handleConnection policies obj world).1.Returns ∧
        (loop policies pops (handleConnection policies obj world).2).1.Returns := by
  rw [loop, returns_andThen_iff]
  exact ⟨fun ⟨_, ha, hr⟩ => ⟨⟨_, ha⟩, hr⟩, fun ⟨⟨_, ha⟩, hr⟩ => ⟨_, ha, hr⟩⟩

/-- What no call changes, a round leaves as it was. -/
theorem handleConnection_keeps {P : W → Prop}
    (hhandle : ∀ str world, P (policies.handle str world).2 ↔ P world)
    (hsend : ∀ conn_obj response world, P (policies.sendMsg conn_obj response world).2 ↔ P world)
    (hclose : ∀ conn_obj world, P (policies.closeConnection conn_obj world) ↔ P world)
    (conn_obj : C) (world : W) :
    P (handleConnection policies conn_obj world).2 ↔ P world := by
  rw [← hhandle (policies.request conn_obj) world]
  by_cases hr : (policies.handle (policies.request conn_obj) world).1.Returns
  · obtain ⟨answer, ha⟩ := hr
    rw [handleConnection, andThen_of_ret ha]
    cases answer with
    | none => exact hclose _ _
    | some response =>
      refine Iff.trans ?_ (hsend conn_obj response _)
      dsimp only
      by_cases hs : (policies.sendMsg conn_obj response
          (policies.handle (policies.request conn_obj) world).2).1.Returns
      · obtain ⟨_, hs⟩ := hs
        rw [andThen_of_ret hs]
        exact hclose _ _
      · rw [(andThen_of_not_returns hs).2]
  · rw [(handleConnection_of_not_returns hr).2]

theorem loop_returns_iff {P : Bytes → W → Prop} (hs : SendsReturn policies)
    (hg : ∀ str world, (policies.handle str world).1.Returns ↔ P str world)
    (hkeeps : ∀ str conn_obj world,
      P str (handleConnection policies conn_obj world).2 ↔ P str world)
    (pops : List (Option C)) (world : W) :
    (loop policies pops world).1.Returns ↔
      ∀ conn, some conn ∈ pops → P (policies.request conn) world := by
  induction pops generalizing world with
  | nil => simp [loop]
  | cons pop pops ih =>
    cases pop with
    | none =>
      rw [loop, ih]
      simp
    | some obj =>
      rw [loop_cons_returns_iff, handleConnection_returns_iff hs, hg, ih]
      simp [hkeeps]

end Worker

/-! ## Workers with the HTTP handler -/

/-- `HTTPHandler` with any sender and closer; the world is the file manager and what these
    two act on. -/
def httpPolicies {C N : Type} (disk : Disk) (request : C → Bytes)
    (sendMsg : C → Bytes → N → Outcome Unit × N) (closeConnection : C → N → N) :
    Policies C (FileManager × N) where
  request := request
  handle str world :=
    let (outcome, file_manager) := Http.handle disk str world.1
    (outcome, file_manager, world.2)
  sendMsg conn response world :=
    let (outcome, n) := sendMsg conn response world.2
    (outcome, world.1, n)
  closeConnection conn world := (world.1, closeConnection conn world.2)

section HttpWorker

variable {C N : Type} {disk : Disk} {request : C → Bytes}
  {sendMsg : C → Bytes → N → Outcome Unit × N} {closeConnection : C → N → N}

/-- A call changes nothing about which requests the handler throws on for their file. -/
theorem unreadable_handleConnection (str : Bytes) (conn_obj : C) (world : FileManager × N) :
    UnreadableRequest disk (handleConnection (httpPolicies disk request sendMsg closeConnection)
      conn_obj world).2.1 str ↔ UnreadableRequest disk world.1 str :=
  handleConnection_keeps (P := fun world => UnreadableRequest disk world.1 str)
    (fun str' world => unreadableRequest_handle disk str' world.1 str)
    (fun _ _ _ => Iff.rfl) (fun _ _ => Iff.rfl) conn_obj world

/-- **Which requests a worker outlives.** A call of the handler returns exactly when its request
    neither ends before the parser's next look, nor sends the parser's cursor outside the view,
    nor asks for a listed file that is not in the cache, is opened and cannot be read. A worker
    whose sends return is still in its loop exactly when this holds of every connection that it
    popped. -/
theorem worker_outlives_iff (disk : Disk) :
    (∀ str file_manager, (Http.handle disk str file_manager).1.Returns ↔
      ¬ CutShort str ∧ ¬ StrayRequest str ∧ ¬ UnreadableRequest disk file_manager str) ∧
    ∀ {C N : Type} (request : C → Bytes) (sendMsg : C → Bytes → N → Outcome Unit × N)
      (closeConnection : C → N → N), (∀ conn response n, (sendMsg conn response n).1 = ret ()) →
      ∀ (pops : List (Option C)) (world : FileManager × N),
      (start (httpPolicies disk request sendMsg closeConnection) true pops world).1.Returns ↔
        ∀ conn, some conn ∈ pops → ¬ CutShort (request conn) ∧ ¬ StrayRequest (request conn) ∧
          ¬ UnreadableRequest disk world.1 (request conn) := by
  refine ⟨handle_returns_iff disk, fun request sendMsg closeConnection hs pops world => ?_⟩
  have hsends : SendsReturn (httpPolicies disk request sendMsg closeConnection) :=
    fun conn response world => hs conn response world.2
  refine loop_returns_iff (P := fun str (world : FileManager × _) => ¬ CutShort str ∧
    ¬ StrayRequest str ∧ ¬ UnreadableRequest disk world.1 str) hsends
    (fun str world => handle_returns_iff disk str world.1) (fun str conn_obj world => ?_) pops world
  rw [unreadable_handleConnection]

end HttpWorker

def getRoot : Bytes := lit "GET / HTTP/1.1\r\n\r\n"

theorem getRoot_accepted :
    parseHttpRequest getRoot = ret (.ok (HTTPRequest.new .GET (lit "/") .HTTP_1_1)) := by
  decide +kernel

/-- A worker that pops twice, and gets a connection the second time. -/
theorem worker_outlives_iff_getRoot :
    (start (httpPolicies Disk.empty id (fun _ _ n => (ret (), n)) (fun _ n => n)) true
      [none, some getRoot] (FileManager.fresh ∅, ())).1.Returns := by
  obtain ⟨hhandle, hworker⟩ := worker_outlives_iff Disk.empty
  refine (hworker id (fun _ _ n => (ret (), n)) (fun _ n => n) (fun _ _ _ => rfl) _ _).mpr
    fun conn hm => ?_
  obtain rfl : conn = getRoot := by simpa using hm
  refine (hhandle getRoot (FileManager.fresh ∅)).mp ?_
  rw [(handle_accepted (FileManager.sound_fresh Disk.empty ∅) getRoot_accepted).1,
    answer_unlisted Disk.empty Std.ExtTreeMap.getElem?_empty]
  exact returns_ret _

/-- A client that closes without sending: the request is empty, `head` throws, and the worker
    that popped the connection is gone. -/
theorem worker_ends_emptyRequest :
    (Http.handle Disk.empty [] (FileManager.fresh ∅)).1 = .throw .out_of_range ∧
      (start (httpPolicies Disk.empty id (fun _ _ n => (ret (), n)) (fun _ n => n)) true [some []]
        (FileManager.fresh ∅, ())).1 = .throw .out_of_range := by
  decide

end SimpleServ.RequestProcessing
