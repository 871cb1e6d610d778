import SimpleServ.RequestProcessing.TlsConnection

/-
  The pool of a `TLSServer`: where its records go (tls_connection.hpp, tls_server.hpp).

  `CloseConnection` closes the descriptor before `wolfSSL_shutdown` writes the alert that ends
  the session. From the closing on the system may give the number out again, and only the
  numbers of open descriptors are kept back (`TlsPermitted`).

  `tlsPool_records`: a response is received by the connection whose object wrote it, and an
  alert never is: it is lost, or another connection receives it.
-/

namespace SimpleServ.RequestProcessing

open SimpleServ.Cxx SimpleServ.Lib SimpleServ.Server SimpleServ.Utility
  SimpleServ.Utility.SharedQueue Outcome

namespace Threadpool

variable {H : Type} {num_threads : Nat}
  {handle overlapped : Bytes → H → Outcome (Option Bytes) × H} {kept : Bool}
  {s t : Threadpool HTTPSConnectionObject (H × TlsNetwork) TlsCall num_threads}
  {event : Event HTTPSConnectionObject num_threads} {i j : Fin num_threads} {k : Nat}
  {task : Task HTTPSConnectionObject} {pc : WorkerPc HTTPSConnectionObject TlsCall}

/-- The kernel gives the descriptor to the connection that is added. -/
def connect (k : Nat) (conn_obj : HTTPSConnectionObject) (world : H × TlsNetwork) :
    H × TlsNetwork := (world.1, world.2.connect k conn_obj)

/-- The step of the queue is orderly, and a connection comes with a descriptor that is not open
    and with a WOLFSSL object of its own. -/
def TlsPermitted (s : Threadpool HTTPSConnectionObject (H × TlsNetwork) TlsCall num_threads)
    (event : Event HTTPSConnectionObject num_threads) : Prop :=
  s.QueueOrderly event ∧ ∀ obj, event = .addTask obj →
    s.world.2.peer obj.client_fd = none ∧
    ∀ ssl, obj.ssl = some ssl → ∀ (k : Nat) (obj' : HTTPSConnectionObject),
      s.tasks[k]? = some obj' → obj'.ssl ≠ some ssl

/-! ## Whose descriptor it is -/

/-- The calls of the closer, in order. -/
def closerCalls : List TlsCall := [.close, .wolfSSL_shutdown, .wolfSSL_free]

/-- The worker has not closed the descriptor of the task `k`. -/
def Unclosed (pc : WorkerPc HTTPSConnectionObject TlsCall) (k : Nat) : Prop :=
  ∀ task call rest, pc = .closing task call rest → task.number = k → call = .close

/-- Nobody has closed the descriptor of the task `k`. -/
def StillOpen (s : Threadpool HTTPSConnectionObject (H × TlsNetwork) TlsCall num_threads)
    (k : Nat) : Prop := k ∉ s.closed ∧ ∀ i, Unclosed (s.workers i) k

/-- The connection `k` receives a response that its own object wrote, or another one's alert. -/
def Rightly (tasks : List HTTPSConnectionObject) (k : Nat) : Record → Prop
  | .data ssl _ => ∃ obj, tasks[k]? = some obj ∧ obj.ssl = some ssl
  | .closeNotify ssl => ∃ obj, tasks[k]? = some obj ∧ obj.ssl ≠ some ssl

/-- A descriptor belongs to the task that it was given to until that task's worker closes it. -/
structure Wired (s : Threadpool HTTPSConnectionObject (H × TlsNetwork) TlsCall num_threads) :
    Prop where
  tracks : TracksHandled s
  peer_task : ∀ fd k, s.world.2.peer fd = some k →
    ∃ obj, s.tasks[k]? = some obj ∧ obj.client_fd = fd
  peer_iff : ∀ k obj, s.tasks[k]? = some obj →
    (s.world.2.peer obj.client_fd = some k ↔ StillOpen s k)
  ssl_unique : ∀ (k k' : Nat) (obj obj' : HTTPSConnectionObject) (ssl : Nat),
    s.tasks[k]? = some obj → s.tasks[k']? = some obj' →
    obj.ssl = some ssl → obj'.ssl = some ssl → k = k'
  calls : ∀ i task call rest, s.workers i = .closing task call rest → call :: rest <:+ closerCalls
  received : ∀ k record, (k, record) ∈ s.world.2.received → Rightly s.tasks k record

theorem wired_new (h : H) (sessions : Nat → TlsSession) :
    Wired (new HTTPSConnectionObject TlsCall num_threads (h, { sessions := sessions })) where
  tracks := tracksHandled_new _
  peer_task := nofun
  peer_iff := nofun
  ssl_unique := nofun
  calls := nofun
  received := nofun

theorem unclosed_of_not_closing (h : ∀ task call rest, pc ≠ .closing task call rest) (k : Nat) :
    Unclosed pc k := fun task call rest hp => absurd hp (h task call rest)

theorem unclosed_close (task : Task HTTPSConnectionObject) (rest : List TlsCall) (k : Nat) :
    Unclosed (.closing task .close rest) k := by
  rintro _ _ _ ⟨⟩ _
  rfl

/-- The task of the worker, in the middle of the closer's calls. -/
theorem unclosed_closing_iff {call : TlsCall} {rest : List TlsCall} (hc : call ≠ .close) :
    Unclosed (.closing task call rest) k ↔ task.number ≠ k := by
  constructor
  · exact fun hu hk => hc (hu task call rest rfl hk)
  · rintro hk _ _ _ ⟨⟩ he
    exact absurd he hk

theorem stillOpen_goTo {closed : List Nat} (hw : t.workers = (s.goTo i pc).workers)
    (hclosed : t.closed = closed)
    (h : k ∉ closed ∧ Unclosed pc k ↔ k ∉ s.closed ∧ Unclosed (s.workers i) k) :
    StillOpen t k ↔ StillOpen s k := by
  have hothers : (∀ j, Unclosed (t.workers j) k) ↔
      Unclosed pc k ∧ ∀ j, j ≠ i → Unclosed (s.workers j) k := by
    rw [hw]
    constructor
    · intro hu
      refine ⟨goTo_self s i pc ▸ hu i, fun j hji => ?_⟩
      exact goTo_ne s hji pc ▸ hu j
    · rintro ⟨hi, hu⟩ j
      by_cases hji : j = i
      · subst hji
        rw [goTo_self]
        exact hi
      · rw [goTo_ne s hji]
        exact hu j hji
  have hall : (∀ j, Unclosed (s.workers j) k) ↔
      Unclosed (s.workers i) k ∧ ∀ j, j ≠ i → Unclosed (s.workers j) k := by
    refine ⟨fun hu => ⟨hu i, fun j _ => hu j⟩, fun hu j => ?_⟩
    by_cases hji : j = i
    · exact hji ▸ hu.1
    · exact hu.2 j hji
  unfold StillOpen
  rw [hothers, hall, hclosed, ← and_assoc, ← and_assoc, h]

/-- A busy worker decides alone whether its task's descriptor is open. -/
theorem Tracks.stillOpen_iff (h : Tracks s) (hi : (s.workers i).task = some task) :
    StillOpen s task.number ↔ Unclosed (s.workers i) task.number := by
  refine ⟨fun hs => hs.2 i, fun hu => ⟨h.task_open i task hi, fun j => ?_⟩⟩
  rintro task' call rest hj hk
  have hji : j = i := h.task_unique j i task' task (congrArg WorkerPc.task hj) hi hk
  exact hu task' call rest (hji ▸ hj) hk

/-! ## What the calls write -/

section Calls

variable {conn_obj : HTTPSConnectionObject} {network : TlsNetwork} {response : Bytes}
  {record : Record}

theorem deliver_peer (network : TlsNetwork) (fd : Int) (record : Record) :
    (network.deliver fd record).peer = network.peer := by
  unfold TlsNetwork.deliver
  split <;> rfl

theorem mem_received_deliver {fd : Int} {record' : Record}
    (h : (k, record') ∈ (network.deliver fd record).received) :
    (k, record') ∈ network.received ∨ (network.peer fd = some k ∧ record' = record) := by
  unfold TlsNetwork.deliver at h
  split at h
  · next k' hp =>
    rcases List.mem_append.mp h with h | h
    · exact .inl h
    · obtain ⟨rfl, rfl⟩ := Prod.mk.inj (List.mem_singleton.mp h)
      exact .inr ⟨hp, rfl⟩
  · exact .inl h

theorem sendMsg_peer (conn_obj : HTTPSConnectionObject) (response : Bytes) (network : TlsNetwork) :
    (TLSSender.sendMsg conn_obj response network).peer = network.peer := by
  unfold TLSSender.sendMsg
  split
  · rfl
  · dsimp only
    split
    · rfl
    · split
      · rw [deliver_peer]
        rfl
      · rfl

theorem mem_received_sendMsg
    (h : (k, record) ∈ (TLSSender.sendMsg conn_obj response network).received) :
    (k, record) ∈ network.received ∨ (network.peer conn_obj.client_fd = some k ∧
      ∃ ssl bytes, conn_obj.ssl = some ssl ∧ record = .data ssl bytes) := by
  unfold TLSSender.sendMsg at h
  split at h
  · exact .inl h
  · next ssl hs =>
    dsimp only at h
    split at h
    · exact .inl h
    · split at h
      · exact (mem_received_deliver h).imp id fun hp => ⟨hp.1, ssl, _, hs, hp.2⟩
      · exact .inl h

theorem close_peer (conn_obj : HTTPSConnectionObject) (network : TlsNetwork) :
    (TLSCloser.call .close conn_obj network).peer =
        Function.update network.peer conn_obj.client_fd none ∧
      (TLSCloser.call .close conn_obj network).received = network.received := by
  unfold TLSCloser.call
  cases conn_obj.ssl with
  | none => exact ⟨rfl, rfl⟩
  | some ssl => exact ⟨rfl, rfl⟩

theorem call_peer {call : TlsCall} (hc : call ≠ .close) (conn_obj : HTTPSConnectionObject)
    (network : TlsNetwork) : (TLSCloser.call call conn_obj network).peer = network.peer := by
  unfold TLSCloser.call
  cases conn_obj.ssl with
  | none =>
    cases call with
    | close => exact absurd rfl hc
    | wolfSSL_shutdown => rfl
    | wolfSSL_free => rfl
  | some ssl =>
    cases call with
    | close => exact absurd rfl hc
    | wolfSSL_shutdown =>
      dsimp only
      split
      · rw [deliver_peer]
        rfl
      · rfl
    | wolfSSL_free => rfl

/-- The closer gives no descriptor away. -/
theorem peer_call_none {call : TlsCall} {fd : Int} (h : network.peer fd = none) :
    (TLSCloser.call call conn_obj network).peer fd = none := by
  by_cases hc : call = .close
  · rw [hc, (close_peer conn_obj network).1]
    by_cases hfd : fd = conn_obj.client_fd
    · rw [hfd, Function.update_self]
    · rwa [Function.update_of_ne hfd]
  · rwa [call_peer hc]

theorem mem_received_call {call : TlsCall}
    (h : (k, record) ∈ (TLSCloser.call call conn_obj network).received) :
    (k, record) ∈ network.received ∨ (network.peer conn_obj.client_fd = some k ∧
      ∃ ssl, conn_obj.ssl = some ssl ∧ record = .closeNotify ssl) := by
  unfold TLSCloser.call at h
  cases hs : conn_obj.ssl with
  | none =>
    rw [hs] at h
    cases call <;> exact .inl h
  | some ssl =>
    rw [hs] at h
    cases call with
    | close => exact .inl h
    | wolfSSL_shutdown =>
      dsimp only at h
      split at h
      · exact (mem_received_deliver h).imp id fun hp => ⟨hp.1, ssl, rfl, hp.2⟩
      · exact .inl h
    | wolfSSL_free => exact .inl h

end Calls

/-! ## One step -/

/-- A step that closes no descriptor and writes nothing wrongly. -/
theorem Wired.keep (h : Wired s) (ht : TracksHandled t) (htasks : t.tasks = s.tasks)
    (hpeer : t.world.2.peer = s.world.2.peer) (hopen : ∀ k, StillOpen t k ↔ StillOpen s k)
    (hcalls : ∀ i task call rest, t.workers i = .closing task call rest →
      call :: rest <:+ closerCalls)
    (hrec : ∀ k record, (k, record) ∈ t.world.2.received →
      (k, record) ∈ s.world.2.received ∨ Rightly s.tasks k record) : Wired t where
  tracks := ht
  peer_task := by
    rw [hpeer, htasks]
    exact h.peer_task
  peer_iff := by
    intro k obj ho
    rw [htasks] at ho
    rw [hpeer, hopen]
    exact h.peer_iff k obj ho
  ssl_unique := by
    rw [htasks]
    exact h.ssl_unique
  calls := hcalls
  received := by
    intro k record hm
    rw [htasks]
    exact (hrec k record hm).elim (h.received k record) id

/-- A step of `i` after which the closer's calls are still as they should be. -/
theorem Wired.calls_goTo (h : Wired s) (hw : t.workers = (s.goTo i pc).workers)
    (hpc : ∀ task call rest, pc = .closing task call rest → call :: rest <:+ closerCalls) :
    ∀ j task call rest, t.workers j = .closing task call rest →
      call :: rest <:+ closerCalls := by
  intro j task call rest hj
  rw [hw] at hj
  by_cases hji : j = i
  · subst hji
    exact hpc task call rest ((goTo_self s j pc).symm.trans hj)
  · exact h.calls j task call rest ((goTo_ne s hji pc).symm.trans hj)

/-- Behind a call of the closer comes one that is not `close`. -/
theorem next_of_suffix {call next : TlsCall} {rest : List TlsCall}
    (h : call :: next :: rest <:+ closerCalls) : next ≠ .close := by
  rw [closerCalls, List.suffix_cons_iff, List.suffix_cons_iff, List.suffix_cons_iff] at h
  simp at h
  grind

theorem last_of_suffix {call : TlsCall} (h : [call] <:+ closerCalls) : call = .wolfSSL_free := by
  rw [closerCalls, List.suffix_cons_iff, List.suffix_cons_iff, List.suffix_cons_iff] at h
  simp at h
  grind

theorem unclosed_of_eq (hw : s.workers i = pc) (hc : ∀ task call rest, pc ≠ .closing task call rest)
    (k : Nat) : Unclosed (s.workers i) k := by
  rw [hw]
  exact unclosed_of_not_closing hc k

/-- The handler is called, or comes back, and does not touch the network. -/
theorem Wired.call (h : Wired s) (ht : TracksHandled t)
    (hw : s.workers i = .popped task ∨ s.workers i = .handling task)
    (hpc : (∀ task call rest, pc ≠ .closing task call rest) ∨
      pc = .closing task .close [.wolfSSL_shutdown, .wolfSSL_free])
    (htw : t.workers = (s.goTo i pc).workers) (htasks : t.tasks = s.tasks)
    (hclosed : t.closed = s.closed) (hworld : t.world.2 = s.world.2) : Wired t := by
  have hnew : ∀ k, Unclosed pc k := by
    rcases hpc with hpc | rfl
    · exact unclosed_of_not_closing hpc
    · exact unclosed_close _ _
  have hold : ∀ k, Unclosed (s.workers i) k :=
    fun k => hw.elim (fun hw => unclosed_of_eq hw nofun k) fun hw => unclosed_of_eq hw nofun k
  refine h.keep ht htasks (congrArg TlsNetwork.peer hworld) (fun k => stillOpen_goTo htw hclosed ?_)
    (h.calls_goTo htw ?_) fun k record hm => .inl (hworld ▸ hm)
  · simp [hnew k, hold k]
  · intro task' call rest hp
    rcases hpc with hpc | rfl
    · exact absurd hp (hpc task' call rest)
    · cases hp
      exact List.suffix_rfl

theorem Wired.send (h : Wired s) {response : Bytes} (hw : s.workers i = .answered task response)
    (ht : TracksHandled { s.goTo i (.closing task .close [.wolfSSL_shutdown, .wolfSSL_free]) with
      world := (s.world.1, TLSSender.sendMsg task.obj response s.world.2) }) :
    Wired { s.goTo i (.closing task .close [.wolfSSL_shutdown, .wolfSSL_free]) with
      world := (s.world.1, TLSSender.sendMsg task.obj response s.world.2) } := by
  have hi : (s.workers i).task = some task := congrArg WorkerPc.task hw
  have hopen : StillOpen s task.number :=
    (h.tracks.stillOpen_iff hi).mpr (unclosed_of_eq hw nofun _)
  have hobj := h.tracks.task_obj i task hi
  refine h.keep ht rfl (sendMsg_peer _ _ _) (fun k => stillOpen_goTo rfl rfl ?_)
    (h.calls_goTo rfl ?_) fun k record hm => ?_
  · exact and_congr_right fun _ => iff_of_true (unclosed_close _ _ _) (unclosed_of_eq hw nofun k)
  · rintro _ _ _ ⟨⟩
    exact List.suffix_rfl
  · -- the descriptor is still the task's own
    refine (mem_received_sendMsg hm).imp id ?_
    rintro ⟨hp, ssl, bytes, hssl, rfl⟩
    have hk := Option.some.inj (hp.symm.trans ((h.peer_iff _ _ hobj).mpr hopen))
    exact ⟨task.obj, hk ▸ hobj, hssl⟩

/-- `close`: from now on the descriptor is nobody's. -/
theorem Wired.close (h : Wired s) {next : TlsCall} {rest : List TlsCall}
    (hw : s.workers i = .closing task .close (next :: rest)) (hnext : next ≠ .close)
    (ht : TracksHandled { s.goTo i (.closing task next rest) with
      world := (s.world.1, TLSCloser.call .close task.obj s.world.2) }) :
    Wired { s.goTo i (.closing task next rest) with
      world := (s.world.1, TLSCloser.call .close task.obj s.world.2) } := by
  have hi : (s.workers i).task = some task := congrArg WorkerPc.task hw
  have hobj := h.tracks.task_obj i task hi
  obtain ⟨hpeer, hreceived⟩ := close_peer task.obj s.world.2
  have hopen : StillOpen s task.number :=
    (h.tracks.stillOpen_iff hi).mpr (hw ▸ unclosed_close _ _ _)
  have hown := (h.peer_iff _ _ hobj).mpr hopen
  refine ⟨ht, ?_, ?_, h.ssl_unique, h.calls_goTo rfl ?_, ?_⟩
  · intro fd k hp
    dsimp only at hp
    rw [hpeer] at hp
    by_cases hfd : fd = task.obj.client_fd
    · rw [hfd, Function.update_self] at hp
      cases hp
    · rw [Function.update_of_ne hfd] at hp
      exact h.peer_task fd k hp
  · intro k obj ho
    dsimp only
    rw [hpeer]
    by_cases hk : k = task.number
    · subst hk
      obtain rfl := Option.some.inj (hobj.symm.trans ho)
      rw [Function.update_self]
      refine iff_of_false nofun fun hs => ?_
      have hu := hs.2 i
      rw [show Threadpool.workers _ i = _ from goTo_self s i _, unclosed_closing_iff hnext] at hu
      exact hu rfl
    · have hsame : StillOpen _ k ↔ StillOpen s k := stillOpen_goTo
        (t := { s.goTo i (.closing task next rest) with
          world := (s.world.1, TLSCloser.call .close task.obj s.world.2) }) rfl rfl
        (and_congr_right fun _ => iff_of_true ((unclosed_closing_iff hnext).mpr (Ne.symm hk))
          (hw ▸ unclosed_close _ _ _))
      rw [hsame, ← h.peer_iff k obj ho]
      by_cases hfd : obj.client_fd = task.obj.client_fd
      · rw [hfd, Function.update_self, hown]
        exact iff_of_false nofun fun he => hk (Option.some.inj he).symm
      · rw [Function.update_of_ne hfd]
  · rintro _ _ _ ⟨⟩
    exact (List.suffix_cons _ _).trans (h.calls i task _ _ hw)
  · intro k record hm
    exact h.received k record (hreceived ▸ hm)

/-- A call behind `close`: the descriptor is not the task's any more. -/
theorem Wired.late (h : Wired s) (ht : TracksHandled t) {call : TlsCall} {rest : List TlsCall}
    (hw : s.workers i = .closing task call rest) (hc : call ≠ .close)
    (htasks : t.tasks = s.tasks) (hworld : t.world.2 = TLSCloser.call call task.obj s.world.2)
    (hopen : ∀ k, StillOpen t k ↔ StillOpen s k)
    (hcalls : ∀ j task call rest, t.workers j = .closing task call rest →
      call :: rest <:+ closerCalls) : Wired t := by
  have hi : (s.workers i).task = some task := congrArg WorkerPc.task hw
  have hobj := h.tracks.task_obj i task hi
  refine h.keep ht htasks ?_ hopen hcalls fun k record hm => ?_
  · rw [hworld, call_peer hc]
  · rw [hworld] at hm
    refine (mem_received_call hm).imp id ?_
    rintro ⟨hp, ssl, hssl, rfl⟩
    obtain ⟨obj, ho, hfd⟩ := h.peer_task _ _ hp
    refine ⟨obj, ho, fun he => ?_⟩
    -- the same object would be the same task, whose descriptor is closed
    obtain rfl := h.ssl_unique _ _ _ _ _ ho hobj he hssl
    have hs := ((h.peer_iff _ _ hobj).mp hp).2 i
    rw [hw, unclosed_closing_iff hc] at hs
    exact hs rfl

/-- Overlapping or not, the handler's calls do not touch the network. -/
theorem tls_handler_network (str : Bytes) (world : H × TlsNetwork) :
    (s.handler (tlsCallPolicies handle overlapped) str world).2.2 = world.2 := by
  unfold handler
  split <;> rfl

theorem Wired.work (h : Wired s) (hs : Work (tlsCallPolicies handle overlapped) s i t) :
    Wired t := by
  have ht : TracksHandled t := h.tracks.work hs
  cases hs with
  | begin task hw =>
    refine h.call ht (.inl hw) (.inl fun _ _ _ hp => ?_) rfl rfl rfl rfl
    cases hp
  | answer task response world hw hh =>
    have hworld : world.2 = s.world.2 := by
      rw [← tls_handler_network _ s.world, hh]
    refine h.call ht (.inr hw) (.inl fun _ _ _ hp => ?_) rfl rfl rfl hworld
    cases hp
  | refuse task world hw hh =>
    have hworld : world.2 = s.world.2 := by
      rw [← tls_handler_network _ s.world, hh]
    exact h.call ht (.inr hw) (.inr rfl) rfl rfl rfl hworld
  | fail task hw hh =>
    refine h.call ht (.inr hw) (.inl fun _ _ _ hp => ?_) rfl rfl rfl (tls_handler_network _ _)
    cases hp
  | send task response hw hs => exact h.send hw ht
  | sendFail task response hw hs => exact absurd ⟨(), rfl⟩ hs
  | close task call hw =>
    obtain rfl := last_of_suffix (h.calls i task call [] hw)
    have hne : TlsCall.wolfSSL_free ≠ .close := by decide
    refine h.late ht hw hne rfl rfl (fun k => stillOpen_goTo rfl rfl ?_) (h.calls_goTo rfl ?_)
    · rw [hw, unclosed_closing_iff hne]
      show k ∉ s.closed ++ [task.number] ∧ _ ↔ _
      rw [List.mem_append, List.mem_singleton, not_or, and_assoc]
      refine and_congr_right fun _ => ?_
      have hu : Unclosed (.popping : WorkerPc HTTPSConnectionObject TlsCall) k := nofun
      exact ⟨fun hk => Ne.symm hk.1, fun hk => ⟨Ne.symm hk, hu⟩⟩
    · nofun
  | closeOn task call next rest hw =>
    have hsuffix := h.calls i task call (next :: rest) hw
    have hnext := next_of_suffix hsuffix
    by_cases hc : call = .close
    · subst hc
      exact h.close hw hnext ht
    · refine h.late ht hw hc rfl rfl (fun k => stillOpen_goTo rfl rfl ?_) (h.calls_goTo rfl ?_)
      · rw [hw, unclosed_closing_iff hc, unclosed_closing_iff hnext]
        exact Iff.rfl
      · rintro _ _ _ ⟨⟩
        exact (List.suffix_cons _ _).trans hsuffix

theorem getElem?_concat {C : Type} {tasks : List C} {obj obj' : C}
    (h : (tasks ++ [obj])[k]? = some obj') :
    tasks[k]? = some obj' ∨ (k = tasks.length ∧ obj = obj') := by
  rcases Nat.lt_or_ge k tasks.length with hlt | hge
  · exact .inl ((List.getElem?_append_left hlt).symm.trans h)
  · rw [List.getElem?_append_right hge, List.getElem?_singleton] at h
    split at h
    · exact .inr ⟨by omega, Option.some.inj h⟩
    · cases h

/-- A connection comes with a descriptor that nobody has. -/
theorem Wired.addTask (h : Wired s) {obj : HTTPSConnectionObject} (hp : s.queue.pusher = .idle)
    (hfd : s.world.2.peer obj.client_fd = none)
    (hssl : ∀ ssl, obj.ssl = some ssl → ∀ (k : Nat) (obj' : HTTPSConnectionObject),
      s.tasks[k]? = some obj' → obj'.ssl ≠ some ssl) :
    Wired { s with
      tasks := s.tasks ++ [obj]
      queue := stepPush s.queue
      world := connect s.tasks.length obj s.world } := by
  have hold {k : Nat} {obj' : HTTPSConnectionObject} (ho : s.tasks[k]? = some obj') :
      (s.tasks ++ [obj])[k]? = some obj' := by
    rw [List.getElem?_append_left (List.getElem?_eq_some_iff.mp ho).1]
    exact ho
  -- nothing has happened to the new task yet
  have hnew : StillOpen s s.tasks.length := by
    have hlt := h.tracks.handed_lt
    refine ⟨fun hm => ?_, fun i task call rest hi hk => ?_⟩
    · exact Nat.lt_irrefl _
        (hlt _ (h.tracks.started_handed _ (h.tracks.closed_started _ hm)))
    · have hm := h.tracks.task_handed i task (congrArg WorkerPc.task hi)
      exact absurd (hlt _ hm) (hk ▸ Nat.lt_irrefl _)
  refine ⟨{ h.tracks with toTracks := h.tracks.addTask connect obj hp }, ?_, ?_, ?_, h.calls, ?_⟩
  · intro fd k hk
    by_cases he : fd = obj.client_fd
    · subst he
      have hk' : Function.update s.world.2.peer obj.client_fd (some s.tasks.length)
        obj.client_fd = some k := hk
      rw [Function.update_self] at hk'
      obtain rfl := Option.some.inj hk'
      exact ⟨obj, List.getElem?_concat_length, rfl⟩
    · obtain ⟨obj', ho, hfd'⟩ := h.peer_task fd k ((Function.update_of_ne he _ _).symm.trans hk)
      exact ⟨obj', hold ho, hfd'⟩
  · intro k obj' ho
    show Function.update s.world.2.peer obj.client_fd (some s.tasks.length) obj'.client_fd =
      some k ↔ StillOpen s k
    rcases getElem?_concat ho with ho | ⟨rfl, rfl⟩
    · have hne : k ≠ s.tasks.length := Nat.ne_of_lt (List.getElem?_eq_some_iff.mp ho).1
      rw [← h.peer_iff k obj' ho]
      by_cases he : obj'.client_fd = obj.client_fd
      · rw [he, Function.update_self, hfd]
        exact iff_of_false (fun hk => hne (Option.some.inj hk).symm) nofun
      · rw [Function.update_of_ne he]
    · rw [Function.update_self]
      exact iff_of_true rfl hnew
  · intro k k' o o' ssl ho ho' hk hk'
    rcases getElem?_concat ho with ho | ⟨rfl, rfl⟩
    · rcases getElem?_concat ho' with ho' | ⟨rfl, rfl⟩
      · exact h.ssl_unique k k' o o' ssl ho ho' hk hk'
      · exact absurd hk (hssl ssl hk' k o ho)
    · rcases getElem?_concat ho' with ho' | ⟨rfl, rfl⟩
      · exact absurd hk' (hssl ssl hk k' o' ho')
      · rfl
  · intro k record hm
    have hr := h.received k record hm
    cases record with
    | data ssl response => exact hr.imp fun _ hr => ⟨hold hr.1, hr.2⟩
    | closeNotify ssl => exact hr.imp fun _ hr => ⟨hold hr.1, hr.2⟩

theorem Wired.step (h : Wired s) (hc : TlsPermitted s event)
    (hs : Step (tlsCallPolicies handle overlapped) connect kept s event t) : Wired t := by
  have ht : TracksHandled t := h.tracks.step hc.1 hs
  cases hs with
  | addTask obj hp =>
    obtain ⟨hfd, hssl⟩ := hc.2 obj rfl
    exact h.addTask hp hfd hssl
  | push hp => exact h.keep ht rfl rfl (fun _ => Iff.rfl) h.calls fun _ _ => .inl
  | poll i spurious hw hp => exact h.keep ht rfl rfl (fun _ => Iff.rfl) h.calls fun _ _ => .inl
  | receive i spurious task hw hp htask =>
    refine h.keep ht rfl rfl (fun k => stillOpen_goTo rfl rfl ?_) (h.calls_goTo rfl ?_)
      fun _ _ => .inl
    · have hu : Unclosed (.popped task : WorkerPc HTTPSConnectionObject TlsCall) k := nofun
      exact and_congr_right fun _ => iff_of_true hu (unclosed_of_eq hw nofun k)
    · nofun
  | work i t hs => exact h.work hs

/-! ## Runs -/

/-- **No connection of the pool receives another one's response, or its own alert.** -/
theorem tlsPool_records (handle overlapped : Bytes → H → Outcome (Option Bytes) × H) (kept : Bool)
    (h : H) (sessions : Nat → TlsSession) (events : List (Event HTTPSConnectionObject num_threads))
    (s : Threadpool HTTPSConnectionObject (H × TlsNetwork) TlsCall num_threads)
    (hc : StepsMeet TlsPermitted (step (tlsCallPolicies handle overlapped) connect kept)
      (new HTTPSConnectionObject TlsCall num_threads (h, { sessions := sessions })) events)
    (hr : run (step (tlsCallPolicies handle overlapped) connect kept)
      (new HTTPSConnectionObject TlsCall num_threads (h, { sessions := sessions })) events =
        some s) :
    ∀ (k : Nat) (record : Record), (k, record) ∈ s.world.2.received → Rightly s.tasks k record :=
  (run_invariant (fun _ _ _ h hc hs => h.step hc (step_of_eq hs).2) (wired_new h sessions) hc
    hr).received

/-- A handler that answers nothing. -/
def refuseAll (_request : Bytes) (_world : Unit) : Outcome (Option Bytes) × Unit := (ret none, ())

/-- The descriptor 5 is given out again between `close` and `wolfSSL_shutdown`. -/
def reuse : List (Event HTTPSConnectionObject 4) :=
  .addTask ⟨5, some 7, []⟩ :: List.replicate 3 .push ++
    List.replicate 5 (.pop (Fin.last 3) false) ++ List.replicate 3 (.work (Fin.last 3)) ++
    [.addTask ⟨5, some 8, []⟩, .work (Fin.last 3)]

/-- The alert of the first connection arrives at the second one. -/
theorem tlsPool_records_reuse : ∃ s,
    run (step (tlsCallPolicies refuseAll refuseAll) connect false)
      (new HTTPSConnectionObject TlsCall 4 ((), { sessions := fun _ => blocksOnce })) reuse =
        some s ∧
    (1, .closeNotify 7) ∈ s.world.2.received ∧ Rightly s.tasks 1 (.closeNotify 7) := by
  have hpop {s : Threadpool HTTPSConnectionObject (Unit × TlsNetwork) TlsCall 4}
      (h : ∀ head, s.queue.pops (Fin.last 3) = .checked head → s.queue.queue.empty = false) :
      TlsPermitted s (.pop (Fin.last 3) false) := ⟨fun head hp _ _ => h head hp, nofun⟩
  have hfree : ∀ obj : HTTPSConnectionObject, ∀ ssl, obj.ssl = some ssl → ∀ (k : Nat)
      (obj' : HTTPSConnectionObject), ([] : List HTTPSConnectionObject)[k]? = some obj' →
        obj'.ssl ≠ some ssl := nofun
  have hother : ∀ ssl, some 8 = some ssl → ∀ (k : Nat) (obj' : HTTPSConnectionObject),
      ([⟨5, some 7, []⟩] : List HTTPSConnectionObject)[k]? = some obj' →
        obj'.ssl ≠ some ssl := by
    rintro _ ⟨⟩ k obj' ho
    obtain ⟨hk, rfl⟩ := List.getElem?_eq_some_iff.mp ho
    obtain rfl : k = 0 := Nat.lt_one_iff.mp hk
    nofun
  obtain ⟨s, ⟨hc, hr⟩, hm⟩ : ∃ s,
      (StepsMeet TlsPermitted (step (tlsCallPolicies refuseAll refuseAll) connect false)
        (new HTTPSConnectionObject TlsCall 4 ((), { sessions := fun _ => blocksOnce })) reuse ∧
      run (step (tlsCallPolicies refuseAll refuseAll) connect false)
        (new HTTPSConnectionObject TlsCall 4 ((), { sessions := fun _ => blocksOnce })) reuse =
          some s) ∧ (1, .closeNotify 7) ∈ s.world.2.received :=
    ⟨_, meets_run_cons ⟨trivial, fun obj he => by cases he; exact ⟨rfl, hfree _⟩⟩ rfl
      (meets_run_cons ⟨⟨fun _ _ _ => nofun, nofun⟩, nofun⟩ rfl
      (meets_run_cons ⟨⟨nofun, fun _ _ _ => rfl⟩, nofun⟩ rfl
      (meets_run_cons ⟨⟨nofun, nofun⟩, nofun⟩ rfl
      (meets_run_cons (hpop nofun) rfl (meets_run_cons (hpop nofun) rfl
      (meets_run_cons (hpop fun _ _ => rfl) rfl (meets_run_cons (hpop nofun) rfl
      (meets_run_cons (hpop nofun) rfl (meets_run_cons ⟨trivial, nofun⟩ rfl
      (meets_run_cons ⟨trivial, nofun⟩ rfl (meets_run_cons ⟨trivial, nofun⟩ rfl
      (meets_run_cons ⟨trivial, fun obj he => by cases he; exact ⟨rfl, hother⟩⟩ rfl
      (meets_run_cons ⟨trivial, nofun⟩ rfl ⟨trivial, rfl⟩))))))))))))),
      List.mem_singleton_self _⟩
  exact ⟨s, hr, hm, tlsPool_records refuseAll refuseAll false () (fun _ => blocksOnce) reuse s hc hr 1
    (.closeNotify 7) hm⟩

end Threadpool

end SimpleServ.RequestProcessing
