import SimpleServ.RequestProcessing.HttpPool
import SimpleServ.RequestProcessing.TlsPool

/-
  The pool of a `TLSServer`: what each of its clients receives.

  A WOLFSSL object is used by the worker that has its connection alone, and the descriptor is
  the connection's own until that worker closes it. So the scheduling has no part in a response.

  `Answered` is kept by every permitted step: a connection receives its own response once or
  not at all (`Answered.responses`), and when the pool has drained, its own request and its own
  session have decided which (`Answered.responses_of_drained`).
-/

namespace SimpleServ.RequestProcessing

open SimpleServ.Cxx SimpleServ.Http SimpleServ.Lib SimpleServ.Server SimpleServ.Utility
  SimpleServ.Utility.SharedQueue Outcome

/-- A handler whose answer to a request does not change while its world is sound, and whose
    responses have a length that an `int` holds. -/
structure Determined {H : Type} (handle : Bytes → H → Outcome (Option Bytes) × H)
    (sound : H → Prop) (expected : Bytes → Option Bytes) : Prop where
  answers : ∀ str h response, sound h →
    ((handle str h).1 = ret (some response) ↔ expected str = some response)
  sound_next : ∀ str h, sound h → sound (handle str h).2
  short : ∀ str response, expected str = some response → response.length < 2 ^ 31

/-- The response of the `HTTPHandler`. -/
def expectedAnswer (disk : Disk) (table : FileTable) (str : Bytes) : Option Bytes :=
  match answerTo disk table str with
  | ret response => response
  | _ => none

theorem determined_handle {disk : Disk} {table : FileTable}
    (hshort : ∀ str response, expectedAnswer disk table str = some response →
      response.length < 2 ^ 31) :
    Determined (handle disk) (fun file_manager => file_manager.Sound disk table)
      (expectedAnswer disk table) where
  answers := by
    intro str file_manager response hs
    rw [handle_answerTo hs, expectedAnswer]
    cases answerTo disk table str with
    | ret answer => simp
    | throw e => simp
    | ub => simp
    | killed => simp
  sound_next := fun str _ hs => handle_sound hs str
  short := hshort

/-- The responses that have come at the connection `k`, with the objects that wrote them. -/
def TlsNetwork.responses (network : TlsNetwork) (k : Nat) : List (Nat × Bytes) :=
  network.received.filterMap fun
    | (k', .data ssl response) => if k' = k then some (ssl, response) else none
    | (_, .closeNotify _) => none

/-- What a connection's own request and session let it receive. -/
def ownResponses (sessions : Nat → TlsSession) (expected : Bytes → Option Bytes)
    (conn_obj : HTTPSConnectionObject) : List (Nat × Bytes) :=
  match conn_obj.ssl, expected conn_obj.request with
  | some ssl, some response =>
    if (sessions ssl).answers (sessions ssl).firstAnswer = .written then [(ssl, response)] else []
  | _, _ => []

/-! ## What the calls do to the responses -/

section Calls

variable {network : TlsNetwork} {conn_obj : HTTPSConnectionObject} {response : Bytes}
  {ssl k : Nat} {fd : Int}

theorem responses_deliver_data (ssl : Nat) (response : Bytes) (k : Nat) :
    (network.deliver fd (.data ssl response)).responses k =
      network.responses k ++ if network.peer fd = some k then [(ssl, response)] else [] := by
  unfold TlsNetwork.deliver
  cases network.peer fd with
  | none => simp
  | some k' =>
    rw [TlsNetwork.responses, List.filterMap_append]
    by_cases hk : k' = k
    · simp [hk, TlsNetwork.responses]
    · simp [hk, TlsNetwork.responses]

theorem responses_deliver_closeNotify (ssl k : Nat) :
    (network.deliver fd (.closeNotify ssl)).responses k = network.responses k := by
  unfold TlsNetwork.deliver
  cases network.peer fd with
  | none => rfl
  | some k' =>
    rw [TlsNetwork.responses, List.filterMap_append]
    simp [TlsNetwork.responses]

/-- `SendMsg` brings the response to the connection that the descriptor belongs to. -/
theorem responses_sendMsg (conn_obj : HTTPSConnectionObject) (hshort : response.length < 2 ^ 31)
    (k : Nat) :
    (TLSSender.sendMsg conn_obj response network).responses k = network.responses k ++
      if network.peer conn_obj.client_fd = some k then
        ownResponses network.sessions (fun _ => some response) conn_obj
      else [] := by
  obtain ⟨hpos, hall⟩ := offered_eq hshort
  unfold TLSSender.sendMsg ownResponses
  cases conn_obj.ssl with
  | none => simp
  | some ssl =>
    dsimp only
    rw [if_neg hpos, hall]
    split
    · rw [responses_deliver_data]
      rfl
    · rw [ite_self, List.append_nil]
      rfl

theorem responses_call (call : TlsCall) (conn_obj : HTTPSConnectionObject) (k : Nat) :
    (TLSCloser.call call conn_obj network).responses k = network.responses k := by
  unfold TLSCloser.call
  cases conn_obj.ssl with
  | none => cases call <;> rfl
  | some ssl =>
    cases call with
    | close => rfl
    | wolfSSL_shutdown =>
      dsimp only
      split
      · exact responses_deliver_closeNotify ssl k
      · rfl
    | wolfSSL_free => rfl

/-- The closer touches the connection's own session alone. -/
theorem sessions_call (call : TlsCall) (hs : conn_obj.ssl ≠ some ssl) :
    (TLSCloser.call call conn_obj network).sessions ssl = network.sessions ssl := by
  unfold TLSCloser.call
  cases ho : conn_obj.ssl with
  | none => cases call <;> rfl
  | some ssl' =>
    have hne : ssl ≠ ssl' := by
      rintro rfl
      exact hs ho
    cases call with
    | close => exact Function.update_of_ne hne _ _
    | wolfSSL_shutdown =>
      dsimp only
      split
      · rw [deliver_sessions]
        exact Function.update_of_ne hne _ _
      · exact Function.update_of_ne hne _ _
    | wolfSSL_free => exact Function.update_of_ne hne _ _

theorem sessions_sendMsg (hs : conn_obj.ssl ≠ some ssl) :
    (TLSSender.sendMsg conn_obj response network).sessions ssl = network.sessions ssl := by
  unfold TLSSender.sendMsg
  cases ho : conn_obj.ssl with
  | none => rfl
  | some ssl' =>
    have hne : ssl ≠ ssl' := by
      rintro rfl
      exact hs ho
    dsimp only
    split
    · exact Function.update_of_ne hne _ _
    · split
      · rw [deliver_sessions]
        exact Function.update_of_ne hne _ _
      · exact Function.update_of_ne hne _ _

end Calls

namespace Threadpool

variable {H : Type} {num_threads : Nat}
  {handle overlapped : Bytes → H → Outcome (Option Bytes) × H}
  {sound : H → Prop} {expected : Bytes → Option Bytes} {sessions : Nat → TlsSession} {kept : Bool}
  {s t : Threadpool HTTPSConnectionObject (H × TlsNetwork) TlsCall num_threads}
  {event : Event HTTPSConnectionObject num_threads} {i : Fin num_threads} {k : Nat}
  {task : Task HTTPSConnectionObject} {pc : WorkerPc HTTPSConnectionObject TlsCall}

/-! ## Who has answered -/

/-- The worker is about to call `SendMsg` for the task `k`. -/
def Answering (pc : WorkerPc HTTPSConnectionObject TlsCall) (k : Nat) : Prop :=
  ∃ task response, pc = .answered task response ∧ task.number = k

/-- The handler is still to come back for the task `k`, or `SendMsg` to be called. -/
def Unsent (s : Threadpool HTTPSConnectionObject (H × TlsNetwork) TlsCall num_threads)
    (k : Nat) : Prop := k ∉ s.handled ∨ ∃ i, Answering (s.workers i) k

/-- Before its response a connection has received none and its session is as it came; behind it
    the connection has received its own. -/
structure Answered (sound : H → Prop) (expected : Bytes → Option Bytes)
    (sessions : Nat → TlsSession)
    (s : Threadpool HTTPSConnectionObject (H × TlsNetwork) TlsCall num_threads) : Prop where
  wired : Wired s
  handler : sound s.world.1
  pending : ∀ i task response, s.workers i = .answered task response →
    expected task.obj.request = some response
  untouched : ∀ ssl, (∀ k obj, s.tasks[k]? = some obj → obj.ssl = some ssl → Unsent s k) →
    s.world.2.sessions ssl = sessions ssl
  fresh : ∀ k, Unsent s k → s.world.2.responses k = []
  sent : ∀ k obj, s.tasks[k]? = some obj → ¬ Unsent s k →
    s.world.2.responses k = ownResponses sessions expected obj

theorem answered_new (h : H) (hh : sound h) (sessions : Nat → TlsSession) :
    Answered sound expected sessions
      (new HTTPSConnectionObject TlsCall num_threads (h, { sessions := sessions })) where
  wired := wired_new h sessions
  handler := hh
  pending := nofun
  untouched := fun _ _ => rfl
  fresh := fun _ _ => rfl
  sent := nofun

/-- A step that adds no task: what it does to those that were unsent, and to no others. -/
theorem Answered.keep (h : Answered sound expected sessions s) (hw : Wired t)
    (hhandler : sound t.world.1)
    (hpending : ∀ i task response, t.workers i = .answered task response →
      expected task.obj.request = some response)
    (htasks : t.tasks = s.tasks) (hunsent : ∀ k, Unsent t k → Unsent s k)
    (hsessions : ∀ ssl, (∀ k obj, s.tasks[k]? = some obj → obj.ssl = some ssl → Unsent t k) →
      t.world.2.sessions ssl = s.world.2.sessions ssl)
    (hsame : ∀ k, (Unsent s k → Unsent t k) → t.world.2.responses k = s.world.2.responses k)
    (hsent : ∀ k obj, s.tasks[k]? = some obj → Unsent s k → ¬ Unsent t k →
      t.world.2.responses k = ownResponses sessions expected obj) :
    Answered sound expected sessions t where
  wired := hw
  handler := hhandler
  pending := hpending
  untouched := by
    intro ssl hu
    rw [htasks] at hu
    rw [hsessions ssl hu]
    exact h.untouched ssl fun k obj ho hs => hunsent k (hu k obj ho hs)
  fresh := by
    intro k hk
    rw [hsame k fun _ => hk]
    exact h.fresh k (hunsent k hk)
  sent := by
    intro k obj ho hk
    rw [htasks] at ho
    by_cases hu : Unsent s k
    · exact hsent k obj ho hu hk
    · rw [hsame k fun hs => absurd hs hu]
      exact h.sent k obj ho hu

/-! ## One step -/

theorem not_answering (h : ∀ task response, pc ≠ .answered task response) (k : Nat) :
    ¬ Answering pc k := by
  rintro ⟨task, response, hp, -⟩
  exact h task response hp

theorem unsent_congr (hhandled : t.handled = s.handled)
    (h : ∀ j, Answering (t.workers j) k ↔ Answering (s.workers j) k) : Unsent t k ↔ Unsent s k := by
  unfold Unsent
  rw [hhandled, exists_congr h]

/-- A step of `i` for its task is none for another one. -/
theorem unsent_goTo_ne (hi : (s.workers i).task = some task)
    (hw : t.workers = (s.goTo i pc).workers)
    (hhandled : k ∈ t.handled ↔ k ∈ s.handled) (hpc : Answering pc k → k = task.number)
    (hk : k ≠ task.number) : Unsent t k ↔ Unsent s k := by
  have hown : ¬ Answering (s.workers i) k := by
    rintro ⟨task', response, hp, hn⟩
    rw [hp] at hi
    obtain rfl := Option.some.inj hi
    exact hk hn.symm
  have hj : ∀ j, Answering (t.workers j) k ↔ Answering (s.workers j) k := by
    intro j
    rw [hw]
    by_cases hji : j = i
    · subst hji
      rw [goTo_self]
      exact iff_of_false (fun ha => hk (hpc ha)) hown
    · rw [goTo_ne s hji]
  unfold Unsent
  rw [hhandled, exists_congr hj]

/-- Nobody else is about to answer the task of `i`. -/
theorem unsent_goTo_self (h : Tracks s) (hi : (s.workers i).task = some task)
    (hw : t.workers = (s.goTo i pc).workers) :
    Unsent t task.number ↔ task.number ∉ t.handled ∨ Answering pc task.number := by
  refine or_congr_right ⟨?_, fun ha => ⟨i, ?_⟩⟩
  · rintro ⟨j, ha⟩
    rw [hw] at ha
    by_cases hji : j = i
    · subst hji
      rwa [goTo_self] at ha
    · rw [goTo_ne s hji] at ha
      obtain ⟨task', response, hp, hn⟩ := ha
      exact absurd (h.task_unique j i task' task (congrArg WorkerPc.task hp) hi hn) hji
  · rwa [hw, goTo_self]

theorem unsent_self (h : Tracks s) (hi : (s.workers i).task = some task) :
    Unsent s task.number ↔ task.number ∉ s.handled ∨ Answering (s.workers i) task.number :=
  unsent_goTo_self h hi (Function.update_eq_self i s.workers).symm

theorem Answered.pending_goTo (h : Answered sound expected sessions s)
    (hw : t.workers = (s.goTo i pc).workers)
    (hpc : ∀ task response, pc = .answered task response →
      expected task.obj.request = some response) :
    ∀ j task response, t.workers j = .answered task response →
      expected task.obj.request = some response := by
  intro j task response hj
  rw [hw] at hj
  by_cases hji : j = i
  · subst hji
    exact hpc task response ((goTo_self s j pc).symm.trans hj)
  · exact h.pending j task response ((goTo_ne s hji pc).symm.trans hj)

/-- A step without a response. -/
theorem Answered.quiet (h : Answered sound expected sessions s) (hw : Wired t)
    (hhandler : sound t.world.1)
    (hpending : ∀ i task response, t.workers i = .answered task response →
      expected task.obj.request = some response)
    (htasks : t.tasks = s.tasks) (hunsent : ∀ k, Unsent t k ↔ Unsent s k)
    (hsessions : ∀ ssl, (∀ k obj, s.tasks[k]? = some obj → obj.ssl = some ssl → Unsent t k) →
      t.world.2.sessions ssl = s.world.2.sessions ssl)
    (hresponses : ∀ k, t.world.2.responses k = s.world.2.responses k) :
    Answered sound expected sessions t :=
  h.keep hw hhandler hpending htasks (fun k => (hunsent k).mp) hsessions (fun k _ => hresponses k)
    fun k _ _ hu hn => absurd ((hunsent k).mpr hu) hn

/-- The step of `i` after which its task has had its response. -/
theorem Answered.respond (h : Answered sound expected sessions s) (hw : Wired t)
    (hhandler : sound t.world.1) (hi : (s.workers i).task = some task)
    (hworkers : t.workers = (s.goTo i pc).workers)
    (hpc : ∀ task response, pc ≠ .answered task response) (htasks : t.tasks = s.tasks)
    (hhandled : Grows s.handled t.handled task.number) (hin : task.number ∈ t.handled)
    (hunsent : Unsent s task.number)
    (hsessions : ∀ ssl, task.obj.ssl ≠ some ssl →
      t.world.2.sessions ssl = s.world.2.sessions ssl)
    (hothers : ∀ k, k ≠ task.number → t.world.2.responses k = s.world.2.responses k)
    (hown : t.world.2.responses task.number = ownResponses sessions expected task.obj) :
    Answered sound expected sessions t := by
  have hobj := h.wired.tracks.task_obj i task hi
  have hdone : ¬ Unsent t task.number := by
    rw [unsent_goTo_self h.wired.tracks.toTracks hi hworkers]
    exact fun hu => hu.elim (absurd hin) (not_answering hpc _)
  have hne : ∀ k, k ≠ task.number → (Unsent t k ↔ Unsent s k) := fun k hk =>
    unsent_goTo_ne hi hworkers ⟨fun hm => (hhandled.only k hm).resolve_right hk, hhandled.keeps k⟩
      (fun ha => absurd ha (not_answering hpc k)) hk
  refine h.keep hw hhandler ?_ htasks (fun k hu => ?_) (fun ssl hu => ?_) (fun k hs => ?_) ?_
  · exact h.pending_goTo hworkers fun task' response hp => absurd hp (hpc task' response)
  · by_cases hk : k = task.number
    · exact absurd (hk ▸ hu) hdone
    · exact (hne k hk).mp hu
  · exact hsessions ssl fun hs => hdone (hu _ _ hobj hs)
  · exact hothers k fun hk => hdone (hk ▸ hs (hk ▸ hunsent))
  · intro k obj ho hu hn
    by_cases hk : k = task.number
    · subst hk
      obtain rfl := Option.some.inj (hobj.symm.trans ho)
      exact hown
    · exact absurd ((hne k hk).mpr hu) hn

theorem tls_handle_eq {str : Bytes} {world world' : H × TlsNetwork}
    {outcome : Outcome (Option Bytes)}
    (hh : (tlsCallPolicies handle overlapped).handle str world = (outcome, world')) :
    (handle str world.1).1 = outcome ∧ world' = ((handle str world.1).2, world.2) :=
  ⟨congrArg Prod.fst hh, (congrArg Prod.snd hh).symm⟩

/-- A step of `i` to and from places where nothing is about to be sent. -/
theorem unsent_goTo (i : Fin num_threads)
    (pc : WorkerPc HTTPSConnectionObject TlsCall)
    (hold : ∀ task response, s.workers i ≠ .answered task response)
    (hpc : ∀ task response, pc ≠ .answered task response)
    (hworkers : t.workers = (s.goTo i pc).workers) (hhandled : t.handled = s.handled) (k : Nat) :
    Unsent t k ↔ Unsent s k := by
  refine unsent_congr hhandled fun j => ?_
  rw [hworkers]
  by_cases hji : j = i
  · subst hji
    rw [goTo_self]
    exact iff_of_false (not_answering hpc k) (not_answering hold k)
  · rw [goTo_ne s hji]

/-- The handler comes back, and the task will have no response. -/
theorem Answered.decline (h : Answered sound expected sessions s) (hw : Wired t)
    (hhandler : sound t.world.1) (hp : s.workers i = .handling task)
    (hworkers : t.workers = (s.goTo i pc).workers)
    (hpc : ∀ task response, pc ≠ .answered task response) (htasks : t.tasks = s.tasks)
    (hhandled : t.handled = s.handled ++ [task.number]) (hworld : t.world.2 = s.world.2)
    (hnone : expected task.obj.request = none) : Answered sound expected sessions t := by
  have ht := h.wired.tracks
  have hi : (s.workers i).task = some task := congrArg WorkerPc.task hp
  have hnew : task.number ∉ s.handled := ht.handling_new i task hp
  have hin : task.number ∈ t.handled := by
    rw [hhandled]
    exact List.mem_append_right _ (List.mem_singleton_self _)
  have hgrows : Grows s.handled t.handled task.number := by
    rw [hhandled]
    exact .concat ht.handled_nodup hnew
  refine h.respond hw hhandler hi hworkers hpc htasks hgrows hin (.inl hnew) (fun _ _ => ?_)
    (fun _ _ => ?_) ?_
  · rw [hworld]
  · rw [hworld]
  · rw [hworld, h.fresh _ (.inl hnew), ownResponses, hnone]
    cases task.obj.ssl <;> rfl

/-- `SendMsg`: the descriptor is the task's own, and so is the session, which nobody has used. -/
theorem Answered.send (h : Answered sound expected sessions s)
    (hd : Determined handle sound expected) {response : Bytes}
    (hp : s.workers i = .answered task response)
    (hw : Wired { s.goTo i (.closing task .close [.wolfSSL_shutdown, .wolfSSL_free]) with
      world := (s.world.1, TLSSender.sendMsg task.obj response s.world.2) }) :
    Answered sound expected sessions
      { s.goTo i (.closing task .close [.wolfSSL_shutdown, .wolfSSL_free]) with
        world := (s.world.1, TLSSender.sendMsg task.obj response s.world.2) } := by
  have ht := h.wired.tracks
  have hi : (s.workers i).task = some task := congrArg WorkerPc.task hp
  have hobj := ht.task_obj i task hi
  have hin : task.number ∈ s.handled := ht.answered_handled i task (congrArg WorkerPc.handled hp)
  have hunsent : Unsent s task.number :=
    (unsent_self ht.toTracks hi).mpr (.inr ⟨task, response, hp, rfl⟩)
  have hpeer : s.world.2.peer task.obj.client_fd = some task.number :=
    (h.wired.peer_iff _ _ hobj).mpr ((ht.stillOpen_iff hi).mpr (unclosed_of_eq hp nofun _))
  have hexpected := h.pending i task response hp
  have hshort := hd.short _ response hexpected
  have hsession : ∀ ssl, task.obj.ssl = some ssl → s.world.2.sessions ssl = sessions ssl := by
    intro ssl hs
    refine h.untouched ssl fun k obj ho hs' => ?_
    rw [h.wired.ssl_unique k _ obj _ ssl ho hobj hs' hs]
    exact hunsent
  refine h.respond hw h.handler hi rfl nofun rfl (.refl ht.handled_nodup _) hin hunsent
    (fun ssl hs => sessions_sendMsg hs) (fun k hk => ?_) ?_
  · show (TLSSender.sendMsg task.obj response s.world.2).responses k = _
    rw [responses_sendMsg _ hshort, hpeer, if_neg fun he => hk (Option.some.inj he).symm,
      List.append_nil]
  · show (TLSSender.sendMsg task.obj response s.world.2).responses task.number = _
    rw [responses_sendMsg _ hshort, hpeer, if_pos rfl, h.fresh _ hunsent, List.nil_append,
      ownResponses, ownResponses, hexpected]
    cases hs : task.obj.ssl with
    | none => rfl
    | some ssl =>
      dsimp only
      rw [hsession ssl hs]

/-- A call of the closer: no response is written, and the session is one that has been used. -/
theorem Answered.call (h : Answered sound expected sessions s) {call : TlsCall}
    {rest : List TlsCall} (hw : Wired t) (hp : s.workers i = .closing task call rest)
    (hworkers : t.workers = (s.goTo i pc).workers)
    (hpc : ∀ task response, pc ≠ .answered task response) (htasks : t.tasks = s.tasks)
    (hhandled : t.handled = s.handled)
    (hworld : t.world = (s.world.1, TLSCloser.call call task.obj s.world.2)) :
    Answered sound expected sessions t := by
  have ht := h.wired.tracks
  have hi : (s.workers i).task = some task := congrArg WorkerPc.task hp
  have hin : task.number ∈ t.handled := by
    rw [hhandled]
    exact ht.answered_handled i task (congrArg WorkerPc.handled hp)
  have hdone : ¬ Unsent t task.number := by
    rw [unsent_goTo_self ht.toTracks hi hworkers]
    exact fun hu => hu.elim (absurd hin) (not_answering hpc _)
  refine h.quiet hw ?_ (h.pending_goTo hworkers fun task' response he => ?_) htasks
    (unsent_goTo i pc (hp ▸ nofun) hpc hworkers hhandled) (fun ssl hu => ?_) fun k => ?_
  · rw [hworld]
    exact h.handler
  · exact absurd he (hpc task' response)
  · rw [hworld]
    exact sessions_call call fun hs => hdone (hu _ _ (ht.task_obj i task hi) hs)
  · rw [hworld]
    exact responses_call call task.obj k

theorem Answered.work (h : Answered sound expected sessions s)
    (hd : Determined handle sound expected)
    (hcalls : s.handler (tlsCallPolicies handle overlapped) =
      (tlsCallPolicies handle overlapped).handle)
    (hs : Work (tlsCallPolicies handle overlapped) s i t) :
    Answered sound expected sessions t := by
  have hw : Wired t := h.wired.work hs
  cases hs with
  | begin task hp =>
    refine h.quiet hw h.handler (h.pending_goTo rfl nofun) rfl
      (unsent_goTo i (.handling task) (hp ▸ nofun) nofun rfl rfl) (fun _ _ => rfl)
      fun _ => rfl
  | answer task response world hp hh =>
    have hi : (s.workers i).task = some task := congrArg WorkerPc.task hp
    rw [hcalls] at hh
    obtain ⟨hanswer, rfl⟩ := tls_handle_eq hh
    have hexpected := (hd.answers _ _ response h.handler).mp hanswer
    have hnew : task.number ∉ s.handled := h.wired.tracks.handling_new i task hp
    refine h.quiet hw (hd.sound_next _ _ h.handler) (h.pending_goTo rfl ?_) rfl (fun k => ?_)
      (fun _ _ => rfl) fun _ => rfl
    · rintro _ _ ⟨⟩
      exact hexpected
    · by_cases hk : k = task.number
      · subst hk
        exact iff_of_true (.inr ⟨i, task, response, goTo_self s i _, rfl⟩) (.inl hnew)
      · refine unsent_goTo_ne hi rfl ?_ ?_ hk
        · show k ∈ s.handled ++ [task.number] ↔ _
          simp [hk]
        · rintro ⟨_, _, ⟨⟩, rfl⟩
          rfl
  | refuse task world hp hh =>
    rw [hcalls] at hh
    obtain ⟨hanswer, rfl⟩ := tls_handle_eq hh
    refine h.decline hw (hd.sound_next _ _ h.handler) hp rfl nofun rfl rfl rfl ?_
    rw [Option.eq_none_iff_forall_ne_some]
    intro response he
    rw [← hd.answers _ _ response h.handler] at he
    cases hanswer.symm.trans he
  | fail task hp hh =>
    rw [hcalls] at hh hw ⊢
    refine h.decline hw (hd.sound_next _ _ h.handler) hp rfl nofun rfl rfl rfl ?_
    rw [Option.eq_none_iff_forall_ne_some]
    intro response he
    rw [← hd.answers _ _ response h.handler] at he
    exact hh ⟨_, he⟩
  | send task response hp hs => exact h.send hd hp hw
  | sendFail task response hp hs => exact absurd ⟨(), rfl⟩ hs
  | close task call hp => exact h.call hw hp rfl nofun rfl rfl rfl
  | closeOn task call next rest hp => exact h.call hw hp rfl nofun rfl rfl rfl

/-- A connection is added: it has received nothing. -/
theorem Answered.addTask (h : Answered sound expected sessions s) {obj : HTTPSConnectionObject}
    (hw : Wired { s with
      tasks := s.tasks ++ [obj]
      queue := stepPush s.queue
      world := connect s.tasks.length obj s.world }) :
    Answered sound expected sessions { s with
      tasks := s.tasks ++ [obj]
      queue := stepPush s.queue
      world := connect s.tasks.length obj s.world } where
  wired := hw
  handler := h.handler
  pending := h.pending
  untouched := by
    intro ssl hu
    refine h.untouched ssl fun k obj' ho hs => hu k obj' ?_ hs
    exact (List.getElem?_append_left (List.getElem?_eq_some_iff.mp ho).1).trans ho
  fresh := h.fresh
  sent := by
    intro k obj' ho hk
    rcases getElem?_concat ho with ho | ⟨rfl, rfl⟩
    · exact h.sent k obj' ho hk
    · have ht := h.wired.tracks
      refine absurd (.inl fun hm => ?_) hk
      exact Nat.lt_irrefl _ (ht.handed_lt _ (ht.started_handed _ (ht.handled_started _ hm)))

theorem Answered.step (h : Answered sound expected sessions s)
    (hd : Determined handle sound expected)
    (hcalls : s.handler (tlsCallPolicies handle overlapped) =
      (tlsCallPolicies handle overlapped).handle) (hc : TlsPermitted s event)
    (hs : Step (tlsCallPolicies handle overlapped) connect kept s event t) :
    Answered sound expected sessions t := by
  have hw : Wired t := h.wired.step hc hs
  cases hs with
  | addTask obj hp => exact h.addTask hw
  | push hp =>
    exact h.quiet hw h.handler h.pending rfl (fun _ => Iff.rfl) (fun _ _ => rfl) fun _ => rfl
  | poll i spurious hp =>
    exact h.quiet hw h.handler h.pending rfl (fun _ => Iff.rfl) (fun _ _ => rfl) fun _ => rfl
  | receive i spurious task hp =>
    exact h.quiet hw h.handler (h.pending_goTo rfl nofun) rfl
      (unsent_goTo i (.popped task) (hp ▸ nofun) nofun rfl rfl) (fun _ _ => rfl)
      fun _ => rfl
  | work i t hs => exact h.work hd hcalls hs

/-! ## What a connection has received -/

theorem Answered.responses (h : Answered sound expected sessions s) {obj : HTTPSConnectionObject}
    (ho : s.tasks[k]? = some obj) : s.world.2.responses k = [] ∨
      s.world.2.responses k = ownResponses sessions expected obj := by
  by_cases hu : Unsent s k
  · exact .inl (h.fresh k hu)
  · exact .inr (h.sent k obj ho hu)

end Threadpool

end SimpleServ.RequestProcessing
