import SimpleServ.Lib.Pending
import SimpleServ.RequestProcessing.Threadpool

/-
  The workers of a `Threadpool` against one worker.

  `handle_connection` calls the handler first; what the sender and the closer do behind it
  belongs to one descriptor. So the workers can be taken to handle whole connections one after
  another, in the order in which the handler came back to them: with what they still have to do
  done, the world is the one in which the loop of a single worker over these connections ends
  (`pool_serial`). This needs that a descriptor is not given out again while a connection on
  it is open (`Permitted`), that no two calls of the handler overlap (`CallsApart`), and that
  calls for different descriptors return and do not get in each other's way (`Independent`).
-/

namespace SimpleServ.RequestProcessing

open SimpleServ.Cxx SimpleServ.Lib SimpleServ.Server SimpleServ.Utility
  SimpleServ.Utility.SharedQueue Outcome

/-! ## Lists of numbers -/

theorem filterMap_range_getElem? {α : Type} (l : List α) :
    (List.range l.length).filterMap (fun k => l[k]?) = l := by
  induction l using List.reverseRecOn with
  | nil => rfl
  | append_singleton l x ih =>
    have hold : ∀ k ∈ List.range l.length, (l ++ [x])[k]? = l[k]? :=
      fun k hk => List.getElem?_append_left (List.mem_range.mp hk)
    rw [List.length_append, List.length_singleton, List.range_succ, List.filterMap_append,
      List.filterMap_congr hold, ih]
    simp

/-- A rearrangement that leaves the places where `g` gives something in order. -/
theorem filterMap_eq_of_perm_range {α : Type} {l : List Nat} {n : Nat} {g : Nat → Option α}
    (hp : l.Perm (List.range n))
    (ho : l.Pairwise fun k k' => (g k).isSome = true → (g k').isSome = true → k < k') :
    l.filterMap g = (List.range n).filterMap g := by
  have hsome : ∀ l : List Nat, l.filterMap g = (l.filter fun k => (g k).isSome).filterMap g := by
    intro l
    rw [List.filterMap_filter]
    refine List.filterMap_congr fun k _ => ?_
    cases g k with
    | none => rfl
    | some x => rfl
  have heq : (l.filter fun k => (g k).isSome) = (List.range n).filter fun k => (g k).isSome := by
    refine (hp.filter _).eq_of_pairwise (fun a b _ _ (h : a < b) (h' : b < a) => by omega) ?_ ?_
    · rw [List.pairwise_filter]
      exact ho
    · exact List.Pairwise.filter _ List.pairwise_lt_range
  rw [hsome l, heq, ← hsome]

/-! ## One worker -/

section Loop

variable {C W : Type} {policies : Policies C W}

theorem loop_append {pops : List (Option C)} {world world' : W}
    (h : loop policies pops world = (ret (), world')) (later : List (Option C)) :
    loop policies (pops ++ later) world = loop policies later world' := by
  induction pops generalizing world with
  | nil =>
    cases h
    rfl
  | cons pop pops ih =>
    cases pop with
    | none => exact ih h
    | some obj =>
      rw [List.cons_append, loop]
      rw [loop] at h
      have hreturns : (handleConnection policies obj world).1.Returns := by
        by_contra hn
        have hstop := (andThen_of_not_returns (f := fun _ world => loop policies pops world) hn).1
        rw [h] at hstop
        exact hstop (returns_ret ())
      obtain ⟨_, ha⟩ := hreturns
      rw [andThen_of_ret ha] at h ⊢
      exact ih h

theorem loop_singleton (conn_obj : C) (world : W) :
    loop policies [some conn_obj] world = handleConnection policies conn_obj world := by
  rw [loop]
  cases handleConnection policies conn_obj world with
  | mk outcome next => cases outcome <;> rfl

/-- One more connection behind the ones that the loop has handled. -/
theorem loop_concat {pops : List (Option C)} {world world' : W}
    (h : loop policies pops world = (ret (), world')) (conn_obj : C) :
    loop policies (pops ++ [some conn_obj]) world = handleConnection policies conn_obj world' :=
  (loop_append h _).trans (loop_singleton conn_obj world')

end Loop

/-! ## What is left to do -/

/-- What a call of the sender leaves. -/
def sent {C W K : Type} (policies : CallPolicies C W K) (conn_obj : C) (response : Bytes)
    (world : W) : W := (policies.sendMsg conn_obj response world).2

/-- The sender returns, the handler does not see the calls of sender and closer, and those for
    different descriptors commute. -/
structure Independent {C W K D : Type} (policies : CallPolicies C W K) (key : C → D) : Prop where
  sends_return : SendsReturn policies.toPolicies
  handle_send : ∀ str conn_obj response world,
    policies.handle str (sent policies conn_obj response world) =
      ((policies.handle str world).1,
        sent policies conn_obj response (policies.handle str world).2)
  handle_call : ∀ str k conn_obj world,
    policies.handle str (policies.call k conn_obj world) =
      ((policies.handle str world).1, policies.call k conn_obj (policies.handle str world).2)
  send_send : ∀ conn_obj conn_obj' response response', key conn_obj ≠ key conn_obj' →
    Function.Commute (sent policies conn_obj response) (sent policies conn_obj' response')
  send_call : ∀ conn_obj conn_obj' response k, key conn_obj ≠ key conn_obj' →
    Function.Commute (sent policies conn_obj response) (policies.call k conn_obj')
  call_call : ∀ conn_obj conn_obj' k k', key conn_obj ≠ key conn_obj' →
    Function.Commute (policies.call k conn_obj) (policies.call k' conn_obj')

/-- The closer's calls from one on. -/
def callsFrom {C W K : Type} (policies : CallPolicies C W K) (conn_obj : C) (calls : List K)
    (world : W) : W := calls.foldl (fun world k => policies.call k conn_obj world) world

/-- What a worker still does for its connection, once the handler has come back. -/
def WorkerPc.left {C W K : Type} (policies : CallPolicies C W K) : WorkerPc C K → W → W
  | .answered task response => fun world =>
    policies.closeConnection task.obj (sent policies task.obj response world)
  | .closing task call rest => callsFrom policies task.obj (call :: rest)
  | .popping | .popped _ | .handling _ | .ended => id

section Left

variable {C W K D : Type} {policies : CallPolicies C W K} {key : C → D} {pc : WorkerPc C K}
  {task : Task C} {conn_obj : C} {act : W → W} {calls : List K}

theorem closeConnection_eq_callsFrom (policies : CallPolicies C W K) (conn_obj : C) (world : W) :
    policies.closeConnection conn_obj world =
      callsFrom policies conn_obj (policies.firstCall :: policies.laterCalls) world :=
  policies.closeConnection_eq conn_obj world

theorem callsFrom_commute (h : ∀ k, Function.Commute (policies.call k conn_obj) act)
    (calls : List K) : Function.Commute (callsFrom policies conn_obj calls) act := by
  intro world
  unfold callsFrom
  induction calls generalizing world with
  | nil => rfl
  | cons k calls ih => rw [List.foldl_cons, List.foldl_cons, h k world, ih]

/-- What a worker has left commutes with a function that commutes with its calls. -/
theorem left_commute
    (hsend : ∀ task response, pc = .answered task response →
      Function.Commute (sent policies task.obj response) act)
    (hcall : ∀ task k, pc.task = some task → Function.Commute (policies.call k task.obj) act) :
    Function.Commute (pc.left policies) act := by
  cases pc with
  | popping => exact Function.Commute.id_left
  | popped task => exact Function.Commute.id_left
  | handling task => exact Function.Commute.id_left
  | ended => exact Function.Commute.id_left
  | answered task response =>
    intro world
    show policies.closeConnection _ (sent policies _ _ (act world)) =
      act (policies.closeConnection _ (sent policies _ _ world))
    rw [hsend task response rfl world, closeConnection_eq_callsFrom, closeConnection_eq_callsFrom]
    exact callsFrom_commute (fun k => hcall task k rfl) _ _
  | closing task call rest => exact callsFrom_commute (fun k => hcall task k rfl) _

theorem Independent.left_send (h : Independent policies key)
    (hk : ∀ task, pc.task = some task → key task.obj ≠ key conn_obj) (response : Bytes) :
    Function.Commute (pc.left policies) (sent policies conn_obj response) := by
  refine left_commute (fun task response' hp => ?_) fun task k hp => ?_
  · refine h.send_send _ _ _ _ (hk task ?_)
    rw [hp]
    rfl
  · exact (h.send_call conn_obj task.obj response k (hk task hp).symm).symm

theorem Independent.left_call (h : Independent policies key)
    (hk : ∀ task, pc.task = some task → key task.obj ≠ key conn_obj) (k : K) :
    Function.Commute (pc.left policies) (policies.call k conn_obj) := by
  refine left_commute (fun task response' hp => ?_) fun task k' hp => ?_
  · refine h.send_call _ _ _ _ (hk task ?_)
    rw [hp]
    rfl
  · exact h.call_call _ _ _ _ (hk task hp)

/-- What a worker has left commutes with what another one has left. -/
theorem Independent.left_left (h : Independent policies key) {pc' : WorkerPc C K}
    (hk : ∀ task task', pc.task = some task → pc'.task = some task' →
      key task.obj ≠ key task'.obj) :
    Function.Commute (pc.left policies) (pc'.left policies) := by
  refine (left_commute (fun task response hp => ?_) fun task k hp => ?_).symm
  · refine (h.left_send (fun task' ht => hk task' task ht ?_) response).symm
    rw [hp]
    rfl
  · exact (h.left_call (fun task' ht => hk task' task ht hp) k).symm

/-- The handler's answer does not change by what a worker has left to do. -/
theorem Independent.handle_left (h : Independent policies key) (str : Bytes) (pc : WorkerPc C K)
    (world : W) : policies.handle str (pc.left policies world) =
      ((policies.handle str world).1, pc.left policies (policies.handle str world).2) := by
  have hcalls : ∀ conn_obj calls world,
      policies.handle str (callsFrom policies conn_obj calls world) =
        ((policies.handle str world).1,
          callsFrom policies conn_obj calls (policies.handle str world).2) := by
    intro conn_obj calls world
    unfold callsFrom
    induction calls generalizing world with
    | nil => rfl
    | cons k calls ih => rw [List.foldl_cons, ih, h.handle_call, List.foldl_cons]
  cases pc with
  | popping => rfl
  | popped task => rfl
  | handling task => rfl
  | ended => rfl
  | answered task response =>
    show policies.handle str (policies.closeConnection _ (sent policies _ _ world)) =
      (_, policies.closeConnection _ (sent policies _ _ _))
    rw [closeConnection_eq_callsFrom, closeConnection_eq_callsFrom, hcalls, h.handle_send]
  | closing task call rest => exact hcalls _ _ _

end Left

/-! ## Sockets of different descriptors -/

theorem update_commute {H : Type} {f g : ClientSocket → ClientSocket} {fd fd' : Int}
    (h : fd ≠ fd') : Function.Commute
      (fun world : H × Network => (world.1, Function.update world.2 fd (f (world.2 fd))))
      (fun world => (world.1, Function.update world.2 fd' (g (world.2 fd')))) := by
  intro world
  refine Prod.ext rfl ?_
  show Function.update (Function.update world.2 fd' _) fd (f (Function.update world.2 fd' _ fd)) =
    Function.update (Function.update world.2 fd _) fd' (g (Function.update world.2 fd _ fd'))
  rw [Function.update_of_ne h, Function.update_of_ne h.symm, Function.update_comm h]

/-- The template parameters with a sender that never ends the process. -/
def quiet {C W K : Type} (policies : CallPolicies C W K) : CallPolicies C W K where
  toPolicies := { policies.toPolicies with
    sendMsg := fun conn_obj response world => (ret (), sent policies conn_obj response world) }
  overlapped := policies.overlapped
  firstCall := policies.firstCall
  laterCalls := policies.laterCalls
  call := policies.call
  closeConnection_eq := policies.closeConnection_eq

theorem independent_tcp {H : Type} (handle overlapped : Bytes → H → Outcome (Option Bytes) × H) :
    Independent (quiet (tcpCallPolicies handle overlapped)) HTTPConnectionObject.client_fd where
  sends_return := fun _ _ _ => rfl
  handle_send := fun _ _ _ _ => rfl
  handle_call := fun _ _ _ _ => rfl
  send_send := fun _ _ response response' h => update_commute
    (f := fun socket => socket.send response) (g := fun socket => socket.send response') h
  send_call := fun _ _ response _ h => update_commute (f := fun socket => socket.send response)
    (g := ClientSocket.close) h
  call_call := fun _ _ _ _ h => update_commute (f := ClientSocket.close) (g := ClientSocket.close) h

/-! ## The order of the handlers -/

namespace Threadpool

section Quiet

variable {C W K : Type} {num_threads : Nat} {policies : CallPolicies C W K}
  {arrive : Nat → C → W → W} {kept : Bool} {s t : Threadpool C W K num_threads}
  {event : Event C num_threads} {i : Fin num_threads}

theorem work_quiet (h : s.work policies i = some t) (hterm : t.terminated = false) :
    s.work (quiet policies) i = some t := by
  unfold work at h ⊢
  split at h
  · exact h
  · exact h
  · next task response hw =>
    split at h
    · next world hs =>
      cases h
      rw [show world = sent policies task.obj response s.world from (congrArg Prod.snd hs).symm]
      rfl
    · cases h
      cases hterm
  · exact h
  · exact h
  · cases h
  · cases h

/-- As long as the process is alive, nothing tells the sender from one that always returns. -/
theorem step_quiet (h : step policies arrive kept s event = some t)
    (hterm : t.terminated = false) : step (quiet policies) arrive kept s event = some t := by
  have hs := (step_of_eq h).1
  unfold step at h ⊢
  rw [hs, if_neg Bool.false_ne_true] at h ⊢
  cases event with
  | addTask obj => exact h
  | push => exact h
  | pop i spurious => exact h
  | work i => exact work_quiet h hterm

theorem meets_run_quiet {Cond : Threadpool C W K num_threads → Event C num_threads → Prop}
    {events : List (Event C num_threads)} (hterm : t.terminated = false)
    (hc : StepsMeet Cond (step policies arrive kept) s events)
    (hr : run (step policies arrive kept) s events = some t) :
    StepsMeet Cond (step (quiet policies) arrive kept) s events ∧
      run (step (quiet policies) arrive kept) s events = some t := by
  induction events generalizing s with
  | nil => exact ⟨trivial, hr⟩
  | cons event events ih =>
    obtain ⟨u, hu, hr⟩ := run_cons.mp hr
    have halive : u.terminated = false := by
      cases events with
      | nil =>
        cases hr
        exact hterm
      | cons event' events =>
        obtain ⟨v, hv, -⟩ := run_cons.mp hr
        exact (step_of_eq hv).1
    exact meets_run_cons hc.1 (step_quiet hu halive) (ih (hc.2 u hu) hr)

end Quiet

section Order

variable {C W K D : Type} {num_threads : Nat} {policies : CallPolicies C W K} {key : C → D}
  {kept : Bool} {world : W} {s t : Threadpool C W K num_threads} {event : Event C num_threads}
  {i j : Fin num_threads} {task : Task C} {pc : WorkerPc C K}

/-- The world after every worker is done with the connection in its hands. -/
def settled (policies : CallPolicies C W K) (s : Threadpool C W K num_threads) : W :=
  settle (fun i => (s.workers i).left policies) (List.finRange num_threads) s.world

/-- The connections in the order in which the handler came back from them. -/
def served (s : Threadpool C W K num_threads) : List C := s.handled.filterMap fun k => s.tasks[k]?

/-- The pool is where one worker would be that had handled the connections in this order. -/
structure Serial (policies : CallPolicies C W K) (key : C → D) (world : W)
    (s : Threadpool C W K num_threads) : Prop where
  tracks : TracksHandled s
  keys : ∀ k k' obj obj', k < k' → s.tasks[k]? = some obj → s.tasks[k']? = some obj' →
    key obj = key obj' → k ∈ s.closed
  order : s.handled.Pairwise fun k k' => ∀ obj obj', s.tasks[k]? = some obj →
    s.tasks[k']? = some obj' → key obj = key obj' → k < k'
  goesOn : s.terminated = false →
    loop policies.toPolicies (s.served.map some) world = (ret (), s.settled policies)
  fails : s.terminated = true →
    ¬ (loop policies.toPolicies (s.served.map some) world).1.Returns ∧
      (loop policies.toPolicies (s.served.map some) world).2 = s.settled policies

theorem left_goTo (s : Threadpool C W K num_threads) (i : Fin num_threads) (pc : WorkerPc C K) :
    (fun j => ((s.goTo i pc).workers j).left policies) =
      Function.update (fun j => (s.workers j).left policies) i (pc.left policies) :=
  Function.comp_update (WorkerPc.left policies) s.workers i pc

/-- Nobody has more or less to do after a step that leaves `i` with as much. -/
theorem left_goTo_same (h : pc.left policies = (s.workers i).left policies) :
    (fun j => ((s.goTo i pc).workers j).left policies) =
      fun j => (s.workers j).left policies := by
  rw [left_goTo, h]
  exact Function.update_eq_self i _

theorem settled_new (policies : CallPolicies C W K) (world : W) :
    (new C K num_threads world).settled policies = world :=
  settle_idle (fun _ _ => rfl) world

theorem serial_new (policies : CallPolicies C W K) (key : C → D) (world : W) :
    Serial policies key world (new C K num_threads world) where
  tracks := tracksHandled_new world
  keys := nofun
  order := .nil
  goesOn := fun _ => by
    rw [settled_new]
    rfl
  fails := nofun

/-- The connections in the hands of two workers have different keys. -/
theorem Serial.key_ne (h : Serial policies key world s) {task' : Task C} (hji : j ≠ i)
    (hj : (s.workers j).task = some task') (hi : (s.workers i).task = some task) :
    key task'.obj ≠ key task.obj := by
  intro he
  rcases Nat.lt_trichotomy task'.number task.number with hlt | heq | hgt
  · exact h.tracks.task_open j task' hj (h.keys _ _ _ _ hlt (h.tracks.task_obj j task' hj)
      (h.tracks.task_obj i task hi) he)
  · exact hji (h.tracks.task_unique j i task' task hj hi heq)
  · exact h.tracks.task_open i task hi (h.keys _ _ _ _ hgt (h.tracks.task_obj i task hi)
      (h.tracks.task_obj j task' hj) he.symm)

/-- The handler answers as if every worker were done. -/
theorem handle_settled (hind : Independent policies key) (s : Threadpool C W K num_threads)
    (str : Bytes) : policies.handle str (s.settled policies) =
      ((policies.handle str s.world).1, settle (fun i => (s.workers i).left policies)
        (List.finRange num_threads) (policies.handle str s.world).2) := by
  unfold settled
  induction List.finRange num_threads with
  | nil => rfl
  | cons i rest ih =>
    show policies.handle str ((s.workers i).left policies (settle _ rest s.world)) = _
    rw [hind.handle_left, ih]
    rfl

theorem served_concat (s : Threadpool C W K num_threads)
    (ht : s.tasks[task.number]? = some task.obj) :
    (s.handled ++ [task.number]).filterMap (fun k => s.tasks[k]?) = s.served ++ [task.obj] := by
  rw [List.filterMap_append, served]
  simp [ht]

/-- Where the one worker is after one more connection. -/
theorem Serial.loop_served (h : Serial policies key world s) (hterm : s.terminated = false)
    (ht : s.tasks[task.number]? = some task.obj) :
    loop policies.toPolicies
        (((s.handled ++ [task.number]).filterMap fun k => s.tasks[k]?).map some) world =
      handleConnection policies.toPolicies task.obj (s.settled policies) := by
  rw [served_concat s ht, List.map_append]
  exact loop_concat (h.goesOn hterm) task.obj

/-- A task whose call ends comes behind all those with its key. -/
theorem Serial.order_concat (h : Serial policies key world s) (hw : s.workers i = .handling task) :
    (s.handled ++ [task.number]).Pairwise fun k k' => ∀ obj obj', s.tasks[k]? = some obj →
      s.tasks[k']? = some obj' → key obj = key obj' → k < k' := by
  rw [List.pairwise_append]
  refine ⟨h.order, List.pairwise_singleton _ _, fun k hk k' hk' obj obj' ho ho' he => ?_⟩
  rw [List.mem_singleton.mp hk'] at ho' ⊢
  have hnew := h.tracks.handling_new i task hw
  rcases Nat.lt_trichotomy k task.number with hlt | heq | hgt
  · exact hlt
  · exact absurd (heq ▸ hk) hnew
  · exact absurd (h.tracks.closed_handled _ (h.keys _ _ _ _ hgt ho' ho he.symm)) hnew

/-! ## One step -/

/-- What the others have left commutes with what comes of the connection in the hands of `i`. -/
theorem Serial.others_commute (h : Serial policies key world s) (hind : Independent policies key)
    (hi : (s.workers i).task = some task) (hb : ∀ task', pc.task = some task' → task' = task) :
    ∀ j ∈ List.finRange num_threads, j ≠ i →
      Function.Commute ((s.workers j).left policies) (pc.left policies) := by
  intro j _ hji
  refine hind.left_left fun task' task'' hj hpc => ?_
  rw [hb task'' hpc]
  exact h.key_ne hji hj hi

/-- The handler comes back, and the worker goes on with what comes of it. -/
theorem Serial.finish (h : Serial policies key world s) (hind : Independent policies key)
    (hterm : s.terminated = false) {next : W} (hw : s.workers i = .handling task)
    (hb : pc.task = some task)
    (ht : TracksHandled { s.goTo i pc with
      world := next, handled := s.handled ++ [task.number] })
    (hh : handleConnection policies.toPolicies task.obj (s.settled policies) =
      (ret (), pc.left policies (settle (fun i => (s.workers i).left policies)
        (List.finRange num_threads) next))) :
    Serial policies key world
      { s.goTo i pc with world := next, handled := s.handled ++ [task.number] } where
  tracks := ht
  keys := h.keys
  order := h.order_concat hw
  goesOn := by
    intro _
    have htask : (s.workers i).task = some task := congrArg WorkerPc.task hw
    have hidle : (s.workers i).left policies = id := by
      rw [hw]
      rfl
    refine (h.loop_served hterm (h.tracks.task_obj i task htask)).trans (hh.trans ?_)
    show _ = (ret (), settle (fun j => ((s.goTo i pc).workers j).left policies) _ next)
    rw [left_goTo, settle_begin (List.nodup_finRange _) (List.mem_finRange i) hidle
      (h.others_commute hind htask fun task' ht => Option.some.inj (ht.symm.trans hb))]
  fails := fun hf => absurd (hterm.symm.trans hf) Bool.false_ne_true

/-- A worker makes a call for its connection: the settled world stays as it is. -/
theorem Serial.advance (h : Serial policies key world s) (act : W → W)
    (hterm : s.terminated = false) {closed : List Nat} (hclosed : ∀ k ∈ s.closed, k ∈ closed)
    (ht : TracksHandled { s.goTo i pc with world := act s.world, closed := closed })
    (hleft : (s.workers i).left policies = pc.left policies ∘ act)
    (hc : ∀ j ∈ List.finRange num_threads, j ≠ i →
      Function.Commute ((s.workers j).left policies) act) :
    Serial policies key world { s.goTo i pc with world := act s.world, closed := closed } where
  tracks := ht
  keys := fun k k' obj obj' hlt ho ho' he => hclosed _ (h.keys k k' obj obj' hlt ho ho' he)
  order := h.order
  goesOn := by
    intro _
    refine (h.goesOn hterm).trans ?_
    show _ = (ret (), settle (fun j => ((s.goTo i pc).workers j).left policies) _ (act s.world))
    rw [left_goTo, settle_advance (List.nodup_finRange _) (List.mem_finRange i) hleft hc]
    rfl
  fails := fun hf => absurd (hterm.symm.trans hf) Bool.false_ne_true

theorem Serial.fail (h : Serial policies key world s) (hind : Independent policies key)
    (hterm : s.terminated = false) (hw : s.workers i = .handling task)
    (hh : ¬ (policies.handle (policies.request task.obj) s.world).1.Returns)
    (ht : TracksHandled { s.goTo i .ended with
      world := (policies.handle (policies.request task.obj) s.world).2
      handled := s.handled ++ [task.number]
      terminated := true }) :
    Serial policies key world { s.goTo i .ended with
      world := (policies.handle (policies.request task.obj) s.world).2
      handled := s.handled ++ [task.number]
      terminated := true } where
  tracks := ht
  keys := h.keys
  order := h.order_concat hw
  goesOn := fun hf => absurd hf Bool.true_eq_false.mp
  fails := by
    intro _
    have htask : (s.workers i).task = some task := congrArg WorkerPc.task hw
    have hsame : WorkerPc.left policies .ended = (s.workers i).left policies := by
      rw [hw]
      rfl
    have hsettled := handle_settled hind s (policies.request task.obj)
    have hnot : ¬ (policies.handle (policies.request task.obj) (s.settled policies)).1.Returns := by
      rwa [hsettled]
    obtain ⟨hr, hworld⟩ := handleConnection_of_not_returns hnot
    have hl := h.loop_served hterm (h.tracks.task_obj i task htask)
    show ¬ (loop policies.toPolicies (((s.handled ++ [task.number]).filterMap
        fun k => s.tasks[k]?).map some) world).1.Returns ∧
      (loop policies.toPolicies (((s.handled ++ [task.number]).filterMap
        fun k => s.tasks[k]?).map some) world).2 =
      settle (fun j => ((s.goTo i .ended).workers j).left policies) _ _
    rw [hl, left_goTo_same hsame, hworld, hsettled]
    exact ⟨hr, rfl⟩

/-- A step in which no call of the handler ends, and that leaves as much to do. -/
theorem Serial.keep (h : Serial policies key world s) (ht : TracksHandled t)
    (htasks : t.tasks = s.tasks) (hhandled : t.handled = s.handled) (hclosed : t.closed = s.closed)
    (hterm : t.terminated = s.terminated) (hset : t.settled policies = s.settled policies) :
    Serial policies key world t := by
  have hserved : t.served = s.served := by rw [served, served, htasks, hhandled]
  refine ⟨ht, ?_, ?_, ?_, ?_⟩
  · rw [htasks, hclosed]
    exact h.keys
  · rw [htasks, hhandled]
    exact h.order
  · rw [hterm, hserved, hset]
    exact h.goesOn
  · rw [hterm, hserved, hset]
    exact h.fails

/-- A worker goes on to where it has no more and no less to do. -/
theorem settled_goTo (pc : WorkerPc C K) (h : pc.left policies = (s.workers i).left policies)
    (hworkers : t.workers = (s.goTo i pc).workers) (hworld : t.world = s.world) :
    t.settled policies = s.settled policies := by
  rw [settled, settled, hworkers, hworld, left_goTo_same h]

theorem Serial.work (h : Serial policies key world s) (hind : Independent policies key)
    (hterm : s.terminated = false) (hcalls : s.handler policies = policies.handle)
    (hs : Work policies s i t) : Serial policies key world t := by
  have ht : TracksHandled t := h.tracks.work hs
  cases hs with
  | begin task hw =>
    refine h.keep ht rfl rfl rfl rfl (settled_goTo (.handling task) ?_ rfl rfl)
    rw [hw]
    rfl
  | answer task response next hw hh =>
    rw [hcalls] at hh
    refine h.finish hind hterm hw rfl ht ?_
    have hsettled := handle_settled hind s (policies.request task.obj)
    rw [hh] at hsettled
    rw [handleConnection_some hsettled, andThen_of_ret (hind.sends_return _ _ _)]
    rfl
  | refuse task next hw hh =>
    rw [hcalls] at hh
    refine h.finish hind hterm hw rfl ht ?_
    have hsettled := handle_settled hind s (policies.request task.obj)
    rw [hh] at hsettled
    rw [handleConnection_none hsettled]
    exact congrArg (Prod.mk _) (closeConnection_eq_callsFrom policies task.obj _)
  | fail task hw hh =>
    rw [hcalls] at hh ht ⊢
    exact h.fail hind hterm hw hh ht
  | send task response hw hs =>
    have htask : (s.workers i).task = some task := congrArg WorkerPc.task hw
    refine h.advance (sent policies task.obj response) hterm (fun _ hk => hk) ht ?_
      fun j _ hji => hind.left_send (fun task' hj => h.key_ne hji hj htask) response
    rw [hw]
    funext w
    exact closeConnection_eq_callsFrom policies task.obj _
  | sendFail task response hw hs => exact absurd ⟨(), hind.sends_return _ _ _⟩ hs
  | close task call hw =>
    have htask : (s.workers i).task = some task := congrArg WorkerPc.task hw
    refine h.advance (policies.call call task.obj) hterm (fun _ hk => List.mem_append_left _ hk) ht ?_
      fun j _ hji =>
      hind.left_call (fun task' hj => h.key_ne hji hj htask) call
    rw [hw]
    rfl
  | closeOn task call next rest hw =>
    have htask : (s.workers i).task = some task := congrArg WorkerPc.task hw
    refine h.advance (policies.call call task.obj) hterm (fun _ hk => hk) ht ?_ fun j _ hji =>
      hind.left_call (fun task' hj => h.key_ne hji hj htask) call
    rw [hw]
    rfl

/-- A connection is added whose key no open connection has. -/
theorem Serial.addTask (h : Serial policies key world s) {obj : C}
    (hc : ∀ k obj', s.tasks[k]? = some obj' → key obj' = key obj → k ∈ s.closed)
    (hp : s.queue.pusher = .idle) :
    Serial policies key world
      { s with tasks := s.tasks ++ [obj], queue := stepPush s.queue } := by
  have hold : ∀ k ∈ s.handled, (s.tasks ++ [obj])[k]? = s.tasks[k]? := by
    intro k hk
    exact List.getElem?_append_left (h.tracks.handed_lt k
      (h.tracks.started_handed k (h.tracks.handled_started k hk)))
  have hserved : (s.handled.filterMap fun k => (s.tasks ++ [obj])[k]?) = s.served :=
    List.filterMap_congr hold
  have ht : Tracks { s with tasks := s.tasks ++ [obj], queue := stepPush s.queue } :=
    h.tracks.addTask (fun _ _ w => w) obj hp
  refine ⟨{ h.tracks with toTracks := ht }, ?_, ?_, ?_, ?_⟩
  · intro k k' obj' obj'' hlt ho ho' he
    dsimp only at ho ho'
    have hk' : k' < (s.tasks ++ [obj]).length := (List.getElem?_eq_some_iff.mp ho').1
    rw [List.length_append, List.length_singleton] at hk'
    rw [List.getElem?_append_left (by omega)] at ho
    rcases Nat.lt_or_ge k' s.tasks.length with hk' | hge
    · rw [List.getElem?_append_left hk'] at ho'
      exact h.keys k k' obj' obj'' hlt ho ho' he
    · obtain rfl : k' = s.tasks.length := by omega
      rw [List.getElem?_concat_length] at ho'
      obtain rfl := Option.some.inj ho'
      exact hc k obj' ho he
  · refine h.order.imp_of_mem fun {k k'} hk hk' hr obj' obj'' ho ho' => hr obj' obj'' ?_ ?_
    · exact (hold k hk).symm.trans ho
    · exact (hold k' hk').symm.trans ho'
  · intro hterm
    show loop _ ((s.handled.filterMap fun k => (s.tasks ++ [obj])[k]?).map some) _ = _
    rw [hserved]
    exact h.goesOn hterm
  · intro hterm
    show ¬ (loop _ ((s.handled.filterMap fun k => (s.tasks ++ [obj])[k]?).map some) _).1.Returns ∧
      (loop _ ((s.handled.filterMap fun k => (s.tasks ++ [obj])[k]?).map some) _).2 = _
    rw [hserved]
    exact h.fails hterm

theorem Serial.step (h : Serial policies key world s) (hind : Independent policies key)
    (hterm : s.terminated = false) (hcalls : s.handler policies = policies.handle)
    (hc : s.Permitted key event) (hs : Step policies (fun _ _ w => w) kept s event t) :
    Serial policies key world t := by
  have ht : TracksHandled t := h.tracks.step hc.1 hs
  cases hs with
  | addTask obj hp => exact h.addTask (hc.2 obj rfl) hp
  | push hp => exact h.keep ht rfl rfl rfl rfl rfl
  | poll i spurious hw hp => exact h.keep ht rfl rfl rfl rfl rfl
  | receive i spurious task hw hp ho =>
    refine h.keep ht rfl rfl rfl rfl (settled_goTo (.popped task) ?_ rfl rfl)
    rw [hw]
    rfl
  | work i t hs => exact h.work hind hterm hcalls hs

/-! ## Runs -/

/-- Every connection has been handled and closed. -/
theorem Tracks.closed_perm (h : Tracks s) (hd : s.Drained) :
    s.closed.Perm (List.range s.tasks.length) := by
  have hhand : s.inHand = [] := by
    rw [List.eq_nil_iff_forall_not_mem]
    intro k hk
    obtain ⟨i, task, ht, -⟩ := mem_inHand.mp hk
    rw [hd.popping i] at ht
    cases ht
  have hpops : s.withPops = [] := by
    rw [List.eq_nil_iff_forall_not_mem]
    intro k hk
    obtain ⟨i, hi⟩ := mem_withPops.mp hk
    exact hi.not_away (hd.pops_away i)
  have hwait : s.waiting = [] := by
    obtain ⟨hle, hlt, hhead, htail⟩ := h.ledger.counted
    have hadd : s.tasks.length = s.queue.stored := by
      rw [h.added, hd.pusher_idle]
      rfl
    have hsame : s.queue.queue.head_ = s.queue.queue.tail_ := beq_iff_eq.mp hd.empty
    rw [waiting, show s.tasks.length - s.queue.claimed = 0 by omega]
    rfl
  have hc := h.conserved hd.goesOn
  rwa [hhand, hpops, hwait, List.append_nil, List.append_nil, List.append_nil] at hc

theorem TracksHandled.handled_perm (h : TracksHandled s) (hd : s.Drained) :
    s.handled.Perm (List.range s.tasks.length) := by
  rw [List.perm_ext_iff_of_nodup h.handled_nodup List.nodup_range]
  intro k
  rw [← (h.closed_perm hd).mem_iff]
  refine ⟨fun hk => ?_, h.closed_handled k⟩
  have hhanded := h.started_handed k (h.handled_started k hk)
  refine (h.handed_cases hd.goesOn k hhanded).resolve_right ?_
  rintro ⟨i, task, ht, -⟩
  rw [hd.popping i] at ht
  cases ht

/-- Nothing is served that was not added, and nothing twice. -/
theorem TracksHandled.served_subperm (h : TracksHandled s) : s.served.Subperm s.tasks := by
  have hsubset : s.handled ⊆ List.range s.tasks.length := fun k hk =>
    List.mem_range.mpr (h.handed_lt k (h.started_handed k (h.handled_started k hk)))
  obtain ⟨l, hl, hsub⟩ := List.subperm_of_subset h.handled_nodup hsubset
  refine ⟨l.filterMap fun k => s.tasks[k]?, hl.filterMap _, ?_⟩
  have htasks := hsub.filterMap fun k => s.tasks[k]?
  rwa [filterMap_range_getElem?] at htasks

theorem settled_of_drained (policies : CallPolicies C W K) (hd : s.Drained) :
    s.settled policies = s.world := by
  refine settle_idle (fun i _ => ?_) s.world
  rw [hd.popping i]
  rfl

/-- Connections of one key have been served in the order they came. -/
theorem Serial.served_filter [DecidableEq D] (h : Serial policies key world s) (hd : s.Drained)
    (d : D) : (s.served.filter fun obj => key obj = d) = s.tasks.filter fun obj => key obj = d := by
  have hkey : ∀ k : Nat, (Option.filter (fun obj => key obj = d) s.tasks[k]?).isSome = true →
      ∃ obj, s.tasks[k]? = some obj ∧ key obj = d := by
    intro k hk
    obtain ⟨obj, hobj⟩ := Option.isSome_iff_exists.mp hk
    rw [Option.filter_eq_some_iff] at hobj
    exact ⟨obj, hobj.1, of_decide_eq_true hobj.2⟩
  have hall : s.tasks.filter (fun obj => key obj = d) =
      ((List.range s.tasks.length).filterMap fun k => s.tasks[k]?).filter fun obj => key obj = d := by
    rw [filterMap_range_getElem?]
  rw [hall, served, List.filter_filterMap, List.filter_filterMap]
  refine filterMap_eq_of_perm_range (h.tracks.handled_perm hd) (h.order.imp fun hr hk hk' => ?_)
  obtain ⟨obj, ho, he⟩ := hkey _ hk
  obtain ⟨obj', ho', he'⟩ := hkey _ hk'
  exact hr obj obj' ho ho' (he.trans he'.symm)

theorem serial_of_run (hind : Independent policies key) {events : List (Event C num_threads)}
    (hc : StepsMeet (fun s event => s.Permitted key event ∧ s.CallsApart event)
      (step policies (fun _ _ w => w) kept) (new C K num_threads world) events)
    (hr : run (step policies (fun _ _ w => w) kept) (new C K num_threads world) events = some s) :
    Serial policies key world s := by
  refine (run_invariant (I := fun s : Threadpool C W K num_threads =>
    Serial policies key world s ∧ s.clashed = false) ?_ ⟨serial_new policies key world, rfl⟩
      hc hr).1
  rintro s event t ⟨h, hclash⟩ hc hs
  obtain ⟨hterm, hs⟩ := step_of_eq hs
  exact ⟨h.step hind hterm (handler_eq policies hclash) hc.1 hs, clashed_of_step hc.2 hclash hs⟩

/-- **The pool is one worker.** In every permitted run in which no two calls of the handler
    overlap the workers get, with what they still have to do done, to the world in which a single
    worker's loop over the same connections ends, in the order in which the handler came back
    from them; that loop goes on exactly if the process does. Connections of one key keep their
    order, and when the pool has drained every connection is among them. -/
theorem pool_serial (policies : CallPolicies C W K) (key : C → D) (hind : Independent policies key)
    (kept : Bool) (world : W) (events : List (Event C num_threads))
    (s : Threadpool C W K num_threads)
    (hc : StepsMeet (fun s event => s.Permitted key event ∧ s.CallsApart event)
      (step policies (fun _ _ w => w) kept) (new C K num_threads world) events)
    (hr : run (step policies (fun _ _ w => w) kept) (new C K num_threads world) events = some s) :
    ((loop policies.toPolicies (s.served.map some) world).1.Returns ↔ s.terminated = false) ∧
      (loop policies.toPolicies (s.served.map some) world).2 = s.settled policies ∧
      (s.handled.Pairwise fun k k' => ∀ obj obj', s.tasks[k]? = some obj →
        s.tasks[k']? = some obj' → key obj = key obj' → k < k') ∧
      (s.Drained → s.handled.Perm (List.range s.tasks.length) ∧
        s.settled policies = s.world) := by
  have h := serial_of_run hind hc hr
  refine ⟨?_, ?_, h.order, fun hd => ⟨h.tracks.handled_perm hd, settled_of_drained policies hd⟩⟩
  · cases hterm : s.terminated with
    | false => simp [h.goesOn hterm]
    | true => simp [(h.fails hterm).1]
  · cases hterm : s.terminated with
    | false => rw [h.goesOn hterm]
    | true => exact (h.fails hterm).2

end Order

theorem pool_serial_visit : ∃ s,
    run (step (quiet (tcpCallPolicies helloHandler helloHandler)) (fun _ _ w => w) false)
      (new HTTPConnectionObject Unit 4 ((), fun _ => { answers := fun _ => .takes 8 }))
      (visit ⟨5, []⟩) = some s ∧
    (loop (quiet (tcpCallPolicies helloHandler helloHandler)).toPolicies (s.served.map some)
      ((), fun _ => { answers := fun _ => .takes 8 })).2 = s.world := by
  obtain ⟨s, ⟨hc, hr⟩, -, hd⟩ := visit_runs helloHandler helloHandler ⟨5, []⟩ () rfl
    (fun _ => { answers := fun _ => .takes 8 }) rfl
  obtain ⟨hc, hr⟩ := meets_run_quiet hd.goesOn hc hr
  have hs := pool_serial (quiet (tcpCallPolicies helloHandler helloHandler))
    HTTPConnectionObject.client_fd (independent_tcp helloHandler helloHandler) false _ _ s hc hr
  exact ⟨s, hr, hs.2.1.trans (hs.2.2.2 hd).2⟩

end Threadpool

end SimpleServ.RequestProcessing
