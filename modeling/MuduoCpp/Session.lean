import MuduoCpp.Lib.Run
import MuduoCpp.Registration

/-!
# A connection on its loop

The runs of one connection from `newConnection` on: the poller reports any mask, the kernel gives
any answer, the user calls `send`, `sendFile` and `shutdown` from the loop's thread or from the
threads of the type `τ`, and the server destroys the connection when it likes.

A public call on the loop's thread is one step.  On another thread the test of `state_`, the store
of `shutdown()` and the push of the task are steps of their own, and any steps of the loop may come
between them.  Tasks are taken from one queue in their order; that `doPendingFunctors` swaps them
out in batches only rules out some of these runs.  While the channel is in `activeChannels_` or one
of its callbacks still has to run, no task runs.

The state keeps four records that no step reads: whose call a task comes from, what the calls that
passed the test of `state_` asked to be sent (`accepted`), what was taken of it (`given`), and the
effects so far (`log`).
-/

namespace Muduo

/-- Where another thread is: in `shutdown()` after it has read `kConnected`, or about to queue a
task. -/
inductive Caller (β : Type)
  | idle
  | loaded
  | sending (data : List β)
  | sendingFile (file : List β) (offset count : ℕ)
  | stored
  deriving Repr

namespace Caller

variable {β : Type}

/-- The thread is in no call. -/
def isIdle : Caller β → Bool
  | .idle => true
  | _ => false

/-- The thread has read `kConnected` in `shutdown()` and has not stored yet. -/
def isLoaded : Caller β → Bool
  | .loaded => true
  | _ => false

/-- The task that the thread is about to queue. -/
def task : Caller β → Option (Task β)
  | .sending data => some (.sendInLoop data)
  | .sendingFile file offset count => some (.sendFileInLoop file offset count)
  | .stored => some .shutdownInLoop
  | _ => none

/-- The data of a `send` that the thread is about to queue. -/
def sendBytes : Caller β → List β
  | .sending data => data
  | _ => []

theorem sendBytes_of_task {c : Caller β} {task : Task β} (h : c.task = some task) :
    c.sendBytes = task.sendBytes := by
  cases c <;> simp_all [Caller.task, sendBytes] <;> subst h <;> rfl

theorem sendBytes_of_isIdle {c : Caller β} (h : c.isIdle = true) : c.sendBytes = [] := by
  cases c <;> simp_all [isIdle, sendBytes]

end Caller

/-- A value with the thread whose call it comes from; `none` is the loop's thread. -/
abbrev From (τ α : Type) := Option τ × α

/-- A connection on its loop, with the calls of other threads. -/
structure Session (τ β : Type) where
  conn : TcpConnection β
  poller : EPollPoller Unit
  /-- The channel is in `activeChannels_` and its `handleEvent` has not been called. -/
  active : Bool
  /-- The callbacks that `handleEventWithGuard` still has to run. -/
  running : List Callback
  pending : List (From τ (Task β))
  caller : τ → Caller β
  accepted : List (From τ (Payload β))
  given : List (From τ (Payload β))
  log : List (Effect β)

namespace Session

variable {τ β : Type}

/-- A step of the loop, or of the thread `t`. -/
inductive Label (τ β : Type)
  | poll (revents : Events)
  | handleEvent
  | closeCallback
  | errorCallback
  | readCallback (r : ReadResult β)
  | writeCallback (r : WriteResult)
  /-- The next task of the queue. -/
  | task (r : WriteResult)
  | send (data : List β) (r : WriteResult)
  | sendFile (file : List β) (offset count : ℕ) (r : WriteResult)
  | shutdown
  /-- The user takes bytes from `inputBuffer_`. -/
  | retrieve (len : ℕ)
  /-- The server queues `connectDestroyed`. -/
  | queueDestroyed
  /-- `~TcpServer` on the loop's own thread. -/
  | connectDestroyed
  | sendTest (t : τ) (data : List β)
  | sendFileTest (t : τ) (file : List β) (offset count : ℕ)
  | shutdownTest (t : τ)
  | shutdownStore (t : τ)
  | push (t : τ)
  deriving DecidableEq, Repr

/-- The head of the queue can run with the result `r`. -/
def taskFits (s : Session τ β) (r : WriteResult) : Bool :=
  match s.pending with
  | [] => false
  | e :: _ => r.nwrote ≤ e.2.asks.length

/-- When a step can be taken. -/
def enabled (s : Session τ β) : Label τ β → Prop
  | .poll _ =>
      s.active = false ∧ s.running = [] ∧ (s.poller.epollfd_ s.conn.channel_.fd_).isSome = true
  | .handleEvent => s.active = true ∧ s.running = []
  | .closeCallback => s.running.head? = some .closeCallback_
  | .errorCallback => s.running.head? = some .errorCallback_
  | .readCallback _ => s.running.head? = some .readCallback_
  | .writeCallback r => s.running.head? = some .writeCallback_ ∧
      r.nwrote ≤ s.conn.outputBuffer_.readableBytes
  | .task r => s.active = false ∧ s.running = [] ∧ s.taskFits r = true
  | .send data r => r.nwrote ≤ data.length
  | .sendFile file offset count r => r.nwrote ≤ ((file.drop offset).take count).length
  | .shutdown | .retrieve _ | .queueDestroyed | .connectDestroyed => True
  | .sendTest t _ | .sendFileTest t _ _ _ | .shutdownTest t => (s.caller t).isIdle = true
  | .shutdownStore t => (s.caller t).isLoaded = true
  | .push t => (s.caller t).task.isSome = true

instance (s : Session τ β) : DecidablePred s.enabled := fun l => by
  cases l <;> unfold enabled <;> infer_instance

theorem exists_pending {s : Session τ β} {r : WriteResult} (h : s.taskFits r = true) :
    ∃ e rest, s.pending = e :: rest := by
  unfold taskFits at h
  cases hp : s.pending with
  | nil => simp [hp] at h
  | cons e rest => exact ⟨e, rest, rfl⟩

/-- A function of the connection has run, in a task or a call of `q`: what it queues is queued for
`q`. -/
def perform (s : Session τ β) (q : Option τ) (res : TcpConnection β × List (Effect β)) :
    Session τ β :=
  let r := res.2.foldl (Effect.register ()) (s.poller, res.1.channel_)
  { s with
    conn := { res.1 with channel_ := r.2 }
    poller := r.1
    pending := s.pending ++ (queued res.2).map fun task => (q, task)
    log := s.log ++ res.2 }

/-- `handleEventWithGuard` has run its next callback. -/
def callback (s : Session τ β) (res : TcpConnection β × List (Effect β)) : Session τ β :=
  ({ s with running := s.running.tail }).perform none res

/-- `setState`. -/
def setState (s : Session τ β) (state : StateE) : Session τ β :=
  { s with conn := { s.conn with state_ := state } }

/-- A call of `q` passes a payload on. -/
def accept (s : Session τ β) (q : Option τ) (p : Payload β) : Session τ β :=
  { s with accepted := s.accepted ++ [(q, p)] }

variable [Inhabited β]

/-- A newly made connection, with `connectEstablished` queued. -/
def init (sockfd : ℤ) (writeComplete highWater : Bool) (mark : ℕ) : Session τ β where
  conn := .init sockfd writeComplete highWater mark
  poller := .empty
  active := false
  running := []
  pending := [(none, .connectEstablished)]
  caller := fun _ => .idle
  accepted := []
  given := []
  log := []

/-- A task of `q` runs. -/
def runTask (s : Session τ β) (q : Option τ) (task : Task β) (r : WriteResult) : Session τ β :=
  { s.perform q (s.conn.runTask r task) with
    given := s.given ++ (s.conn.taken r task).toList.map fun p => (q, p) }

theorem runTask_of_taken {s : Session τ β} {q : Option τ} {task : Task β} {r : WriteResult}
    (h : s.conn.taken r task = none) :
    s.runTask q task r = s.perform q (s.conn.runTask r task) := by
  simp only [runTask, h, Option.toList_none, List.map_nil, List.append_nil]
  rfl

variable [DecidableEq τ]

/-- The thread `t` goes on in its call. -/
def setCaller (s : Session τ β) (t : τ) (c : Caller β) : Session τ β :=
  { s with caller := Function.update s.caller t c }

/-- What a step does. -/
def after (s : Session τ β) : Label τ β → Session τ β
  | .poll revents =>
      { s with
        active := true
        conn := { s.conn with channel_ := { s.conn.channel_ with revents_ := revents } } }
  -- the connection is alive, so `tie_.lock()` succeeds
  | .handleEvent => { s with active := false, running := s.conn.channel_.handleEvent true }
  | .closeCallback => s.callback s.conn.handleClose
  | .errorCallback => s.callback s.conn.handleError
  | .readCallback r => s.callback (s.conn.handleRead r)
  | .writeCallback r => s.callback (s.conn.handleWrite r)
  | .task r =>
      match s.pending with
      | [] => s
      | e :: rest => ({ s with pending := rest }).runTask e.1 e.2 r
  | .send data r =>
      if s.conn.connected then (s.accept none (.send data)).runTask none (.sendInLoop data) r else s
  | .sendFile file offset count r =>
      if s.conn.connected then
        (s.accept none (.file ((file.drop offset).take count))).runTask none
          (.sendFileInLoop file offset count) r
      else s
  | .shutdown =>
      if s.conn.connected then
        (s.setState .kDisconnecting).runTask none .shutdownInLoop (.sent 0)
      else s
  | .retrieve len =>
      { s with conn := { s.conn with inputBuffer_ := s.conn.inputBuffer_.retrieve len } }
  | .queueDestroyed => { s with pending := s.pending ++ [(none, .connectDestroyed)] }
  | .connectDestroyed => s.runTask none .connectDestroyed (.sent 0)
  | .sendTest t data =>
      if s.conn.connected then (s.accept (some t) (.send data)).setCaller t (.sending data) else s
  | .sendFileTest t file offset count =>
      if s.conn.connected then
        (s.accept (some t) (.file ((file.drop offset).take count))).setCaller t
          (.sendingFile file offset count)
      else s
  | .shutdownTest t => if s.conn.connected then s.setCaller t .loaded else s
  | .shutdownStore t => (s.setState .kDisconnecting).setCaller t .stored
  | .push t =>
      { s.setCaller t .idle with
        pending := s.pending ++ (s.caller t).task.toList.map fun task => (some t, task) }

theorem after_task {s : Session τ β} {e : From τ (Task β)} {rest : List (From τ (Task β))}
    (hp : s.pending = e :: rest) (r : WriteResult) :
    s.after (.task r) = ({ s with pending := rest } : Session τ β).runTask e.1 e.2 r := by
  simp only [after, hp]

/-- One step of any thread. -/
def step : Session τ β → Label τ β → Option (Session τ β) := Lts.guarded enabled after

/-! ### What `perform` changes -/

section Perform

variable (s : Session τ β) (p : Option τ) (res : TcpConnection β × List (Effect β))

omit [Inhabited β] [DecidableEq τ]

@[simp] theorem perform_log : (s.perform p res).log = s.log ++ res.2 := rfl
@[simp] theorem perform_pending : (s.perform p res).pending =
    s.pending ++ (queued res.2).map fun task => (p, task) := rfl
@[simp] theorem perform_accepted : (s.perform p res).accepted = s.accepted := rfl
@[simp] theorem perform_given : (s.perform p res).given = s.given := rfl
@[simp] theorem perform_active : (s.perform p res).active = s.active := rfl
@[simp] theorem perform_running : (s.perform p res).running = s.running := rfl
@[simp] theorem perform_caller : (s.perform p res).caller = s.caller := rfl
@[simp] theorem perform_state : (s.perform p res).conn.state_ = res.1.state_ := rfl
@[simp] theorem perform_output : (s.perform p res).conn.outputBuffer_ = res.1.outputBuffer_ := rfl

theorem perform_channel :
    ∃ i, (s.perform p res).conn.channel_ = { res.1.channel_ with index_ := i } :=
  Effect.foldl_register () res.2 _

@[simp] theorem perform_isWriting :
    (s.perform p res).conn.channel_.isWriting = res.1.channel_.isWriting := by
  obtain ⟨i, hi⟩ := s.perform_channel p res
  rw [hi]
  rfl

@[simp] theorem perform_isReading :
    (s.perform p res).conn.channel_.isReading = res.1.channel_.isReading := by
  obtain ⟨i, hi⟩ := s.perform_channel p res
  rw [hi]
  rfl

end Perform

/-- `s'` has the queue and the records of `s`, with more behind them. -/
structure Grows (s s' : Session τ β) : Prop where
  pending : s.pending <+: s'.pending
  given : s.given <+: s'.given
  log : s.log <+: s'.log

/-- Only a task that runs is taken from the queue. -/
theorem grows_after (s : Session τ β) {l : Label τ β} (hl : ∀ r, l ≠ .task r) :
    s.Grows (s.after l) := by
  cases l with
  | task r => exact absurd rfl (hl r)
  | send data r | sendFile file offset count r | shutdown =>
    simp only [after]
    split_ifs
    · exact ⟨List.prefix_append _ _, List.prefix_append _ _, List.prefix_append _ _⟩
    · exact ⟨List.prefix_rfl, List.prefix_rfl, List.prefix_rfl⟩
  | sendTest t data | sendFileTest t file offset count | shutdownTest t =>
    simp only [after]
    split_ifs <;> exact ⟨List.prefix_rfl, List.prefix_rfl, List.prefix_rfl⟩
  | closeCallback | errorCallback | readCallback | writeCallback =>
    exact ⟨List.prefix_append _ _, List.prefix_rfl, List.prefix_append _ _⟩
  | connectDestroyed =>
    exact ⟨List.prefix_append _ _, List.prefix_append _ _, List.prefix_append _ _⟩
  | queueDestroyed | push => exact ⟨List.prefix_append _ _, List.prefix_rfl, List.prefix_rfl⟩
  | poll | handleEvent | retrieve | shutdownStore =>
    exact ⟨List.prefix_rfl, List.prefix_rfl, List.prefix_rfl⟩

/-- The records only grow. -/
theorem records_after (s : Session τ β) (l : Label τ β) :
    s.given <+: (s.after l).given ∧ s.log <+: (s.after l).log := by
  by_cases hl : ∃ r, l = .task r
  · obtain ⟨r, rfl⟩ := hl
    cases hp : s.pending with
    | nil =>
      simp only [after, hp]
      exact ⟨List.prefix_rfl, List.prefix_rfl⟩
    | cons e rest =>
      simp only [after, hp]
      exact ⟨List.prefix_append _ _, List.prefix_append _ _⟩
  · have hgrows := s.grows_after fun r hr => hl ⟨r, hr⟩
    exact ⟨hgrows.given, hgrows.log⟩

theorem log_after (s : Session τ β) (l : Label τ β) : ∃ es, (s.after l).log = s.log ++ es := by
  obtain ⟨es, hes⟩ := (s.records_after l).2
  exact ⟨es, hes.symm⟩

/-! ### Before and after `connectEstablished` -/

/-- Until `connectEstablished` has run, nothing has happened to the connection; it is the next
task. -/
structure Fresh (s : Session τ β) : Prop where
  state : s.conn.state_ = .kConnecting
  index : s.conn.channel_.index_ = .kNew
  events : s.conn.channel_.events_ = 0
  epoll : s.poller.epollfd_ s.conn.channel_.fd_ = none
  output : s.conn.outputBuffer_.content = []
  active : s.active = false
  running : s.running = []
  caller : ∀ t, s.caller t = .idle
  log : ∀ e ∈ s.log, e = .remove
  pending : ∃ q rest, s.pending = (q, .connectEstablished) :: rest ∧
    ∀ e ∈ rest, e.2 = .connectDestroyed

/-- `connectEstablished` is not queued (any more). -/
def Ran (s : Session τ β) : Prop := ∀ e ∈ s.pending, e.2 ≠ .connectEstablished

omit [DecidableEq τ] in
theorem fresh_init (sockfd : ℤ) (writeComplete highWater : Bool) (mark : ℕ) :
    (init sockfd writeComplete highWater mark : Session τ β).Fresh := by
  constructor <;> simp [init, TcpConnection.init, Channel.ofFd, EPollPoller.empty]

omit [Inhabited β] [DecidableEq τ] in
theorem ran_perform {s : Session τ β} (h : s.Ran) {p : Option τ}
    {res : TcpConnection β × List (Effect β)}
    (hq : TcpConnection.QueuesOwn res.2) : (s.perform p res).Ran := by
  intro e he
  rw [perform_pending, List.mem_append] at he
  rcases he with he | he
  · exact h e he
  · obtain ⟨task, htask, rfl⟩ := List.mem_map.1 he
    have hown := hq task htask
    rintro rfl
    cases hown

theorem fresh_after {s : Session τ β} {l : Label τ β} (h : s.Fresh) (hen : s.enabled l) :
    (∃ r, l = .task r) ∨ (s.after l).Fresh := by
  have hnot : s.conn.connected = false := by simp [TcpConnection.connected, h.state]
  cases l with
  | poll revents =>
    have := hen.2.2
    simp [h.epoll] at this
  | handleEvent =>
    have := hen.1
    simp [h.active] at this
  | closeCallback | errorCallback | readCallback r =>
    have : s.running.head? = _ := hen
    simp [h.running] at this
  | writeCallback r =>
    have := hen.1
    simp [h.running] at this
  | task r => exact Or.inl ⟨r, rfl⟩
  | shutdownStore t =>
    have : (s.caller t).isLoaded = true := hen
    simp [h.caller t, Caller.isLoaded] at this
  | push t =>
    have : (s.caller t).task.isSome = true := hen
    simp [h.caller t, Caller.task] at this
  | send | sendFile | shutdown | sendTest | sendFileTest | shutdownTest =>
    right
    simpa [after, hnot] using h
  | retrieve len => exact Or.inr ⟨h.1, h.2, h.3, h.4, h.5, h.6, h.7, h.8, h.9, h.10⟩
  | queueDestroyed =>
    obtain ⟨q, rest, hp, hrest⟩ := h.pending
    refine Or.inr ⟨h.1, h.2, h.3, h.4, h.5, h.6, h.7, h.8, h.9, q,
      rest ++ [(none, .connectDestroyed)], ?_, ?_⟩
    · simp [after, hp]
    · simpa [or_imp, forall_and] using hrest
  | connectDestroyed =>
    obtain ⟨q, rest, hp, hrest⟩ := h.pending
    have hres := TcpConnection.connectDestroyed_of_ne (c := s.conn) (by simp [h.state])
    right
    simp only [after, runTask, TcpConnection.runTask, hres, TcpConnection.taken]
    refine ⟨h.1, rfl, h.3, ?_, h.5, h.6, h.7, h.8, ?_, q, rest, ?_, hrest⟩
    · simp [perform, Effect.register, EPollPoller.removeChannel, h.index, h.epoll]
    · simpa [or_imp, forall_and] using h.log
    · simp [hp, queued, Effect.queued]

omit [DecidableEq τ] in
theorem ran_runTask {s : Session τ β} (h : s.Ran) (q : Option τ) (task : Task β) (r : WriteResult) :
    (s.runTask q task r).Ran :=
  ran_perform h (TcpConnection.queuesOwn_runTask _ _ _)

theorem ran_after {s : Session τ β} (h : s.Ran) (l : Label τ β) : (s.after l).Ran := by
  cases l with
  | closeCallback =>
    exact ran_perform (s := { s with running := _ }) h fun task htask => by cases htask
  | errorCallback =>
    exact ran_perform (s := { s with running := _ }) h fun task htask => by cases htask
  | readCallback r =>
    exact ran_perform (s := { s with running := _ }) h (TcpConnection.queuesOwn_handleRead _ _)
  | writeCallback r =>
    exact ran_perform (s := { s with running := _ }) h (TcpConnection.queuesOwn_handleWrite _ _)
  | task r =>
    simp only [after]
    cases hp : s.pending with
    | nil => exact h
    | cons e rest =>
      refine ran_runTask (fun d hd => h d ?_) _ _ _
      rw [hp]
      exact List.mem_cons_of_mem _ hd
  | send data r | sendFile file offset count r =>
    simp only [after]
    split_ifs
    · exact ran_runTask (s := s.accept none _) h _ _ _
    · exact h
  | shutdown =>
    simp only [after]
    split_ifs
    · exact ran_runTask (s := s.setState .kDisconnecting) h _ _ _
    · exact h
  | connectDestroyed => exact ran_runTask h _ _ _
  | queueDestroyed =>
    intro e he
    rcases List.mem_append.1 he with he | he
    · exact h e he
    · rw [List.mem_singleton.1 he]
      simp
  | push t =>
    intro e he
    rcases List.mem_append.1 he with he | he
    · exact h e he
    · obtain ⟨task, htask, rfl⟩ := List.mem_map.1 he
      have hcaller := Option.mem_toList.1 htask
      cases hc : s.caller t <;> simp_all [Caller.task]
  | sendTest t data | sendFileTest t file offset count | shutdownTest t =>
    simp only [after]
    split_ifs <;> exact h
  | poll | handleEvent | retrieve | shutdownStore => exact h

/-- **`connectEstablished` runs once, and nothing happens before it.** -/
theorem established_after {s : Session τ β} {l : Label τ β} (h : s.Fresh ∨ s.Ran)
    (hen : s.enabled l) : (s.after l).Fresh ∨ (s.after l).Ran := by
  rcases h with h | h
  · rcases fresh_after h hen with ⟨r, rfl⟩ | hfresh
    · obtain ⟨q, rest, hp, hrest⟩ := h.pending
      right
      simp only [after, hp]
      exact ran_runTask (fun e he => by simp [hrest e he]) _ _ _
    · exact Or.inl hfresh
  · exact Or.inr (ran_after h l)

end Session

end Muduo
