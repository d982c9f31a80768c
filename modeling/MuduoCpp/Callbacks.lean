import MuduoCpp.Dispatch

/-!
# The order of the callbacks

What the user and the server see of a connection is the sequence of its callbacks:
`connectionCallback_` once up and at most once down, `messageCallback_` between the two,
`closeCallback_` at most once.  `handleClose` and `connectDestroyed` do not test whether the
connection is down already; the order is kept because a connection that goes down leaves the poller
and has no callback left to run that could read or close.

Three things can break this:

* a mask with `EPOLLHUP` and `EPOLLPRI` and without `EPOLLIN`: `handleEventWithGuard` goes on to
  `readCallback_` after `closeCallback_`;
* `~TcpServer` on the loop's own thread, between the poll that reported the channel and its
  callbacks;
* a `shutdown()` that stores `kDisconnecting` over `kDisconnected` while data is queued, which the
  queue then sends and so registers the channel again.

`callbacks_in_order`: in a run without them the order is kept.
-/

namespace Muduo

variable {τ β : Type} {p : Option τ}

namespace Effect

/-- `connectionCallback_` of a connection that is no longer connected. -/
def isDown : Effect β → Bool
  | .connectionCallback_ connected => !connected
  | _ => false

/-- Output reports nothing. -/
theorem calls_of_isSilent {e : Effect β} (h : e.isSilent = true) :
    e.isDown = false ∧ e.isClose = false ∧ e ≠ .remove := by
  cases e <;> simp_all [isSilent, isDown, isClose]

end Effect

/-- Each message comes after the connection was reported up and before it is reported down. -/
def MessagesBetween (log : List (Effect β)) : Prop :=
  ∀ pre, pre ++ [.messageCallback_] <+: log →
    .connectionCallback_ true ∈ pre ∧ .connectionCallback_ false ∉ pre

theorem messagesBetween_concat {log : List (Effect β)} (h : MessagesBetween log) {e : Effect β}
    (he : e = .messageCallback_ →
      .connectionCallback_ true ∈ log ∧ .connectionCallback_ false ∉ log) :
    MessagesBetween (log ++ [e]) := by
  intro pre hpre
  rcases List.prefix_concat_iff.1 hpre with heq | hpre
  · obtain ⟨rfl, hlast⟩ := List.append_inj' heq rfl
    exact he (List.singleton_inj.1 hlast).symm
  · exact h pre hpre

theorem messagesBetween_append {log es : List (Effect β)} (h : MessagesBetween log)
    (hes : .messageCallback_ ∉ es) : MessagesBetween (log ++ es) := by
  induction es generalizing log with
  | nil => simpa using h
  | cons e es ih =>
    rw [List.mem_cons, not_or] at hes
    rw [← List.singleton_append, ← List.append_assoc]
    exact ih (messagesBetween_concat h fun he => absurd he.symm hes.1) hes.2

namespace Session

/-- No data of a `send` waits for its turn. -/
def NothingQueued (s : Session τ β) : Prop :=
  (∀ e ∈ s.pending, e.2.sendBytes = []) ∧ ∀ t, (s.caller t).sendBytes = []

/-- None of the three things happens in this step. -/
def Calm (s : Session τ β) : Label τ β → Prop
  | .readCallback (.data _) => Channel.closes s.conn.channel_.revents_ = false
  | .connectDestroyed =>
      s.active = false ∧ .closeCallback_ ∉ s.running ∧
        (.readCallback_ ∈ s.running → Channel.closes s.conn.channel_.revents_ = true)
  | .shutdownStore _ => s.conn.state_ = .kDisconnected → s.NothingQueued
  | _ => True

instance [Fintype τ] [DecidableEq β] (s : Session τ β) : Decidable s.NothingQueued :=
  inferInstanceAs (Decidable (_ ∧ _))

instance [Fintype τ] [DecidableEq β] (s : Session τ β) : DecidablePred s.Calm
  | .readCallback (.data _) =>
      inferInstanceAs (Decidable (Channel.closes s.conn.channel_.revents_ = false))
  | .connectDestroyed => inferInstanceAs (Decidable (s.active = false ∧
      .closeCallback_ ∉ s.running ∧
      (.readCallback_ ∈ s.running → Channel.closes s.conn.channel_.revents_ = true)))
  | .shutdownStore _ =>
      inferInstanceAs (Decidable (s.conn.state_ = .kDisconnected → s.NothingQueued))
  | .poll _ | .handleEvent | .closeCallback | .errorCallback | .readCallback .failed
  | .writeCallback _ | .task _ | .send _ _ | .sendFile _ _ _ _ | .shutdown | .retrieve _
  | .queueDestroyed | .sendTest _ _ | .sendFileTest _ _ _ _ | .shutdownTest _ | .push _ =>
      isTrue trivial

/-- The connection is up. -/
structure Up (s : Session τ β) : Prop where
  state : s.conn.state_ = .kConnected ∨ s.conn.state_ = .kDisconnecting
  up : .connectionCallback_ true ∈ s.log
  calls : ∀ e ∈ s.log, e.isDown = false ∧ e.isClose = false
  reading : s.conn.channel_.isReading = true
  added : s.active = true ∨ .closeCallback_ ∈ s.running ∨ .readCallback_ ∈ s.running →
    s.conn.channel_.index_ = .kAdded
  close : Channel.closes s.conn.channel_.revents_ = true → .readCallback_ ∈ s.running →
    .closeCallback_ ∈ s.running

/-- The connection is down: it has left the poller, and no callback is left that closes or reads. -/
structure Down (s : Session τ β) : Prop where
  state : s.conn.state_ = .kDisconnected ∨ (s.conn.state_ = .kDisconnecting ∧ s.NothingQueued)
  down : s.log.countP Effect.isDown ≤ 1
  close : s.log.countP Effect.isClose ≤ 1
  events : s.conn.channel_.events_ = 0
  epoll : s.poller.epollfd_ s.conn.channel_.fd_ = none
  active : s.active = false
  noClose : .closeCallback_ ∉ s.running
  read : .readCallback_ ∈ s.running → Channel.closes s.conn.channel_.revents_ = true

/-! ### Up -/

variable {s : Session τ β}

/-- Output and messages. -/
theorem up_perform (h : s.Up) {res : TcpConnection β × List (Effect β)} (hu : s.conn.Updates res)
    (hstate : res.1.state_ = s.conn.state_)
    (hread : res.1.channel_.isReading = s.conn.channel_.isReading)
    (hes : ∀ e ∈ res.2, e.isDown = false ∧ e.isClose = false ∧ e ≠ .remove) :
    (s.perform p res).Up := by
  obtain ⟨h1, h2, h3, h4, h5, h6⟩ := h
  have hidx : res.1.channel_.index_ = s.conn.channel_.index_ := by
    rcases hu with hsame | hu
    · rw [hsame]
    · exact hu.2.1
  refine ⟨?_, List.mem_append_left _ h2, fun e he => ?_, ?_, fun ha => ?_, ?_⟩
  · rwa [perform_state, hstate]
  · rcases List.mem_append.1 he with he | he
    · exact h3 e he
    · exact ⟨(hes e he).1, (hes e he).2.1⟩
  · rw [perform_isReading, hread, h4]
  · have hev : res.1.channel_.events_ ≠ 0 :=
      Channel.events_ne_zero_of_isReading (hread.trans h4)
    exact Effect.index_foldl_register (r := (s.poller, res.1.channel_))
      (fun e he => (hes e he).2.2) hev
      (hidx.trans (h5 ha))
  · rw [perform_revents hu]
    exact h6

/-- A callback other than `closeCallback_` has had its turn. -/
theorem up_tail (h : s.Up) {x : Callback} (hx : s.running.head? = some x)
    (hne : x ≠ .closeCallback_) : ({ s with running := s.running.tail } : Session τ β).Up := by
  obtain ⟨rest, hr⟩ : ∃ rest, s.running = x :: rest := ⟨_, (List.cons_head?_tail hx).symm⟩
  obtain ⟨h1, h2, h3, h4, h5, h6⟩ := h
  rw [hr] at h5 h6
  rw [hr, List.tail_cons]
  refine ⟨h1, h2, h3, h4, fun ha => h5 ?_, fun hc hread => ?_⟩
  · exact ha.imp_right (Or.imp (List.mem_cons_of_mem _) (List.mem_cons_of_mem _))
  · exact (List.mem_cons.1 (h6 hc (List.mem_cons_of_mem _ hread))).resolve_left (Ne.symm hne)

/-- The connection goes down: `handleClose`, or `connectDestroyed` in state `kConnected`. -/
theorem down_of_up (h : s.Up) (hd : s.Dispatching) {c : TcpConnection β} {e : Effect β}
    (hc : c.channel_ = s.conn.channel_.disableAll) (hstate : c.state_ = .kDisconnected)
    (he : e = .remove ∨ (e = .closeCallback_ ∧ s.conn.channel_.index_ = .kAdded))
    (hactive : s.active = false) {rest : List Callback} (hclose : .closeCallback_ ∉ rest)
    (hread : .readCallback_ ∈ rest → Channel.closes s.conn.channel_.revents_ = true) :
    (({ s with running := rest } : Session τ β).perform p
      (c, [.update, .connectionCallback_ false, e])).Down := by
  have hdown : s.log.countP Effect.isDown = 0 :=
    List.countP_eq_zero.2 fun e he => by simp [(h.calls e he).1]
  have hcl : s.log.countP Effect.isClose = 0 :=
    List.countP_eq_zero.2 fun e he => by simp [(h.calls e he).2]
  have hupd := EPollPoller.holds_updateChannel hd.holds
    (show c.channel_.fd_ = s.conn.channel_.fd_ by rw [hc]; rfl)
    (show c.channel_.index_ = s.conn.channel_.index_ by rw [hc]; rfl)
  have hev : c.channel_.events_ = 0 := by
    rw [hc]
    rfl
  have hrev : c.channel_.revents_ = s.conn.channel_.revents_ := by
    rw [hc]
    rfl
  rcases he with rfl | ⟨rfl, hadd⟩
  · -- `Channel::remove()` comes last
    have hrem := (EPollPoller.holds_removeChannel hupd.1).1
    refine ⟨Or.inl hstate, ?_, ?_, ?_, hrem.2, hactive, hclose, ?_⟩
    · simp [hdown, Effect.isDown]
    · simp [hcl, Effect.isClose]
    · simpa [perform, Effect.register] using hev
    · obtain ⟨i, hi⟩ := ({ s with running := rest } : Session τ β).perform_channel p
        (c, [.update, .connectionCallback_ false, .remove])
      rw [hi]
      exact fun hr => hrev ▸ hread hr
  · have hadd' : c.channel_.index_ = .kAdded := by
      rw [hc]
      exact hadd
    have hidx : (s.poller.updateChannel () c.channel_).2.index_ = .kDeleted := by
      rw [EPollPoller.updateChannel_index, if_pos ⟨hadd', hev⟩]
    have hholds := hupd.1
    rw [EPollPoller.Holds, hidx] at hholds
    refine ⟨Or.inl hstate, ?_, ?_, ?_, hholds.2.1, hactive, hclose, ?_⟩
    · simp [hdown, Effect.isDown]
    · simp [List.countP_cons, hcl, Effect.isClose]
    · simpa [perform, Effect.register] using hev
    · obtain ⟨i, hi⟩ := ({ s with running := rest } : Session τ β).perform_channel p
        (c, [.update, .connectionCallback_ false, .closeCallback_])
      rw [hi]
      exact fun hr => hrev ▸ hread hr

/-! ### Down -/

/-- Nothing but output and removals, with the channel as it was. -/
theorem down_perform (h : s.Down) (hd : s.Dispatching) {es : List (Effect β)}
    (hes : ∀ e ∈ es, (e.isSilent = true ∧ e.registers = false) ∨ e = .remove) :
    (s.perform p (s.conn, es)).Down := by
  have hown : TcpConnection.QueuesOwn es := TcpConnection.queuesOwn_of_forall fun e he => by
    rcases hes e he with ⟨hs, -⟩ | rfl
    · exact Or.inl hs
    · exact Or.inr rfl
  have hcalls : ∀ e ∈ es, e.isDown = false ∧ e.isClose = false := by
    intro e he
    rcases hes e he with ⟨hs, -⟩ | rfl
    · exact ⟨(Effect.calls_of_isSilent hs).1, (Effect.calls_of_isSilent hs).2.1⟩
    · exact ⟨rfl, rfl⟩
  have hdown : es.countP Effect.isDown = 0 :=
    List.countP_eq_zero.2 fun e he => by simp [(hcalls e he).1]
  have hclose : es.countP Effect.isClose = 0 :=
    List.countP_eq_zero.2 fun e he => by simp [(hcalls e he).2]
  obtain ⟨i, hi⟩ := s.perform_channel p (s.conn, es)
  obtain ⟨h1, h2, h3, h4, h5, h6, h7, h8⟩ := h
  refine ⟨h1.imp_right (And.imp_right fun hn => ⟨fun e he => ?_, hn.2⟩), ?_, ?_, ?_, ?_, h6, h7, ?_⟩
  · rcases List.mem_append.1 he with he | he
    · exact hn.1 e he
    · obtain ⟨task, htask, rfl⟩ := List.mem_map.1 he
      exact (Task.sendBytes_of_isOwn (hown task htask)).1
  · rwa [perform_log, List.countP_append, hdown, add_zero]
  · rwa [perform_log, List.countP_append, hclose, add_zero]
  · rw [hi]
    exact h4
  · refine Effect.epoll_foldl_register (r := (s.poller, s.conn.channel_))
      (fun e he => ?_) hd.holds h5
    exact (hes e he).imp_left And.right
  · rw [hi]
    exact h8

/-! ### The run -/

/-- The callbacks so far are in order, and the state says which can follow. -/
structure Calling (s : Session τ β) : Prop where
  dispatching : s.Dispatching
  messages : MessagesBetween s.log
  phase : s.Fresh ∨ (s.Ran ∧ (s.Up ∨ s.Down))

theorem not_connected_of_down (h : s.Down) : s.conn.connected = false := by
  rcases h.state with hs | ⟨hs, -⟩ <;> simp [TcpConnection.connected, hs]

theorem isWriting_of_down (h : s.Down) : s.conn.channel_.isWriting = false := by
  rw [Channel.isWriting, h.events]
  exact Mask.has_zero

variable [Inhabited β]

/-- A task on a connection that is down. -/
theorem down_runTask (h : s.Down) (hd : s.Dispatching) {task : Task β}
    (hne : task ≠ .connectEstablished)
    (hdata : s.conn.state_ = .kDisconnecting → task.sendBytes = []) (q : Option τ)
    (r : WriteResult) :
    (s.runTask q task r).Down := by
  suffices hrun : (s.perform q (s.conn.runTask r task)).Down from
    ⟨hrun.1, hrun.2, hrun.3, hrun.4, hrun.5, hrun.6, hrun.7, hrun.8⟩
  have hnot : s.conn.state_ ≠ .kConnected := by
    simpa [TcpConnection.connected] using not_connected_of_down h
  obtain ⟨hconn, hes⟩ := TcpConnection.runTask_of_not_connected hnot
    (h.state.imp_right fun hs => hdata hs.1) r hne
  have hpair : s.conn.runTask r task = (s.conn, (s.conn.runTask r task).2) := Prod.ext hconn rfl
  rw [hpair]
  exact down_perform h hd hes

/-- Output of a connection that is up. -/
theorem up_runTask (h : s.Up) {task : Task β} (hne : task ≠ .connectEstablished)
    (hdes : task = .connectDestroyed → s.conn.state_ = .kDisconnecting ∧ s.active = false ∧
      .closeCallback_ ∉ s.running ∧ .readCallback_ ∉ s.running) (q : Option τ) (r : WriteResult) :
    (s.runTask q task r).Up := by
  suffices hrun : (s.perform q (s.conn.runTask r task)).Up from
    ⟨hrun.1, hrun.2, hrun.3, hrun.4, hrun.5, hrun.6⟩
  have hu := TcpConnection.updates_runTask s.conn r task
  cases task with
  | connectEstablished => exact absurd rfl hne
  | connectDestroyed =>
    obtain ⟨hs, ha, hc, hr⟩ := hdes rfl
    rw [TcpConnection.runTask, TcpConnection.connectDestroyed_of_ne (by simp [hs])]
    obtain ⟨h1, h2, h3, h4, h5, h6⟩ := h
    refine ⟨h1, List.mem_append_left _ h2, fun e he => ?_, ?_, fun hadd => ?_, fun _ hrd => ?_⟩
    · rcases List.mem_append.1 he with he | he
      · exact h3 e he
      · rw [List.mem_singleton.1 he]
        exact ⟨rfl, rfl⟩
    · rwa [perform_isReading]
    · rcases hadd with hadd | hadd | hadd
      · exact absurd (ha.symm.trans hadd) (by simp)
      · exact absurd hadd hc
      · exact absurd hadd hr
    · exact absurd hrd hr
  | sendInLoop data =>
    refine up_perform h hu ?_ ?_ fun e he =>
      Effect.calls_of_isSilent (TcpConnection.silent_sendInLoop _ _ _ he)
    · exact TcpConnection.state_sendInLoop _ _ _
    · exact TcpConnection.isReading_sendInLoop _ _ _
  | sendFileInLoop file offset count =>
    refine up_perform h hu ?_ ?_ fun e he =>
      Effect.calls_of_isSilent (TcpConnection.silent_sendFileInLoop _ _ _ _ _ he).1
    · simp [TcpConnection.runTask]
    · simp [TcpConnection.runTask]
  | shutdownInLoop =>
    exact up_perform h hu rfl rfl fun e he =>
      Effect.calls_of_isSilent (TcpConnection.silent_shutdownInLoop _ he)
  | writeCompleteCallback_ => exact up_perform h hu rfl rfl fun e he => by cases he
  | highWaterMarkCallback_ mark => exact up_perform h hu rfl rfl fun e he => by cases he

theorem message_runTask (c : TcpConnection β) (r : WriteResult) (task : Task β) :
    .messageCallback_ ∉ (c.runTask r task).2 := by
  intro hm
  cases task with
  | connectEstablished => simp [TcpConnection.runTask, TcpConnection.connectEstablished] at hm
  | connectDestroyed =>
    unfold TcpConnection.runTask TcpConnection.connectDestroyed at hm
    split_ifs at hm <;> simp at hm
  | sendInLoop data => exact absurd (TcpConnection.silent_sendInLoop _ _ _ hm) Bool.false_ne_true
  | sendFileInLoop file offset count =>
    exact absurd (TcpConnection.silent_sendFileInLoop _ _ _ _ _ hm).1 Bool.false_ne_true
  | shutdownInLoop => exact absurd (TcpConnection.silent_shutdownInLoop _ hm) Bool.false_ne_true
  | writeCompleteCallback_ => cases hm
  | highWaterMarkCallback_ mark => cases hm

variable [DecidableEq τ]

/-- Only `handleRead` delivers messages. -/
theorem messages_after (h : MessagesBetween s.log) {l : Label τ β}
    (hread : ∀ bytes, l = .readCallback (.data bytes) →
      .connectionCallback_ true ∈ s.log ∧ .connectionCallback_ false ∉ s.log) :
    MessagesBetween (s.after l).log := by
  cases l with
  | closeCallback => exact messagesBetween_append h (by simp [TcpConnection.handleClose])
  | errorCallback => exact messagesBetween_append h (by simp [TcpConnection.handleError])
  | readCallback r =>
    rcases r with bytes | _
    · by_cases hb : 0 < bytes.length
      · have hlog : (s.after (.readCallback (.data bytes))).log = s.log ++ [.messageCallback_] := by
          simp [after, callback, s.conn.handleRead_of_pos hb]
        rw [hlog]
        exact messagesBetween_concat h fun _ => hread bytes rfl
      · refine messagesBetween_append h ?_
        simp [s.conn.handleRead_of_not_pos hb, TcpConnection.handleClose]
    · exact messagesBetween_append h (by simp [TcpConnection.handleRead, TcpConnection.handleError])
  | writeCallback r =>
    refine messagesBetween_append h fun hm => ?_
    exact absurd (TcpConnection.silent_handleWrite _ _ hm) Bool.false_ne_true
  | task r =>
    simp only [after]
    cases s.pending with
    | nil => exact h
    | cons e rest => exact messagesBetween_append h (message_runTask _ _ _)
  | send data r | sendFile file offset count r | shutdown =>
    simp only [after]
    split_ifs
    · exact messagesBetween_append h (message_runTask _ _ _)
    · exact h
  | connectDestroyed => exact messagesBetween_append h (message_runTask _ _ _)
  | sendTest t data | sendFileTest t file offset count | shutdownTest t =>
    simp only [after]
    split_ifs <;> exact h
  | poll | handleEvent | retrieve | queueDestroyed | shutdownStore | push => exact h

omit [Inhabited β] [DecidableEq τ] in
/-- `Up` does not look at the queue or at the callers. -/
theorem up_congr (h : s.Up) {u : Session τ β} (hconn : u.conn = s.conn) (hlog : u.log = s.log)
    (hactive : u.active = s.active) (hrunning : u.running = s.running) : u.Up := by
  refine ⟨?_, ?_, ?_, ?_, ?_, ?_⟩
  · rw [hconn]
    exact h.state
  · rw [hlog]
    exact h.up
  · rw [hlog]
    exact h.calls
  · rw [hconn]
    exact h.reading
  · rw [hconn, hactive, hrunning]
    exact h.added
  · rw [hconn, hrunning]
    exact h.close

omit [Inhabited β] [DecidableEq τ] in
theorem down_closeCallback (h : s.Up) (hd : s.Dispatching)
    (hhead : s.running.head? = some .closeCallback_) : (s.callback s.conn.handleClose).Down := by
  have hmem : .closeCallback_ ∈ s.running := List.mem_of_mem_head? hhead
  refine down_of_up h hd rfl rfl (Or.inr ⟨rfl, h.added (Or.inr (Or.inl hmem))⟩)
    (inactive_of_head hd hhead) (fun hc => ?_) fun _ => ?_
  · exact absurd (rank_lt_of_tail hd hhead hc) (lt_irrefl _)
  · exact Channel.closeCallback_mem_iff.1 (hd.running.subset hmem)

omit [DecidableEq τ] in
/-- A message keeps the connection up, the end of the stream brings it down. -/
theorem up_or_down_readCallback (h : s.Up) (hd : s.Dispatching)
    (hhead : s.running.head? = some .readCallback_) (r : ReadResult β) :
    (s.callback (s.conn.handleRead r)).Up ∨ (s.callback (s.conn.handleRead r)).Down := by
  have hmem : .readCallback_ ∈ s.running := List.mem_of_mem_head? hhead
  have htail := up_tail h hhead (by decide)
  rcases r with bytes | _
  · by_cases hb : 0 < bytes.length
    · rw [s.conn.handleRead_of_pos hb]
      refine Or.inl (up_perform htail (Or.inl rfl) rfl rfl fun e he => ?_)
      rw [List.mem_singleton.1 he]
      exact ⟨rfl, rfl, by simp⟩
    · rw [s.conn.handleRead_of_not_pos hb]
      refine Or.inr (down_of_up h hd rfl rfl (Or.inr ⟨rfl, h.added (Or.inr (Or.inr hmem))⟩)
        (inactive_of_head hd hhead) (fun hc => ?_) fun hr => ?_)
      · exact absurd (rank_lt_of_tail hd hhead hc) (by decide)
      · exact absurd (rank_lt_of_tail hd hhead hr) (lt_irrefl _)
  · exact Or.inl (up_perform htail (Or.inl rfl) rfl rfl
      (by simp [TcpConnection.handleRead, TcpConnection.handleError]))

omit [DecidableEq τ] in
/-- `connectDestroyed` brings a connected connection down. -/
theorem down_connectDestroyed (h : s.Up) (hd : s.Dispatching) (hs : s.conn.state_ = .kConnected)
    (hactive : s.active = false) (hclose : .closeCallback_ ∉ s.running)
    (hread : .readCallback_ ∈ s.running → Channel.closes s.conn.channel_.revents_ = true)
    (q : Option τ) (r : WriteResult) : (s.runTask q .connectDestroyed r).Down := by
  rw [runTask_of_taken rfl, TcpConnection.runTask, TcpConnection.connectDestroyed_of_connected hs]
  exact down_of_up h hd rfl rfl (Or.inl rfl) hactive hclose hread

omit [DecidableEq τ] in
/-- A task runs while no callback is left. -/
theorem up_or_down_task (h : s.Up) (hd : s.Dispatching) (hactive : s.active = false)
    (hrunning : s.running = []) {task : Task β} (hne : task ≠ .connectEstablished) (q : Option τ)
    (r : WriteResult) : (s.runTask q task r).Up ∨ (s.runTask q task r).Down := by
  by_cases hdes : task = .connectDestroyed ∧ s.conn.state_ = .kConnected
  · obtain ⟨rfl, hs⟩ := hdes
    exact Or.inr (down_connectDestroyed h hd hs hactive (by simp [hrunning])
      (by simp [hrunning]) q r)
  · refine Or.inl (up_runTask h hne (fun he => ⟨?_, hactive, ?_, ?_⟩) q r)
    · exact h.state.resolve_left fun hs => hdes ⟨he, hs⟩
    · simp [hrunning]
    · simp [hrunning]

/-- From up: the connection stays up or goes down. -/
theorem up_after {l : Label τ β} (h : s.Up) (hd : s.Dispatching) (hran : s.Ran) (hl : Calm s l)
    (hen : s.enabled l) : (s.after l).Up ∨ (s.after l).Down := by
  cases l with
  | poll revents =>
    obtain ⟨-, hr, hep⟩ := hen
    refine Or.inl ⟨h.1, h.2, h.3, h.4,
      fun _ => show s.conn.channel_.index_ = .kAdded from added_of_epoll hd hep, fun _ hread => ?_⟩
    have : .readCallback_ ∈ s.running := hread
    rw [hr] at this
    cases this
  | handleEvent =>
    have hrun : s.conn.channel_.handleEvent true =
        Channel.handleEventWithGuard s.conn.channel_.revents_ := by
      simp only [Channel.handleEvent, if_true, ite_self]
    refine Or.inl ⟨h.1, h.2, h.3, h.4, fun _ => h.added (Or.inl hen.1), fun hc _ => ?_⟩
    show _ ∈ s.conn.channel_.handleEvent true
    rw [hrun]
    exact Channel.closeCallback_mem_iff.2 hc
  | closeCallback => exact Or.inr (down_closeCallback h hd hen)
  | errorCallback =>
    exact Or.inl (up_perform (up_tail h hen (by decide)) (Or.inl rfl) rfl rfl
      (by simp [TcpConnection.handleError]))
  | readCallback r => exact up_or_down_readCallback h hd hen r
  | writeCallback r =>
    exact Or.inl (up_perform (up_tail h hen.1 (by decide)) (TcpConnection.updates_handleWrite _ _)
      (TcpConnection.state_handleWrite _ _) (TcpConnection.isReading_handleWrite _ _)
      fun e he => Effect.calls_of_isSilent (TcpConnection.silent_handleWrite _ _ he))
  | task r =>
    obtain ⟨hactive, hrunning, hfits⟩ := hen
    obtain ⟨e, rest, hp⟩ := exists_pending hfits
    rw [after_task hp]
    exact up_or_down_task (s := { s with pending := rest }) (up_congr h rfl rfl rfl rfl)
      ⟨hd.1, hd.2, hd.3⟩ hactive hrunning (hran e (by simp [hp])) e.1 r
  | send data r | sendFile file offset count r =>
    simp only [after]
    split_ifs
    · exact Or.inl (up_runTask (s := s.accept none _) (up_congr h rfl rfl rfl rfl) (by simp)
        (by simp) _ _)
    · exact Or.inl h
  | shutdown =>
    simp only [after]
    split_ifs
    · exact Or.inl (up_runTask (s := s.setState .kDisconnecting)
        ⟨Or.inr rfl, h.2, h.3, h.4, h.5, h.6⟩ (by simp) (by simp) _ _)
    · exact Or.inl h
  | connectDestroyed =>
    obtain ⟨hactive, hclose, hread⟩ := hl
    rcases h.state with hs | hs
    · exact Or.inr (down_connectDestroyed h hd hs hactive hclose hread none (.sent 0))
    · -- half-closed: nothing is left that reads
      have hnoread : .readCallback_ ∉ s.running := fun hr => hclose (h.close (hread hr) hr)
      exact Or.inl (up_runTask h (by simp) (fun _ => ⟨hs, hactive, hclose, hnoread⟩) _ _)
  | shutdownStore t => exact Or.inl ⟨Or.inr rfl, h.2, h.3, h.4, h.5, h.6⟩
  | sendTest t data | sendFileTest t file offset count | shutdownTest t =>
    simp only [after]
    split_ifs
    · exact Or.inl (up_congr h rfl rfl rfl rfl)
    · exact Or.inl h
  | retrieve len => exact Or.inl ⟨h.1, h.2, h.3, h.4, h.5, h.6⟩
  | queueDestroyed | push => exact Or.inl (up_congr h rfl rfl rfl rfl)

/-- Once down, a connection stays down. -/
theorem down_after {l : Label τ β} (h : s.Down) (hd : s.Dispatching) (hran : s.Ran) (hl : Calm s l)
    (hen : s.enabled l) : (s.after l).Down := by
  have hnot := not_connected_of_down h
  have htail : ({ s with running := s.running.tail } : Session τ β).Down :=
    ⟨h.1, h.2, h.3, h.4, h.5, h.6, fun hc => h.noClose (List.mem_of_mem_tail hc),
      fun hr => h.read (List.mem_of_mem_tail hr)⟩
  have hdtail := dispatching_tail hd
  have hidle : ∀ {u : Session τ β}, u.Down → u.Dispatching → (u.perform none (u.conn, [])).Down :=
    fun hu hdu => down_perform hu hdu (by simp)
  cases l with
  | poll revents =>
    have := hen.2.2
    simp [h.epoll] at this
  | handleEvent =>
    have := hen.1
    simp [h.active] at this
  | closeCallback => exact absurd (List.mem_of_mem_head? hen) h.noClose
  | errorCallback => exact hidle htail hdtail
  | readCallback r =>
    rcases r with bytes | _
    · have hcloses := h.read (List.mem_of_mem_head? hen)
      rw [show Channel.closes s.conn.channel_.revents_ = false from hl] at hcloses
      cases hcloses
    · exact hidle htail hdtail
  | writeCallback r =>
    simp only [after, TcpConnection.handleWrite_of_not_isWriting (isWriting_of_down h)]
    exact hidle htail hdtail
  | task r =>
    obtain ⟨-, -, hfits⟩ := hen
    obtain ⟨e, rest, hp⟩ := exists_pending hfits
    rw [after_task hp]
    have hpop : ({ s with pending := rest } : Session τ β).Down := by
      refine ⟨h.1.imp_right (And.imp_right fun hn => ⟨fun d hd => hn.1 d ?_, hn.2⟩), h.2, h.3, h.4,
        h.5, h.6, h.7, h.8⟩
      rw [hp]
      exact List.mem_cons_of_mem _ hd
    refine down_runTask hpop ⟨hd.1, hd.2, hd.3⟩ (hran e (by simp [hp])) (fun hs => ?_) _ _
    rcases h.state with hs' | ⟨-, hn⟩
    · exact absurd (hs'.symm.trans hs) (by simp)
    · exact hn.1 e (by simp [hp])
  | send data r | sendFile file offset count r | shutdown | sendTest t data
  | sendFileTest t file offset count | shutdownTest t => simpa [after, hnot] using h
  | retrieve len => exact ⟨h.1, h.2, h.3, h.4, h.5, h.6, h.7, h.8⟩
  | queueDestroyed =>
    refine ⟨h.1.imp_right (And.imp_right fun hn => ⟨?_, hn.2⟩), h.2, h.3, h.4, h.5, h.6, h.7, h.8⟩
    simpa [after, or_imp, forall_and, Task.sendBytes] using hn.1
  | connectDestroyed =>
    exact down_runTask h hd (by simp) (fun _ => rfl) _ _
  | shutdownStore t =>
    have hn : s.NothingQueued := by
      rcases h.state with hs | ⟨-, hn⟩
      · exact hl hs
      · exact hn
    refine ⟨Or.inr ⟨rfl, hn.1, fun u => ?_⟩, h.2, h.3, h.4, h.5, h.6, h.7, h.8⟩
    by_cases hu : u = t
    · subst hu
      simp [after, setCaller, Caller.sendBytes]
    · simpa [after, setCaller, setState, Function.update_of_ne hu] using hn.2 u
  | push t =>
    refine ⟨h.1.imp_right (And.imp_right fun hn => ⟨fun e he => ?_, fun u => ?_⟩), h.2, h.3, h.4,
      h.5, h.6, h.7, h.8⟩
    · rcases List.mem_append.1 he with he | he
      · exact hn.1 e he
      · obtain ⟨task, htask, rfl⟩ := List.mem_map.1 he
        rw [← Caller.sendBytes_of_task (Option.mem_toList.1 htask)]
        exact hn.2 t
    · by_cases hu : u = t
      · subst hu
        simp [after, setCaller, Caller.sendBytes]
      · simpa [after, setCaller, Function.update_of_ne hu] using hn.2 u

omit [DecidableEq τ] in
/-- `connectEstablished` brings the connection up. -/
theorem up_of_fresh (h : s.Fresh) {q : Option τ} {rest : List (From τ (Task β))}
    (r : WriteResult) :
    (({ s with pending := rest } : Session τ β).runTask q .connectEstablished r).Up := by
  rw [runTask_of_taken rfl]
  refine ⟨Or.inl rfl, ?_, fun e he => ?_, ?_, fun ha => ?_, fun _ hr => ?_⟩
  · simp [TcpConnection.runTask, TcpConnection.connectEstablished]
  · rw [perform_log, List.mem_append] at he
    rcases he with he | he
    · rw [h.log e he]
      exact ⟨rfl, rfl⟩
    · simp only [TcpConnection.runTask, TcpConnection.connectEstablished, List.mem_cons,
        List.not_mem_nil, or_false] at he
      rcases he with rfl | rfl <;> exact ⟨rfl, rfl⟩
  · rw [perform_isReading]
    exact Channel.isReading_enableReading _
  · simp [h.active, h.running] at ha
  · simp [h.running] at hr

theorem calling_after {l : Label τ β} (h : s.Calling) (hl : Calm s l) (hen : s.enabled l) :
    (s.after l).Calling := by
  obtain ⟨hd, hm, hphase⟩ := h
  have hhead : ∀ {r : ReadResult β}, l = .readCallback r → .readCallback_ ∈ s.running := by
    rintro r rfl
    exact List.mem_of_mem_head? hen
  refine ⟨dispatching_after hd hen, messages_after hm fun bytes hread => ?_, ?_⟩
  · rcases hphase with hf | ⟨-, hu | hdn⟩
    · have := hhead hread
      rw [hf.running] at this
      cases this
    · exact ⟨hu.up, fun hmem => by simpa [Effect.isDown] using (hu.calls _ hmem).1⟩
    · have hcloses := hdn.read (hhead hread)
      subst hread
      rw [show Channel.closes s.conn.channel_.revents_ = false from hl] at hcloses
      cases hcloses
  · rcases hphase with hf | ⟨hran, hu | hdn⟩
    · rcases fresh_after hf hen with ⟨r, rfl⟩ | hfresh
      · obtain ⟨q, rest, hp, hrest⟩ := hf.pending
        rw [after_task hp]
        exact Or.inr ⟨ran_runTask (fun e he => by simp [hrest e he]) _ _ _,
          Or.inl (up_of_fresh hf r)⟩
      · exact Or.inl hfresh
    · exact Or.inr ⟨ran_after hran l, up_after hu hd hran hl hen⟩
    · exact Or.inr ⟨ran_after hran l, Or.inr (down_after hdn hd hran hl hen)⟩

/-- In a run of calm steps every message comes between up and down, and the connection is reported
down, and closed, at most once. -/
theorem callbacks_in_order {sockfd : ℤ} {writeComplete highWater : Bool} {mark : ℕ}
    {ls : List (Label τ β)} {s : Session τ β}
    (hcalm : Lts.Along step Calm (init sockfd writeComplete highWater mark) ls)
    (h : Lts.exec step (init sockfd writeComplete highWater mark) ls = some s) :
    MessagesBetween s.log ∧ s.log.countP Effect.isDown ≤ 1 ∧ s.log.countP Effect.isClose ≤ 1 := by
  have hinit : (init sockfd writeComplete highWater mark : Session τ β).Calling :=
    ⟨dispatching_init _ _ _ _, fun pre hpre => by simp [init] at hpre, Or.inl (fresh_init _ _ _ _)⟩
  have hs := Lts.guarded_inv (fun _ _ => calling_after) hinit hcalm h
  refine ⟨hs.messages, ?_⟩
  rcases hs.phase with hf | ⟨-, hu | hdn⟩
  · have hzero : ∀ p : Effect β → Bool, p .remove = false → s.log.countP p = 0 := fun p hp =>
      List.countP_eq_zero.2 fun e he => by simp [hf.log e he, hp]
    rw [hzero _ rfl, hzero _ rfl]
    exact ⟨Nat.zero_le _, Nat.zero_le _⟩
  · have hzero : ∀ p : Effect β → Bool, (∀ e ∈ s.log, p e = false) → s.log.countP p = 0 :=
      fun p hp => List.countP_eq_zero.2 fun e he => by simp [hp e he]
    rw [hzero _ fun e he => (hu.calls e he).1, hzero _ fun e he => (hu.calls e he).2]
    exact ⟨Nat.zero_le _, Nat.zero_le _⟩
  · exact ⟨hdn.down, hdn.close⟩

/-- `EPOLLHUP` and `EPOLLPRI` without `EPOLLIN`: `handleEventWithGuard` closes, then reads. -/
private def hangupRun (bytes : List ℕ) : List (Label Unit ℕ) :=
  [.task (.sent 0), .poll (EPOLLHUP ||| EPOLLPRI), .handleEvent, .closeCallback,
    .readCallback (.data bytes)]

/-- One `handleEvent` delivers a message after `handleClose`, or, at the end of the stream, runs
`handleClose` twice. -/
theorem message_after_close :
    (∃ s : Session Unit ℕ, Lts.exec step (init 5 false false 100) (hangupRun [7]) = some s ∧
      s.log = [.update, .connectionCallback_ true, .update, .connectionCallback_ false,
        .closeCallback_, .messageCallback_]) ∧
    ∃ s : Session Unit ℕ, Lts.exec step (init 5 false false 100) (hangupRun []) = some s ∧
      s.log.countP Effect.isDown = 2 ∧ s.log.countP Effect.isClose = 2 := by
  have hmessage : (Lts.exec step (init 5 false false 100) (hangupRun [7])).any (fun s =>
      s.log == [.update, .connectionCallback_ true, .update, .connectionCallback_ false,
        .closeCallback_, .messageCallback_]) = true := by decide +kernel
  have htwice : (Lts.exec step (init 5 false false 100) (hangupRun [])).any (fun s =>
      s.log.countP Effect.isDown == 2 && s.log.countP Effect.isClose == 2) = true := by
    decide +kernel
  obtain ⟨s, hs, hp⟩ := Lts.exec_of_any hmessage
  obtain ⟨t, ht, hq⟩ := Lts.exec_of_any htwice
  simp only [Bool.and_eq_true, beq_iff_eq] at hp hq
  exact ⟨⟨s, hs, hp⟩, t, ht, hq⟩

/-- The peer sends a message and ends the stream. -/
private def calmRun : List (Label Unit ℕ) :=
  [.task (.sent 0), .poll EPOLLIN, .handleEvent, .readCallback (.data [7]),
    .poll (EPOLLIN ||| EPOLLHUP), .handleEvent, .readCallback (.data []), .queueDestroyed,
    .task (.sent 0)]

theorem callbacks_in_order_calm :
    ∃ s : Session Unit ℕ, s.log = [.update, .connectionCallback_ true, .messageCallback_, .update,
        .connectionCallback_ false, .closeCallback_, .remove] ∧
      MessagesBetween s.log ∧ s.log.countP Effect.isDown ≤ 1 ∧ s.log.countP Effect.isClose ≤ 1 := by
  have hrun : (Lts.exec step (init 5 false false 100) calmRun).any (fun s =>
      s.log == [.update, .connectionCallback_ true, .messageCallback_, .update,
        .connectionCallback_ false, .closeCallback_, .remove]) = true := by decide +kernel
  have hcalm : Lts.Along step Calm (init 5 false false 100 : Session Unit ℕ) calmRun := by
    decide +kernel
  obtain ⟨s, hs, hp⟩ := Lts.exec_of_any hrun
  exact ⟨s, beq_iff_eq.1 hp, callbacks_in_order hcalm hs⟩

end Session

end Muduo
