import MuduoCpp.Session

/-!
# Poller and dispatch along a run

In every run the poller's records of the channel agree with its `index_`, whatever the functions of
the connection do, and the callbacks that `handleEventWithGuard` still has to run are those which
follow, for the reported mask, the ones that have run.
-/

namespace Muduo

namespace Session

variable {τ β : Type} {p : Option τ}

/-- The poller and the callbacks in progress agree with the channel. -/
structure Dispatching (s : Session τ β) : Prop where
  holds : s.poller.Holds () s.conn.channel_
  running : s.running <:+ Channel.handleEventWithGuard s.conn.channel_.revents_
  active : s.active = true → s.running = []

/-! ### The poller -/

theorem holds_perform {s : Session τ β} (h : s.poller.Holds () s.conn.channel_)
    {res : TcpConnection β × List (Effect β)} (hu : s.conn.Updates res) :
    (s.perform p res).poller.Holds () (s.perform p res).conn.channel_ :=
  (TcpConnection.holds_of_updates h hu).1

theorem perform_revents {s : Session τ β} {res : TcpConnection β × List (Effect β)}
    (hu : s.conn.Updates res) :
    (s.perform p res).conn.channel_.revents_ = s.conn.channel_.revents_ := by
  obtain ⟨i, hi⟩ := s.perform_channel p res
  rw [hi]
  rcases hu with hsame | ⟨-, -, hrev, -⟩
  · show res.1.channel_.revents_ = _
    rw [hsame]
  · exact hrev

/-- What the poller can report is registered. -/
theorem added_of_epoll {s : Session τ β} (h : s.Dispatching)
    (hep : (s.poller.epollfd_ s.conn.channel_.fd_).isSome = true) :
    s.conn.channel_.index_ = .kAdded := by
  have hholds := h.holds
  rw [EPollPoller.Holds] at hholds
  cases hi : s.conn.channel_.index_ with
  | kAdded => rfl
  | kNew | kDeleted => simp_all

/-! ### Along a run -/

theorem dispatching_perform {s : Session τ β} (h : s.Dispatching)
    {res : TcpConnection β × List (Effect β)} (hu : s.conn.Updates res) :
    (s.perform p res).Dispatching := by
  refine ⟨holds_perform h.holds hu, ?_, h.active⟩
  rw [perform_revents hu]
  exact h.running

theorem dispatching_tail {s : Session τ β} (h : s.Dispatching) :
    ({ s with running := s.running.tail } : Session τ β).Dispatching :=
  ⟨h.holds, (List.tail_suffix _).trans h.running, fun ha => by simp [h.active ha]⟩

theorem dispatching_callback {s : Session τ β} (h : s.Dispatching)
    {res : TcpConnection β × List (Effect β)} (hu : s.conn.Updates res) :
    (s.callback res).Dispatching :=
  dispatching_perform (dispatching_tail h) hu

/-- While a callback has to run, the channel does not wait for its `handleEvent`. -/
theorem inactive_of_head {s : Session τ β} (h : s.Dispatching) {k : Callback}
    (hk : s.running.head? = some k) : s.active = false := by
  by_contra ha
  rw [Bool.not_eq_false] at ha
  rw [h.active ha] at hk
  cases hk

/-- What follows a callback comes after it in `handleEventWithGuard`. -/
theorem rank_lt_of_tail {s : Session τ β} (h : s.Dispatching) {k x : Callback}
    (hk : s.running.head? = some k) (hx : x ∈ s.running.tail) : k.rank < x.rank := by
  have hrun := h.running
  rw [← List.cons_head?_tail hk] at hrun
  exact Channel.rank_lt_of_suffix hrun hx

variable [Inhabited β]

theorem dispatching_runTask {s : Session τ β} (h : s.Dispatching) (q : Option τ) (task : Task β)
    (r : WriteResult) : (s.runTask q task r).Dispatching := by
  obtain ⟨h1, h2, h3⟩ :=
    dispatching_perform (p := q) h (TcpConnection.updates_runTask s.conn r task)
  exact ⟨h1, h2, h3⟩

theorem dispatching_init (sockfd : ℤ) (writeComplete highWater : Bool) (mark : ℕ) :
    (init sockfd writeComplete highWater mark : Session τ β).Dispatching :=
  ⟨⟨rfl, rfl⟩, List.nil_suffix, fun _ => rfl⟩

variable [DecidableEq τ]

theorem dispatching_after {s : Session τ β} {l : Label τ β} (h : s.Dispatching)
    (hen : s.enabled l) : (s.after l).Dispatching := by
  cases l with
  | poll revents =>
    refine ⟨h.holds, ?_, fun _ => hen.2.1⟩
    show s.running <:+ _
    rw [hen.2.1]
    exact List.nil_suffix
  | handleEvent =>
    refine ⟨h.holds, ?_, by simp [after]⟩
    show s.conn.channel_.handleEvent true <:+ _
    simp only [Channel.handleEvent, if_true, ite_self]
    exact List.suffix_rfl
  | closeCallback => exact dispatching_callback h (TcpConnection.updates_handleClose _)
  | errorCallback => exact dispatching_callback h (Or.inl rfl)
  | readCallback r => exact dispatching_callback h (TcpConnection.updates_handleRead _ _)
  | writeCallback r => exact dispatching_callback h (TcpConnection.updates_handleWrite _ _)
  | task r =>
    simp only [after]
    cases s.pending with
    | nil => exact h
    | cons e rest =>
      exact dispatching_runTask (s := { s with pending := rest }) ⟨h.1, h.2, h.3⟩ _ _ _
  | send data r | sendFile file offset count r =>
    simp only [after]
    split_ifs
    · exact dispatching_runTask (s := s.accept none _) ⟨h.1, h.2, h.3⟩ _ _ _
    · exact h
  | shutdown =>
    simp only [after]
    split_ifs
    · exact dispatching_runTask (s := s.setState .kDisconnecting) ⟨h.1, h.2, h.3⟩ _ _ _
    · exact h
  | connectDestroyed => exact dispatching_runTask h _ _ _
  | sendTest t data | sendFileTest t file offset count | shutdownTest t =>
    simp only [after]
    split_ifs
    · exact ⟨h.1, h.2, h.3⟩
    · exact h
  | retrieve | queueDestroyed | shutdownStore | push => exact ⟨h.1, h.2, h.3⟩

end Session

end Muduo
