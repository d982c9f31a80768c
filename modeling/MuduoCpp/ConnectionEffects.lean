import MuduoCpp.TcpConnection

/-!
# What the functions of a connection do

One lemma for each function and each kind of effect: which effects are more than output
(`silent_…`), which tasks it queues (`queuesOwn_…`), whether the interest in `EPOLLOUT` follows
`outputBuffer_` (`armed_…`), what happens to `state_`, when it half-closes (`fin_…`), and that the
poller learns of every change of the channel (`updates_…`).
-/

namespace Muduo

namespace TcpConnection

variable {β : Type}

/-! ### Output only -/

theorem silent_queueIf {cond : Bool} {task : Task β} (ht : task.isOwn = true) {e : Effect β}
    (h : e ∈ Effect.queueIf cond task) : e.isSilent = true ∧ e.registers = false := by
  cases cond with
  | false => cases h
  | true =>
    rw [List.mem_singleton.1 h]
    exact ⟨ht, rfl⟩

theorem silent_ofWrite (r : WriteResult) (data : List β) :
    (Effect.ofWrite r data).isSilent = true ∧ (Effect.ofWrite r data).registers = false := by
  cases r <;> exact ⟨rfl, rfl⟩

theorem silent_shutdownInLoop (c : TcpConnection β) {e : Effect β} (h : e ∈ c.shutdownInLoop) :
    e.isSilent = true := by
  unfold shutdownInLoop at h
  split_ifs at h
  · cases h
  · rw [List.mem_singleton.1 h]
    rfl

theorem silent_saveRemaining [Inhabited β] (c : TcpConnection β) (data : List β) {e : Effect β}
    (h : e ∈ (c.saveRemaining data).2) : e.isSilent = true := by
  unfold saveRemaining at h
  simp only at h
  split_ifs at h
  · cases h
  · exact (silent_queueIf rfl h).1
  · rcases List.mem_append.1 h with h | h
    · exact (silent_queueIf rfl h).1
    · rw [List.mem_singleton.1 h]
      rfl

theorem silent_sendInLoop [Inhabited β] (c : TcpConnection β) (data : List β) (r : WriteResult)
    {e : Effect β} (h : e ∈ (c.sendInLoop data r).2) : e.isSilent = true := by
  unfold sendInLoop at h
  simp only at h
  split_ifs at h
  · cases h
  · rcases List.mem_cons.1 h with rfl | h
    · exact (silent_ofWrite _ _).1
    · rw [List.append_nil] at h
      exact (silent_queueIf rfl h).1
  · rcases List.mem_cons.1 h with rfl | h
    · exact (silent_ofWrite _ _).1
    · rcases List.mem_append.1 h with h | h
      · exact (silent_queueIf rfl h).1
      · exact silent_saveRemaining c _ h
  · exact silent_saveRemaining c _ h

theorem silent_sendFileInLoop (c : TcpConnection β) (file : List β) (offset count : ℕ)
    (r : WriteResult) {e : Effect β} (h : e ∈ (c.sendFileInLoop file offset count r).2) :
    e.isSilent = true ∧ e.registers = false := by
  unfold sendFileInLoop at h
  simp only at h
  split_ifs at h
  · cases h
  · rcases List.mem_cons.1 h with rfl | h
    · exact silent_ofWrite _ _
    · rcases List.mem_append.1 h with h | h <;> exact silent_queueIf rfl h
  · exact silent_queueIf rfl h

theorem silent_handleWrite (c : TcpConnection β) (r : WriteResult) {e : Effect β}
    (h : e ∈ (c.handleWrite r).2) : e.isSilent = true := by
  unfold handleWrite at h
  simp only at h
  split_ifs at h
  · simp only [List.cons_append, List.nil_append, List.mem_cons, List.mem_append] at h
    rcases h with rfl | rfl | h | h
    · exact (silent_ofWrite _ _).1
    · rfl
    · exact (silent_queueIf rfl h).1
    · exact silent_shutdownInLoop _ h
  · simp only [List.cons_append, List.nil_append, List.append_nil, List.mem_cons] at h
    rcases h with rfl | rfl | h
    · exact (silent_ofWrite _ _).1
    · rfl
    · exact (silent_queueIf rfl h).1
  · rw [List.mem_singleton.1 h]
    exact (silent_ofWrite _ _).1
  · rw [List.mem_singleton.1 h]
    exact (silent_ofWrite _ _).1
  · cases h

/-- Sending nothing changes nothing. -/
theorem sendInLoop_nil [Inhabited β] (c : TcpConnection β) (r : WriteResult) :
    (c.sendInLoop [] r).1 = c ∧ ∀ e ∈ (c.sendInLoop [] r).2, e.registers = false := by
  have hsave : c.saveRemaining [] = (c, []) := rfl
  unfold sendInLoop
  simp only [List.drop_nil, hsave, ite_self, List.append_nil]
  split_ifs
  · exact ⟨rfl, by simp⟩
  · refine ⟨rfl, fun e he => ?_⟩
    rcases List.mem_cons.1 he with rfl | he
    · exact (silent_ofWrite _ _).2
    · exact (silent_queueIf rfl he).2
  · exact ⟨rfl, by simp⟩

/-! ### What each function queues

A function queues callbacks of the user and the rest of a file; the other tasks come from
outside. -/

/-- All tasks queued by `es` are of that kind. -/
def QueuesOwn (es : List (Effect β)) : Prop := ∀ task ∈ queued es, task.isOwn = true

theorem queuesOwn_of_forall {es : List (Effect β)}
    (h : ∀ e ∈ es, e.isSilent = true ∨ e.queued = none) : QueuesOwn es := by
  intro task htask
  obtain ⟨e, he, hq⟩ := List.mem_filterMap.1 htask
  rcases h e he with hs | hn
  · cases e <;> simp_all [Effect.queued, Effect.isSilent]
  · rw [hn] at hq
    cases hq

theorem queuesOwn_handleClose (c : TcpConnection β) : QueuesOwn c.handleClose.2 :=
  queuesOwn_of_forall (by simp [handleClose, Effect.queued])

theorem queuesOwn_handleError (c : TcpConnection β) : QueuesOwn c.handleError.2 :=
  queuesOwn_of_forall (by simp [handleError])

theorem queuesOwn_handleRead [Inhabited β] (c : TcpConnection β) (r : ReadResult β) :
    QueuesOwn (c.handleRead r).2 := by
  rcases r with bytes | _
  · simp only [handleRead]
    split_ifs
    · exact queuesOwn_of_forall (by simp [Effect.queued])
    · exact queuesOwn_handleClose _
  · exact queuesOwn_of_forall (by simp [handleRead, handleError])

theorem queuesOwn_handleWrite (c : TcpConnection β) (r : WriteResult) :
    QueuesOwn (c.handleWrite r).2 :=
  queuesOwn_of_forall fun _ he => Or.inl (silent_handleWrite c r he)

theorem queuesOwn_runCallback [Inhabited β] (c : TcpConnection β) (read : ReadResult β)
    (write : WriteResult) (k : Callback) : QueuesOwn (c.runCallback read write k).2 := by
  cases k with
  | closeCallback_ => exact queuesOwn_handleClose c
  | errorCallback_ => exact queuesOwn_handleError c
  | readCallback_ => exact queuesOwn_handleRead c read
  | writeCallback_ => exact queuesOwn_handleWrite c write

theorem queuesOwn_runTask [Inhabited β] (c : TcpConnection β) (r : WriteResult) (task : Task β) :
    QueuesOwn (c.runTask r task).2 := by
  refine queuesOwn_of_forall fun e he => ?_
  cases task with
  | connectEstablished =>
    simp only [runTask, connectEstablished, List.mem_cons, List.not_mem_nil, or_false] at he
    rcases he with rfl | rfl <;> exact Or.inr rfl
  | connectDestroyed =>
    unfold runTask connectDestroyed at he
    split_ifs at he
    · simp only [List.mem_cons, List.not_mem_nil, or_false] at he
      rcases he with rfl | rfl | rfl <;> exact Or.inr rfl
    · rw [List.mem_singleton.1 he]
      exact Or.inr rfl
  | sendInLoop data => exact Or.inl (silent_sendInLoop c data r he)
  | sendFileInLoop file offset count =>
    exact Or.inl (silent_sendFileInLoop c file offset count r he).1
  | shutdownInLoop => exact Or.inl (silent_shutdownInLoop c he)
  | writeCompleteCallback_ => cases he
  | highWaterMarkCallback_ mark => cases he

/-! ### Interest in `EPOLLOUT` -/

/-- The connection waits for `EPOLLOUT` exactly while `outputBuffer_` has something. -/
def Armed (c : TcpConnection β) : Prop :=
  c.channel_.isWriting = true ↔ c.outputBuffer_.content ≠ []

theorem armed_saveRemaining [Inhabited β] {c : TcpConnection β} (h : c.Armed) (data : List β) :
    (c.saveRemaining data).1.Armed := by
  unfold saveRemaining
  simp only
  split_ifs with hnil hw
  · exact h
  all_goals
    have hne : data ≠ [] := fun he => hnil (by rw [he]; rfl)
  · exact ⟨fun _ => by simp [hne], fun _ => hw⟩
  · exact ⟨fun _ => by simp [hne], fun _ => by simp⟩

theorem armed_sendInLoop [Inhabited β] {c : TcpConnection β} (h : c.Armed) (data : List β)
    (r : WriteResult) :
    (c.sendInLoop data r).1.Armed := by
  unfold sendInLoop
  simp only
  split_ifs
  · exact h
  · exact h
  · exact armed_saveRemaining h _
  · exact armed_saveRemaining h _

theorem armed_handleWrite {c : TcpConnection β} (h : c.Armed) (r : WriteResult) :
    (c.handleWrite r).1.Armed := by
  unfold handleWrite
  simp only [OkBuffer.readableBytes_eq, List.length_eq_zero_iff]
  split_ifs with hw hn hnil
  · simp [Armed, hnil]
  · simp [Armed, hnil]
  · exact ⟨fun _ => hnil, fun _ => hw⟩
  · exact h
  · exact h

@[simp] theorem sendFileInLoop_fst (c : TcpConnection β) (file : List β) (offset count : ℕ)
    (r : WriteResult) : (c.sendFileInLoop file offset count r).1 = c := by
  unfold sendFileInLoop
  split_ifs <;> rfl

/-! ### `state_` -/

@[simp] theorem state_sendInLoop [Inhabited β] (c : TcpConnection β) (data : List β)
    (r : WriteResult) :
    (c.sendInLoop data r).1.state_ = c.state_ := by
  unfold sendInLoop saveRemaining
  simp only
  split_ifs <;> rfl

@[simp] theorem state_handleWrite (c : TcpConnection β) (r : WriteResult) :
    (c.handleWrite r).1.state_ = c.state_ := by
  unfold handleWrite
  simp only
  split_ifs <;> rfl

theorem state_handleRead [Inhabited β] (c : TcpConnection β) (r : ReadResult β) :
    (c.handleRead r).1.state_ = c.state_ ∨ (c.handleRead r).1.state_ = .kDisconnected := by
  rcases r with bytes | _
  · simp only [handleRead]
    split_ifs
    · exact Or.inl rfl
    · exact Or.inr rfl
  · exact Or.inl rfl

@[simp] theorem isReading_saveRemaining [Inhabited β] (c : TcpConnection β) (data : List β) :
    (c.saveRemaining data).1.channel_.isReading = c.channel_.isReading := by
  unfold saveRemaining
  simp only
  split_ifs <;> simp

theorem isReading_sendInLoop [Inhabited β] (c : TcpConnection β) (data : List β) (r : WriteResult) :
    (c.sendInLoop data r).1.channel_.isReading = c.channel_.isReading := by
  unfold sendInLoop
  simp only
  split_ifs <;> simp

theorem isReading_handleWrite (c : TcpConnection β) (r : WriteResult) :
    (c.handleWrite r).1.channel_.isReading = c.channel_.isReading := by
  unfold handleWrite
  simp only
  split_ifs <;> simp

/-- Only `connectEstablished` and, in state `kConnected`, `connectDestroyed` change `state_`. -/
theorem state_runTask [Inhabited β] (c : TcpConnection β) (r : WriteResult) {task : Task β}
    (h : task ≠ .connectEstablished) :
    ((c.runTask r task).1.state_ = .kDisconnecting ↔ c.state_ = .kDisconnecting) ∧
      (c.state_ = .kDisconnected → (c.runTask r task).1.state_ = .kDisconnected) := by
  cases task with
  | connectEstablished => exact absurd rfl h
  | connectDestroyed =>
    unfold runTask connectDestroyed
    split_ifs with hc <;> simp [hc]
  | sendInLoop data => simp [runTask]
  | sendFileInLoop file offset count => simp [runTask]
  | shutdownInLoop => simp [runTask]
  | writeCompleteCallback_ => simp [runTask]
  | highWaterMarkCallback_ mark => simp [runTask]

theorem state_runTask_of_ne [Inhabited β] (c : TcpConnection β) (r : WriteResult) {task : Task β}
    (he : task ≠ .connectEstablished) (hd : task ≠ .connectDestroyed) :
    (c.runTask r task).1.state_ = c.state_ := by
  cases task with
  | connectEstablished => exact absurd rfl he
  | connectDestroyed => exact absurd rfl hd
  | sendInLoop data => exact state_sendInLoop c data r
  | sendFileInLoop file offset count =>
    exact congrArg state_ (sendFileInLoop_fst c file offset count r)
  | shutdownInLoop => rfl
  | writeCompleteCallback_ => rfl
  | highWaterMarkCallback_ mark => rfl

/-- A callback closes the connection, or leaves `state_` alone. -/
theorem state_runCallback [Inhabited β] (c : TcpConnection β) (read : ReadResult β)
    (write : WriteResult) (k : Callback) :
    ((c.runCallback read write k).2.any Effect.isClose = true ∧
        (c.runCallback read write k).1.state_ = .kDisconnected) ∨
      ((c.runCallback read write k).2.any Effect.isClose = false ∧
        (c.runCallback read write k).1.state_ = c.state_) := by
  cases k with
  | closeCallback_ => exact Or.inl ⟨rfl, rfl⟩
  | errorCallback_ => exact Or.inr ⟨rfl, rfl⟩
  | readCallback_ =>
    rcases read with bytes | _
    · simp only [runCallback, handleRead]
      split_ifs
      · exact Or.inr ⟨rfl, rfl⟩
      · exact Or.inl ⟨rfl, rfl⟩
    · exact Or.inr ⟨rfl, rfl⟩
  | writeCallback_ =>
    refine Or.inr ⟨List.any_eq_false.2 fun e he => ?_, state_handleWrite c write⟩
    have := silent_handleWrite c write he
    cases e <;> simp_all [Effect.isSilent, Effect.isClose]

theorem armed_runTask [Inhabited β] {c : TcpConnection β} (h : c.Armed) {r : WriteResult}
    {task : Task β} (hd : (c.runTask r task).1.state_ ≠ .kDisconnected) :
    (c.runTask r task).1.Armed := by
  cases task with
  | connectEstablished =>
    unfold Armed at h ⊢
    rw [← Channel.isWriting_enableReading] at h
    exact h
  | connectDestroyed =>
    unfold runTask connectDestroyed at hd ⊢
    split_ifs at hd ⊢ with hc
    · exact absurd rfl hd
    · exact h
  | sendInLoop data => exact armed_sendInLoop h data r
  | sendFileInLoop file offset count => simpa [runTask] using h
  | shutdownInLoop => exact h
  | writeCompleteCallback_ => exact h
  | highWaterMarkCallback_ mark => exact h

theorem armed_runCallback [Inhabited β] {c : TcpConnection β} (h : c.Armed) {read : ReadResult β}
    {write : WriteResult} {k : Callback}
    (hd : (c.runCallback read write k).1.state_ ≠ .kDisconnected) :
    (c.runCallback read write k).1.Armed := by
  cases k with
  | closeCallback_ => exact absurd rfl hd
  | errorCallback_ => exact h
  | readCallback_ =>
    rcases read with bytes | _
    · simp only [runCallback, handleRead] at hd ⊢
      split_ifs at hd ⊢
      · exact h
      · exact absurd rfl hd
    · exact h
  | writeCallback_ => exact armed_handleWrite h write

theorem isReading_runTask [Inhabited β] {c : TcpConnection β} {r : WriteResult} {task : Task β}
    (he : task ≠ .connectEstablished) (hd : (c.runTask r task).1.state_ ≠ .kDisconnected) :
    (c.runTask r task).1.channel_.isReading = c.channel_.isReading := by
  cases task with
  | connectEstablished => exact absurd rfl he
  | connectDestroyed =>
    unfold runTask connectDestroyed at hd ⊢
    split_ifs at hd ⊢
    · exact absurd rfl hd
    · rfl
  | sendInLoop data => exact isReading_sendInLoop c data r
  | sendFileInLoop file offset count => simp [runTask]
  | shutdownInLoop => rfl
  | writeCompleteCallback_ => rfl
  | highWaterMarkCallback_ mark => rfl

theorem isReading_runCallback [Inhabited β] {c : TcpConnection β} {read : ReadResult β}
    {write : WriteResult} {k : Callback}
    (hd : (c.runCallback read write k).1.state_ ≠ .kDisconnected) :
    (c.runCallback read write k).1.channel_.isReading = c.channel_.isReading := by
  cases k with
  | closeCallback_ => exact absurd rfl hd
  | errorCallback_ => rfl
  | readCallback_ =>
    rcases read with bytes | _
    · simp only [runCallback, handleRead] at hd ⊢
      split_ifs at hd ⊢
      · rfl
      · exact absurd rfl hd
    · rfl
  | writeCallback_ => exact isReading_handleWrite c write

/-! ### The half-close -/

theorem fin_saveRemaining [Inhabited β] (c : TcpConnection β) (data : List β) :
    .shutdownWrite ∉ (c.saveRemaining data).2 := by
  unfold saveRemaining
  simp only
  split_ifs <;> simp

theorem fin_sendInLoop [Inhabited β] (c : TcpConnection β) (data : List β) (r : WriteResult) :
    .shutdownWrite ∉ (c.sendInLoop data r).2 := by
  unfold sendInLoop
  simp only
  split_ifs <;> simp [fin_saveRemaining]

theorem fin_sendFileInLoop (c : TcpConnection β) (file : List β) (offset count : ℕ)
    (r : WriteResult) : .shutdownWrite ∉ (c.sendFileInLoop file offset count r).2 := by
  unfold sendFileInLoop
  simp only
  split_ifs <;> simp

theorem fin_shutdownInLoop (c : TcpConnection β) :
    .shutdownWrite ∈ c.shutdownInLoop ↔ c.channel_.isWriting = false := by
  unfold shutdownInLoop
  split_ifs with hw <;> simp [hw]

theorem fin_handleRead [Inhabited β] (c : TcpConnection β) (r : ReadResult β) :
    .shutdownWrite ∉ (c.handleRead r).2 := by
  rcases r with bytes | _
  · simp only [handleRead]
    split_ifs <;> simp [handleClose]
  · simp [handleRead, handleError]

theorem fin_handleWrite (c : TcpConnection β) (r : WriteResult) :
    .shutdownWrite ∈ (c.handleWrite r).2 ↔ c.drains r = true ∧ c.state_ = .kDisconnecting := by
  unfold handleWrite drains
  simp only [OkBuffer.readableBytes_eq, OkBuffer.content_retrieve, List.length_drop]
  split_ifs with hw hn h0 hs <;> simp [fin_shutdownInLoop, *] <;> omega

theorem fin_runTask [Inhabited β] (c : TcpConnection β) (r : WriteResult) (task : Task β) :
    .shutdownWrite ∈ (c.runTask r task).2 ↔
      task = .shutdownInLoop ∧ c.channel_.isWriting = false := by
  cases task with
  | connectEstablished => simp [runTask, connectEstablished]
  | connectDestroyed =>
    unfold runTask connectDestroyed
    split_ifs <;> simp
  | sendInLoop data => simp [runTask, fin_sendInLoop]
  | sendFileInLoop file offset count => simp [runTask, fin_sendFileInLoop]
  | shutdownInLoop => simp [runTask, fin_shutdownInLoop]
  | writeCompleteCallback_ => simp [runTask]
  | highWaterMarkCallback_ mark => simp [runTask]

theorem content_handleWrite (c : TcpConnection β) (r : WriteResult) :
    (c.handleWrite r).1.outputBuffer_.content =
      if c.channel_.isWriting = true then c.outputBuffer_.content.drop r.nwrote
      else c.outputBuffer_.content := by
  unfold handleWrite
  by_cases hw : c.channel_.isWriting = true
  · by_cases hn : 0 < r.nwrote
    · simp only [hw, hn, if_true]
      split_ifs <;> simp
    · simp [hw, Nat.eq_zero_of_not_pos hn]
  · simp [hw]

theorem content_of_drains {c : TcpConnection β} {r : WriteResult} (h : c.drains r = true) :
    (c.handleWrite r).1.outputBuffer_.content = [] := by
  simp only [drains, Bool.and_eq_true, decide_eq_true_eq, OkBuffer.readableBytes_eq] at h
  rw [content_handleWrite, if_pos h.1.1, List.drop_eq_nil_iff]
  exact h.2

theorem content_sendInLoop [Inhabited β] {c : TcpConnection β} (h : c.outputBuffer_.content ≠ [])
    (data : List β) (r : WriteResult) : (c.sendInLoop data r).1.outputBuffer_.content ≠ [] := by
  have hidle : c.isIdle = false := by
    by_contra hi
    exact h (isIdle_iff.1 (Bool.not_eq_false _ ▸ hi)).2
  by_cases hd : c.state_ = .kDisconnected
  · rwa [sendInLoop_of_down hd]
  · rw [sendInLoop_of_busy hd hidle, content_saveRemaining]
    exact List.append_ne_nil_of_left_ne_nil h _

/-- A task takes nothing out of `outputBuffer_`. -/
theorem content_runTask [Inhabited β] {c : TcpConnection β} (h : c.outputBuffer_.content ≠ [])
    {r : WriteResult} {task : Task β} : (c.runTask r task).1.outputBuffer_.content ≠ [] := by
  cases task with
  | sendInLoop data => exact content_sendInLoop h data r
  | sendFileInLoop file offset count => simpa [runTask] using h
  | connectDestroyed => simpa [runTask] using h
  | connectEstablished => exact h
  | shutdownInLoop => exact h
  | writeCompleteCallback_ => exact h
  | highWaterMarkCallback_ mark => exact h

theorem draining_runCallback [Inhabited β] {c : TcpConnection β} (h : c.outputBuffer_.content ≠ [])
    (hs : c.state_ = .kDisconnecting) {read : ReadResult β} {write : WriteResult} {k : Callback} :
    .shutdownWrite ∈ (c.runCallback read write k).2 ∨
      (c.runCallback read write k).1.outputBuffer_.content ≠ [] := by
  cases k with
  | closeCallback_ => exact Or.inr h
  | errorCallback_ => exact Or.inr h
  | readCallback_ =>
    right
    simpa [runCallback] using h
  | writeCallback_ =>
    by_cases hd : c.drains write = true
    · exact Or.inl ((fin_handleWrite c write).2 ⟨hd, hs⟩)
    · right
      show (c.handleWrite write).1.outputBuffer_.content ≠ []
      rw [content_handleWrite]
      simp only [drains, Bool.and_eq_true, decide_eq_true_eq, OkBuffer.readableBytes_eq] at hd
      have hpos := List.length_pos_iff.2 h
      split_ifs with hw
      · intro hnil
        have hle := List.drop_eq_nil_iff.1 hnil
        exact hd ⟨⟨hw, by omega⟩, hle⟩
      · exact h

/-! ### The poller -/

/-- A change of the channel is followed by `Channel::update()`. -/
def Updates (c : TcpConnection β) (res : TcpConnection β × List (Effect β)) : Prop :=
  res.1.channel_ = c.channel_ ∨
    (res.1.channel_.fd_ = c.channel_.fd_ ∧ res.1.channel_.index_ = c.channel_.index_ ∧
      res.1.channel_.revents_ = c.channel_.revents_ ∧
      ∃ pre post, res.2 = pre ++ .update :: post ∧ ∀ e ∈ pre, e.registers = false)

theorem updates_saveRemaining [Inhabited β] (c : TcpConnection β) (data : List β) :
    c.Updates (c.saveRemaining data) := by
  unfold saveRemaining
  simp only
  split_ifs
  · exact Or.inl rfl
  · exact Or.inl rfl
  · exact Or.inr ⟨rfl, rfl, rfl, _, [], rfl, fun e he => (silent_queueIf rfl he).2⟩

theorem updates_sendInLoop [Inhabited β] (c : TcpConnection β) (data : List β) (r : WriteResult) :
    c.Updates (c.sendInLoop data r) := by
  unfold sendInLoop
  simp only
  split_ifs
  · exact Or.inl rfl
  · exact Or.inl rfl
  · rcases updates_saveRemaining c (data.drop r.nwrote) with h | ⟨h1, h2, h3, pre, post, hes, hpre⟩
    · exact Or.inl h
    · refine Or.inr ⟨h1, h2, h3, .ofWrite r data :: (Effect.queueIf
        (r.isSent && (data.drop r.nwrote).length == 0 && c.writeCompleteCallback_)
        .writeCompleteCallback_ ++ pre), post, ?_, ?_⟩
      · simp only [hes, List.cons_append, List.append_assoc]
      · intro e he
        rcases List.mem_cons.1 he with rfl | he
        · exact (silent_ofWrite _ _).2
        · rcases List.mem_append.1 he with he | he
          · exact (silent_queueIf rfl he).2
          · exact hpre e he
  · exact updates_saveRemaining c data

theorem updates_handleWrite (c : TcpConnection β) (r : WriteResult) :
    c.Updates (c.handleWrite r) := by
  unfold handleWrite
  simp only
  split_ifs
  · exact Or.inr ⟨rfl, rfl, rfl, [_], _, rfl, fun e he => by
      rw [List.mem_singleton.1 he]
      exact (silent_ofWrite _ _).2⟩
  · exact Or.inr ⟨rfl, rfl, rfl, [_], _, rfl, fun e he => by
      rw [List.mem_singleton.1 he]
      exact (silent_ofWrite _ _).2⟩
  all_goals exact Or.inl rfl

theorem updates_handleClose (c : TcpConnection β) : c.Updates c.handleClose :=
  Or.inr ⟨rfl, rfl, rfl, [], _, rfl, by simp⟩

theorem updates_handleRead [Inhabited β] (c : TcpConnection β) (r : ReadResult β) :
    c.Updates (c.handleRead r) := by
  rcases r with bytes | _
  · simp only [handleRead]
    split_ifs
    · exact Or.inl rfl
    · exact updates_handleClose _
  · exact Or.inl rfl

theorem updates_runTask [Inhabited β] (c : TcpConnection β) (r : WriteResult) (task : Task β) :
    c.Updates (c.runTask r task) := by
  cases task with
  | connectEstablished => exact Or.inr ⟨rfl, rfl, rfl, [], _, rfl, by simp⟩
  | connectDestroyed =>
    unfold runTask connectDestroyed
    split_ifs
    · exact Or.inr ⟨rfl, rfl, rfl, [], _, rfl, by simp⟩
    · exact Or.inl rfl
  | sendInLoop data => exact updates_sendInLoop c data r
  | sendFileInLoop file offset count =>
    exact Or.inl (congrArg channel_ (sendFileInLoop_fst c file offset count r))
  | shutdownInLoop => exact Or.inl rfl
  | writeCompleteCallback_ => exact Or.inl rfl
  | highWaterMarkCallback_ mark => exact Or.inl rfl

theorem updates_runCallback [Inhabited β] (c : TcpConnection β) (read : ReadResult β)
    (write : WriteResult) (k : Callback) : c.Updates (c.runCallback read write k) := by
  cases k with
  | closeCallback_ => exact updates_handleClose c
  | errorCallback_ => exact Or.inl rfl
  | readCallback_ => exact updates_handleRead c read
  | writeCallback_ => exact updates_handleWrite c write

/-- A task without data leaves the connection and the poller alone, and so does every task once the
connection is down. -/
theorem runTask_of_noData [Inhabited β] {c : TcpConnection β} {task : Task β}
    (h : c.state_ = .kDisconnected ∨ task.sendBytes = []) (r : WriteResult)
    (he : task ≠ .connectEstablished) (hd : task ≠ .connectDestroyed) :
    (c.runTask r task).1 = c ∧
      ∀ e ∈ (c.runTask r task).2, e.isSilent = true ∧ e.registers = false := by
  cases task with
  | connectEstablished => exact absurd rfl he
  | connectDestroyed => exact absurd rfl hd
  | sendInLoop data =>
    rcases h with hs | hdata
    · simp [runTask, sendInLoop_of_down hs]
    · obtain rfl : data = [] := hdata
      obtain ⟨hc, hreg⟩ := c.sendInLoop_nil r
      exact ⟨hc, fun e he => ⟨silent_sendInLoop _ _ _ he, hreg e he⟩⟩
  | sendFileInLoop file offset count =>
    exact ⟨sendFileInLoop_fst c file offset count r, fun e he =>
      silent_sendFileInLoop c file offset count r he⟩
  | shutdownInLoop =>
    refine ⟨rfl, fun e he => ⟨silent_shutdownInLoop _ he, ?_⟩⟩
    have : e ∈ c.shutdownInLoop := he
    unfold shutdownInLoop at this
    split_ifs at this
    · cases this
    · rw [List.mem_singleton.1 this]
      rfl
  | writeCompleteCallback_ => exact ⟨rfl, by simp [runTask]⟩
  | highWaterMarkCallback_ mark => exact ⟨rfl, by simp [runTask]⟩

/-- The same with `connectDestroyed`, on a connection that is not connected. -/
theorem runTask_of_not_connected [Inhabited β] {c : TcpConnection β} {task : Task β}
    (hconn : c.state_ ≠ .kConnected) (h : c.state_ = .kDisconnected ∨ task.sendBytes = [])
    (r : WriteResult) (he : task ≠ .connectEstablished) :
    (c.runTask r task).1 = c ∧ ∀ e ∈ (c.runTask r task).2,
      (e.isSilent = true ∧ e.registers = false) ∨ e = .remove := by
  by_cases hd : task = .connectDestroyed
  · subst hd
    rw [runTask, connectDestroyed_of_ne hconn]
    exact ⟨rfl, fun e he => Or.inr (List.mem_singleton.1 he)⟩
  · obtain ⟨hc, hes⟩ := runTask_of_noData h r he hd
    exact ⟨hc, fun e he => Or.inl (hes e he)⟩

/-- A callback that neither closes nor writes: at most a message. -/
theorem runCallback_of_idle [Inhabited β] {c : TcpConnection β} {read : ReadResult β} {k : Callback}
    (hclose : k ≠ .closeCallback_) (hread : k = .readCallback_ → read ≠ .data [])
    (hwrite : k = .writeCallback_ → c.channel_.isWriting = false) (write : WriteResult) :
    (c.runCallback read write k).1.state_ = c.state_ ∧
      (c.runCallback read write k).1.channel_ = c.channel_ ∧
      ∀ e ∈ (c.runCallback read write k).2, e = .messageCallback_ := by
  cases k with
  | closeCallback_ => exact absurd rfl hclose
  | errorCallback_ => exact ⟨rfl, rfl, fun e he => by cases he⟩
  | readCallback_ =>
    rcases read with bytes | _
    · have hpos : 0 < bytes.length := by
        refine List.length_pos_iff.2 fun hnil => ?_
        exact hread rfl (congrArg _ hnil)
      rw [runCallback, handleRead_of_pos c hpos]
      exact ⟨rfl, rfl, fun e he => List.mem_singleton.1 he⟩
    · exact ⟨rfl, rfl, fun e he => by cases he⟩
  | writeCallback_ =>
    rw [runCallback, handleWrite_of_not_isWriting (hwrite rfl)]
    exact ⟨rfl, rfl, fun e he => by cases he⟩

/-- A callback that leaves the connection down has closed it, or it was down and without interest,
and the callback left the interest alone. -/
theorem down_runCallback [Inhabited β] {c : TcpConnection β} {read : ReadResult β}
    {write : WriteResult} {k : Callback}
    (hd : (c.runCallback read write k).1.state_ = .kDisconnected) :
    (c.state_ = .kDisconnected ∧ (c.channel_.events_ = 0 →
        (c.runCallback read write k).1.channel_.events_ = c.channel_.events_)) ∨
      ((c.runCallback read write k).1.channel_.events_ = 0 ∧
        .connectionCallback_ false ∈ (c.runCallback read write k).2) := by
  cases k with
  | closeCallback_ => exact Or.inr ⟨rfl, by simp [runCallback, handleClose]⟩
  | errorCallback_ => exact Or.inl ⟨hd, fun _ => rfl⟩
  | readCallback_ =>
    rcases read with bytes | _
    · simp only [runCallback, handleRead] at hd ⊢
      split_ifs at hd ⊢
      · exact Or.inl ⟨hd, fun _ => rfl⟩
      · exact Or.inr ⟨rfl, by simp [handleClose]⟩
    · exact Or.inl ⟨hd, fun _ => rfl⟩
  | writeCallback_ =>
    refine Or.inl ⟨(state_handleWrite c write).symm.trans hd, fun hev => ?_⟩
    have hw : c.channel_.isWriting = false := by
      rw [Channel.isWriting, hev]
      exact Mask.has_zero
    simp [runCallback, handleWrite, hw]

/-- The same for a task. -/
theorem down_runTask [Inhabited β] {c : TcpConnection β} {r : WriteResult} {task : Task β}
    (he : task ≠ .connectEstablished) (hd : (c.runTask r task).1.state_ = .kDisconnected) :
    (c.state_ = .kDisconnected ∧ (c.runTask r task).1 = c) ∨
      ((c.runTask r task).1.channel_.events_ = 0 ∧
        .connectionCallback_ false ∈ (c.runTask r task).2) := by
  by_cases hdes : task = .connectDestroyed
  · subst hdes
    unfold runTask connectDestroyed at hd ⊢
    split_ifs at hd ⊢
    · exact Or.inr ⟨rfl, by simp⟩
    · exact Or.inl ⟨hd, rfl⟩
  · rw [state_runTask_of_ne c r he hdes] at hd
    exact Or.inl ⟨hd, (runTask_of_noData (Or.inl hd) r he hdes).1⟩

end TcpConnection

end Muduo
