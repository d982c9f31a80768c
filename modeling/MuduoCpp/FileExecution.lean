import MuduoCpp.SendFile
import MuduoCpp.Teardown

/-!
# One execution of `sendFileInLoop`

It hands a piece of the file to the kernel, queues itself for the rest, and tells the user when
there is none.  It tests `state_` for `kDisconnecting`, where `sendInLoop` tests it for
`kDisconnected`.

`file_quiet_iff`: when the transfers of a connection that is down leave the kernel and the queue
alone.
-/

namespace Muduo

variable {τ β : Type}

/-! ### One execution -/

/-- The callback of a write that is complete. -/
def Task.isComplete : Task β → Bool
  | .writeCompleteCallback_ => true
  | _ => false

namespace TcpConnection

/-- What an execution of `sendFileInLoop` hands to the kernel. -/
def fileSent (c : TcpConnection β) (r : WriteResult) : ℕ := if c.sendsFile then r.nwrote else 0

/-- An execution queues the rest of the file. -/
def requeues (c : TcpConnection β) (count : ℕ) (r : WriteResult) : Bool :=
  c.state_ != .kDisconnecting && !(c.isIdle && r.isFault) && 0 < count - c.fileSent r

variable (c : TcpConnection β) (file : List β) (offset count : ℕ) (r : WriteResult)

theorem wire_sendFileInLoop : wire (c.sendFileInLoop file offset count r).2 =
    ((file.drop offset).take count).take (c.fileSent r) := by
  unfold sendFileInLoop fileSent sendsFile
  by_cases hd : c.state_ = .kDisconnecting
  · simp [hd]
  cases hi : c.isIdle <;> simp [hd]

variable {c count r}

theorem length_wire_sendFileInLoop (hr : r.nwrote ≤ ((file.drop offset).take count).length) :
    (wire (c.sendFileInLoop file offset count r).2).length = c.fileSent r ∧
      c.fileSent r ≤ count := by
  have hn : c.fileSent r ≤ ((file.drop offset).take count).length := by
    unfold fileSent
    split_ifs
    · exact hr
    · exact Nat.zero_le _
  rw [wire_sendFileInLoop, List.length_take, Nat.min_eq_left hn]
  exact ⟨rfl, hn.trans (List.length_take_le _ _)⟩

/-- An execution that is not the last one was not refused for good, and something is left. -/
theorem requeues_iff (hs : c.state_ ≠ .kDisconnecting) :
    c.requeues count r = true ↔
      (c.isIdle = true → r.isFault = false) ∧ c.fileSent r < count := by
  unfold requeues
  cases c.isIdle <;> simp [hs]

theorem queued_of_requeues (h : c.requeues count r = true) :
    queued (c.sendFileInLoop file offset count r).2 =
      [.sendFileInLoop file (offset + c.fileSent r) (count - c.fileSent r)] := by
  unfold requeues at h
  simp only [Bool.and_eq_true, bne_iff_ne, Bool.not_eq_true', decide_eq_true_eq] at h
  obtain ⟨⟨hd, hf⟩, hpos⟩ := h
  have hsends : c.sendsFile = c.isIdle := by simp [sendsFile, hd]
  unfold fileSent at hpos ⊢
  rw [hsends] at hpos ⊢
  unfold sendFileInLoop
  cases hi : c.isIdle with
  | false =>
    simp only [hi, Bool.false_eq_true, if_false, Nat.sub_zero] at hpos
    simp [hd, Effect.queueIf, queued, Effect.queued, hpos]
  | true =>
    simp only [hi, if_true, Bool.true_and] at hpos hf
    have hne : (count - r.nwrote == 0) = false := by
      rw [beq_eq_false_iff_ne]
      omega
    simp only [hd, if_false, if_true, hne, hf, hpos, Effect.queueIf, Bool.and_false, Bool.false_and,
      Bool.false_eq_true, Bool.not_false, decide_true, Bool.and_self, List.nil_append, queued]
    exact List.filterMap_cons_none (queued_ofWrite _ _)

/-- The execution that ends a transfer queues a write-complete task at most. -/
theorem queued_of_not_requeues (h : c.requeues count r = false) :
    queued (c.sendFileInLoop file offset count r).2 =
      queued (Effect.queueIf (c.sendsFile && r.isSent && count - r.nwrote == 0 &&
        c.writeCompleteCallback_) .writeCompleteCallback_) := by
  unfold requeues at h
  unfold sendFileInLoop
  by_cases hd : c.state_ = .kDisconnecting
  · simp [hd, sendsFile, Effect.queueIf, queued]
  · have hsends : c.sendsFile = c.isIdle := by simp [sendsFile, hd]
    unfold fileSent at h
    rw [hsends] at h ⊢
    cases hi : c.isIdle with
    | false =>
      have hzero : count = 0 := by simpa [hd, hi] using h
      simp [hd, hzero, Effect.queueIf, queued]
    | true =>
      have hrest : (!r.isFault && decide (0 < count - r.nwrote)) = false := by
        simpa [hd, hi] using h
      simp only [hd, if_false, if_true, hrest, Bool.true_and]
      simp [queued, queued_ofWrite, Effect.queueIf]

/-- A transfer for a connection that is down hands nothing to the kernel and is not queued again. -/
theorem sendFileInLoop_quiet_iff (hd : c.state_ = .kDisconnected)
    (hw : c.channel_.isWriting = false)
    (hr : r.nwrote ≤ ((file.drop offset).take count).length) :
    (wire (c.sendFileInLoop file offset count r).2 = [] ∧
        (queued (c.sendFileInLoop file offset count r).2).countP Task.isFile = 0) ↔
      count = 0 ∨ (c.outputBuffer_.readableBytes = 0 ∧ r.isFault = true) := by
  have hcount : ((file.drop offset).take count).length ≤ count := List.length_take_le _ _
  have hidle : c.isIdle = (c.outputBuffer_.readableBytes == 0) := by simp [isIdle, hw]
  have hsends : c.sendsFile = c.isIdle := by simp [sendsFile, hd]
  have hreq : c.requeues count r = (!(c.isIdle && r.isFault) && 0 < count - c.fileSent r) := by
    simp [requeues, hd, show (StateE.kDisconnected != .kDisconnecting) = true from rfl]
  rw [wire_sendFileInLoop]
  constructor
  · rintro ⟨hwire, hfile⟩
    have hnot : c.requeues count r = false := by
      by_contra h
      rw [Bool.not_eq_false] at h
      rw [queued_of_requeues file offset h] at hfile
      simp [Task.isFile] at hfile
    have hsent : c.fileSent r = 0 := by
      have hlen := congrArg List.length hwire
      rw [List.length_take, List.length_nil] at hlen
      unfold fileSent at hlen ⊢
      split_ifs at hlen ⊢ <;> omega
    rw [hreq, hsent] at hnot
    rw [hidle] at hnot
    by_cases h0 : count = 0
    · exact Or.inl h0
    · right
      simpa [Nat.pos_of_ne_zero h0] using hnot
  · intro h
    have hsent : c.fileSent r = 0 := by
      unfold fileSent
      split_ifs
      · rcases h with rfl | ⟨-, hf⟩
        · omega
        · exact WriteResult.nwrote_of_isFault hf
      · rfl
    have hnot : c.requeues count r = false := by
      rw [hreq, hsent, hidle]
      rcases h with rfl | ⟨h0, hf⟩
      · simp
      · simp [h0, hf]
    rw [hsent, queued_of_not_requeues file offset hnot]
    refine ⟨rfl, ?_⟩
    unfold Effect.queueIf
    split_ifs <;> rfl

/-- The write-complete task is queued by the execution that takes the rest. -/
theorem completes_sendFileInLoop {k : ℕ} (hk : k < count) (hn : c.fileSent r ≤ count - k)
    (hset : c.writeCompleteCallback_ = true) :
    (queued (c.sendFileInLoop file offset (count - k) r).2).countP Task.isComplete =
      if k + c.fileSent r = count then 1 else 0 := by
  cases hreq : c.requeues (count - k) r with
  | true =>
    rw [queued_of_requeues file offset hreq]
    unfold requeues at hreq
    simp only [Bool.and_eq_true, decide_eq_true_eq] at hreq
    rw [if_neg (by omega)]
    rfl
  | false =>
    rw [queued_of_not_requeues file offset hreq, hset]
    unfold fileSent at hn ⊢
    cases hsends : c.sendsFile with
    | false => simp [Effect.queueIf, queued, Nat.ne_of_lt hk]
    | true =>
      rw [hsends] at hn
      simp only [if_true] at hn ⊢
      by_cases hall : k + r.nwrote = count
      · have hsent : r.isSent = true := WriteResult.isSent_of_pos (by omega)
        have hzero : count - k - r.nwrote = 0 := by omega
        rw [if_pos hall]
        simp [hsent, hzero, Effect.queueIf, queued, Effect.queued, Task.isComplete]
      · have hne : (count - k - r.nwrote == 0) = false := by
          rw [beq_eq_false_iff_ne]
          omega
        rw [if_neg hall]
        simp [hne, Effect.queueIf, queued]

/-! The user's callbacks are set before the connection is established. -/

theorem writeComplete_runTask [Inhabited β] (task : Task β) :
    (c.runTask r task).1.writeCompleteCallback_ = c.writeCompleteCallback_ := by
  cases task with
  | sendInLoop data =>
    unfold runTask sendInLoop saveRemaining
    simp only
    split_ifs <;> rfl
  | sendFileInLoop file offset count => simp [runTask]
  | connectDestroyed =>
    unfold runTask connectDestroyed
    split_ifs <;> rfl
  | connectEstablished | shutdownInLoop | writeCompleteCallback_ | highWaterMarkCallback_ => rfl

theorem writeComplete_runCallback [Inhabited β] (read : ReadResult β) (k : Callback) :
    (c.runCallback read r k).1.writeCompleteCallback_ = c.writeCompleteCallback_ := by
  cases k with
  | closeCallback_ | errorCallback_ => rfl
  | readCallback_ =>
    rcases read with bytes | _
    · simp only [runCallback, handleRead]
      split_ifs <;> rfl
    · rfl
  | writeCallback_ =>
    unfold runCallback handleWrite
    simp only
    split_ifs <;> rfl

end TcpConnection

/-! ### A connection that is down -/

namespace Session

/-- The count of the file whose task the step runs for a connection that is down. -/
def downFile (s : Session τ β) : Label τ β → Option (ℕ × WriteResult)
  | .task r =>
      match s.conn.state_, s.pending with
      | .kDisconnected, (_, .sendFileInLoop _ _ count) :: _ => some (count, r)
      | _, _ => none
  | _ => none

/-- Nothing is left of the file, or `sendfile` is called and fails for good. -/
def FileStops (s : Session τ β) (l : Label τ β) : Prop :=
  ∀ p ∈ s.downFile l, p.1 = 0 ∨ (s.conn.outputBuffer_.readableBytes = 0 ∧ p.2.isFault = true)

instance (s : Session τ β) : DecidablePred s.FileStops := fun l => inferInstanceAs (Decidable
  (∀ p ∈ s.downFile l, p.1 = 0 ∨ (s.conn.outputBuffer_.readableBytes = 0 ∧ p.2.isFault = true)))

theorem downFile_eq_some {s : Session τ β} {l : Label τ β} {p : ℕ × WriteResult}
    (h : s.downFile l = some p) : l = .task p.2 ∧ s.conn.state_ = .kDisconnected ∧
      ∃ q file offset rest, s.pending = (q, .sendFileInLoop file offset p.1) :: rest := by
  unfold downFile at h
  split at h
  · split at h
    · rename_i r _ _ q file offset count rest hs hp
      obtain rfl := Option.some.inj h
      exact ⟨rfl, hs, q, file, offset, rest, hp⟩
    · cases h
  · cases h

variable [Inhabited β] [DecidableEq τ]

/-- A transfer that runs for a connection that is down hands over no byte and queues no file. -/
def FileQuiet (s : Session τ β) (l : Label τ β) : Prop :=
  (s.downFile l).isSome = true → wire (s.after l).log = wire s.log ∧
    (s.after l).pending.countP (fun e => e.2.isFile) =
      s.pending.tail.countP fun e => e.2.isFile

theorem fileQuiet_iff_fileStops {s : Session τ β} {l : Label τ β} (h : s.Ending)
    (hen : s.enabled l) : s.FileQuiet l ↔ s.FileStops l := by
  unfold FileQuiet FileStops
  cases hp : s.downFile l with
  | none => simp
  | some p =>
    obtain ⟨rfl, hd, q, file, offset, rest, hpend⟩ := downFile_eq_some hp
    have hr : p.2.nwrote ≤ ((file.drop offset).take p.1).length := by
      have hfits := hen.2.2
      unfold taskFits at hfits
      simpa [hpend, Task.asks] using hfits
    have hw : s.conn.channel_.isWriting = false := by
      obtain ⟨-, hrep⟩ := h.phase.resolve_left fun hf => by
        rw [hf.state] at hd
        cases hd
      simp [Channel.isWriting, Mask.has, hrep.events hd]
    have hquiet : (wire (s.conn.sendFileInLoop file offset p.1 p.2).2 = [] ∧
          (queued (s.conn.sendFileInLoop file offset p.1 p.2).2).countP Task.isFile = 0) ↔
        p.1 = 0 ∨ (s.conn.outputBuffer_.readableBytes = 0 ∧ p.2.isFault = true) :=
      TcpConnection.sendFileInLoop_quiet_iff file offset hd hw hr
    rw [after_task hpend, hpend]
    simp only [runTask, perform_log, perform_pending, TcpConnection.runTask, wire_append,
      List.append_right_eq_self, List.countP_append, List.countP_map, List.tail_cons,
      Option.isSome_some, true_imp_iff, Option.mem_some_iff, forall_eq']
    rw [← hquiet]
    refine and_congr_right fun _ => ?_
    rw [Nat.add_eq_left]
    rfl

/-- **Transfers of a connection that is down.**  In every run, whatever transfers are under way:
every execution of `sendFileInLoop` in state `kDisconnected` leaves the kernel and the queue alone
exactly when each of them has nothing left to send, or finds `outputBuffer_` empty and is refused
for good. -/
theorem file_quiet_iff {sockfd : ℤ} {writeComplete highWater : Bool} {mark : ℕ}
    {ls : List (Label τ β)} {s : Session τ β}
    (h : Lts.exec step (init sockfd writeComplete highWater mark) ls = some s) :
    Lts.Along step FileQuiet (init sockfd writeComplete highWater mark) ls ↔
      Lts.Along step FileStops (init sockfd writeComplete highWater mark) ls :=
  Lts.guarded_along_iff' (I := Ending)
    (fun _ _ hs _ hen => ending_after hs hen) (fun _ _ hs hen => fileQuiet_iff_fileStops hs hen)
    ⟨dispatching_init _ _ _ _, Or.inl (fresh_init _ _ _ _)⟩ h

/-- Two of three bytes of a file are left when the peer closes. -/
private def closedRun : List (Label Unit ℕ) :=
  [.task (.sent 0), .sendFile [1, 2, 3] 0 3 (.sent 1), .poll EPOLLIN, .handleEvent,
    .readCallback (.data [])]

/-- The next execution is refused for good. -/
theorem file_quiet_iff_refused :
    ∃ s : Session Unit ℕ,
      Lts.exec step (init 5 false false 100) (closedRun ++ [.task (.failed .EPIPE)]) = some s ∧
        Lts.Along step FileQuiet (init 5 false false 100 : Session Unit ℕ)
          (closedRun ++ [.task (.failed .EPIPE)]) := by
  have hrun : (Lts.exec step (init 5 false false 100 : Session Unit ℕ)
    (closedRun ++ [.task (.failed .EPIPE)])).isSome = true := by decide +kernel
  have hdone : Lts.Along step FileStops (init 5 false false 100 : Session Unit ℕ)
    (closedRun ++ [.task (.failed .EPIPE)]) := by decide +kernel
  have hs := (Option.some_get hrun).symm
  exact ⟨_, hs, (file_quiet_iff hs).2 hdone⟩

/-- The same with a byte in `outputBuffer_`. -/
private def closedBusyRun : List (Label Unit ℕ) :=
  [.task (.sent 0), .sendFile [1, 2, 3] 0 3 (.sent 1), .send [9] (.failed .EWOULDBLOCK),
    .poll EPOLLIN, .handleEvent, .readCallback (.data [])]

/-- On the closed connection one more byte goes to the kernel, and the task is queued for the last
one; or it is queued as it was, because `outputBuffer_` will never be empty. -/
theorem file_after_close :
    (∃ s t : Session Unit ℕ, Lts.exec step (init 5 false false 100) closedRun = some s ∧
      s.conn.state_ = .kDisconnected ∧ step s (.task (.sent 1)) = some t ∧
      wire s.log = [1] ∧ wire t.log = [1, 2] ∧
      t.pending = [(none, .sendFileInLoop [1, 2, 3] 2 1)]) ∧
    ∃ s t : Session Unit ℕ, Lts.exec step (init 5 false false 100) closedBusyRun = some s ∧
      s.conn.state_ = .kDisconnected ∧ step s (.task (.sent 0)) = some t ∧
      t.pending = s.pending ∧ t.pending = [(none, .sendFileInLoop [1, 2, 3] 1 2)] := by
  have hrun : (Lts.exec step (init 5 false false 100) closedRun).any (fun s : Session Unit ℕ =>
      (step s (.task (.sent 1))).any fun t =>
        s.conn.state_ == .kDisconnected && wire s.log == [1] && wire t.log == [1, 2] &&
          t.pending == [(none, .sendFileInLoop [1, 2, 3] 2 1)]) = true := by decide +kernel
  have hbusy : (Lts.exec step (init 5 false false 100) closedBusyRun).any
      (fun s : Session Unit ℕ => (step s (.task (.sent 0))).any fun t =>
        s.conn.state_ == .kDisconnected && t.pending == s.pending &&
          t.pending == [(none, .sendFileInLoop [1, 2, 3] 1 2)]) = true := by decide +kernel
  obtain ⟨s, hs, hp⟩ := Lts.exec_of_any hrun
  obtain ⟨t, ht, hp⟩ := Option.any_eq_true _ _ |>.1 hp
  obtain ⟨u, hu, hq⟩ := Lts.exec_of_any hbusy
  obtain ⟨v, hv, hq⟩ := Option.any_eq_true _ _ |>.1 hq
  simp only [Bool.and_eq_true, beq_iff_eq] at hp hq
  obtain ⟨⟨⟨hdown, hwire⟩, hwire'⟩, hpend⟩ := hp
  obtain ⟨⟨hdown', hsame⟩, hpend'⟩ := hq
  exact ⟨⟨s, t, hs, hdown, ht, hwire, hwire', hpend⟩, u, v, hu, hdown', hv, hsame, hpend'⟩

end Session

end Muduo
