import MuduoCpp.OutputStream

/-!
# `send()` and `sendFile()` on one stream

`send` keeps what the kernel does not take in `outputBuffer_`, `sendFile` in a task that it queues
again.  `sendInLoop` looks at `outputBuffer_` and not at the queue, so that data sent while a file
is under way goes before the rest of the file.

`stream_in_call_order`: as long as nothing is sent while a file is under way, the kernel gets a
prefix of what was asked to be sent, in the order of the calls.
-/

namespace Muduo

variable {τ β : Type}

namespace Task

/-- The rest of a file. -/
def isFile : Task β → Bool
  | .sendFileInLoop _ _ _ => true
  | _ => false

/-- The bytes of the file that the task still has to send. -/
def fileBytes : Task β → List β
  | .sendFileInLoop file offset count => (file.drop offset).take count
  | _ => []

/-- The task of a `send`. -/
def isSend : Task β → Bool
  | .sendInLoop _ => true
  | _ => false

theorem fileBytes_of_isFile {task : Task β} (h : task.isFile = false) : task.fileBytes = [] := by
  cases task <;> simp_all [isFile, fileBytes]

end Task

/-- The bytes of the files under way. -/
def filesOf (tasks : List (Task β)) : List β := tasks.flatMap Task.fileBytes

@[simp] theorem filesOf_append (l m : List (Task β)) : filesOf (l ++ m) = filesOf l ++ filesOf m :=
  List.flatMap_append

theorem filesOf_eq_nil {l : List (Task β)} (h : l.countP Task.isFile = 0) : filesOf l = [] := by
  refine List.flatMap_eq_nil_iff.2 fun task htask => Task.fileBytes_of_isFile ?_
  simpa using List.countP_eq_zero.1 h task htask

/-! ### Which functions queue a file -/

namespace TcpConnection

/-- `es` queues no file. -/
def NoFile (es : List (Effect β)) : Prop := (queued es).countP Task.isFile = 0

theorem noFile_cons {e : Effect β} {es : List (Effect β)} (he : e.queued = none) (hes : NoFile es) :
    NoFile (e :: es) := by
  rwa [NoFile, queued, List.filterMap_cons, he]

theorem noFile_append {es fs : List (Effect β)} (he : NoFile es) (hf : NoFile fs) :
    NoFile (es ++ fs) := by
  rw [NoFile, queued_append, List.countP_append, he, hf]

theorem noFile_queueIf {cond : Bool} {task : Task β} (h : task.isFile = false) :
    NoFile (Effect.queueIf cond task) := by
  cases cond <;> simp [NoFile, Effect.queueIf, queued, Effect.queued, h]

theorem queued_ofWrite (r : WriteResult) (data : List β) :
    (Effect.ofWrite r data).queued = none := by
  cases r <;> rfl

theorem noFile_shutdownInLoop (c : TcpConnection β) : NoFile c.shutdownInLoop := by
  unfold shutdownInLoop
  split_ifs <;> rfl

theorem noFile_saveRemaining [Inhabited β] (c : TcpConnection β) (data : List β) :
    NoFile (c.saveRemaining data).2 := by
  unfold saveRemaining
  simp only
  split_ifs
  · rfl
  · exact noFile_queueIf rfl
  · exact noFile_append (noFile_queueIf rfl) rfl

theorem noFile_sendInLoop [Inhabited β] (c : TcpConnection β) (data : List β) (r : WriteResult) :
    NoFile (c.sendInLoop data r).2 := by
  unfold sendInLoop
  simp only
  split_ifs
  · rfl
  · exact noFile_cons (queued_ofWrite _ _) (noFile_append (noFile_queueIf rfl) rfl)
  · exact noFile_cons (queued_ofWrite _ _)
      (noFile_append (noFile_queueIf rfl) (noFile_saveRemaining _ _))
  · exact noFile_saveRemaining _ _

theorem noFile_handleWrite (c : TcpConnection β) (r : WriteResult) :
    NoFile (c.handleWrite r).2 := by
  unfold handleWrite
  simp only
  split_ifs
  · exact noFile_cons (queued_ofWrite _ _) (noFile_cons rfl
      (noFile_append (noFile_queueIf rfl) (noFile_shutdownInLoop _)))
  · exact noFile_cons (queued_ofWrite _ _)
      (noFile_cons rfl (noFile_append (noFile_queueIf rfl) rfl))
  · exact noFile_cons (queued_ofWrite _ _) rfl
  · exact noFile_cons (queued_ofWrite _ _) rfl
  · rfl

theorem noFile_handleRead [Inhabited β] (c : TcpConnection β) (r : ReadResult β) :
    NoFile (c.handleRead r).2 := by
  rcases r with bytes | _
  · simp only [handleRead]
    split_ifs <;> rfl
  · rfl

theorem noFile_runTask [Inhabited β] (c : TcpConnection β) (r : WriteResult) {task : Task β}
    (h : task.isFile = false) : NoFile (c.runTask r task).2 := by
  cases task with
  | connectEstablished => rfl
  | connectDestroyed =>
    unfold runTask connectDestroyed
    split_ifs <;> rfl
  | sendInLoop data => exact noFile_sendInLoop c data r
  | sendFileInLoop file offset count => cases h
  | shutdownInLoop => exact noFile_shutdownInLoop c
  | writeCompleteCallback_ => rfl
  | highWaterMarkCallback_ mark => rfl

theorem countP_queueIf (cond : Bool) (task : Task β) :
    (queued (Effect.queueIf cond task)).countP Task.isFile ≤ cond.toNat := by
  cases cond
  · exact Nat.le_refl 0
  · exact List.countP_le_length

theorem filesOf_queueIf (cond : Bool) (task : Task β) :
    filesOf (queued (Effect.queueIf cond task)) = if cond then task.fileBytes else [] := by
  cases cond <;> simp [filesOf, Effect.queueIf, queued, Effect.queued]

/-- What `sendFileInLoop` queues of its file. -/
theorem queued_sendFileInLoop (c : TcpConnection β) (file : List β) (offset count : ℕ)
    (r : WriteResult) : ∃ done, NoFile done ∧
    queued (c.sendFileInLoop file offset count r).2 = queued done ++
      if c.state_ = .kDisconnecting then []
      else if c.isIdle then queued (Effect.queueIf (!r.isFault && 0 < count - r.nwrote)
        (.sendFileInLoop file (offset + r.nwrote) (count - r.nwrote)))
      else queued (Effect.queueIf (0 < count) (.sendFileInLoop file offset count)) := by
  unfold sendFileInLoop
  simp only
  split_ifs with hs hi
  · exact ⟨[], rfl, rfl⟩
  · refine ⟨.ofWrite r ((file.drop offset).take count) :: Effect.queueIf
      (r.isSent && count - r.nwrote == 0 && c.writeCompleteCallback_) .writeCompleteCallback_,
      noFile_cons (queued_ofWrite _ _) (noFile_queueIf rfl), ?_⟩
    rw [← queued_append]
    rfl
  · exact ⟨[], rfl, rfl⟩

/-- It queues at most one file, and none for nothing. -/
theorem countP_sendFileInLoop (c : TcpConnection β) (file : List β) (offset count : ℕ)
    (r : WriteResult) :
    (queued (c.sendFileInLoop file offset count r).2).countP Task.isFile ≤ min 1 count := by
  obtain ⟨done, hdone, hq⟩ := queued_sendFileInLoop c file offset count r
  rw [hq, List.countP_append, hdone, Nat.zero_add]
  have hbool : ∀ (b : Bool), (b = true → 0 < count) → b.toNat ≤ min 1 count := by
    intro b hb
    cases b
    · exact Nat.zero_le _
    · exact le_min (Nat.le_refl 1) (hb rfl)
  split_ifs
  · exact Nat.zero_le _
  · refine (countP_queueIf _ _).trans (hbool _ fun h => ?_)
    simp only [Bool.and_eq_true, decide_eq_true_eq] at h
    omega
  · exact (countP_queueIf _ _).trans (hbool _ fun h => of_decide_eq_true h)

/-- **Sent or queued again**: as long as it does not give up, `sendFileInLoop` keeps every byte. -/
theorem sendFileInLoop_files (c : TcpConnection β) (file : List β) (offset count : ℕ)
    {r : WriteResult} (hs : c.state_ ≠ .kDisconnecting) (hr : c.isIdle = true → r.isFault = false) :
    takenBytes (c.taken r (.sendFileInLoop file offset count)) ++
        filesOf (queued (c.sendFileInLoop file offset count r).2) =
      (file.drop offset).take count := by
  obtain ⟨done, hdone, hq⟩ := queued_sendFileInLoop c file offset count r
  rw [hq, filesOf_append, filesOf_eq_nil hdone, List.nil_append, if_neg hs]
  have hsends : c.sendsFile = c.isIdle := by simp [sendsFile, hs]
  cases hi : c.isIdle with
  | true =>
    have hrest : (if (0 < count - r.nwrote) then
        (file.drop (offset + r.nwrote)).take (count - r.nwrote) else []) =
        ((file.drop offset).take count).drop r.nwrote := by
      rw [List.drop_take, List.drop_drop]
      split_ifs with h0
      · rfl
      · rw [Nat.eq_zero_of_not_pos h0, List.take_zero]
    simp only [taken, hsends, hi, if_true, takenBytes, Option.elim_some, Payload.bytes,
      filesOf_queueIf, hr hi, Bool.not_false, Bool.true_and, decide_eq_true_eq, Task.fileBytes,
      hrest]
    exact List.take_append_drop _ _
  | false =>
    simp only [taken, hsends, hi, Bool.false_eq_true, if_false, takenBytes, Option.elim_none,
      List.nil_append, filesOf_queueIf, decide_eq_true_eq, Task.fileBytes]
    split_ifs with h0
    · rfl
    · rw [Nat.eq_zero_of_not_pos h0, List.take_zero]

end TcpConnection

namespace Session

/-- The result of a write: some bytes, or `EWOULDBLOCK`. -/
def NoError (r : WriteResult) : Prop := r.isSent = true ∨ r = .failed .EWOULDBLOCK

/-- Everything is called on the loop's thread, and no write fails otherwise than with
`EWOULDBLOCK`. -/
def OnLoop : Label τ β → Prop
  | .sendTest _ _ | .sendFileTest _ _ _ _ | .shutdownTest _ | .shutdownStore _ | .push _ => False
  | .task r | .writeCallback r | .send _ r | .sendFile _ _ _ r => NoError r
  | _ => True

/-- Nothing is sent while a file is under way. -/
def InTurn (s : Session τ β) : Label τ β → Prop
  | .send data _ => s.conn.connected = true → data ≠ [] → ∀ e ∈ s.pending, e.2.isFile = false
  | .sendFile _ _ count _ =>
      s.conn.connected = true → 0 < count → ∀ e ∈ s.pending, e.2.isFile = false
  | _ => True

instance : DecidablePred NoError := fun r =>
  inferInstanceAs (Decidable (r.isSent = true ∨ r = .failed .EWOULDBLOCK))

instance : DecidablePred (@OnLoop τ β)
  | .sendTest _ _ | .sendFileTest _ _ _ _ | .shutdownTest _ | .shutdownStore _ | .push _ =>
      isFalse id
  | .task r | .writeCallback r | .send _ r | .sendFile _ _ _ r =>
      inferInstanceAs (Decidable (NoError r))
  | .poll _ | .handleEvent | .closeCallback | .errorCallback | .readCallback _ | .shutdown
  | .retrieve _ | .queueDestroyed | .connectDestroyed => isTrue trivial

instance [DecidableEq β] (s : Session τ β) : DecidablePred (InTurn s)
  | .send data _ => inferInstanceAs (Decidable (s.conn.connected = true → data ≠ [] →
      ∀ e ∈ s.pending, e.2.isFile = false))
  | .sendFile _ _ count _ => inferInstanceAs (Decidable (s.conn.connected = true → 0 < count →
      ∀ e ∈ s.pending, e.2.isFile = false))
  | .poll _ | .handleEvent | .closeCallback | .errorCallback | .readCallback _ | .writeCallback _
  | .task _ | .shutdown | .retrieve _ | .queueDestroyed | .connectDestroyed | .sendTest _ _
  | .sendFileTest _ _ _ _ | .shutdownTest _ | .shutdownStore _ | .push _ => isTrue trivial

/-- What was given to the stream and what is left of the file under way are what was asked for, in
the order of the calls; all of it, until a half-close or a close gives the rest of the file up. -/
structure InCallOrder (s : Session τ β) : Prop where
  noSend : ∀ e ∈ s.pending, e.2.isSend = false
  one : (s.pending.map Prod.snd).countP Task.isFile ≤ 1
  whole : s.conn.state_ ≠ .kDisconnecting → s.conn.state_ ≠ .kDisconnected →
    stream s.accepted = stream s.given ++ filesOf (s.pending.map Prod.snd)
  order : stream s.given ++ filesOf (s.pending.map Prod.snd) <+: stream s.accepted

variable {s : Session τ β} {p : Option τ}

theorem not_isFault {r : WriteResult} (h : NoError r) : r.isFault = false := by
  rcases r with n | e
  · rfl
  · rcases h with h | h <;> cases h
    rfl

theorem tasks_perform (res : TcpConnection β × List (Effect β)) :
    (s.perform p res).pending.map Prod.snd = s.pending.map Prod.snd ++ queued res.2 := by
  rw [perform_pending, List.map_append, List.map_map]
  exact congrArg (_ ++ ·) (List.map_id _)

theorem noSend_perform (h : ∀ e ∈ s.pending, e.2.isSend = false)
    {res : TcpConnection β × List (Effect β)} (hq : TcpConnection.QueuesOwn res.2) :
    ∀ e ∈ (s.perform p res).pending, e.2.isSend = false := by
  intro e he
  rcases List.mem_append.1 he with he | he
  · exact h e he
  · obtain ⟨task, htask, rfl⟩ := List.mem_map.1 he
    have := hq task htask
    cases task <;> simp_all [Task.isOwn, Task.isSend]

/-- A function of the connection that does not open it again and queues no file. -/
theorem inCallOrder_perform (h : s.InCallOrder) {res : TcpConnection β × List (Effect β)}
    (hing : s.conn.state_ = .kDisconnecting →
      res.1.state_ = .kDisconnecting ∨ res.1.state_ = .kDisconnected)
    (hdown : s.conn.state_ = .kDisconnected → res.1.state_ = .kDisconnected)
    (hq : TcpConnection.QueuesOwn res.2) (hfile : TcpConnection.NoFile res.2) :
    (s.perform p res).InCallOrder := by
  have hfiles : filesOf ((s.perform p res).pending.map Prod.snd) =
      filesOf (s.pending.map Prod.snd) := by
    rw [tasks_perform, filesOf_append, filesOf_eq_nil hfile, List.append_nil]
  refine ⟨noSend_perform h.noSend hq, ?_, fun h1 h2 => ?_, ?_⟩
  · rw [tasks_perform, List.countP_append, hfile]
    exact h.one
  · rw [hfiles]
    refine h.whole (fun hs => ?_) fun hs => h2 (hdown hs)
    exact (hing hs).elim h1 h2
  · rw [hfiles]
    exact h.order

variable [Inhabited β] [DecidableEq τ]

omit [DecidableEq τ] in
/-- The rest of the file has its turn: `rest` is the queue without it. -/
theorem inCallOrder_file {u : Session τ β} {file : List β} {offset count : ℕ} {r : WriteResult}
    (hnosend : ∀ e ∈ u.pending, e.2.isSend = false)
    (hnone : (u.pending.map Prod.snd).countP Task.isFile = 0 ∨ count = 0)
    (hone : (u.pending.map Prod.snd).countP Task.isFile ≤ 1) (hr : NoError r) (q : Option τ)
    (hwhole : u.conn.state_ ≠ .kDisconnecting → u.conn.state_ ≠ .kDisconnected →
      stream u.accepted = stream u.given ++ filesOf (u.pending.map Prod.snd) ++
        (file.drop offset).take count)
    (horder : stream u.given ++ filesOf (u.pending.map Prod.snd) ++
        (file.drop offset).take count <+:
      stream u.accepted) :
    (u.runTask q (.sendFileInLoop file offset count) r).InCallOrder := by
  have hcount := u.conn.countP_sendFileInLoop file offset count r
  have hgiven : stream (u.runTask q (.sendFileInLoop file offset count) r).given = stream u.given ++
      TcpConnection.takenBytes (u.conn.taken r (.sendFileInLoop file offset count)) :=
    stream_runTask u q _ r
  have htasks : (u.runTask q (.sendFileInLoop file offset count) r).pending.map Prod.snd =
      u.pending.map Prod.snd ++ queued (u.conn.sendFileInLoop file offset count r).2 :=
    tasks_perform _
  have hstate : (u.runTask q (.sendFileInLoop file offset count) r).conn.state_ =
      u.conn.state_ := by
    show (u.conn.sendFileInLoop file offset count r).1.state_ = _
    rw [TcpConnection.sendFileInLoop_fst]
  -- nothing stands between what was given and the bytes of this file
  have hsplit : u.conn.state_ ≠ .kDisconnecting →
      stream (u.runTask q (.sendFileInLoop file offset count) r).given ++
          filesOf ((u.runTask q (.sendFileInLoop file offset count) r).pending.map Prod.snd) =
        stream u.given ++ filesOf (u.pending.map Prod.snd) ++ (file.drop offset).take count := by
    intro hs
    have hkeep := u.conn.sendFileInLoop_files file offset count hs fun _ => not_isFault hr
    rw [hgiven, htasks, filesOf_append]
    rcases hnone with hnone | rfl
    · rw [filesOf_eq_nil hnone, List.nil_append, List.append_nil, List.append_assoc, hkeep]
    · rw [List.take_zero, List.append_eq_nil_iff] at hkeep
      rw [hkeep.1, hkeep.2, List.take_zero, List.append_nil, List.append_nil, List.append_nil]
  refine ⟨noSend_perform hnosend (TcpConnection.queuesOwn_runTask _ _ _), ?_, ?_, ?_⟩
  · rw [htasks, List.countP_append]
    omega
  · intro h1 h2
    rw [hstate] at h1 h2
    rw [hsplit h1]
    exact hwhole h1 h2
  · by_cases hs : u.conn.state_ = .kDisconnecting
    · -- the rest of the file is given up
      have htaken : u.conn.taken r (.sendFileInLoop file offset count) = none := by
        simp [TcpConnection.taken, TcpConnection.sendsFile, hs]
      have hqueued : (u.conn.sendFileInLoop file offset count r).2 = [] := by
        simp [TcpConnection.sendFileInLoop, hs]
      rw [hgiven, htasks, htaken, hqueued]
      simp only [TcpConnection.takenBytes, Option.elim_none, List.append_nil, queued,
        List.filterMap_nil]
      exact (List.prefix_append _ _).trans horder
    · rw [hsplit hs]
      exact horder

omit [DecidableEq τ] in
/-- A task that is not a `send` has its turn. -/
theorem inCallOrder_runTask {e : From τ (Task β)} {rest : List (From τ (Task β))} {r : WriteResult}
    (h : s.InCallOrder) (hest : s.Fresh ∨ s.Ran) (hp : s.pending = e :: rest) (hr : NoError r) :
    (({ s with pending := rest } : Session τ β).runTask e.1 e.2 r).InCallOrder := by
  obtain ⟨hnosend, hone, hwhole, horder⟩ := h
  obtain ⟨q, task⟩ := e
  rw [hp] at hnosend hone hwhole horder
  rw [List.map_cons, List.countP_cons] at hone
  have hrest : ∀ e ∈ rest, e.2.isSend = false := fun e he => hnosend e (List.mem_cons_of_mem _ he)
  have hfiles : filesOf (((q, task) :: rest).map Prod.snd) =
      task.fileBytes ++ filesOf (rest.map Prod.snd) := rfl
  rw [hfiles] at hwhole horder
  cases hfile : task.isFile with
  | true =>
    cases task with
    | sendFileInLoop file offset count =>
      have hnone : (rest.map Prod.snd).countP Task.isFile = 0 := by
        simp only [Task.isFile, if_true] at hone
        omega
      rw [filesOf_eq_nil hnone, List.append_nil] at hwhole horder
      refine inCallOrder_file hrest (Or.inl hnone) (by rw [hnone]; exact Nat.zero_le 1) hr q ?_ ?_
      · rwa [filesOf_eq_nil hnone, List.append_nil]
      · rwa [filesOf_eq_nil hnone, List.append_nil]
    | _ => cases hfile
  | false =>
    rw [Task.fileBytes_of_isFile hfile, List.nil_append] at hwhole horder
    have hu : ({ s with pending := rest } : Session τ β).InCallOrder :=
      ⟨hrest, (Nat.le_add_right _ _).trans hone, hwhole, horder⟩
    have htaken : s.conn.taken r task = none := by
      have := hnosend _ List.mem_cons_self
      cases task <;> simp_all [Task.isSend, Task.isFile, TcpConnection.taken]
    rw [runTask_of_taken (s := { s with pending := rest }) htaken]
    rcases hest with hf | hran
    · refine inCallOrder_perform hu ?_ ?_ (TcpConnection.queuesOwn_runTask _ _ _)
        (TcpConnection.noFile_runTask _ _ hfile)
      · simp [hf.state]
      · simp [hf.state]
    · have hstate := s.conn.state_runTask r (hran (q, task) (by simp [hp]))
      exact inCallOrder_perform hu (fun hs => Or.inl (hstate.1.2 hs)) hstate.2
        (TcpConnection.queuesOwn_runTask _ _ _) (TcpConnection.noFile_runTask _ _ hfile)

omit [DecidableEq τ] [Inhabited β] in
theorem countP_isFile_eq_zero (h : ∀ e ∈ s.pending, e.2.isFile = false) :
    (s.pending.map Prod.snd).countP Task.isFile = 0 := by
  refine List.countP_eq_zero.2 fun task htask => ?_
  obtain ⟨e, he, rfl⟩ := List.mem_map.1 htask
  simp [h e he]

omit [DecidableEq τ] in
/-- The data of a `send` goes behind all that was given, if no file is under way. -/
theorem inCallOrder_send (h : s.InCallOrder) {data : List β} {r : WriteResult} (hr : NoError r)
    (hc : s.conn.state_ = .kConnected)
    (hturn : data ≠ [] → ∀ e ∈ s.pending, e.2.isFile = false) :
    ((s.accept none (.send data)).runTask none (.sendInLoop data) r).InCallOrder := by
  have hgives : s.conn.givesUp r = false := by simp [TcpConnection.givesUp, hc, not_isFault hr]
  have htaken : s.conn.taken r (.sendInLoop data) = some (.send data) := by
    simp [TcpConnection.taken, hgives]
  have hmove : filesOf (s.pending.map Prod.snd) ++ data =
      data ++ filesOf (s.pending.map Prod.snd) := by
    rcases eq_or_ne data [] with rfl | hne
    · simp
    · simp [filesOf_eq_nil (countP_isFile_eq_zero (hturn hne))]
  have hboth : stream (s.accept none (.send data)).accepted =
      stream (s.given ++ [(none, .send data)]) ++ filesOf (s.pending.map Prod.snd) := by
    have hwhole := h.whole (by simp [hc]) (by simp [hc])
    rw [accept, stream_append, stream_append, hwhole, List.append_assoc, List.append_assoc]
    exact congrArg (_ ++ ·) (by simpa [stream, Payload.bytes] using hmove)
  have hu : ({ s.accept none (.send data) with
      given := s.given ++ [(none, .send data)] } : Session τ β).InCallOrder :=
    ⟨h.noSend, h.one, fun _ _ => hboth, hboth ▸ List.prefix_rfl⟩
  have hrun : (s.accept none (.send data)).runTask none (.sendInLoop data) r =
      ({ s.accept none (.send data) with
        given := s.given ++ [(none, .send data)] } : Session τ β).perform none
          (s.conn.sendInLoop data r) := by
    have : (s.accept none (.send data)).conn.taken r (.sendInLoop data) = some (.send data) :=
      htaken
    simp only [runTask, this]
    rfl
  rw [hrun]
  refine inCallOrder_perform hu (fun hs => Or.inl ?_) (fun hs => ?_)
    (TcpConnection.queuesOwn_runTask s.conn r (.sendInLoop data))
    (TcpConnection.noFile_sendInLoop _ _ _)
  · rwa [TcpConnection.state_sendInLoop]
  · rwa [TcpConnection.state_sendInLoop]

omit [DecidableEq τ] in
/-- A file is put behind all that was asked for, if no other is under way. -/
theorem inCallOrder_sendFile (h : s.InCallOrder) {file : List β} {offset count : ℕ}
    {r : WriteResult}
    (hr : NoError r) (hc : s.conn.state_ = .kConnected)
    (hturn : 0 < count → ∀ e ∈ s.pending, e.2.isFile = false) :
    ((s.accept none (.file ((file.drop offset).take count))).runTask none
      (.sendFileInLoop file offset count) r).InCallOrder := by
  have hwhole := h.whole (by simp [hc]) (by simp [hc])
  have hboth : stream (s.accept none (.file ((file.drop offset).take count))).accepted =
      stream s.given ++ filesOf (s.pending.map Prod.snd) ++ (file.drop offset).take count := by
    rw [accept, stream_append, hwhole]
    simp [stream, Payload.bytes]
  refine inCallOrder_file (u := s.accept none (.file ((file.drop offset).take count))) h.noSend ?_
    h.one hr none (fun _ _ => hboth) (hboth ▸ List.prefix_rfl)
  rcases Nat.eq_zero_or_pos count with h0 | hpos
  · exact Or.inr h0
  · exact Or.inl (countP_isFile_eq_zero (hturn hpos))

theorem inCallOrder_after {l : Label τ β} (h : s.InCallOrder) (hest : s.Fresh ∨ s.Ran)
    (hl : OnLoop l) (hturn : InTurn s l) (hen : s.enabled l) : (s.after l).InCallOrder := by
  have htail : ({ s with running := s.running.tail } : Session τ β).InCallOrder :=
    ⟨h.1, h.2, h.3, h.4⟩
  have hdown : s.conn.connected = true → s.conn.state_ = .kConnected := by
    simp [TcpConnection.connected]
  cases l with
  | poll | handleEvent | retrieve => exact ⟨h.1, h.2, h.3, h.4⟩
  | closeCallback =>
    exact inCallOrder_perform htail (fun _ => Or.inr rfl) (fun _ => rfl)
      (TcpConnection.queuesOwn_handleClose _) rfl
  | errorCallback =>
    exact inCallOrder_perform htail Or.inl id (TcpConnection.queuesOwn_handleError _) rfl
  | readCallback r =>
    have hstate := s.conn.state_handleRead r
    refine inCallOrder_perform htail (fun hs => ?_) (fun hs => ?_)
      (TcpConnection.queuesOwn_handleRead _ _) (TcpConnection.noFile_handleRead _ _)
    · exact hstate.imp_left fun h => h.trans hs
    · exact hstate.elim (fun h => h.trans hs) id
  | writeCallback r =>
    refine inCallOrder_perform htail (fun hs => Or.inl ?_) (fun hs => ?_)
      (TcpConnection.queuesOwn_handleWrite _ _) (TcpConnection.noFile_handleWrite _ _)
    · rwa [TcpConnection.state_handleWrite]
    · rwa [TcpConnection.state_handleWrite]
  | task r =>
    obtain ⟨e, rest, hp⟩ := exists_pending hen.2.2
    rw [after_task hp]
    exact inCallOrder_runTask h hest hp hl
  | send data r =>
    simp only [after]
    split_ifs with hc
    · exact inCallOrder_send h hl (hdown hc) (hturn hc)
    · exact h
  | sendFile file offset count r =>
    simp only [after]
    split_ifs with hc
    · exact inCallOrder_sendFile h hl (hdown hc) (hturn hc)
    · exact h
  | shutdown =>
    simp only [after]
    split_ifs with hc
    · have hing : (s.setState .kDisconnecting).InCallOrder :=
        ⟨h.noSend, h.one, fun hne => absurd rfl hne, h.order⟩
      rw [runTask_of_taken rfl]
      exact inCallOrder_perform hing Or.inl id (TcpConnection.queuesOwn_runTask _ _ .shutdownInLoop)
        (TcpConnection.noFile_shutdownInLoop _)
    · exact h
  | queueDestroyed =>
    refine ⟨?_, ?_, ?_, ?_⟩
    · simpa [after, or_imp, forall_and, Task.isSend] using h.noSend
    · simpa [after, Task.isFile] using h.one
    · simpa [after, filesOf, Task.fileBytes] using h.whole
    · simpa [after, filesOf, Task.fileBytes] using h.order
  | connectDestroyed =>
    have hstate := s.conn.state_runTask (.sent 0)
      (show Task.connectDestroyed ≠ .connectEstablished by simp)
    simp only [after]
    rw [runTask_of_taken rfl]
    exact inCallOrder_perform h (fun hs => Or.inl (hstate.1.2 hs)) hstate.2
      (TcpConnection.queuesOwn_runTask _ _ _) (TcpConnection.noFile_runTask _ _ rfl)
  | sendTest | sendFileTest | shutdownTest | shutdownStore | push => exact hl.elim

/-- As long as nothing is sent while a file is under way, the kernel gets a prefix of what was asked
for, in the order of the calls. -/
theorem stream_in_call_order {sockfd : ℤ} {writeComplete highWater : Bool} {mark : ℕ}
    {ls : List (Label τ β)} {s : Session τ β} (hloop : ∀ l ∈ ls, OnLoop l)
    (hturn : Lts.Along step InTurn (init sockfd writeComplete highWater mark) ls)
    (h : Lts.exec step (init sockfd writeComplete highWater mark) ls = some s) :
    wire s.log <+: stream s.accepted := by
  have hinit : (init sockfd writeComplete highWater mark : Session τ β).InCallOrder := by
    constructor <;> simp [init, Task.isSend, Task.isFile, filesOf, Task.fileBytes, stream]
  have hs := Lts.guarded_inv
    (I := fun s : Session τ β => s.InCallOrder ∧ s.Streams ∧ (s.Fresh ∨ s.Ran))
    (fun s l hs hl hen => ⟨inCallOrder_after hs.1 hs.2.2 hl.1 hl.2 hen, streams_after hs.2.1 l,
      established_after hs.2.2 hen⟩)
    ⟨hinit, streams_init _ _ _ _, Or.inl (fresh_init _ _ _ _)⟩
    ((Lts.along_of_forall hloop).and hturn) h
  have hgiven : wire s.log <+: stream s.given := ⟨_, hs.2.1⟩
  exact (hgiven.trans (List.prefix_append _ _)).trans hs.1.order

/-- `sendfile` takes one byte of two; the data of the next call goes between them. -/
private def interleavedRun : List (Label Unit ℕ) :=
  [.task (.sent 0), .sendFile [1, 2] 0 2 (.sent 1), .send [3] (.sent 1), .task (.sent 1)]

/-- All is called on the loop's thread and no write fails, but the kernel gets another stream. -/
theorem send_overtakes_file :
    (∀ l ∈ interleavedRun, OnLoop l) ∧
    ∃ s : Session Unit ℕ, Lts.exec step (init 5 false false 100) interleavedRun = some s ∧
      wire s.log = [1, 3, 2] ∧ stream s.accepted = [1, 2, 3] ∧
        ¬ wire s.log <+: stream s.accepted := by
  have hrun : (Lts.exec step (init 5 false false 100) interleavedRun).any (fun s =>
      wire s.log == [1, 3, 2] && stream s.accepted == [1, 2, 3]) = true := by decide +kernel
  obtain ⟨s, hs, hp⟩ := Lts.exec_of_any hrun
  simp only [Bool.and_eq_true, beq_iff_eq] at hp
  refine ⟨by decide, s, hs, hp.1, hp.2, ?_⟩
  rw [hp.1, hp.2]
  decide

/-- The same calls, the second one after the rest of the file. -/
private def inTurnRun : List (Label Unit ℕ) :=
  [.task (.sent 0), .sendFile [1, 2] 0 2 (.sent 1), .task (.failed .EWOULDBLOCK), .task (.sent 1),
    .send [3] (.failed .EWOULDBLOCK), .poll EPOLLOUT, .handleEvent, .writeCallback (.sent 1)]

theorem stream_in_call_order_inTurn :
    ∃ s : Session Unit ℕ, wire s.log = [1, 2, 3] ∧ wire s.log <+: stream s.accepted := by
  have hrun : (Lts.exec step (init 5 false false 100) inTurnRun).any (fun s =>
      wire s.log == [1, 2, 3]) = true := by decide +kernel
  have hturn : Lts.Along step InTurn (init 5 false false 100 : Session Unit ℕ) inTurnRun := by
    decide +kernel
  obtain ⟨s, hs, hp⟩ := Lts.exec_of_any hrun
  exact ⟨s, beq_iff_eq.1 hp, stream_in_call_order (by decide) hturn hs⟩

end Session

end Muduo
