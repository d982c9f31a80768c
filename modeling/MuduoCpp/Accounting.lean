import MuduoCpp.FileExecution

/-!
# What a connection reports of its output

`writeCompleteCallback_` is to be called when everything is out, `highWaterMarkCallback_` when too
much has gathered.  Neither is called on the spot: `sendInLoop`, `sendFileInLoop` and `handleWrite`
queue a task for it, each after a test of its own.

An `Account` is a connection with what its functions have moved and queued since a moment at which
everything in `outputBuffer_` counts as accepted.  Its runs are arbitrary calls of the three
functions, the kernel answering what it likes, with arbitrary steps of the other functions in
between, which leave the output and the callbacks as they are.

* `Reports`: what one call queues;
* `write_complete_accounting`: a report of completion finds everything in the kernel, and a period
  with buffered output that drains is reported once;
* `high_water_accounting`: the reports of the mark are its crossings;
* `account_of_run`: the runs of a `Session` are such runs.
-/

namespace Muduo

variable {τ β : Type}

/-- The length that the task reports. -/
def Task.mark : Task β → Option ℕ
  | .highWaterMarkCallback_ mark => some mark
  | _ => none

/-- The reports of completion among the effects. -/
def completes (es : List (Effect β)) : ℕ := (queued es).countP Task.isComplete

/-- The lengths reported to the high-water callback. -/
def marks (es : List (Effect β)) : List ℕ := (queued es).filterMap Task.mark

section Lists

variable (es fs : List (Effect β)) (cond : Bool)

@[simp] theorem completes_nil : completes ([] : List (Effect β)) = 0 := rfl
@[simp] theorem marks_nil : marks ([] : List (Effect β)) = [] := rfl

@[simp] theorem completes_append : completes (es ++ fs) = completes es + completes fs := by
  rw [completes, queued_append, List.countP_append, completes, completes]

@[simp] theorem marks_append : marks (es ++ fs) = marks es ++ marks fs := by
  rw [marks, queued_append, List.filterMap_append, marks, marks]

variable {es}

/-- An effect that is not a task. -/
theorem queued_cons_of_none {e : Effect β} (he : e.queued = none) : queued (e :: es) = queued es :=
  List.filterMap_cons_none he

theorem completes_cons {e : Effect β} (he : e.queued = none) :
    completes (e :: es) = completes es := by
  rw [completes, queued_cons_of_none he, completes]

theorem marks_cons {e : Effect β} (he : e.queued = none) : marks (e :: es) = marks es := by
  rw [marks, queued_cons_of_none he, marks]

@[simp] theorem completes_update : completes [(.update : Effect β)] = 0 := rfl
@[simp] theorem marks_update : marks [(.update : Effect β)] = [] := rfl

@[simp] theorem completes_queueIf_complete :
    completes (Effect.queueIf cond (.writeCompleteCallback_ : Task β)) = if cond then 1 else 0 := by
  cases cond <;> rfl

@[simp] theorem completes_queueIf_mark (mark : ℕ) :
    completes (Effect.queueIf cond (.highWaterMarkCallback_ mark : Task β)) = 0 := by
  cases cond <;> rfl

@[simp] theorem marks_queueIf_complete :
    marks (Effect.queueIf cond (.writeCompleteCallback_ : Task β)) = [] := by
  cases cond <;> rfl

@[simp] theorem marks_queueIf_mark (mark : ℕ) :
    marks (Effect.queueIf cond (.highWaterMarkCallback_ mark : Task β)) =
      if cond then [mark] else [] := by
  cases cond <;> rfl

end Lists

namespace TcpConnection

/-! ### One call -/

/-- What the user sets before the connection is established. -/
def settings (c : TcpConnection β) : ℕ × Bool × Bool :=
  (c.highWaterMark_, c.writeCompleteCallback_, c.highWaterMarkCallback_)

/-- What one call of the connection queues for the user: at most one report of completion, and that
over an empty buffer; and the length it leaves in the buffer, if it has brought it up to the
mark. -/
structure Reports (c : TcpConnection β) (res : TcpConnection β × List (Effect β)) : Prop where
  settings : res.1.settings = c.settings
  completes : completes res.2 = 0 ∨ (completes res.2 = 1 ∧ res.1.outputBuffer_.content = [])
  marks : c.highWaterMarkCallback_ = true → marks res.2 =
    if ¬c.highWaterMark_ ≤ c.outputBuffer_.readableBytes ∧
      c.highWaterMark_ ≤ res.1.outputBuffer_.readableBytes then [res.1.outputBuffer_.readableBytes]
    else []

/-- A call after which there is no more in the buffer crosses nothing. -/
theorem not_crosses {c : TcpConnection β} {n : ℕ} (h : n ≤ c.outputBuffer_.readableBytes) :
    ¬(¬c.highWaterMark_ ≤ c.outputBuffer_.readableBytes ∧ c.highWaterMark_ ≤ n) := by
  rintro ⟨hlow, hhigh⟩
  exact hlow (hhigh.trans h)

/-- A call that queues nothing for the user and lets the buffer not grow. -/
theorem reports_of_quiet {c : TcpConnection β} {res : TcpConnection β × List (Effect β)}
    (hset : res.1.settings = c.settings)
    (hle : res.1.outputBuffer_.readableBytes ≤ c.outputBuffer_.readableBytes)
    (hcompletes : Muduo.completes res.2 = 0) (hmarks : Muduo.marks res.2 = []) : c.Reports res :=
  ⟨hset, Or.inl hcompletes, fun _ => by rw [if_neg (not_crosses hle), hmarks]⟩

/-- A call that queues a report of completion at most, and that over an empty buffer. -/
theorem reports_of_queueIf {c : TcpConnection β} {res : TcpConnection β × List (Effect β)}
    {cond : Bool} (hset : res.1.settings = c.settings)
    (hle : res.1.outputBuffer_.readableBytes ≤ c.outputBuffer_.readableBytes)
    (hq : queued res.2 = queued (Effect.queueIf cond .writeCompleteCallback_))
    (hempty : cond = true → res.1.outputBuffer_.content = []) : c.Reports res := by
  have hcompletes : Muduo.completes res.2 = if cond then 1 else 0 := by
    rw [Muduo.completes, hq, ← Muduo.completes, completes_queueIf_complete]
  have hmarks : Muduo.marks res.2 = [] := by
    rw [Muduo.marks, hq, ← Muduo.marks, marks_queueIf_complete]
  cases cond with
  | false => exact reports_of_quiet hset hle hcompletes hmarks
  | true =>
    exact ⟨hset, Or.inr ⟨hcompletes, hempty rfl⟩, fun _ => by
      rw [if_neg (not_crosses hle), hmarks]⟩

@[simp] theorem completes_saveRemaining [Inhabited β] (c : TcpConnection β) (data : List β) :
    Muduo.completes (c.saveRemaining data).2 = 0 := by
  unfold saveRemaining
  simp only
  split_ifs <;> simp

theorem readableBytes_saveRemaining [Inhabited β] (c : TcpConnection β) (data : List β) :
    (c.saveRemaining data).1.outputBuffer_.readableBytes =
      c.outputBuffer_.readableBytes + data.length := by
  simp [OkBuffer.readableBytes_eq]

theorem marks_saveRemaining [Inhabited β] (c : TcpConnection β) (data : List β) :
    Muduo.marks (c.saveRemaining data).2 =
      if 0 < data.length ∧ c.highWaterMarkCallback_ = true ∧
        ¬c.highWaterMark_ ≤ c.outputBuffer_.readableBytes ∧
        c.highWaterMark_ ≤ c.outputBuffer_.readableBytes + data.length then
        [c.outputBuffer_.readableBytes + data.length]
      else [] := by
  unfold saveRemaining
  simp only
  by_cases h0 : data.length = 0
  · simp [h0]
  · rw [if_neg h0]
    cases c.channel_.isWriting <;> cases c.highWaterMarkCallback_ <;>
      simp [Nat.pos_of_ne_zero h0, and_comm]

theorem reports_saveRemaining [Inhabited β] (c : TcpConnection β) (data : List β) :
    c.Reports (c.saveRemaining data) := by
  refine ⟨?_, Or.inl (completes_saveRemaining c data), fun hset => ?_⟩
  · unfold saveRemaining
    simp only
    split_ifs <;> rfl
  · rw [marks_saveRemaining, readableBytes_saveRemaining]
    congr 1
    rw [eq_iff_iff]
    constructor
    · rintro ⟨-, -, hcross⟩
      exact hcross
    · rintro ⟨hlow, hhigh⟩
      exact ⟨by omega, hset, hlow, hhigh⟩

theorem reports_sendInLoop [Inhabited β] (c : TcpConnection β) (data : List β) (r : WriteResult) :
    c.Reports (c.sendInLoop data r) := by
  by_cases hd : c.state_ = .kDisconnected
  · rw [sendInLoop_of_down hd]
    exact reports_of_quiet rfl le_rfl rfl rfl
  cases hi : c.isIdle with
  | false =>
    rw [sendInLoop_of_busy hd hi]
    exact reports_saveRemaining c data
  | true =>
    rw [sendInLoop_of_idle hd hi]
    cases hf : r.isFault with
    | true =>
      have hsent := WriteResult.not_isSent_of_isFault hf
      refine reports_of_quiet rfl le_rfl ?_ ?_
      · simp [completes_cons (queued_ofWrite r data), hsent]
      · simp [marks_cons (queued_ofWrite r data)]
    | false =>
      have hrest := reports_saveRemaining c (data.drop r.nwrote)
      simp only [Bool.false_eq_true, if_false]
      refine ⟨hrest.settings, ?_, fun hset => ?_⟩
      · rw [completes_cons (queued_ofWrite r data), completes_append, completes_saveRemaining,
          completes_queueIf_complete, Nat.add_zero]
        split_ifs with hdone
        · simp only [Bool.and_eq_true, beq_iff_eq, List.length_eq_zero_iff] at hdone
          refine Or.inr ⟨rfl, ?_⟩
          rw [content_saveRemaining, (isIdle_iff.1 hi).2, hdone.1.2, List.append_nil]
        · exact Or.inl rfl
      · rw [marks_cons (queued_ofWrite r data), marks_append, marks_queueIf_complete,
          List.nil_append]
        exact hrest.marks hset

/-- Everything of the data goes out at once. -/
theorem completes_sendInLoop [Inhabited β] {c : TcpConnection β} {data : List β} {r : WriteResult}
    (hset : c.writeCompleteCallback_ = true) (hwire : wire (c.sendInLoop data r).2 ≠ [])
    (hempty : (c.sendInLoop data r).1.outputBuffer_.content = []) :
    Muduo.completes (c.sendInLoop data r).2 = 1 := by
  by_cases hd : c.state_ = .kDisconnected
  · rw [sendInLoop_of_down hd] at hwire
    exact absurd rfl hwire
  cases hi : c.isIdle with
  | false =>
    rw [sendInLoop_of_busy hd hi, wire_saveRemaining] at hwire
    exact absurd rfl hwire
  | true =>
    rw [sendInLoop_of_idle hd hi] at hwire hempty ⊢
    have hpos : 0 < r.nwrote := by
      by_contra h0
      apply hwire
      rw [wire_cons, Effect.bytes_ofWrite, Nat.eq_zero_of_not_pos h0, wire_append, wire_queueIf]
      split_ifs <;> simp
    simp only [WriteResult.not_isFault_of_pos hpos, Bool.false_eq_true, if_false] at hempty ⊢
    rw [content_saveRemaining] at hempty
    rw [completes_cons (queued_ofWrite r data), completes_append, completes_saveRemaining,
      completes_queueIf_complete, (List.append_eq_nil_iff.1 hempty).2,
      WriteResult.isSent_of_pos hpos, hset]
    rfl

theorem queued_shutdownInLoop (c : TcpConnection β) : queued c.shutdownInLoop = [] := by
  unfold shutdownInLoop
  split_ifs <;> rfl

theorem completes_shutdownInLoop (c : TcpConnection β) : Muduo.completes c.shutdownInLoop = 0 := by
  rw [Muduo.completes, queued_shutdownInLoop]
  rfl

theorem marks_shutdownInLoop (c : TcpConnection β) : Muduo.marks c.shutdownInLoop = [] := by
  rw [Muduo.marks, queued_shutdownInLoop]
  rfl

/-- `handleWrite` queues a report when it empties the buffer, and nothing else. -/
theorem queued_handleWrite (c : TcpConnection β) (r : WriteResult) :
    queued (c.handleWrite r).2 =
      queued (Effect.queueIf (c.drains r && c.writeCompleteCallback_) .writeCompleteCallback_) := by
  have hwritten := queued_ofWrite r c.outputBuffer_.content
  unfold handleWrite drains
  cases c.channel_.isWriting with
  | false => rfl
  | true =>
    by_cases hn : 0 < r.nwrote
    · simp only [hn, if_true, decide_true, Bool.true_and, OkBuffer.readableBytes_eq,
        OkBuffer.content_retrieve, List.length_drop]
      by_cases hle : c.outputBuffer_.content.length ≤ r.nwrote
      · rw [if_pos (Nat.sub_eq_zero_of_le hle), decide_eq_true hle, Bool.true_and]
        simp only [List.cons_append, List.nil_append]
        rw [queued_cons_of_none hwritten, queued_cons_of_none rfl, queued_append]
        split_ifs
        · rw [queued_shutdownInLoop, List.append_nil]
        · exact List.append_nil _
      · rw [if_neg (Nat.sub_ne_zero_of_lt (Nat.lt_of_not_le hle)), decide_eq_false hle]
        exact queued_cons_of_none hwritten
    · simp only [hn, if_true, if_false, decide_false, Bool.true_and, Bool.false_and]
      exact queued_cons_of_none hwritten

theorem reports_handleWrite (c : TcpConnection β) (r : WriteResult) :
    c.Reports (c.handleWrite r) := by
  refine reports_of_queueIf ?_ ?_ (queued_handleWrite c r) fun hdone => ?_
  · unfold handleWrite
    simp only
    split_ifs <;> rfl
  · rw [OkBuffer.readableBytes_eq, OkBuffer.readableBytes_eq, content_handleWrite]
    split_ifs
    · rw [List.length_drop]
      exact Nat.sub_le _ _
    · exact le_rfl
  · rw [Bool.and_eq_true] at hdone
    exact content_of_drains hdone.1

/-- What was buffered goes out and leaves nothing. -/
theorem completes_handleWrite {c : TcpConnection β} {r : WriteResult}
    (hset : c.writeCompleteCallback_ = true) (hwire : wire (c.handleWrite r).2 ≠ [])
    (hempty : (c.handleWrite r).1.outputBuffer_.content = []) :
    Muduo.completes (c.handleWrite r).2 = 1 := by
  have hstream := c.handleWrite_stream r
  rw [hempty, List.append_nil] at hstream
  have hdrains : c.drains r = true := by
    cases hw : c.channel_.isWriting with
    | false =>
      rw [handleWrite_of_not_isWriting hw] at hwire
      exact absurd rfl hwire
    | true =>
      rw [content_handleWrite, if_pos hw, List.drop_eq_nil_iff] at hempty
      have hpos : 0 < c.outputBuffer_.content.length := by
        rw [← hstream]
        exact List.length_pos_iff.2 hwire
      simp only [drains, hw, OkBuffer.readableBytes_eq, hempty, Bool.true_and, decide_true,
        Bool.and_true, decide_eq_true_eq]
      omega
  rw [completes, queued_handleWrite, ← completes, completes_queueIf_complete, hdrains, hset]
  rfl

theorem reports_sendFileInLoop (c : TcpConnection β) (file : List β) (offset count : ℕ)
    (r : WriteResult) : c.Reports (c.sendFileInLoop file offset count r) := by
  have hfst := sendFileInLoop_fst c file offset count r
  cases hreq : c.requeues count r with
  | true =>
    refine reports_of_quiet (by rw [hfst]) (by rw [hfst]) ?_ ?_
    · rw [completes, queued_of_requeues file offset hreq]
      rfl
    · rw [marks, queued_of_requeues file offset hreq]
      rfl
  | false =>
    refine reports_of_queueIf (by rw [hfst]) (by rw [hfst])
      (queued_of_not_requeues file offset hreq) fun hdone => ?_
    simp only [sendsFile, Bool.and_eq_true] at hdone
    rw [hfst]
    exact (isIdle_iff.1 hdone.1.1.1.2).2

end TcpConnection

/-! ### Runs -/

/-- A connection with what its functions have moved and queued. -/
@[ext]
structure Account (β : Type) where
  conn : TcpConnection β
  /-- What was in `outputBuffer_` at the start, and then what the calls have put on the output
  stream: the data that is not given up, the bytes that `sendfile` has sent. -/
  kept : List β
  /-- What the kernel has taken since. -/
  kernel : List β
  /-- The reports of completion queued since. -/
  completes : ℕ
  /-- The lengths reported to the high-water callback since. -/
  marks : List ℕ

namespace Account

/-- A call of one of the functions of the connection. -/
inductive Label (β : Type)
  | sendInLoop (data : List β) (r : WriteResult)
  | handleWrite (r : WriteResult)
  | sendFileInLoop (file : List β) (offset count : ℕ) (r : WriteResult)
  /-- Another function of the connection, which leaves state, channel and input like this. -/
  | other (state : StateE) (channel : Channel) (input : OkBuffer β)

/-- The calls that the two callbacks are about; `sendfile` has no buffer. -/
def Label.isSend : Label β → Bool
  | .sendInLoop _ _ | .handleWrite _ => true
  | _ => false

/-- Nothing has been counted yet. -/
def start (c : TcpConnection β) : Account β where
  conn := c
  kept := c.outputBuffer_.content
  kernel := []
  completes := 0
  marks := []

/-- The kernel takes no more than it is given. -/
def enabled (s : Account β) : Label β → Prop
  | .sendInLoop data r => r.nwrote ≤ data.length
  | .handleWrite r => r.nwrote ≤ s.conn.outputBuffer_.readableBytes
  | .sendFileInLoop file offset count r => r.nwrote ≤ ((file.drop offset).take count).length
  | .other _ _ _ => True

instance (s : Account β) : DecidablePred s.enabled := fun l => by
  cases l <;> unfold enabled <;> infer_instance

/-- What a call puts on the output stream. -/
def takes (c : TcpConnection β) : Label β → List β
  | .sendInLoop data r => if c.givesUp r then [] else data
  | .sendFileInLoop file offset count r =>
      if c.sendsFile then ((file.drop offset).take count).take r.nwrote else []
  | .handleWrite _ | .other _ _ _ => []

variable [Inhabited β]

/-- What the function does. -/
def call (c : TcpConnection β) : Label β → TcpConnection β × List (Effect β)
  | .sendInLoop data r => c.sendInLoop data r
  | .handleWrite r => c.handleWrite r
  | .sendFileInLoop file offset count r => c.sendFileInLoop file offset count r
  | .other state channel input =>
      ({ c with state_ := state, channel_ := channel, inputBuffer_ := input }, [])

/-- What the call adds to the account. -/
def after (s : Account β) (l : Label β) : Account β where
  conn := (call s.conn l).1
  kept := s.kept ++ takes s.conn l
  kernel := s.kernel ++ wire (call s.conn l).2
  completes := s.completes + Muduo.completes (call s.conn l).2
  marks := s.marks ++ Muduo.marks (call s.conn l).2

/-- A call that the kernel can answer like this. -/
def step : Account β → Label β → Option (Account β) := Lts.guarded enabled after

variable {c : TcpConnection β} {s s' : Account β} {l : Label β}

theorem reports_call (c : TcpConnection β) (l : Label β) : c.Reports (call c l) := by
  cases l with
  | sendInLoop data r => exact TcpConnection.reports_sendInLoop c data r
  | handleWrite r => exact TcpConnection.reports_handleWrite c r
  | sendFileInLoop file offset count r =>
    exact TcpConnection.reports_sendFileInLoop c file offset count r
  | other state channel input => exact TcpConnection.reports_of_quiet rfl le_rfl rfl rfl

theorem call_stream (c : TcpConnection β) (l : Label β) :
    wire (call c l).2 ++ (call c l).1.outputBuffer_.content =
      c.outputBuffer_.content ++ takes c l := by
  cases l with
  | sendInLoop data r => exact TcpConnection.sendInLoop_stream c data r
  | handleWrite r => exact (TcpConnection.handleWrite_stream c r).trans (List.append_nil _).symm
  | sendFileInLoop file offset count r =>
    exact TcpConnection.sendFileInLoop_stream c file offset count r
  | other state channel input => exact (List.append_nil _).symm

/-- What is accepted is in the kernel or in the buffer; the user changes nothing during the run. -/
structure Balanced (c : TcpConnection β) (s : Account β) : Prop where
  balance : s.kernel ++ s.conn.outputBuffer_.content = s.kept
  settings : s.conn.settings = c.settings

omit [Inhabited β] in
theorem balanced_start (c : TcpConnection β) : Balanced c (start c) := ⟨List.nil_append _, rfl⟩

theorem balanced_after (h : Balanced c s) (l : Label β) : Balanced c (s.after l) := by
  refine ⟨?_, (reports_call s.conn l).settings.trans h.settings⟩
  show s.kernel ++ wire (call s.conn l).2 ++ (call s.conn l).1.outputBuffer_.content =
    s.kept ++ takes s.conn l
  rw [List.append_assoc, call_stream, ← List.append_assoc, h.balance]

theorem balanced_run {ls : List (Label β)} (h : Lts.exec step (start c) ls = some s) :
    Balanced c s :=
  Lts.guarded_inv' (fun _ l hs _ => balanced_after hs l) (balanced_start c) h

/-! ### Reports of completion -/

/-- The step leaves something in the buffer. -/
def Buffers (s : Account β) (l : Label β) : Prop := 0 < (s.after l).conn.outputBuffer_.readableBytes

instance (s : Account β) : DecidablePred s.Buffers := fun _ => Nat.decLt _ _

theorem buffers_iff : s.Buffers l ↔ (s.after l).conn.outputBuffer_.content ≠ [] := by
  rw [Buffers, OkBuffer.readableBytes_eq, List.length_pos_iff]

/-- A call that leaves something in the buffer reports no completion. -/
theorem completes_of_buffers (h : s.Buffers l) : (s.after l).completes = s.completes := by
  rcases (reports_call s.conn l).completes with hnone | ⟨-, hnil⟩
  · show s.completes + Muduo.completes (call s.conn l).2 = _
    rw [hnone, Nat.add_zero]
  · exact absurd hnil (buffers_iff.1 h)

theorem completes_of_period {ms : List (Label β)} (hms : Lts.Along step Buffers s ms)
    (h : Lts.exec step s ms = some s') :
    s'.completes = s.completes ∧ (ms ≠ [] → s'.conn.outputBuffer_.content ≠ []) := by
  induction ms generalizing s with
  | nil =>
    cases h
    exact ⟨rfl, fun hne => absurd rfl hne⟩
  | cons l ms ih =>
    obtain ⟨u, hu, hut⟩ := Lts.exec_cons_iff.1 h
    obtain ⟨-, rfl⟩ := Lts.guarded_eq_some.1 hu
    obtain ⟨hcount, hlast⟩ := ih (hms.2 _ hu) hut
    refine ⟨hcount.trans (completes_of_buffers hms.1), fun _ => ?_⟩
    cases ms with
    | nil =>
      cases hut
      exact buffers_iff.1 hms.1
    | cons l' ms' => exact hlast (List.cons_ne_nil _ _)

/-- A send that hands something to the kernel and leaves nothing in the buffer. -/
theorem completes_of_send (hset : s.conn.writeCompleteCallback_ = true) (hl : l.isSend = true)
    (hwire : wire (call s.conn l).2 ≠ []) (hempty : (s.after l).conn.outputBuffer_.content = []) :
    (s.after l).completes = s.completes + 1 := by
  refine congrArg (s.completes + ·) ?_
  cases l with
  | sendInLoop data r => exact TcpConnection.completes_sendInLoop hset hwire hempty
  | handleWrite r => exact TcpConnection.completes_handleWrite hset hwire hempty
  | sendFileInLoop file offset count r => cases hl
  | other state channel input => cases hl

/-- Only `handleWrite` empties the buffer, and it hands over what was there. -/
theorem completes_of_drain (hset : s.conn.writeCompleteCallback_ = true)
    (hne : s.conn.outputBuffer_.content ≠ [])
    (hempty : (s.after l).conn.outputBuffer_.content = []) :
    (s.after l).completes = s.completes + 1 := by
  cases l with
  | sendInLoop data r => exact absurd hempty (TcpConnection.content_sendInLoop hne data r)
  | handleWrite r =>
    refine completes_of_send hset rfl ?_ hempty
    have hstream := s.conn.handleWrite_stream r
    rw [show (s.conn.handleWrite r).1.outputBuffer_.content = [] from hempty,
      List.append_nil] at hstream
    show wire (s.conn.handleWrite r).2 ≠ []
    rwa [hstream]
  | sendFileInLoop file offset count r =>
    have hfst : (s.after (.sendFileInLoop file offset count r)).conn = s.conn :=
      TcpConnection.sendFileInLoop_fst _ _ _ _ _
    rw [hfst] at hempty
    exact absurd hempty hne
  | other state channel input => exact absurd hempty hne

/-- **Write-complete accounting.**  In every state of every run: a call reports completion at most
once, and then everything that was accepted is in the kernel and nothing in the buffer; a send that
hands something to the kernel and leaves nothing in the buffer reports it.  So a period in which
something is buffered is reported once when it ends. -/
theorem write_complete_accounting (hset : c.writeCompleteCallback_ = true) {ls : List (Label β)}
    (hrun : Lts.exec step (start c) ls = some s) :
    (∀ l s', step s l = some s' →
      (s'.completes = s.completes ∨ s'.completes = s.completes + 1 ∧ s'.kernel = s'.kept ∧
        s'.conn.outputBuffer_.readableBytes = 0) ∧
      (l.isSend = true → s.kernel.length < s'.kernel.length →
        s'.conn.outputBuffer_.readableBytes = 0 → s'.completes = s.completes + 1)) ∧
    ∀ ms l s', ms ≠ [] → Lts.Along step Buffers s ms →
      Lts.exec step s (ms ++ [l]) = some s' → s'.conn.outputBuffer_.readableBytes = 0 →
        s'.completes = s.completes + 1 := by
  have hb := balanced_run hrun
  have hcallback : ∀ {u : Account β}, Balanced c u → u.conn.writeCompleteCallback_ = true := by
    intro u hu
    rw [← hset]
    exact congrArg (fun p => p.2.1) hu.settings
  have hnil : ∀ {u : Account β}, u.conn.outputBuffer_.readableBytes = 0 ↔
      u.conn.outputBuffer_.content = [] := by
    intro u
    rw [OkBuffer.readableBytes_eq, List.length_eq_zero_iff]
  constructor
  · intro l s' hstep
    obtain ⟨-, rfl⟩ := Lts.guarded_eq_some.1 hstep
    constructor
    · rcases (reports_call s.conn l).completes with hnone | ⟨hone, hempty⟩
      · exact Or.inl (congrArg (s.completes + ·) hnone)
      · have hbalance := (balanced_after hb l).balance
        rw [show (s.after l).conn.outputBuffer_.content = [] from hempty,
          List.append_nil] at hbalance
        exact Or.inr ⟨congrArg (s.completes + ·) hone, hbalance, hnil.2 hempty⟩
    · intro hl hgrows hempty
      refine completes_of_send (hcallback hb) hl ?_ (hnil.1 hempty)
      intro hwire
      have hkernel : (s.after l).kernel = s.kernel ++ wire (call s.conn l).2 := rfl
      rw [hkernel, hwire, List.append_nil] at hgrows
      exact Nat.lt_irrefl _ hgrows
  · intro ms l s' hms halong hexec hempty
    obtain ⟨u, hu, hul⟩ := Lts.exec_append_iff.1 hexec
    obtain ⟨t, ht, htu⟩ := Lts.exec_cons_iff.1 hul
    cases htu
    obtain ⟨-, rfl⟩ := Lts.guarded_eq_some.1 ht
    obtain ⟨hcount, hne⟩ := completes_of_period halong hu
    have hbu : Balanced c u := balanced_run (Lts.exec_append_iff.2 ⟨s, hrun, hu⟩)
    rw [completes_of_drain (hcallback hbu) (hne hms) (hnil.1 hempty), hcount]

/-- A partial direct write, a second send behind it, and two writes that drain both. -/
private def drainedCalls : List (Label ℕ) :=
  [.sendInLoop [1, 2, 3] (.sent 1), .sendInLoop [4] (.sent 0), .handleWrite (.sent 2)]

theorem write_complete_accounting_drained :
    ∃ s' : Account ℕ,
      Lts.exec step (start (.init 5 true true 2)) (drainedCalls ++ [.handleWrite (.sent 1)]) =
          some s' ∧
      s'.conn.outputBuffer_.readableBytes = 0 ∧ s'.completes = 0 + 1 := by
  have hrun : (Lts.exec step (start (.init 5 true true 2))
      (drainedCalls ++ [.handleWrite (.sent 1)])).any
      (fun s => s.conn.outputBuffer_.readableBytes == 0) = true := by decide +kernel
  have halong : Lts.Along step Buffers (start (.init 5 true true 2) : Account ℕ) drainedCalls := by
    decide +kernel
  have hstart : Lts.exec step (start (.init 5 true true 2) : Account ℕ) [] = some _ := rfl
  obtain ⟨s', hs', hempty⟩ := Lts.exec_of_any hrun
  rw [beq_iff_eq] at hempty
  exact ⟨s', hs', hempty, (write_complete_accounting rfl hstart).2 _ _ _ (List.cons_ne_nil _ _)
    halong hs' hempty⟩

/-! ### Reports of the mark -/

/-- `outputBuffer_` has come up to the mark. -/
def AtMark (mark : ℕ) (s : Account β) : Prop := mark ≤ s.conn.outputBuffer_.readableBytes

instance (mark : ℕ) : DecidablePred (AtMark (β := β) mark) := fun _ => Nat.decLe _ _

/-- The record of the mark grows by the length right after a crossing, and by nothing else. -/
theorem marks_after (hset : c.highWaterMarkCallback_ = true) (hs : s.conn.settings = c.settings)
    (l : Label β) : (s.after l).marks = s.marks ++
      if ¬AtMark c.highWaterMark_ s ∧ AtMark c.highWaterMark_ (s.after l) then
        [(s.after l).conn.outputBuffer_.readableBytes]
      else [] := by
  have hmark : s.conn.highWaterMark_ = c.highWaterMark_ := congrArg (fun p => p.1) hs
  have hcallback : s.conn.highWaterMarkCallback_ = c.highWaterMarkCallback_ :=
    congrArg (fun p => p.2.2) hs
  have hreports := (reports_call s.conn l).marks (hcallback.trans hset)
  rw [hmark] at hreports
  exact congrArg (s.marks ++ ·) hreports

theorem marks_run (hset : c.highWaterMarkCallback_ = true) (hs : s.conn.settings = c.settings)
    {ls : List (Label β)} (h : Lts.exec step s ls = some s') :
    s'.marks = s.marks ++ (Lts.entries step (AtMark c.highWaterMark_) s ls).map
      fun u => u.conn.outputBuffer_.readableBytes := by
  refine Lts.exec_record (I := fun u => u.conn.settings = c.settings) ?_ hs h
  intro u l t hu hut
  obtain ⟨-, rfl⟩ := Lts.guarded_eq_some.1 hut
  exact ⟨(reports_call u.conn l).settings.trans hu, marks_after hset hu l⟩

/-- **High-water accounting.**  The lengths reported are those right after the steps that have
brought `outputBuffer_` from below the mark to it or above, in order; and when it is at the mark or
above, there is a report since it was last below. -/
theorem high_water_accounting (hset : c.highWaterMarkCallback_ = true) {ls : List (Label β)}
    (hrun : Lts.exec step (start c) ls = some s) :
    s.marks = (Lts.entries step (AtMark c.highWaterMark_) (start c) ls).map
      (fun u => u.conn.outputBuffer_.readableBytes) ∧
    ∀ pre post u, ls = pre ++ post → Lts.exec step (start c) pre = some u →
      u.conn.outputBuffer_.readableBytes < c.highWaterMark_ →
      c.highWaterMark_ ≤ s.conn.outputBuffer_.readableBytes → u.marks.length < s.marks.length := by
  refine ⟨marks_run hset (s := start c) rfl hrun, ?_⟩
  rintro pre post u rfl hu hlow hhigh
  obtain ⟨u', hu', hus⟩ := Lts.exec_append_iff.1 hrun
  obtain rfl : u' = u := Option.some.inj (hu'.symm.trans hu)
  have hentered : Lts.entries step (AtMark c.highWaterMark_) u' post ≠ [] :=
    Lts.entries_ne_nil hus (Nat.not_le.2 hlow) hhigh
  rw [marks_run hset (balanced_run hu).settings hus, List.length_append, List.length_map]
  exact Nat.lt_add_of_pos_right (List.length_pos_iff.2 hentered)

/-- Two crossings of the mark 2, with a drain between them. -/
private def crossingCalls : List (Label ℕ) :=
  [.sendInLoop [1, 2, 3] (.sent 0), .sendInLoop [4] (.sent 0), .handleWrite (.sent 3),
    .sendInLoop [5] (.sent 0)]

theorem high_water_accounting_crossed :
    ∃ s : Account ℕ, Lts.exec step (start (.init 5 true true 2)) crossingCalls = some s ∧
      s.marks = [3, 2] := by
  have hrun : (Lts.exec step (start (.init 5 true true 2)) crossingCalls).isSome := by
    decide +kernel
  have h := (high_water_accounting rfl (Option.some_get hrun).symm).1
  refine ⟨_, (Option.some_get hrun).symm, h.trans ?_⟩
  decide +kernel

end Account

/-! ### The runs of a session -/

namespace Session

variable [Inhabited β]

/-- The connection of a session with what the log says of it. -/
def account (s : Session τ β) : Account β where
  conn := s.conn
  kept := wire s.log ++ s.conn.outputBuffer_.content
  kernel := wire s.log
  completes := completes s.log
  marks := marks s.log

variable {s u : Session τ β}

omit [Inhabited β] in
/-- A connection is told by its output, its settings and the rest. -/
theorem conn_eq {c c' : TcpConnection β} (hout : c'.outputBuffer_ = c.outputBuffer_)
    (hset : c'.settings = c.settings) :
    { c with
      state_ := c'.state_
      channel_ := c'.channel_
      inputBuffer_ := c'.inputBuffer_ } = c' := by
  simp only [TcpConnection.settings, Prod.mk.injEq] at hset
  obtain ⟨hmark, hcomplete, hhigh⟩ := hset
  rw [← hout, ← hmark, ← hcomplete, ← hhigh]

/-- A step that queues nothing for the user and leaves the output as it was. -/
theorem account_of_quiet (es : List (Effect β)) (hlog : u.log = s.log ++ es)
    (hout : u.conn.outputBuffer_ = s.conn.outputBuffer_)
    (hset : u.conn.settings = s.conn.settings) (hwire : wire es = [])
    (hcompletes : completes es = 0) (hmarks : marks es = []) :
    ∃ ms, Lts.exec Account.step s.account ms = some u.account := by
  refine ⟨[.other u.conn.state_ u.conn.channel_ u.conn.inputBuffer_], ?_⟩
  refine Lts.guarded_exec_cons.2 ⟨trivial, congrArg some ?_⟩
  refine Account.ext (conn_eq hout hset) ?_ ?_ ?_ ?_
  · show wire s.log ++ s.conn.outputBuffer_.content ++ [] = wire u.log ++ _
    rw [hlog, wire_append, hwire, hout, List.append_nil, List.append_nil]
  · show wire s.log ++ [] = wire u.log
    rw [hlog, wire_append, hwire]
  · show completes s.log + 0 = completes u.log
    rw [hlog, completes_append, hcompletes]
  · show marks s.log ++ [] = marks u.log
    rw [hlog, marks_append, hmarks]

/-- A call of one of the three functions; the poller then has the channel. -/
theorem account_of_call {l : Account.Label β} (channel : Channel) (hen : s.account.enabled l)
    (hlog : u.log = s.log ++ (Account.call s.conn l).2)
    (hconn : u.conn = { (Account.call s.conn l).1 with channel_ := channel }) :
    ∃ ms, Lts.exec Account.step s.account ms = some u.account := by
  have hstream := Account.call_stream s.conn l
  refine ⟨[l, .other u.conn.state_ u.conn.channel_ u.conn.inputBuffer_], ?_⟩
  refine Lts.guarded_exec_cons.2 ⟨hen, ?_⟩
  refine Lts.guarded_exec_cons.2 ⟨trivial, congrArg some ?_⟩
  refine Account.ext (conn_eq (c := (Account.call s.conn l).1) ?_ ?_) ?_ ?_ ?_ ?_
  · rw [hconn]
  · rw [hconn]
    rfl
  · show wire s.log ++ s.conn.outputBuffer_.content ++ Account.takes s.conn l ++ [] =
      wire u.log ++ _
    rw [hlog, hconn, wire_append, List.append_nil, List.append_assoc, List.append_assoc, ← hstream]
  · show wire s.log ++ wire (Account.call s.conn l).2 ++ [] = wire u.log
    rw [hlog, wire_append, List.append_nil]
  · show completes s.log + completes (Account.call s.conn l).2 + 0 = completes u.log
    rw [hlog, completes_append, Nat.add_zero]
  · show marks s.log ++ marks (Account.call s.conn l).2 ++ [] = marks u.log
    rw [hlog, marks_append, List.append_nil]

theorem account_perform_of_call (q : Option τ) {l : Account.Label β} (hen : s.account.enabled l) :
    ∃ ms, Lts.exec Account.step s.account ms =
      some (s.perform q (Account.call s.conn l)).account :=
  account_of_call (s.perform q (Account.call s.conn l)).conn.channel_ hen rfl rfl

theorem account_perform_of_quiet (q : Option τ) {res : TcpConnection β × List (Effect β)}
    (hout : res.1.outputBuffer_ = s.conn.outputBuffer_) (hset : res.1.settings = s.conn.settings)
    (hwire : wire res.2 = []) (hcompletes : completes res.2 = 0) (hmarks : marks res.2 = []) :
    ∃ ms, Lts.exec Account.step s.account ms = some (s.perform q res).account :=
  account_of_quiet res.2 rfl hout hset hwire hcompletes hmarks

theorem account_runTask (q : Option τ) (task : Task β) {r : WriteResult}
    (hr : r.nwrote ≤ task.asks.length) :
    ∃ ms, Lts.exec Account.step s.account ms = some (s.runTask q task r).account := by
  cases task with
  | sendInLoop data => exact account_perform_of_call (l := .sendInLoop data r) q hr
  | sendFileInLoop file offset count =>
    exact account_perform_of_call (l := .sendFileInLoop file offset count r) q hr
  | connectEstablished => exact account_perform_of_quiet q rfl rfl rfl rfl rfl
  | connectDestroyed =>
    by_cases hc : s.conn.state_ = .kConnected
    · have hres := TcpConnection.connectDestroyed_of_connected hc
      refine account_perform_of_quiet q ?_ ?_ ?_ ?_ ?_ <;> rw [TcpConnection.runTask, hres] <;> rfl
    · have hres := TcpConnection.connectDestroyed_of_ne hc
      refine account_perform_of_quiet q ?_ ?_ ?_ ?_ ?_ <;> rw [TcpConnection.runTask, hres] <;> rfl
  | shutdownInLoop =>
    exact account_perform_of_quiet q rfl rfl (TcpConnection.wire_shutdownInLoop _)
      (TcpConnection.completes_shutdownInLoop _) (TcpConnection.marks_shutdownInLoop _)
  | writeCompleteCallback_ => exact account_perform_of_quiet q rfl rfl rfl rfl rfl
  | highWaterMarkCallback_ mark => exact account_perform_of_quiet q rfl rfl rfl rfl rfl

theorem account_handleClose (q : Option τ) :
    ∃ ms, Lts.exec Account.step s.account ms = some (s.perform q s.conn.handleClose).account :=
  account_perform_of_quiet q rfl rfl rfl rfl rfl

theorem account_handleRead (q : Option τ) (r : ReadResult β) :
    ∃ ms, Lts.exec Account.step s.account ms =
      some (s.perform q (s.conn.handleRead r)).account := by
  rcases r with bytes | _
  · by_cases hpos : 0 < bytes.length
    · rw [TcpConnection.handleRead_of_pos _ hpos]
      exact account_perform_of_quiet q rfl rfl rfl rfl rfl
    · rw [TcpConnection.handleRead_of_not_pos _ hpos]
      exact account_perform_of_quiet q rfl rfl rfl rfl rfl
  · exact account_perform_of_quiet q rfl rfl rfl rfl rfl

/-- A step outside the functions of the connection. -/
theorem account_of_log (hlog : u.log = s.log) (hout : u.conn.outputBuffer_ = s.conn.outputBuffer_)
    (hset : u.conn.settings = s.conn.settings) :
    ∃ ms, Lts.exec Account.step s.account ms = some u.account :=
  account_of_quiet [] (hlog.trans (List.append_nil _).symm) hout hset rfl rfl rfl

variable [DecidableEq τ]

theorem account_after {l : Label τ β} (hen : s.enabled l) :
    ∃ ms, Lts.exec Account.step s.account ms = some (s.after l).account := by
  cases l with
  | closeCallback => exact account_handleClose (s := { s with running := s.running.tail }) none
  | errorCallback =>
    exact account_perform_of_quiet (s := { s with running := s.running.tail }) none
      rfl rfl rfl rfl rfl
  | readCallback r => exact account_handleRead (s := { s with running := s.running.tail }) none r
  | writeCallback r =>
    exact account_perform_of_call (s := { s with running := s.running.tail }) (l := .handleWrite r)
      none hen.2
  | task r =>
    obtain ⟨e, rest, hp⟩ := exists_pending hen.2.2
    have hr : r.nwrote ≤ e.2.asks.length := by
      have hfits := hen.2.2
      unfold taskFits at hfits
      simpa [hp] using hfits
    rw [after_task hp]
    exact account_runTask (s := { s with pending := rest }) e.1 e.2 hr
  | send data r =>
    simp only [after]
    split_ifs
    · exact account_runTask (s := s.accept none (.send data)) none (.sendInLoop data) hen
    · exact account_of_log rfl rfl rfl
  | sendFile file offset count r =>
    simp only [after]
    split_ifs
    · exact account_runTask (s := s.accept none _) none (.sendFileInLoop file offset count) hen
    · exact account_of_log rfl rfl rfl
  | shutdown =>
    simp only [after]
    split_ifs
    · exact account_of_quiet s.conn.shutdownInLoop rfl rfl rfl (TcpConnection.wire_shutdownInLoop _)
        (TcpConnection.completes_shutdownInLoop _) (TcpConnection.marks_shutdownInLoop _)
    · exact account_of_log rfl rfl rfl
  | connectDestroyed => exact account_runTask none .connectDestroyed (Nat.zero_le _)
  | sendTest t data | sendFileTest t file offset count | shutdownTest t =>
    simp only [after]
    split_ifs <;> exact account_of_log rfl rfl rfl
  | poll | handleEvent | retrieve | queueDestroyed | shutdownStore | push =>
    exact account_of_log rfl rfl rfl

/-- **A session keeps accounts.**  What its log says of the output and the reports comes about by
the calls of an `Account`. -/
theorem account_of_run {sockfd : ℤ} {writeComplete highWater : Bool} {mark : ℕ}
    {ls : List (Label τ β)}
    (h : Lts.exec step (init sockfd writeComplete highWater mark) ls = some s) :
    ∃ ms, Lts.exec Account.step (.start (.init sockfd writeComplete highWater mark)) ms =
      some s.account := by
  refine Lts.exec_simulates (f := account) (fun s l t hst => ?_) h
  obtain ⟨hen, rfl⟩ := Lts.guarded_eq_some.1 hst
  exact account_after hen

end Session

end Muduo
