import MuduoCpp.FileExecution

/-!
# The course of one `sendFile()`

`sendFileInLoop` sends what the kernel takes and queues itself for the rest.  A `Transfer` is a
session with a record of the executions of one call: where its task is in the queue, how the kernel
answered, and what was handed over.

* `file_in_pieces`: the executions hand over consecutive pieces of the file, behind all earlier
  output, and report the last of them once;
* `executions_bounded_iff`: when a transfer is over after `count + 1` executions.
-/

namespace Muduo

variable {τ β : Type}

namespace Session

variable [Inhabited β] [DecidableEq τ]

/-! ### What the steps of a session keep -/

theorem given_after (s : Session τ β) (l : Label τ β) :
    ∃ gs, (s.after l).given = s.given ++ gs := by
  obtain ⟨gs, hgs⟩ := (s.records_after l).1
  exact ⟨gs, hgs.symm⟩

theorem writeComplete_after (s : Session τ β) (l : Label τ β) :
    (s.after l).conn.writeCompleteCallback_ = s.conn.writeCompleteCallback_ := by
  cases s.does_after l with
  | nothing revents input hcore =>
    simp only [core, Prod.mk.injEq] at hcore
    rw [hcore.1]
  | store t hcore | shutdown hs hcore =>
    simp only [core, Prod.mk.injEq] at hcore
    rw [hcore.1]
    rfl
  | callback k read write hcore =>
    simp only [core, Prod.mk.injEq] at hcore
    rw [hcore.1]
    exact TcpConnection.writeComplete_runCallback read k
  | task task r hne hcore =>
    simp only [core, Prod.mk.injEq] at hcore
    rw [hcore.1]
    exact TcpConnection.writeComplete_runTask task

end Session

/-! ### The record of a transfer -/

/-- A session and the course of one call of `sendFile` on it. -/
structure Transfer (τ β : Type) where
  session : Session τ β
  /-- The position of its task in `pending`. -/
  place : Option ℕ
  /-- The answers of the kernel, one for each execution. -/
  results : List WriteResult
  /-- For each execution, what the kernel had taken before and what it was handed. -/
  pieces : List (List β × List β)
  /-- The write-complete tasks that the executions have queued. -/
  completes : ℕ

namespace Transfer

/-- The bytes of the file handed to the kernel so far. -/
def sent (t : Transfer τ β) : List β := t.pieces.flatMap Prod.snd

variable [Inhabited β]

/-- An execution in the session `s`, with `waiting` tasks in the queue before what it queues; `s'`
is the session after it. -/
def execute (t : Transfer τ β) (s s' : Session τ β) (waiting : ℕ) (task : Task β)
    (r : WriteResult) : Transfer τ β :=
  let es := (s.conn.runTask r task).2
  { session := s'
    place := ((queued es).findIdx? Task.isFile).map (waiting + ·)
    results := t.results ++ [r]
    pieces := t.pieces ++ [(wire s.log, wire es)]
    completes := t.completes + (queued es).countP Task.isComplete }

variable [DecidableEq τ]

/-- When a step of the session can be taken. -/
def enabled (t : Transfer τ β) (l : Session.Label τ β) : Prop := t.session.enabled l

instance (t : Transfer τ β) : DecidablePred t.enabled := fun l =>
  inferInstanceAs (Decidable (t.session.enabled l))

/-- The tasks before its own bring its task forward. -/
def after (t : Transfer τ β) : Session.Label τ β → Transfer τ β
  | .task r =>
      match t.place, t.session.pending with
      | some 0, e :: rest => t.execute t.session (t.session.after (.task r)) rest.length e.2 r
      | some (i + 1), _ => { t with session := t.session.after (.task r), place := some i }
      | _, _ => { t with session := t.session.after (.task r) }
  | l => { t with session := t.session.after l }

/-- One step of the session. -/
def step : Transfer τ β → Session.Label τ β → Option (Transfer τ β) := Lts.guarded enabled after

/-- A call on the loop's thread; the first execution is part of it. -/
def call (s : Session τ β) (file : List β) (offset count : ℕ) (r : WriteResult) : Transfer τ β :=
  execute ⟨s, none, [], [], 0⟩ s (s.after (.sendFile file offset count r)) s.pending.length
    (.sendFileInLoop file offset count) r

/-- The state after a call on the loop's thread, or after another thread has queued the task. -/
inductive Starts (s : Session τ β) (file : List β) (offset count : ℕ) : Transfer τ β → Prop
  | inLoop (r : WriteResult) (hconn : s.conn.connected = true)
      (hen : s.enabled (.sendFile file offset count r)) :
      Starts s file offset count (call s file offset count r)
  | queued (t : τ) (hcaller : s.caller t = .sendingFile file offset count) :
      Starts s file offset count ⟨s.after (.push t), some s.pending.length, [], [], 0⟩

/-! ### What a step does to the record -/

variable {s : Session τ β} {t : Transfer τ β} {l : Session.Label τ β} {file : List β}
  {offset count : ℕ}

theorem after_own {r : WriteResult} {e : From τ (Task β)} {rest : List (From τ (Task β))}
    (hplace : t.place = some 0) (hp : t.session.pending = e :: rest) :
    t.after (.task r) = t.execute t.session (t.session.after (.task r)) rest.length e.2 r := by
  simp only [after, hplace, hp]

@[simp] theorem session_after (t : Transfer τ β) (l : Session.Label τ β) :
    (t.after l).session = t.session.after l := by
  cases l with
  | task r =>
    simp only [after]
    split <;> rfl
  | _ => rfl

/-- A step is an execution of the transfer, or leaves its task and its record alone. -/
theorem after_cases (t : Transfer τ β) (l : Session.Label τ β) :
    (∃ r e rest, l = .task r ∧ t.place = some 0 ∧ t.session.pending = e :: rest ∧
      t.after l = t.execute t.session (t.session.after l) rest.length e.2 r) ∨
    ∃ p, t.after l = { t with session := t.session.after l, place := p } ∧
      (t.place = none → p = none) ∧
      ∀ i x, t.place = some i → t.session.pending[i]? = some x →
        ∃ j, p = some j ∧ (t.session.after l).pending[j]? = some x := by
  by_cases hl : ∃ r, l = .task r
  · obtain ⟨r, rfl⟩ := hl
    match hplace : t.place, hp : t.session.pending with
    | none, _ => exact Or.inr ⟨none, by simp [after, hplace], fun _ => rfl, by simp⟩
    | some 0, [] => exact Or.inr ⟨some 0, by simp [after, hplace, hp], by simp, by simp⟩
    | some 0, e :: rest => exact Or.inl ⟨r, e, rest, rfl, rfl, rfl, after_own hplace hp⟩
    | some (i + 1), [] => exact Or.inr ⟨some i, by simp [after, hplace], by simp, by simp⟩
    | some (i + 1), e :: rest =>
      refine Or.inr ⟨some i, by simp [after, hplace], by simp, ?_⟩
      rintro _ x ⟨⟩ hx
      refine ⟨i, rfl, ?_⟩
      rw [List.getElem?_cons_succ] at hx
      rw [Session.after_task hp, Session.runTask, Session.perform_pending,
        List.getElem?_append_left (List.getElem?_eq_some_iff.1 hx).1]
      exact hx
  · refine Or.inr ⟨t.place, ?_, id, ?_⟩
    · cases l with
      | task r => exact absurd ⟨r, rfl⟩ hl
      | _ => rfl
    · intro i x hi hx
      obtain ⟨new, hnew⟩ := (t.session.grows_after fun r hr => hl ⟨r, hr⟩).pending
      refine ⟨i, hi, ?_⟩
      rw [← hnew, List.getElem?_append_left (List.getElem?_eq_some_iff.1 hx).1]
      exact hx

/-! ### Pieces of the file -/

/-- What a transfer has handed over: the first bytes of its range, behind the stream `earlier`, with
the write-complete task queued once they are all of it. -/
structure Handed (earlier file : List β) (offset count : ℕ) (t : Transfer τ β) : Prop where
  le : t.sent.length ≤ count
  sent : t.sent = (file.drop offset).take t.sent.length
  order : ∀ p ∈ t.pieces, p.2 ≠ [] → earlier <+: p.1 ∧ p.1 ++ p.2 <+: wire t.session.log
  completes : 0 < count → t.session.conn.writeCompleteCallback_ = true →
    t.completes = if t.sent.length = count then 1 else 0

omit [Inhabited β] [DecidableEq τ] in
/-- A longer log keeps the order. -/
theorem order_mono {earlier : List β} {log log' : List (Effect β)} {pieces : List (List β × List β)}
    (h : ∀ p ∈ pieces, p.2 ≠ [] → earlier <+: p.1 ∧ p.1 ++ p.2 <+: wire log)
    (hlog : ∃ es, log' = log ++ es) :
    ∀ p ∈ pieces, p.2 ≠ [] → earlier <+: p.1 ∧ p.1 ++ p.2 <+: wire log' := by
  obtain ⟨es, rfl⟩ := hlog
  intro p hp hne
  obtain ⟨h1, h2⟩ := h p hp hne
  rw [wire_append]
  exact ⟨h1, h2.trans (List.prefix_append _ _)⟩

omit [DecidableEq τ] in
@[simp] theorem sent_execute (t : Transfer τ β) (s s' : Session τ β) (waiting : ℕ) (task : Task β)
    (r : WriteResult) :
    (t.execute s s' waiting task r).sent = t.sent ++ wire (s.conn.runTask r task).2 := by
  simp [sent, execute]

omit [DecidableEq τ] in
/-- **One execution** takes the next piece, and the transfer goes on behind it or is over. -/
theorem handed_execute {earlier : List β} (h : t.Handed earlier file offset count)
    (hopen : 0 < count → t.sent.length < count) {s' : Session τ β} {waiting : ℕ} {r : WriteResult}
    (hs : t.session.Streams) (hearlier : earlier <+: stream t.session.given)
    (hr : r.nwrote ≤
      ((file.drop (offset + t.sent.length)).take (count - t.sent.length)).length)
    (hlog : s'.log = t.session.log ++ (t.session.conn.runTask r
      (.sendFileInLoop file (offset + t.sent.length) (count - t.sent.length))).2)
    (hflag : s'.conn.writeCompleteCallback_ = t.session.conn.writeCompleteCallback_) :
    (t.execute t.session s' waiting
      (.sendFileInLoop file (offset + t.sent.length) (count - t.sent.length)) r).Handed
      earlier file offset count := by
  have hle := h.le
  have hsent := h.sent
  generalize hk : t.sent.length = k at *
  have hwire := t.session.conn.wire_sendFileInLoop file (offset + k) (count - k) r
  obtain ⟨hlen, hn⟩ := t.session.conn.length_wire_sendFileInLoop file (offset + k) hr
  refine ⟨?_, ?_, ?_, ?_⟩
  · rw [sent_execute, TcpConnection.runTask, List.length_append, hk, hlen]
    omega
  · rw [sent_execute, TcpConnection.runTask, List.length_append, hk, hlen, hwire,
      List.take_take, Nat.min_eq_left hn, List.take_add, List.drop_drop]
    exact congrArg (· ++ _) hsent
  · intro p hp hne
    rcases List.mem_append.1 hp with hp | hp
    · exact order_mono h.order ⟨_, hlog⟩ p hp hne
    · obtain rfl := List.mem_singleton.1 hp
      constructor
      · -- the call is made only when `outputBuffer_` is empty
        have hidle : t.session.conn.outputBuffer_.content = [] := by
          have hsends : t.session.conn.sendsFile = true := by
            by_contra hno
            apply hne
            show wire (t.session.conn.sendFileInLoop file (offset + k) (count - k) r).2 = []
            rw [hwire, TcpConnection.fileSent, if_neg hno, List.take_zero]
          simp only [TcpConnection.sendsFile, Bool.and_eq_true] at hsends
          exact (TcpConnection.isIdle_iff.1 hsends.2).2
        rw [← hs, hidle, List.append_nil] at hearlier
        exact hearlier
      · show wire t.session.log ++ wire _ <+: wire s'.log
        rw [hlog, wire_append]
  · intro hpos hset
    have hset' : t.session.conn.writeCompleteCallback_ = true := by
      rw [← hflag]
      exact hset
    have hbefore := h.completes hpos hset'
    have hopen := hopen hpos
    rw [hk, if_neg (Nat.ne_of_lt hopen)] at hbefore
    rw [sent_execute, TcpConnection.runTask, List.length_append, hk, hlen]
    show t.completes +
      (queued (t.session.conn.sendFileInLoop file (offset + k) (count - k) r).2).countP
      Task.isComplete = _
    rw [hbefore, Nat.zero_add]
    exact TcpConnection.completes_sendFileInLoop file (offset + k) hopen hn hset'

omit [DecidableEq τ] in
theorem length_sent_execute (t : Transfer τ β) (s' : Session τ β) (waiting : ℕ) {k : ℕ}
    {r : WriteResult} (hk : t.sent.length = k)
    (hr : r.nwrote ≤ ((file.drop offset).take count).length) :
    (t.execute t.session s' waiting (.sendFileInLoop file offset count) r).sent.length =
      k + t.session.conn.fileSent r := by
  rw [sent_execute, List.length_append, hk, TcpConnection.runTask,
    (TcpConnection.length_wire_sendFileInLoop file offset hr).1]

omit [DecidableEq τ] in
theorem place_execute (t : Transfer τ β) (s s' : Session τ β) (waiting : ℕ) (r : WriteResult) :
    (t.execute s s' waiting (.sendFileInLoop file offset count) r).place =
      if s.conn.requeues count r then some waiting else none := by
  show ((queued (s.conn.sendFileInLoop file offset count r).2).findIdx? Task.isFile).map _ = _
  cases hreq : s.conn.requeues count r with
  | true =>
    rw [TcpConnection.queued_of_requeues file offset hreq]
    rfl
  | false =>
    rw [TcpConnection.queued_of_not_requeues file offset hreq, if_neg Bool.false_ne_true]
    unfold Effect.queueIf
    split_ifs <;> rfl

/-- What holds after a call of `sendFile` in the session `s`. -/
structure Follows (s : Session τ β) (file : List β) (offset count : ℕ) (t : Transfer τ β) :
    Prop where
  streams : t.session.Streams
  given : ∃ gs, t.session.given = s.given ++ gs
  callback : t.session.conn.writeCompleteCallback_ = s.conn.writeCompleteCallback_
  handed : t.Handed (stream s.given) file offset count
  place : ∀ i, t.place = some i → ∃ q, t.session.pending[i]? =
    some (q, .sendFileInLoop file (offset + t.sent.length) (count - t.sent.length))
  unfinished : t.place ≠ none → 0 < count → t.sent.length < count

omit [DecidableEq τ] in
/-- The execution finds its task with the rest of the range. -/
theorem follows_execute (h : t.Follows s file offset count)
    (hopen : 0 < count → t.sent.length < count) {s' : Session τ β} {waiting : ℕ} {r : WriteResult}
    {q : Option τ} {before : List (From τ (Task β))}
    (hr : r.nwrote ≤
      ((file.drop (offset + t.sent.length)).take (count - t.sent.length)).length)
    (hs' : s'.Streams) (hgiven : ∃ gs, s'.given = t.session.given ++ gs)
    (hflag : s'.conn.writeCompleteCallback_ = t.session.conn.writeCompleteCallback_)
    (hlog : s'.log = t.session.log ++ (t.session.conn.runTask r
      (.sendFileInLoop file (offset + t.sent.length) (count - t.sent.length))).2)
    (hpend : s'.pending = before ++ (queued (t.session.conn.runTask r
      (.sendFileInLoop file (offset + t.sent.length) (count - t.sent.length))).2).map
        fun task => (q, task)) (hwaiting : before.length = waiting) :
    (t.execute t.session s' waiting
      (.sendFileInLoop file (offset + t.sent.length) (count - t.sent.length)) r).Follows
      s file offset count := by
  obtain ⟨gs, hgs⟩ := h.given
  have hearlier : stream s.given <+: stream t.session.given := by
    rw [hgs, stream_append]
    exact List.prefix_append _ _
  have hhanded : (t.execute t.session s' waiting (.sendFileInLoop file (offset + t.sent.length)
      (count - t.sent.length)) r).Handed (stream s.given) file offset count :=
    handed_execute h.handed hopen h.streams hearlier hr hlog hflag
  generalize hk : t.sent.length = k at *
  have hlen := t.length_sent_execute s' waiting hk hr
  refine ⟨hs', ?_, hflag.trans h.callback, hhanded, ?_, ?_⟩
  · obtain ⟨gs', hgs'⟩ := hgiven
    exact ⟨gs ++ gs', by rw [← List.append_assoc, ← hgs, ← hgs']; rfl⟩
  · intro i hi
    rw [place_execute] at hi
    split_ifs at hi with hreq
    obtain rfl := Option.some.inj hi
    refine ⟨q, ?_⟩
    rw [hlen, ← Nat.add_assoc, ← Nat.sub_sub]
    show s'.pending[waiting]? = _
    rw [hpend, TcpConnection.runTask, TcpConnection.queued_of_requeues file _ hreq, ← hwaiting]
    simp
  · intro hplace hpos
    rw [place_execute] at hplace
    split_ifs at hplace with hreq
    · rw [hlen]
      unfold TcpConnection.requeues at hreq
      simp only [Bool.and_eq_true, decide_eq_true_eq] at hreq
      omega
    · exact absurd rfl hplace

omit [Inhabited β] [DecidableEq τ] in
/-- Before its first execution. -/
theorem follows_call (hs : s.Streams) (place : Option ℕ) (hplace : ∀ i, place = some i →
      ∃ q, s.pending[i]? = some (q, .sendFileInLoop file offset count)) :
    (⟨s, place, [], [], 0⟩ : Transfer τ β).Follows s file offset count := by
  refine ⟨hs, ⟨[], (List.append_nil _).symm⟩, rfl, ⟨Nat.zero_le _, rfl, ?_, ?_⟩, hplace, ?_⟩
  · intro p hp
    cases hp
  · intro hpos _
    exact (if_neg (Nat.ne_of_lt hpos)).symm
  · exact fun _ hpos => hpos

theorem follows_start (hs : s.Streams) (h : Starts s file offset count t) :
    t.Follows s file offset count := by
  cases h with
  | inLoop r hconn hen =>
    have hafter : s.after (.sendFile file offset count r) =
        (s.accept none (.file ((file.drop offset).take count))).runTask none
          (.sendFileInLoop file offset count) r := by
      simp only [Session.after, hconn, if_true]
    exact follows_execute (t := ⟨s, none, [], [], 0⟩) (q := none)
      (follows_call hs none fun _ hi => absurd hi.symm (Option.some_ne_none _)) id hen
      (Session.streams_after hs _)
      (Session.given_after s _) (Session.writeComplete_after s _) (by rw [hafter]; rfl)
      (by rw [hafter]; rfl) rfl
  | queued u hcaller =>
    have hpend : (s.after (.push u)).pending =
        s.pending ++ [(some u, .sendFileInLoop file offset count)] := by
      simp [Session.after, hcaller, Caller.task]
    have h : (⟨s.after (.push u), some s.pending.length, [], [], 0⟩ : Transfer τ β).Follows
        (s.after (.push u)) file offset count := by
      refine follows_call (Session.streams_after hs (.push u)) _ ?_
      intro i hi
      obtain rfl := Option.some.inj hi
      exact ⟨some u, by rw [hpend]; simp⟩
    exact ⟨h.1, h.2, h.3, h.4, h.5, h.6⟩

/-- An execution finds its task with the rest of the range. -/
theorem follows_cases (h : t.Follows s file offset count) (hen : t.enabled l) :
    (∃ r q rest, l = .task r ∧ t.place = some 0 ∧
      t.session.pending =
        (q, .sendFileInLoop file (offset + t.sent.length) (count - t.sent.length)) :: rest ∧
      r.nwrote ≤ ((file.drop (offset + t.sent.length)).take (count - t.sent.length)).length ∧
      t.after l = t.execute t.session (t.session.after l) rest.length
        (.sendFileInLoop file (offset + t.sent.length) (count - t.sent.length)) r) ∨
    ∃ p, t.after l = { t with session := t.session.after l, place := p } ∧
      (t.place = none ↔ p = none) ∧
      ∀ i x, t.place = some i → t.session.pending[i]? = some x →
        ∃ j, p = some j ∧ (t.session.after l).pending[j]? = some x := by
  rcases after_cases t l with ⟨r, e, rest, rfl, hplace, hp, hafter⟩ | ⟨p, hafter, hnone, hmove⟩
  · obtain ⟨q, hq⟩ := h.place 0 hplace
    rw [hp] at hq
    obtain rfl := Option.some.inj hq
    refine Or.inl ⟨r, q, rest, rfl, hplace, hp, ?_, hafter⟩
    have hfits := hen.2.2
    unfold Session.taskFits at hfits
    simpa [hp, Task.asks] using hfits
  · refine Or.inr ⟨p, hafter, ⟨hnone, ?_⟩, hmove⟩
    rintro rfl
    cases hplace : t.place with
    | none => rfl
    | some i =>
      obtain ⟨q, hq⟩ := h.place i hplace
      obtain ⟨j, hj, -⟩ := hmove i _ hplace hq
      cases hj

theorem follows_after (h : t.Follows s file offset count) (hen : t.enabled l) :
    (t.after l).Follows s file offset count := by
  rcases follows_cases h hen with ⟨r, q, rest, rfl, hplace, hp, hr, hafter⟩ |
    ⟨p, hafter, hnone, hmove⟩
  · rw [hafter]
    have hstep := Session.after_task hp r
    exact follows_execute (q := q) h
      (h.unfinished (by rw [hplace]; exact Option.some_ne_none 0)) hr
      (Session.streams_after h.streams _) (Session.given_after _ _)
      (Session.writeComplete_after _ _) (by rw [hstep]; rfl) (by rw [hstep]; rfl) rfl
  · obtain ⟨gs, hgs⟩ := h.given
    obtain ⟨gs', hgs'⟩ := Session.given_after t.session l
    rw [hafter]
    refine ⟨Session.streams_after h.streams l, ⟨gs ++ gs', ?_⟩,
      (Session.writeComplete_after t.session l).trans h.callback,
      ⟨h.handed.le, h.handed.sent, order_mono h.handed.order (Session.log_after t.session l), ?_⟩,
      ?_, ?_⟩
    · show (t.session.after l).given = _
      rw [hgs', hgs, List.append_assoc]
    · intro hpos hset
      exact h.handed.completes hpos ((Session.writeComplete_after t.session l).symm.trans hset)
    · intro j hj
      show ∃ q, (t.session.after l).pending[j]? = _
      cases hplace : t.place with
      | none =>
        obtain rfl : p = none := hnone.1 hplace
        cases hj
      | some i =>
        obtain ⟨q, hq⟩ := h.place i hplace
        obtain ⟨j', hj', hq'⟩ := hmove i _ hplace hq
        obtain rfl : j' = j := Option.some.inj (hj'.symm.trans hj)
        exact ⟨q, hq'⟩
    · intro hp hpos
      exact h.unfinished (fun hplace => hp (hnone.1 hplace)) hpos

/-! ### Whole runs -/

/-- A transfer is over after these answers: one of them was final, or the range is sent. -/
def Over (count : ℕ) (results : List WriteResult) : Prop :=
  (∃ r ∈ results, r.isFault = true) ∨ count ≤ (results.map WriteResult.nwrote).sum

instance (count : ℕ) (results : List WriteResult) : Decidable (Over count results) :=
  inferInstanceAs (Decidable (_ ∨ _))

/-- The connection is connected at the executions of the transfer. -/
def Connected (t : Transfer τ β) (_ : Session.Label τ β) : Prop :=
  t.place = some 0 → t.session.conn.state_ = .kConnected

/-- It has no other output then, either. -/
def Undisturbed (t : Transfer τ β) (_ : Session.Label τ β) : Prop :=
  t.place = some 0 → t.session.conn.state_ = .kConnected ∧ t.session.conn.isIdle = true

instance (t : Transfer τ β) : DecidablePred t.Connected := fun _ =>
  inferInstanceAs (Decidable (t.place = some 0 → t.session.conn.state_ = .kConnected))

instance (t : Transfer τ β) : DecidablePred t.Undisturbed := fun _ =>
  inferInstanceAs (Decidable (t.place = some 0 →
    t.session.conn.state_ = .kConnected ∧ t.session.conn.isIdle = true))

/-- A transfer that is over has sent its range or met a final error. -/
def Ended (count : ℕ) (t : Transfer τ β) : Prop :=
  t.place = none → t.sent.length = count ∨ ∃ r ∈ t.results, r.isFault = true

omit [DecidableEq τ] in
theorem ended_execute {k : ℕ} (hk : t.sent.length = k) (hle : k ≤ count)
    (hs : t.session.conn.state_ = .kConnected) {s' : Session τ β} {waiting : ℕ} {r : WriteResult}
    (hr : r.nwrote ≤ ((file.drop (offset + k)).take (count - k)).length) :
    (t.execute t.session s' waiting (.sendFileInLoop file (offset + k) (count - k)) r).Ended
      count := by
  intro hplace
  rw [place_execute] at hplace
  split_ifs at hplace with hreq
  rw [TcpConnection.requeues_iff (by simp [hs]), not_and_or] at hreq
  rcases hreq with hfault | hall
  · right
    exact ⟨r, by simp [execute], by simpa using (Classical.not_imp.1 hfault).2⟩
  · left
    have hn := (t.session.conn.length_wire_sendFileInLoop file (offset + k) hr).2
    rw [t.length_sent_execute s' waiting hk hr]
    omega

theorem ended_start (h : Starts s file offset count t) : t.Ended count := by
  cases h with
  | inLoop r hconn hen =>
    exact ended_execute (t := ⟨s, none, [], [], 0⟩) (k := 0) rfl (Nat.zero_le _)
      (by simpa [TcpConnection.connected] using hconn) hen
  | queued u hcaller =>
    intro hp
    exact absurd hp (Option.some_ne_none _)

theorem ended_after (h : t.Follows s file offset count) (he : t.Ended count)
    (hconn : t.Connected l) (hen : t.enabled l) : (t.after l).Ended count := by
  rcases follows_cases h hen with ⟨r, q, rest, rfl, hplace, -, hr, hafter⟩ | ⟨p, hafter, hnone, -⟩
  · rw [hafter]
    exact ended_execute rfl h.handed.le (hconn hplace) hr
  · rw [hafter]
    exact fun hp => he (hnone.2 hp)

/-- A run with its record is a run of the session. -/
theorem exec_session {t u : Transfer τ β} {ls : List (Session.Label τ β)}
    (h : Lts.exec step t ls = some u) : Lts.exec Session.step t.session ls = some u.session := by
  induction ls generalizing t with
  | nil =>
    cases h
    rfl
  | cons l ls ih =>
    obtain ⟨hen, hvu⟩ := Lts.guarded_exec_cons.1 h
    refine Lts.guarded_exec_cons.2 ⟨hen, ?_⟩
    rw [← session_after]
    exact ih hvu

/-- **A file goes out in consecutive pieces.**  In every run after a call of `sendFile`, in which
the connection stays connected: what was handed to the kernel is the first `k` bytes of the range,
behind all the output there was at the call; the task goes on with the rest, unless all is sent or a
write was refused for good; and the write-complete task has been queued once if all is sent, and not
before. -/
theorem file_in_pieces {sockfd : ℤ} {writeComplete highWater : Bool} {mark : ℕ}
    {pre post : List (Session.Label τ β)} {t₀ : Transfer τ β}
    (hpre : Lts.exec Session.step (.init sockfd writeComplete highWater mark) pre = some s)
    (hstart : Starts s file offset count t₀) (hconn : Lts.Along step Connected t₀ post)
    (hpost : Lts.exec step t₀ post = some t) :
    ∃ k ≤ count, t.sent = (file.drop offset).take k ∧ t.sent.length = k ∧
      (∀ i, t.place = some i → ∃ q, t.session.pending[i]? =
        some (q, .sendFileInLoop file (offset + k) (count - k))) ∧
      (t.place = none → k = count ∨ ∃ r ∈ t.results, r.isFault = true) ∧
      (∀ p ∈ t.pieces, p.2 ≠ [] → wire s.log ++ s.conn.outputBuffer_.content <+: p.1 ∧
        p.1 ++ p.2 <+: wire t.session.log) ∧
      (0 < count → s.conn.writeCompleteCallback_ = true →
        t.completes = if k = count then 1 else 0) := by
  have hs : s.Streams := Session.output_stream hpre
  have h : t.Follows s file offset count ∧ t.Ended count :=
    Lts.guarded_inv (I := fun t => t.Follows s file offset count ∧ t.Ended count)
      (fun t l h hl hen => ⟨follows_after h.1 hen, ended_after h.1 h.2 hl hen⟩)
      ⟨follows_start hs hstart, ended_start hstart⟩ hconn hpost
  obtain ⟨hf, hended⟩ := h
  refine ⟨t.sent.length, hf.handed.le, hf.handed.sent, rfl, hf.place, hended, ?_, ?_⟩
  · rw [show wire s.log ++ s.conn.outputBuffer_.content = stream s.given from hs]
    exact hf.handed.order
  · intro hpos hset
    exact hf.handed.completes hpos (hf.callback.trans hset)

/-- A byte is still draining when the file is sent, in two pieces. -/
private def drainingPre : List (Session.Label Unit ℕ) :=
  [.task (.sent 0), .send [9] (.failed .EWOULDBLOCK)]

private def drainingPost : List (Session.Label Unit ℕ) :=
  [.task (.sent 0), .poll EPOLLOUT, .handleEvent, .writeCallback (.sent 1), .task (.sent 1),
    .task (.sent 0), .task (.sent 1)]

theorem file_in_pieces_draining :
    ∃ (s : Session Unit ℕ) (t₀ t : Transfer Unit ℕ),
      Lts.exec Session.step (.init 5 true false 100) drainingPre = some s ∧
      Starts s [5, 6, 7, 8] 1 2 t₀ ∧ Lts.exec step t₀ drainingPost = some t ∧
      wire t.session.log = [9, 6, 7] ∧ t.sent = [6, 7] ∧ t.completes = 1 ∧
      ∃ k ≤ 2, t.sent = ([5, 6, 7, 8].drop 1).take k := by
  have hrun : (Lts.exec Session.step (.init 5 true false 100) drainingPre).any
      (fun s : Session Unit ℕ => s.conn.connected &&
        decide (s.enabled (.sendFile [5, 6, 7, 8] 1 2 (.sent 0))) &&
        decide (Lts.Along step Connected (call s [5, 6, 7, 8] 1 2 (.sent 0)) drainingPost) &&
        (Lts.exec step (call s [5, 6, 7, 8] 1 2 (.sent 0)) drainingPost).any fun t =>
          wire t.session.log == [9, 6, 7] && t.sent == [6, 7] && t.completes == 1) = true := by
    decide +kernel
  obtain ⟨s, hs, hp⟩ := Lts.exec_of_any hrun
  rw [Bool.and_eq_true, Bool.and_eq_true, Bool.and_eq_true, decide_eq_true_eq,
    decide_eq_true_eq] at hp
  obtain ⟨⟨⟨hconn, hen⟩, halong⟩, hany⟩ := hp
  obtain ⟨t, ht, hq⟩ := Lts.exec_of_any hany
  simp only [Bool.and_eq_true, beq_iff_eq] at hq
  have hstart := Starts.inLoop _ hconn hen
  obtain ⟨k, hk, hsent, -⟩ := file_in_pieces hs hstart halong ht
  exact ⟨s, _, t, hs, hstart, ht, hq.1.1, hq.1.2, hq.2, k, hk, hsent⟩

/-! ### How many executions -/

/-- Over as soon as the answers say so, and not before. -/
structure Counted (count : ℕ) (t : Transfer τ β) : Prop where
  sum : t.sent.length = (t.results.map WriteResult.nwrote).sum
  going : t.place ≠ none → t.results = [] ∨ ¬ Over count t.results
  finished : t.place = none → ∃ rs r, t.results = rs ++ [r] ∧ Over count t.results ∧
    (rs = [] ∨ ¬ Over count rs)

omit [Inhabited β] [DecidableEq τ] in
theorem over_concat {results : List WriteResult} {r : WriteResult} :
    Over count (results ++ [r]) ↔ (∃ x ∈ results, x.isFault = true) ∨ r.isFault = true ∨
      count ≤ (results.map WriteResult.nwrote).sum + r.nwrote := by
  simp [Over, or_and_right, exists_or, or_assoc]

omit [Inhabited β] [DecidableEq τ] in
/-- A transfer that is over stays so. -/
theorem over_mono {rs results : List WriteResult} (h : Over count rs) (hp : rs <+: results) :
    Over count results := by
  obtain ⟨more, rfl⟩ := hp
  rcases h with ⟨r, hr, hf⟩ | hsum
  · exact Or.inl ⟨r, List.mem_append_left _ hr, hf⟩
  · right
    rw [List.map_append, List.sum_append]
    omega

omit [DecidableEq τ] in
theorem counted_execute {k : ℕ} (hk : t.sent.length = k) (hle : k ≤ count)
    (hsum : k = (t.results.map WriteResult.nwrote).sum)
    (hgoing : t.results = [] ∨ ¬ Over count t.results)
    (hs : t.session.conn.state_ = .kConnected) (hidle : t.session.conn.isIdle = true)
    {s' : Session τ β} {waiting : ℕ} {r : WriteResult}
    (hr : r.nwrote ≤ ((file.drop (offset + k)).take (count - k)).length) :
    (t.execute t.session s' waiting (.sendFileInLoop file (offset + k) (count - k)) r).Counted
      count := by
  have hsent : t.session.conn.fileSent r = r.nwrote := by
    simp [TcpConnection.fileSent, TcpConnection.sendsFile, hs, hidle]
  have hlen := t.length_sent_execute s' waiting hk hr
  have hreq : t.session.conn.requeues (count - k) r = true ↔
      (t.session.conn.isIdle = true → r.isFault = false) ∧
        t.session.conn.fileSent r < count - k :=
    TcpConnection.requeues_iff (by simp [hs])
  rw [hsent] at hlen hreq
  simp only [hidle, true_imp_iff] at hreq
  have hnofault : ∀ x ∈ t.results, x.isFault = false := by
    intro x hx
    rcases hgoing with hnil | hno
    · rw [hnil] at hx
      cases hx
    · by_contra hf
      exact hno (Or.inl ⟨x, hx, by simpa using hf⟩)
  have hover : Over count (t.results ++ [r]) ↔ t.session.conn.requeues (count - k) r = false := by
    have hold : ¬ ∃ x ∈ t.results, x.isFault = true := by
      rintro ⟨x, hx, hf⟩
      rw [hnofault x hx] at hf
      cases hf
    rw [over_concat, ← Bool.not_eq_true, hreq, ← hsum, or_iff_right hold]
    cases r.isFault with
    | true => simp
    | false =>
      simp only [Bool.false_eq_true, false_or, true_and, not_lt]
      omega
  refine ⟨?_, ?_, ?_⟩
  · rw [hlen, hsum]
    simp [execute]
  · intro hplace
    right
    rw [place_execute] at hplace
    split_ifs at hplace with h
    · show ¬ Over count (t.results ++ [r])
      rw [hover, h]
      simp
    · exact absurd rfl hplace
  · intro hplace
    rw [place_execute] at hplace
    split_ifs at hplace with h
    exact ⟨t.results, r, rfl, hover.2 (by simpa using h), hgoing⟩

theorem counted_start (h : Starts s file offset count t) (hidle : s.conn.isIdle = true) :
    t.Counted count := by
  cases h with
  | inLoop r hconn hen =>
    exact counted_execute (t := ⟨s, none, [], [], 0⟩) (k := 0) rfl (Nat.zero_le _) rfl (Or.inl rfl)
      (by simpa [TcpConnection.connected] using hconn) hidle hen
  | queued u hcaller =>
    exact ⟨rfl, fun _ => Or.inl rfl, fun hp => absurd hp (Option.some_ne_none _)⟩

theorem counted_after (h : t.Follows s file offset count) (hc : t.Counted count)
    (hcalm : t.Undisturbed l) (hen : t.enabled l) : (t.after l).Counted count := by
  rcases follows_cases h hen with ⟨r, q, rest, rfl, hplace, -, hr, hafter⟩ | ⟨p, hafter, hnone, -⟩
  · rw [hafter]
    obtain ⟨hs, hidle⟩ := hcalm hplace
    exact counted_execute rfl h.handed.le hc.sum
      (hc.going (by rw [hplace]; exact Option.some_ne_none 0)) hs hidle hr
  · rw [hafter]
    refine ⟨hc.sum, fun hp => hc.going fun hplace => hp (hnone.1 hplace), fun hp => ?_⟩
    exact hc.finished (hnone.2 hp)

/-- **How many executions a transfer takes.**  In every run after a call of `sendFile` on a
connection without other output, in which it stays connected and without: there are at most
`count + 1` executions and no task is left after so many, exactly when among the first `count + 1`
answers of `sendfile` one is final or they add up to the range. -/
theorem executions_bounded_iff {sockfd : ℤ} {writeComplete highWater : Bool} {mark : ℕ}
    {pre post : List (Session.Label τ β)} {t₀ : Transfer τ β}
    (hpre : Lts.exec Session.step (.init sockfd writeComplete highWater mark) pre = some s)
    (hidle : s.conn.isIdle = true) (hstart : Starts s file offset count t₀)
    (hcalm : Lts.Along step Undisturbed t₀ post) (hpost : Lts.exec step t₀ post = some t) :
    (t.results.length ≤ count + 1 ∧ (t.results.length = count + 1 → t.place = none)) ↔
      (count + 1 ≤ t.results.length → Over count (t.results.take (count + 1))) := by
  have hs : s.Streams := Session.output_stream hpre
  have h : t.Follows s file offset count ∧ t.Counted count :=
    Lts.guarded_inv (I := fun t => t.Follows s file offset count ∧ t.Counted count)
      (fun t l h hl hen => ⟨follows_after h.1 hen, counted_after h.1 h.2 hl hen⟩)
      ⟨follows_start hs hstart, counted_start hstart hidle⟩ hcalm hpost
  obtain ⟨hsum, hgoing, hfinished⟩ := h.2
  constructor
  · rintro ⟨hle, hplace⟩ hlen
    obtain ⟨rs, r, -, hover, -⟩ := hfinished (hplace (Nat.le_antisymm hle hlen))
    rwa [List.take_of_length_le hle]
  · intro hover
    cases hplace : t.place with
    | some i =>
      -- the transfer goes on: none of its answers has ended it
      have hlt : ¬ count + 1 ≤ t.results.length := by
        intro hlen
        rcases hgoing (by rw [hplace]; exact Option.some_ne_none i) with hnil | hno
        · simp [hnil] at hlen
        · exact hno (over_mono (hover hlen) (List.take_prefix _ _))
      exact ⟨by omega, fun h => absurd h (by omega)⟩
    | none =>
      refine ⟨?_, fun _ => rfl⟩
      obtain ⟨rs, r, hres, -, hbefore⟩ := hfinished hplace
      by_contra hlong
      have hlen : count + 1 ≤ rs.length := by
        rw [hres, List.length_append, List.length_singleton] at hlong
        omega
      have htake : t.results.take (count + 1) <+: rs := by
        rw [hres, List.take_append_of_le_length hlen]
        exact List.take_prefix _ _
      rcases hbefore with rfl | hno
      · simp at hlen
      · exact hno (over_mono (hover (by omega)) htake)

/-- Three bytes in two executions. -/
theorem executions_bounded_iff_two :
    ∃ (s : Session Unit ℕ) (t₀ t : Transfer Unit ℕ), Starts s [5, 6, 7] 0 3 t₀ ∧
      Lts.exec step t₀ [.task (.sent 2)] = some t ∧ t.sent = [5, 6, 7] ∧
        t.results.length ≤ 3 + 1 := by
  have hrun : (Lts.exec Session.step (.init 5 true false 100) [.task (.sent 0)]).any
      (fun s : Session Unit ℕ => s.conn.connected && s.conn.isIdle &&
        decide (s.enabled (.sendFile [5, 6, 7] 0 3 (.sent 1))) &&
        decide (Lts.Along step Undisturbed (call s [5, 6, 7] 0 3 (.sent 1)) [.task (.sent 2)]) &&
        (Lts.exec step (call s [5, 6, 7] 0 3 (.sent 1)) [.task (.sent 2)]).any fun t =>
          t.sent == [5, 6, 7] && t.results.length == 2) = true := by
    decide +kernel
  obtain ⟨s, hs, hp⟩ := Lts.exec_of_any hrun
  rw [Bool.and_eq_true, Bool.and_eq_true, Bool.and_eq_true, Bool.and_eq_true, decide_eq_true_eq,
    decide_eq_true_eq] at hp
  obtain ⟨⟨⟨⟨hconn, hidle⟩, hen⟩, halong⟩, hany⟩ := hp
  obtain ⟨t, ht, hq⟩ := Lts.exec_of_any hany
  simp only [Bool.and_eq_true, beq_iff_eq] at hq
  have hstart := Starts.inLoop _ hconn hen
  have h := (executions_bounded_iff hs hidle hstart halong ht).2 fun hlen => absurd hlen (by
    rw [hq.2]
    decide)
  exact ⟨s, _, t, hstart, ht, hq.1, h.1⟩

/-- One byte is asked of an empty file: `sendfile` returns `0` each time, and after three executions
the task is still there. -/
theorem executions_unbounded :
    ∃ (s : Session Unit ℕ) (t₀ t : Transfer Unit ℕ), s.conn.connected = true ∧
      s.conn.isIdle = true ∧ Starts s [] 0 1 t₀ ∧
      Lts.exec step t₀ [.task (.sent 0), .task (.sent 0)] = some t ∧
      t.results = [.sent 0, .sent 0, .sent 0] ∧ t.place = some 0 ∧
      ¬ (t.results.length ≤ 1 + 1 ∧ (t.results.length = 1 + 1 → t.place = none)) := by
  have hrun : (Lts.exec Session.step (.init 5 true false 100) [.task (.sent 0)]).any
      (fun s : Session Unit ℕ => s.conn.connected && s.conn.isIdle &&
        decide (s.enabled (.sendFile [] 0 1 (.sent 0))) &&
        (Lts.exec step (call s [] 0 1 (.sent 0)) [.task (.sent 0), .task (.sent 0)]).any fun t =>
          t.results == [.sent 0, .sent 0, .sent 0] && t.place == some 0) = true := by
    decide +kernel
  obtain ⟨s, -, hp⟩ := Lts.exec_of_any hrun
  rw [Bool.and_eq_true, Bool.and_eq_true, Bool.and_eq_true, decide_eq_true_eq] at hp
  obtain ⟨⟨⟨hconn, hidle⟩, hen⟩, hany⟩ := hp
  obtain ⟨t, ht, hq⟩ := Lts.exec_of_any hany
  simp only [Bool.and_eq_true, beq_iff_eq] at hq
  refine ⟨s, _, t, hconn, hidle, .inLoop _ hconn hen, ht, hq.1, hq.2, ?_⟩
  rintro ⟨hle, -⟩
  rw [hq.1] at hle
  exact absurd hle (by decide)

omit [Inhabited β] [DecidableEq τ] in
/-- A range inside the file is sent in time if every call sends something or fails for good. -/
theorem over_of_progress {results : List WriteResult}
    (h : ∀ r ∈ results, r.isFault = true ∨ 0 < r.nwrote) (hlen : count ≤ results.length) :
    Over count results := by
  by_cases hfault : ∃ r ∈ results, r.isFault = true
  · exact Or.inl hfault
  · right
    refine hlen.trans ?_
    rw [← List.length_map WriteResult.nwrote]
    refine List.length_le_sum_of_one_le _ fun n hn => ?_
    obtain ⟨r, hr, rfl⟩ := List.mem_map.1 hn
    exact (h r hr).resolve_left fun hf => hfault ⟨r, hr, hf⟩

omit [Inhabited β] [DecidableEq τ] in
/-- A range that reaches past the end of the file is never sent: without a final error the task is
queued for ever. -/
theorem past_end_goes_on (h : t.Follows s file offset count) (hc : t.Ended count)
    (hpast : file.length < offset + count) (hcount : 0 < count)
    (hr : ∀ r ∈ t.results, r.isFault = false) : t.place ≠ none := by
  intro hplace
  rcases hc hplace with hall | ⟨r, hmem, hfault⟩
  · have hsent := congrArg List.length h.handed.sent
    rw [hall, List.length_take, List.length_drop] at hsent
    omega
  · rw [hr r hmem] at hfault
    cases hfault

end Transfer

end Muduo
