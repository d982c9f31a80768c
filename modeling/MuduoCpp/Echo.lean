import MuduoCpp.OutputStream
import MuduoCpp.SendFile

/-!
# `benchmark/cpp17_pingpong_server.cc`: the echo server

The message callback of the server is `conn->send(buf)`, with `buf` the connection's own
`inputBuffer_`.  A connection of the server runs on its loop as in `Session`; nobody else calls it
(`Session Empty β`), and its `readCallback_` goes on in the message callback when bytes have come.

Reads of any size go through the scatter read of `readFd`, the input buffer, `send(Buffer*)`, the
direct write of `sendInLoop`, the output buffer and `handleWrite`; `echoed` says that the stream
comes out as it came in.
-/

namespace Muduo

/-- The bytes that a read has delivered. -/
def ReadResult.bytes {β : Type} : ReadResult β → List β
  | .data bytes => bytes
  | .failed => []

namespace TcpConnection

variable {β : Type}

@[simp] theorem input_saveRemaining [Inhabited β] (c : TcpConnection β) (data : List β) :
    (c.saveRemaining data).1.inputBuffer_ = c.inputBuffer_ := by
  unfold saveRemaining
  simp only
  split_ifs <;> rfl

@[simp] theorem input_sendInLoop [Inhabited β] (c : TcpConnection β) (data : List β)
    (r : WriteResult) : (c.sendInLoop data r).1.inputBuffer_ = c.inputBuffer_ := by
  unfold sendInLoop
  simp only
  split_ifs <;> simp

@[simp] theorem input_handleWrite (c : TcpConnection β) (r : WriteResult) :
    (c.handleWrite r).1.inputBuffer_ = c.inputBuffer_ := by
  unfold handleWrite
  simp only
  split_ifs <;> rfl

/-- Tasks leave the input alone. -/
theorem input_runTask [Inhabited β] (c : TcpConnection β) (r : WriteResult) (task : Task β) :
    (c.runTask r task).1.inputBuffer_ = c.inputBuffer_ := by
  cases task with
  | connectDestroyed =>
    simp only [runTask, connectDestroyed]
    split_ifs <;> rfl
  | sendInLoop data => exact input_sendInLoop c data r
  | sendFileInLoop file offset count =>
    exact congrArg inputBuffer_ (sendFileInLoop_fst c file offset count r)
  | connectEstablished | shutdownInLoop | writeCompleteCallback_ | highWaterMarkCallback_ => rfl

@[simp] theorem content_handleRead [Inhabited β] (c : TcpConnection β) (r : ReadResult β) :
    (c.handleRead r).1.inputBuffer_.content = c.inputBuffer_.content ++ r.bytes := by
  rcases r with bytes | _
  · simp only [handleRead]
    split_ifs <;> exact OkBuffer.content_readFd _ _
  · exact (List.append_nil _).symm

/-- Only `connectEstablished` opens a connection. -/
theorem connected_of_runTask [Inhabited β] {c : TcpConnection β} {r : WriteResult} {task : Task β}
    (hne : task ≠ .connectEstablished) (h : (c.runTask r task).1.state_ = .kConnected) :
    c.state_ = .kConnected := by
  by_cases hd : task = .connectDestroyed
  · subst hd
    by_contra hc
    simp [runTask, connectDestroyed, hc] at h
  · rwa [← state_runTask_of_ne c r hne hd]

theorem connected_of_runCallback [Inhabited β] {c : TcpConnection β} {read : ReadResult β}
    {w : WriteResult} {k : Callback} (h : (c.runCallback read w k).1.state_ = .kConnected) :
    c.state_ = .kConnected := by
  rcases c.state_runCallback read w k with ⟨-, hs⟩ | ⟨-, hs⟩
  · rw [hs] at h
    cases h
  · rwa [← hs]

end TcpConnection

namespace Session

variable {τ β : Type}

/-- A step of the loop or of the server that runs no message callback. -/
def Label.isLoop : Label τ β → Bool
  | .poll _ | .handleEvent | .closeCallback | .errorCallback | .writeCallback _ | .task _
  | .queueDestroyed | .connectDestroyed => true
  | _ => false

/-- `send(Buffer*)` on the loop's thread, with `inputBuffer_`. -/
def sendBuffer [Inhabited β] [DecidableEq τ] (s : Session τ β) (w : WriteResult) : Session τ β :=
  if s.conn.connected then
    let u := s.after (.send s.conn.inputBuffer_.content w)
    { u with conn := { u.conn with inputBuffer_ := u.conn.inputBuffer_.retrieveAll } }
  else s

/-! ### What the steps between two messages leave alone -/

/-- No data waits in the queue. -/
def Quiet (s : Session τ β) : Prop := ∀ e ∈ s.pending, e.2.isSend = false ∧ e.2.isFile = false

/-- The connection waits for `connectEstablished`, or is up. -/
def Opened (s : Session τ β) : Prop := s.Fresh ∨ s.conn.state_ = .kConnected

variable {s : Session τ β} {l : Label τ β}

theorem quiet_perform {p : Option τ} {res : TcpConnection β × List (Effect β)} (h : s.Quiet)
    (hq : TcpConnection.QueuesOwn res.2) (hfile : TcpConnection.NoFile res.2) :
    (s.perform p res).Quiet := by
  intro e he
  refine ⟨noSend_perform (fun e he => (h e he).1) hq e he, ?_⟩
  rcases List.mem_append.1 he with he | he
  · exact (h e he).2
  · obtain ⟨task, htask, rfl⟩ := List.mem_map.1 he
    simpa using List.countP_eq_zero.1 hfile task htask

theorem taken_of_quiet {c : TcpConnection β} {r : WriteResult} {task : Task β}
    (hs : task.isSend = false) (hf : task.isFile = false) : c.taken r task = none := by
  cases task with
  | sendInLoop data => cases hs
  | sendFileInLoop file offset count => cases hf
  | _ => rfl

variable [Inhabited β] [DecidableEq τ]

omit [Inhabited β] [DecidableEq τ] in
theorem not_fresh_of_ran (h : s.Ran) : ¬ s.Fresh := by
  intro hf
  obtain ⟨q, rest, hp, -⟩ := hf.pending
  exact h (q, .connectEstablished) (by simp [hp]) rfl

theorem quiet_loop (h : s.Quiet) (hl : l.isLoop = true) (hen : s.enabled l) :
    (s.after l).Quiet ∧ (s.after l).given = s.given ∧
      (s.after l).conn.inputBuffer_ = s.conn.inputBuffer_ := by
  have htail : ({ s with running := s.running.tail } : Session τ β).Quiet := h
  cases l with
  | poll | handleEvent => exact ⟨h, rfl, rfl⟩
  | closeCallback =>
    exact ⟨quiet_perform htail (TcpConnection.queuesOwn_handleClose _) rfl, rfl, rfl⟩
  | errorCallback =>
    exact ⟨quiet_perform htail (TcpConnection.queuesOwn_handleError _) rfl, rfl, rfl⟩
  | writeCallback r =>
    exact ⟨quiet_perform htail (TcpConnection.queuesOwn_handleWrite _ _)
      (TcpConnection.noFile_handleWrite _ _), rfl, TcpConnection.input_handleWrite _ _⟩
  | task r =>
    obtain ⟨e, rest, hp⟩ := exists_pending hen.2.2
    have he := h e (by simp [hp])
    have hrest : ({ s with pending := rest } : Session τ β).Quiet := fun d hd =>
      h d (by rw [hp]; exact List.mem_cons_of_mem _ hd)
    rw [after_task hp, runTask_of_taken (taken_of_quiet he.1 he.2)]
    exact ⟨quiet_perform hrest (TcpConnection.queuesOwn_runTask _ _ _)
      (TcpConnection.noFile_runTask _ _ he.2), rfl, TcpConnection.input_runTask _ _ _⟩
  | queueDestroyed =>
    refine ⟨fun e he => ?_, rfl, rfl⟩
    rcases List.mem_append.1 he with he | he
    · exact h e he
    · rw [List.mem_singleton.1 he]
      exact ⟨rfl, rfl⟩
  | connectDestroyed =>
    have hrun : s.after .connectDestroyed =
        s.perform none (s.conn.runTask (.sent 0) .connectDestroyed) := runTask_of_taken rfl
    rw [hrun]
    exact ⟨quiet_perform h (TcpConnection.queuesOwn_runTask s.conn _ .connectDestroyed)
      (TcpConnection.noFile_runTask s.conn _ rfl), rfl, TcpConnection.input_runTask _ _ _⟩
  | _ => cases hl

/-- A connection that is up was up, or waited for `connectEstablished`. -/
theorem opened_of_after (h : s.Fresh ∨ s.Ran) (hl : l.isLoop = true ∨ ∃ r, l = .readCallback r)
    (hen : s.enabled l) (hu : (s.after l).Opened) : s.Opened := by
  refine h.imp_right fun hran => ?_
  have hs := hu.resolve_left (not_fresh_of_ran (ran_after hran l))
  cases l with
  | closeCallback => cases hs
  | readCallback r =>
    exact TcpConnection.connected_of_runCallback (w := .sent 0) (k := .readCallback_) hs
  | writeCallback r => rwa [← TcpConnection.state_handleWrite s.conn r]
  | task r =>
    obtain ⟨e, rest, hp⟩ := exists_pending hen.2.2
    rw [after_task hp] at hs
    exact TcpConnection.connected_of_runTask (hran e (by simp [hp])) hs
  | connectDestroyed =>
    exact TcpConnection.connected_of_runTask (r := .sent 0) (by simp) hs
  | poll | handleEvent | errorCallback | queueDestroyed => exact hs
  | _ =>
    rcases hl with hl | ⟨r, hl⟩
    · cases hl
    · cases hl

/-- A step opens no connection and takes no fault back. -/
theorem up_of_after (h : s.Fresh ∨ s.Ran) (hl : l.isLoop = true ∨ ∃ r, l = .readCallback r)
    (hen : s.enabled l) (hu : (s.after l).Opened)
    (hok : ∀ x ∈ (s.after l).log, x.isFault = false) :
    s.Opened ∧ ∀ x ∈ s.log, x.isFault = false := by
  obtain ⟨es, hlog⟩ := s.log_after l
  refine ⟨opened_of_after h hl hen hu, fun x hx => hok x ?_⟩
  rw [hlog]
  exact List.mem_append_left _ hx

/-- A read comes after `connectEstablished`. -/
theorem ran_readCallback {r : ReadResult β} (h : s.Fresh ∨ s.Ran)
    (hen : s.enabled (.readCallback r)) : (s.after (.readCallback r)).Ran := by
  refine ran_after (h.resolve_left fun hf => ?_) _
  have : s.running.head? = _ := hen
  simp [hf.running] at this

/-! ### A `send` on the loop's thread -/

section Send

variable {data : List β} {w : WriteResult}

theorem after_send_of_connected (hs : s.conn.state_ = .kConnected) :
    s.after (.send data w) = (s.accept none (.send data)).runTask none (.sendInLoop data) w :=
  if_pos (by simp [TcpConnection.connected, hs])

theorem after_send_of_not_connected (hs : s.conn.state_ ≠ .kConnected) :
    s.after (.send data w) = s :=
  if_neg (by simpa [TcpConnection.connected] using hs)

theorem quiet_send (h : s.Quiet) : (s.after (.send data w)).Quiet := by
  by_cases hs : s.conn.state_ = .kConnected
  · rw [after_send_of_connected hs]
    exact quiet_perform (s := s.accept none _) h (TcpConnection.queuesOwn_runTask _ _ _)
      (TcpConnection.noFile_sendInLoop _ _ _)
  · rwa [after_send_of_not_connected hs]

theorem state_send : (s.after (.send data w)).conn.state_ = s.conn.state_ := by
  by_cases hs : s.conn.state_ = .kConnected
  · rw [after_send_of_connected hs]
    exact TcpConnection.state_sendInLoop _ _ _
  · rw [after_send_of_not_connected hs]

/-- What is sent goes onto the stream, unless the write fails for good. -/
theorem stream_send (hs : s.conn.state_ = .kConnected)
    (hok : ∀ x ∈ (s.after (.send data w)).log, x.isFault = false) :
    stream (s.after (.send data w)).given = stream s.given ++ data := by
  rw [after_send_of_connected hs] at hok ⊢
  have hgives : s.conn.givesUp w = false := by
    by_contra hg
    obtain ⟨x, hx, hfault⟩ := TcpConnection.fault_of_givesUp (by simp [hs])
      (Bool.eq_true_of_not_eq_false hg) data
    have := hok x (List.mem_append_right _ hx)
    rw [hfault] at this
    cases this
  have htaken :
      (s.accept none (.send data)).conn.taken w (.sendInLoop data) = some (.send data) := by
    show s.conn.taken w _ = _
    simp [TcpConnection.taken, hgives]
  refine (stream_runTask (s.accept none _) none _ w).trans ?_
  rw [htaken]
  rfl

end Send

end Session

/-- A connection of the server, with the bytes that it has received. -/
structure Echo (β : Type) where
  session : Session Empty β
  received : List β

namespace Echo

variable {β : Type} [Inhabited β]

/-- A step of the loop, or a read with what the server makes of it. -/
inductive Label (β : Type)
  | loop (l : Session.Label Empty β)
  /-- `handleRead` with the message callback, whose direct write has the result `w`. -/
  | readCallback (r : ReadResult β) (w : WriteResult)
  deriving Repr

/-- A newly made connection. -/
def init (sockfd : ℤ) (writeComplete highWater : Bool) (mark : ℕ) : Echo β where
  session := .init sockfd writeComplete highWater mark
  received := []

/-- One step; the kernel takes no more than `send` offers. -/
def step (e : Echo β) : Label β → Option (Echo β)
  | .loop l =>
      if l.isLoop then (e.session.step l).map fun s => { e with session := s } else none
  | .readCallback r w =>
      (e.session.step (.readCallback r)).bind fun s =>
        if r.bytes = [] then some { e with session := s }
        else if w.nwrote ≤ s.conn.inputBuffer_.readableBytes then
          some ⟨s.sendBuffer w, e.received ++ r.bytes⟩
        else none

/-! ### The stream -/

variable {e e' : Echo β}

/-- What has come in was put on the stream, and nothing of it is left in `inputBuffer_`. -/
structure Echoes (e : Echo β) : Prop where
  established : e.session.Fresh ∨ e.session.Ran
  quiet : e.session.Quiet
  up : e.session.Opened → (∀ x ∈ e.session.log, x.isFault = false) →
    stream e.session.given = e.received ∧ e.session.conn.inputBuffer_.content = []

theorem echoes_init (sockfd : ℤ) (writeComplete highWater : Bool) (mark : ℕ) :
    (init sockfd writeComplete highWater mark : Echo β).Echoes where
  established := Or.inl (Session.fresh_init _ _ _ _)
  quiet := by simp [Session.Quiet, init, Session.init, Task.isSend, Task.isFile]
  up := fun _ _ => by simp [init, Session.init, TcpConnection.init]

theorem echoes_loop {l : Session.Label Empty β} (h : e.Echoes) (hl : l.isLoop = true)
    (hen : e.session.enabled l) : ({ e with session := e.session.after l } : Echo β).Echoes := by
  obtain ⟨hquiet, hgiven, hinput⟩ := Session.quiet_loop h.quiet hl hen
  refine ⟨Session.established_after h.established hen, hquiet, fun hu hok => ?_⟩
  obtain ⟨hopened, hfault⟩ := Session.up_of_after h.established (Or.inl hl) hen hu hok
  have hbefore := h.up hopened hfault
  rwa [hgiven, hinput]

/-- The read itself, up to the message callback. -/
theorem quiet_read {s : Session Empty β} (h : s.Quiet) (r : ReadResult β) :
    (s.after (.readCallback r)).Quiet :=
  Session.quiet_perform (s := { s with running := s.running.tail }) h
    (TcpConnection.queuesOwn_handleRead _ _) (TcpConnection.noFile_handleRead _ _)

section SendBuffer

variable {s : Session Empty β} {w : WriteResult}

/-- Apart from `inputBuffer_`, `send(Buffer*)` is the `send` of its content. -/
theorem exists_sendBuffer (s : Session Empty β) (w : WriteResult) : ∃ input : OkBuffer β,
    s.sendBuffer w =
      { s.after (.send s.conn.inputBuffer_.content w) with
        conn := { (s.after (.send s.conn.inputBuffer_.content w)).conn with
          inputBuffer_ := input } } := by
  unfold Session.sendBuffer
  split_ifs with hs
  · exact ⟨_, rfl⟩
  · have hne : s.conn.state_ ≠ .kConnected := by simpa [TcpConnection.connected] using hs
    refine ⟨s.conn.inputBuffer_, ?_⟩
    rw [Session.after_send_of_not_connected hne]

theorem log_sendBuffer : ∃ es, (s.sendBuffer w).log = s.log ++ es := by
  obtain ⟨input, hsend⟩ := exists_sendBuffer s w
  rw [hsend]
  exact s.log_after _

theorem quiet_sendBuffer (h : s.Quiet) : (s.sendBuffer w).Quiet := by
  obtain ⟨input, hsend⟩ := exists_sendBuffer s w
  rw [hsend]
  exact Session.quiet_send h

theorem ran_sendBuffer (h : s.Ran) : (s.sendBuffer w).Ran := by
  obtain ⟨input, hsend⟩ := exists_sendBuffer s w
  rw [hsend]
  exact Session.ran_after h _

theorem state_sendBuffer : (s.sendBuffer w).conn.state_ = s.conn.state_ := by
  obtain ⟨input, hsend⟩ := exists_sendBuffer s w
  rw [hsend]
  exact Session.state_send

/-- The message callback puts the whole input on the stream. -/
theorem stream_sendBuffer (hs : s.conn.state_ = .kConnected)
    (hok : ∀ x ∈ (s.sendBuffer w).log, x.isFault = false) :
    stream (s.sendBuffer w).given = stream s.given ++ s.conn.inputBuffer_.content := by
  obtain ⟨input, hsend⟩ := exists_sendBuffer s w
  rw [hsend] at hok ⊢
  exact Session.stream_send hs hok

theorem sendBuffer_of_connected (hs : s.conn.state_ = .kConnected) :
    let u := s.after (.send s.conn.inputBuffer_.content w)
    s.sendBuffer w =
      { u with conn := { u.conn with inputBuffer_ := u.conn.inputBuffer_.retrieveAll } } :=
  if_pos (by simp [TcpConnection.connected, hs])

theorem input_sendBuffer (hs : s.conn.state_ = .kConnected) :
    (s.sendBuffer w).conn.inputBuffer_.content = [] := by
  rw [sendBuffer_of_connected hs]
  exact OkBuffer.content_retrieveAll _

/-- `send(Buffer*)` is a `send` of the content and a `retrieve` of all of it. -/
theorem exec_sendBuffer (hw : w.nwrote ≤ s.conn.inputBuffer_.readableBytes) :
    ∃ ls, Lts.exec Session.step s ls = some (s.sendBuffer w) := by
  by_cases hs : s.conn.state_ = .kConnected
  · refine ⟨[.send s.conn.inputBuffer_.content w, .retrieve s.conn.inputBuffer_.readableBytes], ?_⟩
    rw [OkBuffer.readableBytes_eq] at hw
    refine Lts.guarded_exec_cons.2 ⟨hw, ?_⟩
    refine Lts.guarded_exec_cons.2 ⟨trivial, ?_⟩
    have hinput : (s.after (.send s.conn.inputBuffer_.content w)).conn.inputBuffer_ =
        s.conn.inputBuffer_ := by
      rw [Session.after_send_of_connected hs]
      exact TcpConnection.input_sendInLoop _ _ _
    rw [Lts.exec_nil, sendBuffer_of_connected hs]
    generalize s.after (.send s.conn.inputBuffer_.content w) = u at hinput ⊢
    simp only [Session.after, hinput, OkBuffer.retrieve_readableBytes]
  · refine ⟨[], ?_⟩
    have hskip : s.sendBuffer w = s := if_neg (by simpa [TcpConnection.connected] using hs)
    rw [hskip]
    rfl

end SendBuffer

theorem echoes_message {r : ReadResult β} {w : WriteResult} (h : e.Echoes)
    (hen : e.session.enabled (.readCallback r)) :
    (⟨(e.session.after (.readCallback r)).sendBuffer w, e.received ++ r.bytes⟩ :
      Echo β).Echoes := by
  have hran := Session.ran_readCallback h.established hen
  refine ⟨Or.inr (ran_sendBuffer hran), quiet_sendBuffer (quiet_read h.quiet r), fun hu hok => ?_⟩
  have hs : (e.session.after (.readCallback r)).conn.state_ = .kConnected := by
    rw [← state_sendBuffer (w := w)]
    exact hu.resolve_left (Session.not_fresh_of_ran (ran_sendBuffer hran))
  obtain ⟨es, hlog⟩ := log_sendBuffer (s := e.session.after (.readCallback r)) (w := w)
  obtain ⟨hopened, hfault⟩ := Session.up_of_after h.established (Or.inr ⟨r, rfl⟩) hen (Or.inr hs)
    fun x hx => hok x (by rw [hlog]; exact List.mem_append_left _ hx)
  obtain ⟨hgiven, hinput⟩ := h.up hopened hfault
  refine ⟨?_, input_sendBuffer hs⟩
  calc stream ((e.session.after (.readCallback r)).sendBuffer w).given
      = stream e.session.given ++ (e.session.conn.handleRead r).1.inputBuffer_.content :=
        stream_sendBuffer hs hok
    _ = e.received ++ r.bytes := by
        rw [hgiven, TcpConnection.content_handleRead, hinput, List.nil_append]

/-- A read that delivers nothing: an error, or the end of the input. -/
theorem echoes_nothing {r : ReadResult β} (h : e.Echoes) (hr : r.bytes = [])
    (hen : e.session.enabled (.readCallback r)) :
    ({ e with session := e.session.after (.readCallback r) } : Echo β).Echoes := by
  refine ⟨Session.established_after h.established hen, quiet_read h.quiet r, fun hu hok => ?_⟩
  obtain ⟨hopened, hfault⟩ := Session.up_of_after h.established (Or.inr ⟨r, rfl⟩) hen hu hok
  obtain ⟨hgiven, hinput⟩ := h.up hopened hfault
  refine ⟨hgiven, ?_⟩
  show (e.session.conn.handleRead r).1.inputBuffer_.content = []
  rw [TcpConnection.content_handleRead, hinput, hr, List.append_nil]

theorem echoes_step {l : Label β} (h : e.Echoes) (hst : e.step l = some e') : e'.Echoes := by
  cases l with
  | loop l =>
    simp only [step, Option.ite_none_right_eq_some, Option.map_eq_some_iff] at hst
    obtain ⟨hl, s, hs, rfl⟩ := hst
    obtain ⟨hen, rfl⟩ := Lts.guarded_eq_some.1 hs
    exact echoes_loop h hl hen
  | readCallback r w =>
    obtain ⟨s, hs, hst⟩ := Option.bind_eq_some_iff.1 hst
    obtain ⟨hen, rfl⟩ := Lts.guarded_eq_some.1 hs
    split_ifs at hst with hr hw
    · cases hst
      exact echoes_nothing h hr hen
    · cases hst
      exact echoes_message h hen

/-- A step of the server is made of steps of its connection. -/
theorem session_step {l : Label β} (hst : e.step l = some e') :
    ∃ ls, Lts.exec Session.step e.session ls = some e'.session := by
  cases l with
  | loop l =>
    simp only [step, Option.ite_none_right_eq_some, Option.map_eq_some_iff] at hst
    obtain ⟨hl, s, hs, rfl⟩ := hst
    exact ⟨[l], Lts.exec_cons_iff.2 ⟨s, hs, rfl⟩⟩
  | readCallback r w =>
    obtain ⟨s, hs, hst⟩ := Option.bind_eq_some_iff.1 hst
    split_ifs at hst with hr hw
    · cases hst
      exact ⟨[.readCallback r], Lts.exec_cons_iff.2 ⟨s, hs, rfl⟩⟩
    · cases hst
      obtain ⟨ls, hls⟩ := exec_sendBuffer hw
      exact ⟨.readCallback r :: ls, Lts.exec_cons_iff.2 ⟨s, hs, hls⟩⟩

/-- **End-to-end echo.**  While the connection is up and no write has failed with `EPIPE` or
`ECONNRESET`, what the kernel has taken and what is left in `outputBuffer_` is what was received,
and `inputBuffer_` is empty. -/
theorem echoed {sockfd : ℤ} {writeComplete highWater : Bool} {mark : ℕ} {ls : List (Label β)}
    {e : Echo β} (h : Lts.exec step (init sockfd writeComplete highWater mark) ls = some e)
    (hs : e.session.conn.state_ = .kConnected) (hok : ∀ x ∈ e.session.log, x.isFault = false) :
    wire e.session.log ++ e.session.conn.outputBuffer_.content = e.received ∧
      e.session.conn.inputBuffer_.readableBytes = 0 := by
  have hecho := Lts.exec_inv' (I := Echoes) (fun _ _ _ he hst => echoes_step he hst)
    (echoes_init _ _ _ _) h
  obtain ⟨ms, hms⟩ := Lts.exec_simulates (f := session) (fun _ _ _ hst => session_step hst) h
  have hstream := Lts.guarded_inv' (I := Session.Streams)
    (fun s l hs _ => Session.streams_after hs l) (Session.streams_init _ _ _ _) hms
  obtain ⟨hgiven, hinput⟩ := hecho.up (Or.inr hs) hok
  exact ⟨hstream.trans hgiven, by rw [OkBuffer.readableBytes_eq, hinput, List.length_nil]⟩

/-- Two segments, the first larger than the buffer's free space; a partial direct write, an
`EWOULDBLOCK` and a partial drain between them. -/
private def segmentsRun : List (Label ℕ) :=
  [.loop (.task (.sent 0)), .loop (.poll EPOLLIN), .loop .handleEvent,
    .readCallback (.data (List.replicate 1030 7)) (.sent 1027),
    .loop (.poll (EPOLLIN ||| EPOLLOUT)), .loop .handleEvent,
    .readCallback (.data [1, 2]) (.sent 0), .loop (.writeCallback (.failed .EWOULDBLOCK)),
    .loop (.poll EPOLLOUT), .loop .handleEvent, .loop (.writeCallback (.sent 2))]

theorem echoed_segments :
    ∃ e : Echo ℕ, e.received = List.replicate 1030 7 ++ [1, 2] ∧
      e.session.conn.outputBuffer_.content = [7, 1, 2] ∧
      wire e.session.log ++ e.session.conn.outputBuffer_.content = e.received ∧
      e.session.conn.inputBuffer_.readableBytes = 0 := by
  have hrun : (Lts.exec step (init 5 false false 100) segmentsRun).any (fun e =>
      e.session.conn.state_ == .kConnected && e.session.log.all (fun x => !x.isFault) &&
        e.received == List.replicate 1030 7 ++ [1, 2] &&
        e.session.conn.outputBuffer_.content == [7, 1, 2]) = true := by
    decide +kernel
  obtain ⟨e, he, hp⟩ := Lts.exec_of_any hrun
  simp only [Bool.and_eq_true, beq_iff_eq, List.all_eq_true, Bool.not_eq_true'] at hp
  exact ⟨e, hp.1.2, hp.2, echoed he hp.1.1.1 hp.1.1.2⟩

end Echo

end Muduo
