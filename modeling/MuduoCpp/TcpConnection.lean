import MuduoCpp.Buffer
import MuduoCpp.Channel

/-!
# `src/TcpConnection.cc`: the functions of a connection

A function of the connection takes the connection and what the kernel answers to its one system
call, and gives the connection afterwards with the list of its effects on the outside, in their
order: the bytes that the kernel took, the calls of `Channel::update` and `Channel::remove`, the
tasks handed to `queueInLoop`, the callbacks of the user and of the server.

Bytes are of an arbitrary type `β`.  A file is the list of its bytes.

The user code inside a callback is not part of these functions.  `connectionCallback_` is called in
the middle of `handleClose` and of `connectDestroyed`, where `state_` is `kDisconnected` and the
public calls do nothing; the other callbacks end the functions that call them.

* `sendInLoop`, `sendFileInLoop`, `shutdownInLoop`, `connectEstablished`, `connectDestroyed`: what
  runs on the loop's thread, directly or as a task (`Task`);
* `handleRead`, `handleWrite`, `handleClose`, `handleError`: the callbacks of the channel;
* `sendInLoop_of_down`, …: their branches;
* `sendInLoop_stream`, …: what each of them adds to the output stream.

The public calls `send`, `sendFile` and `shutdown` test `state_` and go on in these functions, at
once or by a task: see `Session`.
-/

namespace Muduo

/-- The values of `state_`. -/
inductive StateE
  | kDisconnected
  | kConnecting
  | kConnected
  | kDisconnecting
  deriving DecidableEq, Repr

/-- The values of `errno` that the code tells apart. -/
inductive Errno
  | EWOULDBLOCK
  | EPIPE
  | ECONNRESET
  | other (code : ℕ)
  deriving DecidableEq, Repr

/-- What `write` and `sendfile` return: a number of bytes, or `-1`; `e` is the `errno` that the
tests after the call read. -/
inductive WriteResult
  | sent (n : ℕ)
  | failed (e : Errno)
  deriving DecidableEq, Repr

namespace WriteResult

/-- `nwrote`, `bytesSent`: set to zero after an error. -/
def nwrote : WriteResult → ℕ
  | .sent n => n
  | .failed _ => 0

/-- The call succeeded. -/
def isSent : WriteResult → Bool
  | .sent _ => true
  | .failed _ => false

/-- `faultError`. -/
def isFault : WriteResult → Bool
  | .failed .EPIPE | .failed .ECONNRESET => true
  | _ => false

variable {r : WriteResult}

theorem nwrote_of_isFault (h : r.isFault = true) : r.nwrote = 0 := by
  rcases r with n | e
  · cases h
  · rfl

theorem not_isSent_of_isFault (h : r.isFault = true) : r.isSent = false := by
  rcases r with n | e
  · cases h
  · rfl

theorem isSent_of_pos (h : 0 < r.nwrote) : r.isSent = true := by
  rcases r with n | e
  · rfl
  · exact absurd h (Nat.lt_irrefl 0)

theorem not_isFault_of_pos (h : 0 < r.nwrote) : r.isFault = false := by
  rcases r with n | e
  · rfl
  · exact absurd h (Nat.lt_irrefl 0)

end WriteResult

/-- What `readFd` got: the bytes (none at the end of the stream), or `-1`. -/
inductive ReadResult (β : Type)
  | data (bytes : List β)
  | failed
  deriving DecidableEq, Repr

/-- What a caller asks to be sent, and what the kernel or `outputBuffer_` took of it. -/
inductive Payload (β : Type)
  | send (data : List β)
  | file (data : List β)
  deriving DecidableEq, Repr

/-- The bytes of a payload. -/
def Payload.bytes {β : Type} : Payload β → List β
  | .send data => data
  | .file data => data

/-- The tasks that are queued for a connection. -/
inductive Task (β : Type)
  | connectEstablished
  | connectDestroyed
  | sendInLoop (data : List β)
  | sendFileInLoop (file : List β) (offset count : ℕ)
  | shutdownInLoop
  | writeCompleteCallback_
  | highWaterMarkCallback_ (mark : ℕ)
  deriving DecidableEq, Repr

/-- What a function of the connection does to the outside. -/
inductive Effect (β : Type)
  /-- The kernel has taken these bytes. -/
  | write (bytes : List β)
  | writeError (e : Errno)
  /-- `shutdown(fd, SHUT_WR)`. -/
  | shutdownWrite
  | update
  | remove
  | queueInLoop (task : Task β)
  /-- Called with `connected()` as given. -/
  | connectionCallback_ (connected : Bool)
  | messageCallback_
  | closeCallback_
  deriving DecidableEq, Repr

/-- The tasks that the functions of a connection queue themselves: callbacks of the user, the rest
of a file. -/
def Task.isOwn {β : Type} : Task β → Bool
  | .sendFileInLoop _ _ _ | .writeCompleteCallback_ | .highWaterMarkCallback_ _ => true
  | _ => false

/-- The data of a `send`. -/
def Task.sendBytes {β : Type} : Task β → List β
  | .sendInLoop data => data
  | _ => []

theorem Task.sendBytes_of_isOwn {β : Type} {task : Task β} (h : task.isOwn = true) :
    task.sendBytes = [] ∧ task ≠ .shutdownInLoop := by
  cases task <;> simp_all [Task.isOwn, Task.sendBytes]

/-- What the kernel has to answer for, when the task comes to its system call. -/
def Task.asks {β : Type} : Task β → List β
  | .sendInLoop data => data
  | .sendFileInLoop file offset count => (file.drop offset).take count
  | _ => []

namespace Effect

variable {β : Type}

/-- The bytes that the kernel took. -/
def bytes : Effect β → List β
  | .write bytes => bytes
  | _ => []

/-- A write failed with `EPIPE` or `ECONNRESET`. -/
def isFault : Effect β → Bool
  | .writeError .EPIPE | .writeError .ECONNRESET => true
  | _ => false

/-- The system call on `data` with result `r`. -/
def ofWrite (r : WriteResult) (data : List β) : Effect β :=
  match r with
  | .sent n => .write (data.take n)
  | .failed e => .writeError e

@[simp] theorem bytes_ofWrite (r : WriteResult) (data : List β) :
    (ofWrite r data).bytes = data.take r.nwrote := by
  cases r <;> simp [ofWrite, bytes, WriteResult.nwrote]

@[simp] theorem isFault_ofWrite (r : WriteResult) (data : List β) :
    (ofWrite r data).isFault = r.isFault := by
  rcases r with n | e
  · rfl
  · cases e <;> rfl

@[simp] theorem bytes_shutdownWrite : (shutdownWrite : Effect β).bytes = [] := rfl
@[simp] theorem bytes_update : (update : Effect β).bytes = [] := rfl
@[simp] theorem bytes_remove : (remove : Effect β).bytes = [] := rfl
@[simp] theorem bytes_queueInLoop (task : Task β) : (queueInLoop task).bytes = [] := rfl
@[simp] theorem bytes_connectionCallback_ (b : Bool) :
    (connectionCallback_ b : Effect β).bytes = [] := rfl
@[simp] theorem bytes_messageCallback_ : (messageCallback_ : Effect β).bytes = [] := rfl
@[simp] theorem bytes_closeCallback_ : (closeCallback_ : Effect β).bytes = [] := rfl

@[simp] theorem shutdownWrite_ne_ofWrite (r : WriteResult) (data : List β) :
    shutdownWrite ≠ ofWrite r data := by
  cases r <;> simp [ofWrite]

/-- The task that is queued. -/
def queued : Effect β → Option (Task β)
  | .queueInLoop task => some task
  | _ => none

/-- Neither a callback, nor a removal, nor a task from outside. -/
def isSilent : Effect β → Bool
  | .remove | .connectionCallback_ _ | .messageCallback_ | .closeCallback_ => false
  | .queueInLoop task => task.isOwn
  | _ => true

/-- The close callback is called. -/
def isClose : Effect β → Bool
  | .closeCallback_ => true
  | _ => false

/-- A call of the poller. -/
def registers : Effect β → Bool
  | .update | .remove => true
  | _ => false

/-- `if (cond) loop_->queueInLoop(task);` -/
def queueIf (cond : Bool) (task : Task β) : List (Effect β) :=
  if cond then [.queueInLoop task] else []

end Effect

/-- The bytes that a list of effects hands to the kernel. -/
def wire {β : Type} (es : List (Effect β)) : List β := es.flatMap Effect.bytes

/-- The tasks that a list of effects queues. -/
def queued {β : Type} (es : List (Effect β)) : List (Task β) := es.filterMap Effect.queued

section Lists

variable {β : Type} (e : Effect β) (es fs : List (Effect β))

@[simp] theorem wire_nil : wire ([] : List (Effect β)) = [] := rfl
@[simp] theorem wire_cons : wire (e :: es) = e.bytes ++ wire es := rfl
@[simp] theorem wire_append : wire (es ++ fs) = wire es ++ wire fs := List.flatMap_append

@[simp] theorem wire_queueIf (cond : Bool) (task : Task β) :
    wire (Effect.queueIf cond task) = [] := by
  cases cond <;> rfl

@[simp] theorem queued_append : queued (es ++ fs) = queued es ++ queued fs := List.filterMap_append

@[simp] theorem shutdownWrite_notMem_queueIf (cond : Bool) (task : Task β) :
    Effect.shutdownWrite ∉ Effect.queueIf cond task := by
  cases cond <;> simp [Effect.queueIf]

end Lists

/-- `TcpConnection`, without its loop and its name. -/
structure TcpConnection (β : Type) where
  state_ : StateE
  channel_ : Channel
  highWaterMark_ : ℕ
  /-- The callback is set. -/
  writeCompleteCallback_ : Bool
  highWaterMarkCallback_ : Bool
  inputBuffer_ : OkBuffer β
  outputBuffer_ : OkBuffer β

namespace TcpConnection

variable {β : Type}

section Functions

variable [Inhabited β]

/-- The constructor, with the callbacks that the server and the user set before the connection is
established. -/
def init (sockfd : ℤ) (writeComplete highWater : Bool) (mark : ℕ) : TcpConnection β where
  state_ := .kConnecting
  channel_ := .ofFd sockfd
  highWaterMark_ := mark
  writeCompleteCallback_ := writeComplete
  highWaterMarkCallback_ := highWater
  inputBuffer_ := .empty
  outputBuffer_ := .empty

/-! ### Sending -/

/-- `!channel_->isWriting() && outputBuffer_.readableBytes() == 0`. -/
def isIdle (c : TcpConnection β) : Bool :=
  !c.channel_.isWriting && c.outputBuffer_.readableBytes == 0

/-- The second half of `sendInLoop`: what is left of the data goes to `outputBuffer_`. -/
def saveRemaining (c : TcpConnection β) (remaining : List β) : TcpConnection β × List (Effect β) :=
  if remaining.length = 0 then (c, [])
  else
    let oldLen := c.outputBuffer_.readableBytes
    let high := Effect.queueIf
      (c.highWaterMark_ ≤ oldLen + remaining.length && oldLen < c.highWaterMark_ &&
        c.highWaterMarkCallback_)
      (.highWaterMarkCallback_ (oldLen + remaining.length))
    let c := { c with outputBuffer_ := c.outputBuffer_.append remaining }
    if c.channel_.isWriting then (c, high)
    else ({ c with channel_ := c.channel_.enableWriting }, high ++ [.update])

/-- `sendInLoop`, when `write` answers `r`. -/
def sendInLoop (c : TcpConnection β) (data : List β) (r : WriteResult) :
    TcpConnection β × List (Effect β) :=
  if c.state_ = .kDisconnected then (c, [])
  else if c.isIdle then
    let remaining := data.drop r.nwrote
    let done := Effect.queueIf (r.isSent && remaining.length == 0 && c.writeCompleteCallback_)
      .writeCompleteCallback_
    let rest := if r.isFault then (c, []) else c.saveRemaining remaining
    (rest.1, .ofWrite r data :: (done ++ rest.2))
  else c.saveRemaining data

/-- `sendfile` reads at `offset` and advances it by what it has sent. -/
def sendFileInLoop (c : TcpConnection β) (file : List β) (offset count : ℕ) (r : WriteResult) :
    TcpConnection β × List (Effect β) :=
  if c.state_ = .kDisconnecting then (c, [])
  else if c.isIdle then
    let remaining := count - r.nwrote
    let done := Effect.queueIf (r.isSent && remaining == 0 && c.writeCompleteCallback_)
      .writeCompleteCallback_
    let again := Effect.queueIf (!r.isFault && 0 < remaining)
      (.sendFileInLoop file (offset + r.nwrote) remaining)
    (c, .ofWrite r ((file.drop offset).take count) :: (done ++ again))
  else (c, Effect.queueIf (0 < count) (.sendFileInLoop file offset count))

/-- `shutdownInLoop`: no half-close while `handleWrite` is due. -/
def shutdownInLoop (c : TcpConnection β) : List (Effect β) :=
  if c.channel_.isWriting then [] else [.shutdownWrite]

/-- `connected()`. -/
def connected (c : TcpConnection β) : Bool := c.state_ == .kConnected

/-! ### Establishing and destroying -/

/-- `tie` is part of it. -/
def connectEstablished (c : TcpConnection β) : TcpConnection β × List (Effect β) :=
  ({ c with
      state_ := .kConnected
      channel_ := { c.channel_.enableReading with tied_ := true } },
    [.update, .connectionCallback_ true])

/-- `connectDestroyed`; the channel is removed in every state. -/
def connectDestroyed (c : TcpConnection β) : TcpConnection β × List (Effect β) :=
  if c.state_ = .kConnected then
    ({ c with state_ := .kDisconnected, channel_ := c.channel_.disableAll },
      [.update, .connectionCallback_ false, .remove])
  else (c, [.remove])

/-! ### The callbacks of the channel -/

/-- `handleClose`: the connection callback, then the close callback. -/
def handleClose (c : TcpConnection β) : TcpConnection β × List (Effect β) :=
  ({ c with state_ := .kDisconnected, channel_ := c.channel_.disableAll },
    [.update, .connectionCallback_ false, .closeCallback_])

/-- It reads `SO_ERROR` and logs it. -/
def handleError (c : TcpConnection β) : TcpConnection β × List (Effect β) := (c, [])

/-- `handleRead`, for what `readFd` got. -/
def handleRead (c : TcpConnection β) : ReadResult β → TcpConnection β × List (Effect β)
  | .data bytes =>
      let c := { c with inputBuffer_ := c.inputBuffer_.readFd bytes }
      if 0 < bytes.length then (c, [.messageCallback_]) else c.handleClose
  | .failed => c.handleError

/-- `handleWrite` with the result `r` empties `outputBuffer_`. -/
def drains (c : TcpConnection β) (r : WriteResult) : Bool :=
  c.channel_.isWriting && 0 < r.nwrote && c.outputBuffer_.readableBytes ≤ r.nwrote

/-- `handleWrite`, when `write` answers `r`. -/
def handleWrite (c : TcpConnection β) (r : WriteResult) : TcpConnection β × List (Effect β) :=
  if c.channel_.isWriting then
    let written := Effect.ofWrite r c.outputBuffer_.content
    if 0 < r.nwrote then
      let c := { c with outputBuffer_ := c.outputBuffer_.retrieve r.nwrote }
      if c.outputBuffer_.readableBytes = 0 then
        let c := { c with channel_ := c.channel_.disableWriting }
        (c, [written, .update] ++
          Effect.queueIf c.writeCompleteCallback_ .writeCompleteCallback_ ++
          if c.state_ = .kDisconnecting then c.shutdownInLoop else [])
      else (c, [written])
    else (c, [written])
  else (c, [])

/-- A task when its turn has come; the last two run user code only. -/
def runTask (c : TcpConnection β) (r : WriteResult) : Task β → TcpConnection β × List (Effect β)
  | .connectEstablished => c.connectEstablished
  | .connectDestroyed => c.connectDestroyed
  | .sendInLoop data => c.sendInLoop data r
  | .sendFileInLoop file offset count => c.sendFileInLoop file offset count r
  | .shutdownInLoop => (c, c.shutdownInLoop)
  | .writeCompleteCallback_ | .highWaterMarkCallback_ _ => (c, [])

/-- A callback of the channel; each has at most one system call. -/
def runCallback (c : TcpConnection β) (read : ReadResult β) (write : WriteResult) :
    Callback → TcpConnection β × List (Effect β)
  | .closeCallback_ => c.handleClose
  | .errorCallback_ => c.handleError
  | .readCallback_ => c.handleRead read
  | .writeCallback_ => c.handleWrite write

theorem sendInLoop_of_down {c : TcpConnection β} (h : c.state_ = .kDisconnected) (data : List β)
    (r : WriteResult) : c.sendInLoop data r = (c, []) :=
  if_pos h

/-- The direct write of `sendInLoop`. -/
theorem sendInLoop_of_idle {c : TcpConnection β} (hd : c.state_ ≠ .kDisconnected)
    (hi : c.isIdle = true) (data : List β) (r : WriteResult) :
    c.sendInLoop data r =
      ((if r.isFault then (c, []) else c.saveRemaining (data.drop r.nwrote)).1,
        .ofWrite r data ::
          (Effect.queueIf
              (r.isSent && (data.drop r.nwrote).length == 0 && c.writeCompleteCallback_)
              .writeCompleteCallback_ ++
            (if r.isFault then (c, []) else c.saveRemaining (data.drop r.nwrote)).2)) := by
  rw [sendInLoop, if_neg hd, if_pos hi]

theorem sendInLoop_of_busy {c : TcpConnection β} (hd : c.state_ ≠ .kDisconnected)
    (hi : c.isIdle = false) (data : List β) (r : WriteResult) :
    c.sendInLoop data r = c.saveRemaining data := by
  rw [sendInLoop, if_neg hd, if_neg (by simp [hi])]

omit [Inhabited β] in
theorem sendFileInLoop_of_disconnecting {c : TcpConnection β} (h : c.state_ = .kDisconnecting)
    (file : List β) (offset count : ℕ) (r : WriteResult) :
    c.sendFileInLoop file offset count r = (c, []) :=
  if_pos h

omit [Inhabited β] in
theorem connectDestroyed_of_connected {c : TcpConnection β} (h : c.state_ = .kConnected) :
    c.connectDestroyed =
      ({ c with state_ := .kDisconnected, channel_ := c.channel_.disableAll },
        [.update, .connectionCallback_ false, .remove]) :=
  if_pos h

omit [Inhabited β] in
theorem connectDestroyed_of_ne {c : TcpConnection β} (h : c.state_ ≠ .kConnected) :
    c.connectDestroyed = (c, [.remove]) :=
  if_neg h

theorem handleRead_of_pos (c : TcpConnection β) {bytes : List β} (h : 0 < bytes.length) :
    c.handleRead (.data bytes) =
      ({ c with inputBuffer_ := c.inputBuffer_.readFd bytes }, [.messageCallback_]) :=
  if_pos h

/-- The end of the stream. -/
theorem handleRead_of_not_pos (c : TcpConnection β) {bytes : List β} (h : ¬0 < bytes.length) :
    c.handleRead (.data bytes) =
      handleClose { c with inputBuffer_ := c.inputBuffer_.readFd bytes } :=
  if_neg h

omit [Inhabited β] in
theorem handleWrite_of_not_isWriting {c : TcpConnection β} (h : c.channel_.isWriting = false)
    (r : WriteResult) : c.handleWrite r = (c, []) :=
  if_neg (by simp [h])

end Functions

/-! ### What each function adds to the output stream -/

/-- `sendInLoop` gives the data up: the connection is down, or the direct write failed for good. -/
def givesUp (c : TcpConnection β) (r : WriteResult) : Bool :=
  c.state_ == .kDisconnected || (c.isIdle && r.isFault)

/-- `sendFileInLoop` calls `sendfile`. -/
def sendsFile (c : TcpConnection β) : Bool := c.state_ != .kDisconnecting && c.isIdle

/-- What a task puts on the output stream: the data of a `sendInLoop` that is not given up, the
bytes that a `sendfile` has sent. -/
def taken (c : TcpConnection β) (r : WriteResult) : Task β → Option (Payload β)
  | .sendInLoop data => if c.givesUp r then none else some (.send data)
  | .sendFileInLoop file offset count =>
      if c.sendsFile then some (.file (((file.drop offset).take count).take r.nwrote)) else none
  | _ => none

/-- The bytes of what is taken. -/
def takenBytes (o : Option (Payload β)) : List β := o.elim [] Payload.bytes

theorem isIdle_iff {c : TcpConnection β} :
    c.isIdle = true ↔ c.channel_.isWriting = false ∧ c.outputBuffer_.content = [] := by
  simp [isIdle, OkBuffer.readableBytes_eq]

@[simp] theorem wire_shutdownInLoop (c : TcpConnection β) : wire c.shutdownInLoop = [] := by
  unfold shutdownInLoop
  split_ifs <;> rfl

@[simp] theorem wire_saveRemaining [Inhabited β] (c : TcpConnection β) (data : List β) :
    wire (c.saveRemaining data).2 = [] := by
  unfold saveRemaining
  simp only
  split_ifs <;> simp

@[simp] theorem content_saveRemaining [Inhabited β] (c : TcpConnection β) (data : List β) :
    (c.saveRemaining data).1.outputBuffer_.content = c.outputBuffer_.content ++ data := by
  unfold saveRemaining
  simp only
  split_ifs with hnil
  · simp [List.length_eq_zero_iff.1 hnil]
  all_goals simp

theorem sendInLoop_stream [Inhabited β] (c : TcpConnection β) (data : List β) (r : WriteResult) :
    wire (c.sendInLoop data r).2 ++ (c.sendInLoop data r).1.outputBuffer_.content =
      c.outputBuffer_.content ++ if c.givesUp r then [] else data := by
  unfold sendInLoop givesUp
  by_cases hd : c.state_ = .kDisconnected
  · simp [hd]
  cases hi : c.isIdle with
  | false => simp [hd]
  | true =>
    have hnil := (isIdle_iff.1 hi).2
    cases hf : r.isFault with
    | true =>
      simp [hd, hnil, WriteResult.nwrote_of_isFault hf]
    | false => simp [hd, hnil]

theorem sendFileInLoop_stream (c : TcpConnection β) (file : List β) (offset count : ℕ)
    (r : WriteResult) :
    wire (c.sendFileInLoop file offset count r).2 ++
        (c.sendFileInLoop file offset count r).1.outputBuffer_.content =
      c.outputBuffer_.content ++
        if c.sendsFile then ((file.drop offset).take count).take r.nwrote else [] := by
  unfold sendFileInLoop sendsFile
  by_cases hd : c.state_ = .kDisconnecting
  · simp [hd]
  cases hi : c.isIdle with
  | false => simp [hd]
  | true =>
    have hnil := (isIdle_iff.1 hi).2
    simp [hd, hnil]

theorem handleWrite_stream (c : TcpConnection β) (r : WriteResult) :
    wire (c.handleWrite r).2 ++ (c.handleWrite r).1.outputBuffer_.content =
      c.outputBuffer_.content := by
  unfold handleWrite
  cases hw : c.channel_.isWriting with
  | false => simp
  | true =>
    by_cases hn : 0 < r.nwrote
    · simp only [hn, if_true]
      split_ifs with h0 hs
      all_goals simp
    · simp [Nat.eq_zero_of_not_pos hn]

@[simp] theorem wire_handleRead [Inhabited β] (c : TcpConnection β) (r : ReadResult β) :
    wire (c.handleRead r).2 = [] := by
  rcases r with bytes | _
  · simp only [handleRead]
    split_ifs <;> rfl
  · rfl

@[simp] theorem output_handleRead [Inhabited β] (c : TcpConnection β) (r : ReadResult β) :
    (c.handleRead r).1.outputBuffer_ = c.outputBuffer_ := by
  rcases r with bytes | _
  · simp only [handleRead]
    split_ifs <;> rfl
  · rfl

@[simp] theorem wire_connectDestroyed (c : TcpConnection β) : wire c.connectDestroyed.2 = [] := by
  unfold connectDestroyed
  split_ifs <;> rfl

@[simp] theorem output_connectDestroyed (c : TcpConnection β) :
    c.connectDestroyed.1.outputBuffer_ = c.outputBuffer_ := by
  unfold connectDestroyed
  split_ifs <;> rfl

/-- **A task moves the output stream forward by what it takes.** -/
theorem runTask_stream [Inhabited β] (c : TcpConnection β) (r : WriteResult) (task : Task β) :
    wire (c.runTask r task).2 ++ (c.runTask r task).1.outputBuffer_.content =
      c.outputBuffer_.content ++ takenBytes (c.taken r task) := by
  cases task with
  | sendInLoop data =>
    rw [runTask, sendInLoop_stream]
    cases hg : c.givesUp r <;> simp [taken, hg, takenBytes, Payload.bytes]
  | sendFileInLoop file offset count =>
    rw [runTask, sendFileInLoop_stream]
    cases hs : c.sendsFile <;> simp [taken, hs, takenBytes, Payload.bytes]
  | connectEstablished => simp [runTask, connectEstablished, taken, takenBytes]
  | connectDestroyed => simp [runTask, taken, takenBytes]
  | shutdownInLoop => simp [runTask, taken, takenBytes]
  | writeCompleteCallback_ => simp [runTask, taken, takenBytes]
  | highWaterMarkCallback_ mark => simp [runTask, taken, takenBytes]

/-- Unless the connection is down, data is given up for an error that the log shows. -/
theorem fault_of_givesUp [Inhabited β] {c : TcpConnection β} {r : WriteResult}
    (hd : c.state_ ≠ .kDisconnected) (hg : c.givesUp r = true) (data : List β) :
    ∃ e ∈ (c.sendInLoop data r).2, e.isFault = true := by
  simp only [givesUp, Bool.or_eq_true, Bool.and_eq_true, beq_iff_eq, hd, false_or] at hg
  refine ⟨.ofWrite r data, ?_, by rw [Effect.isFault_ofWrite, hg.2]⟩
  unfold sendInLoop
  simp [hd, hg.1]

end TcpConnection

end Muduo
