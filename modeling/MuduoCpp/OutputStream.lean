import MuduoCpp.Session

/-!
# The output stream of a connection

What the kernel has taken, followed by what `outputBuffer_` holds, is what was put on the stream, in
the order of execution: the direct write of `sendInLoop`, its remainder, `handleWrite` and
`sendfile` move one stream.
-/

namespace Muduo

variable {τ β : Type}

/-- The bytes of a record of payloads, one after the other. -/
def stream (l : List (From τ (Payload β))) : List β := l.flatMap fun e => e.2.bytes

@[simp] theorem stream_nil : stream ([] : List (From τ (Payload β))) = [] := rfl

@[simp] theorem stream_append (l m : List (From τ (Payload β))) :
    stream (l ++ m) = stream l ++ stream m := List.flatMap_append

namespace Session

/-- Kernel and buffer hold what was given, in order. -/
def Streams (s : Session τ β) : Prop :=
  wire s.log ++ s.conn.outputBuffer_.content = stream s.given

/-- A function of the connection that puts nothing on the stream. -/
theorem streams_perform {s : Session τ β} {p : Option τ} (h : s.Streams)
    {res : TcpConnection β × List (Effect β)}
    (hres : wire res.2 ++ res.1.outputBuffer_.content = s.conn.outputBuffer_.content) :
    (s.perform p res).Streams := by
  show wire (s.log ++ res.2) ++ res.1.outputBuffer_.content = stream s.given
  rw [wire_append, List.append_assoc, hres]
  exact h

variable [Inhabited β]

theorem stream_runTask (s : Session τ β) (q : Option τ) (task : Task β) (r : WriteResult) :
    stream (s.runTask q task r).given =
      stream s.given ++ TcpConnection.takenBytes (s.conn.taken r task) := by
  show stream (s.given ++ _) = _
  rw [stream_append]
  cases s.conn.taken r task <;> simp [stream, TcpConnection.takenBytes]

theorem streams_runTask {s : Session τ β} (h : s.Streams) (q : Option τ) (task : Task β)
    (r : WriteResult) : (s.runTask q task r).Streams := by
  have hrun := s.conn.runTask_stream r task
  show wire (s.log ++ (s.conn.runTask r task).2) ++
    (s.conn.runTask r task).1.outputBuffer_.content = stream (s.runTask q task r).given
  rw [wire_append, List.append_assoc, hrun, stream_runTask, ← List.append_assoc]
  exact congrArg (· ++ _) h

theorem streams_init (sockfd : ℤ) (writeComplete highWater : Bool) (mark : ℕ) :
    (init sockfd writeComplete highWater mark : Session τ β).Streams := by
  simp [Streams, init, TcpConnection.init]

variable [DecidableEq τ]

theorem streams_after {s : Session τ β} (h : s.Streams) (l : Label τ β) : (s.after l).Streams := by
  cases l with
  | closeCallback => exact streams_perform (p := none) h (by simp [TcpConnection.handleClose])
  | errorCallback => exact streams_perform (p := none) h (by simp [TcpConnection.handleError])
  | readCallback r => exact streams_perform (p := none) h (by simp)
  | writeCallback r => exact streams_perform (p := none) h (TcpConnection.handleWrite_stream _ _)
  | task r =>
    simp only [after]
    cases s.pending with
    | nil => exact h
    | cons e rest => exact streams_runTask (s := { s with pending := rest }) h _ _ _
  | send data r | sendFile file offset count r =>
    simp only [after]
    split_ifs
    · exact streams_runTask (s := s.accept none _) h _ _ _
    · exact h
  | shutdown =>
    simp only [after]
    split_ifs
    · exact streams_runTask (s := s.setState .kDisconnecting) h _ _ _
    · exact h
  | connectDestroyed => exact streams_runTask h _ _ _
  | sendTest t data | sendFileTest t file offset count | shutdownTest t =>
    simp only [after]
    split_ifs <;> exact h
  | poll | handleEvent | retrieve | queueDestroyed | shutdownStore | push => exact h

/-- **Output stream integrity.** -/
theorem output_stream {sockfd : ℤ} {writeComplete highWater : Bool} {mark : ℕ}
    {ls : List (Label τ β)} {s : Session τ β}
    (h : Lts.exec step (init sockfd writeComplete highWater mark) ls = some s) :
    wire s.log ++ s.conn.outputBuffer_.content = stream s.given := by
  exact Lts.guarded_inv' (I := Streams) (fun s l hs _ => streams_after hs l)
    (streams_init _ _ _ _) h

/-- The second `send` while the first is draining, and one that the kernel refuses for good. -/
private def partialRun : List (Label Unit ℕ) :=
  [.task (.sent 0), .send [1, 2, 3] (.sent 1), .send [4] (.sent 0), .poll EPOLLOUT, .handleEvent,
    .writeCallback (.sent 3), .send [5] (.failed .EPIPE), .send [6, 7] (.sent 1)]

theorem output_stream_partial :
    ∃ s : Session Unit ℕ, wire s.log = [1, 2, 3, 4, 6] ∧ s.conn.outputBuffer_.content = [7] ∧
      wire s.log ++ s.conn.outputBuffer_.content = stream s.given := by
  have hrun : (Lts.exec step (init 5 false false 100) partialRun).any (fun s =>
      wire s.log == [1, 2, 3, 4, 6] && s.conn.outputBuffer_.content == [7]) = true := by
    decide +kernel
  obtain ⟨s, hs, hp⟩ := Lts.exec_of_any hrun
  simp only [Bool.and_eq_true, beq_iff_eq] at hp
  exact ⟨s, hp.1, hp.2, output_stream hs⟩

end Session

end Muduo
