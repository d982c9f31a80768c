import MuduoCpp.Echo

/-!
# The input stream of a connection

What the user has taken, followed by what `inputBuffer_` holds, is what was read from the fd, in its
order, whatever is sent, shut down or closed meanwhile.
-/

namespace Muduo

namespace Session

variable {τ β : Type} [Inhabited β] [DecidableEq τ] {s t : Session τ β} {l : Label τ β}
  {ls : List (Label τ β)}

/-- What a step reads. -/
def received (_ : Session τ β) : Label τ β → List β
  | .readCallback r => r.bytes
  | _ => []

/-- What a step takes out of `inputBuffer_`. -/
def retrieved (s : Session τ β) : Label τ β → List β
  | .retrieve len => s.conn.inputBuffer_.content.take len
  | _ => []

/-- Any other step leaves `inputBuffer_` alone. -/
theorem input_kept (hread : ∀ r, l ≠ .readCallback r) (hretrieve : ∀ len, l ≠ .retrieve len) :
    (s.after l).conn.inputBuffer_ = s.conn.inputBuffer_ := by
  cases l with
  | readCallback r => exact absurd rfl (hread r)
  | retrieve len => exact absurd rfl (hretrieve len)
  | writeCallback r => exact TcpConnection.input_handleWrite s.conn r
  | task r =>
    simp only [after]
    cases s.pending with
    | nil => rfl
    | cons e rest => exact TcpConnection.input_runTask s.conn r e.2
  | send data r =>
    simp only [after]
    split_ifs
    · exact TcpConnection.input_runTask s.conn r (.sendInLoop data)
    · rfl
  | sendFile file offset count r =>
    simp only [after]
    split_ifs
    · exact TcpConnection.input_runTask s.conn r (.sendFileInLoop file offset count)
    · rfl
  | connectDestroyed => exact TcpConnection.input_runTask s.conn (.sent 0) .connectDestroyed
  | shutdown | shutdownTest t | sendTest t data | sendFileTest t file offset count =>
    simp only [after]
    split_ifs <;> rfl
  | poll | handleEvent | closeCallback | errorCallback | queueDestroyed | shutdownStore | push =>
    rfl

/-- One step moves the stream on. -/
theorem input_after (s : Session τ β) (l : Label τ β) :
    s.conn.inputBuffer_.content ++ s.received l =
      s.retrieved l ++ (s.after l).conn.inputBuffer_.content := by
  cases l with
  | readCallback r => exact (TcpConnection.content_handleRead s.conn r).symm
  | retrieve len =>
    show _ ++ [] = _ ++ (s.conn.inputBuffer_.retrieve len).content
    rw [OkBuffer.content_retrieve, List.append_nil]
    exact (List.take_append_drop _ _).symm
  | _ =>
    refine (List.append_nil _).trans (congrArg OkBuffer.content (input_kept ?_ ?_).symm)
    · intro r hr
      cases hr
    · intro len hlen
      cases hlen

theorem input_run (h : Lts.exec step s ls = some t) :
    s.conn.inputBuffer_.content ++ Lts.trail step received s ls =
      Lts.trail step retrieved s ls ++ t.conn.inputBuffer_.content := by
  induction ls generalizing s with
  | nil =>
    cases h
    exact List.append_nil _
  | cons l ls ih =>
    obtain ⟨u, hu, hut⟩ := Lts.exec_cons_iff.1 h
    have hafter : s.after l = u := (Lts.guarded_eq_some.1 hu).2
    rw [Lts.trail_cons hu, Lts.trail_cons hu]
    calc s.conn.inputBuffer_.content ++ (s.received l ++ Lts.trail step received u ls)
        = s.retrieved l ++ (u.conn.inputBuffer_.content ++ Lts.trail step received u ls) := by
          rw [← List.append_assoc, input_after, hafter, List.append_assoc]
      _ = s.retrieved l ++ Lts.trail step retrieved u ls ++ t.conn.inputBuffer_.content := by
          rw [ih hut, List.append_assoc]

/-- **Input stream integrity.** -/
theorem input_stream {sockfd : ℤ} {writeComplete highWater : Bool} {mark : ℕ}
    (h : Lts.exec step (init sockfd writeComplete highWater mark) ls = some s) :
    Lts.trail step received (init sockfd writeComplete highWater mark) ls =
      Lts.trail step retrieved (init sockfd writeComplete highWater mark) ls ++
        s.conn.inputBuffer_.content := by
  have hempty : (init sockfd writeComplete highWater mark : Session τ β).conn.inputBuffer_.content =
      [] := by
    simp [init, TcpConnection.init]
  have hrun := input_run h
  rwa [hempty, List.nil_append] at hrun

/-- Two reads, a message taken in two parts, and `shutdown()` between them. -/
private def inputRun : List (Label Unit ℕ) :=
  [.task (.sent 0), .poll EPOLLIN, .handleEvent, .readCallback (.data [1, 2, 3]), .retrieve 2,
    .shutdown, .poll EPOLLIN, .handleEvent, .readCallback (.data [4]), .retrieve 1]

theorem input_stream_parts : ∃ s : Session Unit ℕ,
    s.conn.inputBuffer_.content = [4] ∧
      Lts.trail step received (init 5 false false 100) inputRun =
        Lts.trail step retrieved (init 5 false false 100) inputRun ++
          s.conn.inputBuffer_.content := by
  have hrun : (Lts.exec step (init 5 false false 100) inputRun).any (fun s =>
      s.conn.inputBuffer_.content = [4]) = true := by decide +kernel
  obtain ⟨s, hs, hp⟩ := Lts.exec_of_any hrun
  exact ⟨s, of_decide_eq_true hp, input_stream hs⟩

end Session

end Muduo
