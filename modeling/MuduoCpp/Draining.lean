import MuduoCpp.OutputStream
import MuduoCpp.Teardown

/-!
# A graceful shutdown comes to its end

After `shutdown()` the half-close waits for the `handleWrite` that empties `outputBuffer_`.  Each
`handleWrite` of which the kernel takes at least a byte brings it nearer, whatever tasks, callbacks
and calls come in between.

* `wire_run`: such a `handleWrite` hands at least a byte to the kernel, and no step takes one back;
* `halfClosed_run`: a half-close that is due stays due until it is issued;
* `drained_within`: so after as many of them as there were bytes in the buffer, and one for each
  byte that was put on the stream since, the buffer is empty and the half-close was issued.
-/

namespace Muduo

namespace Session

variable {τ β : Type}

/-- A `handleWrite` of which the kernel takes at least a byte. -/
def Label.takes : Label τ β → Bool
  | .writeCallback r => decide (0 < r.nwrote)
  | _ => false

/-- How many there are in a run. -/
def writes (ls : List (Label τ β)) : ℕ := ls.countP Label.takes

/-- The half-close was issued, or `handleWrite` has something to drain. -/
def HalfClosed (s : Session τ β) : Prop :=
  s.conn.state_ = .kDisconnecting ∧ (.shutdownWrite ∈ s.log ∨ s.conn.outputBuffer_.content ≠ [])

variable [Inhabited β] {s s' t : Session τ β} {l : Label τ β} {ls : List (Label τ β)}

/-! ### One step -/

omit [Inhabited β] in
/-- `handleWrite` hands over what the kernel takes. -/
theorem length_wire_handleWrite {c : TcpConnection β} {r : WriteResult}
    (hw : c.channel_.isWriting = true) (hle : r.nwrote ≤ c.outputBuffer_.readableBytes) :
    (wire (c.handleWrite r).2).length = r.nwrote := by
  have hstream := congrArg List.length (c.handleWrite_stream r)
  rw [OkBuffer.readableBytes_eq] at hle
  rw [List.length_append, TcpConnection.content_handleWrite, if_pos hw, List.length_drop] at hstream
  omega

/-- In state `kDisconnecting` only the close changes the state. -/
theorem disconnecting_does (hran : s.Ran) (hs : s.conn.state_ = .kDisconnecting)
    (hd : s.Does l s') :
    s'.conn.state_ = .kDisconnecting ∨ s'.conn.state_ = .kDisconnected := by
  cases hd with
  | nothing revents input hcore =>
    simp only [core, Prod.mk.injEq] at hcore
    rw [hcore.1]
    exact Or.inl hs
  | store t hcore =>
    simp only [core, Prod.mk.injEq] at hcore
    rw [hcore.1]
    exact Or.inl rfl
  | shutdown hc hcore =>
    rw [hs] at hc
    cases hc
  | callback k read write hcore =>
    simp only [core, Prod.mk.injEq] at hcore
    rw [hcore.1, perform_state]
    rcases TcpConnection.state_runCallback s.conn read write k with ⟨-, hk⟩ | ⟨-, hk⟩
    · exact Or.inr hk
    · exact Or.inl (hk.trans hs)
  | task task r hne hcore =>
    simp only [core, Prod.mk.injEq] at hcore
    rw [hcore.1, perform_state]
    exact Or.inl ((TcpConnection.state_runTask s.conn r (hne hran)).1.2 hs)

variable [DecidableEq τ]

/-- A connection that is not down was not down before. -/
theorem not_down_of_after (h : s.Keeping) (hl : KeepsDown s l)
    (hne : (s.after l).conn.state_ ≠ .kDisconnected) : s.conn.state_ ≠ .kDisconnected := by
  rcases h.phase with hf | ⟨hran, -⟩
  · simp [hf.state]
  · exact fun hs => hne (down_does hran hs hl (s.does_after l))

/-- While the connection is not down, no byte comes back, and `handleWrite` hands one over. -/
theorem wire_after (h : s.Keeping) (hne : s.conn.state_ ≠ .kDisconnected) (hen : s.enabled l) :
    (wire s.log).length + [l].countP Label.takes ≤ (wire (s.after l).log).length := by
  have hgrows : (wire s.log).length ≤ (wire (s.after l).log).length := by
    obtain ⟨es, hes⟩ := s.log_after l
    rw [hes, wire_append, List.length_append]
    exact Nat.le_add_right _ _
  cases l with
  | writeCallback r =>
    by_cases hr : 0 < r.nwrote
    · obtain ⟨hrunning, hle⟩ := hen
      obtain ⟨-, ht⟩ := h.phase.resolve_left fun hf => by
        rw [hf.running] at hrunning
        cases hrunning
      have hcontent : s.conn.outputBuffer_.content ≠ [] := by
        rw [OkBuffer.readableBytes_eq] at hle
        exact List.length_pos_iff.1 (by omega)
      have hwire := length_wire_handleWrite ((ht.armed hne).2 hcontent) hle
      show _ ≤ (wire (s.log ++ (s.conn.handleWrite r).2)).length
      rw [wire_append, List.length_append, hwire]
      simpa [Label.takes, hr] using Nat.succ_le_of_lt hr
    · simpa [Label.takes, hr] using hgrows
  | _ => simpa [Label.takes] using hgrows

theorem halfClosed_after (h : s.HalfClosed) (hran : s.Ran)
    (hne : (s.after l).conn.state_ ≠ .kDisconnected) : (s.after l).HalfClosed :=
  ⟨(disconnecting_does hran h.1 (s.does_after l)).resolve_right hne,
    draining_does h.2 h.1 (s.does_after l)⟩

/-! ### Runs -/

theorem wire_run (h : s.Keeping) (hls : Lts.Along step KeepsDown s ls)
    (hrun : Lts.exec step s ls = some t) (hne : t.conn.state_ ≠ .kDisconnected) :
    s.conn.state_ ≠ .kDisconnected ∧ (wire s.log).length + writes ls ≤ (wire t.log).length := by
  induction ls generalizing s with
  | nil =>
    cases hrun
    exact ⟨hne, le_rfl⟩
  | cons l ls ih =>
    obtain ⟨u, hu, hut⟩ := Lts.exec_cons_iff.1 hrun
    obtain ⟨hen, rfl⟩ := Lts.guarded_eq_some.1 hu
    obtain ⟨hne', hwire⟩ := ih (keeping_after h hls.1 hen) (hls.2 _ hu) hut
    have hs := not_down_of_after h hls.1 hne'
    refine ⟨hs, ?_⟩
    have hstep := wire_after h hs hen
    have hcount : writes (l :: ls) = [l].countP Label.takes + writes ls := by
      rw [writes, ← List.singleton_append, List.countP_append, writes]
    omega

/-- A half-close that is due stays due until it is issued. -/
theorem halfClosed_run (h : s.Keeping) (hd : s.HalfClosed) (hls : Lts.Along step KeepsDown s ls)
    (hrun : Lts.exec step s ls = some t) (hne : t.conn.state_ ≠ .kDisconnected) : t.HalfClosed := by
  induction ls generalizing s with
  | nil =>
    cases hrun
    exact hd
  | cons l ls ih =>
    obtain ⟨u, hu, hut⟩ := Lts.exec_cons_iff.1 hrun
    obtain ⟨hen, rfl⟩ := Lts.guarded_eq_some.1 hu
    have hkeep := keeping_after h hls.1 hen
    obtain ⟨hran, -⟩ := h.phase.resolve_left fun hf => by
      have hstate := hd.1
      rw [hf.state] at hstate
      cases hstate
    exact ih hkeep (halfClosed_after hd hran (wire_run hkeep (hls.2 _ hu) hut hne).1)
      (hls.2 _ hu) hut

/-- **A graceful shutdown comes to its end.**  Between `s` and `t` there are not more effective
`handleWrite`s than there were bytes in `outputBuffer_` and bytes put on the stream since; and where
there are as many, after a `shutdownInLoop` in state `kDisconnecting`, the buffer is empty and the
half-close was issued, unless the connection went down. -/
theorem drained_within {sockfd : ℤ} {writeComplete highWater : Bool} {mark : ℕ}
    {pre post : List (Label τ β)}
    (hpre : Lts.exec step (init sockfd writeComplete highWater mark) pre = some s)
    (hpost : Lts.exec step s post = some t)
    (hls : Lts.Along step KeepsDown (init sockfd writeComplete highWater mark) (pre ++ post))
    (hne : t.conn.state_ ≠ .kDisconnected) :
    writes post + t.conn.outputBuffer_.readableBytes + (stream s.given).length ≤
        s.conn.outputBuffer_.readableBytes + (stream t.given).length ∧
      (s.conn.state_ = .kDisconnecting → ¬ s.ShutdownPending →
        s.conn.outputBuffer_.readableBytes + (stream t.given).length ≤
          writes post + (stream s.given).length →
        t.conn.outputBuffer_.readableBytes = 0 ∧ .shutdownWrite ∈ t.log) := by
  obtain ⟨hlsPre, hlsPost⟩ := Lts.along_append.1 hls
  obtain ⟨hkeep, hhalf⟩ := keeping_halfClosing_run hlsPre hpre
  have hstreams : s.Streams ∧ t.Streams := by
    have hs := Lts.guarded_inv' (I := Streams) (fun s l h _ => streams_after h l)
      (streams_init _ _ _ _) hpre
    exact ⟨hs, Lts.guarded_inv' (I := Streams) (fun s l h _ => streams_after h l) hs hpost⟩
  have hs := congrArg List.length hstreams.1
  have ht := congrArg List.length hstreams.2
  obtain ⟨-, hwire⟩ := wire_run hkeep (hlsPost s hpre) hpost hne
  rw [List.length_append] at hs ht
  rw [OkBuffer.readableBytes_eq, OkBuffer.readableBytes_eq]
  refine ⟨by omega, fun hstate hpend hwrites => ?_⟩
  have hdue : s.HalfClosed := ⟨hstate, (hhalf hstate).resolve_left hpend⟩
  have hempty : t.conn.outputBuffer_.content.length = 0 := by omega
  refine ⟨hempty, (halfClosed_run hkeep hdue (hlsPost s hpre) hpost hne).2.resolve_right ?_⟩
  exact not_not.2 (List.eq_nil_of_length_eq_zero hempty)

/-- `shutdown()` with two bytes to drain; another thread has a `send` on its way. -/
private def finishedPre : List (Label Unit ℕ) :=
  [.task (.sent 0), .send [1, 2, 3] (.sent 1), .sendTest () [4], .shutdown, .poll EPOLLOUT,
    .handleEvent]

/-- The kernel takes one byte at a time. -/
private def finishedPost : List (Label Unit ℕ) :=
  [.writeCallback (.sent 1), .push (), .task (.sent 0), .poll EPOLLOUT, .handleEvent,
    .writeCallback (.sent 1), .poll EPOLLOUT, .handleEvent, .writeCallback (.sent 1)]

theorem drained_within_finished :
    ∃ t : Session Unit ℕ, wire t.log = [1, 2, 3, 4] ∧ t.conn.outputBuffer_.readableBytes = 0 ∧
      .shutdownWrite ∈ t.log := by
  have hrun : (Lts.exec step (init 5 false false 100) finishedPre).any (fun s =>
      s.conn.state_ == .kDisconnecting && s.pending.isEmpty && (s.caller ()).sendBytes == [4] &&
        s.conn.outputBuffer_.readableBytes == 2 && (stream s.given).length == 3 &&
        (Lts.exec step s finishedPost).any fun t => t.conn.state_ == .kDisconnecting &&
          wire t.log == [1, 2, 3, 4] && (stream t.given).length == 4) = true := by
    decide +kernel
  have hls : Lts.Along step KeepsDown (init 5 false false 100 : Session Unit ℕ)
      (finishedPre ++ finishedPost) := by
    decide +kernel
  obtain ⟨s, hs, hp⟩ := Lts.exec_of_any hrun
  simp only [Bool.and_eq_true, beq_iff_eq, List.isEmpty_iff] at hp
  obtain ⟨⟨⟨⟨⟨hstate, hpend⟩, hcaller⟩, hreadable⟩, hgiven⟩, hpost⟩ := hp
  obtain ⟨t, ht, hp⟩ := Lts.exec_of_any hpost
  simp only [Bool.and_eq_true, beq_iff_eq] at hp
  obtain ⟨⟨hstate', hwire⟩, hgiven'⟩ := hp
  have hnone : ¬ s.ShutdownPending := by
    rintro (⟨e, he, -⟩ | ⟨q, hq⟩)
    · rw [hpend] at he
      cases he
    · cases hc : s.caller q <;> simp_all [Caller.sendBytes, Caller.task]
  obtain ⟨-, hdrained⟩ := drained_within hs ht hls (by simp [hstate'])
  refine ⟨t, hwire, hdrained hstate hnone ?_⟩
  rw [hreadable, hgiven, hgiven']
  decide

end Session

end Muduo
