import MuduoCpp.Interest

/-!
# The end of a connection

`handleClose` takes the connection down from any state; `connectDestroyed` does so in state
`kConnected` only, and otherwise just removes the channel.  `shutdown()` tests `state_` and then
stores `kDisconnecting`, whatever `state_` has become in between.

* `torn_down_iff`: `connectDestroyed` leaves the connection down, without interest, out of the
  poller and reported, unless it finds it half-closed;
* `disconnected_final`: `kDisconnected` is final, unless a thread is in `shutdown()` between its
  test and its store.
-/

namespace Muduo

namespace Session

variable {τ β : Type}

/-! ### After `connectDestroyed` -/

/-- The connection is down, its channel has no interest and is out of the poller, and the user was
told. -/
structure TornDown (s : Session τ β) : Prop where
  state : s.conn.state_ = .kDisconnected
  events : s.conn.channel_.events_ = 0
  channels : s.poller.channels_ s.conn.channel_.fd_ = none
  epoll : s.poller.epollfd_ s.conn.channel_.fd_ = none
  reported : .connectionCallback_ false ∈ s.log

/-- The step runs `connectDestroyed`, as a task or in `~TcpServer`. -/
def Destroys (s : Session τ β) : Label τ β → Prop
  | .task _ => ∃ q rest, s.pending = (q, .connectDestroyed) :: rest
  | .connectDestroyed => True
  | _ => False

/-- A connection that is down has no interest, and the user was told. -/
structure Reported (s : Session τ β) : Prop where
  connecting : s.conn.state_ ≠ .kConnecting
  events : s.conn.state_ = .kDisconnected → s.conn.channel_.events_ = 0
  reported : s.conn.state_ = .kDisconnected → .connectionCallback_ false ∈ s.log

variable {s s' u : Session τ β} {l : Label τ β}

theorem reported_of_core (h : u.Reported) (hcore : s'.core = u.core) : s'.Reported := by
  simp only [core, Prod.mk.injEq] at hcore
  obtain ⟨hconn, -, hlog⟩ := hcore
  exact ⟨by rw [hconn]; exact h.connecting, by rw [hconn]; exact h.events,
    by rw [hconn, hlog]; exact h.reported⟩

theorem reported_perform (h : s.Reported) {q : Option τ} {res : TcpConnection β × List (Effect β)}
    (hne : res.1.state_ ≠ .kConnecting)
    (hdown : res.1.state_ = .kDisconnected →
      (s.conn.state_ = .kDisconnected ∧ res.1.channel_.events_ = s.conn.channel_.events_) ∨
        (res.1.channel_.events_ = 0 ∧ .connectionCallback_ false ∈ res.2)) :
    (s.perform q res).Reported := by
  obtain ⟨i, hi⟩ := s.perform_channel q res
  refine ⟨hne, fun hs => ?_, fun hs => List.mem_append.2 ?_⟩
  · rw [hi]
    rcases hdown hs with ⟨hs', hev⟩ | ⟨hev, -⟩
    · exact hev.trans (h.events hs')
    · exact hev
  · rcases hdown hs with ⟨hs', -⟩ | ⟨-, hmem⟩
    · exact Or.inl (h.reported hs')
    · exact Or.inr hmem

variable [Inhabited β]

theorem reported_does (h : s.Reported) (hran : s.Ran) (hd : s.Does l s') : s'.Reported := by
  cases hd with
  | nothing revents input hcore =>
    simp only [core, Prod.mk.injEq] at hcore
    obtain ⟨hconn, -, hlog⟩ := hcore
    exact ⟨by rw [hconn]; exact h.connecting, by rw [hconn]; exact h.events,
      by rw [hconn, hlog]; exact h.reported⟩
  | store t hcore =>
    exact reported_of_core (u := s.setState .kDisconnecting)
      ⟨by simp [setState], by simp [setState], by simp [setState]⟩ hcore
  | shutdown hs hcore => exact reported_of_core (reported_perform h (by simp) (by simp)) hcore
  | callback k read write hcore =>
    refine reported_of_core (reported_perform h ?_ fun hs => ?_) hcore
    · rcases TcpConnection.state_runCallback s.conn read write k with ⟨-, hk⟩ | ⟨-, hk⟩
      · simp [hk]
      · exact hk ▸ h.connecting
    · rcases TcpConnection.down_runCallback hs with ⟨hs', hchan⟩ | hclose
      · exact Or.inl ⟨hs', hchan (h.events hs')⟩
      · exact Or.inr hclose
  | task task r hne hcore =>
    refine reported_of_core (reported_perform h ?_ fun hs => ?_) hcore
    · by_cases hdes : task = .connectDestroyed
      · subst hdes
        simp only [TcpConnection.runTask, TcpConnection.connectDestroyed]
        split_ifs
        · simp
        · exact h.connecting
      · rw [TcpConnection.state_runTask_of_ne _ _ (hne hran) hdes]
        exact h.connecting
    · rcases TcpConnection.down_runTask (hne hran) hs with ⟨hs', hconn⟩ | hclose
      · exact Or.inl ⟨hs', by rw [hconn]⟩
      · exact Or.inr hclose

variable [DecidableEq τ]

/-- What holds along every run. -/
structure Ending (s : Session τ β) : Prop where
  dispatching : s.Dispatching
  phase : s.Fresh ∨ (s.Ran ∧ s.Reported)

theorem ending_after (h : s.Ending) (hen : s.enabled l) : (s.after l).Ending := by
  refine ⟨dispatching_after h.dispatching hen, ?_⟩
  rcases h.phase with hf | ⟨hran, hr⟩
  · rcases fresh_after hf hen with ⟨r, rfl⟩ | hfresh
    · obtain ⟨q, rest, hp, hrest⟩ := hf.pending
      rw [after_task hp, runTask_of_taken rfl]
      refine Or.inr ⟨ran_perform (fun e he => by simp [hrest e he])
        (TcpConnection.queuesOwn_runTask _ _ _), ?_, ?_, ?_⟩
      all_goals simp [TcpConnection.runTask, TcpConnection.connectEstablished]
    · exact Or.inl hfresh
  · exact Or.inr ⟨ran_after hran l, reported_does hr hran (s.does_after l)⟩

theorem ending_exec {sockfd : ℤ} {writeComplete highWater : Bool} {mark : ℕ} {ls : List (Label τ β)}
    {s : Session τ β} (h : Lts.exec step (init sockfd writeComplete highWater mark) ls = some s) :
    s.Ending :=
  Lts.guarded_inv' (fun _ _ hs hen => ending_after hs hen)
    ⟨dispatching_init _ _ _ _, Or.inl (fresh_init _ _ _ _)⟩ h

omit [DecidableEq τ] in
theorem tornDown_connectDestroyed (hd : s.Dispatching) (hr : s.Reported) (q : Option τ) :
    (s.perform q s.conn.connectDestroyed).TornDown ↔ s.conn.state_ ≠ .kDisconnecting := by
  constructor
  · intro h hs
    rw [TcpConnection.connectDestroyed_of_ne (by simp [hs])] at h
    have : s.conn.state_ = .kDisconnected := h.state
    rw [hs] at this
    cases this
  · intro hs
    have hd' : (s.perform q s.conn.connectDestroyed).Dispatching :=
      dispatching_perform hd (TcpConnection.updates_runTask s.conn (.sent 0) .connectDestroyed)
    have hindex : (s.perform q s.conn.connectDestroyed).conn.channel_.index_ = .kNew := by
      unfold TcpConnection.connectDestroyed
      split_ifs <;> rfl
    have hout := hd'.holds
    rw [EPollPoller.Holds, hindex] at hout
    -- half-closed is excluded: it is connected, or was down before
    have hdown : s.conn.connectDestroyed.1.state_ = .kDisconnected := by
      unfold TcpConnection.connectDestroyed
      have hc := hr.connecting
      cases hstate : s.conn.state_ <;> simp_all
    have hr' : (s.perform q s.conn.connectDestroyed).Reported := by
      refine reported_perform hr (by simp [hdown]) fun _ => ?_
      have hrun : (s.conn.runTask (.sent 0) .connectDestroyed).1.state_ = .kDisconnected := hdown
      rcases TcpConnection.down_runTask (by simp) hrun with ⟨hs', hconn⟩ | hclose
      · exact Or.inl ⟨hs', congrArg (fun c => c.channel_.events_) hconn⟩
      · exact Or.inr hclose
    exact ⟨hdown, hr'.events hdown, hout.1, hout.2, hr'.reported hdown⟩

/-- In every run: when `connectDestroyed` has run on a connection that was established, the
connection is down, without interest, out of the poller and reported, if and only if it was not
half-closed. -/
theorem torn_down_iff {sockfd : ℤ} {writeComplete highWater : Bool} {mark : ℕ}
    {ls : List (Label τ β)} {l : Label τ β} {s s' : Session τ β}
    (h : Lts.exec step (init sockfd writeComplete highWater mark) ls = some s)
    (hup : .connectionCallback_ true ∈ s.log) (hl : s.Destroys l) (hstep : step s l = some s') :
    s'.TornDown ↔ s.conn.state_ ≠ .kDisconnecting := by
  obtain ⟨hen, rfl⟩ := Lts.guarded_eq_some.1 hstep
  have hend := ending_exec h
  obtain ⟨-, hr⟩ := hend.phase.resolve_left fun hf => by cases hf.log _ hup
  cases l with
  | task r =>
    obtain ⟨q, rest, hp⟩ := hl
    rw [after_task hp, runTask_of_taken rfl]
    exact tornDown_connectDestroyed (s := { s with pending := rest }) ⟨hend.1.1, hend.1.2, hend.1.3⟩
      ⟨hr.1, hr.2, hr.3⟩ q
  | connectDestroyed =>
    simp only [after]
    rw [runTask_of_taken rfl]
    exact tornDown_connectDestroyed hend.dispatching hr none
  | _ => cases hl

/-- `shutdown()`, and the server is destroyed before the peer closes. -/
private def halfClosedRun : List (Label Unit ℕ) := [.task (.sent 0), .shutdown]

/-- The connection stays half-closed with its interest, and the user is never told. -/
theorem not_torn_down :
    ∃ s s' : Session Unit ℕ, Lts.exec step (init 5 false false 100) halfClosedRun = some s ∧
      .connectionCallback_ true ∈ s.log ∧ step s .connectDestroyed = some s' ∧ ¬ s'.TornDown ∧
      s'.conn.channel_.events_ ≠ 0 ∧ .connectionCallback_ false ∉ s'.log := by
  have hrun : (Lts.exec step (init 5 false false 100) halfClosedRun).any (fun s =>
      (step s .connectDestroyed).any fun s' =>
        s.log.contains (.connectionCallback_ true) && s'.conn.channel_.events_ != 0 &&
          !s'.log.contains (.connectionCallback_ false)) = true := by decide +kernel
  obtain ⟨s, hs, hp⟩ := Lts.exec_of_any hrun
  obtain ⟨s', hs', hp⟩ := Option.any_eq_true _ _ |>.1 hp
  simp only [Bool.and_eq_true, bne_iff_ne, Bool.not_eq_true', List.contains_eq_mem,
    decide_eq_true_eq, decide_eq_false_iff_not] at hp
  obtain ⟨⟨hup, hev⟩, hdown⟩ := hp
  exact ⟨s, s', hs, hup, hs', fun h => hdown h.reported, hev, hdown⟩

/-- The server is destroyed while the connection is open. -/
theorem torn_down_iff_open :
    ∃ s s' : Session Unit ℕ, Lts.exec step (init 5 false false 100) [.task (.sent 0)] = some s ∧
      step s .connectDestroyed = some s' ∧ s'.TornDown := by
  have hrun : (Lts.exec step (init 5 false false 100) [.task (.sent 0)]).any (fun s =>
      (step (s : Session Unit ℕ) .connectDestroyed).any fun _ =>
        s.log.contains (.connectionCallback_ true) && s.conn.state_ == .kConnected) = true := by
    decide +kernel
  obtain ⟨s, hs, hp⟩ := Lts.exec_of_any hrun
  obtain ⟨s', hs', hp⟩ := Option.any_eq_true _ _ |>.1 hp
  simp only [Bool.and_eq_true, beq_iff_eq, List.contains_eq_mem, decide_eq_true_eq] at hp
  exact ⟨s, s', hs, hs',
    (torn_down_iff (l := .connectDestroyed) hs hp.1 trivial hs').2 (by simp [hp.2])⟩

/-! ### `kDisconnected` -/

/-- The connection is down and stays so, and a queued `sendInLoop` leaves the socket and the poller
alone. -/
def StaysDown (s : Session τ β) (l : Label τ β) : Prop :=
  s.conn.state_ = .kDisconnected ∧ (s.after l).conn.state_ = .kDisconnected ∧
    ∀ r q data rest, l = .task r → s.pending = (q, .sendInLoop data) :: rest →
      (s.after l).log = s.log ∧ (s.after l).poller = s.poller

omit [DecidableEq τ] in
theorem down_does (hran : s.Ran) (hs : s.conn.state_ = .kDisconnected) (hl : KeepsDown s l)
    (hd : s.Does l s') : s'.conn.state_ = .kDisconnected := by
  have hconn : ∀ {u : Session τ β}, s'.core = u.core → u.conn.state_ = .kDisconnected →
      s'.conn.state_ = .kDisconnected := by
    intro u hcore hu
    simp only [core, Prod.mk.injEq] at hcore
    rw [hcore.1, hu]
  cases hd with
  | nothing revents input hcore =>
    simp only [core, Prod.mk.injEq] at hcore
    rw [hcore.1, hs]
  | store t hcore => exact absurd hs hl
  | shutdown hc hcore =>
    rw [hs] at hc
    cases hc
  | callback k read write hcore =>
    refine hconn hcore ?_
    rcases TcpConnection.state_runCallback s.conn read write k with ⟨-, hk⟩ | ⟨-, hk⟩
    · exact hk
    · exact hk.trans hs
  | task task r hne hcore =>
    exact hconn hcore ((TcpConnection.state_runTask s.conn r (hne hran)).2 hs)

theorem staysDown_iff (hran : s.Ran) (hs : s.conn.state_ = .kDisconnected) :
    s.StaysDown l ↔ KeepsDown s l := by
  constructor
  · rintro ⟨-, hs', -⟩
    cases l with
    | shutdownStore t => cases hs'
    | _ => trivial
  · intro hl
    refine ⟨hs, down_does hran hs hl (s.does_after l), ?_⟩
    rintro r q data rest rfl hp
    have hres := TcpConnection.sendInLoop_of_down hs data r
    rw [after_task hp]
    simp only [runTask, TcpConnection.runTask, hres]
    exact ⟨List.append_nil _, rfl⟩

/-- Only a connected connection lets a thread into `shutdown()`. -/
theorem caller_of_down (hs : s.conn.state_ = .kDisconnected) (t : τ)
    (h : (s.caller t).isLoaded = false) : ((s.after l).caller t).isLoaded = false := by
  have hnot : s.conn.connected = false := by simp [TcpConnection.connected, hs]
  cases l with
  | task r =>
    cases hp : s.pending with
    | nil => simpa [after, hp] using h
    | cons e rest =>
      rw [after_task hp]
      exact h
  | send | sendFile | shutdown | sendTest | sendFileTest | shutdownTest =>
    simpa [after, hnot] using h
  | shutdownStore u | push u =>
    by_cases ht : t = u
    · subst ht
      simp [after, setCaller, Caller.isLoaded]
    · simpa [after, setCaller, setState, Function.update_of_ne ht] using h
  | _ => exact h

/-- A connection that is down in some run stays down whatever comes next, and no queued `sendInLoop`
writes or registers the channel again, if and only if no thread is in `shutdown()` between the test
and the store of `state_`. -/
theorem disconnected_final {sockfd : ℤ} {writeComplete highWater : Bool} {mark : ℕ}
    {pre : List (Label τ β)} {s : Session τ β}
    (hpre : Lts.exec step (init sockfd writeComplete highWater mark) pre = some s)
    (hs : s.conn.state_ = .kDisconnected) :
    (∀ ls t, Lts.exec step s ls = some t → Lts.Along step StaysDown s ls) ↔
      ∀ t, (s.caller t).isLoaded = false := by
  obtain ⟨hran, -⟩ := (ending_exec hpre).phase.resolve_left fun hf => by
    rw [hf.state] at hs
    cases hs
  constructor
  · intro h t
    by_contra ht
    rw [Bool.not_eq_false] at ht
    have hstep : step s (.shutdownStore t) = some (s.after (.shutdownStore t)) :=
      Lts.guarded_eq_some.2 ⟨ht, rfl⟩
    have hdown := (h [.shutdownStore t] _ (Lts.exec_cons_iff.2 ⟨_, hstep, rfl⟩)).1.2.1
    cases hdown
  · intro hcallers ls t h
    clear hpre
    induction ls generalizing s with
    | nil => trivial
    | cons l ls ih =>
      obtain ⟨hen, hut⟩ := Lts.guarded_exec_cons.1 h
      have hkeeps : KeepsDown s l := by
        cases l with
        | shutdownStore t => exact absurd hen (by simp [enabled, hcallers t])
        | _ => trivial
      have hl := (staysDown_iff hran hs).2 hkeeps
      refine ⟨hl, fun v hv => ?_⟩
      obtain ⟨-, rfl⟩ := Lts.guarded_eq_some.1 hv
      exact ih hl.2.1 (ran_after hran l) (fun t => caller_of_down hs t (hcallers t)) hut

/-- A thread sends and is in `shutdown()` when the peer hangs up. -/
private def hungUpRun : List (Label Unit ℕ) :=
  [.task (.sent 0), .sendTest () [7], .push (), .shutdownTest (), .poll EPOLLHUP, .handleEvent,
    .closeCallback]

/-- The store revives the connection; the queued data is written and the channel registered
again. -/
theorem disconnected_revived :
    ∃ s t : Session Unit ℕ, Lts.exec step (init 5 false false 100) hungUpRun = some s ∧
      s.conn.state_ = .kDisconnected ∧
      Lts.exec step s [.shutdownStore (), .task (.failed .EWOULDBLOCK)] = some t ∧
      t.conn.state_ = .kDisconnecting ∧
      t.log = s.log ++ [.writeError .EWOULDBLOCK, .update] ∧
      (s.poller.epollfd_ 5).isNone = true ∧ (t.poller.epollfd_ 5).isSome = true := by
  have hrun : (Lts.exec step (init 5 false false 100) hungUpRun).any (fun s =>
      (Lts.exec step s [.shutdownStore (), .task (.failed .EWOULDBLOCK)]).any fun t =>
        s.conn.state_ == .kDisconnected && t.conn.state_ == .kDisconnecting &&
        t.log == s.log ++ [.writeError .EWOULDBLOCK, .update] &&
        (s.poller.epollfd_ 5).isNone && (t.poller.epollfd_ 5).isSome) = true := by decide +kernel
  obtain ⟨s, hs, hp⟩ := Lts.exec_of_any hrun
  obtain ⟨t, ht, hp⟩ := Option.any_eq_true _ _ |>.1 hp
  simp only [Bool.and_eq_true, beq_iff_eq] at hp
  obtain ⟨⟨⟨⟨hdown, hing⟩, hlog⟩, hout⟩, hin⟩ := hp
  exact ⟨s, t, hs, hdown, ht, hing, hlog, hout, hin⟩

/-- The same without the `shutdown()`. -/
private def hungUpCalmRun : List (Label Unit ℕ) :=
  [.task (.sent 0), .sendTest () [7], .push (), .poll EPOLLHUP, .handleEvent, .closeCallback]

theorem disconnected_final_calm :
    ∃ s : Session Unit ℕ, Lts.exec step (init 5 false false 100) hungUpCalmRun = some s ∧
      s.pending = [(some (), .sendInLoop [7])] ∧
      ∀ ls t, Lts.exec step s ls = some t → Lts.Along step StaysDown s ls := by
  have hrun : (Lts.exec step (init 5 false false 100) hungUpCalmRun).any (fun s =>
      s.conn.state_ == .kDisconnected && s.pending == [(some (), .sendInLoop [7])] &&
        !(s.caller ()).isLoaded) = true := by decide +kernel
  obtain ⟨s, hs, hp⟩ := Lts.exec_of_any hrun
  simp only [Bool.and_eq_true, beq_iff_eq, Bool.not_eq_true'] at hp
  exact ⟨s, hs, hp.1.2, (disconnected_final hs hp.1.1).2 fun _ => hp.2⟩

end Session

end Muduo
