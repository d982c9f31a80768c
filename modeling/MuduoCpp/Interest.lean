import MuduoCpp.Dispatch
import MuduoCpp.HalfClose

/-!
# Interest in `EPOLLOUT` and the half-close

`sendInLoop` and `handleWrite` together keep the channel interested in `EPOLLOUT` exactly while
`outputBuffer_` has something, and `updateChannel` keeps the epoll set at the channel's events.  The
half-close rests on this: `shutdownInLoop` looks at `isWriting()` only, and leaves the rest to the
`handleWrite` that empties the buffer.

A `shutdown()` on another thread may store `kDisconnecting` over `kDisconnected`, if the connection
goes down between its test and its store; the runs here are those in which it does not
(`KeepsDown`), as when the call is one step.

* `Does`: what a step does to the connection, its poller and the log;
* `epoll_armed`: the registered mask has `EPOLLOUT` exactly while there is output;
* `half_close_on_time`: the half-close comes over an empty buffer, and it is not forgotten.
-/

namespace Muduo

namespace Session

variable {τ β : Type}

/-! ### What a step does to the connection -/

/-- The connection, its poller and the log. -/
def core (s : Session τ β) : TcpConnection β × EPollPoller Unit × List (Effect β) :=
  (s.conn, s.poller, s.log)

/-- The poller's report and the user's reading, the store of `shutdown()`, or a function of the
connection. -/
inductive Does [Inhabited β] (s : Session τ β) : Label τ β → Session τ β → Prop
  | nothing {l : Label τ β} {s' : Session τ β} (revents : Events) (input : OkBuffer β)
      (h : s'.core = ({ s.conn with
        channel_ := { s.conn.channel_ with revents_ := revents }
        inputBuffer_ := input }, s.poller, s.log)) : s.Does l s'
  | store {s' : Session τ β} (t : τ) (h : s'.core = (s.setState .kDisconnecting).core) :
      s.Does (.shutdownStore t) s'
  | shutdown {s' : Session τ β} (hs : s.conn.state_ = .kConnected)
      (h : s'.core = (s.perform none
        ({ s.conn with state_ := .kDisconnecting }, s.conn.shutdownInLoop)).core) :
      s.Does .shutdown s'
  | callback {l : Label τ β} {s' : Session τ β} (k : Callback) (read : ReadResult β)
      (write : WriteResult)
      (h : s'.core = (s.perform none (s.conn.runCallback read write k)).core) :
      s.Does l s'
  | task {l : Label τ β} {s' : Session τ β} (task : Task β) (r : WriteResult)
      (hne : s.Ran → task ≠ .connectEstablished)
      (h : s'.core = (s.perform none (s.conn.runTask r task)).core) : s.Does l s'

theorem does_after [Inhabited β] [DecidableEq τ] (s : Session τ β) (l : Label τ β) :
    s.Does l (s.after l) := by
  have hidle : ∀ {s' : Session τ β} {l : Label τ β}, s'.core = s.core → s.Does l s' :=
    fun h => .nothing s.conn.channel_.revents_ s.conn.inputBuffer_ h
  cases l with
  | poll revents => exact .nothing revents s.conn.inputBuffer_ rfl
  | retrieve len => exact .nothing s.conn.channel_.revents_ _ rfl
  | closeCallback => exact .callback .closeCallback_ .failed (.sent 0) rfl
  | errorCallback => exact .callback .errorCallback_ .failed (.sent 0) rfl
  | readCallback r => exact .callback .readCallback_ r (.sent 0) rfl
  | writeCallback r => exact .callback .writeCallback_ .failed r rfl
  | task r =>
    cases hp : s.pending with
    | nil =>
      simp only [after, hp]
      exact hidle rfl
    | cons e rest =>
      rw [after_task hp]
      exact .task e.2 r (fun hran => hran e (by simp [hp])) rfl
  | send data r =>
    simp only [after]
    split_ifs
    · exact .task (.sendInLoop data) r (fun _ => by simp) rfl
    · exact hidle rfl
  | sendFile file offset count r =>
    simp only [after]
    split_ifs
    · exact .task (.sendFileInLoop file offset count) r (fun _ => by simp) rfl
    · exact hidle rfl
  | shutdown =>
    simp only [after]
    split_ifs with hc
    · exact .shutdown (by simpa [TcpConnection.connected] using hc) rfl
    · exact hidle rfl
  | connectDestroyed => exact .task .connectDestroyed (.sent 0) (fun _ => by simp) rfl
  | shutdownStore t => exact .store t rfl
  | sendTest t data | sendFileTest t file offset count | shutdownTest t =>
    simp only [after]
    split_ifs <;> exact hidle rfl
  | handleEvent | queueDestroyed | push => exact hidle rfl

/-! ### Interest -/

/-- `shutdown()` does not store `kDisconnecting` over `kDisconnected`. -/
def KeepsDown (s : Session τ β) : Label τ β → Prop
  | .shutdownStore _ => s.conn.state_ ≠ .kDisconnected
  | _ => True

instance (s : Session τ β) : DecidablePred s.KeepsDown
  | .shutdownStore _ => inferInstanceAs (Decidable (_ ≠ _))
  | .poll _ | .handleEvent | .closeCallback | .errorCallback | .readCallback _ | .writeCallback _
  | .task _ | .send _ _ | .sendFile _ _ _ _ | .shutdown | .retrieve _ | .queueDestroyed
  | .connectDestroyed | .sendTest _ _ | .sendFileTest _ _ _ _ | .shutdownTest _ | .push _ =>
      isTrue trivial

/-- The channel of a connection that is not down waits for input, and for `EPOLLOUT` as long as
there is output; the poller has it until `connectDestroyed`. -/
structure Tended (s : Session τ β) : Prop where
  armed : s.conn.state_ ≠ .kDisconnected → s.conn.Armed
  reading : s.conn.state_ ≠ .kDisconnected → s.conn.channel_.isReading = true
  added : s.conn.state_ ≠ .kDisconnected → .remove ∉ s.log → s.conn.channel_.index_ = .kAdded

variable {s s' u : Session τ β} {l : Label τ β}

theorem tended_of_core (h : u.Tended) (hcore : s'.core = u.core) : s'.Tended := by
  simp only [core, Prod.mk.injEq] at hcore
  obtain ⟨hconn, -, hlog⟩ := hcore
  exact ⟨by rw [hconn]; exact h.armed, by rw [hconn]; exact h.reading,
    by rw [hconn, hlog]; exact h.added⟩

theorem tended_perform (h : s.Tended) {res : TcpConnection β × List (Effect β)}
    (hu : s.conn.Updates res)
    (hdown : res.1.state_ ≠ .kDisconnected → s.conn.state_ ≠ .kDisconnected ∧ res.1.Armed ∧
      res.1.channel_.isReading = s.conn.channel_.isReading) :
    (s.perform none res).Tended := by
  refine ⟨fun hs => ?_, fun hs => ?_, fun hs hrem => ?_⟩
  · have harmed := (hdown hs).2.1
    unfold TcpConnection.Armed at harmed ⊢
    rwa [perform_isWriting, perform_output]
  · rw [perform_isReading, (hdown hs).2.2]
    exact h.reading (hdown hs).1
  · obtain ⟨hs', -, hread⟩ := hdown hs
    rw [perform_log, List.mem_append, not_or] at hrem
    have hidx : res.1.channel_.index_ = s.conn.channel_.index_ := by
      rcases hu with hsame | hu
      · rw [hsame]
      · exact hu.2.1
    refine Effect.index_foldl_register (r := (s.poller, res.1.channel_)) ?_ ?_ ?_
    · rintro e he rfl
      exact hrem.2 he
    · exact Channel.events_ne_zero_of_isReading (hread.trans (h.reading hs'))
    · exact hidx.trans (h.added hs' hrem.1)

variable [Inhabited β]

theorem tended_does (h : s.Tended) (hran : s.Ran) (hl : KeepsDown s l) (hd : s.Does l s') :
    s'.Tended := by
  cases hd with
  | nothing revents input hcore =>
    simp only [core, Prod.mk.injEq] at hcore
    obtain ⟨hconn, -, hlog⟩ := hcore
    exact ⟨by rw [hconn]; exact h.armed, by rw [hconn]; exact h.reading,
      by rw [hconn, hlog]; exact h.added⟩
  | store t hcore =>
    refine tended_of_core (u := s.setState .kDisconnecting) ?_ hcore
    exact ⟨fun _ => h.armed hl, fun _ => h.reading hl, fun _ => h.added hl⟩
  | shutdown hs hcore =>
    have hne : s.conn.state_ ≠ .kDisconnected := by simp [hs]
    exact tended_of_core (tended_perform h (Or.inl rfl) fun _ => ⟨hne, h.armed hne, rfl⟩) hcore
  | callback k read write hcore =>
    refine tended_of_core (tended_perform h (TcpConnection.updates_runCallback _ _ _ _)
      fun hs => ?_) hcore
    have hstate := (TcpConnection.state_runCallback s.conn read write k).resolve_left
      fun hc => hs hc.2
    have hne : s.conn.state_ ≠ .kDisconnected := fun he => hs (hstate.2.trans he)
    exact ⟨hne, TcpConnection.armed_runCallback (h.armed hne) hs,
      TcpConnection.isReading_runCallback hs⟩
  | task task r hne hcore =>
    refine tended_of_core (tended_perform h (TcpConnection.updates_runTask _ _ _) fun hs => ?_)
      hcore
    have hdown : s.conn.state_ ≠ .kDisconnected := fun he =>
      hs ((TcpConnection.state_runTask s.conn r (hne hran)).2 he)
    exact ⟨hdown, TcpConnection.armed_runTask (h.armed hdown) hs,
      TcpConnection.isReading_runTask (hne hran) hs⟩

/-- `connectEstablished` registers the channel. -/
theorem tended_of_fresh (h : s.Fresh) (q : Option τ) {rest : List (From τ (Task β))}
    (r : WriteResult) :
    (({ s with pending := rest } : Session τ β).runTask q .connectEstablished r).Tended := by
  rw [runTask_of_taken rfl]
  have hwriting : s.conn.channel_.isWriting = false := by
    rw [Channel.isWriting, h.events]
    exact Mask.has_zero
  refine ⟨fun _ => ?_, fun _ => ?_, fun _ _ => ?_⟩
  · unfold TcpConnection.Armed
    rw [perform_isWriting, perform_output]
    show s.conn.channel_.enableReading.isWriting = true ↔ s.conn.outputBuffer_.content ≠ []
    simp [hwriting, h.output]
  · rw [perform_isReading]
    exact Channel.isReading_enableReading _
  · show (s.poller.updateChannel ()
      { s.conn.channel_.enableReading with tied_ := true }).2.index_ = _
    rw [EPollPoller.updateChannel_index]
    refine if_neg fun hadd => ?_
    have hidx : s.conn.channel_.index_ = .kAdded := hadd.1
    rw [h.index] at hidx
    cases hidx

variable [DecidableEq τ]

/-- What holds along a run that keeps the connection down. -/
structure Keeping (s : Session τ β) : Prop where
  dispatching : s.Dispatching
  phase : s.Fresh ∨ (s.Ran ∧ s.Tended)

omit [DecidableEq τ] in
theorem keeping_init (sockfd : ℤ) (writeComplete highWater : Bool) (mark : ℕ) :
    (init sockfd writeComplete highWater mark : Session τ β).Keeping :=
  ⟨dispatching_init _ _ _ _, Or.inl (fresh_init _ _ _ _)⟩

theorem keeping_after (h : s.Keeping) (hl : KeepsDown s l) (hen : s.enabled l) :
    (s.after l).Keeping := by
  refine ⟨dispatching_after h.dispatching hen, ?_⟩
  rcases h.phase with hf | ⟨hran, ht⟩
  · rcases fresh_after hf hen with ⟨r, rfl⟩ | hfresh
    · obtain ⟨q, rest, hp, hrest⟩ := hf.pending
      rw [after_task hp]
      exact Or.inr ⟨ran_runTask (fun e he => by simp [hrest e he]) _ _ _, tended_of_fresh hf q r⟩
    · exact Or.inl hfresh
  · exact Or.inr ⟨ran_after hran l, tended_does ht hran hl (s.does_after l)⟩

/-- **Pending output is armed and idle output is not.**  From `connectEstablished` to
`connectDestroyed`, while the connection is not down, its fd is in the epoll set, with `EPOLLOUT` in
its mask if and only if `outputBuffer_` has readable bytes. -/
theorem epoll_armed {sockfd : ℤ} {writeComplete highWater : Bool} {mark : ℕ}
    {ls : List (Label τ β)} {s : Session τ β}
    (hls : Lts.Along step KeepsDown (init sockfd writeComplete highWater mark) ls)
    (h : Lts.exec step (init sockfd writeComplete highWater mark) ls = some s)
    (hs : s.conn.state_ = .kConnected ∨ s.conn.state_ = .kDisconnecting) (hrem : .remove ∉ s.log) :
    ∃ events, s.poller.epollfd_ s.conn.channel_.fd_ = some ⟨events, ()⟩ ∧
      (Mask.has events EPOLLOUT = true ↔ 0 < s.conn.outputBuffer_.readableBytes) := by
  have hkeep := Lts.guarded_inv (fun _ _ => keeping_after) (keeping_init _ _ _ _) hls h
  have hne : s.conn.state_ ≠ .kDisconnected := by rcases hs with hs | hs <;> simp [hs]
  obtain ⟨-, ht⟩ := hkeep.phase.resolve_left fun hf => by
    rcases hs with hs | hs <;> simp [hf.state] at hs
  have hholds := hkeep.dispatching.holds
  rw [EPollPoller.Holds, ht.added hne hrem] at hholds
  refine ⟨_, hholds.2, (ht.armed hne).trans ?_⟩
  rw [OkBuffer.readableBytes_eq, List.length_pos_iff]

/-- A partial write, a `shutdown()` and a partial drain. -/
private def armedRun : List (Label Unit ℕ) :=
  [.task (.sent 0), .send [1, 2, 3] (.sent 1), .shutdown, .poll EPOLLOUT, .handleEvent,
    .writeCallback (.sent 1)]

theorem epoll_armed_partial :
    ∃ s : Session Unit ℕ, Lts.exec step (init 5 false false 100) armedRun = some s ∧
      s.conn.outputBuffer_.content = [3] ∧
      ∃ events, s.poller.epollfd_ s.conn.channel_.fd_ = some ⟨events, ()⟩ ∧
        (Mask.has events EPOLLOUT = true ↔ 0 < s.conn.outputBuffer_.readableBytes) := by
  have hrun : (Lts.exec step (init 5 false false 100) armedRun).any (fun s =>
      s.conn.state_ == .kDisconnecting && s.conn.outputBuffer_.content == [3] &&
        !s.log.contains .remove) = true := by decide +kernel
  have hls : Lts.Along step KeepsDown (init 5 false false 100 : Session Unit ℕ) armedRun := by
    decide +kernel
  obtain ⟨s, hs, hp⟩ := Lts.exec_of_any hrun
  simp only [Bool.and_eq_true, beq_iff_eq, Bool.not_eq_true', List.contains_eq_mem,
    decide_eq_false_iff_not] at hp
  exact ⟨s, hs, hp.1.2, epoll_armed hls hs (Or.inr hp.1.1) hp.2⟩

/-! ### The half-close -/

/-- `shutdownInLoop` is queued, or about to be queued. -/
def ShutdownPending (s : Session τ β) : Prop :=
  (∃ e ∈ s.pending, e.2 = .shutdownInLoop) ∨ ∃ t, (s.caller t).task = some .shutdownInLoop

/-- In state `kDisconnecting` the half-close was issued, or it is still to come: by the task or by
the `handleWrite` that empties the buffer. -/
def HalfClosing (s : Session τ β) : Prop :=
  s.conn.state_ = .kDisconnecting →
    s.ShutdownPending ∨ .shutdownWrite ∈ s.log ∨ s.conn.outputBuffer_.content ≠ []

omit [Inhabited β] [DecidableEq τ] in
theorem shutdownPending_append {l : List (From τ (Task β))} (h : s.ShutdownPending)
    (hp : s'.pending = s.pending ++ l) (hc : s'.caller = s.caller) : s'.ShutdownPending := by
  rw [ShutdownPending, hp, hc]
  refine h.imp_left fun ⟨e, he, hfin⟩ => ⟨e, List.mem_append_left _ he, hfin⟩

/-- The task stays queued until it runs. -/
theorem shutdownPending_after (h : s.ShutdownPending) (hen : s.enabled l) :
    (s.after l).ShutdownPending ∨
      ∃ r e rest, l = .task r ∧ s.pending = e :: rest ∧ e.2 = .shutdownInLoop := by
  cases l with
  | closeCallback | errorCallback | readCallback | writeCallback | connectDestroyed =>
    exact Or.inl (shutdownPending_append h rfl rfl)
  | task r =>
    obtain ⟨e, rest, hp⟩ := exists_pending hen.2.2
    by_cases he : e.2 = .shutdownInLoop
    · exact Or.inr ⟨r, e, rest, rfl, hp, he⟩
    · rw [after_task hp]
      refine Or.inl (shutdownPending_append (s := { s with pending := rest }) ?_ rfl rfl)
      refine h.imp_left ?_
      rintro ⟨d, hd, hfin⟩
      rw [hp] at hd
      exact ⟨d, (List.mem_cons.1 hd).resolve_left fun hde => he (hde ▸ hfin), hfin⟩
  | send data r | sendFile file offset count r | shutdown =>
    left
    simp only [after]
    split_ifs
    · exact shutdownPending_append h rfl rfl
    · exact h
  | queueDestroyed => exact Or.inl (shutdownPending_append h rfl rfl)
  | shutdownStore t => exact Or.inl (Or.inr ⟨t, by simp [after, setCaller, Caller.task]⟩)
  | push t =>
    left
    rcases h with ⟨e, he, hfin⟩ | ⟨u, hu⟩
    · exact Or.inl ⟨e, List.mem_append_left _ he, hfin⟩
    · by_cases hut : u = t
      · subst hut
        exact Or.inl ⟨(some u, .shutdownInLoop), by simp [after, hu], rfl⟩
      · exact Or.inr ⟨u, by simpa [after, setCaller, Function.update_of_ne hut] using hu⟩
  | sendTest t data | sendFileTest t file offset count | shutdownTest t =>
    left
    simp only [after]
    split_ifs
    · refine h.imp_right ?_
      rintro ⟨u, hu⟩
      have hidle : (s.caller t).isIdle = true := hen
      have hut : u ≠ t := by
        rintro rfl
        cases hc : s.caller u <;> simp_all [Caller.isIdle, Caller.task]
      exact ⟨u, by simpa [setCaller, Function.update_of_ne hut, accept] using hu⟩
    · exact h
  | poll | handleEvent | retrieve => exact Or.inl h

omit [DecidableEq τ] in
/-- What stays to be drained, or is drained with a half-close. -/
theorem draining_does (h : .shutdownWrite ∈ s.log ∨ s.conn.outputBuffer_.content ≠ [])
    (hs : s.conn.state_ = .kDisconnecting) (hd : s.Does l s') :
    .shutdownWrite ∈ s'.log ∨ s'.conn.outputBuffer_.content ≠ [] := by
  have hperform : ∀ {res : TcpConnection β × List (Effect β)},
      s'.core = (s.perform none res).core →
      (s.conn.outputBuffer_.content ≠ [] →
        .shutdownWrite ∈ res.2 ∨ res.1.outputBuffer_.content ≠ []) →
      .shutdownWrite ∈ s'.log ∨ s'.conn.outputBuffer_.content ≠ [] := by
    intro res hcore hres
    simp only [core, Prod.mk.injEq] at hcore
    obtain ⟨hconn, -, hlog⟩ := hcore
    rw [hconn, hlog, perform_log, perform_output]
    rcases h with h | h
    · exact Or.inl (List.mem_append_left _ h)
    · exact (hres h).imp_left (List.mem_append_right _)
  cases hd with
  | nothing revents input hcore | store t hcore =>
    simp only [core, Prod.mk.injEq] at hcore
    obtain ⟨hconn, -, hlog⟩ := hcore
    rw [hconn, hlog]
    exact h
  | shutdown hc hcore => exact hperform hcore Or.inr
  | callback k read write hcore =>
    exact hperform hcore fun hne => TcpConnection.draining_runCallback hne hs
  | task task r _ hcore =>
    exact hperform hcore fun hne => Or.inr (TcpConnection.content_runTask hne)

/-- A half-close that is not issued in state `kConnected` comes over an empty buffer. -/
theorem content_of_fin (ht : s.Tended) (hs : s.conn.state_ ≠ .kDisconnected)
    (hfin : Fin s (s.after l)) : (s.after l).conn.outputBuffer_.content = [] := by
  have hempty : s.conn.channel_.isWriting = false → s.conn.outputBuffer_.content = [] := by
    intro hw
    by_contra hne
    rw [(ht.armed hs).2 hne] at hw
    cases hw
  rcases fin_cases hfin with ⟨r, rfl, hdr, -⟩ | ⟨rfl, hc, hw⟩ | ⟨r, e, rest, rfl, hp, he, hw⟩
  · exact TcpConnection.content_of_drains hdr
  · simp only [after, hc, if_true]
    exact hempty hw
  · rw [after_task hp, he]
    exact hempty hw

omit [Inhabited β] [DecidableEq τ] in
/-- `shutdownInLoop` issues the half-close, or leaves it to the `handleWrite` that drains. -/
theorem draining_shutdownInLoop (ht : s.Tended) (hs : s.conn.state_ ≠ .kDisconnected) :
    .shutdownWrite ∈ s.conn.shutdownInLoop ∨ s.conn.outputBuffer_.content ≠ [] := by
  by_cases hw : s.conn.channel_.isWriting = true
  · exact Or.inr ((ht.armed hs).1 hw)
  · exact Or.inl ((TcpConnection.fin_shutdownInLoop _).2 (Bool.not_eq_true _ ▸ hw))

theorem halfClosing_after (h : s.HalfClosing) (hran : s.Ran) (ht : s.Tended) (hen : s.enabled l) :
    (s.after l).HalfClosing := by
  intro hs'
  by_cases hs : s.conn.state_ = .kDisconnecting
  · have hne : s.conn.state_ ≠ .kDisconnected := by simp [hs]
    rcases h hs with hp | hd
    · rcases shutdownPending_after hp hen with hp | ⟨r, e, rest, rfl, hp, he⟩
      · exact Or.inl hp
      · rw [after_task hp, he]
        exact Or.inr ((draining_shutdownInLoop ht hne).imp_left (List.mem_append_right _))
    · exact Or.inr (draining_does hd hs (s.does_after l))
  · -- `shutdown()` brings the connection into this state
    have hconn : ∀ {u : Session τ β}, (s.after l).core = u.core →
        u.conn.state_ = .kDisconnecting := by
      intro u hcore
      simp only [core, Prod.mk.injEq] at hcore
      rw [← hcore.1, hs']
    cases s.does_after l with
    | nothing revents input hcore =>
      simp only [core, Prod.mk.injEq] at hcore
      rw [hcore.1] at hs'
      exact absurd hs' hs
    | store t hcore => exact Or.inl (Or.inr ⟨t, by simp [after, setCaller, Caller.task]⟩)
    | shutdown hc hcore =>
      have hne : s.conn.state_ ≠ .kDisconnected := by simp [hc]
      simp only [core, Prod.mk.injEq] at hcore
      obtain ⟨hconn, -, hlog⟩ := hcore
      rw [hconn, hlog]
      exact Or.inr ((draining_shutdownInLoop ht hne).imp_left (List.mem_append_right _))
    | callback k read write hcore =>
      have hstate : (s.conn.runCallback read write k).1.state_ = .kDisconnecting := hconn hcore
      rcases TcpConnection.state_runCallback s.conn read write k with ⟨-, hk⟩ | ⟨-, hk⟩
      · rw [hk] at hstate
        cases hstate
      · exact absurd (hk.symm.trans hstate) hs
    | task task r hne hcore =>
      have hstate : (s.conn.runTask r task).1.state_ = .kDisconnecting := hconn hcore
      exact absurd ((TcpConnection.state_runTask s.conn r (hne hran)).1.1 hstate) hs

/-- The interest in `EPOLLOUT` and the half-close, together: the second needs the first. -/
theorem keeping_halfClosing_after (h : s.Keeping ∧ s.HalfClosing) (hl : KeepsDown s l)
    (hen : s.enabled l) : (s.after l).Keeping ∧ (s.after l).HalfClosing := by
  obtain ⟨hkeep, hhalf⟩ := h
  refine ⟨keeping_after hkeep hl hen, ?_⟩
  rcases hkeep.phase with hf | ⟨hran, ht⟩
  · -- before `connectEstablished` nothing brings it into `kDisconnecting`
    intro hstate
    rcases fresh_after hf hen with ⟨r, rfl⟩ | hfresh
    · obtain ⟨q, rest, hp, -⟩ := hf.pending
      rw [after_task hp] at hstate
      cases hstate
    · rw [hfresh.state] at hstate
      cases hstate
  · exact halfClosing_after hhalf hran ht hen

theorem keeping_halfClosing_run {sockfd : ℤ} {writeComplete highWater : Bool} {mark : ℕ}
    {ls : List (Label τ β)}
    (hls : Lts.Along step KeepsDown (init sockfd writeComplete highWater mark) ls)
    (h : Lts.exec step (init sockfd writeComplete highWater mark) ls = some s) :
    s.Keeping ∧ s.HalfClosing := by
  refine Lts.guarded_inv (I := fun s => s.Keeping ∧ s.HalfClosing)
    (fun _ _ => keeping_halfClosing_after) ⟨keeping_init _ _ _ _, fun hs => ?_⟩ hls h
  cases hs

/-- **The half-close is neither early nor forgotten.**  While the connection is not down, a step
issues `shutdown(SHUT_WR)` only when it leaves `outputBuffer_` empty; and in state `kDisconnecting`,
when no `shutdownInLoop` is pending, the half-close was issued, or the buffer has something and the
channel waits for `EPOLLOUT`, and the `handleWrite` that drains it issues the half-close. -/
theorem half_close_on_time {sockfd : ℤ} {writeComplete highWater : Bool} {mark : ℕ}
    {ls : List (Label τ β)} {s : Session τ β}
    (hls : Lts.Along step KeepsDown (init sockfd writeComplete highWater mark) ls)
    (h : Lts.exec step (init sockfd writeComplete highWater mark) ls = some s) :
    ((s.conn.state_ = .kConnected ∨ s.conn.state_ = .kDisconnecting) →
      ∀ l s', step s l = some s' → Fin s s' → s'.conn.outputBuffer_.readableBytes = 0) ∧
    (s.conn.state_ = .kDisconnecting → ¬ s.ShutdownPending →
      .shutdownWrite ∈ s.log ∨
        (0 < s.conn.outputBuffer_.readableBytes ∧ s.conn.channel_.isWriting = true ∧
          ∀ r, s.conn.outputBuffer_.readableBytes ≤ r.nwrote →
            .shutdownWrite ∈ (s.conn.handleWrite r).2)) := by
  obtain ⟨hkeep, hhalf⟩ := keeping_halfClosing_run hls h
  constructor
  · intro hs l s' hstep hfin
    obtain ⟨-, rfl⟩ := Lts.guarded_eq_some.1 hstep
    have hne : s.conn.state_ ≠ .kDisconnected := by rcases hs with hs | hs <;> simp [hs]
    obtain ⟨-, ht⟩ := hkeep.phase.resolve_left fun hf => by
      rcases hs with hs | hs <;> simp [hf.state] at hs
    rw [OkBuffer.readableBytes_eq, content_of_fin ht hne hfin]
    rfl
  · intro hs hpend
    have hne : s.conn.state_ ≠ .kDisconnected := by simp [hs]
    obtain ⟨-, ht⟩ := hkeep.phase.resolve_left fun hf => by simp [hf.state] at hs
    refine ((hhalf hs).resolve_left hpend).imp_right fun hcontent => ?_
    have hw := (ht.armed hne).2 hcontent
    have hpos : 0 < s.conn.outputBuffer_.readableBytes := by
      rw [OkBuffer.readableBytes_eq]
      exact List.length_pos_iff.2 hcontent
    refine ⟨hpos, hw, fun r hr => (TcpConnection.fin_handleWrite _ _).2 ⟨?_, hs⟩⟩
    simp [TcpConnection.drains, hw, hr]
    omega

/-- `shutdown()` with data in the buffer: the half-close is left to `handleWrite`. -/
private def drainingRun : List (Label Unit ℕ) :=
  [.task (.sent 0), .send [1, 2, 3] (.sent 1), .shutdown, .poll EPOLLOUT, .handleEvent,
    .writeCallback (.sent 1), .poll EPOLLOUT, .handleEvent]

theorem half_close_on_time_draining :
    ∃ s : Session Unit ℕ, Lts.exec step (init 5 false false 100) drainingRun = some s ∧
      s.conn.outputBuffer_.content = [3] ∧ s.conn.channel_.isWriting = true ∧
      ∀ s', step s (.writeCallback (.sent 1)) = some s' → Fin s s' ∧
        s'.conn.outputBuffer_.readableBytes = 0 := by
  have hrun : (Lts.exec step (init 5 false false 100) drainingRun).any (fun s =>
      s.conn.state_ == .kDisconnecting && s.conn.outputBuffer_.content == [3] &&
        s.pending.isEmpty && (s.caller ()).isIdle && !s.log.contains .shutdownWrite) = true := by
    decide +kernel
  have hls : Lts.Along step KeepsDown (init 5 false false 100 : Session Unit ℕ) drainingRun := by
    decide +kernel
  obtain ⟨s, hs, hp⟩ := Lts.exec_of_any hrun
  simp only [Bool.and_eq_true, beq_iff_eq, Bool.not_eq_true', List.contains_eq_mem,
    decide_eq_false_iff_not, List.isEmpty_iff] at hp
  obtain ⟨⟨⟨⟨hstate, hcontent⟩, hpend⟩, hidle⟩, hlog⟩ := hp
  have hnone : ¬ s.ShutdownPending := by
    rintro (⟨e, he, -⟩ | ⟨t, ht⟩)
    · rw [hpend] at he
      cases he
    · cases hc : s.caller t <;> simp_all [Caller.isIdle, Caller.task]
  obtain ⟨hearly, hforgotten⟩ := half_close_on_time hls hs
  obtain ⟨-, hw, hdrain⟩ := (hforgotten hstate hnone).resolve_left hlog
  refine ⟨s, hs, hcontent, hw, fun s' hstep => ?_⟩
  have hfin : Fin s s' := by
    obtain ⟨-, rfl⟩ := Lts.guarded_eq_some.1 hstep
    refine (fin_iff rfl).2 (hdrain (.sent 1) ?_)
    rw [OkBuffer.readableBytes_eq, hcontent]
    exact le_rfl
  exact ⟨hfin, hearly (Or.inr hstate) _ s' hstep hfin⟩

end Session

end Muduo
