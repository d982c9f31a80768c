import MuduoCpp.Confinement

/-!
# After the destruction of the server

The close callback of a connection, and the task `removeConnectionInLoop` that it queues on the base
loop, hold a bare pointer to the server.  `~TcpServer` neither takes the task out of the queue nor
waits for it; the io loops end before `~TcpServer` does, but the base loop goes on.

* `Settled`: what must hold on the loops that still run when `~TcpServer` has finished;
* `removal_after_destruction`: a run in which it does not;
* `no_removal_after_destruction`: then no removal runs any more.
-/

namespace Muduo

namespace TcpServer

variable {L β : Type}

/-- A functor that does not come back to the server and leaves the epoll set as it is: the data of a
`send` would register the channel of a connection that is not down. -/
def Harmless (s : TcpServer L β) : Functor β → Prop
  | .run task c => task ≠ .connectEstablished ∧
      ((s.conns c).conn.state_ = .kDisconnected ∨ task.sendBytes = [])
  | .removeConnectionInLoop _ => False
  | .listen => True

/-- A callback that leaves the epoll set as it is, and closes the connection only if its read comes
to the end of the stream. -/
def Idle (s : TcpServer L β) (e : ℕ × Callback) : Prop :=
  e.2 ≠ .closeCallback_ ∧
    (e.2 = .writeCallback_ → (s.conns e.1).conn.channel_.isWriting = false)

/-- The callbacks that a loop in this phase still has to run for the events of its last poll. -/
def callbacks (s : TcpServer L β) (phase : Phase β) : List (ℕ × Callback) :=
  phase.running ++ phase.activeChannels_.flatMap fun c =>
    (Channel.handleEventWithGuard (s.conns c).conn.channel_.revents_).map fun k => (c, k)

/-- On the loops that still run, nothing is left that could close a connection. -/
structure Settled (s : TcpServer L β) : Prop where
  epoll : ∀ l, (s.loops l).exited = false → ∀ fd, (s.loops l).poller.epollfd_ fd = none
  idle : ∀ l, (s.loops l).exited = false → ∀ e ∈ s.callbacks (s.loops l).phase, s.Idle e
  tasks : ∀ l, (s.loops l).exited = false → ∀ f ∈ (s.loops l).todo, s.Harmless f
  calm : ∀ c < s.made, (s.loops (s.conns c).loop_).exited = false →
    (s.conns c).conn.state_ ≠ .kConnected

/-- `~TcpServer` finishes when the running loops are settled.  Afterwards no callback that is left
reads the end of the stream, and a public call that has read `kConnected` before makes no data of a
`send` wait for a connection that is not down. -/
def Settles (s : TcpServer L β) : Label L β → Prop
  | .destroyed => s.Settled
  | .callback l read _ => s.stage = .destroyed → read = .data [] →
      ∀ e ∈ (s.loops l).phase.running.head?, e.2 ≠ .readCallback_
  | .store c => s.stage = .destroyed → (s.loops (s.conns c).loop_).exited = true ∨
      ∀ task, .run task c ∈ (s.loops (s.conns c).loop_).todo → task.sendBytes = []
  | .push c task => s.stage = .destroyed →
      (s.loops (s.conns c).loop_).exited = true ∨ s.Harmless (.run task c)
  | _ => True

variable {s s' : TcpServer L β} {c : ℕ} {l : L} {t : Option L}

/-- No removal is recorded. -/
def Spares (s s' : TcpServer L β) : Prop :=
  ∀ e ∈ s'.trace, e.2 = .removes .destroyed → e ∈ s.trace

theorem callbacks_congr
    (h : ∀ d, (s'.conns d).conn.channel_.revents_ = (s.conns d).conn.channel_.revents_)
    (phase : Phase β) : s'.callbacks phase = s.callbacks phase := by
  simp only [callbacks, h]

/-- A step that takes no running loop out of its rest. -/
theorem settled_of (h : s.Settled) (hs : s.Confined) (hmade : s'.made = s.made)
    (hloop : ∀ d, (s'.conns d).loop_ = (s.conns d).loop_)
    (hexited : ∀ k, (s'.loops k).exited = (s.loops k).exited)
    (hepoll : ∀ k, (s.loops k).exited = false → ∀ fd, (s'.loops k).poller.epollfd_ fd = none)
    (hcallbacks : ∀ k, (s.loops k).exited = false →
      ∀ e ∈ s'.callbacks (s'.loops k).phase, e ∈ s.callbacks (s.loops k).phase)
    (htodo : ∀ k, (s.loops k).exited = false →
      ∀ f ∈ (s'.loops k).todo, f ∈ (s.loops k).todo ∨ s'.Harmless f)
    (hwriting : ∀ d, (s'.conns d).conn.channel_.isWriting = (s.conns d).conn.channel_.isWriting)
    (hstate : ∀ d, (s.loops (s.conns d).loop_).exited = false →
      (s'.conns d).conn.state_ = (s.conns d).conn.state_) : s'.Settled := by
  refine ⟨fun k hk => hepoll k (hexited k ▸ hk), fun k hk e he => ?_, fun k hk f hf => ?_,
    fun d hd hk => ?_⟩
  · rw [hexited] at hk
    obtain ⟨hclose, hwrite⟩ := h.idle k hk e (hcallbacks k hk e he)
    exact ⟨hclose, fun hw => (hwriting e.1).trans (hwrite hw)⟩
  · rw [hexited] at hk
    rcases htodo k hk f hf with hold | hnew
    · have hharm := h.tasks k hk f hold
      cases f with
      | run task d =>
        -- the functor is queued on the loop of its connection
        have hl : k = (s.conns d).loop_ := (hs.located k _ hold).2
        exact ⟨hharm.1, hharm.2.imp_left ((hstate d (hl ▸ hk)).trans ·)⟩
      | removeConnectionInLoop d => exact hharm
      | listen => trivial
    · exact hnew
  · rw [hloop, hexited] at hk
    rw [hstate d hk]
    exact h.calm d (hmade ▸ hd) hk

/-! ### Steps on settled loops -/

section Steps

variable [DecidableEq L]

/-- A loop goes on, with no new callback. -/
theorem settled_modifyLoop (h : s.Settled) (hs : s.Confined) {f : Loop β → Loop β}
    (hexited : (f (s.loops l)).exited = (s.loops l).exited)
    (hpoller : (f (s.loops l)).poller = (s.loops l).poller)
    (hcallbacks : (s.loops l).exited = false →
      ∀ e ∈ s.callbacks (f (s.loops l)).phase, e ∈ s.callbacks (s.loops l).phase)
    (htodo : (s.loops l).exited = false →
      ∀ g ∈ (f (s.loops l)).todo, g ∈ (s.loops l).todo ∨ s.Harmless g) :
    (s.modifyLoop l f).Settled := by
  refine settled_of h hs rfl (fun _ => rfl) (fun k => ?_) (fun k hk => ?_) (fun k hk e he => ?_)
    (fun k hk g hg => ?_) (fun _ => rfl) fun _ _ => rfl
  · rw [loops_modifyLoop]
    split_ifs with hkl
    · rw [hkl, hexited]
    · rfl
  · rw [loops_modifyLoop]
    split_ifs with hkl
    · subst hkl
      rw [hpoller]
      exact h.epoll k hk
    · exact h.epoll k hk
  · rw [loops_modifyLoop] at he
    split_ifs at he with hkl
    · subst hkl
      exact hcallbacks hk e he
    · exact he
  · rw [loops_modifyLoop] at hg
    split_ifs at hg with hkl
    · subst hkl
      exact htodo hk g hg
    · exact Or.inl hg

/-- On a loop that has gone, anything may be queued. -/
theorem settled_queueInLoop (h : s.Settled) (hs : s.Confined) {f : Functor β}
    (hf : (s.loops l).exited = true ∨ s.Harmless f) : (s.queueInLoop l f).Settled := by
  refine settled_modifyLoop h hs rfl rfl (fun _ _ he => he) fun hk g hg => ?_
  simp only [Loop.todo, List.mem_append, List.mem_singleton] at hg ⊢
  rcases hg with hg | hg | rfl
  · exact Or.inl (Or.inl hg)
  · exact Or.inl (Or.inr hg)
  · refine Or.inr (hf.resolve_left fun hgone => ?_)
    rw [hgone] at hk
    cases hk

omit [DecidableEq L] in
/-- The store of a `shutdown()`, when no data of a `send` waits on a running loop. -/
theorem settled_store (h : s.Settled) (hs : s.Confined)
    (hc : (s.loops (s.conns c).loop_).exited = true ∨
      ∀ task, .run task c ∈ (s.loops (s.conns c).loop_).todo → task.sendBytes = []) :
    (s.setConn c { (s.conns c).conn with state_ := .kDisconnecting }).Settled := by
  have hself : ((s.setConn c { (s.conns c).conn with state_ := .kDisconnecting }).conns c).conn =
      { (s.conns c).conn with state_ := .kDisconnecting } := by
    rw [conns_setConn, Function.update_self]
  have hother : ∀ d, d ≠ c →
      (s.setConn c { (s.conns c).conn with state_ := .kDisconnecting }).conns d = s.conns d :=
    fun d hd => Function.update_of_ne hd _ _
  have hloops : (s.setConn c { (s.conns c).conn with state_ := .kDisconnecting }).loops = s.loops :=
    rfl
  have hmade : (s.setConn c { (s.conns c).conn with state_ := .kDisconnecting }).made = s.made :=
    rfl
  generalize s.setConn c { (s.conns c).conn with state_ := .kDisconnecting } = u
    at hself hother hloops hmade ⊢
  have hchan : ∀ d, (u.conns d).conn.channel_ = (s.conns d).conn.channel_ := by
    intro d
    by_cases hd : d = c
    · rw [hd, hself]
    · rw [hother d hd]
  refine ⟨fun k hk => ?_, fun k hk e he => ?_, fun k hk f hf => ?_, fun d hd hk => ?_⟩
  · rw [hloops] at hk ⊢
    exact h.epoll k hk
  · rw [callbacks_congr fun d => congrArg Channel.revents_ (hchan d)] at he
    rw [hloops] at hk he
    obtain ⟨hclose, hwrite⟩ := h.idle k hk e he
    exact ⟨hclose, fun hw => (congrArg Channel.isWriting (hchan e.1)).trans (hwrite hw)⟩
  · rw [hloops] at hk hf
    have hharm := h.tasks k hk f hf
    cases f with
    | run task d =>
      by_cases hd : d = c
      · -- the functor is queued on the loop of its connection
        subst hd
        obtain rfl : k = (s.conns d).loop_ := (hs.located k _ hf).2
        refine ⟨hharm.1, Or.inr (hc.elim (fun hgone => ?_) fun hnone => hnone task hf)⟩
        rw [hgone] at hk
        cases hk
      · rw [Harmless, hother d hd]
        exact hharm
    | removeConnectionInLoop d => exact hharm
    | listen => trivial
  · by_cases hdc : d = c
    · rw [hdc, hself]
      simp
    · rw [hother d hdc, hloops] at hk
      rw [hother d hdc]
      exact h.calm d (hmade ▸ hd) hk

/-- A function that leaves the state and the channel as they are. -/
theorem settled_perform (h : s.Settled) (hs : s.Confined)
    {res : TcpConnection β × List (Effect β)} (hstate : res.1.state_ = (s.conns c).conn.state_)
    (hchan : res.1.channel_ = (s.conns c).conn.channel_)
    (hreg : ∀ e ∈ res.2, e.registers = false ∨ e = .remove)
    (hq : TcpConnection.QueuesOwn res.2) : (s.perform t c res).Settled := by
  obtain ⟨i, hi⟩ :=
    Effect.foldl_register c res.2 ((s.loops (s.conns c).loop_).poller, res.1.channel_)
  have hconn : ∀ d, ∃ j, ((s.perform t c res).conns d).conn.channel_ =
      { (s.conns d).conn.channel_ with index_ := j } := by
    intro d
    by_cases hd : d = c
    · subst hd
      refine ⟨i, ?_⟩
      rw [conns_perform, Function.update_self, ← hchan]
      exact hi
    · refine ⟨(s.conns d).conn.channel_.index_, ?_⟩
      rw [conns_perform, Function.update_of_ne hd]
  have hrevents : ∀ d, ((s.perform t c res).conns d).conn.channel_.revents_ =
      (s.conns d).conn.channel_.revents_ := by
    intro d
    obtain ⟨j, hj⟩ := hconn d
    rw [hj]
  refine settled_of h hs rfl (fun d => ?_) (fun k => ?_) (fun k hk => ?_) (fun k hk e he => ?_)
    (fun k hk f hf => ?_) (fun d => ?_) fun d _ => ?_
  · rw [conns_perform, Function.update_apply]
    split_ifs with hd
    · rw [hd]
    · rfl
  · rw [loops_perform]
    split_ifs with hk
    · rw [hk]
    · rfl
  · rw [loops_perform]
    split_ifs with hkl
    · subst hkl
      exact Effect.epollfd_foldl_register hreg (h.epoll _ hk)
    · exact h.epoll k hk
  · rw [callbacks_congr hrevents, loops_perform] at he
    split_ifs at he with hkl
    · rw [hkl]
      exact he
    · exact he
  · rw [todo_perform, List.mem_append] at hf
    refine hf.imp_right fun hf => ?_
    split_ifs at hf
    · obtain ⟨task, htask, rfl⟩ := List.mem_map.1 hf
      refine ⟨?_, Or.inr (Task.sendBytes_of_isOwn (hq task htask)).1⟩
      rintro rfl
      cases hq _ htask
    · cases hf
  · obtain ⟨j, hj⟩ := hconn d
    rw [hj]
    rfl
  · by_cases hd : d = c
    · rw [hd, state_perform, hstate]
    · rw [conns_perform, Function.update_of_ne hd]

omit [DecidableEq L] in
theorem settled_markDestroyed (h : s.Settled) (hs : s.Confined) :
    (s.markDestroyed t c).Settled := by
  have hconn : ∀ d, ((s.markDestroyed t c).conns d).conn = (s.conns d).conn ∧
      ((s.markDestroyed t c).conns d).loop_ = (s.conns d).loop_ := by
    intro d
    rw [conns_markDestroyed, Function.update_apply]
    split_ifs with hd
    · rw [hd]
      exact ⟨rfl, rfl⟩
    · exact ⟨rfl, rfl⟩
  refine settled_of h hs rfl (fun d => (hconn d).2) (fun _ => rfl) (fun k hk => h.epoll k hk)
    (fun k _ e he => ?_) (fun _ _ _ hg => Or.inl hg) (fun d => ?_) fun d _ => ?_
  · rwa [callbacks_congr fun d => congrArg (·.channel_.revents_) (hconn d).1] at he
  · rw [(hconn d).1]
  · rw [(hconn d).1]

variable [Inhabited β]

/-- A task of a connection that is not connected. -/
theorem settled_runTask (h : s.Settled) (hs : s.Confined) {task : Task β}
    (hf : s.Harmless (.run task c)) (hc : c < s.made) (ht : t = some (s.conns c).loop_)
    (hl : (s.loops (s.conns c).loop_).exited = false) (r : WriteResult) :
    (s.runTask t c task r).Settled := by
  obtain ⟨hest, hdata⟩ := hf
  obtain ⟨hsame, hes⟩ := TcpConnection.runTask_of_not_connected (h.calm c hc hl) hdata r hest
  have hperform : (s.perform t c ((s.conns c).conn.runTask r task)).Settled :=
    settled_perform h hs (congrArg _ hsame) (congrArg _ hsame)
      (fun e he => (hes e he).imp_left And.right) (TcpConnection.queuesOwn_runTask _ _ _)
  unfold runTask
  cases task with
  | connectDestroyed =>
    exact settled_markDestroyed hperform
      ((acts_perform ht (TcpConnection.updates_runTask _ _ _)).confined hs hc)
  | _ => exact hperform

omit [Inhabited β] in
theorem spares_perform {res : TcpConnection β × List (Effect β)} :
    s.Spares (s.perform t c res) := by
  intro e he hr
  refine (List.mem_append.1 he).resolve_right fun he => ?_
  obtain ⟨act, hact, rfl⟩ := List.mem_map.1 he
  rcases List.mem_cons.1 hact with rfl | hact
  · cases hr
  · split_ifs at hact
    · rw [List.mem_singleton.1 hact] at hr
      cases hr
    · cases hact

theorem spares_runTask {task : Task β} {r : WriteResult} : s.Spares (s.runTask t c task r) := by
  have hperform : s.Spares (s.perform t c ((s.conns c).conn.runTask r task)) := spares_perform
  unfold runTask
  cases task with
  | _ => exact hperform

/-- A callback that is left from the last poll. -/
theorem settled_callback (h : s.Settled) (hs : s.Confined) {active : List ℕ} {k : Callback}
    {rest : List (ℕ × Callback)} (hl : (s.loops l).exited = false)
    (hp : (s.loops l).phase = .dispatching active ((c, k) :: rest)) {read : ReadResult β}
    (hread : read = .data [] → k ≠ .readCallback_) (write : WriteResult) :
    ((s.setPhase l (.dispatching active rest)).runCallback (some l) c k read write).Settled ∧
      ((s.setPhase l (.dispatching active rest)).runCallback (some l) c k read write).stage =
          s.stage ∧
      s.Spares ((s.setPhase l (.dispatching active rest)).runCallback (some l) c k read write) := by
  have hmem : (c, k) ∈ s.callbacks (s.loops l).phase := by simp [callbacks, hp, Phase.running]
  obtain ⟨hclose, hwrite⟩ := h.idle l hl _ hmem
  obtain ⟨hstate, hchan, hes⟩ := TcpConnection.runCallback_of_idle (c := (s.conns c).conn) hclose
    (fun hk hr => hread hr hk) hwrite write
  have hpop : (s.setPhase l (.dispatching active rest)).Settled := by
    refine settled_modifyLoop h hs rfl rfl (fun _ e he => ?_) fun _ g hg => Or.inl ?_
    · simp only [callbacks, Phase.running, Phase.activeChannels_, hp, List.mem_append,
        List.mem_cons] at he ⊢
      exact he.imp_left Or.inr
    · simpa [Loop.todo, Phase.functors, hp] using hg
  obtain ⟨hc, -⟩ := hs.dispatched l c (by simp [Loop.dispatched, Phase.running, hp])
  have hconf : (s.setPhase l (.dispatching active rest)).Confined :=
    (acts_popCallback (K := fun _ => True) hp).confined hs hc
  have hnone : ¬ ((s.conns c).conn.runCallback read write k).2.any Effect.isClose = true := by
    rw [List.any_eq_true]
    rintro ⟨e, he, hclosed⟩
    rw [hes e he] at hclosed
    cases hclosed
  have hrun : (s.setPhase l (.dispatching active rest)).runCallback (some l) c k read write =
      (s.setPhase l (.dispatching active rest)).perform (some l) c
        ((s.conns c).conn.runCallback read write k) := if_neg hnone
  rw [hrun]
  refine ⟨settled_perform hpop hconf hstate hchan (fun e he => ?_) ?_, rfl, spares_perform⟩
  · rw [hes e he]
    exact Or.inl rfl
  · refine TcpConnection.queuesOwn_of_forall fun e he => Or.inr ?_
    rw [hes e he]
    rfl

theorem settled_functor (h : s.Settled) (hs : s.Confined) {f : Functor β}
    {rest done : List (Functor β)} (hl : (s.loops l).exited = false)
    (hp : (s.loops l).phase = .calling (f :: rest) done) (r : WriteResult) :
    let u := (s.setPhase l (.calling rest (done ++ [f]))).call (some l) r f
    u.Settled ∧ u.stage = s.stage ∧ s.Spares u := by
  have hmem : f ∈ (s.loops l).todo := by simp [Loop.todo, Phase.functors, hp]
  have hharm := h.tasks l hl f hmem
  have hpop : (s.setPhase l (.calling rest (done ++ [f]))).Settled := by
    refine settled_modifyLoop h hs rfl rfl (fun _ e he => ?_) fun _ g hg => Or.inl ?_
    · cases he
    · simp only [Loop.todo, Phase.functors, hp, List.mem_append, List.mem_cons] at hg ⊢
      tauto
  obtain ⟨hmade, hhome⟩ := hs.located l f hmem
  cases f with
  | run task c =>
    have hconf : (s.setPhase l (.calling rest (done ++ [.run task c]))).Confined :=
      (acts_popFunctor (K := fun _ => True) hp rfl).confined hs (hmade c rfl)
    generalize hu : s.setPhase l (.calling rest (done ++ [.run task c])) = u at hpop hconf ⊢
    have hsame : u.stage = s.stage ∧ u.trace = s.trace ∧ u.made = s.made ∧ u.conns = s.conns := by
      rw [← hu]
      exact ⟨rfl, rfl, rfl, rfl⟩
    have hloop : some l = some (u.conns c).loop_ := by
      rw [hsame.2.2.2]
      exact congrArg some hhome
    have hharm' : u.Harmless (.run task c) := by
      unfold Harmless at hharm ⊢
      rwa [hsame.2.2.2]
    have hrunning : (u.loops (u.conns c).loop_).exited = false := by
      rw [← Option.some.inj hloop, ← hu, setPhase, loops_modifyLoop, if_pos rfl]
      exact hl
    refine ⟨settled_runTask hpop hconf hharm' (hsame.2.2.1 ▸ hmade c rfl) hloop hrunning r,
      (acts_runTask hloop).stage.trans hsame.1, fun e he hr => ?_⟩
    exact hsame.2.1 ▸ spares_runTask e he hr
  | removeConnectionInLoop c => exact hharm.elim
  | listen =>
    refine ⟨⟨hpop.epoll, hpop.idle, hpop.tasks, hpop.calm⟩, rfl, fun e he hr => ?_⟩
    refine (List.mem_append.1 he).resolve_right fun he => ?_
    rw [List.mem_singleton.1 he] at hr
    cases hr

variable [Fintype L]

omit [DecidableEq L] [Inhabited β] in
/-- The callbacks of the next channel are those of its mask, or none. -/
theorem callbacks_handleEvent {rest : List ℕ} (e : ℕ × Callback)
    (he : e ∈ s.callbacks (.dispatching rest
      (((s.conns c).conn.channel_.handleEvent (s.Held c)).map fun k => (c, k)))) :
    e ∈ s.callbacks (.dispatching (c :: rest) []) := by
  simp only [callbacks, Phase.running, Phase.activeChannels_, List.flatMap_cons, List.mem_append,
    List.nil_append] at he ⊢
  refine he.imp_left fun he => ?_
  obtain ⟨k, hk, rfl⟩ := List.mem_map.1 he
  refine List.mem_map.2 ⟨k, ?_, rfl⟩
  unfold Channel.handleEvent at hk
  split_ifs at hk
  · exact hk
  · cases hk
  · exact hk

/-- A step after `~TcpServer` has finished. -/
theorem settled_step {a : Label L β} (h : s.Settled) (hs : s.Confined)
    (hstage : s.stage = .destroyed) (ha : s.Settles a) (hst : s.step a = some s') :
    s'.Settled ∧ s'.stage = .destroyed ∧ s.Spares s' := by
  obtain ⟨hrun, hst⟩ := step_eq_some.1 hst
  have hrunning : ∀ l, a.thread s = some l → (s.loops l).exited = false := by
    intro l hl
    rw [hl] at hrun
    simpa [stopped, hstage] using hrun
  have hquiet : ∀ e ∈ s.trace, e.2 = .removes .destroyed → e ∈ s.trace := fun _ he _ => he
  have hgone : ∀ c, s.Alive c → (s.conns c).conn.state_ = .kConnected →
      (s.loops (s.conns c).loop_).exited = true ∧ a.thread s ≠ some (s.conns c).loop_ := by
    intro c hc hconn
    have hex : (s.loops (s.conns c).loop_).exited = true := by
      by_contra hex
      exact h.calm c hc.1 (Bool.eq_false_iff.2 hex) hconn
    refine ⟨hex, fun ht => ?_⟩
    rw [hrunning _ ht] at hex
    cases hex
  cases does_of_next hst with
  | @poll l events hp hevents =>
    have hl := hrunning l rfl
    -- nothing is in the epoll set
    have hnil : events = [] := by
      refine List.eq_nil_iff_forall_not_mem.2 fun e he => ?_
      have := hevents e he
      rw [h.epoll l hl] at this
      cases this
    subst hnil
    have hset : (s.setPhase l (.dispatching [] [])).Settled := by
      refine settled_modifyLoop h hs rfl rfl (fun _ e he => ?_) fun _ g hg => Or.inl ?_
      · cases he
      · simpa [Loop.todo, Phase.functors, hp] using hg
    exact ⟨hset, hstage, hquiet⟩
  | handleEvent hp =>
    refine ⟨settled_modifyLoop h hs rfl rfl (fun _ e he => ?_) fun _ g hg => Or.inl ?_, hstage,
      hquiet⟩
    · rw [hp]
      exact callbacks_handleEvent e he
    · simpa [Loop.todo, Phase.functors, hp] using hg
  | callback read write hp =>
    have hread : read = .data [] → _ := fun hr => ha hstage hr _ (by rw [hp]; exact rfl)
    obtain ⟨hset, hst, hspares⟩ := settled_callback h hs (hrunning _ rfl) hp hread write
    exact ⟨hset, hst.trans hstage, hspares⟩
  | swap hp | finish hp =>
    refine ⟨settled_modifyLoop h hs rfl rfl (fun _ e he => ?_) fun _ g hg => Or.inl ?_, hstage,
      hquiet⟩
    · cases he
    · simpa [Loop.todo, Phase.functors, hp] using hg
  | functor r hp =>
    obtain ⟨hset, hst, hspares⟩ := settled_functor h hs (hrunning _ rfl) hp r
    exact ⟨hset, hst.trans hstage, hspares⟩
  | call r hc hconn ht =>
    obtain ⟨hex, hne⟩ := hgone _ hc hconn
    rw [runInLoop_of_ne hne]
    exact ⟨settled_queueInLoop h hs (Or.inl hex), hstage, hquiet⟩
  | @shutdown t c hc hconn =>
    obtain ⟨hex, hne⟩ := hgone c hc hconn
    have hact : s.Acts (s.setConn c { (s.conns c).conn with state_ := .kDisconnecting }) c
        fun _ => True := acts_setState .kDisconnecting
    rw [← hact.loopOf] at hne
    rw [runInLoop_of_ne (t := t) hne]
    refine ⟨settled_queueInLoop (settled_store h hs (Or.inl hex)) (hact.confined hs hc.1)
      (Or.inl ?_),
      hstage, hquiet⟩
    rw [hact.loopOf]
    exact hex
  | nothing => exact ⟨h, hstage, hquiet⟩
  | store hc hup => exact ⟨settled_store h hs (ha hstage), hstage, hquiet⟩
  | push hc hup ht => exact ⟨settled_queueInLoop h hs (ha hstage), hstage, hquiet⟩
  | user user => exact ⟨⟨h.epoll, h.idle, h.tasks, h.calm⟩, hstage, hquiet⟩
  | start t hs' | newConnection highWater mark hp hs' hfd | destroy hs' hconns | exit hp hs' hl
    | destroyed hs' => cases hs'.symm.trans hstage

omit [Fintype L] in
theorem stage_runTask {task : Task β} {r : WriteResult} :
    (s.runTask t c task r).stage = s.stage := by
  have hperform : (s.perform t c ((s.conns c).conn.runTask r task)).stage = s.stage := rfl
  unfold runTask
  cases task with
  | _ => exact hperform

omit [Fintype L] [Inhabited β] in
theorem stage_poll (events : List (ℤ × Events)) : (s.poll l events).stage = s.stage := by
  refine poll_inv (I := fun u => u.stage = s.stage) rfl (fun u e active _ hu => ?_) events
  refine Eq.trans ?_ hu
  unfold activate
  split <;> rfl

/-- Only the destructor ends the life of the server. -/
theorem stage_next {a : Label L β} (hst : s.next a = some s') :
    s'.stage = s.stage ∨ s'.stage = .joining ∨ a = .destroyed := by
  cases does_of_next hst with
  | start t hs => exact Or.inl frames_start.stage
  | poll hp he => exact Or.inl (stage_poll _)
  | newConnection highWater mark hp hs hfd => exact Or.inl acts_runInLoop.stage
  | @callback l active c k rest read write hp =>
    left
    unfold runCallback
    simp only
    split_ifs
    · exact acts_removeConnection.stage
    · rfl
  | @functor l f rest done r hp =>
    left
    cases f with
    | run task c => exact stage_runTask
    | removeConnectionInLoop c => rfl
    | listen => rfl
  | call r hc hconn ht => exact Or.inl acts_runInLoop.stage
  | shutdown hc hconn => exact Or.inl acts_runInLoop.stage
  | handleEvent | swap | finish | nothing | store | push | user | exit => exact Or.inl rfl
  | destroy hs hconns => exact Or.inr (Or.inl rfl)
  | destroyed hs => exact Or.inr (Or.inr rfl)

/-- A server that is alive was so before. -/
theorem alive_of_next {a : Label L β} (hst : s.next a = some s') (halive : s'.stage = .alive) :
    s.stage = .alive := by
  rcases stage_next hst with hsame | hjoin | rfl
  · exact hsame.symm.trans halive
  · cases hjoin.symm.trans halive
  · simp only [next, Option.ite_none_right_eq_some, Option.some.injEq] at hst
    obtain ⟨-, rfl⟩ := hst
    cases halive

/-- Before the server has gone no removal has run too late, and afterwards none will. -/
structure Guarded (s : TcpServer L β) : Prop where
  confined : s.Confined
  settled : s.stage = .destroyed → s.Settled
  trace : ∀ e ∈ s.trace, e.2 ≠ .removes .destroyed

theorem guarded_step {a : Label L β} (h : s.Guarded) (ha : s.Settles a) (hst : s.step a = some s') :
    s'.Guarded := by
  have hnext := (step_eq_some.1 hst).2
  have hconf := confined_next h.confined hnext
  by_cases hstage : s.stage = .destroyed
  · obtain ⟨hset, -, hspares⟩ := settled_step (h.settled hstage) h.confined hstage ha hst
    exact ⟨hconf, fun _ => hset, fun e he hr => h.trace e (hspares e he hr) hr⟩
  by_cases hlast : s'.stage = .destroyed
  · -- this step is the end of `~TcpServer`
    have : a = .destroyed := by
      rcases stage_next hnext with hsame | hjoin | ha
      · exact absurd (hsame.symm.trans hlast) hstage
      · rw [hjoin] at hlast
        cases hlast
      · exact ha
    subst this
    simp only [next, Option.ite_none_right_eq_some, Option.some.injEq] at hnext
    obtain ⟨-, rfl⟩ := hnext
    have hset : s.Settled := ha
    refine ⟨hconf, fun _ => ⟨hset.epoll, hset.idle, hset.tasks, hset.calm⟩, fun e he hr => ?_⟩
    rcases List.mem_append.1 he with he | he
    · exact h.trace e he hr
    · rw [List.mem_singleton.1 he] at hr
      cases hr
  · exact ⟨hconf, fun hs => absurd hs hlast, fun e he hr => hlast (hconf.removes e he hr)⟩

/-- **No removal after the destruction**, in a run in which the loops are settled when `~TcpServer`
has finished. -/
theorem no_removal_after_destruction {loop_ : L} {loops_ : List L} {ipPort_ name_ : String}
    {writeComplete : Bool} {ls : List (Label L β)} {s : TcpServer L β}
    (hls : Lts.Along step Settles
      (init loop_ loops_ ipPort_ name_ writeComplete : TcpServer L β) ls)
    (h : Lts.exec step (init loop_ loops_ ipPort_ name_ writeComplete) ls = some s) :
    ∀ e ∈ s.trace, e.2 ≠ .removes .destroyed :=
  (Lts.exec_inv (I := Guarded) (fun _ _ _ hu ha hst => guarded_step hu ha hst)
    ⟨confined_init _ _ _ _ _, fun hs => (by cases hs), fun e he => (by cases he)⟩ hls h).trace

/-- The peer of a connection on the io loop `false` hangs up; before the base loop comes to the
removal, its thread destroys the server. -/
private def lateRemovalRun : List (Label Bool ℕ) :=
  [.start (some true), .poll true [], .newConnection 9 false 0, .poll false [], .swap false,
    .functor false (.sent 0), .finish false, .poll false [(9, EPOLLHUP)], .handleEvent false,
    .callback false .failed (.sent 0), .destroy [0], .swap false, .functor false (.sent 0),
    .finish false, .exit false, .destroyed, .swap true, .functor true (.sent 0)]

theorem removal_after_destruction :
    ∃ s : TcpServer Bool ℕ, Lts.exec step (init true [false] "" "" false) lateRemovalRun = some s ∧
      ∃ e ∈ s.trace, e.2 = .removes .destroyed := by
  have hrun : (Lts.exec step (init true [false] "" "" false) lateRemovalRun).any (fun s =>
      s.trace.any fun e => e.2 = .removes .destroyed) = true := by
    decide +kernel
  obtain ⟨s, hs, hp⟩ := Lts.exec_of_any hrun
  obtain ⟨e, he, hr⟩ := List.any_eq_true.1 hp
  exact ⟨s, hs, e, he, of_decide_eq_true hr⟩

/-- The same, with the removal before the destruction. -/
private def timelyRemovalRun : List (Label Bool ℕ) :=
  [.start (some true), .poll true [], .newConnection 9 false 0, .poll false [], .swap false,
    .functor false (.sent 0), .finish false, .poll false [(9, EPOLLHUP)], .handleEvent false,
    .callback false .failed (.sent 0), .swap true, .functor true (.sent 0), .finish true,
    .destroy [], .swap false, .functor false (.sent 0), .finish false, .exit false]

private theorem settled_timelyRemovalRun {s : TcpServer Bool ℕ}
    (hs : Lts.exec step (init true [false] "" "" false) timelyRemovalRun = some s) : s.Settled := by
  have hepoll : (Lts.exec step (init true [false] "" "" false) timelyRemovalRun).map
      (fun s => (s.loops true).poller.epollfd_) = some fun _ => none := rfl
  have hrest : (Lts.exec step (init true [false] "" "" false) timelyRemovalRun).any (fun s =>
      s.made == 1 && !(s.conns 0).loop_ && (s.loops false).exited && (s.loops true).todo.isEmpty &&
        (s.callbacks (s.loops true).phase).isEmpty) = true := by decide +kernel
  rw [hs] at hepoll hrest
  simp only [Option.map_some, Option.some.injEq] at hepoll
  simp only [Option.any_some, Bool.and_eq_true, beq_iff_eq, Bool.not_eq_true', List.isEmpty_iff]
    at hrest
  obtain ⟨⟨⟨⟨hmade, hloop⟩, hexited⟩, htodo⟩, hidle⟩ := hrest
  have hbase : ∀ l, (s.loops l).exited = false → l = true := by
    intro l hl
    cases l with
    | true => rfl
    | false =>
      rw [hexited] at hl
      cases hl
  refine ⟨fun l hl fd => ?_, fun l hl e he => ?_, fun l hl f hf => ?_, fun c hc hl => ?_⟩
  · rw [hbase l hl, hepoll]
  · rw [hbase l hl, hidle] at he
    cases he
  · rw [hbase l hl, htodo] at hf
    cases hf
  · have : c = 0 := by omega
    subst this
    have := hbase _ hl
    rw [hloop] at this
    cases this

theorem no_removal_after_destruction_timely :
    ∃ s : TcpServer Bool ℕ, Lts.exec step (init true [false] "" "" false)
        (timelyRemovalRun ++ [.destroyed, .poll true [], .swap true]) = some s ∧
      s.stage = .destroyed ∧ ∀ e ∈ s.trace, e.2 ≠ .removes .destroyed := by
  have hrun : (Lts.exec step (init true [false] "" "" false)
      (timelyRemovalRun ++ [.destroyed, .poll true [], .swap true])).any (fun s =>
        s.stage = .destroyed) = true := by decide +kernel
  obtain ⟨s, hs, hp⟩ := Lts.exec_of_any hrun
  have hearly : Lts.Along step Settles (init true [false] "" "" false : TcpServer Bool ℕ)
      timelyRemovalRun := by
    refine (Lts.along_of_forall (p := fun a => ∀ s : TcpServer Bool ℕ, s.Settles a) ?_).mono
      fun s a ha => ha s
    simp [timelyRemovalRun, Settles]
  refine ⟨s, hs, of_decide_eq_true hp, no_removal_after_destruction ?_ hs⟩
  refine Lts.along_append.2 ⟨hearly, fun u hu => ⟨settled_timelyRemovalRun hu, fun v _ => ?_⟩⟩
  exact ⟨trivial, fun _ _ => ⟨trivial, fun _ _ => trivial⟩⟩

end Steps

end TcpServer

end Muduo
