import MuduoCpp.TcpServer

/-!
# Thread confinement

Each step of the server is a step of one connection, of the acceptor, or of a loop between two of
these.  `Acts` says what a step of a connection may change, and `Frames` the same of the other
steps.

`thread_confinement`: every function of a connection runs on the thread of its loop, every change of
a poller on the thread of its loop, every change of `connections_` on the thread of the base loop.
Functors are queued on the loop they have to run on, and a poller has channels of its own loop only.
-/

namespace Muduo

namespace TcpServer

variable {L β : Type}

/-- The connections whose channel awaits dispatch or is being dispatched. -/
def Loop.dispatched (loop : Loop β) : List ℕ :=
  loop.phase.activeChannels_ ++ loop.phase.running.map Prod.fst

/-- Neither the first task of a connection nor one that ends it. -/
def Functor.isPlain : Functor β → Bool
  | .run .connectEstablished _ | .run .connectDestroyed _ | .removeConnectionInLoop _ => false
  | _ => true

/-- What ends a connection. -/
def Functor.isEnding : Functor β → Bool
  | .run .connectDestroyed _ | .removeConnectionInLoop _ => true
  | _ => false

/-- The functors of `c` that `l` still has to run. -/
def tasksOf (s : TcpServer L β) (l : L) (c : ℕ) : List (Functor β) :=
  (s.loops l).todo.filter fun f => f.conn = some c

/-- The loop on which a functor is queued. -/
def home (s : TcpServer L β) : Functor β → L
  | .run _ c => (s.conns c).loop_
  | .removeConnectionInLoop _ | .listen => s.loop_

/-- The poller of `l` or its epoll set has `c` at `fd`. -/
def Registered (s : TcpServer L β) (l : L) (fd : ℤ) (c : ℕ) : Prop :=
  (s.loops l).poller.channels_ fd = some c ∨
    ∃ events, (s.loops l).poller.epollfd_ fd = some ⟨events, c⟩

/-- What was recorded was done on the thread where it belongs. -/
def Proper (s : TcpServer L β) (e : Option L × Act L) : Prop :=
  match e.2 with
  | .ran c => e.1 = some (s.conns c).loop_
  | .registers l => e.1 = some l
  | .connections_ => e.1 = some s.loop_
  | .removes _ => True

/-- Functors, channels and the record are where they belong, and the body of a removal after the
server has gone is recorded as such. -/
structure Confined (s : TcpServer L β) : Prop where
  located : ∀ l, ∀ f ∈ (s.loops l).todo, (∀ c, f.conn = some c → c < s.made) ∧ l = s.home f
  dispatched : ∀ l, ∀ c ∈ (s.loops l).dispatched, c < s.made ∧ (s.conns c).loop_ = l
  registered : ∀ l fd c, s.Registered l fd c → c < s.made ∧ (s.conns c).loop_ = l
  trace : ∀ e ∈ s.trace, (∀ c, e.2 = .ran c → c < s.made) ∧ s.Proper e
  removes : ∀ e ∈ s.trace, e.2 = .removes .destroyed → s.stage = .destroyed

variable {s s' : TcpServer L β} {c d : ℕ} {l : L} {t : Option L}

theorem mem_tasksOf {f : Functor β} :
    f ∈ s.tasksOf l c ↔ f ∈ (s.loops l).todo ∧ f.conn = some c := by
  simp [tasksOf]

/-! ### Steps of one connection -/

/-- A step of `c`: what it may change.  Tasks of `c` go out of the queues, and those that come in
are of the kind `K`. -/
structure Acts (s s' : TcpServer L β) (c : ℕ) (K : Functor β → Prop) : Prop where
  made : s'.made = s.made
  loop_ : s'.loop_ = s.loop_
  stage : s'.stage = s.stage
  conns : ∀ d, d ≠ c → s'.conns d = s.conns d
  loopOf : (s'.conns c).loop_ = (s.conns c).loop_
  nameOf : (s'.conns c).name_ = (s.conns c).name_
  fdOf : (s'.conns c).conn.channel_.fd_ = (s.conns c).conn.channel_.fd_
  names : ∀ n d, s'.connections_ n = some d → s.connections_ n = some d
  tasks : ∀ l d, d ≠ c → s'.tasksOf l d = s.tasksOf l d
  added : ∀ l, ∀ f ∈ (s'.loops l).todo,
    f ∈ (s.loops l).todo ∨ (f.conn = some c ∧ l = s.home f ∧ K f)
  dispatched : ∀ l, ∀ d ∈ (s'.loops l).dispatched, d ∈ (s.loops l).dispatched
  pollers : ∀ l, l ≠ (s.conns c).loop_ → (s'.loops l).poller = (s.loops l).poller
  registered : ∀ fd d, s'.Registered (s.conns c).loop_ fd d →
    s.Registered (s.conns c).loop_ fd d ∨ d = c
  holds : (s.loops (s.conns c).loop_).poller.Holds c (s.conns c).conn.channel_ →
    (s'.loops (s.conns c).loop_).poller.Holds c (s'.conns c).conn.channel_ ∧
      EPollPoller.SameElsewhere (s.loops (s.conns c).loop_).poller
        (s'.loops (s.conns c).loop_).poller (s.conns c).conn.channel_.fd_
  trace : ∀ e ∈ s'.trace, e ∈ s.trace ∨
    ((∀ d, e.2 = .ran d → d = c) ∧ (∀ stage, e.2 = .removes stage → stage = s.stage) ∧ s.Proper e)

variable {K K' : Functor β → Prop}

namespace Acts

theorem loops (h : s.Acts s' c K) (d : ℕ) : (s'.conns d).loop_ = (s.conns d).loop_ := by
  by_cases hd : d = c
  · rw [hd, h.loopOf]
  · rw [h.conns d hd]

theorem home (h : s.Acts s' c K) (f : Functor β) : s'.home f = s.home f := by
  cases f with
  | run task d => exact h.loops d
  | removeConnectionInLoop d => exact h.loop_
  | listen => exact h.loop_

theorem proper (h : s.Acts s' c K) (e : Option L × Act L) : s'.Proper e ↔ s.Proper e := by
  rcases e with ⟨t, act⟩
  cases act <;> simp only [Proper, h.loops, h.loop_]

theorem mono (h : s.Acts s' c K) (hin : ∀ f, K f → K' f) : s.Acts s' c K' :=
  { h with
    added := fun l f hf => (h.added l f hf).imp_right fun hf => ⟨hf.1, hf.2.1, hin f hf.2.2⟩ }

theorem trans {u : TcpServer L β} (h : s.Acts s' c K) (h' : s'.Acts u c K) : s.Acts u c K where
  made := h'.made.trans h.made
  loop_ := h'.loop_.trans h.loop_
  stage := h'.stage.trans h.stage
  conns d hd := (h'.conns d hd).trans (h.conns d hd)
  loopOf := h'.loopOf.trans h.loopOf
  nameOf := h'.nameOf.trans h.nameOf
  fdOf := h'.fdOf.trans h.fdOf
  names n d hn := h.names n d (h'.names n d hn)
  tasks l d hd := (h'.tasks l d hd).trans (h.tasks l d hd)
  added l f hf := by
    rcases h'.added l f hf with hf | ⟨hc, hl, hin⟩
    · exact h.added l f hf
    · exact Or.inr ⟨hc, hl.trans (h.home f), hin⟩
  dispatched l d hd := h.dispatched l d (h'.dispatched l d hd)
  pollers l hl := (h'.pollers l (h.loopOf ▸ hl)).trans (h.pollers l hl)
  registered fd d hd := by
    have := h'.registered fd d
    rw [h.loopOf] at this
    exact (this hd).elim (h.registered fd d) Or.inr
  holds hh := by
    obtain ⟨hholds, hsame⟩ := h.holds hh
    have := h'.holds
    rw [h.loopOf, h.fdOf] at this
    obtain ⟨hholds', hsame'⟩ := this hholds
    exact ⟨hholds', hsame.trans hsame'⟩
  trace e he := by
    rcases h'.trace e he with he | ⟨hc, hr, hp⟩
    · exact h.trace e he
    · exact Or.inr ⟨hc, h.stage ▸ hr, (h.proper e).1 hp⟩

theorem confined (h : s.Acts s' c K) (hs : s.Confined) (hc : c < s.made) : s'.Confined := by
  refine ⟨fun l f hf => ?_, fun l d hd => ?_, fun l fd d hd => ?_, fun e he => ?_,
    fun e he hr => ?_⟩
  · rw [h.made, h.home]
    rcases h.added l f hf with hf | ⟨hfc, hl, -⟩
    · exact hs.located l f hf
    · refine ⟨fun d hd => ?_, hl⟩
      rw [hfc] at hd
      exact Option.some.inj hd ▸ hc
  · rw [h.made, h.loops]
    exact hs.dispatched l d (h.dispatched l d hd)
  · rw [h.made, h.loops]
    by_cases hl : l = (s.conns c).loop_
    · subst hl
      rcases h.registered fd d hd with hd | rfl
      · exact hs.registered _ fd d hd
      · exact ⟨hc, rfl⟩
    · rw [Registered, h.pollers l hl] at hd
      exact hs.registered l fd d hd
  · rw [h.made, h.proper]
    rcases h.trace e he with he | ⟨hran, -, hp⟩
    · exact hs.trace e he
    · exact ⟨fun d hd => hran d hd ▸ hc, hp⟩
  · rw [h.stage]
    rcases h.trace e he with he | ⟨-, hstage, -⟩
    · exact hs.removes e he hr
    · exact (hstage _ hr).symm

end Acts

/-! ### Other steps -/

/-- A step of a loop or of the acceptor: it adds no task and touches no connection, and what it
dispatches is in the epoll set. -/
structure Frames (s s' : TcpServer L β) : Prop where
  made : s'.made = s.made
  loop_ : s'.loop_ = s.loop_
  stage : s'.stage = s.stage
  conns : s'.conns = s.conns
  todo : ∀ l, ∀ f ∈ (s'.loops l).todo, f ∈ (s.loops l).todo ∨ (f = .listen ∧ l = s.loop_)
  poller : ∀ l, (s'.loops l).poller = (s.loops l).poller
  dispatched : ∀ l, ∀ d ∈ (s'.loops l).dispatched, d ∈ (s.loops l).dispatched ∨
    ∃ fd events, (s.loops l).poller.epollfd_ fd = some ⟨events, d⟩
  trace : ∀ e ∈ s'.trace, e ∈ s.trace ∨
    ((∀ d, e.2 ≠ .ran d) ∧ (∀ stage, e.2 ≠ .removes stage) ∧ s.Proper e)

namespace Frames

theorem home (h : Frames s s') (f : Functor β) : s'.home f = s.home f := by
  cases f with
  | run task d => exact congrArg (fun conns => (conns d).loop_) h.conns
  | removeConnectionInLoop d => exact h.loop_
  | listen => exact h.loop_

theorem proper (h : Frames s s') (e : Option L × Act L) : s'.Proper e ↔ s.Proper e := by
  rcases e with ⟨t, act⟩
  cases act <;> simp only [Proper, h.conns, h.loop_]

theorem confined (h : Frames s s') (hs : s.Confined) : s'.Confined := by
  refine ⟨fun l f hf => ?_, fun l d hd => ?_, fun l fd d hd => ?_, fun e he => ?_,
    fun e he hr => ?_⟩
  · rw [h.made, h.home]
    rcases h.todo l f hf with hf | ⟨rfl, hl⟩
    · exact hs.located l f hf
    · exact ⟨fun c hc => (by cases hc), hl⟩
  · rw [h.made, h.conns]
    rcases h.dispatched l d hd with hd | ⟨fd, events, hd⟩
    · exact hs.dispatched l d hd
    · exact hs.registered l fd d (Or.inr ⟨events, hd⟩)
  · rw [Registered, h.poller] at hd
    rw [h.made, h.conns]
    exact hs.registered l fd d hd
  · rw [h.made, h.proper]
    rcases h.trace e he with he | ⟨hran, -, hp⟩
    · exact hs.trace e he
    · exact ⟨fun d hd => absurd hd (hran d), hp⟩
  · rw [h.stage]
    rcases h.trace e he with he | ⟨-, hnot, -⟩
    · exact hs.removes e he hr
    · exact absurd hr (hnot _)

end Frames

/-! ### The parts of a step -/

section Parts

variable [DecidableEq L]

/-- A loop changes its queues and its phase. -/
theorem acts_modifyLoop {f : Loop β → Loop β}
    (hpoller : (f (s.loops l)).poller = (s.loops l).poller)
    (hdispatched : ∀ d ∈ (f (s.loops l)).dispatched, d ∈ (s.loops l).dispatched)
    (htasks : ∀ d, d ≠ c →
      (f (s.loops l)).todo.filter (fun g => g.conn = some d) = s.tasksOf l d)
    (hadded : ∀ g ∈ (f (s.loops l)).todo,
      g ∈ (s.loops l).todo ∨ (g.conn = some c ∧ l = s.home g ∧ K g)) :
    s.Acts (s.modifyLoop l f) c K := by
  have hp : ∀ k, ((s.modifyLoop l f).loops k).poller = (s.loops k).poller := by
    intro k
    rw [loops_modifyLoop]
    split_ifs with hk
    · rw [hk, hpoller]
    · rfl
  refine ⟨rfl, rfl, rfl, fun _ _ => rfl, rfl, rfl, rfl, fun _ _ h => h, fun k d hd => ?_,
    fun k g hg => ?_,
    fun k d hd => ?_, fun k _ => hp k, fun fd d hd => ?_, fun hh => ?_, fun _ h => Or.inl h⟩
  · rw [tasksOf, loops_modifyLoop]
    split_ifs with hk
    · rw [hk]
      exact htasks d hd
    · rfl
  · rw [loops_modifyLoop] at hg
    split_ifs at hg with hk
    · rw [hk]
      exact hadded g hg
    · exact Or.inl hg
  · rw [loops_modifyLoop] at hd
    split_ifs at hd with hk
    · rw [hk]
      exact hdispatched d hd
    · exact hd
  · rw [Registered, hp] at hd
    exact Or.inl hd
  · rw [hp]
    exact ⟨hh, .rfl⟩

/-- A callback of `c` is taken off. -/
theorem acts_popCallback {active : List ℕ} {k : Callback} {rest : List (ℕ × Callback)}
    (hp : (s.loops l).phase = .dispatching active ((c, k) :: rest)) :
    s.Acts (s.setPhase l (.dispatching active rest)) c K := by
  refine acts_modifyLoop rfl (fun d hd => ?_) (fun d _ => ?_) fun g hg => Or.inl ?_
  · simp only [Loop.dispatched, Phase.activeChannels_, Phase.running, hp, List.map_cons,
      List.mem_append, List.mem_cons] at hd ⊢
    tauto
  · simp [tasksOf, Loop.todo, Phase.functors, hp]
  · simpa [Loop.todo, Phase.functors, hp] using hg

/-- A functor of `c` is taken off. -/
theorem acts_popFunctor {f : Functor β} {rest done : List (Functor β)}
    (hp : (s.loops l).phase = .calling (f :: rest) done) (hf : f.conn = some c) :
    s.Acts (s.setPhase l (.calling rest (done ++ [f]))) c K := by
  refine acts_modifyLoop rfl (fun d hd => ?_) (fun d hd => ?_) fun g hg => Or.inl ?_
  · simp [Loop.dispatched, Phase.activeChannels_, Phase.running] at hd
  · have : f.conn ≠ some d := fun h => hd (Option.some.inj (h.symm.trans hf))
    simp [tasksOf, Loop.todo, Phase.functors, hp, this]
  · simp only [Loop.todo, Phase.functors, hp, List.mem_append, List.mem_cons] at hg ⊢
    tauto

theorem acts_queueInLoop {f : Functor β} (hf : f.conn = some c) (hl : l = s.home f) (hin : K f) :
    s.Acts (s.queueInLoop l f) c K := by
  refine acts_modifyLoop rfl (fun d hd => hd) (fun d hd => ?_) fun g hg => ?_
  · have : f.conn ≠ some d := fun h => hd (Option.some.inj (h.symm.trans hf))
    simp [tasksOf, Loop.todo, this]
  · simp only [Loop.todo, List.mem_append, List.mem_singleton] at hg ⊢
    rcases hg with hg | hg | rfl
    · exact Or.inl (Or.inl hg)
    · exact Or.inl (Or.inr hg)
    · exact Or.inr ⟨hf, hl, hin⟩

omit [DecidableEq L] in
/-- The connection itself changes, its channel at most in `revents_`. -/
theorem acts_conn {x : Connection L β} {revents : Events} (hl : x.loop_ = (s.conns c).loop_)
    (hn : x.name_ = (s.conns c).name_)
    (hch : x.conn.channel_ = { (s.conns c).conn.channel_ with revents_ := revents }) :
    s.Acts { s with conns := Function.update s.conns c x } c K := by
  refine ⟨rfl, rfl, rfl, fun _ hd => Function.update_of_ne hd _ _, ?_, ?_, ?_, fun _ _ h => h,
    fun _ _ _ => rfl, fun _ _ h => Or.inl h, fun _ _ h => h, fun _ _ => rfl,
    fun _ _ h => Or.inl h, fun h => ?_, fun _ h => Or.inl h⟩
  · simp [hl]
  · simp [hn]
  · simp [hch]
  · simp only [Function.update_self, hch]
    exact ⟨h, .rfl⟩

omit [DecidableEq L] in
theorem acts_setConn {conn : TcpConnection β} {m : Events}
    (hch : conn.channel_ = { (s.conns c).conn.channel_ with revents_ := m }) :
    s.Acts (s.setConn c conn) c K :=
  acts_conn rfl rfl hch

omit [DecidableEq L] in
theorem acts_setState (state : StateE) :
    s.Acts (s.setConn c { (s.conns c).conn with state_ := state }) c K :=
  acts_setConn (m := (s.conns c).conn.channel_.revents_) rfl

omit [DecidableEq L] in
theorem acts_markDestroyed (t : Option L) : s.Acts (s.markDestroyed t c) c K :=
  acts_conn rfl rfl rfl

omit [DecidableEq L] in
theorem conns_markDestroyed (t : Option L) : (s.markDestroyed t c).conns =
    Function.update s.conns c { s.conns c with destroyed := t } := rfl

omit [DecidableEq L] in
theorem mem_trace_record {r : List (Act L)} {e : Option L × Act L}
    (he : e ∈ (s.record t r).trace) : e ∈ s.trace ∨ ∃ act ∈ r, (t, act) = e :=
  (List.mem_append.1 he).imp_right List.mem_map.1

omit [DecidableEq L] in
theorem acts_record {r : List (Act L)}
    (h : ∀ act ∈ r, (∀ d, act = .ran d → d = c) ∧
      (∀ stage, act = .removes stage → stage = s.stage) ∧ s.Proper (t, act)) :
    s.Acts (s.record t r) c K := by
  refine ⟨rfl, rfl, rfl, fun _ _ => rfl, rfl, rfl, rfl, fun _ _ h => h, fun _ _ _ => rfl,
    fun _ _ h => Or.inl h, fun _ _ h => h, fun _ _ => rfl, fun _ _ h => Or.inl h,
    fun h => ⟨h, .rfl⟩, fun e he => ?_⟩
  rcases mem_trace_record he with he | ⟨act, hact, rfl⟩
  · exact Or.inl he
  · exact Or.inr (h act hact)

/-- The poller and the channel after the effects of a function of `c`. -/
def registration (s : TcpServer L β) (c : ℕ) (res : TcpConnection β × List (Effect β)) :
    EPollPoller ℕ × Channel :=
  res.2.foldl (Effect.register c) ((s.loops (s.conns c).loop_).poller, res.1.channel_)

omit [DecidableEq L] in
theorem conns_setConn (conn : TcpConnection β) :
    (s.setConn c conn).conns = Function.update s.conns c { s.conns c with conn := conn } := rfl

theorem conns_perform (res : TcpConnection β × List (Effect β)) :
    (s.perform t c res).conns = Function.update s.conns c
      { s.conns c with conn := { res.1 with channel_ := (s.registration c res).2 } } := rfl

theorem loops_perform (res : TcpConnection β × List (Effect β)) (k : L) :
    (s.perform t c res).loops k = if k = (s.conns c).loop_ then
      { s.loops (s.conns c).loop_ with
        poller := (s.registration c res).1
        pendingFunctors_ := (s.loops (s.conns c).loop_).pendingFunctors_ ++
          (queued res.2).map fun task => .run task c }
    else s.loops k :=
  Function.update_apply _ _ _ _

theorem todo_perform (res : TcpConnection β × List (Effect β)) (k : L) :
    ((s.perform t c res).loops k).todo = (s.loops k).todo ++
      if k = (s.conns c).loop_ then (queued res.2).map fun task => .run task c else [] := by
  rw [loops_perform]
  split_ifs with hk
  · rw [hk]
    exact (List.append_assoc _ _ _).symm
  · rw [List.append_nil]

theorem destroyed_perform (res : TcpConnection β × List (Effect β)) :
    ((s.perform t c res).conns c).destroyed = (s.conns c).destroyed := by
  rw [conns_perform, Function.update_self]

theorem state_perform (res : TcpConnection β × List (Effect β)) :
    ((s.perform t c res).conns c).conn.state_ = res.1.state_ := by
  rw [conns_perform, Function.update_self]

theorem todo_subset_perform (res : TcpConnection β × List (Effect β)) {f : Functor β}
    (hf : f ∈ (s.loops l).todo) : f ∈ ((s.perform t c res).loops l).todo := by
  rw [todo_perform]
  exact List.mem_append_left _ hf

/-- A function that runs on the thread of its connection's loop. -/
theorem acts_perform {res : TcpConnection β × List (Effect β)}
    (ht : t = some (s.conns c).loop_) (hu : (s.conns c).conn.Updates res) :
    s.Acts (s.perform t c res) c fun f => ∃ task ∈ queued res.2, f = .run task c := by
  obtain ⟨i, hi⟩ := Effect.foldl_register c res.2
    ((s.loops (s.conns c).loop_).poller, res.1.channel_)
  have hfd : res.1.channel_.fd_ = (s.conns c).conn.channel_.fd_ := by
    rcases hu with h | h
    · rw [h]
    · exact h.1
  have hloop : (s.perform t c res).loops (s.conns c).loop_ = _ := loops_perform res _
  rw [if_pos rfl] at hloop
  refine ⟨rfl, rfl, rfl, fun d hd => ?_, ?_, ?_, ?_, fun _ _ h => h, fun k d hd => ?_,
    fun k f hf => ?_,
    fun k d hd => ?_, fun k hk => ?_, fun fd d hd => ?_, fun hholds => ?_, fun e he => ?_⟩
  · rw [conns_perform, Function.update_of_ne hd]
  · rw [conns_perform, Function.update_self]
  · rw [conns_perform, Function.update_self]
  · rw [conns_perform, Function.update_self]
    exact (congrArg Channel.fd_ hi).trans hfd
  · have hnone : ((queued res.2).map fun task => Functor.run task c).filter
        (fun f => f.conn = some d) = [] := by
      simp [Functor.conn, Ne.symm hd]
    rw [tasksOf, todo_perform, List.filter_append]
    split_ifs
    · rw [hnone, List.append_nil]
      rfl
    · exact List.append_nil _
  · rw [todo_perform, List.mem_append] at hf
    rcases hf with hf | hf
    · exact Or.inl hf
    · split_ifs at hf with hk
      · obtain ⟨task, htask, rfl⟩ := List.mem_map.1 hf
        exact Or.inr ⟨rfl, hk, task, htask, rfl⟩
      · cases hf
  · rw [loops_perform] at hd
    split_ifs at hd with hk
    · rw [hk]
      exact hd
    · exact hd
  · rw [loops_perform, if_neg hk]
  · rw [Registered, hloop] at hd
    exact Effect.registered_foldl_register res.2 hd
  · rw [hloop, conns_perform, Function.update_self]
    exact TcpConnection.holds_of_updates hholds hu
  · rcases List.mem_append.1 he with he | he
    · exact Or.inl he
    · right
      obtain ⟨act, hact, rfl⟩ := List.mem_map.1 he
      rcases List.mem_cons.1 hact with rfl | hact
      · exact ⟨fun d hd => (Act.ran.inj hd).symm, fun stage hs => (by cases hs), ht⟩
      · split_ifs at hact
        · rw [List.mem_singleton.1 hact]
          exact ⟨fun d hd => (by cases hd), fun stage hs => (by cases hs), ht⟩
        · cases hact

/-- The callbacks and tasks that `c` queues itself are plain. -/
theorem acts_perform_plain {res : TcpConnection β × List (Effect β)}
    (ht : t = some (s.conns c).loop_) (hu : (s.conns c).conn.Updates res)
    (hq : TcpConnection.QueuesOwn res.2) :
    s.Acts (s.perform t c res) c fun f => f.isPlain = true := by
  refine (acts_perform ht hu).mono ?_
  rintro f ⟨task, htask, rfl⟩
  have hown := hq task htask
  cases task <;> first | rfl | cases hown

theorem mem_todo_queueInLoop {f g : Functor β} {k : L} :
    g ∈ ((s.queueInLoop l f).loops k).todo ↔ g ∈ (s.loops k).todo ∨ (k = l ∧ g = f) := by
  rw [queueInLoop, loops_modifyLoop]
  split_ifs with hk
  · simp [Loop.todo, hk, or_assoc]
  · simp [hk]

/-- The name of `c` goes out of `connections_`, on the thread of the base loop. -/
theorem acts_removeConnectionInLoop (ht : t = some s.loop_) :
    s.Acts (s.removeConnectionInLoop t c) c fun f => f.isEnding = true := by
  have hunmap : s.Acts { s with
      connections_ := Function.update s.connections_ (s.conns c).name_ none } c
      fun f => f.isEnding = true := by
    refine ⟨rfl, rfl, rfl, fun _ _ => rfl, rfl, rfl, rfl, fun n d hn => ?_, fun _ _ _ => rfl,
      fun _ _ h => Or.inl h, fun _ _ h => h, fun _ _ => rfl, fun _ _ h => Or.inl h,
      fun h => ⟨h, .rfl⟩, fun _ h => Or.inl h⟩
    have hne : n ≠ (s.conns c).name_ := by
      rintro rfl
      simp at hn
    exact (Function.update_of_ne hne _ _).symm.trans hn
  refine (hunmap.trans (acts_record (t := t) fun act hact => ?_)).trans
    (acts_queueInLoop rfl rfl rfl)
  rcases List.mem_cons.1 hact with rfl | hact
  · exact ⟨fun d hd => (by cases hd), fun stage hs => (Act.removes.inj hs).symm, trivial⟩
  · rw [List.mem_singleton.1 hact]
    exact ⟨fun d hd => (by cases hd), fun stage hs => (by cases hs), ht⟩

/-- On another thread it is queued on the base loop. -/
theorem acts_removeConnection : s.Acts (s.removeConnection t c) c fun f => f.isEnding = true := by
  have hrecord : s.Acts (s.record t [.removes s.stage]) c fun f => f.isEnding = true := by
    refine acts_record fun act hact => ?_
    rw [List.mem_singleton.1 hact]
    exact ⟨fun d hd => (by cases hd), fun stage hs => (Act.removes.inj hs).symm, trivial⟩
  unfold removeConnection
  simp only
  split_ifs with ht
  · exact hrecord.trans (acts_removeConnectionInLoop ht)
  · exact hrecord.trans (acts_queueInLoop rfl rfl rfl)

variable [Inhabited β]

theorem acts_runTask {task : Task β} {r : WriteResult} (ht : t = some (s.conns c).loop_) :
    s.Acts (s.runTask t c task r) c fun _ => True := by
  have hperform : s.Acts (s.perform t c ((s.conns c).conn.runTask r task)) c fun _ => True :=
    (acts_perform ht (TcpConnection.updates_runTask _ _ _)).mono fun _ _ => trivial
  unfold runTask
  cases task with
  | connectDestroyed => exact hperform.trans (acts_markDestroyed t)
  | _ => exact hperform

theorem runInLoop_of_ne {task : Task β} {r : WriteResult} (ht : t ≠ some (s.conns c).loop_) :
    s.runInLoop t c task r = s.queueInLoop (s.conns c).loop_ (.run task c) :=
  if_neg ht

/-- `runInLoop` runs the task on the loop's own thread, and queues it on any other. -/
theorem acts_runInLoop {task : Task β} {r : WriteResult} :
    s.Acts (s.runInLoop t c task r) c fun _ => True := by
  unfold runInLoop
  split_ifs with ht
  · exact acts_runTask ht
  · exact acts_queueInLoop rfl rfl trivial

theorem acts_runCallback {k : Callback} {read : ReadResult β} {write : WriteResult}
    (ht : t = some (s.conns c).loop_) :
    s.Acts (s.runCallback t c k read write) c fun _ => True := by
  have hperform :
      s.Acts (s.perform t c ((s.conns c).conn.runCallback read write k)) c fun _ => True :=
    (acts_perform ht (TcpConnection.updates_runCallback _ _ _ _)).mono fun _ _ => trivial
  unfold runCallback
  simp only
  split_ifs
  · exact hperform.trans (acts_removeConnection.mono fun _ _ => trivial)
  · exact hperform

end Parts

/-! ### Steps of the loops and of the acceptor -/

section Loops

variable [DecidableEq L]

theorem frames_modifyLoop {f : Loop β → Loop β}
    (hpoller : (f (s.loops l)).poller = (s.loops l).poller)
    (htodo : ∀ g ∈ (f (s.loops l)).todo, g ∈ (s.loops l).todo ∨ (g = .listen ∧ l = s.loop_))
    (hdispatched : ∀ d ∈ (f (s.loops l)).dispatched, d ∈ (s.loops l).dispatched ∨
      ∃ fd events, (s.loops l).poller.epollfd_ fd = some ⟨events, d⟩) :
    s.Frames (s.modifyLoop l f) := by
  refine ⟨rfl, rfl, rfl, rfl, fun k g hg => ?_, fun k => ?_, fun k d hd => ?_, fun _ h => Or.inl h⟩
  · rw [loops_modifyLoop] at hg
    split_ifs at hg with hk
    · rw [hk]
      exact htodo g hg
    · exact Or.inl hg
  · rw [loops_modifyLoop]
    split_ifs with hk
    · rw [hk, hpoller]
    · rfl
  · rw [loops_modifyLoop] at hd
    split_ifs at hd with hk
    · rw [hk]
      exact hdispatched d hd
    · exact Or.inl hd

/-- `activeChannels_` is cleared. -/
theorem frames_poll (hp : (s.loops l).phase = .polling) :
    s.Frames (s.setPhase l (.dispatching [] [])) := by
  refine frames_modifyLoop rfl (fun g hg => Or.inl ?_) fun d hd => ?_
  · simpa [Loop.todo, Phase.functors, hp] using hg
  · simp [Loop.dispatched, Phase.activeChannels_, Phase.running] at hd

theorem frames_handleEvent {rest : List ℕ} (hp : (s.loops l).phase = .dispatching (c :: rest) [])
    (callbacks : List Callback) :
    s.Frames (s.setPhase l (.dispatching rest (callbacks.map fun k => (c, k)))) := by
  refine frames_modifyLoop rfl (fun g hg => Or.inl ?_) fun d hd => Or.inl ?_
  · simpa [Loop.todo, Phase.functors, hp] using hg
  · simp only [Loop.dispatched, Phase.activeChannels_, Phase.running, hp, List.map_map,
      List.map_nil, List.append_nil, List.mem_append, List.mem_cons, List.mem_map,
      Function.comp] at hd ⊢
    rcases hd with hd | ⟨_, -, rfl⟩
    · exact Or.inr hd
    · exact Or.inl rfl

theorem frames_swap (hp : (s.loops l).phase = .dispatching [] []) :
    s.Frames (s.modifyLoop l fun loop =>
      { loop with pendingFunctors_ := [], phase := .calling loop.pendingFunctors_ [] }) := by
  refine frames_modifyLoop rfl (fun g hg => Or.inl ?_) fun d hd => ?_
  · simpa [Loop.todo, Phase.functors, hp] using hg
  · simp [Loop.dispatched, Phase.activeChannels_, Phase.running] at hd

theorem frames_finish {done : List (Functor β)} (hp : (s.loops l).phase = .calling [] done) :
    s.Frames (s.setPhase l .polling) := by
  refine frames_modifyLoop rfl (fun g hg => Or.inl ?_) fun d hd => ?_
  · simpa [Loop.todo, Phase.functors, hp] using hg
  · simp [Loop.dispatched, Phase.activeChannels_, Phase.running] at hd

/-- `listen` is taken off. -/
theorem frames_popListen {rest done : List (Functor β)}
    (hp : (s.loops l).phase = .calling (.listen :: rest) done) :
    s.Frames (s.setPhase l (.calling rest (done ++ [.listen]))) := by
  refine frames_modifyLoop rfl (fun g hg => Or.inl ?_) fun d hd => ?_
  · simp only [Loop.todo, Phase.functors, hp, List.mem_append, List.mem_cons] at hg ⊢
    tauto
  · simp [Loop.dispatched, Phase.activeChannels_, Phase.running] at hd

/-- The loop goes, with what it had not run. -/
theorem frames_exit (hp : (s.loops l).phase = .polling) :
    s.Frames (s.modifyLoop l fun loop => { loop with pendingFunctors_ := [], exited := true }) := by
  refine frames_modifyLoop rfl (fun g hg => ?_) fun d hd => ?_
  · simp [Loop.todo, Phase.functors, hp] at hg
  · simp [Loop.dispatched, Phase.activeChannels_, Phase.running, hp] at hd

omit [DecidableEq L] in
/-- A record of something that is no function of a connection. -/
theorem frames_record {r : List (Act L)}
    (h : ∀ act ∈ r, (∀ d, act ≠ .ran d) ∧ (∀ stage, act ≠ .removes stage) ∧ s.Proper (t, act)) :
    s.Frames (s.record t r) := by
  refine ⟨rfl, rfl, rfl, rfl, fun _ _ h => Or.inl h, fun _ => rfl, fun _ _ h => Or.inl h,
    fun e he => ?_⟩
  rcases mem_trace_record he with he | ⟨act, hact, rfl⟩
  · exact Or.inl he
  · exact Or.inr (h act hact)

omit [DecidableEq L] in
theorem frames_listen (ht : t = some s.loop_) : s.Frames (s.listen t) := by
  have hframe : s.Frames (s.record t [.registers s.loop_]) := by
    refine frames_record fun act hact => ?_
    rw [List.mem_singleton.1 hact]
    exact ⟨fun d => by simp, fun stage => by simp, ht⟩
  exact ⟨rfl, rfl, rfl, rfl, hframe.todo, hframe.poller, hframe.dispatched, hframe.trace⟩

theorem frames_start : s.Frames (s.start t) := by
  have hrefl : s.Frames { s with started_ := true } :=
    ⟨rfl, rfl, rfl, rfl, fun _ _ h => Or.inl h, fun _ => rfl, fun _ _ h => Or.inl h,
      fun _ h => Or.inl h⟩
  unfold start
  split_ifs with hstarted ht
  · exact ⟨rfl, rfl, rfl, rfl, fun _ _ h => Or.inl h, fun _ => rfl, fun _ _ h => Or.inl h,
      fun _ h => Or.inl h⟩
  · have hlisten := frames_listen (s := { s with started_ := true }) ht
    exact ⟨rfl, rfl, rfl, rfl, hlisten.todo, hlisten.poller, hlisten.dispatched, hlisten.trace⟩
  · have hqueue : ({ s with started_ := true } : TcpServer L β).Frames
        (({ s with started_ := true } : TcpServer L β).queueInLoop s.loop_ .listen) := by
      refine frames_modifyLoop rfl (fun g hg => ?_) fun d hd => Or.inl hd
      simp only [Loop.todo, List.mem_append, List.mem_singleton] at hg ⊢
      tauto
    exact ⟨rfl, rfl, rfl, rfl, hqueue.todo, hqueue.poller, hqueue.dispatched, hqueue.trace⟩

end Loops

/-! ### Every step -/

section Steps

variable [DecidableEq L]

/-- A channel that the epoll set reports goes behind the others in `activeChannels_`. -/
theorem frames_activate {active : List ℕ} (hp : (s.loops l).phase = .dispatching active []) {fd : ℤ}
    {event : EpollEvent ℕ} (he : (s.loops l).poller.epollfd_ fd = some event) :
    s.Frames
      (s.setPhase l (.dispatching ((s.loops l).phase.activeChannels_ ++ [event.ptr]) [])) := by
  refine frames_modifyLoop rfl (fun g hg => Or.inl ?_) fun d hd => ?_
  · simpa [Loop.todo, Phase.functors, hp] using hg
  · simp only [Loop.dispatched, Phase.activeChannels_, Phase.running, List.map_nil,
      List.append_nil, List.mem_append, List.mem_singleton, hp] at hd ⊢
    rcases hd with hd | rfl
    · exact Or.inl hd
    · exact Or.inr ⟨fd, event.events, he⟩

theorem confined_activate (h : s.Confined) {active : List ℕ}
    (hp : (s.loops l).phase = .dispatching active []) (e : ℤ × Events) :
    (activate l s e).Confined := by
  unfold activate
  cases he : (s.loops l).poller.epollfd_ e.1 with
  | none => exact h
  | some event =>
    have hc := (h.registered l e.1 event.ptr (Or.inr ⟨event.events, he⟩)).1
    have hset : (s.setConn event.ptr { (s.conns event.ptr).conn with
        channel_ := { (s.conns event.ptr).conn.channel_ with revents_ := e.2 } }).Confined :=
      (acts_setConn (K := fun _ => True) (m := e.2) rfl).confined h hc
    exact (frames_activate (s := s.setConn event.ptr { (s.conns event.ptr).conn with
      channel_ := { (s.conns event.ptr).conn.channel_ with revents_ := e.2 } }) hp he).confined hset

theorem confined_poll (h : s.Confined) (hp : (s.loops l).phase = .polling)
    (events : List (ℤ × Events)) : (s.poll l events).Confined :=
  poll_inv ((frames_poll hp).confined h)
    (fun _ e _ hphase hu => confined_activate hu hphase e) events

variable [Inhabited β]

omit [DecidableEq L] in
/-- A new connection has a number that nothing refers to. -/
theorem confined_makeConnection (h : s.Confined) (ht : t = some s.loop_) (sockfd : ℤ)
    (highWater : Bool) (mark : ℕ) : (s.makeConnection t sockfd highWater mark).Confined := by
  have hold : ∀ d < s.made, ((s.makeConnection t sockfd highWater mark).conns d).loop_ =
      (s.conns d).loop_ := by
    intro d hd
    exact congrArg Connection.loop_ (Function.update_of_ne (Nat.ne_of_lt hd) _ _)
  refine ⟨fun l f hf => ?_, fun l d hd => ?_, fun l fd d hd => ?_, fun e he => ?_,
    fun e he hr => ?_⟩
  · obtain ⟨hmade, hl⟩ := h.located l f hf
    refine ⟨fun d hd => Nat.lt_succ_of_lt (hmade d hd), ?_⟩
    cases f with
    | run task d => exact hl.trans (hold d (hmade d rfl)).symm
    | removeConnectionInLoop d => exact hl
    | listen => exact hl
  · obtain ⟨hmade, hl⟩ := h.dispatched l d hd
    exact ⟨Nat.lt_succ_of_lt hmade, (hold d hmade).trans hl⟩
  · obtain ⟨hmade, hl⟩ := h.registered l fd d hd
    exact ⟨Nat.lt_succ_of_lt hmade, (hold d hmade).trans hl⟩
  · rcases List.mem_append.1 he with he | he
    · obtain ⟨hran, hp⟩ := h.trace e he
      refine ⟨fun d hd => Nat.lt_succ_of_lt (hran d hd), ?_⟩
      rcases e with ⟨u, act⟩
      cases act with
      | ran d => exact hp.trans (congrArg some (hold d (hran d rfl)).symm)
      | registers k => exact hp
      | connections_ => exact hp
      | removes stage => trivial
    · rw [List.mem_singleton.1 he]
      exact ⟨fun d hd => (by cases hd), ht⟩
  · rcases List.mem_append.1 he with he | he
    · exact h.removes e he hr
    · rw [List.mem_singleton.1 he] at hr
      cases hr

theorem confined_newConnection (h : s.Confined) (ht : t = some s.loop_) (sockfd : ℤ)
    (highWater : Bool) (mark : ℕ) : (s.newConnection t sockfd highWater mark).Confined :=
  acts_runInLoop.confined (confined_makeConnection h ht sockfd highWater mark) (Nat.lt_succ_self _)

theorem confined_callback (h : s.Confined) {active : List ℕ} {k : Callback}
    {rest : List (ℕ × Callback)} (hp : (s.loops l).phase = .dispatching active ((c, k) :: rest))
    (read : ReadResult β) (write : WriteResult) :
    ((s.setPhase l (.dispatching active rest)).runCallback (some l) c k read write).Confined := by
  have hmem : c ∈ (s.loops l).dispatched := by simp [Loop.dispatched, Phase.running, hp]
  obtain ⟨hc, hl⟩ := h.dispatched l c hmem
  exact ((acts_popCallback hp).trans (acts_runCallback (congrArg some hl.symm))).confined h hc

theorem confined_functor (h : s.Confined) {f : Functor β} {rest done : List (Functor β)}
    (hp : (s.loops l).phase = .calling (f :: rest) done) (r : WriteResult) :
    ((s.setPhase l (.calling rest (done ++ [f]))).call (some l) r f).Confined := by
  have hmem : f ∈ (s.loops l).todo := by simp [Loop.todo, Phase.functors, hp]
  obtain ⟨hmade, hl⟩ := h.located l f hmem
  cases f with
  | run task c =>
    exact ((acts_popFunctor hp rfl).trans (acts_runTask (congrArg some hl))).confined h
      (hmade c rfl)
  | removeConnectionInLoop c =>
    exact ((acts_popFunctor hp rfl).trans
      (acts_removeConnectionInLoop (congrArg some hl))).confined h (hmade c rfl)
  | listen =>
    have hpop := (frames_popListen hp).confined h
    exact (frames_listen (s := s.setPhase l _) (congrArg some hl)).confined hpop

theorem confined_destroy (h : s.Confined) (ht : t = some s.loop_) (hstage : s.stage = .alive)
    {conns : List ℕ} (hconns : ∀ c ∈ conns, c < s.made) : (s.destroy t conns).Confined := by
  have hrun := List.foldlRecOn (motive := fun u : TcpServer L β =>
    u.Confined ∧ u.loop_ = s.loop_ ∧ u.stage = .alive ∧ u.made = s.made) conns
    (fun u c => u.runInLoop t c .connectDestroyed (.sent 0)) ⟨h, rfl, hstage, rfl⟩
  obtain ⟨hv, hl, hst, -⟩ := hrun fun u hu c hc => by
    obtain ⟨hu, hl, hst, hmade⟩ := hu
    have hact : u.Acts (u.runInLoop t c .connectDestroyed (.sent 0)) c fun _ => True :=
      acts_runInLoop
    exact ⟨hact.confined hu (hmade ▸ hconns c hc), hact.loop_.trans hl, hact.stage.trans hst,
      hact.made.trans hmade⟩
  have hrecord := (frames_record (t := t) (r := [.connections_]) fun act hact => by
    rw [List.mem_singleton.1 hact]
    exact ⟨fun d => by simp, fun stage => by simp, ht.trans (congrArg some hl.symm)⟩).confined hv
  refine ⟨hrecord.located, hrecord.dispatched, hrecord.registered, hrecord.trace, fun e he hr => ?_⟩
  have := (hrecord.removes e he hr).symm.trans hst
  cases this

variable [Fintype L]

/-- **The step lemma.** -/
theorem confined_next {a : Label L β} (h : s.Confined) (hst : s.next a = some s') :
    s'.Confined := by
  cases does_of_next hst with
  | start t hs => exact frames_start.confined h
  | poll hp he => exact confined_poll h hp _
  | newConnection highWater mark hp hs hfd => exact confined_newConnection h rfl _ highWater mark
  | handleEvent hp => exact (frames_handleEvent hp _).confined h
  | callback read write hp => exact confined_callback h hp read write
  | swap hp => exact (frames_swap hp).confined h
  | functor r hp => exact confined_functor h hp r
  | finish hp => exact (frames_finish hp).confined h
  | call r hc hconn ht => exact acts_runInLoop.confined h hc.1
  | shutdown hc hconn => exact ((acts_setState _).trans acts_runInLoop).confined h hc.1
  | nothing => exact h
  | store hc hs => exact (acts_setState (K := fun _ => True) _).confined h hc.1
  | @push c task hc hs ht =>
    exact (acts_queueInLoop (f := .run task c) (K := fun _ => True) rfl rfl trivial).confined h hc.1
  | user user => exact ⟨h.located, h.dispatched, h.registered, h.trace, h.removes⟩
  | destroy hs hconns => exact confined_destroy h rfl hs fun c hc => (hconns c hc).1
  | exit hp hs hl => exact (frames_exit hp).confined h
  | destroyed hs =>
    have hrecord := (frames_record (s := s) (t := some s.loop_) (r := [.registers s.loop_])
      fun act hact => by
        rw [List.mem_singleton.1 hact]
        exact ⟨fun d => by simp, fun stage => by simp, rfl⟩).confined h
    exact ⟨hrecord.located, hrecord.dispatched, hrecord.registered, hrecord.trace, fun _ _ _ => rfl⟩

omit [DecidableEq L] [Fintype L] in
theorem confined_init (loop_ : L) (loops_ : List L) (ipPort_ name_ : String)
    (writeComplete : Bool) :
    (init loop_ loops_ ipPort_ name_ writeComplete : TcpServer L β).Confined := by
  constructor <;> simp [init, Loop.todo, Loop.dispatched, Phase.functors, Phase.activeChannels_,
    Phase.running, Registered, EPollPoller.empty]

/-- **Thread confinement.**  In every run with any loops, each function of a connection runs on the
thread of its loop, each change of a poller on the thread of its loop, and each change of
`connections_` on the thread of the base loop. -/
theorem thread_confinement {loop_ : L} {loops_ : List L} {ipPort_ name_ : String}
    {writeComplete : Bool} {ls : List (Label L β)} {s : TcpServer L β}
    (h : Lts.exec step (init loop_ loops_ ipPort_ name_ writeComplete) ls = some s) :
    ∀ e ∈ s.trace, s.Proper e := by
  have hinv := Lts.exec_inv' (I := Confined) (fun u a v hu hst =>
    confined_next hu (step_eq_some.1 hst).2) (confined_init _ _ _ _ _) h
  exact fun e he => (hinv.trace e he).2

/-- A connection on the io loop `false`: a `send` from another thread, and its end. -/
private def hoppingRun : List (Label Bool ℕ) :=
  [.start none, .poll true [], .swap true, .functor true (.sent 0), .finish true, .poll true [],
    .newConnection 9 false 0, .poll false [], .swap false, .functor false (.sent 0),
    .send none 0 [1, 2] (.sent 0), .finish false, .poll false [(9, EPOLLHUP)], .handleEvent false,
    .callback false .failed (.sent 0), .swap true, .functor true (.sent 0), .swap false,
    .functor false (.sent 1), .functor false (.sent 0)]

theorem thread_confinement_hopping :
    ∃ s : TcpServer Bool ℕ, Lts.exec step (init true [false] "" "" false) hoppingRun = some s ∧
      s.trace.map Prod.fst = [some true, some true, some false, some false, some false, some false,
        some false, some true, some true, some false, some false, some false] ∧
      ∀ e ∈ s.trace, s.Proper e := by
  have hrun : (Lts.exec step (init true [false] "" "" false) hoppingRun).any (fun s =>
      s.trace.map Prod.fst == [some true, some true, some false, some false, some false,
        some false, some false, some true, some true, some false, some false, some false]) =
            true := by
    decide +kernel
  obtain ⟨s, hs, hp⟩ := Lts.exec_of_any hrun
  exact ⟨s, hs, beq_iff_eq.1 hp, thread_confinement hs⟩

end Steps

end TcpServer

end Muduo
