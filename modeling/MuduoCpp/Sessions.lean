import MuduoCpp.Callbacks
import MuduoCpp.Interest
import MuduoCpp.RoundRobin
import MuduoCpp.Views

/-!
# The connections of a server are sessions

Each connection of a server goes through a run of `Session`, whatever the other connections do
meanwhile.

* `Shows`: a session that looks like the connection, with the same effects so far;
* `shows_poll`, `shows_callback`, `shows_functor`, `shows_send`: a step of the server is a step of
  the session, or several;
* `shown_next`: every step of a server shows a session for each connection.
-/

namespace Muduo

namespace Session

variable {τ β : Type} [Inhabited β] [DecidableEq τ]

/-- `shutdown()` does not store over `kDisconnected`, and the step is calm if it has to be. -/
def Kept (calm : Prop) (u : Session τ β) (l : Label τ β) : Prop :=
  u.KeepsDown l ∧ (calm → u.Calm l)

/-- A session comes from a run of such steps. -/
def Reached (calm : Prop) (u : Session τ β) : Prop :=
  ∃ sockfd writeComplete highWater mark ls,
    Lts.Along step (Kept calm) (init sockfd writeComplete highWater mark) ls ∧
      Lts.exec step (init sockfd writeComplete highWater mark) ls = some u

variable {u : Session τ β} {calm calm' : Prop}

theorem Reached.mono (h : u.Reached calm) (hcalm : calm' → calm) : u.Reached calm' := by
  obtain ⟨sockfd, writeComplete, highWater, mark, ls, halong, hexec⟩ := h
  exact ⟨sockfd, writeComplete, highWater, mark, ls,
    halong.mono fun s a hs => ⟨hs.1, hs.2 ∘ hcalm⟩, hexec⟩

theorem Reached.after {l : Label τ β} (h : u.Reached calm) (hcalm : calm' → calm)
    (hl : u.Kept calm' l) (hen : u.enabled l) : (u.after l).Reached calm' := by
  obtain ⟨sockfd, writeComplete, highWater, mark, ls, halong, hexec⟩ := h.mono hcalm
  refine ⟨sockfd, writeComplete, highWater, mark, ls ++ [l],
    Lts.along_append.2 ⟨halong, fun t ht => ?_⟩,
    Lts.exec_append_iff.2 ⟨u, hexec, Lts.guarded_exec_cons.2 ⟨hen, rfl⟩⟩⟩
  obtain rfl : u = t := Option.some.inj (hexec.symm.trans ht)
  exact ⟨hl, fun _ _ => trivial⟩

theorem Reached.dispatching (h : u.Reached calm) : u.Dispatching := by
  obtain ⟨sockfd, writeComplete, highWater, mark, ls, -, hexec⟩ := h
  exact Lts.guarded_inv' (fun _ _ => dispatching_after) (dispatching_init _ _ _ _) hexec

theorem Reached.streams (h : u.Reached calm) : u.Streams := by
  obtain ⟨sockfd, writeComplete, highWater, mark, ls, -, hexec⟩ := h
  exact Lts.guarded_inv' (I := Streams) (fun _ l hs _ => streams_after hs l)
    (streams_init _ _ _ _) hexec

/-- The order of the callbacks. -/
theorem Reached.calling (h : u.Reached calm) (hcalm : calm) : u.Calling := by
  obtain ⟨sockfd, writeComplete, highWater, mark, ls, halong, hexec⟩ := h
  exact Lts.guarded_inv (fun _ _ hs hl => calling_after hs (hl.2 hcalm))
    ⟨dispatching_init _ _ _ _, fun pre hpre => by simp [init] at hpre, Or.inl (fresh_init _ _ _ _)⟩
    halong hexec

omit [DecidableEq τ] [Inhabited β] in
/-- A connection is reported down, and closed, at most once. -/
theorem counts_of_calling (h : u.Calling) :
    u.log.countP Effect.isDown ≤ 1 ∧ u.log.countP Effect.isClose ≤ 1 := by
  have hzero : ∀ p : Effect β → Bool, (∀ e ∈ u.log, p e = false) → u.log.countP p ≤ 1 := by
    intro p hp
    rw [List.countP_eq_zero.2 fun e he => by simp [hp e he]]
    exact Nat.zero_le _
  rcases h.phase with hf | ⟨-, hup | hdown⟩
  · exact ⟨hzero _ fun e he => by rw [hf.log e he]; rfl,
      hzero _ fun e he => by rw [hf.log e he]; rfl⟩
  · exact ⟨hzero _ fun e he => (hup.calls e he).1, hzero _ fun e he => (hup.calls e he).2⟩
  · exact ⟨hdown.down, hdown.close⟩

/-- The interest in `EPOLLOUT` and the half-close, together. -/
theorem Reached.keeping (h : u.Reached calm) : u.Keeping ∧ u.HalfClosing := by
  obtain ⟨sockfd, writeComplete, highWater, mark, ls, halong, hexec⟩ := h
  exact keeping_halfClosing_run (halong.mono fun _ _ hs => hs.1) hexec

/-- What `Tended` says of a connection that `handleClose` has not been for. -/
theorem Reached.tended (h : u.Reached calm)
    (hs : u.conn.state_ = .kConnected ∨ u.conn.state_ = .kDisconnecting) :
    u.Tended ∧ u.conn.state_ ≠ .kDisconnected := by
  refine ⟨(h.keeping.1.phase.resolve_left fun hf => ?_).2, ?_⟩
  · rcases hs with hs | hs <;> simp [hf.state] at hs
  · rcases hs with hs | hs <;> simp [hs]

end Session

namespace TcpServer

variable {L β : Type} {s s' : TcpServer L β} {c d : ℕ} {l : L} {t : Option L}

/-! ### The session of a connection -/

/-- The session `u` looks like the connection `c`, and `r` is what has run of the connection so
far. -/
structure Shows [DecidableEq L] [Inhabited β] (s : TcpServer L β) (c : ℕ)
    (r : List (TcpConnection β × Work β)) (u : Session (Option L) β) : Prop where
  reached : u.Reached (∀ e ∈ r, e.2.Calm e.1)
  view : u.view = s.view c
  caller : ∀ t, u.caller t = .idle
  log : u.log = effects r
  given : u.given.map Prod.snd = takings r
  removed : .remove ∈ u.log → (s.conns c).destroyed ≠ none

namespace Shows

variable [DecidableEq L] [Inhabited β] {r : List (TcpConnection β × Work β)}
  {u : Session (Option L) β}

/-- A step that the connection does not see. -/
theorem spared (h : s.Shows c r u) (hv : s'.view c = s.view c)
    (hd : (s'.conns c).destroyed = (s.conns c).destroyed) : s'.Shows c r u :=
  ⟨h.reached, h.view.trans hv.symm, h.caller, h.log, h.given, fun hrem => hd ▸ h.removed hrem⟩

/-- A step that runs no function of the connection. -/
theorem quiet (h : s.Shows c r u) {l : Session.Label (Option L) β} (hen : u.enabled l)
    (hkeeps : u.KeepsDown l ∧ u.Calm l) (hv : (u.after l).view = s'.view c)
    (hcaller : (u.after l).caller = u.caller) (hlog : (u.after l).log = u.log)
    (hgiven : (u.after l).given = u.given)
    (hd : (s'.conns c).destroyed = (s.conns c).destroyed) : s'.Shows c r (u.after l) := by
  refine ⟨h.reached.after id ⟨hkeeps.1, fun _ => hkeeps.2⟩ hen, hv, ?_, hlog.trans h.log, ?_, ?_⟩
  · rw [hcaller]
    exact h.caller
  · rw [hgiven]
    exact h.given
  · rw [hlog, hd]
    exact h.removed

/-- A step that runs the function `w`. -/
theorem works (h : s.Shows c r u) {l : Session.Label (Option L) β} (hen : u.enabled l)
    {conn : TcpConnection β} {w : Work β} (hkeeps : u.KeepsDown l ∧ (w.Calm conn → u.Calm l))
    (hv : (u.after l).view = s'.view c) (hcaller : (u.after l).caller = u.caller)
    {q : Option (Option L)}
    (hlog : (u.after l).log = u.log ++ (w.run conn).2)
    (hgiven : (u.after l).given = u.given ++ (w.taken conn).toList.map fun p => (q, p))
    (hd : (s.conns c).destroyed ≠ none → (s'.conns c).destroyed ≠ none)
    (hends : ∀ r, w = .runTask .connectDestroyed r → (s'.conns c).destroyed ≠ none) :
    s'.Shows c (r ++ [(conn, w)]) (u.after l) := by
  have hcalm : (∀ e ∈ r ++ [(conn, w)], e.2.Calm e.1) → w.Calm conn := fun he =>
    he (conn, w) (List.mem_append_right _ (List.mem_singleton_self _))
  refine ⟨h.reached.after (fun he e hmem => he e (List.mem_append_left _ hmem))
    ⟨hkeeps.1, hkeeps.2 ∘ hcalm⟩ hen, hv, ?_, ?_, ?_, fun hrem => ?_⟩
  · rw [hcaller]
    exact h.caller
  · rw [hlog, effects_snoc, h.log]
  · rw [hgiven, takings_snoc, List.map_append, h.given, List.map_map]
    congr 1
    exact List.map_id'' (fun _ => rfl) _
  · rw [hlog, List.mem_append] at hrem
    rcases hrem with hrem | hrem
    · exact hd (h.removed hrem)
    · by_contra hnone
      exact Work.remove_notMem_run (fun r hw => hends r hw hnone) hrem

end Shows

/-! ### Between two functions -/

section Loops

variable [DecidableEq L] [Inhabited β] {r : List (TcpConnection β × Work β)}
  {u : Session (Option L) β}

/-- In its epoll set the loop has the channel under the fd of the connection, and the session has it
too. -/
theorem registered_of_epoll (h : s.Owned) (hconf : s.Confined) (hu : s.Shows c r u) {fd : ℤ}
    {event : EpollEvent ℕ} (he : (s.loops l).poller.epollfd_ fd = some event)
    (hptr : event.ptr = c) : (s.conns c).loop_ = l ∧ (s.conns c).conn.channel_.fd_ = fd ∧
      (u.poller.epollfd_ u.conn.channel_.fd_).isSome = true := by
  subst hptr
  have hreg : s.Registered l fd event.ptr := Or.inr ⟨event.events, he⟩
  obtain ⟨hc, hl⟩ := hconf.registered l fd event.ptr hreg
  obtain ⟨hfd, hidx⟩ := h.registered l fd event.ptr hreg
  have hbusy : s.Busy event.ptr :=
    Or.inl (((h.life event.ptr hc).of_index hidx).elim Up.live Closed.live)
  have hholds := h.holds event.ptr hc hbusy
  have hshown := hu.reached.dispatching.holds
  have hconn : u.conn = (s.conns event.ptr).conn := congrArg View.conn hu.view
  rw [EPollPoller.Holds, hl, hfd] at hholds
  rw [EPollPoller.Holds, hconn] at hshown
  refine ⟨hl, hfd, ?_⟩
  rw [hconn]
  -- the entry in the server's set says that `index_` is `kAdded`
  cases hi : (s.conns event.ptr).conn.channel_.index_ with
  | kNew => exact absurd hi hidx
  | kAdded =>
    rw [hi] at hshown
    rw [hshown.2]
    rfl
  | kDeleted =>
    rw [hi] at hholds
    rw [hholds.2.1] at he
    cases he

omit [Inhabited β] in
theorem view_activate {active : List ℕ} (hp : (s.loops l).phase = .dispatching active [])
    {e : ℤ × Events} {event : EpollEvent ℕ} (he : (s.loops l).poller.epollfd_ e.1 = some event)
    (hl : (s.conns event.ptr).loop_ = l) :
    (activate l s e).view event.ptr = (s.view event.ptr).report e.2 := by
  have hact : activate l s e = (s.setConn event.ptr { (s.conns event.ptr).conn with
      channel_ := { (s.conns event.ptr).conn.channel_ with revents_ := e.2 } }).setPhase l
        (.dispatching ((s.loops l).phase.activeChannels_ ++ [event.ptr]) []) := by
    unfold activate
    rw [he]
    rfl
  rw [hact, view, view]
  subst hl
  simp only [setPhase, modifyLoop, setConn, Function.update_self, Loop.view, View.report, hp,
    Phase.activeChannels_, Phase.running, List.count_append, List.count_singleton_self,
    Loop.todo, Phase.functors]

omit [Inhabited β] in
theorem view_activate_of_ne {active : List ℕ} (hp : (s.loops l).phase = .dispatching active [])
    {e : ℤ × Events}
    (he : ∀ event, (s.loops l).poller.epollfd_ e.1 = some event → event.ptr ≠ c) :
    (activate l s e).view c = s.view c := by
  cases hset : (s.loops l).poller.epollfd_ e.1 with
  | none =>
    unfold activate
    rw [hset]
  | some event =>
    have hne := he event hset
    unfold activate
    rw [hset]
    refine (view_modifyLoop fun _ => ?_).trans (view_setConn_of_ne hne _)
    simp [Loop.view, Loop.todo, Phase.activeChannels_, Phase.running, Phase.functors, setConn, hp,
      Function.update_of_ne hne.symm, hne]

/-- What `activate` does not change. -/
structure SamePoller (s s' : TcpServer L β) (l : L) : Prop where
  poller : (s'.loops l).poller = (s.loops l).poller
  phase : ∃ active, (s'.loops l).phase = .dispatching active []
  loops : ∀ d, (s'.conns d).loop_ = (s.conns d).loop_
  destroyed : ∀ d, (s'.conns d).destroyed = (s.conns d).destroyed

omit [Inhabited β] in
theorem samePoller_activate {active : List ℕ} (hp : (s.loops l).phase = .dispatching active [])
    (e : ℤ × Events) : s.SamePoller (activate l s e) l := by
  unfold activate
  cases (s.loops l).poller.epollfd_ e.1 with
  | none => exact ⟨rfl, ⟨active, hp⟩, fun _ => rfl, fun _ => rfl⟩
  | some event =>
    refine ⟨?_, ⟨_, phase_setPhase _⟩, fun d => ?_, fun d => ?_⟩
    · simp [setPhase, modifyLoop, setConn]
    · by_cases hd : d = event.ptr <;> simp [setPhase, modifyLoop, setConn, hd]
    · by_cases hd : d = event.ptr <;> simp [setPhase, modifyLoop, setConn, hd]

omit [DecidableEq L] [Inhabited β] in
theorem SamePoller.trans {v : TcpServer L β} (h : s.SamePoller v l) (h' : v.SamePoller s' l) :
    s.SamePoller s' l :=
  ⟨h'.poller.trans h.poller, h'.phase, fun d => (h'.loops d).trans (h.loops d),
    fun d => (h'.destroyed d).trans (h.destroyed d)⟩

omit [Inhabited β] in
theorem samePoller_foldl {active : List ℕ} (hp : (s.loops l).phase = .dispatching active [])
    (events : List (ℤ × Events)) : s.SamePoller (events.foldl (activate l) s) l :=
  foldl_activate (I := fun u => s.SamePoller u l)
    (fun _ e _ _ hphase hu => hu.trans (samePoller_activate hphase e)) hp
    ⟨rfl, ⟨active, hp⟩, fun _ => rfl, fun _ => rfl⟩

omit [Inhabited β] in
/-- Events of other channels. -/
theorem view_foldl_of_ne {active : List ℕ} (hp : (s.loops l).phase = .dispatching active [])
    {events : List (ℤ × Events)}
    (he : ∀ e ∈ events, ∀ event, (s.loops l).poller.epollfd_ e.1 = some event → event.ptr ≠ c) :
    (events.foldl (activate l) s).view c = s.view c := by
  refine (foldl_activate (I := fun u => s.SamePoller u l ∧ u.view c = s.view c)
    (fun u e hmem _ hphase hu => ?_) hp ⟨⟨rfl, ⟨active, hp⟩, fun _ => rfl, fun _ => rfl⟩, rfl⟩).2
  obtain ⟨hsame, hview⟩ := hu
  refine ⟨hsame.trans (samePoller_activate hphase e), Eq.trans ?_ hview⟩
  exact view_activate_of_ne hphase (hsame.poller ▸ he e hmem)

/-- The poll reports the channel of the connection once, or not at all. -/
theorem shows_poll (h : s.Owned) (hconf : s.Confined) (hu : s.Shows c r u)
    (hp : (s.loops l).phase = .polling) {events : List (ℤ × Events)}
    (hnodup : (events.map Prod.fst).Nodup) : ∃ u', (s.poll l events).Shows c r u' := by
  set v := s.setPhase l (.dispatching [] []) with hv
  have hphase : (v.loops l).phase = .dispatching [] [] := phase_setPhase _
  have hpoller : (v.loops l).poller = (s.loops l).poller := by
    rw [hv, setPhase, loops_modifyLoop, if_pos rfl]
  have hview : v.view c = s.view c := view_modifyLoop fun _ => by
    simp [Loop.view, Loop.todo, Phase.activeChannels_, Phase.running, Phase.functors, hp]
  have hsame : (s.poll l events).conns c = ((events.foldl (activate l) v).conns c) := rfl
  have hdes : ((s.poll l events).conns c).destroyed = (s.conns c).destroyed := by
    rw [hsame]
    exact (samePoller_foldl hphase events).destroyed c
  by_cases hmem : ∃ e ∈ events, ∃ event, (s.loops l).poller.epollfd_ e.1 = some event ∧
      event.ptr = c
  · obtain ⟨e, hmem, event, he, hptr⟩ := hmem
    obtain ⟨hl, hfd, hep⟩ := registered_of_epoll h hconf hu he hptr
    obtain ⟨pre, post, rfl⟩ := List.append_of_mem hmem
    -- no other event is one of this channel
    have hother : ∀ e' ∈ pre ++ post, ∀ event', (s.loops l).poller.epollfd_ e'.1 = some event' →
        event'.ptr ≠ c := by
      intro e' he' event' hset hptr'
      have hfd' := (registered_of_epoll h hconf hu hset hptr').2.1
      rw [List.map_append, List.map_cons, List.nodup_middle, List.nodup_cons] at hnodup
      refine hnodup.1 ?_
      rw [← List.map_append, ← hfd, hfd']
      exact List.mem_map_of_mem he'
    have hbefore := samePoller_foldl hphase pre
    obtain ⟨active, hactive⟩ := hbefore.phase
    have hset : ((pre.foldl (activate l) v).loops l).poller.epollfd_ e.1 = some event := by
      rw [hbefore.poller, hpoller, he]
    have hstep := samePoller_activate hactive e
    obtain ⟨active', hactive'⟩ := hstep.phase
    have hafter : (s.poll l (pre ++ e :: post)).view c = (s.view c).report e.2 := by
      show ((pre ++ e :: post).foldl (activate l) v).view c = _
      rw [List.foldl_append, List.foldl_cons, view_foldl_of_ne hactive' fun e' he' event' hset' =>
        hother e' (List.mem_append_right _ he') event' ?_, ← hview,
        ← view_foldl_of_ne hphase fun e' he' event' hset' =>
          hother e' (List.mem_append_left _ he') event' (hpoller ▸ hset')]
      · subst hptr
        refine view_activate hactive hset ?_
        rw [hbefore.loops]
        exact hl
      · rw [← hpoller, ← hbefore.poller, ← hstep.poller]
        exact hset'
    have hzero : (s.view c).active = 0 := by
      simp [view, hl, Loop.view, Phase.activeChannels_, hp]
    have hidle : u.active = false := by
      have hactive := congrArg View.active hu.view
      rw [hzero] at hactive
      simpa [Session.view] using hactive
    have hrun : u.running = [] := by
      have hrunning := congrArg View.running hu.view
      simpa [Session.view, view, hl, Loop.view, Phase.running, hp] using hrunning
    refine ⟨u.after (.poll e.2), hu.quiet ⟨hidle, hrun, hep⟩ ⟨trivial, trivial⟩ ?_ rfl rfl rfl hdes⟩
    rw [hafter, ← hu.view]
    simp [Session.view, View.report, Session.after, hidle]
  · refine ⟨u, hu.spared (Eq.trans ?_ hview) hdes⟩
    refine view_foldl_of_ne hphase fun e he event hset hptr => hmem ⟨e, he, event, ?_, hptr⟩
    rw [← hpoller, hset]

/-- The channel that has its turn is not in `activeChannels_` any more. -/
theorem shows_handleEvent (h : s.Owned) (hconf : s.Confined) (hu : s.Shows c r u) {d : ℕ}
    {rest : List ℕ} (hp : (s.loops l).phase = .dispatching (d :: rest) []) [Decidable (s.Held d)] :
    ∃ u', (s.setPhase l (.dispatching rest
      (((s.conns d).conn.channel_.handleEvent (s.Held d)).map fun k => (d, k)))).Shows c r u' := by
  have hmem : d ∈ (s.loops l).dispatched := by
    simp [Loop.dispatched, Phase.activeChannels_, hp]
  obtain ⟨hd, hl⟩ := hconf.dispatched l d hmem
  by_cases hdc : d = c
  · subst hdc
    have hheld : s.Held d := by
      rcases (h.life d hd).of_dispatched hmem with hup | hclosed
      · exact Or.inl hup.mapped
      · obtain ⟨k, f, hf, hfc, -⟩ := hclosed.ending
        exact Or.inr (Or.inl ⟨k, mem_holders_of_todo hf hfc⟩)
    have hactive : (s.view d).active = rest.count d + 1 := by
      simp [view, hl, Loop.view, Phase.activeChannels_, hp]
    have hrun : u.running = [] := by
      have hrunning := congrArg View.running hu.view
      simpa [Session.view, view, hl, Loop.view, Phase.running, hp] using hrunning
    have hcount : u.active = true ∧ rest.count d = 0 := by
      have hshown : u.active.toNat = (s.view d).active := congrArg View.active hu.view
      rw [hactive] at hshown
      cases hactive' : u.active with
      | false => simp [hactive'] at hshown
      | true => exact ⟨rfl, by simpa [hactive'] using hshown.symm⟩
    refine ⟨u.after .handleEvent, hu.quiet ⟨hcount.1, hrun⟩ ⟨trivial, trivial⟩ ?_ rfl rfl rfl rfl⟩
    have hconn : u.conn = (s.conns d).conn := congrArg View.conn hu.view
    have hpending : u.pending.map Prod.snd = (s.view d).pending := congrArg View.pending hu.view
    subst hl
    simp only [Session.after, Session.view, hconn, hpending]
    simp [view, setPhase, modifyLoop, Loop.view, Loop.todo, Phase.activeChannels_, Phase.running,
      Phase.functors, hcount.2, hheld, hp, List.filterMap_map]
  · refine ⟨u, hu.spared (view_modifyLoop fun hlc => ?_) rfl⟩
    simp [Loop.view, Loop.todo, Phase.activeChannels_, Phase.running, Phase.functors, hp, hdc,
      List.filterMap_map]

theorem shows_start (hu : s.Shows c r u) (t : Option L) : (s.start t).Shows c r u := by
  have hconns : (s.start t).conns = s.conns := by
    unfold start
    split_ifs <;> rfl
  refine hu.spared ?_ (congrArg (fun conns => (conns c).destroyed) hconns)
  unfold start
  split_ifs
  · rfl
  · rfl
  · exact view_queueInLoop_of_none (s := { s with started_ := true }) rfl

omit [Inhabited β] in
theorem view_swap (hp : (s.loops l).phase = .dispatching [] []) :
    (s.modifyLoop l fun loop =>
      { loop with pendingFunctors_ := [], phase := .calling loop.pendingFunctors_ [] }).view c =
        s.view c :=
  view_modifyLoop fun _ => by
    simp [Loop.view, Loop.todo, Phase.activeChannels_, Phase.running, Phase.functors, hp]

omit [Inhabited β] in
theorem view_finish {done : List (Functor β)} (hp : (s.loops l).phase = .calling [] done) :
    (s.setPhase l .polling).view c = s.view c :=
  view_modifyLoop fun _ => by
    simp [Loop.view, Loop.todo, Phase.activeChannels_, Phase.running, Phase.functors, hp]

end Loops

/-! ### The functions of the connection -/

section Functions

variable [DecidableEq L] [Inhabited β] {r : List (TcpConnection β × Work β)}
  {u : Session (Option L) β}

/-- The server's part of the end of a connection. -/
theorem shows_queueDestroyed (hu : s.Shows c r u)
    (hv : s'.view c = (s.view c).queue .connectDestroyed)
    (hd : (s'.conns c).destroyed = (s.conns c).destroyed) :
    s'.Shows c r (u.after .queueDestroyed) := by
  refine hu.quiet trivial ⟨trivial, trivial⟩ ?_ rfl rfl rfl hd
  rw [hv, ← hu.view]
  simp [Session.view, Session.after, View.queue]

theorem shows_removeConnection (hu : s.Shows c r u) (t : Option L) :
    ∃ u', (s.removeConnection t c).Shows c r u' := by
  have hd : ((s.removeConnection t c).conns c).destroyed = (s.conns c).destroyed := by
    rw [conns_removeConnection]
  have hv : (s.removeConnection t c).view c =
      if t = some s.loop_ then (s.view c).queue .connectDestroyed else s.view c :=
    view_removeConnection
  split_ifs at hv
  · exact ⟨_, shows_queueDestroyed hu hv hd⟩
  · exact ⟨u, hu.spared hv hd⟩

/-- The label under which a session runs a callback. -/
def callbackLabel (read : ReadResult β) (write : WriteResult) :
    Callback → Session.Label (Option L) β
  | .closeCallback_ => .closeCallback
  | .errorCallback_ => .errorCallback
  | .readCallback_ => .readCallback read
  | .writeCallback_ => .writeCallback write

omit [DecidableEq L] [Inhabited β] in
theorem enabled_callbackLabel {read : ReadResult β} {write : WriteResult} {k : Callback}
    (hk : u.running.head? = some k)
    (hw : k = .writeCallback_ → write.nwrote ≤ u.conn.outputBuffer_.readableBytes) :
    u.enabled (callbackLabel read write k) := by
  cases k with
  | writeCallback_ => exact ⟨hk, hw rfl⟩
  | _ => exact hk

omit [DecidableEq L] [Inhabited β] in
theorem keepsDown_callbackLabel (read : ReadResult β) (write : WriteResult) (k : Callback) :
    u.KeepsDown (callbackLabel read write k) ∧
      ((Work.runCallback k read write).Calm u.conn → u.Calm (callbackLabel read write k)) := by
  refine ⟨by cases k <;> trivial, fun hcalm => ?_⟩
  cases k with
  | readCallback_ =>
    rcases read with bytes | _
    · exact hcalm
    · trivial
  | _ => trivial

theorem after_callbackLabel (read : ReadResult β) (write : WriteResult) (k : Callback) :
    u.after (callbackLabel read write k) = u.callback (u.conn.runCallback read write k) := by
  cases k <;> rfl

theorem shows_callback (hconf : s.Confined) (hu : s.Shows c r u) {active : List ℕ} {d : ℕ}
    {k : Callback} {rest : List (ℕ × Callback)} (read : ReadResult β) (write : WriteResult)
    (hp : (s.loops l).phase = .dispatching active ((d, k) :: rest))
    (hoff : Offers c s (.callback l read write)) :
    ∃ u', ((s.setPhase l (.dispatching active rest)).runCallback (some l) d k read write).Shows c
      (r ++ s.works c (.callback l read write)) u' := by
  have hmem : d ∈ (s.loops l).dispatched := by
    simp [Loop.dispatched, Phase.running, hp]
  have hl := (hconf.dispatched l d hmem).2
  simp only [Offers, TcpServer.works, hp] at hoff ⊢
  by_cases hdc : d = c
  · subst hdc
    rw [if_pos rfl] at hoff ⊢
    have hconn : u.conn = (s.conns d).conn := congrArg View.conn hu.view
    have hrunning : u.running = (s.view d).running := congrArg View.running hu.view
    have hoff' := hoff _ (List.mem_singleton_self _)
    have hcons : (s.view d).running =
        k :: rest.filterMap fun e => if e.1 = d then some e.2 else none := by
      simp [view, hl, Loop.view, Phase.running, hp]
    have hen : u.enabled (callbackLabel read write k) := by
      refine enabled_callbackLabel (by rw [hrunning, hcons]; rfl) fun hk => ?_
      rw [hconn]
      exact hoff' hk
    set v := s.setPhase l (.dispatching active rest) with hv
    set res := (s.conns d).conn.runCallback read write k with hres
    have hpop : v.view d = { s.view d with running := (s.view d).running.tail } := by
      rw [hcons]
      subst hl
      simp [view, hv, setPhase, modifyLoop, Loop.view, Loop.todo, Phase.activeChannels_,
        Phase.running, Phase.functors, hp]
    have hperform : (v.perform (some l) d res).Shows d
        (r ++ [((s.conns d).conn, .runCallback k read write)])
        (u.after (callbackLabel read write k)) := by
      have hafter := after_callbackLabel (u := u) read write k
      rw [hconn] at hafter
      have hkeeps := keepsDown_callbackLabel (u := u) read write k
      rw [hconn] at hkeeps
      refine hu.works (q := none) hen hkeeps ?_ ?_ ?_ ?_ ?_ ?_
      · rw [hafter, view_perform, hpop, ← hu.view]
        exact Session.view_perform ({ u with running := u.running.tail }) none res
      · rw [hafter]
        rfl
      · rw [hafter]
        rfl
      · rw [hafter]
        exact (List.append_nil _).symm
      · rw [destroyed_perform]
        exact id
      · rintro _ ⟨⟩
    unfold runCallback
    have hvconn : (v.conns d).conn = (s.conns d).conn := rfl
    simp only [hvconn, ← hres]
    split_ifs
    · exact shows_removeConnection hperform _
    · exact ⟨_, hperform⟩
  · rw [if_neg hdc, List.append_nil]
    have hpop : (s.setPhase l (.dispatching active rest)).view c = s.view c :=
      view_modifyLoop fun _ => by
        simp [Loop.view, Loop.todo, Phase.activeChannels_, Phase.running, Phase.functors, hp, hdc]
    have hperform : ∀ res,
        ((s.setPhase l (.dispatching active rest)).perform (some l) d res).Shows c
        r u := fun res => hu.spared ((view_perform_of_ne hdc res).trans hpop) (by
      rw [conns_perform, Function.update_of_ne (Ne.symm hdc)]
      rfl)
    unfold runCallback
    simp only
    split_ifs
    · refine ⟨u, (hperform _).spared (view_removeConnection_of_ne hdc) ?_⟩
      rw [conns_removeConnection]
    · exact ⟨u, hperform _⟩

theorem destroyed_runTask {task : Task β} (h : task ≠ .connectDestroyed) (w : WriteResult) :
    ((s.runTask t c task w).conns c).destroyed = (s.conns c).destroyed := by
  unfold runTask
  cases task with
  | connectDestroyed => exact absurd rfl h
  | _ => exact destroyed_perform _

theorem destroyed_connectDestroyed (w : WriteResult) :
    ((s.runTask t c .connectDestroyed w).conns c).destroyed = t := by
  show (((s.perform t c _).markDestroyed t c).conns c).destroyed = t
  rw [conns_markDestroyed, Function.update_self]

theorem conns_runTask_of_ne (hd : d ≠ c) (task : Task β) (w : WriteResult) :
    (s.runTask t d task w).conns c = s.conns c := by
  have hperform : ∀ res, (s.perform t d res).conns c = s.conns c := fun res => by
    rw [conns_perform, Function.update_of_ne hd.symm]
  unfold runTask
  cases task with
  | connectDestroyed =>
    simp only [conns_markDestroyed]
    rw [Function.update_of_ne hd.symm]
    exact hperform _
  | _ => exact hperform _

theorem conns_runInLoop_of_ne (hd : d ≠ c) (task : Task β) (w : WriteResult) :
    (s.runInLoop t d task w).conns c = s.conns c := by
  unfold runInLoop
  split_ifs
  · exact conns_runTask_of_ne hd task w
  · rfl

/-- A function that another connection runs. -/
theorem shows_runInLoop_of_ne (hu : s.Shows c r u) (hd : d ≠ c) (task : Task β) (w : WriteResult) :
    (s.runInLoop t d task w).Shows c r u :=
  hu.spared (view_runInLoop_of_ne hd task w) (by rw [conns_runInLoop_of_ne hd])

/-- A task of the connection that runs at once, under the label `l` of the session. -/
theorem shows_runTask {x : TcpServer L β} (hu : s.Shows c r u) {l : Session.Label (Option L) β}
    {q : Option (Option L)} {task : Task β} {w : WriteResult} {v : Session (Option L) β}
    (hv : v.view = x.view c) (hd : (x.conns c).destroyed = (s.conns c).destroyed)
    (hlog : v.log = u.log)
    (hgiven : v.given = u.given) (hcaller : v.caller = u.caller) (hen : u.enabled l)
    (hkeeps : u.KeepsDown l ∧ u.Calm l) (hafter : u.after l = v.runTask q task w)
    (ht : t.isSome = true) :
    (x.runTask t c task w).Shows c (r ++ [((x.conns c).conn, .runTask task w)]) (u.after l) := by
  have hconn : v.conn = (x.conns c).conn := congrArg View.conn hv
  have hends : ((x.runTask t c .connectDestroyed w).conns c).destroyed ≠ none := by
    rw [destroyed_connectDestroyed]
    rintro rfl
    cases ht
  refine hu.works (q := q) hen ⟨hkeeps.1, fun _ => hkeeps.2⟩ ?_ ?_ ?_ ?_ (fun hne => ?_) ?_
  · rw [hafter, Session.view_runTask, view_runTask, hv, hconn]
  · rw [hafter]
    exact hcaller
  · rw [hafter, ← hconn]
    show v.log ++ _ = _
    rw [hlog]
    rfl
  · rw [hafter, ← hconn]
    show v.given ++ _ = _
    rw [hgiven]
    rfl
  · by_cases htask : task = .connectDestroyed
    · rw [htask]
      exact hends
    · rw [destroyed_runTask htask, hd]
      exact hne
  · rintro w' ⟨⟩
    exact hends

theorem shows_functor (hconf : s.Confined) (hu : s.Shows c r u) {f : Functor β}
    {rest done : List (Functor β)} (w : WriteResult)
    (hp : (s.loops l).phase = .calling (f :: rest) done) (hoff : Offers c s (.functor l w)) :
    ∃ u', ((s.setPhase l (.calling rest (done ++ [f]))).call (some l) w f).Shows c
      (r ++ s.works c (.functor l w)) u' := by
  have hmem : f ∈ (s.loops l).todo := by simp [Loop.todo, Phase.functors, hp]
  obtain ⟨-, hl⟩ := hconf.located l f hmem
  simp only [Offers, TcpServer.works, hp] at hoff ⊢
  set v := s.setPhase l (.calling rest (done ++ [f])) with hv
  -- without a task of the connection the view stays as it is
  have hpop : f.taskOf c = none → v.Shows c r u := fun hnone =>
    hu.spared (view_modifyLoop fun _ => by
      simp [Loop.view, Loop.todo, Phase.activeChannels_, Phase.running, Phase.functors, hp, hnone])
      rfl
  cases f with
  | listen =>
    refine ⟨u, ?_⟩
    rw [show (Functor.listen : Functor β).taskOf c = none from rfl, Option.toList_none,
      List.map_nil,
      List.append_nil]
    exact (hpop rfl).spared rfl rfl
  | removeConnectionInLoop d =>
    rw [show (Functor.removeConnectionInLoop d : Functor β).taskOf c = none from rfl,
      Option.toList_none, List.map_nil, List.append_nil]
    by_cases hdc : d = c
    · subst hdc
      exact ⟨_, shows_queueDestroyed (hpop rfl) view_removeConnectionInLoop rfl⟩
    · exact ⟨u, (hpop rfl).spared (view_removeConnectionInLoop_of_ne hdc) rfl⟩
  | run task d =>
    by_cases hdc : d = c
    · subst hdc
      have htask : (Functor.run task d : Functor β).taskOf d = some task := if_pos rfl
      rw [htask] at hoff ⊢
      have hoff' : w.nwrote ≤ task.asks.length := hoff _ (List.mem_singleton_self _)
      have hl' : (s.conns d).loop_ = l := hl.symm
      have hcons : (s.view d).pending = task :: (v.view d).pending := by
        subst hl'
        simp [view, hv, setPhase, modifyLoop, Loop.view, Loop.todo, Phase.functors, hp,
          Functor.taskOf]
      have hrest : v.view d = { s.view d with pending := (v.view d).pending } := by
        subst hl'
        simp [view, hv, setPhase, modifyLoop, Loop.view, Phase.activeChannels_, Phase.running, hp]
      have hpending : u.pending.map Prod.snd = (s.view d).pending := congrArg View.pending hu.view
      rw [hcons] at hpending
      obtain ⟨e, pending, hu', rfl, hpending'⟩ := List.map_eq_cons_iff.1 hpending
      have hidle : u.active = false := by
        have hactive : u.active.toNat = (s.view d).active := congrArg View.active hu.view
        rw [show (s.view d).active = 0 by simp [view, hl', Loop.view, Phase.activeChannels_, hp]]
          at hactive
        simpa using hactive
      have hrun : u.running = [] := by
        have hrunning := congrArg View.running hu.view
        simpa [Session.view, view, hl', Loop.view, Phase.running, hp] using hrunning
      have hen : u.enabled (.task w) := ⟨hidle, hrun, by simpa [Session.taskFits, hu'] using hoff'⟩
      refine ⟨_, shows_runTask (x := v) (v := { u with pending := pending }) hu ?_ rfl rfl rfl rfl
        hen ⟨trivial, trivial⟩ (Session.after_task hu' w) rfl⟩
      rw [hrest, ← hu.view, ← hpending']
      rfl
    · refine ⟨u, ?_⟩
      rw [show (Functor.run task d : Functor β).taskOf c = none from if_neg hdc, Option.toList_none,
        List.map_nil, List.append_nil]
      refine (hpop (if_neg hdc)).spared (view_runTask_of_ne hdc task w) ?_
      exact congrArg Connection.destroyed (conns_runTask_of_ne hdc task w)

/-- A thread that has tested `state_` queues its task. -/
theorem shows_push {x : TcpServer L β} (hu : s.Shows c r u) {v : Session (Option L) β}
    {b : Caller β}
    {task : Task β} (hreached : v.Reached (∀ e ∈ r, e.2.Calm e.1)) (hv : v.view = x.view c)
    (hcaller : v.caller = Function.update u.caller t b) (htask : b.task = some task)
    (hlog : v.log = u.log) (hgiven : v.given = u.given)
    (hd : (x.conns c).destroyed = (s.conns c).destroyed) :
    (x.queueInLoop (x.conns c).loop_ (.run task c)).Shows c r (v.after (.push t)) := by
  have hown : v.caller t = b := by rw [hcaller, Function.update_self]
  have hen : v.enabled (.push t) := by
    show (v.caller t).task.isSome = true
    rw [hown, htask]
    rfl
  refine ⟨hreached.after id ⟨trivial, fun _ => trivial⟩ hen, ?_, fun t' => ?_,
    hlog.trans hu.log, ?_, ?_⟩
  · rw [view_queueInLoop, ← hv]
    simp [Session.view, Session.after, Session.setCaller, View.queue, hown, htask]
  · show Function.update v.caller t .idle t' = .idle
    rw [hcaller, Function.update_idem]
    by_cases ht : t' = t
    · rw [ht, Function.update_self]
    · rw [Function.update_of_ne ht, hu.caller]
  · show v.given.map Prod.snd = _
    rw [hgiven, hu.given]
  · show .remove ∈ v.log → (x.conns c).destroyed ≠ none
    rw [hlog, hd]
    exact hu.removed

/-- `send` and `sendFile`: the task runs at once under the label `l`, or the thread tests `state_`
under the label `m` and queues it. -/
theorem shows_call (hu : s.Shows c r u) {task : Task β} {w : WriteResult} {p : Payload β}
    {b : Caller β} {l m : Session.Label (Option L) β} (htask : b.task = some task)
    (hl : t = some (s.conns c).loop_ → u.enabled l)
    (hkeeps : (u.KeepsDown l ∧ u.Calm l) ∧ u.KeepsDown m ∧ u.Calm m)
    (hdirect : u.after l = (u.accept none p).runTask none task w) (htest : u.enabled m)
    (hafter : u.after m = (u.accept (some t) p).setCaller t b) :
    ∃ u', (s.runInLoop t c task w).Shows c
      (r ++ if t = some (s.conns c).loop_ then [((s.conns c).conn, .runTask task w)] else [])
          u' := by
  unfold runInLoop
  split_ifs with ht
  · have hsome : t.isSome = true := by simp [ht]
    exact ⟨_, shows_runTask (x := s) (v := u.accept none p) (q := none) hu hu.view rfl rfl rfl rfl
      (hl ht) hkeeps.1 hdirect hsome⟩
  · have hreached := hu.reached.after id ⟨hkeeps.2.1, fun _ => hkeeps.2.2⟩ htest
    rw [hafter] at hreached
    rw [List.append_nil]
    exact ⟨_, shows_push (x := s) hu hreached hu.view rfl htask rfl rfl rfl⟩

omit [Inhabited β] in
/-- No thread is inside a call. -/
theorem idle_of_shows [Inhabited β] (hu : s.Shows c r u) (t : Option L) :
    (u.caller t).isIdle = true := by
  rw [hu.caller]
  rfl

theorem shows_send (hu : s.Shows c r u) (data : List β) (w : WriteResult)
    (hconn : (s.conns c).conn.connected = true)
    (hoff : t = some (s.conns c).loop_ → w.nwrote ≤ data.length) :
    ∃ u', (s.runInLoop t c (.sendInLoop data) w).Shows c
      (r ++ if t = some (s.conns c).loop_ then
        [((s.conns c).conn, .runTask (.sendInLoop data) w)] else []) u' := by
  have hconn' : u.conn.connected = true := by
    rw [show u.conn = (s.conns c).conn from congrArg View.conn hu.view, hconn]
  refine shows_call (p := .send data) (l := .send data w) (m := .sendTest t data)
    (b := .sending data) hu rfl hoff ⟨⟨trivial, trivial⟩, trivial, trivial⟩ ?_
    (idle_of_shows hu t) ?_
  · simp only [Session.after, hconn', if_true]
  · simp only [Session.after, hconn', if_true]

theorem shows_sendFile (hu : s.Shows c r u) (file : List β) (offset count : ℕ) (w : WriteResult)
    (hconn : (s.conns c).conn.connected = true)
    (hoff : t = some (s.conns c).loop_ → w.nwrote ≤ ((file.drop offset).take count).length) :
    ∃ u', (s.runInLoop t c (.sendFileInLoop file offset count) w).Shows c
      (r ++ if t = some (s.conns c).loop_ then
        [((s.conns c).conn, .runTask (.sendFileInLoop file offset count) w)] else []) u' := by
  have hconn' : u.conn.connected = true := by
    rw [show u.conn = (s.conns c).conn from congrArg View.conn hu.view, hconn]
  refine shows_call (p := .file ((file.drop offset).take count))
    (l := .sendFile file offset count w) (m := .sendFileTest t file offset count)
    (b := .sendingFile file offset count) hu rfl hoff ⟨⟨trivial, trivial⟩, trivial, trivial⟩ ?_
    (idle_of_shows hu t) ?_
  · simp only [Session.after, hconn', if_true]
  · simp only [Session.after, hconn', if_true]

/-- `shutdown()`, on the loop's thread or as test, store and push on another one. -/
theorem shows_shutdown (hu : s.Shows c r u) (hconn : (s.conns c).conn.connected = true) :
    ∃ u', ((s.setConn c { (s.conns c).conn with state_ := .kDisconnecting }).runInLoop t c
      .shutdownInLoop (.sent 0)).Shows c
      (r ++ if t = some (s.conns c).loop_ then
        [({ (s.conns c).conn with state_ := .kDisconnecting },
          .runTask .shutdownInLoop (.sent 0))] else []) u' := by
  set v := s.setConn c { (s.conns c).conn with state_ := .kDisconnecting } with hv
  have hshown : u.conn = (s.conns c).conn := congrArg View.conn hu.view
  have hconn' : u.conn.connected = true := by rw [hshown, hconn]
  have hview : (u.setState .kDisconnecting).view = v.view c := by
    rw [hv, view_setState, ← hu.view]
    rfl
  have hloop : (v.conns c).loop_ = (s.conns c).loop_ := by simp [hv, setConn]
  have hvconn : (v.conns c).conn = { (s.conns c).conn with state_ := .kDisconnecting } := by
    simp [hv, setConn]
  have hd : (v.conns c).destroyed = (s.conns c).destroyed := by simp [hv, setConn]
  unfold runInLoop
  rw [hloop]
  split_ifs with ht
  · rw [← hvconn]
    refine ⟨_, shows_runTask (x := v) (v := u.setState .kDisconnecting) (l := .shutdown)
      (q := none) hu hview hd rfl rfl rfl trivial ⟨trivial, trivial⟩ ?_ (by simp [ht])⟩
    simp only [Session.after, hconn', if_true]
  · rw [List.append_nil]
    have htest : u.after (.shutdownTest t) = u.setCaller t .loaded := by
      simp only [Session.after, hconn', if_true]
    have hreached := hu.reached.after (l := .shutdownTest t) id ⟨trivial, fun _ => trivial⟩
      (idle_of_shows hu t)
    rw [htest] at hreached
    have hstore : (u.setCaller t .loaded).enabled (.shutdownStore t) := by
      show (Function.update u.caller t .loaded t).isLoaded = true
      rw [Function.update_self]
      rfl
    have hkeeps : u.conn.state_ ≠ .kDisconnected := by
      have hstate : u.conn.state_ = .kConnected := by
        simpa [TcpConnection.connected] using hconn'
      simp [hstate]
    rw [← hloop]
    refine ⟨_, shows_push (x := v) (t := t) (b := .stored) hu (hreached.after
      (l := .shutdownStore t) id ⟨hkeeps, fun _ hdown => absurd hdown hkeeps⟩ hstore) hview ?_
      rfl rfl rfl hd⟩
    exact Function.update_idem _ _ _

/-! ### New connections -/

omit [DecidableEq L] in
/-- The other connections do not see a new one. -/
theorem view_makeConnection_of_ne (hc : c ≠ s.made) (sockfd : ℤ) (highWater : Bool) (mark : ℕ) :
    (s.makeConnection t sockfd highWater mark).conns c = s.conns c ∧
      (s.makeConnection t sockfd highWater mark).view c = s.view c := by
  have hconn : (s.makeConnection t sockfd highWater mark).conns c = s.conns c :=
    Function.update_of_ne hc _ _
  exact ⟨hconn, view_congr hconn rfl⟩

omit [DecidableEq L] in
/-- Nothing is queued or reported for a new connection. -/
theorem view_makeConnection (hconf : s.Confined) (sockfd : ℤ) (highWater : Bool) (mark : ℕ) :
    (s.makeConnection t sockfd highWater mark).view s.made =
      ⟨.init sockfd s.writeCompleteCallback_ highWater mark, 0, [], []⟩ := by
  have hconn : (s.makeConnection t sockfd highWater mark).conns s.made =
      ⟨s.getNextLoop.1, s.connName, .init sockfd s.writeCompleteCallback_ highWater mark, none⟩ :=
    Function.update_self _ _ _
  have hdispatched : ∀ l, s.made ∉ (s.loops l).dispatched := fun l hmem =>
    Nat.lt_irrefl _ (hconf.dispatched l _ hmem).1
  have hactive : ∀ l, (s.loops l).phase.activeChannels_.count s.made = 0 := fun l =>
    List.count_eq_zero.2 fun hmem => hdispatched l (List.mem_append_left _ hmem)
  have hrunning : ∀ l, (s.loops l).phase.running.filterMap
      (fun e => if e.1 = s.made then some e.2 else none) = [] := by
    intro l
    refine List.filterMap_eq_nil_iff.2 fun e he => if_neg fun hm => hdispatched l ?_
    exact List.mem_append_right _ (List.mem_map.2 ⟨e, he, hm⟩)
  have htasks : ∀ l, (s.loops l).todo.filterMap (Functor.taskOf s.made) = [] := by
    intro l
    refine List.filterMap_eq_nil_iff.2 fun f hf => ?_
    cases f with
    | run task d => exact if_neg (Nat.ne_of_lt ((hconf.located l _ hf).1 d rfl))
    | removeConnectionInLoop d | listen => rfl
  rw [view, hconn]
  exact congr (congrArg₂ (View.mk _) (hactive _) (hrunning _)) (htasks _)

/-- A connection whose `connectEstablished` is queued is a new session. -/
theorem shows_init (hconf : s.Confined) (sockfd : ℤ) (highWater : Bool) (mark : ℕ) :
    let v := s.makeConnection t sockfd highWater mark
    (v.queueInLoop (v.conns s.made).loop_ (.run .connectEstablished s.made)).Shows s.made []
      (.init sockfd s.writeCompleteCallback_ highWater mark) := by
  intro v
  refine ⟨⟨sockfd, s.writeCompleteCallback_, highWater, mark, [], trivial, rfl⟩, ?_, fun _ => rfl,
    rfl, rfl, fun hmem => by cases hmem⟩
  rw [view_queueInLoop, view_makeConnection hconf]
  rfl

theorem shows_newConnection (hconf : s.Confined) (ht : t = some s.loop_) (sockfd : ℤ)
    (highWater : Bool) (mark : ℕ) :
    ∃ u', (s.newConnection t sockfd highWater mark).Shows s.made
      (s.works s.made (.newConnection sockfd highWater mark)) u' := by
  have hinit := shows_init (t := t) hconf sockfd highWater mark
  have hview := view_makeConnection (t := t) hconf sockfd highWater mark
  set v := s.makeConnection t sockfd highWater mark with hv
  have hconn : v.conns s.made = ⟨s.getNextLoop.1, s.connName,
      .init sockfd s.writeCompleteCallback_ highWater mark, none⟩ := Function.update_self _ _ _
  show ∃ u', (v.runInLoop t s.made .connectEstablished (.sent 0)).Shows _ _ u'
  unfold runInLoop
  simp only [TcpServer.works, true_and, hconn, ht, Option.some.injEq]
  by_cases hbase : s.loop_ = s.getNextLoop.1
  · rw [if_pos hbase, if_pos hbase.symm]
    have hrun := shows_runTask (x := v) (t := some s.loop_) (r := []) (l := .task (.sent 0))
      (q := none)
      (v := { Session.init sockfd s.writeCompleteCallback_ highWater mark with pending := [] })
      hinit (by rw [hview]; rfl) rfl rfl rfl rfl ⟨rfl, rfl, rfl⟩ ⟨trivial, trivial⟩ rfl rfl
    rw [hconn] at hrun
    exact ⟨_, hrun⟩
  · rw [if_neg hbase, if_neg (Ne.symm hbase)]
    simp only [hconn] at hinit
    exact ⟨_, hinit⟩

/-! ### Every step -/

variable [Fintype L]

/-- A public call on `d` that leads to `v`; it shows `x` of the connection that it is on, if the
thread is that of its loop. -/
theorem shows_public {v : TcpServer L β} {x : TcpConnection β × Work β} (hu : s.Shows c r u)
    (hst : (if s.Alive d then if (s.conns d).conn.connected then some v else some s else none) =
      some s')
    (hother : d ≠ c → v.Shows c r u)
    (hself : d = c → (s.conns c).conn.connected = true →
      ∃ u', v.Shows c (r ++ if t = some (s.conns c).loop_ then [x] else []) u') :
    ∃ u', s'.Shows c (r ++ if d = c ∧ t = some (s.conns c).loop_ ∧
      (s.conns c).conn.connected = true then [x] else []) u' := by
  by_cases hdc : d = c
  · subst hdc
    obtain ⟨-, ⟨hconn, rfl⟩ | ⟨hconn, rfl⟩⟩ := call_eq_some hst
    · simpa only [true_and, hconn, and_true] using hself rfl hconn
    · refine ⟨u, ?_⟩
      rwa [if_neg (by simp [hconn]), List.append_nil]
  · rw [if_neg fun h => hdc h.1, List.append_nil]
    obtain ⟨-, ⟨-, rfl⟩ | ⟨-, rfl⟩⟩ := call_eq_some hst
    · exact ⟨u, hother hdc⟩
    · exact ⟨u, hu⟩

theorem shows_of_call {a : Label L β} (ha : a.isCall = true) (hwhole : a.isWhole = true)
    (hst : s.next a = some s') (hoff : Offers c s a) (hu : s.Shows c r u) :
    ∃ u', s'.Shows c (r ++ s.works c a) u' := by
  cases a with
  | send t d data w =>
    refine shows_public hu hst (fun hdc => shows_runInLoop_of_ne hu hdc _ w) fun hdc hconn => ?_
    subst hdc
    exact shows_send hu data w hconn fun ht =>
      hoff ((s.conns d).conn, .runTask (.sendInLoop data) w) (by simp [TcpServer.works, ht, hconn])
  | sendFile t d file offset count w =>
    refine shows_public hu hst (fun hdc => shows_runInLoop_of_ne hu hdc _ w) fun hdc hconn => ?_
    subst hdc
    exact shows_sendFile hu file offset count w hconn fun ht =>
      hoff ((s.conns d).conn, .runTask (.sendFileInLoop file offset count) w)
        (by simp [TcpServer.works, ht, hconn])
  | shutdown t d =>
    refine shows_public hu hst (fun hdc => ?_) fun hdc hconn => ?_
    · have hset : (s.setConn d { (s.conns d).conn with state_ := .kDisconnecting }).Shows c r u :=
        hu.spared (view_setConn_of_ne hdc _) (by
          rw [conns_setConn, Function.update_of_ne (Ne.symm hdc)])
      exact shows_runInLoop_of_ne hset hdc _ _
    · subst hdc
      exact shows_shutdown hu hconn
  | keep d | drop d =>
    simp only [next, Option.ite_none_right_eq_some, Option.some.injEq] at hst
    obtain ⟨-, rfl⟩ := hst
    simp only [TcpServer.works, List.append_nil]
    exact ⟨u, hu.spared rfl rfl⟩
  | store | push => cases hwhole
  | _ => cases ha

/-- A step shows a session of every connection that has been made. -/
theorem shows_next {a : Label L β} (h : s.Owned) (hconf : s.Confined) (hwhole : a.isWhole = true)
    (hnew : a.isNew = false) (hst : s.next a = some s') (halive : s'.stage = .alive)
    (hoff : Offers c s a) (hu : s.Shows c r u) : ∃ u', s'.Shows c (r ++ s.works c a) u' := by
  have hnone :
      s.works c a = [] → (∃ u', s'.Shows c r u') → ∃ u', s'.Shows c (r ++ s.works c a) u' :=
    fun hw hs' => by rwa [hw, List.append_nil]
  cases a with
  | newConnection sockfd highWater mark => cases hnew
  | store | push => cases hwhole
  | start t =>
    simp only [next, Option.ite_none_right_eq_some, Option.some.injEq] at hst
    obtain ⟨-, rfl⟩ := hst
    exact hnone rfl ⟨u, shows_start hu t⟩
  | poll l events =>
    refine hnone rfl ?_
    obtain ⟨hp, hnodup, -, rfl⟩ := next_poll hst
    exact shows_poll h hconf hu hp hnodup
  | handleEvent l =>
    refine hnone rfl ?_
    obtain ⟨d, rest, hp, rfl⟩ := next_handleEvent hst
    exact shows_handleEvent h hconf hu hp
  | callback l read write =>
    obtain ⟨active, d, k, rest, hp, rfl⟩ := next_callback hst
    exact shows_callback hconf hu read write hp hoff
  | swap l =>
    refine hnone rfl ?_
    obtain ⟨hp, rfl⟩ := next_swap hst
    exact ⟨u, hu.spared (view_swap hp) rfl⟩
  | functor l w =>
    obtain ⟨f, rest, done, hp, rfl⟩ := next_functor hst
    exact shows_functor hconf hu w hp hoff
  | finish l =>
    refine hnone rfl ?_
    obtain ⟨done, hp, rfl⟩ := next_finish hst
    exact ⟨u, hu.spared (view_finish hp) rfl⟩
  | send | sendFile | shutdown | keep | drop => exact shows_of_call rfl hwhole hst hoff hu
  | destroy conns =>
    simp only [next, Option.ite_none_right_eq_some, Option.some.injEq] at hst
    obtain ⟨-, rfl⟩ := hst
    cases halive
  | exit l =>
    obtain ⟨-, hs, -, rfl⟩ := next_exit hst
    cases hs.symm.trans halive
  | destroyed =>
    simp only [next, Option.ite_none_right_eq_some, Option.some.injEq] at hst
    obtain ⟨-, rfl⟩ := hst
    cases halive

/-- Nothing runs of a connection before it is made. -/
theorem works_of_unmade {a : Label L β} (hconf : s.Confined) (hnew : a.isNew = false)
    (hst : s.next a = some s') (hc : s.made ≤ c) : s.works c a = [] := by
  have halive : ∀ d, s.Alive d → d ≠ c := fun d hd hdc => by
    have := hd.1
    omega
  cases a with
  | newConnection => cases hnew
  | callback l read write =>
    simp only [TcpServer.works]
    split
    · next d k rest hp =>
      have hd : d < s.made :=
        (hconf.dispatched l d (by simp [Loop.dispatched, Phase.running, hp])).1
      exact if_neg (by omega)
    · rfl
  | functor l w =>
    simp only [TcpServer.works]
    split
    · next f rest done hp =>
      have hf : f ∈ (s.loops l).todo := by simp [Loop.todo, Phase.functors, hp]
      cases f with
      | run task d =>
        have hd : d < s.made := (hconf.located l _ hf).1 d rfl
        simp [Functor.taskOf, show d ≠ c by omega]
      | removeConnectionInLoop d | listen => rfl
    · rfl
  | send t d data w | sendFile t d file offset count w | shutdown t d =>
    simp only [next, Option.ite_none_right_eq_some] at hst
    simp [TcpServer.works, halive d hst.1]
  | destroy conns =>
    simp only [next, Option.ite_none_right_eq_some] at hst
    refine if_neg fun hmem => ?_
    have := (hst.1.2.2.1 c hmem.1).1
    omega
  | _ => rfl

/-- What holds of the connection `c` while the server is alive: it is a session once it is made. -/
def Shown (s : TcpServer L β) (c : ℕ) (r : List (TcpConnection β × Work β)) : Prop :=
  (c < s.made → ∃ u, s.Shows c r u) ∧ (s.made ≤ c → r = [])

theorem shown_next {a : Label L β} (h : s.Owned) (hconf : s.Confined) (hwhole : a.isWhole = true)
    (hst : s.next a = some s') (halive : s'.stage = .alive) (hoff : Offers c s a)
    (hs : s.Shown c r) : s'.Shown c (r ++ s.works c a) := by
  cases hnew : a.isNew with
  | false =>
    have hmade : s'.made = s.made := (sameServer_next hnew hst).made
    refine ⟨fun hc => ?_, fun hc => ?_⟩
    · obtain ⟨u, hu⟩ := hs.1 (hmade ▸ hc)
      exact shows_next h hconf hwhole hnew hst halive hoff hu
    · rw [hmade] at hc
      rw [hs.2 hc, works_of_unmade hconf hnew hst hc, List.append_nil]
  | true =>
    cases a with
    | newConnection sockfd highWater mark =>
      obtain ⟨-, -, -, rfl⟩ := next_newConnection hst
      have hmade := (newConnection_deals (s := s) (t := some s.loop_) sockfd highWater mark).2.2.2.1
      by_cases hc : c = s.made
      · subst hc
        refine ⟨fun _ => ?_, fun hlt => ?_⟩
        · rw [hs.2 (le_refl _), List.nil_append]
          exact shows_newConnection hconf rfl sockfd highWater mark
        · omega
      · have hworks : s.works c (.newConnection sockfd highWater mark) = [] :=
          if_neg fun hmem => hc hmem.1
        rw [hworks, List.append_nil]
        refine ⟨fun hlt => ?_, fun hle => hs.2 (by omega)⟩
        obtain ⟨u, hu⟩ := hs.1 (by omega)
        obtain ⟨hconn, hview⟩ :=
          view_makeConnection_of_ne (t := some s.loop_) hc sockfd highWater mark
        exact ⟨u, shows_runInLoop_of_ne (hu.spared hview (by rw [hconn])) (Ne.symm hc) _ _⟩
    | _ => cases hnew
end Functions

end TcpServer

end Muduo
