import MuduoCpp.Destruction

/-!
# Who holds a connection

`connections_` holds a connection until its removal, then the functors do: `removeConnectionInLoop`
on the base loop, `connectDestroyed` on its own.  The pollers and `activeChannels_` have no
reference.

* `Life`: the place of a connection on its way, from `newConnection` to after `connectDestroyed`;
* `Owned`: each connection has a place, the fds of those that are not finished are different, and
  the pollers have what `index_` says;
* `owned_of_acts`, `owned_of_plain`, `owned_of_frames`: what a step has to do to keep this;
* `owned_callback`, `owned_functor`, …: the steps do.
-/

namespace Muduo

namespace TcpServer

variable {L β : Type}

/-- `connectDestroyed` has not run, or something that ends the connection is still queued. -/
def Busy (s : TcpServer L β) (c : ℕ) : Prop :=
  (s.conns c).destroyed = none ∨
    ∃ l, ∃ f ∈ (s.loops l).todo, f.conn = some c ∧ f.isEnding = true

/-- The entry under the name of `c` is its own, if there is one. -/
def OwnEntry (s : TcpServer L β) (c : ℕ) : Prop :=
  s.connections_ (s.conns c).name_ = none ∨ s.connections_ (s.conns c).name_ = some c

/-! ### The life of a connection -/

/-- Until `connectEstablished` has run. -/
structure Fresh (s : TcpServer L β) (c : ℕ) : Prop where
  live : (s.conns c).destroyed = none
  state : (s.conns c).conn.state_ = .kConnecting
  index : (s.conns c).conn.channel_.index_ = .kNew
  mapped : s.connections_ (s.conns c).name_ = some c
  tasks : ∀ l, s.tasksOf l c = [] ∨ s.tasksOf l c = [.run .connectEstablished c]
  idle : ∀ l, c ∉ (s.loops l).dispatched

/-- Until `handleClose`. -/
structure Up (s : TcpServer L β) (c : ℕ) : Prop where
  live : (s.conns c).destroyed = none
  state : (s.conns c).conn.state_ = .kConnected ∨ (s.conns c).conn.state_ = .kDisconnecting
  mapped : s.connections_ (s.conns c).name_ = some c
  plain : ∀ l, ∀ f ∈ (s.loops l).todo, f.conn = some c → f.isPlain = true

/-- Until `connectDestroyed`: a task is on its way to it. -/
structure Closed (s : TcpServer L β) (c : ℕ) : Prop where
  live : (s.conns c).destroyed = none
  state : (s.conns c).conn.state_ = .kDisconnected
  established : ∀ l, .run .connectEstablished c ∉ (s.loops l).todo
  ending : ∃ l, ∃ f ∈ (s.loops l).todo, f.conn = some c ∧ f.isEnding = true

/-- `connectDestroyed` has run. -/
structure Gone (s : TcpServer L β) (c : ℕ) : Prop where
  destroyed : (s.conns c).destroyed = some (s.conns c).loop_
  state : (s.conns c).conn.state_ = .kDisconnected
  index : (s.conns c).conn.channel_.index_ = .kNew
  established : ∀ l, .run .connectEstablished c ∉ (s.loops l).todo
  idle : ∀ l, c ∉ (s.loops l).dispatched

/-- A connection is in one of four parts of its life. -/
def Life (s : TcpServer L β) (c : ℕ) : Prop := s.Fresh c ∨ s.Up c ∨ s.Closed c ∨ s.Gone c

/-- The invariant: who holds a connection, in which part of its life. -/
structure Owned (s : TcpServer L β) : Prop where
  life : ∀ c < s.made, s.Life c
  fds : ∀ c < s.made, ∀ d < s.made, s.Busy c → s.Busy d → c ≠ d →
    (s.conns c).conn.channel_.fd_ ≠ (s.conns d).conn.channel_.fd_
  holds : ∀ c < s.made, s.Busy c →
    (s.loops (s.conns c).loop_).poller.Holds c (s.conns c).conn.channel_
  registered : ∀ l fd c, s.Registered l fd c →
    (s.conns c).conn.channel_.fd_ = fd ∧ (s.conns c).conn.channel_.index_ ≠ .kNew

variable {s s' : TcpServer L β} {c d : ℕ} {l : L} {t : Option L}

theorem mem_holders_of_todo {loop : Loop β} {f : Functor β} (hf : f ∈ loop.todo)
    (hc : f.conn = some c) : c ∈ loop.holders :=
  List.mem_append_left _ (List.mem_filterMap.2 ⟨f, List.mem_append_left _ hf, hc⟩)

theorem busy_iff : s.Busy c ↔
    (s.conns c).destroyed = none ∨ ∃ l, ∃ f ∈ s.tasksOf l c, f.isEnding = true := by
  simp [Busy, mem_tasksOf, and_assoc]

namespace Life

/-- A connection that is not gone is held by `connections_` or by a task. -/
theorem held (h : s.Life c) : s.Held c ∨ s.Gone c := by
  rcases h with h | h | h | h
  · exact Or.inl (Or.inl h.mapped)
  · exact Or.inl (Or.inl h.mapped)
  · obtain ⟨l, f, hf, hc, -⟩ := h.ending
    exact Or.inl (Or.inr (Or.inl ⟨l, mem_holders_of_todo hf hc⟩))
  · exact Or.inr h

theorem held_of_busy (h : s.Life c) (hb : s.Busy c) : s.Held c := by
  rcases h.held with h | h
  · exact h
  · rcases hb with hb | ⟨l, f, hf, hc, -⟩
    · rw [h.destroyed] at hb
      cases hb
    · exact Or.inr (Or.inl ⟨l, mem_holders_of_todo hf hc⟩)

theorem established (h : s.Life c) (hf : ¬ s.Fresh c) :
    ∀ l, .run .connectEstablished c ∉ (s.loops l).todo := by
  rcases h with h | h | h | h
  · exact absurd h hf
  · intro l hmem
    cases h.plain l _ hmem rfl
  · exact h.established
  · exact h.established

theorem begun (h : s.Life c) (hf : ¬ s.Fresh c) : (s.conns c).conn.state_ ≠ .kConnecting := by
  intro hs
  rcases h with h | h | h | h
  · exact hf h
  · rcases h.state with hst | hst <;> cases hs.symm.trans hst
  · cases hs.symm.trans h.state
  · cases hs.symm.trans h.state

/-- A connection stays where it is on its way if nothing of it changes. -/
theorem congr (h : s.Life c) (hconn : s'.conns c = s.conns c)
    (hmap : s.connections_ (s.conns c).name_ = some c → s'.connections_ (s.conns c).name_ = some c)
    (htasks : ∀ l, s'.tasksOf l c = s.tasksOf l c)
    (hidle : (s.conns c).conn.channel_.index_ = .kNew → (∀ l, c ∉ (s.loops l).dispatched) →
      ∀ l, c ∉ (s'.loops l).dispatched) : s'.Life c := by
  have hmem : ∀ l f, f.conn = some c → (f ∈ (s'.loops l).todo ↔ f ∈ (s.loops l).todo) := by
    intro l f hf
    have := congrArg (f ∈ ·) (htasks l)
    simpa [mem_tasksOf, hf] using this
  rcases h with hf | hu | hcl | hg
  · refine Or.inl ⟨?_, ?_, ?_, ?_, fun l => ?_, hidle hf.index hf.idle⟩
    · rw [hconn, hf.live]
    · rw [hconn, hf.state]
    · rw [hconn, hf.index]
    · rw [hconn]
      exact hmap hf.mapped
    · rw [htasks]
      exact hf.tasks l
  · refine Or.inr (Or.inl ⟨?_, ?_, ?_, fun l f hf hfc => hu.plain l f ((hmem l f hfc).1 hf) hfc⟩)
    · rw [hconn, hu.live]
    · rw [hconn]
      exact hu.state
    · rw [hconn]
      exact hmap hu.mapped
  · refine Or.inr (Or.inr (Or.inl ⟨?_, ?_, fun l hl => ?_, ?_⟩))
    · rw [hconn, hcl.live]
    · rw [hconn, hcl.state]
    · exact hcl.established l ((hmem l _ rfl).1 hl)
    · obtain ⟨l, f, hf, hfc, hend⟩ := hcl.ending
      exact ⟨l, f, (hmem l f hfc).2 hf, hfc, hend⟩
  · refine Or.inr (Or.inr (Or.inr ⟨?_, ?_, ?_, fun l hl => ?_, hidle hg.index hg.idle⟩))
    · rw [hconn, hg.destroyed]
    · rw [hconn, hg.state]
    · rw [hconn, hg.index]
    · exact hg.established l ((hmem l _ rfl).1 hl)

/-- What is dispatched is connected or closed. -/
theorem of_dispatched (h : s.Life c) (hd : c ∈ (s.loops l).dispatched) : s.Up c ∨ s.Closed c := by
  rcases h with h | h | h | h
  · exact absurd hd (h.idle l)
  · exact Or.inl h
  · exact Or.inr h
  · exact absurd hd (h.idle l)

theorem of_index (h : s.Life c) (hi : (s.conns c).conn.channel_.index_ ≠ .kNew) :
    s.Up c ∨ s.Closed c := by
  rcases h with h | h | h | h
  · exact absurd h.index hi
  · exact Or.inl h
  · exact Or.inr h
  · exact absurd h.index hi

end Life

/-- A functor of a connection that has not begun is the first one. -/
theorem not_fresh_of_todo {f : Functor β} (hf : f ∈ (s.loops l).todo) (hc : f.conn = some c)
    (hne : f ≠ .run .connectEstablished c) : ¬ s.Fresh c := by
  intro hfresh
  have hmem : f ∈ s.tasksOf l c := mem_tasksOf.2 ⟨hf, hc⟩
  rcases hfresh.tasks l with ht | ht
  · rw [ht] at hmem
    cases hmem
  · rw [ht] at hmem
    exact hne (List.mem_singleton.1 hmem)

theorem not_plain_of_ending {f : Functor β} (h : f.isEnding = true) : f.isPlain = false := by
  cases f with
  | run task d => cases task <;> first | rfl | cases h
  | removeConnectionInLoop d => rfl
  | listen => cases h

theorem closed_or_gone (h : s.Life c) {f : Functor β} (hf : f ∈ (s.loops l).todo)
    (hc : f.conn = some c) (hend : f.isEnding = true) : s.Closed c ∨ s.Gone c := by
  rcases h with h | h | h | h
  · refine absurd h (not_fresh_of_todo hf hc fun he => ?_)
    rw [he] at hend
    cases hend
  · have := h.plain l f hf hc
    rw [not_plain_of_ending hend] at this
    cases this
  · exact Or.inl h
  · exact Or.inr h

/-! ### A step of one connection -/

variable {K : Functor β → Prop}

namespace Acts

theorem busy_iff (h : s.Acts s' c K) (hd : d ≠ c) : s'.Busy d ↔ s.Busy d := by
  rw [TcpServer.busy_iff, TcpServer.busy_iff, h.conns d hd]
  simp only [h.tasks _ d hd]

theorem fds (h : s.Acts s' c K) (d : ℕ) :
    (s'.conns d).conn.channel_.fd_ = (s.conns d).conn.channel_.fd_ := by
  by_cases hd : d = c
  · rw [hd, h.fdOf]
  · rw [h.conns d hd]

/-- `connectEstablished` does not come back. -/
theorem established (ha : s.Acts s' c K) (hin : ¬ K (.run .connectEstablished c))
    (hest : ∀ l, .run .connectEstablished c ∉ (s.loops l).todo) (l : L) :
    .run .connectEstablished c ∉ (s'.loops l).todo := by
  intro hmem
  rcases ha.added l _ hmem with hmem | ⟨-, -, hnew⟩
  · exact hest l hmem
  · exact hin hnew

end Acts

theorem registered_of_holds {p : EPollPoller ℕ} {channel : Channel} (h : p.Holds c channel)
    (hd : p.channels_ channel.fd_ = some d ∨
      ∃ events, p.epollfd_ channel.fd_ = some ⟨events, d⟩) : d = c ∧ channel.index_ ≠ .kNew := by
  rw [EPollPoller.Holds] at h
  cases hi : channel.index_ <;> rw [hi] at h <;> simp_all

/-- A step of `c` leaves everything owned if it gives `c` a place on its way again: while the server
is not finished with `c`, or without a change of its channel. -/
theorem owned_of_acts (h : s.Owned) (hconf : s.Confined) (ha : s.Acts s' c K) (hc : c < s.made)
    (hmap : ∀ d, d ≠ c → s.connections_ (s.conns d).name_ = some d →
      s'.connections_ (s.conns d).name_ = some d) (hlife : s'.Life c)
    (hbusy : s.Busy c ∨ ((s'.Busy c → s.Busy c) ∧ (∀ l, (s'.loops l).poller = (s.loops l).poller) ∧
      (s'.conns c).conn.channel_ = (s.conns c).conn.channel_)) : s'.Owned := by
  have hstill : ∀ d, s'.Busy d → s.Busy d := by
    intro d hb
    by_cases hd : d = c
    · subst hd
      exact hbusy.elim id fun hq => hq.1 hb
    · exact (ha.busy_iff hd).1 hb
  refine ⟨fun d hd => ?_, fun d hd e he hbd hbe hne => ?_, fun d hd hb => ?_, fun l fd e he => ?_⟩
  · rw [ha.made] at hd
    by_cases hdc : d = c
    · rwa [hdc]
    · exact (h.life d hd).congr (ha.conns d hdc) (hmap d hdc) (fun l => ha.tasks l d hdc)
        fun _ hidle l hmem => hidle l (ha.dispatched l d hmem)
  · rw [ha.made] at hd he
    rw [ha.fds, ha.fds]
    exact h.fds d hd e he (hstill d hbd) (hstill e hbe) hne
  · rw [ha.made] at hd
    have hholds := h.holds d hd (hstill d hb)
    rw [ha.loops]
    by_cases hdc : d = c
    · subst hdc
      exact (ha.holds hholds).1
    · rw [ha.conns d hdc]
      by_cases hl : (s.conns d).loop_ = (s.conns c).loop_
      · rcases hbusy with hbc | ⟨-, hpoll, -⟩
        · rw [hl] at hholds ⊢
          exact hholds.elsewhere (ha.holds (h.holds c hc hbc)).2
            (h.fds d hd c hc (hstill d hb) hbc hdc)
        · rwa [hpoll]
      · rwa [ha.pollers _ hl]
  · have hold : s.Registered l fd e → e ≠ c → (s'.conns e).conn.channel_.fd_ = fd ∧
        (s'.conns e).conn.channel_.index_ ≠ .kNew := by
      intro he hec
      rw [ha.conns e hec]
      exact h.registered l fd e he
    by_cases hl : l = (s.conns c).loop_
    · subst hl
      rcases hbusy with hbc | ⟨-, hpoll, hchan⟩
      · obtain ⟨hholds, hsame⟩ := ha.holds (h.holds c hc hbc)
        by_cases hfdc : fd = (s.conns c).conn.channel_.fd_
        · subst hfdc
          rw [← ha.fds c] at he
          obtain ⟨rfl, hidx⟩ := registered_of_holds hholds he
          exact ⟨ha.fds _, hidx⟩
        · obtain ⟨hch, hep⟩ := hsame.2 fd hfdc
          have he' : s.Registered (s.conns c).loop_ fd e := by
            rwa [Registered, hch, hep] at he
          refine hold he' fun hec => hfdc ?_
          rw [← (h.registered _ _ _ he').1, hec]
      · rw [Registered, hpoll] at he
        by_cases hec : e = c
        · subst hec
          rw [hchan]
          exact h.registered _ _ _ he
        · exact hold he hec
    · rw [Registered, ha.pollers l hl] at he
      refine hold he fun hec => hl ?_
      rw [← (hconf.registered _ _ _ he).2, hec]

/-- A step of a connection that has begun and that only plain tasks come from: it stays where it is
on its way. -/
theorem owned_of_plain (h : s.Owned) (hconf : s.Confined)
    (ha : s.Acts s' c fun f => f.isPlain = true) (hc : c < s.made)
    (hbegun : (s.conns c).conn.state_ ≠ .kConnecting)
    (hmap : s'.connections_ = s.connections_)
    (hdestroyed : (s'.conns c).destroyed = (s.conns c).destroyed)
    (hstate : (s'.conns c).conn.state_ = (s.conns c).conn.state_ ∨
      ((s.conns c).conn.state_ = .kConnected ∧ (s'.conns c).conn.state_ = .kDisconnecting))
    (hend : ∀ l, ∀ f ∈ (s.loops l).todo, f.isEnding = true → f ∈ (s'.loops l).todo)
    (hgone : s.Gone c → (∀ l, (s'.loops l).poller = (s.loops l).poller) ∧
      (s'.conns c).conn.channel_ = (s.conns c).conn.channel_) : s'.Owned := by
  have hadd : ¬ (Functor.run .connectEstablished c : Functor β).isPlain = true := by
    simp [Functor.isPlain]
  have hmapped : ∀ d, s.connections_ (s.conns d).name_ = some d →
      s'.connections_ (s.conns d).name_ = some d := fun d hd => by rwa [hmap]
  have hdown : (s.conns c).conn.state_ = .kDisconnected →
      (s'.conns c).conn.state_ = .kDisconnected := by
    intro hs
    rcases hstate with hst | ⟨hst, -⟩
    · exact hst.trans hs
    · rw [hs] at hst
      cases hst
  rcases h.life c hc with hf | hu | hcl | hg
  · exact absurd hf.state hbegun
  · refine owned_of_acts h hconf ha hc (fun d _ => hmapped d) (Or.inr (Or.inl ⟨?_, ?_, ?_, ?_⟩))
      (Or.inl (Or.inl hu.live))
    · exact hdestroyed.trans hu.live
    · rcases hstate with hst | ⟨-, hst⟩
      · rw [hst]
        exact hu.state
      · exact Or.inr hst
    · rw [ha.nameOf]
      exact hmapped c hu.mapped
    · intro l f hf hfc
      rcases ha.added l f hf with hf | ⟨-, -, hplain⟩
      · exact hu.plain l f hf hfc
      · exact hplain
  · refine owned_of_acts h hconf ha hc (fun d _ => hmapped d)
      (Or.inr (Or.inr (Or.inl ⟨?_, hdown hcl.state, ha.established hadd hcl.established, ?_⟩)))
      (Or.inl (Or.inl hcl.live))
    · exact hdestroyed.trans hcl.live
    · obtain ⟨l, f, hf, hfc, hfe⟩ := hcl.ending
      exact ⟨l, f, hend l f hf hfe, hfc, hfe⟩
  · obtain ⟨hpoll, hchan⟩ := hgone hg
    refine owned_of_acts h hconf ha hc (fun d _ => hmapped d)
      (Or.inr (Or.inr (Or.inr ⟨?_, hdown hg.state, ?_, ha.established hadd hg.established,
        fun l hl => hg.idle l (ha.dispatched l c hl)⟩))) (Or.inr ⟨?_, hpoll, hchan⟩)
    · rw [hdestroyed, ha.loopOf, hg.destroyed]
    · rw [hchan, hg.index]
    · rintro (hb | ⟨l, f, hf, hfc, hfe⟩)
      · exact Or.inl (hdestroyed.symm.trans hb)
      · rcases ha.added l f hf with hf | ⟨-, -, hplain⟩
        · exact Or.inr ⟨l, f, hf, hfc, hfe⟩
        · rw [not_plain_of_ending hfe] at hplain
          cases hplain

/-! ### A step of a loop or of the acceptor -/

theorem owned_of_frames (h : s.Owned) (hf : Frames s s')
    (hmap : s'.connections_ = s.connections_)
    (htasks : ∀ l c, s'.tasksOf l c = s.tasksOf l c) : s'.Owned := by
  have hbusy : ∀ d, s'.Busy d ↔ s.Busy d := fun d => by simp only [busy_iff, hf.conns, htasks]
  refine ⟨fun d hd => ?_, ?_, ?_, ?_⟩
  · rw [hf.made] at hd
    refine (h.life d hd).congr (congrFun hf.conns d) (fun hm => by rwa [hmap]) (fun l => htasks l d)
      fun hidx hidle l hmem => ?_
    rcases hf.dispatched l d hmem with hmem | ⟨fd, events, he⟩
    · exact hidle l hmem
    · exact (h.registered l fd d (Or.inr ⟨events, he⟩)).2 hidx
  · simp only [hf.made, hf.conns, hbusy]
    exact h.fds
  · simp only [hf.made, hf.conns, hbusy, hf.poller]
    exact h.holds
  · simp only [Registered, hf.conns, hf.poller]
    exact h.registered

section Loops

variable [DecidableEq L]

theorem tasksOf_modifyLoop {f : Loop β → Loop β}
    (hf : (f (s.loops l)).todo.filter (fun g => g.conn = some c) = s.tasksOf l c) (k : L) :
    (s.modifyLoop l f).tasksOf k c = s.tasksOf k c := by
  rw [tasksOf, loops_modifyLoop]
  split_ifs with hk
  · rw [hk]
    exact hf
  · rfl

/-- What the epoll set reports is registered. -/
theorem owned_activate (h : s.Owned) (hconf : s.Confined) {active : List ℕ}
    (hp : (s.loops l).phase = .dispatching active []) (e : ℤ × Events) :
    (activate l s e).Owned := by
  unfold activate
  cases he : (s.loops l).poller.epollfd_ e.1 with
  | none => exact h
  | some event =>
    have hreg : s.Registered l e.1 event.ptr := Or.inr ⟨event.events, he⟩
    have hc := (hconf.registered l e.1 event.ptr hreg).1
    have hnew := (h.registered l e.1 event.ptr hreg).2
    have hset : (s.setConn event.ptr { (s.conns event.ptr).conn with
        channel_ := { (s.conns event.ptr).conn.channel_ with revents_ := e.2 } }).Owned := by
      refine owned_of_plain h hconf (acts_setConn (m := e.2) rfl) hc
        ((h.life _ hc).begun fun hf => hnew hf.index) rfl ?_ (Or.inl ?_) (fun _ _ hf _ => hf)
        fun hg => absurd hg.index hnew
      · simp [setConn]
      · simp [setConn]
    have hframes := frames_activate (s := s.setConn event.ptr { (s.conns event.ptr).conn with
      channel_ := { (s.conns event.ptr).conn.channel_ with revents_ := e.2 } }) hp he
    refine owned_of_frames hset hframes rfl fun k d => tasksOf_modifyLoop ?_ k
    simp [tasksOf, Loop.todo, Phase.functors, setConn, hp]

theorem owned_poll (h : s.Owned) (hconf : s.Confined) (hp : (s.loops l).phase = .polling)
    (events : List (ℤ × Events)) : (s.poll l events).Owned := by
  have hclear : (s.setPhase l (.dispatching [] [])).Owned :=
    owned_of_frames h (frames_poll hp) rfl fun k d => tasksOf_modifyLoop
      (by simp [tasksOf, Loop.todo, Phase.functors, hp]) k
  refine (poll_inv (I := fun u => u.Owned ∧ u.Confined) ⟨hclear, (frames_poll hp).confined hconf⟩
    (fun u e active hphase hu => ?_) events).1
  exact ⟨owned_activate hu.1 hu.2 hphase e, confined_activate hu.2 hphase e⟩

theorem owned_handleEvent (h : s.Owned) {rest : List ℕ}
    (hp : (s.loops l).phase = .dispatching (c :: rest) []) (callbacks : List Callback) :
    (s.setPhase l (.dispatching rest (callbacks.map fun k => (c, k)))).Owned :=
  owned_of_frames h (frames_handleEvent hp callbacks) rfl fun k d => tasksOf_modifyLoop
    (by simp [tasksOf, Loop.todo, Phase.functors, hp]) k

theorem owned_swap (h : s.Owned) (hp : (s.loops l).phase = .dispatching [] []) :
    (s.modifyLoop l fun loop =>
      { loop with pendingFunctors_ := [], phase := .calling loop.pendingFunctors_ [] }).Owned :=
  owned_of_frames h (frames_swap hp) rfl fun k d => tasksOf_modifyLoop
    (by simp [tasksOf, Loop.todo, Phase.functors, hp]) k

theorem owned_finish (h : s.Owned) {done : List (Functor β)}
    (hp : (s.loops l).phase = .calling [] done) : (s.setPhase l .polling).Owned :=
  owned_of_frames h (frames_finish hp) rfl fun k d => tasksOf_modifyLoop
    (by simp [tasksOf, Loop.todo, Phase.functors, hp]) k

omit [DecidableEq L] in
theorem owned_listen (h : s.Owned) (ht : t = some s.loop_) : (s.listen t).Owned :=
  owned_of_frames h (frames_listen ht) rfl fun _ _ => rfl

theorem owned_popListen (h : s.Owned) {rest done : List (Functor β)}
    (hp : (s.loops l).phase = .calling (.listen :: rest) done) :
    (s.setPhase l (.calling rest (done ++ [.listen]))).Owned :=
  owned_of_frames h (frames_popListen hp) rfl fun k d => tasksOf_modifyLoop
    (by simp [tasksOf, Loop.todo, Phase.functors, hp, Functor.conn]) k

theorem owned_start (h : s.Owned) (t : Option L) : (s.start t).Owned := by
  have hmap : (s.start t).connections_ = s.connections_ := by
    unfold start
    split_ifs <;> rfl
  refine owned_of_frames h frames_start hmap fun k d => ?_
  unfold start
  split_ifs
  · rfl
  · rfl
  · exact tasksOf_modifyLoop (s := { s with started_ := true })
      (by simp [tasksOf, Loop.todo, Functor.conn]) k

end Loops

/-! ### Tasks, callbacks and removals -/

section Calls

variable [DecidableEq L]

/-- Effects that do not reach the poller leave it, and `index_`, as they were. -/
theorem perform_of_forall {res : TcpConnection β × List (Effect β)}
    (h : ∀ e ∈ res.2, e.registers = false) :
    (∀ k, ((s.perform t c res).loops k).poller = (s.loops k).poller) ∧
      ((s.perform t c res).conns c).conn.channel_ = res.1.channel_ := by
  have hreg : s.registration c res = ((s.loops (s.conns c).loop_).poller, res.1.channel_) :=
    Effect.foldl_register_of_forall h c _
  constructor
  · intro k
    rw [loops_perform, hreg]
    split_ifs with hk
    · rw [hk]
    · rfl
  · rw [conns_perform, Function.update_self, hreg]

theorem conns_removeConnection : (s.removeConnection t c).conns = s.conns := by
  unfold removeConnection removeConnectionInLoop
  simp only
  split_ifs <;> rfl

/-- It leaves a task that ends the connection. -/
theorem ending_removeConnection : ∃ k, ∃ f ∈ ((s.removeConnection t c).loops k).todo,
    f.conn = some c ∧ f.isEnding = true := by
  unfold removeConnection removeConnectionInLoop
  simp only
  split_ifs
  · exact ⟨_, _, mem_todo_queueInLoop.2 (Or.inr ⟨rfl, rfl⟩), rfl, rfl⟩
  · exact ⟨_, _, mem_todo_queueInLoop.2 (Or.inr ⟨rfl, rfl⟩), rfl, rfl⟩

/-- The other connections keep their entries. -/
theorem mapped_removeConnectionInLoop (hown : s.OwnEntry c) (hd : d ≠ c)
    (hm : s.connections_ (s.conns d).name_ = some d) :
    (s.removeConnectionInLoop t c).connections_ (s.conns d).name_ = some d := by
  have hne : (s.conns d).name_ ≠ (s.conns c).name_ := by
    intro he
    rw [he] at hm
    rcases hown with hown | hown <;> rw [hm] at hown
    · cases hown
    · exact hd (Option.some.inj hown)
  exact (Function.update_of_ne hne _ _).trans hm

theorem mapped_removeConnection (hown : t = some s.loop_ → s.OwnEntry c) (hd : d ≠ c)
    (hm : s.connections_ (s.conns d).name_ = some d) :
    (s.removeConnection t c).connections_ (s.conns d).name_ = some d := by
  unfold removeConnection
  simp only
  split_ifs with ht
  · exact mapped_removeConnectionInLoop (s := s.record t [.removes s.stage]) (hown ht) hd hm
  · exact hm

/-- A plain functor is taken off. -/
theorem owned_popPlain (h : s.Owned) (hconf : s.Confined) {f : Functor β}
    {rest done : List (Functor β)} (hp : (s.loops l).phase = .calling (f :: rest) done)
    (hf : f.conn = some c) (hplain : f.isPlain = true) :
    (s.setPhase l (.calling rest (done ++ [f]))).Owned := by
  have hmem : f ∈ (s.loops l).todo := by simp [Loop.todo, Phase.functors, hp]
  have hc := (hconf.located l f hmem).1 c hf
  have hne : f ≠ .run .connectEstablished c := by
    rintro rfl
    cases hplain
  refine owned_of_plain h hconf (acts_popFunctor hp hf) hc
    ((h.life c hc).begun (not_fresh_of_todo hmem hf hne)) rfl rfl (Or.inl rfl)
    (fun k g hg hend => ?_) fun _ => ⟨fun k => ?_, rfl⟩
  · rw [setPhase, loops_modifyLoop]
    split_ifs with hk
    · rw [hk] at hg
      simp only [Loop.todo, Phase.functors, hp, List.cons_append, List.mem_cons] at hg ⊢
      rcases hg with rfl | hg
      · rw [not_plain_of_ending hend] at hplain
        cases hplain
      · exact hg
    · exact hg
  · rw [setPhase, loops_modifyLoop]
    split_ifs with hk
    · rw [hk]
    · rfl

theorem owned_queueInLoop (h : s.Owned) (hconf : s.Confined) (hc : c < s.made)
    (hbegun : (s.conns c).conn.state_ ≠ .kConnecting) {f : Functor β} (hf : f.conn = some c)
    (hl : l = s.home f)
    (hplain : f.isPlain = true) : (s.queueInLoop l f).Owned := by
  refine owned_of_plain h hconf (acts_queueInLoop hf hl hplain) hc hbegun rfl rfl (Or.inl rfl)
    (fun k g hg _ => mem_todo_queueInLoop.2 (Or.inl hg)) fun _ => ⟨fun k => ?_, rfl⟩
  rw [queueInLoop, loops_modifyLoop]
  split_ifs with hk
  · rw [hk]
  · rfl

variable [Inhabited β]

/-- A task that is neither the first nor the last. -/
theorem owned_runTask (h : s.Owned) (hconf : s.Confined) (hc : c < s.made)
    (hbegun : (s.conns c).conn.state_ ≠ .kConnecting)
    (ht : t = some (s.conns c).loop_) {task : Task β} (hest : task ≠ .connectEstablished)
    (hdes : task ≠ .connectDestroyed) (r : WriteResult) : (s.runTask t c task r).Owned := by
  have hperform : s.runTask t c task r = s.perform t c ((s.conns c).conn.runTask r task) := by
    unfold runTask
    cases task with
    | connectDestroyed => exact absurd rfl hdes
    | _ => rfl
  rw [hperform]
  refine owned_of_plain h hconf (acts_perform_plain ht (TcpConnection.updates_runTask _ _ _)
    (TcpConnection.queuesOwn_runTask _ _ _)) hc hbegun rfl (destroyed_perform _)
    (Or.inl ((state_perform _).trans (TcpConnection.state_runTask_of_ne _ r hest hdes)))
    (fun _ _ hf _ => todo_subset_perform _ hf) fun hg => ?_
  obtain ⟨hsame, hes⟩ := TcpConnection.runTask_of_noData (Or.inl hg.state) r hest hdes
  obtain ⟨hpoll, hchan⟩ := perform_of_forall (s := s) (t := t) (c := c) fun e he => (hes e he).2
  exact ⟨hpoll, hchan.trans (congrArg TcpConnection.channel_ hsame)⟩

/-- A task of a public call, run or queued. -/
theorem owned_runInLoop (h : s.Owned) (hconf : s.Confined) (hc : c < s.made)
    (hbegun : (s.conns c).conn.state_ ≠ .kConnecting)
    {task : Task β} (htask : task.isPublic = true) (r : WriteResult) :
    (s.runInLoop t c task r).Owned := by
  have hplain : (Functor.run task c : Functor β).isPlain = true := by
    cases task <;> first | rfl | cases htask
  unfold runInLoop
  split_ifs with ht
  · refine owned_runTask h hconf hc hbegun ht ?_ ?_ r
    · rintro rfl
      cases htask
    · rintro rfl
      cases htask
  · exact owned_queueInLoop h hconf hc hbegun rfl rfl hplain

theorem owned_callback (h : s.Owned) (hconf : s.Confined) {active : List ℕ} {k : Callback}
    {rest : List (ℕ × Callback)} (hp : (s.loops l).phase = .dispatching active ((c, k) :: rest))
    (read : ReadResult β) (write : WriteResult)
    (hown : l = s.loop_ → ((s.conns c).conn.runCallback read write k).2.any Effect.isClose = true →
      s.OwnEntry c) :
    ((s.setPhase l (.dispatching active rest)).runCallback (some l) c k read write).Owned := by
  have hmem : c ∈ (s.loops l).dispatched := by simp [Loop.dispatched, Phase.running, hp]
  obtain ⟨hc, hl⟩ := hconf.dispatched l c hmem
  have hlife := (h.life c hc).of_dispatched hmem
  have hlive : (s.conns c).destroyed = none := hlife.elim Up.live Closed.live
  have hbegun : ¬ s.Fresh c := fun hf => hf.idle l hmem
  have hpop : s.Acts (s.setPhase l (.dispatching active rest)) c fun f => f.isPlain = true :=
    acts_popCallback hp
  have hrun := hpop.trans (acts_perform_plain (t := some l) (congrArg some hl.symm)
    (TcpConnection.updates_runCallback (s.conns c).conn read write k)
    (TcpConnection.queuesOwn_runCallback _ _ _ _))
  have htodo : ∀ m, ∀ f ∈ (s.loops m).todo,
      f ∈ ((s.setPhase l (.dispatching active rest)).loops m).todo := by
    intro m f hf
    rw [setPhase, loops_modifyLoop]
    split_ifs with hm
    · rw [hm] at hf
      simpa [Loop.todo, Phase.functors, hp] using hf
    · exact hf
  unfold runCallback
  simp only [show ((s.setPhase l (.dispatching active rest)).conns c) = s.conns c from rfl]
  rcases (s.conns c).conn.state_runCallback read write k with ⟨hclose, hdown⟩ | ⟨hclose, hstate⟩
  · rw [if_pos hclose]
    have hplain : ∀ f : Functor β, f.isPlain = true → f ≠ .run .connectEstablished c := by
      rintro f hf rfl
      cases hf
    have hending : ∀ f : Functor β, f.isEnding = true → f ≠ .run .connectEstablished c := by
      rintro f hf rfl
      cases hf
    have hact := (hrun.mono hplain).trans ((acts_removeConnection (t := some l)).mono hending)
    refine owned_of_acts h hconf hact hc (fun d hd hm => ?_)
      (Or.inr (Or.inr (Or.inl ⟨?_, ?_, hact.established (by simp)
        ((h.life c hc).established hbegun), ending_removeConnection⟩))) (Or.inl (Or.inl hlive))
    · rw [← hrun.conns d hd] at hm ⊢
      refine mapped_removeConnection (fun ht => ?_) hd hm
      rw [OwnEntry, hrun.nameOf]
      exact hown (Option.some.inj (ht.trans (congrArg some hrun.loop_))) hclose
    · rw [conns_removeConnection, destroyed_perform]
      exact hlive
    · rw [conns_removeConnection, state_perform]
      exact hdown
  · rw [if_neg (by simp [hclose])]
    refine owned_of_plain h hconf hrun hc ((h.life c hc).begun hbegun) rfl (destroyed_perform _)
      (Or.inl ((state_perform _).trans hstate))
      (fun m f hf _ => todo_subset_perform _ (htodo m f hf)) fun hg => ?_
    exact absurd hmem (hg.idle l)

omit [DecidableEq L] [Inhabited β] in
/-- The functor that runs belongs to the connection's own loop; one that ends the connection keeps
it busy. -/
theorem busy_of_calling (hconf : s.Confined) {f : Functor β} {rest done : List (Functor β)}
    (hp : (s.loops l).phase = .calling (f :: rest) done) (hf : f.conn = some c)
    (hend : f.isEnding = true) :
    f ∈ (s.loops l).todo ∧ l = s.home f ∧ c < s.made ∧ s.Busy c := by
  have hmem : f ∈ (s.loops l).todo := by simp [Loop.todo, Phase.functors, hp]
  obtain ⟨hmade, hl⟩ := hconf.located l _ hmem
  exact ⟨hmem, hl, hmade c hf, Or.inr ⟨l, _, hmem, hf, hend⟩⟩

omit [Inhabited β] in
theorem owned_removeConnectionInLoop (h : s.Owned) (hconf : s.Confined)
    {rest done : List (Functor β)}
    (hp : (s.loops l).phase = .calling (.removeConnectionInLoop c :: rest) done)
    (hown : s.OwnEntry c) :
    ((s.setPhase l (.calling rest (done ++ [.removeConnectionInLoop c]))).removeConnectionInLoop
      (some l) c).Owned := by
  obtain ⟨hmem, hl, hc, hbusy⟩ := busy_of_calling hconf hp rfl rfl
  have hpop : s.Acts (s.setPhase l (.calling rest (done ++ [.removeConnectionInLoop c]))) c
      fun f => f.isEnding = true := acts_popFunctor hp rfl
  have hact := hpop.trans (acts_removeConnectionInLoop (t := some l) (congrArg some hl))
  refine owned_of_acts h hconf hact hc
    (fun d hd hm => mapped_removeConnectionInLoop (s := s.setPhase l _) hown hd hm) ?_
    (Or.inl hbusy)
  rcases closed_or_gone (h.life c hc) hmem rfl rfl with hcl | hg
  · refine Or.inr (Or.inr (Or.inl ⟨hcl.live, hcl.state,
      hact.established (by simp [Functor.isEnding]) hcl.established, ?_⟩))
    exact ⟨_, _, mem_todo_queueInLoop.2 (Or.inr ⟨rfl, rfl⟩), rfl, rfl⟩
  · refine Or.inr (Or.inr (Or.inr ⟨hg.destroyed, hg.state, hg.index,
      hact.established (by simp [Functor.isEnding]) hg.established,
      fun k hk => hg.idle k (hact.dispatched k c hk)⟩))

theorem owned_connectEstablished (h : s.Owned) (hconf : s.Confined) (hc : c < s.made)
    (hf : s.Fresh c) (hnone : ∀ l, s.tasksOf l c = []) (ht : t = some (s.conns c).loop_)
    (r : WriteResult) : (s.runTask t c .connectEstablished r).Owned := by
  have hact : s.Acts (s.runTask t c .connectEstablished r) c fun f => f.isPlain = true :=
    acts_perform_plain ht (TcpConnection.updates_runTask (s.conns c).conn r .connectEstablished)
      (TcpConnection.queuesOwn_runTask _ _ _)
  refine owned_of_acts h hconf hact hc (fun _ _ hm => hm)
    (Or.inr (Or.inl ⟨?_, Or.inl ?_, ?_, fun l f hfl hfc => ?_⟩)) (Or.inl (Or.inl hf.live))
  · exact (destroyed_perform _).trans hf.live
  · exact state_perform _
  · rw [hact.nameOf]
    exact hf.mapped
  · rcases hact.added l f hfl with hfl | ⟨-, -, hplain⟩
    · have : f ∈ s.tasksOf l c := mem_tasksOf.2 ⟨hfl, hfc⟩
      rw [hnone l] at this
      cases this
    · exact hplain

omit [Inhabited β] in
/-- The task `connectEstablished` is taken off; it is queued once. -/
theorem owned_popEstablished (h : s.Owned) (hconf : s.Confined) {rest done : List (Functor β)}
    (hp : (s.loops l).phase = .calling (.run .connectEstablished c :: rest) done) :
    let s' := s.setPhase l (.calling rest (done ++ [.run .connectEstablished c]))
    s'.Owned ∧ s'.Fresh c ∧ ∀ m, s'.tasksOf m c = [] := by
  intro s'
  have hmem : .run .connectEstablished c ∈ (s.loops l).todo := by
    simp [Loop.todo, Phase.functors, hp]
  obtain ⟨hmade, hl⟩ := hconf.located l _ hmem
  have hc : c < s.made := hmade c rfl
  have hf : s.Fresh c := by
    by_contra hf
    exact (h.life c hc).established hf l hmem
  have hact : s.Acts s' c fun f => f.isPlain = true := acts_popFunctor hp rfl
  have htask : s.tasksOf l c = .run .connectEstablished c ::
      (rest ++ (s.loops l).pendingFunctors_).filter (fun f => f.conn = some c) := by
    simp [tasksOf, Loop.todo, Phase.functors, hp, Functor.conn]
  have hnone : ∀ m, s'.tasksOf m c = [] := by
    intro m
    by_cases hm : m = l
    · subst hm
      rw [tasksOf, show s'.loops m = _ from loops_modifyLoop _ m, if_pos rfl]
      rcases hf.tasks m with ht | ht
      · rw [ht] at htask
        cases htask
      · rw [ht] at htask
        exact (List.cons.inj htask).2.symm
    · rw [tasksOf, show s'.loops m = _ from loops_modifyLoop _ m, if_neg hm]
      rcases hf.tasks m with ht | ht
      · exact ht
      · -- a functor is queued on its own loop only
        have hm' : .run .connectEstablished c ∈ s.tasksOf m c := by simp [ht]
        exact absurd ((hconf.located m _ (mem_tasksOf.1 hm').1).2.trans hl.symm) hm
  have hfresh : s'.Fresh c := ⟨hf.live, hf.state, hf.index, hf.mapped, fun m => Or.inl (hnone m),
    fun m hd => hf.idle m (hact.dispatched m c hd)⟩
  exact ⟨owned_of_acts h hconf hact hc (fun _ _ hm => hm) (Or.inl hfresh) (Or.inl (Or.inl hf.live)),
    hfresh, hnone⟩

/-- `connectDestroyed` takes the channel of a closed connection out of the poller. -/
theorem conns_connectDestroyed (hs : (s.conns c).conn.state_ = .kDisconnected) (r : WriteResult) :
    let x := (s.runTask t c .connectDestroyed r).conns c
    x.destroyed = t ∧ x.conn.state_ = .kDisconnected ∧ x.conn.channel_.index_ = .kNew := by
  have hres := TcpConnection.connectDestroyed_of_ne (c := (s.conns c).conn) (by simp [hs])
  simp only [runTask, TcpConnection.runTask, hres, conns_markDestroyed, Function.update_self,
    conns_perform]
  exact ⟨trivial, hs, rfl⟩

theorem owned_connectDestroyed (h : s.Owned) (hconf : s.Confined) {rest done : List (Functor β)}
    (hp : (s.loops l).phase = .calling (.run .connectDestroyed c :: rest) done) (r : WriteResult) :
    ((s.setPhase l (.calling rest (done ++ [.run .connectDestroyed c]))).runTask (some l) c
      .connectDestroyed r).Owned := by
  obtain ⟨hmem, hl, hc, hbusy⟩ := busy_of_calling hconf hp rfl rfl
  have hlife := closed_or_gone (h.life c hc) hmem rfl rfl
  have hstate : (s.conns c).conn.state_ = .kDisconnected := hlife.elim Closed.state Gone.state
  have hpop : s.Acts (s.setPhase l (.calling rest (done ++ [.run .connectDestroyed c]))) c
      fun f => f.isPlain = true := acts_popFunctor hp rfl
  have hrun := hpop.trans (acts_perform_plain (t := some l) (congrArg some hl)
    (TcpConnection.updates_runTask (s.conns c).conn r .connectDestroyed)
    (TcpConnection.queuesOwn_runTask _ _ _))
  have hact : s.Acts ((s.setPhase l (.calling rest (done ++ [.run .connectDestroyed c]))).runTask
      (some l) c .connectDestroyed r) c fun f => f.isPlain = true :=
    hrun.trans (acts_markDestroyed (some l))
  obtain ⟨hdestroyed, hdown, hindex⟩ := conns_connectDestroyed
    (s := s.setPhase l (.calling rest (done ++ [.run .connectDestroyed c]))) (t := some l) hstate r
  refine owned_of_acts h hconf hact hc (fun _ _ hm => hm)
    (Or.inr (Or.inr (Or.inr ⟨?_, hdown, hindex, ?_, fun m hd => ?_⟩))) (Or.inl hbusy)
  · rw [hact.loopOf]
    exact hdestroyed.trans (congrArg some hl)
  · refine hact.established (by simp [Functor.isPlain]) ?_
    exact hlife.elim Closed.established Gone.established
  · -- its loop is not dispatching
    have hd' := hact.dispatched m c hd
    have hm : m = l := (hconf.dispatched m c hd').2.symm.trans hl.symm
    subst hm
    simp [Loop.dispatched, Phase.activeChannels_, Phase.running, hp] at hd'

theorem owned_functor (h : s.Owned) (hconf : s.Confined) {f : Functor β}
    {rest done : List (Functor β)} (hp : (s.loops l).phase = .calling (f :: rest) done)
    (r : WriteResult) (hown : ∀ c, f = .removeConnectionInLoop c → s.OwnEntry c) :
    ((s.setPhase l (.calling rest (done ++ [f]))).call (some l) r f).Owned := by
  have hmem : f ∈ (s.loops l).todo := by simp [Loop.todo, Phase.functors, hp]
  obtain ⟨hmade, hl⟩ := hconf.located l f hmem
  cases f with
  | run task c =>
    have hc : c < s.made := hmade c rfl
    have hpop : (s.setPhase l (.calling rest (done ++ [.run task c]))).Confined :=
      (acts_popFunctor (K := fun _ => True) hp rfl).confined hconf hc
    by_cases hest : task = .connectEstablished
    · subst hest
      obtain ⟨howned, hfresh, hnone⟩ := owned_popEstablished h hconf hp
      exact owned_connectEstablished howned hpop hc hfresh hnone (congrArg some hl) r
    by_cases hdes : task = .connectDestroyed
    · subst hdes
      exact owned_connectDestroyed h hconf hp r
    have hplain : (Functor.run task c : Functor β).isPlain = true := by
      cases task <;> first | rfl | exact absurd rfl hest | exact absurd rfl hdes
    have hbegun := (h.life c hc).begun
      (not_fresh_of_todo hmem rfl fun he => hest (Functor.run.inj he).1)
    exact owned_runTask (owned_popPlain h hconf hp rfl hplain) hpop hc hbegun (congrArg some hl)
      hest hdes r
  | removeConnectionInLoop c => exact owned_removeConnectionInLoop h hconf hp (hown c rfl)
  | listen => exact owned_listen (s := s.setPhase l _) (owned_popListen h hp) (congrArg some hl)

end Calls

end TcpServer

end Muduo
