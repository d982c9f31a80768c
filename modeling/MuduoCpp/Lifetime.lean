import MuduoCpp.ConnectionMap
import MuduoCpp.Ownership

/-!
# The lifetime of a connection

What is registered or awaits dispatch has not been destroyed, and what has been destroyed has gone
through `connectDestroyed` on its own loop (`Safe`).

The name of a connection comes back after `2^32` connections.  A new connection under the name of
one that is still in `connections_` takes its entry, and the old one is destroyed while it is
registered (`destroyed_registered`).  `lifetime`: this does not happen in a run in which the names
are right, those of new connections and those of connections that are removed (`NameFree`).
-/

namespace Muduo

namespace TcpServer

variable {L β : Type}

/-- The public call is one step. -/
def Label.isWhole : Label L β → Bool
  | .store _ | .push _ _ => false
  | _ => true

/-- A connection is made. -/
def Label.isNew : Label L β → Bool
  | .newConnection _ _ _ => true
  | _ => false

/-- Channels that are registered or await dispatch belong to connections that have not been
destroyed, and a connection without a holder has gone through `connectDestroyed` on its own loop and
is out of the poller. -/
structure Safe (s : TcpServer L β) : Prop where
  registered : ∀ l fd c, s.Registered l fd c → s.Alive c
  dispatched : ∀ l, ∀ c ∈ (s.loops l).phase.activeChannels_, s.Alive c
  dropped : ∀ c < s.made, ¬ s.Held c →
    (s.conns c).destroyed = some (s.conns c).loop_ ∧ (s.conns c).conn.channel_.index_ = .kNew

variable {s s' : TcpServer L β} {c d : ℕ} {l : L} {t : Option L}

/-- What is owned is safe. -/
theorem safe_of_owned (h : s.Owned) (hconf : s.Confined) : s.Safe := by
  have hlive : ∀ c, s.Up c ∨ s.Closed c → s.Held c := by
    rintro c (hu | hcl)
    · exact Or.inl hu.mapped
    · obtain ⟨l, f, hf, hfc, -⟩ := hcl.ending
      exact Or.inr (Or.inl ⟨l, mem_holders_of_todo hf hfc⟩)
  refine ⟨fun l fd c hr => ?_, fun l c hd => ?_, fun c hc hheld => ?_⟩
  · have hc := (hconf.registered l fd c hr).1
    exact ⟨hc, hlive c ((h.life c hc).of_index (h.registered l fd c hr).2)⟩
  · have hmem : c ∈ (s.loops l).dispatched := List.mem_append_left _ hd
    have hc := (hconf.dispatched l c hmem).1
    exact ⟨hc, hlive c ((h.life c hc).of_dispatched hmem)⟩
  · have hg := (h.life c hc).held.resolve_left hheld
    exact ⟨hg.destroyed, hg.index⟩

section Steps

variable [DecidableEq L] [Inhabited β]

/-- The connection for which the step runs `removeConnectionInLoop`. -/
def removing (s : TcpServer L β) : Label L β → Option ℕ
  | .callback l read write =>
      match (s.loops l).phase with
      | .dispatching _ ((c, k) :: _) =>
          let res := (s.conns c).conn.runCallback read write k
          if l = s.loop_ ∧ res.2.any Effect.isClose = true then some c else none
      | _ => none
  | .functor l _ =>
      match (s.loops l).phase with
      | .calling (.removeConnectionInLoop c :: _) _ => some c
      | _ => none
  | _ => none

/-- A new connection has a name of its own, and the entry that a removal erases is that of its
connection. -/
def NameFree (s : TcpServer L β) (a : Label L β) : Prop :=
  (a.isNew = true → s.connections_ s.connName = none) ∧ ∀ c ∈ s.removing a, s.OwnEntry c

instance (s : TcpServer L β) : DecidablePred s.OwnEntry := fun _ =>
  inferInstanceAs (Decidable (_ ∨ _))

instance (s : TcpServer L β) : DecidablePred s.NameFree := fun _ =>
  inferInstanceAs (Decidable (_ ∧ _))

/-! ### New connections -/

omit [DecidableEq L] in
/-- Nothing is queued or reported for a connection that was just made. -/
theorem fresh_makeConnection (hconf : s.Confined) (sockfd : ℤ) (highWater : Bool) (mark : ℕ) :
    (s.makeConnection t sockfd highWater mark).Fresh s.made ∧
      ∀ l, (s.makeConnection t sockfd highWater mark).tasksOf l s.made = [] := by
  have hmade : (s.makeConnection t sockfd highWater mark).conns s.made = _ :=
    Function.update_self _ _ _
  have hnone : ∀ l, (s.makeConnection t sockfd highWater mark).tasksOf l s.made = [] := by
    intro l
    refine List.filter_eq_nil_iff.2 fun f hf => ?_
    simp only [decide_eq_true_eq]
    intro hfc
    exact Nat.lt_irrefl _ ((hconf.located l f hf).1 _ hfc)
  refine ⟨⟨?_, ?_, ?_, ?_, fun l => Or.inl (hnone l), fun l hd => ?_⟩, hnone⟩
  · rw [hmade]
  · rw [hmade]
    rfl
  · rw [hmade]
    rfl
  · rw [hmade]
    exact Function.update_self _ _ _
  · exact Nat.lt_irrefl _ (hconf.dispatched l _ hd).1

omit [DecidableEq L] [Inhabited β] in
/-- An fd that is open nowhere is registered nowhere. -/
theorem not_registered_of_free (h : s.Owned) (hconf : s.Confined) {sockfd : ℤ}
    (hfd : ∀ c < s.made, s.Held c → (s.conns c).conn.channel_.fd_ ≠ sockfd) (l : L) (c : ℕ) :
    ¬ s.Registered l sockfd c := by
  intro hr
  have hc := (hconf.registered l sockfd c hr).1
  obtain ⟨hcfd, hidx⟩ := h.registered l sockfd c hr
  refine hfd c hc ((h.life c hc).held_of_busy (Or.inl ?_)) hcfd
  exact ((h.life c hc).of_index hidx).elim Up.live Closed.live

omit [DecidableEq L] in
/-- The new connection is held, and its fd is that of no connection that is. -/
theorem owned_makeConnection (h : s.Owned) (hconf : s.Confined)
    (hname : s.connections_ s.connName = none) {sockfd : ℤ}
    (hfd : ∀ c < s.made, s.Held c → (s.conns c).conn.channel_.fd_ ≠ sockfd) (highWater : Bool)
    (mark : ℕ) :
    let s' := s.makeConnection t sockfd highWater mark
    s'.Owned ∧ s'.Fresh s.made ∧ ∀ l, s'.tasksOf l s.made = [] := by
  intro s'
  have hold : ∀ d < s.made, s'.conns d = s.conns d := fun d hd =>
    Function.update_of_ne (Nat.ne_of_lt hd) _ _
  have hmade : s'.conns s.made = _ := Function.update_self _ _ _
  have hmap : ∀ d, s.connections_ (s.conns d).name_ = some d →
      s'.connections_ (s.conns d).name_ = some d := by
    intro d hm
    have hne : (s.conns d).name_ ≠ s.connName := by
      intro he
      rw [he, hname] at hm
      cases hm
    exact (Function.update_of_ne hne _ _).trans hm
  obtain ⟨hfresh, hnone⟩ : s'.Fresh s.made ∧ ∀ l, s'.tasksOf l s.made = [] :=
    fresh_makeConnection hconf sockfd highWater mark
  have hbusy : ∀ d < s.made, s'.Busy d → s.Busy d := by
    intro d hd hb
    rwa [Busy, hold d hd] at hb
  have hnew : ∀ d < s.made, s'.Busy d →
      (s'.conns d).conn.channel_.fd_ ≠ (s'.conns s.made).conn.channel_.fd_ := by
    intro d hd hb
    rw [hold d hd, hmade]
    exact hfd d hd ((h.life d hd).held_of_busy (hbusy d hd hb))
  have hlt : ∀ d < s'.made, d < s.made ∨ d = s.made := fun d hd =>
    Nat.lt_or_eq_of_le (Nat.le_of_lt_succ hd)
  refine ⟨⟨fun d hd => ?_, fun d hd e he hbd hbe hne => ?_, fun d hd hb => ?_, fun l fd d hd => ?_⟩,
    hfresh, hnone⟩
  · rcases hlt d hd with hd | rfl
    · exact (h.life d hd).congr (hold d hd) (hmap d) (fun _ => rfl) fun _ hidle => hidle
    · exact Or.inl hfresh
  · rcases hlt d hd with hd | rfl
    · rcases hlt e he with he | rfl
      · rw [hold d hd, hold e he]
        exact h.fds d hd e he (hbusy d hd hbd) (hbusy e he hbe) hne
      · exact hnew d hd hbd
    · rcases hlt e he with he | rfl
      · exact (hnew e he hbe).symm
      · exact absurd rfl hne
  · rcases hlt d hd with hd | rfl
    · rw [hold d hd]
      exact h.holds d hd (hbusy d hd hb)
    · have hfree := not_registered_of_free h hconf hfd
      rw [hmade]
      refine ⟨Option.eq_none_iff_forall_ne_some.2 fun e he => ?_,
        Option.eq_none_iff_forall_ne_some.2 fun e he => ?_⟩
      · exact hfree _ e (Or.inl he)
      · exact hfree _ e.ptr (Or.inr ⟨e.events, he⟩)
  · have hd' : s.Registered l fd d := hd
    rw [hold d (hconf.registered l fd d hd').1]
    exact h.registered l fd d hd'

theorem owned_newConnection (h : s.Owned) (hconf : s.Confined) (ht : t = some s.loop_)
    (hname : s.connections_ s.connName = none) {sockfd : ℤ}
    (hfd : ∀ c < s.made, s.Held c → (s.conns c).conn.channel_.fd_ ≠ sockfd) (highWater : Bool)
    (mark : ℕ) : (s.newConnection t sockfd highWater mark).Owned := by
  obtain ⟨howned, hfresh, hnone⟩ := owned_makeConnection (t := t) h hconf hname hfd highWater mark
  have hmake := confined_makeConnection hconf ht sockfd highWater mark
  have hc : s.made < (s.makeConnection t sockfd highWater mark).made := Nat.lt_succ_self _
  unfold newConnection runInLoop
  split_ifs with hloop
  · exact owned_connectEstablished howned hmake hc hfresh hnone hloop _
  · have hact := acts_queueInLoop (s := s.makeConnection t sockfd highWater mark)
      (f := .run .connectEstablished s.made) (K := fun _ => True) rfl rfl trivial
    refine owned_of_acts howned hmake hact hc (fun _ _ hm => hm) (Or.inl ?_)
      (Or.inl (Or.inl hfresh.live))
    refine ⟨hfresh.live, hfresh.state, hfresh.index, hfresh.mapped, fun l => ?_,
      fun l hd => hfresh.idle l (hact.dispatched l _ hd)⟩
    have hempty := hnone l
    rw [tasksOf] at hempty
    rw [tasksOf, queueInLoop, loops_modifyLoop]
    split_ifs with hl
    · subst hl
      refine Or.inr ?_
      rw [Loop.todo, ← List.append_assoc, List.filter_append]
      rw [Loop.todo] at hempty
      rw [hempty]
      simp [Functor.conn]
    · exact Or.inl hempty

variable [Fintype L]

/-- **The step lemma.**  A step after which the server is still alive leaves everything owned. -/
theorem owned_next {a : Label L β} (h : s.Owned) (hconf : s.Confined) (hwhole : a.isWhole = true)
    (hname : s.NameFree a) (hst : s.next a = some s') (halive : s'.stage = .alive) : s'.Owned := by
  cases does_of_next hst with
  | start t hs => exact owned_start h t
  | poll hp he => exact owned_poll h hconf hp _
  | newConnection highWater mark hp hs hfd =>
    exact owned_newConnection h hconf rfl (hname.1 rfl) hfd highWater mark
  | handleEvent hp => exact owned_handleEvent h hp _
  | callback read write hp =>
    refine owned_callback h hconf hp read write fun hl hclose => hname.2 _ ?_
    simp only [removing, hp]
    rw [if_pos ⟨hl, hclose⟩, Option.mem_some]
  | swap hp => exact owned_swap h hp
  | functor r hp =>
    refine owned_functor h hconf hp r fun c hf => hname.2 c ?_
    subst hf
    simp only [removing, hp, Option.mem_some]
  | finish hp => exact owned_finish h hp
  | call r hc hconn ht => exact owned_runInLoop h hconf hc.1 (by simp [hconn]) ht r
  | @shutdown t c hc hconn =>
    have hact : s.Acts (s.setConn c { (s.conns c).conn with state_ := .kDisconnecting }) c
        fun f => f.isPlain = true := acts_setState .kDisconnecting
    have hset : ((s.setConn c { (s.conns c).conn with
        state_ := .kDisconnecting }).conns c).conn.state_ = .kDisconnecting := by
      simp [setConn]
    have howned : (s.setConn c { (s.conns c).conn with state_ := .kDisconnecting }).Owned := by
      refine owned_of_plain h hconf hact hc.1 (by simp [hconn]) rfl ?_ (Or.inr ⟨hconn, hset⟩)
        (fun _ _ hf _ => hf) fun hg => ?_
      · simp [setConn]
      · cases hconn.symm.trans hg.state
    exact owned_runInLoop howned (hact.confined hconf hc.1) hc.1 (by simp [hset]) rfl _
  | nothing => exact h
  | store | push => cases hwhole
  | user user =>
    exact ⟨fun d hd => (h.life d hd).congr rfl id (fun _ => rfl) fun _ hidle => hidle,
      h.fds, h.holds, h.registered⟩
  | destroy | destroyed => cases halive
  | exit hp hs hl => cases hs.symm.trans halive

omit [DecidableEq L] [Fintype L] in
theorem owned_init (loop_ : L) (loops_ : List L) (ipPort_ name_ : String) (writeComplete : Bool) :
    (init loop_ loops_ ipPort_ name_ writeComplete : TcpServer L β).Owned := by
  refine ⟨fun c hc => absurd hc (Nat.not_lt_zero c), fun c hc => absurd hc (Nat.not_lt_zero c),
    fun c hc => absurd hc (Nat.not_lt_zero c), fun l fd c hr => ?_⟩
  rcases hr with hr | ⟨events, hr⟩ <;> cases hr

end Steps

/-! ### A name comes back -/

section Reuse

private def soleName (k : ℕ) : String := (init () [] "" "" false : TcpServer Unit ℕ).nameOf k

/-- A server with one loop, in which nobody else has a reference. -/
private def soleServer (n : ℕ) (conns : ℕ → Connection Unit ℕ) (m : String → Option ℕ)
    (loop : Loop ℕ) (trace : List (Option Unit × Act Unit)) : TcpServer Unit ℕ where
  loop_ := ()
  loops_ := []
  next_ := 0
  ipPort_ := ""
  name_ := ""
  writeCompleteCallback_ := false
  started_ := true
  nextConnId_ := BitVec.ofNat 32 (n + 1)
  connections_ := m
  listenning_ := true
  stage := .alive
  made := n
  conns := conns
  loops := fun _ => loop
  user := []
  trace := trace

/-- After `k` connections that have come and gone, with the connection `0` on fd 9. -/
private def Sole (k : ℕ) (m : String → Option ℕ) (p : EPollPoller ℕ) (phase : Phase ℕ)
    (s : TcpServer Unit ℕ) : Prop :=
  ∃ conns trace, s = soleServer (k + 1) conns m ⟨p, [], phase, false⟩ trace ∧
    (conns 0).name_ = soleName 0 ∧ (conns 0).conn.channel_.fd_ = 9

/-- The same with one more, `x`. -/
private def SoleWith (k : ℕ) (x : Connection Unit ℕ) (m : String → Option ℕ) (loop : Loop ℕ)
    (s : TcpServer Unit ℕ) : Prop :=
  ∃ conns trace, s = soleServer (k + 2) (Function.update conns (k + 1) x) m loop trace ∧
    (conns 0).name_ = soleName 0 ∧ (conns 0).conn.channel_.fd_ = 9

/-- `channels_` and the epoll set have these at `fd`. -/
private def withFd (p : EPollPoller ℕ) (fd : ℤ) (o : Option ℕ) (e : Option (EpollEvent ℕ)) :
    EPollPoller ℕ :=
  { p with
    channels_ := Function.update p.channels_ fd o
    epollfd_ := Function.update p.epollfd_ fd e }

private theorem epollfd_withFd (p : EPollPoller ℕ) (fd : ℤ) (o : Option ℕ)
    (e : Option (EpollEvent ℕ)) : (withFd p fd o e).epollfd_ fd = e :=
  Function.update_self _ _ _

private theorem channels_withFd (p : EPollPoller ℕ) (o : Option ℕ) (e : Option (EpollEvent ℕ)) :
    (withFd p 10 o e).channels_ 9 = p.channels_ 9 :=
  Function.update_of_ne (show (9 : ℤ) ≠ 10 by decide) o p.channels_

/-- The connection `k + 1`, on fd 10. -/
private def passing (k : ℕ) (state_ : StateE) (events revents : Events) (index : Index)
    (destroyed : Option Unit) : Connection Unit ℕ :=
  ⟨(), soleName (k + 1), { TcpConnection.init 10 false false 0 with
    state_ := state_, channel_ := ⟨10, events, revents, index, true⟩ }, destroyed⟩

variable {k : ℕ} {m : String → Option ℕ} {p q : EPollPoller ℕ} {x : Connection Unit ℕ}
  {loop : Loop ℕ} {s : TcpServer Unit ℕ} {phase : Phase ℕ} {pending : List (Functor ℕ)}

private theorem soleWith_perform (h : SoleWith k x m ⟨p, pending, phase, false⟩ s)
    {conn : TcpConnection ℕ} {es : List (Effect ℕ)} {channel : Channel} (hq : queued es = [])
    (hr : es.foldl (Effect.register (k + 1)) (p, conn.channel_) = (q, channel)) :
    SoleWith k { x with conn := { conn with channel_ := channel } } m ⟨q, pending, phase, false⟩
      (s.perform (some ()) (k + 1) (conn, es)) := by
  obtain ⟨conns, trace, rfl, hfirst⟩ := h
  have hperform : ∃ trace', (soleServer (k + 2) (Function.update conns (k + 1) x) m
      ⟨p, pending, phase, false⟩ trace).perform (some ()) (k + 1) (conn, es) =
      soleServer (k + 2) (Function.update (Function.update conns (k + 1) x) (k + 1)
        { Function.update conns (k + 1) x (k + 1) with conn := { conn with
          channel_ := (es.foldl (Effect.register (k + 1)) (p, conn.channel_)).2 } }) m
        ⟨(es.foldl (Effect.register (k + 1)) (p, conn.channel_)).1,
          pending ++ (queued es).map fun task => .run task (k + 1), phase, false⟩ trace' := ⟨_, rfl⟩
  obtain ⟨trace', hperform⟩ := hperform
  refine ⟨conns, trace', hperform.trans ?_, hfirst⟩
  rw [hq, hr, Function.update_self, Function.update_idem, List.map_nil, List.append_nil]

private theorem sole_poll (h : Sole k m p .polling s) : ∃ s', step s (.poll () []) = some s' ∧
    Sole k m p (.dispatching [] []) s' := by
  obtain ⟨conns, trace, rfl, hfirst⟩ := h
  exact ⟨_, rfl, conns, trace, rfl, hfirst⟩

/-- `accept` may return fd 10. -/
private theorem sole_free (h : Sole k m p (.dispatching [] []) s)
    (hm : ∀ n c, m n = some c → c = 0) :
    ∀ c < s.made, s.Held c → (s.conns c).conn.channel_.fd_ ≠ 10 := by
  obtain ⟨conns, trace, rfl, -, hfd⟩ := h
  rintro c - (hc | ⟨l, hc⟩ | hc)
  · rw [hm _ c hc]
    show (conns 0).conn.channel_.fd_ ≠ 10
    rw [hfd]
    decide
  · cases hc
  · cases hc

private theorem soleWith_makeConnection (h : Sole k m p phase s) :
    SoleWith k ⟨(), soleName (k + 1), .init 10 false false 0, none⟩
      (Function.update m (soleName (k + 1)) (some (k + 1))) ⟨p, [], phase, false⟩
      (s.makeConnection (some ()) 10 false 0) := by
  obtain ⟨conns, trace, rfl, hfirst⟩ := h
  refine ⟨conns, trace ++ [(some (), .connections_)], ?_, hfirst⟩
  have hid : BitVec.ofNat 32 (k + 1 + 1) + 1 = BitVec.ofNat 32 (k + 2 + 1) :=
    (BitVec.ofNat_add _ _).symm
  unfold soleServer
  rw [← hid]
  rfl

private theorem soleWith_conn (h : SoleWith k x m loop s) : s.conns (k + 1) = x := by
  obtain ⟨conns, trace, rfl, -⟩ := h
  exact Function.update_self _ _ _

/-- `newConnection` runs `connectEstablished` at once. -/
private theorem soleWith_newConnection (h : Sole k m p phase s) (hp : p.epollfd_ 10 = none) :
    SoleWith k (passing k .kConnected Channel.kReadEvent 0 .kAdded none)
      (Function.update m (soleName (k + 1)) (some (k + 1)))
      ⟨withFd p 10 (some (k + 1)) (some ⟨Channel.kReadEvent, k + 1⟩), [], phase, false⟩
      (s.newConnection (some ()) 10 false 0) := by
  have hwith := soleWith_makeConnection h
  have hmade : s.made = k + 1 := by
    obtain ⟨conns, trace, rfl, -⟩ := h
    rfl
  have hnew : s.newConnection (some ()) 10 false 0 =
      (s.makeConnection (some ()) 10 false 0).perform (some ()) s.made
        ((s.makeConnection (some ()) 10 false 0).conns s.made).conn.connectEstablished := rfl
  have hreg : [Effect.update, .connectionCallback_ true].foldl (Effect.register (β := ℕ) (k + 1))
      (p, ⟨10, 0 ||| Channel.kReadEvent, 0, .kNew, true⟩) =
      (withFd p 10 (some (k + 1)) (some ⟨Channel.kReadEvent, k + 1⟩),
        ⟨10, Channel.kReadEvent, 0, .kAdded, true⟩) := by
    simp [Effect.register, EPollPoller.updateChannel, EPollPoller.update, epoll_ctl, hp, withFd]
  rw [hnew, hmade, soleWith_conn hwith]
  exact soleWith_perform hwith rfl hreg

private theorem soleWith_swap (h : SoleWith k x m ⟨p, pending, .dispatching [] [], false⟩ s) :
    ∃ s', step s (.swap ()) = some s' ∧ SoleWith k x m ⟨p, [], .calling pending [], false⟩ s' := by
  obtain ⟨conns, trace, rfl, hfirst⟩ := h
  exact ⟨_, rfl, conns, trace, rfl, hfirst⟩

private theorem soleWith_finish {done : List (Functor ℕ)}
    (h : SoleWith k x m ⟨p, [], .calling [] done, false⟩ s) :
    ∃ s', step s (.finish ()) = some s' ∧ SoleWith k x m ⟨p, [], .polling, false⟩ s' := by
  obtain ⟨conns, trace, rfl, hfirst⟩ := h
  exact ⟨_, rfl, conns, trace, rfl, hfirst⟩

/-- The peer hangs up. -/
private theorem soleWith_poll (h : SoleWith k x m ⟨p, [], .polling, false⟩ s) {e : Events}
    (hp : p.epollfd_ 10 = some ⟨e, k + 1⟩) : ∃ s', step s (.poll () [(10, EPOLLHUP)]) = some s' ∧
      SoleWith k { x with conn := { x.conn with channel_ := { x.conn.channel_ with
        revents_ := EPOLLHUP } } } m ⟨p, [], .dispatching [k + 1] [], false⟩ s' := by
  obtain ⟨conns, trace, rfl, hfirst⟩ := h
  refine ⟨soleServer (k + 2) (Function.update conns (k + 1) { x with conn := { x.conn with
    channel_ := { x.conn.channel_ with revents_ := EPOLLHUP } } }) m
    ⟨p, [], .dispatching [k + 1] [], false⟩ trace, ?_, conns, trace, rfl, hfirst⟩
  rw [step_eq_some]
  refine ⟨rfl, (if_pos ⟨List.nodup_singleton _, by simp [soleServer, hp]⟩).trans ?_⟩
  simp only [soleServer, poll, List.foldl_cons, List.foldl_nil, activate, setPhase, modifyLoop,
    Function.update_self, hp, setConn, Function.update_idem]
  rfl

private theorem soleWith_handleEvent {state_ : StateE} {events : Events} {index : Index}
    (h : SoleWith k (passing k state_ events EPOLLHUP index none) m
      ⟨p, [], .dispatching [k + 1] [], false⟩ s) (hm : m (soleName (k + 1)) = some (k + 1)) :
    ∃ s', step s (.handleEvent ()) = some s' ∧
      SoleWith k (passing k state_ events EPOLLHUP index none) m
        ⟨p, [], .dispatching [] [(k + 1, .closeCallback_)], false⟩ s' := by
  have hheld : s.Held (k + 1) := by
    left
    rw [soleWith_conn h]
    obtain ⟨conns, trace, rfl, -⟩ := h
    exact hm
  have hguard : Channel.handleEventWithGuard EPOLLHUP = [.closeCallback_] := by decide
  have hcalls : (s.conns (k + 1)).conn.channel_.handleEvent (decide (s.Held (k + 1))) =
      [.closeCallback_] := by
    rw [soleWith_conn h, decide_eq_true hheld]
    exact hguard
  obtain ⟨conns, trace, rfl, hfirst⟩ := h
  refine ⟨_, rfl, conns, trace, ?_, hfirst⟩
  rw [hcalls]
  rfl

private theorem soleWith_markDestroyed (h : SoleWith k x m loop s) :
    SoleWith k { x with destroyed := some () } m loop (s.markDestroyed (some ()) (k + 1)) := by
  obtain ⟨conns, trace, rfl, hfirst⟩ := h
  refine ⟨conns, trace, ?_, hfirst⟩
  have hmark : (soleServer (k + 2) (Function.update conns (k + 1) x) m loop trace).markDestroyed
      (some ()) (k + 1) =
      soleServer (k + 2) (Function.update (Function.update conns (k + 1) x) (k + 1)
        { Function.update conns (k + 1) x (k + 1) with destroyed := some () }) m loop trace := rfl
  rw [hmark, Function.update_self, Function.update_idem]

private theorem sole_of_soleWith (h : SoleWith k x m ⟨p, [], phase, false⟩ s) :
    Sole (k + 1) m p phase s := by
  obtain ⟨conns, trace, rfl, hfirst⟩ := h
  refine ⟨_, trace, rfl, ?_⟩
  rw [Function.update_of_ne (Nat.succ_ne_zero k).symm]
  exact hfirst

/-- The removal, on the same thread. -/
private theorem soleWith_removeConnection (h : SoleWith k x m ⟨p, [], phase, false⟩ s) :
    SoleWith k x (Function.update m x.name_ none)
      ⟨p, [.run .connectDestroyed (k + 1)], phase, false⟩
        (s.removeConnection (some ()) (k + 1)) := by
  obtain ⟨conns, trace, rfl, hfirst⟩ := h
  have hremove : ∃ trace', (soleServer (k + 2) (Function.update conns (k + 1) x) m
      ⟨p, [], phase, false⟩ trace).removeConnection (some ()) (k + 1) =
      soleServer (k + 2) (Function.update conns (k + 1) x)
        (Function.update m (Function.update conns (k + 1) x (k + 1)).name_ none)
        ⟨p, [.run .connectDestroyed (k + 1)], phase, false⟩ trace' := ⟨_, rfl⟩
  obtain ⟨trace', hremove⟩ := hremove
  rw [Function.update_self] at hremove
  exact ⟨conns, trace', hremove, hfirst⟩

/-- `handleClose` calls `removeConnection`. -/
private theorem soleWith_callback
    (h : SoleWith k (passing k .kConnected Channel.kReadEvent EPOLLHUP .kAdded none) m
      ⟨withFd p 10 (some (k + 1)) (some ⟨Channel.kReadEvent, k + 1⟩), [],
        .dispatching [] [(k + 1, .closeCallback_)], false⟩ s) :
    ∃ s', step s (.callback () .failed (.sent 0)) = some s' ∧
      SoleWith k (passing k .kDisconnected 0 EPOLLHUP .kDeleted none)
        (Function.update m (soleName (k + 1)) none)
        ⟨withFd p 10 (some (k + 1)) none, [.run .connectDestroyed (k + 1)], .dispatching [] [],
          false⟩ s' := by
  have hpop : SoleWith k (passing k .kConnected Channel.kReadEvent EPOLLHUP .kAdded none) m
      ⟨withFd p 10 (some (k + 1)) (some ⟨Channel.kReadEvent, k + 1⟩), [], .dispatching [] [], false⟩
      (s.setPhase () (.dispatching [] [])) := by
    obtain ⟨conns, trace, rfl, hfirst⟩ := h
    exact ⟨conns, trace, rfl, hfirst⟩
  have hreg : [Effect.update, .connectionCallback_ false, .closeCallback_].foldl
      (Effect.register (β := ℕ) (k + 1))
      (withFd p 10 (some (k + 1)) (some ⟨Channel.kReadEvent, k + 1⟩),
        ⟨10, Channel.kNoneEvent, EPOLLHUP, .kAdded, true⟩) =
      (withFd p 10 (some (k + 1)) none, ⟨10, 0, EPOLLHUP, .kDeleted, true⟩) := by
    simp [Effect.register, EPollPoller.updateChannel, EPollPoller.update, epoll_ctl, withFd,
      Channel.isNoneEvent, Channel.kNoneEvent]
  have hclose : SoleWith k (passing k .kDisconnected 0 EPOLLHUP .kDeleted none) m
      ⟨withFd p 10 (some (k + 1)) none, [], .dispatching [] [], false⟩
      ((s.setPhase () (.dispatching [] [])).perform (some ()) (k + 1)
        ((s.setPhase () (.dispatching [] [])).conns (k + 1)).conn.handleClose) := by
    rw [soleWith_conn hpop]
    exact soleWith_perform hpop rfl hreg
  refine ⟨_, ?_, soleWith_removeConnection hclose⟩
  obtain ⟨conns, trace, rfl, -⟩ := h
  rfl

/-- `connectDestroyed`, and nobody is left who holds the connection. -/
private theorem soleWith_functor
    (h : SoleWith k (passing k .kDisconnected 0 EPOLLHUP .kDeleted none) m
      ⟨withFd p 10 (some (k + 1)) none, [], .calling [.run .connectDestroyed (k + 1)] [], false⟩
          s) :
    ∃ s', step s (.functor () (.sent 0)) = some s' ∧
      SoleWith k (passing k .kDisconnected 0 EPOLLHUP .kNew (some ())) m
        ⟨withFd p 10 none none, [], .calling [] [.run .connectDestroyed (k + 1)], false⟩ s' := by
  have hpop : SoleWith k (passing k .kDisconnected 0 EPOLLHUP .kDeleted none) m
      ⟨withFd p 10 (some (k + 1)) none, [], .calling [] [.run .connectDestroyed (k + 1)], false⟩
      (s.setPhase () (.calling [] [.run .connectDestroyed (k + 1)])) := by
    obtain ⟨conns, trace, rfl, hfirst⟩ := h
    exact ⟨conns, trace, rfl, hfirst⟩
  have hreg : [Effect.remove].foldl (Effect.register (β := ℕ) (k + 1))
      (withFd p 10 (some (k + 1)) none, ⟨10, 0, EPOLLHUP, .kDeleted, true⟩) =
      (withFd p 10 none none, ⟨10, 0, EPOLLHUP, .kNew, true⟩) := by
    simp [Effect.register, EPollPoller.removeChannel, withFd]
  have hremove : SoleWith k (passing k .kDisconnected 0 EPOLLHUP .kNew none) m
      ⟨withFd p 10 none none, [], .calling [] [.run .connectDestroyed (k + 1)], false⟩
      ((s.setPhase () (.calling [] [.run .connectDestroyed (k + 1)])).perform (some ()) (k + 1)
        ((s.setPhase () (.calling [] [.run .connectDestroyed (k + 1)])).conns
          (k + 1)).conn.connectDestroyed) := by
    rw [soleWith_conn hpop]
    exact soleWith_perform hpop rfl hreg
  refine ⟨_, ?_, soleWith_markDestroyed hremove⟩
  obtain ⟨conns, trace, rfl, -⟩ := h
  rfl

/-- One connection comes and goes. -/
private def passingCycle : List (Label Unit ℕ) :=
  [.poll () [], .newConnection 10 false 0, .swap (), .finish (), .poll () [(10, EPOLLHUP)],
    .handleEvent (), .callback () .failed (.sent 0), .swap (), .functor () (.sent 0), .finish ()]

private def firstRun : List (Label Unit ℕ) :=
  [.start (some ()), .poll () [], .newConnection 9 false 0, .swap (), .finish ()]

private def lastRun : List (Label Unit ℕ) := [.poll () [], .newConnection 10 false 0]

/-- What stays while they come and go. -/
private structure Standing (m : String → Option ℕ) (p : EPollPoller ℕ) : Prop where
  mapped : m (soleName 0) = some 0
  only : ∀ n c, m n = some c → c = 0
  registered : p.channels_ 9 = some 0
  free : p.epollfd_ 10 = none

private theorem step_new (h : Sole k m p .polling s) (hstands : Standing m p) :
    ∃ u, Lts.exec step s lastRun = some u ∧
      SoleWith k (passing k .kConnected Channel.kReadEvent 0 .kAdded none)
        (Function.update m (soleName (k + 1)) (some (k + 1)))
        ⟨withFd p 10 (some (k + 1)) (some ⟨Channel.kReadEvent, k + 1⟩), [], .dispatching [] [],
          false⟩ u := by
  obtain ⟨u, hu, hsole⟩ := sole_poll h
  refine ⟨_, Lts.exec_cons_iff.2 ⟨u, hu, Lts.exec_cons_iff.2 ⟨_, ?_, rfl⟩⟩,
    soleWith_newConnection hsole hstands.free⟩
  have hfree := sole_free hsole hstands.only
  rw [step_eq_some]
  obtain ⟨conns, trace, rfl, -⟩ := hsole
  exact ⟨rfl, if_pos ⟨rfl, rfl, hfree⟩⟩

private theorem exec_passingCycle (h : Sole k m p .polling s) (hstands : Standing m p)
    (hk : k + 1 < 2 ^ 32) : ∃ u m' p', Lts.exec step s passingCycle = some u ∧
      Sole (k + 1) m' p' .polling u ∧ Standing m' p' := by
  have hname : soleName 0 ≠ soleName (k + 1) := by
    intro he
    have := nameOf_inj.1 he
    omega
  obtain ⟨s₁, hs₁, h₁⟩ := step_new h hstands
  obtain ⟨s₂, hs₂, h₂⟩ := soleWith_swap h₁
  obtain ⟨s₃, hs₃, h₃⟩ := soleWith_finish h₂
  obtain ⟨s₄, hs₄, h₄⟩ := soleWith_poll h₃ (epollfd_withFd _ _ _ _)
  obtain ⟨s₅, hs₅, h₅⟩ := soleWith_handleEvent h₄ (Function.update_self _ _ _)
  obtain ⟨s₆, hs₆, h₆⟩ := soleWith_callback h₅
  obtain ⟨s₇, hs₇, h₇⟩ := soleWith_swap h₆
  obtain ⟨s₈, hs₈, h₈⟩ := soleWith_functor h₇
  obtain ⟨s₉, hs₉, h₉⟩ := soleWith_finish h₈
  refine ⟨s₉, _, _, ?_, sole_of_soleWith h₉, ?_, ?_, ?_, ?_⟩
  · refine Lts.exec_append_iff.2 ⟨s₁, hs₁, ?_⟩
    simp only [Lts.exec_cons, hs₂, hs₃, hs₄, hs₅, hs₆, hs₇, hs₈, hs₉, Option.bind_some]
    rfl
  · rw [Function.update_idem, Function.update_of_ne hname]
    exact hstands.mapped
  · intro n c hn
    rw [Function.update_idem, Function.update_apply] at hn
    split_ifs at hn
    exact hstands.only n c hn
  · exact (channels_withFd p _ _).trans hstands.registered
  · exact epollfd_withFd _ _ _ _

private def passingRun : ℕ → List (Label Unit ℕ)
  | 0 => []
  | n + 1 => passingRun n ++ passingCycle

private theorem exec_passingRun (h : Sole 0 m p .polling s) (hstands : Standing m p) {n : ℕ}
    (hn : n < 2 ^ 32) : ∃ u m' p', Lts.exec step s (passingRun n) = some u ∧
      Sole n m' p' .polling u ∧ Standing m' p' := by
  induction n with
  | zero => exact ⟨s, m, p, rfl, h, hstands⟩
  | succ n ih =>
    obtain ⟨u, m', p', hu, hsole, hstands'⟩ := ih (by omega)
    obtain ⟨v, m'', p'', hv, hsole', hstands''⟩ := exec_passingCycle hsole hstands' hn
    exact ⟨v, m'', p'', Lts.exec_append_iff.2 ⟨u, hu, hv⟩, hsole', hstands''⟩

/-- The connection `0` stays, `n` come and go, and another one comes. -/
private def reuseRun (n : ℕ) : List (Label Unit ℕ) := firstRun ++ (passingRun n ++ lastRun)

private theorem sole_start : ∃ s : TcpServer Unit ℕ,
    Lts.exec step (init () [] "" "" false) firstRun = some s ∧
    Sole 0 (Function.update (fun _ => none) (soleName 0) (some 0))
      (withFd .empty 9 (some 0) (some ⟨Channel.kReadEvent, 0⟩)) .polling s := by
  refine ⟨_, rfl, _, _, rfl, rfl, rfl⟩

private theorem not_safe_reuseRun {n : ℕ} (hn : n + 1 = 2 ^ 32) :
    ∃ s : TcpServer Unit ℕ, Lts.exec step (init () [] "" "" false) (reuseRun n) = some s ∧
      s.stage = .alive ∧ ¬ s.Safe := by
  obtain ⟨s, hs, hsole⟩ := sole_start
  have hstands : Standing (Function.update (fun _ => none) (soleName 0) (some 0))
      (withFd .empty 9 (some 0) (some ⟨Channel.kReadEvent, 0⟩)) := by
    refine ⟨Function.update_self _ _ _, fun n c hc => ?_, rfl, rfl⟩
    rw [Function.update_apply] at hc
    split_ifs at hc
    exact (Option.some.inj hc).symm
  obtain ⟨u, m, p, hu, hsole', hstands'⟩ := exec_passingRun hsole hstands (n := n) (by omega)
  obtain ⟨v, hv, hwith⟩ := step_new hsole' hstands'
  have hname : soleName (n + 1) = soleName 0 := nameOf_inj.2 (by omega)
  refine ⟨v, Lts.exec_append_iff.2 ⟨s, hs, Lts.exec_append_iff.2 ⟨u, hu, hv⟩⟩, ?_⟩
  obtain ⟨conns, trace, rfl, hfirst, -⟩ := hwith
  refine ⟨rfl, fun hsafe => ?_⟩
  have hconn : Function.update conns (n + 1) (passing n .kConnected Channel.kReadEvent 0 .kAdded
      none) 0 = conns 0 := Function.update_of_ne (Nat.succ_ne_zero n).symm _ _
  -- the entry of its name is that of the new connection
  have hchannels : (withFd p 10 (some (n + 1))
      (some ⟨Channel.kReadEvent, n + 1⟩)).channels_ 9 = some 0 :=
    (channels_withFd p _ _).trans hstands'.registered
  rcases (hsafe.registered () 9 0 (Or.inl hchannels)).2 with hmap | ⟨l, hl⟩ | hl
  · have hmap' : Function.update m (soleName (n + 1)) (some (n + 1)) (Function.update conns (n + 1)
        (passing n .kConnected Channel.kReadEvent 0 .kAdded none) 0).name_ = some 0 := hmap
    rw [hconn, hfirst, hname, Function.update_self] at hmap'
    cases hmap'
  · cases hl
  · cases hl

private theorem isWhole_reuseRun (n : ℕ) : ∀ a ∈ reuseRun n, a.isWhole = true := by
  have hfirst : ∀ a ∈ firstRun, a.isWhole = true := by decide
  have hcycle : ∀ a ∈ passingCycle, a.isWhole = true := by decide
  have hlast : ∀ a ∈ lastRun, a.isWhole = true := by decide
  have hpassing : ∀ a ∈ passingRun n, a.isWhole = true := by
    induction n with
    | zero => exact fun a ha => absurd ha List.not_mem_nil
    | succ n ih => exact fun a ha => (List.mem_append.1 ha).elim (ih a) (hcycle a)
  intro a ha
  rcases List.mem_append.1 ha with ha | ha
  · exact hfirst a ha
  · exact (List.mem_append.1 ha).elim (hpassing a) (hlast a)

end Reuse

section Steps

variable [DecidableEq L] [Fintype L] [Inhabited β]

/-- **Connection lifetime.**  In every run in which the names are right, as long as the server is
alive. -/
theorem lifetime {loop_ : L} {loops_ : List L} {ipPort_ name_ : String} {writeComplete : Bool}
    {ls : List (Label L β)} {s : TcpServer L β} (hwhole : ∀ a ∈ ls, a.isWhole = true)
    (hnames : Lts.Along step NameFree
      (init loop_ loops_ ipPort_ name_ writeComplete : TcpServer L β) ls)
    (h : Lts.exec step (init loop_ loops_ ipPort_ name_ writeComplete) ls = some s)
    (halive : s.stage = .alive) : s.Safe := by
  have hinv : s.Confined ∧ (s.stage = .alive → s.Owned) := by
    refine Lts.exec_inv (I := fun s => s.Confined ∧ (s.stage = .alive → s.Owned))
      (fun u a v hu ha hst => ?_) ⟨confined_init _ _ _ _ _, fun _ => owned_init _ _ _ _ _⟩
      ((Lts.along_of_forall hwhole).and hnames) h
    obtain ⟨hconf, howned⟩ := hu
    have hnext := (step_eq_some.1 hst).2
    refine ⟨confined_next hconf hnext, fun hv => ?_⟩
    exact owned_next (howned (alive_of_next hnext hv)) hconf ha.1 ha.2 hnext hv
  exact safe_of_owned (hinv.2 halive) hinv.1

/-- After `2^32 - 1` more the first connection is destroyed with its channel in the poller. -/
theorem destroyed_registered : (∀ a ∈ reuseRun (2 ^ 32 - 1), a.isWhole = true) ∧
    ∃ s : TcpServer Unit ℕ,
      Lts.exec step (init () [] "" "" false) (reuseRun (2 ^ 32 - 1)) = some s ∧
      s.stage = .alive ∧ ¬ s.Safe :=
  ⟨isWhole_reuseRun _, not_safe_reuseRun (by norm_num)⟩

/-- A connection on the io loop `false` comes and goes, and another one comes on its fd. -/
private def departedRun : List (Label Bool ℕ) :=
  [.start (some true), .poll true [], .newConnection 9 false 0, .swap true, .finish true,
    .poll false [], .swap false, .functor false (.sent 0), .finish false,
    .poll false [(9, EPOLLHUP)], .handleEvent false, .callback false .failed (.sent 0),
    .poll true [], .swap true, .functor true (.sent 0), .finish true, .swap false,
    .functor false (.sent 0), .finish false, .poll true [], .newConnection 9 false 0]

theorem lifetime_departed : ∃ s : TcpServer Bool ℕ,
    Lts.exec step (init true [false] "" "" false) departedRun = some s ∧ s.made = 2 ∧
      ¬ s.Held 0 ∧ s.Safe := by
  have hrun : (Lts.exec step (init true [false] "" "" false) departedRun).any (fun s =>
      s.made = 2 ∧ ¬ s.Held 0 ∧ s.stage = .alive) = true := by decide +kernel
  obtain ⟨s, hs, hp⟩ := Lts.exec_of_any hrun
  obtain ⟨hmade, hheld, halive⟩ := of_decide_eq_true hp
  exact ⟨s, hs, hmade, hheld, lifetime (by decide) (by decide +kernel) hs halive⟩

end Steps

end TcpServer

end Muduo
