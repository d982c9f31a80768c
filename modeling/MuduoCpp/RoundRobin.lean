import Mathlib.Data.Int.CardIntervalMod
import MuduoCpp.Lifetime

/-!
# `src/EventLoopThreadPool.cc`: connections go round the loops

`getNextLoop` takes the loops of the pool in turn, whatever else happens in the server between two
calls of `newConnection`: `next_` is the number of connections made so far, modulo the number of
loops.

* `SameServer`: what only `newConnection` changes;
* `round_robin`: connection `c` is on the loop `c % loops_.size()`, and no loop of the pool gets
  more than one connection more than another.
-/

namespace Muduo

namespace TcpServer

variable {L β : Type}

/-- The loops, the counters and the fds are as they were. -/
structure SameServer (s s' : TcpServer L β) : Prop where
  loop_ : s'.loop_ = s.loop_
  loops_ : s'.loops_ = s.loops_
  next_ : s'.next_ = s.next_
  made : s'.made = s.made
  loopOf : ∀ c, (s'.conns c).loop_ = (s.conns c).loop_
  fdOf : ∀ c, (s'.conns c).conn.channel_.fd_ = (s.conns c).conn.channel_.fd_

variable {s s' u : TcpServer L β} {l : L} {t : Option L} {c : ℕ}

namespace SameServer

theorem rfl' : s.SameServer s := ⟨rfl, rfl, rfl, rfl, fun _ => rfl, fun _ => rfl⟩

theorem trans (h : s.SameServer s') (h' : s'.SameServer u) : s.SameServer u :=
  ⟨h'.loop_.trans h.loop_, h'.loops_.trans h.loops_, h'.next_.trans h.next_, h'.made.trans h.made,
    fun c => (h'.loopOf c).trans (h.loopOf c), fun c => (h'.fdOf c).trans (h.fdOf c)⟩

end SameServer

section Steps

variable [DecidableEq L]

theorem sameServer_modifyLoop (f : Loop β → Loop β) : s.SameServer (s.modifyLoop l f) :=
  ⟨rfl, rfl, rfl, rfl, fun _ => rfl, fun _ => rfl⟩

omit [DecidableEq L] in
/-- A change of one connection. -/
theorem sameServer_conns {x : Connection L β} (hl : x.loop_ = (s.conns c).loop_)
    (hfd : x.conn.channel_.fd_ = (s.conns c).conn.channel_.fd_) :
    s.SameServer { s with conns := Function.update s.conns c x } := by
  refine ⟨rfl, rfl, rfl, rfl, fun d => ?_, fun d => ?_⟩
  all_goals
    by_cases hd : d = c
    · simp [hd, hl, hfd]
    · simp [Function.update_of_ne hd]

omit [DecidableEq L] in
theorem sameServer_setConn {conn : TcpConnection β}
    (hfd : conn.channel_.fd_ = (s.conns c).conn.channel_.fd_) : s.SameServer (s.setConn c conn) :=
  sameServer_conns rfl hfd

/-- The functions of a connection keep its fd. -/
theorem sameServer_perform {res : TcpConnection β × List (Effect β)}
    (hu : (s.conns c).conn.Updates res) : s.SameServer (s.perform t c res) := by
  have hfd : res.1.channel_.fd_ = (s.conns c).conn.channel_.fd_ := by
    rcases hu with h | h
    · rw [h]
    · exact h.1
  obtain ⟨i, hi⟩ := Effect.foldl_register c res.2
    ((s.loops (s.conns c).loop_).poller, res.1.channel_)
  refine ⟨rfl, rfl, rfl, rfl, fun d => ?_, fun d => ?_⟩
  · rw [conns_perform]
    by_cases hd : d = c
    · simp [hd]
    · rw [Function.update_of_ne hd]
  · rw [conns_perform]
    by_cases hd : d = c
    · rw [hd, Function.update_self]
      exact (congrArg Channel.fd_ hi).trans hfd
    · rw [Function.update_of_ne hd]

theorem sameServer_removeConnection : s.SameServer (s.removeConnection t c) := by
  unfold removeConnection removeConnectionInLoop
  simp only
  split_ifs <;> exact ⟨rfl, rfl, rfl, rfl, fun _ => rfl, fun _ => rfl⟩

theorem sameServer_poll (events : List (ℤ × Events)) : s.SameServer (s.poll l events) := by
  refine poll_inv (I := s.SameServer) (sameServer_modifyLoop _) (fun u e active _ hu => hu.trans ?_)
    events
  unfold activate
  cases (u.loops l).poller.epollfd_ e.1 with
  | none => exact .rfl'
  | some event =>
    refine SameServer.trans (sameServer_setConn ?_) (sameServer_modifyLoop _)
    rfl

theorem sameServer_start (t : Option L) : s.SameServer (s.start t) := by
  unfold start
  split_ifs <;> exact ⟨rfl, rfl, rfl, rfl, fun _ => rfl, fun _ => rfl⟩

variable [Inhabited β]

theorem sameServer_runTask (task : Task β) (r : WriteResult) :
    s.SameServer (s.runTask t c task r) := by
  have hperform : s.SameServer (s.perform t c ((s.conns c).conn.runTask r task)) :=
    sameServer_perform (TcpConnection.updates_runTask _ _ _)
  unfold runTask
  cases task with
  | connectDestroyed => exact hperform.trans (sameServer_conns (c := c) rfl rfl)
  | _ => exact hperform

theorem sameServer_runInLoop (task : Task β) (r : WriteResult) :
    s.SameServer (s.runInLoop t c task r) := by
  unfold runInLoop
  split_ifs
  · exact sameServer_runTask task r
  · exact sameServer_modifyLoop _

theorem sameServer_destroy (conns : List ℕ) : s.SameServer (s.destroy t conns) := by
  have hrun := List.foldlRecOn (motive := s.SameServer) conns
    (fun u c => u.runInLoop t c .connectDestroyed (.sent 0)) .rfl'
  obtain ⟨hloop, hloops, hnext, hmade, hof, hfd⟩ :=
    hrun fun _ hu _ _ => hu.trans (sameServer_runInLoop _ _)
  exact ⟨hloop, hloops, hnext, hmade, hof, hfd⟩

/-- `newConnection` takes the next loop for the new connection, and the fd that it is given. -/
theorem newConnection_deals (sockfd : ℤ) (highWater : Bool) (mark : ℕ) :
    let s' := s.newConnection t sockfd highWater mark
    s'.loop_ = s.loop_ ∧ s'.loops_ = s.loops_ ∧ s'.next_ = s.getNextLoop.2 ∧ s'.made = s.made + 1 ∧
      (∀ c, (s'.conns c).loop_ = if c = s.made then s.getNextLoop.1 else (s.conns c).loop_) ∧
      ∀ c, (s'.conns c).conn.channel_.fd_ =
        if c = s.made then sockfd else (s.conns c).conn.channel_.fd_ := by
  obtain ⟨hloop, hloops, hnext, hmade, hof, hfd⟩ := sameServer_runInLoop (t := t) (c := s.made)
    (s := s.makeConnection t sockfd highWater mark) .connectEstablished (.sent 0)
  refine ⟨hloop, hloops, hnext, hmade, fun c => (hof c).trans ?_, fun c => (hfd c).trans ?_⟩
  · show (Function.update s.conns s.made _ c).loop_ = _
    rw [Function.update_apply]
    split_ifs <;> rfl
  · show (Function.update s.conns s.made _ c).conn.channel_.fd_ = _
    rw [Function.update_apply]
    split_ifs <;> rfl

variable [Fintype L]

theorem sameServer_next {a : Label L β} (hnew : a.isNew = false) (hst : s.next a = some s') :
    s.SameServer s' := by
  cases does_of_next hst with
  | start t hs => exact sameServer_start t
  | poll hp he => exact sameServer_poll _
  | newConnection => cases hnew
  | @callback l active c k rest read write hp =>
    have hperform : s.SameServer ((s.setPhase l (.dispatching active rest)).perform (some l) c
        ((s.conns c).conn.runCallback read write k)) :=
      (sameServer_modifyLoop _).trans
        (sameServer_perform (TcpConnection.updates_runCallback _ _ _ _))
    unfold runCallback
    simp only
    split_ifs
    · exact hperform.trans sameServer_removeConnection
    · exact hperform
  | @functor l f rest done r hp =>
    cases f with
    | run task c => exact (sameServer_modifyLoop _).trans (sameServer_runTask task r)
    | removeConnectionInLoop c => exact ⟨rfl, rfl, rfl, rfl, fun _ => rfl, fun _ => rfl⟩
    | listen => exact ⟨rfl, rfl, rfl, rfl, fun _ => rfl, fun _ => rfl⟩
  | call r hc hconn ht => exact sameServer_runInLoop _ r
  | @shutdown t c hc hconn =>
    refine SameServer.trans (sameServer_setConn ?_) (sameServer_runInLoop _ _)
    rfl
  | @store c hc hs => exact sameServer_setConn rfl
  | destroy hs hconns => exact sameServer_destroy _
  | handleEvent | swap | finish | push | exit => exact sameServer_modifyLoop _
  | nothing | user | destroyed => exact ⟨rfl, rfl, rfl, rfl, fun _ => rfl, fun _ => rfl⟩

/-! ### Round robin -/

/-- The loop of connection `c`. -/
def dealt (loop_ : L) (loops_ : List L) (c : ℕ) : L :=
  if loops_ = [] then loop_ else loops_.getD (c % loops_.length) loop_

/-- `next_` says where in the round the next connection comes, and each connection got its loop. -/
structure Dealing (loop_ : L) (loops_ : List L) (s : TcpServer L β) : Prop where
  base : s.loop_ = loop_
  pool : s.loops_ = loops_
  next : s.next_ = s.made % loops_.length ∨ loops_ = []
  dealt : ∀ c < s.made, (s.conns c).loop_ = TcpServer.dealt loop_ loops_ c

variable {loop_ : L} {loops_ : List L}

omit [DecidableEq L] [Inhabited β] [Fintype L] in
theorem getNextLoop_of_dealing (h : s.Dealing loop_ loops_) :
    s.getNextLoop.1 = dealt loop_ loops_ s.made ∧
      (s.getNextLoop.2 = (s.made + 1) % loops_.length ∨ loops_ = []) := by
  unfold getNextLoop dealt
  rw [h.pool, h.base]
  by_cases hnil : loops_ = []
  · simp [hnil]
  · have hnext := h.next.resolve_right hnil
    simp [hnil, hnext]

theorem dealing_next {a : Label L β} (h : s.Dealing loop_ loops_) (hst : s.next a = some s') :
    s'.Dealing loop_ loops_ := by
  cases hnew : a.isNew with
  | false =>
    obtain ⟨hloop, hloops, hnext, hmade, hof, -⟩ := sameServer_next hnew hst
    refine ⟨hloop.trans h.base, hloops.trans h.pool, ?_, fun c hc => ?_⟩
    · rw [hnext, hmade]
      exact h.next
    · rw [hof]
      exact h.dealt c (hmade ▸ hc)
  | true =>
    cases a with
    | newConnection sockfd highWater mark =>
      obtain ⟨-, -, -, rfl⟩ := next_newConnection hst
      obtain ⟨hloop, hloops, hnext, hmade, hof, -⟩ :=
        newConnection_deals (s := s) (t := some s.loop_) sockfd highWater mark
      obtain ⟨hfirst, hsecond⟩ := getNextLoop_of_dealing h
      refine ⟨hloop.trans h.base, hloops.trans h.pool, ?_, fun c hc => ?_⟩
      · rw [hnext, hmade]
        exact hsecond
      · rw [hof]
        split_ifs with hc'
        · rw [hc', hfirst]
        · rw [hmade] at hc
          exact h.dealt c (by omega)
    | _ => cases hnew

omit [DecidableEq L] [Fintype L] in
theorem dealing_init (ipPort_ name_ : String) (writeComplete : Bool) :
    (init loop_ loops_ ipPort_ name_ writeComplete : TcpServer L β).Dealing loop_ loops_ :=
  ⟨rfl, rfl, Or.inl (Nat.zero_mod _).symm, fun c hc => absurd hc (Nat.not_lt_zero c)⟩

omit [Inhabited β] [Fintype L] in
/-- How many of the connections are on one loop of the pool. -/
theorem count_of_dealing (h : s.Dealing loop_ loops_) (hnodup : loops_.Nodup) {j : ℕ}
    (hj : j < loops_.length) : (List.range s.made).countP (fun c => (s.conns c).loop_ = loops_[j]) =
      s.made / loops_.length + if j < s.made % loops_.length then 1 else 0 := by
  have hpos : 0 < loops_.length := Nat.zero_lt_of_lt hj
  have hiff : ∀ c ∈ List.range s.made,
      (s.conns c).loop_ = loops_[j] ↔ c ≡ j [MOD loops_.length] := by
    intro c hc
    have hmod : c % loops_.length < loops_.length := Nat.mod_lt _ hpos
    rw [h.dealt c (List.mem_range.1 hc), dealt, if_neg (List.ne_nil_of_length_pos hpos),
      List.getD_eq_getElem _ _ hmod, hnodup.getElem_inj_iff, Nat.ModEq, Nat.mod_eq_of_lt hj]
  have hcount : (List.range s.made).countP (fun c => (s.conns c).loop_ = loops_[j]) =
      s.made.count (· ≡ j [MOD loops_.length]) :=
    List.countP_congr fun c hc => by simpa using hiff c hc
  rw [hcount, Nat.count_modEq_card _ hpos, Nat.mod_eq_of_lt hj]

/-- **Round robin.**  In every run connection `c` is on the base loop if the pool is empty and on
the loop `c % loops_.size()` of the pool otherwise; of `made` connections each loop of the pool has
`made / loops_.size()`, and the first `made % loops_.size()` have one more. -/
theorem round_robin {ipPort_ name_ : String} {writeComplete : Bool} {ls : List (Label L β)}
    {s : TcpServer L β}
    (h : Lts.exec step (init loop_ loops_ ipPort_ name_ writeComplete) ls = some s) :
    (∀ c < s.made, (s.conns c).loop_ = dealt loop_ loops_ c) ∧
      (loops_.Nodup → ∀ j (hj : j < loops_.length),
        (List.range s.made).countP (fun c => (s.conns c).loop_ = loops_[j]) =
          s.made / loops_.length + if j < s.made % loops_.length then 1 else 0) := by
  have hdeal := Lts.exec_inv' (I := Dealing loop_ loops_) (fun u a v hu hst =>
    dealing_next hu (step_eq_some.1 hst).2) (dealing_init _ _ _) h
  exact ⟨hdeal.dealt, fun hnodup j hj => count_of_dealing hdeal hnodup hj⟩

/-- Three connections on a pool of two; the second one goes before the third comes. -/
private def thirdRun : List (Label (Fin 3) ℕ) :=
  [.start (some 0), .poll 0 [], .newConnection 9 false 0, .newConnection 10 false 0, .poll 2 [],
    .swap 2, .functor 2 (.sent 0), .finish 2, .poll 2 [(10, EPOLLHUP)], .handleEvent 2,
    .callback 2 .failed (.sent 0), .swap 0, .functor 0 (.sent 0), .finish 0, .poll 0 [],
    .newConnection 11 false 0]

theorem round_robin_third : ∃ s : TcpServer (Fin 3) ℕ, s.made = 3 ∧
    (∀ c < s.made, (s.conns c).loop_ = dealt 0 [1, 2] c) ∧
    (List.range s.made).countP (fun c => (s.conns c).loop_ = 1) = 2 := by
  have hrun : (Lts.exec step (init 0 [1, 2] "" "" false) thirdRun).any (fun s => s.made = 3) =
      true := by decide +kernel
  obtain ⟨s, hs, hp⟩ := Lts.exec_of_any hrun
  have hmade : s.made = 3 := of_decide_eq_true hp
  obtain ⟨hdealt, hcount⟩ := round_robin hs
  refine ⟨s, hmade, hdealt, ?_⟩
  have := hcount (by decide) 0 (by decide)
  rwa [hmade] at this ⊢

end Steps

end TcpServer

end Muduo
