import MuduoCpp.RoundRobin

/-!
# `src/Acceptor.cc`: from the kernel's queue to the loops

The kernel queues the connections that arrive at the listening socket.  Each time `epoll_wait`
reports `acceptChannel_`, `handleRead` calls `accept4` once: what it returns goes to
`newConnection`, and an error is logged and nothing else.

* `Acceptor`: a server with the queue of its listening socket;
* `accepted_in_order`: what leaves the queue leaves it in order, and the connections that `accept4`
  returns become the connections of the server, one for one, each with its fd and on its loop;
* `accepted_in_rounds`: one connection is accepted in each round of the base loop.
-/

namespace Muduo

/-! ### Dispatching -/

namespace TcpServer

variable {L β : Type}

/-- The loop has the channels that a poll has reported. -/
def dispatching (s : TcpServer L β) (l : L) : Bool :=
  match (s.loops l).phase with
  | .dispatching _ _ => true
  | _ => false

/-- No loop begins to dispatch, or ends it. -/
def SamePhases (s s' : TcpServer L β) : Prop := ∀ l, s'.dispatching l = s.dispatching l

variable {s s' u : TcpServer L β} {l : L} {t : Option L} {c : ℕ}

theorem SamePhases.trans {v : TcpServer L β} (h : s.SamePhases v) (h' : v.SamePhases u) :
    s.SamePhases u :=
  fun l => (h' l).trans (h l)

theorem samePhases_of (h : ∀ l, (s'.loops l).phase = (s.loops l).phase) : s.SamePhases s' :=
  fun l => by rw [dispatching, dispatching, h]

variable [DecidableEq L]

theorem dispatching_setPhase (phase : Phase β) (k : L) : (s.setPhase l phase).dispatching k =
    if k = l then (match phase with | .dispatching _ _ => true | _ => false)
      else s.dispatching k := by
  rw [dispatching, setPhase, loops_modifyLoop]
  split_ifs with hk
  · rfl
  · rfl

theorem samePhases_setPhase {phase : Phase β}
    (h : (match phase with | .dispatching _ _ => true | _ => false) = s.dispatching l) :
    s.SamePhases (s.setPhase l phase) := by
  intro k
  rw [dispatching_setPhase]
  split_ifs with hk
  · rw [h, hk]
  · rfl

/-- A change of a loop that keeps its phase. -/
theorem samePhases_modifyLoop {f : Loop β → Loop β}
    (h : (f (s.loops l)).phase = (s.loops l).phase) :
    s.SamePhases (s.modifyLoop l f) :=
  samePhases_of fun k => by
    rw [loops_modifyLoop]
    split_ifs with hk
    · rw [h, hk]
    · rfl

theorem samePhases_queueInLoop (f : Functor β) : s.SamePhases (s.queueInLoop l f) :=
  samePhases_modifyLoop rfl

theorem samePhases_perform (res : TcpConnection β × List (Effect β)) :
    s.SamePhases (s.perform t c res) :=
  samePhases_of fun k => by
    rw [loops_perform]
    split_ifs with hk
    · rw [hk]
    · rfl

theorem samePhases_removeConnection : s.SamePhases (s.removeConnection t c) := by
  unfold removeConnection removeConnectionInLoop
  simp only
  split_ifs
  · exact SamePhases.trans (samePhases_of fun _ => rfl) (samePhases_queueInLoop _)
  · exact SamePhases.trans (samePhases_of fun _ => rfl) (samePhases_queueInLoop _)

variable [Inhabited β]

theorem samePhases_runTask (task : Task β) (r : WriteResult) :
    s.SamePhases (s.runTask t c task r) := by
  have hperform := samePhases_perform (s := s) (t := t) (c := c) ((s.conns c).conn.runTask r task)
  unfold runTask
  cases task with
  | connectDestroyed => exact hperform
  | _ => exact hperform

theorem samePhases_runInLoop (task : Task β) (r : WriteResult) :
    s.SamePhases (s.runInLoop t c task r) := by
  unfold runInLoop
  split_ifs
  · exact samePhases_runTask task r
  · exact samePhases_queueInLoop _

omit [Inhabited β] in
/-- What is reported joins the channels that are dispatched. -/
theorem samePhases_poll (events : List (ℤ × Events)) :
    (s.setPhase l (.dispatching [] [])).SamePhases (s.poll l events) := by
  refine poll_inv (I := (s.setPhase l (.dispatching [] [])).SamePhases) (fun _ => rfl)
    (fun u e active hp hu => hu.trans ?_) events
  unfold activate
  cases (u.loops l).poller.epollfd_ e.1 with
  | none => exact fun _ => rfl
  | some event =>
    refine SamePhases.trans (v := u.setConn _ _) (samePhases_of fun _ => rfl)
      (samePhases_setPhase ?_)
    show true = u.dispatching l
    rw [dispatching, hp]

variable [Fintype L] {a : Label L β}

theorem dispatching_poll {events : List (ℤ × Events)} (hst : s.next (.poll l events) = some s') :
    s.dispatching l = false ∧ ∀ k, s'.dispatching k = if k = l then true else s.dispatching k := by
  obtain ⟨hp, -, -, rfl⟩ := next_poll hst
  exact ⟨by rw [dispatching, hp],
    fun k => (samePhases_poll events k).trans (dispatching_setPhase _ k)⟩

theorem dispatching_swap (hst : s.next (.swap l) = some s') :
    s.dispatching l = true ∧ ∀ k, s'.dispatching k = if k = l then false else s.dispatching k := by
  obtain ⟨hp, rfl⟩ := next_swap hst
  refine ⟨by rw [dispatching, hp], fun k => ?_⟩
  rw [dispatching, loops_modifyLoop]
  split_ifs with hk
  · rfl
  · rfl

/-- Any other step leaves the loops where they are. -/
theorem samePhases_next (hpoll : ∀ l events, a ≠ .poll l events) (hswap : ∀ l, a ≠ .swap l)
    (hst : s.next a = some s') : s.SamePhases s' := by
  cases does_of_next hst with
  | start t hs =>
    unfold start
    split_ifs
    · exact samePhases_of fun _ => rfl
    · exact samePhases_of fun _ => rfl
    · exact SamePhases.trans (v := { s with started_ := true }) (samePhases_of fun _ => rfl)
        (samePhases_queueInLoop _)
  | poll => exact absurd rfl (hpoll _ _)
  | newConnection highWater mark hp hs hfd =>
    exact SamePhases.trans (v := s.makeConnection (some s.loop_) _ highWater mark)
      (samePhases_of fun _ => rfl) (samePhases_runInLoop _ _)
  | handleEvent hp => exact samePhases_setPhase (by rw [dispatching, hp])
  | @callback l active c k rest read write hp =>
    have hpop : s.SamePhases (s.setPhase l (.dispatching active rest)) :=
      samePhases_setPhase (by rw [dispatching, hp])
    unfold runCallback
    simp only
    split_ifs
    · exact (hpop.trans (samePhases_perform _)).trans samePhases_removeConnection
    · exact hpop.trans (samePhases_perform _)
  | swap => exact absurd rfl (hswap _)
  | @functor l f rest done r hp =>
    have hpop : s.SamePhases (s.setPhase l (.calling rest (done ++ [f]))) :=
      samePhases_setPhase (by rw [dispatching, hp])
    cases f with
    | run task c => exact hpop.trans (samePhases_runTask _ _)
    | removeConnectionInLoop c =>
      exact hpop.trans (SamePhases.trans (samePhases_of fun _ => rfl) (samePhases_queueInLoop _))
    | listen => exact hpop
  | finish hp => exact samePhases_setPhase (by rw [dispatching, hp])
  | call r hc hconn ht => exact samePhases_runInLoop _ r
  | @shutdown t c hc hconn =>
    exact SamePhases.trans (v := s.setConn c _) (samePhases_of fun _ => rfl)
      (samePhases_runInLoop _ _)
  | push => exact samePhases_queueInLoop _
  | nothing | store | user | destroyed => exact samePhases_of fun _ => rfl
  | @destroy conns hs hconns =>
    exact List.foldlRecOn (motive := s.SamePhases) conns
      (fun u c => u.runInLoop (some s.loop_) c .connectDestroyed (.sent 0)) (fun _ => rfl)
      fun _ hu _ _ => hu.trans (samePhases_runInLoop _ _)
  | exit => exact samePhases_modifyLoop rfl

end TcpServer

/-- What `accept4` returns. -/
inductive AcceptResult
  | connfd (fd : ℤ)
  /-- `ECONNABORTED`: the first connection of the queue has gone away. -/
  | aborted
  /-- `EMFILE` and other errors: the queue is as it was. -/
  | failed (e : Errno)
  deriving DecidableEq, Repr

/-- A server whose loops run, and the queue of its listening socket; the connections in it are of
the type `γ`. -/
structure Acceptor (L β γ : Type) where
  server : TcpServer L β
  /-- `acceptChannel_` awaits dispatch. -/
  active : Bool
  backlog : List γ
  /-- All that have been in the queue. -/
  arrived : List γ
  /-- Those that have left it, with the fd if `accept4` returned them. -/
  taken : List (γ × Option ℤ)
  /-- How often the poller has reported `acceptChannel_`, and how often `accept4` was called. -/
  reports : ℕ
  accepts : ℕ

namespace Acceptor

variable {L β γ : Type}

/-- A step of the acceptor, or of the rest of the server. -/
inductive Label (L β γ : Type)
  | arrive (x : γ)
  /-- `epoll_wait` of the base loop reports `acceptChannel_` too. -/
  | poll (events : List (ℤ × Events))
  | handleRead (r : AcceptResult) (highWater : Bool) (mark : ℕ)
  | server (a : TcpServer.Label L β)
  deriving DecidableEq, Repr

variable [DecidableEq L] [Fintype L] [Inhabited β]

/-- Whether the base loop runs the callback of `acceptChannel_` now. -/
def dispatches (s : Acceptor L β γ) : Bool :=
  s.active && decide (s.server.stage = .alive) &&
    match (s.server.loops s.server.loop_).phase with
    | .dispatching _ [] => true
    | _ => false

/-- What the rest of the server cannot do: it makes no connection, and the functors come after all
the channels. -/
def waits (s : Acceptor L β γ) : TcpServer.Label L β → Bool
  | .newConnection _ _ _ => true
  | .swap l => decide (l = s.server.loop_) && s.active
  | _ => false

/-- `Acceptor::handleRead`. -/
def handleRead (s : Acceptor L β γ) (highWater : Bool) (mark : ℕ) :
    AcceptResult → Option (Acceptor L β γ)
  | .connfd fd =>
      match s.backlog with
      | x :: rest => (s.server.step (.newConnection fd highWater mark)).map fun server =>
          { s with
            server, active := false, backlog := rest, taken := s.taken ++ [(x, some fd)],
            accepts := s.accepts + 1 }
      | [] => none
  | .aborted =>
      match s.backlog with
      | x :: rest => some { s with
          active := false, backlog := rest, taken := s.taken ++ [(x, none)],
          accepts := s.accepts + 1 }
      | [] => none
  | .failed _ => some { s with active := false, accepts := s.accepts + 1 }

/-- One step. -/
def step (s : Acceptor L β γ) : Label L β γ → Option (Acceptor L β γ)
  | .arrive x =>
      if s.server.listenning_ = true then
        some { s with backlog := s.backlog ++ [x], arrived := s.arrived ++ [x] }
      else none
  | .poll events =>
      if s.server.listenning_ = true then
        (s.server.step (.poll s.server.loop_ events)).map fun server =>
          { s with server, active := true, reports := s.reports + 1 }
      else none
  | .handleRead r highWater mark => if s.dispatches then s.handleRead highWater mark r else none
  | .server a =>
      if s.waits a then none else (s.server.step a).map fun server => { s with server }

/-- A newly constructed server; nobody has connected. -/
def init (loop_ : L) (loops_ : List L) (ipPort_ name_ : String) (writeComplete : Bool) :
    Acceptor L β γ where
  server := .init loop_ loops_ ipPort_ name_ writeComplete
  active := false
  backlog := []
  arrived := []
  taken := []
  reports := 0
  accepts := 0

/-- The connections that `accept4` has returned. -/
def accepted (s : Acceptor L β γ) : List (γ × ℤ) :=
  s.taken.filterMap fun e => e.2.map fun fd => (e.1, fd)

/-! ### Order -/

/-- What left the queue and what is in it are what came, and the connections of the server are the
accepted ones. -/
structure Served (loop_ : L) (loops_ : List L) (s : Acceptor L β γ) : Prop where
  arrived : s.arrived = s.taken.map Prod.fst ++ s.backlog
  made : s.server.made = s.accepted.length
  fds : ∀ c < s.server.made, s.accepted[c]?.map Prod.snd = some (s.server.conns c).conn.channel_.fd_
  dealing : s.server.Dealing loop_ loops_
  reports : s.reports = s.accepts + s.active.toNat
  phase : s.active = true → s.server.dispatching s.server.loop_ = true

variable {s t : Acceptor L β γ} {loop_ : L} {loops_ : List L}

/-- A step of the server that makes no connection. -/
theorem served_server (h : s.Served loop_ loops_) {a : TcpServer.Label L β} (hnew : a.isNew = false)
    {server : TcpServer L β} (hst : s.server.next a = some server) {active : Bool} {reports : ℕ}
    (hrep : reports = s.accepts + active.toNat)
    (hphase : active = true → server.dispatching s.server.loop_ = true) :
    Served loop_ loops_ { s with server, active, reports } := by
  have hsame := TcpServer.sameServer_next hnew hst
  refine ⟨h.arrived, hsame.made.trans h.made, fun c hc => ?_, TcpServer.dealing_next h.dealing hst,
    hrep, fun hactive => ?_⟩
  · rw [hsame.fdOf]
    exact h.fds c (hsame.made ▸ hc)
  · show server.dispatching server.loop_ = true
    rw [hsame.loop_]
    exact hphase hactive

/-- `newConnection` for the first connection of the queue. -/
theorem served_newConnection (h : s.Served loop_ loops_) (hactive : s.active = true) {x : γ}
    {rest : List γ} (hq : s.backlog = x :: rest) {fd : ℤ} {highWater : Bool} {mark : ℕ}
    {server : TcpServer L β}
    (hst : s.server.next (.newConnection fd highWater mark) = some server) :
    Served loop_ loops_ { s with
      server, active := false, backlog := rest, taken := s.taken ++ [(x, some fd)],
      accepts := s.accepts + 1 } := by
  have hdealing := TcpServer.dealing_next h.dealing hst
  obtain ⟨-, -, -, rfl⟩ := TcpServer.next_newConnection hst
  obtain ⟨-, -, -, hmade, -, hfd⟩ := TcpServer.newConnection_deals (s := s.server)
    (t := some s.server.loop_) fd highWater mark
  set v : Acceptor L β γ := { s with
    server := s.server.newConnection (some s.server.loop_) fd highWater mark, active := false,
    backlog := rest, taken := s.taken ++ [(x, some fd)], accepts := s.accepts + 1 } with hv
  have haccepted : v.accepted = s.accepted ++ [(x, fd)] := by
    simp [hv, accepted]
  refine ⟨?_, ?_, fun c hc => ?_, hdealing, ?_, fun hf => by cases hf⟩
  · simp [hv, h.arrived, hq]
  · rw [haccepted, List.length_append, ← h.made]
    exact hmade
  · rw [haccepted]
    refine Eq.trans ?_ (congrArg some (hfd c).symm)
    rcases Nat.lt_or_eq_of_le (Nat.le_of_lt_succ (hmade ▸ hc)) with hlt | rfl
    · rw [if_neg (Nat.ne_of_lt hlt), List.getElem?_append_left (h.made ▸ hlt)]
      exact h.fds c hlt
    · rw [if_pos rfl, h.made, List.getElem?_concat_length]
      rfl
  · show s.reports = s.accepts + 1 + 0
    rw [h.reports, hactive]
    rfl

theorem served_handleRead (h : s.Served loop_ loops_) (hactive : s.active = true) {r : AcceptResult}
    {highWater : Bool} {mark : ℕ} (hst : s.handleRead highWater mark r = some t) :
    t.Served loop_ loops_ := by
  have hreports : s.reports = s.accepts + 1 := by
    rw [h.reports, hactive]
    rfl
  cases r with
  | connfd fd =>
    simp only [handleRead] at hst
    split at hst
    · next x rest hq =>
      obtain ⟨server, hserver, rfl⟩ := Option.map_eq_some_iff.1 hst
      exact served_newConnection h hactive hq (TcpServer.step_eq_some.1 hserver).2
    · cases hst
  | aborted =>
    simp only [handleRead] at hst
    split at hst
    · next x rest hq =>
      cases hst
      have haccepted : accepted { s with
          active := false, backlog := rest, taken := s.taken ++ [(x, none)],
          accepts := s.accepts + 1 } = s.accepted := by
        simp [accepted]
      refine ⟨by simp [h.arrived, hq], ?_, ?_, h.dealing, hreports, fun hf => by cases hf⟩
      · rw [haccepted]
        exact h.made
      · rw [haccepted]
        exact h.fds
    · cases hst
  | failed e =>
    cases hst
    exact ⟨h.arrived, h.made, h.fds, h.dealing, hreports, fun hf => by cases hf⟩

theorem served_step {a : Label L β γ} (h : s.Served loop_ loops_) (hst : s.step a = some t) :
    t.Served loop_ loops_ := by
  cases a with
  | arrive x =>
    simp only [step, Option.ite_none_right_eq_some, Option.some.injEq] at hst
    obtain ⟨-, rfl⟩ := hst
    exact ⟨by simp [h.arrived], h.made, h.fds, h.dealing, h.reports, h.phase⟩
  | poll events =>
    simp only [step, Option.ite_none_right_eq_some] at hst
    obtain ⟨server, hserver, rfl⟩ := Option.map_eq_some_iff.1 hst.2
    have hnext := (TcpServer.step_eq_some.1 hserver).2
    obtain ⟨hidle, hphase⟩ := TcpServer.dispatching_poll hnext
    refine served_server h rfl hnext ?_ fun _ => ?_
    · cases hactive : s.active with
      | false =>
        rw [h.reports, hactive]
        rfl
      | true => exact absurd (h.phase hactive) (by simp [hidle])
    · rw [hphase, if_pos rfl]
  | handleRead r highWater mark =>
    simp only [step, Option.ite_none_right_eq_some] at hst
    obtain ⟨hd, hst⟩ := hst
    simp only [dispatches, Bool.and_eq_true] at hd
    exact served_handleRead h hd.1.1 hst
  | server a =>
    simp only [step, Option.ite_none_left_eq_some] at hst
    obtain ⟨hwaits, hst⟩ := hst
    obtain ⟨server, hserver, rfl⟩ := Option.map_eq_some_iff.1 hst
    have hnext := (TcpServer.step_eq_some.1 hserver).2
    have hnew : a.isNew = false := by
      cases a <;> first | rfl | exact absurd rfl hwaits
    refine served_server h hnew hnext h.reports fun hactive => ?_
    have hdispatching := h.phase hactive
    cases a with
    | poll l events =>
      rw [(TcpServer.dispatching_poll hnext).2]
      split_ifs
      · rfl
      · exact hdispatching
    | swap l =>
      have hl : s.server.loop_ ≠ l := by
        rintro rfl
        simp [waits, hactive] at hwaits
      rw [(TcpServer.dispatching_swap hnext).2, if_neg hl]
      exact hdispatching
    | _ => exact (TcpServer.samePhases_next (by simp) (by simp) hnext _).trans hdispatching

variable {ipPort_ name_ : String} {writeComplete : Bool} {ls : List (Label L β γ)}

theorem served_run
    (h : Lts.exec step (init loop_ loops_ ipPort_ name_ writeComplete : Acceptor L β γ) ls =
      some s) :
    s.Served loop_ loops_ :=
  Lts.exec_inv' (fun _ _ _ hs hst => served_step hs hst)
    ⟨rfl, rfl, fun c hc => absurd hc (Nat.not_lt_zero c), TcpServer.dealing_init _ _ _, rfl,
      fun hf => by cases hf⟩ h

/-- **From the queue to the loops, in order.**  In every run, what left the queue of the listening
socket left it in the order in which it came; the connections that `accept4` returned are the
connections of the server, the `c`-th of them on the fd that it returned and on the loop whose turn
it was; and `accept4` is called once for each report of `acceptChannel_`. -/
theorem accepted_in_order
    (h : Lts.exec step (init loop_ loops_ ipPort_ name_ writeComplete : Acceptor L β γ) ls =
      some s) :
    s.arrived = s.taken.map Prod.fst ++ s.backlog ∧
      s.server.made = s.accepted.length ∧
      (∀ c (hc : c < s.accepted.length),
        (s.server.conns c).conn.channel_.fd_ = s.accepted[c].2 ∧
        (s.server.conns c).loop_ = TcpServer.dealt loop_ loops_ c) ∧
      s.reports = s.accepts + s.active.toNat := by
  have hs := served_run h
  refine ⟨hs.arrived, hs.made, fun c hc => ⟨?_, hs.dealing.dealt c (hs.made ▸ hc)⟩, hs.reports⟩
  have hfd := hs.fds c (hs.made ▸ hc)
  rw [List.getElem?_eq_getElem hc] at hfd
  exact (Option.some.inj hfd).symm

/-- Three arrive, `accept4` finds the second one gone. -/
private def queueRun : List (Label Bool ℕ ℕ) :=
  [.server (.start (some true)), .arrive 70, .arrive 71, .poll [], .handleRead (.connfd 9) false 0,
    .server (.swap true), .server (.finish true), .poll [], .handleRead .aborted false 0,
    .server (.swap true), .server (.finish true), .arrive 72, .poll [],
    .handleRead (.connfd 10) false 0]

theorem accepted_in_order_aborted : ∃ s : Acceptor Bool ℕ ℕ,
    s.accepted = [(70, 9), (72, 10)] ∧ s.server.made = s.accepted.length ∧
      s.arrived = s.taken.map Prod.fst ++ s.backlog := by
  have hrun : (Lts.exec step (init true [false] "" "" false) queueRun).any (fun s =>
      s.accepted = [(70, 9), (72, 10)]) = true := by decide +kernel
  obtain ⟨s, hs, hp⟩ := Lts.exec_of_any hrun
  obtain ⟨harrived, hmade, -, -⟩ := accepted_in_order hs
  exact ⟨s, of_decide_eq_true hp, hmade, harrived⟩

/-! ### Rounds of the base loop -/

/-- A round ends with the `swap` of the base loop. -/
def isRound (loop_ : L) : Label L β γ → Bool
  | .server (.swap l) => decide (l = loop_)
  | _ => false

/-- How many rounds of the loop there are in a run. -/
def rounds (loop_ : L) (ls : List (Label L β γ)) : ℕ := ls.countP (isRound loop_)

/-- The listening socket is level-triggered, as long as there is a connection in its queue every
poll of the base loop reports it; and `accept4` does not fail. -/
def Prompt (s : Acceptor L β γ) : Label L β γ → Prop
  | .server (.poll l _) => l = s.server.loop_ → s.backlog = []
  | .handleRead (.failed _) _ _ => False
  | _ => True

instance (s : Acceptor L β γ) : DecidablePred s.Prompt
  | .server (.poll l _) => inferInstanceAs (Decidable (l = s.server.loop_ → s.backlog = []))
  | .handleRead (.failed _) _ _ => isFalse id
  | .arrive _ | .poll _ | .handleRead (.connfd _) _ _ | .handleRead .aborted _ _
  | .server (.start _) | .server (.newConnection _ _ _) | .server (.handleEvent _)
  | .server (.callback _ _ _) | .server (.swap _) | .server (.functor _ _) | .server (.finish _)
  | .server (.send _ _ _ _) | .server (.sendFile _ _ _ _ _ _) | .server (.shutdown _ _)
  | .server (.store _) | .server (.push _ _) | .server (.keep _) | .server (.drop _)
  | .server (.destroy _) | .server (.exit _) | .server .destroyed => isTrue trivial

/-- The base loop dispatches, and the turn of `acceptChannel_` has been. -/
def missed (s : Acceptor L β γ) : ℕ :=
  if s.server.dispatching s.server.loop_ = true ∧ s.active = false then 1 else 0

/-- The arrivals `E` have left the queue when `n` more rounds have ended. -/
def Due (E : List γ) (s : Acceptor L β γ) (n : ℕ) : Prop :=
  E <+: s.arrived ∧ (E.length ≤ s.taken.length ∨ E.length + s.missed ≤ s.taken.length + n)

variable {E : List γ} {n : ℕ}

omit [DecidableEq L] [Fintype L] [Inhabited β] in
theorem due_congr (h : s.Due E n) (harrived : s.arrived <+: t.arrived)
    (htaken : s.taken.length ≤ t.taken.length)
    (hmissed : t.missed + s.taken.length ≤ s.missed + t.taken.length) : t.Due E n := by
  refine ⟨h.1.trans harrived, h.2.imp (fun hd => hd.trans htaken) fun hd => ?_⟩
  omega

omit [DecidableEq L] [Fintype L] [Inhabited β] in
theorem missed_le (s : Acceptor L β γ) : s.missed ≤ 1 := by
  unfold missed
  split_ifs <;> omega

omit [DecidableEq L] [Fintype L] [Inhabited β] in
theorem missed_of_active (h : s.active = true) : s.missed = 0 := if_neg (by simp [h])

/-- `accept4` takes a connection from the queue. -/
theorem due_handleRead (h : s.Due E n) (hactive : s.active = true) {r : AcceptResult}
    {highWater : Bool} {mark : ℕ} (hr : ∀ e, r ≠ .failed e)
    (hst : s.handleRead highWater mark r = some t) : t.Due E n := by
  have hlen : t.taken.length = s.taken.length + 1 ∧ t.arrived = s.arrived := by
    cases r with
    | connfd fd =>
      simp only [handleRead] at hst
      split at hst
      · obtain ⟨server, -, rfl⟩ := Option.map_eq_some_iff.1 hst
        simp
      · cases hst
    | aborted =>
      simp only [handleRead] at hst
      split at hst
      · cases hst
        simp
      · cases hst
    | failed e => exact absurd rfl (hr e)
  refine due_congr h (by rw [hlen.2]) (by omega) ?_
  have := t.missed_le
  rw [missed_of_active hactive]
  omega

omit [DecidableEq L] [Fintype L] [Inhabited β] in
/-- A step of the server that neither begins nor ends a round of the base loop. -/
theorem due_server (h : s.Due E n) {server : TcpServer L β} (hloop : server.loop_ = s.server.loop_)
    (hsame : server.dispatching s.server.loop_ = s.server.dispatching s.server.loop_) :
    Due E { s with server } n := by
  refine due_congr h List.prefix_rfl le_rfl (le_of_eq ?_)
  simp only [missed, hloop, hsame]

theorem due_step (hs : s.Served loop_ loops_) (h : s.Due E n) {a : Label L β γ} (ha : s.Prompt a)
    (hst : s.step a = some t) : t.Due E (n - if isRound s.server.loop_ a then 1 else 0) := by
  cases a with
  | arrive x =>
    simp only [step, Option.ite_none_right_eq_some, Option.some.injEq] at hst
    obtain ⟨-, rfl⟩ := hst
    exact due_congr h (List.prefix_append _ _) le_rfl le_rfl
  | poll events =>
    simp only [step, Option.ite_none_right_eq_some] at hst
    obtain ⟨server, -, rfl⟩ := Option.map_eq_some_iff.1 hst.2
    refine due_congr h List.prefix_rfl le_rfl ?_
    rw [missed_of_active rfl]
    exact Nat.add_le_add_right (Nat.zero_le _) _
  | handleRead r highWater mark =>
    simp only [step, Option.ite_none_right_eq_some] at hst
    obtain ⟨hd, hst⟩ := hst
    simp only [dispatches, Bool.and_eq_true] at hd
    refine due_handleRead h hd.1.1 (fun e he => ?_) hst
    subst he
    exact ha
  | server a =>
    simp only [step, Option.ite_none_left_eq_some] at hst
    obtain ⟨hwaits, hst⟩ := hst
    obtain ⟨server, hserver, rfl⟩ := Option.map_eq_some_iff.1 hst
    have hnext := (TcpServer.step_eq_some.1 hserver).2
    have hnew : a.isNew = false := by
      cases a <;> first | rfl | exact absurd rfl hwaits
    have hloop := (TcpServer.sameServer_next hnew hnext).loop_
    cases a with
    | poll l events =>
      by_cases hl : l = s.server.loop_
      · -- nothing is in the queue
        refine ⟨h.1, Or.inl ?_⟩
        have hlen := h.1.length_le
        rw [hs.arrived, ha hl, List.append_nil, List.length_map] at hlen
        exact hlen
      · refine due_server h hloop ?_
        rw [(TcpServer.dispatching_poll hnext).2, if_neg (Ne.symm hl)]
    | swap l =>
      by_cases hl : l = s.server.loop_
      · subst hl
        obtain ⟨hdispatching, hafter⟩ := TcpServer.dispatching_swap hnext
        have hinactive : s.active = false := by
          cases hactive : s.active with
          | false => rfl
          | true => simp [waits, hactive] at hwaits
        have hmissed : s.missed = 1 := if_pos ⟨hdispatching, hinactive⟩
        have hmissed' : missed { s with server } = 0 :=
          if_neg (by simp [hloop, hafter])
        have hround :
            isRound s.server.loop_ (.server (.swap s.server.loop_) : Label L β γ) = true :=
          decide_eq_true rfl
        have hd := h.2
        rw [hmissed] at hd
        refine ⟨h.1, ?_⟩
        rw [hmissed', hround, if_pos rfl]
        show E.length ≤ s.taken.length ∨ E.length + 0 ≤ s.taken.length + (n - 1)
        omega
      · rw [isRound, decide_eq_false hl]
        refine due_server h hloop ?_
        rw [(TcpServer.dispatching_swap hnext).2, if_neg (Ne.symm hl)]
    | _ => exact due_server h hloop (TcpServer.samePhases_next (by simp) (by simp) hnext _)

theorem due_run (hs : s.Served loop_ loops_) (h : s.Due E n) (hls : Lts.Along step Prompt s ls)
    (hexec : Lts.exec step s ls = some t) (hn : n ≤ rounds loop_ ls) :
    E <+: t.taken.map Prod.fst := by
  induction ls generalizing s n with
  | nil =>
    cases hexec
    obtain rfl : n = 0 := Nat.le_zero.1 hn
    obtain ⟨hE, hlen⟩ := h
    rw [hs.arrived] at hE
    refine List.prefix_of_prefix_length_le hE (List.prefix_append _ _) ?_
    rw [List.length_map]
    omega
  | cons a ls ih =>
    obtain ⟨u, hu, hut⟩ := Lts.exec_cons_iff.1 hexec
    refine ih (served_step hs hu) (due_step hs h hls.1 hu) (hls.2 u hu) hut ?_
    rw [rounds, List.countP_cons] at hn
    rw [hs.dealing.base]
    exact Nat.sub_le_iff_le_add.2 hn

/-- Two connections wait; the second one is accepted in the second round. -/
private def waitingRun : List (Label Bool ℕ ℕ) :=
  [.server (.start (some true)), .arrive 70, .arrive 71]

private def roundsRun : List (Label Bool ℕ ℕ) :=
  [.poll [], .handleRead (.connfd 9) false 0, .server (.swap true), .server (.finish true),
    .poll [], .handleRead (.connfd 10) false 0, .server (.swap true)]

end Acceptor

end Muduo
