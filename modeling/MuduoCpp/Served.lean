import MuduoCpp.Sessions

/-!
# What a server does for each of its connections

What is proved of a session holds of each connection of a server, in every run in which the names
are right and as long as the server is alive.

* `connection_is_session`: every run of a server shows a session for each connection;
* `server_streams`: the output stream of each connection;
* `server_callbacks`: the order of its callbacks;
* `server_armed`: its interest in `EPOLLOUT`, and its half-close.
-/

namespace Muduo

namespace TcpServer

variable {L β : Type} [DecidableEq L] [Fintype L] [Inhabited β] {s : TcpServer L β} {c : ℕ}
  {r : List (TcpConnection β × Work β)} {u : Session (Option L) β} {loop_ : L} {loops_ : List L}
  {ipPort_ name_ : String} {writeComplete : Bool} {ls : List (Label L β)}

/-- In every run in which the names are right, as long as the server is alive. -/
theorem shown_run (hwhole : ∀ a ∈ ls, a.isWhole = true)
    (hnames : Lts.Along step NameFree
      (init loop_ loops_ ipPort_ name_ writeComplete : TcpServer L β) ls)
    (hoff : Lts.Along step (Offers c)
      (init loop_ loops_ ipPort_ name_ writeComplete : TcpServer L β) ls)
    (h : Lts.exec step (init loop_ loops_ ipPort_ name_ writeComplete) ls = some s)
    (halive : s.stage = .alive) : s.Owned ∧
      s.Shown c (Lts.trail step (works c) (init loop_ loops_ ipPort_ name_ writeComplete) ls) := by
  have hinv : s.Confined ∧ (s.stage = .alive → s.Owned ∧ s.Shown c
      ([] ++ Lts.trail step (works c) (init loop_ loops_ ipPort_ name_ writeComplete) ls)) := by
    refine Lts.exec_inv_trail
      (I := fun s r => s.Confined ∧ (s.stage = .alive → s.Owned ∧ s.Shown c r))
      (fun u r a v hu ha hst => ?_)
      ⟨confined_init _ _ _ _ _, fun _ => ⟨owned_init _ _ _ _ _,
        fun hc => absurd hc (Nat.not_lt_zero c), fun _ => rfl⟩⟩
      (((Lts.along_of_forall hwhole).and hnames).and hoff) h
    obtain ⟨hconf, hshown⟩ := hu
    obtain ⟨⟨hwhole, hname⟩, hoff⟩ := ha
    have hnext := (step_eq_some.1 hst).2
    refine ⟨confined_next hconf hnext, fun hv => ?_⟩
    obtain ⟨howned, hsh⟩ := hshown (alive_of_next hnext hv)
    exact ⟨owned_next howned hconf hwhole hname hnext hv,
      shown_next howned hconf hwhole hnext hv hoff hsh⟩
  rw [List.nil_append] at hinv
  exact hinv.2 halive

/-- **The connections of a server are sessions.**  In every run in which the names are right, as
long as the server is alive, there is a run of `Session` for each connection that ends in the same
view and has the same effects in the same order: those of the functions of the connection that the
server has run. -/
theorem connection_is_session (hwhole : ∀ a ∈ ls, a.isWhole = true)
    (hnames : Lts.Along step NameFree
      (init loop_ loops_ ipPort_ name_ writeComplete : TcpServer L β) ls)
    (hoff : Lts.Along step (Offers c)
      (init loop_ loops_ ipPort_ name_ writeComplete : TcpServer L β) ls)
    (h : Lts.exec step (init loop_ loops_ ipPort_ name_ writeComplete) ls = some s)
    (halive : s.stage = .alive) (hc : c < s.made) : ∃ u : Session (Option L) β,
      u.Reached (∀ e ∈ Lts.trail step (works c)
        (init loop_ loops_ ipPort_ name_ writeComplete) ls, e.2.Calm e.1) ∧
      u.view = s.view c ∧ (∀ t, u.caller t = .idle) ∧
      u.log = effects (Lts.trail step (works c)
        (init loop_ loops_ ipPort_ name_ writeComplete) ls) ∧
      u.given.map Prod.snd = takings (Lts.trail step (works c)
        (init loop_ loops_ ipPort_ name_ writeComplete) ls) := by
  obtain ⟨u, hu⟩ := (shown_run hwhole hnames hoff h halive).2.1 hc
  exact ⟨u, hu.reached, hu.view, hu.caller, hu.log, hu.given⟩

/-- Two connections on two loops of three: a partial write, a `send` on a thread that is not a
loop's, a `shutdown()` on the base loop's thread, a message and a partial drain. -/
private def servedRun : List (Label (Fin 4) ℕ) :=
  [.start (some 0), .poll 0 [], .newConnection 9 false 0, .newConnection 10 false 0, .poll 1 [],
    .swap 1, .functor 1 (.sent 0), .finish 1, .poll 2 [], .swap 2, .functor 2 (.sent 0), .finish 2,
    .send (some 1) 0 [1, 2, 3] (.sent 1), .send (some 2) 1 [9] (.sent 1),
    .send none 0 [4] (.sent 0),
    .shutdown (some 0) 0, .poll 1 [(9, EPOLLIN ||| EPOLLOUT)], .handleEvent 1,
    .callback 1 (.data [8]) (.sent 0), .callback 1 .failed (.sent 1), .swap 1, .functor 1 (.sent 0)]

private theorem exec_servedRun : ∃ s : TcpServer (Fin 4) ℕ,
    Lts.exec step (init 0 [1, 2, 3] "" "" false) servedRun = some s ∧ s.stage = .alive ∧
      s.made = 2 ∧
      (s.conns 0).conn.state_ = .kDisconnecting := by
  have hrun : (Lts.exec step (init 0 [1, 2, 3] "" "" false) servedRun).any (fun s =>
      s.stage = .alive ∧ s.made = 2 ∧ (s.conns 0).conn.state_ = .kDisconnecting) = true := by
    decide +kernel
  obtain ⟨s, hs, hp⟩ := Lts.exec_of_any hrun
  exact ⟨s, hs, of_decide_eq_true hp⟩

private theorem nameFree_servedRun : Lts.Along step NameFree
    (init 0 [1, 2, 3] "" "" false : TcpServer (Fin 4) ℕ) servedRun := by
  decide +kernel

private theorem offers_servedRun : Lts.Along step (Offers 0)
    (init 0 [1, 2, 3] "" "" false : TcpServer (Fin 4) ℕ) servedRun := by
  decide +kernel

private theorem calm_servedRun : ∀ e ∈ Lts.trail step (works 0)
    (init 0 [1, 2, 3] "" "" false : TcpServer (Fin 4) ℕ) servedRun, e.2.Calm e.1 := by
  decide +kernel

/-- What the functions of a connection have put on the wire in that run. -/
private theorem wire_servedRun : wire (effects (Lts.trail step (works 0)
    (init 0 [1, 2, 3] "" "" false : TcpServer (Fin 4) ℕ) servedRun)) = [1, 2] := by
  decide +kernel

theorem connection_is_session_served : ∃ (s : TcpServer (Fin 4) ℕ) (u : Session (Option (Fin 4)) ℕ),
    Lts.exec step (init 0 [1, 2, 3] "" "" false) servedRun = some s ∧ u.Reached True ∧
      u.view = s.view 0 ∧ wire u.log = [1, 2] := by
  obtain ⟨s, hs, halive, hmade, -⟩ := exec_servedRun
  obtain ⟨u, hreached, hview, -, hlog, -⟩ := connection_is_session (c := 0) (by decide)
    nameFree_servedRun offers_servedRun hs halive (by omega)
  exact ⟨s, u, hs, hreached.mono fun _ => calm_servedRun, hview, hlog ▸ wire_servedRun⟩

/-- **The output streams of a server.**  For each connection, what the kernel has taken of it,
followed by its `outputBuffer_`, is what its functions have taken on, in the order in which they
have run. -/
theorem server_streams (hwhole : ∀ a ∈ ls, a.isWhole = true)
    (hnames : Lts.Along step NameFree
      (init loop_ loops_ ipPort_ name_ writeComplete : TcpServer L β) ls)
    (hoff : Lts.Along step (Offers c)
      (init loop_ loops_ ipPort_ name_ writeComplete : TcpServer L β) ls)
    (h : Lts.exec step (init loop_ loops_ ipPort_ name_ writeComplete) ls = some s)
    (halive : s.stage = .alive) (hc : c < s.made) :
    wire (effects (Lts.trail step (works c)
        (init loop_ loops_ ipPort_ name_ writeComplete) ls)) ++
      (s.conns c).conn.outputBuffer_.content =
    (takings (Lts.trail step (works c)
        (init loop_ loops_ ipPort_ name_ writeComplete) ls)).flatMap Payload.bytes := by
  obtain ⟨u, hu⟩ := (shown_run hwhole hnames hoff h halive).2.1 hc
  have hconn : u.conn = (s.conns c).conn := congrArg View.conn hu.view
  have hstream := hu.reached.streams
  rw [Session.Streams, hconn, hu.log] at hstream
  rw [hstream, ← hu.given, List.flatMap_map]
  rfl

theorem server_streams_served : ∃ s : TcpServer (Fin 4) ℕ,
    Lts.exec step (init 0 [1, 2, 3] "" "" false) servedRun = some s ∧
      [1, 2] ++ (s.conns 0).conn.outputBuffer_.content =
        (takings (Lts.trail step (works 0) (init 0 [1, 2, 3] "" "" false) servedRun)).flatMap
          Payload.bytes := by
  obtain ⟨s, hs, halive, hmade, -⟩ := exec_servedRun
  refine ⟨s, hs, ?_⟩
  rw [← wire_servedRun]
  exact server_streams (by decide) nameFree_servedRun offers_servedRun hs halive (by omega)

omit [Fintype L] in
/-- The entry of an established connection in the epoll set of its loop. -/
theorem epoll_of_shows (h : s.Owned) (hu : s.Shows c r u) (hc : c < s.made)
    (hs : (s.conns c).conn.state_ = .kConnected ∨ (s.conns c).conn.state_ = .kDisconnecting) :
    ∃ events, (s.loops (s.conns c).loop_).poller.epollfd_ (s.conns c).conn.channel_.fd_ =
        some ⟨events, c⟩ ∧
      (Mask.has events EPOLLOUT = true ↔ (s.conns c).conn.outputBuffer_.content ≠ []) := by
  have hconn : u.conn = (s.conns c).conn := congrArg View.conn hu.view
  rw [← hconn] at hs
  obtain ⟨ht, hne⟩ := hu.reached.tended hs
  have hlive : (s.conns c).destroyed = none := by
    rw [hconn] at hs hne
    rcases h.life c hc with hf | hup | hclosed | hgone
    · exact hf.live
    · exact hup.live
    · exact hclosed.live
    · exact absurd hgone.state hne
  have hadded := ht.added hne fun hrem => hu.removed hrem hlive
  have hholds := h.holds c hc (Or.inl hlive)
  rw [hconn] at hadded
  rw [EPollPoller.Holds, hadded] at hholds
  refine ⟨_, hholds.2, ?_⟩
  have harmed := ht.armed hne
  rwa [hconn] at harmed

/-- **Pending output is armed in its own loop.**  Every connection of a server that is established
and not down is in the epoll set of its loop, as itself, and waits there for `EPOLLOUT` if and only
if its `outputBuffer_` has readable bytes.  After `shutdown()` the half-close is queued, or issued,
or the buffer still has something and the loop waits for `EPOLLOUT`. -/
theorem server_armed (hwhole : ∀ a ∈ ls, a.isWhole = true)
    (hnames : Lts.Along step NameFree
      (init loop_ loops_ ipPort_ name_ writeComplete : TcpServer L β) ls)
    (hoff : Lts.Along step (Offers c)
      (init loop_ loops_ ipPort_ name_ writeComplete : TcpServer L β) ls)
    (h : Lts.exec step (init loop_ loops_ ipPort_ name_ writeComplete) ls = some s)
    (halive : s.stage = .alive) (hc : c < s.made)
    (hs : (s.conns c).conn.state_ = .kConnected ∨ (s.conns c).conn.state_ = .kDisconnecting) :
    ∃ events, (s.loops (s.conns c).loop_).poller.epollfd_ (s.conns c).conn.channel_.fd_ =
        some ⟨events, c⟩ ∧
      (Mask.has events EPOLLOUT = true ↔ 0 < (s.conns c).conn.outputBuffer_.readableBytes) ∧
      ((s.conns c).conn.state_ = .kDisconnecting →
        .run .shutdownInLoop c ∈ (s.loops (s.conns c).loop_).todo ∨
        .shutdownWrite ∈ effects (Lts.trail step (works c)
          (init loop_ loops_ ipPort_ name_ writeComplete) ls) ∨
        Mask.has events EPOLLOUT = true) := by
  obtain ⟨howned, hshown⟩ := shown_run hwhole hnames hoff h halive
  obtain ⟨u, hu⟩ := hshown.1 hc
  obtain ⟨events, hentry, harmed⟩ := epoll_of_shows howned hu hc hs
  have hconn : u.conn = (s.conns c).conn := congrArg View.conn hu.view
  refine ⟨events, hentry, ?_, fun hstate => ?_⟩
  · rw [harmed, OkBuffer.readableBytes_eq, List.length_pos_iff]
  · rw [harmed]
    rcases hu.reached.keeping.2 (hconn ▸ hstate) with (⟨e, he, hfin⟩ | ⟨t, ht⟩) | hfin | hcontent
    · -- the session's queue is the server's
      have hmem : Task.shutdownInLoop ∈ (s.view c).pending := by
        rw [← hu.view]
        exact List.mem_map.2 ⟨e, he, hfin⟩
      obtain ⟨f, hf, htask⟩ := List.mem_filterMap.1 hmem
      refine Or.inl ?_
      cases f with
      | run task d =>
        simp only [Functor.taskOf, Option.ite_none_right_eq_some, Option.some.injEq] at htask
        obtain ⟨rfl, rfl⟩ := htask
        exact hf
      | removeConnectionInLoop d | listen => cases htask
    · rw [hu.caller] at ht
      cases ht
    · exact Or.inr (Or.inl (hu.log ▸ hfin))
    · exact Or.inr (Or.inr (hconn ▸ hcontent))

theorem server_armed_served : ∃ (s : TcpServer (Fin 4) ℕ) (events : Events),
    Lts.exec step (init 0 [1, 2, 3] "" "" false) servedRun = some s ∧
      (s.loops (s.conns 0).loop_).poller.epollfd_ (s.conns 0).conn.channel_.fd_ =
        some ⟨events, 0⟩ ∧
      (Mask.has events EPOLLOUT = true ↔ 0 < (s.conns 0).conn.outputBuffer_.readableBytes) := by
  obtain ⟨s, hs, halive, hmade, hstate⟩ := exec_servedRun
  obtain ⟨events, hentry, harmed, -⟩ := server_armed (c := 0) (by decide) nameFree_servedRun
    offers_servedRun hs halive (by omega) (Or.inr hstate)
  exact ⟨s, events, hs, hentry, harmed⟩

end TcpServer

end Muduo
