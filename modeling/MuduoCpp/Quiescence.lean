import MuduoCpp.Served

/-!
# A server that is idle

When no loop has anything left to do, every connection that was ever made is either up or gone: none
is stuck on its way from `newConnection` to `connectEstablished`, or from `handleClose` to
`connectDestroyed`.  `connections_` holds the ones that are up and no others, and the pollers watch
them and nothing else.

* `Entries`: an entry of `connections_` is under the name of its connection, and it is taken out
  before `connectDestroyed` is queued;
* `idle_server`.
-/

namespace Muduo

namespace TcpServer

variable {L β : Type}

/-- `connectDestroyed` is queued for `c`, or has run. -/
def Ended (s : TcpServer L β) (c : ℕ) : Prop :=
  (s.conns c).destroyed ≠ none ∨ ∃ l, .run .connectDestroyed c ∈ (s.loops l).todo

/-- What `connections_` holds. -/
structure Entries (s : TcpServer L β) : Prop where
  keyed : ∀ n c, s.connections_ n = some c → c < s.made ∧ (s.conns c).name_ = n
  erased : ∀ c < s.made, s.Ended c → s.connections_ (s.conns c).name_ ≠ some c

variable {s s' : TcpServer L β} {c d : ℕ} {l : L} {t : Option L} {K : Functor β → Prop}

/-! ### Steps -/

theorem ended_of_acts (ha : s.Acts s' c K) (hd : d ≠ c) (he : s'.Ended d) : s.Ended d := by
  rw [Ended, ha.conns d hd] at he
  refine he.imp_right ?_
  rintro ⟨l, hl⟩
  have hmem : .run .connectDestroyed d ∈ s'.tasksOf l d := mem_tasksOf.2 ⟨hl, rfl⟩
  rw [ha.tasks l d hd] at hmem
  exact ⟨l, (mem_tasksOf.1 hmem).1⟩

/-- A step of `c`: the other connections stay as they are. -/
theorem entries_of_acts (h : s.Entries) (ha : s.Acts s' c K)
    (hc : s'.Ended c → s'.connections_ (s.conns c).name_ ≠ some c) : s'.Entries := by
  have hname : ∀ d, (s'.conns d).name_ = (s.conns d).name_ := by
    intro d
    by_cases hd : d = c
    · rw [hd, ha.nameOf]
    · rw [ha.conns d hd]
  refine ⟨fun n d hn => ?_, fun d hd he hm => ?_⟩
  · rw [ha.made, hname]
    exact h.keyed n d (ha.names n d hn)
  · rw [hname] at hm
    by_cases hdc : d = c
    · subst hdc
      exact hc he hm
    · exact h.erased d (ha.made ▸ hd) (ended_of_acts ha hdc he) (ha.names _ _ hm)

/-- A step of `c` that does not end it. -/
theorem entries_of_live (h : s.Entries) (ha : s.Acts s' c K) (hc : c < s.made)
    (hK : ¬ K (.run .connectDestroyed c)) (hdes : (s'.conns c).destroyed = (s.conns c).destroyed) :
    s'.Entries := by
  refine entries_of_acts h ha fun he hm => h.erased c hc ?_ (ha.names _ _ hm)
  rw [Ended, hdes] at he
  refine he.imp_right ?_
  rintro ⟨l, hl⟩
  rcases ha.added l _ hl with hl | ⟨-, -, hk⟩
  · exact ⟨l, hl⟩
  · exact absurd hk hK

theorem entries_of_frames (h : s.Entries) (hf : s.Frames s')
    (hmap : s'.connections_ = s.connections_) :
    s'.Entries := by
  refine ⟨fun n c hn => ?_, fun c hc he => ?_⟩
  · rw [hmap] at hn
    rw [hf.made, hf.conns]
    exact h.keyed n c hn
  · rw [hmap, hf.conns]
    rw [Ended, hf.conns] at he
    refine h.erased c (hf.made ▸ hc) (he.imp_right ?_)
    rintro ⟨l, hl⟩
    rcases hf.todo l _ hl with hl | ⟨hl, -⟩
    · exact ⟨l, hl⟩
    · cases hl

section Steps

variable [DecidableEq L]

theorem entries_activate (h : s.Entries) (hconf : s.Confined) {active : List ℕ}
    (hp : (s.loops l).phase = .dispatching active []) (e : ℤ × Events) :
    (activate l s e).Entries := by
  unfold activate
  cases he : (s.loops l).poller.epollfd_ e.1 with
  | none => exact h
  | some event =>
    have hc := (hconf.registered l e.1 event.ptr (Or.inr ⟨event.events, he⟩)).1
    have hset : (s.setConn event.ptr { (s.conns event.ptr).conn with
        channel_ := { (s.conns event.ptr).conn.channel_ with revents_ := e.2 } }).Entries :=
      entries_of_live h (acts_setConn (m := e.2) (K := fun _ => False) rfl) hc id
        (by simp [setConn])
    exact entries_of_frames hset (frames_activate (s := s.setConn event.ptr
      { (s.conns event.ptr).conn with
        channel_ := { (s.conns event.ptr).conn.channel_ with revents_ := e.2 } }) hp he) rfl

theorem entries_poll (h : s.Entries) (hconf : s.Confined) (hp : (s.loops l).phase = .polling)
    (events : List (ℤ × Events)) : (s.poll l events).Entries := by
  refine (poll_inv (I := fun u => u.Entries ∧ u.Confined)
    ⟨entries_of_frames h (frames_poll hp) rfl, (frames_poll hp).confined hconf⟩
    (fun u e active hphase hu => ?_) events).1
  exact ⟨entries_activate hu.1 hu.2 hphase e, confined_activate hu.2 hphase e⟩

/-- The entry goes before `connectDestroyed` comes. -/
theorem entries_removeConnectionInLoop (h : s.Entries) (ht : t = some s.loop_) :
    (s.removeConnectionInLoop t c).Entries := by
  refine entries_of_acts h (acts_removeConnectionInLoop ht) fun _ hm => ?_
  have hnone : (s.removeConnectionInLoop t c).connections_ (s.conns c).name_ = none :=
    Function.update_self _ _ _
  rw [hnone] at hm
  cases hm

theorem entries_queueInLoop (h : s.Entries) (hc : c < s.made) {f : Functor β} (hf : f.conn = some c)
    (hl : l = s.home f) (hne : f ≠ .run .connectDestroyed c) : (s.queueInLoop l f).Entries :=
  entries_of_live h (acts_queueInLoop (K := fun g => g ≠ .run .connectDestroyed c) hf hl hne) hc
    (fun hk => hk rfl) rfl

theorem entries_removeConnection (h : s.Entries) (hc : c < s.made) :
    (s.removeConnection t c).Entries := by
  have hrecord : (s.record t [.removes s.stage]).Entries := ⟨h.keyed, h.erased⟩
  by_cases ht : t = some s.loop_
  · rw [removeConnection_of_base ht]
    exact entries_removeConnectionInLoop hrecord ht
  · rw [removeConnection_of_ne ht]
    exact entries_queueInLoop hrecord hc rfl rfl (by simp)

variable [Inhabited β]

/-- The tasks that a connection queues itself are plain, and only `connectDestroyed` marks it. -/
theorem entries_runTask (h : s.Entries) (hc : c < s.made) (ht : t = some (s.conns c).loop_)
    (task : Task β) (r : WriteResult)
    (hended : task = .connectDestroyed → s.connections_ (s.conns c).name_ ≠ some c) :
    (s.runTask t c task r).Entries := by
  have hact :
      s.Acts (s.perform t c ((s.conns c).conn.runTask r task)) c fun f => f.isPlain = true :=
    acts_perform_plain ht (TcpConnection.updates_runTask _ _ _)
      (TcpConnection.queuesOwn_runTask _ _ _)
  have hperform := entries_of_live h hact hc (by simp [Functor.isPlain]) (destroyed_perform _)
  unfold runTask
  cases task with
  | connectDestroyed =>
    refine entries_of_acts hperform (acts_markDestroyed (K := fun _ => False) t) fun _ hm => ?_
    rw [hact.nameOf] at hm
    exact hended rfl hm
  | _ => exact hperform

theorem entries_runInLoop (h : s.Entries) (hc : c < s.made) {task : Task β}
    (hne : task ≠ .connectDestroyed) (r : WriteResult) : (s.runInLoop t c task r).Entries := by
  unfold runInLoop
  split_ifs with ht
  · exact entries_runTask h hc ht task r fun hd => absurd hd hne
  · exact entries_queueInLoop h hc rfl rfl fun hd => hne (Functor.run.inj hd).1

theorem entries_newConnection (h : s.Entries) (hconf : s.Confined) (sockfd : ℤ) (highWater : Bool)
    (mark : ℕ) : (s.newConnection t sockfd highWater mark).Entries := by
  have hold : ∀ d < s.made, (s.makeConnection t sockfd highWater mark).conns d = s.conns d :=
    fun d hd => Function.update_of_ne (Nat.ne_of_lt hd) _ _
  have hnew : (s.makeConnection t sockfd highWater mark).conns s.made = ⟨s.getNextLoop.1,
      s.connName, .init sockfd s.writeCompleteCallback_ highWater mark, none⟩ :=
    Function.update_self _ _ _
  have hentry : ∀ n d, (s.makeConnection t sockfd highWater mark).connections_ n = some d →
      (n = s.connName ∧ d = s.made) ∨ s.connections_ n = some d := by
    intro n d hn
    by_cases hname : n = s.connName
    · subst hname
      rw [show (s.makeConnection t sockfd highWater mark).connections_ s.connName = some s.made from
        Function.update_self _ _ _] at hn
      exact Or.inl ⟨rfl, (Option.some.inj hn).symm⟩
    · exact Or.inr ((Function.update_of_ne hname _ _).symm.trans hn)
  have hmake : (s.makeConnection t sockfd highWater mark).Entries := by
    refine ⟨fun n d hn => ?_, fun d hd he hm => ?_⟩
    · rcases hentry n d hn with ⟨rfl, rfl⟩ | hn
      · exact ⟨Nat.lt_succ_self _, by rw [hnew]⟩
      · obtain ⟨hd, hname⟩ := h.keyed n d hn
        exact ⟨Nat.lt_succ_of_lt hd, by rw [hold d hd, hname]⟩
    · rcases Nat.lt_or_eq_of_le (Nat.le_of_lt_succ hd) with hd | rfl
      · rw [hold d hd] at hm
        rw [Ended, hold d hd] at he
        rcases hentry _ _ hm with ⟨-, rfl⟩ | hm
        · exact absurd hd (Nat.lt_irrefl _)
        · exact h.erased d hd he hm
      · -- nothing is queued for it yet
        rw [Ended, hnew] at he
        rcases he with he | ⟨l, hl⟩
        · exact he rfl
        · exact absurd ((hconf.located l _ hl).1 s.made rfl) (Nat.lt_irrefl _)
  exact entries_runInLoop hmake (Nat.lt_succ_self _) (by simp) _

theorem entries_callback (h : s.Entries) (hconf : s.Confined) {active : List ℕ} {k : Callback}
    {rest : List (ℕ × Callback)} (hp : (s.loops l).phase = .dispatching active ((c, k) :: rest))
    (read : ReadResult β) (write : WriteResult) :
    ((s.setPhase l (.dispatching active rest)).runCallback (some l) c k read write).Entries := by
  have hmem : c ∈ (s.loops l).dispatched := by simp [Loop.dispatched, Phase.running, hp]
  obtain ⟨hc, hl⟩ := hconf.dispatched l c hmem
  have hpop : s.Acts (s.setPhase l (.dispatching active rest)) c fun f => f.isPlain = true :=
    acts_popCallback hp
  have hrun := hpop.trans (acts_perform_plain (t := some l) (congrArg some hl.symm)
    (TcpConnection.updates_runCallback (s.conns c).conn read write k)
    (TcpConnection.queuesOwn_runCallback _ _ _ _))
  have hperform := entries_of_live h hrun hc (by simp [Functor.isPlain]) (destroyed_perform _)
  unfold runCallback
  simp only
  split_ifs
  · exact entries_removeConnection hperform hc
  · exact hperform

theorem entries_functor (h : s.Entries) (hconf : s.Confined) {f : Functor β}
    {rest done : List (Functor β)} (hp : (s.loops l).phase = .calling (f :: rest) done)
    (r : WriteResult) :
    ((s.setPhase l (.calling rest (done ++ [f]))).call (some l) r f).Entries := by
  have hmem : f ∈ (s.loops l).todo := by simp [Loop.todo, Phase.functors, hp]
  obtain ⟨hmade, hl⟩ := hconf.located l f hmem
  cases f with
  | run task c =>
    have hc := hmade c rfl
    have hpop := entries_of_live h (acts_popFunctor (K := fun _ => False) hp rfl) hc id rfl
    refine entries_runTask hpop hc (congrArg some hl) task r ?_
    rintro rfl
    exact h.erased c hc (Or.inr ⟨l, hmem⟩)
  | removeConnectionInLoop c =>
    have hpop :=
      entries_of_live h (acts_popFunctor (K := fun _ => False) hp rfl) (hmade c rfl) id rfl
    exact entries_removeConnectionInLoop hpop (congrArg some hl)
  | listen =>
    exact entries_of_frames (entries_of_frames h (frames_popListen hp) rfl)
      (frames_listen (s := s.setPhase l _) (congrArg some hl)) rfl

variable [Fintype L]

theorem entries_next {a : Label L β} (h : s.Entries) (hconf : s.Confined)
    (hst : s.next a = some s') (halive : s'.stage = .alive) : s'.Entries := by
  cases does_of_next hst with
  | start t hs =>
    refine entries_of_frames h frames_start ?_
    unfold start
    split_ifs <;> rfl
  | poll hp he => exact entries_poll h hconf hp _
  | newConnection highWater mark hp hs hfd => exact entries_newConnection h hconf _ _ _
  | handleEvent hp => exact entries_of_frames h (frames_handleEvent hp _) rfl
  | callback read write hp => exact entries_callback h hconf hp read write
  | swap hp => exact entries_of_frames h (frames_swap hp) rfl
  | functor r hp => exact entries_functor h hconf hp r
  | finish hp => exact entries_of_frames h (frames_finish hp) rfl
  | call r hc hconn ht =>
    refine entries_runInLoop h hc.1 ?_ r
    rintro rfl
    cases ht
  | @shutdown t c hc hconn =>
    have hset : (s.setConn c { (s.conns c).conn with state_ := .kDisconnecting }).Entries :=
      entries_of_live h (acts_setState (K := fun _ => False) _) hc.1 id (by simp [setConn])
    exact entries_runInLoop hset hc.1 (by simp) _
  | nothing => exact h
  | @store c hc hs =>
    exact entries_of_live h (acts_setState (K := fun _ => False) _) hc.1 id (by simp [setConn])
  | @push c task hc hs ht =>
    refine entries_queueInLoop h hc.1 rfl rfl ?_
    rintro ⟨⟩
    cases ht
  | user user => exact ⟨h.keyed, h.erased⟩
  | destroy | destroyed => cases halive
  | exit hp => exact entries_of_frames h (frames_exit hp) rfl

omit [DecidableEq L] [Fintype L] in
theorem entries_init (loop_ : L) (loops_ : List L) (ipPort_ name_ : String) (writeComplete : Bool) :
    (init loop_ loops_ ipPort_ name_ writeComplete : TcpServer L β).Entries :=
  ⟨fun _ _ hn => (by cases hn), fun c hc => absurd hc (Nat.not_lt_zero c)⟩

/-! ### Idle servers -/

/-- No loop has anything left to do. -/
def Quiet (s : TcpServer L β) : Prop :=
  ∀ l, (s.loops l).phase = .polling ∧ (s.loops l).pendingFunctors_ = []

omit [DecidableEq L] [Fintype L] [Inhabited β] in
theorem todo_of_quiet (h : s.Quiet) (l : L) : (s.loops l).todo = [] := by
  rw [Loop.todo, (h l).1, (h l).2]
  rfl

variable {r : List (TcpConnection β × Work β)} {u : Session (Option L) β}

omit [Fintype L] in
/-- A connection that waits for `connectEstablished` has it in a queue. -/
theorem not_fresh_of_quiet (h : s.Quiet) (hu : s.Shows c r u) : ¬ s.Fresh c := by
  intro hf
  have hconn : u.conn = (s.conns c).conn := congrArg View.conn hu.view
  have hpending : u.pending.map Prod.snd = [] := by
    have hview : u.pending.map Prod.snd = (s.view c).pending := congrArg View.pending hu.view
    rw [hview]
    simp [view, Loop.view, todo_of_quiet h]
  rcases hu.reached.keeping.1.phase with hfresh | ⟨-, ht⟩
  · obtain ⟨q, rest, hp, -⟩ := hfresh.pending
    rw [hp] at hpending
    cases hpending
  · have hadded := ht.added (by simp [hconn, hf.state]) fun hrem => hu.removed hrem hf.live
    rw [hconn, hf.index] at hadded
    cases hadded

omit [DecidableEq L] [Fintype L] [Inhabited β] in
/-- A connection that is closed has something queued that ends it. -/
theorem not_closed_of_quiet (h : s.Quiet) : ¬ s.Closed c := by
  intro hclosed
  obtain ⟨l, f, hf, -⟩ := hclosed.ending
  rw [todo_of_quiet h l] at hf
  cases hf

/-- **An idle server.**  When no loop has anything left to do, every connection ever made is up or
gone; `connections_` holds exactly the ones that are up, under their names; and the pollers watch
exactly these, each on its own loop under its own fd. -/
theorem idle_server {loop_ : L} {loops_ : List L} {ipPort_ name_ : String} {writeComplete : Bool}
    {ls : List (Label L β)} (hwhole : ∀ a ∈ ls, a.isWhole = true)
    (hnames : Lts.Along step NameFree
      (init loop_ loops_ ipPort_ name_ writeComplete : TcpServer L β) ls)
    (hoff : ∀ c < s.made, Lts.Along step (Offers c)
      (init loop_ loops_ ipPort_ name_ writeComplete : TcpServer L β) ls)
    (h : Lts.exec step (init loop_ loops_ ipPort_ name_ writeComplete) ls = some s)
    (halive : s.stage = .alive) (hquiet : s.Quiet) :
    (∀ c < s.made, s.Up c ∨ s.Gone c) ∧
    (∀ n c, s.connections_ n = some c ↔ c < s.made ∧ (s.conns c).name_ = n ∧ s.Up c) ∧
    (∀ l fd c, s.Registered l fd c ↔ c < s.made ∧ (s.conns c).loop_ = l ∧
      (s.conns c).conn.channel_.fd_ = fd ∧ s.Up c) := by
  have hinv : s.Confined ∧ (s.stage = .alive → s.Owned ∧ s.Entries) := by
    refine Lts.exec_inv (I := fun s => s.Confined ∧ (s.stage = .alive → s.Owned ∧ s.Entries))
      (fun u a v hu ha hst => ?_)
      ⟨confined_init _ _ _ _ _, fun _ => ⟨owned_init _ _ _ _ _, entries_init _ _ _ _ _⟩⟩
      ((Lts.along_of_forall hwhole).and hnames) h
    have hnext := (step_eq_some.1 hst).2
    refine ⟨confined_next hu.1 hnext, fun hv => ?_⟩
    obtain ⟨howned, hentries⟩ := hu.2 (alive_of_next hnext hv)
    exact ⟨owned_next howned hu.1 ha.1 ha.2 hnext hv, entries_next hentries hu.1 hnext hv⟩
  obtain ⟨hconf, hkept⟩ := hinv
  obtain ⟨howned, hmap⟩ := hkept halive
  have hshows : ∀ c < s.made, ∃ u, s.Shows c _ u := fun c hc =>
    (shown_run hwhole hnames (hoff c hc) h halive).2.1 hc
  have hlife : ∀ c < s.made, s.Up c ∨ s.Gone c := by
    intro c hc
    obtain ⟨u, hu⟩ := hshows c hc
    rcases howned.life c hc with hf | hup | hclosed | hgone
    · exact absurd hf (not_fresh_of_quiet hquiet hu)
    · exact Or.inl hup
    · exact absurd hclosed (not_closed_of_quiet hquiet)
    · exact Or.inr hgone
  refine ⟨hlife, fun n c => ⟨fun hn => ?_, ?_⟩, fun l fd c => ⟨fun hreg => ?_, ?_⟩⟩
  · obtain ⟨hc, rfl⟩ := hmap.keyed n c hn
    refine ⟨hc, rfl, (hlife c hc).resolve_right fun hgone => hmap.erased c hc (Or.inl ?_) hn⟩
    simp [hgone.destroyed]
  · rintro ⟨-, rfl, hup⟩
    exact hup.mapped
  · obtain ⟨hc, hl⟩ := hconf.registered l fd c hreg
    obtain ⟨hfd, hindex⟩ := howned.registered l fd c hreg
    exact ⟨hc, hl, hfd, (hlife c hc).resolve_right fun hgone => hindex hgone.index⟩
  · rintro ⟨hc, rfl, rfl, hup⟩
    obtain ⟨u, hu⟩ := hshows c hc
    obtain ⟨events, hentry, -⟩ := epoll_of_shows howned hu hc hup.state
    exact Or.inr ⟨events, hentry⟩

/-- Of two connections on the io loop `false` one comes and goes. -/
private def idleRun : List (Label Bool ℕ) :=
  [.start (some true), .poll true [], .newConnection 9 false 0, .newConnection 10 false 0,
    .swap true,
    .finish true, .poll false [], .swap false, .functor false (.sent 0), .functor false (.sent 0),
    .finish false, .poll false [(9, EPOLLHUP)], .handleEvent false,
    .callback false .failed (.sent 0),
    .swap false, .finish false, .poll true [], .swap true, .functor true (.sent 0), .finish true,
    .poll false [], .swap false, .functor false (.sent 0), .finish false]

theorem idle_server_departed : ∃ s : TcpServer Bool ℕ,
    Lts.exec step (init true [false] "" "" false) idleRun = some s ∧ s.made = 2 ∧
      ¬ s.Up 0 ∧ s.Up 1 ∧ s.Registered false 10 1 := by
  have hrun : (Lts.exec step (init true [false] "" "" false) idleRun).any (fun s =>
      s.made = 2 ∧ s.stage = .alive ∧
        (∀ l, (s.loops l).phase = .polling ∧ (s.loops l).pendingFunctors_ = []) ∧
        (s.conns 0).conn.state_ = .kDisconnected ∧ (s.conns 1).conn.state_ = .kConnected ∧
        (s.conns 1).loop_ = false ∧ (s.conns 1).conn.channel_.fd_ = 10) = true := by
    decide +kernel
  have hoff : ∀ c < 2, Lts.Along step (Offers c)
      (init true [false] "" "" false : TcpServer Bool ℕ) idleRun := by
    decide +kernel
  obtain ⟨s, hs, hp⟩ := Lts.exec_of_any hrun
  obtain ⟨hmade, halive, hquiet, hdown, hstate, hloop, hfd⟩ := of_decide_eq_true hp
  obtain ⟨hlife, -, hreg⟩ := idle_server (by decide) (by decide +kernel)
    (fun c hc => hoff c (hmade ▸ hc)) hs halive hquiet
  have hgone : ¬ s.Up 0 := fun hup => by rcases hup.state with h | h <;> simp [hdown] at h
  have hup : s.Up 1 := (hlife 1 (by omega)).resolve_right fun hgone => by
    simp [hgone.state] at hstate
  exact ⟨s, hs, hmade, hgone, hup, (hreg false 10 1).2 ⟨by omega, hloop, hfd, hup⟩⟩

end Steps

end TcpServer

end Muduo
