import MuduoCpp.Polling
import MuduoCpp.Confinement

/-!
# The polls of a server

In the steps of `TcpServer` a loop is handed the fds that its poller reports, and the pollers hold
the channels of the connections only.  Here the poller of a loop is a `Polling`, with the channels
of the acceptor and of the eventfd among the others.

* `Mirrors`: the server's poller is what the `Polling` says of the connections;
* `poll_of_polling`: what `EPollPoller::poll` does is a step of the server.
-/

namespace Muduo

namespace TcpServer

variable {L β P : Type}

/-- `conn` says which channels are those of connections; `tie` is nothing that a poller knows of. -/
structure Mirrors (s : TcpServer L β) (l : L) (conn : P → Option ℕ) (r : Registry P) : Prop where
  entry : ∀ k c events, (s.loops l).poller.epollfd_ k = some ⟨events, c⟩ ↔
    ∃ p, r.poller.epollfd_ k = some ⟨events, p⟩ ∧ conn p = some c
  chan : ∀ k p c events, r.poller.epollfd_ k = some ⟨events, p⟩ → conn p = some c →
    ∃ tied_, (s.conns c).conn.channel_ = { r.chan p with tied_ := tied_ }

/-- What is reported of the connections. -/
def connEvents (conn : P → Option ℕ) (fd : P → ℤ) (es : List (EpollEvent P)) : List (ℤ × Events) :=
  (es.filter fun e => (conn e.ptr).isSome).map fun e => (fd e.ptr, e.events)

variable [DecidableEq L] [DecidableEq P] {s : TcpServer L β} {l : L} {conn : P → Option ℕ}
  {fd : P → ℤ} {r : Registry P} {active : List ℕ} {e : EpollEvent P} {c : ℕ}

omit [DecidableEq L] in
theorem mirrors_setRevents_other (h : s.Mirrors l conn r) (he : conn e.ptr = none) :
    s.Mirrors l conn { r with chan := Polling.setRevents r.chan e } := by
  refine ⟨h.entry, fun k p c events hk hp => ?_⟩
  have hne : p ≠ e.ptr := by
    rintro rfl
    rw [he] at hp
    cases hp
  obtain ⟨tied_, htied⟩ := h.chan k p c events hk hp
  refine ⟨tied_, ?_⟩
  show _ = { Polling.setRevents r.chan e p with tied_ := tied_ }
  rw [htied, Polling.setRevents, Function.update_of_ne hne]

omit [DecidableEq P] in
theorem activate_eq (h : s.Mirrors l conn r) (hp : (s.loops l).phase = .dispatching active [])
    {k : ℤ} {events m : Events} (hk : r.poller.epollfd_ k = some ⟨events, e.ptr⟩)
    (hc : conn e.ptr = some c) :
    activate l s (k, m) = (s.setConn c { (s.conns c).conn with
      channel_ := { (s.conns c).conn.channel_ with revents_ := m } }).setPhase l
        (.dispatching (active ++ [c]) []) := by
  have hset := (h.entry k c events).2 ⟨e.ptr, hk, hc⟩
  rw [activate]
  simp only [hset, setConn, hp, Phase.activeChannels_]

/-- A connection is reported: both levels set its `revents_`. -/
theorem mirrors_activate (h : s.Mirrors l conn r)
    (hinj : ∀ k j p q events events', r.poller.epollfd_ k = some ⟨events, p⟩ →
      r.poller.epollfd_ j = some ⟨events', q⟩ → conn p = conn q → conn p ≠ none → p = q)
    (hp : (s.loops l).phase = .dispatching active []) {k : ℤ} {events : Events}
    (hk : r.poller.epollfd_ k = some ⟨events, e.ptr⟩) (hc : conn e.ptr = some c) :
    (activate l s (k, e.events)).Mirrors l conn { r with chan := Polling.setRevents r.chan e } := by
  rw [activate_eq h hp hk hc]
  refine ⟨fun j d m => ?_, fun j p d m hj hd => ?_⟩
  · rw [setPhase, loops_modifyLoop, if_pos rfl]
    exact h.entry j d m
  · have hconns : (((s.setConn c { (s.conns c).conn with
        channel_ := { (s.conns c).conn.channel_ with revents_ := e.events } }).setPhase l
          (.dispatching (active ++ [c]) [])).conns d).conn.channel_ =
        if d = c then { (s.conns c).conn.channel_ with revents_ := e.events }
        else (s.conns d).conn.channel_ := by
      show (Function.update s.conns c _ d).conn.channel_ = _
      rw [Function.update_apply]
      split_ifs with hdc
      · rfl
      · rfl
    obtain ⟨tied_, htied⟩ := h.chan j p d m hj hd
    refine ⟨tied_, ?_⟩
    show _ = { Polling.setRevents r.chan e p with tied_ := tied_ }
    rw [hconns, Polling.setRevents, Function.update_apply]
    by_cases hdc : d = c
    · have hpe : p = e.ptr := hinj j k p e.ptr m events hj hk (by rw [hd, hc, hdc]) (by simp [hd])
      rw [if_pos hpe, if_pos hdc, ← hdc, htied, hpe]
    · have hpe : p ≠ e.ptr := by
        rintro rfl
        exact hdc (Option.some.inj (hd.symm.trans hc))
      rw [if_neg hpe, if_neg hdc, htied]

omit [DecidableEq L] [DecidableEq P] in
/-- A connection has one registered channel. -/
theorem ptr_inj (h : s.Mirrors l conn r) (hr : r.Consistent) (k j : ℤ) (p q : P)
    (events events' : Events) (hk : r.poller.epollfd_ k = some ⟨events, p⟩)
    (hj : r.poller.epollfd_ j = some ⟨events', q⟩) (hpq : conn p = conn q) (hp : conn p ≠ none) :
    p = q := by
  obtain ⟨c, hc⟩ := Option.ne_none_iff_exists'.1 hp
  obtain ⟨_, hchan⟩ := h.chan k p c events hk hc
  obtain ⟨_, hchan'⟩ := h.chan j q c events' hj (hpq ▸ hc)
  rw [hchan] at hchan'
  have hfd := congrArg Channel.fd_ hchan'
  exact hr.fd_inj hfd

theorem mirrors_foldl {es : List (EpollEvent P)} (h : s.Mirrors l conn r) (hr : r.Consistent)
    (hp : (s.loops l).phase = .dispatching active [])
    (hes : ∀ e ∈ es, ∃ events, r.poller.epollfd_ (fd e.ptr) = some ⟨events, e.ptr⟩) :
    ((connEvents conn fd es).foldl (activate l) s).Mirrors l conn
        { r with chan := es.foldl Polling.setRevents r.chan } ∧
      (((connEvents conn fd es).foldl (activate l) s).loops l).phase =
        .dispatching (active ++ (es.map EpollEvent.ptr).filterMap conn) [] := by
  induction es generalizing s r active with
  | nil =>
    rw [List.map_nil, List.filterMap_nil, List.append_nil]
    exact ⟨h, hp⟩
  | cons e es ih =>
    have hr' : ({ r with chan := Polling.setRevents r.chan e } : Registry P).Consistent :=
      Polling.consistent_of_revents hr (Polling.foldl_setRevents r.chan [e])
    have hes' : ∀ d ∈ es, ∃ events, r.poller.epollfd_ (fd d.ptr) = some ⟨events, d.ptr⟩ :=
      fun d hd => hes d (List.mem_cons_of_mem e hd)
    cases hc : conn e.ptr with
    | none =>
      rw [connEvents, List.filter_cons_of_neg (by simp [hc]), List.map_cons,
        List.filterMap_cons_none hc]
      exact ih (mirrors_setRevents_other h hc) hr' hp hes'
    | some c =>
      obtain ⟨events, hk⟩ := hes e List.mem_cons_self
      rw [connEvents, List.filter_cons_of_pos (by simp [hc]), List.map_cons, List.map_cons,
        List.filterMap_cons_some hc, List.append_cons]
      refine ih (mirrors_activate h (ptr_inj h hr) hp hk hc) hr' ?_ hes'
      rw [activate_eq h hp hk hc]
      exact phase_setPhase _

/-- **A poll of the server.**  In every reachable state of a poller that holds the connections of a
loop of the server, among others, what `EPollPoller::poll` reports of them makes a step of the
server that ends in the same state. -/
theorem poll_of_polling [Fintype L] [Inhabited β] {q q' : Polling P} {ls : List (Polling.Label P)}
    {status : ℤ → Events} (hfd : Function.Injective fd)
    (h : Lts.exec Polling.step (.init fd) ls = some q) (hst : q.step (.poll status) = some q')
    (hm : s.Mirrors l conn q.registry) (hp : (s.loops l).phase = .polling) :
    ∃ s', s.next (.poll l (connEvents conn fd (q.reports status))) = some s' ∧
      s'.Mirrors l conn q'.registry ∧
      (s'.loops l).phase = .dispatching (q'.activeChannels_.filterMap conn) [] := by
  have hs := Polling.sound_run hfd h
  have hentry : ∀ e ∈ q.reports status, ∃ events,
      q.registry.poller.epollfd_ (fd e.ptr) = some ⟨events, e.ptr⟩ := by
    intro e he
    obtain ⟨event, hevent⟩ := Option.ne_none_iff_exists'.1 (Polling.mem_reports hs he).1
    have hptr : event.ptr = e.ptr := hfd (Polling.entry_of_sound hs hevent).1
    exact ⟨event.events, by rw [hevent, ← hptr]⟩
  have hnodup : ((connEvents conn fd (q.reports status)).map Prod.fst).Nodup := by
    have hptrs : ((q.reports status).map EpollEvent.ptr).Nodup := Polling.nodup_reports hs
    have hfds := hptrs.map hfd
    rw [List.map_map] at hfds
    rw [connEvents, List.map_map]
    exact hfds.sublist (List.filter_sublist.map _)
  have hset : ∀ x ∈ connEvents conn fd (q.reports status),
      ((s.loops l).poller.epollfd_ x.1).isSome = true := by
    intro x hx
    obtain ⟨e, he, rfl⟩ := List.mem_map.1 hx
    obtain ⟨he, hc⟩ := List.mem_filter.1 he
    obtain ⟨c, hc⟩ := Option.isSome_iff_exists.1 hc
    obtain ⟨events, hk⟩ := hentry e he
    rw [(hm.entry _ c events).2 ⟨e.ptr, hk, hc⟩]
    rfl
  have hcleared : (s.setPhase l (.dispatching [] [])).Mirrors l conn q.registry := by
    refine ⟨fun k c events => ?_, hm.chan⟩
    rw [setPhase, loops_modifyLoop, if_pos rfl]
    exact hm.entry k c events
  obtain ⟨hmirrors, hphase⟩ := mirrors_foldl hcleared hs.consistent (phase_setPhase _) hentry
  obtain ⟨events_, hstep, -⟩ := Polling.poll_step q status
  obtain rfl := Option.some.inj (hstep.symm.trans hst)
  refine ⟨_, ?_, hmirrors, hphase⟩
  simp only [next, hp]
  rw [if_pos ⟨hnodup, hset⟩]
  rfl

/-- A connection on the fd 5, beside the acceptor on the fd 3. -/
private def mirroredRun : List (Label Unit ℕ) :=
  [.start (some ()), .poll () [], .newConnection 5 false 0, .swap (), .finish ()]

private def mirroredCalls : List (Polling.Label (Option ℕ)) :=
  [.apply none .enableReading, .apply (some 0) .enableReading, .notify 3, .notify 5]

private def mirroredFd : Option ℕ → ℤ
  | none => 3
  | some c => c + 5

private theorem mirroredFd_injective : Function.Injective mirroredFd := by
  rintro (_ | c) (_ | d) h <;> simp only [mirroredFd] at h
  · rfl
  · omega
  · omega
  · rw [Int.ofNat_inj.1 (add_right_cancel h)]

theorem poll_of_polling_mirrored : ∃ s s' : TcpServer Unit ℕ,
    s.next (.poll () [(5, EPOLLIN)]) = some s' ∧ (s'.loops ()).phase = .dispatching [0] [] := by
  have hs : (Lts.exec step (init () [] "" "" false) mirroredRun).isSome := rfl
  have hq : (Lts.exec Polling.step (.init mirroredFd) mirroredCalls).isSome := rfl
  have hset :
      (((Lts.exec step (init () [] "" "" false) mirroredRun).get hs).loops ()).poller.epollfd_ =
      Function.update (fun _ => none) 5 (some ⟨3, 0⟩) := rfl
  have hset' : ((Lts.exec Polling.step (.init mirroredFd) mirroredCalls).get
      hq).registry.poller.epollfd_ =
        Function.update (Function.update (fun _ => none) 3 (some ⟨3, none⟩)) 5
          (some ⟨3, some 0⟩) := rfl
  have hmirrors : ((Lts.exec step (init () [] "" "" false) mirroredRun).get hs).Mirrors () id
      ((Lts.exec Polling.step (.init mirroredFd) mirroredCalls).get hq).registry := by
    constructor
    · intro k c events
      rw [hset, hset']
      by_cases hk : k = 5
      · simp [hk]
      · by_cases hk' : k = 3
        · simp [hk']
        · simp [Function.update_of_ne hk, Function.update_of_ne hk']
    · rintro k p c events hk rfl
      rw [hset'] at hk
      by_cases hk5 : k = 5
      · rw [hk5, Function.update_self] at hk
        cases hk
        exact ⟨true, rfl⟩
      · by_cases hk3 : k = 3
        · simp [hk3] at hk
        · simp [Function.update_of_ne hk5, Function.update_of_ne hk3] at hk
  have hpoll : (((Lts.exec Polling.step (.init mirroredFd) mirroredCalls).get hq).step
      (.poll fun _ => EPOLLIN)).isSome := rfl
  obtain ⟨s', hs', -, hphase⟩ := poll_of_polling mirroredFd_injective (Option.some_get hq).symm
    (Option.some_get hpoll).symm hmirrors rfl
  exact ⟨_, s', hs', hphase⟩

end TcpServer

end Muduo
