import MuduoCpp.Lib.Run
import MuduoCpp.Lib.Rotation
import MuduoCpp.EPollPoller

/-!
# `EPollPoller::poll`: who is reported, and when

The kernel keeps the fds that are ready in a list.  `epoll_wait` goes through it from its head on,
drops those of which nothing holds that was asked for, reports at most `maxevents` of the others
and, as they are level-triggered, puts these back at its end.  `poll` has room for `events_.size()`
of them and doubles it when it was used up.

* `Polling`: a poller with its channels, the list, `events_`, and the `activeChannels_` of the loop;
* `poll_reports`: what a poll does in any reachable state;
* `events_size`: how large `events_` gets;
* `reported_in_polls`: every channel that stays ready is reported, in logarithmically many polls.
-/

namespace Muduo

variable {P : Type}

/-! ### The kernel -/

/-- Of the conditions that hold, those that were asked for and the two that always are. -/
def EpollEvent.reported (event : EpollEvent P) (status : Events) : Events :=
  status &&& (event.events ||| EPOLLERR ||| EPOLLHUP)

/-- What `epoll_wait` reports for an fd, if anything. -/
def EpollSet.reports (set : EpollSet P) (status : ℤ → Events) (fd : ℤ) : Option (EpollEvent P) :=
  (set fd).bind fun event =>
    if event.reported (status fd) = 0 then none else some ⟨event.reported (status fd), event.ptr⟩

/-- An fd of which `epoll_wait` reports something. -/
def EpollSet.keeps (set : EpollSet P) (status : ℤ → Events) (fd : ℤ) : Bool :=
  (set.reports status fd).isSome

/-- The events that are reported, and the list afterwards. -/
def epoll_wait (set : EpollSet P) (ready : List ℤ) (status : ℤ → Events) (maxevents : ℕ) :
    List (EpollEvent P) × List ℤ :=
  ((Rotation.scan (set.keeps status) maxevents ready).1.filterMap (set.reports status),
    Rotation.turn (set.keeps status) maxevents ready)

/-! ### The poller -/

/-- A poller with its channels, the kernel's list of ready fds, and what a poll fills. -/
structure Polling (P : Type) where
  registry : Registry P
  /-- The kernel's list. -/
  ready : List ℤ
  /-- `data.ptr` is null in an element that was never written. -/
  events_ : List (EpollEvent (Option P))
  activeChannels_ : List P

namespace Polling

/-- `EPollPoller::kInitEventListSize`. -/
def kInitEventListSize : ℕ := 16

/-- A value-initialized `epoll_event`. -/
def zero : EpollEvent (Option P) := ⟨0, none⟩

/-- A newly constructed poller with channels on the fds `fd`. -/
def init (fd : P → ℤ) : Polling P where
  registry := .init fd
  ready := []
  events_ := List.replicate kInitEventListSize zero
  activeChannels_ := []

/-- What `epoll_wait` writes to `events_`. -/
def slot (event : EpollEvent P) : EpollEvent (Option P) := ⟨event.events, some event.ptr⟩

/-- `events_.resize(n)`. -/
def resize (events_ : List (EpollEvent (Option P))) (n : ℕ) : List (EpollEvent (Option P)) :=
  events_.take n ++ List.replicate (n - events_.length) zero

variable [DecidableEq P]

/-- `set_revents`. -/
def setRevents (chan : P → Channel) (event : EpollEvent P) : P → Channel :=
  Function.update chan event.ptr { chan event.ptr with revents_ := event.events }

/-- The body of the loop of `fillActiveChannels`; there is no channel behind a null pointer. -/
def fillActiveChannel (s : Polling P) (event : EpollEvent (Option P)) : Option (Polling P) :=
  event.ptr.map fun channel =>
    { s with
      registry.chan := setRevents s.registry.chan ⟨event.events, channel⟩
      activeChannels_ := s.activeChannels_ ++ [channel] }

/-- `none` when an element is read that `events_` does not have. -/
def fillActiveChannels (s : Polling P) (numEvents : ℕ) : Option (Polling P) :=
  (List.range' 0 numEvents).foldlM (fun s i => s.events_[i]?.bind s.fillActiveChannel) s

/-- `EPollPoller::poll`, when `epoll_wait` succeeds; `none` as for `fillActiveChannels`. -/
def poll (s : Polling P) (status : ℤ → Events) : Option (Polling P) :=
  let r := epoll_wait s.registry.poller.epollfd_ s.ready status s.events_.length
  let numEvents := r.1.length
  let s := { s with events_ := r.1.map slot ++ s.events_.drop numEvents, ready := r.2 }
  if 0 < numEvents then
    (s.fillActiveChannels numEvents).map fun s =>
      if numEvents = s.events_.length then
        { s with events_ := resize s.events_ (s.events_.length * 2) }
      else s
  else some s

/-- A step of the loop or of the kernel. -/
inductive Label (P : Type)
  /-- A call on the channel `c`. -/
  | apply (c : P) (call : ChannelCall)
  /-- The kernel finds that something happened at an fd. -/
  | notify (fd : ℤ)
  /-- The loop clears `activeChannels_` and polls; `status` is what holds at the fds. -/
  | poll (status : ℤ → Events)
  /-- The same, and `epoll_wait` returns an error (`EINTR`). -/
  | pollFails

/-- One step; none when a poll reads what `events_` does not have. -/
def step (s : Polling P) : Label P → Option (Polling P)
  | .apply c call =>
      let registry := s.registry.apply c call
      -- an fd that leaves the set leaves the list
      some { s with
        registry := registry
        ready := s.ready.filter fun fd => (registry.poller.epollfd_ fd).isSome }
  | .notify fd =>
      some { s with
        ready := if (s.registry.poller.epollfd_ fd).isSome = true ∧ fd ∉ s.ready then
          s.ready ++ [fd] else s.ready }
  | .poll status => poll { s with activeChannels_ := [] } status
  | .pollFails => some { s with activeChannels_ := [] }

/-! ### One poll -/

variable {s t : Polling P} {es : List (EpollEvent P)} {c : P} {status : ℤ → Events}

/-- What the loop makes of the elements that hold the events `es`. -/
def filled (s : Polling P) (es : List (EpollEvent P)) : Polling P :=
  { s with
    registry.chan := es.foldl setRevents s.registry.chan
    activeChannels_ := s.activeChannels_ ++ es.map EpollEvent.ptr }

theorem foldlM_fillActiveChannel {v w : List (EpollEvent (Option P))}
    (h : s.events_ = v ++ es.map slot ++ w) :
    (List.range' v.length es.length).foldlM
      (fun s i => s.events_[i]?.bind s.fillActiveChannel) s = some (s.filled es) := by
  induction es generalizing s v with
  | nil => simp [filled]
  | cons e es ih =>
    have hget : s.events_[v.length]? = some (slot e) := by
      rw [h, List.append_assoc, List.getElem?_append_right le_rfl, Nat.sub_self]
      rfl
    rw [List.length_cons, List.range'_succ, List.foldlM_cons, hget]
    have htail := ih (s := s.filled [e]) (v := v ++ [slot e]) (by
      rw [List.append_assoc v]
      exact h)
    rw [List.length_append, List.length_singleton] at htail
    rw [show s.filled (e :: es) = (s.filled [e]).filled es by simp [filled]]
    exact htail

theorem fillActiveChannels_eq {rest : List (EpollEvent (Option P))}
    (h : s.events_ = es.map slot ++ rest) :
    s.fillActiveChannels es.length = some (s.filled es) :=
  foldlM_fillActiveChannel (v := []) h

/-- What a poll reports. -/
def reports (s : Polling P) (status : ℤ → Events) : List (EpollEvent P) :=
  (epoll_wait s.registry.poller.epollfd_ s.ready status s.events_.length).1

/-- `poll` reads what was written and nothing else. -/
theorem poll_eq (s : Polling P) (status : ℤ → Events) :
    ∃ events_, s.poll status = some
        { s.filled (s.reports status) with
          events_ := events_
          ready := (epoll_wait s.registry.poller.epollfd_ s.ready status s.events_.length).2 } ∧
      events_.length = if (s.reports status).length = s.events_.length then
        s.events_.length * 2 else s.events_.length := by
  have hroom : (s.reports status).length ≤ s.events_.length :=
    (List.length_filterMap_le _ _).trans Rotation.length_scan
  have hlen : ((s.reports status).map slot ++ s.events_.drop (s.reports status).length).length =
      s.events_.length := by
    rw [List.length_append, List.length_map, List.length_drop]
    omega
  have hdef : (epoll_wait s.registry.poller.epollfd_ s.ready status s.events_.length).1 =
      s.reports status := rfl
  simp only [poll, hdef]
  by_cases hpos : 0 < (s.reports status).length
  · rw [if_pos hpos, fillActiveChannels_eq rfl, Option.map_some]
    simp only [filled, hlen]
    split_ifs with hfull
    · refine ⟨_, rfl, ?_⟩
      rw [resize, List.length_append, List.length_take, List.length_replicate, hlen]
      omega
    · exact ⟨_, rfl, hlen⟩
  · have hnil : s.reports status = [] := List.length_eq_zero_iff.1 (Nat.le_zero.1 (not_lt.1 hpos))
    rw [if_neg hpos, hnil]
    refine ⟨s.events_, by simp [filled], ?_⟩
    simp only [List.length_nil]
    split_ifs with hzero
    · omega
    · rfl

/-! ### What stays true -/

theorem foldl_setRevents_of_notMem {chan : P → Channel} (h : c ∉ es.map EpollEvent.ptr) :
    es.foldl setRevents chan c = chan c := by
  induction es generalizing chan with
  | nil => rfl
  | cons e es ih =>
    rw [List.map_cons, List.mem_cons, not_or] at h
    rw [List.foldl_cons, ih h.2, setRevents, Function.update_of_ne h.1]

theorem foldl_setRevents_of_mem {chan : P → Channel} {e : EpollEvent P}
    (hnodup : (es.map EpollEvent.ptr).Nodup) (he : e ∈ es) :
    es.foldl setRevents chan e.ptr = { chan e.ptr with revents_ := e.events } := by
  induction es generalizing chan with
  | nil => cases he
  | cons e' es ih =>
    rw [List.map_cons, List.nodup_cons] at hnodup
    rw [List.foldl_cons]
    rcases List.mem_cons.1 he with rfl | he
    · rw [foldl_setRevents_of_notMem hnodup.1, setRevents, Function.update_self]
    · have hne : e.ptr ≠ e'.ptr := by
        intro hp
        rw [← hp] at hnodup
        exact hnodup.1 (List.mem_map_of_mem he)
      rw [ih hnodup.2 he, setRevents, Function.update_of_ne hne]

/-- Only `revents_` is set. -/
theorem foldl_setRevents (chan : P → Channel) (es : List (EpollEvent P)) (c : P) :
    ∃ revents_, es.foldl setRevents chan c = { chan c with revents_ := revents_ } := by
  induction es generalizing chan with
  | nil => exact ⟨(chan c).revents_, rfl⟩
  | cons e es ih =>
    obtain ⟨revents_, h⟩ := ih (setRevents chan e)
    refine ⟨revents_, ?_⟩
    rw [List.foldl_cons, h, setRevents]
    by_cases hc : c = e.ptr
    · subst hc
      rw [Function.update_self]
    · rw [Function.update_of_ne hc]

omit [DecidableEq P] in
/-- The three records do not depend on `revents_`. -/
theorem consistent_of_revents {r : Registry P} {chan : P → Channel} (h : r.Consistent)
    (hchan : ∀ c, ∃ revents_, chan c = { r.chan c with revents_ := revents_ }) :
    ({ r with chan := chan } : Registry P).Consistent := by
  refine ⟨fun c d hcd => h.fd_inj ?_, fun c => ?_, h.failed⟩
  · obtain ⟨_, hc⟩ := hchan c
    obtain ⟨_, hd⟩ := hchan d
    simp only [hc, hd] at hcd
    exact hcd
  · obtain ⟨_, hc⟩ := hchan c
    have hholds := h.holds c
    simp only [hc]
    exact hholds

/-- The invariant: the fds of the set and of the kernel's list are those of channels. -/
structure Sound (fd : P → ℤ) (s : Polling P) : Prop where
  consistent : s.registry.Consistent
  fds : ∀ c, (s.registry.chan c).fd_ = fd c
  owned : ∀ k, s.registry.poller.epollfd_ k ≠ none → ∃ c, fd c = k
  nodup : s.ready.Nodup
  listed : ∀ k ∈ s.ready, s.registry.poller.epollfd_ k ≠ none

variable {fd : P → ℤ} {ls : List (Label P)} {a : Label P}

omit [DecidableEq P] in
theorem sound_init (hfd : Function.Injective fd) : (init fd).Sound fd where
  consistent := Registry.consistent_init hfd
  fds _ := rfl
  owned _ h := absurd rfl h
  nodup := List.nodup_nil
  listed _ h := by cases h

theorem sound_apply (h : s.Sound fd) (c : P) (call : ChannelCall) :
    Sound fd { s with
      registry := s.registry.apply c call
      ready := s.ready.filter fun k => ((s.registry.apply c call).poller.epollfd_ k).isSome } := by
  refine ⟨Registry.consistent_apply h.consistent c call, fun d => ?_, fun k hk => ?_,
    h.nodup.filter _, fun k hk => ?_⟩
  · exact (Registry.apply_fd s.registry c d call).trans (h.fds d)
  · by_cases hkc : k = fd c
    · exact ⟨c, hkc.symm⟩
    · have hsame := (Registry.apply_frame h.consistent c call).1.2 k (by rwa [h.fds])
      exact h.owned k (by rwa [← hsame.2])
  · exact Option.isSome_iff_ne_none.1 (List.mem_filter.1 hk).2

theorem sound_filled (h : s.Sound fd) {events_ : List (EpollEvent (Option P))} {ready : List ℤ}
    (hnodup : ready.Nodup) (hlisted : ∀ k ∈ ready, k ∈ s.ready) :
    Sound fd { s.filled es with events_ := events_, ready := ready } := by
  have hchan := foldl_setRevents s.registry.chan es
  refine ⟨consistent_of_revents h.consistent hchan, fun c => ?_, h.owned, hnodup,
    fun k hk => h.listed k (hlisted k hk)⟩
  obtain ⟨_, hc⟩ := hchan c
  exact (congrArg Channel.fd_ hc).trans (h.fds c)

theorem sound_step (h : s.Sound fd) (hst : s.step a = some t) : t.Sound fd := by
  cases a with
  | apply c call =>
    cases hst
    exact sound_apply h c call
  | notify k =>
    cases hst
    refine ⟨h.consistent, h.fds, h.owned, ?_, fun j hj => ?_⟩
    · split_ifs with hk
      · exact List.nodup_append_comm.1 (List.nodup_cons.2 ⟨hk.2, h.nodup⟩)
      · exact h.nodup
    · simp only at hj
      split_ifs at hj with hk
      · rcases List.mem_append.1 hj with hj | hj
        · exact h.listed j hj
        · rw [List.mem_singleton.1 hj]
          exact Option.isSome_iff_ne_none.1 hk.1
      · exact h.listed j hj
  | poll status =>
    obtain ⟨events_, hpoll, -⟩ := poll_eq { s with activeChannels_ := [] } status
    obtain rfl := Option.some.inj (hpoll.symm.trans hst)
    have h' : Sound fd { s with activeChannels_ := [] } :=
      ⟨h.consistent, h.fds, h.owned, h.nodup, h.listed⟩
    exact sound_filled h' (Rotation.nodup_turn h.nodup) fun k hk => Rotation.mem_of_mem_turn hk
  | pollFails =>
    cases hst
    exact ⟨h.consistent, h.fds, h.owned, h.nodup, h.listed⟩

theorem sound_run (hfd : Function.Injective fd) (h : Lts.exec step (init fd) ls = some s) :
    s.Sound fd :=
  Lts.exec_inv' (fun _ _ _ hs hst => sound_step hs hst) (sound_init hfd) h

/-! ### What is reported -/

/-- What holds at the fd of `c`, of what it waits for. -/
def due (s : Polling P) (status : ℤ → Events) (c : P) : Events :=
  EpollEvent.reported ⟨(s.registry.chan c).events_, c⟩ (status (s.registry.chan c).fd_)

omit [DecidableEq P] in
/-- An entry of the set is that of a registered channel. -/
theorem entry_of_sound (h : s.Sound fd) {k : ℤ} {event : EpollEvent P}
    (hk : s.registry.poller.epollfd_ k = some event) :
    fd event.ptr = k ∧ s.registry.poller.channels_ k = some event.ptr ∧
      event.events = (s.registry.chan event.ptr).events_ := by
  obtain ⟨c, hc⟩ := h.owned k (by rw [hk]; exact Option.some_ne_none event)
  have hholds := h.consistent.holds c
  rw [EPollPoller.Holds, h.fds, hc, hk] at hholds
  cases hi : (s.registry.chan c).index_ with
  | kAdded =>
    rw [hi] at hholds
    obtain ⟨hchannels, hevent⟩ := hholds
    cases hevent
    exact ⟨hc, hchannels, rfl⟩
  | kNew | kDeleted =>
    rw [hi] at hholds
    simp at hholds

omit [DecidableEq P] in
theorem reports_eq_some (h : s.Sound fd) {k : ℤ} {e : EpollEvent P} :
    s.registry.poller.epollfd_.reports status k = some e ↔
      s.registry.poller.epollfd_ k ≠ none ∧ fd e.ptr = k ∧ e.events = s.due status e.ptr ∧
        e.events ≠ 0 := by
  unfold EpollSet.reports
  cases hk : s.registry.poller.epollfd_ k with
  | none => simp
  | some event =>
    obtain ⟨hfd, -, hevents⟩ := entry_of_sound h hk
    have hdue : event.reported (status k) = s.due status event.ptr := by
      rw [due, h.fds, hfd, EpollEvent.reported, EpollEvent.reported, hevents]
    rw [Option.bind_some, hdue]
    split_ifs with hzero
    · simp only [false_iff, not_and, not_not]
      rintro - hptr he
      have hsame : e.ptr = event.ptr :=
        h.consistent.fd_inj (by simp only [h.fds]; rw [hptr, hfd])
      rw [he, hsame, hzero]
    · rw [Option.some.injEq]
      constructor
      · rintro rfl
        exact ⟨Option.some_ne_none event, hfd, rfl, hzero⟩
      · rintro ⟨-, hptr, he, -⟩
        have hsame : e.ptr = event.ptr :=
          h.consistent.fd_inj (by simp only [h.fds]; rw [hptr, hfd])
        rw [← hsame, ← he]

/-- The fds that are collected. -/
def collected (s : Polling P) (status : ℤ → Events) : List ℤ :=
  (Rotation.scan (s.registry.poller.epollfd_.keeps status) s.events_.length s.ready).1

omit [DecidableEq P] in
theorem fds_reports (h : s.Sound fd) (status : ℤ → Events) :
    (s.reports status).map (fun e => fd e.ptr) = s.collected status := by
  have hkeep : ∀ k ∈ s.collected status, ∃ e,
      s.registry.poller.epollfd_.reports status k = some e ∧ fd e.ptr = k := by
    intro k hk
    have hkept : s.registry.poller.epollfd_.keeps status k = true := Rotation.keep_of_mem_scan hk
    obtain ⟨e, he⟩ := Option.isSome_iff_exists.1 hkept
    exact ⟨e, he, ((reports_eq_some h).1 he).2.1⟩
  show ((s.collected status).filterMap _).map _ = _
  generalize s.collected status = ks at hkeep
  induction ks with
  | nil => rfl
  | cons k ks ih =>
    obtain ⟨e, he, hfd⟩ := hkeep k List.mem_cons_self
    rw [List.filterMap_cons_some he, List.map_cons, hfd,
      ih fun j hj => hkeep j (List.mem_cons_of_mem k hj)]

omit [DecidableEq P] in
theorem nodup_reports (h : s.Sound fd) : ((s.reports status).map EpollEvent.ptr).Nodup := by
  have hfds : ((s.reports status).map fun e => fd e.ptr).Nodup := by
    rw [fds_reports h]
    exact List.Nodup.of_append_left (h.nodup.sublist Rotation.scan_sublist)
  refine List.Nodup.of_map fd ?_
  rwa [List.map_map]

omit [DecidableEq P] in
theorem mem_reports (h : s.Sound fd) {e : EpollEvent P} (he : e ∈ s.reports status) :
    s.registry.poller.epollfd_ (fd e.ptr) ≠ none ∧ e.events = s.due status e.ptr ∧
      e.events ≠ 0 := by
  obtain ⟨k, -, hk⟩ := List.mem_filterMap.1 he
  obtain ⟨hset, rfl, hdue⟩ := (reports_eq_some h).1 hk
  exact ⟨hset, hdue⟩

omit [DecidableEq P] in
theorem mem_ptrs_iff (h : s.Sound fd) :
    c ∈ (s.reports status).map EpollEvent.ptr ↔ fd c ∈ s.collected status := by
  rw [← fds_reports h, List.mem_map, List.mem_map]
  constructor
  · rintro ⟨e, he, rfl⟩
    exact ⟨e, he, rfl⟩
  · rintro ⟨e, he, hc⟩
    exact ⟨e, he, h.consistent.fd_inj (by simpa only [h.fds] using hc)⟩

omit [DecidableEq P] in
/-- A channel of the list at which something holds that it waits for. -/
theorem keep_of_due (h : s.Sound fd) (hset : s.registry.poller.epollfd_ (fd c) ≠ none)
    (hdue : s.due status c ≠ 0) :
    s.registry.poller.epollfd_.keeps status (fd c) = true :=
  Option.isSome_iff_exists.2
    ⟨⟨s.due status c, c⟩, (reports_eq_some h).2 ⟨hset, rfl, rfl, hdue⟩⟩

theorem poll_step (s : Polling P) (status : ℤ → Events) :
    ∃ events_, s.step (.poll status) = some
        { ({ s with activeChannels_ := [] } : Polling P).filled (s.reports status) with
          events_ := events_
          ready := (epoll_wait s.registry.poller.epollfd_ s.ready status s.events_.length).2 } ∧
      events_.length = if (s.reports status).length = s.events_.length then
        s.events_.length * 2 else s.events_.length :=
  poll_eq { s with activeChannels_ := [] } status

/-- **A poll.**  In every reachable state `poll` reads no element of `events_` that was not written,
and puts each channel at most once into `activeChannels_`: registered ones, with what holds of what
they wait for as their `revents_`, and all of these that are in the list, unless `events_` is full;
the other channels stay as they are. -/
theorem poll_reports (hfd : Function.Injective fd) (h : Lts.exec step (init fd) ls = some s)
    (status : ℤ → Events) :
    ∃ t, s.step (.poll status) = some t ∧ t.activeChannels_.Nodup ∧
      (∀ c ∈ t.activeChannels_, s.registry.poller.channels_ (fd c) = some c ∧
        s.due status c ≠ 0 ∧
        t.registry.chan c = { s.registry.chan c with revents_ := s.due status c }) ∧
      (∀ c, c ∉ t.activeChannels_ → t.registry.chan c = s.registry.chan c) ∧
      t.activeChannels_.length ≤ s.events_.length ∧
      (t.activeChannels_.length < s.events_.length →
        ∀ c, fd c ∈ s.ready → s.due status c ≠ 0 → c ∈ t.activeChannels_) := by
  have hs := sound_run hfd h
  obtain ⟨events_, hstep, -⟩ := poll_step s status
  have hnodup : ((s.reports status).map EpollEvent.ptr).Nodup := nodup_reports hs
  have hlen : (s.reports status).length = (s.collected status).length := by
    rw [← fds_reports hs, List.length_map]
  refine ⟨_, hstep, hnodup, fun c hc => ?_, fun c hc => foldl_setRevents_of_notMem hc, ?_,
    fun hroom c hready hdue => ?_⟩
  · obtain ⟨e, he, rfl⟩ := List.mem_map.1 hc
    obtain ⟨hset, hevents, hne⟩ := mem_reports hs he
    obtain ⟨event, hevent⟩ := Option.ne_none_iff_exists'.1 hset
    obtain ⟨hfd', hchannels, -⟩ := entry_of_sound hs hevent
    have hsame : event.ptr = e.ptr := hfd hfd'
    rw [hsame] at hchannels
    rw [← hevents]
    exact ⟨hchannels, hne, foldl_setRevents_of_mem hnodup he⟩
  · show (List.map EpollEvent.ptr _).length ≤ _
    rw [List.length_map]
    exact hlen.trans_le Rotation.length_scan
  · replace hroom : (List.map EpollEvent.ptr (s.reports status)).length < _ := hroom
    rw [List.length_map, hlen] at hroom
    obtain ⟨before, after, hsplit⟩ := List.append_of_mem hready
    have hkeep := keep_of_due hs (hs.listed _ hready) hdue
    rcases Rotation.scan_split (n := s.events_.length) hkeep hsplit with hin | ⟨hfull, -⟩
    · exact (mem_ptrs_iff hs).2 hin
    · exact absurd hfull hroom.ne

/-- Seventeen channels are ready, one more than there is room for. -/
private def crowdedRun : List (Label (Fin 17)) :=
  (List.finRange 17).map (fun c => .apply c .enableReading) ++
    (List.finRange 17).map (fun c => .notify c.val)

private def crowdedFd (c : Fin 17) : ℤ := c.val

private theorem crowdedFd_injective : Function.Injective crowdedFd :=
  Nat.cast_injective.comp Fin.val_injective

theorem poll_reports_crowded : ∃ s t : Polling (Fin 17),
    s.step (.poll fun _ => EPOLLIN) = some t ∧ t.activeChannels_.Nodup ∧
      t.activeChannels_.length ≤ 16 := by
  have hrun : (Lts.exec step (init crowdedFd) crowdedRun).any (fun s =>
      s.events_.length = 16) = true := by decide +kernel
  obtain ⟨s, hs, hlen⟩ := Lts.exec_of_any hrun
  obtain ⟨t, hst, hnodup, -, -, hle, -⟩ := poll_reports crowdedFd_injective hs fun _ => EPOLLIN
  exact ⟨s, t, hst, hnodup, hle.trans_eq (of_decide_eq_true hlen)⟩

/-! ### How large `events_` gets -/

/-- A poll in which `epoll_wait` does not fail. -/
def Label.isPoll : Label P → Bool
  | .poll _ => true
  | _ => false

/-- How many polls there are in a sequence of steps. -/
def polls (ls : List (Label P)) : ℕ := ls.countP Label.isPoll

/-- At most `N` fds are watched. -/
def Watches (N : ℕ) (s : Polling P) (_ : Label P) : Prop :=
  {k | s.registry.poller.epollfd_ k ≠ none}.encard ≤ N

omit [DecidableEq P] in
theorem length_reports_le {N : ℕ} (h : s.Sound fd) (hN : s.Watches N a) :
    (s.reports status).length ≤ N := by
  have hsub : ((s.collected status).toFinset : Set ℤ) ⊆
      {k | s.registry.poller.epollfd_ k ≠ none} := by
    intro k hk
    have hmem : k ∈ s.collected status := List.mem_toFinset.1 hk
    exact h.listed k (Rotation.scan_sublist.subset (List.mem_append_left _ hmem))
  have hnodup : (s.collected status).Nodup :=
    List.Nodup.of_append_left (h.nodup.sublist Rotation.scan_sublist)
  have hcard := (Set.encard_le_encard hsub).trans hN
  rw [Set.encard_coe_eq_coe_finsetCard, List.toFinset_card_of_nodup hnodup, Nat.cast_le] at hcard
  rwa [← List.length_map (f := fun e => fd e.ptr), fds_reports h]

theorem length_step (hst : s.step a = some t) :
    t.events_.length = s.events_.length ∨ ∃ status, a = .poll status ∧
      (s.reports status).length = s.events_.length ∧
      t.events_.length = s.events_.length * 2 := by
  cases a with
  | poll status =>
    obtain ⟨events_, hstep, hlen⟩ := poll_step s status
    obtain rfl := Option.some.inj (hstep.symm.trans hst)
    split_ifs at hlen with hfull
    · exact Or.inr ⟨status, rfl, hfull, hlen⟩
    · exact Or.inl hlen
  | apply c call | notify k | pollFails =>
    cases hst
    exact Or.inl rfl

theorem length_run (h : Lts.exec step s ls = some t) :
    ∃ k ≤ polls ls, t.events_.length = s.events_.length * 2 ^ k := by
  induction ls generalizing s with
  | nil =>
    cases h
    exact ⟨0, le_rfl, (Nat.mul_one _).symm⟩
  | cons a ls ih =>
    obtain ⟨u, hu, hut⟩ := Lts.exec_cons_iff.1 h
    obtain ⟨k, hk, hlen⟩ := ih hut
    rcases length_step hu with hsame | ⟨status, rfl, -, hdouble⟩
    · refine ⟨k, hk.trans ?_, by rw [hlen, hsame]⟩
      rw [polls, polls, List.countP_cons]
      exact Nat.le_add_right _ _
    · refine ⟨k + 1, ?_, ?_⟩
      · rw [polls, List.countP_cons_of_pos rfl]
        exact Nat.succ_le_succ hk
      · rw [hlen, hdouble, pow_succ', mul_assoc]

/-- **The size of `events_`.**  In every run it is a power of two times the initial size, with not
more doublings than polls; and where never more than `N` fds are watched it has never more than
`2 * N` elements, or the initial ones. -/
theorem events_size (hfd : Function.Injective fd) (h : Lts.exec step (init fd) ls = some s) :
    (∃ k ≤ polls ls, s.events_.length = kInitEventListSize * 2 ^ k) ∧
      ∀ N, Lts.Along step (Watches N) (init fd) ls →
        s.events_.length ≤ max kInitEventListSize (2 * N) := by
  constructor
  · obtain ⟨k, hk, hlen⟩ := length_run h
    exact ⟨k, hk, hlen.trans (congrArg (· * 2 ^ k) List.length_replicate)⟩
  · intro N hN
    refine (Lts.exec_inv (I := fun s : Polling P => s.Sound fd ∧
      s.events_.length ≤ max kInitEventListSize (2 * N)) (fun s a t hs hw hst => ?_)
      ⟨sound_init hfd, ?_⟩ hN h).2
    · refine ⟨sound_step hs.1 hst, ?_⟩
      rcases length_step hst with hsame | ⟨status, -, hfull, hdouble⟩
      · exact hsame.trans_le hs.2
      · have hle : (s.reports status).length ≤ N := length_reports_le hs.1 hw
        omega
    · exact (List.length_replicate).trans_le (le_max_left _ _)

theorem events_size_crowded : ∃ s : Polling (Fin 17),
    Lts.exec step (init crowdedFd) (crowdedRun ++ [.poll fun _ => EPOLLIN]) = some s ∧
      s.events_.length = 32 ∧ s.events_.length ≤ max kInitEventListSize (2 * 17) := by
  have hrun : (Lts.exec step (init crowdedFd) (crowdedRun ++ [.poll fun _ => EPOLLIN])).any
      (fun s => s.events_.length = 32) = true := by decide +kernel
  obtain ⟨s, hs, hlen⟩ := Lts.exec_of_any hrun
  have hwatches : ∀ (s : Polling (Fin 17)) a, s.Sound crowdedFd → s.Watches 17 a := by
    intro s a hs
    refine (Set.encard_le_encard (t := Set.range crowdedFd) fun k hk => hs.owned k hk).trans ?_
    rw [← Set.image_univ]
    refine (Set.encard_image_le _ _).trans ?_
    simp
  have halong :
      Lts.Along step (Watches 17) (init crowdedFd) (crowdedRun ++ [.poll fun _ => EPOLLIN]) :=
    (Lts.along_iff (Q := fun _ _ => True) (fun s a t hs _ hst => sound_step hs hst)
      (fun s a hs => iff_true_intro (hwatches s a hs)) (sound_init crowdedFd_injective)).2
      (Lts.along_of_forall fun _ _ => trivial)
  exact ⟨s, hs, of_decide_eq_true hlen, (events_size crowdedFd_injective hs).2 17 halong⟩

/-! ### How long a channel waits -/

/-- What a poll puts into `activeChannels_`. -/
def shown (s : Polling P) (a : Label P) : List P :=
  if a.isPoll then (s.step a).elim [] activeChannels_ else []

/-- No call takes the fd of `c` out of the set, and at every poll something holds that `c` waits
for. -/
def Stays (c : P) (s : Polling P) : Label P → Prop
  | .apply d call => (s.registry.apply d call).poller.epollfd_ (s.registry.chan c).fd_ ≠ none
  | .poll status => s.due status c ≠ 0
  | .notify _ | .pollFails => True

instance (c : P) (s : Polling P) : DecidablePred (Stays c s)
  | .apply d call => inferInstanceAs (Decidable
      ((s.registry.apply d call).poller.epollfd_ (s.registry.chan c).fd_ ≠ none))
  | .poll status => inferInstanceAs (Decidable (s.due status c ≠ 0))
  | .notify _ | .pollFails => isTrue trivial

/-- A step in which `c` is not reported: a poll that was full has brought it forward. -/
theorem within_step {p : ℕ} (h : s.Sound fd) (hw : Rotation.Within (fd c) p s.ready)
    (hstays : s.Stays c a) (hst : s.step a = some t) :
    c ∈ s.shown a ∨ ∃ q, Rotation.Within (fd c) q t.ready ∧
      q + t.events_.length ≤ p + s.events_.length ∧
      t.events_.length = s.events_.length * 2 ^ (if a.isPoll then 1 else 0) := by
  cases a with
  | apply d call =>
    cases hst
    have hstays : (s.registry.apply d call).poller.epollfd_ (s.registry.chan c).fd_ ≠ none := hstays
    rw [h.fds] at hstays
    exact Or.inr ⟨p, hw.filter (Option.isSome_iff_ne_none.2 hstays), le_rfl, (Nat.mul_one _).symm⟩
  | notify k =>
    cases hst
    refine Or.inr ⟨p, ?_, le_rfl, (Nat.mul_one _).symm⟩
    simp only
    split_ifs with hk
    · exact hw.append [k]
    · exact hw
  | pollFails =>
    cases hst
    exact Or.inr ⟨p, hw, le_rfl, (Nat.mul_one _).symm⟩
  | poll status =>
    have hlen : (s.reports status).length = (s.collected status).length := by
      rw [← fds_reports h, List.length_map]
    obtain ⟨events_, hstep, hgrow⟩ := poll_step s status
    have hkeep := keep_of_due h (h.listed _ hw.mem) hstays
    rcases hw.turn (n := s.events_.length) hkeep with hin | ⟨hfull, hle, hturn⟩
    · left
      rw [shown, hstep]
      exact (mem_ptrs_iff h).2 hin
    · obtain rfl := Option.some.inj (hstep.symm.trans hst)
      rw [if_pos (hlen.trans hfull)] at hgrow
      refine Or.inr ⟨p - s.events_.length, hturn, ?_, hgrow⟩
      simp only [hgrow]
      omega

theorem shown_of_within {p : ℕ} (h : s.Sound fd) (hw : Rotation.Within (fd c) p s.ready)
    (hstays : Lts.Along step (Stays c) s ls) (hst : Lts.exec step s ls = some t)
    (hn : p + s.events_.length < s.events_.length * 2 ^ polls ls) :
    c ∈ Lts.trail step shown s ls := by
  induction ls generalizing s p with
  | nil =>
    rw [polls, List.countP_nil, pow_zero, mul_one] at hn
    omega
  | cons a ls ih =>
    obtain ⟨u, hu, hut⟩ := Lts.exec_cons_iff.1 hst
    rw [Lts.trail_cons hu]
    rcases within_step h hw hstays.1 hu with hin | ⟨q, hq, hle, hlen⟩
    · exact List.mem_append_left _ hin
    · have hpow : s.events_.length * 2 ^ polls (a :: ls) = u.events_.length * 2 ^ polls ls := by
        rw [polls, List.countP_cons, Nat.add_comm, pow_add, ← mul_assoc, hlen, polls]
      rw [hpow] at hn
      exact List.mem_append_right _
        (ih (sound_step h hu) hq (hstays.2 _ hu) hut (hle.trans_lt hn))

/-- **No channel starves.**  Whatever happens to the other channels, a channel that is in the list
with `p` others before it, and stays as it is, is put into `activeChannels_` by one of the next `n`
polls if `p < events_.size() * (2 ^ n - 1)`. -/
theorem reported_in_polls {pre post : List (Label P)} (hfd : Function.Injective fd)
    (hpre : Lts.exec step (init fd) pre = some s) (hpost : Lts.exec step s post = some t)
    (hstays : Lts.Along step (Stays c) s post) {before after : List ℤ}
    (hready : s.ready = before ++ fd c :: after)
    (hn : before.length < s.events_.length * (2 ^ polls post - 1)) :
    c ∈ Lts.trail step shown s post := by
  refine shown_of_within (sound_run hfd hpre) ⟨before, after, hready, le_rfl⟩ hstays hpost ?_
  rw [Nat.mul_sub, Nat.mul_one] at hn
  omega

/-- The last one is reported by the second poll. -/
theorem reported_in_polls_crowded : ∃ s t : Polling (Fin 17),
    Lts.exec step s [.poll fun _ => EPOLLIN, .poll fun _ => EPOLLIN] = some t ∧
      16 ∈ Lts.trail step shown s [.poll fun _ => EPOLLIN, .poll fun _ => EPOLLIN] := by
  have hrun : (Lts.exec step (init crowdedFd) crowdedRun).any (fun s =>
      s.ready = (List.range 16).map Nat.cast ++ crowdedFd 16 :: [] ∧ s.events_.length = 16 ∧
        Lts.Along step (Stays 16) s [.poll fun _ => EPOLLIN, .poll fun _ => EPOLLIN] ∧
        (Lts.exec step s [.poll fun _ => EPOLLIN, .poll fun _ => EPOLLIN]).isSome = true) =
            true := by
    decide +kernel
  obtain ⟨s, hs, hp⟩ := Lts.exec_of_any hrun
  obtain ⟨hready, hlen, hstays, hpolls⟩ := of_decide_eq_true hp
  obtain ⟨t, ht⟩ := Option.isSome_iff_exists.1 hpolls
  refine ⟨s, t, ht, reported_in_polls crowdedFd_injective hs ht hstays hready ?_⟩
  rw [hlen]
  decide

end Polling

end Muduo
