import MuduoCpp.Channel

/-!
# `src/EPollPoller.cc`: three copies of one fact

That a channel is registered is recorded three times: in its `index_`, in the poller's map
`channels_` and in the kernel's epoll set.  `P` is the type of `Channel *`.

The kernel is `epoll_ctl`: it refuses to add an fd that is in the set and to change or delete one
that is not, and succeeds otherwise.  A refused call is logged in `failed`; for `ADD` and `MOD` the
source then calls `LOG_FATAL`, which ends the process.

* `updateChannel`, `removeChannel`: the two functions of the poller;
* `Registry`: a poller with its channels, and the calls `enableReading`, …, `remove` on them;
* `Registry.Consistent`: the three copies agree; kept by every call (`consistent_apply`);
* `poller_bookkeeping`: what this means after any sequence of calls.
-/

namespace Muduo

variable {P : Type}

/-! ### The kernel -/

/-- The operations of `epoll_ctl`. -/
inductive EpollOp
  | EPOLL_CTL_ADD
  | EPOLL_CTL_MOD
  | EPOLL_CTL_DEL
  deriving DecidableEq, Repr

/-- The errors of `epoll_ctl` that depend on what the set holds. -/
inductive EpollErrno
  | EEXIST
  | ENOENT
  deriving DecidableEq, Repr

/-- `epoll_event`: the mask and `data.ptr`. -/
structure EpollEvent (P : Type) where
  events : Events
  ptr : P
  deriving DecidableEq, Repr

/-- The fds an epoll instance watches. -/
abbrev EpollSet (P : Type) := ℤ → Option (EpollEvent P)

/-- `epoll_ctl`: `ADD` needs an fd that is not in the set, `MOD` and `DEL` one that is. -/
def epoll_ctl (set : EpollSet P) (op : EpollOp) (fd : ℤ) (event : EpollEvent P) :
    Except EpollErrno (EpollSet P) :=
  match op, set fd with
  | .EPOLL_CTL_ADD, none => .ok (Function.update set fd (some event))
  | .EPOLL_CTL_ADD, some _ => .error .EEXIST
  | .EPOLL_CTL_MOD, some _ => .ok (Function.update set fd (some event))
  | .EPOLL_CTL_DEL, some _ => .ok (Function.update set fd none)
  | .EPOLL_CTL_MOD, none | .EPOLL_CTL_DEL, none => .error .ENOENT

/-! ### The poller -/

/-- `EPollPoller`, with the kernel calls that failed. -/
structure EPollPoller (P : Type) where
  channels_ : ℤ → Option P
  /-- The set behind `epollfd_`. -/
  epollfd_ : EpollSet P
  failed : List (EpollOp × EpollErrno)

namespace EPollPoller

/-- A newly constructed poller. -/
def empty : EPollPoller P where
  channels_ := fun _ => none
  epollfd_ := fun _ => none
  failed := []

/-- `EPollPoller::update`: one `epoll_ctl` for the channel. -/
def update (p : EPollPoller P) (operation : EpollOp) (ptr : P) (channel : Channel) :
    EPollPoller P :=
  match epoll_ctl p.epollfd_ operation channel.fd_ ⟨channel.events_, ptr⟩ with
  | .ok set => { p with epollfd_ := set }
  | .error e => { p with failed := p.failed ++ [(operation, e)] }

/-- `EPollPoller::updateChannel`; the second component is the channel with its new `index_`. -/
def updateChannel (p : EPollPoller P) (ptr : P) (channel : Channel) : EPollPoller P × Channel :=
  if channel.index_ = .kNew ∨ channel.index_ = .kDeleted then
    let p := if channel.index_ = .kNew then
      { p with channels_ := Function.update p.channels_ channel.fd_ (some ptr) } else p
    let channel := { channel with index_ := .kAdded }
    (p.update .EPOLL_CTL_ADD ptr channel, channel)
  else if channel.isNoneEvent then
    (p.update .EPOLL_CTL_DEL ptr channel, { channel with index_ := .kDeleted })
  else
    (p.update .EPOLL_CTL_MOD ptr channel, channel)

/-- `EPollPoller::removeChannel`. -/
def removeChannel (p : EPollPoller P) (ptr : P) (channel : Channel) : EPollPoller P × Channel :=
  let p := { p with channels_ := Function.update p.channels_ channel.fd_ none }
  let p := if channel.index_ = .kAdded then p.update .EPOLL_CTL_DEL ptr channel else p
  (p, { channel with index_ := .kNew })

/-- What the poller and the kernel hold for one channel, as its `index_` says. -/
def Holds (p : EPollPoller P) (ptr : P) (channel : Channel) : Prop :=
  match channel.index_ with
  | .kNew => p.channels_ channel.fd_ = none ∧ p.epollfd_ channel.fd_ = none
  | .kAdded => p.channels_ channel.fd_ = some ptr ∧
      p.epollfd_ channel.fd_ = some ⟨channel.events_, ptr⟩
  | .kDeleted => p.channels_ channel.fd_ = some ptr ∧ p.epollfd_ channel.fd_ = none ∧
      channel.events_ = 0

/-- `p'` differs from `p` at `fd` at most, and no kernel call failed on the way. -/
def SameElsewhere (p p' : EPollPoller P) (fd : ℤ) : Prop :=
  p'.failed = p.failed ∧
    ∀ k, k ≠ fd → p'.channels_ k = p.channels_ k ∧ p'.epollfd_ k = p.epollfd_ k

variable {p : EPollPoller P} {ptr : P} {old channel : Channel}

/-- A call on the fd of a channel does not disturb what is held for a channel with another fd. -/
theorem Holds.elsewhere {p' : EPollPoller P} (h : p.Holds ptr old) {fd : ℤ}
    (hp : SameElsewhere p p' fd) (hfd : old.fd_ ≠ fd) : p'.Holds ptr old := by
  obtain ⟨hc, he⟩ := hp.2 _ hfd
  unfold Holds at h ⊢
  rwa [hc, he]

/-! ### The two functions -/

@[simp] theorem updateChannel_fd : (p.updateChannel ptr channel).2.fd_ = channel.fd_ := by
  unfold updateChannel
  split_ifs <;> rfl

@[simp] theorem updateChannel_events :
    (p.updateChannel ptr channel).2.events_ = channel.events_ := by
  unfold updateChannel
  split_ifs <;> rfl

@[simp] theorem removeChannel_index : (p.removeChannel ptr channel).2.index_ = .kNew := rfl
@[simp] theorem removeChannel_fd : (p.removeChannel ptr channel).2.fd_ = channel.fd_ := rfl
@[simp] theorem removeChannel_events :
    (p.removeChannel ptr channel).2.events_ = channel.events_ := rfl

/-- `index_` after `updateChannel`: an unregistered channel becomes registered whatever its
events, a registered one is taken out of the set when it has none. -/
theorem updateChannel_index :
    (p.updateChannel ptr channel).2.index_ =
      if channel.index_ = .kAdded ∧ channel.events_ = 0 then .kDeleted else .kAdded := by
  have hnone := channel.isNoneEvent_iff
  cases hi : channel.index_ with
  | kNew => simp [updateChannel, hi]
  | kDeleted => simp [updateChannel, hi]
  | kAdded =>
    by_cases he : channel.events_ = 0
    · simp [updateChannel, hi, he, hnone.2 he]
    · rw [if_neg fun h => he h.2]
      simp [updateChannel, hi, mt hnone.1 he]

/-- `updateChannel` on a channel whose events were just changed. -/
theorem holds_updateChannel (h : p.Holds ptr old) (hfd : channel.fd_ = old.fd_)
    (hidx : channel.index_ = old.index_) :
    (p.updateChannel ptr channel).1.Holds ptr (p.updateChannel ptr channel).2 ∧
      SameElsewhere p (p.updateChannel ptr channel).1 channel.fd_ := by
  rw [Holds, ← hfd, ← hidx] at h
  cases hi : channel.index_ with
  | kNew =>
    rw [hi] at h
    obtain ⟨hc, he⟩ := h
    simp only [updateChannel, hi, true_or, if_true, update, epoll_ctl, he, Holds, SameElsewhere]
    refine ⟨⟨by simp, by simp⟩, trivial, fun k hk => ?_⟩
    simp [Function.update_of_ne hk]
  | kAdded =>
    rw [hi] at h
    obtain ⟨hc, he⟩ := h
    by_cases hnone : channel.events_ = 0
    · have hn := channel.isNoneEvent_iff.2 hnone
      simp only [updateChannel, hi, reduceCtorEq, or_self, if_false, hn, if_true, update,
        epoll_ctl, he, Holds, SameElsewhere]
      refine ⟨⟨hc, by simp, hnone⟩, trivial, fun k hk => ?_⟩
      simp [Function.update_of_ne hk]
    · have hn : ¬ channel.isNoneEvent = true := fun hn => hnone (channel.isNoneEvent_iff.1 hn)
      simp only [updateChannel, hi, reduceCtorEq, or_self, if_false, hn, update, epoll_ctl, he,
        Holds, SameElsewhere]
      refine ⟨⟨hc, by simp⟩, trivial, fun k hk => ?_⟩
      simp [Function.update_of_ne hk]
  | kDeleted =>
    rw [hi] at h
    obtain ⟨hc, he, -⟩ := h
    simp only [updateChannel, hi, or_true, if_true, reduceCtorEq, if_false, update, epoll_ctl, he,
      Holds, SameElsewhere]
    refine ⟨⟨hc, by simp⟩, trivial, fun k hk => ?_⟩
    simp [Function.update_of_ne hk]

/-- `removeChannel` forgets the channel in all three places. -/
theorem holds_removeChannel (h : p.Holds ptr channel) :
    (p.removeChannel ptr channel).1.Holds ptr (p.removeChannel ptr channel).2 ∧
      SameElsewhere p (p.removeChannel ptr channel).1 channel.fd_ := by
  rw [Holds] at h
  cases hi : channel.index_ with
  | kNew =>
    rw [hi] at h
    simp only [removeChannel, hi, reduceCtorEq, if_false, Holds, SameElsewhere]
    refine ⟨⟨by simp, h.2⟩, trivial, fun k hk => ?_⟩
    simp [Function.update_of_ne hk]
  | kAdded =>
    rw [hi] at h
    obtain ⟨hc, he⟩ := h
    simp only [removeChannel, hi, if_true, update, epoll_ctl, he, Holds, SameElsewhere]
    refine ⟨⟨by simp, by simp⟩, trivial, fun k hk => ?_⟩
    simp [Function.update_of_ne hk]
  | kDeleted =>
    rw [hi] at h
    simp only [removeChannel, hi, reduceCtorEq, if_false, Holds, SameElsewhere]
    refine ⟨⟨by simp, h.2.1⟩, trivial, fun k hk => ?_⟩
    simp [Function.update_of_ne hk]

end EPollPoller

/-! ### A poller with its channels -/

/-- The public calls of a channel that reach the poller. -/
inductive ChannelCall
  | enableReading
  | disableReading
  | enableWriting
  | disableWriting
  | disableAll
  | remove
  deriving DecidableEq, Repr

/-- A poller with the channels of its loop. -/
structure Registry (P : Type) where
  poller : EPollPoller P
  chan : P → Channel

namespace Registry

variable [DecidableEq P]

/-- `Channel::update()` with the new events of the channel. -/
def update (s : Registry P) (c : P) (channel : Channel) : Registry P :=
  let r := s.poller.updateChannel c channel
  { poller := r.1, chan := Function.update s.chan c r.2 }

/-- A call on the channel `c`. -/
def apply (s : Registry P) (c : P) : ChannelCall → Registry P
  | .enableReading => s.update c (s.chan c).enableReading
  | .disableReading => s.update c (s.chan c).disableReading
  | .enableWriting => s.update c (s.chan c).enableWriting
  | .disableWriting => s.update c (s.chan c).disableWriting
  | .disableAll => s.update c (s.chan c).disableAll
  | .remove =>
      let r := s.poller.removeChannel c (s.chan c)
      { poller := r.1, chan := Function.update s.chan c r.2 }

/-- A sequence of calls. -/
def run (s : Registry P) (calls : List (P × ChannelCall)) : Registry P :=
  calls.foldl (fun s call => s.apply call.1 call.2) s

/-- Channels with pairwise distinct fds, each held by the poller as its `index_` says, and no
kernel call has failed. -/
structure Consistent (s : Registry P) : Prop where
  fd_inj : Function.Injective fun c => (s.chan c).fd_
  holds : ∀ c, s.poller.Holds c (s.chan c)
  failed : s.poller.failed = []

/-- Nothing is registered yet and the channels are as constructed. -/
def init (fd : P → ℤ) : Registry P := ⟨.empty, fun c => .ofFd (fd c)⟩

omit [DecidableEq P] in
theorem consistent_init {fd : P → ℤ} (hfd : Function.Injective fd) : (init fd).Consistent where
  fd_inj := hfd
  holds _ := ⟨rfl, rfl⟩
  failed := rfl

/-- Replacing one channel and what the poller holds for it. -/
theorem consistent_replace {s : Registry P} (h : s.Consistent) {c : P} {p : EPollPoller P}
    {channel : Channel} (hfd : channel.fd_ = (s.chan c).fd_) (hc : p.Holds c channel)
    (hp : EPollPoller.SameElsewhere s.poller p (s.chan c).fd_) :
    (⟨p, Function.update s.chan c channel⟩ : Registry P).Consistent := by
  have hfds : ∀ d, (Function.update s.chan c channel d).fd_ = (s.chan d).fd_ := by
    intro d
    by_cases hd : d = c
    · subst hd
      rw [Function.update_self, hfd]
    · rw [Function.update_of_ne hd]
  refine ⟨fun d e hde => h.fd_inj (by simpa [hfds] using hde), fun d => ?_, hp.1.trans h.failed⟩
  by_cases hd : d = c
  · subst hd
    simpa using hc
  · show p.Holds d (Function.update s.chan c channel d)
    rw [Function.update_of_ne hd]
    exact (h.holds d).elsewhere hp fun he => hd (h.fd_inj he)

theorem consistent_update {s : Registry P} (h : s.Consistent) (c : P) {channel : Channel}
    (hfd : channel.fd_ = (s.chan c).fd_) (hidx : channel.index_ = (s.chan c).index_) :
    (s.update c channel).Consistent := by
  obtain ⟨hc, hp⟩ := EPollPoller.holds_updateChannel (h.holds c) hfd hidx
  rw [hfd] at hp
  exact consistent_replace h (by rw [EPollPoller.updateChannel_fd, hfd]) hc hp

theorem consistent_apply {s : Registry P} (h : s.Consistent) (c : P) (call : ChannelCall) :
    (s.apply c call).Consistent := by
  cases call with
  | remove =>
    obtain ⟨hc, hp⟩ := EPollPoller.holds_removeChannel (h.holds c)
    exact consistent_replace h rfl hc hp
  | _ =>
    refine consistent_update h c ?_ ?_
    all_goals rfl

/-- A call on `c` changes `c` and the entries of its fd only. -/
theorem apply_frame {s : Registry P} (h : s.Consistent) (c : P) (call : ChannelCall) :
    EPollPoller.SameElsewhere s.poller (s.apply c call).poller (s.chan c).fd_ ∧
      ∀ d, d ≠ c → (s.apply c call).chan d = s.chan d := by
  constructor
  · cases call with
    | remove => exact (EPollPoller.holds_removeChannel (h.holds c)).2
    | _ =>
      refine (EPollPoller.holds_updateChannel (h.holds c) ?_ ?_).2
      all_goals rfl
  · intro d hd
    cases call <;> exact Function.update_of_ne hd _ _

theorem apply_fd (s : Registry P) (c d : P) (call : ChannelCall) :
    ((s.apply c call).chan d).fd_ = (s.chan d).fd_ := by
  by_cases hd : d = c
  · subst hd
    cases call <;> simp [apply, update, Channel.enableReading, Channel.disableReading,
      Channel.enableWriting, Channel.disableWriting, Channel.disableAll]
  · cases call <;> simp [apply, update, Function.update_of_ne hd]

theorem run_fd (s : Registry P) (d : P) (calls : List (P × ChannelCall)) :
    ((s.run calls).chan d).fd_ = (s.chan d).fd_ := by
  induction calls generalizing s with
  | nil => rfl
  | cons call calls ih => exact (ih _).trans (apply_fd s call.1 d call.2)

theorem consistent_run {s : Registry P} (h : s.Consistent) (calls : List (P × ChannelCall)) :
    (s.run calls).Consistent := by
  induction calls generalizing s with
  | nil => exact h
  | cons call calls ih => exact ih (consistent_apply h call.1 call.2)

end Registry

/-- After any calls on channels with pairwise distinct fds the three records agree, no `epoll_ctl`
has failed, and one more call on `c` leaves every other channel and its registration alone. -/
theorem poller_bookkeeping [DecidableEq P] {fd : P → ℤ} (hfd : Function.Injective fd)
    (calls : List (P × ChannelCall)) :
    let s := (Registry.init fd).run calls
    (∀ c,
      ((s.chan c).index_ = .kNew ↔
        s.poller.channels_ (fd c) = none ∧ s.poller.epollfd_ (fd c) = none) ∧
      ((s.chan c).index_ = .kAdded ↔
        s.poller.channels_ (fd c) = some c ∧
          s.poller.epollfd_ (fd c) = some ⟨(s.chan c).events_, c⟩) ∧
      ((s.chan c).index_ = .kDeleted ↔
        s.poller.channels_ (fd c) = some c ∧ s.poller.epollfd_ (fd c) = none ∧
          (s.chan c).events_ = 0)) ∧
    s.poller.failed = [] ∧
    ∀ c call d, d ≠ c →
      (s.apply c call).chan d = s.chan d ∧
        (s.apply c call).poller.channels_ (fd d) = s.poller.channels_ (fd d) ∧
        (s.apply c call).poller.epollfd_ (fd d) = s.poller.epollfd_ (fd d) := by
  intro s
  have h : s.Consistent := Registry.consistent_run (Registry.consistent_init hfd) calls
  have hfds : ∀ c, (s.chan c).fd_ = fd c := fun c => Registry.run_fd _ c calls
  refine ⟨fun c => ?_, h.failed, fun c call d hd => ?_⟩
  · have hc := h.holds c
    rw [EPollPoller.Holds, hfds] at hc
    cases hi : (s.chan c).index_ <;> rw [hi] at hc
    · simp [hc]
    · simp [hc]
    · simp [hc]
  · obtain ⟨hp, hchan⟩ := Registry.apply_frame h c call
    obtain ⟨h1, h2⟩ := hp.2 (fd d) fun he => hd (h.fd_inj ((hfds d).trans he))
    exact ⟨hchan d hd, h1, h2⟩

/-- Two channels; one is disabled, removed and registered again. -/
theorem poller_bookkeeping_pair :
    let s := (Registry.init fun b : Bool => cond b 5 7).run
      [(true, .enableReading), (false, .enableReading), (true, .disableAll), (true, .remove),
        (true, .enableWriting)]
    s.poller.failed = [] ∧ (s.chan true).index_ = .kAdded ∧
      s.poller.epollfd_ 5 = some ⟨EPOLLOUT, true⟩ := by
  have hfd : Function.Injective fun b : Bool => cond b (5 : ℤ) 7 := by decide
  exact ⟨(poller_bookkeeping hfd _).2.1, by decide, by decide⟩

end Muduo
