import MuduoCpp.Lib.Run
import MuduoCpp.EPollPoller

/-!
# Interest and registration

A channel should be in the epoll set exactly when it is in `channels_` and somebody is interested in
its events.  `updateChannel` looks at the interest of a registered channel only: any update of
another one registers it, also when it comes from `disableReading`, `disableWriting` or
`disableAll`.

* `Registry.Law`, the law for one state, and `Registry.Meets`, what a call should do for it;
* `registered_law_iff`: every call of a run meets the law exactly when none of the three disabling
  calls is made on a channel that is not registered.
-/

namespace Muduo

variable {P : Type}

/-- The setter of a call; `remove` changes no events. -/
def ChannelCall.set : ChannelCall → Channel → Channel
  | .enableReading => Channel.enableReading
  | .disableReading => Channel.disableReading
  | .enableWriting => Channel.enableWriting
  | .disableWriting => Channel.disableWriting
  | .disableAll => Channel.disableAll
  | .remove => id

/-- A call that takes interest away. -/
def ChannelCall.disables : ChannelCall → Bool
  | .disableReading | .disableWriting | .disableAll => true
  | .enableReading | .enableWriting | .remove => false

namespace Registry

/-- The epoll set holds the fds of the channels in `channels_` with a non-zero `events()`. -/
def Law (s : Registry P) : Prop :=
  ∀ fd, s.poller.epollfd_ fd ≠ none ↔
    ∃ c, s.poller.channels_ fd = some c ∧ (s.chan c).events_ ≠ 0

variable [DecidableEq P]

/-- A call is always possible. -/
def step (s : Registry P) (call : P × ChannelCall) : Option (Registry P) :=
  some (s.apply call.1 call.2)

/-- The call leads to a lawful state; if it disables something it adds no fd to the epoll set; and a
`disableAll` of a channel that has no interest left, as after a first one, changes neither its
index nor the epoll set. -/
structure Meets (s : Registry P) (call : P × ChannelCall) : Prop where
  law : (s.apply call.1 call.2).Law
  adds_none : call.2.disables = true → ∀ fd,
    (s.apply call.1 call.2).poller.epollfd_ fd ≠ none → s.poller.epollfd_ fd ≠ none
  idempotent : call.2 = .disableAll → (s.chan call.1).events_ = 0 →
    ((s.apply call.1 call.2).chan call.1).index_ = (s.chan call.1).index_ ∧
      (s.apply call.1 call.2).poller.epollfd_ = s.poller.epollfd_

/-- A disabling call is made on a registered channel. -/
def DisablesAdded (s : Registry P) (call : P × ChannelCall) : Prop :=
  call.2.disables = true → (s.chan call.1).index_ = .kAdded

instance (s : Registry P) : DecidablePred (DisablesAdded s) := fun call =>
  inferInstanceAs (Decidable (call.2.disables = true → (s.chan call.1).index_ = .kAdded))

/-! ### One call -/

theorem apply_eq_update (s : Registry P) (c : P) {call : ChannelCall} (hcall : call ≠ .remove) :
    s.apply c call = s.update c (call.set (s.chan c)) := by
  cases call with
  | remove => exact absurd rfl hcall
  | _ => rfl

omit [DecidableEq P] in
@[simp] theorem set_index (call : ChannelCall) (channel : Channel) :
    (call.set channel).index_ = channel.index_ := by
  cases call <;> rfl

theorem update_index (s : Registry P) (c : P) (channel : Channel) :
    ((s.update c channel).chan c).index_ =
      if channel.index_ = .kAdded ∧ channel.events_ = 0 then .kDeleted else .kAdded := by
  simp [update, EPollPoller.updateChannel_index]

theorem update_events (s : Registry P) (c : P) (channel : Channel) :
    ((s.update c channel).chan c).events_ = channel.events_ := by
  simp [update]

/-- Enabling leaves an interest. -/
theorem set_events_ne_zero {call : ChannelCall} (hcall : call.disables = false)
    (hremove : call ≠ .remove) (channel : Channel) : (call.set channel).events_ ≠ 0 := by
  cases call with
  | enableReading => exact Channel.events_ne_zero_of_isReading channel.isReading_enableReading
  | enableWriting => exact Mask.ne_zero_of_has channel.isWriting_enableWriting
  | remove => exact absurd rfl hremove
  | disableReading | disableWriting | disableAll => cases hcall

/-- The three records agree, nothing is recorded for an fd without a channel, and a registered
channel has an interest. -/
structure Lawful (s : Registry P) : Prop where
  consistent : s.Consistent
  outside : ∀ fd, (∀ c, (s.chan c).fd_ ≠ fd) →
    s.poller.channels_ fd = none ∧ s.poller.epollfd_ fd = none
  interested : ∀ c, (s.chan c).index_ = .kAdded → (s.chan c).events_ ≠ 0

omit [DecidableEq P] in
theorem lawful_init {fd : P → ℤ} (hfd : Function.Injective fd) : (init fd).Lawful where
  consistent := consistent_init hfd
  outside _ _ := ⟨rfl, rfl⟩
  interested _ h := nomatch h

omit [DecidableEq P] in
theorem Lawful.law {s : Registry P} (h : s.Lawful) : s.Law := by
  intro fd
  by_cases hfd : ∃ c, (s.chan c).fd_ = fd
  · obtain ⟨c, rfl⟩ := hfd
    have hc := h.consistent.holds c
    have hint := h.interested c
    unfold EPollPoller.Holds at hc
    cases hi : (s.chan c).index_ with
    | kNew =>
      rw [hi] at hc
      simp [hc.1, hc.2]
    | kAdded =>
      rw [hi] at hc
      simpa [hc.1, hc.2] using hint hi
    | kDeleted =>
      rw [hi] at hc
      simp [hc.1, hc.2.1, hc.2.2]
  · obtain ⟨hchan, hepoll⟩ := h.outside fd (not_exists.1 hfd)
    simp [hchan, hepoll]

omit [DecidableEq P] in
/-- A channel is in the epoll set exactly when its index says so. -/
theorem Consistent.epoll_ne_none_iff {s : Registry P} (h : s.Consistent) (c : P) :
    s.poller.epollfd_ (s.chan c).fd_ ≠ none ↔ (s.chan c).index_ = .kAdded := by
  have hc := h.holds c
  unfold EPollPoller.Holds at hc
  cases hi : (s.chan c).index_ with
  | kNew =>
    rw [hi] at hc
    simp [hc.2]
  | kAdded =>
    rw [hi] at hc
    simp [hc.2]
  | kDeleted =>
    rw [hi] at hc
    simp [hc.2.1]

theorem lawful_apply {s : Registry P} (h : s.Lawful) {c : P} {call : ChannelCall}
    (hcall : s.DisablesAdded (c, call)) : (s.apply c call).Lawful := by
  obtain ⟨hsame, hframe⟩ := apply_frame h.consistent c call
  refine ⟨consistent_apply h.consistent c call, ?_, ?_⟩
  · intro fd hfd
    have hfd' : ∀ d, (s.chan d).fd_ ≠ fd := fun d => by
      rw [← apply_fd s c d call]
      exact hfd d
    obtain ⟨hchan, hepoll⟩ := hsame.2 fd (hfd' c).symm
    rw [hchan, hepoll]
    exact h.outside fd hfd'
  · intro d
    by_cases hd : d = c
    · subst hd
      by_cases hremove : call = .remove
      · subst hremove
        simp [apply]
      · rw [apply_eq_update s d hremove, update_index, update_events, set_index]
        cases hdis : call.disables with
        | false => exact fun _ => set_events_ne_zero hdis hremove _
        | true =>
          intro hindex hzero
          rw [if_pos ⟨hcall hdis, hzero⟩] at hindex
          cases hindex
    · rw [hframe d hd]
      exact h.interested d

/-- A disabling call on a channel that is not registered registers it. -/
theorem index_of_disables {s : Registry P} {c : P} {call : ChannelCall}
    (hdis : call.disables = true) (hindex : (s.chan c).index_ ≠ .kAdded) :
    ((s.apply c call).chan c).index_ = .kAdded := by
  have hremove : call ≠ .remove := by
    rintro rfl
    cases hdis
  rw [apply_eq_update s c hremove, update_index, set_index, if_neg fun hc => hindex hc.1]

theorem meets_iff {s : Registry P} (h : s.Lawful) (call : P × ChannelCall) :
    s.Meets call ↔ s.DisablesAdded call := by
  obtain ⟨c, call⟩ := call
  constructor
  · intro hmeets hdis
    by_contra hindex
    -- the fd of the channel is new in the epoll set
    have hnone := mt (h.consistent.epoll_ne_none_iff c).1 hindex
    refine hnone (hmeets.adds_none hdis _ ?_)
    rw [← apply_fd s c c call]
    exact ((consistent_apply h.consistent c call).epoll_ne_none_iff c).2
      (index_of_disables hdis hindex)
  · intro hcall
    refine ⟨(lawful_apply h hcall).law, ?_, ?_⟩
    · intro hdis fd hfd
      by_cases hc : fd = (s.chan c).fd_
      · rw [hc]
        exact (h.consistent.epoll_ne_none_iff c).2 (hcall hdis)
      · rwa [((apply_frame h.consistent c call).1.2 fd hc).2] at hfd
    · rintro rfl hzero
      exact absurd hzero (h.interested c (hcall rfl))

/-- The second of two calls `disableAll` undoes what the first did to the index. -/
theorem index_disableAll_twice (s : Registry P) (c : P) :
    (((s.apply c .disableAll).apply c .disableAll).chan c).index_ ≠
      ((s.apply c .disableAll).chan c).index_ := by
  have hindex : ∀ s : Registry P, ((s.apply c .disableAll).chan c).index_ =
      if (s.chan c).index_ = .kAdded then .kDeleted else .kAdded := by
    intro s
    rw [apply_eq_update s c (by decide), update_index]
    simp [ChannelCall.set, Channel.disableAll, Channel.kNoneEvent]
  rw [hindex (s.apply c .disableAll), hindex s]
  split_ifs <;> simp_all

end Registry

/-- **Interest and registration.**  Along every sequence of calls on channels with distinct fds,
each call meets the law exactly when every `disableReading`, `disableWriting` and `disableAll` is
made on a registered channel; and two calls `disableAll` in a row never leave the index as it was
after the first. -/
theorem registered_law_iff [DecidableEq P] {fd : P → ℤ} (hfd : Function.Injective fd)
    (calls : List (P × ChannelCall)) :
    (Lts.Along Registry.step Registry.Meets (Registry.init fd) calls ↔
      Lts.Along Registry.step Registry.DisablesAdded (Registry.init fd) calls) ∧
    ∀ s c, Lts.exec Registry.step (Registry.init fd) calls = some s →
      (((s.apply c .disableAll).apply c .disableAll).chan c).index_ ≠
        ((s.apply c .disableAll).chan c).index_ := by
  refine ⟨Lts.along_iff (I := Registry.Lawful) ?_ ?_ (Registry.lawful_init hfd), ?_⟩
  · rintro s ⟨c, call⟩ t h hcall hst
    obtain rfl := Option.some.inj hst
    exact Registry.lawful_apply h hcall
  · intro s call h
    exact Registry.meets_iff h call
  · intro s c _
    exact Registry.index_disableAll_twice s c

/-- A channel in use, as a connection uses its own. -/
theorem registered_law_iff_used :
    Lts.Along Registry.step Registry.Meets (Registry.init fun b : Bool => cond b 5 7)
      [(true, .enableReading), (true, .enableWriting), (false, .enableReading),
        (true, .disableWriting), (true, .disableAll), (true, .remove)] := by
  have hfd : Function.Injective fun b : Bool => cond b (5 : ℤ) 7 := by decide
  exact (registered_law_iff hfd _).1.2 (by decide)

/-- An acceptor destroyed before it listens: `disableAll` on its new channel puts the fd into the
epoll set with no events, and a second one takes it out again. -/
theorem disableAll_adds :
    let s := (Registry.init fun _ : Unit => 3).apply () .disableAll
    s.poller.epollfd_ 3 = some ⟨0, ()⟩ ∧ (s.chan ()).events_ = 0 ∧
      (s.apply () .disableAll).poller.epollfd_ 3 = none ∧
      ¬ Lts.Along Registry.step Registry.Meets (Registry.init fun _ : Unit => 3)
        [((), .disableAll)] := by
  refine ⟨by decide, by decide, by decide, ?_⟩
  intro hmeets
  exact hmeets.1.adds_none rfl 3 (by decide) (by decide)

end Muduo
