import MuduoCpp.EPollPoller
import MuduoCpp.ConnectionEffects

/-!
# A connection and the poller

What the calls of `Channel::update()` and `Channel::remove()` among the effects of a function do to
the poller and to `index_`.  `P` is the type of `Channel *`.

* `holds_of_updates`: after a function of the connection the poller's records of its channel agree
  with `index_`, if they did before, and those of other fds are as they were.
-/

namespace Muduo

variable {P β : Type}

namespace EPollPoller

variable {p q r : EPollPoller P} {fd : ℤ}

/-- After `epoll_ctl` the set has what it had, and what was put in. -/
theorem registered_update {operation : EpollOp} {ptr d : P} {channel : Channel}
    (h : (p.update operation ptr channel).channels_ fd = some d ∨
      ∃ events, (p.update operation ptr channel).epollfd_ fd = some ⟨events, d⟩) :
    (p.channels_ fd = some d ∨ ∃ events, p.epollfd_ fd = some ⟨events, d⟩) ∨
      (d = ptr ∧ operation ≠ .EPOLL_CTL_DEL) := by
  by_cases hfd : fd = channel.fd_
  · subst hfd
    cases operation <;> cases hset : p.epollfd_ channel.fd_ <;>
      simp_all [update, epoll_ctl] <;> grind
  · cases operation <;> cases hset : p.epollfd_ channel.fd_ <;>
      simp_all [update, epoll_ctl]

/-- A channel that is put into `channels_`, or an fd that is taken out of it. -/
theorem registered_channels {k : ℤ} {o : Option P} {d : P}
    (h : Function.update p.channels_ k o fd = some d ∨
      ∃ events, p.epollfd_ fd = some ⟨events, d⟩) :
    (p.channels_ fd = some d ∨ ∃ events, p.epollfd_ fd = some ⟨events, d⟩) ∨ o = some d := by
  rcases h with h | h
  · rw [Function.update_apply] at h
    split_ifs at h
    · exact Or.inr h
    · exact Or.inl (Or.inl h)
  · exact Or.inl (Or.inr h)

theorem registered_removeChannel {ptr d : P} {channel : Channel}
    (h : (p.removeChannel ptr channel).1.channels_ fd = some d ∨
      ∃ events, (p.removeChannel ptr channel).1.epollfd_ fd = some ⟨events, d⟩) :
    p.channels_ fd = some d ∨ ∃ events, p.epollfd_ fd = some ⟨events, d⟩ := by
  have h' : Function.update p.channels_ channel.fd_ none fd = some d ∨
      ∃ events, p.epollfd_ fd = some ⟨events, d⟩ := by
    simp only [removeChannel] at h
    split_ifs at h
    · exact (registered_update h).resolve_right fun hd => hd.2 rfl
    · exact h
  exact (registered_channels h').resolve_right fun hd => by cases hd

theorem registered_updateChannel {ptr d : P} {channel : Channel}
    (h : (p.updateChannel ptr channel).1.channels_ fd = some d ∨
      ∃ events, (p.updateChannel ptr channel).1.epollfd_ fd = some ⟨events, d⟩) :
    (p.channels_ fd = some d ∨ ∃ events, p.epollfd_ fd = some ⟨events, d⟩) ∨ d = ptr := by
  simp only [updateChannel] at h
  split_ifs at h
  · rcases registered_update h with h | h
    · exact (registered_channels h).imp_right fun hd => (Option.some.inj hd).symm
    · exact Or.inr h.1
  · exact (registered_update h).imp_right And.left
  · exact (registered_update h).imp_right And.left
  · exact (registered_update h).imp_right And.left

theorem SameElsewhere.rfl : SameElsewhere p p fd := ⟨Eq.refl _, fun _ _ => ⟨Eq.refl _, Eq.refl _⟩⟩

theorem SameElsewhere.trans (h : SameElsewhere p q fd) (h' : SameElsewhere q r fd) :
    SameElsewhere p r fd := by
  refine ⟨h'.1.trans h.1, fun k hk => ?_⟩
  obtain ⟨hc, he⟩ := h.2 k hk
  obtain ⟨hc', he'⟩ := h'.2 k hk
  exact ⟨hc'.trans hc, he'.trans he⟩

end EPollPoller

namespace Effect

/-- `Channel::update()`, `Channel::remove()`. -/
def register (ptr : P) (r : EPollPoller P × Channel) : Effect β → EPollPoller P × Channel
  | .update => r.1.updateChannel ptr r.2
  | .remove => r.1.removeChannel ptr r.2
  | _ => r

variable {ptr : P} {es : List (Effect β)} {r : EPollPoller P × Channel}

/-- The poller changes nothing of the channel but `index_`. -/
theorem foldl_register (ptr : P) (es : List (Effect β)) (r : EPollPoller P × Channel) :
    ∃ i, (es.foldl (register ptr) r).2 = { r.2 with index_ := i } := by
  induction es generalizing r with
  | nil => exact ⟨r.2.index_, rfl⟩
  | cons e es ih =>
    obtain ⟨i, hi⟩ := ih (e.register ptr r)
    have he : ∃ j, (e.register ptr r).2 = { r.2 with index_ := j } := by
      cases e with
      | update =>
        unfold register EPollPoller.updateChannel
        split_ifs <;> exact ⟨_, rfl⟩
      | remove => exact ⟨_, rfl⟩
      | _ => exact ⟨_, rfl⟩
    obtain ⟨j, hj⟩ := he
    exact ⟨i, by rw [List.foldl_cons, hi, hj]⟩

theorem foldl_register_of_forall (h : ∀ e ∈ es, e.registers = false) (ptr : P)
    (r : EPollPoller P × Channel) : es.foldl (register ptr) r = r := by
  induction es with
  | nil => rfl
  | cons e es ih =>
    have he : e.register ptr r = r := by
      have := h e List.mem_cons_self
      cases e <;> simp_all [registers, register]
    rw [List.foldl_cons, he]
    exact ih fun d hd => h d (List.mem_cons_of_mem _ hd)

theorem holds_foldl_register (es : List (Effect β)) (h : r.1.Holds ptr r.2) :
    (es.foldl (register ptr) r).1.Holds ptr (es.foldl (register ptr) r).2 ∧
      EPollPoller.SameElsewhere r.1 (es.foldl (register ptr) r).1 r.2.fd_ := by
  induction es generalizing r with
  | nil => exact ⟨h, .rfl⟩
  | cons e es ih =>
    have he : (e.register ptr r).1.Holds ptr (e.register ptr r).2 ∧
        EPollPoller.SameElsewhere r.1 (e.register ptr r).1 r.2.fd_ := by
      cases e with
      | update => exact EPollPoller.holds_updateChannel h rfl rfl
      | remove => exact EPollPoller.holds_removeChannel h
      | _ => exact ⟨h, .rfl⟩
    have hfd : (e.register ptr r).2.fd_ = r.2.fd_ := by
      obtain ⟨i, hi⟩ := foldl_register ptr [e] r
      show ([e].foldl (register ptr) r).2.fd_ = _
      rw [hi]
    obtain ⟨hholds, hsame⟩ := ih he.1
    rw [hfd] at hsame
    exact ⟨hholds, he.2.trans hsame⟩

/-- What the poller knows afterwards, it knew before, or it is the channel itself. -/
theorem registered_foldl_register (es : List (Effect β)) {fd : ℤ} {d : P}
    (h : (es.foldl (register ptr) r).1.channels_ fd = some d ∨
      ∃ events, (es.foldl (register ptr) r).1.epollfd_ fd = some ⟨events, d⟩) :
    (r.1.channels_ fd = some d ∨ ∃ events, r.1.epollfd_ fd = some ⟨events, d⟩) ∨ d = ptr := by
  induction es generalizing r with
  | nil => exact Or.inl h
  | cons e es ih =>
    rcases ih h with h | h
    · cases e with
      | update => exact EPollPoller.registered_updateChannel h
      | remove => exact Or.inl (EPollPoller.registered_removeChannel h)
      | _ => exact Or.inl h
    · exact Or.inr h

/-- A channel that is not in the epoll set does not get there by removals. -/
theorem epoll_foldl_register (hes : ∀ e ∈ es, e.registers = false ∨ e = .remove)
    (h : r.1.Holds ptr r.2) (hnone : r.1.epollfd_ r.2.fd_ = none) :
    (es.foldl (register ptr) r).1.epollfd_ (es.foldl (register ptr) r).2.fd_ = none := by
  induction es generalizing r with
  | nil => exact hnone
  | cons e es ih =>
    have htail : ∀ d ∈ es, d.registers = false ∨ d = .remove :=
      fun d hd => hes d (List.mem_cons_of_mem _ hd)
    rcases hes e List.mem_cons_self with hreg | rfl
    · have he : [e].foldl (register ptr) r = r :=
        foldl_register_of_forall (by simpa using hreg) ptr r
      rw [List.foldl_cons, show e.register ptr r = r from he]
      exact ih htail h hnone
    · exact ih htail (EPollPoller.holds_removeChannel h).1 (EPollPoller.holds_removeChannel h).1.2

/-- Removals put nothing into the epoll set. -/
theorem epollfd_foldl_register (hes : ∀ e ∈ es, e.registers = false ∨ e = .remove)
    (hnone : ∀ fd, r.1.epollfd_ fd = none) (fd : ℤ) :
    (es.foldl (register ptr) r).1.epollfd_ fd = none := by
  induction es generalizing r with
  | nil => exact hnone fd
  | cons e es ih =>
    refine ih (fun d hd => hes d (List.mem_cons_of_mem _ hd)) fun k => ?_
    rcases hes e List.mem_cons_self with hreg | rfl
    · have he : [e].foldl (register ptr) r = r :=
        foldl_register_of_forall (by simpa using hreg) ptr r
      rw [show e.register ptr r = r from he]
      exact hnone k
    · show (r.1.removeChannel ptr r.2).1.epollfd_ k = none
      unfold EPollPoller.removeChannel EPollPoller.update epoll_ctl
      simp only [hnone]
      split_ifs <;> exact hnone k

/-- With an interest left and no removal, a registered channel stays registered. -/
theorem index_foldl_register (h : ∀ e ∈ es, e ≠ .remove) (hev : r.2.events_ ≠ 0)
    (hidx : r.2.index_ = .kAdded) : (es.foldl (register ptr) r).2.index_ = .kAdded := by
  induction es generalizing r with
  | nil => exact hidx
  | cons e es ih =>
    have hes : ∀ d ∈ es, d ≠ .remove := fun d hd => h d (List.mem_cons_of_mem _ hd)
    rw [List.foldl_cons]
    cases e with
    | update =>
      refine ih hes ?_ ?_
      · show (r.1.updateChannel ptr r.2).2.events_ ≠ 0
        rwa [EPollPoller.updateChannel_events]
      · show (r.1.updateChannel ptr r.2).2.index_ = .kAdded
        rw [EPollPoller.updateChannel_index, if_neg fun hn => hev hn.2]
    | remove => exact absurd rfl (h _ List.mem_cons_self)
    | _ => exact ih hes hev hidx

end Effect

namespace TcpConnection

/-- The poller after a function of the connection. -/
theorem holds_of_updates {c : TcpConnection β} {res : TcpConnection β × List (Effect β)}
    {p : EPollPoller P} {ptr : P} (h : p.Holds ptr c.channel_) (hu : c.Updates res) :
    (res.2.foldl (Effect.register ptr) (p, res.1.channel_)).1.Holds ptr
        (res.2.foldl (Effect.register ptr) (p, res.1.channel_)).2 ∧
      EPollPoller.SameElsewhere p (res.2.foldl (Effect.register ptr) (p, res.1.channel_)).1
        c.channel_.fd_ := by
  rcases hu with hsame | ⟨hfd, hidx, -, pre, post, hes, hpre⟩
  · rw [hsame]
    exact Effect.holds_foldl_register res.2 h
  · rw [hes, List.foldl_append, Effect.foldl_register_of_forall hpre, List.foldl_cons]
    obtain ⟨hupd, hsame⟩ := EPollPoller.holds_updateChannel h hfd hidx
    have hfold := Effect.holds_foldl_register (r := p.updateChannel ptr res.1.channel_) post hupd
    rw [EPollPoller.updateChannel_fd, hfd] at hfold
    rw [hfd] at hsame
    exact ⟨hfold.1, hsame.trans hfold.2⟩

end TcpConnection

end Muduo
