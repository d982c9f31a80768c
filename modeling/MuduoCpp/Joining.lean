import MuduoCpp.Rounds
import MuduoCpp.EventLoopThread

/-!
# `~EventLoopThread`: whether `join()` returns

The destructor calls `quit()` and joins the thread.  When the thread is left to itself, no other
thread calls anything and the functors queue nothing, the join returns exactly when `quit()` was
called after the store `quit_ = false` with which `loop()` begins, or the loop had returned before.

* `EventLoop.Quits`: the loop is on its way to the end of `loop()`;
* `returns_of_quits`, `quits_of_after`: its thread alone comes there, and from no other state;
* `dtor_joins_iff`.
-/

namespace Muduo

namespace EventLoop

variable {T F : Type} {s t : EventLoop T F} {l : Label T F} {n m : ℕ}

/-- `loop()` has returned, or will see `quit_`. -/
def Quits (s : EventLoop T F) : Prop :=
  s.phase = .returned ∨ (s.quit_ = true ∧ s.phase ≠ .entry)

variable [DecidableEq T]

/-- The loop thread alone comes to the end of `loop()`, in `n` steps at most, and leaves the other
threads where they are. -/
def Returns (s : EventLoop T F) (n : ℕ) : Prop :=
  Lts.Attains step (fun l => l.isOwn = true) (fun t => t.phase = .returned ∧ t.pc = s.pc) n s

theorem returns_step (h : s.enabled l) (hl : l.isOwn = true) (hr : (s.after l).Returns n) :
    s.Returns (n + 1) := by
  have hpc : (s.after l).pc = s.pc := by
    cases l with
    | loopPush f | loopQuit | push t f | wakeup t | quitStore t => cases hl
    | _ => rfl
  rw [Returns, hpc] at hr
  exact attains_own h hl hr

theorem returns_test (hp : s.phase = .test) (hq : s.quit_ = true) : s.Returns 1 := by
  refine returns_step (l := .test) hp rfl (Lts.attains_of ⟨?_, rfl⟩)
  show (if s.quit_ then Phase.returned else .ready) = _
  rw [if_pos hq]

/-- The rest of a batch, and the test of `quit_`. -/
theorem returns_functors (hp : s.phase = .functors) (hpushed : s.loopPushed = false)
    (hq : s.quit_ = true) : s.Returns (s.functors.length + 2) := by
  set u : EventLoop T F := { s with functors := [], executed := s.executed ++ s.functors }
  have hend : u.Returns 2 :=
    returns_step (l := .finish) ⟨hp, rfl, hpushed⟩ rfl
      (returns_test (s := u.after .finish) rfl hq)
  exact attains_batch hp hpushed hend

/-- The rest of a round up to its batch. -/
theorem returns_round (hpushed : s.loopPushed = false) (hq : s.quit_ = true)
    (hp : s.phase = .ready ∨ s.phase = .poll ∨ s.phase = .dispatch ∨ s.phase = .swap) :
    s.Returns (s.pendingFunctors_.length + 6) :=
  attains_swap hpushed hp fun b => returns_functors
    (s := { s with
      phase := .functors
      functors := s.pendingFunctors_
      pendingFunctors_ := []
      callingPendingFunctors_ := b }) rfl hpushed hq

theorem returns_of_quits (h : s.Quits) :
    s.Returns (s.functors.length + s.pendingFunctors_.length + 7) := by
  have hrun : ∀ {s : EventLoop T F}, s.loopPushed = false → s.Quits →
      s.Returns (s.functors.length + s.pendingFunctors_.length + 6) := by
    rintro s hpushed (hp | ⟨hq, hp⟩)
    · exact Lts.attains_of ⟨hp, rfl⟩
    · cases hphase : s.phase with
      | entry => exact absurd hphase hp
      | test => exact (returns_test hphase hq).mono (by omega)
      | ready | poll | dispatch | swap =>
        exact (returns_round hpushed hq (by simp [hphase])).mono (by omega)
      | functors => exact (returns_functors hphase hpushed hq).mono (by omega)
      | returned => exact Lts.attains_of ⟨hphase, rfl⟩
  cases hpushed : s.loopPushed with
  | false => exact (hrun hpushed h).mono (by omega)
  | true =>
    exact returns_step (l := .loopWakeup) hpushed rfl (hrun (s := s.after .loopWakeup) rfl h)

/-- The loop thread alone does not make a loop quit. -/
theorem quits_of_after (h : s.enabled l) (hl : l.isOwn = true) (hq : (s.after l).Quits) :
    s.Quits := by
  cases l with
  | loopPush f | loopQuit | push t f | wakeup t | quitStore t => cases hl
  | enter => rcases hq with hq | ⟨hq, -⟩ <;> cases hq
  | test =>
    have hp : s.phase = .test := h
    cases hquit : s.quit_ with
    | true => exact Or.inr ⟨hquit, by simp [hp]⟩
    | false => simp [Quits, after, hquit] at hq
  | handleRead | loopWakeup => exact hq
  | poll | pollReturn | doPendingFunctors | swap | functor | finish =>
    simp_all [Quits, after, enabled]

end EventLoop

namespace EventLoopThread

variable {T F : Type} {s u : EventLoopThread T F} {l : Label T F} {ls : List (Label T F)} {t : T}
  {n : ℕ}

variable [DecidableEq T]

/-- A step of the loop's thread that runs no user code, or of the thread `t` in the destructor. -/
def Label.isJoining (t : T) : Label T F → Bool
  | .construct | .publish | .clear | .destroy | .dtorJoin => true
  | .inLoop (.wakeup u) => u = t
  | .inLoop l => l.isOwn
  | _ => false

/-- The destructor on the thread `t` comes to its end, in `n` steps at most. -/
def Joins (t : T) (s : EventLoopThread T F) (n : ℕ) : Prop :=
  Lts.Attains step (fun l => l.isJoining t = true) (fun u => u.dtor = .done) n s

theorem joins_step (h : s.enabled l) (hl : l.isJoining t = true) (hu : (s.after l).Joins t n) :
    s.Joins t (n + 1) :=
  Lts.attains_step (Lts.guarded_eq_some.2 ⟨h, rfl⟩) hl hu

theorem joins_ended (hd : s.dtor = .quitting t) (hpc : s.loop.pc t = .idle)
    (hw : s.worker = .ended) :
    s.Joins t 1 := by
  have hfinishes : s.dtorFinishes = true := by simp [dtorFinishes, hd, hpc, hw]
  exact joins_step (l := .dtorJoin) hfinishes rfl (Lts.attains_of rfl)

theorem joins_cleared (hd : s.dtor = .quitting t) (hpc : s.loop.pc t = .idle)
    (hw : s.worker = .cleared) : s.Joins t 2 :=
  joins_step (l := .destroy) hw rfl (joins_ended (s := s.after .destroy) hd hpc rfl)

theorem joins_returned (hd : s.dtor = .quitting t) (hpc : s.loop.pc t = .idle)
    (hw : s.worker = .published) (hp : s.loop.phase = .returned) : s.Joins t 3 :=
  joins_step (l := .clear) ⟨hw, hp⟩ rfl (joins_cleared (s := s.after .clear) hd hpc rfl)

/-- A run of the loop by its own thread. -/
theorem exec_inLoop {ms : List (EventLoop.Label T F)} {v : EventLoop T F}
    (hw : s.worker = .published)
    (hown : ∀ l ∈ ms, l.isOwn = true) (h : Lts.exec EventLoop.step s.loop ms = some v) :
    Lts.exec step s (ms.map .inLoop) = some { s with loop := v } := by
  induction ms generalizing s with
  | nil =>
    cases h
    rfl
  | cons l ms ih =>
    obtain ⟨hen, hut⟩ := Lts.guarded_exec_cons.1 h
    have hl : l.isOwn = true := hown l List.mem_cons_self
    have hreaches : s.Reaches l := by
      cases l with
      | loopPush f | loopQuit | push u f | wakeup u | quitStore u => cases hl
      | loopWakeup => exact Or.inr hw
      | _ => exact hw
    exact Lts.guarded_exec_cons.2 ⟨⟨hreaches, hen⟩,
      ih (s := s.after (.inLoop l)) hw (fun m hm => hown m (List.mem_cons_of_mem l hm)) hut⟩

theorem isJoining_inLoop {l : EventLoop.Label T F} (hl : l.isOwn = true) :
    (Label.inLoop l).isJoining t = true := by
  cases l with
  | wakeup u => cases hl
  | _ => exact hl

theorem joins_quits (hd : s.dtor = .quitting t) (hpc : s.loop.pc t = .idle)
    (hw : s.worker = .published) (hq : s.loop.Quits) :
    s.Joins t (s.loop.functors.length + s.loop.pendingFunctors_.length + 10) := by
  obtain ⟨ms, v, hexec, hown, hlen, hphase, hpcs⟩ := EventLoop.returns_of_quits hq
  have hrun : Lts.Attains step (fun l => l.isJoining t = true)
      (fun u => u.dtor = .quitting t ∧ u.loop.pc t = .idle ∧ u.worker = .published ∧
        u.loop.phase = .returned)
          (s.loop.functors.length + s.loop.pendingFunctors_.length + 7) s := by
    refine ⟨ms.map .inLoop, _, exec_inLoop hw hown hexec, fun l hl => ?_,
      (List.length_map _).trans_le hlen, hd, by rwa [hpcs], hw, hphase⟩
    obtain ⟨m, hm, rfl⟩ := List.mem_map.1 hl
    exact isJoining_inLoop (hown m hm)
  exact hrun.trans fun u hu => joins_returned hu.1 hu.2.1 hu.2.2.1 hu.2.2.2

/-- In the destructor, after the store of `quit()`. -/
theorem joins_of_quits (hi : s.Handshake) (hd : s.dtor = .quitting t) (hq : s.loop.Quits) :
    s.Joins t (s.loop.functors.length + s.loop.pendingFunctors_.length + 11) := by
  have hheld : s.worker = .published ∨ s.worker = .cleared ∨ s.worker = .ended := by
    refine hi.held (Or.inl ?_)
    by_contra hne
    rw [hi.starter hne] at hd
    cases hd
  have hidle : ∀ {s : EventLoopThread T F}, s.dtor = .quitting t → s.loop.pc t = .idle →
      s.worker = .published ∨ s.worker = .cleared ∨ s.worker = .ended → s.loop.Quits →
      s.Joins t (s.loop.functors.length + s.loop.pendingFunctors_.length + 10) := by
    rintro s hd hpc (hw | hw | hw) hq
    · exact joins_quits hd hpc hw hq
    · exact (joins_cleared hd hpc hw).mono (by omega)
    · exact (joins_ended hd hpc hw).mono (by omega)
  by_cases hpc : s.loop.pc t = .idle
  · exact (hidle hd hpc hheld hq).mono (by omega)
  · have hwoken : (s.after (.inLoop (.wakeup t))).loop.pc t = .idle := Function.update_self _ _ _
    exact joins_step (l := .inLoop (.wakeup t)) ⟨trivial, hpc⟩ (decide_eq_true rfl)
      (hidle (s := s.after (.inLoop (.wakeup t))) hd hwoken hheld hq)

/-- A loop that does not quit holds the destructor up. -/
theorem held_after (hi : s.Handshake) (hd : s.dtor = .quitting t) (hq : ¬ s.loop.Quits)
    (h : s.enabled l) (hl : l.isJoining t = true) :
    (s.after l).dtor = .quitting t ∧ ¬ (s.after l).loop.Quits := by
  have hstarter : s.starter = .returned := by
    by_contra hne
    rw [hi.starter hne] at hd
    cases hd
  have hheld := hi.held (Or.inl hstarter)
  have hworker : s.worker = .published :=
    hheld.resolve_right fun hw => hq (Or.inl (hi.ended hw))
  cases l with
  | construct => exact absurd (hworker.symm.trans h) (by decide)
  | publish => exact absurd (hworker.symm.trans h.1) (by decide)
  | clear => exact absurd (Or.inl h.2) hq
  | destroy => exact absurd (hworker.symm.trans h) (by decide)
  | dtorJoin => simp [enabled, dtorFinishes, hd, hworker] at h
  | inLoop m =>
    refine ⟨hd, fun hquits => hq ?_⟩
    cases m with
    | wakeup u => exact hquits
    | loopPush f | loopQuit | push u f | quitStore u => cases hl
    | _ => exact EventLoop.quits_of_after h.2 hl hquits
  | _ => cases hl

/-- **The join of the destructor.**  In every reachable state in which the destructor has stored
`quit_`, the thread of the loop and that of the destructor alone come to its end, in at most eleven
steps more than there are functors, if `loop()` has returned or `quit_` is still set and `loop()`
has begun; in any other state they do not. -/
theorem dtor_joins_iff (h : Lts.exec step init ls = some s) (hd : s.dtor = .quitting t) :
    (s.loop.phase = .returned ∨ (s.loop.quit_ = true ∧ s.loop.phase ≠ .entry) →
      s.Joins t (s.loop.functors.length + s.loop.pendingFunctors_.length + 11)) ∧
    ∀ n, s.Joins t n →
      s.loop.phase = .returned ∨ (s.loop.quit_ = true ∧ s.loop.phase ≠ .entry) := by
  have hi := Lts.guarded_inv' (fun _ _ => handshake_after) handshake_init h
  refine ⟨fun hq => joins_of_quits hi hd hq, fun n hjoins => ?_⟩
  by_contra hq
  refine Lts.not_attains (I := fun u => u.Handshake ∧ u.dtor = .quitting t ∧ ¬ u.loop.Quits)
    (fun u l v hu hl hst => ?_) (fun u hu hdone => ?_) ⟨hi, hd, hq⟩ hjoins
  · obtain ⟨hen, rfl⟩ := Lts.guarded_eq_some.1 hst
    exact ⟨handshake_after hu.1 hen, held_after hu.1 hu.2.1 hu.2.2 hen hl⟩
  · rw [hu.2.1] at hdone
    cases hdone

/-- The destructor right after `startLoop()`: with `quit()` before and after `loop()` has begun. -/
private def joinedPre : List (Label Unit ℕ) :=
  [.start, .construct, .publish, .startReturn, .dtorCopy]

theorem dtor_joins_iff_begun :
    (∃ s : EventLoopThread Unit ℕ, Lts.exec step init (joinedPre ++ [.dtorQuit ()]) = some s ∧
      ∀ n, ¬ s.Joins () n) ∧
    ∃ s : EventLoopThread Unit ℕ,
      Lts.exec step init (joinedPre ++ [.inLoop .enter, .dtorQuit ()]) = some s ∧
      s.Joins () 11 := by
  have h : (Lts.exec step init (joinedPre ++ [.dtorQuit ()]) :
      Option (EventLoopThread Unit ℕ)).isSome := rfl
  have h' : (Lts.exec step init (joinedPre ++ [.inLoop .enter, .dtorQuit ()]) :
      Option (EventLoopThread Unit ℕ)).isSome := rfl
  refine ⟨⟨_, (Option.some_get h).symm, fun n hn => ?_⟩, ⟨_, (Option.some_get h').symm, ?_⟩⟩
  · rcases (dtor_joins_iff (Option.some_get h).symm rfl).2 n hn with hp | ⟨-, hp⟩
    · cases hp
    · exact hp rfl
  · refine (dtor_joins_iff (Option.some_get h').symm rfl).1 (Or.inr ⟨rfl, ?_⟩)
    intro hp
    cases hp

end EventLoopThread

end Muduo
