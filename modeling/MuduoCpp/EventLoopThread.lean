import MuduoCpp.EventLoop

/-!
# `src/EventLoopThread.cc`: starting and stopping a loop on a thread of its own

`startLoop()` starts the thread and waits until `threadFunc` has published the address of its
stack `EventLoop`; from then on the callers hold that pointer.  `~EventLoopThread` copies `loop_`
under the mutex, calls `quit()` through the copy and joins.

The steps of the loop are those of `EventLoop`; this file adds where the two ends of the handshake
are.

* `quit_kept_iff`: a `quit()` is remembered until `loop()` returns exactly when its store comes
  after the store `quit_ = false` with which `loop()` begins;
* `dtorQuit_alive_iff`: the destructor calls `quit()` on a live loop exactly when the loop was not
  destroyed since the copy of its address;
* `first_poll_woken_iff`: what `callback_` has queued is left asleep by the first poll exactly when
  no other thread has woken the loop.
-/

namespace Muduo

/-- Where `threadFunc` is. -/
inductive Worker
  | notStarted
  | started
  /-- `EventLoop loop;` has been constructed, `callback_` may be running. -/
  | constructed
  /-- `loop_ = &loop` has been stored and the waiting thread notified. -/
  | published
  /-- `loop()` has returned and `loop_ = nullptr` has been stored. -/
  | cleared
  /-- The stack `EventLoop` is destroyed, the thread has ended. -/
  | ended
  deriving DecidableEq, Repr

/-- Where `startLoop()` is. -/
inductive Starter
  | idle
  | waiting
  | returned
  deriving DecidableEq, Repr

/-- Where `~EventLoopThread` is; `copied b` with `b` saying whether the copy of `loop_` is a
pointer, `quitting t` when the thread `t` has entered `quit()` through it. -/
inductive Dtor (T : Type)
  | idle
  | copied (b : Bool)
  | quitting (t : T)
  | done
  deriving DecidableEq, Repr

/-- `EventLoopThread`, with where its thread and the callers of its functions are. -/
structure EventLoopThread (T F : Type) where
  worker : Worker
  starter : Starter
  dtor : Dtor T
  /-- `loop_ != nullptr`. -/
  loop_ : Bool
  /-- The `EventLoop` on the stack of `threadFunc`. -/
  loop : EventLoop T F

namespace EventLoopThread

variable {T F : Type}

/-- A newly constructed one; no thread has been started. -/
def init : EventLoopThread T F where
  worker := .notStarted
  starter := .idle
  dtor := .idle
  loop_ := false
  loop := .init

/-- A step of the thread, of a caller, or one on the loop. -/
inductive Label (T F : Type)
  | start
  | startReturn
  | construct
  | publish
  | clear
  | destroy
  | dtorCopy
  | dtorQuit (t : T)
  | dtorJoin
  /-- A step of the loop, or of a thread in one of its member functions. -/
  | inLoop (l : EventLoop.Label T F)
  deriving DecidableEq, Repr

/-- Which steps of the loop can be taken: `callback_` runs before the loop is published and calls
`queueInLoop` and `quit` only; `loop()` runs afterwards; another thread needs the pointer that
`startLoop` returned. -/
def Reaches (s : EventLoopThread T F) : EventLoop.Label T F → Prop
  | .loopPush _ | .loopQuit =>
      s.worker = .constructed ∨ (s.worker = .published ∧ s.loop.phase ≠ .entry)
  | .loopWakeup => s.worker = .constructed ∨ s.worker = .published
  | .push _ _ | .quitStore _ => s.starter = .returned
  | .wakeup _ => True
  | _ => s.worker = .published

instance (s : EventLoopThread T F) : DecidablePred s.Reaches
  | .loopPush _ | .loopQuit => inferInstanceAs (Decidable
      (s.worker = .constructed ∨ (s.worker = .published ∧ s.loop.phase ≠ .entry)))
  | .loopWakeup => inferInstanceAs (Decidable (s.worker = .constructed ∨ s.worker = .published))
  | .push _ _ | .quitStore _ => inferInstanceAs (Decidable (s.starter = .returned))
  | .wakeup _ => isTrue trivial
  | .enter | .test | .poll | .pollReturn | .handleRead | .doPendingFunctors | .swap | .functor
  | .finish => inferInstanceAs (Decidable (s.worker = .published))

/-- `~EventLoopThread` can finish: there is no loop to stop, or `quit()` has returned and the
thread can be joined. -/
def dtorFinishes (s : EventLoopThread T F) : Bool :=
  match s.dtor with
  | .copied b => !b
  | .quitting t => s.loop.pc t == .idle && s.worker == .ended
  | _ => false

variable [DecidableEq T]

/-- When a step can be taken. -/
def enabled (s : EventLoopThread T F) : Label T F → Prop
  | .start => s.starter = .idle
  | .startReturn => s.starter = .waiting ∧ s.loop_ = true
  | .construct => s.worker = .started
  | .publish => s.worker = .constructed ∧ s.loop.loopPushed = false
  | .clear => s.worker = .published ∧ s.loop.phase = .returned
  | .destroy => s.worker = .cleared
  | .dtorCopy => s.dtor = .idle ∧ s.starter = .returned
  | .dtorQuit t => s.dtor = .copied true ∧ s.loop.pc t = .idle
  | .dtorJoin => s.dtorFinishes = true
  | .inLoop l => s.Reaches l ∧ s.loop.enabled l

instance (s : EventLoopThread T F) : DecidablePred s.enabled := fun l => by
  cases l <;> unfold enabled <;> infer_instance

/-- What a step does. -/
def after (s : EventLoopThread T F) : Label T F → EventLoopThread T F
  | .start => { s with starter := .waiting, worker := .started }
  | .startReturn => { s with starter := .returned }
  | .construct => { s with worker := .constructed, loop := .init }
  | .publish => { s with worker := .published, loop_ := true }
  | .clear => { s with worker := .cleared, loop_ := false }
  | .destroy => { s with worker := .ended }
  | .dtorCopy => { s with dtor := .copied s.loop_ }
  | .dtorQuit t => { s with dtor := .quitting t, loop := s.loop.after (.quitStore t) }
  | .dtorJoin => { s with dtor := .done }
  | .inLoop l => { s with loop := s.loop.after l }

/-- One step of any thread. -/
def step : EventLoopThread T F → Label T F → Option (EventLoopThread T F) :=
  Lts.guarded enabled after

/-- The steps in which the thread `t` stores `quit_ = true`. -/
def Label.quits (t : T) (l : Label T F) : Prop := l = .dtorQuit t ∨ l = .inLoop (.quitStore t)

/-- The step in which the loop enters `poll`. -/
def Label.polls : Label T F → Bool
  | .inLoop .poll => true
  | _ => false

/-! ### The handshake -/

/-- A pointer to the loop is only held once it was published, and between that and `loop()` the
thread runs no user code. -/
structure Handshake (s : EventLoopThread T F) : Prop where
  starter : s.starter ≠ .returned → s.dtor = .idle
  idle : s.starter = .idle → s.worker = .notStarted
  held : s.starter = .returned ∨ s.loop_ = true →
    s.worker = .published ∨ s.worker = .cleared ∨ s.worker = .ended
  quiet : s.worker = .published → s.loop.phase = .entry → s.loop.loopPushed = false
  ended : s.worker = .cleared ∨ s.worker = .ended → s.loop.phase = .returned

omit [DecidableEq T] in
theorem handshake_init : (init : EventLoopThread T F).Handshake := by
  constructor <;> simp [init]

/-- A step of the loop that can be taken keeps what the handshake says about the loop. -/
theorem handshake_inLoop {s : EventLoopThread T F} {l : EventLoop.Label T F} (hs : s.Handshake)
    (hr : s.Reaches l) (h : s.loop.enabled l) :
    (s.worker = .published → (s.loop.after l).phase = .entry →
      (s.loop.after l).loopPushed = false) ∧
    (s.worker = .cleared ∨ s.worker = .ended → (s.loop.after l).phase = .returned) := by
  have h4 := hs.quiet
  have h5 := hs.ended
  cases l with
  | loopPush f | loopQuit =>
    rcases hr with hr | ⟨hr, hne⟩ <;> simp_all [EventLoop.after]
  | test =>
    cases hq : s.loop.quit_ <;> simp_all [EventLoop.after, Reaches]
  | loopWakeup | push t f | wakeup t | quitStore t => simp_all [EventLoop.after]
  | _ => simp_all [EventLoop.after, Reaches, EventLoop.enabled]

theorem handshake_after {s : EventLoopThread T F} {l : Label T F} (hs : s.Handshake)
    (h : s.enabled l) : (s.after l).Handshake := by
  cases l with
  | inLoop l =>
    obtain ⟨h4, h5⟩ := handshake_inLoop hs h.1 h.2
    exact ⟨hs.starter, hs.idle, hs.held, h4, h5⟩
  | dtorQuit t =>
    refine ⟨fun hne => ?_, hs.idle, hs.held, hs.quiet, hs.ended⟩
    have := h.1
    simp [hs.starter hne] at this
  | dtorJoin =>
    refine ⟨fun hne => ?_, hs.idle, hs.held, hs.quiet, hs.ended⟩
    simp [enabled, dtorFinishes, hs.starter hne] at h
  | _ =>
    obtain ⟨h1, h2, h3, h4, h5⟩ := hs
    constructor <;> simp_all [after, enabled]

omit [DecidableEq T] in
/-- A thread that can enter `quit()` holds a pointer to a loop that was published. -/
theorem published_of_quits {s : EventLoopThread T F} {l : Label T F} {t : T} (hs : s.Handshake)
    (hl : l.quits t) (h : s.enabled l) :
    s.worker = .published ∨ s.worker = .cleared ∨ s.worker = .ended := by
  have hret : s.starter = .returned := by
    rcases hl with rfl | rfl
    · by_contra hne
      have := h.1
      simp [hs.starter hne] at this
    · exact h.1
  exact hs.held (Or.inl hret)

/-! ### A quit request and the rest of the run -/

/-- The request stands and at most `n` more polls can be started. -/
structure Kept (n : ℕ) (s : EventLoopThread T F) : Prop where
  quit : s.loop.quit_ = true
  phase : s.loop.phase ≠ .entry
  published : s.worker = .published ∨ s.worker = .cleared ∨ s.worker = .ended
  polls : n = 0 → s.loop.phase ≠ .ready

/-- A step of the loop other than the poll does not bring it to the poll: its next test of `quit_`
is its last. -/
theorem kept_inLoop {n : ℕ} {s : EventLoopThread T F} {l : EventLoop.Label T F} (hs : s.Kept n)
    (h : s.loop.enabled l) (hl : l ≠ .poll) : (s.after (.inLoop l)).Kept n := by
  obtain ⟨hq, hp, hw, hn⟩ := hs
  cases l with
  | enter => exact absurd h.1 hp
  | test =>
    refine ⟨hq, ?_, hw, fun _ => ?_⟩ <;> simp [after, EventLoop.after, hq]
  | poll => exact absurd rfl hl
  | pollReturn | doPendingFunctors | swap | finish =>
    exact ⟨hq, by simp [after, EventLoop.after], hw, fun _ => by simp [after, EventLoop.after]⟩
  | handleRead | functor | loopPush f | loopWakeup | push t f | wakeup t => exact ⟨hq, hp, hw, hn⟩
  | loopQuit | quitStore t => exact ⟨rfl, hp, hw, hn⟩

theorem kept_after {n : ℕ} {s : EventLoopThread T F} {l : Label T F} (hi : s.Handshake)
    (hs : s.Kept n) (h : s.enabled l) (hl : l.polls = false) : (s.after l).Kept n := by
  obtain ⟨hq, hp, hw, hn⟩ := hs
  cases l with
  | inLoop l => exact kept_inLoop ⟨hq, hp, hw, hn⟩ h.2 (by rintro rfl; cases hl)
  | start =>
    have hidle := hi.idle h
    simp [hidle] at hw
  | construct =>
    have hst : s.worker = .started := h
    simp [hst] at hw
  | publish =>
    have hc : s.worker = .constructed := h.1
    simp [hc] at hw
  | clear => exact ⟨hq, hp, Or.inr (Or.inl rfl), hn⟩
  | destroy => exact ⟨hq, hp, Or.inr (Or.inr rfl), hn⟩
  | startReturn | dtorCopy | dtorJoin => exact ⟨hq, hp, hw, hn⟩
  | dtorQuit t => exact ⟨rfl, hp, hw, hn⟩

/-- A poll is the one that the loop was about to enter. -/
theorem kept_poll {n : ℕ} {s : EventLoopThread T F} {l : Label T F} (hs : s.Kept n)
    (h : s.enabled l) (hl : l.polls = true) : ∃ m, n = m + 1 ∧ (s.after l).Kept m := by
  obtain ⟨hq, hp, hw, hn⟩ := hs
  match l, hl with
  | .inLoop .poll, _ =>
    have hready : s.loop.phase = .ready := h.2
    obtain ⟨m, rfl⟩ := Nat.exists_eq_succ_of_ne_zero fun h0 => hn h0 hready
    exact ⟨m, rfl, hq, by simp [after, EventLoop.after], hw, fun _ => by
      simp [after, EventLoop.after]⟩

theorem kept_run {n : ℕ} {s u : EventLoopThread T F} {ls : List (Label T F)} (hi : s.Handshake)
    (hs : s.Kept n) (h : Lts.exec step s ls = some u) :
    u.loop.quit_ = true ∧ ls.countP Label.polls ≤ n := by
  induction ls generalizing n s with
  | nil =>
    cases h
    exact ⟨hs.quit, Nat.zero_le _⟩
  | cons l ls ih =>
    obtain ⟨hen, htu⟩ := Lts.guarded_exec_cons.1 h
    have hi' := handshake_after hi hen
    cases hl : l.polls with
    | false =>
      rw [List.countP_cons_of_neg (by simp [hl])]
      exact ih hi' (kept_after hi hs hen hl) htu
    | true =>
      obtain ⟨m, rfl, hm⟩ := kept_poll hs hen hl
      obtain ⟨hq, hc⟩ := ih hi' hm htu
      rw [List.countP_cons_of_pos hl]
      exact ⟨hq, Nat.succ_le_succ hc⟩

/-- The store of `quit()`, once `loop()` has begun. -/
theorem kept_of_quits {s : EventLoopThread T F} {l : Label T F} {t : T} (hi : s.Handshake)
    (hl : l.quits t) (h : s.enabled l) (hp : s.loop.phase ≠ .entry) : (s.after l).Kept 1 := by
  have hw := published_of_quits hi hl h
  rcases hl with rfl | rfl <;> exact ⟨rfl, hp, hw, by simp⟩

/-- A `quit()` by `t`, in every run that goes on from its store: once it has returned, `quit_` stays
true until `loop()` returns, with at most one poll on the way. -/
def Remembered (t : T) (s : EventLoopThread T F) : Prop :=
  ∀ post u, Lts.exec step s post = some u → .inLoop (.wakeup t) ∈ post →
    (u.loop.phase ≠ .returned → u.loop.quit_ = true) ∧ post.countP Label.polls ≤ 1

/-- A `quit()` is remembered if and only if its store comes after `loop()`'s own store
`quit_ = false`. -/
theorem quit_kept_iff {pre : List (Label T F)} {s s' : EventLoopThread T F} {l : Label T F} {t : T}
    (hpre : Lts.exec step init pre = some s) (hl : l.quits t) (hs' : step s l = some s') :
    Remembered t s' ↔ s.loop.phase ≠ .entry := by
  obtain ⟨hen, rfl⟩ := Lts.guarded_eq_some.1 hs'
  have hi : s.Handshake := Lts.guarded_inv' (fun _ _ => handshake_after) handshake_init hpre
  constructor
  · intro hrem hp
    -- `quit()` returns, then `loop()` begins
    have hw : s.worker = .published := by
      rcases published_of_quits hi hl hen with hw | hw
      · exact hw
      · simp [hi.ended hw] at hp
    have hquiet := hi.quiet hw hp
    have hlater := hrem [.inLoop (.wakeup t), .inLoop .enter]
      ((s.after l).after (.inLoop (.wakeup t)) |>.after (.inLoop .enter)) ?_ (by simp)
    · simp [after, EventLoop.after] at hlater
    · refine Lts.guarded_exec_cons.2 ⟨?_, Lts.guarded_exec_cons.2 ⟨?_, rfl⟩⟩
      · rcases hl with rfl | rfl <;>
          simp [enabled, Reaches, EventLoop.enabled, after, EventLoop.after]
      · rcases hl with rfl | rfl <;>
          simp [enabled, Reaches, EventLoop.enabled, after, EventLoop.after, hw, hp, hquiet]
  · intro hp post u hpost _
    obtain ⟨hq, hc⟩ := kept_run (handshake_after hi hen) (kept_of_quits hi hl hen hp) hpost
    exact ⟨fun _ => hq, hc⟩

/-- `startLoop()` returns while `threadFunc` has not entered `loop()` yet. -/
private def startedPre : List (Label Unit ℕ) :=
  [.start, .construct, .publish, .startReturn]

/-- `~EventLoopThread` quits at once, and the loop goes to sleep: the destructor stays in `join`. -/
theorem quit_forgotten :
    ∃ s u : EventLoopThread Unit ℕ, Lts.exec step init startedPre = some s ∧
      Lts.exec step s [.dtorCopy, .dtorQuit (), .inLoop (.wakeup ()), .inLoop .enter, .inLoop .test,
        .inLoop .poll, .inLoop .pollReturn, .inLoop .handleRead, .inLoop .doPendingFunctors,
        .inLoop .swap, .inLoop .finish, .inLoop .test, .inLoop .poll] = some u ∧
      u.loop.phase = .poll ∧ u.loop.quit_ = false ∧ u.loop.wakeupFd_ = 0 ∧
      u.loop.pc () = .idle ∧ u.dtorFinishes = false :=
  ⟨_, _, rfl, rfl, rfl, rfl, rfl, rfl, rfl⟩

/-- The loop has begun before the destructor quits. -/
theorem quit_kept_iff_begun :
    ∃ s s' : EventLoopThread Unit ℕ, s.loop.phase = .ready ∧
      (Remembered () s' ↔ s.loop.phase ≠ .entry) := by
  have h : (Lts.exec step init
    (startedPre ++ [.inLoop .enter, .inLoop .test, .dtorCopy])).isSome := rfl
  have h' : (step ((Lts.exec step init
    (startedPre ++ [.inLoop .enter, .inLoop .test, .dtorCopy])).get h) (.dtorQuit ())).isSome := rfl
  exact ⟨_, _, rfl, quit_kept_iff (Option.some_get h).symm (Or.inl rfl) (Option.some_get h').symm⟩

/-! ### The copy of `loop_` in the destructor -/

/-- `loop_` points to a loop only while `threadFunc` is between its two critical sections. -/
def PointerOk (s : EventLoopThread T F) : Prop := s.loop_ = true → s.worker = .published

theorem pointerOk_after {s : EventLoopThread T F} {l : Label T F} (hi : s.Handshake)
    (hp : s.PointerOk) (h : s.enabled l) : (s.after l).PointerOk := by
  unfold PointerOk at hp ⊢
  cases l with
  | start =>
    intro hl
    have hw := hp hl
    rw [hi.idle h] at hw
    cases hw
  | construct =>
    intro hl
    have hw := hp hl
    rw [show s.worker = .started from h] at hw
    cases hw
  | destroy =>
    intro hl
    have hw := hp hl
    rw [show s.worker = .cleared from h] at hw
    cases hw
  | publish => exact fun _ => rfl
  | clear => exact fun hl => nomatch hl
  | startReturn | dtorCopy | dtorQuit t | dtorJoin | inLoop l => exact hp

/-- A destroyed loop stays destroyed. -/
theorem ended_after {s : EventLoopThread T F} {l : Label T F} (hi : s.Handshake)
    (hw : s.worker = .ended) (h : s.enabled l) : (s.after l).worker = .ended := by
  cases l with
  | start =>
    rw [hi.idle h] at hw
    cases hw
  | construct =>
    rw [show s.worker = .started from h] at hw
    cases hw
  | publish =>
    rw [show s.worker = .constructed from h.1] at hw
    cases hw
  | clear =>
    rw [show s.worker = .published from h.1] at hw
    cases hw
  | destroy => rfl
  | startReturn | dtorCopy | dtorQuit t | dtorJoin | inLoop l => exact hw

/-- The destructor works on a copy: it can be stale only if the loop has been destroyed since. -/
structure CopyOk (s : EventLoopThread T F) : Prop where
  handshake : s.Handshake
  pointer : s.PointerOk
  alive : s.dtor = .copied true → s.worker ≠ .ended

omit [DecidableEq T] in
theorem copyOk_init : (init : EventLoopThread T F).CopyOk :=
  ⟨handshake_init, by simp [PointerOk, init], by simp [init]⟩

theorem copyOk_after {s : EventLoopThread T F} {l : Label T F} (hs : s.CopyOk)
    (hl : l = .destroy → s.dtor ≠ .copied true) (h : s.enabled l) : (s.after l).CopyOk := by
  refine ⟨handshake_after hs.handshake h, pointerOk_after hs.handshake hs.pointer h, ?_⟩
  intro hcopied hended
  cases l with
  | destroy => exact hl rfl hcopied
  | dtorCopy =>
    have hloop : s.loop_ = true := (Dtor.copied.injEq _ _).mp hcopied
    have hw := hs.pointer hloop
    rw [show s.worker = .ended from hended] at hw
    cases hw
  | start | construct | publish | clear => exact nomatch hended
  | dtorQuit t | dtorJoin => exact nomatch hcopied
  | startReturn | inLoop l => exact hs.alive hcopied hended

/-- The label is not a `quit()` of anyone but the destructor. -/
def Label.quitsElsewhere : Label T F → Bool
  | .inLoop .loopQuit | .inLoop (.quitStore _) => true
  | _ => false

/-- Until the destructor calls `quit()`, a loop that nobody else quits runs on. -/
structure Unquit (s : EventLoopThread T F) : Prop where
  flag : s.loop.quit_ = false
  phase : s.loop.phase ≠ .returned
  worker : s.worker ≠ .cleared ∧ s.worker ≠ .ended

theorem unquit_inLoop {s : EventLoopThread T F} {l : EventLoop.Label T F} (hs : s.Unquit)
    (hl : (Label.inLoop l).quitsElsewhere = false) : (s.after (.inLoop l)).Unquit := by
  obtain ⟨hq, hp, hw⟩ := hs
  cases l with
  | test => exact ⟨hq, by simp [after, EventLoop.after, hq], hw⟩
  | enter => exact ⟨rfl, by simp [after, EventLoop.after], hw⟩
  | poll | pollReturn | doPendingFunctors | swap | finish =>
    exact ⟨hq, by simp [after, EventLoop.after], hw⟩
  | handleRead | functor | loopPush f | loopWakeup | push t f | wakeup t => exact ⟨hq, hp, hw⟩
  | loopQuit | quitStore t => cases hl

theorem unquit_after {s : EventLoopThread T F} {l : Label T F}
    (hs : s.dtor = .idle ∨ s.dtor = .copied true → s.Unquit) (hl : l.quitsElsewhere = false)
    (h : s.enabled l) :
    (s.after l).dtor = .idle ∨ (s.after l).dtor = .copied true → (s.after l).Unquit := by
  intro hd
  cases l with
  | inLoop l => exact unquit_inLoop (hs hd) hl
  | start | publish =>
    obtain ⟨hq, hp, -⟩ := hs hd
    exact ⟨hq, hp, by simp [after]⟩
  | construct => exact ⟨rfl, by simp [after, EventLoop.init], by simp [after]⟩
  | startReturn =>
    obtain ⟨hq, hp, hw⟩ := hs hd
    exact ⟨hq, hp, hw⟩
  | clear => exact absurd h.2 (hs hd).phase
  | destroy => exact absurd h (hs hd).worker.1
  | dtorCopy =>
    obtain ⟨hq, hp, hw⟩ := hs (Or.inl h.1)
    exact ⟨hq, hp, hw⟩
  | dtorQuit t | dtorJoin => rcases hd with hd | hd <;> cases hd

/-- **The destructor's `quit()` and the life of the loop.**  The loop that the destructor calls
`quit()` on is alive exactly when it was not destroyed after the destructor copied its address; a
loop that nobody else quits is always alive then. -/
theorem dtorQuit_alive_iff {pre : List (Label T F)} {s s' : EventLoopThread T F} {t : T}
    (hpre : Lts.exec step init pre = some s) (hs' : step s (.dtorQuit t) = some s') :
    (s.worker ≠ .ended ↔
      Lts.Along step (fun u l => l = .destroy → u.dtor ≠ .copied true) init pre) ∧
    ((∀ l ∈ pre, l.quitsElsewhere = false) → s.worker ≠ .ended) := by
  have hcopied : s.dtor = .copied true := (Lts.guarded_eq_some.1 hs').1.1
  refine ⟨⟨?_, ?_⟩, ?_⟩
  · refine Lts.along_of_not_trapped (I := Handshake) (J := fun s => s.worker = .ended) ?_ ?_ ?_
      handshake_init hpre
    · intro s l u hi hu
      obtain ⟨hen, rfl⟩ := Lts.guarded_eq_some.1 hu
      exact handshake_after hi hen
    · intro s l u hi hw hu
      obtain ⟨hen, rfl⟩ := Lts.guarded_eq_some.1 hu
      exact ended_after hi hw hen
    · intro s l u _ hbad hu
      obtain ⟨-, rfl⟩ := Lts.guarded_eq_some.1 hu
      obtain ⟨rfl, -⟩ := Classical.not_imp.1 hbad
      rfl
  · intro hP
    exact (Lts.guarded_inv (fun _ _ => copyOk_after) copyOk_init hP hpre).alive hcopied
  · intro hpre'
    have hinit : (init : EventLoopThread T F).Unquit :=
      ⟨rfl, by simp [init, EventLoop.init], by simp [init]⟩
    have hun := Lts.guarded_inv (I := fun s => s.dtor = .idle ∨ s.dtor = .copied true → s.Unquit)
      (fun _ _ => unquit_after) (fun _ => hinit) (Lts.along_of_forall hpre') hpre
    exact (hun (Or.inr hcopied)).worker.2

/-- Nobody but the destructor quits. -/
theorem dtorQuit_alive_iff_started :
    ∃ s : EventLoopThread Unit ℕ, Lts.exec step init (startedPre ++ [.dtorCopy]) = some s ∧
      s.worker ≠ .ended := by
  refine ⟨_, rfl, (@dtorQuit_alive_iff Unit ℕ _ (startedPre ++ [.dtorCopy]) _ _ () rfl rfl).2 ?_⟩
  decide

/-- Another thread quits the loop after the destructor has copied its address; the loop returns and
is destroyed before the destructor calls `quit()`. -/
private def staleCopy : List (Label Bool ℕ) :=
  [.start, .construct, .publish, .startReturn, .inLoop .enter, .inLoop .test, .dtorCopy,
    .inLoop (.quitStore true),
    .inLoop (.wakeup true), .inLoop .poll, .inLoop .pollReturn, .inLoop .handleRead,
    .inLoop .doPendingFunctors, .inLoop .swap, .inLoop .finish, .inLoop .test, .clear, .destroy]

theorem dtorQuit_destroyed :
    ∃ s s' : EventLoopThread Bool ℕ, Lts.exec step init staleCopy = some s ∧
      step s (.dtorQuit false) = some s' ∧ s.worker = .ended :=
  ⟨_, _, rfl, rfl, rfl⟩

/-! ### The first poll of the loop -/

/-- The step of the loop in a step of the thread: `quit()` in the destructor is one too. -/
def Label.inner : Label T F → Option (EventLoop.Label T F)
  | .inLoop l => some l
  | .dtorQuit t => some (.quitStore t)
  | _ => none

/-- What a run does on the loop. -/
def loopLabels (ls : List (Label T F)) : List (EventLoop.Label T F) := ls.filterMap Label.inner

/-- Until `threadFunc` constructs the loop nobody touches it. -/
structure Fresh (s : EventLoopThread T F) : Prop where
  handshake : s.Handshake
  fresh : s.worker = .notStarted ∨ s.worker = .started → s.loop = .init

omit [DecidableEq T] in
theorem fresh_init : (init : EventLoopThread T F).Fresh := ⟨handshake_init, fun _ => rfl⟩

omit [DecidableEq T] in
/-- Before the construction there is no step of the loop to take. -/
theorem Fresh.constructed {s : EventLoopThread T F} {l : EventLoop.Label T F} (hs : s.Fresh)
    (hr : s.Reaches l) (h : s.loop.enabled l) : s.worker ≠ .notStarted ∧ s.worker ≠ .started := by
  rw [← not_or]
  intro hw
  cases l with
  | push t f | quitStore t =>
    have hheld := hs.handshake.held (Or.inl hr)
    rcases hw with hw | hw <;> simp [hw] at hheld
  | wakeup t =>
    rw [EventLoop.enabled, hs.fresh hw] at h
    exact h rfl
  | _ => rcases hw with hw | hw <;> simp [Reaches, hw] at hr

theorem fresh_after {s : EventLoopThread T F} {l : Label T F} (hs : s.Fresh) (h : s.enabled l) :
    (s.after l).Fresh := by
  refine ⟨handshake_after hs.handshake h, ?_⟩
  intro hw
  cases l with
  | inLoop l =>
    obtain ⟨h1, h2⟩ := hs.constructed h.1 h.2
    exact absurd hw (not_or.2 ⟨h1, h2⟩)
  | dtorQuit t =>
    have hheld := published_of_quits hs.handshake (Or.inl rfl) h
    rcases hw with hw | hw <;> simp [show s.worker = _ from hw] at hheld
  | start => exact hs.fresh (Or.inl (hs.handshake.idle h))
  | construct => rfl
  | publish | clear | destroy => rcases hw with hw | hw <;> cases hw
  | startReturn | dtorCopy | dtorJoin => exact hs.fresh hw

/-- A step of the thread is a step of its loop or leaves the loop as it was. -/
theorem loop_after {s : EventLoopThread T F} {l : Label T F} (hs : s.Fresh) (h : s.enabled l) :
    Lts.exec EventLoop.step s.loop l.inner.toList = some (s.after l).loop := by
  cases l with
  | inLoop l => exact Lts.guarded_exec_cons.2 ⟨h.2, rfl⟩
  | dtorQuit t => exact Lts.guarded_exec_cons.2 ⟨h.2, rfl⟩
  | construct => exact congrArg some (hs.fresh (Or.inr h))
  | start | startReturn | publish | clear | destroy | dtorCopy | dtorJoin => rfl

/-- The loop of a thread goes through a run of its own. -/
theorem loop_run {s t : EventLoopThread T F} {ls : List (Label T F)} (hs : s.Fresh)
    (h : Lts.exec step s ls = some t) :
    Lts.exec EventLoop.step s.loop (loopLabels ls) = some t.loop := by
  induction ls generalizing s with
  | nil =>
    cases h
    rfl
  | cons l ls ih =>
    obtain ⟨hen, hut⟩ := Lts.guarded_exec_cons.1 h
    have hcons : loopLabels (l :: ls) = l.inner.toList ++ loopLabels ls := by
      rw [loopLabels, loopLabels, List.filterMap_cons]
      cases l.inner <;> rfl
    rw [hcons]
    exact Lts.exec_append_iff.2 ⟨_, loop_after hs hen, ih (fresh_after hs hen) hut⟩

omit [DecidableEq T] in
theorem mem_loopLabels {ls : List (Label T F)} {l : EventLoop.Label T F}
    (hl : ∀ t, l ≠ .quitStore t) : l ∈ loopLabels ls ↔ .inLoop l ∈ ls := by
  rw [loopLabels, List.mem_filterMap]
  constructor
  · rintro ⟨a, ha, hal⟩
    cases a with
    | inLoop a => rwa [← Option.some.inj hal]
    | dtorQuit t => exact absurd (Option.some.inj hal).symm (hl t)
    | _ => cases hal
  · intro ha
    exact ⟨_, ha, rfl⟩

/-- **Functors queued before `loop()`.**  Of a loop on its own, and of the loop of a thread whose
`callback_` may have queued functors: the first `poll` is entered with functors queued and no wakeup
due exactly in the runs in which the loop thread has queued some of them itself, before `loop()`,
and no other thread has pushed a functor or written the eventfd. -/
theorem first_poll_woken_iff :
    (∀ (ls : List (EventLoop.Label T F)) (s s' : EventLoop T F),
      Lts.exec EventLoop.step .init ls = some s → .poll ∉ ls → EventLoop.step s .poll = some s' →
        ((s'.pendingFunctors_ ≠ [] → s'.wakeupFd_ ≠ 0 ∨ ∃ t, s'.pc t = .pushed) ↔
          (∀ f, .loopPush f ∉ ls) ∨ ∃ l ∈ ls, l.elsewhere = true)) ∧
    ∀ (ls : List (Label T F)) (s s' : EventLoopThread T F),
      Lts.exec step init ls = some s → .inLoop .poll ∉ ls → step s (.inLoop .poll) = some s' →
        ((s'.loop.pendingFunctors_ ≠ [] → s'.loop.wakeupFd_ ≠ 0 ∨ ∃ t, s'.loop.pc t = .pushed) ↔
          (∀ f, .inLoop (.loopPush f) ∉ ls) ∨ ∃ l ∈ loopLabels ls, l.elsewhere = true) := by
  constructor
  · intro ls s s' hrun hfirst hpoll
    exact EventLoop.woken_at_first_poll_iff hrun hfirst hpoll
  · intro ls s s' hrun hfirst hpoll
    obtain ⟨hen, rfl⟩ := Lts.guarded_eq_some.1 hpoll
    have hloop : Lts.exec EventLoop.step .init (loopLabels ls) = some s.loop :=
      loop_run fresh_init hrun
    have hfirst' : .poll ∉ loopLabels ls := by rwa [mem_loopLabels (by simp)]
    have hpush : (∀ f, .loopPush f ∉ loopLabels ls) ↔ ∀ f, .inLoop (.loopPush f) ∉ ls :=
      forall_congr' fun f => by rw [mem_loopLabels (by simp)]
    rw [← hpush]
    exact EventLoop.woken_at_first_poll_iff hloop hfirst' (Lts.guarded_eq_some.2 ⟨hen.2, rfl⟩)

/-- `callback_` queues a functor, and the loop goes to sleep with it. -/
private def callbackRun : List (Label Unit ℕ) :=
  [.start, .construct, .inLoop (.loopPush 0), .inLoop .loopWakeup, .publish, .startReturn,
    .inLoop .enter, .inLoop .test]

theorem first_poll_asleep :
    (∃ s s' : EventLoopThread Unit ℕ, Lts.exec step init callbackRun = some s ∧
      .inLoop .poll ∉ callbackRun ∧ step s (.inLoop .poll) = some s' ∧
      s'.loop.pendingFunctors_ = [(none, 0)] ∧ s'.loop.wakeupFd_ = 0 ∧
      ∀ t, s'.loop.pc t = .idle) ∧
    ∃ s s' : EventLoop Unit ℕ,
      Lts.exec EventLoop.step .init [.loopPush 0, .loopWakeup, .enter, .test] = some s ∧
      EventLoop.step s .poll = some s' ∧ s'.pendingFunctors_ = [(none, 0)] ∧ s'.wakeupFd_ = 0 ∧
      ∀ t, s'.pc t = .idle :=
  ⟨⟨_, _, rfl, by decide, rfl, rfl, rfl, fun _ => rfl⟩, _, _, rfl, rfl, rfl, rfl, fun _ => rfl⟩

/-- Another thread has pushed a functor behind that of `callback_`. -/
theorem first_poll_woken_iff_pushed :
    ∃ s' : EventLoopThread Unit ℕ, s'.loop.pendingFunctors_ = [(none, 0), (some (), 1)] ∧
      (s'.loop.wakeupFd_ ≠ 0 ∨ ∃ t, s'.loop.pc t = .pushed) := by
  have hrun : (Lts.exec step init (callbackRun ++ [.inLoop (.push () 1)])).isSome := rfl
  have hpoll : (step ((Lts.exec step init (callbackRun ++ [.inLoop (.push () 1)])).get hrun)
    (.inLoop .poll)).isSome := rfl
  have h := (first_poll_woken_iff.2 _ _ _ (Option.some_get hrun).symm (by decide)
    (Option.some_get hpoll).symm).2 (Or.inr ⟨.push () 1, by decide, rfl⟩)
  exact ⟨_, rfl, h (List.cons_ne_nil _ _)⟩

end EventLoopThread

end Muduo
