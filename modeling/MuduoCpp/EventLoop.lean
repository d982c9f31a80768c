import MuduoCpp.Lib.Run
import Mathlib.Tactic

/-!
# `src/EventLoop.cc`: the loop, its task queue and its wakeups

One loop thread runs `loop()`; the threads of the type `T` are the others.  A step is one access to
what the threads share: `quit_`, the locked `pendingFunctors_`, the eventfd.  So the push of
`queueInLoop` and its `wakeup()` are two steps, and so are the store and the `wakeup()` of
`quit()`; any steps of other threads may come between them.

The position of the loop thread is a `Phase`.  Functors are values of an arbitrary type `F`; the
queue keeps with each of them the thread that pushed it (`none` is the loop thread), which the code
does not record and no step reads.

* `EventLoop.enabled`, `EventLoop.after`: guard and effect of each step;
* `functors_once`: nothing is lost, repeated or reordered on the way through the queue, and what a
  batch queues is left to the next one;
* `no_lost_wakeup`: a loop that is about to block has been or is being woken;
* `woken_at_first_poll_iff`: when this holds of a loop whose own thread has queued functors before
  `loop()`;
* `tasks_before_quit_iff`: when a `quit()` lets every task queued before it run.
-/

namespace Muduo

/-- Where the loop thread is.  `entry` lasts from the construction of the loop to the store
`quit_ = false` at the head of `loop()`; `swap` is `doPendingFunctors` before the lock is taken. -/
inductive Phase
  | entry
  | test
  | ready
  | poll
  | dispatch
  | swap
  | functors
  | returned
  deriving DecidableEq, Repr

/-- Channel callbacks run in `dispatch`, functor bodies in `functors`, and what the thread does
before it calls `loop()` in `entry`: there the loop thread may call `queueInLoop` and `quit`. -/
def Phase.runsUserCode (p : Phase) : Prop := p = .entry ∨ p = .dispatch ∨ p = .functors

instance (p : Phase) : Decidable p.runsUserCode := inferInstanceAs (Decidable (_ ∨ _ ∨ _))

/-- Where another thread is: inside `queueInLoop` after the push, inside `quit()` after the store,
or in neither. -/
inductive Pc
  | idle
  | pushed
  | quitStored
  deriving DecidableEq, Repr

/-- A queued functor and the thread that pushed it. -/
abbrev Entry (T F : Type) := Option T × F

/-- `EventLoop`, with where each thread is in the functions that it runs. -/
structure EventLoop (T F : Type) where
  phase : Phase
  quit_ : Bool
  callingPendingFunctors_ : Bool
  pendingFunctors_ : List (Entry T F)
  /-- The rest of the batch that `doPendingFunctors` has swapped out. -/
  functors : List (Entry T F)
  /-- The functors run so far. -/
  executed : List (Entry T F)
  /-- The counter of the eventfd. -/
  wakeupFd_ : ℕ
  /-- The loop thread is inside `queueInLoop`, after the push. -/
  loopPushed : Bool
  pc : T → Pc

namespace EventLoop

variable {T F : Type}

/-- A newly constructed loop. -/
def init : EventLoop T F where
  phase := .entry
  quit_ := false
  callingPendingFunctors_ := false
  pendingFunctors_ := []
  functors := []
  executed := []
  wakeupFd_ := 0
  loopPushed := false
  pc := fun _ => .idle

/-- A step of the loop thread, or of the thread `t`. -/
inductive Label (T F : Type)
  | enter
  | test
  | poll
  | pollReturn
  | handleRead
  | doPendingFunctors
  | swap
  | functor
  | finish
  | loopPush (f : F)
  | loopWakeup
  | loopQuit
  | push (t : T) (f : F)
  | wakeup (t : T)
  | quitStore (t : T)
  deriving DecidableEq, Repr

/-- When a step can be taken. -/
def enabled (s : EventLoop T F) : Label T F → Prop
  | .enter => s.phase = .entry ∧ s.loopPushed = false
  | .test => s.phase = .test
  | .poll => s.phase = .ready
  | .pollReturn => s.phase = .poll
  | .handleRead => s.phase = .dispatch ∧ s.loopPushed = false
  | .doPendingFunctors => s.phase = .dispatch ∧ s.loopPushed = false
  | .swap => s.phase = .swap
  | .functor => s.phase = .functors ∧ s.functors ≠ [] ∧ s.loopPushed = false
  | .finish => s.phase = .functors ∧ s.functors = [] ∧ s.loopPushed = false
  | .loopPush _ => s.phase.runsUserCode ∧ s.loopPushed = false
  | .loopWakeup => s.loopPushed = true
  | .loopQuit => s.phase.runsUserCode ∧ s.loopPushed = false
  | .push t _ => s.pc t = .idle
  | .wakeup t => s.pc t ≠ .idle
  | .quitStore t => s.pc t = .idle

instance (s : EventLoop T F) : DecidablePred s.enabled := fun l => by
  cases l <;> unfold enabled <;> infer_instance

variable [DecidableEq T]

/-- What a step does. -/
def after (s : EventLoop T F) : Label T F → EventLoop T F
  -- `looping_ = true; quit_ = false;`
  | .enter => { s with quit_ := false, phase := .test }
  -- `while (!quit_)`
  | .test => { s with phase := if s.quit_ then .returned else .ready }
  | .poll => { s with phase := .poll }
  | .pollReturn => { s with phase := .dispatch }
  -- the callback of `wakeupChannel_`
  | .handleRead => { s with wakeupFd_ := 0 }
  | .doPendingFunctors => { s with callingPendingFunctors_ := true, phase := .swap }
  | .swap => { s with functors := s.pendingFunctors_, pendingFunctors_ := [], phase := .functors }
  | .functor => { s with functors := s.functors.tail, executed := s.executed ++ s.functors.take 1 }
  | .finish => { s with callingPendingFunctors_ := false, phase := .test }
  -- `queueInLoop` on the loop thread
  | .loopPush f =>
      { s with pendingFunctors_ := s.pendingFunctors_ ++ [(none, f)], loopPushed := true }
  | .loopWakeup =>
      { s with
        wakeupFd_ := if s.callingPendingFunctors_ then s.wakeupFd_ + 1 else s.wakeupFd_
        loopPushed := false }
  | .loopQuit => { s with quit_ := true }
  -- `queueInLoop` on another thread
  | .push t f =>
      { s with
        pendingFunctors_ := s.pendingFunctors_ ++ [(some t, f)]
        pc := Function.update s.pc t .pushed }
  | .wakeup t => { s with wakeupFd_ := s.wakeupFd_ + 1, pc := Function.update s.pc t .idle }
  -- `quit()` on another thread
  | .quitStore t => { s with quit_ := true, pc := Function.update s.pc t .quitStored }

/-- One step of any thread. -/
def step : EventLoop T F → Label T F → Option (EventLoop T F) := Lts.guarded enabled after

/-! ### The way through the queue -/

/-- What a step pushes. -/
def Label.entry : Label T F → Option (Entry T F)
  | .loopPush f => some (none, f)
  | .push t f => some (some t, f)
  | _ => none

/-- The functors pushed by a sequence of steps, in the order of their pushes. -/
def pushes (ls : List (Label T F)) : List (Entry T F) := ls.filterMap Label.entry

/-- What was run, what is left of the batch, what is queued. -/
def all (s : EventLoop T F) : List (Entry T F) := s.executed ++ s.functors ++ s.pendingFunctors_

/-- A batch is swapped out only between `swap` and `finish`. -/
def BatchOk (s : EventLoop T F) : Prop := s.phase ≠ .functors → s.functors = []

theorem all_after {s : EventLoop T F} {l : Label T F} (hb : s.BatchOk) (h : s.enabled l) :
    (s.after l).BatchOk ∧ (s.after l).all = s.all ++ l.entry.toList := by
  unfold BatchOk at hb ⊢
  cases l with
  | swap =>
    have hnil : s.functors = [] := hb (by rw [show s.phase = .swap from h]; decide)
    simp [after, all, Label.entry, hnil]
  | functor =>
    obtain ⟨hp, hne, -⟩ := h
    obtain ⟨e, rest, hf⟩ := List.exists_cons_of_ne_nil hne
    simp [after, all, Label.entry, hf, hp]
  | test =>
    have hp : s.phase = .test := h
    cases hq : s.quit_ <;> simp_all [after, all, Label.entry]
  | enter | poll | pollReturn | handleRead | doPendingFunctors | finish =>
    simp_all [enabled, after, all, Label.entry]
  | loopPush f | loopWakeup | loopQuit | push t f | wakeup t | quitStore t =>
    simpa [after, all, Label.entry] using hb

/-- **Run, rest of the batch and queue are the pushes in their order.** -/
theorem functors_in_order {s t : EventLoop T F} {ls : List (Label T F)} (hb : s.BatchOk)
    (h : Lts.exec step s ls = some t) : t.BatchOk ∧ t.all = s.all ++ pushes ls := by
  induction ls generalizing s with
  | nil =>
    cases h
    exact ⟨hb, by simp [pushes]⟩
  | cons l ls ih =>
    obtain ⟨hen, hut⟩ := Lts.guarded_exec_cons.1 h
    obtain ⟨hb', hall⟩ := all_after hb hen
    obtain ⟨hbt, ht⟩ := ih hb' hut
    refine ⟨hbt, ?_⟩
    rw [ht, hall, List.append_assoc, pushes, pushes, List.filterMap_cons]
    cases l.entry <;> simp

/-- Until the next swap the batch gets nothing, and the queue what is pushed. -/
theorem batch_after {s : EventLoop T F} {l : Label T F} (h : s.enabled l) (hl : l ≠ .swap) :
    (s.after l).executed ++ (s.after l).functors = s.executed ++ s.functors ∧
      (s.after l).pendingFunctors_ = s.pendingFunctors_ ++ l.entry.toList := by
  cases l with
  | swap => exact absurd rfl hl
  | functor =>
    obtain ⟨-, hne, -⟩ := h
    obtain ⟨e, rest, hf⟩ := List.exists_cons_of_ne_nil hne
    simp [after, Label.entry, hf]
  | _ => simp [after, Label.entry]

theorem batch_of_no_swap {s t : EventLoop T F} {ls : List (Label T F)} (hls : .swap ∉ ls)
    (h : Lts.exec step s ls = some t) :
    t.executed ++ t.functors = s.executed ++ s.functors ∧
      t.pendingFunctors_ = s.pendingFunctors_ ++ pushes ls := by
  induction ls generalizing s with
  | nil =>
    cases h
    exact ⟨rfl, (List.append_nil _).symm⟩
  | cons l ls ih =>
    obtain ⟨hen, hut⟩ := Lts.guarded_exec_cons.1 h
    rw [List.mem_cons, not_or] at hls
    obtain ⟨hbatch, hqueue⟩ := batch_after hen (Ne.symm hls.1)
    obtain ⟨hbatch', hqueue'⟩ := ih hls.2 hut
    refine ⟨hbatch'.trans hbatch, ?_⟩
    rw [hqueue', hqueue, List.append_assoc, pushes, pushes, List.filterMap_cons]
    cases l.entry <;> simp

/-- **Each functor once, and in order.**  What was run, the rest of the batch and the queue are the
functors in the order of their pushes, so a thread's functors run in that thread's order; and while
the loop does not swap again, what is pushed stays in the queue. -/
theorem functors_once {pre post : List (Label T F)} {s t : EventLoop T F}
    (hpre : Lts.exec step init pre = some s) (hpost : Lts.exec step s post = some t) :
    t.executed ++ t.functors ++ t.pendingFunctors_ = pushes (pre ++ post) ∧
      (∀ q, t.executed.filter (fun e => e.1 = q) <+:
        (pushes (pre ++ post)).filter fun e => e.1 = q) ∧
      (.swap ∉ post → t.executed ++ t.functors = s.executed ++ s.functors ∧
        t.pendingFunctors_ = s.pendingFunctors_ ++ pushes post) := by
  have hbatch : (init : EventLoop T F).BatchOk := fun _ => rfl
  have hall : t.all = pushes (pre ++ post) :=
    (functors_in_order hbatch (Lts.exec_append_iff.2 ⟨s, hpre, hpost⟩)).2
  refine ⟨hall, fun q => ?_, fun hls => batch_of_no_swap hls hpost⟩
  rw [← hall, all, List.append_assoc, List.filter_append]
  exact List.prefix_append _ _

/-- A functor queues itself again while its batch runs, another thread queues one too. -/
private def againRun : List (Label Unit ℕ) :=
  [.enter, .test, .poll, .push () 0, .wakeup (), .pollReturn, .handleRead,
    .doPendingFunctors, .swap, .functor]

theorem functors_once_again :
    ∃ s t : EventLoop Unit ℕ, s.phase = .functors ∧
      t.executed ++ t.functors ++ t.pendingFunctors_ = [(some (), 0), (none, 0), (some (), 1)] ∧
      t.pendingFunctors_ = s.pendingFunctors_ ++ [(none, 0), (some (), 1)] := by
  have h : (Lts.exec step init againRun).isSome := rfl
  have h' : (Lts.exec step ((Lts.exec step init againRun).get h)
    [.loopPush 0, .loopWakeup, .push () 1, .finish]).isSome := rfl
  obtain ⟨hall, -, hbatch⟩ := functors_once (Option.some_get h).symm (Option.some_get h').symm
  exact ⟨_, _, rfl, hall, (hbatch (by decide)).2⟩

/-! ### Wakeups -/

/-- A wakeup has been written and not read, or is about to be written. -/
def WakeupDue (s : EventLoop T F) : Prop :=
  s.wakeupFd_ ≠ 0 ∨ (∃ t, s.pc t = .pushed) ∨ s.loopPushed = true

/-- Between a swap and the next dispatch, whatever is queued has its wakeup due; the loop thread
itself is inside `queueInLoop` only where user code runs, and then
`callingPendingFunctors_` says whether it will write the eventfd. -/
structure WakeupInv (s : EventLoop T F) : Prop where
  calling : s.callingPendingFunctors_ = true ↔ s.phase = .swap ∨ s.phase = .functors
  loopPushed : s.loopPushed = true → s.phase = .dispatch ∨ s.phase = .functors
  due : s.phase ≠ .dispatch → s.phase ≠ .swap → s.pendingFunctors_ ≠ [] → s.WakeupDue

omit [DecidableEq T] in
theorem wakeupInv_init : (init : EventLoop T F).WakeupInv := by
  constructor <;> simp [init]

/-- The loop thread queues nothing before it has entered `loop()`. -/
def QueuesInside (s : EventLoop T F) : Label T F → Prop
  | .loopPush _ => s.phase ≠ .entry
  | _ => True

instance (s : EventLoop T F) : DecidablePred s.QueuesInside
  | .loopPush _ => inferInstanceAs (Decidable (_ ≠ _))
  | .enter | .test | .poll | .pollReturn | .handleRead | .doPendingFunctors | .swap | .functor
  | .finish | .loopWakeup | .loopQuit | .push _ _ | .wakeup _ | .quitStore _ => isTrue trivial

theorem wakeupInv_after {s : EventLoop T F} {l : Label T F} (hi : s.WakeupInv)
    (hl : s.QueuesInside l) (h : s.enabled l) : (s.after l).WakeupInv := by
  obtain ⟨hcall, hpushed, hdue⟩ := hi
  cases l with
  | test =>
    have hp : s.phase = .test := h
    have hdue' := hdue (by simp [hp]) (by simp [hp])
    cases hq : s.quit_ <;> constructor <;> simp_all [after, WakeupDue]
  | handleRead | doPendingFunctors | swap => constructor <;> simp_all [enabled, after]
  | enter | poll | pollReturn | functor | finish =>
    constructor <;> simp_all [enabled, after, WakeupDue]
  | loopPush f =>
    obtain ⟨hp | hp | hp, -⟩ := h
    · exact absurd hp hl
    · exact ⟨hcall, fun _ => Or.inl hp, fun hne => absurd hp hne⟩
    · exact ⟨hcall, fun _ => Or.inr hp, fun _ _ _ => Or.inr (Or.inr rfl)⟩
  | loopWakeup =>
    -- outside `dispatch` and `swap` the loop thread is in a functor body, so it does wake itself
    refine ⟨hcall, by simp [after], fun hd hs _ => Or.inl ?_⟩
    have hf : s.phase = .functors := (hpushed h).resolve_left hd
    simp [after, hcall.2 (Or.inr hf)]
  | loopQuit => exact ⟨hcall, hpushed, hdue⟩
  | push t f => exact ⟨hcall, hpushed, fun _ _ _ => Or.inr (Or.inl ⟨t, by simp [after]⟩)⟩
  | wakeup t => exact ⟨hcall, hpushed, fun _ _ _ => Or.inl (Nat.succ_ne_zero _)⟩
  | quitStore t =>
    refine ⟨hcall, hpushed, fun hd hs hne => ?_⟩
    rcases hdue hd hs hne with hw | ⟨u, hu⟩ | hw
    · exact Or.inl hw
    · -- `t` was idle, so it is not the thread that owes the wakeup
      have hut : u ≠ t := by
        rintro rfl
        rw [show s.pc u = .idle from h] at hu
        cases hu
      exact Or.inr (Or.inl ⟨u, by simpa [after, Function.update_of_ne hut] using hu⟩)
    · exact Or.inr (Or.inr hw)

/-- **No lost wakeup.** -/
theorem no_lost_wakeup {s : EventLoop T F} {ls : List (Label T F)}
    (hls : Lts.Along step QueuesInside init ls) (h : Lts.exec step init ls = some s)
    (hp : s.phase = .ready ∨ s.phase = .poll) (hne : s.pendingFunctors_ ≠ []) :
    s.wakeupFd_ ≠ 0 ∨ ∃ t, s.pc t = .pushed := by
  have hi := Lts.guarded_inv (fun _ _ => wakeupInv_after) wakeupInv_init hls h
  have hdue := hi.due (by rcases hp with hp | hp <;> simp [hp])
    (by rcases hp with hp | hp <;> simp [hp]) hne
  rcases hdue with hw | ht | hl
  · exact Or.inl hw
  · exact Or.inr ht
  · have := hi.loopPushed hl
    rcases hp with hp | hp <;> simp [hp] at this

/-- A functor body queues a functor: the loop wakes itself before it polls again. -/
private def requeueRun : List (Label Unit ℕ) :=
  [.enter, .test, .poll, .push () 0, .wakeup (), .pollReturn, .handleRead, .doPendingFunctors,
    .swap, .functor, .loopPush 1, .loopWakeup, .finish, .test, .poll]

theorem no_lost_wakeup_requeue :
    ∃ s : EventLoop Unit ℕ, s.phase = .poll ∧ s.pendingFunctors_ = [(none, 1)] ∧
      (s.wakeupFd_ ≠ 0 ∨ ∃ t, s.pc t = .pushed) := by
  have h : (Lts.exec step init requeueRun).isSome := rfl
  exact ⟨_, rfl, rfl, no_lost_wakeup (by decide : Lts.Along step QueuesInside init requeueRun)
    (Option.some_get h).symm (Or.inr rfl) (List.cons_ne_nil _ _)⟩

/-! ### The first poll -/

/-- A wakeup has been written and not read, or another thread is about to write one. -/
def Woken (s : EventLoop T F) : Prop := s.wakeupFd_ ≠ 0 ∨ ∃ t, s.pc t = .pushed

/-- A step of another thread that owes the loop a wakeup or writes it. -/
def Label.elsewhere : Label T F → Bool
  | .push _ _ | .wakeup _ => true
  | _ => false

/-- The loop has not polled yet; it runs no functors. -/
structure Unpolled (s : EventLoop T F) : Prop where
  phase : s.phase = .entry ∨ s.phase = .test ∨ s.phase = .ready ∨ s.phase = .returned
  calling : s.callingPendingFunctors_ = false

omit [DecidableEq T] in
theorem unpolled_init : (init : EventLoop T F).Unpolled := ⟨Or.inl rfl, rfl⟩

omit [DecidableEq T] in
/-- What the loop does after a poll it cannot do yet. -/
theorem Unpolled.phase_ne {s : EventLoop T F} (hs : s.Unpolled) :
    s.phase ≠ .poll ∧ s.phase ≠ .dispatch ∧ s.phase ≠ .swap ∧ s.phase ≠ .functors := by
  rcases hs.phase with hp | hp | hp | hp <;> simp [hp]

theorem unpolled_after {s : EventLoop T F} {l : Label T F} (hs : s.Unpolled) (hl : l ≠ .poll)
    (h : s.enabled l) : (s.after l).Unpolled ∧ l ≠ .swap := by
  obtain ⟨hpoll, hdispatch, hswap, hfunctors⟩ := hs.phase_ne
  obtain ⟨hp, hcall⟩ := hs
  cases l with
  | enter => exact ⟨⟨Or.inr (Or.inl rfl), hcall⟩, by simp⟩
  | test => cases hq : s.quit_ <;> exact ⟨⟨by simp [after, hq], hcall⟩, by simp⟩
  | poll => exact absurd rfl hl
  | pollReturn => exact absurd h hpoll
  | swap => exact absurd h hswap
  | handleRead | doPendingFunctors => exact absurd h.1 hdispatch
  | functor | finish => exact absurd h.1 hfunctors
  | loopPush f | loopWakeup | loopQuit | push t f | wakeup t | quitStore t =>
    exact ⟨⟨hp, hcall⟩, by simp⟩

/-- Before the first poll only the other threads wake the loop: what the loop thread queues itself
it queues outside `doPendingFunctors`. -/
theorem woken_after {s : EventLoop T F} {l : Label T F} (hs : s.Unpolled) (hl : l ≠ .poll)
    (h : s.enabled l) : (s.after l).Woken ↔ s.Woken ∨ l.elsewhere = true := by
  obtain ⟨-, hdispatch, -, -⟩ := hs.phase_ne
  cases l with
  | poll => exact absurd rfl hl
  -- the one step that takes a wakeup away comes after a poll
  | handleRead => exact absurd h.1 hdispatch
  | enter | test | pollReturn | doPendingFunctors | swap | functor | finish | loopPush f
  | loopQuit => simp [Woken, after, Label.elsewhere]
  | loopWakeup => simp [Woken, after, hs.calling, Label.elsewhere]
  | push t f => exact iff_of_true (Or.inr ⟨t, by simp [after]⟩) (Or.inr rfl)
  | wakeup t => exact iff_of_true (Or.inl (Nat.succ_ne_zero _)) (Or.inr rfl)
  | quitStore t =>
    -- `t` was idle before and is not inside `queueInLoop` now
    have hidle : s.pc t = .idle := h
    have hpushed (u : T) : (s.after (.quitStore t)).pc u = .pushed ↔ s.pc u = .pushed := by
      by_cases hu : u = t
      · simp [after, hu, hidle]
      · simp [after, Function.update_of_ne hu]
    simp only [Woken, hpushed, Label.elsewhere, Bool.false_eq_true, or_false]
    rfl

/-- Up to the first poll there is no swap, and the loop is woken if another thread did something. -/
theorem unpolled_run {s t : EventLoop T F} {ls : List (Label T F)} (hs : s.Unpolled)
    (hls : .poll ∉ ls) (h : Lts.exec step s ls = some t) :
    .swap ∉ ls ∧ (t.Woken ↔ s.Woken ∨ ∃ l ∈ ls, l.elsewhere = true) := by
  induction ls generalizing s with
  | nil =>
    cases h
    exact ⟨List.not_mem_nil, by simp⟩
  | cons l ls ih =>
    obtain ⟨hen, hut⟩ := Lts.guarded_exec_cons.1 h
    rw [List.mem_cons, not_or] at hls
    obtain ⟨hs', hswap⟩ := unpolled_after hs (Ne.symm hls.1) hen
    obtain ⟨hswaps, hwoken⟩ := ih hs' hls.2 hut
    refine ⟨by simp [Ne.symm hswap, hswaps], ?_⟩
    rw [hwoken, woken_after hs (Ne.symm hls.1) hen, or_assoc, List.exists_mem_cons_iff]

omit [DecidableEq T] in
/-- Something is pushed either by the loop thread or elsewhere. -/
theorem elsewhere_of_pushes {ls : List (Label T F)} (hne : pushes ls ≠ [])
    (hloop : ∀ f, .loopPush f ∉ ls) : ∃ l ∈ ls, l.elsewhere = true := by
  obtain ⟨e, he⟩ := List.exists_mem_of_ne_nil _ hne
  obtain ⟨l, hl, hle⟩ := List.mem_filterMap.1 he
  cases l with
  | loopPush f => exact absurd hl (hloop f)
  | push t f => exact ⟨_, hl, rfl⟩
  | _ => cases hle

/-- **The first poll.**  When the loop enters its first `poll` with functors queued, it is woken,
unless the loop thread has queued one of them before `loop()` and no other thread has queued any or
written the eventfd. -/
theorem woken_at_first_poll_iff {s s' : EventLoop T F} {ls : List (Label T F)}
    (hrun : Lts.exec step init ls = some s) (hfirst : .poll ∉ ls) (hpoll : step s .poll = some s') :
    (s'.pendingFunctors_ ≠ [] → s'.Woken) ↔
      (∀ f, .loopPush f ∉ ls) ∨ ∃ l ∈ ls, l.elsewhere = true := by
  obtain ⟨-, rfl⟩ := Lts.guarded_eq_some.1 hpoll
  obtain ⟨hswap, hwoken⟩ := unpolled_run unpolled_init hfirst hrun
  have hinit : ¬ (init : EventLoop T F).Woken := by simp [Woken, init]
  have hqueue : s.pendingFunctors_ = pushes ls := (batch_of_no_swap hswap hrun).2
  have hwoken' : (s.after .poll).Woken ↔ ∃ l ∈ ls, l.elsewhere = true := by
    rw [show (s.after .poll).Woken ↔ s.Woken from Iff.rfl, hwoken, or_iff_right hinit]
  rw [show (s.after .poll).pendingFunctors_ = s.pendingFunctors_ from rfl, hqueue, hwoken']
  constructor
  · intro hdue
    refine or_iff_not_imp_right.2 fun hnone f hf => hnone (hdue ?_)
    exact List.ne_nil_of_mem (List.mem_filterMap.2 ⟨_, hf, rfl⟩)
  · rintro (hloop | hsome) hne
    · exact elsewhere_of_pushes hne hloop
    · exact hsome

/-! ### `quit()` and the tasks queued before it -/

/-- The functors of `l` that the thread `q` pushed. -/
def byThread (q : T) (l : List (Entry T F)) : List F :=
  l.filterMap fun e => if e.1 = some q then some e.2 else none

/-- A step that stores `true` into `quit_`. -/
def Label.isQuit : Label T F → Bool
  | .loopQuit | .quitStore _ => true
  | _ => false

theorem byThread_append (q : T) (l m : List (Entry T F)) :
    byThread q (l ++ m) = byThread q l ++ byThread q m := List.filterMap_append

theorem byThread_eq_nil {q : T} {l : List (Entry T F)} :
    byThread q l = [] ↔ ∀ e ∈ l, e.1 ≠ some q := by
  simp [byThread, List.filterMap_eq_nil_iff]

omit [DecidableEq T] in
theorem pushes_append (ls ms : List (Label T F)) : pushes (ls ++ ms) = pushes ls ++ pushes ms :=
  List.filterMap_append

/-- Without a `quit()` the loop goes on. -/
theorem running_of_no_quit {s t : EventLoop T F} {ls : List (Label T F)}
    (hs : s.quit_ = false ∧ s.phase ≠ .returned) (hls : ∀ l ∈ ls, l.isQuit = false)
    (h : Lts.exec step s ls = some t) : t.quit_ = false ∧ t.phase ≠ .returned := by
  refine Lts.guarded_inv (I := fun s => s.quit_ = false ∧ s.phase ≠ .returned)
    (P := fun _ l => l.isQuit = false) (fun s l hs hl hen => ?_) hs (Lts.along_of_forall hls) h
  obtain ⟨hq, hp⟩ := hs
  cases l <;> simp_all [after, enabled, Label.isQuit]

/-- What keeps a task of `q` from being dropped, once `q` queues no more: the loop will not return
(its own store erased the request), or it still has a swap before its next test of `quit_`, or
nothing of `q` is queued. -/
def Safe (q : T) (s : EventLoop T F) : Prop :=
  (s.quit_ = false ∧ s.phase ≠ .returned) ∨ s.phase = .entry ∨
    (s.phase = .ready ∨ s.phase = .poll ∨ s.phase = .dispatch ∨ s.phase = .swap) ∨
    byThread q s.pendingFunctors_ = []

/-- The loop is past its last swap and something of `q` is queued. -/
def Late (q : T) (s : EventLoop T F) : Prop :=
  s.quit_ = true ∧ (s.phase = .test ∨ s.phase = .functors ∨ s.phase = .returned) ∧
    byThread q s.pendingFunctors_ ≠ []

/-- A step after the store of `quit()`, in which nobody quits and `q` pushes nothing. -/
def Settled (q : T) (l : Label T F) : Prop :=
  l.isQuit = false ∧ byThread q l.entry.toList = []

instance (q : T) (l : Label T F) [DecidableEq F] : Decidable (Settled q l) :=
  inferInstanceAs (Decidable (_ ∧ _))

theorem safe_after {q : T} {s : EventLoop T F} {l : Label T F} (hs : Safe q s)
    (hl : Settled q l) (h : s.enabled l) : Safe q (s.after l) := by
  obtain ⟨hquit, hpush⟩ := hl
  cases l with
  | enter => exact Or.inl ⟨rfl, by simp [after]⟩
  | test =>
    have hp : s.phase = .test := h
    cases hq : s.quit_ <;> simp_all [Safe, after]
  | poll => exact Or.inr (Or.inr (Or.inl (Or.inr (Or.inl rfl))))
  | pollReturn => exact Or.inr (Or.inr (Or.inl (Or.inr (Or.inr (Or.inl rfl)))))
  | doPendingFunctors => exact Or.inr (Or.inr (Or.inl (Or.inr (Or.inr (Or.inr rfl)))))
  -- after the swap the queue is empty, whatever was in it
  | swap => exact Or.inr (Or.inr (Or.inr rfl))
  | finish => simp_all [Safe, after, enabled]
  | loopPush f | push t f =>
    simp_all [Safe, after, byThread_append, Label.entry]
  | loopQuit => cases hquit
  | quitStore t => cases hquit
  | handleRead | functor | loopWakeup | wakeup t => exact hs

theorem late_after {q : T} {s : EventLoop T F} {l : Label T F} (hs : Late q s)
    (hl : Settled q l) (h : s.enabled l) : Late q (s.after l) := by
  obtain ⟨hquit, hp, hne⟩ := hs
  cases l with
  | test => exact ⟨hquit, Or.inr (Or.inr (if_pos hquit)), hne⟩
  | finish => exact ⟨hquit, Or.inl rfl, hne⟩
  | loopPush f | push t f =>
    exact ⟨hquit, hp, by simp [after, byThread_append, hne]⟩
  | loopQuit => exact ⟨rfl, hp, hne⟩
  | quitStore t => exact ⟨rfl, hp, hne⟩
  | handleRead | functor | loopWakeup | wakeup t => exact ⟨hquit, hp, hne⟩
  | enter | poll | pollReturn | doPendingFunctors | swap =>
    -- not enabled in the three phases
    rcases hp with hp | hp | hp <;> simp [enabled, hp] at h

/-- The tasks that `q` queued before its `quit()` have all been run when `loop()` returns, each once
and in order, if and only if `quit()` did not store its flag after the last swap while one of them
was queued. -/
theorem tasks_before_quit_iff {q : T} {pre post : List (Label T F)} {s t : EventLoop T F}
    (hpre : Lts.exec step init pre = some s)
    (hpost : Lts.exec step s (.quitStore q :: post) = some t)
    (hq : ∀ l ∈ pre, l.isQuit = false) (hsettled : ∀ l ∈ post, Settled q l)
    (hret : t.phase = .returned) :
    byThread q t.executed = byThread q (pushes pre) ↔
      ¬ ((s.phase = .test ∨ s.phase = .functors) ∧ byThread q s.pendingFunctors_ ≠ []) := by
  obtain ⟨hrun, hnret⟩ := running_of_no_quit (by simp [init]) hq hpre
  obtain ⟨-, hut⟩ := Lts.guarded_exec_cons.1 hpost
  have hbatch : (init : EventLoop T F).BatchOk := fun _ => rfl
  -- what `q` has pushed is what was run and what is still queued
  have hsplit :
      byThread q (pushes pre) = byThread q t.executed ++ byThread q t.pendingFunctors_ := by
    have hall := Lts.exec_append_iff.2 ⟨s, hpre, hpost⟩
    obtain ⟨hb, ht⟩ := functors_in_order hbatch hall
    have hnil : byThread q (pushes post) = [] := by
      rw [byThread_eq_nil]
      intro e he
      obtain ⟨l, hl, hle⟩ := List.mem_filterMap.1 he
      exact byThread_eq_nil.1 (hsettled l hl).2 e (by simp [hle])
    have hquit : pushes (.quitStore q :: post) = pushes post := rfl
    rw [all, hb (by simp [hret]), List.append_nil, pushes_append, hquit] at ht
    rw [← byThread_append, ht, byThread_append, byThread_append, hnil, List.append_nil]
    rfl
  have halong : Lts.Along step (fun _ l => Settled q l) (s.after (.quitStore q)) post :=
    Lts.along_of_forall hsettled
  rw [hsplit]
  constructor
  · rintro heq ⟨hp, hne⟩
    have hlate : Late q (s.after (.quitStore q)) :=
      ⟨rfl, by rcases hp with hp | hp <;> simp [after, hp], hne⟩
    have h := Lts.guarded_inv (I := Late q) (fun _ _ => late_after) hlate halong hut
    exact h.2.2 (List.self_eq_append_right.1 heq)
  · intro hok
    have hsafe : Safe q (s.after (.quitStore q)) := by
      by_cases hnil : byThread q s.pendingFunctors_ = []
      · exact Or.inr (Or.inr (Or.inr hnil))
      · refine Or.inr ?_
        cases hp : s.phase <;> simp_all [after]
    have h := Lts.guarded_inv (I := Safe q) (fun _ _ => safe_after) hsafe halong hut
    rcases h with ⟨-, hnot⟩ | hp | hp | hnil
    · exact absurd hret hnot
    · simp [hp] at hret
    · rcases hp with hp | hp | hp | hp <;> simp [hp] at hret
    · rw [hnil, List.append_nil]

/-- A task pushed while the batch runs, then `quit()`: `loop()` returns without running it. -/
private def droppedPre : List (Label Unit ℕ) :=
  [.enter, .test, .poll, .pollReturn, .doPendingFunctors, .swap, .push () 0, .wakeup ()]

private def droppedPost : List (Label Unit ℕ) := [.wakeup (), .finish, .test]

theorem task_before_quit_dropped :
    ∃ s t : EventLoop Unit ℕ, Lts.exec step init droppedPre = some s ∧
      Lts.exec step s (.quitStore () :: droppedPost) = some t ∧ t.phase = .returned ∧
      byThread () (pushes droppedPre) = [0] ∧ byThread () t.executed = [] :=
  ⟨_, _, rfl, rfl, rfl, rfl, rfl⟩

/-- The same task pushed before the swap is run. -/
private def keptPre : List (Label Unit ℕ) :=
  [.enter, .test, .poll, .push () 0, .wakeup (), .pollReturn]

private def keptPost : List (Label Unit ℕ) :=
  [.wakeup (), .handleRead, .doPendingFunctors, .swap, .functor, .finish, .test]

theorem tasks_before_quit_iff_kept :
    ∃ s t : EventLoop Unit ℕ, t.phase = .returned ∧
      (byThread () t.executed = byThread () (pushes keptPre) ↔
        ¬ ((s.phase = .test ∨ s.phase = .functors) ∧ byThread () s.pendingFunctors_ ≠ [])) := by
  have h : (Lts.exec step init keptPre).isSome := rfl
  have h' :
      (Lts.exec step ((Lts.exec step init keptPre).get h) (.quitStore () :: keptPost)).isSome :=
    rfl
  exact ⟨_, _, rfl, tasks_before_quit_iff (Option.some_get h).symm (Option.some_get h').symm
    (by decide) (by decide) rfl⟩

end EventLoop

end Muduo
