import MuduoCpp.Rounds
import MuduoCpp.Views

/-!
# `src/EventLoop.cc` under `src/TcpServer.cc`: the loops of a server

In a `TcpServer` a round of a loop is a few steps, and a functor that is queued is there at once.
In an `EventLoop` the queue is locked, other threads push and then write the eventfd, and the loop
thread tests `quit_` and polls.  Each loop of a server goes through a run of an `EventLoop`:

* `Loop.Turns`: what a step of the server does to one loop;
* `Loop.Matches`: the loop of the server and the `EventLoop` are at the same place;
* `loop_is_event_loop`: every run of the server is matched, for each loop, by a run of an
  `EventLoop` with the same queue that runs the same functors in the same rounds, and whose eventfd
  is readable whenever it polls with functors queued;
* `called_in_two_rounds`: so what is queued on a loop is run within two rounds of it.
-/

namespace Muduo

/-! ### What a run shows of the rounds -/

/-- A functor has run, a round has ended. -/
inductive Progress (F : Type)
  | ran (f : F)
  | round
  deriving DecidableEq, Repr

namespace Progress

variable {F : Type}

/-- The functor that has run. -/
def functor : Progress F → Option F
  | .ran f => some f
  | .round => none

/-- The end of a round. -/
def isRound : Progress F → Bool
  | .ran _ => false
  | .round => true

end Progress

namespace EventLoop

variable {T F : Type}

/-- What a step shows of the rounds. -/
def progress (s : EventLoop T F) : Label T F → List (Progress F)
  | .functor => (s.functors.take 1).map fun e => .ran e.2
  | .finish => [.round]
  | _ => []

/-- A run from `s` to `t` that shows `ps`. -/
def Goes [DecidableEq T] : EventLoop T F → EventLoop T F → List (Progress F) → Prop :=
  Lts.Shows step progress

/-- No thread is inside `queueInLoop` or `quit`, and nobody has quit the loop. -/
structure Resting (s : EventLoop T F) : Prop where
  quit_ : s.quit_ = false
  loopPushed : s.loopPushed = false
  idle : ∀ t, s.pc t = .idle
  wakeup : s.WakeupInv

variable [DecidableEq T] {s t : EventLoop T F} {l : Label T F} {ls : List (Label T F)}

theorem goes_step (hen : s.enabled l) : s.Goes (s.after l) (s.progress l) := by
  have hshows := Lts.Shows.cons (f := progress) (Lts.shows_refl (s := s.after l))
    (Lts.guarded_eq_some.2 ⟨hen, rfl⟩)
  rwa [List.append_nil] at hshows

theorem Goes.trans {u : EventLoop T F} {ps ps' : List (Progress F)} (h : s.Goes t ps)
    (h' : t.Goes u ps') : s.Goes u (ps ++ ps') :=
  Lts.Shows.trans h h'

/-- A step of the loop thread that runs no user code. -/
theorem resting_own (h : s.Resting) (hl : l.isOwn = true) (hen : s.enabled l) :
    (s.after l).Resting ∧ s.Goes (s.after l) (s.progress l) := by
  have hinside : s.QueuesInside l := by cases l <;> trivial
  refine ⟨⟨?_, ?_, ?_, wakeupInv_after h.wakeup hinside hen⟩, goes_step hen⟩
  · cases l <;> first | exact h.quit_ | rfl | cases hl
  · cases l <;> first | exact h.loopPushed | rfl | cases hl
  · cases l <;> first | exact h.idle | cases hl

/-- A call of `queueInLoop` by the thread `q` (`none`: the thread of the loop, in user code): the
push, then the eventfd. -/
theorem resting_push (h : s.Resting) (f : F) (q : Option T)
    (hq : q = none → s.phase = .dispatch ∨ s.phase = .functors) :
    ∃ u : EventLoop T F, u.Resting ∧ s.Goes u [] ∧ u.phase = s.phase ∧ u.functors = s.functors ∧
      u.pendingFunctors_ = s.pendingFunctors_ ++ [(q, f)] := by
  cases q with
  | some t =>
    have hpush : s.enabled (.push t f) := h.idle t
    have hwakeup : (s.after (.push t f)).enabled (.wakeup t) := by simp [enabled, after]
    refine ⟨(s.after (.push t f)).after (.wakeup t), ⟨h.quit_, h.loopPushed, fun u => ?_, ?_⟩,
      (goes_step hpush).trans (goes_step hwakeup), rfl, rfl, rfl⟩
    · by_cases hu : u = t
      · simp [after, hu]
      · simp [after, Function.update_of_ne hu, h.idle u]
    · exact wakeupInv_after (wakeupInv_after h.wakeup trivial hpush) trivial hwakeup
  | none =>
    have huser := hq rfl
    have hpush : s.enabled (.loopPush f) :=
      ⟨huser.elim (fun hp => Or.inr (Or.inl hp)) fun hp => Or.inr (Or.inr hp), h.loopPushed⟩
    have hinside : s.QueuesInside (.loopPush f) := by
      rcases huser with hp | hp <;> simp [QueuesInside, hp]
    have hwakeup : (s.after (.loopPush f)).enabled .loopWakeup := rfl
    exact ⟨(s.after (.loopPush f)).after .loopWakeup, ⟨h.quit_, rfl, h.idle,
      wakeupInv_after (wakeupInv_after h.wakeup hinside hpush) trivial hwakeup⟩,
      (goes_step hpush).trans (goes_step hwakeup), rfl, rfl, rfl⟩

omit [DecidableEq T] in
/-- Between two rounds of a loop that rests, an eventfd that is not readable means an empty
queue. -/
theorem Resting.readable (h : s.Resting) (hp : s.phase = .test) (hne : s.pendingFunctors_ ≠ []) :
    s.wakeupFd_ ≠ 0 := by
  rcases h.wakeup.due (by simp [hp]) (by simp [hp]) hne with hw | ⟨t, ht⟩ | hl
  · exact hw
  · rw [h.idle t] at ht
    cases ht
  · rw [h.loopPushed] at hl
    cases hl

/-- The functors that a run shows are those it has run, and so are its rounds. -/
theorem executed_run (h : Lts.exec step s ls = some t) :
    t.executed.map Prod.snd =
        s.executed.map Prod.snd ++ (Lts.trail step progress s ls).filterMap Progress.functor ∧
      (Lts.trail step progress s ls).countP Progress.isRound = rounds ls := by
  induction ls generalizing s with
  | nil =>
    cases h
    exact ⟨by simp [Lts.trail], rfl⟩
  | cons l ls ih =>
    obtain ⟨u, hu, hut⟩ := Lts.exec_cons_iff.1 h
    obtain ⟨hran, hrounds⟩ := ih hut
    obtain ⟨-, rfl⟩ := Lts.guarded_eq_some.1 hu
    rw [Lts.trail_cons hu, List.filterMap_append, List.countP_append, hran, hrounds, rounds, rounds,
      List.countP_cons, Nat.add_comm, ← List.append_assoc]
    cases l with
    | functor =>
      cases hf : s.functors <;> simp [progress, after, hf, Progress.functor, Progress.isRound,
        Label.isFinish]
    | _ => simp [progress, after, Progress.functor, Progress.isRound, Label.isFinish]

end EventLoop

namespace TcpServer

variable {L T β : Type}

/-! ### The two loops -/

/-- The part of the round that a loop is in. -/
inductive Part (β : Type)
  | polling
  | dispatching
  | calling (functors : List (Functor β))
  deriving DecidableEq, Repr

/-- The part of the round that a loop is in. -/
def Phase.part : Phase β → Part β
  | .polling => .polling
  | .dispatching _ _ => .dispatching
  | .calling functors _ => .calling functors

/-- The `EventLoop` is in that part of its round; it polls from the test of `quit_` on. -/
def Part.At (e : EventLoop T (Functor β)) : Part β → Prop
  | .polling => e.phase = .test
  | .dispatching => e.phase = .dispatch
  | .calling functors => e.phase = .functors ∧ e.functors.map Prod.snd = functors

namespace Loop

/-- The two are at the same place, with the same queue. -/
structure Matches (loop : Loop β) (e : EventLoop T (Functor β)) : Prop where
  part : loop.phase.part.At e
  pending : e.pendingFunctors_.map Prod.snd = loop.pendingFunctors_
  resting : e.Resting

/-- What a step does to a loop, and what it shows of the rounds; `q` is the other thread that takes
the step (`none`: the thread of the loop). -/
inductive Turns (q : Option T) (x y : Loop β) : List (Progress (Functor β)) → Prop
  | queues (fs : List (Functor β)) (hpart : y.phase.part = x.phase.part)
      (hpending : y.pendingFunctors_ = x.pendingFunctors_ ++ fs)
      (hq : q = none → fs = [] ∨ x.phase.part ≠ .polling) : Turns q x y []
  | poll (hx : x.phase.part = .polling) (hy : y.phase.part = .dispatching)
      (hpending : y.pendingFunctors_ = x.pendingFunctors_) : Turns q x y []
  | swap (hx : x.phase.part = .dispatching) (hy : y.phase.part = .calling x.pendingFunctors_)
      (hpending : y.pendingFunctors_ = []) : Turns q x y []
  | functor {f : Functor β} {rest : List (Functor β)} (fs : List (Functor β))
      (hx : x.phase.part = .calling (f :: rest)) (hy : y.phase.part = .calling rest)
      (hpending : y.pendingFunctors_ = x.pendingFunctors_ ++ fs) : Turns q x y [.ran f]
  | finish (hx : x.phase.part = .calling []) (hy : y.phase.part = .polling)
      (hpending : y.pendingFunctors_ = x.pendingFunctors_) : Turns q x y [.round]

variable [DecidableEq T] {x y : Loop β} {e : EventLoop T (Functor β)}

omit [DecidableEq T] in
theorem Part.at_congr {e' : EventLoop T (Functor β)} {part : Part β} (h : part.At e)
    (hp : e'.phase = e.phase) (hf : e'.functors = e.functors) : part.At e' := by
  cases part with
  | polling => exact hp.trans h
  | dispatching => exact hp.trans h
  | calling functors => exact ⟨hp.trans h.1, hf ▸ h.2⟩

omit [DecidableEq T] in
/-- User code runs outside `polling`. -/
theorem Matches.runsUserCode (h : x.Matches e) (hx : x.phase.part ≠ .polling) :
    e.phase = .dispatch ∨ e.phase = .functors := by
  have hpart := h.part
  cases hp : x.phase.part with
  | polling => exact absurd hp hx
  | dispatching =>
    rw [hp] at hpart
    exact Or.inl hpart
  | calling functors =>
    rw [hp] at hpart
    exact Or.inr hpart.1

theorem matches_queues (h : x.Matches e) (fs : List (Functor β)) (q : Option T)
    (hq : q = none → fs = [] ∨ x.phase.part ≠ .polling) (hpart : y.phase.part = x.phase.part)
    (hpending : y.pendingFunctors_ = x.pendingFunctors_ ++ fs) :
    ∃ e', y.Matches e' ∧ e.Goes e' [] := by
  induction fs generalizing x e with
  | nil =>
    refine ⟨e, ⟨?_, ?_, h.resting⟩, Lts.shows_refl⟩
    · rw [hpart]
      exact h.part
    · rw [h.pending, hpending, List.append_nil]
  | cons f fs ih =>
    have hq' : q = none → x.phase.part ≠ .polling := fun hn => (hq hn).resolve_left (by simp)
    obtain ⟨e', hrest, hgoes, hp, hf, hpush⟩ :=
      EventLoop.resting_push h.resting f q fun hn => h.runsUserCode (hq' hn)
    have h' : ({ x with pendingFunctors_ := x.pendingFunctors_ ++ [f] } : Loop β).Matches e' :=
      ⟨Part.at_congr h.part hp hf, by simp [hpush, h.pending], hrest⟩
    obtain ⟨e'', h'', hgoes'⟩ := ih h' (fun hn => Or.inr (hq' hn)) hpart
      (by rw [hpending, List.append_assoc, List.singleton_append])
    exact ⟨e'', h'', hgoes.trans hgoes'⟩

/-- Each turn of the loop is a run of the `EventLoop`. -/
theorem matches_of_turns {q : Option T} {ps : List (Progress (Functor β))} (h : x.Matches e)
    (hturns : x.Turns q y ps) : ∃ e', y.Matches e' ∧ e.Goes e' ps := by
  have hpart := h.part
  cases hturns with
  | queues fs hpart hpending hq => exact matches_queues h fs q hq hpart hpending
  | poll hx hy hpending =>
    rw [hx] at hpart
    -- the test of `quit_`, the poll, and the eventfd among what it reports
    obtain ⟨hrest₁, hgoes₁⟩ := EventLoop.resting_own h.resting (l := .test) rfl hpart
    have hready : (e.after .test).phase = .ready := by simp [EventLoop.after, h.resting.quit_]
    obtain ⟨hrest₂, hgoes₂⟩ := EventLoop.resting_own hrest₁ (l := .poll) rfl hready
    obtain ⟨hrest₃, hgoes₃⟩ := EventLoop.resting_own hrest₂ (l := .pollReturn) rfl rfl
    obtain ⟨hrest₄, hgoes₄⟩ := EventLoop.resting_own hrest₃ (l := .handleRead) rfl
      ⟨rfl, hrest₃.loopPushed⟩
    refine ⟨_, ⟨?_, ?_, hrest₄⟩, ((hgoes₁.trans hgoes₂).trans hgoes₃).trans hgoes₄⟩
    · rw [hy]
      rfl
    · exact h.pending.trans hpending.symm
  | swap hx hy hpending =>
    rw [hx] at hpart
    obtain ⟨hrest₁, hgoes₁⟩ := EventLoop.resting_own h.resting (l := .doPendingFunctors) rfl
      ⟨hpart, h.resting.loopPushed⟩
    obtain ⟨hrest₂, hgoes₂⟩ := EventLoop.resting_own hrest₁ (l := .swap) rfl rfl
    refine ⟨_, ⟨?_, ?_, hrest₂⟩, hgoes₁.trans hgoes₂⟩
    · rw [hy]
      exact ⟨rfl, h.pending⟩
    · rw [hpending]
      rfl
  | @functor f rest fs hx hy hpending =>
    rw [hx] at hpart
    obtain ⟨hp, hf⟩ := hpart
    obtain ⟨⟨q', f'⟩, rest', hfunctors, rfl, hrest'⟩ := List.map_eq_cons_iff.1 hf
    obtain ⟨hrest₁, hgoes₁⟩ := EventLoop.resting_own h.resting (l := .functor) rfl
      ⟨hp, by simp [hfunctors], h.resting.loopPushed⟩
    -- what the functor queues, it queues on the loop's thread
    have h' : ({ x with phase := .calling rest [] } : Loop β).Matches (e.after .functor) := by
      refine ⟨⟨hp, ?_⟩, h.pending, hrest₁⟩
      simp [EventLoop.after, hfunctors, hrest']
    obtain ⟨e', h'', hgoes₂⟩ := matches_queues (y := y) h' fs none
      (fun _ => Or.inr (by simp [Phase.part])) hy hpending
    have hshown : e.progress .functor = [.ran f'] := by simp [EventLoop.progress, hfunctors]
    rw [hshown] at hgoes₁
    exact ⟨e', h'', hgoes₁.trans hgoes₂⟩
  | finish hx hy hpending =>
    rw [hx] at hpart
    obtain ⟨hp, hf⟩ := hpart
    obtain ⟨hrest₁, hgoes₁⟩ := EventLoop.resting_own h.resting (l := .finish) rfl
      ⟨hp, List.map_eq_nil_iff.1 hf, h.resting.loopPushed⟩
    refine ⟨_, ⟨?_, ?_, hrest₁⟩, hgoes₁⟩
    · rw [hy]
      rfl
    · exact h.pending.trans hpending.symm

end Loop

/-! ### What the steps of a server do to its loops -/

/-- The functors `fs` are queued on the loop, and that is all that happens to its round. -/
structure Loop.Queues (x y : Loop β) (fs : List (Functor β)) : Prop where
  part : y.phase.part = x.phase.part
  pending : y.pendingFunctors_ = x.pendingFunctors_ ++ fs
  exited : y.exited = x.exited

theorem Loop.queues_refl (x : Loop β) : x.Queues x [] := ⟨rfl, (List.append_nil _).symm, rfl⟩

theorem Loop.Queues.trans {x y z : Loop β} {fs gs : List (Functor β)} (h : x.Queues y fs)
    (h' : y.Queues z gs) : x.Queues z (fs ++ gs) :=
  ⟨h'.part.trans h.part, by rw [h'.pending, h.pending, List.append_assoc], h'.exited.trans h.exited⟩

section Parts

variable [DecidableEq L] {s s' u : TcpServer L β} {k l : L} {t : Option L} {c : ℕ}

/-- A change of one loop. -/
theorem queues_modifyLoop {f : Loop β → Loop β} {fs : List (Functor β)}
    (h : k = l → (s.loops l).Queues (f (s.loops l)) fs) (hne : k ≠ l → fs = []) :
    (s.loops k).Queues ((s.modifyLoop l f).loops k) fs := by
  rw [loops_modifyLoop]
  split_ifs with hk
  · rw [hk]
    exact h hk
  · rw [hne hk]
    exact Loop.queues_refl _

/-- A loop changes its phase within its part of the round. -/
theorem queues_setPhase {phase : Phase β} (h : phase.part = (s.loops l).phase.part) :
    (s.loops k).Queues ((s.setPhase l phase).loops k) [] :=
  queues_modifyLoop (fun _ => ⟨h, (List.append_nil _).symm, rfl⟩) fun _ => rfl

theorem queues_queueInLoop (f : Functor β) :
    (s.loops k).Queues ((s.queueInLoop l f).loops k) (if k = l then [f] else []) := by
  refine queues_modifyLoop (fun hk => ?_) fun hk => if_neg hk
  rw [if_pos hk]
  exact ⟨rfl, rfl, rfl⟩

theorem queues_perform (res : TcpConnection β × List (Effect β)) :
    (s.loops k).Queues ((s.perform t c res).loops k)
      (if k = (s.conns c).loop_ then (queued res.2).map fun task => .run task c else []) := by
  rw [loops_perform]
  split_ifs with hk
  · rw [hk]
    exact ⟨rfl, rfl, rfl⟩
  · exact Loop.queues_refl _

theorem queues_removeConnectionInLoop :
    (s.loops k).Queues ((s.removeConnectionInLoop t c).loops k)
      (if k = (s.conns c).loop_ then [.run .connectDestroyed c] else []) :=
  queues_queueInLoop (s := s.eraseConnection t c) _

theorem queues_removeConnection :
    ∃ fs, (s.loops k).Queues ((s.removeConnection t c).loops k) fs := by
  by_cases ht : t = some s.loop_
  · rw [removeConnection_of_base ht]
    exact ⟨_, queues_removeConnectionInLoop (s := s.record t [.removes s.stage])⟩
  · rw [removeConnection_of_ne ht]
    exact ⟨_, queues_queueInLoop (s := s.record t [.removes s.stage]) _⟩

variable [Inhabited β]

theorem queues_runTask (task : Task β) (r : WriteResult) :
    (s.loops k).Queues ((s.runTask t c task r).loops k) (if k = (s.conns c).loop_ then
      (queued ((s.conns c).conn.runTask r task).2).map fun task => .run task c else []) := by
  have hperform :=
    queues_perform (s := s) (t := t) (c := c) (k := k) ((s.conns c).conn.runTask r task)
  unfold runTask
  cases task with
  | connectDestroyed => exact hperform
  | _ => exact hperform

theorem queues_runInLoop (task : Task β) (r : WriteResult) :
    ∃ fs, (s.loops k).Queues ((s.runInLoop t c task r).loops k) fs := by
  unfold runInLoop
  split_ifs
  · exact ⟨_, queues_runTask task r⟩
  · exact ⟨_, queues_queueInLoop _⟩

theorem queues_runCallback (callback : Callback) (read : ReadResult β) (write : WriteResult) :
    ∃ fs, (s.loops k).Queues ((s.runCallback t c callback read write).loops k) fs := by
  unfold runCallback
  simp only
  split_ifs
  · obtain ⟨fs, hfs⟩ := queues_removeConnection (k := k) (t := t) (c := c)
      (s := s.perform t c ((s.conns c).conn.runCallback read write callback))
    exact ⟨_, (queues_perform _).trans hfs⟩
  · exact ⟨_, queues_perform _⟩

theorem queues_call (r : WriteResult) (f : Functor β) :
    ∃ fs, (s.loops k).Queues ((s.call t r f).loops k) fs := by
  cases f with
  | run task c => exact ⟨_, queues_runTask task r⟩
  | removeConnectionInLoop c => exact ⟨_, queues_removeConnectionInLoop⟩
  | listen => exact ⟨[], Loop.queues_refl _⟩

omit [Inhabited β] in
theorem queues_start : ∃ fs, (s.loops k).Queues ((s.start t).loops k) fs ∧
    (t = some k → fs = []) := by
  unfold start
  split_ifs with hs ht
  · exact ⟨[], Loop.queues_refl _, fun _ => rfl⟩
  · exact ⟨[], Loop.queues_refl _, fun _ => rfl⟩
  · refine ⟨_, queues_queueInLoop (s := { s with started_ := true }) _, fun htk => if_neg ?_⟩
    rintro rfl
    exact ht htk

/-- `~TcpServer` queues nothing on the loop of its own thread. -/
theorem queues_destroyed (conns : List ℕ) : ∃ fs, (s.loops k).Queues
    ((conns.foldl (fun s c => s.runInLoop t c .connectDestroyed (.sent 0)) s).loops k) fs ∧
      (t = some k → fs = []) := by
  induction conns generalizing s with
  | nil => exact ⟨[], Loop.queues_refl _, fun _ => rfl⟩
  | cons c conns ih =>
    have hfirst : ∃ fs, (s.loops k).Queues
        ((s.runInLoop t c .connectDestroyed (.sent 0)).loops k) fs ∧ (t = some k → fs = []) := by
      unfold runInLoop
      split_ifs with hl
      · refine ⟨_, queues_runTask .connectDestroyed (.sent 0), fun _ => ?_⟩
        have hnone : queued ((s.conns c).conn.runTask (.sent 0) .connectDestroyed).2 = [] := by
          by_cases hconn : (s.conns c).conn.state_ = .kConnected
          · rw [TcpConnection.runTask, TcpConnection.connectDestroyed_of_connected hconn]
            rfl
          · rw [TcpConnection.runTask, TcpConnection.connectDestroyed_of_ne hconn]
            rfl
        simp [hnone]
      · refine ⟨_, queues_queueInLoop _, fun ht => if_neg ?_⟩
        rintro rfl
        exact hl ht
    obtain ⟨fs, hfs, hnil⟩ := hfirst
    obtain ⟨gs, hgs, hnil'⟩ := ih (s := s.runInLoop t c .connectDestroyed (.sent 0))
    exact ⟨fs ++ gs, hfs.trans hgs, fun ht => by rw [hnil ht, hnil' ht, List.append_nil]⟩

omit [Inhabited β] in
/-- What a poll reports does not touch the queues. -/
theorem queues_poll (events : List (ℤ × Events)) :
    ((s.setPhase l (.dispatching [] [])).loops k).Queues ((s.poll l events).loops k) [] := by
  refine poll_inv
    (I := fun u => ((s.setPhase l (.dispatching [] [])).loops k).Queues (u.loops k) [])
    (Loop.queues_refl _) (fun u e active hp hu => hu.trans ?_) events
  unfold activate
  cases (u.loops l).poller.epollfd_ e.1 with
  | none => exact Loop.queues_refl _
  | some event =>
    refine queues_setPhase (s := u.setConn event.ptr _) ?_
    show _ = (u.loops l).phase.part
    rw [hp]
    rfl

end Parts

section Steps

variable [DecidableEq L] {s s' : TcpServer L β} {k l : L} {t : Option L} {a : Label L β}

/-- What a step shows of the rounds of the loop `k`. -/
def progress (k : L) (s : TcpServer L β) : Label L β → List (Progress (Functor β))
  | .functor l _ => if l = k then ((s.loops l).phase.functors.take 1).map .ran else []
  | .finish l => if l = k then [.round] else []
  | _ => []

/-- The loop whose thread makes a public call. -/
def Label.caller : Label L β → Option L
  | .send t _ _ _ | .sendFile t _ _ _ _ _ | .shutdown t _ => t
  | _ => none

/-- The thread of a loop makes its public calls in callbacks and functors; where it polls it
cannot. -/
def CallsInside (s : TcpServer L β) (a : Label L β) : Prop :=
  ∀ l ∈ a.caller, (s.loops l).phase.part ≠ .polling

instance [DecidableEq β] (s : TcpServer L β) : DecidablePred s.CallsInside := fun _ =>
  inferInstanceAs (Decidable (∀ l ∈ _, _))

/-- The step is one of the turns of the loop `k`. -/
def Turned (s s' : TcpServer L β) (k : L) (ps : List (Progress (Functor β))) : Prop :=
  (s'.loops k).exited = (s.loops k).exited ∧
    ∃ q : Option (Option L), (s.loops k).Turns q (s'.loops k) ps

theorem turned_of_queues {fs : List (Functor β)} (h : (s.loops k).Queues (s'.loops k) fs)
    (t : Option L) (ht : t = some k → fs = [] ∨ (s.loops k).phase.part ≠ .polling) :
    s.Turned s' k [] := by
  refine ⟨h.exited, ?_⟩
  by_cases htk : t = some k
  · exact ⟨none, .queues fs h.part h.pending fun _ => ht htk⟩
  · exact ⟨some t, .queues fs h.part h.pending fun hn => by cases hn⟩

theorem loops_setPhase_self (phase : Phase β) :
    (s.setPhase l phase).loops l = { s.loops l with phase := phase } := by
  rw [setPhase, loops_modifyLoop, if_pos rfl]

/-- A step of a loop leaves the phases of the others alone. -/
theorem turned_of_ne {phase : Phase β} {fs : List (Functor β)} (hk : k ≠ l)
    (h : ((s.setPhase l phase).loops k).Queues (s'.loops k) fs) : s.Turned s' k [] := by
  rw [setPhase, loops_modifyLoop, if_neg hk] at h
  exact turned_of_queues h none fun hn => by cases hn

theorem turned_self : s.Turned s k [] :=
  turned_of_queues (Loop.queues_refl _) none fun hn => by cases hn

theorem turned_poll {events : List (ℤ × Events)} (hp : (s.loops l).phase = .polling) :
    s.Turned (s.poll l events) k [] := by
  have hreport := queues_poll (s := s) (l := l) (k := k) events
  by_cases hk : k = l
  · subst hk
    rw [loops_setPhase_self] at hreport
    refine ⟨hreport.exited, none, .poll ?_ hreport.part ?_⟩
    · rw [hp]
      rfl
    · rw [← List.append_nil (s.loops k).pendingFunctors_]
      exact hreport.pending
  · exact turned_of_ne hk hreport

/-- A part of the dispatch: a channel has its turn, or a callback runs. -/
theorem turned_dispatch {active active' : List ℕ} {running running' : List (ℕ × Callback)}
    {fs : List (Functor β)} (hp : (s.loops l).phase = .dispatching active running)
    (h : ((s.setPhase l (.dispatching active' running')).loops k).Queues (s'.loops k) fs) :
    s.Turned s' k [] := by
  have hpart : (s.loops l).phase.part = .dispatching := by
    rw [hp]
    rfl
  have hturn : (s.loops k).Queues ((s.setPhase l (.dispatching active' running')).loops k) [] :=
    queues_setPhase hpart.symm
  refine turned_of_queues (hturn.trans h) (some l) ?_
  rintro ⟨rfl⟩
  exact Or.inr (by simp [hpart])

theorem turned_swap (hp : (s.loops l).phase = .dispatching [] []) :
    s.Turned (s.modifyLoop l fun loop =>
      { loop with pendingFunctors_ := [], phase := .calling loop.pendingFunctors_ [] }) k [] := by
  by_cases hk : k = l
  · subst hk
    rw [Turned, loops_modifyLoop, if_pos rfl]
    refine ⟨rfl, none, .swap ?_ rfl rfl⟩
    rw [hp]
    rfl
  · have hsame := Loop.queues_refl (s.loops k)
    exact turned_of_queues (by rwa [loops_modifyLoop, if_neg hk]) none fun hn => by cases hn

theorem turned_finish {done : List (Functor β)} (hp : (s.loops l).phase = .calling [] done) :
    s.Turned (s.setPhase l .polling) k (s.progress k (.finish l)) := by
  by_cases hk : l = k
  · subst hk
    rw [progress, if_pos rfl, Turned, loops_setPhase_self]
    refine ⟨rfl, none, .finish ?_ rfl rfl⟩
    rw [hp]
    rfl
  · rw [progress, if_neg hk]
    exact turned_of_ne (Ne.symm hk) (Loop.queues_refl _)

variable [Inhabited β]

theorem turned_functor {f : Functor β} {rest done : List (Functor β)} (r : WriteResult)
    (hp : (s.loops l).phase = .calling (f :: rest) done) :
    s.Turned ((s.setPhase l (.calling rest (done ++ [f]))).call (some l) r f) k
      (s.progress k (.functor l r)) := by
  obtain ⟨fs, hfs⟩ := queues_call (s := s.setPhase l (.calling rest (done ++ [f]))) (t := some l)
    (k := k) r f
  by_cases hk : l = k
  · subst hk
    rw [loops_setPhase_self] at hfs
    have hshown : s.progress l (.functor l r) = [.ran f] := by simp [progress, hp, Phase.functors]
    rw [hshown]
    refine ⟨hfs.exited, none, .functor fs ?_ hfs.part hfs.pending⟩
    rw [hp]
    rfl
  · rw [progress, if_neg hk]
    exact turned_of_ne (Ne.symm hk) hfs

/-- A public call, on the thread of a loop that does not poll or on another one. -/
theorem turned_call {u : TcpServer L β} (hu : s.loops = u.loops) {c : ℕ} (task : Task β)
    (r : WriteResult) (ht : t = some k → (s.loops k).phase.part ≠ .polling) :
    s.Turned (u.runInLoop t c task r) k [] := by
  obtain ⟨fs, hfs⟩ := queues_runInLoop (s := u) (t := t) (c := c) (k := k) task r
  rw [← hu] at hfs
  exact turned_of_queues hfs t fun htk => Or.inr (ht htk)

variable [Fintype L]

/-- A public call is no turn of the rounds: at most it queues something. -/
theorem turned_of_call (ha : a.isCall = true) (hcalls : s.CallsInside a)
    (hst : s.next a = some s') :
    s.Turned s' k [] := by
  have hthread : a.thread s = a.caller := by
    cases a with
    | send | sendFile | shutdown | store | push | keep | drop => rfl
    | _ => cases ha
  cases does_of_next hst with
  | call r hc hconn ht => exact turned_call rfl _ r fun htk => hcalls k (hthread.symm.trans htk)
  | @shutdown t c hc hconn => exact turned_call (u := s.setConn c _) rfl _ _ fun htk => hcalls k htk
  | nothing => exact turned_self
  | store | user => exact turned_of_queues (Loop.queues_refl _) none fun hn => by cases hn
  | push => exact turned_of_queues (queues_queueInLoop _) none fun hn => by cases hn
  | _ => cases ha

/-- **Each step is a turn of each loop**, as long as the loop has not come to its end. -/
theorem turned_of_next (hcalls : s.CallsInside a) (hst : s.next a = some s')
    (hk : (s'.loops k).exited = false) : s.Turned s' k (s.progress k a) := by
  cases a with
  | start t =>
    simp only [next, Option.ite_none_right_eq_some, Option.some.injEq] at hst
    obtain ⟨-, rfl⟩ := hst
    obtain ⟨fs, hfs, hnil⟩ := queues_start (s := s) (t := t) (k := k)
    exact turned_of_queues hfs t fun ht => Or.inl (hnil ht)
  | poll l events =>
    obtain ⟨hp, -, -, rfl⟩ := next_poll hst
    exact turned_poll hp
  | newConnection sockfd highWater mark =>
    obtain ⟨⟨active, hp⟩, -, -, rfl⟩ := next_newConnection hst
    refine turned_call (s := s) (u := s.makeConnection (some s.loop_) sockfd highWater mark)
      rfl _ _ ?_
    rintro ⟨rfl⟩
    simp [hp, Phase.part]
  | handleEvent l =>
    obtain ⟨c, rest, hp, rfl⟩ := next_handleEvent hst
    exact turned_dispatch hp (Loop.queues_refl _)
  | callback l read write =>
    obtain ⟨active, c, callback, rest, hp, rfl⟩ := next_callback hst
    obtain ⟨fs, hfs⟩ := queues_runCallback (k := k) _ read write
    exact turned_dispatch hp hfs
  | swap l =>
    obtain ⟨hp, rfl⟩ := next_swap hst
    exact turned_swap hp
  | functor l r =>
    obtain ⟨f, rest, done, hp, rfl⟩ := next_functor hst
    exact turned_functor r hp
  | finish l =>
    obtain ⟨done, hp, rfl⟩ := next_finish hst
    exact turned_finish hp
  | send | sendFile | shutdown | store | push | keep | drop => exact turned_of_call rfl hcalls hst
  | destroy conns =>
    simp only [next, Option.ite_none_right_eq_some, Option.some.injEq] at hst
    obtain ⟨-, rfl⟩ := hst
    obtain ⟨fs, hfs, hnil⟩ := queues_destroyed (s := s) (t := some s.loop_) (k := k) conns
    exact turned_of_queues hfs (some s.loop_) fun ht => Or.inl (hnil ht)
  | exit l =>
    obtain ⟨-, -, -, rfl⟩ := next_exit hst
    rw [loops_modifyLoop] at hk
    split_ifs at hk with hkl
    have hsame := Loop.queues_refl (s.loops k)
    exact turned_of_queues (by rwa [loops_modifyLoop, if_neg hkl]) none fun hn => by cases hn
  | destroyed =>
    simp only [next, Option.ite_none_right_eq_some, Option.some.injEq] at hst
    obtain ⟨-, rfl⟩ := hst
    exact turned_of_queues (Loop.queues_refl _) none fun hn => by cases hn

/-! ### Runs -/

variable {loop_ : L} {loops_ : List L} {ipPort_ name_ : String} {writeComplete : Bool}
  {ls pre post : List (Label L β)} {e : EventLoop (Option L) (Functor β)}

/-- A loop that has come to its end does not go on. -/
theorem exited_run (hcalls : Lts.Along step CallsInside s ls) (h : Lts.exec step s ls = some s')
    (hk : (s.loops k).exited = true) : (s'.loops k).exited = true := by
  refine Lts.exec_inv (I := fun u : TcpServer L β => (u.loops k).exited = true)
    (fun u a v hu hcall hst => ?_) hk hcalls h
  by_contra hv
  have hturned := turned_of_next hcall (step_eq_some.1 hst).2 (Bool.eq_false_iff.2 hv)
  exact hv (hturned.1.trans hu)

theorem progress_of_exited (hst : s.step a = some s') (hk : (s'.loops k).exited = true) :
    s.progress k a = [] := by
  obtain ⟨hrun, hnext⟩ := step_eq_some.1 hst
  have hgoing : ∀ l, a.thread s = some l → (s.loops l).exited = false := by
    intro l hl
    rw [hl, Option.any_some, stopped, Bool.or_eq_false_iff] at hrun
    exact hrun.1
  cases a with
  | functor l r =>
    obtain ⟨f, rest, done, hp, rfl⟩ := next_functor hnext
    refine if_neg ?_
    rintro rfl
    have hsame := (turned_functor (k := l) r hp).1
    rw [hk, hgoing l rfl] at hsame
    cases hsame
  | finish l =>
    obtain ⟨done, hp, rfl⟩ := next_finish hnext
    refine if_neg ?_
    rintro rfl
    have hsame := (turned_finish (k := l) hp).1
    rw [hk, hgoing l rfl] at hsame
    cases hsame
  | _ => rfl

/-- What a run of the server does to the loop `k` is a run of an `EventLoop`. -/
theorem matched_run (he : (s.loops k).exited = false → (s.loops k).Matches e)
    (hcalls : Lts.Along step CallsInside s ls) (h : Lts.exec step s ls = some s') :
    ∃ e', ((s'.loops k).exited = false → (s'.loops k).Matches e') ∧
      e.Goes e' (Lts.trail step (progress k) s ls) := by
  refine Lts.exec_matched
    (R := fun (u : TcpServer L β) (e : EventLoop (Option L) (Functor β)) =>
      (u.loops k).exited = false → (u.loops k).Matches e)
    (fun u e a v hu hcall hst => ?_) he hcalls h
  by_cases hv : (v.loops k).exited = false
  · obtain ⟨hexited, q, hturns⟩ := turned_of_next hcall (step_eq_some.1 hst).2 hv
    obtain ⟨e', he', hgoes⟩ := Loop.matches_of_turns (hu (hexited ▸ hv)) hturns
    exact ⟨e', fun _ => he', hgoes⟩
  · refine ⟨e, fun hv' => absurd hv' hv, ?_⟩
    rw [progress_of_exited hst (by simpa using hv)]
    exact Lts.shows_refl

omit [Fintype L] in
theorem matches_init : ((init loop_ loops_ ipPort_ name_ writeComplete :
    TcpServer L β).loops k).Matches ((EventLoop.init : EventLoop (Option L) (Functor β)).after
      .enter) :=
  ⟨rfl, rfl, rfl, rfl, fun _ => rfl,
    EventLoop.wakeupInv_after EventLoop.wakeupInv_init trivial ⟨rfl, rfl⟩⟩

/-- **Each loop of a server is an `EventLoop`.** -/
theorem loop_is_event_loop
    (h : Lts.exec step (init loop_ loops_ ipPort_ name_ writeComplete) ls = some s)
    (hcalls : Lts.Along step CallsInside (init loop_ loops_ ipPort_ name_ writeComplete) ls)
    (hk : (s.loops k).exited = false) :
    ∃ e : EventLoop (Option L) (Functor β),
      EventLoop.init.Goes e
          (Lts.trail step (progress k) (init loop_ loops_ ipPort_ name_ writeComplete) ls) ∧
        (s.loops k).Matches e ∧
        ((s.loops k).phase = .polling → (s.loops k).pendingFunctors_ ≠ [] → e.wakeupFd_ ≠ 0) := by
  obtain ⟨e, he, hgoes⟩ := matched_run (k := k) (fun _ => matches_init) hcalls h
  refine ⟨e, (EventLoop.goes_step (l := .enter) ⟨rfl, rfl⟩).trans hgoes, he hk, fun hp hne => ?_⟩
  have hpart := (he hk).part
  rw [hp] at hpart
  refine (he hk).resting.readable hpart fun hnil => hne ?_
  rw [← (he hk).pending, hnil, List.map_nil]

omit [DecidableEq L] [Fintype L] [Inhabited β] in
/-- What a loop has left to run is what the `EventLoop` has. -/
theorem Loop.Matches.todo {T : Type} {x : Loop β} {e : EventLoop T (Functor β)} (h : x.Matches e)
    (hb : e.BatchOk) : (e.functors ++ e.pendingFunctors_).map Prod.snd = x.todo := by
  have hpart := h.part
  rw [List.map_append, h.pending, Loop.todo]
  congr 1
  cases hp : x.phase with
  | polling =>
    rw [hp] at hpart
    rw [hb (by rw [show e.phase = .test from hpart]; decide)]
    rfl
  | dispatching active running =>
    rw [hp] at hpart
    rw [hb (by rw [show e.phase = .dispatch from hpart]; decide)]
    rfl
  | calling functors done =>
    rw [hp] at hpart
    exact hpart.2

/-- The base loop accepts a connection and queues it on the other loop, which polls. -/
private def handedRun : List (Label Bool ℕ) :=
  [.start (some true), .poll true [], .newConnection 7 false 0]

theorem loop_is_event_loop_handed :
    ∃ e : EventLoop (Option Bool) (Functor ℕ),
      e.pendingFunctors_.map Prod.snd = [.run .connectEstablished 0] ∧ e.wakeupFd_ ≠ 0 := by
  have h : (Lts.exec step (init true [false] "" "" false) handedRun).isSome := rfl
  have hcalls : Lts.Along step CallsInside (init true [false] "" "" false) handedRun := by
    decide +kernel
  obtain ⟨e, -, he, hreadable⟩ :=
    loop_is_event_loop (k := false) (Option.some_get h).symm hcalls rfl
  exact ⟨e, he.pending, hreadable rfl (List.cons_ne_nil _ _)⟩

/-- **Two rounds of a loop of a server.**  Whatever the loops and the user do meanwhile, all that a
loop has left to run at some point has been run, before anything else and in order, when two more of
its rounds have ended, and when one has if it was not running functors. -/
theorem called_in_two_rounds
    (hpre : Lts.exec step (init loop_ loops_ ipPort_ name_ writeComplete) pre = some s)
    (hpost : Lts.exec step s post = some s')
    (hcalls : Lts.Along step CallsInside (init loop_ loops_ ipPort_ name_ writeComplete)
      (pre ++ post)) (hk : (s'.loops k).exited = false) :
    (2 ≤ (Lts.trail step (progress k) s post).countP Progress.isRound →
      (s.loops k).todo <+: (Lts.trail step (progress k) s post).filterMap Progress.functor) ∧
    ((∀ functors, (s.loops k).phase.part ≠ .calling functors) →
      1 ≤ (Lts.trail step (progress k) s post).countP Progress.isRound →
      (s.loops k).todo <+: (Lts.trail step (progress k) s post).filterMap Progress.functor) := by
  obtain ⟨hcallsPre, hcallsPost⟩ := Lts.along_append.1 hcalls
  have hk' : (s.loops k).exited = false := by
    by_contra hexited
    have := exited_run (hcallsPost s hpre) hpost (by simpa using hexited)
    rw [hk] at this
    cases this
  obtain ⟨e, he, hgoes⟩ := matched_run (k := k) (fun _ => matches_init) hcallsPre hpre
  obtain ⟨e', -, ms, hms, hshown⟩ := matched_run he (hcallsPost s hpre) hpost
  have hmatches := he hk'
  have hb : e.BatchOk := by
    obtain ⟨ls, hls, -⟩ := hgoes
    exact (EventLoop.functors_in_order (s := EventLoop.init.after .enter) (fun _ => rfl) hls).1
  obtain ⟨hran, hrounds⟩ := EventLoop.executed_run hms
  have hall : e.all <+: e'.executed →
      (s.loops k).todo <+: (Lts.trail step (progress k) s post).filterMap Progress.functor := by
    intro hpre
    have hmap := hpre.map Prod.snd
    rw [EventLoop.all, List.append_assoc, List.map_append, hmatches.todo hb, hran, hshown,
      List.prefix_append_right_inj] at hmap
    exact hmap
  rw [← hshown, hrounds]
  refine ⟨fun hn => hshown ▸ hall (EventLoop.waits_run hb (n := 2) List.prefix_rfl hms hn),
    fun hcalling hn => hshown ▸ hall (EventLoop.waits_run hb (n := 1) ⟨List.prefix_rfl, ?_⟩ hms hn)⟩
  intro hp
  have hpart := hmatches.part
  cases hx : (s.loops k).phase.part with
  | polling =>
    rw [hx] at hpart
    cases hp.symm.trans hpart
  | dispatching =>
    rw [hx] at hpart
    cases hp.symm.trans hpart
  | calling functors => exact absurd hx (hcalling functors)

/-- The other loop takes its round. -/
private def handedRound : List (Label Bool ℕ) :=
  [.poll false [], .swap false, .functor false (.sent 0), .finish false]

theorem called_in_two_rounds_handed :
    ∃ s : TcpServer Bool ℕ, [.run .connectEstablished 0] <+:
      (Lts.trail step (progress false) s handedRound).filterMap Progress.functor := by
  have h : (Lts.exec step (init true [false] "" "" false) handedRun).isSome := rfl
  have h' : (Lts.exec step ((Lts.exec step (init true [false] "" "" false) handedRun).get h)
    handedRound).isSome := rfl
  have hcalls : Lts.Along step CallsInside (init true [false] "" "" false)
      (handedRun ++ handedRound) := by
    decide +kernel
  refine ⟨(Lts.exec step (init true [false] "" "" false) handedRun).get h, ?_⟩
  exact (called_in_two_rounds (k := false) (Option.some_get h).symm (Option.some_get h').symm hcalls
    rfl).2 (fun _ => by rintro ⟨⟩) (Nat.le_of_eq rfl)

end Steps

end TcpServer

end Muduo
