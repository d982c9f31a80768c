import MuduoCpp.EventLoopThread

/-!
# `src/EventLoopThreadPool.cc`: starting the pool

`start()` makes one `EventLoopThread` after the other and waits each time until the new thread has
published its loop; the loops that are up already run meanwhile, and their threads and any others
call what they like.

* `start_returned`: what holds when `start()` has returned;
* `start_returns_iff`: it returns unless a loop has come to its end before its address was seen,
  since the condition `loop_ != nullptr` does not hold any more then.
-/

namespace Muduo

/-- Where the thread is that calls `start()`: before the call, at the head of the loop, waiting for
the `i`-th thread in `startLoop()`, or past it. -/
inductive Starting
  | idle
  | loop (i : ℕ)
  | waiting (i : ℕ)
  | returned
  deriving DecidableEq, Repr

/-- `EventLoopThreadPool`, with where `start()` is. -/
structure EventLoopThreadPool (T F : Type) where
  numThreads_ : ℕ
  starting : Starting
  threads : ℕ → EventLoopThread T F
  /-- The addresses of the loops are the numbers of their threads. -/
  loops_ : List ℕ

/-- A step of the loop's thread, or of another one that calls the loop. -/
def EventLoopThread.Label.isInner {T F : Type} : EventLoopThread.Label T F → Bool
  | .construct | .publish | .clear | .destroy | .inLoop _ => true
  | _ => false

namespace EventLoopThreadPool

variable {T F : Type}

/-- A pool after `setThreadNum`. -/
def init (numThreads : ℕ) : EventLoopThreadPool T F where
  numThreads_ := numThreads
  starting := .idle
  threads := fun _ => .init
  loops_ := []

/-- A step of `start()`, or one of the threads. -/
inductive Label (T F : Type)
  /-- `start()` is called. -/
  | start
  /-- An `EventLoopThread` is made, and its `startLoop()` starts the thread. -/
  | make
  /-- `startLoop()` returns. -/
  | startReturn
  /-- `start()` returns. -/
  | finish
  | inThread (i : ℕ) (l : EventLoopThread.Label T F)
  deriving DecidableEq, Repr

variable [DecidableEq T]

/-- A change of one thread. -/
def setThread (s : EventLoopThreadPool T F) (i : ℕ) (t : EventLoopThread T F) :
    EventLoopThreadPool T F :=
  { s with threads := Function.update s.threads i t }

/-- One step. -/
def step (s : EventLoopThreadPool T F) : Label T F → Option (EventLoopThreadPool T F)
  | .start => if s.starting = .idle then some { s with starting := .loop 0 } else none
  | .make =>
      match s.starting with
      | .loop i =>
          if i < s.numThreads_ then
            ((s.threads i).step .start).map fun t => { s.setThread i t with starting := .waiting i }
          else none
      | _ => none
  | .startReturn =>
      match s.starting with
      | .waiting i =>
          ((s.threads i).step .startReturn).map fun t =>
            { s.setThread i t with starting := .loop (i + 1), loops_ := s.loops_ ++ [i] }
      | _ => none
  | .finish =>
      match s.starting with
      | .loop i => if i < s.numThreads_ then none else some { s with starting := .returned }
      | _ => none
  | .inThread i l =>
      if l.isInner then ((s.threads i).step l).map fun t => s.setThread i t else none

end EventLoopThreadPool

/-! ### One thread -/

namespace EventLoopThread

variable {T F : Type} {s : EventLoopThread T F} {l : Label T F}

/-- `loop_` is set from the publication of the loop to its end. -/
structure Ready (s : EventLoopThread T F) : Prop where
  handshake : s.Handshake
  begun : s.worker = .notStarted → s.starter = .idle
  set : s.worker = .published → s.loop_ = true
  pointer : s.PointerOk

theorem ready_init : (init : EventLoopThread T F).Ready :=
  ⟨handshake_init, fun _ => rfl, fun h => (by cases h), fun h => (by cases h)⟩

variable [DecidableEq T]

theorem ready_after (hs : s.Ready) (h : s.enabled l) : (s.after l).Ready := by
  refine ⟨handshake_after hs.handshake h, fun hw => ?_, fun hw => ?_,
    pointerOk_after hs.handshake hs.pointer h⟩
  · cases l with
    | start | construct | publish | clear | destroy => cases hw
    | startReturn =>
      have hidle := hs.begun hw
      rw [show s.starter = .waiting from h.1] at hidle
      cases hidle
    | dtorCopy | dtorQuit t | dtorJoin | inLoop l => exact hs.begun hw
  · cases l with
    | start | construct | clear | destroy => cases hw
    | publish => rfl
    | startReturn | dtorCopy | dtorQuit t | dtorJoin | inLoop l => exact hs.set hw

/-- The starter is moved by `startLoop()` only. -/
theorem starter_after (hl : l.isInner = true) :
    (s.after l).starter = s.starter ∧ (s.after l).dtor = s.dtor := by
  cases l with
  | construct | publish | clear | destroy | inLoop l => exact ⟨rfl, rfl⟩
  | _ => cases hl

omit [DecidableEq T] in
/-- Before the thread is started there is nothing to call. -/
theorem not_inner_init (hl : l.isInner = true) : ¬ (init : EventLoopThread T F).enabled l := by
  intro h
  cases l with
  | construct | clear | destroy | publish => simp [enabled, init] at h
  | inLoop m =>
    obtain ⟨hr, hen⟩ := h
    cases m with
    | wakeup t => exact hen rfl
    | _ => simp [Reaches, init] at hr
  | _ => cases hl

end EventLoopThread

/-! ### All of them -/

namespace EventLoopThreadPool

variable {T F : Type} {s s' : EventLoopThreadPool T F} {a : Label T F} {ls : List (Label T F)}
  {i n : ℕ}

/-- How many threads have been made. -/
def made (s : EventLoopThreadPool T F) : ℕ :=
  match s.starting with
  | .idle => 0
  | .loop i => i
  | .waiting i => i + 1
  | .returned => s.numThreads_

/-- How many of their loops are known. -/
def up (s : EventLoopThreadPool T F) : ℕ :=
  match s.starting with
  | .idle => 0
  | .loop i | .waiting i => i
  | .returned => s.numThreads_

/-- What a step does. -/
inductive Does [DecidableEq T] (s : EventLoopThreadPool T F) :
    Label T F → EventLoopThreadPool T F → Prop
  | start (hs : s.starting = .idle) : s.Does .start { s with starting := .loop 0 }
  | make {i : ℕ} (hs : s.starting = .loop i) (hi : i < s.numThreads_)
      (hen : (s.threads i).enabled .start) :
      s.Does .make { s.setThread i ((s.threads i).after .start) with starting := .waiting i }
  | startReturn {i : ℕ} (hs : s.starting = .waiting i) (hen : (s.threads i).enabled .startReturn) :
      s.Does .startReturn
        { s.setThread i ((s.threads i).after .startReturn) with
          starting := .loop (i + 1)
          loops_ := s.loops_ ++ [i] }
  | finish {i : ℕ} (hs : s.starting = .loop i) (hi : ¬ i < s.numThreads_) :
      s.Does .finish { s with starting := .returned }
  | inThread {i : ℕ} {l : EventLoopThread.Label T F} (hl : l.isInner = true)
      (hen : (s.threads i).enabled l) :
      s.Does (.inThread i l) (s.setThread i ((s.threads i).after l))

theorem does_of_step [DecidableEq T] (hst : s.step a = some s') : s.Does a s' := by
  cases a with
  | start =>
    simp only [step, Option.ite_none_right_eq_some, Option.some.injEq] at hst
    obtain ⟨hs, rfl⟩ := hst
    exact .start hs
  | make =>
    simp only [step] at hst
    split at hst
    · next i hs =>
      simp only [Option.ite_none_right_eq_some, Option.map_eq_some_iff] at hst
      obtain ⟨hi, t, ht, rfl⟩ := hst
      obtain ⟨hen, rfl⟩ := Lts.guarded_eq_some.1 ht
      exact .make hs hi hen
    · cases hst
  | startReturn =>
    simp only [step] at hst
    split at hst
    · next i hs =>
      obtain ⟨t, ht, rfl⟩ := Option.map_eq_some_iff.1 hst
      obtain ⟨hen, rfl⟩ := Lts.guarded_eq_some.1 ht
      exact .startReturn hs hen
    · cases hst
  | finish =>
    simp only [step] at hst
    split at hst
    · next i hs =>
      simp only [Option.ite_none_left_eq_some, Option.some.injEq] at hst
      obtain ⟨hi, rfl⟩ := hst
      exact .finish hs hi
    · cases hst
  | inThread i l =>
    simp only [step, Option.ite_none_right_eq_some, Option.map_eq_some_iff] at hst
    obtain ⟨hl, t, ht, rfl⟩ := hst
    obtain ⟨hen, rfl⟩ := Lts.guarded_eq_some.1 ht
    exact .inThread hl hen

/-- The invariant of `start()`: where each of the threads is. -/
structure Sound (s : EventLoopThreadPool T F) : Prop where
  ready : ∀ i, (s.threads i).Ready
  dtor : ∀ i, (s.threads i).dtor = .idle
  unmade : ∀ i, s.made ≤ i → s.threads i = .init
  up : ∀ i < s.up, (s.threads i).starter = .returned
  loop : ∀ i, s.starting = .loop i → i ≤ s.numThreads_
  waiting : ∀ i, s.starting = .waiting i →
    i < s.numThreads_ ∧ (s.threads i).starter = .waiting
  loops : s.loops_ = List.range s.up

theorem sound_init (numThreads : ℕ) : (init numThreads : EventLoopThreadPool T F).Sound where
  ready _ := EventLoopThread.ready_init
  dtor _ := rfl
  unmade _ _ := rfl
  up _ hi := absurd hi (Nat.not_lt_zero _)
  loop _ h := by cases h
  waiting _ h := by cases h
  loops := rfl

variable [DecidableEq T]

omit [DecidableEq T] in
theorem threads_setThread (t : EventLoopThread T F) (j : ℕ) :
    (s.setThread i t).threads j = if j = i then t else s.threads j :=
  Function.update_apply _ _ _ _

omit [DecidableEq T] in
theorem forall_setThread {p : ℕ → EventLoopThread T F → Prop} {t : EventLoopThread T F}
    (hi : p i t) (h : ∀ j, j ≠ i → p j (s.threads j)) (j : ℕ) :
    p j ((s.setThread i t).threads j) := by
  rw [threads_setThread]
  split_ifs with hj
  · rw [hj]
    exact hi
  · exact h j hj

/-- A step of the `i`-th thread that its starter has no part in. -/
theorem sound_inThread {l : EventLoopThread.Label T F} (h : s.Sound) (hl : l.isInner = true)
    (hen : (s.threads i).enabled l) : (s.setThread i ((s.threads i).after l)).Sound := by
  obtain ⟨hstarter, hdtor⟩ := EventLoopThread.starter_after (s := s.threads i) hl
  have hmade : i < s.made := by
    by_contra hi
    rw [h.unmade i (not_lt.1 hi)] at hen
    exact EventLoopThread.not_inner_init hl hen
  refine ⟨forall_setThread (EventLoopThread.ready_after (h.ready i) hen) fun j _ => h.ready j,
    forall_setThread (p := fun _ t => t.dtor = .idle) (hdtor.trans (h.dtor i)) fun j _ => h.dtor j,
    forall_setThread (p := fun j t => s.made ≤ j → t = .init) (fun hi => absurd hi (not_le.2 hmade))
      fun j _ => h.unmade j,
    forall_setThread (p := fun j t => j < s.up → t.starter = .returned)
      (fun hi => hstarter.trans (h.up i hi)) fun j _ => h.up j,
    h.loop, ?_, h.loops⟩
  exact forall_setThread (p := fun j t => s.starting = .waiting j →
    j < s.numThreads_ ∧ t.starter = .waiting)
    (fun hi => ⟨(h.waiting i hi).1, hstarter.trans (h.waiting i hi).2⟩) fun j _ => h.waiting j

theorem sound_step (h : s.Sound) (hst : s.step a = some s') : s'.Sound := by
  cases does_of_step hst with
  | start hs =>
    have hmade : s.made = 0 := by rw [made, hs]
    have hup : s.up = 0 := by rw [EventLoopThreadPool.up, hs]
    refine ⟨h.ready, h.dtor, fun i _ => h.unmade i (by omega),
      fun i hi => absurd hi (Nat.not_lt_zero i), fun i hi => ?_, fun i hi => ?_, ?_⟩
    · cases hi
      exact Nat.zero_le _
    · cases hi
    · exact h.loops.trans (congrArg List.range hup)
  | @make i hs hi hen =>
    have hmade : s.made = i := by rw [made, hs]
    have hup : s.up = i := by rw [EventLoopThreadPool.up, hs]
    refine ⟨forall_setThread (EventLoopThread.ready_after (h.ready i) hen) fun j _ => h.ready j,
      forall_setThread (p := fun _ t => t.dtor = .idle) (h.dtor i) fun j _ => h.dtor j,
      forall_setThread (p := fun j t => i + 1 ≤ j → t = .init) (fun hj => absurd hj (by omega))
        fun j _ hj => h.unmade j (by omega),
      forall_setThread (p := fun j t => j < i → t.starter = .returned)
        (fun hj => absurd hj (by omega)) fun j _ hj => h.up j (by omega),
      fun j hj => ?_, fun j hj => ?_, h.loops.trans (congrArg List.range hup)⟩
    · cases hj
    · cases hj
      refine ⟨hi, ?_⟩
      show ((s.setThread i _).threads i).starter = _
      rw [threads_setThread, if_pos rfl]
      rfl
  | @startReturn i hs hen =>
    have hmade : s.made = i + 1 := by rw [made, hs]
    have hup : s.up = i := by rw [EventLoopThreadPool.up, hs]
    refine ⟨forall_setThread (EventLoopThread.ready_after (h.ready i) hen) fun j _ => h.ready j,
      forall_setThread (p := fun _ t => t.dtor = .idle) (h.dtor i) fun j _ => h.dtor j,
      forall_setThread (p := fun j t => i + 1 ≤ j → t = .init) (fun hj => absurd hj (by omega))
        fun j _ hj => h.unmade j (by omega),
      forall_setThread (p := fun j t => j < i + 1 → t.starter = .returned) (fun _ => rfl)
        fun j hne hj => h.up j (by omega),
      fun j hj => ?_, fun j hj => ?_, ?_⟩
    · cases hj
      exact (h.waiting i hs).1
    · cases hj
    · show s.loops_ ++ [i] = List.range (i + 1)
      rw [h.loops, hup, List.range_succ]
  | @finish i hs hi =>
    have hn : i = s.numThreads_ := le_antisymm (h.loop i hs) (not_lt.1 hi)
    have hmade : s.made = s.numThreads_ := by rw [made, hs, hn]
    have hup : s.up = s.numThreads_ := by rw [EventLoopThreadPool.up, hs, hn]
    refine ⟨h.ready, h.dtor, fun j hj => h.unmade j (hmade.trans_le hj),
      fun j hj => h.up j (hj.trans_eq hup.symm), fun j hj => ?_, fun j hj => ?_,
      h.loops.trans (congrArg List.range hup)⟩
    · cases hj
    · cases hj
  | inThread hl hen => exact sound_inThread h hl hen

theorem numThreads_step (hst : s.step a = some s') : s'.numThreads_ = s.numThreads_ := by
  cases does_of_step hst <;> rfl

theorem sound_run (h : Lts.exec step (init n) ls = some s) : s.Sound ∧ s.numThreads_ = n :=
  Lts.exec_inv' (I := fun s => s.Sound ∧ s.numThreads_ = n)
    (fun _ _ _ hs hst => ⟨sound_step hs.1 hst, (numThreads_step hst).trans hs.2⟩)
    ⟨sound_init n, rfl⟩ h

/-! ### When `start()` has returned -/

/-- Somebody quits a loop. -/
def Label.quits : Label T F → Bool
  | .inThread _ l => l.quitsElsewhere
  | _ => false

theorem unquit_step (h : s.Sound) (hu : ∀ i, (s.threads i).Unquit) (ha : a.quits = false)
    (hst : s.step a = some s') : ∀ i, (s'.threads i).Unquit := by
  have hthread : ∀ {i l}, l.quitsElsewhere = false → (s.threads i).enabled l →
      ((s.threads i).after l).dtor = .idle →
      ∀ j, ((s.setThread i ((s.threads i).after l)).threads j).Unquit := fun {i l} hl hen hd =>
    forall_setThread (p := fun _ t => t.Unquit)
      (EventLoopThread.unquit_after (fun _ => hu i) hl hen (Or.inl hd)) fun j _ => hu j
  cases does_of_step hst with
  | start | finish => exact hu
  | make hs hi hen => exact hthread (l := .start) rfl hen (h.dtor _)
  | startReturn hs hen => exact hthread (l := .startReturn) rfl hen (h.dtor _)
  | inThread hl hen => exact hthread ha hen ((EventLoopThread.starter_after hl).2.trans (h.dtor _))

theorem unquit_run (hls : ∀ a ∈ ls, a.quits = false) (h : Lts.exec step (init n) ls = some s) :
    ∀ i, (s.threads i).Unquit := by
  have hinit : ∀ i, ((init n : EventLoopThreadPool T F).threads i).Unquit := by
    intro i
    refine ⟨rfl, ?_, ?_, ?_⟩ <;> simp [init, EventLoopThread.init, EventLoop.init]
  exact (Lts.exec_inv (I := fun s => s.Sound ∧ ∀ i, (s.threads i).Unquit)
    (P := fun _ a => a.quits = false)
    (fun _ _ _ hs ha hst => ⟨sound_step hs.1 hst, unquit_step hs.1 hs.2 ha hst⟩)
    ⟨sound_init n, hinit⟩ (Lts.along_of_forall hls) h).2

/-- **When `start()` has returned.**  Then `loops_` holds the addresses of `numThreads_` loops, in
order, each of which was published by its own thread, and no other thread was made; the loops are
alive if nobody has quit one. -/
theorem start_returned (h : Lts.exec step (init n) ls = some s) (hr : s.starting = .returned) :
    s.loops_ = List.range n ∧
      (∀ i < n, (s.threads i).worker = .published ∨ (s.threads i).worker = .cleared ∨
        (s.threads i).worker = .ended) ∧
      (∀ i, n ≤ i → s.threads i = .init) ∧
      ((∀ a ∈ ls, a.quits = false) → ∀ i < n,
        (s.threads i).worker = .published ∧ (s.threads i).loop_ = true) := by
  obtain ⟨hs, hn⟩ := sound_run h
  have hmade : s.made = n := by rw [made, hr, hn]
  have hup : s.up = n := by rw [up, hr, hn]
  have hheld : ∀ i < n, (s.threads i).worker = .published ∨ (s.threads i).worker = .cleared ∨
      (s.threads i).worker = .ended := fun i hi =>
    (hs.ready i).handshake.held (Or.inl (hs.up i (hi.trans_eq hup.symm)))
  refine ⟨hs.loops.trans (congrArg List.range hup), hheld,
    fun i hi => hs.unmade i (hmade.trans_le hi), fun hls i hi => ?_⟩
  have hworker : (s.threads i).worker = .published :=
    (hheld i hi).resolve_right (not_or.2 (unquit_run hls h i).worker)
  exact ⟨hworker, (hs.ready i).set hworker⟩

/-- The first loop runs while the second one is made. -/
private def pooledRun : List (Label Unit ℕ) :=
  [.start, .make, .inThread 0 .construct, .inThread 0 .publish, .startReturn, .make,
    .inThread 0 (.inLoop .enter), .inThread 1 .construct, .inThread 0 (.inLoop (.push () 7)),
    .inThread 1 .publish, .startReturn, .finish]

theorem start_returned_pooled : ∃ s : EventLoopThreadPool Unit ℕ,
    Lts.exec step (init 2) pooledRun = some s ∧ s.loops_ = [0, 1] ∧
      ∀ i < 2, (s.threads i).worker = .published ∧ (s.threads i).loop_ = true := by
  have h : (Lts.exec step (init 2) pooledRun).isSome := rfl
  obtain ⟨hloops, -, -, halive⟩ := start_returned (Option.some_get h).symm rfl
  exact ⟨_, (Option.some_get h).symm, hloops, halive (by decide)⟩

/-! ### Whether it returns -/

/-- A step of the thread in `start()`, or of a new thread on its way to `loop()`. -/
def Label.isStarting : Label T F → Bool
  | .make | .startReturn | .finish => true
  | .inThread _ .construct | .inThread _ .publish | .inThread _ (.inLoop .loopWakeup) => true
  | _ => false

/-- These threads alone bring `start()` to its end, in `m` steps at most. -/
def Returns (s : EventLoopThreadPool T F) (m : ℕ) : Prop :=
  Lts.Attains step (fun a => a.isStarting = true) (fun u => u.starting = .returned) m s

/-- The loop that `startLoop()` waits for has come to its end. -/
def Missed (s : EventLoopThreadPool T F) : Prop :=
  ∃ i, s.starting = .waiting i ∧
    ((s.threads i).worker = .cleared ∨ (s.threads i).worker = .ended)

variable {m : ℕ}

theorem step_inThread {l : EventLoopThread.Label T F} (hl : l.isInner = true)
    (hen : (s.threads i).enabled l) :
    s.step (.inThread i l) = some (s.setThread i ((s.threads i).after l)) := by
  rw [step, if_pos hl, EventLoopThread.step, Lts.guarded, if_pos hen]
  rfl

theorem returns_published (h : s.Sound) (hs : s.starting = .waiting i)
    (hw : (s.threads i).worker = .published)
    (hnext : ∀ u : EventLoopThreadPool T F, u.Sound → u.numThreads_ = s.numThreads_ →
      u.starting = .loop (i + 1) → u.Returns m) : s.Returns (m + 1) := by
  have hen : (s.threads i).enabled .startReturn := ⟨(h.waiting i hs).2, (h.ready i).set hw⟩
  have hst : s.step .startReturn = some
      { s.setThread i ((s.threads i).after .startReturn) with
        starting := .loop (i + 1)
        loops_ := s.loops_ ++ [i] } := by
    simp only [step, hs, EventLoopThread.step, Lts.guarded, if_pos hen]
    rfl
  exact Lts.attains_step hst rfl (hnext _ (sound_step h hst) rfl rfl)

/-- The new thread goes on to publish its loop. -/
theorem returns_inThread {l : EventLoopThread.Label T F} (h : s.Sound)
    (hs : s.starting = .waiting i)
    (hl : l.isInner = true) (hown : (Label.inThread i l).isStarting = true)
    (hen : (s.threads i).enabled l)
    (hnext : ∀ u : EventLoopThreadPool T F, u.Sound → u.numThreads_ = s.numThreads_ →
      u.starting = .waiting i → u.threads i = (s.threads i).after l → u.Returns m) :
    s.Returns (m + 1) := by
  refine Lts.attains_step (step_inThread hl hen) hown
    (hnext _ (sound_inThread h hl hen) rfl hs ?_)
  rw [threads_setThread, if_pos rfl]

theorem returns_constructed (h : s.Sound) (hs : s.starting = .waiting i)
    (hw : (s.threads i).worker = .constructed) (hpushed : (s.threads i).loop.loopPushed = false)
    (hnext : ∀ u : EventLoopThreadPool T F, u.Sound → u.numThreads_ = s.numThreads_ →
      u.starting = .loop (i + 1) → u.Returns m) : s.Returns (m + 2) :=
  returns_inThread (l := .publish) h hs rfl rfl ⟨hw, hpushed⟩ fun u hu hn hs' ht =>
    returns_published hu hs' (by rw [ht]; rfl) fun v hv hn' => hnext v hv (hn'.trans hn)

theorem returns_waiting (h : s.Sound) (hs : s.starting = .waiting i) (hmissed : ¬ s.Missed)
    (hnext : ∀ u : EventLoopThreadPool T F, u.Sound → u.numThreads_ = s.numThreads_ →
      u.starting = .loop (i + 1) → u.Returns m) : s.Returns (m + 3) := by
  cases hw : (s.threads i).worker with
  | notStarted =>
    have hidle := (h.ready i).begun hw
    rw [(h.waiting i hs).2] at hidle
    cases hidle
  | started =>
    exact returns_inThread (l := .construct) h hs rfl rfl hw fun u hu hn hs' ht =>
      returns_constructed hu hs' (by rw [ht]; rfl) (by rw [ht]; rfl)
        fun v hv hn' => hnext v hv (hn'.trans hn)
  | constructed =>
    cases hpushed : (s.threads i).loop.loopPushed with
    | false => exact (returns_constructed h hs hw hpushed hnext).mono (by omega)
    | true =>
      exact returns_inThread (l := .inLoop .loopWakeup) h hs rfl rfl ⟨Or.inl hw, hpushed⟩
        fun u hu hn hs' ht =>
          returns_constructed hu hs' (by rw [ht]; exact hw) (by rw [ht]; rfl)
            fun v hv hn' => hnext v hv (hn'.trans hn)
  | published => exact (returns_published h hs hw hnext).mono (by omega)
  | cleared => exact absurd ⟨i, hs, Or.inl hw⟩ hmissed
  | ended => exact absurd ⟨i, hs, Or.inr hw⟩ hmissed

/-- The rest of the loop of `start()`. -/
theorem returns_loop (h : s.Sound) (hs : s.starting = .loop i) :
    s.Returns (4 * (s.numThreads_ - i) + 1) := by
  induction hd : s.numThreads_ - i generalizing s i with
  | zero =>
    have hi : ¬ i < s.numThreads_ := by omega
    have hst : s.step .finish = some { s with starting := .returned } := by
      simp only [step, hs, if_neg hi]
    exact Lts.attains_step hst rfl (Lts.attains_of rfl)
  | succ d ih =>
    have hi : i < s.numThreads_ := by omega
    have hthread : s.threads i = .init := h.unmade i (by rw [made, hs])
    have hen : (s.threads i).enabled .start := by
      rw [hthread]
      rfl
    have hst : s.step .make = some
        { s.setThread i ((s.threads i).after .start) with starting := .waiting i } := by
      simp only [step, hs, if_pos hi, EventLoopThread.step, Lts.guarded, if_pos hen]
      rfl
    have hrest : ∀ u : EventLoopThreadPool T F, u.Sound → u.numThreads_ = s.numThreads_ →
        u.starting = .loop (i + 1) → u.Returns (4 * d + 1) :=
      fun u hu hn hs' => ih hu hs' (by omega)
    have hworker : ({ s.setThread i ((s.threads i).after .start) with
        starting := .waiting i } : EventLoopThreadPool T F).threads i =
          (s.threads i).after .start := by
      show (s.setThread i _).threads i = _
      rw [threads_setThread, if_pos rfl]
    have hmissed : ¬ ({ s.setThread i ((s.threads i).after .start) with
        starting := .waiting i } : EventLoopThreadPool T F).Missed := by
      rintro ⟨j, hj, hw⟩
      cases hj
      rw [hworker] at hw
      rcases hw with hw | hw <;> cases hw
    exact Lts.attains_step hst rfl (returns_waiting (sound_step h hst) rfl hmissed hrest)

/-- A loop that was missed is missed for good, whoever takes the step. -/
theorem missed_step (h : s.Sound) (hm : s.Missed) (hst : s.step a = some s') :
    s'.Missed ∧ s'.starting = s.starting := by
  obtain ⟨i, hs, hw⟩ := hm
  cases does_of_step hst with
  | start hs' | make hs' hi hen | finish hs' hi =>
    rw [hs] at hs'
    cases hs'
  | @startReturn j hs' hen =>
    rw [hs] at hs'
    cases hs'
    have hpublished := (h.ready i).pointer hen.2
    rcases hw with hw | hw <;> rw [hw] at hpublished <;> cases hpublished
  | @inThread j l hl hen =>
    refine ⟨⟨i, hs, ?_⟩, rfl⟩
    rw [threads_setThread]
    split_ifs with hij
    · subst hij
      cases l with
      | construct => rcases hw with hw | hw <;> exact absurd (hw.symm.trans hen) (by decide)
      | publish => rcases hw with hw | hw <;> exact absurd (hw.symm.trans hen.1) (by decide)
      | clear => exact Or.inl rfl
      | destroy => exact Or.inr rfl
      | inLoop l => exact hw
      | start | startReturn | dtorCopy | dtorQuit | dtorJoin => cases hl
    · exact hw

/-- The condition wait goes on for ever. -/
theorem missed_run (h : s.Sound) (hm : s.Missed) (hrun : Lts.exec step s ls = some s') :
    s'.starting = s.starting ∧ s'.starting ≠ .returned := by
  obtain ⟨-, hmissed, hstarting⟩ := Lts.exec_inv'
    (I := fun u => u.Sound ∧ u.Missed ∧ u.starting = s.starting)
    (fun u a v hu hst => by
      obtain ⟨hv, hstarting⟩ := missed_step hu.1 hu.2.1 hst
      exact ⟨sound_step hu.1 hst, hv, hstarting.trans hu.2.2⟩) ⟨h, hm, rfl⟩ hrun
  refine ⟨hstarting, fun hr => ?_⟩
  obtain ⟨i, hwaiting, -⟩ := hmissed
  rw [hr] at hwaiting
  cases hwaiting

/-- **Whether `start()` returns.**  In every reachable state in which it runs, the thread in it and
the new threads alone bring it to its end, in at most four steps for each thread and four more,
unless the loop that it waits for has come to its end already; then it waits for ever, whatever the
new threads, their loops and any other threads do.  That does not happen when nobody quits a
loop. -/
theorem start_returns_iff (h : Lts.exec step (init n) ls = some s) (hidle : s.starting ≠ .idle) :
    (¬ s.Missed → s.Returns (4 * n + 4)) ∧
      (s.Missed → ∀ ms u, Lts.exec step s ms = some u →
        u.starting = s.starting ∧ u.starting ≠ .returned) ∧
      ((∀ a ∈ ls, a.quits = false) → ¬ s.Missed) := by
  obtain ⟨hs, hn⟩ := sound_run h
  refine ⟨fun hmissed => ?_, fun hmissed ms u hrun => missed_run hs hmissed hrun, fun hls => ?_⟩
  · cases hstarting : s.starting with
    | idle => exact absurd hstarting hidle
    | loop i => exact (returns_loop hs hstarting).mono (by omega)
    | waiting i =>
      have hrest : ∀ u : EventLoopThreadPool T F, u.Sound → u.numThreads_ = s.numThreads_ →
          u.starting = .loop (i + 1) → u.Returns (4 * n + 1) := fun u hu hn' hs' =>
        (returns_loop hu hs').mono (by omega)
      exact returns_waiting hs hstarting hmissed hrest
    | returned => exact Lts.attains_of hstarting
  · rintro ⟨i, -, hw⟩
    exact not_or.2 (unquit_run hls h i).worker hw

/-- The callback of the new thread queues a functor that quits the loop; the loop runs it and
returns before `startLoop()` looks at `loop_`. -/
private def missedRun : List (Label Unit ℕ) :=
  [.start, .make, .inThread 0 .construct, .inThread 0 (.inLoop (.loopPush 7)),
    .inThread 0 (.inLoop .loopWakeup), .inThread 0 .publish, .inThread 0 (.inLoop .enter),
    .inThread 0 (.inLoop .test), .inThread 0 (.inLoop .poll), .inThread 0 (.inLoop .pollReturn),
    .inThread 0 (.inLoop .doPendingFunctors), .inThread 0 (.inLoop .swap),
    .inThread 0 (.inLoop .functor), .inThread 0 (.inLoop .loopQuit), .inThread 0 (.inLoop .finish),
    .inThread 0 (.inLoop .test), .inThread 0 .clear]

theorem start_returns_iff_missed :
    (∃ s : EventLoopThreadPool Unit ℕ, Lts.exec step (init 2) missedRun = some s ∧
      ∀ ms u, Lts.exec step s ms = some u → u.starting ≠ .returned) ∧
    ∃ s : EventLoopThreadPool Unit ℕ,
      Lts.exec step (init 2) (pooledRun.take 7) = some s ∧ s.Returns 12 := by
  have h : (Lts.exec step (init 2) missedRun).isSome := rfl
  have h' : (Lts.exec step (init 2) (pooledRun.take 7)).isSome := rfl
  have hidle : ((Lts.exec step (init 2) missedRun).get h).starting ≠ .idle := by
    intro hs
    cases hs
  have hidle' : ((Lts.exec step (init 2) (pooledRun.take 7)).get h').starting ≠ .idle := by
    intro hs
    cases hs
  obtain ⟨-, hwaits, -⟩ := start_returns_iff (Option.some_get h).symm hidle
  obtain ⟨hreturn, -, hquit⟩ := start_returns_iff (Option.some_get h').symm hidle'
  refine ⟨⟨_, (Option.some_get h).symm, fun ms u hrun => ?_⟩,
    ⟨_, (Option.some_get h').symm, hreturn (hquit (by decide))⟩⟩
  exact (hwaits ⟨0, rfl, Or.inl rfl⟩ ms u hrun).2

end EventLoopThreadPool

end Muduo
