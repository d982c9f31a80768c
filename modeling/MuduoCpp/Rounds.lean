import MuduoCpp.EventLoop

/-!
# `src/EventLoop.cc`: how long a functor waits

A round of the loop ends with the end of `doPendingFunctors`.  A functor that is pushed while a
batch runs is not in that batch, so it waits for the end of two rounds, and any other for the end of
one.

* `functors_in_two_rounds`: after them it has been run, whatever the threads do meanwhile;
* `drains_iff`: the loop thread alone, without any step of another thread and without user code, can
  run all that is queued, unless it is past its last `swap`.
-/

namespace Muduo

namespace EventLoop

variable {T F : Type} {s t : EventLoop T F} {E : List (Entry T F)} {l : Label T F}
  {ls : List (Label T F)}

/-! ### Two rounds -/

/-- The end of `doPendingFunctors`. -/
def Label.isFinish : Label T F → Bool
  | .finish => true
  | _ => false

/-- How many rounds end in a sequence of steps. -/
def rounds (ls : List (Label T F)) : ℕ := ls.countP Label.isFinish

/-- At the end of `n` rounds the functors `E` have been run. -/
def Waits (E : List (Entry T F)) (s : EventLoop T F) : ℕ → Prop
  | 0 => E <+: s.executed
  -- a batch that is running has them all
  | 1 => E <+: s.all ∧ (s.phase = .functors → E <+: s.executed ++ s.functors)
  | _ + 2 => E <+: s.all

variable [DecidableEq T]

/-- What has been run stays so. -/
theorem executed_after (h : s.enabled l) :
    s.executed <+: (s.after l).executed ∧
      (s.phase = .functors → s.executed ++ s.functors <+:
        (s.after l).executed ++ (s.after l).functors) := by
  cases l with
  | functor =>
    obtain ⟨-, hne, -⟩ := h
    obtain ⟨e, rest, hf⟩ := List.exists_cons_of_ne_nil hne
    simp [after, hf]
  | swap =>
    refine ⟨List.prefix_rfl, fun hp => ?_⟩
    rw [show s.phase = .swap from h] at hp
    cases hp
  | _ => exact ⟨List.prefix_rfl, fun _ => List.prefix_rfl⟩

/-- A batch begins with the swap of the whole queue. -/
theorem phase_after (h : s.enabled l) (hp : (s.after l).phase = .functors) :
    s.phase = .functors ∨ l = .swap := by
  cases l with
  | test => cases hq : s.quit_ <;> simp [after, hq] at hp
  | swap => exact Or.inr rfl
  | enter | poll | pollReturn | doPendingFunctors | finish => cases hp
  | functor => exact Or.inl h.1
  | handleRead | loopPush f | loopWakeup | loopQuit | push t f | wakeup t | quitStore t =>
    exact Or.inl hp

theorem waits_after {n : ℕ} (hb : s.BatchOk) (h : s.enabled l) (hw : Waits E s n) :
    Waits E (s.after l) (n - if l.isFinish then 1 else 0) := by
  obtain ⟨-, hall⟩ := all_after hb h
  obtain ⟨hrun, hbatch⟩ := executed_after h
  have hpre : E <+: s.all → E <+: (s.after l).all := fun hE => by
    rw [hall]
    exact hE.trans (List.prefix_append _ _)
  rcases n with _ | _ | n
  · rw [Nat.zero_sub]
    exact List.IsPrefix.trans hw hrun
  · obtain ⟨hE, hfunctors⟩ := hw
    by_cases hl : l = .finish
    · subst hl
      -- the batch is at its end
      have hrest : s.functors = [] := h.2.1
      have hE' := hfunctors h.1
      rwa [hrest, List.append_nil] at hE'
    · have hfinish : l.isFinish = false := by cases l <;> first | rfl | exact absurd rfl hl
      rw [hfinish]
      refine ⟨hpre hE, fun hp => ?_⟩
      rcases phase_after h hp with hp' | rfl
      · exact (hfunctors hp').trans (hbatch hp')
      · rw [all, hb (by rw [show s.phase = .swap from h]; decide), List.append_nil] at hE
        exact hE
  · have hE : E <+: s.all := hw
    cases hl : l.isFinish with
    | false => exact hpre hE
    | true =>
      have hphase : (s.after l).phase = .test := by cases l <;> first | rfl | cases hl
      cases n with
      | zero => exact ⟨hpre hE, fun hp => by rw [hphase] at hp; cases hp⟩
      | succ n => exact hpre hE

theorem waits_run {n : ℕ} (hb : s.BatchOk) (hw : Waits E s n)
    (h : Lts.exec step s ls = some t) (hn : n ≤ rounds ls) : E <+: t.executed := by
  induction ls generalizing s n with
  | nil =>
    cases h
    obtain rfl : n = 0 := Nat.le_zero.1 hn
    exact hw
  | cons l ls ih =>
    obtain ⟨hen, hut⟩ := Lts.guarded_exec_cons.1 h
    refine ih (all_after hb hen).1 (waits_after hb hen hw) hut ?_
    rw [rounds, List.countP_cons] at hn
    exact Nat.sub_le_iff_le_add.2 hn

/-- **Two rounds.**  Whatever the threads do, all that has been pushed at some point has been run,
in the order of the pushes, when two more rounds have ended, and when one has if no batch was
running. -/
theorem functors_in_two_rounds {pre post : List (Label T F)}
    (hpre : Lts.exec step init pre = some s) (hpost : Lts.exec step s post = some t) :
    (2 ≤ rounds post → pushes pre <+: t.executed) ∧
      (s.phase ≠ .functors → 1 ≤ rounds post → pushes pre <+: t.executed) := by
  obtain ⟨hb, hall⟩ := functors_in_order (s := init) (fun _ => rfl) hpre
  have hpushed : s.all = pushes pre := hall
  refine ⟨fun hn => waits_run hb (n := 2) ?_ hpost hn,
    fun hp hn => waits_run hb (n := 1) ?_ hpost hn⟩
  · rw [← hpushed]
    exact List.prefix_rfl
  · rw [← hpushed]
    exact ⟨List.prefix_rfl, fun hp' => absurd hp' hp⟩

/-- Pushed while a batch runs: the end of that batch is not enough. -/
private def batchRun : List (Label Unit ℕ) :=
  [.enter, .test, .poll, .pollReturn, .doPendingFunctors, .swap, .push () 7]

theorem functors_in_two_rounds_batch :
    (∃ t : EventLoop Unit ℕ, Lts.exec step init (batchRun ++ [.wakeup (), .finish]) = some t ∧
      t.executed = []) ∧
    ∃ t : EventLoop Unit ℕ, [(some (), 7)] <+: t.executed := by
  refine ⟨⟨_, rfl, rfl⟩, ?_⟩
  have h : (Lts.exec step init batchRun).isSome := rfl
  have h' : (Lts.exec step ((Lts.exec step init batchRun).get h)
    [.wakeup (), .finish, .test, .poll, .pollReturn, .handleRead, .doPendingFunctors, .swap,
      .functor, .finish]).isSome := rfl
  exact ⟨_, (functors_in_two_rounds (Option.some_get h).symm (Option.some_get h').symm).1
    (by decide)⟩

/-! ### Draining the queue -/

/-- A step of the loop thread that runs no user code: it queues nothing and does not quit. -/
def Label.isOwn : Label T F → Bool
  | .loopPush _ | .loopQuit | .push _ _ | .wakeup _ | .quitStore _ => false
  | _ => true

/-- The loop thread alone can run all that is queued, in `n` steps at most. -/
def Drains (s : EventLoop T F) (n : ℕ) : Prop :=
  ∃ ls t, Lts.exec step s ls = some t ∧ (∀ l ∈ ls, l.isOwn = true) ∧ ls.length ≤ n ∧
    t.executed = s.all

/-- The loop comes to another `swap`. -/
def SwapsAgain (s : EventLoop T F) : Prop :=
  s.phase ≠ .returned ∧ (s.quit_ = false ∨ (s.phase ≠ .test ∧ s.phase ≠ .functors))

section Own

variable {Q : EventLoop T F → Prop} {n : ℕ}

theorem attains_own (h : s.enabled l) (hl : l.isOwn = true)
    (ht : Lts.Attains step (fun l => l.isOwn = true) Q n (s.after l)) :
    Lts.Attains step (fun l => l.isOwn = true) Q (n + 1) s :=
  Lts.attains_step (Lts.guarded_eq_some.2 ⟨h, rfl⟩) hl ht

/-- The loop thread runs the rest of its batch. -/
theorem attains_batch (hp : s.phase = .functors) (hpushed : s.loopPushed = false)
    (h : Lts.Attains step (fun l => l.isOwn = true) Q n
      { s with functors := [], executed := s.executed ++ s.functors }) :
    Lts.Attains step (fun l => l.isOwn = true) Q (s.functors.length + n) s := by
  induction hf : s.functors generalizing s with
  | nil =>
    have hend : { s with functors := [], executed := s.executed ++ s.functors } = s := by
      rw [hf, List.append_nil, ← hf]
    rw [hend] at h
    rwa [List.length_nil, Nat.zero_add]
  | cons e rest ih =>
    have hrest : (s.after .functor).functors = rest := by simp [after, hf]
    rw [List.length_cons, Nat.add_right_comm]
    refine attains_own (l := .functor) ⟨hp, by simp [hf], hpushed⟩ rfl ?_
    refine ih (s := s.after .functor) hp hpushed ?_ hrest
    have hran : (s.after .functor).executed ++ (s.after .functor).functors =
        s.executed ++ s.functors := by
      rw [hrest, hf]
      simp [after, hf]
    rw [hran]
    exact h

/-- The loop thread goes on in its round, up to the swap. -/
theorem attains_swap (hpushed : s.loopPushed = false)
    (hp : s.phase = .ready ∨ s.phase = .poll ∨ s.phase = .dispatch ∨ s.phase = .swap)
    (h : ∀ b, Lts.Attains step (fun l => l.isOwn = true) Q n
      { s with
        phase := .functors
        functors := s.pendingFunctors_
        pendingFunctors_ := []
        callingPendingFunctors_ := b }) :
    Lts.Attains step (fun l => l.isOwn = true) Q (n + 4) s := by
  have hswap : ∀ b, Lts.Attains step (fun l => l.isOwn = true) Q (n + 1)
      { s with phase := .swap, callingPendingFunctors_ := b } := fun b =>
    attains_own (l := .swap) rfl rfl (h b)
  have hdispatch : Lts.Attains step (fun l => l.isOwn = true) Q (n + 2)
      { s with phase := .dispatch } :=
    attains_own (l := .doPendingFunctors) ⟨rfl, hpushed⟩ rfl (hswap true)
  have hpoll : Lts.Attains step (fun l => l.isOwn = true) Q (n + 3) { s with phase := .poll } :=
    attains_own (l := .pollReturn) rfl rfl hdispatch
  have hself : ∀ {phase : Phase}, s.phase = phase → { s with phase := phase } = s := by
    rintro phase rfl
    rfl
  rcases hp with hp | hp | hp | hp
  · exact attains_own (l := .poll) hp rfl hpoll
  · rw [hself hp] at hpoll
    exact hpoll.mono (by omega)
  · rw [hself hp] at hdispatch
    exact hdispatch.mono (by omega)
  · have hnext := hswap s.callingPendingFunctors_
    rw [hself hp] at hnext
    exact hnext.mono (by omega)

end Own

theorem drains_step {n : ℕ} (hb : s.BatchOk) (h : s.enabled l) (hl : l.isOwn = true)
    (hd : (s.after l).Drains n) : s.Drains (n + 1) := by
  have hnone : l.entry = none := by cases l <;> first | rfl | cases hl
  have hall : (s.after l).all = s.all := by
    rw [(all_after hb h).2, hnone, Option.toList_none, List.append_nil]
  rw [Drains, hall] at hd
  exact attains_own h hl hd

theorem Drains.mono {n m : ℕ} (h : s.Drains n) (hnm : n ≤ m) : s.Drains m :=
  Lts.Attains.mono h hnm

/-- The batch, when nothing else is queued. -/
theorem drains_batch (hp : s.phase = .functors) (hpushed : s.loopPushed = false)
    (hnil : s.pendingFunctors_ = []) : s.Drains s.functors.length :=
  attains_batch (n := 0) hp hpushed (Lts.attains_of (by simp [all, hnil]))

/-- The rest of a round up to the end of its batch. -/
theorem drains_round (hb : s.BatchOk) (hpushed : s.loopPushed = false)
    (hp : s.phase = .ready ∨ s.phase = .poll ∨ s.phase = .dispatch ∨ s.phase = .swap) :
    s.Drains (s.pendingFunctors_.length + 4) := by
  have hnil : s.functors = [] := hb (by rcases hp with hp | hp | hp | hp <;> simp [hp])
  have hall : s.executed ++ s.pendingFunctors_ = s.all := by simp [all, hnil]
  exact attains_swap hpushed hp fun _ => attains_batch (n := 0) rfl hpushed (Lts.attains_of hall)

/-- A round from the test of `quit_` on. -/
theorem drains_test (hb : s.BatchOk) (hpushed : s.loopPushed = false) (hp : s.phase = .test)
    (hq : s.quit_ = false) : s.Drains (s.pendingFunctors_.length + 5) := by
  have hready : (s.after .test).phase = .ready := by simp [after, hq]
  exact drains_step hb (l := .test) hp rfl
    (drains_round (s := s.after .test) (fun _ => hb (by simp [hp])) hpushed (Or.inl hready))

/-- The batch, and another round for what is queued. -/
theorem drains_functors (hp : s.phase = .functors) (hpushed : s.loopPushed = false)
    (hq : s.quit_ = false) :
    s.Drains (s.functors.length + (s.pendingFunctors_.length + 6)) := by
  set u : EventLoop T F := { s with functors := [], executed := s.executed ++ s.functors } with hu
  have hround : u.Drains (s.pendingFunctors_.length + 6) :=
    drains_step (fun _ => rfl) (l := .finish) ⟨hp, rfl, hpushed⟩ rfl
      (drains_test (s := u.after .finish) (fun _ => rfl) hpushed rfl hq)
  have hall : u.all = s.all := by simp [hu, all]
  rw [Drains, hall] at hround
  exact attains_batch hp hpushed hround

/-- The loop thread is not inside `queueInLoop`. -/
theorem drains_of_not_pushed (hb : s.BatchOk) (hpushed : s.loopPushed = false)
    (h : s.pendingFunctors_ = [] ∨ s.SwapsAgain) :
    s.Drains (s.functors.length + s.pendingFunctors_.length + 6) := by
  cases hp : s.phase with
  | functors =>
    rcases h with hnil | ⟨-, hq | ⟨-, hne⟩⟩
    · exact (drains_batch hp hpushed hnil).mono (by omega)
    · exact (drains_functors hp hpushed hq).mono (by omega)
    · exact absurd hp hne
  | ready | poll | dispatch | swap =>
    exact (drains_round hb hpushed (by simp [hp])).mono (by omega)
  | entry =>
    have henter : s.Drains (s.pendingFunctors_.length + 6) :=
      drains_step hb (l := .enter) ⟨hp, hpushed⟩ rfl
        (drains_test (s := s.after .enter) (fun _ => hb (by simp [hp])) hpushed rfl rfl)
    exact henter.mono (by omega)
  | test =>
    rcases h with hnil | ⟨-, hq | ⟨hne, -⟩⟩
    · refine ⟨[], s, rfl, by simp, Nat.zero_le _, ?_⟩
      simp [all, hnil, hb (by simp [hp])]
    · exact (drains_test hb hpushed hp hq).mono (by omega)
    · exact absurd hp hne
  | returned =>
    rcases h with hnil | ⟨hne, -⟩
    · refine ⟨[], s, rfl, by simp, Nat.zero_le _, ?_⟩
      simp [all, hnil, hb (by simp [hp])]
    · exact absurd hp hne

/-- Past its last `swap` the loop leaves the queue as it is. -/
theorem stuck_after (hs : ¬ s.SwapsAgain) (h : s.enabled l) (hl : l.isOwn = true) :
    ¬ (s.after l).SwapsAgain ∧ (s.after l).pendingFunctors_ = s.pendingFunctors_ := by
  simp only [SwapsAgain, not_and, not_or, Bool.not_eq_false, ne_eq] at hs ⊢
  cases l with
  | test =>
    have hp : s.phase = .test := h
    have hq := (hs (by simp [hp])).1
    simp [after, hq]
  | enter | poll | pollReturn | doPendingFunctors | swap | handleRead | functor | finish =>
    simp_all [after, enabled]
  | loopWakeup => exact ⟨hs, rfl⟩
  | _ => cases hl

/-- **The queue can be emptied.**  In every reachable state the loop thread alone can run all that
is queued, in at most seven steps more than there are functors, if the queue is empty or the loop
comes to another `swap`; otherwise it cannot. -/
theorem drains_iff (h : Lts.exec step init ls = some s) :
    (s.pendingFunctors_ = [] ∨ s.SwapsAgain →
      s.Drains (s.functors.length + s.pendingFunctors_.length + 7)) ∧
    ∀ n, s.Drains n → s.pendingFunctors_ = [] ∨ s.SwapsAgain := by
  obtain ⟨hb, -⟩ := functors_in_order (s := init) (fun _ => rfl) h
  constructor
  · intro hcan
    cases hpushed : s.loopPushed with
    | false => exact (drains_of_not_pushed hb hpushed hcan).mono (by omega)
    | true =>
      exact drains_step hb (l := .loopWakeup) hpushed rfl
        (drains_of_not_pushed (s := s.after .loopWakeup) hb rfl hcan)
  · rintro n ⟨ms, t, hexec, hown, -, hrun⟩
    by_contra hnot
    obtain ⟨hne, hstuck⟩ := not_or.1 hnot
    have hinv := Lts.guarded_inv
      (I := fun u : EventLoop T F => ¬ u.SwapsAgain ∧ u.pendingFunctors_ = s.pendingFunctors_)
      (P := fun _ l => l.isOwn = true)
      (fun u l hu hl hen => ?_) ⟨hstuck, rfl⟩ (Lts.along_of_forall hown) hexec
    · have hnone : pushes ms = [] :=
        List.filterMap_eq_nil_iff.2 fun l hl => by
          have := hown l hl
          cases l <;> first | rfl | cases this
      have hall := (functors_in_order hb hexec).2
      rw [hnone, List.append_nil, ← hrun, all, hinv.2, List.append_assoc] at hall
      obtain ⟨-, hnil⟩ := List.append_eq_nil_iff.1 (List.append_right_eq_self.1 hall)
      exact hne hnil
    · obtain ⟨hu', hq⟩ := stuck_after hu.1 hen hl
      exact ⟨hu', hq.trans hu.2⟩

/-- A functor that is queued after the last `swap`, and one before it. -/
theorem drains_iff_late :
    (∃ s : EventLoop Unit ℕ, s.phase = .functors ∧ s.quit_ = true ∧ ∀ n, ¬ s.Drains n) ∧
    ∃ s : EventLoop Unit ℕ, s.phase = .functors ∧ s.quit_ = false ∧ s.Drains 8 := by
  have h : (Lts.exec step init (batchRun ++ [.loopQuit])).isSome := rfl
  have h' : (Lts.exec step init batchRun).isSome := rfl
  refine ⟨⟨(Lts.exec step init _).get h, rfl, rfl, fun n hn => ?_⟩,
    ⟨(Lts.exec step init _).get h', rfl, rfl, (drains_iff (Option.some_get h').symm).1 ?_⟩⟩
  · rcases (drains_iff (Option.some_get h).symm).2 n hn with hnil | ⟨-, hq | ⟨-, hp⟩⟩
    · cases hnil
    · cases hq
    · exact hp rfl
  · exact Or.inr ⟨show Phase.functors ≠ .returned by decide, Or.inl rfl⟩

end EventLoop

end Muduo
