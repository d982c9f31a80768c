import MuduoCpp.EventLoop

/-!
# `src/EventLoop.cc`: the eventfd

The counter of an eventfd does not go past `eventfdMax`.  The loops make theirs with `EFD_NONBLOCK`,
so a `write` that would take it further fails with `EAGAIN` and leaves it as it is, and so does a
`read` of a counter that is zero; `wakeup()` and `handleRead()` log that and go on.  In `EventLoop`
the counter has no bound.

* `afterFd`: the steps of a loop with the counter of the kernel;
* `eventfd_exact`: it has the runs of `EventLoop`, with the same queues, batches and phases; so no
  wakeup is lost when a write fails.
-/

namespace Muduo

/-- The maximum of the counter: `0xfffffffffffffffe`. -/
def eventfdMax : ℕ := 18446744073709551614

/-- `write` of the value 1. -/
def eventfdWrite (count : ℕ) : ℕ := if count < eventfdMax then count + 1 else count

/-- At the maximum the write fails. -/
example : eventfdWrite eventfdMax = eventfdMax := by decide

namespace EventLoop

variable {T F : Type}

/-- What the eventfd holds. -/
def saturated (s : EventLoop T F) : EventLoop T F :=
  { s with wakeupFd_ := min s.wakeupFd_ eventfdMax }

theorem eventfdWrite_min (n : ℕ) : eventfdWrite (min n eventfdMax) = min (n + 1) eventfdMax := by
  unfold eventfdWrite
  split_ifs with h
  · omega
  · omega

variable [DecidableEq T]

/-- The steps of `EventLoop.after`, with the counter of the kernel. -/
def afterFd (s : EventLoop T F) : Label T F → EventLoop T F
  | .loopWakeup =>
      { s with
        wakeupFd_ := if s.callingPendingFunctors_ then eventfdWrite s.wakeupFd_ else s.wakeupFd_
        loopPushed := false }
  | .wakeup t =>
      { s with wakeupFd_ := eventfdWrite s.wakeupFd_, pc := Function.update s.pc t .idle }
  | l => s.after l

/-- One step, with the counter of the eventfd. -/
def stepFd : EventLoop T F → Label T F → Option (EventLoop T F) := Lts.guarded enabled afterFd

omit [DecidableEq T] in
/-- No guard reads the counter. -/
theorem enabled_saturated {s : EventLoop T F} {l : Label T F} :
    s.saturated.enabled l ↔ s.enabled l := by
  cases l <;> exact Iff.rfl

theorem afterFd_saturated (s : EventLoop T F) (l : Label T F) :
    s.saturated.afterFd l = (s.after l).saturated := by
  cases l with
  | loopWakeup =>
    cases hc : s.callingPendingFunctors_ <;> simp [afterFd, after, saturated, hc, eventfdWrite_min]
  | wakeup t => simp [afterFd, after, saturated, eventfdWrite_min]
  -- a read leaves zero
  | handleRead => rfl
  | _ => rfl

theorem stepFd_saturated (s : EventLoop T F) (l : Label T F) :
    s.saturated.stepFd l = (s.step l).map saturated := by
  unfold stepFd step Lts.guarded
  by_cases h : s.enabled l
  · rw [if_pos h, if_pos (enabled_saturated.2 h), afterFd_saturated]
    rfl
  · rw [if_neg h, if_neg (mt enabled_saturated.1 h)]
    rfl

omit [DecidableEq T] in
/-- A loop that is about to block. -/
theorem WakeupInv.woken {s : EventLoop T F} (h : s.WakeupInv)
    (hp : s.phase = .ready ∨ s.phase = .poll)
    (hne : s.pendingFunctors_ ≠ []) : s.Woken := by
  have hdispatch : s.phase ≠ .dispatch := by rcases hp with hp | hp <;> simp [hp]
  have hswap : s.phase ≠ .swap := by rcases hp with hp | hp <;> simp [hp]
  rcases h.due hdispatch hswap hne with hw | ht | hl
  · exact Or.inl hw
  · exact Or.inr ht
  · rcases h.loopPushed hl with hd | hf
    · exact absurd hd hdispatch
    · rcases hp with hp | hp <;> simp [hp] at hf

omit [DecidableEq T] in
theorem woken_saturated {s : EventLoop T F} : s.saturated.Woken ↔ s.Woken := by
  have hzero : min s.wakeupFd_ eventfdMax ≠ 0 ↔ s.wakeupFd_ ≠ 0 := by
    rw [eventfdMax]
    omega
  exact or_congr hzero Iff.rfl

/-- **A failed write is harmless.**  The loop with the counter of the kernel has the same runs, and
where it is about to block with functors queued, its eventfd is readable or another thread is about
to write it. -/
theorem eventfd_exact (ls : List (Label T F)) :
    Lts.exec stepFd init ls = (Lts.exec step (init : EventLoop T F) ls).map saturated ∧
      ∀ s : EventLoop T F, Lts.exec stepFd init ls = some s →
        s.wakeupFd_ ≤ eventfdMax ∧
          (Lts.Along stepFd QueuesInside init ls → s.phase = .ready ∨ s.phase = .poll →
            s.pendingFunctors_ ≠ [] → s.Woken) := by
  have hinit : (init : EventLoop T F).saturated = init := rfl
  have hexec : Lts.exec stepFd init ls = (Lts.exec step (init : EventLoop T F) ls).map saturated :=
    hinit ▸ Lts.exec_map stepFd_saturated
  refine ⟨hexec, fun s hs => ?_⟩
  rw [hexec] at hs
  obtain ⟨u, hu, rfl⟩ := Option.map_eq_some_iff.1 hs
  refine ⟨Nat.min_le_right _ _, fun halong hp hne => ?_⟩
  rw [← hinit, Lts.along_map stepFd_saturated] at halong
  have hinv := Lts.guarded_inv (fun _ _ => wakeupInv_after) wakeupInv_init halong hu
  exact woken_saturated.2 (hinv.woken hp hne)

/-- Another thread wakes the loop before it polls. -/
private def wokenRun : List (Label Unit ℕ) := [.enter, .test, .push () 0, .wakeup (), .poll]

theorem eventfd_exact_woken :
    ∃ s : EventLoop Unit ℕ, Lts.exec stepFd init wokenRun = some s ∧
      s.pendingFunctors_ = [(some (), 0)] ∧
      s.wakeupFd_ ≤ eventfdMax ∧ s.Woken := by
  have h : (Lts.exec stepFd init wokenRun).isSome := rfl
  obtain ⟨hmax, hwoken⟩ := (eventfd_exact wokenRun).2 _ (Option.some_get h).symm
  exact ⟨_, (Option.some_get h).symm, rfl, hmax,
    hwoken (by decide +kernel) (Or.inr rfl) (List.cons_ne_nil _ _)⟩

end EventLoop

end Muduo
