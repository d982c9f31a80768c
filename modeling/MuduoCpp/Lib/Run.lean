import Mathlib.Data.List.Basic

/-!
# Runs of a labelled machine

A machine is a partial step function `step : σ → α → Option σ`: a label carries every choice
that is not the machine's own (which thread moves, what the environment answers), and a label
that is not enabled has no successor.  This file names nothing of the program it is used for.

* `exec step s ls` is the state after the labels `ls`;
* `Along step P s ls` says that every step of the run from `s` meets the condition `P` on its
  source state and label;
* `exec_inv` is the invariant rule: an invariant kept by every step that meets `P` holds at the
  end of every run along `P`;
* `exec_simulates` turns a run into a run of the machine that its steps are made of; `exec_map` is
  about a machine whose states are images of those of another one;
* `entries step p s ls` are the states by which a run enters a set of states;
* `trail step f s ls` is what the steps of a run leave behind, `f s a` each; `exec_inv_trail` is the
  invariant rule for invariants that speak of it, `exec_matched` the simulation rule;
* `Attains step own Q n s` says that some run from `s` of at most `n` steps, all of them `own`, ends
  in `Q`;
* `guarded enabled after` is the machine given by a guard and an effect for each label.
-/

namespace Lts

variable {σ α : Type*}

/-- The state after the labels `ls`; `none` once a label is not enabled. -/
def exec (step : σ → α → Option σ) : σ → List α → Option σ
  | s, [] => some s
  | s, a :: ls => (step s a).bind fun t => exec step t ls

/-- Every step of the run from `s` on `ls` meets `P`. -/
def Along (step : σ → α → Option σ) (P : σ → α → Prop) : σ → List α → Prop
  | _, [] => True
  | s, a :: ls => P s a ∧ ∀ t, step s a = some t → Along step P t ls

variable {step : σ → α → Option σ} {P Q : σ → α → Prop} {s t u : σ} {a : α} {ls ms : List α}

@[simp] theorem exec_nil : exec step s [] = some s := rfl

theorem exec_cons : exec step s (a :: ls) = (step s a).bind fun t => exec step t ls := rfl

theorem exec_cons_iff :
    exec step s (a :: ls) = some u ↔ ∃ t, step s a = some t ∧ exec step t ls = some u := by
  rw [exec_cons, Option.bind_eq_some_iff]

theorem exec_append :
    exec step s (ls ++ ms) = (exec step s ls).bind fun t => exec step t ms := by
  induction ls generalizing s with
  | nil => rfl
  | cons a ls ih =>
    rw [List.cons_append, exec_cons, exec_cons, Option.bind_assoc]
    congr 1
    funext t
    exact ih

theorem exec_append_iff :
    exec step s (ls ++ ms) = some u ↔ ∃ t, exec step s ls = some t ∧ exec step t ms = some u := by
  rw [exec_append, Option.bind_eq_some_iff]

/-- A run on concrete labels that ends in a state with a property that can be computed. -/
theorem exec_of_any {p : σ → Bool} (h : (exec step s ls).any p = true) :
    ∃ t, exec step s ls = some t ∧ p t = true := by
  cases ht : exec step s ls with
  | none =>
    rw [ht] at h
    cases h
  | some t => exact ⟨t, rfl, by simpa [ht] using h⟩

@[simp] theorem along_nil : Along step P s [] := trivial

theorem along_cons :
    Along step P s (a :: ls) ↔ P s a ∧ ∀ t, step s a = some t → Along step P t ls := Iff.rfl

/-- A side condition that can be decided at each step can be decided along a run. -/
instance decidableAlong [∀ s, DecidablePred (P s)] : ∀ s ls, Decidable (Along step P s ls)
  | _, [] => isTrue trivial
  | s, a :: ls =>
      match h : step s a with
      | none => decidable_of_iff (P s a) (by simp [along_cons, h])
      | some t =>
          have := decidableAlong t ls
          decidable_of_iff (P s a ∧ Along step P t ls) (by simp [along_cons, h])

theorem Along.mono (h : Along step P s ls) (hPQ : ∀ s a, P s a → Q s a) : Along step Q s ls := by
  induction ls generalizing s with
  | nil => trivial
  | cons a ls ih => exact ⟨hPQ _ _ h.1, fun t ht => ih (h.2 t ht)⟩

theorem Along.and (h : Along step P s ls) (h' : Along step Q s ls) :
    Along step (fun s a => P s a ∧ Q s a) s ls := by
  induction ls generalizing s with
  | nil => trivial
  | cons a ls ih => exact ⟨⟨h.1, h'.1⟩, fun t ht => ih (h.2 t ht) (h'.2 t ht)⟩

theorem along_append :
    Along step P s (ls ++ ms) ↔
      Along step P s ls ∧ ∀ t, exec step s ls = some t → Along step P t ms := by
  induction ls generalizing s with
  | nil => simp
  | cons a ls ih =>
    simp only [List.cons_append, along_cons, ih, exec_cons_iff]
    constructor
    · rintro ⟨hP, h⟩
      exact ⟨⟨hP, fun t ht => (h t ht).1⟩, fun u ⟨t, ht, hu⟩ => (h t ht).2 u hu⟩
    · rintro ⟨⟨hP, h⟩, h'⟩
      exact ⟨hP, fun t ht => ⟨h t ht, fun u hu => h' u ⟨t, ht, hu⟩⟩⟩

/-- A condition on the labels alone holds along every run over such labels. -/
theorem along_of_forall {p : α → Prop} (h : ∀ a ∈ ls, p a) : Along step (fun _ a => p a) s ls := by
  induction ls generalizing s with
  | nil => trivial
  | cons a ls ih =>
    exact ⟨h a List.mem_cons_self, fun t _ => ih fun b hb => h b (List.mem_cons_of_mem _ hb)⟩

/-- The invariant rule. -/
theorem exec_inv {I : σ → Prop} (hstep : ∀ s a t, I s → P s a → step s a = some t → I t)
    (hI : I s) (hP : Along step P s ls) (h : exec step s ls = some t) : I t := by
  induction ls generalizing s with
  | nil => cases h; exact hI
  | cons a ls ih =>
    obtain ⟨u, hu, hut⟩ := exec_cons_iff.1 h
    exact ih (hstep _ _ _ hI hP.1 hu) (hP.2 _ hu) hut

/-- The invariant rule for runs without a side condition. -/
theorem exec_inv' {I : σ → Prop} (hstep : ∀ s a t, I s → step s a = some t → I t)
    (hI : I s) (h : exec step s ls = some t) : I t :=
  exec_inv (P := fun _ _ => True) (fun s a t hI _ => hstep s a t hI) hI
    (along_of_forall fun _ _ => trivial) h

/-- A condition holds along a run that ends outside a trap, if a step that breaks it leads into the
trap. -/
theorem along_of_not_trapped {I J : σ → Prop} {P : σ → α → Prop}
    (hI : ∀ s a t, I s → step s a = some t → I t)
    (hJ : ∀ s a t, I s → J s → step s a = some t → J t)
    (hbad : ∀ s a t, I s → ¬ P s a → step s a = some t → J t) (hs : I s)
    (h : exec step s ls = some u) (hu : ¬ J u) : Along step P s ls := by
  induction ls generalizing s with
  | nil => trivial
  | cons a ls ih =>
    obtain ⟨t, ht, htu⟩ := exec_cons_iff.1 h
    constructor
    · by_contra hP
      have hIJ : I u ∧ J u := exec_inv' (I := fun s => I s ∧ J s)
        (fun s a t hIJ hst => ⟨hI s a t hIJ.1 hst, hJ s a t hIJ.1 hIJ.2 hst⟩)
        ⟨hI _ _ _ hs ht, hbad _ _ _ hs hP ht⟩ htu
      exact hu hIJ.2
    · intro t' ht'
      obtain rfl : t = t' := Option.some.inj (ht.symm.trans ht')
      exact ih (hI _ _ _ hs ht) htu

/-- Two conditions on steps that agree where an invariant holds agree along every run, if the steps
that meet them keep it. -/
theorem along_iff {I : σ → Prop} (hstep : ∀ s a t, I s → Q s a → step s a = some t → I t)
    (hiff : ∀ s a, I s → (P s a ↔ Q s a)) (hI : I s) : Along step P s ls ↔ Along step Q s ls := by
  induction ls generalizing s with
  | nil => exact Iff.rfl
  | cons a ls ih =>
    rw [along_cons, along_cons, hiff s a hI]
    exact and_congr_right fun hQ => forall₂_congr fun t ht => ih (hstep s a t hI hQ ht)

/-- A machine whose steps are runs of another one has runs of that one only. -/
theorem exec_simulates {σ' α' : Type*} {step' : σ' → α' → Option σ'} {f : σ → σ'}
    (hstep : ∀ s a t, step s a = some t → ∃ ms, exec step' (f s) ms = some (f t))
    (h : exec step s ls = some t) : ∃ ms, exec step' (f s) ms = some (f t) := by
  induction ls generalizing s with
  | nil =>
    cases h
    exact ⟨[], rfl⟩
  | cons a ls ih =>
    obtain ⟨u, hu, hut⟩ := exec_cons_iff.1 h
    obtain ⟨ms, hms⟩ := hstep _ _ _ hu
    obtain ⟨ms', hms'⟩ := ih hut
    exact ⟨ms ++ ms', exec_append_iff.2 ⟨f u, hms, hms'⟩⟩

/-! ### The image of a machine -/

section Image

variable {σ' : Type*} {step' : σ' → α → Option σ'} {f : σ → σ'}

/-- A machine that takes the steps of another one on the images of its states has the images of its
runs. -/
theorem exec_map (hstep : ∀ s a, step' (f s) a = (step s a).map f) :
    exec step' (f s) ls = (exec step s ls).map f := by
  induction ls generalizing s with
  | nil => rfl
  | cons a ls ih =>
    rw [exec_cons, exec_cons, hstep, Option.bind_map, Option.map_bind]
    congr 1
    funext t
    exact ih

theorem along_map (hstep : ∀ s a, step' (f s) a = (step s a).map f) {P' : σ' → α → Prop} :
    Along step' P' (f s) ls ↔ Along step (fun s a => P' (f s) a) s ls := by
  induction ls generalizing s with
  | nil => exact Iff.rfl
  | cons a ls ih =>
    rw [along_cons, along_cons, hstep]
    refine and_congr_right fun _ =>
      ⟨fun h t ht => ih.1 (h (f t) (by rw [ht]; rfl)), fun h t ht => ?_⟩
    obtain ⟨u, hu, rfl⟩ := Option.map_eq_some_iff.1 ht
    exact ih.2 (h u hu)

end Image

/-! ### Entering a set of states -/

section Entries

variable {p : σ → Prop} [DecidablePred p]

/-- The states by which the run from `s` on `ls` enters `p`: they meet `p`, the ones before them do
not. -/
def entries (step : σ → α → Option σ) (p : σ → Prop) [DecidablePred p] : σ → List α → List σ
  | _, [] => []
  | s, a :: ls => (step s a).elim [] fun t =>
      (if ¬p s ∧ p t then [t] else []) ++ entries step p t ls

theorem entries_cons (h : step s a = some t) :
    entries step p s (a :: ls) = (if ¬p s ∧ p t then [t] else []) ++ entries step p t ls := by
  rw [entries, h, Option.elim_some]

/-- A run that leads into `p` enters it. -/
theorem entries_ne_nil (h : exec step s ls = some t) (hs : ¬p s) (ht : p t) :
    entries step p s ls ≠ [] := by
  induction ls generalizing s with
  | nil =>
    cases h
    exact absurd ht hs
  | cons a ls ih =>
    obtain ⟨u, hu, hut⟩ := exec_cons_iff.1 h
    rw [entries_cons hu]
    by_cases hpu : p u
    · simp [hs, hpu]
    · simp [hpu, ih hut hpu]

/-- A record that grows by an item at each entry holds the items of the entries. -/
theorem exec_record {γ : Type*} {I : σ → Prop} {f : σ → List γ} {g : σ → γ}
    (hstep : ∀ s a t, I s → step s a = some t →
      I t ∧ f t = f s ++ if ¬p s ∧ p t then [g t] else [])
    (hI : I s) (h : exec step s ls = some t) : f t = f s ++ (entries step p s ls).map g := by
  induction ls generalizing s with
  | nil =>
    cases h
    exact (List.append_nil _).symm
  | cons a ls ih =>
    obtain ⟨u, hu, hut⟩ := exec_cons_iff.1 h
    obtain ⟨hIu, hfu⟩ := hstep _ _ _ hI hu
    rw [ih hIu hut, hfu, entries_cons hu, List.map_append, List.append_assoc]
    congr 2
    split_ifs <;> rfl

end Entries

/-! ### What a run leaves behind -/

section Trail

variable {γ : Type*} {f : σ → α → List γ} {r : List γ}

/-- What the steps of the run from `s` on `ls` leave behind, in their order. -/
def trail (step : σ → α → Option σ) (f : σ → α → List γ) : σ → List α → List γ
  | _, [] => []
  | s, a :: ls => (step s a).elim [] fun t => f s a ++ trail step f t ls

theorem trail_cons (h : step s a = some t) :
    trail step f s (a :: ls) = f s a ++ trail step f t ls := by
  rw [trail, h, Option.elim_some]

/-- The invariant rule for an invariant of the state and of what the run has left behind. -/
theorem exec_inv_trail {I : σ → List γ → Prop}
    (hstep : ∀ s r a t, I s r → P s a → step s a = some t → I t (r ++ f s a)) (hI : I s r)
    (hP : Along step P s ls) (h : exec step s ls = some t) : I t (r ++ trail step f s ls) := by
  induction ls generalizing s r with
  | nil =>
    cases h
    rwa [trail, List.append_nil]
  | cons a ls ih =>
    obtain ⟨u, hu, hut⟩ := exec_cons_iff.1 h
    rw [trail_cons hu, ← List.append_assoc]
    exact ih (hstep _ _ _ _ hI hP.1 hu) (hP.2 _ hu) hut

theorem trail_append (h : exec step s ls = some t) :
    trail step f s (ls ++ ms) = trail step f s ls ++ trail step f t ms := by
  induction ls generalizing s with
  | nil =>
    cases h
    rfl
  | cons a ls ih =>
    obtain ⟨u, hu, hut⟩ := exec_cons_iff.1 h
    rw [List.cons_append, trail_cons hu, trail_cons hu, ih hut, List.append_assoc]

/-- Some run from `s` to `t` leaves `r` behind. -/
def Shows (step : σ → α → Option σ) (f : σ → α → List γ) (s t : σ) (r : List γ) : Prop :=
  ∃ ls, exec step s ls = some t ∧ trail step f s ls = r

theorem shows_refl : Shows step f s s [] := ⟨[], rfl, rfl⟩

theorem Shows.cons (h : Shows step f t u r) (ht : step s a = some t) :
    Shows step f s u (f s a ++ r) := by
  obtain ⟨ls, hls, rfl⟩ := h
  exact ⟨a :: ls, exec_cons_iff.2 ⟨t, ht, hls⟩, trail_cons ht⟩

theorem Shows.trans {r' : List γ} (h : Shows step f s t r) (h' : Shows step f t u r') :
    Shows step f s u (r ++ r') := by
  obtain ⟨ls, hls, rfl⟩ := h
  obtain ⟨ms, hms, rfl⟩ := h'
  exact ⟨ls ++ ms, exec_append_iff.2 ⟨t, hls, hms⟩, trail_append hls⟩

/-- The simulation rule: if each step is matched by a run of another machine that leaves the same
behind, then so is each run. -/
theorem exec_matched {σ' α' : Type*} {step' : σ' → α' → Option σ'} {f' : σ' → α' → List γ}
    {R : σ → σ' → Prop} {s' : σ'}
    (hstep : ∀ s s' a t, R s s' → P s a → step s a = some t →
      ∃ t', R t t' ∧ Shows step' f' s' t' (f s a))
    (hR : R s s') (hP : Along step P s ls) (h : exec step s ls = some t) :
    ∃ t', R t t' ∧ Shows step' f' s' t' (trail step f s ls) := by
  induction ls generalizing s s' with
  | nil =>
    cases h
    exact ⟨s', hR, shows_refl⟩
  | cons a ls ih =>
    obtain ⟨u, hu, hut⟩ := exec_cons_iff.1 h
    obtain ⟨u', hRu, hshows⟩ := hstep _ _ _ _ hR hP.1 hu
    obtain ⟨t', hRt, hshows'⟩ := ih hRu (hP.2 _ hu) hut
    exact ⟨t', hRt, trail_cons (f := f) hu ▸ hshows.trans hshows'⟩

end Trail

/-! ### What some of the steps can attain -/

section Attain

variable {own : α → Prop} {Q R : σ → Prop} {n m : ℕ}

/-- Some run from `s` of at most `n` steps, all of them `own`, ends in `Q`. -/
def Attains (step : σ → α → Option σ) (own : α → Prop) (Q : σ → Prop) (n : ℕ) (s : σ) : Prop :=
  ∃ ls t, exec step s ls = some t ∧ (∀ l ∈ ls, own l) ∧ ls.length ≤ n ∧ Q t

theorem attains_of (h : Q s) : Attains step own Q n s :=
  ⟨[], s, rfl, fun _ hl => absurd hl List.not_mem_nil, Nat.zero_le n, h⟩

theorem attains_step (h : step s a = some t) (ha : own a) (ht : Attains step own Q n t) :
    Attains step own Q (n + 1) s := by
  obtain ⟨ls, u, hexec, hown, hlen, hu⟩ := ht
  refine ⟨a :: ls, u, exec_cons_iff.2 ⟨t, h, hexec⟩, ?_, Nat.succ_le_succ hlen, hu⟩
  rintro l (_ | ⟨_, hl⟩)
  · exact ha
  · exact hown l hl

theorem Attains.mono (h : Attains step own Q n s) (hnm : n ≤ m) : Attains step own Q m s := by
  obtain ⟨ls, t, hexec, hown, hlen, ht⟩ := h
  exact ⟨ls, t, hexec, hown, Nat.le_trans hlen hnm, ht⟩

theorem Attains.trans (h : Attains step own Q n s) (hQ : ∀ t, Q t → Attains step own R m t) :
    Attains step own R (n + m) s := by
  obtain ⟨ls, t, hexec, hown, hlen, ht⟩ := h
  obtain ⟨ms, u, hexec', hown', hlen', hu⟩ := hQ t ht
  refine ⟨ls ++ ms, u, exec_append_iff.2 ⟨t, hexec, hexec'⟩, fun l hl => ?_, ?_, hu⟩
  · exact (List.mem_append.1 hl).elim (hown l) (hown' l)
  · rw [List.length_append]
    exact Nat.add_le_add hlen hlen'

/-- What the steps cannot leave. -/
theorem not_attains {I : σ → Prop} (hstep : ∀ s a t, I s → own a → step s a = some t → I t)
    (hQ : ∀ s, I s → ¬ Q s) (hI : I s) : ¬ Attains step own Q n s := by
  rintro ⟨ls, t, hexec, hown, -, ht⟩
  exact hQ t (exec_inv (P := fun _ a => own a) hstep hI (along_of_forall hown) hexec) ht

end Attain

/-! ### Guarded machines -/

section Guarded

variable {enabled : σ → α → Prop} [∀ s, DecidablePred (enabled s)] {after : σ → α → σ}

/-- The machine that takes a label when its guard holds. -/
def guarded (enabled : σ → α → Prop) [∀ s, DecidablePred (enabled s)] (after : σ → α → σ)
    (s : σ) (a : α) : Option σ :=
  if enabled s a then some (after s a) else none

theorem guarded_eq_some : guarded enabled after s a = some t ↔ enabled s a ∧ after s a = t := by
  simp [guarded]

/-- A run of a guarded machine, step by step. -/
theorem guarded_exec_cons : exec (guarded enabled after) s (a :: ls) = some u ↔
    enabled s a ∧ exec (guarded enabled after) (after s a) ls = some u := by
  rw [exec_cons_iff]
  constructor
  · rintro ⟨t, ht, htu⟩
    obtain ⟨hen, rfl⟩ := guarded_eq_some.1 ht
    exact ⟨hen, htu⟩
  · rintro ⟨hen, hu⟩
    exact ⟨after s a, guarded_eq_some.2 ⟨hen, rfl⟩, hu⟩

/-- The invariant rule of a guarded machine. -/
theorem guarded_inv {I : σ → Prop}
    (hafter : ∀ s a, I s → P s a → enabled s a → I (after s a)) (hI : I s)
    (hP : Along (guarded enabled after) P s ls)
    (h : exec (guarded enabled after) s ls = some t) : I t := by
  refine exec_inv (fun s a t hs hPa hst => ?_) hI hP h
  obtain ⟨hen, rfl⟩ := guarded_eq_some.1 hst
  exact hafter s a hs hPa hen

/-- The invariant rule of a guarded machine, for runs without a side condition. -/
theorem guarded_inv' {I : σ → Prop} (hafter : ∀ s a, I s → enabled s a → I (after s a)) (hI : I s)
    (h : exec (guarded enabled after) s ls = some t) : I t :=
  guarded_inv (P := fun _ _ => True) (fun s a hI _ hen => hafter s a hI hen) hI
    (along_of_forall fun _ _ => trivial) h

/-- Two conditions on steps that agree where an invariant holds agree along a run, if the steps that
meet them keep it. -/
theorem guarded_along_iff {I : σ → Prop} {A B : σ → α → Prop}
    (hafter : ∀ s a, I s → P s a → B s a → enabled s a → I (after s a))
    (hiff : ∀ s a, I s → P s a → enabled s a → (A s a ↔ B s a)) (hI : I s)
    (hP : Along (guarded enabled after) P s ls)
    (h : exec (guarded enabled after) s ls = some t) :
    Along (guarded enabled after) A s ls ↔ Along (guarded enabled after) B s ls := by
  induction ls generalizing s with
  | nil => exact Iff.rfl
  | cons a ls ih =>
    obtain ⟨u, hu, hut⟩ := exec_cons_iff.1 h
    obtain ⟨hen, rfl⟩ := guarded_eq_some.1 hu
    rw [along_cons, along_cons, hiff s a hI hP.1 hen]
    refine and_congr_right fun hB => forall₂_congr fun v hv => ?_
    obtain ⟨-, rfl⟩ := guarded_eq_some.1 hv
    exact ih (hafter s a hI hP.1 hB hen) (hP.2 _ hu) hut

/-- The same for runs without a further condition. -/
theorem guarded_along_iff' {I : σ → Prop} {A B : σ → α → Prop}
    (hafter : ∀ s a, I s → B s a → enabled s a → I (after s a))
    (hiff : ∀ s a, I s → enabled s a → (A s a ↔ B s a)) (hI : I s)
    (h : exec (guarded enabled after) s ls = some t) :
    Along (guarded enabled after) A s ls ↔ Along (guarded enabled after) B s ls :=
  guarded_along_iff (P := fun _ _ => True) (fun s a hI _ hB hen => hafter s a hI hB hen)
    (fun s a hI _ hen => hiff s a hI hen) hI (along_of_forall fun _ _ => trivial) h

end Guarded

end Lts
