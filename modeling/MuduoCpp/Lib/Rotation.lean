import Mathlib.Tactic

/-!
# A queue that is served in batches

A scan of a queue goes from its head on, drops what is not kept, collects at most `n` of the others
and stops when it has them; the collected ones go to the end of the queue.

* `scan_split`: an element that is kept is collected, or the batch is full and as many elements less
  are before it;
* `Within x p l`: at most `p` elements are before `x` in `l`.
-/

namespace Rotation

variable {α : Type*} {keep : α → Bool} {n p q : ℕ} {l m : List α} {x : α}

/-- What is collected, and what of the queue is left. -/
def scan (keep : α → Bool) : ℕ → List α → List α × List α
  | _, [] => ([], [])
  | 0, a :: l => ([], a :: l)
  | n + 1, a :: l =>
      if keep a then (a :: (scan keep n l).1, (scan keep n l).2) else scan keep (n + 1) l

theorem scan_of_keep {a : α} (h : keep a = true) :
    scan keep (n + 1) (a :: l) = (a :: (scan keep n l).1, (scan keep n l).2) := by
  rw [scan, if_pos h]

theorem scan_of_drop {a : α} (h : ¬ keep a = true) :
    scan keep (n + 1) (a :: l) = scan keep (n + 1) l := by
  rw [scan, if_neg h]

theorem length_scan : (scan keep n l).1.length ≤ n := by
  induction l generalizing n with
  | nil => exact Nat.zero_le n
  | cons a l ih =>
    cases n with
    | zero => exact le_rfl
    | succ n =>
      by_cases ha : keep a = true
      · rw [scan_of_keep ha, List.length_cons]
        exact Nat.succ_le_succ ih
      · rw [scan_of_drop ha]
        exact ih

/-- Nothing is moved by the scan itself. -/
theorem scan_sublist : List.Sublist ((scan keep n l).1 ++ (scan keep n l).2) l := by
  induction l generalizing n with
  | nil => exact List.Sublist.refl _
  | cons a l ih =>
    cases n with
    | zero => exact List.Sublist.refl _
    | succ n =>
      by_cases ha : keep a = true
      · rw [scan_of_keep ha]
        exact ih.cons_cons a
      · rw [scan_of_drop ha]
        exact ih.cons a

theorem keep_of_mem_scan (h : x ∈ (scan keep n l).1) : keep x = true := by
  induction l generalizing n with
  | nil => cases h
  | cons a l ih =>
    cases n with
    | zero => cases h
    | succ n =>
      by_cases ha : keep a = true
      · rw [scan_of_keep ha] at h
        rcases List.mem_cons.1 h with rfl | h
        · exact ha
        · exact ih h
      · rw [scan_of_drop ha] at h
        exact ih h

/-- The collected ones are put at the end. -/
def turn (keep : α → Bool) (n : ℕ) (l : List α) : List α := (scan keep n l).2 ++ (scan keep n l).1

theorem turn_subperm : (turn keep n l).Subperm l :=
  List.perm_append_comm.subperm.trans scan_sublist.subperm

theorem nodup_turn (h : l.Nodup) : (turn keep n l).Nodup :=
  List.nodup_append_comm.1 (h.sublist scan_sublist)

theorem mem_of_mem_turn (h : x ∈ turn keep n l) : x ∈ l := turn_subperm.subset h

/-! ### The place of an element -/

/-- At most `p` elements are before `x`. -/
def Within (x : α) (p : ℕ) (l : List α) : Prop :=
  ∃ before after, l = before ++ x :: after ∧ before.length ≤ p

theorem Within.mem (h : Within x p l) : x ∈ l := by
  obtain ⟨before, after, rfl, -⟩ := h
  exact List.mem_append_right _ List.mem_cons_self

theorem Within.append (h : Within x p l) (m : List α) : Within x p (l ++ m) := by
  obtain ⟨before, after, rfl, hp⟩ := h
  exact ⟨before, after ++ m, by simp, hp⟩

theorem Within.filter {r : α → Bool} (h : Within x p l) (hx : r x = true) :
    Within x p (l.filter r) := by
  obtain ⟨before, after, rfl, hp⟩ := h
  refine ⟨before.filter r, after.filter r, ?_, (List.length_filter_le r before).trans hp⟩
  rw [List.filter_append, List.filter_cons_of_pos hx]

/-- An element that is kept is collected, or the batch is full without it. -/
theorem scan_split {before after : List α} (hx : keep x = true) (hl : l = before ++ x :: after) :
    x ∈ (scan keep n l).1 ∨ (scan keep n l).1.length = n ∧
      ∃ rest, (scan keep n l).2 = rest ++ x :: after ∧ rest.length + n ≤ before.length := by
  subst hl
  induction before generalizing n with
  | nil =>
    cases n with
    | zero => exact Or.inr ⟨rfl, [], rfl, le_rfl⟩
    | succ n =>
      rw [List.nil_append, scan_of_keep hx]
      exact Or.inl List.mem_cons_self
  | cons a before ih =>
    rw [List.cons_append]
    cases n with
    | zero => exact Or.inr ⟨rfl, a :: before, rfl, le_rfl⟩
    | succ n =>
      by_cases ha : keep a = true
      · rw [scan_of_keep ha]
        rcases ih (n := n) with h | ⟨hfull, rest, hrest, hlen⟩
        · exact Or.inl (List.mem_cons_of_mem a h)
        · exact Or.inr ⟨congrArg (· + 1) hfull, rest, hrest, Nat.succ_le_succ hlen⟩
      · rw [scan_of_drop ha]
        rcases ih (n := n + 1) with h | ⟨hfull, rest, hrest, hlen⟩
        · exact Or.inl h
        · exact Or.inr ⟨hfull, rest, hrest, hlen.trans (Nat.le_succ _)⟩

/-- A batch of `n` brings `x` forward by `n`, if it is not in the batch. -/
theorem Within.turn (h : Within x p l) (hx : keep x = true) :
    x ∈ (scan keep n l).1 ∨
      (scan keep n l).1.length = n ∧ n ≤ p ∧ Within x (p - n) (turn keep n l) := by
  obtain ⟨before, after, hl, hp⟩ := h
  refine (scan_split (n := n) hx hl).imp_right ?_
  rintro ⟨hfull, rest, hrest, hlen⟩
  refine ⟨hfull, by omega, rest, after ++ (scan keep n l).1, ?_, by omega⟩
  rw [Rotation.turn, hrest, List.append_assoc, List.cons_append]

end Rotation
