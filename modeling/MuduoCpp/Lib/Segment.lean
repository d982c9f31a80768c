import Mathlib.Data.List.TakeDrop

/-!
# Segments of an array, overwriting and forward copying

Arrays are lists.  `seg v i n` is the block of `n` cells from `i`, `blit v i xs` overwrites the
cells from `i` by `xs`, and `copyForward v src dst n` moves `n` cells one after the other in
ascending order within one array, as a forward copy loop does.  `copyForward_eq` is the only
fact about its result that its users need: when the destination does not lie after the source, the
loop moves the block as it was before the first write.  `copySteps` lists the cells its steps touch.
-/

namespace Segment

variable {α : Type*} {v w xs : List α} {i j n m : ℕ}

/-- The `n` cells from `i`. -/
def seg (v : List α) (i n : ℕ) : List α := (v.drop i).take n

/-- Overwrite the cells from `i` by `xs`. -/
def blit (v : List α) (i : ℕ) (xs : List α) : List α :=
  v.take i ++ xs ++ v.drop (i + xs.length)

/-- Copy `n` cells from `src` to `dst`, lowest index first. -/
def copyForward (v : List α) (src dst : ℕ) : ℕ → List α
  | 0 => v
  | n + 1 =>
      let v' := match v[src]? with
        | some x => v.set dst x
        | none => v
      copyForward v' (src + 1) (dst + 1) n

/-- The cells a forward copy reads and writes, in the order of its steps. -/
def copySteps (src dst : ℕ) : ℕ → List (ℕ × ℕ)
  | 0 => []
  | n + 1 => (src, dst) :: copySteps (src + 1) (dst + 1) n

/-- One step of a forward copy: `p.1` is read, `p.2` written. -/
def copyCell (v : List α) (p : ℕ × ℕ) : List α :=
  match v[p.1]? with
  | some x => v.set p.2 x
  | none => v

/-- Distribute `xs` over areas of the given sizes, one after the other. -/
def scatter : List ℕ → List α → List (List α)
  | [], _ => []
  | n :: ns, xs => xs.take n :: scatter ns (xs.drop n)

theorem length_seg (h : i + n ≤ v.length) : (seg v i n).length = n := by
  simp [seg]; omega

@[simp] theorem seg_zero : seg v i 0 = [] := by simp [seg]

theorem seg_add : seg v i (n + m) = seg v i n ++ seg v (i + n) m := by
  rw [seg, List.take_add, List.drop_drop, seg, seg]

theorem seg_take (h : n ≤ m) : (seg v i m).take n = seg v i n := by
  rw [seg, seg, List.take_take, Nat.min_eq_left h]

theorem seg_drop : (seg v i m).drop n = seg v (i + n) (m - n) := by
  rw [seg, seg, List.drop_take, List.drop_drop]

theorem seg_append_left (h : i + n ≤ v.length) : seg (v ++ w) i n = seg v i n := by
  rw [seg, seg, List.drop_append_of_le_length (by omega),
    List.take_append_of_le_length (by simp; omega)]

theorem seg_take_array (h : i + n ≤ m) : seg (v.take m) i n = seg v i n := by
  rw [seg, seg, List.drop_take, List.take_take, Nat.min_eq_left (by omega)]

theorem length_blit (h : i + xs.length ≤ v.length) : (blit v i xs).length = v.length := by
  simp [blit]; omega

theorem seg_blit_self (h : i ≤ v.length) : seg (blit v i xs) i xs.length = xs := by
  have hlen : (v.take i).length = i := by simp; omega
  rw [seg, blit, List.append_assoc, List.drop_append, hlen]
  simp

theorem seg_blit_before (h : j + n ≤ i) (hi : i ≤ v.length) :
    seg (blit v i xs) j n = seg v j n := by
  have hlen : (v.take i).length = i := by simp; omega
  rw [blit, List.append_assoc, seg_append_left (by omega), seg_take_array h]

/-- What stands before the overwritten block followed by the block. -/
theorem seg_blit_append (hj : j + n = i) (hi : i ≤ v.length) :
    seg (blit v i xs) j (n + xs.length) = seg v j n ++ xs := by
  rw [seg_add, seg_blit_before (by omega) hi, hj, seg_blit_self hi]

theorem blit_nil : blit v i [] = v := by simp [blit]

theorem blit_cons {x : α} (h : i < v.length) :
    blit v i (x :: xs) = blit (v.set i x) (i + 1) xs := by
  have hlen : (v.take i).length = i := by simp; omega
  have htake : (v.set i x).take (i + 1) = v.take i ++ [x] := by
    rw [List.set_eq_take_append_cons_drop, if_pos h, List.take_append, hlen]
    simp [List.take_take]
  rw [blit, blit, htake, List.drop_set_of_lt (by omega), List.length_cons,
    Nat.add_right_comm i 1, Nat.add_assoc i]
  simp

/-- **The forward copy loop moves the block**, also when the two ranges overlap, as long as the
destination does not start after the source. -/
theorem copyForward_eq {src dst : ℕ} (hle : dst ≤ src) (h : src + n ≤ v.length) :
    copyForward v src dst n = blit v dst (seg v src n) := by
  induction n generalizing v src dst with
  | zero => simp [copyForward, blit_nil]
  | succ n ih =>
    have hsrc : src < v.length := by omega
    have hseg : seg v src (n + 1) = v[src] :: seg v (src + 1) n := by
      rw [seg, List.drop_eq_getElem_cons hsrc, List.take_succ_cons, seg]
    -- the cell written now lies before every cell still to be read
    have hkeep : seg (v.set dst v[src]) (src + 1) n = seg v (src + 1) n := by
      rw [seg, seg, List.drop_set_of_lt (by omega)]
    simp only [copyForward, List.getElem?_eq_getElem hsrc]
    rw [ih (by omega) (by simp; omega), hkeep, hseg, blit_cons (by omega)]

/-! ### The steps of the loop -/

variable {src dst : ℕ}

theorem copyForward_eq_foldl :
    copyForward v src dst n = (copySteps src dst n).foldl copyCell v := by
  induction n generalizing v src dst with
  | zero => rfl
  | succ n ih => exact ih

theorem mem_copySteps {p : ℕ × ℕ} :
    p ∈ copySteps src dst n ↔ ∃ k < n, p = (src + k, dst + k) := by
  induction n generalizing src dst with
  | zero => simp [copySteps]
  | succ n ih =>
    rw [copySteps, List.mem_cons, ih]
    constructor
    · rintro (rfl | ⟨k, hk, rfl⟩)
      · exact ⟨0, by omega, rfl⟩
      · exact ⟨k + 1, by omega, by simp only [Nat.add_assoc, Nat.add_comm 1 k]⟩
    · rintro ⟨k, hk, rfl⟩
      cases k with
      | zero => exact Or.inl rfl
      | succ k => exact Or.inr ⟨k, by omega, by simp only [Nat.add_assoc, Nat.add_comm 1 k]⟩

end Segment
