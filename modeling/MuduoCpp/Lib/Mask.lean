import Mathlib.Tactic

/-!
# Bit masks

Setting, clearing and testing the bits of a mask in a machine word.
-/

namespace Mask

variable {n : ℕ} {e r w : BitVec n}

/-- Some bit of `w` is set in `e`. -/
def has (e w : BitVec n) : Bool := e &&& w != 0

theorem and_eq_of_set : (e ||| w) &&& w = w := by
  ext i hi
  simp only [BitVec.getElem_and, BitVec.getElem_or]
  cases e[i] <;> cases w[i] <;> rfl

theorem and_eq_of_clear : e &&& ~~~w &&& w = 0 := by
  ext i hi
  simp only [BitVec.getElem_and, BitVec.getElem_not]
  cases e[i] <;> cases w[i] <;> simp

theorem bits_disjoint (h : r &&& w = 0) (i : ℕ) (hi : i < n) : (r[i] && w[i]) = false := by
  have := congrArg (fun x : BitVec n => x[i]) h
  simpa using this

theorem and_eq_of_set_disjoint (h : r &&& w = 0) : (e ||| r) &&& w = e &&& w := by
  ext i hi
  have := bits_disjoint h i hi
  simp only [BitVec.getElem_and, BitVec.getElem_or]
  revert this
  cases e[i] <;> cases r[i] <;> cases w[i] <;> simp

theorem and_eq_of_clear_disjoint (h : r &&& w = 0) : e &&& ~~~r &&& w = e &&& w := by
  ext i hi
  have := bits_disjoint h i hi
  simp only [BitVec.getElem_and, BitVec.getElem_not]
  revert this
  cases e[i] <;> cases r[i] <;> cases w[i] <;> simp

/-- A mask with a bit of `w` set is not zero. -/
theorem ne_zero_of_has (h : has e w = true) : e ≠ 0 := by
  rintro rfl
  simp [has] at h

theorem has_set (hw : w ≠ 0) : has (e ||| w) w = true := by
  simpa [has, and_eq_of_set] using hw

theorem has_clear : has (e &&& ~~~w) w = false := by
  simp [has, and_eq_of_clear]

theorem has_set_disjoint (h : r &&& w = 0) : has (e ||| r) w = has e w := by
  rw [has, and_eq_of_set_disjoint h, has]

theorem has_clear_disjoint (h : r &&& w = 0) : has (e &&& ~~~r) w = has e w := by
  rw [has, and_eq_of_clear_disjoint h, has]

@[simp] theorem has_zero : has 0 w = false := by simp [has]

end Mask
