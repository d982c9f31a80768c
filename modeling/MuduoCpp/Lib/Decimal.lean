import Mathlib.Data.List.Basic

/-!
# Decimal numerals in texts

Texts are lists of characters.  This file names nothing of the program it is used for.

* `Numeral ds`: `ds` is a number as it is printed, with no zero in front of other digits;
* `toDigits_of_numeral`: a numeral is what its value is printed as;
* `append_cons_inj_of_notMem_left`, `append_cons_inj_of_notMem_right`: a separator that does not
  occur on one side of itself.
-/

namespace Decimal

variable {ds cs : List Char} {c : Char} {n : ℕ}

/-- A number as it is printed. -/
structure Numeral (ds : List Char) : Prop where
  ne_nil : ds ≠ []
  isDigit : ∀ d ∈ ds, d.isDigit = true
  head : 1 < ds.length → ds.head? ≠ some '0'

/-- `Numeral` as a test. -/
def isNumeral (ds : List Char) : Bool :=
  !ds.isEmpty && ds.all Char.isDigit && (decide (ds.length ≤ 1) || ds.head? != some '0')

theorem isNumeral_iff : isNumeral ds = true ↔ Numeral ds := by
  constructor
  · intro h
    simp only [isNumeral, Bool.and_eq_true, Bool.or_eq_true, Bool.not_eq_true',
      List.isEmpty_eq_false_iff, List.all_eq_true, decide_eq_true_eq, bne_iff_ne] at h
    exact ⟨h.1.1, h.1.2, fun hlen => h.2.resolve_left (by omega)⟩
  · intro h
    simp only [isNumeral, Bool.and_eq_true, Bool.or_eq_true, Bool.not_eq_true',
      List.isEmpty_eq_false_iff, List.all_eq_true, decide_eq_true_eq, bne_iff_ne]
    exact ⟨⟨h.ne_nil, h.isDigit⟩, (Nat.lt_or_ge 1 ds.length).symm.imp_right h.head⟩

/-! ### Printing -/

/-- Only zero is printed with a zero in front. -/
theorem head_toDigits_ne (h : 0 < n) : (Nat.toDigits 10 n).head? ≠ some '0' := by
  induction n using Nat.base_induction 10 (by decide) with
  | single m hm =>
    rw [Nat.toDigits_of_lt_base hm]
    simpa using Nat.pos_iff_ne_zero.1 h
  | digit m k hk hm ih =>
    rw [← Nat.toDigits_append_toDigits (by decide) hm hk,
      List.head?_append_of_ne_nil _ Nat.toDigits_ne_nil]
    exact ih hm

theorem numeral_toDigits (n : ℕ) : Numeral (Nat.toDigits 10 n) := by
  refine ⟨Nat.toDigits_ne_nil, fun d hd => Nat.isDigit_of_mem_toDigits (by decide) (by decide) hd,
    fun hlen => head_toDigits_ne (Nat.pos_of_ne_zero ?_)⟩
  rintro rfl
  simp at hlen

theorem notMem_toDigits (h : c.isDigit = false) : c ∉ Nat.toDigits 10 n := by
  intro hc
  rw [(numeral_toDigits n).isDigit c hc] at h
  cases h

/-! ### Reading -/

theorem digitChar_of_isDigit (h : c.isDigit = true) :
    c.toNat - '0'.toNat < 10 ∧ Nat.digitChar (c.toNat - '0'.toNat) = c := by
  obtain ⟨hle, hge⟩ := Char.isDigit_iff_toNat.1 h
  have hlt : c.toNat - '0'.toNat < 10 := by
    have : '9'.toNat = '0'.toNat + 9 := rfl
    omega
  refine ⟨hlt, Char.toNat_inj.1 ?_⟩
  rw [Nat.toNat_digitChar_of_lt_ten hlt]
  exact Nat.add_sub_cancel' hle

/-- Digits behind a number that is not zero. -/
theorem toDigits_append (hn : 0 < n) (h : ∀ d ∈ cs, d.isDigit = true) :
    Nat.toDigits 10 n ++ cs = Nat.toDigits 10 (Nat.ofDigitChars 10 cs n) := by
  induction cs generalizing n with
  | nil => simp
  | cons d cs ih =>
    obtain ⟨hlt, hd⟩ := digitChar_of_isDigit (h d List.mem_cons_self)
    rw [Nat.ofDigitChars_cons, ← ih (by omega) fun d hd => h d (List.mem_cons_of_mem _ hd),
      ← Nat.toDigits_append_toDigits (by decide) hn hlt, Nat.toDigits_of_lt_base hlt, hd,
      List.append_assoc, List.singleton_append]

theorem toDigits_of_numeral (h : Numeral ds) : Nat.toDigits 10 (Nat.ofDigitChars 10 ds 0) = ds := by
  cases ds with
  | nil => exact absurd rfl h.ne_nil
  | cons d cs =>
    obtain ⟨hlt, hd⟩ := digitChar_of_isDigit (h.isDigit d List.mem_cons_self)
    rw [Nat.ofDigitChars_cons, Nat.mul_zero, Nat.zero_add]
    by_cases hzero : d.toNat - '0'.toNat = 0
    · -- the zero stands alone
      have hcs : cs = [] := by
        by_contra hne
        refine h.head ?_ ?_
        · simpa using List.length_pos_iff.2 hne
        · rw [hzero] at hd
          exact congrArg some hd.symm
      rw [hcs, Nat.ofDigitChars_nil, Nat.toDigits_of_lt_base hlt, hd]
    · rw [← toDigits_append (Nat.pos_of_ne_zero hzero)
        fun d hd => h.isDigit d (List.mem_cons_of_mem _ hd), Nat.toDigits_of_lt_base hlt, hd,
        List.singleton_append]

theorem toDigits_inj {m : ℕ} : Nat.toDigits 10 m = Nat.toDigits 10 n ↔ m = n := by
  refine ⟨fun h => ?_, fun h => h ▸ rfl⟩
  rw [← Nat.ofDigitChars_ten_toDigits (n := m), h, Nat.ofDigitChars_ten_toDigits]

/-! ### Separators -/

section Separators

variable {α : Type*} {a : α} {xs xs' ys ys' : List α}

/-- The first `a`. -/
theorem append_cons_inj_of_notMem_left (h : a ∉ xs) (h' : a ∉ xs') :
    xs ++ a :: ys = xs' ++ a :: ys' ↔ xs = xs' ∧ ys = ys' := by
  constructor
  · intro heq
    rcases List.append_eq_append_iff.1 heq with ⟨as, rfl, has⟩ | ⟨as, rfl, has⟩
    · cases as with
      | nil => simpa using has
      | cons b as =>
        rw [List.cons_append, List.cons.injEq] at has
        simp [← has.1] at h'
    · cases as with
      | nil => simpa [eq_comm] using has
      | cons b as =>
        rw [List.cons_append, List.cons.injEq] at has
        simp [← has.1] at h
  · rintro ⟨rfl, rfl⟩
    rfl

/-- The last `a`. -/
theorem append_cons_inj_of_notMem_right (h : a ∉ ys) (h' : a ∉ ys') :
    xs ++ a :: ys = xs' ++ a :: ys' ↔ xs = xs' ∧ ys = ys' := by
  have hrev : ys.reverse ++ a :: xs.reverse = ys'.reverse ++ a :: xs'.reverse ↔ _ :=
    append_cons_inj_of_notMem_left (mt List.mem_reverse.1 h) (mt List.mem_reverse.1 h')
  rw [List.reverse_inj, List.reverse_inj, and_comm, ← List.reverse_inj] at hrev
  simpa using hrev

end Separators

end Decimal
