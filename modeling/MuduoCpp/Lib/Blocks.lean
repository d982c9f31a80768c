import Mathlib.Logic.Function.Basic
import Mathlib.Data.List.Basic

/-!
# Blocks of memory and their owners

A store gives every address a block; `next` is the first address not in use.  Some objects own a
block each and may write to it (`own`), other blocks have been lent to somebody who only reads them
(`lent`).  `Separate` says that nobody writes where another one looks; it is kept when an object
gets a new block, lends its own away, or exchanges it with another object.  This file names nothing
of the program it is used for.
-/

namespace Blocks

variable {ι α : Type*} [DecidableEq ι]

/-- Distinct owners own distinct blocks, none of which is lent, and all blocks are in use. -/
structure Separate (own : ι → ℕ) (lent : List ℕ) (next : ℕ) : Prop where
  inj : Function.Injective own
  notLent : ∀ i, own i ∉ lent
  own_lt : ∀ i, own i < next
  lent_lt : ∀ p ∈ lent, p < next

namespace Separate

variable {own : ι → ℕ} {lent : List ℕ} {next : ℕ}

/-- The owner takes a new block and leaves its own. -/
theorem renew (h : Separate own lent next) (i : ι) :
    Separate (Function.update own i next) lent (next + 1) := by
  have hfresh : ∀ j, own j ≠ next := fun j => Nat.ne_of_lt (h.own_lt j)
  refine ⟨?_, ?_, ?_, fun p hp => Nat.lt_succ_of_lt (h.lent_lt p hp)⟩
  · intro j k hjk
    by_cases hj : j = i <;> by_cases hk : k = i
    · rw [hj, hk]
    · rw [hj, Function.update_self, Function.update_of_ne hk] at hjk
      exact absurd hjk.symm (hfresh k)
    · rw [hk, Function.update_self, Function.update_of_ne hj] at hjk
      exact absurd hjk (hfresh j)
    · rw [Function.update_of_ne hj, Function.update_of_ne hk] at hjk
      exact h.inj hjk
  · intro j hj
    by_cases hji : j = i
    · rw [hji, Function.update_self] at hj
      exact Nat.lt_irrefl _ (h.lent_lt _ hj)
    · rw [Function.update_of_ne hji] at hj
      exact h.notLent j hj
  · intro j
    by_cases hji : j = i
    · rw [hji, Function.update_self]
      exact Nat.lt_succ_self _
    · rw [Function.update_of_ne hji]
      exact Nat.lt_succ_of_lt (h.own_lt j)

/-- The owner takes a new block and lends its own away. -/
theorem give (h : Separate own lent next) (i : ι) :
    Separate (Function.update own i next) (lent ++ [own i]) (next + 1) := by
  obtain ⟨hinj, hlent, hlt, hlent_lt⟩ := h.renew i
  refine ⟨hinj, ?_, hlt, ?_⟩
  · intro j hj
    rcases List.mem_append.1 hj with hj | hj
    · exact hlent j hj
    · rw [List.mem_singleton] at hj
      by_cases hji : j = i
      · rw [hji, Function.update_self] at hj
        exact Nat.ne_of_lt (h.own_lt i) hj.symm
      · rw [Function.update_of_ne hji] at hj
        exact hji (h.inj hj)
  · intro p hp
    rcases List.mem_append.1 hp with hp | hp
    · exact hlent_lt p hp
    · rw [List.mem_singleton.1 hp]
      exact Nat.lt_succ_of_lt (h.own_lt i)

omit [DecidableEq ι] in
/-- A new block is lent. -/
theorem lend (h : Separate own lent next) : Separate own (lent ++ [next]) (next + 1) := by
  refine ⟨h.inj, ?_, fun i => Nat.lt_succ_of_lt (h.own_lt i), ?_⟩
  · intro i hi
    rcases List.mem_append.1 hi with hi | hi
    · exact h.notLent i hi
    · exact Nat.ne_of_lt (h.own_lt i) (List.mem_singleton.1 hi)
  · intro p hp
    rcases List.mem_append.1 hp with hp | hp
    · exact Nat.lt_succ_of_lt (h.lent_lt p hp)
    · rw [List.mem_singleton.1 hp]
      exact Nat.lt_succ_self _

omit [DecidableEq ι] in
/-- A lent block is not needed any more. -/
theorem drop {p : ℕ} (h : Separate own (p :: lent) next) : Separate own lent next :=
  ⟨h.inj, fun i hi => h.notLent i (List.mem_cons_of_mem _ hi), h.own_lt,
    fun q hq => h.lent_lt q (List.mem_cons_of_mem _ hq)⟩

omit [DecidableEq ι] in
/-- The owners exchange their blocks. -/
theorem permute (h : Separate own lent next) {f : ι → ι} (hf : Function.Injective f) :
    Separate (fun i => own (f i)) lent next :=
  ⟨fun _ _ hij => hf (h.inj hij), fun i => h.notLent (f i), fun i => h.own_lt (f i), h.lent_lt⟩

variable {heap : ℕ → α} {x : α}

omit [DecidableEq ι] in
/-- What an owner writes is not seen through a lent block. -/
theorem lent_of_write (h : Separate own lent next) (i : ι) {p : ℕ} (hp : p ∈ lent) :
    Function.update heap (own i) x p = heap p := by
  apply Function.update_of_ne
  rintro rfl
  exact h.notLent i hp

omit [DecidableEq ι] in
/-- Nor by another owner. -/
theorem own_of_write (h : Separate own lent next) {i j : ι} (hij : j ≠ i) :
    Function.update heap (own i) x (own j) = heap (own j) :=
  Function.update_of_ne (fun he => hij (h.inj he)) _ _

omit [DecidableEq ι] in
/-- A new block changes no block in use. -/
theorem lent_of_fresh (h : Separate own lent next) {p : ℕ} (hp : p ∈ lent) :
    Function.update heap next x p = heap p :=
  Function.update_of_ne (Nat.ne_of_lt (h.lent_lt p hp)) _ _

omit [DecidableEq ι] in
theorem own_of_fresh (h : Separate own lent next) (i : ι) :
    Function.update heap next x (own i) = heap (own i) :=
  Function.update_of_ne (Nat.ne_of_lt (h.own_lt i)) _ _

end Separate

end Blocks
