import Mathlib.Algebra.BigOperators.Group.Finset.Basic
import Mathlib.Order.Iterate

/-!
# Walks of a cursor

A cursor goes through memory from place to place, each place saying where the next is. What holds at all places of a walk, or
is summed over them, is unfolded from the front (`forall_iterate`, `sum_iterate_succ`); where every step goes on by at least
`d`, the `k`-th place lies at least `k * d` on (`le_iterate`).
-/

namespace WlanDriver

variable {next : ℕ → ℕ} {d a : ℕ}

/-- What holds at all places holds here, and at all places from the next on. -/
theorem forall_iterate (next : ℕ → ℕ) (P : ℕ → Prop) (a : ℕ) :
    (∀ k, P (next^[k] a)) ↔ P a ∧ ∀ k, P (next^[k] (next a)) := by
  constructor
  · intro h
    refine ⟨h 0, fun k => ?_⟩
    have hk := h (k + 1)
    rwa [Function.iterate_succ_apply] at hk
  · rintro ⟨hzero, hsucc⟩ k
    cases k with
    | zero => exact hzero
    | succ k =>
      rw [Function.iterate_succ_apply]
      exact hsucc k

/-- A sum over places is what is here, and the sum from the next place on. -/
theorem sum_iterate_succ (next : ℕ → ℕ) (f : ℕ → ℕ) (a n : ℕ) :
    ∑ k ∈ Finset.range (n + 1), f (next^[k] a) = f a + ∑ k ∈ Finset.range n, f (next^[k] (next a)) := by
  rw [Finset.sum_range_succ', Function.iterate_zero_apply, Nat.add_comm]
  simp only [Function.iterate_succ_apply]

theorem le_iterate (h : ∀ x, x + d ≤ next x) (k : ℕ) : a + k * d ≤ next^[k] a := by
  induction k generalizing a with
  | zero => simp
  | succ k ih =>
    rw [Function.iterate_succ_apply, Nat.succ_mul]
    have hnext := h a
    have hrest := ih (a := next a)
    omega

end WlanDriver
