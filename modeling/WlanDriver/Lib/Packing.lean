import Mathlib.Algebra.Order.Ring.Nat
import Mathlib.Data.Nat.ModEq
import Mathlib.Tactic.Common

/-!
# Packing at aligned offsets

Things with a length are put one behind the other, each at the next multiple of `a`. `packLen` is where the last one
ends; `AlignedAt` says of offsets that they are multiples, and that the things lie apart and before an end.
-/

namespace WlanDriver

open List

variable {α : Type*} {a n : ℕ} {len : α → ℕ} {l : List α} {ps : List (ℕ × α)} {x : α}

/-- The next multiple of `a`. -/
def padUp (a n : ℕ) : ℕ :=
  if n % a = 0 then n else n + (a - n % a)

theorem le_padUp (a n : ℕ) : n ≤ padUp a n := by
  unfold padUp
  split_ifs <;> omega

theorem dvd_padUp (ha : 0 < a) (n : ℕ) : a ∣ padUp a n := by
  unfold padUp
  split_ifs with h
  · exact Nat.dvd_of_mod_eq_zero h
  · have hle := (Nat.mod_lt n ha).le
    have hsplit : n + (a - n % a) = a * (n / a + 1) := by
      have hdiv := Nat.div_add_mod n a
      rw [Nat.mul_add]
      omega
    exact hsplit ▸ Nat.dvd_mul_right a _

variable (a len) in
/-- Where the things end. -/
def packLen (l : List α) : ℕ :=
  l.foldl (fun n x => padUp a n + len x) 0

theorem packLen_snoc (l : List α) (x : α) : packLen a len (l ++ [x]) = padUp a (packLen a len l) + len x := by
  unfold packLen
  rw [foldl_append]
  rfl

@[simp] theorem packLen_singleton : packLen a len [x] = len x := by
  simp [packLen, padUp]

theorem packLen_le_append (l l' : List α) : packLen a len l ≤ packLen a len (l ++ l') := by
  induction l' generalizing l with
  | nil => rw [append_nil]
  | cons x l' ih =>
    have hle := le_padUp a (packLen a len l)
    have hsnoc : packLen a len (l ++ [x]) = _ := packLen_snoc l x
    have := ih (l ++ [x])
    rw [append_assoc, singleton_append] at this
    omega

/-- Things at offsets, before `n`. -/
structure AlignedAt (a : ℕ) (len : α → ℕ) (n : ℕ) (ps : List (ℕ × α)) : Prop where
  aligned : ∀ p ∈ ps, a ∣ p.1
  inside : ∀ p ∈ ps, p.1 + len p.2 ≤ n
  apart : ps.Pairwise fun p q => p.1 + len p.2 ≤ q.1

theorem AlignedAt.nil : AlignedAt a len n [] :=
  ⟨by simp, by simp, .nil⟩

/-- One more thing is put behind the others. -/
theorem AlignedAt.snoc (h : AlignedAt a len n ps) (ha : 0 < a) (x : α) :
    AlignedAt a len (padUp a n + len x) (ps ++ [(padUp a n, x)]) := by
  have hle := le_padUp a n
  refine ⟨fun p hp => ?_, fun p hp => ?_, ?_⟩
  · rcases mem_append.mp hp with hp | hp
    · exact h.aligned p hp
    · rw [mem_singleton.mp hp]
      exact dvd_padUp ha n
  · rcases mem_append.mp hp with hp | hp
    · have := h.inside p hp
      omega
    · rw [mem_singleton.mp hp]
  · refine pairwise_append.mpr ⟨h.apart, pairwise_singleton _ _, fun p hp q hq => ?_⟩
    rw [mem_singleton.mp hq]
    exact (h.inside p hp).trans hle

end WlanDriver
