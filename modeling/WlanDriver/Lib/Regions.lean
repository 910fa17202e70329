import WlanDriver.Lib.Memory

/-!
# Regions of a buffer

`Packed start len n lo hi` : `n` regions, not empty, lie in ascending order inside `[lo, hi)`; there may be
gaps. The operations of a compacting allocator keep it : a region is appended at the end, one is resized and those
behind it move by the difference, one is removed and those behind it move back, all move to a new buffer, the
last is given up. What `memmove` does to the octets that lie inside of what it moves is `Mem.read_memmove`.
-/

namespace WlanDriver

/-- Two ranges of addresses have no address in common. -/
def Apart (p n q k : ℕ) : Prop :=
  p + n ≤ q ∨ q + k ≤ p
  deriving Decidable

theorem Apart.symm {p n q k : ℕ} (h : Apart p n q k) : Apart q k p n :=
  Or.symm h

theorem Apart.part {p n q k p' n' : ℕ} (h : Apart p n q k) (hp : p ≤ p') (hn : p' + n' ≤ p + n) :
    Apart p' n' q k := by
  unfold Apart at *
  omega

namespace Mem

variable {m : Mem} {dst src n a k : ℕ} {bs : List UInt8}

/-- What lies outside of the destination is kept. -/
theorem read_memmove_of_apart (h : Apart a k dst n) : (m.memmove dst src n).read a k = m.read a k :=
  read_write_of_disjoint (by rwa [length_read])

/-- What lies inside of the source is found at the same place of the destination. -/
theorem read_memmove (h : a + k ≤ n) : (m.memmove dst src n).read (dst + a) k = m.read (src + a) k := by
  refine read_congr fun i hi => ?_
  have hlt : a + i < (m.read src n).length := by
    rw [length_read]
    omega
  rw [memmove, Nat.add_assoc, write_apply_of_mem hlt, Nat.add_assoc]
  simp [read]

theorem read_write_of_apart (h : Apart a k dst bs.length) : (m.write dst bs).read a k = m.read a k :=
  read_write_of_disjoint h

end Mem

/-- Regions in ascending order inside `[lo, hi)`. -/
structure Packed (start len : ℕ → ℕ) (n lo hi : ℕ) : Prop where
  le : lo ≤ hi
  pos : ∀ i < n, 0 < len i
  low : ∀ i < n, lo ≤ start i
  high : ∀ i < n, start i + len i ≤ hi
  order : ∀ i j, i < j → j < n → start i + len i ≤ start j

namespace Packed

variable {start len start' len' : ℕ → ℕ} {n lo hi hi' lo' i j k ℓ : ℕ}

theorem nil (lo : ℕ) : Packed start len 0 lo lo :=
  ⟨le_rfl, fun _ h => absurd h (Nat.not_lt_zero _), fun _ h => absurd h (Nat.not_lt_zero _),
    fun _ h => absurd h (Nat.not_lt_zero _), fun _ _ _ h => absurd h (Nat.not_lt_zero _)⟩

/-- The regions have no address in common. -/
theorem apart (h : Packed start len n lo hi) (hin : i < n) (hj : j < n) (hne : i ≠ j) :
    Apart (start i) (len i) (start j) (len j) := by
  rcases Nat.lt_or_gt_of_ne hne with hlt | hlt
  · exact .inl (h.order i j hlt hj)
  · exact .inr (h.order j i hlt hin)

/-- Addresses are in the order of the indices. -/
theorem start_lt_iff (h : Packed start len n lo hi) (hin : i < n) (hj : j < n) : start i < start j ↔ i < j := by
  have hpi := h.pos i hin
  have hpj := h.pos j hj
  constructor
  · intro hlt
    by_contra hge
    rcases Nat.lt_or_eq_of_le (Nat.le_of_not_lt hge) with hji | rfl
    · have := h.order j i hji hin
      omega
    · omega
  · intro hij
    have := h.order i j hij hj
    omega

theorem congr (h : Packed start len n lo hi) (hs : ∀ i < n, start' i = start i) (hl : ∀ i < n, len' i = len i) :
    Packed start' len' n lo hi where
  le := h.le
  pos i hi := by rw [hl i hi]; exact h.pos i hi
  low i hi := by rw [hs i hi]; exact h.low i hi
  high i hi := by rw [hs i hi, hl i hi]; exact h.high i hi
  order i j hij hj := by
    rw [hs i (by omega), hl i (by omega), hs j hj]
    exact h.order i j hij hj

/-- The last region is given up. -/
theorem init (h : Packed start len (n + 1) lo hi) : Packed start len n lo hi where
  le := h.le
  pos i hi := h.pos i (by omega)
  low i hi := h.low i (by omega)
  high i hi := h.high i (by omega)
  order i j hij hj := h.order i j hij (by omega)

variable (h : Packed start len n lo hi)

include h

theorem append (hk : 0 < k) (hs : ∀ i < n, start' i = start i)
    (hl : ∀ i < n, len' i = len i) (hsn : start' n = hi) (hln : len' n = k) :
    Packed start' len' (n + 1) lo (hi + k) := by
  have hold := h.congr hs hl
  refine ⟨by have := h.le; omega, fun i hi => ?_, fun i hi => ?_, fun i hi => ?_, fun i j hij hj => ?_⟩
  · rcases Nat.lt_succ_iff_lt_or_eq.mp hi with hi | rfl
    · exact hold.pos i hi
    · omega
  · rcases Nat.lt_succ_iff_lt_or_eq.mp hi with hi | rfl
    · exact hold.low i hi
    · have := h.le
      omega
  · rcases Nat.lt_succ_iff_lt_or_eq.mp hi with hi | rfl
    · have := hold.high i hi
      omega
    · omega
  · rcases Nat.lt_succ_iff_lt_or_eq.mp hj with hj | rfl
    · exact hold.order i j hij hj
    · rw [hsn]
      exact hold.high i hij

/-- Region `i` gets the length `ℓ`, and those behind it move by the difference. -/
theorem resize (hin : i < n) (hℓ : 0 < ℓ)
    (hs : ∀ j < n, start' j = if i < j then start j - (start i + len i) + (start i + ℓ) else start j)
    (hl : ∀ j < n, len' j = if j = i then ℓ else len j)
    (hend : hi' = hi - (start i + len i) + (start i + ℓ)) : Packed start' len' n lo hi' := by
  have hhigh := h.high i hin
  have hlow := h.low i hin
  refine ⟨by omega, fun j hj => ?_, fun j hj => ?_, fun j hj => ?_, fun j k hjk hk => ?_⟩
  · rw [hl j hj]
    split
    · exact hℓ
    · exact h.pos j hj
  · have := h.low j hj
    rw [hs j hj]
    split <;> omega
  · rw [hs j hj, hl j hj]
    have hjh := h.high j hj
    rcases Nat.lt_trichotomy i j with hij | rfl | hji
    · have := h.order i j hij hj
      rw [if_pos hij, if_neg (by omega)]
      omega
    · rw [if_neg (by omega), if_pos rfl]
      omega
    · have := h.order j i hji hin
      rw [if_neg (by omega), if_neg (by omega)]
      omega
  · have hjn : j < n := by omega
    rw [hs j hjn, hl j hjn, hs k hk]
    have hord := h.order j k hjk hk
    rcases Nat.lt_trichotomy i j with hij | rfl | hji
    · have := h.order i j hij hjn
      rw [if_pos hij, if_neg (by omega), if_pos (by omega)]
      omega
    · rw [if_neg (by omega), if_pos rfl, if_pos hjk]
      omega
    · rw [if_neg (by omega), if_neg (by omega)]
      split
      · have := h.order j i hji hin
        omega
      · exact hord

/-- Region `i` is removed, and those behind it move back. -/
theorem remove (hin : i < n)
    (hs : ∀ j < n - 1, start' j = if j < i then start j else start (j + 1) - len i)
    (hl : ∀ j < n - 1, len' j = if j < i then len j else len (j + 1)) (hend : hi' = hi - len i) :
    Packed start' len' (n - 1) lo hi' := by
  have hhigh := h.high i hin
  have hlow := h.low i hin
  refine ⟨by omega, fun j hj => ?_, fun j hj => ?_, fun j hj => ?_, fun j k hjk hk => ?_⟩
  · rw [hl j hj]
    split
    · exact h.pos j (by omega)
    · exact h.pos (j + 1) (by omega)
  · rw [hs j hj]
    split
    · exact h.low j (by omega)
    · have := h.order i (j + 1) (by omega) (by omega)
      omega
  · rw [hs j hj, hl j hj]
    split
    · next hji =>
      have := h.order j i hji hin
      omega
    · have := h.high (j + 1) (by omega)
      have := h.order i (j + 1) (by omega) (by omega)
      omega
  · rw [hs j (by omega), hl j (by omega), hs k hk]
    by_cases hki : k < i
    · rw [if_pos (show j < i by omega), if_pos (show j < i by omega), if_pos hki]
      exact h.order j k hjk (by omega)
    · rw [if_neg hki]
      have hk1 := h.order i (k + 1) (by omega) (by omega)
      by_cases hji : j < i
      · rw [if_pos hji, if_pos hji]
        have := h.order j i hji hin
        omega
      · rw [if_neg hji, if_neg hji]
        have := h.order (j + 1) (k + 1) (by omega) (by omega)
        have := h.order i (j + 1) (by omega) (by omega)
        omega

/-- All regions move to a new buffer. -/
theorem rebase (hs : ∀ j < n, start' j = lo' + (start j - lo))
    (hend : hi' = lo' + (hi - lo)) : Packed start' len n lo' hi' := by
  refine ⟨by omega, h.pos, fun j hj => ?_, fun j hj => ?_, fun j k hjk hk => ?_⟩
  · rw [hs j hj]
    omega
  · have := h.high j hj
    have := h.low j hj
    rw [hs j hj]
    omega
  · have := h.order j k hjk hk
    have := h.low j (by omega)
    rw [hs j (by omega), hs k hk]
    omega

end Packed

end WlanDriver
