import Mathlib.Data.Finset.Card
import Mathlib.Data.Nat.ModEq
import Mathlib.Logic.Function.Basic
import Mathlib.Tactic.Common

/-!
# Rings of slots

The positions of a queue are counted without bound, and position `p` lies in slot `p % n`. `InRing n slot r l` : the slots
show the positions from `r` on, as `l` lists them, and the other slots are empty. A position is put behind the last one, the
first one is taken out, the last one is replaced or taken back.
-/

namespace WlanDriver

open Function List

variable {α : Type*} {n r k j i : ℕ} {slot : ℕ → Option α} {l : List (Option α)} {x y : Option α}

/-- Less than `n` positions have slots of their own. -/
theorem eq_of_add_mod_eq (hk : k < n) (hj : j < n) (h : (r + k) % n = (r + j) % n) : k = j := by
  have h' : k % n = j % n := Nat.ModEq.add_left_cancel' r h
  rwa [Nat.mod_eq_of_lt hk, Nat.mod_eq_of_lt hj] at h'

/-- Each slot is that of one of `n` positions. -/
theorem exists_add_mod_eq (r : ℕ) (hi : i < n) : ∃ k < n, (r + k) % n = i := by
  have hn : 0 < n := by omega
  refine ⟨(i + n - r % n) % n, Nat.mod_lt _ hn, ?_⟩
  have hr : r % n < n := Nat.mod_lt _ hn
  calc (r + (i + n - r % n) % n) % n = (r % n + (i + n - r % n)) % n := by simp [Nat.add_mod]
    _ = (i + n) % n := by rw [show r % n + (i + n - r % n) = i + n by omega]
    _ = i := by rw [Nat.add_mod_right, Nat.mod_eq_of_lt hi]

/-- The slots show the positions from `r` on. -/
structure InRing (n : ℕ) (slot : ℕ → Option α) (r : ℕ) (l : List (Option α)) : Prop where
  fits : l.length ≤ n
  slots : ∀ k < n, slot ((r + k) % n) = l[k]?.join

namespace InRing

/-- An empty ring. -/
theorem nil (h : ∀ i < n, slot i = none) : InRing n slot r [] :=
  ⟨Nat.zero_le n, fun _ hk => h _ (Nat.mod_lt _ (by omega))⟩

theorem slot_eq_some_iff (h : InRing n slot r l) {b : α} (hi : i < n) :
    slot i = some b ↔ ∃ k, (r + k) % n = i ∧ l[k]? = some (some b) := by
  constructor
  · intro hs
    obtain ⟨k, hk, rfl⟩ := exists_add_mod_eq r hi
    exact ⟨k, rfl, Option.join_eq_some_iff.mp ((h.slots k hk).symm.trans hs)⟩
  · rintro ⟨k, rfl, hl⟩
    have hk : k < n := lt_of_lt_of_le (List.getElem?_eq_some_iff.mp hl).1 h.fits
    rw [h.slots k hk, hl]
    rfl

/-- The slot behind the last position is empty. -/
theorem free (h : InRing n slot r l) (hl : l.length < n) : slot ((r + l.length) % n) = none := by
  rw [h.slots _ hl, getElem?_eq_none le_rfl]
  rfl

/-- The slot of the first position. -/
theorem head (h : InRing n slot r (x :: l)) : slot (r % n) = x := by
  have hn : 0 < n := lt_of_lt_of_le (Nat.succ_pos _) h.fits
  simpa using h.slots 0 hn

/-- A position is put behind the last one. -/
theorem push (h : InRing n slot r l) (hl : l.length < n) (x : Option α) :
    InRing n (update slot ((r + l.length) % n) x) r (l ++ [x]) := by
  refine ⟨by simp; omega, fun k hk => ?_⟩
  by_cases hkl : k = l.length
  · subst hkl
    simp
  · have hne : (r + k) % n ≠ (r + l.length) % n := fun he => hkl (eq_of_add_mod_eq hk hl he)
    rw [update_of_ne hne, h.slots k hk]
    rcases lt_or_gt_of_ne hkl with hlt | hgt
    · rw [getElem?_append_left hlt]
    · rw [getElem?_eq_none hgt.le, getElem?_eq_none (by simp; omega)]

/-- The first position is taken out. -/
theorem pop (h : InRing n slot r (x :: l)) : InRing n (update slot (r % n) none) (r + 1) l := by
  have hfits : l.length + 1 ≤ n := h.fits
  refine ⟨by omega, fun k hk => ?_⟩
  by_cases hkn : k + 1 = n
  · have hslot : (r + 1 + k) % n = r % n := by rw [show r + 1 + k = r + n by omega, Nat.add_mod_right]
    rw [hslot, update_self, getElem?_eq_none (by omega)]
    rfl
  · have hne : (r + 1 + k) % n ≠ r % n := by
      intro he
      rw [show r + 1 + k = r + (k + 1) by omega] at he
      exact absurd (eq_of_add_mod_eq (j := 0) (by omega) (by omega) he) (Nat.succ_ne_zero k)
    rw [update_of_ne hne, show r + 1 + k = r + (k + 1) by omega, h.slots (k + 1) (by omega),
      getElem?_cons_succ]

theorem setLast (h : InRing n slot r (l ++ [x])) (y : Option α) :
    InRing n (update slot ((r + l.length) % n) y) r (l ++ [y]) := by
  have hfits : l.length + 1 ≤ n := by simpa using h.fits
  refine ⟨by simpa using hfits, fun k hk => ?_⟩
  by_cases hkl : k = l.length
  · subst hkl
    simp
  · have hne : (r + k) % n ≠ (r + l.length) % n := fun he => hkl (eq_of_add_mod_eq hk hfits he)
    rw [update_of_ne hne, h.slots k hk]
    rcases lt_or_gt_of_ne hkl with hlt | hgt
    · rw [getElem?_append_left hlt, getElem?_append_left hlt]
    · rw [getElem?_eq_none (by simp; omega), getElem?_eq_none (by simp; omega)]

/-- An empty last position may be left out. -/
theorem dropLast (h : InRing n slot r (l ++ [none])) : InRing n slot r l := by
  have hfits : l.length + 1 ≤ n := by simpa using h.fits
  refine ⟨by omega, fun k hk => ?_⟩
  rw [h.slots k hk]
  rcases lt_trichotomy k l.length with hlt | rfl | hgt
  · rw [getElem?_append_left hlt]
  · simp
  · rw [getElem?_eq_none (by simp; omega), getElem?_eq_none hgt.le]

/-- As many slots are occupied as positions are. -/
theorem card_occupied (h : InRing n slot r l) :
    ((Finset.range n).filter fun i => (slot i).isSome = true).card = l.countP Option.isSome := by
  induction l generalizing slot r with
  | nil =>
    rw [countP_nil, Finset.card_eq_zero, Finset.filter_eq_empty_iff]
    intro i hi
    obtain ⟨k, hk, rfl⟩ := exists_add_mod_eq r (Finset.mem_range.mp hi)
    simp [h.slots k hk]
  | cons x l ih =>
    have hn : r % n < n := Nat.mod_lt _ (lt_of_lt_of_le (Nat.succ_pos _) h.fits)
    have hpop := ih h.pop
    have herase : ((Finset.range n).filter fun i => (update slot (r % n) none i).isSome = true) =
        ((Finset.range n).filter fun i => (slot i).isSome = true).erase (r % n) := by
      ext i
      by_cases hi : i = r % n
      · simp [hi]
      · simp [hi]
    rw [herase] at hpop
    cases x with
    | none =>
      have hmem : r % n ∉ (Finset.range n).filter fun i => (slot i).isSome = true := by simp [h.head]
      rw [Finset.erase_eq_of_notMem hmem] at hpop
      simpa using hpop
    | some b =>
      have hmem : r % n ∈ (Finset.range n).filter fun i => (slot i).isSome = true := by simp [h.head, hn]
      have hpos := Finset.card_pos.mpr ⟨_, hmem⟩
      rw [Finset.card_erase_of_mem hmem] at hpop
      rw [countP_cons_of_pos rfl]
      omega

end InRing

end WlanDriver
