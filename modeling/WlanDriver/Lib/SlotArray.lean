import Mathlib.Data.List.Range
import Mathlib.Data.List.Perm.Basic
import Mathlib.Logic.Function.Basic
import Mathlib.Tactic.Common

/-!
# Arrays of slots

An array of slots is a function `ℕ → Option P`; `Bounded w` says that nothing lies behind slot `w`.
`contents` lists what the first slots hold, in order.

The loops that empty the first slots (`takeFirst`), that empty slots up to the first hole (`takeRun`),
that move slots down (`shiftDown`) and that look for the last full slot (`lastFull`) are defined as loops,
and each has one lemma that says what it computes. Emptying `n` slots and moving the rest down drops `n`
slots of a bounded array (`shiftDown_takeFirst`), and the contents then split in two
(`Bounded.contents_drop`).
-/

namespace WlanDriver

open Function List

/-- Slots that hold a `P` or nothing. -/
abbrev SlotArray (P : Type*) := ℕ → Option P

namespace SlotArray

variable {P : Type*} {a : SlotArray P} {w : ℕ}

/-- What the first `n` slots hold, in order. -/
def contents (a : SlotArray P) (n : ℕ) : List P :=
  (List.range n).filterMap a

/-- Nothing lies behind slot `w`. -/
def Bounded (a : SlotArray P) (w : ℕ) : Prop :=
  ∀ i, w ≤ i → a i = none

/-- The array without its first `n` slots. -/
def dropSlots (a : SlotArray P) (n : ℕ) : SlotArray P :=
  fun i => a (n + i)

/-! ## Loops -/

/-- Empty the first `n` slots. -/
def takeFirst : ℕ → SlotArray P → List P × SlotArray P
  | 0, a => ([], a)
  | n + 1, a =>
    let r := takeFirst n a
    (r.1 ++ (r.2 n).toList, update r.2 n none)

/-- Move `k` slots, from slot `n` on, to the front. -/
def shiftDown (n : ℕ) : ℕ → SlotArray P → SlotArray P
  | 0, a => a
  | k + 1, a =>
    let b := shiftDown n k a
    update (update b k (b (n + k))) (n + k) none

/-- Empty slots, from slot `i` on and at most `k` of them, up to the first hole. -/
def takeRun : ℕ → ℕ → SlotArray P → List P × ℕ × SlotArray P
  | 0, i, a => ([], i, a)
  | k + 1, i, a =>
    match a i with
    | none => ([], i, a)
    | some x =>
      let r := takeRun k (i + 1) (update a i none)
      (x :: r.1, r.2)

/-- The last full slot of the first `n`. -/
def lastFull : ℕ → SlotArray P → Option ℕ
  | 0, _ => none
  | n + 1, a => if (a n).isSome then some n else lastFull n a

/-! ## What the loops compute -/

theorem contents_succ (a : SlotArray P) (n : ℕ) :
    a.contents (n + 1) = a.contents n ++ (a n).toList := by
  rw [contents, range_succ, filterMap_append]
  cases h : a n <;> simp [contents, h]

theorem takeFirst_eq (n : ℕ) (a : SlotArray P) :
    takeFirst n a = (a.contents n, fun i => if i < n then none else a i) := by
  induction n with
  | zero => simp [takeFirst, contents]
  | succ n ih =>
    rw [takeFirst, ih, contents_succ]
    dsimp only
    rw [if_neg (lt_irrefl n)]
    congr 1
    funext i
    by_cases hi : i = n
    · simp [hi]
    · have hlt : i < n + 1 ↔ i < n := by omega
      simp [hi, hlt]

theorem shiftDown_apply {n : ℕ} (hn : 0 < n) (k : ℕ) (a : SlotArray P) (i : ℕ) :
    shiftDown n k a i = if i < k then a (n + i) else if n ≤ i ∧ i < n + k then none else a i := by
  induction k generalizing i with
  | zero =>
    rw [shiftDown, if_neg (Nat.not_lt_zero i), if_neg (by omega)]
  | succ k ih =>
    rw [shiftDown]
    by_cases hlast : i = n + k
    · subst hlast
      rw [update_self, if_neg (by omega), if_pos (by omega)]
    rw [update_of_ne hlast]
    by_cases hk : i = k
    · subst hk
      rw [update_self, ih, if_neg (by omega), if_neg (by omega), if_pos (by omega)]
    · rw [update_of_ne hk, ih]
      have h₁ : i < k + 1 ↔ i < k := by omega
      have h₂ : i < n + (k + 1) ↔ i < n + k := by omega
      simp only [h₁, h₂]

/-- Emptying the first `n` slots and moving the others down drops `n` slots. -/
theorem shiftDown_takeFirst {n : ℕ} (hn : 0 < n) (hw : n ≤ w) (ha : a.Bounded w) :
    shiftDown n (w - n) (takeFirst n a).2 = a.dropSlots n := by
  funext i
  rw [shiftDown_apply hn, takeFirst_eq, dropSlots]
  dsimp only
  split_ifs with h₁ h₂ h₃ h₄
  · omega
  · rfl
  · exact (ha _ (by omega)).symm
  · exact (ha _ (by omega)).symm
  · rw [ha _ (show w ≤ i by omega), ha _ (by omega)]

theorem contents_add (a : SlotArray P) (n k : ℕ) :
    a.contents (n + k) = a.contents n ++ (a.dropSlots n).contents k := by
  induction k with
  | zero => simp [contents]
  | succ k ih => rw [← Nat.add_assoc, contents_succ, ih, contents_succ, append_assoc, dropSlots]

theorem Bounded.drop (ha : a.Bounded w) (n : ℕ) : (a.dropSlots n).Bounded w :=
  fun i hi => ha (n + i) (by omega)

theorem Bounded.contents_eq {v : ℕ} (ha : a.Bounded w) (h : w ≤ v) : a.contents v = a.contents w := by
  obtain ⟨k, rfl⟩ := Nat.exists_eq_add_of_le h
  induction k with
  | zero => rfl
  | succ k ih =>
    rw [← Nat.add_assoc, contents_succ, ih (Nat.le_add_right w k), ha (w + k) (Nat.le_add_right w k)]
    simp

/-- The contents split at every slot. -/
theorem Bounded.contents_drop (ha : a.Bounded w) (n : ℕ) :
    a.contents w = a.contents n ++ (a.dropSlots n).contents w := by
  have hle : n + w = w + n := Nat.add_comm n w
  rw [← contents_add, hle, ha.contents_eq (Nat.le_add_right w n)]

theorem dropSlots_dropSlots (a : SlotArray P) (n k : ℕ) :
    (a.dropSlots n).dropSlots k = a.dropSlots (n + k) := by
  funext i
  simp only [dropSlots, Nat.add_assoc]

@[simp] theorem dropSlots_zero (a : SlotArray P) : a.dropSlots 0 = a := by
  funext i
  rw [dropSlots, Nat.zero_add]

@[simp] theorem contents_zero (a : SlotArray P) : a.contents 0 = [] := rfl

private theorem empty_range_eq (a : SlotArray P) (i : ℕ) :
    (fun j => if i ≤ j ∧ j < i + 0 then none else a j) = a := by
  funext j
  rw [if_neg (by omega)]

/-- `takeRun` empties the full slots in front of the first hole. -/
theorem takeRun_spec (k i : ℕ) (a : SlotArray P) :
    ∃ n ≤ k, (∀ j < n, (a (i + j)).isSome) ∧ (n < k → a (i + n) = none) ∧
      takeRun k i a = ((a.dropSlots i).contents n, i + n,
        fun j => if i ≤ j ∧ j < i + n then none else a j) := by
  induction k generalizing i a with
  | zero =>
    refine ⟨0, le_rfl, by simp, by simp, ?_⟩
    rw [takeRun, empty_range_eq a i]
    rfl
  | succ k ih =>
    cases hi : a i with
    | none =>
      refine ⟨0, Nat.zero_le _, by simp, fun _ => by simpa using hi, ?_⟩
      simp only [takeRun, hi]
      rw [empty_range_eq a i]
      rfl
    | some x =>
      obtain ⟨n, hn, hfull, hhole, heq⟩ := ih (i + 1) (update a i none)
      have hother : ∀ j, update a i none (i + 1 + j) = a (i + (j + 1)) := fun j => by
        rw [update_of_ne (by omega)]
        congr 1
        omega
      refine ⟨n + 1, by omega, ?_, ?_, ?_⟩
      · intro j hj
        cases j with
        | zero => simp [hi]
        | succ j =>
          rw [← hother]
          exact hfull j (by omega)
      · intro h
        rw [← hother]
        exact hhole (by omega)
      · have hdrop : dropSlots (update a i none) (i + 1) = (a.dropSlots i).dropSlots 1 := by
          funext j
          rw [dropSlots, hother, dropSlots, dropSlots]
          congr 1
          omega
        have hone : (a.dropSlots i).contents 1 = [x] := by
          simp [contents, dropSlots, hi]
        rw [takeRun, hi]
        dsimp only
        rw [heq, hdrop, Nat.add_comm n 1, contents_add, hone]
        refine Prod.ext rfl (Prod.ext (by dsimp only; omega) ?_)
        funext j
        dsimp only
        by_cases hj : j = i
        · subst hj
          simp
        · rw [update_of_ne hj]
          have hiff : (i + 1 ≤ j ∧ j < i + 1 + n) ↔ (i ≤ j ∧ j < i + (1 + n)) := by omega
          simp only [hiff]

theorem lastFull_eq_some {n j : ℕ} (h : lastFull n a = some j) :
    j < n ∧ (a j).isSome ∧ ∀ i, j < i → i < n → a i = none := by
  induction n with
  | zero => simp [lastFull] at h
  | succ n ih =>
    rw [lastFull] at h
    split_ifs at h with hn
    · cases h
      exact ⟨by omega, hn, fun i _ _ => by omega⟩
    · obtain ⟨hj, hfull, hrest⟩ := ih h
      refine ⟨by omega, hfull, fun i hji hin => ?_⟩
      by_cases hi : i = n
      · simpa [hi] using hn
      · exact hrest i hji (by omega)

/-! ## Contents -/

theorem mem_contents {n : ℕ} {x : P} : x ∈ a.contents n ↔ ∃ i < n, a i = some x := by
  simp [contents]

theorem contents_eq_nil (h : ∀ i < w, a i = none) : a.contents w = [] := by
  rw [eq_nil_iff_forall_not_mem]
  intro x hx
  obtain ⟨i, hi, hx⟩ := mem_contents.mp hx
  simp [h i hi] at hx

/-- Filling an empty slot adds what it holds. -/
theorem contents_update_perm {i : ℕ} {x : P} (hi : i < w) (hempty : a i = none) :
    (contents (update a i (some x)) w).Perm (x :: a.contents w) := by
  have hsplit : ∀ b : SlotArray P, b.contents w =
      b.contents i ++ ((b i).toList ++ (b.dropSlots (i + 1)).contents (w - (i + 1))) := by
    intro b
    rw [← append_assoc, ← contents_succ, ← contents_add, Nat.add_sub_cancel' hi]
  have hfront : contents (update a i (some x)) i = a.contents i := by
    refine filterMap_congr fun j hj => ?_
    rw [update_of_ne (by have := mem_range.mp hj; omega)]
  have hback : dropSlots (update a i (some x)) (i + 1) = a.dropSlots (i + 1) := by
    funext j
    rw [dropSlots, update_of_ne (by omega), dropSlots]
  rw [hsplit, hsplit a, hfront, hback, update_self, hempty]
  exact perm_middle

/-- Where the slots are ranked by `f`, so are the contents. -/
theorem contents_pairwise {f : P → ℕ} {b : ℕ} (h : ∀ i x, a i = some x → f x = b + i) (n : ℕ) :
    (a.contents n).Pairwise fun x y => f x < f y := by
  induction n with
  | zero => simp [contents]
  | succ n ih =>
    rw [contents_succ, pairwise_append]
    refine ⟨ih, by cases a n <;> simp, fun x hx y hy => ?_⟩
    obtain ⟨i, hi, hx⟩ := mem_contents.mp hx
    have hy' : a n = some y := by simpa using hy
    rw [h i x hx, h n y hy']
    omega

end SlotArray

end WlanDriver
