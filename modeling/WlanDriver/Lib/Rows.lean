import Mathlib.Order.Nat
import Mathlib.Tactic.Common

/-!
# Rows with a wildcard

A table has rows with a key and a value, and some values are wild. A new row is put in the place of the first row that it
displaces : one of its key with its value or a wild one. `Parted` : of two rows with one key the values differ, and the
first one is not wild. This is kept by putting a row where it displaces one first, by adding one that displaces none, by
taking rows out, and by giving a row another value, if that is one which no other row of the key has.
-/

namespace WlanDriver

variable {κ β : Type*} {W : β → Prop} {f g : ℕ → κ × β} {n idx : ℕ} {x : κ × β}

/-- A row in whose place `x` may be put. -/
def Displaces (W : β → Prop) (x y : κ × β) : Prop :=
  x.1 = y.1 ∧ (x.2 = y.2 ∨ W y.2)

/-- Of two rows with one key the values differ, and the first is not wild. -/
def Parted (W : β → Prop) (f : ℕ → κ × β) (n : ℕ) : Prop :=
  ∀ i j, i < j → j < n → (f i).1 = (f j).1 → (f i).2 ≠ (f j).2 ∧ ¬W (f i).2

namespace Parted

theorem nil : Parted W f 0 :=
  fun _ j _ hj => absurd hj (Nat.not_lt_zero j)

variable (h : Parted W f n)

include h

theorem congr (hg : ∀ i < n, g i = f i) : Parted W g n := by
  intro i j hij hj
  rw [hg i (hij.trans hj), hg j hj]
  exact h i j hij hj

theorem init {m : ℕ} (hm : m ≤ n) : Parted W f m :=
  fun i j hij hj => h i j hij (hj.trans_le hm)

/-- A row that displaces none is added behind the others. -/
theorem snoc (hno : ∀ i < n, ¬Displaces W x (f i)) (hx : f n = x) : Parted W f (n + 1) := by
  intro i j hij hj hkey
  rcases Nat.lt_succ_iff_lt_or_eq.mp hj with hlt | rfl
  · exact h i j hij hlt hkey
  · rw [hx] at hkey ⊢
    have hn := not_and.mp (hno i hij) hkey.symm
    exact ⟨fun heq => hn (Or.inl heq.symm), fun hw => hn (Or.inr hw)⟩

/-- A row is put in the place of the first one that it displaces. -/
theorem replace (hdisp : Displaces W x (f idx)) (hfirst : ∀ i < idx, ¬Displaces W x (f i))
    (hx : g idx = x) (hg : ∀ i < n, i ≠ idx → g i = f i) : Parted W g n := by
  intro i j hij hj hkey
  by_cases hi : i = idx
  · subst hi
    rw [hx, hg j hj hij.ne'] at hkey ⊢
    obtain ⟨hne, hw⟩ := h i j hij hj (hdisp.1.symm.trans hkey)
    have hval : x.2 = (f i).2 := hdisp.2.resolve_right hw
    rw [hval]
    exact ⟨hne, hw⟩
  · rw [hg i (hij.trans hj) hi] at hkey ⊢
    by_cases hj' : j = idx
    · subst hj'
      rw [hx] at hkey ⊢
      have hn := not_and.mp (hfirst i hij) hkey.symm
      exact ⟨fun heq => hn (Or.inl heq.symm), fun hw => hn (Or.inr hw)⟩
    · rw [hg j hj hj'] at hkey ⊢
      exact h i j hij hj hkey

/-- A row is taken out. -/
theorem remove (hbefore : ∀ i < idx, i < n - 1 → g i = f i)
    (hbehind : ∀ i, idx ≤ i → i + 1 < n → g i = f (i + 1)) : Parted W g (n - 1) := by
  have hrow : ∀ i < n - 1, ∃ k, k < n ∧ g i = f k ∧ (i < idx → k = i) ∧ (idx ≤ i → k = i + 1) := fun i hi => by
    rcases Nat.lt_or_ge i idx with hlt | hge
    · exact ⟨i, by omega, hbefore i hlt hi, fun _ => rfl, fun hle => absurd hlt (Nat.not_lt.mpr hle)⟩
    · exact ⟨i + 1, by omega, hbehind i hge (by omega), fun hlt => absurd hlt (Nat.not_lt.mpr hge), fun _ => rfl⟩
  intro i j hij hj
  obtain ⟨k, -, hk, hklt, hkge⟩ := hrow i (hij.trans hj)
  obtain ⟨l, hl, hgl, hllt, hlge⟩ := hrow j hj
  rw [hk, hgl]
  exact h k l (by omega) hl

/-- A row gets another value, which no other row of its key has, and no wild one before one of its key. -/
theorem rename (hx : g idx = x) (hkey : x.1 = (f idx).1) (hg : ∀ i < n, i ≠ idx → g i = f i)
    (hok : ∀ i < n, i ≠ idx → (f i).1 = x.1 → (f i).2 ≠ x.2 ∧ (idx < i → ¬W x.2)) : Parted W g n := by
  intro i j hij hj hkeys
  by_cases hi : i = idx
  · subst hi
    rw [hx, hg j hj hij.ne'] at hkeys ⊢
    obtain ⟨hne, hw⟩ := hok j hj hij.ne' hkeys.symm
    exact ⟨Ne.symm hne, hw hij⟩
  · rw [hg i (hij.trans hj) hi] at hkeys ⊢
    by_cases hj' : j = idx
    · subst hj'
      rw [hx] at hkeys ⊢
      exact ⟨(hok i (hij.trans hj) hi hkeys).1, (h i j hij hj (hkeys.trans hkey)).2⟩
    · rw [hg j hj hj'] at hkeys ⊢
      exact h i j hij hj hkeys

end Parted

end WlanDriver
