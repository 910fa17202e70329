import Mathlib.Algebra.Order.BigOperators.Group.List
import Mathlib.Algebra.Order.Ring.Nat
import Mathlib.Tactic.Common

/-!
# Edits of the first match in a list

A linked list that is searched from its head and edited at the node the search finds is a `List`
with `List.find?`, `replaceFirst` and `List.eraseP`.

The edits are used through what they do : `Replaces x y l l'` says that `l'` is `l` with one `x` made
a `y`, and `Removes x l l'` that `l'` is `l` without one `x`. Sums over the nodes, properties of all nodes
and keys that the edit keeps follow from these two alone.

The last part is arithmetic of `w`-bit counters.
-/

namespace WlanDriver

open List

variable {α β : Type*}

/-- Change the first element with `p` by `f`. -/
def replaceFirst (p : α → Bool) (f : α → α) : List α → List α
  | [] => []
  | x :: l => if p x then f x :: l else x :: replaceFirst p f l

/-- `l'` is `l` with one `x` made a `y`. -/
def Replaces (x y : α) (l l' : List α) : Prop :=
  ∃ l₁ l₂, l = l₁ ++ x :: l₂ ∧ l' = l₁ ++ y :: l₂

/-- `l'` is `l` without one `x`. -/
def Removes (x : α) (l l' : List α) : Prop :=
  ∃ l₁ l₂, l = l₁ ++ x :: l₂ ∧ l' = l₁ ++ l₂

section Edits

variable {p : α → Bool} {f : α → α} {x y z : α} {l l' : List α}

theorem replaceFirst_of_find (h : l.find? p = some x) : Replaces x (f x) l (replaceFirst p f l) := by
  induction l with
  | nil => simp at h
  | cons z l ih =>
    unfold replaceFirst
    rw [find?_cons] at h
    split_ifs with hz
    · simp only [hz, Option.some.injEq] at h
      subst h
      exact ⟨[], l, rfl, rfl⟩
    · simp only [hz] at h
      obtain ⟨l₁, l₂, hl, hl'⟩ := ih h
      exact ⟨z :: l₁, l₂, by rw [hl]; rfl, by rw [hl']; rfl⟩

theorem replaceFirst_of_none (h : l.find? p = none) : replaceFirst p f l = l := by
  induction l with
  | nil => rfl
  | cons z l ih =>
    rw [find?_eq_none] at h
    have hz := h z mem_cons_self
    rw [replaceFirst, if_neg hz, ih (find?_eq_none.mpr fun w hw => h w (mem_cons_of_mem _ hw))]

/-- An element that both searches find first is changed alike. -/
theorem replaceFirst_congr {q : α → Bool} (h : l.find? p = some x) (h' : l.find? q = some x) :
    replaceFirst p f l = replaceFirst q f l := by
  induction l with
  | nil => rfl
  | cons z l ih =>
    rw [find?_cons] at h h'
    unfold replaceFirst
    cases hp : p z <;> cases hq : q z <;> simp only [hp, hq, Option.some.injEq] at h h'
    · simp only [Bool.false_eq_true, if_false, ih h h']
    · exact absurd (find?_some h) (by rw [← h', hp]; simp)
    · exact absurd (find?_some h') (by rw [← h, hq]; simp)
    · rfl

/-- An element of the edited list is an old one or a changed one. -/
theorem mem_replaceFirst (h : y ∈ replaceFirst p f l) : ∃ x ∈ l, y = x ∨ p x = true ∧ y = f x := by
  cases hx : l.find? p with
  | none =>
    rw [replaceFirst_of_none hx] at h
    exact ⟨y, h, .inl rfl⟩
  | some x =>
    obtain ⟨l₁, l₂, hl, hl'⟩ := replaceFirst_of_find (f := f) hx
    rw [hl', mem_append, mem_cons] at h
    rw [hl]
    rcases h with h | h | h
    · exact ⟨y, by simp [h], .inl rfl⟩
    · exact ⟨x, by simp, .inr ⟨find?_some hx, h⟩⟩
    · exact ⟨y, by simp [h], .inl rfl⟩

/-- A search does not see an edit that keeps what it looks for. -/
theorem map_find?_replaceFirst {q : α → Bool} {g : α → β} (hq : ∀ x, q (f x) = q x) (hg : ∀ x, g (f x) = g x)
    (l : List α) : ((replaceFirst p f l).find? q).map g = (l.find? q).map g := by
  induction l with
  | nil => rfl
  | cons x l ih =>
    unfold replaceFirst
    split_ifs
    · cases hx : q x with
      | true => rw [find?_cons_of_pos ((hq x).trans hx), find?_cons_of_pos hx, Option.map_some, hg]; rfl
      | false =>
        rw [find?_cons_of_neg (by simp [hq, hx]), find?_cons_of_neg (by simp [hx])]
    · cases hx : q x with
      | true => rw [find?_cons_of_pos hx, find?_cons_of_pos hx]
      | false =>
        rw [find?_cons_of_neg (by simp [hx]), find?_cons_of_neg (by simp [hx]), ih]

theorem map_head?_replaceFirst {g : α → β} (hg : ∀ x, g (f x) = g x) (l : List α) :
    (replaceFirst p f l).head?.map g = l.head?.map g := by
  cases l with
  | nil => rfl
  | cons x l =>
    unfold replaceFirst
    split_ifs
    · exact congrArg some (hg x)
    · rfl

theorem eraseP_of_find (h : l.find? p = some x) : Removes x l (l.eraseP p) := by
  induction l with
  | nil => simp at h
  | cons z l ih =>
    rw [find?_cons] at h
    cases hz : p z with
    | true =>
      simp only [hz, Option.some.injEq] at h
      subst h
      exact ⟨[], l, rfl, by rw [eraseP_cons_of_pos hz]; rfl⟩
    | false =>
      simp only [hz] at h
      obtain ⟨l₁, l₂, hl, hl'⟩ := ih h
      exact ⟨z :: l₁, l₂, by rw [hl]; rfl, by rw [eraseP_cons_of_neg (by simp [hz]), hl']; rfl⟩

theorem eraseP_of_none (h : l.find? p = none) : l.eraseP p = l :=
  eraseP_of_forall_not fun a ha => find?_eq_none.mp h a ha

namespace Replaces

variable (h : Replaces x y l l')

include h

theorem sum (w : α → ℕ) : (l'.map w).sum + w x = (l.map w).sum + w y := by
  obtain ⟨l₁, l₂, rfl, rfl⟩ := h
  simp only [map_append, map_cons, sum_append, sum_cons]
  omega

theorem forall_mem {P : α → Prop} (hl : ∀ a ∈ l, P a) (hy : P y) :
    ∀ a ∈ l', P a := by
  obtain ⟨l₁, l₂, rfl, rfl⟩ := h
  simp only [mem_append, mem_cons] at hl ⊢
  rintro a (ha | rfl | ha)
  · exact hl a (.inl ha)
  · exact hy
  · exact hl a (.inr (.inr ha))

/-- Keys that the new element shares with the old one stay. -/
theorem map_eq {g : α → β} (hg : g y = g x) : l'.map g = l.map g := by
  obtain ⟨l₁, l₂, rfl, rfl⟩ := h
  simp [hg]

theorem mem_old : x ∈ l := by
  obtain ⟨l₁, l₂, rfl, rfl⟩ := h
  simp

theorem symm : Replaces y x l' l := by
  obtain ⟨l₁, l₂, hl, hl'⟩ := h
  exact ⟨l₁, l₂, hl', hl⟩

/-- Behind distinct keys, the other elements differ from the old one in their key. -/
theorem forall_mem_of_ne {g : α → β} {P : α → Prop} (hn : (l.map g).Nodup)
    (hl : ∀ a ∈ l, g a ≠ g x → P a) (hy : P y) : ∀ a ∈ l', P a := by
  obtain ⟨l₁, l₂, rfl, rfl⟩ := h
  rw [map_append, map_cons, nodup_append] at hn
  obtain ⟨-, h₂, hdis⟩ := hn
  rw [nodup_cons] at h₂
  simp only [mem_append, mem_cons] at hl ⊢
  rintro a (ha | rfl | ha)
  · exact hl a (.inl ha) fun he => hdis (g a) (mem_map_of_mem ha) (g x) mem_cons_self he
  · exact hy
  · exact hl a (.inr (.inr ha)) fun he => h₂.1 (he ▸ mem_map_of_mem ha)

end Replaces

namespace Removes

variable (h : Removes x l l')

include h

theorem sum (w : α → ℕ) : (l'.map w).sum + w x = (l.map w).sum := by
  obtain ⟨l₁, l₂, rfl, rfl⟩ := h
  simp only [map_append, map_cons, sum_append, sum_cons]
  omega

theorem sublist : l'.Sublist l := by
  obtain ⟨l₁, l₂, rfl, rfl⟩ := h
  exact (List.Sublist.refl l₁).append (sublist_cons_self x l₂)

theorem mem_old : x ∈ l := by
  obtain ⟨l₁, l₂, rfl, rfl⟩ := h
  simp

theorem mem_of_ne (hz : z ∈ l) (hne : z ≠ x) : z ∈ l' := by
  obtain ⟨l₁, l₂, rfl, rfl⟩ := h
  simp only [mem_append, mem_cons] at hz ⊢
  rcases hz with hz | hz | hz
  · exact .inl hz
  · exact absurd hz hne
  · exact .inr hz

theorem mem_map_of_ne {g : α → β} {b : β} (hb : b ∈ l.map g) (hne : b ≠ g x) : b ∈ l'.map g := by
  obtain ⟨z, hz, rfl⟩ := mem_map.mp hb
  exact mem_map_of_mem (h.mem_of_ne hz fun hzx => hne (congrArg g hzx))

/-- Behind distinct keys, what stays has another key than what is removed. -/
theorem key_ne {g : α → β} (hn : (l.map g).Nodup) (hz : z ∈ l') : g z ≠ g x := by
  obtain ⟨l₁, l₂, rfl, rfl⟩ := h
  rw [map_append, map_cons, perm_middle.nodup_iff, nodup_cons, ← map_append] at hn
  exact fun heq => hn.1 (heq ▸ mem_map_of_mem hz)

end Removes

/-- An element weighs at most what its list weighs. -/
theorem le_sum_map (w : α → ℕ) (h : x ∈ l) : w x ≤ (l.map w).sum :=
  single_le_sum (by simp) _ (mem_map_of_mem h)

end Edits

/-! ## Counters of `w` bits -/

/-- `n += k`. -/
def wadd (w n k : ℕ) : ℕ :=
  (n + k) % 2 ^ w

/-- `n -= k`. -/
def wsub (w n k : ℕ) : ℕ :=
  (n + (2 ^ w - k % 2 ^ w)) % 2 ^ w

theorem wadd_of_lt {w n k : ℕ} (h : n + k < 2 ^ w) : wadd w n k = n + k :=
  Nat.mod_eq_of_lt h

theorem wsub_of_le {w n k : ℕ} (hk : k ≤ n) (hn : n < 2 ^ w) : wsub w n k = n - k := by
  unfold wsub
  rw [Nat.mod_eq_of_lt (lt_of_le_of_lt hk hn)]
  have hsplit : n + (2 ^ w - k) = n - k + 2 ^ w := by omega
  rw [hsplit, Nat.add_mod_right, Nat.mod_eq_of_lt (by omega)]

end WlanDriver
