import Mathlib.Data.List.Infix
import Mathlib.Tactic.Common

/-!
# Taking a word out of a list

A word is searched from the front and taken out where it is found first, again and again. `StrayFree` : at no time does
an end of the list agree with the beginning of the word, so that a search which reads on behind the list finds nothing
else.
-/

namespace WlanDriver

open List

variable {α : Type*} [DecidableEq α] {w l : List α} {n k : ℕ}

/-- Where the word occurs first. -/
def firstIn (w l : List α) : Option ℕ :=
  (List.range l.length).find? fun k => w.isPrefixOf (l.drop k)

/-- The first occurrence is taken out. -/
def excise (w l : List α) : List α :=
  match firstIn w l with
  | none => l
  | some k => l.take k ++ l.drop (k + w.length)

/-- Occurrences are taken out, up to `n` of them. -/
def exciseTimes (w : List α) : ℕ → List α → List α
  | 0, l => l
  | n + 1, l => exciseTimes w n (excise w l)

/-- Occurrences are taken out until there is none. -/
def exciseAll (w l : List α) : List α :=
  exciseTimes w (l.length + 1) l

/-- An end of the list agrees with the word as far as it goes. -/
def Stray (w l : List α) (k : ℕ) : Prop :=
  l.length < k + w.length ∧ l.drop k <+: w

/-- No end agrees with the beginning of the word, in the list and while the word is taken out. -/
def StrayFree (w : List α) : ℕ → List α → Prop
  | 0, _ => True
  | n + 1, l => (∀ k < l.length, ¬Stray w l k) ∧ StrayFree w n (excise w l)

instance (k : ℕ) : Decidable (Stray w l k) :=
  inferInstanceAs (Decidable (_ ∧ _))

instance StrayFree.decidable (w : List α) : (n : ℕ) → (l : List α) → Decidable (StrayFree w n l)
  | 0, _ => .isTrue trivial
  | n + 1, l =>
    have := StrayFree.decidable w n (excise w l)
    inferInstanceAs (Decidable (_ ∧ _))

/-- A search depends on what it asks of the elements. -/
theorem find?_congr_mem {α : Type*} {l : List α} {p q : α → Bool} (h : ∀ k ∈ l, p k = q k) : l.find? p = l.find? q := by
  induction l with
  | nil => rfl
  | cons k l ih =>
    rw [find?_cons, find?_cons, h k mem_cons_self, ih fun j hj => h j (mem_cons_of_mem _ hj)]

theorem of_find?_decide {p : ℕ → Prop} [DecidablePred p] {l : List ℕ} (h : (l.find? fun k => decide (p k)) = some k) :
    k ∈ l ∧ p k :=
  ⟨mem_of_find?_eq_some h, of_decide_eq_true (find?_some (p := fun k => decide (p k)) h)⟩

theorem firstIn_eq_some (h : firstIn w l = some k) : w <+: l.drop k ∧ k + w.length ≤ l.length := by
  have hp : w <+: l.drop k := isPrefixOf_iff_prefix.mp (find?_some (p := fun k => w.isPrefixOf (l.drop k)) h)
  have hk : k < l.length := mem_range.mp (mem_of_find?_eq_some h)
  have hlen := hp.length_le
  rw [length_drop] at hlen
  exact ⟨hp, by omega⟩

theorem excise_of_none (h : firstIn w l = none) : excise w l = l := by
  rw [excise, h]

theorem length_excise (h : firstIn w l = some k) : (excise w l).length + w.length = l.length := by
  have hk := (firstIn_eq_some h).2
  rw [excise, h]
  simp only [length_append, length_take, length_drop]
  omega

theorem exciseTimes_of_none (h : firstIn w l = none) (n : ℕ) : exciseTimes w n l = l := by
  induction n with
  | zero => rfl
  | succ n ih => rw [exciseTimes, excise_of_none h, ih]

theorem length_exciseTimes_le (n : ℕ) (l : List α) : (exciseTimes w n l).length ≤ l.length := by
  induction n generalizing l with
  | zero => exact le_rfl
  | succ n ih =>
    refine (ih _).trans ?_
    cases h : firstIn w l with
    | none => rw [excise_of_none h]
    | some k =>
      have := length_excise h
      omega

theorem length_excise_le (w l : List α) : (excise w l).length ≤ l.length :=
  length_exciseTimes_le (w := w) 1 l

theorem exciseAll_of_none (h : firstIn w l = none) : exciseAll w l = l :=
  exciseTimes_of_none h _

/-- As many times as there are elements are enough. -/
theorem exciseTimes_eq_of_lt (hw : w ≠ []) {m : ℕ} (hn : l.length < n) (hm : l.length < m) :
    exciseTimes w n l = exciseTimes w m l := by
  induction n generalizing l m with
  | zero => omega
  | succ n ih =>
    obtain ⟨m, rfl⟩ : ∃ m', m = m' + 1 := ⟨m - 1, by omega⟩
    cases h : firstIn w l with
    | none => rw [exciseTimes_of_none h, exciseTimes_of_none h]
    | some k =>
      have hlen := length_excise h
      have hpos := length_pos_of_ne_nil hw
      rw [exciseTimes, exciseTimes]
      exact ih (by omega) (by omega)

theorem exciseAll_of_some (hw : w ≠ []) (h : firstIn w l = some k) : exciseAll w l = exciseAll w (excise w l) := by
  have hlen := length_excise h
  have hpos := length_pos_of_ne_nil hw
  change exciseTimes w l.length (excise w l) = exciseTimes w ((excise w l).length + 1) (excise w l)
  exact exciseTimes_eq_of_lt hw (by omega) (Nat.lt_succ_self _)

/-- A word that occurs is taken out. -/
theorem exciseTimes_ne (hw : w ≠ []) (h : firstIn w l = some k) (n : ℕ) : exciseTimes w (n + 1) l ≠ l := by
  intro heq
  have hlen := length_exciseTimes_le (w := w) n (excise w l)
  have hshort := length_excise h
  have hpos := length_pos_of_ne_nil hw
  rw [← exciseTimes, heq] at hlen
  omega

end WlanDriver
