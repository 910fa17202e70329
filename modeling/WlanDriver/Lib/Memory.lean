import Mathlib.Data.List.Range
import Mathlib.Logic.Function.Basic
import Mathlib.Tactic.Common

/-!
# Byte memory

A memory gives the octet of every address. `read` and `write` work on lists of octets, `memcpy` copies octet
by octet in ascending order, and `memmove` as if through a buffer. What is written is read back
(`read_write`), what lies elsewhere is kept (`read_write_of_disjoint`), and a copy whose destination does not lie
inside of what is still to be copied is a write of what was read (`memcpy_eq`). A `Span` is what an access touches.
-/

namespace WlanDriver

open List

/-- The octet of every address. -/
abbrev Mem := ℕ → UInt8

namespace Mem

variable {m : Mem} {a b n k : ℕ} {bs cs : List UInt8}

/-- `n` octets from `a` on. -/
def read (m : Mem) (a n : ℕ) : List UInt8 :=
  (List.range n).map fun i => m (a + i)

/-- Put octets at `a`. -/
def write (m : Mem) (a : ℕ) (bs : List UInt8) : Mem :=
  fun x => if a ≤ x ∧ x < a + bs.length then bs.getD (x - a) 0 else m x

/-- `memcpy` : octet by octet, in ascending order. -/
def memcpy (m : Mem) (dst src : ℕ) : ℕ → Mem
  | 0 => m
  | n + 1 =>
    let m' := memcpy m dst src n
    Function.update m' (dst + n) (m' (src + n))

def memmove (m : Mem) (dst src n : ℕ) : Mem :=
  m.write dst (m.read src n)

@[simp] theorem length_read (m : Mem) (a n : ℕ) : (m.read a n).length = n := by
  simp [read]

theorem read_add (m : Mem) (a n k : ℕ) : m.read a (n + k) = m.read a n ++ m.read (a + n) k := by
  simp [read, range_add, Nat.add_assoc, Function.comp_def]

theorem read_congr {m' : Mem} (h : ∀ i < n, m (a + i) = m' (b + i)) : m.read a n = m'.read b n :=
  map_congr_left fun i hi => h i (mem_range.mp hi)

theorem read_eq_iff : m.read a n = bs ↔ bs.length = n ∧ ∀ i (hi : i < bs.length), m (a + i) = bs[i] := by
  constructor
  · rintro rfl
    exact ⟨length_read m a n, fun i hi => by simp [read]⟩
  · rintro ⟨rfl, h⟩
    refine ext_getElem (length_read m a _) fun i h₁ h₂ => ?_
    rw [← h i h₂]
    simp [read]

theorem read_part (h : a ≤ b) (hn : b - a + k ≤ n) : m.read b k = ((m.read a n).drop (b - a)).take k := by
  obtain ⟨i, rfl⟩ := Nat.exists_eq_add_of_le h
  rw [Nat.add_sub_cancel_left] at hn ⊢
  obtain ⟨r, rfl⟩ := Nat.exists_eq_add_of_le hn
  rw [Nat.add_assoc, read_add, drop_left' (length_read m a i), read_add,
    take_left' (length_read m (a + i) k)]

theorem drop_read (m : Mem) (a n k : ℕ) : (m.read a n).drop k = m.read (a + k) (n - k) := by
  rcases Nat.le_total k n with hk | hk
  · obtain ⟨r, rfl⟩ := Nat.exists_eq_add_of_le hk
    rw [read_add, drop_left' (length_read m a k), Nat.add_sub_cancel_left]
  · rw [drop_eq_nil_of_le (by rwa [length_read]), Nat.sub_eq_zero_of_le hk]
    rfl

/-- What is read in two parts. -/
theorem read_append_iff : m.read a (bs ++ cs).length = bs ++ cs ↔
    m.read a bs.length = bs ∧ m.read (a + bs.length) cs.length = cs := by
  rw [length_append, read_add]
  constructor
  · intro h
    exact append_inj h (length_read m a _)
  · rintro ⟨h, h'⟩
    rw [h, h']

theorem write_apply_of_not_mem {x : ℕ} (h : x < a ∨ a + bs.length ≤ x) : m.write a bs x = m x := by
  rw [write, if_neg (by omega)]

theorem write_apply_of_mem {i : ℕ} (h : i < bs.length) : m.write a bs (a + i) = bs[i] := by
  rw [write, if_pos (by omega), Nat.add_sub_cancel_left]
  simp [h]

@[simp] theorem read_write (m : Mem) (a : ℕ) (bs : List UInt8) : (m.write a bs).read a bs.length = bs :=
  read_eq_iff.mpr ⟨rfl, fun _ hi => write_apply_of_mem hi⟩

/-- What lies elsewhere is kept. -/
theorem read_write_of_disjoint (h : b + n ≤ a ∨ a + bs.length ≤ b) : (m.write a bs).read b n = m.read b n :=
  read_congr fun i hi => write_apply_of_not_mem (by omega)

theorem write_read (m : Mem) (a n : ℕ) : m.write a (m.read a n) = m := by
  funext x
  by_cases hx : a ≤ x ∧ x < a + n
  · obtain ⟨i, rfl⟩ := Nat.exists_eq_add_of_le hx.1
    rw [write_apply_of_mem (by rw [length_read]; omega)]
    simp [read]
  · rw [write_apply_of_not_mem (by rw [length_read]; omega)]

/-- The same write to memories that agree from `n` on. -/
theorem write_congr {m' : Mem} (h : ∀ x, n ≤ x → m x = m' x) {x : ℕ} (hx : n ≤ x) : m.write a bs x = m'.write a bs x := by
  unfold write
  split_ifs
  · rfl
  · exact h x hx

theorem write_append (m : Mem) (h : b = a + bs.length) (cs : List UInt8) :
    (m.write a bs).write b cs = m.write a (bs ++ cs) := by
  subst h
  funext x
  rcases Nat.lt_or_ge x (a + bs.length) with hx | hx
  · rw [write_apply_of_not_mem (.inl hx)]
    rcases Nat.lt_or_ge x a with hxa | hxa
    · rw [write_apply_of_not_mem (.inl hxa), write_apply_of_not_mem (.inl hxa)]
    · obtain ⟨i, rfl⟩ := Nat.exists_eq_add_of_le hxa
      have hi : i < bs.length := by omega
      rw [write_apply_of_mem hi, write_apply_of_mem (by simp; omega), getElem_append_left hi]
  · obtain ⟨i, rfl⟩ := Nat.exists_eq_add_of_le hx
    by_cases hi : i < cs.length
    · rw [write_apply_of_mem hi, Nat.add_assoc, write_apply_of_mem (by simp; omega),
        getElem_append_right (by omega)]
      simp
    · rw [write_apply_of_not_mem (.inr (by omega)), write_apply_of_not_mem (.inr (by omega)),
        write_apply_of_not_mem (.inr (by simp; omega))]

/-- A copy to lower addresses, or to a place apart. -/
theorem memcpy_eq {dst src : ℕ} (h : dst ≤ src ∨ src + n ≤ dst) :
    m.memcpy dst src n = m.write dst (m.read src n) := by
  induction n with
  | zero =>
    funext x
    rw [memcpy, write_apply_of_not_mem (by simp [read]; omega)]
  | succ n ih =>
    rw [memcpy, ih (by omega)]
    have hsrc : m.write dst (m.read src n) (src + n) = m (src + n) :=
      write_apply_of_not_mem (by rw [length_read]; omega)
    rw [hsrc, read_add, ← write_append m (by rw [length_read])]
    funext x
    have hone : m.read (src + n) 1 = [m (src + n)] := by simp [read]
    rw [hone]
    by_cases hx : x = dst + n
    · subst hx
      rw [Function.update_self]
      exact (@write_apply_of_mem (m.write dst (m.read src n)) _ [m (src + n)] 0 (by simp)).symm
    · rw [Function.update_of_ne hx, write_apply_of_not_mem (a := dst + n) (by simp; omega)]

end Mem

/-- `len` octets from `start` on. -/
structure Span where
  start : ℕ
  len : ℕ
  deriving DecidableEq

/-- The octets lie among the `n` from `base` on. -/
def Span.Inside (r : Span) (base n : ℕ) : Prop :=
  base ≤ r.start ∧ r.start + r.len ≤ base + n
  deriving Decidable

end WlanDriver
