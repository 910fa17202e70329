import Mathlib.Algebra.GroupWithZero.Nat
import Mathlib.Data.List.Perm.Subperm
import Mathlib.Algebra.Order.BigOperators.Group.List
import Mathlib.Algebra.Order.Group.Nat

/-!
# Merging two lists by a key

`mergeByKey` puts the entries of a list of one's own in the place of those of a base list : a key of both has its own entries
where the base has the key first, a key of the base alone keeps the entries of the base if `keep` says so, and the
entries of the other own keys come last, those of the keys of `skip` excepted. Of each key the merged list has the entries
of one of the two lists, in their order (`ofKey_mergeByKey`), and it has no entry more often than the two lists together
(`subperm_mergeByKey`).
-/

namespace WlanDriver

open List

variable {α κ : Type*} [DecidableEq κ] (key : α → κ) (keep skip : κ → Prop) [DecidablePred keep] [DecidablePred skip]
  (own : List α)

/-- The entries of a key. -/
def ofKey (k : κ) (l : List α) : List α :=
  l.filter fun x => key x = k

section OfKey

variable {key} {k : κ} {x : α} {l m : List α}

@[simp] theorem ofKey_nil : ofKey key k [] = [] :=
  rfl

@[simp] theorem ofKey_append : ofKey key k (l ++ m) = ofKey key k l ++ ofKey key k m :=
  filter_append ..

theorem ofKey_cons_self (h : key x = k) : ofKey key k (x :: l) = x :: ofKey key k l := by
  rw [ofKey, filter_cons_of_pos (by simpa using h), ofKey]

theorem ofKey_cons_of_ne (h : key x ≠ k) : ofKey key k (x :: l) = ofKey key k l := by
  rw [ofKey, filter_cons_of_neg (by simpa using h), ofKey]

theorem ofKey_eq_nil (h : k ∉ l.map key) : ofKey key k l = [] := by
  refine filter_eq_nil_iff.mpr fun x hx => ?_
  have hne : key x ≠ k := fun hk => h (mem_map.mpr ⟨x, hx, hk⟩)
  simpa using hne

theorem ofKey_ne_nil (h : k ∈ l.map key) : ofKey key k l ≠ [] := by
  obtain ⟨x, hx, hk⟩ := mem_map.mp h
  exact ne_nil_of_mem (mem_filter.mpr ⟨hx, by simpa using hk⟩)

@[simp] theorem ofKey_ofKey_self : ofKey key k (ofKey key k l) = ofKey key k l := by
  unfold ofKey
  rw [filter_filter]
  simp

theorem ofKey_ofKey_of_ne {k' : κ} (h : k ≠ k') : ofKey key k (ofKey key k' l) = [] := by
  refine filter_eq_nil_iff.mpr fun x hx => ?_
  have hk : key x = k' := by simpa using (mem_filter.mp hx).2
  simpa [hk] using h.symm

theorem ofKey_filter (p : κ → Prop) [DecidablePred p] :
    ofKey key k (l.filter fun x => p (key x)) = if p k then ofKey key k l else [] := by
  unfold ofKey
  rw [filter_filter]
  split
  · next hp =>
    refine filter_congr fun x _ => ?_
    by_cases hk : key x = k
    · simp [hk, hp]
    · simp [hk]
  · next hp =>
    refine filter_eq_nil_iff.mpr fun x _ => ?_
    by_cases hk : key x = k
    · simp [hk, hp]
    · simp [hk]

theorem count_ofKey [BEq α] [LawfulBEq α] (key : α → κ) (x : α) (l : List α) :
    (ofKey key (key x) l).count x = l.count x :=
  count_filter (by simp)

end OfKey

/-- What `mergeByKey` makes of the base list, behind the entries `seen`. -/
def mergeBase : List α → List α → List α
  | _, [] => []
  | seen, x :: xs =>
    (if key x ∈ own.map key then if key x ∈ seen.map key then [] else ofKey key (key x) own
      else if keep (key x) then [x] else []) ++ mergeBase (seen ++ [x]) xs

/-- The merged list. -/
def mergeByKey (base : List α) : List α :=
  mergeBase key keep own [] base ++ own.filter fun x => ¬skip (key x) ∧ key x ∉ base.map key

variable {key keep skip own}

theorem ofKey_mergeBase (k : κ) : ∀ (seen base : List α), ofKey key k (mergeBase key keep own seen base) =
    if k ∈ own.map key then if k ∈ seen.map key ∨ k ∉ base.map key then [] else ofKey key k own
    else if keep k then ofKey key k base else []
  | seen, [] => by
    simp [mergeBase]
  | seen, x :: xs => by
    have ih := ofKey_mergeBase k (seen ++ [x]) xs
    rw [mergeBase, ofKey_append, ih]
    by_cases hx : key x = k
    · -- the turn that the key is met in : everything behind it adds nothing of an own key
      subst hx
      by_cases hown : key x ∈ own.map key
      · by_cases hseen : key x ∈ seen.map key
        · simp [hown, hseen]
        · rw [if_pos hown, if_neg hseen, if_pos hown, if_pos hown, if_pos (by simp), if_neg (by simp [hseen]),
            ofKey_ofKey_self, append_nil]
      · by_cases hkeep : keep (key x)
        · simp [hown, hkeep, ofKey_cons_self]
        · simp [hown, hkeep]
    · have hhead : ofKey key k (if key x ∈ own.map key then if key x ∈ seen.map key then [] else ofKey key (key x) own
          else if keep (key x) then [x] else []) = [] := by
        split_ifs
        · rfl
        · exact ofKey_ofKey_of_ne (Ne.symm hx)
        · exact ofKey_cons_of_ne hx
        · rfl
      have hseen : k ∈ (seen ++ [x]).map key ↔ k ∈ seen.map key := by
        rw [map_append, mem_append, map_singleton, mem_singleton, or_iff_left (Ne.symm hx)]
      have hbase : k ∈ (x :: xs).map key ↔ k ∈ xs.map key := by
        rw [map_cons, mem_cons, or_iff_right (Ne.symm hx)]
      rw [hhead, nil_append, ofKey_cons_of_ne hx]
      simp only [hseen, hbase]

/-- Of each key the entries of the one list or of the other. -/
theorem ofKey_mergeByKey (k : κ) (base : List α) : ofKey key k (mergeByKey key keep skip own base) =
    if k ∈ own.map key then if k ∈ base.map key ∨ ¬skip k then ofKey key k own else []
    else if keep k then ofKey key k base else [] := by
  rw [mergeByKey, ofKey_append, ofKey_mergeBase, ofKey_filter fun k => ¬skip k ∧ k ∉ base.map key]
  by_cases hown : k ∈ own.map key
  · by_cases hbase : k ∈ base.map key
    · simp [hown, hbase]
    · simp [hown, hbase]
  · simp [hown, ofKey_eq_nil hown]

/-- No entry comes more often than in what is kept of the base and the own entries together. -/
theorem subperm_mergeByKey (base : List α) :
    (mergeByKey key keep skip own base).Subperm ((base.filter fun x => keep (key x)) ++ own) := by
  classical
  refine subperm_ext_iff.mpr fun x _ => ?_
  rw [← count_ofKey key, ofKey_mergeByKey, count_append]
  split_ifs with hown hbase hkeep
  · rw [count_ofKey]
    exact Nat.le_add_left _ _
  · exact Nat.zero_le _
  · rw [count_ofKey, count_filter (by simpa using hkeep)]
    exact Nat.le_add_right _ _
  · exact Nat.zero_le _

/-- A size that is added up over the entries is not larger than of what is kept and the own entries together. -/
theorem sum_mergeByKey_le (size : α → ℕ) (base : List α) :
    ((mergeByKey key keep skip own base).map size).sum ≤
      ((base.filter fun x => keep (key x)).map size).sum + (own.map size).sum := by
  obtain ⟨l, hperm, hsub⟩ : (mergeByKey key keep skip own base).Subperm _ := subperm_mergeByKey base
  calc ((mergeByKey key keep skip own base).map size).sum
      = (l.map size).sum := ((hperm.map size).sum_eq).symm
    _ ≤ (((base.filter fun x => keep (key x)) ++ own).map size).sum :=
        (hsub.map size).sum_le_sum fun _ _ => Nat.zero_le _
    _ = _ := by rw [map_append, sum_append]

end WlanDriver
