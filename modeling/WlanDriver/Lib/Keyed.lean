import Mathlib.Data.List.Nodup
import WlanDriver.Lib.FirstMatch

/-!
# Lists with keys

A table that is searched by a key is a list : `look` is its first element with a key, `alter` edits that element and
appends one if there is none, `replaceFirst` edits it only, `erase` takes it out. What they do is said by what `look` finds
behind them, and `Distinct` (no key comes twice) is kept by each.
-/

namespace WlanDriver.Keyed

open List

variable {α κ : Type*} [DecidableEq κ] (key : α → κ)

/-- The first element with the key. -/
def look (k : κ) (l : List α) : Option α :=
  l.find? fun a => key a = k

/-- The first element with the key becomes its value under `f`; if there is none, one is appended. -/
def alter (k : κ) (f : Option α → α) : List α → List α
  | [] => [f none]
  | a :: l => if key a = k then f (some a) :: l else a :: alter k f l

/-- The first element with the key becomes its value under `f`. -/
def modify (k : κ) (f : α → α) (l : List α) : List α :=
  replaceFirst (fun a => key a = k) f l

/-- The first element with the key is taken out. -/
def erase (k : κ) (l : List α) : List α :=
  l.eraseP fun a => key a = k

/-- No key comes twice. -/
def Distinct (l : List α) : Prop :=
  (l.map key).Nodup

variable {key} {k k' : κ} {a : α} {f : Option α → α} {g : α → α} {l : List α}

@[simp] theorem look_nil : look key k [] = none :=
  rfl

theorem look_cons : look key k (a :: l) = if key a = k then some a else look key k l := by
  unfold look
  by_cases h : key a = k <;> simp [h]

theorem key_of_look (h : look key k l = some a) : key a = k := by
  simpa using find?_some h

theorem mem_of_look (h : look key k l = some a) : a ∈ l :=
  mem_of_find?_eq_some h

theorem look_eq_none : look key k l = none ↔ ∀ a ∈ l, key a ≠ k := by
  simp [look]

theorem look_append_singleton : look key k (l ++ [a]) = (look key k l).or (if key a = k then some a else none) := by
  unfold look
  rw [find?_append]
  by_cases h : key a = k <;> simp [h]

/-- An element with a new key can be appended. -/
theorem Distinct.append_singleton (hl : Distinct key l) (ha : look key (key a) l = none) : Distinct key (l ++ [a]) := by
  unfold Distinct
  rw [map_append, nodup_append]
  refine ⟨hl, by simp, fun x hx y hy => ?_⟩
  obtain ⟨b, hb, rfl⟩ := mem_map.mp hx
  rw [map_singleton, mem_singleton] at hy
  exact hy ▸ look_eq_none.mp ha b hb

/-- In a list without repeated keys an element is found by its key. -/
theorem look_of_mem (hl : Distinct key l) (ha : a ∈ l) : look key (key a) l = some a := by
  induction l with
  | nil => simp at ha
  | cons b l ih =>
    rw [Distinct, map_cons, nodup_cons] at hl
    rw [look_cons]
    split_ifs with hk
    · rcases mem_cons.mp ha with rfl | ha
      · rfl
      · exact absurd (mem_map_of_mem ha) (hk ▸ hl.1)
    · rcases mem_cons.mp ha with rfl | ha
      · exact absurd rfl hk
      · exact ih hl.2 ha

theorem look_alter (hf : ∀ o : Option α, (∀ a ∈ o, key a = k) → key (f o) = k) :
    look key k' (alter key k f l) = if k' = k then some (f (look key k l)) else look key k' l := by
  induction l with
  | nil =>
    rw [alter, look_cons, hf none (by simp)]
    simp [eq_comm]
  | cons a l ih =>
    unfold alter
    by_cases ha : key a = k
    · have hkey : key (f (some a)) = k := hf _ (by simpa using ha)
      rw [if_pos ha, look_cons, look_cons, hkey, if_pos ha, look_cons, ha]
      by_cases hk : k' = k
      · rw [if_pos hk.symm, if_pos hk]
      · rw [if_neg (Ne.symm hk), if_neg hk, if_neg (Ne.symm hk)]
    · rw [if_neg ha, look_cons, ih, look_cons, if_neg ha, look_cons]
      by_cases hk : k' = k
      · rw [if_pos hk, if_neg (hk ▸ ha), if_pos hk]
      · rw [if_neg hk, if_neg hk]

theorem map_key_alter (hf : ∀ o : Option α, (∀ a ∈ o, key a = k) → key (f o) = k) :
    (alter key k f l).map key = if k ∈ l.map key then l.map key else l.map key ++ [k] := by
  induction l with
  | nil => simp [alter, hf none (by simp)]
  | cons a l ih =>
    unfold alter
    by_cases ha : key a = k
    · simp [ha, hf (some a) (by simpa using ha)]
    · simp only [ha, if_false, map_cons, ih, mem_cons, Ne.symm ha, false_or]
      split_ifs <;> simp

theorem Distinct.alter (hl : Distinct key l) (hf : ∀ o : Option α, (∀ a ∈ o, key a = k) → key (f o) = k) :
    Distinct key (alter key k f l) := by
  unfold Distinct
  rw [map_key_alter hf]
  split_ifs with hk
  · exact hl
  · exact nodup_append.mpr ⟨hl, by simp, by simpa using fun a ha h => hk (mem_map.mpr ⟨a, ha, h⟩)⟩

theorem modify_cons : modify key k g (a :: l) = if key a = k then g a :: l else a :: modify key k g l := by
  unfold modify
  rw [replaceFirst]
  simp

theorem look_modify (hg : ∀ a, key (g a) = key a) :
    look key k' (modify key k g l) = if k' = k then (look key k l).map g else look key k' l := by
  induction l with
  | nil => simp [modify, replaceFirst]
  | cons a l ih =>
    rw [modify_cons]
    by_cases ha : key a = k
    · rw [if_pos ha, look_cons, hg, look_cons, if_pos ha, look_cons, ha]
      by_cases hk : k' = k
      · rw [if_pos hk.symm, if_pos hk]
        rfl
      · rw [if_neg (Ne.symm hk), if_neg hk, if_neg (Ne.symm hk)]
    · rw [if_neg ha, look_cons, ih, look_cons, if_neg ha, look_cons]
      by_cases hk : k' = k
      · rw [if_pos hk, if_neg (hk ▸ ha), if_pos hk]
      · rw [if_neg hk, if_neg hk]

theorem map_key_modify (hg : ∀ a, key (g a) = key a) : (modify key k g l).map key = l.map key := by
  cases h : look key k l with
  | none => rw [modify, replaceFirst_of_none h]
  | some a => exact (replaceFirst_of_find h).map_eq (hg a)

theorem Distinct.modify (hl : Distinct key l) (hg : ∀ a, key (g a) = key a) : Distinct key (modify key k g l) := by
  unfold Distinct
  rw [map_key_modify hg]
  exact hl

theorem length_modify (hg : ∀ a, key (g a) = key a) : (modify key k g l).length = l.length := by
  rw [← length_map key, map_key_modify hg, length_map]

/-- An edited element had the key, and the others are old. -/
theorem mem_modify (h : a ∈ modify key k g l) : a ∈ l ∨ ∃ b ∈ l, key b = k ∧ a = g b := by
  obtain ⟨b, hb, rfl | ⟨hk, rfl⟩⟩ := mem_replaceFirst h
  · exact .inl hb
  · exact .inr ⟨b, hb, by simpa using hk, rfl⟩

theorem erase_of_look_none (h : look key k l = none) : erase key k l = l :=
  eraseP_of_none h

theorem Distinct.erase (hl : Distinct key l) : Distinct key (erase key k l) :=
  hl.sublist (eraseP_sublist.map key)

theorem look_erase (hl : Distinct key l) :
    look key k' (erase key k l) = if k' = k then none else look key k' l := by
  induction l with
  | nil => simp [Keyed.erase]
  | cons a l ih =>
    rw [Distinct, map_cons, nodup_cons] at hl
    unfold Keyed.erase at *
    by_cases ha : key a = k
    · rw [eraseP_cons_of_pos (by simpa using ha), look_cons, ha]
      by_cases hk : k' = k
      · rw [if_pos hk, look_eq_none]
        exact fun b hb hkey => hl.1 (ha.trans (hk.symm.trans hkey.symm) ▸ mem_map_of_mem hb)
      · rw [if_neg hk, if_neg (Ne.symm hk)]
    · rw [eraseP_cons_of_neg (by simpa using ha), look_cons, ih hl.2, look_cons]
      by_cases hk : k' = k
      · rw [if_pos hk, if_neg (hk ▸ ha), if_pos hk]
      · rw [if_neg hk, if_neg hk]

/-- In a list without repeated keys, what is found by a key is what has it. -/
theorem look_eq_some (hl : Distinct key l) : look key k l = some a ↔ a ∈ l ∧ key a = k :=
  ⟨fun h => ⟨mem_of_look h, key_of_look h⟩, fun h => h.2 ▸ look_of_mem hl h.1⟩

theorem mem_erase (hl : Distinct key l) : a ∈ erase key k l ↔ a ∈ l ∧ key a ≠ k := by
  constructor
  · intro h
    refine ⟨mem_of_mem_eraseP h, fun hk => ?_⟩
    have hlook := look_of_mem (hl.erase (k := k)) h
    rw [look_erase hl, if_pos hk] at hlook
    exact Option.some_ne_none a hlook.symm
  · rintro ⟨h, hk⟩
    have hlook : look key (key a) (erase key k l) = some a := by rw [look_erase hl, if_neg hk, look_of_mem hl h]
    exact mem_of_look hlook

/-! ## Two keys -/

section TwoKeys

variable {κ' : Type*} [DecidableEq κ'] {key' : α → κ'} {c : κ'}

/-- An element that both keys find first is edited alike. -/
theorem modify_eq_modify (h : look key k l = some a) (h' : look key' c l = some a) :
    modify key k g l = modify key' c g l :=
  replaceFirst_congr h h'

theorem erase_cons : erase key k (a :: l) = if key a = k then l else a :: erase key k l := by
  unfold erase
  rw [eraseP_cons]
  simp

/-- An element that both keys find first is taken out alike. -/
theorem erase_eq_erase (h : look key k l = some a) (h' : look key' c l = some a) :
    erase key k l = erase key' c l := by
  induction l with
  | nil => rfl
  | cons b l ih =>
    rw [look_cons] at h h'
    rw [erase_cons, erase_cons]
    split_ifs at h h' ⊢ with hk hc
    · rfl
    · exact absurd (Option.some.inj h ▸ key_of_look h') hc
    · exact absurd (Option.some.inj h' ▸ key_of_look h) hk
    · rw [ih h h']

end TwoKeys

end WlanDriver.Keyed
