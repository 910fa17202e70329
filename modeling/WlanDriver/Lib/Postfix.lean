import Mathlib.Data.List.Induction

/-!
# Postfix programs

The codes of a postfix program lie one behind the other in a buffer. The program is read back from the end of the buffer
(`readBack`), and carried out from its start on a stack of values (`foldlM` of a step). A chain is a term with further terms, an
operator behind each : it leaves what the operators give from the left (`foldlM_chain`).
-/

namespace WlanDriver.Postfix

open List

variable {σ β ν ι ω : Type*} {code : σ → List β} {dec : List β → Option (σ × List β)} {l : List σ}

/-- The symbols whose codes are in a buffer; `dec` takes a symbol off the reversed buffer. -/
def readBack (dec : List β → Option (σ × List β)) : ℕ → List β → Option (List σ)
  | _, [] => some []
  | 0, _ :: _ => none
  | fuel + 1, b :: bs => (dec (b :: bs)).bind fun r => (readBack dec fuel r.2).map (· ++ [r.1])

theorem readBack_flatMap {fuel : ℕ} (hdec : ∀ s bs, dec ((code s).reverse ++ bs) = some (s, bs)) (hne : ∀ s, code s ≠ [])
    (hfuel : l.length ≤ fuel) : readBack dec fuel (l.flatMap code).reverse = some l := by
  induction l using List.reverseRecOn generalizing fuel with
  | nil => cases fuel <;> rfl
  | append_singleton l s ih =>
    rw [length_append, length_singleton] at hfuel
    obtain ⟨fuel, rfl⟩ := Nat.exists_eq_add_of_lt hfuel
    have hs := hdec s (l.flatMap code).reverse
    rw [flatMap_append, flatMap_singleton, reverse_append]
    cases hb : (code s).reverse with
    | nil => exact absurd (reverse_eq_nil_iff.mp hb) (hne s)
    | cons b bs =>
      rw [hb] at hs
      rw [cons_append] at hs ⊢
      rw [readBack, hs, Option.bind_some, ih (by omega)]
      rfl

theorem length_le_flatMap (hne : ∀ s, code s ≠ []) (l : List σ) : l.length ≤ (l.flatMap code).length := by
  induction l with
  | nil => exact Nat.le_refl _
  | cons s l ih =>
    have hs := length_pos_iff.mpr (hne s)
    rw [flatMap_cons, length_append, length_cons]
    omega

/-- Where terms leave what stands for a value, the terms behind the first take the value `x` of what is before them to that of
the chain. -/
theorem foldlM_chain {α : Type*} {step : List ν → σ → Option (List ν)} {term : ι → List σ} {value : ι → α} {op : ω → σ}
    {sem : ω → α → α → α} (inj : α → ν) (hterm : ∀ i st, (term i).foldlM step st = some (inj (value i) :: st))
    (hop : ∀ o x y st, step (inj y :: inj x :: st) (op o) = some (inj (sem o x y) :: st)) (l : List (ω × ι)) (x : α)
    (st : List ν) : (l.flatMap fun p => term p.2 ++ [op p.1]).foldlM step (inj x :: st) =
      some (inj (l.foldl (fun x p => sem p.1 x (value p.2)) x) :: st) := by
  induction l generalizing x with
  | nil => rfl
  | cons p l ih =>
    have hfirst : (term p.2 ++ [op p.1]).foldlM step (inj x :: st) = some (inj (sem p.1 x (value p.2)) :: st) := by
      rw [foldlM_append, hterm]
      show (step _ _).bind _ = _
      rw [hop]
      rfl
    rw [flatMap_cons, foldlM_append, hfirst]
    exact ih _

end WlanDriver.Postfix
