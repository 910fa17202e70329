import Mathlib.Data.List.Basic
import Mathlib.Logic.Function.Basic
import Mathlib.Tactic.Common

/-!
# Custody of references

A party owns some references. It makes new ones and releases what it owns; to make one it owns, or to release one it does
not own, is an error (`Custody.run` is `none`). What a party does with its own references it also does beside others
(`run_frame`), and under other names (`run_map`).
-/

namespace WlanDriver.Custody

open List

variable {ρ σ : Type*}

/-- A reference is made or released. -/
inductive Event (ρ : Type*)
  | make (r : ρ)
  | release (r : ρ)
  deriving DecidableEq

def Event.map (f : ρ → σ) : Event ρ → Event σ
  | .make r => .make (f r)
  | .release r => .release (f r)

variable [DecidableEq ρ] [DecidableEq σ]

/-- One event; `own` are the references that the party owns. -/
def exec (own : List ρ) : Event ρ → Option (List ρ)
  | .make r => if r ∈ own then none else some (r :: own)
  | .release r => if r ∈ own then some (own.erase r) else none

/-- The events in order. -/
def run (es : List (Event ρ)) (own : List ρ) : Option (List ρ) :=
  es.foldlM exec own

variable {es es' : List (Event ρ)} {own own' own'' rest : List ρ} {r : ρ}

@[simp] theorem run_nil : run [] own = some own := rfl

theorem run_cons (e : Event ρ) : run (e :: es) own = (exec own e).bind (run es) := rfl

theorem run_append (es es' : List (Event ρ)) (own : List ρ) : run (es ++ es') own = (run es own).bind (run es') :=
  foldlM_append

/-- Events one after the other. -/
theorem run_trans (h : run es own = some own') (h' : run es' own' = some own'') : run (es ++ es') own = some own'' := by
  rw [run_append, h]
  exact h'

/-- The reference in front is released. -/
theorem run_release (r : ρ) (own : List ρ) : run [.release r] (r :: own) = some own := by
  simp [run, exec]

theorem run_make (h : r ∉ own) : run [.make r] own = some (r :: own) := by
  simp [run, exec, h]

/-- Other references do not matter, as long as the party does not make them. -/
theorem run_frame (h : run es own = some own') (hrest : ∀ r ∈ rest, .make r ∉ es) :
    run es (own ++ rest) = some (own' ++ rest) := by
  induction es generalizing own with
  | nil => rw [← Option.some.inj h, run_nil]
  | cons e es ih =>
    rw [run_cons] at h ⊢
    obtain ⟨mid, hexec, hrun⟩ := Option.bind_eq_some_iff.mp h
    have hmid : exec (own ++ rest) e = some (mid ++ rest) := by
      cases e with
      | make r =>
        have hr : r ∉ rest := fun hmem => hrest r hmem mem_cons_self
        dsimp only [exec] at hexec ⊢
        split_ifs at hexec with hown
        rw [if_neg (by simp [hown, hr]), ← Option.some.inj hexec]
        rfl
      | release r =>
        dsimp only [exec] at hexec ⊢
        split_ifs at hexec with hown
        rw [if_pos (mem_append_left _ hown), ← Option.some.inj hexec, erase_append_left _ hown]
    rw [hmid]
    exact ih hrun fun r hr hmem => hrest r hr (mem_cons_of_mem _ hmem)

/-- The same under other names. -/
theorem run_map {f : ρ → σ} (hf : Function.Injective f) (es : List (Event ρ)) (own : List ρ) :
    run (es.map (Event.map f)) (own.map f) = (run es own).map (List.map f) := by
  induction es generalizing own with
  | nil => rfl
  | cons e es ih =>
    have hexec : exec (own.map f) (e.map f) = (exec own e).map (List.map f) := by
      cases e with
      | make r =>
        simp only [Event.map, exec, mem_map_of_injective hf]
        split_ifs <;> rfl
      | release r =>
        simp only [Event.map, exec, mem_map_of_injective hf]
        split_ifs
        · rw [Option.map_some, map_erase hf]
        · rfl
    rw [map_cons, run_cons, run_cons, hexec]
    cases exec own e with
    | none => rfl
    | some mid => exact ih mid

end WlanDriver.Custody
