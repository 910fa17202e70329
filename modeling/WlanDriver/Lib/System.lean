import Mathlib.Logic.Relation
import Mathlib.Data.Option.Basic
import Mathlib.Algebra.Order.BigOperators.Group.Finset
import Mathlib.Data.Fintype.BigOperators
import Mathlib.Tactic.Common

/-!
# Labelled transition systems

A `System` has initial states and a partial step function : the label of a step fixes
every choice the environment makes, so a step has at most one outcome and a run can be
evaluated (`System.run`).

`ReachableWhen C` is what runs reach when every step, taken in a state `s` with a label
`a`, meets `C s a`; `Reachable` puts no condition on the steps. An invariant of a system is
proved once with `ReachableWhen.invariant`, from the initial states and one step, and a
closed run gives a reachable state with `reachableWhen_of_runWhen`; runs whose steps leave less and less are bounded
(`length_le_of_runWhen`). `Reaches` relates the two ends of a run.

The second half counts the threads of a pool : a pool is a function `pc : ι → P` on a finite
type, one thread moves at a time (`Function.update`), and `poolSum w pc` adds the weight
`w` of every thread's place.
-/

set_option linter.unusedSectionVars false

namespace WlanDriver

/-- A labelled transition system. -/
structure System (σ α : Type*) where
  init : σ → Prop
  step : σ → α → Option σ

namespace System

/-- A step with a guard was taken : the guard held, and the step led where it leads. -/
theorem of_guard {σ : Type*} {p : Prop} [Decidable p] {s s' : σ} (h : (if p then some s else none) = some s') :
    p ∧ s = s' :=
  (Option.ite_none_right_eq_some.mp h).imp_right Option.some.inj

variable {σ α : Type*} (M : System σ α)

/-- The states that runs reach when every step meets `C` in the state it is taken from. -/
inductive ReachableWhen (C : σ → α → Prop) : σ → Prop
  | init {s : σ} (h : M.init s) : ReachableWhen C s
  | step {s s' : σ} {a : α} (hs : ReachableWhen C s) (hc : C s a) (h : M.step s a = some s') :
      ReachableWhen C s'

/-- The states that runs reach. -/
def Reachable (s : σ) : Prop :=
  M.ReachableWhen (fun _ _ => True) s

variable {M}

/-- What holds initially and is kept by every step that meets `C` holds along every run whose
steps meet `C`. -/
theorem ReachableWhen.invariant {C : σ → α → Prop} {I : σ → Prop}
    (hinit : ∀ s, M.init s → I s)
    (hstep : ∀ s a s', I s → C s a → M.step s a = some s' → I s') {s : σ}
    (h : M.ReachableWhen C s) : I s := by
  induction h with
  | init h => exact hinit _ h
  | step _ hc h ih => exact hstep _ _ _ ih hc h

/-- The invariant rule for unconditioned runs. -/
theorem Reachable.invariant {I : σ → Prop} (hinit : ∀ s, M.init s → I s)
    (hstep : ∀ s a s', I s → M.step s a = some s' → I s') {s : σ} (h : M.Reachable s) : I s :=
  ReachableWhen.invariant hinit (fun s a s' hi _ hs => hstep s a s' hi hs) h

variable (M)

/-- Run labels from `s`, as long as every step meets `C`. -/
def runWhen (C : σ → α → Prop) [∀ s a, Decidable (C s a)] (s : σ) : List α → Option σ
  | [] => some s
  | a :: l => if C s a then (M.step s a).bind fun s' => runWhen C s' l else none

/-- Run labels from `s`. -/
def run (s : σ) (l : List α) : Option σ :=
  M.runWhen (fun _ _ => True) s l

variable {M}

theorem reachableWhen_of_runWhen {C : σ → α → Prop} [∀ s a, Decidable (C s a)] :
    ∀ {l : List α} {s s' : σ}, M.ReachableWhen C s → M.runWhen C s l = some s' →
      M.ReachableWhen C s'
  | [], s, s', hs, h => by
    simp only [runWhen, Option.some.injEq] at h
    exact h ▸ hs
  | a :: l, s, s', hs, h => by
    unfold runWhen at h
    split_ifs at h with hc
    obtain ⟨t, ht, hrun⟩ := Option.bind_eq_some_iff.mp h
    exact reachableWhen_of_runWhen (hs.step hc ht) hrun

/-- A run goes on where its first part ends. -/
theorem runWhen_append {C : σ → α → Prop} [∀ s a, Decidable (C s a)] {s t : σ} {l l' : List α}
    (h : M.runWhen C s l = some t) : M.runWhen C s (l ++ l') = M.runWhen C t l' := by
  induction l generalizing s with
  | nil =>
    obtain rfl := Option.some.inj h
    rfl
  | cons a l ih =>
    rw [runWhen] at h
    split_ifs at h with hc
    obtain ⟨u, hu, hrun⟩ := Option.bind_eq_some_iff.mp h
    rw [List.cons_append, runWhen, if_pos hc, hu]
    exact ih hrun

/-- A weaker condition lets the same labels run. -/
theorem runWhen_mono {C C' : σ → α → Prop} [∀ s a, Decidable (C s a)] [∀ s a, Decidable (C' s a)]
    (hC : ∀ s a, C s a → C' s a) {s t : σ} {l : List α} (h : M.runWhen C s l = some t) :
    M.runWhen C' s l = some t := by
  induction l generalizing s with
  | nil => exact h
  | cons a l ih =>
    rw [runWhen] at h ⊢
    split_ifs at h with hc
    obtain ⟨u, hu, hrun⟩ := Option.bind_eq_some_iff.mp h
    rw [if_pos (hC s a hc), hu]
    exact ih hrun

/-- Labels that lead from each state of a sequence to the next lead along all of it. -/
theorem runWhen_replicate {C : σ → α → Prop} [∀ s a, Decidable (C s a)] (f : ℕ → σ) (l : List α) :
    ∀ n, (∀ k < n, M.runWhen C (f k) l = some (f (k + 1))) → M.runWhen C (f 0) (List.replicate n l).flatten = some (f n)
  | 0, _ => rfl
  | n + 1, h => by
    have hn := runWhen_replicate f l n fun k hk => h k (Nat.lt_succ_of_lt hk)
    rw [List.replicate_succ', List.flatten_append, runWhen_append hn, List.flatten_singleton]
    exact h n (Nat.lt_succ_self n)

/-- A run whose end passes the check `P` reaches a state with `P`. -/
theorem exists_reachableWhen_of_runWhen {C : σ → α → Prop} [∀ s a, Decidable (C s a)] {P : σ → Bool}
    {l : List α} {s : σ} (hs : M.ReachableWhen C s) (h : (M.runWhen C s l).any P = true) :
    ∃ s', M.ReachableWhen C s' ∧ P s' = true := by
  cases hrun : M.runWhen C s l with
  | none => simp [hrun] at h
  | some s' => exact ⟨s', reachableWhen_of_runWhen hs hrun, by simpa [hrun] using h⟩

theorem exists_reachable_of_run {P : σ → Bool} {l : List α} {s : σ} (hs : M.init s)
    (h : (M.run s l).any P = true) : ∃ s', M.Reachable s' ∧ P s' = true :=
  exists_reachableWhen_of_runWhen (.init hs) h

/-- Where every step leaves less, a run is at most as long as what is left at its start. -/
theorem length_le_of_runWhen {C : σ → α → Prop} [∀ s a, Decidable (C s a)] {I : σ → Prop} {r : σ → ℕ}
    (hstep : ∀ s a s', I s → C s a → M.step s a = some s' → I s' ∧ r s' < r s) {s t : σ} {l : List α} (hs : I s)
    (h : M.runWhen C s l = some t) : l.length + r t ≤ r s := by
  induction l generalizing s with
  | nil =>
    obtain rfl := Option.some.inj h
    simp
  | cons a l ih =>
    rw [runWhen] at h
    split_ifs at h with hc
    obtain ⟨u, hu, hrun⟩ := Option.bind_eq_some_iff.mp h
    obtain ⟨hinv, hlt⟩ := hstep s a u hs hc hu
    have hrest := ih hinv hrun
    rw [List.length_cons]
    omega

/-! ## Runs between two states -/

variable (M)

/-- Some steps lead from `s` to `s'`. -/
def Reaches : σ → σ → Prop :=
  Relation.ReflTransGen fun s s' => ∃ a, M.step s a = some s'

variable {M}

theorem Reaches.of_step {s s' : σ} (a : α) (h : M.step s a = some s') : M.Reaches s s' :=
  .single ⟨a, h⟩

theorem Reaches.trans {s s' s'' : σ} (h : M.Reaches s s') (h' : M.Reaches s' s'') :
    M.Reaches s s'' :=
  Relation.ReflTransGen.trans h h'

end System

/-! ## Pools of threads -/

section Pool

variable {ι P : Type*} [Fintype ι] [DecidableEq ι]

/-- The weight of all the threads of a pool. -/
def poolSum (w : P → ℕ) (pc : ι → P) : ℕ :=
  ∑ i, w (pc i)

/-- Moving one thread changes the sum by the change of its own weight. -/
theorem poolSum_update (w : P → ℕ) (pc : ι → P) (i : ι) (p : P) :
    poolSum w (Function.update pc i p) + w (pc i) = poolSum w pc + w p := by
  unfold poolSum
  have hcomp : ∀ j, w (Function.update pc i p j) = Function.update (fun k => w (pc k)) i (w p) j :=
    fun j => by
      by_cases h : j = i
      · subst h
        simp
      · simp [h]
  simp only [hcomp]
  rw [Finset.sum_update_of_mem (Finset.mem_univ i), ← Finset.add_sum_erase _ _ (Finset.mem_univ i),
    Finset.sdiff_singleton_eq_erase]
  omega

/-- A move between places of one weight keeps the sum. -/
theorem poolSum_update_of_eq {w : P → ℕ} {pc : ι → P} {i : ι} {p : P} (h : w p = w (pc i)) :
    poolSum w (Function.update pc i p) = poolSum w pc := by
  have := poolSum_update w pc i p
  omega

/-- A thread weighs at most what its pool weighs. -/
theorem le_poolSum (w : P → ℕ) (pc : ι → P) (i : ι) : w (pc i) ≤ poolSum w pc :=
  Finset.single_le_sum (f := fun j => w (pc j)) (fun _ _ => Nat.zero_le _) (Finset.mem_univ i)

/-- A pool of threads without weight weighs nothing, and conversely. -/
theorem poolSum_eq_zero {w : P → ℕ} {pc : ι → P} : poolSum w pc = 0 ↔ ∀ i, w (pc i) = 0 := by
  simp [poolSum]

end Pool

end WlanDriver
