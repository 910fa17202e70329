import Mathlib.Algebra.Group.Pi.Basic
import Mathlib.Algebra.Order.Group.Int
import Mathlib.Tactic.Abel

/-!
# Ledgers of acquired resources

A ledger counts, for every resource, acquisitions less releases. A party keeps a record from which
one can read what is taken for it. A step of the party is balanced when it changes the ledger
exactly as it changes what the record shows (`Balanced`); balanced steps compose, and a party that
came with nothing and goes with nothing leaves the ledger as it was.
-/

set_option linter.unusedSectionVars false

namespace WlanDriver

/-- For every resource, how often it was acquired less how often it was released. -/
abbrev Ledger (R : Type*) := R → ℤ

namespace Ledger

variable {R : Type*} [DecidableEq R]

def acquire (k : Ledger R) (r : R) : Ledger R :=
  k + Pi.single r 1

def release (k : Ledger R) (r : R) : Ledger R :=
  k - Pi.single r 1

/-- A resource that is held once if `b`. -/
def onceIf (b : Bool) (r : R) : Ledger R :=
  if b then Pi.single r 1 else 0

theorem onceIf_of_ne {r r' : R} (b : Bool) (h : r' ≠ r) : onceIf b r r' = 0 := by
  cases b
  · rfl
  · exact Pi.single_eq_of_ne h 1

/-- Giving back what was just taken changes nothing. -/
@[simp] theorem release_acquire (k : Ledger R) (r : R) : (k.acquire r).release r = k :=
  add_sub_cancel_right k _

/-- A release does not depend on what was taken meanwhile. -/
theorem release_add (k m : Ledger R) (r : R) : release (k + m) r = k.release r + m :=
  add_sub_right_comm k m _

variable {P : Type*} {holds : P → Ledger R} {p p' p'' : P} {k k' k'' : Ledger R}

/-- From the record `p` and the ledger `k` to `p'` and `k'` : what the ledger counts beyond the
record is unchanged. -/
def Balanced (holds : P → Ledger R) (p : P) (k : Ledger R) (p' : P) (k' : Ledger R) : Prop :=
  k' - holds p' = k - holds p

theorem Balanced.of_eq (hp : holds p' = holds p) : Balanced holds p k p' k := by
  rw [Balanced, hp]

theorem Balanced.trans (h : Balanced holds p k p' k') (h' : Balanced holds p' k' p'' k'') :
    Balanced holds p k p'' k'' :=
  Eq.trans h' h

/-- The ledger behind a balanced step. -/
theorem Balanced.eq_add (h : Balanced holds p k p' k') : k' = k - holds p + holds p' :=
  sub_eq_iff_eq_add.mp h

/-- Balanced steps lead from the ledger with a record to the ledger with the later record. -/
theorem Balanced.eq_of_add {m : Ledger R} (h : Balanced holds p (m + holds p) p' k') :
    k' = m + holds p' := by
  rw [h.eq_add, add_sub_cancel_right]

end Ledger

end WlanDriver
