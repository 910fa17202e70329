import Mathlib.Data.Nat.Basic
import Mathlib.Tactic.Common

/-!
# The deferred request

A switch to an interface that is not ready is kept as the pending request : a name, a
generation and a state, with two flags about the events that may retry it, all under
`bridge_pending_lock`. Each function that takes the lock is one function of the record here.

What such a function can do to the name, the generation and the state is one of five things
(`Pending.Change`) : nothing, an admission, a cancellation, the start of an attempt, or the return
of an attempt to waiting. Each function has one lemma that says which of them it did and when.
-/

namespace WlanDriver.Bridge

/-- An interface name, the octets before the terminating NUL. -/
def IfName : Type := List UInt8

instance : DecidableEq IfName := inferInstanceAs (DecidableEq (List UInt8))

def ifnamsiz : ℕ := 16

/-- `strncpy` into a name buffer that is then terminated. -/
def IfName.copy (n : IfName) : IfName :=
  List.take (ifnamsiz - 1) n

/-- The empty name. -/
def IfName.empty : IfName :=
  ([] : List UInt8)

def mlan0 : IfName :=
  [0x6d, 0x6c, 0x61, 0x6e, 0x30]

def mlan1 : IfName :=
  [0x6d, 0x6c, 0x61, 0x6e, 0x31]

def eth0 : IfName :=
  [0x65, 0x74, 0x68, 0x30]

theorem IfName.copy_eq_empty_iff {n : IfName} : n.copy = .empty ↔ n = .empty := by
  unfold IfName.copy IfName.empty
  constructor
  · intro h
    rcases List.take_eq_nil_iff.mp h with h | h
    · simp [ifnamsiz] at h
    · exact h
  · rintro rfl
    rfl

/-! ## Error numbers -/

/-- The error numbers of the bridge's lifecycle; a function returns their negative. -/
def eio : ℤ := 5

def eagain : ℤ := 11

def enomem : ℤ := 12

def ebusy : ℤ := 16

def enodev : ℤ := 19

def einval : ℤ := 22

def enolink : ℤ := 67

def eopnotsupp : ℤ := 95

def enetdown : ℤ := 100

def eshutdown : ℤ := 108

def estale : ℤ := 116

def ecanceled : ℤ := 125

def erestartsys : ℤ := 512

/-! ## The record -/

/-- `enum moal_bridge_pending_state`. -/
inductive PendingState
  | none
  | waiting
  | switching
  deriving DecidableEq

/-- `bridge_pending` with `bridge_pending_events_enabled`, `bridge_pending_event_during_switch`
and whether `bridge_pending_work` is queued. -/
structure Pending where
  ifname : IfName
  generation : ℕ
  state : PendingState
  eventsEnabled : Bool
  eventDuringSwitch : Bool
  workQueued : Bool
  deriving DecidableEq

namespace Pending

/-- The record of a loaded module. -/
def zero : Pending where
  ifname := .empty
  generation := 0
  state := .none
  eventsEnabled := false
  eventDuringSwitch := false
  workQueued := false

variable (p : Pending) (deferred : Bool) (n : IfName) (g : ℕ)

/-- `moal_bridge_pending_set` : the generation of the admission, `0` when admission is disabled. -/
def pendingSet : ℕ × Pending :=
  if p.eventsEnabled then
    (p.generation + 1, { p with
      ifname := n.copy, generation := p.generation + 1, state := .waiting,
      eventDuringSwitch := false, workQueued := true })
  else (0, p)

/-- `moal_bridge_pending_matches`. -/
def pendingMatches : Bool :=
  p.state != .none && p.generation == g && p.ifname == n

/-- The record of a cancelled request. -/
def cancelled : Pending :=
  { p with
    ifname := .empty, generation := p.generation + 1, state := .none, eventDuringSwitch := false }

/-- `moal_bridge_pending_clear_if`. -/
def pendingClearIf : Bool × Pending :=
  if p.state != .none && p.ifname == n && p.generation == g then (true, p.cancelled)
  else (false, p)

/-- `moal_bridge_pending_begin_attempt`. -/
def pendingBeginAttempt : Bool × Pending :=
  if p.state == .waiting && p.generation == g && p.ifname == n then
    (true, { p with state := .switching, eventDuringSwitch := false })
  else (false, p)

/-- `moal_bridge_pending_restore_waiting`. An event remembered during the attempt queues the work
again. -/
def pendingRestoreWaiting : Bool × Pending :=
  if p.state == .switching && p.generation == g && p.ifname == n then
    (true, { p with
      state := .waiting, eventDuringSwitch := false,
      workQueued := p.workQueued || (p.eventDuringSwitch && p.eventsEnabled && deferred) })
  else (false, p)

/-- `moal_bridge_pending_kick`. -/
def pendingKick : Pending :=
  if p.eventsEnabled && deferred && p.state == .waiting then { p with workQueued := true } else p

/-- The readiness part of `moal_bridge_pending_schedule_event`, for `NETDEV_UP` or `NETDEV_CHANGE`
of the device `n` in `init_net`. -/
def pendingReadiness (notifierPublished : Bool) : Pending :=
  if !p.eventsEnabled || !deferred then p
  else if p.state == .none || p.ifname != n then p
  else if !notifierPublished then p
  else if p.state == .waiting then { p with workQueued := true }
  else { p with eventDuringSwitch := true }

/-- `moal_bridge_pending_cancel_all`. -/
def pendingCancelAll : Pending :=
  if p.state != .none then p.cancelled else p

/-- The locked section of `moal_bridge_pending_start`. -/
def pendingStart : Pending :=
  { p with eventsEnabled := true }

/-- The locked section of `moal_bridge_pending_cleanup`. -/
def pendingCleanup : Pending :=
  { p.cancelled with eventsEnabled := false }

end Pending

/-! ## What a locked section can do -/

/-- What one locked section did to the name, the generation and the state of `p`. -/
inductive Pending.Change (p p' : Pending) : Prop
  | same (hn : p'.ifname = p.ifname) (hg : p'.generation = p.generation) (hs : p'.state = p.state)
  | admission (hn : p'.ifname ≠ .empty) (hg : p'.generation = p.generation + 1)
      (hs : p'.state = .waiting)
  | cancel (hn : p'.ifname = .empty) (hg : p'.generation = p.generation + 1) (hs : p'.state = .none)
  | start (hn : p'.ifname = p.ifname) (hg : p'.generation = p.generation) (hw : p.state = .waiting)
      (hs : p'.state = .switching)
  | restore (hn : p'.ifname = p.ifname) (hg : p'.generation = p.generation)
      (hw : p.state = .switching) (hs : p'.state = .waiting)

/-- The name, the generation and the state are unchanged. -/
def Pending.Same (p p' : Pending) : Prop :=
  p'.ifname = p.ifname ∧ p'.generation = p.generation ∧ p'.state = p.state

/-- The state is `NONE` exactly when there is no name, and a request has a generation other than
the `0` that stands for a direct one. -/
structure Pending.Wf (p : Pending) : Prop where
  none_iff : p.state = .none ↔ p.ifname = .empty
  pos : p.state ≠ .none → 0 < p.generation

namespace Pending

variable {p p' : Pending} {deferred : Bool} {n : IfName} {g : ℕ}

theorem Same.refl (p : Pending) : p.Same p :=
  ⟨rfl, rfl, rfl⟩

theorem Same.trans {p'' : Pending} (h : p.Same p') (h' : p'.Same p'') : p.Same p'' :=
  ⟨h'.1.trans h.1, h'.2.1.trans h.2.1, h'.2.2.trans h.2.2⟩

theorem Change.refl (p : Pending) : p.Change p :=
  .same rfl rfl rfl

/-- A change keeps the record well formed. -/
theorem Wf.change (hw : p.Wf) (h : p.Change p') : p'.Wf := by
  cases h with
  | same hn hg hs => exact ⟨by rw [hn, hs, hw.none_iff], by rw [hg, hs]; exact hw.pos⟩
  | admission hn hg hs => exact ⟨by simp [hs, hn], fun _ => by omega⟩
  | cancel hn hg hs => exact ⟨by simp [hs, hn], fun h => absurd hs h⟩
  | start hn hg hwait hs =>
    have hne : p.ifname ≠ .empty := fun h => by simp [hw.none_iff.mpr h] at hwait
    exact ⟨by simp [hs, hn, hne], fun _ => by rw [hg]; exact hw.pos (by simp [hwait])⟩
  | restore hn hg hsw hs =>
    have hne : p.ifname ≠ .empty := fun h => by simp [hw.none_iff.mpr h] at hsw
    exact ⟨by simp [hs, hn, hne], fun _ => by rw [hg]; exact hw.pos (by simp [hsw])⟩

theorem wf_zero : zero.Wf :=
  ⟨by simp [zero], fun h => absurd rfl h⟩

theorem pendingMatches_iff :
    p.pendingMatches n g = true ↔ p.state ≠ .none ∧ p.generation = g ∧ p.ifname = n := by
  simp [pendingMatches, and_assoc]

/-- An admission, when admission is enabled. -/
theorem pendingSet_cases (p : Pending) (n : IfName) :
    (p.eventsEnabled = true ∧ p.pendingSet n = (p.generation + 1, { p with
      ifname := n.copy, generation := p.generation + 1, state := .waiting,
      eventDuringSwitch := false, workQueued := true })) ∨
    (p.eventsEnabled = false ∧ p.pendingSet n = (0, p)) := by
  unfold pendingSet
  split_ifs with h
  · exact .inl ⟨h, rfl⟩
  · exact .inr ⟨by simpa using h, rfl⟩

/-- A cancellation, only of the very request. -/
theorem pendingClearIf_cases (p : Pending) (n : IfName) (g : ℕ) :
    (p.state ≠ .none ∧ p.ifname = n ∧ p.generation = g ∧ p.pendingClearIf n g = (true, p.cancelled)) ∨
    ((p.state = .none ∨ p.ifname ≠ n ∨ p.generation ≠ g) ∧ p.pendingClearIf n g = (false, p)) := by
  unfold pendingClearIf
  split_ifs with h
  · simp only [Bool.and_eq_true, bne_iff_ne, beq_iff_eq] at h
    exact .inl ⟨h.1.1, h.1.2, h.2, rfl⟩
  · simp only [Bool.and_eq_true, bne_iff_ne, beq_iff_eq, not_and_or, not_not] at h
    exact .inr ⟨by tauto, rfl⟩

/-- The start of an attempt, only at the very request. -/
theorem pendingBeginAttempt_cases (p : Pending) (n : IfName) (g : ℕ) :
    (p.state = .waiting ∧ p.ifname = n ∧ p.generation = g ∧
      p.pendingBeginAttempt n g = (true, { p with state := .switching, eventDuringSwitch := false })) ∨
    ((p.state ≠ .waiting ∨ p.ifname ≠ n ∨ p.generation ≠ g) ∧
      p.pendingBeginAttempt n g = (false, p)) := by
  unfold pendingBeginAttempt
  split_ifs with h
  · simp only [Bool.and_eq_true, beq_iff_eq] at h
    exact .inl ⟨h.1.1, h.2, h.1.2, rfl⟩
  · simp only [Bool.and_eq_true, beq_iff_eq, not_and_or] at h
    exact .inr ⟨by tauto, rfl⟩

/-- The return to waiting, only of the very request. -/
theorem pendingRestoreWaiting_cases (p : Pending) (deferred : Bool) (n : IfName) (g : ℕ) :
    (p.state = .switching ∧ p.ifname = n ∧ p.generation = g ∧
      p.pendingRestoreWaiting deferred n g = (true, { p with
        state := .waiting, eventDuringSwitch := false,
        workQueued := p.workQueued || (p.eventDuringSwitch && p.eventsEnabled && deferred) })) ∨
    ((p.state ≠ .switching ∨ p.ifname ≠ n ∨ p.generation ≠ g) ∧
      p.pendingRestoreWaiting deferred n g = (false, p)) := by
  unfold pendingRestoreWaiting
  split_ifs with h
  · simp only [Bool.and_eq_true, beq_iff_eq] at h
    exact .inl ⟨h.1.1, h.2, h.1.2, rfl⟩
  · simp only [Bool.and_eq_true, beq_iff_eq, not_and_or] at h
    exact .inr ⟨by tauto, rfl⟩

theorem pendingCancelAll_cases (p : Pending) :
    (p.state ≠ .none ∧ p.pendingCancelAll = p.cancelled) ∨
      (p.state = .none ∧ p.pendingCancelAll = p) := by
  unfold pendingCancelAll
  split_ifs with h
  · exact .inl ⟨by simpa using h, rfl⟩
  · exact .inr ⟨by simpa using h, rfl⟩

/-- A kick touches the queued work only. -/
theorem pendingKick_eq (p : Pending) (deferred : Bool) :
    p.pendingKick deferred = { p with
      workQueued := p.workQueued || (p.eventsEnabled && deferred && p.state == .waiting) } := by
  unfold pendingKick
  split_ifs with h
  · rw [h, Bool.or_true]
  · rw [Bool.not_eq_true] at h
    rw [h, Bool.or_false]

/-- A readiness event of the pending name that finds a published instance queues the work of a
waiting request and is remembered by an attempt. -/
theorem pendingReadiness_hit {p : Pending} {n : IfName} (he : p.eventsEnabled = true)
    (hs : p.state ≠ .none) (hn : p.ifname = n) :
    p.pendingReadiness true n true =
      if p.state = .waiting then { p with workQueued := true }
      else { p with eventDuringSwitch := true } := by
  simp [pendingReadiness, he, hs, hn]

/-- A readiness event touches the queued work and the remembered event only. -/
theorem pendingReadiness_eq (p : Pending) (deferred : Bool) (n : IfName) (pub : Bool) :
    ∃ d q, p.pendingReadiness deferred n pub = { p with eventDuringSwitch := d, workQueued := q } ∧
      (p.eventDuringSwitch = true → d = true) ∧ (p.workQueued = true → q = true) := by
  unfold pendingReadiness
  split_ifs
  · exact ⟨_, _, rfl, id, id⟩
  · exact ⟨_, _, rfl, id, id⟩
  · exact ⟨_, _, rfl, id, id⟩
  · exact ⟨_, _, rfl, id, fun _ => rfl⟩
  · exact ⟨_, _, rfl, fun _ => rfl, id⟩

/-! ### Every section is a change -/

theorem same_pendingReadiness (p : Pending) (deferred : Bool) (n : IfName) (pub : Bool) :
    p.Same (p.pendingReadiness deferred n pub) := by
  obtain ⟨d, q, h, -, -⟩ := pendingReadiness_eq p deferred n pub
  rw [h]
  exact ⟨rfl, rfl, rfl⟩

theorem same_pendingKick (p : Pending) (deferred : Bool) : p.Same (p.pendingKick deferred) := by
  rw [pendingKick_eq]
  exact ⟨rfl, rfl, rfl⟩

theorem change_cancelled (p : Pending) : p.Change p.cancelled :=
  .cancel rfl rfl rfl

theorem change_pendingSet (p : Pending) (hn : n ≠ .empty) : p.Change (p.pendingSet n).2 := by
  rcases pendingSet_cases p n with ⟨-, h⟩ | ⟨-, h⟩ <;> rw [h]
  · exact .admission (fun he => hn (IfName.copy_eq_empty_iff.mp he)) rfl rfl
  · exact .refl p

theorem change_pendingClearIf (p : Pending) (n : IfName) (g : ℕ) :
    p.Change (p.pendingClearIf n g).2 := by
  rcases pendingClearIf_cases p n g with ⟨-, -, -, h⟩ | ⟨-, h⟩ <;> rw [h]
  · exact p.change_cancelled
  · exact .refl p

theorem change_pendingBeginAttempt (p : Pending) (n : IfName) (g : ℕ) :
    p.Change (p.pendingBeginAttempt n g).2 := by
  rcases pendingBeginAttempt_cases p n g with ⟨hs, -, -, h⟩ | ⟨-, h⟩ <;> rw [h]
  · exact .start rfl rfl hs rfl
  · exact .refl p

theorem change_pendingRestoreWaiting (p : Pending) (deferred : Bool) (n : IfName) (g : ℕ) :
    p.Change (p.pendingRestoreWaiting deferred n g).2 := by
  rcases pendingRestoreWaiting_cases p deferred n g with ⟨hs, -, -, h⟩ | ⟨-, h⟩ <;> rw [h]
  · exact .restore rfl rfl hs rfl
  · exact .refl p

theorem state_pendingCancelAll (p : Pending) : p.pendingCancelAll.state = .none := by
  rcases p.pendingCancelAll_cases with ⟨-, h⟩ | ⟨hn, h⟩
  · rw [h]
    rfl
  · rw [h, hn]

theorem change_pendingCancelAll (p : Pending) : p.Change p.pendingCancelAll := by
  rcases pendingCancelAll_cases p with ⟨-, h⟩ | ⟨-, h⟩ <;> rw [h]
  · exact p.change_cancelled
  · exact .refl p

theorem Change.of_same (h : p.Same p') : p.Change p' :=
  .same h.1 h.2.1 h.2.2

theorem change_pendingKick (p : Pending) (deferred : Bool) : p.Change (p.pendingKick deferred) :=
  .of_same (p.same_pendingKick deferred)

theorem change_pendingReadiness (p : Pending) (deferred : Bool) (n : IfName) (pub : Bool) :
    p.Change (p.pendingReadiness deferred n pub) :=
  .of_same (p.same_pendingReadiness deferred n pub)

theorem change_pendingStart (p : Pending) : p.Change p.pendingStart :=
  .same rfl rfl rfl

theorem change_pendingCleanup (p : Pending) : p.Change p.pendingCleanup :=
  .cancel rfl rfl rfl

end Pending

end WlanDriver.Bridge
