import Mathlib.Algebra.Order.Group.Nat
import WlanDriver.Lib.Memory

/-!
# Records for the host

What is handed up to the host goes into a record, behind the header of an `mlan_event`. A `HandlerBuf` says what the handlers
of events and the functions with a record of their own have allocated. Octets that are read or written where there are none
are a fault; `ran_bind` and the lemmas behind it say when a run goes on.
-/

namespace WlanDriver.Relay

def maxEventSize : ℕ := 3 * 1024

/-- `sizeof(mlan_event)`. -/
def sizeofMlanEvent : ℕ := 12

/-- `sizeof(eventcause)`. -/
def sizeofEventCause : ℕ := 4

/-- Who allocates a record. -/
inductive HandlerBuf
  /-- `wlan_ops_sta_process_event`. -/
  | sta
  /-- `wlan_ops_uap_process_event`. -/
  | uap
  /-- `wlan_process_nan_event`. -/
  | nan
  /-- `wlan_2040_coex_event`. -/
  | coex
  deriving DecidableEq

/-- The octets that are allocated. -/
def HandlerBuf.size : HandlerBuf → ℕ
  | sta => maxEventSize + sizeofMlanEvent
  | uap => maxEventSize + sizeofMlanEvent + sizeofEventCause
  | nan => maxEventSize
  | coex => 100

/-- The octets of `event_buf`, behind the header. -/
def HandlerBuf.room (b : HandlerBuf) : ℕ :=
  b.size - sizeofMlanEvent

theorem HandlerBuf.one_le_room (b : HandlerBuf) : 1 ≤ b.room := by
  cases b <;> decide

/-- The length of what is in a record is a `t_u16` wherever one is. -/
theorem HandlerBuf.room_lt (b : HandlerBuf) : b.room < 2 ^ 16 := by
  cases b <;> decide

/-! ## Runs without a fault -/

/-- Why a run ends early. -/
inductive RelayFault
  /-- An octet is read that was not received. -/
  | readOutside
  /-- An octet is written that the record does not have. -/
  | overflow

/-- What is done if a flag is set. -/
def ifSet {α : Type} (flag : Bool) (x : Except RelayFault α) : Except RelayFault Unit :=
  if flag then (fun _ => ()) <$> x else pure ()

/-- There was no fault. -/
def Ran {α : Type} (x : Except RelayFault α) : Prop :=
  ∃ a, x = .ok a

section Ran

variable {α β : Type}

@[simp] theorem ran_pure (a : α) : Ran (pure a) :=
  ⟨a, rfl⟩

@[simp] theorem ran_ok (a : α) : Ran (.ok a) :=
  ⟨a, rfl⟩

@[simp] theorem not_ran_error (x : RelayFault) : ¬Ran (.error x : Except RelayFault α) := by
  rintro ⟨a, ha⟩
  exact absurd ha (by simp)

/-- A run is one of its parts, each from what the part before has given. -/
theorem ran_bind {x : Except RelayFault α} {f : α → Except RelayFault β} : Ran (x >>= f) ↔ ∃ a, x = .ok a ∧ Ran (f a) := by
  cases x with
  | error y =>
    refine iff_of_false (not_ran_error y) ?_
    rintro ⟨a, ha, -⟩
    exact absurd ha (by simp)
  | ok a =>
    constructor
    · exact fun h => ⟨a, rfl, h⟩
    · rintro ⟨a', ha, h⟩
      obtain rfl := Except.ok.inj ha
      exact h

@[simp] theorem ran_map {x : Except RelayFault α} {f : α → β} : Ran (f <$> x) ↔ Ran x := by
  cases x with
  | error y => exact iff_of_false (not_ran_error y) (not_ran_error y)
  | ok a => exact iff_of_true ⟨f a, rfl⟩ ⟨a, rfl⟩

/-- What is returned in the end does not matter. -/
@[simp] theorem ran_bind_pure {x : Except RelayFault α} {g : α → β} : Ran (x >>= fun a => pure (g a)) ↔ Ran x := by
  rw [ran_bind]
  exact ⟨fun ⟨a, ha, _⟩ => ⟨a, ha⟩, fun ⟨a, ha⟩ => ⟨a, ha, ran_pure _⟩⟩

theorem ran_bind_const {x : Except RelayFault α} {y : Except RelayFault β} : Ran (x >>= fun _ => y) ↔ Ran x ∧ Ran y := by
  rw [ran_bind]
  exact ⟨fun ⟨a, ha, hy⟩ => ⟨⟨a, ha⟩, hy⟩, fun ⟨⟨a, ha⟩, hy⟩ => ⟨a, ha, hy⟩⟩

/-- What is done under a condition only. -/
theorem ran_ite_pure {p : Prop} [Decidable p] {x : Except RelayFault α} {a : α} :
    Ran (if p then x else pure a) ↔ (p → Ran x) := by
  split_ifs with h
  · exact ⟨fun hx _ => hx, fun hx => hx h⟩
  · exact iff_of_true (ran_pure a) fun hp => absurd hp h

@[simp] theorem ran_ifSet {flag : Bool} {x : Except RelayFault α} : Ran (ifSet flag x) ↔ (flag → Ran x) :=
  ran_ite_pure.trans (forall_congr' fun _ => ran_map)

end Ran

end WlanDriver.Relay
