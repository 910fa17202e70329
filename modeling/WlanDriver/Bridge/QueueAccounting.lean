import WlanDriver.Lib.System

/-!
# The forwarding queues and their counters

Each direction of the bridge has a queue and an atomic counter that bounds it. A producer
reserves a slot with `atomic_inc_return`, undoes the reservation if the counter passed the
bound or if the headroom reallocation fails, and otherwise queues the frame; a consumer takes a
frame and then decrements. Counter and queue are never changed together, so between the two
steps of a party they differ.

The system interleaves any number of parties at the granularity of one atomic operation or one
locked queue operation. `qlen_eq_length_add` is the accounting : the counter is the length of
the queue plus the parties in between. `length_add_granted_le` is the bound : a granted slot
was counted below the bound, so the queue and the granted slots together never pass it.
-/

namespace WlanDriver.Bridge

open Function

/-- The two directions, WLAN→ETH and ETH→WLAN. -/
inductive Dir
  | w2p
  | p2w
  deriving DecidableEq

/-- `MOAL_BR_W2P_QUEUE_MAX` and `MOAL_BR_P2W_QUEUE_MAX`. -/
def queueMax : Dir → ℤ
  | .w2p => 512
  | .p2w => 512

/-- The functions that queue frames. -/
inductive Producer
  | rxFast
  | txHairpin
  | peerRxHandler
  | peerPtFunc
  deriving DecidableEq

/-- The direction a producer feeds. -/
def Producer.dir : Producer → Dir
  | .rxFast | .txHairpin => .w2p
  | .peerRxHandler | .peerPtFunc => .p2w

/-- Whether the producer calls `moal_bridge_ensure_headroom` after it reserved a slot. -/
def Producer.ensuresHeadroom : Producer → Bool
  | .rxFast | .txHairpin => false
  | .peerRxHandler | .peerPtFunc => true

/-- The functions that take frames off. -/
inductive Consumer
  | w2pThread
  | p2wThread
  | netdevDown
  | peerReleaseWork
  deriving DecidableEq

/-- The queue a consumer empties first. -/
def Consumer.first : Consumer → Dir
  | .p2wThread => .p2w
  | .w2pThread | .netdevDown | .peerReleaseWork => .w2p

/-- The queue a consumer goes on to once `d` is empty : the purges of `NETDEV_DOWN` and
`peer_release_work` empty both queues. -/
def Consumer.next : Consumer → Dir → Option Dir
  | .netdevDown, .w2p | .peerReleaseWork, .w2p => some .p2w
  | _, _ => none

/-- Where a party is. -/
inductive QueuePc (φ : Type)
  | idle
  /-- `atomic_inc_return` passed the bound; `atomic_dec` is next. -/
  | refused (r : Producer)
  /-- The slot is reserved for the frame. -/
  | granted (r : Producer) (f : φ)
  /-- The headroom reallocation failed; `atomic_dec` is next. -/
  | noHeadroom (r : Producer)
  /-- At the head of the loop that empties `d`. -/
  | draining (c : Consumer) (d : Dir)
  /-- A frame of `d` is taken; `atomic_dec` is next. -/
  | dequeued (c : Consumer) (d : Dir)
  deriving DecidableEq

/-- The queues of a live bridge with the parties `ι`. -/
structure QueueState (ι φ : Type) where
  qlen : Dir → ℤ
  queue : Dir → List φ
  pc : ι → QueuePc φ

/-- One atomic operation or one locked queue operation of one party. -/
inductive QueueAct (ι φ : Type)
  | reserve (i : ι) (r : Producer) (f : φ)
  | allocFail (i : ι)
  | enqueue (i : ι)
  | dec (i : ι)
  | drain (i : ι) (c : Consumer)
  | dequeue (i : ι)
  deriving DecidableEq

section

variable {ι φ : Type} [DecidableEq ι]

/-- A step of one party. -/
def queueStep (s : QueueState ι φ) : QueueAct ι φ → Option (QueueState ι φ)
  | .reserve i r f =>
    match s.pc i with
    | .idle => some { s with
        qlen := update s.qlen r.dir (s.qlen r.dir + 1),
        pc := update s.pc i
          (if queueMax r.dir < s.qlen r.dir + 1 then .refused r else .granted r f) }
    | _ => none
  | .allocFail i =>
    match s.pc i with
    | .granted r _ =>
      if r.ensuresHeadroom then some { s with pc := update s.pc i (.noHeadroom r) }
      else none
    | _ => none
  | .enqueue i =>
    match s.pc i with
    | .granted r f => some { s with
        queue := update s.queue r.dir (s.queue r.dir ++ [f]),
        pc := update s.pc i .idle }
    | _ => none
  | .dec i =>
    match s.pc i with
    | .refused r | .noHeadroom r => some { s with
        qlen := update s.qlen r.dir (s.qlen r.dir - 1),
        pc := update s.pc i .idle }
    | .dequeued c d => some { s with
        qlen := update s.qlen d (s.qlen d - 1),
        pc := update s.pc i (.draining c d) }
    | _ => none
  | .drain i c =>
    match s.pc i with
    | .idle => some { s with pc := update s.pc i (.draining c c.first) }
    | _ => none
  | .dequeue i =>
    match s.pc i with
    | .draining c d =>
      match s.queue d with
      | _ :: fs => some { s with
          queue := update s.queue d fs,
          pc := update s.pc i (.dequeued c d) }
      | [] => some { s with
          pc := update s.pc i (((c.next d).map (.draining c)).getD .idle) }
    | _ => none

/-- A new bridge instance : empty queues, counters at 0. -/
def queueInit : QueueState ι φ where
  qlen _ := 0
  queue _ := []
  pc _ := .idle

/-- The queue system of a live bridge. -/
def queueSystem (ι φ : Type) [DecidableEq ι] : System (QueueState ι φ) (QueueAct ι φ) where
  init s := s = queueInit
  step := queueStep

/-! ## What a step can do -/

/-- The party is between its counter step and its queue step on `d`. -/
def QueuePc.between (d : Dir) : QueuePc φ → ℕ
  | .refused r | .granted r _ | .noHeadroom r => if r.dir = d then 1 else 0
  | .dequeued _ e => if e = d then 1 else 0
  | .idle | .draining _ _ => 0

/-- The party holds a granted slot of `d`. -/
def QueuePc.slot (d : Dir) : QueuePc φ → ℕ
  | .granted r _ => if r.dir = d then 1 else 0
  | _ => 0

theorem QueuePc.slot_le_between (d : Dir) (k : QueuePc φ) : k.slot d ≤ k.between d := by
  cases k <;> simp [slot, between]

/-- What a step of party `i` can do to the direction `d` : the counter, the length of the queue
and the place of `i` change together. -/
inductive QueueMove (s s' : QueueState ι φ) (i : ι) (d : Dir) : Prop
  /-- Neither the counter nor the queue of `d` changes. -/
  | away (hq : s'.qlen d = s.qlen d) (hl : (s'.queue d).length = (s.queue d).length)
      (hb : (s'.pc i).between d = (s.pc i).between d) (hg : (s'.pc i).slot d ≤ (s.pc i).slot d)
  /-- A reservation; a granted one was counted below the bound. -/
  | reserved (hq : s'.qlen d = s.qlen d + 1) (hl : (s'.queue d).length = (s.queue d).length)
      (hb : (s.pc i).between d = 0 ∧ (s'.pc i).between d = 1)
      (hg : (s'.pc i).slot d = 0 ∨ (s'.pc i).slot d = 1 ∧ s.qlen d + 1 ≤ queueMax d)
  /-- A decrement by a party that was in between. -/
  | released (hq : s'.qlen d = s.qlen d - 1) (hl : (s'.queue d).length = (s.queue d).length)
      (hb : (s.pc i).between d = 1 ∧ (s'.pc i).between d = 0) (hg : (s'.pc i).slot d = 0)
  /-- The holder of a slot queues its frame. -/
  | queued (hq : s'.qlen d = s.qlen d) (hl : (s'.queue d).length = (s.queue d).length + 1)
      (hb : (s.pc i).between d = 1 ∧ (s'.pc i).between d = 0)
      (hg : (s.pc i).slot d = 1 ∧ (s'.pc i).slot d = 0)
  /-- A consumer takes a frame. -/
  | taken (hq : s'.qlen d = s.qlen d) (hl : (s'.queue d).length + 1 = (s.queue d).length)
      (hb : (s.pc i).between d = 0 ∧ (s'.pc i).between d = 1) (hg : (s'.pc i).slot d = 0)

/-- Every step moves one party, and does to each direction what `QueueMove` allows. -/
theorem queueMove_of_queueStep {s s' : QueueState ι φ} {a : QueueAct ι φ}
    (hs : queueStep s a = some s') :
    ∃ i, s'.pc = update s.pc i (s'.pc i) ∧ ∀ d, QueueMove s s' i d := by
  cases a with
  | reserve i r f =>
    cases hpc : s.pc i <;> simp only [queueStep, hpc, reduceCtorEq] at hs
    cases hs
    refine ⟨i, by simp, fun d => ?_⟩
    by_cases hd : r.dir = d
    · subst hd
      split_ifs with hmax
      · exact .reserved (by simp) rfl (by simp [hpc, QueuePc.between]) (by simp [QueuePc.slot])
      · exact .reserved (by simp) rfl (by simp [hpc, QueuePc.between])
          (.inr ⟨by simp [QueuePc.slot], by omega⟩)
    · have hd' : d ≠ r.dir := Ne.symm hd
      split_ifs <;> exact .away (by simp [hd']) rfl (by simp [hpc, hd, QueuePc.between])
        (by simp [hpc, hd, QueuePc.slot])
  | allocFail i =>
    cases hpc : s.pc i <;> simp only [queueStep, hpc, reduceCtorEq] at hs
    split_ifs at hs
    cases hs
    exact ⟨i, by simp, fun d => .away rfl rfl (by simp [hpc, QueuePc.between])
      (by simp [QueuePc.slot])⟩
  | enqueue i =>
    cases hpc : s.pc i with
    | granted r f =>
      simp only [queueStep, hpc] at hs
      cases hs
      refine ⟨i, by simp, fun d => ?_⟩
      by_cases hd : r.dir = d
      · subst hd
        exact .queued rfl (by simp) (by simp [hpc, QueuePc.between]) (by simp [hpc, QueuePc.slot])
      · have hd' : d ≠ r.dir := Ne.symm hd
        exact .away rfl (by simp [hd']) (by simp [hpc, hd, QueuePc.between])
          (by simp [QueuePc.slot])
    | _ => simp [queueStep, hpc] at hs
  | dec i =>
    have hrel : ∀ (e : Dir) (k : QueuePc φ), (∀ d, (s.pc i).between d = if e = d then 1 else 0) →
        (∀ d, k.between d = 0) → (∀ d, k.slot d = 0) →
        s' = { s with qlen := update s.qlen e (s.qlen e - 1),
                      pc := update s.pc i k } →
        ∃ i, s'.pc = update s.pc i (s'.pc i) ∧ ∀ d, QueueMove s s' i d := by
      rintro e k hb hk hg rfl
      refine ⟨i, by simp, fun d => ?_⟩
      by_cases hd : e = d
      · subst hd
        exact .released (by simp) rfl (by simp [hb, hk]) (by simp [hg])
      · have hd' : d ≠ e := Ne.symm hd
        exact .away (by simp [hd']) rfl (by simp [hb, hd, hk]) (by simp [hg])
    cases hpc : s.pc i with
    | refused r =>
      simp only [queueStep, hpc] at hs
      cases hs
      exact hrel r.dir .idle (by simp [hpc, QueuePc.between]) (fun _ => rfl) (fun _ => rfl) rfl
    | noHeadroom r =>
      simp only [queueStep, hpc] at hs
      cases hs
      exact hrel r.dir .idle (by simp [hpc, QueuePc.between]) (fun _ => rfl) (fun _ => rfl) rfl
    | dequeued c e =>
      simp only [queueStep, hpc] at hs
      cases hs
      exact hrel e (.draining c e) (by simp [hpc, QueuePc.between]) (fun _ => rfl) (fun _ => rfl) rfl
    | _ => simp [queueStep, hpc] at hs
  | drain i c =>
    cases hpc : s.pc i <;> simp only [queueStep, hpc, reduceCtorEq] at hs
    cases hs
    exact ⟨i, by simp, fun d => .away rfl rfl (by simp [hpc, QueuePc.between])
      (by simp [QueuePc.slot])⟩
  | dequeue i =>
    cases hpc : s.pc i with
    | draining c e =>
      simp only [queueStep, hpc] at hs
      cases hq : s.queue e with
      | nil =>
        simp only [hq] at hs
        cases hs
        refine ⟨i, by simp, fun d => .away rfl rfl ?_ ?_⟩ <;>
          cases c.next e <;> simp [hpc, QueuePc.between, QueuePc.slot]
      | cons f fs =>
        simp only [hq] at hs
        cases hs
        refine ⟨i, by simp, fun d => ?_⟩
        by_cases hd : e = d
        · subst hd
          exact .taken rfl (by simp [hq]) (by simp [hpc, QueuePc.between]) (by simp [QueuePc.slot])
        · have hd' : d ≠ e := Ne.symm hd
          exact .away rfl (by simp [hd']) (by simp [hpc, hd, QueuePc.between])
            (by simp [QueuePc.slot])
    | _ => simp [queueStep, hpc] at hs

/-! ## The accounting -/

variable [Fintype ι]

/-- The counter of each direction is the length of its queue plus the parties in between, and
the queue and the granted slots together stay within the bound. -/
structure QueueInv (s : QueueState ι φ) (d : Dir) : Prop where
  qlen_eq_length_add : s.qlen d = (s.queue d).length + poolSum (QueuePc.between d) s.pc
  length_add_granted_le : (s.queue d).length + poolSum (QueuePc.slot d) s.pc ≤ queueMax d

theorem QueueInv.step {s s' : QueueState ι φ} {i : ι} {d : Dir} (h : QueueInv s d)
    (hpc : s'.pc = update s.pc i (s'.pc i)) (hm : QueueMove s s' i d) :
    QueueInv s' d := by
  obtain ⟨heq, hle⟩ := h
  have hbetween := poolSum_update (QueuePc.between d) s.pc i (s'.pc i)
  have hslot := poolSum_update (QueuePc.slot d) s.pc i (s'.pc i)
  -- a granted slot is in between, so the granted slots were counted too
  have hslots : poolSum (QueuePc.slot d) s.pc ≤ poolSum (QueuePc.between d) s.pc :=
    Finset.sum_le_sum fun j _ => QueuePc.slot_le_between d (s.pc j)
  rw [← hpc] at hbetween hslot
  cases hm with
  | away hq hl hb hg => constructor <;> omega
  | reserved hq hl hb hg =>
    have := QueuePc.slot_le_between d (s.pc i)
    constructor <;> omega
  | released hq hl hb hg => constructor <;> omega
  | queued hq hl hb hg => constructor <;> omega
  | taken hq hl hb hg =>
    have := QueuePc.slot_le_between d (s.pc i)
    constructor <;> omega

theorem queueInv_of_reachable {s : QueueState ι φ} (h : (queueSystem ι φ).Reachable s) (d : Dir) :
    QueueInv s d := by
  refine System.Reachable.invariant (I := fun s => QueueInv s d) ?_ ?_ h
  · rintro _ rfl
    constructor <;> cases d <;> simp [queueInit, poolSum, QueuePc.between, QueuePc.slot, queueMax]
  · intro s a s' hi hs
    obtain ⟨i, hpc, hm⟩ := queueMove_of_queueStep hs
    exact hi.step hpc (hm d)

/-- In every reachable state of a live bridge and for each direction : the counter is the length
of the queue plus the parties between their counter step and their queue step, it is never
negative, the queue never passes its bound, and with no party in between counter and length are
equal. -/
theorem queue_accounting {s : QueueState ι φ} (h : (queueSystem ι φ).Reachable s) (d : Dir) :
    s.qlen d = (s.queue d).length + poolSum (QueuePc.between d) s.pc ∧ 0 ≤ s.qlen d ∧
      (s.queue d).length ≤ queueMax d ∧
      ((∀ i, (s.pc i).between d = 0) → s.qlen d = (s.queue d).length) := by
  obtain ⟨heq, hle⟩ := queueInv_of_reachable h d
  refine ⟨heq, by omega, by omega, fun hnone => ?_⟩
  rw [heq, poolSum_eq_zero.2 hnone]
  simp

end

/-- A producer of each direction on a live bridge : one frame queued to the wire, and one slot
given back after a failed headroom reallocation. -/
theorem queue_accounting_after_allocFail : ∃ s : QueueState (Fin 2) ℕ,
    ((s.queue .w2p = [7] ∧ s.queue .p2w = []) ∧ ∀ i, (s.pc i).between .p2w = 0) ∧
      s.qlen .w2p = (s.queue .w2p).length + poolSum (QueuePc.between .w2p) s.pc ∧
      s.qlen .p2w = (s.queue .p2w).length := by
  obtain ⟨s, hs, hP⟩ := System.exists_reachable_of_run (M := queueSystem (Fin 2) ℕ)
    (P := fun s => decide ((s.queue .w2p = [7] ∧ s.queue .p2w = []) ∧
      ∀ i, (s.pc i).between .p2w = 0))
    (l := [.reserve 0 .rxFast 7, .reserve 1 .peerRxHandler 8, .enqueue 0, .allocFail 1, .dec 1])
    rfl (by decide +kernel)
  have hP := of_decide_eq_true hP
  exact ⟨s, hP, (queue_accounting hs .w2p).1, (queue_accounting hs .p2w).2.2.2 hP.2⟩

end WlanDriver.Bridge
