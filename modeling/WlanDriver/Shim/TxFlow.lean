import WlanDriver.Lib.System
import Mathlib.Algebra.BigOperators.Ring.Finset

/-!
# Flow control of the kernel's transmit queues

A packet that `mlan_send_packet` accepts with `MLAN_STATUS_PENDING` is counted by its sender, in `tx_pending` of the
handle and in `wmm_tx_pending` of its interface and queue. If the second counter has reached `max_tx_pending`, the
sender stops the kernel's queue. `moal_send_packet_complete` takes the packet out of both counters, and wakes the queue
if the second one is at `low_tx_pending` now. Each atomic operation is one step, and so are each call of the driver's
core, each stop and each wake.

The three senders do the same with a packet they have accepted. `woal_start_xmit` counts it under its queue mapping or
3, the senders of held TCP acknowledgements under the mapping itself, and the completion takes it out under the mapping
itself if that is below 4. The test of the counter and the stop of the queue are two steps, and the counter may pass the
low mark in between. It may also be negative there, and as a `t_u32` it is above every limit then.

`flow_control` : the counters are exact and a stopped queue is woken, in every run whose accepted packets have a mapping
below 4 and in which no sender stops a queue whose counter is not above the low mark any more.
-/

set_option linter.unusedSectionVars false

namespace WlanDriver.Shim

open Function List Option

/-- What the driver reads of an `sk_buff`. -/
structure Skb where
  len : ℕ
  queueMapping : ℕ
  deriving DecidableEq

/-- The functions that give packets to the driver's core. -/
inductive TxSender
  | startXmit
  | sendTcpAck
  | tcpAckTimer
  deriving DecidableEq

/-- A packet of an interface. -/
structure TxPacket (ι : Type*) where
  bss : ι
  sender : TxSender
  skb : Skb
  deriving DecidableEq

/-- The queue the sender counts the packet under. -/
def TxPacket.index {ι : Type*} (p : TxPacket ι) : ℕ :=
  match p.sender with
  | .startXmit => min p.skb.queueMapping 3
  | .sendTcpAck | .tcpAckTimer => p.skb.queueMapping

/-- `mlan_status` of `mlan_send_packet`. -/
inductive SendStatus
  | pending
  | success
  | failure
  deriving DecidableEq

/-- What `woal_start_xmit` finds before it hands the packet over. -/
inductive Prelude
  | handOver
  /-- `skb_realloc_headroom` fails, or a four-address interface has no peer. -/
  | drop
  /-- `woal_process_tcp_ack` keeps the packet. -/
  | held
  deriving DecidableEq

/-- The counters of `priv->stats`. -/
structure TxStats where
  txPackets : ℕ
  txBytes : ℕ
  txDropped : ℕ
  txErrors : ℕ
  deriving DecidableEq

namespace TxStats

variable (k : TxStats)

def sent (skb : Skb) : TxStats :=
  { k with txPackets := k.txPackets + 1, txBytes := k.txBytes + skb.len }

def dropped : TxStats :=
  { k with txDropped := k.txDropped + 1 }

def error : TxStats :=
  { k with txErrors := k.txErrors + 1 }

end TxStats

/-- `max_tx_pending` and `low_tx_pending` of an interface, and the length of its longest frame. -/
structure TxLimits where
  maxTxPending : ℕ
  lowTxPending : ℕ
  mtu : ℕ
  low_pos : 0 < lowTxPending
  low_lt_max : lowTxPending < maxTxPending
  max_lt : maxTxPending < 2 ^ 32

/-- Where a party is. -/
inductive TxPlace (ι : Type*)
  | idle
  /-- In front of `mlan_send_packet`. -/
  | handing (p : TxPacket ι)
  /-- In front of `atomic_inc` of `tx_pending`. -/
  | accepted (p : TxPacket ι)
  /-- In front of `atomic_inc` of `wmm_tx_pending`. -/
  | counting (p : TxPacket ι)
  /-- In front of the test for `max_tx_pending`. -/
  | testing (p : TxPacket ι)
  /-- In front of `netif_tx_stop_queue`. -/
  | stopping (p : TxPacket ι)
  /-- In front of `atomic_dec` of `tx_pending`. -/
  | completed (p : TxPacket ι)
  /-- In front of `atomic_dec_return` of `wmm_tx_pending`. -/
  | releasing (p : TxPacket ι)
  /-- In front of `netif_tx_queue_stopped`. -/
  | looking (p : TxPacket ι)
  /-- In front of `netif_tx_wake_queue`. -/
  | waking (p : TxPacket ι)
  deriving DecidableEq

/-- The counters, the kernel's queues, and the parties. `wmmTxPending` and `stopped` from 4 on are the memory behind the
four elements. -/
structure TxFlow (ι τ : Type*) where
  txPending : ℤ
  wmmTxPending : ι → ℕ → ℤ
  stopped : ι → ℕ → Bool
  stats : ι → TxStats
  pc : τ → TxPlace ι
  /-- What the core has accepted with `MLAN_STATUS_PENDING` and not completed yet. -/
  outstanding : List (TxPacket ι)

/-- The steps. The label fixes the answers of the core and of the kernel. -/
inductive TxOp (ι τ : Type*)
  | startXmit (t : τ) (b : ι) (skb : Skb) (r : Prelude)
  | sendTcpAck (t : τ) (b : ι) (skb : Skb)
  /-- With the acknowledgement the session holds, if it still holds one. -/
  | tcpAckTimer (t : τ) (b : ι) (held : Option Skb)
  /-- `mlan_send_packet`. -/
  | send (t : τ) (r : SendStatus)
  /-- The core completes the packet at `k`, and whether that was a success. -/
  | complete (t : τ) (k : ℕ) (r : Bool)
  /-- The next atomic operation, stop or wake of the party. -/
  | advance (t : τ)

/-- A counter as a `t_u32` is compared with it. -/
def asU32 (c : ℤ) : ℤ :=
  c % 2 ^ 32

section

variable {ι τ : Type*} [DecidableEq ι] [DecidableEq τ] (lim : ι → TxLimits)

namespace TxFlow

variable (s : TxFlow ι τ)

/-- A party moves. -/
def move (t : τ) (c : TxPlace ι) : TxFlow ι τ :=
  { s with pc := update s.pc t c }

/-- One queue's counter changes. -/
def addQueue (b : ι) (i : ℕ) (d : ℤ) : TxFlow ι τ :=
  { s with wmmTxPending :=
      update s.wmmTxPending b (update (s.wmmTxPending b) i (s.wmmTxPending b i + d)) }

/-- A kernel queue is stopped or woken. -/
def setStopped (b : ι) (i : ℕ) (v : Bool) : TxFlow ι τ :=
  { s with stopped := update s.stopped b (update (s.stopped b) i v) }

/-- Statistics of an interface. -/
def account (b : ι) (f : TxStats → TxStats) : TxFlow ι τ :=
  { s with stats := update s.stats b (f (s.stats b)) }

/-- `woal_start_xmit` up to `mlan_send_packet`. A frame may be `sizeof(struct ethhdr)` longer than the mtu. -/
def startXmit (t : τ) (b : ι) (skb : Skb) (r : Prelude) : TxFlow ι τ :=
  if skb.len = 0 ∨ (lim b).mtu + 14 < skb.len then s.account b TxStats.dropped else
  match r with
  | .handOver => s.move t (.handing ⟨b, .startXmit, skb⟩)
  | .drop => s.account b TxStats.dropped
  | .held => s

/-- `mlan_send_packet` and the switch on its status. -/
def send (t : τ) (p : TxPacket ι) : SendStatus → TxFlow ι τ
  | .pending => { s.move t (.accepted p) with outstanding := s.outstanding ++ [p] }
  | .success => (s.account p.bss (TxStats.sent · p.skb)).move t .idle
  | .failure => (s.account p.bss TxStats.dropped).move t .idle

/-- `moal_send_packet_complete` up to the test of the queue mapping. -/
def complete (t : τ) (k : ℕ) (p : TxPacket ι) (r : Bool) : TxFlow ι τ :=
  let s' := { s with outstanding := s.outstanding.eraseIdx k }
  let s' := if r then s'.account p.bss (TxStats.sent · p.skb) else s'.account p.bss TxStats.error
  s'.move t (if p.skb.queueMapping < 4 then .completed p else .idle)

/-- The next step of a party behind `mlan_send_packet` or behind the test of the mapping. -/
def advance (t : τ) : TxPlace ι → Option (TxFlow ι τ)
  | .idle | .handing _ => none
  | .accepted p => some { s.move t (.counting p) with txPending := s.txPending + 1 }
  | .counting p => some ((s.addQueue p.bss p.index 1).move t (.testing p))
  | .testing p =>
    some (s.move t (if ((lim p.bss).maxTxPending : ℤ) ≤ asU32 (s.wmmTxPending p.bss p.index) then .stopping p else .idle))
  | .stopping p => some ((s.setStopped p.bss p.index true).move t .idle)
  | .completed p => some { s.move t (.releasing p) with txPending := s.txPending - 1 }
  | .releasing p =>
    let s' := s.addQueue p.bss p.skb.queueMapping (-1)
    some (s'.move t
      (if asU32 (s'.wmmTxPending p.bss p.skb.queueMapping) = (lim p.bss).lowTxPending then .looking p else .idle))
  | .looking p => some (s.move t (if s.stopped p.bss p.skb.queueMapping then .waking p else .idle))
  | .waking p => some ((s.setStopped p.bss p.skb.queueMapping false).move t .idle)

end TxFlow

/-- One step. -/
def TxFlow.step (s : TxFlow ι τ) : TxOp ι τ → Option (TxFlow ι τ)
  | .startXmit t b skb r => if s.pc t = .idle then some (s.startXmit lim t b skb r) else none
  | .sendTcpAck t b skb => if s.pc t = .idle then some (s.move t (.handing ⟨b, .sendTcpAck, skb⟩)) else none
  | .tcpAckTimer t b held =>
    if s.pc t = .idle then some (held.elim s fun skb => s.move t (.handing ⟨b, .tcpAckTimer, skb⟩)) else none
  | .send t r =>
    match s.pc t with
    | .handing p => some (s.send t p r)
    | _ => none
  | .complete t k r => if s.pc t = .idle then (s.outstanding[k]?).map fun p => s.complete t k p r else none
  | .advance t => s.advance lim t (s.pc t)

/-- Nothing has been sent, and no queue is stopped. -/
def TxFlow.Init (s : TxFlow ι τ) : Prop :=
  s.txPending = 0 ∧ (∀ b i, s.wmmTxPending b i = 0) ∧ (∀ b i, s.stopped b i = false) ∧ (∀ t, s.pc t = .idle) ∧
    s.outstanding = []

variable (τ) in
/-- The counters with any number of senders and completions. -/
def txFlowSystem : System (TxFlow ι τ) (TxOp ι τ) :=
  ⟨TxFlow.Init, TxFlow.step lim⟩

/-! ## What flow control is for -/

/-- The party is not between accepting, counting and stopping, nor between a completion and waking. -/
def TxPlace.Outside : TxPlace ι → Prop
  | .idle | .handing _ => True
  | _ => False

/-- The packet is counted in this counter. -/
def TxPacket.On (b : ι) (i : ℕ) (p : TxPacket ι) : Prop :=
  p.bss = b ∧ p.index = i

instance (b : ι) (i : ℕ) : DecidablePred (TxPacket.On b i) := fun p =>
  inferInstanceAs (Decidable (p.bss = b ∧ p.index = i))

/-- The packets of a queue that are outstanding. -/
def TxFlow.pendingOn (s : TxFlow ι τ) (b : ι) (i : ℕ) : ℕ :=
  s.outstanding.countP fun p => p.On b i

/-- **Flow control.** With no party in between, each counter is the number of the outstanding packets of its queue,
`tx_pending` is their sum, and of a stopped queue more than `low_tx_pending` packets are outstanding. -/
structure TxFlow.Controlled [Fintype ι] (s : TxFlow ι τ) : Prop where
  queue : ∀ b, ∀ i < 4, s.wmmTxPending b i = s.pendingOn b i
  total : s.txPending = ∑ b, ∑ i ∈ Finset.range 4, s.wmmTxPending b i
  stopped : ∀ b, ∀ i < 4, s.stopped b i = true → (lim b).lowTxPending < s.pendingOn b i

/-- The packet that is accepted has a mapping below 4, the queue that is stopped a counter above the low mark. -/
def TxPlace.Timely (s : TxFlow ι τ) : TxPlace ι → Prop
  | .handing p => p.skb.queueMapping < 4
  | .stopping p => (lim p.bss).lowTxPending < s.wmmTxPending p.bss p.index
  | _ => True

/-- The condition on a step. -/
def TxOp.Timely (s : TxFlow ι τ) : TxOp ι τ → Prop
  | .send t .pending | .advance t => (s.pc t).Timely lim s
  | _ => True

instance (c : TxPlace ι) : Decidable c.Outside := by
  unfold TxPlace.Outside
  split <;> infer_instance

instance (s : TxFlow ι τ) (c : TxPlace ι) : Decidable (c.Timely lim s) := by
  unfold TxPlace.Timely
  split <;> infer_instance

instance (s : TxFlow ι τ) (op : TxOp ι τ) : Decidable (op.Timely lim s) := by
  unfold TxOp.Timely
  split <;> infer_instance

/-! ## What the parties owe the counters -/

/-- The packet of a party that has to do with the counters. -/
def TxPlace.packet : TxPlace ι → Option (TxPacket ι)
  | .idle | .handing _ => none
  | .accepted p | .counting p | .testing p | .stopping p | .completed p | .releasing p | .looking p | .waking p => some p

/-- A packet that is accepted and not in `wmm_tx_pending` yet. -/
def TxPlace.uncounted (b : ι) (i : ℕ) : TxPlace ι → ℕ
  | .accepted p | .counting p => if p.On b i then 1 else 0
  | _ => 0

/-- A packet that is completed and still in `wmm_tx_pending`. -/
def TxPlace.unreleased (b : ι) (i : ℕ) : TxPlace ι → ℕ
  | .completed p | .releasing p => if p.On b i then 1 else 0
  | _ => 0

/-- A packet that is accepted and not in `tx_pending` yet. -/
def TxPlace.uncountedTotal : TxPlace ι → ℕ
  | .accepted _ => 1
  | _ => 0

/-- A packet that is completed and still in `tx_pending`. -/
def TxPlace.unreleasedTotal : TxPlace ι → ℕ
  | .completed _ => 1
  | _ => 0

/-- The party has done for the counters what it has to do. -/
def TxPlace.Even : TxPlace ι → Prop
  | .accepted _ | .counting _ | .completed _ | .releasing _ => False
  | _ => True

theorem TxPlace.Even.owes {c : TxPlace ι} (h : c.Even) : (∀ b i, c.uncounted b i = 0 ∧ c.unreleased b i = 0) ∧
    c.uncountedTotal = 0 ∧ c.unreleasedTotal = 0 := by
  cases c <;> simp_all [TxPlace.Even, TxPlace.uncounted, TxPlace.unreleased, TxPlace.uncountedTotal,
    TxPlace.unreleasedTotal]

theorem TxPlace.Outside.even {c : TxPlace ι} (h : c.Outside) : c.Even := by
  cases c <;> first | exact h | trivial

/-- A completion is about to wake the queue. -/
def TxPlace.Wakes (b : ι) (i : ℕ) : TxPlace ι → Prop
  | .looking p | .waking p => p.On b i
  | _ => False

/-- Below 4 the completion uses the sender's index. -/
theorem TxPacket.index_eq {p : TxPacket ι} (h : p.skb.queueMapping < 4) : p.index = p.skb.queueMapping := by
  unfold TxPacket.index
  split <;> omega

variable [Fintype ι] [Fintype τ]

/-- Each packet is of one interface and of one queue. -/
theorem sum_countP_on {l : List (TxPacket ι)} (hl : ∀ p ∈ l, p.skb.queueMapping < 4) :
    ∑ b, ∑ i ∈ Finset.range 4, l.countP (fun p => p.On b i) = l.length := by
  induction l with
  | nil => simp
  | cons p l ih =>
    have hp : p.index < 4 := by
      rw [TxPacket.index_eq (hl p (by simp))]
      exact hl p (by simp)
    have hone : ∑ b, ∑ i ∈ Finset.range 4, (if decide (p.On b i) = true then 1 else 0) = 1 := by
      simp only [TxPacket.On]
      rw [Finset.sum_eq_single_of_mem p.bss (Finset.mem_univ _) fun b _ hb => by simp [hb.symm]]
      simp [hp]
    simp only [countP_cons, Finset.sum_add_distrib, hone, ih fun q hq => hl q (mem_cons_of_mem _ hq),
      length_cons]

/-- What the counters, the parties and the queues are to each other at any time. -/
structure FlowInv (s : TxFlow ι τ) : Prop where
  small : ∀ p ∈ s.outstanding, p.skb.queueMapping < 4
  carried : ∀ t, ∀ p ∈ (s.pc t).packet, p.skb.queueMapping < 4
  queue : ∀ b i, s.wmmTxPending b i + poolSum (TxPlace.uncounted b i) s.pc =
    s.pendingOn b i + poolSum (TxPlace.unreleased b i) s.pc
  total : s.txPending + poolSum TxPlace.uncountedTotal s.pc =
    s.outstanding.length + poolSum TxPlace.unreleasedTotal s.pc
  woken : ∀ b i, s.stopped b i = true →
    (lim b).lowTxPending < s.wmmTxPending b i ∨ ∃ t, (s.pc t).Wakes b i

/-! ## One step -/

variable {lim} {s s' : TxFlow ι τ} {t : τ} {c : TxPlace ι} {p : TxPacket ι} {b : ι} {i : ℕ}

theorem addQueue_apply (s : TxFlow ι τ) (p : TxPacket ι) (d : ℤ) (b : ι) (i : ℕ) :
    (s.addQueue p.bss p.index d).wmmTxPending b i = s.wmmTxPending b i + if p.On b i then d else 0 := by
  by_cases hb : p.bss = b
  · by_cases hi : p.index = i
    · subst hb hi
      simp [TxFlow.addQueue, TxPacket.On]
    · subst hb
      simp [TxFlow.addQueue, TxPacket.On, hi, Ne.symm hi]
  · simp [TxFlow.addQueue, TxPacket.On, hb, Ne.symm hb]

theorem setStopped_apply (s : TxFlow ι τ) (p : TxPacket ι) (v : Bool) (b : ι) (i : ℕ) :
    (s.setStopped p.bss p.index v).stopped b i = if p.On b i then v else s.stopped b i := by
  by_cases hb : p.bss = b
  · by_cases hi : p.index = i
    · subst hb hi
      simp [TxFlow.setStopped, TxPacket.On]
    · subst hb
      simp [TxFlow.setStopped, TxPacket.On, hi, Ne.symm hi]
  · simp [TxFlow.setStopped, TxPacket.On, hb, Ne.symm hb]

/-- Whoever wakes a queue still does when another party moves. -/
theorem wakes_update (h : ∃ t', (s.pc t').Wakes b i) (hc : (s.pc t).Wakes b i → c.Wakes b i) :
    ∃ t', (update s.pc t c t').Wakes b i := by
  obtain ⟨t', ht'⟩ := h
  by_cases htt : t' = t
  · subst htt
    exact ⟨t', by simpa using hc ht'⟩
  · exact ⟨t', by simpa [htt] using ht'⟩

namespace FlowInv

section

variable (h : FlowInv lim s)

include h

/-- A party moves, and the counters change by what it owes them less or more than before. -/
theorem move (hpc : s'.pc = update s.pc t c)
    (hsmall : ∀ p ∈ s'.outstanding, p.skb.queueMapping < 4) (hcarried : ∀ p ∈ c.packet, p.skb.queueMapping < 4)
    (hqueue : ∀ b i, s'.wmmTxPending b i + c.uncounted b i + (s.pc t).unreleased b i + s.pendingOn b i =
      s.wmmTxPending b i + (s.pc t).uncounted b i + c.unreleased b i + s'.pendingOn b i)
    (htotal : s'.txPending + c.uncountedTotal + (s.pc t).unreleasedTotal + s.outstanding.length =
      s.txPending + (s.pc t).uncountedTotal + c.unreleasedTotal + s'.outstanding.length)
    (hwoken : ∀ b i, s'.stopped b i = true →
      (lim b).lowTxPending < s'.wmmTxPending b i ∨ ∃ t', (s'.pc t').Wakes b i) : FlowInv lim s' := by
  refine ⟨hsmall, fun t' p hp => ?_, fun b i => ?_, ?_, hwoken⟩
  · rw [hpc] at hp
    by_cases htt : t' = t
    · subst htt
      rw [update_self] at hp
      exact hcarried p hp
    · rw [update_of_ne htt] at hp
      exact h.carried t' p hp
  · have hold := h.queue b i
    have hnew := hqueue b i
    have huncounted := poolSum_update (TxPlace.uncounted b i) s.pc t c
    have hunreleased := poolSum_update (TxPlace.unreleased b i) s.pc t c
    rw [hpc]
    omega
  · have hold := h.total
    have huncounted := poolSum_update TxPlace.uncountedTotal s.pc t c
    have hunreleased := poolSum_update TxPlace.unreleasedTotal s.pc t c
    rw [hpc]
    omega

/-- Statistics do not matter. -/
theorem account (b : ι) (f : TxStats → TxStats) : FlowInv lim (s.account b f) :=
  { h with }

/-- A party that owes nothing moves, and still owes nothing. -/
theorem stay (ht : (s.pc t).Even) (hc : c.Even) (hcarried : ∀ p ∈ c.packet, p.skb.queueMapping < 4)
    (hwakes : ∀ b i, s.stopped b i = true → (s.pc t).Wakes b i → c.Wakes b i) : FlowInv lim (s.move t c) := by
  obtain ⟨hq, ht1, ht2⟩ := ht.owes
  obtain ⟨hq', hc1, hc2⟩ := hc.owes
  refine h.move rfl h.small hcarried (fun b i => ?_) (by simp [ht1, ht2, hc1, hc2, TxFlow.move]) fun b i hs =>
    (h.woken b i hs).imp_right fun hk => wakes_update hk (hwakes b i hs)
  simp [hq, hq', TxFlow.move, TxFlow.pendingOn]

/-- A party that has not to do with the counters stays so. -/
theorem outside (ht : (s.pc t).Outside) (hc : c.Outside) : FlowInv lim (s.move t c) := by
  refine h.stay ht.even hc.even (fun p hp => ?_) fun b i _ hw => ?_
  · cases c <;> first | exact absurd hc id | cases hp
  · cases hpc : s.pc t <;> rw [hpc] at ht hw <;> first | exact absurd ht id | exact absurd hw id

theorem startXmit (ht : s.pc t = .idle) (b : ι) (skb : Skb) (r : Prelude) :
    FlowInv lim (s.startXmit lim t b skb r) := by
  unfold TxFlow.startXmit
  split
  · exact h.account b _
  · cases r with
    | handOver => exact h.outside (by simp [ht, TxPlace.Outside]) trivial
    | drop => exact h.account b _
    | held => exact h

/-- The core accepts a packet : it is outstanding and not counted. -/
theorem accept (ht : s.pc t = .handing p) (hp : p.skb.queueMapping < 4) :
    FlowInv lim (s.send t p .pending) := by
  refine h.move (c := .accepted p) rfl (fun q hq => ?_) (fun q hq => ?_) (fun b i => ?_) ?_ fun b i hs => ?_
  · rcases mem_append.mp hq with hq | hq
    · exact h.small q hq
    · rw [mem_singleton.mp hq]
      exact hp
  · rw [← some.inj hq]
    exact hp
  · simp only [TxFlow.send, TxFlow.move, TxFlow.pendingOn, TxPlace.uncounted, TxPlace.unreleased, ht,
      countP_append, countP_singleton, decide_eq_true_eq]
    omega
  · simp only [TxFlow.send, TxFlow.move, TxPlace.uncountedTotal, TxPlace.unreleasedTotal, ht, length_append,
      length_singleton]
    omega
  · exact (h.woken b i hs).imp_right fun hk => wakes_update hk fun hw => absurd hw (by simp [ht, TxPlace.Wakes])

theorem send (ht : s.pc t = .handing p) (r : SendStatus)
    (hp : r = .pending → p.skb.queueMapping < 4) : FlowInv lim (s.send t p r) := by
  cases r with
  | pending => exact h.accept ht (hp rfl)
  | success => exact (h.account p.bss _).outside (by simp [TxFlow.account, ht, TxPlace.Outside]) trivial
  | failure => exact (h.account p.bss _).outside (by simp [TxFlow.account, ht, TxPlace.Outside]) trivial

end

/-- What the completion changes up to its counters. -/
theorem complete_fields (s : TxFlow ι τ) (t : τ) (k : ℕ) (hp : p.skb.queueMapping < 4) (r : Bool) :
    (s.complete t k p r).outstanding = s.outstanding.eraseIdx k ∧ (s.complete t k p r).wmmTxPending = s.wmmTxPending ∧
      (s.complete t k p r).txPending = s.txPending ∧ (s.complete t k p r).stopped = s.stopped ∧
      (s.complete t k p r).pc = update s.pc t (.completed p) := by
  cases r <;> simp [TxFlow.complete, TxFlow.move, TxFlow.account, hp]

section

variable (h : FlowInv lim s)

include h

/-- The core completes a packet : it is no longer outstanding and still counted. -/
theorem complete {k : ℕ} (ht : s.pc t = .idle) (hk : s.outstanding[k]? = some p) (r : Bool) :
    FlowInv lim (s.complete t k p r) := by
  have hp : p.skb.queueMapping < 4 := h.small p (mem_of_getElem? hk)
  obtain ⟨hlt, hget⟩ := List.getElem?_eq_some_iff.mp hk
  have hperm := hget ▸ getElem_cons_eraseIdx_perm hlt
  obtain ⟨hout, hw, htotal, hstop, hpc⟩ := complete_fields s t k hp r
  refine h.move hpc (fun q hq => ?_) (fun q hq => ?_) (fun b i => ?_) ?_ fun b i hs => ?_
  · rw [hout] at hq
    exact h.small q (mem_of_mem_eraseIdx hq)
  · rw [← some.inj hq]
    exact hp
  · have hcount := hperm.countP_eq fun q => decide (q.On b i)
    simp only [countP_cons, decide_eq_true_eq] at hcount
    rw [TxFlow.pendingOn, TxFlow.pendingOn, hw, hout, ht]
    simp only [TxPlace.uncounted, TxPlace.unreleased]
    omega
  · have hlen := hperm.length_eq
    simp only [length_cons] at hlen
    rw [htotal, hout, ht]
    simp only [TxPlace.uncountedTotal, TxPlace.unreleasedTotal]
    omega
  · rw [hstop] at hs
    rw [hw, hpc]
    exact (h.woken b i hs).imp_right fun hw => wakes_update hw fun hw => absurd hw (by simp [ht, TxPlace.Wakes])

/-- `atomic_dec_return` of the queue's counter : at the low mark the completion goes on to wake the queue, and below it
somebody already has. -/
theorem release (ht : s.pc t = .releasing p) (hs' : s.advance lim t (.releasing p) = some s') :
    FlowInv lim s' := by
  have hp : p.skb.queueMapping < 4 := h.carried t p (by simp [ht, TxPlace.packet])
  simp only [TxFlow.advance, ← TxPacket.index_eq hp, some.injEq] at hs'
  subst hs'
  have happly := addQueue_apply s p (-1)
  set c : TxPlace ι := if asU32 ((s.addQueue p.bss p.index (-1)).wmmTxPending p.bss p.index) = (lim p.bss).lowTxPending
    then .looking p else .idle with hcdef
  have hc : c = .looking p ∨ c = .idle := ite_eq_or_eq _ _ _
  have heven : c.Even := by
    rcases hc with hc | hc <;> rw [hc] <;> trivial
  obtain ⟨hq, hc1, hc2⟩ := heven.owes
  refine h.move (c := c) rfl h.small (fun q hq => ?_) (fun b i => ?_) ?_ fun b i hs => ?_
  · rcases hc with hc | hc <;> rw [hc] at hq
    · rw [← some.inj hq]
      exact hp
    · cases hq
  · have hvalue := happly b i
    have hpend : ((s.addQueue p.bss p.index (-1)).move t c).pendingOn b i = s.pendingOn b i := rfl
    have hw : ((s.addQueue p.bss p.index (-1)).move t c).wmmTxPending b i =
        s.wmmTxPending b i + if p.On b i then -1 else 0 := hvalue
    rw [hpend, hw, ht, (hq b i).1, (hq b i).2]
    simp only [TxPlace.uncounted, TxPlace.unreleased]
    split <;> omega
  · rw [ht, hc1, hc2]
    rfl
  · change (_ : ℤ) < (s.addQueue p.bss p.index (-1)).wmmTxPending b i ∨ ∃ t', (update s.pc t c t').Wakes b i
    rcases h.woken b i hs with hlow | hk
    · by_cases hon : p.On b i
      · obtain ⟨rfl, rfl⟩ := hon
        have hvalue := happly p.bss p.index
        rw [if_pos ⟨rfl, rfl⟩] at hvalue
        by_cases hmark : (lim p.bss).lowTxPending < s.wmmTxPending p.bss p.index - 1
        · left
          omega
        · have heq : (s.addQueue p.bss p.index (-1)).wmmTxPending p.bss p.index = (lim p.bss).lowTxPending := by omega
          have hrange := (lim p.bss).max_lt
          have hless := (lim p.bss).low_lt_max
          have hlook : c = .looking p := by
            rw [hcdef, if_pos]
            rw [heq, asU32]
            omega
          exact .inr ⟨t, by simp [hlook, TxPlace.Wakes, TxPacket.On]⟩
      · left
        rw [happly, if_neg hon]
        omega
    · exact .inr (wakes_update hk fun hw => absurd hw (by simp [ht, TxPlace.Wakes]))

theorem countQueue (ht : s.pc t = .counting p) :
    FlowInv lim ((s.addQueue p.bss p.index 1).move t (.testing p)) := by
  have happly := addQueue_apply s p 1
  refine h.move (c := .testing p) rfl h.small (fun q hq => h.carried t q (by simpa [ht, TxPlace.packet] using hq))
    (fun b i => ?_) ?_ fun b i hs => ?_
  · have hw : ((s.addQueue p.bss p.index 1).move t (.testing p)).wmmTxPending b i =
        s.wmmTxPending b i + if p.On b i then 1 else 0 := happly b i
    have hpend : ((s.addQueue p.bss p.index 1).move t (.testing p)).pendingOn b i = s.pendingOn b i := rfl
    rw [hpend, hw, ht]
    simp only [TxPlace.uncounted, TxPlace.unreleased]
    split <;> omega
  · simp [ht, TxFlow.move, TxFlow.addQueue, TxPlace.uncountedTotal, TxPlace.unreleasedTotal]
  · change (_ : ℤ) < (s.addQueue p.bss p.index 1).wmmTxPending b i ∨ ∃ t', (update s.pc t _ t').Wakes b i
    refine (h.woken b i hs).imp (fun hlow => ?_) fun hw =>
      wakes_update hw fun hw => absurd hw (by simp [ht, TxPlace.Wakes])
    rw [happly]
    split <;> omega

/-- The queue is stopped, with its counter above the low mark, or woken. -/
theorem setStopped {v : Bool} (ht : (s.pc t).Even)
    (hv : v = true → (lim p.bss).lowTxPending < s.wmmTxPending p.bss p.index)
    (hw : ∀ b i, (s.pc t).Wakes b i → v = false ∧ p.On b i) :
    FlowInv lim ((s.setStopped p.bss p.index v).move t .idle) := by
  obtain ⟨hq, ht1, ht2⟩ := ht.owes
  refine h.move (c := .idle) rfl h.small (fun q hq => by cases hq) (fun b i => ?_) ?_ fun b i hs => ?_
  · rw [(hq b i).1, (hq b i).2]
    rfl
  · rw [ht1, ht2]
    rfl
  · have hs' : (if p.On b i then v else s.stopped b i) = true := setStopped_apply s p v b i ▸ hs
    by_cases hon : p.On b i
    · rw [if_pos hon] at hs'
      obtain ⟨rfl, rfl⟩ := hon
      exact .inl (hv hs')
    · rw [if_neg hon] at hs'
      exact (h.woken b i hs').imp_right fun hk => wakes_update hk fun hk => absurd (hw b i hk).2 hon

theorem advance (hk : (s.pc t).Timely lim s) (hs' : s.advance lim t (s.pc t) = some s') :
    FlowInv lim s' := by
  have hcar := h.carried t
  cases ht : s.pc t with
  | idle => simp [ht, TxFlow.advance] at hs'
  | handing p => simp [ht, TxFlow.advance] at hs'
  | accepted p =>
    simp only [ht, TxFlow.advance, some.injEq] at hs'
    subst hs'
    refine h.move (c := .counting p) rfl h.small (fun q hq => hcar q (by simpa [ht, TxPlace.packet] using hq))
      (fun b i => ?_) ?_ fun b i hs => ?_
    · simp [ht, TxFlow.move, TxFlow.pendingOn, TxPlace.uncounted, TxPlace.unreleased]
    · simp [ht, TxFlow.move, TxPlace.uncountedTotal, TxPlace.unreleasedTotal]
    · exact (h.woken b i hs).imp_right fun hw => wakes_update hw fun hw => absurd hw (by simp [ht, TxPlace.Wakes])
  | counting p =>
    simp only [ht, TxFlow.advance, some.injEq] at hs'
    exact hs' ▸ h.countQueue ht
  | testing p =>
    simp only [ht, TxFlow.advance, some.injEq] at hs'
    refine hs' ▸ h.stay (by simp [ht, TxPlace.Even]) (by split <;> trivial) (fun q hq => ?_) fun b i _ hw =>
      absurd hw (by simp [ht, TxPlace.Wakes])
    split at hq
    · exact hcar q (by simpa [ht, TxPlace.packet] using hq)
    · cases hq
  | stopping p =>
    rw [ht] at hk
    simp only [ht, TxFlow.advance, some.injEq] at hs'
    exact hs' ▸ h.setStopped (by simp [ht, TxPlace.Even]) (fun _ => hk) fun b i hw =>
      absurd hw (by simp [ht, TxPlace.Wakes])
  | completed p =>
    simp only [ht, TxFlow.advance, some.injEq] at hs'
    subst hs'
    refine h.move (c := .releasing p) rfl h.small (fun q hq => hcar q (by simpa [ht, TxPlace.packet] using hq))
      (fun b i => ?_) ?_ fun b i hs => ?_
    · simp [TxFlow.move, TxFlow.pendingOn, ht, TxPlace.uncounted, TxPlace.unreleased]
    · simp only [TxFlow.move, ht, TxPlace.uncountedTotal, TxPlace.unreleasedTotal]
      omega
    · exact (h.woken b i hs).imp_right fun hw => wakes_update hw fun hw => absurd hw (by simp [ht, TxPlace.Wakes])
  | releasing p => exact h.release ht (ht ▸ hs')
  | looking p =>
    have hp : p.skb.queueMapping < 4 := hcar p (by simp [ht, TxPlace.packet])
    simp only [ht, TxFlow.advance, some.injEq] at hs'
    refine hs' ▸ h.stay (by simp [ht, TxPlace.Even]) (by split <;> trivial) (fun q hq => ?_) fun b i hs hw => ?_
    · split at hq
      · exact hcar q (by simpa [ht, TxPlace.packet] using hq)
      · cases hq
    · -- The queue that is looked at is stopped.
      rw [ht] at hw
      obtain ⟨rfl, rfl⟩ := hw
      rw [TxPacket.index_eq hp] at hs
      rw [if_pos hs]
      exact ⟨rfl, rfl⟩
  | waking p =>
    have hp : p.skb.queueMapping < 4 := hcar p (by simp [ht, TxPlace.packet])
    simp only [ht, TxFlow.advance, ← TxPacket.index_eq hp, some.injEq] at hs'
    exact hs' ▸ h.setStopped (by simp [ht, TxPlace.Even]) (fun hv => by cases hv) fun b i hw =>
      ⟨rfl, by simpa [ht, TxPlace.Wakes] using hw⟩

/-- One step whose packet has a mapping below 4, and that does not stop a queue too late. -/
theorem step {op : TxOp ι τ} (hk : op.Timely lim s) (hs : s.step lim op = some s') :
    FlowInv lim s' := by
  cases op with
  | startXmit t b skb r =>
    simp only [TxFlow.step, ite_none_right_eq_some, some.injEq] at hs
    exact hs.2 ▸ h.startXmit hs.1 b skb r
  | sendTcpAck t b skb =>
    simp only [TxFlow.step, ite_none_right_eq_some, some.injEq] at hs
    exact hs.2 ▸ h.outside (by simp [hs.1, TxPlace.Outside]) trivial
  | tcpAckTimer t b held =>
    simp only [TxFlow.step, ite_none_right_eq_some, some.injEq] at hs
    obtain ⟨ht, rfl⟩ := hs
    cases held with
    | none => exact h
    | some skb => exact h.outside (by simp [ht, TxPlace.Outside]) trivial
  | send t r =>
    simp only [TxFlow.step] at hs
    split at hs
    · rename_i p ht
      refine some.inj hs ▸ h.send ht r ?_
      rintro rfl
      simpa [TxOp.Timely, TxPlace.Timely, ht] using hk
    · cases hs
  | complete t k r =>
    simp only [TxFlow.step, ite_none_right_eq_some, map_eq_some_iff] at hs
    obtain ⟨ht, p, hp, rfl⟩ := hs
    exact h.complete ht hp r
  | advance t => exact h.advance hk hs

end

theorem init (hs : s.Init) : FlowInv lim s := by
  obtain ⟨ht, hw, hst, hpc, ho⟩ := hs
  refine ⟨by simp [ho], fun t p hp => ?_, fun b i => ?_, ?_, fun b i h => ?_⟩
  · rw [hpc] at hp
    cases hp
  · simp [hw, ho, hpc, poolSum, TxFlow.pendingOn, TxPlace.uncounted, TxPlace.unreleased]
  · simp [ht, ho, hpc, poolSum, TxPlace.uncountedTotal, TxPlace.unreleasedTotal]
  · rw [hst] at h
    cases h

/-- With no party in between, flow control is as it should be. -/
theorem controlled (h : FlowInv lim s) (hout : ∀ t, (s.pc t).Outside) : s.Controlled lim := by
  have howes : ∀ t, _ := fun t => (hout t).even.owes
  have hqueue : ∀ b i, s.wmmTxPending b i = s.pendingOn b i := fun b i => by
    have hu : poolSum (TxPlace.uncounted b i) s.pc = 0 := poolSum_eq_zero.mpr fun t => ((howes t).1 b i).1
    have hr : poolSum (TxPlace.unreleased b i) s.pc = 0 := poolSum_eq_zero.mpr fun t => ((howes t).1 b i).2
    have := h.queue b i
    omega
  refine ⟨fun b i _ => hqueue b i, ?_, fun b i _ hs => ?_⟩
  · have hu : poolSum TxPlace.uncountedTotal s.pc = 0 := poolSum_eq_zero.mpr fun t => (howes t).2.1
    have hr : poolSum TxPlace.unreleasedTotal s.pc = 0 := poolSum_eq_zero.mpr fun t => (howes t).2.2
    have htotal := h.total
    have hlength : s.txPending = s.outstanding.length := by omega
    simp only [hqueue, TxFlow.pendingOn]
    rw [hlength, ← sum_countP_on h.small]
    simp only [Nat.cast_sum]
  · rcases h.woken b i hs with hlow | ⟨t, ht⟩
    · have := hqueue b i
      omega
    · have hto := hout t
      cases hpc : s.pc t <;> rw [hpc] at ht hto <;> first | exact absurd hto id | exact absurd ht id

end FlowInv

/-- **Flow control never wedges a queue** in a run whose accepted packets have a queue mapping below 4, and in which a
queue is stopped while its counter is above the low mark. -/
theorem flow_control (h : (txFlowSystem τ lim).ReachableWhen (fun s op => op.Timely lim s) s)
    (hout : ∀ t, (s.pc t).Outside) : s.Controlled lim := by
  have hinv : FlowInv lim s :=
    h.invariant (fun _ => FlowInv.init) fun _ _ _ hi hc hs => hi.step hc hs
  exact hinv.controlled hout

end

/-! ## Small runs -/

/-- A queue is stopped with two packets, and woken with one. -/
def smallLimits : Unit → TxLimits := fun _ =>
  ⟨2, 1, 1500, by decide, by decide, by decide⟩

/-- One interface before its first packet. -/
def txFlowStart : TxFlow Unit (Fin 2) :=
  ⟨0, fun _ _ => 0, fun _ _ => false, fun _ => ⟨0, 0, 0, 0⟩, fun _ => .idle, []⟩

theorem txFlowStart_init : txFlowStart.Init :=
  ⟨rfl, fun _ _ => rfl, fun _ _ => rfl, fun _ => rfl, rfl⟩

/-- A party sends a packet and counts it, up to the test for `max_tx_pending`. -/
def sendAndCount (t : Fin 2) (m : ℕ) : List (TxOp Unit (Fin 2)) :=
  [.startXmit t () ⟨100, m⟩ .handOver, .send t .pending, .advance t, .advance t]

/-- The core completes its first packet, and the completion takes it out of the counters. -/
def completeFirst (t : Fin 2) : List (TxOp Unit (Fin 2)) :=
  [.complete t 0 true, .advance t, .advance t]

/-- The second of two packets stops the queue, and the completion of the first one wakes it. -/
theorem flow_control_woken : ∃ s,
    (txFlowSystem (Fin 2) smallLimits).ReachableWhen (fun s op => op.Timely smallLimits s) s ∧
      s.Controlled smallLimits ∧ s.stopped () 0 = false ∧ s.outstanding.length = 1 := by
  obtain ⟨s, hs, hp⟩ := System.exists_reachableWhen_of_runWhen (M := txFlowSystem (Fin 2) smallLimits)
    (C := fun s op => op.Timely smallLimits s)
    (P := fun s => decide ((∀ t, (s.pc t).Outside) ∧ s.stopped () 0 = false ∧ s.outstanding.length = 1))
    (l := sendAndCount 0 0 ++ [TxOp.advance 0] ++ sendAndCount 0 0 ++ [TxOp.advance 0, .advance 0] ++ completeFirst 1 ++
      [TxOp.advance 1, .advance 1])
    (.init txFlowStart_init) (by decide +kernel)
  obtain ⟨hout, hstop, hlen⟩ := of_decide_eq_true hp
  exact ⟨s, hs, flow_control hs hout, hstop, hlen⟩

/-- Both packets are completed between the test of the second sender and its stop of the queue : the queue stays
stopped, with nothing outstanding. A packet with queue mapping 4 is counted and never taken out. -/
theorem queue_wedged : (∃ s, (txFlowSystem (Fin 2) smallLimits).Reachable s ∧ (∀ t, (s.pc t).Outside) ∧
      s.stopped () 0 = true ∧ s.outstanding = [] ∧ ¬s.Controlled smallLimits) ∧
    ∃ s, (txFlowSystem (Fin 2) smallLimits).Reachable s ∧ (∀ t, (s.pc t).Outside) ∧
      s.wmmTxPending () 3 = 1 ∧ s.outstanding = [] ∧ ¬s.Controlled smallLimits := by
  constructor
  · obtain ⟨s, hs, hp⟩ := System.exists_reachable_of_run (M := txFlowSystem (Fin 2) smallLimits)
      (P := fun s => decide ((∀ t, (s.pc t).Outside) ∧ s.stopped () 0 = true ∧ s.outstanding = []))
      (l := sendAndCount 0 0 ++ [TxOp.advance 0] ++ sendAndCount 0 0 ++ [TxOp.advance 0] ++ completeFirst 1 ++
        [TxOp.advance 1] ++ completeFirst 1 ++ [TxOp.advance 0]) txFlowStart_init (by decide +kernel)
    obtain ⟨hout, hstop, hnil⟩ := of_decide_eq_true hp
    refine ⟨s, hs, hout, hstop, hnil, fun hc => ?_⟩
    have hlow := hc.stopped () 0 (by decide) hstop
    simp [TxFlow.pendingOn, hnil] at hlow
  · obtain ⟨s, hs, hp⟩ := System.exists_reachable_of_run (M := txFlowSystem (Fin 2) smallLimits)
      (P := fun s => decide ((∀ t, (s.pc t).Outside) ∧ s.wmmTxPending () 3 = 1 ∧ s.outstanding = []))
      (l := sendAndCount 0 4 ++ [TxOp.advance 0, .complete 1 0 true]) txFlowStart_init (by decide +kernel)
    obtain ⟨hout, hcount, hnil⟩ := of_decide_eq_true hp
    refine ⟨s, hs, hout, hcount, hnil, fun hc => ?_⟩
    have hzero := hc.queue () 3 (by decide)
    simp [hcount, TxFlow.pendingOn, hnil] at hzero

end WlanDriver.Shim
