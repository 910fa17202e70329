import WlanDriver.Lib.System
import Mathlib.Data.List.Infix

/-!
# The receive budget

One call of `mlan_rx_process`, with what comes in between its steps : packets are queued, further receive requests find the
call under way and leave `more_rx_task_flag`, `rx_lock_flag` and the drop point of the throughput test change. A step is what
the call does under one lock, or one test.

The limit is tested behind each packet. A request that is found once it was reached starts the loop again, and a packet
that is dropped at `RX_DROP_P2`, which `data_complete` gets in place of `handle_rx_packet`, is followed by no test. Else the
call handles no more packets than the limit and reports their number. Without a limit it goes on until the queue is empty :
what was queued when it started, or when a request that it saw was made, is handled or dropped (`BudgetCall.rx_budget`).
-/

namespace WlanDriver.Rx

open Option

/-- Where a call is. -/
inductive BudgetPc (β : Type*)
  | enter
  /-- `rx_process_start`. -/
  | start
  /-- The packet was taken from the queue. -/
  | taken (pmbuf : β)
  /-- Behind `handle_rx_packet`. -/
  | passed
  /-- Behind the loop. -/
  | left
  /-- `*rx_pkts` is written. -/
  | reported
  /-- `exit_rx_proc`, of a call that processed. -/
  | done
  /-- `exit_rx_proc`, of a call that found the process running or locked. -/
  | refused
  deriving DecidableEq

/-- A call of `mlan_rx_process` : the queue, the flags, its variables and where it is. `ended` and `queued` are
history : all the packets that the call is done with, and whether `handle_rx_packet` got them or they were dropped, and all
that were queued so far; `asked` of these were queued when the call started or a request was made, whichever was last. -/
structure BudgetCall (β : Type*) where
  rxDataQueue : List β
  mlanRxProcessing : Bool
  moreRxTaskFlag : Bool
  rxLockFlag : Bool
  /-- `tp_state_drop_point` is `RX_DROP_P2`. -/
  dropP2 : Bool
  /-- `*rx_pkts`, `none` for a null pointer. -/
  rxPkts : Option UInt8
  limit : UInt8
  rxNum : UInt8
  pc : BudgetPc β
  ended : List (β × Bool)
  queued : List β
  asked : ℕ
  deriving DecidableEq

/-- The steps : of the call, and of the others. -/
inductive BudgetOp (β : Type*)
  | call
  | queue (pmbuf : β)
  | request
  | block (b : Bool)
  | dropPoint (b : Bool)
  deriving DecidableEq

variable {β : Type*}

namespace BudgetCall

variable (s : BudgetCall β)

/-- The next step of the call. -/
def next : Option (BudgetCall β) :=
  match s.pc with
  | .enter =>
    if s.mlanRxProcessing ∨ s.rxLockFlag then
      some { s with moreRxTaskFlag := true, rxPkts := s.rxPkts.map fun _ => 0, pc := .refused }
    else some { s with mlanRxProcessing := true, limit := s.rxPkts.getD 0, asked := s.queued.length, pc := .start }
  | .start =>
    match s.rxDataQueue with
    | [] => some { s with pc := .left }
    | pmbuf :: queue => some { s with rxDataQueue := queue, rxNum := s.rxNum + 1, pc := .taken pmbuf }
  | .taken pmbuf =>
    if s.dropP2 then some { s with ended := s.ended ++ [(pmbuf, false)], pc := .start }
    else some { s with ended := s.ended ++ [(pmbuf, true)], pc := .passed }
  | .passed =>
    if s.limit ≠ 0 ∧ s.limit ≤ s.rxNum then some { s with pc := .left }
    else if s.rxLockFlag then some { s with pc := .left }
    else some { s with pc := .start }
  | .left => some { s with rxPkts := s.rxPkts.map fun _ => s.rxNum, pc := .reported }
  | .reported =>
    if s.moreRxTaskFlag then some { s with moreRxTaskFlag := false, pc := .start }
    else some { s with mlanRxProcessing := false, pc := .done }
  | .done | .refused => none

/-- The packets that `handle_rx_packet` got. -/
def handled : List β :=
  (s.ended.filter Prod.snd).map Prod.fst

/-- The call has not ended. -/
def running : Bool :=
  match s.pc with
  | .done | .refused => false
  | _ => true

/-- A call as it starts. -/
def Init : Prop :=
  s.pc = .enter ∧ s.rxNum = 0 ∧ s.limit = 0 ∧ s.ended = [] ∧ s.queued = s.rxDataQueue ∧ s.asked = 0

instance [DecidableEq β] : Decidable s.Init :=
  inferInstanceAs (Decidable (_ ∧ _))

/-- One step; a call that has ended takes no more. -/
def step : BudgetOp β → Option (BudgetCall β)
  | .call => s.next
  | .queue pmbuf =>
    if s.running then some { s with rxDataQueue := s.rxDataQueue ++ [pmbuf], queued := s.queued ++ [pmbuf] } else none
  | .request => if s.running then some { s with moreRxTaskFlag := true, asked := s.queued.length } else none
  | .block b => if s.running then some { s with rxLockFlag := b } else none
  | .dropPoint b => if s.running then some { s with dropP2 := b } else none

end BudgetCall

variable (β) in
/-- A call among the others. -/
def budgetSystem : System (BudgetCall β) (BudgetOp β) :=
  ⟨BudgetCall.Init, BudgetCall.step⟩

namespace BudgetCall

/-! ## What a step does -/

/-- The step of a call that has the packet `pmbuf` in hand. -/
def inHand : BudgetPc β → List β
  | .taken pmbuf => [pmbuf]
  | _ => []

/-- The steps of the others. -/
inductive Outside : BudgetCall β → BudgetCall β → Prop
  | queue (s : BudgetCall β) (pmbuf : β) :
      Outside s { s with rxDataQueue := s.rxDataQueue ++ [pmbuf], queued := s.queued ++ [pmbuf] }
  | request (s : BudgetCall β) : Outside s { s with moreRxTaskFlag := true, asked := s.queued.length }
  | block (s : BudgetCall β) (b : Bool) : Outside s { s with rxLockFlag := b }
  | dropPoint (s : BudgetCall β) (b : Bool) : Outside s { s with dropP2 := b }

theorem step_cases {s s' : BudgetCall β} {op : BudgetOp β} (h : s.step op = some s') :
    op = .call ∧ s.next = some s' ∨ op ≠ .call ∧ s.running = true ∧ Outside s s' := by
  cases op with
  | call => exact Or.inl ⟨rfl, h⟩
  | queue pmbuf =>
    rw [step] at h
    split_ifs at h with hr
    obtain rfl := some.inj h
    exact Or.inr ⟨by simp, hr, .queue s pmbuf⟩
  | request =>
    rw [step] at h
    split_ifs at h with hr
    obtain rfl := some.inj h
    exact Or.inr ⟨by simp, hr, .request s⟩
  | block b =>
    rw [step] at h
    split_ifs at h with hr
    obtain rfl := some.inj h
    exact Or.inr ⟨by simp, hr, .block s b⟩
  | dropPoint b =>
    rw [step] at h
    split_ifs at h with hr
    obtain rfl := some.inj h
    exact Or.inr ⟨by simp, hr, .dropPoint s b⟩

/-- What a step of the call does. -/
inductive Turn : BudgetCall β → BudgetCall β → Prop
  | refuse {s : BudgetCall β} (hpc : s.pc = .enter) :
      Turn s { s with moreRxTaskFlag := true, rxPkts := s.rxPkts.map fun _ => 0, pc := .refused }
  | enter {s : BudgetCall β} (hpc : s.pc = .enter) :
      Turn s { s with mlanRxProcessing := true, limit := s.rxPkts.getD 0, asked := s.queued.length, pc := .start }
  | empty {s : BudgetCall β} (hpc : s.pc = .start) (hq : s.rxDataQueue = []) : Turn s { s with pc := .left }
  | take {s : BudgetCall β} {pmbuf : β} {queue : List β} (hpc : s.pc = .start) (hq : s.rxDataQueue = pmbuf :: queue) :
      Turn s { s with rxDataQueue := queue, rxNum := s.rxNum + 1, pc := .taken pmbuf }
  | drop {s : BudgetCall β} {pmbuf : β} (hpc : s.pc = .taken pmbuf) (hd : s.dropP2 = true) :
      Turn s { s with ended := s.ended ++ [(pmbuf, false)], pc := .start }
  | handle {s : BudgetCall β} {pmbuf : β} (hpc : s.pc = .taken pmbuf) (hd : s.dropP2 = false) :
      Turn s { s with ended := s.ended ++ [(pmbuf, true)], pc := .passed }
  | reach {s : BudgetCall β} (hpc : s.pc = .passed) (hl : s.limit ≠ 0) : Turn s { s with pc := .left }
  | locked {s : BudgetCall β} (hpc : s.pc = .passed) (hl : s.rxLockFlag = true) : Turn s { s with pc := .left }
  | again {s : BudgetCall β} (hpc : s.pc = .passed) (hl : s.limit ≠ 0 → s.rxNum.toNat < s.limit.toNat) :
      Turn s { s with pc := .start }
  | report {s : BudgetCall β} (hpc : s.pc = .left) :
      Turn s { s with rxPkts := s.rxPkts.map fun _ => s.rxNum, pc := .reported }
  | more {s : BudgetCall β} (hpc : s.pc = .reported) (hm : s.moreRxTaskFlag = true) :
      Turn s { s with moreRxTaskFlag := false, pc := .start }
  | finish {s : BudgetCall β} (hpc : s.pc = .reported) (hm : s.moreRxTaskFlag = false) :
      Turn s { s with mlanRxProcessing := false, pc := .done }

theorem next_cases {s s' : BudgetCall β} (h : s.next = some s') : Turn s s' := by
  unfold next at h
  split at h
  · next hpc =>
    split_ifs at h
    · exact some.inj h ▸ .refuse hpc
    · exact some.inj h ▸ .enter hpc
  · next hpc =>
    split at h
    · next hq => exact some.inj h ▸ .empty hpc hq
    · next hq => exact some.inj h ▸ .take hpc hq
  · next hpc =>
    split_ifs at h with hd
    · exact some.inj h ▸ .drop hpc hd
    · exact some.inj h ▸ .handle hpc (by simpa using hd)
  · next hpc =>
    split_ifs at h with hl hlock
    · exact some.inj h ▸ .reach hpc hl.1
    · exact some.inj h ▸ .locked hpc hlock
    · refine some.inj h ▸ .again hpc fun hne => ?_
      exact Nat.lt_of_not_le fun hle => hl ⟨hne, UInt8.le_iff_toNat_le.mpr hle⟩
  · next hpc => exact some.inj h ▸ .report hpc
  · next hpc =>
    split_ifs at h with hm
    · exact some.inj h ▸ .more hpc hm
    · exact some.inj h ▸ .finish hpc (by simpa using hm)
  · cases h
  · cases h

/-! ## The limit -/

/-- A step that keeps to the limit : no packet is dropped in place of being handled, and no request is found once the limit
was reached. -/
def Kept (s : BudgetCall β) (op : BudgetOp β) : Prop :=
  op = .call → s.limit ≠ 0 → (inHand s.pc ≠ [] → s.dropP2 = false) ∧
    (s.pc = .reported → s.limit ≤ s.rxNum → s.moreRxTaskFlag = false)

/-- The packets that were counted are in hand or handled, none is dropped, and the limit was not reached where the next is
taken. -/
structure Budgeted (s : BudgetCall β) : Prop where
  unlimited : s.pc = .enter → s.rxNum = 0 ∧ s.ended = []
  counted : s.limit ≠ 0 → s.rxNum.toNat = s.ended.length + (inHand s.pc).length
  kept : s.limit ≠ 0 → ∀ p ∈ s.ended, p.2 = true
  le_limit : s.limit ≠ 0 → s.rxNum.toNat ≤ s.limit.toNat
  lt_limit : s.limit ≠ 0 → s.pc = .start → s.rxNum.toNat < s.limit.toNat
  pkts : s.limit ≠ 0 → s.rxPkts.isSome
  told : s.pc = .reported ∨ s.pc = .done → s.rxPkts = s.rxPkts.map fun _ => s.rxNum
  none_told : s.pc = .refused → s.ended = [] ∧ s.rxPkts = s.rxPkts.map fun _ => 0

theorem budgeted_init {s : BudgetCall β} (h : s.Init) : Budgeted s := by
  obtain ⟨hpc, hnum, hlimit, hended, -, -⟩ := h
  exact ⟨fun _ => ⟨hnum, hended⟩, fun hl => absurd hlimit hl, fun hl => absurd hlimit hl, fun hl => absurd hlimit hl,
    fun hl => absurd hlimit hl, fun hl => absurd hlimit hl, by simp [hpc], by simp [hpc]⟩

theorem budgeted_outside {s s' : BudgetCall β} (hs : Budgeted s) (h : Outside s s') : Budgeted s' := by
  cases h with
  | queue pmbuf => exact { hs with }
  | request => exact { hs with }
  | block b => exact { hs with }
  | dropPoint b => exact { hs with }

/-- The loop is left with no packet in hand. -/
theorem Budgeted.leave {s : BudgetCall β} (hs : Budgeted s) (hin : inHand s.pc = []) : Budgeted { s with pc := .left } := by
  refine ⟨by simp, fun hl => ?_, hs.kept, hs.le_limit, by simp, hs.pkts, by simp, by simp⟩
  have hcount := hs.counted hl
  rwa [hin] at hcount

theorem budgeted_turn {s s' : BudgetCall β} (hs : Budgeted s) (hk : s.Kept .call) (h : Turn s s') : Budgeted s' := by
  have hkept := hk rfl
  cases h with
  | refuse hpc =>
    exact ⟨by simp, fun hl => by simpa [inHand, hpc] using hs.counted hl, hs.kept, hs.le_limit, by simp,
      fun hl => by simpa using hs.pkts hl, by simp, fun _ => ⟨(hs.unlimited hpc).2, by cases s.rxPkts <;> rfl⟩⟩
  | enter hpc =>
    obtain ⟨hnum, hended⟩ := hs.unlimited hpc
    have hpos : s.rxPkts.getD 0 ≠ 0 → 0 < (s.rxPkts.getD 0).toNat := fun hl =>
      Nat.pos_of_ne_zero fun h0 => hl (UInt8.toNat_inj.mp h0)
    have hsome : s.rxPkts.getD 0 ≠ 0 → s.rxPkts.isSome := by
      cases s.rxPkts with
      | none => simp
      | some n => simp
    exact ⟨by simp, fun _ => by simp [hnum, hended, inHand], fun _ => by simp [hended], fun _ => by simp [hnum],
      fun hl _ => by simpa [hnum] using hpos hl, hsome, by simp, by simp⟩
  | empty hpc hq => exact hs.leave (by rw [hpc]; rfl)
  | take hpc hq =>
    have hsucc : s.limit ≠ 0 → (s.rxNum + 1).toNat = s.rxNum.toNat + 1 := fun hl => by
      have hlt := hs.lt_limit hl hpc
      have hmax := s.limit.toNat_lt
      rw [UInt8.toNat_add]
      show (s.rxNum.toNat + 1) % 256 = _
      omega
    refine ⟨by simp, fun hl => ?_, hs.kept, fun hl => ?_, by simp, hs.pkts, by simp, by simp⟩
    · have hcount : s.rxNum.toNat = s.ended.length := by simpa [inHand, hpc] using hs.counted hl
      show (s.rxNum + 1).toNat = s.ended.length + 1
      rw [hsucc hl, hcount]
    · show (s.rxNum + 1).toNat ≤ s.limit.toNat
      rw [hsucc hl]
      exact hs.lt_limit hl hpc
  | drop hpc hd =>
    have hno : ¬s.limit ≠ 0 := fun hl => by
      have hd' := (hkept hl).1 (by simp [inHand, hpc])
      rw [hd] at hd'
      exact absurd hd' (by decide)
    exact ⟨by simp, fun hl => absurd hl hno, fun hl => absurd hl hno, hs.le_limit, fun hl => absurd hl hno, hs.pkts,
      by simp, by simp⟩
  | handle hpc _ =>
    refine ⟨by simp, fun hl => ?_, fun hl p hp => ?_, hs.le_limit, by simp, hs.pkts, by simp, by simp⟩
    · simpa [inHand, hpc] using hs.counted hl
    · rcases List.mem_append.mp hp with hp | hp
      · exact hs.kept hl p hp
      · rw [List.mem_singleton.mp hp]
  | reach hpc _ => exact hs.leave (by rw [hpc]; rfl)
  | locked hpc _ => exact hs.leave (by rw [hpc]; rfl)
  | again hpc hl =>
    exact ⟨by simp, fun hl => by simpa [inHand, hpc] using hs.counted hl, hs.kept, hs.le_limit, fun hne _ => hl hne,
      hs.pkts, by simp, by simp⟩
  | report hpc =>
    exact ⟨by simp, fun hl => by simpa [inHand, hpc] using hs.counted hl, hs.kept, hs.le_limit, by simp,
      fun hl => by simpa using hs.pkts hl, fun _ => by cases s.rxPkts <;> rfl, by simp⟩
  | more hpc hm =>
    have hlt : s.limit ≠ 0 → s.rxNum.toNat < s.limit.toNat := fun hl => Nat.lt_of_not_le fun hle => by
      have hm' := (hkept hl).2 hpc (UInt8.le_iff_toNat_le.mpr hle)
      rw [hm] at hm'
      exact absurd hm' (by decide)
    exact ⟨by simp, fun hl => by simpa [inHand, hpc] using hs.counted hl, hs.kept, hs.le_limit, fun hl _ => hlt hl,
      hs.pkts, by simp, by simp⟩
  | finish hpc _ =>
    exact ⟨by simp, fun hl => by simpa [inHand, hpc] using hs.counted hl, hs.kept, hs.le_limit, by simp, hs.pkts,
      fun _ => hs.told (Or.inl hpc), by simp⟩

theorem budgeted {s : BudgetCall β} (h : (budgetSystem β).ReachableWhen Kept s) : Budgeted s := by
  refine h.invariant (fun _ => budgeted_init) fun s op s' hs hk hstep => ?_
  rcases step_cases hstep with ⟨rfl, hnext⟩ | ⟨-, -, hout⟩
  · exact budgeted_turn hs hk (next_cases hnext)
  · exact budgeted_outside hs hout

/-! ## Without a limit -/

/-- The call does not find the lock behind a packet. -/
def Unlocked (s : BudgetCall β) (op : BudgetOp β) : Prop :=
  op = .call → s.pc = .passed → s.rxLockFlag = false

/-- The loop has been left, and no request was found since. -/
def behindLoop : BudgetPc β → Bool
  | .left | .reported | .done => true
  | _ => false

/-- The packets are taken in the order they were queued in, and what was asked for has been taken unless it will be looked
for again. -/
structure Served (s : BudgetCall β) : Prop where
  fifo : s.queued = s.ended.map Prod.fst ++ inHand s.pc ++ s.rxDataQueue
  asked_le : s.asked ≤ s.queued.length
  fresh : s.pc = .enter → s.ended = []
  served : s.limit = 0 → behindLoop s.pc = true → s.moreRxTaskFlag = true ∨ s.asked ≤ s.ended.length
  clear : s.limit = 0 → s.pc = .done → s.asked ≤ s.ended.length

theorem served_init {s : BudgetCall β} (h : s.Init) : Served s := by
  obtain ⟨hpc, -, -, hended, hqueued, hasked⟩ := h
  exact ⟨by simp [hpc, hended, inHand, hqueued], by simp [hasked], fun _ => hended, by simp [hpc, behindLoop],
    by simp [hpc]⟩

theorem served_outside {s s' : BudgetCall β} (hs : Served s) (hr : s.running = true) (h : Outside s s') : Served s' := by
  have hdone : s.pc ≠ .done := by
    rintro hpc
    simp [running, hpc] at hr
  cases h with
  | queue pmbuf =>
    refine ⟨?_, ?_, hs.fresh, hs.served, hs.clear⟩
    · show s.queued ++ [pmbuf] = s.ended.map Prod.fst ++ inHand s.pc ++ (s.rxDataQueue ++ [pmbuf])
      rw [← List.append_assoc, ← hs.fifo]
    · show s.asked ≤ (s.queued ++ [pmbuf]).length
      rw [List.length_append]
      exact hs.asked_le.trans (Nat.le_add_right _ _)
  | request => exact ⟨hs.fifo, le_rfl, hs.fresh, fun _ _ => Or.inl rfl, fun _ hpc => absurd hpc hdone⟩
  | block b => exact { hs with }
  | dropPoint b => exact { hs with }

theorem served_turn {s s' : BudgetCall β} (hs : Served s) (hu : s.Unlocked .call) (h : Turn s s') : Served s' := by
  have hfifo := hs.fifo
  cases h with
  | refuse hpc =>
    exact ⟨by simpa [inHand, hpc] using hfifo, hs.asked_le, by simp, by simp [behindLoop], by simp⟩
  | enter hpc =>
    exact ⟨by simpa [inHand, hpc] using hfifo, le_rfl, by simp, by simp [behindLoop], by simp⟩
  | empty hpc hq =>
    have hall : s.queued = s.ended.map Prod.fst := by simpa [inHand, hpc, hq] using hfifo
    refine ⟨by simpa [inHand, hpc] using hfifo, hs.asked_le, by simp, fun _ _ => Or.inr ?_, by simp⟩
    exact hs.asked_le.trans (by rw [hall, List.length_map])
  | take hpc hq =>
    exact ⟨by simpa [inHand, hpc, hq] using hfifo, hs.asked_le, by simp, by simp [behindLoop], by simp⟩
  | drop hpc _ =>
    exact ⟨by simpa [inHand, hpc] using hfifo, hs.asked_le, by simp, by simp [behindLoop], by simp⟩
  | handle hpc _ =>
    exact ⟨by simpa [inHand, hpc] using hfifo, hs.asked_le, by simp, by simp [behindLoop], by simp⟩
  | reach hpc hl =>
    exact ⟨by simpa [inHand, hpc] using hfifo, hs.asked_le, by simp, fun h0 => absurd h0 hl, by simp⟩
  | locked hpc hl =>
    rw [hu rfl hpc] at hl
    exact absurd hl (by decide)
  | again hpc _ =>
    exact ⟨by simpa [inHand, hpc] using hfifo, hs.asked_le, by simp, by simp [behindLoop], by simp⟩
  | report hpc =>
    exact ⟨by simpa [inHand, hpc] using hfifo, hs.asked_le, by simp, fun h0 _ => hs.served h0 (by simp [hpc, behindLoop]),
      by simp⟩
  | more hpc _ =>
    exact ⟨by simpa [inHand, hpc] using hfifo, hs.asked_le, by simp, by simp [behindLoop], by simp⟩
  | finish hpc hm =>
    have hserved : s.limit = 0 → s.asked ≤ s.ended.length := fun h0 =>
      (hs.served h0 (by simp [hpc, behindLoop])).resolve_left (by simp [hm])
    exact ⟨by simpa [inHand, hpc] using hfifo, hs.asked_le, by simp, fun h0 _ => Or.inr (hserved h0), fun h0 _ => hserved h0⟩

theorem served {s : BudgetCall β} (h : (budgetSystem β).ReachableWhen Unlocked s) : Served s := by
  refine h.invariant (fun _ => served_init) fun s op s' hs hu hstep => ?_
  rcases step_cases hstep with ⟨rfl, hnext⟩ | ⟨-, hr, hout⟩
  · exact served_turn hs hu (next_cases hnext)
  · exact served_outside hs hr hout

theorem handled_of_kept {s : BudgetCall β} (h : ∀ p ∈ s.ended, p.2 = true) : s.handled = s.ended.map Prod.fst :=
  congrArg (List.map Prod.fst) (List.filter_eq_self.mpr h)

/-- **The receive budget.** With a limit that the steps keep to, a call handles no more packets and reports as many as it
handled; a call that is refused handles and reports none. A call without a limit that meets no lock is done with, in their
order, all the packets that were queued when it started, and those that were queued when the last request before its end was
made; when none was dropped it has handled them. -/
theorem rx_budget (s : BudgetCall β) :
    ((budgetSystem β).ReachableWhen Kept s →
      (s.limit ≠ 0 → s.handled.length ≤ s.limit.toNat ∧
        (s.pc = .done → ∃ n, s.rxPkts = some n ∧ n.toNat = s.handled.length)) ∧
      (s.pc = .refused → s.handled = [] ∧ s.rxPkts = s.rxPkts.map fun _ => 0)) ∧
    ((budgetSystem β).ReachableWhen Unlocked s → s.limit = 0 → s.pc = .done →
      s.queued.take s.asked <+: s.ended.map Prod.fst ∧
        ((∀ p ∈ s.ended, p.2 = true) → s.queued.take s.asked <+: s.handled)) := by
  constructor
  · intro h
    have hs := budgeted h
    refine ⟨fun hl => ?_, fun hpc => ?_⟩
    · have hlength : s.handled.length = s.ended.length := by rw [handled_of_kept (hs.kept hl), List.length_map]
      have hcount := hs.counted hl
      have hle := hs.le_limit hl
      refine ⟨by omega, fun hpc => ?_⟩
      obtain ⟨n, hn⟩ := isSome_iff_exists.mp (hs.pkts hl)
      have htold := hs.told (Or.inr hpc)
      rw [hn, map_some] at htold
      refine ⟨s.rxNum, by rw [hn, htold], ?_⟩
      rw [hcount, hlength, hpc]
      rfl
    · obtain ⟨hended, hpkts⟩ := hs.none_told hpc
      exact ⟨by rw [handled, hended]; rfl, hpkts⟩
  · intro h hl hpc
    have hs := served h
    have hle : s.asked ≤ (s.ended.map Prod.fst).length := by simpa using hs.clear hl hpc
    have htaken : s.queued.take s.asked <+: s.ended.map Prod.fst := by
      rw [hs.fifo, List.append_assoc, List.take_append_of_le_length hle]
      exact List.take_prefix _ _
    exact ⟨htaken, fun hall => (handled_of_kept hall).symm ▸ htaken⟩

end BudgetCall

instance (s : BudgetCall ℕ) (op : BudgetOp ℕ) : Decidable (s.Kept op) :=
  inferInstanceAs (Decidable (_ → _ → _))

/-- A call with two packets in the queue. -/
def twoQueued (rxPkts : Option UInt8) : BudgetCall ℕ :=
  ⟨[0, 1], false, false, false, false, rxPkts, 0, 0, .enter, [], [0, 1], 0⟩

theorem twoQueued_init (rxPkts : Option UInt8) : (twoQueued rxPkts).Init :=
  ⟨rfl, rfl, rfl, rfl, rfl, rfl⟩

/-- The end of a call with a limit of one. -/
def oneHandled : BudgetCall ℕ :=
  ⟨[1], false, false, false, false, some 1, 1, 1, .done, [(0, true)], [0, 1], 2⟩

theorem oneHandled_reachable : (budgetSystem ℕ).ReachableWhen BudgetCall.Kept oneHandled :=
  System.reachableWhen_of_runWhen (.init (twoQueued_init (some 1)))
    (show (budgetSystem ℕ).runWhen BudgetCall.Kept _ [.call, .call, .call, .call, .call, .call] = _ by decide)

theorem rx_budget_oneHandled : [0].length ≤ 1 ∧ ∃ n, some 1 = some n ∧ UInt8.toNat n = [0].length := by
  obtain ⟨hle, hpkts⟩ := ((BudgetCall.rx_budget oneHandled).1 oneHandled_reachable).1 (by decide)
  exact ⟨hle, hpkts rfl⟩

/-- A request behind the first packet makes a call handle two packets although its limit is one, and a packet that is queued
behind the last look at the queue is not handled. -/
theorem not_rx_budget :
    (∃ s, (budgetSystem ℕ).Reachable s ∧ (s.limit = 1 ∧ s.pc = .done ∧ s.handled = [0, 1])) ∧
      ∃ s, (budgetSystem ℕ).Reachable s ∧
        (s.limit = 0 ∧ s.pc = .done ∧ s.queued = [0, 1, 2] ∧ s.handled = [0, 1]) := by
  have hsecond : ((budgetSystem ℕ).run (twoQueued (some 1))
      [.call, .call, .call, .request, .call, .call, .call, .call, .call, .call, .call, .call]).any
      (fun s => s.limit = 1 ∧ s.pc = .done ∧ s.handled = [0, 1]) = true := by decide
  have hlate : ((budgetSystem ℕ).run (twoQueued none)
      [.call, .call, .call, .call, .call, .call, .call, .call, .queue 2, .call, .call]).any
      (fun s => s.limit = 0 ∧ s.pc = .done ∧ s.queued = [0, 1, 2] ∧ s.handled = [0, 1]) = true := by decide
  obtain ⟨s, hs, hend⟩ := System.exists_reachable_of_run (twoQueued_init (some 1)) hsecond
  obtain ⟨t, ht, htend⟩ := System.exists_reachable_of_run (twoQueued_init none) hlate
  exact ⟨⟨s, hs, by simpa using hend⟩, t, ht, by simpa using htend⟩

end WlanDriver.Rx
