import WlanDriver.Shim.WorkHandoff

/-!
# Receive back-pressure

On SDIO the main process stops taking packets from the card while more than `HIGH_RX_PENDING` of them are queued : it
sets `delay_task_flag`, asks for the receive process and leaves its loop. The receive process looks at the flag for each
packet that it dequeues; below `LOW_RX_PENDING` it clears the flag and asks for the main process.

Every access to the queue, the counter, the flag and the flags of the two monitors (`Proc`) is one step. Whatever else
calls the processes, raises their events or blocks them is a step too. `paused` and `refused` are history : the main
process has stopped and its body was not started since, and a call of it was refused because it is blocked.

`pause_ends` : if nothing runs, nothing is scheduled and the queue is empty, the flag is clear. Two kinds of steps are
left out : the flag is set when the last packet has been looked at already, and the last packet is dropped for the
throughput accounting, which is done before the flag is looked at.
-/

namespace WlanDriver.Shim

open Option WlanDriver.System

def highRxPending : ℕ := 1000

def lowRxPending : ℕ := 800

/-- Where the body of the main process is. -/
inductive MainPc
  | idle
  | top
  | check
  | pause
  /-- It asks for the receive process; behind a pause it then leaves the loop. -/
  | askRx (pausing : Bool)
  | raiseRx (pausing : Bool)
  | interrupts
  | rest
  | leaving
  deriving DecidableEq

/-- Where the body of the receive process is. -/
inductive RxPc
  | idle
  | top
  | dequeued
  | flagCheck
  | countCheck
  | resume
  | askMain
  | raiseMain
  | handle
  | leaving
  deriving DecidableEq

/-- A packet was dequeued, and the flag has not been looked at for it or is about to be cleared. -/
def RxPc.Examines : RxPc → Prop
  | .dequeued | .flagCheck | .countCheck | .resume => True
  | _ => False

instance RxPc.decidableExamines (pc : RxPc) : Decidable pc.Examines := by
  unfold RxPc.Examines
  split <;> infer_instance

/-- A process with its event, its work item and its body. -/
structure Worker (Pc : Type) where
  proc : Proc
  /-- The event was raised, the work item is queued. -/
  deferred : Bool
  /-- The work item has taken the event and calls the process. -/
  woken : Bool
  pc : Pc

/-- Nothing runs, and nothing is scheduled. -/
def Worker.Quiet {Pc : Type} (w : Worker Pc) : Prop :=
  w.proc.processing = false ∧ w.deferred = false ∧ w.woken = false
  deriving Decidable

/-- The two processes and what they share. -/
structure RxPressure where
  main : Worker MainPc
  rx : Worker RxPc
  /-- The length of `rx_data_queue`. -/
  rxDataQueue : ℕ
  /-- `rx_pkts_queued`, a `t_u16`. -/
  rxPktsQueued : ℕ
  delayTaskFlag : Bool
  paused : Bool
  refused : Bool

namespace RxPressure

/-- The steps. -/
inductive Op
  /-- `mlan_main_process` is called, by the work item or by anyone. -/
  | callMain (woken : Bool)
  /-- The start of the loop : the driver may be closing. -/
  | mainTop (stop : Bool)
  | mainCheck
  | mainPause
  | mainAskRx
  | mainRaiseRx
  /-- A packet is queued (`wlan_decode_rx_packet`). -/
  | receive
  | endInterrupts (dataReceived : Bool)
  /-- What follows in the loop. -/
  | mainRest (again : Bool)
  | mainLeave
  /-- `mlan_rx_process` is called. -/
  | callRx (woken : Bool)
  | rxDequeue
  /-- Whether the packet is dropped (`tp_state_drop_point` is `RX_DROP_P2`). -/
  | rxDrop (drop : Bool)
  | rxFlag
  | rxCount
  | rxResume
  | rxAskMain
  | rxRaiseMain
  /-- The packet is handled; `limit` packets may be enough. -/
  | rxHandle (limit : Bool)
  | rxLeave
  | wakeMain
  | wakeRx
  /-- Others raise an event, leave the flag of a running process, or block one. -/
  | deferMain
  | deferRx
  | hintMain
  | hintRx
  | blockMain (b : Bool)
  | blockRx (b : Bool)

variable (s : RxPressure)

/-- The body of the main process goes on at `pc`. -/
def mainAt (pc : MainPc) : RxPressure :=
  { s with main := { s.main with pc } }

/-- The body of the receive process goes on at `pc`. -/
def rxAt (pc : RxPc) : RxPressure :=
  { s with rx := { s.rx with pc } }

/-- The body of the main process starts, or starts again. -/
def startMain (p : Proc) : RxPressure :=
  { s with main := { s.main with proc := p, pc := .top }, paused := false, refused := false }

/-- `mlan_main_process`, the first section. -/
def callMain : RxPressure :=
  if s.main.proc.enter.2 then s.startMain s.main.proc.enter.1
  else { s with
    main := { s.main with proc := s.main.proc.enter.1 }
    refused := s.refused || !s.main.proc.processing }

/-- `mlan_main_process`, the section behind the body. -/
def mainLeave : RxPressure :=
  if s.main.proc.leave.2 then s.startMain s.main.proc.leave.1
  else { s with main := { s.main with proc := s.main.proc.leave.1, pc := .idle } }

/-- `mlan_rx_process`, the first section. -/
def callRx : RxPressure :=
  { s with rx := { s.rx with proc := s.rx.proc.enter.1, pc := if s.rx.proc.enter.2 then .top else s.rx.pc } }

/-- `mlan_rx_process`, the section behind the body. -/
def rxLeave : RxPressure :=
  { s with rx := { s.rx with proc := s.rx.proc.leave.1, pc := if s.rx.proc.leave.2 then .top else .idle } }

/-- `mlan_queue_rx_work` in the main process, the section. -/
def mainAskRx (pausing : Bool) : RxPressure :=
  { s with
    rx := { s.rx with proc := s.rx.proc.queueWork.1 }
    main := { s.main with
      pc := if s.rx.proc.queueWork.2 then .raiseRx pausing else if pausing then .leaving else .rest } }

/-- `mlan_queue_main_work` in the receive process, the section. -/
def rxAskMain : RxPressure :=
  { s with
    main := { s.main with proc := s.main.proc.queueWork.1 }
    rx := { s.rx with pc := if s.main.proc.queueWork.2 then .raiseMain else .handle } }

/-- One step. -/
def step (s : RxPressure) : Op → Option RxPressure
  | .callMain false => some s.callMain
  | .callMain true =>
    if s.main.woken then some { s.callMain with main := { s.callMain.main with woken := false } } else none
  | .mainTop stop => if s.main.pc = .top then some (s.mainAt (if stop then .leaving else .check)) else none
  | .mainCheck =>
    if s.main.pc = .check then some (s.mainAt (if highRxPending < s.rxPktsQueued then .pause else .interrupts))
    else none
  | .mainPause =>
    if s.main.pc = .pause then some { s.mainAt (.askRx true) with delayTaskFlag := true, paused := true } else none
  | .mainAskRx =>
    match s.main.pc with
    | .askRx pausing => some (s.mainAskRx pausing)
    | _ => none
  | .mainRaiseRx =>
    match s.main.pc with
    | .raiseRx pausing =>
      some { s.mainAt (if pausing then .leaving else .rest) with rx := { s.rx with deferred := true } }
    | _ => none
  | .receive =>
    if s.main.pc = .interrupts then
      some { s with rxDataQueue := s.rxDataQueue + 1, rxPktsQueued := (s.rxPktsQueued + 1) % 65536 }
    else none
  | .endInterrupts dataReceived =>
    if s.main.pc = .interrupts then some (s.mainAt (if dataReceived then .askRx false else .rest)) else none
  | .mainRest again => if s.main.pc = .rest then some (s.mainAt (if again then .top else .leaving)) else none
  | .mainLeave => if s.main.pc = .leaving then some s.mainLeave else none
  | .callRx false => some s.callRx
  | .callRx true => if s.rx.woken then some { s.callRx with rx := { s.callRx.rx with woken := false } } else none
  | .rxDequeue =>
    if s.rx.pc = .top then
      if s.rxDataQueue = 0 then some (s.rxAt .leaving)
      else some { s.rxAt .dequeued with
        rxDataQueue := s.rxDataQueue - 1
        rxPktsQueued := (s.rxPktsQueued + 65535) % 65536 }
    else none
  | .rxDrop drop => if s.rx.pc = .dequeued then some (s.rxAt (if drop then .top else .flagCheck)) else none
  | .rxFlag => if s.rx.pc = .flagCheck then some (s.rxAt (if s.delayTaskFlag then .countCheck else .handle)) else none
  | .rxCount =>
    if s.rx.pc = .countCheck then some (s.rxAt (if s.rxPktsQueued < lowRxPending then .resume else .handle)) else none
  | .rxResume => if s.rx.pc = .resume then some { s.rxAt .askMain with delayTaskFlag := false } else none
  | .rxAskMain => if s.rx.pc = .askMain then some s.rxAskMain else none
  | .rxRaiseMain =>
    if s.rx.pc = .raiseMain then some { s.rxAt .handle with main := { s.main with deferred := true } } else none
  | .rxHandle limit =>
    if s.rx.pc = .handle then some (s.rxAt (if limit || s.rx.proc.lock then .leaving else .top)) else none
  | .rxLeave => if s.rx.pc = .leaving then some s.rxLeave else none
  | .wakeMain =>
    if s.main.deferred ∧ s.main.woken = false then
      some { s with main := { s.main with deferred := false, woken := true } }
    else none
  | .wakeRx =>
    if s.rx.deferred ∧ s.rx.woken = false then some { s with rx := { s.rx with deferred := false, woken := true } }
    else none
  | .deferMain => some { s with main := { s.main with deferred := true } }
  | .deferRx => some { s with rx := { s.rx with deferred := true } }
  | .hintMain => some { s with main := { s.main with proc := s.main.proc.isRunning.1 } }
  | .hintRx => some { s with rx := { s.rx with proc := s.rx.proc.isRunning.1 } }
  | .blockMain b => some { s with main := { s.main with proc := s.main.proc.block b } }
  | .blockRx b => some { s with rx := { s.rx with proc := s.rx.proc.block b } }

/-- The processes as they come up. -/
def Init : Prop :=
  s.main = ⟨⟨false, false, false⟩, false, false, .idle⟩ ∧ s.rx = ⟨⟨false, false, false⟩, false, false, .idle⟩ ∧
    s.rxDataQueue = 0 ∧ s.rxPktsQueued = 0 ∧ s.delayTaskFlag = false ∧ s.paused = false ∧ s.refused = false

end RxPressure

/-- The two processes over time. -/
def rxPressureSystem : System RxPressure RxPressure.Op :=
  ⟨RxPressure.Init, RxPressure.step⟩

namespace RxPressure

variable {s s' : RxPressure}

/-- The flag is set while a packet is to be looked at, and no such packet is the last one and dropped. -/
def Op.Watched (s : RxPressure) : Op → Prop
  | .mainPause => s.rxDataQueue ≠ 0 ∨ s.rx.pc.Examines
  | .rxDrop true => s.delayTaskFlag = true → s.rxDataQueue ≠ 0
  | _ => True

instance Op.decidableWatched (s : RxPressure) (op : Op) : Decidable (op.Watched s) := by
  unfold Op.Watched
  split <;> infer_instance

/-- The main process is asked for, runs again, or was refused. -/
def MainComes (s : RxPressure) : Prop :=
  s.main.deferred = true ∨ s.main.woken = true ∨ (s.main.proc.more = true ∧ s.main.proc.processing = true) ∨
    s.refused = true

/-- What holds of the two processes. -/
structure PressureInv (s : RxPressure) : Prop where
  count : s.rxPktsQueued = s.rxDataQueue % 65536
  mainBody : s.main.proc.processing = true ↔ s.main.pc ≠ .idle
  rxBody : s.rx.proc.processing = true ↔ s.rx.pc ≠ .idle
  /-- While the flag is set a packet is still to be looked at. -/
  watched : s.delayTaskFlag = true → s.rxDataQueue ≠ 0 ∨ s.rx.pc.Examines
  /-- A pause is answered by the receive process, or has been. -/
  answered : s.paused = true →
    s.delayTaskFlag = true ∨ s.rx.pc = .askMain ∨ s.rx.pc = .raiseMain ∨ s.MainComes

namespace PressureInv

/-- Where no packet is looked at, the flag is set only with packets in the queue. -/
theorem queued (h : PressureInv s) (hex : ¬s.rx.pc.Examines) (hflag : s.delayTaskFlag = true) : s.rxDataQueue ≠ 0 :=
  (h.watched hflag).resolve_right hex

theorem of_init (h : s.Init) : PressureInv s := by
  obtain ⟨hmain, hrx, hqueue, hcount, hflag, hpaused, -⟩ := h
  refine ⟨by rw [hqueue, hcount], by simp [hmain], by simp [hrx], fun hf => ?_, fun hp => ?_⟩
  · exact absurd (hflag.symm.trans hf) (by decide)
  · exact absurd (hpaused.symm.trans hp) (by decide)

theorem mainAt (h : PressureInv s) {pc : MainPc} (hold : s.main.pc ≠ .idle) (hpc : pc ≠ .idle) :
    PressureInv (s.mainAt pc) :=
  ⟨h.count, ⟨fun _ => hpc, fun _ => h.mainBody.mpr hold⟩, h.rxBody, h.watched, h.answered⟩

/-- The receive process goes on, from a place where it asks for nobody. -/
theorem rxAt (h : PressureInv s) {pc : RxPc} (hold : s.rx.pc ≠ .idle) (hpc : pc ≠ .idle)
    (hask : s.rx.pc ≠ .askMain ∧ s.rx.pc ≠ .raiseMain)
    (hwatched : s.delayTaskFlag = true → s.rxDataQueue ≠ 0 ∨ pc.Examines) : PressureInv (s.rxAt pc) := by
  refine ⟨h.count, h.mainBody, ⟨fun _ => hpc, fun _ => h.rxBody.mpr hold⟩, hwatched, fun hp => ?_⟩
  rcases h.answered hp with hflag | hrx | hrx | hcomes
  · exact .inl hflag
  · exact absurd hrx hask.1
  · exact absurd hrx hask.2
  · exact .inr (.inr (.inr hcomes))

/-- A start of the body answers every pause. -/
theorem startMain (h : PressureInv s) {p : Proc} (hp : p.processing = true) : PressureInv (s.startMain p) :=
  ⟨h.count, ⟨fun _ => by simp [RxPressure.startMain], fun _ => hp⟩, h.rxBody, h.watched,
    fun hpaused => absurd hpaused (by simp [RxPressure.startMain])⟩

/-- A call of the main process starts its body, leaves the flag of the running one, or is refused. -/
theorem callMain_cases (s : RxPressure) :
    (∃ p : Proc, p.processing = true ∧ s.callMain = s.startMain p) ∨
      ∃ r : Bool, s.callMain = { s with
        main := { s.main with proc := { s.main.proc with more := true } }
        refused := r } ∧ (s.main.proc.processing = true ∨ r = true) := by
  rw [RxPressure.callMain]
  by_cases hstart : s.main.proc.processing = true ∨ s.main.proc.lock = true
  · have henter : s.main.proc.enter = ({ s.main.proc with more := true }, false) := by
      rw [Proc.enter, if_pos (by simpa using hstart)]
    rw [henter]
    refine .inr ⟨_, rfl, ?_⟩
    cases s.main.proc.processing <;> simp
  · have henter : s.main.proc.enter = ({ s.main.proc with processing := true }, true) := by
      rw [Proc.enter, if_neg (by simpa using hstart)]
    rw [henter]
    exact .inl ⟨_, rfl, rfl⟩

variable (h : PressureInv s)

include h

/-- The call may be that of the work item. -/
theorem callMain (b : Bool) :
    PressureInv { s.callMain with main := { s.callMain.main with woken := b } } := by
  rcases callMain_cases s with ⟨p, hp, heq⟩ | ⟨r, heq, hcome⟩
  · rw [heq]
    have hs := h.startMain hp
    exact ⟨hs.count, hs.mainBody, hs.rxBody, hs.watched,
      fun hpaused => absurd hpaused (by simp [RxPressure.startMain])⟩
  · rw [heq]
    exact ⟨h.count, h.mainBody, h.rxBody, h.watched,
      fun _ => .inr (.inr (.inr (hcome.elim (fun hp => .inr (.inr (.inl ⟨rfl, hp⟩))) fun hr => .inr (.inr (.inr hr)))))⟩

/-- The end of the body of the main process. -/
theorem mainLeave (hpc : s.main.pc = .leaving) : PressureInv s.mainLeave := by
  have hrun : s.main.proc.processing = true := h.mainBody.mpr (by simp [hpc])
  rw [RxPressure.mainLeave, Proc.leave]
  cases hmore : s.main.proc.more with
  | true => exact h.startMain hrun
  | false =>
    refine ⟨h.count, by simp, h.rxBody, h.watched, fun hpaused => ?_⟩
    rcases h.answered hpaused with hflag | hrx | hrx | hd | hw | ⟨hm, -⟩ | hr
    · exact .inl hflag
    · exact .inr (.inl hrx)
    · exact .inr (.inr (.inl hrx))
    · exact .inr (.inr (.inr (.inl hd)))
    · exact .inr (.inr (.inr (.inr (.inl hw))))
    · exact absurd (hmore.symm.trans hm) (by decide)
    · exact .inr (.inr (.inr (.inr (.inr (.inr hr)))))

/-- A call of the receive process, by the work item or by anyone. -/
theorem callRx (b : Bool) :
    PressureInv { s.callRx with rx := { s.callRx.rx with woken := b } } := by
  rw [RxPressure.callRx, Proc.enter]
  split
  · exact { h with }
  · next hidle =>
    rw [Bool.or_eq_true, not_or, Bool.not_eq_true] at hidle
    have hpc : s.rx.pc = .idle := by
      by_contra hne
      exact absurd (hidle.1.symm.trans (h.rxBody.mpr hne)) (by decide)
    refine ⟨h.count, h.mainBody, by simp, fun hflag => ?_, fun hpaused => ?_⟩
    · exact .inl (h.queued (by simp [hpc, RxPc.Examines]) hflag)
    · rcases h.answered hpaused with hflag | hrx | hrx | hcomes
      · exact .inl hflag
      · exact absurd (hpc.symm.trans hrx) (by decide)
      · exact absurd (hpc.symm.trans hrx) (by decide)
      · exact .inr (.inr (.inr hcomes))

/-- The end of the body of the receive process. -/
theorem rxLeave (hpc : s.rx.pc = .leaving) : PressureInv s.rxLeave := by
  have hrun : s.rx.proc.processing = true := h.rxBody.mpr (by simp [hpc])
  have hqueued := h.queued (by simp [hpc, RxPc.Examines])
  have hanswered : s.paused = true → s.delayTaskFlag = true ∨ s.MainComes := fun hpaused => by
    rcases h.answered hpaused with hflag | hrx | hrx | hcomes
    · exact .inl hflag
    · exact absurd (hpc.symm.trans hrx) (by decide)
    · exact absurd (hpc.symm.trans hrx) (by decide)
    · exact .inr hcomes
  have hrest : ∀ q : RxPc, s.paused = true →
      s.delayTaskFlag = true ∨ q = .askMain ∨ q = .raiseMain ∨ s.MainComes := fun _ hpaused =>
    (hanswered hpaused).imp_right fun hcomes => .inr (.inr hcomes)
  rw [RxPressure.rxLeave, Proc.leave]
  cases s.rx.proc.more with
  | true => exact ⟨h.count, h.mainBody, by simp [hrun], fun hflag => .inl (hqueued hflag), hrest _⟩
  | false => exact ⟨h.count, h.mainBody, by simp, fun hflag => .inl (hqueued hflag), hrest _⟩

theorem mainAskRx {pausing : Bool} (hpc : s.main.pc = .askRx pausing) :
    PressureInv (s.mainAskRx pausing) := by
  have hrun : s.main.proc.processing = true := h.mainBody.mpr (by simp [hpc])
  rw [RxPressure.mainAskRx, Proc.queueWork]
  split
  · refine ⟨h.count, ⟨fun _ => ?_, fun _ => hrun⟩, h.rxBody, h.watched, h.answered⟩
    cases pausing <;> simp
  · exact ⟨h.count, ⟨fun _ => by simp, fun _ => hrun⟩, h.rxBody, h.watched, h.answered⟩

/-- The receive process asks for the main process : its body runs again, or the event will be raised. -/
theorem rxAskMain (hpc : s.rx.pc = .askMain) : PressureInv s.rxAskMain := by
  have hrun : s.rx.proc.processing = true := h.rxBody.mpr (by simp [hpc])
  have hqueued := h.queued (by simp [hpc, RxPc.Examines])
  rw [RxPressure.rxAskMain, Proc.queueWork]
  split
  · next hproc =>
    exact ⟨h.count, h.mainBody, ⟨fun _ => by simp, fun _ => hrun⟩, fun hflag => .inl (hqueued hflag),
      fun _ => .inr (.inr (.inr (.inr (.inr (.inl ⟨rfl, hproc⟩)))))⟩
  · exact ⟨h.count, h.mainBody, ⟨fun _ => by simp, fun _ => hrun⟩, fun hflag => .inl (hqueued hflag),
      fun _ => .inr (.inr (.inl rfl))⟩

/-- Nobody else takes away what was asked for. -/
theorem frame {m : Worker MainPc} {r : Worker RxPc} (hmain : m.pc = s.main.pc)
    (hmainProc : m.proc.processing = s.main.proc.processing) (hrx : r.pc = s.rx.pc)
    (hrxProc : r.proc.processing = s.rx.proc.processing)
    (hcomes : s.MainComes → MainComes { s with main := m, rx := r }) : PressureInv { s with main := m, rx := r } := by
  refine ⟨h.count, ?_, ?_, fun hflag => ?_, fun hpaused => ?_⟩
  · rw [hmain, hmainProc]
    exact h.mainBody
  · rw [hrx, hrxProc]
    exact h.rxBody
  · rw [hrx]
    exact h.watched hflag
  · rw [hrx]
    exact (h.answered hpaused).imp_right (Or.imp_right (Or.imp_right hcomes))

theorem step {op : Op} (hw : op.Watched s) (hs : s.step op = some s') : PressureInv s' := by
  cases op with
  | callMain woken =>
    cases woken with
    | false =>
      obtain rfl := some.inj hs
      exact h.callMain _
    | true =>
      obtain ⟨-, rfl⟩ := of_guard hs
      exact h.callMain false
  | mainTop stop =>
    obtain ⟨hpc, rfl⟩ := of_guard hs
    exact h.mainAt (by simp [hpc]) (by cases stop <;> simp)
  | mainCheck =>
    obtain ⟨hpc, rfl⟩ := of_guard hs
    exact h.mainAt (by simp [hpc]) (by split <;> simp)
  | mainPause =>
    obtain ⟨hpc, rfl⟩ := of_guard hs
    have hat : PressureInv (s.mainAt (.askRx true)) := h.mainAt (by simp [hpc]) (by simp)
    exact ⟨hat.count, hat.mainBody, hat.rxBody, fun _ => hw, fun _ => .inl rfl⟩
  | mainAskRx =>
    simp only [RxPressure.step] at hs
    split at hs
    · next hpc =>
      obtain rfl := some.inj hs
      exact h.mainAskRx hpc
    · exact absurd hs (by simp)
  | mainRaiseRx =>
    simp only [RxPressure.step] at hs
    split at hs
    · next pausing hpc =>
      obtain rfl := some.inj hs
      have hat : PressureInv (s.mainAt (if pausing then .leaving else .rest)) :=
        h.mainAt (by simp [hpc]) (by split <;> simp)
      exact { hat with }
    · exact absurd hs (by simp)
  | receive =>
    obtain ⟨-, rfl⟩ := of_guard hs
    refine ⟨?_, h.mainBody, h.rxBody, fun _ => .inl (Nat.succ_ne_zero _), h.answered⟩
    show (s.rxPktsQueued + 1) % 65536 = (s.rxDataQueue + 1) % 65536
    have := h.count
    omega
  | endInterrupts dataReceived =>
    obtain ⟨hpc, rfl⟩ := of_guard hs
    exact h.mainAt (by simp [hpc]) (by split <;> simp)
  | mainRest again =>
    obtain ⟨hpc, rfl⟩ := of_guard hs
    exact h.mainAt (by simp [hpc]) (by split <;> simp)
  | mainLeave =>
    obtain ⟨hpc, rfl⟩ := of_guard hs
    exact h.mainLeave hpc
  | callRx woken =>
    cases woken with
    | false =>
      obtain rfl := some.inj hs
      exact h.callRx _
    | true =>
      obtain ⟨-, rfl⟩ := of_guard hs
      exact h.callRx false
  | rxDequeue =>
    obtain ⟨hpc, hs⟩ := ite_none_right_eq_some.mp hs
    have hqueued := h.queued (by simp [hpc, RxPc.Examines])
    split at hs
    · obtain rfl := some.inj hs
      exact h.rxAt (by simp [hpc]) (by simp) (by simp [hpc]) fun hflag => .inl (hqueued hflag)
    · obtain rfl := some.inj hs
      have hat : PressureInv (s.rxAt .dequeued) :=
        h.rxAt (by simp [hpc]) (by simp) (by simp [hpc]) fun _ => .inr trivial
      refine ⟨?_, hat.mainBody, hat.rxBody, fun _ => .inr trivial, hat.answered⟩
      show (s.rxPktsQueued + 65535) % 65536 = (s.rxDataQueue - 1) % 65536
      have := h.count
      omega
  | rxDrop drop =>
    obtain ⟨hpc, rfl⟩ := of_guard hs
    cases drop with
    | true => exact h.rxAt (by simp [hpc]) (by simp) (by simp [hpc]) fun hflag => .inl (hw hflag)
    | false => exact h.rxAt (by simp [hpc]) (by simp) (by simp [hpc]) fun _ => .inr trivial
  | rxFlag =>
    obtain ⟨hpc, rfl⟩ := of_guard hs
    refine h.rxAt (by simp [hpc]) (by split <;> simp) (by simp [hpc]) fun hflag => ?_
    rw [if_pos hflag]
    exact .inr trivial
  | rxCount =>
    obtain ⟨hpc, rfl⟩ := of_guard hs
    refine h.rxAt (by simp [hpc]) (by split <;> simp) (by simp [hpc]) fun _ => ?_
    split
    · exact .inr trivial
    · next hmany =>
      -- at the low mark or above it there is a packet left
      have hcount := h.count
      have hlow : lowRxPending = 800 := rfl
      exact .inl (by omega)
  | rxResume =>
    obtain ⟨hpc, rfl⟩ := of_guard hs
    have hrun : s.rx.proc.processing = true := h.rxBody.mpr (by simp [hpc])
    exact ⟨h.count, h.mainBody, ⟨fun _ => by simp [RxPressure.rxAt], fun _ => hrun⟩,
      fun hflag => absurd hflag (by simp), fun _ => .inr (.inl rfl)⟩
  | rxAskMain =>
    obtain ⟨hpc, rfl⟩ := of_guard hs
    exact h.rxAskMain hpc
  | rxRaiseMain =>
    obtain ⟨hpc, rfl⟩ := of_guard hs
    have hrun : s.rx.proc.processing = true := h.rxBody.mpr (by simp [hpc])
    have hqueued := h.queued (by simp [hpc, RxPc.Examines])
    exact ⟨h.count, h.mainBody, ⟨fun _ => by simp [RxPressure.rxAt], fun _ => hrun⟩,
      fun hflag => .inl (hqueued hflag), fun _ => .inr (.inr (.inr (.inl rfl)))⟩
  | rxHandle limit =>
    obtain ⟨hpc, rfl⟩ := of_guard hs
    have hqueued := h.queued (by simp [hpc, RxPc.Examines])
    exact h.rxAt (by simp [hpc]) (by split <;> simp) (by simp [hpc]) fun hflag => .inl (hqueued hflag)
  | rxLeave =>
    obtain ⟨hpc, rfl⟩ := of_guard hs
    exact h.rxLeave hpc
  | wakeMain =>
    obtain ⟨-, rfl⟩ := of_guard hs
    exact h.frame rfl rfl rfl rfl fun _ => .inr (.inl rfl)
  | wakeRx =>
    obtain ⟨-, rfl⟩ := of_guard hs
    exact h.frame rfl rfl rfl rfl id
  | deferMain =>
    obtain rfl := some.inj hs
    exact h.frame rfl rfl rfl rfl fun _ => .inl rfl
  | deferRx =>
    obtain rfl := some.inj hs
    exact h.frame rfl rfl rfl rfl id
  | hintMain =>
    obtain rfl := some.inj hs
    refine h.frame rfl ?_ rfl rfl fun hcomes => ?_
    · simp only [Proc.isRunning]
      split <;> rfl
    · unfold MainComes at *
      simp only [Proc.isRunning]
      split <;> grind
  | hintRx =>
    obtain rfl := some.inj hs
    refine h.frame rfl rfl rfl ?_ id
    simp only [Proc.isRunning]
    split <;> rfl
  | blockMain b =>
    obtain rfl := some.inj hs
    exact h.frame rfl rfl rfl rfl id
  | blockRx b =>
    obtain rfl := some.inj hs
    exact h.frame rfl rfl rfl rfl id

end PressureInv

/-- **A pause ends.** In a run whose steps meet the condition : when nothing runs, nothing is scheduled and the queue is
empty, the flag is clear, and since the last pause the main process was started or is blocked. -/
theorem pause_ends (h : rxPressureSystem.ReachableWhen (fun s op => op.Watched s) s) (hmain : s.main.Quiet)
    (hrx : s.rx.Quiet) (hempty : s.rxDataQueue = 0) :
    s.delayTaskFlag = false ∧ (s.paused = true → s.refused = true) := by
  have hi : PressureInv s := h.invariant (fun _ => PressureInv.of_init) fun _ _ _ hi hw hs => hi.step hw hs
  have hpc : s.rx.pc = .idle := by
    by_contra hne
    exact absurd (hrx.1.symm.trans (hi.rxBody.mpr hne)) (by decide)
  have hflag : s.delayTaskFlag = false := by
    rw [← Bool.not_eq_true]
    exact fun hflag => hi.queued (by simp [hpc, RxPc.Examines]) hflag hempty
  refine ⟨hflag, fun hpaused => ?_⟩
  rcases hi.answered hpaused with hf | hask | hask | hd | hw | ⟨-, hrun⟩ | hr
  · exact absurd (hflag.symm.trans hf) (by decide)
  · exact absurd (hpc.symm.trans hask) (by decide)
  · exact absurd (hpc.symm.trans hask) (by decide)
  · exact absurd (hmain.2.1.symm.trans hd) (by decide)
  · exact absurd (hmain.2.2.symm.trans hw) (by decide)
  · exact absurd (hmain.1.symm.trans hrun) (by decide)
  · exact hr

/-- Two idle processes. -/
def still : RxPressure :=
  ⟨⟨⟨false, false, false⟩, false, false, .idle⟩, ⟨⟨false, false, false⟩, false, false, .idle⟩, 0, 0, false, false,
    false⟩

/-- The main process queues more packets than it likes, and finds that. -/
def floodRun : List Op :=
  [Op.callMain false, .mainTop false, .mainCheck] ++ List.replicate 1001 Op.receive ++
    [Op.endInterrupts true, .mainAskRx, .mainRaiseRx, .mainRest true, .mainTop false, .mainCheck]

/-- The main process pauses. -/
def pauseRun : List Op :=
  [.mainPause, .mainAskRx, .mainRaiseRx, .mainLeave]

/-- The receive process takes `n` packets while the flag is clear. -/
def drainRun (n : ℕ) : List Op :=
  (List.replicate n [Op.rxDequeue, .rxDrop false, .rxFlag, .rxHandle false]).flatten

/-- `n` packets are queued. -/
def filled (s : RxPressure) (n : ℕ) : RxPressure :=
  { s with rxDataQueue := n, rxPktsQueued := n }

/-- The main process takes packets from the card. -/
def taking : RxPressure :=
  { still with main := ⟨⟨true, false, false⟩, false, false, .interrupts⟩ }

/-- The main process is about to pause. -/
def flooded : RxPressure :=
  { still with
    main := ⟨⟨true, false, false⟩, false, false, .pause⟩
    rx := ⟨⟨false, false, false⟩, true, false, .idle⟩ }

/-- The receive process takes packets. -/
def draining (main : Worker MainPc) (flag paused : Bool) : RxPressure :=
  { still with
    main := main
    rx := ⟨⟨true, false, false⟩, false, false, .top⟩
    delayTaskFlag := flag
    paused := paused }

theorem count_take {n k : ℕ} (hn : n < 65536) (hk : k < n) : (n - k + 65535) % 65536 = n - (k + 1) := by
  omega

theorem run_flood : rxPressureSystem.runWhen (fun s op => op.Watched s) still floodRun = some (flooded.filled 1001) := by
  have hflood := runWhen_replicate (M := rxPressureSystem) (C := fun s op => op.Watched s)
    (fun k => taking.filled k) [.receive] 1001 fun k hk => by
      have hmod : (k + 1) % 65536 = k + 1 := Nat.mod_eq_of_lt (by omega)
      simp [runWhen, rxPressureSystem, step, filled, taking, Op.Watched, hmod]
  rw [List.flatten_replicate_singleton] at hflood
  rw [floodRun, List.append_assoc, runWhen_append (t := taking.filled 0) (by rfl), runWhen_append hflood]
  rfl

/-- The receive process takes packets while the flag is clear. -/
theorem run_drain {main : Worker MainPc} {paused : Bool} {n m : ℕ} (hn : n < 65536) (hm : m ≤ n) :
    rxPressureSystem.runWhen (fun s op => op.Watched s) ((draining main false paused).filled n) (drainRun m) =
      some ((draining main false paused).filled (n - m)) := by
  refine runWhen_replicate (fun k => (draining main false paused).filled (n - k)) _ m fun k hk => ?_
  have hne : n - k ≠ 0 := by omega
  have hcount := count_take hn (by omega : k < n)
  simp [runWhen, rxPressureSystem, step, filled, draining, rxAt, Op.Watched, hne, hcount]
  omega

/-- Above the low mark the receive process takes packets and leaves the flag. -/
theorem run_drain_flag {main : Worker MainPc} {paused : Bool} {n m : ℕ} (hn : n < 65536) (hm : lowRxPending + m ≤ n) :
    rxPressureSystem.runWhen (fun s op => op.Watched s) ((draining main true paused).filled n)
      (List.replicate m [Op.rxDequeue, .rxDrop false, .rxFlag, .rxCount, .rxHandle false]).flatten =
      some ((draining main true paused).filled (n - m)) := by
  refine runWhen_replicate (fun k => (draining main true paused).filled (n - k)) _ m fun k hk => ?_
  have hne : n - k ≠ 0 := by omega
  have hcount := count_take hn (by omega : k < n)
  have hlow : ¬n - (k + 1) < lowRxPending := by omega
  simp [runWhen, rxPressureSystem, step, filled, draining, rxAt, Op.Watched, hne, hcount, hlow]
  omega

/-- A pause, the receive process down to the low mark and to the end, and the main process. -/
theorem pause_ends_after_flood : ∃ s, rxPressureSystem.ReachableWhen (fun s op => op.Watched s) s ∧
    (s.main.Quiet ∧ s.rx.Quiet ∧ s.rxDataQueue = 0 ∧ s.refused = false) ∧
    (s.delayTaskFlag = false ∧ (s.paused = true → s.refused = true)) := by
  have hrun : rxPressureSystem.runWhen (fun s op => op.Watched s) still (floodRun ++ (pauseRun ++ [Op.wakeRx, .callRx true])) =
      some ((draining still.main true true).filled 1001) := by
    rw [runWhen_append run_flood]
    rfl
  obtain ⟨s, hs, hp⟩ := exists_reachableWhen_of_runWhen (M := rxPressureSystem)
    (C := fun s op => op.Watched s)
    (P := fun s => decide (s.main.Quiet ∧ s.rx.Quiet ∧ s.rxDataQueue = 0 ∧ s.refused = false))
    (l := (floodRun ++ (pauseRun ++ [Op.wakeRx, .callRx true])) ++
      ((List.replicate 201 [Op.rxDequeue, .rxDrop false, .rxFlag, .rxCount, .rxHandle false]).flatten ++
      ([Op.rxDequeue, .rxDrop false, .rxFlag, .rxCount, .rxResume, .rxAskMain, .rxRaiseMain, .rxHandle false] ++
      (drainRun 799 ++ [Op.rxDequeue, .rxLeave, .wakeMain, .callMain true, .mainTop false, .mainCheck,
      .endInterrupts false, .mainRest false, .mainLeave]))))
    (s := still) (.init ⟨rfl, rfl, rfl, rfl, rfl, rfl, rfl⟩) (by
      rw [runWhen_append hrun, runWhen_append (run_drain_flag (by decide) (by decide)),
        runWhen_append (t := (draining { still.main with deferred := true } false true).filled 799) (by rfl),
        runWhen_append (run_drain (by decide) (by decide))]
      decide +kernel)
  have hq := of_decide_eq_true hp
  exact ⟨s, hs, hq, pause_ends hs hq.1 hq.2.1 hq.2.2.1⟩

/-- Nothing will end the pause. -/
def Stalled (s : RxPressure) : Prop :=
  s.main.Quiet ∧ s.rx.Quiet ∧ s.rxDataQueue = 0 ∧ s.delayTaskFlag = true ∧ s.refused = false
  deriving Decidable

/-- A packet that is dropped is taken without a look at the flag. -/
theorem run_drop {main : Worker MainPc} {paused : Bool} {n m : ℕ} (hn : n < 65536) (hm : m ≤ n) :
    rxPressureSystem.run ((draining main true paused).filled n) (List.replicate m [Op.rxDequeue, .rxDrop true]).flatten =
      some ((draining main true paused).filled (n - m)) := by
  refine runWhen_replicate (fun k => (draining main true paused).filled (n - k)) _ m fun k hk => ?_
  have hne : n - k ≠ 0 := by omega
  have hcount := count_take hn (by omega : k < n)
  simp [runWhen, rxPressureSystem, step, filled, draining, rxAt, hne, hcount]
  omega

/-- The queue is drained between the look at the counter and the setting of the flag, or it is drained of packets that
are dropped : the main process stays paused. -/
theorem pause_unanswered : (∃ s, rxPressureSystem.Reachable s ∧ s.Stalled) ∧
    ¬∀ s, rxPressureSystem.Reachable s → s.main.Quiet → s.rx.Quiet → s.rxDataQueue = 0 → s.delayTaskFlag = false := by
  have hflood : rxPressureSystem.run still floodRun = some (flooded.filled 1001) :=
    runWhen_mono (fun _ _ _ => trivial) run_flood
  constructor
  · have hwoken : rxPressureSystem.run (flooded.filled 1001) [.wakeRx, .callRx true] =
        some ((draining flooded.main false false).filled 1001) := rfl
    obtain ⟨s, hs, hp⟩ := exists_reachable_of_run (M := rxPressureSystem) (P := fun s => decide s.Stalled)
      (l := floodRun ++ ([Op.wakeRx, .callRx true] ++ (drainRun 1001 ++ ([Op.rxDequeue, .rxLeave] ++ pauseRun ++
        [Op.wakeRx, .callRx true, .rxDequeue, .rxLeave]))))
      (s := still) ⟨rfl, rfl, rfl, rfl, rfl, rfl, rfl⟩ (by
        have hdrain : rxPressureSystem.run _ _ = _ := runWhen_mono (fun _ _ _ => trivial)
          (@run_drain flooded.main false 1001 1001 (by decide) (by decide))
        unfold run at *
        rw [runWhen_append hflood, runWhen_append hwoken, runWhen_append hdrain]
        decide +kernel)
    exact ⟨s, hs, of_decide_eq_true hp⟩
  · have hpaused : rxPressureSystem.run (flooded.filled 1001) (pauseRun ++ [Op.wakeRx, .callRx true]) =
        some ((draining still.main true true).filled 1001) := rfl
    obtain ⟨s, hs, hp⟩ := exists_reachable_of_run (M := rxPressureSystem) (P := fun s => decide s.Stalled)
      (l := floodRun ++ ((pauseRun ++ [Op.wakeRx, .callRx true]) ++
        ((List.replicate 1001 [Op.rxDequeue, .rxDrop true]).flatten ++ [Op.rxDequeue, .rxLeave])))
      (s := still) ⟨rfl, rfl, rfl, rfl, rfl, rfl, rfl⟩ (by
        have hdrop := @run_drop still.main true 1001 1001 (by decide) (by decide)
        unfold run at *
        rw [runWhen_append hflood, runWhen_append hpaused, runWhen_append hdrop]
        decide +kernel)
    obtain ⟨hmain, hrx, hempty, hflag, -⟩ := of_decide_eq_true hp
    exact fun h => absurd ((h s hs hmain hrx hempty).symm.trans hflag) (by decide)

end RxPressure

end WlanDriver.Shim
