import WlanDriver.Lib.System

/-!
# The sleep handshake

The firmware asks for sleep with an event, the main process answers with a sleep confirm once nothing is under way
(`wlan_check_ps_cond`, `wlan_dnld_sleep_confirm_cmd`), and `ps_state` follows : with a response the host waits for it in
`SLEEP_CFM`, without one it goes to `SLEEP` at once. The loop of `mlan_main_process` is cut at the points where it looks at
the state or downloads something; interrupts and packets of the card, and whatever other code writes, come in between.

History : `asleep` from the sleep confirm until the firmware is heard of again (a failure response, a packet, an interrupt
in `SLEEP`, the recovery from a wake-up timeout on SDIO that finds it active, the awake event that USB simulates), `handed` is
whether the last sleep confirm was written to the card, and `log` has each download with what held then.

`sleeps_safely` : the three parts of the handshake, for runs in which no sleep confirm fails to be written, and nothing is
received between the check and the end of the write. `wlan_dnld_sleep_confirm_cmd` sets the state before it writes, and
leaves it so when the write fails; and an interrupt that comes in between takes the state back to `AWAKE`.
-/

namespace WlanDriver.Shim

open List Option WlanDriver.System

/-- `PS_STATE_*`. -/
inductive PsState
  | awake
  | preSleep
  | sleepCfm
  | sleep
  deriving DecidableEq

/-- The bus of the card. -/
inductive Bus
  | sdio
  | pcie
  | usb
  deriving DecidableEq

/-- The events of the firmware that matter here. -/
inductive FwEvent
  | psSleep
  | psAwake
  | vdllReq
  | other
  deriving DecidableEq

/-- Where `wlan_check_ps_cond` was called. -/
inductive Caller
  | idle
  | event
  | loop
  deriving DecidableEq

/-- Where the main process is. -/
inductive LoopPc
  | out
  | top
  | wakeTimeout
  | wakeCard
  | receive
  | idle
  | cmdResp
  | event
  | eventDone
  | check
  | asleepCheck
  | vdll
  | nextCmd
  | bypassTx
  | wmmTx
  | nullPkt
  | done
  | checkPs (c : Caller)
  /-- The sleep confirm is written to the card. -/
  | writing (c : Caller)
  deriving DecidableEq

/-- Where the main process goes on behind `wlan_check_ps_cond`. -/
def Caller.back : Caller → LoopPc
  | .idle => .idle
  | .event => .eventDone
  | .loop => .asleepCheck

/-- What is downloaded. -/
inductive Download
  | sleepConfirm
  | vdll
  | command
  | data
  deriving DecidableEq

/-- What other code writes, and the loop reads. -/
structure Others where
  /-- `hw_status` is closing or not ready. -/
  stopped : Bool
  /-- More packets wait for the receive process than `HIGH_RX_PENDING`. -/
  rxPaused : Bool
  pmWakeupFlag : Bool
  pmWakeupTimeout : ℕ
  cmdPending : Bool
  bypassTxListEmpty : Bool
  wmmListsEmpty : Bool
  dataSent : Bool
  radarTxBlocked : Bool
  linkChanSwitching : Bool
  sendCmdAllowed : Bool
  txLockFlag : Bool
  delayNullPkt : Bool
  keepWakeup : Bool
  txPending : Bool
  rxPending : Bool
  ppsUapsdMode : Bool
  isHsConfigured : Bool
  /-- `sleep_period.period`. -/
  sleepPeriod : Bool
  /-- `resp_ctrl` of the sleep confirm. -/
  respCtrl : Bool
  /-- The first interface is an access point. -/
  uapRole : Bool

/-- What held at a download. -/
structure Moment where
  psState : PsState
  cmdSent : Bool
  currCmd : Bool
  eventCause : Option FwEvent
  rxRcvd : Bool
  txPending : Bool
  rxPending : Bool
  asleep : Bool

/-- The main process and what it shares with the card. -/
structure Handshake where
  psState : PsState
  cmdSent : Bool
  /-- `curr_cmd` is set. -/
  currCmd : Bool
  cmdRespReceived : Bool
  eventReceived : Bool
  dataReceived : Bool
  eventCause : Option FwEvent
  /-- A VDLL block is pending. -/
  pendingBlock : Bool
  pmWakeupCardReq : Bool
  pmWakeupFwTry : Bool
  others : Others
  pc : LoopPc
  asleep : Bool
  handed : Bool
  log : List (Download × Moment)

namespace Handshake

/-- The steps. -/
inductive Op
  /-- `mlan_main_process` is called. -/
  | start
  | top
  /-- Whether the firmware is found to be active, and the count of timeouts behind the recovery. -/
  | wakeTimeout (recovered : Bool) (timeout : ℕ)
  | wakeCard
  | receive
  /-- Whether there is an interface and, on USB, a buffer. -/
  | checkPs (ready : Bool)
  /-- The result of the write. -/
  | write (ok : Bool)
  | idle
  /-- Whether the response is the one to the current command. -/
  | cmdResp (answered : Bool)
  /-- Whether a null packet was tried and sent, or the block of a VDLL request is valid and sent. -/
  | event (tried sent : Bool)
  | eventDone
  | check
  | asleepCheck
  | vdll (sent : Bool)
  | nextCmd (sent : Bool)
  | bypassTx
  | wmmTx
  | nullPkt
  | done (again : Bool)
  /-- The interrupt handler finds an interrupt. -/
  | irq
  /-- Packets are taken from the card, or come : the response to a sleep confirm, data, a response to a command, an event,
  and whether the last command was taken by the card. -/
  | service (resp : Option Bool) (data answer : Bool) (ev : Option FwEvent) (sent : Bool)
  /-- `curr_cmd` is cleared (cancelled, timed out). -/
  | dropCurr
  | others (o : Others)

variable (bus : Bus) (s : Handshake)

/-- `IS_CARD_RX_RCVD`. -/
def rxRcvd : Bool :=
  s.cmdRespReceived || s.eventReceived || s.dataReceived

/-- What holds. -/
def moment : Moment :=
  ⟨s.psState, s.cmdSent, s.currCmd, s.eventCause, s.rxRcvd, s.others.txPending, s.others.rxPending, s.asleep⟩

/-- The main process goes on at `pc`. -/
def goto (pc : LoopPc) : Handshake :=
  { s with pc }

/-- A download. -/
def record (d : Download) : Handshake :=
  { s with log := s.log ++ [(d, s.moment)] }

/-- The firmware is awake again. -/
def awake : Handshake :=
  { s with psState := .awake, pmWakeupFwTry := false, pmWakeupCardReq := false, asleep := false }

/-- `wakeup_card`. On USB it simulates the awake event. -/
def wakeupCard : Handshake :=
  if bus = .usb then s.awake else s

/-- A wake-up timeout has happened. -/
def wakeTimeout (recovered : Bool) (timeout : ℕ) : Handshake :=
  if s.psState = .sleep ∧ s.others.pmWakeupFlag then
    let recovery : Bool := bus = .sdio ∧ s.others.pmWakeupTimeout = 2
    let timeout := if recovery then timeout else s.others.pmWakeupTimeout
    let s := { s with others := { s.others with pmWakeupFlag := false, pmWakeupTimeout := timeout } }
    if recovery ∧ recovered then s.awake.goto .top
    else if 2 < timeout then s.goto .wakeCard
    else { s.wakeupCard bus with pmWakeupFwTry := true, pc := .top }
  else s.goto .wakeCard

/-- Does the card need to be woken up? -/
def wakeCard : Handshake :=
  if s.psState = .sleep ∧ s.pmWakeupCardReq ∧ s.pmWakeupFwTry = false ∧
      (s.others.cmdPending ∨ s.others.bypassTxListEmpty = false ∨ s.others.wmmListsEmpty = false) then
    { s.wakeupCard bus with pmWakeupFwTry := true, pc := .top }
  else s.goto .receive

/-- A sleep request was received, and no command is under way. -/
def ReadyToSleep : Prop :=
  s.psState = .preSleep ∧ s.cmdSent = false ∧ s.currCmd = false ∧ s.pendingBlock = false
  deriving Decidable

/-- Something was received, or there is time for the sleep confirm. -/
def receive : Handshake :=
  if s.rxRcvd ∨ (s.cmdSent = false ∧ s.pendingBlock) then
    { s with
      dataReceived := false
      pmWakeupFwTry := false
      psState := if s.psState = .sleep then .awake else s.psState
      pc := .cmdResp }
  else if s.pmWakeupFwTry then s.goto .done
  else if s.ReadyToSleep then s.goto (.checkPs .idle)
  else s.goto .idle

/-- The condition of `wlan_check_ps_cond`. -/
def PsCond : Prop :=
  s.cmdSent = false ∧ s.currCmd = false ∧ s.others.keepWakeup = false ∧ s.others.txPending = false ∧
    s.others.rxPending = false ∧ s.eventCause = none ∧ s.rxRcvd = false
  deriving Decidable

/-- `wlan_check_ps_cond`, and `wlan_dnld_sleep_confirm_cmd` up to the write. -/
def checkPs (c : Caller) (ready : Bool) : Handshake :=
  if s.PsCond ∧ ready then
    { s.record .sleepConfirm with
      psState := if s.others.uapRole = false ∧ s.others.respCtrl = false then .sleep else .sleepCfm
      pmWakeupCardReq := s.pmWakeupCardReq ||
        (!s.others.uapRole && !s.others.respCtrl && s.others.isHsConfigured && !s.others.sleepPeriod)
      pc := .writing c }
  else s.goto c.back

/-- `host_to_card` for the sleep confirm. -/
def write (c : Caller) (ok : Bool) : Handshake :=
  { s with cmdSent := ok, handed := ok, asleep := ok, pc := c.back }

/-- Nothing was received. -/
def idle : Handshake :=
  if s.psState ≠ .awake ∨ s.others.txLockFlag then s.goto .done
  else if (s.others.dataSent ∨ s.others.linkChanSwitching ∨
      (s.others.bypassTxListEmpty ∧ s.others.wmmListsEmpty) ∨ s.others.radarTxBlocked) ∧
      (s.cmdSent ∨ s.currCmd ∨ s.others.sendCmdAllowed = false ∨ s.others.cmdPending = false) then s.goto .done
  else s.goto .cmdResp

def cmdResp (answered : Bool) : Handshake :=
  if s.cmdRespReceived then
    { s with cmdRespReceived := false, currCmd := s.currCmd && !answered, pc := .event }
  else s.goto .event

/-- `wlan_process_event`. -/
def event (tried sent : Bool) : Handshake :=
  if s.eventReceived then
    let s := { s with eventReceived := false }
    match s.eventCause with
    | some .psSleep =>
      if s.psState = .sleepCfm then s.goto .eventDone
      else { s with psState := .preSleep, pc := .checkPs .event }
    | some .psAwake =>
      if s.psState = .sleepCfm then s.goto .eventDone
      else
        let s := { s with others := { s.others with txLockFlag := false } }
        let s := if tried then s.record .data else s
        if tried ∧ sent then s.goto .eventDone else s.awake.goto .eventDone
    | some .vdllReq =>
      if tried = false then s.goto .eventDone
      else if s.cmdSent = false then { s.record .vdll with cmdSent := sent, pc := .eventDone }
      else { s with pendingBlock := true, pc := .eventDone }
    | some .other | none => s.goto .eventDone
  else s.goto .check

/-- `event_complete`. -/
def eventDone : Handshake :=
  { s with eventCause := none, eventReceived := s.eventReceived && decide (bus ≠ .usb), pc := .check }

def check : Handshake :=
  if s.ReadyToSleep then s.goto (.checkPs .loop) else s.goto .asleepCheck

def asleepCheck : Handshake :=
  if s.psState = .sleep ∨ s.psState = .preSleep ∨ s.psState = .sleepCfm ∨ s.others.txLockFlag then s.goto .top
  else s.goto .vdll

def vdll (sent : Bool) : Handshake :=
  if s.cmdSent = false ∧ s.pendingBlock then
    { s.record .vdll with cmdSent := sent, pendingBlock := false, pc := .nextCmd }
  else s.goto .nextCmd

/-- `wlan_exec_next_cmd`. -/
def nextCmd (sent : Bool) : Handshake :=
  if s.cmdSent = false ∧ s.currCmd = false ∧ s.others.sendCmdAllowed ∧ s.others.cmdPending ∧ s.psState = .awake then
    { s.record .command with
      cmdSent := sent
      currCmd := sent
      pc := if sent then .bypassTx else .done }
  else s.goto .bypassTx

/-- The links allow data. -/
def TxOpen : Prop :=
  s.others.dataSent = false ∧ s.others.radarTxBlocked = false ∧ s.others.linkChanSwitching = false
  deriving Decidable

def bypassTx : Handshake :=
  if s.TxOpen ∧ s.others.bypassTxListEmpty = false then (s.record .data).goto .wmmTx else s.goto .wmmTx

def wmmTx : Handshake :=
  if s.TxOpen ∧ s.others.wmmListsEmpty = false then (s.record .data).goto .nullPkt else s.goto .nullPkt

def nullPkt : Handshake :=
  if s.others.delayNullPkt ∧ s.cmdSent = false ∧ s.currCmd = false ∧ s.others.cmdPending = false ∧
      s.others.bypassTxListEmpty ∧ s.others.wmmListsEmpty then (s.record .data).goto .done
  else s.goto .top

/-- The interrupt handler. -/
def irq : Handshake :=
  if s.psState = .sleep then
    if s.others.ppsUapsdMode then { s with asleep := false } else s.awake
  else s

/-- `wlan_process_sleep_confirm_resp`, if the response is for it. -/
def sleepConfirmResp : Option Bool → Handshake
  | some ok =>
    if s.currCmd = false ∧ s.psState = .sleepCfm then
      if ok then { s with psState := .sleep, pmWakeupCardReq := true }
      else { s with psState := .awake, pmWakeupCardReq := false, asleep := false }
    else s
  | none => s

/-- Packets of the card. On SDIO data that comes with the response to a sleep confirm is no reason to wake up. -/
def service (resp : Option Bool) (data answer : Bool) (ev : Option FwEvent) (sent : Bool) : Handshake :=
  let t := s.sleepConfirmResp resp
  let t : Handshake := { t with
    cmdSent := t.cmdSent && !sent
    cmdRespReceived := t.cmdRespReceived || (answer && t.currCmd)
    eventReceived := t.eventReceived || ev.isSome
    eventCause := ev <|> t.eventCause
    dataReceived :=
      if bus = .sdio ∧ s.psState = .sleepCfm ∧ t.psState = .sleep then false else t.dataReceived || data }
  { t with asleep := t.asleep && !t.rxRcvd }

/-- One step. -/
def step (s : Handshake) : Op → Option Handshake
  | .start => if s.pc = .out then some (s.goto .top) else none
  | .top =>
    if s.pc = .top then
      some (s.goto (if s.others.stopped ∨ (bus = .sdio ∧ s.others.rxPaused) then .done else .wakeTimeout))
    else none
  | .wakeTimeout recovered timeout => if s.pc = .wakeTimeout then some (s.wakeTimeout bus recovered timeout) else none
  | .wakeCard => if s.pc = .wakeCard then some (s.wakeCard bus) else none
  | .receive => if s.pc = .receive then some s.receive else none
  | .checkPs ready =>
    match s.pc with
    | .checkPs c => some (s.checkPs c ready)
    | _ => none
  | .write ok =>
    match s.pc with
    | .writing c => some (s.write c ok)
    | _ => none
  | .idle => if s.pc = .idle then some s.idle else none
  | .cmdResp answered => if s.pc = .cmdResp then some (s.cmdResp answered) else none
  | .event tried sent => if s.pc = .event then some (s.event tried sent) else none
  | .eventDone => if s.pc = .eventDone then some (s.eventDone bus) else none
  | .check => if s.pc = .check then some s.check else none
  | .asleepCheck => if s.pc = .asleepCheck then some s.asleepCheck else none
  | .vdll sent => if s.pc = .vdll then some (s.vdll sent) else none
  | .nextCmd sent => if s.pc = .nextCmd then some (s.nextCmd sent) else none
  | .bypassTx => if s.pc = .bypassTx then some s.bypassTx else none
  | .wmmTx => if s.pc = .wmmTx then some s.wmmTx else none
  | .nullPkt => if s.pc = .nullPkt then some s.nullPkt else none
  | .done again => if s.pc = .done then some (s.goto (if again then .top else .out)) else none
  | .irq => some s.irq
  | .service resp data answer ev sent => some (s.service bus resp data answer ev sent)
  | .dropCurr => some { s with currCmd := false }
  | .others o => some { s with others := o }

/-- The adapter as it comes up. -/
def Init : Prop :=
  s.psState = .awake ∧ s.cmdSent = false ∧ s.currCmd = false ∧ s.cmdRespReceived = false ∧ s.eventReceived = false ∧
    s.dataReceived = false ∧ s.eventCause = none ∧ s.pendingBlock = false ∧ s.pmWakeupCardReq = false ∧
    s.pmWakeupFwTry = false ∧ s.pc = .out ∧ s.asleep = false ∧ s.handed = false ∧ s.log = []

end Handshake

/-- The handshake over time, on a bus. -/
def handshakeSystem (bus : Bus) : System Handshake Handshake.Op :=
  ⟨Handshake.Init, Handshake.step bus⟩

/-- `PS_STATE_SLEEP` or `PS_STATE_SLEEP_CFM`. -/
def PsState.Dozing (p : PsState) : Prop :=
  p = .sleep ∨ p = .sleepCfm
  deriving Decidable

/-- The sleep confirm is being written. -/
def LoopPc.Writing : LoopPc → Prop
  | .writing _ => True
  | _ => False

instance (pc : LoopPc) : Decidable pc.Writing := by
  unfold LoopPc.Writing
  split <;> infer_instance

namespace Handshake

variable {bus : Bus} {s s' : Handshake}

/-- When the sleep confirm may be downloaded. -/
structure Moment.MayConfirm (m : Moment) : Prop where
  psState : m.psState = .preSleep
  cmdSent : m.cmdSent = false
  currCmd : m.currCmd = false
  eventCause : m.eventCause = none
  rxRcvd : m.rxRcvd = false
  txPending : m.txPending = false
  rxPending : m.rxPending = false

/-- The three parts of the handshake. -/
structure SleepsSafely (s : Handshake) : Prop where
  confirms : ∀ m, (Download.sleepConfirm, m) ∈ s.log → Moment.MayConfirm m
  quiet : ∀ d m, (d, m) ∈ s.log → d ≠ .sleepConfirm → m.asleep = false
  handed : s.psState.Dozing → s.handed = true ∨ s.pc.Writing

/-- No sleep confirm fails to be written, and nothing is received while one is. -/
def Op.Clean (s : Handshake) : Op → Prop
  | .write ok => ok = true
  | .irq => s.pc.Writing → s.psState ≠ .sleep
  | .service resp data answer ev _ => s.pc.Writing → resp = none ∧ data = false ∧ answer = false ∧ ev = none
  | _ => True

instance Op.decidableClean (s : Handshake) (op : Op) : Decidable (op.Clean s) := by
  unfold Op.Clean
  split <;> infer_instance

/-- What holds at a place of the loop. -/
def At (s : Handshake) : LoopPc → Prop
  | .writing _ => s.psState.Dozing ∧ s.rxRcvd = false ∧ s.pendingBlock = false
  | .checkPs .event => s.psState = .preSleep ∧ s.eventCause ≠ none
  | .checkPs _ => s.psState = .preSleep ∧ s.pendingBlock = false
  | .vdll | .nextCmd | .bypassTx | .wmmTx | .nullPkt => s.psState = .awake
  | _ => True

namespace At

variable {pc : LoopPc}

theorem writing (h : s.At pc) (hw : pc.Writing) : s.psState.Dozing ∧ s.rxRcvd = false ∧ s.pendingBlock = false := by
  cases pc with
  | writing c => exact h
  | _ => exact hw.elim

/-- What holds at a place depends on the state, a pending block and the cause of an event; at the write, on what was
received too. -/
theorem of_eq {t : Handshake} (h : s.At pc) (hw : pc.Writing → t.rxRcvd = false) (hps : t.psState = s.psState)
    (hb : t.pendingBlock = s.pendingBlock) (he : s.eventCause ≠ none → t.eventCause ≠ none) : t.At pc := by
  cases pc with
  | checkPs c =>
    cases c with
    | event => exact ⟨hps.trans h.1, he h.2⟩
    | idle | loop => exact ⟨hps.trans h.1, hb.trans h.2⟩
  | writing c => exact ⟨hps ▸ h.1, hw trivial, hb.trans h.2.2⟩
  | vdll | nextCmd | bypassTx | wmmTx | nullPkt => exact hps.trans h
  | _ => exact trivial

/-- While the firmware may sleep, the main process is where nothing is assumed. -/
theorem of_dozing {t : Handshake} (h : s.At pc) (hs : s.psState.Dozing) (hw : ¬pc.Writing) : t.At pc := by
  have hne : s.psState ≠ .preSleep ∧ s.psState ≠ .awake := by
    rcases hs with hs | hs <;> rw [hs] <;> decide
  cases pc with
  | checkPs c =>
    cases c with
    | event | idle | loop => exact absurd h.1 hne.1
  | writing c => exact absurd trivial hw
  | vdll | nextCmd | bypassTx | wmmTx | nullPkt => exact absurd h hne.2
  | _ => exact trivial

end At

theorem sleepConfirmResp_pc (resp : Option Bool) : (s.sleepConfirmResp resp).pc = s.pc := by
  cases resp with
  | none => rfl
  | some ok =>
    rw [sleepConfirmResp]
    split
    · split <;> rfl
    · rfl

/-- What holds of the handshake. -/
structure HandshakeInv (s : Handshake) : Prop extends SleepsSafely s where
  asleep : s.asleep = true → s.psState.Dozing ∧ s.rxRcvd = false ∧ s.pendingBlock = false
  here : s.At s.pc

namespace HandshakeInv

section

variable (h : HandshakeInv s)

include h

/-- The main process goes on. -/
theorem goto (pc : LoopPc) (hw : ¬s.pc.Writing) (hpc : s.At pc) : HandshakeInv (s.goto pc) :=
  ⟨⟨h.confirms, h.quiet, fun hd => .inl ((h.handed hd).resolve_right hw)⟩, h.asleep, hpc⟩

/-- A download other than the sleep confirm, while the firmware is awake. -/
theorem record {d : Download} (hd : d ≠ .sleepConfirm) (hs : s.asleep = false) :
    HandshakeInv (s.record d) := by
  refine ⟨⟨fun m hm => ?_, fun e m hm he => ?_, h.handed⟩, h.asleep, h.here⟩
  · rcases mem_append.mp hm with hm | hm
    · exact h.confirms m hm
    · obtain ⟨hd', -⟩ := Prod.mk.inj (mem_singleton.mp hm)
      exact absurd hd'.symm hd
  · rcases mem_append.mp hm with hm | hm
    · exact h.quiet e m hm he
    · obtain ⟨-, rfl⟩ := Prod.mk.inj (mem_singleton.mp hm)
      exact hs

/-- In `AWAKE` the firmware is awake. -/
theorem not_asleep (hs : ¬s.psState.Dozing) : s.asleep = false := by
  rw [← Bool.not_eq_true]
  exact fun ha => hs (h.asleep ha).1

theorem awake (pc : LoopPc) (hpc : s.awake.At pc) : HandshakeInv (s.awake.goto pc) :=
  ⟨⟨h.confirms, h.quiet, fun hd => absurd hd (by decide : ¬PsState.Dozing .awake)⟩, (nomatch ·), hpc⟩

/-- Before the sleep confirm the firmware was awake. -/
theorem quiet_of_received (hr : s.rxRcvd = true) : s.asleep = false := by
  rw [← Bool.not_eq_true]
  exact fun ha => absurd ((h.asleep ha).2.1.symm.trans hr) (by decide)

theorem wakeupCard (hw : ¬s.pc.Writing) (b : Bool) :
    HandshakeInv { s.wakeupCard bus with pmWakeupFwTry := b, pc := .top } := by
  rw [Handshake.wakeupCard]
  split
  · have ha := h.awake .top trivial
    exact ⟨⟨ha.confirms, ha.quiet, ha.handed⟩, ha.asleep, trivial⟩
  · have ha := h.goto .top hw trivial
    exact ⟨⟨ha.confirms, ha.quiet, ha.handed⟩, ha.asleep, trivial⟩

/-- Nothing here depends on what other code writes. -/
theorem withOthers (o : Others) : HandshakeInv { s with others := o } :=
  ⟨⟨h.confirms, h.quiet, h.handed⟩, h.asleep, h.here.of_eq (fun hw => (h.here.writing hw).2.1) rfl rfl id⟩

theorem wakeTimeout (hpc : s.pc = .wakeTimeout) (recovered : Bool) (timeout : ℕ) :
    HandshakeInv (s.wakeTimeout bus recovered timeout) := by
  have hw : ¬s.pc.Writing := by simp [hpc, LoopPc.Writing]
  rw [Handshake.wakeTimeout]
  split
  · have key : ∀ (r : Prop) [Decidable r] (t : ℕ),
        let u := { s with others := { s.others with pmWakeupFlag := false, pmWakeupTimeout := t } }
        HandshakeInv (if r then u.awake.goto .top
          else if 2 < t then u.goto .wakeCard
          else { u.wakeupCard bus with pmWakeupFwTry := true, pc := .top }) := by
      intro r _ t u
      have hu : HandshakeInv u := h.withOthers _
      split
      · exact hu.awake .top trivial
      · split
        · exact hu.goto .wakeCard hw trivial
        · exact hu.wakeupCard hw true
    exact key _ _
  · exact h.goto _ hw trivial

theorem wakeCard (hpc : s.pc = .wakeCard) : HandshakeInv (s.wakeCard bus) := by
  have hw : ¬s.pc.Writing := by simp [hpc, LoopPc.Writing]
  rw [Handshake.wakeCard]
  split
  · exact h.wakeupCard hw true
  · exact h.goto _ hw trivial

theorem receive (hpc : s.pc = .receive) : HandshakeInv s.receive := by
  have hw : ¬s.pc.Writing := by simp [hpc, LoopPc.Writing]
  rw [Handshake.receive]
  split
  · next hrcvd =>
    have ha : s.asleep = false := by
      rw [← Bool.not_eq_true]
      intro ha
      obtain ⟨-, hr, hb⟩ := h.asleep ha
      rcases hrcvd with hrcvd | ⟨-, hrcvd⟩
      · exact absurd (hr.symm.trans hrcvd) (by decide)
      · exact absurd (hb.symm.trans hrcvd) (by decide)
    refine ⟨⟨h.confirms, h.quiet, fun hd => .inl ((h.handed ?_).resolve_right hw)⟩,
      fun ha' => absurd (ha.symm.trans ha') (by decide), trivial⟩
    revert hd
    dsimp only
    split
    · exact fun hd => absurd hd (by decide)
    · exact id
  · split
    · exact h.goto _ hw trivial
    · split
      · next hready => exact h.goto _ hw ⟨hready.1, hready.2.2.2⟩
      · exact h.goto _ hw trivial

/-- The check behind an event delays the sleep confirm : the cause of the event is still set. -/
theorem checkPs {c : Caller} (hpc : s.pc = .checkPs c) (ready : Bool) :
    HandshakeInv (s.checkPs c ready) := by
  have hw : ¬s.pc.Writing := by simp [hpc, LoopPc.Writing]
  have hhere := h.here
  rw [hpc] at hhere
  have hback : ∀ t : Handshake, t.At c.back := by
    intro t
    cases c <;> exact trivial
  rw [Handshake.checkPs]
  split
  · next hcond =>
    obtain ⟨⟨hsent, hcurr, -, htx, hrx, hcause, hrcvd⟩, -⟩ := hcond
    have hpre : s.psState = .preSleep ∧ s.pendingBlock = false := by
      cases c with
      | idle => exact hhere
      | event => exact absurd hcause hhere.2
      | loop => exact hhere
    have hdoze : ∀ p : Prop, [Decidable p] → PsState.Dozing (if p then .sleep else .sleepCfm) := by
      intro p _
      split <;> decide
    refine ⟨⟨fun m hm => ?_, fun d m hm hd => ?_, fun _ => .inr trivial⟩, fun ha => ?_, hdoze _, hrcvd, hpre.2⟩
    · rcases mem_append.mp hm with hm | hm
      · exact h.confirms m hm
      · obtain ⟨-, rfl⟩ := Prod.mk.inj (mem_singleton.mp hm)
        exact ⟨hpre.1, hsent, hcurr, hcause, hrcvd, htx, hrx⟩
    · rcases mem_append.mp hm with hm | hm
      · exact h.quiet d m hm hd
      · obtain ⟨hd', -⟩ := Prod.mk.inj (mem_singleton.mp hm)
        exact absurd hd' hd
    · exact ⟨hdoze _, (h.asleep ha).2⟩
  · exact h.goto _ hw (hback s)

theorem write {c : Caller} (hpc : s.pc = .writing c) : HandshakeInv (s.write c true) := by
  have hhere := h.here
  rw [hpc] at hhere
  refine ⟨⟨h.confirms, h.quiet, fun _ => .inl rfl⟩, fun _ => hhere, ?_⟩
  show At _ c.back
  cases c <;> exact trivial

theorem idle (hpc : s.pc = .idle) : HandshakeInv s.idle := by
  have hw : ¬s.pc.Writing := by simp [hpc, LoopPc.Writing]
  rw [Handshake.idle]
  split
  · exact h.goto _ hw trivial
  · split
    · exact h.goto _ hw trivial
    · exact h.goto _ hw trivial

/-- Flags of what was received are taken back. -/
theorem taken (curr : Bool) (pc : LoopPc) (hw : ¬s.pc.Writing) {a b : Bool}
    (ha : a = true → s.cmdRespReceived = true) (hb : b = true → s.eventReceived = true) (hpc : ∀ t : Handshake, t.At pc) :
    HandshakeInv { s with cmdRespReceived := a, eventReceived := b, currCmd := curr, pc } := by
  refine ⟨⟨h.confirms, h.quiet, fun hd => .inl ((h.handed hd).resolve_right hw)⟩, fun hs => ?_, hpc _⟩
  obtain ⟨hd, hr, hp⟩ := h.asleep hs
  refine ⟨hd, ?_, hp⟩
  simp only [rxRcvd, Bool.or_eq_false_iff] at hr ⊢
  obtain ⟨⟨hr₁, hr₂⟩, hr₃⟩ := hr
  refine ⟨⟨?_, ?_⟩, hr₃⟩
  · cases a <;> simp_all
  · cases b <;> simp_all

theorem cmdResp (hpc : s.pc = .cmdResp) (answered : Bool) :
    HandshakeInv (s.cmdResp answered) := by
  have hw : ¬s.pc.Writing := by simp [hpc, LoopPc.Writing]
  rw [Handshake.cmdResp]
  split
  · exact h.taken _ _ hw (nomatch ·) id fun _ => trivial
  · exact h.goto _ hw trivial

/-- The cause of an event is kept until the event is complete. -/
theorem event (hpc : s.pc = .event) (tried sent : Bool) :
    HandshakeInv (s.event tried sent) := by
  have hw : ¬s.pc.Writing := by simp [hpc, LoopPc.Writing]
  rw [Handshake.event]
  split
  · next hevent =>
    have ha : s.asleep = false := h.quiet_of_received (by simp [rxRcvd, hevent])
    have ht : ∀ pc, (∀ t : Handshake, t.At pc) → HandshakeInv { s with eventReceived := false, pc } := fun pc hpc =>
      h.taken _ _ hw id (nomatch ·) hpc
    have hdone := ht .eventDone fun _ => trivial
    dsimp only
    split
    · next hcause =>
      split
      · exact hdone
      · refine ⟨⟨h.confirms, h.quiet, fun hd => absurd hd (by decide : ¬PsState.Dozing .preSleep)⟩,
          fun ha' => absurd (ha.symm.trans ha') (by decide), rfl, ?_⟩
        show s.eventCause ≠ none
        rw [hcause]
        exact some_ne_none _
    · split
      · exact hdone
      · have ho := hdone.withOthers { s.others with txLockFlag := false }
        cases tried with
        | false => exact ho.awake .eventDone trivial
        | true =>
          have hr := ho.record (d := .data) (by decide) ha
          cases sent with
          | false => exact hr.awake .eventDone trivial
          | true => exact hr.goto .eventDone id trivial
    · split
      · exact hdone
      · split
        · have hr := hdone.record (d := .vdll) (by decide) ha
          exact ⟨⟨hr.confirms, hr.quiet, hr.handed⟩, hr.asleep, trivial⟩
        · exact ⟨⟨hdone.confirms, hdone.quiet, hdone.handed⟩, fun ha' => absurd (ha.symm.trans ha') (by decide), trivial⟩
    · exact hdone
    · exact hdone
  · exact h.goto _ hw trivial

theorem eventDone (hpc : s.pc = .eventDone) : HandshakeInv (s.eventDone bus) := by
  have hw : ¬s.pc.Writing := by simp [hpc, LoopPc.Writing]
  have hb : (s.eventReceived && decide (bus ≠ .usb)) = true → s.eventReceived = true := fun hb =>
    (Bool.and_eq_true_iff.mp hb).1
  have ht := h.taken s.currCmd .check hw id hb fun _ => trivial
  exact ⟨⟨ht.confirms, ht.quiet, ht.handed⟩, ht.asleep, trivial⟩

theorem check (hpc : s.pc = .check) : HandshakeInv s.check := by
  have hw : ¬s.pc.Writing := by simp [hpc, LoopPc.Writing]
  rw [Handshake.check]
  split
  · next hready => exact h.goto _ hw ⟨hready.1, hready.2.2.2⟩
  · exact h.goto _ hw trivial

/-- Behind this check the firmware is awake. -/
theorem asleepCheck (hpc : s.pc = .asleepCheck) : HandshakeInv s.asleepCheck := by
  have hw : ¬s.pc.Writing := by simp [hpc, LoopPc.Writing]
  rw [Handshake.asleepCheck]
  split
  · exact h.goto _ hw trivial
  · next hn =>
    refine h.goto .vdll hw (show s.psState = .awake from ?_)
    cases hp : s.psState <;> simp_all

/-- In `AWAKE` anything may be downloaded. -/
theorem downloaded (hs : s.psState = .awake) (d : Download) (hd : d ≠ .sleepConfirm) :
    HandshakeInv (s.record d) :=
  h.record hd (h.not_asleep (by rw [hs]; decide))

theorem vdll (hpc : s.pc = .vdll) (sent : Bool) : HandshakeInv (s.vdll sent) := by
  have hw : ¬s.pc.Writing := by simp [hpc, LoopPc.Writing]
  have hs : s.psState = .awake := by simpa [hpc, At] using h.here
  rw [Handshake.vdll]
  split
  · have hr := (h.downloaded hs .vdll (by decide)).goto .nextCmd hw hs
    exact ⟨⟨hr.confirms, hr.quiet, hr.handed⟩, fun ha => ⟨(hr.asleep ha).1, (hr.asleep ha).2.1, rfl⟩, hs⟩
  · exact h.goto _ hw hs

theorem nextCmd (hpc : s.pc = .nextCmd) (sent : Bool) : HandshakeInv (s.nextCmd sent) := by
  have hw : ¬s.pc.Writing := by simp [hpc, LoopPc.Writing]
  have hs : s.psState = .awake := by simpa [hpc, At] using h.here
  rw [Handshake.nextCmd]
  split
  · cases sent with
    | true =>
      have hr := (h.downloaded hs .command (by decide)).goto .bypassTx hw hs
      exact ⟨⟨hr.confirms, hr.quiet, hr.handed⟩, hr.asleep, hs⟩
    | false =>
      have hr := (h.downloaded hs .command (by decide)).goto .done hw trivial
      exact ⟨⟨hr.confirms, hr.quiet, hr.handed⟩, hr.asleep, trivial⟩
  · exact h.goto _ hw hs

theorem bypassTx (hpc : s.pc = .bypassTx) : HandshakeInv s.bypassTx := by
  have hw : ¬s.pc.Writing := by simp [hpc, LoopPc.Writing]
  have hs : s.psState = .awake := by simpa [hpc, At] using h.here
  rw [Handshake.bypassTx]
  split
  · exact (h.downloaded hs .data (by decide)).goto .wmmTx hw hs
  · exact h.goto .wmmTx hw hs

theorem wmmTx (hpc : s.pc = .wmmTx) : HandshakeInv s.wmmTx := by
  have hw : ¬s.pc.Writing := by simp [hpc, LoopPc.Writing]
  have hs : s.psState = .awake := by simpa [hpc, At] using h.here
  rw [Handshake.wmmTx]
  split
  · exact (h.downloaded hs .data (by decide)).goto .nullPkt hw hs
  · exact h.goto .nullPkt hw hs

theorem nullPkt (hpc : s.pc = .nullPkt) : HandshakeInv s.nullPkt := by
  have hw : ¬s.pc.Writing := by simp [hpc, LoopPc.Writing]
  have hs : s.psState = .awake := by simpa [hpc, At] using h.here
  rw [Handshake.nullPkt]
  split
  · exact (h.downloaded hs .data (by decide)).goto .done hw trivial
  · exact h.goto .top hw trivial

theorem irq (hc : s.pc.Writing → s.psState ≠ .sleep) : HandshakeInv s.irq := by
  rw [Handshake.irq]
  split
  · next hs =>
    split
    · exact ⟨⟨h.confirms, h.quiet, h.handed⟩, (nomatch ·), h.here.of_eq (fun hw => absurd hs (hc hw)) rfl rfl id⟩
    · exact h.awake s.pc (h.here.of_dozing (.inl hs) fun hw => hc hw hs)
  · exact h

theorem sleepConfirmResp {resp : Option Bool} (hc : s.pc.Writing → resp = none) :
    HandshakeInv (s.sleepConfirmResp resp) := by
  cases resp with
  | none => exact h
  | some ok =>
    have hw : ¬s.pc.Writing := fun hw => some_ne_none _ (hc hw)
    rw [Handshake.sleepConfirmResp]
    split
    · next hs =>
      cases ok with
      | true =>
        exact ⟨⟨h.confirms, h.quiet, fun _ => h.handed (.inr hs.2)⟩, fun ha => ⟨.inl rfl, (h.asleep ha).2⟩,
          h.here.of_dozing (.inr hs.2) hw⟩
      | false =>
        exact ⟨⟨h.confirms, h.quiet, fun hd => absurd hd (by decide : ¬PsState.Dozing .awake)⟩, (nomatch ·),
          h.here.of_dozing (.inr hs.2) hw⟩
    · exact h

/-- Whatever was received, the firmware is not asleep. -/
theorem service {resp : Option Bool} {data answer : Bool} {ev : Option FwEvent} {sent : Bool}
    (hc : s.pc.Writing → resp = none ∧ data = false ∧ answer = false ∧ ev = none) :
    HandshakeInv (s.service bus resp data answer ev sent) := by
  have ht := h.sleepConfirmResp fun hw => (hc hw).1
  have hpc : (s.sleepConfirmResp resp).pc = s.pc := sleepConfirmResp_pc resp
  rw [Handshake.service]
  dsimp only
  refine ⟨⟨ht.confirms, ht.quiet, ht.handed⟩, fun ha => ?_, ht.here.of_eq (fun hw => ?_) rfl rfl fun he => ?_⟩
  · obtain ⟨ha, hr⟩ := Bool.and_eq_true_iff.mp ha
    exact ⟨(ht.asleep ha).1, Bool.not_inj (y := false) hr, (ht.asleep ha).2.2⟩
  · obtain ⟨rfl, rfl, rfl, rfl⟩ := hc (hpc ▸ hw)
    have hr := (h.here.writing (hpc ▸ hw)).2.1
    simp only [rxRcvd, Bool.or_eq_false_iff] at hr ⊢
    obtain ⟨⟨hr₁, hr₂⟩, hr₃⟩ := hr
    simp [Handshake.sleepConfirmResp, hr₁, hr₂, hr₃]
  · cases ev with
    | none => exact he
    | some e => exact some_ne_none e

theorem step {op : Op} (hc : op.Clean s) (hs : s.step bus op = some s') : HandshakeInv s' := by
  cases op with
  | start =>
    obtain ⟨hpc, rfl⟩ := of_guard hs
    exact h.goto _ (by simp [hpc, LoopPc.Writing]) trivial
  | top =>
    obtain ⟨hpc, rfl⟩ := of_guard hs
    refine h.goto _ (by simp [hpc, LoopPc.Writing]) ?_
    split <;> exact trivial
  | wakeTimeout recovered timeout =>
    obtain ⟨hpc, hs⟩ := ite_none_right_eq_some.mp hs
    exact some.inj hs ▸ h.wakeTimeout hpc recovered timeout
  | wakeCard =>
    obtain ⟨hpc, hs⟩ := ite_none_right_eq_some.mp hs
    exact some.inj hs ▸ h.wakeCard hpc
  | receive =>
    obtain ⟨hpc, hs⟩ := ite_none_right_eq_some.mp hs
    exact some.inj hs ▸ h.receive hpc
  | checkPs ready =>
    cases hpc : s.pc with
    | checkPs c =>
      simp only [Handshake.step, hpc] at hs
      exact some.inj hs ▸ h.checkPs hpc ready
    | _ => simp [Handshake.step, hpc] at hs
  | write ok =>
    cases hpc : s.pc with
    | writing c =>
      simp only [Handshake.step, hpc] at hs
      obtain rfl : ok = true := hc
      exact some.inj hs ▸ h.write hpc
    | _ => simp [Handshake.step, hpc] at hs
  | idle =>
    obtain ⟨hpc, hs⟩ := ite_none_right_eq_some.mp hs
    exact some.inj hs ▸ h.idle hpc
  | cmdResp answered =>
    obtain ⟨hpc, hs⟩ := ite_none_right_eq_some.mp hs
    exact some.inj hs ▸ h.cmdResp hpc answered
  | event tried sent =>
    obtain ⟨hpc, hs⟩ := ite_none_right_eq_some.mp hs
    exact some.inj hs ▸ h.event hpc tried sent
  | eventDone =>
    obtain ⟨hpc, hs⟩ := ite_none_right_eq_some.mp hs
    exact some.inj hs ▸ h.eventDone hpc
  | check =>
    obtain ⟨hpc, hs⟩ := ite_none_right_eq_some.mp hs
    exact some.inj hs ▸ h.check hpc
  | asleepCheck =>
    obtain ⟨hpc, hs⟩ := ite_none_right_eq_some.mp hs
    exact some.inj hs ▸ h.asleepCheck hpc
  | vdll sent =>
    obtain ⟨hpc, hs⟩ := ite_none_right_eq_some.mp hs
    exact some.inj hs ▸ h.vdll hpc sent
  | nextCmd sent =>
    obtain ⟨hpc, hs⟩ := ite_none_right_eq_some.mp hs
    exact some.inj hs ▸ h.nextCmd hpc sent
  | bypassTx =>
    obtain ⟨hpc, hs⟩ := ite_none_right_eq_some.mp hs
    exact some.inj hs ▸ h.bypassTx hpc
  | wmmTx =>
    obtain ⟨hpc, hs⟩ := ite_none_right_eq_some.mp hs
    exact some.inj hs ▸ h.wmmTx hpc
  | nullPkt =>
    obtain ⟨hpc, hs⟩ := ite_none_right_eq_some.mp hs
    exact some.inj hs ▸ h.nullPkt hpc
  | done again =>
    obtain ⟨hpc, rfl⟩ := of_guard hs
    refine h.goto _ (by simp [hpc, LoopPc.Writing]) ?_
    split <;> exact trivial
  | irq => exact some.inj hs ▸ h.irq hc
  | service resp data answer ev sent => exact some.inj hs ▸ h.service hc
  | dropCurr =>
    obtain rfl := some.inj hs
    exact ⟨⟨h.confirms, h.quiet, h.handed⟩, h.asleep, h.here.of_eq (fun hw => (h.here.writing hw).2.1) rfl rfl id⟩
  | others o => exact some.inj hs ▸ h.withOthers o

end

/-- Nothing was downloaded yet. -/
theorem of_init (h : s.Init) : HandshakeInv s := by
  obtain ⟨hps, -, -, -, -, -, -, -, -, -, hpc, ha, -, hlog⟩ := h
  refine ⟨⟨fun m hm => ?_, fun d m hm => ?_, fun hd => ?_⟩, fun ha' => ?_, ?_⟩
  · exact absurd (hlog ▸ hm) not_mem_nil
  · exact absurd (hlog ▸ hm) not_mem_nil
  · exact absurd hd (by rw [hps]; decide)
  · exact absurd (ha.symm.trans ha') (by decide)
  · rw [hpc]
    exact trivial

end HandshakeInv

/-- **The sleep handshake is safe.** In a run whose steps meet the condition : a sleep confirm is downloaded only when the
firmware has asked for it and nothing is under way, nothing else is downloaded until the firmware is awake again, and the
state is a sleeping one only if the last sleep confirm was written to the card, or is being written. -/
theorem sleeps_safely (h : (handshakeSystem bus).ReachableWhen (fun s op => op.Clean s) s) : s.SleepsSafely := by
  have hi : HandshakeInv s := h.invariant (fun _ => HandshakeInv.of_init) fun _ _ _ hi hc hs => hi.step hc hs
  exact hi.toSleepsSafely

/-- An interface without traffic. -/
def noTraffic : Others :=
  ⟨false, false, false, 0, false, true, true, false, false, false, true, false, false, false, false, false, false, false,
    false, false, false⟩

/-- The adapter came up. -/
def up (o : Others) : Handshake :=
  ⟨.awake, false, false, false, false, false, none, false, false, false, o, .out, false, false, []⟩

theorem up_init (o : Others) : (up o).Init :=
  ⟨rfl, rfl, rfl, rfl, rfl, rfl, rfl, rfl, rfl, rfl, rfl, rfl, rfl, rfl⟩

/-- The firmware asks for sleep; up to the write of the sleep confirm. -/
def askRun : List Op :=
  [.start, .top, .wakeTimeout false 0, .wakeCard, .service none false false (some .psSleep) false, .receive,
    .cmdResp false, .event false false, .checkPs true, .eventDone, .check, .checkPs true]

/-- A sleep confirm with its response, a command that wakes the firmware up, and its download. -/
theorem sleeps_safely_and_wakes : ∃ s, (handshakeSystem .sdio).ReachableWhen (fun s op => op.Clean s) s ∧
    s.log.map Prod.fst = [.sleepConfirm, .command] ∧ s.SleepsSafely := by
  obtain ⟨s, hs, hp⟩ := exists_reachableWhen_of_runWhen (M := handshakeSystem .sdio)
    (C := fun s op => op.Clean s) (P := fun s => decide (s.log.map Prod.fst = [.sleepConfirm, .command]))
    (l := askRun ++ [Op.write true, .asleepCheck, .service (some true) false false none true,
      .others { noTraffic with respCtrl := true, cmdPending := true }, .top, .wakeTimeout false 0, .wakeCard, .irq,
      .top, .wakeTimeout false 0, .wakeCard, .receive, .idle, .cmdResp false, .event false false, .check, .asleepCheck,
      .vdll false, .nextCmd true])
    (s := up { noTraffic with respCtrl := true }) (.init (up_init _)) (by decide +kernel)
  exact ⟨s, hs, of_decide_eq_true hp, sleeps_safely hs⟩

/-- The sleep confirm could not be written, and the host stays in `SLEEP`; or an interrupt comes before the write, and
data is downloaded behind the sleep confirm. -/
theorem sleeps_unsafely :
    (∃ s, (handshakeSystem .sdio).Reachable s ∧ s.psState = .sleep ∧ s.handed = false ∧ s.pc = .out) ∧
      (∃ s, (handshakeSystem .sdio).Reachable s ∧ ∃ e ∈ s.log, e.1 = .data ∧ e.2.asleep = true) ∧
      ¬∀ s, (handshakeSystem .sdio).Reachable s → s.SleepsSafely := by
  have hfail : ∃ s, (handshakeSystem .sdio).Reachable s ∧ s.psState = .sleep ∧ s.handed = false ∧ s.pc = .out := by
    obtain ⟨s, hs, hp⟩ := exists_reachable_of_run (M := handshakeSystem .sdio)
      (P := fun s => decide (s.psState = .sleep ∧ s.handed = false ∧ s.pc = .out))
      (l := askRun ++ [Op.write false, .asleepCheck, .top, .wakeTimeout false 0, .wakeCard, .receive, .idle, .done false])
      (s := up noTraffic) (up_init _) (by decide +kernel)
    exact ⟨s, hs, of_decide_eq_true hp⟩
  have hrace : ∃ s, (handshakeSystem .sdio).Reachable s ∧ ∃ e ∈ s.log, e.1 = .data ∧ e.2.asleep = true := by
    obtain ⟨s, hs, hp⟩ := exists_reachable_of_run (M := handshakeSystem .sdio)
      (P := fun s => decide (∃ e ∈ s.log, e.1 = .data ∧ e.2.asleep = true))
      (l := askRun ++ [Op.irq, .write true, .asleepCheck, .vdll false, .nextCmd false, .bypassTx])
      (s := up { noTraffic with bypassTxListEmpty := false }) (up_init _) (by decide +kernel)
    exact ⟨s, hs, of_decide_eq_true hp⟩
  refine ⟨hfail, hrace, fun h => ?_⟩
  obtain ⟨s, hs, hps, hno, hpc⟩ := hfail
  rcases (h s hs).handed (.inl hps) with hyes | hw
  · exact absurd (hno.symm.trans hyes) (by decide)
  · rw [hpc] at hw
    exact hw

end Handshake

end WlanDriver.Shim
