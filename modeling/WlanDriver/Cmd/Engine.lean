import WlanDriver.Lib.System
import Mathlib.Data.BitVec

/-!
# The command engine

A command lives in a `cmd_ctrl_node` of a fixed pool. `wlan_prepare_cmd` takes a node from `cmd_free_q`, fills it and
queues it; the main process takes it from `cmd_pending_q`, sends it and keeps it in `curr_cmd` until its response, a
cancellation or a failure brings it back to `cmd_free_q`.

Each section under the command lock is a step, and so is each stretch between two of them that takes time or uses what
another thread may change. The main process has one place (`MainPc`); the nodes that callers of `wlan_prepare_cmd` hold
are in `prep`, and the functions that cancel and flush are steps at any time, their sections one by one.

History : `log` (what is done with requests), `issued` and `refused` (requests passed with a command, and given back with
a failure), `lost` (nodes), `received`, `released` and `overwritten` (response buffers), `timedOut` (a timeout was
recorded for the current command).
-/

namespace WlanDriver.Cmd

/-! ## Commands -/

/-- `HostCmd_CMD_*`. -/
abbrev CmdId := BitVec 16

def cmd80211Scan : CmdId := 0x0006
def cmd80211ScanExt : CmdId := 0x0107
def cmdFwDumpEvent : CmdId := 0x0125
def cmdSoftReset : CmdId := 0x00d5

/-- `HostCmd_CMD_ID_MASK`. -/
def cmdIdMask : CmdId := 0x0fff

/-- `HostCmd_RET_BIT`. -/
def retBit : CmdId := 0x8000

def isCmdAllowedDuringScan (cmdId : CmdId) : Bool :=
  cmdId ∉ ([0x00a9, 0x008f, 0x0249, 0x00fb, 0x00aa, 0x0012, 0x0024, 0x0026, 0x00ce, 0x00cf, 0x00d0, 0x010d, 0x0100,
    0x0122, 0x00d5, 0x00af, 0x00b1, 0x00b2, 0x00b5, 0x006b, 0x0224] : List CmdId)

/-- The command in `cmdbuf`. -/
structure HostCmd where
  command : CmdId
  size : UInt16
  /-- The extended scan command with `EXT_SCAN_CANCEL`. -/
  cancelScan : Bool
  /-- `HostCmd_CMD_802_11_PS_MODE_ENH` with `DIS_AUTO_PS`. -/
  disAutoPs : Bool
  deriving DecidableEq

/-- `HostCmd_CMD_FW_DUMP_EVENT` and `HostCmd_CMD_SOFT_RESET` have no response. -/
def HostCmd.noResp (cmd : HostCmd) : Bool :=
  cmd.command &&& cmdIdMask = cmdFwDumpEvent || cmd.command &&& cmdIdMask = cmdSoftReset

/-- A response in its buffer. -/
structure RespBuf where
  /-- Its number among all the buffers. -/
  id : ℕ
  command : CmdId
  /-- The result is `HostCmd_RESULT_PRE_ASLEEP`. -/
  preAsleep : Bool
  deriving DecidableEq

/-- `cmd_ctrl_node`. A request is known by its number. -/
structure CmdNode where
  cmdNo : CmdId
  /-- `CMD_F_HOSTCMD`. -/
  hostcmd : Bool
  /-- `CMD_F_CANCELED`. -/
  canceled : Bool
  /-- `CMD_F_SCAN`. -/
  scan : Bool
  cmd : HostCmd
  pioctlBuf : Option ℕ
  respbuf : Option RespBuf
  deriving DecidableEq

/-- `wlan_clean_cmd_node`. -/
def CmdNode.clean (n : CmdNode) : CmdNode :=
  { n with cmdNo := 0, hostcmd := false, canceled := false, scan := false, pioctlBuf := none, respbuf := none }

/-- `mlan_error_code`, as far as commands use it. -/
inductive Err
  | noError
  | noMem
  | cmdDnldFail
  | cmdRespFail
  | cmdCancel
  | cmdTimeout
  | fwCmdresp
  deriving DecidableEq

/-- What is done with a request. -/
inductive ReqEvent
  /-- `status_code` is written. -/
  | status (r : ℕ) (e : Err)
  /-- It is read, or its buffer is written. -/
  | use (r : ℕ)
  /-- `moal_ioctl_complete`. -/
  | complete (r : ℕ) (ok : Bool)
  deriving DecidableEq

def ReqEvent.req : ReqEvent → ℕ
  | .status r _ | .use r | .complete r _ => r

/-- What the card and the configuration fix, and what a request says of itself. -/
structure EngineCfg where
  /-- `MRVDRV_NUM_OF_CMD_BUFFER`. -/
  numCmdBuffer : ℕ
  usb : Bool
  extScan : Bool
  extScanEnh : Bool
  /-- `hw_status` is neither `WlanHardwareStatusInitializing` nor `WlanHardwareStatusGetHwSpec`. -/
  ready : Bool
  /-- `req_id` is `MLAN_IOCTL_SCAN`. -/
  isScan : ℕ → Bool
  bssIndex : ℕ → ℕ

/-- Where the main process is. -/
inductive MainPc
  | idle
  /-- `wlan_exec_next_cmd` has unlinked the node. -/
  | sending (i : ℕ)
  /-- The node is `curr_cmd` and goes to the card. -/
  | sent (i : ℕ)
  /-- The current command is about to be freed. -/
  | dropping
  /-- `wlan_process_cmdresp` has found the response to be one for the command, and has captured the request. -/
  | matched (cap : Option ℕ)
  /-- The command was not cancelled. -/
  | handling (cap : Option ℕ)
  /-- The handler is about to free the current command. -/
  | freeing (ok : Bool)
  /-- The handler has returned. -/
  | finishing (ok : Bool)
  deriving DecidableEq

structure Engine where
  node : ℕ → CmdNode
  freeQ : List ℕ
  pendingQ : List ℕ
  scanQ : List ℕ
  extQ : List ℕ
  curr : Option ℕ
  /-- The nodes that callers of `wlan_prepare_cmd` fill. -/
  prep : List ℕ
  main : MainPc
  /-- The requests that callers of `wlan_cancel_pending_ioctl` have found and not completed yet. -/
  cancelling : List ℕ
  /-- The requests that they have not found and still look at. -/
  looking : List ℕ
  /-- `cmd_timer_is_set`. -/
  timerSet : Bool
  numCmdTimeout : ℕ
  scanProcessing : Bool
  /-- `ext_scan_type` is `EXT_SCAN_ENHANCE`. -/
  extScanEnhance : Bool
  /-- `ps_state` is `PS_STATE_AWAKE`. -/
  psAwake : Bool
  statusCode : ℕ → Err
  log : List ReqEvent
  issued : List ℕ
  refused : List ℕ
  lost : List ℕ
  received : List ℕ
  released : List ℕ
  overwritten : List ℕ
  timedOut : Bool

namespace Engine

variable (c : EngineCfg) (s : Engine)

/-! ## Requests and nodes -/

def setNode (i : ℕ) (n : CmdNode) : Engine :=
  { s with node := Function.update s.node i n }

def setStatus (r : ℕ) (e : Err) : Engine :=
  { s with statusCode := Function.update s.statusCode r e, log := s.log ++ [ReqEvent.status r e] }

/-- `if (pioctl_buf) pioctl_buf->status_code = e`. -/
def setStatusOf (o : Option ℕ) (e : Err) : Engine :=
  match o with
  | some r => s.setStatus r e
  | none => s

/-- `if (pioctl_buf)` with a use of it. -/
def useOf (o : Option ℕ) : Engine :=
  { s with log := s.log ++ o.toList.map .use }

/-- `moal_ioctl_complete`. -/
def complete (r : ℕ) (ok : Bool) : Engine :=
  { s with log := s.log ++ [ReqEvent.complete r ok] }

/-- `wlan_insert_cmd_to_free_q`. The status that the request is completed with is the one it holds. -/
def insertCmdToFreeQ (i : ℕ) : Engine :=
  let u := match (s.node i).pioctlBuf with
    | some r => (s.useOf (some r)).complete r (s.statusCode r = Err.noError)
    | none => s
  { u.setNode i (s.node i).clean with
    released := s.released ++ (s.node i).respbuf.toList.map RespBuf.id
    freeQ := s.freeQ ++ [i] }

/-- The request of a node is taken off, gets `MLAN_ERROR_CMD_CANCEL` and is completed. -/
def cancelIoctl (i : ℕ) : Engine :=
  match (s.node i).pioctlBuf with
  | some r => ((s.setNode i { s.node i with pioctlBuf := none }).setStatus r .cmdCancel).complete r false
  | none => s

/-- `wlan_insert_cmd_to_pending_q`. A command that leaves the power save mode goes to the head. -/
def insertCmdToPendingQ (i : ℕ) (addTail : Bool) : Engine :=
  if addTail && !((s.node i).cmd.disAutoPs && !s.psAwake) then { s with pendingQ := s.pendingQ ++ [i] }
  else { s with pendingQ := i :: s.pendingQ }

/-! ## Preparation -/

/-- `wlan_prepare_cmd`, up to the buffer of the node. -/
def getCmdNode (req : Option ℕ) (allocOk : Bool) : Engine :=
  match s.freeQ with
  | [] => { s with issued := s.issued ++ req.toList, refused := s.refused ++ req.toList }.setStatusOf req .noMem
  | i :: rest =>
    let u := { s.setNode i { s.node i with pioctlBuf := req } with freeQ := rest, issued := s.issued ++ req.toList }
    if c.usb && !allocOk then
      -- without a command buffer the caller returns, and the node stays out of every queue
      { u with refused := u.refused ++ req.toList, lost := u.lost ++ [i] }.setStatusOf req .noMem
    else { u with prep := i :: u.prep }

/-- `wlan_prepare_cmd`, when the preparation of the command fails. -/
def prepareFails (i : ℕ) : Engine :=
  let req := (s.node i).pioctlBuf
  let u := { s with prep := s.prep.erase i, refused := s.refused ++ req.toList }
  ((u.setNode i { s.node i with pioctlBuf := none }).setStatusOf req .cmdDnldFail).insertCmdToFreeQ i

def queueScanCmd (i : ℕ) : Engine :=
  { s.setNode i { s.node i with scan := true } with scanQ := s.scanQ ++ [i] }

def queueCmd (i : ℕ) (cmdNo : CmdId) : Engine :=
  if s.scanProcessing && s.extScanEnhance && !isCmdAllowedDuringScan cmdNo then { s with extQ := s.extQ ++ [i] }
  else s.insertCmdToPendingQ i true

/-- The prepared command is in its node. -/
def fill (i : ℕ) (cmd : HostCmd) (hostcmd : Bool) : Engine :=
  let n := { s.node i with cmd := cmd, cmdNo := if hostcmd then 0 else cmd.command, hostcmd := hostcmd }
  { s.setNode i n with prep := s.prep.erase i }

/-- `wlan_prepare_cmd`, its last section. `hsCancel` : the command is `HostCmd_CMD_802_11_HS_CFG_ENH` and cancels the
host sleep configuration. -/
def enqueue (i : ℕ) (cmd : HostCmd) (hsCancel : Bool) : Engine :=
  if cmd.command = cmd80211Scan ∨ cmd.command = cmd80211ScanExt then
    if cmd.command = cmd80211ScanExt ∧ c.extScan ∧ c.extScanEnh ∧ s.extScanEnhance ∧ cmd.cancelScan then
      s.insertCmdToPendingQ i false
    else s.queueScanCmd i
  else if hsCancel then s.insertCmdToPendingQ i false
  else s.queueCmd i cmd.command

/-! ## Download -/

def execNextCmd : Option Engine :=
  match s.main, s.curr, s.pendingQ with
  | .idle, none, i :: rest => if s.psAwake then some { s with pendingQ := rest, main := .sending i } else none
  | _, _, _ => none

/-- `wlan_dnld_cmd_to_fw`, up to `curr_cmd`. -/
def dnldCmdToFw : Option Engine :=
  match s.main with
  | .sending i =>
    if (s.node i).cmd.size = 0 then
      some (({ s with main := .idle }.setStatusOf (s.node i).pioctlBuf .cmdDnldFail).insertCmdToFreeQ i)
    else
      some { s.setNode i { s.node i with cmdNo := (s.node i).cmd.command } with
        curr := some i, timedOut := false, main := .sent i }
  | _ => none

/-- `wlan_dnld_cmd_to_fw`, from `host_to_card` on. -/
def hostToCard (ok : Bool) : Option Engine :=
  match s.main with
  | .sent i =>
    if !ok then some ({ s with main := .dropping }.setStatusOf (s.node i).pioctlBuf .cmdDnldFail)
    else if (s.node i).cmd.noResp then
      -- only a command with a request is freed here
      some { s with main := if (s.node i).pioctlBuf.isSome then .dropping else .idle }
    else some { s with timerSet := true, main := .idle }
  | _ => none

/-- The current command goes back to `cmd_free_q`. -/
def freeCurr : Engine :=
  match s.curr with
  | some i => { s.insertCmdToFreeQ i with curr := none }
  | none => s

/-- The section that frees the current command. -/
def drop : Option Engine :=
  match s.main with
  | .dropping => some { s.freeCurr with main := .idle }
  | .freeing ok => some { s.freeCurr with main := .finishing ok }
  | _ => none

/-! ## Responses -/

/-- A response arrives while a command is outstanding. -/
def recvResp (b : RespBuf) : Option Engine :=
  match s.curr with
  | some i =>
    some { s.setNode i { s.node i with respbuf := some b } with
      received := s.received ++ [b.id]
      overwritten := s.overwritten ++ (s.node i).respbuf.toList.map RespBuf.id }
  | none => none

/-- `wlan_process_cmdresp`, up to its first section. -/
def processCmdresp : Option Engine :=
  match s.main with
  | .idle =>
    if s.numCmdTimeout ≠ 0 then some s
    else
      match s.curr with
      | none => some s
      | some i =>
        match (s.node i).respbuf with
        | none => some (s.setStatusOf (s.node i).pioctlBuf .cmdRespFail)
        | some b =>
          if (s.node i).cmdNo ≠ b.command &&& cmdIdMask then some s
          else some { s with timerSet := false, main := .matched (s.node i).pioctlBuf }
  | _ => none

/-- `wlan_process_cmdresp`, its first section. -/
def checkCanceled : Option Engine :=
  match s.main, s.curr with
  | .matched cap, some i =>
    if (s.node i).canceled then some { (s.setStatusOf cap .cmdCancel).freeCurr with main := .idle }
    else some { s with main := .handling cap }
  | _, _ => none

/-- `wlan_handle_cmd_error_in_pre_aleep`. -/
def requeue (i : ℕ) : Engine :=
  { s.setNode i { s.node i with respbuf := none } with
    curr := none
    released := s.released ++ (s.node i).respbuf.toList.map RespBuf.id }.insertCmdToPendingQ i false

/-- What `process_cmdresp` does with the request and the current command. -/
inductive Outcome
  | plain (uses ok : Bool)
  /-- The request gets a status, and the current command is freed : errors, and host sleep. -/
  | frees (e : Err) (ok : Bool)
  /-- `wlan_ret_802_11_scan_ext` for `EXT_SCAN_CANCEL`. -/
  | scanCancel
  /-- `wlan_ret_802_11_scan_ext` for `EXT_SCAN_ENHANCE`. -/
  | scanEnhance

/-- `wlan_process_cmdresp`, behind its first section. -/
def handleCmdresp (o : Outcome) : Option Engine :=
  match s.main, s.curr with
  | .handling cap, some i =>
    match (s.node i).respbuf with
    | none => none
    | some b =>
      let u := if (s.node i).hostcmd then s.useOf cap else s
      if b.command &&& retBit = 0 then some ({ u with main := .dropping }.setStatusOf cap .fwCmdresp)
      else if !c.usb && b.preAsleep then some { u.requeue i with main := .idle }
      else
        let v := u.setNode i { s.node i with hostcmd := false }
        match o with
        | .plain uses ok => some ({ v with main := .finishing ok }.useOf (if uses then cap else none))
        | .frees e ok => some ({ v with main := .freeing ok }.setStatusOf cap e)
        | .scanEnhance => some { v with timerSet := true, main := .finishing true }
        | .scanCancel =>
          let w := { v with scanProcessing := false, extScanEnhance := false, main := .finishing true }
          match cap with
          | some r => some ((w.setStatus r .noError).complete r true)
          | none => some w
  | _, _ => none

/-- `wlan_process_cmdresp`, its last section. A command that fails during the initialization stays the current one. -/
def finishCmdresp : Option Engine :=
  match s.main with
  | .finishing ok =>
    if !c.ready && !ok then some { s with main := .idle }
    else
      match s.curr with
      | none => some { s with main := .idle }
      | some i =>
        let req := (s.node i).pioctlBuf
        let u := if ok then s.setStatusOf req .noError
          else if req.any (fun r => s.statusCode r = .noError) then (s.useOf req).setStatusOf req .cmdRespFail
          else s.useOf req
        some { u.freeCurr with main := .idle }
  | _ => none

/-- `wlan_cmd_timeout_func`. It may start late. -/
def cmdTimeout : Engine :=
  match s.curr with
  | none => { s with timerSet := false }
  | some i =>
    { s with timerSet := false, numCmdTimeout := s.numCmdTimeout + 1, timedOut := true }.setStatusOf
      (s.node i).pioctlBuf .cmdTimeout

/-! ## Flushing and cancelling -/

/-- Nodes that were unlinked go to `cmd_free_q`, one after the other. -/
def freeAll (l : List ℕ) : Engine :=
  l.foldl insertCmdToFreeQ s

/-- Nodes that were unlinked are cancelled, one after the other. -/
def cancelAll (l : List ℕ) : Engine :=
  l.foldl (fun u i => (u.cancelIoctl i).insertCmdToFreeQ i) s

/-- A node of `scan_pending_q` is flushed. -/
def flushScan (i : ℕ) : Engine :=
  if (s.node i).cmd.command = cmd80211Scan ∨ (s.node i).cmd.command = cmd80211ScanExt then s.insertCmdToFreeQ i
  else (s.cancelIoctl i).insertCmdToFreeQ i

def flushScanQueue : Engine :=
  { s.scanQ.foldl flushScan { s with scanQ := [] } with scanProcessing := false }

def flushExtCmdPendingQueue : Engine :=
  { s with extQ := [] }.cancelAll s.extQ

def moveCmdToCmdPendingQ : Engine :=
  s.extQ.foldl (fun u i => u.insertCmdToPendingQ i true) { s with extQ := [] }

/-- The next scan command goes from `scan_pending_q` to `cmd_pending_q`. `wlan_scan_networks` also starts the scan. -/
def feedScan (start : Bool) : Option Engine :=
  match s.scanQ with
  | i :: rest => some ({ s with scanQ := rest, scanProcessing := start || s.scanProcessing }.insertCmdToPendingQ i true)
  | [] => none

/-- The current command loses its request. -/
def cancelCurr : Engine :=
  match s.curr with
  | some i => s.cancelIoctl i
  | none => s

/-- `wlan_cancel_all_pending_cmd`, its own section. -/
def cancelAllPendingCmd (flag : Bool) : Engine :=
  let u := if flag then s.cancelCurr.freeCurr else s.cancelCurr
  { u with timerSet := false, pendingQ := [] }.cancelAll u.pendingQ

/-- The current command is cancelled, if its request is one of those to be cancelled. -/
def cancelCurrIf (p : ℕ → Bool) : Engine :=
  match s.curr with
  | some i =>
    let u := s.useOf (s.node i).pioctlBuf
    if (s.node i).pioctlBuf.any p then (u.setNode i { s.node i with canceled := true }).cancelIoctl i else u
  | none => s

/-- The requests of the pending commands are looked at. -/
def usePending : Engine :=
  { s with log := s.log ++ (s.pendingQ.filterMap fun i => (s.node i).pioctlBuf).map .use }

/-- `wlan_cancel_bss_pending_cmd`, its own section. Each turn takes the first command of the BSS. -/
def cancelBssPendingCmd (b : ℕ) : Engine :=
  let u := (s.cancelCurrIf fun r => c.bssIndex r = b).usePending
  let hit := fun i => (u.node i).pioctlBuf.any fun r => c.bssIndex r = b
  { u with pendingQ := u.pendingQ.filter fun i => !hit i }.cancelAll (u.pendingQ.filter hit)

/-- `wlan_cancel_pending_scan_cmd`, its own section. Each turn takes the first scan command. -/
def cancelPendingScanCmd : Engine :=
  let u := s.cancelCurrIf c.isScan
  { u with pendingQ := u.pendingQ.filter fun i => !(u.node i).scan }.freeAll
    (u.pendingQ.filter fun i => (u.node i).scan)

/-- A node loses its request, which is not completed yet. -/
def takeIoctl (i : ℕ) : Engine :=
  s.setNode i { s.node i with pioctlBuf := none }

/-- The current command is cancelled, if it has the request. -/
def takeCurrIoctl (r : ℕ) : Engine :=
  match s.curr with
  | some i => if (s.node i).pioctlBuf = some r then s.setNode i { s.node i with pioctlBuf := none, canceled := true } else s
  | none => s

/-- `wlan_cancel_pending_ioctl`, its own section. A scan request is completed behind a flush of the scan queue, another
one at once; a request that is not found is read once more. -/
def cancelPendingIoctl (r : ℕ) : Engine :=
  let u := (s.takeCurrIoctl r).useOf (some r)
  let hit := fun i => decide ((u.node i).pioctlBuf = some r)
  let v := (u.pendingQ.filter hit).foldl (fun u i => (u.takeIoctl i).insertCmdToFreeQ i)
    { u with pendingQ := u.pendingQ.filter fun i => !hit i }
  if s.curr.any (fun i => (s.node i).pioctlBuf = some r) || u.pendingQ.any hit then
    if c.isScan r then { v with cancelling := r :: v.cancelling } else (v.setStatus r .cmdCancel).complete r false
  else { v with looking := r :: v.looking }

/-- The end of `wlan_cancel_pending_ioctl` for a scan request. -/
def endCancelIoctl (r : ℕ) : Option Engine :=
  if r ∈ s.cancelling then
    some (({ s with cancelling := s.cancelling.erase r }.setStatus r .cmdCancel).complete r false)
  else none

/-- The end of `wlan_cancel_pending_ioctl` for a request that was not found. -/
def endLookIoctl (r : ℕ) : Option Engine :=
  if r ∈ s.looking then some ({ s with looking := s.looking.erase r }.useOf (some r)) else none

end Engine

/-! ## Steps -/

/-- The steps. -/
inductive Op
  | getCmdNode (req : Option ℕ) (allocOk : Bool)
  | prepareFails (i : ℕ)
  | prepared (i : ℕ) (cmd : HostCmd) (hostcmd hsCancel : Bool)
  | execNextCmd
  | dnldCmdToFw
  | hostToCard (ok : Bool)
  | drop
  | recvResp (b : RespBuf)
  | processCmdresp
  | checkCanceled
  | handleCmdresp (o : Engine.Outcome)
  | finishCmdresp
  | cmdTimeout
  | flushScanQueue
  | flushExtCmdPendingQueue
  | moveCmdToCmdPendingQ
  | feedScan (start : Bool)
  | scanDone
  | cancelAllPendingCmd (flag : Bool)
  | cancelBssPendingCmd (b : ℕ)
  | cancelPendingScanCmd
  | cancelPendingIoctl (r : ℕ)
  | endCancelIoctl (r : ℕ)
  | endLookIoctl (r : ℕ)
  /-- The end of an extended scan stops the timer that its response has set. -/
  | extScanStatus
  /-- `ext_scan_type` is configured. -/
  | setExtScanType (enhance : Bool)
  | setPsState (awake : Bool)

/-- The requests that were completed. -/
def completions (l : List ReqEvent) : List ℕ :=
  l.filterMap fun e => match e with
    | .complete r _ => some r
    | _ => none

/-- One step. A request is passed with a command once, and a buffer is received once. -/
def Engine.step (c : EngineCfg) (s : Engine) : Op → Option Engine
  | .getCmdNode req allocOk => if ∀ r ∈ req, r ∉ s.issued then some (s.getCmdNode c req allocOk) else none
  | .prepareFails i => if i ∈ s.prep then some (s.prepareFails i) else none
  | .prepared i cmd hostcmd hsCancel =>
    if i ∈ s.prep then some ((s.fill i cmd hostcmd).enqueue c i cmd hsCancel) else none
  | .execNextCmd => s.execNextCmd
  | .dnldCmdToFw => s.dnldCmdToFw
  | .hostToCard ok => s.hostToCard ok
  | .drop => s.drop
  | .recvResp b => if b.id ∉ s.received then s.recvResp b else none
  | .processCmdresp => s.processCmdresp
  | .checkCanceled => s.checkCanceled
  | .handleCmdresp o => s.handleCmdresp c o
  | .finishCmdresp => s.finishCmdresp c
  | .cmdTimeout => some s.cmdTimeout
  | .flushScanQueue => some s.flushScanQueue
  | .flushExtCmdPendingQueue => some s.flushExtCmdPendingQueue
  | .moveCmdToCmdPendingQ => some s.moveCmdToCmdPendingQ
  | .feedScan start => s.feedScan start
  | .scanDone => some { s with scanProcessing := false }
  | .cancelAllPendingCmd flag => some (s.cancelAllPendingCmd flag)
  | .cancelBssPendingCmd b => some (s.cancelBssPendingCmd c b)
  | .cancelPendingScanCmd => some (s.cancelPendingScanCmd c)
  | .cancelPendingIoctl r => some (s.cancelPendingIoctl c r)
  | .endCancelIoctl r => s.endCancelIoctl r
  | .endLookIoctl r => s.endLookIoctl r
  | .extScanStatus => some (if s.curr = none then { s with timerSet := false } else s)
  | .setExtScanType enhance => some { s with extScanEnhance := enhance }
  | .setPsState awake => some { s with psAwake := awake }

/-- Every node is free, and nothing was asked for. -/
def Engine.Init (c : EngineCfg) (s : Engine) : Prop :=
  s.freeQ = List.range c.numCmdBuffer ∧ s.pendingQ = [] ∧ s.scanQ = [] ∧ s.extQ = [] ∧ s.curr = none ∧ s.prep = [] ∧
    s.main = .idle ∧ s.cancelling = [] ∧ s.looking = [] ∧ (∀ i, (s.node i).pioctlBuf = none ∧ (s.node i).respbuf = none) ∧
    s.log = [] ∧ s.issued = [] ∧ s.refused = [] ∧ s.lost = [] ∧ s.received = [] ∧
    s.released = [] ∧ s.overwritten = []

/-- The engine. -/
def engineSystem (c : EngineCfg) : System Engine Op :=
  ⟨Engine.Init c, Engine.step c⟩

end WlanDriver.Cmd
