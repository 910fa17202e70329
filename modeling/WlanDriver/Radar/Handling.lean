import Mathlib.Data.List.Basic
import Mathlib.Data.List.Range
import WlanDriver.Lib.System

/-!
# Radar handling

`wlan_11h_radar_detected_handling` is one switch over the stages of the handling, and most stages fall through
to the next : here each stage is a function that ends or calls the next one. A stage that visits the interfaces
of `priv_list` one by one keeps its place in `priv_curr_idx`, an octet that is set to `0xff` at the first entry,
so that the next place is 0. A stage that waits is entered again by the response to the command that it sent, or
by a channel switch event.

`handle` is a call. It also notes whether a call has ever returned with a stage to go on from and nothing outstanding
that enters it again (`wedged`).
-/

namespace WlanDriver.Radar

/-- The stages, `RDH_OFF` to `RDH_RESTART_TRAFFIC`. -/
inductive Stage
  | off
  | chkIntfs
  | stopTraffic
  | getInfoChannel
  | getInfoBeaconDtim
  | setCustomIe
  | remCustomIe
  | stopIntfs
  | setNewChannel
  | restartIntfs
  | restartTraffic
  deriving DecidableEq

/-- The commands whose responses are looked at : channel and beacon queries and the channel setting
(`HostCmd_CMD_APCMD_SYS_CONFIGURE`), custom IEs, BSS stop and start, deauthentication. -/
inductive CmdKind
  | getChannel
  | getBeaconDtim
  | setChannel
  | mgmtIe
  | bssStop
  | bssStart
  | deauth
  deriving DecidableEq

/-- A command of an interface. -/
structure Cmd (ι : Type*) where
  kind : CmdKind
  iface : ι

/-- The interfaces of an adapter, those with the role of an access point, and whether the firmware switches channels
itself (`ecsa_enable`). -/
structure Card (ι : Type*) where
  privs : List ι
  uap : ι → Bool
  ecsaEnable : Bool
  /-- `MLAN_MAX_BSS_NUM`. -/
  length_privs : privs.length ≤ 16

/-- `RDH_STAGE_FIRST_ENTRY_PRIV_IDX`. -/
def firstEntry : ℕ := 0xff

/-- The state of the handling (`wlan_radar_det_hndlg_state_t`), what it looks at of the interfaces, and the
commands in flight. `byHandling` says that `tx_disabled` was set by `wlan_11h_tx_disable` in the handling; it
and `wedged` are history variables. `callback` says that `get_chan_callback` is
`wlan_11h_radar_detected_callback`. -/
structure Rdh (ι : Type*) where
  stage : Stage
  privList : List ι
  privCurrIdx : ℕ
  currChannel : ℕ
  newChannel : ℕ
  txBlock : Bool
  txDisabled : ι → Bool
  byHandling : ι → Bool
  mediaConnected : ι → Bool
  bssStarted : ι → Bool
  is11hHost : ι → Bool
  callback : ι → Bool
  chanCb : ι → ℕ
  bssChannel : ι → ℕ
  /-- A CHAN_SW element is among the custom IEs. -/
  chanSw : ι → Bool
  noChannelChange : Bool
  fixedNewChannel : ℕ
  pending : List (Cmd ι)
  wedged : Bool

/-- What a call is answered : `wlan_prepare_cmd` for the command of a stage, the allocation of the request for a
CHAN_SW element and whether its command is sent, by interface, and `wlan_11h_get_uap_start_channel`. -/
structure Env (ι : Type*) where
  prepare : Bool
  alloc : ι → Bool
  ieSent : ι → Bool
  startChannel : ℕ

variable {ι : Type*} [DecidableEq ι]

/-! ## Interfaces -/

def isIntfActive (c : Card ι) (s : Rdh ι) (i : ι) : Bool :=
  if c.uap i then s.bssStarted i else s.mediaConnected i

/-- `wlan_11h_tx_enable`. -/
def txEnable (s : Rdh ι) (i : ι) : Rdh ι :=
  if s.txDisabled i ∧ s.mediaConnected i then
    { s with
      txDisabled := Function.update s.txDisabled i false
      byHandling := Function.update s.byHandling i false }
  else s

/-- `wlan_11h_tx_disable`, in the handling. -/
def txDisable (s : Rdh ι) (i : ι) : Rdh ι :=
  if !s.txDisabled i ∧ s.mediaConnected i then
    { s with
      txDisabled := Function.update s.txDisabled i true
      byHandling := Function.update s.byHandling i true }
  else s

/-- The next place from `++priv_curr_idx` on where `p` holds, or behind the list. -/
def nextIdx (s : Rdh ι) (p : ι → Bool) : ℕ :=
  let j := (s.privCurrIdx + 1) % 256
  if j < s.privList.length then j + (s.privList.drop j).findIdx p else j

/-- A command is prepared. -/
def send (env : Env ι) (k : CmdKind) (i : ι) (s : Rdh ι) : Rdh ι :=
  if env.prepare then { s with pending := s.pending ++ [⟨k, i⟩] } else s

/-- A query is prepared, with the handling's callback. -/
def sendQuery (env : Env ι) (k : CmdKind) (i : ι) (s : Rdh ι) : Rdh ι :=
  send env k i { s with callback := Function.update s.callback i true }

/-! ## CHAN_SW elements -/

/-- The CHAN_SW elements of the interfaces of `l`, the first of which has place `j`, are added or removed. The
loop ends where the allocation fails; `wlan_11h_is_dfs_master` is the role of an access point. -/
def chanSwLoop (c : Card ι) (env : Env ι) (add : Bool) (s : Rdh ι) (j : ℕ) : List ι → Rdh ι
  | [] => { s with privCurrIdx := j }
  | i :: l =>
    if !c.uap i then chanSwLoop c env add s (j + 1) l
    else if !env.alloc i then { s with privCurrIdx := j }
    else if env.ieSent i then
      chanSwLoop c env add
        { s with
          chanSw := Function.update s.chanSw i add
          pending := s.pending ++ [⟨.mgmtIe, i⟩] } (j + 1) l
    else chanSwLoop c env add s (j + 1) l

/-- The CHAN_SW elements of all interfaces, from the first on. -/
def chanSwIes (c : Card ι) (env : Env ι) (add : Bool) (s : Rdh ι) : Rdh ι :=
  chanSwLoop c env add s 0 s.privList

/-- `wlan_11h_remove_custom_ie`. -/
def removeCustomIe (c : Card ι) (env : Env ι) (s : Rdh ι) : Rdh ι :=
  if s.stage = .setCustomIe then chanSwIes c env false s else s

/-! ## The stages -/

/-- `RDH_RESTART_TRAFFIC`. -/
def restartTraffic (c : Card ι) (env : Env ι) (s : Rdh ι) : Rdh ι :=
  let s := if c.ecsaEnable then chanSwIes c env false s else s
  { s.privList.foldl txEnable s with stage := .off }

/-- `RDH_RESTART_INTFS`. -/
def restartIntfs (c : Card ι) (env : Env ι) (s : Rdh ι) : Rdh ι :=
  let s := { s with privCurrIdx := nextIdx s c.uap }
  match s.privList[s.privCurrIdx]? with
  | some i => send env .bssStart i s
  | none => restartTraffic c env { s with privCurrIdx := firstEntry, stage := .restartTraffic }

/-- `RDH_SET_NEW_CHANNEL`. -/
def setNewChannel (c : Card ι) (env : Env ι) (s : Rdh ι) : Rdh ι :=
  let s := { s with privCurrIdx := nextIdx s c.uap }
  match s.privList[s.privCurrIdx]? with
  | some i => sendQuery env .setChannel i s
  | none => restartIntfs c env { s with privCurrIdx := firstEntry, stage := .restartIntfs }

/-- `RDH_STOP_INTFS` : one command to each access point and to each connected station. -/
def stopIntfs (c : Card ι) (env : Env ι) (s : Rdh ι) : Rdh ι :=
  let s := { s with privCurrIdx := nextIdx s fun i => c.uap i || s.mediaConnected i }
  match s.privList[s.privCurrIdx]? with
  | some i => send env (if c.uap i then .bssStop else .deauth) i s
  | none =>
    if s.noChannelChange then
      restartIntfs c env
        { s with newChannel := s.currChannel, privCurrIdx := firstEntry, stage := .restartIntfs }
    else setNewChannel c env { s with privCurrIdx := firstEntry, stage := .setNewChannel }

/-- `RDH_REM_CUSTOM_IE`. -/
def remCustomIe (c : Card ι) (env : Env ι) (s : Rdh ι) : Rdh ι :=
  if s.privCurrIdx = firstEntry then chanSwIes c env false s
  else stopIntfs c env { s with privCurrIdx := firstEntry, stage := .stopIntfs }

/-- `RDH_SET_CUSTOM_IE`. -/
def setCustomIe (c : Card ι) (env : Env ι) (s : Rdh ι) : Rdh ι :=
  if s.privCurrIdx = firstEntry then chanSwIes c env true s
  else remCustomIe c env { s with privCurrIdx := firstEntry, stage := .remCustomIe }

/-- `RDH_GET_INFO_BEACON_DTIM` : stations are passed by. -/
def getInfoBeaconDtim (c : Card ι) (env : Env ι) (s : Rdh ι) : Rdh ι :=
  let s := { s with privCurrIdx := nextIdx s c.uap }
  match s.privList[s.privCurrIdx]? with
  | some i => sendQuery env .getBeaconDtim i s
  | none => setCustomIe c env { s with privCurrIdx := firstEntry, stage := .setCustomIe }

/-- The second half of `RDH_GET_INFO_CHANNEL`, with the interface that is asked for a channel. The check of the
new channel is in the branch of a station, where it only reports. -/
def chooseChannel (c : Card ι) (env : Env ι) (i : ι) (s : Rdh ι) : Rdh ι :=
  let new := if c.uap i then env.startChannel else s.newChannel
  let new := if !s.noChannelChange ∧ s.fixedNewChannel ≠ 0 then s.fixedNewChannel else new
  let new := if s.noChannelChange then s.currChannel else new
  getInfoBeaconDtim c env
    { s with newChannel := new, privCurrIdx := firstEntry, stage := .getInfoBeaconDtim }

/-- The first station of the list, or its last interface. -/
def firstSta (c : Card ι) (pm : ι) (l : List ι) : ι :=
  ((l.find? fun i => !c.uap i).or l.getLast?).getD pm

/-- `RDH_GET_INFO_CHANNEL`. An access point is asked for its channel, after `wlan_11h_get_priv_curr_idx` has
found it; a station's channel is known. -/
def getInfoChannel (c : Card ι) (env : Env ι) (pm : ι) (s : Rdh ι) : Rdh ι :=
  if s.privCurrIdx = firstEntry then
    if c.uap pm then
      let s := { s with privCurrIdx := nextIdx s (· = pm) }
      match s.privList[s.privCurrIdx]? with
      | some _ => sendQuery env .getChannel pm s
      | none => s
    else
      let i := firstSta c pm s.privList
      chooseChannel c env i { s with currChannel := s.bssChannel i }
  else if s.privCurrIdx < s.privList.length then
    chooseChannel c env pm { s with currChannel := s.chanCb pm }
  else chooseChannel c env pm s

/-- `RDH_STOP_TRAFFIC`. -/
def stopTraffic (c : Card ι) (env : Env ι) (pm : ι) (s : Rdh ι) : Rdh ι :=
  getInfoChannel c env pm
    { s.privList.foldl txDisable s with privCurrIdx := firstEntry, stage := .getInfoChannel }

/-- `RDH_CHK_INTFS`. -/
def chkIntfs (c : Card ι) (env : Env ι) (pm : ι) (s : Rdh ι) : Rdh ι :=
  let s := { s with privList := c.privs.filter (isIntfActive c s) }
  if s.privList.isEmpty then { s with stage := .off }
  else
    stopTraffic c env pm
      { s with currChannel := 0, newChannel := 0, privCurrIdx := firstEntry, stage := .stopTraffic }

/-- `wlan_11h_radar_detected_handling`. -/
def radarDetectedHandling (c : Card ι) (env : Env ι) (pm : ι) (s : Rdh ι) : Rdh ι :=
  match s.stage with
  | .chkIntfs => chkIntfs c env pm s
  | .stopTraffic => stopTraffic c env pm s
  | .getInfoChannel => getInfoChannel c env pm s
  | .getInfoBeaconDtim => getInfoBeaconDtim c env s
  | .setCustomIe => setCustomIe c env s
  | .remCustomIe => remCustomIe c env s
  | .stopIntfs => stopIntfs c env s
  | .setNewChannel => setNewChannel c env s
  | .restartIntfs => restartIntfs c env s
  | .restartTraffic => restartTraffic c env s
  | .off => { s with stage := .off }

/-- `wlan_11h_radar_detected_tx_blocked`. -/
def radarDetectedTxBlocked (s : Rdh ι) : Bool :=
  s.txBlock || !(s.stage = .off ∨ s.stage = .chkIntfs ∨ s.stage = .stopTraffic)

/-! ## What is outstanding -/

/-- A test setting lets host-based interfaces handle radar in the driver. -/
def testing (s : Rdh ι) : Bool :=
  s.noChannelChange || s.fixedNewChannel ≠ 0

/-- The response to a command enters the handling. -/
def reenters (c : Card ι) (s : Rdh ι) (cmd : Cmd ι) : Bool :=
  match cmd.kind with
  | .getChannel | .getBeaconDtim | .setChannel => s.callback cmd.iface
  | .mgmtIe => (s.stage = .setCustomIe ∨ s.stage = .remCustomIe) ∧ !c.ecsaEnable
  | .bssStop | .deauth => s.stage = .stopIntfs
  | .bssStart => s.stage = .restartIntfs ∧ !s.is11hHost cmd.iface

/-- A channel switch event of `i` is due, and enters the handling. -/
def switchDue (c : Card ι) (s : Rdh ι) (i : ι) : Bool :=
  s.stage = .setCustomIe ∧ c.uap i ∧ s.chanSw i ∧ (!s.is11hHost i ∨ testing s)

/-- Something that enters the handling again is outstanding. -/
def outstanding (c : Card ι) (s : Rdh ι) : Bool :=
  s.pending.any (reenters c s) || c.privs.any (switchDue c s)

/-- A call of the handling, and what it leaves. -/
def handle (c : Card ι) (env : Env ι) (pm : ι) (s : Rdh ι) : Rdh ι :=
  let s := radarDetectedHandling c env pm s
  { s with wedged := s.wedged || (s.stage ≠ .off && !outstanding c s) }

end WlanDriver.Radar
