import WlanDriver.Radar.Handling

/-!
# What enters radar handling

The events and command responses that call `wlan_11h_radar_detected_handling`, or change what it looks at :
radar, channel switch and channel switch announcement events (`wlan_ops_uap_process_event`,
`wlan_ops_sta_process_event`, `wlan_11h_handle_event_chanswann`), the responses of
`wlan_ops_uap_process_cmdresp`, `wlan_uap_ret_sys_config`, `wlan_ret_mgmt_ie_list` and
`wlan_ret_802_11_deauthenticate`, connections that come and go, and settings. Responses come in any order, and
with an error, which enters nothing.
-/

namespace WlanDriver.Radar

open Function

variable {ι : Type*} [DecidableEq ι]

/-- A response : its result, the channel of a channel query, and whether a deauthentication names the BSS of the
connection. -/
structure Resp where
  ok : Bool
  channel : ℕ
  sameBss : Bool

/-- What happens. The radar event of an access point may belong to a channel check that is restarted, or to a
DFS interface (`passed`); an announcement is also for a started access point on the channel of the station, if
there is one. -/
inductive Act (ι : Type*)
  | radar (i : ι) (passed : Bool) (env : Env ι)
  | channelSwitch (i : ι) (channel : ℕ) (env : Env ι)
  | chanSwAnn (i : ι) (ap : Option ι) (stopTx deauthSent : Bool) (env : Env ι)
  | resp (k : ℕ) (r : Resp) (env : Env ι)
  /-- A command of someone else. -/
  | issue (kind : CmdKind) (i : ι)
  | connect (i : ι)
  | disconnect (i : ι)
  | started (i : ι)
  | startTx (i : ι)
  | setHost (i : ι) (host : Bool)
  | dfsTest (noChannelChange : Bool) (fixedNewChannel : ℕ)

section

variable (c : Card ι)

/-- Radar handling starts, unless it is already in progress. -/
def beginHandling (env : Env ι) (i : ι) (s : Rdh ι) : Rdh ι :=
  if s.stage = .off then handle c env i { s with stage := .chkIntfs } else s

/-- `EVENT_RADAR_DETECTED`. -/
def radarEvent (env : Env ι) (i : ι) (passed : Bool) (s : Rdh ι) : Rdh ι :=
  if c.uap i then
    if passed then s
    else if !s.is11hHost i ∨ testing s then beginHandling c env i s
    else { s with txDisabled := update s.txDisabled i true }
  else beginHandling c env i s

/-- Whether a channel switch event of `i` calls the handling. -/
def switchEnters (i : ι) (s : Rdh ι) : Bool :=
  s.stage = .setCustomIe ∧ if c.uap i then (!s.is11hHost i ∨ testing s) else c.ecsaEnable

/-- `EVENT_CHANNEL_SWITCH`. -/
def channelSwitchEvent (env : Env ι) (i : ι) (channel : ℕ) (s : Rdh ι) : Rdh ι :=
  if c.uap i then
    let s := { s with chanCb := update s.chanCb i channel }
    if (s.stage ≠ .off ∧ !s.is11hHost i) ∨ testing s then
      if switchEnters c i s then handle c env i { s with stage := .restartTraffic } else s
    else
      { s with
        txDisabled := update s.txDisabled i false
        byHandling := update s.byHandling i false }
  else if c.ecsaEnable then
    let s := { s with bssChannel := update s.bssChannel i channel }
    let s := if switchEnters c i s then handle c env i { s with stage := .restartTraffic } else s
    { s with txBlock := false }
  else s

/-- An announcement for the channel of access point `ap`. -/
def annForAp (env : Env ι) (ap : ι) (s : Rdh ι) : Rdh ι :=
  if !s.is11hHost ap then beginHandling c env ap s
  else if testing s then
    if s.stage = .off ∨ s.stage = .setCustomIe then handle c env ap { s with stage := .chkIntfs } else s
  else { s with txDisabled := update s.txDisabled ap true }

/-- `wlan_11h_handle_event_chanswann`. -/
def chanSwAnnEvent (env : Env ι) (i : ι) (ap : Option ι) (stopTx deauthSent : Bool) (s : Rdh ι) : Rdh ι :=
  let s := match ap with
    | some ap => annForAp c env ap s
    | none => s
  if c.ecsaEnable then { s with txBlock := s.txBlock || stopTx }
  else if s.mediaConnected i ∧ deauthSent then { s with pending := s.pending ++ [⟨.deauth, i⟩] }
  else s

/-- What a response does before it may enter the handling. -/
def respond (env : Env ι) (cmd : Cmd ι) (r : Resp) (s : Rdh ι) : Rdh ι :=
  let i := cmd.iface
  match cmd.kind with
  | .getChannel | .setChannel => { s with chanCb := update s.chanCb i r.channel }
  | .getBeaconDtim | .mgmtIe | .bssStart => s
  | .bssStop =>
    let s := { s with bssStarted := update s.bssStarted i false }
    if s.is11hHost i then
      { s with
        txDisabled := update s.txDisabled i false
        byHandling := update s.byHandling i false }
    else if c.ecsaEnable then removeCustomIe c env s
    else s
  | .deauth =>
    if r.sameBss then { s with mediaConnected := update s.mediaConnected i false, txBlock := false } else s

/-- A command response. -/
def cmdResp (env : Env ι) (cmd : Cmd ι) (r : Resp) (s : Rdh ι) : Rdh ι :=
  if r.ok then
    let s := respond c env cmd r s
    if reenters c s cmd then handle c env cmd.iface s else s
  else s

/-- Others do not query channels and beacons while radar is handled. -/
def CmdKind.isQuery : CmdKind → Bool
  | .getChannel | .getBeaconDtim | .setChannel => true
  | _ => false

def step (s : Rdh ι) : Act ι → Option (Rdh ι)
  | .radar i passed env => some (radarEvent c env i passed s)
  | .channelSwitch i channel env => some (channelSwitchEvent c env i channel s)
  | .chanSwAnn i ap stopTx deauthSent env =>
    if ap.all (fun j => c.uap j && s.bssStarted j) ∧ !c.uap i then
      some (chanSwAnnEvent c env i ap stopTx deauthSent s)
    else none
  | .resp k r env =>
    match s.pending[k]? with
    | none => none
    | some cmd => some (cmdResp c env cmd r { s with pending := s.pending.eraseIdx k })
  | .issue kind i => if kind.isQuery then none else some { s with pending := s.pending ++ [⟨kind, i⟩] }
  | .connect i => some { s with mediaConnected := update s.mediaConnected i true }
  | .disconnect i =>
    -- a station's `wlan_reset_connect_state`, an access point's `EVENT_MICRO_AP_BSS_IDLE`
    some { s with
      mediaConnected := update s.mediaConnected i false
      txBlock := s.txBlock && c.uap i }
  | .started i => some { s with bssStarted := update s.bssStarted i true }
  | .startTx i => some (txEnable s i)
  | .setHost i host => some { s with is11hHost := update s.is11hHost i host }
  | .dfsTest noChannelChange fixedNewChannel =>
    some { s with noChannelChange := noChannelChange, fixedNewChannel := fixedNewChannel }

/-- After `wlan_11h_init`. -/
def initial : Rdh ι where
  stage := .off
  privList := []
  privCurrIdx := 0
  currChannel := 0
  newChannel := 0
  txBlock := false
  txDisabled _ := false
  byHandling _ := false
  mediaConnected _ := false
  bssStarted _ := false
  is11hHost _ := false
  callback _ := false
  chanCb _ := 0
  bssChannel _ := 0
  chanSw _ := false
  noChannelChange := false
  fixedNewChannel := 0
  pending := []
  wedged := false

/-- Radar handling and what enters it. -/
def system : System (Rdh ι) (Act ι) where
  init s := s = initial
  step := step c

end

end WlanDriver.Radar
