import Mathlib.Data.List.Basic
import Mathlib.Data.Nat.Bitwise
import WlanDriver.Lib.Ethernet

/-!
# A failed association attempt

A station that is connected may be told to associate with another network. `wlan_bss_ioctl_start` closes the port,
`wlan_cmd_802_11_associate` builds the command, and `wlan_ret_802_11_associate` handles the response. The three write
into the record of the current connection : the BSSID, the rates in common with the new network, the choice of
management frame protection.

The failure branch of the response restores the port and the BSSID, the six failure exits of the builder restore
nothing. `failed_roam` says exactly which failed attempts leave the record as it was : those whose writes happened to
write what was there. An attempt to the current network ends in `wlan_reset_connect_state` unless the builder fails.
-/

namespace WlanDriver.Join

open Ethernet

/-! ## State -/

/-- An RSN element. Octets behind its end can be read too. -/
structure RsnIe where
  len : ℕ
  data : ℕ → UInt8

/-- `BSSDescriptor_t`, what an attempt reads of it. -/
structure BssDesc where
  macAddress : Mac
  /-- `WLAN_SUPPORTED_RATES` octets. -/
  supportedRates : List UInt8
  /-- `ds_param_set.current_chan`. -/
  currentChan : ℕ
  /-- `owe_transition_mode` is `OWE_TRANS_MODE_OWE`. -/
  oweTransition : Bool
  prsnIe : Option RsnIe

structure CurrBssParams where
  bssDescriptor : BssDesc
  numOfRates : ℕ
  /-- `WLAN_SUPPORTED_RATES` octets. -/
  dataRates : List UInt8
  useMfp : Bool
  hostMlme : Bool
  attempBssid : Mac
  prevBssid : Mac

/-- `mlan_private`, and what is read of the adapter. -/
structure Priv where
  mediaConnected : Bool
  currBssParams : CurrBssParams
  portCtrlMode : Bool
  portOpen : Bool
  priorPortStatus : Bool
  pattemptedBssDesc : Option BssDesc
  wpaIe : ℕ → UInt8
  /-- `wps.session_enable`. -/
  wpsSession : Bool
  wpaEnabled : Bool
  wpa2Enabled : Bool
  ewpaEnabled : Bool
  /-- `authentication_mode` is `MLAN_AUTH_MODE_OWE`. -/
  authOwe : Bool
  isDataRateAuto : Bool
  dataRate : ℕ
  configBands : ℕ
  /-- `bss_mode` is `MLAN_BSS_MODE_INFRA`. -/
  infra : Bool
  /-- `bss_type` is `MLAN_BSS_TYPE_WIFIDIRECT`. -/
  wifiDirect : Bool
  /-- `region_code` is one of Japan's. -/
  japan : Bool

/-- A zeroed descriptor. -/
def zeroDesc : BssDesc where
  macAddress := ⟨0, 0, 0, 0, 0, 0⟩
  supportedRates := List.replicate 14 0
  currentChan := 0
  oweTransition := false
  prsnIe := none

/-- `curr_bss_params` after its `memset`. -/
def zeroParams : CurrBssParams where
  bssDescriptor := zeroDesc
  numOfRates := 0
  dataRates := List.replicate 14 0
  useMfp := false
  hostMlme := false
  attempBssid := ⟨0, 0, 0, 0, 0, 0⟩
  prevBssid := ⟨0, 0, 0, 0, 0, 0⟩

/-- The record of a connection. -/
structure Record where
  mediaConnected : Bool
  bssDescriptor : BssDesc
  numOfRates : ℕ
  dataRates : List UInt8
  useMfp : Bool
  hostMlme : Bool
  attempBssid : Mac
  /-- In port control mode. -/
  port : Option Bool

/-- What the upper layer asks `wlan_bss_ioctl_start` for : the entry of the scan table, and two parameters. -/
structure Request where
  desc : BssDesc
  hostMlme : Bool
  prevBssid : Mac

/-- How the calls of the builder end that do not touch the record. -/
structure BuildEnv where
  /-- The allocation of `wlan_get_common_rates`. -/
  alloc : Bool
  /-- `wlan_update_rsn_ie` fails. -/
  rsnFails : Bool
  /-- `wlan_11d_create_dnld_countryinfo` fails. -/
  createFails : Bool
  /-- `wlan_11d_parse_dnld_countryinfo` fails. -/
  parseFails : Bool

/-- A response with a status code that is not zero. -/
structure AssocRsp where
  /-- Its size without the command header. -/
  size : ℕ
  /-- `BssId` and the subtype of the frame, read as a management frame. -/
  bssId : Mac
  subType : ℕ

/-- The response is an association response frame of this network. -/
def AssocRsp.IsFrameOf (r : AssocRsp) (mac : Mac) : Prop :=
  24 + 6 ≤ r.size ∧ r.bssId = mac ∧ (r.subType = 1 ∨ r.subType = 3)
  deriving Decidable

/-! ## Rates -/

/-- `BAND_B` to `BAND_AAX`. -/
def bandB : ℕ := 1
def bandG : ℕ := 2
def bandA : ℕ := 4
def bandGn : ℕ := 8
def bandAn : ℕ := 16
def bandGac : ℕ := 32
def bandAac : ℕ := 64
def bandGax : ℕ := 256
def bandAax : ℕ := 512

/-- A mask has a bit of another. -/
def meets (x y : ℕ) : Bool := x &&& y ≠ 0

def supportedRatesB : List UInt8 := [0x02, 0x04, 0x0b, 0x16, 0x00]
def supportedRatesG : List UInt8 := [0x0c, 0x12, 0x18, 0x24, 0x30, 0x48, 0x60, 0x6c, 0x00]
def supportedRatesBG : List UInt8 :=
  [0x02, 0x04, 0x0b, 0x0c, 0x12, 0x16, 0x18, 0x24, 0x30, 0x48, 0x60, 0x6c, 0x00]
def supportedRatesA : List UInt8 := [0x0c, 0x12, 0x18, 0x24, 0xb0, 0x48, 0x60, 0x6c, 0x00]

def convertConfigBands (c : ℕ) : ℕ :=
  (if meets c bandB then bandB else 0) |||
    (if meets c bandG || meets c bandGn || meets c bandGac || meets c bandGax then bandG else 0) |||
    (if meets c bandA || meets c bandAn || meets c bandAac || meets c bandAax then bandA else 0)

namespace Priv

variable (s : Priv)

/-- `wlan_get_supported_rates`, the rates up to the closing zero. -/
def getSupportedRates (configBands : ℕ) : List UInt8 :=
  let bands := convertConfigBands configBands
  if s.infra then
    if bands = bandB then supportedRatesB.takeWhile (· ≠ 0)
    else if bands = bandG then supportedRatesG.takeWhile (· ≠ 0)
    else if meets bands (bandB ||| bandG) then
      (if s.wifiDirect then supportedRatesG else supportedRatesBG).takeWhile (· ≠ 0)
    else if meets bands bandA then supportedRatesA.takeWhile (· ≠ 0)
    else []
  else []

/-- `wlan_get_common_rates`, with the memory it allocates : the rates of the network that the card has too, without the
basic bit. A fixed rate has to be one of them. -/
def getCommonRates (network card : List UInt8) : Option (List UInt8) :=
  let common := card.filterMap fun r => (network.takeWhile (· ≠ 0)).find? fun a => a &&& 0x7f = r &&& 0x7f
  if s.isDataRateAuto || common.any fun a => (a &&& 0x7f).toNat = s.dataRate then some common else none

/-- `wlan_setup_rates_from_bssdesc`. `alloc` : there is memory. -/
def setupRatesFromBssdesc (d : BssDesc) (alloc : Bool) : Option (List UInt8) :=
  if alloc then
    s.getCommonRates d.supportedRates
      (s.getSupportedRates (if s.japan && d.currentChan = 14 then bandB else s.configBands))
  else none

/-! ## Management frame protection -/

def getRsnCap (data : ℕ → UInt8) (len : ℕ) : ℕ :=
  let word := fun i => (data i).toNat + 256 * (data (i + 1)).toNat
  let pairwise := word 6
  let akm := word (8 + 4 * pairwise)
  let cap := 8 + 4 * pairwise + 2 + 4 * akm
  if len < 20 then 0
  else if pairwise = 0 ∨ len ≤ 8 + 4 * pairwise then 0
  else if akm = 0 ∨ len < cap then 0
  else word cap

/-- `MFPC_BIT` or `MFPR_BIT` is set. -/
def mfp (cap : ℕ) : Bool :=
  cap.testBit 7 || cap.testBit 6

def useMfp (d : BssDesc) : Bool :=
  if s.wpaIe 0 = 48 then
    match d.prsnIe with
    | none => false
    | some ie => mfp (getRsnCap ie.data ie.len) && mfp (getRsnCap (fun i => s.wpaIe (i + 2)) (s.wpaIe 1).toNat)
  else false

/-! ## The attempt -/

/-- `wlan_reset_connect_state`, with `drv_disconnect`. -/
def resetConnectState : Priv :=
  { s with
    mediaConnected := false
    portOpen := if s.portCtrlMode then false else s.portOpen
    ewpaEnabled := false
    wpaEnabled := false
    wpa2Enabled := false
    wpsSession := false
    isDataRateAuto := true
    dataRate := 0
    currBssParams := zeroParams }

/-- `wlan_bss_ioctl_start` up to `wlan_associate`. -/
def bssIoctlStart (q : Request) : Priv :=
  { s with
    priorPortStatus := if s.portCtrlMode then s.portOpen else s.priorPortStatus
    portOpen := if s.portCtrlMode then false else s.portOpen
    currBssParams := { s.currBssParams with hostMlme := q.hostMlme, prevBssid := q.prevBssid } }

/-- The WPA or RSN element of the supplicant goes into the command. -/
def OwnWpa : Prop :=
  s.wpsSession = false ∧ (s.wpaEnabled = true ∨ s.wpa2Enabled = true)
  deriving Decidable

/-- The elements of the network go into the command. -/
def NetworkRsn (d : BssDesc) : Prop :=
  s.wpsSession = false ∧ ¬(s.wpaEnabled = true ∨ s.wpa2Enabled = true) ∧
    (s.ewpaEnabled = true ∨ d.oweTransition = true ∨ s.authOwe = true) ∧ d.prsnIe.isSome
  deriving Decidable

/-- The element of the supplicant is too long. -/
def WpaTooLong : Prop :=
  254 < (s.wpaIe 1).toNat
  deriving Decidable

/-- `wlan_cmd_802_11_associate`, and whether it returns success. -/
def cmdAssociate (d : BssDesc) (env : BuildEnv) : Priv × Bool :=
  let u := { s with
    pattemptedBssDesc := some d
    currBssParams := { s.currBssParams with attempBssid := d.macAddress } }
  match u.setupRatesFromBssdesc d env.alloc with
  | none => (u, false)
  | some rates =>
    -- save the data rates into the current BSS state
    let u := { u with currBssParams := { u.currBssParams with
      numOfRates := rates.length
      dataRates := rates ++ u.currBssParams.dataRates.drop rates.length } }
    if u.OwnWpa ∧ u.WpaTooLong then (u, false)
    else
      let u := if u.OwnWpa then { u with currBssParams := { u.currBssParams with useMfp := u.useMfp d } } else u
      (u, !(decide (u.NetworkRsn d) && env.rsnFails || env.createFails || env.parseFails))

/-- `wlan_ret_802_11_associate` for a refusal. -/
def retAssociate (r : AssocRsp) : Priv :=
  let u := if r.IsFrameOf s.currBssParams.attempBssid then
      { s with currBssParams := { s.currBssParams with hostMlme := true } }
    else s
  if u.mediaConnected then
    let v := { u with portOpen := if u.portCtrlMode then u.priorPortStatus else u.portOpen }
    if u.pattemptedBssDesc.any fun d => d.macAddress = u.currBssParams.bssDescriptor.macAddress then
      v.resetConnectState
    else
      { v with currBssParams := { v.currBssParams with attempBssid := v.currBssParams.bssDescriptor.macAddress } }
  else u.resetConnectState

/-- An attempt that fails : in the builder, or with the response `r`. -/
def attempt (q : Request) (env : BuildEnv) (r : AssocRsp) : Priv :=
  let u := (s.bssIoctlStart q).cmdAssociate q.desc env
  if u.2 then u.1.retAssociate r else u.1

/-- The record of the current connection. -/
def record : Record where
  mediaConnected := s.mediaConnected
  bssDescriptor := s.currBssParams.bssDescriptor
  numOfRates := s.currBssParams.numOfRates
  dataRates := s.currBssParams.dataRates
  useMfp := s.currBssParams.useMfp
  hostMlme := s.currBssParams.hostMlme
  attempBssid := s.currBssParams.attempBssid
  port := if s.portCtrlMode then some s.portOpen else none

/-- The builder fails. -/
def Refused (d : BssDesc) (env : BuildEnv) : Prop :=
  s.setupRatesFromBssdesc d env.alloc = none ∨ s.OwnWpa ∧ s.WpaTooLong ∨ s.NetworkRsn d ∧ env.rsnFails = true ∨
    env.createFails = true ∨ env.parseFails = true
  deriving Decidable

/-- A failed attempt does no harm. To the current network : the builder does not fail. To another one : the rates and
the protection that the builder comes to are those of the current network; a response is not the first sign of a host
MLME; and where the builder fails, the port was closed and the BSSID was the attempted one before. -/
def Intact (q : Request) (env : BuildEnv) (r : AssocRsp) : Prop :=
  if q.desc.macAddress = s.currBssParams.bssDescriptor.macAddress then ¬s.Refused q.desc env
  else
    (∀ rates ∈ s.setupRatesFromBssdesc q.desc env.alloc,
      rates.length = s.currBssParams.numOfRates ∧ rates = s.currBssParams.dataRates.take rates.length ∧
        (s.OwnWpa → ¬s.WpaTooLong → s.useMfp q.desc = s.currBssParams.useMfp)) ∧
    if s.Refused q.desc env then
      s.currBssParams.attempBssid = q.desc.macAddress ∧ s.currBssParams.hostMlme = q.hostMlme ∧
        (s.portCtrlMode = true → s.portOpen = false)
    else
      s.currBssParams.attempBssid = s.currBssParams.bssDescriptor.macAddress ∧
        s.currBssParams.hostMlme = (q.hostMlme || decide (r.IsFrameOf q.desc.macAddress))

instance (q : Request) (env : BuildEnv) (r : AssocRsp) : Decidable (s.Intact q env r) := by
  unfold Intact
  infer_instance

/-! ## What the builder writes -/

variable {s}

/-- The state after the builder, whatever its exit. -/
structure Built (s : Priv) (q : Request) (env : BuildEnv) (u : Priv) : Prop where
  media : u.mediaConnected = s.mediaConnected
  desc : u.currBssParams.bssDescriptor = s.currBssParams.bssDescriptor
  attempted : u.pattemptedBssDesc = some q.desc
  attemp : u.currBssParams.attempBssid = q.desc.macAddress
  host : u.currBssParams.hostMlme = q.hostMlme
  ctrl : u.portCtrlMode = s.portCtrlMode
  closed : u.portOpen = if s.portCtrlMode then false else s.portOpen
  prior : u.priorPortStatus = if s.portCtrlMode then s.portOpen else s.priorPortStatus
  num : u.currBssParams.numOfRates =
    ((s.setupRatesFromBssdesc q.desc env.alloc).map List.length).getD s.currBssParams.numOfRates
  rates : u.currBssParams.dataRates = ((s.setupRatesFromBssdesc q.desc env.alloc).map fun l =>
    l ++ s.currBssParams.dataRates.drop l.length).getD s.currBssParams.dataRates
  mfp : u.currBssParams.useMfp =
    if (s.setupRatesFromBssdesc q.desc env.alloc).isSome ∧ s.OwnWpa ∧ ¬s.WpaTooLong then s.useMfp q.desc
    else s.currBssParams.useMfp

/-- The builder, and when it fails. -/
theorem built_cmdAssociate (s : Priv) (q : Request) (env : BuildEnv) :
    Built s q env ((s.bssIoctlStart q).cmdAssociate q.desc env).1 ∧
      (((s.bssIoctlStart q).cmdAssociate q.desc env).2 = true ↔ ¬s.Refused q.desc env) := by
  have hsetup : ∀ a c p o, Priv.setupRatesFromBssdesc
      { s with pattemptedBssDesc := a, currBssParams := c, priorPortStatus := p, portOpen := o } q.desc env.alloc =
        s.setupRatesFromBssdesc q.desc env.alloc := fun _ _ _ _ => rfl
  have hown : ∀ a c p o, Priv.OwnWpa
      { s with pattemptedBssDesc := a, currBssParams := c, priorPortStatus := p, portOpen := o } ↔ s.OwnWpa :=
    fun _ _ _ _ => Iff.rfl
  have hlong : ∀ a c p o, Priv.WpaTooLong
      { s with pattemptedBssDesc := a, currBssParams := c, priorPortStatus := p, portOpen := o } ↔ s.WpaTooLong :=
    fun _ _ _ _ => Iff.rfl
  have hnet : ∀ a c p o, Priv.NetworkRsn
      { s with pattemptedBssDesc := a, currBssParams := c, priorPortStatus := p, portOpen := o } q.desc ↔
        s.NetworkRsn q.desc := fun _ _ _ _ => Iff.rfl
  unfold cmdAssociate bssIoctlStart
  simp only [hsetup, hown, hlong]
  cases hrates : s.setupRatesFromBssdesc q.desc env.alloc with
  | none =>
    refine ⟨⟨rfl, rfl, rfl, rfl, rfl, rfl, rfl, rfl, ?_, ?_, ?_⟩, ?_⟩
    · simp [hrates]
    · simp [hrates]
    · simp [hrates]
    · simp [Refused, hrates]
  | some rates =>
    by_cases hout : s.OwnWpa ∧ s.WpaTooLong
    · simp only [if_pos hout]
      refine ⟨⟨rfl, rfl, rfl, rfl, rfl, rfl, rfl, rfl, ?_, ?_, ?_⟩, ?_⟩
      · simp [hrates]
      · simp [hrates]
      · simp [hout.2]
      · simp [Refused, hout]
    · simp only [if_neg hout]
      by_cases hwpa : s.OwnWpa
      · have hl : ¬s.WpaTooLong := fun hl => hout ⟨hwpa, hl⟩
        simp only [if_pos hwpa, hnet]
        refine ⟨⟨rfl, rfl, rfl, rfl, rfl, rfl, rfl, rfl, ?_, ?_, ?_⟩, ?_⟩
        · simp [hrates]
        · simp [hrates]
        · simp only [hrates, hwpa, hl, Option.isSome_some, not_false_eq_true, and_self, if_true]
          rfl
        · simp [Refused, hrates, hl, and_assoc, imp_iff_not_or]
      · simp only [if_neg hwpa, hnet]
        refine ⟨⟨rfl, rfl, rfl, rfl, rfl, rfl, rfl, rfl, ?_, ?_, ?_⟩, ?_⟩
        · simp [hrates]
        · simp [hrates]
        · simp [hwpa]
        · simp [Refused, hrates, hwpa, and_assoc, imp_iff_not_or]

/-! ## Failed attempts -/

/-- The response to an attempt at the current network, or at another one. -/
theorem Built.attempted_eq {q : Request} {env : BuildEnv} {u : Priv} (h : Built s q env u) :
    (u.pattemptedBssDesc.any fun d => d.macAddress = u.currBssParams.bssDescriptor.macAddress) =
      decide (q.desc.macAddress = s.currBssParams.bssDescriptor.macAddress) := by
  rw [h.attempted, h.desc, Option.any_some]

/-- The failure branch of the response restores the port and the BSSID. -/
theorem Built.record_retAssociate {q : Request} {env : BuildEnv} {r : AssocRsp} {u : Priv} (h : Built s q env u)
    (hconn : s.mediaConnected = true) (hne : q.desc.macAddress ≠ s.currBssParams.bssDescriptor.macAddress) :
    (u.retAssociate r).record = { u.record with
      hostMlme := q.hostMlme || decide (r.IsFrameOf q.desc.macAddress)
      attempBssid := s.currBssParams.bssDescriptor.macAddress
      port := if s.portCtrlMode then some s.portOpen else none } := by
  have hmedia : u.mediaConnected = true := h.media.trans hconn
  have hother := h.attempted_eq.trans (decide_eq_false hne)
  by_cases hf : r.IsFrameOf q.desc.macAddress
  · simp only [retAssociate, h.attemp, if_pos hf, hmedia, if_true, hother, Bool.false_eq_true, if_false]
    simp only [record, h.desc, h.ctrl, h.prior, hf, hmedia, decide_true, Bool.or_true]
    cases s.portCtrlMode <;> rfl
  · simp only [retAssociate, h.attemp, if_neg hf, hmedia, if_true, hother, Bool.false_eq_true, if_false]
    simp only [record, h.desc, h.ctrl, h.prior, h.host, hf, hmedia, decide_false, Bool.or_false]
    cases s.portCtrlMode <;> rfl

/-- To the current network the response ends in a reset. -/
theorem Built.retAssociate_self {q : Request} {env : BuildEnv} {u : Priv} (h : Built s q env u)
    (heq : q.desc.macAddress = s.currBssParams.bssDescriptor.macAddress) (r : AssocRsp) :
    ∃ v : Priv, u.retAssociate r = v.resetConnectState := by
  have hself := h.attempted_eq.trans (decide_eq_true heq)
  unfold retAssociate
  by_cases hf : r.IsFrameOf u.currBssParams.attempBssid
  · simp only [if_pos hf, hself, if_true]
    split_ifs <;> exact ⟨_, rfl⟩
  · simp only [if_neg hf, hself, if_true]
    split_ifs <;> exact ⟨_, rfl⟩

/-- The rates and the protection are as they were. -/
theorem Built.kept_iff {q : Request} {env : BuildEnv} {u : Priv} (h : Built s q env u) :
    (u.currBssParams.numOfRates = s.currBssParams.numOfRates ∧ u.currBssParams.dataRates = s.currBssParams.dataRates ∧
      u.currBssParams.useMfp = s.currBssParams.useMfp) ↔
    ∀ rates ∈ s.setupRatesFromBssdesc q.desc env.alloc,
      rates.length = s.currBssParams.numOfRates ∧ rates = s.currBssParams.dataRates.take rates.length ∧
        (s.OwnWpa → ¬s.WpaTooLong → s.useMfp q.desc = s.currBssParams.useMfp) := by
  rw [h.num, h.rates, h.mfp]
  cases s.setupRatesFromBssdesc q.desc env.alloc with
  | none => simp
  | some rates =>
    have hrates : rates ++ s.currBssParams.dataRates.drop rates.length = s.currBssParams.dataRates ↔
        rates = s.currBssParams.dataRates.take rates.length := by
      conv_lhs => rhs; rw [← List.take_append_drop rates.length s.currBssParams.dataRates]
      exact List.append_left_inj _
    simp only [Option.map_some, Option.getD_some, hrates, Option.isSome_some, true_and, Option.mem_def,
      Option.some.injEq, forall_eq']
    refine and_congr_right fun _ => and_congr_right fun _ => ?_
    by_cases hgo : s.OwnWpa ∧ ¬s.WpaTooLong
    · simp [hgo]
    · simp only [if_neg hgo, true_iff]
      exact fun hown hlong => absurd ⟨hown, hlong⟩ hgo

end Priv

/-- When a failed attempt does what it should : an attempt to another network leaves the record of the current
connection as it was, an attempt to the current network ends in a reset. -/
theorem failed_roam (s : Priv) (q : Request) (env : BuildEnv) (r : AssocRsp) (hconn : s.mediaConnected = true) :
    (if q.desc.macAddress = s.currBssParams.bssDescriptor.macAddress then
        ∃ v : Priv, s.attempt q env r = v.resetConnectState
      else (s.attempt q env r).record = s.record) ↔ s.Intact q env r := by
  obtain ⟨hb, hok⟩ := Priv.built_cmdAssociate s q env
  have hport : ((if s.portCtrlMode = true then some (if s.portCtrlMode = true then false else s.portOpen) else none) =
      if s.portCtrlMode = true then some s.portOpen else none) ↔ (s.portCtrlMode = true → s.portOpen = false) := by
    cases s.portCtrlMode <;> cases s.portOpen <;> simp
  unfold Priv.attempt Priv.Intact
  dsimp only
  by_cases hself : q.desc.macAddress = s.currBssParams.bssDescriptor.macAddress
  · rw [if_pos hself, if_pos hself]
    by_cases hrefused : s.Refused q.desc env
    · have hfail : ¬((s.bssIoctlStart q).cmdAssociate q.desc env).2 = true := fun h => hok.mp h hrefused
      rw [if_neg hfail]
      refine iff_of_false ?_ (not_not.mpr hrefused)
      rintro ⟨v, hv⟩
      have hmedia := hb.media.trans hconn
      rw [hv] at hmedia
      cases hmedia
    · rw [if_pos (hok.mpr hrefused)]
      exact iff_of_true (hb.retAssociate_self hself r) hrefused
  · rw [if_neg hself, if_neg hself, ← hb.kept_iff]
    by_cases hrefused : s.Refused q.desc env
    · have hfail : ¬((s.bssIoctlStart q).cmdAssociate q.desc env).2 = true := fun h => hok.mp h hrefused
      rw [if_neg hfail, if_pos hrefused]
      simp only [Priv.record, Record.mk.injEq, hb.media, hb.desc, hb.host, hb.attemp, hb.ctrl, hb.closed, true_and,
        hport]
      constructor
      · rintro ⟨hnum, hrates, hmfp, hhost, hattemp, hopen⟩
        exact ⟨⟨hnum, hrates, hmfp⟩, hattemp.symm, hhost.symm, hopen⟩
      · rintro ⟨⟨hnum, hrates, hmfp⟩, hattemp, hhost, hopen⟩
        exact ⟨hnum, hrates, hmfp, hhost.symm, hattemp.symm, hopen⟩
    · rw [if_pos (hok.mpr hrefused), if_neg hrefused, hb.record_retAssociate hconn hself]
      simp only [Priv.record, Record.mk.injEq, hb.media, hb.desc, true_and, and_true]
      constructor
      · rintro ⟨hnum, hrates, hmfp, hhost, hattemp⟩
        exact ⟨⟨hnum, hrates, hmfp⟩, hattemp.symm, hhost.symm⟩
      · rintro ⟨⟨hnum, hrates, hmfp⟩, hattemp, hhost⟩
        exact ⟨hnum, hrates, hmfp, hhost.symm, hattemp.symm⟩

/-! ## A station that roams -/

def roamHome : Mac := ⟨2, 0, 0, 0, 0, 1⟩

def roamTarget : Mac := ⟨2, 0, 0, 0, 0, 2⟩

/-- A network with these rates. -/
def roamDesc (mac : Mac) (rates : List UInt8) : BssDesc where
  macAddress := mac
  supportedRates := rates
  currentChan := 6
  oweTransition := false
  prsnIe := none

/-- Connected to the first network, which has all rates of 11b, with the port open. -/
def roamState : Priv where
  mediaConnected := true
  currBssParams :=
    { bssDescriptor := roamDesc roamHome [2, 4, 11, 22]
      numOfRates := 4
      dataRates := [2, 4, 11, 22, 0, 0, 0, 0, 0, 0, 0, 0, 0, 0]
      useMfp := false
      hostMlme := false
      attempBssid := roamHome
      prevBssid := ⟨0, 0, 0, 0, 0, 0⟩ }
  portCtrlMode := true
  portOpen := true
  priorPortStatus := false
  pattemptedBssDesc := none
  wpaIe := fun _ => 0
  wpsSession := false
  wpaEnabled := false
  wpa2Enabled := false
  ewpaEnabled := false
  authOwe := false
  isDataRateAuto := true
  dataRate := 0
  configBands := 3
  infra := true
  wifiDirect := false
  japan := false

/-- Every call succeeds. -/
def fineBuild : BuildEnv := ⟨true, false, false, false⟩

/-- The attempted network refuses, without an association response frame. -/
def refusal : AssocRsp := ⟨6, ⟨0, 0, 0, 0, 0, 0⟩, 0⟩

/-- To a network with the same rates nothing is lost. -/
theorem failed_roam_same_rates :
    (roamState.attempt ⟨roamDesc roamTarget [2, 4, 11, 22], false, roamHome⟩ fineBuild refusal).record =
      roamState.record := by
  have h := failed_roam roamState ⟨roamDesc roamTarget [2, 4, 11, 22], false, roamHome⟩ fineBuild refusal rfl
  rw [if_neg (by decide)] at h
  exact h.mpr (by decide)

/-- The builder fails for a network with two rates : the port stays closed, and the record mixes both networks. -/
theorem roam_mixed :
    let s := roamState.attempt ⟨roamDesc roamTarget [2, 4], false, roamHome⟩ ⟨true, false, true, false⟩ refusal
    (s.mediaConnected = true ∧ s.portOpen = false ∧ s.currBssParams.bssDescriptor.macAddress = roamHome ∧
      s.currBssParams.attempBssid = roamTarget ∧ s.currBssParams.numOfRates = 2) ∧ s.record ≠ roamState.record := by
  refine ⟨by decide, fun h => ?_⟩
  have hrates := congrArg Record.numOfRates h
  revert hrates
  decide

end WlanDriver.Join
