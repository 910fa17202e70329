import WlanDriver.Ht.AssocTlvs
import WlanDriver.Join.CommonRates
import WlanDriver.Join.RsnElement

/-!
# The association command

`wlan_cmd_802_11_associate` writes an association command : behind its fixed part one record after the other, each where the
pointer is, without a look at how much of the buffer is left. Which records there are depends on the security that is
configured, on the elements of the access point, and on what the firmware can do.

The buffer holds anything when the function begins. Addresses count from the command's header on. A descriptor's pointer to an
element is the memory from the element on : its id, its length, its octets, and what is behind them. What the functions give
that are called here and do not write records of their own is `Calls`.
-/

namespace WlanDriver.Join.Assoc

open Tlv Ht Ethernet

/-! ## State -/

/-- `MLAN_AUTH_MODE_FT`, `MLAN_AUTH_MODE_SAE`, `MLAN_AUTH_MODE_OWE`, `MLAN_AUTH_MODE_NETWORKEAP`, `MLAN_AUTH_MODE_AUTO`. -/
def authModeFt : ℕ := 2
def authModeSae : ℕ := 3
def authModeOwe : ℕ := 4
def authModeNetworkeap : ℕ := 0x80
def authModeAuto : ℕ := 0xFF

/-- `AssocAgentAuth_FastBss_Skip`. -/
def authFastBssSkip : ℕ := 3

/-- `user_he_cap` and `user_hecap_len`, or those of 2.4 GHz : no record, or a header and up to 50 octets. -/
structure HeTlv where
  octets : List UInt8
  len : ℕ
  length_octets : octets.length = 54
  len_le : len ≤ 54
  len_ge : len = 0 ∨ 4 ≤ len

inductive CountryId
  | us
  | eu
  | jp
  | cn

/-- `oper_class_us` and the others. -/
def CountryId.operClass : CountryId → List UInt8
  | us => [115, 118, 124, 121, 125, 81, 116, 119, 122, 126, 126, 117, 120, 123, 127, 127, 83, 84, 128, 129, 130]
  | eu => [115, 118, 121, 81, 116, 119, 122, 117, 120, 123, 83, 84, 125, 128, 129, 130]
  | jp => [115, 81, 82, 118, 118, 121, 121, 116, 119, 119, 122, 122, 117, 120, 120, 123, 123, 83, 84, 121, 128, 129, 130]
  | cn => [115, 118, 125, 116, 119, 126, 81, 83, 84, 128, 129, 130]

/-- `mlan_adapter`. -/
structure Adapter extends Ht.Adapter where
  /-- `hw_he_cap` and `hw_2g_he_cap`. -/
  hwHe5g : ℕ → UInt8
  hwHe2g : ℕ → UInt8
  countryId : CountryId
  /-- `min_tx_power_capability` and `max_tx_power_capability`. -/
  minTxPower : UInt8
  maxTxPower : UInt8

/-- `mlan_private`. -/
structure Private extends Ht.Private where
  /-- `data_rate`, if it is not chosen by the firmware. -/
  fixedRate : Option ℕ
  /-- The rates of the card. -/
  supportedRates : List UInt8
  /-- `authentication_mode`. -/
  authMode : ℕ
  /-- `wep_status` is `Wlan802_11WEPEnabled`. -/
  wepEnabled : Bool
  wpaEnabled : Bool
  wpa2Enabled : Bool
  ewpaEnabled : Bool
  wapiEnabled : Bool
  osenEnabled : Bool
  /-- `wps.session_enable`. -/
  wpsSession : Bool
  wpaIe : Mem
  pmfcfg : PmfCfg
  hotspotCfg : BitVec 32
  he5g : HeTlv
  he2g : HeTlv
  wmmRequired : Bool
  wmmQosinfo : UInt8
  /-- `wapi_ie_len` octets of `wapi_ie`. -/
  wapiIe : List UInt8
  osenIe : Mem
  osenIeLen : UInt8
  /-- `gen_ie_buf_len` octets of `gen_ie_buf`. -/
  genIe : List UInt8
  hostMlme : Bool
  prevBssid : Mac
  multiApFlag : UInt8
  mediaConnected : Bool
  /-- The lengths have 8 bits. -/
  length_wapiIe : wapiIe.length < 256
  length_genIe : genIe.length < 256

/-- `BSSDescriptor_t`. -/
structure BssDesc extends Ht.BssDesc where
  ssid : List UInt8
  /-- `ds_param_set.current_chan`. -/
  currentChan : UInt8
  supportedRates : RatesArray
  /-- `owe_transition_mode` is `OWE_TRANS_MODE_OWE`. -/
  oweTransition : Bool
  disable11n : Bool
  pwpaIe : Option Mem
  prsnIe : Option Mem
  prsnxIe : Option Mem
  pmdIe : Option Mem
  /-- `rx_mcs_map` of `pvht_cap`. -/
  vhtRxMcsMap : BitVec 16
  /-- `element_id` and `qos_uapsd` of `wmm_ie`. -/
  wmmId : UInt8
  wmmUapsd : Bool
  networkTsf : BitVec 64
  timeStamp : List UInt8
  /-- `sensed_11h` and `local_constraint`. -/
  sensed11h : Bool
  localConstraint : UInt8
  /-- The scan refuses a longer one. -/
  length_ssid : ssid.length ≤ 32
  length_timeStamp : timeStamp.length = 8

/-- What the functions give that are called. -/
structure Calls where
  /-- `wlan_find_ie` of `REGULATORY_CLASS` in the generic elements. -/
  findIe : Bool
  /-- `wlan_get_curr_oper_class`. -/
  currOperClass : Option UInt8
  /-- What `wlan_fill_vht_cap_tlv` makes of the access point's capabilities. -/
  vhtCap : List UInt8
  operMode : UInt8
  /-- `wlan_11d_create_dnld_countryinfo` and `wlan_11d_parse_dnld_countryinfo` succeed. -/
  createDnld : Bool
  parseDnld : Bool
  /-- `wlan_fw_11d_is_enabled`. -/
  fw11dIsEnabled : Bool
  /-- `wlan_11d_enable` succeeds. -/
  enable11d : Bool
  /-- The subbands of `wlan_11h_set_supp_channels_ie`. -/
  subbands : List (UInt8 × UInt8)
  /-- `VHT_capa_t`. -/
  length_vhtCap : vhtCap.length = 12
  /-- `WLAN_11H_MAX_SUBBANDS`. -/
  length_subbands : subbands.length ≤ 6

/-- Everything that the command is built from. -/
structure Setting where
  adapter : Adapter
  priv : Private
  bss : BssDesc
  calls : Calls

/-- The command : the buffer, and `size`. -/
structure Command where
  mem : Mem
  size : ℕ

/-- Where `params.associate` is, `S_DS_GEN`. -/
def sDsGen : ℕ := 8

/-- Where the records begin : behind the address, the capabilities, the listen interval, the beacon period and the DTIM period. -/
def tlvStart : ℕ :=
  sDsGen + 6 + 2 + 2 + 2 + 1

/-- `MRVDRV_SIZE_OF_CMD_BUFFER`. -/
def sizeOfCmdBuffer : ℕ := 3 * 1024

/-! ## The first records -/

namespace Setting

variable (e : Setting) (w : TlvWriter)

/-- `pssid_tlv`, `pphy_tlv`, and `pss_tlv`, whose value is not written. -/
def putBss : TlvWriter :=
  let w := w.putTlv 0x0000 e.bss.ssid
  let w := w.putTlv 0x0003 [e.bss.currentChan]
  w.put 0x0004 6 [] (4 + 6)

/-- `prates_tlv`. -/
def putRates (rates : RatesSetup) : TlvWriter :=
  w.putTlv 0x0001 (rates.outRates.take rates.outRatesSize)

/-- `pauth_tlv`, its type if it is there. -/
def authType : Option ℕ :=
  if e.priv.authMode ≠ authModeAuto ∨ e.bss.oweTransition then
    some <|
      if e.priv.wepEnabled ∨ e.priv.authMode = authModeNetworkeap then e.priv.authMode % 2 ^ 16
      else if e.priv.authMode = authModeFt then authFastBssSkip
      else if e.priv.authMode = authModeSae then authWpa3Sae
      else if ¬e.priv.hostMlme ∧ (e.bss.oweTransition ∨ e.priv.authMode = authModeOwe) then authOwe
      else authOpen
  else none

/-- `SAE_H2E_BIT` of the first octet of the access point's RSNX element. -/
def saeH2e : Option UInt8 :=
  e.bss.prsnxIe.bind fun x => if x 1 ≠ 0 ∧ x 2 &&& 0x20 ≠ 0 then some (x 2) else none

/-- The channel of the access point is told in a record of its own. -/
def TellsChannel : Prop :=
  e.adapter.fwCapInfo &&& 0x3f00 ≠ 0 ∧ e.bss.bssBand &&& e.priv.configBands ≠ 0 ∧
    ¬(e.adapter.fwCapInfo.getLsbD 11 ∧ ¬e.bss.disable11n ∧
      (e.priv.configBands.getLsbD 3 ∨ e.priv.configBands.getLsbD 4) ∧ e.bss.phtCap.isSome)
  deriving Decidable

def chanScanParam : ChanScanParam :=
  ⟨bandToRadioType e.bss.bssBand, 0, 0, 0, e.bss.currentChan.toNat⟩

/-- `pauth_tlv`, `psae_pwe_mode_tlv` and `pchan_tlv`. -/
def putAuth : TlvWriter :=
  let w := e.authType.elim w fun type => w.putTlv 0x011f (le16 type)
  let w := if e.authType = some authWpa3Sae then e.saeH2e.elim w fun pwe => w.putTlv 0x0253 [pwe] else w
  if e.TellsChannel then w.putTlv 0x0101 e.chanScanParam.octets else w

/-! ## Security -/

/-- An element as a record : its id, its length, and its octets. -/
def putIe (w : TlvWriter) (ie : Mem) : TlvWriter :=
  w.putTlv (UInt16.ofNat (ie 0).toNat) (ie.read 2 (Rsn.len ie))

def useMfp : Bool :=
  (Rsn.useMfp e.priv.wpaIe e.bss.prsnIe).1

/-- The branch of `wpa_ie` and `psecurity_cfg_ie` : nothing if the element is too long for its array. -/
def putWpaIe : Option TlvWriter :=
  if Rsn.len e.priv.wpaIe ≤ 256 - 2 then
    some ((putIe w e.priv.wpaIe).putTlv 0x013a [if e.useMfp then 1 else 0])
  else none

theorem rsnLen_le (ap : Mem) : Rsn.len ap ≤ 256 :=
  Nat.le_of_lt (ap 1).toNat_lt

/-- The copy of the access point's RSN element : behind it is what the buffer has. -/
def rsnCopy (ap : Mem) : RsnCopy :=
  ⟨fun a => w.mem.write (w.pos + 4) (ap.read 2 (Rsn.len ap)) (w.pos + 2 + a), Rsn.len ap, rsnLen_le ap⟩

/-- `akm_type` in front of `wlan_update_rsn_ie`. -/
def akmTypeBefore : ℕ :=
  (e.authType.getD authAuto) % 2 ^ 8

/-- The access point's RSN element, as `wlan_update_rsn_ie` leaves it, and `akm_type`. -/
def putApRsnIe (ap : Mem) : Option (TlvWriter × ℕ) :=
  let u := (rsnCopy w ap).updateRsnIe e.priv.pmfcfg e.akmTypeBefore
  if u.ok then
    let len := u.len % 2 ^ 16
    let header := w.mem.write w.pos (le16 (UInt16.ofNat (ap 0).toNat).toNat ++ le16 len)
    some (⟨fun x => if w.pos + 4 ≤ x then u.mem (x - (w.pos + 2)) else header x, w.pos + (4 + len)⟩, u.akmType)
  else none

/-- `pauth_tlv`, if there is none yet. -/
def putLateAuth (akmType : ℕ) : TlvWriter :=
  if e.authType = none ∧ e.priv.authMode = authModeAuto then w.putTlv 0x011f (le16 akmType) else w

/-- `prsnx_ie_tlv`. -/
def putApRsnxIe (akmType : ℕ) : TlvWriter :=
  if akmType = authWpa3Sae then e.bss.prsnxIe.elim w (putIe w) else w

/-- The branch of the access point's elements. -/
def putApIes : Option TlvWriter :=
  let w := e.bss.pwpaIe.elim w (putIe w)
  match e.bss.prsnIe with
  | none => some (e.putApRsnxIe w 0)
  | some ap => (e.putApRsnIe w ap).map fun s => e.putApRsnxIe (e.putLateAuth s.1 s.2) s.2

/-- The records of the security. -/
def putSecurity : Option TlvWriter :=
  if e.priv.wpsSession then some w
  else if e.priv.wpaEnabled ∨ e.priv.wpa2Enabled then e.putWpaIe w
  else if e.priv.ewpaEnabled ∨ e.bss.oweTransition ∨ e.priv.authMode = authModeOwe then e.putApIes w
  else some w

/-- `ft_akm` : it is looked for in the branch of `wpa_ie` only. -/
def ftAkm : Bool :=
  !e.priv.wpsSession && (e.priv.wpaEnabled || e.priv.wpa2Enabled) && (Rsn.ftAkmIsUsed e.priv.wpaIe).1

/-! ## Capabilities -/

/-- `wlan_11n_bandconfig_allowed`. -/
def bandconfigAllowed11n : Bool :=
  if e.bss.bssBand.getLsbD 1 then e.priv.configBands.getLsbD 3
  else if e.bss.bssBand.getLsbD 2 then e.priv.configBands.getLsbD 4 else false

/-- `wlan_11ax_bandconfig_allowed`. -/
def bandconfigAllowed11ax : Bool :=
  if e.bss.disable11n then false
  else if e.bss.bssBand.getLsbD 1 then e.priv.configBands.getLsbD 8
  else if e.bss.bssBand.getLsbD 2 then e.priv.configBands.getLsbD 9 else false

/-- The command has the records of 802.11n. -/
def Has11n : Prop :=
  e.adapter.fwCapInfo.getLsbD 11 ∧ ¬e.bss.disable11n ∧ e.bandconfigAllowed11n
  deriving Decidable

/-- `HOTSPOT_ENABLED` and not `HOTSPOT_BY_SUPPLICANT`. -/
def Hotspot : Prop :=
  e.priv.hotspotCfg.getLsbD 0 ∧ ¬e.priv.hotspotCfg.getLsbD 1
  deriving Decidable

/-- `wlan_cmd_append_11n_tlv`. -/
def append11n : Appended :=
  cmdAppend11nTlv e.adapter.toAdapter e.priv.toPrivate true (some e.bss.toBssDesc)

def addExtCapaInfoIe : TlvWriter :=
  w.putTlv 127 (leOctets (addExtCapaInfo e.adapter.toAdapter e.priv.toPrivate e.bss.toBssDesc) 11)

/-- The records of 802.11n, or the extended capabilities for a hotspot. -/
def put11n : TlvWriter :=
  if e.Has11n then ⟨w.mem.write w.pos e.append11n.written, w.pos + e.append11n.advance⟩
  else if e.Hotspot then e.addExtCapaInfoIe w else w

/-- The current operating class, if the supported ones are to be told. -/
def tellsOperClass : Option UInt8 :=
  if e.adapter.ecsaEnable ∧ ¬e.calls.findIe then e.calls.currOperClass else none

/-- `wlan_add_supported_oper_class_ie`. -/
def putOperClass : TlvWriter :=
  e.tellsOperClass.elim w fun c => w.putTlv 59 (c :: e.adapter.countryId.operClass)

/-- `wlan_get_nss_vht_mcs` is not 0. -/
def vhtStreams : Bool :=
  (List.range 8).any fun i => e.bss.vhtRxMcsMap.toNat / 4 ^ i % 4 ≠ 3

/-- The command has the records of 802.11ac. -/
def Has11ac : Prop :=
  (e.adapter.fwCapInfo.getLsbD 12 ∨ e.adapter.fwCapInfo.getLsbD 13) ∧ ¬e.bss.disable11n ∧
    bandconfigAllowed11ac e.priv.toPrivate e.bss.bssBand ∧ e.bss.pvhtCap.isSome ∧ e.vhtStreams
  deriving Decidable

/-- `wlan_cmd_append_11ac_tlv`. -/
def put11ac : TlvWriter :=
  if e.Has11ac then (w.putTlv 191 e.calls.vhtCap).putTlv 199 [e.calls.operMode] else w

/-- The HE capabilities of the user for the band. -/
def heTlv : HeTlv :=
  if e.bss.isBandA then e.priv.he5g else e.priv.he2g

/-- The HE capabilities of the hardware for the band. -/
def hwHe : ℕ → UInt8 :=
  if e.bss.isBandA then e.adapter.hwHe5g else e.adapter.hwHe2g

/-- `bw_80p80`. What `wlan_cmd_append_11n_tlv` changes is not asked for here. -/
def bw80p80 : Bool :=
  is8080Support e.adapter.toAdapter e.priv.toPrivate e.bss.toBssDesc

/-- `rx_nss` and `tx_nss`. -/
def nssLimit (shift : ℕ) : ℕ :=
  if e.adapter.is9098 then
    if e.bw80p80 then 1
    else (if e.bss.isBandA then e.adapter.userHtstream.toNat / 256 else e.adapter.userHtstream.toNat) / shift % 16
  else 0

/-- `SET_HE_NSSMCS` for the four numbers of streams of an octet, the first of which is `first` : bits are set, none is reset. -/
def heMcs (limit first : ℕ) (hw b : UInt8) : UInt8 :=
  (List.range 4).foldl (fun b k =>
    let cfgValue := if limit ≠ 0 ∧ limit < first + k then 3 else b.toNat / 4 ^ k % 4
    let hwValue := hw.toNat / 4 ^ k % 4
    b ||| UInt8.ofNat ((if hwValue = 3 ∨ cfgValue = 3 then 3 else min cfgValue hwValue) * 4 ^ k)) b

/-- An octet of the record is adapted to the hardware : `rx_mcs_80`, `tx_mcs_80` and `he_phy_cap[0]`. -/
def heOctet (i : ℕ) (b : UInt8) : UInt8 :=
  if i = 22 then heMcs (e.nssLimit 1) 1 (e.hwHe 22) b
  else if i = 23 then heMcs (e.nssLimit 1) 5 (e.hwHe 23) b
  else if i = 24 then heMcs (e.nssLimit 16) 1 (e.hwHe 24) b
  else if i = 25 then heMcs (e.nssLimit 16) 5 (e.hwHe 25) b
  else if i = 11 ∧ ¬e.bw80p80 then b &&& 0xe7
  else b

/-- The command has the HE capabilities. -/
def Has11ax : Prop :=
  e.adapter.fwCapExt.getLsbD 7 ∧ e.bandconfigAllowed11ax ∧ e.bss.pheCap.isSome
  deriving Decidable

/-- `wlan_cmd_append_11ax_tlv` : the record is copied with its header, and adapted where it stands, also behind its end. -/
def put11ax : TlvWriter :=
  if e.Has11ax then
    let m := w.mem.write w.pos (e.heTlv.octets.take e.heTlv.len)
    ⟨fun x => if w.pos ≤ x then e.heOctet (x - w.pos) (m x) else m x, w.pos + e.heTlv.len⟩
  else w

/-! ## Elements of the user -/

def wmmProcessAssociationReq : TlvWriter :=
  if e.priv.wmmRequired ∧ e.bss.wmmId = 221 then
    w.putTlv 221 [0x00, 0x50, 0xf2, 0x02, 0x00, 0x01, if e.bss.wmmUapsd then e.priv.wmmQosinfo else 0]
  else w

def cmdAppendWapiIe : TlvWriter :=
  if e.priv.wapiIe.length ≠ 0 then w.putTlv 0x015e e.priv.wapiIe else w

def cmdAppendOsenIe : TlvWriter :=
  if e.priv.osenIeLen ≠ 0 then w.putTlv 0x00dd (e.priv.osenIe.read 2 (Rsn.len e.priv.osenIe)) else w

def cmdAppendGenericIe : TlvWriter :=
  if e.priv.genIe.length ≠ 0 then w.putTlv 0x010a e.priv.genIe else w

/-- `wlan_cmd_append_pass_through_ie` : an element with its header. -/
def cmdAppendPassThroughIe (ie : Mem) : TlvWriter :=
  if Rsn.len ie ≠ 0 then w.putTlv 0x010a (ie.read 0 (Rsn.size ie)) else w

def cmdAppendTsfTlv : TlvWriter :=
  w.putTlv 0x0113 (leOctets e.bss.networkTsf 8 ++ e.bss.timeStamp)

/-- The elements, and the time. -/
def putElements : TlvWriter :=
  let w := e.wmmProcessAssociationReq w
  let w := if e.priv.wapiEnabled ∧ e.priv.wapiIe.length ≠ 0 then e.cmdAppendWapiIe w else w
  let w := if e.priv.osenEnabled ∧ e.priv.osenIeLen ≠ 0 then e.cmdAppendOsenIe w else w
  let w := e.cmdAppendGenericIe w
  let w := if e.ftAkm then e.bss.pmdIe.elim w (cmdAppendPassThroughIe w) else w
  e.cmdAppendTsfTlv w

/-- `host_mlme_tlv`, `prev_bssid_tlv` and `multi_ap_tlv`. -/
def putFlags : TlvWriter :=
  let w := if e.priv.hostMlme then w.putTlv 0x0233 [1] else w
  let w := if e.priv.prevBssid.octets ≠ [0, 0, 0, 0, 0, 0] then w.putTlv 0x024a e.priv.prevBssid.octets else w
  if e.priv.multiApFlag ≠ 0 then w.putTlv 0x0246 [e.priv.multiApFlag] else w

/-! ## 802.11h -/

/-- The supported channels, with the header of the element. -/
def suppChannelsIe : List UInt8 :=
  36 :: UInt8.ofNat (2 * e.calls.subbands.length) :: e.calls.subbands.flatMap fun s => [s.1, s.2]

/-- `wlan_11h_process_infra_join`. -/
def processInfraJoin : TlvWriter :=
  let w := w.putTlv 0x0021 [e.adapter.minTxPower, e.adapter.maxTxPower]
  let w := w.putTlv 0x0020 [e.bss.currentChan, e.bss.localConstraint]
  if e.calls.subbands ≠ [] then w.putTlv 0x010a e.suppChannelsIe else w

/-- `wlan_11h_process_join`. -/
def processJoin11h : TlvWriter :=
  if e.priv.mediaConnected then w
  else if e.bss.sensed11h then
    if ¬e.calls.fw11dIsEnabled ∧ ¬e.calls.enable11d then w else e.processInfraJoin w
  else w

/-! ## The whole command -/

/-- The records behind the security. -/
def putRest : TlvWriter :=
  let w := e.put11ac (e.putOperClass (e.put11n w))
  let w := e.put11ax w
  e.putFlags (e.putElements w)

/-- `wlan_cmd_802_11_associate` : a command, or none. Where `wlan_setup_rates_from_bssdesc` leaves its arrays there is none. -/
def cmdAssociate (m : Mem) : Option Command :=
  let w := e.putBss ⟨m, tlvStart⟩
  match setupRates e.priv.fixedRate e.priv.supportedRates e.bss.supportedRates with
  | none => none
  | some rates =>
    if rates.ok = false then none
    else
      match e.putSecurity (e.putAuth (putRates w rates)) with
      | none => none
      | some w =>
        let w := e.putRest w
        if e.calls.createDnld = false ∨ e.calls.parseDnld = false then none
        else
          let w := e.processJoin11h w
          some ⟨w.mem, ((w.pos - sDsGen) % 2 ^ 16 + sDsGen) % 2 ^ 16⟩

end Setting

end WlanDriver.Join.Assoc
