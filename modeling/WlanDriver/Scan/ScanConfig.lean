import WlanDriver.Scan.ChannelCommands

/-!
# The records of a scan configuration

`wlan_scan_setup_scan_config` puts the records in front of the channel list into `tlv_buf`, one helper after the other, and
`wlan_scan_channel_list` adds the channels and the capabilities. `written` are the records that the octets are read as, and
`requested` those that the configuration asks for; `writtenFilters_eq_iff` says when the filters among them are the same.
-/

namespace WlanDriver.Scan

open Tlv TlvWriter
open List hiding Vector

/-! ## The configuration -/

/-- `wlan_user_scan_ssid`. -/
structure UserScanSsid where
  ssid : Vector UInt8 33
  maxLen : UInt8

namespace UserScanSsid

variable (e : UserScanSsid)

/-- The entry as it is stored. -/
def octets : List UInt8 :=
  e.ssid.toList ++ [e.maxLen]

/-- The entry is one of the list, and not behind its end. -/
def Used : Prop :=
  e.ssid[0] ≠ 0 ∨ e.maxLen ≠ 0
  deriving Decidable

@[simp] theorem length_octets : e.octets.length = 34 := by
  simp [octets]

end UserScanSsid

/-- What is read of `wlan_user_scan_cfg`. `behindSsids` are the octets behind `ssid_list` up to some NUL, which is not too far
away; `bssidList` is the memory at `bssid_list`. -/
structure UserScanCfg where
  bssMode : UInt8
  numProbes : UInt8
  specificBssid : Vector UInt8 6
  ssidList : Vector UserScanSsid 10
  behindSsids : List UInt8
  behindSsids_lt : behindSsids.length < 65000
  scanChanGap : UInt16
  extScanType : UInt8
  proberespOnly : UInt8
  randomMac : Vector UInt8 6
  bssidNum : UInt8
  bssidList : Mem

/-- A HE capability record, as long as its length in the private data says. -/
structure HeCap where
  octets : List UInt8
  length_octets : octets = [] ∨ 4 ≤ octets.length ∧ octets.length ≤ 54

/-- The settings of the adapter and of the interface. `extCap` are the extended capabilities with the bits that are set for
a scan, if they are supported; `htCap`, `vhtCap` and the HE records are what is filled in for the configured bands. -/
structure ScanSettings where
  scanMode : UInt8
  scanProbes : UInt16
  scanChanGap : UInt16
  extScan : UInt8
  extScanEnh : Bool
  extScanType : UInt8
  infra : Bool
  wifiDirect : Bool
  configBands : UInt16
  extCap : Option (Vector UInt8 11)
  ecsaEnable : Bool
  operClass : UInt8
  countryCode : UInt8 × UInt8
  etsi : Bool
  wpsIe : List UInt8
  length_wpsIe : wpsIe.length < 256
  regionCode : ℕ
  fw11n : Bool
  fw11ac : Bool
  fw11ax : Bool
  htCap : Vector UInt8 26
  vhtCap : Vector UInt8 12
  heCap : HeCap
  heCap2g : HeCap

/-- `MLAN_MAC_ADDR_LENGTH` octets of nothing. -/
def zeroMac : Vector UInt8 6 :=
  Vector.replicate 6 0

def extScanEnhance : UInt8 := 1

def extScanDefault : UInt8 := 0

def extScanTypeEnh : UInt8 := 2

/-! ### The types of the records -/

def tlvTypeNumprobes : UInt16 := 0x102
def tlvTypeWildcardssid : UInt16 := 0x112
def tlvTypeBssid : UInt16 := 0x123
def tlvTypeScanChannelGap : UInt16 := 0x1c5
def tlvTypeBssMode : UInt16 := 0x1ce
def tlvTypeOnlyproberesp : UInt16 := 0x1e9
def tlvTypeRandomMac : UInt16 := 0x1ec
def htCapability : UInt16 := 45
def regulatoryClass : UInt16 := 59
def extCapability : UInt16 := 127
def vhtCapability : UInt16 := 191
def vendorSpecific221 : UInt16 := 221

/-! ### Rates and operating classes -/

def supportedRatesA : List UInt8 := [0x0c, 0x12, 0x18, 0x24, 0xb0, 0x48, 0x60, 0x6c]

def supportedRatesG : List UInt8 := [0x0c, 0x12, 0x18, 0x24, 0x30, 0x48, 0x60, 0x6c]

def supportedRatesBG : List UInt8 := [0x02, 0x04, 0x0b, 0x0c, 0x12, 0x16, 0x18, 0x24, 0x30, 0x48, 0x60, 0x6c]

def convertConfigBands (bands : UInt16) : UInt16 :=
  (if bands &&& 1 ≠ 0 then 1 else 0) |||
    ((if bands &&& 2 ≠ 0 ∨ bands &&& 8 ≠ 0 ∨ bands &&& 32 ≠ 0 ∨ bands &&& 256 ≠ 0 then 2 else 0) |||
      if bands &&& 4 ≠ 0 ∨ bands &&& 16 ≠ 0 ∨ bands &&& 64 ≠ 0 ∨ bands &&& 512 ≠ 0 then 4 else 0)

def getSupportedRates (infra wifiDirect : Bool) (configBands : UInt16) : List UInt8 :=
  let bands := convertConfigBands configBands
  if infra then
    if bands = 1 then supportedRatesB
    else if bands = 2 then supportedRatesG
    else if bands &&& 3 ≠ 0 then if wifiDirect then supportedRatesG else supportedRatesBG
    else if bands &&& 4 ≠ 0 then supportedRatesA
    else []
  else []

def operClassUs : List UInt8 :=
  [115, 118, 124, 121, 125, 81, 116, 119, 122, 126, 126, 117, 120, 123, 127, 127, 83, 84, 128, 129, 130]

def operClassEu : List UInt8 :=
  [115, 118, 121, 81, 116, 119, 122, 117, 120, 123, 83, 84, 125, 128, 129, 130]

def operClassJp : List UInt8 :=
  [115, 81, 82, 118, 118, 121, 121, 116, 119, 119, 122, 122, 117, 120, 120, 123, 123, 83, 84, 121, 128, 129, 130]

def operClassCn : List UInt8 :=
  [115, 118, 125, 116, 119, 126, 81, 83, 84, 128, 129, 130]

namespace ScanSettings

variable (a : ScanSettings)

/-- The operating classes of the country. -/
def operClasses : List UInt8 :=
  if a.etsi then operClassEu
  else if a.countryCode = (0x55, 0x53) then operClassUs
  else if a.countryCode = (0x4a, 0x50) then operClassJp
  else if a.countryCode = (0x43, 0x4e) then operClassCn
  else operClassUs

end ScanSettings

/-! ## What is written -/

/-- `wlan_strlen`, on the octets up to some NUL. -/
def strlen (bs : List UInt8) : ℕ :=
  (bs.takeWhile (· ≠ 0)).length

/-- The filter for BSSIDs. -/
def addBssids (a : ScanSettings) (cfg : UserScanCfg) (w : TlvWriter) : TlvWriter :=
  if a.extScan ≠ 0 then
    if cfg.bssidNum ≠ 0 then
      w.put tlvTypeBssid (6 * cfg.bssidNum.toNat) (cfg.bssidList.read 0 (6 * cfg.bssidNum.toNat))
        (4 + 6 * cfg.bssidNum.toNat)
    else if cfg.specificBssid ≠ zeroMac then w.putTlv tlvTypeBssid cfg.specificBssid.toList
    else w
  else w

/-- The SSIDs of the list; `behind` is what lies behind it. -/
def addSsids (behind : List UInt8) : List UserScanSsid → TlvWriter → TlvWriter
  | [], w => w
  | e :: rest, w =>
    if e.Used then
      let ssidLen := strlen (e.octets ++ (rest.flatMap UserScanSsid.octets ++ behind))
      addSsids behind rest
        (w.put tlvTypeWildcardssid ((ssidLen + 1) % 65536) (e.maxLen :: e.ssid.toList.take (min ssidLen 32))
          (4 + (ssidLen + 1) % 65536))
    else w

/-- The gap between channels. -/
def addScanChanGap (a : ScanSettings) (cfg : Option UserScanCfg) (w : TlvWriter) : TlvWriter :=
  let gap := cfg.elim a.scanChanGap UserScanCfg.scanChanGap
  if gap ≠ 0 then w.putTlv tlvTypeScanChannelGap (le16 gap.toNat) else w

/-- The kind of BSS that is looked for. -/
def bssMode (a : ScanSettings) (cfg : Option UserScanCfg) : UInt8 :=
  match cfg with
  | some cfg => if cfg.bssMode ≠ 0 then cfg.bssMode else a.scanMode
  | none => a.scanMode

/-- The number of probe requests. -/
def numProbes (a : ScanSettings) (cfg : Option UserScanCfg) : UInt16 :=
  match cfg with
  | some cfg => if cfg.numProbes ≠ 0 then cfg.numProbes.toUInt16 else a.scanProbes
  | none => a.scanProbes

def addBssMode (a : ScanSettings) (cfg : Option UserScanCfg) (w : TlvWriter) : TlvWriter :=
  if a.extScan ≠ 0 then w.putTlv tlvTypeBssMode [bssMode a cfg] else w

def addNumProbes (a : ScanSettings) (cfg : Option UserScanCfg) (w : TlvWriter) : TlvWriter :=
  if numProbes a cfg ≠ 0 then w.putTlv tlvTypeNumprobes (le16 (numProbes a cfg).toNat) else w

/-- The rates that are supported. -/
def ScanSettings.rates (a : ScanSettings) : List UInt8 :=
  getSupportedRates a.infra a.wifiDirect a.configBands

def addRates (a : ScanSettings) (w : TlvWriter) : TlvWriter :=
  w.putTlv tlvTypeRates a.rates

def addExtCapaInfoIe (a : ScanSettings) (w : TlvWriter) : TlvWriter :=
  match a.extCap with
  | some cap => w.putTlv extCapability cap.toList
  | none => w

def addSupportedOperClassIe (a : ScanSettings) (w : TlvWriter) : TlvWriter :=
  if a.ecsaEnable then w.putTlv regulatoryClass (a.operClass :: a.operClasses) else w

def addWpsProbeRequestIe (a : ScanSettings) (w : TlvWriter) : TlvWriter :=
  if a.wpsIe.length ≠ 0 then w.put vendorSpecific221 a.wpsIe.length a.wpsIe (4 + (a.wpsIe.length + 4)) else w

def addOnlyProberesp (cfg : Option UserScanCfg) (w : TlvWriter) : TlvWriter :=
  match cfg with
  | some cfg => if cfg.proberespOnly ≠ 0 then w.putTlv tlvTypeOnlyproberesp [cfg.proberespOnly] else w
  | none => w

def addRandomMac (cfg : Option UserScanCfg) (w : TlvWriter) : TlvWriter :=
  match cfg with
  | some cfg => if cfg.randomMac ≠ zeroMac then w.putTlv tlvTypeRandomMac cfg.randomMac.toList else w
  | none => w

/-- The filters of a configuration. -/
def addFilters (a : ScanSettings) (cfg : Option UserScanCfg) (w : TlvWriter) : TlvWriter :=
  match cfg with
  | some cfg => addSsids cfg.behindSsids cfg.ssidList.toList (addBssids a cfg w)
  | none => w

/-- The records in front of the channel list, as `wlan_scan_setup_scan_config` writes them to `tlv_buf`. -/
def setupScanConfig (a : ScanSettings) (cfg : Option UserScanCfg) : TlvWriter :=
  let w := addRates a (addNumProbes a cfg (addBssMode a cfg (addScanChanGap a cfg (addFilters a cfg ⟨fun _ => 0, 0⟩))))
  addRandomMac cfg (addOnlyProberesp cfg (addWpsProbeRequestIe a (addSupportedOperClassIe a (addExtCapaInfoIe a w))))

/-- `*pfiltered_scan`. -/
def filteredScan (cfg : Option UserScanCfg) : Bool :=
  match cfg with
  | some cfg =>
    decide ((∃ e ∈ cfg.ssidList.toList.takeWhile fun e : UserScanSsid => decide e.Used, e.ssid[0] ≠ 0) ∨
      cfg.specificBssid ≠ zeroMac)
  | none => false

/-- `ext_scan_type` when the scan is set up. -/
def extScanTypeFor (a : ScanSettings) (cfg : Option UserScanCfg) : UInt8 :=
  if a.extScan ≠ 0 ∧ a.extScanEnh then
    match cfg with
    | some cfg => if cfg.extScanType = extScanEnhance then extScanEnhance else extScanDefault
    | none => if a.extScan = extScanTypeEnh then extScanEnhance else extScanDefault
  else a.extScanType

/-- `*pmax_chan_per_scan`. -/
def maxChanPerScanFor (a : ScanSettings) (cfg : Option UserScanCfg) : ℕ :=
  if a.extScan ≠ 0 ∧ a.extScanEnh ∧ extScanTypeFor a cfg = extScanEnhance then 38 else 4

/-! ### The capabilities behind the channels -/

namespace ScanSettings

variable (a : ScanSettings)

/-- The HE capabilities for a band, if they are sent. -/
def heCapFor (radioType : UInt8) : List UInt8 :=
  if a.fw11ax ∧ (a.configBands &&& 256 ≠ 0 ∨ a.configBands &&& 512 ≠ 0) then
    if radioType = band5Ghz then a.heCap.octets else a.heCap2g.octets
  else []

/-- The record of the HT capabilities, if it is sent. -/
def htRecord : List Tlv :=
  if a.fw11n ∧ (a.configBands &&& 8 ≠ 0 ∨ a.configBands &&& 16 ≠ 0) then [make htCapability a.htCap.toList] else []

/-- The record of the VHT capabilities, if it is sent. -/
def vhtRecord : List Tlv :=
  if a.fw11ac ∧ a.configBands &&& 64 ≠ 0 then [make vhtCapability a.vhtCap.toList] else []

/-- The octets behind the channels. -/
def caps (radioType : UInt8) : List UInt8 :=
  chain a.htRecord ++ (chain a.vhtRecord ++ a.heCapFor radioType)

/-- The call of `wlan_scan_channel_list`. -/
def splitSetup (cfg : Option UserScanCfg) (blocked : Band → UInt8 → Bool) : SplitSetup :=
  { blocked := blocked
    maxChanPerScan := maxChanPerScanFor a cfg
    filteredScan := filteredScan cfg
    regionCode := a.regionCode
    extScan := decide (a.extScan ≠ 0)
    extScanEnh := a.extScanEnh
    extScanEnhance := decide (extScanTypeFor a cfg = extScanEnhance)
    caps := a.caps
    alloc := fun _ => true
    prepare := fun _ => true }

end ScanSettings

/-! ## What is asked for -/

namespace UserScanSsid

/-- The SSID, up to its NUL and not longer than an SSID may be. -/
def name (e : UserScanSsid) : List UInt8 :=
  (e.ssid.toList.takeWhile (· ≠ 0)).take 32

end UserScanSsid

namespace UserScanCfg

/-- The entries of the list of SSIDs that are used, each with what lies behind it. -/
def usedSsids (behind : List UInt8) : List UserScanSsid → List (UserScanSsid × List UInt8)
  | [] => []
  | e :: rest => if e.Used then (e, rest.flatMap UserScanSsid.octets ++ behind) :: usedSsids behind rest else []

end UserScanCfg

/-- A record, if it is asked for. -/
def recordIf (c : Prop) [Decidable c] (type : UInt16) (value : List UInt8) : List Tlv :=
  if c then [make type value] else []

section Records

variable (a : ScanSettings) (cfg : Option UserScanCfg)

/-- The record of the BSSIDs, with as many of them as `num`. -/
def bssidRecord (cfg : UserScanCfg) (num : ℕ) : List Tlv :=
  if a.extScan ≠ 0 then
    if cfg.bssidNum ≠ 0 then [make tlvTypeBssid (cfg.bssidList.read 0 (6 * num))]
    else recordIf (cfg.specificBssid ≠ zeroMac) tlvTypeBssid cfg.specificBssid.toList
  else []

/-- The records of the BSSIDs and the SSIDs. -/
def requestedFilters : List Tlv :=
  match cfg with
  | some cfg =>
    bssidRecord a cfg (min cfg.bssidNum.toNat 5) ++
      (UserScanCfg.usedSsids cfg.behindSsids cfg.ssidList.toList).map fun e =>
        make tlvTypeWildcardssid (e.1.maxLen :: e.1.name)
  | none => []

/-- The records between the filters and the rates. -/
def beforeRates : List Tlv :=
  recordIf (cfg.elim a.scanChanGap UserScanCfg.scanChanGap ≠ 0) tlvTypeScanChannelGap
      (le16 (cfg.elim a.scanChanGap UserScanCfg.scanChanGap).toNat) ++
    (recordIf (a.extScan ≠ 0) tlvTypeBssMode [bssMode a cfg] ++
      recordIf (numProbes a cfg ≠ 0) tlvTypeNumprobes (le16 (numProbes a cfg).toNat))

/-- The record of the rates. -/
def ratesRecord : Tlv :=
  make tlvTypeRates a.rates

/-- The record of the extended capabilities. -/
def extCapRecord : List Tlv :=
  a.extCap.elim [] fun cap => [make extCapability cap.toList]

/-- The records for what only a user asks for. -/
def userRecords : List Tlv :=
  match cfg with
  | some cfg =>
    recordIf (cfg.proberespOnly ≠ 0) tlvTypeOnlyproberesp [cfg.proberespOnly] ++
      recordIf (cfg.randomMac ≠ zeroMac) tlvTypeRandomMac cfg.randomMac.toList
  | none => []

/-- The records behind the rates, with `wps` for the WPS element. -/
def behindRates (wps : List Tlv) : List Tlv :=
  extCapRecord a ++ (recordIf (a.ecsaEnable = true) regulatoryClass (a.operClass :: a.operClasses) ++
    (wps ++ userRecords cfg))

/-- The record of the WPS element. -/
def wpsRecord : List Tlv :=
  recordIf (a.wpsIe.length ≠ 0) vendorSpecific221 a.wpsIe

/-- The records in front of the channels. -/
def requested : List Tlv :=
  requestedFilters a cfg ++ (beforeRates a cfg ++ ratesRecord a :: behindRates a cfg (wpsRecord a))

/-- The records behind the channels. -/
def requestedCaps (radioType : UInt8) : List Tlv :=
  a.htRecord ++ (a.vhtRecord ++
    if a.heCapFor radioType = [] then [] else
      [make (UInt16.ofNat (get16 (a.heCapFor radioType))) ((a.heCapFor radioType).drop 4)])

/-! ## What the octets are read as -/

/-- The record of an SSID as it is written : with the length of all that is there up to a NUL. -/
def writtenSsid (e : UserScanSsid × List UInt8) : Tlv :=
  let ssidLen := strlen (e.1.octets ++ e.2)
  make tlvTypeWildcardssid (e.1.maxLen :: (e.1.ssid.toList.take (min ssidLen 32) ++ List.replicate (ssidLen - 32) 0))

/-- The records of the BSSIDs and the SSIDs as they are written. -/
def writtenFilters : List Tlv :=
  match cfg with
  | some cfg =>
    bssidRecord a cfg cfg.bssidNum.toNat ++
      (UserScanCfg.usedSsids cfg.behindSsids cfg.ssidList.toList).map writtenSsid
  | none => []

/-- The record of the WPS element, and the four octets that are skipped behind it. -/
def writtenWps : List Tlv :=
  if a.wpsIe.length ≠ 0 then [make vendorSpecific221 a.wpsIe, make 0 []] else []

/-- The records that are written. -/
def written : List Tlv :=
  writtenFilters a cfg ++ (beforeRates a cfg ++ ratesRecord a :: behindRates a cfg (writtenWps a))

end Records

section Written

variable {a : ScanSettings} {cfg : Option UserScanCfg} {w : TlvWriter} {ts : List Tlv} {c : Prop} [Decidable c]
  {value : List UInt8} {e : UserScanSsid} {behind : List UInt8}

/-- A record that is written if it is asked for. -/
theorem wrote_recordIf (h : w.Wrote ts) (c : Prop) [Decidable c] (type : UInt16) (value : List UInt8)
    (hlen : value.length < 65536) :
    (if c then w.putTlv type value else w).Wrote (ts ++ recordIf c type value) := by
  unfold recordIf
  split
  · exact h.putTlv type hlen
  · rwa [append_nil]

theorem strlen_le (bs : List UInt8) : strlen bs ≤ bs.length :=
  (takeWhile_sublist _).length_le

/-- The octets that are copied of an SSID. -/
theorem take_strlen_octets (e : UserScanSsid) (behind : List UInt8) :
    e.ssid.toList.take (min (strlen (e.octets ++ behind)) 32) = e.name := by
  have hlen : e.ssid.toList.length = 33 := by simp
  have hpre := prefix_iff_eq_take.mp (List.takeWhile_prefix (l := e.ssid.toList) (· ≠ 0))
  have hle := (takeWhile_sublist (l := e.ssid.toList) (· ≠ 0)).length_le
  unfold strlen UserScanSsid.name UserScanSsid.octets
  rw [append_assoc, takeWhile_append]
  split
  · next hall =>
    have hself : e.ssid.toList.takeWhile (· ≠ 0) = e.ssid.toList := List.IsPrefix.eq_of_length (List.takeWhile_prefix _) hall
    rw [hself, length_append, hlen, Nat.min_eq_right (by omega)]
  · next hsome =>
    rw [Nat.min_comm, ← take_take, ← hpre]

theorem length_name (e : UserScanSsid) : e.name.length ≤ 32 := by
  rw [UserScanSsid.name, length_take]
  omega

theorem length_flatMap_octets (l : List UserScanSsid) : (l.flatMap UserScanSsid.octets).length = 34 * l.length := by
  induction l with
  | nil => rfl
  | cons e l ih =>
    rw [flatMap_cons, length_append, e.length_octets, ih, length_cons]
    omega

theorem wrote_addSsids (behind : List UInt8) (hbehind : behind.length < 65000) :
    ∀ (es : List UserScanSsid) (w : TlvWriter) (ts : List Tlv), es.length ≤ 10 → w.Wrote ts →
      (addSsids behind es w).Wrote (ts ++ (UserScanCfg.usedSsids behind es).map writtenSsid)
  | [], w, ts, _, h => by rwa [UserScanCfg.usedSsids, map_nil, append_nil]
  | e :: rest, w, ts, hlen, h => by
    have hstr := strlen_le (e.octets ++ (rest.flatMap UserScanSsid.octets ++ behind))
    rw [length_cons] at hlen
    rw [length_append, length_append, e.length_octets, length_flatMap_octets] at hstr
    rw [addSsids, UserScanCfg.usedSsids]
    split
    · dsimp only
      have hcopied : (e.ssid.toList.take (min (strlen (e.octets ++ (rest.flatMap UserScanSsid.octets ++ behind))) 32)).length =
          min (strlen (e.octets ++ (rest.flatMap UserScanSsid.octets ++ behind))) 32 := by
        rw [length_take, Vector.length_toList]
        omega
      rw [Nat.mod_eq_of_lt (by omega), map_cons, append_cons]
      refine wrote_addSsids behind hbehind rest _ _ (by omega) ?_
      have hfits : (e.maxLen :: e.ssid.toList.take
          (min (strlen (e.octets ++ (rest.flatMap UserScanSsid.octets ++ behind))) 32)).length ≤
            strlen (e.octets ++ (rest.flatMap UserScanSsid.octets ++ behind)) + 1 := by
        rw [length_cons, hcopied]
        omega
      have hput := h.put tlvTypeWildcardssid hfits (by omega)
      rw [length_cons, hcopied, Nat.add_sub_add_right, cons_append] at hput
      rwa [show ∀ n, n - min n 32 = n - 32 by omega] at hput
    · rwa [map_nil, append_nil]

theorem length_rates (a : ScanSettings) : a.rates.length ≤ 12 ∧ (a.rates.length < 4 → a.rates = []) := by
  unfold ScanSettings.rates getSupportedRates
  dsimp only
  split_ifs <;> decide

theorem length_operClasses (a : ScanSettings) : a.operClasses.length ≤ 23 := by
  unfold ScanSettings.operClasses
  split_ifs <;> decide

theorem wrote_addBssids (h : w.Wrote ts) (cfg : UserScanCfg) :
    (addBssids a cfg w).Wrote (ts ++ bssidRecord a cfg cfg.bssidNum.toNat) := by
  have hnum := cfg.bssidNum.toNat_lt
  unfold addBssids bssidRecord
  split
  · split
    · have hread := Mem.length_read cfg.bssidList 0 (6 * cfg.bssidNum.toNat)
      have hput := h.putTlv tlvTypeBssid (hread.trans_lt (by omega))
      rwa [TlvWriter.putTlv, hread] at hput
    · exact wrote_recordIf h _ tlvTypeBssid _ (by simp)
  · rwa [append_nil]

theorem wrote_addFilters (h : w.Wrote ts) : (addFilters a cfg w).Wrote (ts ++ writtenFilters a cfg) := by
  cases cfg with
  | none => rwa [writtenFilters, append_nil]
  | some cfg =>
    have hssids := wrote_addSsids cfg.behindSsids cfg.behindSsids_lt cfg.ssidList.toList _ _ (by simp)
      (wrote_addBssids (a := a) h cfg)
    rwa [append_assoc] at hssids

theorem wrote_addExtCapaInfoIe (h : w.Wrote ts) : (addExtCapaInfoIe a w).Wrote (ts ++ extCapRecord a) := by
  unfold addExtCapaInfoIe extCapRecord
  cases a.extCap with
  | none => rwa [Option.elim_none, append_nil]
  | some cap => exact h.putTlv extCapability (by simp)

theorem wrote_addWpsProbeRequestIe (h : w.Wrote ts) : (addWpsProbeRequestIe a w).Wrote (ts ++ writtenWps a) := by
  have hlen := a.length_wpsIe
  unfold addWpsProbeRequestIe writtenWps
  split
  · have hskip := (h.putTlv vendorSpecific221 (show a.wpsIe.length < 65536 by omega)).skip
    rw [append_assoc] at hskip
    exact hskip
  · rwa [append_nil]

theorem wrote_userRecords (h : w.Wrote ts) :
    (addRandomMac cfg (addOnlyProberesp cfg w)).Wrote (ts ++ userRecords cfg) := by
  cases cfg with
  | none => rwa [userRecords, append_nil]
  | some cfg =>
    have honly := wrote_recordIf h (cfg.proberespOnly ≠ 0) tlvTypeOnlyproberesp [cfg.proberespOnly] (by simp)
    have hmac := wrote_recordIf honly (cfg.randomMac ≠ zeroMac) tlvTypeRandomMac cfg.randomMac.toList (by simp)
    rwa [append_assoc] at hmac

/-- What is written is read as these records. -/
theorem wrote_setupScanConfig (a : ScanSettings) (cfg : Option UserScanCfg) :
    (setupScanConfig a cfg).Wrote (written a cfg) := by
  have hfilters : (addFilters a cfg _).Wrote _ := wrote_addFilters wrote_nil
  have hgap := wrote_recordIf hfilters (cfg.elim a.scanChanGap UserScanCfg.scanChanGap ≠ 0) tlvTypeScanChannelGap
    (le16 (cfg.elim a.scanChanGap UserScanCfg.scanChanGap).toNat) (by rw [length_le16]; decide)
  have hmode := wrote_recordIf hgap (a.extScan ≠ 0) tlvTypeBssMode [bssMode a cfg]
    (by rw [length_singleton]; decide)
  have hprobes := wrote_recordIf hmode (numProbes a cfg ≠ 0) tlvTypeNumprobes (le16 (numProbes a cfg).toNat)
    (by rw [length_le16]; decide)
  have hrates := hprobes.putTlv tlvTypeRates ((length_rates a).1.trans_lt (by decide : 12 < 65536))
  have hcap := wrote_addExtCapaInfoIe (a := a) hrates
  have hclass := wrote_recordIf hcap (a.ecsaEnable = true) regulatoryClass (a.operClass :: a.operClasses)
    (by rw [length_cons]; exact Nat.lt_of_le_of_lt (Nat.succ_le_succ (length_operClasses a)) (by decide))
  have hall : (addRandomMac cfg (addOnlyProberesp cfg _)).Wrote _ :=
    wrote_userRecords (wrote_addWpsProbeRequestIe (a := a) hclass)
  simp only [nil_append, append_assoc, singleton_append] at hall
  unfold written beforeRates behindRates
  simp only [append_assoc]
  exact hall

/-! ## Where they agree -/

/-- The filters are asked for in a way that the code can write : not more BSSIDs than the list has, and a NUL in every
array of an SSID. -/
def FiltersFit (a : ScanSettings) (cfg : Option UserScanCfg) : Prop :=
  ∀ c ∈ cfg, (a.extScan ≠ 0 → c.bssidNum.toNat ≤ 5) ∧
    ∀ e ∈ c.ssidList.toList.takeWhile fun e : UserScanSsid => decide e.Used, 0 ∈ e.ssid.toList

theorem length_value_make {type : UInt16} (h : value.length < 65536) : (make type value).value.length = value.length := by
  rw [value_make type h]

theorem bssidRecord_eq_iff (a : ScanSettings) (cfg : UserScanCfg) :
    bssidRecord a cfg cfg.bssidNum.toNat = bssidRecord a cfg (min cfg.bssidNum.toNat 5) ↔
      (a.extScan ≠ 0 → cfg.bssidNum.toNat ≤ 5) := by
  have hnum := cfg.bssidNum.toNat_lt
  unfold bssidRecord
  by_cases hext : a.extScan ≠ 0
  · rw [if_pos hext, if_pos hext]
    by_cases hzero : cfg.bssidNum ≠ 0
    · rw [if_pos hzero, if_pos hzero]
      constructor
      · intro h _
        have hlen := congrArg (fun t => t.value.length) (singleton_inj.mp h)
        rw [length_value_make (by rw [Mem.length_read]; omega), length_value_make (by rw [Mem.length_read]; omega),
          Mem.length_read, Mem.length_read] at hlen
        omega
      · intro h
        rw [Nat.min_eq_left (h hext)]
    · have hnone : cfg.bssidNum = 0 := not_not.mp hzero
      rw [if_neg hzero, if_neg hzero, hnone]
      exact iff_of_true rfl fun _ => by decide
  · rw [if_neg hext, if_neg hext]
    exact iff_of_true rfl fun h => absurd h hext

/-- A NUL in the array ends the string there. -/
theorem strlen_octets_le_iff (e : UserScanSsid) (behind : List UInt8) :
    strlen (e.octets ++ behind) ≤ 32 ↔ 0 ∈ e.ssid.toList := by
  have hlen : e.ssid.toList.length = 33 := by simp
  unfold strlen UserScanSsid.octets
  rw [append_assoc, takeWhile_append]
  split
  · next hall =>
    have hself := List.IsPrefix.eq_of_length (List.takeWhile_prefix _) hall
    rw [length_append, hlen]
    refine iff_of_false (by omega) fun hzero => ?_
    have hne := takeWhile_eq_self_iff.mp hself 0 hzero
    simp at hne
  · next hsome =>
    refine iff_of_true ?_ ?_
    · have hle := (takeWhile_sublist (l := e.ssid.toList) fun x => decide (x ≠ 0)).length_le
      omega
    · by_contra hzero
      refine hsome (congrArg List.length (takeWhile_eq_self_iff.mpr fun x hx => ?_))
      exact decide_eq_true fun h => hzero (h ▸ hx)

theorem writtenSsid_eq_iff (e : UserScanSsid) (hbehind : behind.length < 65500) :
    writtenSsid (e, behind) = make tlvTypeWildcardssid (e.maxLen :: e.name) ↔ 0 ∈ e.ssid.toList := by
  have hstr := strlen_le (e.octets ++ behind)
  have hname := length_name e
  have hcopied := take_strlen_octets e behind
  rw [length_append, e.length_octets] at hstr
  rw [← strlen_octets_le_iff e behind, writtenSsid]
  dsimp only
  constructor
  · intro h
    have hlen := congrArg (fun t => t.value.length) h
    rw [hcopied, length_value_make (by simp; omega), length_value_make (by simp; omega), length_cons,
      length_cons, length_append, length_replicate] at hlen
    omega
  · intro h
    rw [hcopied, Nat.sub_eq_zero_of_le h, replicate_zero, append_nil]

theorem usedSsids_eq (behind : List UInt8) (es : List UserScanSsid) :
    (UserScanCfg.usedSsids behind es).map Prod.fst = es.takeWhile fun e : UserScanSsid => decide e.Used := by
  induction es with
  | nil => rfl
  | cons e rest ih =>
    rw [UserScanCfg.usedSsids]
    split
    · next h => rw [map_cons, ih, takeWhile_cons_of_pos (by simpa using h)]
    · next h => rw [takeWhile_cons_of_neg (by simpa using h), map_nil]

theorem length_behind_usedSsids {e : UserScanSsid × List UInt8} : ∀ {es : List UserScanSsid},
    e ∈ UserScanCfg.usedSsids behind es → e.2.length ≤ 34 * es.length + behind.length
  | x :: rest, h => by
    rw [UserScanCfg.usedSsids] at h
    split at h
    · rcases mem_cons.mp h with rfl | h
      · rw [length_append, length_flatMap_octets, length_cons]
        omega
      · have hrest := length_behind_usedSsids h
        rw [length_cons]
        omega
    · cases h

theorem length_bssidRecord (a : ScanSettings) (cfg : UserScanCfg) (m n : ℕ) :
    (bssidRecord a cfg m).length = (bssidRecord a cfg n).length := by
  unfold bssidRecord
  split_ifs <;> rfl

theorem length_writtenFilters (a : ScanSettings) (cfg : Option UserScanCfg) :
    (writtenFilters a cfg).length = (requestedFilters a cfg).length := by
  cases cfg with
  | none => rfl
  | some cfg =>
    rw [writtenFilters, requestedFilters, length_append, length_append, length_map, length_map,
      length_bssidRecord]

theorem writtenFilters_eq_iff (a : ScanSettings) (cfg : Option UserScanCfg) :
    writtenFilters a cfg = requestedFilters a cfg ↔ FiltersFit a cfg := by
  cases cfg with
  | none => exact iff_of_true rfl (by simp [FiltersFit])
  | some cfg =>
    have hssids : (UserScanCfg.usedSsids cfg.behindSsids cfg.ssidList.toList).map writtenSsid =
        (UserScanCfg.usedSsids cfg.behindSsids cfg.ssidList.toList).map
          (fun e => make tlvTypeWildcardssid (e.1.maxLen :: e.1.name)) ↔
        ∀ e ∈ cfg.ssidList.toList.takeWhile fun e : UserScanSsid => decide e.Used, 0 ∈ e.ssid.toList := by
      rw [map_inj_left, ← usedSsids_eq cfg.behindSsids]
      simp only [mem_map, forall_exists_index, and_imp, forall_apply_eq_imp_iff₂]
      refine forall₂_congr fun e he => ?_
      have hbehind := length_behind_usedSsids he
      have hlt := cfg.behindSsids_lt
      rw [Vector.length_toList] at hbehind
      exact writtenSsid_eq_iff e.1 (by omega)
    have hfit : FiltersFit a (some cfg) ↔ (a.extScan ≠ 0 → cfg.bssidNum.toNat ≤ 5) ∧
        ∀ e ∈ cfg.ssidList.toList.takeWhile fun e : UserScanSsid => decide e.Used, 0 ∈ e.ssid.toList := by
      simp [FiltersFit]
    rw [hfit, ← hssids, ← bssidRecord_eq_iff, writtenFilters, requestedFilters]
    refine ⟨fun h => append_inj h (length_bssidRecord a cfg _ _), fun h => ?_⟩
    rw [h.1, h.2]

end Written

end WlanDriver.Scan
