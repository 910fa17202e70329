import WlanDriver.Dfs.SubbandRoundTrip
import WlanDriver.Lib.Tlv

/-!
# The domain information that is set

`domain_reg` is written by `wlan_11d_handle_uap_domain_info` out of a domain TLV, by `wlan_11d_cfg_domain_info` out of a
request, and by `wlan_11d_generate_domain_info` out of a table of channels, each time with a number of subbands of 8 bits.
The first two go through `wlan_11d_set_domain_info`, whose copy ends with `sub_band`, and whose number does not. The number
of a TLV is a division of its length less the country code, without a sign; a length that is less than the country code
gives 84 or 85. `wlan_cmd_802_11d_domain_info` counts the octets by the number, and copies what `sub_band` has.

`meets_iff_fits` : the table, the number and the command agree with what was supplied exactly where that fits.
-/

namespace WlanDriver.Dfs

open List

/-- `MRVDRV_MAX_SUBBAND_802_11D`. -/
def maxSubband80211d : ℕ := 83

/-- `NXP_DFS_UNKNOWN`. -/
def dfsUnknown : ℕ := 0xFF

def sDsGen : ℕ := 8

/-- `HostCmd_ACT_GEN_GET`, `HostCmd_ACT_GEN_SET`, `HostCmd_ACT_SPC_SET`. -/
inductive CmdAction
  | genGet
  | genSet
  | spcSet
  deriving DecidableEq

def tlvTypeDomain : UInt16 := 0x0007

def tlvTypeRegionDomainCode : UInt16 := 0x01ab

/-- A subband in memory. -/
def SubbandSet.octets (s : SubbandSet) : List UInt8 :=
  [UInt8.ofNat s.firstChan, UInt8.ofNat s.noOfChan, UInt8.ofNat s.maxTxPwr]

/-- `wlan_802_11d_domain_reg_t`, with the entries of `sub_band`. -/
structure Domain where
  dfsRegion : ℕ
  countryCode : List UInt8
  band : ℕ
  noOfSubBand : ℕ
  subBand : List SubbandSet

/-- What `memset` leaves of `sub_band` behind the first entries. -/
def fillSubBand (num : ℕ) (l : ℕ → SubbandSet) : List SubbandSet :=
  (List.range maxSubband80211d).map fun j => if j < num then l j else ⟨0, 0, 0⟩

/-- `wlan_11d_set_domain_info`. -/
def setDomainInfo (band : ℕ) (countryCode : List UInt8) (numSubBand : ℕ) (subBandList : ℕ → SubbandSet)
    (dfsRegion : ℕ) : Domain :=
  ⟨dfsRegion, countryCode, band, numSubBand, fillSubBand numSubBand subBandList⟩

/-- `domain_reg` behind `wlan_11d_generate_domain_info`. -/
def DomainReg.toDomain (r : DomainReg) : Domain :=
  ⟨dfsUnknown, r.countryCode.toList.map fun c => UInt8.ofNat c.toNat, 0, r.subBand.length,
    fillSubBand r.subBand.length fun j => r.subBand.getD j ⟨0, 0, 0⟩⟩

/-! ## Where it comes from -/

/-- `region_chan_t` : a channel and its power at each place of `pcfp`. -/
structure RegionChan where
  band : ℕ
  numCfp : ℕ
  pcfp : Option (ℕ → ℕ × ℕ)

/-- `wlan_11d_generate_parsed_region_chan` into a cleared table : nothing if it writes behind the table. -/
def RegionChan.generateParsedRegionChan (r : RegionChan) : Option ParsedRegionChan :=
  match r.pcfp with
  | none => some ⟨0, fun _ => .cleared, Nat.zero_le _⟩
  | some cfp =>
    if h : r.numCfp ≤ maxNoOfChan then
      some ⟨r.numCfp, fun j =>
        if j < r.numCfp then ⟨(cfp j).1 % 256, r.band, (cfp j).2 % 256, false⟩ else .cleared, h⟩
    else none

/-- `mlan_ds_11d_domain_info`. -/
structure DsDomainInfo where
  dfsRegion : ℕ
  countryCode : List UInt8
  band : ℕ
  noOfSubBand : ℕ
  subBand : ℕ → SubbandSet
  country_length : countryCode.length = countryCodeLen

/-- `MrvlIEtypes_DomainParamSet_t` : a TLV in memory, with what lies behind it. -/
structure DomainTlv where
  mem : Mem

namespace DomainTlv

variable (t : DomainTlv)

/-- `header.type`. -/
def type : ℕ :=
  Tlv.get16 (t.mem.read 0 2)

/-- `header.len`. -/
def len : ℕ :=
  Tlv.get16 (t.mem.read 2 2)

def countryCode : List UInt8 :=
  t.mem.read 4 countryCodeLen

def subBand (j : ℕ) : SubbandSet :=
  let a := 4 + countryCodeLen + 3 * j
  ⟨(t.mem a).toNat, (t.mem (a + 1)).toNat, (t.mem (a + 2)).toNat⟩

/-- `num_sub_band` : `sizeof` makes the difference one of 64 bits without a sign. -/
def numSubBand : ℕ :=
  (2 ^ 64 + t.len - countryCodeLen) % 2 ^ 64 / 3 % 256

/-- The DFS region of the TLV behind, if both are what they should be. -/
def dfsRegion : ℕ :=
  if t.type = tlvTypeDomain.toNat ∧ Tlv.get16 (t.mem.read (4 + t.len) 2) = tlvTypeRegionDomainCode.toNat then
    (t.mem (4 + t.len + 4)).toNat
  else dfsUnknown

end DomainTlv

/-- What sets the domain information. -/
inductive DomainRequest
  /-- `wlan_11d_handle_uap_domain_info`, where `wlan_set_regiontable` may fail. -/
  | uap (regiontableFails : Bool) (band : ℕ) (tlv : DomainTlv)
  /-- `wlan_11d_cfg_domain_info` : whether the region is forced, and whether the country is mapped to `EU`. -/
  | cfg (forceReg etsi : Bool) (info : DsDomainInfo)
  /-- `wlan_11d_create_dnld_countryinfo` with the region's table. -/
  | region (r : RegionChan) (regionCode : ℕ)
  /-- `wlan_11d_parse_dnld_countryinfo` with the learned table. -/
  | learned (t : ParsedRegionChan) (regionCode : ℕ)

/-! ## The command -/

/-- The command : the TLVs are the octets that `tlv` has gone over. -/
structure DomainCommand where
  action : CmdAction
  size : ℕ
  /-- `domain->header.len`. -/
  domainLen : ℕ
  tlvs : List UInt8

/-- `MrvlIEtypes_Rgn_dom_code_t`, if there is one. -/
def Domain.rgn (d : Domain) : List UInt8 :=
  if d.dfsRegion ≠ dfsUnknown then
    Tlv.le16 tlvTypeRegionDomainCode.toNat ++ (Tlv.le16 2 ++ [UInt8.ofNat d.dfsRegion, 0])
  else []

/-- The subbands in the buffer, which was cleared : `memcpy_ext` copies what `sub_band` has. -/
def Domain.copied (d : Domain) : List UInt8 :=
  (d.subBand.take d.noOfSubBand).flatMap SubbandSet.octets ++ List.replicate (3 * (d.noOfSubBand - maxSubband80211d)) 0

/-- `wlan_cmd_802_11d_domain_info` : with 8 bits for the number no length wraps. -/
def Domain.cmdDomainInfo (d : Domain) (action : CmdAction) : DomainCommand :=
  if action = .genGet then ⟨action, 2 + sDsGen, 0, []⟩
  else
    let len := d.noOfSubBand * 3 + countryCodeLen
    if d.noOfSubBand ≠ 0 then
      ⟨action, 0 + (2 + len + 4 + sDsGen) + d.rgn.length, len,
        Tlv.le16 tlvTypeDomain.toNat ++ (Tlv.le16 len ++ (d.countryCode ++ d.copied)) ++ d.rgn⟩
    else ⟨action, 2 + sDsGen, len, []⟩

/-- A request : `domain_reg` behind it, and the command if one is built. Nothing is left of a write behind a table. -/
def DomainRequest.handle (d : Domain) : DomainRequest → Option (Domain × Option DomainCommand)
  | uap regiontableFails band tlv =>
    if regiontableFails then some (d, none)
    else
      let d' := setDomainInfo band tlv.countryCode tlv.numSubBand tlv.subBand tlv.dfsRegion
      some (d', some (d'.cmdDomainInfo .genSet))
  | cfg forceReg etsi info =>
    if forceReg then some (d, none)
    else
      let countryCode := if etsi then [0x45, 0x55, 0x20] else info.countryCode
      let d' := setDomainInfo info.band countryCode info.noOfSubBand info.subBand info.dfsRegion
      some (d', some (d'.cmdDomainInfo .genSet))
  | region r regionCode =>
    match r.generateParsedRegionChan with
    | none => none
    | some t =>
      let d' := (t.generateDomainInfo regionCode).toDomain
      some (d', some (d'.cmdDomainInfo .spcSet))
  | learned t regionCode =>
    let d' := (t.generateDomainInfo regionCode).toDomain
    some (d', some (d'.cmdDomainInfo .spcSet))

/-! ## What is due -/

/-- The subbands are the ones supplied : those of the TLV or of the request, or those that say what the table says. -/
def DomainRequest.Supplies (l : List SubbandSet) : DomainRequest → Prop
  | uap _ _ tlv => l = (List.range ((tlv.len - countryCodeLen) / 3)).map tlv.subBand ∧ countryCodeLen ≤ tlv.len
  | cfg _ _ info => l = (List.range info.noOfSubBand).map info.subBand
  | region r _ => ∃ t, r.generateParsedRegionChan = some t ∧
      l.flatMap SubbandSet.channels = t.entries.map fun e => (e.chan, e.pwr)
  | learned t _ => l.flatMap SubbandSet.channels = t.entries.map fun e => (e.chan, e.pwr)

/-- The domain TLV of some subbands. -/
def Domain.domainTlv (d : Domain) (l : List SubbandSet) : List UInt8 :=
  Tlv.le16 tlvTypeDomain.toNat ++ (Tlv.le16 (countryCodeLen + 3 * l.length) ++ (d.countryCode ++ l.flatMap SubbandSet.octets))

/-- The command carries the country code and exactly these subbands, and its size is the header, the action and the TLVs. -/
structure DomainCommand.Carries (c : DomainCommand) (d : Domain) (l : List SubbandSet) : Prop where
  len_eq : c.domainLen = countryCodeLen + 3 * l.length
  tlvs_eq : c.tlvs = if l = [] then [] else d.domainTlv l ++ d.rgn
  size_eq : c.size = sDsGen + 2 + c.tlvs.length

/-- What a request that sets `domain_reg` leaves. -/
structure Domain.Holds (d : Domain) (req : DomainRequest) (c : DomainCommand) : Prop where
  fits : d.noOfSubBand ≤ maxSubband80211d
  supplied : req.Supplies (d.subBand.take d.noOfSubBand)
  carries : c.Carries d (d.subBand.take d.noOfSubBand)

/-- The domain information stays within its table, and says what was supplied; a request that is refused changes nothing. -/
def DomainRequest.Meets (req : DomainRequest) (d : Domain) : Prop :=
  ∃ d' c, req.handle d = some (d', c) ∧ match c with
    | none => d' = d
    | some c => d'.Holds req c

/-- What is supplied fits. -/
def DomainRequest.Fits : DomainRequest → Prop
  | uap regiontableFails _ tlv => regiontableFails ∨
      countryCodeLen ≤ tlv.len ∧ (tlv.len - countryCodeLen) / 3 ≤ maxSubband80211d
  | cfg forceReg _ info => forceReg ∨ info.noOfSubBand ≤ maxSubband80211d
  | region r _ => r.pcfp.isSome → r.numCfp ≤ maxNoOfChan
  | learned _ _ => True

/-! ## Numbers and tables -/

variable {num : ℕ} {l : ℕ → SubbandSet} {d : Domain} {action : CmdAction}

theorem length_fillSubBand (num : ℕ) (l : ℕ → SubbandSet) : (fillSubBand num l).length = maxSubband80211d := by
  simp [fillSubBand]

/-- The first entries are those that are copied. -/
theorem take_fillSubBand (h : num ≤ maxSubband80211d) : (fillSubBand num l).take num = (List.range num).map l := by
  unfold fillSubBand
  rw [← map_take, take_range, min_eq_left h]
  refine map_congr_left fun j hj => ?_
  rw [if_pos (mem_range.mp hj)]

theorem length_flatMap_subBand (l : List SubbandSet) : (l.flatMap SubbandSet.octets).length = 3 * l.length := by
  induction l with
  | nil => rfl
  | cons s l ih =>
    have hs : s.octets.length = 3 := rfl
    rw [flatMap_cons, length_append, ih, hs, length_cons]
    omega

/-- `wlan_cmd_802_11d_domain_info` carries the first entries, where the number fits. -/
theorem carries_cmdDomainInfo (hact : action ≠ .genGet) (hfits : d.noOfSubBand ≤ maxSubband80211d)
    (hlen : d.subBand.length = maxSubband80211d) (hcountry : d.countryCode.length = countryCodeLen) :
    (d.cmdDomainInfo action).Carries d (d.subBand.take d.noOfSubBand) := by
  have htake : (d.subBand.take d.noOfSubBand).length = d.noOfSubBand := by
    rw [length_take, hlen, min_eq_left hfits]
  have hoctets : ((d.subBand.take d.noOfSubBand).flatMap SubbandSet.octets).length = 3 * d.noOfSubBand := by
    rw [length_flatMap_subBand, htake]
  have hcopied : d.copied = (d.subBand.take d.noOfSubBand).flatMap SubbandSet.octets := by
    simp [Domain.copied, Nat.sub_eq_zero_of_le hfits]
  unfold Domain.cmdDomainInfo
  rw [if_neg hact]
  by_cases hzero : d.noOfSubBand = 0
  · rw [if_neg (by simpa using hzero)]
    exact ⟨by simp [hzero], by simp [hzero], by simp [sDsGen]⟩
  · have hne : d.subBand.take d.noOfSubBand ≠ [] := fun hnil => hzero (by rw [← htake, hnil, length_nil])
    have hcomm : d.noOfSubBand * 3 + countryCodeLen = countryCodeLen + 3 * (d.subBand.take d.noOfSubBand).length := by
      rw [htake]
      omega
    rw [if_pos hzero]
    refine ⟨hcomm, ?_, ?_⟩
    · rw [if_neg hne, Domain.domainTlv, hcopied, hcomm]
    · simp only [length_append, Tlv.length_le16, hcopied, hoctets, hcountry]
      omega

/-! ## Each kind of request -/

/-- The number of a TLV that is long enough for its country code. -/
theorem numSubBand_of_le (t : DomainTlv) (h : countryCodeLen ≤ t.len) :
    t.numSubBand = (t.len - countryCodeLen) / 3 % 256 := by
  have hlt : t.len < 65536 := Tlv.get16_lt (t.mem.read 2 2)
  unfold DomainTlv.numSubBand
  unfold countryCodeLen at h ⊢
  omega

/-- What a request that goes through `wlan_11d_set_domain_info` leaves. -/
theorem holds_setDomainInfo {req : DomainRequest} {band dfs : ℕ} {countryCode : List UInt8}
    (hcountry : countryCode.length = countryCodeLen) :
    (setDomainInfo band countryCode num l dfs).Holds req ((setDomainInfo band countryCode num l dfs).cmdDomainInfo .genSet) ↔
      num ≤ maxSubband80211d ∧ req.Supplies ((List.range num).map l) := by
  constructor
  · intro h
    have hfits : num ≤ maxSubband80211d := h.fits
    exact ⟨hfits, take_fillSubBand (l := l) hfits ▸ h.supplied⟩
  · rintro ⟨hfits, hsupplied⟩
    refine ⟨hfits, ?_, carries_cmdDomainInfo (by decide) hfits (length_fillSubBand _ _) hcountry⟩
    exact (take_fillSubBand (l := l) hfits).symm ▸ hsupplied

/-- What is supplied by a TLV is what its number says, where that fits. -/
theorem uap_fits_iff (t : DomainTlv) (regiontableFails : Bool) (band : ℕ) :
    (t.numSubBand ≤ maxSubband80211d ∧
        (DomainRequest.uap regiontableFails band t).Supplies ((List.range t.numSubBand).map t.subBand)) ↔
      countryCodeLen ≤ t.len ∧ (t.len - countryCodeLen) / 3 ≤ maxSubband80211d := by
  constructor
  · rintro ⟨hfits, hsupplied, hle⟩
    have hlen := congrArg List.length hsupplied
    rw [length_map, length_map, length_range, length_range] at hlen
    exact ⟨hle, hlen ▸ hfits⟩
  · rintro ⟨hle, hfits⟩
    have hnum : t.numSubBand = (t.len - countryCodeLen) / 3 := by
      rw [numSubBand_of_le t hle, Nat.mod_eq_of_lt (lt_of_le_of_lt hfits (by decide))]
    exact ⟨hnum ▸ hfits, by rw [hnum], hle⟩

theorem length_code2Region (code : ℕ) : (code2Region code).toList.length = countryCodeLen := by
  have hall : ∀ m ∈ regionCodeMapping, m.1.toList.length = countryCodeLen := by decide
  unfold code2Region
  cases hfind : regionCodeMapping.find? fun m => m.2 = code with
  | none => decide
  | some m => exact hall m (mem_of_find?_eq_some hfind)

/-- Subbands of a table are at most as many as its channels. -/
theorem holds_generateDomainInfo {req : DomainRequest} (t : ParsedRegionChan) (regionCode : ℕ)
    (hreq : ∀ l, req.Supplies l ↔ l.flatMap SubbandSet.channels = t.entries.map fun e => (e.chan, e.pwr)) :
    (t.generateDomainInfo regionCode).toDomain.Holds req
      ((t.generateDomainInfo regionCode).toDomain.cmdDomainInfo .spcSet) := by
  have hfits : (t.generateDomainInfo regionCode).toDomain.noOfSubBand ≤ maxSubband80211d :=
    (ParsedRegionChan.length_subBand_le t regionCode).trans (t.fits.trans (by decide))
  have htake : (t.generateDomainInfo regionCode).toDomain.subBand.take
      (t.generateDomainInfo regionCode).toDomain.noOfSubBand = (t.generateDomainInfo regionCode).subBand := by
    unfold DomainReg.toDomain at hfits ⊢
    rw [take_fillSubBand hfits]
    refine ext_getElem (by simp) fun j hj hj' => ?_
    simp [getD_eq_getElem?_getD, getElem?_eq_getElem hj']
  refine ⟨hfits, ?_, carries_cmdDomainInfo (by decide) hfits (length_fillSubBand _ _) ?_⟩
  · rw [hreq, htake]
    exact ParsedRegionChan.channels_generateDomainInfo t regionCode
  · rw [DomainReg.toDomain, length_map]
    exact length_code2Region regionCode

/-- A table is written only as far as it goes. -/
theorem generateParsedRegionChan_isSome_iff (r : RegionChan) :
    r.generateParsedRegionChan.isSome ↔ (r.pcfp.isSome → r.numCfp ≤ maxNoOfChan) := by
  unfold RegionChan.generateParsedRegionChan
  cases r.pcfp with
  | none => simp
  | some cfp => by_cases h : r.numCfp ≤ maxNoOfChan <;> simp [h]

/-- **The domain information** stays within its table and is carried by the command exactly where what is supplied fits. -/
theorem meets_iff_fits (req : DomainRequest) (d : Domain) : req.Meets d ↔ req.Fits := by
  unfold DomainRequest.Meets
  cases req with
  | uap regiontableFails band tlv =>
    cases regiontableFails with
    | true => simp [DomainRequest.handle, DomainRequest.Fits]
    | false =>
      have hholds := @holds_setDomainInfo tlv.numSubBand tlv.subBand (.uap false band tlv) band tlv.dfsRegion
        tlv.countryCode (Mem.length_read _ _ _)
      rw [uap_fits_iff tlv false band] at hholds
      simp only [DomainRequest.handle, Bool.false_eq_true, if_false, DomainRequest.Fits, false_or]
      constructor
      · rintro ⟨d', c, heq, hc⟩
        obtain ⟨rfl, rfl⟩ := Prod.mk.inj (Option.some.inj heq)
        exact hholds.mp hc
      · intro hfits
        exact ⟨_, _, rfl, hholds.mpr hfits⟩
  | cfg forceReg etsi info =>
    cases forceReg with
    | true => simp [DomainRequest.handle, DomainRequest.Fits]
    | false =>
      have hcountry : (if etsi then [0x45, 0x55, 0x20] else info.countryCode).length = countryCodeLen := by
        split_ifs
        · rfl
        · exact info.country_length
      have hholds := @holds_setDomainInfo info.noOfSubBand info.subBand (.cfg false etsi info) info.band info.dfsRegion
        _ hcountry
      simp only [DomainRequest.handle, Bool.false_eq_true, if_false, DomainRequest.Fits, false_or]
      constructor
      · rintro ⟨d', c, heq, hc⟩
        obtain ⟨rfl, rfl⟩ := Prod.mk.inj (Option.some.inj heq)
        exact (hholds.mp hc).1
      · intro hfits
        exact ⟨_, _, rfl, hholds.mpr ⟨hfits, rfl⟩⟩
  | region r regionCode =>
    have hsome := generateParsedRegionChan_isSome_iff r
    simp only [DomainRequest.handle, DomainRequest.Fits]
    rw [← hsome]
    cases ht : r.generateParsedRegionChan with
    | none => simp
    | some t =>
      refine iff_of_true ⟨_, _, rfl, holds_generateDomainInfo t regionCode fun l => ?_⟩ rfl
      simp [DomainRequest.Supplies, ht]
  | learned t regionCode =>
    exact iff_of_true ⟨_, _, rfl, holds_generateDomainInfo t regionCode fun l => Iff.rfl⟩ trivial

/-- A TLV without a country code : its length is 0. -/
def emptyTlv : DomainTlv :=
  ⟨fun a => if a = 0 then 7 else 0⟩

/-- Its number is 84. -/
theorem not_meets_empty : ¬(DomainRequest.uap false 1 emptyTlv).Meets ⟨dfsUnknown, [0, 0, 0], 0, 0, []⟩ := by
  rintro ⟨d', c, heq, hc⟩
  obtain ⟨rfl, rfl⟩ := Prod.mk.inj (Option.some.inj heq)
  have hfits : emptyTlv.numSubBand ≤ maxSubband80211d := hc.fits
  have hnum : emptyTlv.numSubBand = 84 := by decide
  rw [hnum] at hfits
  exact absurd hfits (by decide)

end WlanDriver.Dfs
