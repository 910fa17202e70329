import Mathlib.Algebra.GroupWithZero.Nat
import Mathlib.Tactic.SplitIfs
import WlanDriver.Lib.Tlv

/-!
# The HT records of an association

`wlan_cmd_append_11n_tlv` writes what an association command has of 802.11n : the capabilities, the channel, the 20/40
coexistence and the extended capabilities, as far as the access point has them. Where 40 MHz are not allowed
(`wlan_check_chan_width_ht40_by_region`) it takes them out of `usr_dot_11n_dev_cap_bg` for the time being : out of the
capabilities of the band in use, which is where it gets them from, and where they go back to at the end is the same field.

The records are always a chain (`chain_records`). `leaves_alone_iff` : the capabilities are as they were exactly if nothing was
taken out, or if the end is reached and the band is not `BAND_A`, or by accident.
-/

namespace WlanDriver.Ht

open Tlv

/-! ## Bits -/

/-- A bit is set. -/
def setBit {n : ℕ} (x : BitVec n) (i : ℕ) : BitVec n :=
  x ||| BitVec.twoPow n i

/-- A bit is reset. -/
def resetBit {n : ℕ} (x : BitVec n) (i : ℕ) : BitVec n :=
  x &&& ~~~BitVec.twoPow n i

/-- A bit is set or reset. -/
def putBit {n : ℕ} (x : BitVec n) (i : ℕ) (b : Bool) : BitVec n :=
  if b then setBit x i else resetBit x i

/-- The octets of a number, the lowest first. -/
def leOctets {n : ℕ} (x : BitVec n) (count : ℕ) : List UInt8 :=
  (List.range count).map fun i => UInt8.ofNat (x.toNat / 256 ^ i)

@[simp] theorem length_leOctets {n : ℕ} (x : BitVec n) (count : ℕ) : (leOctets x count).length = count := by
  simp [leOctets]

/-! ## State -/

/-- `HTCap_t`. -/
structure HtCap where
  htCapInfo : BitVec 16
  ampduParam : BitVec 8
  supportedMcsSet : List UInt8
  htExtCap : BitVec 16
  txBfCap : BitVec 32
  asel : UInt8
  /-- `NUM_MCS_FIELD`. -/
  length_supportedMcsSet : supportedMcsSet.length = 16

/-- `region_channel[0]`. -/
structure RegionChannel where
  valid : Bool
  numCfp : ℕ
  /-- The channel of each `pcfp`. -/
  channel : ℕ → ℕ

/-- The octets of HE capabilities that are read. -/
structure HeCap where
  heMacCap0 : BitVec 8
  hePhyCap0 : BitVec 8

/-- `mlan_adapter`. -/
structure Adapter where
  regionChannel : RegionChannel
  hwMpduDensity : BitVec 8
  /-- `IS_CARD9098`, or one of the cards that are asked for with it. -/
  is9098 : Bool
  userHtstream : BitVec 16
  mcs32 : ℕ
  fwCapInfo : BitVec 32
  fwCapExt : BitVec 32
  ecsaEnable : Bool
  support11mc : Bool
  hwHeCap : HeCap
  hw2gHeCap : HeCap

/-- `mlan_private`. The extended capabilities are `ExtCap_t`, bit by bit. -/
structure Private where
  usrDot11nDevCapBg : BitVec 32
  usrDot11nDevCapA : BitVec 32
  usrDot11acDevCapA : BitVec 32
  usrDot11acBw : ℕ
  currChanFlags : BitVec 32
  usrDevMcsSupport : BitVec 8
  txBfCap : BitVec 32
  configBands : BitVec 16
  extCap : BitVec 88
  userHeCap : HeCap
  user2gHeCap : HeCap

/-- `IEEEtypes_ExtCap_t`. -/
structure ExtCapIe where
  len : ℕ
  extCap : BitVec 88

/-- `BSSDescriptor_t` : a pointer is what it points to. -/
structure BssDesc where
  bssBand : BitVec 16
  currBandwidth : ℕ
  phtCap : Option HtCap
  /-- `pri_chan` and `field2`. -/
  phtInfo : Option (ℕ × BitVec 8)
  pbssCo2040 : Option UInt8
  pextCap : Option ExtCapIe
  multiBssidAp : Bool
  /-- `chan_width`. -/
  pvhtOprat : Option ℕ
  /-- `vht_cap_info`. -/
  pvhtCap : Option (BitVec 32)
  pheCap : Option HeCap

/-- `bss_band & BAND_A`. -/
def BssDesc.isBandA (d : BssDesc) : Bool :=
  d.bssBand.getLsbD 2

/-- `CHAN_FLAGS_NO_HT40PLUS`. -/
def noHt40Plus : ℕ := 4

/-- `CHAN_FLAGS_NO_HT40MINUS`. -/
def noHt40Minus : ℕ := 5

/-- `CHAN_FLAGS_NO_80MHZ`. -/
def no80Mhz : ℕ := 7

def chanFlagsMax : ℕ := 31

/-- `GET_SECONDARYCHAN`. -/
def secondaryChan (field2 : BitVec 8) : ℕ :=
  field2.toNat % 4

def secChanAbove : ℕ := 1

def secChanBelow : ℕ := 3

def issuppChanwidth40 (cap : BitVec 32) : Bool :=
  cap.getLsbD 17

namespace Private

variable (p : Private)

/-- Neither half of 40 MHz is allowed. -/
def noHt40 : Bool :=
  p.currChanFlags.getLsbD noHt40Plus && p.currChanFlags.getLsbD noHt40Minus

/-- `usr_dot_11n_dev_cap_a` or `usr_dot_11n_dev_cap_bg`. -/
def usrDot11nDevCap (isBandA : Bool) : BitVec 32 :=
  if isBandA then p.usrDot11nDevCapA else p.usrDot11nDevCapBg

end Private

/-! ## Whether 40 MHz are allowed -/

/-- `wlan_check_chan_width_ht40_by_region`, and the private structure with its flags. -/
def checkChanWidthHt40ByRegion (a : Adapter) (p : Private) (d : BssDesc) : Bool × Private :=
  match d.phtInfo with
  | none => (false, p)
  | some (priChan, field2) =>
    if p.noHt40 then (false, p)
    else if secondaryChan field2 = secChanAbove ∧ p.currChanFlags.getLsbD noHt40Plus then
      (false, { p with currChanFlags := setBit (setBit p.currChanFlags noHt40Minus) no80Mhz })
    else if secondaryChan field2 = secChanBelow ∧ p.currChanFlags.getLsbD noHt40Minus then
      (false, { p with currChanFlags := setBit (setBit p.currChanFlags noHt40Plus) no80Mhz })
    else if p.currChanFlags.getLsbD chanFlagsMax then (true, p)
    else if (d.bssBand.getLsbD 0 ∨ d.bssBand.getLsbD 1) ∧ a.regionChannel.valid then
      if ((List.range a.regionChannel.numCfp).any fun i => priChan = a.regionChannel.channel i) = false then (false, p)
      else if secondaryChan field2 = secChanAbove ∧ (a.regionChannel.numCfp : ℤ) - 4 < priChan then (false, p)
      else (true, p)
    else (true, p)

/-! ## Capabilities -/

def fillCapInfo (p : Private) (isBandA : Bool) (info : BitVec 16) : BitVec 16 :=
  let cap := p.usrDot11nDevCap isBandA
  let info := putBit info 1 (issuppChanwidth40 cap)
  let info := putBit info 4 (cap.getLsbD 29)
  let info := putBit info 5 (cap.getLsbD 23)
  let info := putBit info 6 (cap.getLsbD 24)
  let info := if cap.getLsbD 26 then setBit info 8 else resetBit (resetBit info 8) 9
  let info := putBit info 14 (cap.getLsbD 8)
  let info := if p.noHt40 then resetBit (resetBit (resetBit info 1) 6) 14 else info
  let info := putBit info 0 (cap.getLsbD 22)
  let info := putBit info 7 (cap.getLsbD 25)
  let info := resetBit (resetBit info 10) 11
  let info := resetBit (resetBit info 2) 3
  if cap.getLsbD 27 then if cap.getLsbD 9 then setBit info 2 else info else setBit (setBit info 2) 3

/-- `supported_mcs_set` for a number of streams. -/
def mcsSet (rxMcsSupp : ℕ) (mcs32 : Bool) : List UInt8 :=
  (List.range 16).map fun i =>
    let m : UInt8 := if i < rxMcsSupp then 0xff else 0
    if i = 4 ∧ mcs32 then m ||| 1 else m

@[simp] theorem length_mcsSet (rxMcsSupp : ℕ) (mcs32 : Bool) : (mcsSet rxMcsSupp mcs32).length = 16 := by
  simp [mcsSet]

/-- `wlan_fill_ht_cap_tlv` with `fill`. -/
def fillHtCapTlv (a : Adapter) (p : Private) (isBandA : Bool) (c : HtCap) : HtCap where
  htCapInfo := fillCapInfo p isBandA c.htCapInfo
  ampduParam := (((c.ampduParam &&& 0xfc) ||| 0x03) &&& 0xe3) ||| ((a.hwMpduDensity &&& 0x07) <<< 2)
  supportedMcsSet :=
    let rx := p.usrDevMcsSupport.toNat % 16
    let stream := if isBandA then a.userHtstream.toNat / 256 % 16 else a.userHtstream.toNat % 16
    mcsSet (if a.is9098 then min rx stream else rx)
      (issuppChanwidth40 (p.usrDot11nDevCap isBandA) && !p.noHt40 && a.mcs32 = 1)
  htExtCap := resetBit c.htExtCap 11
  txBfCap := p.txBfCap
  asel := c.asel
  length_supportedMcsSet := length_mcsSet _ _

def is8080Support (a : Adapter) (p : Private) (d : BssDesc) : Bool :=
  let ac := p.usrDot11acDevCapA.getLsbD 3 && d.pvhtCap.any fun c => c.getLsbD 3
  a.is9098 && d.isBandA && a.userHtstream.toNat / 256 % 16 = 2 && a.userHtstream.toNat / 256 / 16 % 16 = 2 &&
    match d.pheCap with
    | none => ac
    | some he => ac && p.userHeCap.hePhyCap0.getLsbD 4 && he.hePhyCap0.getLsbD 4

/-- `supported_mcs_set[1]` is cleared. -/
def HtCap.clearMcs1 (c : HtCap) : HtCap :=
  { c with
    supportedMcsSet := c.supportedMcsSet.set 1 0
    length_supportedMcsSet := by rw [List.length_set]; exact c.length_supportedMcsSet }

/-- The octets of `HTCap_t`. -/
def HtCap.octets (c : HtCap) : List UInt8 :=
  leOctets c.htCapInfo 2 ++ (leOctets c.ampduParam 1 ++ (c.supportedMcsSet ++ (leOctets c.htExtCap 2 ++
    (leOctets c.txBfCap 4 ++ [c.asel]))))

@[simp] theorem HtCap.length_octets (c : HtCap) : c.octets.length = 26 := by
  simp [octets, c.length_supportedMcsSet]

def check11axTwtSupported (a : Adapter) (p : Private) (d : BssDesc) : Bool :=
  let ap := (d.pheCap.any fun he => he.heMacCap0.getLsbD 2) && d.pextCap.any fun e => e.extCap.getLsbD 78
  let hw := if d.isBandA then a.hwHeCap else a.hw2gHeCap
  let user := if d.isBandA then p.userHeCap else p.user2gHeCap
  ap && hw.heMacCap0.getLsbD 1 && user.heMacCap0.getLsbD 1

def checkBeaconProtSupported (a : Adapter) (d : BssDesc) : Bool :=
  (match d.pextCap with
    | none => true
    | some e => 11 ≤ e.len && e.extCap.getLsbD 84) && a.fwCapExt.getLsbD 10

def isExtCapaSupport (p : Private) : Bool :=
  p.extCap.getLsbD 37 || p.extCap.getLsbD 31 || p.extCap.getLsbD 19 || p.extCap.getLsbD 32 || p.extCap.getLsbD 62

/-- What `wlan_add_ext_capa_info_ie` makes of `ext_cap`. -/
def addExtCapaInfo (a : Adapter) (p : Private) (d : BssDesc) : BitVec 88 :=
  let c := putBit p.extCap 2 a.ecsaEnable
  let c := if a.support11mc then setBit (setBit c 71) 31 else c
  let c := if d.multiBssidAp then setBit c 22 else c
  let c := if check11axTwtSupported a p d then setBit c 77 else c
  if checkBeaconProtSupported a d then setBit c 84 else c

/-- What is written of `ext_cap` where the access point has extended capabilities. -/
def extCapFor (a : Adapter) (p : Private) (d : BssDesc) : BitVec 88 :=
  let c := if d.multiBssidAp then setBit p.extCap 22 else p.extCap
  let c := putBit c 2 a.ecsaEnable
  if check11axTwtSupported a p d then setBit c 77 else c

/-! ## Channel -/

/-- `wlan_band_to_radio_type` : `BAND_5GHZ` or `BAND_2GHZ`. -/
def bandToRadioType (band : BitVec 16) : ℕ :=
  if band = 4 ∨ band = 16 ∨ band = 20 ∨ band = 84 then 1 else 0

/-- `wlan_11ac_bandconfig_allowed`. -/
def bandconfigAllowed11ac (p : Private) (band : BitVec 16) : Bool :=
  if band.getLsbD 1 then p.configBands.getLsbD 5 else if band.getLsbD 2 then p.configBands.getLsbD 6 else false

/-- `ChanScanParamSet_t`, what is not zero of it. -/
structure ChanScanParam where
  chanBand : ℕ
  chanWidth : ℕ
  chan2Offset : ℕ
  scanMode : ℕ
  chanNumber : ℕ

/-- The octets of `ChanScanParamSet_t`. -/
def ChanScanParam.octets (c : ChanScanParam) : List UInt8 :=
  [UInt8.ofNat (c.chanBand % 4 + 4 * (c.chanWidth % 4) + 16 * (c.chan2Offset % 4) + 64 * (c.scanMode % 4)),
    UInt8.ofNat c.chanNumber, 0, 0, 0, 0, 0]

/-- The function while it runs : what it has written, where `*ppbuffer` is, and `ret_len`. -/
structure Append where
  priv : Private
  bss : BssDesc
  written : List UInt8
  advance : ℕ
  retLen : ℕ

namespace Append

variable (s : Append)

/-- A record : its type, its length as the header has it, and what stands behind the header. -/
def record (type len : ℕ) (value : List UInt8) : Append :=
  { s with
    written := s.written ++ (le16 type ++ (le16 len ++ value))
    advance := s.advance + (4 + len)
    retLen := s.retLen + (4 + len) }

/-- The capabilities, `MrvlIETypes_HTCap_t`. -/
def htCap (a : Adapter) (c : HtCap) : Append :=
  let c := fillHtCapTlv a s.priv s.bss.isBandA c
  s.record 45 26 (if is8080Support a s.priv s.bss then c.clearMcs1 else c).octets

/-- The channel, `MrvlIEtypes_ChanListParamSet_t`. `cap` is the local variable. -/
def chanList (a : Adapter) (cap : BitVec 32) (priChan : ℕ) (field2 : BitVec 8) : Append :=
  let c : ChanScanParam := ⟨bandToRadioType s.bss.bssBand, 0, 0, 2, priChan⟩
  if (a.fwCapInfo.getLsbD 12 ∨ a.fwCapInfo.getLsbD 13) ∧ s.priv.usrDot11acBw = 1 ∧ ¬s.priv.currChanFlags.getLsbD no80Mhz ∧
      bandconfigAllowed11ac s.priv s.bss.bssBand ∧ s.bss.pvhtOprat = some 1 then
    ({ s with bss := { s.bss with currBandwidth := 2 } } : Append).record 0x101 7
      { c with chanWidth := 3, chan2Offset := secondaryChan field2 }.octets
  else if issuppChanwidth40 cap ∧ field2.getLsbD 2 then
    let r := checkChanWidthHt40ByRegion a s.priv s.bss
    if r.1 then
      ({ s with priv := r.2, bss := { s.bss with currBandwidth := 1 } } : Append).record 0x101 7
        { c with chanWidth := 2, chan2Offset := secondaryChan field2 }.octets
    else ({ s with priv := r.2 } : Append).record 0x101 7 c.octets
  else s.record 0x101 7 c.octets

/-- The 20/40 coexistence, `MrvlIETypes_2040BSSCo_t`. -/
def bssCo2040 (v : UInt8) : Append :=
  s.record 72 1 [v]

/-- The extended capabilities, `MrvlIETypes_ExtCap_t`. -/
def extCap (a : Adapter) : Append :=
  if s.bss.pextCap.isSome then s.record 127 11 (leOctets (extCapFor a s.priv s.bss) 11)
  else if isExtCapaSupport s.priv ∨ s.priv.configBands.getLsbD 6 then
    let s : Append := { s with priv := { s.priv with extCap := addExtCapaInfo a s.priv s.bss } }
    s.record 127 11 (leOctets s.priv.extCap 11)
  else s

end Append

/-- 40 MHz are taken out of capabilities. -/
def resetChanwidth40 (cap : BitVec 32) : BitVec 32 :=
  resetBit (resetBit (resetBit cap 17) 8) 24

/-- What is there behind the function. -/
structure Appended where
  priv : Private
  pbssDesc : Option BssDesc
  written : List UInt8
  advance : ℕ
  ret : ℕ

/-- The function is left. -/
def Append.done (s : Append) : Appended :=
  ⟨s.priv, some s.bss, s.written, s.advance, s.retLen⟩

/-- 40 MHz are asked for and not allowed. -/
def narrows (a : Adapter) (p : Private) (d : BssDesc) : Bool :=
  (d.bssBand.getLsbD 0 || d.bssBand.getLsbD 1 || d.isBandA) && issuppChanwidth40 (p.usrDot11nDevCap d.isBandA) &&
    !(checkChanWidthHt40ByRegion a p d).1

/-- The private structure when this has been asked. -/
def askedFor (a : Adapter) (p : Private) (d : BssDesc) : Private :=
  if (d.bssBand.getLsbD 0 || d.bssBand.getLsbD 1 || d.isBandA) && issuppChanwidth40 (p.usrDot11nDevCap d.isBandA) then
    (checkChanWidthHt40ByRegion a p d).2
  else p

/-- The local variable `usr_dot_11n_dev_cap`. -/
def localCap (a : Adapter) (p : Private) (d : BssDesc) : BitVec 32 :=
  if narrows a p d then resetChanwidth40 (p.usrDot11nDevCap d.isBandA) else p.usrDot11nDevCap d.isBandA

/-- What the records are written with. -/
def narrowed (a : Adapter) (p : Private) (d : BssDesc) : Append :=
  if narrows a p d then
    ⟨{ askedFor a p d with usrDot11nDevCapBg := localCap a p d }, { d with currBandwidth := 0 }, [], 0, 0⟩
  else ⟨askedFor a p d, d, [], 0, 0⟩

/-- The records of a network with 802.11n. -/
def Append.records (s : Append) (a : Adapter) (cap : BitVec 32) (c : HtCap) : Append :=
  let s := s.htCap a c
  let s := s.bss.phtInfo.elim s fun i => s.chanList a cap i.1 i.2
  let s := s.bss.pbssCo2040.elim s s.bssCo2040
  s.extCap a

/-- The capabilities go back. `orig_usr_dot_11n_dev_cap` is not zero if there is something to go back. -/
def Append.restore (s : Append) (orig : BitVec 32) : Append :=
  if orig ≠ 0 then { s with priv := { s.priv with usrDot11nDevCapBg := orig } } else s

/-- `wlan_cmd_append_11n_tlv`, with the pointers to the buffer and to the descriptor. -/
def cmdAppend11nTlv (a : Adapter) (p : Private) (hasBuffer : Bool) (pbssDesc : Option BssDesc) : Appended :=
  match pbssDesc with
  | none => ⟨p, none, [], 0, 0⟩
  | some d =>
    if hasBuffer = false then ⟨p, some d, [], 0, 0⟩
    else
      match d.phtCap with
      | none => (narrowed a p d).done
      | some c =>
        (((narrowed a p d).records a (localCap a p d) c).restore
          (if narrows a p d then p.usrDot11nDevCap d.isBandA else 0)).done

/-! ## What the function is to leave -/

/-- The capabilities are as they were, and the octets from the buffer on are a chain of records, as long as is returned and as
the buffer is behind. -/
structure LeavesAlone (p : Private) (r : Appended) : Prop where
  bg : r.priv.usrDot11nDevCapBg = p.usrDot11nDevCapBg
  a : r.priv.usrDot11nDevCapA = p.usrDot11nDevCapA
  records : ∃ ts, parse r.written = some ts
  ret : r.ret = r.written.length
  advance : r.advance = r.ret

/-- Nothing is taken out of the capabilities, or they go back to where they were, or are the same there. -/
def Kept (a : Adapter) (p : Private) (d : BssDesc) : Prop :=
  narrows a p d = false ∨
    (d.phtCap.isSome ∧ (d.isBandA → p.usrDot11nDevCapBg = p.usrDot11nDevCapA)) ∨
      d.phtCap = none ∧ d.isBandA ∧ p.usrDot11nDevCapBg = resetChanwidth40 p.usrDot11nDevCapA

/-! ## Records -/

namespace Append

variable {s : Append} {a : Adapter}

/-- What is written is a chain, and counted. -/
structure Chained (s : Append) : Prop where
  written : ∃ ts, s.written = chain ts
  retLen : s.retLen = s.written.length
  advance : s.advance = s.retLen

theorem Chained.record (h : s.Chained) {type len : ℕ} {value : List UInt8} (htype : type < 65536) (hlen : len < 65536)
    (hvalue : value.length = len) : (s.record type len value).Chained := by
  subst hvalue
  obtain ⟨ts, hts⟩ := h.written
  have hretLen := h.retLen
  refine ⟨⟨ts ++ [⟨UInt16.ofNat type, value, hlen⟩], ?_⟩, ?_, ?_⟩
  · have hnat : (UInt16.ofNat type).toNat = type := by
      rw [UInt16.toNat_ofNat']
      omega
    unfold Append.record
    rw [chain_append, ← hts, chain_cons, chain_nil, List.append_nil, octets, hnat]
  · unfold Append.record
    simp only [List.length_append, length_le16]
    omega
  · unfold Append.record
    simp only [h.advance]

theorem Chained.htCap (h : s.Chained) (c : HtCap) : (s.htCap a c).Chained :=
  h.record (by decide) (by decide) (HtCap.length_octets _)

theorem Chained.chanList (h : s.Chained) (cap : BitVec 32) (priChan : ℕ) (field2 : BitVec 8) :
    (s.chanList a cap priChan field2).Chained := by
  unfold Append.chanList
  dsimp only
  split_ifs
  · refine Chained.record ?_ (by decide) (by decide) rfl
    exact ⟨h.written, h.retLen, h.advance⟩
  · refine Chained.record ?_ (by decide) (by decide) rfl
    exact ⟨h.written, h.retLen, h.advance⟩
  · refine Chained.record ?_ (by decide) (by decide) rfl
    exact ⟨h.written, h.retLen, h.advance⟩
  · exact h.record (by decide) (by decide) rfl

theorem Chained.extCap (h : s.Chained) : (s.extCap a).Chained := by
  unfold Append.extCap
  dsimp only
  split_ifs
  · exact h.record (by decide) (by decide) (length_leOctets _ _)
  · refine Chained.record ?_ (by decide) (by decide) (length_leOctets _ _)
    exact ⟨h.written, h.retLen, h.advance⟩
  · exact h

theorem Chained.records (h : s.Chained) (cap : BitVec 32) (c : HtCap) : (s.records a cap c).Chained := by
  have hht : (s.htCap a c).Chained := h.htCap c
  unfold Append.records
  dsimp only
  refine Chained.extCap ?_
  have hchan : ((s.htCap a c).bss.phtInfo.elim (s.htCap a c) fun i => (s.htCap a c).chanList a cap i.1 i.2).Chained := by
    cases (s.htCap a c).bss.phtInfo with
    | none => exact hht
    | some i => exact hht.chanList cap i.1 i.2
  revert hchan
  generalize ((s.htCap a c).bss.phtInfo.elim (s.htCap a c) fun i => (s.htCap a c).chanList a cap i.1 i.2) = s'
  intro hchan
  cases s'.bss.pbssCo2040 with
  | none => exact hchan
  | some v => exact hchan.record (by decide) (by decide) rfl

end Append

/-! ## Capabilities -/

/-- The capabilities of the user are the same. -/
def SameCaps (p q : Private) : Prop :=
  q.usrDot11nDevCapBg = p.usrDot11nDevCapBg ∧ q.usrDot11nDevCapA = p.usrDot11nDevCapA

theorem SameCaps.trans {p q r : Private} (h : SameCaps p q) (h' : SameCaps q r) : SameCaps p r :=
  ⟨h'.1.trans h.1, h'.2.trans h.2⟩

variable {a : Adapter} {p : Private} {d : BssDesc}

/-- The region changes flags only. -/
theorem sameCaps_check (a : Adapter) (p : Private) (d : BssDesc) : SameCaps p (checkChanWidthHt40ByRegion a p d).2 := by
  unfold checkChanWidthHt40ByRegion
  split
  · exact ⟨rfl, rfl⟩
  · split_ifs <;> exact ⟨rfl, rfl⟩

theorem sameCaps_askedFor (a : Adapter) (p : Private) (d : BssDesc) : SameCaps p (askedFor a p d) := by
  unfold askedFor
  split_ifs
  · exact sameCaps_check a p d
  · exact ⟨rfl, rfl⟩

theorem sameCaps_chanList (s : Append) (cap : BitVec 32) (priChan : ℕ) (field2 : BitVec 8) :
    SameCaps s.priv (s.chanList a cap priChan field2).priv := by
  unfold Append.chanList
  dsimp only
  split_ifs
  · exact ⟨rfl, rfl⟩
  · exact sameCaps_check a s.priv s.bss
  · exact sameCaps_check a s.priv s.bss
  · exact ⟨rfl, rfl⟩

theorem sameCaps_extCap (s : Append) : SameCaps s.priv (s.extCap a).priv := by
  unfold Append.extCap
  dsimp only
  split_ifs <;> exact ⟨rfl, rfl⟩

theorem sameCaps_records (s : Append) (cap : BitVec 32) (c : HtCap) : SameCaps s.priv (s.records a cap c).priv := by
  unfold Append.records
  dsimp only
  refine SameCaps.trans ?_ (sameCaps_extCap _)
  have hchan : SameCaps s.priv ((s.htCap a c).bss.phtInfo.elim (s.htCap a c) fun i =>
      (s.htCap a c).chanList a cap i.1 i.2).priv := by
    cases (s.htCap a c).bss.phtInfo with
    | none => exact ⟨rfl, rfl⟩
    | some i => exact sameCaps_chanList (s.htCap a c) cap i.1 i.2
  revert hchan
  generalize ((s.htCap a c).bss.phtInfo.elim (s.htCap a c) fun i => (s.htCap a c).chanList a cap i.1 i.2) = s'
  intro hchan
  cases s'.bss.pbssCo2040 with
  | none => exact hchan
  | some v => exact hchan

theorem getLsbD_resetBit_self {n i : ℕ} (x : BitVec n) : (resetBit x i).getLsbD i = false := by
  by_cases h : i < n <;> simp [resetBit, h]

theorem getLsbD_resetBit {n i j : ℕ} (x : BitVec n) (h : x.getLsbD j = false) : (resetBit x i).getLsbD j = false := by
  simp [resetBit, h]

theorem resetChanwidth40_ne {cap : BitVec 32} (h : issuppChanwidth40 cap) : resetChanwidth40 cap ≠ cap := by
  intro heq
  have hbit : (resetChanwidth40 cap).getLsbD 17 = false :=
    getLsbD_resetBit _ (getLsbD_resetBit _ (getLsbD_resetBit_self _))
  rw [heq] at hbit
  exact absurd (h.symm.trans hbit) (by decide)

/-! ## The whole function -/

theorem chained_narrowed (a : Adapter) (p : Private) (d : BssDesc) : (narrowed a p d).Chained := by
  unfold narrowed
  split_ifs
  · exact ⟨⟨[], rfl⟩, rfl, rfl⟩
  · exact ⟨⟨[], rfl⟩, rfl, rfl⟩

theorem narrowed_bg (a : Adapter) (p : Private) (d : BssDesc) :
    (narrowed a p d).priv.usrDot11nDevCapBg =
      if narrows a p d then resetChanwidth40 (p.usrDot11nDevCap d.isBandA) else p.usrDot11nDevCapBg := by
  unfold narrowed localCap
  split_ifs
  · rfl
  · exact (sameCaps_askedFor a p d).1

theorem narrowed_a (a : Adapter) (p : Private) (d : BssDesc) :
    (narrowed a p d).priv.usrDot11nDevCapA = p.usrDot11nDevCapA := by
  unfold narrowed
  split_ifs
  · exact (sameCaps_askedFor a p d).2
  · exact (sameCaps_askedFor a p d).2

theorem issupp_of_narrows (h : narrows a p d = true) : issuppChanwidth40 (p.usrDot11nDevCap d.isBandA) = true := by
  simp only [narrows, Bool.and_eq_true] at h
  exact h.1.2

theorem chained_restore {s : Append} (h : s.Chained) (orig : BitVec 32) : (s.restore orig).Chained := by
  unfold Append.restore
  split_ifs
  · exact ⟨h.written, h.retLen, h.advance⟩
  · exact h

/-- **The records** are a chain at every exit, counted as they are. -/
theorem chain_records (a : Adapter) (p : Private) (hasBuffer : Bool) (pbssDesc : Option BssDesc) :
    (∃ ts, parse (cmdAppend11nTlv a p hasBuffer pbssDesc).written = some ts) ∧
      (cmdAppend11nTlv a p hasBuffer pbssDesc).ret = (cmdAppend11nTlv a p hasBuffer pbssDesc).written.length ∧
        (cmdAppend11nTlv a p hasBuffer pbssDesc).advance = (cmdAppend11nTlv a p hasBuffer pbssDesc).ret := by
  have hdone : ∀ s : Append, s.Chained → (∃ ts, parse s.done.written = some ts) ∧ s.done.ret = s.done.written.length ∧
      s.done.advance = s.done.ret := fun s h =>
    ⟨h.written.imp fun _ hts => parse_eq_some_iff.mpr hts, h.retLen, h.advance⟩
  unfold cmdAppend11nTlv
  split
  · exact ⟨⟨[], rfl⟩, rfl, rfl⟩
  · next d =>
    cases hasBuffer with
    | false => exact ⟨⟨[], rfl⟩, rfl, rfl⟩
    | true =>
      rw [if_neg (by decide)]
      split
      · exact hdone _ (chained_narrowed a p d)
      · exact hdone _ (chained_restore ((chained_narrowed a p d).records _ _) _)

/-- What is left of the capabilities of 2.4 GHz. -/
theorem append_bg (a : Adapter) (p : Private) (d : BssDesc) :
    (cmdAppend11nTlv a p true (some d)).priv.usrDot11nDevCapBg =
      if narrows a p d then
        if d.phtCap.isSome then p.usrDot11nDevCap d.isBandA else resetChanwidth40 (p.usrDot11nDevCap d.isBandA)
      else p.usrDot11nDevCapBg := by
  unfold cmdAppend11nTlv
  dsimp only
  rw [if_neg (by decide)]
  cases hht : d.phtCap with
  | none => exact narrowed_bg a p d
  | some c =>
    have hsame := sameCaps_records (a := a) (narrowed a p d) (localCap a p d) c
    dsimp only
    by_cases hn : narrows a p d = true
    · have hne : p.usrDot11nDevCap d.isBandA ≠ 0 := by
        intro hzero
        have hbit := issupp_of_narrows hn
        rw [hzero] at hbit
        exact absurd hbit (by decide)
      rw [if_pos hn, if_pos hn]
      unfold Append.restore
      rw [if_pos hne]
      rfl
    · rw [if_neg hn, if_neg hn]
      unfold Append.restore
      rw [if_neg (by simp)]
      refine hsame.1.trans ?_
      rw [narrowed_bg, if_neg hn]

theorem append_a (a : Adapter) (p : Private) (hasBuffer : Bool) (pbssDesc : Option BssDesc) :
    (cmdAppend11nTlv a p hasBuffer pbssDesc).priv.usrDot11nDevCapA = p.usrDot11nDevCapA := by
  unfold cmdAppend11nTlv
  split
  · rfl
  · next d =>
    cases hasBuffer with
    | false => rfl
    | true =>
      rw [if_neg (by decide)]
      split
      · exact narrowed_a a p d
      · next c _ =>
        have hsame := sameCaps_records (a := a) (narrowed a p d) (localCap a p d) c
        refine Eq.trans ?_ (hsame.2.trans (narrowed_a a p d))
        unfold Append.restore
        split_ifs <;> rfl

/-- The capabilities of 2.4 GHz are what they were exactly if they are kept. -/
theorem append_bg_eq_iff (a : Adapter) (p : Private) (d : BssDesc) :
    (cmdAppend11nTlv a p true (some d)).priv.usrDot11nDevCapBg = p.usrDot11nDevCapBg ↔ Kept a p d := by
  rw [append_bg]
  unfold Kept
  by_cases hn : narrows a p d = true
  · have hreset := resetChanwidth40_ne (issupp_of_narrows hn)
    rw [if_pos hn]
    unfold Private.usrDot11nDevCap at hreset ⊢
    cases hht : d.phtCap with
    | none =>
      cases hband : d.isBandA with
      | false => simpa [hn, hband] using hreset
      | true => simp [hn, eq_comm]
    | some c => cases hband : d.isBandA <;> simp [hn, eq_comm]
  · rw [if_neg hn]
    simp [hn]

/-- **The records of an association** leave the capabilities of the user alone exactly where nothing is taken out of them, or
it goes back to where it was. -/
theorem leaves_alone_iff (a : Adapter) (p : Private) (hasBuffer : Bool) (pbssDesc : Option BssDesc) :
    LeavesAlone p (cmdAppend11nTlv a p hasBuffer pbssDesc) ↔
      (hasBuffer → ∀ d ∈ pbssDesc, Kept a p d) := by
  obtain ⟨hrecords, hret, hadvance⟩ := chain_records a p hasBuffer pbssDesc
  have ha := append_a a p hasBuffer pbssDesc
  constructor
  · rintro h hbuffer d rfl
    subst hbuffer
    exact (append_bg_eq_iff a p d).mp h.bg
  · intro h
    refine ⟨?_, ha, hrecords, hret, hadvance⟩
    cases pbssDesc with
    | none => rfl
    | some d =>
      cases hasBuffer with
      | false => rfl
      | true => exact (append_bg_eq_iff a p d).mpr (h rfl d rfl)

/-! ## Which records there are -/

theorem check_keeps (a : Adapter) (p : Private) (d : BssDesc) : (checkChanWidthHt40ByRegion a p d).2.extCap = p.extCap ∧
    (checkChanWidthHt40ByRegion a p d).2.configBands = p.configBands := by
  unfold checkChanWidthHt40ByRegion
  split
  · exact ⟨rfl, rfl⟩
  · split_ifs <;> exact ⟨rfl, rfl⟩

/-- Records of these types and lengths are written, and what decides about others stays. -/
structure Adds (s s' : Append) (shapes : List (UInt16 × ℕ)) : Prop where
  written : ∃ ts, s'.written = s.written ++ chain ts ∧ ts.map shape = shapes
  phtInfo : s'.bss.phtInfo = s.bss.phtInfo
  pbssCo2040 : s'.bss.pbssCo2040 = s.bss.pbssCo2040
  pextCap : s'.bss.pextCap = s.bss.pextCap
  extCap : s'.priv.extCap = s.priv.extCap
  configBands : s'.priv.configBands = s.priv.configBands

namespace Adds

variable {s s' s'' : Append} {l l' : List (UInt16 × ℕ)}

theorem refl (s : Append) : Adds s s [] :=
  ⟨⟨[], by rw [chain_nil, List.append_nil], rfl⟩, rfl, rfl, rfl, rfl, rfl⟩

theorem trans (h : Adds s s' l) (h' : Adds s' s'' l') : Adds s s'' (l ++ l') := by
  obtain ⟨ts, hts, hl⟩ := h.written
  obtain ⟨us, hus, hl'⟩ := h'.written
  refine ⟨⟨ts ++ us, ?_, by rw [List.map_append, hl, hl']⟩, h'.phtInfo.trans h.phtInfo,
    h'.pbssCo2040.trans h.pbssCo2040, h'.pextCap.trans h.pextCap, h'.extCap.trans h.extCap,
    h'.configBands.trans h.configBands⟩
  rw [hus, hts, chain_append, List.append_assoc]

theorem record (s : Append) {type len : ℕ} {value : List UInt8} (htype : type < 65536) (hlen : len < 65536)
    (hvalue : value.length = len) : Adds s (s.record type len value) [(UInt16.ofNat type, len)] := by
  subst hvalue
  refine ⟨⟨[⟨UInt16.ofNat type, value, hlen⟩], ?_, rfl⟩, rfl, rfl, rfl, rfl, rfl⟩
  have hnat : (UInt16.ofNat type).toNat = type := by
    rw [UInt16.toNat_ofNat']
    omega
  rw [chain_cons, chain_nil, List.append_nil, octets, hnat]
  rfl

theorem chanList (a : Adapter) (s : Append) (cap : BitVec 32) (priChan : ℕ) (field2 : BitVec 8) :
    Adds s (s.chanList a cap priChan field2) [(0x101, 7)] := by
  have hcheck := check_keeps a s.priv s.bss
  have hrecord : ∀ (t : Append) (c : ChanScanParam), t.written = s.written → t.bss.phtInfo = s.bss.phtInfo →
      t.bss.pbssCo2040 = s.bss.pbssCo2040 → t.bss.pextCap = s.bss.pextCap → t.priv.extCap = s.priv.extCap →
      t.priv.configBands = s.priv.configBands → Adds s (t.record 0x101 7 c.octets) [(0x101, 7)] := by
    intro t c hwritten hinfo hco hext hcap hbands
    obtain ⟨ts, hts, hl⟩ := (@record t 0x101 7 c.octets (by decide) (by decide) rfl).written
    exact ⟨⟨ts, hwritten ▸ hts, hl⟩, hinfo, hco, hext, hcap, hbands⟩
  unfold Append.chanList
  dsimp only
  split_ifs
  · exact hrecord _ _ rfl rfl rfl rfl rfl rfl
  · exact hrecord _ _ rfl rfl rfl rfl hcheck.1 hcheck.2
  · exact hrecord _ _ rfl rfl rfl rfl hcheck.1 hcheck.2
  · exact hrecord _ _ rfl rfl rfl rfl rfl rfl

theorem bssCo2040 (s : Append) :
    Adds s (s.bss.pbssCo2040.elim s s.bssCo2040) (if s.bss.pbssCo2040.isSome then [(72, 1)] else []) := by
  cases s.bss.pbssCo2040 with
  | none => exact refl s
  | some v => exact record s (by decide) (by decide) rfl

theorem channel (a : Adapter) (s : Append) (cap : BitVec 32) :
    Adds s (s.bss.phtInfo.elim s fun i => s.chanList a cap i.1 i.2) (if s.bss.phtInfo.isSome then [(0x101, 7)] else []) := by
  cases s.bss.phtInfo with
  | none => exact refl s
  | some i => exact chanList a s cap i.1 i.2

end Adds

/-- Nothing but the region is there. -/
def plainAdapter : Adapter :=
  ⟨⟨true, 11, fun i => i + 1⟩, 0, false, 0, 0, 0, 0, false, false, ⟨0, 0⟩, ⟨0, 0⟩⟩

/-- A station with 40 MHz in both bands. -/
def station40 : Private :=
  ⟨setBit 0 17, setBit 0 17, 0, 0, 0, 0x22, 0, 0, 0, ⟨0, 0⟩, ⟨0, 0⟩⟩

/-- An access point of 802.11g. -/
def apOf11g : BssDesc :=
  ⟨2, 0, none, none, none, none, false, none, none, none⟩

/-- The station has no 40 MHz in 2.4 GHz any more. -/
theorem not_leaves_alone_11g : ¬LeavesAlone station40 (cmdAppend11nTlv plainAdapter station40 true (some apOf11g)) := by
  intro h
  exact absurd h.bg (by decide)

end WlanDriver.Ht
