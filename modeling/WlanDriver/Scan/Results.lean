import WlanDriver.Scan.Table

/-!
# Scan results

What the driver reads in a scan result : `wlan_interpret_bss_desc_with_ie` walks the elements of a beacon and
notes the ones that are looked at later, `wlan_update_nonTx_bss_desc` does so for the beacon that was generated
for a nontransmitted BSSID, starting from the descriptor of the transmitting BSS. The steps of `system` are one
result of a scan response or an extended report, one profile of a multiple BSSID set, deletions, flushes, the
association with an entry, and the processing of the results once a scan is complete. Aging entries out and deleting
an SSID are runs of deletions (`deletes_scanDeleteAgeoutEntry`, `deletes_scanDeleteSsidTableEntry`, `Deletes.reaches`).

The elements that are generated for a profile are part of the label of its step : any whole elements, in not more
octets than the beacon of the transmitting BSS has.
-/

namespace WlanDriver.Scan

/-! ## Elements -/

/-- `IEEEtypes_ElementId_e`, the elements that are looked at for themselves. -/
def elemSsid : UInt8 := 0

def elemSupportedRates : UInt8 := 1

def elemFhParamSet : UInt8 := 2

def elemDsParamSet : UInt8 := 3

def elemCountryInfo : UInt8 := 7

def elemVendorSpecific : UInt8 := 221

def elemExtension : UInt8 := 255

/-- The element id of a kind. -/
def IeKind.elementId : IeKind → UInt8
  | .wpa | .osen => elemVendorSpecific
  | .rsn => 48
  | .wapi => 68
  | .md => 54
  | .htCap => 45
  | .htInfo => 61
  | .bssCo2040 => 72
  | .extCap => 127
  | .overlapBss => 74
  | .vhtCap => 191
  | .vhtOprat => 192
  | .vhtTxpower => 195
  | .extPwer => 196
  | .extBssload => 193
  | .quietChan => 198
  | .operMode => 199
  | .rsnx => 244
  | .heCap | .heOprat | .muedca | .mbssidConfig => elemExtension

/-- The octets after the header that tell a kind from others with the same id : OUI and type, or the extension. -/
def IeKind.tag : IeKind → List UInt8
  | .wpa => [0x00, 0x50, 0xf2, 0x01]
  | .osen => [0x50, 0x6f, 0x9a, 0x12]
  | .heCap => [35]
  | .heOprat => [36]
  | .muedca => [38]
  | .mbssidConfig => [55]
  | _ => []

def oweOui : List UInt8 :=
  [0x50, 0x6f, 0x9a, 0x1c]

/-- The length of the element at `p`, with its header. -/
def totalIeLen (m : Mem) (p : ℕ) : ℕ :=
  (m (p + 1)).toNat + 2

/-- The kind of the element at `p`. -/
def ieKindAt (m : Mem) (p : ℕ) : Option IeKind :=
  IeKind.all.find? fun k => m p = k.elementId ∧ m.read (p + 2) k.tag.length = k.tag

/-- An OWE element whose SSID length is not one; the walk ends there. -/
def BadOwe (m : Mem) (p : ℕ) : Prop :=
  m p = elemVendorSpecific ∧ m.read (p + 2) 4 = oweOui ∧
    ((m (p + 12)).toNat = 0 ∨ maxSsidLength < (m (p + 12)).toNat)
  deriving Decidable

/-- Note the element at `p` of the beacon at `buf`, if it is of one of the kinds. -/
def noteIe (m : Mem) (buf p : ℕ) (e : BSSDescriptor) : BSSDescriptor :=
  match ieKindAt m p with
  | some k => e.setIe k p buf
  | none => e

/-- The third octet of `phy_param_set`, once the element at `p` was copied to it with its header : an FH element has its
dwell time there, a DS element the channel. -/
def currentChanAt (m : Mem) (p : ℕ) (e : BSSDescriptor) : ℕ :=
  if (m (p + 1)).toNat = 0 then e.currentChan else (m (p + 2)).toNat

/-- One element of the walk of `wlan_interpret_bss_desc_with_ie`, `none` if it makes the beacon invalid. -/
def interpretIe (m : Mem) (buf p : ℕ) (e : BSSDescriptor) : Option BSSDescriptor :=
  let len := (m (p + 1)).toNat
  if m p = elemSsid then
    if maxSsidLength < len then none else some (if e.ssid = [] then { e with ssid := m.read (p + 2) len } else e)
  else if m p = elemSupportedRates then
    if supportedRates < len then none else some e
  else if m p = elemFhParamSet then some { e with currentChan := currentChanAt m p e }
  else if m p = elemDsParamSet then
    some { e with channel := (m (p + 2)).toNat, currentChan := currentChanAt m p e }
  else if m p = elemCountryInfo then
    -- from the country code to `MRVDRV_MAX_SUBBAND_802_11D` subbands of three octets
    if len < 3 ∨ 252 < len then none else some e
  else some (noteIe m buf p e)

/-- The walk over the elements from `p` on. `embeddedOwe` is `IS_FW_SUPPORT_EMBEDDED_OWE`; every turn takes two
octets at least, and `fuel` is not less than `left`. -/
def interpretIes (embeddedOwe : Bool) (m : Mem) (buf : ℕ) : ℕ → ℕ → ℕ → BSSDescriptor → Option BSSDescriptor
  | 0, _, _, e => some e
  | fuel + 1, p, left, e =>
    if left < 2 then some e
    else if left < totalIeLen m p then none
    else if embeddedOwe ∧ BadOwe m p then some e
    else match interpretIe m buf p e with
      | some e => interpretIes embeddedOwe m buf fuel (p + totalIeLen m p) (left - totalIeLen m p) e
      | none => none

/-- `wlan_interpret_bss_desc_with_ie`, on `bytesLeft` octets at `info`. The beacon is preceded by its size and the
BSSID, and in a scan response by the RSSI. -/
def interpretBssDescWithIe (embeddedOwe extScan : Bool) (m : Mem) (info bytesLeft : ℕ) : Option BSSDescriptor :=
  let beaconSize := (m info).toNat + 256 * (m (info + 1)).toNat
  let p := info + 2
  let rssiLen := if extScan then 0 else 1
  let buf := p + macAddrLength + rssiLen
  let size := beaconSize - macAddrLength - rssiLen
  if bytesLeft < 2 ∨ bytesLeft - 2 < beaconSize ∨ beaconSize < macAddrLength + 1 + beaconFixSize then none
  else
    interpretIes embeddedOwe m buf size (buf + beaconFixSize) (size - beaconFixSize)
      { BSSDescriptor.zero with
        macAddress := m.read p macAddrLength
        rssi := if extScan then 0 else (m (p + macAddrLength)).toNat
        pbeaconBuf := buf
        beaconBufSize := size }

/-- The walk of `wlan_update_nonTx_bss_desc`, which checks no lengths. -/
def updateNonTxIes (embeddedOwe : Bool) (m : Mem) (buf : ℕ) : ℕ → ℕ → ℕ → BSSDescriptor → BSSDescriptor
  | 0, _, _, e => e
  | fuel + 1, p, left, e =>
    if left < 2 then e
    else if embeddedOwe ∧ BadOwe m p then e
    else
      let e := if m p = elemSsid then { e with ssid := m.read (p + 2) (m (p + 1)).toNat } else noteIe m buf p e
      updateNonTxIes embeddedOwe m buf fuel (p + totalIeLen m p) (left - totalIeLen m p) e

/-- `wlan_update_nonTx_bss_desc`, with the generated beacon of `ieLen` octets of elements in place at `pbuf`. -/
def updateNonTxBssDesc (embeddedOwe : Bool) (m : Mem) (e : BSSDescriptor) (pbuf ieLen : ℕ) : BSSDescriptor :=
  updateNonTxIes embeddedOwe m pbuf ieLen (pbuf + beaconFixSize) ieLen
    { e with pbeaconBuf := pbuf, beaconBufSize := beaconFixSize + ieLen }

/-- `wlan_gen_multi_bssid_by_bssid_index` : the last octet of the BSSID. -/
def genMultiBssidByBssidIndex (mac : List UInt8) (bssidIndex maxBssidIndicator : ℕ) : List UInt8 :=
  let mask := 255 / 2 ^ (8 - maxBssidIndicator)
  let last := (mac.getD 5 0).toNat
  mac.set 5 (UInt8.ofNat ((last &&& (255 - mask)) ||| ((last + bssidIndex) % 256 &&& mask)))

/-! ## Steps -/

/-- One BSS of a scan response or an extended report : where its octets are, and what comes in other TLVs. The band is
`BAND_G` without a TLV for it. -/
structure Response where
  src : ℕ
  octets : List UInt8
  extScan : Bool
  rssi : ℤ
  channel : ℕ
  band : Band := .g
  blacklisted : Bool
  ageInSecs : ℕ

/-- A whole element. -/
structure Element where
  elementId : UInt8
  data : List UInt8
  length_le : data.length ≤ 255

/-- The octets of an element. -/
def Element.octets (e : Element) : List UInt8 :=
  e.elementId :: UInt8.ofNat e.data.length :: e.data

/-- One profile of a multiple BSSID set : the beacon it came in, its index, the elements that
`wlan_gen_new_ie` made of the two, and where its beacon is put together. -/
structure Profile where
  parent : Response
  bssidIndex : ℕ
  maxBssidIndicator : ℕ
  ies : List Element
  pbuf : ℕ

/-- The generated elements. -/
def Profile.octets (p : Profile) : List UInt8 :=
  p.ies.flatMap Element.octets

/-- The descriptor of a result, once its octets are in memory. -/
def Response.descriptor (r : Response) (embeddedOwe : Bool) (m : Mem) : Option BSSDescriptor :=
  (interpretBssDescWithIe embeddedOwe r.extScan m r.src r.octets.length).map fun e =>
    { e with
      rssi := if r.extScan then r.rssi else e.rssi
      channel := if e.channel = 0 then r.channel else e.channel
      bssBand := r.band
      ageInSecs := r.ageInSecs }

/-- What the driver was loaded with. -/
structure Config where
  embeddedOwe : Bool
  fixedBeaconBuffer : Bool

/-- The steps. Aging entries out and deleting an SSID are runs of `deleteEntry`. `tmpBuf` is what the allocation of a
larger beacon buffer gives, `buf` that of a buffer for the beacon of the current network. -/
inductive Op
  | result (r : Response) (tmpBuf : ℕ)
  | profile (p : Profile) (tmpBuf : ℕ)
  | deleteEntry (idx : ℕ)
  | flush
  | clear
  | associate (idx buf : ℕ)
  | disconnect
  | processResults (compatible : ℕ → Bool) (newEntry : Bool) (buf tmpBuf : ℕ)

namespace Adapter

variable (c : Config) (a : Adapter)

/-- The octets of a result are in memory. -/
def receive (r : Response) : Adapter :=
  { a with mem := a.mem.write r.src r.octets }

/-- One result of a scan. -/
def scanResult (r : Response) (tmpBuf : ℕ) : Adapter :=
  let a := a.receive r
  match r.descriptor c.embeddedOwe a.mem with
  | some e => if r.blacklisted then a else a.addNewEntryToScanTable e tmpBuf
  | none => a

/-- The descriptor of a profile, and the memory with its beacon. -/
def profileDescriptor (p : Profile) (e : BSSDescriptor) : Adapter × BSSDescriptor :=
  let a' := { a with mem := a.mem.write p.pbuf (a.mem.read e.pbeaconBuf beaconFixSize ++ p.octets) }
  (a', updateNonTxBssDesc c.embeddedOwe a'.mem
    { e with macAddress := genMultiBssidByBssidIndex e.macAddress p.bssidIndex p.maxBssidIndicator }
    p.pbuf p.octets.length)

def genNonTransBssidProfile (p : Profile) (tmpBuf : ℕ) : Adapter :=
  let a := a.receive p.parent
  match p.parent.descriptor c.embeddedOwe a.mem with
  | some e =>
    if p.parent.blacklisted ∨ e.beaconBufSize < beaconFixSize + p.octets.length then a
    else
      let (a', new) := a.profileDescriptor c p e
      a'.addNewEntryToScanTable new tmpBuf
  | none => a

/-- `n` octets at `p` that are in no buffer in use. -/
def Free (p n : ℕ) : Prop :=
  0 < p ∧ Apart p n a.bcnBuf a.bcnBufSize ∧ (a.pcurrBcnBuf ≠ 0 → Apart p n a.pcurrBcnBuf a.currBcnSize)
  deriving Decidable

/-- What the allocation of a larger beacon buffer may give. -/
def TmpFree (tmpBuf : ℕ) : Prop :=
  tmpBuf = 0 ∨ a.Free tmpBuf (a.bcnBufSize + defaultScanBeaconBuffer)
  deriving Decidable

/-- A larger beacon buffer is apart from other octets in use. -/
def TmpApart (tmpBuf p n : ℕ) : Prop :=
  tmpBuf = 0 ∨ Apart tmpBuf (a.bcnBufSize + defaultScanBeaconBuffer) p n
  deriving Decidable

/-- What the allocation of a buffer for the current beacon may give; the old one is free by then. -/
def BufFree (buf n : ℕ) : Prop :=
  buf = 0 ∨ Apart buf n a.bcnBuf a.bcnBufSize
  deriving Decidable

/-- What can happen : results come in memory that is not in use, allocations give such memory, and an index is one
of an entry. -/
def Enabled : Op → Prop
  | .result r tmpBuf => a.Free r.src r.octets.length ∧ a.TmpFree tmpBuf ∧ a.TmpApart tmpBuf r.src r.octets.length
  | .profile p tmpBuf =>
    a.Free p.parent.src p.parent.octets.length ∧ a.Free p.pbuf (beaconFixSize + p.octets.length) ∧
      Apart p.pbuf (beaconFixSize + p.octets.length) p.parent.src p.parent.octets.length ∧ a.TmpFree tmpBuf ∧
      a.TmpApart tmpBuf p.pbuf (beaconFixSize + p.octets.length)
  | .deleteEntry idx => idx < a.numInScanTable
  | .associate idx buf => idx < a.numInScanTable ∧ a.BufFree buf (a.pscanTable idx).beaconBufSize
  | .processResults compatible _ buf tmpBuf =>
    (∀ j ∈ a.findBssidInList compatible a.currBss.macAddress, a.BufFree buf (a.pscanTable j).beaconBufSize) ∧
      a.TmpFree tmpBuf
  | _ => True

instance decidableEnabled (o) : Decidable (a.Enabled o) := by
  unfold Enabled
  split <;> infer_instance

/-- `wlan_ret_802_11_associate` with the response of the network in slot `idx` : the current network is a copy of the
entry, with the channel of its `phy_param_set`. -/
def attempt (idx : ℕ) : Adapter :=
  { a with
    currBss := { a.pscanTable idx with channel := (a.pscanTable idx).currentChan }
    mediaConnected := true }

/-- What a step does. -/
def apply : Op → Adapter
  | .result r tmpBuf => a.scanResult c r tmpBuf
  | .profile p tmpBuf => a.genNonTransBssidProfile c p tmpBuf
  | .deleteEntry idx => a.scanDeleteTableEntry idx
  | .flush => a.flushScanTable
  | .clear => a.clearScanTable
  | .associate idx buf => (a.attempt idx).saveCurrBcn buf
  | .disconnect => { a with mediaConnected := false }
  | .processResults compatible newEntry buf tmpBuf => a.scanProcessResults compatible newEntry buf tmpBuf

/-- The adapter as it comes up : an empty table and an empty buffer, of the size `wlan_allocate_adapter` chose. -/
def Init : Prop :=
  a.numInScanTable = 0 ∧ a.pscanTable = (fun _ => .zero) ∧ 0 < a.bcnBuf ∧
    a.bcnBufSize = (if c.fixedBeaconBuffer then maxScanBeaconBuffer else defaultScanBeaconBuffer) ∧
    a.pbcnBufEnd = a.bcnBuf ∧ a.mediaConnected = false ∧ a.currBss = .zero ∧ a.pcurrBcnBuf = 0 ∧ a.currBcnSize = 0

end Adapter

/-- The scan table over time. -/
def system (c : Config) : System Adapter Op where
  init := Adapter.Init c
  step a o := if a.Enabled o then some (a.apply c o) else none

/-! ## Runs of deletions -/

namespace Adapter

variable {c : Config} {a : Adapter} {idx : ℕ}

theorem step_of_enabled {o : Op} (h : a.Enabled o) : (system c).step a o = some (a.apply c o) :=
  if_pos h

@[simp] theorem scanDeleteTableEntry_numInScanTable (a : Adapter) (idx : ℕ) :
    (a.scanDeleteTableEntry idx).numInScanTable = a.numInScanTable - 1 := by
  rw [scanDeleteTableEntry]
  split <;> rfl

/-- One entry after the other is deleted. -/
def Deletes : Adapter → Adapter → Prop :=
  Relation.ReflTransGen fun a b => ∃ idx < a.numInScanTable, b = a.scanDeleteTableEntry idx

theorem Deletes.refl : Deletes a a :=
  Relation.ReflTransGen.refl

theorem Deletes.trans {b d : Adapter} (h : Deletes a b) (h' : Deletes b d) : Deletes a d :=
  Relation.ReflTransGen.trans h h'

theorem deletes_scanDeleteTableEntry (h : idx < a.numInScanTable) : Deletes a (a.scanDeleteTableEntry idx) :=
  .single ⟨idx, h, rfl⟩

theorem ageoutLoop_succ (now fuel i idx : ℕ) (a : Adapter) : ageoutLoop now (fuel + 1) i idx a =
    if i < a.numInScanTable then
      ageoutLoop now fuel (i + 1) (idx - 1)
        (if ((a.pscanTable idx).ageInSecs + scanResultAgeout) % 2 ^ 32 < now then a.scanDeleteTableEntry idx else a)
    else a :=
  rfl

/-- Every turn of the age-out loop is at an entry : the index goes down with each turn, the number of entries with
some of them. -/
theorem deletes_ageoutLoop (now : ℕ) : ∀ (fuel i idx : ℕ) (a : Adapter),
    (i < a.numInScanTable → idx + 1 ≤ a.numInScanTable ∧ a.numInScanTable ≤ idx + i + 1) →
      Deletes a (ageoutLoop now fuel i idx a)
  | 0, _, _, _, _ => .refl
  | fuel + 1, i, idx, a, h => by
    rw [ageoutLoop_succ]
    split
    · next hi =>
      obtain ⟨hidx, hnum⟩ := h hi
      split
      · refine (deletes_scanDeleteTableEntry hidx).trans (deletes_ageoutLoop now fuel _ _ _ fun hi' => ?_)
        rw [scanDeleteTableEntry_numInScanTable] at hi' ⊢
        omega
      · exact deletes_ageoutLoop now fuel _ _ _ fun hi' => by omega
    · exact .refl

theorem deletes_scanDeleteAgeoutEntry (a : Adapter) (now : ℕ) :
    Deletes a (a.scanDeleteAgeoutEntry now) :=
  deletes_ageoutLoop now _ _ _ a fun h => by omega

theorem findSsidInList_lt {ssid : List UInt8} (h : a.findSsidInList ssid = some idx) : idx < a.numInScanTable := by
  have hfold : ∀ (l : List ℕ) (r : Option ℕ × ℕ), (∀ i ∈ r.1, i < a.numInScanTable) →
      (∀ i ∈ l, i < a.numInScanTable) →
      ∀ i ∈ (l.foldl (fun (p : Option ℕ × ℕ) i =>
        let rssi := scanRssi (a.pscanTable i).rssi
        if (a.pscanTable i).ssid = ssid ∧ p.2 < rssi then (some i, rssi % 256) else p) r).1,
        i < a.numInScanTable := by
    intro l
    induction l with
    | nil => exact fun r hr _ => hr
    | cons i l ih =>
      intro r hr hl
      refine ih _ ?_ fun j hj => hl j (List.mem_cons_of_mem i hj)
      dsimp only
      split
      · intro j hj
        obtain rfl := Option.some.inj hj
        exact hl _ List.mem_cons_self
      · exact hr
  exact hfold _ (none, 0) (by simp) (fun i hi => List.mem_range.mp hi) idx h

theorem deletes_scanDeleteSsidTableEntry (a : Adapter) (ssid : List UInt8) :
    Deletes a (a.scanDeleteSsidTableEntry ssid) := by
  have hloop : ∀ (fuel : ℕ) (a : Adapter), Deletes a (deleteSsidLoop ssid fuel a) := by
    intro fuel
    induction fuel with
    | zero => exact fun _ => .refl
    | succ fuel ih =>
      intro a
      rw [deleteSsidLoop]
      split
      · next hidx => exact (deletes_scanDeleteTableEntry (findSsidInList_lt hidx)).trans (ih _)
      · exact .refl
  exact hloop _ a

end Adapter

end WlanDriver.Scan
