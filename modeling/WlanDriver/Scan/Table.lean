import Mathlib.Data.Fintype.Defs
import WlanDriver.Lib.Regions
import WlanDriver.Lib.System

/-!
# The scan table

The table of the networks that were found (`pscan_table`) and the buffer their beacons are stored in
(`bcn_buf`), of `mlan_scan.c`. A descriptor keeps the place of its beacon and, for each kind of element that is
looked at later, a pointer to the element and its offset in the beacon. Storing, replacing and deleting a beacon
moves the beacons behind it, and with them all these pointers.

Addresses are natural numbers, `MNULL` is `0`, and a pointer below `0` does not occur. What an allocation gives is
part of the label of a step, `0` if it fails; a buffer it gives has no address in common with one in use.
-/

namespace WlanDriver.Scan

/-- `MRVDRV_MAX_BSSID_LIST`. -/
def maxBssidList : ℕ := 200

def maxScanBeaconBuffer : ℕ := 102400

def defaultScanBeaconBuffer : ℕ := 4096

def scanBeaconEntryPad : ℕ := 6

/-- `BEACON_FIX_SIZE` : time stamp, interval and capability. -/
def beaconFixSize : ℕ := 12

/-- `MLAN_MAC_ADDR_LENGTH`. -/
def macAddrLength : ℕ := 6

/-- `MRVDRV_MAX_SSID_LENGTH`. -/
def maxSsidLength : ℕ := 32

/-- `WLAN_SUPPORTED_RATES`. -/
def supportedRates : ℕ := 14

/-- `SCAN_RESULT_AGEOUT`, in seconds. -/
def scanResultAgeout : ℕ := 10

/-! ## Descriptors -/

/-- The elements whose place a descriptor keeps. -/
inductive IeKind
  | wpa | rsn | wapi | osen | md | htCap | htInfo | bssCo2040 | extCap | overlapBss | vhtCap | vhtOprat
  | vhtTxpower | extPwer | extBssload | quietChan | operMode | heCap | heOprat | muedca | rsnx | mbssidConfig
  deriving DecidableEq, Repr

/-- All kinds. -/
def IeKind.all : List IeKind :=
  [.wpa, .rsn, .wapi, .osen, .md, .htCap, .htInfo, .bssCo2040, .extCap, .overlapBss, .vhtCap, .vhtOprat,
    .vhtTxpower, .extPwer, .extBssload, .quietChan, .operMode, .heCap, .heOprat, .muedca, .rsnx, .mbssidConfig]

instance IeKind.fintype : Fintype IeKind :=
  ⟨⟨IeKind.all, by decide⟩, fun k => by cases k <;> decide⟩

/-- What `radio_type_to_band` gives : `BAND_G` or `BAND_A`. -/
inductive Band
  | g | a
  deriving DecidableEq, Repr

/-- `BSSDescriptor_t`. `currentChan` is the octet of `phy_param_set` for the current channel. `stored` is a history
variable : the beacon that was last stored for the entry. -/
structure BSSDescriptor where
  macAddress : List UInt8
  ssid : List UInt8
  channel : ℕ
  currentChan : ℕ
  bssBand : Band
  rssi : ℤ
  ageInSecs : ℕ
  pbeaconBuf : ℕ
  beaconBufSize : ℕ
  beaconBufSizeMax : ℕ
  pie : IeKind → ℕ
  offset : IeKind → ℕ
  stored : Option (List UInt8)

namespace BSSDescriptor

/-- A descriptor of zeros. -/
def zero : BSSDescriptor :=
  ⟨[], [], 0, 0, .g, 0, 0, 0, 0, 0, fun _ => 0, fun _ => 0, none⟩

/-- Note an element at `p`, of the beacon at `buf` : pointer and offset (`t_u16`). -/
def setIe (e : BSSDescriptor) (k : IeKind) (p buf : ℕ) : BSSDescriptor :=
  { e with pie := Function.update e.pie k p, offset := Function.update e.offset k ((p - buf) % 65536) }

/-- Point the elements of the kinds in `l` to the descriptor's own beacon, those that are there. -/
def rebase (l : IeKind → Bool) (e : BSSDescriptor) : BSSDescriptor :=
  { e with pie := fun k => if l k ∧ e.pie k ≠ 0 then e.pbeaconBuf + e.offset k else e.pie k }

end BSSDescriptor

/-- The pointers that `wlan_adjust_ie_in_bss_entry` clears without a beacon. -/
def IeKind.clearedByAdjust : IeKind → Bool
  | .vhtCap | .vhtOprat | .vhtTxpower | .extPwer | .extBssload | .quietChan | .operMode => false
  | .heCap | .heOprat | .rsnx => false
  | _ => true

/-- The pointers that `wlan_scan_delete_table_entry` moves. -/
def IeKind.movedByDelete : IeKind → Bool
  | .rsnx => false
  | _ => true

/-- The pointers that `wlan_update_curr_bcn` moves. -/
def IeKind.movedByUpdateCurrBcn : IeKind → Bool
  | .wapi | .osen => false
  | _ => true

def adjustIeInBssEntry (e : BSSDescriptor) : BSSDescriptor :=
  if e.pbeaconBuf ≠ 0 then e.rebase fun _ => true
  else
    { e with
      pie := fun k => if k.clearedByAdjust then 0 else e.pie k
      offset := fun k => if k.clearedByAdjust then 0 else e.offset k }

/-- An SSID of zeros, of any length. -/
def Hidden (ssid : List UInt8) : Prop :=
  ∀ b ∈ ssid, b = 0
  deriving Decidable

/-- An entry that `new` takes the place of : the same BSSID, and the same SSID or an SSID of zeros. -/
def Duplicate (new e : BSSDescriptor) : Prop :=
  new.macAddress = e.macAddress ∧ (new.ssid = e.ssid ∨ Hidden e.ssid)
  deriving Decidable

/-- The scan table and the beacon buffer of the adapter, and what an interface keeps of its current network. -/
structure Adapter where
  mem : Mem
  pscanTable : ℕ → BSSDescriptor
  numInScanTable : ℕ
  bcnBuf : ℕ
  bcnBufSize : ℕ
  pbcnBufEnd : ℕ
  mediaConnected : Bool
  currBss : BSSDescriptor
  pcurrBcnBuf : ℕ
  currBcnSize : ℕ

namespace Adapter

/-! ## Storing a beacon -/

/-- Move the beacons of the first `n` entries that lie past `store`. -/
def adjustPast (a : Adapter) (store n : ℕ) (move : ℕ → ℕ) : ℕ → BSSDescriptor := fun i =>
  let e := a.pscanTable i
  if i < n ∧ store < e.pbeaconBuf then adjustIeInBssEntry { e with pbeaconBuf := move e.pbeaconBuf } else e

/-- A storage failure keeps the old beacon : its size, and its offsets for the elements of the new one. Nothing was
stored for a new network that takes over the last slot so. -/
def keepOldBeacon (old new : BSSDescriptor) : BSSDescriptor :=
  { new with
    beaconBufSize := old.beaconBufSize
    offset := fun k => if new.pie k ≠ 0 then old.offset k else new.offset k
    stored := if Duplicate new old then old.stored else none }

/-- The octets of a beacon. -/
def beaconOf (a : Adapter) (e : BSSDescriptor) : List UInt8 :=
  a.mem.read e.pbeaconBuf e.beaconBufSize

/-- The memory after the new beacon was copied to `store`. -/
def copyBeacon (m : Mem) (store : ℕ) (new : BSSDescriptor) : Mem :=
  m.write store (m.read new.pbeaconBuf new.beaconBufSize)

/-- `wlan_ret_802_11_scan_store_beacon`, where the entry has a beacon already. -/
def replaceBeacon (a : Adapter) (idx n : ℕ) (new : BSSDescriptor) : Adapter × BSSDescriptor :=
  let old := a.pscanTable idx
  let store := old.pbeaconBuf
  let newSize := new.beaconBufSize
  let oldSize := old.beaconBufSize
  let space := old.beaconBufSizeMax
  let copied := { new with stored := some (a.beaconOf new) }
  let (a', new') : Adapter × BSSDescriptor :=
    if newSize = oldSize then
      ({ a with mem := copyBeacon a.mem store new }, { copied with beaconBufSizeMax := space })
    else if newSize ≤ space then
      let m := copyBeacon a.mem store new
      if oldSize < space ∧ newSize ≤ oldSize then
        -- the old beacon left room of its own : the entry shrinks to the old size
        ({ a with
            mem := m.memmove (store + oldSize) (store + space) (a.pbcnBufEnd - (store + space))
            pbcnBufEnd := a.pbcnBufEnd - (space - oldSize)
            pscanTable := a.adjustPast store n (· - (space - oldSize)) },
          { copied with beaconBufSizeMax := oldSize })
      else ({ a with mem := m }, { copied with beaconBufSizeMax := space })
    else if a.pbcnBufEnd + (newSize - space) < a.bcnBuf + a.bcnBufSize then
      let m := a.mem.memmove (store + newSize) (store + space) (a.pbcnBufEnd - (store + space))
      ({ a with
          mem := copyBeacon m store new
          pbcnBufEnd := a.pbcnBufEnd + (newSize - space)
          pscanTable := a.adjustPast store n (· + (newSize - space)) },
        { copied with beaconBufSizeMax := newSize })
    else (a, keepOldBeacon old { new with beaconBufSizeMax := space })
  (a', adjustIeInBssEntry { new' with pbeaconBuf := store })

/-- No room for the beacon, and the buffer may still grow. -/
def WantsEnlargement (a : Adapter) (new : BSSDescriptor) : Prop :=
  a.bcnBuf + a.bcnBufSize < a.pbcnBufEnd + new.beaconBufSize + scanBeaconEntryPad ∧
    a.bcnBufSize < maxScanBeaconBuffer
  deriving Decidable

/-- Copy the beacons of the first `n` entries to a larger buffer at `tmpBuf`. The offset is a `t_u32`, so that an
entry without a beacon gets a pointer too. -/
def enlarge (a : Adapter) (n tmpBuf : ℕ) : Adapter :=
  { a with
    mem := a.mem.memmove tmpBuf a.bcnBuf (a.pbcnBufEnd - a.bcnBuf)
    pscanTable := fun i =>
      let e := a.pscanTable i
      if i < n then
        adjustIeInBssEntry
          { e with pbeaconBuf := tmpBuf + (e.pbeaconBuf + 2 ^ 64 - a.bcnBuf) % 2 ^ 32 }
      else e
    pbcnBufEnd := tmpBuf + (a.pbcnBufEnd - a.bcnBuf)
    bcnBuf := tmpBuf
    bcnBufSize := a.bcnBufSize + defaultScanBeaconBuffer }

/-- `wlan_ret_802_11_scan_store_beacon`, where the entry has no beacon yet. `tmpBuf` is what the allocation of a
larger buffer gives. -/
def appendBeacon (a : Adapter) (n : ℕ) (new : BSSDescriptor) (tmpBuf : ℕ) : Adapter × BSSDescriptor :=
  let a := if a.WantsEnlargement new ∧ tmpBuf ≠ 0 then a.enlarge n tmpBuf else a
  if a.pbcnBufEnd + new.beaconBufSize + scanBeaconEntryPad < a.bcnBuf + a.bcnBufSize then
    let max := new.beaconBufSize + scanBeaconEntryPad
    ({ a with mem := copyBeacon a.mem a.pbcnBufEnd new, pbcnBufEnd := a.pbcnBufEnd + max },
      adjustIeInBssEntry
        { new with pbeaconBuf := a.pbcnBufEnd, beaconBufSizeMax := max, stored := some (a.beaconOf new) })
  else
    (a, adjustIeInBssEntry { new with pbeaconBuf := 0, beaconBufSize := 0, beaconBufSizeMax := 0 })

/-- `wlan_ret_802_11_scan_store_beacon`. -/
def scanStoreBeacon (a : Adapter) (idx n : ℕ) (new : BSSDescriptor) (tmpBuf : ℕ) : Adapter × BSSDescriptor :=
  if (a.pscanTable idx).pbeaconBuf ≠ 0 then a.replaceBeacon idx n new else a.appendBeacon n new tmpBuf

/-- Store the beacon of `new` for entry `idx` of `n`, and put the descriptor there; without room for the beacon
the entry is dropped. -/
def storeEntry (a : Adapter) (idx n : ℕ) (new : BSSDescriptor) (tmpBuf : ℕ) : Adapter :=
  let (a', new') := a.scanStoreBeacon idx n new tmpBuf
  if new'.pbeaconBuf = 0 then { a' with numInScanTable := n - 1 }
  else { a' with pscanTable := Function.update a'.pscanTable idx new', numInScanTable := n }

/-! ## Adding a network -/

/-- The search for an entry of the same network : the first one, or the number of entries. -/
def searchDuplicate (a : Adapter) (new : BSSDescriptor) : ℕ :=
  ((List.range a.numInScanTable).find? fun i => Duplicate new (a.pscanTable i)).getD a.numInScanTable

/-- `wlan_add_new_entry_to_scan_table`, and the same steps of `wlan_ret_802_11_scan`. -/
def addNewEntryToScanTable (a : Adapter) (new : BSSDescriptor) (tmpBuf : ℕ) : Adapter :=
  let idx := a.searchDuplicate new
  if idx = a.numInScanTable then
    if idx = maxBssidList then a.storeEntry (idx - 1) a.numInScanTable new tmpBuf
    else a.storeEntry idx (a.numInScanTable + 1) new tmpBuf
  else if new.channel ≠ (a.pscanTable idx).channel ∧ (a.pscanTable idx).rssi < new.rssi then a
  else a.storeEntry idx a.numInScanTable new tmpBuf

/-! ## Deleting entries -/

def scanDeleteTableEntry (a : Adapter) (idx : ℕ) : Adapter :=
  let adj := (a.pscanTable idx).beaconBufSizeMax
  let store := (a.pscanTable idx).pbeaconBuf
  let a := if adj ≠ 0 then
      { a with
        mem := a.mem.memmove store (store + adj) (a.pbcnBufEnd - adj - store)
        pbcnBufEnd := a.pbcnBufEnd - adj }
    else a
  let moved : ℕ → BSSDescriptor := fun i =>
    let e := a.pscanTable (i + 1)
    if e.pbeaconBuf ≠ 0 then ({ e with pbeaconBuf := e.pbeaconBuf - adj }).rebase IeKind.movedByDelete else e
  { a with
    pscanTable := fun i =>
      if i + 1 = a.numInScanTable then .zero
      else if idx ≤ i ∧ i + 1 < a.numInScanTable then moved i
      else a.pscanTable i
    numInScanTable := a.numInScanTable - 1 }

/-- The loop of `wlan_scan_delete_ageout_entry` from its `i`-th turn on, with `fuel` turns left at most. The sum is a
`t_u32`. -/
def ageoutLoop (now : ℕ) : ℕ → ℕ → ℕ → Adapter → Adapter
  | 0, _, _, a => a
  | fuel + 1, i, idx, a =>
    if i < a.numInScanTable then
      let a' := if ((a.pscanTable idx).ageInSecs + scanResultAgeout) % 2 ^ 32 < now then a.scanDeleteTableEntry idx
        else a
      ageoutLoop now fuel (i + 1) (idx - 1) a'
    else a

/-- `wlan_scan_delete_ageout_entry` : from the last entry down. -/
def scanDeleteAgeoutEntry (a : Adapter) (now : ℕ) : Adapter :=
  ageoutLoop now a.numInScanTable 0 (a.numInScanTable - 1) a

def scanRssi (rssi : ℤ) : ℕ :=
  256 - (rssi % 256).toNat

/-- `wlan_find_ssid_in_list` with `MLAN_BSS_MODE_AUTO` and no BSSID : the strongest of the entries with the SSID. -/
def findSsidInList (a : Adapter) (ssid : List UInt8) : Option ℕ :=
  ((List.range a.numInScanTable).foldl (fun (net, bestRssi) i =>
      let rssi := scanRssi (a.pscanTable i).rssi
      if (a.pscanTable i).ssid = ssid ∧ bestRssi < rssi then (some i, rssi % 256) else (net, bestRssi))
    ((none, 0) : Option ℕ × ℕ)).1

/-- The loop of `wlan_scan_delete_ssid_table_entry`, with `fuel` turns left at most. -/
def deleteSsidLoop (ssid : List UInt8) : ℕ → Adapter → Adapter
  | 0, a => a
  | fuel + 1, a =>
    match a.findSsidInList ssid with
    | some idx => deleteSsidLoop ssid fuel (a.scanDeleteTableEntry idx)
    | none => a

/-- `wlan_scan_delete_ssid_table_entry` : every turn deletes an entry, so there are no more turns than entries. -/
def scanDeleteSsidTableEntry (a : Adapter) (ssid : List UInt8) : Adapter :=
  deleteSsidLoop ssid a.numInScanTable a

/-- Clear the previous results, as before a background scan query of `wlan_scan_ioctl`. -/
def clearScanTable (a : Adapter) : Adapter :=
  { a with pscanTable := fun _ => .zero, numInScanTable := 0, pbcnBufEnd := a.bcnBuf }

def flushScanTable (a : Adapter) : Adapter :=
  { a.clearScanTable with mem := a.mem.write a.bcnBuf (List.replicate a.bcnBufSize 0) }

/-! ## The current network -/

def updateCurrBcn (a : Adapter) : Adapter :=
  if a.pcurrBcnBuf ≠ 0 ∧ a.currBcnSize ≠ 0 then
    { a with
      currBss := ({ a.currBss with
        pbeaconBuf := a.pcurrBcnBuf
        beaconBufSize := a.currBcnSize
        beaconBufSizeMax := a.currBcnSize }).rebase IeKind.movedByUpdateCurrBcn }
  else a

/-- `wlan_save_curr_bcn`. `buf` is what the allocation gives, if one is made. -/
def saveCurrBcn (a : Adapter) (buf : ℕ) : Adapter :=
  let e := a.currBss
  let a :=
    if a.pcurrBcnBuf = 0 ∨ a.currBcnSize ≠ e.beaconBufSize ∨
        a.mem.read a.pcurrBcnBuf e.beaconBufSize ≠ a.mem.read e.pbeaconBuf e.beaconBufSize then
      let a := { a with pcurrBcnBuf := 0, currBcnSize := e.beaconBufSize }
      if e.beaconBufSize ≠ 0 ∧ buf ≠ 0 then
        { a with pcurrBcnBuf := buf, mem := copyBeacon a.mem buf e }
      else a
    else a
  a.updateCurrBcn

/-- `wlan_find_bssid_in_list`. `compatible` are the entries that the band and the security settings of the
interface allow. -/
def findBssidInList (a : Adapter) (compatible : ℕ → Bool) (bssid : List UInt8) : Option ℕ :=
  (List.range a.numInScanTable).find? fun i => (a.pscanTable i).macAddress = bssid ∧ compatible i

/-- Entry `j` of the table gets the SSID of the current network, which becomes a copy of it. -/
def adoptEntry (a : Adapter) (j : ℕ) : Adapter :=
  let e := { a.pscanTable j with ssid := a.currBss.ssid }
  { a with pscanTable := Function.update a.pscanTable j e, currBss := e }

/-- The entry in slot `i` is left without a beacon. -/
def emptySlot (a : Adapter) (i : ℕ) : Adapter :=
  { a with pscanTable := Function.update a.pscanTable i { a.pscanTable i with pbeaconBuf := 0 } }

/-- The current network is appended to the table, or put into its last slot. -/
def appendCurrBss (a : Adapter) (tmpBuf : ℕ) : Adapter :=
  let n := if a.numInScanTable < maxBssidList then a.numInScanTable + 1 else a.numInScanTable
  (a.emptySlot (n - 1)).storeEntry (n - 1) n a.currBss tmpBuf

/-- `wlan_scan_process_results`. `newEntry` tells whether a descriptor could be allocated. -/
def scanProcessResults (a : Adapter) (compatible : ℕ → Bool) (newEntry : Bool) (buf tmpBuf : ℕ) : Adapter :=
  if a.mediaConnected then
    match a.findBssidInList compatible a.currBss.macAddress with
    | some j => (a.adoptEntry j).saveCurrBcn buf
    | none => if a.pcurrBcnBuf ≠ 0 ∧ a.currBcnSize ≠ 0 ∧ newEntry then a.appendCurrBss tmpBuf else a
  else a

end Adapter

end WlanDriver.Scan
