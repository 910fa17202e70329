import Mathlib.Algebra.GroupWithZero.Nat
import WlanDriver.Lib.Tlv
import WlanDriver.Scan.Table
import Mathlib.Data.List.Chain

/-!
# Splitting the channel list

`wlan_scan_channel_list` over the octets of the TLV buffer. The records in front of the channel list (`front`) are there
already; each command puts its channels behind them and is handed on with the octets up to there. Channel 14 in Japan
cuts the rates in the buffer, which the next channel puts back.

The channels that share a command are `groups`, and `addAll_group` says what the buffer makes of a group. Where a command
ends is decided by the entry behind the channel that was added, blocked or not, while the channel that is added next is
the next one that is not blocked; `goodGroups_iff` says when that makes no difference.
-/

namespace WlanDriver.Scan

open Tlv Mem
open List hiding chain_cons

/-! ## The channel list -/

/-- `ChanScanParamSet_t`. `chanBand` are the low two bits of `bandcfg`, `first_chan` is bit 5 of the mode. -/
structure ChanScanParamSet where
  bandcfg : UInt8
  chanNumber : UInt8
  chanScanMode : UInt8
  minScanTime : UInt16
  maxScanTime : UInt16
  deriving DecidableEq

namespace ChanScanParamSet

/-- `bandcfg.chanBand`. -/
def chanBand (c : ChanScanParamSet) : UInt8 :=
  c.bandcfg &&& 3

/-- The entry as it is stored. -/
def octets (c : ChanScanParamSet) : List UInt8 :=
  [c.bandcfg, c.chanNumber, c.chanScanMode] ++ (le16 c.minScanTime.toNat ++ le16 c.maxScanTime.toNat)

/-- Set `first_chan`. -/
def markFirst (c : ChanScanParamSet) : ChanScanParamSet :=
  { c with chanScanMode := c.chanScanMode ||| 0x20 }

/-- `first_chan` is set. -/
def Marked (c : ChanScanParamSet) : Prop :=
  c.chanScanMode &&& 0x20 ≠ 0

/-- The end of a list. -/
def terminator : ChanScanParamSet :=
  ⟨0, 0, 0, 0, 0⟩

/-- Channel 1, 6 or 11. -/
def IsolatedNumber (n : UInt8) : Prop :=
  n = 1 ∨ n = 6 ∨ n = 11
  deriving Decidable

@[simp] theorem length_octets (c : ChanScanParamSet) : c.octets.length = 7 :=
  rfl

theorem length_flatMap_octets (g : List ChanScanParamSet) : (g.flatMap octets).length = 7 * g.length := by
  induction g with
  | nil => rfl
  | cons c g ih =>
    rw [flatMap_cons, length_append, ih, length_octets, length_cons]
    omega

end ChanScanParamSet

def band5Ghz : UInt8 := 1

def radioTypeToBand (radioType : UInt8) : Band :=
  if radioType = band5Ghz then .a else .g

def tlvTypeRates : UInt16 := 1

def tlvTypeChanlist : UInt16 := 0x101

/-- The record of a list of channels. -/
def chanRecord (g : List ChanScanParamSet) : Tlv :=
  make tlvTypeChanlist (g.flatMap ChanScanParamSet.octets)

/-- `MAX_SCAN_CFG_ALLOC` : the sizes of the configuration, and of the records of the probes, of the HT capabilities, of four
channels, of the rates, of ten SSIDs, of 200 BSSIDs and of the WPS element. -/
def maxScanCfgAlloc : ℕ := 12 + 6 + 30 + 32 + 18 + 370 + 1204 + 258

def chanTlvMaxSize : ℕ := 32

/-- `MRVDRV_MAX_TOTAL_SCAN_TIME`, in milliseconds. -/
def maxTotalScanTime : ℕ := 19000

/-- `SupportedRates_B`, up to its end. -/
def supportedRatesB : List UInt8 := [0x02, 0x04, 0x0b, 0x16]

theorem supportedRatesB_lt : supportedRatesB.length < 65536 := by
  decide

/-- `COUNTRY_CODE_JP_40` and `COUNTRY_CODE_JP_FF`. -/
def japanCodes : List ℕ := [0x40, 0xff]

/-! ## The function -/

/-- The settings that a scan is made with. `caps` are the capability records for a band. `alloc` and `prepare` tell which
allocations and which calls of `wlan_prepare_cmd` succeed. -/
structure SplitSetup where
  blocked : Band → UInt8 → Bool
  maxChanPerScan : ℕ
  filteredScan : Bool
  regionCode : ℕ
  extScan : Bool
  extScanEnh : Bool
  extScanEnhance : Bool
  caps : UInt8 → List UInt8
  alloc : ℕ → Bool
  prepare : ℕ → Bool

namespace SplitSetup

variable (p : SplitSetup)

/-- The channel is blacklisted or disabled. -/
def Blocks (c : ChanScanParamSet) : Prop :=
  p.blocked (radioTypeToBand c.chanBand) c.chanNumber = true
  deriving Decidable

/-- The entry is channel 14, in Japan. -/
def Japan14 (c : ChanScanParamSet) : Prop :=
  p.regionCode ∈ japanCodes ∧ c.chanNumber = 14
  deriving Decidable

/-- The entry has the rates cut that it is sent with. -/
def CutsRates (c : ChanScanParamSet) : Prop :=
  p.Japan14 c ∧ p.extScanEnhance = false
  deriving Decidable

/-- The enhanced mode, in which the commands are not ended early. -/
def Enhanced : Prop :=
  p.extScan = true ∧ p.extScanEnh = true ∧ p.extScanEnhance = true
  deriving Decidable

/-- The command ends with `c`, before the entry `next`. -/
def DoneEarly (c next : ChanScanParamSet) : Prop :=
  ¬p.Enhanced ∧ (p.filteredScan = false ∧
      (ChanScanParamSet.IsolatedNumber c.chanNumber ∨ ChanScanParamSet.IsolatedNumber next.chanNumber) ∨
    p.Japan14 c ∨ p.Japan14 next) ∨ next.chanBand ≠ c.chanBand
  deriving Decidable

end SplitSetup

/-- The entry that the pointer is moved to. -/
def nextOf (rest : List ChanScanParamSet) : ChanScanParamSet :=
  rest.headD .terminator

/-- The buffer while commands are made. `chanTlv` is where the record of the channels starts and `len` its length; `saved`
is the place it had, and the octets in front of it, before the rates were cut. -/
structure Filling where
  mem : Mem
  chanTlv : ℕ
  len : ℕ
  radioType : UInt8
  saved : Option (ℕ × List UInt8)
  allocs : ℕ

/-- A command as it is handed to `wlan_prepare_cmd` : the octets of `tlv_buf`, and where the record of the channels
starts. -/
structure ScanCmd where
  tlvBuf : List UInt8
  chanTlv : ℕ

namespace ScanCmd

/-- The part in front of the channel list. -/
def front (c : ScanCmd) : List UInt8 :=
  c.tlvBuf.take c.chanTlv

/-- The entries of the channel list. -/
def channels (c : ScanCmd) : List (List UInt8) :=
  (List.range (get16 (c.tlvBuf.drop (c.chanTlv + 2)) / 7)).map fun i =>
    (c.tlvBuf.drop (c.chanTlv + (4 + 7 * i))).take 7

end ScanCmd

namespace Filling

/-- Put the buffer back that channel 14 was sent with. -/
def restore (s : Filling) : Filling :=
  match s.saved with
  | some (temp, bs) =>
    { s with
      mem := (s.mem.write temp (le16 tlvTypeChanlist.toNat ++ le16 0)).write 0 bs
      chanTlv := temp
      len := 0
      saved := none }
  | none => s

/-- Cut the rates at `q` to those of 11b, and move what lies behind them. -/
def cutRates (s : Filling) (q : ℕ) : Filling :=
  let old := 4 + s.mem.get16 (q + 2)
  let mem := (s.mem.write (q + 4) supportedRatesB).write (q + 2) (le16 supportedRatesB.length)
  let chanTlv := s.chanTlv + (4 + supportedRatesB.length) - old
  { s with
    mem := (mem.memmove (q + (4 + supportedRatesB.length)) (q + old) (s.chanTlv - (q + old))).write chanTlv
      (le16 tlvTypeChanlist.toNat ++ le16 0)
    chanTlv := chanTlv
    len := 0 }

/-- Channel 14 in Japan, `none` if the allocation fails. -/
def japan14 (p : SplitSetup) (c : ChanScanParamSet) (s : Filling) : Option Filling :=
  if p.CutsRates c then
    if p.alloc s.allocs then
      let kept := s.mem.read 0 (min s.chanTlv (maxScanCfgAlloc - chanTlvMaxSize))
      match s.mem.findTlv tlvTypeRates.toNat s.chanTlv 0 s.chanTlv with
      | some q => some { s.cutRates q with saved := some (s.chanTlv, kept), allocs := s.allocs + 1 }
      | none => some { s with allocs := s.allocs + 1 }
    else none
  else some s

/-- Add a channel as entry `idx` of the command. -/
def addChannel (p : SplitSetup) (idx : ℕ) (c : ChanScanParamSet) (s : Filling) : Option Filling :=
  (s.restore.japan14 p c).map fun s =>
    { s with
      mem := s.mem.write (s.chanTlv + (4 + 7 * idx)) c.octets
      len := s.len + 7
      radioType := c.chanBand }

/-- Close the command : the length of the record of the channels, and the capabilities behind it. -/
def close (p : SplitSetup) (s : Filling) : Filling × ScanCmd :=
  let mem := (s.mem.write (s.chanTlv + 2) (le16 s.len)).write (s.chanTlv + (4 + s.len)) (p.caps s.radioType)
  ({ s with mem := mem },
    ⟨mem.read 0 (s.chanTlv + (4 + s.len) + (p.caps s.radioType).length), s.chanTlv⟩)

end Filling

/-- The first channel that is added is marked. -/
def marking (first : Bool) (c : ChanScanParamSet) : ChanScanParamSet :=
  if first then c.markFirst else c

/-- The inner loop, `none` if an allocation fails : the entries that are left, the total scan time and whether no channel
was added yet. -/
def fillCommand (p : SplitSetup) : List ChanScanParamSet → ℕ → Bool → Bool → ℕ → Filling →
    Option (List ChanScanParamSet × Bool × ℕ × Filling)
  | [], _, _, first, time, s => some ([], first, time, s)
  | c :: rest, idx, done, first, time, s =>
    if idx < p.maxChanPerScan ∧ done = false then
      if p.Blocks c then fillCommand p rest idx done first time s
      else
        (s.addChannel p idx (marking first c)).bind
          (fillCommand p rest (idx + 1) (decide (p.DoneEarly c (nextOf rest))) false (time + c.maxScanTime.toNat))
    else some (c :: rest, first, time, s)

/-- The outer loop from command `k` on, with `fuel` turns left at most : the commands, and whether all went well. -/
def scanLoop (p : SplitSetup) : ℕ → ℕ → Bool → List ChanScanParamSet → Filling → List ScanCmd × Bool
  | _, _, _, [], _ => ([], true)
  | 0, _, _, _ :: _, _ => ([], false)
  | fuel + 1, k, first, c :: rest, s =>
    match fillCommand p (c :: rest) 0 false first 0 { s with len := 0 } with
    | none => ([], false)
    | some (rest, first, time, s) =>
      if time = 0 ∨ maxTotalScanTime < time then ([], false)
      else
        let (s, cmd) := s.close p
        if p.prepare k then (scanLoop p fuel (k + 1) first rest s).map (cmd :: ·) id else ([], false)

/-- `wlan_scan_channel_list`, on a buffer with `chanTlv` octets in front of the channel list. -/
def scanChannelList (p : SplitSetup) (mem : Mem) (chanTlv : ℕ) (l : List ChanScanParamSet) : List ScanCmd × Bool :=
  if l = [] then ([], false)
  else
    scanLoop p l.length 0 true l
      ⟨mem.write chanTlv (le16 tlvTypeChanlist.toNat), chanTlv, 0, 0, none, 0⟩

/-! ## What should be sent -/

/-- The records with the rates cut to those of 11b. -/
def cutFront : List Tlv → List Tlv
  | [] => []
  | t :: ts => if t.type = tlvTypeRates then ⟨tlvTypeRates, supportedRatesB, supportedRatesB_lt⟩ :: ts else t :: cutFront ts

/-- There is a record of rates. -/
def HasRates (front : List Tlv) : Prop :=
  ∃ t ∈ front, t.type = tlvTypeRates
  deriving Decidable

/-- The list with its first entry marked. -/
def markHead : List ChanScanParamSet → List ChanScanParamSet
  | [] => []
  | c :: cs => c.markFirst :: cs

namespace SplitSetup

variable (p : SplitSetup)

/-- The entries that are not blocked. -/
def allowed (l : List ChanScanParamSet) : List ChanScanParamSet :=
  l.filter fun c => ¬p.Blocks c

/-- The records in front of a list of channels. -/
def frontFor (front : List Tlv) (g : List ChanScanParamSet) : List Tlv :=
  if ∃ c ∈ g, p.CutsRates c then cutFront front else front

/-- How many allocations the cutting of rates comes to. -/
def allocations (l : List ChanScanParamSet) : ℕ :=
  l.countP fun c => ¬p.Blocks c ∧ p.CutsRates c

/-- The commands are the allowed channels `gs`, group by group, up to one that cannot be made. -/
structure Splits (front : List Tlv) (l : List ChanScanParamSet) (r : List ScanCmd × Bool) : Prop where
  fails : r.2 = false → (∀ c ∈ l, p.Blocks c) ∨ p.prepare r.1.length = false ∨
    ∃ k < p.allocations l, p.alloc k = false
  parts : ∃ gs : List (List ChanScanParamSet), gs.flatten = markHead (p.allowed l) ∧
    (∀ i c, gs.flatten[i]? = some c → (c.Marked ↔ i = 0)) ∧
    r.1.map ScanCmd.channels <+: gs.map (List.map ChanScanParamSet.octets) ∧
    r.1.map ScanCmd.front <+: gs.map (fun g => chain (p.frontFor front g)) ∧
    (r.2 = true → r.1.length = gs.length) ∧
    ∀ g ∈ gs, g ≠ [] ∧ g.length ≤ p.maxChanPerScan ∧ (∀ c ∈ g, ∀ d ∈ g, c.chanBand = d.chanBand) ∧
      (p.filteredScan = false → ¬p.Enhanced →
        ∀ c ∈ g, ChanScanParamSet.IsolatedNumber c.chanNumber → g = [c])

/-- Two channels that may not follow each other in a command. -/
def MustCut (front : List Tlv) (c d : ChanScanParamSet) : Prop :=
  c.chanBand ≠ d.chanBand ∨ (p.filteredScan = false ∧ ¬p.Enhanced ∧
    (ChanScanParamSet.IsolatedNumber c.chanNumber ∨ ChanScanParamSet.IsolatedNumber d.chanNumber)) ∨
    p.CutsRates d ∧ HasRates front

/-- Behind the `k`-th channel of a command the entry that is looked at decides as the next allowed one would : if the command
ends there is another channel, and if not the next one may follow. -/
def Sound (front : List Tlv) : ℕ → List ChanScanParamSet → Prop
  | _, [] => True
  | k, c :: rest =>
    if p.Blocks c then Sound front k rest
    else if k + 1 = p.maxChanPerScan ∨ p.DoneEarly c (nextOf rest) then
      (rest = [] ∨ ∃ d ∈ rest, ¬p.Blocks d) ∧ Sound front 0 rest
    else (∀ d ∈ rest.find? fun d => ¬p.Blocks d, ¬p.MustCut front c d) ∧ Sound front (k + 1) rest

end SplitSetup

/-- The rates that are written do not reach into the records behind the rates, or change nothing there. -/
def CutKeepsRest : List Tlv → Prop
  | [] => True
  | t :: ts =>
    if t.type = tlvTypeRates then
      (chain ts).take (4 - t.value.length) = (supportedRatesB.drop t.value.length).take (chain ts).length
    else CutKeepsRest ts

/-! ## The groups -/

namespace SplitSetup

variable {p : SplitSetup} {front : List Tlv} {l rest cur g : List ChanScanParamSet} {c d : ChanScanParamSet} {done : Bool}

variable (p) in
/-- The channels that share the commands, with those in `cur` in the command that is open. -/
def groups : Bool → List ChanScanParamSet → List ChanScanParamSet → List (List ChanScanParamSet)
  | _, cur, [] => [cur]
  | done, cur, c :: rest =>
    if cur.length < p.maxChanPerScan ∧ done = false then
      if p.Blocks c then groups done cur rest
      else groups (decide (p.DoneEarly c (nextOf rest))) (cur ++ [c]) rest
    else if p.Blocks c then cur :: groups false [] rest
    else cur :: groups (decide (p.DoneEarly c (nextOf rest))) [c] rest

/-- A command that is full starts the next one. -/
theorem groups_of_ends (hmax : 0 < p.maxChanPerScan) (h : ¬(cur.length < p.maxChanPerScan ∧ done = false))
    (hl : l ≠ []) : p.groups done cur l = cur :: p.groups false [] l := by
  cases l with
  | nil => exact absurd rfl hl
  | cons c rest =>
    by_cases hb : p.Blocks c
    · simp [groups, h, hb, hmax]
    · simp [groups, h, hb, hmax]

theorem flatten_groups (done : Bool) (cur l : List ChanScanParamSet) :
    (p.groups done cur l).flatten = cur ++ p.allowed l := by
  induction l generalizing done cur with
  | nil => simp [groups, allowed]
  | cons c rest ih =>
    have hallowed : p.allowed (c :: rest) = if p.Blocks c then p.allowed rest else c :: p.allowed rest := by
      unfold allowed
      by_cases hb : p.Blocks c <;> simp [hb]
    rw [groups, hallowed]
    split_ifs <;> simp [ih]

theorem length_groups_le (hmax : 0 < p.maxChanPerScan) (done : Bool) (cur l : List ChanScanParamSet)
    (hcur : cur.length ≤ p.maxChanPerScan) : ∀ g ∈ p.groups done cur l, g.length ≤ p.maxChanPerScan := by
  induction l generalizing done cur with
  | nil => simpa [groups] using hcur
  | cons c rest ih =>
    rw [groups]
    split_ifs with hroom hb hb
    · exact ih _ _ hcur
    · refine ih _ _ ?_
      rw [length_append, length_singleton]
      exact hroom.1
    · exact forall_mem_cons.mpr ⟨hcur, ih _ _ (Nat.zero_le _)⟩
    · exact forall_mem_cons.mpr ⟨hcur, ih _ _ hmax⟩

/-- Channel 14 in Japan is the last of its command, where it cuts the rates. -/
theorem CutsRates.doneEarly (h : p.CutsRates c) (next : ChanScanParamSet) : p.DoneEarly c next :=
  .inl ⟨fun hen => absurd (hen.2.2.symm.trans h.2) (by decide), .inr (.inl h.1)⟩

theorem not_cutsRates_dropLast (done : Bool) (cur l : List ChanScanParamSet) (hcur : ∀ c ∈ cur.dropLast, ¬p.CutsRates c)
    (hlast : done = false → ∀ c ∈ cur, ¬p.CutsRates c) :
    ∀ g ∈ p.groups done cur l, ∀ c ∈ g.dropLast, ¬p.CutsRates c := by
  induction l generalizing done cur with
  | nil => simpa [groups] using hcur
  | cons c rest ih =>
    have hadd : ∀ pre : List ChanScanParamSet, (∀ d ∈ pre, ¬p.CutsRates d) →
        ∀ g ∈ p.groups (decide (p.DoneEarly c (nextOf rest))) (pre ++ [c]) rest, ∀ c ∈ g.dropLast, ¬p.CutsRates c := by
      intro pre hpre
      refine ih _ _ (by simpa using hpre) fun hdone d hd => ?_
      rcases mem_append.mp hd with hd | hd
      · exact hpre d hd
      · rw [mem_singleton.mp hd]
        exact fun hcut => of_decide_eq_false hdone (hcut.doneEarly _)
    rw [groups]
    split_ifs with hroom hb hb
    · exact ih _ _ hcur hlast
    · exact hadd cur (hlast hroom.2)
    · exact forall_mem_cons.mpr ⟨hcur, ih _ _ (by simp) (by simp)⟩
    · exact forall_mem_cons.mpr ⟨hcur, hadd [] (by simp)⟩

/-! ## Groups whose channels may share a command -/

/-- No group is empty, and neighbours may follow each other. -/
def GoodGroups (p : SplitSetup) (front : List Tlv) (gs : List (List ChanScanParamSet)) : Prop :=
  ∀ g ∈ gs, g ≠ [] ∧ g.IsChain fun c d => ¬p.MustCut front c d

theorem sound_cons_blocked {k : ℕ} (hb : p.Blocks c) : p.Sound front k (c :: rest) ↔ p.Sound front k rest := by
  rw [Sound, if_pos hb]

theorem prefix_groups (done : Bool) (cur l : List ChanScanParamSet) : ∃ g ∈ p.groups done cur l, cur <+: g := by
  induction l generalizing done cur with
  | nil => exact ⟨cur, by simp [groups], prefix_rfl⟩
  | cons c rest ih =>
    rw [groups]
    split_ifs
    · exact ih _ _
    · obtain ⟨g, hg, hpre⟩ := ih (decide (p.DoneEarly c (nextOf rest))) (cur ++ [c])
      exact ⟨g, hg, (prefix_append cur [c]).trans hpre⟩
    · exact ⟨cur, mem_cons_self, prefix_rfl⟩
    · exact ⟨cur, mem_cons_self, prefix_rfl⟩

/-- The group that is begun with neighbours that may not follow each other is not good. -/
theorem not_goodGroups (hcur : ¬cur.IsChain fun c d => ¬p.MustCut front c d) :
    ¬p.GoodGroups front (p.groups done cur l) := by
  intro h
  obtain ⟨g, hg, hpre⟩ := prefix_groups (p := p) done cur l
  have hchain := List.IsChain.prefix (h g hg).2 hpre
  exact hcur hchain

theorem goodGroups_cons {gs : List (List ChanScanParamSet)} :
    p.GoodGroups front (g :: gs) ↔ (g ≠ [] ∧ g.IsChain fun c d => ¬p.MustCut front c d) ∧ p.GoodGroups front gs :=
  forall_mem_cons

/-- A command that has ended : the groups behind it are those of a new one. -/
theorem goodGroups_of_ends (hmax : 0 < p.maxChanPerScan) (hends : cur.length + 1 = p.maxChanPerScan ∨ done = true)
    (hchain : (cur ++ [c]).IsChain fun c d => ¬p.MustCut front c d) :
    p.GoodGroups front (p.groups done (cur ++ [c]) l) ↔ l = [] ∨ p.GoodGroups front (p.groups false [] l) := by
  have hcur : cur ++ [c] ≠ [] ∧ (cur ++ [c]).IsChain fun c d => ¬p.MustCut front c d := ⟨by simp, hchain⟩
  have hno : ¬((cur ++ [c]).length < p.maxChanPerScan ∧ done = false) := by
    rw [length_append, length_singleton]
    rintro ⟨hlt, rfl⟩
    rcases hends with hends | hends
    · omega
    · cases hends
  by_cases hl : l = []
  · subst hl
    rw [groups, goodGroups_cons]
    exact ⟨fun _ => .inl rfl, fun _ => ⟨hcur, by simp [GoodGroups]⟩⟩
  · rw [groups_of_ends hmax hno hl, goodGroups_cons]
    exact ⟨fun h => .inr h.2, fun h => ⟨hcur, h.resolve_left hl⟩⟩

/-- The groups from here on are good : in the middle of a command that goes on, and before a new one. -/
theorem goodGroups_iff (hmax : 0 < p.maxChanPerScan) (l : List ChanScanParamSet) :
    (∀ cur c, cur.length + 1 < p.maxChanPerScan → ((cur ++ [c]).IsChain fun c d => ¬p.MustCut front c d) →
      (p.GoodGroups front (p.groups false (cur ++ [c]) l) ↔
        (∀ d ∈ l.find? fun d => ¬p.Blocks d, ¬p.MustCut front c d) ∧ p.Sound front (cur.length + 1) l)) ∧
    (p.GoodGroups front (p.groups false [] l) ↔ (∃ d ∈ l, ¬p.Blocks d) ∧ p.Sound front 0 l) := by
  induction l with
  | nil =>
    refine ⟨fun cur c hroom hchain => ?_, ?_⟩
    · simp [groups, GoodGroups, Sound, hchain]
    · simp [groups, GoodGroups]
  | cons d rest ih =>
    obtain ⟨ihmid, ihnew⟩ := ih
    -- behind `d`, which is not blocked
    have hadd : ∀ cur, cur.length < p.maxChanPerScan → ¬p.Blocks d →
        ((cur ++ [d]).IsChain fun c d => ¬p.MustCut front c d) →
        (p.GoodGroups front (p.groups (decide (p.DoneEarly d (nextOf rest))) (cur ++ [d]) rest) ↔
          p.Sound front cur.length (d :: rest)) := by
      intro cur hlt hb hchain
      rw [Sound, if_neg hb]
      by_cases hends : cur.length + 1 = p.maxChanPerScan ∨ p.DoneEarly d (nextOf rest)
      · rw [if_pos hends, goodGroups_of_ends hmax (hends.imp_right fun h => decide_eq_true h) hchain, ihnew]
        constructor
        · rintro (rfl | ⟨hex, hsound⟩)
          · exact ⟨.inl rfl, trivial⟩
          · exact ⟨.inr hex, hsound⟩
        · rintro ⟨hor, hsound⟩
          exact hor.imp_right fun hex => ⟨hex, hsound⟩
      · rw [if_neg hends, decide_eq_false fun h => hends (.inr h)]
        exact ihmid cur d (by omega) hchain
    refine ⟨fun cur c hroom hchain => ?_, ?_⟩
    · have hgo : (cur ++ [c]).length < p.maxChanPerScan ∧ false = false := by
        rw [length_append, length_singleton]
        exact ⟨hroom, rfl⟩
      by_cases hb : p.Blocks d
      · rw [groups, if_pos hgo, if_pos hb, sound_cons_blocked hb, find?_cons_of_neg (by simpa using hb)]
        exact ihmid cur c hroom hchain
      · rw [groups, if_pos hgo, if_neg hb, find?_cons_of_pos (by simpa using hb)]
        by_cases hcut : p.MustCut front c d
        · refine ⟨fun h => absurd h (not_goodGroups ?_), fun h => absurd hcut (h.1 d rfl)⟩
          rw [append_assoc, singleton_append, isChain_append_cons_cons]
          exact fun h => h.2.1 hcut
        · have hchain' : (cur ++ [c] ++ [d]).IsChain fun c d => ¬p.MustCut front c d := by
            rw [append_assoc, singleton_append, isChain_append_cons_cons]
            exact ⟨hchain, hcut, .singleton d⟩
          rw [hadd _ hgo.1 hb hchain', length_append, length_singleton]
          exact ⟨fun h => ⟨fun e he => Option.some.inj he ▸ hcut, h⟩, fun h => h.2⟩
    · have hgo : ([] : List ChanScanParamSet).length < p.maxChanPerScan ∧ false = false := ⟨hmax, rfl⟩
      by_cases hb : p.Blocks d
      · rw [groups, if_pos hgo, if_pos hb, sound_cons_blocked hb, ihnew]
        simp [hb]
      · rw [groups, if_pos hgo, if_neg hb, hadd [] hmax hb (.singleton d), length_nil]
        simp [hb]

end SplitSetup

/-! ## The loops by groups -/

/-- The group that is begun, and the entries behind it. -/
def takeGroup (p : SplitSetup) : List ChanScanParamSet → ℕ → Bool → List ChanScanParamSet × List ChanScanParamSet
  | [], _, _ => ([], [])
  | c :: rest, idx, done =>
    if idx < p.maxChanPerScan ∧ done = false then
      if p.Blocks c then takeGroup p rest idx done
      else
        let r := takeGroup p rest (idx + 1) (decide (p.DoneEarly c (nextOf rest)))
        (c :: r.1, r.2)
    else ([], c :: rest)

/-- The list with its first entry marked, if it is the first that is sent. -/
def markGroup (first : Bool) (g : List ChanScanParamSet) : List ChanScanParamSet :=
  if first then markHead g else g

/-- Add channels from entry `idx` on. -/
def addAll (p : SplitSetup) : ℕ → List ChanScanParamSet → Filling → Option Filling
  | _, [], s => some s
  | idx, c :: g, s => (s.addChannel p idx c).bind (addAll p (idx + 1) g)

section Loops

variable {p : SplitSetup} {l cur : List ChanScanParamSet} {done first : Bool} {idx : ℕ}

theorem groups_eq (hmax : 0 < p.maxChanPerScan) (done : Bool) (cur l : List ChanScanParamSet) :
    p.groups done cur l = (cur ++ (takeGroup p l cur.length done).1) ::
      if (takeGroup p l cur.length done).2 = [] then [] else p.groups false [] (takeGroup p l cur.length done).2 := by
  induction l generalizing done cur with
  | nil => simp [SplitSetup.groups, takeGroup]
  | cons c rest ih =>
    by_cases hroom : cur.length < p.maxChanPerScan ∧ done = false
    · rw [SplitSetup.groups, if_pos hroom, takeGroup, if_pos hroom]
      split
      · exact ih done cur
      · rw [ih, length_append, length_singleton, append_assoc]
        rfl
    · rw [SplitSetup.groups_of_ends hmax hroom (cons_ne_nil c rest), takeGroup, if_neg hroom]
      simp

theorem markGroup_cons (first : Bool) (c : ChanScanParamSet) (g : List ChanScanParamSet) :
    markGroup first (c :: g) = marking first c :: markGroup false g := by
  cases first <;> rfl

theorem fillCommand_eq (l : List ChanScanParamSet) (idx : ℕ) (done first : Bool) (time : ℕ) (s : Filling) :
    fillCommand p l idx done first time s =
      (addAll p idx (markGroup first (takeGroup p l idx done).1) s).map fun s' =>
        ((takeGroup p l idx done).2, first && (takeGroup p l idx done).1.isEmpty,
          time + ((takeGroup p l idx done).1.map fun c => c.maxScanTime.toNat).sum, s') := by
  induction l generalizing idx done first time s with
  | nil => cases first <;> simp [fillCommand, takeGroup, markGroup, markHead, addAll]
  | cons c rest ih =>
    rw [fillCommand, takeGroup]
    split_ifs with hroom hb
    · exact ih idx done first time s
    · rw [markGroup_cons, addAll]
      cases s.addChannel p idx (marking first c) with
      | none => rfl
      | some s' =>
        rw [Option.bind_some, Option.bind_some, ih]
        simp [Nat.add_assoc]
    · cases first <;> simp [markGroup, markHead, addAll]

theorem takeGroup_sublist (l : List ChanScanParamSet) (idx : ℕ) (done : Bool) :
    ((takeGroup p l idx done).1 ++ (takeGroup p l idx done).2).Sublist l := by
  induction l generalizing idx done with
  | nil => exact List.Sublist.slnil
  | cons c rest ih =>
    rw [takeGroup]
    split_ifs
    · exact (ih _ _).cons c
    · exact (ih _ _).cons_cons c
    · exact List.Sublist.refl _

/-- A turn of the outer loop gets past an entry. -/
theorem length_takeGroup (hmax : 0 < p.maxChanPerScan) (c : ChanScanParamSet) (rest : List ChanScanParamSet) :
    (takeGroup p (c :: rest) 0 false).2.length ≤ rest.length := by
  rw [takeGroup, if_pos ⟨hmax, rfl⟩]
  split
  · exact (sublist_append_right _ _).length_le.trans (takeGroup_sublist rest 0 false).length_le
  · exact (sublist_append_right _ _).length_le.trans (takeGroup_sublist rest _ _).length_le

end Loops

/-! ## The buffer -/

/-- The front with the rates cut, as the buffer has it. -/
def cutOctets : List Tlv → List UInt8
  | [] => []
  | t :: ts =>
    if t.type = tlvTypeRates then
      le16 tlvTypeRates.toNat ++ (le16 supportedRatesB.length ++ (supportedRatesB ++
        ((supportedRatesB.drop t.value.length).take (chain ts).length ++ (chain ts).drop (4 - t.value.length))))
    else t.octets ++ cutOctets ts

theorem cutOctets_append {pre ts : List Tlv} (hpre : ∀ t ∈ pre, t.type ≠ tlvTypeRates) :
    cutOctets (pre ++ ts) = chain pre ++ cutOctets ts := by
  induction pre with
  | nil => rfl
  | cons t pre ih =>
    rw [cons_append, cutOctets, if_neg (hpre t mem_cons_self),
      ih fun u hu => hpre u (mem_cons_of_mem t hu), chain_cons, append_assoc]

/-- The buffer has the records with the rates cut exactly if the rates that are written do not reach too far. -/
theorem cutOctets_eq_iff (front : List Tlv) : cutOctets front = chain (cutFront front) ↔ CutKeepsRest front := by
  induction front with
  | nil => exact iff_of_true rfl trivial
  | cons t ts ih =>
    rw [cutOctets, cutFront, CutKeepsRest]
    split
    · have hlen : ((supportedRatesB.drop t.value.length).take (chain ts).length).length =
          ((chain ts).take (4 - t.value.length)).length := by
        rw [length_take, length_drop, length_take, Nat.min_comm]
        rfl
      rw [chain_cons, octets, append_assoc, append_assoc, append_cancel_left_eq,
        append_cancel_left_eq, append_cancel_left_eq]
      constructor
      · intro h
        have hsplit := h.trans (take_append_drop (4 - t.value.length) (chain ts)).symm
        exact (append_inj_left hsplit hlen).symm
      · intro h
        rw [← h, take_append_drop]
    · rw [chain_cons, append_cancel_left_eq]
      exact ih

/-- The rates are not cut yet : the front is in its place. -/
structure Plain (front : List Tlv) (s : Filling) : Prop where
  saved : s.saved = none
  chanTlv : s.chanTlv = (chain front).length
  read : s.mem.read 0 (chain front).length = chain front
  header : s.mem.read (chain front).length 2 = le16 tlvTypeChanlist.toNat

/-- A command can be begun : the front is in its place, or will be put back. -/
def Ready (front : List Tlv) (s : Filling) : Prop :=
  Plain front s ∨ s.saved = some ((chain front).length, chain front)

/-- The command that is open : `chs` behind the octets `bs`. -/
structure Holds (bs : List UInt8) (chs : List ChanScanParamSet) (s : Filling) : Prop where
  chanTlv : s.chanTlv = bs.length
  read : s.mem.read 0 bs.length = bs
  header : s.mem.read bs.length 2 = le16 tlvTypeChanlist.toNat
  len : s.len = 7 * chs.length
  radio : ∀ c ∈ chs.getLast?, s.radioType = c.chanBand
  entry : ∀ i (hi : i < chs.length), s.mem.read (bs.length + (4 + 7 * i)) 7 = chs[i].octets

/-- The rates are cut, and the command has one entry, for `c`. -/
structure BeginsCut (front : List Tlv) (c : ChanScanParamSet) (s : Filling) : Prop where
  chanTlv : s.chanTlv = (cutOctets front).length
  read : s.mem.read 0 (cutOctets front).length = cutOctets front
  len : s.len = 7
  radio : s.radioType = c.chanBand

section Buffer

variable {p : SplitSetup} {front pre post : List Tlv} {t : Tlv} {s s' : Filling} {bs : List UInt8}
  {chs : List ChanScanParamSet} {c : ChanScanParamSet}

theorem Ready.restore (h : Ready front s) : Plain front s.restore := by
  unfold Filling.restore
  rcases h with h | h
  · rw [h.saved]
    exact h
  · rw [h]
    refine ⟨rfl, rfl, ?_, ?_⟩
    · exact read_write _ 0 (chain front)
    · dsimp only
      rw [read_write_of_disjoint (.inr (by rw [Nat.zero_add])), ← write_append _ (by rw [length_le16]),
        read_write_of_disjoint (.inl (by omega))]
      exact read_write _ _ (le16 tlvTypeChanlist.toNat)

theorem Ready.len_restore (h : Ready front s) (hlen : s.len = 0) : s.restore.len = 0 := by
  unfold Filling.restore
  rcases h with h | h
  · rw [h.saved]
    exact hlen
  · rw [h]

theorem Plain.restore (h : Plain front s) : s.restore = s := by
  unfold Filling.restore
  rw [h.saved]

theorem Plain.holds (h : Plain front s) (hlen : s.len = 0) : Holds (chain front) [] s :=
  ⟨h.chanTlv, h.read, h.header, hlen, by simp, fun i hi => absurd hi (Nat.not_lt_zero i)⟩

/-- Put an entry behind those that are there. -/
theorem Holds.write (h : Holds bs chs s) (c : ChanScanParamSet) :
    Holds bs (chs ++ [c]) { s with
      mem := s.mem.write (s.chanTlv + (4 + 7 * chs.length)) c.octets
      len := s.len + 7
      radioType := c.chanBand } := by
  have hlen := c.length_octets
  refine ⟨h.chanTlv, ?_, ?_, ?_, by simp, fun i hi => ?_⟩
  · rw [h.chanTlv, read_write_of_disjoint (.inl (by omega))]
    exact h.read
  · rw [h.chanTlv, read_write_of_disjoint (.inl (by omega))]
    exact h.header
  · dsimp only
    rw [h.len, length_append, length_singleton]
    omega
  · rw [length_append, length_singleton] at hi
    rw [h.chanTlv]
    rcases Nat.lt_succ_iff_lt_or_eq.mp hi with hlt | rfl
    · rw [read_write_of_disjoint (.inl (by omega)), getElem_append_left hlt]
      exact h.entry i hlt
    · rw [getElem_append_right le_rfl, ← hlen, read_write]
      simp

theorem Plain.write (h : Plain front s) {k len : ℕ} (cs : List UInt8) (radioType : UInt8) :
    Plain front { s with mem := s.mem.write (s.chanTlv + (4 + k)) cs, len := len, radioType := radioType } := by
  refine ⟨h.saved, h.chanTlv, ?_, ?_⟩
  · rw [h.chanTlv, read_write_of_disjoint (.inl (by omega))]
    exact h.read
  · rw [h.chanTlv, read_write_of_disjoint (.inl (by omega))]
    exact h.header

/-- The memory behind the rates, once those of 11b are written. -/
theorem read_behind_rates {m : Mem} {q : ℕ} {cs : List UInt8} {v : ℕ} (h : m.read (q + 4 + v) cs.length = cs) :
    ((m.write (q + 4) supportedRatesB).write (q + 2) (le16 supportedRatesB.length)).read (q + 4 + v) cs.length =
      (supportedRatesB.drop v).take cs.length ++ cs.drop (4 - v) := by
  have hB : supportedRatesB.length = 4 := rfl
  rw [read_write_of_disjoint (.inr (by rw [length_le16]; omega))]
  by_cases hv : 4 ≤ v
  · rw [read_write_of_disjoint (.inr (by omega)), h, drop_eq_nil_of_le (by omega), take_nil,
      nil_append, Nat.sub_eq_zero_of_le hv, drop_zero]
  · have hpart : ∀ k, v + k ≤ 4 → (m.write (q + 4) supportedRatesB).read (q + 4 + v) k =
        (supportedRatesB.drop v).take k := by
      intro k hk
      have hread := read_write m (q + 4) supportedRatesB
      rw [hB] at hread
      rw [read_part (a := q + 4) (n := 4) (by omega) (by omega), hread, Nat.add_sub_cancel_left]
    rcases Nat.le_total cs.length (4 - v) with hle | hle
    · rw [hpart _ (by omega), drop_eq_nil_of_le hle, append_nil]
    · obtain ⟨r, hr⟩ := Nat.exists_eq_add_of_le hle
      rw [hr, read_add, hpart _ (by omega), read_write_of_disjoint (.inr (by omega)),
        take_of_length_le (by rw [length_drop]; omega), take_of_length_le (by rw [length_drop]; omega)]
      congr 1
      rw [← h, drop_read, hr, Nat.add_sub_cancel_left]

theorem Plain.cutRates (h : Plain (pre ++ t :: post) s) (ht : t.type = tlvTypeRates)
    (hpre : ∀ u ∈ pre, u.type ≠ tlvTypeRates) :
    (s.cutRates (chain pre).length).chanTlv = (cutOctets (pre ++ t :: post)).length ∧
      (s.cutRates (chain pre).length).mem.read 0 (cutOctets (pre ++ t :: post)).length = cutOctets (pre ++ t :: post) ∧
      (s.cutRates (chain pre).length).mem.read (cutOctets (pre ++ t :: post)).length 2 =
        le16 tlvTypeChanlist.toNat := by
  obtain ⟨hq, hrest⟩ := read_append_iff.mp (chain_append pre (t :: post) ▸ h.read)
  have hB : supportedRatesB.length = 4 := rfl
  rw [chain_cons, Nat.zero_add, read_append_iff] at hrest
  obtain ⟨hrec, hpost⟩ := hrest
  obtain ⟨-, hlen⟩ := get16_of_octets hrec
  have htype := (read_append_iff.mp hrec).1
  rw [ht, length_le16] at htype
  have hn : s.chanTlv = (chain pre).length + (4 + t.value.length + (chain post).length) := by
    rw [h.chanTlv, chain_append, chain_cons, length_append, length_append, length_octets]
  have hcut : cutOctets (pre ++ t :: post) = chain pre ++ (le16 tlvTypeRates.toNat ++ (le16 supportedRatesB.length ++
      (supportedRatesB ++ ((supportedRatesB.drop t.value.length).take (chain post).length ++
        (chain post).drop (4 - t.value.length))))) := by
    rw [cutOctets_append hpre, cutOctets, if_pos ht]
  have hbehind : ((supportedRatesB.drop t.value.length).take (chain post).length ++
      (chain post).drop (4 - t.value.length)).length = (chain post).length := by
    rw [length_append, length_take, length_drop, length_drop]
    omega
  have hlength : (cutOctets (pre ++ t :: post)).length = (chain pre).length + (8 + (chain post).length) := by
    rw [hcut]
    simp only [length_append, length_le16] at hbehind ⊢
    omega
  have hnew : s.chanTlv + (4 + supportedRatesB.length) - (4 + s.mem.get16 ((chain pre).length + 2)) =
      (cutOctets (pre ++ t :: post)).length := by
    rw [hlen, hn, hlength]
    omega
  rw [length_octets, ← Nat.add_assoc] at hpost
  -- what the move takes with it
  have hmoved := read_behind_rates hpost
  generalize (supportedRatesB.drop t.value.length).take (chain post).length ++
    (chain post).drop (4 - t.value.length) = moved at hcut hbehind hmoved
  refine ⟨hnew, ?_, ?_⟩
  · unfold Filling.cutRates
    dsimp only
    rw [hnew, read_write_of_disjoint (.inl (by rw [Nat.zero_add])), hcut, read_append_iff, Nat.zero_add,
      read_append_iff, read_append_iff, read_append_iff, hbehind]
    have hspace : s.chanTlv - ((chain pre).length + (4 + s.mem.get16 ((chain pre).length + 2))) =
        (chain post).length := by
      rw [hlen, hn]
      omega
    rw [hspace, hlen, memmove, ← Nat.add_assoc (chain pre).length 4 t.value.length, hmoved, hB, length_le16,
      length_le16]
    refine ⟨?_, ?_, ?_, ?_, ?_⟩
    · rw [read_write_of_disjoint (.inl (by omega)), read_write_of_disjoint (.inl (by omega)),
        read_write_of_disjoint (.inl (by omega))]
      exact hq
    · rw [read_write_of_disjoint (.inl (by omega)), read_write_of_disjoint (.inl (by omega)),
        read_write_of_disjoint (.inl (by omega))]
      exact htype
    · rw [read_write_of_disjoint (.inl (by omega))]
      exact read_write _ _ (le16 4)
    · rw [read_write_of_disjoint (.inl (by omega)), read_write_of_disjoint (.inr (by rw [length_le16]))]
      exact read_write _ _ supportedRatesB
    · rw [Nat.add_assoc, Nat.add_assoc, ← hbehind]
      exact read_write _ _ moved
  · unfold Filling.cutRates
    dsimp only
    rw [hnew, ← write_append _ (by rw [length_le16]), read_write_of_disjoint (.inl (by omega))]
    exact read_write _ _ (le16 tlvTypeChanlist.toNat)

theorem exists_split_of_hasRates (h : HasRates front) : ∃ pre t post, front = pre ++ t :: post ∧
    t.type = tlvTypeRates ∧ ∀ u ∈ pre, u.type ≠ tlvTypeRates := by
  obtain ⟨t, ht, htype⟩ := h
  have hsome : (front.find? fun t => t.type = tlvTypeRates).isSome := by
    rw [find?_isSome]
    exact ⟨t, ht, decide_eq_true htype⟩
  obtain ⟨u, hu⟩ := Option.isSome_iff_exists.mp hsome
  obtain ⟨htype, pre, post, rfl, hpre⟩ := find?_eq_some_iff_append.mp hu
  exact ⟨pre, u, post, rfl, of_decide_eq_true htype, fun v hv => by simpa using hpre v hv⟩

theorem ne_toNat {t u : UInt16} (h : t ≠ u) : t.toNat ≠ u.toNat :=
  fun heq => h (UInt16.toNat_inj.mp heq)

/-- A channel with which the rates stay as they are. -/
theorem Plain.japan14 (h : Plain front s) (halloc : ∀ k, p.alloc k = true)
    (hno : ¬(p.CutsRates c ∧ HasRates front)) : ∃ k, s.japan14 p c = some { s with allocs := k } := by
  unfold Filling.japan14
  by_cases hcut : p.CutsRates c
  · have hnone : s.mem.findTlv tlvTypeRates.toNat s.chanTlv 0 s.chanTlv = none := by
      rw [h.chanTlv]
      have hfind : s.mem.findTlv tlvTypeRates.toNat _ 0 _ = none := findTlv_eq_none h.read
        (fun t ht => ne_toNat fun htype => hno ⟨hcut, t, ht, htype⟩) (length_le_chain front)
      rwa [Nat.zero_add] at hfind
    rw [if_pos hcut, if_pos (halloc _), hnone]
    exact ⟨_, rfl⟩
  · rw [if_neg hcut]
    exact ⟨s.allocs, rfl⟩

/-- Channel 14 in Japan : the front has its rates cut, and will be put back. -/
theorem Plain.japan14_cut (h : Plain front s) (halloc : ∀ k, p.alloc k = true) (hcut : p.CutsRates c)
    (hrates : HasRates front) :
    ∃ s', s.japan14 p c = some s' ∧
      ((chain front).length ≤ maxScanCfgAlloc - chanTlvMaxSize → s'.saved = some ((chain front).length, chain front)) ∧
      s'.chanTlv = (cutOctets front).length ∧ s'.mem.read 0 (cutOctets front).length = cutOctets front ∧
      s'.mem.read (cutOctets front).length 2 = le16 tlvTypeChanlist.toNat ∧ s'.len = 0 := by
  obtain ⟨pre, t, post, rfl, htype, hpre⟩ := exists_split_of_hasRates hrates
  have hsome : s.mem.findTlv tlvTypeRates.toNat s.chanTlv 0 s.chanTlv = some (chain pre).length := by
    have hlt : pre.length < s.chanTlv := by
      have hle := length_le_chain (pre ++ t :: post)
      rw [h.chanTlv]
      rw [length_append, length_cons] at hle
      omega
    have hlimit : 0 + (chain (pre ++ t :: post)).length ≤ s.chanTlv := by rw [Nat.zero_add, h.chanTlv]
    have hfind := findTlv_eq_some h.read (fun u hu => ne_toNat (htype ▸ hpre u hu)) hlt hlimit
    rwa [htype, Nat.zero_add] at hfind
  obtain ⟨hchan, hread, hheader⟩ := h.cutRates htype hpre
  unfold Filling.japan14
  rw [if_pos hcut, if_pos (halloc _), hsome]
  refine ⟨_, rfl, fun hfits => ?_, hchan, hread, hheader, rfl⟩
  dsimp only
  rw [h.chanTlv, Nat.min_eq_left hfits, h.read]

theorem Plain.addChannel (h : Plain front s) (halloc : ∀ k, p.alloc k = true)
    (hno : ¬(p.CutsRates c ∧ HasRates front)) (hholds : Holds (chain front) chs s) :
    ∃ s', s.addChannel p chs.length c = some s' ∧ Plain front s' ∧ Holds (chain front) (chs ++ [c]) s' := by
  obtain ⟨k, hk⟩ := h.japan14 halloc hno
  have hholds' : Holds (chain front) chs { s with allocs := k } :=
    { hholds with }
  have hplain : Plain front { s with allocs := k } := { h with }
  unfold Filling.addChannel
  rw [h.restore, hk]
  exact ⟨_, rfl, hplain.write _ _, hholds'.write c⟩

theorem Plain.addChannel_cut (h : Plain front s) (halloc : ∀ k, p.alloc k = true) (hcut : p.CutsRates c)
    (hrates : HasRates front) (idx : ℕ) :
    ∃ s', s.addChannel p idx c = some s' ∧ ((chain front).length ≤ maxScanCfgAlloc - chanTlvMaxSize → Ready front s') ∧
      BeginsCut front c s' ∧ (idx = 0 → Holds (cutOctets front) [c] s') := by
  obtain ⟨s', hs', hsaved, hchan, hread, hheader, hlen⟩ := h.japan14_cut halloc hcut hrates
  unfold Filling.addChannel
  rw [h.restore, hs']
  refine ⟨_, rfl, fun hfits => .inr (hsaved hfits), ⟨hchan, ?_, by dsimp only; rw [hlen], rfl⟩, ?_⟩
  · dsimp only
    rw [hchan, read_write_of_disjoint (.inl (by omega))]
    exact hread
  · rintro rfl
    have hempty : Holds (cutOctets front) [] s' :=
      ⟨hchan, hread, hheader, hlen, by simp, fun i hi => absurd hi (Nat.not_lt_zero i)⟩
    exact hempty.write c

theorem addChannel_restore (h : Ready front s) (idx : ℕ) : s.restore.addChannel p idx c = s.addChannel p idx c := by
  unfold Filling.addChannel
  rw [h.restore.restore]

theorem addAll_restore {g : List ChanScanParamSet} (h : Ready front s) (hg : g ≠ []) :
    Scan.addAll p 0 g s.restore = Scan.addAll p 0 g s := by
  obtain ⟨c, g, rfl⟩ := exists_cons_of_ne_nil hg
  rw [Scan.addAll, Scan.addAll, addChannel_restore h]

/-- Add channels with which the rates stay as they are. -/
theorem Plain.addAll (halloc : ∀ k, p.alloc k = true) : ∀ (g chs : List ChanScanParamSet) (s : Filling),
    Plain front s → (∀ c ∈ g, ¬(p.CutsRates c ∧ HasRates front)) → Holds (chain front) chs s →
      ∃ s', Scan.addAll p chs.length g s = some s' ∧ Plain front s' ∧ Holds (chain front) (chs ++ g) s'
  | [], chs, s, h, _, hholds => ⟨s, rfl, h, by rwa [append_nil]⟩
  | c :: g, chs, s, h, hno, hholds => by
    obtain ⟨s', hs', hplain, hholds'⟩ := h.addChannel halloc (hno c mem_cons_self) hholds
    obtain ⟨s'', hs'', hplain', hholds''⟩ := Plain.addAll halloc g (chs ++ [c]) s' hplain
      (fun d hd => hno d (mem_cons_of_mem c hd)) hholds'
    refine ⟨s'', ?_, hplain', by rwa [append_assoc, singleton_append] at hholds''⟩
    rw [Scan.addAll, hs', Option.bind_some]
    rwa [length_append, length_singleton] at hs''

theorem addAll_append (g g' : List ChanScanParamSet) (idx : ℕ) (s : Filling) :
    Scan.addAll p idx (g ++ g') s = (Scan.addAll p idx g s).bind (Scan.addAll p (idx + g.length) g') := by
  induction g generalizing idx s with
  | nil => rfl
  | cons c g ih =>
    rw [cons_append, Scan.addAll, Scan.addAll, Option.bind_assoc]
    congr 1
    funext s'
    rw [ih, length_cons, Nat.add_assoc, Nat.add_comm 1]

/-- The octets in front of a list of channels. -/
def frontOctets (p : SplitSetup) (front : List Tlv) (g : List ChanScanParamSet) : List UInt8 :=
  if (∃ c ∈ g, p.CutsRates c) ∧ HasRates front then cutOctets front else chain front

/-- The last channel of the group is not its first, and cuts the rates. -/
def Broken (p : SplitSetup) (front : List Tlv) (g : List ChanScanParamSet) : Prop :=
  ∃ pre z, g = pre ++ [z] ∧ pre ≠ [] ∧ p.CutsRates z ∧ HasRates front

theorem broken_concat {g : List ChanScanParamSet} :
    Broken p front (g ++ [c]) ↔ g ≠ [] ∧ p.CutsRates c ∧ HasRates front := by
  refine ⟨?_, fun h => ⟨g, c, rfl, h⟩⟩
  rintro ⟨pre, z, heq, h⟩
  obtain ⟨rfl, hz⟩ := append_inj' heq rfl
  rw [singleton_inj] at hz
  rwa [hz]

/-- What the buffer makes of a group. -/
theorem addAll_group {g : List ChanScanParamSet} (halloc : ∀ k, p.alloc k = true) (hg : g ≠ [])
    (hlast : ∀ c ∈ g.dropLast, ¬p.CutsRates c) (h : Ready front s) (hlen : s.len = 0) :
    ∃ s', Scan.addAll p 0 g s = some s' ∧
      ((chain front).length ≤ maxScanCfgAlloc - chanTlvMaxSize → Ready front s') ∧
      (¬Broken p front g ∧ Holds (frontOctets p front g) g s' ∨ Broken p front g ∧ BeginsCut front (g.getLast hg) s') := by
  obtain ⟨pre, z, rfl⟩ : ∃ pre z, g = pre ++ [z] := ⟨g.dropLast, g.getLast hg, (dropLast_append_getLast hg).symm⟩
  rw [dropLast_concat] at hlast
  have hplain := h.restore
  obtain ⟨s₁, hs₁, hplain₁, hholds₁⟩ := Plain.addAll (p := p) halloc pre [] s.restore hplain
    (fun c hc hcut => hlast c hc hcut.1) (hplain.holds (h.len_restore hlen))
  rw [length_nil] at hs₁
  rw [nil_append] at hholds₁
  rw [← addAll_restore h hg, addAll_append, hs₁, Option.bind_some, Nat.zero_add, getLast_append_singleton]
  by_cases hcut : p.CutsRates z ∧ HasRates front
  · obtain ⟨s₂, hs₂, hready, hbegins, hholds₂⟩ := hplain₁.addChannel_cut halloc hcut.1 hcut.2 pre.length
    refine ⟨s₂, by rw [Scan.addAll, hs₂]; rfl, hready, ?_⟩
    by_cases hpre : pre = []
    · subst hpre
      left
      rw [frontOctets, if_pos ⟨⟨z, by simp, hcut.1⟩, hcut.2⟩]
      exact ⟨fun h => (broken_concat.mp h).1 rfl, hholds₂ rfl⟩
    · exact .inr ⟨broken_concat.mpr ⟨hpre, hcut⟩, hbegins⟩
  · obtain ⟨s₂, hs₂, hplain₂, hholds₂⟩ := hplain₁.addChannel halloc hcut hholds₁
    refine ⟨s₂, by rw [Scan.addAll, hs₂]; rfl, fun _ => .inl hplain₂, .inl ?_⟩
    have hno : ¬((∃ c ∈ pre ++ [z], p.CutsRates c) ∧ HasRates front) := by
      rintro ⟨⟨c, hc, hcutc⟩, hrates⟩
      rcases mem_append.mp hc with hc | hc
      · exact hlast c hc hcutc
      · rw [mem_singleton.mp hc] at hcutc
        exact hcut ⟨hcutc, hrates⟩
    rw [frontOctets, if_neg hno]
    exact ⟨fun h => hcut (broken_concat.mp h).2, hholds₂⟩

/-- The length that is written. -/
theorem get16_close (hlen : s.len < 65536) : get16 ((s.close p).2.tlvBuf.drop ((s.close p).2.chanTlv + 2)) = s.len := by
  unfold Filling.close
  dsimp only
  have hsize : s.chanTlv + (4 + s.len) + (p.caps s.radioType).length - (s.chanTlv + 2) =
      2 + (s.len + (p.caps s.radioType).length) := by
    omega
  have hread : ((s.mem.write (s.chanTlv + 2) (le16 s.len)).write (s.chanTlv + (4 + s.len)) (p.caps s.radioType)).read
      (s.chanTlv + 2) 2 = le16 s.len := by
    rw [read_write_of_disjoint (.inl (by omega))]
    exact read_write _ _ (le16 s.len)
  rw [drop_read, Nat.zero_add, hsize, read_add, hread, get16_le16 hlen]

theorem length_channels_close (hlen : s.len < 65536) : (s.close p).2.channels.length = s.len / 7 := by
  rw [ScanCmd.channels, get16_close hlen, length_map, length_range]

/-- The octets in front of the length stay when the command is closed. -/
theorem read_close {a n : ℕ} (h : a + n ≤ s.chanTlv + 2) : (s.close p).1.mem.read a n = s.mem.read a n := by
  unfold Filling.close
  dsimp only
  rw [read_write_of_disjoint (.inl (by omega)), read_write_of_disjoint (.inl h)]

/-- Entries that lie one behind the other. -/
theorem read_entries {m : Mem} {a : ℕ} (chs : List ChanScanParamSet)
    (h : ∀ i (hi : i < chs.length), m.read (a + 7 * i) 7 = chs[i].octets) :
    m.read a (chs.flatMap ChanScanParamSet.octets).length = chs.flatMap ChanScanParamSet.octets := by
  induction chs generalizing a with
  | nil => rfl
  | cons c chs ih =>
    rw [flatMap_cons, read_append_iff, ChanScanParamSet.length_octets]
    refine ⟨h 0 (Nat.succ_pos _), ih fun i hi => ?_⟩
    have hentry := h (i + 1) (by simpa using hi)
    rwa [getElem_cons_succ, show a + 7 * (i + 1) = a + 7 + 7 * i by omega] at hentry

theorem Holds.close (h : Holds bs chs s) (hlen : chs.length < 256) :
    (s.close p).2.tlvBuf = bs ++ ((chanRecord chs).octets ++ p.caps s.radioType) ∧
      (s.close p).2.chanTlv = bs.length := by
  refine ⟨?_, h.chanTlv⟩
  have hflat := ChanScanParamSet.length_flatMap_octets chs
  have hbuf : (s.close p).2.tlvBuf =
      (s.close p).1.mem.read 0 (bs ++ ((chanRecord chs).octets ++ p.caps s.radioType)).length := by
    rw [chanRecord, octets_make _ (by omega)]
    simp only [length_append, length_le16, hflat]
    show (s.close p).1.mem.read 0 _ = _
    rw [h.len, h.chanTlv]
    congr 1
    omega
  rw [hbuf, read_append_iff, read_append_iff, chanRecord, octets_make _ (by omega), Nat.zero_add,
    read_append_iff, read_append_iff]
  simp only [length_append, length_le16, hflat]
  have hkeep : ∀ {a n : ℕ}, s.chanTlv + 4 ≤ a → a + n ≤ s.chanTlv + (4 + s.len) →
      (s.close p).1.mem.read a n = s.mem.read a n := by
    intro a n ha hn
    unfold Filling.close
    dsimp only
    rw [read_write_of_disjoint (.inl (by omega)), read_write_of_disjoint (.inr (by rw [length_le16]; omega))]
  refine ⟨?_, ⟨?_, ?_, ?_⟩, ?_⟩
  · rw [read_close (by rw [h.chanTlv]; omega), h.read]
  · rw [read_close (by rw [h.chanTlv]), h.header]
  · unfold Filling.close
    dsimp only
    rw [read_write_of_disjoint (.inl (by rw [h.chanTlv]; omega)), h.chanTlv, h.len]
    exact read_write _ _ (le16 (7 * chs.length))
  · rw [hkeep (by rw [h.chanTlv]) (by rw [h.chanTlv, h.len]; omega), ← hflat]
    refine read_entries chs fun i hi => ?_
    rw [← h.entry i hi]
    congr 1
    omega
  · unfold Filling.close
    dsimp only
    rw [h.chanTlv, h.len, show bs.length + (2 + (2 + 7 * chs.length)) = bs.length + (4 + 7 * chs.length) by omega]
    exact read_write _ _ (p.caps s.radioType)

/-- The command with one entry behind the front that is cut. -/
theorem BeginsCut.close (h : BeginsCut front c s) :
    cutOctets front <+: (s.close p).2.tlvBuf ∧
      (s.close p).2.tlvBuf.length = (cutOctets front).length + (11 + (p.caps c.chanBand).length) ∧
      (s.close p).2.chanTlv = (cutOctets front).length := by
  have hbuf : (s.close p).2.tlvBuf =
      (s.close p).1.mem.read 0 ((cutOctets front).length + (11 + (p.caps c.chanBand).length)) := by
    rw [← h.radio, ← h.chanTlv]
    show (s.close p).1.mem.read 0 _ = _
    rw [h.len, Nat.add_assoc]
  refine ⟨?_, by rw [hbuf, length_read], h.chanTlv⟩
  have hread := read_close (p := p) (s := s) (a := 0) (n := s.chanTlv) (by omega)
  rw [h.chanTlv, h.read] at hread
  rw [hbuf, read_add, hread]
  exact prefix_append _ _

theorem Ready.close (h : Ready front s) : Ready front { (s.close p).1 with len := 0 } := by
  rcases h with h | h
  · left
    refine ⟨h.saved, h.chanTlv, ?_, ?_⟩
    · exact (read_close (by rw [h.chanTlv]; omega)).trans h.read
    · exact (read_close (by rw [h.chanTlv])).trans h.header
  · exact .inr h

end Buffer

end WlanDriver.Scan
