import Mathlib.Data.List.Sort
import WlanDriver.Lib.Keyed
import WlanDriver.Lib.System

/-!
# The learned regulatory table

`parsed_region_chan` is what 802.11d learns from scans : each descriptor of the scan table brings its own channel
(`wlan_11d_update_chan_pwr_table`), and the channels that its country element expands to (`wlan_11d_process_country_info`);
behind the last one the table is sorted. `wlan_11d_get_scan_type` answers from it.

History : `scanned` has the channel and band of each descriptor since the table was cleared.

`learned_table_valid` : the table fits, has a channel and band once, is sorted, and knows of an access point only where one
was scanned. The answer is active for a channel with radar detection only if one was, where the band has `BAND_A` and there
is a station; the source asks for both before it looks at `ap_seen`.
-/

namespace WlanDriver.Dfs

open List Option Keyed

def maxNoOfChan : ℕ := 40

def countryCodeLen : ℕ := 3

def bandA : ℕ := 4

/-- `BAND_B | BAND_G | BAND_GN | BAND_GAC`. -/
def bandsBG : ℕ := 1 ||| 2 ||| 8 ||| 32

/-- `BAND_A | BAND_AN | BAND_AAC`. -/
def bandsA : ℕ := 4 ||| 16 ||| 64

/-- `channel_freq_power_UN_BG`. -/
def channelsUnBg : List ℕ := [1, 2, 3, 4, 5, 6, 7, 8, 9, 10, 11, 12, 13, 14]

/-- `channel_freq_power_UN_AJ`. -/
def channelsUnAj : List ℕ :=
  [8, 12, 16, 34, 36, 38, 40, 42, 44, 46, 48, 52, 56, 60, 64, 100, 104, 108, 112, 116, 120, 124, 128, 132, 136, 140, 144,
    149, 153, 157, 161, 165, 169, 173, 177]

/-- `chan_power_11d_t`. -/
structure ChanPower where
  chan : ℕ
  band : ℕ
  pwr : ℕ
  apSeen : Bool
  deriving DecidableEq

/-- What an entry is searched by. -/
def ChanPower.key (e : ChanPower) : ℕ × ℕ :=
  (e.chan, e.band)

/-- An access point is seen, with a power. -/
def ChanPower.see (pwr : ℕ) (e : ChanPower) : ChanPower :=
  { e with pwr := min e.pwr pwr, apSeen := true }

/-- A country element has a power. -/
def ChanPower.setPwr (pwr : ℕ) (e : ChanPower) : ChanPower :=
  { e with pwr := pwr }

@[simp] theorem ChanPower.key_see (pwr : ℕ) (e : ChanPower) : (e.see pwr).key = e.key :=
  rfl

@[simp] theorem ChanPower.key_setPwr (pwr : ℕ) (e : ChanPower) : (e.setPwr pwr).key = e.key :=
  rfl

/-- `IEEEtypes_SubbandSet_t`. -/
structure SubbandSet where
  firstChan : ℕ
  noOfChan : ℕ
  maxTxPwr : ℕ

/-- `IEEEtypes_CountryInfoFullSet_t`. -/
structure CountryInfo where
  /-- The first octet of `country_code`. -/
  countryCode : ℕ
  len : ℕ
  /-- What is read at an index; the last one that a length gives is behind `sub_band`. -/
  subBand : ℕ → SubbandSet

/-- What is read of a descriptor. -/
structure BssDesc where
  /-- `phy_param_set.ds_param_set.current_chan`. -/
  currentChan : ℕ
  bssBand : ℕ
  countryInfo : CountryInfo

/-- The channels of a band, if it is one. -/
def channelsUn (band : ℕ) : Option (List ℕ) :=
  if band &&& bandsBG ≠ 0 then some channelsUnBg
  else if band &&& bandsA ≠ 0 then some channelsUnAj
  else none

/-- `wlan_11d_get_chan`. -/
def getChan (band firstChan noOfChan : ℕ) : Option ℕ :=
  (channelsUn band).bind fun cfp => (cfp.findIdx? (· = firstChan)).bind fun i => cfp[i + noOfChan]?

/-- The channels of a subband, from the `i`-th on; `rest` are left. -/
def parseSubband (band firstChan pwr : ℕ) : ℕ → ℕ → List ChanPower → ℕ → List ChanPower × ℕ
  | 0, _, chans, last => (chans, last)
  | rest + 1, i, chans, last =>
    if chans.length < maxNoOfChan then
      match getChan band firstChan i with
      | none => (chans, last)
      | some c => parseSubband band firstChan pwr rest (i + 1) (chans ++ [⟨c, band, pwr, false⟩]) c
    else (chans, last)

/-- One subband : it has to begin behind the last channel. -/
def parseStep (band : ℕ) (s : List ChanPower × ℕ) (b : SubbandSet) : List ChanPower × ℕ :=
  if b.firstChan ≤ s.2 then s else parseSubband band b.firstChan b.maxTxPwr b.noOfChan 0 s.1 s.2

/-- `wlan_11d_parse_domain_info`. -/
def parseDomainInfo (ci : CountryInfo) (band : ℕ) : Option (List ChanPower) :=
  if ci.countryCode = 0 ∨ ci.len ≤ countryCodeLen then none
  else some (((List.range ((ci.len - countryCodeLen) / 3)).map ci.subBand).foldl (parseStep band) ([], 0)).1

/-- The regulatory table. -/
structure Region where
  chanPwr : List ChanPower
  scanned : List (ℕ × ℕ)

namespace Region

variable (s : Region)

/-- `wlan_11d_update_chan_pwr_table`, where `txPwr` is `wlan_get_txpwr_of_chan_from_cfp`. -/
def updateChanPwrTable (txPwr : ℕ → ℕ → ℕ) (d : BssDesc) : Region :=
  let k := (d.currentChan, d.bssBand)
  let pwr := txPwr d.bssBand d.currentChan
  if pwr = 0 then s
  else if (look ChanPower.key k s.chanPwr).isSome then
    { s with chanPwr := modify ChanPower.key k (ChanPower.see pwr) s.chanPwr }
  else if s.chanPwr.length < maxNoOfChan then
    { s with chanPwr := s.chanPwr ++ [⟨d.currentChan, d.bssBand, pwr, true⟩] }
  else s

/-- One channel of a country element : the table, and what is added behind it. -/
def mergeStep (t : List ChanPower × List ChanPower) (e : ChanPower) : List ChanPower × List ChanPower :=
  if (look ChanPower.key e.key t.1).isSome then
    (modify ChanPower.key e.key (ChanPower.setPwr e.pwr) t.1, t.2)
  else if t.1.length + t.2.length < maxNoOfChan then (t.1, t.2 ++ [{ e with apSeen := false }])
  else t

/-- `wlan_11d_process_country_info`. -/
def processCountryInfo (d : BssDesc) : Region :=
  match parseDomainInfo d.countryInfo d.bssBand with
  | none => s
  | some chans =>
    if s.chanPwr.length ≠ 0 then
      let t := chans.foldl mergeStep (s.chanPwr, [])
      { s with chanPwr := t.1 ++ t.2 }
    else { s with chanPwr := chans }

/-- Entries go before those of a higher channel; the sorted part is kept with its last entry first. -/
def Behind (e e' : ChanPower) : Prop :=
  e'.chan ≤ e.chan

instance : DecidableRel Behind :=
  fun e e' => inferInstanceAs (Decidable (e'.chan ≤ e.chan))

/-- `wlan_11d_sort_parsed_region_chan`. -/
def sortParsedRegionChan : Region :=
  { s with chanPwr := (s.chanPwr.foldl (fun l e => l.orderedInsert Behind e) []).reverse }

/-- One descriptor of the scan table. -/
def learn (txPwr : ℕ → ℕ → ℕ) (d : BssDesc) : Region :=
  let s' := ({ s with scanned := (d.currentChan, d.bssBand) :: s.scanned } : Region).updateChanPwrTable txPwr d
  if d.countryInfo.countryCode ≠ 0 ∧ countryCodeLen < d.countryInfo.len then s'.processCountryInfo d else s'

/-- `wlan_11d_prepare_dnld_domain_info_cmd`. -/
def prepareDnldDomainInfoCmd (txPwr : ℕ → ℕ → ℕ) (enabled : Bool) (table : List BssDesc) : Region :=
  if enabled ∧ table ≠ [] then (table.foldl (fun s d => s.learn txPwr d) s).sortParsedRegionChan else s

/-- The table is cleared. -/
def clear : Region :=
  ⟨[], []⟩

/-- `wlan_11d_channel_known`. `radarRequired` is `wlan_11h_radar_detect_required` of the station, if there is one. -/
def channelKnown (radarRequired : Option (ℕ → Bool)) (band chan : ℕ) : Bool :=
  match look ChanPower.key (chan, band) s.chanPwr with
  | none => false
  | some e => if band &&& bandA ≠ 0 ∧ radarRequired.any (fun required => required chan) then e.apSeen else true

/-- `wlan_11d_get_scan_type` answers `MLAN_SCAN_TYPE_ACTIVE`. -/
def scanTypeActive (radarRequired : Option (ℕ → Bool)) (band chan : ℕ) : Bool :=
  s.channelKnown radarRequired band chan

/-- The steps. -/
inductive Op
  | prepareDnldDomainInfoCmd (enabled : Bool) (table : List BssDesc)
  /-- `wlan_11d_clear_parsedtable`. -/
  | clearParsedtable (enabled : Bool)
  /-- `wlan_11d_enable`, and whether its command could be prepared. -/
  | enable (ok : Bool)

/-- One step. -/
def step (txPwr : ℕ → ℕ → ℕ) : Op → Option Region
  | .prepareDnldDomainInfoCmd enabled table => some (s.prepareDnldDomainInfoCmd txPwr enabled table)
  | .clearParsedtable enabled => some (if enabled then clear else s)
  | .enable ok => some (if ok then clear else s)

/-- The runs of the table. -/
def regionSystem (txPwr : ℕ → ℕ → ℕ) : System Region Op where
  init s := s = clear
  step := fun s op => s.step txPwr op

/-- The table is what was learned. -/
structure Valid : Prop where
  fits : s.chanPwr.length ≤ maxNoOfChan
  once : Keyed.Distinct ChanPower.key s.chanPwr
  sorted : s.chanPwr.Pairwise fun e e' => e.chan ≤ e'.chan
  seen : ∀ e ∈ s.chanPwr, e.apSeen → e.key ∈ s.scanned
  /-- A channel with radar detection is scanned actively only behind an access point. -/
  active : ∀ (required : ℕ → Bool) band chan, band &&& bandA ≠ 0 → required chan →
    s.scanTypeActive (some required) band chan → (chan, band) ∈ s.scanned

end Region

/-! ## Country elements -/

variable {band first i c c' last : ℕ} {chans : List ChanPower}

theorem channelsUn_ascending {cfp : List ℕ} (h : channelsUn band = some cfp) : cfp.Pairwise (· < ·) := by
  unfold channelsUn at h
  split_ifs at h
  · exact some.inj h ▸ (by decide)
  · exact some.inj h ▸ (by decide)

theorem getChan_eq_some : getChan band first i = some c ↔ ∃ cfp k, channelsUn band = some cfp ∧
    cfp.findIdx? (· = first) = some k ∧ cfp[k + i]? = some c := by
  simp [getChan, bind_eq_some_iff]

theorem getChan_zero (h : getChan band first 0 = some c) : c = first := by
  obtain ⟨cfp, k, -, hk, hc⟩ := getChan_eq_some.mp h
  obtain ⟨hlt, hfirst, -⟩ := findIdx?_eq_some_iff_getElem.mp hk
  rw [Nat.add_zero, getElem?_eq_getElem hlt] at hc
  exact (some.inj hc).symm.trans (by simpa using hfirst)

theorem getChan_lt (h : getChan band first i = some c) (h' : getChan band first (i + 1) = some c') : c < c' := by
  obtain ⟨cfp, k, hcfp, hk, hc⟩ := getChan_eq_some.mp h
  obtain ⟨cfp', k', hcfp', hk', hc'⟩ := getChan_eq_some.mp h'
  obtain rfl : cfp = cfp' := some.inj (hcfp.symm.trans hcfp')
  obtain rfl : k = k' := some.inj (hk.symm.trans hk')
  obtain ⟨hlt, rfl⟩ := List.getElem?_eq_some_iff.mp hc
  obtain ⟨hlt', rfl⟩ := List.getElem?_eq_some_iff.mp hc'
  exact pairwise_iff_getElem.mp (channelsUn_ascending hcfp) _ _ hlt hlt' (by omega)

/-- What a country element has been expanded to, up to the channel `last`. -/
structure Expanded (band : ℕ) (chans : List ChanPower) (last : ℕ) : Prop where
  fits : chans.length ≤ maxNoOfChan
  ascending : chans.Pairwise fun e e' => e.chan < e'.chan
  le_last : ∀ e ∈ chans, e.chan ≤ last
  band_eq : ∀ e ∈ chans, e.band = band
  unseen : ∀ e ∈ chans, e.apSeen = false

namespace Expanded

theorem snoc (h : Expanded band chans last) (hlen : chans.length < maxNoOfChan) (hc : last < c) (pwr : ℕ) :
    Expanded band (chans ++ [⟨c, band, pwr, false⟩]) c := by
  refine ⟨by simpa [Nat.succ_le_iff] using hlen, ?_, ?_, ?_, ?_⟩
  · refine pairwise_append.mpr ⟨h.ascending, pairwise_singleton _ _, fun e he e' he' => ?_⟩
    rw [mem_singleton.mp he']
    exact (h.le_last e he).trans_lt hc
  · intro e he
    rcases mem_append.mp he with he | he
    · exact (h.le_last e he).trans hc.le
    · rw [mem_singleton.mp he]
  · intro e he
    rcases mem_append.mp he with he | he
    · exact h.band_eq e he
    · rw [mem_singleton.mp he]
  · intro e he
    rcases mem_append.mp he with he | he
    · exact h.unseen e he
    · rw [mem_singleton.mp he]

theorem parseSubband (pwr rest : ℕ) (h : Expanded band chans last)
    (hnext : ∀ c, getChan band first i = some c → last < c) :
    Expanded band (parseSubband band first pwr rest i chans last).1 (parseSubband band first pwr rest i chans last).2 := by
  induction rest generalizing i chans last with
  | zero => exact h
  | succ rest ih =>
    unfold Dfs.parseSubband
    split_ifs with hlen
    · cases hc : getChan band first i with
      | none => exact h
      | some c => exact ih (h.snoc hlen (hnext c hc) pwr) fun c' hc' => getChan_lt hc hc'
    · exact h

theorem parseStep {t : List ChanPower × ℕ} (h : Expanded band t.1 t.2) (b : SubbandSet) :
    Expanded band (parseStep band t b).1 (parseStep band t b).2 := by
  unfold Dfs.parseStep
  split_ifs with hb
  · exact h
  · exact h.parseSubband _ _ fun c hc => getChan_zero hc ▸ Nat.lt_of_not_le hb

theorem foldl {l : List SubbandSet} {t : List ChanPower × ℕ} (h : Expanded band t.1 t.2) :
    Expanded band (l.foldl (Dfs.parseStep band) t).1 (l.foldl (Dfs.parseStep band) t).2 := by
  induction l generalizing t with
  | nil => exact h
  | cons b l ih => exact ih (h.parseStep b)

/-- No channel comes twice. -/
theorem distinct (h : Expanded band chans last) : Keyed.Distinct ChanPower.key chans := by
  refine List.Pairwise.map ChanPower.key (fun e e' hlt heq => ?_) h.ascending
  have hchan : e.chan = e'.chan := congrArg Prod.fst heq
  omega

end Expanded

/-- A country element expands to ascending channels. -/
theorem expanded_of_parse {ci : CountryInfo} (h : parseDomainInfo ci band = some chans) : ∃ last, Expanded band chans last := by
  obtain ⟨-, hchans⟩ := ite_none_left_eq_some.mp h
  rw [← some.inj hchans]
  exact ⟨_, Expanded.foldl ⟨by decide, .nil, by simp, by simp, by simp⟩⟩

/-! ## The table -/

namespace Region

variable {s : Region} {txPwr : ℕ → ℕ → ℕ} {d : BssDesc}

/-- What learning keeps, whatever the order of the entries is. -/
structure Learned (s : Region) : Prop where
  fits : s.chanPwr.length ≤ maxNoOfChan
  once : Keyed.Distinct ChanPower.key s.chanPwr
  seen : ∀ e ∈ s.chanPwr, e.apSeen → e.key ∈ s.scanned

/-- The channel of the descriptor itself. -/
theorem Learned.update (h : s.Learned) (hd : (d.currentChan, d.bssBand) ∈ s.scanned) :
    (s.updateChanPwrTable txPwr d).Learned := by
  unfold updateChanPwrTable
  dsimp only
  split_ifs with hpwr hfound hroom
  · exact h
  · refine ⟨(length_modify (ChanPower.key_see _)).trans_le h.fits, h.once.modify (ChanPower.key_see _),
      fun e he hseen => ?_⟩
    rcases mem_modify he with he | ⟨x, -, hx, rfl⟩
    · exact h.seen e he hseen
    · exact hx ▸ hd
  · refine ⟨by simpa [Nat.succ_le_iff] using hroom, ?_, fun e he hseen => ?_⟩
    · rw [Bool.not_eq_true, isSome_eq_false_iff, isNone_iff_eq_none] at hfound
      exact h.once.append_singleton hfound
    · rcases mem_append.mp he with he | he
      · exact h.seen e he hseen
      · rw [mem_singleton.mp he]
        exact hd
  · exact h

/-- What merging the rest of a country element, whose channels are new behind the table, needs. -/
structure Merging (scanned : List (ℕ × ℕ)) (t : List ChanPower × List ChanPower) (rest : List ChanPower) : Prop where
  learned : Learned ⟨t.1 ++ t.2, scanned⟩
  new : ∀ x ∈ t.2, ∀ e ∈ rest, x.key ≠ e.key

theorem Merging.step {scanned : List (ℕ × ℕ)} {t : List ChanPower × List ChanPower} {e : ChanPower}
    {rest : List ChanPower} (h : Merging scanned t (e :: rest)) (he : ∀ x ∈ rest, e.key ≠ x.key) :
    Merging scanned (mergeStep t e) rest := by
  have hnew : ∀ x ∈ t.2, ∀ y ∈ rest, x.key ≠ y.key := fun x hx y hy => h.new x hx y (mem_cons_of_mem _ hy)
  unfold mergeStep
  split_ifs with hfound hroom
  · have hkeys : (modify ChanPower.key e.key (ChanPower.setPwr e.pwr) t.1 ++ t.2).map ChanPower.key =
        (t.1 ++ t.2).map ChanPower.key := by
      rw [map_append, map_key_modify (ChanPower.key_setPwr _), map_append]
    refine ⟨⟨?_, ?_, fun x hx hseen => ?_⟩, hnew⟩
    · have hlen := congrArg List.length hkeys
      rw [length_map, length_map] at hlen
      exact hlen.trans_le h.learned.fits
    · unfold Keyed.Distinct
      dsimp only
      rw [hkeys]
      exact h.learned.once
    · rcases mem_append.mp hx with hx | hx
      · rcases mem_modify hx with hx | ⟨y, hy, -, rfl⟩
        · exact h.learned.seen x (mem_append_left _ hx) hseen
        · exact h.learned.seen y (mem_append_left _ hy) hseen
      · exact h.learned.seen x (mem_append_right _ hx) hseen
  · have hnone : look ChanPower.key e.key (t.1 ++ t.2) = none := by
      rw [Bool.not_eq_true, isSome_eq_false_iff, isNone_iff_eq_none] at hfound
      refine look_eq_none.mpr fun x hx => ?_
      rcases mem_append.mp hx with hx | hx
      · exact look_eq_none.mp hfound x hx
      · exact h.new x hx e mem_cons_self
    refine ⟨⟨?_, ?_, fun x hx hseen => ?_⟩, fun x hx y hy => ?_⟩
    · simp only [length_append, length_singleton]
      omega
    · dsimp only
      rw [← append_assoc]
      exact h.learned.once.append_singleton (a := { e with apSeen := false }) hnone
    · rw [← append_assoc] at hx
      rcases mem_append.mp hx with hx | hx
      · exact h.learned.seen x hx hseen
      · rw [mem_singleton.mp hx] at hseen
        exact absurd hseen (by simp)
    · rcases mem_append.mp hx with hx | hx
      · exact hnew x hx y hy
      · rw [mem_singleton.mp hx]
        exact he y hy
  · exact ⟨h.learned, hnew⟩

theorem Merging.foldl {scanned : List (ℕ × ℕ)} {t : List ChanPower × List ChanPower} {rest : List ChanPower}
    (h : Merging scanned t rest) (hrest : Keyed.Distinct ChanPower.key rest) :
    Learned ⟨(rest.foldl mergeStep t).1 ++ (rest.foldl mergeStep t).2, scanned⟩ := by
  induction rest generalizing t with
  | nil => exact h.learned
  | cons e rest ih =>
    rw [Keyed.Distinct, map_cons, nodup_cons] at hrest
    exact ih (h.step fun x hx heq => hrest.1 (heq ▸ mem_map_of_mem hx)) hrest.2

/-- The channels of a country element. -/
theorem Learned.process (h : s.Learned) : (s.processCountryInfo d).Learned := by
  unfold processCountryInfo
  cases hchans : parseDomainInfo d.countryInfo d.bssBand with
  | none => exact h
  | some chans =>
    obtain ⟨last, hexp⟩ := expanded_of_parse hchans
    dsimp only
    split_ifs with hempty
    · refine Merging.foldl ⟨?_, by simp⟩ hexp.distinct
      simpa using h
    · exact ⟨hexp.fits, hexp.distinct, fun e he hseen => by simp [hexp.unseen e he] at hseen⟩

theorem Learned.learn (h : s.Learned) (d : BssDesc) : (s.learn txPwr d).Learned := by
  have hscan : Learned { s with scanned := (d.currentChan, d.bssBand) :: s.scanned } :=
    ⟨h.fits, h.once, fun e he hseen => mem_cons_of_mem _ (h.seen e he hseen)⟩
  have hupdate : Learned (updateChanPwrTable { s with scanned := (d.currentChan, d.bssBand) :: s.scanned } txPwr d) :=
    hscan.update mem_cons_self
  unfold Region.learn
  dsimp only
  split_ifs
  · exact hupdate.process
  · exact hupdate

theorem Learned.foldl (h : s.Learned) (table : List BssDesc) :
    (table.foldl (fun s d => s.learn txPwr d) s).Learned := by
  induction table generalizing s with
  | nil => exact h
  | cons d table ih => exact ih (h.learn d)

/-! ## The order -/

instance : Std.Total Behind :=
  ⟨fun e e' => Nat.le_total e'.chan e.chan⟩

instance : IsTrans ChanPower Behind :=
  ⟨fun _ _ _ h h' => Nat.le_trans h' h⟩

/-- The sorted part behind each entry. -/
theorem foldl_orderedInsert (l acc : List ChanPower) (hacc : acc.Pairwise Behind) :
    (l.foldl (fun l e => l.orderedInsert Behind e) acc).Pairwise Behind ∧
      (l.foldl (fun l e => l.orderedInsert Behind e) acc).Perm (l ++ acc) := by
  induction l generalizing acc with
  | nil => exact ⟨hacc, .refl _⟩
  | cons e l ih =>
    obtain ⟨hsorted, hperm⟩ := ih (acc.orderedInsert Behind e) (hacc.orderedInsert e acc)
    refine ⟨hsorted, hperm.trans ?_⟩
    exact ((perm_orderedInsert Behind e acc).append_left l).trans perm_middle

theorem sort_perm (s : Region) : s.sortParsedRegionChan.chanPwr.Perm s.chanPwr := by
  have hperm := (foldl_orderedInsert s.chanPwr [] .nil).2
  rw [append_nil] at hperm
  exact (reverse_perm _).trans hperm

theorem sort_sorted (s : Region) : s.sortParsedRegionChan.chanPwr.Pairwise fun e e' => e.chan ≤ e'.chan :=
  pairwise_reverse.mpr (foldl_orderedInsert s.chanPwr [] .nil).1

theorem Learned.sort (h : s.Learned) : s.sortParsedRegionChan.Learned :=
  ⟨(sort_perm s).length_eq.trans_le h.fits, ((sort_perm s).map _).nodup_iff.mpr h.once,
    fun e he hseen => h.seen e ((sort_perm s).mem_iff.mp he) hseen⟩

/-- An entry that is found active was seen. -/
theorem Learned.active (h : s.Learned) {required : ℕ → Bool} {band chan : ℕ} (hband : band &&& bandA ≠ 0)
    (hreq : required chan) (hact : s.scanTypeActive (some required) band chan) : (chan, band) ∈ s.scanned := by
  unfold scanTypeActive channelKnown at hact
  cases he : look ChanPower.key (chan, band) s.chanPwr with
  | none => simp [he] at hact
  | some e =>
    simp only [he, hband, hreq, ne_eq, not_false_eq_true, any_some, and_self, if_true] at hact
    exact key_of_look he ▸ h.seen e (mem_of_look he) hact

/-- **The learned table** is valid after every run of scans and clears. -/
theorem learned_table_valid (txPwr : ℕ → ℕ → ℕ) {s : Region} (h : (regionSystem txPwr).Reachable s) : s.Valid := by
  have hinv : s.Learned ∧ s.chanPwr.Pairwise fun e e' => e.chan ≤ e'.chan := by
    refine h.invariant (I := fun s => s.Learned ∧ s.chanPwr.Pairwise fun e e' => e.chan ≤ e'.chan) ?_ ?_
    · rintro s rfl
      exact ⟨⟨by decide, .nil, by simp [clear]⟩, .nil⟩
    · intro s op s' hs hstep
      have hclear : clear.Learned ∧ clear.chanPwr.Pairwise fun e e' => e.chan ≤ e'.chan :=
        ⟨⟨by decide, .nil, by simp [clear]⟩, .nil⟩
      cases op with
      | prepareDnldDomainInfoCmd enabled table =>
        obtain rfl := some.inj hstep
        unfold prepareDnldDomainInfoCmd
        split_ifs
        · exact ⟨(hs.1.foldl table).sort, sort_sorted _⟩
        · exact hs
      | clearParsedtable enabled =>
        obtain rfl := some.inj hstep
        cases enabled
        · exact hs
        · exact hclear
      | enable ok =>
        obtain rfl := some.inj hstep
        cases ok
        · exact hs
        · exact hclear
  exact ⟨hinv.1.fits, hinv.1.once, hinv.2, hinv.1.seen, fun required band chan => hinv.1.active⟩

/-! ## Runs -/

/-- The power on channel 36, and none on a band without `BAND_A`. -/
def powerOf36 (band chan : ℕ) : ℕ :=
  if band &&& bandA ≠ 0 ∧ chan = 36 then 20 else 0

/-- An access point on channel 36 of the band, with one subband. -/
def on36 (band : ℕ) (b : SubbandSet) : BssDesc :=
  ⟨36, band, ⟨0x55, 6, fun _ => b⟩⟩

/-- A scan finds channel 36, and the channels 48 to 56 in its country element. -/
theorem learned_table_valid_scan : ∃ s, (regionSystem powerOf36).Reachable s ∧
    s.chanPwr = [⟨36, 4, 20, true⟩, ⟨48, 4, 23, false⟩, ⟨52, 4, 23, false⟩, ⟨56, 4, 23, false⟩] ∧
      s.scanTypeActive (some (52 ≤ ·)) 4 52 = false ∧ s.Valid := by
  obtain ⟨s, hs, hp⟩ := System.exists_reachable_of_run (M := regionSystem powerOf36)
    (P := fun s => decide (
      s.chanPwr = [⟨36, 4, 20, true⟩, ⟨48, 4, 23, false⟩, ⟨52, 4, 23, false⟩, ⟨56, 4, 23, false⟩] ∧
        s.scanTypeActive (some (52 ≤ ·)) 4 52 = false))
    (l := [.prepareDnldDomainInfoCmd true [on36 4 ⟨48, 3, 23⟩]]) (s := clear) rfl (by decide +kernel)
  obtain ⟨ht, hact⟩ := of_decide_eq_true hp
  exact ⟨s, hs, ht, hact, learned_table_valid powerOf36 hs⟩

/-- Channel 52 requires radar detection, comes from the country element of an access point on 36, and is answered as active :
in `BAND_AN`, and in `BAND_A` where there is no station. -/
theorem active_without_ap :
    (∃ s, (regionSystem powerOf36).Reachable s ∧ s.scanTypeActive (some (52 ≤ ·)) 16 52 = true ∧
      s.scanned = [(36, 16)]) ∧
    (∃ s, (regionSystem powerOf36).Reachable s ∧ s.scanTypeActive none 4 52 = true ∧ s.scanned = [(36, 4)]) ∧
    ¬∀ s, (regionSystem powerOf36).Reachable s → ∀ (required : ℕ → Bool) band chan, required chan →
      s.scanTypeActive (some required) band chan → (chan, band) ∈ s.scanned := by
  have hband : ∃ s, (regionSystem powerOf36).Reachable s ∧
      decide (s.scanTypeActive (some (52 ≤ ·)) 16 52 = true ∧ s.scanned = [(36, 16)]) = true :=
    System.exists_reachable_of_run (l := [.prepareDnldDomainInfoCmd true [on36 16 ⟨52, 1, 23⟩]]) (s := clear) rfl
      (by decide +kernel)
  have hnone : ∃ s, (regionSystem powerOf36).Reachable s ∧
      decide (s.scanTypeActive none 4 52 = true ∧ s.scanned = [(36, 4)]) = true :=
    System.exists_reachable_of_run (l := [.prepareDnldDomainInfoCmd true [on36 4 ⟨52, 1, 23⟩]]) (s := clear) rfl
      (by decide +kernel)
  simp only [decide_eq_true_eq] at hband hnone
  refine ⟨hband, hnone, fun h => ?_⟩
  obtain ⟨s, hs, hact, hscan⟩ := hband
  have hmem := h s hs (52 ≤ ·) 16 52 (by decide) hact
  rw [hscan] at hmem
  exact absurd hmem (by decide)

end Region

end WlanDriver.Dfs
