import Mathlib.Data.List.Basic
import Mathlib.Data.Nat.ModEq
import Mathlib.Tactic.Common

/-!
# The channel to go to

`wlan_11h_get_uap_start_channel` begins at a random entry of the table of its region and goes around it until an entry will do;
`wlan_11h_switch_non_dfs_chan` tries `MAX_SWITCH_CHANNEL_RETRIES` random entries, and takes the first that will do if the last of
the tries was needed.

`startChannel_fine_iff` : while radar is handled the first has a channel that will do wherever there is one, and 0 otherwise,
exactly where there is a table for the region code; without one it has `DEFAULT_AD_HOC_CHANNEL_A`. `switchNonDfsChan_spec` :
the second succeeds exactly where an entry will do, with one.
-/

namespace WlanDriver.Dfs

/-- `chan_freq_power_t`, as far as it is looked at. The tables are made of octets, and 0 is no channel. -/
structure Cfp where
  channel : ℕ
  /-- `passive_scan_or_radar_detect`. -/
  radarDetect : Bool
  /-- `NXP_CHANNEL_DISABLED` of `dynamic.flags`. -/
  disabled : Bool
  channel_pos : 0 < channel
  channel_lt : channel < 256

/-- `region_chan_t`. -/
structure CfpTable where
  region : ℕ
  pcfp : List Cfp
  pcfp_ne_nil : pcfp ≠ []
  numCfp_lt : pcfp.length < 256

/-- `region_channel`, as `wlan_set_regiontable` leaves it : a table for `BAND_B` or `BAND_G`, and one for `BAND_A`. -/
structure RegionTables where
  bg : Option CfpTable
  a : Option CfpTable

/-- The valid tables in their order, with whether they are marked for `BAND_A`. -/
def RegionTables.tables (r : RegionTables) : List (Bool × CfpTable) :=
  r.bg.toList.map (false, ·) ++ r.a.toList.map (true, ·)

namespace CfpTable

variable (t : CfpTable)

def numCfp : ℕ :=
  t.pcfp.length

theorem numCfp_pos : 0 < t.numCfp :=
  List.length_pos_iff.mpr t.pcfp_ne_nil

/-- The entry at an index modulo `num_cfp`. -/
def entry (i : ℕ) : Cfp :=
  t.pcfp.get ⟨i % t.pcfp.length, Nat.mod_lt i t.numCfp_pos⟩

theorem entry_mem (i : ℕ) : t.entry i ∈ t.pcfp :=
  List.get_mem _ _

@[simp] theorem entry_mod (i : ℕ) : t.entry (i % t.numCfp) = t.entry i := by
  simp [entry, numCfp]

end CfpTable

def defaultAdHocChannel : ℕ := 6

def defaultAdHocChannelA : ℕ := 36

def countryCodeUs : ℕ := 0x10

/-- What `wlan_11h_get_uap_start_channel` is given : the tables, the region code, which channels are under NOP, a random number,
the connection of the interface, its band configuration, and whether 11h is enabled and the stage `RDH_GET_INFO_CHANNEL`. -/
structure StartInput where
  regionTables : RegionTables
  regionCode : ℕ
  underNop : ℕ → Bool
  rand : ℕ
  mediaConnected : Bool
  bssChannel : ℕ
  band5GHz : Bool
  width20MHz : Bool
  enabled : Bool
  getInfoChannel : Bool

namespace StartInput

variable (b : StartInput)

/-- `wlan_get_cfp_radar_detect`. -/
def cfpRadarDetect (chan : ℕ) : Bool :=
  match b.regionTables.a with
  | none => false
  | some t => ((t.pcfp.find? (·.channel = chan)).map (·.radarDetect)).getD false

/-- `wlan_11h_radar_detect_required`. -/
def radarDetectRequired (chan : ℕ) : Bool :=
  b.cfpRadarDetect chan && !(b.mediaConnected && b.bssChannel = chan)

/-- `wlan_11h_is_band_valid`. -/
def isBandValid (startChn : ℕ) : Bool :=
  if startChn = 165 then
    if b.regionCode = countryCodeUs then true else b.width20MHz
  else true

/-- The loop goes on at this entry. -/
def passedBy (e : Cfp) : Bool :=
  e.disabled || (b.underNop e.channel || (b.getInfoChannel && b.radarDetectRequired e.channel) || !b.isBandValid e.channel)

/-- The loop over the entries of a table, from `randEntry` on with `randTries`; the tries have 8 bits. -/
def search (t : CfpTable) : ℕ → ℕ → ℕ → ℕ × ℕ
  | 0, randEntry, randTries => (randEntry, randTries)
  | fuel + 1, randEntry, randTries =>
    if b.passedBy (t.entry randEntry) then
      if (randTries + 1) % 256 < t.numCfp then search t fuel ((randEntry + 1) % t.numCfp) ((randTries + 1) % 256)
      else (randEntry, (randTries + 1) % 256)
    else (randEntry, randTries)

/-- One turn of the loop over the tables, with `start_chn` and `rand_tries`. -/
def lookAt (s : ℕ × ℕ) (t : Bool × CfpTable) : ℕ × ℕ :=
  if t.1 ∧ t.2.region = b.regionCode then
    let r := b.search t.2 t.2.numCfp (b.rand % t.2.numCfp) s.2
    (if r.2 = t.2.numCfp then 0 else (t.2.entry r.1).channel, r.2)
  else s

/-- `wlan_11h_get_uap_start_channel`. -/
def startChannel : ℕ :=
  if b.band5GHz then
    if b.enabled then (b.regionTables.tables.foldl b.lookAt (defaultAdHocChannelA, 0)).1 else defaultAdHocChannelA
  else defaultAdHocChannel

/-! ## What the channel should be -/

/-- It is called while radar is handled, with 11h enabled on 5 GHz. -/
structure InHandling : Prop where
  band5GHz : b.band5GHz = true
  enabled : b.enabled = true
  getInfoChannel : b.getInfoChannel = true

/-- The table for the region code. -/
def Matches (t : CfpTable) : Prop :=
  b.regionTables.a = some t ∧ t.region = b.regionCode

/-- The entry will do : it is not disabled, not under NOP, needs no radar detection, and suits the band configuration. -/
structure WillDo (e : Cfp) : Prop where
  enabled : e.disabled = false
  noNop : b.underNop e.channel = false
  noRadar : b.radarDetectRequired e.channel = false
  bandValid : b.isBandValid e.channel = true

/-- There is an entry that will do. -/
def HasChannel : Prop :=
  ∃ t, b.Matches t ∧ ∃ e ∈ t.pcfp, b.WillDo e

/-- The channel is one that will do if there is one, and 0 otherwise. -/
def Fine : Prop :=
  (∃ t, b.Matches t ∧ ∃ e ∈ t.pcfp, b.WillDo e ∧ b.startChannel = e.channel) ∨ ¬ b.HasChannel ∧ b.startChannel = 0

variable {b} {t : CfpTable} {e : Cfp}

theorem passedBy_eq_false_iff (h : b.getInfoChannel = true) : b.passedBy e = false ↔ b.WillDo e := by
  simp only [passedBy, h, Bool.true_and, Bool.or_eq_false_iff, Bool.not_eq_false']
  constructor
  · rintro ⟨hdis, ⟨hnop, hradar⟩, hband⟩
    exact ⟨hdis, hnop, hradar, hband⟩
  · rintro ⟨hdis, hnop, hradar, hband⟩
    exact ⟨hdis, ⟨hnop, hradar⟩, hband⟩

/-- The search goes around the table once : it stops at the first entry that is not passed by, or behind the last. -/
theorem search_spec (b : StartInput) (t : CfpTable) (first : ℕ) : ∀ fuel tries, tries + fuel = t.numCfp → 0 < fuel →
    (∀ j < tries, b.passedBy (t.entry (first + j)) = true) →
    (∃ k < t.numCfp, b.passedBy (t.entry (first + k)) = false ∧
        b.search t fuel ((first + tries) % t.numCfp) tries = ((first + k) % t.numCfp, k)) ∨
      (∀ j < t.numCfp, b.passedBy (t.entry (first + j)) = true) ∧
        (b.search t fuel ((first + tries) % t.numCfp) tries).2 = t.numCfp
  | fuel + 1, tries, hfuel, _, hpassed => by
    have hlt := t.numCfp_lt
    have hmod : (tries + 1) % 256 = tries + 1 := Nat.mod_eq_of_lt (by unfold CfpTable.numCfp at hfuel; omega)
    have hnext : ((first + tries) % t.numCfp + 1) % t.numCfp = (first + (tries + 1)) % t.numCfp := by
      rw [Nat.mod_add_mod, Nat.add_assoc]
    rw [search, CfpTable.entry_mod, hmod, hnext]
    by_cases hpass : b.passedBy (t.entry (first + tries)) = true
    · have hpassed' : ∀ j < tries + 1, b.passedBy (t.entry (first + j)) = true := by
        intro j hj
        rcases Nat.lt_succ_iff_lt_or_eq.mp hj with hj | rfl
        · exact hpassed j hj
        · exact hpass
      rw [if_pos hpass]
      by_cases hleft : tries + 1 < t.numCfp
      · rw [if_pos hleft]
        exact search_spec b t first fuel (tries + 1) (by omega) (by omega) hpassed'
      · rw [if_neg hleft]
        have hend : tries + 1 = t.numCfp := by omega
        exact .inr ⟨hend ▸ hpassed', hend⟩
    · rw [if_neg hpass]
      exact .inl ⟨tries, by omega, by simpa using hpass, rfl⟩

/-- Each entry of the table is met on the way around it. -/
theorem exists_entry (t : CfpTable) (first : ℕ) (he : e ∈ t.pcfp) : ∃ j < t.numCfp, t.entry (first + j) = e := by
  obtain ⟨i, hi, rfl⟩ := List.getElem_of_mem he
  have hpos := t.numCfp_pos
  refine ⟨(i + t.numCfp - first % t.numCfp) % t.numCfp, Nat.mod_lt _ hpos, ?_⟩
  have hfirst := Nat.mod_lt first hpos
  have hidx : (first + (i + t.numCfp - first % t.numCfp) % t.numCfp) % t.numCfp = i := by
    rw [Nat.add_mod_mod, ← Nat.mod_add_mod, Nat.add_sub_cancel' (by omega), Nat.add_mod_right]
    exact Nat.mod_eq_of_lt hi
  rw [← CfpTable.entry_mod, hidx]
  simp [CfpTable.entry, Nat.mod_eq_of_lt hi]

/-- What the loop over the tables comes to, where there is a table for the region code. -/
theorem startChannel_of_matches (hb : b.InHandling) (ht : b.Matches t) : b.startChannel =
    let r := b.search t t.numCfp (b.rand % t.numCfp) 0
    if r.2 = t.numCfp then 0 else (t.entry r.1).channel := by
  obtain ⟨ha, hregion⟩ := ht
  have hlook : ∀ s, b.lookAt s (true, t) =
      let r := b.search t t.numCfp (b.rand % t.numCfp) s.2
      (if r.2 = t.numCfp then 0 else (t.entry r.1).channel, r.2) := fun s => if_pos ⟨rfl, hregion⟩
  have hbg : ∀ s u, b.lookAt s (false, u) = s := fun s u => if_neg (by simp)
  rw [startChannel, if_pos hb.band5GHz, if_pos hb.enabled, RegionTables.tables, ha]
  cases b.regionTables.bg with
  | none => simp [hlook]
  | some u => simp [hlook, hbg]

/-- Without a table for the region code it is the default. -/
theorem startChannel_of_not_matches (hb : b.InHandling) (h : ¬ ∃ t, b.Matches t) : b.startChannel = defaultAdHocChannelA := by
  have hbg : ∀ s u, b.lookAt s (false, u) = s := fun s u => if_neg (by simp)
  have hno : ∀ s, ∀ t ∈ b.regionTables.a, b.lookAt s (true, t) = s := fun s t ha =>
    if_neg fun hmatch => h ⟨t, ha, hmatch.2⟩
  rw [startChannel, if_pos hb.band5GHz, if_pos hb.enabled, RegionTables.tables]
  cases ha : b.regionTables.a with
  | none => cases b.regionTables.bg <;> simp [hbg]
  | some t => cases b.regionTables.bg <;> simp [hbg, hno _ t ha]

theorem Matches.unique {u : CfpTable} (ht : b.Matches t) (hu : b.Matches u) : u = t :=
  Option.some.inj (hu.1.symm.trans ht.1)

/-- With a table for the region code the channel is one that will do if there is one, and 0 otherwise. -/
theorem fine_of_matches (hb : b.InHandling) (ht : b.Matches t) : b.Fine := by
  have hchan := startChannel_of_matches hb ht
  have hpass := fun e => passedBy_eq_false_iff (e := e) hb.getInfoChannel
  rcases search_spec b t b.rand t.numCfp 0 (Nat.zero_add _) t.numCfp_pos (by simp) with
    ⟨k, hk, hwill, hsearch⟩ | ⟨hall, hsearch⟩
  · rw [Nat.add_zero] at hsearch
    dsimp only at hchan
    rw [hsearch, if_neg hk.ne, CfpTable.entry_mod] at hchan
    exact .inl ⟨t, ht, _, t.entry_mem _, (hpass _).mp hwill, hchan⟩
  · rw [Nat.add_zero] at hsearch
    dsimp only at hchan
    rw [if_pos hsearch] at hchan
    refine .inr ⟨?_, hchan⟩
    rintro ⟨u, hu, e, he, hwill⟩
    obtain rfl := ht.unique hu
    obtain ⟨j, hj, rfl⟩ := exists_entry u b.rand he
    exact absurd ((hpass _).mpr hwill) (by simp [hall j hj])

/-- While radar is handled the channel is as it should be exactly where there is a table for the region code. -/
theorem startChannel_fine_iff (hb : b.InHandling) : b.Fine ↔ ∃ t, b.Matches t := by
  constructor
  · rintro (⟨t, ht, -⟩ | ⟨-, hzero⟩)
    · exact ⟨t, ht⟩
    · by_contra hno
      rw [startChannel_of_not_matches hb hno] at hzero
      exact absurd hzero (by decide)
  · rintro ⟨t, ht⟩
    exact fine_of_matches hb ht

/-- A channel that will do is not 0, and not under NOP. -/
theorem HasChannel.startChannel_ne (h : b.HasChannel) (hb : b.InHandling) :
    b.startChannel ≠ 0 ∧ b.underNop b.startChannel = false := by
  obtain ⟨t, ht, -⟩ := id h
  rcases fine_of_matches hb ht with ⟨-, -, e, -, hwill, heq⟩ | ⟨hno, -⟩
  · rw [heq]
    exact ⟨e.channel_pos.ne', hwill.noNop⟩
  · exact absurd h hno

end StartInput

/-! ## A channel without radar detection -/

def maxSwitchChannelRetries : ℕ := 30

/-- What `wlan_11h_switch_non_dfs_chan` is given : the tables, which channels are under NOP, random numbers, and the settings for
tests. -/
structure SwitchInput where
  regionTables : RegionTables
  underNop : ℕ → Bool
  rand : ℕ → ℕ
  noChannelChange : Bool
  fixedNewChannel : ℕ

namespace SwitchInput

variable (b : SwitchInput)

/-- The channel needs radar detection or is under NOP. -/
def passedBy (e : Cfp) : Bool :=
  b.underNop e.channel || e.radarDetect

/-- The tries from the `k`-th on, with how many there were : at most `left + 1`. -/
def randomTries (t : CfpTable) : ℕ → ℕ → Cfp × ℕ
  | 0, k => (t.entry (b.rand k % t.numCfp), k + 1)
  | left + 1, k =>
    if b.passedBy (t.entry (b.rand k % t.numCfp)) ∧ k + 1 < maxSwitchChannelRetries then randomTries t left (k + 1)
    else (t.entry (b.rand k % t.numCfp), k + 1)

/-- The lowest channel that is not passed by. -/
def lowest (t : CfpTable) : Option Cfp :=
  t.pcfp.find? fun e => e.radarDetect = false ∧ b.underNop e.channel = false

/-- `wlan_11h_switch_non_dfs_chan` : the channel, if it is a success. -/
def switchNonDfsChan : Option ℕ :=
  if !b.noChannelChange ∧ b.fixedNewChannel ≠ 0 then some b.fixedNewChannel
  else match b.regionTables.a with
  | none => none
  | some t =>
    let r := b.randomTries t (maxSwitchChannelRetries - 1) 0
    if r.2 = maxSwitchChannelRetries then (b.lowest t).map (·.channel) else some r.1.channel

/-- No fixed channel is set for a test. -/
def NoFixed : Prop :=
  b.noChannelChange = true ∨ b.fixedNewChannel = 0

/-- The entry has no radar detection, and is outside NOP. -/
def NonDfs (e : Cfp) : Prop :=
  (∃ t, b.regionTables.a = some t ∧ e ∈ t.pcfp) ∧ e.radarDetect = false ∧ b.underNop e.channel = false

variable {b} {t : CfpTable}

theorem passedBy_eq_false_iff {e : Cfp} : b.passedBy e = false ↔ e.radarDetect = false ∧ b.underNop e.channel = false := by
  rw [passedBy, Bool.or_eq_false_iff]
  exact and_comm

/-- Fewer tries than there may be end with an entry of the table that is not passed by. -/
theorem randomTries_spec (b : SwitchInput) (t : CfpTable) : ∀ left k, k + left + 1 = maxSwitchChannelRetries →
    (b.randomTries t left k).2 = maxSwitchChannelRetries ∨
      (b.randomTries t left k).1 ∈ t.pcfp ∧ b.passedBy (b.randomTries t left k).1 = false
  | 0, k, hk => by
    rw [randomTries]
    exact .inl hk
  | left + 1, k, hk => by
    rw [randomTries]
    split_ifs with hnext
    · exact randomTries_spec b t left (k + 1) (by omega)
    · refine .inr ⟨t.entry_mem _, ?_⟩
      by_contra hpass
      exact hnext ⟨by simpa using hpass, by omega⟩

/-- It succeeds exactly where the table has a channel without radar detection outside NOP, and then with one. -/
theorem switchNonDfsChan_spec (b : SwitchInput) (h : b.NoFixed) :
    (b.switchNonDfsChan.isSome ↔ ∃ e, b.NonDfs e) ∧ ∀ c, b.switchNonDfsChan = some c → ∃ e, b.NonDfs e ∧ c = e.channel := by
  have hfixed : ¬ ((!b.noChannelChange) = true ∧ b.fixedNewChannel ≠ 0) := by
    rintro ⟨hchange, hne⟩
    rcases h with h | h
    · simp [h] at hchange
    · exact hne h
  rw [switchNonDfsChan, if_neg hfixed]
  cases ha : b.regionTables.a with
  | none => simp [NonDfs, ha]
  | some t =>
    have hlowest : ∀ e, b.lowest t = some e → b.NonDfs e := by
      intro e he
      have hgood := List.find?_some he
      exact ⟨⟨t, ha, List.mem_of_find?_eq_some he⟩, by simpa using hgood⟩
    have hnone : b.lowest t = none → ¬ ∃ e, b.NonDfs e := by
      rintro hnone ⟨e, ⟨u, hu, he⟩, hgood⟩
      obtain rfl := Option.some.inj (ha.symm.trans hu)
      exact absurd (List.find?_eq_none.mp hnone e he) (by simpa using hgood)
    dsimp only
    by_cases htries : (b.randomTries t (maxSwitchChannelRetries - 1) 0).2 = maxSwitchChannelRetries
    · rw [if_pos htries]
      cases hfind : b.lowest t with
      | none => exact ⟨by simpa using hnone hfind, by simp⟩
      | some e => exact ⟨by simpa using ⟨e, hlowest e hfind⟩, by simpa using ⟨e, hlowest e hfind, rfl⟩⟩
    · obtain ⟨hmem, hpass⟩ :=
        (randomTries_spec b t (maxSwitchChannelRetries - 1) 0 (by decide)).resolve_left htries
      have hgood : b.NonDfs (b.randomTries t (maxSwitchChannelRetries - 1) 0).1 :=
        ⟨⟨t, ha, hmem⟩, passedBy_eq_false_iff.mp hpass⟩
      rw [if_neg htries]
      exact ⟨by simpa using ⟨_, hgood⟩, by simpa using ⟨_, hgood, rfl⟩⟩

end SwitchInput

end WlanDriver.Dfs
