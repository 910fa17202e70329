import WlanDriver.Dfs.DomainInfo

/-!
# The subbands, expanded again

`wlan_11d_generate_domain_info` groups channels with consecutive numbers and one power, `wlan_11d_parse_domain_info` counts
places in the fixed list of the band (`wlan_11d_get_chan`). The list of the 5 GHz band has gaps, and channels half a step
apart. The two agree, because in a list that ascends nothing stands between a number and the next one
(`getElem?_add_of_consecutive`).

`parseDomainInfo_elementOf` : a table of one band, with ascending channels of that band, is what its own subbands expand to.
-/

namespace WlanDriver.Dfs

open List

/-- A country element with the subbands of a domain. -/
def DomainReg.elementOf (r : DomainReg) (countryCode : ℕ) : CountryInfo :=
  ⟨countryCode, countryCodeLen + 3 * r.subBand.length, fun j => r.subBand.getD j ⟨0, 0, 0⟩⟩

/-- What an element says of a channel : its number, its band and its power. -/
def ChanPower.said (e : ChanPower) : ℕ × ℕ × ℕ :=
  (e.chan, e.band, e.pwr)

/-- A table of one band : ascending channels out of the list `cfp`. -/
structure ParsedRegionChan.OfBand (t : ParsedRegionChan) (band : ℕ) (cfp : List ℕ) : Prop where
  nonempty : 0 < t.noOfChan
  chan_mem : ∀ e ∈ t.entries, e.chan ∈ cfp
  band_eq : ∀ e ∈ t.entries, e.band = band
  ascending : t.entries.Pairwise fun e e' => e.chan < e'.chan

/-- The subbands of a domain say what a table says, without overlap. -/
structure DomainReg.Covers (r : DomainReg) (t : ParsedRegionChan) : Prop where
  channels_eq : r.channels = t.entries.map fun e => (e.chan, e.pwr)
  apart : r.subBand.Pairwise fun s s' => s.firstChan + s.noOfChan ≤ s'.firstChan
  pos : ∀ s ∈ r.subBand, 0 < s.noOfChan

/-! ## Places in the list of a band -/

variable {band first n pwr last : ℕ} {cfp : List ℕ} {chans : List ChanPower} {l : List SubbandSet}

/-- In an ascending list consecutive numbers stand next to each other. -/
theorem getElem?_add_of_consecutive (hasc : cfp.Pairwise (· < ·)) {k : ℕ} (hk : cfp[k]? = some first) :
    ∀ i, (∀ j ≤ i, first + j ∈ cfp) → cfp[k + i]? = some (first + i)
  | 0, _ => hk
  | i + 1, hmem => by
    have hprev : cfp[k + i]? = some (first + i) :=
      getElem?_add_of_consecutive hasc hk i fun j hj => hmem j (hj.trans i.le_succ)
    obtain ⟨hlt, heq⟩ := List.getElem?_eq_some_iff.mp hprev
    obtain ⟨m, hm, heqm⟩ := getElem_of_mem (hmem (i + 1) le_rfl)
    have hmono := pairwise_iff_getElem.mp hasc
    -- the next number stands behind, and nothing fits in between
    have hbehind : k + i < m := by
      by_contra hle
      rcases Nat.lt_or_eq_of_le (Nat.le_of_not_lt hle) with hbefore | rfl
      · have := hmono m (k + i) hm hlt hbefore
        omega
      · omega
    have hnext : m = k + (i + 1) := by
      by_contra hne
      have hbetween : k + i + 1 < m := by omega
      have := hmono (k + i) (k + i + 1) hlt (hbetween.trans hm) (Nat.lt_succ_self _)
      have := hmono (k + i + 1) m (hbetween.trans hm) hm hbetween
      omega
    subst hnext
    exact List.getElem?_eq_some_iff.mpr ⟨hm, heqm⟩

/-- `wlan_11d_get_chan` counts as the numbers do, as long as they are channels. -/
theorem getChan_of_consecutive (hcfp : channelsUn band = some cfp) {i : ℕ} (hmem : ∀ j ≤ i, first + j ∈ cfp) :
    getChan band first i = some (first + i) := by
  have hasc := channelsUn_ascending hcfp
  have hex : ∃ c ∈ cfp, decide (c = first) := ⟨first, hmem 0 (Nat.zero_le i), decide_eq_true rfl⟩
  obtain ⟨k, hk⟩ : ∃ k, cfp.findIdx? (· = first) = some k := by
    rcases hfind : cfp.findIdx? (· = first) with _ | k
    · obtain ⟨c, hc, heq⟩ := hex
      rw [findIdx?_eq_none_iff.mp hfind c hc] at heq
      exact absurd heq (by simp)
    · exact ⟨k, rfl⟩
  obtain ⟨hlt, hfirst, -⟩ := findIdx?_eq_some_iff_getElem.mp hk
  have hplace : cfp[k]? = some first := by
    rw [getElem?_eq_getElem hlt]
    simpa using hfirst
  exact getChan_eq_some.mpr ⟨cfp, k, hcfp, hk, getElem?_add_of_consecutive hasc hplace i hmem⟩

theorem channelsUn_pos (hcfp : channelsUn band = some cfp) : ∀ c ∈ cfp, 0 < c := by
  unfold channelsUn at hcfp
  split_ifs at hcfp
  · exact Option.some.inj hcfp ▸ (by decide)
  · exact Option.some.inj hcfp ▸ (by decide)

/-! ## Expanding -/

/-- What a subband expands to. -/
def SubbandSet.expand (band : ℕ) (s : SubbandSet) : List ChanPower :=
  s.channels.map fun c => ⟨c.1, band, c.2, false⟩

@[simp] theorem length_expand (s : SubbandSet) : (s.expand band).length = s.noOfChan := by
  simp [SubbandSet.expand, SubbandSet.channels]

/-- A subband of channels expands to all of them. -/
theorem parseSubband_of_consecutive (hcfp : channelsUn band = some cfp) (rest i : ℕ)
    (hmem : ∀ j < i + rest, first + j ∈ cfp) (hfits : chans.length + rest ≤ maxNoOfChan) :
    (parseSubband band first pwr rest i chans last).1 =
        chans ++ (range' i rest).map (fun k => ⟨first + k, band, pwr, false⟩) ∧
      (parseSubband band first pwr rest i chans last).2 = if rest = 0 then last else first + (i + rest - 1) := by
  induction rest generalizing i chans last with
  | zero => exact ⟨by simp [parseSubband], rfl⟩
  | succ rest ih =>
    have hlen : chans.length < maxNoOfChan := by omega
    have hchan : getChan band first i = some (first + i) :=
      getChan_of_consecutive hcfp fun j hj => hmem j (by omega)
    have hrest := @ih (first + i) (chans ++ [⟨first + i, band, pwr, false⟩]) (i + 1)
      (fun j hj => hmem j (by omega)) (by simp only [length_append, length_singleton]; omega)
    unfold parseSubband
    simp only [if_pos hlen, hchan]
    refine ⟨?_, ?_⟩
    · rw [hrest.1, range'_succ, map_cons, append_assoc, singleton_append]
    · rw [hrest.2, if_neg rest.succ_ne_zero]
      by_cases hzero : rest = 0
      · subst hzero
        rfl
      · rw [if_neg hzero]
        congr 1
        omega

/-- One subband behind those that are expanded. -/
theorem parseStep_of_consecutive (hcfp : channelsUn band = some cfp) (s : SubbandSet) (hpos : 0 < s.noOfChan)
    (hmem : ∀ j < s.noOfChan, s.firstChan + j ∈ cfp) (hlast : last < s.firstChan)
    (hfits : chans.length + s.noOfChan ≤ maxNoOfChan) :
    parseStep band (chans, last) s = (chans ++ s.expand band, s.firstChan + (s.noOfChan - 1)) := by
  obtain ⟨hchans, hend⟩ := @parseSubband_of_consecutive band s.firstChan s.maxTxPwr last cfp chans hcfp s.noOfChan 0
    (fun j hj => hmem j (by omega)) hfits
  unfold parseStep
  rw [if_neg (Nat.not_le.mpr hlast)]
  refine Prod.ext (hchans.trans ?_) (hend.trans ?_)
  · rw [SubbandSet.expand, SubbandSet.channels, map_map, range_eq_range']
    rfl
  · rw [if_neg hpos.ne', Nat.zero_add]

/-- Subbands of channels, one behind the other, expand to all of them. -/
theorem foldl_parseStep (hcfp : channelsUn band = some cfp) (hpos : ∀ s ∈ l, 0 < s.noOfChan)
    (hmem : ∀ s ∈ l, ∀ j < s.noOfChan, s.firstChan + j ∈ cfp)
    (hapart : l.Pairwise fun s s' => s.firstChan + s.noOfChan ≤ s'.firstChan) (hlast : ∀ s ∈ l, last < s.firstChan)
    (hfits : chans.length + (l.flatMap (SubbandSet.expand band)).length ≤ maxNoOfChan) :
    (l.foldl (parseStep band) (chans, last)).1 = chans ++ l.flatMap (SubbandSet.expand band) := by
  induction l generalizing chans last with
  | nil => simp
  | cons s l ih =>
    obtain ⟨hbehind, hapart⟩ := pairwise_cons.mp hapart
    have hspos : 0 < s.noOfChan := hpos s mem_cons_self
    rw [flatMap_cons, length_append, length_expand] at hfits
    rw [foldl_cons, flatMap_cons, ← append_assoc,
      parseStep_of_consecutive hcfp s hspos (hmem s mem_cons_self) (hlast s mem_cons_self) (by omega)]
    refine ih (fun s' hs' => hpos s' (mem_cons_of_mem _ hs')) (fun s' hs' => hmem s' (mem_cons_of_mem _ hs'))
      hapart (fun s' hs' => ?_) ?_
    · have := hbehind s' hs'
      omega
    · rw [length_append, length_expand]
      omega

/-! ## The subbands of a table -/

namespace Grouping

variable {g : Grouping}

/-- No subband that is written is empty, nor the one that is open. -/
def Filled (g : Grouping) : Prop :=
  (∀ s ∈ g.subBand, 0 < s.noOfChan) ∧ (g.flag → 0 < g.noOfParsedChan)

theorem Filled.turn (h : g.Filled) (e : ChanPower) : (g.turn e).Filled := by
  unfold Grouping.turn
  split_ifs with hflag hgrow
  · exact ⟨h.1, fun _ => Nat.one_pos⟩
  · exact ⟨h.1, fun _ => Nat.succ_pos _⟩
  · refine ⟨fun s hs => ?_, fun _ => Nat.one_pos⟩
    rcases mem_append.mp hs with hs | hs
    · exact h.1 s hs
    · rw [mem_singleton.mp hs]
      exact h.2 (by simpa using hflag)

theorem filled_foldl (l : List ChanPower) (h : g.Filled) : (l.foldl Grouping.turn g).Filled := by
  induction l generalizing g with
  | nil => exact h
  | cons e l ih => exact ih (h.turn e)

theorem Filled.close (h : g.Filled) : ∀ s ∈ g.close, 0 < s.noOfChan := by
  intro s hs
  unfold Grouping.close at hs
  split_ifs at hs with hflag
  · rcases mem_append.mp hs with hs | hs
    · exact h.1 s hs
    · rw [mem_singleton.mp hs]
      exact h.2 hflag
  · exact h.1 s hs

end Grouping

theorem mem_channels {s : SubbandSet} {j : ℕ} (hj : j < s.noOfChan) : (s.firstChan + j, s.maxTxPwr) ∈ s.channels :=
  mem_map.mpr ⟨j, mem_range.mpr hj, rfl⟩

/-- Subbands whose channels ascend do not overlap. -/
theorem apart_of_ascending (hpos : ∀ s ∈ l, 0 < s.noOfChan)
    (hasc : (l.flatMap SubbandSet.channels).Pairwise fun c c' => c.1 < c'.1) :
    l.Pairwise fun s s' => s.firstChan + s.noOfChan ≤ s'.firstChan := by
  refine (pairwise_flatMap.mp hasc).2.imp_of_mem fun {s s'} hs hs' hlt => ?_
  have hends := hlt _ (mem_channels (Nat.sub_lt (hpos s hs) Nat.one_pos)) _ (mem_channels (hpos s' hs'))
  have := hpos s hs
  dsimp only at hends
  omega

theorem length_le_flatMap_channels (hpos : ∀ s ∈ l, 0 < s.noOfChan) :
    l.length ≤ (l.flatMap SubbandSet.channels).length := by
  induction l with
  | nil => simp
  | cons s l ih =>
    have hs : 0 < s.noOfChan := hpos s mem_cons_self
    have hl := ih fun s' hs' => hpos s' (mem_cons_of_mem _ hs')
    have hlen : s.channels.length = s.noOfChan := by simp [SubbandSet.channels]
    rw [flatMap_cons, length_append, length_cons, hlen]
    omega

namespace ParsedRegionChan

variable {t : ParsedRegionChan}

theorem length_entries (t : ParsedRegionChan) : t.entries.length = t.noOfChan := by
  simp [entries]

/-- No subband is empty. -/
theorem noOfChan_pos (t : ParsedRegionChan) (regionCode : ℕ) :
    ∀ s ∈ (t.generateDomainInfo regionCode).subBand, 0 < s.noOfChan :=
  (Grouping.filled_foldl t.entries ⟨by simp [Grouping.init], by simp [Grouping.init]⟩).close

theorem length_subBand_le (t : ParsedRegionChan) (regionCode : ℕ) :
    (t.generateDomainInfo regionCode).subBand.length ≤ t.noOfChan := by
  have hlen := length_le_flatMap_channels (noOfChan_pos t regionCode)
  have hchan := congrArg List.length (channels_generateDomainInfo t regionCode)
  rw [DomainReg.channels, length_map, length_entries] at hchan
  exact hchan ▸ hlen

section

variable (h : t.OfBand band cfp)

include h

/-- The subbands cover a table that ascends. -/
theorem OfBand.covers (regionCode : ℕ) : (t.generateDomainInfo regionCode).Covers t := by
  have hpos := noOfChan_pos t regionCode
  have hchan := channels_generateDomainInfo t regionCode
  refine ⟨hchan, apart_of_ascending hpos ?_, hpos⟩
  change (t.generateDomainInfo regionCode).channels.Pairwise _
  rw [hchan, pairwise_map]
  exact h.ascending

theorem OfBand.mem_cfp (regionCode : ℕ) :
    ∀ s ∈ (t.generateDomainInfo regionCode).subBand, ∀ j < s.noOfChan, s.firstChan + j ∈ cfp := by
  intro s hs j hj
  have hmem : (s.firstChan + j, s.maxTxPwr) ∈ (t.generateDomainInfo regionCode).channels :=
    mem_flatMap.mpr ⟨s, hs, mem_channels hj⟩
  rw [channels_generateDomainInfo, mem_map] at hmem
  obtain ⟨e, he, heq⟩ := hmem
  have hchan : e.chan = s.firstChan + j := congrArg Prod.fst heq
  exact hchan ▸ h.chan_mem e he

theorem OfBand.subBand_ne_nil (regionCode : ℕ) : (t.generateDomainInfo regionCode).subBand ≠ [] := by
  intro hnil
  have hlen := congrArg List.length (h.covers regionCode).channels_eq
  rw [DomainReg.channels, hnil, flatMap_nil, length_map, length_entries, length_nil] at hlen
  exact h.nonempty.ne hlen

/-- No subband is taken for one that overlaps with the last channel. -/
theorem OfBand.firstChan_pos (hcfp : channelsUn band = some cfp) (regionCode : ℕ) :
    ∀ s ∈ (t.generateDomainInfo regionCode).subBand, 0 < s.firstChan := by
  intro s hs
  exact channelsUn_pos hcfp _ (h.mem_cfp regionCode s hs 0 ((h.covers regionCode).pos s hs))

/-- The subbands expand to the entries. -/
theorem OfBand.expand_eq (regionCode : ℕ) :
    (t.generateDomainInfo regionCode).subBand.flatMap (SubbandSet.expand band) =
      t.entries.map fun e => ⟨e.chan, band, e.pwr, false⟩ := by
  have hmap := congrArg (List.map fun c : ℕ × ℕ => (⟨c.1, band, c.2, false⟩ : ChanPower)) (h.covers regionCode).channels_eq
  rw [DomainReg.channels, map_flatMap, map_map] at hmap
  exact hmap

end

/-- What is read of the element is what was put into it. -/
theorem subBands_elementOf (r : DomainReg) (countryCode : ℕ) :
    (List.range (((r.elementOf countryCode).len - countryCodeLen) / 3)).map (r.elementOf countryCode).subBand = r.subBand := by
  have hcount : ((r.elementOf countryCode).len - countryCodeLen) / 3 = r.subBand.length := by
    unfold DomainReg.elementOf
    rw [Nat.add_sub_cancel_left, Nat.mul_div_cancel_left _ (by decide)]
  rw [hcount]
  refine ext_getElem (by simp) fun j hj hj' => ?_
  simp [DomainReg.elementOf, getD_eq_getElem?_getD, getElem?_eq_getElem hj']

/-- **The subbands of a table** of one band expand to the table again, its length is one of an octet, and they cover the
table without overlap. -/
theorem parseDomainInfo_elementOf (t : ParsedRegionChan) (band regionCode countryCode : ℕ) (cfp : List ℕ)
    (hcfp : channelsUn band = some cfp) (h : t.OfBand band cfp) (hcode : countryCode ≠ 0) :
    (((parseDomainInfo ((t.generateDomainInfo regionCode).elementOf countryCode) band).map
          fun chans => chans.map ChanPower.said) = some (t.entries.map ChanPower.said)) ∧
      ((t.generateDomainInfo regionCode).elementOf countryCode).len < 256 ∧
      (t.generateDomainInfo regionCode).Covers t := by
  have hcovers := h.covers regionCode
  have hlen := length_subBand_le t regionCode
  have hexpand := h.expand_eq regionCode
  refine ⟨?_, ?_, hcovers⟩
  · have hguard : ¬(((t.generateDomainInfo regionCode).elementOf countryCode).countryCode = 0 ∨
        ((t.generateDomainInfo regionCode).elementOf countryCode).len ≤ countryCodeLen) := by
      have := length_pos_iff.mpr (h.subBand_ne_nil regionCode)
      simp only [DomainReg.elementOf]
      omega
    unfold parseDomainInfo
    rw [if_neg hguard, subBands_elementOf, Option.map_some,
      foldl_parseStep hcfp hcovers.pos (h.mem_cfp regionCode) hcovers.apart (h.firstChan_pos hcfp regionCode)
        (by rw [hexpand, length_map, length_entries, length_nil, Nat.zero_add]; exact t.fits),
      hexpand, nil_append, map_map]
    refine congrArg some (map_congr_left fun e he => ?_)
    simp [ChanPower.said, h.band_eq e he]
  · have := t.fits
    simp only [DomainReg.elementOf, countryCodeLen, maxNoOfChan] at *
    omega

/-- Channels of the 5 GHz band, half a step and more apart. -/
def channels36To44 : ParsedRegionChan :=
  ⟨3, fun j => [⟨36, 4, 20, false⟩, ⟨38, 4, 20, true⟩, ⟨44, 4, 17, false⟩].getD j .cleared, by decide⟩

theorem parseDomainInfo_elementOf_36 :
    (((parseDomainInfo ((channels36To44.generateDomainInfo 0x30).elementOf 0x44) 4).map
          fun chans => chans.map ChanPower.said) = some (channels36To44.entries.map ChanPower.said)) ∧
      ((channels36To44.generateDomainInfo 0x30).elementOf 0x44).len < 256 ∧
      (channels36To44.generateDomainInfo 0x30).Covers channels36To44 :=
  parseDomainInfo_elementOf channels36To44 4 0x30 0x44 channelsUnAj rfl
    ⟨by decide, by decide, by decide, by decide⟩ (by decide)

end ParsedRegionChan

end WlanDriver.Dfs
