import Mathlib.Tactic.Linarith
import WlanDriver.Dfs.RegionTable

/-!
# The domain information of a country element

`wlan_11d_parse_dnld_countryinfo` lowers a copy of the learned table to what the access point's country element allows, and
downloads it as subbands (`wlan_11d_generate_domain_info`). The source says that a channel that both have gets the smaller
power. The loops run over the element with `i` and over the table with `j`, but compare the `i`-th entry of the table with
the `j`-th channel of the element, and lower the `j`-th entry to the power of the `i`-th channel : what is behind the entries
and channels in use is read as well.

The subbands say the same as the table (`channels_generateDomainInfo`), whatever it is.

`respects_iff` : the powers are right exactly where no entry is lowered too far by an index that answers for it, and each that
is to be lowered is lowered as far by one of them.
-/

namespace WlanDriver.Dfs

open List

/-- What `memset` leaves. -/
def ChanPower.cleared : ChanPower :=
  ⟨0, 0, 0, false⟩

/-- `parsed_region_chan_11d_t` : what is behind the entries in use is there to be read. -/
structure ParsedRegionChan where
  noOfChan : ℕ
  chanPwr : ℕ → ChanPower
  fits : noOfChan ≤ maxNoOfChan

def regionCodeMapping : List (String × ℕ) :=
  [("US ", 0x10), ("CA ", 0x20), ("SG ", 0x10), ("EU ", 0x30), ("AU ", 0x30), ("KR ", 0x30), ("FR ", 0x32), ("JP ", 0x40),
    ("JP ", 0x41), ("CN ", 0x50), ("JP ", 0xFE), ("JP ", 0xFF), ("NE ", 0x30)]

/-- `wlan_11d_code_2_region`. -/
def code2Region (code : ℕ) : String :=
  ((regionCodeMapping.find? fun m => m.2 = code).map Prod.fst).getD "US "

/-- `wlan_802_11d_domain_reg_t`. -/
structure DomainReg where
  countryCode : String
  subBand : List SubbandSet

/-- The subbands that are written, and the one that is open (`flag`). -/
structure Grouping where
  subBand : List SubbandSet
  flag : Bool
  firstChan : ℕ
  nextChan : ℕ
  maxPwr : ℕ
  noOfParsedChan : ℕ

namespace Grouping

/-- Nothing is open. -/
def init : Grouping :=
  ⟨[], false, 0, 0, 0, 0⟩

/-- The subband that is open. -/
def current (g : Grouping) : SubbandSet :=
  ⟨g.firstChan, g.noOfParsedChan, g.maxPwr⟩

/-- One channel of the table. -/
def turn (g : Grouping) (e : ChanPower) : Grouping :=
  if g.flag = false then { g with flag := true, firstChan := e.chan, nextChan := e.chan, maxPwr := e.pwr, noOfParsedChan := 1 }
  else if e.chan = g.nextChan + 1 ∧ e.pwr = g.maxPwr then
    { g with nextChan := g.nextChan + 1, noOfParsedChan := g.noOfParsedChan + 1 }
  else ⟨g.subBand ++ [g.current], true, e.chan, e.chan, e.pwr, 1⟩

/-- Behind the loop. -/
def close (g : Grouping) : List SubbandSet :=
  if g.flag then g.subBand ++ [g.current] else g.subBand

end Grouping

namespace ParsedRegionChan

variable (t : ParsedRegionChan)

/-- The entries in use. -/
def entries : List ChanPower :=
  (List.range t.noOfChan).map t.chanPwr

/-- The `j`-th power becomes the smaller one. -/
def lower (j pwr : ℕ) : ParsedRegionChan :=
  { t with chanPwr := Function.update t.chanPwr j { t.chanPwr j with pwr := min (t.chanPwr j).pwr pwr } }

/-- The channel `i` of the element : the first `j` that the comparison finds. -/
def updateTurn (b : List ChanPower) (i : ℕ) : ParsedRegionChan :=
  match (List.range (min t.noOfChan maxNoOfChan)).find? fun j =>
      (t.chanPwr i).chan = (b.getD j .cleared).chan ∧ (t.chanPwr i).band = (b.getD j .cleared).band with
  | none => t
  | some j => t.lower j (b.getD i .cleared).pwr

/-- The channel-power table is updated. -/
def update (b : List ChanPower) : ParsedRegionChan :=
  (List.range (min b.length maxNoOfChan)).foldl (fun t i => t.updateTurn b i) t

/-- `wlan_11d_generate_domain_info`. -/
def generateDomainInfo (regionCode : ℕ) : DomainReg :=
  ⟨code2Region regionCode, (t.entries.foldl Grouping.turn .init).close⟩

/-- `wlan_11d_parse_dnld_countryinfo` : the domain information that is downloaded, if 802.11d is enabled. -/
def parseDnldCountryinfo (enabled : Bool) (regionCode : ℕ) (bss : Option BssDesc) : Option DomainReg :=
  if enabled then
    match bss.bind fun d => parseDomainInfo d.countryInfo d.bssBand with
    | none => some (t.generateDomainInfo regionCode)
    | some b => some ((t.update b).generateDomainInfo regionCode)
  else none

end ParsedRegionChan

/-! ## What is downloaded -/

/-- The channels of a subband. -/
def SubbandSet.channels (s : SubbandSet) : List (ℕ × ℕ) :=
  (List.range s.noOfChan).map fun k => (s.firstChan + k, s.maxTxPwr)

/-- The channels that the firmware is given, each with its power. -/
def DomainReg.channels (r : DomainReg) : List (ℕ × ℕ) :=
  r.subBand.flatMap SubbandSet.channels

/-- The power that is due : the smaller one where the element has the channel. -/
def ChanPower.due (b : List ChanPower) (e : ChanPower) : ℕ :=
  match Keyed.look ChanPower.key e.key b with
  | none => e.pwr
  | some x => min e.pwr x.pwr

namespace ParsedRegionChan

/-- The entry `j` is the first whose place in the element has the channel that is in the table at `i`. -/
def Answers (t : ParsedRegionChan) (b : List ChanPower) (i j : ℕ) : Prop :=
  j < t.noOfChan ∧ (t.chanPwr i).key = (b.getD j .cleared).key ∧ ∀ k < j, (t.chanPwr i).key ≠ (b.getD k .cleared).key

/-- The two orders agree as far as the powers need it. -/
structure Agrees (t : ParsedRegionChan) (b : List ChanPower) : Prop where
  notBelow : ∀ j < t.noOfChan, ∀ i < b.length, t.Answers b i j → (t.chanPwr j).due b ≤ (b.getD i .cleared).pwr
  reached : ∀ j < t.noOfChan, (t.chanPwr j).due b < (t.chanPwr j).pwr →
    ∃ i < b.length, t.Answers b i j ∧ (b.getD i .cleared).pwr = (t.chanPwr j).due b

end ParsedRegionChan

/-! ## Subbands -/

namespace Grouping

variable {g : Grouping} {e : ChanPower} {l : List ChanPower}

/-- The open subband ends with `next_chan`. -/
structure Ok (g : Grouping) (l : List ChanPower) : Prop where
  closed : g.flag = false → g.subBand = [] ∧ l = []
  next : g.flag → g.firstChan + g.noOfParsedChan = g.nextChan + 1
  channels_eq : g.close.flatMap SubbandSet.channels = l.map fun e => (e.chan, e.pwr)

theorem channels_one (c p : ℕ) : (SubbandSet.mk c 1 p).channels = [(c, p)] :=
  rfl

/-- A subband grows by its next channel. -/
theorem channels_succ (c n p : ℕ) : (SubbandSet.mk c (n + 1) p).channels = (SubbandSet.mk c n p).channels ++ [(c + n, p)] := by
  simp [SubbandSet.channels, range_succ]

theorem Ok.turn (h : g.Ok l) (e : ChanPower) : (g.turn e).Ok (l ++ [e]) := by
  unfold Grouping.turn
  split_ifs with hflag hgrow
  · obtain ⟨hsub, rfl⟩ := h.closed hflag
    exact ⟨fun hf => by simp at hf, fun _ => rfl, by simp [close, hsub, current, channels_one]⟩
  · rw [Bool.not_eq_false] at hflag
    have hnext := h.next hflag
    have hchan := h.channels_eq
    simp only [close, hflag, if_true, flatMap_append, flatMap_singleton] at hchan
    refine ⟨fun hf => by simp [hflag] at hf, fun _ => by dsimp only; omega, ?_⟩
    have hgrown : (g.firstChan + g.noOfParsedChan, g.maxPwr) = (e.chan, e.pwr) := by rw [hnext, hgrow.1, hgrow.2]
    simp only [close, hflag, if_true, flatMap_append, flatMap_singleton, current, channels_succ]
    rw [← append_assoc, hgrown, map_append, ← hchan]
    rfl
  · rw [Bool.not_eq_false] at hflag
    have hchan := h.channels_eq
    simp only [close, hflag, if_true] at hchan
    refine ⟨fun hf => by simp at hf, fun _ => rfl, ?_⟩
    simp only [close, if_true]
    rw [flatMap_append, hchan, map_append]
    rfl

theorem ok_foldl (l : List ChanPower) : (l.foldl turn init).Ok l := by
  induction l using List.reverseRecOn with
  | nil => exact ⟨fun _ => ⟨rfl, rfl⟩, fun hf => by simp [init] at hf, rfl⟩
  | append_singleton l e ih =>
    rw [foldl_append]
    exact ih.turn e

end Grouping

namespace ParsedRegionChan

variable {t : ParsedRegionChan} {b : List ChanPower} {i j : ℕ}

/-- The subbands say what the table says. -/
theorem channels_generateDomainInfo (t : ParsedRegionChan) (regionCode : ℕ) :
    (t.generateDomainInfo regionCode).channels = t.entries.map fun e => (e.chan, e.pwr) :=
  (Grouping.ok_foldl t.entries).channels_eq

/-! ## Lowering -/

@[simp] theorem noOfChan_lower (p : ℕ) : (t.lower j p).noOfChan = t.noOfChan :=
  rfl

theorem chanPwr_lower_self (p : ℕ) :
    (t.lower j p).chanPwr j = { t.chanPwr j with pwr := min (t.chanPwr j).pwr p } := by
  simp [lower]

theorem chanPwr_lower_of_ne (p : ℕ) (h : i ≠ j) : (t.lower j p).chanPwr i = t.chanPwr i := by
  simp [lower, h]

@[simp] theorem key_lower (p : ℕ) : ((t.lower j p).chanPwr i).key = (t.chanPwr i).key := by
  by_cases h : i = j
  · subst h
    rw [chanPwr_lower_self]
    rfl
  · rw [chanPwr_lower_of_ne p h]

theorem updateTurn_cases (t : ParsedRegionChan) (b : List ChanPower) (i : ℕ) :
    ((∀ j, ¬t.Answers b i j) ∧ t.updateTurn b i = t) ∨
      ∃ j, t.Answers b i j ∧ t.updateTurn b i = t.lower j (b.getD i .cleared).pwr := by
  unfold updateTurn
  rw [min_eq_left t.fits]
  split
  · next hnone =>
    refine .inl ⟨fun j hj => ?_, rfl⟩
    have hne := find?_eq_none.mp hnone j (mem_range.mpr hj.1)
    simp only [decide_eq_true_eq] at hne
    exact hne ⟨congrArg Prod.fst hj.2.1, congrArg Prod.snd hj.2.1⟩
  · next j hsome =>
    rw [find?_range_eq_some] at hsome
    obtain ⟨hhit, hj, hfirst⟩ := hsome
    simp only [decide_eq_true_eq, Bool.not_eq_true', decide_eq_false_iff_not] at hhit hfirst
    refine .inr ⟨j, ⟨mem_range.mp hj, Prod.ext hhit.1 hhit.2, fun k hk heq => ?_⟩, rfl⟩
    exact hfirst k hk ⟨congrArg Prod.fst heq, congrArg Prod.snd heq⟩

/-- An index answers for one entry at most. -/
theorem Answers.unique {j' : ℕ} (h : t.Answers b i j) (h' : t.Answers b i j') : j = j' := by
  rcases lt_trichotomy j j' with hlt | heq | hgt
  · exact absurd h.2.1 (h'.2.2 j hlt)
  · exact heq
  · exact absurd h'.2.1 (h.2.2 j' hgt)

/-- What the turns before `m` have done to the table. -/
structure Lowered (t s : ParsedRegionChan) (b : List ChanPower) (m : ℕ) : Prop where
  noOfChan_eq : s.noOfChan = t.noOfChan
  key_eq : ∀ j, (s.chanPwr j).key = (t.chanPwr j).key
  le_self : ∀ j, (s.chanPwr j).pwr ≤ (t.chanPwr j).pwr
  le_answer : ∀ i < m, ∀ j, t.Answers b i j → (s.chanPwr j).pwr ≤ (b.getD i .cleared).pwr
  source : ∀ j, (s.chanPwr j).pwr = (t.chanPwr j).pwr ∨
    ∃ i < m, t.Answers b i j ∧ (s.chanPwr j).pwr = (b.getD i .cleared).pwr

theorem Lowered.answers {s : ParsedRegionChan} {m : ℕ} (h : Lowered t s b m) :
    s.Answers b i j ↔ t.Answers b i j := by
  simp only [Answers, h.noOfChan_eq, h.key_eq]

theorem Lowered.step {s : ParsedRegionChan} {m : ℕ} (h : Lowered t s b m) : Lowered t (s.updateTurn b m) b (m + 1) := by
  rcases updateTurn_cases s b m with ⟨hnone, hs⟩ | ⟨j₀, hj₀, hs⟩
  · rw [hs]
    refine ⟨h.noOfChan_eq, h.key_eq, h.le_self, fun i hi j hj => ?_, fun j => ?_⟩
    · rcases Nat.lt_succ_iff_lt_or_eq.mp hi with hlt | rfl
      · exact h.le_answer i hlt j hj
      · exact absurd (h.answers.mpr hj) (hnone j)
    · exact (h.source j).imp_right fun ⟨i, hi, hrest⟩ => ⟨i, hi.trans m.lt_succ_self, hrest⟩
  · rw [hs]
    have hanswers : t.Answers b m j₀ := h.answers.mp hj₀
    have hle : ∀ j, ((s.lower j₀ (b.getD m .cleared).pwr).chanPwr j).pwr ≤ (s.chanPwr j).pwr := by
      intro j
      by_cases hj : j = j₀
      · subst hj
        rw [chanPwr_lower_self]
        exact min_le_left _ _
      · rw [chanPwr_lower_of_ne _ hj]
    refine ⟨h.noOfChan_eq, fun j => (key_lower _).trans (h.key_eq j), fun j => (hle j).trans (h.le_self j),
      fun i hi j hj => ?_, fun j => ?_⟩
    · rcases Nat.lt_succ_iff_lt_or_eq.mp hi with hlt | rfl
      · exact (hle j).trans (h.le_answer i hlt j hj)
      · obtain rfl := hj.unique hanswers
        rw [chanPwr_lower_self]
        exact min_le_right _ _
    · by_cases hj : j = j₀
      · subst hj
        rw [chanPwr_lower_self]
        rcases min_choice (s.chanPwr j).pwr (b.getD m .cleared).pwr with hmin | hmin
        · simp only [hmin]
          exact (h.source j).imp_right fun ⟨i, hi, hrest⟩ => ⟨i, hi.trans m.lt_succ_self, hrest⟩
        · exact .inr ⟨m, m.lt_succ_self, hanswers, hmin⟩
      · rw [chanPwr_lower_of_ne _ hj]
        exact (h.source j).imp_right fun ⟨i, hi, hrest⟩ => ⟨i, hi.trans m.lt_succ_self, hrest⟩

/-- What all turns have done. -/
theorem lowered_update (t : ParsedRegionChan) (hb : b.length ≤ maxNoOfChan) : Lowered t (t.update b) b b.length := by
  have hrun : ∀ m, Lowered t ((List.range m).foldl (fun t i => t.updateTurn b i) t) b m := by
    intro m
    induction m with
    | zero => exact ⟨rfl, fun _ => rfl, fun _ => le_rfl, by simp, fun _ => .inl rfl⟩
    | succ m ih =>
      rw [range_succ, foldl_append]
      exact ih.step
  unfold update
  rw [min_eq_left hb]
  exact hrun _

theorem due_le (b : List ChanPower) (e : ChanPower) : e.due b ≤ e.pwr := by
  unfold ChanPower.due
  split
  · exact le_rfl
  · exact min_le_left _ _

/-- The powers are the ones that are due, if the two orders agree. -/
theorem Lowered.pwr_eq_due_iff {s : ParsedRegionChan} (h : Lowered t s b b.length) :
    (∀ j < t.noOfChan, (s.chanPwr j).pwr = (t.chanPwr j).due b) ↔ t.Agrees b := by
  constructor
  · intro hdue
    refine ⟨fun j hj i hi hans => hdue j hj ▸ h.le_answer i hi j hans, fun j hj hlt => ?_⟩
    rcases h.source j with heq | ⟨i, hi, hans, heq⟩
    · rw [← hdue j hj, heq] at hlt
      exact absurd hlt (lt_irrefl _)
    · exact ⟨i, hi, hans, heq.symm.trans (hdue j hj)⟩
  · intro hagree j hj
    refine le_antisymm ?_ ?_
    · rcases (due_le b (t.chanPwr j)).lt_or_eq with hlt | heq
      · obtain ⟨i, hi, hans, hpwr⟩ := hagree.reached j hj hlt
        exact hpwr ▸ h.le_answer i hi j hans
      · exact heq ▸ h.le_self j
    · rcases h.source j with heq | ⟨i, hi, hans, heq⟩
      · exact heq ▸ due_le b _
      · exact heq ▸ hagree.notBelow j hj i hi hans

/-- The powers that are downloaded, against those of a function. -/
theorem Lowered.channels_eq_iff {s : ParsedRegionChan} {m : ℕ} (h : Lowered t s b m) (p : ChanPower → ℕ) :
    (s.entries.map fun e => (e.chan, e.pwr)) = (t.entries.map fun e => (e.chan, p e)) ↔
      ∀ j < t.noOfChan, (s.chanPwr j).pwr = p (t.chanPwr j) := by
  unfold entries
  rw [h.noOfChan_eq, map_map, map_map, map_inj_left]
  refine forall_congr' fun j => ?_
  rw [mem_range]
  have hchan : (s.chanPwr j).chan = (t.chanPwr j).chan := congrArg Prod.fst (h.key_eq j)
  simp [hchan]

/-- The access point's limits are respected : each channel of the table, in its band, is downloaded with the power due. -/
def Respects (t : ParsedRegionChan) (regionCode : ℕ) (d : BssDesc) (b : List ChanPower) : Prop :=
  ∃ r, t.parseDnldCountryinfo true regionCode (some d) = some r ∧
    r.channels = t.entries.map fun e => (e.chan, e.due b)

/-- **The power limits of a connection** are respected exactly where the orders of the table and the element agree. -/
theorem respects_iff (t : ParsedRegionChan) (regionCode : ℕ) (d : BssDesc) (b : List ChanPower)
    (hb : parseDomainInfo d.countryInfo d.bssBand = some b) : t.Respects regionCode d b ↔ t.Agrees b := by
  obtain ⟨last, hexp⟩ := expanded_of_parse hb
  have hlow : Lowered t (t.update b) b b.length := lowered_update t hexp.fits
  have hdnld : t.parseDnldCountryinfo true regionCode (some d) = some ((t.update b).generateDomainInfo regionCode) := by
    simp [parseDnldCountryinfo, hb]
  rw [← hlow.pwr_eq_due_iff, ← hlow.channels_eq_iff, ← channels_generateDomainInfo (t.update b) regionCode]
  constructor
  · rintro ⟨r, hr, hchan⟩
    obtain rfl := Option.some.inj (hdnld.symm.trans hr)
    exact hchan
  · intro hchan
    exact ⟨_, hdnld, hchan⟩

/-! ## Two channels -/

/-- The channels 1 and 6 are learned with 20 dBm each. -/
def learned1And6 : ParsedRegionChan :=
  ⟨2, fun j => [⟨1, 2, 20, true⟩, ⟨6, 2, 20, true⟩].getD j .cleared, by decide⟩

/-- A country element for the channels from `first` on. -/
def elementFrom (first noOfChan pwr : ℕ) : BssDesc :=
  ⟨first, 2, ⟨0x55, 6, fun _ => ⟨first, noOfChan, pwr⟩⟩⟩

/-- The element begins where the table does. -/
theorem respects_iff_from1 : learned1And6.Respects 0x10 (elementFrom 1 1 10) [⟨1, 2, 10, false⟩] := by
  refine (respects_iff learned1And6 0x10 (elementFrom 1 1 10) [⟨1, 2, 10, false⟩] (by decide)).mpr ⟨?_, ?_⟩
  · intro j hj i hi hans
    obtain rfl : i = 0 := by simpa using hi
    obtain rfl | rfl : j = 0 ∨ j = 1 := by have : j < 2 := hj; omega
    · decide
    · exact absurd hans.2.1 (by decide)
  · intro j hj hlt
    obtain rfl | rfl : j = 0 ∨ j = 1 := by have : j < 2 := hj; omega
    · exact ⟨0, by decide, ⟨by decide, rfl, by simp⟩, rfl⟩
    · exact absurd hlt (by decide)

/-- The element has the channel 6 with 10 dBm : it stands at the first place, the table has it at the second, and 20 dBm are
downloaded. -/
theorem not_respects_from6 : parseDomainInfo (elementFrom 6 1 10).countryInfo 2 = some [⟨6, 2, 10, false⟩] ∧
    ¬learned1And6.Respects 0x10 (elementFrom 6 1 10) [⟨6, 2, 10, false⟩] := by
  refine ⟨by decide, ?_⟩
  rintro ⟨r, hr, hchan⟩
  have hdnld : (learned1And6.parseDnldCountryinfo true 0x10 (some (elementFrom 6 1 10))).map DomainReg.channels =
      some [(1, 20), (6, 20)] := by decide
  rw [hr, Option.map_some, hchan] at hdnld
  exact absurd hdnld (by decide)

end ParsedRegionChan

end WlanDriver.Dfs
