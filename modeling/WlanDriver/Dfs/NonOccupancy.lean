import WlanDriver.Dfs.ReportEvent
import WlanDriver.Lib.Keyed
import WlanDriver.Lib.System

/-!
# The non-occupancy period

A channel with radar is closed twice : `dfs_ts_head` has a timestamp for it, and its entry of the channel table has the
state `DFS_UNAVAILABLE`. Report and radar events write both for all the channels of a bonded group, the handling of radar
writes the timestamp of one channel, the ioctl either, and `wlan_11h_is_channel_under_nop` removes an expired timestamp and
makes the channel `DFS_USABLE`. The clock moves forward between the steps.

History : `reported` has each radar report, with its time, since the timestamps were cleared.

`channels_closed` : a channel has one timestamp, is under NOP for the whole period after each report, and is not
`DFS_AVAILABLE` meanwhile, in runs whose steps are `Clean`. A report event without radar makes its whole group available,
even where the request failed or a channel of the group is under NOP; and so does the ioctl.
-/

namespace WlanDriver.Dfs

open List Option Keyed

def wlan11hNonOccupancyPeriod : ℕ := 1800

/-- `dfs_state_t`. -/
inductive DfsState
  | usable
  | unavailable
  | available
  deriving DecidableEq

/-- `_dfs_timestamp_repr_e`. -/
inductive TsRepr
  | notInUse
  | nopStart
  | cacCompletion
  deriving DecidableEq

/-- `wlan_dfs_timestamp_t`. -/
structure DfsTimestamp where
  channel : ℕ
  represents : TsRepr
  tsSec : ℕ
  deriving DecidableEq

/-- An entry of the channel table. -/
structure ChanFreqPower where
  channel : ℕ
  dfsState : DfsState
  deriving DecidableEq

/-- `CHAN_BW_20MHZ`, `CHAN_BW_40MHZ` and `CHAN_BW_80MHZ`. -/
def chanBw20 : ℕ := 0

def chanBw40 : ℕ := 2

def chanBw80 : ℕ := 3

def ht40Plus : List ℕ := [52, 60, 100, 108, 116, 124, 132, 140]

def ht40Minus : List ℕ := [56, 64, 104, 112, 120, 128, 136, 144]

def vht80Dfs : List (List ℕ) :=
  [[52, 56, 60, 64], [100, 104, 108, 112], [116, 120, 124, 128], [132, 136, 140, 144]]

/-- `woal_get_bonded_channels`. A channel or a width that it does not know gives the one channel that `chan_list` was
cleared to. -/
def getBondedChannels (priChan bw : ℕ) : List ℕ :=
  if bw = chanBw20 then [priChan]
  else if bw = chanBw40 then
    if priChan ∈ ht40Minus then [priChan, priChan - 4]
    else if priChan ∈ ht40Plus then [priChan, priChan + 4]
    else [priChan]
  else if bw = chanBw80 then (vht80Dfs.find? fun g => decide (priChan ∈ g)).getD [0]
  else [0]

/-- The timestamps, the channel table and the clock. -/
structure Nop where
  dfsTs : List DfsTimestamp
  /-- The channels of `BAND_A`; without a table there are none. -/
  pcfp : List ChanFreqPower
  /-- 32 bits of seconds. -/
  sec : ℕ
  /-- Time, channel and bandwidth of the reports of radar. -/
  reported : List (ℕ × ℕ × ℕ)

/-- The group that a radar event names, or else the one that was checked. -/
def radarGroup (buf : EventBuf) (chan bw : ℕ) : ℕ × ℕ :=
  if 6 ≤ buf.length then (buf.byte 5, buf.byte 4 / 4 % 4) else (chan, bw)

namespace Nop

/-- The steps; `chan` and `bw` of an event are those that a check was asked for. -/
inductive Op
  | report (buf : EventBuf) (chan bw : ℕ)
  | radar (buf : EventBuf) (chan bw : ℕ)
  /-- `wlan_11h_radar_detected_handling` has the channel that radar was found on. -/
  | handling (chan : ℕ)
  | getDfsState (chan : ℕ)
  | setDfsState (chan : ℕ) (st : DfsState)
  /-- `wlan_11h_ioctl_channel_nop_info` with `MLAN_ACT_CLEAR`. -/
  | clear
  | query (chan : ℕ)
  | tick (d : ℕ)
  deriving DecidableEq

variable (userNopPeriodSec : ℕ) (s : Nop)

/-- The non-occupancy period : `user_nop_period_sec`, if it is set. -/
def period : ℕ :=
  if userNopPeriodSec ≠ 0 then userNopPeriodSec else wlan11hNonOccupancyPeriod

/-- `wlan_11h_find_dfs_timestamp`. -/
def findDfsTimestamp (chan : ℕ) : Option DfsTimestamp :=
  look DfsTimestamp.channel chan s.dfsTs

/-- `wlan_11h_add_dfs_timestamp`. -/
def addDfsTimestamp (repr : TsRepr) (chan : ℕ) : Nop :=
  { s with dfsTs := alter DfsTimestamp.channel chan (fun _ => ⟨chan, repr, s.sec⟩) s.dfsTs }

/-- The timestamps of a list of channels. -/
def addTimestamps (repr : TsRepr) (l : List ℕ) : Nop :=
  l.foldl (fun s c => s.addDfsTimestamp repr c) s

/-- `wlan_11h_add_all_dfs_timestamp`. -/
def addAllDfsTimestamp (repr : TsRepr) (chan bw : ℕ) : Nop :=
  s.addTimestamps repr (getBondedChannels chan bw)

def setChanDfsState (chan : ℕ) (st : DfsState) : Nop :=
  { s with pcfp := modify ChanFreqPower.channel chan (fun e => { e with dfsState := st }) s.pcfp }

/-- The states of a list of channels. -/
def setStates (st : DfsState) (l : List ℕ) : Nop :=
  l.foldl (fun s c => s.setChanDfsState c st) s

/-- `wlan_11h_set_chan_dfs_state`. -/
def setGroupDfsState (chan bw : ℕ) (st : DfsState) : Nop :=
  s.setStates st (getBondedChannels chan bw)

def getChanDfsState (chan : ℕ) : DfsState :=
  ((look ChanFreqPower.channel chan s.pcfp).map ChanFreqPower.dfsState).getD .usable

/-- The channel has a timestamp of the start of a non-occupancy period, which `p` holds of the age of. -/
def nopAge (chan : ℕ) (p : ℕ → Bool) : Bool :=
  (s.findDfsTimestamp chan).any fun ts =>
    decide (ts.represents = .nopStart) && p ((s.sec + 2 ^ 32 - ts.tsSec) % 2 ^ 32)

/-- The channel is under NOP. -/
def underNop (chan : ℕ) : Bool :=
  s.nopAge chan fun age => decide (age ≤ period userNopPeriodSec)

/-- The timestamp has expired. -/
def expired (chan : ℕ) : Bool :=
  s.nopAge chan fun age => decide (period userNopPeriodSec < age)

/-- `wlan_11h_is_channel_under_nop`. -/
def isChannelUnderNop (chan : ℕ) : Bool × Nop :=
  if s.underNop userNopPeriodSec chan then (true, s)
  else if s.expired userNopPeriodSec chan then
    (false, setChanDfsState { s with dfsTs := erase DfsTimestamp.channel chan s.dfsTs } chan .usable)
  else (false, s)

/-- Radar is found on a group : its timestamps, and its states. -/
def closeGroup (g : ℕ × ℕ) : Nop :=
  let s' := (s.addAllDfsTimestamp .nopStart g.1 g.2).setGroupDfsState g.1 g.2 .unavailable
  { s' with reported := (s.sec, g) :: s.reported }

/-- `wlan_11h_handle_event_chanrpt_ready`. -/
def handleEventChanrptReady (r : ReportEvent) (chan bw : ℕ) : Nop :=
  let g := r.group chan bw
  if r.findings.dfsRadarFound then s.closeGroup g else s.setGroupDfsState g.1 g.2 .available

/-- `wlan_11h_print_event_radar_detected`. -/
def printEventRadarDetected (buf : EventBuf) (chan bw : ℕ) : Nop :=
  s.closeGroup (radarGroup buf chan bw)

/-- `wlan_11h_ioctl_chan_dfs_state` with `MLAN_ACT_SET`. -/
def ioctlChanDfsState (chan : ℕ) (st : DfsState) : Nop :=
  match st with
  | .unavailable => (s.addDfsTimestamp .nopStart chan).setChanDfsState chan .unavailable
  | .available => (s.isChannelUnderNop userNopPeriodSec chan).2.setChanDfsState chan .available
  | .usable => s.setChanDfsState chan .usable

/-- `wlan_11h_cleanup` and `wlan_reset_all_chan_dfs_state`. -/
def clear : Nop :=
  { s with dfsTs := [], pcfp := s.pcfp.map fun e => { e with dfsState := .usable }, reported := [] }

/-- One step. -/
def step : Op → Option Nop
  | .report buf chan bw => some (s.handleEventChanrptReady (.read buf) chan bw)
  | .radar buf chan bw => some (s.printEventRadarDetected buf chan bw)
  | .handling chan => some (s.addDfsTimestamp .nopStart chan)
  | .getDfsState chan => some (s.isChannelUnderNop userNopPeriodSec chan).2
  | .setDfsState chan st => some (s.ioctlChanDfsState userNopPeriodSec chan st)
  | .clear => some s.clear
  | .query chan => some (s.isChannelUnderNop userNopPeriodSec chan).2
  | .tick d => if s.sec + d < 2 ^ 32 then some { s with sec := s.sec + d } else none

/-- No channel is closed or available yet. -/
def Init : Prop :=
  s.dfsTs = [] ∧ (∀ e ∈ s.pcfp, e.dfsState = .usable) ∧ s.sec < 2 ^ 32 ∧ s.reported = []

/-- The runs of the non-occupancy periods. -/
def nopSystem : System Nop Op where
  init := Init
  step := step userNopPeriodSec

/-- What is true of the closed channels. -/
structure Closed : Prop where
  one : Keyed.Distinct DfsTimestamp.channel s.dfsTs
  /-- A report of radar closes the channels of its group for the whole period. -/
  kept : ∀ t c bw, (t, c, bw) ∈ s.reported → ∀ chan ∈ getBondedChannels c bw,
    s.sec ≤ t + period userNopPeriodSec → (s.isChannelUnderNop userNopPeriodSec chan).1 = true
  unavailable : ∀ chan, (s.isChannelUnderNop userNopPeriodSec chan).1 = true → s.getChanDfsState chan ≠ .available

/-- A report event makes channels available only if it was successful and without radar. -/
def Op.Opens (s s' : Nop) : Op → Prop
  | .report buf _ _ => ∀ chan, s.getChanDfsState chan ≠ .available → s'.getChanDfsState chan = .available →
      (ReportEvent.read buf).success ∧ ¬(ReportEvent.read buf).findings.dfsRadarFound
  | _ => True

/-- The channel is in the table. -/
def known (chan : ℕ) : Bool :=
  (look ChanFreqPower.channel chan s.pcfp).isSome

/-- Whether a step can be taken without a closed channel being opened. -/
def Op.Clean (s : Nop) : Op → Prop
  | .report buf chan bw => (ReportEvent.read buf).findings.dfsRadarFound ∨
      ∀ c ∈ getBondedChannels ((ReportEvent.read buf).group chan bw).1 ((ReportEvent.read buf).group chan bw).2,
        s.known c → s.underNop userNopPeriodSec c = false ∧
          ((ReportEvent.read buf).success ∨ s.getChanDfsState c = .available)
  | .setDfsState chan st => st = .available → s.known chan → s.underNop userNopPeriodSec chan = false
  | .handling chan => s.getChanDfsState chan ≠ .available
  | _ => True

instance (op : Op) : Decidable (op.Clean userNopPeriodSec s) := by
  cases op <;> unfold Op.Clean <;> infer_instance

/-! ## Timestamps and states behind each write -/

variable {userNopPeriodSec s} {s' : Nop} {op : Op} {chan c bw : ℕ} {repr : TsRepr} {st : DfsState} {l : List ℕ}

theorem find_add : (s.addDfsTimestamp repr c).findDfsTimestamp chan =
    if chan = c then some ⟨c, repr, s.sec⟩ else s.findDfsTimestamp chan :=
  look_alter fun _ _ => rfl

theorem distinct_add (h : Keyed.Distinct DfsTimestamp.channel s.dfsTs) :
    Keyed.Distinct DfsTimestamp.channel (s.addDfsTimestamp repr c).dfsTs :=
  h.alter fun _ _ => rfl

/-- The timestamps of a list of channels. -/
theorem find_addAll (s : Nop) (repr : TsRepr) (l : List ℕ) (chan : ℕ) :
    (s.addTimestamps repr l).findDfsTimestamp chan =
    if chan ∈ l then some ⟨chan, repr, s.sec⟩ else s.findDfsTimestamp chan := by
  induction l generalizing s with
  | nil => rfl
  | cons c l ih =>
    rw [addTimestamps, foldl_cons, ← addTimestamps, ih, find_add]
    by_cases hl : chan ∈ l
    · simp [hl, addDfsTimestamp]
    · by_cases hc : chan = c
      · subst hc
        simp [hl]
      · simp [hl, hc]

theorem addAll_frame (repr : TsRepr) (l : List ℕ) (s : Nop) : ∃ ts, s.addTimestamps repr l = { s with dfsTs := ts } ∧
    (Keyed.Distinct DfsTimestamp.channel s.dfsTs → Keyed.Distinct DfsTimestamp.channel ts) := by
  induction l generalizing s with
  | nil => exact ⟨s.dfsTs, rfl, id⟩
  | cons c l ih =>
    obtain ⟨ts, hts, hd⟩ := ih (s.addDfsTimestamp repr c)
    exact ⟨ts, by rw [addTimestamps, foldl_cons, ← addTimestamps, hts]; rfl, fun h => hd (distinct_add h)⟩

theorem look_setChan : Keyed.look ChanFreqPower.channel chan (s.setChanDfsState c st).pcfp =
    if chan = c then (look ChanFreqPower.channel c s.pcfp).map (fun e => { e with dfsState := st })
    else look ChanFreqPower.channel chan s.pcfp :=
  look_modify fun _ => rfl

theorem known_setChan : (s.setChanDfsState c st).known chan = s.known chan := by
  unfold known
  rw [look_setChan]
  split_ifs with h
  · rw [h, isSome_map]
  · rfl

theorem get_setChan : (s.setChanDfsState c st).getChanDfsState chan =
    if chan = c ∧ s.known c then st else s.getChanDfsState chan := by
  unfold getChanDfsState known
  rw [look_setChan]
  by_cases h : chan = c
  · subst h
    cases look ChanFreqPower.channel chan s.pcfp <;> simp
  · simp [h]

theorem setGroup_frame (st : DfsState) (l : List ℕ) (s : Nop) :
    ∃ pcfp, s.setStates st l = { s with pcfp := pcfp } := by
  induction l generalizing s with
  | nil => exact ⟨s.pcfp, rfl⟩
  | cons c l ih =>
    obtain ⟨pcfp, hp⟩ := ih (s.setChanDfsState c st)
    exact ⟨pcfp, by rw [setStates, foldl_cons, ← setStates, hp]; rfl⟩

/-- The states of a list of channels. -/
theorem get_setGroup (s : Nop) (st : DfsState) (l : List ℕ) (chan : ℕ) : (s.setStates st l).getChanDfsState chan =
    if chan ∈ l ∧ s.known chan then st else s.getChanDfsState chan := by
  induction l generalizing s with
  | nil => simp [setStates]
  | cons c l ih =>
    rw [setStates, foldl_cons, ← setStates, ih, known_setChan, get_setChan]
    by_cases hk : s.known chan
    · by_cases hl : chan ∈ l
      · simp [hl, hk]
      · by_cases hc : chan = c
        · subst hc
          simp [hk]
        · simp [hl, hc]
    · by_cases hc : chan = c
      · subst hc
        simp [hk]
      · simp [hk, hc]

/-! ## The query -/

theorem isChannelUnderNop_fst : (s.isChannelUnderNop userNopPeriodSec chan).1 = s.underNop userNopPeriodSec chan := by
  unfold isChannelUnderNop
  cases h : s.underNop userNopPeriodSec chan
  · simp only [Bool.false_eq_true, if_false]
    split_ifs <;> rfl
  · rfl

/-- A query leaves the state, or takes an expired timestamp out. -/
theorem query_cases (userNopPeriodSec : ℕ) (s : Nop) (chan : ℕ) : (s.isChannelUnderNop userNopPeriodSec chan).2 = s ∨
    s.expired userNopPeriodSec chan = true ∧ (s.isChannelUnderNop userNopPeriodSec chan).2 =
      setChanDfsState { s with dfsTs := erase DfsTimestamp.channel chan s.dfsTs } chan .usable := by
  unfold isChannelUnderNop
  cases s.underNop userNopPeriodSec chan
  · by_cases he : s.expired userNopPeriodSec chan = true
    · exact .inr ⟨he, by simp [he]⟩
    · exact .inl (by simp [he])
  · exact .inl rfl

/-- No channel becomes available because it is asked for. -/
theorem get_query (h : s.getChanDfsState chan ≠ .available) :
    (s.isChannelUnderNop userNopPeriodSec c).2.getChanDfsState chan ≠ .available := by
  rcases query_cases userNopPeriodSec s c with hs | ⟨-, hs⟩
  · rwa [hs]
  · rw [hs, get_setChan]
    split_ifs
    · decide
    · exact h

/-! ## What holds along every run -/

variable (userNopPeriodSec s) in
/-- The timestamps along a run. -/
structure Inv : Prop where
  one : Keyed.Distinct DfsTimestamp.channel s.dfsTs
  sec_lt : s.sec < 2 ^ 32
  start : ∀ chan ts, s.findDfsTimestamp chan = some ts → ts.represents = .nopStart ∧ ts.tsSec ≤ s.sec
  kept : ∀ t c bw, (t, c, bw) ∈ s.reported → ∀ chan ∈ getBondedChannels c bw,
    (∃ ts, s.findDfsTimestamp chan = some ts ∧ t ≤ ts.tsSec) ∨ t + period userNopPeriodSec < s.sec

namespace Inv

variable (h : s.Inv userNopPeriodSec)

include h

/-- The age of a timestamp does not wrap. -/
theorem nopAge_eq {ts : DfsTimestamp} (hts : s.findDfsTimestamp chan = some ts)
    (p : ℕ → Bool) : s.nopAge chan p = p (s.sec - ts.tsSec) := by
  obtain ⟨hrep, hle⟩ := h.start chan ts hts
  have hlt := h.sec_lt
  have hage : (s.sec + 2 ^ 32 - ts.tsSec) % 2 ^ 32 = s.sec - ts.tsSec := by omega
  unfold nopAge
  rw [hts, any_some, hage]
  simp [hrep]

theorem underNop_iff : s.underNop userNopPeriodSec chan = true ↔
    ∃ ts, s.findDfsTimestamp chan = some ts ∧ s.sec - ts.tsSec ≤ period userNopPeriodSec := by
  cases hts : s.findDfsTimestamp chan with
  | none => simp [underNop, nopAge, hts]
  | some ts => simp [underNop, h.nopAge_eq hts]

theorem expired_iff : s.expired userNopPeriodSec chan = true ↔
    ∃ ts, s.findDfsTimestamp chan = some ts ∧ period userNopPeriodSec < s.sec - ts.tsSec := by
  cases hts : s.findDfsTimestamp chan with
  | none => simp [expired, nopAge, hts]
  | some ts => simp [expired, h.nopAge_eq hts]

theorem of_eq (hts : s'.dfsTs = s.dfsTs) (hsec : s'.sec = s.sec)
    (hrep : s'.reported = s.reported) : s'.Inv userNopPeriodSec := by
  have hfind : ∀ chan, s'.findDfsTimestamp chan = s.findDfsTimestamp chan := fun chan => by
    rw [findDfsTimestamp, hts, findDfsTimestamp]
  refine ⟨hts ▸ h.one, hsec ▸ h.sec_lt, fun chan ts => ?_, fun t c bw hmem chan hchan => ?_⟩
  · rw [hfind, hsec]
    exact h.start chan ts
  · rw [hfind, hsec]
    exact h.kept t c bw (hrep ▸ hmem) chan hchan

/-- The channels of a list are closed. -/
theorem addAll (l : List ℕ) :
    (s.addTimestamps .nopStart l).Inv userNopPeriodSec := by
  obtain ⟨ts, hts, hd⟩ := addAll_frame .nopStart l s
  have hfind := find_addAll s .nopStart l
  rw [hts] at hfind ⊢
  refine ⟨hd h.one, h.sec_lt, fun chan u hu => ?_, fun t c bw hmem chan hchan => ?_⟩
  · rw [hfind] at hu
    split_ifs at hu
    · obtain rfl := some.inj hu
      exact ⟨rfl, le_rfl⟩
    · exact h.start chan u hu
  · rw [hfind]
    rcases h.kept t c bw hmem chan hchan with ⟨u, hu, hle⟩ | hold
    · split_ifs
      · exact .inl ⟨_, rfl, hle.trans (h.start chan u hu).2⟩
      · exact .inl ⟨u, hu, hle⟩
    · exact .inr hold

theorem underNop_addAll (l : List ℕ) :
    (s.addTimestamps .nopStart l).underNop userNopPeriodSec chan = true ↔
      chan ∈ l ∨ s.underNop userNopPeriodSec chan = true := by
  obtain ⟨ts, hts, -⟩ := addAll_frame .nopStart l s
  rw [(h.addAll l).underNop_iff, h.underNop_iff, find_addAll, hts]
  by_cases hl : chan ∈ l
  · simp [hl]
  · simp [hl]

/-- A query takes only an expired timestamp out. -/
theorem query (chan : ℕ) :
    (s.isChannelUnderNop userNopPeriodSec chan).2.Inv userNopPeriodSec := by
  rcases query_cases userNopPeriodSec s chan with hs | ⟨hold, hs⟩
  · rwa [hs]
  rw [hs]
  obtain ⟨ts, hts, hage⟩ := h.expired_iff.mp hold
  have hfind : ∀ c, findDfsTimestamp { s with dfsTs := erase DfsTimestamp.channel chan s.dfsTs } c =
      if c = chan then none else s.findDfsTimestamp c := fun c => look_erase h.one
  refine of_eq (s := { s with dfsTs := erase DfsTimestamp.channel chan s.dfsTs }) ?_ rfl rfl rfl
  refine ⟨h.one.erase, h.sec_lt, fun c u hu => ?_, fun t c bw hmem c' hc' => ?_⟩
  · rw [hfind] at hu
    split_ifs at hu
    exact h.start c u hu
  · rw [hfind]
    rcases h.kept t c bw hmem c' hc' with ⟨u, hu, hle⟩ | hlt
    · split_ifs with hc
      · obtain rfl : u = ts := by
          rw [hc, hts] at hu
          exact (some.inj hu).symm
        exact .inr (show t + period userNopPeriodSec < s.sec by omega)
      · exact .inl ⟨u, hu, hle⟩
    · exact .inr hlt

theorem underNop_query :
    (s.isChannelUnderNop userNopPeriodSec c).2.underNop userNopPeriodSec chan =
      s.underNop userNopPeriodSec chan := by
  have hq := h.query c
  rcases query_cases userNopPeriodSec s c with hs | ⟨hold, hs⟩
  · rw [hs]
  obtain ⟨ts, hts, hage⟩ := h.expired_iff.mp hold
  have hfind : (s.isChannelUnderNop userNopPeriodSec c).2.findDfsTimestamp chan =
      if chan = c then none else s.findDfsTimestamp chan := by
    rw [hs]
    exact look_erase h.one
  have hsec : (s.isChannelUnderNop userNopPeriodSec c).2.sec = s.sec := by rw [hs]; rfl
  rw [Bool.eq_iff_iff, hq.underNop_iff, h.underNop_iff, hfind, hsec]
  by_cases hc : chan = c
  · subst hc
    simp [hts]
    omega
  · simp [hc]

theorem setGroup (l : List ℕ) :
    (s.setStates st l).Inv userNopPeriodSec := by
  obtain ⟨pcfp, hp⟩ := setGroup_frame st l s
  exact hp ▸ h.of_eq rfl rfl rfl

/-- Time passes. -/
theorem tick {d : ℕ} (hd : s.sec + d < 2 ^ 32) :
    Inv userNopPeriodSec { s with sec := s.sec + d } := by
  refine ⟨h.one, hd, fun chan ts hts => ?_, fun t c bw hmem chan hchan => ?_⟩
  · exact (h.start chan ts hts).imp_right fun hle => hle.trans (Nat.le_add_right _ _)
  · exact (h.kept t c bw hmem chan hchan).imp_right fun hlt => Nat.lt_of_lt_of_le hlt (Nat.le_add_right _ _)

theorem underNop_of_tick {d : ℕ} (hd : s.sec + d < 2 ^ 32)
    (hu : underNop userNopPeriodSec { s with sec := s.sec + d } chan = true) :
    s.underNop userNopPeriodSec chan = true := by
  obtain ⟨ts, hts, hage⟩ := (h.tick hd).underNop_iff.mp hu
  exact h.underNop_iff.mpr ⟨ts, hts, (Nat.sub_le_sub_right (Nat.le_add_right _ _) _).trans hage⟩

/-- A report of radar is remembered, and its group has timestamps of now. -/
theorem closeGroup (g : ℕ × ℕ) : (s.closeGroup g).Inv userNopPeriodSec := by
  obtain ⟨ts, hts, -⟩ := addAll_frame .nopStart (getBondedChannels g.1 g.2) s
  have hadd := h.addAll (getBondedChannels g.1 g.2)
  have hfind := find_addAll s .nopStart (getBondedChannels g.1 g.2)
  rw [hts] at hadd hfind
  obtain ⟨pcfp, hp⟩ := setGroup_frame .unavailable (getBondedChannels g.1 g.2) { s with dfsTs := ts }
  have hclose : s.closeGroup g = { s with dfsTs := ts, pcfp := pcfp, reported := (s.sec, g) :: s.reported } := by
    unfold Nop.closeGroup addAllDfsTimestamp setGroupDfsState
    rw [hts, hp]
  rw [hclose]
  refine ⟨hadd.one, hadd.sec_lt, hadd.start, fun t c bw hmem chan hchan => ?_⟩
  rcases mem_cons.mp hmem with heq | hmem
  · obtain ⟨rfl, rfl⟩ := Prod.mk.inj heq
    exact .inl ⟨⟨chan, .nopStart, s.sec⟩, (hfind chan).trans (if_pos hchan), le_rfl⟩
  · exact hadd.kept t c bw hmem chan hchan

theorem clear : s.clear.Inv userNopPeriodSec :=
  ⟨nodup_nil, h.sec_lt, fun _ _ hts => by simp [findDfsTimestamp, Nop.clear] at hts,
    fun _ _ _ hmem => absurd hmem not_mem_nil⟩

end Inv

theorem inv_init (h : s.Init) : s.Inv userNopPeriodSec := by
  obtain ⟨hts, -, hsec, hrep⟩ := h
  refine ⟨?_, hsec, fun _ _ hfind => ?_, fun _ _ _ hmem => ?_⟩
  · rw [hts]
    exact nodup_nil
  · simp [findDfsTimestamp, hts] at hfind
  · simp [hrep] at hmem

theorem inv_step (hi : s.Inv userNopPeriodSec) (h : s.step userNopPeriodSec op = some s') :
    s'.Inv userNopPeriodSec := by
  cases op with
  | report buf chan bw =>
    obtain rfl := some.inj h
    unfold handleEventChanrptReady
    dsimp only
    split_ifs
    · exact hi.closeGroup _
    · exact hi.setGroup _
  | radar buf chan bw => exact some.inj h ▸ hi.closeGroup _
  | handling chan => exact some.inj h ▸ hi.addAll [chan]
  | getDfsState chan => exact some.inj h ▸ hi.query chan
  | setDfsState chan st =>
    obtain rfl := some.inj h
    cases st with
    | unavailable => exact (hi.addAll [chan]).setGroup [chan]
    | available => exact (hi.query chan).setGroup [chan]
    | usable => exact hi.setGroup [chan]
  | clear => exact some.inj h ▸ hi.clear
  | query chan => exact some.inj h ▸ hi.query chan
  | tick d =>
    obtain ⟨hd, hs⟩ := ite_none_right_eq_some.mp h
    exact some.inj hs ▸ hi.tick hd

/-! ## The states of closed channels -/

variable (userNopPeriodSec s) in
/-- No channel under NOP is available. -/
def Shut : Prop :=
  ∀ chan, s.underNop userNopPeriodSec chan = true → s.getChanDfsState chan ≠ .available

theorem closed_iff_shut (h : s.Inv userNopPeriodSec) : s.Closed userNopPeriodSec ↔ s.Shut userNopPeriodSec := by
  constructor
  · intro hc chan hu
    exact hc.unavailable chan (isChannelUnderNop_fst.trans hu)
  · intro hs
    refine ⟨h.one, fun t c bw hmem chan hchan hle => ?_, fun chan hu => hs chan (isChannelUnderNop_fst.symm.trans hu)⟩
    rw [isChannelUnderNop_fst, h.underNop_iff]
    rcases h.kept t c bw hmem chan hchan with ⟨ts, hts, hlt⟩ | hlt
    · exact ⟨ts, hts, by omega⟩
    · omega

theorem underNop_setGroup (s : Nop) (st : DfsState) (l : List ℕ) : (s.setStates st l).underNop userNopPeriodSec chan =
    s.underNop userNopPeriodSec chan := by
  obtain ⟨pcfp, hp⟩ := setGroup_frame st l s
  rw [hp]
  rfl

theorem get_addAll : (s.addTimestamps repr l).getChanDfsState chan = s.getChanDfsState chan := by
  obtain ⟨ts, hts, -⟩ := addAll_frame repr l s
  rw [hts]
  rfl

theorem known_addAll : (s.addTimestamps repr l).known chan = s.known chan := by
  obtain ⟨ts, hts, -⟩ := addAll_frame repr l s
  rw [hts]
  rfl

/-- A channel without an entry counts as usable. -/
theorem get_of_not_known (h : ¬s.known chan) : s.getChanDfsState chan = .usable := by
  unfold known at h
  unfold getChanDfsState
  simp [not_isSome_iff_eq_none.mp h]

/-- Channels with a timestamp each and the state `DFS_UNAVAILABLE`. -/
theorem shut_close (hi : s.Inv userNopPeriodSec) (h : s.Shut userNopPeriodSec) (l : List ℕ) :
    ((s.addTimestamps .nopStart l).setStates .unavailable l).Shut userNopPeriodSec := by
  intro chan hu
  rw [underNop_setGroup, hi.underNop_addAll] at hu
  rw [get_setGroup, known_addAll, get_addAll]
  by_cases hk : s.known chan
  · by_cases hl : chan ∈ l
    · rw [if_pos ⟨hl, hk⟩]
      decide
    · rw [if_neg fun h => hl h.1]
      exact h chan (hu.resolve_left hl)
  · rw [if_neg fun h => hk h.2, get_of_not_known hk]
    decide

/-- Channels that are made available. -/
theorem shut_setStates_iff (h : s.Shut userNopPeriodSec) :
    (s.setStates .available l).Shut userNopPeriodSec ↔
      ∀ c ∈ l, s.known c → s.underNop userNopPeriodSec c = false := by
  simp only [Shut, underNop_setGroup, get_setGroup]
  constructor
  · intro hs c hc hk
    cases hu : s.underNop userNopPeriodSec c with
    | false => rfl
    | true => exact absurd (if_pos ⟨hc, hk⟩) (hs c hu)
  · intro hs chan hu
    split_ifs with hc
    · simp [hs chan hc.1 hc.2] at hu
    · exact h chan hu

theorem shut_query (hi : s.Inv userNopPeriodSec) (h : s.Shut userNopPeriodSec) :
    (s.isChannelUnderNop userNopPeriodSec c).2.Shut userNopPeriodSec :=
  fun chan hu => get_query (h chan (hi.underNop_query ▸ hu))

theorem known_query : (s.isChannelUnderNop userNopPeriodSec c).2.known chan = s.known chan := by
  rcases query_cases userNopPeriodSec s c with hs | ⟨-, hs⟩
  · rw [hs]
  · rw [hs, known_setChan]
    rfl

/-- A report event leaves closed channels closed, and opens none that it should not, exactly if it is clean. -/
theorem report_iff {buf : EventBuf} (hi : s.Inv userNopPeriodSec) (h : s.Shut userNopPeriodSec) :
    ((s.handleEventChanrptReady (.read buf) chan bw).Shut userNopPeriodSec ∧
      (Op.report buf chan bw).Opens s (s.handleEventChanrptReady (.read buf) chan bw)) ↔
      (Op.report buf chan bw).Clean userNopPeriodSec s := by
  simp only [handleEventChanrptReady, Op.Clean, Op.Opens]
  cases hr : (ReportEvent.read buf).findings.dfsRadarFound with
  | true =>
    simp only [if_true, true_or, iff_true]
    refine ⟨shut_close hi h _, fun c hno hc => absurd hc ?_⟩
    change ((s.addTimestamps _ _).setStates _ _).getChanDfsState c ≠ _
    rw [get_setGroup, get_addAll]
    split_ifs
    · decide
    · exact hno
  | false =>
    simp only [Bool.false_eq_true, if_false, false_or, not_false_eq_true, and_true, setGroupDfsState,
      shut_setStates_iff h, get_setGroup]
    constructor
    · rintro ⟨hno, hopen⟩ c hc hk
      refine ⟨hno c hc hk, ?_⟩
      by_cases hs : s.getChanDfsState c = .available
      · exact .inr hs
      · exact .inl (hopen c hs (if_pos ⟨hc, hk⟩))
    · intro hall
      refine ⟨fun c hc hk => (hall c hc hk).1, fun c hs hc => ?_⟩
      split_ifs at hc with hin
      · exact (hall c hin.1 hin.2).2.resolve_right hs
      · exact absurd hc hs

/-- Each step leaves closed channels closed, and opens none that it should not, exactly if it is clean. -/
theorem step_shut_iff (hi : s.Inv userNopPeriodSec) (h : s.Shut userNopPeriodSec)
    (hs : s.step userNopPeriodSec op = some s') :
    (s'.Shut userNopPeriodSec ∧ op.Opens s s') ↔ op.Clean userNopPeriodSec s := by
  cases op with
  | report buf chan bw => exact some.inj hs ▸ report_iff hi h
  | radar buf chan bw => exact some.inj hs ▸ iff_of_true ⟨shut_close hi h _, trivial⟩ trivial
  | handling chan =>
    obtain rfl := some.inj hs
    simp only [Op.Opens, Op.Clean, and_true]
    constructor
    · intro hshut
      have := hshut chan ((hi.underNop_addAll [chan]).mpr (.inl mem_cons_self))
      rwa [show s.addDfsTimestamp .nopStart chan = s.addTimestamps .nopStart [chan] from rfl, get_addAll] at this
    · intro hno c hu
      rw [show s.addDfsTimestamp .nopStart chan = s.addTimestamps .nopStart [chan] from rfl] at hu ⊢
      rw [get_addAll]
      rcases (hi.underNop_addAll [chan]).mp hu with hc | hc
      · exact mem_singleton.mp hc ▸ hno
      · exact h c hc
  | getDfsState chan => exact some.inj hs ▸ iff_of_true ⟨shut_query hi h, trivial⟩ trivial
  | setDfsState chan st =>
    obtain rfl := some.inj hs
    cases st with
    | unavailable => exact iff_of_true ⟨shut_close hi h [chan], trivial⟩ (by simp [Op.Clean])
    | available =>
      simp only [Op.Opens, Op.Clean, and_true, ioctlChanDfsState, true_imp_iff]
      have hset := shut_setStates_iff (l := [chan]) (shut_query (c := chan) hi h)
      simp only [mem_singleton, forall_eq, known_query, hi.underNop_query] at hset
      exact hset
    | usable =>
      refine iff_of_true ⟨fun c hu => ?_, trivial⟩ (by simp [Op.Clean])
      have hget := get_setGroup s .usable [chan] c
      change (s.setStates .usable [chan]).getChanDfsState c ≠ _
      rw [hget]
      split_ifs
      · decide
      · exact h c (underNop_setGroup s .usable [chan] ▸ hu)
  | clear =>
    obtain rfl := some.inj hs
    refine iff_of_true ⟨fun c hu => ?_, trivial⟩ trivial
    simp [underNop, nopAge, findDfsTimestamp, clear] at hu
  | query chan => exact some.inj hs ▸ iff_of_true ⟨shut_query hi h, trivial⟩ trivial
  | tick d =>
    obtain ⟨hd, rfl⟩ := System.of_guard hs
    exact iff_of_true ⟨fun c hu => h c (hi.underNop_of_tick hd hu), trivial⟩ trivial

theorem shut_init (h : s.Init) : s.Shut userNopPeriodSec := by
  intro chan hu
  simp [underNop, nopAge, findDfsTimestamp, h.1] at hu

/-- In clean runs the closed channels stay closed, and each further step keeps that exactly if it is clean. -/
theorem channels_closed (userNopPeriodSec : ℕ) {s : Nop}
    (h : (nopSystem userNopPeriodSec).ReachableWhen (fun s op => op.Clean userNopPeriodSec s) s) :
    s.Closed userNopPeriodSec ∧ ∀ op s', s.step userNopPeriodSec op = some s' →
      ((s'.Closed userNopPeriodSec ∧ op.Opens s s') ↔ op.Clean userNopPeriodSec s) := by
  have hinv : s.Inv userNopPeriodSec ∧ s.Shut userNopPeriodSec :=
    h.invariant (I := fun s => s.Inv userNopPeriodSec ∧ s.Shut userNopPeriodSec)
      (fun s h => ⟨inv_init h, shut_init h⟩)
      fun s op s' hs hc hstep => ⟨inv_step hs.1 hstep, ((step_shut_iff hs.1 hs.2 hstep).mpr hc).1⟩
  refine ⟨(closed_iff_shut hinv.1).mpr hinv.2, fun op s' hstep => ?_⟩
  rw [closed_iff_shut (inv_step hinv.1 hstep)]
  exact step_shut_iff hinv.1 hinv.2 hstep

/-! ## Runs -/

/-- Five channels, an hour after the start. -/
def fiveChannels : Nop where
  dfsTs := []
  pcfp := [⟨52, .usable⟩, ⟨56, .usable⟩, ⟨60, .usable⟩, ⟨64, .usable⟩, ⟨100, .usable⟩]
  sec := 3600
  reported := []

theorem fiveChannels_init : fiveChannels.Init :=
  ⟨rfl, by decide, by decide, rfl⟩

/-- A report without radar, with its result, for the channel that was asked for. -/
def clearReport (result : UInt8) (chan bw : ℕ) : Op :=
  .report ([result, 0, 0, 0] ++ List.replicate 12 0 ++ [0x5b, 1, 1, 0, 0]) chan bw

/-- Radar on 52, a check of 100, and a query for 52 after half an hour. -/
theorem channels_closed_52 : ∃ s, (nopSystem 0).ReachableWhen (fun s op => op.Clean 0 s) s ∧
    s.reported = [(3600, 52, 0)] ∧ (s.isChannelUnderNop 0 52).1 = true ∧ s.getChanDfsState 100 = .available ∧
      s.Closed 0 := by
  obtain ⟨s, hs, hp⟩ := System.exists_reachableWhen_of_runWhen (M := nopSystem 0)
    (C := fun s op => op.Clean 0 s)
    (P := fun s => decide (s.reported = [(3600, 52, 0)] ∧ (s.isChannelUnderNop 0 52).1 = true ∧
      s.getChanDfsState 100 = .available))
    (l := [.radar [] 52 0, .tick 60, clearReport 0 100 0, .tick 1740, .query 52]) (s := fiveChannels)
    (.init fiveChannels_init) (by decide +kernel)
  obtain ⟨hrep, hnop, havail⟩ := of_decide_eq_true hp
  exact ⟨s, hs, hrep, hnop, havail, (channels_closed 0 hs).1⟩

/-- Radar on 52, and then none on the 80 MHz around 56 : 52 is available under NOP; and a report that failed makes 100
available. -/
theorem closed_channel_opened :
    (∃ s, (nopSystem 0).Reachable s ∧ (s.isChannelUnderNop 0 52).1 = true ∧ s.getChanDfsState 52 = .available) ∧
    (∃ s', fiveChannels.step 0 (clearReport 1 100 0) = some s' ∧ ¬(clearReport 1 100 0).Opens fiveChannels s') ∧
    ¬∀ s, (nopSystem 0).Reachable s →
      s.Closed 0 ∧ ∀ op s', s.step 0 op = some s' → op.Opens s s' := by
  have hopened : ∃ s, (nopSystem 0).Reachable s ∧
      decide ((s.isChannelUnderNop 0 52).1 = true ∧ s.getChanDfsState 52 = .available) = true :=
    System.exists_reachable_of_run (l := [.radar [] 52 0, .tick 60, clearReport 0 56 3]) fiveChannels_init
      (by decide +kernel)
  simp only [decide_eq_true_eq] at hopened
  refine ⟨hopened, ⟨_, rfl, fun hno => ?_⟩, fun h => ?_⟩
  · exact absurd (hno 100 (by decide) (by decide +kernel)).1 (by decide +kernel)
  · obtain ⟨s, hs, hnop, havail⟩ := hopened
    exact (h s hs).1.unavailable 52 hnop havail

end Nop

end WlanDriver.Dfs
