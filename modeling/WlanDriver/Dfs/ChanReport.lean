import Mathlib.Data.Fintype.Basic
import Mathlib.Logic.Function.Basic
import WlanDriver.Dfs.ReportEvent
import WlanDriver.Lib.System

/-!
# The cached channel report

`wlan_11h_check_chan_report` answers from one cached report : `wlan_11h_cmd_chan_rpt_req` writes the channel,
`wlan_11h_cmdresp_process` that a report is pending, `wlan_11h_handle_event_chanrpt_ready` the result and its time,
`wlan_11h_set_dfs_check_chan` another channel, and the response to `HostCmd_CMD_APCMD_BSS_STOP` a new time. Each of them is
one step, with the clock of the system moving forward between them.

History : `checked` is whether, since the check channel last became what it is, a report for it without radar was processed,
or an access point operated on it. A report is about the channel that the firmware measured, which the event names or not.

`chan_report_checked` : the answer is `MLAN_STATUS_SUCCESS` only for a checked channel, in runs whose steps are `Clean`;
and each other step leads to an answer that is assumed. The time of the report is not reset with the
channel, and the result of a report is stored whatever its channel is and whether the request failed.
-/

set_option linter.unusedSectionVars false

namespace WlanDriver.Dfs

open Option WlanDriver.System

def maxDfsReportUsableAgeSec : ℕ := 120

/-- `mlan_status`. -/
inductive Status
  | success
  | failure
  | pending
  deriving DecidableEq

/-- A channel report request; the dwell time is zero in order to cancel. -/
structure ChanRptReq where
  chanNum : ℕ
  chanWidth : ℕ
  millisecDwellTime : ℕ
  deriving DecidableEq

/-- `is_cancel_req`. -/
def ChanRptReq.isCancel (r : ChanRptReq) : Bool :=
  r.millisecDwellTime == 0

/-- The command, with its TLVs. -/
structure ChanRptCmd (P : Type*) where
  priv : P
  req : ChanRptReq
  /-- The basic report TLV, with the radar bit. -/
  basic : Bool
  dfs53cfg : Option ℕ
  zeroDfsEnbl : Option Bool
  deriving DecidableEq

/-- The adapter and its interfaces. -/
structure Adapter (P : Type*) where
  /-- `bss_type` is `MLAN_BSS_TYPE_DFS`. -/
  bssTypeDfs : P → Bool
  regionCode : ℕ
  dfs53cfg : ℕ

/-- `COUNTRY_CODE_JP_40` or `COUNTRY_CODE_JP_FF`. -/
def Adapter.isJapan {P : Type*} (A : Adapter P) : Bool :=
  A.regionCode == 0x40 || A.regionCode == 0xff

/-- `state_dfs` and what it depends on. -/
structure DfsCheck (P : Type*) where
  dfsCheckPending : Bool
  dfsRadarFound : Bool
  dfsCheckChannel : ℕ
  dfsCheckBandwidth : ℕ
  dfsReportTimeSec : ℕ
  dfsCheckPriv : Option P
  chanRepReq : P → ChanRptReq
  /-- The clock of the system, 32 bits of seconds. -/
  sec : ℕ
  /-- The commands that are not answered yet. -/
  sent : List (ChanRptCmd P)
  /-- The channel that an access point operates on. -/
  uapChannel : P → Option ℕ
  checked : Bool

namespace DfsCheck

variable {P : Type*} [DecidableEq P] [Fintype P]

/-- The steps. -/
inductive Op (P : Type*)
  /-- A request, and whether radar detection is required on its channel. -/
  | request (p : P) (req : ChanRptReq) (required : Bool)
  /-- The response to the command at `i`. -/
  | answer (i : ℕ) (ok : Bool)
  /-- The report event, and the channel that was measured. -/
  | report (p : P) (measured : ℕ) (buf : EventBuf)
  | setDfsCheckChan (chan bandwidth : ℕ)
  /-- The access point comes up on the channel, or switches to it. -/
  | operate (p : P) (chan : ℕ)
  /-- The response to `HostCmd_CMD_APCMD_BSS_STOP`. -/
  | bssStop (p : P) (is11hHost : Bool)
  | check (chan : ℕ)
  | tick (d : ℕ)
  deriving DecidableEq

variable (A : Adapter P) (s : DfsCheck P)

/-- The age of the report, in 32 bits. -/
def age : ℕ :=
  (s.sec + 2 ^ 32 - s.dfsReportTimeSec) % 2 ^ 32

/-- The command that the request becomes. -/
def chanRptCmd (p : P) (req : ChanRptReq) (required : Bool) : ChanRptCmd P where
  priv := p
  req := req
  basic := !req.isCancel && required
  dfs53cfg := if A.isJapan ∧ A.dfs53cfg ≠ 0 then some A.dfs53cfg else none
  zeroDfsEnbl := if A.bssTypeDfs p then some !req.isCancel else none

/-- The request is dropped. -/
def drops (p : P) (req : ChanRptReq) : Bool :=
  s.dfsCheckPending && !req.isCancel && !A.bssTypeDfs p

/-- The check channel behind a request. -/
def channelAfter (req : ChanRptReq) : ℕ :=
  if req.isCancel then s.dfsCheckChannel else req.chanNum

/-- `wlan_11h_cmd_chan_rpt_req`. -/
def chanRptReq (p : P) (req : ChanRptReq) (required : Bool) : DfsCheck P :=
  if s.drops A p req then s
  else
    let s : DfsCheck P := { s with sent := s.sent ++ [chanRptCmd A p req required] }
    if A.bssTypeDfs p then { s with chanRepReq := Function.update s.chanRepReq p req }
    else
      { s with
        dfsCheckPending := false
        dfsRadarFound := false
        dfsCheckPriv := none
        dfsCheckChannel := s.channelAfter req
        dfsCheckBandwidth := if req.isCancel then s.dfsCheckBandwidth else req.chanWidth }

/-- `wlan_11h_cmdresp_process`. -/
def cmdrespProcess (c : ChanRptCmd P) : DfsCheck P :=
  if A.bssTypeDfs c.priv then s
  else if c.req.millisecDwellTime = 0 then
    { s with dfsCheckPending := false, dfsCheckPriv := none, dfsCheckChannel := 0 }
  else { s with dfsCheckPending := true, dfsCheckPriv := some c.priv }

/-- `wlan_11h_handle_event_chanrpt_ready`, which stores the result whatever channel it is about. -/
def handleEventChanrptReady (r : ReportEvent) : DfsCheck P :=
  { s with dfsRadarFound := r.findings.dfsRadarFound, dfsReportTimeSec := s.sec, dfsCheckPending := false }

/-- The response to `HostCmd_CMD_APCMD_BSS_STOP`. -/
def bssStop (p : P) (is11hHost : Bool) : DfsCheck P :=
  let s : DfsCheck P := { s with uapChannel := Function.update s.uapChannel p none }
  if !is11hHost && !s.dfsCheckPending && s.dfsCheckChannel != 0 then { s with dfsReportTimeSec := s.sec } else s

/-- `wlan_11h_check_chan_report`. -/
def checkChanReport (chan : ℕ) : Status × DfsCheck P :=
  if !s.dfsCheckPending && chan == s.dfsCheckChannel && decide (s.age < maxDfsReportUsableAgeSec) then
    (if s.dfsRadarFound then .failure else .success, s)
  else (.pending, { s with dfsCheckChannel := 0 })

/-- The event names the measured channel, if it names one. -/
def Names (r : ReportEvent) (measured : ℕ) : Prop :=
  ∀ c ∈ r.findings.named, c.1 = measured
  deriving Decidable

/-- What a step does. -/
def apply : Op P → Option (DfsCheck P)
  | .request p req required => some (s.chanRptReq A p req required)
  | .answer i ok =>
    (s.sent[i]?).map fun c =>
      let s : DfsCheck P := { s with sent := s.sent.eraseIdx i }
      if ok then s.cmdrespProcess A c else s
  | .report _ measured buf =>
    if Names (.read buf) measured then some (s.handleEventChanrptReady (.read buf)) else none
  | .setDfsCheckChan chan bandwidth => some { s with dfsCheckChannel := chan, dfsCheckBandwidth := bandwidth }
  | .operate p chan => some { s with uapChannel := Function.update s.uapChannel p (some chan) }
  | .bssStop p is11hHost => some (s.bssStop p is11hHost)
  | .check chan => some (s.checkChanReport chan).2
  | .tick d => if s.sec + d < 2 ^ 32 then some { s with sec := s.sec + d } else none

/-- An access point operates on the channel. -/
def Operating (chan : ℕ) : Prop :=
  ∃ p, s.uapChannel p = some chan

instance (chan : ℕ) : Decidable (s.Operating chan) :=
  inferInstanceAs (Decidable (∃ p, s.uapChannel p = some chan))

/-- The step is a report without radar on the channel. -/
def Op.clears (chan : ℕ) : Op P → Bool
  | .report _ measured buf =>
    (ReportEvent.read buf).success && !(ReportEvent.read buf).findings.dfsRadarFound && measured == chan
  | _ => false

/-- The history, behind a step from `s`. -/
def note (op : Op P) (s' : DfsCheck P) : DfsCheck P :=
  { s' with
    checked := (decide (s'.dfsCheckChannel = s.dfsCheckChannel) && s.checked) || op.clears s'.dfsCheckChannel ||
      decide (s'.Operating s'.dfsCheckChannel) }

/-- One step. -/
def step (op : Op P) : Option (DfsCheck P) :=
  (s.apply A op).map (s.note op)

/-- `wlan_11h_init`. -/
def Init : Prop :=
  s.dfsCheckPending = false ∧ s.dfsRadarFound = false ∧ s.dfsCheckChannel = 0 ∧ s.dfsReportTimeSec = 0 ∧
    s.sec < 2 ^ 32 ∧ s.sent = [] ∧ (∀ p, s.uapChannel p = none) ∧ s.checked = false

/-- The runs of the cached report. -/
def chanReportSystem : System (DfsCheck P) (Op P) where
  init := Init
  step := fun s op => s.step A op

/-- The report is too old to be used. -/
def outdated : Bool :=
  decide (maxDfsReportUsableAgeSec ≤ s.age)

/-- Whether a step can be taken without a channel being assumed to be checked. -/
def Op.Clean : Op P → Prop
  | .request p req _ =>
    A.bssTypeDfs p ∨ s.drops A p req ∨ s.outdated ∨ s.channelAfter req = 0 ∨ s.Operating (s.channelAfter req) ∨
      s.channelAfter req = s.dfsCheckChannel ∧ s.checked
  | .report _ measured buf =>
    (ReportEvent.read buf).findings.dfsRadarFound ∨ s.dfsCheckChannel = 0 ∨ s.checked ∨
      (ReportEvent.read buf).success ∧ measured = s.dfsCheckChannel
  | .setDfsCheckChan chan _ =>
    s.dfsCheckPending ∨ s.dfsRadarFound ∨ s.outdated ∨ chan = 0 ∨ s.Operating chan ∨
      chan = s.dfsCheckChannel ∧ s.checked
  | .bssStop _ is11hHost =>
    is11hHost ∨ s.dfsCheckPending ∨ s.dfsRadarFound ∨ s.dfsCheckChannel = 0 ∨ s.checked
  | _ => True

instance (op : Op P) : Decidable (op.Clean A s) := by
  cases op <;> unfold Op.Clean <;> infer_instance

/-- The answer for a channel is `MLAN_STATUS_SUCCESS` only if it is the check channel, and checked. -/
def NotAssumed : Prop :=
  ∀ chan, chan ≠ 0 → (s.checkChanReport chan).1 = .success → chan = s.dfsCheckChannel ∧ s.checked

/-! ## What a step keeps -/

/-- No channel is answered with `MLAN_STATUS_SUCCESS`. -/
def Silent : Prop :=
  s.dfsCheckPending ∨ s.dfsRadarFound ∨ s.outdated ∨ s.dfsCheckChannel = 0

theorem notAssumed_iff : s.NotAssumed ↔ s.Silent ∨ s.checked := by
  simp only [NotAssumed, Silent, checkChanReport, outdated, decide_eq_true_eq]
  constructor
  · intro h
    by_contra hno
    obtain ⟨⟨hp, hr, hage, hz⟩, hc⟩ : (¬s.dfsCheckPending ∧ ¬s.dfsRadarFound ∧
        ¬maxDfsReportUsableAgeSec ≤ s.age ∧ s.dfsCheckChannel ≠ 0) ∧ ¬s.checked := by
      simpa only [not_or] using hno
    refine hc (h s.dfsCheckChannel hz ?_).2
    simp [hp, hr, Nat.lt_of_not_le hage]
  · rintro h chan hz hs
    split_ifs at hs with hc hr
    simp only [Bool.and_eq_true, Bool.not_eq_true', beq_iff_eq, decide_eq_true_eq] at hc
    obtain ⟨⟨hp, rfl⟩, hage⟩ := hc
    refine ⟨rfl, ?_⟩
    rcases h with (h | h | h | h) | h
    · simp [hp] at h
    · exact absurd h hr
    · omega
    · exact absurd h hz
    · exact h

/-- What holds along every run. -/
structure Inv : Prop where
  time_le : s.dfsReportTimeSec ≤ s.sec
  sec_lt : s.sec < 2 ^ 32
  operating : s.Operating s.dfsCheckChannel → s.checked

variable {s}

theorem age_eq (h : s.Inv) : s.age = s.sec - s.dfsReportTimeSec := by
  have := h.time_le
  have := h.sec_lt
  unfold age
  omega

variable {A} {t s' : DfsCheck P} {op : Op P}

theorem note_notAssumed : (s.note op t).NotAssumed ↔ t.Silent ∨
    (t.dfsCheckChannel = s.dfsCheckChannel ∧ s.checked ∨ op.clears t.dfsCheckChannel) ∨
      t.Operating t.dfsCheckChannel := by
  simp only [notAssumed_iff, note, Bool.or_eq_true, Bool.and_eq_true, decide_eq_true_eq]
  exact Iff.rfl

/-- A step that neither writes the report nor takes the answer away is fine. -/
theorem note_of_same (hn : s.NotAssumed) (hs : s.Silent → t.Silent) (hc : t.dfsCheckChannel = s.dfsCheckChannel) :
    (s.note op t).NotAssumed := by
  rw [note_notAssumed]
  rcases (notAssumed_iff s).mp hn with h | h
  · exact .inl (hs h)
  · exact .inr (.inl (.inl ⟨hc, h⟩))

theorem note_of_silent (h : t.Silent) : (s.note op t).NotAssumed :=
  note_notAssumed.mpr (.inl h)

/-- The times that a step leaves. -/
theorem apply_times (hi : s.Inv) (h : s.apply A op = some t) : t.dfsReportTimeSec ≤ t.sec ∧ t.sec < 2 ^ 32 := by
  have hle := hi.time_le
  have hlt := hi.sec_lt
  cases op with
  | request p req required =>
    obtain rfl := some.inj h
    unfold chanRptReq
    dsimp only
    split_ifs <;> exact ⟨hle, hlt⟩
  | answer i ok =>
    obtain ⟨c, -, rfl⟩ := map_eq_some_iff.mp h
    unfold cmdrespProcess
    dsimp only
    split_ifs <;> exact ⟨hle, hlt⟩
  | report p measured buf =>
    obtain ⟨-, rfl⟩ := of_guard h
    exact ⟨le_rfl, hlt⟩
  | setDfsCheckChan chan bandwidth =>
    obtain rfl := some.inj h
    exact ⟨hle, hlt⟩
  | operate p chan =>
    obtain rfl := some.inj h
    exact ⟨hle, hlt⟩
  | bssStop p is11hHost =>
    obtain rfl := some.inj h
    unfold bssStop
    dsimp only
    split_ifs
    · exact ⟨le_rfl, hlt⟩
    · exact ⟨hle, hlt⟩
  | check chan =>
    obtain rfl := some.inj h
    unfold checkChanReport
    split_ifs <;> exact ⟨hle, hlt⟩
  | tick d =>
    obtain ⟨hd, rfl⟩ := of_guard h
    exact ⟨Nat.le_trans hle (Nat.le_add_right _ _), hd⟩

theorem inv_step (hi : s.Inv) (h : s.step A op = some s') : s'.Inv := by
  obtain ⟨t, ht, rfl⟩ := map_eq_some_iff.mp h
  obtain ⟨hle, hlt⟩ := apply_times hi ht
  refine ⟨hle, hlt, fun ho => ?_⟩
  simp only [note, Bool.or_eq_true, decide_eq_true_eq]
  exact .inr ho

/-- A request is fine exactly if it is clean. -/
theorem request_notAssumed_iff {p : P} {req : ChanRptReq} {required : Bool} (hn : s.NotAssumed) :
    (s.note (.request p req required) (s.chanRptReq A p req required)).NotAssumed ↔
      (Op.request p req required).Clean A s := by
  unfold chanRptReq
  by_cases hd : s.drops A p req
  · rw [if_pos hd]
    simp only [Op.Clean, hd, true_or, or_true, iff_true]
    exact note_of_same hn id rfl
  rw [if_neg hd]
  by_cases hdfs : A.bssTypeDfs p
  · simp only [hdfs, if_true, Op.Clean, true_or, iff_true]
    exact note_of_same hn id rfl
  · simp only [hdfs, note_notAssumed, Op.Clean, hd, Op.clears]
    simp only [Silent, Operating, outdated, age, channelAfter]
    tauto

/-- An answer leaves the report alone, or waits for it, or leaves no channel. -/
theorem answer_notAssumed {i : ℕ} {ok : Bool} (hn : s.NotAssumed) (h : s.apply A (.answer i ok) = some t) :
    (s.note (.answer i ok) t).NotAssumed := by
  obtain ⟨c, -, rfl⟩ := map_eq_some_iff.mp h
  unfold cmdrespProcess
  dsimp only
  split_ifs
  · exact note_of_same hn id rfl
  · exact note_of_silent (.inr (.inr (.inr rfl)))
  · exact note_of_silent (.inl rfl)
  · exact note_of_same hn id rfl

/-- A report is fine exactly if it is clean : it is new, and nothing is pending. -/
theorem report_notAssumed_iff {p : P} {measured : ℕ} {buf : EventBuf} (hi : s.Inv) :
    (s.note (.report p measured buf) (s.handleEventChanrptReady (.read buf))).NotAssumed ↔
      (Op.report p measured buf).Clean A s := by
  have hnew : ¬(s.handleEventChanrptReady (.read buf)).outdated := by
    simp [outdated, age, handleEventChanrptReady, maxDfsReportUsableAgeSec]
  have hop := hi.operating
  rw [note_notAssumed]
  simp only [Silent, hnew, Op.Clean, Op.clears]
  simp only [handleEventChanrptReady, Bool.and_eq_true, Bool.not_eq_true', beq_iff_eq]
  cases (ReportEvent.read buf).findings.dfsRadarFound
  · simp only [Operating] at hop ⊢
    tauto
  · simp

/-- The renewed report of a stop is fine exactly if the stop is clean. -/
theorem bssStop_notAssumed_iff {p : P} {is11hHost : Bool} (hi : s.Inv) (hn : s.NotAssumed) :
    (s.note (.bssStop p is11hHost) (s.bssStop p is11hHost)).NotAssumed ↔ (Op.bssStop p is11hHost).Clean A s := by
  have hstop : ∀ chan, Operating { s with uapChannel := Function.update s.uapChannel p none } chan →
      s.Operating chan := by
    rintro chan ⟨q, hq⟩
    by_cases hqp : q = p
    · simp [hqp] at hq
    · exact ⟨q, by simpa [hqp] using hq⟩
  unfold bssStop
  by_cases hrenew : !is11hHost && !s.dfsCheckPending && s.dfsCheckChannel != 0
  · have hnew : ¬outdated { s with uapChannel := Function.update s.uapChannel p none, dfsReportTimeSec := s.sec } := by
      simp [outdated, age, maxDfsReportUsableAgeSec]
    simp only [hrenew, if_true, note_notAssumed, Silent, hnew, Op.Clean, Op.clears]
    simp only [Bool.and_eq_true, Bool.not_eq_true', bne_iff_ne] at hrenew
    have hop := fun h => hi.operating (hstop _ h)
    simp only [Operating] at hop ⊢
    simp only [hrenew]
    tauto
  · have hclean : (Op.bssStop p is11hHost).Clean A s := by
      simp only [Bool.and_eq_true, Bool.not_eq_true', bne_iff_ne, not_and, not_not] at hrenew
      simp only [Op.Clean]
      cases is11hHost
      · cases hp : s.dfsCheckPending
        · exact .inr (.inr (.inr (.inl (hrenew ⟨rfl, hp⟩))))
        · exact .inr (.inl rfl)
      · exact .inl rfl
    simp only [hrenew, hclean, iff_true]
    exact note_of_same hn id rfl

/-- Nothing is answered with `MLAN_STATUS_SUCCESS` because time passes. -/
theorem tick_notAssumed {d : ℕ} (hi : s.Inv) (hn : s.NotAssumed) (h : s.apply A (.tick d) = some t) :
    (s.note (.tick d) t).NotAssumed := by
  obtain ⟨htime, hsec⟩ := apply_times hi h
  obtain ⟨hd, rfl⟩ := of_guard h
  refine note_of_same hn (fun hs => ?_) rfl
  have hage := age_eq hi
  have hage' := age_eq (s := { s with sec := s.sec + d, checked := true }) ⟨htime, hsec, fun _ => rfl⟩
  simp only [Silent, outdated, decide_eq_true_eq] at hs ⊢
  rcases hs with hs | hs | hs | hs
  · exact .inl hs
  · exact .inr (.inl hs)
  · refine .inr (.inr (.inl ?_))
    change _ ≤ age { s with sec := s.sec + d, checked := true }
    rw [hage']
    rw [hage] at hs
    exact Nat.le_trans hs (Nat.sub_le_sub_right (Nat.le_add_right _ _) _)
  · exact .inr (.inr (.inr hs))

/-- Every step from a state where nothing is assumed : it is fine exactly if it is clean. -/
theorem step_notAssumed_iff (hi : s.Inv) (hn : s.NotAssumed) (h : s.step A op = some s') :
    s'.NotAssumed ↔ op.Clean A s := by
  obtain ⟨t, ht, rfl⟩ := map_eq_some_iff.mp h
  cases op with
  | request p req required =>
    obtain rfl := some.inj ht
    exact request_notAssumed_iff hn
  | answer i ok => exact iff_of_true (answer_notAssumed hn ht) trivial
  | report p measured buf =>
    obtain ⟨-, rfl⟩ := of_guard ht
    exact report_notAssumed_iff hi
  | setDfsCheckChan chan bandwidth =>
    obtain rfl := some.inj ht
    simp only [note_notAssumed, Op.Clean, Op.clears, Silent, Operating, outdated, age]
    tauto
  | operate p chan =>
    obtain rfl := some.inj ht
    exact iff_of_true (note_of_same hn id rfl) trivial
  | bssStop p is11hHost =>
    obtain rfl := some.inj ht
    exact bssStop_notAssumed_iff hi hn
  | check chan =>
    obtain rfl := some.inj ht
    refine iff_of_true ?_ trivial
    unfold checkChanReport
    split_ifs
    · exact note_of_same hn id rfl
    · exact note_of_same hn id rfl
    · exact note_of_silent (.inr (.inr (.inr rfl)))
  | tick d => exact iff_of_true (tick_notAssumed hi hn ht) trivial

theorem inv_init (h : s.Init) : s.Inv := by
  obtain ⟨-, -, -, htime, hsec, -, hno, -⟩ := h
  exact ⟨htime ▸ Nat.zero_le _, hsec, fun ⟨p, hp⟩ => by simp [hno p] at hp⟩

theorem notAssumed_init (h : s.Init) : s.NotAssumed :=
  (notAssumed_iff s).mpr (.inl (.inr (.inr (.inr h.2.2.1))))

/-- In clean runs no channel is assumed to be checked, and each further step keeps that exactly if it is clean. -/
theorem chan_report_checked (A : Adapter P) {s : DfsCheck P}
    (h : (chanReportSystem A).ReachableWhen (fun s op => op.Clean A s) s) :
    s.NotAssumed ∧ ∀ op s', s.step A op = some s' → (s'.NotAssumed ↔ op.Clean A s) := by
  have hinv : s.Inv ∧ s.NotAssumed := h.invariant (I := fun s => s.Inv ∧ s.NotAssumed)
    (fun s h => ⟨inv_init h, notAssumed_init h⟩)
    fun s op s' hs hc hstep => ⟨inv_step hs.1 hstep, (step_notAssumed_iff hs.1 hs.2 hstep).mpr hc⟩
  exact ⟨hinv.2, fun op s' hstep => step_notAssumed_iff hinv.1 hinv.2 hstep⟩

/-! ## Runs -/

/-- One access point, outside Japan. -/
def onePoint : Adapter Unit where
  bssTypeDfs := fun _ => false
  regionCode := 0x10
  dfs53cfg := 0

/-- After `wlan_11h_init`, at an uptime of 1000 s. -/
def freshInit : DfsCheck Unit where
  dfsCheckPending := false
  dfsRadarFound := false
  dfsCheckChannel := 0
  dfsCheckBandwidth := 0
  dfsReportTimeSec := 0
  dfsCheckPriv := none
  chanRepReq := fun _ => ⟨0, 0, 0⟩
  sec := 1000
  sent := []
  uapChannel := fun _ => none
  checked := false

theorem freshInit_init : freshInit.Init :=
  ⟨rfl, rfl, rfl, rfl, by decide, rfl, fun _ => rfl, rfl⟩

/-- A report event with a result, and a radar map and nothing else. -/
def eventOf (result map : UInt8) : EventBuf :=
  [result, 0, 0, 0] ++ List.replicate 12 0 ++ [0x5b, 1, 1, 0, map]

/-- The channel is measured for a minute, with the result. -/
def measure (chan : ℕ) (result map : UInt8) : List (Op Unit) :=
  [.request () ⟨chan, 0, 60000⟩ true, .answer 0 true, .tick 60, .report () chan (eventOf result map)]

/-- Channel 52 is measured without radar, and its report is used. -/
theorem chan_report_checked_on_52 : ∃ s,
    (chanReportSystem onePoint).ReachableWhen (fun s op => op.Clean onePoint s) s ∧
      (s.checkChanReport 52).1 = .success ∧ s.checked ∧ s.NotAssumed := by
  obtain ⟨s, hs, hp⟩ := exists_reachableWhen_of_runWhen (M := chanReportSystem onePoint)
    (C := fun s op => op.Clean onePoint s)
    (P := fun s => decide ((s.checkChanReport 52).1 = .success ∧ s.checked))
    (l := measure 52 0 0 ++ [Op.operate () 52, .bssStop () false]) (s := freshInit) (.init freshInit_init)
    (by decide +kernel)
  obtain ⟨hsuccess, hchecked⟩ := of_decide_eq_true hp
  exact ⟨s, hs, hsuccess, hchecked, (chan_report_checked onePoint hs).1⟩

/-- Channel 100 was measured ten seconds ago, and a request for channel 52 is prepared; and the measurement of channel 52
fails. In both channel 52 counts as checked. -/
theorem chan_report_assumed_on_52 :
    (∃ s, (chanReportSystem onePoint).Reachable s ∧ (s.checkChanReport 52).1 = .success ∧ ¬s.checked ∧
      s.sent.map (fun c => c.req.chanNum) = [52]) ∧
    (∃ s, (chanReportSystem onePoint).Reachable s ∧ (s.checkChanReport 52).1 = .success ∧ ¬s.checked ∧ s.sent = []) ∧
    ¬∀ s, (chanReportSystem onePoint).Reachable s → s.NotAssumed := by
  have hwindow : ∃ s, (chanReportSystem onePoint).Reachable s ∧
      decide ((s.checkChanReport 52).1 = .success ∧ ¬s.checked ∧ s.sent.map (fun c => c.req.chanNum) = [52]) = true :=
    exists_reachable_of_run (l := measure 100 0 0 ++ [Op.tick 10, .request () ⟨52, 0, 60000⟩ true])
      freshInit_init (by decide +kernel)
  have hfailed : ∃ s, (chanReportSystem onePoint).Reachable s ∧
      decide ((s.checkChanReport 52).1 = .success ∧ ¬s.checked ∧ s.sent = []) = true :=
    exists_reachable_of_run (l := measure 52 1 0) freshInit_init (by decide +kernel)
  simp only [decide_eq_true_eq] at hwindow hfailed
  refine ⟨hwindow, hfailed, fun h => ?_⟩
  obtain ⟨s, hs, hsuccess, hno, -⟩ := hwindow
  exact hno (h s hs 52 (by decide) hsuccess).2

end DfsCheck

end WlanDriver.Dfs
