import Mathlib.Algebra.GroupWithZero.Nat
import WlanDriver.Radar.Progress

/-!
# Radar handling does not wedge

What a call needs, by the stage that it enters (`CallMeets`), and the condition on the steps of a run that every
call meets it (`Meets`). What a stage needs is in `Progress`; here are the calls, and what else changes the
state.

`unwedged` : along every run whose calls meet it, no call returns with a stage to go on from and nothing
outstanding, and after `RDH_OFF` traffic is not blocked, and no interface of the handled list is left disabled
by the handling. `wedges` is what happens else.
-/

set_option linter.unusedSectionVars false

namespace WlanDriver.Radar

variable {ι : Type*} [DecidableEq ι] {c : Card ι} {env : Env ι} {pm : ι} {s s' : Rdh ι}

/-! ## What a call needs -/

/-- What a call needs, by the stage that it enters. -/
def CallMeets (c : Card ι) (env : Env ι) (pm : ι) (s : Rdh ι) : Prop :=
  match s.stage with
  | .off | .stopTraffic => True
  | .chkIntfs => ChkMeets c env pm s
  | .getInfoChannel => env.prepare = true
  | .getInfoBeaconDtim =>
    match nextAp c s with
    | some _ => env.prepare = true
    | none => SetMeets c env s
  | .setCustomIe => RemMeets c env s
  | .remCustomIe => StopMeets c env s
  | .stopIntfs =>
    match nextStop c s with
    | some _ => StopMeets c env s
    | none => if s.noChannelChange = true then FirstStartMeets c env s else env.prepare = true
  | .setNewChannel =>
    match nextAp c s with
    | some _ => env.prepare = true
    | none => FirstStartMeets c env s
  | .restartIntfs =>
    match nextAp c s with
    | some i => StartMeets c env s i
    | none => Enabled s
  | .restartTraffic => Enabled s

/-- Radar handling starts with what it needs, unless it is already in progress. -/
def BeginMeets (c : Card ι) (env : Env ι) (pm : ι) (s : Rdh ι) : Prop :=
  s.stage = .off → CallMeets c env pm { s with stage := .chkIntfs }

/-- Radar of access point `i` is handled in the driver. -/
def Handles (s : Rdh ι) (i : ι) : Prop :=
  s.is11hHost i = false ∨ testing s = true

/-- Every call of the handling is made with what it needs. -/
def Meets (c : Card ι) (s : Rdh ι) : Act ι → Prop
  | .radar i passed env => (c.uap i = true → passed = false ∧ Handles s i) → BeginMeets c env i s
  | .channelSwitch i _ env => switchEnters c i s = true → CallMeets c env i { s with stage := .restartTraffic }
  | .chanSwAnn _ ap _ _ env =>
    ∀ j ∈ ap, s.stage = .off ∧ Handles s j ∨ s.stage = .setCustomIe ∧ s.is11hHost j = true ∧ testing s = true →
      CallMeets c env j { s with stage := .chkIntfs }
  | .resp k r env =>
    r.ok = true → ∀ cmd ∈ s.pending[k]?,
      let t := respond c env cmd r { s with pending := s.pending.eraseIdx k }
      reenters c t cmd = true → CallMeets c env cmd.iface t
  | _ => True

instance decidableStartMeets (c : Card ι) (env : Env ι) (s : Rdh ι) (i : ι) : Decidable (StartMeets c env s i) :=
  inferInstanceAs (Decidable (_ ∧ _ ∨ _ = _))

instance decidableSetMeets (c : Card ι) (env : Env ι) (s : Rdh ι) : Decidable (SetMeets c env s) :=
  inferInstanceAs (Decidable ((∃ i ∈ _, _) ∨ _ = _))

instance decidableRemMeets (c : Card ι) (env : Env ι) (s : Rdh ι) : Decidable (RemMeets c env s) :=
  inferInstanceAs (Decidable (_ ≠ _ ∨ _ = _))

instance decidableStopMeets (c : Card ι) (env : Env ι) (s : Rdh ι) : Decidable (StopMeets c env s) :=
  inferInstanceAs (Decidable (_ = _ ∨ _ = _))

instance decidableFirstStartMeets (c : Card ι) (env : Env ι) (s : Rdh ι) : Decidable (FirstStartMeets c env s) :=
  inferInstanceAs (Decidable (∀ i ∈ _, _))

instance decidableEnabled (s : Rdh ι) : Decidable (Enabled s) :=
  inferInstanceAs (Decidable (∀ i ∈ _, _))

instance decidableChkMeets (c : Card ι) (env : Env ι) (pm : ι) (s : Rdh ι) : Decidable (ChkMeets c env pm s) := by
  unfold ChkMeets
  infer_instance

instance decidableCallMeets (c : Card ι) (env : Env ι) (pm : ι) (s : Rdh ι) : Decidable (CallMeets c env pm s) := by
  unfold CallMeets
  split <;> first | infer_instance | (split <;> infer_instance)

instance decidableMeets (c : Card ι) (s : Rdh ι) (a : Act ι) : Decidable (Meets c s a) := by
  unfold Meets BeginMeets Handles
  split <;> infer_instance

/-! ## A call -/

section

variable (c env pm s)

theorem send_wedged (k : CmdKind) (i : ι) : (send env k i s).wedged = s.wedged := by
  unfold send
  split_ifs <;> rfl

theorem chanSwIes_wedged (add : Bool) : (chanSwIes c env add s).wedged = s.wedged := by
  obtain ⟨k, -, heq⟩ := @chanSwIes_eq _ _ c env add s
  rw [heq]

theorem restartTraffic_wedged : (restartTraffic c env s).wedged = s.wedged := by
  unfold restartTraffic
  dsimp only
  rw [foldl_txEnable]
  split_ifs
  · exact chanSwIes_wedged c env s false
  · rfl

theorem restartIntfs_wedged : (restartIntfs c env s).wedged = s.wedged := by
  unfold restartIntfs
  dsimp only
  split
  · exact send_wedged ..
  · exact restartTraffic_wedged ..

theorem setNewChannel_wedged : (setNewChannel c env s).wedged = s.wedged := by
  unfold setNewChannel
  dsimp only
  split
  · exact send_wedged ..
  · exact restartIntfs_wedged ..

theorem stopIntfs_wedged : (stopIntfs c env s).wedged = s.wedged := by
  unfold stopIntfs
  dsimp only
  split
  · exact send_wedged ..
  · split_ifs
    · exact restartIntfs_wedged ..
    · exact setNewChannel_wedged ..

theorem remCustomIe_wedged : (remCustomIe c env s).wedged = s.wedged := by
  unfold remCustomIe
  split_ifs
  · exact chanSwIes_wedged ..
  · exact stopIntfs_wedged ..

theorem setCustomIe_wedged : (setCustomIe c env s).wedged = s.wedged := by
  unfold setCustomIe
  split_ifs
  · exact chanSwIes_wedged ..
  · exact remCustomIe_wedged ..

theorem getInfoBeaconDtim_wedged : (getInfoBeaconDtim c env s).wedged = s.wedged := by
  unfold getInfoBeaconDtim
  dsimp only
  split
  · exact send_wedged ..
  · exact setCustomIe_wedged ..

theorem getInfoChannel_wedged : (getInfoChannel c env pm s).wedged = s.wedged := by
  unfold getInfoChannel
  split_ifs
  · dsimp only
    split
    · exact send_wedged ..
    · rfl
  · exact getInfoBeaconDtim_wedged ..
  · exact getInfoBeaconDtim_wedged ..
  · exact getInfoBeaconDtim_wedged ..

theorem stopTraffic_wedged : (stopTraffic c env pm s).wedged = s.wedged := by
  obtain ⟨d, b, heq, -⟩ := foldl_txDisable s.privList s
  unfold stopTraffic
  rw [getInfoChannel_wedged, heq]

theorem chkIntfs_wedged : (chkIntfs c env pm s).wedged = s.wedged := by
  unfold chkIntfs
  dsimp only
  split_ifs
  · rfl
  · exact stopTraffic_wedged ..

/-- A call does not touch the record of the calls before. -/
theorem radarDetectedHandling_wedged : (radarDetectedHandling c env pm s).wedged = s.wedged := by
  unfold radarDetectedHandling
  split
  · exact chkIntfs_wedged ..
  · exact stopTraffic_wedged ..
  · exact getInfoChannel_wedged ..
  · exact getInfoBeaconDtim_wedged ..
  · exact setCustomIe_wedged ..
  · exact remCustomIe_wedged ..
  · exact stopIntfs_wedged ..
  · exact setNewChannel_wedged ..
  · exact restartIntfs_wedged ..
  · exact restartTraffic_wedged ..
  · rfl

end

/-- The invariant of a run. -/
structure Inv (c : Card ι) (s : Rdh ι) : Prop where
  rdh : RdhInv c s
  unwedged : s.wedged = false

/-- A call that leaves something outstanding keeps the invariant. -/
theorem Inv.handle (h : Ready c (radarDetectedHandling c env pm s)) (hw : s.wedged = false) :
    Inv c (handle c env pm s) := by
  obtain ⟨hinv, hout⟩ := h
  refine ⟨{ hinv with }, ?_⟩
  unfold Radar.handle
  rw [Bool.or_eq_false_iff, radarDetectedHandling_wedged]
  refine ⟨hw, ?_⟩
  by_cases hst : (radarDetectedHandling c env pm s).stage = .off
  · simp [hst]
  · simp [hout hst]

/-- What a stage that waits is entered with. -/
theorem RdhInv.entered (h : RdhInv c s) (hst : s.stage ≠ .off) (hq : Radar.queries s = 0) : Entered c s :=
  ⟨h.length, h.sub, h.ap hst, hq, h.disabled⟩

/-- A response enters a stage that waits. -/
theorem RdhInv.enter (h : RdhInv c s) (hst : s.stage ≠ .off) (hq : Radar.queries s = 0)
    (hset : s.stage = .setCustomIe → c.ecsaEnable = false) (hmeets : CallMeets c env pm s) :
    Ready c (radarDetectedHandling c env pm s) := by
  have hent := h.entered hst hq
  have hwaits := h.stage.resolve_left hst
  unfold CallMeets at hmeets
  unfold radarDetectedHandling
  cases hstage : s.stage with
  | off => exact absurd hstage hst
  | chkIntfs => simp [hstage, Stage.waits] at hwaits
  | stopTraffic => simp [hstage, Stage.waits] at hwaits
  | restartTraffic => simp [hstage, Stage.waits] at hwaits
  | getInfoChannel =>
    rw [hstage] at hmeets
    exact getInfoChannel_again hent (h.idx (.inl hstage)) hmeets
  | getInfoBeaconDtim =>
    rw [hstage] at hmeets
    exact getInfoBeaconDtim_ready hent hstage hmeets
  | setCustomIe =>
    rw [hstage] at hmeets
    exact setCustomIe_again hent (h.idx (.inr (.inl hstage))) (hset hstage) hmeets
  | remCustomIe =>
    rw [hstage] at hmeets
    have hecsa : c.ecsaEnable = false := by simpa [hstage, Stage.waits] using hwaits
    exact remCustomIe_again hent (h.idx (.inr (.inr hstage))) hecsa hmeets
  | stopIntfs =>
    rw [hstage] at hmeets
    have hecsa : c.ecsaEnable = false := by simpa [hstage, Stage.waits] using hwaits
    exact stopIntfs_ready hent hstage hecsa hmeets
  | setNewChannel =>
    rw [hstage] at hmeets
    have hecsa : c.ecsaEnable = false := by simpa [hstage, Stage.waits] using hwaits
    exact setNewChannel_ready hent hstage hecsa hmeets
  | restartIntfs =>
    rw [hstage] at hmeets
    have hecsa : c.ecsaEnable = false := by simpa [hstage, Stage.waits] using hwaits
    exact restartIntfs_ready hent hstage hecsa hmeets

/-! ## What else happens -/

/-- Only the stage, the place, the list, the queries and the traffic matter. -/
theorem RdhInv.move (h : RdhInv c s) (hstage : s'.stage = s.stage) (hidx : s'.privCurrIdx = s.privCurrIdx)
    (hlist : s'.privList = s.privList) (hq : Radar.queries s' = Radar.queries s)
    (hdis : ∀ i, s'.byHandling i = true → s'.txDisabled i = true)
    (hby : ∀ i, s'.byHandling i = true → s.byHandling i = true) : RdhInv c s' := by
  refine ⟨?_, ?_, ?_, ?_, ?_, ?_, hdis, fun hst i hi => ?_⟩
  · rw [hstage]
    exact h.stage
  · rw [hstage, hidx]
    exact h.idx
  · rw [hlist]
    exact h.length
  · rw [hlist]
    exact h.sub
  · rw [hstage, hlist]
    exact h.ap
  · rw [hq, hstage]
    exact h.queries
  · rw [hstage] at hst
    rw [hlist] at hi
    exact Bool.eq_false_iff.mpr fun htrue => Bool.eq_false_iff.mp (h.enabled hst i hi) (hby i htrue)

/-- The traffic of an interface is enabled. -/
theorem RdhInv.clear (h : RdhInv c s) (i : ι) : RdhInv c
    { s with
      txDisabled := Function.update s.txDisabled i false
      byHandling := Function.update s.byHandling i false } := by
  refine h.move rfl rfl rfl rfl (fun j => ?_) fun j => ?_
  · by_cases hj : j = i
    · subst hj
      simp
    · simpa [hj] using h.disabled j
  · by_cases hj : j = i
    · subst hj
      simp
    · simp [hj]

/-- The traffic of an interface is disabled, and not by the handling. -/
theorem RdhInv.disable (h : RdhInv c s) (i : ι) :
    RdhInv c { s with txDisabled := Function.update s.txDisabled i true } := by
  refine h.move rfl rfl rfl rfl (fun j hby => ?_) fun _ => id
  by_cases hj : j = i
  · subst hj
    simp
  · simpa [hj] using h.disabled j hby

/-- A command that is no query is sent. -/
theorem RdhInv.issue (h : RdhInv c s) {kind : CmdKind} (hk : kind.isQuery = false) (i : ι) :
    RdhInv c { s with pending := s.pending ++ [⟨kind, i⟩] } := by
  refine h.move rfl rfl rfl ?_ h.disabled fun _ => id
  unfold Radar.queries
  rw [List.countP_append, List.countP_singleton, if_neg (by simp [hk]), Nat.add_zero]

/-- The elements are removed before the handling is entered. -/
theorem RdhInv.removeCustomIe (h : RdhInv c s) : RdhInv c (removeCustomIe c env s) := by
  unfold Radar.removeCustomIe
  split_ifs with hstage
  · obtain ⟨k, hk, heq⟩ := @chanSwIes_eq _ _ c env false s
    have hlen := h.length
    have hq : Radar.queries s = 0 := Nat.le_zero.mp (by simpa [hstage, queriesIn] using h.queries)
    rw [heq]
    refine ⟨h.stage, fun _ => ?_, h.length, h.sub, h.ap, ?_, h.disabled, h.enabled⟩
    · show k ≠ firstEntry
      unfold firstEntry
      omega
    · exact (queries_mgmtIe hq _).trans_le (Nat.zero_le _)
  · exact h

/-- What a response does before it may enter the handling keeps the invariant, the stage and the queries. -/
theorem respond_keeps {cmd : Cmd ι} {r : Resp} (h : RdhInv c s) (hw : s.wedged = false) :
    RdhInv c (respond c env cmd r s) ∧ (respond c env cmd r s).wedged = false ∧
      (respond c env cmd r s).stage = s.stage ∧ (Radar.queries s = 0 → Radar.queries (respond c env cmd r s) = 0) := by
  unfold respond
  dsimp only
  split
  · exact ⟨h.move rfl rfl rfl rfl h.disabled fun _ => id, hw, rfl, id⟩
  · exact ⟨h.move rfl rfl rfl rfl h.disabled fun _ => id, hw, rfl, id⟩
  · exact ⟨h, hw, rfl, id⟩
  · exact ⟨h, hw, rfl, id⟩
  · exact ⟨h, hw, rfl, id⟩
  · have hstop : RdhInv c { s with bssStarted := Function.update s.bssStarted cmd.iface false } :=
      h.move rfl rfl rfl rfl h.disabled fun _ => id
    split_ifs
    · exact ⟨hstop.clear cmd.iface, hw, rfl, id⟩
    · refine ⟨hstop.removeCustomIe, ?_⟩
      unfold removeCustomIe
      split_ifs
      · obtain ⟨k, -, heq⟩ := @chanSwIes_eq _ _ c env false
          { s with bssStarted := Function.update s.bssStarted cmd.iface false }
        rw [heq]
        exact ⟨hw, rfl, fun hq => queries_mgmtIe hq _⟩
      · exact ⟨hw, rfl, id⟩
    · exact ⟨hstop, hw, rfl, id⟩
  · split_ifs
    · exact ⟨h.move rfl rfl rfl rfl h.disabled fun _ => id, hw, rfl, id⟩
    · exact ⟨h, hw, rfl, id⟩

/-- A response takes its command. -/
theorem queries_eraseIdx {k : ℕ} {cmd : Cmd ι} (h : s.pending[k]? = some cmd) :
    Radar.queries s = Radar.queries { s with pending := s.pending.eraseIdx k } +
      if cmd.kind.isQuery = true then 1 else 0 := by
  obtain ⟨hk, hcmd⟩ := List.getElem?_eq_some_iff.mp h
  unfold Radar.queries
  rw [← (List.getElem_cons_eraseIdx_perm hk).countP_eq, List.countP_cons, hcmd]

/-- Stages that wait for a query wait for one. -/
theorem queriesIn_pos {st : Stage} (h : 0 < queriesIn st) : queriesIn st = 1 ∧ st ≠ .off ∧ st ≠ .setCustomIe := by
  cases st <;> simp_all [queriesIn]

/-- The response to a command that is no query enters only the stage that sent it. -/
theorem stage_of_reenters {cmd : Cmd ι} (hk : cmd.kind.isQuery = false) (h : reenters c s cmd = true) :
    s.stage ≠ .off ∧ queriesIn s.stage = 0 ∧ (s.stage = .setCustomIe → c.ecsaEnable = false) := by
  unfold reenters at h
  cases hkind : cmd.kind with
  | getChannel | getBeaconDtim | setChannel =>
    rw [hkind] at hk
    exact absurd hk nofun
  | mgmtIe =>
    simp only [hkind, decide_eq_true_eq, Bool.not_eq_true'] at h
    obtain ⟨hst | hst, hecsa⟩ := h <;> simp [hst, queriesIn, hecsa]
  | bssStop | deauth =>
    simp only [hkind, decide_eq_true_eq] at h
    simp [h, queriesIn]
  | bssStart =>
    simp only [hkind, decide_eq_true_eq] at h
    simp [h.1, queriesIn]

/-- What enters the handling by a response finds no other query in flight, and a stage that waits. -/
theorem reenters_spec {cmd : Cmd ι} {n : ℕ} (h : reenters c s cmd = true)
    (hn : n + (if cmd.kind.isQuery = true then 1 else 0) ≤ queriesIn s.stage) :
    s.stage ≠ .off ∧ n = 0 ∧ (s.stage = .setCustomIe → c.ecsaEnable = false) := by
  cases hk : cmd.kind.isQuery with
  | false =>
    obtain ⟨hoff, hzero, hset⟩ := stage_of_reenters hk h
    exact ⟨hoff, by omega, hset⟩
  | true =>
    rw [hk, if_pos rfl] at hn
    obtain ⟨hone, hoff, hset⟩ := queriesIn_pos (Nat.lt_of_lt_of_le (Nat.succ_pos n) hn)
    exact ⟨hoff, by omega, fun hst => absurd hst hset⟩

theorem cmdResp_inv {k : ℕ} {r : Resp} {cmd : Cmd ι} (hi : Inv c s) (hcmd : s.pending[k]? = some cmd)
    (hmeets : Meets c s (.resp k r env)) :
    Inv c (cmdResp c env cmd r { s with pending := s.pending.eraseIdx k }) := by
  have hq := queries_eraseIdx hcmd
  have hle := hi.rdh.queries
  have herase : RdhInv c { s with pending := s.pending.eraseIdx k } :=
    ⟨hi.rdh.stage, hi.rdh.idx, hi.rdh.length, hi.rdh.sub, hi.rdh.ap, by dsimp only; omega, hi.rdh.disabled, hi.rdh.enabled⟩
  obtain ⟨hinv, hw, hstage, hzero⟩ := @respond_keeps _ _ _ env _ cmd r herase hi.unwedged
  unfold cmdResp
  dsimp only
  split_ifs with hok hre
  · rw [hq, ← hstage] at hle
    obtain ⟨hoff, hnone, hset⟩ := reenters_spec hre hle
    exact Inv.handle (hinv.enter hoff (hzero hnone) hset (hmeets hok cmd hcmd hre)) hw
  · exact ⟨hinv, hw⟩
  · exact ⟨herase, hi.unwedged⟩

/-! ## Events -/

/-- The handling starts, or starts anew, when no query is in flight. -/
theorem Inv.start (hi : Inv c s) (hq : queriesIn s.stage = 0)
    (hmeets : CallMeets c env pm { s with stage := .chkIntfs }) :
    Inv c (Radar.handle c env pm { s with stage := .chkIntfs }) :=
  Inv.handle (chkIntfs_ready (Nat.le_zero.mp (hi.rdh.queries.trans_eq hq)) hi.rdh.disabled hmeets) hi.unwedged

theorem beginHandling_inv (hi : Inv c s) (hmeets : BeginMeets c env pm s) : Inv c (beginHandling c env pm s) := by
  unfold beginHandling
  split_ifs with hoff
  · exact hi.start (by simp [hoff, queriesIn]) (hmeets hoff)
  · exact hi

theorem radarEvent_inv {i : ι} {passed : Bool} (hi : Inv c s) (hmeets : Meets c s (.radar i passed env)) :
    Inv c (radarEvent c env i passed s) := by
  unfold radarEvent
  split_ifs with huap hpassed hhandles
  · exact hi
  · refine beginHandling_inv hi (hmeets fun _ => ⟨by simpa using hpassed, ?_⟩)
    simpa [Handles] using hhandles
  · exact ⟨hi.rdh.disable i, hi.unwedged⟩
  · exact beginHandling_inv hi (hmeets fun h => absurd h huap)

/-- A channel switch event that enters the handling restarts the traffic. -/
theorem switch_inv {i : ι} {s' : Rdh ι} (hi : Inv c s') (hst : s'.stage = .setCustomIe)
    (hmeets : Enabled s') : Inv c (Radar.handle c env i { s' with stage := .restartTraffic }) := by
  have hq : Radar.queries s' = 0 := Nat.le_zero.mp (by simpa [hst, queriesIn] using hi.rdh.queries)
  have hent : Entered c s' := hi.rdh.entered (by simp [hst]) hq
  exact Inv.handle (restartTraffic_ready (hent.move rfl rfl rfl rfl) hmeets) hi.unwedged

theorem channelSwitchEvent_inv {i : ι} {channel : ℕ} (hi : Inv c s)
    (hmeets : Meets c s (.channelSwitch i channel env)) : Inv c (channelSwitchEvent c env i channel s) := by
  have hcb (b : ι → ℕ) : Inv c { s with chanCb := b } :=
    ⟨hi.rdh.move rfl rfl rfl rfl hi.rdh.disabled fun _ => id, hi.unwedged⟩
  have hbss (d : ι → ℕ) : Inv c { s with bssChannel := d } :=
    ⟨hi.rdh.move rfl rfl rfl rfl hi.rdh.disabled fun _ => id, hi.unwedged⟩
  have hblock {t : Rdh ι} (ht : Inv c t) : Inv c { t with txBlock := false } :=
    ⟨ht.rdh.move rfl rfl rfl rfl ht.rdh.disabled fun _ => id, ht.unwedged⟩
  unfold channelSwitchEvent
  dsimp only
  split_ifs with huap _ henters hecsa henters
  · exact switch_inv (hcb _) (of_decide_eq_true henters).1 (hmeets henters)
  · exact hcb _
  · exact ⟨(hcb (Function.update s.chanCb i channel)).rdh.clear i, hi.unwedged⟩
  · exact hblock (switch_inv (hbss _) (of_decide_eq_true henters).1 (hmeets henters))
  · exact hblock (hbss _)
  · exact hi

theorem annForAp_inv {ap : ι} (hi : Inv c s)
    (hmeets : s.stage = .off ∧ Handles s ap ∨ s.stage = .setCustomIe ∧ s.is11hHost ap = true ∧ testing s = true →
      CallMeets c env ap { s with stage := .chkIntfs }) : Inv c (annForAp c env ap s) := by
  unfold annForAp
  split_ifs with hhost htest hst
  · exact beginHandling_inv hi fun hoff => hmeets (.inl ⟨hoff, .inl (by simpa using hhost)⟩)
  · rcases hst with hoff | hset
    · exact hi.start (by simp [hoff, queriesIn]) (hmeets (.inl ⟨hoff, .inr htest⟩))
    · exact hi.start (by simp [hset, queriesIn]) (hmeets (.inr ⟨hset, by simpa using hhost, htest⟩))
  · exact hi
  · exact ⟨hi.rdh.disable ap, hi.unwedged⟩

theorem chanSwAnnEvent_inv {i : ι} {ap : Option ι} {stopTx deauthSent : Bool} (hi : Inv c s)
    (hmeets : Meets c s (.chanSwAnn i ap stopTx deauthSent env)) :
    Inv c (chanSwAnnEvent c env i ap stopTx deauthSent s) := by
  have hrest {t : Rdh ι} (ht : Inv c t) : Inv c (if c.ecsaEnable then { t with txBlock := t.txBlock || stopTx }
      else if t.mediaConnected i ∧ deauthSent then { t with pending := t.pending ++ [⟨.deauth, i⟩] } else t) := by
    split_ifs
    · exact ⟨ht.rdh.move rfl rfl rfl rfl ht.rdh.disabled fun _ => id, ht.unwedged⟩
    · exact ⟨ht.rdh.issue rfl i, ht.unwedged⟩
    · exact ht
  unfold chanSwAnnEvent
  cases ap with
  | none => exact hrest hi
  | some j => exact hrest (annForAp_inv hi (hmeets j rfl))

/-! ## Runs -/

theorem Inv.step {a : Act ι} (hi : Inv c s) (hmeets : Meets c s a) (hs : step c s a = some s') : Inv c s' := by
  have hkeep {t : Rdh ι} (hstage : t.stage = s.stage) (hidx : t.privCurrIdx = s.privCurrIdx)
      (hlist : t.privList = s.privList) (hpending : t.pending = s.pending) (hby : t.byHandling = s.byHandling)
      (hdis : t.txDisabled = s.txDisabled) (hw : t.wedged = s.wedged) : Inv c t :=
    ⟨hi.rdh.move hstage hidx hlist (by rw [Radar.queries, Radar.queries, hpending])
      (by rw [hby, hdis]; exact hi.rdh.disabled) fun _ => by rw [hby]; exact id, hw.trans hi.unwedged⟩
  unfold Radar.step at hs
  cases a with
  | radar i passed env =>
    cases hs
    exact radarEvent_inv hi hmeets
  | channelSwitch i channel env =>
    cases hs
    exact channelSwitchEvent_inv hi hmeets
  | chanSwAnn i ap stopTx deauthSent env =>
    dsimp only at hs
    split_ifs at hs
    cases hs
    exact chanSwAnnEvent_inv hi hmeets
  | resp k r env =>
    dsimp only at hs
    split at hs
    next => exact absurd hs.symm (Option.some_ne_none _)
    next cmd hcmd =>
      cases hs
      exact cmdResp_inv hi hcmd hmeets
  | issue kind i =>
    dsimp only at hs
    split_ifs at hs with hk
    cases hs
    exact ⟨hi.rdh.issue (by simpa using hk) i, hi.unwedged⟩
  | connect i | disconnect i | started i | setHost i host | dfsTest noChannelChange fixedNewChannel =>
    cases hs
    exact hkeep rfl rfl rfl rfl rfl rfl rfl
  | startTx i =>
    cases hs
    unfold txEnable
    split_ifs
    · exact ⟨hi.rdh.clear i, hi.unwedged⟩
    · exact hi

theorem Inv.initial : Inv c (initial : Rdh ι) :=
  ⟨⟨.inl rfl, fun h => absurd h (by simp [Radar.initial]), Nat.zero_le _, nofun, fun h => absurd rfl h,
    Nat.zero_le _, nofun, nofun⟩, rfl⟩

/-- Radar handling does not wedge transmission : no call has returned with a stage to go on from and nothing
outstanding that enters the handling again, and in `RDH_OFF` its check of `tx_block` is the only one, and no
interface of the handled list is disabled by the handling, be it connected or not. -/
structure Unwedged (s : Rdh ι) : Prop where
  returned : s.wedged = false
  blocked : s.stage = .off → s.txBlock = false → radarDetectedTxBlocked s = false
  enabled : s.stage = .off → ∀ i ∈ s.privList, ¬(s.txDisabled i = true ∧ s.byHandling i = true)

/-- Along every run whose calls are made with what they need radar handling does not wedge transmission. -/
theorem unwedged (c : Card ι) {s : Rdh ι} (h : (system c).ReachableWhen (Meets c) s) : Unwedged s := by
  have hi : Inv c s := by
    refine h.invariant (I := Inv c) ?_ fun _ _ _ hi hm hs => hi.step hm hs
    rintro s rfl
    exact Inv.initial
  refine ⟨hi.unwedged, fun hoff hblock => ?_, fun hoff i hmem hdis => ?_⟩
  · simp [radarDetectedTxBlocked, hoff, hblock]
  · rw [hi.rdh.enabled hoff i hmem] at hdis
    exact absurd hdis.2 nofun

local instance neZeroTwo : NeZero 2 := ⟨by decide⟩

/-- An access point and a station. -/
def exampleCard (ecsa : Bool) : Card (Fin 2) where
  privs := [0, 1]
  uap i := i = 0
  ecsaEnable := ecsa
  length_privs := by decide

/-- Nothing fails. -/
def exampleEnv : Env (Fin 2) where
  prepare := true
  alloc _ := true
  ieSent _ := true
  startChannel := 36

/-- A good response. -/
def exampleResp : Act (Fin 2) :=
  .resp 0 ⟨true, 52, true⟩ exampleEnv

/-- Radar of the access point is handled, the station is deauthenticated and connects again, and its traffic goes on. -/
theorem unwedged_example : ∃ s, (system (exampleCard false)).ReachableWhen (Meets (exampleCard false)) s ∧
    (s.stage = .off ∧ s.privList = [0, 1] ∧ s.newChannel = 36 ∧ s.bssStarted 0 = false ∧ s.txDisabled 1 = false) ∧
      Unwedged s := by
  obtain ⟨s, hreach, h⟩ := System.exists_reachableWhen_of_runWhen
    (P := fun s => s.stage = .off ∧ s.privList = [0, 1] ∧ s.newChannel = 36 ∧ s.bssStarted 0 = false ∧
      s.txDisabled 1 = false)
    (l := [.started 0, .connect 1, .radar 0 false exampleEnv, exampleResp, exampleResp, exampleResp, exampleResp,
      exampleResp, exampleResp, .connect 1, exampleResp, exampleResp])
    (.init (M := system (exampleCard false)) (C := Meets (exampleCard false)) rfl) (by decide +kernel)
  exact ⟨s, hreach, by simpa using h, unwedged _ hreach⟩

/-- When radar is detected by a station and there is no access point, the handling waits in `RDH_SET_CUSTOM_IE`
for nothing. -/
theorem wedges : ∃ s, (system (exampleCard true)).Reachable s ∧
    (s.stage = .setCustomIe ∧ s.pending.length = 0 ∧ radarDetectedTxBlocked s = true) ∧ ¬Unwedged s := by
  obtain ⟨s, hreach, h⟩ := System.exists_reachable_of_run
    (P := fun s => s.wedged ∧ s.stage = .setCustomIe ∧ s.pending.length = 0 ∧ radarDetectedTxBlocked s = true)
    (l := [.connect 1, .radar 1 false exampleEnv])
    (show (system (exampleCard true)).init initial from rfl) (by decide +kernel)
  obtain ⟨hwedged, hend⟩ := of_decide_eq_true h
  refine ⟨s, hreach, hend, fun hu => ?_⟩
  rw [hu.returned] at hwedged
  exact absurd hwedged nofun

end WlanDriver.Radar
