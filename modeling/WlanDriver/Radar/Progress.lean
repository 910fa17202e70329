import WlanDriver.Radar.Events

/-!
# Radar handling goes on

A stage that is entered between calls (`Entered`) with what it needs (`StartMeets`, `SetMeets`, `RemMeets`,
`StopMeets`, `ChkMeets`) leaves either `RDH_OFF`, with the traffic of its interfaces enabled, or something
outstanding that enters the handling again (`Ready`). There is a lemma for each stage, and a stage that falls
through uses that of the next.
-/

set_option linter.unusedSectionVars false

namespace WlanDriver.Radar

open List

variable {ι : Type*} [DecidableEq ι] {c : Card ι} {env : Env ι} {pm : ι} {s s' : Rdh ι}

/-! ## Places -/

/-- What lies at the next place. -/
theorem getElem?_nextIdx (s : Rdh ι) (p : ι → Bool) :
    s.privList[nextIdx s p]? = (s.privList.drop ((s.privCurrIdx + 1) % 256)).find? p := by
  unfold nextIdx
  dsimp only
  split_ifs with hj
  · rw [← getElem?_drop, ← find?_eq_getElem?_findIdx]
  · rw [drop_eq_nil_of_le (not_lt.mp hj), find?_nil]
    exact getElem?_eq_none (not_lt.mp hj)

theorem getElem?_nextIdx_first (hidx : s.privCurrIdx = firstEntry) (p : ι → Bool) :
    s.privList[nextIdx s p]? = s.privList.find? p := by
  rw [getElem?_nextIdx, hidx]
  rfl

/-- At the first entry a place is found if there is one. -/
theorem exists_nextIdx {p : ι → Bool} (hidx : s.privCurrIdx = firstEntry) (h : ∃ i ∈ s.privList, p i = true) :
    ∃ i, s.privList[nextIdx s p]? = some i := by
  rw [getElem?_nextIdx_first hidx]
  exact Option.isSome_iff_exists.mp (find?_isSome.mpr h)

/-! ## CHAN_SW elements -/

/-- The access points for which an element is sent, added or removed : up to the first whose allocation fails. -/
def iesSent (c : Card ι) (env : Env ι) (l : List ι) : List ι :=
  ((l.filter c.uap).takeWhile env.alloc).filter env.ieSent

theorem iesSent_cons (i : ι) (l : List ι) : iesSent c env (i :: l) =
    if !c.uap i then iesSent c env l
    else if !env.alloc i then []
    else if env.ieSent i then i :: iesSent c env l else iesSent c env l := by
  unfold iesSent
  cases hu : c.uap i with
  | false => simp [hu]
  | true =>
    cases ha : env.alloc i with
    | false => simp [hu, ha]
    | true => cases hs : env.ieSent i <;> simp [hu, ha, hs]

/-- What the loop over the elements does. -/
theorem chanSwLoop_eq (add : Bool) (s : Rdh ι) (j : ℕ) (l : List ι) :
    ∃ k ≤ j + l.length, chanSwLoop c env add s j l =
      { s with
        privCurrIdx := k
        chanSw := fun i => if i ∈ iesSent c env l then add else s.chanSw i
        pending := s.pending ++ (iesSent c env l).map (⟨.mgmtIe, ·⟩) } := by
  induction l generalizing s j with
  | nil => exact ⟨j, Nat.le_refl _, by simp [chanSwLoop, iesSent]⟩
  | cons i l ih =>
    rw [chanSwLoop, iesSent_cons]
    split_ifs
    · obtain ⟨k, hk, heq⟩ := ih s (j + 1)
      exact ⟨k, by rw [length_cons]; omega, heq⟩
    · exact ⟨j, Nat.le_add_right _ _, by simp⟩
    · obtain ⟨k, hk, heq⟩ := ih { s with
        chanSw := Function.update s.chanSw i add
        pending := s.pending ++ [⟨.mgmtIe, i⟩] } (j + 1)
      refine ⟨k, by rw [length_cons]; omega, ?_⟩
      rw [heq]
      congr 1
      · funext i'
        by_cases hi : i' = i
        · subst hi
          simp
        · simp [hi]
      · simp
    · obtain ⟨k, hk, heq⟩ := ih s (j + 1)
      exact ⟨k, by rw [length_cons]; omega, heq⟩

theorem chanSwIes_eq (add : Bool) (s : Rdh ι) : ∃ k ≤ s.privList.length, chanSwIes c env add s =
    { s with
      privCurrIdx := k
      chanSw := fun i => if i ∈ iesSent c env s.privList then add else s.chanSw i
      pending := s.pending ++ (iesSent c env s.privList).map (⟨.mgmtIe, ·⟩) } := by
  obtain ⟨k, hk, heq⟩ := @chanSwLoop_eq _ _ c env add s 0 s.privList
  exact ⟨k, by omega, heq⟩

/-! ## Traffic -/

/-- What enabling the traffic of the interfaces of `l` does. -/
theorem foldl_txEnable (l : List ι) (s : Rdh ι) : l.foldl txEnable s =
    { s with
      txDisabled := fun i => s.txDisabled i && !(decide (i ∈ l) && s.mediaConnected i)
      byHandling := fun i => s.byHandling i && !(decide (i ∈ l) && s.txDisabled i && s.mediaConnected i) } := by
  induction l generalizing s with
  | nil => simp
  | cons j l ih =>
    rw [foldl_cons, ih]
    unfold txEnable
    split_ifs with hj
    · congr 1
      · funext i
        by_cases hi : i = j
        · subst hi
          simp [hj.2]
        · simp [hi]
      · funext i
        by_cases hi : i = j
        · subst hi
          simp [hj.1, hj.2]
        · simp [hi]
    · congr 1
      · funext i
        by_cases hi : i = j
        · subst hi
          cases htx : s.txDisabled i <;> simp_all
        · simp [hi]
      · funext i
        by_cases hi : i = j
        · subst hi
          cases htx : s.txDisabled i <;> simp_all
        · simp [hi]

/-- What disabling the traffic of an interface keeps. -/
theorem txDisable_eq (s : Rdh ι) (i : ι) : ∃ d b, txDisable s i = { s with txDisabled := d, byHandling := b } ∧
    ((∀ j, s.byHandling j = true → s.txDisabled j = true) → ∀ j, b j = true → d j = true) := by
  unfold txDisable
  split_ifs
  · refine ⟨_, _, rfl, fun h j => ?_⟩
    by_cases hj : j = i
    · subst hj
      simp
    · simpa [hj] using h j
  · exact ⟨_, _, rfl, id⟩

theorem foldl_txDisable (l : List ι) (s : Rdh ι) : ∃ d b, l.foldl txDisable s =
    { s with txDisabled := d, byHandling := b } ∧
      ((∀ j, s.byHandling j = true → s.txDisabled j = true) → ∀ j, b j = true → d j = true) := by
  induction l generalizing s with
  | nil => exact ⟨_, _, rfl, id⟩
  | cons i l ih =>
    obtain ⟨d, b, heq, hkeep⟩ := txDisable_eq s i
    obtain ⟨d', b', heq', hkeep'⟩ := ih (txDisable s i)
    rw [foldl_cons, heq']
    rw [heq] at hkeep' ⊢
    exact ⟨d', b', rfl, fun h => hkeep' (hkeep h)⟩

/-! ## The invariant -/

/-- How many queries are in flight. -/
def queries (s : Rdh ι) : ℕ :=
  s.pending.countP fun cmd => cmd.kind.isQuery

/-- How many queries a stage waits for. -/
def queriesIn : Stage → ℕ
  | .getInfoChannel | .getInfoBeaconDtim | .setNewChannel => 1
  | _ => 0

/-- The stages that wait, and those of them that a card with ECSA gets to. -/
def Stage.waits (ecsa : Bool) : Stage → Bool
  | .getInfoChannel | .getInfoBeaconDtim | .setCustomIe => true
  | .remCustomIe | .stopIntfs | .setNewChannel | .restartIntfs => !ecsa
  | _ => false

/-- What holds between calls. -/
structure RdhInv (c : Card ι) (s : Rdh ι) : Prop where
  stage : s.stage = .off ∨ s.stage.waits c.ecsaEnable = true
  idx : s.stage = .getInfoChannel ∨ s.stage = .setCustomIe ∨ s.stage = .remCustomIe → s.privCurrIdx ≠ firstEntry
  length : s.privList.length ≤ 16
  sub : ∀ i ∈ s.privList, i ∈ c.privs
  ap : s.stage ≠ .off → ∃ i ∈ s.privList, c.uap i = true
  queries : queries s ≤ queriesIn s.stage
  disabled : ∀ i, s.byHandling i = true → s.txDisabled i = true
  enabled : s.stage = .off → ∀ i ∈ s.privList, s.byHandling i = false

/-- What a call leaves. -/
structure Ready (c : Card ι) (s : Rdh ι) : Prop where
  inv : RdhInv c s
  out : s.stage ≠ .off → outstanding c s = true

/-- What a stage is entered with. -/
structure Entered (c : Card ι) (s : Rdh ι) : Prop where
  length : s.privList.length ≤ 16
  sub : ∀ i ∈ s.privList, i ∈ c.privs
  ap : ∃ i ∈ s.privList, c.uap i = true
  queries : queries s = 0
  disabled : ∀ i, s.byHandling i = true → s.txDisabled i = true

/-- The place and the stage do not matter. -/
theorem Entered.move (h : Entered c s) (hlist : s'.privList = s.privList) (hpending : s'.pending = s.pending)
    (hby : s'.byHandling = s.byHandling) (hdis : s'.txDisabled = s.txDisabled) : Entered c s' := by
  refine ⟨?_, ?_, ?_, ?_, ?_⟩
  · rw [hlist]
    exact h.length
  · rw [hlist]
    exact h.sub
  · rw [hlist]
    exact h.ap
  · rw [Radar.queries, hpending]
    exact h.queries
  · rw [hby, hdis]
    exact h.disabled

/-- An element that is sent is no query. -/
theorem queries_mgmtIe (h : queries s = 0) (l : List ι) :
    queries { s with pending := s.pending ++ l.map (⟨.mgmtIe, ·⟩) } = 0 := by
  unfold queries at h ⊢
  rw [countP_append, h, Nat.zero_add, countP_eq_zero]
  intro cmd hcmd
  obtain ⟨i, -, rfl⟩ := mem_map.mp hcmd
  exact Bool.false_ne_true

/-- A command that is in flight enters the stage. -/
theorem outstanding_of_mem {cmd : Cmd ι} (hmem : cmd ∈ s.pending) (h : reenters c s cmd = true) :
    outstanding c s = true := by
  rw [outstanding, Bool.or_eq_true]
  exact .inl (any_eq_true.mpr ⟨cmd, hmem, h⟩)

/-- What is outstanding stays so when a command is sent. -/
theorem outstanding_append (l : List (Cmd ι)) (h : outstanding c s = true) :
    outstanding c { s with pending := s.pending ++ l } = true := by
  rw [outstanding, Bool.or_eq_true, any_append, Bool.or_eq_true]
  rw [outstanding, Bool.or_eq_true] at h
  exact h.imp .inl id

/-! ## What the stages need -/

/-- Something that enters stage `st` is already outstanding. -/
def Already (c : Card ι) (st : Stage) (s : Rdh ι) : Prop :=
  outstanding c { s with stage := st } = true

/-- Every interface that the handling disabled is connected, so that its traffic can be enabled. -/
def Enabled (s : Rdh ι) : Prop :=
  ∀ i ∈ s.privList, s.byHandling i = true → s.mediaConnected i = true

/-- The access point to be started is not under host-based DFS, whose BSS start enters nothing. -/
def StartMeets (c : Card ι) (env : Env ι) (s : Rdh ι) (i : ι) : Prop :=
  env.prepare = true ∧ s.is11hHost i = false ∨ Already c .restartIntfs s

/-- An element is sent for an access point whose channel switch event, or response, enters the handling. -/
def SetMeets (c : Card ι) (env : Env ι) (s : Rdh ι) : Prop :=
  (∃ i ∈ iesSent c env s.privList, c.ecsaEnable = false ∨ s.is11hHost i = false ∨ testing s = true) ∨
    Already c .setCustomIe s

/-- An element is removed for an access point, whose response enters the handling. -/
def RemMeets (c : Card ι) (env : Env ι) (s : Rdh ι) : Prop :=
  iesSent c env s.privList ≠ [] ∨ Already c .remCustomIe s

/-- A BSS stop or deauthentication is sent. -/
def StopMeets (c : Card ι) (env : Env ι) (s : Rdh ι) : Prop :=
  env.prepare = true ∨ Already c .stopIntfs s

/-- The next access point. -/
def nextAp (c : Card ι) (s : Rdh ι) : Option ι :=
  s.privList[nextIdx s c.uap]?

/-- The next interface that is stopped. -/
def nextStop (c : Card ι) (s : Rdh ι) : Option ι :=
  s.privList[nextIdx s fun i => c.uap i || s.mediaConnected i]?

/-- The first access point is started. -/
def FirstStartMeets (c : Card ι) (env : Env ι) (s : Rdh ι) : Prop :=
  ∀ i ∈ s.privList.find? c.uap, StartMeets c env s i

/-! ## The stages -/

/-- A stage waits for a command that it sends, or for what is outstanding already. -/
theorem send_ready {k : CmdKind} {i : ι} (h : Entered c s) (hwaits : s.stage.waits c.ecsaEnable = true)
    (hidx : s.stage = .getInfoChannel → s.privCurrIdx ≠ firstEntry)
    (hset : s.stage ≠ .setCustomIe ∧ s.stage ≠ .remCustomIe)
    (hquery : k.isQuery = true → queriesIn s.stage = 1)
    (hout : env.prepare = true ∧ reenters c s ⟨k, i⟩ = true ∨ outstanding c s = true) :
    Ready c (send env k i s) := by
  have hoff : s.stage ≠ .off := by
    intro hoff
    rw [hoff] at hwaits
    exact absurd hwaits (by simp [Stage.waits])
  have hidx' : s.stage = .getInfoChannel ∨ s.stage = .setCustomIe ∨ s.stage = .remCustomIe →
      s.privCurrIdx ≠ firstEntry := by
    rintro (hst | hst | hst)
    · exact hidx hst
    · exact absurd hst hset.1
    · exact absurd hst hset.2
  unfold send
  split_ifs with hprep
  · refine ⟨⟨.inr hwaits, hidx', h.length, h.sub, fun _ => h.ap, ?_, h.disabled, fun hst => absurd hst hoff⟩,
      fun _ => ?_⟩
    · have hq := h.queries
      unfold queries at hq ⊢
      rw [countP_append, hq, Nat.zero_add, countP_singleton]
      split_ifs with hk
      · exact (hquery hk).ge
      · exact Nat.zero_le _
    · rcases hout with ⟨-, hre⟩ | hout
      · refine @outstanding_of_mem _ _ _ _ ⟨k, i⟩ (mem_append_right _ (mem_singleton_self _)) ?_
        cases k <;> exact hre
      · exact outstanding_append _ hout
  · refine ⟨⟨.inr hwaits, hidx', h.length, h.sub, fun _ => h.ap, ?_, h.disabled, fun hst => absurd hst hoff⟩,
      fun _ => hout.resolve_left fun hre => hprep hre.1⟩
    rw [h.queries]
    exact Nat.zero_le _

theorem restartTraffic_ready (h : Entered c s) (hen : Enabled s) : Ready c (restartTraffic c env s) := by
  have hfold : ∀ t : Rdh ι, Entered c t → Enabled t → Ready c { t.privList.foldl txEnable t with stage := .off } := by
    intro t ht hent
    rw [foldl_txEnable]
    refine ⟨⟨.inl rfl, nofun, ht.length, ht.sub, fun hst => absurd rfl hst, ht.queries.le, fun i => ?_, fun _ i hi => ?_⟩,
      fun hst => absurd rfl hst⟩
    · have hdis := ht.disabled i
      simp only [Bool.and_eq_true]
      cases htx : t.txDisabled i <;> simp_all
    · have hdis := ht.disabled i
      have hcon := hent i hi
      cases hby : t.byHandling i
      · simp [hby]
      · simp [hby, hi, hdis hby, hcon hby]
  unfold restartTraffic
  dsimp only
  split_ifs
  · obtain ⟨k, -, heq⟩ := @chanSwIes_eq _ _ c env false s
    rw [heq]
    refine hfold _ ⟨h.length, h.sub, h.ap, ?_, h.disabled⟩ hen
    exact queries_mgmtIe h.queries _
  · exact hfold s h hen

theorem restartIntfs_ready (h : Entered c s) (hstage : s.stage = .restartIntfs) (hecsa : c.ecsaEnable = false)
    (hmeets : match nextAp c s with | some i => StartMeets c env s i | none => Enabled s) :
    Ready c (restartIntfs c env s) := by
  unfold nextAp at hmeets
  unfold restartIntfs
  dsimp only
  split
  next i hi =>
    rw [hi] at hmeets
    refine send_ready (h.move rfl rfl rfl rfl) (by simp [hstage, hecsa, Stage.waits]) (by simp [hstage])
      (by simp [hstage]) nofun ?_
    rcases hmeets with ⟨hprep, hhost⟩ | hout
    · exact .inl ⟨hprep, by simp [reenters, hstage, hhost]⟩
    · rw [Already, ← hstage] at hout
      exact .inr hout
  next hi =>
    rw [hi] at hmeets
    exact restartTraffic_ready (h.move rfl rfl rfl rfl) hmeets

theorem nextAp_first (h : Entered c s) (hidx : s.privCurrIdx = firstEntry) :
    ∃ i, nextAp c s = some i ∧ s.privList.find? c.uap = some i := by
  obtain ⟨i, hi⟩ := exists_nextIdx hidx h.ap
  exact ⟨i, hi, by rw [← hi, getElem?_nextIdx_first hidx]⟩

theorem restartIntfs_first (h : Entered c s) (hstage : s.stage = .restartIntfs) (hidx : s.privCurrIdx = firstEntry)
    (hecsa : c.ecsaEnable = false) (hmeets : FirstStartMeets c env s) : Ready c (restartIntfs c env s) := by
  refine restartIntfs_ready h hstage hecsa ?_
  obtain ⟨i, hnext, hfirst⟩ := nextAp_first h hidx
  rw [hnext]
  exact hmeets i hfirst

theorem setNewChannel_ready (h : Entered c s) (hstage : s.stage = .setNewChannel) (hecsa : c.ecsaEnable = false)
    (hmeets : match nextAp c s with | some _ => env.prepare = true | none => FirstStartMeets c env s) :
    Ready c (setNewChannel c env s) := by
  unfold nextAp at hmeets
  unfold setNewChannel
  dsimp only
  split
  next i hi =>
    rw [hi] at hmeets
    exact send_ready (h.move rfl rfl rfl rfl) (by simp [hstage, hecsa, Stage.waits]) (by simp [hstage])
      (by simp [hstage]) (fun _ => by simp [hstage, queriesIn]) (.inl ⟨hmeets, by simp [reenters]⟩)
  next hi =>
    rw [hi] at hmeets
    exact restartIntfs_first (h.move rfl rfl rfl rfl) rfl rfl hecsa hmeets

/-- A command is sent to the interface that is stopped. -/
theorem send_stop_ready {k : ℕ} {i : ι} (h : Entered c s) (hstage : s.stage = .stopIntfs) (hecsa : c.ecsaEnable = false)
    (hmeets : StopMeets c env s) :
    Ready c (send env (if c.uap i then .bssStop else .deauth) i { s with privCurrIdx := k }) := by
  refine send_ready (h.move rfl rfl rfl rfl) (by simp [hstage, hecsa, Stage.waits]) (by simp [hstage])
    (by simp [hstage]) ?_ ?_
  · split_ifs <;> exact nofun
  · rcases hmeets with hprep | hout
    · exact .inl ⟨hprep, by split_ifs <;> simp [reenters, hstage]⟩
    · rw [Already, ← hstage] at hout
      exact .inr hout

theorem stopIntfs_ready (h : Entered c s) (hstage : s.stage = .stopIntfs) (hecsa : c.ecsaEnable = false)
    (hmeets : match nextStop c s with
      | some _ => StopMeets c env s
      | none => if s.noChannelChange = true then FirstStartMeets c env s else env.prepare = true) :
    Ready c (stopIntfs c env s) := by
  unfold nextStop at hmeets
  unfold stopIntfs
  dsimp only
  split
  next i hi =>
    rw [hi] at hmeets
    exact send_stop_ready h hstage hecsa hmeets
  next hi =>
    rw [hi] at hmeets
    dsimp only at hmeets
    split_ifs at hmeets ⊢
    · exact restartIntfs_first (h.move rfl rfl rfl rfl) rfl rfl hecsa hmeets
    · -- there is an access point, and the first entry finds it
      have h' : Entered c { s with privCurrIdx := firstEntry, stage := .setNewChannel } := h.move rfl rfl rfl rfl
      refine setNewChannel_ready (h.move rfl rfl rfl rfl) rfl hecsa ?_
      obtain ⟨i, hnext, -⟩ := nextAp_first h' rfl
      unfold nextAp at hnext ⊢
      rw [hnext]
      exact hmeets

/-- The first entry to the stop finds an access point. -/
theorem stopIntfs_first (h : Entered c s) (hstage : s.stage = .stopIntfs) (hidx : s.privCurrIdx = firstEntry)
    (hecsa : c.ecsaEnable = false) (hmeets : StopMeets c env s) : Ready c (stopIntfs c env s) := by
  refine stopIntfs_ready h hstage hecsa ?_
  obtain ⟨i, hi⟩ := exists_nextIdx (p := fun i => c.uap i || s.mediaConnected i) hidx (by
    obtain ⟨i, hmem, hap⟩ := h.ap
    exact ⟨i, hmem, by simp [hap]⟩)
  rw [nextStop, hi]
  exact hmeets

/-- The loop over the elements leaves a stage that waits. -/
theorem chanSwIes_ready {add : Bool} (h : Entered c s) (hwaits : s.stage.waits c.ecsaEnable = true)
    (hout : outstanding c (chanSwIes c env add s) = true) : Ready c (chanSwIes c env add s) := by
  obtain ⟨k, hk, heq⟩ := @chanSwIes_eq _ _ c env add s
  rw [heq] at hout ⊢
  have hidx : k ≠ firstEntry := by
    have hlen := h.length
    unfold firstEntry
    omega
  refine ⟨⟨.inr hwaits, fun _ => hidx, h.length, h.sub, fun _ => h.ap, ?_, h.disabled, fun hst => ?_⟩, fun _ => hout⟩
  · exact (queries_mgmtIe h.queries _).trans_le (Nat.zero_le _)
  · dsimp only at hst
    rw [hst] at hwaits
    exact absurd hwaits (by simp [Stage.waits])

/-- What is outstanding stays so when elements are added. -/
theorem chanSwIes_outstanding (h : outstanding c s = true) : outstanding c (chanSwIes c env true s) = true := by
  obtain ⟨k, -, heq⟩ := @chanSwIes_eq _ _ c env true s
  rw [heq]
  rw [outstanding, Bool.or_eq_true] at h ⊢
  refine h.imp (fun h => ?_) fun h => ?_
  · rw [any_append, Bool.or_eq_true]
    exact .inl h
  · obtain ⟨i, hi, hdue⟩ := any_eq_true.mp h
    refine any_eq_true.mpr ⟨i, hi, ?_⟩
    simp only [switchDue, decide_eq_true_eq] at hdue ⊢
    refine ⟨hdue.1, hdue.2.1, ?_, hdue.2.2.2⟩
    simp [hdue.2.2.1]

theorem setCustomIe_first (h : Entered c s) (hstage : s.stage = .setCustomIe) (hidx : s.privCurrIdx = firstEntry)
    (hmeets : SetMeets c env s) : Ready c (setCustomIe c env s) := by
  unfold setCustomIe
  rw [if_pos hidx]
  refine chanSwIes_ready h (by simp [hstage, Stage.waits]) ?_
  rcases hmeets with ⟨i, hsent, henters⟩ | hout
  · obtain ⟨k, -, heq⟩ := @chanSwIes_eq _ _ c env true s
    rw [heq]
    have hap : i ∈ s.privList ∧ c.uap i = true :=
      mem_filter.mp (takeWhile_subset _ (mem_of_mem_filter hsent))
    rcases henters with hecsa | hswitch
    · refine @outstanding_of_mem _ _ _ _ ⟨.mgmtIe, i⟩
        (mem_append_right _ (mem_map_of_mem hsent)) (by simp [reenters, hstage, hecsa])
    · rw [outstanding, Bool.or_eq_true]
      refine .inr (any_eq_true.mpr ⟨i, h.sub i hap.1, ?_⟩)
      simp only [switchDue, decide_eq_true_eq]
      refine ⟨hstage, hap.2, by simp [hsent], ?_⟩
      simpa [testing] using hswitch
  · rw [Already, ← hstage] at hout
    exact chanSwIes_outstanding hout

theorem remCustomIe_first (h : Entered c s) (hstage : s.stage = .remCustomIe) (hidx : s.privCurrIdx = firstEntry)
    (hecsa : c.ecsaEnable = false) (hmeets : RemMeets c env s) : Ready c (remCustomIe c env s) := by
  unfold remCustomIe
  rw [if_pos hidx]
  refine chanSwIes_ready h (by simp [hstage, hecsa, Stage.waits]) ?_
  obtain ⟨k, -, heq⟩ := @chanSwIes_eq _ _ c env false s
  rw [heq]
  rcases hmeets with hsent | hout
  · obtain ⟨i, hi⟩ := exists_mem_of_ne_nil _ hsent
    exact @outstanding_of_mem _ _ _ _ ⟨.mgmtIe, i⟩
      (mem_append_right _ (mem_map_of_mem hi)) (by simp [reenters, hstage, hecsa])
  · -- no channel switch event enters this stage
    rw [Already, ← hstage, outstanding, Bool.or_eq_true] at hout
    rcases hout with hout | hout
    · obtain ⟨cmd, hmem, hre⟩ := any_eq_true.mp hout
      exact outstanding_of_mem (mem_append_left _ hmem) hre
    · obtain ⟨i, -, hdue⟩ := any_eq_true.mp hout
      simp [switchDue, hstage] at hdue

/-- The second entry stops the interfaces. -/
theorem remCustomIe_again (h : Entered c s) (hidx : s.privCurrIdx ≠ firstEntry) (hecsa : c.ecsaEnable = false)
    (hmeets : StopMeets c env s) : Ready c (remCustomIe c env s) := by
  unfold remCustomIe
  rw [if_neg hidx]
  exact stopIntfs_first (h.move rfl rfl rfl rfl) rfl rfl hecsa hmeets

/-- The second entry removes the elements. -/
theorem setCustomIe_again (h : Entered c s) (hidx : s.privCurrIdx ≠ firstEntry) (hecsa : c.ecsaEnable = false)
    (hmeets : RemMeets c env s) : Ready c (setCustomIe c env s) := by
  unfold setCustomIe
  rw [if_neg hidx]
  exact remCustomIe_first (h.move rfl rfl rfl rfl) rfl rfl hecsa hmeets

theorem getInfoBeaconDtim_ready (h : Entered c s) (hstage : s.stage = .getInfoBeaconDtim)
    (hmeets : match nextAp c s with | some _ => env.prepare = true | none => SetMeets c env s) :
    Ready c (getInfoBeaconDtim c env s) := by
  unfold nextAp at hmeets
  unfold getInfoBeaconDtim
  dsimp only
  split
  next i hi =>
    rw [hi] at hmeets
    exact send_ready (h.move rfl rfl rfl rfl) (by simp [hstage, Stage.waits]) (by simp [hstage])
      (by simp [hstage]) (fun _ => by simp [hstage, queriesIn]) (.inl ⟨hmeets, by simp [reenters]⟩)
  next hi =>
    rw [hi] at hmeets
    exact setCustomIe_first (h.move rfl rfl rfl rfl) rfl rfl hmeets

/-- When a channel is chosen the first access point is asked for its beacon period. -/
theorem chooseChannel_ready {i : ι} (h : Entered c s) (hprep : env.prepare = true) :
    Ready c (chooseChannel c env i s) := by
  unfold chooseChannel
  dsimp only
  have h' (k : ℕ) : Entered c { s with newChannel := k, privCurrIdx := firstEntry, stage := .getInfoBeaconDtim } :=
    h.move rfl rfl rfl rfl
  refine getInfoBeaconDtim_ready (h' _) rfl ?_
  obtain ⟨j, hnext, -⟩ := nextAp_first (h' _) rfl
  rw [hnext]
  exact hprep

/-- The answer of the access point goes on. -/
theorem getInfoChannel_again (h : Entered c s) (hidx : s.privCurrIdx ≠ firstEntry) (hprep : env.prepare = true) :
    Ready c (getInfoChannel c env pm s) := by
  unfold getInfoChannel
  rw [if_neg hidx]
  split_ifs
  · exact chooseChannel_ready (h.move rfl rfl rfl rfl) hprep
  · exact chooseChannel_ready h hprep

/-- The interface of the event, if it is an access point, is one of those that are handled. -/
theorem getInfoChannel_first (h : Entered c s) (hstage : s.stage = .getInfoChannel) (hidx : s.privCurrIdx = firstEntry)
    (hprep : env.prepare = true) (hpm : c.uap pm = true → pm ∈ s.privList) : Ready c (getInfoChannel c env pm s) := by
  unfold getInfoChannel
  rw [if_pos hidx]
  split_ifs with hap
  · obtain ⟨i, hi⟩ := exists_nextIdx (p := (· = pm)) hidx ⟨pm, hpm hap, by simp⟩
    have hplace := (List.getElem?_eq_some_iff.mp hi).1
    have hlen := h.length
    dsimp only
    rw [hi]
    refine send_ready (h.move rfl rfl rfl rfl) (by simp [hstage, Stage.waits]) (fun _ => ?_) (by simp [hstage])
      (fun _ => by simp [hstage, queriesIn]) (.inl ⟨hprep, by simp [reenters]⟩)
    show nextIdx s _ ≠ firstEntry
    unfold firstEntry
    omega
  · exact chooseChannel_ready (h.move rfl rfl rfl rfl) hprep

/-- The interfaces that are handled. -/
def activeList (c : Card ι) (s : Rdh ι) : List ι :=
  c.privs.filter (isIntfActive c s)

/-- The queries are prepared, and the interface of the event, if it is an access point, is handled, otherwise
some access point. -/
def ChkMeets (c : Card ι) (env : Env ι) (pm : ι) (s : Rdh ι) : Prop :=
  activeList c s = [] ∨ env.prepare = true ∧
    if c.uap pm = true then pm ∈ activeList c s else ∃ i ∈ activeList c s, c.uap i = true

theorem chkIntfs_ready (hqueries : queries s = 0) (hdis : ∀ i, s.byHandling i = true → s.txDisabled i = true)
    (hmeets : ChkMeets c env pm s) : Ready c (chkIntfs c env pm s) := by
  have hlength : (activeList c s).length ≤ 16 := (length_filter_le _ _).trans c.length_privs
  have hsub : ∀ i ∈ activeList c s, i ∈ c.privs := fun i => mem_of_mem_filter
  unfold chkIntfs
  change Ready c (if (activeList c s).isEmpty = true then _ else _)
  split_ifs with hempty
  · have hnil : activeList c s = [] := List.isEmpty_iff.mp hempty
    refine ⟨⟨.inl rfl, nofun, hlength, hsub, fun hst => absurd rfl hst, hqueries.le, hdis, fun _ i hi => ?_⟩,
      fun hst => absurd rfl hst⟩
    change i ∈ activeList c s at hi
    rw [hnil] at hi
    exact absurd hi not_mem_nil
  · obtain ⟨hprep, hpm⟩ := hmeets.resolve_left fun hnil => hempty (List.isEmpty_iff.mpr hnil)
    have hap : ∃ i ∈ activeList c s, c.uap i = true := by
      split_ifs at hpm with huap
      · exact ⟨pm, hpm, huap⟩
      · exact hpm
    unfold stopTraffic
    dsimp only
    obtain ⟨d, b, heq, hkeep⟩ := @foldl_txDisable _ _ (activeList c s)
      { s with
        privList := activeList c s
        currChannel := 0
        newChannel := 0
        privCurrIdx := firstEntry
        stage := .stopTraffic }
    unfold activeList at heq
    rw [heq]
    refine getInfoChannel_first ⟨hlength, hsub, hap, hqueries, hkeep hdis⟩ rfl rfl hprep fun huap => ?_
    rw [if_pos huap] at hpm
    exact hpm

end WlanDriver.Radar
