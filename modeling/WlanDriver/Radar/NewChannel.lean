import WlanDriver.Dfs.StartChannel
import WlanDriver.Radar.Progress

/-!
# The channel after radar

The stage `RDH_GET_INFO_CHANNEL` asks `wlan_11h_get_uap_start_channel` for a new channel. The check that there is one, and that it
is not the one to leave, stands behind an `else` of the branch for access points, so that it is made for stations only, and for
these it only reports : an access point goes on with channel 0.

`new_channel` : in runs in which each access point that is asked has a channel to go to, and no station is asked while there is an
access point, the new channel is neither 0 nor the one to leave where it is announced, set or restarted on.
-/

set_option linter.unusedSectionVars false

namespace WlanDriver.Radar

open Dfs

variable {ι : Type*} [DecidableEq ι] {c : Card ι} {env : Env ι} {pm : ι} {s s' t : Rdh ι}

/-! ## What a call should do -/

/-- The stages from which on the new channel is not chosen again. -/
def Stage.chosen : Stage → Bool
  | .getInfoBeaconDtim | .setCustomIe | .remCustomIe | .stopIntfs | .setNewChannel | .restartIntfs => true
  | _ => false

/-- The stages whose commands announce the new channel, set it, or restart on it : a call that prepares one returns at its
stage. -/
def Stage.usesChannel : Stage → Bool
  | .setCustomIe | .setNewChannel | .restartIntfs => true
  | _ => false

/-- An access point is among the interfaces. -/
def HasAp (c : Card ι) (l : List ι) : Prop :=
  ∃ i ∈ l, c.uap i = true

/-- The new channel is one, and not the one to leave. -/
def Replaces (s : Rdh ι) : Prop :=
  s.newChannel ≠ 0 ∧ s.newChannel ≠ s.currChannel

/-- The interface that is asked for a channel at the first entry of `RDH_GET_INFO_CHANNEL`, and the channel to leave. An access
point is sent a query first. -/
def askedFirst (c : Card ι) (pm : ι) (s : Rdh ι) (l : List ι) : Option (ι × ℕ) :=
  if c.uap pm then none else some (firstSta c pm l, s.bssChannel (firstSta c pm l))

/-- The list of a call : the interfaces that are handled. -/
def handledList (c : Card ι) (s : Rdh ι) : List ι :=
  if s.stage = .chkIntfs then c.privs.filter (isIntfActive c s) else s.privList

/-- The interface that is asked for a channel in a call, if it comes to that, and the channel to leave. -/
def asked (c : Card ι) (pm : ι) (s : Rdh ι) : Option (ι × ℕ) :=
  match s.stage with
  | .chkIntfs | .stopTraffic => askedFirst c pm s (handledList c s)
  | .getInfoChannel =>
    if s.privCurrIdx = firstEntry then askedFirst c pm s s.privList
    else some (pm, if s.privCurrIdx < s.privList.length then s.chanCb pm else s.currChannel)
  | _ => none

/-- `wlan_11h_get_uap_start_channel` answers as it does in the handling, with the channel to leave under NOP, and there is a
channel that will do. -/
def HasReplacement (env : Env ι) (cur : ℕ) : Prop :=
  ∃ b : StartInput, b.InHandling ∧ b.underNop cur = true ∧ b.HasChannel ∧ env.startChannel = b.startChannel

/-- Where an access point is handled it is an access point that is asked, and it has a channel to go to. -/
def CallMeetsChannel (c : Card ι) (env : Env ι) (pm : ι) (s : Rdh ι) : Prop :=
  ∀ i cur, asked c pm s = some (i, cur) → HasAp c (handledList c s) → c.uap i = true ∧ HasReplacement env cur

/-- What the steps need. -/
def MeetsChannel (c : Card ι) (s : Rdh ι) : Act ι → Prop
  | .radar i _ env => c.uap i = false → s.stage = .off → CallMeetsChannel c env i { s with stage := .chkIntfs }
  | .resp k r env => ∀ cmd, s.pending[k]? = some cmd → r.ok = true →
      reenters c (respond c env cmd r { s with pending := s.pending.eraseIdx k }) cmd = true →
        CallMeetsChannel c env cmd.iface (respond c env cmd r { s with pending := s.pending.eraseIdx k })
  | .dfsTest noChannelChange fixedNewChannel => noChannelChange = false ∧ fixedNewChannel = 0
  | _ => True

/-! ## What a call keeps -/

/-- The channels, the list and the settings for tests stay. -/
structure SameChannels (s t : Rdh ι) : Prop where
  newChannel : t.newChannel = s.newChannel
  currChannel : t.currChannel = s.currChannel
  privList : t.privList = s.privList
  noChannelChange : t.noChannelChange = s.noChannelChange
  fixedNewChannel : t.fixedNewChannel = s.fixedNewChannel

theorem SameChannels.refl (s : Rdh ι) : SameChannels s s :=
  ⟨rfl, rfl, rfl, rfl, rfl⟩

theorem SameChannels.trans (h : SameChannels s t) (h' : SameChannels t s') : SameChannels s s' :=
  ⟨h'.1.trans h.1, h'.2.trans h.2, h'.3.trans h.3, h'.4.trans h.4, h'.5.trans h.5⟩

theorem same_send (k : CmdKind) (i : ι) (s : Rdh ι) : SameChannels s (send env k i s) := by
  unfold send
  split <;> exact ⟨rfl, rfl, rfl, rfl, rfl⟩

theorem same_sendQuery (k : CmdKind) (i : ι) (s : Rdh ι) : SameChannels s (sendQuery env k i s) := by
  refine SameChannels.trans ?_ (same_send k i _)
  exact ⟨rfl, rfl, rfl, rfl, rfl⟩

theorem same_chanSwIes (add : Bool) (s : Rdh ι) : SameChannels s (chanSwIes c env add s) := by
  obtain ⟨k, -, heq⟩ := @chanSwIes_eq _ _ c env add s
  rw [heq]
  exact ⟨rfl, rfl, rfl, rfl, rfl⟩

theorem same_restartTraffic (s : Rdh ι) : SameChannels s (restartTraffic c env s) := by
  have hies : SameChannels s (if c.ecsaEnable then chanSwIes c env false s else s) := by
    split
    · exact same_chanSwIes false s
    · exact .refl s
  refine hies.trans ?_
  unfold restartTraffic
  dsimp only
  rw [foldl_txEnable]
  exact ⟨rfl, rfl, rfl, rfl, rfl⟩

theorem same_restartIntfs (s : Rdh ι) : SameChannels s (restartIntfs c env s) := by
  unfold restartIntfs
  dsimp only
  split
  · refine SameChannels.trans ?_ (same_send _ _ _)
    exact ⟨rfl, rfl, rfl, rfl, rfl⟩
  · refine SameChannels.trans ?_ (same_restartTraffic _)
    exact ⟨rfl, rfl, rfl, rfl, rfl⟩

theorem same_setNewChannel (s : Rdh ι) : SameChannels s (setNewChannel c env s) := by
  unfold setNewChannel
  dsimp only
  split
  · refine SameChannels.trans ?_ (same_sendQuery _ _ _)
    exact ⟨rfl, rfl, rfl, rfl, rfl⟩
  · refine SameChannels.trans ?_ (same_restartIntfs _)
    exact ⟨rfl, rfl, rfl, rfl, rfl⟩

/-- Without the setting for tests the new channel stays. -/
theorem same_stopIntfs (s : Rdh ι) (h : s.noChannelChange = false) : SameChannels s (stopIntfs c env s) := by
  unfold stopIntfs
  dsimp only
  split
  · refine SameChannels.trans ?_ (same_send _ _ _)
    exact ⟨rfl, rfl, rfl, rfl, rfl⟩
  · rw [if_neg (by simp [h])]
    refine SameChannels.trans ?_ (same_setNewChannel _)
    exact ⟨rfl, rfl, rfl, rfl, rfl⟩

theorem same_remCustomIe (s : Rdh ι) (h : s.noChannelChange = false) : SameChannels s (remCustomIe c env s) := by
  unfold remCustomIe
  split
  · exact same_chanSwIes false s
  · refine SameChannels.trans ?_ (same_stopIntfs _ h)
    exact ⟨rfl, rfl, rfl, rfl, rfl⟩

theorem same_setCustomIe (s : Rdh ι) (h : s.noChannelChange = false) : SameChannels s (setCustomIe c env s) := by
  unfold setCustomIe
  split
  · exact same_chanSwIes true s
  · refine SameChannels.trans ?_ (same_remCustomIe _ h)
    exact ⟨rfl, rfl, rfl, rfl, rfl⟩

theorem same_getInfoBeaconDtim (s : Rdh ι) (h : s.noChannelChange = false) :
    SameChannels s (getInfoBeaconDtim c env s) := by
  unfold getInfoBeaconDtim
  dsimp only
  split
  · refine SameChannels.trans ?_ (same_sendQuery _ _ _)
    exact ⟨rfl, rfl, rfl, rfl, rfl⟩
  · refine SameChannels.trans ?_ (same_setCustomIe _ h)
    exact ⟨rfl, rfl, rfl, rfl, rfl⟩

@[simp] theorem stage_send (k : CmdKind) (i : ι) (s : Rdh ι) : (send env k i s).stage = s.stage := by
  unfold send
  split <;> rfl

@[simp] theorem stage_chanSwIes (add : Bool) (s : Rdh ι) : (chanSwIes c env add s).stage = s.stage := by
  obtain ⟨k, -, heq⟩ := @chanSwIes_eq _ _ c env add s
  rw [heq]

/-! ## The new channel -/

/-- What every run keeps : no settings for tests, and, once the new channel was chosen, one to go to. -/
structure ChanInv (c : Card ι) (s : Rdh ι) : Prop where
  noChannelChange : s.noChannelChange = false
  fixedNewChannel : s.fixedNewChannel = 0
  replaces : s.stage.chosen = true → HasAp c s.privList → Replaces s

theorem ChanInv.move (h : ChanInv c s) (hsame : SameChannels s t) (hstage : t.stage = s.stage) : ChanInv c t := by
  refine ⟨hsame.noChannelChange.trans h.noChannelChange, hsame.fixedNewChannel.trans h.fixedNewChannel, ?_⟩
  rw [hstage, hsame.privList, Replaces, hsame.newChannel, hsame.currChannel]
  exact h.replaces

/-- At a stage before the choice nothing is asked of the channel. -/
theorem ChanInv.of_not_chosen (h : ChanInv c s) (hsame : SameChannels s t) (hstage : t.stage.chosen = false) :
    ChanInv c t := by
  refine ⟨hsame.noChannelChange.trans h.noChannelChange, hsame.fixedNewChannel.trans h.fixedNewChannel, fun hchosen => ?_⟩
  rw [hstage] at hchosen
  cases hchosen

/-- A channel that was chosen is kept. -/
theorem ChanInv.of_replaces (h : ChanInv c s) (hsame : SameChannels s t) (hreplaces : HasAp c s.privList → Replaces s) :
    ChanInv c t := by
  refine ⟨hsame.noChannelChange.trans h.noChannelChange, hsame.fixedNewChannel.trans h.fixedNewChannel, fun _ => ?_⟩
  rw [hsame.privList, Replaces, hsame.newChannel, hsame.currChannel]
  exact hreplaces

theorem HasReplacement.ne {cur : ℕ} (h : HasReplacement env cur) : env.startChannel ≠ 0 ∧ env.startChannel ≠ cur := by
  obtain ⟨b, hb, hcur, hchan, heq⟩ := h
  obtain ⟨hne, hnop⟩ := hchan.startChannel_ne hb
  rw [heq]
  refine ⟨hne, fun heq' => ?_⟩
  rw [heq', hcur] at hnop
  cases hnop

/-- The choice of an access point that has a channel to go to. -/
theorem chanInv_chooseChannel {i : ι} (hno : s.noChannelChange = false) (hfixed : s.fixedNewChannel = 0)
    (h : HasAp c s.privList → c.uap i = true ∧ HasReplacement env s.currChannel) : ChanInv c (chooseChannel c env i s) := by
  have hnew : HasAp c s.privList → (if c.uap i then env.startChannel else s.newChannel) ≠ 0 ∧
      (if c.uap i then env.startChannel else s.newChannel) ≠ s.currChannel := by
    intro hap
    obtain ⟨hi, hreplacement⟩ := h hap
    rw [if_pos hi]
    exact hreplacement.ne
  have hfix : ¬ ((!s.noChannelChange) = true ∧ s.fixedNewChannel ≠ 0) := fun hf => hf.2 hfixed
  unfold chooseChannel
  dsimp only
  rw [if_neg hfix, if_neg (by simp [hno])]
  generalize (if c.uap i = true then env.startChannel else s.newChannel) = new at hnew
  have hsame := @same_getInfoBeaconDtim _ _ c env
    { s with newChannel := new, privCurrIdx := firstEntry, stage := .getInfoBeaconDtim } hno
  have hstart : ChanInv c { s with newChannel := new, privCurrIdx := firstEntry, stage := .getInfoBeaconDtim } :=
    ⟨hno, hfixed, fun _ => hnew⟩
  exact hstart.of_replaces hsame hnew

theorem chanInv_getInfoChannel (hstage : s.stage = .getInfoChannel) (hno : s.noChannelChange = false)
    (hfixed : s.fixedNewChannel = 0)
    (h : ∀ i cur, asked c pm s = some (i, cur) → HasAp c s.privList → c.uap i = true ∧ HasReplacement env cur) :
    ChanInv c (getInfoChannel c env pm s) := by
  have hs : ChanInv c s := ⟨hno, hfixed, fun hchosen => by rw [hstage] at hchosen; cases hchosen⟩
  simp only [asked, hstage] at h
  unfold getInfoChannel
  by_cases hidx : s.privCurrIdx = firstEntry
  · rw [if_pos hidx] at h ⊢
    by_cases hpm : c.uap pm = true
    · rw [if_pos hpm]
      dsimp only
      split
      · refine hs.of_not_chosen (SameChannels.trans ?_ (same_sendQuery _ _ _)) ?_
        · exact ⟨rfl, rfl, rfl, rfl, rfl⟩
        · simp [sendQuery, hstage, Stage.chosen]
      · refine hs.of_not_chosen ⟨rfl, rfl, rfl, rfl, rfl⟩ ?_
        simp [hstage, Stage.chosen]
    · rw [if_neg hpm]
      exact chanInv_chooseChannel hno hfixed (h _ _ (if_neg hpm))
  · rw [if_neg hidx] at h ⊢
    by_cases hlt : s.privCurrIdx < s.privList.length
    · rw [if_pos hlt] at h ⊢
      exact chanInv_chooseChannel hno hfixed (h _ _ rfl)
    · rw [if_neg hlt] at h ⊢
      exact chanInv_chooseChannel hno hfixed (h _ _ rfl)

theorem chanInv_stopTraffic (hno : s.noChannelChange = false) (hfixed : s.fixedNewChannel = 0)
    (h : ∀ i cur, askedFirst c pm s s.privList = some (i, cur) → HasAp c s.privList →
      c.uap i = true ∧ HasReplacement env cur) : ChanInv c (stopTraffic c env pm s) := by
  obtain ⟨d, b, heq, -⟩ := foldl_txDisable s.privList s
  unfold stopTraffic
  rw [heq]
  exact chanInv_getInfoChannel rfl hno hfixed h

/-- A call that has what it needs keeps the invariant. -/
theorem ChanInv.handle (hs : ChanInv c s) (h : CallMeetsChannel c env pm s) : ChanInv c (handle c env pm s) := by
  have hno := hs.noChannelChange
  have hfixed := hs.fixedNewChannel
  have hcall : ChanInv c (radarDetectedHandling c env pm s) := by
    unfold radarDetectedHandling
    cases hstage : s.stage with
    | off => exact hs.of_not_chosen ⟨rfl, rfl, rfl, rfl, rfl⟩ rfl
    | chkIntfs =>
      have hlist : handledList c s = c.privs.filter (isIntfActive c s) := if_pos hstage
      simp only [CallMeetsChannel, asked, hstage, hlist] at h
      dsimp only
      unfold chkIntfs
      dsimp only
      split
      · exact ⟨hno, hfixed, nofun⟩
      · exact chanInv_stopTraffic hno hfixed h
    | stopTraffic =>
      have hlist : handledList c s = s.privList := if_neg (by rw [hstage]; decide)
      simp only [CallMeetsChannel, asked, hstage, hlist] at h
      exact chanInv_stopTraffic hno hfixed h
    | getInfoChannel =>
      have hlist : handledList c s = s.privList := if_neg (by rw [hstage]; decide)
      simp only [CallMeetsChannel, hlist] at h
      exact chanInv_getInfoChannel hstage hno hfixed h
    | getInfoBeaconDtim => exact hs.of_replaces (same_getInfoBeaconDtim s hno) (hs.replaces (by rw [hstage]; rfl))
    | setCustomIe => exact hs.of_replaces (same_setCustomIe s hno) (hs.replaces (by rw [hstage]; rfl))
    | remCustomIe => exact hs.of_replaces (same_remCustomIe s hno) (hs.replaces (by rw [hstage]; rfl))
    | stopIntfs => exact hs.of_replaces (same_stopIntfs s hno) (hs.replaces (by rw [hstage]; rfl))
    | setNewChannel => exact hs.of_replaces (same_setNewChannel s) (hs.replaces (by rw [hstage]; rfl))
    | restartIntfs => exact hs.of_replaces (same_restartIntfs s) (hs.replaces (by rw [hstage]; rfl))
    | restartTraffic =>
      refine hs.of_not_chosen (same_restartTraffic s) ?_
      rfl
  exact hcall.move ⟨rfl, rfl, rfl, rfl, rfl⟩ rfl

/-! ## Runs -/

/-- A call for an access point begins with a query. -/
theorem callMeetsChannel_of_uap (hpm : c.uap pm = true) (s : Rdh ι) :
    CallMeetsChannel c env pm { s with stage := .chkIntfs } := by
  intro i cur hasked
  simp [asked, askedFirst, hpm] at hasked

section

variable (hs : ChanInv c s)

include hs

theorem ChanInv.beginHandling
    (h : s.stage = .off → CallMeetsChannel c env pm { s with stage := .chkIntfs }) : ChanInv c (beginHandling c env pm s) := by
  unfold Radar.beginHandling
  split
  next hoff =>
    have hchk : ChanInv c { s with stage := .chkIntfs } := ⟨hs.noChannelChange, hs.fixedNewChannel, nofun⟩
    exact hchk.handle (h hoff)
  next => exact hs

theorem ChanInv.radarEvent {i : ι} {passed : Bool} (h : MeetsChannel c s (.radar i passed env)) :
    ChanInv c (radarEvent c env i passed s) := by
  unfold Radar.radarEvent
  split_ifs with hi
  · exact hs
  · exact hs.beginHandling fun _ => callMeetsChannel_of_uap hi s
  · exact hs.move ⟨rfl, rfl, rfl, rfl, rfl⟩ rfl
  · exact hs.beginHandling (h (by simpa using hi))

theorem ChanInv.switched (i : ι) : ChanInv c (Radar.handle c env i { s with stage := .restartTraffic }) := by
  have hrestart : ChanInv c { s with stage := .restartTraffic } := ⟨hs.noChannelChange, hs.fixedNewChannel, nofun⟩
  exact hrestart.handle nofun

theorem ChanInv.channelSwitchEvent {i : ι} {channel : ℕ} :
    ChanInv c (channelSwitchEvent c env i channel s) := by
  have hcb : ChanInv c { s with chanCb := Function.update s.chanCb i channel } :=
    hs.move ⟨rfl, rfl, rfl, rfl, rfl⟩ rfl
  have hbss : ChanInv c { s with bssChannel := Function.update s.bssChannel i channel } :=
    hs.move ⟨rfl, rfl, rfl, rfl, rfl⟩ rfl
  unfold Radar.channelSwitchEvent
  dsimp only
  split_ifs
  · exact hcb.switched i
  · exact hcb
  · exact hcb.move ⟨rfl, rfl, rfl, rfl, rfl⟩ rfl
  · exact (hbss.switched i).move ⟨rfl, rfl, rfl, rfl, rfl⟩ rfl
  · exact hbss.move ⟨rfl, rfl, rfl, rfl, rfl⟩ rfl
  · exact hs

theorem ChanInv.annForAp {ap : ι} (hap : c.uap ap = true) : ChanInv c (annForAp c env ap s) := by
  have hchk : ChanInv c { s with stage := .chkIntfs } := ⟨hs.noChannelChange, hs.fixedNewChannel, nofun⟩
  unfold Radar.annForAp
  split_ifs
  · exact hs.beginHandling fun _ => callMeetsChannel_of_uap hap s
  · exact hchk.handle (callMeetsChannel_of_uap hap s)
  · exact hs
  · exact hs.move ⟨rfl, rfl, rfl, rfl, rfl⟩ rfl

theorem ChanInv.chanSwAnnEvent {i : ι} {ap : Option ι} {stopTx deauthSent : Bool}
    (hap : ap.all (fun j => c.uap j && s.bssStarted j) = true) :
    ChanInv c (chanSwAnnEvent c env i ap stopTx deauthSent s) := by
  have hrest : ∀ u : Rdh ι, ChanInv c u → ChanInv c (if c.ecsaEnable then { u with txBlock := u.txBlock || stopTx }
      else if u.mediaConnected i ∧ deauthSent then { u with pending := u.pending ++ [⟨.deauth, i⟩] } else u) := by
    intro u hu
    split_ifs
    · exact hu.move ⟨rfl, rfl, rfl, rfl, rfl⟩ rfl
    · exact hu.move ⟨rfl, rfl, rfl, rfl, rfl⟩ rfl
    · exact hu
  cases ap with
  | none => exact hrest s hs
  | some ap => exact hrest _ (hs.annForAp (Bool.and_eq_true_iff.mp hap).1)

theorem ChanInv.respond {cmd : Cmd ι} {r : Resp} : ChanInv c (respond c env cmd r s) := by
  unfold Radar.respond removeCustomIe
  dsimp only
  split
  · exact hs.move ⟨rfl, rfl, rfl, rfl, rfl⟩ rfl
  · exact hs.move ⟨rfl, rfl, rfl, rfl, rfl⟩ rfl
  · exact hs
  · exact hs
  · exact hs
  · have hstopped : ChanInv c { s with bssStarted := Function.update s.bssStarted cmd.iface false } :=
      hs.move ⟨rfl, rfl, rfl, rfl, rfl⟩ rfl
    split_ifs
    · exact hs.move ⟨rfl, rfl, rfl, rfl, rfl⟩ rfl
    · exact hstopped.move (same_chanSwIes false _) (stage_chanSwIes false _)
    · exact hstopped
    · exact hstopped
  · split_ifs
    · exact hs.move ⟨rfl, rfl, rfl, rfl, rfl⟩ rfl
    · exact hs

theorem ChanInv.step {a : Act ι} (hmeets : MeetsChannel c s a) (hstep : step c s a = some t) :
    ChanInv c t := by
  cases a with
  | radar i passed env =>
    cases hstep
    exact hs.radarEvent hmeets
  | channelSwitch i channel env =>
    cases hstep
    exact hs.channelSwitchEvent
  | chanSwAnn i ap stopTx deauthSent env =>
    simp only [Radar.step] at hstep
    split_ifs at hstep with hap
    cases hstep
    exact hs.chanSwAnnEvent hap.1
  | resp k r env =>
    simp only [Radar.step] at hstep
    split at hstep
    · cases hstep
    next cmd hcmd =>
      cases hstep
      have hpop : ChanInv c { s with pending := s.pending.eraseIdx k } := hs.move ⟨rfl, rfl, rfl, rfl, rfl⟩ rfl
      unfold cmdResp
      dsimp only
      split_ifs with hok henters
      · exact hpop.respond.handle (hmeets cmd hcmd hok henters)
      · exact hpop.respond
      · exact hpop
  | issue kind i =>
    simp only [Radar.step] at hstep
    split_ifs at hstep
    cases hstep
    exact hs.move ⟨rfl, rfl, rfl, rfl, rfl⟩ rfl
  | connect i | disconnect i | started i | setHost i host =>
    cases hstep
    exact hs.move ⟨rfl, rfl, rfl, rfl, rfl⟩ rfl
  | startTx i =>
    cases hstep
    unfold txEnable
    split_ifs
    · exact hs.move ⟨rfl, rfl, rfl, rfl, rfl⟩ rfl
    · exact hs
  | dfsTest noChannelChange fixedNewChannel =>
    cases hstep
    exact ⟨hmeets.1, hmeets.2, hs.replaces⟩

end

theorem chanInv_initial : ChanInv c (initial : Rdh ι) :=
  ⟨rfl, rfl, nofun⟩

theorem chanInv_of_reachable (h : (system c).ReachableWhen (MeetsChannel c) s) : ChanInv c s := by
  refine h.invariant (I := ChanInv c) ?_ fun _ _ _ hi hm hs => hi.step hm hs
  rintro s rfl
  exact chanInv_initial

theorem chosen_of_usesChannel {st : Stage} (h : st.usesChannel = true) : st.chosen = true := by
  cases st <;> simp_all [Stage.usesChannel, Stage.chosen]

/-- **The channel after radar.** The channel that is asked for while radar is handled is one that will do if there is one, and 0
otherwise, exactly where there is a table for the region code; a channel without radar detection is found exactly where there is
one; and in runs whose calls have what they need an access point is not told of, set to or restarted on channel 0 or the channel
it leaves. -/
theorem new_channel :
    (∀ b : StartInput, b.InHandling → (b.Fine ↔ ∃ t, b.Matches t)) ∧
      (∀ b : SwitchInput, b.NoFixed → (b.switchNonDfsChan.isSome ↔ ∃ e, b.NonDfs e) ∧
        ∀ chan, b.switchNonDfsChan = some chan → ∃ e, b.NonDfs e ∧ chan = e.channel) ∧
      ∀ (c : Card ι) (s : Rdh ι), (system c).ReachableWhen (MeetsChannel c) s → s.stage.usesChannel = true →
        HasAp c s.privList → Replaces s := by
  refine ⟨fun b hb => StartInput.startChannel_fine_iff hb, fun b hb => SwitchInput.switchNonDfsChan_spec b hb, ?_⟩
  intro c s hs huses
  exact (chanInv_of_reachable hs).replaces (chosen_of_usesChannel huses)

/-- A card with one access point. -/
def oneAp : Card (Fin 1) where
  privs := [0]
  uap _ := true
  ecsaEnable := false
  length_privs := by decide

/-- All channels of the table but 36 are under NOP. -/
def channel36 : StartInput where
  regionTables := ⟨none, some ⟨0x10, [⟨52, true, false, by decide, by decide⟩, ⟨36, false, false, by decide, by decide⟩],
    by decide, by decide⟩⟩
  regionCode := 0x10
  underNop := fun chan => chan ≠ 36
  rand := 0
  mediaConnected := false
  bssChannel := 0
  band5GHz := true
  width20MHz := true
  enabled := true
  getInfoChannel := true

theorem hasReplacement_channel36 {env : Env (Fin 1)} {cur : ℕ} (henv : env.startChannel = channel36.startChannel)
    (hcur : cur ≠ 36) : HasReplacement env cur :=
  ⟨channel36, ⟨rfl, rfl, rfl⟩, decide_eq_true hcur,
    ⟨_, ⟨rfl, rfl⟩, _, List.mem_cons_of_mem _ (List.mem_singleton_self _), rfl, by decide, by decide, by decide⟩, henv⟩

/-- Nothing fails, and the access point can go to channel 36. -/
def channel36Env : Env (Fin 1) where
  prepare := true
  alloc _ := true
  ieSent _ := true
  startChannel := channel36.startChannel

/-- Responses with another channel to leave than 36. -/
def LeavesAnother (s : Rdh (Fin 1)) : Act (Fin 1) → Prop
  | .radar .. | .started _ => True
  | .resp k r env => env.startChannel = channel36.startChannel ∧ ∀ cmd ∈ s.pending[k]?,
      ∀ x ∈ asked oneAp cmd.iface (respond oneAp env cmd r { s with pending := s.pending.eraseIdx k }), x.2 ≠ 36
  | _ => False

instance : ∀ (s : Rdh (Fin 1)) (a : Act (Fin 1)), Decidable (LeavesAnother s a) := fun s a => by
  cases a <;> unfold LeavesAnother <;> infer_instance

theorem LeavesAnother.meetsChannel {s : Rdh (Fin 1)} : ∀ {a : Act (Fin 1)}, LeavesAnother s a → MeetsChannel oneAp s a
  | .radar .., _ => fun hsta => Bool.noConfusion hsta
  | .started _, _ => trivial
  | .resp .., ⟨henv, hcur⟩ => fun cmd hcmd _ _ _ cur hasked _ =>
    ⟨rfl, hasReplacement_channel36 henv (hcur cmd hcmd (_, cur) hasked)⟩

/-- Radar on channel 52, and channel 36 is announced. -/
theorem new_channel_one : ∃ s, (system oneAp).ReachableWhen (MeetsChannel oneAp) s ∧ s.stage = .setCustomIe ∧
    s.newChannel = 36 ∧ s.currChannel = 52 ∧ Replaces s := by
  obtain ⟨s, hrun, h⟩ : ∃ s, (system oneAp).runWhen LeavesAnother initial
      [.started 0, .radar 0 false channel36Env, .resp 0 ⟨true, 52, true⟩ channel36Env,
        .resp 0 ⟨true, 52, true⟩ channel36Env] = some s ∧
      (s.stage = .setCustomIe ∧ s.privList = [0] ∧ s.newChannel = 36 ∧ s.currChannel = 52) :=
    ⟨_, rfl, by decide +kernel⟩
  obtain ⟨hstage, hlist, hnew, hcurr⟩ := h
  have hreach : (system oneAp).ReachableWhen (MeetsChannel oneAp) s := by
    classical
    exact System.reachableWhen_of_runWhen (.init rfl) (System.runWhen_mono (fun _ _ => LeavesAnother.meetsChannel) hrun)
  have hap : HasAp oneAp s.privList := ⟨0, by rw [hlist]; exact List.mem_singleton_self 0, rfl⟩
  exact ⟨s, hreach, hstage, hnew, hcurr, new_channel.2.2 oneAp s hreach (by rw [hstage]; rfl) hap⟩

/-- The only channel of the table is under NOP. -/
def noChannel : StartInput where
  regionTables := ⟨none, some ⟨0x10, [⟨52, true, false, by decide, by decide⟩], by decide, by decide⟩⟩
  regionCode := 0x10
  underNop := fun chan => chan = 52
  rand := 0
  mediaConnected := false
  bssChannel := 0
  band5GHz := true
  width20MHz := true
  enabled := true
  getInfoChannel := true

/-- Nothing fails, and there is no channel to go to. -/
def noChannelEnv : Env (Fin 1) where
  prepare := true
  alloc _ := true
  ieSent _ := true
  startChannel := noChannel.startChannel

/-- Without a channel to go to the access point is not stopped, and channel 0 is announced. -/
theorem announces_zero : ∃ s, (system oneAp).Reachable s ∧
    (s.stage = .setCustomIe ∧ HasAp oneAp s.privList ∧ s.chanSw 0 = true ∧ testing s = false) ∧ ¬ Replaces s := by
  obtain ⟨s, hreach, h⟩ := System.exists_reachable_of_run
    (P := fun s => s.stage = .setCustomIe ∧ s.privList = [0] ∧ s.chanSw 0 = true ∧ testing s = false ∧ s.newChannel = 0)
    (l := [.started 0, .radar 0 false noChannelEnv, .resp 0 ⟨true, 52, true⟩ noChannelEnv,
      .resp 0 ⟨true, 52, true⟩ noChannelEnv])
    (show (system oneAp).init initial from rfl) (by decide +kernel)
  obtain ⟨hstage, hlist, hsw, htest, hzero⟩ := of_decide_eq_true h
  exact ⟨s, hreach, ⟨hstage, ⟨0, by rw [hlist]; exact List.mem_singleton_self 0, rfl⟩, hsw, htest⟩,
    fun hreplaces => hreplaces.1 hzero⟩

end WlanDriver.Radar
