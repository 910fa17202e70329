import WlanDriver.Bridge.DeferredSafety

/-!
# Readiness edges of a deferred target

A retained request is retried when its target becomes ready : the bridge's notifier queues the
work for a request in `WAITING` and remembers the event for one in `SWITCHING`, and whoever builds
a bridge kicks the work. An edge is lost when it leaves none of these traces and the worker does
not look at the target again.

There are three ways to lose one. While an attempt of the worker is past its look at the target, an
edge that finds no published instance (the attempt has torn it down) is dropped, and the rollback
restores `WAITING` without a kick. An attempt that an edge has queued is refused before it can look.
And a kick finds `SWITCHING` and does nothing while an attempt that never looked has returned
but not yet restored `WAITING`. `edgeCovered` excludes these steps, and `no_lost_edge` says that
nothing else loses an edge : in every run that avoids them, a quiescent bridge with an owner and a
waiting request has seen no edge since the worker's last look. `edge_lost_in_rollback` is a run of
the first kind.

The invariant is `Pursued` : an edge since the last look is on its way to another look.
-/

namespace WlanDriver.Bridge

open Option Pending

/-! ## The property -/

/-- The work is neither queued nor running and no lifecycle operation is in progress. -/
def Quiescent (s : DeferState) : Prop :=
  s.pend.workQueued = false ∧ s.worker = .idle ∧ s.op = .free
  deriving Decidable

/-- In a quiescent state with a published owner and a waiting request, no edge of the target
came after the worker last looked. The later look of `moal_bridge_validate_binding_locked` is not
counted, which only makes the property stronger. -/
def NoLostEdge (s : DeferState) : Prop :=
  Quiescent s → s.owner = true → s.published = true → s.pend.state = .waiting → s.edgeSince = false

/-- Deferred switching stays enabled. -/
def staysEnabled : DeferAct → Bool
  | .cleanup | .setDeferred false => false
  | _ => true

/-- The worker is behind its request. -/
def WorkerPc.hasReturned : WorkerPc → Bool
  | .returned _ _ _ | .checked _ _ _ | .settling _ _ _ => true
  | _ => false

/-- The holder's next step is `moal_bridge_pending_kick`. -/
def OpPc.kicks : OpPc → Bool
  | .kick => true
  | .switch _ r (.restored _ _) => r.expected == 0
  | _ => false

/-- The holder has published an instance and will kick, or clear the request, or take the instance
down again. -/
def OpPc.willKick : OpPc → Bool
  | .kick => true
  | .switch false _ (.validate _) | .switch false _ (.commit _) | .switch false _ (.unbuild _ _)
  | .switch false _ (.rollbackValidate _ _) | .switch false _ (.rollbackUnbuild _ _)
  | .switch false _ (.restored _ _) => true
  | _ => false

/-- An attempt runs and no event is remembered for it. -/
def Pending.forgetful (p : Pending) : Bool :=
  p.state == .switching && !p.eventDuringSwitch

/-- The steps that lose no edge : deferred switching stays enabled; the worker's request is not
refused before its look while an edge is outstanding and an instance is up, or about to be kicked for;
an edge that finds no published instance does not fall behind the look of a running attempt; and a
kick does not fall between the return of an attempt that never looked and its restore, while an edge
is outstanding. An event that is remembered covers all of these. -/
def edgeCovered (s : DeferState) (a : DeferAct) : Bool :=
  staysEnabled a &&
    match a with
    | .workGate _ => !(s.pend.forgetful && s.edgeSince && s.published && !s.op.willKick)
    | .deliver =>
      match s.notifier with
      | .readiness n false => !(s.pend.forgetful && n == s.pend.ifname && s.sampled)
      | _ => true
    | .op _ => !(s.pend.forgetful && s.op.kicks && s.worker.hasReturned && !s.sampled && s.edgeSince)
    | _ => true

/-! ## The invariant -/

/-- The request of the worker has not looked at the target yet. -/
def SwitchPc.preSample : SwitchPc → Bool
  | .locked | .snapshot | .recheck _ | .sameTarget _ | .sample _ _ => true
  | _ => false

/-- The request is behind its look at the target and not at its end. -/
def SwitchPc.pastSample : SwitchPc → Bool
  | .locked | .snapshot | .recheck _ | .sameTarget _ | .sample _ _ | .done _ => false
  | _ => true

/-- The attempt has not taken the lifecycle lock yet. -/
def WorkerPc.early : WorkerPc → Bool
  | .attempting _ _ | .entering _ _ => true
  | _ => false

/-- The attempt will still look at the target. -/
def DeferState.WillSample (s : DeferState) : Prop :=
  s.worker.early = true ∨ ∃ r pc, s.op = .switch true r pc ∧ pc.preSample = true

/-- A kick is still to come : nothing is published, or the holder will kick. -/
def DeferState.Covered (s : DeferState) : Prop :=
  s.published = false ∨ s.op.willKick = true

/-- What `published` is while the holder is in a transaction. -/
def OpPc.publishes? : OpPc → Option Bool
  | .switch _ _ (.build _) | .switch _ _ (.rollback _ _) | .switch _ _ (.lost _ _) => some false
  | .switch _ _ (.validate _) | .switch _ _ (.commit _) | .switch _ _ (.unbuild _ _)
  | .switch _ _ (.rollbackValidate _ _) | .switch _ _ (.rollbackUnbuild _ _)
  | .switch _ _ (.restored _ _) => some true
  | _ => none

/-- An edge since the last look is on its way to another look. -/
def Pursued (s : DeferState) : Prop :=
  s.edgeSince = true →
    (s.pend.state = .waiting → s.pend.workQueued = true ∨ s.worker = .started ∨
      s.worker = .snapped s.pend.ifname s.pend.generation ∨ s.Covered) ∧
    (s.pend.state = .switching → s.pend.eventDuringSwitch = true ∨
      (s.sampled = false ∧ (s.WillSample ∨ s.Covered)))

/-- Where the bridge is while somebody works on it. -/
structure BridgeInv (s : DeferState) : Prop where
  /-- In a transaction the holder knows what is published. -/
  inside : ∀ b, s.op.publishes? = some b → s.published = b
  /-- Elsewhere the published instance is the owner's. -/
  outside : s.op.publishes? = none → s.owner = s.published
  /-- Nothing is published behind the back of a notifier that saw nothing published. -/
  unseen : ∀ n, s.notifier = .readiness n false → s.published = false

theorem bridgeInv_init : BridgeInv deferInit where
  inside := by simp [deferInit, OpPc.publishes?]
  outside := by simp [deferInit]
  unseen := by simp [deferInit]

/-- A step that leaves the bridge alone. -/
theorem BridgeInv.of_eq {s s' : DeferState} (hi : BridgeInv s) (hp : s'.published = s.published)
    (ho : s'.owner = s.owner) (hn : s'.notifier = s.notifier)
    (hop : s'.op.publishes? = s.op.publishes?) : BridgeInv s' where
  inside b hb := hp.trans (hi.inside b (hop ▸ hb))
  outside hb := by rw [hp, ho, hi.outside (hop ▸ hb)]
  unseen n h := hp.trans (hi.unseen n (hn ▸ h))

/-- A step behind which nothing is published and nobody owns. -/
theorem BridgeInv.of_down {s : DeferState} (hp : s.published = false)
    (ho : s.op.publishes? = some false ∨ s.op.publishes? = none ∧ s.owner = false) :
    BridgeInv s where
  inside b hb := by
    rcases ho with ho | ⟨ho, -⟩
    · rw [ho, some.injEq] at hb
      rw [hp, hb]
    · simp [ho] at hb
  outside hb := by
    rcases ho with ho | ⟨-, ho⟩
    · simp [ho] at hb
    · rw [hp, ho]
  unseen _ _ := hp

/-- A step that publishes : `RTNL` was free, so no notifier is in the middle. -/
theorem BridgeInv.of_up {s : DeferState} (hp : s.published = true) (hn : s.notifier = .idle)
    (ho : s.op.publishes? = some true ∨ s.op.publishes? = none ∧ s.owner = true) : BridgeInv s where
  inside b hb := by
    rcases ho with ho | ⟨ho, -⟩
    · rw [ho, some.injEq] at hb
      rw [hp, hb]
    · simp [ho] at hb
  outside hb := by
    rcases ho with ho | ⟨-, ho⟩
    · simp [ho] at hb
    · rw [hp, ho]
  unseen n h := by simp [hn] at h

theorem publishes_sampleNext (w : Bool) (r r' : SwitchReq) (deferred same : Bool) (c : Capture)
    (o : Oracle) : (OpPc.switch w r (sampleNext r' deferred c same o)).publishes? = none := by
  unfold sampleNext
  split_ifs <;> rfl

theorem BridgeInv.switch_step {s : DeferState} (hi : BridgeInv s) {w : Bool} {r : SwitchReq}
    {pc : SwitchPc} (o : Oracle) (hop : s.op = .switch w r pc)
    (hrtnl : s.op.needsRtnl = true → s.notifier = .idle) : BridgeInv (switchStep s w r o pc) := by
  cases pc with
  | locked | recheck c | validate c | rollbackValidate c e =>
    refine hi.of_eq rfl rfl rfl ?_
    rw [hop]
    simp only [switchStep]
    split_ifs <;> rfl
  | sameTarget c =>
    simp only [switchStep]
    split
    · refine hi.of_eq rfl rfl rfl ?_
      rw [hop]
      dsimp only
      split_ifs <;> rfl
    · exact hi.of_eq rfl rfl rfl (by rw [hop]; rfl)
  | sample c same => exact hi.of_eq rfl rfl rfl (by rw [hop]; exact publishes_sampleNext _ _ _ _ _ _ _)
  | snapshot | admission c | done ret => exact hi.of_eq rfl rfl rfl (by rw [hop]; rfl)
  | teardown c | unbuild c e | rollbackUnbuild c e => exact .of_down rfl (.inl rfl)
  | build c | rollback c e =>
    simp only [switchStep]
    split
    · exact .of_up rfl (hrtnl (by rw [hop]; rfl)) (.inl rfl)
    · exact hi.of_eq rfl rfl rfl (by rw [hop]; rfl)
  | commit c | restored c e =>
    have hp : s.published = true := hi.inside true (by rw [hop]; rfl)
    exact ⟨fun b hb => by simp [switchStep, OpPc.publishes?] at hb, fun _ => hp.symm,
      fun n hn => hi.unseen n hn⟩
  | lost c e => exact .of_down (hi.inside false (by rw [hop]; rfl)) (.inr ⟨rfl, rfl⟩)

theorem BridgeInv.op_step {s s' : DeferState} {o : Oracle} (hi : BridgeInv s)
    (h : opStep s o = some s') : BridgeInv s' := by
  rw [opStep, ite_none_left_eq_some] at h
  obtain ⟨hrtnl, h⟩ := h
  have hidle : s.op.needsRtnl = true → s.notifier = .idle := fun hn => by simpa [hn] using hrtnl
  cases hop : s.op with
  | free => simp [hop, opNext] at h
  | switch w r pc =>
    obtain rfl : switchStep s w r o pc = s' := by simpa [hop, opNext] using h
    exact hi.switch_step o hop hidle
  | build resume =>
    simp only [hop, opNext] at h
    split at h <;> cases h
    · exact .of_up rfl (hidle (by rw [hop]; rfl)) (.inr ⟨rfl, rfl⟩)
    · refine hi.of_eq rfl rfl rfl ?_
      rw [hop]
      dsimp only
      split_ifs <;> rfl
  | cancelAll t =>
    rw [hop] at h
    cases h
    refine hi.of_eq rfl rfl rfl ?_
    rw [hop]
    dsimp only
    split_ifs <;> rfl
  | teardown =>
    rw [hop] at h
    cases h
    exact .of_down rfl (.inr ⟨rfl, rfl⟩)
  | invalidate =>
    rw [hop] at h
    cases h
    refine hi.of_eq rfl rfl rfl ?_
    rw [hop]
    dsimp only
    split_ifs <;> rfl
  | kick | invalidateClear c | unlock =>
    rw [hop] at h
    cases h
    exact hi.of_eq rfl rfl rfl (by rw [hop]; rfl)

theorem publishes_lockedOp (k : LockedOp) : k.pc.publishes? = none := by
  cases k with
  | forget lost own =>
    simp only [LockedOp.pc]
    split_ifs <;> rfl
  | _ => rfl

theorem BridgeInv.step {s s' : DeferState} {a : DeferAct} (hi : BridgeInv s)
    (h : deferStep s a = some s') : BridgeInv s' := by
  cases a with
  | op o => exact hi.op_step h
  | lock k =>
    simp only [deferStep, ite_none_right_eq_some] at h
    cases h.2
    exact hi.of_eq rfl rfl rfl (by rw [h.1.1]; exact publishes_lockedOp k)
  | workLock =>
    simp only [deferStep] at h
    split at h
    · split_ifs at h with hop
      cases h
      exact hi.of_eq rfl rfl rfl (by rw [hop]; rfl)
    · cases h
  | workStart =>
    simp only [deferStep, ite_none_right_eq_some] at h
    cases h.2
    exact hi.of_eq rfl rfl rfl rfl
  | workSnapshot | workBegin | workGate e | workMatch | workCheck | workSettle =>
    simp only [deferStep] at h
    split at h <;> cases h
    exact hi.of_eq rfl rfl rfl rfl
  | workFinish =>
    simp only [deferStep] at h
    split at h
    · split at h <;> cases h <;> exact hi.of_eq rfl rfl rfl rfl
    · cases h
  | readiness n =>
    simp only [deferStep, ite_none_right_eq_some] at h
    cases h.2
    exact ⟨hi.inside, hi.outside, fun m hm => (NotifierPc.readiness.inj hm).2⟩
  | deliver | clear =>
    simp only [deferStep] at h
    split at h <;> cases h
    exact ⟨hi.inside, hi.outside, by simp⟩
  | identity ev =>
    simp only [deferStep] at h
    split_ifs at h <;> cases h
    · exact ⟨hi.inside, hi.outside, by simp⟩
    · exact hi
  | cancelAll | start | cleanup | setDeferred b =>
    cases h
    exact hi.of_eq rfl rfl rfl rfl
  | drainWork =>
    simp only [deferStep, ite_none_left_eq_some] at h
    cases h.2
    exact hi.of_eq rfl rfl rfl rfl

/-! ## The worker's attempt -/

/-- The attempt is at or before the request. -/
def WorkerPc.ahead? : WorkerPc → Option (IfName × ℕ)
  | .attempting n g | .entering n g | .inRequest n g => some (n, g)
  | _ => none

theorem WorkerPc.attempt?_of_ahead? {w : WorkerPc} {x : IfName × ℕ} (h : w.ahead? = some x) :
    w.attempt? = some x := by
  cases w <;> simp_all [WorkerPc.ahead?, WorkerPc.attempt?]

/-- What holds of the worker's attempt while deferred switching stays enabled. -/
structure AttemptInv (s : DeferState) : Prop where
  /-- A request exists only while deferred switching is enabled. -/
  enabled : s.pend.state ≠ .none → s.pend.eventsEnabled = true ∧ s.deferred = true
  admits : ∀ w r c, s.op = .switch w r (.admission c) → s.deferred = true
  le : ∀ n g, s.worker.attempt? = some (n, g) → g ≤ s.pend.generation
  inRequest : ∀ n g, s.worker = .inRequest n g → ∃ r pc, s.op = .switch true r pc
  sampled : ∀ r pc, s.op = .switch true r pc → pc.pastSample = true → s.sampled = true
  /-- Until its request ends, the attempt's own request is not waiting. -/
  notWaiting : ∀ n g, s.worker.ahead? = some (n, g) → (∀ r ret, s.op ≠ .switch true r (.done ret)) →
    s.pend.generation = g → s.pend.state ≠ .waiting

theorem attemptInv_init : AttemptInv deferInit where
  enabled := by simp [deferInit, zero]
  admits := by simp [deferInit]
  le := by simp [deferInit, WorkerPc.attempt?]
  inRequest := by simp [deferInit]
  sampled := by simp [deferInit]
  notWaiting := by simp [deferInit, WorkerPc.ahead?]

section Attempt

variable {s s' : DeferState} {a : DeferAct}

/-- What steps leave alone. -/
structure StepFrame (s : DeferState) (a : DeferAct) (s' : DeferState) : Prop where
  deferred : staysEnabled a = true → s.deferred = true → s'.deferred = true
  sampled : a ≠ .workBegin → s.sampled = true → s'.sampled = true

theorem opStep_frame {o : Oracle} (h : opStep s o = some s') : StepFrame s (.op o) s' := by
  rw [opStep, ite_none_left_eq_some] at h
  obtain ⟨-, h⟩ := h
  cases hop : s.op with
  | switch w r pc =>
    obtain rfl : switchStep s w r o pc = s' := by simpa [hop, opNext] using h
    cases pc with
    | sameTarget c | build c | rollback c e =>
      simp only [switchStep]
      split <;> exact ⟨fun _ => id, fun _ => id⟩
    | sample c same => exact ⟨fun _ => id, fun _ hs => by simp [switchStep, hs]⟩
    | _ => exact ⟨fun _ => id, fun _ => id⟩
  | build resume =>
    simp only [hop, opNext] at h
    split at h <;> cases h <;> exact ⟨fun _ => id, fun _ => id⟩
  | free => simp [hop, opNext] at h
  | _ =>
    rw [hop] at h
    cases h
    exact ⟨fun _ => id, fun _ => id⟩

theorem deferStep_frame (h : deferStep s a = some s') : StepFrame s a s' := by
  cases a with
  | op o => exact opStep_frame h
  | setDeferred b =>
    cases h
    refine ⟨fun hen _ => ?_, fun _ => id⟩
    cases b with
    | false => simp [staysEnabled] at hen
    | true => rfl
  | workBegin =>
    simp only [deferStep] at h
    split at h <;> cases h
    exact ⟨fun _ => id, fun hne => absurd rfl hne⟩
  | cancelAll | start | cleanup =>
    cases h
    exact ⟨fun _ => id, fun _ => id⟩
  | workStart | lock k | readiness n =>
    simp only [deferStep, ite_none_right_eq_some] at h
    cases h.2
    exact ⟨fun _ => id, fun _ => id⟩
  | drainWork =>
    simp only [deferStep, ite_none_left_eq_some] at h
    cases h.2
    exact ⟨fun _ => id, fun _ => id⟩
  | workSnapshot | workGate e | workMatch | workCheck | workSettle | deliver | clear =>
    simp only [deferStep] at h
    split at h <;> cases h
    exact ⟨fun _ => id, fun _ => id⟩
  | workLock | workFinish =>
    simp only [deferStep] at h
    split at h
    · split at h <;> cases h <;> exact ⟨fun _ => id, fun _ => id⟩
    · cases h
  | identity ev =>
    simp only [deferStep] at h
    split_ifs at h <;> cases h <;> exact ⟨fun _ => id, fun _ => id⟩

theorem PendStep.eventsEnabled {p' : Pending} (h : PendStep s a p') (hen : staysEnabled a = true)
    (he : s.pend.eventsEnabled = true) : p'.eventsEnabled = true := by
  cases h with
  | skip | dequeue => exact he
  | @begin n g =>
    rcases s.pend.pendingBeginAttempt_cases n g with ⟨-, -, -, h⟩ | ⟨-, h⟩ <;> rw [h] <;> exact he
  | @clearIf n g =>
    rcases s.pend.pendingClearIf_cases n g with ⟨-, -, -, h⟩ | ⟨-, h⟩ <;> rw [h] <;> exact he
  | @restore n g =>
    rcases s.pend.pendingRestoreWaiting_cases s.deferred n g with ⟨-, -, -, h⟩ | ⟨-, h⟩ <;> rw [h] <;>
      exact he
  | lost | cancelAll =>
    rcases s.pend.pendingCancelAll_cases with ⟨-, h⟩ | ⟨-, h⟩ <;> rw [h] <;> exact he
  | @admission _ _ r =>
    rcases s.pend.pendingSet_cases r.ifname with ⟨-, h⟩ | ⟨-, h⟩ <;> rw [h] <;> exact he
  | kick => rw [pendingKick_eq]; exact he
  | readiness n pub =>
    obtain ⟨d, q, h, -, -⟩ := s.pend.pendingReadiness_eq s.deferred n pub
    rw [h]
    exact he
  | start => rfl
  | cleanup ha => simp [ha, staysEnabled] at hen

/-- A request is admitted only while deferred switching is enabled. -/
theorem AttemptInv.enabled_step (hi : AttemptInv s) (hh : HolderInv s) (h : deferStep s a = some s')
    (hen : staysEnabled a = true) (hne : s'.pend.state ≠ .none) :
    s'.pend.eventsEnabled = true ∧ s'.deferred = true := by
  have hp := deferStep_pend h
  have hf := deferStep_frame h
  by_cases hadm : ∃ o w r c, a = .op o ∧ s.op = .switch w r (.admission c)
  · obtain ⟨o, w, r, c, rfl, hop⟩ := hadm
    refine ⟨?_, hf.deferred hen (hi.admits w r c hop)⟩
    simp only [deferStep, opStep, hop, OpPc.needsRtnl, opNext, switchStep, Bool.false_eq_true,
      false_and, if_false, some.injEq] at h
    subst h
    rcases s.pend.pendingSet_cases r.ifname with ⟨he, hs⟩ | ⟨-, hs⟩
    · simp only [hs, he]
    · simp only [hs] at hne ⊢
      exact (hi.enabled hne).1
  · have hk := hp.keeps hh fun o w r c ha hop => hadm ⟨o, w, r, c, ha, hop⟩
    obtain ⟨he, hd⟩ := hi.enabled (hk hne).1
    exact ⟨hp.eventsEnabled hen he, hf.deferred hen hd⟩

theorem deferred_of_sampleNext {r : SwitchReq} {deferred same : Bool} {c c' : Capture} {o : Oracle}
    (h : sampleNext r deferred c same o = .admission c') : deferred = true := by
  unfold sampleNext at h
  split_ifs at h with h1 h2 h3 h4 h5
  exact h5.2.2.2

/-- A request goes on to an admission only from its look at the target, and is past the look only
behind it. -/
theorem switchStep_sample {w w' : Bool} {r r' : SwitchReq} {o : Oracle} {pc pc' : SwitchPc}
    (h : (switchStep s w r o pc).op = .switch w' r' pc') :
    (∀ c, pc' = .admission c → s.deferred = true) ∧
      (pc'.pastSample = true → pc.pastSample = true ∨ ∃ c same, pc = .sample c same) := by
  cases pc with
  | sample c same =>
    obtain ⟨-, -, rfl⟩ := OpPc.switch.inj h
    exact ⟨fun c' hc' => deferred_of_sampleNext hc', fun _ => .inr ⟨c, same, rfl⟩⟩
  | locked | recheck c =>
    obtain ⟨-, -, rfl⟩ := OpPc.switch.inj h
    constructor
    · intro c' hc'
      split_ifs at hc'
    · split_ifs <;> simp [SwitchPc.pastSample]
  | sameTarget c =>
    simp only [switchStep] at h
    split at h
    · obtain ⟨-, -, rfl⟩ := OpPc.switch.inj h
      constructor
      · intro c' hc'
        split_ifs at hc'
      · split_ifs <;> simp [SwitchPc.pastSample]
    · cases h
      simp [SwitchPc.pastSample]
  | build c | rollback c e =>
    simp only [switchStep] at h
    split at h <;> cases h <;> simp [SwitchPc.pastSample]
  | validate c | rollbackValidate c e =>
    obtain ⟨-, -, rfl⟩ := OpPc.switch.inj h
    refine ⟨fun c' hc' => ?_, fun _ => .inl rfl⟩
    split_ifs at hc'
  | done ret => cases h
  | _ =>
    cases h
    simp [SwitchPc.pastSample]

theorem AttemptInv.admits_step (hi : AttemptInv s) (h : deferStep s a = some s')
    (hen : staysEnabled a = true) {w : Bool} {r : SwitchReq} {c : Capture}
    (hop' : s'.op = .switch w r (.admission c)) : s'.deferred = true := by
  have hf := deferStep_frame h
  have hpc := deferStep_pc h
  generalize s'.worker = w' at hpc
  generalize s'.op = op' at hpc hop'
  cases hpc with
  | enter => cases hop'
  | @acquire k =>
    cases k with
    | forget lost own =>
      simp only [LockedOp.pc] at hop'
      split_ifs at hop'
    | _ => cases hop'
  | switch hop => exact hf.deferred hen ((switchStep_sample hop').1 c rfl)
  | op _ hpc' => exact absurd hop' (hpc' _ _ _)
  | _ => exact hf.deferred hen (hi.admits w r c hop')

theorem AttemptInv.le_step (hi : AttemptInv s) (hh : HolderInv s) (h : deferStep s a = some s')
    {n : IfName} {g : ℕ} (hw : s'.worker.attempt? = some (n, g)) : g ≤ s'.pend.generation := by
  have hg : s.pend.generation ≤ s'.pend.generation := by
    cases (deferStep_pend h).change hh <;> omega
  rcases hh.attempt_cases (deferStep_pc h) hw with hat | ⟨-, -, -, rfl⟩
  · exact (hi.le n g hat).trans hg
  · exact hg

theorem AttemptInv.inRequest_step (hi : AttemptInv s) (h : deferStep s a = some s')
    {n : IfName} {g : ℕ} (hw : s'.worker = .inRequest n g) : ∃ r pc, s'.op = .switch true r pc := by
  have hpc := deferStep_pc h
  generalize s'.worker = w' at hpc hw
  generalize s'.op = op' at hpc ⊢
  cases hpc with
  | enter => exact ⟨_, _, rfl⟩
  | acquire hop =>
    obtain ⟨r, pc, hop'⟩ := hi.inRequest n g hw
    simp [hop] at hop'
  | @switch o w r pc hop =>
    rcases switchStep_cases s w r o pc with ⟨ret, rfl, -, he⟩ | ⟨pc', he, hwk, -⟩
    · rw [he] at hw
      split_ifs at hw with hb
      obtain ⟨r', pc', hop'⟩ := hi.inRequest n g hw
      rw [hop] at hop'
      cases hop'
      exact absurd rfl hb
    · rw [hwk] at hw
      obtain ⟨r', pc'', hop'⟩ := hi.inRequest n g hw
      rw [hop] at hop'
      cases hop'
      exact ⟨_, _, he⟩
  | op hop =>
    obtain ⟨r, pc, hop'⟩ := hi.inRequest n g hw
    exact absurd hop' (hop _ _ _)
  | other => exact hi.inRequest n g hw
  | _ => cases hw

theorem AttemptInv.sampled_step (hi : AttemptInv s) (hh : HolderInv s) (h : deferStep s a = some s')
    {r : SwitchReq} {pc : SwitchPc} (hop' : s'.op = .switch true r pc)
    (hpast : pc.pastSample = true) : s'.sampled = true := by
  have hf := deferStep_frame h
  have hpc := deferStep_pc h
  generalize hs' : s'.op = op' at hpc hop'
  generalize s'.worker = w' at hpc
  cases hpc with
  | begin hw | beginFail hw =>
    have := (hh.request _ _ _ hop').2
    simp [hw] at this
  | enter =>
    cases hop'
    simp [SwitchPc.pastSample] at hpast
  | @acquire k =>
    cases k with
    | forget lost own =>
      simp only [LockedOp.pc] at hop'
      split_ifs at hop'
    | _ => cases hop'
  | @switch o w r' q hop =>
    rcases (switchStep_sample hop').2 hpast with hq | ⟨c, same, rfl⟩
    · rcases switchStep_cases s w r' o q with ⟨ret, rfl, -, -⟩ | ⟨pc', he, -⟩
      · simp [SwitchPc.pastSample] at hq
      · rw [he] at hop'
        cases hop'
        exact hf.sampled (by simp) (hi.sampled _ _ hop hq)
    · obtain ⟨rfl, -, -⟩ := OpPc.switch.inj hop'
      simp only [deferStep, opStep, hop, OpPc.needsRtnl, opNext, true_and, ne_eq, ite_not,
        ite_none_right_eq_some, some.injEq] at h
      rw [← h.2]
      simp [switchStep]
  | op _ hpc' => exact absurd hop' (hpc' _ _ _)
  | other _ hb => exact hf.sampled hb (hi.sampled r pc hop' hpast)
  | _ => exact hf.sampled (by simp) (hi.sampled r pc hop' hpast)

/-- A request is waiting after a step because it was, because it is admitted, or because the
worker or its request restores it. -/
theorem PendStep.waiting_cases {p' : Pending} (h : PendStep s a p') (hh : HolderInv s)
    (hwait : p'.state = .waiting) :
    s.pend.Same p' ∨ p'.generation = s.pend.generation + 1 ∨
      (captured s a ≠ none ∧
        (a = .workSettle ∨ ∃ o w r c e, a = .op o ∧ s.op = .switch w r (.restored c e))) := by
  have hc := h.change hh
  cases hc with
  | same hn hg hs => exact .inl ⟨hn, hg, hs⟩
  | admission _ hg _ => exact .inr (.inl hg)
  | cancel _ _ hs => simp [hs] at hwait
  | start _ _ _ hs => simp [hs] at hwait
  | restore hn hg hsw _ =>
    cases h with
    | restore hcap ha => exact .inr (.inr ⟨by simp [hcap], ha⟩)
    | skip | dequeue | start => exact absurd hwait (by simp [hsw, pendingStart])
    | @begin n g =>
      rcases s.pend.pendingBeginAttempt_cases n g with ⟨-, -, -, he⟩ | ⟨-, he⟩ <;> rw [he] at hwait
      · simp at hwait
      · simp [hsw] at hwait
    | @clearIf n g =>
      rcases s.pend.pendingClearIf_cases n g with ⟨-, -, -, he⟩ | ⟨-, he⟩ <;> rw [he] at hwait
      · simp [cancelled] at hwait
      · simp [hsw] at hwait
    | lost | cancelAll =>
      rcases s.pend.pendingCancelAll_cases with ⟨-, he⟩ | ⟨-, he⟩ <;> rw [he] at hwait
      · simp [cancelled] at hwait
      · simp [hsw] at hwait
    | @admission _ _ r =>
      rcases s.pend.pendingSet_cases r.ifname with ⟨-, he⟩ | ⟨-, he⟩
      · exact .inr (.inl (by rw [he]))
      · simp [he, hsw] at hwait
    | kick => simp [pendingKick_eq, hsw] at hwait
    | readiness n pub =>
      obtain ⟨d, q, he, -, -⟩ := s.pend.pendingReadiness_eq s.deferred n pub
      simp [he, hsw] at hwait
    | cleanup => simp [pendingCleanup, cancelled] at hwait

/-- An attempt that is ahead of its end after a step was so before, or has just begun. -/
theorem deferStep_ahead_cases (h : deferStep s a = some s') {n : IfName} {g : ℕ}
    (hw : s'.worker.ahead? = some (n, g))
    (hdone : ∀ r ret, s'.op ≠ .switch true r (.done ret)) :
    (s.worker.ahead? = some (n, g) ∧ ∀ r ret, s.op ≠ .switch true r (.done ret)) ∨
      s'.pend.state = .switching := by
  have hpc := deferStep_pc h
  generalize hw' : s'.worker = w' at hpc hw
  generalize s'.op = op' at hpc hdone
  cases hpc with
  | @begin m k hwk hb =>
    simp only [deferStep, hwk, some.injEq] at h
    subst h
    rcases s.pend.pendingBeginAttempt_cases m k with ⟨-, -, -, he⟩ | ⟨-, he⟩
    · exact .inr (by rw [he])
    · simp [he] at hb
  | matched hwk => exact .inl ⟨by rw [hwk]; exact hw, hdone⟩
  | enter hwk hop => exact .inl ⟨by rw [hwk]; exact hw, by simp [hop]⟩
  | acquire hop => exact .inl ⟨hw, by simp [hop]⟩
  | @switch o w r pc hop =>
    rcases switchStep_cases s w r o pc with ⟨ret, rfl, -, he⟩ | ⟨pc', he, hwk, -⟩
    · rw [he] at hw
      cases w with
      | true => simp [WorkerPc.ahead?] at hw
      | false => exact .inl ⟨hw, by simp [hop]⟩
    · refine .inl ⟨hwk ▸ hw, fun r' ret hd => ?_⟩
      rw [hop] at hd
      cases hd
      simp [switchStep] at he
  | op hop => exact .inl ⟨hw, fun r ret => hop _ _ _⟩
  | other => exact .inl ⟨hw, hdone⟩
  | _ => simp [WorkerPc.ahead?] at hw

theorem AttemptInv.notWaiting_step (hi : AttemptInv s) (hh : HolderInv s)
    (h : deferStep s a = some s') {n : IfName} {g : ℕ} (hw : s'.worker.ahead? = some (n, g))
    (hdone : ∀ r ret, s'.op ≠ .switch true r (.done ret)) (hg : s'.pend.generation = g) :
    s'.pend.state ≠ .waiting := by
  intro hwait
  rcases deferStep_ahead_cases h hw hdone with ⟨hahead, hdone'⟩ | hsw
  swap
  · simp [hsw] at hwait
  rcases (deferStep_pend h).waiting_cases hh hwait with ⟨-, hg', hs⟩ | hg' | ⟨hcap, ha⟩
  · exact hi.notWaiting n g hahead hdone' (hg'.symm.trans hg) (hs.symm.trans hwait)
  · have := hi.le n g (WorkerPc.attempt?_of_ahead? hahead)
    omega
  · rcases ha with rfl | ⟨o, w, r, c, e, rfl, hop⟩
    · simp only [deferStep] at h
      split at h <;> cases h
      simp [WorkerPc.ahead?] at hw
    · cases w with
      | true =>
        simp only [deferStep, opStep, hop, OpPc.needsRtnl, opNext, Bool.false_eq_true, false_and,
          if_false, some.injEq] at h
        subst h
        exact hdone r e rfl
      | false =>
        have hexp : r.expected = 0 := (hh.request _ _ _ hop).2
        simp [captured, hop, OpPc.captured, hexp] at hcap

theorem AttemptInv.step (hi : AttemptInv s) (hh : HolderInv s) (h : deferStep s a = some s')
    (hen : staysEnabled a = true) : AttemptInv s' where
  enabled hne := hi.enabled_step hh h hen hne
  admits _ _ _ hop := hi.admits_step h hen hop
  le _ _ hw := hi.le_step hh h hw
  inRequest _ _ hw := hi.inRequest_step h hw
  sampled _ _ hop hpast := hi.sampled_step hh h hop hpast
  notWaiting _ _ hw hdone hg := hi.notWaiting_step hh h hw hdone hg

end Attempt

/-! ## Edges stay pursued -/

/-- The invariants together. -/
structure EdgeInv (s : DeferState) : Prop where
  holder : HolderInv s
  bridge : BridgeInv s
  attempt : AttemptInv s
  pursued : Pursued s

section Pursue

variable {s s' : DeferState} {a : DeferAct} {o : Oracle}

theorem Pursued.of_none (h : s.pend.state = .none) : Pursued s :=
  fun _ => ⟨fun hw => by simp [h] at hw, fun hsw => by simp [h] at hsw⟩

/-- An attempt that is running does not wait for the worker to start. -/
theorem Pursued.waiting_of_attempt (hs : Pursued s) (he : s.edgeSince = true)
    (hwait : s.pend.state = .waiting) {x : IfName × ℕ} (hat : s.worker.attempt? = some x) :
    s.pend.workQueued = true ∨ s.Covered := by
  rcases (hs he).1 hwait with hq | hw | hw | hc
  · exact .inl hq
  · simp [hw, WorkerPc.attempt?] at hat
  · simp [hw, WorkerPc.attempt?] at hat
  · exact .inr hc

/-- A step during an attempt that leaves the request alone : a kick that was to come still comes,
and what is left to show is that the attempt is followed up. -/
theorem Pursued.of_attempt (hs : Pursued s) {x : IfName × ℕ} (hat : s.worker.attempt? = some x)
    (hp : s'.pend = s.pend) (he : s'.edgeSince = s.edgeSince) (hcov : s.Covered → s'.Covered)
    (hsw : s.edgeSince = true → s.pend.state = .switching → s.pend.eventDuringSwitch = true ∨
      (s'.sampled = false ∧ (s'.WillSample ∨ s'.Covered))) : Pursued s' := by
  intro hed
  rw [he] at hed
  rw [hp]
  refine ⟨fun hwait => ?_, hsw hed⟩
  rcases hs.waiting_of_attempt hed hwait hat with hq | hc
  · exact .inl hq
  · exact .inr (.inr (.inr (hcov hc)))

/-- Behind its request the worker does not look again. -/
theorem HolderInv.covered_of_returned (hh : HolderInv s) (hw : s.worker.hasReturned = true)
    (h : s.WillSample ∨ s.Covered) : s.Covered := by
  rcases h with (hearly | ⟨r, pc, hop, -⟩) | hc
  · cases hs : s.worker <;> simp [hs, WorkerPc.hasReturned, WorkerPc.early] at hw hearly
  · have hreq : s.worker = .inRequest r.ifname r.expected := (hh.request _ _ _ hop).2
    simp [hreq, WorkerPc.hasReturned] at hw
  · exact hc

/-- The worker's own request, behind the recheck, is not waiting. -/
theorem EdgeInv.not_waiting (hi : EdgeInv s) {r : SwitchReq} {pc : SwitchPc}
    (hop : s.op = .switch true r pc) (hpc : pc.rechecked = true) : s.pend.state ≠ .waiting := by
  intro hwait
  have hreq : s.worker = .inRequest r.ifname r.expected := (hi.holder.request _ _ _ hop).2
  have hexp : r.expected ≠ 0 := (hi.holder.attempt _ _ (by rw [hreq]; rfl)).2
  obtain ⟨-, hg⟩ := hi.holder.rechecked _ _ _ hop hpc hexp (by simp [hwait])
  refine hi.attempt.notWaiting r.ifname r.expected (by rw [hreq]; rfl) (fun r' ret hd => ?_) hg hwait
  rw [hop] at hd
  cases hd
  simp [SwitchPc.rechecked] at hpc

/-- Behind the look of the worker's request an outstanding edge is remembered. -/
theorem EdgeInv.remembered (hi : EdgeInv s) {r : SwitchReq} {pc : SwitchPc}
    (hop : s.op = .switch true r pc) (hpc : pc.pastSample = true) (he : s.edgeSince = true)
    (hsw : s.pend.state = .switching) : s.pend.eventDuringSwitch = true := by
  rcases (hi.pursued he).2 hsw with hd | ⟨hns, -⟩
  · exact hd
  · simp [hi.attempt.sampled r pc hop hpc] at hns

/-- A step behind which nothing is published. -/
theorem Pursued.of_unpublished (hs : Pursued s) (he : s'.edgeSince = s.edgeSince)
    (hp : s'.pend = s.pend) (hsm : s'.sampled = s.sampled) (hpub : s'.published = false) :
    Pursued s' := by
  intro hed
  rw [hp]
  refine ⟨fun _ => .inr (.inr (.inr (.inl hpub))), fun hsw => ?_⟩
  rcases (hs (he ▸ hed)).2 hsw with hd | ⟨hns, -⟩
  · exact .inl hd
  · exact .inr ⟨hsm.trans hns, .inr (.inl hpub)⟩

theorem Pursued.of_willKick (hs : Pursued s) (he : s'.edgeSince = s.edgeSince)
    (hp : s'.pend = s.pend) (hsm : s'.sampled = s.sampled) (hk : s'.op.willKick = true) :
    Pursued s' := by
  intro hed
  rw [hp]
  refine ⟨fun _ => .inr (.inr (.inr (.inr hk))), fun hsw => ?_⟩
  rcases (hs (he ▸ hed)).2 hsw with hd | ⟨hns, -⟩
  · exact .inl hd
  · exact .inr ⟨hsm.trans hns, .inr (.inr hk)⟩

/-- A step of a holder that had nothing to kick for, and after which the attempt, if it was to look,
still will. -/
theorem Pursued.of_quiet (hs : Pursued s) (he : s'.edgeSince = s.edgeSince) (hp : s'.pend = s.pend)
    (hsm : s'.sampled = s.sampled) (hw : s'.worker = s.worker) (hpub : s'.published = s.published)
    (hk : s.op.willKick = false)
    (hws : s'.pend.state = .switching → s.WillSample → s'.WillSample ∨ s'.Covered) :
    Pursued s' := by
  have hcov : s.Covered → s'.Covered := fun hc => .inl (hpub.trans (hc.resolve_right (by simp [hk])))
  intro hed
  obtain ⟨h1, h2⟩ := hs (he ▸ hed)
  constructor
  · intro hwait
    rw [hp] at hwait ⊢
    rw [hw]
    exact (h1 hwait).imp id (.imp id (.imp id hcov))
  · intro hsw
    rw [hsm]
    rcases h2 (hp ▸ hsw) with hd | ⟨hns, hl | hc⟩
    · exact .inl (hp ▸ hd)
    · exact .inr ⟨hns, hws hsw hl⟩
    · exact .inr ⟨hns, .inr (hcov hc)⟩

/-- A kick queues the work of a waiting request; where it finds an attempt, the attempt still looks or
an event is remembered. -/
theorem EdgeInv.kick (hi : EdgeInv s) (hc : edgeCovered s (.op o) = true) (hk : s.op.kicks = true)
    (hp : s'.pend = s.pend.pendingKick s.deferred) (he : s'.edgeSince = s.edgeSince)
    (hsm : s'.sampled = s.sampled) (hw : s'.worker = s.worker)
    (hop : ∀ r pc, s.op ≠ .switch true r pc) : Pursued s' := by
  intro hed
  rw [pendingKick_eq] at hp
  rw [hp, hsm]
  constructor
  · intro hwait
    dsimp only at hwait
    obtain ⟨hev, hdef⟩ := hi.attempt.enabled (by simp [hwait])
    exact .inl (by simp [hev, hdef, hwait])
  · intro hsw
    dsimp only at hsw ⊢
    rcases (hi.pursued (he ▸ hed)).2 hsw with hd | ⟨hns, -⟩
    · exact .inl hd
    by_cases hd : s.pend.eventDuringSwitch = true
    · exact .inl hd
    -- The worker has not returned, and the holder is not its request, so it still enters one.
    have hret : s.worker.hasReturned = false := by
      simpa [edgeCovered, staysEnabled, forgetful, hk, hsw, hns, he ▸ hed, hd] using hc
    have hat := hi.holder.running hsw
    refine .inr ⟨hns, .inl (.inl ?_)⟩
    rw [hw]
    cases hwk : s.worker with
    | inRequest n g =>
      obtain ⟨r, pc, hop'⟩ := hi.attempt.inRequest n g hwk
      exact absurd hop' (hop r pc)
    | attempting | entering => rfl
    | idle | started | snapped => simp [hwk, WorkerPc.attempt?] at hat
    | returned | checked | settling => simp [hwk, WorkerPc.hasReturned] at hret

/-- A holder that is not the worker's request : whether the worker will look does not depend on it. -/
theorem willSample_of_other (hop : ∀ r pc, s.op ≠ .switch true r pc) (hw : s'.worker = s.worker)
    (h : s.WillSample) : s'.WillSample := by
  rcases h with h | ⟨r, pc, hop', -⟩
  · exact .inl (hw ▸ h)
  · exact absurd hop' (hop r pc)

/-- A step of a holder that is not the worker's request and had nothing to kick for. -/
theorem Pursued.of_other (hs : Pursued s) (he : s'.edgeSince = s.edgeSince) (hp : s'.pend = s.pend)
    (hsm : s'.sampled = s.sampled) (hw : s'.worker = s.worker) (hpub : s'.published = s.published)
    (hk : s.op.willKick = false) (hop : ∀ r pc, s.op ≠ .switch true r pc) : Pursued s' :=
  hs.of_quiet he hp hsm hw hpub hk fun _ hl => .inl (willSample_of_other hop hw hl)

theorem Pursued.of_cancelAll (h : s'.pend = s.pend.pendingCancelAll) : Pursued s' :=
  .of_none (h ▸ s.pend.state_pendingCancelAll)

variable (hi : EdgeInv s)

include hi

/-- An admission queues the work. -/
theorem EdgeInv.of_pendingSet {n : IfName} (hp : s'.pend = (s.pend.pendingSet n).2) :
    Pursued s' := by
  rcases s.pend.pendingSet_cases n with ⟨-, he⟩ | ⟨hev, he⟩
  · rw [he] at hp
    exact fun _ => ⟨fun _ => .inl (by rw [hp]), fun hsw => by simp [hp] at hsw⟩
  · refine .of_none ?_
    by_contra hne
    rw [hp, he] at hne
    simp [(hi.attempt.enabled hne).1] at hev

theorem EdgeInv.direct_step {r : SwitchReq} {pc : SwitchPc}
    (hop : s.op = .switch false r pc) (hc : edgeCovered s (.op o) = true) :
    Pursued (switchStep s false r o pc) := by
  have hs := hi.pursued
  have hother : ∀ r pc, s.op ≠ .switch true r pc := by simp [hop]
  cases pc with
  | locked | snapshot | recheck c | done ret =>
    exact hs.of_other rfl rfl rfl rfl rfl (by rw [hop]; rfl) hother
  | sample c same =>
    refine hs.of_other ?_ rfl ?_ rfl rfl (by rw [hop]; rfl) hother
    · simp [switchStep]
    · simp [switchStep]
  | sameTarget c =>
    simp only [switchStep]
    split
    · rcases s.pend.pendingClearIf_cases c.ifname c.generation with ⟨-, -, -, he⟩ | ⟨-, he⟩
      · exact .of_none (by simp only [he]; rfl)
      · exact hs.of_other rfl (by simp only [he]) rfl rfl rfl (by rw [hop]; rfl) hother
    · exact hs.of_other rfl rfl rfl rfl rfl (by rw [hop]; rfl) hother
  | admission c => exact hi.of_pendingSet rfl
  | teardown c | unbuild c e | rollbackUnbuild c e => exact hs.of_unpublished rfl rfl rfl rfl
  | build c | rollback c e =>
    simp only [switchStep]
    split
    · exact hs.of_willKick rfl rfl rfl rfl
    · exact hs.of_unpublished rfl rfl rfl (hi.bridge.inside false (by rw [hop]; rfl))
  | validate c | rollbackValidate c e =>
    refine hs.of_willKick rfl rfl rfl ?_
    simp only [switchStep]
    split_ifs <;> rfl
  | commit c =>
    -- Nothing was admitted since the capture, so the captured request is all there is to clear.
    refine .of_none ?_
    have hexp : r.expected = 0 := (hi.holder.request _ _ _ hop).2
    by_contra hne
    by_cases hp : s.pend.state = .none
    · have hmiss : s.pend.pendingClearIf c.ifname c.generation = (false, s.pend) := by
        simp [pendingClearIf, hp]
      simp [switchStep, hmiss, hp] at hne
    · obtain ⟨hn, hg, hst⟩ := hi.holder.held c (by rw [hop]; rfl) hp
      have hhit : s.pend.pendingClearIf c.ifname c.generation = (true, s.pend.cancelled) := by
        simp [pendingClearIf, hp, hn, hg]
      simp [switchStep, hexp, hst, hhit, cancelled] at hne
  | restored c e =>
    have hexp : r.expected = 0 := (hi.holder.request _ _ _ hop).2
    exact hi.kick hc (by rw [hop]; simp [OpPc.kicks, hexp]) (by simp [switchStep, hexp]) rfl rfl rfl
      hother
  | lost c e => exact .of_cancelAll rfl

/-- The request of the worker before its look. -/
theorem EdgeInv.worker_early_step {r : SwitchReq} {pc : SwitchPc}
    (hop : s.op = .switch true r pc) (hpc : pc.preSample = true) :
    Pursued (switchStep s true r o pc) := by
  have hs := hi.pursued
  have hreq : s.worker = .inRequest r.ifname r.expected := (hi.holder.request _ _ _ hop).2
  have hexp : r.expected ≠ 0 := (hi.holder.attempt _ _ (by rw [hreq]; rfl)).2
  cases pc with
  | locked =>
    refine hs.of_quiet rfl rfl rfl rfl rfl (by rw [hop]; rfl) fun _ _ => ?_
    by_cases ho : s.owner = true
    · exact .inl (.inr ⟨r, .snapshot, by simp [switchStep, ho], rfl⟩)
    · -- Without an owner nothing is published.
      have hpub := hi.bridge.outside (by rw [hop]; rfl)
      exact .inr (.inl (by simpa [switchStep, hpub] using ho))
  | snapshot =>
    exact hs.of_quiet rfl rfl rfl rfl rfl (by rw [hop]; rfl) fun _ _ => .inl (.inr ⟨r, _, rfl, rfl⟩)
  | recheck c =>
    refine hs.of_quiet rfl rfl rfl rfl rfl (by rw [hop]; rfl) fun hsw _ => ?_
    have hat := hi.holder.running hsw
    rw [hreq, WorkerPc.attempt?, some.injEq, Prod.mk.injEq] at hat
    have hm : s.pend.pendingMatches r.ifname r.expected = true :=
      pendingMatches_iff.mpr ⟨by simp only [switchStep] at hsw; simp [hsw], hat.2.symm,
        hat.1.symm⟩
    exact .inl (.inr ⟨r, .sameTarget c, by simp [switchStep, hm], rfl⟩)
  | sameTarget c =>
    have hstep : switchStep s true r o (.sameTarget c) =
        { s with op := .switch true r (.sample c o.same) } := by simp [switchStep, hexp]
    rw [hstep]
    exact hs.of_quiet rfl rfl rfl rfl rfl (by rw [hop]; rfl) fun _ _ => .inl (.inr ⟨r, _, rfl, rfl⟩)
  | sample c same => exact fun he => by simp [switchStep] at he
  | _ => simp [SwitchPc.preSample] at hpc

/-- The request of the worker behind its look. -/
theorem EdgeInv.worker_past_step {r : SwitchReq} {pc : SwitchPc}
    (hop : s.op = .switch true r pc) (hpc : pc.pastSample = true) :
    Pursued (switchStep s true r o pc) := by
  have hs := hi.pursued
  have hreq : s.worker = .inRequest r.ifname r.expected := (hi.holder.request _ _ _ hop).2
  have hexp : r.expected ≠ 0 := (hi.holder.attempt _ _ (by rw [hreq]; rfl)).2
  -- What keeps the request keeps it pursued : it is not waiting, and an edge is remembered.
  have hkeep : ∀ t : DeferState, t.pend = s.pend → t.edgeSince = s.edgeSince →
      pc.rechecked = true → Pursued t := by
    intro t hp he hrec hed
    rw [hp]
    exact ⟨fun hwait => absurd hwait (hi.not_waiting hop hrec),
      fun hsw => .inl (hi.remembered hop hpc (he ▸ hed) hsw)⟩
  cases pc with
  | admission c => exact hi.of_pendingSet rfl
  | teardown c | unbuild c e | rollbackUnbuild c e => exact hs.of_unpublished rfl rfl rfl rfl
  | build c | rollback c e =>
    simp only [switchStep]
    split
    · exact hkeep _ rfl rfl rfl
    · exact hkeep _ rfl rfl rfl
  | validate c | rollbackValidate c e => exact hkeep _ rfl rfl rfl
  | commit c => exact hkeep _ (by simp [switchStep, hexp]) rfl rfl
  | restored c e =>
    rcases s.pend.pendingRestoreWaiting_cases s.deferred r.ifname r.expected with
      ⟨hsw, -, -, he⟩ | ⟨-, he⟩
    · intro hed
      have hd := hi.remembered hop hpc hed hsw
      obtain ⟨hev, hdef⟩ := hi.attempt.enabled (by simp [hsw])
      have hp : (switchStep s true r o (.restored c e)).pend =
          (s.pend.pendingRestoreWaiting s.deferred r.ifname r.expected).2 := by
        simp [switchStep, hexp]
      rw [hp, he]
      exact ⟨fun _ => .inl (by simp [hd, hev, hdef]), fun h => by simp at h⟩
    · exact hkeep _ (by simp [switchStep, hexp, he]) rfl rfl
  | lost c e => exact .of_cancelAll rfl
  | _ => simp [SwitchPc.pastSample] at hpc

theorem EdgeInv.worker_done_step {r : SwitchReq} {ret : ℤ}
    (hop : s.op = .switch true r (.done ret)) : Pursued (switchStep s true r o (.done ret)) := by
  have hreq : s.worker = .inRequest r.ifname r.expected := (hi.holder.request _ _ _ hop).2
  have hcov : s.Covered → (switchStep s true r o (.done ret)).Covered :=
    fun hc => .inl (hc.resolve_right (by simp [hop, OpPc.willKick]))
  refine hi.pursued.of_attempt (by rw [hreq]; rfl) rfl rfl hcov fun hed hsw => ?_
  rcases (hi.pursued hed).2 hsw with hd | ⟨hns, (hl | ⟨r', pc', hop', hpre⟩) | hc⟩
  · exact .inl hd
  · simp [hreq, WorkerPc.early] at hl
  · rw [hop] at hop'
    cases hop'
    simp [SwitchPc.preSample] at hpre
  · exact .inr ⟨hns, .inr (hcov hc)⟩

theorem EdgeInv.switch_step {w : Bool} {r : SwitchReq} {pc : SwitchPc}
    (hop : s.op = .switch w r pc) (hc : edgeCovered s (.op o) = true) :
    Pursued (switchStep s w r o pc) := by
  cases w with
  | false => exact hi.direct_step hop hc
  | true =>
    by_cases hpre : pc.preSample = true
    · exact hi.worker_early_step hop hpre
    by_cases hpast : pc.pastSample = true
    · exact hi.worker_past_step hop hpast
    cases pc with
    | done ret => exact hi.worker_done_step hop
    | _ => simp [SwitchPc.preSample, SwitchPc.pastSample] at hpre hpast

theorem EdgeInv.op_step (h : opStep s o = some s')
    (hc : edgeCovered s (.op o) = true) : Pursued s' := by
  have hs := hi.pursued
  rw [opStep, ite_none_left_eq_some] at h
  obtain ⟨-, h⟩ := h
  cases hop : s.op with
  | free => simp [hop, opNext] at h
  | switch w r pc =>
    obtain rfl : switchStep s w r o pc = s' := by simpa [hop, opNext] using h
    exact hi.switch_step hop hc
  | build resume =>
    simp only [hop, opNext] at h
    split at h <;> cases h
    · exact hs.of_willKick rfl rfl rfl rfl
    · exact hs.of_other rfl rfl rfl rfl rfl (by rw [hop]; rfl) (by simp [hop])
  | kick =>
    rw [hop] at h
    cases h
    exact hi.kick hc (by rw [hop]; rfl) rfl rfl rfl rfl (by simp [hop])
  | cancelAll t =>
    rw [hop] at h
    cases h
    exact .of_cancelAll rfl
  | teardown =>
    rw [hop] at h
    cases h
    exact hs.of_unpublished rfl rfl rfl rfl
  | invalidateClear c =>
    rw [hop] at h
    cases h
    rcases s.pend.pendingClearIf_cases c.ifname c.generation with ⟨-, -, -, he⟩ | ⟨-, he⟩
    · by_cases hhit : o.hit = true
      · exact .of_none (by simp only [hhit, if_true, he]; rfl)
      · exact hs.of_other rfl (by simp [hhit]) rfl rfl rfl (by rw [hop]; rfl) (by simp [hop])
    · exact hs.of_other rfl (by simp [he]) rfl rfl rfl (by rw [hop]; rfl) (by simp [hop])
  | invalidate | unlock =>
    rw [hop] at h
    cases h
    exact hs.of_other rfl rfl rfl rfl rfl (by rw [hop]; rfl) (by simp [hop])

/-- Behind its request the worker changes nothing but its own program counter. -/
theorem EdgeInv.of_returned (hw : s.worker.hasReturned = true)
    (hp : s'.pend = s.pend) (he : s'.edgeSince = s.edgeSince) (hsm : s'.sampled = s.sampled)
    (hop : s'.op = s.op) (hpub : s'.published = s.published) : Pursued s' := by
  have hcov : s.Covered → s'.Covered := by
    rw [DeferState.Covered, DeferState.Covered, hop, hpub]
    exact id
  obtain ⟨x, hat⟩ : ∃ x, s.worker.attempt? = some x := by
    cases hwk : s.worker <;> simp [hwk, WorkerPc.hasReturned, WorkerPc.attempt?] at hw ⊢
  refine hi.pursued.of_attempt hat hp he hcov fun hed hsw => ?_
  rcases (hi.pursued hed).2 hsw with hd | ⟨hns, hl⟩
  · exact .inl hd
  · exact .inr ⟨hsm.trans hns, .inr (hcov (hi.holder.covered_of_returned hw hl))⟩

theorem EdgeInv.begin_step (h : deferStep s .workBegin = some s') :
    Pursued s' := by
  simp only [deferStep] at h
  split at h <;> cases h
  rename_i n g hw
  rcases s.pend.pendingBeginAttempt_cases n g with ⟨-, -, -, he⟩ | ⟨hne, he⟩
  · exact fun _ => ⟨fun hwait => by simp [he] at hwait,
      fun _ => .inr ⟨rfl, .inl (.inl (by simp [he, WorkerPc.early]))⟩⟩
  · intro hed
    simp only [he]
    refine ⟨fun hwait => ?_, fun hsw => ?_⟩
    · rcases (hi.pursued hed).1 hwait with hq | hw' | hw' | hc
      · exact .inl hq
      · simp [hw] at hw'
      · -- The snapshot is still good, so the attempt would have begun.
        rw [hw, WorkerPc.snapped.injEq] at hw'
        simp [hwait, hw'.1, hw'.2] at hne
      · exact .inr (.inr (.inr hc))
    · simpa [hw, WorkerPc.attempt?] using hi.holder.running hsw

theorem EdgeInv.gate_step {e : ℤ} (h : deferStep s (.workGate e) = some s')
    (hc : edgeCovered s (.workGate e) = true) : Pursued s' := by
  simp only [deferStep] at h
  split at h <;> cases h
  rename_i n g hw
  refine hi.pursued.of_attempt (by rw [hw]; rfl) rfl rfl id fun hed hsw => ?_
  rcases (hi.pursued hed).2 hsw with hd | ⟨hns, -⟩
  · exact .inl hd
  by_cases hcov : s.Covered
  · exact .inr ⟨hns, .inr hcov⟩
  -- An instance is up and nobody will kick : the refusal is allowed for a remembered event only.
  rw [DeferState.Covered, not_or, Bool.not_eq_false, Bool.not_eq_true] at hcov
  exact .inl (by simpa [edgeCovered, staysEnabled, forgetful, hsw, hed, hcov] using hc)

theorem EdgeInv.match_step (h : deferStep s .workMatch = some s') :
    Pursued s' := by
  simp only [deferStep] at h
  split at h <;> cases h
  rename_i n g hw
  refine hi.pursued.of_attempt (by rw [hw]; rfl) rfl rfl id fun hed hsw => ?_
  have hat := hi.holder.running hsw
  rw [hw, WorkerPc.attempt?, some.injEq, Prod.mk.injEq] at hat
  have hm : s.pend.pendingMatches n g = true :=
    pendingMatches_iff.mpr ⟨by simp [hsw], hat.2.symm, hat.1.symm⟩
  rcases (hi.pursued hed).2 hsw with hd | ⟨hns, -⟩
  · exact .inl hd
  · exact .inr ⟨hns, .inl (.inl (by simp [hm, WorkerPc.early]))⟩

theorem EdgeInv.lock_step (h : deferStep s .workLock = some s') : Pursued s' := by
  simp only [deferStep] at h
  split at h
  · rename_i n g hw
    split_ifs at h with hop
    cases h
    have hcov : s.Covered → s.published = false :=
      fun hc => hc.resolve_right (by simp [hop, OpPc.willKick])
    refine hi.pursued.of_attempt (by rw [hw]; rfl) rfl rfl (fun hc => .inl (hcov hc)) fun hed hsw => ?_
    rcases (hi.pursued hed).2 hsw with hd | ⟨hns, -⟩
    · exact .inl hd
    · exact .inr ⟨hns, .inl (.inr ⟨_, _, rfl, rfl⟩)⟩
  · cases h

theorem EdgeInv.finish_step (h : deferStep s .workFinish = some s') :
    Pursued s' := by
  simp only [deferStep] at h
  split at h
  · rename_i n g ret hw
    have hret : s.worker.hasReturned = true := by rw [hw]; rfl
    split at h
    · cases h
      rcases s.pend.pendingClearIf_cases n g with ⟨-, -, -, he⟩ | ⟨-, he⟩
      · exact .of_none (by simp only [he]; rfl)
      · exact hi.of_returned hret (by simp only [he]) rfl rfl rfl rfl
    · cases h
      exact hi.of_returned hret rfl rfl rfl rfl rfl
  · cases h

theorem EdgeInv.settle_step (h : deferStep s .workSettle = some s') :
    Pursued s' := by
  simp only [deferStep] at h
  split at h <;> cases h
  rename_i n g ret hw
  have hret : s.worker.hasReturned = true := by rw [hw]; rfl
  rcases settle_cases s.pend s.deferred n g ret with hset | hset
  · rcases s.pend.pendingRestoreWaiting_cases s.deferred n g with ⟨hsw, -, -, he⟩ | ⟨-, he⟩
    · intro hed
      obtain ⟨hev, hdef⟩ := hi.attempt.enabled (by simp [hsw])
      simp only [hset, he]
      refine ⟨fun _ => ?_, fun h => by simp at h⟩
      rcases (hi.pursued hed).2 hsw with hd | ⟨-, hl⟩
      · exact .inl (by simp [hd, hev, hdef])
      · exact .inr (.inr (.inr (hi.holder.covered_of_returned hret hl)))
    · exact hi.of_returned hret (by simp only [hset, he]) rfl rfl rfl rfl
  · rcases s.pend.pendingClearIf_cases n g with ⟨-, -, -, he⟩ | ⟨-, he⟩
    · exact .of_none (by simp only [hset, he]; rfl)
    · exact hi.of_returned hret (by simp only [hset, he]) rfl rfl rfl rfl

/-- An edge that finds a published instance leaves a trace; one that does not is covered by the kick
of the next build. -/
theorem EdgeInv.deliver_step (h : deferStep s .deliver = some s')
    (hc : edgeCovered s .deliver = true) : Pursued s' := by
  simp only [deferStep] at h
  split at h <;> cases h
  rename_i n pub hn
  by_cases hedge : s.pend.state ≠ .none ∧ s.pend.ifname = n
  · obtain ⟨hev, hdef⟩ := hi.attempt.enabled hedge.1
    cases pub with
    | true =>
      intro _
      simp only [hdef, pendingReadiness_hit hev hedge.1 hedge.2]
      by_cases hst : s.pend.state = .waiting
      · simp [hst]
      · simp [hst]
    | false =>
      have hp : s.pend.pendingReadiness s.deferred n false = s.pend := by
        simp [pendingReadiness]
      have hpub : s.published = false := hi.bridge.unseen n hn
      intro _
      simp only [hp]
      refine ⟨fun _ => .inr (.inr (.inr (.inl hpub))), fun hsw => ?_⟩
      by_cases hd : s.pend.eventDuringSwitch = true
      · exact .inl hd
      · have hns : s.sampled = false := by
          simpa [edgeCovered, staysEnabled, forgetful, hn, hsw, hd, hedge.2] using hc
        exact .inr ⟨hns, .inr (.inl hpub)⟩
  · have hp : s.pend.pendingReadiness s.deferred n pub = s.pend := by
      have hmiss : s.pend.state = .none ∨ s.pend.ifname ≠ n := by
        by_contra hcon
        rw [not_or, not_not] at hcon
        exact hedge hcon
      have hcond : (s.pend.state == .none || s.pend.ifname != n) = true := by simpa using hmiss
      simp only [pendingReadiness, hcond, if_true, ite_self]
    simpa [hp, hedge, Pursued, DeferState.WillSample, DeferState.Covered] using hi.pursued

theorem EdgeInv.step (h : deferStep s a = some s') (hc : edgeCovered s a = true) :
    Pursued s' := by
  have hs := hi.pursued
  cases a with
  | op o => exact hi.op_step h hc
  | workStart =>
    simp only [deferStep, ite_none_right_eq_some] at h
    cases h.2
    exact fun _ => ⟨fun _ => .inr (.inl rfl),
      fun hsw => by simpa [h.1.1, WorkerPc.attempt?] using hi.holder.running hsw⟩
  | workSnapshot =>
    simp only [deferStep] at h
    split at h <;> cases h
    rename_i hw
    exact fun _ => ⟨fun hwait => .inr (.inr (.inl (if_pos hwait))),
      fun hsw => by simpa [hw, WorkerPc.attempt?] using hi.holder.running hsw⟩
  | workBegin => exact hi.begin_step h
  | workGate e => exact hi.gate_step h hc
  | workMatch => exact hi.match_step h
  | workLock => exact hi.lock_step h
  | workCheck =>
    simp only [deferStep] at h
    split at h <;> cases h
    rename_i n g ret hw
    exact hi.of_returned (by rw [hw]; rfl) rfl rfl rfl rfl rfl
  | workFinish => exact hi.finish_step h
  | workSettle => exact hi.settle_step h
  | lock k =>
    simp only [deferStep, ite_none_right_eq_some] at h
    cases h.2
    exact hs.of_other rfl rfl rfl rfl rfl (by rw [h.1.1]; rfl) (by simp [h.1.1])
  | deliver => exact hi.deliver_step h hc
  | readiness n =>
    simp only [deferStep, ite_none_right_eq_some] at h
    cases h.2
    exact hs
  | identity ev =>
    simp only [deferStep] at h
    split_ifs at h <;> cases h <;> exact hs
  | clear =>
    simp only [deferStep] at h
    split at h <;> cases h
    rename_i c hn
    rcases s.pend.pendingClearIf_cases c.ifname c.generation with ⟨-, -, -, he⟩ | ⟨-, he⟩
    · exact .of_none (by simp only [he]; rfl)
    · simp only [he]
      exact hs
  | cancelAll =>
    cases h
    exact .of_cancelAll rfl
  | start | setDeferred b =>
    cases h
    exact hs
  | cleanup => simp [edgeCovered, staysEnabled] at hc
  | drainWork =>
    simp only [deferStep, ite_none_left_eq_some] at h
    cases h.2
    refine .of_none ?_
    by_contra hne
    exact h.1 (hi.attempt.enabled hne).1

end Pursue

theorem edgeInv_init : EdgeInv deferInit where
  holder := holderInv_init
  bridge := bridgeInv_init
  attempt := attemptInv_init
  pursued := .of_none rfl

theorem EdgeInv.of_reachable {s : DeferState}
    (h : deferSystem.ReachableWhen (fun s a => edgeCovered s a = true) s) : EdgeInv s := by
  refine h.invariant ?_ ?_
  · rintro s rfl
    exact edgeInv_init
  · intro s a s' hi hc hstep
    have hen : staysEnabled a = true := (Bool.and_eq_true_iff.mp hc).1
    exact ⟨hi.holder.step hstep, hi.bridge.step hstep, hi.attempt.step hi.holder hstep hen,
      hi.step hstep hc⟩

/-! ## The result -/

/-- **No lost edge.** In every run whose steps are all covered, a quiescent bridge with a published
owner and a waiting request has seen no edge of the target since the worker last looked. -/
theorem no_lost_edge {s : DeferState}
    (h : deferSystem.ReachableWhen (fun s a => edgeCovered s a = true) s) : NoLostEdge s := by
  rintro ⟨hq, hw, hop⟩ ho hp hwait
  have hi := EdgeInv.of_reachable h
  by_contra he
  rw [Bool.not_eq_false] at he
  rcases (hi.pursued he).1 hwait with h1 | h1 | h1 | h1 | h1
  · simp [hq] at h1
  · simp [hw] at h1
  · simp [hw] at h1
  · simp [hp] at h1
  · simp [hop, OpPc.willKick] at h1

/-- The rest of an attempt that finds the target without a link. -/
def refusedAttempt : List DeferAct :=
  [.workMatch, .workLock, .op {}, .op {}, .op {}, .op {}, .op { link := -enolink }, .op {},
    .workCheck, .workFinish, .workSettle]

/-- An edge that finds the request waiting leads to another attempt. -/
theorem no_lost_edge_after_retry :
    ∃ s, deferSystem.ReachableWhen (fun s a => edgeCovered s a = true) s ∧
      Quiescent s ∧ s.owner = true ∧ s.published = true ∧ s.pend.state = .waiting ∧
      s.edgeSince = false := by
  obtain ⟨s, hs, hP⟩ := System.exists_reachableWhen_of_runWhen (M := deferSystem)
    (C := fun s a => edgeCovered s a = true)
    (P := fun s => decide (Quiescent s ∧ s.owner = true ∧ s.published = true ∧
      s.pend.state = .waiting))
    (l := attemptRun ++ refusedAttempt ++ [DeferAct.readiness mlan1, .deliver, .workStart, .workSnapshot,
      .workBegin] ++ refusedAttempt) (.init rfl) (by decide +kernel)
  obtain ⟨hq, ho, hp, hw⟩ : _ ∧ _ ∧ _ ∧ _ := by simpa only [decide_eq_true_eq] using hP
  exact ⟨s, hs, hq, ho, hp, hw, no_lost_edge hs hq ho hp hw⟩

/-- The worker tears the bridge down, the target's edge comes, the build fails and the rollback
restores the old bridge and `WAITING` : the edge is lost. -/
theorem edge_lost_in_rollback :
    ∃ s, deferSystem.ReachableWhen (fun _ a => staysEnabled a = true) s ∧ ¬NoLostEdge s := by
  obtain ⟨s, hs, hP⟩ := System.exists_reachableWhen_of_runWhen (M := deferSystem)
    (C := fun _ a => staysEnabled a = true)
    (P := fun s => decide (Quiescent s ∧ s.owner = true ∧ s.published = true ∧
      s.pend.state = .waiting ∧ s.edgeSince = true))
    (l := attemptRun ++ [DeferAct.workMatch, .workLock, .op {}, .op {}, .op {}, .op {}, .op {}, .op {},
      .readiness mlan1, .deliver, .op { ret := -enomem }, .op {}, .op {}, .op {}, .op {},
      .workCheck, .workFinish]) (.init rfl) (by decide +kernel)
  obtain ⟨hq, ho, hp, hw, he⟩ : _ ∧ _ ∧ _ ∧ _ ∧ _ := by simpa only [decide_eq_true_eq] using hP
  refine ⟨s, hs, fun hno => ?_⟩
  simp [hno hq ho hp hw] at he

end WlanDriver.Bridge
