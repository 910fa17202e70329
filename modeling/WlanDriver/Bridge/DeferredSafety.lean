import WlanDriver.Bridge.Deferred

/-!
# Safety of the deferred request

Two results about every interleaving of the parties. A party that captured a request acts on
that request only : when it clears, starts, restores or cancels, the generation and the name are
still the captured ones (`generation_safety`). And a request in `SWITCHING` is the request of a
running attempt of the worker, so no exit of the worker leaves it there (`switching_has_worker`).

The sections with a generation check carry the first result themselves. The cancellation after a
failed rollback has no check; there the lifecycle lock carries it : only its holder admits, so what
the request captured under the lock is still what is pending, or nothing is (`HolderInv`).
-/

namespace WlanDriver.Bridge

/-! ## Sections that admit nothing and start nothing -/

namespace Pending

variable {p p' : Pending}

/-- What is pending afterwards was pending before. -/
def Keeps (p p' : Pending) : Prop :=
  p'.state ≠ .none → p.state ≠ .none ∧ p'.ifname = p.ifname ∧ p'.generation = p.generation

/-- What is in an attempt afterwards was in it before. -/
def NoStart (p p' : Pending) : Prop :=
  p'.state = .switching →
    p.state = .switching ∧ p'.ifname = p.ifname ∧ p'.generation = p.generation

theorem keeps_of_change (h : p.Change p') (hna : p'.generation = p.generation ∨ p'.state = .none) :
    p.Keeps p' := by
  intro hne
  cases h with
  | same hn hg hs => exact ⟨hs ▸ hne, hn, hg⟩
  | admission hn hg hs =>
    rcases hna with hna | hna
    · omega
    · simp [hs] at hna
  | cancel hn hg hs => exact absurd hs hne
  | start hn hg hw hs => exact ⟨by simp [hw], hn, hg⟩
  | restore hn hg hw hs => exact ⟨by simp [hw], hn, hg⟩

theorem noStart_of_change (h : p.Change p') (hns : p.state = .waiting → p'.state ≠ .switching) :
    p.NoStart p' := by
  intro hsw
  cases h with
  | same hn hg hs => exact ⟨hs ▸ hsw, hn, hg⟩
  | admission hn hg hs => simp [hs] at hsw
  | cancel hn hg hs => simp [hs] at hsw
  | start hn hg hw hs => exact absurd hsw (hns hw)
  | restore hn hg hw hs => simp [hs] at hsw

end Pending

/-! ## The capture of a request -/

theorem sampleNext_capture {r : SwitchReq} {deferred same : Bool} {c c' : Capture} {o : Oracle}
    (h : (sampleNext r deferred c same o).capture? = some c') : c' = c := by
  unfold sampleNext at h
  split_ifs at h <;> simp_all [SwitchPc.capture?]

/-- A step of a request keeps its arguments and its capture, and passes the recheck only with
the expected request pending. -/
theorem switchStep_cases (s : DeferState) (w : Bool) (r : SwitchReq) (o : Oracle) (pc : SwitchPc) :
    (∃ ret, pc = .done ret ∧ (switchStep s w r o pc).op = .free ∧
      (switchStep s w r o pc).worker = if w then .returned r.ifname r.expected ret else s.worker) ∨
    ∃ pc', (switchStep s w r o pc).op = .switch w r pc' ∧ (switchStep s w r o pc).worker = s.worker ∧
      (∀ c, pc'.capture? = some c → pc.capture? = some c ∨ c = s.pend.capture) ∧
      (pc'.rechecked = true → pc.rechecked = true ∨
        (r.expected ≠ 0 → s.pend.pendingMatches r.ifname r.expected = true)) := by
  cases pc with
  | done ret => exact .inl ⟨ret, rfl, rfl, rfl⟩
  | recheck c =>
    refine .inr ⟨_, rfl, rfl, ?_, ?_⟩
    · intro c' hc'
      split_ifs at hc'
      · simp [SwitchPc.capture?] at hc'
      · exact .inl hc'
    · split_ifs with hm
      · simp [SwitchPc.rechecked]
      · intro _
        exact .inr fun he => by simpa [he] using hm
  | sameTarget c =>
    simp only [switchStep]
    split
    · refine .inr ⟨_, rfl, rfl, fun c' hc' => .inl ?_, fun _ => .inl rfl⟩
      split_ifs at hc'
      · simp [SwitchPc.capture?] at hc'
      · exact hc'
    · exact .inr ⟨_, rfl, rfl, fun c' hc' => .inl hc', fun _ => .inl rfl⟩
  | sample c same =>
    refine .inr ⟨_, rfl, rfl, fun c' hc' => .inl ?_, fun _ => .inl rfl⟩
    rw [sampleNext_capture hc']
    rfl
  | build c | rollback c e =>
    simp only [switchStep]
    split
    · exact .inr ⟨_, rfl, rfl, fun c' hc' => .inl hc', fun _ => .inl rfl⟩
    · exact .inr ⟨_, rfl, rfl, fun c' hc' => .inl hc', fun _ => .inl rfl⟩
  | validate c | rollbackValidate c e =>
    refine .inr ⟨_, rfl, rfl, fun c' hc' => .inl ?_, fun _ => .inl rfl⟩
    split_ifs at hc' <;> exact hc'
  | locked =>
    refine .inr ⟨_, rfl, rfl, ?_, ?_⟩
    · intro c' hc'
      split_ifs at hc' <;> simp [SwitchPc.capture?] at hc'
    · split_ifs <;> simp [SwitchPc.rechecked]
  | snapshot =>
    refine .inr ⟨_, rfl, rfl, fun c' hc' => .inr ?_, ?_⟩
    · exact (Option.some.inj hc').symm
    · simp [SwitchPc.rechecked]
  | teardown c | unbuild c e | rollbackUnbuild c e =>
    exact .inr ⟨_, rfl, rfl, fun c' hc' => .inl hc', fun _ => .inl rfl⟩
  | admission c | commit c | restored c e | lost c e =>
    exact .inr ⟨_, rfl, rfl, fun c' hc' => by simp [SwitchPc.capture?] at hc', fun _ => .inl rfl⟩

/-! ## The invariant -/

/-- What is pending, if anything is, is what was captured. -/
def Capture.Holds (c : Capture) (p : Pending) : Prop :=
  p.state ≠ .none → p.ifname = c.ifname ∧ p.generation = c.generation ∧ c.state ≠ .none

theorem Capture.Holds.keeps {c : Capture} {p p' : Pending} (h : c.Holds p) (hk : p.Keeps p') :
    c.Holds p' := by
  intro hne
  obtain ⟨hp, hn, hg⟩ := hk hne
  rw [hn, hg]
  exact h hp

theorem Pending.holds_capture (p : Pending) : p.capture.Holds p :=
  fun hne => ⟨rfl, rfl, hne⟩

/-- What holds between the parties in every reachable state. -/
structure HolderInv (s : DeferState) : Prop where
  wf : s.pend.Wf
  /-- An attempt was begun at a real request. -/
  attempt : ∀ n g, s.worker.attempt? = some (n, g) → n ≠ .empty ∧ g ≠ 0
  /-- A request of the worker is the one it is in; a direct request expects no generation. -/
  request : ∀ w r pc, s.op = .switch w r pc → r.ifname ≠ .empty ∧
    if w then s.worker = .inRequest r.ifname r.expected else r.expected = 0
  /-- What the holder captured is what is pending, if anything is. -/
  held : ∀ c, s.op.capture? = some c → c.Holds s.pend
  /-- Behind the recheck what is pending is what the worker's request expects, if anything is. -/
  rechecked : ∀ w r pc, s.op = .switch w r pc → pc.rechecked = true → r.expected ≠ 0 →
    s.pend.state ≠ .none → s.pend.ifname = r.ifname ∧ s.pend.generation = r.expected
  /-- A request in an attempt is the worker's. -/
  running : s.pend.state = .switching →
    s.worker.attempt? = some (s.pend.ifname, s.pend.generation)

theorem holderInv_init : HolderInv deferInit where
  wf := Pending.wf_zero
  attempt := by simp [deferInit, WorkerPc.attempt?]
  request := by simp [deferInit]
  held := by simp [deferInit, OpPc.capture?]
  rechecked := by simp [deferInit]
  running := by simp [deferInit, Pending.zero]

/-! ### What a step does to the request -/

section Step

variable {s s' : DeferState} {a : DeferAct} {p' : Pending}

theorem PendStep.change (h : PendStep s a p') (hi : HolderInv s) : s.pend.Change p' := by
  cases h with
  | skip => exact .refl _
  | dequeue => exact .same rfl rfl rfl
  | begin => exact Pending.change_pendingBeginAttempt _ _ _
  | clearIf => exact Pending.change_pendingClearIf _ _ _
  | restore => exact Pending.change_pendingRestoreWaiting _ _ _ _
  | lost | cancelAll => exact Pending.change_pendingCancelAll _
  | admission ha hop => exact Pending.change_pendingSet _ (hi.request _ _ _ hop).1
  | kick => exact Pending.change_pendingKick _ _
  | readiness => exact Pending.change_pendingReadiness _ _ _ _
  | start => exact Pending.change_pendingStart _
  | cleanup => exact Pending.change_pendingCleanup _

/-- Only the holder of the lifecycle lock admits. -/
theorem PendStep.keeps (h : PendStep s a p') (hi : HolderInv s)
    (hna : ∀ o w r c, a = .op o → s.op ≠ .switch w r (.admission c)) : s.pend.Keeps p' := by
  refine Pending.keeps_of_change (h.change hi) ?_
  cases h with
  | skip | dequeue | start => exact .inl rfl
  | begin =>
    rcases s.pend.pendingBeginAttempt_cases _ _ with ⟨-, -, -, he⟩ | ⟨-, he⟩ <;>
      exact .inl (by rw [he])
  | clearIf =>
    rcases s.pend.pendingClearIf_cases _ _ with ⟨-, -, -, he⟩ | ⟨-, he⟩
    · exact .inr (by rw [he]; rfl)
    · exact .inl (by rw [he])
  | restore =>
    rcases s.pend.pendingRestoreWaiting_cases s.deferred _ _ with ⟨-, -, -, he⟩ | ⟨-, he⟩ <;>
      exact .inl (by rw [he])
  | lost | cancelAll =>
    rcases s.pend.pendingCancelAll_cases with ⟨-, he⟩ | ⟨-, he⟩
    · exact .inr (by rw [he]; rfl)
    · exact .inl (by rw [he])
  | admission ha hop => exact absurd hop (hna _ _ _ _ ha)
  | kick => exact .inl (by rw [Pending.pendingKick_eq])
  | readiness n pub =>
    obtain ⟨d, q, he, -, -⟩ := s.pend.pendingReadiness_eq s.deferred n pub
    exact .inl (by rw [he])
  | cleanup => exact .inr rfl

/-- Only the worker starts an attempt. -/
theorem PendStep.noStart (h : PendStep s a p') (hi : HolderInv s) (ha : a ≠ .workBegin) :
    s.pend.NoStart p' := by
  refine Pending.noStart_of_change (h.change hi) fun hwait => ?_
  cases h with
  | skip | dequeue | start => simp [hwait, Pending.pendingStart]
  | begin ha' => exact absurd ha' ha
  | @clearIf n g =>
    rcases s.pend.pendingClearIf_cases n g with ⟨-, -, -, he⟩ | ⟨-, he⟩ <;> rw [he]
    · simp [Pending.cancelled]
    · simp [hwait]
  | @restore n g =>
    rcases s.pend.pendingRestoreWaiting_cases s.deferred n g with ⟨-, -, -, he⟩ | ⟨-, he⟩ <;> rw [he]
    · simp
    · simp [hwait]
  | lost | cancelAll =>
    rcases s.pend.pendingCancelAll_cases with ⟨-, he⟩ | ⟨-, he⟩ <;> rw [he]
    · simp [Pending.cancelled]
    · simp [hwait]
  | @admission _ _ r =>
    rcases s.pend.pendingSet_cases r.ifname with ⟨-, he⟩ | ⟨-, he⟩ <;> rw [he]
    · simp
    · simp [hwait]
  | kick => simp [Pending.pendingKick_eq, hwait]
  | readiness n pub =>
    obtain ⟨d, q, he, -, -⟩ := s.pend.pendingReadiness_eq s.deferred n pub
    simp [he, hwait]
  | cleanup => simp [Pending.pendingCleanup, Pending.cancelled]

/-! ### The invariant along a step -/

/-- An attempt after a step was running before it, or begins at the waiting request. -/
theorem HolderInv.attempt_cases {w' : WorkerPc} {op' : OpPc} (hi : HolderInv s)
    (h : PcStep s a w' op') {n : IfName} {g : ℕ} (hw' : w'.attempt? = some (n, g)) :
    s.worker.attempt? = some (n, g) ∨
      (a = .workBegin ∧ s.pend.state = .waiting ∧ s.pend.ifname = n ∧ s.pend.generation = g) := by
  cases h with
  | start | snapshot | snapshotIdle | beginFail | checkFail | finish | finishWaiting | settle =>
    simp [WorkerPc.attempt?] at hw'
  | @begin m k hw hp =>
    simp only [WorkerPc.attempt?, Option.some.injEq, Prod.mk.injEq] at hw'
    obtain ⟨rfl, rfl⟩ := hw'
    rcases s.pend.pendingBeginAttempt_cases m k with ⟨hs, hn, hg, -⟩ | ⟨-, he⟩
    · exact .inr ⟨rfl, hs, hn, hg⟩
    · simp [he] at hp
  | gate hw | mismatch hw | matched hw | enter hw | check hw | finishNot hw =>
    exact .inl (by rw [hw]; exact hw')
  | acquire | op | other => exact .inl hw'
  | @switch o w r pc hop =>
    rcases switchStep_cases s w r o pc with ⟨ret, rfl, -, he⟩ | ⟨pc', -, he, -⟩
    · rw [he] at hw'
      split_ifs at hw' with hb
      · have hreq := (hi.request _ _ _ hop).2
        rw [if_pos hb] at hreq
        exact .inl (by rw [hreq]; exact hw')
      · exact .inl hw'
    · exact .inl (he ▸ hw')

theorem HolderInv.attempt_step {w' : WorkerPc} {op' : OpPc} (hi : HolderInv s)
    (h : PcStep s a w' op') {n : IfName} {g : ℕ} (hw' : w'.attempt? = some (n, g)) :
    n ≠ .empty ∧ g ≠ 0 := by
  rcases hi.attempt_cases h hw' with hat | ⟨-, hs, rfl, rfl⟩
  · exact hi.attempt n g hat
  · exact ⟨fun hn => by simp [hi.wf.none_iff.mpr hn] at hs, (hi.wf.pos (by simp [hs])).ne'⟩

theorem HolderInv.request_step {w' : WorkerPc} {op' : OpPc} (hi : HolderInv s)
    (h : PcStep s a w' op') {w : Bool} {r : SwitchReq} {pc : SwitchPc}
    (hop' : op' = .switch w r pc) : r.ifname ≠ .empty ∧
      if w then w' = .inRequest r.ifname r.expected else r.expected = 0 := by
  cases h with
  | start hw | snapshot hw | snapshotIdle hw | begin hw | beginFail hw | gate hw | mismatch hw
  | matched hw | check hw | checkFail hw | finish hw | finishWaiting hw | finishNot hw
  | settle hw =>
    obtain ⟨hn, hreq⟩ := hi.request w r pc hop'
    -- The worker is not in a request, so the holder's request is a direct one.
    cases w with
    | false => exact ⟨hn, hreq⟩
    | true => simp [hw] at hreq
  | enter hw =>
    cases hop'
    exact ⟨(hi.attempt _ _ (by rw [hw]; rfl)).1, rfl⟩
  | @acquire k hop hk =>
    cases k with
    | switch n =>
      cases hop'
      exact ⟨fun he => hk (congrArg _ he), rfl⟩
    | forget lost own =>
      simp only [LockedOp.pc] at hop'
      split_ifs at hop'
    | _ => cases hop'
  | @switch o _ _ pc hop =>
    rcases switchStep_cases s _ _ o pc with ⟨ret, -, he, -⟩ | ⟨pc', he, hwk, -⟩
    · rw [he] at hop'
      cases hop'
    · rw [he] at hop'
      cases hop'
      rw [hwk]
      exact hi.request _ _ _ hop
  | op hop hpc => exact absurd hop' (hpc w r pc)
  | other => exact hi.request w r pc hop'

/-- The next program counter of an admission carries nothing. -/
theorem switchStep_admit_op {w : Bool} {r : SwitchReq} {c : Capture} {o : Oracle} :
    ∃ ret, (switchStep s w r o (.admission c)).op = .switch w r (.done ret) :=
  ⟨_, rfl⟩

theorem HolderInv.held_step {w' : WorkerPc} {op' : OpPc} (hi : HolderInv s)
    (h : PcStep s a w' op') (hp : PendStep s a p') {c : Capture} (hc : op'.capture? = some c) :
    c.Holds p' := by
  cases h with
  | start | snapshot | snapshotIdle | begin | beginFail | gate | mismatch | matched | check
  | checkFail | finish | finishWaiting | finishNot | settle =>
    exact (hi.held c hc).keeps (hp.keeps hi (by simp))
  | enter => simp [OpPc.capture?, SwitchPc.capture?] at hc
  | @acquire k =>
    cases k with
    | forget lost own =>
      simp only [LockedOp.pc] at hc
      split_ifs at hc <;> simp [OpPc.capture?] at hc
    | _ => simp [LockedOp.pc, OpPc.capture?, SwitchPc.capture?] at hc
  | @switch o w r pc hop =>
    by_cases hadm : ∃ c', pc = .admission c'
    · obtain ⟨c', rfl⟩ := hadm
      obtain ⟨ret, he⟩ := @switchStep_admit_op s w r c' o
      simp [he, OpPc.capture?, SwitchPc.capture?] at hc
    have hk : s.pend.Keeps p' := hp.keeps hi fun o' w' r' c' _ hop' => by
      rw [hop] at hop'
      cases hop'
      exact hadm ⟨c', rfl⟩
    rcases switchStep_cases s w r o pc with ⟨ret, -, he, -⟩ | ⟨pc', he, -, hcap, -⟩
    · simp [he, OpPc.capture?] at hc
    · rw [he] at hc
      rcases hcap c hc with hc' | rfl
      · exact (hi.held c (by rw [hop]; exact hc')).keeps hk
      · exact s.pend.holds_capture.keeps hk
  | op hop hpc hcap =>
    rw [hcap c hc]
    exact s.pend.holds_capture.keeps (hp.keeps hi fun o w r c' _ hop' => hop _ _ _ hop')
  | other ha => exact (hi.held c hc).keeps (hp.keeps hi fun o _ _ _ he => absurd he (ha o))

theorem HolderInv.rechecked_step {w' : WorkerPc} {op' : OpPc} (hi : HolderInv s)
    (h : PcStep s a w' op') (hp : PendStep s a p') {w : Bool} {r : SwitchReq} {pc : SwitchPc}
    (hop' : op' = .switch w r pc) (hpc : pc.rechecked = true) (hexp : r.expected ≠ 0)
    (hne : p'.state ≠ .none) : p'.ifname = r.ifname ∧ p'.generation = r.expected := by
  -- Away from an admission it is enough that the request was the expected one before the step.
  have hback : s.pend.Keeps p' →
      (s.pend.state ≠ .none → s.pend.ifname = r.ifname ∧ s.pend.generation = r.expected) →
      p'.ifname = r.ifname ∧ p'.generation = r.expected := by
    intro hk hs
    obtain ⟨hne', hn, hg⟩ := hk hne
    rw [hn, hg]
    exact hs hne'
  cases h with
  | start | snapshot | snapshotIdle | begin | beginFail | gate | mismatch | matched | check
  | checkFail | finish | finishWaiting | finishNot | settle =>
    exact hback (hp.keeps hi (by simp)) (hi.rechecked w r pc hop' hpc hexp)
  | enter =>
    cases hop'
    simp [SwitchPc.rechecked] at hpc
  | @acquire k =>
    cases k with
    | switch n =>
      cases hop'
      simp [SwitchPc.rechecked] at hpc
    | forget lost own =>
      simp only [LockedOp.pc] at hop'
      split_ifs at hop'
    | _ => cases hop'
  | @switch o _ _ q hop =>
    by_cases hadm : ∃ c', q = .admission c'
    · obtain ⟨c', rfl⟩ := hadm
      obtain ⟨ret, he⟩ := @switchStep_admit_op s _ _ c' o
      rw [he] at hop'
      cases hop'
      simp [SwitchPc.rechecked] at hpc
    rcases switchStep_cases s _ _ o q with ⟨ret, -, he, -⟩ | ⟨pc', he, -, -, hrec⟩
    · rw [he] at hop'
      cases hop'
    · rw [he] at hop'
      cases hop'
      refine hback (hp.keeps hi fun o' _ _ c' _ hop'' => ?_) fun hne' => ?_
      · rw [hop] at hop''
        cases hop''
        exact hadm ⟨c', rfl⟩
      · rcases hrec hpc with hq | hm
        · exact hi.rechecked _ _ _ hop hq hexp hne'
        · obtain ⟨-, hg, hn⟩ := Pending.pendingMatches_iff.mp (hm hexp)
          exact ⟨hn, hg⟩
  | op hop hpc' => exact absurd hop' (hpc' w r pc)
  | other ha =>
    exact hback (hp.keeps hi fun o _ _ _ he => absurd he (ha o)) (hi.rechecked w r pc hop' hpc hexp)

/-- The last section of the worker leaves its request out of the attempt. -/
theorem settle_not_switching {p : Pending} {deferred : Bool} {n : IfName} {g : ℕ} {ret : ℤ}
    (h : (settle p deferred n g ret).state = .switching) : p.ifname ≠ n ∨ p.generation ≠ g := by
  rcases settle_cases p deferred n g ret with he | he <;> rw [he] at h
  · rcases p.pendingRestoreWaiting_cases deferred n g with ⟨-, -, -, hr⟩ | ⟨hne, hr⟩ <;> rw [hr] at h
    · simp at h
    · exact hne.resolve_left (not_not.mpr h)
  · rcases p.pendingClearIf_cases n g with ⟨-, -, -, hr⟩ | ⟨hne, hr⟩ <;> rw [hr] at h
    · simp [Pending.cancelled] at h
    · exact hne.resolve_left fun h0 => by simp [h0] at h

theorem HolderInv.running_step (hi : HolderInv s) (h : deferStep s a = some s')
    (hsw : s'.pend.state = .switching) :
    s'.worker.attempt? = some (s'.pend.ifname, s'.pend.generation) := by
  have hp := deferStep_pend h
  -- Away from `workBegin` the request was in the attempt before the step.
  have hback : a ≠ .workBegin →
      s.worker.attempt? = some (s'.pend.ifname, s'.pend.generation) := by
    intro ha
    obtain ⟨hs, hn, hg⟩ := hp.noStart hi ha hsw
    rw [hn, hg]
    exact hi.running hs
  have hpc := deferStep_pc h
  generalize hw' : s'.worker = w' at hpc
  generalize s'.op = op' at hpc
  cases hpc with
  | @begin n g hw hb =>
    simp only [deferStep, hw, Option.some.injEq] at h
    subst h
    rcases s.pend.pendingBeginAttempt_cases n g with ⟨-, hn, hg, he⟩ | ⟨-, he⟩
    · simp only [he, hn, hg, WorkerPc.attempt?]
    · simp [he] at hb
  | @beginFail n g hw hb =>
    simp only [deferStep, hw, Option.some.injEq] at h
    subst h
    rcases s.pend.pendingBeginAttempt_cases n g with ⟨-, -, -, he⟩ | ⟨-, he⟩
    · simp [he] at hb
    · rw [he] at hsw
      have := hi.running hsw
      simp [hw, WorkerPc.attempt?] at this
  | start hw | snapshot hw | snapshotIdle hw =>
    have := hback (by simp)
    simp [hw, WorkerPc.attempt?] at this
  | gate hw | mismatch hw | matched hw | enter hw | check hw | finishNot hw =>
    rw [← hback (by simp), hw]
    rfl
  | @checkFail n g ret hw hm =>
    have hat := hback (by simp)
    obtain ⟨hs, hn, hg⟩ := hp.noStart hi (by simp) hsw
    rw [hw, WorkerPc.attempt?, hn, hg, Option.some.injEq, Prod.mk.injEq] at hat
    have := Pending.pendingMatches_iff.mpr ⟨by simp [hs], hat.2.symm, hat.1.symm⟩
    rw [this] at hm
    cases hm
  | @finish n g hw =>
    have hat := hback (by simp)
    simp only [deferStep, hw, if_true, Option.some.injEq] at h
    subst h
    rcases s.pend.pendingClearIf_cases n g with ⟨-, -, -, he⟩ | ⟨hne, he⟩
    · simp [he, Pending.cancelled] at hsw
    · rw [he] at hsw hat
      rw [hw, WorkerPc.attempt?, Option.some.injEq, Prod.mk.injEq] at hat
      rcases hne with hne | hne | hne
      · simp [hne] at hsw
      · exact absurd hat.1.symm hne
      · exact absurd hat.2.symm hne
  | finishWaiting hw hret hwait =>
    obtain ⟨hs, -, -⟩ := hp.noStart hi (by simp) hsw
    simp [hs] at hwait
  | @settle n g ret hw =>
    have hat := hback (by simp)
    obtain ⟨hs, hn, hg⟩ := hp.noStart hi (by simp) hsw
    rw [hw, WorkerPc.attempt?, hn, hg, Option.some.injEq, Prod.mk.injEq] at hat
    simp only [deferStep, hw, Option.some.injEq] at h
    subst h
    rcases settle_not_switching hsw with hne | hne
    · exact absurd hat.1.symm hne
    · exact absurd hat.2.symm hne
  | acquire | op => exact hback (by simp)
  | other ha hb => exact hback hb
  | @switch o w r pc hop =>
    have hat := hback (by simp)
    rcases switchStep_cases s w r o pc with ⟨ret, rfl, -, he⟩ | ⟨pc', -, he, -⟩
    · rw [he]
      split_ifs with hb
      · have hreq := (hi.request _ _ _ hop).2
        rw [if_pos hb] at hreq
        rw [hreq] at hat
        exact hat
      · exact hat
    · rw [he]
      exact hat

theorem HolderInv.step (hi : HolderInv s) (h : deferStep s a = some s') : HolderInv s' where
  wf := hi.wf.change ((deferStep_pend h).change hi)
  attempt _ _ hw := hi.attempt_step (deferStep_pc h) hw
  request _ _ _ hop := hi.request_step (deferStep_pc h) hop
  held _ hc := hi.held_step (deferStep_pc h) (deferStep_pend h) hc
  rechecked _ _ _ hop hpc hexp hne :=
    hi.rechecked_step (deferStep_pc h) (deferStep_pend h) hop hpc hexp hne
  running hsw := hi.running_step h hsw

end Step

theorem HolderInv.of_reachable {s : DeferState} (h : deferSystem.Reachable s) : HolderInv s :=
  h.invariant (fun _ hs => hs ▸ holderInv_init) fun _ _ _ hi hs => hi.step hs

/-! ## The results -/

/-- A step that acts on a capture finds the captured request, or changes nothing. -/
theorem captured_of_not_same {s s' : DeferState} {a : DeferAct} (hi : HolderInv s)
    (h : deferStep s a = some s') {n : IfName} {g : ℕ} (hc : captured s a = some (n, g))
    (hne : ¬s.pend.Same s'.pend) : s.pend.ifname = n ∧ s.pend.generation = g := by
  have hp := deferStep_pend h
  generalize s'.pend = p' at hp hne
  cases hp with
  | skip | dequeue | start => exact absurd ⟨rfl, rfl, rfl⟩ hne
  | @begin m k ha hc' =>
    cases hc.symm.trans hc'
    rcases s.pend.pendingBeginAttempt_cases n g with ⟨-, hn, hg, -⟩ | ⟨-, he⟩
    · exact ⟨hn, hg⟩
    · exact absurd (by rw [he]; exact ⟨rfl, rfl, rfl⟩) hne
  | clearIf hc' =>
    cases hc.symm.trans hc'
    rcases s.pend.pendingClearIf_cases n g with ⟨-, hn, hg, -⟩ | ⟨-, he⟩
    · exact ⟨hn, hg⟩
    · exact absurd (by rw [he]; exact ⟨rfl, rfl, rfl⟩) hne
  | restore hc' =>
    cases hc.symm.trans hc'
    rcases s.pend.pendingRestoreWaiting_cases s.deferred n g with ⟨-, hn, hg, -⟩ | ⟨-, he⟩
    · exact ⟨hn, hg⟩
    · exact absurd (by rw [he]; exact ⟨rfl, rfl, rfl⟩) hne
  | @lost o w r c e ha hop =>
    rcases s.pend.pendingCancelAll_cases with ⟨hst, -⟩ | ⟨-, he⟩
    · rw [ha, captured, hop, OpPc.captured] at hc
      split_ifs at hc with hexp
      · cases hc
        exact hi.rechecked _ _ _ hop rfl hexp hst
      · cases hc
        obtain ⟨hn, hg, -⟩ := hi.held c (by rw [hop]; rfl) hst
        exact ⟨hn, hg⟩
    · exact absurd (by rw [he]; exact ⟨rfl, rfl, rfl⟩) hne
  | cancelAll hc' | admission _ _ hc' => simp [hc] at hc'
  | cleanup ha => simp [ha, captured] at hc
  | kick => exact absurd (by rw [Pending.pendingKick_eq]; exact ⟨rfl, rfl, rfl⟩) hne
  | readiness n pub =>
    obtain ⟨d, q, he, -, -⟩ := s.pend.pendingReadiness_eq s.deferred n pub
    exact absurd (by rw [he]; exact ⟨rfl, rfl, rfl⟩) hne

/-- A step without a capture changes the request only by admitting or cancelling. -/
theorem same_of_captured_none {s s' : DeferState} {a : DeferAct} (h : deferStep s a = some s')
    (hc : captured s a = none) (hg : s'.pend.generation = s.pend.generation) :
    s.pend.Same s'.pend := by
  have hp := deferStep_pend h
  generalize s'.pend = p' at hp hg
  cases hp with
  | skip | dequeue | start => exact ⟨rfl, rfl, rfl⟩
  | begin _ hc' | clearIf hc' | restore hc' => simp [hc] at hc'
  | lost _ _ | cancelAll =>
    rcases s.pend.pendingCancelAll_cases with ⟨-, he⟩ | ⟨-, he⟩ <;> rw [he] at hg ⊢
    · simp [Pending.cancelled] at hg
    · exact ⟨rfl, rfl, rfl⟩
  | @admission o w r c _ _ _ =>
    rcases s.pend.pendingSet_cases r.ifname with ⟨-, he⟩ | ⟨-, he⟩ <;> rw [he] at hg ⊢
    · simp at hg
    · exact ⟨rfl, rfl, rfl⟩
  | kick =>
    rw [Pending.pendingKick_eq]
    exact ⟨rfl, rfl, rfl⟩
  | readiness n pub =>
    obtain ⟨d, q, he, -, -⟩ := s.pend.pendingReadiness_eq s.deferred n pub
    rw [he]
    exact ⟨rfl, rfl, rfl⟩
  | cleanup => simp [Pending.pendingCleanup, Pending.cancelled] at hg

/-- The next locked section is `moal_bridge_pending_set`, with admission enabled. -/
def DeferState.admits (s : DeferState) : DeferAct → Prop
  | .op _ => (∃ w r c, s.op = .switch w r (.admission c)) ∧ s.pend.eventsEnabled = true
  | _ => False

/-- The functions that admit or cancel take the next generation when they do. -/
structure Pending.NextGeneration (p : Pending) : Prop where
  set : ∀ n, p.eventsEnabled = true → (p.pendingSet n).2.generation = p.generation + 1
  clearIf : ∀ n g, (p.pendingClearIf n g).1 = true → (p.pendingClearIf n g).2.generation = p.generation + 1
  cancelAll : p.state ≠ .none → p.pendingCancelAll.generation = p.generation + 1
  cleanup : p.pendingCleanup.generation = p.generation + 1

theorem Pending.nextGeneration (p : Pending) : p.NextGeneration where
  set n henabled := by
    rcases p.pendingSet_cases n with ⟨-, he⟩ | ⟨hoff, -⟩
    · rw [he]
    · simp [henabled] at hoff
  clearIf n g hcleared := by
    rcases p.pendingClearIf_cases n g with ⟨-, -, -, he⟩ | ⟨-, he⟩
    · rw [he]
      rfl
    · simp [he] at hcleared
  cancelAll hne := by
    rcases p.pendingCancelAll_cases with ⟨-, he⟩ | ⟨hnone, -⟩
    · rw [he]
      rfl
    · exact absurd hnone hne
  cleanup := rfl

/-- An admission is of a newer generation than everything before it. -/
theorem generation_of_admits {s s' : DeferState} {a : DeferAct} (h : deferStep s a = some s') (ha : s.admits a) :
    s'.pend.state = .waiting ∧ s'.pend.generation = s.pend.generation + 1 := by
  cases a with
  | op o =>
    obtain ⟨⟨w, r, c, hop⟩, henabled⟩ := ha
    have hset : s'.pend = (s.pend.pendingSet r.ifname).2 := by
      simp only [deferStep, opStep, hop, Option.ite_none_left_eq_some] at h
      obtain rfl := Option.some.inj h.2
      rfl
    rcases s.pend.pendingSet_cases r.ifname with ⟨-, he⟩ | ⟨hoff, -⟩
    · rw [hset, he]
      exact ⟨rfl, rfl⟩
    · simp [henabled] at hoff
  | _ => exact ha.elim

/-- A request that is gone, for whatever reason, has left a newer generation. -/
theorem Pending.Change.generation_of_cancelled {p p' : Pending} (h : p.Change p') (hne : p.state ≠ .none)
    (hnone : p'.state = .none) : p'.generation = p.generation + 1 := by
  cases h with
  | same _ _ hs => exact absurd (hs.symm.trans hnone) hne
  | cancel _ hg _ => exact hg
  | admission _ _ hs | start _ _ _ hs | restore _ _ _ hs => simp [hs] at hnone

/-- **Generation safety.** In every reachable state the state is `NONE` exactly when there is no
name. Every admission and every cancellation takes the next generation; every other step leaves the
request alone or moves it between waiting and an attempt. A party that acts on a capture changes the
request only if it is still the captured one, and a party without a capture never starts or restores
an attempt. -/
theorem generation_safety {s : DeferState} (h : deferSystem.Reachable s) :
    (s.pend.state = .none ↔ s.pend.ifname = .empty) ∧ s.pend.NextGeneration ∧
      ∀ a s', deferStep s a = some s' →
        s.pend.Change s'.pend ∧
        (s.admits a → s'.pend.state = .waiting ∧ s'.pend.generation = s.pend.generation + 1) ∧
        (s.pend.state ≠ .none → s'.pend.state = .none → s'.pend.generation = s.pend.generation + 1) ∧
        (∀ n g, captured s a = some (n, g) → ¬s.pend.Same s'.pend →
          s.pend.ifname = n ∧ s.pend.generation = g) ∧
        (captured s a = none → s'.pend.generation = s.pend.generation → s.pend.Same s'.pend) := by
  have hi := HolderInv.of_reachable h
  refine ⟨hi.wf.none_iff, s.pend.nextGeneration, fun a s' hs => ?_⟩
  have hchange := (deferStep_pend hs).change hi
  exact ⟨hchange, generation_of_admits hs, hchange.generation_of_cancelled,
    fun n g hc hne => captured_of_not_same hi hs hc hne, same_of_captured_none hs⟩

/-- A direct request for `mlan1` finds it without a link and is deferred. -/
def admitRun : List DeferAct :=
  [.setDeferred true, .start, .lock .init, .op {}, .op {}, .op {},
    .lock (.switch mlan1), .op {}, .op {}, .op {}, .op {}, .op { link := -enolink }, .op {}, .op {}]

/-- The worker begins an attempt at the admitted request. -/
def attemptRun : List DeferAct :=
  admitRun ++ [DeferAct.workStart, .workSnapshot, .workBegin]

/-- A request in the middle of an attempt : a cancellation takes the next generation. -/
theorem generation_safety_in_attempt :
    ∃ s, deferSystem.Reachable s ∧ s.pend.state = .switching ∧
      (s.pend.state = .none ↔ s.pend.ifname = .empty) ∧
        s.pend.pendingCancelAll.generation = s.pend.generation + 1 := by
  obtain ⟨s, hs, hP⟩ := System.exists_reachable_of_run (M := deferSystem)
    (P := fun s => s.pend.state == .switching) (l := attemptRun) rfl (by decide +kernel)
  have hsw : s.pend.state = .switching := by simpa using hP
  obtain ⟨hnone, hnext, -⟩ := generation_safety hs
  exact ⟨s, hs, hsw, hnone, hnext.cancelAll (by simp [hsw])⟩

/-- **`SWITCHING` is never stranded.** A request in an attempt is the one the running worker
began; when the worker returns, the request it began is not in an attempt; and every request can
be attempted or is being attempted. -/
theorem switching_has_worker {s : DeferState} (h : deferSystem.Reachable s) :
    (s.pend.state = .switching →
      s.worker.attempt? = some (s.pend.ifname, s.pend.generation)) ∧
    (∀ a s' n g, deferStep s a = some s' → s.worker.attempt? = some (n, g) → s'.worker = .idle →
      ¬(s'.pend.state = .switching ∧ s'.pend.generation = g)) ∧
    (s.pend.state ≠ .none →
      (s.pend.pendingBeginAttempt s.pend.ifname s.pend.generation).1 = true ∨
        s.worker.attempt? = some (s.pend.ifname, s.pend.generation)) := by
  have hi := HolderInv.of_reachable h
  refine ⟨hi.running, ?_, ?_⟩
  · rintro a s' n g hs - hidle ⟨hsw, -⟩
    have := hi.running_step hs hsw
    simp [hidle, WorkerPc.attempt?] at this
  · intro hne
    cases hst : s.pend.state with
    | none => exact absurd hst hne
    | waiting => exact .inl (by simp [Pending.pendingBeginAttempt, hst])
    | switching => exact .inr (hi.running hst)

/-- The worker of a request in the middle of an attempt. -/
theorem switching_has_worker_in_attempt :
    ∃ s, deferSystem.Reachable s ∧ s.pend.state = .switching ∧
      s.worker.attempt? = some (s.pend.ifname, s.pend.generation) := by
  obtain ⟨s, hs, hP⟩ := System.exists_reachable_of_run (M := deferSystem)
    (P := fun s => s.pend.state == .switching) (l := attemptRun) rfl (by decide +kernel)
  have hsw : s.pend.state = .switching := by simpa using hP
  exact ⟨s, hs, hsw, (switching_has_worker hs).1 hsw⟩

end WlanDriver.Bridge
