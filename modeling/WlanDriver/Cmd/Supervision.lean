import WlanDriver.Cmd.NodePool

/-!
# Supervision of the current command

An outstanding command is watched by the command timer; a timeout is recorded instead of it. `watch` is what the
supervision depends on, and most operations leave it alone.

`curr_supervised` : between two steps of the main process a command is unwatched only if all pending commands are
cancelled but the current one, whose timer is stopped with theirs, or if a command without a response has lost its
request before it was sent.
-/

namespace WlanDriver.Cmd

open Option

/-! ## What the operations leave alone -/

/-- The place of the main process, the current command, its timer and its timeout. -/
def Engine.watch (s : Engine) : MainPc × Option ℕ × Bool × Bool :=
  (s.main, s.curr, s.timerSet, s.timedOut)

namespace Engine

variable {c : EngineCfg} {s u : Engine} {i : ℕ}

theorem Told.watch (h : s.Told u) : u.watch = s.watch := by
  obtain ⟨f, l, rfl⟩ := h
  rfl

theorem insertCmdToFreeQ_watch : (s.insertCmdToFreeQ i).watch = s.watch := by
  obtain ⟨l, heq⟩ := s.insertCmdToFreeQ_eq i
  rw [heq]
  rfl

theorem cancelIoctl_watch : (s.cancelIoctl i).watch = s.watch := by
  obtain ⟨f, l, heq⟩ := s.cancelIoctl_eq i
  rw [heq]
  rfl

theorem insertCmdToPendingQ_watch (addTail : Bool) : (s.insertCmdToPendingQ i addTail).watch = s.watch := by
  obtain ⟨q, heq, -⟩ := s.insertCmdToPendingQ_eq i addTail
  rw [heq]
  rfl

theorem foldl_watch {f : Engine → ℕ → Engine} (hf : ∀ s i, (f s i).watch = s.watch) :
    ∀ (l : List ℕ) (s : Engine), (l.foldl f s).watch = s.watch
  | [], _ => rfl
  | i :: l, s => (foldl_watch hf l (f s i)).trans (hf s i)

theorem cancelAll_watch (l : List ℕ) : (s.cancelAll l).watch = s.watch :=
  foldl_watch (fun _ _ => insertCmdToFreeQ_watch.trans cancelIoctl_watch) l s

theorem freeAll_watch (l : List ℕ) : (s.freeAll l).watch = s.watch :=
  foldl_watch (fun _ _ => insertCmdToFreeQ_watch) l s

theorem freeCurr_curr : s.freeCurr.curr = none := by
  unfold freeCurr
  split
  · rfl
  · assumption

theorem requeue_curr (s : Engine) (i : ℕ) : (s.requeue i).curr = none := by
  unfold requeue
  obtain ⟨q, heq, -⟩ := insertCmdToPendingQ_eq { s.setNode i { s.node i with respbuf := none } with
    curr := none, released := s.released ++ (s.node i).respbuf.toList.map RespBuf.id } i false
  rw [heq]

theorem getCmdNode_watch (req : Option ℕ) (allocOk : Bool) : (s.getCmdNode c req allocOk).watch = s.watch := by
  unfold getCmdNode
  split
  · exact (told_setStatusOf ..).watch
  · dsimp only
    split_ifs
    · exact (told_setStatusOf ..).watch
    · rfl

theorem prepareFails_watch : (s.prepareFails i).watch = s.watch :=
  insertCmdToFreeQ_watch.trans (told_setStatusOf ..).watch

theorem enqueue_watch (cmd : HostCmd) (hsCancel : Bool) : (s.enqueue c i cmd hsCancel).watch = s.watch := by
  unfold enqueue queueScanCmd queueCmd
  split_ifs
  · exact insertCmdToPendingQ_watch false
  · rfl
  · exact insertCmdToPendingQ_watch false
  · rfl
  · exact insertCmdToPendingQ_watch true

theorem flushScan_watch : (s.flushScan i).watch = s.watch := by
  unfold flushScan
  split_ifs
  · exact insertCmdToFreeQ_watch
  · exact insertCmdToFreeQ_watch.trans cancelIoctl_watch

theorem flushScanQueue_watch : s.flushScanQueue.watch = s.watch :=
  foldl_watch (fun _ _ => flushScan_watch) s.scanQ { s with scanQ := [] }

theorem moveCmdToCmdPendingQ_watch : s.moveCmdToCmdPendingQ.watch = s.watch :=
  foldl_watch (fun _ _ => insertCmdToPendingQ_watch true) s.extQ { s with extQ := [] }

theorem feedScan_watch {start : Bool} (hs : s.feedScan start = some u) : u.watch = s.watch := by
  unfold feedScan at hs
  split at hs
  · obtain rfl := some.inj hs
    exact insertCmdToPendingQ_watch true
  · simp at hs

theorem cancelCurr_watch : s.cancelCurr.watch = s.watch := by
  unfold cancelCurr
  split
  · exact cancelIoctl_watch
  · rfl

theorem cancelCurrIf_watch (p : ℕ → Bool) : (s.cancelCurrIf p).watch = s.watch := by
  unfold cancelCurrIf
  split
  · dsimp only
    split_ifs
    · exact cancelIoctl_watch
    · rfl
  · rfl

theorem cancelBssPendingCmd_watch (b : ℕ) : (s.cancelBssPendingCmd c b).watch = s.watch :=
  (cancelAll_watch _).trans (cancelCurrIf_watch _)

theorem cancelPendingScanCmd_watch : (s.cancelPendingScanCmd c).watch = s.watch :=
  (freeAll_watch _).trans (cancelCurrIf_watch _)

theorem takeCurrIoctl_watch (r : ℕ) : (s.takeCurrIoctl r).watch = s.watch := by
  unfold takeCurrIoctl
  split
  · split_ifs <;> rfl
  · rfl

theorem cancelPendingIoctl_watch (r : ℕ) : (s.cancelPendingIoctl c r).watch = s.watch := by
  have hfold : ∀ (l : List ℕ) (u : Engine), (l.foldl (fun u i => (u.takeIoctl i).insertCmdToFreeQ i) u).watch = u.watch :=
    foldl_watch fun _ _ => insertCmdToFreeQ_watch
  unfold cancelPendingIoctl
  dsimp only
  split_ifs
  · exact (hfold _ _).trans (takeCurrIoctl_watch r)
  · exact (hfold _ _).trans (takeCurrIoctl_watch r)
  · exact (hfold _ _).trans (takeCurrIoctl_watch r)

end Engine

/-! ## Supervised commands -/

/-- **Supervision.** With the main process at rest, a current command has its timer or its timeout. -/
def Supervised (s : Engine) : Prop :=
  s.main = .idle → s.curr ≠ none → s.timerSet = true ∨ s.timedOut = true

/-- The command that goes to the card has neither a response nor a request. -/
def Engine.sendsUnasked (s : Engine) : Bool :=
  match s.main with
  | .sent i => (s.node i).cmd.noResp && (s.node i).pioctlBuf.isNone
  | _ => false

/-- The timer is not stopped for a current command that stays, and a command without a response that goes to the card has
a request, unless it is watched anyway. -/
def Op.Supervises (s : Engine) : Op → Prop
  | .cancelAllPendingCmd false => s.main = .idle → s.curr ≠ none → s.timedOut = true
  | .hostToCard true => s.sendsUnasked = true → s.curr ≠ none → s.timerSet = true ∨ s.timedOut = true
  | _ => True

instance Op.decidableSupervises (s : Engine) (op : Op) : Decidable (op.Supervises s) := by
  unfold Op.Supervises
  split <;> infer_instance

section

variable {c : EngineCfg} {g : List ℕ × List ℕ} {s u : Engine}

theorem Supervised.congr (h : Supervised s) (hw : u.watch = s.watch) : Supervised u := by
  simp only [Engine.watch, Prod.mk.injEq] at hw
  obtain ⟨hmain, hcurr, htimer, hout⟩ := hw
  unfold Supervised
  rwa [hmain, hcurr, htimer, hout]

theorem Supervised.of_curr (h : s.curr = none) : Supervised s :=
  fun _ hc => absurd h hc

theorem Supervised.of_main (h : s.main ≠ .idle) : Supervised s :=
  fun hm => absurd hm h

theorem Supervised.execNextCmd (hs : s.execNextCmd = some u) : Supervised u := by
  unfold Engine.execNextCmd at hs
  split at hs
  · obtain ⟨-, hs⟩ := ite_none_right_eq_some.mp hs
    exact some.inj hs ▸ .of_main (by simp)
  · simp at hs

theorem Supervised.dnldCmdToFw (hp : Pool c g s []) (hs : s.dnldCmdToFw = some u) : Supervised u := by
  unfold Engine.dnldCmdToFw at hs
  split at hs
  · next i hmain =>
    have hcurr := hp.sole i hmain
    split_ifs at hs
    · obtain rfl := some.inj hs
      refine (Supervised.of_curr (s := { s with main := .idle }) hcurr).congr ?_
      exact Engine.insertCmdToFreeQ_watch.trans (Engine.told_setStatusOf ..).watch
    · obtain rfl := some.inj hs
      exact .of_main (by simp)
  · simp at hs

theorem supervised_hostToCard {ok : Bool} (hs : s.hostToCard ok = some u) :
    Supervised u ↔ (Op.hostToCard ok).Supervises s := by
  unfold Engine.hostToCard at hs
  split at hs
  · next i hmain =>
    cases ok with
    | false =>
      obtain rfl := some.inj hs
      have hsup : Supervised { s with main := .dropping } := .of_main (by simp)
      exact iff_of_true (hsup.congr (Engine.told_setStatusOf ..).watch) trivial
    | true =>
      have hunasked : s.sendsUnasked = ((s.node i).cmd.noResp && (s.node i).pioctlBuf.isNone) := by
        simp [Engine.sendsUnasked, hmain]
      rw [Op.Supervises, hunasked]
      simp only [Bool.not_true, Bool.false_eq_true, if_false] at hs
      split_ifs at hs with hresp hsome
      · obtain rfl := some.inj hs
        refine iff_of_true (.of_main (by simp)) fun hun => ?_
        simp [isSome_iff_ne_none.mp hsome] at hun
      · obtain rfl := some.inj hs
        have hun : ((s.node i).cmd.noResp && (s.node i).pioctlBuf.isNone) = true := by
          simpa [hresp] using hsome
        exact ⟨fun h _ => h rfl, fun h _ => h hun⟩
      · obtain rfl := some.inj hs
        exact iff_of_true (fun _ _ => .inl rfl) fun hun => absurd (Bool.and_eq_true_iff.mp hun).1 hresp
  · simp at hs

theorem Supervised.drop (hs : s.drop = some u) : Supervised u := by
  unfold Engine.drop at hs
  split at hs
  · obtain rfl := some.inj hs
    exact .of_curr Engine.freeCurr_curr
  · obtain rfl := some.inj hs
    exact .of_main (by simp)
  · simp at hs

theorem Supervised.recvResp (h : Supervised s) {b : RespBuf} (hs : s.recvResp b = some u) : Supervised u := by
  unfold Engine.recvResp at hs
  split at hs
  · exact some.inj hs ▸ h.congr rfl
  · simp at hs

theorem Supervised.processCmdresp (h : Supervised s) (hs : s.processCmdresp = some u) : Supervised u := by
  unfold Engine.processCmdresp at hs
  split at hs
  · split at hs
    · exact some.inj hs ▸ h
    · split at hs
      · exact some.inj hs ▸ h
      · split at hs
        · exact some.inj hs ▸ h.congr (s.told_setStatusOf ..).watch
        · split_ifs at hs
          · exact some.inj hs ▸ h
          · exact some.inj hs ▸ .of_main (by simp)
  · simp at hs

theorem Supervised.checkCanceled (hs : s.checkCanceled = some u) : Supervised u := by
  unfold Engine.checkCanceled at hs
  split at hs
  · split_ifs at hs
    · obtain rfl := some.inj hs
      exact .of_curr Engine.freeCurr_curr
    · obtain rfl := some.inj hs
      exact .of_main (by simp)
  · simp at hs

theorem Supervised.handleCmdresp {o : Engine.Outcome} (hs : s.handleCmdresp c o = some u) : Supervised u := by
  have hmain : ∀ {v w : Engine}, v.Told w → v.main ≠ .idle → Supervised w := fun ht hm =>
    (Supervised.of_main hm).congr ht.watch
  unfold Engine.handleCmdresp at hs
  split at hs
  · next i _ _ =>
    split at hs
    · simp at hs
    · dsimp only at hs
      generalize (if (s.node i).hostcmd = true then s.useOf _ else s) = v at hs
      split_ifs at hs
      · obtain rfl := some.inj hs
        exact hmain (Engine.told_setStatusOf ..) (by simp)
      · obtain rfl := some.inj hs
        exact .of_curr (v.requeue_curr i)
      · split at hs
        · exact some.inj hs ▸ hmain (Engine.told_useOf ..) (by simp)
        · exact some.inj hs ▸ hmain (Engine.told_setStatusOf ..) (by simp)
        · exact some.inj hs ▸ .of_main (by simp)
        · split at hs
          · exact some.inj hs ▸ .of_main (by simp [Engine.complete, Engine.setStatus])
          · exact some.inj hs ▸ .of_main (by simp)
  · simp at hs

/-- A ready adapter keeps no command whose response has come. -/
theorem Supervised.finishCmdresp (hready : c.ready = true) (hs : s.finishCmdresp c = some u) : Supervised u := by
  unfold Engine.finishCmdresp at hs
  split at hs
  · simp only [hready, Bool.not_true, Bool.false_and, Bool.false_eq_true, if_false] at hs
    split at hs
    · next hcurr => exact some.inj hs ▸ .of_curr hcurr
    · exact some.inj hs ▸ .of_curr Engine.freeCurr_curr
  · simp at hs

theorem Supervised.cmdTimeout : Supervised s.cmdTimeout := by
  unfold Engine.cmdTimeout
  split
  · next hcurr => exact .of_curr hcurr
  · refine Supervised.congr ?_ (Engine.told_setStatusOf ..).watch
    exact fun _ _ => .inr rfl

theorem supervised_cancelAllPendingCmd (flag : Bool) :
    Supervised (s.cancelAllPendingCmd flag) ↔ (Op.cancelAllPendingCmd flag).Supervises s := by
  cases flag with
  | true =>
    refine iff_of_true ?_ trivial
    unfold Engine.cancelAllPendingCmd
    refine Supervised.congr ?_ (Engine.cancelAll_watch _)
    exact .of_curr Engine.freeCurr_curr
  | false =>
    have hw : (s.cancelAllPendingCmd false).watch = (s.main, s.curr, false, s.timedOut) := by
      have hcurr := Engine.cancelCurr_watch (s := s)
      simp only [Engine.watch, Prod.mk.injEq] at hcurr
      obtain ⟨hmain, hcurr, -, hout⟩ := hcurr
      unfold Engine.cancelAllPendingCmd
      rw [Engine.cancelAll_watch]
      simp [Engine.watch, hmain, hcurr, hout]
    simp only [Engine.watch, Prod.mk.injEq] at hw
    obtain ⟨hmain, hcurr, htimer, hout⟩ := hw
    simp [Supervised, Op.Supervises, hmain, hcurr, htimer, hout]

theorem supervised_step (hready : c.ready = true) (hp : Pool c g s []) (h : Supervised s) {op : Op}
    (hs : s.step c op = some u) : Supervised u ↔ op.Supervises s := by
  cases op with
  | hostToCard ok => exact supervised_hostToCard hs
  | cancelAllPendingCmd flag => exact some.inj hs ▸ supervised_cancelAllPendingCmd flag
  | getCmdNode req allocOk =>
    obtain ⟨-, hs⟩ := ite_none_right_eq_some.mp hs
    exact iff_of_true (some.inj hs ▸ h.congr (Engine.getCmdNode_watch ..)) trivial
  | prepareFails i =>
    obtain ⟨-, hs⟩ := ite_none_right_eq_some.mp hs
    exact iff_of_true (some.inj hs ▸ h.congr Engine.prepareFails_watch) trivial
  | prepared i cmd hostcmd hsCancel =>
    obtain ⟨-, hs⟩ := ite_none_right_eq_some.mp hs
    exact iff_of_true (some.inj hs ▸ h.congr (Engine.enqueue_watch ..)) trivial
  | execNextCmd => exact iff_of_true (.execNextCmd hs) trivial
  | dnldCmdToFw => exact iff_of_true (.dnldCmdToFw hp hs) trivial
  | drop => exact iff_of_true (.drop hs) trivial
  | recvResp b =>
    obtain ⟨-, hs⟩ := ite_none_right_eq_some.mp hs
    exact iff_of_true (h.recvResp hs) trivial
  | processCmdresp => exact iff_of_true (h.processCmdresp hs) trivial
  | checkCanceled => exact iff_of_true (.checkCanceled hs) trivial
  | handleCmdresp o => exact iff_of_true (.handleCmdresp hs) trivial
  | finishCmdresp => exact iff_of_true (.finishCmdresp hready hs) trivial
  | cmdTimeout => exact iff_of_true (some.inj hs ▸ .cmdTimeout) trivial
  | flushScanQueue => exact iff_of_true (some.inj hs ▸ h.congr Engine.flushScanQueue_watch) trivial
  | flushExtCmdPendingQueue =>
    exact iff_of_true (some.inj hs ▸ h.congr (Engine.cancelAll_watch _)) trivial
  | moveCmdToCmdPendingQ =>
    exact iff_of_true (some.inj hs ▸ h.congr Engine.moveCmdToCmdPendingQ_watch) trivial
  | feedScan start => exact iff_of_true (h.congr (Engine.feedScan_watch hs)) trivial
  | cancelBssPendingCmd b =>
    exact iff_of_true (some.inj hs ▸ h.congr (Engine.cancelBssPendingCmd_watch b)) trivial
  | cancelPendingScanCmd =>
    exact iff_of_true (some.inj hs ▸ h.congr Engine.cancelPendingScanCmd_watch) trivial
  | cancelPendingIoctl r =>
    exact iff_of_true (some.inj hs ▸ h.congr (Engine.cancelPendingIoctl_watch r)) trivial
  | endCancelIoctl r =>
    unfold Engine.step Engine.endCancelIoctl at hs
    obtain ⟨-, hs⟩ := ite_none_right_eq_some.mp hs
    exact iff_of_true (some.inj hs ▸ h.congr rfl) trivial
  | endLookIoctl r =>
    unfold Engine.step Engine.endLookIoctl at hs
    obtain ⟨-, hs⟩ := ite_none_right_eq_some.mp hs
    exact iff_of_true (some.inj hs ▸ h.congr rfl) trivial
  | extScanStatus =>
    refine iff_of_true ?_ trivial
    obtain rfl := some.inj hs
    split_ifs with hcurr
    · exact .of_curr hcurr
    · exact h
  | scanDone | setExtScanType | setPsState =>
    exact iff_of_true (some.inj hs ▸ h.congr rfl) trivial

/-- **The current command is supervised** along every run whose steps meet the condition, and a step leaves it
supervised exactly if it meets the condition. -/
theorem curr_supervised (hready : c.ready = true)
    (h : (engineSystem c).ReachableWhen (fun s op => op.Supervises s) s) :
    Supervised s ∧ ∀ op s', s.step c op = some s' → (Supervised s' ↔ op.Supervises s) := by
  have hinv : (∃ g, Pool c g s []) ∧ Supervised s := by
    refine h.invariant (I := fun s => (∃ g, Pool c g s []) ∧ Supervised s)
      (fun s (hs : s.Init c) => ⟨⟨_, Pool.of_init hs⟩, .of_curr hs.2.2.2.2.1⟩) ?_
    rintro s op s' ⟨⟨g, hp⟩, hi⟩ hc hs
    exact ⟨⟨_, hp.step hs⟩, (supervised_step hready hp hi hs).mpr hc⟩
  obtain ⟨⟨g, hp⟩, hi⟩ := hinv
  exact ⟨hi, fun op s' hs => supervised_step hready hp hi hs⟩

end

/-- A command is sent and times out, all but it is cancelled, and all. -/
theorem curr_supervised_timeout : ∃ s,
    (engineSystem (twoNodes false)).ReachableWhen (fun s op => op.Supervises s) s ∧
      s.curr = none ∧ s.freeQ = [1, 0] ∧ completions s.log = [7] ∧ Supervised s := by
  obtain ⟨s, hs, hrun⟩ := System.exists_reachableWhen_of_runWhen (M := engineSystem (twoNodes false))
    (C := fun s op => op.Supervises s)
    (P := fun s => s.curr = none ∧ s.freeQ = [1, 0] ∧ completions s.log = [7])
    (l := [.getCmdNode (some 7) true, .prepared 0 getHwSpec false false, .execNextCmd, .dnldCmdToFw, .hostToCard true,
      .cmdTimeout, .cancelAllPendingCmd false, .cancelAllPendingCmd true])
    (s := fresh) (.init (fresh_init false)) (by decide +kernel)
  simp only [decide_eq_true_eq] at hrun
  exact ⟨s, hs, hrun.1, hrun.2.1, hrun.2.2, (curr_supervised rfl hs).1⟩

/-- All pending commands are cancelled while a command is outstanding : it stays, and its timer is stopped. And a command
without a response is cancelled on its way to the card : it stays, and no timer is started. -/
theorem curr_unsupervised :
    (¬∀ s, (engineSystem (twoNodes false)).Reachable s → Supervised s) ∧
      ∃ s, (engineSystem (twoNodes false)).Reachable s ∧ (s.node 0).cmd.noResp = true ∧ ¬Supervised s := by
  have hbad : ∀ s : Engine, s.main = .idle ∧ s.curr = some 0 ∧ s.timerSet = false ∧ s.timedOut = false →
      ¬Supervised s := fun s ⟨hmain, hcurr, htimer, hout⟩ h => by
    have := h hmain (by simp [hcurr])
    simp [htimer, hout] at this
  constructor
  · intro h
    obtain ⟨s, hs, hrun⟩ := System.exists_reachable_of_run (M := engineSystem (twoNodes false))
      (P := fun s => s.main = .idle ∧ s.curr = some 0 ∧ s.timerSet = false ∧ s.timedOut = false)
      (l := [.getCmdNode (some 7) true, .prepared 0 getHwSpec false false, .execNextCmd, .dnldCmdToFw, .hostToCard true,
        .cancelAllPendingCmd false])
      (s := fresh) (fresh_init false) (by decide +kernel)
    exact hbad s (of_decide_eq_true hrun) (h s hs)
  · obtain ⟨s, hs, hrun⟩ := System.exists_reachable_of_run (M := engineSystem (twoNodes false))
      (P := fun s => (s.node 0).cmd.noResp = true ∧
        s.main = .idle ∧ s.curr = some 0 ∧ s.timerSet = false ∧ s.timedOut = false)
      (l := [.getCmdNode (some 7) true, .prepared 0 ⟨cmdSoftReset, 64, false, false⟩ false false, .execNextCmd,
        .dnldCmdToFw, .cancelBssPendingCmd 0, .hostToCard true])
      (s := fresh) (fresh_init false) (by decide +kernel)
    have hrun' := of_decide_eq_true hrun
    exact ⟨s, hs, hrun'.1, hbad s hrun'.2⟩

end WlanDriver.Cmd
