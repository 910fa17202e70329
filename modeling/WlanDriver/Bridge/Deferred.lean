import WlanDriver.Lib.System
import WlanDriver.Bridge.Pending

/-!
# The parties of the deferred switch

The pending request is touched by a worker (`moal_bridge_pending_work_fn`), by whoever holds
`bridge_lifecycle_lock` (a switch request, `moal_bridge_init`, resume, suspend, deinit, discard,
forget and invalidation), by netdev notifiers, which `RTNL` serialises, and by
`moal_bridge_pending_cancel_all`, start and cleanup, which take no other lock. Each locked section
of `bridge_pending_lock` is one step; between its sections a party keeps what it captured in its
program counter, and any other party may move.

A work item never runs twice at a time, so there is one worker. There is at most one holder of
the lifecycle lock, `op`, whose program is the body of the operation. `moal_bridge_switch_iface_request`
is one program, `SwitchPc`, for the worker and for direct requests. What the steps find in the
kernel and in the devices is an `Oracle`, so every outcome is covered.

`edgeSince` and `sampled` are history, read by no step : whether a readiness edge of the
target came after the worker last looked at it, and whether the current attempt has looked.
-/

namespace WlanDriver.Bridge

open Option

/-! ## Programs -/

/-- What `moal_bridge_pending_snapshot` returns. -/
structure Capture where
  ifname : IfName
  generation : ℕ
  state : PendingState
  deriving DecidableEq

def Pending.capture (p : Pending) : Capture :=
  ⟨p.ifname, p.generation, p.state⟩

/-- The arguments of `moal_bridge_switch_iface_request`. -/
structure SwitchReq where
  ifname : IfName
  allowDefer : Bool
  expected : ℕ
  deriving DecidableEq

/-- `moal_bridge_switch_iface_request` while it holds the lifecycle lock. -/
inductive SwitchPc
  /-- The lock is taken; the owner is read next. -/
  | locked
  /-- There is an owner; the pending request is captured next. -/
  | snapshot
  /-- `RTNL` and the recheck of the generation are next. -/
  | recheck (c : Capture)
  /-- Under `RTNL`; the owner's name is compared next. -/
  | sameTarget (c : Capture)
  /-- Under `RTNL`; the target and the peer are looked at next. -/
  | sample (c : Capture) (same : Bool)
  /-- The target is not ready; `moal_bridge_pending_set` is next. -/
  | admission (c : Capture)
  | teardown (c : Capture)
  | build (c : Capture)
  | validate (c : Capture)
  | commit (c : Capture)
  | unbuild (c : Capture) (e : ℤ)
  | rollback (c : Capture) (e : ℤ)
  | rollbackValidate (c : Capture) (e : ℤ)
  | rollbackUnbuild (c : Capture) (e : ℤ)
  /-- The old bridge is valid again. -/
  | restored (c : Capture) (e : ℤ)
  /-- The rollback failed. -/
  | lost (c : Capture) (e : ℤ)
  /-- Unlocking is next. -/
  | done (ret : ℤ)
  deriving DecidableEq

/-- The holder of `bridge_lifecycle_lock`. -/
inductive OpPc
  | free
  | switch (byWorker : Bool) (r : SwitchReq) (pc : SwitchPc)
  /-- `moal_bridge_init`, or resume, about to build. -/
  | build (resume : Bool)
  /-- Built and owner; `moal_bridge_pending_kick` is next. -/
  | kick
  /-- `moal_bridge_pending_cancel_all` is next, and then possibly a teardown. -/
  | cancelAll (teardown : Bool)
  /-- `__moal_bridge_deinit_locked` of the owner is next. -/
  | teardown
  /-- `moal_bridge_pending_invalidate_handle` about to capture. -/
  | invalidate
  | invalidateClear (c : Capture)
  | unlock
  deriving DecidableEq

/-- `moal_bridge_pending_work_fn` with the part of its request that runs without the lifecycle
lock. -/
inductive WorkerPc
  | idle
  | started
  /-- The snapshot showed `WAITING`. -/
  | snapped (n : IfName) (g : ℕ)
  /-- The attempt has begun; the gates of the request and its first match are next. -/
  | attempting (n : IfName) (g : ℕ)
  /-- Waiting for the lifecycle lock. -/
  | entering (n : IfName) (g : ℕ)
  /-- The request is `op`. -/
  | inRequest (n : IfName) (g : ℕ)
  | returned (n : IfName) (g : ℕ) (ret : ℤ)
  | checked (n : IfName) (g : ℕ) (ret : ℤ)
  | settling (n : IfName) (g : ℕ) (ret : ℤ)
  deriving DecidableEq

/-- A notifier that runs under `RTNL`. -/
inductive NotifierPc
  | idle
  /-- The bridge's notifier has read `published` for a readiness edge of `n`. -/
  | readiness (n : IfName) (published : Bool)
  /-- The module's notifier has captured a request whose device is gone. -/
  | identity (c : Capture)
  deriving DecidableEq

/-- The shared state and the parties. -/
structure DeferState where
  pend : Pending
  /-- `bridge_runtime_deferred == 1`. -/
  deferred : Bool
  /-- `bridge_owner` and its bridge are set. -/
  owner : Bool
  /-- There is an instance whose `published` is set. -/
  published : Bool
  worker : WorkerPc
  op : OpPc
  notifier : NotifierPc
  edgeSince : Bool
  sampled : Bool
  deriving DecidableEq

/-! ## Steps -/

/-- What a step finds outside the modelled state. -/
structure Oracle where
  /-- `__moal_bridge_init_locked` and `moal_bridge_validate_binding_locked`. -/
  ret : ℤ := 0
  /-- The owner's interface has the requested name. -/
  same : Bool := false
  /-- `moal_bridge_find_target`. -/
  lookup : ℤ := 0
  /-- A target of the owner's name is the owner's device. -/
  identity : Bool := true
  /-- `moal_bridge_target_link_status`. -/
  link : ℤ := 0
  peerReady : Bool := true
  peerReleased : Bool := false
  /-- An interface of the invalidated handle has the pending name. -/
  hit : Bool := false
  deriving DecidableEq

/-- The end of the sampling section : the error exits of the request, the admission of a target
that is not ready, the no-op for the owner's own name, or the teardown. -/
def sampleNext (r : SwitchReq) (deferred : Bool) (c : Capture) (same : Bool) (o : Oracle) : SwitchPc :=
  if o.lookup ≠ 0 then
    .done (if r.expected ≠ 0 ∧ (o.lookup = -enodev ∨ o.lookup = -einval ∨ o.lookup = -enetdown)
      then -estale else o.lookup)
  else if same ∧ ¬o.identity then .done (if r.expected ≠ 0 then -estale else -enodev)
  else if ¬o.peerReady then
    .done (if o.link ≠ 0 then o.link
      else if o.peerReleased then (if r.expected ≠ 0 then -eagain else -enodev) else -enetdown)
  else if o.link ≠ 0 then
    if (o.link = -enetdown ∨ o.link = -enolink) ∧ ¬same ∧ r.allowDefer ∧ deferred then .admission c
    else .done o.link
  else if same then .done 0
  else .teardown c

/-- `RTNL` is held, or taken by the next step. -/
def OpPc.needsRtnl : OpPc → Bool
  | .switch _ _ (.recheck _) | .switch _ _ (.sameTarget _) | .switch _ _ (.sample _ _)
  | .switch _ _ (.build _) | .switch _ _ (.validate _) | .switch _ _ (.rollback _ _)
  | .switch _ _ (.rollbackValidate _ _) | .build _ | .invalidateClear _ => true
  | _ => false

/-- `RTNL` is held between two steps of the holder. -/
def OpPc.holdsRtnl : OpPc → Bool
  | .switch _ _ (.sameTarget _) | .switch _ _ (.sample _ _) => true
  | _ => false

/-- The result of `__moal_bridge_init_locked` : the instance guard refuses a second instance. -/
def buildRet (s : DeferState) (o : Oracle) : ℤ :=
  if s.published then -ebusy else o.ret

/-- A step of a switch request under the lifecycle lock. -/
def switchStep (s : DeferState) (w : Bool) (r : SwitchReq) (o : Oracle) : SwitchPc → DeferState
  | .locked => { s with
      op := .switch w r (if s.owner then .snapshot
        else .done (if r.expected ≠ 0 then -eagain else -enodev)) }
  | .snapshot => { s with op := .switch w r (.recheck s.pend.capture) }
  | .recheck c => { s with
      op := .switch w r
        (if r.expected ≠ 0 ∧ ¬s.pend.pendingMatches r.ifname r.expected then .done (-ecanceled)
          else .sameTarget c) }
  | .sameTarget c =>
    if o.same ∧ r.expected = 0 ∧ c.state ≠ .none then
      { s with
        pend := (s.pend.pendingClearIf c.ifname c.generation).2
        op := .switch w r (if (s.pend.pendingClearIf c.ifname c.generation).1 then .done 0
          else .sample c o.same) }
    else { s with op := .switch w r (.sample c o.same) }
  | .sample c same => { s with
      op := .switch w r (sampleNext r s.deferred c same o)
      edgeSince := s.edgeSince && !w
      sampled := s.sampled || w }
  | .admission _ => { s with
      pend := (s.pend.pendingSet r.ifname).2
      op := .switch w r (.done (if (s.pend.pendingSet r.ifname).1 = 0 then -eshutdown else 0))
      edgeSince := true }
  | .teardown c => { s with published := false, owner := false, op := .switch w r (.build c) }
  | .build c =>
    if buildRet s o = 0 then { s with published := true, op := .switch w r (.validate c) }
    else { s with op := .switch w r (.rollback c (buildRet s o)) }
  | .validate c => { s with op := .switch w r (if o.ret = 0 then .commit c else .unbuild c o.ret) }
  | .commit c => { s with
      owner := true
      pend := if r.expected = 0 ∧ c.state ≠ .none then
        (s.pend.pendingClearIf c.ifname c.generation).2 else s.pend
      op := .switch w r (.done 0) }
  | .unbuild c e => { s with published := false, op := .switch w r (.rollback c e) }
  | .rollback c e =>
    if buildRet s o = 0 then { s with published := true, op := .switch w r (.rollbackValidate c e) }
    else { s with op := .switch w r (.lost c e) }
  | .rollbackValidate c e => { s with
      op := .switch w r (if o.ret = 0 then .restored c e else .rollbackUnbuild c e) }
  | .rollbackUnbuild c e => { s with published := false, op := .switch w r (.lost c e) }
  | .restored _ e => { s with
      owner := true
      pend := if r.expected ≠ 0 then (s.pend.pendingRestoreWaiting s.deferred r.ifname r.expected).2
        else s.pend.pendingKick s.deferred
      op := .switch w r (.done e) }
  | .lost _ _ => { s with
      owner := false, pend := s.pend.pendingCancelAll, op := .switch w r (.done (-eio)) }
  | .done ret => { s with
      op := .free
      worker := if w then .returned r.ifname r.expected ret else s.worker }

/-- A step of the holder of the lifecycle lock. -/
def opNext (s : DeferState) (o : Oracle) : OpPc → Option DeferState
  | .free => none
  | .switch w r pc => some (switchStep s w r o pc)
  | .build resume =>
    if buildRet s o = 0 then some { s with published := true, owner := true, op := .kick }
    else some { s with op := if resume then .cancelAll false else .unlock }
  | .kick => some { s with pend := s.pend.pendingKick s.deferred, op := .unlock }
  | .cancelAll t => some { s with
      pend := s.pend.pendingCancelAll, op := if t then .teardown else .unlock }
  | .teardown => some { s with published := false, owner := false, op := .unlock }
  | .invalidate => some { s with
      op := if s.pend.state = .none then .unlock else .invalidateClear s.pend.capture }
  | .invalidateClear c => some { s with
      pend := if o.hit then (s.pend.pendingClearIf c.ifname c.generation).2 else s.pend
      op := .unlock }
  | .unlock => some { s with op := .free }

/-- The holder moves when `RTNL` is free for it. -/
def opStep (s : DeferState) (o : Oracle) : Option DeferState :=
  if s.op.needsRtnl ∧ s.notifier ≠ .idle then none else opNext s o s.op

/-- The operations that take the lifecycle lock. -/
inductive LockedOp
  /-- `moal_bridge_switch_iface` of `n`. -/
  | switch (n : IfName)
  | init
  | resume
  /-- `moal_bridge_deinit` and suspend of the owner. -/
  | deinit
  | discard
  /-- `moal_bridge_forget_handle`, behind its invalidation : whether the handle is the owner or
  the saved owner, and whether it is the owner. -/
  | forget (lost own : Bool)
  | invalidate
  deriving DecidableEq

/-- The first program counter of an operation. -/
def LockedOp.pc : LockedOp → OpPc
  | .switch n => .switch false ⟨n, true, 0⟩ .locked
  | .init => .build false
  | .resume => .build true
  | .deinit => .teardown
  | .discard => .cancelAll false
  | .forget lost own => if lost then .cancelAll own else .unlock
  | .invalidate => .invalidate

/-- The events of the module's notifier. -/
inductive IdentityEvent
  /-- A rename, and whether the pending name still resolves. -/
  | changename (resolves : Bool)
  | unregister (n : IfName)
  deriving DecidableEq

/-- The request's device is gone. -/
def IdentityEvent.hits (ev : IdentityEvent) (n : IfName) : Bool :=
  match ev with
  | .changename resolves => !resolves
  | .unregister m => n == m

/-- The steps of all parties. -/
inductive DeferAct
  | workStart
  | workSnapshot
  | workBegin
  /-- The request returns `e` before it holds the card semaphore, or because control is not
  ready. -/
  | workGate (e : ℤ)
  | workMatch
  | workLock
  | workCheck
  | workFinish
  | workSettle
  | lock (k : LockedOp)
  | op (o : Oracle)
  /-- `NETDEV_UP` or `NETDEV_CHANGE` of `n` reaches the bridge's notifier, if there is one. -/
  | readiness (n : IfName)
  | deliver
  | identity (ev : IdentityEvent)
  | clear
  | cancelAll
  | start
  | cleanup
  /-- `cancel_work_sync` at the end of the cleanup takes queued work off. -/
  | drainWork
  | setDeferred (b : Bool)
  deriving DecidableEq

/-- The errors after which the worker keeps the request. -/
def retains (ret : ℤ) : Bool :=
  ret == -enetdown || ret == -enolink || ret == -ebusy || ret == -eagain || ret == -erestartsys

/-- The errors after which the worker drops the request. -/
def drops (ret : ℤ) : Bool :=
  ret == -estale || ret == -einval || ret == -eopnotsupp || ret == -eio

/-- The last section of the worker, by the error of its request. -/
def settle (p : Pending) (deferred : Bool) (n : IfName) (g : ℕ) (ret : ℤ) : Pending :=
  if retains ret then (p.pendingRestoreWaiting deferred n g).2
  else if drops ret then (p.pendingClearIf n g).2
  else (p.pendingRestoreWaiting deferred n g).2

/-- One step of one party. -/
def deferStep (s : DeferState) : DeferAct → Option DeferState
  | .workStart =>
    if s.worker = .idle ∧ s.pend.workQueued then
      some { s with pend := { s.pend with workQueued := false }, worker := .started }
    else none
  | .workSnapshot =>
    match s.worker with
    | .started => some { s with
        worker := if s.pend.state = .waiting then .snapped s.pend.ifname s.pend.generation
          else .idle }
    | _ => none
  | .workBegin =>
    match s.worker with
    | .snapped n g => some { s with
        pend := (s.pend.pendingBeginAttempt n g).2
        worker := if (s.pend.pendingBeginAttempt n g).1 then .attempting n g else .idle
        sampled := false }
    | _ => none
  | .workGate e =>
    match s.worker with
    | .attempting n g => some { s with worker := .returned n g e }
    | _ => none
  | .workMatch =>
    match s.worker with
    | .attempting n g => some { s with
        worker := if g ≠ 0 ∧ ¬s.pend.pendingMatches n g then .returned n g (-ecanceled)
          else .entering n g }
    | _ => none
  | .workLock =>
    match s.worker with
    | .entering n g =>
      if s.op = .free then some { s with
        op := .switch true ⟨n, false, g⟩ .locked, worker := .inRequest n g }
      else none
    | _ => none
  | .workCheck =>
    match s.worker with
    | .returned n g ret => some { s with
        worker := if s.pend.pendingMatches n g then .checked n g ret else .idle }
    | _ => none
  | .workFinish =>
    match s.worker with
    | .checked n g ret =>
      if ret = 0 then some { s with pend := (s.pend.pendingClearIf n g).2, worker := .idle }
      else some { s with
        worker := if s.pend.capture = ⟨n, g, .waiting⟩ then .idle else .settling n g ret }
    | _ => none
  | .workSettle =>
    match s.worker with
    | .settling n g ret => some { s with pend := settle s.pend s.deferred n g ret, worker := .idle }
    | _ => none
  | .lock k =>
    if s.op = .free ∧ k ≠ .switch .empty then some { s with op := k.pc } else none
  | .op o => opStep s o
  | .readiness n =>
    if s.notifier = .idle ∧ ¬s.op.holdsRtnl then
      some { s with notifier := .readiness n s.published }
    else none
  | .deliver =>
    match s.notifier with
    | .readiness n pub => some { s with
        pend := s.pend.pendingReadiness s.deferred n pub
        notifier := .idle
        edgeSince := s.edgeSince || decide (s.pend.state ≠ .none ∧ s.pend.ifname = n) }
    | _ => none
  | .identity ev =>
    if s.notifier = .idle ∧ ¬s.op.holdsRtnl then
      if s.pend.eventsEnabled ∧ s.deferred ∧ s.pend.state ≠ .none ∧ ev.hits s.pend.ifname then
        some { s with notifier := .identity s.pend.capture }
      else some s
    else none
  | .clear =>
    match s.notifier with
    | .identity c => some { s with
        pend := (s.pend.pendingClearIf c.ifname c.generation).2, notifier := .idle }
    | _ => none
  | .cancelAll => some { s with pend := s.pend.pendingCancelAll }
  | .start => some { s with pend := s.pend.pendingStart }
  | .cleanup => some { s with pend := s.pend.pendingCleanup }
  | .drainWork =>
    if s.pend.eventsEnabled then none
    else some { s with pend := { s.pend with workQueued := false } }
  | .setDeferred b => some { s with deferred := b }

/-- A loaded module : nothing is pending and nobody moves. -/
def deferInit : DeferState where
  pend := .zero
  deferred := false
  owner := false
  published := false
  worker := .idle
  op := .free
  notifier := .idle
  edgeSince := false
  sampled := false

def deferSystem : System DeferState DeferAct where
  init s := s = deferInit
  step := deferStep

/-! ## Captures -/

/-- The attempt the worker is in : what it captured and began. -/
def WorkerPc.attempt? : WorkerPc → Option (IfName × ℕ)
  | .attempting n g | .entering n g | .inRequest n g => some (n, g)
  | .returned n g _ | .checked n g _ | .settling n g _ => some (n, g)
  | .idle | .started | .snapped _ _ => none

/-- The capture a request carries. -/
def SwitchPc.capture? : SwitchPc → Option Capture
  | .recheck c | .sameTarget c | .sample c _ | .admission c | .teardown c | .build c | .validate c
  | .commit c | .unbuild c _ | .rollback c _ | .rollbackValidate c _ | .rollbackUnbuild c _
  | .restored c _ | .lost c _ => some c
  | .locked | .snapshot | .done _ => none

def OpPc.capture? : OpPc → Option Capture
  | .switch _ _ pc => pc.capture?
  | .invalidateClear c => some c
  | _ => none

/-- The request has passed the recheck of its generation. -/
def SwitchPc.rechecked : SwitchPc → Bool
  | .locked | .snapshot | .recheck _ | .done _ => false
  | _ => true

/-- What the next section of the holder, if it clears, restores or cancels, was captured as. -/
def OpPc.captured : OpPc → Option (IfName × ℕ)
  | .switch _ _ (.sameTarget c) | .switch _ _ (.commit c) => some (c.ifname, c.generation)
  | .switch _ r (.restored _ _) => if r.expected ≠ 0 then some (r.ifname, r.expected) else none
  | .switch _ r (.lost c _) =>
    if r.expected ≠ 0 then some (r.ifname, r.expected) else some (c.ifname, c.generation)
  | .invalidateClear c => some (c.ifname, c.generation)
  | _ => none

/-- The name and the generation that the party of a step captured earlier and now acts on. -/
def captured (s : DeferState) : DeferAct → Option (IfName × ℕ)
  | .workBegin =>
    match s.worker with
    | .snapped n g => some (n, g)
    | _ => none
  | .workFinish | .workSettle => s.worker.attempt?
  | .op _ => s.op.captured
  | .clear =>
    match s.notifier with
    | .identity c => some (c.ifname, c.generation)
    | _ => none
  | _ => none

/-! ## What a step does to the request -/

/-- The locked sections, with the party that runs them. -/
inductive PendStep (s : DeferState) (a : DeferAct) : Pending → Prop
  | skip : PendStep s a s.pend
  | dequeue : PendStep s a { s.pend with workQueued := false }
  | begin {n : IfName} {g : ℕ} (ha : a = .workBegin) (hc : captured s a = some (n, g)) :
      PendStep s a (s.pend.pendingBeginAttempt n g).2
  | clearIf {n : IfName} {g : ℕ} (hc : captured s a = some (n, g)) :
      PendStep s a (s.pend.pendingClearIf n g).2
  | restore {n : IfName} {g : ℕ} (hc : captured s a = some (n, g))
      (ha : a = .workSettle ∨ ∃ o w r c e, a = .op o ∧ s.op = .switch w r (.restored c e)) :
      PendStep s a (s.pend.pendingRestoreWaiting s.deferred n g).2
  | lost {o : Oracle} {w : Bool} {r : SwitchReq} {c : Capture} {e : ℤ} (ha : a = .op o)
      (hop : s.op = .switch w r (.lost c e)) : PendStep s a s.pend.pendingCancelAll
  | cancelAll (hc : captured s a = none) : PendStep s a s.pend.pendingCancelAll
  | admission {o : Oracle} {w : Bool} {r : SwitchReq} {c : Capture} (ha : a = .op o)
      (hop : s.op = .switch w r (.admission c)) (hc : captured s a = none) :
      PendStep s a (s.pend.pendingSet r.ifname).2
  | kick : PendStep s a (s.pend.pendingKick s.deferred)
  | readiness (n : IfName) (pub : Bool) : PendStep s a (s.pend.pendingReadiness s.deferred n pub)
  | start : PendStep s a s.pend.pendingStart
  | cleanup (ha : a = .cleanup) : PendStep s a s.pend.pendingCleanup

theorem settle_cases (p : Pending) (deferred : Bool) (n : IfName) (g : ℕ) (ret : ℤ) :
    settle p deferred n g ret = (p.pendingRestoreWaiting deferred n g).2 ∨
      settle p deferred n g ret = (p.pendingClearIf n g).2 := by
  unfold settle
  split_ifs
  · exact .inl rfl
  · exact .inr rfl
  · exact .inl rfl

theorem switchStep_pend {s : DeferState} {w : Bool} {r : SwitchReq} {pc : SwitchPc} (o : Oracle)
    (hop : s.op = .switch w r pc) : PendStep s (.op o) (switchStep s w r o pc).pend := by
  cases pc with
  | sameTarget c =>
    simp only [switchStep]
    split
    · exact .clearIf (by simp [captured, hop, OpPc.captured])
    · exact .skip
  | admission c => exact .admission rfl hop (by simp [captured, hop, OpPc.captured])
  | build c | rollback c e =>
    simp only [switchStep]
    split_ifs
    · exact .skip
    · exact .skip
  | commit c =>
    simp only [switchStep]
    split_ifs
    · exact .clearIf (by simp [captured, hop, OpPc.captured])
    · exact .skip
  | restored c e =>
    simp only [switchStep]
    split_ifs with he
    · exact .restore (by simp [captured, hop, OpPc.captured, he]) (.inr ⟨o, w, r, c, e, rfl, hop⟩)
    · exact .kick
  | lost c e => exact .lost rfl hop
  | _ => exact .skip

theorem opStep_pend {s s' : DeferState} {o : Oracle} (h : opStep s o = some s') :
    PendStep s (.op o) s'.pend := by
  rw [opStep, ite_none_left_eq_some] at h
  obtain ⟨-, h⟩ := h
  cases hop : s.op with
  | switch w r pc =>
    obtain rfl : switchStep s w r o pc = s' := by simpa [hop, opNext] using h
    exact switchStep_pend o hop
  | build resume =>
    simp only [hop, opNext] at h
    split_ifs at h <;> cases h <;> exact .skip
  | invalidateClear c =>
    rw [hop] at h
    cases h
    dsimp only
    split_ifs
    · exact .clearIf (by simp [captured, hop, OpPc.captured])
    · exact .skip
  | cancelAll t =>
    rw [hop] at h
    cases h
    exact .cancelAll (by simp [captured, hop, OpPc.captured])
  | kick =>
    rw [hop] at h
    cases h
    exact .kick
  | free => simp [hop, opNext] at h
  | teardown | invalidate | unlock =>
    rw [hop] at h
    cases h
    exact .skip

/-- Every step runs at most one locked section. -/
theorem deferStep_pend {s s' : DeferState} {a : DeferAct} (h : deferStep s a = some s') :
    PendStep s a s'.pend := by
  cases a with
  | workStart =>
    simp only [deferStep, ite_none_right_eq_some] at h
    cases h.2
    exact .dequeue
  | workSnapshot | workGate e | workMatch | workCheck =>
    simp only [deferStep] at h
    split at h <;> cases h
    exact .skip
  | workBegin =>
    simp only [deferStep] at h
    split at h <;> cases h
    rename_i n g hw
    exact .begin rfl (by simp [captured, hw])
  | workLock =>
    simp only [deferStep] at h
    split at h
    · split_ifs at h
      cases h
      exact .skip
    · cases h
  | workFinish =>
    simp only [deferStep] at h
    split at h
    · rename_i n g ret hw
      split at h
      · cases h
        exact .clearIf (by simp [captured, hw, WorkerPc.attempt?])
      · cases h
        exact .skip
    · cases h
  | workSettle =>
    simp only [deferStep] at h
    split at h <;> cases h
    rename_i n g ret hw
    have hc : captured s .workSettle = some (n, g) := by simp [captured, hw, WorkerPc.attempt?]
    rcases settle_cases s.pend s.deferred n g ret with he | he
    · exact he ▸ .restore hc (.inl rfl)
    · exact he ▸ .clearIf hc
  | lock k =>
    simp only [deferStep, ite_none_right_eq_some] at h
    cases h.2
    exact .skip
  | op o => exact opStep_pend h
  | readiness n =>
    simp only [deferStep, ite_none_right_eq_some] at h
    cases h.2
    exact .skip
  | deliver =>
    simp only [deferStep] at h
    split at h <;> cases h
    exact .readiness _ _
  | identity ev =>
    simp only [deferStep] at h
    split_ifs at h <;> cases h <;> exact .skip
  | clear =>
    simp only [deferStep] at h
    split at h <;> cases h
    rename_i c hn
    exact .clearIf (by simp [captured, hn])
  | cancelAll =>
    cases h
    exact .cancelAll rfl
  | start =>
    cases h
    exact .start
  | cleanup =>
    cases h
    exact .cleanup rfl
  | drainWork =>
    simp only [deferStep, ite_none_left_eq_some] at h
    cases h.2
    exact .dequeue
  | setDeferred b =>
    cases h
    exact .skip

/-! ## How the program counters move -/

/-- The worker and the holder of the lifecycle lock after a step. -/
inductive PcStep (s : DeferState) : DeferAct → WorkerPc → OpPc → Prop
  | start (hw : s.worker = .idle) : PcStep s .workStart .started s.op
  | snapshot (hw : s.worker = .started) (hp : s.pend.state = .waiting) :
      PcStep s .workSnapshot (.snapped s.pend.ifname s.pend.generation) s.op
  | snapshotIdle (hw : s.worker = .started) (hp : s.pend.state ≠ .waiting) :
      PcStep s .workSnapshot .idle s.op
  | begin {n : IfName} {g : ℕ} (hw : s.worker = .snapped n g)
      (hp : (s.pend.pendingBeginAttempt n g).1 = true) :
      PcStep s .workBegin (.attempting n g) s.op
  | beginFail {n : IfName} {g : ℕ} (hw : s.worker = .snapped n g)
      (hp : (s.pend.pendingBeginAttempt n g).1 = false) : PcStep s .workBegin .idle s.op
  | gate {n : IfName} {g : ℕ} {e : ℤ} (hw : s.worker = .attempting n g) :
      PcStep s (.workGate e) (.returned n g e) s.op
  | mismatch {n : IfName} {g : ℕ} (hw : s.worker = .attempting n g)
      (hp : s.pend.pendingMatches n g = false) :
      PcStep s .workMatch (.returned n g (-ecanceled)) s.op
  | matched {n : IfName} {g : ℕ} (hw : s.worker = .attempting n g) :
      PcStep s .workMatch (.entering n g) s.op
  | enter {n : IfName} {g : ℕ} (hw : s.worker = .entering n g) (hop : s.op = .free) :
      PcStep s .workLock (.inRequest n g) (.switch true ⟨n, false, g⟩ .locked)
  | check {n : IfName} {g : ℕ} {ret : ℤ} (hw : s.worker = .returned n g ret) :
      PcStep s .workCheck (.checked n g ret) s.op
  | checkFail {n : IfName} {g : ℕ} {ret : ℤ} (hw : s.worker = .returned n g ret)
      (hp : s.pend.pendingMatches n g = false) : PcStep s .workCheck .idle s.op
  | finish {n : IfName} {g : ℕ} (hw : s.worker = .checked n g 0) : PcStep s .workFinish .idle s.op
  | finishWaiting {n : IfName} {g : ℕ} {ret : ℤ} (hw : s.worker = .checked n g ret) (hret : ret ≠ 0)
      (hp : s.pend.state = .waiting) : PcStep s .workFinish .idle s.op
  | finishNot {n : IfName} {g : ℕ} {ret : ℤ} (hw : s.worker = .checked n g ret) (hret : ret ≠ 0) :
      PcStep s .workFinish (.settling n g ret) s.op
  | settle {n : IfName} {g : ℕ} {ret : ℤ} (hw : s.worker = .settling n g ret) :
      PcStep s .workSettle .idle s.op
  | acquire {k : LockedOp} (hop : s.op = .free) (hk : k ≠ .switch .empty) :
      PcStep s (.lock k) s.worker k.pc
  | switch {o : Oracle} {w : Bool} {r : SwitchReq} {pc : SwitchPc} (hop : s.op = .switch w r pc) :
      PcStep s (.op o) (switchStep s w r o pc).worker (switchStep s w r o pc).op
  | op {o : Oracle} {pc : OpPc} (hop : ∀ w r q, s.op ≠ .switch w r q)
      (hpc : ∀ w r q, pc ≠ .switch w r q) (hc : ∀ c, pc.capture? = some c → c = s.pend.capture) :
      PcStep s (.op o) s.worker pc
  | other {a : DeferAct} (ha : ∀ o, a ≠ .op o) (hb : a ≠ .workBegin) : PcStep s a s.worker s.op

theorem opStep_pc {s s' : DeferState} {o : Oracle} (h : opStep s o = some s') :
    PcStep s (.op o) s'.worker s'.op := by
  rw [opStep, ite_none_left_eq_some] at h
  obtain ⟨-, h⟩ := h
  cases hop : s.op with
  | switch w r pc =>
    obtain rfl : switchStep s w r o pc = s' := by simpa [hop, opNext] using h
    exact .switch hop
  | free => simp [hop, opNext] at h
  | build resume =>
    simp only [hop, opNext] at h
    split_ifs at h <;> cases h
    all_goals exact .op (by simp [hop]) (by simp) (by simp [OpPc.capture?])
  | cancelAll t =>
    rw [hop] at h
    cases h
    dsimp only
    split_ifs
    all_goals exact .op (by simp [hop]) (by simp) (by simp [OpPc.capture?])
  | invalidate =>
    rw [hop] at h
    cases h
    dsimp only
    split_ifs
    · exact .op (by simp [hop]) (by simp) (by simp [OpPc.capture?])
    · exact .op (by simp [hop]) (by simp) (fun c hc => by simpa [OpPc.capture?] using hc.symm)
  | kick | teardown | invalidateClear c | unlock =>
    rw [hop] at h
    cases h
    exact .op (by simp [hop]) (by simp) (by simp [OpPc.capture?])

theorem deferStep_pc {s s' : DeferState} {a : DeferAct} (h : deferStep s a = some s') :
    PcStep s a s'.worker s'.op := by
  cases a with
  | workStart =>
    simp only [deferStep, ite_none_right_eq_some] at h
    cases h.2
    exact .start h.1.1
  | workSnapshot =>
    simp only [deferStep] at h
    split at h <;> cases h
    dsimp only
    split_ifs with hp
    · exact .snapshot ‹_› hp
    · exact .snapshotIdle ‹_› hp
  | workBegin =>
    simp only [deferStep] at h
    split at h <;> cases h
    dsimp only
    split_ifs with hp
    · exact .begin ‹_› hp
    · exact .beginFail ‹_› (by simpa using hp)
  | workGate e =>
    simp only [deferStep] at h
    split at h <;> cases h
    exact .gate ‹_›
  | workMatch =>
    simp only [deferStep] at h
    split at h <;> cases h
    dsimp only
    split_ifs with hp
    · exact .mismatch ‹_› (by simpa using hp.2)
    · exact .matched ‹_›
  | workLock =>
    simp only [deferStep] at h
    split at h
    · split_ifs at h
      cases h
      exact .enter ‹_› ‹_›
    · cases h
  | workCheck =>
    simp only [deferStep] at h
    split at h <;> cases h
    dsimp only
    split_ifs with hp
    · exact .check ‹_›
    · exact .checkFail ‹_› (by simpa using hp)
  | workFinish =>
    simp only [deferStep] at h
    split at h
    · rename_i n g ret hw
      split at h
      · rename_i hret
        cases h
        exact .finish (hret ▸ hw)
      · rename_i hret
        cases h
        dsimp only
        split_ifs with hp
        · exact .finishWaiting hw hret (congrArg Capture.state hp)
        · exact .finishNot hw hret
    · cases h
  | workSettle =>
    simp only [deferStep] at h
    split at h <;> cases h
    exact .settle ‹_›
  | lock k =>
    simp only [deferStep, ite_none_right_eq_some] at h
    cases h.2
    exact .acquire h.1.1 h.1.2
  | op o => exact opStep_pc h
  | readiness n =>
    simp only [deferStep, ite_none_right_eq_some] at h
    cases h.2
    exact .other (by simp) (by simp)
  | deliver | clear =>
    simp only [deferStep] at h
    split at h <;> cases h
    exact .other (by simp) (by simp)
  | identity ev =>
    simp only [deferStep] at h
    split_ifs at h <;> cases h <;> exact .other (by simp) (by simp)
  | cancelAll | start | cleanup | setDeferred b =>
    cases h
    exact .other (by simp) (by simp)
  | drainWork =>
    simp only [deferStep, ite_none_left_eq_some] at h
    cases h.2
    exact .other (by simp) (by simp)

end WlanDriver.Bridge
