import Mathlib.Algebra.Group.Prod
import WlanDriver.Bridge.Lifecycle

/-!
# The switch transaction

`moal_bridge_switch_iface_request` moves the bridge to another interface. Up to the teardown of the old
bridge it only looks; from there on it builds and validates the target, and if that fails it builds and
validates the old binding again. `bindLocked` is the step that both halves share : a build, the
validation behind it, and the teardown of what does not validate.

A request ends in exactly one of four ways (`switch_outcome`) : it leaves the bridge alone, because it
fails, is deferred or has nothing to do; the target owns a valid bridge with the old peer; the old
owner has a valid bridge again; or there is no bridge at all. The last three are told apart by the
counters, which move with the outcome and never otherwise.
-/

namespace WlanDriver.Bridge

open Function

/-! ## Targets -/

/-- `struct moal_bridge_target`, with its pointers set. -/
structure Target where
  handle : Handle
  priv : Priv
  dev : Dev
  bssIndex : ℕ
  deriving DecidableEq

def maxMlanAdapter : ℕ := 4

/-- The interfaces of the name `n`, in the order of the search. -/
def candidates (w : World) (g : Slots) (n : IfName) : List Target :=
  (List.range maxMlanAdapter).flatMap fun i =>
    match w.mHandle i with
    | none => []
    | some h => (List.range (min (w.privNum h) mlanMaxBssNum)).filterMap fun j =>
      (g.priv h j).bind fun p => (w.netdev p).bind fun d =>
        if w.name d = n then some ⟨h, p, d, j⟩ else none

/-- `moal_bridge_find_target`. The first interface of the name decides. -/
def findTarget (w : World) (g : Slots) (n : IfName) : Except ℤ Target :=
  if n = .empty then .error (-einval)
  else
    match candidates w g n with
    | [] => .error (-enodev)
    | t :: _ =>
      if ¬w.sta t.priv then .error (-einval)
      else if (w.status t.handle).busy then .error (-ebusy)
      else if ¬w.registered t.dev ∨ ¬w.present t.dev then .error (-enetdown)
      else .ok t

/-- `moal_bridge_target_link_status`. -/
def targetLinkStatus (w : World) (t : Target) : ℤ :=
  if ¬w.running t.dev then -enetdown
  else if ¬w.mediaConnected t.priv then -enolink
  else if ¬w.carrier t.dev then -enetdown
  else 0

/-- `moal_bridge_validate_binding_locked`; a target with a missing pointer is `none`. -/
def validateBindingLocked (w : World) (g : Slots) (t : Option Target) (peer : Dev) : ℤ :=
  match t with
  | none => -enodev
  | some t =>
    if (w.status t.handle).busy then -ebusy
    else if mlanMaxBssNum ≤ t.bssIndex ∨ w.netdev t.priv ≠ some t.dev ∨
        g.priv t.handle t.bssIndex ≠ some t.priv then -enodev
    else
      match g.owner, g.bridge t.handle with
      | none, some br =>
        if br.wlanDev ≠ t.dev ∨ br.peerDev ≠ peer ∨ br.peerReleased then -ebusy
        else if ¬w.registered t.dev ∨ ¬w.present t.dev then -enetdown
        else if targetLinkStatus w t ≠ 0 then targetLinkStatus w t
        else if ¬w.registered peer ∨ ¬w.present peer ∨ ¬w.devReady peer then -enetdown
        else if ¬br.published ∨ ¬br.active then -ebusy
        else 0
      | _, _ => -ebusy

/-! ## Building and validating -/

/-- What the build and the validation of one binding meet. -/
structure BindEnv where
  /-- The QA build injects a failure in place of the build. -/
  fault : Bool := false
  init : InitEnv
  /-- At the validation. -/
  check : World := init.lookup
  undo : DeinitEnv := ⟨[], init.lookup⟩

/-- The build of a binding, its validation, and the teardown of a bridge that is not valid. -/
def bindLocked (e : BindEnv) (a : InitArgs) (t : Option Target) (peer : Dev) (g : Global) :
    ℤ × Global :=
  let r := if e.fault then (-enomem, g) else initLocked e.init a g
  if r.1 ≠ 0 then r
  else
    let ret := validateBindingLocked e.check r.2.toSlots t peer
    if ret ≠ 0 then (ret, deinitLocked e.undo r.2 a.handle) else (0, r.2)

/-! ## The request -/

/-- What a switch request meets on its way. -/
structure SwitchEnv where
  /-- `bridge_runtime_control_ready`. -/
  controlReady : Bool := true
  /-- `bridge_runtime_switch == 1`. -/
  switchEnabled : Bool := true
  /-- `AddRemoveCardSem` was taken. -/
  semaphore : Bool := true
  /-- `bridge_runtime_control_ready` behind the semaphore. -/
  stillReady : Bool := true
  /-- Under `RTNL`, before the teardown. -/
  look : World
  /-- The peer was unregistered between that and its error number. -/
  releasedSince : Bool := false
  down : DeinitEnv := ⟨[], look⟩
  target : BindEnv
  rollback : BindEnv

/-- The arguments of the build on the target : the exact old peer and the old policy. -/
def targetArgs (br : Instance) (t : Target) : InitArgs where
  handle := t.handle
  peerName := br.peerName
  peerIdentity := some br.peerDev
  wlanBssIdx := t.bssIndex
  keepaliveMs := br.keepaliveMs
  keepaliveIdleMs := br.keepaliveIdleMs

/-- The arguments of the rollback. -/
def rollbackArgs (br : Instance) (h : Handle) (idx : ℤ) : InitArgs where
  handle := h
  peerName := br.peerName
  peerIdentity := some br.peerDev
  wlanBssIdx := idx
  keepaliveMs := br.keepaliveMs
  keepaliveIdleMs := br.keepaliveIdleMs

def rollbackTarget (w : World) (g : Slots) (h : Handle) (idx : ℤ) : Option Target :=
  (g.privAt h idx).bind fun p => (w.netdev p).map fun d => ⟨h, p, d, idx.toNat⟩

/-- The state behind the teardown of the old bridge. -/
def tornDown (e : SwitchEnv) (g : Global) (h : Handle) : Global :=
  { deinitLocked e.down g h with owner := none }

/-- The attempt at the target. -/
def bindTarget (e : SwitchEnv) (g : Global) (h : Handle) (br : Instance) (t : Target) :
    ℤ × Global :=
  bindLocked e.target (targetArgs br t) (some t) br.peerDev (tornDown e g h)

/-- The attempt at the old binding, behind a failed one at the target. -/
def bindOld (e : SwitchEnv) (g : Global) (h : Handle) (br : Instance) (idx : ℤ) : ℤ × Global :=
  bindLocked e.rollback (rollbackArgs br h idx) (rollbackTarget e.rollback.check g.toSlots h idx)
    br.peerDev g

/-- The transaction, from the teardown on. `p` is the request that was pending before. -/
def transact (e : SwitchEnv) (g : Global) (h : Handle) (br : Instance) (t : Target) (n : IfName)
    (expected : ℕ) (p : Pending) : ℤ × Global :=
  let r := bindTarget e g h br t
  if r.1 = 0 then
    (0, { r.2 with
      owner := some t.handle
      switchOk := r.2.switchOk + 1
      pend := if expected = 0 ∧ p.state ≠ .none then
        (r.2.pend.pendingClearIf p.ifname p.generation).2 else r.2.pend })
  else
    let r' := bindOld e r.2 h br (g.effIdx h)
    if r'.1 = 0 then
      (r.1, { r'.2 with
        owner := some h
        pend := if expected ≠ 0 then
          (r'.2.pend.pendingRestoreWaiting e.rollback.check.deferred n expected).2
          else r'.2.pend.pendingKick e.rollback.check.deferred
        switchFail := r'.2.switchFail + 1
        rollbackOk := r'.2.rollbackOk + 1 })
    else
      (-eio, { r'.2 with
        owner := none
        pend := r'.2.pend.pendingCancelAll
        switchFail := r'.2.switchFail + 1
        rollbackFail := r'.2.rollbackFail + 1 })

/-- The peer can be pinned for the transaction. -/
def peerUsable (w : World) (br : Instance) : Bool :=
  !br.peerReleased && br.active && w.registered br.peerDev && w.present br.peerDev &&
    w.devReady br.peerDev

/-- The reference of the peer that a transaction holds. -/
def Global.pin (g : Global) (d : Dev) : Global :=
  { g with kernel := g.kernel.acquire (.ref d) }

def Global.unpin (g : Global) (d : Dev) : Global :=
  { g with kernel := g.kernel.release (.ref d) }

/-- The part of the request that holds a reference of the peer. -/
def switchPinned (e : SwitchEnv) (g : Global) (h : Handle) (br : Instance) (t : Target)
    (n : IfName) (allowDefer : Bool) (expected : ℕ) (same : Bool) : ℤ × Global :=
  if targetLinkStatus e.look t ≠ 0 then
    if (targetLinkStatus e.look t = -enetdown ∨ targetLinkStatus e.look t = -enolink) ∧ ¬same ∧
        allowDefer ∧ e.look.deferred then
      if (g.pend.pendingSet n).1 = 0 then (-eshutdown, g)
      else (0, { g with pend := (g.pend.pendingSet n).2 })
    else (targetLinkStatus e.look t, g)
  else if same then (0, g)
  else transact e g h br t n expected g.pend

/-- The request under the lifecycle lock. -/
def switchLocked (e : SwitchEnv) (g : Global) (h : Handle) (br : Instance) (n : IfName)
    (allowDefer : Bool) (expected : ℕ) : ℤ × Global :=
  let same : Bool := e.look.name br.wlanDev == n
  if expected ≠ 0 ∧ ¬g.pend.pendingMatches n expected then (-ecanceled, g)
  else if same ∧ expected = 0 ∧ g.pend.state ≠ .none ∧
      (g.pend.pendingClearIf g.pend.ifname g.pend.generation).1 then
    (0, { g with pend := (g.pend.pendingClearIf g.pend.ifname g.pend.generation).2 })
  else
    match findTarget e.look g.toSlots n with
    | .error ret =>
      (if expected ≠ 0 ∧ (ret = -enodev ∨ ret = -einval ∨ ret = -enetdown) then -estale else ret, g)
    | .ok t =>
      if same ∧ (t.handle ≠ h ∨ t.dev ≠ br.wlanDev) then
        (if expected ≠ 0 then -estale else -enodev, g)
      else if ¬peerUsable e.look br then
        (if targetLinkStatus e.look t ≠ 0 then targetLinkStatus e.look t
          else if br.peerReleased ∨ e.releasedSince then
            (if expected ≠ 0 then -eagain else -enodev)
          else -enetdown, g)
      else
        let r := switchPinned e (g.pin br.peerDev) h br t n allowDefer expected same
        (r.1, r.2.unpin br.peerDev)

/-- `moal_bridge_switch_iface_request`. -/
def switchIfaceRequest (e : SwitchEnv) (g : Global) (n : IfName) (allowDefer : Bool)
    (expected : ℕ) : ℤ × Global :=
  if n = .empty then (-einval, g)
  else if ¬e.controlReady then (-eagain, g)
  else if ¬e.switchEnabled then (-eopnotsupp, g)
  else if ¬e.semaphore then (-erestartsys, g)
  else if ¬e.stillReady then (-eshutdown, g)
  else if expected ≠ 0 ∧ ¬g.pend.pendingMatches n expected then (-ecanceled, g)
  else
    match g.owner with
    | none => (if expected ≠ 0 then -eagain else -enodev, g)
    | some h =>
      match g.bridge h with
      | none => (if expected ≠ 0 then -eagain else -enodev, g)
      | some br => switchLocked e g h br n allowDefer expected

/-! ## How a binding ends -/

section Bind

variable {e : BindEnv} {a : InitArgs} {t : Option Target} {peer : Dev} {g : Global}

/-- A binding that passes the validation. -/
structure Instance.ValidFor (br : Instance) (t : Target) (peer : Dev) : Prop where
  wlanDev : br.wlanDev = t.dev
  peerDev : br.peerDev = peer
  published : br.published = true
  active : br.active = true

theorem validFor_of_validate {w : World} {g : Slots}
    (h : validateBindingLocked w g t peer = 0) :
    ∃ t' br, t = some t' ∧ g.bridge t'.handle = some br ∧ br.ValidFor t' peer := by
  unfold validateBindingLocked at h
  split at h
  · exact absurd h (by decide)
  rename_i t'
  split at h
  · exact absurd h (by decide)
  split at h
  · exact absurd h (by decide)
  split at h
  · rename_i br _ hbr
    split_ifs at h with h1 h2 h3 h4 h5
    · exact absurd h (by decide)
    · exact absurd h (by decide)
    · exact absurd h h3
    · exact absurd h (by decide)
    · exact absurd h (by decide)
    · simp only [not_or, not_not] at h1 h5
      exact ⟨t', br, rfl, hbr, h1.1, h1.2.1, h5.1, h5.2⟩
  · exact absurd h (by decide)

/-- Of a bridge that is taken down right behind its build only the edges it saw remain. -/
theorem Slots.Vacant.drop_add (hg : g.Vacant) (h : Handle) (idx : ℤ) (br : Instance)
    (p : Pending) : (g.addBridge h idx br p).dropBridge h br = { g with pend := p } := by
  have hb : update g.bridge h none = g.bridge := by
    rw [update_eq_self_iff, hg.bridge]
  have hi : update g.effIdx h (-1) = g.effIdx := by
    rw [update_eq_self_iff, hg.effIdx]
  simp only [Global.dropBridge, Global.addBridge, update_idem, hb, hi,
    add_sub_cancel_right, ← hg.instanceActive]

/-- How the build and the validation of a binding end where there is no bridge. -/
inductive BindResult (e : BindEnv) (a : InitArgs) (t : Option Target) (peer : Dev) (g : Global) :
    ℤ × Global → Prop
  /-- Nothing was built. -/
  | unbuilt {ret : ℤ} (hret : ret ≠ 0) : BindResult e a t peer g (ret, g)
  /-- What was built did not pass, and went again. -/
  | undone {ret : ℤ} (hret : ret ≠ 0) :
      BindResult e a t peer g (ret, { g with pend := e.init.livePend g.pend })
  | bound {br : Instance} {t' : Target} (ht : t = some t') (hbr : br.BuiltBy e.init a g)
      (hv : br.ValidFor t' peer) :
      BindResult e a t peer g
        (0, g.addBridge a.handle a.wlanBssIdx br (e.init.livePend g.pend))

theorem bindLocked_result (e : BindEnv) (peer : Dev) (hg : g.Vacant)
    (ht : ∀ t', t = some t' → t'.handle = a.handle) :
    BindResult e a t peer g (bindLocked e a t peer g) := by
  unfold bindLocked
  by_cases hf : e.fault = true
  · rw [if_pos hf]
    exact .unbuilt (by decide)
  rw [if_neg hf]
  have hres := initLocked_result e.init a g
  generalize initLocked e.init a g = r at hres
  cases hres with
  | busy hb => simp [hg.instanceActive] at hb
  | failed _ hret =>
    dsimp only
    rw [if_pos hret]
    exact .unbuilt hret
  | @built br _ hbr =>
    dsimp only
    rw [if_neg (not_not.mpr rfl)]
    by_cases hv : validateBindingLocked e.check
        (g.addBridge a.handle a.wlanBssIdx br (e.init.livePend g.pend)).toSlots t peer = 0
    · rw [if_neg (not_not.mpr hv)]
      obtain ⟨t', br', rfl, hbr', hvalid⟩ := validFor_of_validate hv
      simp only [Global.addBridge, ht t' rfl, update_self, Option.some.injEq] at hbr'
      exact .bound rfl hbr (hbr' ▸ hvalid)
    · have hup : (g.addBridge a.handle a.wlanBssIdx br (e.init.livePend g.pend)).bridge a.handle =
          some br := by simp [Global.addBridge]
      rw [if_pos hv, deinitLocked_eq hup, hg.drop_add]
      exact .undone hv

end Bind

/-! ## How a request ends -/

section Request

variable {e : SwitchEnv} {g : Global} {h : Handle} {br : Instance} {t : Target} {n : IfName}
  {allowDefer : Bool} {expected : ℕ}

theorem Instance.BuiltBy.congr {br : Instance} {e : InitEnv} {a : InitArgs} {g g' : Global}
    (hb : br.BuiltBy e a g) (hg : g'.priv = g.priv) : br.BuiltBy e a g' where
  handle := hb.handle
  wlanPriv := by
    rw [Slots.privAt, hg]
    exact hb.wlanPriv
  wlanDev := hb.wlanDev
  peerDev := hb.peerDev
  keepaliveMs := hb.keepaliveMs
  keepaliveIdleMs := hb.keepaliveIdleMs
  published := hb.published

/-- The state without the bridge and without an owner. -/
def Global.vacate (g : Global) (h : Handle) (br : Instance) : Global :=
  { g.dropBridge h br with owner := none }

/-- How a transaction ends. -/
inductive TransactResult (e : SwitchEnv) (g : Global) (h : Handle) (br : Instance) (t : Target) :
    ℤ × Global → Prop
  | switched {br' : Instance} {p : Pending} (hbr : br'.BuiltBy e.target.init (targetArgs br t) g)
      (hv : br'.ValidFor t br.peerDev) :
      TransactResult e g h br t (0, { (g.vacate h br).addBridge t.handle t.bssIndex br' p with
        owner := some t.handle
        switchOk := g.switchOk + 1 })
  | rolledBack {ret : ℤ} {br' : Instance} {p : Pending} (hret : ret ≠ 0)
      (herr : ret = (bindTarget e g h br t).1)
      (hbr : br'.BuiltBy e.rollback.init (rollbackArgs br h (g.effIdx h)) g)
      (hpub : br'.published = true) (hact : br'.active = true) (hpeer : br'.peerDev = br.peerDev) :
      TransactResult e g h br t (ret, { (g.vacate h br).addBridge h (g.effIdx h) br' p with
        owner := some h
        switchFail := g.switchFail + 1
        rollbackOk := g.rollbackOk + 1 })
  | lost {p : Pending} (hp : p.state = .none) :
      TransactResult e g h br t (-eio, { g.vacate h br with
        pend := p
        switchFail := g.switchFail + 1
        rollbackFail := g.rollbackFail + 1 })

theorem handle_rollbackTarget {w : World} {g : Slots} {idx : ℤ} {t : Target}
    (ht : rollbackTarget w g h idx = some t) : t.handle = h := by
  obtain ⟨p, -, hp⟩ := Option.bind_eq_some_iff.mp ht
  obtain ⟨d, -, rfl⟩ := Option.map_eq_some_iff.mp hp
  rfl

/-- The rollback, once the attempt at the target has left no bridge. -/
theorem rollback_result (hg : g.Owned h br) (p p₁ : Pending) {ret : ℤ} (hret : ret ≠ 0)
    (herr : bindTarget e g h br t = (ret, { g.vacate h br with pend := p₁ })) :
    TransactResult e g h br t (transact e g h br t n expected p) := by
  unfold transact
  rw [herr]
  dsimp only
  rw [if_neg hret]
  unfold bindOld
  have hold := bindLocked_result (a := rollbackArgs br h (g.effIdx h))
    (t := rollbackTarget e.rollback.check ({ g.vacate h br with pend := p₁ } : Global).toSlots h
      (g.effIdx h))
    (g := { g.vacate h br with pend := p₁ }) e.rollback br.peerDev hg.drop
    (fun t' ht => handle_rollbackTarget ht)
  generalize bindLocked e.rollback _ _ _ _ = r at hold
  cases hold with
  | @bound br' _ _ hbr hv =>
    have hbr' : br'.BuiltBy e.rollback.init (rollbackArgs br h (g.effIdx h)) g := hbr.congr rfl
    exact .rolledBack (p := if expected ≠ 0 then
      ((e.rollback.init.livePend p₁).pendingRestoreWaiting e.rollback.check.deferred n expected).2
      else (e.rollback.init.livePend p₁).pendingKick e.rollback.check.deferred) hret (by rw [herr])
      hbr' hv.published hv.active hv.peerDev
  | unbuilt hret' | undone hret' =>
    dsimp only
    rw [if_neg hret']
    exact .lost (Pending.state_pendingCancelAll _)

theorem transact_result (hg : g.Owned h br) (p : Pending) :
    TransactResult e g h br t (transact e g h br t n expected p) := by
  have htorn : tornDown e g h = g.vacate h br := by
    rw [tornDown, deinitLocked_eq hg.bridge, Global.vacate]
  have hres := bindLocked_result (a := targetArgs br t) (t := some t) (g := g.vacate h br) e.target
    br.peerDev hg.drop (fun t' ht => by cases ht; rfl)
  have hbind : bindTarget e g h br t = bindLocked e.target (targetArgs br t) (some t) br.peerDev
      (g.vacate h br) := by rw [bindTarget, htorn]
  generalize bindLocked e.target (targetArgs br t) (some t) br.peerDev (g.vacate h br) = r
    at hres hbind
  cases hres with
  | unbuilt hret => exact rollback_result hg p (g.vacate h br).pend hret hbind
  | undone hret => exact rollback_result hg p _ hret hbind
  | @bound br' _ ht hbr hv =>
    cases ht
    have hbr' : br'.BuiltBy e.target.init (targetArgs br t) g := hbr.congr rfl
    unfold transact
    rw [hbind]
    exact .switched (p := if expected = 0 ∧ p.state ≠ .none then
      ((e.target.init.livePend g.pend).pendingClearIf p.ifname p.generation).2
      else e.target.init.livePend g.pend) hbr' hv

/-- The request fails, or is deferred : the target's admission is what is pending. -/
def FailsOrDefers (g : Global) (n : IfName) (ret : ℤ) (p : Pending) : Prop :=
  ret ≠ 0 ∨ ret = 0 ∧ (g.pend.pendingSet n).1 ≠ 0 ∧ p = (g.pend.pendingSet n).2

/-- The request names the interface of the owner : it cancels what is pending, or does nothing. -/
def NoOp (w : World) (g : Global) (br : Instance) (n : IfName) (ret : ℤ) (p : Pending) : Prop :=
  ret = 0 ∧ w.name br.wlanDev = n ∧ (p = g.pend ∨ p = g.pend.cancelled)

/-- How a request ends : before the teardown, or with a transaction. -/
inductive SwitchResult (e : SwitchEnv) (g : Global) (h : Handle) (br : Instance) (n : IfName) :
    ℤ × Global → Prop
  | early {ret : ℤ} {p : Pending} (hp : FailsOrDefers g n ret p ∨ NoOp e.look g br n ret p) :
      SwitchResult e g h br n (ret, { g with pend := p })
  | transacted {t : Target} {r : ℤ × Global} (ht : findTarget e.look g.toSlots n = .ok t)
      (hr : TransactResult e (g.pin br.peerDev) h br t r) :
      SwitchResult e g h br n (r.1, r.2.unpin br.peerDev)

theorem SwitchResult.refused {ret : ℤ} (hret : ret ≠ 0) : SwitchResult e g h br n (ret, g) :=
  .early (p := g.pend) (.inl (.inl hret))

theorem findTarget_error {w : World} {g : Slots} {ret : ℤ} (h : findTarget w g n = .error ret) :
    ret ≠ 0 := by
  unfold findTarget at h
  split at h
  · cases h
    decide
  split at h
  · cases h
    decide
  split_ifs at h <;> cases h <;> decide

theorem unpin_pin (g : Global) (d : Dev) (p : Pending) :
    ({ g.pin d with pend := p } : Global).unpin d = { g with pend := p } := by
  simp [Global.pin, Global.unpin]

theorem switchPinned_result (hg : g.Owned h br) (ht : findTarget e.look g.toSlots n = .ok t) :
    SwitchResult e g h br n
      ((switchPinned e (g.pin br.peerDev) h br t n allowDefer expected
          (e.look.name br.wlanDev == n)).1,
        (switchPinned e (g.pin br.peerDev) h br t n allowDefer expected
          (e.look.name br.wlanDev == n)).2.unpin br.peerDev) := by
  have hpin : (g.pin br.peerDev).unpin br.peerDev = g := unpin_pin g br.peerDev g.pend
  unfold switchPinned
  by_cases hlink : targetLinkStatus e.look t = 0
  · rw [if_neg (not_not.mpr hlink)]
    by_cases hsame : (e.look.name br.wlanDev == n) = true
    · rw [if_pos hsame, hpin]
      exact .early (p := g.pend) (.inr ⟨rfl, by simpa using hsame, .inl rfl⟩)
    · rw [if_neg hsame]
      exact .transacted ht (transact_result (g := g.pin br.peerDev) hg _)
  · rw [if_pos hlink]
    split
    · split
      · rw [hpin]
        exact .refused (show -eshutdown ≠ 0 by decide)
      · rename_i hgen
        rw [unpin_pin]
        exact .early (.inl (.inr ⟨rfl, hgen, rfl⟩))
    · rw [hpin]
      exact .refused hlink

theorem switchLocked_result (hg : g.Owned h br) :
    SwitchResult e g h br n (switchLocked e g h br n allowDefer expected) := by
  unfold switchLocked
  dsimp only
  split
  · exact .refused (by decide)
  split
  · rename_i hsame
    rcases g.pend.pendingClearIf_cases g.pend.ifname g.pend.generation with ⟨-, -, -, hc⟩ | ⟨-, hc⟩
    · rw [hc]
      exact .early (.inr ⟨rfl, by simpa using hsame.1, .inr rfl⟩)
    · simp [hc] at hsame
  split
  · rename_i ret hret
    refine .refused ?_
    split_ifs
    · decide
    · exact findTarget_error hret
  · rename_i t ht
    split
    · exact .refused (by split_ifs <;> decide)
    split
    · refine .refused ?_
      split_ifs with hlink
      · exact hlink
      · decide
      · decide
      · decide
    · exact switchPinned_result hg ht

theorem switchIfaceRequest_result (hg : g.Owned h br) (e : SwitchEnv) (n : IfName)
    (allowDefer : Bool) (expected : ℕ) :
    SwitchResult e g h br n (switchIfaceRequest e g n allowDefer expected) := by
  unfold switchIfaceRequest
  iterate 6
    split
    · exact .refused (by decide)
  rw [hg.owner]
  dsimp only
  rw [hg.bridge]
  exact switchLocked_result hg

end Request

/-! ## The outcomes -/

/-- Switches, failed switches, rollbacks and failed rollbacks so far. -/
def Global.counters (g : Global) : ℕ × ℕ × ℕ × ℕ :=
  (g.switchOk, g.switchFail, g.rollbackOk, g.rollbackFail)

/-- The error of the attempt at the target. -/
def targetErrno (e : SwitchEnv) (g : Global) (h : Handle) (br : Instance) (t : Target) : ℤ :=
  (bindTarget e (g.pin br.peerDev) h br t).1

/-- The ways a request can end. -/
inductive SwitchOutcome
  | early
  | switched
  | rolledBack
  | lost
  deriving DecidableEq

/-- How the counters move. -/
def SwitchOutcome.delta : SwitchOutcome → ℕ × ℕ × ℕ × ℕ
  | .early => (0, 0, 0, 0)
  | .switched => (1, 0, 0, 0)
  | .rolledBack => (0, 1, 1, 0)
  | .lost => (0, 1, 0, 1)

/-- `br'` has the peer and the policy of `br`. -/
def Instance.Continues (br br' : Instance) : Prop :=
  br'.peerDev = br.peerDev ∧ br'.keepaliveMs = br.keepaliveMs ∧
    br'.keepaliveIdleMs = br.keepaliveIdleMs

/-- The result `r` of a request for `n`, made while `h` owns `br`, is as `o` says. `early` tells which
requests may end before the teardown. -/
def SwitchOutcome.Holds (early : ℤ → Pending → Prop) (e : SwitchEnv) (g : Global) (h : Handle)
    (br : Instance) (n : IfName) (r : ℤ × Global) (o : SwitchOutcome) : Prop :=
  r.2.counters = g.counters + o.delta ∧
    match o with
    | .early => early r.1 r.2.pend ∧ r.2 = { g with pend := r.2.pend }
    | .switched => r.1 = 0 ∧ ∃ t br', findTarget e.look g.toSlots n = .ok t ∧
        r.2.Owned t.handle br' ∧ br'.published = true ∧ br'.active = true ∧
        br'.wlanDev = t.dev ∧ br.Continues br'
    | .rolledBack => r.1 ≠ 0 ∧ ∃ t br', findTarget e.look g.toSlots n = .ok t ∧
        r.1 = targetErrno e g h br t ∧ r.2.Owned h br' ∧ r.2.effIdx h = g.effIdx h ∧
        br.Continues br'
    | .lost => r.1 = -eio ∧ r.2.Vacant ∧ r.2.pend.state = .none

section Outcome

variable {e : SwitchEnv} {g : Global} {h : Handle} {br : Instance} {n : IfName}

/-- A transaction ends in one of the last three ways. -/
theorem TransactResult.outcome (early : ℤ → Pending → Prop) (hg : g.Owned h br) {t : Target}
    {r : ℤ × Global} (ht : findTarget e.look g.toSlots n = .ok t)
    (hr : TransactResult e (g.pin br.peerDev) h br t r) :
    ∃ o, SwitchOutcome.Holds early e g h br n (r.1, r.2.unpin br.peerDev) o := by
  have hvac : ((g.pin br.peerDev).vacate h br).Vacant :=
    Slots.Owned.drop (g := g.pin br.peerDev) hg
  cases hr with
  | @switched br' p hbr hv =>
    refine ⟨.switched, rfl, rfl, t, br', ht, ?_, hv.published, hv.active, hv.wlanDev,
      hv.peerDev, hbr.keepaliveMs, hbr.keepaliveIdleMs⟩
    exact hvac.add (a := targetArgs br t) (hbr.congr rfl) p
  | @rolledBack ret br' p hret herr hbr _ _ hpeer =>
    refine ⟨.rolledBack, rfl, hret, t, br', ht, herr, ?_, ?_, hpeer, hbr.keepaliveMs,
      hbr.keepaliveIdleMs⟩
    · exact hvac.add (a := rollbackArgs br h (g.effIdx h)) (hbr.congr rfl) p
    · exact update_self ..
  | @lost p hp => exact ⟨.lost, rfl, rfl, hvac, hp⟩

/-- **A request is atomic.** While `h` owns `br`, a request ends in exactly one way, whatever it
meets : before the teardown, by failing, deferring or having nothing to do, with everything but the
pending request unchanged; with the target as the owner of a published and active bridge on the exact
old peer and with the old policy; with the target's error and the old owner's bridge restored; or with
`-EIO`, no bridge and nothing pending. -/
theorem switch_outcome (hg : g.Owned h br) (e : SwitchEnv) (n : IfName) (allowDefer : Bool)
    (expected : ℕ) :
    ∃! o, SwitchOutcome.Holds (fun ret p => FailsOrDefers g n ret p ∨ NoOp e.look g br n ret p) e g h br n
      (switchIfaceRequest e g n allowDefer expected) o := by
  obtain ⟨o, ho⟩ : ∃ o, SwitchOutcome.Holds (fun ret p => FailsOrDefers g n ret p ∨
      NoOp e.look g br n ret p) e g h br n (switchIfaceRequest e g n allowDefer expected) o := by
    have hres := switchIfaceRequest_result hg e n allowDefer expected
    generalize switchIfaceRequest e g n allowDefer expected = r at hres
    cases hres with
    | early hp => exact ⟨.early, rfl, hp, rfl⟩
    | transacted ht hr => exact hr.outcome _ hg ht
  refine ⟨o, ho, fun o' ho' => ?_⟩
  -- The counters tell the ways apart.
  have hdelta : o'.delta = o.delta := add_left_cancel (ho'.1.symm.trans ho.1)
  cases o <;> cases o' <;> first | rfl | simp [SwitchOutcome.delta] at hdelta

end Outcome

/-- One adapter with the ready stations `mlan0` and `mlan1`, and the peer `eth0`. -/
def pairWorld : World where
  name d := if d = 0 then mlan0 else if d = 1 then mlan1 else eth0
  byName n := if n = mlan0 then some 0 else if n = mlan1 then some 1
    else if n = eth0 then some 2 else none
  netdev p := some p
  mHandle i := if i = 0 then some 0 else none
  privNum _ := 2

/-- The bridge of `mlan0` and `eth0`, right after its build. -/
def pairState : Global :=
  { (initLocked { lookup := pairWorld } ⟨0, eth0, none, 0, 10, 25⟩
      { Global.loaded with priv := fun h i => if h = 0 ∧ i < 2 then some i else none }).2 with
    owner := some 0 }

def pairEnv : SwitchEnv where
  look := pairWorld
  target := { init := { lookup := pairWorld } }
  rollback := { init := { lookup := pairWorld } }

theorem pairState_owned : ∃ br, pairState.Owned 0 br := by
  set g₀ : Global :=
    { Global.loaded with priv := fun h i => if h = 0 ∧ i < 2 then some i else none } with hg₀
  set a : InitArgs := ⟨0, eth0, none, 0, 10, 25⟩ with ha
  have hvac : g₀.Vacant := ⟨rfl, rfl, fun _ => rfl, fun _ => rfl⟩
  have hzero : (initLocked { lookup := pairWorld } a g₀).1 = 0 := by decide +kernel
  have hstate : pairState = { (initLocked { lookup := pairWorld } a g₀).2 with owner := some 0 } :=
    rfl
  rw [hstate]
  have hres := initLocked_result { lookup := pairWorld } a g₀
  generalize initLocked { lookup := pairWorld } a g₀ = r at hres hzero
  cases hres with
  | busy hb => simp [hvac.instanceActive] at hb
  | failed _ hret => exact absurd hzero hret
  | built _ hbr => exact ⟨_, hvac.add hbr _⟩

/-- A request for `mlan1` switches. -/
theorem switch_outcome_pair :
    ∃ br, pairState.Owned 0 br ∧
      (switchIfaceRequest pairEnv pairState mlan1 true 0).2.counters = (1, 0, 0, 0) ∧
      ∃! o, SwitchOutcome.Holds (fun ret p => FailsOrDefers pairState mlan1 ret p ∨
          NoOp pairEnv.look pairState br mlan1 ret p) pairEnv pairState 0 br mlan1
        (switchIfaceRequest pairEnv pairState mlan1 true 0) o := by
  obtain ⟨br, hbr⟩ := pairState_owned
  exact ⟨br, hbr, by decide +kernel, switch_outcome hbr pairEnv mlan1 true 0⟩

/-- A request for the owner's own interface is neither failure, deferral nor a counted switch. -/
theorem noop_is_not_counted :
    ∃ br, pairState.Owned 0 br ∧
      ∀ o, ¬SwitchOutcome.Holds (FailsOrDefers pairState mlan0) pairEnv pairState 0 br mlan0
        (switchIfaceRequest pairEnv pairState mlan0 true 0) o := by
  obtain ⟨br, hbr⟩ := pairState_owned
  refine ⟨br, hbr, fun o ho => ?_⟩
  have hcount : (switchIfaceRequest pairEnv pairState mlan0 true 0).2.counters =
      pairState.counters := by decide +kernel
  have hret : (switchIfaceRequest pairEnv pairState mlan0 true 0).1 = 0 := by decide +kernel
  have hset : (pairState.pend.pendingSet mlan0).1 = 0 := by decide +kernel
  obtain ⟨hdelta, hend⟩ := ho
  rw [hcount, left_eq_add] at hdelta
  cases o with
  | early =>
    rcases hend.1 with h | ⟨-, h, -⟩
    · exact h hret
    · exact h hset
  | switched | rolledBack | lost => simp [SwitchOutcome.delta] at hdelta

end WlanDriver.Bridge
