import WlanDriver.Lib.System
import WlanDriver.Bridge.Switch

/-!
# Who owns the bridge

The operations that move the bridge between handles, as one system : init and deinit, suspend, resume
and discard of a saved owner, the removal of a handle, and switch requests. A step is one operation
from the taking of `bridge_lifecycle_lock` to its release, with everything it meets on its way. Between
operations the live instance receives events and its release work runs, the pending request moves, and
interfaces come and go.

`LifeInv` holds at every release of the lock : either there is no bridge, or one handle owns the only
one, and the kernel ledger is what that bridge and the saved owner hold. `ownership` reads the
ownership part in the terms of the source. It also says exactly when resume and discard cancel a
pending request although an owner remains : when another handle became the owner while the saved one
was away (`discarded_under_owner`).
-/

namespace WlanDriver.Bridge

open Function

/-! ## The operations -/

def bridgeInit (e : InitEnv) (g : Global) (h : Handle) (peerName : IfName) (idx : ℤ) : ℤ × Global :=
  let r := initLocked e
    ⟨h, peerName, none, idx, (e.lookup.keepalive h).1, (e.lookup.keepalive h).2⟩ g
  if r.1 = 0 then
    (0, { r.2 with owner := some h, pend := r.2.pend.pendingKick e.final.deferred })
  else r

def bridgeDeinit (d : DeinitEnv) (g : Global) (h : Handle) : Global :=
  if g.owner = some h then { deinitLocked d g h with owner := none } else g

/-- `moal_bridge_handles_related`, where both are set. -/
def handlesRelated (w : World) (l r : Handle) : Bool :=
  l == r || w.prefMac l == some r || w.prefMac r == some l

/-- The call is for another handle than `h`, or one that is not related to it. -/
def excludes (w : World) (h : Handle) (expected : Option Handle) (companion : Bool) : Bool :=
  match expected with
  | none => false
  | some x => if companion then !handlesRelated w h x else h != x

/-- `__moal_bridge_suspend_owner`. -/
def suspendOwner (w : World) (d : DeinitEnv) (expected : Option Handle) (companion : Bool)
    (g : Global) : ℤ × Global :=
  match g.suspended with
  | some s =>
    (if companion ∧ ∃ x, expected = some x ∧ handlesRelated w s.handle x then 0 else -ebusy, g)
  | none =>
    match g.owner with
    | none => (0, g)
    | some h =>
      match g.bridge h with
      | none => (0, g)
      | some br =>
        if excludes w h expected companion then (0, g)
        else if br.peerReleased ∨ ¬w.registered br.peerDev then (-enodev, g)
        else
          let saved : SuspendedOwner :=
            ⟨h, br.peerDev, g.effIdx h, br.keepaliveMs, br.keepaliveIdleMs⟩
          let g : Global := { g.pin br.peerDev with suspended := some saved }
          (0, { deinitLocked d g h with owner := none })

/-- The arguments of the build for a saved owner. -/
def SuspendedOwner.args (s : SuspendedOwner) (w : World) : InitArgs :=
  ⟨s.handle, (w.name s.peerDev).copy, some s.peerDev, s.wlanBssIdx, s.keepaliveMs,
    s.keepaliveIdleMs⟩

/-- `__moal_bridge_resume_owner`. -/
def resumeOwner (e : InitEnv) (expected : Option Handle) (companion : Bool) (g : Global) :
    ℤ × Global :=
  match g.suspended with
  | none => (0, g)
  | some s =>
    if excludes e.lookup s.handle expected companion then (-ebusy, g)
    else
      let r := initLocked e (s.args e.lookup) { g with suspended := none }
      let g' : Global := if r.1 = 0 then
        { r.2 with owner := some s.handle, pend := r.2.pend.pendingKick e.final.deferred }
        else { r.2 with pend := r.2.pend.pendingCancelAll }
      (r.1, g'.unpin s.peerDev)

/-- `__moal_bridge_discard_suspended_owner`. -/
def discardSuspendedOwner (w : World) (expected : Option Handle) (companion : Bool) (g : Global) :
    Global :=
  match g.suspended with
  | none => g
  | some s =>
    if excludes w s.handle expected companion then g
    else { g with pend := g.pend.pendingCancelAll, suspended := none }.unpin s.peerDev

/-- The last part of `moal_bridge_forget_handle` : the saved owner is dropped. -/
def forgetSaved (h : Handle) (g : Global) : Global :=
  match g.suspended with
  | none => g
  | some s => if s.handle = h then { g with suspended := none }.unpin s.peerDev else g

/-- `moal_bridge_forget_handle`, behind its invalidation. -/
def forgetHandle (d : DeinitEnv) (g : Global) (h : Handle) : Global :=
  let lost := g.owner = some h ∨ ∃ s, g.suspended = some s ∧ s.handle = h
  let g := if lost then { g with pend := g.pend.pendingCancelAll } else g
  forgetSaved h (bridgeDeinit d g h)

/-- `moal_bridge_pending_invalidate_handle`. -/
def pendingInvalidateHandle (w : World) (g : Global) (h : Handle) : Global :=
  if g.pend.state ≠ .none ∧ ∃ i < min (w.privNum h) mlanMaxBssNum, ∃ p, g.priv h i = some p ∧
      ∃ d, w.netdev p = some d ∧ w.name d = g.pend.ifname then
    { g with pend := (g.pend.pendingClearIf g.pend.ifname g.pend.generation).2 }
  else g

/-- An event for the live instance, or its release work. -/
def asyncLive (a : Site.Async) (g : Global) : Global :=
  match g.owner with
  | none => g
  | some h =>
    match g.bridge h with
    | none => g
    | some br =>
      let x := Site.step ⟨br, g.kernel, g.pend⟩ a
      { g with bridge := update g.bridge h (some x.br), kernel := x.kernel, pend := x.pend }

/-! ## The system -/

/-- The sections of `bridge_pending_lock` outside the lifecycle lock. -/
inductive PendAct
  | start
  | cleanup
  | cancelAll
  | clearIf (n : IfName) (gen : ℕ)
  | beginAttempt (n : IfName) (gen : ℕ)
  | restoreWaiting (deferred : Bool) (n : IfName) (gen : ℕ)

def PendAct.apply (p : Pending) : PendAct → Pending
  | .start => p.pendingStart
  | .cleanup => p.pendingCleanup
  | .cancelAll => p.pendingCancelAll
  | .clearIf n gen => (p.pendingClearIf n gen).2
  | .beginAttempt n gen => (p.pendingBeginAttempt n gen).2
  | .restoreWaiting deferred n gen => (p.pendingRestoreWaiting deferred n gen).2

/-- The steps between two releases of the lifecycle lock. -/
inductive LifeAct
  | init (e : InitEnv) (h : Handle) (peerName : IfName) (idx : ℤ)
  | deinit (d : DeinitEnv) (h : Handle)
  | suspend (w : World) (d : DeinitEnv) (expected : Option Handle) (companion : Bool)
  | resume (e : InitEnv) (expected : Option Handle) (companion : Bool)
  | discard (w : World) (expected : Option Handle) (companion : Bool)
  | forget (d : DeinitEnv) (h : Handle)
  | invalidate (w : World) (h : Handle)
  | switch (e : SwitchEnv) (n : IfName) (allowDefer : Bool) (expected : ℕ)
  | async (a : Site.Async)
  | pending (a : PendAct)
  /-- An interface comes or goes, but not the one the live bridge is on : the driver takes the bridge
  down before it removes that. -/
  | setPriv (h : Handle) (i : ℕ) (p : Option Priv)

def lifeStep (g : Global) : LifeAct → Option Global
  | .init e h peerName idx => some (bridgeInit e g h peerName idx).2
  | .deinit d h => some (bridgeDeinit d g h)
  | .suspend w d expected companion => some (suspendOwner w d expected companion g).2
  | .resume e expected companion => some (resumeOwner e expected companion g).2
  | .discard w expected companion => some (discardSuspendedOwner w expected companion g)
  | .forget d h => some (forgetHandle d g h)
  | .invalidate w h => some (pendingInvalidateHandle w g h)
  | .switch e n allowDefer expected => some (switchIfaceRequest e g n allowDefer expected).2
  | .async a => some (asyncLive a g)
  | .pending a => some { g with pend := a.apply g.pend }
  | .setPriv h i p =>
    if (g.bridge h).isSome ∧ g.effIdx h = i then none
    else some { g with priv := update g.priv h (update (g.priv h) i p) }

def lifeSystem : System Global LifeAct where
  init g := g = .loaded
  step := lifeStep

/-! ## The invariant -/

/-- What is taken for the saved owner. -/
def Global.savedHolds (g : Global) : Ledger Res :=
  match g.suspended with
  | none => 0
  | some s => Pi.single (.ref s.peerDev) 1

/-- There is no bridge, or `h` owns the only one; and the ledger is what the bridge and the saved owner
hold. -/
inductive LifeInv (g : Global) : Prop
  | vacant (hv : g.Vacant) (hk : g.kernel = g.savedHolds)
  | owned {h : Handle} {br : Instance} (ho : g.Owned h br) (hk : g.kernel = g.savedHolds + br.holds)

theorem lifeInv_loaded : LifeInv .loaded :=
  .vacant ⟨rfl, rfl, fun _ => rfl, fun _ => rfl⟩ rfl

section Invariant

variable {g g' : Global} {h : Handle} {br : Instance}

theorem savedHolds_congr (hs : g'.suspended = g.suspended) : g'.savedHolds = g.savedHolds := by
  rw [Global.savedHolds, Global.savedHolds, hs]

/-- The invariant does not look at the pending request and the counters. -/
theorem LifeInv.congr (hi : LifeInv g) (hslots : g'.toSlots = g.toSlots)
    (hs : g'.suspended = g.suspended) (hk : g'.kernel = g.kernel) : LifeInv g' := by
  have hsaved := savedHolds_congr hs
  cases hi with
  | vacant hv hk' => exact .vacant (hslots ▸ hv) (by rw [hk, hk', hsaved])
  | owned ho hk' => exact .owned (hslots ▸ ho) (by rw [hk, hk', hsaved])

theorem LifeInv.build (hi : LifeInv g) (hg : g.instanceActive = false) {e : InitEnv} {a : InitArgs}
    (hbr : br.BuiltBy e a g) (p : Pending) :
    LifeInv { g.addBridge a.handle a.wlanBssIdx br p with owner := some a.handle } := by
  cases hi with
  | vacant hv hk => exact .owned (hv.add hbr p) (congrArg (· + br.holds) hk)
  | owned ho _ => simp [ho.instanceActive] at hg

theorem lifeInv_vacate (ho : g.Owned h br) (hk : g.kernel = g.savedHolds + br.holds) :
    LifeInv (g.vacate h br) := by
  refine .vacant ho.drop ?_
  have hker : (g.vacate h br).kernel = g.kernel - br.holds := rfl
  rw [hker, hk, add_sub_cancel_right]
  rfl

theorem lifeInv_down (ho : g.Owned h br) (hk : g.kernel = g.savedHolds + br.holds) (d : DeinitEnv) :
    LifeInv { deinitLocked d g h with owner := none } := by
  rw [deinitLocked_eq ho.bridge]
  exact lifeInv_vacate ho hk

/-- The saved owner is gone with its reference. -/
theorem LifeInv.consume (hi : LifeInv g) {s : SuspendedOwner} (hs : g.suspended = some s) :
    LifeInv ({ g with suspended := none }.unpin s.peerDev) := by
  have hsaved : g.savedHolds = Pi.single (.ref s.peerDev) 1 := by rw [Global.savedHolds, hs]
  have hker : ({ g with suspended := none }.unpin s.peerDev).kernel =
      g.kernel - Pi.single (.ref s.peerDev) 1 := rfl
  cases hi with
  | vacant hv hk => exact .vacant hv (by rw [hker, hk, hsaved, sub_self]; rfl)
  | owned ho hk =>
    refine .owned ho ?_
    rw [hker, hk, hsaved, add_sub_cancel_left]
    exact (zero_add _).symm

/-! ## Each operation keeps it -/

section

variable (hi : LifeInv g)

include hi

theorem LifeInv.bridgeInit (e : InitEnv) (h : Handle) (peerName : IfName)
    (idx : ℤ) : LifeInv (bridgeInit e g h peerName idx).2 := by
  unfold WlanDriver.Bridge.bridgeInit
  dsimp only
  have hres := initLocked_result e
    ⟨h, peerName, none, idx, (e.lookup.keepalive h).1, (e.lookup.keepalive h).2⟩ g
  generalize initLocked e _ g = r at hres
  cases hres with
  | busy _ => exact hi
  | failed _ hret =>
    rw [if_neg hret]
    exact hi
  | built hg hbr => exact (hi.build hg hbr _).congr rfl rfl rfl

theorem LifeInv.bridgeDeinit (d : DeinitEnv) (h : Handle) :
    LifeInv (bridgeDeinit d g h) := by
  unfold WlanDriver.Bridge.bridgeDeinit
  split_ifs with ho
  · cases hi with
    | vacant hv _ => simp [hv.owner] at ho
    | @owned h' br ho' hk =>
      obtain rfl : h' = h := by simpa [ho'.owner] using ho
      exact lifeInv_down ho' hk d
  · exact hi

theorem LifeInv.suspendOwner (w : World) (d : DeinitEnv)
    (expected : Option Handle) (companion : Bool) :
    LifeInv (suspendOwner w d expected companion g).2 := by
  unfold WlanDriver.Bridge.suspendOwner
  split
  · exact hi
  rename_i hs
  cases hi with
  | vacant hv hk =>
    rw [hv.owner]
    exact .vacant hv hk
  | @owned h br ho hk =>
    rw [ho.owner]
    dsimp only
    rw [ho.bridge]
    dsimp only
    split_ifs
    · exact .owned ho hk
    · exact .owned ho hk
    · refine lifeInv_down (g := { g.pin br.peerDev with suspended := some _ }) ho ?_ d
      have hsaved : g.savedHolds = 0 := by rw [Global.savedHolds, hs]
      have hker : (g.pin br.peerDev).kernel = g.kernel + Pi.single (.ref br.peerDev) 1 := rfl
      rw [hker, hk, hsaved, zero_add, add_comm]
      rfl

theorem LifeInv.resumeOwner (e : InitEnv) (expected : Option Handle)
    (companion : Bool) : LifeInv (resumeOwner e expected companion g).2 := by
  unfold WlanDriver.Bridge.resumeOwner
  split
  · exact hi
  rename_i s hs
  split
  · exact hi
  dsimp only
  have hi' := hi.consume hs
  have hres := initLocked_result e (s.args e.lookup) { g with suspended := none }
  generalize initLocked e (s.args e.lookup) { g with suspended := none } = r at hres
  cases hres with
  | busy _ => exact hi'.congr rfl rfl rfl
  | failed _ hret =>
    rw [if_neg hret]
    exact hi'.congr rfl rfl rfl
  | @built br hg hbr =>
    refine (hi'.build hg (hbr.congr rfl) g.pend).congr rfl rfl ?_
    exact Ledger.release_add g.kernel br.holds _

theorem LifeInv.discardSuspendedOwner (w : World) (expected : Option Handle)
    (companion : Bool) : LifeInv (discardSuspendedOwner w expected companion g) := by
  unfold WlanDriver.Bridge.discardSuspendedOwner
  split
  · exact hi
  rename_i s hs
  split
  · exact hi
  · exact (hi.consume hs).congr rfl rfl rfl

theorem LifeInv.forgetSaved (h : Handle) : LifeInv (forgetSaved h g) := by
  unfold WlanDriver.Bridge.forgetSaved
  split
  · exact hi
  rename_i s hs
  split
  · exact hi.consume hs
  · exact hi

theorem LifeInv.forgetHandle (d : DeinitEnv) (h : Handle) :
    LifeInv (forgetHandle d g h) := by
  unfold WlanDriver.Bridge.forgetHandle
  dsimp only
  refine LifeInv.forgetSaved (LifeInv.bridgeDeinit ?_ d h) h
  split_ifs
  · exact hi.congr rfl rfl rfl
  · exact hi

end

theorem switchIfaceRequest_of_vacant (hv : g.Vacant) (e : SwitchEnv) (n : IfName)
    (allowDefer : Bool) (expected : ℕ) :
    (switchIfaceRequest e g n allowDefer expected).2 = g := by
  unfold switchIfaceRequest
  rw [hv.owner]
  split_ifs <;> rfl

theorem LifeInv.switch (hi : LifeInv g) (e : SwitchEnv) (n : IfName) (allowDefer : Bool)
    (expected : ℕ) : LifeInv (switchIfaceRequest e g n allowDefer expected).2 := by
  cases hi with
  | vacant hv hk =>
    rw [switchIfaceRequest_of_vacant hv]
    exact .vacant hv hk
  | @owned h br ho hk =>
    have hres := switchIfaceRequest_result ho e n allowDefer expected
    generalize switchIfaceRequest e g n allowDefer expected = r at hres
    cases hres with
    | early _ => exact (LifeInv.owned ho hk).congr rfl rfl rfl
    | transacted _ hr =>
      -- The pinned reference was taken before the teardown and is given back at the end.
      have hpin : ∀ k : Ledger Res, Ledger.release
          (g.kernel.acquire (.ref br.peerDev) - br.holds + k) (.ref br.peerDev) =
            g.kernel - br.holds + k := by
        intro k
        unfold Ledger.release Ledger.acquire
        abel
      cases hr with
      | @switched br' p hbr _ =>
        have hb := (lifeInv_vacate ho hk).build rfl (a := targetArgs br _) (hbr.congr rfl) p
        exact hb.congr rfl rfl (hpin br'.holds)
      | @rolledBack _ br' p _ _ hbr _ _ _ =>
        have hb := (lifeInv_vacate ho hk).build rfl (a := rollbackArgs br h (g.effIdx h))
          (hbr.congr rfl) p
        exact hb.congr rfl rfl (hpin br'.holds)
      | @lost p _ =>
        have hker := hpin 0
        rw [add_zero, add_zero] at hker
        exact (lifeInv_vacate ho hk).congr rfl rfl hker

theorem LifeInv.asyncLive (hi : LifeInv g) (a : Site.Async) : LifeInv (asyncLive a g) := by
  unfold WlanDriver.Bridge.asyncLive
  cases hi with
  | vacant hv hk =>
    rw [hv.owner]
    exact .vacant hv hk
  | @owned h br ho hk =>
    rw [ho.owner]
    dsimp only
    rw [ho.bridge]
    dsimp only
    have hkeep := (Site.step_spec ⟨br, g.kernel, g.pend⟩ a).1
    generalize Site.step ⟨br, g.kernel, g.pend⟩ a = x at hkeep
    have ho' : ({ g with
        owner := some h
        bridge := update g.bridge h (some x.br)
        kernel := x.kernel
        pend := x.pend } : Global).Owned h x.br := by
      refine ⟨ho.instanceActive, rfl, update_self .., fun h' hh => ?_, ho.effIdx, ?_⟩
      · simp [hh, ho.only h' hh]
      · have hpriv : x.br.wlanPriv = br.wlanPriv := congrArg Binding.wlanPriv hkeep.binding
        rw [hpriv]
        exact ho.index
    refine .owned ho' ?_
    have hbal := hkeep.balanced
    rw [hk] at hbal
    exact hbal.eq_of_add

theorem LifeInv.setPriv (hi : LifeInv g) {h : Handle} {i : ℕ} (p : Option Priv)
    (hfree : ¬((g.bridge h).isSome ∧ g.effIdx h = i)) :
    LifeInv { g with priv := update g.priv h (update (g.priv h) i p) } := by
  cases hi with
  | vacant hv hk => exact .vacant { hv with } hk
  | @owned h' br ho hk =>
    refine .owned ⟨ho.instanceActive, ho.owner, ho.bridge, ho.only, ho.effIdx, ?_⟩ hk
    have hidx := ho.index
    unfold Slots.privAt at hidx ⊢
    split_ifs at hidx ⊢ with hrange
    rw [← hidx]
    dsimp only at hrange ⊢
    by_cases hh : h' = h
    · subst hh
      have hne : (g.effIdx h').toNat ≠ i := by
        intro heq
        exact hfree ⟨by simp [ho.bridge], by omega⟩
      rw [update_self, update_of_ne hne]
    · rw [update_of_ne hh]

theorem LifeInv.step (hi : LifeInv g) {a : LifeAct} (h : lifeStep g a = some g') : LifeInv g' := by
  cases a with
  | init e h peerName idx =>
    cases h
    exact hi.bridgeInit e _ peerName idx
  | deinit d h =>
    cases h
    exact hi.bridgeDeinit d _
  | suspend w d expected companion =>
    cases h
    exact hi.suspendOwner w d expected companion
  | resume e expected companion =>
    cases h
    exact hi.resumeOwner e expected companion
  | discard w expected companion =>
    cases h
    exact hi.discardSuspendedOwner w expected companion
  | forget d h =>
    cases h
    exact hi.forgetHandle d _
  | invalidate w h =>
    cases h
    unfold pendingInvalidateHandle
    split_ifs
    · exact hi.congr rfl rfl rfl
    · exact hi
  | switch e n allowDefer expected =>
    cases h
    exact hi.switch e n allowDefer expected
  | async a =>
    cases h
    exact hi.asyncLive a
  | pending a =>
    cases h
    exact hi.congr rfl rfl rfl
  | setPriv h i p =>
    simp only [lifeStep, Option.ite_none_left_eq_some] at h
    cases h.2
    exact hi.setPriv p h.1

end Invariant

theorem LifeInv.of_reachable {g : Global} (h : lifeSystem.Reachable g) : LifeInv g :=
  h.invariant (by rintro g rfl; exact lifeInv_loaded) fun _ _ _ hi hs => hi.step hs

/-! ## Ownership in the terms of the source -/

/-- The guard, the owner and the handles' bridges agree, and the indices tell where the bridge is. -/
structure OwnerInv (g : Global) : Prop where
  active_iff : g.instanceActive = true ↔ g.owner ≠ none
  owner_iff : g.owner ≠ none ↔ ∃! h, g.bridge h ≠ none
  owner_of_bridge : ∀ h, g.bridge h ≠ none → g.owner = some h
  index : ∀ h br, g.bridge h = some br → g.privAt h (g.effIdx h) = some br.wlanPriv
  index_of_none : ∀ h, g.bridge h = none → g.effIdx h = -1

theorem ownerInv_of_vacant {g : Global} (hv : g.Vacant) : OwnerInv g where
  active_iff := by simp [hv.instanceActive, hv.owner]
  owner_iff := by
    refine ⟨fun h => absurd hv.owner h, ?_⟩
    rintro ⟨h, hh, -⟩
    exact absurd (hv.bridge h) hh
  owner_of_bridge h hh := absurd (hv.bridge h) hh
  index h br hh := by simp [hv.bridge h] at hh
  index_of_none h _ := hv.effIdx h

theorem ownerInv_of_owned {g : Global} {h : Handle} {br : Instance} (ho : g.Owned h br) :
    OwnerInv g := by
  have honly : ∀ h', g.bridge h' ≠ none → h' = h := fun h' hh => by
    by_contra hne
    exact hh (ho.only h' hne)
  have hone : ∃! h', g.bridge h' ≠ none := ⟨h, by simp [ho.bridge], honly⟩
  refine ⟨by simp [ho.instanceActive, ho.owner], ?_, fun h' hh => ?_, fun h' br' hh => ?_, fun h' hh => ?_⟩
  · exact iff_of_true (by simp [ho.owner]) hone
  · rw [ho.owner, honly h' hh]
  · obtain rfl := honly h' (by simp [hh])
    rw [ho.bridge, Option.some.injEq] at hh
    rw [← hh]
    exact ho.index
  · refine ho.effIdx h' ?_
    rintro rfl
    simp [ho.bridge] at hh

theorem LifeInv.ownerInv {g : Global} (hi : LifeInv g) : OwnerInv g := by
  cases hi with
  | vacant hv _ => exact ownerInv_of_vacant hv
  | owned ho _ => exact ownerInv_of_owned ho

/-! ## Cancellation by resume and discard -/

/-- Resume and discard. -/
def LifeAct.endsSuspension : LifeAct → Bool
  | .resume _ _ _ | .discard _ _ _ => true
  | _ => false

/-- There is a saved owner and the call is for it. -/
def LifeAct.takesSaved (g : Global) : LifeAct → Bool
  | .resume e expected companion =>
    g.suspended.any fun s => !excludes e.lookup s.handle expected companion
  | .discard w expected companion => g.suspended.any fun s => !excludes w s.handle expected companion
  | _ => false

/-- A pending request is cancelled only when no owner remains. -/
def LawfulCancel (g g' : Global) : Prop :=
  g.pend.state ≠ .none → g'.pend.state = .none → g'.owner = none

section Cancel

variable {g : Global}

theorem not_takesSaved_of_none {a : LifeAct} (hs : g.suspended = none) : a.takesSaved g = false := by
  cases a <;> simp [LifeAct.takesSaved, hs]

theorem lawfulCancel_refl (g : Global) : LawfulCancel g g :=
  fun hne hn => absurd hn hne

theorem resume_lawful_iff (hi : LifeInv g) (e : InitEnv) (expected : Option Handle)
    (companion : Bool) :
    LawfulCancel g (resumeOwner e expected companion g).2 ↔
      g.owner = none ∨ g.pend.state = .none ∨
        (LifeAct.resume e expected companion).takesSaved g = false := by
  unfold resumeOwner
  split
  · rename_i hs
    exact iff_of_true (lawfulCancel_refl g) (.inr (.inr (not_takesSaved_of_none hs)))
  rename_i s hs
  by_cases hx : excludes e.lookup s.handle expected companion = true
  · rw [if_pos hx]
    exact iff_of_true (lawfulCancel_refl g) (.inr (.inr (by simp [LifeAct.takesSaved, hs, hx])))
  rw [if_neg hx]
  have htakes : (LifeAct.resume e expected companion).takesSaved g = true := by
    simpa [LifeAct.takesSaved, hs] using hx
  dsimp only
  have hres := initLocked_result e (s.args e.lookup) { g with suspended := none }
  generalize initLocked e (s.args e.lookup) { g with suspended := none } = r at hres
  cases hi with
  | vacant hv _ =>
    refine iff_of_true ?_ (.inl hv.owner)
    cases hres with
    | busy hb => simp [hv.instanceActive] at hb
    | failed _ hret =>
      rw [if_neg hret]
      exact fun _ _ => hv.owner
    | built _ _ =>
      -- The request is kicked, not cancelled.
      intro hne hn
      have hkick := (e.same_livePend g.pend).trans
        ((e.livePend g.pend).same_pendingKick e.final.deferred)
      exact absurd (hkick.2.2.symm.trans hn) hne
  | owned ho _ =>
    -- The guard refuses the build, and the request goes although its owner stays.
    cases hres with
    | failed hb _ | built hb _ => simp [ho.instanceActive] at hb
    | busy _ =>
      constructor
      · intro hlaw
        by_cases hne : g.pend.state = .none
        · exact .inr (.inl hne)
        · have := hlaw hne (Pending.state_pendingCancelAll g.pend)
          exact absurd this (by simpa [Global.unpin, ebusy] using ho.owner ▸ Option.some_ne_none _)
      · rintro (h | h | h)
        · simp [ho.owner] at h
        · exact fun hne _ => absurd h hne
        · simp [htakes] at h

theorem discard_lawful_iff (w : World) (expected : Option Handle) (companion : Bool) :
    LawfulCancel g (discardSuspendedOwner w expected companion g) ↔
      g.owner = none ∨ g.pend.state = .none ∨
        (LifeAct.discard w expected companion).takesSaved g = false := by
  unfold discardSuspendedOwner
  split
  · rename_i hs
    exact iff_of_true (lawfulCancel_refl g) (.inr (.inr (not_takesSaved_of_none hs)))
  rename_i s hs
  by_cases hx : excludes w s.handle expected companion = true
  · rw [if_pos hx]
    exact iff_of_true (lawfulCancel_refl g) (.inr (.inr (by simp [LifeAct.takesSaved, hs, hx])))
  rw [if_neg hx]
  have htakes : (LifeAct.discard w expected companion).takesSaved g = true := by
    simpa [LifeAct.takesSaved, hs] using hx
  constructor
  · intro hlaw
    by_cases hne : g.pend.state = .none
    · exact .inr (.inl hne)
    · exact .inl (hlaw hne (Pending.state_pendingCancelAll g.pend))
  · rintro (h | h | h)
    · exact fun _ _ => h
    · exact fun hne _ => absurd h hne
    · simp [htakes] at h

end Cancel

/-- **Ownership.** In every reachable state the guard, the owner and the handles' bridges agree. And a
resume or discard leaves every pending request that an owner could still complete exactly when
there is no owner, nothing is pending, or the call is not for a saved owner. -/
theorem ownership {g : Global} (h : lifeSystem.Reachable g) :
    OwnerInv g ∧ ∀ a g', lifeStep g a = some g' → a.endsSuspension = true →
      (LawfulCancel g g' ↔ g.owner = none ∨ g.pend.state = .none ∨ a.takesSaved g = false) := by
  have hi := LifeInv.of_reachable h
  refine ⟨hi.ownerInv, fun a g' hs ha => ?_⟩
  cases a with
  | resume e expected companion =>
    cases hs
    exact resume_lawful_iff hi e expected companion
  | discard w expected companion =>
    cases hs
    exact discard_lawful_iff w expected companion
  | _ => simp [LifeAct.endsSuspension] at ha

def mlan2 : IfName :=
  [0x6d, 0x6c, 0x61, 0x6e, 0x32]

/-- Two adapters : `mlan0` on the first, `mlan1` and `mlan2` on the second, and the peer `eth0`. `mlan2` is
down. -/
def twinWorld : World where
  name d := if d = 0 then mlan0 else if d = 1 then mlan1 else if d = 2 then mlan2 else eth0
  running d := d != 2
  byName n := if n = eth0 then some 3 else none
  netdev p := some p
  mHandle i := if i < 2 then some i else none
  privNum h := h + 1

def twinEnv : SwitchEnv where
  look := twinWorld
  target := { init := { lookup := twinWorld } }
  rollback := { init := { lookup := twinWorld } }

/-- The second adapter gets the bridge while the first one's is suspended, and a switch to `mlan2` is
deferred. -/
def replacedRun : List LifeAct :=
  [.setPriv 0 0 (some 0), .setPriv 1 0 (some 1), .setPriv 1 1 (some 2), .pending .start,
    .init { lookup := twinWorld } 0 eth0 0, .suspend twinWorld { gone := twinWorld } none false,
    .init { lookup := twinWorld } 1 eth0 0,
    .switch twinEnv mlan2 true 0]

/-- The saved owner's resume fails, or it is discarded, and the request goes although the second adapter
still owns the bridge. -/
theorem discarded_under_owner :
    ∃ g, lifeSystem.Reachable g ∧
      ¬LawfulCancel g (resumeOwner { lookup := twinWorld } none false g).2 ∧
      ¬LawfulCancel g (discardSuspendedOwner twinWorld none false g) := by
  obtain ⟨g, hg, hP⟩ := System.exists_reachable_of_run (M := lifeSystem)
    (P := fun g => decide (g.pend.state ≠ .none ∧
      (resumeOwner { lookup := twinWorld } none false g).2.pend.state = .none ∧
      (resumeOwner { lookup := twinWorld } none false g).2.owner = some 1 ∧
      (discardSuspendedOwner twinWorld none false g).pend.state = .none ∧
      (discardSuspendedOwner twinWorld none false g).owner = some 1))
    (l := replacedRun) rfl (by decide +kernel)
  obtain ⟨hne, hr, hro, hd, hdo⟩ : _ ∧ _ ∧ _ ∧ _ ∧ _ := by simpa only [decide_eq_true_eq] using hP
  refine ⟨g, hg, fun hlaw => ?_, fun hlaw => ?_⟩
  · simp [hlaw hne hr] at hro
  · simp [hlaw hne hd] at hdo

/-- The second adapter owns the bridge, and resuming the first one would not be lawful. -/
theorem ownership_replaced :
    ∃ g, lifeSystem.Reachable g ∧ g.owner = some 1 ∧ OwnerInv g ∧
      ¬LawfulCancel g (resumeOwner { lookup := twinWorld } none false g).2 := by
  obtain ⟨g, hg, hP⟩ := System.exists_reachable_of_run (M := lifeSystem)
    (P := fun g => decide (g.owner = some 1 ∧ g.pend.state ≠ .none ∧
      (LifeAct.resume { lookup := twinWorld } none false).takesSaved g = true))
    (l := replacedRun) rfl (by decide +kernel)
  obtain ⟨ho, hp, ht⟩ : _ ∧ _ ∧ _ := by simpa only [decide_eq_true_eq] using hP
  obtain ⟨hinv, hcancel⟩ := ownership hg
  refine ⟨g, hg, ho, hinv, fun hlaw => ?_⟩
  rcases (hcancel (.resume { lookup := twinWorld } none false) _ rfl rfl).mp hlaw with h | h | h
  · simp [ho] at h
  · exact hp h
  · simp [ht] at h

end WlanDriver.Bridge
