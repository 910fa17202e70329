import WlanDriver.Lib.Ledger
import WlanDriver.Bridge.Pending

/-!
# A bridge instance and its peer

An instance (`struct moal_bridge`) holds a reference of its peer, makes the peer promiscuous, hooks
its receive path and runs two threads. It gives these back either when it is taken down or, if
the peer is unregistered first, in two halves : the notifier undoes the capture under `RTNL`, and
`moal_bridge_peer_release_work` stops the threads and drops the reference later. `peer_released` says
who is in charge.

What the module has taken from the kernel is a ledger. `Instance.holds` reads off the instance's
record what is taken for it, and whatever happens to the instance while it lives keeps the ledger and the
record in step (`Site.run_spec`). Taking the instance down gives back exactly what it holds
(`Site.takeDown_kernel`, `Site.errCapture_kernel`).
-/

namespace WlanDriver.Bridge

/-! ## The world -/

/-- A `moal_handle`. -/
abbrev Handle := ℕ

/-- A `struct net_device`. -/
abbrev Dev := ℕ

/-- A `moal_private`. -/
abbrev Priv := ℕ

/-- The state of a handle that forbids a bridge on it. -/
structure HandleStatus where
  surpriseRemoved : Bool := false
  fwReseting : Bool := false
  fwReload : Bool := false
  driverStatus : Bool := false
  hardwareReady : Bool := true

def HandleStatus.busy (s : HandleStatus) : Bool :=
  s.surpriseRemoved || s.fwReseting || s.fwReload || s.driverStatus || !s.hardwareReady

/-- What the bridge finds in the kernel and in the rest of the driver at one moment. -/
structure World where
  name : Dev → IfName
  /-- `dev_net(dev) == &init_net`. -/
  initNet : Dev → Bool := fun _ => true
  /-- `reg_state == NETREG_REGISTERED`. -/
  registered : Dev → Bool := fun _ => true
  present : Dev → Bool := fun _ => true
  running : Dev → Bool := fun _ => true
  carrier : Dev → Bool := fun _ => true
  /-- `dev_get_by_name` in `init_net`. -/
  byName : IfName → Option Dev
  netdev : Priv → Option Dev
  mediaConnected : Priv → Bool := fun _ => true
  /-- `bss_type == MLAN_BSS_TYPE_STA`. -/
  sta : Priv → Bool := fun _ => true
  mHandle : ℕ → Option Handle
  privNum : Handle → ℕ
  prefMac : Handle → Option Handle := fun _ => none
  status : Handle → HandleStatus := fun _ => {}
  /-- `params.bridge_keepalive_ms` and `params.bridge_keepalive_idle_ms`. -/
  keepalive : Handle → ℤ × ℤ := fun _ => (0, 0)
  /-- `bridge_runtime_deferred == 1`. -/
  deferred : Bool := true

/-- `moal_bridge_dev_ready`. -/
def World.devReady (w : World) (d : Dev) : Bool :=
  w.running d && w.carrier d && w.registered d

/-! ## The instance -/

/-- `peer_released`, and whether `peer_release_work` has still to run. -/
inductive PeerRelease
  | held
  | queued
  | done
  deriving DecidableEq

/-- What the build of an instance fixes. -/
structure Binding where
  handle : Handle
  wlanPriv : Priv
  wlanDev : Dev
  peerDev : Dev
  keepaliveMs : ℤ
  keepaliveIdleMs : ℤ
  usePacketType : Bool
  deriving DecidableEq

/-- `struct moal_bridge`. -/
structure Instance extends Binding where
  published : Bool
  active : Bool
  release : PeerRelease
  wlanName : IfName
  peerName : IfName
  /-- `w2p_thread` and `p2w_thread` are set. -/
  w2pThread : Bool
  p2wThread : Bool
  deriving DecidableEq

def Instance.peerReleased (br : Instance) : Bool :=
  br.release != .held

/-- What the module takes from the kernel. -/
inductive Res
  | ref (d : Dev)
  | promisc (d : Dev)
  | rxHandler (d : Dev)
  | pack (d : Dev)
  | w2pThread
  | p2wThread
  deriving DecidableEq

/-- The hook on the receive path of the peer. -/
def Instance.hook (br : Instance) : Res :=
  if br.usePacketType then .pack br.peerDev else .rxHandler br.peerDev

/-- What is taken for the peer. -/
def Instance.holdsPeer (br : Instance) : Ledger Res :=
  match br.release with
  | .held => Pi.single (.ref br.peerDev) 1 + Pi.single (.promisc br.peerDev) 1 + Pi.single br.hook 1
  | .queued => Pi.single (.ref br.peerDev) 1
  | .done => 0

/-- What is taken for the instance. -/
def Instance.holds (br : Instance) : Ledger Res :=
  br.holdsPeer + .onceIf br.w2pThread .w2pThread + .onceIf br.p2wThread .p2wThread

/-! ## Its notifier and its release work -/

/-- The events `moal_bridge_netdev_event` looks at. -/
inductive NetKind
  | up
  | change
  | down
  | changename
  | unregister
  deriving DecidableEq

/-- An instance with what its callbacks write to. -/
structure Site where
  br : Instance
  kernel : Ledger Res
  pend : Pending

namespace Site

/-- `netdev_rx_handler_unregister` or `dev_remove_pack`, and `dev_set_promiscuity` of `-1`. -/
def uncapture (x : Site) : Site :=
  { x with kernel := (x.kernel.release x.br.hook).release (.promisc x.br.peerDev) }

/-- The part of `moal_bridge_netdev_event` for a device of the instance. -/
def bindingEvent (x : Site) (w : World) (d : Dev) : NetKind → Site
  | .changename =>
    if d = x.br.peerDev ∧ x.br.peerReleased then x
    else if d = x.br.wlanDev then { x with br := { x.br with wlanName := (w.name d).copy } }
    else { x with br := { x.br with peerName := (w.name d).copy } }
  | .down =>
    if d = x.br.peerDev ∧ x.br.peerReleased then x
    else { x with br := { x.br with active := false } }
  | .up | .change =>
    if x.br.peerReleased then x
    else { x with br := { x.br with
      active := x.br.published && w.devReady x.br.peerDev && w.devReady x.br.wlanDev &&
        w.mediaConnected x.br.wlanPriv } }
  | .unregister =>
    if d ≠ x.br.peerDev ∨ x.br.peerReleased then { x with br := { x.br with active := false } }
    else { x.uncapture with br := { x.br with active := false, release := .queued } }

/-- The readiness edges that `moal_bridge_netdev_event` passes on. -/
def readiness (published : Bool) (w : World) (d : Dev) (k : NetKind) (p : Pending) : Pending :=
  if (k = .up ∨ k = .change) ∧ w.initNet d then p.pendingReadiness w.deferred (w.name d) published
  else p

/-- `moal_bridge_netdev_event`. -/
def netdevEvent (x : Site) (w : World) (d : Dev) (k : NetKind) : Site :=
  let x := { x with pend := readiness x.br.published w d k x.pend }
  if d ≠ x.br.peerDev ∧ d ≠ x.br.wlanDev then x else x.bindingEvent w d k

/-- `kthread_stop` of the threads that are still there. -/
def stopThreads (x : Site) : Site :=
  { x with
    kernel := x.kernel - .onceIf x.br.w2pThread .w2pThread - .onceIf x.br.p2wThread .p2wThread
    br := { x.br with w2pThread := false, p2wThread := false } }

/-- `moal_bridge_peer_release_work`, if it is queued; also `flush_work` of it. -/
def releaseWork (x : Site) : Site :=
  if x.br.release = .queued then
    { x.stopThreads with
      kernel := x.stopThreads.kernel.release (.ref x.br.peerDev)
      br := { x.stopThreads.br with release := .done } }
  else x

/-- What happens to an instance besides its operations. -/
inductive Async
  | event (w : World) (d : Dev) (k : NetKind)
  | releaseWork

def step (x : Site) : Async → Site
  | .event w d k => x.netdevEvent w d k
  | .releaseWork => x.releaseWork

def run (x : Site) (l : List Async) : Site :=
  l.foldl step x

/-- `unregister_netdevice_notifier` tells the removed notifier that the device goes. -/
def replay (x : Site) (w : World) (d : Dev) : Site :=
  if w.registered d then
    (if w.running d then x.netdevEvent w d .down else x).netdevEvent w d .unregister
  else x

/-- `unregister_netdevice_notifier`, for the two devices the notifier looks at. -/
def unregisterNotifier (x : Site) (w : World) : Site :=
  (x.replay w x.br.wlanDev).replay w x.br.peerDev

/-- The capture is undone here unless the notifier has done it. -/
def uncaptureIfHeld (x : Site) : Site :=
  if x.br.peerReleased then x else x.uncapture

/-- The reference is dropped here unless the release work does it. -/
def putIfHeld (x : Site) : Site :=
  if x.br.peerReleased then x
  else { x with kernel := x.kernel.release (.ref x.br.peerDev) }

/-- The end of `__moal_bridge_deinit_locked`, behind the notifier. -/
def takeDown (x : Site) : Site :=
  x.releaseWork.uncaptureIfHeld.stopThreads.putIfHeld

/-- `err_capture` of `__moal_bridge_init_locked`. -/
def errCapture (x : Site) : Site :=
  x.uncaptureIfHeld.releaseWork.stopThreads.putIfHeld

/-! ## What happens to an instance keeps its record -/

/-- From `x` to `x'` the binding stays and the ledger follows the record. -/
structure Keeps (x x' : Site) : Prop where
  binding : x'.br.toBinding = x.br.toBinding
  published : x'.br.published = x.br.published
  balanced : Ledger.Balanced Instance.holds x.br x.kernel x'.br x'.kernel

variable {x x' x'' : Site}

theorem Keeps.refl (x : Site) : x.Keeps x :=
  ⟨rfl, rfl, .of_eq rfl⟩

theorem Keeps.trans (h : x.Keeps x') (h' : x'.Keeps x'') : x.Keeps x'' :=
  ⟨h'.binding.trans h.binding, h'.published.trans h.published, h.balanced.trans h'.balanced⟩

/-- A change of the flags and names that say nothing about what is held. -/
theorem Keeps.of_kernel (hb : x'.br.toBinding = x.br.toBinding)
    (hp : x'.br.published = x.br.published) (hh : x'.br.holds = x.br.holds)
    (hk : x'.kernel = x.kernel) : x.Keeps x' :=
  ⟨hb, hp, hk ▸ .of_eq hh⟩

/-- The notifier's half of the release. -/
theorem uncapture_balanced (hx : x.br.release = .held) (a : Bool) :
    Ledger.Balanced Instance.holds x.br x.kernel { x.br with active := a, release := .queued }
      x.uncapture.kernel := by
  unfold Ledger.Balanced uncapture Ledger.release Instance.holds Instance.holdsPeer
  rw [hx]
  dsimp only
  abel

theorem bindingEvent_spec (x : Site) (w : World) (d : Dev) (k : NetKind) :
    x.Keeps (x.bindingEvent w d k) ∧ (x.bindingEvent w d k).pend = x.pend := by
  cases k with
  | changename =>
    simp only [bindingEvent]
    split_ifs
    · exact ⟨.refl x, rfl⟩
    · exact ⟨.of_kernel rfl rfl rfl rfl, rfl⟩
    · exact ⟨.of_kernel rfl rfl rfl rfl, rfl⟩
  | down | up | change =>
    simp only [bindingEvent]
    split_ifs
    · exact ⟨.refl x, rfl⟩
    · exact ⟨.of_kernel rfl rfl rfl rfl, rfl⟩
  | unregister =>
    simp only [bindingEvent]
    split_ifs with h
    · exact ⟨.of_kernel rfl rfl rfl rfl, rfl⟩
    · have hheld : x.br.release = .held := by
        simpa [Instance.peerReleased] using (not_or.mp h).2
      exact ⟨⟨rfl, rfl, uncapture_balanced hheld false⟩, rfl⟩

theorem netdevEvent_spec (x : Site) (w : World) (d : Dev) (k : NetKind) :
    x.Keeps (x.netdevEvent w d k) ∧
      (x.netdevEvent w d k).pend = readiness x.br.published w d k x.pend := by
  have hready : x.Keeps { x with pend := readiness x.br.published w d k x.pend } :=
    .of_kernel rfl rfl rfl rfl
  unfold netdevEvent
  dsimp only
  split_ifs
  · exact ⟨hready, rfl⟩
  · obtain ⟨hkeep, hpend⟩ :=
      bindingEvent_spec { x with pend := readiness x.br.published w d k x.pend } w d k
    exact ⟨hready.trans hkeep, hpend⟩

theorem releaseWork_spec (x : Site) : x.Keeps x.releaseWork ∧ x.releaseWork.pend = x.pend := by
  unfold releaseWork
  split_ifs with h
  · refine ⟨⟨rfl, rfl, ?_⟩, rfl⟩
    simp only [Ledger.Balanced, stopThreads, Ledger.release, Instance.holds, Instance.holdsPeer, h,
      Ledger.onceIf, Bool.false_eq_true, if_false]
    abel
  · exact ⟨.refl x, rfl⟩

/-- What an event or the release work does to the pending request. -/
def Async.pend (published : Bool) (p : Pending) : Async → Pending
  | .event w d k => readiness published w d k p
  | .releaseWork => p

theorem step_spec (x : Site) (a : Async) :
    x.Keeps (x.step a) ∧ (x.step a).pend = a.pend x.br.published x.pend := by
  cases a with
  | event w d k => exact x.netdevEvent_spec w d k
  | releaseWork => exact x.releaseWork_spec

theorem run_spec (x : Site) (l : List Async) :
    x.Keeps (x.run l) ∧ (x.run l).pend = l.foldl (Async.pend x.br.published) x.pend := by
  induction l generalizing x with
  | nil => exact ⟨.refl x, rfl⟩
  | cons a l ih =>
    obtain ⟨hkeep, hpend⟩ := x.step_spec a
    obtain ⟨hkeep', hpend'⟩ := ih (x.step a)
    refine ⟨hkeep.trans hkeep', ?_⟩
    rw [hkeep.published, hpend] at hpend'
    exact hpend'

theorem Async.pend_false (p : Pending) (a : Async) : a.pend false p = p := by
  cases a with
  | event w d k =>
    simp only [Async.pend, readiness]
    split_ifs
    · simp [Pending.pendingReadiness]
    · rfl
  | releaseWork => rfl

theorem Async.same_pend (published : Bool) (p : Pending) (a : Async) :
    p.Same (a.pend published p) := by
  cases a with
  | event w d k =>
    simp only [Async.pend, readiness]
    split_ifs
    · exact p.same_pendingReadiness _ _ _
    · exact .refl p
  | releaseWork => exact .refl p

/-- Before its publication an instance passes no edge on. -/
theorem run_pend_of_unpublished (hx : x.br.published = false) (l : List Async) :
    (x.run l).pend = x.pend := by
  rw [(x.run_spec l).2, hx]
  generalize x.pend = p
  induction l with
  | nil => rfl
  | cons a l ih => rw [List.foldl_cons, Async.pend_false, ih]

theorem replay_spec (x : Site) (w : World) (d : Dev) :
    x.Keeps (x.replay w d) ∧ (x.replay w d).pend = x.pend := by
  have hquiet : ∀ y : Site, ∀ k, k ≠ .up → k ≠ .change →
      y.Keeps (y.netdevEvent w d k) ∧ (y.netdevEvent w d k).pend = y.pend := by
    intro y k hup hchange
    obtain ⟨hkeep, hpend⟩ := y.netdevEvent_spec w d k
    exact ⟨hkeep, by rw [hpend, readiness, if_neg (by simp [hup, hchange])]⟩
  unfold replay
  split_ifs
  · obtain ⟨hkeep, hpend⟩ := hquiet x .down (by simp) (by simp)
    obtain ⟨hkeep', hpend'⟩ := hquiet (x.netdevEvent w d .down) .unregister (by simp) (by simp)
    exact ⟨hkeep.trans hkeep', hpend'.trans hpend⟩
  · exact hquiet x .unregister (by simp) (by simp)
  · exact ⟨.refl x, rfl⟩

theorem unregisterNotifier_spec (x : Site) (w : World) :
    x.Keeps (x.unregisterNotifier w) ∧ (x.unregisterNotifier w).pend = x.pend := by
  obtain ⟨hkeep, hpend⟩ := x.replay_spec w x.br.wlanDev
  obtain ⟨hkeep', hpend'⟩ := (x.replay w x.br.wlanDev).replay_spec w x.br.peerDev
  exact ⟨hkeep.trans hkeep', hpend'.trans hpend⟩

/-! ## Taking an instance down -/

theorem releaseWork_not_queued (x : Site) : x.releaseWork.br.release ≠ .queued := by
  unfold releaseWork
  split_ifs with h
  · simp
  · exact h

/-- The order of the teardown : flush, uncapture, stop, put. -/
theorem kernel_of_flushed (hq : x.br.release ≠ .queued) :
    x.uncaptureIfHeld.stopThreads.putIfHeld.kernel = x.kernel - x.br.holds := by
  cases hr : x.br.release with
  | queued => exact absurd hr hq
  | held =>
    simp only [putIfHeld, stopThreads, uncaptureIfHeld, uncapture, Instance.peerReleased, hr,
      Instance.holds, Instance.holdsPeer, Ledger.release, bne_self_eq_false, Bool.false_eq_true,
      if_false]
    abel
  | done =>
    have hrel : x.br.peerReleased = true := by simp [Instance.peerReleased, hr]
    have huncapture : x.uncaptureIfHeld = x := if_pos hrel
    have hput : x.stopThreads.putIfHeld = x.stopThreads := if_pos hrel
    rw [huncapture, hput]
    simp only [stopThreads, Instance.holds, Instance.holdsPeer, hr]
    abel

/-- `__moal_bridge_deinit_locked` gives back what the instance holds. -/
theorem takeDown_kernel (x : Site) : x.takeDown.kernel = x.kernel - x.br.holds := by
  have hkeep := x.releaseWork_spec.1
  rw [takeDown, kernel_of_flushed x.releaseWork_not_queued, hkeep.balanced.eq_add,
    add_sub_cancel_right]

/-- The error exit of the build does the same, with the flush behind the uncapture. -/
theorem errCapture_kernel (x : Site) : x.errCapture.kernel = x.kernel - x.br.holds := by
  have hswap : x.uncaptureIfHeld.releaseWork = x.releaseWork.uncaptureIfHeld := by
    by_cases hr : x.br.release = .held
    · have hrel : x.br.peerReleased = false := by simp [Instance.peerReleased, hr]
      simp [releaseWork, uncaptureIfHeld, uncapture, hrel, hr]
    · have hrel : x.br.peerReleased = true := by simpa [Instance.peerReleased] using hr
      have hrel' : x.releaseWork.br.peerReleased = true := by
        unfold releaseWork
        split_ifs
        · rfl
        · exact hrel
      rw [uncaptureIfHeld, if_pos hrel, uncaptureIfHeld, if_pos hrel']
  rw [errCapture, hswap]
  exact x.takeDown_kernel

theorem takeDown_pend (x : Site) : x.takeDown.pend = x.pend := by
  unfold takeDown putIfHeld stopThreads uncaptureIfHeld uncapture releaseWork
  split_ifs <;> rfl

theorem errCapture_pend (x : Site) : x.errCapture.pend = x.pend := by
  unfold errCapture putIfHeld stopThreads releaseWork uncaptureIfHeld uncapture
  split_ifs <;> rfl

end Site

end WlanDriver.Bridge
