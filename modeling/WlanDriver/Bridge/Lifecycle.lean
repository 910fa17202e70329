import Mathlib.Logic.Function.Basic
import WlanDriver.Bridge.Instance

/-!
# Building and taking down a bridge

`__moal_bridge_init_locked` and `__moal_bridge_deinit_locked` with the state they share with the rest
of the module. Both run under `bridge_lifecycle_lock`, but not alone : from the registration of its
notifier on, an instance can receive events and its release work can run, so both take the lists
of what happens in their windows.

All that later results need of the two is one lemma each. A build that fails leaves everything as it
was, on every error exit; a build that succeeds adds one published instance of the arguments
(`initLocked_result`). A teardown removes the instance with all it holds (`deinitLocked_eq`).
-/

namespace WlanDriver.Bridge

open Function

/-! ## The state -/

/-- `bridge_suspended_owner`, when it is valid. -/
structure SuspendedOwner where
  handle : Handle
  peerDev : Dev
  wlanBssIdx : ℤ
  keepaliveMs : ℤ
  keepaliveIdleMs : ℤ
  deriving DecidableEq

/-- Who owns the bridge and where it is, with the interfaces of the handles. -/
structure Slots where
  /-- `bridge_instance_active`. -/
  instanceActive : Bool
  /-- `bridge_owner`. -/
  owner : Option Handle
  /-- `handle->bridge`. -/
  bridge : Handle → Option Instance
  /-- `handle->bridge_effective_wlan_idx`. -/
  effIdx : Handle → ℤ
  /-- `handle->priv`. -/
  priv : Handle → ℕ → Option Priv

/-- The state of the module behind `bridge_lifecycle_lock`, with the pending request and what is taken
from the kernel. -/
structure Global extends Slots where
  suspended : Option SuspendedOwner
  switchOk : ℕ
  switchFail : ℕ
  rollbackOk : ℕ
  rollbackFail : ℕ
  pend : Pending
  kernel : Ledger Res

/-- The module right after loading. -/
def Global.loaded : Global where
  instanceActive := false
  owner := none
  bridge _ := none
  effIdx _ := -1
  suspended := none
  switchOk := 0
  switchFail := 0
  rollbackOk := 0
  rollbackFail := 0
  pend := .zero
  priv _ _ := none
  kernel := 0

def mlanMaxBssNum : ℕ := 16

/-- `handle->priv[i]`, when `i` is an index of it. -/
def Slots.privAt (g : Slots) (h : Handle) (i : ℤ) : Option Priv :=
  if i < 0 ∨ mlanMaxBssNum ≤ i then none else g.priv h i.toNat

/-! ## The build -/

/-- What `__moal_bridge_init_locked` meets on its way. -/
structure InitEnv where
  /-- At the lookup of the interface and the peer. -/
  lookup : World
  allocated : Bool := true
  /-- `kthread_run`; `0` is success here and below. -/
  w2pErr : ℤ := 0
  p2wErr : ℤ := 0
  /-- `netdev_rx_handler_register`. -/
  handlerErr : ℤ := 0
  /-- `register_netdevice_notifier`. -/
  notifierErr : ℤ := 0
  /-- During the registration of the notifiers. -/
  registering : List Site.Async := []
  /-- `register_inetaddr_notifier`. -/
  inetErr : ℤ := 0
  /-- Until the final check. -/
  settling : List Site.Async := []
  /-- At the final check and the publication, under one `RTNL` section. -/
  final : World := lookup
  /-- Between a failed final check and its error number. -/
  unlocked : List Site.Async := []
  /-- Until the notifier of a failed build is gone. -/
  closing : List Site.Async := []
  /-- When the notifier of a failed build goes. -/
  gone : World := lookup
  /-- Behind the publication, until the caller goes on. -/
  live : List Site.Async := []

/-- The arguments of `__moal_bridge_init_locked`. -/
structure InitArgs where
  handle : Handle
  peerName : IfName
  peerIdentity : Option Dev
  wlanBssIdx : ℤ
  keepaliveMs : ℤ
  keepaliveIdleMs : ℤ

/-- The peer, with a reference taken : the pinned device while it is registered, or the one of that name. -/
def InitArgs.peer (a : InitArgs) (w : World) : Option Dev :=
  match a.peerIdentity with
  | some d => if w.registered d then some d else none
  | none => w.byName a.peerName

/-- The instance when its notifier is about to be registered. -/
def newInstance (e : InitEnv) (a : InitArgs) (p : Priv) (wlan peer : Dev) : Instance where
  handle := a.handle
  wlanPriv := p
  wlanDev := wlan
  peerDev := peer
  keepaliveMs := a.keepaliveMs
  keepaliveIdleMs := a.keepaliveIdleMs
  usePacketType := e.handlerErr != 0
  published := false
  active := false
  release := .held
  wlanName := .empty
  peerName := .empty
  w2pThread := true
  p2wThread := true

/-- The notifier of a failed build goes, and then what it captured. -/
def Site.errNotifier (x : Site) (e : InitEnv) : Site :=
  let x : Site := { x with br := { x.br with active := false } }
  ((x.run e.closing).unregisterNotifier e.gone).errCapture

/-- The final check of both devices. -/
def Site.bindable (x : Site) (w : World) : Bool :=
  !x.br.peerReleased && w.registered x.br.peerDev && w.registered x.br.wlanDev &&
    w.present x.br.peerDev && w.present x.br.wlanDev

/-- The published instance. -/
def Site.publish (x : Site) (w : World) : Site :=
  { x with
    br := { x.br with
      wlanName := (w.name x.br.wlanDev).copy
      peerName := (w.name x.br.peerDev).copy
      published := true
      active := w.devReady x.br.peerDev && w.devReady x.br.wlanDev &&
        w.mediaConnected x.br.wlanPriv && w.running x.br.peerDev } }

/-- The build from the registration of the notifiers on : its result and the instance, captured by
the notifiers, or gone. -/
def initNotifiers (e : InitEnv) (x : Site) : ℤ × Site :=
  if e.notifierErr ≠ 0 then (e.notifierErr, x.errCapture)
  else if e.inetErr ≠ 0 then (e.inetErr, (x.run e.registering).errNotifier e)
  else
    let x := (x.run e.registering).run e.settling
    if x.bindable e.final then (0, (x.publish e.final).run e.live)
    else
      let x := x.run e.unlocked
      (if x.br.peerReleased then -enodev else -enetdown, x.errNotifier e)

/-- The build from the capture of the peer on, with what is taken so far. -/
def initCapture (e : InitEnv) (a : InitArgs) (g : Global) (held : Ledger Res) (p : Priv)
    (wlan peer : Dev) : ℤ × Global :=
  let br := newInstance e a p wlan peer
  match initNotifiers e ⟨br, (held.acquire (.promisc peer)).acquire br.hook, g.pend⟩ with
  | (0, x) => (0, { g with
      instanceActive := true
      bridge := update g.bridge a.handle (some x.br)
      effIdx := update g.effIdx a.handle a.wlanBssIdx
      pend := x.pend
      kernel := x.kernel })
  | (ret, x) => (ret, { g with instanceActive := false, pend := x.pend, kernel := x.kernel })

/-- `__moal_bridge_init_locked`. -/
def initLocked (e : InitEnv) (a : InitArgs) (g : Global) : ℤ × Global :=
  if g.instanceActive then (-ebusy, g)
  else
    match (g.privAt a.handle a.wlanBssIdx).bind fun p => (e.lookup.netdev p).map (p, ·) with
    | none => (-enodev, { g with instanceActive := false })
    | some (p, wlan) =>
      match a.peer e.lookup with
      | none => (-enodev, { g with instanceActive := false })
      | some peer =>
        let held := g.kernel.acquire (.ref peer)
        let put : Global := { g with instanceActive := false, kernel := held.release (.ref peer) }
        if ¬e.allocated then (-enomem, put)
        else if e.w2pErr ≠ 0 then (e.w2pErr, put)
        else
          let held := held.acquire .w2pThread
          if e.p2wErr ≠ 0 then
            (e.p2wErr, { g with
              instanceActive := false
              kernel := (held.release .w2pThread).release (.ref peer) })
          else
            initCapture e a g (held.acquire .p2wThread) p wlan peer

/-! ## The teardown -/

/-- What `__moal_bridge_deinit_locked` meets on its way. -/
structure DeinitEnv where
  /-- Until the notifier is gone. -/
  closing : List Site.Async := []
  /-- When the notifier goes. -/
  gone : World

/-- `__moal_bridge_deinit_locked`. -/
def deinitLocked (e : DeinitEnv) (g : Global) (h : Handle) : Global :=
  match g.bridge h with
  | none => g
  | some br =>
    let x : Site := ⟨{ br with active := false, published := false }, g.kernel, g.pend⟩
    let x := ((x.run e.closing).unregisterNotifier e.gone).takeDown
    { g with
      instanceActive := false
      bridge := update g.bridge h none
      effIdx := update g.effIdx h (-1)
      pend := x.pend
      kernel := x.kernel }

/-! ## What a build does -/

section Build

variable {e : InitEnv} {a : InitArgs} {g : Global} {x : Site}

/-- What happens to the instance of a failed build until its notifier is gone. -/
theorem Site.errNotifier_spec (hx : x.br.published = false) (e : InitEnv) :
    (x.errNotifier e).kernel = x.kernel - x.br.holds ∧ (x.errNotifier e).pend = x.pend := by
  set y : Site := { x with br := { x.br with active := false } } with hy
  have hoff : x.Keeps y := .of_kernel rfl rfl rfl rfl
  obtain ⟨hgone, hpend⟩ := (y.run e.closing).unregisterNotifier_spec e.gone
  have hkeep := (hoff.trans (y.run_spec e.closing).1).trans hgone
  constructor
  · rw [errNotifier, errCapture_kernel, ← hy, hkeep.balanced.eq_add, add_sub_cancel_right]
  · rw [errNotifier, errCapture_pend, ← hy, hpend]
    exact run_pend_of_unpublished (x := y) hx e.closing

/-- How the part of the build behind the capture ends. -/
inductive NotifiersResult (e : InitEnv) (x : Site) : ℤ × Site → Prop
  | failed {ret : ℤ} {x' : Site} (hret : ret ≠ 0) (hk : x'.kernel = x.kernel - x.br.holds)
      (hp : x'.pend = x.pend) : NotifiersResult e x (ret, x')
  | built {x' : Site} (hb : x'.br.toBinding = x.br.toBinding) (hpub : x'.br.published = true)
      (hp : x'.pend = e.live.foldl (Site.Async.pend true) x.pend)
      (hk : Ledger.Balanced Instance.holds x.br x.kernel x'.br x'.kernel) :
      NotifiersResult e x (0, x')

theorem initNotifiers_result (hx : x.br.published = false) (e : InitEnv) :
    NotifiersResult e x (initNotifiers e x) := by
  unfold initNotifiers
  dsimp only
  have hreg := (x.run_spec e.registering).1
  have hset := hreg.trans (Site.run_spec _ e.settling).1
  have hregp := Site.run_pend_of_unpublished hx e.registering
  have hreg0 : (x.run e.registering).br.published = false := hreg.published.trans hx
  have hsetp := (Site.run_pend_of_unpublished hreg0 e.settling).trans hregp
  have hset0 : ((x.run e.registering).run e.settling).br.published = false :=
    hset.published.trans hx
  split_ifs with hn hi hb
  · exact .failed hn x.errCapture_kernel x.errCapture_pend
  · obtain ⟨hk, hp⟩ := Site.errNotifier_spec hreg0 e
    exact .failed hi (by rw [hk, hreg.balanced]) (hp.trans hregp)
  · -- Publication changes flags and names; what follows it keeps the record.
    set y := (x.run e.registering).run e.settling with hy
    obtain ⟨hlive, hlivep⟩ := (y.publish e.final).run_spec e.live
    refine .built (hlive.binding.trans hset.binding) hlive.published ?_
      (hset.balanced.trans (.trans (.of_eq rfl) hlive.balanced))
    rw [hlivep, ← hsetp]
    rfl
  all_goals
    have hun := hset.trans (Site.run_spec _ e.unlocked).1
    have hunp := (Site.run_pend_of_unpublished hset0 e.unlocked).trans hsetp
    obtain ⟨hk, hp⟩ := Site.errNotifier_spec (hun.published.trans hx) e
    exact .failed (by decide) (by rw [hk, hun.balanced]) (hp.trans hunp)

/-- The instance a successful build publishes. -/
structure Instance.BuiltBy (br : Instance) (e : InitEnv) (a : InitArgs) (g : Global) : Prop where
  handle : br.handle = a.handle
  wlanPriv : g.privAt a.handle a.wlanBssIdx = some br.wlanPriv
  wlanDev : e.lookup.netdev br.wlanPriv = some br.wlanDev
  peerDev : a.peer e.lookup = some br.peerDev
  keepaliveMs : br.keepaliveMs = a.keepaliveMs
  keepaliveIdleMs : br.keepaliveIdleMs = a.keepaliveIdleMs
  published : br.published = true

/-- The state with an instance on `h` more, and with what it holds. -/
def Global.addBridge (g : Global) (h : Handle) (idx : ℤ) (br : Instance) (p : Pending) : Global :=
  { g with
    instanceActive := true
    bridge := update g.bridge h (some br)
    effIdx := update g.effIdx h idx
    pend := p
    kernel := g.kernel + br.holds }

/-- The state without the instance on `h`, and without what it held. -/
def Global.dropBridge (g : Global) (h : Handle) (br : Instance) : Global :=
  { g with
    instanceActive := false
    bridge := update g.bridge h none
    effIdx := update g.effIdx h (-1)
    kernel := g.kernel - br.holds }

/-- The pending request behind a build : the edges since the publication. -/
def InitEnv.livePend (e : InitEnv) (p : Pending) : Pending :=
  e.live.foldl (Site.Async.pend true) p

theorem InitEnv.same_livePend (e : InitEnv) (p : Pending) : p.Same (e.livePend p) := by
  unfold InitEnv.livePend
  induction e.live generalizing p with
  | nil => exact .refl p
  | cons a l ih => exact (a.same_pend true p).trans (ih _)

/-- How a build ends. -/
inductive InitResult (e : InitEnv) (a : InitArgs) (g : Global) : ℤ × Global → Prop
  | busy (hg : g.instanceActive = true) : InitResult e a g (-ebusy, g)
  | failed {ret : ℤ} (hg : g.instanceActive = false) (hret : ret ≠ 0) : InitResult e a g (ret, g)
  | built {br : Instance} (hg : g.instanceActive = false) (hbr : br.BuiltBy e a g) :
      InitResult e a g (0, g.addBridge a.handle a.wlanBssIdx br (e.livePend g.pend))

/-- An exit with the guard down and the ledger as it was. -/
theorem InitResult.of_exit (hg : g.instanceActive = false) {ret : ℤ} {k : Ledger Res} {p : Pending}
    (hret : ret ≠ 0) (hk : k = g.kernel) (hp : p = g.pend) :
    InitResult e a g (ret, { g with instanceActive := false, pend := p, kernel := k }) := by
  rw [hk, hp, ← hg]
  exact .failed hg hret

theorem initCapture_result (hg : g.instanceActive = false) {p : Priv} {wlan peer : Dev}
    (hp : g.privAt a.handle a.wlanBssIdx = some p) (hw : e.lookup.netdev p = some wlan)
    (hpeer : a.peer e.lookup = some peer) :
    InitResult e a g (initCapture e a g
      (((g.kernel.acquire (.ref peer)).acquire .w2pThread).acquire .p2wThread) p wlan peer) := by
  unfold initCapture
  dsimp only
  -- What was taken so far is what the new instance holds.
  set br := newInstance e a p wlan peer with hbr
  have hheld : ((((g.kernel.acquire (.ref peer)).acquire .w2pThread).acquire .p2wThread).acquire
      (.promisc peer)).acquire br.hook = g.kernel + br.holds := by
    simp only [Ledger.acquire, Instance.holds, Instance.holdsPeer, Ledger.onceIf, hbr, newInstance,
      if_true]
    abel
  rw [hheld]
  have hres := initNotifiers_result (x := ⟨br, g.kernel + br.holds, g.pend⟩) rfl e
  generalize initNotifiers e ⟨br, g.kernel + br.holds, g.pend⟩ = r at hres
  cases hres with
  | failed hret hk hsame =>
    split
    · rename_i heq
      exact absurd (congrArg Prod.fst heq) hret
    · rename_i heq
      cases heq
      exact .of_exit hg hret (by rw [hk, add_sub_cancel_right]) hsame
  | @built x' hb hpub hpend hk =>
    have hres : InitResult e a g (0, g.addBridge a.handle a.wlanBssIdx x'.br x'.pend) := by
      rw [hpend]
      refine .built hg ⟨?_, ?_, ?_, ?_, ?_, ?_, hpub⟩
      · rw [hb]; rfl
      · rw [hb]; exact hp
      · rw [hb]; exact hw
      · rw [hb]; exact hpeer
      · rw [hb]; rfl
      · rw [hb]; rfl
    rw [Global.addBridge, ← hk.eq_of_add] at hres
    exact hres

theorem initLocked_result (e : InitEnv) (a : InitArgs) (g : Global) :
    InitResult e a g (initLocked e a g) := by
  rw [initLocked]
  by_cases hg : g.instanceActive = true
  · rw [if_pos hg]
    exact .busy hg
  rw [if_neg hg]
  rw [Bool.not_eq_true] at hg
  split
  · exact .of_exit hg (by decide) rfl rfl
  rename_i p wlan hwlan
  obtain ⟨q, hq, hnet⟩ := Option.bind_eq_some_iff.mp hwlan
  obtain ⟨d, hd, heq⟩ := Option.map_eq_some_iff.mp hnet
  cases heq
  split
  · exact .of_exit hg (by decide) rfl rfl
  rename_i peer hpeer
  dsimp only
  split
  · exact .of_exit hg (by decide) (Ledger.release_acquire _ _) rfl
  split
  · exact .of_exit hg ‹_› (Ledger.release_acquire _ _) rfl
  split
  · exact .of_exit hg ‹_› (by simp) rfl
  exact initCapture_result hg hq hd hpeer

end Build

/-- A teardown removes the instance with what it holds. -/
theorem deinitLocked_eq {e : DeinitEnv} {g : Global} {h : Handle} {br : Instance}
    (hb : g.bridge h = some br) : deinitLocked e g h = g.dropBridge h br := by
  set x : Site := ⟨{ br with active := false, published := false }, g.kernel, g.pend⟩ with hx
  obtain ⟨hgone, hgonep⟩ := (x.run e.closing).unregisterNotifier_spec e.gone
  have hkeep := (x.run_spec e.closing).1.trans hgone
  have hk : ((x.run e.closing).unregisterNotifier e.gone).takeDown.kernel = g.kernel - br.holds := by
    rw [Site.takeDown_kernel, hkeep.balanced]
    rfl
  have hp : ((x.run e.closing).unregisterNotifier e.gone).takeDown.pend = g.pend := by
    rw [Site.takeDown_pend, hgonep, Site.run_pend_of_unpublished rfl]
  rw [deinitLocked, hb]
  dsimp only
  rw [← hx, hk, hp]
  rfl

/-! ## Ownership -/

/-- There is no bridge. -/
structure Slots.Vacant (g : Slots) : Prop where
  instanceActive : g.instanceActive = false
  owner : g.owner = none
  bridge : ∀ h, g.bridge h = none
  effIdx : ∀ h, g.effIdx h = -1

/-- The only bridge is `br`, and `h` owns it. -/
structure Slots.Owned (g : Slots) (h : Handle) (br : Instance) : Prop where
  instanceActive : g.instanceActive = true
  owner : g.owner = some h
  bridge : g.bridge h = some br
  only : ∀ h', h' ≠ h → g.bridge h' = none
  effIdx : ∀ h', h' ≠ h → g.effIdx h' = -1
  index : g.privAt h (g.effIdx h) = some br.wlanPriv

/-- A teardown of the only bridge leaves none. -/
theorem Slots.Owned.drop {g : Global} {h : Handle} {br : Instance} (hg : g.Owned h br) :
    ({ g.dropBridge h br with owner := none } : Global).Vacant where
  instanceActive := rfl
  owner := rfl
  bridge h' := by
    by_cases hh : h' = h
    · simp [Global.dropBridge, hh]
    · simp [Global.dropBridge, hh, hg.only h' hh]
  effIdx h' := by
    by_cases hh : h' = h
    · simp [Global.dropBridge, hh]
    · simp [Global.dropBridge, hh, hg.effIdx h' hh]

/-- A build where there is no bridge makes its handle the owner of the only one. -/
theorem Slots.Vacant.add {g : Global} {e : InitEnv} {a : InitArgs} {br : Instance} (hg : g.Vacant)
    (hbr : br.BuiltBy e a g) (p : Pending) :
    ({ g.addBridge a.handle a.wlanBssIdx br p with owner := some a.handle } : Global).Owned
      a.handle br where
  instanceActive := rfl
  owner := rfl
  bridge := by simp [Global.addBridge]
  only h' hh := by simp [Global.addBridge, hh, hg.bridge]
  effIdx h' hh := by simp [Global.addBridge, hh, hg.effIdx]
  index := by
    simp only [Global.addBridge, update_self]
    exact hbr.wlanPriv

end WlanDriver.Bridge
