import WlanDriver.Lib.System
import WlanDriver.Bridge.Lifecycle

/-!
# The activation gate

`active` switches the forwarding of an instance. It is written by the publication of the instance, by
its notifier and by its teardown. The publication and the notifier hold `RTNL`, the teardown does not,
and the notifier reads `published` before it writes `active`. Here every write of `active`, `published` and
`peer_released` is a step of its own, and so is every read of them that decides about such a write : the first look at
`published` for `NETDEV_UP` and `NETDEV_CHANGE` is for the pending request, and left out. All orders are covered; what an
access finds of the devices is the `World` of its label.

The gate does not stay shut behind the teardown's first write : a notifier that has read `published` before it, or that
reads it before the second write, still opens the gate. Without such an overlap the gate is safe (`gate_safe`).
-/

namespace WlanDriver.Bridge

/-! ## Accesses -/

/-- A run of `moal_bridge_netdev_event` for a device of the instance, at its next access. -/
inductive EventPc
  | idle
  /-- `NETDEV_DOWN` of the peer; `peer_released` is read next. -/
  | downReleased
  | downClear
  /-- `NETDEV_UP` or `NETDEV_CHANGE`; `peer_released` is read next. -/
  | upReleased
  | upPublished
  /-- `published` was set; the devices are looked at next. -/
  | upLook
  | upSet (v : Bool)
  /-- `NETDEV_UNREGISTER`, and whether of the peer; `active` is cleared next. -/
  | goneClear (peer : Bool)
  | goneReleased
  /-- The capture is undone; `peer_released` is set next. -/
  | goneSet
  deriving DecidableEq

/-- The first access of a run. -/
def EventPc.start (peer : Bool) : NetKind → EventPc
  | .up | .change => .upReleased
  | .down => if peer then .downReleased else .downClear
  | .unregister => .goneClear peer
  | .changename => .idle

/-- The life of an instance from the registration of its notifier on, at the next access. -/
inductive LifePc
  | registering
  /-- Under `RTNL`; the final check of both devices is next. -/
  | check
  | publish
  | look
  | activate (v : Bool)
  | live
  /-- `__moal_bridge_deinit_locked` has begun; `active` is cleared next. -/
  | clearActive
  | clearPublished
  /-- The build has failed; `active` is cleared next. -/
  | failed
  /-- `unregister_netdevice_notifier` is next. -/
  | unregister
  /-- Under `RTNL`; the removed notifier is told that the devices go. -/
  | replay
  | gone
  deriving DecidableEq

/-- `RTNL` is held, or taken by the next step. -/
def LifePc.needsRtnl : LifePc → Bool
  | .registering | .check | .publish | .look | .activate _ | .unregister | .replay => true
  | .live | .clearActive | .clearPublished | .failed | .gone => false

/-- The events that reach the notifier. -/
def LifePc.notifies (k : NetKind) : LifePc → Bool
  | .registering | .live | .clearActive | .clearPublished | .failed | .unregister => true
  | .replay => k == .down || k == .unregister
  | .check | .publish | .look | .activate _ | .gone => false

/-- An instance, its notifier and the thread that builds it and takes it down. -/
structure GateState where
  br : Instance
  nb : EventPc
  life : LifePc
  /-- The teardown has cleared `active`. -/
  cleared : Bool
  deriving DecidableEq

inductive GateAct
  /-- A run of the notifier starts; whether the device is the peer. -/
  | event (k : NetKind) (peer : Bool)
  /-- The next access of the notifier. -/
  | notifier (w : World)
  /-- The next access of the build or of the teardown. -/
  | life (w : World)
  /-- `register_inetaddr_notifier` fails. -/
  | inetErr
  | deinit
  /-- `moal_bridge_peer_release_work`. -/
  | releaseWork

/-- What `NETDEV_UP` and `NETDEV_CHANGE` find of the devices. -/
def Instance.usable (br : Instance) (w : World) : Bool :=
  w.devReady br.peerDev && w.devReady br.wlanDev && w.mediaConnected br.wlanPriv

/-- An access of the notifier. -/
def notifierStep (s : GateState) (w : World) : EventPc → Option GateState
  | .idle => none
  | .downReleased => some { s with nb := if s.br.peerReleased then .idle else .downClear }
  | .downClear => some { s with br := { s.br with active := false }, nb := .idle }
  | .upReleased => some { s with nb := if s.br.peerReleased then .idle else .upPublished }
  | .upPublished => some { s with nb := if s.br.published then .upLook else .upSet false }
  | .upLook => some { s with nb := .upSet (s.br.usable w) }
  | .upSet v => some { s with br := { s.br with active := v }, nb := .idle }
  | .goneClear peer => some { s with
      br := { s.br with active := false }, nb := if peer then .goneReleased else .idle }
  | .goneReleased => some { s with nb := if s.br.peerReleased then .idle else .goneSet }
  | .goneSet => some { s with br := { s.br with release := .queued }, nb := .idle }

/-- An access of the build or of the teardown. -/
def lifetimeStep (s : GateState) (w : World) : LifePc → Option GateState
  | .registering => some { s with life := .check }
  | .check => some { s with
      life := if Site.bindable ⟨s.br, 0, .zero⟩ w then .publish else .failed }
  | .publish => some { s with br := { s.br with published := true }, life := .look }
  | .look => some { s with life := .activate (s.br.usable w && w.running s.br.peerDev) }
  | .activate v => some { s with br := { s.br with active := v }, life := .live }
  | .live => none
  | .clearActive => some { s with
      br := { s.br with active := false }, life := .clearPublished, cleared := true }
  | .clearPublished => some { s with br := { s.br with published := false }, life := .unregister }
  | .failed => some { s with br := { s.br with active := false }, life := .unregister }
  | .unregister => some { s with life := .replay }
  | .replay => some { s with life := .gone }
  | .gone => none

/-- One access of one party. -/
def gateStep (s : GateState) : GateAct → Option GateState
  | .event k peer =>
    if s.nb = .idle ∧ s.life.notifies k then some { s with nb := .start peer k } else none
  | .notifier w => notifierStep s w s.nb
  | .life w => if s.life.needsRtnl ∧ s.nb ≠ .idle then none else lifetimeStep s w s.life
  | .inetErr => if s.life = .registering then some { s with life := .failed } else none
  | .deinit => if s.life = .live then some { s with life := .clearActive } else none
  | .releaseWork =>
    if s.br.release = .queued then some { s with br := { s.br with release := .done } } else none

/-- An instance right after the registration of its notifier. -/
structure GateState.Fresh (s : GateState) : Prop where
  published : s.br.published = false
  active : s.br.active = false
  release : s.br.release = .held
  nb : s.nb = .idle
  life : s.life = .registering
  cleared : s.cleared = false

def gateSystem : System GateState GateAct where
  init := GateState.Fresh
  step := gateStep

/-! ## The gate -/

/-- What has to hold for `active` to be set. -/
structure GateState.Open (s : GateState) : Prop where
  published : s.br.published = true
  held : s.br.peerReleased = false
  cleared : s.cleared = false

/-- `active` is set only while the instance is published, its peer is held and its teardown has not
cleared `active`. -/
def GateState.Safe (s : GateState) : Prop :=
  s.br.active = true → s.Open

/-- The notifier is going to set `active`, if the devices allow it. -/
def EventPc.opening : EventPc → Bool
  | .upLook | .upSet true => true
  | _ => false

/-- The step does not overlap the two writes of the teardown : no notifier that has read `published` is
on its way when `active` is cleared, and none reads `published` between the two. -/
def NoOverlap (s : GateState) : GateAct → Prop
  | .life _ => s.life = .clearActive → s.nb.opening = false
  | .notifier _ => s.nb = .upPublished → s.life ≠ .clearPublished
  | _ => True

instance (s : GateState) (a) : Decidable (NoOverlap s a) := by
  unfold NoOverlap
  split <;> infer_instance

/-- The places where the instance is not published. -/
def LifePc.unpublished : LifePc → Bool
  | .registering | .check | .publish | .failed | .unregister | .replay | .gone => true
  | .look | .activate _ | .live | .clearActive | .clearPublished => false

/-- The places behind the teardown's first write. -/
def LifePc.closing : LifePc → Bool
  | .clearPublished | .unregister | .replay | .gone => true
  | _ => false

structure GateInv (s : GateState) : Prop where
  safe : s.Safe
  opening : s.nb.opening = true → s.Open
  upPublished : s.nb = .upPublished → s.br.peerReleased = false
  /-- Behind its first write an unregistration finds `active` cleared. -/
  gone : s.nb = .goneReleased ∨ s.nb = .goneSet → s.br.active = false
  /-- Under `RTNL` the notifier does not run. -/
  rtnl : s.life.notifies .down = false → s.nb = .idle
  publish : s.life = .publish → s.br.peerReleased = false
  activate : s.life = .look ∨ (∃ v, s.life = .activate v) → s.Open
  unpublished : s.life.unpublished = true → s.br.published = false
  closing : s.cleared = true → s.life.closing = true
  cleared : s.life = .clearPublished → s.cleared = true

section Gate

variable {s s' : GateState}

theorem GateInv.of_fresh (h : s.Fresh) : GateInv s where
  safe := by simp [GateState.Safe, h.active]
  opening := by simp [h.nb, EventPc.opening]
  upPublished := by simp [h.nb]
  gone := by simp [h.nb]
  rtnl := fun _ => h.nb
  publish := by simp [h.life]
  activate := by simp [h.life]
  unpublished := fun _ => h.published
  closing := by simp [h.cleared]
  cleared := by simp [h.life]

/-- A notifier that has something to do does not run under `RTNL`. -/
theorem GateInv.notifies (hs : GateInv s) (hnb : s.nb ≠ .idle) : s.life.notifies .down = true := by
  by_contra h
  exact hnb (hs.rtnl (by simpa using h))

/-- The notifier moves on and may write `active`. -/
theorem GateInv.move (hs : GateInv s) {v : Bool} (hv : v = true → s.Open) (hnb : s.nb ≠ .idle)
    {nb : EventPc} (hopen : nb.opening = true → s.Open)
    (hup : nb = .upPublished → s.br.peerReleased = false)
    (hgone : nb = .goneReleased ∨ nb = .goneSet → v = false) :
    GateInv { s with br := { s.br with active := v }, nb := nb } where
  safe := fun h => ⟨(hv h).published, (hv h).held, (hv h).cleared⟩
  opening := fun h => ⟨(hopen h).published, (hopen h).held, (hopen h).cleared⟩
  upPublished := hup
  gone := hgone
  rtnl := fun h => by simp [hs.notifies hnb] at h
  publish := hs.publish
  activate := fun h => ⟨(hs.activate h).published, (hs.activate h).held, (hs.activate h).cleared⟩
  unpublished := hs.unpublished
  closing := hs.closing
  cleared := hs.cleared

theorem GateInv.notifierStep (hs : GateInv s) {w : World} (hc : NoOverlap s (.notifier w))
    (h : notifierStep s w s.nb = some s') : GateInv s' := by
  have hkeep : s.br.active = true → s.Open := hs.safe
  cases hnb : s.nb with
  | idle => simp [hnb, WlanDriver.Bridge.notifierStep] at h
  | downReleased =>
    rw [hnb] at h
    cases h
    refine hs.move hkeep (by simp [hnb]) ?_ ?_ ?_ <;> split_ifs <;> simp [EventPc.opening]
  | downClear =>
    rw [hnb] at h
    cases h
    exact hs.move (by simp) (by simp [hnb]) (by simp [EventPc.opening]) (by simp) (by simp)
  | upReleased =>
    rw [hnb] at h
    cases h
    refine hs.move hkeep (by simp [hnb]) ?_ ?_ ?_ <;> split_ifs with hrel <;>
      simp_all [EventPc.opening]
  | upPublished =>
    rw [hnb] at h
    cases h
    have hopen : s.br.published = true → s.Open := by
      intro hpub
      refine ⟨hpub, hs.upPublished hnb, ?_⟩
      -- Behind the first write `published` is still set only until the second.
      by_contra hcl
      have hclosing := hs.closing (by simpa using hcl)
      have hpast : s.life.unpublished = true := by
        cases hlife : s.life <;> simp_all [LifePc.closing, LifePc.unpublished, NoOverlap]
      simp [hs.unpublished hpast] at hpub
    refine hs.move hkeep (by simp [hnb]) ?_ ?_ ?_ <;> split_ifs with hpub
    · exact fun _ => hopen hpub
    all_goals simp [EventPc.opening]
  | upLook =>
    rw [hnb] at h
    cases h
    have hopen := hs.opening (by simp [hnb, EventPc.opening])
    exact hs.move hkeep (by simp [hnb]) (fun _ => hopen) (by simp) (by simp)
  | upSet v =>
    rw [hnb] at h
    cases h
    refine hs.move (fun hv => ?_) (by simp [hnb]) (by simp [EventPc.opening]) (by simp) (by simp)
    exact hs.opening (by simp [hnb, hv, EventPc.opening])
  | goneClear peer =>
    rw [hnb] at h
    cases h
    refine hs.move (by simp) (by simp [hnb]) ?_ ?_ (by simp) <;> split_ifs <;> simp [EventPc.opening]
  | goneReleased =>
    rw [hnb] at h
    cases h
    have hoff := hs.gone (.inl hnb)
    refine hs.move hkeep (by simp [hnb]) ?_ ?_ (fun _ => hoff) <;> split_ifs <;>
      simp [EventPc.opening]
  | goneSet =>
    rw [hnb] at h
    cases h
    have hoff := hs.gone (.inr hnb)
    have hlife := hs.notifies (by simp [hnb])
    constructor
    case safe => simp [GateState.Safe, hoff]
    case activate | publish => cases hl : s.life <;> simp_all [LifePc.notifies]
    case unpublished => exact hs.unpublished
    case closing => exact hs.closing
    case cleared => exact hs.cleared
    all_goals simp [EventPc.opening]

/-- The build and the teardown move on without an access of their own. -/
theorem GateInv.setLife (hs : GateInv s) {life : LifePc}
    (hrtnl : life.notifies .down = false → s.nb = .idle)
    (hpublish : life = .publish → s.br.peerReleased = false)
    (hactivate : life = .look ∨ (∃ v, life = .activate v) → s.Open)
    (hunpub : life.unpublished = true → s.br.published = false)
    (hclosing : s.cleared = true → life.closing = true)
    (hcleared : life = .clearPublished → s.cleared = true) :
    GateInv { s with life := life } where
  safe := fun h => ⟨(hs.safe h).published, (hs.safe h).held, (hs.safe h).cleared⟩
  opening := fun h => ⟨(hs.opening h).published, (hs.opening h).held, (hs.opening h).cleared⟩
  upPublished := hs.upPublished
  gone := hs.gone
  rtnl := hrtnl
  publish := hpublish
  activate := fun h => ⟨(hactivate h).published, (hactivate h).held, (hactivate h).cleared⟩
  unpublished := hunpub
  closing := hclosing
  cleared := hcleared

theorem GateInv.lifetimeStep (hs : GateInv s) {w : World} (hc : NoOverlap s (.life w))
    (hrtnl : s.life.needsRtnl = true → s.nb = .idle) (h : lifetimeStep s w s.life = some s') :
    GateInv s' := by
  have hcl := hs.closing
  have hun := hs.unpublished
  cases hlife : s.life with
  | live | gone => simp [hlife, WlanDriver.Bridge.lifetimeStep] at h
  | registering =>
    rw [hlife] at h hcl hun hrtnl
    cases h
    exact hs.setLife (fun _ => hrtnl rfl) (by simp) (by simp) (fun _ => hun rfl) hcl (by simp)
  | check =>
    rw [hlife] at h hcl hun hrtnl
    cases h
    have hheld : Site.bindable ⟨s.br, 0, .zero⟩ w = true → s.br.peerReleased = false := by
      simp only [Site.bindable, Bool.and_eq_true, Bool.not_eq_true']
      exact fun h => h.1.1.1.1
    refine hs.setLife (fun _ => hrtnl rfl) ?_ ?_ (fun _ => hun rfl) ?_ ?_ <;> split_ifs with hb
    · exact fun _ => hheld hb
    all_goals simp_all [LifePc.closing]
  | publish =>
    rw [hlife] at h hcl hun hrtnl
    cases h
    have hopen : ({ s with br := { s.br with published := true }, life := .look } : GateState).Open :=
      ⟨rfl, hs.publish hlife, by simpa [LifePc.closing] using hcl⟩
    have hnb := hrtnl rfl
    constructor
    case safe => exact fun _ => hopen
    case activate => exact fun _ => hopen
    case closing => exact hcl
    all_goals simp [hnb, EventPc.opening, LifePc.unpublished]
  | look =>
    rw [hlife] at h hcl hun hrtnl
    cases h
    exact hs.setLife (fun _ => hrtnl rfl) (by simp) (fun _ => hs.activate (.inl hlife))
      (by simp [LifePc.unpublished]) hcl (by simp)
  | activate v =>
    rw [hlife] at h hcl hun hrtnl
    cases h
    have hopen := hs.activate (.inr ⟨v, hlife⟩)
    have hnb := hrtnl rfl
    constructor
    case safe => exact fun _ => ⟨hopen.published, hopen.held, hopen.cleared⟩
    case closing => exact hcl
    all_goals simp [hnb, EventPc.opening, LifePc.unpublished, LifePc.notifies]
  | clearActive =>
    rw [hlife] at h
    cases h
    have hopening : s.nb.opening = false := hc hlife
    constructor
    case safe => simp [GateState.Safe]
    case opening => simp [hopening]
    case upPublished => exact hs.upPublished
    all_goals simp [LifePc.unpublished, LifePc.notifies, LifePc.closing]
  | clearPublished =>
    rw [hlife] at h
    cases h
    have hdone := hs.cleared hlife
    have hoff : s.br.active = false := by
      by_contra hact
      simp [(hs.safe (by simpa using hact)).cleared] at hdone
    have hopening : s.nb.opening = false := by
      by_contra hop
      simp [(hs.opening (by simpa using hop)).cleared] at hdone
    constructor
    case safe => simp [GateState.Safe, hoff]
    case opening => simp [hopening]
    case upPublished => exact hs.upPublished
    case gone => exact hs.gone
    all_goals simp [LifePc.unpublished, LifePc.notifies, LifePc.closing]
  | failed =>
    rw [hlife] at h hun
    cases h
    have hpub := hun rfl
    constructor
    case safe => simp [GateState.Safe]
    case opening => exact fun h => ⟨(hs.opening h).published, (hs.opening h).held, (hs.opening h).cleared⟩
    case upPublished => exact hs.upPublished
    all_goals simp [hpub, LifePc.unpublished, LifePc.notifies, LifePc.closing]
  | unregister =>
    rw [hlife] at h hcl hun
    cases h
    exact hs.setLife (by simp [LifePc.notifies]) (by simp) (by simp) (fun _ => hun rfl) hcl (by simp)
  | replay =>
    rw [hlife] at h hcl hun hrtnl
    cases h
    exact hs.setLife (fun _ => hrtnl rfl) (by simp) (by simp) (fun _ => hun rfl) hcl (by simp)

theorem GateInv.step (hs : GateInv s) {a : GateAct} (hc : NoOverlap s a)
    (h : gateStep s a = some s') : GateInv s' := by
  cases a with
  | notifier w => exact hs.notifierStep hc h
  | life w =>
    simp only [gateStep, Option.ite_none_left_eq_some, not_and, not_not] at h
    exact hs.lifetimeStep hc h.1 h.2
  | event k peer =>
    simp only [gateStep, Option.ite_none_right_eq_some] at h
    obtain ⟨⟨hidle, hk⟩, h⟩ := h
    cases h
    have hnot : s.life.notifies .down = true := by
      cases hl : s.life <;> simp_all [LifePc.notifies]
    constructor
    case safe => exact fun h => ⟨(hs.safe h).published, (hs.safe h).held, (hs.safe h).cleared⟩
    case publish => exact hs.publish
    case activate => exact fun h => ⟨(hs.activate h).published, (hs.activate h).held, (hs.activate h).cleared⟩
    case unpublished => exact hs.unpublished
    case closing => exact hs.closing
    case cleared => exact hs.cleared
    case rtnl => simp [hnot]
    all_goals cases k <;> cases peer <;> simp [EventPc.start, EventPc.opening]
  | inetErr =>
    simp only [gateStep, Option.ite_none_right_eq_some] at h
    obtain ⟨hlife, h⟩ := h
    cases h
    have hun := hs.unpublished (by simp [hlife, LifePc.unpublished])
    have hcl := hs.closing
    rw [hlife] at hcl
    exact hs.setLife (by simp [LifePc.notifies]) (by simp) (by simp) (fun _ => hun)
      (fun h => by simpa [LifePc.closing] using hcl h) (by simp)
  | deinit =>
    simp only [gateStep, Option.ite_none_right_eq_some] at h
    obtain ⟨hlife, h⟩ := h
    cases h
    have hcl := hs.closing
    rw [hlife] at hcl
    exact hs.setLife (by simp [LifePc.notifies]) (by simp) (by simp) (by simp [LifePc.unpublished])
      (fun h => by simpa [LifePc.closing] using hcl h) (by simp)
  | releaseWork =>
    simp only [gateStep, Option.ite_none_right_eq_some] at h
    obtain ⟨hq, h⟩ := h
    cases h
    -- The peer was released before the work was queued.
    have hrel : s.br.peerReleased = true := by simp [Instance.peerReleased, hq]
    have hclosed : ¬s.Open := fun h => by simp [h.held] at hrel
    constructor
    case safe => exact fun h => absurd (hs.safe h) hclosed
    case opening => exact fun h => absurd (hs.opening h) hclosed
    case upPublished => exact fun h => by simp [hs.upPublished h] at hrel
    case gone => exact hs.gone
    case rtnl => exact hs.rtnl
    case publish => exact fun h => by simp [hs.publish h] at hrel
    case activate => exact fun h => absurd (hs.activate h) hclosed
    case unpublished => exact hs.unpublished
    case closing => exact hs.closing
    case cleared => exact hs.cleared

/-- **The gate.** In every run in which no notifier overlaps the two writes of the teardown, `active` is
set only while the instance is published and holds its peer, and never again once the teardown has
cleared it. -/
theorem gate_safe (h : gateSystem.ReachableWhen NoOverlap s) : s.Safe :=
  (System.ReachableWhen.invariant (fun _ hf => GateInv.of_fresh hf)
    (fun _ _ _ hs hc h => hs.step hc h) h).safe

end Gate

/-- All devices are there and ready. -/
def readyWorld : World where
  name _ := .empty
  byName _ := none
  netdev _ := none
  mHandle _ := none
  privNum _ := 0

/-- An instance before its publication. -/
def freshGate : GateState where
  br := newInstance { lookup := readyWorld } ⟨0, .empty, none, 0, 0, 0⟩ 0 0 1
  nb := .idle
  life := .registering
  cleared := false

theorem freshGate_fresh : freshGate.Fresh :=
  ⟨rfl, rfl, rfl, rfl, rfl, rfl⟩

/-- The build, up to the live instance. -/
def buildGate : List GateAct :=
  List.replicate 5 (GateAct.life readyWorld)

/-- A peer that comes up, and goes, while nothing is taken down. -/
theorem gate_safe_live :
    ∃ s, gateSystem.ReachableWhen NoOverlap s ∧ s.br.active = true ∧ s.Safe := by
  obtain ⟨s, hs, hact⟩ := System.exists_reachableWhen_of_runWhen (M := gateSystem) (C := NoOverlap)
    (P := fun s => s.br.active)
    (l := buildGate ++ [GateAct.event .up true] ++ List.replicate 4 (GateAct.notifier readyWorld))
    (.init freshGate_fresh) (by decide)
  exact ⟨s, hs, hact, gate_safe hs⟩

/-- The notifier of `NETDEV_UP` has read `published`; the teardown clears both flags; the notifier
opens the gate. -/
theorem gate_opened_behind_teardown :
    ¬∀ s, gateSystem.Reachable s → s.Safe := by
  intro h
  obtain ⟨s, hs, hbad⟩ := System.exists_reachable_of_run (M := gateSystem)
    (P := fun s => s.br.active && !s.br.published && s.cleared)
    (l := buildGate ++ [GateAct.event .up true] ++ List.replicate 3 (GateAct.notifier readyWorld) ++ [GateAct.deinit] ++
      List.replicate 2 (GateAct.life readyWorld) ++ [GateAct.notifier readyWorld]) freshGate_fresh (by decide)
  simp only [Bool.and_eq_true, Bool.not_eq_true'] at hbad
  have hpub := (h s hs hbad.1.1).published
  simp [hbad.1.2] at hpub

end WlanDriver.Bridge
