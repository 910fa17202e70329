import WlanDriver.Lib.System

/-!
# The adaptive keepalive timer

`moal_bridge_ka_kick` runs on every forwarded packet : it publishes the time in
`ka_last_fwd`, and arms the timer if `ka_armed` is 0. The timer callback
`moal_bridge_keepalive` re-queues itself while traffic is recent; after
`keepalive_idle_ms` without traffic it clears `ka_armed`, reads `ka_last_fwd` again, and
takes the flag back if a packet was forwarded in between.

The system interleaves any number of producers with the callback at the granularity of one
access : the clock read, the store and the load of `ka_last_fwd`, the read, the clear and the
compare-and-exchange of `ka_armed`, and the calls into the hrtimer core. The core runs one
callback of a timer at a time, dequeues the timer before it runs the callback, and queues it
again on `HRTIMER_RESTART` only. Time is in nanoseconds.

`ka_armed` counts the parties that may queue the timer or have queued it
(`kaArmed_eq_holders_step`). `KaQuiet` is the idle side : a disarmed timer has seen no packet
within the idle time. It needs the timestamps to be stored in the order they were read
(`stampsInOrder`) : a producer that reads the clock, is overtaken by another producer, and
then stores, moves `ka_last_fwd` back.
-/

set_option linter.unusedSectionVars false

namespace WlanDriver.Bridge

open Function

/-- The keepalive policy a bridge instance carries. -/
structure KaPolicy where
  keepaliveMs : ℤ
  keepaliveIdleMs : ℤ

/-- `ns_to_ktime((u64)keepalive_ms * NSEC_PER_MSEC)`. -/
def KaPolicy.interval (p : KaPolicy) : ℤ :=
  p.keepaliveMs * 1000000

/-- `(s64)idle_ms * 1000`, in microseconds. -/
def KaPolicy.cutoffUs (p : KaPolicy) : ℤ :=
  p.keepaliveIdleMs * 1000

/-- The idle time in nanoseconds. -/
def KaPolicy.idleNs (p : KaPolicy) : ℤ :=
  p.keepaliveIdleMs * 1000000

/-- `ktime_to_us(ktime_sub(now, last))`. -/
def ktimeIdleUs (now last : ℤ) : ℤ :=
  (now - last).tdiv 1000

theorem idleNs_le_of_cutoffUs_le {p : KaPolicy} (hi : 0 < p.keepaliveIdleMs) {now last : ℤ}
    (h : p.cutoffUs ≤ ktimeIdleUs now last) : last + p.idleNs ≤ now := by
  unfold KaPolicy.cutoffUs ktimeIdleUs at h
  unfold KaPolicy.idleNs
  rcases lt_or_ge (now - last) 0 with hneg | hpos
  · have hle := Int.tdiv_le_tdiv (c := 1000) (by omega) hneg.le
    rw [Int.zero_tdiv] at hle
    omega
  · rw [Int.tdiv_eq_ediv_of_nonneg hpos] at h
    omega

/-- `hrtimer_forward_now` : the expiry moved by whole intervals past `now`. -/
def hrtimerForwardNow (now expires interval : ℤ) : ℤ :=
  if now < expires then expires else expires + ((now - expires) / interval + 1) * interval

/-! ## Parties -/

/-- Where a producer is in `moal_bridge_ka_kick`. -/
inductive KickPc
  | idle
  /-- `ktime_get()` returned `t`. -/
  | stamped (t : ℤ)
  /-- `ka_last_fwd` is stored. -/
  | published (t : ℤ)
  /-- `atomic_read(&br->ka_armed)` returned 0. -/
  | sawDisarmed (t : ℤ)
  /-- The compare-and-exchange took `ka_armed` from 0 to 1; `hrtimer_start` is next. -/
  | won (t : ℤ)
  deriving DecidableEq

/-- Where the callback is in `moal_bridge_keepalive`. The two operands of `ktime_sub` are
unsequenced, so `test` and `retest` read the clock and `ka_last_fwd` in either order. -/
inductive CbPc
  | idle
  | entered
  /-- The first idle test. -/
  | test (now last : Option ℤ)
  /-- Idle : about to clear `ka_armed`. -/
  | idleSeen
  /-- `ka_armed` is cleared : the second idle test. -/
  | retest (now last : Option ℤ)
  /-- A packet was forwarded during the disarm : about to take `ka_armed` back. -/
  | recent
  /-- About to call `hrtimer_forward_now`. -/
  | forward
  /-- About to return `HRTIMER_RESTART`. -/
  | restart
  /-- About to return `HRTIMER_NORESTART`. -/
  | norestart
  deriving DecidableEq

/-- The producer took `ka_armed` and has yet to call `hrtimer_start`. -/
def KickPc.holds : KickPc → Bool
  | .won _ => true
  | _ => false

/-- The callback runs and has not given the timer up : it will queue the timer again, or clear
`ka_armed` first (`kaHolders_cbMove`). -/
def CbPc.holds : CbPc → Bool
  | .entered | .test _ _ | .idleSeen | .forward | .restart => true
  | _ => false

/-- The keepalive state of a bridge with the producers `ι`. `fwd` and `reread` are history :
when each packet was forwarded, and the clock reading of the callback's last second test. -/
structure KaState (ι : Type) where
  clock : ℤ
  kaLastFwd : ℤ
  kaArmed : Bool
  enqueued : Bool
  expires : ℤ
  cb : CbPc
  kick : ι → KickPc
  fwd : List ℤ
  reread : Option ℤ

/-- The accesses of `moal_bridge_ka_kick`, in order. -/
inductive KickAct
  | stamp
  | store
  | read
  | cas
  | start
  deriving DecidableEq

/-- The accesses of `moal_bridge_keepalive`, with the hrtimer core's `fire` before and `ret`
after it. -/
inductive CbAct
  | fire
  | enter
  | now
  | last
  | decide
  | clear
  | cas
  | forward
  | ret
  deriving DecidableEq

/-- One access of one party, or the passing of time. -/
inductive KaAct (ι : Type)
  | tick (d : ℕ)
  | kick (i : ι) (k : KickAct)
  | cb (c : CbAct)
  deriving DecidableEq

section

variable {ι : Type} [DecidableEq ι]

/-- The producer's steps, in the order of `moal_bridge_ka_kick`. -/
def kickStep (p : KaPolicy) (s : KaState ι) (i : ι) : KickAct → Option (KaState ι)
  | .stamp =>
    match s.kick i with
    | .idle =>
      if p.keepaliveMs ≤ 0 ∨ p.keepaliveIdleMs ≤ 0 then some s
      else some { s with
        kick := update s.kick i (.stamped s.clock), fwd := s.clock :: s.fwd }
    | _ => none
  | .store =>
    match s.kick i with
    | .stamped t =>
      some { s with kaLastFwd := t, kick := update s.kick i (.published t) }
    | _ => none
  | .read =>
    match s.kick i with
    | .published t =>
      some { s with
        kick := update s.kick i (if s.kaArmed then .idle else .sawDisarmed t) }
    | _ => none
  | .cas =>
    match s.kick i with
    | .sawDisarmed t =>
      if s.kaArmed then some { s with kick := update s.kick i .idle }
      else some { s with kaArmed := true, kick := update s.kick i (.won t) }
    | _ => none
  | .start =>
    match s.kick i with
    | .won _ =>
      some { s with
        enqueued := true, expires := s.clock + p.interval,
        kick := update s.kick i .idle }
    | _ => none

/-- The callback's steps, in the order of `moal_bridge_keepalive`, and the hrtimer core around
them. -/
def cbStep (p : KaPolicy) (s : KaState ι) : CbAct → Option (KaState ι)
  | .fire =>
    match s.cb with
    | .idle =>
      if s.enqueued ∧ s.expires ≤ s.clock then
        some { s with enqueued := false, cb := .entered }
      else none
    | _ => none
  | .enter =>
    match s.cb with
    | .entered =>
      some { s with cb :=
        if p.keepaliveMs ≤ 0 then .norestart
        else if 0 < p.keepaliveIdleMs then .test none none
        else .forward }
    | _ => none
  | .now =>
    match s.cb with
    | .test none last => some { s with cb := .test (some s.clock) last }
    | .retest none last => some { s with cb := .retest (some s.clock) last }
    | _ => none
  | .last =>
    match s.cb with
    | .test now none => some { s with cb := .test now (some s.kaLastFwd) }
    | .retest now none => some { s with cb := .retest now (some s.kaLastFwd) }
    | _ => none
  | .decide =>
    match s.cb with
    | .test (some now) (some last) =>
      some { s with cb := if p.cutoffUs ≤ ktimeIdleUs now last then .idleSeen else .forward }
    | .retest (some now) (some last) =>
      some { s with
        reread := some now,
        cb := if ktimeIdleUs now last < p.cutoffUs then .recent else .norestart }
    | _ => none
  | .clear =>
    match s.cb with
    | .idleSeen => some { s with kaArmed := false, cb := .retest none none }
    | _ => none
  | .cas =>
    match s.cb with
    | .recent =>
      if s.kaArmed then some { s with cb := .norestart }
      else some { s with kaArmed := true, cb := .forward }
    | _ => none
  | .forward =>
    match s.cb with
    | .forward =>
      some { s with expires := hrtimerForwardNow s.clock s.expires p.interval, cb := .restart }
    | _ => none
  | .ret =>
    match s.cb with
    | .restart => some { s with enqueued := true, cb := .idle }
    | .norestart => some { s with cb := .idle }
    | _ => none

/-- A step of the keepalive system. -/
def kaStep (p : KaPolicy) (s : KaState ι) : KaAct ι → Option (KaState ι)
  | .tick d => some { s with clock := s.clock + d }
  | .kick i k => kickStep p s i k
  | .cb c => cbStep p s c

/-- The state `__moal_bridge_init_locked` leaves at time `now` : a free-running timer is armed
and queued, an adaptive one waits for the first packet. -/
def kaInit (p : KaPolicy) (now : ℤ) : KaState ι where
  clock := now
  kaLastFwd := now
  kaArmed := decide (0 < p.keepaliveMs ∧ p.keepaliveIdleMs ≤ 0)
  enqueued := decide (0 < p.keepaliveMs ∧ p.keepaliveIdleMs ≤ 0)
  expires := now + p.interval
  cb := .idle
  kick _ := .idle
  fwd := []
  reread := none

/-- The keepalive system of a bridge with policy `p`. -/
def kaSystem (ι : Type) [DecidableEq ι] (p : KaPolicy) : System (KaState ι) (KaAct ι) where
  init s := ∃ now, s = kaInit p now
  step := kaStep p

/-! ## What a step can do -/

/-- What a step of the producer `i` can do. -/
inductive KickMove (p : KaPolicy) (s : KaState ι) (i : ι) : KickAct → KaState ι → Prop
  | off : KickMove p s i .stamp s
  | stamp (h : s.kick i = .idle) : KickMove p s i .stamp { s with
      kick := update s.kick i (.stamped s.clock), fwd := s.clock :: s.fwd }
  | store {t : ℤ} (h : s.kick i = .stamped t) : KickMove p s i .store { s with
      kaLastFwd := t, kick := update s.kick i (.published t) }
  | readArmed {t : ℤ} (h : s.kick i = .published t) (ha : s.kaArmed = true) :
      KickMove p s i .read { s with kick := update s.kick i .idle }
  | readDisarmed {t : ℤ} (h : s.kick i = .published t) (ha : s.kaArmed = false) :
      KickMove p s i .read { s with kick := update s.kick i (.sawDisarmed t) }
  | lose {t : ℤ} (h : s.kick i = .sawDisarmed t) (ha : s.kaArmed = true) :
      KickMove p s i .cas { s with kick := update s.kick i .idle }
  | win {t : ℤ} (h : s.kick i = .sawDisarmed t) (ha : s.kaArmed = false) :
      KickMove p s i .cas { s with kaArmed := true, kick := update s.kick i (.won t) }
  | start {t : ℤ} (h : s.kick i = .won t) : KickMove p s i .start { s with
      enqueued := true, expires := s.clock + p.interval, kick := update s.kick i .idle }

theorem kickMove_of_kickStep {p : KaPolicy} {s s' : KaState ι} {i : ι} {k : KickAct}
    (hs : kickStep p s i k = some s') : KickMove p s i k s' := by
  cases k with
  | stamp =>
    cases hpc : s.kick i <;> simp only [kickStep, hpc, reduceCtorEq] at hs
    split_ifs at hs <;> cases hs
    · exact .off
    · exact .stamp hpc
  | store =>
    cases hpc : s.kick i <;> simp only [kickStep, hpc, reduceCtorEq] at hs
    cases hs
    exact .store hpc
  | read =>
    cases hpc : s.kick i <;> simp only [kickStep, hpc, reduceCtorEq] at hs
    split_ifs at hs with ha <;> cases hs
    · exact .readArmed hpc ha
    · exact .readDisarmed hpc (by simpa using ha)
  | cas =>
    cases hpc : s.kick i <;> simp only [kickStep, hpc, reduceCtorEq] at hs
    split_ifs at hs with ha <;> cases hs
    · exact .lose hpc ha
    · exact .win hpc (by simpa using ha)
  | start =>
    cases hpc : s.kick i <;> simp only [kickStep, hpc, reduceCtorEq] at hs
    cases hs
    exact .start hpc

/-- What a step of the callback of an adaptive timer, or of the hrtimer core around it, can do. -/
inductive CbMove (p : KaPolicy) (s : KaState ι) : KaState ι → Prop
  | fire (h : s.cb = .idle) (he : s.enqueued = true) :
      CbMove p s { s with enqueued := false, cb := .entered }
  | enter (h : s.cb = .entered) : CbMove p s { s with cb := .test none none }
  | testRead {now last now' last' : Option ℤ} (h : s.cb = .test now last) :
      CbMove p s { s with cb := .test now' last' }
  | retestNow {last : Option ℤ} (h : s.cb = .retest none last) :
      CbMove p s { s with cb := .retest (some s.clock) last }
  | retestLast {now : Option ℤ} (h : s.cb = .retest now none) :
      CbMove p s { s with cb := .retest now (some s.kaLastFwd) }
  | testIdle {now last : Option ℤ} (h : s.cb = .test now last) :
      CbMove p s { s with cb := .idleSeen }
  | testBusy {now last : Option ℤ} (h : s.cb = .test now last) :
      CbMove p s { s with cb := .forward }
  | retestBusy {now last : ℤ} (h : s.cb = .retest (some now) (some last)) :
      CbMove p s { s with reread := some now, cb := .recent }
  | retestIdle {now last : ℤ} (h : s.cb = .retest (some now) (some last))
      (hc : p.cutoffUs ≤ ktimeIdleUs now last) :
      CbMove p s { s with reread := some now, cb := .norestart }
  | clear (h : s.cb = .idleSeen) :
      CbMove p s { s with kaArmed := false, cb := .retest none none }
  | lose (h : s.cb = .recent) (ha : s.kaArmed = true) : CbMove p s { s with cb := .norestart }
  | win (h : s.cb = .recent) (ha : s.kaArmed = false) :
      CbMove p s { s with kaArmed := true, cb := .forward }
  | forward (h : s.cb = .forward) : CbMove p s { s with
      expires := hrtimerForwardNow s.clock s.expires p.interval, cb := .restart }
  | restart (h : s.cb = .restart) : CbMove p s { s with enqueued := true, cb := .idle }
  | norestart (h : s.cb = .norestart) : CbMove p s { s with cb := .idle }

theorem cbMove_of_cbStep {p : KaPolicy} (hk : 0 < p.keepaliveMs) (hi : 0 < p.keepaliveIdleMs)
    {s s' : KaState ι} {c : CbAct} (hs : cbStep p s c = some s') : CbMove p s s' := by
  cases c with
  | fire =>
    cases hpc : s.cb <;> simp only [cbStep, hpc, reduceCtorEq] at hs
    split_ifs at hs with he
    cases hs
    exact .fire hpc he.1
  | enter =>
    cases hpc : s.cb <;>
      simp only [cbStep, hpc, reduceCtorEq, not_le.2 hk, hi, if_true, if_false] at hs
    cases hs
    exact .enter hpc
  | now =>
    simp only [cbStep] at hs
    split at hs <;> cases hs
    · exact .testRead ‹_›
    · exact .retestNow ‹_›
  | last =>
    simp only [cbStep] at hs
    split at hs <;> cases hs
    · exact .testRead ‹_›
    · exact .retestLast ‹_›
  | decide =>
    simp only [cbStep] at hs
    split at hs
    · split_ifs at hs <;> cases hs
      · exact .testIdle ‹_›
      · exact .testBusy ‹_›
    · split_ifs at hs with hc <;> cases hs
      · exact .retestBusy ‹_›
      · exact .retestIdle ‹_› (not_lt.1 hc)
    · cases hs
  | clear =>
    cases hpc : s.cb <;> simp only [cbStep, hpc, reduceCtorEq] at hs
    cases hs
    exact .clear hpc
  | cas =>
    cases hpc : s.cb <;> simp only [cbStep, hpc, reduceCtorEq] at hs
    split_ifs at hs with ha <;> cases hs
    · exact .lose hpc ha
    · exact .win hpc (by simpa using ha)
  | forward =>
    cases hpc : s.cb <;> simp only [cbStep, hpc, reduceCtorEq] at hs
    cases hs
    exact .forward hpc
  | ret =>
    simp only [cbStep] at hs
    split at hs <;> cases hs
    · exact .restart ‹_›
    · exact .norestart ‹_›

/-! ## Who may queue the timer -/

variable [Fintype ι]

/-- What a producer counts for among the holders. -/
def KickPc.weight (k : KickPc) : ℕ :=
  k.holds.toNat

@[simp] theorem KickPc.weight_idle : KickPc.weight .idle = 0 := rfl

@[simp] theorem KickPc.weight_stamped (t : ℤ) : KickPc.weight (.stamped t) = 0 := rfl

@[simp] theorem KickPc.weight_published (t : ℤ) : KickPc.weight (.published t) = 0 := rfl

@[simp] theorem KickPc.weight_sawDisarmed (t : ℤ) : KickPc.weight (.sawDisarmed t) = 0 := rfl

@[simp] theorem KickPc.weight_won (t : ℤ) : KickPc.weight (.won t) = 1 := rfl

/-- The parties that hold the right to queue the timer, and the queued timer itself. -/
def kaHolders (s : KaState ι) : ℕ :=
  poolSum KickPc.weight s.kick + s.cb.holds.toNat + s.enqueued.toNat

theorem kaHolders_kickMove {p : KaPolicy} {s s' : KaState ι} {i : ι} {k : KickAct}
    (h : kaHolders s = s.kaArmed.toNat) (hs : KickMove p s i k s') :
    kaHolders s' = s'.kaArmed.toNat := by
  unfold kaHolders at *
  cases hs with
  | off => exact h
  | stamp hpc => rwa [poolSum_update_of_eq (by simp [hpc])]
  | store hpc => rwa [poolSum_update_of_eq (by simp [hpc])]
  | readArmed hpc _ => rwa [poolSum_update_of_eq (by simp [hpc])]
  | readDisarmed hpc _ => rwa [poolSum_update_of_eq (by simp [hpc])]
  | lose hpc _ => rwa [poolSum_update_of_eq (by simp [hpc])]
  | @win t hpc ha =>
    have hsum := poolSum_update KickPc.weight s.kick i (.won t)
    simp only [hpc, KickPc.weight_won, KickPc.weight_sawDisarmed] at hsum
    simp only [ha, Bool.toNat_true, Bool.toNat_false] at h ⊢
    omega
  | @start t hpc =>
    -- the producer's own share leaves no room for a timer that is queued already
    have hsum := poolSum_update KickPc.weight s.kick i .idle
    have hle := le_poolSum KickPc.weight s.kick i
    have hone := Bool.toNat_le s.kaArmed
    simp only [hpc, KickPc.weight_won, KickPc.weight_idle] at hsum hle
    simp only [Bool.toNat_true]
    omega

theorem kaHolders_cbMove {p : KaPolicy} {s s' : KaState ι} (h : kaHolders s = s.kaArmed.toNat)
    (hs : CbMove p s s') : kaHolders s' = s'.kaArmed.toNat := by
  have hone := Bool.toNat_le s.kaArmed
  unfold kaHolders at *
  cases hs with
  | fire hpc he =>
    simp only [hpc, he, CbPc.holds, Bool.toNat_true, Bool.toNat_false] at h ⊢
    omega
  | clear hpc =>
    simp only [hpc, CbPc.holds, Bool.toNat_true, Bool.toNat_false] at h ⊢
    omega
  | win hpc ha =>
    simp only [hpc, ha, CbPc.holds, Bool.toNat_true, Bool.toNat_false] at h ⊢
    omega
  | restart hpc =>
    simp only [hpc, CbPc.holds, Bool.toNat_true, Bool.toNat_false] at h ⊢
    omega
  | _ => simp_all [CbPc.holds]

/-- `ka_armed` is 1 exactly when one party may queue the timer or the timer is queued. -/
theorem kaArmed_eq_holders_step {p : KaPolicy} (hk : 0 < p.keepaliveMs)
    (hi : 0 < p.keepaliveIdleMs) {s s' : KaState ι} {a : KaAct ι}
    (h : kaHolders s = s.kaArmed.toNat) (hs : kaStep p s a = some s') :
    kaHolders s' = s'.kaArmed.toNat := by
  cases a with
  | tick d =>
    cases hs
    exact h
  | kick i k => exact kaHolders_kickMove h (kickMove_of_kickStep hs)
  | cb c => exact kaHolders_cbMove h (cbMove_of_cbStep hk hi hs)

/-! ## A disarmed timer has seen no recent packet -/

/-- The timestamp of a packet whose `moal_bridge_ka_kick` has not met `ka_armed` yet. -/
def KickPc.inFlight : KickPc → Option ℤ
  | .stamped t | .published t | .sawDisarmed t => some t
  | .idle | .won _ => none

/-- Some producer is in flight with a packet stamped `t`. -/
def KaInFlight (kick : ι → KickPc) (t : ℤ) : Prop :=
  ∃ i, (kick i).inFlight = some t

/-- A producer that keeps its packet in flight, or has none, takes no packet out of flight. -/
theorem KaInFlight.update {kick : ι → KickPc} {t : ℤ} (h : KaInFlight kick t) {i : ι} {k : KickPc}
    (hk : ∀ u, (kick i).inFlight = some u → k.inFlight = some u) :
    KaInFlight (update kick i k) t := by
  obtain ⟨j, hj⟩ := h
  refine ⟨j, ?_⟩
  by_cases hji : j = i
  · subst hji
    simpa using hk t hj
  · simpa [hji] using hj

theorem stamped_update {kick : ι → KickPc} {t : ℤ} (h : ∃ j, kick j = .stamped t) {i : ι}
    {k : KickPc} (hi : kick i ≠ .stamped t) : ∃ j, update kick i k j = .stamped t := by
  obtain ⟨j, hj⟩ := h
  have hji : j ≠ i := by
    rintro rfl
    exact hi hj
  exact ⟨j, by simpa [hji] using hj⟩

/-- What is known of a forwarded packet `t` while `ka_armed` is 0. -/
def KaSettled (p : KaPolicy) (s : KaState ι) (t : ℤ) : Prop :=
  match s.cb with
  | .idle | .norestart => ∃ c, s.reread = some c ∧ t + p.idleNs ≤ c
  | .retest _ (some last) => t ≤ last
  | _ => True

/-- The idle side of the keepalive : every packet's timestamp is stored or about to be, and
while `ka_armed` is 0 a packet that left `moal_bridge_ka_kick` is an idle time old. -/
structure KaQuiet (p : KaPolicy) (s : KaState ι) : Prop where
  stored : ∀ t ∈ s.fwd, t ≤ s.kaLastFwd ∨ ∃ i, s.kick i = .stamped t
  settled : s.kaArmed = false → ∀ t ∈ s.fwd, KaInFlight s.kick t ∨ KaSettled p s t

/-- Timestamps are stored in the order in which they were read : no producer stores a time older
than the one already stored. -/
def stampsInOrder (s : KaState ι) : KaAct ι → Bool
  | .kick i .store =>
    match s.kick i with
    | .stamped t => decide (s.kaLastFwd ≤ t)
    | _ => true
  | _ => true

theorem kaQuiet_kickMove {p : KaPolicy} {s s' : KaState ι} {i : ι} {k : KickAct}
    (hq : KaQuiet p s) (hc : stampsInOrder s (.kick i k) = true) (hs : KickMove p s i k s') :
    KaQuiet p s' := by
  obtain ⟨hst, hse⟩ := hq
  cases hs with
  | off => exact ⟨hst, hse⟩
  | stamp hpc =>
    refine ⟨fun t ht => ?_, fun ha t ht => ?_⟩
    · rcases List.mem_cons.mp ht with rfl | ht
      · exact .inr ⟨i, by simp⟩
      · exact (hst t ht).imp_right fun h => stamped_update h (by simp [hpc])
    · rcases List.mem_cons.mp ht with rfl | ht
      · exact .inl ⟨i, by simp [KickPc.inFlight]⟩
      · exact (hse ha t ht).imp_left fun h => h.update (by simp [hpc, KickPc.inFlight])
  | @store u hpc =>
    -- the only step that needs the order of the stores
    have hle : s.kaLastFwd ≤ u := by simpa [stampsInOrder, hpc] using hc
    refine ⟨fun t ht => ?_, fun ha t ht => ?_⟩
    · by_cases htu : t = u
      · exact .inl htu.le
      · refine (hst t ht).imp (fun h => h.trans hle) fun h => stamped_update h ?_
        rw [hpc]
        rintro ⟨⟩
        exact htu rfl
    · exact (hse ha t ht).imp_left fun h => h.update (by simp [hpc, KickPc.inFlight])
  | readArmed hpc ha =>
    refine ⟨fun t ht => ?_, fun ha' => ?_⟩
    · exact (hst t ht).imp_right fun h => stamped_update h (by simp [hpc])
    · exact absurd ha (by simpa using ha')
  | readDisarmed hpc ha =>
    refine ⟨fun t ht => ?_, fun ha' t ht => ?_⟩
    · exact (hst t ht).imp_right fun h => stamped_update h (by simp [hpc])
    · exact (hse ha t ht).imp_left fun h => h.update (by simp [hpc, KickPc.inFlight])
  | lose hpc ha =>
    refine ⟨fun t ht => ?_, fun ha' => ?_⟩
    · exact (hst t ht).imp_right fun h => stamped_update h (by simp [hpc])
    · exact absurd ha (by simpa using ha')
  | win hpc ha =>
    refine ⟨fun t ht => ?_, fun ha' => ?_⟩
    · exact (hst t ht).imp_right fun h => stamped_update h (by simp [hpc])
    · cases ha'
  | start hpc =>
    refine ⟨fun t ht => ?_, fun ha t ht => ?_⟩
    · exact (hst t ht).imp_right fun h => stamped_update h (by simp [hpc])
    · exact (hse ha t ht).imp_left fun h => h.update (by simp [hpc, KickPc.inFlight])

/-- A callback that has not given the timer up runs under `ka_armed`. -/
theorem kaArmed_of_cbHolds {s : KaState ι} (hh : kaHolders s = s.kaArmed.toNat)
    (h : s.cb.holds = true) : s.kaArmed = true := by
  cases ha : s.kaArmed with
  | true => rfl
  | false =>
    unfold kaHolders at hh
    simp only [h, ha, Bool.toNat_true, Bool.toNat_false] at hh
    omega

theorem kaQuiet_cbMove {p : KaPolicy} (hi : 0 < p.keepaliveIdleMs) {s s' : KaState ι}
    (hh : kaHolders s = s.kaArmed.toNat) (hq : KaQuiet p s) (hs : CbMove p s s') :
    KaQuiet p s' := by
  obtain ⟨hst, hse⟩ := hq
  refine ⟨by cases hs <;> exact hst, ?_⟩
  cases hs with
  | @retestNow last hpc =>
    intro ha t ht
    cases last with
    | none => exact .inr trivial
    | some last => simpa [KaSettled, hpc] using hse ha t ht
  | retestLast hpc =>
    intro ha t ht
    exact (hst t ht).symm.imp_left fun ⟨i, h⟩ => ⟨i, by simp [h, KickPc.inFlight]⟩
  | @retestIdle now last hpc hc =>
    intro ha t ht
    have h := hse ha t ht
    simp only [KaSettled, hpc] at h
    refine h.imp_right fun h => ⟨now, rfl, ?_⟩
    have := idleNs_le_of_cutoffUs_le hi hc
    omega
  | lose hpc ha =>
    intro ha'
    exact absurd ha (by simpa using ha')
  | win hpc ha => nofun
  | restart hpc =>
    intro ha
    have := kaArmed_of_cbHolds hh (by simp [hpc, CbPc.holds])
    exact absurd this (by simpa using ha)
  | norestart hpc =>
    intro ha t ht
    simpa [KaSettled, hpc] using hse ha t ht
  | _ => exact fun _ _ _ => .inr trivial

/-- What the keepalive promises of a state : at most one party may queue the timer, and none
while it is queued; an armed timer is queued or about to be; and a timer left disarmed has seen
no packet within the idle time before the callback's last second test, and none since. -/
structure KaSafe (p : KaPolicy) (s : KaState ι) : Prop where
  oneHolder : kaHolders s ≤ 1
  armed : s.kaArmed = true →
    s.enqueued = true ∨ s.cb.holds = true ∨ ∃ i, (s.kick i).holds = true
  quiet : s.kaArmed = false → s.cb = .idle → (∀ i, s.kick i = .idle) → s.fwd = [] ∨
    ∃ c, s.reread = some c ∧ (∀ t ∈ s.fwd, ¬(c - p.idleNs < t ∧ t ≤ c)) ∧ ∀ t ∈ s.fwd, t ≤ c

theorem kaSafe_of_inv {p : KaPolicy} (hi : 0 < p.keepaliveIdleMs) {s : KaState ι}
    (hh : kaHolders s = s.kaArmed.toNat) (hq : KaQuiet p s) : KaSafe p s := by
  refine ⟨hh.trans_le (Bool.toNat_le _), fun ha => ?_, fun ha hcb hidle => ?_⟩
  · by_contra! hno
    obtain ⟨he, hc, hk⟩ := hno
    have hzero : poolSum KickPc.weight s.kick = 0 :=
      poolSum_eq_zero.2 fun i => by simpa [KickPc.weight] using hk i
    unfold kaHolders at hh
    simp only [hzero, Bool.eq_false_iff.2 hc, Bool.eq_false_iff.2 he, ha] at hh
    cases hh
  · have hold : ∀ t ∈ s.fwd, ∃ c, s.reread = some c ∧ t + p.idleNs ≤ c := by
      intro t ht
      rcases hq.settled ha t ht with ⟨i, h⟩ | h
      · simp [hidle i, KickPc.inFlight] at h
      · simpa [KaSettled, hcb] using h
    cases hf : s.fwd with
    | nil => exact .inl rfl
    | cons t l =>
      rw [← hf]
      obtain ⟨c, hc, -⟩ := hold t (by simp [hf])
      have hidleNs : 0 < p.idleNs := by unfold KaPolicy.idleNs; omega
      have hle : ∀ u ∈ s.fwd, u + p.idleNs ≤ c := by
        intro u hu
        obtain ⟨c', hc', hle⟩ := hold u hu
        rw [hc, Option.some.injEq] at hc'
        omega
      refine .inr ⟨c, hc, fun u hu => ?_, fun u hu => ?_⟩
      · have := hle u hu
        omega
      · have := hle u hu
        omega

/-- Along every run of an adaptive keepalive whose timestamps are stored in order, with any
number of producers, the timer is armed by at most one party, is never left armed and unqueued,
and is left disarmed only after an idle time without packets. -/
theorem keepalive_safe_of_stampsInOrder {p : KaPolicy} (hk : 0 < p.keepaliveMs)
    (hi : 0 < p.keepaliveIdleMs) {s : KaState ι}
    (h : (kaSystem ι p).ReachableWhen (fun s a => stampsInOrder s a = true) s) : KaSafe p s := by
  have hinv : kaHolders s = s.kaArmed.toNat ∧ KaQuiet p s := by
    refine System.ReachableWhen.invariant
      (I := fun s => kaHolders s = s.kaArmed.toNat ∧ KaQuiet p s) ?_ ?_ h
    · rintro _ ⟨now, rfl⟩
      have hidle : ¬p.keepaliveIdleMs ≤ 0 := by omega
      refine ⟨?_, ⟨by simp [kaInit], by simp [kaInit]⟩⟩
      simp [kaHolders, kaInit, hidle, CbPc.holds, poolSum]
    · rintro s a s' ⟨hh, hq⟩ hc hs
      refine ⟨kaArmed_eq_holders_step hk hi hh hs, ?_⟩
      cases a with
      | tick d =>
        cases hs
        exact ⟨hq.stored, hq.settled⟩
      | kick i k => exact kaQuiet_kickMove hq hc (kickMove_of_kickStep hs)
      | cb c => exact kaQuiet_cbMove hi hh hq (cbMove_of_cbStep hk hi hs)
  exact kaSafe_of_inv hi hinv.1 hinv.2

/-- The labels of one whole callback run that ends in `HRTIMER_RESTART`. -/
def cbKeep : List (KaAct ι) :=
  [.cb .fire, .cb .enter, .cb .now, .cb .last, .cb .decide, .cb .forward, .cb .ret]

/-- The labels of one whole callback run that disarms the timer. -/
def cbDisarm : List (KaAct ι) :=
  [.cb .fire, .cb .enter, .cb .now, .cb .last, .cb .decide, .cb .clear, .cb .last, .cb .now,
    .cb .decide, .cb .ret]

/-- The labels of one whole kick that arms the timer. -/
def kickArms (i : ι) : List (KaAct ι) :=
  [.kick i .stamp, .kick i .store, .kick i .read, .kick i .cas, .kick i .start]

end

/-- With 10 ms and 25 ms : a packet arms the timer, the callback keeps it twice and disarms it
30 ms after the packet. -/
theorem keepalive_safe_after_idle : ∃ s : KaState (Fin 2),
    (s.kaArmed = false ∧ s.fwd = [0] ∧ s.reread = some 30000000) ∧ KaSafe ⟨10, 25⟩ s := by
  obtain ⟨s, hs, hP⟩ := System.exists_reachableWhen_of_runWhen
    (M := kaSystem (Fin 2) ⟨10, 25⟩) (C := fun s a => stampsInOrder s a = true)
    (P := fun s => decide (s.kaArmed = false ∧ s.fwd = [0] ∧ s.reread = some 30000000))
    (l := kickArms 0 ++ [KaAct.tick 10000000] ++ cbKeep ++ [KaAct.tick 10000000] ++ cbKeep ++
      [KaAct.tick 10000000] ++ cbDisarm)
    (.init ⟨0, rfl⟩) (by decide +kernel)
  exact ⟨s, of_decide_eq_true hP, keepalive_safe_of_stampsInOrder (by decide) (by decide) hs⟩

/-- With 10 ms and 25 ms : producer 0 reads the clock at 0 and is overtaken by producer 1, whose
packet at 5 ms arms the timer; then producer 0 stores its older time, and the callback disarms
the timer at 25 ms, 20 ms after producer 1's packet. -/
theorem keepalive_disarms_on_stale_stamp :
    ¬∀ s, (kaSystem (Fin 2) ⟨10, 25⟩).Reachable s → KaSafe ⟨10, 25⟩ s := by
  intro hall
  obtain ⟨s, hs, hP⟩ := System.exists_reachable_of_run (M := kaSystem (Fin 2) ⟨10, 25⟩)
    (P := fun s => decide (s.kaArmed = false ∧ s.cb = .idle ∧ (∀ i, s.kick i = .idle) ∧
      s.fwd = [5000000, 0] ∧ s.reread = some 25000000))
    (l := [KaAct.kick 0 .stamp, .tick 5000000] ++ kickArms 1 ++ [KaAct.kick 0 .store, .kick 0 .read,
      .tick 10000000] ++ cbKeep ++ [KaAct.tick 10000000] ++ cbDisarm)
    ⟨0, rfl⟩ (by decide +kernel)
  obtain ⟨ha, hcb, hidle, hfwd, hre⟩ := of_decide_eq_true hP
  rcases (hall s hs).quiet ha hcb hidle with h | ⟨c, hc, hold, -⟩
  · simp [hfwd] at h
  · rw [hre, Option.some.injEq] at hc
    subst hc
    exact hold 5000000 (by simp [hfwd]) (by decide)

end WlanDriver.Bridge
