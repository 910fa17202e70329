import WlanDriver.Wmm.Queues
import WlanDriver.Lib.Excise
import Mathlib.Data.Fin.VecNotation

/-!
# The contention of the queues

The queues of an interface contend as the access categories of a station do : each has what is left of its AIFS and of its
backoff, `wlan_wmm_contention_get_winner` takes the least time left of the queues with packets off all of them, and the first
that comes to zero wins. `Decided` is what a call should do.

`contention_winner` : it does, from every state that calls reach; and where `ecwmin` is not above `ecwmax`, `ecw` stays
between them. Nothing compares the two, and above it `ecw` is not between (`contention_unordered`).
-/

namespace WlanDriver.Wmm

open Function List

/-- What the contention takes of `IEEEtypes_WmmAcParameters_t`, also `mlan_wmm_param`. -/
structure WmmAcParameters where
  aifsn : Fin 16
  ecwMin : Fin 16
  ecwMax : Fin 16

/-- `mlan_wmm_contention`. What is assigned to `ecw` is at most 15. -/
structure Contention where
  param : WmmAcParameters
  ecw : ℕ
  moveCwOnLost : Bool
  remainingAifs : UInt16
  remainingBackoff : UInt16

namespace Contention

variable (c : Contention) (rnd : UInt32)

/-- `wlan_wmm_txq_contention_reset_aifs`. -/
def resetAifs : Contention :=
  { c with remainingAifs := UInt16.ofNat (c.param.aifsn * 9 + 16) }

/-- `wlan_wmm_txq_contention_reset_backoff`, with the number that `wmm_get_random_num` gives. -/
def resetBackoff : Contention :=
  { c with remainingBackoff := UInt16.ofNat ((rnd.toNat &&& ((1 <<< c.ecw) - 1)) * 9) }

/-- `wlan_wmm_txq_get_remaining_time`. -/
def getRemainingTime : ℕ :=
  c.remainingAifs.toNat + c.remainingBackoff.toNat

/-- `wlan_wmm_txq_count_donw`. -/
def countDonw (duration : ℕ) : Contention × Bool :=
  let del := if 0 < c.remainingAifs then min c.remainingAifs.toNat duration else 0
  let aifs := c.remainingAifs - UInt16.ofNat del
  let backoff := if aifs = 0 then c.remainingBackoff - UInt16.ofNat (duration - del) else c.remainingBackoff
  ({ c with remainingAifs := aifs, remainingBackoff := backoff }, backoff = 0 ∧ aifs = 0)

/-- `wlan_wmm_txq_win`. -/
def win : Contention :=
  ({ c with ecw := c.param.ecwMin }.resetAifs).resetBackoff rnd

/-- `wlan_wmm_txq_lost`. -/
def lost : Contention :=
  if c.moveCwOnLost then { c.resetAifs with ecw := min (c.ecw + 1) c.param.ecwMax }.resetBackoff rnd else c.resetAifs

/-- `wlan_wmm_txq_collision`. -/
def collision : Contention :=
  ({ c with ecw := min (c.ecw + 1) c.param.ecwMax }.resetAifs).resetBackoff rnd

/-- `wlan_wmm_txq_contention_setup`. -/
def setup (moveCwOnLost : Bool) (p : WmmAcParameters) : Contention :=
  (resetAifs ⟨p, p.ecwMin, moveCwOnLost, 0, 0⟩).resetBackoff rnd

/-- `ecw` is between its two bounds. -/
def InWindow : Prop :=
  c.param.ecwMin ≤ c.ecw ∧ c.ecw ≤ c.param.ecwMax

end Contention

/-- `wmm_ac_to_aci_map`. -/
def acToAci : Ac → Fin 4
  | 0 => 1
  | 1 => 0
  | 2 => 2
  | 3 => 3

abbrev TxqContention := Fin 4 → Contention

namespace TxqContention

/-- `wlan_wmm_contention_init`, for given `queue_priority`. A moved window is that of `AC_BK`. -/
def init (queuePriority : Fin 4 → Ac) (acParams : Fin 4 → WmmAcParameters) (rnd : Fin 4 → UInt32) : TxqContention := fun q =>
  .setup (rnd q) (acToAci (queuePriority q) = 1) (acParams (acToAci (queuePriority q)))

variable (s : TxqContention) (pending : Fin 4 → Bool) (rnd : Fin 4 → UInt32)

/-- `remaining_time` behind the first loop, from `INT_MAX` on. -/
def remainingTime : ℕ :=
  (List.finRange 4).foldl (fun t q => if pending q then min t (s q).getRemainingTime else t) (2 ^ 31 - 1)

/-- A turn of the second loop. `winner_queue` is a queue where `has_winner` is set. -/
def turn (duration : ℕ) (x : TxqContention × Option (Fin 4)) (q : Fin 4) : TxqContention × Option (Fin 4) :=
  if pending q then
    let c := (x.1 q).countDonw duration
    if c.2 ∧ x.2 = none then (update x.1 q (c.1.win (rnd q)), some q)
    else if c.2 ∧ x.2 ≠ none then (update x.1 q (c.1.collision (rnd q)), x.2)
    else (update x.1 q (c.1.lost (rnd q)), x.2)
  else x

/-- `wlan_wmm_contention_get_winner`. -/
def getWinner : TxqContention × Option (Fin 4) :=
  (List.finRange 4).foldl (turn pending rnd (s.remainingTime pending)) (s, none)

/-- A queue with packets has the least time left of these, and none in front of it has as little. -/
def First (w : Fin 4) : Prop :=
  pending w = true ∧ ∀ q, pending q = true →
    (s w).getRemainingTime ≤ (s q).getRemainingTime ∧ (q < w → (s w).getRemainingTime < (s q).getRemainingTime)

/-- What a call should do. What is taken off a queue is taken off its time : no counter goes below zero. -/
structure Decided : Prop where
  none_iff : (s.getWinner pending rnd).2 = none ↔ ∀ q, pending q = false
  winner : ∀ w, (s.getWinner pending rnd).2 = some w → First s pending w
  counted : ∀ q, pending q = true → ((s q).countDonw (s.remainingTime pending)).1.getRemainingTime +
    s.remainingTime pending = (s q).getRemainingTime
  kept : ∀ q, pending q = false → (s.getWinner pending rnd).1 q = s q

end TxqContention

/-- The calls of `wlan_wmm_contention_get_winner`, with the queues that have packets and the random numbers. -/
def contentionSystem : System TxqContention ((Fin 4 → Bool) × (Fin 4 → UInt32)) where
  init s := ∃ queuePriority acParams rnd, s = .init queuePriority acParams rnd
  step s a := some (s.getWinner a.1 a.2).1

/-! ## Counting down -/

namespace Contention

variable {c : Contention} {d : ℕ}

/-- What is not more than the time left is taken off it. -/
theorem countDonw_spec (h : d ≤ c.getRemainingTime) : (c.countDonw d).1.getRemainingTime + d = c.getRemainingTime ∧
    ((c.countDonw d).2 = true ↔ d = c.getRemainingTime) := by
  have ha := c.remainingAifs.toNat_lt
  have hb := c.remainingBackoff.toNat_lt
  unfold getRemainingTime at h ⊢
  have hdel : (if 0 < c.remainingAifs then min c.remainingAifs.toNat d else 0) = min c.remainingAifs.toNat d := by
    simp only [UInt16.lt_iff_toNat_lt, UInt16.toNat_zero]
    split_ifs <;> omega
  have haifs : (c.remainingAifs - UInt16.ofNat (min c.remainingAifs.toNat d)).toNat = c.remainingAifs.toNat - d := by
    rw [UInt16.toNat_sub, UInt16.toNat_ofNat']
    omega
  unfold countDonw
  simp only [hdel, haifs, decide_eq_true_eq, ← UInt16.toNat_inj, UInt16.toNat_zero]
  by_cases hzero : c.remainingAifs.toNat - d = 0
  · have hbackoff : (c.remainingBackoff - UInt16.ofNat (d - min c.remainingAifs.toNat d)).toNat =
        c.remainingBackoff.toNat - (d - c.remainingAifs.toNat) := by
      rw [UInt16.toNat_sub, UInt16.toNat_ofNat']
      omega
    rw [if_pos hzero, hbackoff]
    omega
  · rw [if_neg hzero]
    omega

/-- What may become of a queue that has counted down. -/
inductive Moved (c : Contention) : Contention → Prop
  | win (rnd : UInt32) : Moved c (c.win rnd)
  | lost (rnd : UInt32) : Moved c (c.lost rnd)
  | collision (rnd : UInt32) : Moved c (c.collision rnd)

theorem Moved.inWindow {c' : Contention} (h : Moved c c') (hc : c.param.ecwMin ≤ c.param.ecwMax → c.InWindow) :
    c'.param.ecwMin ≤ c'.param.ecwMax → c'.InWindow := by
  have hmin : ∀ b : WmmAcParameters, b.ecwMin ≤ b.ecwMax → (b.ecwMin : ℕ) ≤ b.ecwMax := fun _ => Fin.le_def.mp
  cases h with
  | win => exact fun hle => ⟨le_rfl, hmin _ hle⟩
  | lost =>
    unfold Contention.lost
    split_ifs
    · intro hle
      have hold := hc hle
      exact ⟨le_min (hold.1.trans (Nat.le_succ _)) (hmin _ hle), min_le_right _ _⟩
    · exact hc
  | collision =>
    intro hle
    have hold := hc hle
    exact ⟨le_min (hold.1.trans (Nat.le_succ _)) (hmin _ hle), min_le_right _ _⟩

end Contention

/-! ## The two loops -/

namespace TxqContention

variable {s : TxqContention} {pending : Fin 4 → Bool} {rnd : Fin 4 → UInt32} {d : ℕ}

/-- The first loop finds the least time left. -/
theorem foldl_time (l : List (Fin 4)) (t : ℕ) :
    let r := l.foldl (fun t q => if pending q then min t (s q).getRemainingTime else t) t
    r ≤ t ∧ (∀ q ∈ l, pending q = true → r ≤ (s q).getRemainingTime) ∧
      (r = t ∨ ∃ q ∈ l, pending q = true ∧ (s q).getRemainingTime = r) := by
  induction l generalizing t with
  | nil => simp
  | cons q l ih =>
    obtain ⟨hle, hall, hex⟩ := ih (if pending q then min t (s q).getRemainingTime else t)
    rw [foldl_cons]
    cases hq : pending q with
    | false => simp_all
    | true =>
      simp only [hq, if_true] at hle hall hex ⊢
      refine ⟨hle.trans (min_le_left _ _), fun p hp hpend => ?_, ?_⟩
      · rcases mem_cons.mp hp with rfl | hp
        · exact hle.trans (min_le_right _ _)
        · exact hall p hp hpend
      · rcases hex with heq | ⟨p, hp, hpend, hr⟩
        · rcases min_choice t (s q).getRemainingTime with hmin | hmin
          · exact .inl (heq.trans hmin)
          · exact .inr ⟨q, mem_cons_self, hq, (heq.trans hmin).symm⟩
        · exact .inr ⟨p, mem_cons_of_mem q hp, hpend, hr⟩

theorem remainingTime_le {q : Fin 4} (hq : pending q = true) : s.remainingTime pending ≤ (s q).getRemainingTime :=
  (foldl_time _ _).2.1 q (mem_finRange q) hq

/-- It is that of a queue with packets : what is left of a queue is less than `INT_MAX`. -/
theorem exists_remainingTime {p : Fin 4} (hp : pending p = true) :
    ∃ q, pending q = true ∧ (s q).getRemainingTime = s.remainingTime pending := by
  rcases (@foldl_time s pending (List.finRange 4) (2 ^ 31 - 1)).2.2 with heq | ⟨q, -, hq, htime⟩
  · have hle := remainingTime_le (s := s) hp
    have ha := (s p).remainingAifs.toNat_lt
    have hb := (s p).remainingBackoff.toNat_lt
    have htime : s.remainingTime pending = 2 ^ 31 - 1 := heq
    rw [htime, Contention.getRemainingTime] at hle
    omega
  · exact ⟨q, hq, htime⟩

/-- The second loop : the first queue that comes to zero wins, and each queue with packets moves once. -/
theorem foldl_turn (l : List (Fin 4)) (hl : l.Nodup) (x : TxqContention × Option (Fin 4)) :
    let r := l.foldl (turn pending rnd d) x
    r.2 = x.2.or (l.find? fun q => pending q && ((x.1 q).countDonw d).2) ∧
      ∀ q, if q ∈ l ∧ pending q = true then ((x.1 q).countDonw d).1.Moved (r.1 q) else r.1 q = x.1 q := by
  induction l generalizing x with
  | nil => simp
  | cons p l ih =>
    obtain ⟨hp, hl⟩ := nodup_cons.mp hl
    obtain ⟨hwin, hmoved⟩ := ih hl (turn pending rnd d x p)
    rw [foldl_cons]
    -- a turn changes the queue it is about, which the rest of the loop leaves
    have hother : ∀ q, q ≠ p → (turn pending rnd d x p).1 q = x.1 q := by
      intro q hq
      unfold turn
      dsimp only
      split_ifs <;> simp [update_of_ne hq]
    have hself : if pending p = true then ((x.1 p).countDonw d).1.Moved ((turn pending rnd d x p).1 p)
        else (turn pending rnd d x p).1 p = x.1 p := by
      unfold turn
      dsimp only
      split_ifs
      · simpa using Contention.Moved.win _
      · simpa using Contention.Moved.collision _
      · simpa using Contention.Moved.lost _
      · rfl
    have hrest := hmoved p
    rw [if_neg fun h => hp h.1] at hrest
    refine ⟨?_, fun q => ?_⟩
    · have hfind : l.find? (fun q => pending q && (((turn pending rnd d x p).1 q).countDonw d).2) =
          l.find? fun q => pending q && ((x.1 q).countDonw d).2 :=
        find?_congr_mem fun q hq => by rw [hother q fun heq => hp (heq ▸ hq)]
      rw [hwin, hfind]
      unfold turn
      cases hpend : pending p <;> cases hzero : ((x.1 p).countDonw d).2 <;> cases hx : x.2 <;>
        simp [hpend, hzero, hx]
    · by_cases hq : q = p
      · subst hq
        rw [hrest]
        simpa using hself
      · have hm := hmoved q
        rw [hother q hq] at hm
        simpa [hq] using hm

theorem getWinner_snd : (s.getWinner pending rnd).2 =
    (List.finRange 4).find? fun q => pending q && ((s q).countDonw (s.remainingTime pending)).2 :=
  (foldl_turn _ (nodup_finRange 4) (s, none)).1

theorem getWinner_fst (q : Fin 4) : if pending q = true then
    ((s q).countDonw (s.remainingTime pending)).1.Moved ((s.getWinner pending rnd).1 q)
    else (s.getWinner pending rnd).1 q = s q := by
  have h := (@foldl_turn pending rnd (s.remainingTime pending) _ (nodup_finRange 4) (s, none)).2 q
  simp only [mem_finRange, true_and] at h
  exact h

/-- A call does what it should, whatever is left of the queues. -/
theorem decided (s : TxqContention) (pending : Fin 4 → Bool) (rnd : Fin 4 → UInt32) : s.Decided pending rnd := by
  have hzero : ∀ q, pending q = true →
      (((s q).countDonw (s.remainingTime pending)).2 = true ↔ s.remainingTime pending = (s q).getRemainingTime) :=
    fun q hq => (Contention.countDonw_spec (remainingTime_le hq)).2
  refine ⟨?_, fun w hw => ?_, fun q hq => (Contention.countDonw_spec (remainingTime_le hq)).1, fun q hq => ?_⟩
  · rw [getWinner_snd, find?_eq_none]
    constructor
    · intro hnone q
      by_contra hq
      obtain ⟨p, hp, htime⟩ := exists_remainingTime (s := s) ((Bool.not_eq_false _).mp hq)
      exact hnone p (mem_finRange p) (by simp [hp, (hzero p hp).mpr htime.symm])
    · intro hnone q _
      simp [hnone q]
  · rw [getWinner_snd, find?_eq_some_iff_getElem] at hw
    obtain ⟨hw, i, hi, rfl, hbefore⟩ := hw
    rw [Bool.and_eq_true] at hw
    refine ⟨hw.1, fun q hq => ⟨(hzero _ hw.1).mp hw.2 ▸ remainingTime_le hq, fun hlt => ?_⟩⟩
    rw [getElem_finRange] at hlt
    have hnot := hbefore q.val hlt
    rw [← (hzero _ hw.1).mp hw.2]
    refine lt_of_le_of_ne (remainingTime_le hq) fun heq => ?_
    rw [← hzero q hq] at heq
    simp [hq, heq] at hnot
  · have hkept := @getWinner_fst s pending rnd q
    rwa [if_neg (by simp [hq])] at hkept

end TxqContention

/-- **The contention winner.** In every state that calls reach, a call decides as it should, and `ecw` is between its bounds
where these are in order. -/
theorem contention_winner {s : TxqContention} (h : contentionSystem.Reachable s) :
    (∀ q, (s q).param.ecwMin ≤ (s q).param.ecwMax → (s q).InWindow) ∧ ∀ pending rnd, s.Decided pending rnd := by
  refine ⟨?_, s.decided⟩
  refine h.invariant (I := fun s => ∀ q, (s q).param.ecwMin ≤ (s q).param.ecwMax → (s q).InWindow) ?_ ?_
  · rintro _ ⟨queuePriority, acParams, rnd, rfl⟩ q hle
    exact ⟨le_rfl, Fin.le_def.mp hle⟩
  · rintro s ⟨pending, rnd⟩ s' hi hstep q
    obtain rfl := Option.some.inj hstep
    have hmoved := @TxqContention.getWinner_fst s pending rnd q
    split_ifs at hmoved with hq
    · exact hmoved.inWindow (hi q)
    · rw [hmoved]
      exact hi q

/-- Three queues with packets, in the order of the default priorities. -/
theorem contention_winner_three : ∃ s, contentionSystem.Reachable s ∧
    s.Decided ![true, false, true, true] (fun _ => 5) ∧ (s.getWinner ![true, false, true, true] fun _ => 5).2 = some 0 :=
  have h : contentionSystem.Reachable (.init ![3, 2, 1, 0] (fun _ => ⟨2, 3, 7⟩) fun _ => 0) := .init ⟨_, _, _, rfl⟩
  ⟨_, h, (contention_winner h).2 _ _, by decide +kernel⟩

/-- Of an access point whose `ecwmin` is above `ecwmax`. -/
theorem contention_unordered : ∃ s, contentionSystem.Reachable s ∧ ¬∀ q, (s q).InWindow :=
  ⟨.init ![3, 2, 1, 0] (fun _ => ⟨2, 1, 0⟩) fun _ => 0, .init ⟨_, _, _, rfl⟩, fun h => absurd (h 0).2 (by decide)⟩

end WlanDriver.Wmm
