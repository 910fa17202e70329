import WlanDriver.Reorder.Station

/-!
# The bitmap and the flush timer

The bitmap of a table shadows its slots : bit `i` is set when slot `i` is full, and the timer that
flushes the table is stopped when the bitmap is empty. The bitmap has 64 bits, and a window up to 1023
slots. `notStuck_iff` says for which windows the shadow is exact whenever a call leaves through the
window; from 65 slots on a frame can be stranded without a timer (`frame_stranded`).
-/

namespace WlanDriver.Reorder

open RxReorderTbl

variable {P : Type*} {wide : ℕ → BitVec 64} {t t' : RxReorderTbl P} {payload : P} {ty : PktType}

/-- Bit `i` is set exactly when slot `i` is full. -/
def BitsExact (t : RxReorderTbl P) : Prop :=
  ∀ i, t.bitmap.getLsbD i = (t.rxReorderPtr i).isSome

/-- Some slot is full. -/
def Occupied (t : RxReorderTbl P) : Prop :=
  ∃ i < t.winSize, (t.rxReorderPtr i).isSome

/-- The bitmap tells which slots are full, and a full slot keeps the timer running. -/
structure NotStuck (t : RxReorderTbl P) : Prop where
  bits : ∀ i < t.winSize, t.bitmap.getLsbD i = (t.rxReorderPtr i).isSome
  nonzero : t.bitmap ≠ 0 ↔ Occupied t
  timer : Occupied t → t.timerIsSet = true

/-! ## Windows of up to 64 slots -/

theorem bitsExact_create (ta : Ethernet.Mac) (tid winSize seq lastSeq : ℕ) :
    BitsExact (RxReorderTbl.create (P := P) ta tid winSize seq lastSeq) := by
  intro i
  simp [RxReorderTbl.create]

theorem BitsExact.drains {l : List P} (h : BitsExact t) (hd : t.Drains l t') : BitsExact t' := by
  obtain ⟨n, -, hslots, hbits⟩ := hd.drops
  intro i
  rw [hbits, hslots, shiftBitmap_getLsbD]
  exact h (n + i)

theorem ulShl_getLsbD {i : ℕ} (hi : i < 64) (j : ℕ) : (ulShl wide i).getLsbD j = decide (j = i) := by
  rw [ulShl, if_pos hi, BitVec.getLsbD_shiftLeft, BitVec.getLsbD_one]
  rcases lt_trichotomy j i with hj | rfl | hj
  · simp [hj, hj.ne]
  · simp [hi]
  · simp only [hj.ne', decide_false, Bool.and_eq_false_iff, decide_eq_false_iff_not]
    omega

theorem BitsExact.store (h : BitsExact t) {i : ℕ} (hi : i < 64) : BitsExact (t.store wide i payload) := by
  intro j
  simp only [RxReorderTbl.store, BitVec.getLsbD_or, ulShl_getLsbD hi, h j]
  by_cases hj : j = i
  · simp [hj]
  · simp [hj]

theorem PktCase.bitsExact {r : PktResult P} (hc : PktCase wide t ty payload r) (hw : t.winSize ≤ 64)
    (h : BitsExact t) : BitsExact r.tbl := by
  cases hc with
  | direct hd _ => exact h.drains hd
  | skipped hd _ => exact h.drains hd
  | @moved _ _ _ prev hd _ => exact h.drains (hd.done prev)
  | @stored _ _ _ _ _ prev hd hi _ hd' _ =>
    have hwin := hd.win
    exact ((h.drains hd).store (by omega)).drains (hd'.done prev)

theorem done_timer {prev : ℕ} (h : (done prev t).bitmap ≠ 0) : (done prev t).timerIsSet = true := by
  unfold done at h ⊢
  split_ifs at h ⊢ with hzero hset
  · exact absurd hzero h
  · rfl
  · simpa using (not_or.mp hset).1

/-- A call that leaves through the window left the timer running for a bitmap that is not empty. -/
theorem PktCase.timer {r : PktResult P} (hc : PktCase wide t ty payload r) (hr : r.windowed = true)
    (hbits : r.tbl.bitmap ≠ 0) : r.tbl.timerIsSet = true := by
  cases hc with
  | direct _ _ => simp at hr
  | skipped _ _ => simp at hr
  | moved _ _ => exact done_timer hbits
  | stored _ _ _ _ _ => exact done_timer hbits

theorem BitsExact.notStuck (h : BitsExact t) (hwf : t.WellFormed) (htimer : t.bitmap ≠ 0 → t.timerIsSet = true) :
    NotStuck t := by
  have hnonzero : t.bitmap ≠ 0 ↔ Occupied t := by
    constructor
    · intro hne
      by_contra hocc
      refine hne (BitVec.eq_of_getLsbD_eq fun i _ => ?_)
      rw [h i]
      by_contra hi
      refine hocc ⟨i, ?_, by simpa [Option.isSome_iff_ne_none] using hi⟩
      by_contra hout
      simp [hwf.bounded i (not_lt.mp hout)] at hi
    · rintro ⟨i, -, hi⟩ hzero
      rw [← h i, hzero] at hi
      simp at hi
  exact ⟨fun i _ => h i, hnonzero, fun hocc => htimer (hnonzero.mpr hocc)⟩

/-- In every run : the shadow is exact in the tables with a window of at most 64 slots, and the table of a call
that just left through its window is not stuck. -/
theorem bitsExact_of_reachable [DecidableEq P] {s : Station P} (h : (stationSystem wide).Reachable s) :
    (∀ t ∈ s.tables, t.winSize ≤ 64 → BitsExact t) ∧ ∀ t, s.left = some t → t.winSize ≤ 64 → NotStuck t := by
  refine (System.Reachable.invariant (I := fun s => StationInv s ∧ (∀ t ∈ s.tables, t.winSize ≤ 64 → BitsExact t) ∧
    ∀ t, s.left = some t → t.winSize ≤ 64 → NotStuck t) ?_ ?_ h).2
  · rintro s rfl
    exact ⟨.of_reachable (show (stationSystem wide).Reachable emptyStation from .init rfl), by simp [emptyStation],
      by simp [emptyStation]⟩
  rintro s a s' ⟨hi, hbits, -⟩ hstep
  refine ⟨hi.step hstep, fun t ht hw => ?_, fun t ht hw => ?_⟩
  · cases origin_of_step hi.wf hstep ht with
    | drained hu hd => exact (hbits _ hu (by rw [← hd.win]; exact hw)).drains hd
    | created ta tid winSize seq lastSeq => exact bitsExact_create ta tid winSize seq lastSeq
    | called hu hw' seq ty payload =>
      have hc := @rxReorderPkt_cases _ _ wide _ (hi.wf _ hu) hw' seq.isLt ty payload
      have hwin := hc.keeps.2.2.2
      exact PktCase.bitsExact hc (by omega) (hbits _ hu (by omega))
  · obtain ⟨u, hu, hw', seq, ty, payload, hr, rfl⟩ := left_of_step hstep ht
    have hc := @rxReorderPkt_cases _ _ wide _ (hi.wf _ hu) hw' seq.isLt ty payload
    obtain ⟨hwf, -, -, hwin⟩ := hc.keeps
    exact (PktCase.bitsExact hc (by omega) (hbits _ hu (by omega))).notStuck hwf (PktCase.timer hc hr)

/-! ## Wider windows -/

/-- A frame that leaves a hole in front of it stays in its slot. -/
theorem rxReorderPkt_hole (h : t.WellFormed) (hf : t.flushData = false) (hc : t.checkStartWin = false)
    (hn : t.forceNoDrop = false) (hslots : ∀ i, t.rxReorderPtr i = none) {seq : ℕ} (hseq : seq < 4096)
    (hpos : 0 < ahead t.startWin seq) (hin : ahead t.startWin seq < t.winSize) (hhalf : ahead t.startWin seq < 2048)
    (payload : P) :
    (t.rxReorderPkt wide seq .data payload).windowed = true ∧
      (t.rxReorderPkt wide seq .data payload).tbl.winSize = t.winSize ∧
      (t.rxReorderPkt wide seq .data payload).tbl.rxReorderPtr (ahead t.startWin seq) = some payload := by
  have hold : ¬IsOld t.startWin seq := by
    rw [isOld_iff h.start hseq]
    omega
  obtain ⟨n, hn', hfull, -, hscan⟩ := scanAndDispatch_eq (@WellFormed.store _ _ wide payload h _ hin).bounded
  have hzero : n = 0 := by
    by_contra hne
    have := hfull 0 (by omega)
    simp only [RxReorderTbl.store] at this
    rw [Function.update_of_ne hpos.ne, hslots] at this
    simp at this
  subst hzero
  have heq : t.acceptPkt wide seq .data payload =
      (.success, [], (t.store wide (ahead t.startWin seq) payload).advance 0 (t.startWin % 4096)) := by
    simp only [acceptPkt, reduceCtorEq, if_false, moveWin_inside h (by omega) hseq hin,
      slotIndex_eq h.start hseq, hslots, hscan]
    rfl
  obtain ⟨b, hb⟩ := done_eq t.startWin ((t.store wide (ahead t.startWin seq) payload).advance 0 (t.startWin % 4096))
  simp only [rxReorderPkt, flushIfSet, hf, openWin, hc, noDropFlush, hn, windowPkt, hold, heq, hb, Bool.false_eq_true,
    if_false, reduceCtorEq, false_and]
  simp [RxReorderTbl.advance, RxReorderTbl.store]

/-- A block ack request for the start of a new table opens its window. -/
theorem rxReorderPkt_open (ta : Ethernet.Mac) (tid lastSeq : ℕ) {w : ℕ} (hw : 2 ≤ w) (hw' : w ≤ 1024)
    (payload : P) :
    ((RxReorderTbl.create ta tid w 0 lastSeq).rxReorderPkt wide 0 .bar payload).tbl =
      { (RxReorderTbl.create (P := P) ta tid w 0 lastSeq) with checkStartWin := false } := by
  obtain ⟨k, rfl⟩ : ∃ k, w = k + 1 := ⟨w - 1, by omega⟩
  have hin : ¬IsOutside 0 (k % 4096) (k % 4096) := by
    unfold IsOutside
    omega
  have hold : ¬IsOld 0 0 := by decide
  simp [rxReorderPkt, flushIfSet, openWin, noDropFlush, windowPkt, acceptPkt, moveWin, hin, hold, scanAndDispatch,
    SlotArray.takeRun, RxReorderTbl.create, done]

theorem rxPkt_single {s : Station P} (hs : s.tables = [t]) (hw : 2 ≤ t.winSize) (seq : ℕ) (ty : PktType)
    (payload : P) :
    (s.rxPkt wide t.key seq ty payload).tables = [(t.rxReorderPkt wide seq ty payload).tbl] ∧
      ((t.rxReorderPkt wide seq ty payload).windowed = true →
        (s.rxPkt wide t.key seq ty payload).left = some (t.rxReorderPkt wide seq ty payload).tbl) := by
  have hget : getRxReorderTbl s.tables t.key = some t := by simp [hs, getRxReorderTbl]
  have hsmall : ¬t.winSize ≤ 1 := by omega
  simp only [Station.rxPkt, Station.rxReorder, hget, hsmall, if_false]
  exact ⟨by simp [hs, setRxReorderTbl], fun h => by simp [h]⟩

/-- A window of more than 64 slots has a slot without a bit. -/
theorem exists_stuck [Nonempty P] (wide : ℕ → BitVec 64) {w : ℕ} (hw : 64 < w) (hw' : w ≤ 1024) :
    ∃ s : Station P, (stationSystem wide).Reachable s ∧ ∃ t, s.left = some t ∧ t.winSize = w ∧ ¬NotStuck t := by
  obtain ⟨payload⟩ := ‹Nonempty P›
  let k : Key := (someMac, 0)
  let t₀ : RxReorderTbl P := .create k.1 k.2 w 0 defaultSeqNum
  let t₁ : RxReorderTbl P := { t₀ with checkStartWin := false }
  let s₀ : Station P := { emptyStation with tables := [t₀] }
  have h₀ : (stationSystem wide).Reachable s₀ :=
    .step (.init rfl) trivial (a := .create k ⟨w, by omega⟩ 0 none true) rfl
  have ht₁ : (s₀.rxPkt wide k 0 .bar payload).tables = [t₁] := by
    have hsingle := @rxPkt_single _ wide t₀ s₀ rfl (show 2 ≤ w by omega) 0 .bar payload
    rw [rxReorderPkt_open k.1 k.2 defaultSeqNum (by omega) hw' payload] at hsingle
    exact hsingle.1
  have h₁ : (stationSystem wide).Reachable (s₀.rxPkt wide k 0 .bar payload) :=
    .step h₀ trivial (a := .pkt k 0 .bar payload) rfl
  have hwf : t₁.WellFormed := ⟨hw', by simp [t₁, t₀, RxReorderTbl.create], .inr rfl, fun _ _ => rfl⟩
  have hahead : ahead t₁.startWin 64 = 64 := by simp [t₁, t₀, RxReorderTbl.create, ahead]
  obtain ⟨hr, hwin, hslot⟩ := @rxReorderPkt_hole _ wide _ hwf rfl rfl rfl (fun _ => rfl) 64 (by omega)
    (by omega) (by rw [hahead]; exact hw) (by omega) payload
  obtain ⟨-, hleft⟩ := @rxPkt_single _ wide _ _ ht₁ (show 2 ≤ w by omega) 64 .data payload
  have h₂ : (stationSystem wide).Reachable ((s₀.rxPkt wide k 0 .bar payload).rxPkt wide k 64 .data payload) :=
    .step h₁ trivial (a := .pkt k ⟨64, by omega⟩ .data payload) rfl
  have hwin' : (t₁.rxReorderPkt wide 64 .data payload).tbl.winSize = w := hwin
  refine ⟨_, h₂, _, hleft hr, hwin', fun hstuck => ?_⟩
  have hbit := hstuck.bits 64 (by rw [hwin']; exact hw)
  rw [hahead] at hslot
  rw [hslot, BitVec.getLsbD_of_ge _ 64 le_rfl] at hbit
  simp at hbit

/-- **No stuck frame.** The tables with a window of `w` slots are never stuck when a call leaves through the
window, in any run, exactly if the bitmap has a bit for each slot. -/
theorem notStuck_iff [DecidableEq P] [Nonempty P] (wide : ℕ → BitVec 64) {w : ℕ} (hw : w ≤ 0x3ff) :
    (∀ s : Station P, (stationSystem wide).Reachable s → ∀ t, s.left = some t → t.winSize = w → NotStuck t) ↔
      w ≤ 64 := by
  constructor
  · intro h
    by_contra hlt
    obtain ⟨s, hs, t, ht, htw, hstuck⟩ := exists_stuck (P := P) wide (not_le.mp hlt) (by omega)
    exact hstuck (h s hs t ht htw)
  · intro hle s hs t ht htw
    exact (bitsExact_of_reachable hs).2 t ht (by omega)

/-- The window of a station. -/
theorem notStuck_sixtyFour : 64 ≤ 0x3ff ∧ ∀ s : Station ℕ, (stationSystem maskedShl).Reachable s →
    ∀ t, s.left = some t → t.winSize = 64 → NotStuck t :=
  ⟨by decide, (notStuck_iff maskedShl (by decide)).mpr le_rfl⟩

/-- A window of 128 slots. The frame in slot 64 sets bit 0, and a block ack request that moves the window by one
shifts the bit out : the timer is stopped, and the frame stays in slot 63. -/
theorem frame_stranded :
    ¬∀ s : Station ℕ, (stationSystem maskedShl).Reachable s →
      ∀ t, s.left = some t → 2 ≤ t.winSize → t.winSize ≤ 0x3ff → NotStuck t := by
  intro h
  obtain ⟨s, hs, hrun⟩ := System.exists_reachable_of_run (M := stationSystem maskedShl)
    (P := fun s => s.left.any fun t =>
      t.winSize = 128 ∧ t.timerIsSet = false ∧ (t.rxReorderPtr 63).isSome)
    (l := [.create (someMac, 0) 128 0 none true, .pkt (someMac, 0) 0 .bar 7, .pkt (someMac, 0) 64 .data 9,
      .pkt (someMac, 0) 1 .bar 7]) (s := emptyStation) rfl (by decide +kernel)
  obtain ⟨t, ht, hstuck⟩ := (Option.any_eq_true _ _).mp hrun
  simp only [decide_eq_true_eq] at hstuck
  obtain ⟨hw, htimer, hslot⟩ := hstuck
  have hrunning := (h s hs t ht (by omega) (by omega)).timer ⟨63, by omega, hslot⟩
  simp [htimer] at hrunning

end WlanDriver.Reorder
