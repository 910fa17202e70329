import WlanDriver.Lib.System
import WlanDriver.Reorder.Table
import Mathlib.Data.List.Chain

/-!
# The order of delivery

One table whose window is established (`check_start_win` is cleared, `force_no_drop` is not set), under any
sequence of packets, block ack requests and timer flushes. A `Stream` carries, next to the table, the
unwrapped start of the window (`base`), how far block ack requests have moved the window (`bars`), and
what came out of it. A frame gets its unwrapped position when it arrives.

`delivered_in_order` : positions only increase, and a frame is ahead of the one before it by at most 2048 and what
block ack requests moved the window since. The window is moved by slots when its start stays below 4096, but
when it wraps all slots are flushed; runs in which that hits a frame that belongs into the new window are left
out (`WrapsClean`).

`Shifts m` says that a piece of a call drops exactly `m` slots, and `StreamInv` is kept by shifting, by storing
and by moving `bars`.
-/

namespace WlanDriver.Reorder

open RxReorderTbl List

/-- A frame in the table, with its unwrapped position. -/
structure Frame (P : Type*) where
  seq : ℕ
  payload : P
  pos : ℕ

/-- A frame that came out of the window, and `bars` when the call began that brought it out. -/
structure Delivery (P : Type*) where
  frame : Frame P
  bars : ℕ

/-- A table and the history of its window. -/
structure Stream (P : Type*) where
  tbl : RxReorderTbl (Frame P)
  base : ℕ
  bars : ℕ
  log : List (Delivery P)

variable {P : Type*} {wide : ℕ → BitVec 64}

/-! ## Runs -/

namespace Stream

/-- What comes out of the window. -/
def deliveries (bars : ℕ) (out : List (Via × Frame P)) : List (Delivery P) :=
  (out.filter fun x => x.1 = .window).map fun x => ⟨x.2, bars⟩

/-- How far an accepted packet moves the window before it is stored. -/
def winMove (t : RxReorderTbl (Frame P)) (seq : ℕ) (ty : PktType) : ℕ :=
  if 2048 ≤ ahead t.startWin seq ∨ (ty = .amsdu ∧ !t.amsdu) then 0
  else if ty = .bar then ahead t.startWin seq
  else ahead t.startWin seq + 1 - t.winSize

/-- `mlan_11n_rxreorder_pkt`. -/
def rxPkt (wide : ℕ → BitVec 64) (s : Stream P) (seq : ℕ) (ty : PktType) (payload : P) : Stream P :=
  let t := s.tbl.flushIfSet.2
  let base := s.base + ahead s.tbl.startWin t.startWin
  let r := s.tbl.rxReorderPkt wide seq ty ⟨seq, payload, base + ahead t.startWin seq⟩
  { tbl := r.tbl
    base := base + ahead t.startWin r.tbl.startWin
    bars := if ty = .bar then s.bars + winMove t seq ty else s.bars
    log := s.log ++ deliveries s.bars r.out }

/-- `wlan_flush_priv_rxreorder_tbl`. -/
def flush (s : Stream P) : Stream P :=
  let f := s.tbl.flushIfSet
  { s with
    tbl := f.2
    base := s.base + ahead s.tbl.startWin f.2.startWin
    log := s.log ++ deliveries s.bars (viaWindow f.1) }

inductive Act (P : Type*)
  | pkt (seq : Fin 4096) (ty : PktType) (payload : P)
  | timer
  | flush

def step (wide : ℕ → BitVec 64) (s : Stream P) : Act P → Option (Stream P)
  | .pkt seq ty payload => some (s.rxPkt wide seq ty payload)
  | .timer => if s.tbl.timerIsSet then some { s with tbl := s.tbl.flushTimer } else none
  | .flush => some s.flush

/-- An established window of 2 to 1024 slots without frames. -/
structure Established (s : Stream P) : Prop where
  win : 2 ≤ s.tbl.winSize ∧ s.tbl.winSize ≤ 1024
  start : s.tbl.startWin < 4096
  last : s.tbl.lastSeq < 4096 ∨ s.tbl.lastSeq = defaultSeqNum
  check : s.tbl.checkStartWin = false
  drop : s.tbl.forceNoDrop = false
  slots : ∀ i, s.tbl.rxReorderPtr i = none
  base : s.base = s.tbl.startWin
  log : s.log = []

/-- A packet that moves the window across 4095 does so when no frame is buffered that belongs into the new
window. -/
def WrapsClean (s : Stream P) : Act P → Prop
  | .pkt seq ty _ =>
    let t := s.tbl.flushIfSet.2
    t.startWin + winMove t seq ty < 4096 ∨ ∀ i < t.winSize, winMove t seq ty ≤ i → (t.rxReorderPtr i).isNone
  | _ => True

instance (s : Stream P) (a : Act P) : Decidable (s.WrapsClean a) := by
  unfold Stream.WrapsClean
  split <;> infer_instance

end Stream

/-- One table with an established window. -/
def streamSystem (wide : ℕ → BitVec 64) : System (Stream P) (Stream.Act P) where
  init := Stream.Established
  step := Stream.step wide

/-! ## Shifting -/

variable {t t' t'' : RxReorderTbl P} {m n : ℕ} {l l' : List P}

/-- `t'` is `t` without its first `m` slots, which held `l`. -/
structure Shifts (t : RxReorderTbl P) (m : ℕ) (l : List P) (t' : RxReorderTbl P) : Prop where
  wf : t'.WellFormed
  win : t'.winSize = t.winSize
  check : t'.checkStartWin = t.checkStartWin
  drop : t'.forceNoDrop = t.forceNoDrop
  start : t'.startWin = (t.startWin + m) % 4096
  slots : t'.rxReorderPtr = t.rxReorderPtr.dropSlots m
  out : l = t.rxReorderPtr.contents m

theorem Shifts.of_eq (hwf : t'.WellFormed) (hwin : t'.winSize = t.winSize)
    (hcheck : t'.checkStartWin = t.checkStartWin) (hdrop : t'.forceNoDrop = t.forceNoDrop)
    (hlt : t.startWin < 4096) (hstart : t'.startWin = t.startWin) (hslots : t'.rxReorderPtr = t.rxReorderPtr) :
    Shifts t 0 [] t' :=
  ⟨hwf, hwin, hcheck, hdrop, by rw [hstart, Nat.add_zero, Nat.mod_eq_of_lt hlt], by simp [hslots], rfl⟩

theorem Shifts.done (h : Shifts t m l t') (prev : ℕ) : Shifts t m l (done prev t') := by
  obtain ⟨b, hb⟩ := done_eq prev t'
  rw [hb]
  exact ⟨{ h.wf with }, h.win, h.check, h.drop, h.start, h.slots, h.out⟩

/-- Slots behind the last full one do not matter. -/
theorem contents_of_none {a : SlotArray P} (h : n = m ∨ ∀ i, min n m ≤ i → a i = none) :
    a.contents n = a.contents m ∧ a.dropSlots n = a.dropSlots m := by
  rcases h with rfl | h
  · exact ⟨rfl, rfl⟩
  refine ⟨?_, ?_⟩
  · rw [SlotArray.Bounded.contents_eq h (Nat.min_le_left n m), SlotArray.Bounded.contents_eq h (Nat.min_le_right n m)]
  · funext i
    rw [SlotArray.dropSlots, SlotArray.dropSlots, h _ (by omega), h _ (by omega)]

/-- A new start in front of the wrap, or one that leaves no frame behind, drops the slots before it. -/
theorem dispatchPktUntilStartWin_shifts (h : t.WellFormed) (hlt : t.startWin < 4096) (hm : 0 < m) (hm' : m < 4096)
    (hclean : t.startWin + m < 4096 ∨ ∀ i, m ≤ i → t.rxReorderPtr i = none) :
    Shifts t m (t.dispatchPktUntilStartWin ((t.startWin + m) % 4096)).1
      (t.dispatchPktUntilStartWin ((t.startWin + m) % 4096)).2 := by
  have hn : t.noPktToSend ((t.startWin + m) % 4096) = m ∨
      t.noPktToSend ((t.startWin + m) % 4096) = t.winSize ∧ (t.winSize ≤ m ∨ 4096 ≤ t.startWin + m) := by
    unfold noPktToSend
    split_ifs <;> omega
  have hnone : t.noPktToSend ((t.startWin + m) % 4096) = m ∨
      ∀ i, min (t.noPktToSend ((t.startWin + m) % 4096)) m ≤ i → t.rxReorderPtr i = none := by
    refine hn.imp_right fun hn i hi => ?_
    rw [hn.1] at hi
    rcases Nat.lt_or_ge i t.winSize with hin | hout
    · rcases hclean with hlow | hnone
      · exact h.bounded i (by omega)
      · exact hnone i (by omega)
    · exact h.bounded i hout
  rw [dispatchPktUntilStartWin_eq h.bounded]
  exact ⟨(Drains.advance h _ (by omega)).wf, rfl, rfl, rfl, rfl, (contents_of_none hnone).2, (contents_of_none hnone).1⟩

/-- A scan drops full slots only, up to the last of them. -/
theorem scanAndDispatch_shifts (h : t.WellFormed) :
    ∃ n ≤ t.winSize, (∀ j < n, (t.rxReorderPtr j).isSome) ∧ Shifts t n t.scanAndDispatch.1 t.scanAndDispatch.2 := by
  obtain ⟨n, hn, hfull, -, heq⟩ := scanAndDispatch_eq h.bounded
  refine ⟨n, hn, hfull, ?_⟩
  rw [heq]
  exact ⟨(Drains.advance h _ (by omega)).wf, rfl, rfl, rfl, rfl, rfl, rfl⟩

/-- A flush drops the slots up to the last full one. -/
theorem flushIfSet_shifts (h : t.WellFormed) (hlt : t.startWin < 4096) :
    ∃ n ≤ t.winSize, (n ≠ 0 → (t.rxReorderPtr (n - 1)).isSome) ∧ Shifts t n t.flushIfSet.1 t.flushIfSet.2 := by
  unfold flushIfSet startFlushData
  split_ifs with hf
  · have hwf : WellFormed { t with flushData := false } := { h with }
    cases hlast : SlotArray.lastFull t.winSize t.rxReorderPtr with
    | none => exact ⟨0, Nat.zero_le _, by simp, .of_eq hwf rfl rfl rfl hlt rfl rfl⟩
    | some i =>
      obtain ⟨hi, hfull, hrest⟩ := SlotArray.lastFull_eq_some hlast
      have hnone : ∀ j, i + 1 ≤ j → t.rxReorderPtr j = none := fun j hj => by
        rcases Nat.lt_or_ge j t.winSize with hin | hout
        · exact hrest j (by omega) hin
        · exact h.bounded j hout
      have hw := h.win
      have hs := dispatchPktUntilStartWin_shifts (m := i + 1) hwf hlt (by omega) (by omega) (.inr hnone)
      refine ⟨i + 1, by omega, fun _ => hfull, ?_⟩
      exact { hs with }
  · exact ⟨0, Nat.zero_le _, by simp, .of_eq h rfl rfl rfl hlt rfl rfl⟩

/-! ## The invariant -/

/-- `b` comes next after `a`. -/
def Next (a b : Delivery P) : Prop :=
  a.frame.pos < b.frame.pos ∧ b.frame.pos + a.bars ≤ a.frame.pos + 2048 + b.bars

/-- A buffered frame is close enough to `d`, or none is buffered and the window itself is, but for `k`. -/
def Gap (t : RxReorderTbl (Frame P)) (base bars k : ℕ) (d : Delivery P) : Prop :=
  (∃ i, (t.rxReorderPtr i).isSome ∧ base + i + d.bars ≤ d.frame.pos + 2048 + bars) ∨
    ((∀ i, t.rxReorderPtr i = none) ∧ base + d.bars ≤ d.frame.pos + 1 + bars + k)

/-- What a run keeps, but for a distance `k` that block ack requests still have to answer for. -/
structure StreamInv (t : RxReorderTbl (Frame P)) (base bars k : ℕ) (log : List (Delivery P)) : Prop where
  wf : t.WellFormed
  win : 2 ≤ t.winSize
  start : t.startWin = base % 4096
  check : t.checkStartWin = false
  drop : t.forceNoDrop = false
  slots : ∀ i f, t.rxReorderPtr i = some f → f.pos = base + i ∧ f.pos % 4096 = f.seq
  seqs : ∀ d ∈ log, d.frame.pos % 4096 = d.frame.seq
  below : ∀ d ∈ log, d.frame.pos < base
  chain : log.IsChain Next
  gap : ∀ d ∈ log.getLast?, Gap t base bars k d

namespace StreamInv

variable {t t' : RxReorderTbl (Frame P)} {base bars k : ℕ} {l : List (Frame P)} {log : List (Delivery P)}

section

variable (hi : StreamInv t base bars k log)

include hi

theorem start_lt : t.startWin < 4096 := by
  rw [hi.start]
  exact Nat.mod_lt _ (by decide)

/-- What the first slots hold, in order, with less than a window between any two. -/
theorem contents_mem {f : Frame P} (hf : f ∈ t.rxReorderPtr.contents m) :
    ∃ i < m, i < t.winSize ∧ t.rxReorderPtr i = some f ∧ f.pos = base + i := by
  obtain ⟨i, him, hi'⟩ := SlotArray.mem_contents.mp hf
  refine ⟨i, him, ?_, hi', (hi.slots i f hi').1⟩
  by_contra hout
  rw [hi.wf.bounded i (not_lt.mp hout)] at hi'
  simp at hi'

theorem contents_chain (m : ℕ) :
    ((t.rxReorderPtr.contents m).map (Delivery.mk · bars)).IsChain Next := by
  rw [isChain_map]
  have hpair := SlotArray.contents_pairwise (f := Frame.pos) (fun i f hf => (hi.slots i f hf).1) m
  have hw := hi.wf.win
  refine (List.Pairwise.imp_of_mem ?_ hpair).isChain
  intro x y hx hy hlt
  obtain ⟨i, -, hi', -, hx⟩ := hi.contents_mem hx
  obtain ⟨j, -, hj', -, hy⟩ := hi.contents_mem hy
  exact ⟨hlt, by dsimp only; omega⟩

/-- The first frame of the window comes next after the last that came out. -/
theorem next_head {d : Delivery P} (hd : d ∈ log.getLast?) {f : Frame P}
    (hf : f ∈ (t.rxReorderPtr.contents m).head?) : Next d ⟨f, bars⟩ := by
  have hmem : f ∈ t.rxReorderPtr.contents m := mem_of_mem_head? hf
  obtain ⟨i, him, hiw, hi', hpos⟩ := hi.contents_mem hmem
  have hbelow := hi.below d (mem_of_mem_getLast? hd)
  refine ⟨by dsimp only; omega, ?_⟩
  rcases hi.gap d hd with ⟨j, hj, hgap⟩ | ⟨hnone, -⟩
  · -- the head of the contents is not behind the full slot `j`
    have hij : i ≤ j := by
      by_contra hlt
      obtain ⟨g, hg⟩ := Option.isSome_iff_exists.mp hj
      have hgm : g ∈ t.rxReorderPtr.contents m := SlotArray.mem_contents.mpr ⟨j, by omega, hg⟩
      have hpair := SlotArray.contents_pairwise (f := Frame.pos) (fun i f hf => (hi.slots i f hf).1) m
      have hgpos := (hi.slots j g hg).1
      cases hc : t.rxReorderPtr.contents m with
      | nil => simp [hc] at hf
      | cons x xs =>
        rw [hc] at hf hgm hpair
        obtain rfl : x = f := by simpa using hf
        rcases mem_cons.mp hgm with rfl | hgm
        · omega
        · have := (pairwise_cons.mp hpair).1 g hgm
          omega
    dsimp only
    omega
  · rw [hnone i] at hi'
    simp at hi'

/-- Shifting keeps all but the distance. -/
theorem shift_of_gap (h : Shifts t m l t') {k' : ℕ}
    (hgap : ∀ d ∈ (log ++ l.map (Delivery.mk · bars)).getLast?, Gap t' (base + m) bars k' d) :
    StreamInv t' (base + m) bars k' (log ++ l.map (Delivery.mk · bars)) := by
  obtain rfl := h.out
  refine ⟨h.wf, by rw [h.win]; exact hi.win, ?_, h.check.trans hi.check, h.drop.trans hi.drop, ?_, ?_, ?_, ?_, hgap⟩
  · rw [h.start, hi.start]
    omega
  · intro i f hf
    rw [h.slots] at hf
    obtain ⟨hpos, hseq⟩ := hi.slots _ f hf
    exact ⟨by omega, hseq⟩
  · intro d hd
    rcases mem_append.mp hd with hd | hd
    · exact hi.seqs d hd
    · obtain ⟨f, hf, rfl⟩ := mem_map.mp hd
      obtain ⟨i, -, -, hf, -⟩ := hi.contents_mem hf
      exact (hi.slots i f hf).2
  · intro d hd
    rcases mem_append.mp hd with hd | hd
    · exact (hi.below d hd).trans_le (Nat.le_add_right _ _)
    · obtain ⟨f, hf, rfl⟩ := mem_map.mp hd
      obtain ⟨i, him, -, -, hpos⟩ := hi.contents_mem hf
      dsimp only
      omega
  · rw [isChain_append]
    refine ⟨hi.chain, hi.contents_chain m, fun d hd e he => ?_⟩
    rw [head?_map] at he
    obtain ⟨f, hf, rfl⟩ := Option.mem_map.mp he
    exact hi.next_head hd hf

/-- Behind a frame that just came out of slot `i`, what is left of the window is close. -/
theorem gap_of_out (h : Shifts t m l t') {f : Frame P} {i : ℕ}
    (hpos : f.pos = base + i) {k' : ℕ} (hk : m ≤ i + 1 + k') : Gap t' (base + m) bars k' ⟨f, bars⟩ := by
  by_cases hleft : ∃ j, (t'.rxReorderPtr j).isSome
  · obtain ⟨j, hj⟩ := hleft
    have hw := hi.wf.win
    have hmj : m + j < t.winSize := by
      by_contra hout
      rw [h.slots, SlotArray.dropSlots, hi.wf.bounded _ (not_lt.mp hout)] at hj
      simp at hj
    exact .inl ⟨j, hj, by dsimp only; omega⟩
  · refine .inr ⟨fun j => ?_, by dsimp only; omega⟩
    by_contra hj
    exact hleft ⟨j, Option.isSome_iff_ne_none.mpr hj⟩

theorem shift (h : Shifts t m l t') :
    StreamInv t' (base + m) bars (k + m) (log ++ l.map (Delivery.mk · bars)) := by
  refine hi.shift_of_gap h fun d hd => ?_
  obtain rfl := h.out
  rcases eq_nil_or_concat (t.rxReorderPtr.contents m) with hnil | ⟨xs, f, hc⟩
  · -- nothing comes out : the full slots lie behind slot `m`
    rw [hnil, map_nil, append_nil] at hd
    rcases hi.gap d hd with ⟨j, hj, hgap⟩ | ⟨hnone, hgap⟩
    · have hmj : m ≤ j := by
        by_contra hlt
        obtain ⟨g, hg⟩ := Option.isSome_iff_exists.mp hj
        have hmem : g ∈ t.rxReorderPtr.contents m := SlotArray.mem_contents.mpr ⟨j, by omega, hg⟩
        simp [hnil] at hmem
      refine .inl ⟨j - m, ?_, by omega⟩
      rwa [h.slots, SlotArray.dropSlots, Nat.add_sub_cancel' hmj]
    · exact .inr ⟨fun j => by rw [h.slots, SlotArray.dropSlots, hnone], by omega⟩
  · obtain ⟨i, him, -, -, hpos⟩ := hi.contents_mem (m := m) (f := f) (by simp [hc])
    rw [hc] at hd
    obtain rfl : (⟨f, bars⟩ : Delivery P) = d := by simpa using hd
    exact hi.gap_of_out h hpos (by omega)

/-- A shift that ends with a full slot leaves no distance behind. -/
theorem shift_full (h : Shifts t m l t')
    (hfull : m ≠ 0 → (t.rxReorderPtr (m - 1)).isSome) :
    StreamInv t' (base + m) bars k (log ++ l.map (Delivery.mk · bars)) := by
  rcases Nat.eq_zero_or_pos m with rfl | hm
  · exact hi.shift h
  refine hi.shift_of_gap h fun d hd => ?_
  obtain rfl := h.out
  obtain ⟨f, hf⟩ := Option.isSome_iff_exists.mp (hfull hm.ne')
  obtain ⟨n, rfl⟩ : ∃ n, m = n + 1 := ⟨m - 1, by omega⟩
  rw [Nat.add_sub_cancel] at hf
  rw [SlotArray.contents_succ, hf] at hd
  obtain rfl : (⟨f, bars⟩ : Delivery P) = d := by simpa using hd
  exact hi.gap_of_out h (hi.slots n f hf).1 (by omega)

theorem store {i : ℕ} (hin : i < t.winSize) (hk : k + i < 2048) {f : Frame P}
    (hpos : f.pos = base + i) (hseq : f.pos % 4096 = f.seq) : StreamInv (t.store wide i f) base bars 0 log := by
  refine ⟨hi.wf.store hin, hi.win, hi.start, hi.check, hi.drop, ?_, hi.seqs, hi.below, hi.chain, fun d hd => ?_⟩
  · intro j g hg
    by_cases hj : j = i
    · subst hj
      simp only [RxReorderTbl.store, Function.update_self, Option.some.injEq] at hg
      subst hg
      exact ⟨hpos, hseq⟩
    · simp only [RxReorderTbl.store, Function.update_of_ne hj] at hg
      exact hi.slots j g hg
  · rcases hi.gap d hd with ⟨j, hj, hgap⟩ | ⟨-, hgap⟩
    · refine .inl ⟨j, ?_, hgap⟩
      by_cases hji : j = i
      · simp [RxReorderTbl.store, hji]
      · simpa [RxReorderTbl.store, Function.update_of_ne hji] using hj
    · exact .inl ⟨i, by simp [RxReorderTbl.store], by omega⟩

/-- Block ack requests answer for the distance. -/
theorem addBars : StreamInv t base (bars + k) 0 log := by
  refine ⟨hi.wf, hi.win, hi.start, hi.check, hi.drop, hi.slots, hi.seqs, hi.below, hi.chain, fun d hd => ?_⟩
  rcases hi.gap d hd with ⟨j, hj, hgap⟩ | ⟨hnone, hgap⟩
  · exact .inl ⟨j, hj, by omega⟩
  · exact .inr ⟨hnone, by omega⟩

end

/-! ## A call -/

/-- `t'` is the table behind a call on `t` that brought out `l`. -/
def Moved (t t' : RxReorderTbl (Frame P)) (base bars bars' : ℕ) (log : List (Delivery P)) (l : List (Frame P)) :
    Prop :=
  ∃ n < 4096, t'.startWin = (t.startWin + n) % 4096 ∧
    StreamInv t' (base + n) bars' 0 (log ++ l.map (Delivery.mk · bars))

theorem moved_refl (hi : StreamInv t base bars 0 log) : Moved t t base bars bars log [] :=
  ⟨0, by decide, by rw [Nat.add_zero, Nat.mod_eq_of_lt hi.start_lt], by simpa using hi⟩

theorem scan_moved {t₁ : RxReorderTbl (Frame P)} (hi : StreamInv t₁ (base + m) bars k (log ++ l.map (Delivery.mk · bars)))
    (hstart : t₁.startWin = (t.startWin + m) % 4096) (hm : m < 2048) :
    Moved t t₁.scanAndDispatch.2 base bars (bars + k) log (l ++ t₁.scanAndDispatch.1) := by
  obtain ⟨n, hn, hfull, hs⟩ := scanAndDispatch_shifts hi.wf
  have hw := hi.wf.win
  have hscan := (hi.shift_full hs fun hne => hfull (n - 1) (by omega)).addBars
  refine ⟨m + n, by omega, ?_, ?_⟩
  · rw [hs.start, hstart]
    omega
  · rw [map_append, ← append_assoc, ← Nat.add_assoc]
    exact hscan

theorem ahead_pos {s seq : ℕ} (hs : s = base % 4096) (hseq : seq < 4096) : (base + ahead s seq) % 4096 = seq := by
  unfold ahead
  omega

/-- A packet in front of the window's half of the sequence space. -/
theorem acceptPkt (hi : StreamInv t base bars 0 log) {seq : ℕ} (hseq : seq < 4096) {ty : PktType}
    (hnew : ahead t.startWin seq < 2048) (hty : ¬(ty = .amsdu ∧ (!t.amsdu) = true))
    (hclean : t.startWin + Stream.winMove t seq ty < 4096 ∨
      ∀ i < t.winSize, Stream.winMove t seq ty ≤ i → (t.rxReorderPtr i).isNone) (payload : P) :
    Moved t (t.acceptPkt wide seq ty ⟨seq, payload, base + ahead t.startWin seq⟩).2.2 base bars
      (if ty = .bar then bars + Stream.winMove t seq ty else bars) log
      (t.acceptPkt wide seq ty ⟨seq, payload, base + ahead t.startWin seq⟩).2.1 := by
  have hw := hi.wf.win
  have hw2 := hi.win
  have hclean' : t.startWin + Stream.winMove t seq ty < 4096 ∨
      ∀ i, Stream.winMove t seq ty ≤ i → t.rxReorderPtr i = none := by
    refine hclean.imp_right fun hc i hmi => ?_
    rcases Nat.lt_or_ge i t.winSize with hin | hout
    · exact Option.isNone_iff_eq_none.mp (hc i hin hmi)
    · exact hi.wf.bounded i hout
  have hold : ¬(2048 ≤ ahead t.startWin seq ∨ (ty = .amsdu ∧ (!t.amsdu) = true)) := by
    rintro (h | h)
    · omega
    · exact hty h
  rw [Stream.winMove, if_neg hold] at hclean' ⊢
  unfold RxReorderTbl.acceptPkt
  by_cases hbar : ty = .bar
  · -- a block ack request moves the window to its sequence number
    simp only [hbar, if_true] at hclean' ⊢
    have hahead : ahead t.startWin ((seq + t.winSize - 1) % 4096) = ahead t.startWin seq + t.winSize - 1 := by
      rw [ahead_bar hi.wf.start hi.win hi.wf.win hseq, Nat.mod_eq_of_lt (by omega)]
    rcases Nat.eq_zero_or_pos (ahead t.startWin seq) with hzero | hpos
    · rw [moveWin_inside hi.wf hi.win (by omega) (by omega), hzero]
      exact scan_moved (m := 0) (k := 0) (l := []) (by simpa using hi) (by
        rw [Nat.add_zero, Nat.mod_eq_of_lt hi.start_lt]) (by omega)
    · rw [moveWin_outside hi.wf hi.win (by omega) (by omega), hahead]
      have hdist : ahead t.startWin seq + t.winSize - 1 + 1 - t.winSize = ahead t.startWin seq := by omega
      rw [hdist]
      have hs := dispatchPktUntilStartWin_shifts hi.wf hi.start_lt hpos (by omega) hclean'
      have hshift := hi.shift hs
      rw [Nat.zero_add] at hshift
      exact scan_moved hshift hs.start hnew
  · simp only [hbar, if_false] at hclean' ⊢
    rcases Nat.lt_or_ge (ahead t.startWin seq) t.winSize with hin | hout
    · -- a frame inside of the window
      rw [moveWin_inside hi.wf hi.win hseq hin]
      dsimp only
      rw [slotIndex_eq hi.wf.start hseq]
      cases t.rxReorderPtr (ahead t.startWin seq) with
      | some g => exact moved_refl hi
      | none =>
        have hst := @StreamInv.store _ wide _ _ _ _ _ hi _ hin (by omega) ⟨seq, payload, base + ahead t.startWin seq⟩ rfl
          (ahead_pos hi.start hseq)
        exact scan_moved (m := 0) (k := 0) (l := []) (by simpa using hst) (by
          rw [Nat.add_zero, Nat.mod_eq_of_lt hi.start_lt]; rfl) (by omega)
    · -- a frame behind it, which ends the new window
      rw [moveWin_outside hi.wf hi.win hseq hout]
      have hs := dispatchPktUntilStartWin_shifts hi.wf hi.start_lt (m := ahead t.startWin seq + 1 - t.winSize)
        (by omega) (by omega) hclean'
      have hshift := hi.shift hs
      have hlast : slotIndex (t.dispatchPktUntilStartWin
          ((t.startWin + (ahead t.startWin seq + 1 - t.winSize)) % 4096)).2.startWin seq = t.winSize - 1 := by
        rw [slotIndex_eq hs.wf.start hseq, hs.start, ← newStartWin_eq hi.win hi.wf.win hseq hout,
          ahead_newStartWin hi.win hi.wf.win hseq]
      have hempty : (t.dispatchPktUntilStartWin
          ((t.startWin + (ahead t.startWin seq + 1 - t.winSize)) % 4096)).2.rxReorderPtr (t.winSize - 1) = none := by
        rw [hs.slots, SlotArray.dropSlots]
        exact hi.wf.bounded _ (by omega)
      rw [hlast, hempty]
      have hst := @StreamInv.store _ wide _ _ _ _ _ hshift (t.winSize - 1) (by rw [hs.win]; omega) (by omega)
        ⟨seq, payload, base + ahead t.startWin seq⟩ (by dsimp only; omega) (ahead_pos hi.start hseq)
      exact scan_moved (k := 0) hst hs.start (by omega)

theorem windowPkt (hi : StreamInv t base bars 0 log) {seq : ℕ} (hseq : seq < 4096) {ty : PktType}
    (hty : ¬(ty = .amsdu ∧ (!t.amsdu) = true))
    (hclean : t.startWin + Stream.winMove t seq ty < 4096 ∨
      ∀ i < t.winSize, Stream.winMove t seq ty ≤ i → (t.rxReorderPtr i).isNone) (payload : P) :
    Moved t (t.windowPkt wide seq ty ⟨seq, payload, base + ahead t.startWin seq⟩).2.2 base bars
      (if ty = .bar then bars + Stream.winMove t seq ty else bars) log
      (t.windowPkt wide seq ty ⟨seq, payload, base + ahead t.startWin seq⟩).2.1 := by
  have hno : ¬t.forceNoDrop = true := by simp [hi.drop]
  by_cases hold : IsOld t.startWin seq
  · have heq : ∀ f, t.windowPkt wide seq ty f = (.failure, [], t) := fun f => by
      rw [RxReorderTbl.windowPkt, if_neg hno, if_pos hold]
    have hmove : Stream.winMove t seq ty = 0 := by
      rw [isOld_iff hi.wf.start hseq] at hold
      simp [Stream.winMove, hold]
    rw [heq, hmove, Nat.add_zero, ite_self]
    exact moved_refl hi
  · have heq : ∀ f, t.windowPkt wide seq ty f = t.acceptPkt wide seq ty f := fun f => by
      rw [RxReorderTbl.windowPkt, if_neg hno, if_neg hold]
    rw [isOld_iff hi.wf.start hseq] at hold
    rw [heq]
    exact hi.acceptPkt hseq (not_le.mp hold) hty hclean payload

theorem done (hi : StreamInv t base bars k log) (prev : ℕ) : StreamInv (done prev t) base bars k log := by
  have h := hi.shift ((Shifts.of_eq hi.wf rfl rfl rfl hi.start_lt rfl rfl).done prev)
  simpa using h

end StreamInv

/-- A call on an established window. -/
theorem rxReorderPkt_established {t : RxReorderTbl P} (hc : t.flushIfSet.2.checkStartWin = false)
    (hn : t.flushIfSet.2.forceNoDrop = false) (seq : ℕ) (ty : PktType) (payload : P) :
    t.rxReorderPkt wide seq ty payload =
      if ty = .amsdu ∧ !t.flushIfSet.2.amsdu then
        ⟨.success, viaWindow t.flushIfSet.1 ++ [(.direct, payload)], t.flushIfSet.2, false⟩
      else
        ⟨(t.flushIfSet.2.windowPkt wide seq ty payload).1,
          viaWindow (t.flushIfSet.1 ++ (t.flushIfSet.2.windowPkt wide seq ty payload).2.1),
          done t.flushIfSet.2.startWin (t.flushIfSet.2.windowPkt wide seq ty payload).2.2, true⟩ := by
  unfold rxReorderPkt
  simp only [openWin, hc, noDropFlush, hn, Bool.false_eq_true, if_false, append_nil]

theorem done_startWin (prev : ℕ) (t : RxReorderTbl P) : (done prev t).startWin = t.startWin := by
  obtain ⟨b, hb⟩ := done_eq prev t
  rw [hb]

namespace Stream

/-- The invariant of a stream. -/
def Inv (s : Stream P) : Prop :=
  StreamInv s.tbl s.base s.bars 0 s.log

@[simp] theorem deliveries_viaWindow (bars : ℕ) (l : List (Frame P)) :
    deliveries bars (viaWindow l) = l.map (Delivery.mk · bars) := by
  rw [deliveries, viaWindow, filter_eq_self.mpr (by simp), map_map]
  rfl

theorem deliveries_append (bars : ℕ) (l l' : List (Via × Frame P)) :
    deliveries bars (l ++ l') = deliveries bars l ++ deliveries bars l' := by
  simp [deliveries]

theorem ahead_add {s m : ℕ} (hs : s < 4096) (hm : m < 4096) : ahead s ((s + m) % 4096) = m := by
  unfold ahead
  omega

variable {s : Stream P}

/-- The flush at the front of a call. -/
theorem Inv.flushed (hi : s.Inv) :
    StreamInv s.tbl.flushIfSet.2 (s.base + ahead s.tbl.startWin s.tbl.flushIfSet.2.startWin) s.bars 0
      (s.log ++ s.tbl.flushIfSet.1.map (Delivery.mk · s.bars)) := by
  have hi : StreamInv s.tbl s.base s.bars 0 s.log := hi
  obtain ⟨n, hn, hfull, hs⟩ := flushIfSet_shifts hi.wf hi.start_lt
  have hw := hi.wf.win
  rw [hs.start, ahead_add hi.start_lt (by omega)]
  exact hi.shift_full hs hfull

theorem Inv.rxPkt (hi : s.Inv) (seq : Fin 4096) (ty : PktType) (payload : P)
    (hclean : s.WrapsClean (.pkt seq ty payload)) : (s.rxPkt wide seq ty payload).Inv := by
  have hf := hi.flushed
  simp only [Stream.rxPkt, Inv]
  rw [rxReorderPkt_established hf.check hf.drop]
  by_cases hamsdu : ty = .amsdu ∧ (!s.tbl.flushIfSet.2.amsdu) = true
  · -- past the window
    have hbar : ty ≠ .bar := by
      rw [hamsdu.1]
      decide
    have hzero := ahead_add hf.start_lt (m := 0) (by decide)
    rw [Nat.add_zero, Nat.mod_eq_of_lt hf.start_lt] at hzero
    rw [if_pos hamsdu, if_neg hbar]
    dsimp only
    rw [hzero, Nat.add_zero, deliveries_append, deliveries_viaWindow]
    simpa [deliveries] using hf
  · obtain ⟨n, hn, hstart, hacc⟩ := @StreamInv.windowPkt _ wide _ _ _ _ hf _ seq.isLt _ hamsdu hclean payload
    have hdone := hacc.done s.tbl.flushIfSet.2.startWin
    rw [if_neg hamsdu]
    dsimp only
    rw [done_startWin, hstart, ahead_add hf.start_lt hn, deliveries_viaWindow, map_append, ← append_assoc]
    exact hdone

theorem Inv.step (hi : s.Inv) {a : Act P} (hclean : s.WrapsClean a) {s' : Stream P}
    (h : s.step wide a = some s') : s'.Inv := by
  cases a with
  | pkt seq ty payload =>
    obtain rfl := Option.some.inj h
    exact hi.rxPkt seq ty payload hclean
  | timer =>
    simp only [Stream.step, Option.ite_none_right_eq_some, Option.some.injEq] at h
    obtain ⟨-, rfl⟩ := h
    have hi : StreamInv s.tbl s.base s.bars 0 s.log := hi
    exact ⟨{ hi.wf with }, hi.win, hi.start, hi.check, hi.drop, hi.slots,
      hi.seqs, hi.below, hi.chain, hi.gap⟩
  | flush =>
    obtain rfl := Option.some.inj h
    simpa [Inv, Stream.flush] using hi.flushed

theorem Established.inv (h : s.Established) : s.Inv where
  wf := ⟨h.win.2, h.start.le, h.last, fun i _ => h.slots i⟩
  win := h.win.1
  start := by rw [h.base, Nat.mod_eq_of_lt h.start]
  check := h.check
  drop := h.drop
  slots i f hf := by simp [h.slots i] at hf
  seqs d hd := by simp [h.log] at hd
  below d hd := by simp [h.log] at hd
  chain := by simp [h.log]
  gap d hd := by simp [h.log] at hd

/-- Frames come out at increasing positions, each at most 2048 and the distance of block ack requests ahead of
the one before; a position is congruent to the sequence number, so without block ack requests in between
sequence numbers increase by 1 to 2048, modulo 4096. -/
structure InOrder (log : List (Delivery P)) : Prop where
  seqs : ∀ d ∈ log, d.frame.pos % 4096 = d.frame.seq
  increasing : log.Pairwise fun a b => a.frame.pos < b.frame.pos
  close : log.IsChain fun a b => b.frame.pos + a.bars ≤ a.frame.pos + 2048 + b.bars
  ahead : log.IsChain fun a b => a.bars = b.bars →
    1 ≤ ahead a.frame.seq b.frame.seq ∧ ahead a.frame.seq b.frame.seq ≤ 2048

theorem Inv.inOrder (hi : s.Inv) : InOrder s.log := by
  have hi : StreamInv s.tbl s.base s.bars 0 s.log := hi
  refine ⟨hi.seqs, ?_, hi.chain.imp fun _ _ h => h.2, ?_⟩
  · have hlt : s.log.IsChain fun a b => a.frame.pos < b.frame.pos := hi.chain.imp fun _ _ h => h.1
    have : IsTrans (Delivery P) fun a b => a.frame.pos < b.frame.pos := ⟨fun _ _ _ => Nat.lt_trans⟩
    exact isChain_iff_pairwise.mp hlt
  · refine List.IsChain.imp_of_mem_imp (fun a b ha hb h hbars => ?_) hi.chain
    have hsa := hi.seqs a ha
    have hsb := hi.seqs b hb
    unfold Next at h
    unfold RxReorderTbl.ahead
    omega

end Stream

/-- **Delivery in order.** In every run in which the window wraps clean, what comes out of it is in order. -/
theorem delivered_in_order {s : Stream P} (h : (streamSystem wide).ReachableWhen Stream.WrapsClean s) :
    Stream.InOrder s.log := by
  have hi : s.Inv := by
    refine System.ReachableWhen.invariant (I := Stream.Inv) ?_ ?_ h
    · exact fun _ hs => Stream.Established.inv hs
    · exact fun _ _ _ hi hc hstep => Stream.Inv.step hi hc hstep
  exact hi.inOrder

/-- An established window of `w` slots at `start`. -/
def establishedStream (w start : ℕ) : Stream P where
  tbl := { RxReorderTbl.create ⟨2, 0, 0, 0, 0, 1⟩ 0 w start 0xffff with checkStartWin := false }
  base := start
  bars := 0
  log := []

/-- Two frames in the wrong order across the wrap. -/
theorem delivered_in_order_wrap :
    ∃ s : Stream ℕ, (streamSystem maskedShl).ReachableWhen Stream.WrapsClean s ∧
      s.log.map (fun d => d.frame.seq) = [4094, 4095, 0] ∧ Stream.InOrder s.log := by
  obtain ⟨s, hs, hlog⟩ := System.exists_reachableWhen_of_runWhen (M := streamSystem maskedShl) (C := Stream.WrapsClean)
    (P := fun s => s.log.map (fun d => d.frame.seq) = [4094, 4095, 0])
    (l := [.pkt 4095 .data 1, .pkt 0 .data 2, .pkt 4094 .data 0]) (s := establishedStream 8 4094)
    (.init ⟨by decide, by decide, .inr rfl, rfl, rfl, fun _ => rfl, rfl, rfl⟩) (by decide +kernel)
  simp only [decide_eq_true_eq] at hlog
  exact ⟨s, hs, hlog, delivered_in_order hs⟩

/-- Two block ack requests move the window, and the next frame is 4000 ahead of the last. -/
theorem bar_moves_far :
    ¬∀ s : Stream ℕ, (streamSystem maskedShl).Reachable s →
      s.log.IsChain fun a b => 1 ≤ ahead a.frame.seq b.frame.seq ∧ ahead a.frame.seq b.frame.seq < 2048 := by
  intro h
  obtain ⟨s, hs, hlog⟩ := System.exists_reachable_of_run (M := streamSystem maskedShl)
    (P := fun s => s.log.map (fun d => d.frame.seq) = [0, 4000])
    (l := [.pkt 0 .data 1, .pkt 2000 .bar 0, .pkt 4000 .bar 0, .pkt 4000 .data 2]) (s := establishedStream 8 0)
    ⟨by decide, by decide, .inr rfl, rfl, rfl, fun _ => rfl, rfl, rfl⟩ (by decide +kernel)
  simp only [decide_eq_true_eq] at hlog
  have hchain := h s hs
  rw [← isChain_map (R := fun a b => 1 ≤ ahead a b ∧ ahead a b < 2048) (fun d : Delivery ℕ => d.frame.seq), hlog]
    at hchain
  revert hchain
  decide

end WlanDriver.Reorder
