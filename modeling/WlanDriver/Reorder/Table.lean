import WlanDriver.Lib.SlotArray
import WlanDriver.Lib.Ethernet
import Mathlib.Data.BitVec

/-!
# The receive reorder table

The table of one transmitter and one traffic class (`mlan_11n_rxreorder.c`), and the functions that
work on it : `dispatchPktUntilStartWin` empties the slots in front of a new window, `scanAndDispatch`
those in front of the first hole, and `rxReorderPkt` is the windowed part of
`mlan_11n_rxreorder_pkt`. Sequence numbers have 12 bits : `MAX_TID_VALUE` is 4096 and `TWOPOW11` is 2048.

An `unsigned long` has 64 bits here, as on the 64-bit kernels (LP64); with 32 bits the bitmap is short from slot 32 on. `1UL << i`
is not defined from bit 64 on; the parameter `wide` says what it gives there.

Everything the functions do to slots and bitmap is to drop slots from the front (`Drains`) and to fill one
slot. `rxReorderPkt_cases` says so for a whole call.
-/

namespace WlanDriver.Reorder

open Ethernet List SlotArray

/-! ## Data -/

/-- `MLAN_STATUS_SUCCESS` and `MLAN_STATUS_FAILURE`. -/
inductive MlanStatus
  | success
  | failure
  deriving DecidableEq, Repr

/-- The types of packets that are told apart : `PKT_TYPE_AMSDU`, `PKT_TYPE_BAR` and all others. -/
inductive PktType
  | data
  | amsdu
  | bar
  deriving DecidableEq, Repr

structure RxReorderTbl (P : Type*) where
  ta : Mac
  tid : ℕ
  startWin : ℕ
  lastSeq : ℕ
  winSize : ℕ
  rxReorderPtr : SlotArray P
  timerIsSet : Bool
  amsdu : Bool
  forceNoDrop : Bool
  checkStartWin : Bool
  /-- A `t_u8`. -/
  pktCount : ℕ
  flushData : Bool
  bitmap : BitVec 64

def defaultSeqNum : ℕ := 0xffff

/-- How a payload comes to `wlan_11n_dispatch_pkt` : past the window or out of it. -/
inductive Via
  | direct
  | window
  deriving DecidableEq, Repr

/-- What a call returns, hands to `wlan_11n_dispatch_pkt` and leaves behind, and whether it leaves
through `done`. -/
structure PktResult (P : Type*) where
  ret : MlanStatus
  out : List (Via × P)
  tbl : RxReorderTbl P
  windowed : Bool

variable {P : Type*} {t t' : RxReorderTbl P} {wide : ℕ → BitVec 64} {seq : ℕ} {payload : P} {ty : PktType}

/-- Payloads that come out of the window. -/
def viaWindow (l : List P) : List (Via × P) :=
  l.map (Via.window, ·)

namespace RxReorderTbl

/-! ## Dispatching -/

/-- The bitmap without its first `n` bits. -/
def shiftBitmap (b : BitVec 64) (n : ℕ) : BitVec 64 :=
  if n < 64 then b >>> n else 0

def noPktToSend (t : RxReorderTbl P) (startWin : ℕ) : ℕ :=
  if t.startWin < startWin then min (startWin - t.startWin) t.winSize else t.winSize

/-- `wlan_11n_dispatch_pkt_until_start_win`. -/
def dispatchPktUntilStartWin (t : RxReorderTbl P) (startWin : ℕ) : List P × RxReorderTbl P :=
  let n := t.noPktToSend startWin
  let r := takeFirst n t.rxReorderPtr
  (r.1, { t with
    rxReorderPtr := shiftDown n (t.winSize - n) r.2
    bitmap := shiftBitmap t.bitmap n
    startWin := startWin })

/-- `wlan_11n_scan_and_dispatch`. -/
def scanAndDispatch (t : RxReorderTbl P) : List P × RxReorderTbl P :=
  let r := takeRun t.winSize 0 t.rxReorderPtr
  let i := r.2.1
  (r.1, { t with
    rxReorderPtr := if 0 < i then shiftDown i (t.winSize - i) r.2.2 else r.2.2
    bitmap := shiftBitmap t.bitmap i
    startWin := (t.startWin + i) % 4096 })

def startFlushData (t : RxReorderTbl P) : List P × RxReorderTbl P :=
  match lastFull t.winSize t.rxReorderPtr with
  | none => ([], t)
  | some i => t.dispatchPktUntilStartWin ((t.startWin + i + 1) % 4096)

/-- What `mlan_11n_rxreorder_pkt` and `wlan_flush_priv_rxreorder_tbl` do with `flush_data`. -/
def flushIfSet (t : RxReorderTbl P) : List P × RxReorderTbl P :=
  if t.flushData then { t with flushData := false }.startFlushData else ([], t)

/-- `wlan_flush_data`, the timer. -/
def flushTimer (t : RxReorderTbl P) : RxReorderTbl P :=
  { t with flushData := true, timerIsSet := false }

/-- `mlan_11n_rxreorder_timer_restart`. -/
def timerRestart (t : RxReorderTbl P) : RxReorderTbl P :=
  { t with timerIsSet := true }

/-! ## A packet -/

/-- The start of the window once the packets that open a stream are over. -/
def updateStartWin (t : RxReorderTbl P) (seq : ℕ) : RxReorderTbl P :=
  if seq ≠ t.startWin ∧ t.lastSeq ≠ defaultSeqNum then
    let endWin := (t.startWin + t.winSize - 1) % 4096
    if (t.startWin < endWin ∧ t.startWin ≤ t.lastSeq ∧ t.lastSeq < endWin) ∨
        (endWin < t.startWin ∧ (t.startWin ≤ t.lastSeq ∨ t.lastSeq < endWin)) then
      { t with startWin := t.lastSeq + 1 }
    else if seq < t.startWin ∧ t.lastSeq < seq then
      { t with startWin := t.lastSeq + 1 }
    else t
  else t

/-- The `check_start_win` block : the result of a packet that does not go through the window,
or the table for one that does. -/
def openWin (t : RxReorderTbl P) (seq : ℕ) (ty : PktType) (payload : P) : PktResult P ⊕ RxReorderTbl P :=
  if t.checkStartWin then
    if seq = t.startWin then .inr { t with checkStartWin := false }
    else
      let t := { t with pktCount := (t.pktCount + 1) % 256 }
      if t.pktCount < t.winSize / 2 then
        if t.lastSeq = seq then .inl ⟨.failure, [], t, false⟩
        else
          let out := if ty = .bar then [] else [(Via.direct, payload)]
          .inl ⟨.success, out, { t with lastSeq := seq }, false⟩
      else .inr (updateStartWin { t with checkStartWin := false } seq)
  else .inr t

/-- The first `force_no_drop` block. -/
def noDropFlush (t : RxReorderTbl P) (seq : ℕ) (ty : PktType) : List P × RxReorderTbl P :=
  if t.forceNoDrop then
    let r := t.dispatchPktUntilStartWin ((t.startWin + t.winSize) % 4096)
    let t := if ty = .bar then r.2 else { r.2 with startWin := seq }
    (r.1, t.timerRestart)
  else ([], t)

/-- `seq_num` is less than the start of the window. -/
def IsOld (startWin seq : ℕ) : Prop :=
  (4095 < startWin + 2048 ∧ (startWin + 2048) % 4096 ≤ seq ∧ seq < startWin) ∨
    (¬4095 < startWin + 2048 ∧ (seq < startWin ∨ startWin + 2048 ≤ seq))
  deriving Decidable

/-- `seq_num` lies outside of the window. -/
def IsOutside (startWin endWin seq : ℕ) : Prop :=
  (endWin < startWin ∧ seq < startWin ∧ endWin < seq) ∨
    (startWin < endWin ∧ (endWin < seq ∨ seq < startWin))
  deriving Decidable

/-- The start of the window that ends with `seq_num`. -/
def newStartWin (winSize seq : ℕ) : ℕ :=
  -- `seq_num - win_size + 1 >= 0` in the source's signed arithmetic
  if winSize ≤ seq + 1 then seq + 1 - winSize else 4096 - (winSize - seq) + 1

/-- Move the window so that it ends with a `seq_num` behind it. -/
def moveWin (t : RxReorderTbl P) (seq : ℕ) : List P × RxReorderTbl P :=
  if IsOutside t.startWin ((t.startWin + t.winSize - 1) % 4096) seq then
    t.dispatchPktUntilStartWin (newStartWin t.winSize seq)
  else ([], t)

/-- The slot of `seq_num`. -/
def slotIndex (startWin seq : ℕ) : ℕ :=
  if startWin ≤ seq then seq - startWin else seq + 4096 - startWin

/-- A shift that only sees the last six bits of its count, as on x86-64 and arm64. -/
def maskedShl (i : ℕ) : BitVec 64 :=
  1#64 <<< (i % 64)

/-- `1UL << i`, of an `unsigned long` of 64 bits. -/
def ulShl (wide : ℕ → BitVec 64) (i : ℕ) : BitVec 64 :=
  if i < 64 then 1#64 <<< i else wide i

/-- Fill slot `i` and set its bit. -/
def store (wide : ℕ → BitVec 64) (t : RxReorderTbl P) (i : ℕ) (payload : P) : RxReorderTbl P :=
  { t with
    rxReorderPtr := Function.update t.rxReorderPtr i (some payload)
    bitmap := t.bitmap ||| ulShl wide i }

/-- The exit `done` : the timer runs while the bitmap is not empty, and restarts when the window moved. -/
def done (prevStartWin : ℕ) (t : RxReorderTbl P) : RxReorderTbl P :=
  if t.bitmap = 0 then { t with timerIsSet := false }
  else if !t.timerIsSet ∨ prevStartWin ≠ t.startWin then t.timerRestart
  else t

/-- Move the window, store, scan. -/
def acceptPkt (wide : ℕ → BitVec 64) (t : RxReorderTbl P) (seq : ℕ) (ty : PktType) (payload : P) :
    MlanStatus × List P × RxReorderTbl P :=
  if ty = .bar then
    let m := t.moveWin ((seq + t.winSize - 1) % 4096)
    let s := m.2.scanAndDispatch
    (.success, m.1 ++ s.1, s.2)
  else
    let m := t.moveWin seq
    let i := slotIndex m.2.startWin seq
    match m.2.rxReorderPtr i with
    | some _ => (.failure, m)
    | none =>
      let s := (m.2.store wide i payload).scanAndDispatch
      (.success, m.1 ++ s.1, s.2)

/-- The window, up to `done`. -/
def windowPkt (wide : ℕ → BitVec 64) (t : RxReorderTbl P) (seq : ℕ) (ty : PktType) (payload : P) :
    MlanStatus × List P × RxReorderTbl P :=
  if t.forceNoDrop then { t with forceNoDrop := false }.acceptPkt wide seq ty payload
  else if IsOld t.startWin seq then (.failure, [], t)
  else t.acceptPkt wide seq ty payload

/-- `mlan_11n_rxreorder_pkt` on a table whose window is larger than 1. -/
def rxReorderPkt (wide : ℕ → BitVec 64) (t : RxReorderTbl P) (seq : ℕ) (ty : PktType) (payload : P) :
    PktResult P :=
  let f := t.flushIfSet
  if ty = .amsdu ∧ !f.2.amsdu then
    ⟨.success, viaWindow f.1 ++ [(.direct, payload)], f.2, false⟩
  else
    match f.2.openWin seq ty payload with
    | .inl r => { r with out := viaWindow f.1 ++ r.out }
    | .inr t =>
      let d := t.noDropFlush seq ty
      let w := d.2.windowPkt wide seq ty payload
      ⟨w.1, viaWindow (f.1 ++ d.1 ++ w.2.1), done d.2.startWin w.2.2, true⟩

/-! ## Setup and teardown -/

/-- The table that `wlan_11n_create_rxreorder_tbl` links; the memory comes zeroed. -/
def create (ta : Mac) (tid winSize seq lastSeq : ℕ) : RxReorderTbl P where
  ta := ta
  tid := tid
  startWin := seq
  lastSeq := lastSeq
  winSize := winSize
  rxReorderPtr _ := none
  timerIsSet := false
  amsdu := false
  forceNoDrop := false
  checkStartWin := true
  pktCount := 0
  flushData := false
  bitmap := 0

/-- `wlan_11n_delete_rxreorder_tbl_entry` : what it dispatches, and the table whose slots it then frees. -/
def deleteRxReorderTblEntry (t : RxReorderTbl P) : List P × RxReorderTbl P :=
  let r := t.dispatchPktUntilStartWin ((t.startWin + t.winSize) % 4096)
  (r.1, { r.2 with timerIsSet := false })

/-! ## Sequence numbers and slots -/

/-- How far `seq` is ahead of the start of the window. -/
def ahead (startWin seq : ℕ) : ℕ :=
  (seq + 4096 - startWin) % 4096

theorem isOld_iff {s : ℕ} (hs : s ≤ 4096) (hseq : seq < 4096) : IsOld s seq ↔ 2048 ≤ ahead s seq := by
  unfold IsOld ahead
  omega

theorem isOutside_iff {s w : ℕ} (hs : s ≤ 4096) (hw : 2 ≤ w) (hw' : w ≤ 1024) (hseq : seq < 4096) :
    IsOutside s ((s + w - 1) % 4096) seq ↔ w ≤ ahead s seq := by
  unfold IsOutside ahead
  omega

theorem newStartWin_eq {s w : ℕ} (hw : 2 ≤ w) (hw' : w ≤ 1024) (hseq : seq < 4096)
    (hout : w ≤ ahead s seq) : newStartWin w seq = (s + (ahead s seq + 1 - w)) % 4096 := by
  unfold newStartWin
  unfold ahead at hout ⊢
  split_ifs <;> omega

theorem slotIndex_eq {s : ℕ} (hs : s ≤ 4096) (hseq : seq < 4096) : slotIndex s seq = ahead s seq := by
  unfold slotIndex ahead
  split_ifs <;> omega

/-- A new start puts `seq` into the last slot. -/
theorem ahead_newStartWin {w : ℕ} (hw : 2 ≤ w) (hw' : w ≤ 1024) (hseq : seq < 4096) :
    ahead (newStartWin w seq) seq = w - 1 := by
  unfold newStartWin ahead
  split_ifs <;> omega

/-- The window of a block ack request ends a window behind its sequence number. -/
theorem ahead_bar {s w : ℕ} (hs : s ≤ 4096) (hw : 2 ≤ w) (hw' : w ≤ 1024) (hseq : seq < 4096) :
    ahead s ((seq + w - 1) % 4096) = (ahead s seq + w - 1) % 4096 := by
  unfold ahead
  omega

/-! ## What the dispatching loops do -/

/-- What every table keeps : the window is small against the sequence space, its start and the last sequence
number are in range, and nothing lies behind its last slot. -/
structure WellFormed (t : RxReorderTbl P) : Prop where
  win : t.winSize ≤ 1024
  start : t.startWin ≤ 4096
  last : t.lastSeq < 4096 ∨ t.lastSeq = defaultSeqNum
  bounded : t.rxReorderPtr.Bounded t.winSize

/-- The table without its first `n` slots. -/
def advance (t : RxReorderTbl P) (n startWin : ℕ) : RxReorderTbl P :=
  { t with
    rxReorderPtr := t.rxReorderPtr.dropSlots n
    bitmap := shiftBitmap t.bitmap n
    startWin := startWin }

theorem noPktToSend_le (t : RxReorderTbl P) (s : ℕ) : t.noPktToSend s ≤ t.winSize := by
  unfold noPktToSend
  split_ifs <;> omega

theorem noPktToSend_eq_zero {s : ℕ} (h : t.noPktToSend s = 0) : t.winSize = 0 := by
  unfold noPktToSend at h
  split_ifs at h <;> omega

theorem dispatchPktUntilStartWin_eq (hb : t.rxReorderPtr.Bounded t.winSize) (s : ℕ) :
    t.dispatchPktUntilStartWin s =
      (t.rxReorderPtr.contents (t.noPktToSend s), t.advance (t.noPktToSend s) s) := by
  unfold dispatchPktUntilStartWin advance
  dsimp only
  rcases Nat.eq_zero_or_pos (t.noPktToSend s) with hn | hn
  · rw [hn, noPktToSend_eq_zero hn]
    simp [takeFirst, shiftDown]
  · rw [shiftDown_takeFirst hn (t.noPktToSend_le s) hb, takeFirst_eq]

/-- A scan drops the full slots in front of the first hole. -/
theorem scanAndDispatch_eq (hb : t.rxReorderPtr.Bounded t.winSize) :
    ∃ n ≤ t.winSize, (∀ j < n, (t.rxReorderPtr j).isSome) ∧ (n < t.winSize → t.rxReorderPtr n = none) ∧
      t.scanAndDispatch = (t.rxReorderPtr.contents n, t.advance n ((t.startWin + n) % 4096)) := by
  obtain ⟨n, hn, hfull, hhole, heq⟩ := takeRun_spec t.winSize 0 t.rxReorderPtr
  simp only [Nat.zero_add] at hfull hhole
  refine ⟨n, hn, hfull, hhole, ?_⟩
  unfold scanAndDispatch advance
  rw [heq]
  simp only [Nat.zero_add, dropSlots_zero, Nat.zero_le, true_and]
  split_ifs with hpos
  · rw [← shiftDown_takeFirst hpos hn hb, takeFirst_eq]
  · obtain rfl : n = 0 := by omega
    simp

/-! ## Draining -/

theorem shiftBitmap_getLsbD (b : BitVec 64) (n i : ℕ) : (shiftBitmap b n).getLsbD i = b.getLsbD (n + i) := by
  unfold shiftBitmap
  split_ifs with hn
  · simp
  · rw [BitVec.getLsbD_of_ge b (n + i) (by omega)]
    simp

theorem shiftBitmap_shiftBitmap (b : BitVec 64) (n k : ℕ) :
    shiftBitmap (shiftBitmap b n) k = shiftBitmap b (n + k) := by
  refine BitVec.eq_of_getLsbD_eq fun i _ => ?_
  simp only [shiftBitmap_getLsbD, Nat.add_assoc]

@[simp] theorem shiftBitmap_zero (b : BitVec 64) : shiftBitmap b 0 = b := by
  simp [shiftBitmap]

/-- `t'` is `t` without the slots in front that held `out`. -/
structure Drains (t : RxReorderTbl P) (out : List P) (t' : RxReorderTbl P) : Prop where
  wf : t'.WellFormed
  ta : t'.ta = t.ta
  tid : t'.tid = t.tid
  win : t'.winSize = t.winSize
  drops : ∃ n, out = t.rxReorderPtr.contents n ∧ t'.rxReorderPtr = t.rxReorderPtr.dropSlots n ∧
    t'.bitmap = shiftBitmap t.bitmap n

namespace Drains

/-- What changes neither slots nor bitmap. -/
theorem of_eq (hwf : t'.WellFormed) (hta : t'.ta = t.ta) (htid : t'.tid = t.tid) (hwin : t'.winSize = t.winSize)
    (hslots : t'.rxReorderPtr = t.rxReorderPtr) (hbits : t'.bitmap = t.bitmap) : Drains t [] t' :=
  ⟨hwf, hta, htid, hwin, 0, by simp [hslots, hbits]⟩

theorem refl (h : t.WellFormed) : Drains t [] t :=
  of_eq h rfl rfl rfl rfl rfl

theorem trans {t'' : RxReorderTbl P} {l l' : List P} (h : Drains t l t') (h' : Drains t' l' t'') :
    Drains t (l ++ l') t'' := by
  obtain ⟨n, rfl, hslots, hbits⟩ := h.drops
  obtain ⟨k, rfl, hslots', hbits'⟩ := h'.drops
  refine ⟨h'.wf, h'.ta.trans h.ta, h'.tid.trans h.tid, h'.win.trans h.win, n + k, ?_, ?_, ?_⟩
  · rw [hslots, contents_add]
  · rw [hslots', hslots, dropSlots_dropSlots]
  · rw [hbits', hbits, shiftBitmap_shiftBitmap]

/-- Draining, and then what changes neither slots nor bitmap. -/
theorem trans_eq {t'' : RxReorderTbl P} {l : List P} (h : Drains t l t') (h' : Drains t' [] t'') : Drains t l t'' := by
  have ht := h.trans h'
  rwa [append_nil] at ht

theorem advance (h : t.WellFormed) (n : ℕ) {s : ℕ} (hs : s ≤ 4096) :
    Drains t (t.rxReorderPtr.contents n) (t.advance n s) :=
  ⟨⟨h.win, hs, h.last, h.bounded.drop n⟩, rfl, rfl, rfl, n, rfl, rfl, rfl⟩

/-- Everything that was in the slots is out or still there. -/
theorem contents_eq {l : List P} (h : Drains t l t') (hwf : t.WellFormed) :
    t.rxReorderPtr.contents t.winSize = l ++ t'.rxReorderPtr.contents t'.winSize := by
  obtain ⟨n, rfl, hslots, -⟩ := h.drops
  rw [hslots, h.win]
  exact hwf.bounded.contents_drop n

end Drains

section

variable (h : t.WellFormed)

include h

theorem dispatchPktUntilStartWin_drains {s : ℕ} (hs : s ≤ 4096) :
    Drains t (t.dispatchPktUntilStartWin s).1 (t.dispatchPktUntilStartWin s).2 := by
  rw [dispatchPktUntilStartWin_eq h.bounded]
  exact .advance h _ hs

/-- A window's length ahead lies behind every slot. -/
theorem noPktToSend_winSize :
    t.noPktToSend ((t.startWin + t.winSize) % 4096) = t.winSize := by
  have hw := h.win
  have hs := h.start
  unfold noPktToSend
  split_ifs <;> omega

/-- A deleted table hands out all it holds before its slots are freed. -/
theorem deleteRxReorderTblEntry_spec :
    t.deleteRxReorderTblEntry.1 = t.rxReorderPtr.contents t.winSize ∧
      t.deleteRxReorderTblEntry.2.rxReorderPtr.contents t.deleteRxReorderTblEntry.2.winSize = [] := by
  unfold deleteRxReorderTblEntry
  dsimp only
  rw [dispatchPktUntilStartWin_eq h.bounded, noPktToSend_winSize h]
  refine ⟨rfl, contents_eq_nil fun i _ => h.bounded _ (Nat.le_add_right _ _)⟩

theorem scanAndDispatch_drains :
    Drains t t.scanAndDispatch.1 t.scanAndDispatch.2 := by
  obtain ⟨n, -, -, -, heq⟩ := scanAndDispatch_eq h.bounded
  rw [heq]
  exact .advance h _ (by omega)

theorem flushIfSet_drains : Drains t t.flushIfSet.1 t.flushIfSet.2 := by
  unfold flushIfSet startFlushData
  split_ifs with hf
  · have hwf : WellFormed { t with flushData := false } := ⟨h.win, h.start, h.last, h.bounded⟩
    have hflag : Drains t [] { t with flushData := false } := .of_eq hwf rfl rfl rfl rfl rfl
    split
    · exact hflag
    · exact hflag.trans (dispatchPktUntilStartWin_drains hwf (by omega))
  · exact .refl h

theorem noDropFlush_drains (hseq : seq < 4096) (ty : PktType) :
    Drains t (t.noDropFlush seq ty).1 (t.noDropFlush seq ty).2 := by
  unfold noDropFlush
  split_ifs with hf hbar
  · have hd := dispatchPktUntilStartWin_drains h (s := (t.startWin + t.winSize) % 4096) (by omega)
    exact ⟨⟨hd.wf.win, hd.wf.start, hd.wf.last, hd.wf.bounded⟩, hd.ta, hd.tid, hd.win, hd.drops⟩
  · have hd := dispatchPktUntilStartWin_drains h (s := (t.startWin + t.winSize) % 4096) (by omega)
    exact ⟨⟨hd.wf.win, hseq.le, hd.wf.last, hd.wf.bounded⟩, hd.ta, hd.tid, hd.win, hd.drops⟩
  · exact .refl h

end

theorem newStartWin_le {w : ℕ} (hw' : w ≤ 1024) (hseq : seq < 4096) : newStartWin w seq ≤ 4096 := by
  unfold newStartWin
  split_ifs <;> omega

section

variable (h : t.WellFormed)

include h

theorem moveWin_drains (hseq : seq < 4096) :
    Drains t (t.moveWin seq).1 (t.moveWin seq).2 := by
  unfold moveWin
  split_ifs
  · exact dispatchPktUntilStartWin_drains h (newStartWin_le h.win hseq)
  · exact .refl h

theorem moveWin_inside (hw : 2 ≤ t.winSize) (hseq : seq < 4096)
    (hin : ahead t.startWin seq < t.winSize) : t.moveWin seq = ([], t) := by
  unfold moveWin
  rw [if_neg]
  rw [isOutside_iff h.start hw h.win hseq]
  omega

/-- The window moves just so far that it ends with `seq`. -/
theorem moveWin_outside (hw : 2 ≤ t.winSize) (hseq : seq < 4096)
    (hout : t.winSize ≤ ahead t.startWin seq) : t.moveWin seq =
      t.dispatchPktUntilStartWin ((t.startWin + (ahead t.startWin seq + 1 - t.winSize)) % 4096) := by
  unfold moveWin
  rw [if_pos ((isOutside_iff h.start hw h.win hseq).mpr hout), newStartWin_eq hw h.win hseq hout]

/-- The slot of a packet is inside of the window, once it has moved. -/
theorem slotIndex_moveWin_lt (hw : 2 ≤ t.winSize) (hseq : seq < 4096) :
    slotIndex (t.moveWin seq).2.startWin seq < t.winSize := by
  rw [slotIndex_eq (moveWin_drains h hseq).wf.start hseq]
  rcases lt_or_ge (ahead t.startWin seq) t.winSize with hin | hout
  · rw [moveWin_inside h hw hseq hin]
    exact hin
  · rw [moveWin_outside h hw hseq hout, ← newStartWin_eq hw h.win hseq hout]
    have hlast : ahead (t.dispatchPktUntilStartWin (newStartWin t.winSize seq)).2.startWin seq = t.winSize - 1 :=
      ahead_newStartWin hw h.win hseq
    omega

theorem updateStartWin_drains (seq : ℕ) : Drains t [] (t.updateStartWin seq) := by
  have hmove : t.lastSeq ≠ defaultSeqNum → Drains t [] { t with startWin := t.lastSeq + 1 } := fun hdef =>
    .of_eq ⟨h.win, h.last.resolve_right hdef, h.last, h.bounded⟩ rfl rfl rfl rfl rfl
  unfold updateStartWin
  dsimp only
  split_ifs with hdef
  · exact hmove hdef.2
  · exact hmove hdef.2
  · exact .refl h
  · exact .refl h

theorem openWin_inr (heq : t.openWin seq ty payload = .inr t') : Drains t [] t' := by
  unfold openWin at heq
  dsimp only at heq
  split_ifs at heq <;> obtain rfl := Sum.inr.inj heq
  · exact .of_eq ⟨h.win, h.start, h.last, h.bounded⟩ rfl rfl rfl rfl rfl
  · have hwf : WellFormed { t with pktCount := (t.pktCount + 1) % 256, checkStartWin := false } :=
      ⟨h.win, h.start, h.last, h.bounded⟩
    have hflag : Drains t [] { t with pktCount := (t.pktCount + 1) % 256, checkStartWin := false } :=
      .of_eq hwf rfl rfl rfl rfl rfl
    exact hflag.trans_eq (updateStartWin_drains hwf seq)
  · exact .refl h

end

/-! ## The cases of a call -/

/-- What a call on a table with a window can do. -/
inductive PktCase (wide : ℕ → BitVec 64) (t : RxReorderTbl P) (ty : PktType) (payload : P) : PktResult P → Prop
  /-- The payload passes by the window. -/
  | direct {l : List P} {t' : RxReorderTbl P} (hd : Drains t l t') (hty : ty ≠ .bar) :
      PktCase wide t ty payload ⟨.success, viaWindow l ++ [(.direct, payload)], t', false⟩
  /-- The payload is refused, or is a block ack request, and does not get to the window. -/
  | skipped {l : List P} {t' : RxReorderTbl P} {ret : MlanStatus} (hd : Drains t l t')
      (hret : ret = .success → ty = .bar) : PktCase wide t ty payload ⟨ret, viaWindow l, t', false⟩
  /-- The payload is refused by the window, or a block ack request moves it. -/
  | moved {l : List P} {t' : RxReorderTbl P} {ret : MlanStatus} {prev : ℕ} (hd : Drains t l t')
      (hret : ret = .success → ty = .bar) : PktCase wide t ty payload ⟨ret, viaWindow l, done prev t', true⟩
  /-- The payload is stored. -/
  | stored {l l' : List P} {t₁ t₂ : RxReorderTbl P} {i prev : ℕ} (hd : Drains t l t₁) (hi : i < t₁.winSize)
      (hempty : t₁.rxReorderPtr i = none) (hd' : Drains (t₁.store wide i payload) l' t₂) (hty : ty ≠ .bar) :
      PktCase wide t ty payload ⟨.success, viaWindow (l ++ l'), done prev t₂, true⟩

theorem WellFormed.store (h : t.WellFormed) {i : ℕ} (hi : i < t.winSize) : (t.store wide i payload).WellFormed := by
  refine ⟨h.win, h.start, h.last, fun j hj => ?_⟩
  have hji : j ≠ i := by
    rintro rfl
    exact absurd hi (not_lt.mpr hj)
  simp only [RxReorderTbl.store]
  rw [Function.update_of_ne hji]
  exact h.bounded j hj

/-- The packets that get to the window after `l` came out of it. -/
theorem acceptPkt_case {t₀ : RxReorderTbl P} {l : List P} (hd : Drains t₀ l t) (hw : 2 ≤ t.winSize)
    (hseq : seq < 4096) (prev : ℕ) :
    PktCase wide t₀ ty payload ⟨(t.acceptPkt wide seq ty payload).1,
      viaWindow (l ++ (t.acceptPkt wide seq ty payload).2.1), done prev (t.acceptPkt wide seq ty payload).2.2, true⟩ := by
  unfold acceptPkt
  split_ifs with hbar
  · have hm := moveWin_drains hd.wf (show (seq + t.winSize - 1) % 4096 < 4096 by omega)
    exact .moved (hd.trans (hm.trans (scanAndDispatch_drains hm.wf))) fun _ => hbar
  · have hm := moveWin_drains hd.wf hseq
    have hi := slotIndex_moveWin_lt hd.wf hw hseq
    rw [← hm.win] at hi
    dsimp only
    split
    · exact .moved (hd.trans hm) (by simp)
    · next hempty =>
      dsimp only
      rw [← append_assoc]
      exact .stored (hd.trans hm) hi hempty (scanAndDispatch_drains (hm.wf.store hi)) hbar

/-- The packets that pass by the window while it is not established, after `l` came out of it. -/
theorem openWin_case {t₀ : RxReorderTbl P} {l : List P} {r : PktResult P} (hd : Drains t₀ l t)
    (hseq : seq < 4096) (heq : t.openWin seq ty payload = .inl r) :
    PktCase wide t₀ ty payload { r with out := viaWindow l ++ r.out } := by
  have h := hd.wf
  unfold openWin at heq
  dsimp only at heq
  split_ifs at heq with hc hs hcount hlast hbar <;> obtain rfl := Sum.inl.inj heq
  · rw [append_nil]
    exact .skipped (hd.trans_eq (.of_eq ⟨h.win, h.start, h.last, h.bounded⟩ rfl rfl rfl rfl rfl)) nofun
  · rw [append_nil]
    exact .skipped (hd.trans_eq (.of_eq ⟨h.win, h.start, .inl hseq, h.bounded⟩ rfl rfl rfl rfl rfl)) fun _ => hbar
  · exact .direct (hd.trans_eq (.of_eq ⟨h.win, h.start, .inl hseq, h.bounded⟩ rfl rfl rfl rfl rfl)) hbar

/-- **What a call does.** -/
theorem rxReorderPkt_cases (h : t.WellFormed) (hw : 2 ≤ t.winSize) (hseq : seq < 4096) (ty : PktType)
    (payload : P) : PktCase wide t ty payload (t.rxReorderPkt wide seq ty payload) := by
  have hf := flushIfSet_drains h
  unfold rxReorderPkt
  dsimp only
  split_ifs with hamsdu
  · exact .direct hf (by rw [hamsdu.1]; decide)
  split
  · next r heq => exact openWin_case hf hseq heq
  · next t' heq =>
    have ht' := hf.trans_eq (openWin_inr hf.wf heq)
    have hn := noDropFlush_drains ht'.wf hseq ty
    have hd := ht'.trans hn
    have hwin : 2 ≤ (t'.noDropFlush seq ty).2.winSize := by rw [hd.win]; exact hw
    unfold windowPkt
    split_ifs with hnd hold
    · have hflag : Drains (t'.noDropFlush seq ty).2 [] { (t'.noDropFlush seq ty).2 with forceNoDrop := false } :=
        .of_eq ⟨hd.wf.win, hd.wf.start, hd.wf.last, hd.wf.bounded⟩ rfl rfl rfl rfl rfl
      exact acceptPkt_case (hd.trans_eq hflag) hwin hseq _
    · rw [append_nil]
      exact .moved hd nofun
    · exact acceptPkt_case hd hwin hseq _

/-! ## What every call keeps -/

/-- `done` only sets or clears the timer. -/
theorem done_eq (prev : ℕ) (t : RxReorderTbl P) : ∃ b, done prev t = { t with timerIsSet := b } := by
  unfold done
  split_ifs
  · exact ⟨false, rfl⟩
  · exact ⟨true, rfl⟩
  · exact ⟨t.timerIsSet, rfl⟩

theorem Drains.done {l : List P} (h : Drains t l t') (prev : ℕ) : Drains t l (done prev t') := by
  obtain ⟨b, hb⟩ := done_eq prev t'
  rw [hb]
  exact ⟨⟨h.wf.win, h.wf.start, h.wf.last, h.wf.bounded⟩, h.ta, h.tid, h.win, h.drops⟩

/-- A call keeps the table well formed, its key and its window. -/
theorem PktCase.keeps {r : PktResult P} (h : PktCase wide t ty payload r) :
    r.tbl.WellFormed ∧ r.tbl.ta = t.ta ∧ r.tbl.tid = t.tid ∧ r.tbl.winSize = t.winSize := by
  cases h with
  | direct hd _ => exact ⟨hd.wf, hd.ta, hd.tid, hd.win⟩
  | skipped hd _ => exact ⟨hd.wf, hd.ta, hd.tid, hd.win⟩
  | @moved _ _ _ prev hd _ =>
    have h := hd.done prev
    exact ⟨h.wf, h.ta, h.tid, h.win⟩
  | @stored _ _ _ _ _ prev hd _ _ hd' _ =>
    have h := hd'.done prev
    exact ⟨h.wf, h.ta.trans hd.ta, h.tid.trans hd.tid, h.win.trans hd.win⟩

/-- What the slots held and what a call takes are handed on or in the slots afterwards. -/
theorem PktCase.perm {r : PktResult P} (h : PktCase wide t ty payload r) (hwf : t.WellFormed) :
    (r.out.map Prod.snd ++ r.tbl.rxReorderPtr.contents r.tbl.winSize).Perm
      (t.rxReorderPtr.contents t.winSize ++ if r.ret = .success ∧ ty ≠ .bar then [payload] else []) := by
  have hvia : ∀ l : List P, (viaWindow l).map Prod.snd = l := fun l => by simp [viaWindow]
  cases h with
  | direct hd hty =>
    rw [if_pos ⟨rfl, hty⟩, hd.contents_eq hwf, map_append, hvia]
    simp only [map_cons, map_nil, append_assoc]
    exact perm_append_comm.append_left _
  | skipped hd hret =>
    rw [if_neg (fun hr => hr.2 (hret hr.1)), hd.contents_eq hwf, hvia, append_nil]
  | moved hd hret =>
    rw [if_neg (fun hr => hr.2 (hret hr.1)), (hd.done _).contents_eq hwf, hvia, append_nil]
  | stored hd hi hempty hd' hty =>
    rw [if_pos ⟨rfl, hty⟩, hd.contents_eq hwf, hvia, append_assoc, append_assoc,
      ← (hd'.done _).contents_eq (hd.wf.store hi)]
    refine List.Perm.append_left _ ?_
    exact (contents_update_perm hi hempty).trans (perm_append_singleton _ _).symm

/-! ## What a call keeps of any table -/

/-- A packet changes neither the key nor the window of a table, nor that it is out of resume or established;
whatever the table is. -/
structure Kept (t t' : RxReorderTbl P) : Prop where
  ta : t'.ta = t.ta
  tid : t'.tid = t.tid
  win : t'.winSize = t.winSize
  resumed : t.forceNoDrop = false → t'.forceNoDrop = false
  established : t.checkStartWin = false → t'.checkStartWin = false

theorem Kept.trans {t' t'' : RxReorderTbl P} (h : Kept t t') (h' : Kept t' t'') : Kept t t'' :=
  ⟨h'.ta.trans h.ta, h'.tid.trans h.tid, h'.win.trans h.win, fun ht => h'.resumed (h.resumed ht),
    fun ht => h'.established (h.established ht)⟩

theorem kept_flushIfSet (t : RxReorderTbl P) : Kept t t.flushIfSet.2 := by
  unfold flushIfSet startFlushData
  split_ifs
  · split <;> exact ⟨rfl, rfl, rfl, id, id⟩
  · exact ⟨rfl, rfl, rfl, id, id⟩

theorem kept_updateStartWin (t : RxReorderTbl P) (seq : ℕ) : Kept t (t.updateStartWin seq) := by
  unfold updateStartWin
  dsimp only
  split_ifs <;> exact ⟨rfl, rfl, rfl, id, id⟩

theorem kept_openWin (t : RxReorderTbl P) (seq : ℕ) (ty : PktType) (payload : P) :
    (∀ r, t.openWin seq ty payload = .inl r → Kept t r.tbl) ∧ ∀ t', t.openWin seq ty payload = .inr t' → Kept t t' := by
  unfold openWin
  dsimp only
  split_ifs <;> refine ⟨fun r h => ?_, fun t' h => ?_⟩ <;> cases h
  · exact ⟨rfl, rfl, rfl, id, fun _ => rfl⟩
  · exact ⟨rfl, rfl, rfl, id, id⟩
  · exact ⟨rfl, rfl, rfl, id, id⟩
  · exact ⟨rfl, rfl, rfl, id, id⟩
  · have hcount : Kept t { t with checkStartWin := false, pktCount := (t.pktCount + 1) % 256 } :=
      ⟨rfl, rfl, rfl, id, fun _ => rfl⟩
    exact hcount.trans (kept_updateStartWin _ seq)
  · exact ⟨rfl, rfl, rfl, id, id⟩

theorem kept_noDropFlush (t : RxReorderTbl P) (seq : ℕ) (ty : PktType) : Kept t (t.noDropFlush seq ty).2 := by
  unfold noDropFlush
  dsimp only
  split_ifs <;> exact ⟨rfl, rfl, rfl, id, id⟩

theorem kept_moveWin (t : RxReorderTbl P) (seq : ℕ) : Kept t (t.moveWin seq).2 := by
  unfold moveWin
  split_ifs <;> exact ⟨rfl, rfl, rfl, id, id⟩

theorem kept_acceptPkt (t : RxReorderTbl P) (seq : ℕ) (ty : PktType) (payload : P) :
    Kept t (t.acceptPkt wide seq ty payload).2.2 := by
  unfold acceptPkt
  dsimp only
  split_ifs
  · exact (kept_moveWin t _).trans ⟨rfl, rfl, rfl, id, id⟩
  · split
    · exact kept_moveWin t seq
    · exact (kept_moveWin t seq).trans ⟨rfl, rfl, rfl, id, id⟩

theorem kept_windowPkt (t : RxReorderTbl P) (seq : ℕ) (ty : PktType) (payload : P) :
    Kept t (t.windowPkt wide seq ty payload).2.2 := by
  unfold windowPkt
  split_ifs
  · exact (⟨rfl, rfl, rfl, fun _ => rfl, id⟩ : Kept t { t with forceNoDrop := false }).trans (kept_acceptPkt _ seq ty payload)
  · exact ⟨rfl, rfl, rfl, id, id⟩
  · exact kept_acceptPkt t seq ty payload

theorem kept_done (prev : ℕ) (t : RxReorderTbl P) : Kept t (done prev t) := by
  obtain ⟨b, hb⟩ := done_eq prev t
  rw [hb]
  exact ⟨rfl, rfl, rfl, id, id⟩

theorem kept_rxReorderPkt (t : RxReorderTbl P) (seq : ℕ) (ty : PktType) (payload : P) :
    Kept t (t.rxReorderPkt wide seq ty payload).tbl := by
  have hf := kept_flushIfSet t
  obtain ⟨hinl, hinr⟩ := kept_openWin t.flushIfSet.2 seq ty payload
  unfold rxReorderPkt
  dsimp only
  split_ifs
  · exact hf
  · split
    · next r heq => exact hf.trans (hinl r heq)
    · next t' heq =>
      have hn := kept_noDropFlush t' seq ty
      exact (hf.trans (hinr t' heq)).trans (hn.trans ((kept_windowPkt _ seq ty payload).trans (kept_done _ _)))

end RxReorderTbl

end WlanDriver.Reorder
