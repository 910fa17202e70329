import WlanDriver.Reorder.Addba

/-!
# Slots and the start of the window

Which slots of `rx_reorder_ptr` a call of `mlan_11n_rxreorder_pkt` looks at : each function of the table has a
list of the indices that it uses, with its loops written out once more. The indices are integers, as they are in
the source.

`slotIndex_safe` : in any run over a table that `wlan_cmd_11n_addba_rspgen` created, a call stays inside of the
window. The start of the window is at most 4096, and all a call asks of it are questions modulo 4096; if
`check_start_win` is only ever cleared, it does the same with 4096 as with 0 (`Agrees`).
-/

namespace WlanDriver.Reorder

open Ethernet List SlotArray

variable {P : Type*} {t t' : RxReorderTbl P} {wide : ℕ → BitVec 64} {seq : ℕ} {payload : P} {ty : PktType}

/-- An index of a window of `w` slots. -/
def InWindow (w : ℕ) (i : ℤ) : Prop :=
  0 ≤ i ∧ i < w

namespace RxReorderTbl

/-! ## Accesses -/

/-- `SlotArray.takeFirst`. -/
def takeFirstAccesses (n : ℕ) : List ℤ :=
  (List.range n).map Nat.cast

/-- `SlotArray.shiftDown`. -/
def shiftDownAccesses (n k : ℕ) : List ℤ :=
  (List.range k).flatMap fun i : ℕ => [(i : ℤ), (n : ℤ) + i]

/-- `SlotArray.takeRun`. -/
def takeRunAccesses : ℕ → ℕ → SlotArray P → List ℤ
  | 0, _, _ => []
  | k + 1, i, a =>
    (i : ℤ) :: match a i with
      | none => []
      | some _ => takeRunAccesses k (i + 1) (Function.update a i none)

/-- `SlotArray.lastFull`. -/
def lastFullAccesses : ℕ → SlotArray P → List ℤ
  | 0, _ => []
  | n + 1, a => (n : ℤ) :: if (a n).isSome then [] else lastFullAccesses n a

/-- `dispatchPktUntilStartWin`. -/
def dispatchAccesses (t : RxReorderTbl P) (startWin : ℕ) : List ℤ :=
  let n := t.noPktToSend startWin
  takeFirstAccesses n ++ shiftDownAccesses n (t.winSize - n)

/-- `scanAndDispatch`. -/
def scanAccesses (t : RxReorderTbl P) : List ℤ :=
  let i := (takeRun t.winSize 0 t.rxReorderPtr).2.1
  takeRunAccesses t.winSize 0 t.rxReorderPtr ++ if 0 < i then shiftDownAccesses i (t.winSize - i) else []

/-- `flushIfSet`. -/
def flushAccesses (t : RxReorderTbl P) : List ℤ :=
  if t.flushData then
    lastFullAccesses t.winSize t.rxReorderPtr ++ match lastFull t.winSize t.rxReorderPtr with
      | none => []
      | some i => t.dispatchAccesses ((t.startWin + i + 1) % 4096)
  else []

/-- `noDropFlush`. -/
def noDropAccesses (t : RxReorderTbl P) : List ℤ :=
  if t.forceNoDrop then t.dispatchAccesses ((t.startWin + t.winSize) % 4096) else []

/-- `moveWin`. -/
def moveAccesses (t : RxReorderTbl P) (seq : ℕ) : List ℤ :=
  if IsOutside t.startWin ((t.startWin + t.winSize - 1) % 4096) seq then t.dispatchAccesses (newStartWin t.winSize seq)
  else []

/-- `slotIndex`, with the subtractions of the source. -/
def slotAccess (startWin seq : ℕ) : ℤ :=
  if startWin ≤ seq then (seq : ℤ) - startWin else (seq : ℤ) + 4096 - startWin

/-- `acceptPkt`. -/
def acceptAccesses (wide : ℕ → BitVec 64) (t : RxReorderTbl P) (seq : ℕ) (ty : PktType) (payload : P) : List ℤ :=
  if ty = .bar then
    t.moveAccesses ((seq + t.winSize - 1) % 4096) ++ (t.moveWin ((seq + t.winSize - 1) % 4096)).2.scanAccesses
  else
    let m := t.moveWin seq
    let i := slotIndex m.2.startWin seq
    t.moveAccesses seq ++ slotAccess m.2.startWin seq :: match m.2.rxReorderPtr i with
      | some _ => []
      | none => slotAccess m.2.startWin seq :: (m.2.store wide i payload).scanAccesses

/-- `windowPkt`. -/
def windowAccesses (wide : ℕ → BitVec 64) (t : RxReorderTbl P) (seq : ℕ) (ty : PktType) (payload : P) : List ℤ :=
  if t.forceNoDrop then { t with forceNoDrop := false }.acceptAccesses wide seq ty payload
  else if IsOld t.startWin seq then []
  else t.acceptAccesses wide seq ty payload

/-- `rxReorderPkt`. -/
def pktAccesses (wide : ℕ → BitVec 64) (t : RxReorderTbl P) (seq : ℕ) (ty : PktType) (payload : P) : List ℤ :=
  let f := t.flushIfSet
  t.flushAccesses ++
    if ty = .amsdu ∧ !f.2.amsdu then []
    else
      match f.2.openWin seq ty payload with
      | .inl _ => []
      | .inr t => t.noDropAccesses ++ (t.noDropFlush seq ty).2.windowAccesses wide seq ty payload

/-- `mlan_11n_rxreorder_pkt` on its table. -/
def call (wide : ℕ → BitVec 64) (t : RxReorderTbl P) (seq : ℕ) (ty : PktType) (payload : P) : PktResult P :=
  if t.winSize ≤ 1 then ⟨.success, if ty = .bar then [] else [(.direct, payload)], t, false⟩
  else t.rxReorderPkt wide seq ty payload

/-- The slots that `call` uses. -/
def callAccesses (wide : ℕ → BitVec 64) (t : RxReorderTbl P) (seq : ℕ) (ty : PktType) (payload : P) : List ℤ :=
  if t.winSize ≤ 1 then [] else t.pktAccesses wide seq ty payload

/-! ## Loops stay inside -/

theorem inWindow_of_mem_append {w : ℕ} {l l' : List ℤ} (h : ∀ i ∈ l, InWindow w i) (h' : ∀ i ∈ l', InWindow w i) :
    ∀ i ∈ l ++ l', InWindow w i := fun i hi =>
  (mem_append.mp hi).elim (h i) (h' i)

theorem takeFirst_inWindow {n w : ℕ} (hn : n ≤ w) : ∀ i ∈ takeFirstAccesses n, InWindow w i := by
  intro i hi
  obtain ⟨j, hj, rfl⟩ := mem_map.mp hi
  have hlt := mem_range.mp hj
  exact ⟨Int.natCast_nonneg j, by omega⟩

theorem shiftDown_inWindow {n k w : ℕ} (hn : n + k ≤ w) : ∀ i ∈ shiftDownAccesses n k, InWindow w i := by
  intro i hi
  obtain ⟨j, hj, hi⟩ := mem_flatMap.mp hi
  have hlt := mem_range.mp hj
  simp only [mem_cons, not_mem_nil, or_false] at hi
  rcases hi with rfl | rfl
  · exact ⟨by omega, by omega⟩
  · exact ⟨by omega, by omega⟩

theorem takeRun_inWindow {k i w : ℕ} (hw : i + k ≤ w) (a : SlotArray P) : ∀ j ∈ takeRunAccesses k i a, InWindow w j := by
  induction k generalizing i a with
  | zero => exact nofun
  | succ k ih =>
    intro j hj
    rcases mem_cons.mp hj with rfl | hj
    · exact ⟨by omega, by omega⟩
    · split at hj
      · exact absurd hj not_mem_nil
      · exact ih (by omega) _ j hj

theorem lastFull_inWindow {n w : ℕ} (hn : n ≤ w) (a : SlotArray P) : ∀ j ∈ lastFullAccesses n a, InWindow w j := by
  induction n with
  | zero => exact nofun
  | succ n ih =>
    intro j hj
    rcases mem_cons.mp hj with rfl | hj
    · exact ⟨by omega, by omega⟩
    · split at hj
      · exact absurd hj not_mem_nil
      · exact ih (by omega) j hj

theorem dispatch_inWindow (t : RxReorderTbl P) (s : ℕ) : ∀ i ∈ t.dispatchAccesses s, InWindow t.winSize i := by
  have hn := t.noPktToSend_le s
  exact inWindow_of_mem_append (takeFirst_inWindow hn) (shiftDown_inWindow (by omega))

theorem scan_inWindow (t : RxReorderTbl P) : ∀ i ∈ t.scanAccesses, InWindow t.winSize i := by
  obtain ⟨n, hn, -, -, heq⟩ := takeRun_spec t.winSize 0 t.rxReorderPtr
  unfold scanAccesses
  dsimp only
  refine inWindow_of_mem_append (takeRun_inWindow (Nat.zero_add _).le _) ?_
  rw [heq]
  split_ifs
  · exact shiftDown_inWindow (by dsimp only; omega)
  · exact nofun

theorem flush_inWindow (t : RxReorderTbl P) : ∀ i ∈ t.flushAccesses, InWindow t.winSize i := by
  unfold flushAccesses
  split_ifs
  · refine inWindow_of_mem_append (lastFull_inWindow le_rfl _) ?_
    split
    · exact nofun
    · exact t.dispatch_inWindow _
  · exact nofun

theorem noDrop_inWindow (t : RxReorderTbl P) : ∀ i ∈ t.noDropAccesses, InWindow t.winSize i := by
  unfold noDropAccesses
  split_ifs
  · exact t.dispatch_inWindow _
  · exact nofun

theorem move_inWindow (t : RxReorderTbl P) (seq : ℕ) : ∀ i ∈ t.moveAccesses seq, InWindow t.winSize i := by
  unfold moveAccesses
  split_ifs
  · exact t.dispatch_inWindow _
  · exact nofun

/-! ## The slot of a packet -/

theorem slotAccess_eq {s : ℕ} (hs : s ≤ 4096) (seq : ℕ) : slotAccess s seq = slotIndex s seq := by
  unfold slotAccess slotIndex
  split_ifs <;> omega

theorem accept_inWindow (h : t.WellFormed) (hw : 2 ≤ t.winSize) (hseq : seq < 4096) :
    ∀ i ∈ t.acceptAccesses wide seq ty payload, InWindow t.winSize i := by
  unfold acceptAccesses
  split_ifs with hbar
  · have hm := moveWin_drains h (show (seq + t.winSize - 1) % 4096 < 4096 by omega)
    have hscan := (t.moveWin ((seq + t.winSize - 1) % 4096)).2.scan_inWindow
    rw [hm.win] at hscan
    exact inWindow_of_mem_append (t.move_inWindow _) hscan
  · have hm := moveWin_drains h hseq
    have hslot : InWindow t.winSize (slotAccess (t.moveWin seq).2.startWin seq) := by
      rw [slotAccess_eq hm.wf.start]
      exact ⟨Int.natCast_nonneg _, Int.ofNat_lt.mpr (slotIndex_moveWin_lt h hw hseq)⟩
    refine inWindow_of_mem_append (t.move_inWindow _) fun i hi => ?_
    rcases mem_cons.mp hi with rfl | hi
    · exact hslot
    · split at hi
      · exact absurd hi not_mem_nil
      · rcases mem_cons.mp hi with rfl | hi
        · exact hslot
        · have hscan := ((t.moveWin seq).2.store wide (slotIndex (t.moveWin seq).2.startWin seq) payload).scan_inWindow i hi
          rwa [show ((t.moveWin seq).2.store wide _ payload).winSize = t.winSize from hm.win] at hscan

theorem call_inWindow (h : t.WellFormed) (hseq : seq < 4096) :
    ∀ i ∈ t.callAccesses wide seq ty payload, InWindow t.winSize i := by
  unfold callAccesses
  split_ifs with hsmall
  · exact nofun
  have hw : 2 ≤ t.winSize := by omega
  have hf := flushIfSet_drains h
  unfold pktAccesses
  refine inWindow_of_mem_append t.flush_inWindow ?_
  split_ifs
  · exact nofun
  split
  · exact nofun
  · next t' heq =>
    have ht' := hf.trans_eq (openWin_inr hf.wf heq)
    have hn := noDropFlush_drains ht'.wf hseq ty
    rw [← ht'.win]
    refine inWindow_of_mem_append t'.noDrop_inWindow ?_
    rw [← hn.win]
    have hwin : 2 ≤ (t'.noDropFlush seq ty).2.winSize := by rw [hn.win, ht'.win]; exact hw
    unfold windowAccesses
    split_ifs
    · have hwf : WellFormed { (t'.noDropFlush seq ty).2 with forceNoDrop := false } :=
        { hn.wf with }
      exact accept_inWindow hwf hwin hseq
    · exact nofun
    · exact accept_inWindow hn.wf hwin hseq

/-! ## The start of the window, modulo 4096 -/

/-- The tables differ in what the start of the window is modulo 4096 at most, and in what is there for the timer. -/
structure Alike (t t' : RxReorderTbl P) : Prop where
  fields : t' = { t with startWin := t'.startWin, bitmap := t'.bitmap, timerIsSet := t'.timerIsSet }
  start : t'.startWin % 4096 = t.startWin % 4096

/-- Two calls return and hand on the same, and leave tables that are alike. -/
structure Agrees (r r' : PktResult P) : Prop where
  ret : r'.ret = r.ret
  out : r'.out = r.out
  windowed : r'.windowed = r.windowed
  tbl : Alike r.tbl r'.tbl

theorem Alike.refl (t : RxReorderTbl P) : Alike t t := ⟨rfl, rfl⟩

/-- No slot is full. -/
def Vacant (t : RxReorderTbl P) : Prop :=
  ∀ i, t.rxReorderPtr i = none

theorem Vacant.alike (h : t.Vacant) (ha : Alike t t') : t'.Vacant := by
  rw [ha.fields]
  exact h

theorem Vacant.dispatch (h : t.Vacant) (s : ℕ) : ∃ bitmap,
    t.dispatchPktUntilStartWin s = ([], { t with bitmap := bitmap, startWin := s }) := by
  refine ⟨shiftBitmap t.bitmap (t.noPktToSend s), ?_⟩
  have hdrop : t.rxReorderPtr.dropSlots (t.noPktToSend s) = t.rxReorderPtr := by
    funext i
    rw [dropSlots, h, h]
  rw [dispatchPktUntilStartWin_eq fun i _ => h i, contents_eq_nil fun i _ => h i, advance, hdrop]

theorem Vacant.flushIfSet (h : t.Vacant) : t.flushIfSet = ([], { t with flushData := false }) := by
  have hnone : ∀ n, lastFull n t.rxReorderPtr = none := fun n => by
    induction n with
    | zero => rfl
    | succ n ih => rw [lastFull, h n, Option.isSome_none, if_neg Bool.false_ne_true, ih]
  unfold RxReorderTbl.flushIfSet startFlushData
  split_ifs with hf
  · rw [hnone]
  · obtain ⟨⟩ := t
    rw [Bool.not_eq_true] at hf
    subst hf
    rfl

section Alike

variable (hwf : t.WellFormed) (hwf' : t'.WellFormed) (ha : Alike t t')

include ha

theorem Alike.winSize : t'.winSize = t.winSize := by rw [ha.fields]

theorem Alike.dispatch (h : t.Vacant) (s : ℕ) :
    (t'.dispatchPktUntilStartWin s).1 = (t.dispatchPktUntilStartWin s).1 ∧
      Alike (t.dispatchPktUntilStartWin s).2 (t'.dispatchPktUntilStartWin s).2 ∧ (t.dispatchPktUntilStartWin s).2.Vacant := by
  obtain ⟨b, hb⟩ := h.dispatch s
  obtain ⟨b', hb'⟩ := (h.alike ha).dispatch s
  rw [hb, hb', ha.fields]
  exact ⟨rfl, ⟨rfl, rfl⟩, h⟩

include hwf hwf'

theorem Alike.ahead (seq : ℕ) : ahead t'.startWin seq = ahead t.startWin seq := by
  have hs := hwf.start
  have hs' := hwf'.start
  have hmod := ha.start
  unfold RxReorderTbl.ahead
  omega

theorem Alike.moveWin (h : t.Vacant) (hw : 2 ≤ t.winSize) (hseq : seq < 4096) :
    (t'.moveWin seq).1 = (t.moveWin seq).1 ∧ Alike (t.moveWin seq).2 (t'.moveWin seq).2 ∧ (t.moveWin seq).2.Vacant := by
  have hout := isOutside_iff hwf.start hw hwf.win hseq
  have hout' := isOutside_iff hwf'.start (ha.winSize ▸ hw) hwf'.win hseq
  rw [ha.ahead hwf hwf', ha.winSize, ← hout] at hout'
  unfold RxReorderTbl.moveWin
  rw [ha.winSize]
  by_cases ho : IsOutside t.startWin ((t.startWin + t.winSize - 1) % 4096) seq
  · rw [if_pos ho, if_pos (hout'.mpr ho)]
    exact ha.dispatch h _
  · rw [if_neg ho, if_neg (mt hout'.mp ho)]
    exact ⟨rfl, ha, h⟩

omit hwf hwf'

theorem Alike.scanAndDispatch :
    t'.scanAndDispatch.1 = t.scanAndDispatch.1 ∧ Alike t.scanAndDispatch.2 t'.scanAndDispatch.2 := by
  have hmod := ha.start
  unfold RxReorderTbl.scanAndDispatch
  dsimp only
  rw [ha.fields]
  refine ⟨rfl, rfl, ?_⟩
  dsimp only
  omega

include hwf hwf'

theorem Alike.acceptPkt (h : t.Vacant) (hw : 2 ≤ t.winSize) (hseq : seq < 4096) :
    (t'.acceptPkt wide seq ty payload).1 = (t.acceptPkt wide seq ty payload).1 ∧
      (t'.acceptPkt wide seq ty payload).2.1 = (t.acceptPkt wide seq ty payload).2.1 ∧
      Alike (t.acceptPkt wide seq ty payload).2.2 (t'.acceptPkt wide seq ty payload).2.2 := by
  unfold RxReorderTbl.acceptPkt
  rw [ha.winSize]
  split_ifs
  · obtain ⟨hout, hm, -⟩ := ha.moveWin hwf hwf' h hw (show (seq + t.winSize - 1) % 4096 < 4096 by omega)
    obtain ⟨hscan, hs⟩ := hm.scanAndDispatch
    dsimp only
    exact ⟨rfl, by rw [hout, hscan], hs⟩
  · obtain ⟨hout, hm, hv⟩ := ha.moveWin hwf hwf' h hw hseq
    have hmwf := (moveWin_drains hwf hseq).wf
    have hmwf' := (moveWin_drains hwf' hseq).wf
    have hslot : slotIndex (t'.moveWin seq).2.startWin seq = slotIndex (t.moveWin seq).2.startWin seq := by
      rw [slotIndex_eq hmwf.start hseq, slotIndex_eq hmwf'.start hseq, hm.ahead hmwf hmwf']
    dsimp only
    rw [hslot, hv _, hv.alike hm _]
    dsimp only
    have hstore : Alike ((t.moveWin seq).2.store wide (slotIndex (t.moveWin seq).2.startWin seq) payload)
        ((t'.moveWin seq).2.store wide (slotIndex (t.moveWin seq).2.startWin seq) payload) := by
      refine ⟨?_, hm.start⟩
      unfold store
      rw [hm.fields]
    obtain ⟨hscan, hs⟩ := hstore.scanAndDispatch
    exact ⟨rfl, by rw [hout, hscan], hs⟩

theorem Alike.windowPkt (h : t.Vacant) (hw : 2 ≤ t.winSize) (hseq : seq < 4096) :
    (t'.windowPkt wide seq ty payload).1 = (t.windowPkt wide seq ty payload).1 ∧
      (t'.windowPkt wide seq ty payload).2.1 = (t.windowPkt wide seq ty payload).2.1 ∧
      Alike (t.windowPkt wide seq ty payload).2.2 (t'.windowPkt wide seq ty payload).2.2 := by
  have hold := isOld_iff hwf.start hseq
  have hold' := isOld_iff hwf'.start hseq
  rw [ha.ahead hwf hwf', ← hold] at hold'
  have hflag : t'.forceNoDrop = t.forceNoDrop := by rw [ha.fields]
  unfold RxReorderTbl.windowPkt
  rw [hflag]
  by_cases hf : t.forceNoDrop
  · rw [if_pos hf, if_pos hf]
    have hclear : Alike { t with forceNoDrop := false } { t' with forceNoDrop := false } := ⟨by rw [ha.fields], ha.start⟩
    exact hclear.acceptPkt { hwf with } { hwf' with } h hw hseq
  · rw [if_neg hf, if_neg hf]
    by_cases ho : IsOld t.startWin seq
    · rw [if_pos ho, if_pos (hold'.mpr ho)]
      exact ⟨rfl, rfl, ha⟩
    · rw [if_neg ho, if_neg (mt hold'.mp ho)]
      exact ha.acceptPkt hwf hwf' h hw hseq

omit hwf hwf'

theorem Alike.flushIfSet (h : t.Vacant) : t'.flushIfSet.1 = t.flushIfSet.1 ∧ Alike t.flushIfSet.2 t'.flushIfSet.2 ∧
    t.flushIfSet.2.Vacant := by
  rw [h.flushIfSet, (h.alike ha).flushIfSet]
  exact ⟨rfl, ⟨by rw [ha.fields], ha.start⟩, h⟩

theorem Alike.noDropFlush (h : t.Vacant) (seq : ℕ) (ty : PktType) :
    (t'.noDropFlush seq ty).1 = (t.noDropFlush seq ty).1 ∧ Alike (t.noDropFlush seq ty).2 (t'.noDropFlush seq ty).2 ∧
      (t.noDropFlush seq ty).2.Vacant := by
  have hflag : t'.forceNoDrop = t.forceNoDrop := by rw [ha.fields]
  have hmod : (t'.startWin + t.winSize) % 4096 = (t.startWin + t.winSize) % 4096 := by
    have hstart := ha.start
    omega
  obtain ⟨b, hb⟩ := h.dispatch ((t.startWin + t.winSize) % 4096)
  obtain ⟨b', hb'⟩ := (h.alike ha).dispatch ((t.startWin + t.winSize) % 4096)
  unfold RxReorderTbl.noDropFlush
  rw [hflag, ha.winSize, hmod]
  split_ifs
  · dsimp only
    rw [hb, hb', ha.fields]
    exact ⟨rfl, ⟨rfl, rfl⟩, h⟩
  · dsimp only
    rw [hb, hb', ha.fields]
    exact ⟨rfl, ⟨rfl, rfl⟩, h⟩
  · exact ⟨rfl, ha, h⟩

theorem Alike.done (prev prev' : ℕ) : Alike (done prev t) (RxReorderTbl.done prev' t') := by
  obtain ⟨b, hb⟩ := done_eq prev t
  obtain ⟨b', hb'⟩ := done_eq prev' t'
  rw [hb, hb']
  exact ⟨by rw [ha.fields], ha.start⟩

end Alike

theorem openWin_established (h : t.checkStartWin = false) : t.openWin seq ty payload = .inr t := by
  unfold openWin
  rw [if_neg (by rw [h]; exact Bool.false_ne_true)]

/-- A table whose start is no sequence number is empty and established. -/
def StartVacant (t : RxReorderTbl P) : Prop :=
  t.startWin = 4096 → t.Vacant ∧ t.checkStartWin = false

/-- The table with the start that its start stands for. -/
def reduced (t : RxReorderTbl P) : RxReorderTbl P :=
  { t with startWin := t.startWin % 4096 }

theorem call_agrees (hwf : t.WellFormed) (hs : t.StartVacant) (hseq : seq < 4096) :
    Agrees (t.call wide seq ty payload) (t.reduced.call wide seq ty payload) := by
  rcases Nat.lt_or_ge t.startWin 4096 with hlt | hge
  · have heq : t.reduced = t := by
      obtain ⟨⟩ := t
      unfold reduced
      dsimp only at hlt ⊢
      rw [Nat.mod_eq_of_lt hlt]
    rw [heq]
    exact ⟨rfl, rfl, rfl, .refl _⟩
  obtain ⟨hv, hcheck⟩ := hs (le_antisymm hwf.start hge)
  have ha : Alike t t.reduced := ⟨rfl, Nat.mod_mod _ _⟩
  unfold call
  rw [ha.winSize]
  by_cases hsmall : t.winSize ≤ 1
  · rw [if_pos hsmall, if_pos hsmall]
    exact ⟨rfl, rfl, rfl, ha⟩
  rw [if_neg hsmall, if_neg hsmall]
  obtain ⟨hflush, hf, hvf⟩ := ha.flushIfSet hv
  have hd := flushIfSet_drains hwf
  have hd' := flushIfSet_drains (t := t.reduced) ⟨hwf.win, (Nat.mod_lt _ (by decide)).le, hwf.last, hwf.bounded⟩
  have hcheckf : t.flushIfSet.2.checkStartWin = false := by rw [hv.flushIfSet]; exact hcheck
  have hcheckf' : t.reduced.flushIfSet.2.checkStartWin = false := by rw [hf.fields]; exact hcheckf
  have hamsdu : t.reduced.flushIfSet.2.amsdu = t.flushIfSet.2.amsdu := by rw [hf.fields]
  unfold rxReorderPkt
  dsimp only
  rw [hamsdu, hflush, openWin_established hcheckf, openWin_established hcheckf']
  split_ifs
  · exact ⟨rfl, rfl, rfl, hf⟩
  dsimp only
  obtain ⟨hout, hn, hvn⟩ := hf.noDropFlush hvf seq ty
  have hnd := noDropFlush_drains hd.wf hseq ty
  have hnd' := noDropFlush_drains hd'.wf hseq ty
  obtain ⟨hret, hout', hw⟩ := @Alike.windowPkt _ _ _ wide seq payload ty hnd.wf hnd'.wf hn hvn
    (by rw [hnd.win, hd.win]; omega) hseq
  exact ⟨hret, by rw [hout, hout'], rfl, hw.done _ _⟩

/-! ## Where a start of 4096 comes from -/

/-- Where the window starts at 4096, no slot is full. -/
def StartEmpty (t : RxReorderTbl P) : Prop :=
  t.startWin = 4096 → t.Vacant

theorem StartEmpty.of_lt (h : t.startWin < 4096) : t.StartEmpty := fun heq => absurd heq h.ne

/-- A flush leaves the start, or moves it to a sequence number. -/
theorem flushIfSet_start (t : RxReorderTbl P) : t.flushIfSet.2 = { t with flushData := false } ∨
    t.flushIfSet.2.startWin < 4096 ∧ t.flushIfSet.2.checkStartWin = t.checkStartWin := by
  unfold flushIfSet startFlushData
  split_ifs with hf
  · split
    · exact .inl rfl
    · exact .inr ⟨Nat.mod_lt _ (by decide), rfl⟩
  · rw [Bool.not_eq_true] at hf
    obtain ⟨⟩ := t
    subst hf
    exact .inl rfl

theorem noDropFlush_start (h : t.StartEmpty) (hseq : seq < 4096) (ty : PktType) : (t.noDropFlush seq ty).2.StartEmpty := by
  unfold noDropFlush
  split_ifs
  · exact .of_lt (Nat.mod_lt _ (by decide))
  · exact .of_lt hseq
  · exact h

theorem newStartWin_lt {w : ℕ} (hw : 1 ≤ w) (hw' : w ≤ 1024) (hseq : seq < 4096) : newStartWin w seq < 4096 := by
  unfold newStartWin
  split_ifs <;> omega

theorem moveWin_start (hwf : t.WellFormed) (h : t.StartEmpty) (hw : 1 ≤ t.winSize) (hseq : seq < 4096) :
    (t.moveWin seq).2.StartEmpty := by
  unfold moveWin
  split_ifs
  · exact .of_lt (newStartWin_lt hw hwf.win hseq)
  · exact h

theorem acceptPkt_start (hwf : t.WellFormed) (h : t.StartEmpty) (hw : 1 ≤ t.winSize) (hseq : seq < 4096) :
    (t.acceptPkt wide seq ty payload).2.2.StartEmpty := by
  unfold acceptPkt
  dsimp only
  split_ifs
  · exact .of_lt (Nat.mod_lt _ (by decide))
  · split
    · exact moveWin_start hwf h hw hseq
    · exact .of_lt (Nat.mod_lt _ (by decide))

theorem windowPkt_start (hwf : t.WellFormed) (h : t.StartEmpty) (hw : 1 ≤ t.winSize) (hseq : seq < 4096) :
    (t.windowPkt wide seq ty payload).2.2.StartEmpty := by
  unfold windowPkt
  split_ifs
  · exact acceptPkt_start (t := { t with forceNoDrop := false }) { hwf with } h hw hseq
  · exact h
  · exact acceptPkt_start hwf h hw hseq

/-- What a table keeps whose `check_start_win` is only ever cleared : until it is established it is empty, and where its
window starts at 4096 it is both. -/
structure Opening (t : RxReorderTbl P) : Prop where
  vacant : t.checkStartWin = true → t.Vacant
  start : t.StartVacant

theorem Opening.of_empty (h : t.StartEmpty) (hcheck : t.checkStartWin = false) : t.Opening :=
  ⟨fun ht => absurd (ht.symm.trans hcheck) (by decide), fun hs => ⟨h hs, hcheck⟩⟩

theorem Opening.flushIfSet (h : t.Opening) : t.flushIfSet.2.Opening := by
  refine ⟨fun hcheck => ?_, fun hstart => ?_⟩
  · have hopen : t.checkStartWin = true := by
      by_contra hne
      rw [Bool.not_eq_true] at hne
      exact absurd (hcheck.symm.trans (t.kept_flushIfSet.established hne)) (by decide)
    have hv := h.vacant hopen
    rw [hv.flushIfSet]
    exact hv
  · rcases t.flushIfSet_start with heq | ⟨hlt, -⟩
    · rw [heq] at hstart ⊢
      exact h.start hstart
    · exact absurd hstart hlt.ne

theorem updateStartWin_same (t : RxReorderTbl P) (seq : ℕ) :
    (t.updateStartWin seq).rxReorderPtr = t.rxReorderPtr ∧ (t.updateStartWin seq).checkStartWin = t.checkStartWin := by
  unfold updateStartWin
  dsimp only
  split_ifs <;> exact ⟨rfl, rfl⟩

theorem openWin_opening (h : t.Opening) :
    (∀ r, t.openWin seq ty payload = .inl r → r.tbl.Opening) ∧
      ∀ t', t.openWin seq ty payload = .inr t' → t'.StartEmpty ∧ t'.checkStartWin = false := by
  rcases Bool.eq_false_or_eq_true t.checkStartWin with hcheck | hcheck
  · have hv := h.vacant hcheck
    have hstart : t.startWin ≠ 4096 := fun heq => absurd (hcheck.symm.trans (h.start heq).2) (by decide)
    unfold openWin
    rw [if_pos hcheck]
    dsimp only
    split_ifs <;> refine ⟨fun r heq => ?_, fun t' heq => ?_⟩ <;> cases heq
    · exact ⟨fun _ => hv, rfl⟩
    · exact ⟨fun _ => hv, fun hs => absurd hs hstart⟩
    · exact ⟨fun _ => hv, fun hs => absurd hs hstart⟩
    · exact ⟨fun _ => hv, fun hs => absurd hs hstart⟩
    · obtain ⟨hslots, hclear⟩ :=
        updateStartWin_same { t with pktCount := (t.pktCount + 1) % 256, checkStartWin := false } seq
      exact ⟨fun _ i => by rw [hslots]; exact hv i, hclear⟩
  · rw [openWin_established hcheck]
    exact ⟨nofun, fun t' heq => by obtain rfl := Sum.inr.inj heq; exact ⟨fun hs => (h.start hs).1, hcheck⟩⟩

theorem Opening.call (hwf : t.WellFormed) (h : t.Opening) (hseq : seq < 4096) :
    (t.call wide seq ty payload).tbl.Opening := by
  unfold RxReorderTbl.call
  by_cases hsmall : t.winSize ≤ 1
  · rw [if_pos hsmall]
    exact h
  rw [if_neg hsmall]
  have hf := h.flushIfSet
  have hd := flushIfSet_drains hwf
  obtain ⟨hinl, hinr⟩ := @openWin_opening _ _ seq payload ty hf
  unfold rxReorderPkt
  dsimp only
  split_ifs
  · exact hf
  split
  · next r heq => exact hinl r heq
  · next t' heq =>
    obtain ⟨hstart, hcheck⟩ := hinr t' heq
    have ht' := hd.trans_eq (openWin_inr hd.wf heq)
    have hn := noDropFlush_drains ht'.wf hseq ty
    have hw : 1 ≤ (t'.noDropFlush seq ty).2.winSize := by
      rw [hn.win, ht'.win]
      omega
    have hkept := (kept_noDropFlush t' seq ty).trans ((@kept_windowPkt _ wide _ seq ty payload).trans
      (kept_done (t'.noDropFlush seq ty).2.startWin _))
    refine .of_empty ?_ (hkept.established hcheck)
    obtain ⟨b, hb⟩ := done_eq (t'.noDropFlush seq ty).2.startWin
      ((t'.noDropFlush seq ty).2.windowPkt wide seq ty payload).2.2
    rw [hb]
    exact windowPkt_start hn.wf (noDropFlush_start hstart hseq ty) hw hseq

/-! ## Runs -/

/-- What else may change between two calls. -/
structure Setting where
  lastSeq : Option (Fin 4096)
  checkStartWin : Bool
  forceNoDrop : Bool
  flushData : Bool
  amsdu : Bool
  pktCount : Fin 256

def set (t : RxReorderTbl P) (x : Setting) : RxReorderTbl P :=
  { t with
    lastSeq := x.lastSeq.elim defaultSeqNum Fin.val
    checkStartWin := x.checkStartWin
    forceNoDrop := x.forceNoDrop
    flushData := x.flushData
    amsdu := x.amsdu
    pktCount := x.pktCount }

inductive TblAct (P : Type*)
  | set (x : Setting)
  | pkt (seq : Fin 4096) (ty : PktType) (payload : P)

/-- The table that is created for a request. -/
def created (cfg : AddbaCfg) (req : AddbaReq) : RxReorderTbl P :=
  .create req.peerMacAddr (paramTid req.blockAckParamSet) (cfg.winSize (paramWinSize req.blockAckParamSet)) req.ssn.toNat
    (cfg.lastSeq req.peerMacAddr (paramTid req.blockAckParamSet))

/-- One table, from the request on that created it. `restarts` : `check_start_win` may be set again. -/
def tblSystem (wide : ℕ → BitVec 64) (restarts : Bool) : System (RxReorderTbl P) (TblAct P) where
  init t := ∃ cfg req, req.ssn.toNat < 4096 ∧
    (cfg.lastSeq req.peerMacAddr (paramTid req.blockAckParamSet) < 4096 ∨
      cfg.lastSeq req.peerMacAddr (paramTid req.blockAckParamSet) = defaultSeqNum) ∧ t = created cfg req
  step t
    | .set x => if restarts ∨ (x.checkStartWin → t.checkStartWin) then some (t.set x) else none
    | .pkt seq ty payload => some (t.call wide seq ty payload).tbl

end RxReorderTbl

open RxReorderTbl

/-- What a table keeps. -/
structure TblInv (restarts : Bool) (t : RxReorderTbl P) : Prop where
  wf : t.WellFormed
  opening : restarts = false → t.Opening

theorem TblInv.of_reachable {restarts : Bool} (h : (tblSystem wide restarts).Reachable t) : TblInv restarts t := by
  refine h.invariant (I := TblInv restarts) (fun t ht => ?_) fun t a t' hi hs => ?_
  · obtain ⟨cfg, req, hssn, hlast, rfl⟩ := ht
    exact ⟨⟨(winSize_le cfg _).trans (by decide), hssn.le, hlast, fun _ _ => rfl⟩,
      fun _ => ⟨fun _ _ => rfl, fun hs => absurd hs hssn.ne⟩⟩
  · cases a with
    | set x =>
      simp only [tblSystem] at hs
      split_ifs at hs with hx
      obtain rfl := Option.some.inj hs
      refine ⟨⟨hi.wf.win, hi.wf.start, ?_, hi.wf.bounded⟩, fun hr => ⟨fun hcheck => ?_, fun hstart => ?_⟩⟩
      · unfold RxReorderTbl.set
        cases x.lastSeq with
        | none => exact .inr rfl
        | some n => exact .inl n.isLt
      · exact (hi.opening hr).vacant (hx.resolve_left (by rw [hr]; decide) hcheck)
      · obtain ⟨hv, hcheck⟩ := (hi.opening hr).start hstart
        refine ⟨hv, ?_⟩
        by_contra hne
        rw [Bool.not_eq_false] at hne
        exact absurd ((hx.resolve_left (by rw [hr]; decide) hne).symm.trans hcheck) (by decide)
    | pkt seq ty payload =>
      obtain rfl := Option.some.inj hs
      refine ⟨?_, fun hr => (hi.opening hr).call hi.wf seq.isLt⟩
      unfold RxReorderTbl.call
      by_cases hsmall : t.winSize ≤ 1
      · rw [if_pos hsmall]
        exact hi.wf
      · rw [if_neg hsmall]
        exact (rxReorderPkt_cases hi.wf (by omega) seq.isLt ty payload).keeps.1

/-- What a call asks of the start of the window, it asks of its value modulo 4096. -/
structure Decides (t : RxReorderTbl P) (seq : ℕ) : Prop where
  old : IsOld t.startWin seq ↔ 2048 ≤ ahead (t.startWin % 4096) seq
  outside : IsOutside t.startWin ((t.startWin + t.winSize - 1) % 4096) seq ↔ t.winSize ≤ ahead (t.startWin % 4096) seq
  slot : slotIndex t.startWin seq = ahead (t.startWin % 4096) seq

theorem decides (h : t.WellFormed) (hw : 2 ≤ t.winSize) (hseq : seq < 4096) : Decides t seq := by
  have hmod : ahead (t.startWin % 4096) seq = ahead t.startWin seq := by
    have hs := h.start
    unfold ahead
    omega
  refine ⟨?_, ?_, ?_⟩
  · rw [hmod, isOld_iff h.start hseq]
  · rw [hmod, isOutside_iff h.start hw h.win hseq]
  · rw [hmod, slotIndex_eq h.start hseq]

/-- **Slots** : in every run over a table, a call stays inside of its window, and 4096 as the start of it stands
for 0. -/
theorem slotIndex_safe {restarts : Bool} (h : (tblSystem wide restarts).Reachable t) (seq : Fin 4096) (ty : PktType)
    (payload : P) : (∀ i ∈ t.callAccesses wide seq ty payload, InWindow t.winSize i) ∧ t.startWin ≤ 4096 ∧
      (2 ≤ t.winSize → Decides t seq) ∧
      (restarts = false → Agrees (t.call wide seq ty payload) (t.reduced.call wide seq ty payload)) := by
  have hi := TblInv.of_reachable h
  exact ⟨call_inWindow hi.wf seq.isLt, hi.wf.start, fun hw => decides hi.wf hw seq.isLt,
    fun hr => call_agrees hi.wf (hi.opening hr).start seq.isLt⟩

/-- A request for a window that starts at 4090. -/
def lateReq : AddbaReq :=
  { someReq with ssn := 4090#16 }

local instance neZeroWin : NeZero 256 := ⟨by decide⟩
local instance neZeroSeqNum : NeZero 4096 := ⟨by decide⟩

/-- The window is moved behind 4095, and the packet that does so is too old for it. -/
def wrapRun : List (TblAct ℕ) :=
  [.set ⟨some 4095, true, false, false, true, 31⟩, .pkt 3000 .data 5]

theorem slotIndex_safe_wrap : ∃ t : RxReorderTbl ℕ, (tblSystem maskedShl false).Reachable t ∧ t.startWin = 4096 ∧
    (∀ i ∈ t.callAccesses maskedShl 1 .data 6, InWindow t.winSize i) ∧
      Agrees (t.call maskedShl 1 .data 6) (t.reduced.call maskedShl 1 .data 6) := by
  obtain ⟨t, ht, hstart⟩ := System.exists_reachable_of_run (M := tblSystem maskedShl false)
    (P := fun t : RxReorderTbl ℕ => t.startWin = 4096) (l := wrapRun) (s := created someCfg lateReq)
    ⟨someCfg, lateReq, by decide, .inr rfl, rfl⟩ (by decide +kernel)
  obtain ⟨hin, -, -, hagree⟩ := slotIndex_safe ht 1 .data 6
  exact ⟨t, ht, by simpa using hstart, hin, hagree rfl⟩

end WlanDriver.Reorder
