import WlanDriver.Lib.System
import WlanDriver.Pcie.RingPointer

/-!
# The transmit ring

`wlan_pcie_send_data` and `wlan_pcie_send_adma_data` attach a buffer to the next descriptor and tell the card of it by a
write of the pointer register; `wlan_pcie_send_data_complete` completes the buffers that the card has passed. One send is
under way at a time, and one completion, run by the send or by the interrupt (`wlan_pcie_process_tx_complete`); what a
spin lock covers is one step, and so is each iteration of the completion, so that sends and completions interleave.
`txbd_flush` is left out : it changes what a completed buffer is told, and neither a pointer nor a slot.

The card moves its read pointer forward, up to the last pointer that was written. History : `descs` is what was attached to
each descriptor from the first on (nothing, once the send has failed), `rd` of them are completed, `accepted` and `completed`
are the buffers in order.

`tx_ring_exact` holds of every run. `tx_ring_undone` : a send that fails leaves the ring as it was, in runs in which no write
of the pointer register fails. Behind such a write the buffer is detached, but the pointer stays where it is.
-/

namespace WlanDriver.Pcie

open List Option WlanDriver.System

/-- The functions that send. -/
inductive SendKind
  /-- `wlan_pcie_send_data`. -/
  | data
  /-- `wlan_pcie_send_adma_data`, with `ADMA_BD_FLAG_EOP` or without. -/
  | adma (eop : Bool)
  deriving DecidableEq

/-- A call of one of them. -/
structure Send (B : Type*) where
  kind : SendKind
  buf : B
  deriving DecidableEq

/-- Where the send is. -/
inductive SendPc (B : Type*)
  | idle
  | look (x : Send B)
  | map (x : Send B)
  | attach (x : Send B)
  /-- The descriptor is filled and the pointer advanced, behind the attach of `wlan_pcie_send_adma_data`. -/
  | fill (x : Send B) (wrindx : ℕ)
  /-- `done_unmap`, and whether the pointer was advanced. -/
  | undo (x : Send B) (wrindx : ℕ) (advanced : Bool)
  | recheck (x : Send B)
  | finish (x : Send B)
  deriving DecidableEq

/-- Where the completion is. -/
inductive CompletePc
  | start
  /-- The loop, with the read pointer of the card, and the position that it shows. -/
  | loop (rdptr shown : ℕ)
  | done
  deriving DecidableEq

/-- `wlan_pcie_process_tx_complete` is under way. -/
structure Completer where
  /-- The send runs it. -/
  bySend : Bool
  pc : CompletePc
  unmapCount : ℕ
  deriving DecidableEq

/-- The ring, the calls that are under way, and the card. -/
structure TxRing (B : Type*) where
  txbdWrptr : ℕ
  txbdRdptr : ℕ
  txBufList : ℕ → Option B
  txbdPending : ℕ
  dataSent : Bool
  dataSentCnt : ℕ
  moreTxTaskFlag : Bool
  sender : SendPc B
  /-- `pcie_tx_processing` is set while there is one. -/
  completer : Option Completer
  /-- The positions of the read pointer of the card, and of the last pointer that was written. -/
  card : ℕ
  written : ℕ
  descs : List (Option B)
  rd : ℕ
  accepted : List B
  completed : List B
  returned : List (B × Bool)

namespace TxRing

variable {B : Type*} (c : RingConfig) (aw693 : Bool) (s : TxRing B)

/-- `wlan_pcie_get_max_msdu_cnt`. -/
def getMaxMsduCnt : ℕ :=
  c.txrxBdSize - s.txbdPending

/-- On `PCIEAW693`, less than two descriptors are left. -/
def fewLeft : Bool :=
  aw693 && decide (s.getMaxMsduCnt c < 2)

/-- The call of `wlan_pcie_process_tx_complete`. -/
def processTxComplete (bySend : Bool) : TxRing B :=
  match s.completer with
  | some _ => { s with moreTxTaskFlag := true }
  | none => { s with completer := some ⟨bySend, .start, 0⟩ }

/-- The send may go on : it is not busy with a completion. -/
def SendRuns : Prop :=
  ∀ k ∈ s.completer, k.bySend = false
  deriving Decidable

def checkTxbdNotFull : Bool :=
  c.notFull s.txbdWrptr s.txbdRdptr

/-- The send reports a failure. -/
def fail (x : Send B) : TxRing B :=
  { s with sender := .idle, returned := s.returned ++ [(x.buf, false)] }

/-- The send begins; on ADMA `wlan_pcie_send_data` runs a completion first. -/
def send (x : Send B) : TxRing B :=
  let t : TxRing B := { s with sender := .look x }
  if x.kind = .data ∧ c.reg.useAdma ∧ s.txbdPending ≠ 0 then t.processTxComplete true else t

/-- The parameters are checked, and whether there is a descriptor. -/
def look (x : Send B) (valid : Bool) : TxRing B :=
  if valid = false then s.fail x
  else
    let s : TxRing B := { s with dataSent := true }
    if s.checkTxbdNotFull c then { s with sender := .map x } else s.fail x

/-- The buffer is mapped. -/
def map (x : Send B) (ok : Bool) : TxRing B :=
  if ok then { s with sender := .attach x } else s.fail x

/-- The buffer is attached to the descriptor. -/
def attachBuf (x : Send B) : TxRing B :=
  { s with
    txBufList := Function.update s.txBufList (c.index s.txbdWrptr) (some x.buf)
    txbdPending := s.txbdPending + 1
    descs := s.descs ++ [some x.buf] }

/-- The pointer is advanced, and written to the card if `writes`. -/
def publish (x : Send B) (wrindx : ℕ) (writes ok : Bool) : TxRing B :=
  let s : TxRing B := { s with txbdWrptr := c.advance s.txbdWrptr }
  if writes ∧ ok = false then { s with sender := .undo x wrindx true }
  else
    { s with
      sender := .recheck x
      written := if writes then s.descs.length else s.written
      accepted := s.accepted ++ [x.buf] }

/-- What is done under the lock. -/
def attach (x : Send B) (ok : Bool) : TxRing B :=
  match x.kind with
  | .data => (s.attachBuf c x).publish c x (c.index s.txbdWrptr) true ok
  | .adma _ => { s.attachBuf c x with sender := .fill x (c.index s.txbdWrptr) }

/-- The rest of `wlan_pcie_send_adma_data`; `desc` is whether there is a descriptor at all. -/
def fill (x : Send B) (wrindx : ℕ) (desc ok : Bool) : TxRing B :=
  if desc then s.publish c x wrindx (x.kind = .adma true) ok
  else { s with sender := .undo x wrindx false }

/-- `done_unmap`. -/
def undo (x : Send B) (wrindx : ℕ) (advanced : Bool) : TxRing B :=
  { s.fail x with
    txbdPending := s.txbdPending - 1
    txBufList := Function.update s.txBufList wrindx none
    descs := if advanced then s.descs.dropLast ++ [none] else s.descs.dropLast }

/-- Behind the write : if the ring is full now, a completion is run. -/
def recheck (x : Send B) : TxRing B :=
  let s : TxRing B := { s with sender := .finish x }
  if s.checkTxbdNotFull c then
    if s.fewLeft c aw693 then { s with dataSent := true }.processTxComplete true else { s with dataSent := false }
  else s.processTxComplete true

/-- The send reports `MLAN_STATUS_PENDING`. -/
def finish (x : Send B) : TxRing B :=
  { s with
    sender := .idle
    dataSentCnt := if s.dataSent then s.dataSentCnt + 1 else s.dataSentCnt
    returned := s.returned ++ [(x.buf, true)] }

/-- The register is read, and may be unreadable. -/
def completeRead (k : Completer) (value : Option ℕ) : Option (TxRing B) :=
  if s.txbdPending = 0 then some { s with completer := some { k with pc := .done } }
  else
    match value with
    | none => some { s with completer := some { k with pc := .done } }
    | some v =>
      let rdptr := v >>> 16
      if c.Shows rdptr s.card then some { s with completer := some { k with pc := .loop rdptr s.card } } else none

/-- One iteration of `wlan_pcie_send_data_complete`. -/
def completeOne (k : Completer) (rdptr : ℕ) (unmapped : Bool) : TxRing B :=
  if c.pending s.txbdRdptr rdptr then
    let wrdoneidx := c.index s.txbdRdptr
    let t : TxRing B := { s with
      txBufList := Function.update s.txBufList wrdoneidx none
      txbdRdptr := c.advance s.txbdRdptr
      rd := s.rd + 1 }
    match s.txBufList wrdoneidx with
    | none => t
    | some b =>
      if unmapped then
        { t with completed := s.completed ++ [b], completer := some { k with unmapCount := k.unmapCount + 1 } }
      else { s with completer := some { k with pc := .done } }
  else { s with completer := some { k with pc := .done } }

/-- The end of the completion; it is run again if it was asked for meanwhile. -/
def completeDone (k : Completer) : TxRing B :=
  let s : TxRing B := { s with txbdPending := s.txbdPending - k.unmapCount }
  let s : TxRing B := if k.unmapCount = 0 then s else { s with dataSent := s.fewLeft c aw693 }
  if s.moreTxTaskFlag then { s with moreTxTaskFlag := false, completer := some { k with pc := .start, unmapCount := 0 } }
  else { s with completer := none }

/-- The steps. -/
inductive Op (B : Type*)
  | send (x : Send B)
  | look (valid : Bool)
  | map (ok : Bool)
  | attach (ok : Bool)
  | fill (desc ok : Bool)
  | undo
  | recheck
  | finish
  /-- The interrupt calls for a completion. -/
  | irq
  | completeRead (value : Option ℕ)
  | completeOne (unmapped : Bool)
  | completeDone
  /-- The card moves its read pointer. -/
  | card (n : ℕ)

/-- One step. -/
def step (s : TxRing B) : Op B → Option (TxRing B)
  | .send x =>
    match s.sender with
    | .idle => if s.SendRuns ∧ (x.kind = .data ∨ c.reg.useAdma) then some (s.send c x) else none
    | _ => none
  | .look valid =>
    match s.sender with
    | .look x => if s.SendRuns then some (s.look c x valid) else none
    | _ => none
  | .map ok =>
    match s.sender with
    | .map x => some (s.map x ok)
    | _ => none
  | .attach ok =>
    match s.sender with
    | .attach x => some (s.attach c x ok)
    | _ => none
  | .fill desc ok =>
    match s.sender with
    | .fill x wrindx => some (s.fill c x wrindx desc ok)
    | _ => none
  | .undo =>
    match s.sender with
    | .undo x wrindx advanced => some (s.undo x wrindx advanced)
    | _ => none
  | .recheck =>
    match s.sender with
    | .recheck x => some (s.recheck c aw693 x)
    | _ => none
  | .finish =>
    match s.sender with
    | .finish x => if s.SendRuns then some (s.finish x) else none
    | _ => none
  | .irq => some (s.processTxComplete false)
  | .completeRead value =>
    match s.completer with
    | some ⟨b, .start, n⟩ => s.completeRead c ⟨b, .start, n⟩ value
    | _ => none
  | .completeOne unmapped =>
    match s.completer with
    | some ⟨b, .loop rdptr shown, n⟩ => some (s.completeOne c ⟨b, .loop rdptr shown, n⟩ rdptr unmapped)
    | _ => none
  | .completeDone =>
    match s.completer with
    | some ⟨b, .done, n⟩ => some (s.completeDone c aw693 ⟨b, .done, n⟩)
    | _ => none
  | .card n => if s.card ≤ n ∧ n ≤ s.written then some { s with card := n } else none

/-- The ring as it was created. -/
def Init : Prop :=
  s.txbdWrptr = 0 ∧ s.txbdRdptr = 0 ∧ (∀ i < c.txrxBdSize, s.txBufList i = none) ∧ s.txbdPending = 0 ∧ s.sender = .idle ∧
    s.completer = none ∧ s.card = 0 ∧ s.written = 0 ∧ s.descs = [] ∧ s.rd = 0 ∧ s.accepted = [] ∧ s.completed = [] ∧
    s.returned = []

end TxRing

/-- The ring over time. -/
def txRingSystem (B : Type*) (c : RingConfig) (aw693 : Bool) : System (TxRing B) (TxRing.Op B) :=
  ⟨TxRing.Init c, TxRing.step c aw693⟩

/-- The buffer that a failing send may still take back. -/
def SendPc.Open {B : Type*} : SendPc B → Prop
  | .fill .. | .undo .. => True
  | _ => False

/-- The buffer of the send is attached, and the pointer is not advanced. -/
def SendPc.unadvanced {B : Type*} : SendPc B → ℕ
  | .fill .. | .undo _ _ false => 1
  | _ => 0

/-- The send has succeeded, and has not returned. -/
def SendPc.sent {B : Type*} : SendPc B → List B
  | .recheck x | .finish x => [x.buf]
  | _ => []

/-- The kind of a send that attaches a buffer or fills its descriptor. -/
def SendPc.publishes {B : Type*} : SendPc B → Option SendKind
  | .attach x | .fill x _ => some x.kind
  | _ => none

namespace TxRing

variable {B : Type*} {c : RingConfig} {aw693 : Bool} {s s' : TxRing B}

/-- The position of the write pointer. -/
def wr (s : TxRing B) : ℕ :=
  s.descs.length - s.sender.unadvanced

/-- The descriptors of the sends that are done. -/
def settled (s : TxRing B) : List (Option B) :=
  match s.sender with
  | .fill .. | .undo .. => s.descs.dropLast
  | _ => s.descs

/-- What the completion that is under way has unmapped. -/
def unmapped (s : TxRing B) : ℕ :=
  s.completer.elim 0 Completer.unmapCount

/-- What holds at a place of the send. -/
def SendAt (c : RingConfig) (s : TxRing B) : SendPc B → Prop
  | .map _ | .attach _ => s.descs.length < s.rd + c.txrxBdSize
  | .fill x i => ∃ l, s.descs = l ++ [some x.buf] ∧ i = l.length % c.txrxBdSize ∧ s.written ≤ l.length
  | .undo x i _ => ∃ l, s.descs = l ++ [some x.buf] ∧ i = l.length % c.txrxBdSize ∧ s.written ≤ l.length
  | _ => True

/-- What holds at a place of the completion. -/
def CompleteAt (c : RingConfig) (s : TxRing B) : CompletePc → Prop
  | .loop rdptr shown => c.Shows rdptr shown ∧ s.rd ≤ shown ∧ shown ≤ s.card
  | _ => True

/-- What holds of the ring. -/
structure RingInv (c : RingConfig) (s : TxRing B) : Prop where
  wrptr : s.txbdWrptr = c.encode s.wr
  rdptr : s.txbdRdptr = c.encode s.rd
  rd_le : s.rd ≤ s.card
  card_le : s.card ≤ s.written
  written_le : s.written ≤ s.descs.length
  ring : InRing c.txrxBdSize s.txBufList s.rd (s.descs.drop s.rd)
  pending : s.txbdPending = (s.descs.drop s.rd).countP Option.isSome + s.unmapped
  completed : s.completed = (s.descs.take s.rd).filterMap id
  accepted : s.accepted = s.settled.filterMap id
  returned : s.accepted = ((s.returned.filter Prod.snd).map Prod.fst) ++ s.sender.sent
  send : s.SendAt c s.sender
  complete : ∀ k ∈ s.completer, s.CompleteAt c k.pc

namespace RingInv

variable {x : Send B} {i : ℕ}

theorem rd_le_length (h : RingInv c s) : s.rd ≤ s.descs.length :=
  h.rd_le.trans (h.card_le.trans h.written_le)

theorem length_le (h : RingInv c s) : s.descs.length ≤ s.rd + c.txrxBdSize := by
  have hfits := h.ring.fits
  rw [length_drop] at hfits
  omega

theorem rd_le_wr (h : RingInv c s) : s.rd ≤ s.wr := by
  have hle := h.rd_le_length
  have hrd := h.rd_le
  have hcard := h.card_le
  have hat := h.send
  rw [wr]
  cases hs : s.sender with
  | fill x i =>
    rw [hs] at hat
    obtain ⟨l, hl, -, hw⟩ := hat
    rw [hl, length_append]
    simp only [SendPc.unadvanced, length_singleton]
    omega
  | undo x i advanced =>
    rw [hs] at hat
    obtain ⟨l, hl, -, hw⟩ := hat
    rw [hl, length_append]
    cases advanced <;> simp only [SendPc.unadvanced, length_singleton] <;> omega
  | _ => exact hle

theorem wr_of_not_open (hs : ¬s.sender.Open) : s.wr = s.descs.length := by
  rw [wr]
  cases hp : s.sender with
  | fill | undo => exact absurd (show s.sender.Open by rw [hp]; exact trivial) hs
  | _ => rfl

theorem settled_of_not_open (hs : ¬s.sender.Open) : s.settled = s.descs := by
  rw [settled]
  cases hp : s.sender with
  | fill | undo => exact absurd (show s.sender.Open by rw [hp]; exact trivial) hs
  | _ => rfl

section

variable (h : RingInv c s)

include h

/-- The test for a full ring is exact. -/
theorem notFull : s.checkTxbdNotFull c = decide (s.wr < s.rd + c.txrxBdSize) := by
  have hle := h.length_le
  rw [checkTxbdNotFull, h.wrptr, h.rdptr]
  refine RingConfig.notFull_encode h.rd_le_wr ?_
  rw [wr]
  omega

/-- The flags do not matter. -/
theorem flags (d m : Bool) (n : ℕ) :
    RingInv c { s with dataSent := d, dataSentCnt := n, moreTxTaskFlag := m } :=
  { h with }

/-- The send goes on, and has nothing attached before and behind. -/
theorem goto {p : SendPc B} {r : List (B × Bool)} (hs : ¬s.sender.Open) (hp : ¬p.Open)
    (hr : s.accepted = ((r.filter Prod.snd).map Prod.fst) ++ p.sent) (hat : s.SendAt c p) :
    RingInv c { s with sender := p, returned := r } := by
  have hwr : TxRing.wr { s with sender := p, returned := r } = s.wr := by
    rw [wr_of_not_open hs]
    exact wr_of_not_open hp
  have hset : TxRing.settled { s with sender := p, returned := r } = s.settled := by
    rw [settled_of_not_open hs]
    exact settled_of_not_open hp
  exact ⟨by rw [hwr]; exact h.wrptr, h.rdptr, h.rd_le, h.card_le, h.written_le, h.ring, h.pending, h.completed,
    by rw [hset]; exact h.accepted, hr, hat, h.complete⟩

theorem processTxComplete (bySend : Bool) : RingInv c (s.processTxComplete bySend) := by
  rw [TxRing.processTxComplete]
  split
  · exact h.flags s.dataSent true s.dataSentCnt
  · next hk =>
    have hu : s.unmapped = 0 := by rw [unmapped, hk]; rfl
    refine ⟨h.wrptr, h.rdptr, h.rd_le, h.card_le, h.written_le, h.ring, ?_, h.completed, h.accepted, h.returned, h.send,
      fun k hk' => ?_⟩
    · rw [h.pending, hu]
      rfl
    · obtain rfl := some.inj hk'
      exact trivial

theorem fail (hs : ¬s.sender.Open) (hsent : s.sender.sent = []) : RingInv c (s.fail x) := by
  refine h.goto hs id ?_ trivial
  rw [h.returned, hsent]
  simp [SendPc.sent]

theorem send_ (hs : s.sender = .idle) : RingInv c (s.send c x) := by
  have ht : RingInv c { s with sender := .look x } := by
    refine h.goto (r := s.returned) (by simp [hs, SendPc.Open]) id ?_ trivial
    rw [h.returned, hs]
    rfl
  rw [TxRing.send]
  split
  · exact ht.processTxComplete true
  · exact ht

theorem look (hs : s.sender = .look x) (valid : Bool) : RingInv c (s.look c x valid) := by
  have ho : ¬s.sender.Open := by simp [hs, SendPc.Open]
  have hsent : s.sender.sent = [] := by rw [hs]; rfl
  have hd := h.flags true s.moreTxTaskFlag s.dataSentCnt
  rw [TxRing.look]
  split
  · exact h.fail ho hsent
  · dsimp only
    split
    · next hfull =>
      have hroom : s.wr < s.rd + c.txrxBdSize := by rwa [hd.notFull, decide_eq_true_eq] at hfull
      rw [wr_of_not_open ho] at hroom
      refine hd.goto (r := s.returned) ho id ?_ hroom
      rw [hd.returned, hsent]
      rfl
    · exact hd.fail ho hsent

theorem map (hs : s.sender = .map x) (ok : Bool) : RingInv c (s.map x ok) := by
  have ho : ¬s.sender.Open := by simp [hs, SendPc.Open]
  have hsent : s.sender.sent = [] := by rw [hs]; rfl
  have hat := h.send
  rw [hs] at hat
  rw [TxRing.map]
  split
  · refine h.goto (r := s.returned) ho id ?_ hat
    rw [h.returned, hsent]
    rfl
  · exact h.fail ho hsent

/-- The buffer is put behind the last descriptor. -/
theorem attachBuf (hs : s.sender = .attach x) :
    RingInv c { s.attachBuf c x with sender := .fill x (c.index s.txbdWrptr) } := by
  have ho : ¬s.sender.Open := by simp [hs, SendPc.Open]
  have hrd := h.rd_le_length
  have hroom : s.descs.length < s.rd + c.txrxBdSize := by
    have hat := h.send
    rwa [hs] at hat
  have hidx : c.index s.txbdWrptr = s.descs.length % c.txrxBdSize := by
    rw [h.wrptr, wr_of_not_open ho, RingConfig.index_encode]
  have hdrop : (s.descs ++ [some x.buf]).drop s.rd = s.descs.drop s.rd ++ [some x.buf] := by
    rw [drop_append_of_le_length hrd]
  have hend : s.rd + (s.descs.drop s.rd).length = s.descs.length := by
    rw [length_drop]
    omega
  refine ⟨?_, h.rdptr, h.rd_le, h.card_le, ?_, ?_, ?_, ?_, ?_, ?_, ⟨s.descs, rfl, hidx, h.written_le⟩, h.complete⟩
  · have hwr : TxRing.wr { s.attachBuf c x with sender := .fill x (c.index s.txbdWrptr) } = s.descs.length := by
      simp [wr, TxRing.attachBuf, SendPc.unadvanced]
    rw [hwr, ← wr_of_not_open ho]
    exact h.wrptr
  · have := h.written_le
    simp only [TxRing.attachBuf, length_append]
    omega
  · have hpush := h.ring.push (by rw [length_drop]; omega) (some x.buf)
    rw [hend, ← hdrop, ← hidx] at hpush
    exact hpush
  · have hu : TxRing.unmapped { s.attachBuf c x with sender := .fill x (c.index s.txbdWrptr) } = s.unmapped := rfl
    rw [hu]
    simp only [TxRing.attachBuf]
    rw [hdrop, countP_append, h.pending, countP_singleton]
    simp only [isSome_some, if_true]
    omega
  · simp only [TxRing.attachBuf]
    rw [take_append_of_le_length hrd]
    exact h.completed
  · have hset : TxRing.settled { s.attachBuf c x with sender := .fill x (c.index s.txbdWrptr) } = s.settled := by
      rw [settled_of_not_open ho]
      simp [settled, TxRing.attachBuf]
    rw [hset]
    exact h.accepted
  · have hret := h.returned
    rw [hs] at hret
    exact hret

/-- The pointer is advanced. -/
theorem publish (hs : s.sender = .fill x i) (writes ok : Bool) :
    RingInv c (s.publish c x i writes ok) := by
  have hat := h.send
  rw [hs] at hat
  obtain ⟨l, hl, hi, hw⟩ := hat
  have hwr : s.wr = l.length := by simp [wr, hs, hl, SendPc.unadvanced]
  have hadv : c.advance s.txbdWrptr = c.encode (l.length + 1) := by rw [h.wrptr, hwr, RingConfig.advance_encode]
  have hset : s.settled = l := by simp [settled, hs, hl]
  have hret : s.accepted = ((s.returned.filter Prod.snd).map Prod.fst) := by
    rw [h.returned, hs]
    simp [SendPc.sent]
  rw [TxRing.publish]
  dsimp only
  split
  · refine ⟨?_, h.rdptr, h.rd_le, h.card_le, h.written_le, h.ring, h.pending, h.completed, ?_, ?_, ⟨l, hl, hi, hw⟩,
      h.complete⟩
    · rw [hadv]
      simp [wr, hl, SendPc.unadvanced]
    · rw [h.accepted, hset]
      simp [settled, hl]
    · simpa [SendPc.sent] using hret
  · refine ⟨?_, h.rdptr, h.rd_le, ?_, ?_, h.ring, h.pending, h.completed, ?_, ?_, trivial, h.complete⟩
    · rw [hadv]
      simp [wr, hl, SendPc.unadvanced]
    · have hcard := h.card_le
      have hle := h.written_le
      dsimp only
      split <;> omega
    · have hle := h.written_le
      dsimp only
      split <;> omega
    · rw [h.accepted, hset]
      simp [settled, hl]
    · simp [SendPc.sent, hret]

theorem attach (hs : s.sender = .attach x) (ok : Bool) : RingInv c (s.attach c x ok) := by
  have ht := h.attachBuf hs
  rw [TxRing.attach]
  split
  · have hp := ht.publish rfl true ok
    rw [TxRing.publish] at hp ⊢
    cases ok <;> exact hp
  · exact ht

theorem fill (hs : s.sender = .fill x i) (desc ok : Bool) : RingInv c (s.fill c x i desc ok) := by
  rw [TxRing.fill]
  split
  · exact h.publish hs _ ok
  · have hat := h.send
    rw [hs] at hat
    have hwr : TxRing.wr { s with sender := .undo x i false } = s.wr := by simp [wr, hs, SendPc.unadvanced]
    have hset : TxRing.settled { s with sender := .undo x i false } = s.settled := by simp [settled, hs]
    have hret := h.returned
    rw [hs] at hret
    exact ⟨by rw [hwr]; exact h.wrptr, h.rdptr, h.rd_le, h.card_le, h.written_le, h.ring, h.pending, h.completed,
      by rw [hset]; exact h.accepted, hret, hat, h.complete⟩

/-- The buffer is taken back; the descriptor is left behind if the pointer was advanced. -/
theorem undo {advanced : Bool} (hs : s.sender = .undo x i advanced) :
    RingInv c (s.undo x i advanced) := by
  have hat := h.send
  rw [hs] at hat
  obtain ⟨l, hl, hi, hw⟩ := hat
  have hrd : s.rd ≤ l.length := h.rd_le.trans (h.card_le.trans hw)
  have hdrop : ∀ o : Option B, (l ++ [o]).drop s.rd = l.drop s.rd ++ [o] := fun o => by
    rw [drop_append_of_le_length hrd]
  have hend : s.rd + (l.drop s.rd).length = l.length := by
    rw [length_drop]
    omega
  have hset : s.settled = l := by simp [settled, hs, hl]
  have hring := h.ring
  rw [hl, hdrop] at hring
  have hlast := hring.setLast none
  rw [hend, ← hi] at hlast
  have hpending := h.pending
  rw [hl, hdrop, countP_append, countP_singleton] at hpending
  have hcompleted := h.completed
  rw [hl, take_append_of_le_length hrd] at hcompleted
  have hret : s.accepted = (((s.returned ++ [(x.buf, false)]).filter Prod.snd).map Prod.fst) ++ [] := by
    rw [h.returned, hs]
    simp [SendPc.sent]
  have hidle : (s.undo x i advanced).sender = .idle := rfl
  have hrd' : (s.undo x i advanced).rd = s.rd := rfl
  have hacc := h.accepted
  rw [hset] at hacc
  cases advanced with
  | true =>
    have hdescs : (s.undo x i true).descs = l ++ [none] := by simp [TxRing.undo, hl]
    have hwr : (s.undo x i true).wr = s.wr := by
      rw [wr, hdescs, hidle, wr, hs, hl]
      simp [SendPc.unadvanced]
    refine ⟨?_, h.rdptr, h.rd_le, h.card_le, ?_, ?_, ?_, ?_, ?_, hret, trivial, h.complete⟩
    · rw [hwr]
      exact h.wrptr
    · rw [hdescs, length_append]
      exact hw.trans (Nat.le_add_right _ _)
    · rw [hdescs, hrd', hdrop]
      exact hlast
    · rw [hdescs, hrd', hdrop, countP_append, countP_singleton]
      simp only [TxRing.undo, hpending]
      simp only [isSome_some, if_true, unmapped, TxRing.fail, isSome_none, Bool.false_eq_true, if_false]
      omega
    · rw [hdescs, hrd', take_append_of_le_length hrd]
      exact hcompleted
    · rw [settled, hidle, show (s.undo x i true).accepted = s.accepted from rfl, hacc]
      simp [hdescs]
  | false =>
    have hdescs : (s.undo x i false).descs = l := by simp [TxRing.undo, hl]
    have hwr : (s.undo x i false).wr = s.wr := by
      rw [wr, hdescs, hidle, wr, hs, hl]
      simp [SendPc.unadvanced]
    refine ⟨?_, h.rdptr, h.rd_le, h.card_le, ?_, ?_, ?_, ?_, ?_, hret, trivial, h.complete⟩
    · rw [hwr]
      exact h.wrptr
    · rw [hdescs]
      exact hw
    · rw [hdescs, hrd']
      exact hlast.dropLast
    · rw [hdescs, hrd']
      simp only [TxRing.undo, hpending]
      simp only [isSome_some, if_true, unmapped, TxRing.fail]
      omega
    · rw [hdescs, hrd']
      exact hcompleted
    · rw [settled, hidle]
      simp only [hdescs]
      exact hacc

theorem recheck (hs : s.sender = .recheck x) (aw693 : Bool) : RingInv c (s.recheck c aw693 x) := by
  have hret := h.returned
  rw [hs] at hret
  have ht : RingInv c { s with sender := .finish x } :=
    h.goto (r := s.returned) (by simp [hs, SendPc.Open]) id hret trivial
  rw [TxRing.recheck]
  dsimp only
  split
  · split
    · exact (ht.flags true s.moreTxTaskFlag s.dataSentCnt).processTxComplete true
    · exact ht.flags false s.moreTxTaskFlag s.dataSentCnt
  · exact ht.processTxComplete true

theorem finish (hs : s.sender = .finish x) : RingInv c (s.finish x) := by
  have hret := h.returned
  rw [hs] at hret
  have ht : RingInv c { s with sender := .idle, returned := s.returned ++ [(x.buf, true)] } := by
    refine h.goto (by simp [hs, SendPc.Open]) id ?_ trivial
    rw [hret]
    simp [SendPc.sent]
  exact ht.flags s.dataSent s.moreTxTaskFlag _

/-- The completion goes on, and has unmapped as much as before. -/
theorem completer {k k' : Completer} (hk : s.completer = some k) (hn : k'.unmapCount = k.unmapCount)
    (hat : s.CompleteAt c k'.pc) : RingInv c { s with completer := some k' } := by
  have hu : TxRing.unmapped { s with completer := some k' } = s.unmapped := by simp [unmapped, hk, hn]
  refine ⟨h.wrptr, h.rdptr, h.rd_le, h.card_le, h.written_le, h.ring, ?_, h.completed, h.accepted, h.returned, h.send,
    fun k'' hk'' => ?_⟩
  · rw [hu]
    exact h.pending
  · obtain rfl := some.inj hk''
    exact hat

theorem completeRead {k : Completer} (hk : s.completer = some k) {value : Option ℕ}
    (hs : s.completeRead c k value = some s') : RingInv c s' := by
  unfold TxRing.completeRead at hs
  split at hs
  · obtain rfl := some.inj hs
    exact h.completer hk rfl trivial
  · split at hs
    · obtain rfl := some.inj hs
      exact h.completer hk rfl trivial
    · obtain ⟨hshows, rfl⟩ := of_guard hs
      exact h.completer hk rfl ⟨hshows, h.rd_le, le_rfl⟩

/-- The card has not passed what the send may still take back. -/
theorem written_le_settled : s.written ≤ s.settled.length := by
  have hle := h.written_le
  have hat := h.send
  rw [settled]
  cases hs : s.sender with
  | fill x i =>
    rw [hs] at hat
    obtain ⟨l, hl, -, hw⟩ := hat
    simpa [hl] using hw
  | undo x i advanced =>
    rw [hs] at hat
    obtain ⟨l, hl, -, hw⟩ := hat
    simpa [hl] using hw
  | _ => exact hle

theorem completeOne {k : Completer} {rdptr shown : ℕ} (hk : s.completer = some k)
    (hpc : k.pc = .loop rdptr shown) (unmapped : Bool) : RingInv c (s.completeOne c k rdptr unmapped) := by
  obtain ⟨hshows, hle, hcard⟩ : s.CompleteAt c (.loop rdptr shown) := hpc ▸ h.complete k (by simp [hk])
  have hdone : RingInv c { s with completer := some { k with pc := .done } } := h.completer hk rfl trivial
  have hlen := h.length_le
  have hcl := h.card_le
  have hwl := h.written_le
  rw [TxRing.completeOne]
  split
  · next hpend =>
    rw [h.rdptr, RingConfig.pending_encode hshows hle (by omega), decide_eq_true_eq] at hpend
    have hshown : s.rd + 1 ≤ shown := by omega
    have hlt : s.rd < s.descs.length := by omega
    have hidx : c.index s.txbdRdptr = s.rd % c.txrxBdSize := by rw [h.rdptr, RingConfig.index_encode]
    have hdrop : s.descs.drop s.rd = s.descs[s.rd] :: s.descs.drop (s.rd + 1) := drop_eq_getElem_cons hlt
    have hring := h.ring
    rw [hdrop] at hring
    have hhead := hring.head
    have hpop := hring.pop
    rw [← hidx] at hhead hpop
    have htake : s.descs.take (s.rd + 1) = s.descs.take s.rd ++ [s.descs[s.rd]] := (take_append_getElem hlt).symm
    have hpending := h.pending
    rw [hdrop] at hpending
    have hcompleted : ∀ o, s.descs[s.rd] = o → s.completed ++ o.toList = (s.descs.take (s.rd + 1)).filterMap id := by
      rintro o rfl
      rw [htake, filterMap_append, h.completed]
      cases s.descs[s.rd] <;> rfl
    have hsend : ∀ p, s.SendAt c p → TxRing.SendAt c { s with rd := s.rd + 1 } p := by
      intro p hp
      cases p with
      | map | attach => exact hp.trans (Nat.add_lt_add_right (Nat.lt_succ_self s.rd) _)
      | fill | undo => exact hp
      | _ => exact trivial
    have hadv : c.advance s.txbdRdptr = c.encode (s.rd + 1) := by rw [h.rdptr, RingConfig.advance_encode]
    dsimp only
    split
    · next hnone =>
      have ho : s.descs[s.rd] = none := hhead.symm.trans hnone
      refine ⟨h.wrptr, hadv, hshown.trans hcard, h.card_le, h.written_le, hpop, ?_, ?_, h.accepted, h.returned, hsend _ h.send,
        fun k' hk' => ?_⟩
      · rw [ho, countP_cons_of_neg (by simp)] at hpending
        exact hpending
      · simpa using hcompleted none ho
      · obtain rfl := some.inj (hk.symm.trans hk')
        rw [hpc]
        exact ⟨hshows, hshown, hcard⟩
    · next b hsome =>
      have ho : s.descs[s.rd] = some b := hhead.symm.trans hsome
      split
      · refine ⟨h.wrptr, hadv, hshown.trans hcard, h.card_le, h.written_le, hpop, ?_, hcompleted (some b) ho, h.accepted,
          h.returned, hsend _ h.send, fun k' hk' => ?_⟩
        · rw [ho, countP_cons_of_pos (by simp)] at hpending
          simp only [TxRing.unmapped, hk, elim_some] at hpending ⊢
          omega
        · obtain rfl := some.inj hk'
          show TxRing.CompleteAt c _ k.pc
          rw [hpc]
          exact ⟨hshows, hshown, hcard⟩
      · exact hdone
  · exact hdone

theorem completeDone {k : Completer} (hk : s.completer = some k) (aw693 : Bool) :
    RingInv c (s.completeDone c aw693 k) := by
  have hpending := h.pending
  rw [unmapped, hk] at hpending
  have ht : ∀ (o : Option Completer), o.elim 0 Completer.unmapCount = 0 → (∀ k' ∈ o, s.CompleteAt c k'.pc) →
      RingInv c { s with txbdPending := s.txbdPending - k.unmapCount, completer := o } := by
    intro o ho hat
    refine ⟨h.wrptr, h.rdptr, h.rd_le, h.card_le, h.written_le, h.ring, ?_, h.completed, h.accepted, h.returned, h.send,
      hat⟩
    simp only [unmapped, ho, hpending, elim_some]
    omega
  have hnone := ht none rfl (by simp)
  have hsome := ht (some { k with pc := .start, unmapCount := 0 }) rfl (by rintro k' ⟨⟩; exact trivial)
  rw [TxRing.completeDone]
  dsimp only
  split
  · split
    · exact hsome.flags s.dataSent false s.dataSentCnt
    · exact hnone
  · split
    · exact hsome.flags _ false s.dataSentCnt
    · exact hnone.flags _ s.moreTxTaskFlag s.dataSentCnt

theorem step {op : Op B} {aw693 : Bool} (hs : s.step c aw693 op = some s') : RingInv c s' := by
  cases op with
  | send x =>
    cases hp : s.sender with
    | idle =>
      simp only [TxRing.step, hp] at hs
      obtain ⟨-, hs⟩ := ite_none_right_eq_some.mp hs
      exact some.inj hs ▸ h.send_ hp
    | _ => simp [TxRing.step, hp] at hs
  | look valid =>
    cases hp : s.sender with
    | look x =>
      simp only [TxRing.step, hp] at hs
      obtain ⟨-, hs⟩ := ite_none_right_eq_some.mp hs
      exact some.inj hs ▸ h.look hp valid
    | _ => simp [TxRing.step, hp] at hs
  | map ok =>
    cases hp : s.sender with
    | map x =>
      simp only [TxRing.step, hp] at hs
      exact some.inj hs ▸ h.map hp ok
    | _ => simp [TxRing.step, hp] at hs
  | attach ok =>
    cases hp : s.sender with
    | attach x =>
      simp only [TxRing.step, hp] at hs
      exact some.inj hs ▸ h.attach hp ok
    | _ => simp [TxRing.step, hp] at hs
  | fill desc ok =>
    cases hp : s.sender with
    | fill x i =>
      simp only [TxRing.step, hp] at hs
      exact some.inj hs ▸ h.fill hp desc ok
    | _ => simp [TxRing.step, hp] at hs
  | undo =>
    cases hp : s.sender with
    | undo x i advanced =>
      simp only [TxRing.step, hp] at hs
      exact some.inj hs ▸ h.undo hp
    | _ => simp [TxRing.step, hp] at hs
  | recheck =>
    cases hp : s.sender with
    | recheck x =>
      simp only [TxRing.step, hp] at hs
      exact some.inj hs ▸ h.recheck hp aw693
    | _ => simp [TxRing.step, hp] at hs
  | finish =>
    cases hp : s.sender with
    | finish x =>
      simp only [TxRing.step, hp] at hs
      obtain ⟨-, hs⟩ := ite_none_right_eq_some.mp hs
      exact some.inj hs ▸ h.finish hp
    | _ => simp [TxRing.step, hp] at hs
  | irq => exact some.inj hs ▸ h.processTxComplete false
  | completeRead value =>
    simp only [TxRing.step] at hs
    split at hs
    · next hk => exact h.completeRead hk hs
    · simp at hs
  | completeOne unmapped =>
    simp only [TxRing.step] at hs
    split at hs
    · next hk => exact some.inj hs ▸ h.completeOne hk rfl unmapped
    · simp at hs
  | completeDone =>
    simp only [TxRing.step] at hs
    split at hs
    · next hk => exact some.inj hs ▸ h.completeDone hk aw693
    · simp at hs
  | card n =>
    obtain ⟨⟨hn, hw⟩, rfl⟩ := of_guard hs
    refine ⟨h.wrptr, h.rdptr, h.rd_le.trans hn, hw, h.written_le, h.ring, h.pending, h.completed, h.accepted, h.returned,
      h.send, fun k hk => ?_⟩
    have hat := h.complete k hk
    cases hp : k.pc with
    | loop rdptr shown =>
      rw [hp] at hat
      exact ⟨hat.1, hat.2.1, hat.2.2.trans hn⟩
    | _ => exact trivial

end

theorem of_init (h : s.Init c) : RingInv c s := by
  obtain ⟨hw, hr, hlist, hp, hs, hk, hcard, hwritten, hdescs, hrd, hacc, hcomp, hret⟩ := h
  have henc : c.encode 0 = 0 := by simp [RingConfig.encode]
  refine ⟨?_, ?_, by omega, by omega, by omega, ?_, ?_, ?_, ?_, ?_, ?_, ?_⟩
  · rw [hw, wr, hdescs, hs]
    exact henc.symm
  · rw [hr, hrd, henc]
  · rw [hdescs, hrd]
    exact .nil hlist
  · rw [hp, hdescs, hrd, unmapped, hk]
    rfl
  · rw [hcomp, hdescs, hrd]
    rfl
  · rw [hacc, settled, hs, hdescs]
    rfl
  · rw [hacc, hret, hs]
    rfl
  · rw [hs]
    exact trivial
  · rw [hk]
    simp

theorem of_reachable {C : TxRing B → Op B → Prop} (h : (txRingSystem B c aw693).ReachableWhen C s) : RingInv c s :=
  h.invariant (fun _ => of_init) fun _ _ _ hi _ hs => hi.step hs

end RingInv

/-! ## What the ring shows -/

/-- What the fields say of the descriptors. -/
structure Exact (c : RingConfig) (s : TxRing B) : Prop where
  pointers : s.txbdWrptr = c.encode s.wr ∧ s.txbdRdptr = c.encode s.rd ∧ s.rd ≤ s.wr ∧ s.wr ≤ s.rd + c.txrxBdSize
  /-- A slot is occupied for the descriptors from the read pointer on whose send has not failed. -/
  slots : ∀ i < c.txrxBdSize, ∀ b, s.txBufList i = some b ↔
    ∃ p, s.rd ≤ p ∧ p % c.txrxBdSize = i ∧ s.descs[p]? = some (some b)
  pending : s.txbdPending =
    ((Finset.range c.txrxBdSize).filter fun i => (s.txBufList i).isSome = true).card + s.unmapped
  full : s.checkTxbdNotFull c = decide (s.wr < s.rd + c.txrxBdSize)
  /-- No occupied slot is overwritten. -/
  free : ∀ x, s.sender = .attach x → s.txBufList (c.index s.txbdWrptr) = none
  /-- The accepted buffers are completed once, in order, or they are in the ring. -/
  once : s.accepted = s.completed ++ (s.settled.drop s.rd).filterMap id
  /-- The completed ones were passed by the card. -/
  passed : s.completed = (s.descs.take s.rd).filterMap id ∧ s.rd ≤ s.card ∧ s.card ≤ s.written
  /-- The loop of the completion ends when all that the register shows is completed. -/
  drains : ∀ k ∈ s.completer, ∀ rdptr shown, k.pc = .loop rdptr shown →
    c.pending s.txbdRdptr rdptr = decide (s.rd ≠ shown)

theorem RingInv.take_settled (h : RingInv c s) : s.settled.take s.rd = s.descs.take s.rd := by
  have hle := h.rd_le.trans (h.card_le.trans h.written_le_settled)
  rw [settled] at hle ⊢
  split at hle
  · rw [dropLast_eq_take, take_take]
    rw [length_dropLast] at hle
    rw [Nat.min_eq_left hle]
  · rw [dropLast_eq_take, take_take]
    rw [length_dropLast] at hle
    rw [Nat.min_eq_left hle]
  · rfl

theorem RingInv.exact (h : RingInv c s) : s.Exact c where
  pointers := by
    have hle := h.length_le
    exact ⟨h.wrptr, h.rdptr, h.rd_le_wr, by rw [wr]; omega⟩
  slots i hi b := by
    rw [h.ring.slot_eq_some_iff hi]
    constructor
    · rintro ⟨k, hk, hl⟩
      exact ⟨s.rd + k, Nat.le_add_right _ _, hk, by rwa [getElem?_drop] at hl⟩
    · rintro ⟨p, hp, hk, hl⟩
      obtain ⟨k, rfl⟩ := Nat.exists_eq_add_of_le hp
      exact ⟨k, hk, by rwa [getElem?_drop]⟩
  pending := by rw [h.ring.card_occupied, h.pending]
  full := h.notFull
  free x hx := by
    have ho : ¬s.sender.Open := by simp [hx, SendPc.Open]
    have hat := h.send
    have hrd := h.rd_le_length
    rw [hx] at hat
    have hroom : s.descs.length < s.rd + c.txrxBdSize := hat
    have hfree := h.ring.free (by rw [length_drop]; omega)
    rw [length_drop, Nat.add_sub_cancel' hrd] at hfree
    rwa [h.wrptr, RingInv.wr_of_not_open ho, RingConfig.index_encode]
  once := by
    rw [h.accepted, h.completed, ← h.take_settled, ← filterMap_append, take_append_drop]
  passed := ⟨h.completed, h.rd_le, h.card_le⟩
  drains k hk rdptr shown hpc := by
    obtain ⟨hshows, hle, hcard⟩ : s.CompleteAt c (.loop rdptr shown) := hpc ▸ h.complete k hk
    have hlen := h.length_le
    have hcl := h.card_le
    have hwl := h.written_le
    rw [h.rdptr, RingConfig.pending_encode hshows hle (by omega)]

/-- Whatever fails : the slots, the count and the test for a full ring are exact, and each accepted buffer is completed once,
behind the card. -/
theorem tx_ring_exact (h : (txRingSystem B c aw693).Reachable s) : s.Exact c :=
  (RingInv.of_reachable h).exact

/-! ## Runs without a failing write -/

/-- No write of the pointer register fails. -/
def Op.Clean (s : TxRing B) : Op B → Prop
  | .attach ok => s.sender.publishes = some .data → ok = true
  | .fill desc ok => s.sender.publishes = some (.adma true) → desc = true → ok = true
  | _ => True

instance Op.decidableClean (s : TxRing B) (op : Op B) : Decidable (op.Clean s) := by
  unfold Op.Clean
  split <;> infer_instance

/-- No descriptor was left behind. -/
structure Gapless (s : TxRing B) : Prop where
  solid : none ∉ s.settled
  advances : ∀ x i, s.sender ≠ .undo x i true

theorem descs_processTxComplete (b : Bool) : (s.processTxComplete b).descs = s.descs := by
  rw [processTxComplete]
  split <;> rfl

theorem sender_processTxComplete (b : Bool) : (s.processTxComplete b).sender = s.sender := by
  rw [processTxComplete]
  split <;> rfl

namespace Gapless

variable {x : Send B} {i : ℕ}

/-- A step that leaves the send and the descriptors alone. -/
theorem frame (h : Gapless s) (hd : s'.descs = s.descs) (hs : s'.sender = s.sender) : Gapless s' :=
  ⟨by rw [settled, hs, hd]; exact h.solid, by rw [hs]; exact h.advances⟩

/-- A step of the send with nothing attached before and behind. -/
theorem aside (h : Gapless s) (hs : ¬s.sender.Open) {p : SendPc B} (hp : ¬p.Open) (hd : s'.descs = s.descs)
    (hs' : s'.sender = p) : Gapless s' := by
  subst hs'
  refine ⟨?_, fun x i hu => hp (by rw [hu]; exact trivial)⟩
  rw [RingInv.settled_of_not_open hp, hd, ← RingInv.settled_of_not_open hs]
  exact h.solid

theorem send (h : Gapless s) (hs : s.sender = .idle) : Gapless (s.send c x) := by
  refine h.aside (p := .look x) (by simp [hs, SendPc.Open]) id ?_ ?_
  · rw [TxRing.send]
    split
    · exact descs_processTxComplete true
    · rfl
  · rw [TxRing.send]
    split
    · exact sender_processTxComplete true
    · rfl

theorem look (h : Gapless s) (hs : s.sender = .look x) (valid : Bool) : Gapless (s.look c x valid) := by
  have ho : ¬s.sender.Open := by simp [hs, SendPc.Open]
  rw [TxRing.look]
  split
  · exact h.aside (p := .idle) ho id rfl rfl
  · dsimp only
    split
    · exact h.aside (p := .map x) ho id rfl rfl
    · exact h.aside (p := .idle) ho id rfl rfl

theorem map (h : Gapless s) (hs : s.sender = .map x) (ok : Bool) : Gapless (s.map x ok) := by
  have ho : ¬s.sender.Open := by simp [hs, SendPc.Open]
  rw [TxRing.map]
  split
  · exact h.aside (p := .attach x) ho id rfl rfl
  · exact h.aside (p := .idle) ho id rfl rfl

/-- The pointer is advanced, and written. -/
theorem publish (hn : none ∉ s.descs) {writes ok : Bool} (hok : ¬(writes = true ∧ ok = false)) :
    Gapless (s.publish c x i writes ok) := by
  rw [TxRing.publish]
  dsimp only
  rw [if_neg hok]
  exact ⟨hn, fun _ _ hu => by simp at hu⟩

section

variable (h : Gapless s)

include h

theorem attach (hs : s.sender = .attach x) {ok : Bool} (hok : x.kind = .data → ok = true) :
    Gapless (s.attach c x ok) := by
  have hn := h.solid
  rw [settled, hs] at hn
  have hn' : none ∉ (s.attachBuf c x).descs := by simpa [attachBuf] using hn
  rw [TxRing.attach]
  split
  · next hk => exact publish hn' (by simp [hok hk])
  · exact ⟨by simpa [settled, attachBuf] using hn, fun _ _ hu => by simp at hu⟩

theorem fill (hi : RingInv c s) (hs : s.sender = .fill x i) {desc ok : Bool}
    (hok : x.kind = .adma true → desc = true → ok = true) : Gapless (s.fill c x i desc ok) := by
  have hat := hi.send
  rw [hs] at hat
  obtain ⟨l, hl, -, -⟩ := hat
  have hn := h.solid
  rw [settled, hs, hl] at hn
  have hl' : none ∉ l := by simpa using hn
  rw [TxRing.fill]
  split
  · next hdesc =>
    refine publish (by simpa [hl] using hl') ?_
    rintro ⟨hk, hno⟩
    exact absurd ((hok (of_decide_eq_true hk) hdesc).symm.trans hno) (by decide)
  · exact ⟨by simpa [settled, hl] using hl', fun _ _ hu => by simp at hu⟩

theorem undo {advanced : Bool} (hs : s.sender = .undo x i advanced) : Gapless (s.undo x i advanced) := by
  have hn := h.solid
  rw [settled, hs] at hn
  cases advanced with
  | true => exact absurd hs (h.advances x i)
  | false => exact ⟨hn, fun _ _ hu => by simp [TxRing.undo, fail] at hu⟩

theorem recheck (hs : s.sender = .recheck x) : Gapless (s.recheck c aw693 x) := by
  have ho : ¬s.sender.Open := by simp [hs, SendPc.Open]
  rw [TxRing.recheck]
  dsimp only
  split
  · split
    · exact h.aside (p := .finish x) ho id (descs_processTxComplete true) (sender_processTxComplete true)
    · exact h.aside (p := .finish x) ho id rfl rfl
  · exact h.aside (p := .finish x) ho id (descs_processTxComplete true) (sender_processTxComplete true)

theorem completeRead {k : Completer} {value : Option ℕ} (hs : s.completeRead c k value = some s') :
    Gapless s' := by
  unfold TxRing.completeRead at hs
  split at hs
  · exact some.inj hs ▸ h.frame rfl rfl
  · split at hs
    · exact some.inj hs ▸ h.frame rfl rfl
    · obtain ⟨-, hs⟩ := ite_none_right_eq_some.mp hs
      exact some.inj hs ▸ h.frame rfl rfl

theorem completeOne (k : Completer) (rdptr : ℕ) (unmapped : Bool) :
    Gapless (s.completeOne c k rdptr unmapped) := by
  rw [TxRing.completeOne]
  split
  · dsimp only
    split
    · exact h.frame rfl rfl
    · split
      · exact h.frame rfl rfl
      · exact h.frame rfl rfl
  · exact h.frame rfl rfl

theorem completeDone (k : Completer) : Gapless (s.completeDone c aw693 k) := by
  rw [TxRing.completeDone]
  dsimp only
  split
  · split
    · exact h.frame rfl rfl
    · exact h.frame rfl rfl
  · split
    · exact h.frame rfl rfl
    · exact h.frame rfl rfl

theorem step (hi : RingInv c s) {op : Op B} (hc : op.Clean s) (hs : s.step c aw693 op = some s') :
    Gapless s' := by
  cases op with
  | send x =>
    cases hp : s.sender with
    | idle =>
      simp only [TxRing.step, hp] at hs
      obtain ⟨-, hs⟩ := ite_none_right_eq_some.mp hs
      exact some.inj hs ▸ h.send hp
    | _ => simp [TxRing.step, hp] at hs
  | look valid =>
    cases hp : s.sender with
    | look x =>
      simp only [TxRing.step, hp] at hs
      obtain ⟨-, hs⟩ := ite_none_right_eq_some.mp hs
      exact some.inj hs ▸ h.look hp valid
    | _ => simp [TxRing.step, hp] at hs
  | map ok =>
    cases hp : s.sender with
    | map x =>
      simp only [TxRing.step, hp] at hs
      exact some.inj hs ▸ h.map hp ok
    | _ => simp [TxRing.step, hp] at hs
  | attach ok =>
    cases hp : s.sender with
    | attach x =>
      simp only [TxRing.step, hp] at hs
      exact some.inj hs ▸ h.attach hp fun hk => hc (by simp [hp, SendPc.publishes, hk])
    | _ => simp [TxRing.step, hp] at hs
  | fill desc ok =>
    cases hp : s.sender with
    | fill x i =>
      simp only [TxRing.step, hp] at hs
      exact some.inj hs ▸ h.fill hi hp fun hk => hc (by simp [hp, SendPc.publishes, hk])
    | _ => simp [TxRing.step, hp] at hs
  | undo =>
    cases hp : s.sender with
    | undo x i advanced =>
      simp only [TxRing.step, hp] at hs
      exact some.inj hs ▸ h.undo hp
    | _ => simp [TxRing.step, hp] at hs
  | recheck =>
    cases hp : s.sender with
    | recheck x =>
      simp only [TxRing.step, hp] at hs
      exact some.inj hs ▸ h.recheck hp
    | _ => simp [TxRing.step, hp] at hs
  | finish =>
    cases hp : s.sender with
    | finish x =>
      simp only [TxRing.step, hp] at hs
      obtain ⟨-, hs⟩ := ite_none_right_eq_some.mp hs
      exact some.inj hs ▸ h.aside (p := .idle) (by simp [hp, SendPc.Open]) id rfl rfl
    | _ => simp [TxRing.step, hp] at hs
  | irq => exact some.inj hs ▸ h.frame (descs_processTxComplete false) (sender_processTxComplete false)
  | completeRead value =>
    simp only [TxRing.step] at hs
    split at hs
    · exact h.completeRead hs
    · simp at hs
  | completeOne unmapped =>
    simp only [TxRing.step] at hs
    split at hs
    · exact some.inj hs ▸ h.completeOne _ _ unmapped
    · simp at hs
  | completeDone =>
    simp only [TxRing.step] at hs
    split at hs
    · exact some.inj hs ▸ h.completeDone _
    · simp at hs
  | card n =>
    obtain ⟨-, hs⟩ := ite_none_right_eq_some.mp hs
    exact some.inj hs ▸ h.frame rfl rfl

end

theorem of_init (h : s.Init c) : Gapless s := by
  obtain ⟨-, -, -, -, hs, -, -, -, hdescs, -⟩ := h
  refine ⟨?_, fun _ _ => by simp [hs]⟩
  rw [settled, hs, hdescs]
  exact not_mem_nil

end Gapless

theorem map_some_filterMap : ∀ {l : List (Option B)}, none ∉ l → (l.filterMap id).map some = l
  | [], _ => rfl
  | none :: l, h => absurd mem_cons_self h
  | some b :: l, h => by
    have ih := map_some_filterMap fun hm => h (mem_cons_of_mem (some b) hm)
    simpa using ih

namespace Gapless

/-- Between two sends the descriptors are those of the accepted buffers. -/
theorem descs_eq (h : Gapless s) (hi : RingInv c s) (hs : s.sender = .idle) : s.descs = s.accepted.map some := by
  have ho : ¬s.sender.Open := by simp [hs, SendPc.Open]
  have hset := RingInv.settled_of_not_open ho
  rw [hi.accepted, map_some_filterMap h.solid, hset]

theorem rd_eq (h : Gapless s) (hi : RingInv c s) (hs : s.sender = .idle) : s.rd = s.completed.length := by
  have hdescs := h.descs_eq hi hs
  have hle := hi.rd_le_length
  rw [hi.completed, hdescs, ← map_take, filterMap_map]
  simp only [Function.comp_def, id_eq, filterMap_some, length_take]
  rw [hdescs, length_map] at hle
  omega

/-- A send that fails is not among the accepted ones. -/
theorem accepted_eq (hi : RingInv c s) (hi' : RingInv c s') (hs : s.sender = .idle) (hs' : s'.sender = .idle) {b : B}
    (hr : s'.returned = s.returned ++ [(b, false)]) : s'.accepted = s.accepted := by
  rw [hi.returned, hi'.returned, hr, hs, hs']
  simp

end Gapless

/-- **The transmit ring.** In runs in which no write of the pointer register fails : the slots, the count and the test for a
full ring are exact, each accepted buffer is completed once and behind the card, and a send that reports a failure leaves the
pointer, and but for what a completion took out meanwhile the slots and the count, as they were. -/
theorem tx_ring_undone (h : (txRingSystem B c aw693).ReachableWhen (fun s op => op.Clean s) s) :
    s.Exact c ∧ ∀ s' b, (txRingSystem B c aw693).ReachableWhen (fun s op => op.Clean s) s' →
      s.sender = .idle → s'.sender = .idle → s'.returned = s.returned ++ [(b, false)] →
        s'.txbdWrptr = s.txbdWrptr ∧ (s'.completed = s.completed → s'.unmapped = s.unmapped →
          s'.txbdPending = s.txbdPending ∧ ∀ i < c.txrxBdSize, s'.txBufList i = s.txBufList i) := by
  have hboth : ∀ {t : TxRing B}, (txRingSystem B c aw693).ReachableWhen (fun s op => op.Clean s) t →
      RingInv c t ∧ Gapless t := fun ht =>
    ht.invariant (I := fun t => RingInv c t ∧ Gapless t) (fun _ hinit => ⟨RingInv.of_init hinit, Gapless.of_init hinit⟩)
      fun _ _ _ hi hc hs => ⟨hi.1.step hs, hi.2.step hi.1 hc hs⟩
  obtain ⟨hi, hg⟩ := hboth h
  refine ⟨hi.exact, fun s' b h' hs hs' hr => ?_⟩
  obtain ⟨hi', hg'⟩ := hboth h'
  have hdescs : s'.descs = s.descs := by
    rw [hg.descs_eq hi hs, hg'.descs_eq hi' hs', Gapless.accepted_eq hi hi' hs hs' hr]
  refine ⟨?_, fun hcomp hunm => ?_⟩
  · rw [hi.wrptr, hi'.wrptr, wr, wr, hs, hs', hdescs]
  · have hrd : s'.rd = s.rd := by rw [hg.rd_eq hi hs, hg'.rd_eq hi' hs', hcomp]
    refine ⟨by rw [hi.pending, hi'.pending, hdescs, hrd, hunm], fun i hlt => ?_⟩
    obtain ⟨k, hk, rfl⟩ := exists_add_mod_eq s.rd hlt
    have hslot := hi'.ring.slots k hk
    rw [hrd, hdescs] at hslot
    rw [hslot, hi.ring.slots k hk]

/-- The ring as it was created. -/
def created (B : Type*) : TxRing B :=
  ⟨0, 0, fun _ => none, 0, false, 0, false, .idle, none, 0, 0, [], 0, [], [], []⟩

theorem created_init : (created B).Init c :=
  ⟨rfl, rfl, fun _ _ => rfl, rfl, rfl, rfl, rfl, rfl, rfl, rfl, rfl, rfl, rfl⟩

/-- A buffer is sent on ADMA in one of several parts, while nothing is pending. -/
def partRun (eop : Bool) (b : B) : List (Op B) :=
  [.send ⟨.adma eop, b⟩, .look true, .map true, .attach true, .fill true true, .recheck, .finish]

/-- The completion, which finds the read pointer of the card at position `n` of the first turn, and runs `k` iterations. -/
def completeRun (n k : ℕ) : List (Op B) :=
  [Op.completeRead (some (n <<< 16))] ++ List.replicate k (Op.completeOne true) ++ [Op.completeDone]

/-- A buffer is sent and completed, one more is sent, and the write of the pointer register fails for the third. -/
theorem tx_ring_exact_attach : ∃ s : TxRing ℕ, s.accepted = [5, 6] ∧ s.completed = [5] ∧
    s.returned = [(5, true), (6, true), (7, false)] ∧ s.Exact config8997 := by
  obtain ⟨s, hs, hp⟩ := exists_reachable_of_run (M := txRingSystem ℕ config8997 false)
    (P := fun s => decide (s.accepted = [5, 6] ∧ s.completed = [5] ∧ s.returned = [(5, true), (6, true), (7, false)]))
    (l := [.send ⟨.data, 5⟩, .look true, .map true, .attach true, .recheck, .finish, .card 1, .irq] ++ completeRun 1 2 ++
      [.send ⟨.data, 6⟩, .look true, .map true, .attach true, .recheck, .finish, .send ⟨.data, 7⟩, .look true, .map true,
        .attach false, .undo])
    (s := created ℕ) created_init (by decide +kernel)
  obtain ⟨hacc, hcomp, hret⟩ := of_decide_eq_true hp
  exact ⟨s, hacc, hcomp, hret, tx_ring_exact hs⟩

/-- Two parts, the completion of the first one, and a buffer that cannot be mapped. -/
theorem tx_ring_undone_map : ∃ s s' : TxRing ℕ,
    (txRingSystem ℕ configAdma true).ReachableWhen (fun s op => op.Clean s) s ∧ s.accepted = [5, 6] ∧ s.completed = [5] ∧
      s'.returned = s.returned ++ [(7, false)] ∧ s.Exact configAdma ∧ s'.txbdWrptr = s.txbdWrptr ∧
        s'.txbdPending = s.txbdPending ∧ ∀ i < configAdma.txrxBdSize, s'.txBufList i = s.txBufList i := by
  obtain ⟨s, hs, hp⟩ := exists_reachableWhen_of_runWhen (M := txRingSystem ℕ configAdma true)
    (C := fun s op => op.Clean s)
    (P := fun s => decide (s.accepted = [5, 6] ∧ s.completed = [5] ∧ s.sender = .idle ∧ s.unmapped = 0 ∧
      s.returned = [(5, true), (6, true)]))
    (l := partRun false 5 ++ partRun true 6 ++ [Op.card 1, .irq] ++ completeRun 1 2) (s := created ℕ) (.init created_init)
    (by decide +kernel)
  obtain ⟨s', hs', hp'⟩ := exists_reachableWhen_of_runWhen (M := txRingSystem ℕ configAdma true)
    (C := fun s op => op.Clean s)
    (P := fun s => decide (s.completed = [5] ∧ s.sender = .idle ∧ s.unmapped = 0 ∧
      s.returned = [(5, true), (6, true), (7, false)]))
    (l := partRun false 5 ++ partRun true 6 ++ [Op.card 1, .irq] ++ completeRun 1 2 ++ [Op.send ⟨.data, 7⟩] ++
      completeRun 1 1 ++ [Op.look true, .map false]) (s := created ℕ) (.init created_init) (by decide +kernel)
  obtain ⟨hacc, hcomp, hidle, hunm, hret⟩ := of_decide_eq_true hp
  obtain ⟨hcomp', hidle', hunm', hret'⟩ := of_decide_eq_true hp'
  have hr : s'.returned = s.returned ++ [(7, false)] := by rw [hret, hret']; rfl
  have hring := tx_ring_undone hs
  obtain ⟨hw, hrest⟩ := hring.2 s' 7 hs' hidle hidle' hr
  exact ⟨s, s', hs, hacc, hcomp, hr, hring.1, hw, hrest (hcomp'.trans hcomp.symm) (hunm'.trans hunm.symm)⟩

/-- Behind a write of the pointer register that fails, the pointer of the driver stays advanced. -/
theorem tx_ring_not_undone :
    (∃ s, (txRingSystem ℕ config8997 false).Reachable s ∧ s.sender = .idle ∧ s.returned = [(5, false)] ∧
      s.txbdWrptr = 1) ∧
    ¬∀ s s' b, (txRingSystem ℕ config8997 false).Reachable s → (txRingSystem ℕ config8997 false).Reachable s' →
      s.sender = .idle → s'.sender = .idle → s'.returned = s.returned ++ [(b, false)] → s'.txbdWrptr = s.txbdWrptr := by
  have hfail : ∃ s, (txRingSystem ℕ config8997 false).Reachable s ∧ s.sender = .idle ∧ s.returned = [(5, false)] ∧
      s.txbdWrptr = 1 := by
    obtain ⟨s, hs, hp⟩ := exists_reachable_of_run (M := txRingSystem ℕ config8997 false)
      (P := fun s => decide (s.sender = .idle ∧ s.returned = [(5, false)] ∧ s.txbdWrptr = 1))
      (l := [.send ⟨.data, 5⟩, .look true, .map true, .attach false, .undo]) (s := created ℕ) created_init
      (by decide +kernel)
    exact ⟨s, hs, of_decide_eq_true hp⟩
  refine ⟨hfail, fun h => ?_⟩
  obtain ⟨s, hs, hidle, hret, hw⟩ := hfail
  have h0 := h (created ℕ) s 5 (.init created_init) hs rfl hidle hret
  exact absurd (hw.symm.trans h0) (by decide)

end TxRing

end WlanDriver.Pcie
