import WlanDriver.Lib.Memory
import WlanDriver.Lib.System

/-!
# Firmware download on USB

`wlan_usb_prog_fw_w_helper` asks whether USB is the winner of the download, sends the blocks of the custom data and then those of
the image, each until the device takes it, and on a MIC error goes back to the start of the image. A step is what comes before
the loop, the loading of a block, or a transfer with what the device answers. History : what was read of the image, what was
copied to the transmit buffer, and the blocks that were acknowledged, with the answers.

What is returned is not what happened : at the end `ret` is made a success where retries are left. `download_truthful` : runs
whose steps are `Clean` end, read inside the image, copy inside the buffer, and are a success only where USB is not the winner or
the blocks of the image were acknowledged in their order up to the last.
-/

namespace WlanDriver.Usb

open List

def fwDnldTxBufSize : ℕ := 2312

/-- `sizeof(FWHeader)`. -/
def sizeofFWHeader : ℕ := 16

/-- Where `data` is in `FWData`, behind the header and the sequence number. -/
def offsetofData : ℕ := 20

def maxFwRetry : ℕ := 3

/-- `FWSyncHeader`, as far as it is looked at. -/
structure FwSyncHeader where
  cmd : UInt32
  status : UInt32
  deriving DecidableEq

/-- A block in the transmit buffer : where it is from, with the octets of the image or of a custom buffer. -/
structure FwBlock where
  source : Option ℕ
  offset : ℕ
  dnldCmd : ℕ
  dataLength : ℕ
  deriving DecidableEq

/-- Where a run is : before the loop, at its head, in the loop over the retries, or through. -/
inductive FwPlace
  | prepare
  | load
  | retry
  | done
  deriving DecidableEq

/-- What comes before the loop : all is there, or what is not. -/
inductive FwPrepared
  | ready
  | noImage
  | noTxBuff
  | noRecvBuff
  | noRevision
  | noCustomData
  deriving DecidableEq

/-- The variables. `source` is `firmware` : the image, or a custom buffer; `block` and `seqNum` are what the transmit buffer has,
`success` is whether `ret` is `MLAN_STATUS_SUCCESS`. -/
structure FwState where
  place : FwPlace
  source : Option ℕ
  retries : ℕ
  micRetry : ℕ
  fwSeqNum : UInt32
  totalBytes : ℕ
  dnldCmd : ℕ
  dataLength : ℕ
  checkWinner : Bool
  fwDataParam : Bool
  fwDataIndex : ℕ
  block : FwBlock
  seqNum : UInt32
  success : Bool
  notWinner : Bool
  imageReads : List Span
  copies : List Span
  acked : List (FwBlock × FwSyncHeader)

/-- A step : what comes before the loop, the loading of a block, or a transfer with the header of the answer, `none` if the
transfer failed. -/
inductive FwLabel
  | prepare (outcome : FwPrepared)
  | load
  | transfer (answer : Option FwSyncHeader)

/-- What a call is given : the image, its length, the custom buffers, each of which may be missing, whether the winner is asked
for, and whether the card tells of errors in its status. -/
structure UsbFw where
  image : Mem
  fwLen : UInt32
  custom : List (Option Mem)
  newInit : Bool
  checkFwStatus : Bool

/-- How an answer is understood. -/
inductive FwVerdict
  | seBoot
  | crc
  | mic
  | good
  deriving DecidableEq

/-- `FW_HAS_LAST_BLOCK`, or `FW_CMD_21` without data. -/
def LastBlock (dnldCmd dataLength : ℕ) : Prop :=
  dnldCmd = 4 ∨ dnldCmd = 21 ∧ dataLength = 0
  deriving Decidable

/-- A number of 32 bits, low octet first. -/
def le32 (m : Mem) (a : ℕ) : ℕ :=
  (m a).toNat + 256 * (m (a + 1)).toNat + 65536 * (m (a + 2)).toNat + 16777216 * (m (a + 3)).toNat

/-- `dnld_cmd` of the header at `a`. -/
def dnldCmdAt (m : Mem) (a : ℕ) : ℕ :=
  le32 m a

/-- `DataLength` of the block at `a`; `FW_CMD_4`, `FW_CMD_6`, `FW_CMD_7` and `FW_CMD_10` have none. -/
def dataLengthAt (m : Mem) (a : ℕ) : ℕ :=
  if dnldCmdAt m a = 4 ∨ dnldCmdAt m a = 6 ∨ dnldCmdAt m a = 7 ∨ dnldCmdAt m a = 10 then 0 else le32 m (a + 8)

/-- `MBIT(6) | MBIT(7)` of the status. -/
def FwSyncHeader.micError (h : FwSyncHeader) : Bool :=
  h.status.toNat.testBit 6 || h.status.toNat.testBit 7

/-- The device took the block : its status has no CRC, MIC or secure-boot error, or, where it has no status, its command is 0. -/
def FwSyncHeader.ErrorFree (checkFwStatus : Bool) (h : FwSyncHeader) : Prop :=
  if checkFwStatus then h.status.toNat.testBit 0 = false ∧ h.micError = false ∧ h.status.toNat.testBit 9 = false
  else h.cmd = 0

instance (checkFwStatus : Bool) (h : FwSyncHeader) : Decidable (h.ErrorFree checkFwStatus) := by
  delta FwSyncHeader.ErrorFree
  infer_instance

namespace UsbFw

variable (p : UsbFw)

/-- The octets that `firmware` points to. Without a buffer they are asked for with `moal_get_fw_data`, which has those of the
image. -/
def octets : Option ℕ → Mem
  | none => p.image
  | some i => (p.custom.getD i none).getD p.image

/-- The block at `a` of `source`. -/
def blockAt (source : Option ℕ) (a : ℕ) : FwBlock where
  source := source
  offset := a
  dnldCmd := dnldCmdAt (p.octets source) a
  dataLength := dataLengthAt (p.octets source) a

/-- What the answer to a block says. -/
def verdict (h : FwSyncHeader) : FwVerdict :=
  if p.checkFwStatus ∧ h.status.toNat.testBit 9 then .seBoot
  else if h.cmd ≠ 0 then
    if p.checkFwStatus then
      if h.status.toNat.testBit 0 then .crc else if h.micError then .mic else .good
    else .crc
  else .good

def cleanup (s : FwState) : FwState :=
  { s with place := .done, success := if s.retries ≠ 0 ∧ s.micRetry ≠ 0 then true else s.success }

/-- The next custom buffer, or the image when all were sent. -/
def nextFwData (s : FwState) : FwState :=
  if s.fwDataParam then
    match p.custom[s.fwDataIndex]? with
    | some buffer =>
      { s with
          source := buffer.map fun _ => s.fwDataIndex
          totalBytes := 0
          fwDataIndex := s.fwDataIndex + 1 }
    | none => { s with source := none, fwSeqNum := 0, totalBytes := 0, fwDataParam := false, fwDataIndex := 0 }
  else s

/-- The checks at the end of the loop. -/
def endOfLoop (s : FwState) : FwState :=
  if s.dnldCmd = 21 ∧ s.dataLength = 0 ∨ p.fwLen.toNat ≤ s.totalBytes then cleanup s
  else if s.dnldCmd ≠ 4 ∧ s.retries ≠ 0 ∧ s.micRetry ≠ 0 then { s with place := .load }
  else cleanup s

/-- What follows the loop over the retries. -/
def afterRetries (s : FwState) : FwState :=
  p.endOfLoop (p.nextFwData { s with fwSeqNum := s.fwSeqNum + 1 })

/-- The head of the loop over the retries. -/
def retryLoop (s : FwState) : FwState :=
  if s.retries = 0 then p.afterRetries s else { s with place := .retry }

/-- A block is loaded, or the probe for the winner. -/
def load (s : FwState) : FwState :=
  if s.checkWinner then p.retryLoop { s with dataLength := 0 }
  else
    let b := p.blockAt s.source s.totalBytes
    let data := (s.totalBytes + sizeofFWHeader) % 2 ^ 32
    let s := { s with
      dnldCmd := b.dnldCmd
      dataLength := b.dataLength
      totalBytes := data
      imageReads := if s.source = none then s.imageReads ++ [Span.mk s.totalBytes sizeofFWHeader] else s.imageReads
      copies := s.copies ++ [Span.mk 0 sizeofFWHeader] }
    if fwDnldTxBufSize - sizeofFWHeader < b.dataLength then cleanup { s with success := false }
    else p.retryLoop { s with
      block := b
      seqNum := s.fwSeqNum
      totalBytes := (data + b.dataLength) % 2 ^ 32
      imageReads := if s.source = none then s.imageReads ++ [Span.mk data b.dataLength] else s.imageReads
      copies := s.copies ++ [Span.mk offsetofData b.dataLength] }

/-- A transfer, and what the answer makes of it. The counter of MIC errors has 8 bits. -/
def transfer (answer : Option FwSyncHeader) (s : FwState) : FwState :=
  let s := { s with retries := s.retries - 1 }
  match answer with
  | none => p.retryLoop { s with success := false }
  | some h =>
    if s.checkWinner then
      if h.cmd.toNat.testBit 31 then cleanup { s with success := true, notWinner := true }
      else p.afterRetries { s with success := true, checkWinner := false }
    else match p.verdict h with
      | .seBoot => p.afterRetries { s with success := false, retries := 0 }
      | .crc => p.retryLoop { s with success := false }
      | .mic =>
        p.retryLoop { s with success := false, micRetry := (s.micRetry + 255) % 256, fwSeqNum := 0, totalBytes := 0 }
      | .good => p.afterRetries { s with success := true, retries := maxFwRetry, acked := s.acked ++ [(s.block, h)] }

/-- What comes before the loop. Where custom data are missing `ret` is still a success. -/
def prepare : FwPrepared → FwState → FwState
  | .ready, s => { s with place := .load }
  | .noImage, s | .noTxBuff, s => { s with place := .done, success := false }
  | .noRecvBuff, s | .noRevision, s => cleanup { s with success := false }
  | .noCustomData, s => cleanup s

/-- The variables at the start. -/
def start : FwState where
  place := .prepare
  source := none
  retries := maxFwRetry
  micRetry := maxFwRetry
  fwSeqNum := 0
  totalBytes := 0
  dnldCmd := 0
  dataLength := 0
  checkWinner := p.newInit
  fwDataParam := !p.custom.isEmpty
  fwDataIndex := 0
  block := ⟨none, 0, 0, 0⟩
  seqNum := 0
  success := true
  notWinner := false
  imageReads := []
  copies := []
  acked := []

/-- `wlan_usb_prog_fw_w_helper`, step by step. -/
def system : System FwState FwLabel where
  init s := s = p.start
  step s a :=
    match s.place, a with
    | .prepare, .prepare outcome => some (prepare outcome s)
    | .load, .load => some (p.load s)
    | .retry, .transfer answer => some (p.transfer answer s)
    | _, _ => none

/-! ## What a run should do -/

/-- The blocks of the image from `a` on, up to the last. -/
inductive ImageBlocks : ℕ → List FwBlock → Prop
  | stop {a : ℕ} (h : p.fwLen.toNat ≤ a) : ImageBlocks a []
  | last {a : ℕ} (h : a < p.fwLen.toNat) (hlast : LastBlock (dnldCmdAt p.image a) (dataLengthAt p.image a)) :
      ImageBlocks a [p.blockAt none a]
  | more {a : ℕ} {l : List FwBlock} (h : a < p.fwLen.toNat)
      (hlast : ¬ LastBlock (dnldCmdAt p.image a) (dataLengthAt p.image a))
      (hmore : ImageBlocks (a + sizeofFWHeader + dataLengthAt p.image a) l) : ImageBlocks a (p.blockAt none a :: l)

/-- All blocks of the image were acknowledged without an error, in their order. -/
def AllAcked (s : FwState) : Prop :=
  ∃ before l, s.acked = before ++ l ∧ p.ImageBlocks 0 (l.map Prod.fst) ∧ ∀ e ∈ l, e.2.ErrorFree p.checkFwStatus

/-- The image was read in its length, the transmit buffer was written in its size, and a success is one. -/
structure Truthful (s : FwState) : Prop where
  reads : ∀ r ∈ s.imageReads, r.Inside 0 p.fwLen.toNat
  copies : ∀ c ∈ s.copies, c.Inside 0 fwDnldTxBufSize
  success : s.place = .done → s.success = true → s.notWinner = true ∨ p.AllAcked s

/-- The block that is loaded fits : into the buffer, and of the image into what it has; and the custom data have no last block. -/
def Fits (s : FwState) : Prop :=
  offsetofData + (p.blockAt s.source s.totalBytes).dataLength ≤ fwDnldTxBufSize ∧
    if s.source = none then
      s.totalBytes + sizeofFWHeader + (p.blockAt s.source s.totalBytes).dataLength ≤ p.fwLen.toNat
    else ¬ LastBlock (p.blockAt s.source s.totalBytes).dnldCmd (p.blockAt s.source s.totalBytes).dataLength

instance (s : FwState) : Decidable (p.Fits s) := by
  delta Fits
  infer_instance

/-- Steps after which the end tells the truth. What comes before the loop succeeds, or fails with no buffer to release. What
is loaded fits. The probe is not answered at the last try. After as many MIC errors as there may be there is no further one, and
no block is taken but a last one; and a command of 0 comes without an error in the status. -/
def Clean (s : FwState) : FwLabel → Prop
  | .prepare outcome => outcome = .ready ∨ outcome = .noImage ∨ outcome = .noTxBuff
  | .load => s.checkWinner = false → p.Fits s
  | .transfer none => True
  | .transfer (some h) =>
    if s.checkWinner then h.cmd.toNat.testBit 31 = false → s.retries ≠ 1
    else (p.verdict h = .mic → s.micRetry ≠ 0) ∧
      (p.verdict h = .good → h.ErrorFree p.checkFwStatus ∧ (s.micRetry = 0 → LastBlock s.dnldCmd s.dataLength))

instance : ∀ (s : FwState) (a : FwLabel), Decidable (p.Clean s a)
  | _, .prepare _ => inferInstanceAs (Decidable (_ ∨ _))
  | _, .load => inferInstanceAs (Decidable (_ → _))
  | _, .transfer none => inferInstanceAs (Decidable True)
  | s, .transfer (some h) => by
    change Decidable (if s.checkWinner then _ else _)
    infer_instance

/-! ## Blocks of the image -/

/-- The first blocks of the image, up to `a`, none of them a last one. -/
inductive Sent : List FwBlock → ℕ → Prop
  | nil : Sent [] 0
  | block {l : List FwBlock} {a : ℕ} (h : Sent l a) (hlt : a < p.fwLen.toNat)
      (hlast : ¬ LastBlock (dnldCmdAt p.image a) (dataLengthAt p.image a)) :
      Sent (l ++ [p.blockAt none a]) (a + sizeofFWHeader + dataLengthAt p.image a)

/-- The blocks of the image before `a` were acknowledged. -/
def AckedTo (s : FwState) (a : ℕ) : Prop :=
  ∃ before l, s.acked = before ++ l ∧ p.Sent (l.map Prod.fst) a

variable {p} {s t : FwState} {a : ℕ} {l l' : List FwBlock} {answer : Option FwSyncHeader} {h : FwSyncHeader}

theorem Sent.imageBlocks (hsent : p.Sent l a) (hrest : p.ImageBlocks a l') : p.ImageBlocks 0 (l ++ l') := by
  induction hsent generalizing l' with
  | nil => exact hrest
  | block _ hlt hlast ih =>
    rw [append_assoc]
    exact ih (.more hlt hlast hrest)

theorem ackedTo_zero (s : FwState) : p.AckedTo s 0 :=
  ⟨s.acked, [], by simp, .nil⟩

/-- Behind the end of the image all was acknowledged. -/
theorem AckedTo.allAcked (hacked : p.AckedTo s a) (hend : p.fwLen.toNat ≤ a)
    (herr : ∀ e ∈ s.acked, e.2.ErrorFree p.checkFwStatus) : p.AllAcked s := by
  obtain ⟨before, l, heq, hsent⟩ := hacked
  refine ⟨before, l, heq, ?_, fun e he => herr e (by simp [heq, he])⟩
  rw [← append_nil (l.map Prod.fst)]
  exact hsent.imageBlocks (.stop hend)

theorem AckedTo.block (hacked : p.AckedTo s a) (ht : t.acked = s.acked ++ [(p.blockAt none a, h)])
    (hlt : a < p.fwLen.toNat) (hlast : ¬ LastBlock (dnldCmdAt p.image a) (dataLengthAt p.image a)) :
    p.AckedTo t (a + sizeofFWHeader + dataLengthAt p.image a) := by
  obtain ⟨before, l, heq, hsent⟩ := hacked
  refine ⟨before, l ++ [(p.blockAt none a, h)], by rw [ht, heq, append_assoc], ?_⟩
  rw [map_append]
  exact hsent.block hlt hlast

theorem AckedTo.last (hacked : p.AckedTo s a) (ht : t.acked = s.acked ++ [(p.blockAt none a, h)])
    (hlt : a < p.fwLen.toNat) (hlast : LastBlock (dnldCmdAt p.image a) (dataLengthAt p.image a))
    (herr : ∀ e ∈ t.acked, e.2.ErrorFree p.checkFwStatus) : p.AllAcked t := by
  obtain ⟨before, l, heq, hsent⟩ := hacked
  have heq' : t.acked = before ++ (l ++ [(p.blockAt none a, h)]) := by rw [ht, heq, append_assoc]
  refine ⟨before, _, heq', ?_, fun e he => herr e (by rw [heq']; exact mem_append_right before he)⟩
  rw [map_append]
  exact hsent.imageBlocks (.last hlt hlast)

/-! ## What runs keep -/

/-- What holds at all places. -/
structure Core (p : UsbFw) (s : FwState) : Prop where
  reads : ∀ r ∈ s.imageReads, r.Inside 0 p.fwLen.toNat
  copies : ∀ c ∈ s.copies, c.Inside 0 fwDnldTxBufSize
  errorFree : ∀ e ∈ s.acked, e.2.ErrorFree p.checkFwStatus
  retries_le : s.retries ≤ maxFwRetry
  micRetry_lt : s.micRetry < 256
  custom : s.source ≠ none → s.fwDataParam = true

/-- Nothing is read, copied or acknowledged, and the source stays. -/
theorem Core.keep (hs : Core p s) (hretries : t.retries ≤ maxFwRetry)
    (ht : t = { s with
      place := t.place, retries := t.retries, success := t.success, checkWinner := t.checkWinner,
      notWinner := t.notWinner, dataLength := t.dataLength, fwSeqNum := t.fwSeqNum }) : Core p t := by
  rw [ht]
  exact ⟨hs.reads, hs.copies, hs.errorFree, hretries, hs.micRetry_lt, hs.custom⟩

/-- While the winner is asked for nothing was loaded. -/
def Probing (s : FwState) : Prop :=
  s.checkWinner = true → s.source = none ∧ s.totalBytes = 0 ∧ s.dnldCmd = 0 ∧ s.micRetry ≠ 0

/-- At the head of the loop. -/
structure Loading (p : UsbFw) (s : FwState) : Prop where
  retries_ne : s.retries ≠ 0
  probing : Probing s
  total : s.fwDataParam = true → s.totalBytes = 0
  acked : s.source = none → p.AckedTo s s.totalBytes

/-- A block of the image is in the buffer. A MIC error sets `TotalBytes` back. -/
structure SendingImage (p : UsbFw) (s : FwState) : Prop where
  block_eq : s.block = p.blockAt none s.block.offset
  lt : s.block.offset < p.fwLen.toNat
  acked : p.AckedTo s s.block.offset
  total : s.totalBytes = s.block.offset + sizeofFWHeader + s.block.dataLength ∨ s.totalBytes = 0

theorem SendingImage.congr (hs : SendingImage p s) (hblock : t.block = s.block) (hacked : t.acked = s.acked)
    (htotal : t.totalBytes = s.totalBytes ∨ t.totalBytes = 0) : SendingImage p t where
  block_eq := by
    rw [hblock]
    exact hs.block_eq
  lt := by
    rw [hblock]
    exact hs.lt
  acked := by
    obtain ⟨before, l, heq, hsent⟩ := hs.acked
    rw [hblock]
    exact ⟨before, l, hacked.trans heq, hsent⟩
  total := by
    rw [hblock]
    rcases htotal with htotal | htotal
    · rw [htotal]
      exact hs.total
    · exact .inr htotal

/-- In the loop over the retries. -/
structure Sending (p : UsbFw) (s : FwState) : Prop where
  retries_ne : s.retries ≠ 0
  probing : Probing s
  dnldCmd_eq : s.checkWinner = false → s.dnldCmd = s.block.dnldCmd
  dataLength_eq : s.checkWinner = false → s.dataLength = s.block.dataLength
  custom : s.checkWinner = false → s.source ≠ none → ¬ LastBlock s.dnldCmd s.dataLength
  image : s.checkWinner = false → s.source = none → SendingImage p s

/-- What holds at the place of a run. -/
def AtPlace (p : UsbFw) (s : FwState) : Prop :=
  match s.place with
  | .prepare => s = p.start
  | .load => Loading p s
  | .retry => Sending p s
  | .done => s.success = true → s.notWinner = true ∨ p.AllAcked s

/-- What every run keeps. -/
structure Inv (p : UsbFw) (s : FwState) : Prop where
  core : Core p s
  atPlace : AtPlace p s

/-! ## The next source -/

/-- How many sources are to come. -/
def phase (p : UsbFw) (s : FwState) : ℕ :=
  (if s.fwDataParam then p.custom.length - s.fwDataIndex + 1 else 0) + if s.checkWinner then 1 else 0

theorem nextFwData_of_false (h : s.fwDataParam = false) : p.nextFwData s = s := by
  simp [nextFwData, h]

/-- Where there are custom data the next source is read from its start. -/
theorem nextFwData_of_true (h : s.fwDataParam = true) :
    ∃ source param index num, p.nextFwData s =
      { s with source := source, fwSeqNum := num, totalBytes := 0, fwDataParam := param, fwDataIndex := index } ∧
      (source ≠ none → param = true) ∧ phase p (p.nextFwData s) < phase p s := by
  unfold nextFwData
  rw [if_pos h]
  cases hbuffer : p.custom[s.fwDataIndex]? with
  | some buffer =>
    have hlt := (List.getElem?_eq_some_iff.mp hbuffer).1
    refine ⟨buffer.map fun _ => s.fwDataIndex, true, s.fwDataIndex + 1, s.fwSeqNum, ?_, fun _ => rfl, ?_⟩
    · simp only [h]
    · simp only [phase, h, if_true]
      omega
  | none =>
    refine ⟨none, false, 0, 0, rfl, fun hne => absurd rfl hne, ?_⟩
    simp [phase, h]

theorem endOfLoop_eq (p : UsbFw) (s : FwState) : p.endOfLoop s =
    if LastBlock s.dnldCmd s.dataLength ∨ p.fwLen.toNat ≤ s.totalBytes ∨ s.retries = 0 ∨ s.micRetry = 0 then cleanup s
    else { s with place := .load } := by
  unfold endOfLoop LastBlock
  split_ifs <;> first | rfl | (exfalso; omega)

/-! ## The end of the loop -/

/-- What the loop over the retries leaves : a success exactly where retries are left, and then a block that was acknowledged, or
the probe. -/
structure Settled (p : UsbFw) (s : FwState) : Prop where
  core : Core p s
  success_iff : s.success = true ↔ s.retries ≠ 0
  won : s.success = true → s.checkWinner = false
  last : s.success = true → LastBlock s.dnldCmd s.dataLength → p.AllAcked s
  mic : s.success = true → s.micRetry = 0 → LastBlock s.dnldCmd s.dataLength
  acked : s.success = true → ¬ LastBlock s.dnldCmd s.dataLength → s.source = none → p.AckedTo s s.totalBytes

/-- Without retries it is a failure. -/
theorem Settled.of_failure (hcore : Core p s) (hretries : s.retries = 0) (hsuccess : s.success = false) : Settled p s where
  core := hcore
  success_iff := by simp [hretries, hsuccess]
  won := by simp [hsuccess]
  last := by simp [hsuccess]
  mic := by simp [hsuccess]
  acked := by simp [hsuccess]

theorem Settled.nextFwData (hs : Settled p s) : Settled p (p.nextFwData s) ∧
    ((p.nextFwData s).success = true → ¬ LastBlock (p.nextFwData s).dnldCmd (p.nextFwData s).dataLength →
      p.AckedTo (p.nextFwData s) (p.nextFwData s).totalBytes) ∧
      ((p.nextFwData s).fwDataParam = true → (p.nextFwData s).totalBytes = 0) := by
  cases hparam : s.fwDataParam with
  | false =>
    rw [nextFwData_of_false hparam]
    have hsource : s.source = none := by
      by_contra hne
      rw [hs.core.custom hne] at hparam
      cases hparam
    exact ⟨hs, fun hsuccess hlast => hs.acked hsuccess hlast hsource, by simp [hparam]⟩
  | true =>
    obtain ⟨source, param, index, num, heq, hcustom, -⟩ := nextFwData_of_true (p := p) hparam
    rw [heq]
    refine ⟨⟨⟨hs.core.reads, hs.core.copies, hs.core.errorFree, hs.core.retries_le, hs.core.micRetry_lt, hcustom⟩,
      hs.success_iff, hs.won, hs.last, hs.mic, fun _ _ _ => ackedTo_zero _⟩, fun _ _ => ackedTo_zero _, fun _ => rfl⟩

/-- The next sequence number. -/
theorem Settled.next (hs : Settled p s) : Settled p { s with fwSeqNum := s.fwSeqNum + 1 } :=
  ⟨hs.core.keep hs.core.retries_le rfl, hs.success_iff, hs.won, hs.last, hs.mic, hs.acked⟩

theorem Core.cleanup (hs : Core p s) : Core p (cleanup s) :=
  hs.keep hs.retries_le rfl

/-- At the end of the loop the next block is loaded, or what is returned is true. -/
theorem Settled.inv (hs : Settled p s) : Inv p (p.afterRetries s) := by
  obtain ⟨ht, hacked, htotal⟩ := hs.next.nextFwData
  unfold afterRetries
  generalize p.nextFwData { s with fwSeqNum := s.fwSeqNum + 1 } = t at ht hacked htotal
  rw [endOfLoop_eq]
  split_ifs with hend
  · refine ⟨ht.core.cleanup, fun hok => .inr ?_⟩
    have hok' : t.success = true := by
      by_cases hleft : t.retries ≠ 0 ∧ t.micRetry ≠ 0
      · exact ht.success_iff.mpr hleft.1
      · simpa [UsbFw.cleanup, hleft] using hok
    rcases hend with hlast | hlen | hretries | hmic
    · exact ht.last hok' hlast
    · by_cases hlast : LastBlock t.dnldCmd t.dataLength
      · exact ht.last hok' hlast
      · exact (hacked hok' hlast).allAcked hlen ht.core.errorFree
    · exact absurd hretries (ht.success_iff.mp hok')
    · exact ht.last hok' (ht.mic hok' hmic)
  · have hretries : t.retries ≠ 0 := fun h0 => hend (.inr (.inr (.inl h0)))
    have hok : t.success = true := ht.success_iff.mpr hretries
    have hwon := ht.won hok
    refine ⟨ht.core.keep ht.core.retries_le rfl, hretries, fun hprobe => ?_, htotal,
      fun _ => hacked hok fun hlast => hend (.inl hlast)⟩
    exact absurd (hwon.symm.trans hprobe) (by decide)

theorem inv_retryLoop (hcore : Core p s) (hsuccess : s.retries = 0 → s.success = false)
    (hsend : s.retries ≠ 0 → Sending p s) : Inv p (p.retryLoop s) := by
  unfold retryLoop
  split_ifs with hretries
  · exact (Settled.of_failure hcore hretries (hsuccess hretries)).inv
  · obtain ⟨hne, hprobing, hcmd, hlen, hcustom, himage⟩ := hsend hretries
    exact ⟨hcore.keep hcore.retries_le rfl, hne, hprobing, hcmd, hlen, hcustom,
      fun hwon hsource => (himage hwon hsource).congr rfl rfl (.inl rfl)⟩

/-! ## Steps -/

theorem inv_start (p : UsbFw) : Inv p p.start where
  core := by
    constructor <;> simp [start, maxFwRetry]
  atPlace := rfl

theorem inv_prepare {outcome : FwPrepared} (hclean : p.Clean p.start (.prepare outcome)) :
    Inv p (prepare outcome p.start) := by
  have hcore := (inv_start p).core
  have hcore' : ∀ place success, Core p { p.start with place := place, success := success } := fun _ _ =>
    hcore.keep hcore.retries_le rfl
  have hne : maxFwRetry ≠ 0 := by decide
  rcases hclean with rfl | rfl | rfl
  · refine ⟨hcore' _ _, ?_, fun _ => ⟨rfl, rfl, rfl, hne⟩, fun _ => rfl, fun _ => ackedTo_zero _⟩
    exact hne
  · exact ⟨hcore' _ _, fun hok => absurd hok Bool.false_ne_true⟩
  · exact ⟨hcore' _ _, fun hok => absurd hok Bool.false_ne_true⟩

theorem Inv.loading (hs : Inv p s) (hplace : s.place = .load) : Loading p s := by
  have hat := hs.atPlace
  rwa [AtPlace, hplace] at hat

theorem Inv.sending (hs : Inv p s) (hplace : s.place = .retry) : Sending p s := by
  have hat := hs.atPlace
  rwa [AtPlace, hplace] at hat

/-- A block that fits is loaded, with `TotalBytes` behind it. -/
def loaded (p : UsbFw) (s : FwState) : FwState :=
  { s with
    dnldCmd := (p.blockAt s.source s.totalBytes).dnldCmd
    dataLength := (p.blockAt s.source s.totalBytes).dataLength
    block := p.blockAt s.source s.totalBytes
    seqNum := s.fwSeqNum
    totalBytes := s.totalBytes + sizeofFWHeader + (p.blockAt s.source s.totalBytes).dataLength
    imageReads :=
      if s.source = none then s.imageReads ++ [⟨s.totalBytes, sizeofFWHeader⟩] ++
        [⟨s.totalBytes + sizeofFWHeader, (p.blockAt s.source s.totalBytes).dataLength⟩]
      else s.imageReads
    copies := s.copies ++ [⟨0, sizeofFWHeader⟩] ++ [⟨offsetofData, (p.blockAt s.source s.totalBytes).dataLength⟩] }

theorem load_of_probe (hprobe : s.checkWinner = true) : p.load s = p.retryLoop { s with dataLength := 0 } := by
  rw [load, if_pos hprobe]

theorem load_of_fits (hs : Inv p s) (hplace : s.place = .load) (hwon : s.checkWinner = false) (hfits : p.Fits s) :
    p.load s = p.retryLoop (loaded p s) := by
  have hloading := hs.loading hplace
  obtain ⟨hbuf, hsource⟩ := hfits
  have hmod : s.totalBytes + sizeofFWHeader + (p.blockAt s.source s.totalBytes).dataLength < 2 ^ 32 := by
    have hlen := p.fwLen.toNat_lt
    unfold fwDnldTxBufSize offsetofData at hbuf
    by_cases himage : s.source = none
    · rw [if_pos himage] at hsource
      omega
    · have htotal := hloading.total (hs.core.custom himage)
      unfold sizeofFWHeader
      omega
  have hlong : ¬ fwDnldTxBufSize - sizeofFWHeader < (p.blockAt s.source s.totalBytes).dataLength := by
    unfold fwDnldTxBufSize offsetofData at hbuf
    unfold fwDnldTxBufSize sizeofFWHeader
    omega
  rw [load, if_neg (by simp [hwon])]
  dsimp only
  rw [if_neg hlong, Nat.mod_eq_of_lt (Nat.lt_of_le_of_lt (Nat.le_add_right _ _) hmod), Nat.mod_eq_of_lt hmod, loaded]
  split_ifs <;> rfl

theorem inv_load (hs : Inv p s) (hplace : s.place = .load) (hclean : p.Clean s .load) : Inv p (p.load s) := by
  have hload := hs.loading hplace
  have hcore := hs.core
  cases hwon : s.checkWinner with
  | true =>
    have hnot : ∀ {P : Prop}, s.checkWinner = false → P := fun h => absurd (h.symm.trans hwon) (by decide)
    rw [load_of_probe hwon]
    exact inv_retryLoop (hcore.keep hcore.retries_le rfl) (fun h0 => absurd h0 hload.retries_ne)
      fun hne => ⟨hne, hload.probing, fun h => hnot h, fun h => hnot h, fun h => hnot h, fun h => hnot h⟩
  | false =>
    have hfits := hclean hwon
    have hnot : Probing (loaded p s) := fun h => absurd ((show s.checkWinner = true from h).symm.trans hwon) (by decide)
    rw [load_of_fits hs hplace hwon hfits]
    obtain ⟨hbuf, hsource⟩ := hfits
    refine inv_retryLoop ⟨fun r hr => ?_, fun c hc => ?_, hcore.errorFree, hcore.retries_le, hcore.micRetry_lt, hcore.custom⟩
      (fun h0 => absurd h0 hload.retries_ne)
      fun hne => ⟨hne, hnot, fun _ => rfl, fun _ => rfl, fun _ himage => ?_, fun _ himage => ?_⟩
    · by_cases himage : s.source = none
      · rw [if_pos himage] at hsource
        simp only [loaded, if_pos himage, mem_append, mem_singleton] at hr
        rcases hr with (hr | rfl) | rfl
        · exact hcore.reads r hr
        · exact ⟨Nat.zero_le _, by rw [Nat.zero_add]; exact (Nat.le_add_right _ _).trans hsource⟩
        · exact ⟨Nat.zero_le _, by rw [Nat.zero_add]; exact hsource⟩
      · simp only [loaded, if_neg himage] at hr
        exact hcore.reads r hr
    · simp only [loaded, mem_append, mem_singleton] at hc
      rcases hc with (hc | rfl) | rfl
      · exact hcore.copies c hc
      · exact ⟨Nat.zero_le _, by decide⟩
      · exact ⟨Nat.zero_le _, by rw [Nat.zero_add]; exact hbuf⟩
    · rw [if_neg (show s.source ≠ none from himage)] at hsource
      exact hsource
    · have himage' : s.source = none := himage
      have hacked := hload.acked himage'
      rw [if_pos himage'] at hsource
      refine ⟨?_, ?_, hacked, .inl rfl⟩
      · change p.blockAt s.source s.totalBytes = p.blockAt none s.totalBytes
        rw [himage']
      · change s.totalBytes < p.fwLen.toNat
        unfold sizeofFWHeader at hsource
        omega

/-- A try that is not the end of the loop over the retries. -/
theorem Sending.inv_again (hsend : Sending p s) (hcore : Core p s) (hretries : t.retries = s.retries - 1)
    (hsuccess : t.success = false) (hmic : t.micRetry < 256) (hprobe : s.checkWinner = true → t.micRetry = s.micRetry)
    (htotal : t.totalBytes = s.totalBytes ∨ t.totalBytes = 0)
    (ht : t = { s with
      retries := t.retries, micRetry := t.micRetry, fwSeqNum := t.fwSeqNum, totalBytes := t.totalBytes
      success := t.success }) :
    Inv p (p.retryLoop t) := by
  rw [ht]
  have hle := hcore.retries_le
  refine inv_retryLoop ⟨hcore.reads, hcore.copies, hcore.errorFree, ?_, hmic, hcore.custom⟩ (fun _ => hsuccess)
    fun hne => ⟨hne, fun hask => ?_, hsend.dnldCmd_eq, hsend.dataLength_eq, hsend.custom, fun hwon himage =>
      (hsend.image hwon himage).congr rfl rfl htotal⟩
  · change t.retries ≤ maxFwRetry
    omega
  · obtain ⟨hsource, hzero, hcmd, hleft⟩ := hsend.probing hask
    refine ⟨hsource, ?_, hcmd, ?_⟩
    · change t.totalBytes = 0
      rcases htotal with htotal | htotal
      · rw [htotal, hzero]
      · exact htotal
    · change t.micRetry ≠ 0
      rw [hprobe hask]
      exact hleft

theorem errorFree_concat {l : List (FwBlock × FwSyncHeader)} {b : FwBlock}
    (hl : ∀ e ∈ l, e.2.ErrorFree p.checkFwStatus) (hh : h.ErrorFree p.checkFwStatus) :
    ∀ e ∈ l ++ [(b, h)], e.2.ErrorFree p.checkFwStatus := by
  intro e he
  rcases mem_append.mp he with he | he
  · exact hl e he
  · rw [mem_singleton.mp he]
    exact hh

/-- The block in the buffer is acknowledged. -/
def acknowledged (s : FwState) (h : FwSyncHeader) : FwState :=
  { s with success := true, retries := maxFwRetry, acked := s.acked ++ [(s.block, h)] }

/-- A block that was acknowledged. -/
theorem Sending.settled (hsend : Sending p s) (hcore : Core p s) (hwon : s.checkWinner = false)
    (herr : h.ErrorFree p.checkFwStatus) (hmic : s.micRetry = 0 → LastBlock s.dnldCmd s.dataLength) :
    Settled p (acknowledged s h) := by
  have herrs : ∀ e ∈ (acknowledged s h).acked, e.2.ErrorFree p.checkFwStatus := errorFree_concat hcore.errorFree herr
  have hcmd : (acknowledged s h).dnldCmd = s.block.dnldCmd := hsend.dnldCmd_eq hwon
  have hlen : (acknowledged s h).dataLength = s.block.dataLength := hsend.dataLength_eq hwon
  refine ⟨⟨hcore.reads, hcore.copies, herrs, le_rfl, hcore.micRetry_lt, hcore.custom⟩,
    iff_of_true rfl (show maxFwRetry ≠ 0 by decide), fun _ => hwon, fun _ hlast => ?_, fun _ => hmic,
    fun _ hlast himage => ?_⟩
  · have hsource : s.source = none := by
      by_contra hne
      exact hsend.custom hwon hne hlast
    obtain ⟨hblock, hlt, hacked, -⟩ := hsend.image hwon hsource
    rw [hcmd, hlen, hblock] at hlast
    exact hacked.last (h := h) (congrArg (fun b => s.acked ++ [(b, h)]) hblock) hlt hlast herrs
  · obtain ⟨hblock, hlt, hacked, htotal⟩ := hsend.image hwon himage
    change p.AckedTo _ s.totalBytes
    rcases htotal with htotal | htotal
    · rw [hcmd, hlen, hblock] at hlast
      have hnext := @AckedTo.block p s (acknowledged s h) s.block.offset h hacked
        (congrArg (fun b => s.acked ++ [(b, h)]) hblock) hlt hlast
      rwa [htotal, congrArg FwBlock.dataLength hblock]
    · rw [htotal]
      exact ackedTo_zero _

theorem Clean.retries_ne (hclean : p.Clean s (.transfer (some h))) (hprobe : s.checkWinner = true)
    (hwinner : h.cmd.toNat.testBit 31 = false) : s.retries ≠ 1 := by
  change if s.checkWinner = true then _ else _ at hclean
  rw [if_pos hprobe] at hclean
  exact hclean hwinner

theorem Clean.of_won (hclean : p.Clean s (.transfer (some h))) (hwon : s.checkWinner = false) :
    (p.verdict h = .mic → s.micRetry ≠ 0) ∧
      (p.verdict h = .good → h.ErrorFree p.checkFwStatus ∧ (s.micRetry = 0 → LastBlock s.dnldCmd s.dataLength)) := by
  change if s.checkWinner = true then _ else _ at hclean
  rwa [if_neg (by simp [hwon])] at hclean

/-- The device is asked for, and USB is the winner. -/
def won (s : FwState) : FwState :=
  { s with retries := s.retries - 1, success := true, checkWinner := false }

/-- USB is the winner, and tries are left. -/
theorem Sending.settled_won (hsend : Sending p s) (hcore : Core p s) (hprobe : s.checkWinner = true)
    (hretries : s.retries ≠ 1) : Settled p (won s) := by
  obtain ⟨hsource, htotal, hcmd, hmic⟩ := hsend.probing hprobe
  have hne := hsend.retries_ne
  have hnolast : ¬ LastBlock (won s).dnldCmd (won s).dataLength := by
    have hcmd' : (won s).dnldCmd = 0 := hcmd
    rw [hcmd']
    simp [LastBlock]
  refine ⟨hcore.keep ((Nat.sub_le _ _).trans hcore.retries_le) rfl, iff_of_true rfl ?_, fun _ => rfl,
    fun _ hlast => absurd hlast hnolast, fun _ h0 => absurd h0 hmic, fun _ _ _ => ?_⟩
  · change s.retries - 1 ≠ 0
    omega
  · change p.AckedTo _ s.totalBytes
    rw [htotal]
    exact ackedTo_zero _

/-- What a transfer does. -/
inductive Transferred (p : UsbFw) (s : FwState) : Option FwSyncHeader → FwState → Prop
  | failed : Transferred p s none (p.retryLoop { s with retries := s.retries - 1, success := false })
  | notWinner {h : FwSyncHeader} (hprobe : s.checkWinner = true) (hcmd : h.cmd.toNat.testBit 31 = true) :
      Transferred p s (some h) (cleanup { s with retries := s.retries - 1, success := true, notWinner := true })
  | winner {h : FwSyncHeader} (hprobe : s.checkWinner = true) (hcmd : h.cmd.toNat.testBit 31 = false) :
      Transferred p s (some h) (p.afterRetries (won s))
  | seBoot {h : FwSyncHeader} (hwon : s.checkWinner = false) (hverdict : p.verdict h = .seBoot) :
      Transferred p s (some h) (p.afterRetries { s with retries := 0, success := false })
  | crc {h : FwSyncHeader} (hwon : s.checkWinner = false) (hverdict : p.verdict h = .crc) :
      Transferred p s (some h) (p.retryLoop { s with retries := s.retries - 1, success := false })
  | mic {h : FwSyncHeader} (hwon : s.checkWinner = false) (hverdict : p.verdict h = .mic) :
      Transferred p s (some h) (p.retryLoop { s with
        retries := s.retries - 1, success := false, micRetry := (s.micRetry + 255) % 256, fwSeqNum := 0, totalBytes := 0 })
  | good {h : FwSyncHeader} (hwon : s.checkWinner = false) (hverdict : p.verdict h = .good) :
      Transferred p s (some h) (p.afterRetries (acknowledged s h))

theorem transferred_transfer (p : UsbFw) (s : FwState) (answer : Option FwSyncHeader) :
    Transferred p s answer (p.transfer answer s) := by
  cases answer with
  | none => exact .failed
  | some h =>
    unfold transfer
    dsimp only
    by_cases hprobe : s.checkWinner = true
    · rw [if_pos hprobe]
      by_cases hcmd : h.cmd.toNat.testBit 31 = true
      · rw [if_pos hcmd]
        exact .notWinner hprobe hcmd
      · rw [if_neg hcmd]
        exact .winner hprobe (by simpa using hcmd)
    · have hwon : s.checkWinner = false := by simpa using hprobe
      rw [if_neg hprobe]
      cases hverdict : p.verdict h with
      | seBoot => exact .seBoot hwon hverdict
      | crc => exact .crc hwon hverdict
      | mic => exact .mic hwon hverdict
      | good => exact .good hwon hverdict

theorem inv_transfer (hs : Inv p s) (hplace : s.place = .retry) (hclean : p.Clean s (.transfer answer)) :
    Inv p (p.transfer answer s) := by
  have hsend := hs.sending hplace
  have hcore := hs.core
  have htransferred := transferred_transfer p s answer
  generalize p.transfer answer s = t at htransferred
  cases htransferred with
  | failed => exact hsend.inv_again hcore rfl rfl hcore.micRetry_lt (fun _ => rfl) (.inl rfl) rfl
  | notWinner =>
    exact ⟨hcore.keep ((Nat.sub_le _ _).trans hcore.retries_le) rfl, fun _ => .inl rfl⟩
  | winner hprobe hcmd => exact (hsend.settled_won hcore hprobe (hclean.retries_ne hprobe hcmd)).inv
  | seBoot =>
    exact (Settled.of_failure (hcore.keep (Nat.zero_le _) rfl) rfl rfl).inv
  | crc => exact hsend.inv_again hcore rfl rfl hcore.micRetry_lt (fun _ => rfl) (.inl rfl) rfl
  | mic hwon =>
    exact hsend.inv_again hcore rfl rfl (Nat.mod_lt _ (by decide)) (fun h => absurd (h.symm.trans hwon) (by decide))
      (.inr rfl) rfl
  | good hwon hverdict =>
    obtain ⟨herr, hmic⟩ := (hclean.of_won hwon).2 hverdict
    exact (hsend.settled hcore hwon herr hmic).inv

/-- What the steps are, at the places of a run. -/
theorem Inv.step_cases {a : FwLabel} (hs : Inv p s) (hstep : p.system.step s a = some t) :
    (∃ outcome, a = .prepare outcome ∧ s = p.start ∧ t = prepare outcome s) ∨
      (a = .load ∧ s.place = .load ∧ t = p.load s) ∨
        ∃ answer, a = .transfer answer ∧ s.place = .retry ∧ t = p.transfer answer s := by
  cases hplace : s.place <;> cases a <;> simp only [system, hplace, Option.some.injEq, reduceCtorEq] at hstep <;>
    subst hstep
  · have hat := hs.atPlace
    rw [AtPlace, hplace] at hat
    exact .inl ⟨_, rfl, hat, rfl⟩
  · exact .inr (.inl ⟨rfl, rfl, rfl⟩)
  · exact .inr (.inr ⟨_, rfl, rfl, rfl⟩)

theorem Inv.step {a : FwLabel} (hs : Inv p s) (hclean : p.Clean s a) (hstep : p.system.step s a = some t) : Inv p t := by
  obtain ⟨_, rfl, rfl, rfl⟩ | ⟨rfl, hplace, rfl⟩ | ⟨_, rfl, hplace, rfl⟩ := hs.step_cases hstep
  · exact inv_prepare hclean
  · exact inv_load hs hplace hclean
  · exact inv_transfer hs hplace hclean

theorem Inv.truthful (hs : Inv p s) : p.Truthful s where
  reads := hs.core.reads
  copies := hs.core.copies
  success := by
    intro hplace
    have hat := hs.atPlace
    rwa [AtPlace, hplace] at hat

/-! ## Runs end -/

/-- What counts most of what is left : the MIC errors that may be, and the sources to come. -/
def base (p : UsbFw) (s : FwState) : ℕ :=
  s.micRetry * (p.custom.length + 3) + phase p s

/-- More than what counts least. -/
def unit (p : UsbFw) : ℕ :=
  8 * (p.fwLen.toNat + sizeofFWHeader) + 8

/-- What is left of a run. A header that was loaded counts as one that is to come, until its block is through. -/
def left (p : UsbFw) (s : FwState) : ℕ :=
  match s.place with
  | .prepare => 4 * (p.custom.length + 3) * unit p
  | .load => base p s * unit p + 8 * (if s.checkWinner then p.fwLen.toNat + sizeofFWHeader else p.fwLen.toNat - s.totalBytes) + 4
  | .retry => base p s * unit p + 8 * (p.fwLen.toNat + sizeofFWHeader - s.totalBytes) + s.retries
  | .done => 0

theorem base_mul_add_lt {x y m n : ℕ} (h : x < y) (hm : m < n) : x * n + m < y * n := by
  have hle : (x + 1) * n ≤ y * n := Nat.mul_le_mul_right n h
  rw [Nat.add_one_mul] at hle
  omega

/-- Where the next block is loaded there are octets left to load. -/
theorem left_endOfLoop (p : UsbFw) (s : FwState) (hwon : s.retries ≠ 0 → s.checkWinner = false) :
    left p (p.endOfLoop s) = 0 ∨ s.retries ≠ 0 ∧ s.totalBytes < p.fwLen.toNat ∧
      left p (p.endOfLoop s) = base p s * unit p + 8 * (p.fwLen.toNat - s.totalBytes) + 4 := by
  rw [endOfLoop_eq]
  split_ifs with hend
  · exact .inl rfl
  · simp only [not_or, not_le] at hend
    have hretries : s.retries ≠ 0 := hend.2.2.1
    refine .inr ⟨hretries, hend.2.1, ?_⟩
    change base p s * unit p + 8 * (if s.checkWinner = true then _ else _) + 4 = _
    rw [if_neg (by simp [hwon hretries])]

theorem left_nextFwData (p : UsbFw) (s : FwState) (hwon : s.retries ≠ 0 → s.checkWinner = false) :
    left p (p.endOfLoop (p.nextFwData s)) = 0 ∨ s.retries ≠ 0 ∧ left p (p.endOfLoop (p.nextFwData s)) <
      base p s * unit p + 8 * (p.fwLen.toNat + sizeofFWHeader - s.totalBytes) := by
  cases hparam : s.fwDataParam with
  | false =>
    rw [nextFwData_of_false hparam]
    rcases left_endOfLoop p s hwon with hzero | ⟨hretries, hlt, heq⟩
    · exact .inl hzero
    · refine .inr ⟨hretries, ?_⟩
      rw [heq]
      unfold sizeofFWHeader
      omega
  | true =>
    obtain ⟨source, param, index, num, hnext, -, hphase⟩ := nextFwData_of_true (p := p) hparam
    have hbase : base p (p.nextFwData s) < base p s := by
      have hmic : (p.nextFwData s).micRetry = s.micRetry := by rw [hnext]
      unfold base
      rw [hmic]
      exact Nat.add_lt_add_left hphase _
    have hwon' : (p.nextFwData s).retries ≠ 0 → (p.nextFwData s).checkWinner = false := by
      rw [hnext]
      exact hwon
    have hretries' : (p.nextFwData s).retries = s.retries := by rw [hnext]
    rcases left_endOfLoop p (p.nextFwData s) hwon' with hzero | ⟨hretries, -, heq⟩
    · exact .inl hzero
    · refine .inr ⟨hretries' ▸ hretries, ?_⟩
      rw [heq, Nat.add_assoc]
      refine Nat.lt_add_right _ (base_mul_add_lt hbase ?_)
      unfold unit sizeofFWHeader
      omega

/-- After the loop over the retries less is left than what the block counted. -/
theorem left_afterRetries (p : UsbFw) (s : FwState) (hwon : s.retries ≠ 0 → s.checkWinner = false) :
    left p (p.afterRetries s) = 0 ∨ s.retries ≠ 0 ∧ left p (p.afterRetries s) <
      base p s * unit p + 8 * (p.fwLen.toNat + sizeofFWHeader - s.totalBytes) :=
  left_nextFwData p { s with fwSeqNum := s.fwSeqNum + 1 } hwon

theorem left_retryLoop (p : UsbFw) (s : FwState) :
    left p (p.retryLoop s) = 0 ∨
      left p (p.retryLoop s) = base p s * unit p + 8 * (p.fwLen.toNat + sizeofFWHeader - s.totalBytes) + s.retries := by
  unfold retryLoop
  split_ifs with hretries
  · refine (left_afterRetries p s fun hne => absurd hretries hne).imp_right fun h => absurd hretries h.1
  · exact .inr rfl

theorem left_of_retry (hplace : s.place = .retry) :
    left p s = base p s * unit p + 8 * (p.fwLen.toNat + sizeofFWHeader - s.totalBytes) + s.retries := by
  rw [left, hplace]

theorem left_prepare (p : UsbFw) (outcome : FwPrepared) : left p (prepare outcome p.start) < left p p.start := by
  have hunit : 0 < unit p := Nat.succ_pos _
  have hstart : left p p.start = 4 * (p.custom.length + 3) * unit p := rfl
  have hpos : 0 < left p p.start := by
    rw [hstart]
    exact Nat.mul_pos (by omega) hunit
  cases outcome with
  | ready =>
    have hphase : phase p p.start ≤ (p.custom.length + 1) + 1 := by
      refine Nat.add_le_add ?_ ?_
      · split
        · exact Nat.add_le_add_right (Nat.sub_le _ _) 1
        · exact Nat.zero_le _
      · split
        · exact le_rfl
        · exact Nat.zero_le _
    have hbase : base p p.start < 4 * (p.custom.length + 3) := by
      have hmic : p.start.micRetry = 3 := rfl
      unfold base
      rw [hmic]
      omega
    rw [hstart]
    change base p p.start * unit p + 8 * (if p.start.checkWinner = true then _ else _) + 4 < _
    rw [Nat.add_assoc]
    refine base_mul_add_lt hbase ?_
    unfold unit
    split_ifs <;> omega
  | noImage | noTxBuff | noRecvBuff | noRevision | noCustomData => exact hpos

theorem left_load (hs : Inv p s) (hplace : s.place = .load) (hclean : p.Clean s .load) :
    left p (p.load s) < left p s := by
  have hretries := hs.core.retries_le
  have hleft : left p s = base p s * unit p + 8 * (if s.checkWinner then p.fwLen.toNat + sizeofFWHeader
      else p.fwLen.toNat - s.totalBytes) + 4 := by
    rw [left, hplace]
  unfold maxFwRetry at hretries
  rw [hleft]
  cases hwon : s.checkWinner with
  | true =>
    rw [load_of_probe hwon, if_pos rfl]
    rcases left_retryLoop p { s with dataLength := 0 } with hzero | heq
    · omega
    · rw [heq]
      change base p s * unit p + 8 * (p.fwLen.toNat + sizeofFWHeader - s.totalBytes) + s.retries < _
      omega
  | false =>
    rw [load_of_fits hs hplace hwon (hclean hwon), if_neg (by simp)]
    rcases left_retryLoop p (loaded p s) with hzero | heq
    · omega
    · rw [heq]
      change base p s * unit p + 8 * (p.fwLen.toNat + sizeofFWHeader - (s.totalBytes + sizeofFWHeader + _)) + s.retries < _
      omega

/-- Another try of the block. -/
theorem left_again (hretries : s.retries ≠ 0) : left p (p.retryLoop { s with retries := s.retries - 1, success := false }) <
    base p s * unit p + 8 * (p.fwLen.toNat + sizeofFWHeader - s.totalBytes) + s.retries := by
  rcases left_retryLoop p { s with retries := s.retries - 1, success := false } with hzero | heq
  · omega
  · rw [heq]
    change base p s * unit p + 8 * (p.fwLen.toNat + sizeofFWHeader - s.totalBytes) + (s.retries - 1) < _
    omega

/-- The download begins again, with one new start less. -/
theorem left_restart (hretries : s.retries ≠ 0 ∧ s.retries ≤ maxFwRetry) (hmic : s.micRetry ≠ 0 ∧ s.micRetry < 256) :
    left p (p.retryLoop { s with
      retries := s.retries - 1, success := false, micRetry := (s.micRetry + 255) % 256, fwSeqNum := 0, totalBytes := 0 }) <
      base p s * unit p + 8 * (p.fwLen.toNat + sizeofFWHeader - s.totalBytes) + s.retries := by
  unfold maxFwRetry at hretries
  rcases left_retryLoop p { s with
    retries := s.retries - 1, success := false, micRetry := (s.micRetry + 255) % 256, fwSeqNum := 0,
    totalBytes := 0 } with hzero | heq
  · omega
  · have hbase : (s.micRetry + 255) % 256 * (p.custom.length + 3) + phase p s < base p s := by
      have hsub : (s.micRetry + 255) % 256 + 1 = s.micRetry := by omega
      unfold base
      rw [← hsub, Nat.add_one_mul, hsub]
      omega
    rw [heq]
    change ((s.micRetry + 255) % 256 * (p.custom.length + 3) + phase p s) * unit p +
      8 * (p.fwLen.toNat + sizeofFWHeader - 0) + (s.retries - 1) < _
    rw [Nat.add_assoc, Nat.add_assoc]
    refine Nat.lt_add_right _ (base_mul_add_lt hbase ?_)
    unfold unit
    omega

theorem left_transfer (hs : Inv p s) (hplace : s.place = .retry) (hclean : p.Clean s (.transfer answer)) :
    left p (p.transfer answer s) < left p s := by
  have hne := (hs.sending hplace).retries_ne
  have htransferred := transferred_transfer p s answer
  generalize p.transfer answer s = t at htransferred
  rw [left_of_retry hplace]
  cases htransferred with
  | failed => exact left_again hne
  | notWinner =>
    change 0 < _
    omega
  | winner =>
    have hbase : base p (won s) * unit p ≤ base p s * unit p := by
      refine Nat.mul_le_mul_right _ (Nat.add_le_add_left (Nat.add_le_add_left ?_ _) _)
      exact Nat.zero_le _
    rcases left_afterRetries p (won s) fun _ => rfl with hzero | ⟨-, hlt⟩
    · omega
    · change _ < base p (won s) * unit p + 8 * (p.fwLen.toNat + sizeofFWHeader - s.totalBytes) at hlt
      omega
  | seBoot =>
    rcases left_afterRetries p { s with retries := 0, success := false } (fun h0 => absurd rfl h0) with hzero | ⟨h0, -⟩
    · omega
    · exact absurd rfl h0
  | crc => exact left_again hne
  | mic hwon hverdict =>
    exact left_restart ⟨hne, hs.core.retries_le⟩ ⟨(hclean.of_won hwon).1 hverdict, hs.core.micRetry_lt⟩
  | @good h hwon =>
    rcases left_afterRetries p (acknowledged s h) fun _ => hwon with hzero | ⟨-, hlt⟩
    · omega
    · change _ < base p s * unit p + 8 * (p.fwLen.toNat + sizeofFWHeader - s.totalBytes) at hlt
      omega

/-- Every step leaves less. -/
theorem Inv.left_lt {a : FwLabel} (hs : Inv p s) (hclean : p.Clean s a) (hstep : p.system.step s a = some t) :
    left p t < left p s := by
  obtain ⟨_, rfl, rfl, rfl⟩ | ⟨rfl, hplace, rfl⟩ | ⟨_, rfl, hplace, rfl⟩ := hs.step_cases hstep
  · exact left_prepare p _
  · exact left_load hs hplace hclean
  · exact left_transfer hs hplace hclean

/-! ## The download -/

/-- **The firmware download.** Runs whose steps are clean end, and read, copy and return what they should; and a run that has
not ended goes on. -/
theorem download_truthful (p : UsbFw) :
    (∀ s, p.system.ReachableWhen p.Clean s → p.Truthful s) ∧
      (∃ n, ∀ l s, p.system.runWhen p.Clean p.start l = some s → l.length ≤ n) ∧
        ∀ s, s.place ≠ .done → ∃ a, (p.system.step s a).isSome := by
  refine ⟨fun s hs => ?_, ⟨left p p.start, fun l s hrun => ?_⟩, fun s hs => ?_⟩
  · refine (hs.invariant (I := Inv p) ?_ ?_).truthful
    · rintro s rfl
      exact inv_start p
    · exact fun s a t hinv hclean hstep => hinv.step hclean hstep
  · have hlen := System.length_le_of_runWhen (I := Inv p) (r := left p)
      (fun s a t hinv hclean hstep => ⟨hinv.step hclean hstep, hinv.left_lt hclean hstep⟩) (inv_start p) hrun
    omega
  · cases hplace : s.place with
    | prepare => exact ⟨.prepare .ready, by simp [system, hplace]⟩
    | load => exact ⟨.load, by simp [system, hplace]⟩
    | retry => exact ⟨.transfer none, by simp [system, hplace]⟩
    | done => exact absurd hplace hs

/-- An image of two blocks : one with four octets, and the last. -/
def twoBlocks : UsbFw where
  image := fun a => if a = 0 then 1 else if a = 8 ∨ a = 20 then 4 else 0
  fwLen := 36
  custom := []
  newInit := true
  checkFwStatus := true

/-- The probe, a block that is sent twice for a failed transfer, and the last one : a success, with all acknowledged. -/
theorem download_truthful_two : ∃ s, twoBlocks.system.ReachableWhen twoBlocks.Clean s ∧ s.place = .done ∧
    s.success = true ∧ s.seqNum = 2 ∧ twoBlocks.AllAcked s ∧
      s.acked.map Prod.fst = [⟨none, 0, 1, 4⟩, ⟨none, 20, 4, 0⟩] := by
  obtain ⟨s, hs, hp⟩ := System.exists_reachableWhen_of_runWhen (M := twoBlocks.system) (C := twoBlocks.Clean)
    (P := fun s => decide (s.place = .done ∧ s.success = true ∧ s.seqNum = 2 ∧ s.notWinner = false ∧
      s.acked.map Prod.fst = [⟨none, 0, 1, 4⟩, ⟨none, 20, 4, 0⟩]))
    (l := [.prepare .ready, .load, .transfer (some ⟨0, 0⟩), .load, .transfer none, .transfer (some ⟨0, 0⟩), .load,
      .transfer (some ⟨0, 0⟩)])
    (.init rfl) (by decide +kernel)
  obtain ⟨hplace, hsuccess, hseq, hwinner, hacked⟩ := of_decide_eq_true hp
  have htrue := (download_truthful twoBlocks).1 s hs
  refine ⟨s, hs, hplace, hsuccess, hseq, (htrue.success hplace hsuccess).resolve_left ?_, hacked⟩
  rw [hwinner]
  decide

/-- An image whose first block says that it has 4096 octets. -/
def overlongBlock : UsbFw where
  image := fun a => if a = 0 then 1 else if a = 9 then 16 else 0
  fwLen := 5000
  custom := []
  newInit := false
  checkFwStatus := true

/-- Nothing of the image is sent, and it is a success. -/
theorem not_truthful_overlongBlock : ∃ s, overlongBlock.system.Reachable s ∧ ¬ overlongBlock.Truthful s := by
  have hrun : overlongBlock.system.runWhen (fun _ _ => True) overlongBlock.start [.prepare .ready, .load] =
      some (overlongBlock.load (prepare .ready overlongBlock.start)) := rfl
  refine ⟨_, System.reachableWhen_of_runWhen (.init rfl) hrun, fun htrue => ?_⟩
  rcases htrue.success (by decide) (by decide) with hwinner | ⟨before, l, heq, hblocks, -⟩
  · exact absurd hwinner (by decide)
  · have hnil : l = [] := (append_eq_nil_iff.mp heq.symm).2
    rw [hnil] at hblocks
    cases hblocks with
    | stop h => exact absurd h (by decide)

end UsbFw

end WlanDriver.Usb
