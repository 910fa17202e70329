import WlanDriver.Lib.System
import WlanDriver.Lib.Packing

/-!
# Transmit aggregation on USB

`wlan_usb_host_to_card_aggr` holds packets back, linked to the first of them (`pmbuf_aggr`), until the aggregate is full
or something says that it must go; `wlan_usb_tx_send_aggr` copies it into one buffer, packet by packet at aligned offsets,
and a hold timer sends what would stay.

A step is a call with everything that it meets, an expiry of the timer, whose handler may wait for the lock, or the
completion of a packet by MOAL. History : what was accepted and completed, and `log`, what became of each aggregate.

`packets_kept` : in runs whose steps are `Clean`, each packet is completed once, each transfer has its packets in order
at aligned offsets and fills its buffer, and what is held on a return has a timer or a further packet to wait for. Without
that, a packet that does not fit the held aggregate stays without a timer when the timeout is zero, the handler declines
and does not start the timer again, and the copy loop counts with a `t_u8`.
-/

namespace WlanDriver.Usb

open List WlanDriver.System

inductive AggrMode
  | num
  | len
  | lenV2
  deriving DecidableEq

/-- `usb_aggr_ctrl_cfg`. -/
structure AggrCtrl where
  aggrMode : AggrMode
  aggrAlign : UInt16
  aggrMax : UInt16
  aggrTmo : UInt16
  align_ne : aggrAlign ≠ 0

/-- A packet. -/
structure Pkt where
  id : ℕ
  dataLen : UInt32
  /-- `MLAN_BUF_FLAG_NULL_PKT` or `MLAN_BUF_FLAG_TCP_ACK`. -/
  flush : Bool
  deriving DecidableEq

/-- A packet in a transfer, with the offset and the type that are written into its first bytes. -/
structure Piece where
  offset : UInt32
  pkt : Pkt
  header : Option (UInt16 × UInt16)
  deriving DecidableEq

/-- A buffer that is sent : what was allocated, and what is in it. -/
structure AggrBuf where
  size : UInt32
  dataLen : UInt32
  pieces : List Piece
  deriving DecidableEq

namespace AggrCtrl

variable (c : AggrCtrl)

def align : UInt32 :=
  c.aggrAlign.toUInt32

/-- `usb_tx_aggr_pad_len`. -/
def padLen (len : UInt32) : UInt32 :=
  if len % c.align ≠ 0 then len + (c.align - len % c.align) else len

/-- `max_aggr_size`; `MLAN_USB_MAX_PKT_SIZE` is 2048. -/
def maxAggrSize : UInt32 :=
  if c.aggrMode = .num then c.aggrMax.toUInt32 * max 2048 c.align else c.aggrMax.toUInt32

/-- `max_aggr_num`; `MLAN_USB_TX_AGGR_MAX_NUM` is 10. -/
def maxAggrNum : ℕ :=
  match c.aggrMode with
  | .num => c.aggrMax.toNat
  | .len => c.aggrMax.toNat / c.aggrAlign.toNat
  | .lenV2 => 10

/-- What `MLAN_USB_AGGR_MODE_LEN_V2` writes; `MLAN_TYPE_AGGR_DATA_V2` is 11. -/
def header (p : Pkt) (last : Bool) : Option (UInt16 × UInt16) :=
  if c.aggrMode = .lenV2 then
    some (if last then (p.dataLen.toUInt16, 11 ||| 0x80) else ((c.padLen p.dataLen).toUInt16, 11))
  else none

/-- `wlan_usb_tx_copy_buf_to_aggr` and its V2. -/
def copyBuf (b : AggrBuf) (p : Pkt) (last : Bool) : AggrBuf :=
  let dataLen := c.padLen b.dataLen
  { b with dataLen := dataLen + p.dataLen, pieces := b.pieces ++ [⟨dataLen, p, c.header p last⟩] }

/-- The loop of `wlan_usb_copy_buf_to_aggr` over the ring of the linked packets, `curr` of which is next. Both counters
are `t_u8`. -/
def copyLoop (ring : List Pkt) (useCount : UInt8) : ℕ → UInt8 → ℕ → AggrBuf → Option AggrBuf
  | 0, _, _, _ => none
  | fuel + 1, i, curr, b =>
    if i ≤ useCount then
      match ring[curr]? with
      | none => none
      | some p => copyLoop ring useCount fuel (i + 1) ((curr + 1) % ring.length) (c.copyBuf b p (i = useCount))
    else some b

/-- `wlan_usb_copy_buf_to_aggr`, once the buffer is there. The index is a `t_u8`, so that what is not done
after 256 rounds never ends. -/
def copyBufToAggr (ring : List Pkt) (aggrLen : UInt32) : Option AggrBuf :=
  c.copyLoop ring (UInt8.ofNat (ring.length - 1)) 256 0 0 ⟨aggrLen, 0, []⟩

end AggrCtrl

def Pkt.len (p : Pkt) : ℕ :=
  p.dataLen.toNat

/-- A buffer that is sent is full, and has its packets apart at aligned offsets; nothing is written behind its end. -/
structure AggrBuf.Exact (c : AggrCtrl) (b : AggrBuf) : Prop where
  full : b.dataLen = b.size
  packed : AlignedAt c.aggrAlign.toNat Pkt.len b.size.toNat (b.pieces.map fun q => (q.offset.toNat, q.pkt))
  header : ∀ q ∈ b.pieces, q.header.isSome → q.offset.toNat + 4 ≤ b.size.toNat

/-- What became of an aggregate. -/
inductive Leaving
  | sent (b : AggrBuf)
  | dropped (l : List Pkt)
  deriving DecidableEq

def Leaving.pkts : Leaving → List Pkt
  | sent b => b.pieces.map Piece.pkt
  | dropped l => l

/-- What `moal_write_data_async` answers. -/
inductive WriteResult
  | success
  | pending
  | presource
  | resource
  | failure
  deriving DecidableEq

/-- The driver completes the buffer itself. -/
def WriteResult.completes : WriteResult → Bool
  | .success | .resource | .failure => true
  | .pending | .presource => false

/-- What a send meets. -/
structure SendEnv where
  allocated : Bool
  result : WriteResult

/-- `usb_tx_aggr_params`. -/
structure UsbTxAggr where
  /-- The packet that is held and those that are linked to it. -/
  pmbufAggr : List Pkt
  aggrLen : UInt32
  aggrHoldTimerIsSet : Bool
  holdTimeoutMsec : ℕ
  /-- The timer runs. -/
  armed : Bool
  /-- Handlers of the timer that wait for the lock. -/
  fired : ℕ
  /-- The packets that MOAL will complete. -/
  inFlight : List Pkt
  /-- A copy loop does not end. -/
  stuck : Bool
  accepted : List Pkt
  completed : List Pkt
  log : List Leaving
  /-- What the last call announced. -/
  nextPktLen : UInt32

namespace UsbTxAggr

/-- The steps. -/
inductive Op
  | hostToCardAggr (p : Pkt) (nextPktLen : UInt32) (e : SendEnv)
  /-- The timer expires, and its handler waits for the lock. -/
  | expire
  /-- The handler, which finds the port ready and not paused, or not. -/
  | txAggrTimeoutFunc (ready : Bool) (e : SendEnv)
  /-- MOAL completes a packet. -/
  | complete (k : ℕ)

variable (c : AggrCtrl) (s : UsbTxAggr)

/-- The packet fits the held aggregate. -/
def fits (p : Pkt) : Bool :=
  c.padLen s.aggrLen + p.dataLen < c.maxAggrSize

/-- The packet after it does not fit any more. -/
def nextTooLong (p : Pkt) (nextPktLen : UInt32) : Bool :=
  nextPktLen ≠ 0 ∧ c.maxAggrSize ≤ c.padLen s.aggrLen + c.padLen p.dataLen + nextPktLen

/-- The packet starts an aggregate. -/
def start (p : Pkt) : UsbTxAggr :=
  { s with pmbufAggr := [p], aggrLen := p.dataLen }

/-- `wlan_usb_tx_link_buf_to_aggr`. -/
def linkBufToAggr (p : Pkt) : UsbTxAggr :=
  { s with pmbufAggr := s.pmbufAggr ++ [p], aggrLen := c.padLen s.aggrLen + p.dataLen }

/-- The packets that are held leave, and are completed. -/
def leave (x : Leaving) : UsbTxAggr :=
  { s with pmbufAggr := [], aggrLen := 0, completed := s.completed ++ s.pmbufAggr, log := s.log ++ [x] }

/-- `wlan_usb_tx_send_aggr`. -/
def txSendAggr (e : SendEnv) : UsbTxAggr :=
  match s.pmbufAggr with
  | [] => s
  | [p] =>
    if p.dataLen = 0 then s
    else
      let x := Leaving.sent ⟨p.dataLen, p.dataLen, [⟨0, p, c.header p true⟩]⟩
      if e.result.completes then s.leave x
      else { s with pmbufAggr := [], aggrLen := 0, inFlight := s.inFlight ++ [p], log := s.log ++ [x] }
  | ring =>
    if e.allocated then
      match c.copyBufToAggr ring s.aggrLen with
      | none => { s with stuck := true }
      | some b => s.leave (if b.dataLen = 0 then .dropped ring else .sent b)
    else s.leave (.dropped ring)

/-- The timer is stopped for the time of a call. -/
def stopTimer : UsbTxAggr :=
  if s.aggrHoldTimerIsSet then { s with armed := false, aggrHoldTimerIsSet := false } else s

/-- The timeout of the call; `MLAN_USB_TX_AGGR_TIMEOUT_DYN` is `0xffff`. -/
def setTimeout : UsbTxAggr :=
  { s with
    holdTimeoutMsec :=
      if c.aggrTmo = 0xffff then
        if s.pmbufAggr = [] then 1 else if s.holdTimeoutMsec < 4 then s.holdTimeoutMsec + 1 else s.holdTimeoutMsec
      else if c.aggrTmo ≠ 0 then c.aggrTmo.toNat / 1000 else s.holdTimeoutMsec }

/-- The timer is started if there is something in the aggregate. -/
def startTimer : UsbTxAggr :=
  if (s.pmbufAggr.head?.any fun p => p.dataLen ≠ 0) ∧ c.aggrTmo ≠ 0 then
    { s with armed := true, aggrHoldTimerIsSet := true }
  else s

/-- The packet is put where it belongs before the aggregate may be sent, and must the aggregate be sent? -/
def prepare (p : Pkt) (nextPktLen : UInt32) : UsbTxAggr × Bool :=
  let now : Bool := c.aggrTmo = 0 ∧ nextPktLen = 0
  if s.pmbufAggr = [] then (s.start p, now)
  else if s.fits c p then (s.linkBufToAggr c p, s.nextTooLong c p nextPktLen || now)
  else (s, s.aggrLen ≠ 0 || now)

/-- What a call does first. -/
def begin (p : Pkt) (nextPktLen : UInt32) : UsbTxAggr :=
  let s : UsbTxAggr := { s with accepted := s.accepted ++ [p], nextPktLen := nextPktLen }
  s.stopTimer.setTimeout c

/-- What a call does behind the send : a packet that did not fit starts the next aggregate. -/
def finish (fPostcopyCurBuf : Bool) (p : Pkt) : UsbTxAggr :=
  if s.stuck then s
  else
    let s := if fPostcopyCurBuf ∧ s.pmbufAggr = [] then s.start p else s
    s.startTimer c

/-- `wlan_usb_host_to_card_aggr`. -/
def hostToCardAggr (p : Pkt) (nextPktLen : UInt32) (e : SendEnv) : UsbTxAggr :=
  let s := s.begin c p nextPktLen
  let t := s.prepare c p nextPktLen
  let fSendAggrBuf : Bool := t.2 || c.maxAggrNum ≤ t.1.pmbufAggr.length || p.flush
  let u := if fSendAggrBuf then t.1.txSendAggr c e else t.1
  u.finish c (s.pmbufAggr ≠ [] ∧ ¬s.fits c p) p

/-- `wlan_usb_tx_aggr_timeout_func`. -/
def txAggrTimeoutFunc (ready : Bool) (e : SendEnv) : UsbTxAggr :=
  let s : UsbTxAggr := { s with fired := s.fired - 1, aggrHoldTimerIsSet := false }
  if s.pmbufAggr ≠ [] ∧ ready then s.txSendAggr c e else s

/-- One step; a call whose copy loop does not end keeps the lock. -/
def step (op : Op) : Option UsbTxAggr :=
  match op with
  | .hostToCardAggr p nextPktLen e => if s.stuck then none else some (s.hostToCardAggr c p nextPktLen e)
  | .expire => if s.armed then some { s with armed := false, fired := s.fired + 1 } else none
  | .txAggrTimeoutFunc ready e =>
    if ¬s.stuck ∧ 0 < s.fired then some (s.txAggrTimeoutFunc c ready e) else none
  | .complete k =>
    (s.inFlight[k]?).map fun p => { s with inFlight := s.inFlight.eraseIdx k, completed := s.completed ++ [p] }

/-- Nothing is held or under way. -/
def Init : Prop :=
  s.pmbufAggr = [] ∧ s.aggrLen = 0 ∧ s.armed = false ∧ s.fired = 0 ∧ s.inFlight = [] ∧ s.stuck = false ∧
    s.accepted = [] ∧ s.completed = [] ∧ s.log = []

/-- The runs of an aggregation port. -/
def usbAggrSystem : System UsbTxAggr Op where
  init := Init
  step := step c

/-- Each packet is completed once or still here, and each transfer has its packets in order. -/
structure Kept : Prop where
  once : (s.completed ++ s.inFlight ++ s.pmbufAggr).Perm s.accepted
  order : s.log.flatMap Leaving.pkts ++ s.pmbufAggr = s.accepted
  exact : ∀ b, .sent b ∈ s.log → b.Exact c
  ends : s.stuck = false

/-- What is held has a timer or a further packet to wait for. -/
def Watched : Prop :=
  s.pmbufAggr ≠ [] → s.armed = true ∨ s.nextPktLen ≠ 0

/-- The step is the return of a call or of the handler. -/
def Op.Returns : Op → Prop
  | .hostToCardAggr _ _ _ | .txAggrTimeoutFunc _ _ => True
  | _ => False

/-- Whether a step can be taken without a packet being lost or held without a timer. -/
def Op.Clean : Op → Prop
  | .hostToCardAggr p nextPktLen _ =>
    (p.dataLen = 0 → s.pmbufAggr ≠ [] ∧ s.fits c p) ∧ (c.aggrMode = .lenV2 → 4 ≤ p.len) ∧
      (s.pmbufAggr ≠ [] → padUp c.aggrAlign.toNat s.aggrLen.toNat + p.len < 2 ^ 32) ∧
      (s.pmbufAggr ≠ [] → s.fits c p → s.pmbufAggr.length < 255) ∧
      (s.pmbufAggr ≠ [] → s.fits c p = false → c.aggrTmo = 0 → nextPktLen ≠ 0)
  | .txAggrTimeoutFunc ready _ => s.pmbufAggr ≠ [] → ready ∨ s.armed ∨ s.nextPktLen ≠ 0
  | _ => True

instance (op : Op) : Decidable (op.Clean c s) := by
  cases op <;> unfold Op.Clean <;> infer_instance

end UsbTxAggr

/-! ## The copy -/

namespace AggrCtrl

variable {c : AggrCtrl} {len : UInt32} {ring : List Pkt} {b : AggrBuf} {p : Pkt} {k : ℕ}

theorem align_pos (c : AggrCtrl) : 0 < c.aggrAlign.toNat := by
  refine Nat.pos_of_ne_zero fun h => c.align_ne ?_
  exact UInt16.toNat_inj.mp h

theorem padLen_toNat (h : padUp c.aggrAlign.toNat len.toNat < 2 ^ 32) :
    (c.padLen len).toNat = padUp c.aggrAlign.toNat len.toNat := by
  have halign : c.align.toNat = c.aggrAlign.toNat := UInt16.toNat_toUInt32 _
  have hmod : (len % c.align).toNat = len.toNat % c.aggrAlign.toNat := by rw [UInt32.toNat_mod, halign]
  have hlt := Nat.mod_lt len.toNat c.align_pos
  unfold padLen
  unfold padUp at h ⊢
  by_cases hz : len % c.align = 0
  · rw [if_neg (not_not.mpr hz), if_pos (hmod ▸ congrArg UInt32.toNat hz)]
  · have hne : len.toNat % c.aggrAlign.toNat ≠ 0 := fun h0 => hz (UInt32.toNat_inj.mp (hmod.trans h0))
    rw [if_pos hz, if_neg hne]
    rw [if_neg hne] at h
    have hsub : (c.align - len % c.align).toNat = c.aggrAlign.toNat - len.toNat % c.aggrAlign.toNat := by
      rw [UInt32.toNat_sub_of_le, halign, hmod]
      rw [UInt32.le_iff_toNat_le, halign, hmod]
      exact hlt.le
    rw [UInt32.toNat_add, hsub, Nat.mod_eq_of_lt h]

/-- What the loop has copied after `k` rounds. -/
structure Copied (c : AggrCtrl) (ring : List Pkt) (aggrLen : UInt32) (k : ℕ) (b : AggrBuf) : Prop where
  size : b.size = aggrLen
  dataLen : b.dataLen.toNat = packLen c.aggrAlign.toNat Pkt.len (ring.take k)
  pkts : b.pieces.map Piece.pkt = ring.take k
  packed : AlignedAt c.aggrAlign.toNat Pkt.len b.dataLen.toNat (b.pieces.map fun q => (q.offset.toNat, q.pkt))
  header : ∀ q ∈ b.pieces, q.header.isSome → q.offset.toNat + 4 ≤ b.dataLen.toNat

/-- A round of the loop. -/
theorem Copied.copyBuf {aggrLen : UInt32} (h : Copied c ring aggrLen k b)
    (hlt : packLen c.aggrAlign.toNat Pkt.len ring < 2 ^ 32) (hp : ring[k]? = some p)
    (hwide : c.aggrMode = .lenV2 → 4 ≤ p.len) (last : Bool) : Copied c ring aggrLen (k + 1) (c.copyBuf b p last) := by
  have htake : ring.take (k + 1) = ring.take k ++ [p] := by rw [take_add_one, hp]; rfl
  have hlen : packLen c.aggrAlign.toNat Pkt.len (ring.take (k + 1)) =
      padUp c.aggrAlign.toNat b.dataLen.toNat + p.len := by
    rw [htake, packLen_snoc, h.dataLen]
  have hle : packLen c.aggrAlign.toNat Pkt.len (ring.take (k + 1)) ≤ packLen c.aggrAlign.toNat Pkt.len ring := by
    conv_rhs => rw [← take_append_drop (k + 1) ring]
    exact packLen_le_append _ _
  have hpad : (c.padLen b.dataLen).toNat = padUp c.aggrAlign.toNat b.dataLen.toNat := padLen_toNat (by omega)
  have hdata : (c.copyBuf b p last).dataLen.toNat = padUp c.aggrAlign.toNat b.dataLen.toNat + p.len := by
    change (c.padLen b.dataLen + p.dataLen).toNat = _
    rw [UInt32.toNat_add, hpad, Nat.mod_eq_of_lt (by rw [← Pkt.len]; omega), Pkt.len]
  refine ⟨h.size, hdata.trans hlen.symm, ?_, ?_, fun q hq hsome => ?_⟩
  · rw [AggrCtrl.copyBuf, map_append, h.pkts, htake]
    rfl
  · rw [hdata, AggrCtrl.copyBuf, map_append]
    change AlignedAt _ _ _ (_ ++ [((c.padLen b.dataLen).toNat, p)])
    rw [hpad]
    exact h.packed.snoc c.align_pos p
  · rw [hdata]
    have hge := le_padUp c.aggrAlign.toNat b.dataLen.toNat
    rcases mem_append.mp hq with hq | hq
    · have := h.header q hq hsome
      omega
    · obtain rfl := mem_singleton.mp hq
      change (c.header p last).isSome at hsome
      change (c.padLen b.dataLen).toNat + 4 ≤ _
      by_cases hmode : c.aggrMode = .lenV2
      · have := hwide hmode
        omega
      · rw [AggrCtrl.header, if_neg hmode] at hsome
        simp at hsome

/-- The copy of a ring of at most 255 packets is exact. -/
theorem exists_copyBufToAggr {aggrLen : UInt32} (hne : ring ≠ []) (hfew : ring.length ≤ 255)
    (hlen : aggrLen.toNat = packLen c.aggrAlign.toNat Pkt.len ring)
    (hwide : c.aggrMode = .lenV2 → ∀ p ∈ ring, 4 ≤ p.len) :
    ∃ b, c.copyBufToAggr ring aggrLen = some b ∧ b.Exact c ∧ b.pieces.map Piece.pkt = ring := by
  have hpos := length_pos_of_ne_nil hne
  have hlt : packLen c.aggrAlign.toNat Pkt.len ring < 2 ^ 32 := hlen ▸ aggrLen.toNat_lt
  have hloop : ∀ n k b, k + n = ring.length → Copied c ring aggrLen k b →
      ∃ b', c.copyLoop ring (UInt8.ofNat (ring.length - 1)) (n + (256 - ring.length)) (UInt8.ofNat k)
        (k % ring.length) b = some b' ∧ Copied c ring aggrLen ring.length b' := by
    intro n
    induction n with
    | zero =>
      intro k b hk hb
      obtain rfl : k = ring.length := hk
      have hover : ¬UInt8.ofNat ring.length ≤ UInt8.ofNat (ring.length - 1) := by
        rw [UInt8.le_iff_toNat_le, UInt8.toNat_ofNat', UInt8.toNat_ofNat']
        omega
      rw [show 0 + (256 - ring.length) = 255 - ring.length + 1 by omega, copyLoop, if_neg hover]
      exact ⟨b, rfl, hb⟩
    | succ n ih =>
      intro k b hk hb
      have hin : UInt8.ofNat k ≤ UInt8.ofNat (ring.length - 1) := by
        rw [UInt8.le_iff_toNat_le, UInt8.toNat_ofNat', UInt8.toNat_ofNat']
        omega
      have hget : ring[k]? = some ring[k] := getElem?_eq_getElem (by omega)
      have hnext : UInt8.ofNat k + 1 = UInt8.ofNat (k + 1) := by rw [UInt8.ofNat_add]; rfl
      rw [show n + 1 + (256 - ring.length) = n + (256 - ring.length) + 1 by omega, copyLoop, if_pos hin,
        Nat.mod_eq_of_lt (by omega), hget, hnext]
      exact ih (k + 1) _ (by omega) (hb.copyBuf hlt hget (fun hm => hwide hm _ (getElem_mem _)) _)
  have hstart : Copied c ring aggrLen 0 ⟨aggrLen, 0, []⟩ := ⟨rfl, rfl, rfl, .nil, by simp⟩
  obtain ⟨b, hb, hcopied⟩ := hloop ring.length 0 _ (Nat.zero_add _) hstart
  rw [show ring.length + (256 - ring.length) = 256 by omega, Nat.zero_mod] at hb
  have hfull : b.dataLen = aggrLen := UInt32.toNat_inj.mp (by rw [hcopied.dataLen, take_length, hlen])
  refine ⟨b, hb, ⟨hfull.trans hcopied.size.symm, ?_, ?_⟩, by rw [hcopied.pkts, take_length]⟩
  · rw [hcopied.size, ← hfull]
    exact hcopied.packed
  · rw [hcopied.size, ← hfull]
    exact hcopied.header

end AggrCtrl

/-! ## The aggregate -/

namespace UsbTxAggr

variable {c : AggrCtrl} {s s' : UsbTxAggr} {op : Op} {p : Pkt} {rest : List Pkt} {e : SendEnv} {nextPktLen : UInt32}

/-- What holds of the aggregate, when `rest` is accepted but has not been put anywhere. -/
structure Inv (c : AggrCtrl) (s : UsbTxAggr) (rest : List Pkt) : Prop where
  once : (s.completed ++ s.inFlight ++ s.pmbufAggr ++ rest).Perm s.accepted
  order : s.log.flatMap Leaving.pkts ++ s.pmbufAggr ++ rest = s.accepted
  exact : ∀ b, .sent b ∈ s.log → b.Exact c
  ends : s.stuck = false
  aggrLen : s.aggrLen.toNat = packLen c.aggrAlign.toNat Pkt.len s.pmbufAggr
  few : s.pmbufAggr.length ≤ 255
  nonempty : ∀ p ∈ s.pmbufAggr.head?, p.dataLen ≠ 0
  wide : c.aggrMode = .lenV2 → ∀ p ∈ s.pmbufAggr, 4 ≤ p.len

namespace Inv

/-- An aggregate whose first packet is not empty has a length. -/
theorem aggrLen_ne (h : Inv c s rest) (hne : s.pmbufAggr ≠ []) : s.aggrLen ≠ 0 := by
  obtain ⟨q, l, hl⟩ := exists_cons_of_ne_nil hne
  have hq : q.dataLen ≠ 0 := h.nonempty q (by rw [hl]; rfl)
  have hlen := h.aggrLen
  have hle : packLen c.aggrAlign.toNat Pkt.len [q] ≤ packLen c.aggrAlign.toNat Pkt.len s.pmbufAggr := by
    rw [hl, ← singleton_append]
    exact packLen_le_append _ _
  rw [packLen_singleton, ← hlen] at hle
  intro hz
  rw [hz, UInt32.toNat_zero] at hle
  exact hq (UInt32.toNat_inj.mp (Nat.le_zero.mp hle))

theorem start (h : Inv c s [p]) (hempty : s.pmbufAggr = []) (hp : p.dataLen ≠ 0)
    (hwide : c.aggrMode = .lenV2 → 4 ≤ p.len) : Inv c (s.start p) [] := by
  have honce := h.once
  have horder := h.order
  rw [hempty, append_nil] at honce horder
  refine ⟨?_, ?_, h.exact, h.ends, packLen_singleton.symm, by simp [UsbTxAggr.start], ?_, fun hm q hq => ?_⟩
  · rw [append_nil]
    exact honce
  · rw [append_nil]
    exact horder
  · intro q hq
    exact Option.some.inj hq ▸ hp
  · exact mem_singleton.mp hq ▸ hwide hm

theorem link (h : Inv c s [p]) (hne : s.pmbufAggr ≠ []) (hfew : s.pmbufAggr.length < 255)
    (hlt : padUp c.aggrAlign.toNat s.aggrLen.toNat + p.len < 2 ^ 32)
    (hwide : c.aggrMode = .lenV2 → 4 ≤ p.len) : Inv c (s.linkBufToAggr c p) [] := by
  have hpad : (c.padLen s.aggrLen).toNat = padUp c.aggrAlign.toNat s.aggrLen.toNat :=
    AggrCtrl.padLen_toNat (by omega)
  refine ⟨?_, ?_, h.exact, h.ends, ?_, ?_, ?_, fun hm q hq => ?_⟩
  · rw [append_nil, linkBufToAggr, ← append_assoc]
    exact h.once
  · rw [append_nil, linkBufToAggr, ← append_assoc]
    exact h.order
  · change (c.padLen s.aggrLen + p.dataLen).toNat = packLen _ _ (s.pmbufAggr ++ [p])
    rw [packLen_snoc, ← h.aggrLen, UInt32.toNat_add, hpad]
    exact Nat.mod_eq_of_lt hlt
  · change (s.pmbufAggr ++ [p]).length ≤ 255
    rw [length_append, length_singleton]
    omega
  · change ∀ q ∈ (s.pmbufAggr ++ [p]).head?, _
    rw [head?_append_of_ne_nil _ hne]
    exact h.nonempty
  · rcases mem_append.mp hq with hq | hq
    · exact h.wide hm q hq
    · exact mem_singleton.mp hq ▸ hwide hm

theorem leave (h : Inv c s rest) {x : Leaving} (hx : x.pkts = s.pmbufAggr) (hexact : ∀ b, x = .sent b → b.Exact c) :
    Inv c (s.leave x) rest := by
  refine ⟨?_, ?_, fun b hb => ?_, h.ends, rfl, Nat.zero_le _, by simp [UsbTxAggr.leave], fun _ q hq => ?_⟩
  · refine (List.Perm.append_right rest ?_).trans h.once
    change (s.completed ++ s.pmbufAggr ++ s.inFlight ++ []).Perm _
    rw [append_nil, append_assoc, append_assoc]
    exact perm_append_comm.append_left _
  · rw [UsbTxAggr.leave, flatMap_append, flatMap_singleton, hx, append_nil]
    exact h.order
  · rcases mem_append.mp hb with hb | hb
    · exact h.exact b hb
    · exact hexact b (mem_singleton.mp hb).symm
  · exact absurd hq not_mem_nil

/-- A packet on its own is sent as it is. -/
theorem exact_single (hwide : c.aggrMode = .lenV2 → 4 ≤ p.len) :
    AggrBuf.Exact c ⟨p.dataLen, p.dataLen, [⟨0, p, c.header p true⟩]⟩ := by
  refine ⟨rfl, ⟨?_, ?_, pairwise_singleton _ _⟩, fun q hq hsome => ?_⟩
  · simp
  · simp [Pkt.len]
  · obtain rfl := mem_singleton.mp hq
    change (c.header p true).isSome at hsome
    by_cases hmode : c.aggrMode = .lenV2
    · have := hwide hmode
      simpa [Pkt.len] using this
    · rw [AggrCtrl.header, if_neg hmode] at hsome
      simp at hsome

/-- The aggregate is sent. -/
theorem send (h : Inv c s rest) : Inv c (s.txSendAggr c e) rest ∧ (s.txSendAggr c e).pmbufAggr = [] := by
  unfold txSendAggr
  split
  · exact ⟨h, ‹_›⟩
  · rename_i q hq
    have hq0 : q.dataLen ≠ 0 := h.nonempty q (by rw [hq]; rfl)
    have hexact := exact_single (c := c) (p := q) fun hm => h.wide hm q (by simp [hq])
    have hleave := h.leave (x := .sent ⟨q.dataLen, q.dataLen, [⟨0, q, c.header q true⟩]⟩) (by rw [hq]; rfl)
      fun b hb => Leaving.sent.inj hb ▸ hexact
    rw [if_neg hq0]
    dsimp only
    split_ifs
    · exact ⟨hleave, rfl⟩
    · refine ⟨⟨?_, hleave.order, hleave.exact, h.ends, rfl, Nat.zero_le _, by simp, by simp⟩, rfl⟩
      have honce := h.once
      rw [hq] at honce
      simpa using honce
  · rename_i hnil hsingle
    split_ifs
    · obtain ⟨b, hb, hexact, hpkts⟩ := AggrCtrl.exists_copyBufToAggr (fun h0 => hnil h0) h.few h.aggrLen h.wide
      rw [hb]
      dsimp only
      refine ⟨h.leave ?_ fun b' hb' => ?_, rfl⟩
      · split_ifs
        · rfl
        · exact hpkts
      · split_ifs at hb'
        exact Leaving.sent.inj hb' ▸ hexact
    · exact ⟨h.leave rfl fun b hb => by simp at hb, rfl⟩

/-- What is not about the packets does not matter. -/
theorem congr {s s' : UsbTxAggr} (h : Inv c s rest) (hcompleted : s'.completed = s.completed)
    (hflight : s'.inFlight = s.inFlight) (hheld : s'.pmbufAggr = s.pmbufAggr) (hlen : s'.aggrLen = s.aggrLen)
    (hlog : s'.log = s.log) (haccepted : s'.accepted = s.accepted) (hstuck : s'.stuck = s.stuck) : Inv c s' rest := by
  refine ⟨?_, ?_, ?_, hstuck.trans h.ends, ?_, hheld ▸ h.few, hheld ▸ h.nonempty, hheld ▸ h.wide⟩
  · rw [hcompleted, hflight, hheld, haccepted]
    exact h.once
  · rw [hlog, hheld, haccepted]
    exact h.order
  · rw [hlog]
    exact h.exact
  · rw [hlen, hheld]
    exact h.aggrLen

end Inv

theorem begin_frame (c : AggrCtrl) (s : UsbTxAggr) (p : Pkt) (nextPktLen : UInt32) :
    ∃ b armed ms, s.begin c p nextPktLen = { s with
      accepted := s.accepted ++ [p], nextPktLen := nextPktLen, armed := armed, aggrHoldTimerIsSet := b,
      holdTimeoutMsec := ms } := by
  unfold UsbTxAggr.begin stopTimer setTimeout
  dsimp only
  split_ifs <;> exact ⟨_, _, _, rfl⟩

/-- A call accepts a packet. -/
theorem Inv.begin (h : Inv c s []) : Inv c (s.begin c p nextPktLen) [p] := by
  obtain ⟨b, armed, ms, hs⟩ := begin_frame c s p nextPktLen
  have honce := h.once
  have horder := h.order
  rw [append_nil] at honce horder
  rw [hs]
  exact ⟨honce.append_right [p], congrArg (· ++ [p]) horder, h.exact, h.ends, h.aggrLen, h.few, h.nonempty, h.wide⟩

theorem nextPktLen_txSendAggr : (s.txSendAggr c e).nextPktLen = s.nextPktLen := by
  unfold txSendAggr
  split
  · rfl
  · dsimp only
    split_ifs <;> rfl
  · split_ifs
    · split <;> rfl
    · rfl

/-- The aggregate is sent, or stays. -/
theorem Inv.sendIf (h : Inv c s rest) (b : Bool) :
    Inv c (if b then s.txSendAggr c e else s) rest ∧
      (b = true → (if b then s.txSendAggr c e else s).pmbufAggr = []) ∧
      (if b then s.txSendAggr c e else s).nextPktLen = s.nextPktLen := by
  cases b with
  | true => exact ⟨h.send.1, fun _ => h.send.2, nextPktLen_txSendAggr⟩
  | false => exact ⟨h, fun hb => absurd hb (by simp), rfl⟩

/-- The end of a call. -/
theorem Inv.startTimer (h : Inv c s []) (hwait : s.pmbufAggr ≠ [] → c.aggrTmo ≠ 0 ∨ s.nextPktLen ≠ 0) :
    Inv c (s.startTimer c) [] ∧ (s.startTimer c).Watched := by
  unfold UsbTxAggr.startTimer
  split_ifs with hstart
  · exact ⟨h.congr rfl rfl rfl rfl rfl rfl rfl, fun _ => .inl rfl⟩
  · refine ⟨h, fun hne => .inr ((hwait hne).resolve_left fun htmo => hstart ⟨?_, htmo⟩)⟩
    obtain ⟨q, l, hl⟩ := exists_cons_of_ne_nil hne
    have hq : q.dataLen ≠ 0 := h.nonempty q (by rw [hl]; rfl)
    simp [hl, hq]

/-- The end of a call whose packet is in the aggregate. -/
theorem Inv.finish (h : Inv c s []) (hwait : s.pmbufAggr ≠ [] → c.aggrTmo ≠ 0 ∨ s.nextPktLen ≠ 0) :
    Inv c (s.finish c false p) [] ∧ (s.finish c false p).Watched := by
  unfold UsbTxAggr.finish
  rw [if_neg (by simp [h.ends])]
  exact h.startTimer hwait

/-- The end of a call whose packet did not fit. -/
theorem Inv.finishPost (h : Inv c s [p]) (hempty : s.pmbufAggr = []) (hp : p.dataLen ≠ 0)
    (hwide : c.aggrMode = .lenV2 → 4 ≤ p.len) (hwait : c.aggrTmo ≠ 0 ∨ s.nextPktLen ≠ 0) :
    Inv c (s.finish c true p) [] ∧ (s.finish c true p).Watched := by
  unfold UsbTxAggr.finish
  rw [if_neg (by simp [h.ends]), if_pos ⟨rfl, hempty⟩]
  exact (h.start hempty hp hwide).startTimer fun _ => hwait

theorem Inv.call (h : Inv c s []) (hc : (Op.hostToCardAggr p nextPktLen e).Clean c s) :
    Inv c (s.hostToCardAggr c p nextPktLen e) [] ∧ (s.hostToCardAggr c p nextPktLen e).Watched := by
  obtain ⟨hzero, hwide, hlt, hfew, hstrand⟩ := hc
  have hb : Inv c (s.begin c p nextPktLen) [p] := h.begin
  obtain ⟨b, armed, ms, hs⟩ := begin_frame c s p nextPktLen
  have hheld : (s.begin c p nextPktLen).pmbufAggr = s.pmbufAggr := by rw [hs]
  have hfits : (s.begin c p nextPktLen).fits c p = s.fits c p := by rw [hs]; rfl
  have hlen : (s.begin c p nextPktLen).aggrLen = s.aggrLen := by rw [hs]
  have hnext : (s.begin c p nextPktLen).nextPktLen = nextPktLen := by rw [hs]
  rw [← hheld] at hzero hlt hfew hstrand
  rw [← hfits] at hzero hfew hstrand
  rw [← hlen] at hlt
  unfold hostToCardAggr
  generalize s.begin c p nextPktLen = t at *
  clear hs
  -- what is not sent waits for the timer or the next packet
  have hwait : ∀ {x y z : Bool}, (x || decide (c.aggrTmo = 0 ∧ nextPktLen = 0) || y || z) = false →
      c.aggrTmo ≠ 0 ∨ nextPktLen ≠ 0 := fun hno => by
    simp only [Bool.or_eq_false_iff, decide_eq_false_iff_not, not_and_or] at hno
    exact hno.1.1.2
  dsimp only
  by_cases hempty : t.pmbufAggr = []
  · -- the packet starts an aggregate
    have hstart : Inv c (t.start p) [] := hb.start hempty (fun hz => (hzero hz).1 hempty) hwide
    have hprep : t.prepare c p nextPktLen = (t.start p, decide (c.aggrTmo = 0 ∧ nextPktLen = 0)) := if_pos hempty
    rw [hprep, decide_eq_false (p := t.pmbufAggr ≠ [] ∧ ¬t.fits c p = true) fun h => h.1 hempty]
    obtain ⟨hinv, hsent, hsame⟩ := hstart.sendIf (e := e)
      (decide (c.aggrTmo = 0 ∧ nextPktLen = 0) || c.maxAggrNum ≤ (t.start p).pmbufAggr.length || p.flush)
    refine hinv.finish fun hne => ?_
    rw [hsame]
    exact hnext.symm ▸ hwait (x := false) (Bool.eq_false_iff.mpr fun hsend => hne (hsent hsend))
  · by_cases hfit : t.fits c p = true
    · -- the packet is linked
      have hlink := hb.link hempty (hfew hempty hfit) (hlt hempty) hwide
      have hprep : t.prepare c p nextPktLen =
          (t.linkBufToAggr c p, t.nextTooLong c p nextPktLen || decide (c.aggrTmo = 0 ∧ nextPktLen = 0)) :=
        (if_neg hempty).trans (if_pos hfit)
      rw [hprep, decide_eq_false (p := t.pmbufAggr ≠ [] ∧ ¬t.fits c p = true) fun h => h.2 hfit]
      obtain ⟨hinv, hsent, hsame⟩ := hlink.sendIf (e := e)
        (t.nextTooLong c p nextPktLen || decide (c.aggrTmo = 0 ∧ nextPktLen = 0) ||
          c.maxAggrNum ≤ (t.linkBufToAggr c p).pmbufAggr.length || p.flush)
      refine hinv.finish fun hne => ?_
      rw [hsame]
      exact hnext.symm ▸ hwait (Bool.eq_false_iff.mpr fun hsend => hne (hsent hsend))
    · -- the aggregate is sent, and the packet starts the next one
      have hprep : t.prepare c p nextPktLen =
          (t, decide (t.aggrLen ≠ 0) || decide (c.aggrTmo = 0 ∧ nextPktLen = 0)) :=
        (if_neg hempty).trans (if_neg hfit)
      rw [hprep, decide_eq_true (p := t.pmbufAggr ≠ [] ∧ ¬t.fits c p = true) ⟨hempty, hfit⟩,
        decide_eq_true (p := t.aggrLen ≠ 0) (hb.aggrLen_ne hempty)]
      simp only [Bool.true_or, if_true]
      obtain ⟨hinv, hsent⟩ := hb.send (e := e)
      refine hinv.finishPost hsent (fun hz => hfit (hzero hz).2) hwide ?_
      rw [nextPktLen_txSendAggr, hnext]
      by_cases htmo : c.aggrTmo = 0
      · exact .inr (hstrand hempty (by simpa using hfit) htmo)
      · exact .inl htmo

theorem Inv.timeout {ready : Bool} (h : Inv c s []) (hc : (Op.txAggrTimeoutFunc ready e).Clean c s) :
    Inv c (s.txAggrTimeoutFunc c ready e) [] ∧ (s.txAggrTimeoutFunc c ready e).Watched := by
  have hs : Inv c { s with fired := s.fired - 1, aggrHoldTimerIsSet := false } [] :=
    h.congr rfl rfl rfl rfl rfl rfl rfl
  unfold txAggrTimeoutFunc
  dsimp only
  split_ifs with hsend
  · obtain ⟨hinv, hsent⟩ := hs.send (e := e)
    exact ⟨hinv, fun hne => absurd hsent hne⟩
  · exact ⟨hs, fun hne => (hc hne).resolve_left fun hready => hsend ⟨hne, hready⟩⟩

/-- MOAL completes a packet that is in flight. -/
theorem Inv.complete (h : Inv c s []) {k : ℕ} (hk : s.inFlight[k]? = some p) :
    Inv c { s with inFlight := s.inFlight.eraseIdx k, completed := s.completed ++ [p] } [] := by
  obtain ⟨hlt, rfl⟩ := List.getElem?_eq_some_iff.mp hk
  refine ⟨?_, h.order, h.exact, h.ends, h.aggrLen, h.few, h.nonempty, h.wide⟩
  have hmoved : (s.completed ++ [s.inFlight[k]] ++ s.inFlight.eraseIdx k).Perm (s.completed ++ s.inFlight) := by
    rw [append_assoc]
    exact (getElem_cons_eraseIdx_perm hlt).append_left _
  exact ((hmoved.append_right _).append_right _).trans h.once

theorem inv_step (h : Inv c s []) (hc : op.Clean c s) (hs : s.step c op = some s') :
    Inv c s' [] ∧ (op.Returns → s'.Watched) := by
  cases op with
  | hostToCardAggr p nextPktLen e =>
    obtain ⟨-, hsome⟩ := Option.ite_none_left_eq_some.mp hs
    obtain rfl := Option.some.inj hsome
    exact (h.call hc).imp_right fun hw _ => hw
  | expire =>
    obtain ⟨-, rfl⟩ := of_guard hs
    exact ⟨h.congr rfl rfl rfl rfl rfl rfl rfl, fun hr => absurd hr id⟩
  | txAggrTimeoutFunc ready e =>
    obtain ⟨-, rfl⟩ := of_guard hs
    exact (h.timeout hc).imp_right fun hw _ => hw
  | complete k =>
    obtain ⟨p, hp, rfl⟩ := Option.map_eq_some_iff.mp hs
    exact ⟨h.complete hp, fun hr => absurd hr id⟩

theorem inv_init (h : s.Init) : Inv c s [] := by
  obtain ⟨hheld, hlen, -, -, hflight, hstuck, haccepted, hcompleted, hlog⟩ := h
  refine ⟨?_, ?_, by simp [hlog], hstuck, by simp [hheld, hlen, packLen], by simp [hheld], by simp [hheld],
    by simp [hheld]⟩
  · simp [hcompleted, hflight, hheld, haccepted]
  · simp [hlog, hheld, haccepted]

/-- **Transmit aggregation keeps the packets** in clean runs : each is completed once or still here, each transfer has
its packets in order at aligned offsets and fills its buffer, the copies end, and a clean call or handler that leaves an
aggregate leaves a timer or a further packet to wait for. -/
theorem packets_kept (c : AggrCtrl) {s : UsbTxAggr}
    (h : (usbAggrSystem c).ReachableWhen (fun s op => op.Clean c s) s) :
    s.Kept c ∧ ∀ op s', op.Clean c s → s.step c op = some s' → op.Returns → s'.Watched := by
  have hinv : Inv c s [] := h.invariant (I := fun s => Inv c s []) (fun s => inv_init)
    fun s op s' hi hc hs => (inv_step hi hc hs).1
  have honce := hinv.once
  have horder := hinv.order
  rw [append_nil] at honce horder
  exact ⟨⟨honce, horder, hinv.exact, hinv.ends⟩, fun op s' hc hs hr => (inv_step hinv hc hs).2 hr⟩

/-! ## Runs -/

theorem align4_ne : (4 : UInt16) ≠ 0 := by
  decide

/-- Aggregates of at most 4000 bytes, with no timeout. -/
def noTimeout : AggrCtrl :=
  ⟨.len, 4, 4000, 0, align4_ne⟩

/-- The driver's own configuration, in V2. -/
def lenV2 : AggrCtrl :=
  ⟨.lenV2, 4, 16000, 1000, align4_ne⟩

/-- Aggregates of up to 300 packets. -/
def manyPackets : AggrCtrl :=
  ⟨.num, 4, 300, 1000, align4_ne⟩

/-- Nothing is held. -/
def idle : UsbTxAggr :=
  ⟨[], 0, false, 1, false, 0, [], false, [], [], [], 0⟩

theorem idle_init : idle.Init :=
  ⟨rfl, rfl, rfl, rfl, rfl, rfl, rfl, rfl, rfl⟩

def sendOk : SendEnv :=
  ⟨true, .pending⟩

def twoInOne : List Leaving :=
  [.sent ⟨1604, 1604, [⟨0, ⟨0, 1502, false⟩, some (1504, 11)⟩, ⟨1504, ⟨1, 100, false⟩, some (100, 0x8b)⟩]⟩,
    .sent ⟨60, 60, [⟨0, ⟨2, 60, true⟩, some (60, 0x8b)⟩]⟩]

/-- Two packets in one transfer, which the timer sends, and one on its own. -/
theorem packets_kept_v2 : ∃ s, (usbAggrSystem lenV2).ReachableWhen (fun s op => op.Clean lenV2 s) s ∧
    s.log = twoInOne ∧ s.completed.length = 3 ∧ s.Kept lenV2 := by
  obtain ⟨s, hs, hp⟩ := exists_reachableWhen_of_runWhen (M := usbAggrSystem lenV2)
    (C := fun s op => op.Clean lenV2 s)
    (P := fun s => decide (s.log = twoInOne ∧ s.completed.length = 3))
    (l := [.hostToCardAggr ⟨0, 1502, false⟩ 100 sendOk, .hostToCardAggr ⟨1, 100, false⟩ 0 sendOk, .expire,
      .txAggrTimeoutFunc true sendOk, .hostToCardAggr ⟨2, 60, true⟩ 0 sendOk, .complete 0]) (s := idle)
    (.init idle_init) (by decide +kernel)
  obtain ⟨hlog, hcompleted⟩ := of_decide_eq_true hp
  exact ⟨s, hs, hlog, hcompleted, (packets_kept lenV2 hs).1⟩

/-- A packet that did not fit stays with no timer and nothing to come; an aggregate stays behind a handler that declined;
and the copy of 256 packets does not end. -/
theorem packets_stranded :
    (∃ s p s', (usbAggrSystem noTimeout).Reachable s ∧
      s.step noTimeout (.hostToCardAggr p 0 sendOk) = some s' ∧ s'.pmbufAggr = [p] ∧ ¬s'.Watched) ∧
    (∃ s s', (usbAggrSystem lenV2).Reachable s ∧
      s.step lenV2 (.txAggrTimeoutFunc false sendOk) = some s' ∧ ¬s'.Watched) ∧
    (∃ s, (usbAggrSystem manyPackets).Reachable s ∧ s.stuck = true) ∧
    ¬∀ c s, (usbAggrSystem c).Reachable s →
      s.Kept c ∧ ∀ op s', s.step c op = some s' → op.Returns → s'.Watched := by
  have hfirst : ∃ s, (usbAggrSystem noTimeout).Reachable s ∧
      decide ((s.step noTimeout (.hostToCardAggr ⟨1, 3000, false⟩ 0 sendOk)).any fun s' =>
        s'.pmbufAggr = [⟨1, 3000, false⟩] ∧ s'.armed = false ∧ s'.nextPktLen = 0) = true :=
    exists_reachable_of_run (l := [.hostToCardAggr ⟨0, 1500, false⟩ 3000 sendOk]) idle_init (by decide +kernel)
  have hsecond : ∃ s, (usbAggrSystem lenV2).Reachable s ∧
      decide ((s.step lenV2 (.txAggrTimeoutFunc false sendOk)).any fun s' =>
        s'.pmbufAggr ≠ [] ∧ s'.armed = false ∧ s'.nextPktLen = 0) = true :=
    exists_reachable_of_run (l := [.hostToCardAggr ⟨0, 1500, false⟩ 0 sendOk, .expire]) idle_init
      (by decide +kernel)
  have hthird : ∃ s, (usbAggrSystem manyPackets).Reachable s ∧ s.stuck = true :=
    exists_reachable_of_run (P := UsbTxAggr.stuck)
      (l := List.replicate 255 (Op.hostToCardAggr ⟨0, 1500, false⟩ 1500 sendOk) ++
        [.hostToCardAggr ⟨1, 60, true⟩ 0 sendOk]) idle_init (by decide +kernel)
  simp only [decide_eq_true_eq, Option.any_eq_true] at hfirst hsecond
  obtain ⟨s, hs, s', hstep, hheld, harmed, hnext⟩ := hfirst
  obtain ⟨t, ht, t', htstep, htheld, htarmed, htnext⟩ := hsecond
  have hlost : ¬s'.Watched := fun hw => by simpa [hheld, harmed, hnext] using hw (by simp [hheld])
  have hdeclined : ¬t'.Watched := fun hw => by simpa [htarmed, htnext] using hw htheld
  exact ⟨⟨s, _, s', hs, hstep, hheld, hlost⟩, ⟨t, t', ht, htstep, hdeclined⟩, hthird,
    fun h => hlost ((h noTimeout s hs).2 _ s' hstep trivial)⟩

end UsbTxAggr

end WlanDriver.Usb
