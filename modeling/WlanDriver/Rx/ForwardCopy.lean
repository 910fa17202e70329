import WlanDriver.Rx.Disposal
import WlanDriver.Tx.Descriptor

/-!
# What an access point forwards

`wlan_process_uap_rx_packet` and `wlan_uap_recv_packet` queue a frame for another station of the BSS : a copy in a buffer of
`MLAN_TX_DATA_BUF_SIZE_2K` octets, or the buffer that was received. A copy starts behind the room for a transmit descriptor,
but what is copied is bounded by the size of the whole buffer, or by the length of the frame itself. `uap_forward_intact_iff`
tells which frames are forwarded as they are.
-/

namespace WlanDriver.Rx

open Ethernet
open Tx (Priv dmaAlignment)

def mlanTxDataBufSize2K : ℕ := 2048

/-- The room in front of a frame that `wlan_ops_uap_process_txpd` asks for. -/
def txHeadRoom (p : Priv) : ℕ :=
  p.txPdSizeof + p.intfHrLen + dmaAlignment

/-- What becomes of a frame : the host gets it, alone or with a copy in the queue, or a copy is queued in its place, or it
is. -/
inductive UapWay
  | upload
  | broadcast
  | copied
  | moved
  deriving DecidableEq

/-- Where the functions send a frame; a unicast one is copied if its buffer may not be queued. -/
def uapForward (p : Iface) (dest : Mac) (keeps : Bool) : UapWay :=
  if !p.mediaConnected then .upload
  else if dest.isMulticast then if p.noBcastFwd then .upload else .broadcast
  else if !p.noUcastFwd ∧ (p.station dest).isSome then if keeps then .copied else .moved
  else .upload

/-- A queued frame; of a copy, how many octets were copied to the offset. -/
structure Queued where
  mem : Mem
  dataOffset : ℕ
  dataLen : ℕ
  copied : Option ℕ

section

variable (p : Priv) (b : Buf) (newbuf : Option Mem) (skip : ℕ)

/-- A copy of what lies behind the first `skip` octets, in the buffer that `wlan_alloc_mlan_buffer` gives. -/
def copyFrame (size : ℕ) : Option Queued :=
  newbuf.map fun m =>
    let n := min (b.dataLen - skip) size
    ⟨m.write (txHeadRoom p) (b.mem.read (b.dataOffset + skip) n), txHeadRoom p, b.dataLen - skip, some n⟩

/-- What `wlan_process_uap_rx_packet` queues; of a frame on USB that was taken out of an aggregate, the length bounds the
copy. -/
def queues : UapWay → Option Queued
  | .upload => none
  | .broadcast => copyFrame p b newbuf skip mlanTxDataBufSize2K
  | .copied => copyFrame p b newbuf skip (b.dataLen - skip)
  | .moved => some ⟨b.mem, b.dataOffset + skip, b.dataLen - skip, none⟩

/-- What `wlan_uap_recv_packet` queues of a subframe. -/
def recvQueues : UapWay → Option Queued
  | .upload | .moved => none
  | .broadcast | .copied => copyFrame p b newbuf 0 mlanTxDataBufSize2K

/-- The queued octets are those of the frame, there is room for a descriptor, and a copy is whole and inside of its buffer. -/
structure Queued.Intact (q : Queued) : Prop where
  frame : q.mem.read q.dataOffset q.dataLen = b.mem.read (b.dataOffset + skip) (b.dataLen - skip)
  room : txHeadRoom p ≤ q.dataOffset
  covered : ∀ n ∈ q.copied, q.dataLen ≤ n
  inside : ∀ n ∈ q.copied, q.dataOffset + n ≤ mlanTxDataBufSize2K

/-- The frame fits : its copy behind the room for a descriptor, or the descriptor in front of it. -/
def ForwardFits : UapWay → Prop
  | .upload => True
  | .broadcast | .copied => newbuf.isSome = true → txHeadRoom p + (b.dataLen - skip) ≤ mlanTxDataBufSize2K
  | .moved => txHeadRoom p ≤ b.dataOffset + skip

end

/-! ## The receive path -/

section

variable {ι : Type*} {env : Env ι} {i : ι} {b : Buf} {s : RxPath ι}

/-- Where `wlan_process_uap_rx_packet` sends a frame. -/
def processUapWay (env : Env ι) (i : ι) (b : Buf) : UapWay :=
  if env.enableNetMon ∧ b.rxPd.rxPktType = pktType802Dot11 then .upload
  else uapForward (env.iface i) b.rxPd.destAddr (env.isUsb && b.rxDeaggr)

/-- Where `wlan_uap_recv_packet` sends a subframe. -/
def uapRecvWay (env : Env ι) (i : ι) (b : Buf) : UapWay :=
  uapForward (env.iface i) (macAt b.mem b.dataOffset) true

/-- The function of the receive path takes these ways. -/
theorem processUapRxPacket_eq : processUapRxPacket env i b s =
    match processUapWay env i b with
    | .upload => recvPacket env complete b s
    | .broadcast => recvPacket env complete b (forwardCopy env b b.rxPd.rxPktOffset s)
    | .copied => complete b (forwardCopy env b b.rxPd.rxPktOffset s)
    | .moved => forward env { b with
        dataOffset := b.dataOffset + b.rxPd.rxPktOffset, dataLen := b.dataLen - b.rxPd.rxPktOffset } s := by
  unfold processUapRxPacket processUapWay uapForward
  simp only [Bool.and_eq_true]
  split_ifs <;> simp_all

theorem uapRecvPacket_eq : uapRecvPacket env i b s =
    match uapRecvWay env i b with
    | .upload | .moved => recvPacket env recvPacketComplete b s
    | .broadcast => recvPacket env recvPacketComplete b (forwardCopy env b 0 s)
    | .copied => recvPacketComplete b (forwardCopy env b 0 s) := by
  unfold uapRecvPacket uapRecvWay uapForward
  simp only [if_true]
  split_ifs <;> rfl

end

/-! ## Copies -/

variable {p : Priv} {b : Buf} {newbuf : Option Mem} {skip size : ℕ}

/-- A copy is intact exactly if the frame fits behind the head room, whatever else bounds the copy. -/
theorem copyFrame_intact_iff (hsize : size = mlanTxDataBufSize2K ∨ size = b.dataLen - skip) :
    (∀ q ∈ copyFrame p b newbuf skip size, q.Intact p b skip) ↔
      (newbuf.isSome = true → txHeadRoom p + (b.dataLen - skip) ≤ mlanTxDataBufSize2K) := by
  cases newbuf with
  | none => simp [copyFrame]
  | some m =>
    simp only [copyFrame, Option.map_some, Option.mem_def, Option.some.injEq, forall_eq', Option.isSome_some, forall_const]
    constructor
    · intro h
      have hcovered := h.covered _ rfl
      have hinside := h.inside _ rfl
      dsimp only at hcovered hinside
      omega
    · intro h
      have hmin : min (b.dataLen - skip) size = b.dataLen - skip := by omega
      rw [hmin]
      refine ⟨?_, le_rfl, fun n hn => (Option.some.inj hn).le, fun n hn => Option.some.inj hn ▸ h⟩
      have hread := Mem.read_write m (txHeadRoom p) (b.mem.read (b.dataOffset + skip) (b.dataLen - skip))
      rwa [Mem.length_read] at hread

theorem queues_intact_iff (w : UapWay) :
    (∀ q ∈ queues p b newbuf skip w, q.Intact p b skip) ↔ ForwardFits p b newbuf skip w := by
  cases w with
  | upload => simp [queues, ForwardFits]
  | broadcast => exact copyFrame_intact_iff (.inl rfl)
  | copied => exact copyFrame_intact_iff (.inr rfl)
  | moved =>
    simp only [queues, Option.mem_def, Option.some.injEq, forall_eq', ForwardFits]
    exact ⟨fun h => h.room, fun h => ⟨rfl, h, nofun, nofun⟩⟩

/-- **Forwarding.** Whatever a call queues of a received frame, or of a subframe, is intact if and only if the copy fits into its
buffer behind the head room, and a buffer that is queued itself has the head room. -/
theorem uap_forward_intact_iff {ι : Type*} (env : Env ι) (i : ι) (p : Priv) (b : Buf) (newbuf : Option Mem) :
    ((∀ q ∈ queues p b newbuf b.rxPd.rxPktOffset (processUapWay env i b), q.Intact p b b.rxPd.rxPktOffset) ↔
      ForwardFits p b newbuf b.rxPd.rxPktOffset (processUapWay env i b)) ∧
    ((∀ q ∈ recvQueues p b newbuf (uapRecvWay env i b), q.Intact p b 0) ↔ ForwardFits p b newbuf 0 (uapRecvWay env i b)) := by
  refine ⟨queues_intact_iff _, ?_⟩
  -- a subframe is never queued in its own buffer
  have hkept : uapRecvWay env i b ≠ .moved := by
    simp only [uapRecvWay, uapForward, if_true]
    split_ifs <;> exact nofun
  cases hway : uapRecvWay env i b with
  | upload => simp [recvQueues, ForwardFits]
  | broadcast | copied => exact copyFrame_intact_iff (.inl rfl)
  | moved => exact absurd hway hkept

/-- A broadcast frame of 2000 octets behind a descriptor of 48. -/
def largeFrame : Buf where
  id := 0
  mem a := if a = 2 then 0xd0 else if a = 3 then 7 else if a = 4 then 48 else if 48 ≤ a ∧ a < 54 then 255 else 0
  dataOffset := 0
  dataLen := 2048
  bridge := false
  rxDeaggr := false
  pdesc := false
  parent := false

/-- Its copy ends behind its buffer. -/
theorem uap_forward_large : ∃ q ∈ queues ⟨false, 0, 1, 4, false⟩ largeFrame (some fun _ => 0) largeFrame.rxPd.rxPktOffset
    (processUapWay someEnv () largeFrame), ¬q.Intact ⟨false, 0, 1, 4, false⟩ largeFrame largeFrame.rxPd.rxPktOffset := by
  have hway : processUapWay someEnv () largeFrame = .broadcast := by decide
  rw [hway]
  exact ⟨_, rfl, fun h => absurd (h.inside _ rfl) (by decide)⟩

end WlanDriver.Rx
