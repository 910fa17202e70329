import Mathlib.Data.List.GetD
import WlanDriver.Lib.Memory

/-!
# The transmit descriptor

`wlan_ops_sta_process_txpd` and `wlan_ops_uap_process_txpd` put a descriptor (`TxPD`) and the header of the interface
before a frame, at an aligned place in the headroom of its buffer. `carriesOne_processTxpd` : from the new `data_offset` on
the buffer has the header, one descriptor, a gap of less than `DMA_ALIGNMENT` octets and the frame, and the descriptor
names the place and the length of the frame.

A buffer is a memory of its own that begins at the address `pbuf`. Fields are little-endian.
-/

namespace WlanDriver.Tx

open List

def dmaAlignment : ℕ := 32

/-! ## Descriptors -/

/-- A little-endian field of 16 bits, and how it is read. -/
def le16 (x : UInt16) : List UInt8 :=
  [x.toUInt8, (x >>> 8).toUInt8]

def le32 (x : UInt32) : List UInt8 :=
  le16 x.toUInt16 ++ le16 (x >>> 16).toUInt16

def read16 (bs : List UInt8) (i : ℕ) : ℕ :=
  (bs.getD i 0).toNat + 256 * (bs.getD (i + 1) 0).toNat

/-- `TxPD`, without `ra_mac` and what is reserved behind it. -/
structure TxPD where
  bssType : UInt8
  bssNum : UInt8
  txPktLength : UInt16
  txPktOffset : UInt16
  txPktType : UInt16
  txControl : UInt32
  priority : UInt8
  flags : UInt8
  pktDelay2ms : UInt8
  reserved : UInt8
  txControl1 : UInt32

namespace TxPD

/-- The octets of a descriptor. -/
def octets (d : TxPD) : List UInt8 :=
  [d.bssType, d.bssNum] ++ le16 d.txPktLength ++ le16 d.txPktOffset ++ le16 d.txPktType ++ le32 d.txControl ++
    [d.priority, d.flags, d.pktDelay2ms, d.reserved] ++ le32 d.txControl1

@[simp] theorem length_octets (d : TxPD) : d.octets.length = 20 :=
  rfl

end TxPD

/-- Where `flags` and `ra_mac` are in a descriptor. -/
def flagsOffset : ℕ := 13

def raMacOffset : ℕ := 20

/-- `MRVDRV_TxPD_POWER_MGMT_LAST_PACKET`. -/
def txPdLastPacket : UInt8 := 0x08

/-- `MRVDRV_TxPD_FLAGS_TDLS_PACKET`. -/
def txPdTdlsPacket : UInt8 := 0x10

/-- `MRVDRV_TxPD_FLAGS_TX_PACKET_STATUS`. -/
def txPdPacketStatus : UInt8 := 0x20

/-- `MRVDRV_TxPD_FLAGS_EASYMESH`. -/
def txPdEasymesh : UInt8 := 0x80

/-- `PKT_TYPE_802DOT11_MC_AGGR`. -/
def pktTypeMcAggr : UInt16 := 11

/-! ## Buffers -/

/-- `pkt_txctrl`. `hostctl` is that of `tx_power`. -/
structure PktTxctrl where
  dataRate : UInt16
  channel : UInt8
  bw : UInt8
  hostctl : Bool
  txPower : UInt8
  retryLimit : UInt8

structure McTxcontrol where
  mcsIndex : UInt8
  bandwidth : UInt8
  seqNum : UInt16
  pktExpiry : UInt32
  mcPktFlags : UInt8

/-- The `MLAN_BUF_FLAG_*` that are looked at. -/
structure BufFlags where
  requeuedPkt : Bool
  tdls : Bool
  txStatus : Bool
  txCtrl : Bool
  easymesh : Bool
  mcAggrPkt : Bool
  lldePktFilter : Bool
  deriving DecidableEq

/-- `mlan_buffer`. The last three are history variables : which frame it is, its octets as they were enqueued, and whether
a descriptor was put before them. -/
structure MlanBuffer where
  pbuf : ℕ
  mem : Mem
  dataOffset : ℕ
  dataLen : ℕ
  /-- `buf_type` is `MLAN_BUF_TYPE_RAW_DATA`. -/
  rawData : Bool
  priority : UInt8
  flags : BufFlags
  mac : List UInt8
  txSeqNum : UInt32
  txInfo : PktTxctrl
  mcTxInfo : McTxcontrol
  id : ℕ
  frame : List UInt8
  described : Bool

/-- What is fixed for an interface. -/
structure Priv where
  /-- `GET_BSS_ROLE` is `MLAN_BSS_ROLE_STA`. -/
  isSta : Bool
  bssNum : UInt8
  bssType : UInt8
  intfHrLen : ℕ
  /-- `IS_FW_SUPPORT_EASY_MESH`. -/
  easyMesh : Bool

/-- What else is read when a descriptor is made : settings, and what other functions give for the packet. -/
structure TxEnv where
  userPriPktTxCtrl : List UInt32
  pktTxCtrl : UInt32
  pktDelay2ms : UInt8
  /-- `pps_uapsd_mode` is set and `wlan_check_last_packet_indication` is true. -/
  lastPacket : Bool
  /-- `wlan_ieee_rateid_to_mrvl_rateid`. -/
  mrvlRateid : UInt16 → UInt32

def Priv.txPdSizeof (p : Priv) : ℕ :=
  if p.easyMesh then 28 else 20

namespace MlanBuffer

variable (b : MlanBuffer)

/-- The octets of packet type and control before a raw frame. -/
def rawLen : ℕ :=
  if b.rawData then 8 else 0

/-- The octets that the buffer holds, from `data_offset` on. -/
def octets : List UInt8 :=
  b.mem.read b.dataOffset b.dataLen

/-- A 16-bit or 32-bit field of the raw header. -/
def raw16 (i : ℕ) : UInt16 :=
  (b.mem (b.dataOffset + i)).toUInt16 ||| (b.mem (b.dataOffset + i + 1)).toUInt16 <<< 8

def raw32 (i : ℕ) : UInt32 :=
  (b.raw16 i).toUInt32 ||| (b.raw16 (i + 2)).toUInt32 <<< 16

/-- `tx_control` with the bits of `tx_ctrl` for a packet of a multicast aggregate. -/
def mcControl (c : UInt32) : UInt32 :=
  let i := b.mcTxInfo
  let flag (n m : UInt32) : UInt32 := (i.mcPktFlags.toUInt32 >>> n &&& 1) <<< m
  let rate : UInt32 := i.mcsIndex.toUInt32 &&& 0x1f
  let bw : UInt32 := i.bandwidth.toUInt32 &&& 0x7
  let kept : UInt32 := c &&& 0xe000ffff
  kept ||| rate <<< 16 ||| bw <<< 21 ||| flag 1 24 ||| flag 2 25 ||| flag 3 26 ||| flag 4 27 ||| flag 0 28

/-- The bits of `u.tx_info` for `tx_control` and `tx_control_1`. -/
def infoControl (env : TxEnv) : UInt32 :=
  let i := b.txInfo
  (if i.dataRate ≠ 0 then env.mrvlRateid i.dataRate <<< 16 ||| 0x8000 else 0) |||
    (if i.hostctl then i.txPower.toUInt32 else 0) |||
    (if i.retryLimit ≠ 0 then i.retryLimit.toUInt32 <<< 8 ||| 0x1000 else 0)

def infoControl1 : UInt32 :=
  b.txInfo.channel.toUInt32 <<< 21 ||| (if b.txInfo.bw ≠ 0 then b.txInfo.bw.toUInt32 <<< 16 ||| 0x100000 else 0)

/-- `tx_control` of the descriptor. -/
def txControl (p : Priv) (env : TxEnv) : UInt32 :=
  let user := if b.priority.toNat < env.userPriPktTxCtrl.length then env.userPriPktTxCtrl.getD b.priority.toNat 0 else 0
  let c := if user = 0 then env.pktTxCtrl else user
  let c := if b.rawData then b.raw32 4 else c
  let c := if b.flags.txCtrl then c ||| b.infoControl env else c
  let c := if b.flags.mcAggrPkt then b.mcControl c else c
  if !p.isSta && b.flags.lldePktFilter then c ||| 0x40000000 else c

/-- `flags` of the descriptor. The last packet and TDLS are for stations. -/
def txFlags (p : Priv) (env : TxEnv) : UInt8 :=
  (if p.isSta && env.lastPacket then txPdLastPacket else 0) ||| (if p.isSta && b.flags.tdls then txPdTdlsPacket else 0) |||
    (if b.flags.easymesh then txPdEasymesh else 0) ||| if b.flags.txStatus then txPdPacketStatus else 0

/-- The descriptor for `len` octets that are `offset` octets behind its start. -/
def txPd (p : Priv) (env : TxEnv) (len offset : ℕ) : TxPD where
  bssType := p.bssType
  bssNum := p.bssNum
  txPktLength := UInt16.ofNat len
  txPktOffset := UInt16.ofNat offset
  txPktType := if b.flags.mcAggrPkt then pktTypeMcAggr else if b.rawData then b.raw16 0 else 0
  txControl := b.txControl p env
  priority := b.priority
  flags := b.txFlags p env
  pktDelay2ms := if b.flags.mcAggrPkt then b.mcTxInfo.seqNum.toUInt8 else env.pktDelay2ms
  reserved := if b.flags.mcAggrPkt then (b.mcTxInfo.seqNum >>> 8).toUInt8 else 0
  txControl1 :=
    if b.flags.mcAggrPkt then b.mcTxInfo.pktExpiry
    else (if b.flags.txStatus then b.txSeqNum <<< 8 else 0) ||| if b.flags.txCtrl then b.infoControl1 else 0

/-- Where the frame begins, behind a raw header. -/
def frameOffset : ℕ :=
  b.dataOffset + b.rawLen

/-- `head_ptr`, as an offset : aligned, with room for the header and the descriptor. -/
def headOffset (p : Priv) : ℕ :=
  (b.pbuf + b.frameOffset - p.txPdSizeof - p.intfHrLen) / dmaAlignment * dmaAlignment - b.pbuf

/-- The memory with the descriptor at `pd`. The address of the receiver is written whatever the size of a descriptor is. -/
def describe (p : Priv) (env : TxEnv) (pd : ℕ) : Mem :=
  let d := b.txPd p env (b.dataLen - b.rawLen) (b.frameOffset - pd)
  let m := b.mem.write pd (d.octets ++ List.replicate (p.txPdSizeof - 20) 0)
  if b.flags.easymesh then m.write (pd + raMacOffset) (b.mac.take 6) else m

/-- `wlan_ops_sta_process_txpd` and `wlan_ops_uap_process_txpd`, `none` if they return no pointer. -/
def processTxpd (p : Priv) (env : TxEnv) : Option MlanBuffer :=
  if b.dataLen = 0 then none
  else if b.frameOffset < p.txPdSizeof + p.intfHrLen + dmaAlignment then none
  else
    some { b with
      mem := b.describe p env (b.headOffset p + p.intfHrLen)
      dataOffset := b.headOffset p
      dataLen := b.dataLen - b.rawLen + b.frameOffset - b.headOffset p
      described := true }

/-- `wlan_process_tx` clears the flags of a packet that was refused while it was the last one of its period. -/
def clearFlags (p : Priv) : MlanBuffer :=
  { b with mem := b.mem.write (b.dataOffset + p.intfHrLen + flagsOffset) [0] }

/-- The frame is in the buffer as it was enqueued, and nothing is before it but a raw header. -/
structure Bare : Prop where
  raw : b.rawLen ≤ b.dataLen
  frame : b.mem.read b.frameOffset (b.dataLen - b.rawLen) = b.frame

/-- `ra_mac`, if it is written, ends before the frame. -/
def MeshRoom (p : Priv) : Prop :=
  b.flags.easymesh = true → b.headOffset p + p.intfHrLen + raMacOffset + (b.mac.take 6).length ≤ b.frameOffset
  deriving Decidable

end MlanBuffer

/-! ## One descriptor -/

/-- The octets are a header, a descriptor that names place and length of the frame, a gap, and the frame. -/
def CarriesOne (p : Priv) (frame octets : List UInt8) : Prop :=
  ∃ hdr d gap : List UInt8, octets = hdr ++ (d ++ (gap ++ frame)) ∧ hdr.length = p.intfHrLen ∧
    d.length = p.txPdSizeof ∧ gap.length < dmaAlignment ∧ read16 d 2 = frame.length % 65536 ∧
    read16 d 4 = p.txPdSizeof + gap.length

variable {p : Priv} {env : TxEnv} {b b' : MlanBuffer} {frame bs : List UInt8}

theorem txPdSizeof_bounds (p : Priv) : 20 ≤ p.txPdSizeof ∧ p.txPdSizeof ≤ 28 := by
  unfold Priv.txPdSizeof
  split <;> decide

/-- The length of what is handed over follows from the descriptor and the frame. -/
theorem CarriesOne.length (h : CarriesOne p frame bs) :
    bs.length = p.intfHrLen + read16 (bs.drop p.intfHrLen) 4 + frame.length := by
  obtain ⟨hdr, d, gap, rfl, hhdr, hd, -, -, hoff⟩ := h
  have hsize := txPdSizeof_bounds p
  have hget : ∀ i < d.length, ((hdr ++ (d ++ (gap ++ frame))).drop p.intfHrLen).getD i 0 = d.getD i 0 := by
    intro i hi
    rw [← hhdr, drop_left]
    exact getD_append _ _ _ _ hi
  have hread : read16 ((hdr ++ (d ++ (gap ++ frame))).drop p.intfHrLen) 4 = p.txPdSizeof + gap.length := by
    unfold read16
    rw [hget 4 (by omega), hget (4 + 1) (by omega)]
    exact hoff
  rw [hread]
  simp only [length_append]
  omega

/-- A field of what was read from memory. -/
theorem read16_read {m : Mem} {a n i : ℕ} (h : i + 1 < n) :
    read16 (m.read a n) i = (m (a + i)).toNat + 256 * (m (a + i + 1)).toNat := by
  have hget : ∀ j < n, (m.read a n).getD j 0 = m (a + j) := by
    intro j hj
    rw [getD_eq_getElem _ _ (by rw [Mem.length_read]; exact hj)]
    simp [Mem.read]
  unfold read16
  rw [hget i (by omega), hget (i + 1) h]
  rfl

theorem toNat_le16 (n : ℕ) :
    (UInt16.ofNat n).toUInt8.toNat + 256 * (UInt16.ofNat n >>> 8).toUInt8.toNat = n % 65536 := by
  have hlow : (UInt16.ofNat n).toUInt8.toNat = n % 65536 % 256 := by
    rw [UInt16.toNat_toUInt8, UInt16.toNat_ofNat']
  have hhigh : (UInt16.ofNat n >>> 8).toUInt8.toNat = n % 65536 / 256 % 256 := by
    rw [UInt16.toNat_toUInt8, UInt16.toNat_shiftRight, UInt16.toNat_ofNat', Nat.shiftRight_eq_div_pow]
    rfl
  omega

/-- The header, the descriptor and a gap end at the frame. -/
theorem headOffset_add (h : p.txPdSizeof + p.intfHrLen + dmaAlignment ≤ b.frameOffset) :
    ∃ gap < dmaAlignment, b.headOffset p + p.intfHrLen + p.txPdSizeof + gap = b.frameOffset := by
  have halign : dmaAlignment = 32 := rfl
  rw [halign] at h ⊢
  refine ⟨b.frameOffset - (b.headOffset p + p.intfHrLen + p.txPdSizeof), ?_, ?_⟩ <;>
  · unfold MlanBuffer.headOffset
    rw [halign]
    omega

section Describe

variable {pd gap : ℕ}

/-- What lies behind the descriptor, and behind `ra_mac` if it is written, is kept. -/
theorem read_describe {a n : ℕ} (ha : pd + p.txPdSizeof ≤ a)
    (hmesh : b.flags.easymesh = true → pd + raMacOffset + (b.mac.take 6).length ≤ a) :
    (b.describe p env pd).read a n = b.mem.read a n := by
  have hsize := txPdSizeof_bounds p
  have hfirst : (b.mem.write pd ((b.txPd p env (b.dataLen - b.rawLen) (b.frameOffset - pd)).octets ++
      List.replicate (p.txPdSizeof - 20) 0)).read a n = b.mem.read a n := by
    refine Mem.read_write_of_disjoint (.inr ?_)
    rw [length_append, TxPD.length_octets, length_replicate]
    omega
  unfold MlanBuffer.describe
  dsimp only
  split
  · next hflag =>
    rw [Mem.read_write_of_disjoint (.inr (hmesh hflag)), hfirst]
  · exact hfirst

/-- The fields before `ra_mac` are those of the descriptor. -/
theorem describe_apply {i : ℕ} (hi : i < 20) : b.describe p env pd (pd + i) =
    (b.txPd p env (b.dataLen - b.rawLen) (b.frameOffset - pd)).octets.getD i 0 := by
  have hlen := TxPD.length_octets (b.txPd p env (b.dataLen - b.rawLen) (b.frameOffset - pd))
  have hfirst : b.mem.write pd ((b.txPd p env (b.dataLen - b.rawLen) (b.frameOffset - pd)).octets ++
      List.replicate (p.txPdSizeof - 20) 0) (pd + i) =
      (b.txPd p env (b.dataLen - b.rawLen) (b.frameOffset - pd)).octets.getD i 0 := by
    rw [Mem.write_apply_of_mem (by rw [length_append]; omega), getElem_append_left (by omega),
      getD_eq_getElem _ _ (by omega)]
  unfold MlanBuffer.describe
  split
  · have hra : raMacOffset = 20 := rfl
    rw [Mem.write_apply_of_not_mem (.inl (by omega)), hfirst]
  · exact hfirst

/-- A buffer whose descriptor is at `pd`, behind a header and before a gap and the frame. -/
theorem carriesOne_of_fields {m : Mem} {head : ℕ} (hpd : head + p.intfHrLen = pd) (hgap : gap < dmaAlignment)
    (hframe : m.read (pd + p.txPdSizeof + gap) frame.length = frame)
    (hlen : (m (pd + 2)).toNat + 256 * (m (pd + 3)).toNat = frame.length % 65536)
    (hoff : (m (pd + 4)).toNat + 256 * (m (pd + 5)).toNat = p.txPdSizeof + gap) :
    CarriesOne p frame (m.read head (p.intfHrLen + (p.txPdSizeof + (gap + frame.length)))) := by
  have hsize := txPdSizeof_bounds p
  subst hpd
  refine ⟨m.read head p.intfHrLen, m.read (head + p.intfHrLen) p.txPdSizeof,
    m.read (head + p.intfHrLen + p.txPdSizeof) gap, ?_, Mem.length_read _ _ _, Mem.length_read _ _ _, ?_, ?_, ?_⟩
  · rw [Mem.read_add, Mem.read_add, Mem.read_add, hframe]
  · rwa [Mem.length_read]
  · rw [read16_read (by omega)]
    exact hlen
  · rw [read16_read (by omega), Mem.length_read]
    exact hoff

end Describe

/-- A buffer without a descriptor gets one. -/
theorem carriesOne_processTxpd (h : b.processTxpd p env = some b') (hbare : b.Bare) (hmesh : b.MeshRoom p) :
    CarriesOne p b.frame b'.octets := by
  unfold MlanBuffer.processTxpd at h
  split_ifs at h with hzero hroom
  obtain rfl := Option.some.inj h
  obtain ⟨gap, hgap, hsum⟩ := headOffset_add (Nat.le_of_not_lt hroom)
  obtain ⟨hraw, hframe⟩ := hbare
  have hsize := txPdSizeof_bounds p
  have halign : dmaAlignment = 32 := rfl
  have hflen : b.frame.length = b.dataLen - b.rawLen := by
    rw [← hframe, Mem.length_read]
  have hlen : b.dataLen - b.rawLen + b.frameOffset - b.headOffset p =
      p.intfHrLen + (p.txPdSizeof + (gap + b.frame.length)) := by
    omega
  change CarriesOne p b.frame (Mem.read (b.describe p env (b.headOffset p + p.intfHrLen)) (b.headOffset p)
    (b.dataLen - b.rawLen + b.frameOffset - b.headOffset p))
  rw [hlen]
  refine carriesOne_of_fields rfl hgap ?_ ?_ ?_
  · rw [read_describe (by omega) (hsum ▸ hmesh), hsum, hflen]
    exact hframe
  · rw [describe_apply (by decide), describe_apply (by decide), hflen]
    exact toNat_le16 _
  · rw [describe_apply (by decide), describe_apply (by decide)]
    have hplace : b.frameOffset - (b.headOffset p + p.intfHrLen) = p.txPdSizeof + gap := by omega
    rw [hplace]
    exact (toNat_le16 _).trans (Nat.mod_eq_of_lt (by omega))

theorem carriesOne_clearFlags (h : CarriesOne p frame b.octets) : CarriesOne p frame (b.clearFlags p).octets := by
  obtain ⟨hdr, d, gap, heq, hhdr, hd, hgap, hlen, hoff⟩ := h
  have hsize := txPdSizeof_bounds p
  have hflags : flagsOffset = 13 := rfl
  have htotal : b.dataLen = p.intfHrLen + (p.txPdSizeof + (gap.length + frame.length)) := by
    have := congrArg List.length heq
    simp only [MlanBuffer.octets, Mem.length_read, length_append] at this
    omega
  unfold MlanBuffer.octets at heq
  rw [htotal, Mem.read_add, Mem.read_add, Mem.read_add] at heq
  obtain ⟨-, hrest⟩ := append_inj heq (by rw [Mem.length_read, hhdr])
  obtain ⟨rfl, hbehind⟩ := append_inj hrest (by rw [Mem.length_read, hd])
  obtain ⟨-, hframe⟩ := append_inj hbehind (Mem.length_read _ _ _)
  rw [read16_read (by omega)] at hlen hoff
  change CarriesOne p frame (Mem.read _ b.dataOffset b.dataLen)
  rw [htotal]
  have hkeep : ∀ i, i ≠ 13 → (b.clearFlags p).mem (b.dataOffset + p.intfHrLen + i) =
      b.mem (b.dataOffset + p.intfHrLen + i) := by
    intro i hi
    refine Mem.write_apply_of_not_mem ?_
    rw [length_singleton, hflags]
    omega
  refine carriesOne_of_fields rfl hgap ?_ ?_ ?_
  · refine (Mem.read_write_of_disjoint (.inr ?_)).trans hframe
    rw [length_singleton, hflags]
    omega
  · rw [hkeep 2 (by decide), hkeep 3 (by decide)]
    exact hlen
  · rw [hkeep 4 (by decide), hkeep 5 (by decide)]
    exact hoff

end WlanDriver.Tx
