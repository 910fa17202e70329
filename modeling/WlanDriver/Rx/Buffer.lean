import WlanDriver.Aggr.Amsdu
import WlanDriver.Reorder.Station

/-!
# Received buffers

A received buffer starts with an `RxPD`, whose fields lie at fixed offsets in the order of the host, and the frame lies
`rx_pkt_offset` behind its start. `frontEnd` is what both roles do with a packet before they look at its addresses
(`wlan_ops_sta_process_rx_packet`, `wlan_ops_uap_process_rx_packet`) : the multi-AP check, the check of its length,
management frames, and, for the monitor, a copy and an Ethernet header in place of the 802.11 header. `staWay` and `uapWay`
say where the packet goes then.

The offset of the packet comes from the firmware : a header may be written over the descriptor itself, so every
field is read from the memory as it then is.
-/

namespace WlanDriver.Rx

open Ethernet Aggr Reorder

/-! ## Octets -/

/-- The 16-bit field at `a`. -/
def u16 (m : Mem) (a : ℕ) : ℕ :=
  (m a).toNat + 256 * (m (a + 1)).toNat

/-- Write a 16-bit field. -/
def putU16 (m : Mem) (a n : ℕ) : Mem :=
  m.write a [UInt8.ofNat n, UInt8.ofNat (n / 256)]

/-- The address at `a`. -/
def macAt (m : Mem) (a : ℕ) : Mac :=
  ⟨m a, m (a + 1), m (a + 2), m (a + 3), m (a + 4), m (a + 5)⟩

/-- Bit `i` of the octet at `a`. -/
def bitAt (m : Mem) (a i : ℕ) : Bool :=
  (m a).toNat.testBit i

def pktType802Dot11 : ℕ := 0x05

def pktTypeMgmtFrame : ℕ := 0xE5

def pktTypeAmsdu : ℕ := 0xE6

def pktTypeBar : ℕ := 0xE7

def pktTypeDebug : ℕ := 0xEF

/-- `MLAN_BSS_TYPE_UAP`. -/
def bssTypeUap : ℕ := 1

/-- The descriptor at `pd`. -/
structure RxPD where
  mem : Mem
  pd : ℕ

namespace RxPD

variable (d : RxPD)

def bssType : ℕ := (d.mem d.pd).toNat
def bssNum : ℕ := (d.mem (d.pd + 1)).toNat
def rxPktLength : ℕ := u16 d.mem (d.pd + 2)
def rxPktOffset : ℕ := u16 d.mem (d.pd + 4)
def rxPktType : ℕ := u16 d.mem (d.pd + 6)
def seqNum : ℕ := u16 d.mem (d.pd + 8)
def priority : ℕ := (d.mem (d.pd + 10)).toNat

/-- `RXPD_FLAG_PKT_DIRECT_LINK`. -/
def directLink : Bool := bitAt d.mem (d.pd + 18) 0

/-- `RXPD_FLAG_UCAST_PKT`. -/
def ucast : Bool := bitAt d.mem (d.pd + 18) 3

/-- `RXPD_FLAG_PKT_EASYMESH`. -/
def easymesh : Bool := bitAt d.mem (d.pd + 18) 4

def taMac : Mac := macAt d.mem (d.pd + 40)

/-- Where the packet starts. -/
def pkt : ℕ := d.pd + d.rxPktOffset

/-- `eth803_hdr.dest_addr`. -/
def destAddr : Mac := macAt d.mem d.pkt

/-- `eth803_hdr.src_addr`. -/
def srcAddr : Mac := macAt d.mem (d.pkt + 6)

/-- What `mlan_11n_rxreorder_pkt` is told : `(t_u8)rx_pkt_type`. -/
def reorderType : PktType :=
  if d.rxPktType % 256 = pktTypeBar then .bar else if d.rxPktType % 256 = pktTypeAmsdu then .amsdu else .data

end RxPD

/-! ## Buffers and settings -/

/-- A buffer. `id` is not part of the driver : it names the allocation. -/
structure Buf where
  id : ℕ
  mem : Mem
  dataOffset : ℕ
  dataLen : ℕ
  /-- `MLAN_BUF_FLAG_BRIDGE_BUF`. -/
  bridge : Bool
  /-- `MLAN_BUF_FLAG_RX_DEAGGR`. -/
  rxDeaggr : Bool
  /-- `pdesc` is not `MNULL`. -/
  pdesc : Bool
  /-- `pparent` is not `MNULL`. -/
  parent : Bool

/-- The descriptor in front of a buffer's packet. -/
def Buf.rxPd (b : Buf) : RxPD :=
  ⟨b.mem, b.dataOffset⟩

/-- An interface. `station` gives the entry of an address in the list of stations, and of an entry whether it is enabled for
11n or 11ax. -/
structure Iface where
  uapRole : Bool
  bssType : ℕ
  bssNum : ℕ
  currAddr : Mac
  bssid : Mac
  mgmtFramePassthru : Bool
  is11nEnabled : Bool
  is11axEnabled : Bool
  queuingRaBased : Bool
  portCtrlMode : Bool
  portOpen : Bool
  pktFwd : ℕ
  mediaConnected : Bool
  hotspotEnabled : Bool
  ewpaEnabled : Bool
  station : Mac → Option Bool

/-- `PKT_FWD_INTRA_BCAST`. -/
def Iface.noBcastFwd (p : Iface) : Bool := p.pktFwd.testBit 1

/-- `PKT_FWD_INTRA_UCAST`. -/
def Iface.noUcastFwd (p : Iface) : Bool := p.pktFwd.testBit 2

/-- What `moal_recv_packet` returns. -/
inductive Recv
  | success | pending | failure
  deriving DecidableEq

/-- The adapter during a call, and what the call's environment answers : `recv`, `alloc`, `subAlloc` (by subframe), `accept`
(whether `wlan_wmm_add_buf_txqueue` queues the packet) and `drop` (the place of a queued packet that
`wlan_drop_tx_pkts` finds) are asked at the time of the clock. `convertRate` is `wlan_convert_v14_rx_rate_info`, or
nothing for other firmware. -/
structure Env (ι : Type*) where
  privs : List ι
  iface : ι → Iface
  enableNetMon : Bool
  isUsb : Bool
  rxDropP3 : Bool
  maxRxDataSize : ℕ
  recvAmsdu : Bool
  convertRate : UInt8 → UInt8
  recv : ℕ → Recv
  alloc : ℕ → Bool
  subAlloc : ℕ → ℕ → Bool
  accept : ℕ → Bool
  drop : ℕ → Option ℕ

/-! ## The front end -/

/-- `wlan_check_easymesh_pkt` succeeds. -/
def checkEasymeshPkt (p : Iface) (d : RxPD) : Bool :=
  !(p.bssType == bssTypeUap) || (p.station d.taMac).isSome

/-- The length of the 802.11 header at `hdr`. -/
def dot11HdrLen (m : Mem) (hdr : ℕ) : ℕ :=
  30 - (if bitAt m (hdr + 1) 1 ∧ bitAt m (hdr + 1) 0 then 0 else 6) + if bitAt m hdr 7 then 2 else 0

/-- `rx_pkt_offset += n` and `rx_pkt_length -= n`, both `t_u16`. -/
def skipOctets (d : RxPD) (n : ℕ) : Mem :=
  let m := putU16 d.mem (d.pd + 4) (d.rxPktOffset + n)
  putU16 m (d.pd + 2) (u16 m (d.pd + 2) + 65536 - n)

/-- An Ethernet header in place of the 802.11 header and of LLC and SNAP. -/
def rebuildHeader (d : RxPD) : Mem :=
  let dest := d.mem.read (d.pkt + 4) 6
  let src := d.mem.read (d.pkt + 10) 6
  let hdrLen := dot11HdrLen d.mem d.pkt
  if d.rxPktType = pktTypeAmsdu then skipOctets d hdrLen
  else
    let hdrLen := if d.mem.read (d.pkt + hdrLen) 5 = [0xaa, 0xaa, 0x03, 0x00, 0x00] then hdrLen + 8 else hdrLen
    let eth := d.pkt + hdrLen - 14
    skipOctets ⟨(d.mem.write eth dest).write (eth + 6) src, d.pd⟩ (hdrLen - 14)

/-- How the front end ends. A `frame` is ready; `sniffed` is the memory of the copy for the monitor. -/
inductive Front
  | refused
  | wrongLength
  | mgmt
  | badSniffer
  | frame (b : Buf) (sniffed : Option Mem)

/-- The common part of `wlan_ops_sta_process_rx_packet` and `wlan_ops_uap_process_rx_packet`. -/
def frontEnd {ι : Type*} (env : Env ι) (p : Iface) (b : Buf) : Front :=
  let b := { b with mem := b.mem.write (b.dataOffset + 14) [env.convertRate (b.mem (b.dataOffset + 14))] }
  let d := b.rxPd
  if d.easymesh ∧ !checkEasymeshPkt p d then .refused
  else if d.rxPktOffset + d.rxPktLength ≠ b.dataLen % 65536 then .wrongLength
  else
    let b := { b with dataLen := d.rxPktOffset + d.rxPktLength }
    if p.mgmtFramePassthru ∧ d.rxPktType = pktTypeMgmtFrame then .mgmt
    else if env.enableNetMon ∧ d.ucast then
      -- the frame type of 802.11, in bits 2 and 3
      if (d.mem d.pkt).toNat / 4 % 4 = 2 then
        .frame { b with mem := rebuildHeader d } (some (putU16 d.mem (d.pd + 6) pktType802Dot11))
      else .badSniffer
    else .frame b none

/-! ## Where a packet goes -/

/-- To `wlan_process_rx_packet` or `wlan_process_uap_rx_packet`, to `wlan_upload_uap_rx_packet`, past a closed port, or to
the reorder table of a transmitter. -/
inductive Way
  | process
  | upload
  | closed (ta : Mac)
  | reorder (ta : Mac)

/-- The way of a packet whose transmitter is known, as a station. -/
def staPort (p : Iface) (type : ℕ) (ta : Mac) : Way :=
  if p.portCtrlMode ∧ !p.portOpen ∧ type ≠ pktTypeBar then .closed ta else .reorder ta

/-- The way of a packet as a station; `type` is the type that the firmware gave it. Broadcast addresses are multicast. -/
def staWay (p : Iface) (type : ℕ) (d : RxPD) : Way :=
  if (!p.is11nEnabled ∧ !d.directLink) ∨ (p.currAddr ≠ d.destAddr ∧ !d.easymesh) ∨
      (d.easymesh ∧ d.destAddr.isMulticast) then .process
  else if p.queuingRaBased ∨ d.directLink then
    if d.priority < maxNumTid ∧ !(p.station d.srcAddr).getD false then .process
    else staPort p type d.srcAddr
  else staPort p type p.bssid

/-- The transmitter, as an access point. -/
def uapTa (d : RxPD) : Mac :=
  if d.easymesh then d.taMac else d.srcAddr

/-- The way of a packet as an access point. -/
def uapWay {ι P : Type*} (env : Env ι) (p : Iface) (tables : List (RxReorderTbl P)) (d : RxPD) : Way :=
  if env.enableNetMon ∧ d.rxPktType = pktType802Dot11 then .process
  else if (!p.is11nEnabled ∧ !p.is11axEnabled) ∨
      ((getRxReorderTbl tables (uapTa d, d.priority)).isNone ∧ d.rxPktType ≠ pktTypeAmsdu) then
    if p.pktFwd ≠ 0 then .process else .upload
  else .reorder (uapTa d)

/-! ## Frames that are not handed on -/

/-- `discard_gratuitous_ARP_msg`, on the frame at `a`. -/
def discardGratuitousArpMsg (m : Mem) (a : ℕ) : Bool :=
  (m.read (a + 12) 2 == [0x08, 0x06] && (ntohs m (a + 20) == 1 || ntohs m (a + 20) == 2) &&
      m.read (a + 28) 4 == m.read (a + 38) 4) ||
    (m.read (a + 12) 2 == [0x86, 0xDD] && m (a + 20) == 0x3A && m (a + 54) == 0x88 && !bitAt m (a + 58) 6)

/-- The frame at `a` has an RFC 1042 header that gives way to an Ethernet header. -/
def isSnap (m : Mem) (a : ℕ) : Bool :=
  m.read (a + 14) 6 == [0xaa, 0xaa, 0x03, 0x00, 0x00, 0xf8] ||
    (m.read (a + 14) 6 == rfc1042EthHdr && m.read (a + 20) 2 != [0x80, 0xf3] && m.read (a + 20) 2 != [0x81, 0x37])

end WlanDriver.Rx
