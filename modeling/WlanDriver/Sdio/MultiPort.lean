import Mathlib.Data.Nat.Bitwise
import WlanDriver.Lib.Memory
import WlanDriver.Lib.System

/-!
# SDIO multi-port transmit

`mlan_sdio.c` gives each data packet a write port of the card, in a fixed cyclic order, and collects packets in the
aggregation buffer `mpa_tx`, so that one write of the bus carries the packets of several ports. The address of such a
write says which ports it serves. In the new port mode it has the first port and the number of ports; in the old mode it
has the first port and a bit for each further port, by its distance from the first one.

`MpaTx` is the state of this path. `mbuf_arr` holds the packets in scatter-gather mode and `buf` their octets
otherwise. `written` and `taken` are history : the writes, and the packets that got a port, with their ports.
-/

namespace WlanDriver.Sdio

/-- `MLAN_SDIO_BLOCK_SIZE`. -/
def blockSize : ℕ := 256

/-- `SDIO_MPA_ADDR_BASE`. -/
def mpaAddrBase : ℕ := 0x1000

/-- `max_ports`; the new mode is `supports_sdio_new_mode`. -/
def maxPorts (newMode : Bool) : ℕ :=
  if newMode then 32 else 16

/-- `reg->start_wr_port`. -/
def startWrPort (newMode : Bool) : ℕ :=
  if newMode then 0 else 1

def mpAggrPktLimit (newMode : Bool) : ℕ :=
  if newMode then 16 else 8

/-- `reg->data_port_mask`. -/
def dataPortMask (newMode : Bool) : BitVec 32 :=
  if newMode then 0xffffffff else 0x0000fffe

/-- What the card and the configuration fix. -/
structure Card where
  newMode : Bool
  ioport : ℕ
  mpEndPort : ℕ
  pktAggrLimit : ℕ
  bufSize : ℕ
  /-- `mpa_tx.enabled`. -/
  enabled : Bool
  /-- `mpa_tx.buf` is null. -/
  sg : Bool
  /-- The I/O port leaves the bits below to the port addresses. -/
  ioport_low : ioport % 0x2000 = 0
  start_lt_end : startWrPort newMode < mpEndPort
  end_le_max : mpEndPort ≤ maxPorts newMode
  limit_pos : 0 < pktAggrLimit
  limit_le : pktAggrLimit ≤ mpAggrPktLimit newMode
  bufSize_lt : bufSize < 2 ^ 16

/-- A write to the card. -/
structure Write where
  /-- `cmd53_port`. -/
  port : ℕ
  data : List UInt8
  deriving DecidableEq

/-- The transmit path. -/
structure MpaTx where
  mpWrBitmap : BitVec 32
  currWrPort : ℕ
  buf : Mem
  mbufArr : ℕ → List UInt8
  bufLen : ℕ
  pktCnt : ℕ
  ports : ℕ
  startPort : ℕ
  dataSent : Bool
  /-- What the card got. -/
  written : List Write
  /-- What got a port, with the port. -/
  taken : List (List UInt8 × ℕ)

namespace Card

variable (c : Card)

/-- The port behind `p`. -/
def nextPort (p : ℕ) : ℕ :=
  if p + 1 = c.mpEndPort then startWrPort c.newMode else p + 1

/-- `mp_data_port_mask` : without the ports from `mp_end_port` on. -/
def mpDataPortMask : BitVec 32 :=
  (List.range (maxPorts c.newMode - c.mpEndPort)).foldl
    (fun m i => m &&& ~~~((1 : BitVec 32) <<< (maxPorts c.newMode - (i + 1)))) (dataPortMask c.newMode)

end Card

namespace MpaTx

variable (c : Card) (s : MpaTx)

/-- The bit of `curr_wr_port` is set in `mp_wr_bitmap`. -/
def portReady : Bool :=
  s.mpWrBitmap.getLsbD s.currWrPort

def getWrPortData : MpaTx × Option ℕ :=
  if s.mpWrBitmap &&& c.mpDataPortMask = 0 then ({ s with dataSent := true }, none)
  else if s.portReady then
    let u := { s with
      mpWrBitmap := s.mpWrBitmap &&& ~~~((1 : BitVec 32) <<< s.currWrPort)
      currWrPort := c.nextPort s.currWrPort }
    -- port 0 is the control port of the old mode
    if !c.newMode && s.currWrPort = 0 then (u, none) else (u, some s.currWrPort)
  else ({ s with dataSent := true }, none)

/-- `MP_TX_AGGR_BUF_HAS_ROOM`. -/
def bufHasRoom (len : ℕ) : Bool :=
  (s.bufLen + len) % 2 ^ 32 ≤ c.bufSize

/-- `MP_TX_AGGR_PORT_LIMIT_REACHED`. -/
def portLimitReached : Bool :=
  s.currWrPort < s.startPort &&
    mpAggrPktLimit c.newMode ≤ maxPorts c.newMode - s.startPort + s.currWrPort

/-- The bit of `ports` for a packet of the port `port`. -/
def portBit (start port : ℕ) : ℕ :=
  if c.newMode then port
  else if start ≤ port then s.pktCnt else s.pktCnt + 1 + (maxPorts c.newMode - c.mpEndPort)

/-- `MP_TX_AGGR_BUF_PUT`, and its variants `_NONEWMODE`, `_SG` and `_SG_NONEWMODE`. -/
def aggrBufPut (data : List UInt8) (port : ℕ) : MpaTx :=
  let start := if s.pktCnt = 0 then port else s.startPort
  { s with
    buf := if c.sg then s.buf else s.buf.write s.bufLen data
    mbufArr := if c.sg then Function.update s.mbufArr s.pktCnt data else s.mbufArr
    bufLen := s.bufLen + data.length
    startPort := start
    ports := s.ports ||| 1 <<< s.portBit c start port
    pktCnt := s.pktCnt + 1 }

def bitcount (n : ℕ) : ℕ :=
  (List.range 32).countP fun i => n.testBit i

/-- The address of the write in `wlan_send_mp_aggr_buf`. -/
def cmd53Port : ℕ :=
  if s.pktCnt = 1 then c.ioport + s.startPort
  else if c.newMode then (c.ioport ||| mpaAddrBase ||| (bitcount s.ports - 1) <<< 8) + s.startPort
  else (c.ioport ||| mpaAddrBase ||| s.ports <<< 4) + s.startPort

/-- `wlan_send_mp_aggr_buf`, whose write succeeds. -/
def sendMpAggrBuf : MpaTx :=
  if s.pktCnt = 0 then s
  else { s with
    written := s.written ++ [⟨s.cmd53Port c,
      if c.sg then (List.range s.pktCnt).flatMap s.mbufArr else s.buf.read 0 s.bufLen⟩]
    pktCnt := 0
    bufLen := 0
    ports := 0
    startPort := 0 }

/-- The flags of `wlan_host_to_card_mp_aggr`. -/
structure Flags where
  sendAggrBuf : Bool
  sendCurBuf : Bool
  precopyCurBuf : Bool
  postcopyCurBuf : Bool
  deriving DecidableEq

/-- The first part of `wlan_host_to_card_mp_aggr`. -/
def flags (len : ℕ) (nextPktLen : UInt32) : Flags :=
  if !c.enabled then ⟨false, true, false, false⟩
  else if nextPktLen ≠ 0 then
    if 0 < s.pktCnt then
      if s.bufHasRoom c len then
        ⟨!s.portReady || !s.bufHasRoom c ((len + nextPktLen.toNat) % 2 ^ 32), false, true, false⟩
      else ⟨true, !s.portReady, false, s.portReady⟩
    else if s.bufHasRoom c len && s.portReady then ⟨false, false, true, false⟩
    else ⟨false, true, false, false⟩
  else if 0 < s.pktCnt then
    if s.bufHasRoom c len then ⟨true, false, true, false⟩ else ⟨true, true, false, false⟩
  else ⟨false, true, false, false⟩

/-- The pre-copy, and whether the buffer is full with it. -/
def precopy (f : Flags) (data : List UInt8) (port : ℕ) : MpaTx × Bool :=
  if f.precopyCurBuf then
    let u := s.aggrBufPut c data port
    (u, f.sendAggrBuf || u.pktCnt = c.pktAggrLimit || (!c.newMode && u.portLimitReached c))
  else (s, f.sendAggrBuf)

/-- The packet alone, whose write succeeds. -/
def sendCurBuf (data : List UInt8) (port : ℕ) : MpaTx :=
  { s with written := s.written ++ [⟨c.ioport + port, data⟩] }

def hostToCardMpAggr (data : List UInt8) (port : ℕ) (nextPktLen : UInt32) : MpaTx :=
  let f := s.flags c data.length nextPktLen
  let r := s.precopy c f data port
  let u := if r.2 then r.1.sendMpAggrBuf c else r.1
  let v := if f.sendCurBuf then u.sendCurBuf c data port else u
  if f.postcopyCurBuf then v.aggrBufPut c data port else v

/-- `data_len`, rounded up to blocks. -/
def blockLen (len : ℕ) : ℕ :=
  (len + blockSize - 1) / blockSize * blockSize

/-- The packet with its SDIO header, as it is sent. -/
def sdioPacket (len : ℕ) (payload : Mem) : List UInt8 :=
  (payload.write 0 [(len % 256).toUInt8, (len / 256 % 256).toUInt8, 0, 0]).read 0 (blockLen len)

/-- `wlan_sdio_host_to_card` for `MLAN_TYPE_DATA`. -/
def sdioHostToCard (len : ℕ) (payload : Mem) (nextPktLen : UInt32) : MpaTx :=
  match s.getWrPortData c with
  | (u, none) => u
  | (u, some port) =>
    let data := sdioPacket len payload
    let v := { u with taken := u.taken ++ [(data, port)] }.hostToCardMpAggr c data port nextPktLen
    { v with dataSent := !v.portReady }

end MpaTx

/-- What happens on the path. -/
inductive MpaOp
  | data (len : ℕ) (payload : Mem) (nextPktLen : UInt32)
  | flush
  | refresh (bitmap : BitVec 32)

/-- The path, from `wlan_init_adapter` on. -/
def mpaSystem (c : Card) : System MpaTx MpaOp where
  init s := s.currWrPort = startWrPort c.newMode ∧ s.bufLen = 0 ∧ s.pktCnt = 0 ∧ s.ports = 0 ∧ s.written = [] ∧
    s.taken = []
  step s
    | .data len payload nextPktLen => some (s.sdioHostToCard c len payload nextPktLen)
    | .flush => some (s.sendMpAggrBuf c)
    | .refresh bitmap => some { s with mpWrBitmap := bitmap }

/-! ## What the card reads -/

namespace Card

variable (c : Card)

/-- The `i`-th port from `p` on, for less than a full turn. -/
def portAt (p i : ℕ) : ℕ :=
  if p + i < c.mpEndPort then p + i else p + i - (c.mpEndPort - startWrPort c.newMode)

/-- The ports that the address of a write stands for. -/
def portsOf (port : ℕ) : List ℕ :=
  let x := port - c.ioport
  if x < mpaAddrBase then [x]
  else if c.newMode then (List.range (x / 256 % 16 + 1)).map (c.portAt (x % 256))
  else ((List.range 8).filter fun j => (x / 16 % 256).testBit j).map fun j => (x % 16 + j) % maxPorts c.newMode

/-- The write carries the packets `g`, and its address says their ports. -/
structure Carries (g : List (List UInt8 × ℕ)) (w : Write) : Prop where
  ne_nil : g ≠ []
  data : w.data = g.flatMap Prod.fst
  ports : c.portsOf w.port = g.map Prod.snd

/-- No port comes twice in a write, and no bit of the old mode leaves its eight : a packet that stands alone in the buffer
at the last port has the next one, which is the first port, in reach. -/
def PortsFit : Prop :=
  c.pktAggrLimit ≤ c.mpEndPort - startWrPort c.newMode ∧
    (c.newMode = true ∨ c.pktAggrLimit = 1 ∨
      maxPorts c.newMode - (c.mpEndPort - 1) + startWrPort c.newMode < mpAggrPktLimit c.newMode)
  deriving Decidable

end Card

end WlanDriver.Sdio
