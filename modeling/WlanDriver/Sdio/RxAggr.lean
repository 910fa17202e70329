import WlanDriver.Sdio.MultiPort

/-!
# SDIO multi-port receive

`wlan_process_sdio_int_status` reads the ports of `mp_rd_bitmap` one after the other, in the card's cyclic order. For
each one it allocates a buffer, and `wlan_sdio_card_to_host_mp_aggr` either reads the port alone or puts the buffer into
`mpa_rx`, so that one read of the bus serves several ports. A buffer ends with `wlan_free_mlan_buffer` or with
`wlan_decode_rx_packet`. `allocated`, `freed` and `decoded` are history.
-/

namespace WlanDriver.Sdio

/-- `MLAN_TYPE_DATA` and the other types. -/
inductive PktType
  | data
  | spaData
  | cmd
  | event
  | other
  deriving DecidableEq

/-- `MLAN_TYPE_DATA` or `MLAN_TYPE_SPA_DATA`. -/
def PktType.isData : PktType → Bool
  | .data | .spaData => true
  | _ => false

/-- `SDIO_INTF_HEADER_LEN`. -/
def intfHeaderLen : ℕ := 4

/-- `reg->start_rd_port`. -/
def startRdPort (newMode : Bool) : ℕ :=
  if newMode then 0 else 1

/-- What the card and the configuration fix. -/
structure RxCard where
  newMode : Bool
  mpEndPort : ℕ
  pktAggrLimit : ℕ
  bufSize : ℕ
  /-- `mpa_rx.enabled`. -/
  enabled : Bool
  /-- `mpa_rx.buf` is null. -/
  sg : Bool

/-- An `mlan_buffer` of the receive path. -/
structure RxBuf where
  /-- Its number among all the buffers. -/
  id : ℕ
  port : ℕ
  /-- `rx_len`. -/
  len : ℕ
  deriving DecidableEq

/-- What the environment does while one port is handled. -/
structure RxInput where
  /-- The length register. -/
  rxLen : UInt16
  /-- The buffer is there. -/
  alloc : Bool
  /-- The read of the buffers in `mpa_rx`. -/
  aggrOk : Bool
  /-- The headers that this read finds, by index. -/
  header : ℕ → PktType × ℕ
  /-- The read of a buffer that is alone in `mpa_rx`. -/
  single : Option (PktType × ℕ)
  /-- The read of the port itself. -/
  curr : Option (PktType × ℕ)

/-- The receive path. -/
structure MpaRx where
  mpRdBitmap : BitVec 32
  currRdPort : ℕ
  /-- `mbuf_arr`, up to `pkt_cnt`. -/
  mbufArr : List RxBuf
  bufLen : ℕ
  startPort : ℕ
  /-- The buffers, in the order of their allocation. -/
  allocated : List RxBuf
  freed : List RxBuf
  decoded : List RxBuf

namespace MpaRx

variable (c : RxCard) (s : MpaRx)

def getRdPort : MpaRx × Option ℕ :=
  let mask := if c.newMode then dataPortMask c.newMode else 1 ||| dataPortMask c.newMode
  if s.mpRdBitmap &&& mask = 0 then (s, none)
  else if !c.newMode && s.mpRdBitmap.getLsbD 0 then ({ s with mpRdBitmap := s.mpRdBitmap &&& ~~~1 }, some 0)
  else if s.mpRdBitmap.getLsbD s.currRdPort then
    ({ s with
        mpRdBitmap := s.mpRdBitmap &&& ~~~((1 : BitVec 32) <<< s.currRdPort)
        currRdPort := if s.currRdPort + 1 = maxPorts c.newMode then startRdPort c.newMode else s.currRdPort + 1 },
      some s.currRdPort)
  else (s, none)

/-- `MP_RX_AGGR_BUF_HAS_ROOM`. -/
def bufHasRoom (len : ℕ) : Bool :=
  (s.bufLen + len) % 2 ^ 32 ≤ c.bufSize

/-- `MP_RX_AGGR_PORT_LIMIT_REACHED` and `MP_RX_AGGR_PORT_LIMIT_REACHED_NONEWMODE`. -/
def portLimitReached : Bool :=
  if c.newMode then
    (s.currRdPort < s.startPort && c.mpEndPort / 2 ≤ maxPorts c.newMode - s.startPort + s.currRdPort) ||
      (s.startPort ≤ s.currRdPort && c.mpEndPort / 2 ≤ s.currRdPort - s.startPort)
  else s.currRdPort < s.startPort &&
    mpAggrPktLimit c.newMode ≤ maxPorts c.newMode - s.startPort + s.currRdPort

/-- `MP_RX_AGGR_SETUP` and `MP_RX_AGGR_SETUP_NONEWMODE`. -/
def aggrSetup (b : RxBuf) : MpaRx :=
  { s with
    bufLen := s.bufLen + b.len
    startPort := if s.mbufArr = [] then b.port else s.startPort
    mbufArr := s.mbufArr ++ [b] }

/-- `MP_RX_AGGR_BUF_RESET`. -/
def bufReset : MpaRx :=
  { s with mbufArr := [], bufLen := 0, startPort := 0 }

/-- `wlan_free_mlan_buffer`. -/
def free (b : RxBuf) : MpaRx :=
  { s with freed := s.freed ++ [b] }

/-- `wlan_decode_rx_packet`. -/
def decode (b : RxBuf) : MpaRx :=
  { s with decoded := s.decoded ++ [b] }

/-- `wlan_sdio_card_to_host` : the type of the packet, unless the read fails or the packet is too long. -/
def cardToHost (len : ℕ) (read : Option (PktType × ℕ)) : Option PktType :=
  match read with
  | some (ty, nb) => if len < nb then none else some ty
  | none => none

def receiveSinglePacket (b : RxBuf) (i : RxInput) : MpaRx × Bool :=
  match cardToHost b.len i.single with
  | some ty => if ty.isData then ((s.decode b).bufReset, true) else ((s.free b).bufReset, false)
  | none => ((s.free b).bufReset, false)

/-- One packet of an aggregate read. Without `mpa_rx.buf` it is in its buffer already. -/
def deliver (b : RxBuf) (header : PktType × ℕ) : MpaRx :=
  if c.sg then s.decode b
  else if header.1.isData && header.2 ≤ b.len then s.decode b else s.free b

/-- The packets of an aggregate read, the first of them at `pind`. -/
def deliverAll (i : RxInput) : ℕ → List RxBuf → MpaRx → MpaRx
  | _, [], s => s
  | pind, b :: bs, s => deliverAll i (pind + 1) bs (s.deliver c b (i.header pind))

def receiveMpAggrBuf (i : RxInput) : MpaRx × Bool :=
  match s.mbufArr with
  | [b] => s.receiveSinglePacket b i
  | bs => if i.aggrOk then ((deliverAll c i 0 bs s).bufReset, true) else (s, false)

/-- The flags of `wlan_sdio_card_to_host_mp_aggr`. -/
structure RxFlags where
  doRxAggr : Bool
  doRxCur : Bool
  aggrCur : Bool
  postAggrCur : Bool
  deriving DecidableEq

/-- More ports wait to be read. -/
def notLast : Bool :=
  if c.newMode then s.mpRdBitmap &&& dataPortMask c.newMode ≠ 0 else s.mpRdBitmap &&& ~~~1 ≠ 0

/-- The first part of `wlan_sdio_card_to_host_mp_aggr`. -/
def rxFlags (port len : ℕ) : RxFlags :=
  if (!c.newMode && port = 0) || !c.enabled then ⟨false, true, false, false⟩
  else if s.notLast c then
    if s.mbufArr ≠ [] then
      if s.bufHasRoom c len then ⟨false, false, true, false⟩ else ⟨true, false, false, true⟩
    else ⟨false, false, true, false⟩
  else if s.mbufArr ≠ [] then
    if s.bufHasRoom c len then ⟨true, false, true, false⟩ else ⟨true, true, false, false⟩
  else ⟨false, true, false, false⟩

/-- The read of the current port : whether its packet is one for this port. -/
def currPktOk (port : ℕ) : Option PktType → Bool
  | none => false
  | some ty => if !c.newMode && port = 0 then ty = .cmd || ty = .event else ty.isData

/-- `wlan_sdio_card_to_host_mp_aggr`, behind `done` with a failure. -/
def rxFailed (f : RxFlags) (b : RxBuf) : MpaRx :=
  let u := if s.mbufArr ≠ [] then { s with freed := s.freed ++ s.mbufArr }.bufReset else s
  if f.doRxCur then u.free b else u

/-- The buffer goes to `mpa_rx`, and whether the packets are to be read now. -/
def aggrCur (f : RxFlags) (b : RxBuf) : MpaRx × Bool :=
  if f.aggrCur then
    let u := s.aggrSetup b
    (u, f.doRxAggr || u.mbufArr.length = c.pktAggrLimit || u.portLimitReached c)
  else (s, f.doRxAggr)

/-- `wlan_sdio_card_to_host_mp_aggr`. -/
def cardToHostMpAggr (b : RxBuf) (i : RxInput) : MpaRx × Bool :=
  let f := s.rxFlags c b.port b.len
  let r := s.aggrCur c f b
  let u := if r.2 then r.1.receiveMpAggrBuf c i else (r.1, true)
  if !u.2 then (u.1.rxFailed f b, false)
  else if f.doRxCur then
    if currPktOk c b.port (cardToHost b.len i.curr) then
      (if f.postAggrCur then (u.1.decode b).aggrSetup b else u.1.decode b, true)
    else (u.1.rxFailed f b, false)
  else (if f.postAggrCur then u.1.aggrSetup b else u.1, true)

/-- `wlan_sdio_card_to_host_recovery`. The packet of the port goes to a buffer of the card's own. -/
def cardToHostRecovery (len : ℕ) (i : RxInput) : MpaRx × Bool :=
  if !c.newMode then (s, false)
  else
    let u := if s.mbufArr ≠ [] then (s.receiveMpAggrBuf c i).1 else s
    match cardToHost len i.curr with
    | some ty => (u, ty.isData)
    -- behind a read that fails, `pkt_type` is still 0, which is `MLAN_TYPE_DATA`
    | none => (u, true)

/-- `rx_len`, rounded up to blocks; the length is refused if it is too short or too long. -/
def blockRxLen (len : UInt16) : Option ℕ :=
  let n := (len.toNat + blockSize - 1) / blockSize * blockSize
  if len.toNat ≤ intfHeaderLen || c.bufSize < n then none else some (n % 2 ^ 16)

/-- One turn of the port loop, with the port handed out. -/
def portTurn (port : ℕ) (i : RxInput) : MpaRx × Bool :=
  match blockRxLen c i.rxLen with
  | none => (s, false)
  | some len =>
    if i.alloc then
      let b : RxBuf := ⟨s.allocated.length, port, len⟩
      { s with allocated := s.allocated ++ [b] }.cardToHostMpAggr c b i
    else s.cardToHostRecovery c len i

/-- The port loop of `wlan_process_sdio_int_status`. -/
def portLoop (i : ℕ → RxInput) : ℕ → MpaRx → MpaRx × Bool
  | 0, s => (s, true)
  | fuel + 1, s =>
    match s.getRdPort c with
    | (u, none) => (u, true)
    | (u, some port) =>
      match u.portTurn c port (i port) with
      | (v, true) => portLoop i fuel v
      | (v, false) => (v, false)

/-- `wlan_process_sdio_int_status` with `UP_LD_HOST_INT_STATUS`. Each turn clears a bit of `mp_rd_bitmap`. -/
def processIntStatus (bitmap : BitVec 32) (i : ℕ → RxInput) : MpaRx × Bool :=
  portLoop c i (maxPorts c.newMode + 1) { s with mpRdBitmap := bitmap }

end MpaRx

end WlanDriver.Sdio
