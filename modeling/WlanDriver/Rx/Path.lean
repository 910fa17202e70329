import WlanDriver.Rx.Buffer

/-!
# The path of a received packet

`wlan_handle_rx_packet` and what it calls, in both roles : a packet is uploaded, forwarded, taken apart, or goes to the
reorder table of its transmitter, which may hand on other packets. `RxPath` is the state that the calls work on : the
tables of the interfaces, the packets queued for forwarding and `pending_bridge_pkts`. It also keeps what became of
every buffer (`disposed`, by `id`) and what `wlan_handle_rx_packet` returned for it.

A call of `mlan_11n_rxreorder_pkt` dispatches packets while it works on its table; dispatching does not look at tables, so
here the call comes first and then what it dispatched, in order. What the call's environment decides is asked with
`tick`, which runs on at every question.
-/

namespace WlanDriver.Rx

open Ethernet Aggr Reorder

variable {ι : Type*} [DecidableEq ι]

/-- How a buffer ended : with the host, through `data_complete` or `moal_recv_complete`, or through
`wlan_free_mlan_buffer`. -/
inductive Disposal
  | uploaded
  | completed
  | freed
  deriving DecidableEq

/-- The receive path. `nextId` and `tick` are the model's own; `disposed` and `returns` are history variables. A payload of a
reorder table is a buffer or `RX_PKT_DROPPED_IN_FW`. -/
structure RxPath (ι : Type*) where
  stations : ι → Station (Option Buf)
  nextId : ℕ
  tick : ℕ
  queued : List Buf
  pendingBridge : ℤ
  disposed : List (ℕ × Disposal)
  returns : List (ℕ × MlanStatus)

def rxHighThreshold : ℤ := 1024

/-! ## Ends -/

/-- `data_complete` and `moal_recv_complete`. -/
def complete (b : Buf) (s : RxPath ι) : RxPath ι :=
  { s with disposed := s.disposed ++ [(b.id, .completed)] }

def freeMlanBuffer (b : Buf) (s : RxPath ι) : RxPath ι :=
  { s with
    disposed := s.disposed ++ [(b.id, .freed)]
    pendingBridge := if b.bridge then s.pendingBridge - 1 else s.pendingBridge }

def recvPacketComplete (b : Buf) (s : RxPath ι) : RxPath ι :=
  if b.parent then freeMlanBuffer b s else complete b s

/-- `moal_recv_packet`, and `done` unless the host keeps the packet. -/
def recvPacket (env : Env ι) (done : Buf → RxPath ι → RxPath ι) (b : Buf) (s : RxPath ι) : RxPath ι :=
  let s' := { s with tick := s.tick + 1 }
  if env.recv s.tick = .pending then { s' with disposed := s'.disposed ++ [(b.id, .uploaded)] } else done b s'

/-! ## Forwarding -/

/-- `wlan_wmm_add_buf_txqueue` : the packet is queued, or dropped through `wlan_write_data_complete`. -/
def wmmAddBufTxqueue (env : Env ι) (b : Buf) (s : RxPath ι) : RxPath ι :=
  let s' := { s with tick := s.tick + 1 }
  if env.accept s.tick then { s' with queued := s'.queued ++ [b] } else freeMlanBuffer b s'

/-- A queued packet is completed, by `wlan_write_data_complete`. -/
def completeQueued (i : ℕ) (s : RxPath ι) : RxPath ι :=
  match s.queued[i]? with
  | none => s
  | some b => freeMlanBuffer b { s with queued := s.queued.eraseIdx i }

/-- `wlan_drop_tx_pkts`, which drops at most one packet. -/
def dropTxPkts (env : Env ι) (s : RxPath ι) : RxPath ι :=
  let s' := { s with tick := s.tick + 1 }
  match env.drop s.tick with
  | none => s'
  | some i => completeQueued i s'

/-- A packet is marked, counted and queued, and one is dropped if too many are. -/
def forward (env : Env ι) (b : Buf) (s : RxPath ι) : RxPath ι :=
  let s := wmmAddBufTxqueue env { b with bridge := true } { s with pendingBridge := s.pendingBridge + 1 }
  if rxHighThreshold < s.pendingBridge then dropTxPkts env s else s

/-- A copy of what lies behind the first `skip` octets is forwarded, if there is memory for it. -/
def forwardCopy (env : Env ι) (b : Buf) (skip : ℕ) (s : RxPath ι) : RxPath ι :=
  let s' := { s with tick := s.tick + 1 }
  if env.alloc s.tick then
    forward env ⟨s.nextId, b.mem, b.dataOffset + skip, b.dataLen - skip, false, false, false, false⟩
      { s' with nextId := s.nextId + 1 }
  else s'

/-! ## Packets -/

def processRxPacket (env : Env ι) (i : ι) (b : Buf) (s : RxPath ι) : RxPath ι :=
  let d := b.rxPd
  if d.rxPktType = pktTypeDebug then complete b s
  else if !isSnap d.mem d.pkt ∧ (env.iface i).hotspotEnabled ∧ discardGratuitousArpMsg d.mem d.pkt then complete b s
  else recvPacket env complete b s

def uploadUapRxPacket (env : Env ι) (b : Buf) (s : RxPath ι) : RxPath ι :=
  recvPacket env complete b s

def processUapRxPacket (env : Env ι) (i : ι) (b : Buf) (s : RxPath ι) : RxPath ι :=
  let p := env.iface i
  let d := b.rxPd
  let upload := fun s => recvPacket env complete b s
  if (env.enableNetMon ∧ d.rxPktType = pktType802Dot11) ∨ !p.mediaConnected then upload s
  else if d.destAddr.isMulticast then
    if p.noBcastFwd then upload s else upload (forwardCopy env b d.rxPktOffset s)
  else if !p.noUcastFwd ∧ (p.station d.destAddr).isSome then
    if env.isUsb ∧ b.rxDeaggr then complete b (forwardCopy env b d.rxPktOffset s)
    else forward env { b with dataOffset := b.dataOffset + d.rxPktOffset, dataLen := b.dataLen - d.rxPktOffset } s
  else upload s

/-- `wlan_uap_recv_packet`, and `wlan_recv_packet_complete` unless the host keeps the frame. -/
def uapRecvPacket (env : Env ι) (i : ι) (b : Buf) (s : RxPath ι) : RxPath ι :=
  let p := env.iface i
  let dest := macAt b.mem b.dataOffset
  let upload := fun s => recvPacket env recvPacketComplete b s
  if !p.mediaConnected then upload s
  else if dest.isMulticast then
    if p.noBcastFwd then upload s else upload (forwardCopy env b 0 s)
  else if !p.noUcastFwd ∧ (p.station dest).isSome then recvPacketComplete b (forwardCopy env b 0 s)
  else upload s

/-- A subframe in a buffer of its own. -/
def deaggrSubframe (env : Env ι) (i : ι) (b : Buf) (s : RxPath ι) (f : Route × List UInt8) : RxPath ι :=
  let child : Buf := ⟨s.nextId, fun a => f.2.getD a 0, 0, f.2.length, b.bridge, b.rxDeaggr, false, true⟩
  let s := { s with nextId := s.nextId + 1 }
  match f.1 with
  | .uap => uapRecvPacket env i child s
  -- the command has a copy of the frame
  | .firmware => freeMlanBuffer child s
  | .host _ => recvPacket env recvPacketComplete child s

/-- The settings that `wlan_11n_deaggregate_pkt` looks at. -/
def deaggrCfg (env : Env ι) (i : ι) (b : Buf) : DeaggrCfg where
  uap := (env.iface i).uapRole
  isStation l := ((env.iface i).station (macAt (fun a => l.getD a 0) 0)).isSome
  ewpaEnabled := (env.iface i).ewpaEnabled
  maxRxDataSize := env.maxRxDataSize
  hostTakesAmsdu := b.pdesc && env.recvAmsdu

/-- `wlan_11n_deaggregate_pkt`. The memory of the subframes is asked for one by one; it does not depend on what else
happens. -/
def deaggregatePkt (env : Env ι) (i : ι) (b : Buf) (s : RxPath ι) : RxPath ι :=
  let s' := { s with tick := s.tick + 1 }
  if env.rxDropP3 then complete b s'
  else
    match Aggr.deaggregatePkt (deaggrCfg env i b) (env.subAlloc s.tick) b.mem b.dataOffset b.dataLen with
    | .dropped => complete b s'
    | .wholeToHost => recvPacket env complete b s'
    | .frames l => complete b (l.foldl (deaggrSubframe env i b) s')

/-- `wlan_11n_deaggregate_pkt` on what lies behind the descriptor. -/
def deaggregateBehind (env : Env ι) (i : ι) (b : Buf) (s : RxPath ι) : RxPath ι :=
  deaggregatePkt env i
    { b with dataLen := b.rxPd.rxPktLength, dataOffset := b.dataOffset + b.rxPd.rxPktOffset } s

/-- What a role does with a packet of its own. -/
def process (env : Env ι) (i : ι) (b : Buf) (s : RxPath ι) : RxPath ι :=
  if (env.iface i).uapRole then processUapRxPacket env i b s else processRxPacket env i b s

/-- `wlan_11n_dispatch_pkt`. -/
def dispatchPkt (env : Env ι) (i : ι) (s : RxPath ι) : Option Buf → RxPath ι
  | none => s
  | some b => if b.rxPd.rxPktType = pktTypeAmsdu then deaggregateBehind env i b s else process env i b s

/-! ## Reordering -/

section

variable (wide : ℕ → BitVec 64)

/-- `mlan_11n_rxreorder_pkt`. -/
def rxreorderPkt (env : Env ι) (i : ι) (ta : Mac) (d : RxPD) (payload : Option Buf) (s : RxPath ι) : MlanStatus × RxPath ι :=
  let r := Station.rxReorder wide (s.stations i).tables (ta, d.priority) d.seqNum d.reorderType payload
  let t := (s.stations i).rxPkt wide (ta, d.priority) d.seqNum d.reorderType payload
  (r.1, r.2.1.foldl (dispatchPkt env i) { s with stations := Function.update s.stations i t })

/-- A packet goes to the reorder table, and is completed if it was not taken or is a block ack request. -/
def reorderOrComplete (env : Env ι) (i : ι) (ta : Mac) (type : ℕ) (b : Buf) (s : RxPath ι) : MlanStatus × RxPath ι :=
  let r := rxreorderPkt wide env i ta b.rxPd (some b) s
  if r.1 = .failure ∨ type = pktTypeBar then (r.1, complete b r.2) else r

/-- A copy of the packet goes to the monitor, if there is memory for it. -/
def sniff (env : Env ι) (i : ι) (b : Buf) (sniffed : Option Mem) (s : RxPath ι) : RxPath ι :=
  match sniffed with
  | none => s
  | some m =>
    let s' := { s with tick := s.tick + 1 }
    if env.alloc s.tick then
      process env i ⟨s.nextId, m, b.dataOffset, b.dataLen, false, false, false, false⟩
        { s' with nextId := s.nextId + 1 }
    else s'

/-- The way of a packet of `i`. -/
def way (env : Env ι) (i : ι) (type : ℕ) (d : RxPD) (s : RxPath ι) : Way :=
  if (env.iface i).uapRole then uapWay env (env.iface i) (s.stations i).tables d else staWay (env.iface i) type d

/-- A packet goes its way. -/
def go (env : Env ι) (i : ι) (type : ℕ) (b : Buf) (s : RxPath ι) : Way → MlanStatus × RxPath ι
  | .process => (.success, process env i b s)
  | .upload => (.success, uploadUapRxPacket env b s)
  | .closed ta =>
    -- the table learns of the sequence number only
    let s := (rxreorderPkt wide env i ta b.rxPd none s).2
    (.success, if type = pktTypeAmsdu then deaggregateBehind env i b s else process env i b s)
  | .reorder ta => reorderOrComplete wide env i ta type b s

/-- `wlan_ops_sta_process_rx_packet` and `wlan_ops_uap_process_rx_packet`. -/
def opsProcessRxPacket (env : Env ι) (i : ι) (b : Buf) (s : RxPath ι) : MlanStatus × RxPath ι :=
  match frontEnd env (env.iface i) b with
  | .refused => (.failure, s)
  | .wrongLength => (.failure, complete b s)
  | .mgmt => (.success, complete b s)
  | .badSniffer => (.failure, freeMlanBuffer b s)
  | .frame b' sniffed =>
    let type := b.rxPd.rxPktType
    let s := sniff env i b' sniffed s
    go wide env i type b' s (way env i type b'.rxPd s)

/-- The interface of a packet : `wlan_get_priv_by_id`, or the first one. -/
def getPriv (env : Env ι) (d : RxPD) : Option ι :=
  (env.privs.find? fun i => (env.iface i).bssNum = d.bssNum % 16 ∧ (env.iface i).bssType = d.bssType).or env.privs.head?

def handleRxPacket (env : Env ι) (b : Buf) (s : RxPath ι) : MlanStatus × RxPath ι :=
  match getPriv env b.rxPd with
  | none => (.failure, s)
  | some i => opsProcessRxPacket wide env i b s

/-! ## Runs -/

/-- What the bus hands over. -/
structure Received where
  mem : Mem
  dataOffset : ℕ
  dataLen : ℕ
  rxDeaggr : Bool
  pdesc : Bool

/-- A packet arrives, something else happens to the tables of an interface, or a queued packet is completed. -/
inductive Act (ι : Type*)
  | rx (env : Env ι) (r : Received)
  | tables (env : Env ι) (i : ι) (a : Station.Act (Option Buf))
  | bridged (k : ℕ)

/-- The buffer of what the bus hands over. -/
def newBuf (s : RxPath ι) (r : Received) : Buf :=
  ⟨s.nextId, r.mem, r.dataOffset, r.dataLen, false, r.rxDeaggr, r.pdesc, false⟩

/-- A packet arrives. -/
def arrive (env : Env ι) (r : Received) (s : RxPath ι) : RxPath ι :=
  let h := handleRxPacket wide env (newBuf s r) { s with nextId := s.nextId + 1 }
  { h.2 with returns := h.2.returns ++ [(s.nextId, h.1)] }

/-- A timer, a flush, a block ack action or a clean-up at the tables of `i`, and what it dispatches. -/
def tableAct (env : Env ι) (i : ι) (a : Station.Act (Option Buf)) (s : RxPath ι) : Option (RxPath ι) :=
  match a with
  | .pkt .. => none
  | a =>
    ((s.stations i).step wide a).map fun t =>
      ((t.log.drop (s.stations i).log.length).map Prod.snd).foldl (dispatchPkt env i)
        { s with stations := Function.update s.stations i t }

def step (s : RxPath ι) : Act ι → Option (RxPath ι)
  | .rx env r => some (arrive wide env r s)
  | .tables env i a => tableAct wide env i a s
  | .bridged k => some (completeQueued k s)

/-- Before the first packet. -/
def initial : RxPath ι where
  stations _ := emptyStation
  nextId := 0
  tick := 0
  queued := []
  pendingBridge := 0
  disposed := []
  returns := []

/-- The receive path. -/
def system : System (RxPath ι) (Act ι) where
  init s := s = initial
  step := step wide

end

end WlanDriver.Rx
