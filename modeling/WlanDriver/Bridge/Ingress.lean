import WlanDriver.Lib.Ethernet
import WlanDriver.Bridge.QueueAccounting

/-!
# The ingress paths of the bridge

A frame enters the bridge through one of three functions : `moal_bridge_rx_fast` sees what the
WLAN receives, before `eth_type_trans`; `moal_bridge_peer_rx_handler` sees what the peer
receives; `moal_bridge_peer_pt_func` replaces the latter when the peer's `rx_handler` is taken.
Each call is a function of the settings, the bridge, the frame and the outcomes of the atomic
allocations, and its `Outcome` says what became of the frame and of a clone, and which counters it
moved.

`rxFast_forwards` says what the first never queues, `peerRxHandler_forwards_iff` and
`peerPtFunc_forwards_iff` exactly when the others queue a frame; what the paths have in common is
`Egress`.
-/

namespace WlanDriver.Bridge

open WlanDriver.Ethernet

/-! ## Frames and the bridge as the data path sees them -/

/-- `skb->pkt_type`. -/
inductive PktType
  | host
  | broadcast
  | multicast
  | otherhost
  deriving DecidableEq

/-- A net device as the data path reads it. -/
structure EgressDev where
  ifindex : ℕ
  devAddr : Mac
  running : Bool
  carrierOk : Bool
  registered : Bool
  deriving DecidableEq

/-- A socket buffer : its Ethernet header, what stands behind it, and whether `eth_type_trans`
has moved `skb->data` past the header. -/
structure Skb where
  eth : EthHdr
  payload : List UInt8
  pulled : Bool
  headroom : ℕ
  protocol : UInt16
  pktType : PktType
  dev : EgressDev
  deriving DecidableEq

/-- The octets from `skb->data` on. -/
def Skb.data (skb : Skb) : List UInt8 :=
  if skb.pulled then skb.payload else skb.eth.octets ++ skb.payload

/-- The module parameters the ingress paths read. -/
structure Settings where
  consumeLinkLocal : Bool
  localHairpin : Bool
  deriving DecidableEq

/-- The fields of `struct moal_bridge` and of its private interface that the ingress paths read. -/
structure FwdBridge where
  active : Bool
  mediaConnected : Bool
  wlanDev : EgressDev
  peerDev : EgressDev
  peerMac : Mac
  wlanIpv4 : UInt32
  peerIpv4 : UInt32
  qlen : Dir → ℤ

/-- The device a direction sends to. -/
def FwdBridge.egress (br : FwdBridge) : Dir → EgressDev
  | .w2p => br.peerDev
  | .p2w => br.wlanDev

/-- The outcomes of the allocations of one call. A pull of `n` octets can fail even when the
frame has them, because a fragmented head is copied. -/
structure Alloc where
  pull : ℕ → Bool
  clone : Bool
  shareCheck : Bool
  reallocHeadroom : Bool

/-- What became of one reference to a frame. -/
inductive Fate
  /-- It is left to the caller as `skb`. -/
  | left (skb : Skb)
  | queued (d : Dir) (skb : Skb)
  | freed
  /-- It is handed to `netif_rx`. -/
  | injected (skb : Skb)
  deriving DecidableEq

/-- What a call did : the reference it was given, the clone it made, the counters of its
direction, `hairpin_arp_inject`, whether it kicked the keepalive, and its verdict (`1` and
`RX_HANDLER_CONSUMED` are `consumed`, `0` and `RX_HANDLER_PASS` are not). -/
structure Outcome where
  orig : Fate
  clone : Option Fate := none
  dropped : ℕ := 0
  oomDrops : ℕ := 0
  hairpinArpInject : ℕ := 0
  kaKick : Bool := false
  consumed : Bool
  deriving DecidableEq

/-- The frame, or a clone of it, is put on the queue of `d`. -/
def Outcome.Forwards (o : Outcome) (d : Dir) : Prop :=
  (∃ skb, o.orig = .queued d skb) ∨ ∃ skb, o.clone = some (.queued d skb)

/-! ## Helpers of the source -/

/-- `moal_bridge_dev_ready`. -/
def devReady (dev : EgressDev) : Bool :=
  dev.running && dev.carrierOk && dev.registered

/-- `moal_bridge_is_link_local`. -/
def isLinkLocal (dst : Mac) : Bool :=
  dst.isGroupReserved

def pskbMayPull (al : Alloc) (skb : Skb) (n : ℕ) : Bool :=
  n ≤ skb.data.length && al.pull n

/-- `ARPOP_REQUEST` and `ARPOP_REPLY`. -/
def arpopRequest : UInt16 := 1

def arpopReply : UInt16 := 2

/-- `arp->ar_op` of an ARP header at `off`. -/
def arOp (skb : Skb) (off : ℕ) : UInt16 :=
  be16 skb.data (off + 6)

/-- `ip == wlan_ip` or `ip == peer_ip`, for cached addresses that are set. -/
def isBoxIp (br : FwdBridge) (ip : UInt32) : Bool :=
  (br.wlanIpv4 != 0 && ip == br.wlanIpv4) || (br.peerIpv4 != 0 && ip == br.peerIpv4)

/-- `moal_bridge_arp_is_for_self` : an Ethernet/IPv4 ARP at `l3Off` whose target IP, 16 octets
behind the 8 of `struct arphdr`, belongs to the box. -/
def arpIsForSelf (al : Alloc) (br : FwdBridge) (skb : Skb) (l3Off : ℕ) : Bool :=
  if !pskbMayPull al skb (l3Off + 8 + 20) then false
  else if be16 skb.data l3Off != 1 || be16 skb.data (l3Off + 2) != ethPIp ||
      octet skb.data (l3Off + 4) != 6 || octet skb.data (l3Off + 5) != 4 then false
  else isBoxIp br (be32 skb.data (l3Off + 8 + 16))

/-- The SELF-IP test of `moal_bridge_rx_fast` and `moal_bridge_peer_rx_handler` : a box address is
cached, the IPv4 header can be pulled. -/
def ipPullable (al : Alloc) (br : FwdBridge) (skb : Skb) (l3Off : ℕ) : Bool :=
  (br.wlanIpv4 != 0 || br.peerIpv4 != 0) && pskbMayPull al skb (l3Off + 20)

/-- `iph->daddr` of an IPv4 header at `off`. -/
def ipDaddr (skb : Skb) (off : ℕ) : UInt32 :=
  be32 skb.data (off + 16)

/-- `moal_bridge_ensure_headroom` gives a buffer back. -/
def ensureHeadroom (al : Alloc) (skb : Skb) : Bool :=
  ethHlen ≤ skb.headroom || al.reallocHeadroom

/-- Queue a reference on the direction of `r` : reserve a slot, make room for the header where
`r` does, push it and append. The counters are the drops of the direction. -/
def enqueue (r : Producer) (al : Alloc) (br : FwdBridge) (skb : Skb) : Fate × ℕ × ℕ :=
  if queueMax r.dir < br.qlen r.dir + 1 then (.freed, 1, 0)
  else if r.ensuresHeadroom && !ensureHeadroom al skb then (.freed, 0, 1)
  else (.queued r.dir { skb with dev := br.egress r.dir, pulled := false }, 0, 0)

/-- Whether `enqueue` appends. -/
def canEnqueue (r : Producer) (al : Alloc) (br : FwdBridge) (skb : Skb) : Bool :=
  br.qlen r.dir + 1 ≤ queueMax r.dir && (!r.ensuresHeadroom || ensureHeadroom al skb)

/-- Forward the frame itself. -/
def forwardOrig (r : Producer) (al : Alloc) (br : FwdBridge) (skb : Skb) : Outcome :=
  if !devReady (br.egress r.dir) then { orig := .freed, dropped := 1, consumed := true }
  else
    let e := enqueue r al br skb
    { orig := e.1, dropped := e.2.1, oomDrops := e.2.2, kaKick := canEnqueue r al br skb,
      consumed := true }

/-- Forward a clone and leave the frame to the caller. -/
def forwardClone (r : Producer) (al : Alloc) (br : FwdBridge) (skb : Skb) : Outcome :=
  if !devReady (br.egress r.dir) then { orig := .left skb, dropped := 1, consumed := false }
  else if !al.clone then { orig := .left skb, oomDrops := 1, consumed := false }
  else
    let e := enqueue r al br skb
    { orig := .left skb, clone := some e.1, dropped := e.2.1, oomDrops := e.2.2,
      kaKick := canEnqueue r al br skb, consumed := false }

/-! ## WLAN to peer -/

/-- The EtherType and the L3 offset `moal_bridge_rx_fast` works with : one 802.1Q tag is looked
behind. -/
def rxFastProto (al : Alloc) (skb : Skb) : Option (UInt16 × ℕ) :=
  if skb.eth.proto == ethP8021Q then
    if pskbMayPull al skb (ethHlen + vlanHlen) then
      some (be16 skb.data (ethHlen + 2), ethHlen + vlanHlen)
    else none
  else some (skb.eth.proto, ethHlen)

/-- `moal_bridge_rx_fast`. -/
def rxFast (cfg : Settings) (al : Alloc) (br : FwdBridge) (skb : Skb) : Outcome :=
  if !br.active then { orig := .left skb, consumed := false }
  else if !br.mediaConnected then { orig := .left skb, consumed := false }
  else
    match rxFastProto al skb with
    | none => { orig := .left skb, consumed := false }
    | some (proto, l3Off) =>
      if proto == ethPPae then { orig := .left skb, consumed := false }
      else if isLinkLocal skb.eth.dest then
        if cfg.consumeLinkLocal then { orig := .freed, dropped := 1, consumed := true }
        else { orig := .left skb, dropped := 1, consumed := false }
      else if proto == ethPArp && arpIsForSelf al br skb l3Off then
        { orig := .left skb, consumed := false }
      else if proto == ethPIp && !skb.eth.dest.isMulticast && ipPullable al br skb l3Off then
        if isBoxIp br (ipDaddr skb l3Off) then { orig := .left skb, consumed := false }
        else if br.wlanIpv4 != 0 then forwardOrig .rxFast al br skb
        else forwardClone .rxFast al br skb
      else forwardClone .rxFast al br skb

/-! ## Peer to WLAN -/

section Peer

-- `vlan_get_protocol` of the kernel.
variable (vlanGetProtocol : Skb → UInt16)

/-- The L3 offset of the peer paths : `skb->data` stands behind the Ethernet header, and an
in-band 802.1Q tag may follow. -/
def peerL3Off (skb : Skb) : ℕ :=
  if skb.protocol == ethP8021Q then vlanHlen else 0

/-- `PACKET_OTHERHOST` is corrected to `PACKET_HOST`. -/
def Skb.toHost (skb : Skb) : Skb :=
  if skb.pktType = .otherhost then { skb with pktType := .host } else skb

/-- An ARP whose target IP belongs to the box. -/
def selfArp (al : Alloc) (br : FwdBridge) (skb : Skb) : Bool :=
  vlanGetProtocol skb == ethPArp && arpIsForSelf al br skb (peerL3Off skb)

/-- A unicast IPv4 frame addressed to an IP of the box. -/
def selfIp (al : Alloc) (br : FwdBridge) (skb : Skb) : Bool :=
  !skb.eth.dest.isMulticast && vlanGetProtocol skb == ethPIp &&
    (ipPullable al br skb (peerL3Off skb) && isBoxIp br (ipDaddr skb (peerL3Off skb)))

/-- `moal_bridge_peer_rx_handler`. -/
def peerRxHandler (cfg : Settings) (al : Alloc) (br : FwdBridge) (skb : Skb) : Outcome :=
  if !br.active then { orig := .left skb, consumed := false }
  else if vlanGetProtocol skb == ethPPae then { orig := .left skb, consumed := false }
  else if isLinkLocal skb.eth.dest then { orig := .left skb, dropped := 1, consumed := false }
  else if !skb.eth.dest.isMulticast && skb.eth.dest == br.peerMac then
    { orig := .left skb, consumed := false }
  else if selfArp vlanGetProtocol al br skb && arOp skb (peerL3Off skb) == arpopRequest then
    { orig := .left skb.toHost, consumed := false }
  else if selfArp vlanGetProtocol al br skb && (cfg.localHairpin && skb.protocol == ethPArp &&
      arOp skb (peerL3Off skb) == arpopReply) then
    { orig := .injected { skb with dev := br.wlanDev, pktType := .host }, hairpinArpInject := 1,
      consumed := true }
  else if selfIp vlanGetProtocol al br skb then { orig := .left skb.toHost, consumed := false }
  else if !br.mediaConnected then
    { orig := .left (if skb.eth.dest == br.wlanDev.devAddr then skb.toHost else skb),
      consumed := false }
  else if !skb.eth.dest.isMulticast then forwardOrig .peerRxHandler al br skb
  else forwardClone .peerRxHandler al br skb

/-- `moal_bridge_peer_pt_func`. The reference is always consumed : it is a copy next to the
one the stack keeps. -/
def peerPtFunc (cfg : Settings) (al : Alloc) (br : FwdBridge) (skb : Skb) : Outcome :=
  if !br.active || skb.dev.ifindex != br.peerDev.ifindex then { orig := .freed, consumed := true }
  else if skb.protocol == ethPPae then { orig := .freed, consumed := true }
  else if !br.mediaConnected && vlanGetProtocol skb != ethPArp then
    { orig := .freed, consumed := true }
  else if !al.shareCheck then { orig := .freed, oomDrops := 1, consumed := true }
  else if skb.pktType != .otherhost && (selfArp vlanGetProtocol al br skb &&
      arOp skb (peerL3Off skb) == arpopRequest) then
    { orig := .freed, consumed := true }
  else if cfg.localHairpin && skb.pktType == .otherhost && skb.protocol == ethPArp &&
      (arpIsForSelf al br skb 0 && arOp skb 0 == arpopReply) then
    { orig := .injected { skb with dev := br.wlanDev, pktType := .host }, hairpinArpInject := 1,
      consumed := true }
  else if !br.mediaConnected then { orig := .freed, consumed := true }
  else forwardOrig .peerPtFunc al br skb

end Peer

/-! ## When a frame is queued -/

/-- What every path asks before a frame goes out through `r` : a ready device, a free slot and
room for the header. -/
def Egress (r : Producer) (al : Alloc) (br : FwdBridge) (skb : Skb) : Prop :=
  devReady (br.egress r.dir) = true ∧ canEnqueue r al br skb = true

theorem enqueue_fst_eq_queued_iff {r : Producer} {al : Alloc} {br : FwdBridge} {skb f : Skb}
    {d : Dir} : (enqueue r al br skb).1 = .queued d f ↔ canEnqueue r al br skb = true ∧ d = r.dir ∧
      f = { skb with dev := br.egress r.dir, pulled := false } := by
  unfold enqueue canEnqueue
  split_ifs with hq hh
  · simp only [Bool.and_eq_true, decide_eq_true_eq, false_iff]
    omega
  · simp_all
  · simp only [Fate.queued.injEq, Bool.and_eq_true, decide_eq_true_eq, not_lt.mp hq, true_and]
    constructor
    · rintro ⟨rfl, rfl⟩
      exact ⟨by simp_all [imp_iff_not_or], rfl, rfl⟩
    · rintro ⟨-, rfl, rfl⟩
      exact ⟨rfl, rfl⟩

/-- The frame itself goes out exactly when the egress accepts it. -/
theorem forwardOrig_forwards_iff {r : Producer} {al : Alloc} {br : FwdBridge} {skb : Skb} :
    (forwardOrig r al br skb).Forwards r.dir ↔ Egress r al br skb := by
  unfold forwardOrig Outcome.Forwards Egress
  split_ifs with h
  · simp_all
  · simp_all [enqueue_fst_eq_queued_iff]

/-- A clone goes out exactly when it could be made and the egress accepts it. -/
theorem forwardClone_forwards_iff {r : Producer} {al : Alloc} {br : FwdBridge} {skb : Skb} :
    (forwardClone r al br skb).Forwards r.dir ↔ Egress r al br skb ∧ al.clone = true := by
  unfold forwardClone Outcome.Forwards Egress
  split_ifs with h hc
  · simp_all
  · simp_all
  · simp_all [enqueue_fst_eq_queued_iff]

theorem forwards_of_no_clone {f : Fate} {a b c : ℕ} {k v : Bool} {d : Dir} :
    Outcome.Forwards ⟨f, none, a, b, c, k, v⟩ d ↔ ∃ skb, f = .queued d skb := by
  simp [Outcome.Forwards]

theorem forwards_ite {c : Prop} [Decidable c] {o o' : Outcome} {d : Dir} :
    (if c then o else o').Forwards d ↔ (c ∧ o.Forwards d) ∨ (¬c ∧ o'.Forwards d) := by
  split_ifs with h <;> simp [h]

/-- What `moal_bridge_rx_fast` forwards is neither EAPOL nor link-local as far as it looks. -/
theorem rxFast_forwards {cfg : Settings} {al : Alloc} {br : FwdBridge} {skb : Skb} {d : Dir}
    (h : (rxFast cfg al br skb).Forwards d) :
    ∃ p, rxFastProto al skb = some p ∧ p.1 ≠ ethPPae ∧ isLinkLocal skb.eth.dest = false := by
  unfold rxFast at h
  cases hp : rxFastProto al skb with
  | none => simp [hp, forwards_of_no_clone] at h
  | some p =>
    rw [hp] at h
    simp only [forwards_ite, forwards_of_no_clone, reduceCtorEq, exists_false, and_false, or_false,
      false_or, Bool.not_eq_true] at h
    exact ⟨p, rfl, by simpa using h.2.2.1, h.2.2.2.1⟩

section Peer

variable {vlanGetProtocol : Skb → UInt16} {cfg : Settings} {al : Alloc} {br : FwdBridge} {skb : Skb}

/-- What `moal_bridge_peer_rx_handler` keeps from the air whatever the state of the media. -/
def HandlerKeeps (vlanGetProtocol : Skb → UInt16) (cfg : Settings) (al : Alloc) (br : FwdBridge)
    (skb : Skb) : Prop :=
  vlanGetProtocol skb = ethPPae ∨ isLinkLocal skb.eth.dest = true ∨
    (skb.eth.dest.isMulticast = false ∧ skb.eth.dest = br.peerMac) ∨
    (selfArp vlanGetProtocol al br skb = true ∧ arOp skb (peerL3Off skb) = arpopRequest) ∨
    (selfArp vlanGetProtocol al br skb = true ∧ cfg.localHairpin = true ∧ skb.protocol = ethPArp ∧
      arOp skb (peerL3Off skb) = arpopReply) ∨
    selfIp vlanGetProtocol al br skb = true

/-- What `moal_bridge_peer_pt_func` keeps from the air whatever the state of the media. -/
def PtKeeps (vlanGetProtocol : Skb → UInt16) (cfg : Settings) (al : Alloc) (br : FwdBridge)
    (skb : Skb) : Prop :=
  skb.protocol = ethPPae ∨
    (skb.pktType ≠ .otherhost ∧ selfArp vlanGetProtocol al br skb = true ∧
      arOp skb (peerL3Off skb) = arpopRequest) ∨
    (cfg.localHairpin = true ∧ skb.pktType = .otherhost ∧ skb.protocol = ethPArp ∧
      arpIsForSelf al br skb 0 = true ∧ arOp skb 0 = arpopReply)

theorem peerRxHandler_forwards_iff :
    (peerRxHandler vlanGetProtocol cfg al br skb).Forwards .p2w ↔
      br.active = true ∧ br.mediaConnected = true ∧ ¬HandlerKeeps vlanGetProtocol cfg al br skb ∧
        Egress .peerRxHandler al br skb ∧ (skb.eth.dest.isMulticast = true → al.clone = true) := by
  have horig : (forwardOrig .peerRxHandler al br skb).Forwards .p2w ↔ _ := forwardOrig_forwards_iff
  have hclone : (forwardClone .peerRxHandler al br skb).Forwards .p2w ↔ _ :=
    forwardClone_forwards_iff
  unfold peerRxHandler HandlerKeeps
  simp only [forwards_ite, forwards_of_no_clone, horig, hclone, reduceCtorEq, exists_false,
    and_false, false_or, Bool.and_eq_true, Bool.not_eq_true', beq_iff_eq, Bool.not_eq_false,
    not_or, and_assoc]
  constructor
  · rintro ⟨hact, hpae, hll, hown, hreq, hrep, hip, hmedia, ⟨huni, heg⟩ | ⟨-, heg, hcl⟩⟩
    · exact ⟨hact, hmedia, hpae, hll, hown, hreq, hrep, hip, heg, by simp [huni]⟩
    · exact ⟨hact, hmedia, hpae, hll, hown, hreq, hrep, hip, heg, fun _ => hcl⟩
  · rintro ⟨hact, hmedia, hpae, hll, hown, hreq, hrep, hip, heg, hcl⟩
    refine ⟨hact, hpae, hll, hown, hreq, hrep, hip, hmedia, ?_⟩
    cases hm : skb.eth.dest.isMulticast with
    | false => exact .inl ⟨rfl, heg⟩
    | true => exact .inr ⟨rfl, heg, hcl hm⟩

theorem peerPtFunc_forwards_iff :
    (peerPtFunc vlanGetProtocol cfg al br skb).Forwards .p2w ↔
      br.active = true ∧ br.mediaConnected = true ∧ skb.dev.ifindex = br.peerDev.ifindex ∧
        al.shareCheck = true ∧ ¬PtKeeps vlanGetProtocol cfg al br skb ∧
        Egress .peerPtFunc al br skb := by
  have horig : (forwardOrig .peerPtFunc al br skb).Forwards .p2w ↔ _ := forwardOrig_forwards_iff
  unfold peerPtFunc PtKeeps
  simp only [forwards_ite, forwards_of_no_clone, horig, reduceCtorEq, exists_false,
    and_false, false_or, Bool.and_eq_true, Bool.or_eq_true, Bool.not_eq_true', beq_iff_eq, bne_iff_ne,
    Bool.not_eq_false, not_or, not_ne_iff, and_assoc]
  constructor
  · rintro ⟨hact, hdev, hpae, -, hshare, hreq, hrep, hmedia, heg⟩
    exact ⟨hact, hmedia, hdev, hshare, hpae, hreq, hrep, heg⟩
  · rintro ⟨hact, hmedia, hdev, hshare, hpae, hreq, hrep, heg⟩
    exact ⟨hact, hdev, hpae, by simp [hmedia], hshare, hreq, hrep, hmedia, heg⟩

end Peer

end WlanDriver.Bridge
