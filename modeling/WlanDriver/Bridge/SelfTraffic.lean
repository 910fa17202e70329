import WlanDriver.Bridge.ForwardPolicy

/-!
# Traffic for the box itself

An ARP request for a cached address of the box, and a unicast IPv4 frame to one, belong to the local stack
(`SelfFrame`, at the offset where the innermost header really stands).

`moal_bridge_rx_fast` takes the EtherType and the offset from the same tag. `moal_bridge_peer_rx_handler` takes the
innermost EtherType from `vlan_get_protocol` and the offset from the outermost one : `VLAN_HLEN` for an 802.1Q tag and
zero otherwise. Behind two tags, or behind an 802.1AD tag, it reads the addresses from the wrong octets.

`self_traffic_iff` : which frames for the box the two functions leave to the stack.
-/

namespace WlanDriver.Bridge

open WlanDriver.Ethernet

/-! ## Frames for the box -/

/-- `ip` is one of the cached addresses that are set. -/
def BoxIp (br : FwdBridge) (ip : UInt32) : Prop :=
  (br.wlanIpv4 ≠ 0 ∧ ip = br.wlanIpv4) ∨ (br.peerIpv4 ≠ 0 ∧ ip = br.peerIpv4)
  deriving Decidable

/-- An Ethernet/IPv4 ARP request at `off` that asks for an address of the box. -/
structure ArpRequestFor (br : FwdBridge) (bs : List UInt8) (off : ℕ) : Prop where
  hrd : be16 bs off = 1
  pro : be16 bs (off + 2) = ethPIp
  hln : octet bs (off + 4) = 6
  pln : octet bs (off + 5) = 4
  op : be16 bs (off + 6) = arpopRequest
  target : BoxIp br (be32 bs (off + 24))

/-- A frame for the box whose innermost EtherType is `t`, with its header at `off` : an ARP request, or a unicast IPv4
frame. The header can be pulled. -/
def SelfFrame (al : Alloc) (br : FwdBridge) (skb : Skb) (t : UInt16) (off : ℕ) : Prop :=
  (t = ethPArp ∧ ArpRequestFor br skb.data off ∧ pskbMayPull al skb (off + 28) = true) ∨
    (t = ethPIp ∧ skb.eth.dest.isMulticast = false ∧ BoxIp br (ipDaddr skb off) ∧
      pskbMayPull al skb (off + 20) = true)

/-- The frame is left to the local stack as `skb`, and nothing goes out to `d`. -/
def Outcome.Kept (o : Outcome) (d : Dir) (skb : Skb) : Prop :=
  o.orig = .left skb ∧ ¬o.Forwards d

section Recognised

variable {al : Alloc} {br : FwdBridge} {skb : Skb} {off : ℕ}

theorem isBoxIp_iff {ip : UInt32} : isBoxIp br ip = true ↔ BoxIp br ip := by
  simp [isBoxIp, BoxIp]

/-- `moal_bridge_arp_is_for_self` recognises a request at the offset it is given. -/
theorem ArpRequestFor.isForSelf (h : ArpRequestFor br skb.data off) (hpull : pskbMayPull al skb (off + 28) = true) :
    arpIsForSelf al br skb off = true := by
  have hbox : isBoxIp br (be32 skb.data (off + 8 + 16)) = true := isBoxIp_iff.mpr h.target
  have hp : pskbMayPull al skb (off + 8 + 20) = true := hpull
  simp [arpIsForSelf, hp, h.hrd, h.pro, h.hln, h.pln, hbox]

/-- A cached address is not zero, so the SELF-IP test is made. -/
theorem ipPullable_of_boxIp {ip : UInt32} (h : BoxIp br ip) (hpull : pskbMayPull al skb (off + 20) = true) :
    ipPullable al br skb off = true := by
  obtain ⟨h0, -⟩ | ⟨h0, -⟩ := h <;> simp [ipPullable, hpull, h0]

end Recognised

/-- Neither EtherType is EAPOL's. -/
theorem SelfFrame.ne_pae {al : Alloc} {br : FwdBridge} {skb : Skb} {t : UInt16} {off : ℕ}
    (h : SelfFrame al br skb t off) : t ≠ ethPPae := by
  obtain ⟨rfl, -⟩ | ⟨rfl, -⟩ := h <;> decide

/-! ## WLAN to peer -/

section RxFast

variable {cfg : Settings} {al : Alloc} {br : FwdBridge} {skb : Skb}

/-- The EtherType `moal_bridge_rx_fast` sees : behind one 802.1Q tag, or the frame's own. -/
def rxFastSees (skb : Skb) : UInt16 :=
  if skb.eth.proto = ethP8021Q then be16 skb.payload 2 else skb.eth.proto

/-- An ARP request sent to a bridge group address, while `bridge_consume_link_local` is set. -/
def RxFastConsumes (cfg : Settings) (al : Alloc) (br : FwdBridge) (skb : Skb) : Prop :=
  br.active = true ∧ br.mediaConnected = true ∧ (rxFastProto al skb).isSome = true ∧
    isLinkLocal skb.eth.dest = true ∧ cfg.consumeLinkLocal = true

/-- Where the EtherType seen is the innermost one, the offset is right too. -/
theorem rxFastProto_eq_or_none {p : UInt16 × ℕ} (hp : skb.pulled = false)
    (hin : innermostAt skb.eth.proto skb.payload = some p) (hsees : rxFastSees skb = p.1) :
    rxFastProto al skb = some (p.1, ethHlen + p.2) ∨ rxFastProto al skb = none := by
  have hnv := not_vlan_of_innermostAt hin
  unfold rxFastSees at hsees
  unfold rxFastProto
  by_cases hq : skb.eth.proto = ethP8021Q
  · rw [if_pos hq] at hsees
    have htag : p = (be16 skb.payload 2, vlanHlen) :=
      innermostAt_of_tag (by rw [hq]; rfl) hin (by rw [hsees]; exact hnv)
    have hdata : be16 skb.data (ethHlen + 2) = p.1 := by
      rw [Skb.data, hp, ← skb.eth.length_octets, ← hsees]
      exact be16_append_add _ _ _
    rw [if_pos (by simpa using hq), hdata, htag]
    split_ifs
    · exact .inl rfl
    · exact .inr rfl
  · rw [if_neg hq] at hsees
    rw [hsees, innermostAt_of_not_vlan hnv] at hin
    rw [if_neg (by simpa using hq), hsees, ← Option.some.inj hin]
    exact .inl rfl

/-- `moal_bridge_rx_fast` never queues a frame for the box, and leaves it unless it consumes a group address. -/
theorem rxFast_self {p : UInt16 × ℕ} (hp : skb.pulled = false)
    (hin : innermostAt skb.eth.proto skb.payload = some p) (hsees : rxFastSees skb = p.1)
    (hself : SelfFrame al br skb p.1 (ethHlen + p.2)) :
    ¬(rxFast cfg al br skb).Forwards .w2p ∧
      ((rxFast cfg al br skb).orig = .left skb ↔ ¬RxFastConsumes cfg al br skb) := by
  have hpae := hself.ne_pae
  unfold rxFast RxFastConsumes
  cases hact : br.active with
  | false => simp [forwards_of_no_clone]
  | true =>
    cases hmed : br.mediaConnected with
    | false => simp [forwards_of_no_clone]
    | true =>
      obtain hproto | hproto := @rxFastProto_eq_or_none al skb p hp hin hsees
      · cases hll : isLinkLocal skb.eth.dest with
        | true => cases hc : cfg.consumeLinkLocal <;> simp [hproto, hpae, forwards_of_no_clone]
        | false =>
          obtain ⟨ht, harp, hpull⟩ | ⟨ht, huni, hbox, hpull⟩ := hself
          · simp [hproto, ht, harp.isForSelf hpull, forwards_of_no_clone, ethPArp, ethPPae]
          · simp [hproto, ht, huni, ipPullable_of_boxIp hbox hpull, isBoxIp_iff.mpr hbox, forwards_of_no_clone, ethPIp,
              ethPPae]
      · simp [hproto, forwards_of_no_clone]

end RxFast

/-! ## Peer to WLAN -/

section Peer

variable (vlanGetProtocol : Skb → UInt16) (al : Alloc) (br : FwdBridge) (skb : Skb)

/-- `moal_bridge_peer_rx_handler` finds the request, or the address, at the offset it works with. -/
def SeenAsSelf : Prop :=
  (selfArp vlanGetProtocol al br skb = true ∧ arOp skb (peerL3Off skb) = arpopRequest) ∨
    selfIp vlanGetProtocol al br skb = true

/-- Frames it leaves as they are before it looks for an address : the bridge is not active, a bridge group address,
the peer's own MAC. -/
def PassedAsIs : Prop :=
  br.active = false ∨ isLinkLocal skb.eth.dest = true ∨
    (skb.eth.dest.isMulticast = false ∧ skb.eth.dest = br.peerMac)

/-- It does not send the frame, or a clone, to the air : the media is down, or it is a multicast frame and a clone
cannot go out. -/
def NothingSent : Prop :=
  br.mediaConnected = false ∨
    (skb.eth.dest.isMulticast = true ∧ ¬(Egress .peerRxHandler al br skb ∧ al.clone = true))

/-- A frame for the box is seen as one; or it is passed, with nothing to correct; or it is passed as a frame to the
cloned MAC while the media is down. -/
def HandlerKeepsSelf : Prop :=
  (¬PassedAsIs br skb ∧ SeenAsSelf vlanGetProtocol al br skb) ∨
    (skb.pktType ≠ .otherhost ∧ (PassedAsIs br skb ∨ NothingSent al br skb)) ∨
    (¬PassedAsIs br skb ∧ br.mediaConnected = false ∧ skb.eth.dest = br.wlanDev.devAddr)

variable {vlanGetProtocol al br skb} {cfg : Settings}

theorem Skb.toHost_eq_self_iff : skb.toHost = skb ↔ skb.pktType ≠ .otherhost := by
  unfold Skb.toHost
  split_ifs with h
  · simp only [h, ne_eq, not_true_eq_false, iff_false]
    intro heq
    have ht : PktType.host = skb.pktType := congrArg Skb.pktType heq
    simp [h] at ht
  · simp [h]

theorem SelfFrame.not_reply {p : UInt16 × ℕ} (hin : innermostAt skb.protocol skb.payload = some p)
    (h : SelfFrame al br skb p.1 p.2) (harp : skb.protocol = ethPArp) : arOp skb (peerL3Off skb) ≠ arpopReply := by
  rw [innermostAt_of_not_vlan (by rw [harp]; rfl), harp] at hin
  obtain rfl := Option.some.inj hin
  have hoff : peerL3Off skb = 0 := by rw [peerL3Off, harp]; rfl
  obtain ⟨-, hreq, -⟩ | ⟨ht, -⟩ := h
  · have hop : arOp skb 0 = arpopRequest := hreq.op
    rw [hoff, hop]
    decide
  · exact absurd ht (by decide)

theorem kept_left_iff {f g : Skb} {a b c : ℕ} {k v : Bool} {d : Dir} :
    Outcome.Kept ⟨.left f, none, a, b, c, k, v⟩ d g ↔ f = g := by
  simp [Outcome.Kept, forwards_of_no_clone]

theorem peerRxHandler_of_passedAsIs (hpae : vlanGetProtocol skb ≠ ethPPae) (h : PassedAsIs br skb) :
    ∃ n, peerRxHandler vlanGetProtocol cfg al br skb = { orig := .left skb, dropped := n, consumed := false } := by
  unfold peerRxHandler
  by_cases hact : br.active = true
  · by_cases hll : isLinkLocal skb.eth.dest = true
    · exact ⟨1, by simp [hact, hpae, hll]⟩
    · obtain h | h | ⟨huni, hown⟩ := h
      · exact absurd hact (by simp [h])
      · exact absurd h hll
      · exact ⟨0, by simp [hact, hpae, hll, huni, ← hown]⟩
  · exact ⟨0, by simp [hact]⟩

/-- A frame that is looked at : left if it is seen as one for the box, and otherwise sent. -/
theorem peerRxHandler_of_not_passedAsIs (hpae : vlanGetProtocol skb ≠ ethPPae) (h : ¬PassedAsIs br skb)
    (hreply : skb.protocol = ethPArp → arOp skb (peerL3Off skb) ≠ arpopReply) :
    peerRxHandler vlanGetProtocol cfg al br skb =
      if selfArp vlanGetProtocol al br skb && arOp skb (peerL3Off skb) == arpopRequest then
        { orig := .left skb.toHost, consumed := false }
      else if selfIp vlanGetProtocol al br skb then { orig := .left skb.toHost, consumed := false }
      else if !br.mediaConnected then
        { orig := .left (if skb.eth.dest == br.wlanDev.devAddr then skb.toHost else skb), consumed := false }
      else if !skb.eth.dest.isMulticast then forwardOrig .peerRxHandler al br skb
      else forwardClone .peerRxHandler al br skb := by
  simp only [PassedAsIs, not_or, Bool.not_eq_false, Bool.not_eq_true] at h
  obtain ⟨hact, hll, hown⟩ := h
  have hinject : (cfg.localHairpin && skb.protocol == ethPArp && arOp skb (peerL3Off skb) == arpopReply) = false := by
    by_cases hp : skb.protocol = ethPArp
    · simp [hreply hp]
    · simp [hp]
  rw [peerRxHandler, if_neg (by simp [hact]), if_neg (by simpa using hpae), if_neg (by simp [hll]),
    if_neg (by simpa using hown), hinject, Bool.and_false, if_neg Bool.false_ne_true]

/-- A frame itself is never left once it is to be sent. -/
theorem not_kept_forwardOrig {r : Producer} {d : Dir} {g : Skb} : ¬(forwardOrig r al br skb).Kept d g := by
  unfold forwardOrig enqueue Outcome.Kept
  split_ifs <;> simp

theorem kept_forwardClone_iff {r : Producer} {g : Skb} :
    (forwardClone r al br skb).Kept r.dir g ↔ skb = g ∧ ¬(Egress r al br skb ∧ al.clone = true) := by
  rw [← forwardClone_forwards_iff, Outcome.Kept]
  refine and_congr_left fun _ => ?_
  unfold forwardClone
  split_ifs <;> simp

/-- What the handler leaves to the stack of the frames for the box, with the packet type corrected. -/
theorem peerRxHandler_self {p : UInt16 × ℕ} (hv : SeesInnermost vlanGetProtocol)
    (hin : innermostAt skb.protocol skb.payload = some p) (hself : SelfFrame al br skb p.1 p.2) :
    (peerRxHandler vlanGetProtocol cfg al br skb).Kept .p2w skb.toHost ↔
      HandlerKeepsSelf vlanGetProtocol al br skb := by
  have hproto : vlanGetProtocol skb = p.1 := hv skb p.1 (by rw [← innermostAt_fst, hin, Option.map_some])
  have hpae : vlanGetProtocol skb ≠ ethPPae := by rw [hproto]; exact hself.ne_pae
  have htype : skb = skb.toHost ↔ skb.pktType ≠ .otherhost := eq_comm.trans Skb.toHost_eq_self_iff
  by_cases hidle : PassedAsIs br skb
  · obtain ⟨n, hn⟩ := @peerRxHandler_of_passedAsIs vlanGetProtocol al br skb cfg hpae hidle
    rw [hn, kept_left_iff, htype]
    simp [HandlerKeepsSelf, hidle]
  · have hclone : (forwardClone .peerRxHandler al br skb).Kept .p2w skb.toHost ↔ _ := kept_forwardClone_iff
    rw [peerRxHandler_of_not_passedAsIs hpae hidle (hself.not_reply hin)]
    by_cases hseen : SeenAsSelf vlanGetProtocol al br skb
    · have hleft : HandlerKeepsSelf vlanGetProtocol al br skb := .inl ⟨hidle, hseen⟩
      obtain ⟨harp, hop⟩ | hip := hseen
      · simp [harp, hop, kept_left_iff, hleft]
      · split_ifs <;> simp [kept_left_iff, hleft]
    · have harp : ¬(selfArp vlanGetProtocol al br skb && arOp skb (peerL3Off skb) == arpopRequest) = true := by
        intro h
        exact hseen (.inl (by simpa using h))
      rw [if_neg harp, if_neg fun hip => hseen (.inr hip)]
      simp only [HandlerKeepsSelf, hidle, hseen, NothingSent, not_false_eq_true, true_and, false_or, and_false]
      by_cases hmed : br.mediaConnected = true
      · rw [if_neg (by simp [hmed])]
        by_cases huni : skb.eth.dest.isMulticast = true
        · rw [if_neg (by simp [huni]), hclone, htype]
          simp [hmed, huni]
        · rw [if_pos (by simpa using huni)]
          simp [hmed, huni, not_kept_forwardOrig]
      · rw [if_pos (by simpa using hmed), kept_left_iff]
        by_cases hdst : skb.eth.dest = br.wlanDev.devAddr
        · simp [hdst, hmed]
        · simp [hdst, hmed, htype]

/-- Where the header stands at the offset the handler works with, a frame for the box stays unless it is passed as it is. -/
theorem peerRxHandler_self_of_peerL3Off {p : UInt16 × ℕ} (hv : SeesInnermost vlanGetProtocol)
    (hin : innermostAt skb.protocol skb.payload = some p) (hself : SelfFrame al br skb p.1 p.2)
    (hoff : peerL3Off skb = p.2) (hpassed : ¬PassedAsIs br skb) :
    (peerRxHandler vlanGetProtocol cfg al br skb).Kept .p2w skb.toHost := by
  have hproto : vlanGetProtocol skb = p.1 := hv skb p.1 (by rw [← innermostAt_fst, hin, Option.map_some])
  refine (peerRxHandler_self hv hin hself).mpr (.inl ⟨hpassed, ?_⟩)
  unfold SeenAsSelf selfArp selfIp
  rw [hoff, hproto]
  obtain ⟨ht, harp, hpull⟩ | ⟨ht, huni, hbox, hpull⟩ := hself
  · exact .inl ⟨by simp [ht, harp.isForSelf hpull], harp.op⟩
  · exact .inr (by simp [ht, huni, ipPullable_of_boxIp hbox hpull, isBoxIp_iff.mpr hbox])

end Peer

/-- **Frames for the box.** Behind the tags its lookup sees through, `moal_bridge_rx_fast` queues none of them, and
leaves each to the stack unless it consumes a bridge group address. `moal_bridge_peer_rx_handler` leaves to the stack, as
a frame for this host, exactly those of `HandlerKeepsSelf`. -/
theorem self_traffic_iff {vlanGetProtocol : Skb → UInt16} (hv : SeesInnermost vlanGetProtocol) (cfg : Settings)
    (al : Alloc) (br : FwdBridge) (skb : Skb) :
    (∀ p, skb.pulled = false → innermostAt skb.eth.proto skb.payload = some p → rxFastSees skb = p.1 →
      SelfFrame al br skb p.1 (ethHlen + p.2) →
        ¬(rxFast cfg al br skb).Forwards .w2p ∧
          ((rxFast cfg al br skb).orig = .left skb ↔ ¬RxFastConsumes cfg al br skb)) ∧
    ∀ p, skb.pulled = true → innermostAt skb.protocol skb.payload = some p → SelfFrame al br skb p.1 p.2 →
      ((peerRxHandler vlanGetProtocol cfg al br skb).Kept .p2w skb.toHost ↔
        HandlerKeepsSelf vlanGetProtocol al br skb) :=
  ⟨fun _ hp hin hsees hself => rxFast_self hp hin hsees hself, fun _ _ hin hself => peerRxHandler_self hv hin hself⟩

/-- An open bridge whose WLAN interface has the address 192.168.1.100. -/
def boxBridge : FwdBridge :=
  { openBridge 0 with wlanIpv4 := 0xc0a80164 }

/-- A broadcast ARP request for 192.168.1.100 behind an 802.1Q tag, as the WLAN receive path sees it. -/
def taggedArpRequest : Skb where
  eth := ⟨⟨0xff, 0xff, 0xff, 0xff, 0xff, 0xff⟩, ⟨2, 0, 0, 0, 0, 9⟩, ethP8021Q⟩
  payload := [0, 5, 0x08, 0x06, 0, 1, 0x08, 0, 6, 4, 0, 1, 2, 0, 0, 0, 0, 9, 192, 168, 1, 7, 0, 0, 0, 0, 0, 0,
    192, 168, 1, 100]
  pulled := false
  headroom := 64
  protocol := 0
  pktType := .broadcast
  dev := ⟨1, ⟨2, 0, 0, 0, 0, 1⟩, true, true, true⟩

/-- The same frame behind an 802.1AD tag, as the peer receives it. -/
def adTaggedArpRequest : Skb :=
  { taggedArpRequest with pulled := true, protocol := ethP8021AD }

/-- An IPv4 packet to 192.168.1.100 and the cloned MAC behind two 802.1Q tags, as the peer receives it. -/
def doubleTaggedPacket : Skb where
  eth := ⟨⟨2, 0, 0, 0, 0, 1⟩, ⟨2, 0, 0, 0, 0, 9⟩, ethP8021Q⟩
  payload := [0, 5, 0x81, 0, 0, 6, 0x08, 0, 0x45, 0, 0, 20, 0, 0, 0, 0, 64, 17, 0, 0, 192, 168, 1, 7, 192, 168, 1, 100]
  pulled := true
  headroom := 64
  protocol := ethP8021Q
  pktType := .otherhost
  dev := ⟨0, ⟨2, 0, 0, 0, 0, 2⟩, true, true, true⟩

theorem selfFrame_adTaggedArpRequest : SelfFrame allocOk boxBridge adTaggedArpRequest ethPArp 4 :=
  .inl ⟨rfl, ⟨by decide, by decide, by decide, by decide, by decide, by decide⟩, by decide⟩

theorem selfFrame_doubleTaggedPacket : SelfFrame allocOk boxBridge doubleTaggedPacket ethPIp 8 :=
  .inr ⟨rfl, by decide, by decide, by decide⟩

/-- Both frames are for the box, `vlan_get_protocol` sees what they are, and both go out to the air. -/
theorem self_traffic_forwarded :
    (innermostAt adTaggedArpRequest.protocol adTaggedArpRequest.payload = some (ethPArp, 4) ∧
      SelfFrame allocOk boxBridge adTaggedArpRequest ethPArp 4 ∧
      (peerRxHandler walkTags ⟨false, false⟩ allocOk boxBridge adTaggedArpRequest).Forwards .p2w) ∧
    (innermostAt doubleTaggedPacket.protocol doubleTaggedPacket.payload = some (ethPIp, 8) ∧
      SelfFrame allocOk boxBridge doubleTaggedPacket ethPIp 8 ∧
      (peerRxHandler walkTags ⟨false, false⟩ allocOk boxBridge doubleTaggedPacket).Forwards .p2w) :=
  ⟨⟨by decide, selfFrame_adTaggedArpRequest, .inr ⟨{ adTaggedArpRequest with
      dev := boxBridge.wlanDev, pulled := false }, by decide⟩⟩,
    by decide, selfFrame_doubleTaggedPacket, .inl ⟨{ doubleTaggedPacket with
      dev := boxBridge.wlanDev, pulled := false }, by decide⟩⟩

/-- The rule at a tagged request on the WLAN, which stays, and at the packet behind two tags on the peer. -/
theorem self_traffic_tagged :
    ¬(rxFast ⟨false, false⟩ allocOk boxBridge taggedArpRequest).Forwards .w2p ∧
      ((peerRxHandler walkTags ⟨false, false⟩ allocOk boxBridge doubleTaggedPacket).Kept .p2w
          doubleTaggedPacket.toHost ↔ HandlerKeepsSelf walkTags allocOk boxBridge doubleTaggedPacket) :=
  ⟨((self_traffic_iff seesInnermost_walkTags ⟨false, false⟩ allocOk boxBridge taggedArpRequest).1 (ethPArp, 4) rfl
      (by decide) (by decide)
      (.inl ⟨rfl, ⟨by decide, by decide, by decide, by decide, by decide, by decide⟩, by decide⟩)).1,
    (self_traffic_iff seesInnermost_walkTags ⟨false, false⟩ allocOk boxBridge doubleTaggedPacket).2 (ethPIp, 8) rfl
      (by decide) selfFrame_doubleTaggedPacket⟩

end WlanDriver.Bridge
