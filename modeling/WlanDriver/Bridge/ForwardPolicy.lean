import WlanDriver.Bridge.Ingress

/-!
# What the bridge must not forward

Two rules about the three ingress paths. EAPOL, behind any VLAN tags, and frames to the bridge
group addresses are never forwarded; and the packet_type fallback forwards what the
`rx_handler` forwards, up to the deviations its comments name.

The `rx_handler` keeps the first rule. `moal_bridge_rx_fast` looks behind one 802.1Q tag only, so it
keeps the rule for the frames in `RxFastSees`; the fallback compares `skb->protocol` with
`ETH_P_PAE` and has no test of the destination (`never_forward_iff`). The same omissions, and
two about frames for the box itself, separate the fallback from the `rx_handler`
(`fallback_agrees_iff`).
-/

namespace WlanDriver.Bridge

open WlanDriver.Ethernet

/-! ## The never-forward rule -/

/-- The frames no bridge forwards : EAPOL behind the tags that start with EtherType `t`, and the
destinations `01:80:C2:00:00:00 .. 01:80:C2:00:00:0F`. -/
def NeverBridged (t : UInt16) (skb : Skb) : Prop :=
  innermost t skb.payload = some ethPPae ∨
    (0x0180c2000000 ≤ skb.eth.dest.toNat ∧ skb.eth.dest.toNat ≤ 0x0180c200000f)
  deriving Decidable

theorem neverBridged_iff {t : UInt16} {skb : Skb} :
    NeverBridged t skb ↔
      innermost t skb.payload = some ethPPae ∨ isLinkLocal skb.eth.dest = true := by
  rw [NeverBridged, isLinkLocal, Mac.isGroupReserved_iff]

/-- `vlan_get_protocol` returns the EtherType behind the tags. -/
def SeesInnermost (vlanGetProtocol : Skb → UInt16) : Prop :=
  ∀ skb t, innermost skb.protocol skb.payload = some t → vlanGetProtocol skb = t

/-- What `moal_bridge_rx_fast` recognises : a group address, EAPOL without a tag, and EAPOL
behind one 802.1Q tag. -/
def RxFastSees (skb : Skb) : Prop :=
  isLinkLocal skb.eth.dest = true ∨ skb.eth.proto = ethPPae ∨
    (skb.eth.proto = ethP8021Q ∧ be16 skb.payload 2 = ethPPae)
  deriving Decidable

/-- Memory is available. -/
def allocOk : Alloc where
  pull _ := true
  clone := true
  shareCheck := true
  reallocHeadroom := true

/-- A bridge between two ready devices whose media is connected, with empty queues and no cached
address; its peer is the device with index `ifindex`. -/
def openBridge (ifindex : ℕ) : FwdBridge where
  active := true
  mediaConnected := true
  wlanDev := ⟨ifindex + 1, ⟨2, 0, 0, 0, 0, 1⟩, true, true, true⟩
  peerDev := ⟨ifindex, ⟨2, 0, 0, 0, 0, 2⟩, true, true, true⟩
  peerMac := ⟨2, 0, 0, 0, 0, 2⟩
  wlanIpv4 := 0
  peerIpv4 := 0
  qlen _ := 0

theorem egress_openBridge (r : Producer) (i : ℕ) (skb : Skb) :
    Egress r allocOk (openBridge i) skb := by
  cases r <;> simp [Egress, devReady, FwdBridge.egress, openBridge, Producer.dir, canEnqueue,
    queueMax, ensureHeadroom, allocOk]

theorem isBoxIp_openBridge (i : ℕ) (ip : UInt32) : isBoxIp (openBridge i) ip = false := by
  simp [isBoxIp, openBridge]

theorem arpIsForSelf_openBridge (al : Alloc) (i : ℕ) (skb : Skb) (off : ℕ) :
    arpIsForSelf al (openBridge i) skb off = false := by
  unfold arpIsForSelf
  split_ifs
  · rfl
  · rfl
  · exact isBoxIp_openBridge i _

/-- The EtherType `moal_bridge_rx_fast` finds when the frame holds what it pulls. -/
theorem rxFastProto_allocOk {skb : Skb} (hp : skb.pulled = false)
    (hlen : skb.eth.proto = ethP8021Q → 4 ≤ skb.payload.length) :
    (rxFastProto allocOk skb).map Prod.fst =
      some (if skb.eth.proto = ethP8021Q then be16 skb.payload 2 else skb.eth.proto) := by
  have hdata : skb.data = skb.eth.octets ++ skb.payload := by simp [Skb.data, hp]
  unfold rxFastProto
  by_cases h : skb.eth.proto = ethP8021Q
  · have hpull : pskbMayPull allocOk skb (ethHlen + vlanHlen) = true := by
      have := hlen h
      simp only [pskbMayPull, allocOk, hdata, List.length_append, EthHdr.length_octets, vlanHlen,
        Bool.and_true, decide_eq_true_eq]
      omega
    rw [if_pos (by simpa using h), if_pos hpull, if_pos h, hdata, ← skb.eth.length_octets,
      be16_append_add]
    rfl
  · rw [if_neg (by simpa using h), if_neg h]
    rfl

/-- Where memory is available, what `moal_bridge_rx_fast` does not recognise goes out. -/
theorem rxFast_openBridge_forwards {cfg : Settings} {skb : Skb} {i : ℕ} {p : UInt16 × ℕ}
    (hp : rxFastProto allocOk skb = some p) (hpae : p.1 ≠ ethPPae)
    (hll : isLinkLocal skb.eth.dest = false) :
    (rxFast cfg allocOk (openBridge i) skb).Forwards .w2p := by
  have hclone : (forwardClone .rxFast allocOk (openBridge i) skb).Forwards .w2p :=
    forwardClone_forwards_iff.mpr ⟨egress_openBridge _ i skb, rfl⟩
  have hip : ipPullable allocOk (openBridge i) skb p.2 = false := by simp [ipPullable, openBridge]
  simp only [rxFast, hp, hll, arpIsForSelf_openBridge, hip, beq_eq_false_iff_ne.mpr hpae,
    Bool.and_false]
  exact hclone

theorem peerPtFunc_openBridge_forwards {vlanGetProtocol : Skb → UInt16} {cfg : Settings} {skb : Skb}
    (hpae : skb.protocol ≠ ethPPae) :
    (peerPtFunc vlanGetProtocol cfg allocOk (openBridge skb.dev.ifindex) skb).Forwards .p2w := by
  refine peerPtFunc_forwards_iff.mpr ⟨rfl, rfl, rfl, rfl, ?_, egress_openBridge _ _ skb⟩
  simp [PtKeeps, hpae, selfArp, arpIsForSelf_openBridge]

/-- A recognised frame is kept, and a frame of the rule that is not recognised goes out on an open
bridge. -/
theorem rxFast_never_forwards_iff {skb : Skb} (hp : skb.pulled = false)
    (hn : NeverBridged skb.eth.proto skb) :
    (∀ cfg al br, ¬(rxFast cfg al br skb).Forwards .w2p) ↔ RxFastSees skb := by
  rw [neverBridged_iff] at hn
  constructor
  · intro h
    by_contra hsees
    simp only [RxFastSees, not_or, not_and, Bool.not_eq_true] at hsees
    obtain ⟨hll, hpae, htag⟩ := hsees
    have hinner := hn.resolve_right (by simp [hll])
    -- A stack that has an innermost EtherType is complete, so the first tag can be pulled.
    have hlen : skb.eth.proto = ethP8021Q → 4 ≤ skb.payload.length := by
      intro hq
      rw [hq] at hinner
      by_contra hshort
      unfold innermost at hinner
      split at hinner
      · rename_i hpay
        simp [hpay] at hshort
      · simp [ethTypeVlan] at hinner
    obtain ⟨p, hproto, hfst⟩ := Option.map_eq_some_iff.mp (rxFastProto_allocOk hp hlen)
    refine h ⟨false, false⟩ allocOk (openBridge 0) (rxFast_openBridge_forwards hproto ?_ hll)
    rw [hfst]
    split_ifs with hq
    · exact htag hq
    · exact hpae
  · intro hsees cfg al br hf
    obtain ⟨p, hproto, hpae, hll⟩ := rxFast_forwards hf
    obtain h | h | ⟨hq, htag⟩ := hsees
    · simp [h] at hll
    · have hne : (ethPPae == ethP8021Q) = false := rfl
      rw [rxFastProto, h, hne] at hproto
      simp only [Bool.false_eq_true, if_false, Option.some.injEq] at hproto
      exact hpae (by rw [← hproto])
    · have hdata : skb.data = skb.eth.octets ++ skb.payload := by simp [Skb.data, hp]
      rw [rxFastProto, if_pos (by simpa using hq)] at hproto
      split_ifs at hproto
      rw [hdata, ← skb.eth.length_octets, be16_append_add, htag, Option.some.injEq] at hproto
      exact hpae (by rw [← hproto])

/-- **The never-forward rule, path by path.** -/
theorem never_forward_iff {vlanGetProtocol : Skb → UInt16} (hv : SeesInnermost vlanGetProtocol) :
    (∀ skb, skb.pulled = false → NeverBridged skb.eth.proto skb →
      ((∀ cfg al br, ¬(rxFast cfg al br skb).Forwards .w2p) ↔ RxFastSees skb)) ∧
    (∀ skb, NeverBridged skb.protocol skb →
      ∀ cfg al br, ¬(peerRxHandler vlanGetProtocol cfg al br skb).Forwards .p2w) ∧
    (∀ skb, NeverBridged skb.protocol skb →
      ((∀ cfg al br, ¬(peerPtFunc vlanGetProtocol cfg al br skb).Forwards .p2w) ↔
        skb.protocol = ethPPae)) := by
  refine ⟨fun skb hp hn => rxFast_never_forwards_iff hp hn, ?_, ?_⟩
  · intro skb hn cfg al br hf
    obtain ⟨-, -, hkeeps, -⟩ := peerRxHandler_forwards_iff.mp hf
    obtain h | h := neverBridged_iff.mp hn
    · exact hkeeps (.inl (hv skb _ h))
    · exact hkeeps (.inr (.inl h))
  · intro skb hn
    constructor
    · intro h
      by_contra hpae
      exact h ⟨false, false⟩ allocOk _ (peerPtFunc_openBridge_forwards hpae)
    · intro hpae cfg al br hf
      obtain ⟨-, -, -, -, hkeeps, -⟩ := peerPtFunc_forwards_iff.mp hf
      exact hkeeps (.inl hpae)

/-- A `vlan_get_protocol` that walks the tags, zero for a frame that ends inside them. -/
def walkTags (skb : Skb) : UInt16 :=
  (innermost skb.protocol skb.payload).getD 0

theorem seesInnermost_walkTags : SeesInnermost walkTags := by
  intro skb t h
  simp [walkTags, h]

/-- An LLDP frame as the peer's handlers see it. -/
def lldpFrame : Skb where
  eth := ⟨⟨0x01, 0x80, 0xc2, 0, 0, 0x0e⟩, ⟨2, 0, 0, 0, 0, 9⟩, 0x88cc⟩
  payload := [2, 7, 4, 2, 0, 0, 0, 0, 9]
  pulled := true
  headroom := 64
  protocol := 0x88cc
  pktType := .multicast
  dev := ⟨0, ⟨2, 0, 0, 0, 0, 2⟩, true, true, true⟩

/-- An EAPOL frame behind an 802.1AD tag as the WLAN receive path sees it. -/
def adTaggedEapol : Skb where
  eth := ⟨⟨2, 0, 0, 0, 0, 1⟩, ⟨2, 0, 0, 0, 0, 9⟩, ethP8021AD⟩
  payload := [0, 1, 0x88, 0x8e, 2, 1, 0, 0]
  pulled := false
  headroom := 64
  protocol := 0
  pktType := .host
  dev := ⟨1, ⟨2, 0, 0, 0, 0, 1⟩, true, true, true⟩

/-- The fallback sends LLDP to the air, and `moal_bridge_rx_fast` sends EAPOL behind an 802.1AD tag
to the wire. -/
theorem lldp_and_tagged_eapol_forwarded :
    (NeverBridged lldpFrame.protocol lldpFrame ∧
      (peerPtFunc walkTags ⟨false, false⟩ allocOk (openBridge 0) lldpFrame).Forwards .p2w) ∧
    (NeverBridged adTaggedEapol.eth.proto adTaggedEapol ∧
      (rxFast ⟨false, false⟩ allocOk (openBridge 0) adTaggedEapol).Forwards .w2p) := by
  refine ⟨⟨by decide, peerPtFunc_openBridge_forwards (by decide)⟩, by decide, ?_⟩
  exact rxFast_openBridge_forwards (p := (ethP8021AD, ethHlen)) (by decide) (by decide) (by decide)

/-- The rule at the LLDP frame : the `rx_handler` keeps it and the fallback does not. -/
theorem never_forward_lldp :
    (∀ cfg al br, ¬(peerRxHandler walkTags cfg al br lldpFrame).Forwards .p2w) ∧
      ¬∀ cfg al br, ¬(peerPtFunc walkTags cfg al br lldpFrame).Forwards .p2w :=
  ⟨(never_forward_iff seesInnermost_walkTags).2.1 lldpFrame (by decide),
    fun h => absurd (((never_forward_iff seesInnermost_walkTags).2.2 lldpFrame (by decide)).mp h)
      (by decide)⟩

/-! ## The packet_type fallback -/

section Fallback

variable (vlanGetProtocol : Skb → UInt16) (cfg : Settings) (al : Alloc) (br : FwdBridge) (skb : Skb)

/-- The deviations the comments of `moal_bridge_peer_pt_func` name : an `OTHERHOST` frame to an IP
of the box, and an `OTHERHOST` ARP request for one. -/
def DocumentedDeviation : Prop :=
  skb.pktType = .otherhost ∧ (selfIp vlanGetProtocol al br skb = true ∨
    (selfArp vlanGetProtocol al br skb = true ∧ arOp skb (peerL3Off skb) = arpopRequest))

/-- The fallback queues the frame exactly when the `rx_handler` does, unless the frame is a
documented deviation. -/
def FallbackAgrees : Prop :=
  ¬DocumentedDeviation vlanGetProtocol al br skb →
    ((peerPtFunc vlanGetProtocol cfg al br skb).Forwards .p2w ↔
      (peerRxHandler vlanGetProtocol cfg al br skb).Forwards .p2w)

/-- The kinds of frames the `rx_handler` tests for and the fallback does not : EAPOL behind an
in-band tag, a group address, the peer's own MAC, and, with a packet type other than
`OTHERHOST`, an ARP reply for the local hairpin and a unicast frame to an IP of the box. -/
def FallbackMisses : Prop :=
  (vlanGetProtocol skb = ethPPae ∧ skb.protocol ≠ ethPPae) ∨ isLinkLocal skb.eth.dest = true ∨
    (skb.eth.dest.isMulticast = false ∧ skb.eth.dest = br.peerMac) ∨
    (skb.pktType ≠ .otherhost ∧
      ((selfArp vlanGetProtocol al br skb = true ∧ cfg.localHairpin = true ∧
        skb.protocol = ethPArp ∧ arOp skb (peerL3Off skb) = arpopReply) ∨
      selfIp vlanGetProtocol al br skb = true))

variable {vlanGetProtocol cfg al br skb}

theorem egress_peerPtFunc_iff :
    Egress .peerPtFunc al br skb ↔ Egress .peerRxHandler al br skb :=
  Iff.rfl

/-- An EtherType that is no tag is what `vlan_get_protocol` returns. -/
theorem SeesInnermost.of_not_vlan (hv : SeesInnermost vlanGetProtocol)
    (h : ethTypeVlan skb.protocol = false) : vlanGetProtocol skb = skb.protocol :=
  hv skb _ (innermost_of_not_vlan h _)

theorem PtKeeps.handlerKeeps (hv : SeesInnermost vlanGetProtocol)
    (h : PtKeeps vlanGetProtocol cfg al br skb) : HandlerKeeps vlanGetProtocol cfg al br skb := by
  obtain hpae | ⟨-, harp, hop⟩ | ⟨hhair, -, hproto, hself, hop⟩ := h
  · have hnv : ethTypeVlan skb.protocol = false := by rw [hpae]; rfl
    exact .inl (by rw [hv.of_not_vlan hnv, hpae])
  · exact .inr (.inr (.inr (.inl ⟨harp, hop⟩)))
  · have hnv : ethTypeVlan skb.protocol = false := by rw [hproto]; rfl
    have hoff : peerL3Off skb = 0 := by rw [peerL3Off, hproto]; rfl
    have harp : selfArp vlanGetProtocol al br skb = true := by
      rw [selfArp, hv.of_not_vlan hnv, hproto, hoff, hself]
      rfl
    exact .inr (.inr (.inr (.inr (.inl ⟨harp, hhair, hproto, by rw [hoff]; exact hop⟩))))

/-- What the `rx_handler` keeps and the fallback does not is a documented deviation or of a
missed kind. -/
theorem HandlerKeeps.ptKeeps_or (h : HandlerKeeps vlanGetProtocol cfg al br skb)
    (hdev : ¬DocumentedDeviation vlanGetProtocol al br skb) :
    PtKeeps vlanGetProtocol cfg al br skb ∨ FallbackMisses vlanGetProtocol cfg al br skb := by
  obtain hpae | hll | hown | ⟨harp, hop⟩ | ⟨harp, hhair, hproto, hop⟩ | hip := h
  · by_cases hp : skb.protocol = ethPPae
    · exact .inl (.inl hp)
    · exact .inr (.inl ⟨hpae, hp⟩)
  · exact .inr (.inr (.inl hll))
  · exact .inr (.inr (.inr (.inl hown)))
  · have hoth : skb.pktType ≠ .otherhost := fun ho => hdev ⟨ho, .inr ⟨harp, hop⟩⟩
    exact .inl (.inr (.inl ⟨hoth, harp, hop⟩))
  · by_cases hoth : skb.pktType = .otherhost
    · have hoff : peerL3Off skb = 0 := by rw [peerL3Off, hproto]; rfl
      have hself : arpIsForSelf al br skb 0 = true := by
        rw [selfArp, Bool.and_eq_true, hoff] at harp
        exact harp.2
      exact .inl (.inr (.inr ⟨hhair, hoth, hproto, hself, by rw [← hoff]; exact hop⟩))
    · exact .inr (.inr (.inr (.inr ⟨hoth, .inl ⟨harp, hhair, hproto, hop⟩⟩)))
  · have hoth : skb.pktType ≠ .otherhost := fun ho => hdev ⟨ho, .inl hip⟩
    exact .inr (.inr (.inr (.inr ⟨hoth, .inr hip⟩)))

theorem FallbackMisses.handlerKeeps (h : FallbackMisses vlanGetProtocol cfg al br skb) :
    HandlerKeeps vlanGetProtocol cfg al br skb := by
  obtain ⟨hpae, -⟩ | hll | hown | ⟨-, harp | hip⟩ := h
  · exact .inl hpae
  · exact .inr (.inl hll)
  · exact .inr (.inr (.inl hown))
  · exact .inr (.inr (.inr (.inr (.inl harp))))
  · exact .inr (.inr (.inr (.inr (.inr hip))))

/-- **When the fallback agrees with the `rx_handler`.** For a frame received on the peer they
agree exactly when the frame cannot leave anyway, or the fallback's own tests keep it, or it is
of no missed kind and the two functions' allocations turn out alike (or, for a missed kind, the
fallback gets no buffer), or it is a documented deviation. -/
theorem fallback_agrees_iff (hv : SeesInnermost vlanGetProtocol)
    (hdev : skb.dev.ifindex = br.peerDev.ifindex) :
    FallbackAgrees vlanGetProtocol cfg al br skb ↔
      DocumentedDeviation vlanGetProtocol al br skb ∨
      ¬(br.active = true ∧ br.mediaConnected = true ∧ Egress .peerRxHandler al br skb) ∨
      PtKeeps vlanGetProtocol cfg al br skb ∨
      (FallbackMisses vlanGetProtocol cfg al br skb ∧ al.shareCheck = false) ∨
      (¬FallbackMisses vlanGetProtocol cfg al br skb ∧
        (al.shareCheck = true ↔ (skb.eth.dest.isMulticast = true → al.clone = true))) := by
  unfold FallbackAgrees
  rw [peerPtFunc_forwards_iff, peerRxHandler_forwards_iff, egress_peerPtFunc_iff]
  by_cases hd : DocumentedDeviation vlanGetProtocol al br skb
  · simp [hd]
  by_cases hout : br.active = true ∧ br.mediaConnected = true ∧ Egress .peerRxHandler al br skb
  swap
  · have hpt : ¬(br.active = true ∧ br.mediaConnected = true ∧
        skb.dev.ifindex = br.peerDev.ifindex ∧ al.shareCheck = true ∧
        ¬PtKeeps vlanGetProtocol cfg al br skb ∧ Egress .peerRxHandler al br skb) :=
      fun h => hout ⟨h.1, h.2.1, h.2.2.2.2.2⟩
    have hh : ¬(br.active = true ∧ br.mediaConnected = true ∧
        ¬HandlerKeeps vlanGetProtocol cfg al br skb ∧ Egress .peerRxHandler al br skb ∧
        (skb.eth.dest.isMulticast = true → al.clone = true)) :=
      fun h => hout ⟨h.1, h.2.1, h.2.2.2.1⟩
    simp only [hd, hout, hpt, hh, not_false_eq_true, true_implies, iff_self, false_or, true_or]
  obtain ⟨hact, hmedia, heg⟩ := hout
  by_cases hpk : PtKeeps vlanGetProtocol cfg al br skb
  · simp [hpk, hpk.handlerKeeps hv]
  -- From here on only the tests the fallback lacks and the allocations are left.
  by_cases hm : FallbackMisses vlanGetProtocol cfg al br skb
  · simp [hd, hact, hmedia, heg, hdev, hpk, hm, hm.handlerKeeps]
  · have hh : ¬HandlerKeeps vlanGetProtocol cfg al br skb :=
      fun h => (h.ptKeeps_or hd).elim hpk hm
    simp [hd, hact, hmedia, heg, hdev, hpk, hm, hh]

end Fallback

/-- A unicast frame to a host behind the bridge. -/
def unicastFrame : Skb where
  eth := ⟨⟨2, 0, 0, 0, 0, 7⟩, ⟨2, 0, 0, 0, 0, 9⟩, 0x86dd⟩
  payload := [0x60, 0, 0, 0]
  pulled := true
  headroom := 64
  protocol := 0x86dd
  pktType := .otherhost
  dev := ⟨0, ⟨2, 0, 0, 0, 0, 2⟩, true, true, true⟩

/-- The condition holds of a frame to a host behind the bridge. -/
theorem fallback_agrees_unicast :
    FallbackAgrees walkTags ⟨false, false⟩ allocOk (openBridge 0) unicastFrame := by
  refine (fallback_agrees_iff seesInnermost_walkTags rfl).mpr ?_
  refine .inr (.inr (.inr (.inr ⟨?_, by simp [allocOk]⟩)))
  rintro (⟨h, -⟩ | h | ⟨-, h⟩ | ⟨h, -⟩)
  · exact absurd h (by decide)
  · exact absurd h (by decide)
  · exact absurd h (by decide)
  · exact h rfl

/-- The frame of `lldpFrame`, sent to the peer's own MAC. -/
def ownMacFrame : Skb :=
  { lldpFrame with
    eth := { lldpFrame.eth with dest := ⟨2, 0, 0, 0, 0, 2⟩ }
    pktType := .host }

/-- The fallback sends a group address and the peer's own MAC to the air; the `rx_handler` does
not. -/
theorem fallback_disagrees_lldp_and_ownMac :
    ¬FallbackAgrees walkTags ⟨false, false⟩ allocOk (openBridge 0) lldpFrame ∧
      ¬FallbackAgrees walkTags ⟨false, false⟩ allocOk (openBridge 0) ownMacFrame := by
  constructor
  · intro h
    have hpt : (peerPtFunc walkTags ⟨false, false⟩ allocOk (openBridge 0) lldpFrame).Forwards .p2w :=
      peerPtFunc_openBridge_forwards (by decide)
    have hh := peerRxHandler_forwards_iff.mp ((h fun hd => absurd hd.1 (by decide)).mp hpt)
    exact hh.2.2.1 (.inr (.inl rfl))
  · intro h
    have hpt : (peerPtFunc walkTags ⟨false, false⟩ allocOk (openBridge 0) ownMacFrame).Forwards .p2w :=
      peerPtFunc_openBridge_forwards (by decide)
    have hh := peerRxHandler_forwards_iff.mp ((h fun hd => absurd hd.1 (by decide)).mp hpt)
    exact hh.2.2.1 (.inr (.inr (.inl ⟨rfl, rfl⟩)))

end WlanDriver.Bridge
