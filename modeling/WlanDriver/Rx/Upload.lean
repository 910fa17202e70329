import WlanDriver.Rx.Buffer
import WlanDriver.Bridge.Disposition

/-!
# Uploads

`moal_recv_packet` gets a buffer with or without an attached skb. It detaches an attached skb and decides early that it
will return `MLAN_STATUS_PENDING`; a frame without an skb is copied to one of its own. Its callers complete the buffer
unless the call is pending : `data_complete` frees the skb that is attached then.

`recvPacket_truthful_iff` : what is returned agrees with what became of the skb (`Truthful`), unless the EasyMesh check
refuses the station, which frees nothing, or the packet filter refuses an attached skb, which is freed although the call
returns a failure.
-/

namespace WlanDriver.Upload

open Ethernet Rx Bridge

/-! ## References -/

/-- The skb that is attached to the buffer with what the bridge makes of it, and the skb that the call allocates
(`none`). -/
abbrev SkbRef := Option Ref

/-- What the call, or the completion behind it, does with a reference. -/
inductive SkbOp
  /-- `dev_alloc_skb`. -/
  | alloc
  /-- `dev_kfree_skb`. -/
  | free (r : SkbRef)
  /-- `netif_rx`, `netif_rx_ni` or `netif_receive_skb`. -/
  | deliver (r : SkbRef)
  | bridge (op : RefOp)
  deriving DecidableEq

def SkbOp.event : SkbOp → Custody.Event SkbRef
  | .alloc => .make none
  | .free r | .deliver r => .release r
  | .bridge op => op.event.map some

/-- The operations in order, over the references `own`. -/
def SkbOp.run (ops : List SkbOp) (own : List SkbRef) : Option (List SkbRef) :=
  Custody.run (ops.map SkbOp.event) own

/-! ## The buffer and its environment -/

/-- A `mlan_buffer`, and the frame it holds. Buffers from `moal_malloc` have no skb. -/
structure RecvBuf where
  pdesc : Bool
  flags : ℕ
  priority : ℕ
  dataOffset : ℕ
  dataLen : ℕ
  headroom : ℕ
  tailroom : ℤ
  frame : Skb
  malloced : flags.testBit 2 = true → pdesc = false

namespace RecvBuf

variable (b : RecvBuf)

/-- `MLAN_BUF_FLAG_MALLOC_BUF`. -/
def mallocBuf : Bool := b.flags.testBit 2

/-- `MLAN_BUF_FLAG_NET_MONITOR`. -/
def netMonitor : Bool := b.flags.testBit 11

/-- `MLAN_BUF_FLAG_EASYMESH`. -/
def easymesh : Bool := b.flags.testBit 16

/-- `(pmbuf->priority & 0xFF000000) >> 24`. -/
def aid : ℕ := b.priority / 2 ^ 24 % 256

/-- The references of the call when it starts. -/
def own : List SkbRef :=
  if b.pdesc then [some .given] else []

end RecvBuf

def maxStaCount : ℤ := 64

/-- `NXP_ETH_P_WAPI`. -/
def ethPWapi : UInt16 := 0x88b4

/-- What the call finds. `priv` : there is an interface; `isValid` : the stations of `vlan_sta_list`; `transactionId` and
`arpRequestHash` : of a frame, 0 if it is none; `discovers` and `hlist` : those seen before; `mon` : the monitor interface
is running. -/
structure RecvEnv where
  usb : Bool
  priv : Bool
  isValid : ℤ → Bool
  use4addrStation : Bool
  transactionId : Skb → ℕ
  discovers : List ℕ
  arpRequestHash : Skb → ℕ
  hlist : List ℕ
  filterPacket : Skb → Bool
  bridge : Option (Settings × Alloc × FwdBridge)
  mon : Bool
  radiotapEnabled : Bool
  radiotapLen : ℕ
  allocSkb : Bool
  dropPointP4 : Bool

/-- What a call did : its status, its operations, whether the skb is attached to the buffer afterwards, and its
counters. -/
structure Outcome where
  status : Recv
  ops : List SkbOp := []
  pdesc : Bool
  mbufallocDec : ℕ := 0
  rxDropped : ℕ := 0
  rxPackets : ℕ := 0
  deauthEvtCleared : Bool := false

/-! ## The functions -/

section

variable (env : RecvEnv) (b : RecvBuf)

def recvPacketToMonIf : Outcome :=
  if !b.pdesc then { status := .success, pdesc := b.pdesc }
  else if env.mon then
    if env.radiotapEnabled && decide (b.headroom + b.dataOffset < env.radiotapLen) then
      { status := .failure, pdesc := b.pdesc }
    else { status := .pending, ops := [.deliver (some .given)], pdesc := b.pdesc }
  else { status := .success, pdesc := b.pdesc }

/-- The station of an EasyMesh frame is not valid. -/
def meshRefuses : Bool :=
  b.easymesh && !env.isValid (((b.aid : ℤ) - 1).tmod maxStaCount)

/-- A DHCP discover or an ARP request that was sent by this station before. -/
def duplicate : Bool :=
  env.use4addrStation &&
    ((env.transactionId b.frame != 0 && env.discovers.contains (env.transactionId b.frame)) ||
      (env.arpRequestHash b.frame != 0 && env.hlist.contains (env.arpRequestHash b.frame)))

/-- `moal_recv_packet` once it has an skb `r`, with the status it has decided on. -/
def uploadFrame (r : SkbRef) (status : Recv) : Outcome :=
  let deauthEvtCleared := b.frame.eth.proto == ethPPae || b.frame.eth.proto == ethPWapi
  if meshRefuses env b then
    { status := .failure, pdesc := false, rxDropped := 1, deauthEvtCleared := deauthEvtCleared }
  else if duplicate env b then
    { status := status, ops := [.free r], pdesc := false, deauthEvtCleared := deauthEvtCleared }
  else if !env.filterPacket b.frame then
    { status := .failure, ops := [.free r], pdesc := false, rxDropped := 1, deauthEvtCleared := deauthEvtCleared }
  else if env.dropPointP4 then
    { status := .pending, ops := [.free r], pdesc := false, rxPackets := 1, deauthEvtCleared := deauthEvtCleared }
  else
    { status := status, ops := [.deliver r], pdesc := false, rxPackets := 1, deauthEvtCleared := deauthEvtCleared }

/-- What `moal_bridge_rx_fast` does with the detached skb, if there is a bridge. -/
def bridgeRxFast : Disposition :=
  match env.bridge with
  | some (cfg, al, br) => rxFastRef cfg al br b.frame
  | none => {}

def recvPacket : Outcome :=
  if !env.priv then { status := .success, pdesc := b.pdesc }
  else if b.pdesc then
    if b.tailroom - b.dataOffset < b.dataLen then { status := .failure, pdesc := b.pdesc, rxDropped := 1 }
    else if b.netMonitor then
      let o := recvPacketToMonIf env b
      { o with mbufallocDec := if o.status = .pending then 1 else 0 }
    else
      let x := bridgeRxFast env b
      if x.consumed then { status := .pending, ops := x.ops.map .bridge, pdesc := false, mbufallocDec := 1 }
      else
        let o := uploadFrame env b (some .given) .pending
        { o with ops := x.ops.map .bridge ++ o.ops, mbufallocDec := 1 }
  else if b.netMonitor then { status := .failure, pdesc := b.pdesc, rxDropped := 1 }
  else if !env.allocSkb then { status := .failure, pdesc := b.pdesc, rxDropped := 1 }
  else
    let o := uploadFrame env b none .success
    { o with ops := .alloc :: o.ops }

/-- What `wlan_process_rx_packet` and `wlan_process_uap_rx_packet` do with the buffer behind the call : `data_complete`
unless it is pending. -/
def complete (o : Outcome) : List SkbOp × ℕ :=
  if o.status = .pending then ([], 0)
  else if b.mallocBuf && !env.usb then ([], 0)
  else (if o.pdesc then [.free (some .given)] else [], 1)

end

/-! ## Truth about ownership -/

/-- A pending call has disposed of the skb, and counted down for an attached one; another call leaves an attached skb as it
was, to the completion, which frees it; and what the call allocated has ended. -/
structure Truthful (env : RecvEnv) (b : RecvBuf) : Prop where
  pending : (recvPacket env b).status = .pending → SkbOp.run (recvPacket env b).ops b.own = some [] ∧
    (b.pdesc = true → (recvPacket env b).mbufallocDec = 1)
  returned : (recvPacket env b).status ≠ .pending → b.pdesc = true →
    SkbOp.run (recvPacket env b).ops b.own = some b.own ∧ (recvPacket env b).pdesc = true ∧
      SkbOp.run ((recvPacket env b).ops ++ (complete env b (recvPacket env b)).1) b.own = some [] ∧
      (recvPacket env b).mbufallocDec + (complete env b (recvPacket env b)).2 = 1
  allocated : ∃ own, SkbOp.run (recvPacket env b).ops b.own = some own ∧ none ∉ own

/-- The call comes to look at the frame : an attached skb fits, is not for the monitor and is not taken by the bridge; or
one could be allocated. -/
def Uploads (env : RecvEnv) (b : RecvBuf) : Prop :=
  env.priv = true ∧ b.netMonitor = false ∧
    if b.pdesc = true then (b.dataLen : ℤ) ≤ b.tailroom - b.dataOffset ∧ (bridgeRxFast env b).consumed = false
    else env.allocSkb = true

/-- The station of an EasyMesh frame is not valid, or the filter refuses an attached skb. -/
def Refused (env : RecvEnv) (b : RecvBuf) : Prop :=
  meshRefuses env b = true ∨ (b.pdesc = true ∧ duplicate env b = false ∧ env.filterPacket b.frame = false)

section

variable {env : RecvEnv} {b : RecvBuf} {r : SkbRef} {status : Recv}

theorem SkbOp.run_append (pre ops : List SkbOp) (own : List SkbRef) :
    run (pre ++ ops) own = (run pre own).bind (run ops) := by
  rw [run, List.map_append, Custody.run_append]
  rfl

theorem SkbOp.run_end {op : SkbOp} {r : SkbRef} (h : op.event = .release r) (own : List SkbRef) :
    run [op] (r :: own) = some own := by
  rw [run, List.map_singleton, h, Custody.run_release]

/-- The bridge disposes of the skb exactly when it says so. -/
theorem bridgeRxFast_run : SkbOp.run ((bridgeRxFast env b).ops.map .bridge) [some .given] =
    some (if (bridgeRxFast env b).consumed then [] else [some .given]) := by
  have howns : RefOp.run (bridgeRxFast env b).ops [.given] =
      some (if (bridgeRxFast env b).consumed then [] else [.given]) := by
    unfold bridgeRxFast
    split
    · exact rxFastRef_sound.owns
    · rfl
  have hmap := Custody.run_map (Option.some_injective Ref) ((bridgeRxFast env b).ops.map RefOp.event) [.given]
  rw [RefOp.run] at howns
  rw [howns] at hmap
  rw [SkbOp.run, List.map_map]
  rw [List.map_map] at hmap
  refine hmap.trans ?_
  split_ifs <;> rfl

/-- A frame that the EasyMesh check does not refuse ends, and its status is kept unless the filter refuses it or all
frames are dropped. -/
theorem uploadFrame_ends (h : meshRefuses env b = false) :
    (∃ op : SkbOp, op.event = .release r ∧ (uploadFrame env b r status).ops = [op]) ∧
      ((uploadFrame env b r .pending).status = .pending ↔ duplicate env b = true ∨ env.filterPacket b.frame = true) := by
  unfold uploadFrame
  rw [if_neg (by simp [h])]
  by_cases hdup : duplicate env b = true
  · simp [hdup, h, SkbOp.event]
  · by_cases hfilter : env.filterPacket b.frame = true
    · by_cases hdrop : env.dropPointP4 = true
      · simp [hdup, hfilter, hdrop, h, SkbOp.event]
      · simp [hdup, hfilter, hdrop, h, SkbOp.event]
    · simp [hdup, hfilter, h, SkbOp.event]

/-- A call that neither touches an attached skb nor detaches it. -/
theorem Truthful.of_untouched (hops : (recvPacket env b).ops = []) (hstatus : (recvPacket env b).status ≠ .pending)
    (hpdesc : (recvPacket env b).pdesc = b.pdesc) (hdec : (recvPacket env b).mbufallocDec = 0) : Truthful env b where
  pending h := absurd h hstatus
  returned _ hp := by
    have hmalloc : b.mallocBuf = false := by
      by_contra hm
      simp [b.malloced (by simpa [RecvBuf.mallocBuf] using hm)] at hp
    rw [hops, hpdesc, hdec, hp, complete, if_neg hstatus, hpdesc, hp, RecvBuf.own, hp, hmalloc]
    exact ⟨rfl, rfl, rfl, rfl⟩
  allocated := by
    refine ⟨b.own, by rw [hops]; rfl, ?_⟩
    unfold RecvBuf.own
    split_ifs <;> simp

/-- An exit in front of everything. -/
theorem Truthful.of_exit {n : ℕ} (h : recvPacket env b = { status := status, pdesc := b.pdesc, rxDropped := n })
    (hstatus : status ≠ .pending) : Truthful env b :=
  .of_untouched (by rw [h]) (by rw [h]; exact hstatus) (by rw [h]) (by rw [h])

/-- The monitor interface takes the skb exactly when the call is pending. -/
theorem Truthful.of_netMonitor (hpriv : env.priv = true) (hp : b.pdesc = true)
    (hfit : (b.dataLen : ℤ) ≤ b.tailroom - b.dataOffset) (hmon : b.netMonitor = true) : Truthful env b := by
  have hown : b.own = [some .given] := by rw [RecvBuf.own, if_pos hp]
  have heq : recvPacket env b = { recvPacketToMonIf env b with
      mbufallocDec := if (recvPacketToMonIf env b).status = .pending then 1 else 0 } := by
    rw [recvPacket, if_neg (by simp [hpriv]), if_pos hp, if_neg (by omega), if_pos hmon]
  by_cases htaken : env.mon = true ∧ ¬(env.radiotapEnabled = true ∧ b.headroom + b.dataOffset < env.radiotapLen)
  · have hto : recvPacketToMonIf env b =
        { status := .pending, ops := [.deliver (some .given)], pdesc := b.pdesc } := by
      rw [recvPacketToMonIf, if_neg (by simp [hp]), if_pos htaken.1, if_neg (by simpa using htaken.2)]
    rw [hto] at heq
    have hrun : SkbOp.run (recvPacket env b).ops b.own = some [] := by
      rw [heq, hown]
      exact SkbOp.run_end rfl []
    exact ⟨fun _ => ⟨hrun, fun _ => by rw [heq]; rfl⟩, fun hne => absurd (by rw [heq]) hne, [], hrun, by simp⟩
  · have hto : (recvPacketToMonIf env b).ops = [] ∧ (recvPacketToMonIf env b).status ≠ .pending ∧
        (recvPacketToMonIf env b).pdesc = b.pdesc := by
      unfold recvPacketToMonIf
      by_cases hm : env.mon = true
      · have hroom : env.radiotapEnabled = true ∧ b.headroom + b.dataOffset < env.radiotapLen := by
          by_contra hroom
          exact htaken ⟨hm, hroom⟩
        simp [hp, hm, hroom]
      · simp [hp, hm]
    exact .of_untouched (by rw [heq]; exact hto.1) (by rw [heq]; exact hto.2.1) (by rw [heq]; exact hto.2.2)
      (by rw [heq]; exact if_neg hto.2.1)

/-- An attached skb that the bridge takes. -/
theorem Truthful.of_consumed (hpriv : env.priv = true) (hp : b.pdesc = true)
    (hfit : (b.dataLen : ℤ) ≤ b.tailroom - b.dataOffset) (hmon : b.netMonitor = false)
    (hc : (bridgeRxFast env b).consumed = true) : Truthful env b := by
  have heq : recvPacket env b =
      { status := .pending, ops := (bridgeRxFast env b).ops.map .bridge, pdesc := false, mbufallocDec := 1 } := by
    rw [recvPacket, if_neg (by simp [hpriv]), if_pos hp, if_neg (by omega), if_neg (by simp [hmon])]
    dsimp only
    rw [if_pos hc]
  have hrun : SkbOp.run (recvPacket env b).ops b.own = some [] := by
    have := @bridgeRxFast_run env b
    rw [heq, RecvBuf.own, if_pos hp]
    rwa [if_pos hc] at this
  exact ⟨fun _ => ⟨hrun, fun _ => by rw [heq]⟩, fun hne => absurd (by rw [heq]) hne, [], hrun, by simp⟩

/-- An attached skb that is looked at : the truth is told unless it is refused. -/
theorem truthful_attached (hpriv : env.priv = true) (hp : b.pdesc = true)
    (hfit : (b.dataLen : ℤ) ≤ b.tailroom - b.dataOffset) (hmon : b.netMonitor = false)
    (hc : (bridgeRxFast env b).consumed = false) : Truthful env b ↔ ¬Refused env b := by
  have hown : b.own = [some .given] := by rw [RecvBuf.own, if_pos hp]
  have heq : recvPacket env b = { uploadFrame env b (some .given) .pending with
      ops := (bridgeRxFast env b).ops.map .bridge ++ (uploadFrame env b (some .given) .pending).ops
      mbufallocDec := 1 } := by
    rw [recvPacket, if_neg (by simp [hpriv]), if_pos hp, if_neg (by omega), if_neg (by simp [hmon])]
    dsimp only
    rw [if_neg (by simp [hc])]
  have hbridge := @bridgeRxFast_run env b
  rw [hc, if_neg Bool.false_ne_true] at hbridge
  by_cases hmesh : meshRefuses env b = true
  · -- the skb is detached, and stays with nobody
    have hup : (uploadFrame env b (some .given) .pending).status = .failure ∧
        (uploadFrame env b (some .given) .pending).pdesc = false := by
      rw [uploadFrame, if_pos hmesh]
      exact ⟨rfl, rfl⟩
    refine iff_of_false (fun h => ?_) (fun h => h (.inl hmesh))
    have hpdesc := (h.returned (by rw [heq]; simp [hup.1]) hp).2.1
    rw [heq] at hpdesc
    simp [hup.2] at hpdesc
  · obtain ⟨⟨op, hop, hops⟩, hstatus⟩ :=
      @uploadFrame_ends env b (some .given) .pending (Bool.eq_false_iff.mpr hmesh)
    have hrun : SkbOp.run (recvPacket env b).ops b.own = some [] := by
      rw [heq, hown, SkbOp.run_append, hbridge, hops]
      exact SkbOp.run_end hop []
    by_cases hkept : duplicate env b = true ∨ env.filterPacket b.frame = true
    · have hpend : (recvPacket env b).status = .pending := by rw [heq]; exact hstatus.mpr hkept
      refine iff_of_true ⟨fun _ => ⟨hrun, fun _ => by rw [heq]⟩, fun hne => absurd hpend hne, [], hrun, by simp⟩ ?_
      rintro (h | ⟨-, hd, hf⟩)
      · exact hmesh h
      · simp [hd, hf] at hkept
    · -- the filter frees the skb, and the call fails
      have hfail : (recvPacket env b).status ≠ .pending := by rw [heq]; exact fun h => hkept (hstatus.mp h)
      simp only [not_or, Bool.not_eq_true] at hkept
      refine iff_of_false (fun h => ?_) fun h => h (.inr ⟨hp, hkept⟩)
      have hleft := (h.returned hfail hp).1
      rw [hrun, hown] at hleft
      simp at hleft

/-- An skb that the call has allocated ends, unless the EasyMesh check refuses the station. -/
theorem truthful_allocated (hpriv : env.priv = true) (hp : b.pdesc = false) (hmon : b.netMonitor = false)
    (halloc : env.allocSkb = true) : Truthful env b ↔ ¬Refused env b := by
  have hown : b.own = [] := by rw [RecvBuf.own, if_neg (by simp [hp])]
  have heq : recvPacket env b = { uploadFrame env b none .success with
      ops := .alloc :: (uploadFrame env b none .success).ops } := by
    rw [recvPacket, if_neg (by simp [hpriv]), if_neg (by simp [hp]), if_neg (by simp [hmon]), if_neg (by simp [halloc])]
  have hmake : SkbOp.run [.alloc] [] = some [none] := Custody.run_make (by simp)
  by_cases hmesh : meshRefuses env b = true
  · have hup : (uploadFrame env b none .success).ops = [] := by rw [uploadFrame, if_pos hmesh]
    refine iff_of_false (fun h => ?_) (fun h => h (.inl hmesh))
    obtain ⟨own, hrun, hnone⟩ := h.allocated
    rw [heq, hup, hown, hmake] at hrun
    exact hnone (Option.some.inj hrun ▸ List.mem_singleton_self _)
  · obtain ⟨⟨op, hop, hops⟩, -⟩ := @uploadFrame_ends env b none .success (Bool.eq_false_iff.mpr hmesh)
    have hrun : SkbOp.run (recvPacket env b).ops b.own = some [] := by
      rw [heq, hops, hown, ← List.singleton_append, SkbOp.run_append, hmake]
      exact SkbOp.run_end hop []
    refine iff_of_true ⟨fun _ => ⟨hrun, fun h => absurd h (by simp [hp])⟩, fun _ h => absurd h (by simp [hp]), [], hrun,
      by simp⟩ ?_
    rintro (h | ⟨h, -⟩)
    · exact hmesh h
    · simp [hp] at h

end

/-- **When an upload tells the truth** about the ownership of the skb. -/
theorem recvPacket_truthful_iff (env : RecvEnv) (b : RecvBuf) :
    Truthful env b ↔ ¬(Uploads env b ∧ Refused env b) := by
  by_cases hpriv : env.priv = true
  swap
  · have heq : recvPacket env b = { status := .success, pdesc := b.pdesc } := by
      rw [recvPacket, if_pos (by simpa using hpriv)]
    exact iff_of_true (.of_exit heq nofun) fun h => hpriv h.1.1
  cases hp : b.pdesc with
  | true =>
    by_cases hfit : (b.dataLen : ℤ) ≤ b.tailroom - b.dataOffset
    · cases hmon : b.netMonitor with
      | true => exact iff_of_true (.of_netMonitor hpriv hp hfit hmon) fun h => absurd h.1.2.1 (by simp [hmon])
      | false =>
        cases hc : (bridgeRxFast env b).consumed with
        | true => exact iff_of_true (.of_consumed hpriv hp hfit hmon hc) fun h => by simp [Uploads, hp, hc] at h
        | false =>
          have hup : Uploads env b := ⟨hpriv, hmon, by rw [if_pos hp]; exact ⟨hfit, hc⟩⟩
          rw [truthful_attached hpriv hp hfit hmon hc]
          simp [hup]
    · have heq : recvPacket env b = { status := .failure, pdesc := b.pdesc, rxDropped := 1 } := by
        rw [recvPacket, if_neg (by simp [hpriv]), if_pos hp, if_pos (by omega)]
      exact iff_of_true (.of_exit heq nofun) fun h => by simp [Uploads, hp, hfit] at h
  | false =>
    cases hmon : b.netMonitor with
    | true =>
      have heq : recvPacket env b = { status := .failure, pdesc := b.pdesc, rxDropped := 1 } := by
        rw [recvPacket, if_neg (by simp [hpriv]), if_neg (by simp [hp]), if_pos hmon]
      exact iff_of_true (.of_exit heq nofun) fun h => absurd h.1.2.1 (by simp [hmon])
    | false =>
      by_cases halloc : env.allocSkb = true
      · have hup : Uploads env b := ⟨hpriv, hmon, by rw [if_neg (by simp [hp])]; exact halloc⟩
        rw [truthful_allocated hpriv hp hmon halloc]
        simp [hup]
      · have heq : recvPacket env b = { status := .failure, pdesc := b.pdesc, rxDropped := 1 } := by
          rw [recvPacket, if_neg (by simp [hpriv]), if_neg (by simp [hp]), if_neg (by simp [hmon]),
            if_pos (by simpa using halloc)]
        exact iff_of_true (.of_exit heq nofun) fun h => by simp [Uploads, hp, halloc] at h

/-- An interface without a bridge, whose filter refuses everything and which knows no EasyMesh station. -/
def refusingEnv : RecvEnv where
  usb := false
  priv := true
  isValid _ := false
  use4addrStation := false
  transactionId _ := 0
  discovers := []
  arpRequestHash _ := 0
  hlist := []
  filterPacket _ := false
  bridge := none
  mon := false
  radiotapEnabled := false
  radiotapLen := 36
  allocSkb := true
  dropPointP4 := false

/-- An attached skb with 64 octets, of an EasyMesh station or not. -/
def attachedBuf (easymesh : Bool) : RecvBuf where
  pdesc := true
  flags := if easymesh then 2 ^ 16 else 0
  priority := 0x01000000
  dataOffset := 64
  dataLen := 64
  headroom := 128
  tailroom := 2048
  frame := ⟨⟨⟨2, 0, 0, 0, 0, 1⟩, ⟨2, 0, 0, 0, 0, 9⟩, ethPIp⟩, [], false, 192, 0, .host,
    ⟨1, ⟨2, 0, 0, 0, 0, 1⟩, true, true, true⟩⟩
  malloced := by cases easymesh <;> decide

/-- The frame of an EasyMesh station that is not valid : the call fails, and neither the call nor the completion frees the
skb. A frame that the filter refuses : the call fails, and has freed the skb. Both count down twice for it. -/
theorem recvPacket_untruthful :
    (¬Truthful refusingEnv (attachedBuf true) ∧
      SkbOp.run ((recvPacket refusingEnv (attachedBuf true)).ops ++
        (complete refusingEnv (attachedBuf true) (recvPacket refusingEnv (attachedBuf true))).1) [some .given] =
          some [some .given]) ∧
    (¬Truthful refusingEnv (attachedBuf false) ∧ (recvPacket refusingEnv (attachedBuf false)).status = .failure ∧
      SkbOp.run (recvPacket refusingEnv (attachedBuf false)).ops [some .given] = some []) ∧
    ∀ easymesh, (recvPacket refusingEnv (attachedBuf easymesh)).mbufallocDec +
      (complete refusingEnv (attachedBuf easymesh) (recvPacket refusingEnv (attachedBuf easymesh))).2 = 2 := by
  have hrefused : ∀ easymesh, Refused refusingEnv (attachedBuf easymesh) →
      ¬Truthful refusingEnv (attachedBuf easymesh) := by
    intro easymesh h
    have hiff : Truthful refusingEnv (attachedBuf easymesh) ↔ ¬Refused refusingEnv (attachedBuf easymesh) :=
      truthful_attached rfl rfl (by cases easymesh <;> decide) (by cases easymesh <;> decide) rfl
    exact fun ht => hiff.mp ht h
  exact ⟨⟨hrefused true (.inl (by decide)), by decide⟩,
    ⟨hrefused false (.inr ⟨rfl, by decide, rfl⟩), by decide, by decide⟩, by decide⟩

end WlanDriver.Upload
