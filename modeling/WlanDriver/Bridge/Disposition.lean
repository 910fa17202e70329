import WlanDriver.Bridge.Ingress
import WlanDriver.Lib.Custody

/-!
# What becomes of a frame's reference

The ingress paths, exit by exit, as operations on references : a frame may be freed, queued or handed to `netif_rx`,
a clone, a copy or a buffer with more headroom takes the place of another. `RefOp.run` executes such operations over the
references a call owns (`Custody.run`).

`Call.sound` : the operations of each call end with the reference it was given exactly if its verdict says so, and with
no other; the pointer of the `rx_handler` is nulled with it; and a frame accepted for forwarding is queued once, or
counted once. `Disposition.Agrees` connects the operations with the outcomes of the ingress model : the frame and its clone
end as they do there, under the same counters.
-/

namespace WlanDriver.Bridge

open WlanDriver.Ethernet

/-! ## References -/

/-- The references of one call : the one it was given, the result of `skb_clone`, `skb_copy` or `skb_share_check`, and
that of `skb_realloc_headroom`. -/
inductive Ref
  | given
  | second
  | moved
  deriving DecidableEq

/-- What a call does with a reference. -/
inductive RefOp
  | make (r : Ref)
  | free (r : Ref)
  | queue (d : Dir) (r : Ref)
  /-- `netif_rx`. -/
  | inject (r : Ref)
  deriving DecidableEq

/-- What that is for the owner of the reference. -/
def RefOp.event : RefOp → Custody.Event Ref
  | .make r => .make r
  | .free r | .queue _ r | .inject r => .release r

/-- The operations in order; `own` are the references the call has to dispose of. -/
def RefOp.run (ops : List RefOp) (own : List Ref) : Option (List Ref) :=
  Custody.run (ops.map RefOp.event) own

/-! ## Counters -/

/-- The counters of a direction that say what became of a frame. -/
inductive Counter
  | fwdPackets
  | errors
  | dropped
  | oomDrops
  deriving DecidableEq

/-- The counters a call moves. -/
inductive Stat
  | dir (d : Dir) (c : Counter)
  | hairpinTxFwd
  | hairpinArpTee
  | hairpinArpInject
  deriving DecidableEq

/-- How often a reference is queued on `d`. -/
def queuedOn (d : Dir) (ops : List RefOp) : ℕ :=
  ops.countP fun op => match op with
    | .queue e _ => e = d
    | _ => false

/-- How often a counter of `d` that says what became of a frame is moved. -/
def countedOn (d : Dir) (stats : List Stat) : ℕ :=
  stats.count (.dir d .fwdPackets) + stats.count (.dir d .errors) + stats.count (.dir d .dropped) +
    stats.count (.dir d .oomDrops)

/-- What a call does : operations and counters in order, whether the frame or a second reference to it was accepted for
forwarding, the verdict, whether `*pskb` is nulled, and whether the keepalive is kicked. -/
structure Disposition where
  ops : List RefOp := []
  stats : List Stat := []
  accepted : Bool := false
  consumed : Bool := false
  nulled : Bool := false
  kaKick : Bool := false

/-- The operations `pre`, and then those of `x`. -/
def Disposition.after (x : Disposition) (pre : List RefOp) : Disposition :=
  { x with ops := pre ++ x.ops }

/-! ## The egress -/

/-- `moal_bridge_ensure_headroom`. -/
def ensureHeadroomRef (al : Alloc) (skb : Skb) (r : Ref) : List RefOp × Option Ref :=
  if ethHlen ≤ skb.headroom then ([], some r)
  else if al.reallocHeadroom then ([.make .moved, .free r], some .moved)
  else ([.free r], none)

/-- Whether the function has the pointer of its caller, to null it. -/
def Producer.nulls : Producer → Bool
  | .peerRxHandler => true
  | .rxFast | .txHairpin | .peerPtFunc => false

/-- Reserve a slot for `r`, make room for the header where `p` does, and queue it. -/
def enqueueRef (p : Producer) (al : Alloc) (br : FwdBridge) (skb : Skb) (r : Ref) : List RefOp × List Stat :=
  if queueMax p.dir < br.qlen p.dir + 1 then ([.free r], [.dir p.dir .dropped])
  else if p.ensuresHeadroom then
    match ensureHeadroomRef al skb r with
    | (ops, some r') => (ops ++ [.queue p.dir r'], [])
    | (ops, none) => (ops, [.dir p.dir .oomDrops])
  else ([.queue p.dir r], [])

/-- Forward the frame itself. -/
def forwardOrigRef (p : Producer) (al : Alloc) (br : FwdBridge) (skb : Skb) (r : Ref) : Disposition :=
  if !devReady (br.egress p.dir) then
    { ops := [.free r], stats := [.dir p.dir .dropped], accepted := true, consumed := true, nulled := p.nulls }
  else
    let e := enqueueRef p al br skb r
    { ops := e.1, stats := e.2, accepted := true, consumed := true, nulled := p.nulls,
      kaKick := canEnqueue p al br skb }

/-- Forward a clone and leave the frame to the caller. -/
def forwardCloneRef (p : Producer) (al : Alloc) (br : FwdBridge) (skb : Skb) : Disposition :=
  if !devReady (br.egress p.dir) then { stats := [.dir p.dir .dropped], accepted := true }
  else if !al.clone then { stats := [.dir p.dir .oomDrops], accepted := true }
  else
    let e := enqueueRef p al br skb .second
    { ops := .make .second :: e.1, stats := e.2, accepted := true, kaKick := canEnqueue p al br skb }

/-! ## The functions -/

/-- `moal_bridge_rx_fast`. -/
def rxFastRef (cfg : Settings) (al : Alloc) (br : FwdBridge) (skb : Skb) : Disposition :=
  if !br.active then {}
  else if !br.mediaConnected then {}
  else
    match rxFastProto al skb with
    | none => {}
    | some (proto, l3Off) =>
      if proto == ethPPae then {}
      else if isLinkLocal skb.eth.dest then
        if cfg.consumeLinkLocal then
          { ops := [.free .given], stats := [.dir .w2p .dropped], consumed := true }
        else { stats := [.dir .w2p .dropped] }
      else if proto == ethPArp && arpIsForSelf al br skb l3Off then {}
      else if proto == ethPIp && !skb.eth.dest.isMulticast && ipPullable al br skb l3Off then
        if isBoxIp br (ipDaddr skb l3Off) then {}
        else if br.wlanIpv4 != 0 then forwardOrigRef .rxFast al br skb .given
        else forwardCloneRef .rxFast al br skb
      else forwardCloneRef .rxFast al br skb

/-- `is_broadcast_ether_addr`. -/
def isBroadcast (m : Mac) : Bool :=
  m == ⟨0xff, 0xff, 0xff, 0xff, 0xff, 0xff⟩

/-- `moal_bridge_tx_hairpin`; `copy` says whether `skb_copy` succeeds. -/
def txHairpinRef (al : Alloc) (copy : Bool) (br : FwdBridge) (skb : Skb) : Disposition :=
  if !pskbMayPull al skb ethHlen then {}
  else if !skb.eth.dest.isMulticast then
    if skb.eth.dest != br.wlanDev.devAddr then {}
    else if !devReady br.peerDev then
      { ops := [.free .given], stats := [.dir .w2p .dropped], accepted := true, consumed := true }
    else if queueMax .w2p < br.qlen .w2p + 1 then
      { ops := [.free .given], stats := [.dir .w2p .dropped], accepted := true, consumed := true }
    else { ops := [.queue .w2p .given], stats := [.hairpinTxFwd], accepted := true, consumed := true }
  else if skb.eth.proto == ethPArp && isBroadcast skb.eth.dest && devReady br.peerDev then
    if !copy then { stats := [.dir .w2p .oomDrops], accepted := true }
    else if queueMax .w2p < br.qlen .w2p + 1 then
      { ops := [.make .second, .free .second], stats := [.dir .w2p .dropped], accepted := true }
    else { ops := [.make .second, .queue .w2p .second], stats := [.hairpinArpTee], accepted := true }
  else {}

section Peer

variable (vlanGetProtocol : Skb → UInt16)

/-- `moal_bridge_peer_rx_handler`. -/
def peerRxHandlerRef (cfg : Settings) (al : Alloc) (br : FwdBridge) (skb : Skb) : Disposition :=
  if !br.active then {}
  else if vlanGetProtocol skb == ethPPae then {}
  else if isLinkLocal skb.eth.dest then { stats := [.dir .p2w .dropped] }
  else if !skb.eth.dest.isMulticast && skb.eth.dest == br.peerMac then {}
  else if selfArp vlanGetProtocol al br skb && arOp skb (peerL3Off skb) == arpopRequest then {}
  else if selfArp vlanGetProtocol al br skb && (cfg.localHairpin && skb.protocol == ethPArp &&
      arOp skb (peerL3Off skb) == arpopReply) then
    { ops := [.inject .given], stats := [.hairpinArpInject], consumed := true, nulled := true }
  else if selfIp vlanGetProtocol al br skb then {}
  else if !br.mediaConnected then {}
  else if !skb.eth.dest.isMulticast then forwardOrigRef .peerRxHandler al br skb .given
  else forwardCloneRef .peerRxHandler al br skb

/-- `skb_share_check` : a shared buffer is replaced by a clone, and released in any case. -/
def skbShareCheck (al : Alloc) (shared : Bool) : List RefOp × Option Ref :=
  if !shared then ([], some .given)
  else if al.shareCheck then ([.make .second, .free .given], some .second)
  else ([.free .given], none)

/-- `moal_bridge_peer_pt_func` from `skb_share_check` on, with the reference `r`. -/
def peerPtFuncUnshared (cfg : Settings) (al : Alloc) (br : FwdBridge) (skb : Skb) (r : Ref) : Disposition :=
  if skb.pktType != .otherhost && (selfArp vlanGetProtocol al br skb &&
      arOp skb (peerL3Off skb) == arpopRequest) then
    { ops := [.free r], consumed := true }
  else if cfg.localHairpin && skb.pktType == .otherhost && skb.protocol == ethPArp &&
      (arpIsForSelf al br skb 0 && arOp skb 0 == arpopReply) then
    { ops := [.inject r], stats := [.hairpinArpInject], consumed := true }
  else if !br.mediaConnected then { ops := [.free r], consumed := true }
  else forwardOrigRef .peerPtFunc al br skb r

/-- `moal_bridge_peer_pt_func`; the stack owns another reference where the buffer is `shared`. -/
def peerPtFuncRef (cfg : Settings) (al : Alloc) (shared : Bool) (br : FwdBridge) (skb : Skb) : Disposition :=
  if !br.active || skb.dev.ifindex != br.peerDev.ifindex then { ops := [.free .given], consumed := true }
  else if skb.protocol == ethPPae then { ops := [.free .given], consumed := true }
  else if !br.mediaConnected && vlanGetProtocol skb != ethPArp then { ops := [.free .given], consumed := true }
  else
    match skbShareCheck al shared with
    | (ops, none) => { ops := ops, stats := [.dir .p2w .oomDrops], accepted := true, consumed := true }
    | (ops, some r) => (peerPtFuncUnshared vlanGetProtocol cfg al br skb r).after ops

end Peer

/-! ## Each exit agrees on ownership and on the counter -/

/-- A call of a function that feeds `d` disposes of what it was given as its verdict says and of all it made; it nulls
the pointer of its caller, if it has that, exactly when it consumes; and an accepted frame is queued once or counted
once, on `d` and nowhere else. -/
structure Disposition.Sound (x : Disposition) (d : Dir) (nulls : Bool) : Prop where
  owns : RefOp.run x.ops [.given] = some (if x.consumed then [] else [.given])
  nulled : x.nulled = (nulls && x.consumed)
  once : x.accepted = true → queuedOn d x.ops + countedOn d x.stats = 1
  idle : x.accepted = false → queuedOn d x.ops = 0
  other : ∀ e, e ≠ d → queuedOn e x.ops = 0 ∧ countedOn e x.stats = 0

theorem RefOp.run_append (pre ops : List RefOp) (own : List Ref) :
    run (pre ++ ops) own = (run pre own).bind (run ops) := by
  rw [run, List.map_append, Custody.run_append]
  rfl

theorem RefOp.run_end {op : RefOp} {r : Ref} (h : op.event = .release r) (own : List Ref) :
    run [op] (r :: own) = some own := by
  rw [run, List.map_singleton, h, Custody.run_release]

theorem queuedOn_append (d : Dir) (pre ops : List RefOp) :
    queuedOn d (pre ++ ops) = queuedOn d pre + queuedOn d ops :=
  List.countP_append

theorem queuedOn_nil (d : Dir) : queuedOn d [] = 0 := rfl

theorem queuedOn_free (d : Dir) (r : Ref) : queuedOn d [.free r] = 0 := rfl

theorem queuedOn_queue (d e : Dir) (r : Ref) : queuedOn d [.queue e r] = if e = d then 1 else 0 := by
  by_cases h : e = d <;> simp [queuedOn, h]

theorem countedOn_dropped (d e : Dir) : countedOn d [.dir e .dropped] = if e = d then 1 else 0 := by
  by_cases h : e = d <;> simp [countedOn, h]

theorem countedOn_oomDrops (d e : Dir) : countedOn d [.dir e .oomDrops] = if e = d then 1 else 0 := by
  by_cases h : e = d <;> simp [countedOn, h]

theorem Disposition.Sound.ite {c : Prop} [Decidable c] {x y : Disposition} {d : Dir} {nulls : Bool}
    (hx : c → x.Sound d nulls) (hy : ¬c → y.Sound d nulls) : (if c then x else y).Sound d nulls := by
  split_ifs with h
  · exact hx h
  · exact hy h

section Egress

variable {p : Producer} {al : Alloc} {br : FwdBridge} {skb : Skb} {r : Ref} {rest : List Ref}

/-- What is handed to `moal_bridge_ensure_headroom` is given back, replaced, or gone. -/
theorem ensureHeadroomRef_spec (hm : Ref.moved ∉ r :: rest) (d : Dir) :
    RefOp.run (ensureHeadroomRef al skb r).1 (r :: rest) =
        some ((ensureHeadroomRef al skb r).2.toList ++ rest) ∧
      queuedOn d (ensureHeadroomRef al skb r).1 = 0 := by
  have hr : r ≠ .moved := fun h => hm (h ▸ List.mem_cons_self ..)
  have hrest : .moved ∉ rest := fun h => hm (List.mem_cons_of_mem _ h)
  unfold ensureHeadroomRef
  split_ifs
  · exact ⟨rfl, rfl⟩
  · refine ⟨?_, rfl⟩
    simp [RefOp.run, RefOp.event, Custody.run, Custody.exec, hrest, hr.symm]
  · exact ⟨RefOp.run_end rfl rest, rfl⟩

/-- The reference is disposed of, and queued once or counted once. -/
theorem enqueueRef_spec (hm : Ref.moved ∉ r :: rest) :
    RefOp.run (enqueueRef p al br skb r).1 (r :: rest) = some rest ∧
      ∀ d, queuedOn d (enqueueRef p al br skb r).1 + countedOn d (enqueueRef p al br skb r).2 =
        if p.dir = d then 1 else 0 := by
  have hhead := @ensureHeadroomRef_spec al skb r rest hm
  unfold enqueueRef
  split_ifs
  · exact ⟨RefOp.run_end rfl rest, fun d => by simp [queuedOn, countedOn_dropped]⟩
  · cases hops : ensureHeadroomRef al skb r with
    | mk ops res =>
      rw [hops] at hhead
      cases res with
      | none => exact ⟨(hhead p.dir).1, fun d => by rw [(hhead d).2, countedOn_oomDrops, Nat.zero_add]⟩
      | some r' =>
        refine ⟨?_, fun d => ?_⟩
        · rw [RefOp.run_append, (hhead p.dir).1]
          exact RefOp.run_end rfl rest
        · rw [queuedOn_append, (hhead d).2, queuedOn_queue, Nat.zero_add]
          rfl
  · exact ⟨RefOp.run_end rfl rest, fun d => by simp [countedOn, queuedOn_queue]⟩

/-- Forwarding the frame, as the reference `r` that took its place. -/
theorem forwardOrigRef_sound {pre : List RefOp} (hpre : RefOp.run pre [.given] = some [r]) (hr : r ≠ .moved)
    (hq : ∀ d, queuedOn d pre = 0) : ((forwardOrigRef p al br skb r).after pre).Sound p.dir p.nulls := by
  obtain ⟨hrun, honce⟩ := @enqueueRef_spec p al br skb r [] (by simpa using hr.symm)
  unfold forwardOrigRef
  split_ifs
  · exact {
      owns := by rw [Disposition.after, RefOp.run_append, hpre]; exact RefOp.run_end rfl []
      nulled := by simp [Disposition.after]
      once := fun _ => by simp [Disposition.after, queuedOn_append, hq, queuedOn_free, countedOn_dropped]
      idle := nofun
      other := fun e he => by simp [Disposition.after, queuedOn_append, hq, queuedOn_free, countedOn_dropped, he.symm] }
  · exact {
      owns := by rw [Disposition.after, RefOp.run_append, hpre]; exact hrun
      nulled := by simp [Disposition.after]
      once := fun _ => by simpa [Disposition.after, queuedOn_append, hq] using honce p.dir
      idle := nofun
      other := fun e he => by simpa [Disposition.after, queuedOn_append, hq, he.symm] using honce e }

theorem forwardCloneRef_sound {nulls : Bool} : (forwardCloneRef p al br skb).Sound p.dir nulls := by
  obtain ⟨hrun, honce⟩ := @enqueueRef_spec p al br skb .second [.given] (by decide)
  unfold forwardCloneRef
  split_ifs
  · exact {
      owns := rfl
      nulled := by simp
      once := fun _ => by simp [countedOn_dropped, queuedOn_nil]
      idle := nofun
      other := fun e he => by simp [countedOn_dropped, queuedOn_nil, he.symm] }
  · exact {
      owns := rfl
      nulled := by simp
      once := fun _ => by simp [countedOn_oomDrops, queuedOn_nil]
      idle := nofun
      other := fun e he => by simp [countedOn_oomDrops, queuedOn_nil, he.symm] }
  · have hmake : ∀ d, queuedOn d (.make .second :: (enqueueRef p al br skb .second).1) =
        queuedOn d (enqueueRef p al br skb .second).1 := fun d => by simp [queuedOn]
    exact {
      owns := hrun
      nulled := by simp
      once := fun _ => by simpa [hmake] using honce p.dir
      idle := nofun
      other := fun e he => by simpa [hmake, he.symm] using honce e }

end Egress

/-! ## Each call -/

namespace Disposition

variable {d : Dir} {nulls : Bool}

/-- The frame is left to the caller. -/
theorem sound_left : ({} : Disposition).Sound d nulls :=
  ⟨rfl, by simp, nofun, fun _ => rfl, fun _ _ => ⟨rfl, rfl⟩⟩

/-- The frame is left to the caller, and counted without having been accepted. -/
theorem sound_left_dropped : ({ stats := [.dir d .dropped] } : Disposition).Sound d nulls :=
  ⟨rfl, by simp, nofun, fun _ => rfl, fun e he => ⟨rfl, by simp [countedOn_dropped, he.symm]⟩⟩

/-- A reference that took the place of the one given is freed. -/
theorem sound_free {pre : List RefOp} {r : Ref} (hpre : RefOp.run pre [.given] = some [r])
    (hq : ∀ e, queuedOn e pre = 0) : (({ ops := [.free r], consumed := true } : Disposition).after pre).Sound d false where
  owns := by rw [after, RefOp.run_append, hpre]; exact RefOp.run_end rfl []
  nulled := rfl
  once := nofun
  idle _ := by simp [after, queuedOn_append, hq, queuedOn_free]
  other e _ := ⟨by simp [after, queuedOn_append, hq, queuedOn_free], rfl⟩

/-- A reference that took the place of the one given is handed to `netif_rx`. -/
theorem sound_inject {pre : List RefOp} {r : Ref} (hpre : RefOp.run pre [.given] = some [r])
    (hq : ∀ e, queuedOn e pre = 0) :
    (({ ops := [.inject r], stats := [.hairpinArpInject], consumed := true, nulled := nulls } : Disposition).after
      pre).Sound d nulls where
  owns := by rw [after, RefOp.run_append, hpre]; exact RefOp.run_end rfl []
  nulled := by simp [after]
  once := nofun
  idle _ := by rw [after, queuedOn_append, hq]; rfl
  other e _ := ⟨by rw [after, queuedOn_append, hq]; rfl, rfl⟩

end Disposition

open Disposition

section Calls

variable {vlanGetProtocol : Skb → UInt16} {cfg : Settings} {al : Alloc} {br : FwdBridge} {skb : Skb}

theorem rxFastRef_sound : (rxFastRef cfg al br skb).Sound .w2p false := by
  have horig : (forwardOrigRef .rxFast al br skb .given).Sound .w2p false :=
    @forwardOrigRef_sound .rxFast al br skb .given [] rfl (by decide) queuedOn_nil
  have hclone : (forwardCloneRef .rxFast al br skb).Sound .w2p false := forwardCloneRef_sound
  have hdropped : ({ ops := [.free .given], stats := [.dir .w2p .dropped], consumed := true } : Disposition).Sound .w2p
      false :=
    ⟨rfl, rfl, nofun, fun _ => rfl, fun e he => ⟨rfl, by simp [countedOn_dropped, he.symm]⟩⟩
  refine .ite (fun _ => sound_left) fun _ => .ite (fun _ => sound_left) fun _ => ?_
  cases rxFastProto al skb with
  | none => exact sound_left
  | some p =>
    refine .ite (fun _ => sound_left) fun _ => .ite (fun _ => .ite (fun _ => hdropped) fun _ => sound_left_dropped)
      fun _ => .ite (fun _ => sound_left) fun _ => .ite (fun _ => ?_) fun _ => hclone
    exact .ite (fun _ => sound_left) fun _ => .ite (fun _ => horig) fun _ => hclone

theorem txHairpinRef_sound {copy : Bool} : (txHairpinRef al copy br skb).Sound .w2p false := by
  have hdropped : ({ ops := [.free .given], stats := [.dir .w2p .dropped], accepted := true, consumed := true } :
      Disposition).Sound .w2p false :=
    ⟨rfl, rfl, fun _ => rfl, nofun, fun e he => ⟨rfl, by simp [countedOn_dropped, he.symm]⟩⟩
  refine .ite (fun _ => sound_left) fun _ => .ite (fun _ => ?_) fun _ => .ite (fun _ => ?_) fun _ => sound_left
  · refine .ite (fun _ => sound_left) fun _ => .ite (fun _ => hdropped) fun _ => .ite (fun _ => hdropped) fun _ => ?_
    exact ⟨rfl, rfl, fun _ => rfl, nofun, fun e he => ⟨by simp [queuedOn_queue, he.symm], rfl⟩⟩
  · refine .ite (fun _ => ?_) fun _ => .ite (fun _ => ?_) fun _ => ?_
    · exact ⟨rfl, rfl, fun _ => rfl, nofun, fun e he => ⟨rfl, by simp [countedOn_oomDrops, he.symm]⟩⟩
    · exact ⟨rfl, rfl, fun _ => rfl, nofun, fun e he => ⟨rfl, by simp [countedOn_dropped, he.symm]⟩⟩
    · exact ⟨rfl, rfl, fun _ => rfl, nofun, fun e he => ⟨by cases e <;> trivial, rfl⟩⟩

theorem peerRxHandlerRef_sound : (peerRxHandlerRef vlanGetProtocol cfg al br skb).Sound .p2w true := by
  have horig : (forwardOrigRef .peerRxHandler al br skb .given).Sound .p2w true :=
    @forwardOrigRef_sound .peerRxHandler al br skb .given [] rfl (by decide) queuedOn_nil
  have hclone : (forwardCloneRef .peerRxHandler al br skb).Sound .p2w true := forwardCloneRef_sound
  have hinject := @sound_inject .p2w true [] .given rfl queuedOn_nil
  refine .ite (fun _ => sound_left) fun _ => .ite (fun _ => sound_left) fun _ => .ite (fun _ => sound_left_dropped)
    fun _ => .ite (fun _ => sound_left) fun _ => .ite (fun _ => sound_left) fun _ => .ite (fun _ => hinject) fun _ => ?_
  exact .ite (fun _ => sound_left) fun _ => .ite (fun _ => sound_left) fun _ => .ite (fun _ => horig) fun _ => hclone

theorem peerPtFuncUnshared_sound {pre : List RefOp} {r : Ref} (hpre : RefOp.run pre [.given] = some [r])
    (hr : r ≠ .moved) (hq : ∀ d, queuedOn d pre = 0) :
    ((peerPtFuncUnshared vlanGetProtocol cfg al br skb r).after pre).Sound .p2w false := by
  unfold peerPtFuncUnshared
  split_ifs
  · exact sound_free hpre hq
  · exact sound_inject hpre hq
  · exact sound_free hpre hq
  · exact forwardOrigRef_sound hpre hr hq

theorem peerPtFuncRef_sound {shared : Bool} : (peerPtFuncRef vlanGetProtocol cfg al shared br skb).Sound .p2w false := by
  have hfree := @sound_free .p2w [] .given rfl queuedOn_nil
  refine .ite (fun _ => hfree) fun _ => .ite (fun _ => hfree) fun _ => .ite (fun _ => hfree) fun _ => ?_
  unfold skbShareCheck
  split_ifs
  · exact peerPtFuncUnshared_sound rfl (by decide) queuedOn_nil
  · exact peerPtFuncUnshared_sound rfl (by decide) fun _ => rfl
  · exact ⟨rfl, rfl, fun _ => rfl, nofun, fun e he => ⟨rfl, by simp [countedOn_oomDrops, he.symm]⟩⟩

end Calls

/-- A call of one of the four functions, with what it finds : the settings, the outcomes of the allocations, the bridge
at that moment, and the frame. -/
inductive Call
  | rxFast (cfg : Settings) (al : Alloc) (br : FwdBridge) (skb : Skb)
  | txHairpin (al : Alloc) (copy : Bool) (br : FwdBridge) (skb : Skb)
  | peerRxHandler (cfg : Settings) (al : Alloc) (br : FwdBridge) (skb : Skb)
  | peerPtFunc (cfg : Settings) (al : Alloc) (shared : Bool) (br : FwdBridge) (skb : Skb)

namespace Call

def producer : Call → Producer
  | rxFast .. => .rxFast
  | txHairpin .. => .txHairpin
  | peerRxHandler .. => .peerRxHandler
  | peerPtFunc .. => .peerPtFunc

def disposition (vlanGetProtocol : Skb → UInt16) : Call → Disposition
  | rxFast cfg al br skb => rxFastRef cfg al br skb
  | txHairpin al copy br skb => txHairpinRef al copy br skb
  | peerRxHandler cfg al br skb => peerRxHandlerRef vlanGetProtocol cfg al br skb
  | peerPtFunc cfg al shared br skb => peerPtFuncRef vlanGetProtocol cfg al shared br skb

/-- Every exit of the four functions. -/
theorem sound (vlanGetProtocol : Skb → UInt16) (c : Call) :
    (c.disposition vlanGetProtocol).Sound c.producer.dir c.producer.nulls := by
  cases c with
  | rxFast => exact rxFastRef_sound
  | txHairpin => exact txHairpinRef_sound
  | peerRxHandler => exact peerRxHandlerRef_sound
  | peerPtFunc => exact peerPtFuncRef_sound

end Call

/-! ## The outcomes of the ingress model -/

/-- What became of a reference in the end. -/
inductive End
  | left
  | queued (d : Dir)
  | freed
  | injected
  deriving DecidableEq

def Fate.toEnd : Fate → End
  | .left _ => .left
  | .queued d _ => .queued d
  | .freed => .freed
  | .injected _ => .injected

/-- What became of the buffer of a reference. A reference that is made directly before `r` is freed takes its place, as in
`skb_share_check` and behind `skb_realloc_headroom`. -/
def endOf : Ref → List RefOp → End
  | _, [] => .left
  | r, .make r' :: .free x :: ops => if x = r ∧ r' ≠ r then endOf r' ops else endOf r (.free x :: ops)
  | r, .free x :: ops => if x = r then .freed else endOf r ops
  | r, .queue d x :: ops => if x = r then .queued d else endOf r ops
  | r, .inject x :: ops => if x = r then .injected else endOf r ops
  | r, .make _ :: ops => endOf r ops

/-- What became of a clone, which is made first of all and does not take the place of the frame. -/
def cloneEnd : List RefOp → Option End
  | .make .second :: .free .given :: _ => none
  | .make .second :: ops => some (endOf .second ops)
  | _ => none

/-- The operations and counters of `x` are those of the outcome `o` of a call that feeds `d` : the frame and its clone end as
they do in `o`, and the pointer of the caller is nulled, if the function has it, where the frame is consumed. -/
structure Disposition.Agrees (x : Disposition) (o : Outcome) (d : Dir) (nulls : Bool) : Prop where
  orig : endOf .given x.ops = o.orig.toEnd
  clone : cloneEnd x.ops = o.clone.map Fate.toEnd
  consumed : x.consumed = o.consumed
  nulled : x.nulled = (nulls && o.consumed)
  dropped : x.stats.count (.dir d .dropped) = o.dropped
  oomDrops : x.stats.count (.dir d .oomDrops) = o.oomDrops
  inject : x.stats.count .hairpinArpInject = o.hairpinArpInject
  kaKick : x.kaKick = o.kaKick
  forwards : 0 < queuedOn d x.ops ↔ o.Forwards d

theorem Disposition.Agrees.ite {c : Prop} [Decidable c] {x y : Disposition} {o o' : Outcome} {d : Dir} {nulls : Bool}
    (hx : c → x.Agrees o d nulls) (hy : ¬c → y.Agrees o' d nulls) :
    (if c then x else y).Agrees (if c then o else o') d nulls := by
  split_ifs with h
  · exact hx h
  · exact hy h

/-- The reference `r` takes the place of the one given. -/
structure Carries (pre : List RefOp) (r : Ref) : Prop where
  ne_moved : r ≠ .moved
  queued : ∀ d, queuedOn d pre = 0
  orig : ∀ ops, endOf .given (pre ++ ops) = endOf r ops
  clone : ∀ ops, cloneEnd ops = none → cloneEnd (pre ++ ops) = none

theorem carries_given : Carries [] .given :=
  ⟨by decide, queuedOn_nil, fun _ => rfl, fun _ h => h⟩

/-- `skb_share_check` of a buffer that is shared. -/
theorem carries_second : Carries [.make .second, .free .given] .second :=
  ⟨by decide, fun _ => rfl, fun _ => rfl, fun _ _ => rfl⟩

section Agree

variable {p : Producer} {al : Alloc} {br : FwdBridge} {skb : Skb} {r : Ref}

theorem ensureHeadroomRef_isSome : (ensureHeadroomRef al skb r).2.isSome = ensureHeadroom al skb := by
  unfold ensureHeadroomRef ensureHeadroom
  split_ifs with h h'
  · simp [h]
  · simp [h']
  · simp [h, h']

/-- A buffer that is queued ends as the frame does, a clone is not made, and a frame that is not queued is left. -/
theorem enqueueRef_end (hr : r ≠ .moved) :
    endOf r (enqueueRef p al br skb r).1 = (enqueue p al br skb).1.toEnd ∧
      cloneEnd (enqueueRef p al br skb r).1 = none ∧
      (r = .second → cloneEnd (.make .second :: (enqueueRef p al br skb r).1) = some (enqueue p al br skb).1.toEnd ∧
        endOf .given (.make .second :: (enqueueRef p al br skb r).1) = .left) := by
  unfold enqueueRef enqueue
  by_cases hfull : queueMax p.dir < br.qlen p.dir + 1
  · rw [if_pos hfull, if_pos hfull]
    cases r <;> simp_all [endOf, cloneEnd, Fate.toEnd]
  · rw [if_neg hfull, if_neg hfull]
    cases p.ensuresHeadroom with
    | false => cases r <;> simp_all [endOf, cloneEnd, Fate.toEnd]
    | true =>
      unfold ensureHeadroomRef ensureHeadroom
      by_cases hh : ethHlen ≤ skb.headroom
      · cases r <;> simp_all [endOf, cloneEnd, Fate.toEnd]
      · rw [if_neg hh, decide_eq_false hh]
        cases al.reallocHeadroom <;> cases r <;> simp_all [endOf, cloneEnd, Fate.toEnd]

theorem enqueueRef_agrees (hr : r ≠ .moved) :
    (enqueueRef p al br skb r).2.count (.dir p.dir .dropped) = (enqueue p al br skb).2.1 ∧
      (enqueueRef p al br skb r).2.count (.dir p.dir .oomDrops) = (enqueue p al br skb).2.2 ∧
      (enqueueRef p al br skb r).2.count .hairpinArpInject = 0 ∧
      (0 < queuedOn p.dir (enqueueRef p al br skb r).1 ↔ canEnqueue p al br skb = true) := by
  have hq := fun d => (@ensureHeadroomRef_spec al skb r [] (by simpa using hr.symm) d).2
  have hsome := @ensureHeadroomRef_isSome al skb r
  unfold enqueueRef enqueue canEnqueue
  by_cases hfull : queueMax p.dir < br.qlen p.dir + 1
  · rw [if_pos hfull, if_pos hfull, decide_eq_false (not_le.mpr hfull)]
    simp [queuedOn_free]
  · rw [if_neg hfull, if_neg hfull]
    cases hp : p.ensuresHeadroom with
    | false => simp [queuedOn_queue, not_lt.mp hfull]
    | true =>
      cases hops : ensureHeadroomRef al skb r with
      | mk ops res =>
        rw [hops] at hsome hq
        cases res with
        | none => simp [← hsome, hq]
        | some r' => simp [← hsome, hq, queuedOn_append, queuedOn_queue, not_lt.mp hfull]

theorem forwardOrigRef_agrees {pre : List RefOp} (hpre : Carries pre r) :
    ((forwardOrigRef p al br skb r).after pre).Agrees (forwardOrig p al br skb) p.dir p.nulls := by
  obtain ⟨hr, hq, horig, hclone⟩ := hpre
  obtain ⟨hdrop, hoom, hinj, hqueued⟩ := @enqueueRef_agrees p al br skb r hr
  obtain ⟨hend, hnone, -⟩ := @enqueueRef_end p al br skb r hr
  have hfwd := @forwardOrig_forwards_iff p al br skb
  unfold Egress at hfwd
  unfold forwardOrigRef forwardOrig at *
  by_cases h : devReady (br.egress p.dir) = true
  · simp only [h, Bool.not_true, Bool.false_eq_true, if_false, true_and] at hfwd ⊢
    exact {
      orig := (horig _).trans hend
      clone := hclone _ hnone
      consumed := rfl
      nulled := by simp [Disposition.after]
      dropped := hdrop
      oomDrops := hoom
      inject := hinj
      kaKick := rfl
      forwards := by rw [hfwd, ← hqueued]; simp [Disposition.after, queuedOn_append, hq] }
  · simp only [h, Bool.not_false, if_true] at hfwd ⊢
    exact {
      orig := (horig _).trans (if_pos rfl)
      clone := hclone _ rfl
      consumed := rfl
      nulled := by simp [Disposition.after]
      dropped := by simp [Disposition.after]
      oomDrops := by simp [Disposition.after]
      inject := by simp [Disposition.after]
      kaKick := rfl
      forwards := by simp [Disposition.after, queuedOn_append, hq, queuedOn_free, hfwd] }

theorem forwardCloneRef_agrees {nulls : Bool} :
    (forwardCloneRef p al br skb).Agrees (forwardClone p al br skb) p.dir nulls := by
  obtain ⟨hdrop, hoom, hinj, hqueued⟩ := @enqueueRef_agrees p al br skb .second (by decide)
  obtain ⟨hclone, horig⟩ := (@enqueueRef_end p al br skb .second (by decide)).2.2 rfl
  have hfwd := @forwardClone_forwards_iff p al br skb
  have hmake : queuedOn p.dir (.make .second :: (enqueueRef p al br skb .second).1) =
      queuedOn p.dir (enqueueRef p al br skb .second).1 := by simp [queuedOn]
  unfold Egress at hfwd
  unfold forwardCloneRef forwardClone at *
  by_cases h : devReady (br.egress p.dir) = true
  · by_cases hc : al.clone = true
    · simp only [h, hc, Bool.not_true, Bool.false_eq_true, if_false, true_and, and_true] at hfwd ⊢
      exact {
        orig := horig
        clone := hclone
        consumed := rfl
        nulled := by simp
        dropped := hdrop
        oomDrops := hoom
        inject := hinj
        kaKick := rfl
        forwards := by rw [hfwd, ← hqueued, hmake] }
    · simp only [h, hc, Bool.not_true, Bool.not_false, Bool.false_eq_true, if_false, if_true, and_false,
        iff_false] at hfwd ⊢
      exact ⟨rfl, rfl, rfl, by simp, by simp, by simp, by simp, rfl, by simp [queuedOn_nil, hfwd]⟩
  · simp only [h, Bool.not_false, if_true] at hfwd ⊢
    exact ⟨rfl, rfl, rfl, by simp, by simp, by simp, by simp, rfl, by simp [queuedOn_nil, hfwd]⟩

section Exits

variable {d : Dir} {nulls : Bool} {f : Skb}

theorem agrees_left : ({} : Disposition).Agrees { orig := .left f, consumed := false } d nulls :=
  ⟨rfl, rfl, rfl, by simp, rfl, rfl, rfl, rfl, by simp [queuedOn_nil, forwards_of_no_clone]⟩

theorem agrees_left_dropped : ({ stats := [.dir d .dropped] } : Disposition).Agrees
    { orig := .left skb, dropped := 1, consumed := false } d nulls :=
  ⟨rfl, rfl, rfl, by simp, by simp, by simp, by simp, rfl, by simp [queuedOn_nil, forwards_of_no_clone]⟩

theorem agrees_free {pre : List RefOp} (hpre : Carries pre r) :
    (({ ops := [.free r], consumed := true } : Disposition).after pre).Agrees { orig := .freed, consumed := true } d
      false :=
  ⟨(hpre.orig _).trans (if_pos rfl), hpre.clone _ rfl, rfl, rfl, rfl, rfl, rfl, rfl,
    by simp [Disposition.after, queuedOn_append, hpre.queued, queuedOn_free, forwards_of_no_clone]⟩

theorem agrees_inject {pre : List RefOp} (hpre : Carries pre r) :
    (({ ops := [.inject r], stats := [.hairpinArpInject], consumed := true, nulled := nulls } : Disposition).after
      pre).Agrees { orig := .injected skb, hairpinArpInject := 1, consumed := true } d nulls := by
  have hinj : queuedOn d [.inject r] = 0 := rfl
  exact ⟨(hpre.orig _).trans (if_pos rfl), hpre.clone _ rfl, rfl, by simp [Disposition.after], rfl, rfl, rfl, rfl,
    by simp [Disposition.after, queuedOn_append, hpre.queued, hinj, forwards_of_no_clone]⟩

end Exits

variable {vlanGetProtocol : Skb → UInt16} {cfg : Settings}

theorem rxFastRef_agrees : (rxFastRef cfg al br skb).Agrees (rxFast cfg al br skb) .w2p false := by
  have horig : (forwardOrigRef .rxFast al br skb .given).Agrees (forwardOrig .rxFast al br skb) .w2p false :=
    forwardOrigRef_agrees carries_given
  have hclone : (forwardCloneRef .rxFast al br skb).Agrees (forwardClone .rxFast al br skb) .w2p false :=
    forwardCloneRef_agrees
  have hdropped : ({ ops := [.free .given], stats := [.dir .w2p .dropped], consumed := true } : Disposition).Agrees
      { orig := .freed, dropped := 1, consumed := true } .w2p false :=
    ⟨rfl, rfl, rfl, rfl, rfl, rfl, rfl, rfl, by simp [queuedOn_free, forwards_of_no_clone]⟩
  unfold rxFastRef rxFast
  refine .ite (fun _ => agrees_left) fun _ => .ite (fun _ => agrees_left) fun _ => ?_
  cases rxFastProto al skb with
  | none => exact agrees_left
  | some p =>
    refine .ite (fun _ => agrees_left) fun _ => .ite (fun _ => .ite (fun _ => hdropped) fun _ => agrees_left_dropped)
      fun _ => .ite (fun _ => agrees_left) fun _ => .ite (fun _ => ?_) fun _ => hclone
    exact .ite (fun _ => agrees_left) fun _ => .ite (fun _ => horig) fun _ => hclone

theorem peerRxHandlerRef_agrees : (peerRxHandlerRef vlanGetProtocol cfg al br skb).Agrees
    (peerRxHandler vlanGetProtocol cfg al br skb) .p2w true := by
  have horig : (forwardOrigRef .peerRxHandler al br skb .given).Agrees (forwardOrig .peerRxHandler al br skb) .p2w
      true := forwardOrigRef_agrees carries_given
  have hclone : (forwardCloneRef .peerRxHandler al br skb).Agrees (forwardClone .peerRxHandler al br skb) .p2w true :=
    forwardCloneRef_agrees
  have hinject := @agrees_inject { skb with dev := br.wlanDev, pktType := .host } .given .p2w true [] carries_given
  unfold peerRxHandlerRef peerRxHandler
  refine .ite (fun _ => agrees_left) fun _ => .ite (fun _ => agrees_left) fun _ => .ite (fun _ => agrees_left_dropped)
    fun _ => .ite (fun _ => agrees_left) fun _ => .ite (fun _ => agrees_left) fun _ => .ite (fun _ => hinject)
    fun _ => ?_
  exact .ite (fun _ => agrees_left) fun _ => .ite (fun _ => agrees_left) fun _ => .ite (fun _ => horig) fun _ => hclone

/-- The reference of the `packet_type` function is always consumed. -/
theorem peerPtFunc_consumed : (peerPtFunc vlanGetProtocol cfg al br skb).consumed = true := by
  have horig : (forwardOrig .peerPtFunc al br skb).consumed = true := by
    unfold forwardOrig
    split_ifs <;> rfl
  unfold peerPtFunc
  split_ifs
  all_goals first | rfl | exact horig

/-- A buffer that is not shared needs no clone. -/
theorem peerPtFuncRef_agrees {shared : Bool} : (peerPtFuncRef vlanGetProtocol cfg al shared br skb).Agrees
    (peerPtFunc vlanGetProtocol cfg { al with shareCheck := !shared || al.shareCheck } br skb) .p2w false := by
  have hfree := @agrees_free .given .p2w [] carries_given
  -- Behind the check the function works on with the reference it has got.
  have hrest : ∀ pre r, Carries pre r → (!shared || al.shareCheck) = true →
      ((peerPtFuncUnshared vlanGetProtocol cfg al br skb r).after pre).Agrees
        (if !(!shared || al.shareCheck) then { orig := .freed, oomDrops := 1, consumed := true }
        else if skb.pktType != .otherhost && (selfArp vlanGetProtocol al br skb &&
            arOp skb (peerL3Off skb) == arpopRequest) then { orig := .freed, consumed := true }
        else if cfg.localHairpin && skb.pktType == .otherhost && skb.protocol == ethPArp &&
            (arpIsForSelf al br skb 0 && arOp skb 0 == arpopReply) then
          { orig := .injected { skb with dev := br.wlanDev, pktType := .host }, hairpinArpInject := 1, consumed := true }
        else if !br.mediaConnected then { orig := .freed, consumed := true }
        else forwardOrig .peerPtFunc al br skb) .p2w false := by
    intro pre r hpre hshare
    rw [if_neg (by simp [hshare])]
    unfold peerPtFuncUnshared
    split_ifs
    · exact agrees_free hpre
    · exact agrees_inject hpre
    · exact agrees_free hpre
    · exact forwardOrigRef_agrees hpre
  unfold peerPtFuncRef peerPtFunc
  refine .ite (fun _ => hfree) fun _ => .ite (fun _ => hfree) fun _ => .ite (fun _ => hfree) fun _ => ?_
  by_cases hs : shared = true
  · by_cases ha : al.shareCheck = true
    · have hcheck : skbShareCheck al shared = ([.make .second, .free .given], some .second) := by
        simp [skbShareCheck, hs, ha]
      rw [hcheck]
      exact hrest _ _ carries_second (by simp [ha])
    · have hcheck : skbShareCheck al shared = ([.free .given], none) := by simp [skbShareCheck, hs, ha]
      rw [hcheck, if_pos (by simp [hs, ha])]
      exact ⟨rfl, rfl, rfl, rfl, rfl, rfl, rfl, rfl, by simp [queuedOn_free, forwards_of_no_clone]⟩
  · have hcheck : skbShareCheck al shared = ([], some .given) := by simp [skbShareCheck, hs]
    rw [hcheck]
    exact hrest _ _ carries_given (by simp [hs])

end Agree

end WlanDriver.Bridge
