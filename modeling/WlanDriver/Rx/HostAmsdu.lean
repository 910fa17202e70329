import WlanDriver.Rx.Upload
import WlanDriver.Aggr.Malformed

/-!
# Aggregates on the host

`moal_recv_amsdu_packet` takes an aggregate apart in the skb it came in : each frame is a clone that shares the octets,
the last one is the skb itself. `hostTouches` is its loop, with what it reads and writes; `recvAmsduPacket` the whole
function, with what becomes of the skb and of the clones.

The clones end in any case, and the skb exactly if it was the last frame (`hostTouches_ends`); what was handed
on is not written again (`hostTouches_spare`); and nothing outside of the skb is touched exactly if each
subframe that is looked at `Fits` (`hostTouches_inside_iff`).
-/

namespace WlanDriver.Upload

open Ethernet Rx Bridge Aggr List

/-! ## The loop -/

/-- A 16-bit number as the host stores it, least significant octet first. -/
def le16 (n : ℕ) : List UInt8 :=
  [UInt8.ofNat n, UInt8.ofNat (n / 256)]

/-- What the loop does with the octets of the skb. A frame is the clone of subframe `i`, or the skb itself if it is the
`last`; `mlan_process_deaggr_pkt` finds `ethType` in it. -/
inductive HostTouch
  | read (r : Span)
  | write (r : Span)
  | emit (i : ℕ) (last : Bool) (r : Span) (ethType : ℕ) (frame : List UInt8)

namespace HostTouch

def span : HostTouch → Span
  | .read r | .write r | .emit _ _ r _ _ => r

def frame : HostTouch → Option (List UInt8)
  | .emit _ _ _ _ frame => some frame
  | _ => none

/-- The skb itself is handed on. -/
def isLast : HostTouch → Bool
  | .emit _ last _ _ _ => last
  | _ => false

end HostTouch

/-- The loop of `moal_recv_amsdu_packet`, with `left` octets of the skb from `data` on; `clone` says whether the clone
for subframe `i` succeeds. `(4 - subframe_len) & 0x3` is `padLen`. -/
def hostTouches (clone : ℕ → Bool) (i : ℕ) (m : Mem) (data left : ℕ) : List HostTouch :=
  let len := ntohs m (data + 12)
  .read ⟨data + 12, 2⟩ ::
    if left < len + 14 then []
    else
      let next := len + 14 + padLen (len + 14)
      let last := left ≤ next
      .read ⟨data, 12⟩ ::
        if ¬last ∧ ¬clone i then []
        else
          -- the skb itself is not trimmed
          let flen := if last then left - 14 else len
          let snap := m.read (data + 14) 6 = rfc1042EthHdr
          -- a frame shorter than the LLC/SNAP header is not pulled
          let start := if snap then if 6 ≤ flen then data + 8 else data + 2 else data
          let size := data + 14 + flen - start
          let header := if snap then m.read data 12 else m.read data 12 ++ le16 len
          let m := m.write start header
          .read ⟨data + 14, 6⟩ :: .write ⟨start, header.length⟩ :: .read ⟨start + 12, 2⟩ ::
            .emit i last ⟨start, size⟩ (ntohs m (start + 12)) (m.read start size) ::
              if last then [] else hostTouches clone (i + 1) m (data + next) (left - next)
termination_by left
decreasing_by omega

/-! ## The function -/

/-- The skb (`none`) or the clone of a subframe, with what the bridge makes of it. -/
abbrev AmsduRef := Option ℕ × Ref

/-- What the call does with a reference. -/
inductive AmsduOp
  /-- `skb_clone`. -/
  | clone (i : ℕ)
  /-- `dev_kfree_skb`. -/
  | free (r : Option ℕ)
  /-- `netif_rx`, `netif_rx_ni` or `netif_receive_skb`. -/
  | deliver (r : Option ℕ)
  | bridge (r : Option ℕ) (op : RefOp)
  deriving DecidableEq

def AmsduOp.event : AmsduOp → Custody.Event AmsduRef
  | .clone i => .make (some i, .given)
  | .free r | .deliver r => .release (r, .given)
  | .bridge r op => op.event.map (Prod.mk r)

/-- The operations in order, over the references `own`. -/
def AmsduOp.run (ops : List AmsduOp) (own : List AmsduRef) : Option (List AmsduRef) :=
  Custody.run (ops.map AmsduOp.event) own

/-- What the call finds. `priv` : there is an interface; `isValid` : the stations of `vlan_sta_list`; `clone`
and `bridge`, if it is active, for each subframe. -/
structure AmsduEnv where
  priv : Bool
  isValid : ℤ → Bool
  dropPointP4 : Bool
  clone : ℕ → Bool
  ewpaEnabled : Bool
  bridge : ℕ → Option (Settings × Alloc × FwdBridge)
  netdev : EgressDev

/-- What a call did : its status, its operations, and its counters. -/
structure AmsduOutcome where
  status : Recv
  ops : List AmsduOp := []
  mbufallocDec : ℕ := 0
  rxDropped : ℕ := 0
  rxPackets : ℕ := 0

section

variable (env : AmsduEnv) (b : RecvBuf) (m : Mem) (data : ℕ)

/-- The frame at `r` as an skb. -/
def frameSkb (r : Span) (frame : List UInt8) : Skb :=
  { b.frame with
    eth := .ofOctets frame
    payload := frame.drop ethHlen
    pulled := false
    headroom := b.headroom + b.dataOffset + (r.start - data)
    dev := env.netdev }

/-- What `moal_bridge_rx_fast` does with the frame of subframe `i`. -/
def amsduRxFast (i : ℕ) (r : Span) (frame : List UInt8) : Disposition :=
  match env.bridge i with
  | some (cfg, al, br) => rxFastRef cfg al br (frameSkb env b data r frame)
  | none => {}

/-- A frame is dropped where `mlan_process_deaggr_pkt` has sent it to the firmware, is taken by the bridge, or
goes to the stack. -/
def dispose (i : ℕ) (ref : Option ℕ) (r : Span) (ethType : ℕ) (frame : List UInt8) : List AmsduOp :=
  if env.ewpaEnabled && ethType == ethPPae.toNat then [.free ref]
  else
    let x := amsduRxFast env b data i r frame
    x.ops.map (.bridge ref) ++ if x.consumed then [] else [.deliver ref]

def handOn : HostTouch → List AmsduOp
  | .emit i true r ethType frame => dispose env b data i none r ethType frame
  | .emit i false r ethType frame => .clone i :: dispose env b data i (some i) r ethType frame
  | .read _ | .write _ => []

/-- `moal_recv_amsdu_packet`, with the data of the skb at `data`. -/
def recvAmsduPacket : AmsduOutcome :=
  if !env.priv then { status := .failure }
  else if b.easymesh && !env.isValid (((b.aid : ℤ) - 1).tmod maxStaCount) then { status := .failure, rxDropped := 1 }
  else if !b.pdesc then { status := .failure }
  else if b.tailroom - b.dataOffset < b.dataLen then { status := .failure }
  else if env.dropPointP4 then { status := .pending, ops := [.free none], mbufallocDec := 1 }
  else
    let touches := hostTouches env.clone 0 m data b.dataLen
    let ops := touches.flatMap (handOn env b data)
    let rxPackets := ops.countP fun op => match op with
      | .deliver _ => true
      | _ => false
    if touches.any HostTouch.isLast then { status := .pending, ops := ops, mbufallocDec := 1, rxPackets := rxPackets }
    else { status := .failure, ops := ops, rxPackets := rxPackets }

end

/-! ## The headers that are looked at -/

/-- A subframe : where it starts, how many octets are left from there on, its length field, and whether the LLC/SNAP
header of RFC 1042 follows. -/
structure HostHeader where
  start : ℕ
  left : ℕ
  len : ℕ
  snap : Bool
  deriving DecidableEq

namespace HostHeader

variable (x : HostHeader)

/-- What the subframe takes with its pad. -/
def size : ℕ := x.len + 14 + padLen (x.len + 14)

/-- The payload that is handed on. -/
def frameLen : ℕ := if x.left ≤ x.size then x.left - 14 else x.len

/-- Where the frame starts. -/
def frameStart : ℕ :=
  if x.snap then if 6 ≤ x.frameLen then x.start + 8 else x.start + 2 else x.start

/-- The loop stays within the skb : it holds the header; and of a subframe that is accepted also the six octets that are
compared, and the type behind an LLC/SNAP header that is taken off. -/
structure Fits : Prop where
  header : 14 ≤ x.left
  compared : x.len + 14 ≤ x.left → 20 ≤ x.left
  typed : x.len + 14 ≤ x.left → x.snap = true → 6 ≤ x.frameLen → 22 ≤ x.left

/-- What is touched of the subframe. -/
def touches : List Span :=
  ⟨x.start + 12, 2⟩ ::
    if x.left < x.len + 14 then []
    else [⟨x.start, 12⟩, ⟨x.start + 14, 6⟩, ⟨x.frameStart, if x.snap then 12 else 14⟩, ⟨x.frameStart + 12, 2⟩,
      ⟨x.frameStart, x.start + 14 + x.frameLen - x.frameStart⟩]

end HostHeader

/-- The header at `data`. -/
def hostHeader (m : Mem) (data left : ℕ) : HostHeader :=
  ⟨data, left, ntohs m (data + 12), m.read (data + 14) 6 = rfc1042EthHdr⟩

/-- The headers that are looked at if all clones succeed. -/
def hostHeaders (m : Mem) (data left : ℕ) : List HostHeader :=
  let x := hostHeader m data left
  x :: if left ≤ x.size then [] else hostHeaders m (data + x.size) (left - x.size)
termination_by left
decreasing_by
  simp only [HostHeader.size] at *
  omega

/-! ## One round -/

variable {m m' : Mem} {data left i : ℕ} {clone : ℕ → Bool} {x : HostHeader}

namespace HostHeader

/-- The octets behind the header is put in front of the frame. -/
def edit (x : HostHeader) (m : Mem) : Mem :=
  m.write x.frameStart (if x.snap then m.read x.start 12 else m.read x.start 12 ++ le16 x.len)

/-- The frame ends with the subframe. -/
def frame (x : HostHeader) : Span :=
  ⟨x.frameStart, x.start + 14 + x.frameLen - x.frameStart⟩

theorem frameStart_cases (x : HostHeader) :
    x.snap = true ∧ (6 ≤ x.frameLen ∧ x.frameStart = x.start + 8 ∨ x.frameLen < 6 ∧ x.frameStart = x.start + 2) ∨
      x.snap = false ∧ x.frameStart = x.start := by
  unfold frameStart
  cases x.snap with
  | true =>
    by_cases hlen : 6 ≤ x.frameLen
    · simp [hlen]
    · simp [hlen, Nat.lt_of_not_le hlen]
  | false => simp

/-- Behind the frame everything is kept. -/
theorem edit_apply {y : ℕ} (hy : x.start + 14 + x.frameLen ≤ y) : x.edit m y = m y := by
  rw [edit, Mem.write_apply_of_not_mem (.inr ?_)]
  rcases x.frameStart_cases with ⟨hsnap, hstart⟩ | ⟨hsnap, hstart⟩
  · rw [hsnap, if_pos rfl, Mem.length_read]
    omega
  · rw [hsnap, if_neg Bool.false_ne_true, length_append, Mem.length_read, le16]
    simp only [length_cons, length_nil]
    omega

end HostHeader

/-- One round of the loop, where what is behind `data` is as at the start. -/
theorem hostTouches_step (hm : ∀ y, data ≤ y → m' y = m y) (hx : x = hostHeader m data left) :
    hostTouches clone i m' data left = .read ⟨x.start + 12, 2⟩ ::
      if x.left < x.len + 14 then []
      else .read ⟨x.start, 12⟩ ::
        if ¬x.left ≤ x.size ∧ ¬clone i then []
        else .read ⟨x.start + 14, 6⟩ :: .write ⟨x.frameStart, if x.snap then 12 else 14⟩ ::
          .read ⟨x.frameStart + 12, 2⟩ ::
            .emit i (x.left ≤ x.size) x.frame (ntohs (x.edit m') (x.frameStart + 12))
              ((x.edit m').read x.frame.start x.frame.len) ::
              if x.left ≤ x.size then []
              else hostTouches clone (i + 1) (x.edit m') (data + x.size) (left - x.size) := by
  have hlen : ntohs m' (data + 12) = ntohs m (data + 12) := by
    rw [ntohs, ntohs, hm _ (by omega), hm _ (by omega)]
  have hsnap : m'.read (data + 14) 6 = m.read (data + 14) 6 := Mem.read_congr fun j _ => hm _ (by omega)
  subst hx
  have hhdr : (if m.read (data + 14) 6 = rfc1042EthHdr then m'.read data 12
      else m'.read data 12 ++ le16 (ntohs m (data + 12))).length =
        if (hostHeader m data left).snap then 12 else 14 := by
    simp only [hostHeader, decide_eq_true_eq]
    split_ifs <;> simp [le16]
  rw [hostTouches]
  simp only [hlen, hsnap, hhdr]
  simp only [HostHeader.edit, HostHeader.frame, HostHeader.frameStart, HostHeader.frameLen, HostHeader.size, hostHeader,
    decide_eq_true_eq]
  rfl

/-- The next subframe is kept. -/
theorem edit_keeps (hm : ∀ y, data ≤ y → m' y = m y) (hx : x = hostHeader m data left) (hlast : ¬left ≤ x.size) :
    ∀ y, data + x.size ≤ y → x.edit m' y = m y := fun y hy => by
  have hstart : x.start = data := by rw [hx, hostHeader]
  have hlen : x.frameLen = x.len := by
    have hleft : x.left = left := by rw [hx, hostHeader]
    rw [HostHeader.frameLen, hleft, if_neg hlast]
  have hend : x.start + 14 + x.frameLen ≤ y := by
    rw [hlen, hstart]
    unfold HostHeader.size at hy
    omega
  rw [HostHeader.edit_apply hend, hm y (by omega)]

/-! ## What becomes of the skb and the clones -/

section

variable {env : AmsduEnv} {b : RecvBuf} {r : Span} {ethType : ℕ} {frame : List UInt8} {ref : Option ℕ}

/-- A frame ends. -/
theorem dispose_run : AmsduOp.run (dispose env b data i ref r ethType frame) [(ref, .given)] = some [] := by
  unfold dispose
  split_ifs with hdrop
  · exact Custody.run_release _ []
  dsimp only
  set x := amsduRxFast env b data i r frame with hx
  have howns : RefOp.run x.ops [.given] = some (if x.consumed then [] else [.given]) := by
    rw [hx, amsduRxFast]
    split
    · exact rxFastRef_sound.owns
    · rfl
  have hmap := Custody.run_map (Prod.mk_right_injective ref) (x.ops.map RefOp.event) [Ref.given]
  rw [RefOp.run] at howns
  rw [howns, map_map] at hmap
  rw [AmsduOp.run, map_append, map_map]
  cases hc : x.consumed with
  | true =>
    rw [hc, if_pos rfl] at hmap
    rw [if_pos rfl, map_nil, append_nil]
    exact hmap
  | false =>
    rw [hc, if_neg Bool.false_ne_true] at hmap
    rw [if_neg Bool.false_ne_true]
    exact Custody.run_trans hmap (Custody.run_release _ [])

/-- A clone is not made again by what becomes of a frame. -/
theorem dispose_make {s : AmsduRef} (h : .make s ∈ (dispose env b data i ref r ethType frame).map AmsduOp.event) :
    s.1 = ref := by
  unfold dispose at h
  split_ifs at h with hdrop
  · simp [AmsduOp.event] at h
  · obtain ⟨op, hop, heq⟩ := mem_map.mp h
    rcases mem_append.mp hop with hop | hop
    · obtain ⟨bop, -, rfl⟩ := mem_map.mp hop
      cases hev : bop.event with
      | make r =>
        rw [AmsduOp.event, hev] at heq
        cases heq
        rfl
      | release r =>
        rw [AmsduOp.event, hev] at heq
        cases heq
    · split_ifs at hop
      · exact absurd hop not_mem_nil
      · obtain rfl := mem_singleton.mp hop
        cases heq

/-- The clone of a frame ends with it, and only the last frame is the skb. -/
theorem handOn_run (t : HostTouch) :
    AmsduOp.run (handOn env b data t) [(none, .given)] = some (if t.isLast then [] else [(none, .given)]) := by
  cases t with
  | read r => rfl
  | write r => rfl
  | emit i last r ethType frame =>
    cases last with
    | true => exact dispose_run
    | false =>
      have hmake : Custody.run [.make ((some i, .given) : AmsduRef)] [(none, .given)] =
          some [(some i, .given), (none, .given)] := Custody.run_make (by simp)
      have hown : ∀ s ∈ [((none, .given) : AmsduRef)],
          .make s ∉ (dispose env b data i (some i) r ethType frame).map AmsduOp.event := fun s hs hmem => by
        have hsome := dispose_make hmem
        rw [mem_singleton.mp hs] at hsome
        cases hsome
      exact Custody.run_trans hmake (Custody.run_frame dispose_run hown)

/-- All clones end, and the skb exactly if it was the last frame. -/
def Ends (env : AmsduEnv) (b : RecvBuf) (data : ℕ) (l : List HostTouch) : Prop :=
  AmsduOp.run (l.flatMap (handOn env b data)) [(none, .given)] =
    some (if l.any HostTouch.isLast then [] else [(none, .given)])

theorem Ends.singleton (t : HostTouch) : Ends env b data [t] := by
  rw [Ends, flatMap_singleton, handOn_run, any_cons, any_nil, Bool.or_false]

theorem Ends.cons {t : HostTouch} {l : List HostTouch} (ht : t.isLast = false) (h : Ends env b data l) :
    Ends env b data (t :: l) := by
  have hone := @handOn_run data env b t
  rw [ht, if_neg Bool.false_ne_true] at hone
  rw [Ends, flatMap_cons, any_cons, ht, Bool.false_or, AmsduOp.run, map_append]
  exact Custody.run_trans hone h

theorem hostTouches_ends (i : ℕ) (m : Mem) (a left : ℕ) : Ends env b data (hostTouches clone i m a left) := by
  induction left using Nat.strong_induction_on generalizing i m a with
  | _ left ih =>
    rw [hostTouches_step (fun _ _ => rfl) rfl]
    set x := hostHeader m a left with hx
    by_cases hshort : x.left < x.len + 14
    · rw [if_pos hshort]
      exact .singleton _
    rw [if_neg hshort]
    refine .cons rfl ?_
    by_cases hclone : ¬x.left ≤ x.size ∧ ¬clone i
    · rw [if_pos hclone]
      exact .singleton _
    rw [if_neg hclone]
    refine .cons rfl (.cons rfl (.cons rfl (.cons rfl ?_)))
    by_cases hlast : x.left ≤ x.size
    · rw [if_pos hlast]
      exact .singleton _
    · rw [if_neg hlast]
      have hless : left - x.size < left := by
        have hleft : x.left = left := rfl
        unfold HostHeader.size at hlast ⊢
        omega
      exact .cons (decide_eq_false hlast) (ih _ hless _ _ _)

end

/-! ## Staying within the skb -/

/-- The loop touches what belongs to the headers, and all of it unless a clone fails. -/
theorem hostTouches_span (hm : ∀ y, data ≤ y → m' y = m y) :
    (hostTouches clone i m' data left).map HostTouch.span <+: (hostHeaders m data left).flatMap HostHeader.touches ∧
      ((∀ j, clone j = true) → (hostTouches clone i m' data left).map HostTouch.span =
        (hostHeaders m data left).flatMap HostHeader.touches) := by
  induction data, left using hostHeaders.induct m generalizing i m' with
  | case1 data left hdr =>
    rename_i ih
    rw [hostTouches_step hm rfl, hostHeaders]
    set x := hostHeader m data left with hx
    have hleft : x.left = left := rfl
    rw [flatMap_cons]
    by_cases hshort : x.left < x.len + 14
    · -- the loop ends with an error
      have hlast : left ≤ x.size := by
        unfold HostHeader.size
        omega
      have htouches : x.touches = [⟨x.start + 12, 2⟩] := by rw [HostHeader.touches, if_pos hshort]
      rw [if_pos hshort, if_pos hlast, htouches]
      exact ⟨prefix_rfl, fun _ => rfl⟩
    have htouches : x.touches = [⟨x.start + 12, 2⟩, ⟨x.start, 12⟩] ++ [⟨x.start + 14, 6⟩,
        ⟨x.frameStart, if x.snap then 12 else 14⟩, ⟨x.frameStart + 12, 2⟩, x.frame] := by
      rw [HostHeader.touches, if_neg hshort]
      rfl
    rw [if_neg hshort, htouches]
    by_cases hclone : ¬x.left ≤ x.size ∧ ¬clone i
    · rw [if_pos hclone]
      refine ⟨?_, fun hall => absurd (hall i) hclone.2⟩
      rw [append_assoc]
      exact prefix_append _ _
    rw [if_neg hclone]
    by_cases hlast : left ≤ x.size
    · rw [if_pos hlast, if_pos (c := x.left ≤ x.size) hlast, flatMap_nil, append_nil]
      exact ⟨prefix_rfl, fun _ => rfl⟩
    · rw [if_neg hlast, if_neg (c := x.left ≤ x.size) hlast]
      have hrest := ih hlast (i := i + 1) (edit_keeps hm hx hlast)
      refine ⟨?_, fun hall => ?_⟩
      · simpa only [map_cons, HostTouch.span, cons_append, nil_append, cons_prefix_cons,
          true_and] using hrest.1
      · simpa only [map_cons, HostTouch.span, cons_append, nil_append, List.cons.injEq,
          true_and] using hrest.2 hall

theorem hostHeaders_spec {base n : ℕ} (hbase : base ≤ data) (hend : data + left = base + n)
    (hx : x ∈ hostHeaders m data left) : base ≤ x.start ∧ x.start + x.left = base + n := by
  induction data, left using hostHeaders.induct m with
  | case1 data left hdr ih =>
    rw [hostHeaders] at hx
    rcases mem_cons.mp hx with rfl | hx
    · exact ⟨hbase, hend⟩
    · split_ifs at hx with hlast
      · exact absurd hx not_mem_nil
      · have hfits : (hostHeader m data left).size ≤ left := (Nat.lt_of_not_le hlast).le
        exact ih hlast (by omega) (by dsimp only [hdr]; omega) hx

/-- What is touched of a subframe lies in the skb exactly if the subframe fits. -/
theorem HostHeader.fits_iff {base n : ℕ} (hbase : base ≤ x.start) (hend : x.start + x.left = base + n) :
    (∀ r ∈ x.touches, r.Inside base n) ↔ x.Fits := by
  have hread : ∀ k l : ℕ, (⟨x.start + k, l⟩ : Span).Inside base n ↔ k + l ≤ x.left := fun k l => by
    unfold Span.Inside
    dsimp only
    omega
  unfold HostHeader.touches
  by_cases hshort : x.left < x.len + 14
  · rw [if_pos hshort]
    constructor
    · intro h
      exact ⟨(hread 12 2).mp (h _ mem_cons_self), fun hlen => absurd hlen (by omega),
        fun hlen => absurd hlen (by omega)⟩
    · intro h r hr
      obtain rfl := mem_singleton.mp hr
      exact (hread 12 2).mpr h.header
  · rw [if_neg hshort]
    have hlen : x.frameLen + 14 ≤ x.left := by
      unfold HostHeader.frameLen
      split_ifs <;> omega
    simp only [forall_mem_cons, not_mem_nil, false_imp_iff, implies_true, and_true]
    constructor
    · rintro ⟨hhdr, -, hcmp, -, htype, -⟩
      refine ⟨(hread 12 2).mp hhdr, fun _ => (hread 14 6).mp hcmp, fun _ hsnap hlong => ?_⟩
      have hstart : x.frameStart = x.start + 8 := by rw [HostHeader.frameStart, if_pos hsnap, if_pos hlong]
      rw [hstart, Nat.add_assoc] at htype
      exact (hread 20 2).mp htype
    · intro h
      have hcmp := h.compared (by omega)
      refine ⟨(hread 12 2).mpr h.header, (hread 0 12).mpr (by omega), (hread 14 6).mpr hcmp, ?_⟩
      unfold Span.Inside
      dsimp only
      rcases x.frameStart_cases with ⟨hsnap, ⟨hlong, hstart⟩ | ⟨hlong, hstart⟩⟩ | ⟨hsnap, hstart⟩
      · have htyped := h.typed (by omega) hsnap hlong
        rw [hsnap, if_pos rfl]
        omega
      · rw [hsnap, if_pos rfl]
        omega
      · rw [hsnap, if_neg Bool.false_ne_true]
        omega

/-- Only the headers decide whether the loop stays within the skb. -/
theorem hostTouches_inside_iff (m : Mem) (data n : ℕ) :
    (∀ clone, ∀ t ∈ hostTouches clone 0 m data n, t.span.Inside data n) ↔ ∀ x ∈ hostHeaders m data n, x.Fits := by
  have hkeep : ∀ y, data ≤ y → m y = m y := fun _ _ => rfl
  constructor
  · intro h x hx
    obtain ⟨hbase, hend⟩ := hostHeaders_spec le_rfl rfl hx
    refine (HostHeader.fits_iff hbase hend).mp fun r hr => ?_
    have hmem : r ∈ (hostTouches (fun _ => true) 0 m data n).map HostTouch.span := by
      rw [(hostTouches_span hkeep).2 fun _ => rfl]
      exact mem_flatMap.mpr ⟨x, hx, hr⟩
    obtain ⟨t, ht, rfl⟩ := mem_map.mp hmem
    exact h _ t ht
  · intro h clone t ht
    have hmem := (hostTouches_span hkeep).1.subset (mem_map_of_mem (f := HostTouch.span) ht)
    obtain ⟨x, hx, hr⟩ := mem_flatMap.mp hmem
    obtain ⟨hbase, hend⟩ := hostHeaders_spec le_rfl rfl hx
    exact (HostHeader.fits_iff hbase hend).mpr (h x hx) _ hr

/-! ## Shared octets -/

/-- What is handed on lies in front of what is written afterwards. -/
def HostTouch.Spares : HostTouch → HostTouch → Prop
  | .emit _ _ r _ _, .write w => r.start + r.len ≤ w.start
  | _, _ => True

/-- The clones share the octets of the skb, but what was handed on is not written again. -/
theorem hostTouches_spare (i : ℕ) (m : Mem) (a left : ℕ) : (hostTouches clone i m a left).Pairwise HostTouch.Spares ∧
    ∀ w, .write w ∈ hostTouches clone i m a left → a ≤ w.start := by
  induction left using Nat.strong_induction_on generalizing i m a with
  | _ left ih =>
    rw [hostTouches_step (fun _ _ => rfl) rfl]
    set x := hostHeader m a left with hx
    have hleft : x.left = left := rfl
    have hquiet : ∀ (r : Span) (l : List HostTouch), ∀ t ∈ l, (HostTouch.read r).Spares t := fun _ _ _ _ => trivial
    have hwrite : ∀ (r : Span) (l : List HostTouch), ∀ t ∈ l, (HostTouch.write r).Spares t := fun _ _ _ _ => trivial
    by_cases hshort : x.left < x.len + 14
    · rw [if_pos hshort]
      exact ⟨pairwise_singleton _ _, by simp⟩
    rw [if_neg hshort]
    by_cases hclone : ¬x.left ≤ x.size ∧ ¬clone i
    · rw [if_pos hclone]
      exact ⟨.cons (hquiet _ _) (pairwise_singleton _ _), by simp⟩
    rw [if_neg hclone]
    have hstart : a ≤ x.frameStart := by
      have hxstart : x.start = a := rfl
      rcases x.frameStart_cases with ⟨-, h⟩ | ⟨-, h⟩ <;> omega
    by_cases hlast : x.left ≤ x.size
    · rw [if_pos hlast]
      refine ⟨.cons (hquiet _ _) (.cons (hquiet _ _) (.cons (hquiet _ _) (.cons (hwrite _ _) (.cons (hquiet _ _)
        (pairwise_singleton _ _))))), ?_⟩
      simpa using hstart
    · rw [if_neg hlast]
      have hless : left - x.size < left := by
        unfold HostHeader.size at hlast ⊢
        omega
      obtain ⟨hrest, hbehind⟩ := ih _ hless (i + 1) (x.edit m) (a + x.size)
      have hend : x.frame.start + x.frame.len ≤ a + x.size := by
        have hflen : x.frameLen = x.len := by rw [HostHeader.frameLen, if_neg hlast]
        have hxstart : x.start = a := rfl
        dsimp only [HostHeader.frame]
        unfold HostHeader.size
        rcases x.frameStart_cases with ⟨-, h⟩ | ⟨-, h⟩ <;> omega
      refine ⟨.cons (hquiet _ _) (.cons (hquiet _ _) (.cons (hquiet _ _) (.cons (hwrite _ _) (.cons (hquiet _ _)
        (.cons (fun t ht => ?_) hrest))))), fun w hw => ?_⟩
      · cases t with
        | write w => exact hend.trans (hbehind w ht)
        | read r => trivial
        | emit => trivial
      · simp only [mem_cons, HostTouch.write.injEq, reduceCtorEq, false_or] at hw
        rcases hw with rfl | hw
        · exact hstart
        · exact (Nat.le_add_right _ _).trans (hbehind w hw)

end WlanDriver.Upload
