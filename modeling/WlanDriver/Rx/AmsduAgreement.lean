import WlanDriver.Rx.HostAmsdu

/-!
# Both paths of an aggregate

An aggregate goes to `wlan_11n_deaggregate_pkt` or to `moal_recv_amsdu_packet`, depending on whether one of its
subframes is to be forwarded.

`recvAmsduPacket_correct_iff` : both make the same frames of a well-formed aggregate exactly if each subframe has the
LLC/SNAP header of RFC 1042, or no payload, and no pad is behind the last one (`AgreesFrom`). What the host's path does
with the skb and its clones is part of it.
-/

namespace WlanDriver.Upload

open Ethernet Rx Bridge Aggr List

variable {m m' : Mem} {data left i : ℕ} {x : HostHeader}

/-! ## The frames of both loops -/

/-- The frames of `moal_recv_amsdu_packet`. -/
def hostFrames (clone : ℕ → Bool) (i : ℕ) (m : Mem) (data left : ℕ) : List (List UInt8) :=
  (hostTouches clone i m data left).filterMap HostTouch.frame

/-- The frame of one round in `deaggregateLoop`. -/
def mlanFrame (x : HostHeader) (m : Mem) : List UInt8 :=
  (if x.snap then m.memmove (x.start + 8) x.start 12 else m.write (x.start + 12) [0, 0]).read
    (if x.snap then x.start + 8 else x.start) (if x.snap then (x.len + 14 - 8) % 65536 else (x.len + 14) % 65536)

/-- Both loops make the same frame of the subframe : nothing is behind the payload, and the LLC/SNAP header of
RFC 1042 is taken off; without it the length field stays in front of the payload, or is zeroed. -/
structure HostHeader.Agrees (x : HostHeader) : Prop where
  trimmed : x.frameLen = x.len
  snap : x.snap = true → 6 ≤ x.len ∧ x.len < 65530
  other : x.snap = false → x.len = 0

theorem le16_eq_zero {n : ℕ} (hn : n < 65536) (h : le16 n = [0, 0]) : n = 0 := by
  simp only [le16, List.cons.injEq, and_true] at h
  obtain ⟨hlow, hhigh⟩ := h
  have hlow := congrArg UInt8.toNat hlow
  have hhigh := congrArg UInt8.toNat hhigh
  simp only [UInt8.toNat_ofNat', UInt8.toNat_ofNat] at hlow hhigh
  omega

theorem HostHeader.agrees_iff (x : HostHeader) : x.Agrees ↔
    x.frameLen = x.len ∧ if x.snap then 6 ≤ x.len ∧ x.len < 65530 else x.len = 0 := by
  constructor
  · intro h
    refine ⟨h.trimmed, ?_⟩
    split_ifs with hsnap
    · exact h.snap hsnap
    · exact h.other (by simpa using hsnap)
  · rintro ⟨htrim, h⟩
    exact ⟨htrim, fun hsnap => by rwa [if_pos hsnap] at h, fun hsnap => by rwa [if_neg (by simp [hsnap])] at h⟩

/-- One round of the loop that finds a subframe. -/
theorem hostFrames_step (hm : ∀ y, data ≤ y → m' y = m y) (hx : x = hostHeader m data left) (hfit : x.len + 14 ≤ left) :
    hostFrames (fun _ => true) i m' data left = (x.edit m').read x.frame.start x.frame.len ::
      if left ≤ x.size then []
      else hostFrames (fun _ => true) (i + 1) (x.edit m') (data + x.size) (left - x.size) := by
  have hleft : x.left = left := by rw [hx, hostHeader]
  rw [hostFrames, hostTouches_step hm hx, hleft, if_neg (by omega), if_neg (by simp)]
  split_ifs <;> rfl

variable {mk mm : Mem}

theorem frame_eq_iff (hm : ∀ y, x.start ≤ y → mk y = mm y) (hlen : x.len ≤ x.frameLen) (hmax : x.len < 65536) :
    (x.edit mk).read x.frame.start x.frame.len = mlanFrame x mm ↔ x.Agrees := by
  have hread : mk.read x.start 12 = mm.read x.start 12 := Mem.read_congr fun j _ => hm _ (by omega)
  have hsize : (x.edit mk).read x.frame.start x.frame.len = mlanFrame x mm →
      x.frame.len = if x.snap then (x.len + 14 - 8) % 65536 else (x.len + 14) % 65536 := fun h => by
    have := congrArg List.length h
    rwa [mlanFrame, Mem.length_read, Mem.length_read] at this
  rcases x.frameStart_cases with ⟨hsnap, hcases⟩ | ⟨hsnap, hstart⟩
  · rw [hsnap, if_pos rfl] at hsize
    constructor
    · intro h
      have := hsize h
      dsimp only [HostHeader.frame] at this
      exact ⟨by omega, fun _ => by omega, fun hno => absurd (hsnap.symm.trans hno) (by decide)⟩
    · intro h
      obtain ⟨hmin, hlong⟩ := h.snap hsnap
      have htrim := h.trimmed
      have hstart : x.frameStart = x.start + 8 := by omega
      have hend : x.start + 14 + x.frameLen - (x.start + 8) = (x.len + 14 - 8) % 65536 := by omega
      dsimp only [HostHeader.frame, mlanFrame, HostHeader.edit]
      rw [hsnap, if_pos rfl, if_pos rfl, if_pos rfl, if_pos rfl, hstart, hend, Mem.memmove, hread]
      exact Mem.read_congr fun j _ => Mem.write_congr hm (by omega)
  · rw [hsnap, if_neg Bool.false_ne_true] at hsize
    have hedit : x.edit mk = mk.write (x.start + 12) (le16 x.len) := by
      rw [HostHeader.edit, hsnap, if_neg Bool.false_ne_true, hstart, ← Mem.write_append mk (by rw [Mem.length_read]),
        Mem.write_read]
    have hmlan : mlanFrame x mm = (mm.write (x.start + 12) [0, 0]).read x.start ((x.len + 14) % 65536) := by
      rw [mlanFrame, hsnap]
      rfl
    have hframe : x.frame = ⟨x.start, x.frameLen + 14⟩ := by
      rw [HostHeader.frame, hstart]
      congr 1
      omega
    rw [hframe, hedit, hmlan] at hsize ⊢
    dsimp only at hsize ⊢
    constructor
    · intro h
      have hfit := hsize h
      have htrim : x.frameLen = x.len := by omega
      have hmod : (x.len + 14) % 65536 = x.len + 14 := by omega
      refine ⟨htrim, fun hyes => absurd (hsnap.symm.trans hyes) (by decide), fun _ => ?_⟩
      have hfield : le16 x.len = [0, 0] := by
        rw [htrim, hmod] at h
        have hpart := congrArg (fun l : List UInt8 => (l.drop 12).take 2) h
        have hoff : x.start + 12 - x.start = 12 := by omega
        have hk := @Mem.read_part (mk.write (x.start + 12) (le16 x.len)) x.start (x.start + 12) (x.len + 14) 2
          (by omega) (by omega)
        have hl := @Mem.read_part (mm.write (x.start + 12) [0, 0]) x.start (x.start + 12) (x.len + 14) 2
          (by omega) (by omega)
        rw [hoff] at hk hl
        rw [← hk, ← hl] at hpart
        have hw := Mem.read_write mk (x.start + 12) (le16 x.len)
        have hz := Mem.read_write mm (x.start + 12) [0, 0]
        exact hw.symm.trans (hpart.trans hz)
      exact le16_eq_zero hmax hfield
    · intro h
      have hzero := h.other hsnap
      have htrim := h.trimmed
      rw [htrim, hzero]
      exact Mem.read_congr fun j _ => Mem.write_congr hm (by omega)

/-- One round of `deaggregateLoop` that finds a subframe. -/
theorem deaggregateLoop_step (cfg : DeaggrCfg) (hm : ∀ y, data ≤ y → mm y = m y) (hx : x = hostHeader m data left)
    (hfit : x.len + 14 ≤ left) :
    ∃ m' next, ((deaggregateLoop cfg (fun _ => true) i mm data left).map Prod.snd = mlanFrame x mm ::
        (deaggregateLoop cfg (fun _ => true) (i + 1) m' next (left - x.size : ℤ)).map Prod.snd) ∧
      (x.Agrees → next = data + x.size ∧ ∀ y, next ≤ y → m' y = m y) := by
  have hlen : ntohs mm (data + 12) = ntohs m (data + 12) := by
    rw [ntohs, ntohs, hm _ (by omega), hm _ (by omega)]
  have hsnap : mm.read (data + 14) 6 = m.read (data + 14) 6 := Mem.read_congr fun j _ => hm _ (by omega)
  have hsize : x.len + padLen (x.len + 14) + 14 = x.size := by
    unfold HostHeader.size
    omega
  have hstart : x.start = data := by rw [hx, hostHeader]
  have hxlen : x.len = ntohs m (data + 12) := by rw [hx, hostHeader]
  have hxsnap : x.snap = decide (m.read (data + 14) 6 = rfc1042EthHdr) := by rw [hx, hostHeader]
  rw [deaggregateLoop]
  simp only [hlen, hsnap]
  rw [if_neg (by omega), if_neg (by omega), if_pos trivial]
  simp only [← hxlen, hsize, mlanFrame, hstart, map_cons]
  by_cases hs : m.read (data + 14) 6 = rfc1042EthHdr
  · rw [decide_eq_true hs] at hxsnap
    simp only [hs, hxsnap, if_true]
    refine ⟨_, _, rfl, fun hagrees => ?_⟩
    obtain ⟨hmin, hlong⟩ := hagrees.snap hxsnap
    have hnext : data + 8 + ((x.len + 14 - 8) % 65536 + padLen (x.len + 14)) = data + x.size := by omega
    refine ⟨hnext, fun y hy => ?_⟩
    rw [Mem.memmove, Mem.write_apply_of_not_mem (.inr (by rw [Mem.length_read]; omega)), hm y (by omega)]
  · rw [decide_eq_false hs] at hxsnap
    simp only [hs, hxsnap, if_false, Bool.false_eq_true]
    refine ⟨_, _, rfl, fun hagrees => ?_⟩
    have hzero := hagrees.other hxsnap
    have hnext : data + ((x.len + 14) % 65536 + padLen (x.len + 14)) = data + x.size := by omega
    refine ⟨hnext, fun y hy => ?_⟩
    rw [Mem.write_apply_of_not_mem (.inr (by simp only [length_cons, length_nil]; omega)), hm y (by omega)]

/-! ## Well-formed aggregates -/

/-- A subframe : destination and source, the length of its payload, the payload, and what pads it to four octets. -/
structure Msdu where
  addrs : List UInt8
  payload : List UInt8
  pad : List UInt8
  length_addrs : addrs.length = 12
  length_payload : payload.length < 65536
  length_pad : pad.length = padLen (payload.length + 14)

/-- The subframe without its pad. -/
def Msdu.octets (s : Msdu) : List UInt8 :=
  s.addrs ++ htons s.payload.length ++ s.payload

/-- An aggregate : all subframes but the last one are padded. -/
def amsduBytes (lastPad : Bool) : List Msdu → List UInt8
  | [] => []
  | s :: subs => s.octets ++ ((if subs.isEmpty && !lastPad then [] else s.pad) ++ amsduBytes lastPad subs)

theorem Msdu.length_octets (s : Msdu) : s.octets.length = s.payload.length + 14 := by
  simp only [Msdu.octets, length_append, s.length_addrs, length_htons]
  omega

theorem ntohs_htons {a n : ℕ} (hn : n < 65536) (h : m.read a 2 = htons n) : ntohs m a = n := by
  simp only [Mem.read, htons, range_succ, range_zero, nil_append, cons_append, map_cons,
    map_nil, List.cons.injEq, and_true, Nat.add_zero] at h
  rw [ntohs, h.1, h.2]
  simp only [UInt8.toNat_ofNat']
  omega

theorem read_msdu {lastPad : Bool} {s : Msdu} {subs : List Msdu}
    (h : m.read data (amsduBytes lastPad (s :: subs)).length = amsduBytes lastPad (s :: subs)) :
    m.read data s.octets.length = s.octets := by
  rw [amsduBytes, Mem.read_append_iff] at h
  exact h.1

/-- A subframe is the last one, with its pad or without, or others follow behind its pad. -/
theorem amsduBytes_cons (lastPad : Bool) (s : Msdu) (subs : List Msdu) :
    (subs = [] ∧ (amsduBytes lastPad (s :: subs)).length =
        s.payload.length + 14 + if lastPad then s.pad.length else 0) ∨
      (subs ≠ [] ∧ amsduBytes lastPad (s :: subs) = s.octets ++ s.pad ++ amsduBytes lastPad subs ∧
        0 < (amsduBytes lastPad subs).length) := by
  cases subs with
  | nil =>
    refine .inl ⟨rfl, ?_⟩
    rw [amsduBytes, length_append, s.length_octets]
    cases lastPad <;> simp [amsduBytes]
  | cons s' subs =>
    refine .inr ⟨by simp, by rw [amsduBytes]; simp, ?_⟩
    rw [amsduBytes, length_append, s'.length_octets]
    omega

/-- The header of a subframe that is there. -/
theorem ntohs_msdu {s : Msdu} (h : m.read data s.octets.length = s.octets) : ntohs m (data + 12) = s.payload.length := by
  rw [Msdu.octets, Mem.read_append_iff, Mem.read_append_iff, s.length_addrs] at h
  exact ntohs_htons s.length_payload h.1.2

/-- Both paths make the same frame of a subframe at `a` : it has the LLC/SNAP header, or no payload. -/
def Msdu.Agrees (m : Mem) (a : ℕ) (s : Msdu) : Prop :=
  if m.read (a + 14) 6 = rfc1042EthHdr then 6 ≤ s.payload.length ∧ s.payload.length < 65530 else s.payload.length = 0

/-- All subframes from `a` on agree, and no pad is behind the last. -/
def AgreesFrom (m : Mem) (lastPad : Bool) : ℕ → List Msdu → Prop
  | _, [] => True
  | a, s :: subs => ((subs = [] → lastPad = true → s.pad = []) ∧ s.Agrees m a) ∧
      AgreesFrom m lastPad (a + (s.payload.length + 14 + s.pad.length)) subs

/-- The frames of an aggregate agree exactly if its subframes do. -/
theorem hostFrames_eq_iff (cfg : DeaggrCfg) (lastPad : Bool) (subs : List Msdu) (j : ℕ)
    (hk : ∀ y, data ≤ y → mk y = m y) (hl : ∀ y, data ≤ y → mm y = m y)
    (h : m.read data (amsduBytes lastPad subs).length = amsduBytes lastPad subs) :
    hostFrames (fun _ => true) i mk data (amsduBytes lastPad subs).length =
        (deaggregateLoop cfg (fun _ => true) j mm data (amsduBytes lastPad subs).length).map Prod.snd ↔
      AgreesFrom m lastPad data subs := by
  induction subs generalizing i j mk mm data with
  | nil =>
    rw [hostFrames, hostTouches_step hk rfl, if_pos (by simp [hostHeader, amsduBytes]), deaggregateLoop,
      if_pos (by simp [amsduBytes])]
    exact iff_of_true rfl trivial
  | cons s subs ih =>
    have hmax := s.length_payload
    set left := (amsduBytes lastPad (s :: subs)).length with hleft
    set x := hostHeader m data left with hx
    have hlen : x.len = s.payload.length := ntohs_msdu (read_msdu h)
    have hsize : x.size = s.payload.length + 14 + s.pad.length := by rw [HostHeader.size, hlen, s.length_pad]
    have hxleft : x.left = left := rfl
    have hsame : (if x.snap then 6 ≤ x.len ∧ x.len < 65530 else x.len = 0) ↔ s.Agrees m data := by
      have hfield : ntohs m (data + 12) = s.payload.length := hlen
      simp only [hx, hostHeader, Msdu.Agrees, decide_eq_true_eq, hfield]
    have hframe := @frame_eq_iff x mk mm fun y hy => (hk y hy).trans (hl y hy).symm
    rcases amsduBytes_cons lastPad s subs with ⟨rfl, htotal⟩ | ⟨hne, hbytes, hpos⟩
    · -- the last subframe
      have hfit : x.len + 14 ≤ left := by omega
      have hlast : left ≤ x.size := by
        rw [hleft, htotal, hsize]
        split_ifs <;> omega
      have hflen : x.frameLen = x.len + if lastPad then s.pad.length else 0 := by
        rw [HostHeader.frameLen, hxleft, if_pos hlast, hleft, htotal, hlen]
        omega
      have htrim : x.frameLen = x.len ↔ (lastPad = true → s.pad = []) := by
        rw [hflen, ← length_eq_zero_iff]
        cases lastPad <;> simp
      obtain ⟨m', next, heq, -⟩ := @deaggregateLoop_step m data left j x mm cfg hl hx hfit
      have hend : deaggregateLoop cfg (fun _ => true) (j + 1) m' next (left - x.size : ℤ) = [] := by
        rw [deaggregateLoop, if_pos (by omega)]
      rw [hostFrames_step hk hx hfit, if_pos hlast, heq, hend, map_nil, List.cons.injEq,
        hframe (by omega) (by omega), HostHeader.agrees_iff, htrim, hsame]
      simp [AgreesFrom]
    · have htotal : left = s.payload.length + 14 + s.pad.length + (amsduBytes lastPad subs).length := by
        rw [hleft, hbytes, length_append, length_append, s.length_octets]
      have hfit : x.len + 14 ≤ left := by omega
      have hmore : ¬left ≤ x.size := by omega
      have htrim : x.frameLen = x.len := by rw [HostHeader.frameLen, hxleft, if_neg hmore]
      obtain ⟨m', next, heq, hnext⟩ := @deaggregateLoop_step m data left j x mm cfg hl hx hfit
      rw [hostFrames_step hk hx hfit, if_neg hmore, heq, List.cons.injEq, hframe (by omega) (by omega), AgreesFrom,
        ← hsame, ← hsize]
      have hagrees := x.agrees_iff
      simp only [htrim, true_and] at hagrees
      simp only [hne, false_imp_iff, true_and, ← hagrees]
      refine and_congr_right fun ha => ?_
      obtain ⟨rfl, hl'⟩ := hnext ha
      have hnat : left - x.size = (amsduBytes lastPad subs).length := by omega
      have hint : (left - x.size : ℤ) = (amsduBytes lastPad subs).length := by omega
      rw [hnat, hint]
      rw [hleft, hbytes, Mem.read_append_iff, length_append, s.length_octets, ← hsize] at h
      exact ih (j + 1) (edit_keeps hk hx hmore) hl' h.2

/-! ## The whole function -/

/-- The references of the call when it starts. -/
def amsduOwn (b : RecvBuf) : List AmsduRef :=
  if b.pdesc then [(none, .given)] else []

/-- The clones have ended, each once, and the skb exactly if the call is pending, which is counted. -/
structure AmsduOutcome.Accounted (o : AmsduOutcome) (b : RecvBuf) : Prop where
  owns : AmsduOp.run o.ops (amsduOwn b) = some (if o.status = .pending then [] else amsduOwn b)
  pending : o.status = .pending → b.pdesc = true
  counted : o.mbufallocDec = if o.status = .pending then 1 else 0

theorem recvAmsduPacket_accounted (env : AmsduEnv) (b : RecvBuf) (m : Mem) (data : ℕ) :
    (recvAmsduPacket env b m data).Accounted b := by
  unfold recvAmsduPacket
  by_cases hpriv : env.priv = true
  swap
  · rw [if_pos (by simpa using hpriv)]
    exact ⟨rfl, by simp, rfl⟩
  rw [if_neg (by simpa using hpriv)]
  split_ifs with hmesh hp hroom hdrop
  · exact ⟨rfl, by simp, rfl⟩
  · exact ⟨rfl, by simp, rfl⟩
  · exact ⟨rfl, by simp, rfl⟩
  · have hpdesc : b.pdesc = true := by simpa using hp
    refine ⟨?_, fun _ => hpdesc, rfl⟩
    rw [amsduOwn, if_pos hpdesc]
    exact Custody.run_release _ []
  · have hpdesc : b.pdesc = true := by simpa using hp
    have hown : amsduOwn b = [(none, .given)] := by rw [amsduOwn, if_pos hpdesc]
    have hends := @hostTouches_ends data env.clone env b 0 m data b.dataLen
    rw [Ends] at hends
    dsimp only
    split_ifs with hlast
    · rw [if_pos hlast] at hends
      exact ⟨by rw [hown]; exact hends, fun _ => hpdesc, rfl⟩
    · rw [if_neg hlast] at hends
      exact ⟨by rw [hown]; exact hends, by simp, rfl⟩

/-- **The host's path.** The frames of an aggregate are those of `wlan_11n_deaggregate_pkt` exactly if its
subframes agree; the loop stays within the skb exactly if the headers fit; and in any case what was handed on is
not written again, all clones end, and the call is pending exactly if the skb has ended. -/
theorem recvAmsduPacket_correct_iff (m : Mem) (data : ℕ) :
    (∀ (cfg : DeaggrCfg) (lastPad : Bool) (subs : List Msdu),
      m.read data (amsduBytes lastPad subs).length = amsduBytes lastPad subs →
        (hostFrames (fun _ => true) 0 m data (amsduBytes lastPad subs).length =
            (deaggregateLoop cfg (fun _ => true) 0 m data (amsduBytes lastPad subs).length).map Prod.snd ↔
          AgreesFrom m lastPad data subs)) ∧
      (∀ n : ℕ, (∀ clone, ∀ t ∈ hostTouches clone 0 m data n, t.span.Inside data n) ↔
        ∀ x ∈ hostHeaders m data n, x.Fits) ∧
      (∀ (clone : ℕ → Bool) (n : ℕ), (hostTouches clone 0 m data n).Pairwise HostTouch.Spares) ∧
      ∀ (env : AmsduEnv) (b : RecvBuf), (recvAmsduPacket env b m data).Accounted b :=
  ⟨fun cfg lastPad subs h => hostFrames_eq_iff cfg lastPad subs 0 (fun _ _ => rfl) (fun _ _ => rfl) h,
    hostTouches_inside_iff m data, fun _ n => (hostTouches_spare 0 m data n).1,
    fun env b => recvAmsduPacket_accounted env b m data⟩

/-- A subframe with a payload of eight octets. -/
def eightOctets (payload : List UInt8) (h : payload.length = 8) : Msdu where
  addrs := (List.range 12).map UInt8.ofNat
  payload := payload
  pad := [0, 0]
  length_addrs := rfl
  length_payload := by omega
  length_pad := by rw [h]; rfl

/-- Only an EtherType behind the LLC/SNAP header. -/
def ipMsdu : Msdu := eightOctets [0xaa, 0xaa, 0x03, 0, 0, 0, 0x08, 0] rfl

/-- A frame of the spanning tree protocol, behind an LLC header. -/
def stpMsdu : Msdu := eightOctets [0x42, 0x42, 0x03, 0, 0, 0, 0, 0] rfl

/-- A memory that starts with `bs`. -/
def memOf (bs : List UInt8) : Mem := fun i => bs.getD i 0

theorem recvAmsduPacket_agrees_two :
    hostFrames (fun _ => true) 0 (memOf (amsduBytes false [ipMsdu, ipMsdu])) 0 46 =
      (deaggregateLoop stationCfg (fun _ => true) 0 (memOf (amsduBytes false [ipMsdu, ipMsdu])) 0 46).map Prod.snd :=
  ((recvAmsduPacket_correct_iff _ 0).1 stationCfg false [ipMsdu, ipMsdu] (by decide +kernel)).mpr
    ⟨⟨nofun, by unfold Msdu.Agrees; decide +kernel⟩, ⟨nofun, by unfold Msdu.Agrees; decide +kernel⟩, trivial⟩

/-- A subframe with another LLC header keeps its length field, and one octet behind a padded subframe is taken for a
header. -/
theorem recvAmsduPacket_differs :
    hostFrames (fun _ => true) 0 (memOf (amsduBytes false [stpMsdu])) 0 22 ≠
        (deaggregateLoop stationCfg (fun _ => true) 0 (memOf (amsduBytes false [stpMsdu])) 0 22).map Prod.snd ∧
      ¬∀ clone, ∀ t ∈ hostTouches clone 0 (memOf (amsduBytes true [ipMsdu] ++ [0])) 0 25, t.span.Inside 0 25 := by
  constructor
  · have hread : (memOf (amsduBytes false [stpMsdu])).read 0 22 = amsduBytes false [stpMsdu] := by decide +kernel
    intro heq
    have hagrees := (hostFrames_eq_iff stationCfg false [stpMsdu] 0 (fun _ _ => rfl) (fun _ _ => rfl) hread).mp heq
    have hother : (memOf (amsduBytes false [stpMsdu])).read 14 6 ≠ rfc1042EthHdr := by decide +kernel
    have hzero := hagrees.1.2
    rw [Msdu.Agrees, if_neg hother] at hzero
    exact absurd hzero (by decide)
  · intro hinside
    set m := memOf (amsduBytes true [ipMsdu] ++ [0]) with hm
    have hsize : (hostHeader m 0 25).size = 24 := by decide +kernel
    have hmem : hostHeader m 24 1 ∈ hostHeaders m 0 25 := by
      rw [hostHeaders, hsize, if_neg (by omega), hostHeaders]
      exact mem_cons_of_mem _ mem_cons_self
    have hfits := (hostTouches_inside_iff m 0 25).mp hinside _ hmem
    exact absurd hfits.header (by decide)

end WlanDriver.Upload
