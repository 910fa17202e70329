import WlanDriver.Lib.Memory
import WlanDriver.Lib.Ethernet
import Mathlib.Data.List.TakeWhile

/-!
# A-MSDU aggregation

The two functions that build a subframe (`mlan_11n_aggr.c`) : `formAmsduPkt` copies a frame into the buffer
of the aggregate, `formAmsduSubframe` rewrites it in place for a scatter list. The two that read an
aggregate : `getNumAggrpkts` counts the subframes, `deaggregateLoop` takes them apart in place.

A frame becomes `subframe f` : its addresses, the length behind the header, the LLC/SNAP header, its EtherType and
its payload; all but the last are padded to four octets, and the octets of the pad are whatever
the buffer held. `Laid` says that frames lie one after the other in a memory. `amsdu_roundTrip` : what is
aggregated is taken apart into the same frames.
-/

namespace WlanDriver.Aggr

open Ethernet List

/-! ## Building -/

/-- The octets that are missing to a multiple of four. -/
def padLen (n : ℕ) : ℕ :=
  if n % 4 ≠ 0 then 4 - n % 4 else 0

/-- A 16-bit number in network order. -/
def htons (n : ℕ) : List UInt8 :=
  [UInt8.ofNat (n / 256), UInt8.ofNat n]

/-- The fields of `Rfc1042Hdr_t` in front of the SNAP type. -/
def rfc1042EthHdr : List UInt8 :=
  [0xaa, 0xaa, 0x03, 0x00, 0x00, 0x00]

/-- The memory behind a builder, the pad, and the size it returns. -/
structure Formed where
  mem : Mem
  pad : ℕ
  size : ℕ

/-- `wlan_11n_form_amsdu_pkt`. The source `data` is a buffer of its own. -/
def formAmsduPkt (m : Mem) (amsduBuf : ℕ) (data : List UInt8) : Formed :=
  let pktLen := data.length
  let m := m.write amsduBuf (data.take 12)
  let snapType := (data.drop 12).take 2
  let m := m.write (amsduBuf + 12) (htons (pktLen + 8 - 14))
  let m := m.write (amsduBuf + 14) (rfc1042EthHdr ++ snapType)
  let m := m.write (amsduBuf + 22) (data.drop 14)
  let pad := padLen (pktLen + 8)
  ⟨m, pad, pktLen + 8 + pad⟩

/-- A subframe that was built in place : also its new offset and length. -/
structure FormedInPlace extends Formed where
  dataOffset : ℕ
  dataLen : ℕ

/-- `wlan_form_amsdu_subframe`, on the frame of `pktLen` octets at `data`. -/
def formAmsduSubframe (m : Mem) (data pktLen : ℕ) : FormedInPlace :=
  let amsduBuf := data - 8
  let m := m.memcpy amsduBuf data 12
  let snapType := m.read (data + 12) 2
  let m := m.write (amsduBuf + 12) (htons (pktLen + 8 - 14))
  let m := m.write (amsduBuf + 14) (rfc1042EthHdr ++ snapType)
  let pad := padLen (pktLen + 8)
  { mem := m, pad := pad, size := pktLen + 8 + pad, dataOffset := amsduBuf, dataLen := pktLen + 8 + pad }

/-- The loop of `wlan_11n_aggregate_pkt` : memory, end of the aggregate, last pad. -/
def aggregateLoop (m : Mem) (pos pad : ℕ) : List (List UInt8) → Mem × ℕ × ℕ
  | [] => (m, pos, pad)
  | f :: fs =>
    let r := formAmsduPkt m pos f
    aggregateLoop r.mem (pos + r.size) r.pad fs

/-- The aggregate at `buf` : memory and length without the last pad. -/
def aggregatePkt (m : Mem) (buf : ℕ) (frames : List (List UInt8)) : Mem × ℕ :=
  let r := aggregateLoop m buf 0 frames
  (r.1, r.2.1 - buf - r.2.2)

/-! ## Taking apart -/

/-- The 16-bit number in network order at `a`. -/
def ntohs (m : Mem) (a : ℕ) : ℕ :=
  (m a).toNat * 256 + (m (a + 1)).toNat

/-- What deaggregation depends on : role and stations of an access point, `sec_info.ewpa_enabled`, the
largest aggregate, and whether the host takes whole aggregates. -/
structure DeaggrCfg where
  uap : Bool
  isStation : List UInt8 → Bool
  ewpaEnabled : Bool
  maxRxDataSize : ℕ
  hostTakesAmsdu : Bool

def uapCheckForward (cfg : DeaggrCfg) (m : Mem) (data : ℕ) : Bool :=
  (m data &&& 1 == 1) || cfg.isStation (m.read data 6)

/-- `wlan_11n_get_num_aggrpkts` : the number of subframes, and whether one is to be forwarded. -/
def getNumAggrpkts (cfg : DeaggrCfg) (m : Mem) (data : ℕ) (totalPktLen : ℤ) : ℕ × Bool :=
  if totalPktLen < 14 then (0, false)
  else
    let forward := cfg.uap && uapCheckForward cfg m data
    let pktLen := ntohs m (data + 12)
    if totalPktLen < pktLen then (0, forward)
    else
      let pad := padLen (pktLen + 14)
      let r := getNumAggrpkts cfg m (data + (pktLen + pad + 14)) (totalPktLen - (pktLen + pad + 14 : ℕ))
      (r.1 + 1, forward || r.2)
termination_by totalPktLen.toNat
decreasing_by omega

/-- Where a frame of an aggregate goes : to the access point's path, to the firmware (EAPOL), or to the host, after
the TDLS handler has seen it or not. -/
inductive Route
  | uap
  | firmware
  | host (tdls : Bool)
  deriving DecidableEq, Repr

def route (cfg : DeaggrCfg) (frame : List UInt8) : Route :=
  if cfg.uap then .uap
  else if cfg.ewpaEnabled ∧ (frame.drop 12).take 2 = [0x88, 0x8e] then .firmware
  else .host ((frame.drop 12).take 2 = [0x89, 0x0d])

/-- The loop of `wlan_11n_deaggregate_pkt`; `alloc` says whether the allocation for subframe `i` succeeds. -/
def deaggregateLoop (cfg : DeaggrCfg) (alloc : ℕ → Bool) (i : ℕ) (m : Mem) (data : ℕ) (totalPktLen : ℤ) :
    List (Route × List UInt8) :=
  if totalPktLen < 14 then []
  else
    let pktLen := ntohs m (data + 12)
    if totalPktLen < pktLen then []
    else
      let pad := padLen (pktLen + 14)
      let snap := m.read (data + 14) 6 = rfc1042EthHdr
      let m := if snap then m.memmove (data + 8) data 12 else m.write (data + 12) [0, 0]
      let data := if snap then data + 8 else data
      -- `pkt_len` is a `t_u16`
      let len := if snap then (pktLen + 14 - 8) % 65536 else (pktLen + 14) % 65536
      if alloc i then
        let frame := m.read data len
        (route cfg frame, frame) ::
          deaggregateLoop cfg alloc (i + 1) m (data + (len + pad)) (totalPktLen - (pktLen + pad + 14 : ℕ))
      else []
termination_by totalPktLen.toNat
decreasing_by omega

/-- What becomes of an aggregate. -/
inductive Deaggregated
  | dropped
  | wholeToHost
  | frames (l : List (Route × List UInt8))

/-- `wlan_11n_deaggregate_pkt`. -/
def deaggregatePkt (cfg : DeaggrCfg) (alloc : ℕ → Bool) (m : Mem) (data totalPktLen : ℕ) : Deaggregated :=
  if cfg.maxRxDataSize < totalPktLen then .dropped
  else if cfg.hostTakesAmsdu ∧ !(getNumAggrpkts cfg m data totalPktLen).2 then .wholeToHost
  else .frames (deaggregateLoop cfg alloc 0 m data totalPktLen)

/-! ## Subframes -/

variable {m : Mem} {buf : ℕ} {f : List UInt8} {frames : List (List UInt8)}

/-- The octets of a subframe without its pad. -/
def subframe (f : List UInt8) : List UInt8 :=
  f.take 12 ++ htons (f.length + 8 - 14) ++ rfc1042EthHdr ++ f.drop 12

@[simp] theorem length_htons (n : ℕ) : (htons n).length = 2 := rfl

@[simp] theorem length_rfc1042EthHdr : rfc1042EthHdr.length = 6 := rfl

theorem length_subframe (hf : 14 ≤ f.length) : (subframe f).length = f.length + 8 := by
  simp [subframe]
  omega

/-- The header of a subframe : everything in front of the frame's payload. -/
def subframeHdr (f : List UInt8) : List UInt8 :=
  f.take 12 ++ (htons (f.length + 8 - 14) ++ (rfc1042EthHdr ++ (f.drop 12).take 2))

theorem length_subframeHdr (hf : 14 ≤ f.length) : (subframeHdr f).length = 22 := by
  simp [subframeHdr]
  omega

theorem subframeHdr_append (f : List UInt8) : subframeHdr f ++ f.drop 14 = subframe f := by
  have htype : (f.drop 12).take 2 ++ f.drop 14 = f.drop 12 := by
    have h : f.drop 14 = (f.drop 12).drop 2 := by rw [drop_drop]
    rw [h, take_append_drop]
  simp only [subframeHdr, subframe, append_assoc, htype]

/-- A frame is written as its subframe. -/
theorem formAmsduPkt_mem (hf : 14 ≤ f.length) : (formAmsduPkt m buf f).mem = m.write buf (subframe f) := by
  have haddr : (f.take 12).length = 12 := by
    simp
    omega
  have hhdr : ((m.write buf (f.take 12)).write (buf + 12) (htons (f.length + 8 - 14))).write (buf + 14)
      (rfc1042EthHdr ++ (f.drop 12).take 2) = m.write buf (subframeHdr f) := by
    rw [Mem.write_append _ (by simp), Mem.write_append _ (by rw [haddr])]
    rfl
  simp only [formAmsduPkt]
  rw [hhdr, Mem.write_append _ (by rw [length_subframeHdr hf]), subframeHdr_append]

/-- The builder in place leaves the same octets, in front of where the frame was. -/
theorem formAmsduSubframe_read {data : ℕ} (hdata : 8 ≤ data) (hf : 14 ≤ f.length) (hm : m.read data f.length = f) :
    (formAmsduSubframe m data f.length).mem.read (formAmsduSubframe m data f.length).dataOffset (f.length + 8) =
      subframe f := by
  obtain ⟨buf, rfl⟩ := Nat.exists_eq_add_of_le' hdata
  have haddr : m.read (buf + 8) 12 = f.take 12 := by
    rw [Mem.read_part le_rfl (n := f.length) (by omega), hm, Nat.sub_self, drop_zero]
  have htype : m.read (buf + 8 + 12) 2 = (f.drop 12).take 2 := by
    rw [Mem.read_part (a := buf + 8) (n := f.length) (by omega) (by omega), hm, Nat.add_sub_cancel_left]
  have hpayload : m.read (buf + 22) (f.length - 14) = f.drop 14 := by
    rw [Mem.read_part (a := buf + 8) (n := f.length) (by omega) (by omega), hm]
    have hlen : (f.drop (buf + 22 - (buf + 8))).length ≤ f.length - 14 := by
      rw [length_drop]
      omega
    rw [take_of_length_le hlen]
    congr 1
    omega
  have hlen : (f.take 12).length = 12 := by
    simp
    omega
  have hmem : (formAmsduSubframe m (buf + 8) f.length).mem = m.write buf (subframeHdr f) := by
    simp only [formAmsduSubframe, Nat.add_sub_cancel]
    rw [Mem.memcpy_eq (.inl (Nat.le_add_right buf 8)), haddr, Mem.read_write_of_disjoint (.inr (by omega)), htype,
      Mem.write_append _ (by simp), Mem.write_append _ (by rw [hlen])]
    rfl
  have hhdr : (m.write buf (subframeHdr f)).read buf 22 = subframeHdr f := by
    have h := Mem.read_write m buf (subframeHdr f)
    rwa [length_subframeHdr hf] at h
  have hsplit : f.length + 8 = 22 + (f.length - 14) := by omega
  have hoff : (formAmsduSubframe m (buf + 8) f.length).dataOffset = buf := Nat.add_sub_cancel buf 8
  rw [hmem, hoff, hsplit, Mem.read_add, hhdr, Mem.read_write_of_disjoint (.inr (by rw [length_subframeHdr hf])),
    hpayload, subframeHdr_append]

/-! ## Layout -/

/-- The subframes of `frames` lie one after the other from `a` on. -/
def Laid (m : Mem) : ℕ → List (List UInt8) → Prop
  | _, [] => True
  | a, f :: fs => m.read a (f.length + 8) = subframe f ∧ Laid m (a + (f.length + 8 + padLen (f.length + 8))) fs

/-- The length of an aggregate without its last pad. -/
def amsduLen : List (List UInt8) → ℕ
  | [] => 0
  | [f] => f.length + 8
  | f :: g :: fs => f.length + 8 + padLen (f.length + 8) + amsduLen (g :: fs)

/-- Octets in front of an aggregate do not matter. -/
theorem Laid.congr {m' : Mem} {a : ℕ} (h : Laid m a frames) (hm : ∀ x, a ≤ x → m' x = m x) : Laid m' a frames := by
  induction frames generalizing a with
  | nil => trivial
  | cons f fs ih =>
    obtain ⟨hf, hfs⟩ := h
    refine ⟨?_, ih hfs fun x hx => hm x (by omega)⟩
    rw [← hf]
    exact Mem.read_congr fun i _ => hm _ (Nat.le_add_right _ _)

/-- The loop writes behind its position only. -/
theorem aggregateLoop_below (hlen : ∀ f ∈ frames, 14 ≤ f.length) (pos pad : ℕ) {x : ℕ} (hx : x < pos) :
    (aggregateLoop m pos pad frames).1 x = m x := by
  induction frames generalizing m pos pad with
  | nil => rfl
  | cons f fs ih =>
    have hf := hlen f mem_cons_self
    rw [aggregateLoop, ih (fun g hg => hlen g (mem_cons_of_mem f hg)) _ _ (by omega), formAmsduPkt_mem hf,
      Mem.write_apply_of_not_mem (.inl hx)]

theorem aggregateLoop_laid (hlen : ∀ f ∈ frames, 14 ≤ f.length) (pos pad : ℕ) :
    Laid (aggregateLoop m pos pad frames).1 pos frames := by
  induction frames generalizing m pos pad with
  | nil => trivial
  | cons f fs ih =>
    have hf := hlen f mem_cons_self
    have hfs : ∀ g ∈ fs, 14 ≤ g.length := fun g hg => hlen g (mem_cons_of_mem f hg)
    refine ⟨?_, ih hfs _ _⟩
    rw [aggregateLoop, ← length_subframe hf]
    have hkeep : ∀ i < (subframe f).length,
        (aggregateLoop (formAmsduPkt m pos f).mem (pos + (formAmsduPkt m pos f).size) (formAmsduPkt m pos f).pad fs).1
          (pos + i) = (formAmsduPkt m pos f).mem (pos + i) := fun i hi => by
      refine aggregateLoop_below hfs _ _ ?_
      rw [length_subframe hf] at hi
      simp only [formAmsduPkt]
      omega
    rw [Mem.read_congr hkeep, formAmsduPkt_mem hf, Mem.read_write]

theorem aggregateLoop_end (hne : frames ≠ []) (pos pad : ℕ) :
    (aggregateLoop m pos pad frames).2.1 = pos + amsduLen frames + (aggregateLoop m pos pad frames).2.2 := by
  induction frames generalizing m pos pad with
  | nil => exact absurd rfl hne
  | cons f fs ih =>
    cases fs with
    | nil => simp only [aggregateLoop, amsduLen, formAmsduPkt, Nat.add_assoc]
    | cons g fs =>
      rw [aggregateLoop, ih (by simp)]
      simp only [amsduLen, formAmsduPkt]
      omega

theorem aggregatePkt_length (hne : frames ≠ []) : (aggregatePkt m buf frames).2 = amsduLen frames := by
  simp only [aggregatePkt]
  rw [aggregateLoop_end hne]
  omega

/-! ## Reading a subframe -/

section Subframe

variable {a : ℕ} (hf : 14 ≤ f.length) (hm : m.read a (f.length + 8) = subframe f)

include hf hm

theorem read_addrs : m.read a 12 = f.take 12 := by
  rw [Mem.read_part le_rfl (n := f.length + 8) (by omega), hm, Nat.sub_self, drop_zero]
  simp only [subframe, append_assoc]
  exact take_left' (by simp; omega)

theorem read_len : m.read (a + 12) 2 = htons (f.length + 8 - 14) := by
  rw [Mem.read_part (a := a) (n := f.length + 8) (by omega) (by omega), hm, Nat.add_sub_cancel_left]
  simp only [subframe, append_assoc]
  rw [drop_left' (by simp; omega)]
  exact take_left' rfl

theorem read_snap : m.read (a + 14) 6 = rfc1042EthHdr := by
  rw [Mem.read_part (a := a) (n := f.length + 8) (by omega) (by omega), hm, Nat.add_sub_cancel_left, subframe]
  rw [append_assoc (f.take 12 ++ _), drop_left' (by simp; omega)]
  exact take_left' rfl

theorem read_rest : m.read (a + 20) (f.length - 12) = f.drop 12 := by
  rw [Mem.read_part (a := a) (n := f.length + 8) (by omega) (by omega), hm, Nat.add_sub_cancel_left, subframe]
  rw [drop_left' (by simp; omega), take_of_length_le (by simp)]

/-- The length field of a subframe counts what is behind the 802.3 header. -/
theorem ntohs_eq (hlong : f.length ≤ 4096) : ntohs m (a + 12) = f.length - 6 := by
  have hlen := read_len hf hm
  simp only [Mem.read, htons, range_succ, range_zero, nil_append, cons_append, map_cons,
    map_nil, List.cons.injEq, and_true, Nat.add_zero] at hlen
  rw [ntohs, hlen.1, hlen.2]
  simp only [UInt8.toNat_ofNat']
  omega

/-- Moving the addresses onto the LLC/SNAP header gives the frame back. -/
theorem read_memmove : (m.memmove (a + 8) a 12).read (a + 8) f.length = f := by
  have hsplit : f.length = 12 + (f.length - 12) := by omega
  have hlen : (f.take 12).length = 12 := by
    simp
    omega
  have haddr : (m.write (a + 8) (f.take 12)).read (a + 8) 12 = f.take 12 := by
    have h := Mem.read_write m (a + 8) (f.take 12)
    rwa [hlen] at h
  rw [Mem.memmove, read_addrs hf hm]
  nth_rewrite 1 [hsplit]
  rw [Mem.read_add, haddr, Mem.read_write_of_disjoint (.inr (by omega)), Nat.add_assoc, read_rest hf hm,
    take_append_drop]

end Subframe

/-- A frame of an aggregate fits into it. -/
theorem length_le_amsduLen (hf : f ∈ frames) : f.length + 8 ≤ amsduLen frames := by
  induction frames with
  | nil => simp at hf
  | cons g gs ih =>
    cases gs with
    | nil =>
      obtain rfl := mem_singleton.mp hf
      exact le_rfl
    | cons h hs =>
      rw [amsduLen]
      rcases mem_cons.mp hf with rfl | hf
      · omega
      · have := ih hf
        omega

/-- What is left of an aggregate behind its first subframe : the others, or less than nothing. -/
theorem amsduLen_cons (f : List UInt8) (fs : List (List UInt8)) :
    fs ≠ [] ∧ amsduLen (f :: fs) = f.length + 8 + padLen (f.length + 8) + amsduLen fs ∨
      fs = [] ∧ amsduLen (f :: fs) = f.length + 8 := by
  cases fs with
  | nil => exact .inr ⟨rfl, rfl⟩
  | cons g gs => exact .inl ⟨by simp, rfl⟩

/-- The rest of an aggregate, as the loops compute it from the length of a subframe with `pktLen`. -/
theorem amsduLen_sub (hf : 14 ≤ f.length) (hfs : fs ≠ []) :
    (amsduLen (f :: fs) : ℤ) - ((f.length - 6 + padLen (f.length + 8) + 14 : ℕ) : ℤ) = amsduLen fs := by
  have htotal := (amsduLen_cons f fs).resolve_right fun h => hfs h.1
  omega

/-- **The loop** hands on the frames of an aggregate, up to the first that gets no memory. -/
theorem deaggregateLoop_laid (cfg : DeaggrCfg) (alloc : ℕ → Bool) (i : ℕ) {a : ℕ} (hlen : ∀ f ∈ frames, 14 ≤ f.length)
    (hsize : amsduLen frames ≤ 4096) (hm : Laid m a frames) (hne : frames ≠ []) :
    deaggregateLoop cfg alloc i m a (amsduLen frames) =
      ((frames.zipIdx i).takeWhile fun x => alloc x.2).map fun x => (route cfg x.1, x.1) := by
  induction frames generalizing m i a with
  | nil => exact absurd rfl hne
  | cons f fs ih =>
    obtain ⟨hread, hrest⟩ := hm
    have hf := hlen f mem_cons_self
    have hfit := length_le_amsduLen (show f ∈ f :: fs from mem_cons_self)
    have hpkt := ntohs_eq hf hread (by omega)
    have hpad : f.length - 6 + 14 = f.length + 8 := by omega
    have hmod : (f.length + 8 - 8) % 65536 = f.length := by omega
    rw [deaggregateLoop]
    simp only [hpkt, read_snap hf hread, if_true, hpad, hmod, read_memmove hf hread]
    rw [if_neg (by omega), if_neg (by omega), zipIdx_cons, takeWhile_cons]
    split_ifs with halloc
    · rw [map_cons]
      congr 1
      rcases amsduLen_cons f fs with ⟨hfs, htotal⟩ | ⟨rfl, htotal⟩
      · have hnext : a + 8 + (f.length + padLen (f.length + 8)) = a + (f.length + 8 + padLen (f.length + 8)) := by omega
        rw [hnext, amsduLen_sub hf hfs]
        refine ih (i + 1) (fun g hg => hlen g (mem_cons_of_mem f hg)) (by omega) (hrest.congr fun x hx => ?_) hfs
        rw [Mem.memmove, Mem.write_apply_of_not_mem (.inr (by rw [Mem.length_read]; omega))]
      · -- the last subframe has no pad, so less than nothing is left
        rw [deaggregateLoop, if_pos (by omega)]
        rfl
    · rfl

/-- The count of subframes is the number of frames. -/
theorem getNumAggrpkts_laid (cfg : DeaggrCfg) {a : ℕ} (hlen : ∀ f ∈ frames, 14 ≤ f.length)
    (hsize : amsduLen frames ≤ 4096) (hm : Laid m a frames) (hne : frames ≠ []) :
    (getNumAggrpkts cfg m a (amsduLen frames)).1 = frames.length := by
  induction frames generalizing a with
  | nil => exact absurd rfl hne
  | cons f fs ih =>
    obtain ⟨hread, hrest⟩ := hm
    have hf := hlen f mem_cons_self
    have hfit := length_le_amsduLen (show f ∈ f :: fs from mem_cons_self)
    have hpkt := ntohs_eq hf hread (by omega)
    have hpad : f.length - 6 + 14 = f.length + 8 := by omega
    rw [getNumAggrpkts]
    simp only [hpkt, hpad]
    rw [if_neg (by omega), if_neg (by omega), length_cons]
    dsimp only
    congr 1
    rcases amsduLen_cons f fs with ⟨hfs, htotal⟩ | ⟨rfl, htotal⟩
    · have hnext : a + (f.length - 6 + padLen (f.length + 8) + 14) = a + (f.length + 8 + padLen (f.length + 8)) := by
        omega
      rw [hnext, amsduLen_sub hf hfs]
      exact ih (fun g hg => hlen g (mem_cons_of_mem f hg)) (by omega) hrest hfs
    · rw [getNumAggrpkts, if_pos (by omega)]
      rfl

/-! ## The round trip -/

/-- `MLAN_RX_DATA_BUF_SIZE`. -/
def rxDataBufSize : ℕ := 4096

/-- What is aggregated is taken apart into the same frames, in the same order. -/
theorem deaggregateLoop_aggregatePkt (cfg : DeaggrCfg) (m : Mem) (buf : ℕ) (hne : frames ≠ [])
    (hlen : ∀ f ∈ frames, 14 ≤ f.length) (hsize : (aggregatePkt m buf frames).2 ≤ rxDataBufSize) :
    deaggregateLoop cfg (fun _ => true) 0 (aggregatePkt m buf frames).1 buf (aggregatePkt m buf frames).2 =
      frames.map fun f => (route cfg f, f) := by
  have hlaid : Laid (aggregatePkt m buf frames).1 buf frames := aggregateLoop_laid hlen buf 0
  rw [aggregatePkt_length hne] at hsize ⊢
  rw [deaggregateLoop_laid cfg _ 0 hlen hsize hlaid hne]
  have hall : (frames.zipIdx 0).takeWhile (fun _ => true) = frames.zipIdx 0 :=
    takeWhile_eq_self_iff.mpr fun _ _ => rfl
  rw [hall]
  conv_rhs => rw [← zipIdx_map_fst 0 frames, map_map]
  rfl

/-- **Round trip.** Frames that are aggregated, without the last pad, are taken apart into the same frames in the
same order, and counted right; the builder in place makes the same subframe of every frame. -/
theorem amsdu_roundTrip (cfg : DeaggrCfg) (m : Mem) (buf : ℕ) (frames : List (List UInt8)) (hne : frames ≠ [])
    (hlen : ∀ f ∈ frames, 14 ≤ f.length) (hsize : (aggregatePkt m buf frames).2 ≤ rxDataBufSize) :
    (deaggregateLoop cfg (fun _ => true) 0 (aggregatePkt m buf frames).1 buf (aggregatePkt m buf frames).2 =
        frames.map fun f => (route cfg f, f)) ∧
      (getNumAggrpkts cfg (aggregatePkt m buf frames).1 buf (aggregatePkt m buf frames).2).1 = frames.length ∧
      ∀ f : List UInt8, 14 ≤ f.length → ∀ (m' : Mem) (data : ℕ), 8 ≤ data → m'.read data f.length = f →
        (formAmsduSubframe m' data f.length).mem.read (formAmsduSubframe m' data f.length).dataOffset (f.length + 8) =
            (formAmsduPkt m buf f).mem.read buf (f.length + 8) ∧
          (formAmsduSubframe m' data f.length).pad = (formAmsduPkt m buf f).pad ∧
          (formAmsduSubframe m' data f.length).size = (formAmsduPkt m buf f).size := by
  refine ⟨deaggregateLoop_aggregatePkt cfg m buf hne hlen hsize, ?_, fun f hf m' data hdata hread => ⟨?_, rfl, rfl⟩⟩
  · have hlaid : Laid (aggregatePkt m buf frames).1 buf frames := aggregateLoop_laid hlen buf 0
    rw [aggregatePkt_length hne] at hsize ⊢
    exact getNumAggrpkts_laid cfg hlen hsize hlaid hne
  · rw [formAmsduSubframe_read hdata hf hread, formAmsduPkt_mem hf]
    have h := Mem.read_write m buf (subframe f)
    rw [length_subframe hf] at h
    exact h.symm

/-- Two frames, with and without a pad. -/
def twoFrames : List (List UInt8) :=
  [(List.range 15).map UInt8.ofNat, (List.range 21).map UInt8.ofNat]

/-- A station that sends EAPOL to the firmware. -/
def stationCfg : DeaggrCfg := ⟨false, fun _ => false, true, rxDataBufSize, false⟩

theorem amsdu_roundTrip_two :
    (deaggregateLoop stationCfg (fun _ => true) 0 (aggregatePkt (fun _ => 0) 100 twoFrames).1 100
      (aggregatePkt (fun _ => 0) 100 twoFrames).2).map Prod.snd = twoFrames := by
  have hsize : (aggregatePkt (fun _ => 0) 100 twoFrames).2 ≤ rxDataBufSize := by
    rw [aggregatePkt_length (by decide)]
    decide
  rw [(amsdu_roundTrip stationCfg (fun _ => 0) 100 twoFrames (by decide) (by decide) hsize).1]
  rfl

end WlanDriver.Aggr
