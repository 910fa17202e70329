import WlanDriver.Lib.Memory
import Mathlib.Data.Int.Order.Basic
import Mathlib.Data.Nat.Cast.Basic

/-!
# Receive de-aggregation on USB

`wlan_usb_deaggr_rx_pkt` takes the packets of a received buffer one behind the other, each at an aligned place, copies each to a
buffer of its own and hands it on. How long a packet is, its descriptor says, and nothing compares that with what is left. The
walk ends at a descriptor that is blank, `wlan_usb_deaggr_rx_num_pkts` at one whose length is zero : at a descriptor with
something in it and no length the walk stays where it is.

`right_iff` : the call is right, whatever allocations and handlers do, exactly where the buffer has a single packet, or
de-aggregation is enabled and each descriptor that is reached has a length, which is at most what is left.
-/

namespace WlanDriver.Usb

open List

/-- `sizeof(RxPD)`. -/
def sizeofRxPD : ℕ := 48

/-- `mlan_status`, as `wlan_handle_rx_packet` returns it. -/
inductive RxStatus
  | success
  | failure
  | pending
  deriving DecidableEq

/-- What a call is given : the octets from `pbuf + data_offset` on, their number, and the aggregation control. -/
structure RxInput where
  buf : Mem
  dataLen : UInt32
  enable : UInt16
  aggrAlign : UInt16
  len_le : sizeofRxPD ≤ dataLen.toNat
  align_ne : aggrAlign ≠ 0

/-- What the functions outside answer : whether there is a buffer for the `k`-th packet, and what `wlan_handle_rx_packet`
returns for the `k`-th copy and for the buffer itself. -/
structure RxAnswers where
  alloc : ℕ → Bool
  handleCopy : ℕ → RxStatus
  handleSelf : RxStatus

/-- What is done with the buffer, and with the copies of its octets. -/
inductive RxAct
  | handleSelf
  | handleCopy (octets : Span)
  | recvComplete (ret : RxStatus)
  deriving DecidableEq

namespace RxInput

variable (b : RxInput)

/-- A number of 16 bits, low octet first. -/
def le16 (a : ℕ) : ℕ :=
  (b.buf a).toNat + 256 * (b.buf (a + 1)).toNat

/-- `curr_pkt_len`, as the descriptor at `pdata` has it : `rx_pkt_length + rx_pkt_offset`. -/
def currPktLen (pdata : ℕ) : ℕ :=
  b.le16 (pdata + 2) + b.le16 (pdata + 4)

/-- The length up to the next block boundary. -/
def padded (len : ℕ) : ℕ :=
  if len % b.aggrAlign.toNat ≠ 0 then len + (b.aggrAlign.toNat - len % b.aggrAlign.toNat) else len

/-- `data_len` as a signed number. -/
def aggrLen : ℤ :=
  b.dataLen.toBitVec.toInt

/-- The loop of `wlan_usb_deaggr_rx_num_pkts`, `none` if it is not through with `fuel` turns. -/
def numPkts : ℕ → ℕ → ℤ → Option ℕ
  | 0, _, _ => none
  | fuel + 1, pdata, len =>
    if len < sizeofRxPD then some 0
    else if b.currPktLen pdata = 0 then some 0
    else if len = b.currPktLen pdata then some 1
    else (numPkts fuel (pdata + b.padded (b.currPktLen pdata)) (len - b.padded (b.currPktLen pdata))).map (· + 1)

/-- `wlan_usb_deaggr_rx_num_pkts`. -/
def deaggrRxNumPkts : Option ℕ :=
  b.numPkts (b.dataLen.toNat + 1) 0 b.aggrLen

/-- The descriptor that ends the walk : it is `zero_rx_pd`. -/
def Blank (pdata : ℕ) : Prop :=
  ∀ i < sizeofRxPD, b.buf (pdata + i) = 0

instance (pdata : ℕ) : Decidable (b.Blank pdata) :=
  inferInstanceAs (Decidable (∀ i < sizeofRxPD, _))

/-- The loop of `wlan_usb_deaggr_rx_pkt` from its `k`-th turn on, `none` if it is not through with `fuel` turns : the octets
of the copies that were handed on, and `ret`. -/
def loop (a : RxAnswers) : ℕ → ℕ → ℕ → ℤ → RxStatus → Option (List Span × RxStatus)
  | 0, _, _, _, _ => none
  | fuel + 1, k, pdata, len, ret =>
    if len < sizeofRxPD then some ([], ret)
    else if b.Blank pdata then some ([], ret)
    else if a.alloc k = false then some ([], .failure)
    else if a.handleCopy k = .failure then some ([⟨pdata, b.currPktLen pdata⟩], .failure)
    else if len = b.currPktLen pdata then some ([⟨pdata, b.currPktLen pdata⟩], a.handleCopy k)
    else
      (loop a fuel (k + 1) (pdata + b.padded (b.currPktLen pdata)) (len - b.padded (b.currPktLen pdata))
        (a.handleCopy k)).map fun r => (⟨pdata, b.currPktLen pdata⟩ :: r.1, r.2)

/-- `wlan_usb_deaggr_rx_pkt`; `MTRUE` is 1. -/
def deaggrRxPkt (a : RxAnswers) (fuel : ℕ) : Option (List RxAct × RxStatus) :=
  if b.aggrLen = b.currPktLen 0 ∨ b.deaggrRxNumPkts = some 1 ∨ b.enable ≠ 1 then some ([.handleSelf], a.handleSelf)
  else (b.loop a fuel 0 0 b.aggrLen .success).map fun r => (r.1.map .handleCopy ++ [.recvComplete r.2], r.2)

/-! ## What a call should do -/

/-- The octets of the copies, in the order in which they are handed on. -/
def copies (acts : List RxAct) : List Span :=
  acts.filterMap fun
    | .handleCopy octets => some octets
    | _ => none

/-- How many packets are handed on. -/
def handedOn (acts : List RxAct) : ℕ :=
  acts.countP fun
    | .recvComplete _ => false
    | _ => true

/-- How often the buffer itself is handed on or completed. -/
def disposals (acts : List RxAct) : ℕ :=
  acts.countP fun
    | .handleCopy _ => false
    | _ => true

/-- No allocation and no handler fails. -/
def NoFailure (a : RxAnswers) : Prop :=
  (∀ k, a.alloc k = true ∧ a.handleCopy k ≠ .failure) ∧ a.handleSelf ≠ .failure

/-- The copies lie in what was received, in its order and apart, there are as many as were counted, and the buffer itself is
handed on or completed, once. -/
structure Fine (a : RxAnswers) (acts : List RxAct) : Prop where
  inside : ∀ c ∈ copies acts, c.Inside 0 b.dataLen.toNat
  ordered : (copies acts).Pairwise fun c d => c.start + c.len ≤ d.start
  count : NoFailure a → b.deaggrRxNumPkts = some (handedOn acts)
  once : disposals acts = 1

/-- The call ends, and what it did is fine. -/
def Right (a : RxAnswers) : Prop :=
  ∃ fuel acts ret, b.deaggrRxPkt a fuel = some (acts, ret) ∧ b.Fine a acts

/-- The walk comes to `pdata` with `len` octets left. -/
inductive Reached : ℕ → ℤ → Prop
  | start : Reached 0 b.aggrLen
  | next {pdata : ℕ} {len : ℤ} (h : Reached pdata len) (hlen : sizeofRxPD ≤ len) (hblank : ¬ b.Blank pdata)
      (hlast : len ≠ b.currPktLen pdata) :
      Reached (pdata + b.padded (b.currPktLen pdata)) (len - b.padded (b.currPktLen pdata))

/-- Each descriptor that is reached and not blank has a length, which is at most what is left. -/
def WellFormed : Prop :=
  ∀ pdata len, b.Reached pdata len → (sizeofRxPD : ℤ) ≤ len → ¬ b.Blank pdata →
    0 < b.currPktLen pdata ∧ b.currPktLen pdata ≤ len

/-- There is a first packet, and none behind it. -/
def Single : Prop :=
  (sizeofRxPD : ℤ) ≤ b.aggrLen ∧ 0 < b.currPktLen 0 ∧
    (b.aggrLen = b.currPktLen 0 ∨ b.aggrLen - b.padded (b.currPktLen 0) < sizeofRxPD ∨
      b.currPktLen (b.padded (b.currPktLen 0)) = 0)

/-! ## Lengths -/

variable {b} {a : RxAnswers} {fuel k pdata : ℕ} {len : ℤ} {ret : RxStatus}

theorem le_padded (b : RxInput) (n : ℕ) : n ≤ b.padded n := by
  unfold padded
  split
  · exact Nat.le_add_right _ _
  · exact le_rfl

@[simp] theorem padded_zero (b : RxInput) : b.padded 0 = 0 := by
  simp [padded]

/-- As a signed number the length is what it is, or negative. -/
theorem aggrLen_cases (b : RxInput) : b.aggrLen = b.dataLen.toNat ∨ b.aggrLen < 0 ∧ b.aggrLen ≤ b.dataLen.toNat := by
  have htoInt := BitVec.toInt_eq_toNat_cond b.dataLen.toBitVec
  have hnat : b.dataLen.toBitVec.toNat = b.dataLen.toNat := rfl
  have hlt := b.dataLen.toNat_lt
  unfold aggrLen
  rw [htoInt, hnat]
  split <;> omega

theorem Blank.currPktLen_eq (h : b.Blank pdata) : b.currPktLen pdata = 0 := by
  have hzero : ∀ i, i < sizeofRxPD → (b.buf (pdata + i)).toNat = 0 := fun i hi => by rw [h i hi]; rfl
  simp [currPktLen, le16, Nat.add_assoc, hzero 2 (by decide), hzero 3 (by decide), hzero 4 (by decide),
    hzero 5 (by decide)]

theorem Reached.add_eq (h : b.Reached pdata len) : (pdata : ℤ) + len = b.aggrLen := by
  induction h with
  | start => simp
  | next _ _ _ _ ih =>
    push_cast
    omega

/-! ## The packets that are counted -/

theorem numPkts_eq_zero_iff (b : RxInput) (fuel pdata : ℕ) (len : ℤ) :
    b.numPkts (fuel + 1) pdata len = some 0 ↔ len < sizeofRxPD ∨ b.currPktLen pdata = 0 := by
  unfold numPkts
  split_ifs with hlen hzero hlast
  · simp [hlen]
  · simp [hzero]
  · simp [hlen, hzero]
  · simp [hlen, hzero]

/-- One packet is counted where there is a single one. -/
theorem deaggrRxNumPkts_eq_one_iff (b : RxInput) : b.deaggrRxNumPkts = some 1 ↔ b.Single := by
  have hfuel : b.dataLen.toNat = b.dataLen.toNat - 1 + 1 := by
    have hle := b.len_le
    unfold sizeofRxPD at hle
    omega
  unfold deaggrRxNumPkts Single
  rw [numPkts, Nat.zero_add]
  split_ifs with hlen hzero hlast
  · simp [not_le.mpr hlen]
  · simp [hzero]
  · exact iff_of_true rfl ⟨not_lt.mp hlen, Nat.pos_of_ne_zero hzero, .inl hlast⟩
  · have hone : ∀ o : Option ℕ, o.map (· + 1) = some 1 ↔ o = some 0 := by
      rintro (_ | n) <;> simp
    rw [hone, hfuel, numPkts_eq_zero_iff]
    simp [not_lt.mp hlen, Nat.pos_of_ne_zero hzero, hlast]

/-- Where the first packet fills the buffer there is a single one. -/
theorem single_of_aggrLen_eq (h : b.aggrLen = b.currPktLen 0) : b.Single := by
  have hsize := b.len_le
  have hlen : (sizeofRxPD : ℤ) ≤ b.aggrLen := by
    have hcases := aggrLen_cases b
    omega
  refine ⟨hlen, ?_, .inl h⟩
  unfold sizeofRxPD at hlen
  omega

/-- The buffer itself is handed on where it has a single packet, or de-aggregation is not enabled. -/
theorem deaggrRxPkt_of_single (h : b.Single ∨ b.enable ≠ 1) (fuel : ℕ) :
    b.deaggrRxPkt a fuel = some ([.handleSelf], a.handleSelf) := by
  rw [deaggrRxPkt, if_pos (.inr (h.imp_left (deaggrRxNumPkts_eq_one_iff b).mpr))]

/-- The walk is made where there is not a single packet, and de-aggregation is enabled. -/
theorem deaggrRxPkt_of_not_single (hsingle : ¬ b.Single) (henable : b.enable = 1) (fuel : ℕ) :
    b.deaggrRxPkt a fuel =
      (b.loop a fuel 0 0 b.aggrLen .success).map fun r => (r.1.map .handleCopy ++ [.recvComplete r.2], r.2) := by
  rw [deaggrRxPkt, if_neg]
  rintro (hlen | hone | hoff)
  · exact hsingle (single_of_aggrLen_eq hlen)
  · exact hsingle ((deaggrRxNumPkts_eq_one_iff b).mp hone)
  · exact hoff henable

/-! ## A walk through well-formed descriptors -/

/-- What the walk does from `pdata` on : the copies lie in what is left, in its order and apart, and there are as many as are
counted. -/
structure Walked (b : RxInput) (a : RxAnswers) (fuel pdata : ℕ) (len : ℤ) (spans : List Span) : Prop where
  inside : ∀ c ∈ spans, pdata ≤ c.start ∧ (c.start + c.len : ℤ) ≤ pdata + len
  ordered : spans.Pairwise fun c d => c.start + c.len ≤ d.start
  count : NoFailure a → b.numPkts fuel pdata len = some spans.length

theorem Walked.nil (h : NoFailure a → b.numPkts fuel pdata len = some 0) : Walked b a fuel pdata len [] where
  inside := by simp
  ordered := .nil
  count := h

theorem Walked.single (hle : b.currPktLen pdata ≤ len) (h : NoFailure a → b.numPkts fuel pdata len = some 1) :
    Walked b a fuel pdata len [⟨pdata, b.currPktLen pdata⟩] where
  inside := by
    intro c hc
    rw [mem_singleton.mp hc]
    exact ⟨le_rfl, by simpa using hle⟩
  ordered := pairwise_singleton _ _
  count := h

/-- A copy, and the walk from the next descriptor on. -/
theorem Walked.cons {spans : List Span} (hle : b.currPktLen pdata ≤ len) (hlen : (sizeofRxPD : ℤ) ≤ len)
    (hpos : 0 < b.currPktLen pdata) (hlast : len ≠ b.currPktLen pdata)
    (h : Walked b a fuel (pdata + b.padded (b.currPktLen pdata)) (len - b.padded (b.currPktLen pdata)) spans) :
    Walked b a (fuel + 1) pdata len (⟨pdata, b.currPktLen pdata⟩ :: spans) where
  inside := by
    intro c hc
    rcases mem_cons.mp hc with rfl | hc
    · exact ⟨le_rfl, by simpa using hle⟩
    · have hin := h.inside c hc
      push_cast at hin
      omega
  ordered := by
    refine pairwise_cons.mpr ⟨fun c hc => ?_, h.ordered⟩
    have hpad := le_padded b (b.currPktLen pdata)
    have hin := (h.inside c hc).1
    change pdata + b.currPktLen pdata ≤ c.start
    omega
  count := by
    intro hok
    rw [numPkts, if_neg (not_lt.mpr hlen), if_neg hpos.ne', if_neg hlast, h.count hok]
    rfl

/-- Through well-formed descriptors the walk ends. -/
theorem WellFormed.loop (h : b.WellFormed) (hreach : b.Reached pdata len) (hfuel : len.toNat < fuel) :
    ∃ spans ret', b.loop a fuel k pdata len ret = some (spans, ret') ∧ Walked b a fuel pdata len spans := by
  induction fuel generalizing k pdata len ret with
  | zero => omega
  | succ fuel ih =>
    unfold RxInput.loop
    by_cases hlen : len < sizeofRxPD
    · rw [if_pos hlen]
      exact ⟨[], ret, rfl, .nil fun _ => (numPkts_eq_zero_iff b fuel pdata len).mpr (.inl hlen)⟩
    by_cases hblank : b.Blank pdata
    · rw [if_neg hlen, if_pos hblank]
      exact ⟨[], ret, rfl, .nil fun _ => (numPkts_eq_zero_iff b fuel pdata len).mpr (.inr hblank.currPktLen_eq)⟩
    obtain ⟨hpos, hle⟩ := h pdata len hreach (not_lt.mp hlen) hblank
    rw [if_neg hlen, if_neg hblank]
    by_cases halloc : a.alloc k = false
    · rw [if_pos halloc]
      exact ⟨[], .failure, rfl, .nil fun hok => by simp [(hok.1 k).1] at halloc⟩
    by_cases hhandle : a.handleCopy k = .failure
    · rw [if_neg halloc, if_pos hhandle]
      exact ⟨_, .failure, rfl, .single hle fun hok => absurd hhandle (hok.1 k).2⟩
    rw [if_neg halloc, if_neg hhandle]
    by_cases hlast : len = b.currPktLen pdata
    · rw [if_pos hlast]
      refine ⟨_, _, rfl, .single hle fun _ => ?_⟩
      rw [numPkts, if_neg hlen, if_neg hpos.ne', if_pos hlast]
    · have hpad := le_padded b (b.currPktLen pdata)
      obtain ⟨spans, ret', hloop, hwalk⟩ := @ih (k + 1) _ _ (a.handleCopy k)
        (hreach.next (not_lt.mp hlen) hblank hlast) (by unfold sizeofRxPD at hlen; omega)
      rw [if_neg hlast, hloop]
      exact ⟨_, ret', rfl, hwalk.cons hle (not_lt.mp hlen) hpos hlast⟩

/-! ## A walk to a descriptor that is not -/

/-- At a descriptor with something in it and no length the walk stays. -/
theorem loop_of_zero (hlen : (sizeofRxPD : ℤ) ≤ len) (hblank : ¬ b.Blank pdata) (hzero : b.currPktLen pdata = 0)
    (hok : NoFailure a) : b.loop a fuel k pdata len ret = none := by
  induction fuel generalizing k ret with
  | zero => rfl
  | succ fuel ih =>
    have hlast : len ≠ ((0 : ℕ) : ℤ) := by
      unfold sizeofRxPD at hlen
      omega
    unfold loop
    rw [if_neg (not_lt.mpr hlen), if_neg hblank, if_neg (by simp [(hok.1 k).1]), if_neg (hok.1 k).2, hzero, if_neg hlast,
      padded_zero, Nat.add_zero pdata, show len - ((0 : ℕ) : ℤ) = len from Int.sub_zero len, ih]
    rfl

/-- A walk that is through came by all descriptors that are reached. -/
theorem loop_of_reached {spans : List Span} {ret' : RxStatus} (hok : NoFailure a)
    (hloop : b.loop a fuel 0 0 b.aggrLen .success = some (spans, ret')) (h : b.Reached pdata len) :
    ∃ fuel' k' ret₁ spans' ret₂, b.loop a fuel' k' pdata len ret₁ = some (spans', ret₂) ∧ ∀ c ∈ spans', c ∈ spans := by
  induction h with
  | start => exact ⟨fuel, 0, .success, spans, ret', hloop, fun _ hc => hc⟩
  | @next pdata len hreach hlen hblank hlast ih =>
    obtain ⟨fuel', k', ret₁, spans', ret₂, hrun, hsub⟩ := ih
    cases fuel' with
    | zero => simp [loop] at hrun
    | succ fuel' =>
      rw [loop, if_neg (not_lt.mpr hlen), if_neg hblank, if_neg (by simp [(hok.1 k').1]), if_neg (hok.1 k').2,
        if_neg hlast, Option.map_eq_some_iff] at hrun
      obtain ⟨r, hr, heq⟩ := hrun
      obtain ⟨rfl, rfl⟩ := Prod.mk.inj heq
      exact ⟨fuel', k' + 1, a.handleCopy k', r.1, r.2, hr, fun c hc => hsub c (mem_cons_of_mem _ hc)⟩

/-- A walk that is through copies the packet of a descriptor that it comes to. -/
theorem mem_of_loop {spans : List Span} {ret' : RxStatus} (hlen : (sizeofRxPD : ℤ) ≤ len) (hblank : ¬ b.Blank pdata)
    (hok : NoFailure a) (hloop : b.loop a fuel k pdata len ret = some (spans, ret')) :
    ⟨pdata, b.currPktLen pdata⟩ ∈ spans := by
  cases fuel with
  | zero => simp [loop] at hloop
  | succ fuel =>
    rw [loop, if_neg (not_lt.mpr hlen), if_neg hblank, if_neg (by simp [(hok.1 k).1]), if_neg (hok.1 k).2] at hloop
    split at hloop
    · simp only [Option.some.injEq, Prod.mk.injEq] at hloop
      simp [← hloop.1]
    · obtain ⟨r, hr, heq⟩ := Option.map_eq_some_iff.mp hloop
      simp only [Prod.mk.injEq] at heq
      simp [← heq.1]

/-! ## Calls -/

@[simp] theorem copies_walk (spans : List Span) (ret : RxStatus) :
    copies (spans.map .handleCopy ++ [.recvComplete ret]) = spans := by
  simp [copies, filterMap_append, filterMap_map]

@[simp] theorem handedOn_walk (spans : List Span) (ret : RxStatus) :
    handedOn (spans.map .handleCopy ++ [.recvComplete ret]) = spans.length := by
  simp [handedOn, countP_map, Function.comp_def]

@[simp] theorem disposals_walk (spans : List Span) (ret : RxStatus) :
    disposals (spans.map .handleCopy ++ [.recvComplete ret]) = 1 := by
  simp [disposals, countP_map, Function.comp_def]

/-- All goes well. -/
def allWell : RxAnswers where
  alloc := fun _ => true
  handleCopy := fun _ => .success
  handleSelf := .success

theorem noFailure_allWell : NoFailure allWell := by
  simp [NoFailure, allWell]

theorem Single.right (h : b.Single) (a : RxAnswers) : b.Right a := by
  refine ⟨0, _, _, deaggrRxPkt_of_single (.inl h) 0, ?_, ?_, ?_, ?_⟩
  · simp [copies]
  · simp [copies]
  · exact fun _ => (deaggrRxNumPkts_eq_one_iff b).mpr h
  · rfl

theorem WellFormed.right (h : b.WellFormed) (henable : b.enable = 1) (hsingle : ¬ b.Single) (a : RxAnswers) :
    b.Right a := by
  have hlen := aggrLen_cases b
  obtain ⟨spans, ret, hloop, hwalk⟩ := @WellFormed.loop b a (b.dataLen.toNat + 1) 0 0 b.aggrLen .success h
    .start (by omega)
  refine ⟨b.dataLen.toNat + 1, spans.map .handleCopy ++ [.recvComplete ret], ret, ?_, ?_⟩
  · rw [deaggrRxPkt_of_not_single hsingle henable, hloop]
    rfl
  · refine ⟨fun c hc => ?_, ?_, fun hok => ?_, ?_⟩
    · rw [copies_walk] at hc
      have hin := hwalk.inside c hc
      exact ⟨Nat.zero_le _, by omega⟩
    · rw [copies_walk]
      exact hwalk.ordered
    · rw [handedOn_walk]
      exact hwalk.count hok
    · exact disposals_walk spans ret

/-- A call that is right when all goes well made its walk through well-formed descriptors. -/
theorem wellFormed_of_right (hsingle : ¬ b.Single) (henable : b.enable = 1) (h : b.Right allWell) : b.WellFormed := by
  obtain ⟨fuel, acts, ret, hcall, hfine⟩ := h
  rw [deaggrRxPkt_of_not_single hsingle henable, Option.map_eq_some_iff] at hcall
  obtain ⟨⟨spans, ret'⟩, hloop, heq⟩ := hcall
  obtain ⟨rfl, rfl⟩ := Prod.mk.inj heq
  intro pdata len hreach hlen hblank
  obtain ⟨fuel', k, ret₁, spans', ret₂, hrun, hsub⟩ := loop_of_reached noFailure_allWell hloop hreach
  have hmem := hsub _ (mem_of_loop hlen hblank noFailure_allWell hrun)
  have hin := hfine.inside _ (by rwa [copies_walk])
  constructor
  · by_contra hzero
    rw [loop_of_zero hlen hblank (Nat.eq_zero_of_not_pos hzero) noFailure_allWell] at hrun
    cases hrun
  · have hadd := hreach.add_eq
    have hcases := aggrLen_cases b
    have hle : pdata + b.currPktLen pdata ≤ 0 + b.dataLen.toNat := hin.2
    unfold sizeofRxPD at hlen
    omega

/-! ## When a call is right -/

/-- A call is right, whatever the functions outside answer, exactly where the buffer has a single packet, or de-aggregation is
enabled and each descriptor that is reached and not blank has a length, which is at most what is left. -/
theorem right_iff (b : RxInput) : (∀ a, b.Right a) ↔ b.Single ∨ b.enable = 1 ∧ b.WellFormed := by
  constructor
  · intro h
    by_cases hsingle : b.Single
    · exact .inl hsingle
    by_cases henable : b.enable = 1
    · exact .inr ⟨henable, wellFormed_of_right hsingle henable (h allWell)⟩
    · -- the buffer is handed on as it is, and counts as one packet
      obtain ⟨fuel, acts, ret, hcall, hfine⟩ := h allWell
      rw [deaggrRxPkt_of_single (.inr henable), Option.some.injEq, Prod.mk.injEq] at hcall
      obtain ⟨rfl, rfl⟩ := hcall
      have hcount := hfine.count noFailure_allWell
      exact .inl ((deaggrRxNumPkts_eq_one_iff b).mp hcount)
  · rintro (hsingle | ⟨henable, hwell⟩) a
    · exact hsingle.right a
    · by_cases hsingle : b.Single
      · exact hsingle.right a
      · exact hwell.right henable hsingle a

/-- Two packets, of which the second says that it has more octets than were received. -/
def overlong : RxInput where
  buf := fun i => if i = 4 then 48 else if i = 52 then 100 else 0
  dataLen := 96
  enable := 1
  aggrAlign := 4
  len_le := by decide
  align_ne := by decide

/-- The second of the packets is copied with octets from behind the buffer. -/
theorem not_right_overlong : ¬ ∀ a, overlong.Right a := by
  intro h
  have hsingle : ¬ overlong.Single := by
    unfold Single
    decide
  have hwell := wellFormed_of_right hsingle rfl (h allWell)
  have hreach : overlong.Reached 48 48 := Reached.start.next (by decide) (by decide) (by decide)
  exact absurd (hwell 48 48 hreach (by decide) (by decide)).2 (by decide)

end RxInput

end WlanDriver.Usb
