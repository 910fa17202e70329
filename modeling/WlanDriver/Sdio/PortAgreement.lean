import Mathlib.Data.List.Sort
import WlanDriver.Sdio.MultiPort

/-!
# Order and ports of the SDIO writes

A run of the transmit path cuts the packets that got a port into the groups that one write carries and the packets that
are still in the buffer. `Pending` ties the buffer's counters and its port mask to the packets it holds, and from it
follows that the address of the next write stands for their ports (`Pending.carries`).

`packets_agree_with_ports` : where the ports fit the mode (`Card.PortsFit`), this holds in every run, and a call leaves a
packet in the buffer only if another call follows. The path that puts a packet into the buffer behind a flush does not
look at the port limit, which `short_card_loses_port` shows on a card with ten ports.
-/

namespace WlanDriver.Sdio

open List

variable {c : Card} {s s' : MpaTx} {data : List UInt8} {port p k n : ℕ} {pend cur : List (List UInt8 × ℕ)}

/-! ## Ports -/

namespace Card

theorem values_of_old (h : c.newMode = false) :
    startWrPort c.newMode = 1 ∧ maxPorts c.newMode = 16 ∧ mpAggrPktLimit c.newMode = 8 := by
  rw [h]
  decide

theorem values_of_new (h : c.newMode = true) :
    startWrPort c.newMode = 0 ∧ maxPorts c.newMode = 32 ∧ mpAggrPktLimit c.newMode = 16 := by
  rw [h]
  decide

/-- A write port of the card. -/
def IsPort (c : Card) (p : ℕ) : Prop :=
  startWrPort c.newMode ≤ p ∧ p < c.mpEndPort

theorem IsPort.next (h : c.IsPort p) : c.IsPort (c.nextPort p) := by
  have := c.start_lt_end
  unfold IsPort nextPort at *
  split_ifs <;> omega

theorem portAt_zero (h : c.IsPort p) : c.portAt p 0 = p := by
  rw [portAt, if_pos (by simpa using h.2), Nat.add_zero]

theorem nextPort_portAt (h : c.IsPort p) (hk : k + 1 ≤ c.mpEndPort - startWrPort c.newMode) :
    c.nextPort (c.portAt p k) = c.portAt p (k + 1) := by
  unfold IsPort at h
  unfold nextPort portAt
  split_ifs <;> omega

theorem portAt_one (h : c.IsPort p) : c.portAt p 1 = c.nextPort p := by
  have := c.start_lt_end
  rw [← nextPort_portAt h (by omega), portAt_zero h]

theorem isPort_portAt (h : c.IsPort p) (hk : k < c.mpEndPort - startWrPort c.newMode) : c.IsPort (c.portAt p k) := by
  unfold IsPort at *
  unfold portAt
  split_ifs <;> omega

theorem portAt_injOn {j : ℕ} (hj : j < c.mpEndPort - startWrPort c.newMode)
    (hk : k < c.mpEndPort - startWrPort c.newMode) (heq : c.portAt p j = c.portAt p k) : j = k := by
  unfold portAt at heq
  split_ifs at heq <;> omega

/-- The bit of `ports` for the `k`-th packet from the port `p` on. -/
def bitAt (c : Card) (p k : ℕ) : ℕ :=
  if c.newMode then c.portAt p k
  else if p + k < c.mpEndPort then k else k + startWrPort c.newMode + (maxPorts c.newMode - c.mpEndPort)

theorem bitAt_of_old (h : c.newMode = false) :
    c.bitAt p k = if p + k < c.mpEndPort then k else k + 1 + (16 - c.mpEndPort) := by
  obtain ⟨hs, hm, -⟩ := values_of_old h
  simp only [bitAt, h, Bool.false_eq_true, if_false]
  rw [h] at hs hm
  rw [hs, hm]

theorem bitAt_lt_of_old (h : c.newMode = false) {j : ℕ} (hjk : j < k) : c.bitAt p j < c.bitAt p k := by
  rw [bitAt_of_old h, bitAt_of_old h]
  split_ifs <;> omega

theorem add_bitAt_mod (h : c.newMode = false) (hp : c.IsPort p) (hk : k < c.mpEndPort - startWrPort c.newMode) :
    (p + c.bitAt p k) % 16 = c.portAt p k := by
  obtain ⟨hs, hm, -⟩ := values_of_old h
  have hend := c.end_le_max
  unfold IsPort at hp
  rw [bitAt_of_old h, portAt]
  split_ifs <;> omega

end Card

/-! ## Addresses -/

/-- Fields of an address that do not meet are added. -/
theorem lor_fields {io v : ℕ} (hio : io % 0x2000 = 0) (hv : v < 0x1000) :
    io ||| mpaAddrBase ||| v = io + mpaAddrBase + v := by
  have hlow : mpaAddrBase ||| v = mpaAddrBase + v := by
    have := Nat.two_pow_add_eq_or_of_lt (i := 12) hv 1
    simpa [mpaAddrBase] using this.symm
  have hhigh : io ||| (mpaAddrBase + v) = io + (mpaAddrBase + v) := by
    have hio' : io = 2 ^ 13 * (io / 2 ^ 13) := by omega
    have hlt : mpaAddrBase + v < 2 ^ 13 := by
      unfold mpaAddrBase
      omega
    rw [hio']
    exact (Nat.two_pow_add_eq_or_of_lt hlt _).symm
  rw [Nat.lor_assoc, hlow, hhigh, Nat.add_assoc]

namespace Card

/-- The address of a packet alone. -/
theorem portsOf_single (hp : c.IsPort p) : c.portsOf (c.ioport + p) = [p] := by
  have hmax : maxPorts c.newMode ≤ 32 := by
    unfold maxPorts
    split_ifs <;> omega
  have hend := c.end_le_max
  have hp' := hp.2
  rw [portsOf, Nat.add_sub_cancel_left, if_pos (by unfold mpaAddrBase; omega)]

/-- The address of a write in the new mode. -/
theorem portsOf_new (h : c.newMode = true) (hp : c.IsPort p) (hn : 0 < n) (hn' : n ≤ 16) :
    c.portsOf ((c.ioport ||| mpaAddrBase ||| (n - 1) <<< 8) + p) = (List.range n).map (c.portAt p) := by
  obtain ⟨-, hm, -⟩ := values_of_new h
  have hend := c.end_le_max
  have hp' := hp.2
  rw [Nat.shiftLeft_eq, lor_fields c.ioport_low (by omega)]
  have hx : c.ioport + mpaAddrBase + (n - 1) * 2 ^ 8 + p - c.ioport = mpaAddrBase + (n - 1) * 2 ^ 8 + p := by omega
  have hbase : mpaAddrBase = 4096 := rfl
  have hcount : (mpaAddrBase + (n - 1) * 2 ^ 8 + p) / 256 % 16 + 1 = n := by omega
  have hstart : (mpaAddrBase + (n - 1) * 2 ^ 8 + p) % 256 = p := by omega
  rw [portsOf, hx, if_neg (by omega), if_pos h, hcount, hstart]

/-- The address of a write in the old mode, with the port mask `m`. -/
theorem portsOf_old {m : ℕ} (h : c.newMode = false) (hp : c.IsPort p) (hn : n ≤ c.mpEndPort - startWrPort c.newMode)
    (hbits : ∀ k < n, c.bitAt p k < 8) (hm : ∀ i, m.testBit i = true ↔ ∃ k < n, c.bitAt p k = i) :
    c.portsOf ((c.ioport ||| mpaAddrBase ||| m <<< 4) + p) = (List.range n).map (c.portAt p) := by
  obtain ⟨-, hmax, -⟩ := values_of_old h
  have hend := c.end_le_max
  have hp' := hp.2
  have hlt : m < 2 ^ 8 := by
    refine Nat.lt_pow_two_of_testBit m fun i hi => ?_
    by_contra hset
    obtain ⟨k, hk, rfl⟩ := (hm i).mp (by simpa using hset)
    exact absurd (hbits k hk) (by omega)
  rw [Nat.shiftLeft_eq, lor_fields c.ioport_low (by omega)]
  have hx : c.ioport + mpaAddrBase + m * 2 ^ 4 + p - c.ioport = mpaAddrBase + m * 2 ^ 4 + p := by omega
  have hbase : mpaAddrBase = 4096 := rfl
  have hmask : (mpaAddrBase + m * 2 ^ 4 + p) / 16 % 256 = m := by omega
  have hstart : (mpaAddrBase + m * 2 ^ 4 + p) % 16 = p := by omega
  rw [portsOf, hx, if_neg (by omega), h, if_neg (by decide), hmask, hstart]
  -- the bits in order are those of the packets in order
  have hfilter : ((List.range 8).filter fun j => m.testBit j) = (List.range n).map (c.bitAt p) := by
    refine List.Pairwise.eq_of_mem_iff (r := (· < ·)) (List.Pairwise.filter _ pairwise_lt_range) ?_ fun i => ?_
    · exact pairwise_map.mpr (pairwise_lt_range.imp fun hjk => bitAt_lt_of_old h hjk)
    · simp only [mem_filter, mem_range, mem_map, hm i]
      constructor
      · rintro ⟨-, k, hk, rfl⟩
        exact ⟨k, hk, rfl⟩
      · rintro ⟨k, hk, rfl⟩
        exact ⟨hbits k hk, k, hk, rfl⟩
  rw [hfilter, map_map]
  refine map_congr_left fun k hk => ?_
  exact add_bitAt_mod h hp (lt_of_lt_of_le (mem_range.mp hk) hn)

end Card

/-- Distinct ports have as many bits. -/
theorem bitcount_eq {m : ℕ} (h : c.newMode = true) (hp : c.IsPort p) (hn : n ≤ c.mpEndPort - startWrPort c.newMode)
    (hm : ∀ i, m.testBit i = true ↔ ∃ k < n, c.bitAt p k = i) : MpaTx.bitcount m = n := by
  obtain ⟨-, hmax, -⟩ := Card.values_of_new h
  have hend := c.end_le_max
  have hbit : ∀ k, c.bitAt p k = c.portAt p k := fun k => by simp only [Card.bitAt, h, if_true]
  have hperm : ((List.range 32).filter fun i => m.testBit i).Perm ((List.range n).map (c.portAt p)) := by
    refine (perm_ext_iff_of_nodup (nodup_range.filter _) ?_).mpr fun i => ?_
    · refine List.Nodup.map_on (fun j hj k hk heq => ?_) nodup_range
      rw [mem_range] at hj hk
      exact Card.portAt_injOn (by omega) (by omega) heq
    · simp only [mem_filter, mem_range, mem_map, hm i, hbit]
      constructor
      · rintro ⟨-, k, hk, rfl⟩
        exact ⟨k, hk, rfl⟩
      · rintro ⟨k, hk, rfl⟩
        have := (Card.isPort_portAt hp (lt_of_lt_of_le hk hn)).2
        exact ⟨by omega, k, hk, rfl⟩
  rw [MpaTx.bitcount, countP_eq_length_filter, hperm.length_eq, length_map, length_range]

/-! ## The buffer -/

/-- The buffer holds the packets `pend`. -/
structure Pending (c : Card) (s : MpaTx) (pend : List (List UInt8 × ℕ)) : Prop where
  count : pend.length = s.pktCnt
  count_le : s.pktCnt ≤ c.pktAggrLimit
  bufLen : s.bufLen = (pend.flatMap Prod.fst).length
  bufLen_le : s.bufLen ≤ c.bufSize
  sent : if c.sg then (List.range s.pktCnt).map s.mbufArr = pend.map Prod.fst
    else s.buf.read 0 s.bufLen = pend.flatMap Prod.fst
  ports : pend.map Prod.snd = (List.range s.pktCnt).map (c.portAt s.startPort)
  mask : ∀ i, s.ports.testBit i = true ↔ ∃ k < s.pktCnt, c.bitAt s.startPort k = i
  bits : c.newMode = false → ∀ k < s.pktCnt, c.bitAt s.startPort k < 8
  start : s.pktCnt ≠ 0 → c.IsPort s.startPort

/-- The bit that a packet's port gets is the one that its place in the write asks for. -/
theorem MpaTx.portBit_eq (s : MpaTx) {start port : ℕ} (hstart : c.IsPort start) (hat : port = c.portAt start s.pktCnt)
    (hcnt : s.pktCnt < c.mpEndPort - startWrPort c.newMode) : s.portBit c start port = c.bitAt start s.pktCnt := by
  unfold MpaTx.portBit
  split_ifs with hmode hle
  · rw [Card.bitAt, if_pos hmode, hat]
  · have hold : c.newMode = false := by simpa using hmode
    obtain ⟨hs, -, -⟩ := Card.values_of_old hold
    unfold Card.IsPort at hstart
    rw [hat, Card.portAt] at hle
    rw [Card.bitAt_of_old hold]
    split_ifs at hle ⊢ <;> omega
  · have hold : c.newMode = false := by simpa using hmode
    obtain ⟨hs, hm, -⟩ := Card.values_of_old hold
    unfold Card.IsPort at hstart
    rw [hat, Card.portAt] at hle
    rw [Card.bitAt_of_old hold, hm]
    split_ifs at hle ⊢ <;> omega

namespace Pending

theorem nil (hcnt : s.pktCnt = 0) (hlen : s.bufLen = 0) (hports : s.ports = 0) : Pending c s [] where
  count := hcnt.symm
  count_le := by omega
  bufLen := hlen
  bufLen_le := by omega
  sent := by
    rw [hcnt, hlen]
    split_ifs <;> rfl
  ports := by
    rw [hcnt]
    rfl
  mask := by simp [hcnt, hports]
  bits := by simp [hcnt]
  start := fun h => absurd hcnt h

/-- The packets do not depend on the rest of the path. -/
theorem congr (h : Pending c s pend) (hbuf : s'.buf = s.buf) (harr : s'.mbufArr = s.mbufArr)
    (hlen : s'.bufLen = s.bufLen) (hcnt : s'.pktCnt = s.pktCnt) (hports : s'.ports = s.ports)
    (hstart : s'.startPort = s.startPort) : Pending c s' pend := by
  constructor
  · rw [hcnt]; exact h.count
  · rw [hcnt]; exact h.count_le
  · rw [hlen]; exact h.bufLen
  · rw [hlen]; exact h.bufLen_le
  · rw [hcnt, harr, hbuf, hlen]; exact h.sent
  · rw [hcnt, hstart]; exact h.ports
  · rw [hcnt, hstart, hports]; exact h.mask
  · rw [hcnt, hstart]; exact h.bits
  · rw [hcnt, hstart]; exact h.start

/-- A write of the buffer carries its packets and says their ports. -/
theorem carries (h : Pending c s pend) (hfit : c.pktAggrLimit ≤ c.mpEndPort - startWrPort c.newMode)
    (hcnt : s.pktCnt ≠ 0) :
    c.Carries pend ⟨s.cmd53Port c, if c.sg then (List.range s.pktCnt).flatMap s.mbufArr else s.buf.read 0 s.bufLen⟩ := by
  have hport := h.start hcnt
  have hle := h.count_le
  refine ⟨fun hnil => hcnt ?_, ?_, ?_⟩
  · rw [← h.count, hnil]
    rfl
  · have hsent := h.sent
    dsimp only
    split_ifs at hsent ⊢
    · rw [flatMap_def, hsent, flatMap_def]
    · exact hsent
  · rw [h.ports]
    unfold MpaTx.cmd53Port
    dsimp only
    split_ifs with hone hmode
    · rw [hone, Card.portsOf_single hport]
      simp [Card.portAt_zero hport]
    · have hlim := c.limit_le
      rw [(Card.values_of_new hmode).2.2] at hlim
      rw [bitcount_eq hmode hport (by omega) h.mask]
      exact Card.portsOf_new hmode hport (by omega) (by omega)
    · have hold : c.newMode = false := by simpa using hmode
      exact Card.portsOf_old hold hport (by omega) (h.bits hold) h.mask

/-- A packet of the next port goes into the buffer. -/
theorem put (h : Pending c s pend) (hfit : c.pktAggrLimit ≤ c.mpEndPort - startWrPort c.newMode)
    (hcnt : s.pktCnt < c.pktAggrLimit) (hroom : s.bufLen + data.length ≤ c.bufSize) (hport : c.IsPort port)
    (hnext : s.pktCnt ≠ 0 → port = c.portAt s.startPort s.pktCnt)
    (hbit : c.newMode = false → s.pktCnt ≠ 0 → c.bitAt s.startPort s.pktCnt < 8) :
    Pending c (s.aggrBufPut c data port) (pend ++ [(data, port)]) := by
  obtain ⟨start, hstart⟩ : ∃ start, start = if s.pktCnt = 0 then port else s.startPort := ⟨_, rfl⟩
  have hisPort : c.IsPort start := by
    rw [hstart]
    split_ifs with h0
    · exact hport
    · exact h.start h0
  have hat : port = c.portAt start s.pktCnt := by
    rw [hstart]
    split_ifs with h0
    · rw [h0, Card.portAt_zero hport]
    · exact hnext h0
  -- the packets before are counted from the same port
  have hsame : ∀ k < s.pktCnt, s.startPort = start := fun k hk => by rw [hstart, if_neg (by omega)]
  have hportBit := MpaTx.portBit_eq s hisPort hat (by omega)
  unfold MpaTx.aggrBufPut
  simp only [← hstart, hportBit]
  constructor
  · simp [h.count]
  · dsimp only
    omega
  · simp [h.bufLen]
  · exact hroom
  · have hsent := h.sent
    dsimp only
    split_ifs at hsent ⊢ with hsg
    · rw [range_succ, map_append, map_append, map_singleton, Function.update_self, ← hsent]
      refine congrArg (· ++ [data]) (map_congr_left fun k hk => ?_)
      rw [Function.update_of_ne (by have := mem_range.mp hk; omega)]
    · rw [Mem.read_add, Mem.read_write_of_disjoint (.inl (by omega)), hsent, Nat.zero_add, Mem.read_write]
      simp
  · dsimp only
    rw [map_append, h.ports, range_succ, map_append, map_singleton, map_singleton, ← hat]
    refine congrArg (· ++ [port]) (map_congr_left fun k hk => ?_)
    rw [hsame k (mem_range.mp hk)]
  · intro i
    dsimp only
    rw [Nat.testBit_or, Bool.or_eq_true, h.mask i, Nat.one_shiftLeft, Nat.testBit_two_pow]
    constructor
    · rintro (⟨k, hk, rfl⟩ | hi)
      · exact ⟨k, by omega, by rw [hsame k hk]⟩
      · exact ⟨s.pktCnt, by omega, by simpa using hi⟩
    · rintro ⟨k, hk, rfl⟩
      by_cases hlt : k < s.pktCnt
      · exact .inl ⟨k, hlt, by rw [hsame k hlt]⟩
      · have : k = s.pktCnt := by omega
        subst this
        exact .inr (by simp)
  · intro hold k hk
    dsimp only at hk ⊢
    by_cases hlt : k < s.pktCnt
    · rw [← hsame k hlt]
      exact h.bits hold k hlt
    · have hkeq : k = s.pktCnt := by omega
      subst hkeq
      by_cases h0 : s.pktCnt = 0
      · rw [h0, Card.bitAt_of_old hold, if_pos (by simpa using hisPort.2)]
        omega
      · rw [hstart, if_neg h0]
        exact hbit hold h0
  · exact fun _ => hisPort

end Pending

/-! ## The writes -/

/-- The writes carry the packets in their order; those of the buffer and the one at hand come last. -/
def Ordered (c : Card) (s : MpaTx) (pend cur : List (List UInt8 × ℕ)) : Prop :=
  ∃ groups, s.taken = groups.flatten ++ (pend ++ cur) ∧ List.Forall₂ c.Carries groups s.written

theorem Ordered.write (h : Ordered c s pend cur) {w : Write} (hw : c.Carries pend w) (htaken : s'.taken = s.taken)
    (hwritten : s'.written = s.written ++ [w]) : Ordered c s' [] cur := by
  obtain ⟨groups, htk, hall⟩ := h
  refine ⟨groups ++ [pend], ?_, ?_⟩
  · simp [htaken, htk]
  · rw [hwritten]
    exact rel_append hall (.cons hw .nil)

/-- The packet at hand goes to the buffer. -/
theorem Ordered.put {x : List UInt8 × ℕ} (h : Ordered c s pend [x]) (htaken : s'.taken = s.taken)
    (hwritten : s'.written = s.written) : Ordered c s' (pend ++ [x]) [] := by
  obtain ⟨groups, htk, hall⟩ := h
  exact ⟨groups, by rw [htaken, htk, append_nil], hwritten ▸ hall⟩

/-- A flush empties the buffer. -/
theorem sendMpAggrBuf_spec (hfit : c.pktAggrLimit ≤ c.mpEndPort - startWrPort c.newMode) (h : Pending c s pend)
    (ho : Ordered c s pend cur) :
    Pending c (s.sendMpAggrBuf c) [] ∧ Ordered c (s.sendMpAggrBuf c) [] cur ∧ (s.sendMpAggrBuf c).pktCnt = 0 ∧
      (s.sendMpAggrBuf c).mpWrBitmap = s.mpWrBitmap ∧ (s.sendMpAggrBuf c).currWrPort = s.currWrPort := by
  unfold MpaTx.sendMpAggrBuf
  by_cases hcnt : s.pktCnt = 0
  · have hnil : pend = [] := length_eq_zero_iff.mp (h.count.trans hcnt)
    subst hnil
    rw [if_pos hcnt]
    exact ⟨h, ho, hcnt, rfl, rfl⟩
  · rw [if_neg hcnt]
    exact ⟨.nil rfl rfl rfl, ho.write (h.carries hfit hcnt) rfl rfl, rfl, rfl, rfl⟩

theorem taken_sendMpAggrBuf (c : Card) (s : MpaTx) : (s.sendMpAggrBuf c).taken = s.taken := by
  unfold MpaTx.sendMpAggrBuf
  by_cases hcnt : s.pktCnt = 0
  · rw [if_pos hcnt]
  · rw [if_neg hcnt]

/-- The packet at hand alone. -/
theorem Ordered.sendCurBuf (h : Ordered c s [] [(data, port)]) (hport : c.IsPort port) :
    Ordered c (s.sendCurBuf c data port) [] [] := by
  have ho : Ordered c s [(data, port)] [] := h.put rfl rfl
  refine ho.write ⟨by simp, ?_, ?_⟩ rfl rfl
  · simp
  · exact Card.portsOf_single hport

/-! ## One call -/

/-- The four things a call can do. -/
inductive FlagCase (c : Card) (s : MpaTx) (len : ℕ) (nextPktLen : UInt32) : MpaTx.Flags → Prop
  | single (h : s.pktCnt = 0) : FlagCase c s len nextPktLen ⟨false, true, false, false⟩
  | precopy {b : Bool} (hen : c.enabled = true) (hroom : s.bufHasRoom c len = true)
      (hb : b = false → nextPktLen ≠ 0 ∧ s.portReady = true) : FlagCase c s len nextPktLen ⟨b, false, true, false⟩
  | flushSend (h : 0 < s.pktCnt) : FlagCase c s len nextPktLen ⟨true, true, false, false⟩
  | flushPut (hen : c.enabled = true) (h : 0 < s.pktCnt) (hnext : nextPktLen ≠ 0) (hready : s.portReady = true) :
    FlagCase c s len nextPktLen ⟨true, false, false, true⟩

theorem flags_cases (hdis : c.enabled = false → s.pktCnt = 0) (len : ℕ) (nextPktLen : UInt32) :
    FlagCase c s len nextPktLen (s.flags c len nextPktLen) := by
  unfold MpaTx.flags
  cases hen : c.enabled with
  | false => exact .single (hdis hen)
  | true =>
    simp only [Bool.not_true, Bool.false_eq_true, if_false]
    split_ifs with hnext hcnt hroom hfirst hcnt' hroom'
    · refine .precopy hen hroom fun hb => ⟨hnext, ?_⟩
      simp only [Bool.or_eq_false_iff, Bool.not_eq_false'] at hb
      exact hb.1
    · cases hready : s.portReady with
      | true => exact .flushPut hen hcnt hnext hready
      | false => exact .flushSend hcnt
    · simp only [Bool.and_eq_true] at hfirst
      exact .precopy hen hfirst.1 fun _ => ⟨hnext, hfirst.2⟩
    · exact .single (by omega)
    · exact .precopy hen hroom' fun hb => absurd hb (by decide)
    · exact .flushSend hcnt'
    · exact .single (by omega)

/-- What holds between the calls. -/
structure MpaInv (c : Card) (s : MpaTx) : Prop where
  port : c.IsPort s.currWrPort
  held : ∃ pend, Pending c s pend ∧ Ordered c s pend []
  count_lt : s.pktCnt < c.pktAggrLimit
  disabled : c.enabled = false → s.pktCnt = 0
  /-- The next packet's port is the next one of the buffer. -/
  next : s.pktCnt ≠ 0 → s.currWrPort = c.portAt s.startPort s.pktCnt
  /-- In the old mode, it has a bit. -/
  reach : c.newMode = false → s.pktCnt ≠ 0 → s.portLimitReached c = false

/-- The bit of the next packet. -/
theorem MpaInv.bit_lt (h : MpaInv c s) (hfit : c.pktAggrLimit ≤ c.mpEndPort - startWrPort c.newMode)
    (hold : c.newMode = false) (hcnt : s.pktCnt ≠ 0) : c.bitAt s.startPort s.pktCnt < 8 := by
  obtain ⟨hs, hm, hl⟩ := Card.values_of_old hold
  have hlim := c.limit_le
  have hlt := h.count_lt
  have hreach := h.reach hold hcnt
  obtain ⟨pend, hpend, -⟩ := h.held
  have hport := hpend.start hcnt
  have hend := c.end_le_max
  unfold Card.IsPort at hport
  rw [MpaTx.portLimitReached, h.next hcnt, hm, hl] at hreach
  simp only [Bool.and_eq_false_iff, decide_eq_false_iff_not] at hreach
  rw [Card.portAt] at hreach
  rw [Card.bitAt_of_old hold]
  split_ifs at hreach ⊢ <;> omega

/-- With an empty buffer, the rest follows. -/
theorem MpaInv.of_empty (hport : c.IsPort s.currWrPort) (h : Pending c s []) (ho : Ordered c s [] [])
    (hcnt : s.pktCnt = 0) : MpaInv c s where
  port := hport
  held := ⟨[], h, ho⟩
  count_lt := hcnt ▸ c.limit_pos
  disabled := fun _ => hcnt
  next := fun hne => absurd hcnt hne
  reach := fun _ hne => absurd hcnt hne

/-- The state in which `wlan_host_to_card_mp_aggr` runs, with the port handed out. -/
structure Handed (c : Card) (s u : MpaTx) (data : List UInt8) : Prop where
  port : c.IsPort s.currWrPort
  curr : u.currWrPort = c.nextPort s.currWrPort
  count : u.pktCnt < c.pktAggrLimit
  disabled : c.enabled = false → u.pktCnt = 0
  held : ∃ pend, Pending c u pend ∧ Ordered c u pend [(data, s.currWrPort)]
  next : u.pktCnt ≠ 0 → s.currWrPort = c.portAt u.startPort u.pktCnt
  bit : c.newMode = false → u.pktCnt ≠ 0 → c.bitAt u.startPort u.pktCnt < 8

namespace Handed

variable {u : MpaTx}

theorem isPort_curr (h : Handed c s u data) : c.IsPort u.currWrPort :=
  h.curr ▸ h.port.next

/-- A packet goes to the buffer, and stays there. -/
theorem put (h : Handed c s u data) (hfit : c.pktAggrLimit ≤ c.mpEndPort - startWrPort c.newMode)
    (hroom : u.bufLen + data.length ≤ c.bufSize) (hen : c.enabled = true) (hlim : u.pktCnt + 1 < c.pktAggrLimit)
    (hreach : c.newMode = false → (u.aggrBufPut c data s.currWrPort).portLimitReached c = false) :
    MpaInv c (u.aggrBufPut c data s.currWrPort) := by
  obtain ⟨pend, hpend, ho⟩ := h.held
  refine ⟨h.isPort_curr, ⟨_, hpend.put hfit h.count hroom h.port h.next h.bit, ho.put rfl rfl⟩, hlim, ?_, fun _ => ?_, ?_⟩
  · intro hdis
    exact absurd (hen.symm.trans hdis) (by decide)
  · have hone := Card.portAt_one h.port
    dsimp only [MpaTx.aggrBufPut]
    rw [h.curr]
    split_ifs with h0
    · rw [h0, hone]
    · rw [h.next h0, Card.nextPort_portAt (hpend.start h0) (by omega)]
  · exact fun hold _ => hreach hold

/-- A call keeps the invariant, and leaves a packet in the buffer only if another call follows. -/
theorem call (h : Handed c s u data) (hfit : c.PortsFit) (hlen : data.length ≤ c.bufSize) (nextPktLen : UInt32) :
    MpaInv c (u.hostToCardMpAggr c data s.currWrPort nextPktLen) ∧
      (u.hostToCardMpAggr c data s.currWrPort nextPktLen).taken = u.taken ∧
      ((u.hostToCardMpAggr c data s.currWrPort nextPktLen).pktCnt ≠ 0 →
        nextPktLen ≠ 0 ∧ (u.hostToCardMpAggr c data s.currWrPort nextPktLen).portReady = true) := by
  have hcase := flags_cases h.disabled data.length nextPktLen
  obtain ⟨f, hf⟩ : ∃ f, f = u.flags c data.length nextPktLen := ⟨_, rfl⟩
  obtain ⟨pend, hpend, ho⟩ := h.held
  obtain ⟨hflush, hoflush, hcflush, hbflush, hpflush⟩ := sendMpAggrBuf_spec hfit.1 hpend ho
  have hbuf : u.bufLen < 2 ^ 16 := lt_of_le_of_lt hpend.bufLen_le c.bufSize_lt
  have hdata : data.length < 2 ^ 16 := lt_of_le_of_lt hlen c.bufSize_lt
  have hcall : u.hostToCardMpAggr c data s.currWrPort nextPktLen =
      let r := u.precopy c f data s.currWrPort
      let v := if r.2 then r.1.sendMpAggrBuf c else r.1
      let w := if f.sendCurBuf then v.sendCurBuf c data s.currWrPort else v
      if f.postcopyCurBuf then w.aggrBufPut c data s.currWrPort else w := by
    rw [hf]
    rfl
  rw [← hf] at hcase
  rw [hcall]
  cases hcase with
  | single hcnt =>
    have hnil : pend = [] := length_eq_zero_iff.mp (hpend.count.trans hcnt)
    subst hnil
    have hsent : Pending c (u.sendCurBuf c data s.currWrPort) [] := hpend.congr rfl rfl rfl rfl rfl rfl
    refine ⟨.of_empty h.isPort_curr hsent (ho.sendCurBuf h.port) hcnt, rfl, fun hne => absurd hcnt hne⟩
  | @precopy b hen hroom hb =>
    have hfits : u.bufLen + data.length ≤ c.bufSize := by
      simp only [MpaTx.bufHasRoom, decide_eq_true_eq] at hroom
      rwa [Nat.mod_eq_of_lt (by omega)] at hroom
    have hput := hpend.put hfit.1 h.count hfits h.port h.next h.bit
    have hoput : Ordered c (u.aggrBufPut c data s.currWrPort) (pend ++ [(data, s.currWrPort)]) [] := ho.put rfl rfl
    simp only [MpaTx.precopy, if_true, Bool.false_eq_true, if_false]
    -- either the buffer is full and goes out, or it stays
    cases hsend : (b || (u.aggrBufPut c data s.currWrPort).pktCnt = c.pktAggrLimit ||
      (!c.newMode && (u.aggrBufPut c data s.currWrPort).portLimitReached c)) with
    | true =>
      obtain ⟨hp, hop, hcp, -, hcurr⟩ := sendMpAggrBuf_spec hfit.1 hput hoput
      simp only [if_true]
      refine ⟨.of_empty ?_ hp hop hcp, taken_sendMpAggrBuf c _, fun hne => absurd hcp hne⟩
      rw [hcurr]
      exact h.isPort_curr
    | false =>
      simp only [Bool.or_eq_false_iff, decide_eq_false_iff_not, Bool.and_eq_false_iff, Bool.not_eq_false'] at hsend
      obtain ⟨⟨hbf, hlim⟩, hreach⟩ := hsend
      have hcount := h.count
      simp only [MpaTx.aggrBufPut] at hlim
      refine ⟨h.put hfit.1 hfits hen (by omega) fun hold => ?_, rfl, fun _ => hb hbf⟩
      exact hreach.resolve_left (by simp [hold])
  | flushSend hcnt =>
    have hsent : Pending c ((u.sendMpAggrBuf c).sendCurBuf c data s.currWrPort) [] :=
      hflush.congr rfl rfl rfl rfl rfl rfl
    simp only [MpaTx.precopy, if_true, Bool.false_eq_true, if_false]
    refine ⟨.of_empty ?_ hsent (hoflush.sendCurBuf h.port) hcflush, taken_sendMpAggrBuf c u, fun hne => absurd hcflush hne⟩
    exact hpflush ▸ h.isPort_curr
  | flushPut hen hcnt hnext hready =>
    have hcount := h.count
    obtain ⟨hs, he⟩ := h.port
    have hhanded : Handed c s (u.sendMpAggrBuf c) data := by
      refine ⟨h.port, hpflush.trans h.curr, by omega, fun _ => hcflush, ⟨[], hflush, hoflush⟩, ?_, ?_⟩
      · exact fun hne => absurd hcflush hne
      · exact fun _ hne => absurd hcflush hne
    simp only [MpaTx.precopy, if_true, Bool.false_eq_true, if_false]
    refine ⟨hhanded.put hfit.1 ?_ hen (by omega) fun hold => ?_, taken_sendMpAggrBuf c u, fun _ => ⟨hnext, ?_⟩⟩
    · have hzero : (u.sendMpAggrBuf c).bufLen = 0 := hflush.bufLen
      omega
    · -- the packet stands alone : only the last port has the next one behind the wrap
      obtain ⟨hs1, hm, hl⟩ := Card.values_of_old hold
      have hshort := hfit.2.resolve_left (by simp [hold])
      simp only [MpaTx.portLimitReached, MpaTx.aggrBufPut, hcflush, if_true, hpflush, h.curr, hm, hl,
        Bool.and_eq_false_iff, decide_eq_false_iff_not]
      rw [hs1, hm, hl] at hshort
      unfold Card.nextPort
      split_ifs <;> omega
    · simp only [MpaTx.portReady, MpaTx.aggrBufPut, hbflush, hpflush]
      exact hready

end Handed

/-! ## Runs -/

/-- A port is handed out, or nothing is taken. -/
theorem getWrPortData_cases (h : c.IsPort s.currWrPort) :
    s.getWrPortData c = ({ s with dataSent := true }, none) ∨
      ∃ bitmap, s.getWrPortData c =
        ({ s with mpWrBitmap := bitmap, currWrPort := c.nextPort s.currWrPort }, some s.currWrPort) := by
  unfold MpaTx.getWrPortData
  split_ifs with hmask hready hctrl
  · exact .inl rfl
  · -- the control port is not a write port
    simp only [Bool.and_eq_true, Bool.not_eq_true', decide_eq_true_eq] at hctrl
    have hs := (Card.values_of_old hctrl.1).1
    have := h.1
    omega
  · exact .inr ⟨_, rfl⟩
  · exact .inl rfl

/-- What a data call does. -/
theorem MpaInv.sdioHostToCard (h : MpaInv c s) (hfit : c.PortsFit) {len : ℕ} (hlen : MpaTx.blockLen len ≤ c.bufSize)
    (payload : Mem) (nextPktLen : UInt32) :
    MpaInv c (s.sdioHostToCard c len payload nextPktLen) ∧
      (s.sdioHostToCard c len payload nextPktLen = { s with dataSent := true } ∨
        (s.sdioHostToCard c len payload nextPktLen).taken =
            s.taken ++ [(MpaTx.sdioPacket len payload, s.currWrPort)] ∧
          ((s.sdioHostToCard c len payload nextPktLen).pktCnt ≠ 0 → nextPktLen ≠ 0 ∧
            (s.sdioHostToCard c len payload nextPktLen).portReady = true ∧
            (s.sdioHostToCard c len payload nextPktLen).dataSent = false)) := by
  obtain ⟨pend, hpend, ho⟩ := h.held
  unfold MpaTx.sdioHostToCard
  rcases getWrPortData_cases h.port with heq | ⟨bitmap, heq⟩
  · rw [heq]
    refine ⟨⟨h.port, ⟨pend, hpend.congr rfl rfl rfl rfl rfl rfl, ho⟩, h.count_lt, h.disabled, h.next, h.reach⟩, .inl rfl⟩
  · rw [heq]
    obtain ⟨u, hu⟩ : ∃ u, u = { s with
        mpWrBitmap := bitmap
        currWrPort := c.nextPort s.currWrPort
        taken := s.taken ++ [(MpaTx.sdioPacket len payload, s.currWrPort)] } := ⟨_, rfl⟩
    have hhanded : Handed c s u (MpaTx.sdioPacket len payload) := by
      subst hu
      refine ⟨h.port, rfl, h.count_lt, h.disabled, ⟨pend, hpend.congr rfl rfl rfl rfl rfl rfl, ?_⟩, h.next, ?_⟩
      · obtain ⟨groups, htaken, hall⟩ := ho
        refine ⟨groups, ?_, hall⟩
        dsimp only
        rw [htaken, append_nil, append_assoc]
      · exact fun hold hcnt => h.bit_lt hfit.1 hold hcnt
    have hsize : (MpaTx.sdioPacket len payload).length ≤ c.bufSize := by
      rw [MpaTx.sdioPacket, Mem.length_read]
      exact hlen
    obtain ⟨hinv, htaken, hleft⟩ := hhanded.call hfit hsize nextPktLen
    obtain ⟨pend', hpend', ho'⟩ := hinv.held
    dsimp only
    rw [← hu]
    refine ⟨⟨hinv.port, ⟨pend', hpend'.congr rfl rfl rfl rfl rfl rfl, ho'⟩, hinv.count_lt, hinv.disabled, hinv.next,
      hinv.reach⟩, .inr ⟨?_, fun hcnt => ?_⟩⟩
    · rw [htaken, hu]
    · obtain ⟨hnext, hready⟩ := hleft hcnt
      exact ⟨hnext, hready, by simp [hready]⟩

/-- A packet of a call fits the buffer. -/
def MpaOp.Fits (c : Card) : MpaOp → Prop
  | .data len _ _ => MpaTx.blockLen len ≤ c.bufSize
  | _ => True

instance (c : Card) : DecidablePred (MpaOp.Fits c)
  | .data len _ _ => inferInstanceAs (Decidable (MpaTx.blockLen len ≤ c.bufSize))
  | .flush => inferInstanceAs (Decidable True)
  | .refresh _ => inferInstanceAs (Decidable True)

theorem MpaInv.step (h : MpaInv c s) (hfit : c.PortsFit) {op : MpaOp} (hop : op.Fits c)
    (hs : (mpaSystem c).step s op = some s') : MpaInv c s' := by
  obtain ⟨pend, hpend, ho⟩ := h.held
  cases op with
  | data len payload nextPktLen =>
    obtain rfl := Option.some.inj hs
    exact (h.sdioHostToCard hfit hop payload nextPktLen).1
  | flush =>
    obtain rfl := Option.some.inj hs
    obtain ⟨hp, hop, hcnt, -, hcurr⟩ := sendMpAggrBuf_spec hfit.1 hpend ho
    exact .of_empty (hcurr ▸ h.port) hp hop hcnt
  | refresh bitmap =>
    obtain rfl := Option.some.inj hs
    exact ⟨h.port, ⟨pend, hpend.congr rfl rfl rfl rfl rfl rfl, ho⟩, h.count_lt, h.disabled, h.next, h.reach⟩

theorem MpaInv.of_reachableWhen (hfit : c.PortsFit)
    (h : (mpaSystem c).ReachableWhen (fun _ op => MpaOp.Fits c op) s) : MpaInv c s := by
  refine h.invariant (fun s hs => ?_) fun s op s' hi hop hs => hi.step hfit hop hs
  obtain ⟨hcurr, hlen, hcnt, hports, hwritten, htaken⟩ := hs
  refine .of_empty ?_ (.nil hcnt hlen hports) ⟨[], by simp [htaken], by simp [hwritten]⟩ hcnt
  exact hcurr ▸ ⟨le_rfl, c.start_lt_end⟩

/-- The path is in step with the card. -/
structure Agrees (c : Card) (s : MpaTx) : Prop where
  /-- The writes carry the packets in their order, each once, and say their ports; the rest is in the buffer. -/
  order : ∃ groups pend, s.taken = groups.flatten ++ pend ∧ List.Forall₂ c.Carries groups s.written ∧
    pend.length = s.pktCnt ∧
    if c.sg then (List.range s.pktCnt).map s.mbufArr = pend.map Prod.fst
    else s.buf.read 0 s.bufLen = pend.flatMap Prod.fst
  bufLen_le : s.bufLen ≤ c.bufSize
  pktCnt_lt : s.pktCnt < c.pktAggrLimit
  /-- A call that gets no port takes nothing. One that gets a port leaves packets in the buffer only if there is a next
  packet, and a port for it. -/
  atReturn : ∀ len payload nextPktLen, MpaTx.blockLen len ≤ c.bufSize →
    s.sdioHostToCard c len payload nextPktLen = { s with dataSent := true } ∨
      (s.sdioHostToCard c len payload nextPktLen).taken = s.taken ++ [(MpaTx.sdioPacket len payload, s.currWrPort)] ∧
        ((s.sdioHostToCard c len payload nextPktLen).pktCnt ≠ 0 → nextPktLen ≠ 0 ∧
          (s.sdioHostToCard c len payload nextPktLen).portReady = true ∧
          (s.sdioHostToCard c len payload nextPktLen).dataSent = false)

/-- **Order and port agreement.** Where the ports fit the mode, the path is in step with the card in every run. -/
theorem packets_agree_with_ports (hfit : c.PortsFit)
    (h : (mpaSystem c).ReachableWhen (fun _ op => MpaOp.Fits c op) s) : Agrees c s := by
  have hinv := MpaInv.of_reachableWhen hfit h
  obtain ⟨pend, hpend, groups, htaken, hall⟩ := hinv.held
  rw [append_nil] at htaken
  exact ⟨⟨groups, pend, htaken, hall, hpend.count, hpend.sent⟩, hpend.bufLen_le, hinv.count_lt,
    fun len payload nextPktLen hlen => (hinv.sdioHostToCard hfit hlen payload nextPktLen).2⟩

/-! ## Runs of two cards -/

/-- A path before the first packet. -/
def emptyMpaTx (start : ℕ) : MpaTx :=
  ⟨0, start, fun _ => 0, fun _ => [], 0, 0, 0, start, true, [], []⟩

/-- A card in the new mode with eight ports. -/
def newCard : Card :=
  ⟨true, 0x10000, 8, 4, 1024, true, false, by decide, by decide, by decide, by decide, by decide, by decide⟩

/-- A packet of `n` blocks of zeros; `more` : another one follows. -/
def zeros (n : ℕ) (more : Bool) : MpaOp :=
  .data (n * 256) (fun _ => 0) (if more then 256 else 0)

/-- Seven packets alone, and then four in one write, across the wrap of the ports. -/
def wrapRun : List MpaOp :=
  .refresh 0xff :: List.replicate 7 (zeros 1 false) ++ .refresh 0xff :: List.replicate 4 (zeros 1 true)

theorem packets_agree_with_ports_wrap : newCard.PortsFit ∧
    ∃ s, (mpaSystem newCard).ReachableWhen (fun _ op => MpaOp.Fits newCard op) s ∧
      (s.written.map fun w => newCard.portsOf w.port) = [[0], [1], [2], [3], [4], [5], [6], [7, 0, 1, 2]] ∧
      Agrees newCard s := by
  obtain ⟨s, hs, hrun⟩ := System.exists_reachableWhen_of_runWhen (M := mpaSystem newCard)
    (C := fun _ op => MpaOp.Fits newCard op)
    (P := fun s => (s.written.map fun w => newCard.portsOf w.port) = [[0], [1], [2], [3], [4], [5], [6], [7, 0, 1, 2]])
    (l := wrapRun) (s := emptyMpaTx 0) (.init ⟨rfl, rfl, rfl, rfl, rfl, rfl⟩) (by decide +kernel)
  exact ⟨by decide, s, hs, by simpa using hrun, packets_agree_with_ports (by decide) hs⟩

/-- The addresses say as many ports as packets are written. -/
theorem length_flatten_of_carries {groups : List (List (List UInt8 × ℕ))} {ws : List Write}
    (h : List.Forall₂ c.Carries groups ws) :
    groups.flatten.length = (ws.map fun w => (c.portsOf w.port).length).sum := by
  induction h with
  | nil => rfl
  | cons hw _ ih =>
    rw [flatten_cons, length_append, ih, map_cons, sum_cons, hw.ports, length_map]

/-- A card in the old mode whose last write port is 9. -/
def shortCard : Card :=
  ⟨false, 0x10000, 10, 5, 512, true, false, by decide, by decide, by decide, by decide, by decide, by decide⟩

/-- The packet of port 8 fills the buffer, that of port 9 is put behind the flush, and port 1 follows. -/
def shortRun : List MpaOp :=
  .refresh 0xfffe :: List.replicate 7 (zeros 1 false) ++ [MpaOp.refresh 0xfffe, zeros 2 true, zeros 1 true, zeros 1 false]

/-- The bit of port 1 is the ninth, which is the bit of `SDIO_MPA_ADDR_BASE` in the address : the write carries the
packets of ports 9 and 1 and says port 9 alone. -/
theorem short_card_loses_port :
    ¬∀ c s, (mpaSystem c).ReachableWhen (fun _ op => MpaOp.Fits c op) s → Agrees c s := by
  intro h
  obtain ⟨s, hs, hrun⟩ := System.exists_reachableWhen_of_runWhen (M := mpaSystem shortCard)
    (C := fun _ op => MpaOp.Fits shortCard op)
    (P := fun s => s.taken.length = 10 && s.pktCnt = 0 &&
      (s.written.map fun w => shortCard.portsOf w.port) = [[1], [2], [3], [4], [5], [6], [7], [8], [9]])
    (l := shortRun) (s := emptyMpaTx 1) (.init ⟨rfl, rfl, rfl, rfl, rfl, rfl⟩) (by decide +kernel)
  simp only [Bool.and_eq_true, decide_eq_true_eq] at hrun
  obtain ⟨⟨htaken, hcnt⟩, hports⟩ := hrun
  obtain ⟨groups, pend, heq, hall, hlen, -⟩ := (h shortCard s hs).order
  have hsum := length_flatten_of_carries hall
  have hmap : (s.written.map fun w => (shortCard.portsOf w.port).length) =
      (s.written.map fun w => shortCard.portsOf w.port).map List.length := by
    simp only [map_map, Function.comp_def]
  rw [hmap, hports] at hsum
  have htotal := congrArg List.length heq
  rw [length_append, htaken, hsum, hlen, hcnt] at htotal
  exact absurd htotal (by decide)

end WlanDriver.Sdio
