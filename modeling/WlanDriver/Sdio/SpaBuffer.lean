import Mathlib.Algebra.GroupWithZero.Nat
import WlanDriver.Lib.Memory
import Mathlib.Data.List.Infix

/-!
# Single-port aggregation

`wlan_decode_spa_buffer` takes the sub-packets of a buffer one behind the other. Each says how many blocks it has
and how long it is with the interface header, and is copied to a buffer of its own that is handed on. The variable
with that buffer outlives the turn, and a sub-packet with nothing behind the interface header does not set it :
the first such ends the loop, and a later one is copied to the buffer that was handed on before. Without those,
the buffers handed on are new ones with the payloads of the sub-packets in their order (`decode_safe_iff`).
-/

namespace WlanDriver.Sdio

open List

/-- What a call is given : the octets at `buf`, their number, `sdio_rx_block_size`, and which allocations succeed. -/
structure SpaInput where
  buf : Mem
  len : UInt32
  rxBlockSize : UInt16
  alloc : ℕ → Bool

/-- The variables of the loop. A buffer is the number of its allocation; `reads` and `handed` are history, what was
read of the buffer and what was handed on with the octets that were copied to it. -/
structure SpaState where
  data : ℕ
  totalPktLen : ℕ
  mbufDeaggr : Option ℕ
  allocs : ℕ
  reads : List Span
  handed : List (ℕ × Span)

def offsetOfBlockNumber : ℕ := 15

def offsetOfSdioHeader : ℕ := 28

def sdioIntfHeaderLen : ℕ := 4

namespace SpaInput

variable (b : SpaInput)

/-- `block_size` of the sub-packet at `data`, of 16 bits. -/
def blockSize (data : ℕ) : ℕ :=
  b.rxBlockSize.toNat * (b.buf (data + offsetOfBlockNumber)).toNat % 65536

/-- `pkt_len` of the sub-packet at `data`. -/
def pktLen (data : ℕ) : ℕ :=
  (b.buf (data + offsetOfSdioHeader)).toNat + 256 * (b.buf (data + offsetOfSdioHeader + 1)).toNat

def allocMlanBuffer (s : SpaState) : SpaState :=
  { s with mbufDeaggr := if b.alloc s.allocs then some s.allocs else none, allocs := s.allocs + 1 }

/-- One turn of the loop, and whether there is another. -/
def turn (s : SpaState) : SpaState × Bool :=
  let s := { s with reads := s.reads ++ [⟨s.data + offsetOfBlockNumber, 1⟩] }
  if s.totalPktLen < b.blockSize s.data then (s, false)
  else
    let s := { s with reads := s.reads ++ [⟨s.data + offsetOfSdioHeader, 2⟩] }
    if b.blockSize s.data < b.pktLen s.data + offsetOfSdioHeader then (s, false)
    else
      let s := if sdioIntfHeaderLen < b.pktLen s.data then b.allocMlanBuffer s else s
      match s.mbufDeaggr with
      | none => (s, false)
      | some mbuf =>
        -- the length is one of 32 bits
        let payload : Span := ⟨s.data + offsetOfSdioHeader + sdioIntfHeaderLen,
          (b.pktLen s.data + 2 ^ 32 - sdioIntfHeaderLen) % 2 ^ 32⟩
        ({ s with
            reads := s.reads ++ [payload]
            handed := s.handed ++ [(mbuf, payload)]
            data := s.data + b.blockSize s.data
            totalPktLen := s.totalPktLen - b.blockSize s.data },
          b.rxBlockSize.toNat ≤ s.totalPktLen - b.blockSize s.data)

/-- The loop, `none` if it is not through with `fuel` turns. -/
def loop : ℕ → SpaState → Option SpaState
  | 0, _ => none
  | fuel + 1, s =>
    if s.totalPktLen < offsetOfSdioHeader + sdioIntfHeaderLen then some s
    else if (b.turn s).2 then loop fuel (b.turn s).1
    else some (b.turn s).1

/-- The variables at the start. -/
def start : SpaState :=
  ⟨0, b.len.toNat, none, 0, [], []⟩

/-- `wlan_decode_spa_buffer`. The length is compared as a signed number. -/
def decodeSpaBuffer : Option SpaState :=
  if 2 ^ 31 ≤ b.len.toNat ∨ b.len.toNat < b.rxBlockSize.toNat then some b.start
  else b.loop (b.len.toNat + 1) b.start

/-! ## Sub-packets -/

/-- Where the sub-packets are : one behind the blocks of the other. -/
def offset : ℕ → ℕ
  | 0 => 0
  | k + 1 => offset k + b.blockSize (offset k)

/-- The sub-packet lies in the buffer, and its header and payload in its blocks. -/
structure Whole (k : ℕ) : Prop where
  len_lt : b.len.toNat < 2 ^ 31
  block_le : b.offset k + b.rxBlockSize.toNat ≤ b.len.toNat
  header_le : b.offset k + (offsetOfSdioHeader + sdioIntfHeaderLen) ≤ b.len.toNat
  blocks_le : b.offset k + b.blockSize (b.offset k) ≤ b.len.toNat
  payload_le : b.pktLen (b.offset k) + offsetOfSdioHeader ≤ b.blockSize (b.offset k)

/-- The sub-packet is whole, has a payload, and there is a buffer for it. -/
structure Taken (k : ℕ) : Prop where
  whole : b.Whole k
  payload : sdioIntfHeaderLen < b.pktLen (b.offset k)
  alloc : b.alloc k = true

/-- No whole sub-packet behind others that were taken is without a payload. -/
def Clean : Prop :=
  ∀ k, 0 < k → (∀ j < k, b.Taken j) → b.Whole k → sdioIntfHeaderLen < b.pktLen (b.offset k)

/-- What a call should have done : it read inside the buffer, and handed on new buffers, each once, with the payloads of the
sub-packets in their order. -/
structure Safe (s : SpaState) : Prop where
  inside : ∀ r ∈ s.reads, r.Inside 0 b.len.toNat
  once : (s.handed.map Prod.fst).Nodup
  fresh : ∀ mbuf ∈ s.handed.map Prod.fst, mbuf < s.allocs
  payloads : ∀ i mbuf payload, s.handed[i]? = some (mbuf, payload) → b.Whole i ∧
    payload.start = b.offset i + offsetOfSdioHeader + sdioIntfHeaderLen ∧
      payload.len + sdioIntfHeaderLen = b.pktLen (b.offset i)

/-! ## What a turn does -/

variable {b} {s t : SpaState} {k : ℕ}

/-- The reads of both header fields. -/
def headerReads (s : SpaState) : List Span :=
  s.reads ++ [⟨s.data + offsetOfBlockNumber, 1⟩] ++ [⟨s.data + offsetOfSdioHeader, 2⟩]

/-- The sub-packet is copied to the buffer. -/
def copied (b : SpaInput) (s : SpaState) (mbufDeaggr : Option ℕ) (mbuf allocs : ℕ) (payload : Span) : SpaState where
  data := s.data + b.blockSize s.data
  totalPktLen := s.totalPktLen - b.blockSize s.data
  mbufDeaggr := mbufDeaggr
  allocs := allocs
  reads := headerReads s ++ [payload]
  handed := s.handed ++ [(mbuf, payload)]

variable (b s) in
/-- What a turn does. -/
inductive Turn : SpaState → Bool → Prop
  | short (h : s.totalPktLen < b.blockSize s.data) :
      Turn { s with reads := s.reads ++ [⟨s.data + offsetOfBlockNumber, 1⟩] } false
  | long (h : b.blockSize s.data < b.pktLen s.data + offsetOfSdioHeader) : Turn { s with reads := headerReads s } false
  | noBuffer (h : sdioIntfHeaderLen < b.pktLen s.data) (halloc : b.alloc s.allocs = false) :
      Turn { s with reads := headerReads s, mbufDeaggr := none, allocs := s.allocs + 1 } false
  | take (htotal : b.blockSize s.data ≤ s.totalPktLen) (hblock : b.pktLen s.data + offsetOfSdioHeader ≤ b.blockSize s.data)
      (h : sdioIntfHeaderLen < b.pktLen s.data) (halloc : b.alloc s.allocs = true) :
      Turn (copied b s (some s.allocs) s.allocs (s.allocs + 1) ⟨s.data + offsetOfSdioHeader + sdioIntfHeaderLen,
        b.pktLen s.data - sdioIntfHeaderLen⟩) (b.rxBlockSize.toNat ≤ s.totalPktLen - b.blockSize s.data)
  | empty (h : b.pktLen s.data ≤ sdioIntfHeaderLen) (hbuf : s.mbufDeaggr = none) :
      Turn { s with reads := headerReads s } false
  | stale {mbuf : ℕ} (htotal : b.blockSize s.data ≤ s.totalPktLen)
      (hblock : b.pktLen s.data + offsetOfSdioHeader ≤ b.blockSize s.data) (h : b.pktLen s.data ≤ sdioIntfHeaderLen)
      (hbuf : s.mbufDeaggr = some mbuf) :
      Turn (copied b s s.mbufDeaggr mbuf s.allocs ⟨s.data + offsetOfSdioHeader + sdioIntfHeaderLen,
        (b.pktLen s.data + 2 ^ 32 - sdioIntfHeaderLen) % 2 ^ 32⟩)
        (b.rxBlockSize.toNat ≤ s.totalPktLen - b.blockSize s.data)

theorem pktLen_lt (b : SpaInput) (data : ℕ) : b.pktLen data < 65536 := by
  have hlow := (b.buf (data + offsetOfSdioHeader)).toNat_lt
  have hhigh := (b.buf (data + offsetOfSdioHeader + 1)).toNat_lt
  unfold pktLen
  omega

theorem turn_turn (b : SpaInput) (s : SpaState) : Turn b s (b.turn s).1 (b.turn s).2 := by
  unfold turn
  dsimp only
  by_cases htotal : s.totalPktLen < b.blockSize s.data
  · rw [if_pos htotal]
    exact .short htotal
  rw [if_neg htotal]
  by_cases hblock : b.blockSize s.data < b.pktLen s.data + offsetOfSdioHeader
  · rw [if_pos hblock]
    exact .long hblock
  rw [if_neg hblock]
  by_cases hlen : sdioIntfHeaderLen < b.pktLen s.data
  · have hsub : (b.pktLen s.data + 2 ^ 32 - sdioIntfHeaderLen) % 2 ^ 32 = b.pktLen s.data - sdioIntfHeaderLen := by
      have hlt := pktLen_lt b s.data
      unfold sdioIntfHeaderLen at hlen ⊢
      omega
    rw [if_pos hlen, allocMlanBuffer]
    by_cases halloc : b.alloc s.allocs = true
    · simp only [halloc, if_true, hsub]
      exact .take (not_lt.mp htotal) (not_lt.mp hblock) hlen halloc
    · simp only [halloc]
      exact .noBuffer hlen (by simpa using halloc)
  · rw [if_neg hlen]
    split
    · next hbuf => exact .empty (not_lt.mp hlen) hbuf
    · next mbuf hbuf => exact .stale (not_lt.mp htotal) (not_lt.mp hblock) (not_lt.mp hlen) hbuf

/-! ## The loop -/

/-- The loop is at the sub-packet `k`, and has taken all before it. -/
structure AtTurn (b : SpaInput) (k : ℕ) (s : SpaState) : Prop where
  data : s.data = b.offset k
  total : s.data + s.totalPktLen = b.len.toNat
  mbuf : s.mbufDeaggr = if k = 0 then none else some (k - 1)
  allocs : s.allocs = k
  ids : s.handed.map Prod.fst = List.range k
  inside : ∀ r ∈ s.reads, r.Inside 0 b.len.toNat
  payloads : ∀ i mbuf payload, s.handed[i]? = some (mbuf, payload) → b.Whole i ∧
    payload.start = b.offset i + offsetOfSdioHeader + sdioIntfHeaderLen ∧
      payload.len + sdioIntfHeaderLen = b.pktLen (b.offset i)
  len_lt : b.len.toNat < 2 ^ 31
  block_le : b.offset k + b.rxBlockSize.toNat ≤ b.len.toNat

theorem AtTurn.safe_of (hs : AtTurn b k s) (hhanded : t.handed = s.handed) (hallocs : s.allocs ≤ t.allocs)
    (hreads : ∀ r ∈ t.reads, r.Inside 0 b.len.toNat) : b.Safe t := by
  refine ⟨hreads, ?_, ?_, ?_⟩
  · rw [hhanded, hs.ids]
    exact nodup_range
  · rw [hhanded, hs.ids]
    intro mbuf hmem
    have hlt := mem_range.mp hmem
    rw [hs.allocs] at hallocs
    omega
  · rw [hhanded]
    exact hs.payloads

theorem AtTurn.header_inside (hs : AtTurn b k s) (h : offsetOfSdioHeader + sdioIntfHeaderLen ≤ s.totalPktLen) :
    ∀ r ∈ headerReads s, r.Inside 0 b.len.toNat := by
  intro r hr
  have htotal := hs.total
  unfold offsetOfSdioHeader sdioIntfHeaderLen at h
  rcases mem_append.mp hr with hr | hr
  · rcases mem_append.mp hr with hr | hr
    · exact hs.inside r hr
    · obtain rfl := mem_singleton.mp hr
      refine ⟨Nat.zero_le _, ?_⟩
      show s.data + 15 + 1 ≤ 0 + b.len.toNat
      omega
  · obtain rfl := mem_singleton.mp hr
    refine ⟨Nat.zero_le _, ?_⟩
    show s.data + 28 + 2 ≤ 0 + b.len.toNat
    omega

theorem AtTurn.whole (hs : AtTurn b k s) (h : offsetOfSdioHeader + sdioIntfHeaderLen ≤ s.totalPktLen)
    (htotal : b.blockSize s.data ≤ s.totalPktLen)
    (hblock : b.pktLen s.data + offsetOfSdioHeader ≤ b.blockSize s.data) : b.Whole k := by
  have hlen := hs.total
  rw [hs.data] at htotal hblock hlen
  exact ⟨hs.len_lt, hs.block_le, by omega, by omega, hblock⟩

/-- A turn takes the sub-packet, or it is the last and safe unless the sub-packet has no payload. -/
theorem AtTurn.turn (hs : AtTurn b k s) (h : offsetOfSdioHeader + sdioIntfHeaderLen ≤ s.totalPktLen) {go : Bool}
    (hturn : Turn b s t go) :
    (b.Whole k ∧ b.pktLen (b.offset k) ≤ sdioIntfHeaderLen ∧ 0 < k ∧ ∃ payload, t.handed = s.handed ++ [(k - 1, payload)]) ∨
      b.Safe t ∧ (go = true → b.Taken k ∧ AtTurn b (k + 1) t ∧ t.totalPktLen < s.totalPktLen) := by
  have hheader := hs.header_inside h
  cases hturn with
  | short _ =>
    refine Or.inr ⟨hs.safe_of rfl le_rfl fun r hr => hheader r (mem_append_left _ hr), by simp⟩
  | long _ => exact Or.inr ⟨hs.safe_of rfl le_rfl hheader, by simp⟩
  | noBuffer _ _ => exact Or.inr ⟨hs.safe_of rfl (Nat.le_succ _) hheader, by simp⟩
  | empty _ _ => exact Or.inr ⟨hs.safe_of rfl le_rfl hheader, by simp⟩
  | stale htotal hblock hlen hbuf =>
    have hwhole := hs.whole h htotal hblock
    have hk : 0 < k := Nat.pos_of_ne_zero fun h0 => by
      rw [hs.mbuf, if_pos h0] at hbuf
      cases hbuf
    rw [hs.mbuf, if_neg hk.ne'] at hbuf
    obtain rfl := Option.some.inj hbuf
    exact Or.inl ⟨hwhole, hs.data ▸ hlen, hk, _, rfl⟩
  | take htotal hblock hlen halloc =>
    have hwhole := hs.whole h htotal hblock
    rw [hs.allocs] at halloc
    have hsum := hs.total
    have hids : (s.handed ++ [(s.allocs, (⟨s.data + offsetOfSdioHeader + sdioIntfHeaderLen,
        b.pktLen s.data - sdioIntfHeaderLen⟩ : Span))]).map Prod.fst = List.range (k + 1) := by
      rw [map_append, hs.ids, range_succ, hs.allocs]
      rfl
    have hlength : s.handed.length = k := by
      have hmap := congrArg List.length hs.ids
      rwa [length_map, length_range] at hmap
    have hinside : ∀ r ∈ headerReads s ++ [(⟨s.data + offsetOfSdioHeader + sdioIntfHeaderLen,
        b.pktLen s.data - sdioIntfHeaderLen⟩ : Span)], r.Inside 0 b.len.toNat := by
      intro r hr
      rcases mem_append.mp hr with hr | hr
      · exact hheader r hr
      · obtain rfl := mem_singleton.mp hr
        refine ⟨Nat.zero_le _, ?_⟩
        show s.data + offsetOfSdioHeader + sdioIntfHeaderLen + (b.pktLen s.data - sdioIntfHeaderLen) ≤ 0 + b.len.toNat
        omega
    have hpayloads : ∀ i mbuf payload, (s.handed ++ [(s.allocs, (⟨s.data + offsetOfSdioHeader + sdioIntfHeaderLen,
        b.pktLen s.data - sdioIntfHeaderLen⟩ : Span))])[i]? = some (mbuf, payload) → b.Whole i ∧
        payload.start = b.offset i + offsetOfSdioHeader + sdioIntfHeaderLen ∧
          payload.len + sdioIntfHeaderLen = b.pktLen (b.offset i) := by
      intro i mbuf payload hi
      rcases Nat.lt_trichotomy i k with hlt | rfl | hgt
      · rw [getElem?_append_left (by omega)] at hi
        exact hs.payloads i mbuf payload hi
      · rw [getElem?_append_right (by omega), hlength, Nat.sub_self] at hi
        obtain ⟨-, rfl⟩ := Prod.mk.inj (Option.some.inj hi)
        refine ⟨hwhole, by rw [hs.data], ?_⟩
        rw [← hs.data]
        exact Nat.sub_add_cancel hlen.le
      · rw [getElem?_eq_none (by rw [length_append, length_singleton]; omega)] at hi
        cases hi
    refine Or.inr ⟨⟨hinside, ?_, ?_, hpayloads⟩, fun hgo => ⟨⟨hwhole, hs.data ▸ hlen, halloc⟩, ⟨?_, ?_, ?_, ?_, hids,
      hinside, hpayloads, hs.len_lt, ?_⟩, ?_⟩⟩
    · show (List.map Prod.fst (_ ++ _)).Nodup
      rw [hids]
      exact nodup_range
    · show ∀ mbuf ∈ List.map Prod.fst (_ ++ _), mbuf < s.allocs + 1
      rw [hids, hs.allocs]
      exact fun mbuf hmem => mem_range.mp hmem
    · show s.data + b.blockSize s.data = b.offset (k + 1)
      rw [hs.data]
      rfl
    · show s.data + b.blockSize s.data + (s.totalPktLen - b.blockSize s.data) = b.len.toNat
      omega
    · show some s.allocs = _
      rw [if_neg (Nat.succ_ne_zero k), hs.allocs, Nat.add_sub_cancel]
    · show s.allocs + 1 = k + 1
      rw [hs.allocs]
    · have hrest : b.rxBlockSize.toNat ≤ s.totalPktLen - b.blockSize s.data := by simpa using hgo
      show b.offset k + b.blockSize (b.offset k) + b.rxBlockSize.toNat ≤ b.len.toNat
      rw [← hs.data]
      omega
    · show s.totalPktLen - b.blockSize s.data < s.totalPktLen
      unfold offsetOfSdioHeader at hblock
      omega

/-- A turn hands on more, and goes on with less. -/
theorem Turn.progress {go : Bool} (h : Turn b s t go) :
    s.handed <+: t.handed ∧ (go = true → t.totalPktLen < s.totalPktLen) := by
  cases h with
  | short _ => exact ⟨prefix_rfl, by simp⟩
  | long _ => exact ⟨prefix_rfl, by simp⟩
  | noBuffer _ _ => exact ⟨prefix_rfl, by simp⟩
  | empty _ _ => exact ⟨prefix_rfl, by simp⟩
  | take htotal hblock _ _ =>
    refine ⟨prefix_append _ _, fun _ => ?_⟩
    show s.totalPktLen - b.blockSize s.data < s.totalPktLen
    unfold offsetOfSdioHeader at hblock
    omega
  | stale htotal hblock _ _ =>
    refine ⟨prefix_append _ _, fun _ => ?_⟩
    show s.totalPktLen - b.blockSize s.data < s.totalPktLen
    unfold offsetOfSdioHeader at hblock
    omega

theorem loop_ends : ∀ {fuel : ℕ} {s : SpaState}, s.totalPktLen < fuel → ∃ t, b.loop fuel s = some t ∧ s.handed <+: t.handed
  | fuel + 1, s, h => by
    obtain ⟨hpre, hless⟩ := (turn_turn b s).progress
    rw [loop]
    split_ifs with hshort hgo
    · exact ⟨s, rfl, prefix_rfl⟩
    · have hrest := hless hgo
      obtain ⟨t, ht, htprefix⟩ := loop_ends (show (b.turn s).1.totalPktLen < fuel by omega)
      exact ⟨t, ht, hpre.trans htprefix⟩
    · exact ⟨_, rfl, hpre⟩

theorem AtTurn.loop_safe (hclean : b.Clean) : ∀ {fuel k : ℕ} {s : SpaState}, AtTurn b k s → (∀ j < k, b.Taken j) →
    s.totalPktLen < fuel → ∃ t, b.loop fuel s = some t ∧ b.Safe t
  | fuel + 1, k, s, hs, htaken, h => by
    rw [loop]
    split_ifs with hshort hgo
    · exact ⟨s, rfl, hs.safe_of rfl le_rfl hs.inside⟩
    · rcases hs.turn (not_lt.mp hshort) (turn_turn b s) with ⟨hwhole, hlen, hk, -⟩ | ⟨-, hnext⟩
      · exact absurd (hclean k hk htaken hwhole) (not_lt.mpr hlen)
      · obtain ⟨hk, hs', hless⟩ := hnext hgo
        refine hs'.loop_safe hclean (fun j hj => ?_) (by omega)
        rcases Nat.lt_succ_iff_lt_or_eq.mp hj with hj | rfl
        · exact htaken j hj
        · exact hk
    · rcases hs.turn (not_lt.mp hshort) (turn_turn b s) with ⟨hwhole, hlen, hk, -⟩ | ⟨hsafe, -⟩
      · exact absurd (hclean k hk htaken hwhole) (not_lt.mpr hlen)
      · exact ⟨_, rfl, hsafe⟩

/-- A sub-packet that will be taken, with another behind it, is followed by a turn. -/
theorem AtTurn.turn_of_taken (hs : AtTurn b k s) (hk : b.Taken k) (hnext : b.Whole (k + 1)) :
    (b.turn s).2 = true ∧ AtTurn b (k + 1) (b.turn s).1 := by
  have hsum := hs.total
  have hheader := hk.whole.header_le
  have hblocks := hk.whole.blocks_le
  have hpayload := hk.whole.payload_le
  have hlen := hk.payload
  have hrest := hnext.block_le
  rw [← hs.data] at hheader hblocks hpayload hlen
  have hoffset : b.offset (k + 1) = s.data + b.blockSize s.data := by
    rw [hs.data]
    rfl
  have hgo : (b.turn s).2 = true := by
    have hturn := turn_turn b s
    generalize (b.turn s).1 = t, (b.turn s).2 = go at hturn
    cases hturn with
    | short h => omega
    | long h => omega
    | noBuffer _ halloc =>
      rw [hs.allocs, hk.alloc] at halloc
      exact absurd halloc (by decide)
    | take _ _ _ _ => exact decide_eq_true (by omega)
    | empty h _ => omega
    | stale _ _ h _ => omega
  refine ⟨hgo, ?_⟩
  rcases hs.turn (by omega) (turn_turn b s) with ⟨-, hshort, -⟩ | ⟨-, h⟩
  · exact absurd hk.payload (not_lt.mpr hshort)
  · exact (h hgo).2.1

/-- The loop comes to a sub-packet without a payload behind others, and hands a buffer on again. -/
theorem AtTurn.loop_unsafe (hwhole : b.Whole k) (hshort : b.pktLen (b.offset k) ≤ sdioIntfHeaderLen) (hk : 0 < k)
    (htaken : ∀ j < k, b.Taken j) : ∀ {fuel j : ℕ} {s : SpaState}, j ≤ k → AtTurn b j s → s.totalPktLen < fuel →
    ∀ t, b.loop fuel s = some t → ¬b.Safe t
  | fuel + 1, j, s, hj, hs, h, t, ht, hsafe => by
    have hwholej : b.Whole j := by
      rcases hj.lt_or_eq with hj | rfl
      · exact (htaken j hj).whole
      · exact hwhole
    have hheader := hwholej.header_le
    have hsum := hs.total
    rw [← hs.data] at hheader
    rw [loop, if_neg (by omega)] at ht
    rcases hj.lt_or_eq with hj | rfl
    · have hwhole' : b.Whole (j + 1) := by
        rcases (Nat.succ_le_of_lt hj).lt_or_eq with hlt | heq
        · exact (htaken (j + 1) hlt).whole
        · rw [show j + 1 = k from heq]
          exact hwhole
      obtain ⟨hgo, hs'⟩ := hs.turn_of_taken (htaken j hj) hwhole'
      have hless := (turn_turn b s).progress.2 hgo
      rw [if_pos hgo] at ht
      exact hs'.loop_unsafe hwhole hshort hk htaken (Nat.succ_le_of_lt hj) (by omega) t ht hsafe
    · have hstale : ∃ payload, (b.turn s).1.handed = s.handed ++ [(j - 1, payload)] := by
        have hblocks := hwhole.blocks_le
        have hpayload := hwhole.payload_le
        have hmbuf := hs.mbuf
        rw [if_neg hk.ne'] at hmbuf
        have hlen := hshort
        rw [← hs.data] at hblocks hpayload hlen
        have hturn := turn_turn b s
        generalize (b.turn s).1 = t', (b.turn s).2 = go at hturn
        cases hturn with
        | short h => omega
        | long h => omega
        | noBuffer h _ => omega
        | take _ _ h _ => omega
        | empty _ hbuf =>
          rw [hmbuf] at hbuf
          cases hbuf
        | stale _ _ _ hbuf =>
          rw [hmbuf] at hbuf
          obtain rfl := Option.some.inj hbuf
          exact ⟨_, rfl⟩
      have hpre : (b.turn s).1.handed <+: t.handed := by
        split_ifs at ht with hgo
        · have hless := (turn_turn b s).progress.2 hgo
          obtain ⟨t', ht', hpre⟩ : ∃ t', b.loop fuel (b.turn s).1 = some t' ∧ _ := loop_ends (by omega)
          rw [ht] at ht'
          exact Option.some.inj ht' ▸ hpre
        · obtain rfl := Option.some.inj ht
          exact prefix_rfl
      obtain ⟨payload, hhanded⟩ := hstale
      have hnodup := (hsafe.once.sublist (hpre.map Prod.fst).sublist)
      rw [hhanded, map_append, hs.ids, map_singleton] at hnodup
      exact (nodup_append.mp hnodup).2.2 (j - 1) (mem_range.mpr (by omega)) (j - 1) (mem_singleton_self _) rfl

/-- **Decoding of a single-port aggregate.** The call ends; and it reads inside the buffer and hands on new buffers, each
once, with the payloads of the sub-packets in their order, if no whole sub-packet behind others that it takes is without a
payload. -/
theorem decode_safe_iff (b : SpaInput) : (∃ t, b.decodeSpaBuffer = some t ∧ b.Safe t) ↔ b.Clean := by
  unfold decodeSpaBuffer
  by_cases hskip : 2 ^ 31 ≤ b.len.toNat ∨ b.len.toNat < b.rxBlockSize.toNat
  · rw [if_pos hskip]
    refine iff_of_true ⟨_, rfl, ⟨by simp [start], by simp [start], by simp [start], by simp [start]⟩⟩ ?_
    intro k hk htaken _
    have hwhole := (htaken 0 hk).whole
    have hlt := hwhole.len_lt
    have hblock := hwhole.block_le
    omega
  · rw [if_neg hskip]
    have hstart : AtTurn b 0 b.start :=
      ⟨rfl, Nat.zero_add _, rfl, rfl, rfl, by simp [start], by simp [start], by omega, by
        show 0 + b.rxBlockSize.toNat ≤ b.len.toNat
        omega⟩
    have hfuel : b.start.totalPktLen < b.len.toNat + 1 := Nat.lt_succ_self _
    constructor
    · rintro ⟨t, ht, hsafe⟩ k hk htaken hwhole
      by_contra hshort
      exact hstart.loop_unsafe hwhole (not_lt.mp hshort) hk htaken (Nat.zero_le k) hfuel t ht hsafe
    · intro hclean
      exact hstart.loop_safe hclean (by simp) hfuel

/-- Two sub-packets of one block, the second without a payload. -/
def twoSubPackets : SpaInput where
  buf := fun a => if a = 15 ∨ a = 271 then 1 else if a = 28 then 5 else if a = 284 then 4 else 0
  len := 512
  rxBlockSize := 256
  alloc := fun _ => true

/-- The buffer of the first sub-packet is handed on again for the second. -/
theorem not_safe_twoSubPackets : ¬∃ t, twoSubPackets.decodeSpaBuffer = some t ∧ twoSubPackets.Safe t := by
  rintro ⟨t, ht, hsafe⟩
  have hids : twoSubPackets.decodeSpaBuffer.map (fun t => t.handed.map Prod.fst) = some [0, 0] := by decide +kernel
  have honce := hsafe.once
  rw [ht, Option.map_some] at hids
  rw [Option.some.inj hids] at honce
  exact absurd honce (by decide)

end SpaInput

end WlanDriver.Sdio
