import WlanDriver.Lib.Memory
import WlanDriver.Reorder.Station

/-!
# Block ack synchronisation

`wlan_11n_rxba_sync_event` : the firmware tells which packets of which streams it dropped, as a chain of TLVs with a
bitmap each. The loop over the octets of a bitmap has a counter of eight bits and a bound of sixteen, so it is given
`fuel`; and it does not ask whether the bitmap lies inside of the event.

A TLV is `reached` when all before it were of the right type and for streams that have a table and are not in
resume. `rxbaSync_iff` : the event is handled exactly if the bitmaps that are reached have at most 255 octets
and lie inside of the event, and in a well-formed event nothing is set in those that are not.
-/

namespace WlanDriver.Reorder

open Ethernet List

variable {P : Type*} {wide : ℕ → BitVec 64} {dropped : P}

/-! ## The event -/

/-- The fixed part of a `MrvlIEtypes_RxBaSync_t` at `addr`. -/
structure RxBaSync where
  addr : ℕ
  type : ℕ
  len : ℕ
  mac : Mac
  tid : ℕ
  seqNum : ℕ
  bitmapLen : ℕ

/-- The 16-bit number in little endian order at `a`. -/
def le16 (m : Mem) (a : ℕ) : ℕ :=
  (m a).toNat + (m (a + 1)).toNat * 256

/-- The fields at `a`. -/
def readRxBaSync (m : Mem) (a : ℕ) : RxBaSync where
  addr := a
  type := le16 m a
  len := le16 m (a + 2)
  mac := ⟨m (a + 4), m (a + 5), m (a + 6), m (a + 7), m (a + 8), m (a + 9)⟩
  tid := (m (a + 10)).toNat
  seqNum := le16 m (a + 12)
  bitmapLen := le16 m (a + 14)

def tlvTypeRxbaSync : ℕ := 0x199

/-- What was read, what was fed to `mlan_11n_rxreorder_pkt`, and the tables. -/
structure SyncRun (P : Type*) where
  touched : List Span
  fed : List (Key × ℕ)
  station : Station P

namespace RxBaSync

variable (x : RxBaSync)

def key : Key := (x.mac, x.tid)

/-- Octet `i` of the bitmap. -/
def octet (i : ℕ) : Span := ⟨x.addr + 16 + i, 1⟩

end RxBaSync

namespace SyncRun

variable (wide dropped)

/-- `mlan_11n_rxreorder_pkt` with `RX_PKT_DROPPED_IN_FW`; a failure is only logged. -/
def feed (r : SyncRun P) (p : Key × ℕ) : SyncRun P :=
  { r with
    fed := r.fed ++ [p]
    station := r.station.rxPkt wide p.1 p.2 .data dropped }

/-- The loop over the bits of octet `i` of a bitmap. -/
def bitLoop (m : Mem) (x : RxBaSync) (r : SyncRun P) (i : ℕ) : SyncRun P :=
  (List.range 8).foldl
    (fun r j =>
      if (m (x.addr + 16 + i)).toNat.testBit j then r.feed wide dropped (x.key, (x.seqNum + i * 8 + j) % 4096) else r)
    { r with touched := r.touched ++ [x.octet i] }

/-- The loop over the octets of a bitmap. Its counter is a `t_u8`. -/
def octetLoop (m : Mem) (x : RxBaSync) : ℕ → ℕ → SyncRun P → Option (SyncRun P)
  | 0, _, _ => none
  | fuel + 1, i, r =>
    if i < x.bitmapLen then octetLoop m x fuel ((i + 1) % 256) (r.bitLoop wide dropped m x i) else some r

/-- The loop over the TLVs. -/
def tlvLoop (fuel : ℕ) (m : Mem) (a : ℕ) (tlvBufLeft : ℤ) (r : SyncRun P) : Option (SyncRun P) :=
  if tlvBufLeft < 16 then some r
  else
    let x := readRxBaSync m a
    let r := { r with touched := r.touched ++ [⟨a, 4⟩] }
    if x.type ≠ tlvTypeRxbaSync then some r
    else
      let r := { r with touched := r.touched ++ [⟨a + 4, 12⟩] }
      match getRxReorderTbl r.station.tables x.key with
      | none => some r
      | some t =>
        if t.forceNoDrop then some r
        else
          match octetLoop wide dropped m x fuel 0 r with
          | none => none
          | some r => tlvLoop fuel m (a + (x.len + 4)) (tlvBufLeft - (4 + x.len)) r
termination_by tlvBufLeft.toNat
decreasing_by omega

end SyncRun

/-- `wlan_11n_rxba_sync_event`; none when it has not ended after `fuel` octets of one bitmap. -/
def rxbaSyncEvent (wide : ℕ → BitVec 64) (dropped : P) (fuel : ℕ) (m : Mem) (len : ℕ) (s : Station P) :
    Option (SyncRun P) :=
  SyncRun.tlvLoop wide dropped fuel m 0 len ⟨[], [], s⟩

/-! ## Streams that take a drop -/

/-- The stream has a table, and is not in resume. -/
def isOpen (tables : List (RxReorderTbl P)) (k : Key) : Bool :=
  (getRxReorderTbl tables k).any fun t => !t.forceNoDrop

section Open

variable {t : RxReorderTbl P} {tables : List (RxReorderTbl P)} {k k' : Key} {seq : ℕ} {ty : PktType} {payload : P}

theorem getRxReorderTbl_set {t' : RxReorderTbl P} (ht : getRxReorderTbl tables k = some t) (hkey : t'.key = t.key) :
    getRxReorderTbl (setRxReorderTbl k t' tables) k' = if k' = k then some t' else getRxReorderTbl tables k' := by
  unfold getRxReorderTbl at ht ⊢
  induction tables with
  | nil => exact absurd ht (by simp)
  | cons u us ih =>
    by_cases hu : u.key = k
    · obtain rfl : u = t := by simpa [find?_cons, hu] using ht
      rw [setRxReorderTbl, if_pos hu, find?_cons, find?_cons, hkey, hu]
      by_cases hk : k' = k
      · simp [hk]
      · simp [hk, Ne.symm hk]
    · rw [find?_cons_of_neg (by simpa using hu)] at ht
      rw [setRxReorderTbl, if_neg hu, find?_cons, find?_cons, ih ht]
      by_cases hk : u.key = k'
      · subst hk
        simp [hu]
      · simp [hk]

/-- A packet opens and closes no stream. -/
theorem isOpen_rxPkt (s : Station P) (k : Key) (seq : ℕ) (ty : PktType) (payload : P) (hk : isOpen s.tables k) :
    isOpen (s.rxPkt wide k seq ty payload).tables k' = isOpen s.tables k' := by
  unfold Station.rxPkt
  dsimp only
  rcases @Station.rxReorder_cases _ wide s.tables k seq ty payload with heq | ⟨t, ht, -, heq⟩
  · rw [heq]
  · have hkept := @RxReorderTbl.kept_rxReorderPkt _ wide t seq ty payload
    rw [heq]
    unfold isOpen at hk ⊢
    rw [getRxReorderTbl_set ht (Prod.ext hkept.ta hkept.tid)]
    split_ifs with h
    · subst h
      rw [ht, Option.any_some, Bool.not_eq_true'] at hk
      rw [ht, Option.any_some, Option.any_some, hk, hkept.resumed hk]
    · rfl

end Open

/-! ## Runs of packets -/

namespace SyncRun

variable {m : Mem} {x : RxBaSync} {r r' : SyncRun P}

/-- Several packets, one after the other. -/
def feeds (wide : ℕ → BitVec 64) (dropped : P) (r : SyncRun P) (l : List (Key × ℕ)) : SyncRun P :=
  l.foldl (feed wide dropped) r

theorem feeds_append (r : SyncRun P) (l l' : List (Key × ℕ)) :
    r.feeds wide dropped (l ++ l') = (r.feeds wide dropped l).feeds wide dropped l' :=
  foldl_append

theorem feeds_fed (r : SyncRun P) (l : List (Key × ℕ)) : (r.feeds wide dropped l).fed = r.fed ++ l := by
  induction l generalizing r with
  | nil => exact (append_nil _).symm
  | cons p l ih => rw [feeds, foldl_cons, ← feeds, ih, feed, append_assoc, singleton_append]

@[simp] theorem feeds_touched (r : SyncRun P) (l : List (Key × ℕ)) : (r.feeds wide dropped l).touched = r.touched := by
  induction l generalizing r with
  | nil => rfl
  | cons p l ih => exact ih (r.feed wide dropped p)

/-- What is touched. -/
def touch (r : SyncRun P) (l : List Span) : SyncRun P :=
  { r with touched := r.touched ++ l }

theorem touch_touch (r : SyncRun P) (l l' : List Span) : (r.touch l).touch l' = r.touch (l ++ l') := by
  rw [touch, touch, touch, append_assoc]

theorem feeds_touch (r : SyncRun P) (l : List (Key × ℕ)) (l' : List Span) :
    (r.feeds wide dropped l).touch l' = (r.touch l').feeds wide dropped l := by
  induction l generalizing r with
  | nil => rfl
  | cons p l ih => exact ih (r.feed wide dropped p)

/-- Packets of an open stream leave every stream as open as it was. -/
theorem isOpen_feeds {l : List (Key × ℕ)} (hl : ∀ p ∈ l, isOpen r.station.tables p.1) (k : Key) :
    isOpen (r.feeds wide dropped l).station.tables k = isOpen r.station.tables k := by
  induction l generalizing r with
  | nil => rfl
  | cons p l ih =>
    have hp : ∀ k, isOpen (r.feed wide dropped p).station.tables k = isOpen r.station.tables k := fun k =>
      isOpen_rxPkt r.station p.1 p.2 .data dropped (hl p mem_cons_self)
    rw [feeds, foldl_cons, ← feeds, ih, hp]
    exact fun q hq => (hp q.1).trans (hl q (mem_cons_of_mem p hq))

end SyncRun

namespace RxBaSync

variable (m : Mem) (x : RxBaSync)

/-- The sequence numbers of the bits that are set in octet `i`. -/
def octetSeqs (i : ℕ) : List ℕ :=
  ((List.range 8).filter fun j => (m (x.addr + 16 + i)).toNat.testBit j).map fun j => (x.seqNum + 8 * i + j) % 4096

/-- The sequence numbers of the bits that are set, with the stream. -/
def seqs : List (Key × ℕ) :=
  ((List.range x.bitmapLen).flatMap (x.octetSeqs m)).map (x.key, ·)

end RxBaSync

namespace SyncRun

variable {m : Mem} {x : RxBaSync} {r r' : SyncRun P}

theorem foldl_feed_if (p : ℕ → Bool) (f : ℕ → Key × ℕ) (l : List ℕ) (r : SyncRun P) :
    l.foldl (fun r j => if p j then r.feed wide dropped (f j) else r) r = r.feeds wide dropped ((l.filter p).map f) := by
  induction l generalizing r with
  | nil => rfl
  | cons j l ih =>
    rw [foldl_cons, ih, filter_cons]
    split_ifs <;> rfl

theorem bitLoop_eq (i : ℕ) : r.bitLoop wide dropped m x i =
    (r.touch [x.octet i]).feeds wide dropped ((x.octetSeqs m i).map (x.key, ·)) := by
  rw [bitLoop, foldl_feed_if, RxBaSync.octetSeqs, map_map]
  simp only [Function.comp_def, Nat.mul_comm i 8]
  rfl

/-- Octets of a bitmap from `i` on. -/
def octets (wide : ℕ → BitVec 64) (dropped : P) (m : Mem) (x : RxBaSync) (i n : ℕ) (r : SyncRun P) : SyncRun P :=
  (range' i n).foldl (bitLoop wide dropped m x) r

theorem octets_eq (i n : ℕ) (r : SyncRun P) : octets wide dropped m x i n r =
    (r.touch ((range' i n).map x.octet)).feeds wide dropped
      (((range' i n).flatMap (x.octetSeqs m)).map (x.key, ·)) := by
  induction n generalizing i r with
  | zero => simp [octets, touch, feeds]
  | succ n ih =>
    have ih := ih (i + 1) (r.bitLoop wide dropped m x i)
    rw [octets] at ih ⊢
    rw [range'_succ, foldl_cons, ih, bitLoop_eq, feeds_touch, touch_touch, ← feeds_append, flatMap_cons,
      map_append, map_cons, singleton_append]

/-- Up to 255 octets, the loop ends as soon as the fuel allows it. -/
theorem octetLoop_eq (hx : x.bitmapLen ≤ 255) {fuel i : ℕ} (hi : i ≤ x.bitmapLen) :
    octetLoop wide dropped m x fuel i r =
      if x.bitmapLen - i < fuel then some (octets wide dropped m x i (x.bitmapLen - i) r) else none := by
  induction fuel generalizing i r with
  | zero => rfl
  | succ fuel ih =>
    rw [octetLoop]
    by_cases h : i < x.bitmapLen
    · obtain ⟨n, hn⟩ : ∃ n, x.bitmapLen - i = n + 1 := ⟨x.bitmapLen - i - 1, by omega⟩
      have hmod : (i + 1) % 256 = i + 1 := by omega
      have hn' : x.bitmapLen - (i + 1) = n := by omega
      rw [if_pos h, hmod, ih (by omega), hn, hn', octets, octets, range'_succ, foldl_cons]
      simp only [Nat.add_lt_add_iff_right]
    · have hz : x.bitmapLen - i = 0 := by omega
      rw [if_neg h, hz, if_pos (Nat.zero_lt_succ fuel)]
      rfl

theorem octetLoop_eq_none (hx : 256 ≤ x.bitmapLen) (fuel : ℕ) {i : ℕ} (hi : i < 256) :
    octetLoop wide dropped m x fuel i r = none := by
  induction fuel generalizing i r with
  | zero => rfl
  | succ fuel ih =>
    rw [octetLoop, if_pos (hi.trans_le hx)]
    exact ih (Nat.mod_lt _ (by decide))

/-! ## The loop over the TLVs -/

/-- The TLVs whose bitmaps are looked at. -/
def reached (m : Mem) (tables : List (RxReorderTbl P)) (a : ℕ) (tlvBufLeft : ℤ) : List RxBaSync :=
  if tlvBufLeft < 16 then []
  else
    let x := readRxBaSync m a
    if x.type = tlvTypeRxbaSync ∧ isOpen tables x.key then
      x :: reached m tables (a + (x.len + 4)) (tlvBufLeft - (4 + x.len))
    else []
termination_by tlvBufLeft.toNat
decreasing_by omega

/-- The fixed part at `a`. -/
def fixedPart (a : ℕ) : List Span :=
  [⟨a, 4⟩, ⟨a + 4, 12⟩]

variable {a : ℕ} {left : ℤ} {fuel : ℕ}

/-- A TLV that is not for this event, or whose stream is not open, ends it. -/
theorem tlvLoop_stop (hleft : ¬left < 16)
    (hx : ¬((readRxBaSync m a).type = tlvTypeRxbaSync ∧ isOpen r.station.tables (readRxBaSync m a).key)) :
    ∃ l ⊆ fixedPart a, tlvLoop wide dropped fuel m a left r = some (r.touch l) := by
  rw [tlvLoop, if_neg hleft]
  dsimp only
  by_cases htype : (readRxBaSync m a).type = tlvTypeRxbaSync
  · rw [if_neg (not_not.mpr htype)]
    have hclosed : isOpen r.station.tables (readRxBaSync m a).key = false := by simpa [htype] using hx
    refine ⟨fixedPart a, List.Subset.refl _, ?_⟩
    unfold isOpen at hclosed
    cases ht : getRxReorderTbl r.station.tables (readRxBaSync m a).key with
    | none =>
      dsimp only
      rw [append_assoc]
      rfl
    | some t =>
      rw [ht, Option.any_some, Bool.not_eq_false'] at hclosed
      dsimp only
      rw [if_pos hclosed, append_assoc]
      rfl
  · rw [if_pos htype]
    exact ⟨[⟨a, 4⟩], by simp [fixedPart], rfl⟩

/-- The bitmap of an open stream is looked at. -/
theorem tlvLoop_open (hleft : ¬left < 16)
    (hx : (readRxBaSync m a).type = tlvTypeRxbaSync ∧ isOpen r.station.tables (readRxBaSync m a).key) :
    tlvLoop wide dropped fuel m a left r =
      (octetLoop wide dropped m (readRxBaSync m a) fuel 0 (r.touch (fixedPart a))).bind
        (tlvLoop wide dropped fuel m (a + ((readRxBaSync m a).len + 4)) (left - (4 + (readRxBaSync m a).len))) := by
  obtain ⟨htype, hopen⟩ := hx
  unfold isOpen at hopen
  rw [tlvLoop, if_neg hleft]
  dsimp only
  rw [if_neg (not_not.mpr htype)]
  cases ht : getRxReorderTbl r.station.tables (readRxBaSync m a).key with
  | none => simp [ht] at hopen
  | some t =>
    rw [ht, Option.any_some, Bool.not_eq_true'] at hopen
    simp only [hopen, Bool.false_eq_true, if_false, append_assoc, cons_append, nil_append]
    rw [touch, fixedPart]
    generalize octetLoop wide dropped m (readRxBaSync m a) fuel 0 _ = o
    cases o <;> rfl

/-- A loop that ends has fed a bitmap. -/
theorem octetLoop_some (h : octetLoop wide dropped m x fuel 0 r = some r') : x.bitmapLen ≤ 255 ∧
    r' = (r.touch ((List.range x.bitmapLen).map x.octet)).feeds wide dropped (x.seqs m) := by
  rcases Nat.lt_or_ge 255 x.bitmapLen with hx | hx
  · rw [octetLoop_eq_none hx fuel (by decide)] at h
    exact absurd h (by simp)
  · rw [octetLoop_eq hx (Nat.zero_le _), octets_eq, Nat.sub_zero, ← range_eq_range'] at h
    split_ifs at h
    exact ⟨hx, (Option.some.inj h).symm⟩

/-- With fuel for every 8-bit counter, a bitmap is fed. -/
theorem octetLoop_open (hx : x.bitmapLen ≤ 255) (hfuel : 256 ≤ fuel) : octetLoop wide dropped m x fuel 0 r =
    some ((r.touch ((List.range x.bitmapLen).map x.octet)).feeds wide dropped (x.seqs m)) := by
  rw [octetLoop_eq hx (Nat.zero_le _), if_pos (by omega), octets_eq, Nat.sub_zero, ← range_eq_range', RxBaSync.seqs]

/-- What the loop has done when it has ended. -/
structure Done (m : Mem) (wide : ℕ → BitVec 64) (dropped : P) (n : ℕ) (r : SyncRun P) (l : List RxBaSync) (r' : SyncRun P) :
    Prop where
  short : ∀ x ∈ l, x.bitmapLen ≤ 255
  run : ∃ L, r' = (r.touch L).feeds wide dropped (l.flatMap (RxBaSync.seqs m)) ∧
    (∀ x ∈ l, ∀ i < x.bitmapLen, x.octet i ∈ L) ∧
    ∀ t ∈ L, t.Inside 0 n ∨ ∃ x ∈ l, ∃ i < x.bitmapLen, t = x.octet i

theorem fixedPart_inside {n : ℕ} (hleft : ¬left < 16) (hend : (a : ℤ) + left = n) {t : Span} (ht : t ∈ fixedPart a) :
    t.Inside 0 n := by
  simp only [fixedPart, mem_cons, not_mem_nil, or_false] at ht
  rcases ht with rfl | rfl
  · exact ⟨Nat.zero_le _, by dsimp only; omega⟩
  · exact ⟨Nat.zero_le _, by dsimp only; omega⟩

/-- Behind a bitmap, all streams are as they were. -/
theorem isOpen_seqs {tables : List (RxReorderTbl P)} (hopen : ∀ k, isOpen r.station.tables k = isOpen tables k)
    (hx : isOpen tables x.key = true) (l l' : List Span) (k : Key) :
    isOpen (((r.touch l).touch l').feeds wide dropped (x.seqs m)).station.tables k = isOpen tables k := by
  have hseqs : ∀ p ∈ x.seqs m, isOpen ((r.touch l).touch l').station.tables p.1 := fun p hp => by
    obtain ⟨q, -, rfl⟩ := mem_map.mp hp
    exact (hopen x.key).trans hx
  exact (isOpen_feeds hseqs k).trans (hopen k)

/-- If the loop ends, it has fed what is reached, and has looked at all the octets of its bitmaps. -/
theorem tlvLoop_done {tables : List (RxReorderTbl P)} {n : ℕ} (hopen : ∀ k, isOpen r.station.tables k = isOpen tables k)
    (hend : (a : ℤ) + left = n) (h : tlvLoop wide dropped fuel m a left r = some r') :
    Done m wide dropped n r (reached m tables a left) r' := by
  induction a, left using reached.induct m tables generalizing r with
  | case1 a left hshort =>
    rw [tlvLoop, if_pos hshort] at h
    obtain rfl := Option.some.inj h
    rw [reached, if_pos hshort]
    exact ⟨nofun, [], by simp [touch, feeds], nofun, nofun⟩
  | case2 a left hlong x =>
    rename_i hx ih
    rw [reached, if_neg hlong]
    dsimp only
    rw [if_pos hx]
    rw [tlvLoop_open hlong ⟨hx.1, (hopen _).trans hx.2⟩] at h
    obtain ⟨r₁, h₁, h₂⟩ := Option.bind_eq_some_iff.mp h
    obtain ⟨hshort, rfl⟩ := octetLoop_some h₁
    obtain ⟨hall, L, rfl, hin, hL⟩ := ih (isOpen_seqs hopen hx.2 _ _) (by dsimp only [x]; omega) h₂
    refine ⟨?_, fixedPart a ++ (List.range (readRxBaSync m a).bitmapLen).map (readRxBaSync m a).octet ++ L, ?_, ?_, ?_⟩
    · intro y hy
      rcases mem_cons.mp hy with rfl | hy
      · exact hshort
      · exact hall y hy
    · rw [feeds_touch, touch_touch, touch_touch, append_assoc, flatMap_cons, feeds_append]
    · intro y hy i hi
      rcases mem_cons.mp hy with rfl | hy
      · exact mem_append_left _ (mem_append_right _ (mem_map_of_mem (mem_range.mpr hi)))
      · exact mem_append_right _ (hin y hy i hi)
    · intro t ht
      rcases mem_append.mp ht with ht | ht
      · rcases mem_append.mp ht with ht | ht
        · exact .inl (fixedPart_inside hlong hend ht)
        · obtain ⟨i, hi, rfl⟩ := mem_map.mp ht
          exact .inr ⟨_, mem_cons_self, i, mem_range.mp hi, rfl⟩
      · rcases hL t ht with ht | ⟨y, hy, i, hi, rfl⟩
        · exact .inl ht
        · exact .inr ⟨y, mem_cons_of_mem _ hy, i, hi, rfl⟩
  | case3 a left hlong x =>
    rename_i hx
    rw [reached, if_neg hlong]
    dsimp only
    rw [if_neg hx]
    obtain ⟨L, hsub, heq⟩ := @tlvLoop_stop P wide dropped m r a left fuel hlong (by rw [hopen]; exact hx)
    rw [heq] at h
    obtain rfl := Option.some.inj h
    exact ⟨nofun, L, rfl, nofun, fun t ht => .inl (fixedPart_inside hlong hend (hsub ht))⟩

/-- With fuel for every 8-bit counter, the loop ends unless a bitmap has more octets than such a counter counts. -/
theorem tlvLoop_isSome {tables : List (RxReorderTbl P)} (hopen : ∀ k, isOpen r.station.tables k = isOpen tables k)
    (hfuel : 256 ≤ fuel) (h : ∀ x ∈ reached m tables a left, x.bitmapLen ≤ 255) :
    ∃ r', tlvLoop wide dropped fuel m a left r = some r' := by
  induction a, left using reached.induct m tables generalizing r with
  | case1 a left hshort => exact ⟨r, by rw [tlvLoop, if_pos hshort]⟩
  | case2 a left hlong x =>
    rename_i hx ih
    rw [reached, if_neg hlong] at h
    dsimp only at h
    rw [if_pos hx] at h
    rw [tlvLoop_open hlong ⟨hx.1, (hopen _).trans hx.2⟩, octetLoop_open (h _ mem_cons_self) hfuel, Option.bind_some]
    exact ih (isOpen_seqs hopen hx.2 _ _) fun y hy => h y (mem_cons_of_mem _ hy)
  | case3 a left hlong x =>
    rename_i hx
    obtain ⟨L, -, heq⟩ := @tlvLoop_stop P wide dropped m r a left fuel hlong (by rw [hopen]; exact hx)
    exact ⟨_, heq⟩

theorem feeds_station (r : SyncRun P) (l : List (Key × ℕ)) : (r.feeds wide dropped l).station =
    l.foldl (fun s p => s.rxPkt wide p.1 p.2 .data dropped) r.station := by
  induction l generalizing r with
  | nil => rfl
  | cons p l ih => exact ih (r.feed wide dropped p)

end SyncRun

/-! ## The event -/

section Event

open SyncRun

variable {m : Mem} {x : RxBaSync} {a : ℕ} {left : ℤ} {n : ℕ} {l : List RxBaSync} {s : Station P}
  {tables : List (RxReorderTbl P)}

/-- The octets from `a` on are just these TLVs, each as long as its bitmap makes it. -/
inductive TlvChain (m : Mem) : ℕ → ℤ → List RxBaSync → Prop
  | nil (a : ℕ) : TlvChain m a 0 []
  | cons {a : ℕ} {left : ℤ} {l : List RxBaSync} (htype : (readRxBaSync m a).type = tlvTypeRxbaSync)
      (hlen : (readRxBaSync m a).len = 12 + (readRxBaSync m a).bitmapLen)
      (hrest : TlvChain m (a + ((readRxBaSync m a).len + 4)) left l) :
      TlvChain m a (4 + (readRxBaSync m a).len + left) (readRxBaSync m a :: l)

theorem TlvChain.nonneg (h : TlvChain m a left l) : 0 ≤ left := by
  induction h with
  | nil => exact le_rfl
  | cons _ _ _ ih => omega

/-- In a well-formed event, what is reached are the TLVs up to the first whose stream is not open. -/
theorem TlvChain.reached_eq (h : TlvChain m a left l) :
    reached m tables a left = l.takeWhile fun x => isOpen tables x.key := by
  induction h with
  | nil a =>
    rw [reached, if_pos (by decide)]
    rfl
  | @cons a left l htype hlen hrest ih =>
    have hnonneg := hrest.nonneg
    rw [reached, if_neg (by omega)]
    dsimp only
    rw [takeWhile_cons, add_sub_cancel_left, ih]
    by_cases hopen : isOpen tables (readRxBaSync m a).key
    · rw [if_pos ⟨htype, hopen⟩, if_pos hopen]
    · rw [if_neg fun h => hopen h.2, if_neg hopen]

theorem reached_addr (hend : (a : ℤ) + left = n) (hx : x ∈ reached m tables a left) : x.addr + 16 ≤ n := by
  induction a, left using reached.induct m tables with
  | case1 a left hshort =>
    rw [reached, if_pos hshort] at hx
    exact absurd hx not_mem_nil
  | case2 a left hlong y hy ih =>
    rw [reached, if_neg hlong] at hx
    dsimp only at hx
    rw [if_pos hy] at hx
    rcases mem_cons.mp hx with rfl | hx
    · dsimp only [readRxBaSync]
      omega
    · exact ih (by dsimp only [y]; omega) hx
  | case3 a left hlong y hy =>
    rw [reached, if_neg hlong] at hx
    dsimp only at hx
    rw [if_neg hy] at hx
    exact absurd hx not_mem_nil

theorem head_mem_reached (hleft : 16 ≤ left)
    (hx : (readRxBaSync m a).type = tlvTypeRxbaSync ∧ isOpen tables (readRxBaSync m a).key) :
    readRxBaSync m a ∈ reached m tables a left := by
  rw [reached, if_neg (by omega)]
  dsimp only
  rw [if_pos hx]
  exact mem_cons_self

/-- The bitmap can be counted through with eight bits, and lies inside of the event. -/
structure RxBaSync.Sound (n : ℕ) (x : RxBaSync) : Prop where
  short : x.bitmapLen ≤ 255
  inside : x.addr + 16 + x.bitmapLen ≤ n

/-- The function ends, having read only the event; and of a well-formed event, it has fed the packets whose bits
are set, in order. -/
def Handled (wide : ℕ → BitVec 64) (dropped : P) (m : Mem) (n : ℕ) (s : Station P) : Prop :=
  ∃ fuel r, rxbaSyncEvent wide dropped fuel m n s = some r ∧ (∀ t ∈ r.touched, t.Inside 0 n) ∧
    ∀ l, TlvChain m 0 n l → r.fed = l.flatMap (RxBaSync.seqs m) ∧
      r.station = (l.flatMap (RxBaSync.seqs m)).foldl (fun s p => s.rxPkt wide p.1 p.2 .data dropped) s

/-- What an event that is handled reaches. -/
theorem Handled.sound (h : Handled wide dropped m n s) (hx : x ∈ reached m s.tables 0 n) : x.Sound n := by
  obtain ⟨fuel, r, hrun, hinside, -⟩ := h
  obtain ⟨hshort, L, rfl, hin, -⟩ := tlvLoop_done (fun _ => rfl) (n := n) (Int.zero_add _) hrun
  refine ⟨hshort x hx, ?_⟩
  have haddr : x.addr + 16 ≤ n := reached_addr (by omega) hx
  rcases Nat.eq_zero_or_pos x.bitmapLen with hzero | hpos
  · omega
  · have hmem : x.octet (x.bitmapLen - 1) ∈ ((⟨[], [], s⟩ : SyncRun P).touch L |>.feeds wide dropped
        ((reached m s.tables 0 n).flatMap (RxBaSync.seqs m))).touched := by
      rw [feeds_touched]
      exact mem_append_right _ (hin x hx _ (Nat.sub_lt hpos Nat.one_pos))
    have hlast := (hinside _ hmem).2
    dsimp only [RxBaSync.octet] at hlast
    omega

/-- The event is handled exactly if all bitmaps reached are sound, and none has a bit set that is not reached. -/
theorem rxbaSync_iff (wide : ℕ → BitVec 64) (dropped : P) (m : Mem) (n : ℕ) (s : Station P) :
    Handled wide dropped m n s ↔ (∀ x ∈ reached m s.tables 0 n, x.Sound n) ∧
      ∀ l, TlvChain m 0 n l → ∀ x ∈ l.dropWhile fun x => isOpen s.tables x.key, x.seqs m = [] := by
  have hsplit : ∀ {l}, TlvChain m 0 n l → l.flatMap (RxBaSync.seqs m) = (reached m s.tables 0 n).flatMap (RxBaSync.seqs m) ++
      (l.dropWhile fun x => isOpen s.tables x.key).flatMap (RxBaSync.seqs m) := fun {l} hl => by
    rw [hl.reached_eq, ← flatMap_append, takeWhile_append_dropWhile]
  constructor
  · refine fun h => ⟨fun x hx => h.sound hx, fun l hl => ?_⟩
    obtain ⟨fuel, r, hrun, -, hfed⟩ := h
    obtain ⟨-, L, rfl, -, -⟩ := tlvLoop_done (fun _ => rfl) (n := n) (Int.zero_add _) hrun
    have hfed := (hfed l hl).1
    rw [feeds_fed, hsplit hl] at hfed
    exact flatMap_eq_nil_iff.mp (self_eq_append_right.mp hfed)
  · rintro ⟨hsound, hrest⟩
    obtain ⟨r, hrun⟩ := @tlvLoop_isSome P wide dropped m ⟨[], [], s⟩ 0 n 256 s.tables (fun _ => rfl) le_rfl
      fun x hx => (hsound x hx).short
    obtain ⟨-, L, rfl, -, hL⟩ := tlvLoop_done (fun _ => rfl) (n := n) (Int.zero_add _) hrun
    refine ⟨256, _, hrun, fun t ht => ?_, fun l hl => ?_⟩
    · rw [feeds_touched] at ht
      rcases hL t ht with ht | ⟨x, hx, i, hi, rfl⟩
      · exact ht
      · have hin := (hsound x hx).inside
        exact ⟨Nat.zero_le _, by dsimp only [RxBaSync.octet]; omega⟩
    · rw [feeds_fed, feeds_station, hsplit hl, flatMap_eq_nil_iff.mpr (hrest l hl), append_nil]
      exact ⟨rfl, rfl⟩

end Event

/-- A station with one table. -/
def oneTable : Station ℕ :=
  { emptyStation with tables := [.create someMac 0 4 0 defaultSeqNum] }

/-- An event with a bitmap of 256 octets, none of whose bits is set. -/
def longBitmap : Mem := fun a =>
  [0x99, 0x01, 0x0c, 0x01, 2, 0, 0, 0, 0, 1, 0, 0, 0, 0, 0x00, 0x01].getD a 0

/-- A well-formed event that is never done. -/
theorem rxbaSync_endless : TlvChain longBitmap 0 272 [readRxBaSync longBitmap 0] ∧
    ¬Handled RxReorderTbl.maskedShl 7 longBitmap 272 oneTable := by
  constructor
  · exact .cons (by decide) (by decide) (.nil _)
  · intro h
    have hmem := @head_mem_reached ℕ longBitmap 0 272 oneTable.tables (by decide) ⟨by decide, by decide⟩
    exact absurd (h.sound hmem).short (by decide)

end WlanDriver.Reorder
