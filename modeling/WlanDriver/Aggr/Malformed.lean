import WlanDriver.Aggr.Amsdu

/-!
# Malformed aggregates

What `wlan_11n_get_num_aggrpkts` and the loop of `wlan_11n_deaggregate_pkt` touch of the octets of an aggregate,
whatever these are. A subframe is accepted when its header and as many octets as its length field says are left;
the header is not added (`Subheader`).

`deaggregate_safe_iff` : everything lies inside of the aggregate, and every frame is one, exactly if each accepted
subframe `Fits`. The number of frames is right in any case (`length_deaggregateLoop`).
-/

namespace WlanDriver.Aggr

open List Mem

/-! ## What is touched -/

/-- `wlan_11n_get_num_aggrpkts` : what it reads. -/
def getNumAggrpktsReads (cfg : DeaggrCfg) (m : Mem) (data : ℕ) (totalPktLen : ℤ) : List Span :=
  if totalPktLen < 14 then []
  else
    let pktLen := ntohs m (data + 12)
    (if cfg.uap then [⟨data, 6⟩] else []) ++ ⟨data + 12, 2⟩ ::
      if totalPktLen < pktLen then []
      else
        let pad := padLen (pktLen + 14)
        getNumAggrpktsReads cfg m (data + (pktLen + pad + 14)) (totalPktLen - (pktLen + pad + 14 : ℕ))
termination_by totalPktLen.toNat
decreasing_by omega

/-- What the loop of `wlan_11n_deaggregate_pkt` does with the octets. A frame is copied, and the next subframe starts at
`next`. -/
inductive Touch
  | read (r : Span)
  | write (r : Span)
  | emit (r : Span) (next : ℕ) (frame : List UInt8)

def Touch.span : Touch → Span
  | .read r | .write r | .emit r _ _ => r

def Touch.frame : Touch → Option (List UInt8)
  | .emit _ _ frame => some frame
  | _ => none

/-- The header of a frame is looked at and made up in place. -/
def headerTouches (data : ℕ) (snap : Bool) : List Touch :=
  .read ⟨data + 14, 6⟩ :: if snap then [.read ⟨data, 12⟩, .write ⟨data + 8, 12⟩] else [.write ⟨data + 12, 2⟩]

/-- The loop of `wlan_11n_deaggregate_pkt`, step by step as `deaggregateLoop`. -/
def deaggregateTouches (alloc : ℕ → Bool) (i : ℕ) (m : Mem) (data : ℕ) (totalPktLen : ℤ) : List Touch :=
  if totalPktLen < 14 then []
  else
    let pktLen := ntohs m (data + 12)
    .read ⟨data + 12, 2⟩ ::
      if totalPktLen < pktLen then []
      else
        let pad := padLen (pktLen + 14)
        let snap := m.read (data + 14) 6 = rfc1042EthHdr
        let header := headerTouches data snap
        let m := if snap then m.memmove (data + 8) data 12 else m.write (data + 12) [0, 0]
        let data := if snap then data + 8 else data
        let len := if snap then (pktLen + 14 - 8) % 65536 else (pktLen + 14) % 65536
        header ++
          if alloc i then
            .emit ⟨data, len⟩ (data + (len + pad)) (m.read data len) ::
              deaggregateTouches alloc (i + 1) m (data + (len + pad)) (totalPktLen - (pktLen + pad + 14 : ℕ))
          else []
termination_by totalPktLen.toNat
decreasing_by omega

theorem filterMap_read (r : Span) (l : List Touch) :
    (.read r :: l).filterMap Touch.frame = l.filterMap Touch.frame := rfl

theorem filterMap_emit (r : Span) (next : ℕ) (frame : List UInt8) (l : List Touch) :
    (.emit r next frame :: l).filterMap Touch.frame = frame :: l.filterMap Touch.frame := rfl

theorem filterMap_headerTouches (data : ℕ) (snap : Bool) : (headerTouches data snap).filterMap Touch.frame = [] := by
  cases snap <;> rfl

/-- The frames of the loop are those that it emits. -/
theorem deaggregateLoop_eq (cfg : DeaggrCfg) (alloc : ℕ → Bool) (i : ℕ) (m : Mem) (data : ℕ) (totalPktLen : ℤ) :
    deaggregateLoop cfg alloc i m data totalPktLen =
      ((deaggregateTouches alloc i m data totalPktLen).filterMap Touch.frame).map
        fun frame => (route cfg frame, frame) := by
  induction i, m, data, totalPktLen using deaggregateLoop.induct alloc with
  | case1 i m data total hshort =>
    rw [deaggregateLoop, deaggregateTouches, if_pos hshort, if_pos hshort]
    rfl
  | case2 i m data total hlen pktLen hlong =>
    rw [deaggregateLoop, deaggregateTouches, if_neg hlen, if_neg hlen]
    dsimp only
    rw [if_pos hlong, if_pos hlong]
    rfl
  | case3 i m data total hlen pktLen hfit pad snap m' data' len halloc ih =>
    rw [deaggregateLoop, deaggregateTouches, if_neg hlen, if_neg hlen]
    dsimp only
    rw [if_neg hfit, if_neg hfit, if_pos halloc, if_pos halloc]
    rw [filterMap_read, filterMap_append, filterMap_headerTouches, nil_append,
      filterMap_emit, map_cons]
    exact congrArg _ ih
  | case4 i m data total hlen pktLen hfit halloc =>
    rw [deaggregateLoop, deaggregateTouches, if_neg hlen, if_neg hlen]
    dsimp only
    rw [if_neg hfit, if_neg hfit, if_neg halloc, if_neg halloc]
    rw [filterMap_read, filterMap_append, filterMap_headerTouches]
    rfl

/-! ## Subframes that are accepted -/

/-- A subframe : where it starts, how many octets are left from there on, its length field, and whether the LLC/SNAP
header of RFC 1042 follows. -/
structure Subheader where
  start : ℕ
  left : ℕ
  pktLen : ℕ
  snap : Bool
  deriving DecidableEq

/-- The subframes that `getNumAggrpkts` counts. -/
def subheaders (m : Mem) (data : ℕ) (totalPktLen : ℤ) : List Subheader :=
  if totalPktLen < 14 then []
  else
    let pktLen := ntohs m (data + 12)
    if totalPktLen < pktLen then []
    else
      let pad := padLen (pktLen + 14)
      ⟨data, totalPktLen.toNat, pktLen, m.read (data + 14) 6 = rfc1042EthHdr⟩ ::
        subheaders m (data + (pktLen + pad + 14)) (totalPktLen - (pktLen + pad + 14 : ℕ))
termination_by totalPktLen.toNat
decreasing_by omega

namespace Subheader

variable (x : Subheader)

/-- The frame : without the LLC/SNAP header, if there is one. -/
def frame : Span :=
  if x.snap then ⟨x.start + 8, x.pktLen + 6⟩ else ⟨x.start, x.pktLen + 14⟩

/-- Where the next subframe starts. -/
def next : ℕ :=
  x.start + (x.pktLen + padLen (x.pktLen + 14) + 14)

/-- What the loop relies on : six octets stand behind the header, and what the length field says behind it; what has the
LLC/SNAP header is not shorter than it. -/
structure Fits : Prop where
  compared : 20 ≤ x.left
  whole : x.pktLen + 14 ≤ x.left
  long : x.snap = true → 8 ≤ x.pktLen

end Subheader

variable {m m' : Mem} {data : ℕ} {total : ℤ} {x : Subheader}

/-- The count is the number of subframes. -/
theorem getNumAggrpkts_eq (cfg : DeaggrCfg) (m : Mem) (data : ℕ) (total : ℤ) :
    (getNumAggrpkts cfg m data total).1 = (subheaders m data total).length := by
  induction data, total using subheaders.induct m with
  | case1 data total hshort => rw [getNumAggrpkts, subheaders, if_pos hshort, if_pos hshort, length_nil]
  | case2 data total hlen pktLen hlong =>
    rw [getNumAggrpkts, subheaders, if_neg hlen, if_neg hlen]
    dsimp only
    rw [if_pos hlong, if_pos hlong, length_nil]
  | case3 data total hlen pktLen hfit pad ih =>
    rw [getNumAggrpkts, subheaders, if_neg hlen, if_neg hlen]
    dsimp only
    rw [if_neg hfit, if_neg hfit, length_cons]
    exact congrArg (· + 1) ih

/-- Where a subframe lies. -/
theorem subheader_spec {base n : ℕ} (hbase : base ≤ data) (hend : (data : ℤ) + total = base + n)
    (hx : x ∈ subheaders m data total) :
    data ≤ x.start ∧ x.start + x.left = base + n ∧ 14 ≤ x.left ∧ x.pktLen ≤ x.left := by
  induction data, total using subheaders.induct m with
  | case1 data total hshort =>
    rw [subheaders, if_pos hshort] at hx
    exact absurd hx not_mem_nil
  | case2 data total hlen pktLen hlong =>
    rw [subheaders, if_neg hlen] at hx
    dsimp only at hx
    rw [if_pos hlong] at hx
    exact absurd hx not_mem_nil
  | case3 data total hlen pktLen hfit pad ih =>
    rw [subheaders, if_neg hlen] at hx
    dsimp only at hx
    rw [if_neg hfit] at hx
    rcases mem_cons.mp hx with rfl | hx
    · dsimp only
      omega
    · obtain ⟨hle, hrest⟩ := ih (by omega) (by omega) hx
      exact ⟨by omega, hrest⟩

/-! ## The loop -/

/-- An edit in front of the payload of one subframe is not seen by the next. -/
theorem edit_apply {a : ℕ} (snap : Prop) [Decidable snap] {y : ℕ} (hy : a + (if snap then 20 else 14) ≤ y) :
    (if snap then m.memmove (a + 8) a 12 else m.write (a + 12) [0, 0]) y = m y := by
  split_ifs at hy ⊢
  · rw [memmove, write_apply_of_not_mem (.inr ?_)]
    rw [length_read]
    omega
  · rw [write_apply_of_not_mem (.inr ?_)]
    simp only [length_cons, length_nil]
    omega

theorem le_padLen (n : ℕ) : 16 ≤ n + 14 + padLen (n + 14) := by
  unfold padLen
  split_ifs <;> omega

namespace Subheader

/-- What the loop does with the header. -/
def touches (x : Subheader) : List Touch :=
  .read ⟨x.start + 12, 2⟩ :: headerTouches x.start x.snap

theorem read_mem_touches (x : Subheader) : .read ⟨x.start + 14, 6⟩ ∈ x.touches :=
  mem_cons_of_mem _ mem_cons_self

theorem emit_not_mem_touches (x : Subheader) (r : Span) (next : ℕ) (frame : List UInt8) :
    .emit r next frame ∉ x.touches := by
  unfold touches headerTouches
  split_ifs <;> simp

end Subheader

/-- One round of the loop. Only what is in front of a payload is edited : the header of the next subframe has been when
the LLC/SNAP header alone does not fit in this one, but not its length, nor what follows. -/
theorem deaggregateTouches_step (alloc : ℕ → Bool) (i : ℕ) (hm : ∀ y, data + 12 ≤ y → m' y = m y) (hmin : 14 ≤ total)
    (hmax : total ≤ 4096) (hfit : (ntohs m (data + 12) : ℤ) ≤ total)
    (hx : x = ⟨data, total.toNat, ntohs m (data + 12), m.read (data + 14) 6 = rfc1042EthHdr⟩) :
    ∃ frame m'', frame.drop 14 = m.read (x.frame.start + 14) (x.frame.len - 14) ∧
      (∀ y, x.next + 12 ≤ y → m'' y = m y) ∧
      deaggregateTouches alloc i m' data total = x.touches ++
        if alloc i then .emit x.frame x.next frame ::
          deaggregateTouches alloc (i + 1) m'' x.next
            (total - (ntohs m (data + 12) + padLen (ntohs m (data + 12) + 14) + 14 : ℕ))
        else [] := by
  have hlen : ntohs m' (data + 12) = ntohs m (data + 12) := by
    rw [ntohs, ntohs, hm _ le_rfl, hm _ (Nat.le_add_right _ _)]
  have hsnap : m'.read (data + 14) 6 = m.read (data + 14) 6 := read_congr fun j _ => hm _ (by omega)
  rw [deaggregateTouches, if_neg (by omega)]
  simp only [hlen, hsnap]
  rw [if_neg (by omega)]
  have hpad := le_padLen (ntohs m (data + 12))
  set m'' : Mem := if m.read (data + 14) 6 = rfc1042EthHdr then m'.memmove (data + 8) data 12
    else m'.write (data + 12) [0, 0] with hm''
  have hkept : ∀ y, data + (if m.read (data + 14) 6 = rfc1042EthHdr then 20 else 14) ≤ y → m'' y = m y := fun y hy => by
    rw [hm'', edit_apply _ hy, hm y]
    split_ifs at hy <;> omega
  have hnext : x.next + 12 ≥ data + 28 := by
    subst hx
    simp only [Subheader.next]
    omega
  have hstep : x.frame.start + (x.frame.len + padLen (ntohs m (data + 12) + 14)) = x.next := by
    subst hx
    simp only [Subheader.frame, Subheader.next]
    split_ifs <;> dsimp only <;> omega
  have hstart : x.frame.start = if m.read (data + 14) 6 = rfc1042EthHdr then data + 8 else data := by
    subst hx
    simp only [Subheader.frame, decide_eq_true_eq]
    split_ifs <;> rfl
  have hsize : x.frame.len = if m.read (data + 14) 6 = rfc1042EthHdr then (ntohs m (data + 12) + 14 - 8) % 65536
      else (ntohs m (data + 12) + 14) % 65536 := by
    subst hx
    simp only [Subheader.frame, decide_eq_true_eq]
    split_ifs <;> dsimp only <;> omega
  rw [← hstart, ← hsize, hstep]
  refine ⟨m''.read x.frame.start x.frame.len, m'', ?_, fun y hy => hkept y ?_, ?_⟩
  · rw [drop_read]
    exact read_congr fun j _ => hkept _ (by rw [hstart]; split_ifs <;> omega)
  · split_ifs <;> omega
  · subst hx
    rfl

/-- What is touched belongs to a subframe, or is the length of one that is not accepted. -/
theorem touch_cases {base n : ℕ} (alloc : ℕ → Bool) (i : ℕ) (hm : ∀ y, data + 12 ≤ y → m' y = m y) (hbase : base ≤ data)
    (hend : (data : ℤ) + total = base + n) (hmax : total ≤ 4096) {t : Touch}
    (ht : t ∈ deaggregateTouches alloc i m' data total) :
    (∃ x ∈ subheaders m data total, t ∈ x.touches ∨
      ∃ frame, t = .emit x.frame x.next frame ∧ frame.drop 14 = m.read (x.frame.start + 14) (x.frame.len - 14)) ∨
    ∃ a, t = .read ⟨a + 12, 2⟩ ∧ base ≤ a ∧ a + 14 ≤ base + n := by
  induction data, total using subheaders.induct m generalizing i m' with
  | case1 data total hshort =>
    rw [deaggregateTouches, if_pos hshort] at ht
    exact absurd ht not_mem_nil
  | case2 data total hlen pktLen =>
    rename_i hlong
    have hp : ntohs m' (data + 12) = ntohs m (data + 12) := by
      rw [ntohs, ntohs, hm _ le_rfl, hm _ (Nat.le_add_right _ _)]
    rw [deaggregateTouches, if_neg hlen] at ht
    simp only [hp] at ht
    rw [if_pos hlong] at ht
    exact .inr ⟨data, mem_singleton.mp ht, hbase, by omega⟩
  | case3 data total hlen pktLen hfit pad =>
    rename_i ih
    obtain ⟨frame, m'', hframe, hm'', heq⟩ := deaggregateTouches_step alloc i hm (by omega) hmax (by omega) rfl
    rw [subheaders, if_neg hlen]
    dsimp only
    rw [if_neg hfit]
    rw [heq] at ht
    rcases mem_append.mp ht with ht | ht
    · exact .inl ⟨_, mem_cons_self, .inl ht⟩
    · split_ifs at ht
      · rcases mem_cons.mp ht with rfl | ht
        · exact .inl ⟨_, mem_cons_self, .inr ⟨frame, rfl, hframe⟩⟩
        · rcases ih (i + 1) hm'' (by omega) (by dsimp only [pktLen, pad]; omega) (by omega) ht with ⟨x, hx, h⟩ | h
          · exact .inl ⟨x, mem_cons_of_mem _ hx, h⟩
          · exact .inr h
      · exact absurd ht not_mem_nil

/-- Unless an allocation fails, all that belongs to a subframe is touched. -/
theorem mem_touches (i : ℕ) (hm : ∀ y, data + 12 ≤ y → m' y = m y) (hmax : total ≤ 4096)
    (hx : x ∈ subheaders m data total) :
    (∀ t ∈ x.touches, t ∈ deaggregateTouches (fun _ => true) i m' data total) ∧
      ∃ frame, .emit x.frame x.next frame ∈ deaggregateTouches (fun _ => true) i m' data total := by
  induction data, total using subheaders.induct m generalizing i m' with
  | case1 data total hshort =>
    rw [subheaders, if_pos hshort] at hx
    exact absurd hx not_mem_nil
  | case2 data total hlen pktLen =>
    rename_i hlong
    rw [subheaders, if_neg hlen] at hx
    dsimp only at hx
    rw [if_pos hlong] at hx
    exact absurd hx not_mem_nil
  | case3 data total hlen pktLen hfit pad =>
    rename_i ih
    obtain ⟨frame, m'', -, hm'', heq⟩ := deaggregateTouches_step (fun _ => true) i hm (by omega) hmax (by omega) rfl
    rw [subheaders, if_neg hlen] at hx
    dsimp only at hx
    rw [if_neg hfit] at hx
    rw [heq, if_pos rfl]
    rcases mem_cons.mp hx with rfl | hx
    · exact ⟨fun t ht => mem_append_left _ ht, frame, mem_append_right _ mem_cons_self⟩
    · obtain ⟨hall, frame', hemit⟩ := ih (i + 1) hm'' (by omega) hx
      exact ⟨fun t ht => mem_append_right _ (mem_cons_of_mem _ (hall t ht)), frame',
        mem_append_right _ (mem_cons_of_mem _ hemit)⟩

/-- Unless an allocation fails, a frame is emitted for every subframe. -/
theorem length_filterMap_frame (i : ℕ) (hm : ∀ y, data + 12 ≤ y → m' y = m y) (hmax : total ≤ 4096) :
    ((deaggregateTouches (fun _ => true) i m' data total).filterMap Touch.frame).length =
      (subheaders m data total).length := by
  induction data, total using subheaders.induct m generalizing i m' with
  | case1 data total hshort =>
    rw [subheaders, deaggregateTouches, if_pos hshort, if_pos hshort]
    rfl
  | case2 data total hlen pktLen =>
    rename_i hlong
    have hp : ntohs m' (data + 12) = ntohs m (data + 12) := by
      rw [ntohs, ntohs, hm _ le_rfl, hm _ (Nat.le_add_right _ _)]
    rw [subheaders, deaggregateTouches, if_neg hlen, if_neg hlen]
    dsimp only
    rw [hp, if_pos hlong, if_pos hlong]
    rfl
  | case3 data total hlen pktLen hfit pad =>
    rename_i ih
    obtain ⟨frame, m'', -, hm'', heq⟩ := deaggregateTouches_step (fun _ => true) i hm (by omega) hmax (by omega) rfl
    rw [subheaders, if_neg hlen, heq, if_pos rfl]
    dsimp only
    rw [if_neg hfit, Subheader.touches, cons_append, filterMap_read, filterMap_append, filterMap_headerTouches,
      nil_append, filterMap_emit, length_cons, length_cons]
    exact congrArg (· + 1) (ih (i + 1) hm'' (by omega))

/-- The number of frames is the count, whatever the octets are. -/
theorem length_deaggregateLoop (cfg : DeaggrCfg) (hmax : total ≤ 4096) :
    (deaggregateLoop cfg (fun _ => true) 0 m data total).length = (getNumAggrpkts cfg m data total).1 := by
  rw [deaggregateLoop_eq, length_map, getNumAggrpkts_eq, length_filterMap_frame 0 (fun _ _ => rfl) hmax]

/-- The counting loop reads headers that are there. -/
theorem reads_inside {base n : ℕ} (cfg : DeaggrCfg) (hbase : base ≤ data) (hend : (data : ℤ) + total = base + n)
    {r : Span} (hr : r ∈ getNumAggrpktsReads cfg m data total) : r.Inside base n := by
  induction data, total using subheaders.induct m with
  | case1 data total hshort =>
    rw [getNumAggrpktsReads, if_pos hshort] at hr
    exact absurd hr not_mem_nil
  | case2 data total hlen pktLen hlong =>
    rw [getNumAggrpktsReads, if_neg hlen] at hr
    dsimp only at hr
    rw [if_pos hlong] at hr
    rcases mem_append.mp hr with hr | hr
    · split_ifs at hr
      · obtain rfl := mem_singleton.mp hr
        exact ⟨hbase, by dsimp only; omega⟩
      · exact absurd hr not_mem_nil
    · obtain rfl := mem_singleton.mp hr
      exact ⟨by dsimp only; omega, by dsimp only; omega⟩
  | case3 data total hlen pktLen hfit pad ih =>
    rw [getNumAggrpktsReads, if_neg hlen] at hr
    dsimp only at hr
    rw [if_neg hfit] at hr
    rcases mem_append.mp hr with hr | hr
    · split_ifs at hr
      · obtain rfl := mem_singleton.mp hr
        exact ⟨hbase, by dsimp only; omega⟩
      · exact absurd hr not_mem_nil
    · rcases mem_cons.mp hr with rfl | hr
      · exact ⟨by dsimp only; omega, by dsimp only; omega⟩
      · exact ih (by omega) (by omega) hr

/-! ## Safety -/

/-- What the loop touches lies among the octets that were received. A frame has a header, ends where the next subframe
starts or before, and is what was received from its header on. -/
structure Safe (m : Mem) (data n : ℕ) (l : List Touch) : Prop where
  inside : ∀ t ∈ l, t.span.Inside data n
  framed : ∀ r next frame, .emit r next frame ∈ l →
    14 ≤ r.len ∧ r.start + r.len ≤ next ∧ frame.drop 14 = m.read (r.start + 14) (r.len - 14)

/-- Neither loop leaves the octets received, whether allocations fail or not; and the count is right. -/
structure Harmless (cfg : DeaggrCfg) (m : Mem) (data n : ℕ) : Prop where
  counted : ∀ r ∈ getNumAggrpktsReads cfg m data n, r.Inside data n
  safe : ∀ alloc, Safe m data n (deaggregateTouches alloc 0 m data n)
  useCount : (deaggregateLoop cfg (fun _ => true) 0 m data n).length = (getNumAggrpkts cfg m data n).1

namespace Subheader.Fits

variable {base n : ℕ} (h : x.Fits) (hbase : base ≤ x.start) (hend : x.start + x.left = base + n)

include h hbase hend

theorem frame_inside : x.frame.Inside base n ∧ 14 ≤ x.frame.len ∧ x.frame.start + x.frame.len ≤ x.next := by
  have hwhole := h.whole
  have hlong := h.long
  unfold Subheader.frame Subheader.next Span.Inside
  split_ifs with hsnap
  · specialize hlong hsnap
    dsimp only
    omega
  · dsimp only
    omega

theorem touches_inside {t : Touch} (ht : t ∈ x.touches) : t.span.Inside base n := by
  have hcompared := h.compared
  unfold Span.Inside
  simp only [Subheader.touches, headerTouches, mem_cons] at ht
  rcases ht with rfl | rfl | ht
  · dsimp only [Touch.span]
    omega
  · dsimp only [Touch.span]
    omega
  · split_ifs at ht <;> simp only [mem_cons, not_mem_nil, or_false] at ht
    · rcases ht with rfl | rfl <;> dsimp only [Touch.span] <;> omega
    · obtain rfl := ht
      dsimp only [Touch.span]
      omega

end Subheader.Fits

/-- If all subframes fit, nothing else is touched. -/
theorem safe_of_fits (hmax : n ≤ rxDataBufSize) (h : ∀ x ∈ subheaders m data n, x.Fits) (alloc : ℕ → Bool) :
    Safe m data n (deaggregateTouches alloc 0 m data n) := by
  have hmax' : (n : ℤ) ≤ 4096 := Int.ofNat_le.mpr hmax
  have hcases {t : Touch} (ht : t ∈ deaggregateTouches alloc 0 m data n) :=
    touch_cases alloc 0 (fun _ _ => rfl) le_rfl rfl hmax' ht
  refine ⟨fun t ht => ?_, fun r next frame ht => ?_⟩
  · rcases hcases ht with ⟨x, hx, htouch | ⟨frame, rfl, -⟩⟩ | ⟨a, rfl, ha, hend⟩
    · obtain ⟨hle, hend, -⟩ := subheader_spec le_rfl rfl hx
      exact (h x hx).touches_inside hle hend htouch
    · obtain ⟨hle, hend, -⟩ := subheader_spec le_rfl rfl hx
      exact ((h x hx).frame_inside hle hend).1
    · exact ⟨by dsimp only [Touch.span]; omega, by dsimp only [Touch.span]; omega⟩
  · rcases hcases ht with ⟨x, hx, htouch | ⟨frame', heq, hframe⟩⟩ | ⟨a, heq, -⟩
    · exact absurd htouch (x.emit_not_mem_touches r next frame)
    · obtain ⟨rfl, rfl, rfl⟩ := Touch.emit.inj heq
      obtain ⟨hle, hend, -⟩ := subheader_spec le_rfl rfl hx
      obtain ⟨-, hlen, hnext⟩ := (h x hx).frame_inside hle hend
      exact ⟨hlen, hnext, hframe⟩
    · cases heq

/-- A subframe that does not fit is seen : behind its header, or by the frame copied. -/
theorem fits_of_safe (hmax : n ≤ rxDataBufSize) (h : Safe m data n (deaggregateTouches (fun _ => true) 0 m data n))
    (hx : x ∈ subheaders m data n) : x.Fits := by
  obtain ⟨htouches, frame, hemit⟩ := mem_touches 0 (fun _ _ => rfl) (Int.ofNat_le.mpr hmax) hx
  obtain ⟨-, hend, -⟩ := subheader_spec le_rfl rfl hx
  have hheader := (h.inside _ (htouches _ (x.read_mem_touches))).2
  have hframe := (h.inside _ hemit).2
  have hlen := (h.framed _ _ _ hemit).1
  dsimp only [Touch.span] at hheader hframe
  unfold Subheader.frame at hframe hlen
  refine ⟨by omega, ?_, fun hsnap => ?_⟩
  · split_ifs at hframe <;> dsimp only at hframe <;> omega
  · rw [if_pos hsnap] at hlen
    dsimp only at hlen
    omega

/-- Deaggregation is safe exactly for aggregates whose accepted subframes all fit. -/
theorem deaggregate_safe_iff (cfg : DeaggrCfg) (m : Mem) (data n : ℕ) (hmax : n ≤ rxDataBufSize) :
    Harmless cfg m data n ↔ ∀ x ∈ subheaders m data n, x.Fits :=
  ⟨fun h _ hx => fits_of_safe hmax (h.safe fun _ => true) hx,
    fun h => ⟨fun _ hr => reads_inside cfg le_rfl rfl hr, safe_of_fits hmax h,
      length_deaggregateLoop cfg (Int.ofNat_le.mpr hmax)⟩⟩

/-- Less than thirty zero octets hold one subframe, without payload. -/
theorem subheaders_zero {n : ℕ} (hmin : 14 ≤ n) (hmax : n < 30) : subheaders (fun _ => 0) 0 n = [⟨0, n, 0, false⟩] := by
  have hlen : ntohs (fun _ => 0) (0 + 12) = 0 := rfl
  have hpad : padLen (0 + 14) = 2 := rfl
  have hsnap : ¬read (fun _ => 0) (0 + 14) 6 = rfc1042EthHdr := by decide
  rw [subheaders, if_neg (by omega)]
  dsimp only
  rw [hlen, if_neg (by omega), subheaders, hpad, if_pos (by omega), decide_eq_false hsnap]
  rfl

/-- Twenty zero octets : one frame, and four octets behind it that are no header. -/
theorem deaggregate_safe_zero : Harmless stationCfg (fun _ => 0) 0 20 := by
  refine (deaggregate_safe_iff stationCfg (fun _ => 0) 0 20 (by decide)).mpr fun x hx => ?_
  rw [subheaders_zero (by decide) (by decide)] at hx
  obtain rfl := mem_singleton.mp hx
  exact ⟨by decide, by decide, by decide⟩

/-- Fourteen zero octets : an LLC/SNAP header is looked for behind them. -/
theorem deaggregate_unsafe_zero : ¬Harmless stationCfg (fun _ => 0) 0 14 := by
  intro h
  have hmem : ⟨0, 14, 0, false⟩ ∈ subheaders (fun _ => 0) 0 (14 : ℕ) := by
    rw [subheaders_zero le_rfl (by decide)]
    exact mem_cons_self
  have hfits := fits_of_safe (by decide) (h.safe fun _ => true) hmem
  exact absurd hfits.compared (by decide)

end WlanDriver.Aggr
