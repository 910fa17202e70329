import WlanDriver.Sdio.PortAgreement

/-!
# Completion of the SDIO packets

`wlan_sdio_host_to_card` returns a status, and its caller completes the packet to the upper layer with it. In
scatter-gather mode the status is `MLAN_STATUS_PENDING` for a packet that goes to the aggregation buffer, and
`wlan_send_mp_aggr_buf` completes the packets of the buffer; in copy mode a packet is completed when it is copied.

`TxPath` is the path of `MpaTx` with writes that may fail and the packets by number, and `log` is what is seen of it.
`completion_truth` : a call keeps what was told true exactly if its write of the buffer succeeds, or that write fails in
copy mode and has no packet of an earlier call. One status stands for the write of the buffer and for the packet at
hand, and in scatter-gather mode the packets of the buffer are completed with success whatever the write said.
-/

namespace WlanDriver.Sdio

open List MpaTx

/-- `mlan_status`, as far as the path returns it. -/
inductive Status
  | success
  | failure
  | pending
  | resource
  deriving DecidableEq

/-- The status of a write. -/
def Status.ofWrite (ok : Bool) : Status :=
  if ok then .success else .failure

/-- What is seen of the path. -/
inductive TxEvent
  /-- A write with its packets, and whether it succeeds. -/
  | write (pkts : List ℕ) (w : Write) (ok : Bool)
  /-- `wlan_write_data_complete`. -/
  | complete (pkt : ℕ) (status : Status)
  deriving DecidableEq

/-- The transmit path with its packets. -/
structure TxPath where
  mpa : MpaTx
  /-- The packets in `mpa_tx` : `mbuf_arr` in scatter-gather mode. -/
  held : List ℕ
  /-- The data of the packets that were taken. -/
  pkts : List (List UInt8)
  log : List TxEvent

/-- The write of `wlan_send_mp_aggr_buf`. -/
def MpaTx.aggrWrite (c : Card) (s : MpaTx) : Write :=
  ⟨s.cmd53Port c, if c.sg then (List.range s.pktCnt).flatMap s.mbufArr else s.buf.read 0 s.bufLen⟩

/-- `wlan_get_wr_port_data` fails : the port is the control port. -/
def MpaTx.wrPortFails (c : Card) (s : MpaTx) : Bool :=
  s.mpWrBitmap &&& c.mpDataPortMask ≠ 0 && s.portReady && !c.newMode && s.currWrPort = 0

namespace TxPath

variable (c : Card) (s : TxPath)

/-- `MP_TX_AGGR_BUF_PUT`, and its variants. -/
def aggrBufPut (pkt : ℕ) (data : List UInt8) (port : ℕ) : TxPath :=
  { s with mpa := s.mpa.aggrBufPut c data port, held := s.held ++ [pkt] }

/-- The completions of `wlan_send_mp_aggr_buf`. -/
def tells (held : List ℕ) : List TxEvent :=
  if c.sg then held.map (.complete · .success) else []

def sendMpAggrBuf (ok : Bool) : TxPath × Status :=
  if s.mpa.pktCnt = 0 then (s, .success)
  else ({ s with
    mpa := { s.mpa.sendMpAggrBuf c with written := if ok then (s.mpa.sendMpAggrBuf c).written else s.mpa.written }
    held := []
    log := s.log ++ .write s.held (s.mpa.aggrWrite c) ok :: tells c s.held }, .ofWrite ok)

/-- The packet alone. -/
def sendCurBuf (pkt : ℕ) (data : List UInt8) (port : ℕ) (ok : Bool) : TxPath × Status :=
  ({ s with
    mpa := if ok then s.mpa.sendCurBuf c data port else s.mpa
    log := s.log ++ [TxEvent.write [pkt] ⟨c.ioport + port, data⟩ ok] }, .ofWrite ok)

/-- The pre-copy, and whether the buffer is sent. -/
def precopy (f : MpaTx.Flags) (pkt : ℕ) (data : List UInt8) (port : ℕ) : TxPath × Bool :=
  (if f.precopyCurBuf then s.aggrBufPut c pkt data port else s, (s.mpa.precopy c f data port).2)

/-- `wlan_host_to_card_mp_aggr`. The sum of `ioport` and the port does not overflow. -/
def hostToCardMpAggr (pkt : ℕ) (data : List UInt8) (port : ℕ) (nextPktLen : UInt32) (flushOk curOk : Bool) :
    TxPath × Status :=
  let f := s.mpa.flags c data.length nextPktLen
  let r := s.precopy c f pkt data port
  let u := if r.2 then r.1.sendMpAggrBuf c flushOk else (r.1, .success)
  let v := if f.sendCurBuf then u.1.sendCurBuf c pkt data port curOk else u
  let w := if f.postcopyCurBuf then v.1.aggrBufPut c pkt data port else v.1
  (w, if c.sg && (f.precopyCurBuf || f.postcopyCurBuf) then .pending else v.2)

/-- `wlan_process_tx`, behind `host_to_card`. -/
def processTx (pkt : ℕ) : Status → TxPath
  | .success => { s with log := s.log ++ [TxEvent.complete pkt .success] }
  | .failure => { s with log := s.log ++ [TxEvent.complete pkt .failure] }
  | .pending | .resource => s

/-- `wlan_sdio_host_to_card` for `MLAN_TYPE_DATA`, with its caller. A packet that gets no port stays with the caller. -/
def sdioHostToCard (len : ℕ) (payload : Mem) (nextPktLen : UInt32) (flushOk curOk : Bool) : TxPath :=
  let pkt := s.pkts.length
  let data := sdioPacket len payload
  match s.mpa.getWrPortData c with
  | (u, none) =>
    if s.mpa.wrPortFails c then { s with mpa := u, pkts := s.pkts ++ [data] }.processTx pkt .failure
    else { s with mpa := u }
  | (u, some port) =>
    let t := { s with mpa := { u with taken := u.taken ++ [(data, port)] }, pkts := s.pkts ++ [data] }
    let r := t.hostToCardMpAggr c pkt data port nextPktLen flushOk curOk
    let v := { r.1 with mpa := { r.1.mpa with dataSent := r.2 ≠ Status.failure && !r.1.mpa.portReady } }
    v.processTx pkt r.2

end TxPath

/-- What happens on the path, with the outcomes of the writes. -/
inductive TxOp
  | data (len : ℕ) (payload : Mem) (nextPktLen : UInt32) (flushOk curOk : Bool)
  | flush (ok : Bool)
  | refresh (bitmap : BitVec 32)

/-- The path, from `wlan_init_adapter` on. -/
def txSystem (c : Card) : System TxPath TxOp where
  init s := (mpaSystem c).init s.mpa ∧ s.held = [] ∧ s.pkts = [] ∧ s.log = []
  step s
    | .data len payload nextPktLen flushOk curOk => some (s.sdioHostToCard c len payload nextPktLen flushOk curOk)
    | .flush ok => some (s.sendMpAggrBuf c ok).1
    | .refresh bitmap => some { s with mpa := { s.mpa with mpWrBitmap := bitmap } }

/-! ## Histories -/

/-- What happens to one packet. -/
inductive PktEvent
  | write (ok : Bool)
  | complete (status : Status)
  deriving DecidableEq

/-- What an event is to the packet `p`. -/
def TxEvent.about (p : ℕ) : TxEvent → Option PktEvent
  | .write pkts _ ok => if p ∈ pkts then some (.write ok) else none
  | .complete pkt status => if pkt = p then some (.complete status) else none

/-- The writes and completions of the packet `p`. -/
def historyOf (p : ℕ) (log : List TxEvent) : List PktEvent :=
  log.filterMap (TxEvent.about p)

/-- The writes with their data : what the packets make up. -/
def WritesPkts (pkts : List (List UInt8)) (log : List TxEvent) : Prop :=
  ∀ ids w ok, TxEvent.write ids w ok ∈ log → w.data = ids.flatMap fun p => pkts.getD p []

/-- What the upper layer is told is true. -/
structure Truthful (c : Card) (s : TxPath) : Prop where
  /-- A packet is completed once; in scatter-gather mode, a packet in the buffer is not completed yet. -/
  once : ∀ p < s.pkts.length, (historyOf p s.log).countP (· matches .complete _) =
    if c.sg ∧ p ∈ s.held then 0 else 1
  /-- No write behind a completion with failure. -/
  failed : ∀ p < s.pkts.length, ∀ l l', historyOf p s.log = l ++ .complete .failure :: l' → ∀ ok, .write ok ∉ l'
  /-- A packet that is completed with success was written, or waits in the buffer. -/
  succeeded : ∀ p < s.pkts.length, .complete .success ∈ historyOf p s.log → .write true ∈ historyOf p s.log ∨ p ∈ s.held
  /-- A write has the data of its packets, and the buffer that of the packets that wait. -/
  data : WritesPkts s.pkts s.log ∧ (s.mpa.aggrWrite c).data = s.held.flatMap fun p => s.pkts.getD p []

section

variable {c : Card} {s s' : TxPath} {p n : ℕ} {log new : List TxEvent} {held : List ℕ} {ok : Bool}

@[simp]
theorem historyOf_nil : historyOf p [] = [] :=
  rfl

@[simp]
theorem historyOf_append : historyOf p (log ++ new) = historyOf p log ++ historyOf p new :=
  filterMap_append

@[simp]
theorem historyOf_write {w : Write} :
    historyOf p (.write held w ok :: new) = if p ∈ held then .write ok :: historyOf p new else historyOf p new := by
  unfold historyOf
  by_cases h : p ∈ held <;> simp [TxEvent.about, h]

@[simp]
theorem historyOf_complete {st : Status} :
    historyOf p (.complete n st :: new) = if n = p then .complete st :: historyOf p new else historyOf p new := by
  unfold historyOf
  by_cases h : n = p <;> simp [TxEvent.about, h]

/-- The completions of a flush. -/
@[simp]
theorem historyOf_tells (hnd : held.Nodup) :
    historyOf p (TxPath.tells c held) = if c.sg ∧ p ∈ held then [.complete .success] else [] := by
  unfold TxPath.tells
  cases hsg : c.sg with
  | false => simp
  | true =>
    simp only [if_true, true_and]
    induction held with
    | nil => rfl
    | cons q held ih =>
      obtain ⟨hq, hnd⟩ := nodup_cons.mp hnd
      rw [map_cons, historyOf_complete, ih hnd]
      by_cases hpq : q = p
      · subst hpq
        simp [hq]
      · simp [hpq, Ne.symm hpq]

/-- The histories of a packet in runs where the upper layer is told the truth. `held` : the packet is in the buffer. -/
inductive Lawful (sg : Bool) : Prop → List PktEvent → Prop
  /-- In the buffer of the scatter-gather mode. -/
  | waits {held : Prop} (hsg : sg = true) (h : held) : Lawful sg held []
  /-- Copied. -/
  | copied {held : Prop} (hsg : sg = false) (h : held) : Lawful sg held [.complete .success]
  | written {held : Prop} (h : ¬held) : Lawful sg held [.write true, .complete .success]
  /-- Copied, and written later. -/
  | follows {held : Prop} (h : ¬held) : Lawful sg held [.complete .success, .write true]
  | lost {held : Prop} (h : ¬held) : Lawful sg held [.write false, .complete .failure]
  /-- The port was the control port. -/
  | dropped {held : Prop} (h : ¬held) : Lawful sg held [.complete .failure]

theorem Lawful.single {sg : Bool} {held : Prop} (h : ¬held) (ok : Bool) :
    Lawful sg held [.write ok, .complete (.ofWrite ok)] := by
  cases ok with
  | true => exact .written h
  | false => exact .lost h

/-- The packet leaves the buffer in a write that succeeds. -/
theorem Lawful.flushed {sg : Bool} {held held' : Prop} {l : List PktEvent} (h : Lawful sg held l) (hh : held)
    (hh' : ¬held') :
    Lawful sg held' (l ++ .write true :: if sg = true then [.complete .success] else []) := by
  cases h with
  | waits hsg _ =>
    rw [hsg]
    exact .written hh'
  | copied hsg _ =>
    rw [hsg]
    exact .follows hh'
  | written h => exact absurd hh h
  | follows h => exact absurd hh h
  | lost h => exact absurd hh h
  | dropped h => exact absurd hh h

/-! ## What a call does -/

/-- The data of the buffer. -/
structure Buffered (c : Card) (s : TxPath) : Prop where
  count : s.held.length = s.mpa.pktCnt
  data : (s.mpa.aggrWrite c).data = s.held.flatMap fun p => s.pkts.getD p []
  writes : WritesPkts s.pkts s.log

/-- What is seen of a call with the packet `n`. `flush` : the call writes the buffer. -/
inductive CallCase (c : Card) (n : ℕ) (flushOk curOk : Bool) (held : List ℕ) :
    (flush : Bool) → List ℕ → List TxEvent → Prop
  | single {w : Write} : CallCase c n flushOk curOk held false held [.write [n] w curOk, .complete n (.ofWrite curOk)]
  | put : CallCase c n flushOk curOk held false (held ++ [n]) (if c.sg then [] else [.complete n .success])
  | putFlush {w : Write} : CallCase c n flushOk curOk held true []
    (.write (held ++ [n]) w flushOk :: TxPath.tells c (held ++ [n]) ++
      if c.sg then [] else [.complete n (.ofWrite flushOk)])
  | flushSingle {w w' : Write} (h : held ≠ []) : CallCase c n flushOk curOk held true []
    (.write held w flushOk :: TxPath.tells c held ++ [TxEvent.write [n] w' curOk, .complete n (.ofWrite curOk)])
  | flushPut {w : Write} (h : held ≠ []) : CallCase c n flushOk curOk held true [n]
    (.write held w flushOk :: TxPath.tells c held ++ if c.sg then [] else [.complete n (.ofWrite flushOk)])

theorem log_processTx_ofWrite (s : TxPath) (n : ℕ) (ok : Bool) :
    (s.processTx n (.ofWrite ok)).log = s.log ++ [TxEvent.complete n (.ofWrite ok)] := by
  cases ok <;> rfl

theorem mpa_processTx (s : TxPath) (pkt : ℕ) (st : Status) : (s.processTx pkt st).mpa = s.mpa := by
  cases st <;> rfl

theorem held_processTx (s : TxPath) (n : ℕ) (st : Status) : (s.processTx n st).held = s.held := by
  cases st <;> rfl

theorem pkts_processTx (s : TxPath) (n : ℕ) (st : Status) : (s.processTx n st).pkts = s.pkts := by
  cases st <;> rfl

theorem log_processTx_congr (h : s'.log = s.log) (n : ℕ) (st : Status) :
    (s'.processTx n st).log = (s.processTx n st).log := by
  cases st <;> simp [TxPath.processTx, h]

section

variable (hb : Buffered c s)

include hb

theorem sendMpAggrBuf_of_held (hne : s.held ≠ []) (ok : Bool) :
    (s.sendMpAggrBuf c ok).1.held = [] ∧ (s.sendMpAggrBuf c ok).2 = .ofWrite ok ∧
      (s.sendMpAggrBuf c ok).1.log = s.log ++ .write s.held (s.mpa.aggrWrite c) ok :: TxPath.tells c s.held := by
  have hcnt : s.mpa.pktCnt ≠ 0 := by
    rw [← hb.count]
    simpa using hne
  rw [TxPath.sendMpAggrBuf, if_neg hcnt]
  exact ⟨rfl, rfl, rfl⟩

/-- A packet goes to the buffer. -/
theorem Buffered.put {data : List UInt8} (hdata : s.pkts.getD n [] = data) (port : ℕ) :
    Buffered c (s.aggrBufPut c n data port) := by
  refine ⟨?_, ?_, hb.writes⟩
  · simp [TxPath.aggrBufPut, aggrBufPut, hb.count]
  · have hsent := hb.data
    simp only [aggrWrite, TxPath.aggrBufPut, aggrBufPut] at hsent ⊢
    rw [flatMap_append, flatMap_singleton, hdata, ← hsent]
    cases hsg : c.sg with
    | true =>
      simp only [if_true]
      rw [range_succ, flatMap_append, flatMap_singleton, Function.update_self, flatMap_def,
        flatMap_def]
      refine congrArg (·.flatten ++ data) (map_congr_left fun k hk => ?_)
      rw [Function.update_of_ne (by have := mem_range.mp hk; omega)]
    | false =>
      simp only [Bool.false_eq_true, if_false]
      rw [Mem.read_add, Mem.read_write_of_disjoint (.inl (by omega)), Nat.zero_add, Mem.read_write]

/-- A flush. -/
theorem Buffered.send (ok : Bool) : Buffered c (s.sendMpAggrBuf c ok).1 := by
  unfold TxPath.sendMpAggrBuf
  by_cases hcnt : s.mpa.pktCnt = 0
  · rw [if_pos hcnt]
    exact hb
  · rw [if_neg hcnt]
    refine ⟨?_, ?_, ?_⟩
    · simp [sendMpAggrBuf, hcnt]
    · simp [aggrWrite, sendMpAggrBuf, hcnt, Mem.read]
    · intro ids w ok' hw
      simp only [mem_append, mem_cons, TxPath.tells] at hw
      rcases hw with hw | hw | hw
      · exact hb.writes ids w ok' hw
      · obtain ⟨rfl, rfl, rfl⟩ : ids = s.held ∧ w = s.mpa.aggrWrite c ∧ ok' = ok := by simpa using hw
        exact hb.data
      · split_ifs at hw <;> simp at hw

/-- The packet alone. -/
theorem Buffered.sendCur {data : List UInt8} (hdata : s.pkts.getD n [] = data) (port : ℕ)
    (ok : Bool) : Buffered c (s.sendCurBuf c n data port ok).1 := by
  refine ⟨?_, ?_, ?_⟩
  · cases ok <;> exact hb.count
  · cases ok <;> exact hb.data
  · intro ids w ok' hw
    simp only [TxPath.sendCurBuf, mem_append, mem_singleton, TxEvent.write.injEq] at hw
    rcases hw with hw | ⟨rfl, rfl, rfl⟩
    · exact hb.writes ids w ok' hw
    · rw [flatMap_singleton]
      exact hdata.symm

theorem Buffered.processTx (st : Status) : Buffered c (s.processTx n st) := by
  have hwrites : ∀ st', WritesPkts s.pkts (s.log ++ [TxEvent.complete n st']) := by
    intro st' ids w ok' hw
    exact hb.writes ids w ok' (by simpa using hw)
  cases st with
  | success => exact ⟨hb.count, hb.data, hwrites _⟩
  | failure => exact ⟨hb.count, hb.data, hwrites _⟩
  | pending => exact hb
  | resource => exact hb

/-- What a call does, with a port for its packet. -/
theorem hostToCardMpAggr_cases (hdis : c.enabled = false → s.mpa.pktCnt = 0) {data : List UInt8}
    (hdata : s.pkts.getD n [] = data) (port : ℕ) (nextPktLen : UInt32) (flushOk curOk : Bool) :
    let r := s.hostToCardMpAggr c n data port nextPktLen flushOk curOk
    (∃ new, CallCase c n flushOk curOk s.held (s.mpa.precopy c (s.mpa.flags c data.length nextPktLen) data port).2
        r.1.held new ∧ (r.1.processTx n r.2).log = s.log ++ new) ∧
      r.1.pkts = s.pkts ∧ Buffered c r.1 ∧ (c.enabled = false → r.1.mpa.pktCnt = 0) := by
  have hcase := flags_cases hdis data.length nextPktLen
  obtain ⟨f, hf⟩ : ∃ f, f = s.mpa.flags c data.length nextPktLen := ⟨_, rfl⟩
  have hpkts : (s.sendMpAggrBuf c flushOk).1.pkts = s.pkts := by
    unfold TxPath.sendMpAggrBuf
    split_ifs <;> rfl
  have hdata' : (s.sendMpAggrBuf c flushOk).1.pkts.getD n [] = data := by
    rw [hpkts]
    exact hdata
  have hcount : (s.sendMpAggrBuf c flushOk).1.held = [] → (s.sendMpAggrBuf c flushOk).1.mpa.pktCnt = 0 := fun h => by
    rw [← (hb.send flushOk).count, h]
    rfl
  unfold TxPath.hostToCardMpAggr TxPath.precopy
  rw [← hf] at hcase ⊢
  cases hcase with
  | single hcnt =>
    simp only [precopy, Bool.false_eq_true, if_false, if_true, Bool.or_self, Bool.and_false]
    refine ⟨⟨_, .single (w := ⟨c.ioport + port, data⟩), ?_⟩, rfl, hb.sendCur hdata port curOk, fun _ => ?_⟩
    · simp [TxPath.sendCurBuf, log_processTx_ofWrite]
    · cases curOk <;> exact hcnt
  | @precopy b hen hroom hnext =>
    have hput := hb.put hdata port
    simp only [precopy, Bool.false_eq_true, if_false, if_true, Bool.or_false, Bool.and_true]
    cases hsend : (b || (s.mpa.aggrBufPut c data port).pktCnt = c.pktAggrLimit ||
      (!c.newMode && (s.mpa.aggrBufPut c data port).portLimitReached c)) with
    | false =>
      simp only [Bool.false_eq_true, if_false]
      refine ⟨⟨_, .put, ?_⟩, rfl, hput, fun h => absurd (hen.symm.trans h) (by decide)⟩
      cases c.sg <;> simp [TxPath.processTx, TxPath.aggrBufPut]
    | true =>
      obtain ⟨hheld, hst, hlog⟩ := sendMpAggrBuf_of_held hput (by simp [TxPath.aggrBufPut]) flushOk
      simp only [if_true]
      refine ⟨⟨.write (s.held ++ [n]) ((s.aggrBufPut c n data port).mpa.aggrWrite c) flushOk ::
        TxPath.tells c (s.held ++ [n]) ++ if c.sg then [] else [.complete n (.ofWrite flushOk)], ?_, ?_⟩, ?_,
        hput.send flushOk, fun h => absurd (hen.symm.trans h) (by decide)⟩
      · rw [hheld]
        exact .putFlush
      · rw [hst]
        cases hsg : c.sg with
        | true =>
          rw [if_pos rfl, TxPath.processTx, hlog]
          simp [TxPath.aggrBufPut]
        | false =>
          rw [if_neg (by decide), log_processTx_ofWrite, hlog]
          simp [TxPath.aggrBufPut]
      · unfold TxPath.sendMpAggrBuf
        split_ifs <;> rfl
  | flushSend hcnt =>
    have hne : s.held ≠ [] := by
      rw [← length_pos_iff, hb.count]
      exact hcnt
    obtain ⟨hheld, -, hlog⟩ := sendMpAggrBuf_of_held hb hne flushOk
    have hsent := (hb.send flushOk).sendCur hdata' port curOk
    simp only [precopy, Bool.false_eq_true, if_false, if_true, Bool.or_self, Bool.and_false]
    refine ⟨⟨.write s.held (s.mpa.aggrWrite c) flushOk :: TxPath.tells c s.held ++
      [TxEvent.write [n] ⟨c.ioport + port, data⟩ curOk, .complete n (.ofWrite curOk)], ?_, ?_⟩, hpkts, hsent, fun _ => ?_⟩
    · simp only [TxPath.sendCurBuf, hheld]
      exact .flushSingle hne
    · simp [TxPath.sendCurBuf, log_processTx_ofWrite, hlog]
    · cases curOk <;> exact hcount hheld
  | flushPut hen hcnt hnext hready =>
    have hne : s.held ≠ [] := by
      rw [← length_pos_iff, hb.count]
      exact hcnt
    obtain ⟨hheld, hst, hlog⟩ := sendMpAggrBuf_of_held hb hne flushOk
    have hput := (hb.send flushOk).put hdata' port
    simp only [precopy, Bool.false_eq_true, if_false, if_true, Bool.or_true, Bool.and_true]
    refine ⟨⟨.write s.held (s.mpa.aggrWrite c) flushOk :: TxPath.tells c s.held ++
      if c.sg then [] else [.complete n (.ofWrite flushOk)], ?_, ?_⟩, hpkts, hput,
      fun h => absurd (hen.symm.trans h) (by decide)⟩
    · simp only [TxPath.aggrBufPut, hheld]
      exact .flushPut hne
    · rw [hst]
      cases hsg : c.sg with
      | true => simp [TxPath.processTx, hlog, TxPath.aggrBufPut]
      | false =>
        rw [if_neg (by decide), log_processTx_ofWrite]
        simp [hlog, TxPath.aggrBufPut]

/-- The data of the packets that are there does not change. -/
theorem Buffered.congr {pkts : List (List UInt8)} {mpa : MpaTx} (hbuf : mpa.buf = s.mpa.buf)
    (harr : mpa.mbufArr = s.mpa.mbufArr) (hlen : mpa.bufLen = s.mpa.bufLen) (hcnt : mpa.pktCnt = s.mpa.pktCnt)
    (hpkts : pkts = s.pkts ∨ ∃ d, pkts = s.pkts ++ [d])
    (hheld : ∀ p ∈ s.held, p < s.pkts.length)
    (hlog : ∀ ids w ok, .write ids w ok ∈ s.log → ∀ p ∈ ids, p < s.pkts.length) :
    Buffered c { s with mpa := mpa, pkts := pkts } := by
  have hget : ∀ ids : List ℕ, (∀ p ∈ ids, p < s.pkts.length) →
      (ids.flatMap fun p => pkts.getD p []) = ids.flatMap fun p => s.pkts.getD p [] := by
    intro ids hids
    rw [flatMap_def, flatMap_def]
    refine congrArg List.flatten (map_congr_left fun p hp => ?_)
    rcases hpkts with rfl | ⟨d, rfl⟩
    · rfl
    · exact getD_append _ _ _ _ (hids p hp)
  refine ⟨hcnt ▸ hb.count, ?_, fun ids w ok hw => ?_⟩
  · dsimp only
    rw [hget _ hheld, ← hb.data]
    simp only [aggrWrite, hbuf, harr, hlen, hcnt]
  · rw [hget _ (hlog ids w ok hw)]
    exact hb.writes ids w ok hw

end

/-! ## Truth -/

theorem Lawful.congr {sg : Bool} {h h' : Prop} {l : List PktEvent} (hl : Lawful sg h l) (hiff : h ↔ h') :
    Lawful sg h' l :=
  propext hiff ▸ hl

section

variable {flush flushOk curOk : Bool} {held' : List ℕ}

theorem nodup_snoc (hnd : held.Nodup) (hn : n ∉ held) : (held ++ [n]).Nodup := by
  rw [← concat_eq_append]
  exact hnd.concat hn

section

variable (h : CallCase c n flushOk curOk held flush held' new)

include h

theorem CallCase.nodup (hnd : held.Nodup) (hn : n ∉ held) :
    held'.Nodup ∧ ∀ p ∈ held', p ∈ held ∨ p = n := by
  cases h with
  | single => exact ⟨hnd, fun p hp => .inl hp⟩
  | put => exact ⟨nodup_snoc hnd hn, fun p hp => by simpa using hp⟩
  | putFlush => exact ⟨nodup_nil, fun p hp => absurd hp not_mem_nil⟩
  | flushSingle => exact ⟨nodup_nil, fun p hp => absurd hp not_mem_nil⟩
  | flushPut => exact ⟨nodup_singleton n, fun p hp => .inr (mem_singleton.mp hp)⟩

/-- A packet of an earlier call. -/
theorem CallCase.lawful
    (hkept : flush = true → c.sg = true ∨ held ≠ [] → flushOk = true) (hnd : held.Nodup) (hn : n ∉ held) (hp : p ≠ n)
    {l : List PktEvent} (hl : Lawful c.sg (p ∈ held) l) : Lawful c.sg (p ∈ held') (l ++ historyOf p new) := by
  have hpn : ¬n = p := fun h => hp h.symm
  have hgone : p ∉ ([] : List ℕ) := not_mem_nil
  have hend : ∀ st, historyOf p (if c.sg = true then [] else [TxEvent.complete n st]) = [] := fun st => by
    split_ifs <;> simp [hpn]
  -- either the packet is in the buffer, and leaves it in a write that succeeds, or it has no part in the call
  cases h with
  | single => simpa [hpn, hp] using hl
  | put => rw [hend, append_nil]; exact hl.congr (by simp [hp])
  | putFlush =>
    rw [historyOf_append, hend, historyOf_write, historyOf_tells (nodup_snoc hnd hn), append_nil]
    by_cases hh : p ∈ held
    · obtain rfl := hkept rfl (.inr (ne_nil_of_mem hh))
      simpa [hh] using hl.flushed hh hgone
    · simpa [hh, hp] using hl.congr (iff_of_false hh hgone)
  | flushSingle hne =>
    obtain rfl := hkept rfl (.inr hne)
    rw [historyOf_append, historyOf_write, historyOf_tells hnd]
    by_cases hh : p ∈ held
    · simpa [hh, hp, hpn] using hl.flushed hh hgone
    · simpa [hh, hp, hpn] using hl.congr (iff_of_false hh hgone)
  | flushPut hne =>
    obtain rfl := hkept rfl (.inr hne)
    rw [historyOf_append, hend, historyOf_write, historyOf_tells hnd, append_nil]
    by_cases hh : p ∈ held
    · simpa [hh] using hl.flushed hh (by simpa using hp)
    · simpa [hh] using hl.congr (iff_of_false hh (by simpa using hp))

/-- A packet that is not in the buffer. -/
theorem CallCase.history_nil (hh : p ∉ held) (hnd : held.Nodup)
    (hn : n ∉ held) (hp : p ≠ n) : historyOf p new = [] := by
  have hpn : ¬n = p := fun h => hp h.symm
  have hend : ∀ st, historyOf p (if c.sg = true then [] else [TxEvent.complete n st]) = [] := fun st => by
    split_ifs <;> simp [hpn]
  cases h with
  | single => simp [hpn, hp]
  | put => exact hend _
  | putFlush => rw [historyOf_append, hend, historyOf_write, historyOf_tells (nodup_snoc hnd hn)]; simp [hh, hp]
  | flushSingle => rw [historyOf_append, historyOf_write, historyOf_tells hnd]; simp [hh, hp, hpn]
  | flushPut => rw [historyOf_append, hend, historyOf_write, historyOf_tells hnd]; simp [hh]

theorem CallCase.lawful_new
    (hkept : flush = true → c.sg = true ∨ held ≠ [] → flushOk = true) (hnd : held.Nodup) (hn : n ∉ held) :
    Lawful c.sg (n ∈ held') (historyOf n new) := by
  have hgone : n ∉ ([] : List ℕ) := not_mem_nil
  cases h with
  | single => simpa using Lawful.single hn curOk
  | put =>
    cases hsg : c.sg with
    | true => exact .waits rfl (by simp)
    | false => simpa using Lawful.copied rfl (by simp)
  | putFlush =>
    rw [historyOf_append, historyOf_write, historyOf_tells (nodup_snoc hnd hn)]
    cases hsg : c.sg with
    | true =>
      obtain rfl := hkept rfl (.inl hsg)
      simpa using Lawful.written hgone
    | false => simpa using Lawful.single hgone flushOk
  | flushSingle hne =>
    rw [historyOf_append, historyOf_write, historyOf_tells hnd]
    simpa [hn] using Lawful.single hgone curOk
  | flushPut hne =>
    obtain rfl := hkept rfl (.inr hne)
    rw [historyOf_append, historyOf_write, historyOf_tells hnd]
    cases hsg : c.sg with
    | true => simpa [hn] using Lawful.waits rfl (mem_singleton_self n)
    | false => simpa [hn, Status.ofWrite] using Lawful.copied rfl (mem_singleton_self n)

end

/-- A write of the buffer that should succeed and does not : one of its packets is told sent, and was not. -/
theorem CallCase.exists_lie (h : CallCase c n false curOk held true held' new) (hnot : c.sg = true ∨ held ≠ [])
    (hnd : held.Nodup) (hn : n ∉ held) : ∃ p, (p ∈ held ∨ p = n) ∧ p ∉ held' ∧
      ((p ∈ held → c.sg = true) → .complete .success ∈ historyOf p new) ∧ .write true ∉ historyOf p new := by
  cases h with
  | putFlush =>
    cases hsg : c.sg with
    | true =>
      refine ⟨n, .inr rfl, not_mem_nil, fun _ => ?_, ?_⟩ <;>
        simp [historyOf_tells (nodup_snoc hnd hn), hsg]
    | false =>
      obtain ⟨p, hp⟩ := exists_mem_of_ne_nil held (hnot.resolve_left (by simp [hsg]))
      have hpn : ¬n = p := fun heq => hn (heq ▸ hp)
      refine ⟨p, .inl hp, not_mem_nil, fun h => absurd (h hp) (by decide), ?_⟩
      simp [historyOf_tells (nodup_snoc hnd hn), hsg, hp, hpn]
  | flushSingle hne =>
    obtain ⟨p, hp⟩ := exists_mem_of_ne_nil held hne
    have hpn : ¬n = p := fun heq => hn (heq ▸ hp)
    have hpn' : ¬p = n := fun heq => hpn heq.symm
    refine ⟨p, .inl hp, not_mem_nil, fun h => ?_, ?_⟩
    · simp [historyOf_tells hnd, hp, h hp]
    · cases hsg : c.sg <;> simp [historyOf_tells hnd, hp, hpn, hpn', hsg]
  | flushPut hne =>
    obtain ⟨p, hp⟩ := exists_mem_of_ne_nil held hne
    have hpn : ¬n = p := fun heq => hn (heq ▸ hp)
    have hpn' : ¬p = n := fun heq => hpn heq.symm
    refine ⟨p, .inl hp, by simpa using hpn', fun h => ?_, ?_⟩
    · simp [historyOf_tells hnd, hp, h hp]
    · cases hsg : c.sg <;> simp [historyOf_tells hnd, hp, hpn, hsg]

end

/-! ## Runs -/

/-- The outcome of the write of the buffer. -/
def TxOp.flushOk : TxOp → Bool
  | .data _ _ _ flushOk _ => flushOk
  | .flush ok => ok
  | .refresh _ => true

/-- The call writes the buffer. -/
def TxPath.flushes (c : Card) (s : TxPath) : TxOp → Bool
  | .data len payload nextPktLen _ _ =>
    match s.mpa.getWrPortData c with
    | (_, none) => false
    | (u, some port) =>
      let data := sdioPacket len payload
      ({ u with taken := u.taken ++ [(data, port)] }.precopy c (u.flags c data.length nextPktLen) data port).2
  | .flush _ => s.mpa.pktCnt ≠ 0
  | .refresh _ => false

/-- A write of the buffer succeeds, or is one of the copy mode that has no packet of an earlier call. -/
def TxOp.Kept (c : Card) (s : TxPath) (op : TxOp) : Prop :=
  s.flushes c op = true → c.sg = true ∨ s.held ≠ [] → op.flushOk = true
  deriving Decidable

/-- What holds between the calls. -/
structure TruthInv (c : Card) (s : TxPath) : Prop where
  buffered : Buffered c s
  disabled : c.enabled = false → s.mpa.pktCnt = 0
  nodup : s.held.Nodup
  held_lt : ∀ p ∈ s.held, p < s.pkts.length
  fresh : ∀ p, s.pkts.length ≤ p → historyOf p s.log = []
  lawful : ∀ p < s.pkts.length, Lawful c.sg (p ∈ s.held) (historyOf p s.log)

theorem Lawful.once {sg : Bool} {held : Prop} [Decidable held] {l : List PktEvent} (h : Lawful sg held l) :
    l.countP (· matches .complete _) = if sg ∧ held then 0 else 1 := by
  cases h with
  | waits hsg hh => simp [hsg, hh]
  | copied hsg hh => simp [hsg]
  | written hh => simp [hh]
  | follows hh => simp [hh]
  | lost hh => simp [hh]
  | dropped hh => simp [hh]

/-- A completion with failure is the last event. -/
theorem Lawful.failed {sg : Bool} {held : Prop} {l a b : List PktEvent} (h : Lawful sg held l)
    (heq : l = a ++ .complete .failure :: b) : b = [] := by
  cases h <;> rcases a with _ | ⟨x, _ | ⟨y, a⟩⟩ <;> simp_all

theorem Lawful.succeeded {sg : Bool} {held : Prop} {l : List PktEvent} (h : Lawful sg held l)
    (hmem : .complete .success ∈ l) : .write true ∈ l ∨ held := by
  cases h with
  | waits _ hh => exact .inr hh
  | copied _ hh => exact .inr hh
  | written _ => exact .inl (by simp)
  | follows _ => exact .inl (by simp)
  | lost _ => simp at hmem
  | dropped _ => simp at hmem

theorem TruthInv.truthful (h : TruthInv c s) : Truthful c s where
  once p hp := (h.lawful p hp).once
  failed p hp l l' heq ok := by
    rw [(h.lawful p hp).failed heq]
    exact not_mem_nil
  succeeded p hp hmem := (h.lawful p hp).succeeded hmem
  data := ⟨h.buffered.writes, h.buffered.data⟩

/-- A write is in the history of its packets. -/
theorem TruthInv.write_lt (h : TruthInv c s) {ids : List ℕ} {w : Write} (hw : .write ids w ok ∈ s.log) (hp : p ∈ ids) :
    p < s.pkts.length := by
  by_contra hge
  have hmem : PktEvent.write ok ∈ historyOf p s.log := mem_filterMap.mpr ⟨_, hw, by simp [TxEvent.about, hp]⟩
  rw [h.fresh p (by omega)] at hmem
  exact absurd hmem not_mem_nil

theorem getWrPortData_frame (c : Card) (s : MpaTx) :
    (s.getWrPortData c).1.buf = s.buf ∧ (s.getWrPortData c).1.mbufArr = s.mbufArr ∧
      (s.getWrPortData c).1.bufLen = s.bufLen ∧ (s.getWrPortData c).1.pktCnt = s.pktCnt := by
  unfold getWrPortData
  split_ifs <;> exact ⟨rfl, rfl, rfl, rfl⟩

section

variable (h : TruthInv c s)

include h

/-- What a data call does : nothing is taken, or the packet fails at once, or it goes its way with a port. -/
theorem TruthInv.sdioHostToCard_cases (len : ℕ) (payload : Mem) (nextPktLen : UInt32)
    (flushOk curOk : Bool) :
    let s' := s.sdioHostToCard c len payload nextPktLen flushOk curOk
    let flush := s.flushes c (.data len payload nextPktLen flushOk curOk)
    Buffered c s' ∧ (c.enabled = false → s'.mpa.pktCnt = 0) ∧
      (flush = false ∧ s'.held = s.held ∧ s'.log = s.log ∧ s'.pkts = s.pkts ∨
        s'.pkts.length = s.pkts.length + 1 ∧
          (flush = false ∧ s'.held = s.held ∧ s'.log = s.log ++ [TxEvent.complete s.pkts.length .failure] ∨
            ∃ new, CallCase c s.pkts.length flushOk curOk s.held flush s'.held new ∧ s'.log = s.log ++ new)) := by
  obtain ⟨hbuf, harr, hlen, hcnt⟩ := getWrPortData_frame c s.mpa
  unfold TxPath.sdioHostToCard TxPath.flushes
  rcases hget : s.mpa.getWrPortData c with ⟨u, _ | port⟩
  · rw [hget] at hbuf harr hlen hcnt
    dsimp only at hbuf harr hlen hcnt ⊢
    by_cases hfail : s.mpa.wrPortFails c = true
    · rw [if_pos hfail]
      have hb := h.buffered.congr hbuf harr hlen hcnt (.inr ⟨sdioPacket len payload, rfl⟩) h.held_lt
        fun _ _ _ hw _ => h.write_lt hw
      refine ⟨hb.processTx _, fun hen => ?_, .inr ⟨by simp [TxPath.processTx], .inl ⟨rfl, rfl, rfl⟩⟩⟩
      exact hcnt.trans (h.disabled hen)
    · rw [if_neg hfail]
      exact ⟨h.buffered.congr hbuf harr hlen hcnt (.inl rfl) h.held_lt fun _ _ _ hw _ => h.write_lt hw,
        fun hen => hcnt.trans (h.disabled hen), .inl ⟨rfl, rfl, rfl, rfl⟩⟩
  · rw [hget] at hbuf harr hlen hcnt
    dsimp only at hbuf harr hlen hcnt ⊢
    obtain ⟨data, hdata⟩ : ∃ data, data = sdioPacket len payload := ⟨_, rfl⟩
    obtain ⟨t, ht⟩ : ∃ t : TxPath, t = { s with
      mpa := { u with taken := u.taken ++ [(data, port)] }, pkts := s.pkts ++ [data] } := ⟨_, rfl⟩
    have hb : Buffered c t := by
      rw [ht]
      exact h.buffered.congr hbuf harr hlen hcnt (.inr ⟨_, rfl⟩) h.held_lt fun _ _ _ hw _ => h.write_lt hw
    have hdis : c.enabled = false → t.mpa.pktCnt = 0 := fun hen => by
      rw [ht]
      exact hcnt.trans (h.disabled hen)
    have hnew : t.pkts.getD s.pkts.length [] = data := by
      rw [ht]
      simp
    obtain ⟨⟨new, hcase, hlog⟩, hpkts, hbuf', hdis'⟩ :=
      hostToCardMpAggr_cases hb hdis hnew port nextPktLen flushOk curOk
    rw [← hdata, ← ht]
    obtain ⟨r, hr⟩ : ∃ r, r = t.hostToCardMpAggr c s.pkts.length data port nextPktLen flushOk curOk := ⟨_, rfl⟩
    rw [← hr] at hcase hlog hpkts hbuf' hdis' ⊢
    have hsent : ∀ b, Buffered c { r.1 with mpa := { r.1.mpa with dataSent := b } } := fun b =>
      ⟨hbuf'.count, hbuf'.data, hbuf'.writes⟩
    refine ⟨.processTx (hsent _) _, fun hen => ?_, .inr ⟨?_, .inr ⟨new, ?_, ?_⟩⟩⟩
    · rw [mpa_processTx]
      exact hdis' hen
    · rw [pkts_processTx]
      simp [hpkts, ht]
    · rw [held_processTx]
      rw [ht] at hcase
      exact hcase
    · rw [ht] at hlog
      refine (log_processTx_congr (s := r.1) ?_ _ _).trans hlog
      rfl

/-- A data call that keeps to the condition. -/
theorem TruthInv.sdioHostToCard {len : ℕ} {payload : Mem} {nextPktLen : UInt32}
    {flushOk curOk : Bool} (hk : (TxOp.data len payload nextPktLen flushOk curOk).Kept c s) :
    TruthInv c (s.sdioHostToCard c len payload nextPktLen flushOk curOk) := by
  obtain ⟨hbuf, hdis, hcase⟩ := h.sdioHostToCard_cases len payload nextPktLen flushOk curOk
  have hn : s.pkts.length ∉ s.held := fun hmem => absurd (h.held_lt _ hmem) (lt_irrefl _)
  rcases hcase with ⟨-, hheld, hlog, hpkts⟩ | ⟨hlen, ⟨-, hheld, hlog⟩ | ⟨new, hcase, hlog⟩⟩
  · refine ⟨hbuf, hdis, ?_, ?_, ?_, ?_⟩ <;> simp only [hheld, hlog, hpkts]
    exacts [h.nodup, h.held_lt, h.fresh, h.lawful]
  · refine ⟨hbuf, hdis, ?_, fun p hp => ?_, fun p hp => ?_, fun p hp => ?_⟩
    · exact hheld ▸ h.nodup
    · have := h.held_lt p (hheld ▸ hp)
      omega
    · have hne : ¬s.pkts.length = p := by omega
      simp [hlog, h.fresh p (by omega), hne]
    · rw [hheld, hlog, historyOf_append, historyOf_complete]
      by_cases heq : s.pkts.length = p
      · subst heq
        simpa [h.fresh _ le_rfl] using Lawful.dropped hn
      · simpa [heq] using h.lawful p (by omega)
  · obtain ⟨hnd, hsub⟩ := hcase.nodup h.nodup hn
    have hfresh : ∀ p, s.pkts.length < p → historyOf p new = [] := fun p hp =>
      hcase.history_nil (fun hmem => absurd (h.held_lt p hmem) (by omega)) h.nodup hn (by omega)
    refine ⟨hbuf, hdis, hnd, fun p hp => ?_, fun p hp => ?_, fun p hp => ?_⟩
    · rcases hsub p hp with hmem | rfl
      · have := h.held_lt p hmem
        omega
      · omega
    · rw [hlog, historyOf_append, h.fresh p (by omega), hfresh p (by omega), append_nil]
    · rw [hlog, historyOf_append]
      by_cases heq : p = s.pkts.length
      · subst heq
        rw [h.fresh _ le_rfl, nil_append]
        exact hcase.lawful_new hk h.nodup hn
      · exact hcase.lawful hk h.nodup hn heq (h.lawful p (by omega))

/-- A flush that keeps to the condition. -/
theorem TruthInv.flush (hk : (TxOp.flush ok).Kept c s) : TruthInv c (s.sendMpAggrBuf c ok).1 := by
  have hbuf := h.buffered.send ok
  by_cases hheld : s.held = []
  · have hcnt : s.mpa.pktCnt = 0 := by
      rw [← h.buffered.count, hheld]
      rfl
    rw [TxPath.sendMpAggrBuf, if_pos hcnt]
    exact h
  · obtain ⟨hempty, -, hlog⟩ := sendMpAggrBuf_of_held h.buffered hheld ok
    have hcnt : s.mpa.pktCnt ≠ 0 := by
      rw [← h.buffered.count]
      simpa using hheld
    obtain rfl : ok = true := hk (by simpa [TxPath.flushes] using hcnt) (.inr hheld)
    have hpkts : (s.sendMpAggrBuf c true).1.pkts = s.pkts := by
      rw [TxPath.sendMpAggrBuf, if_neg hcnt]
    refine ⟨hbuf, fun _ => ?_, ?_, ?_, fun p hp => ?_, fun p hp => ?_⟩
    · rw [← hbuf.count, hempty]
      rfl
    · exact hempty ▸ nodup_nil
    · rw [hempty]
      exact fun p hp => absurd hp not_mem_nil
    · rw [hpkts] at hp
      have hmem : p ∉ s.held := fun hmem => absurd (h.held_lt p hmem) (by omega)
      rw [hlog, historyOf_append, h.fresh p hp, historyOf_write, historyOf_tells h.nodup]
      simp [hmem]
    · rw [hpkts] at hp
      rw [hlog, hempty, historyOf_append, historyOf_write, historyOf_tells h.nodup]
      by_cases hmem : p ∈ s.held
      · have hnil : p ∉ ([] : List ℕ) := not_mem_nil
        simpa [hmem] using (h.lawful p hp).flushed hmem hnil
      · simpa [hmem] using (h.lawful p hp).congr (iff_of_false hmem (not_mem_nil (a := p)))

theorem TruthInv.step {op : TxOp} (hk : op.Kept c s) (hs : (txSystem c).step s op = some s') :
    TruthInv c s' := by
  cases op with
  | data len payload nextPktLen flushOk curOk =>
    obtain rfl := Option.some.inj hs
    exact h.sdioHostToCard hk
  | flush ok =>
    obtain rfl := Option.some.inj hs
    exact h.flush hk
  | refresh bitmap =>
    obtain rfl := Option.some.inj hs
    exact ⟨⟨h.buffered.count, h.buffered.data, h.buffered.writes⟩, h.disabled, h.nodup, h.held_lt, h.fresh, h.lawful⟩

/-- A packet that is told sent, and was not. -/
theorem TruthInv.not_truthful {p : ℕ} (hp : p < s'.pkts.length) (hlog : s'.log = s.log ++ new)
    (hheld : p ∉ s'.held) (hsaid : (p ∈ s.held → c.sg = true) → .complete .success ∈ historyOf p new)
    (hin : p ∈ s.held ∨ p = s.pkts.length) (hnot : .write true ∉ historyOf p new) : ¬Truthful c s' := by
  intro ht
  -- a packet in the buffer was told sent before, in copy mode, and not written
  have hbefore : .write true ∉ historyOf p s.log ∧
      ((p ∈ s.held → c.sg = true) ∨ .complete .success ∈ historyOf p s.log) := by
    rcases hin with hmem | rfl
    · have hl := h.lawful p (h.held_lt p hmem)
      generalize historyOf p s.log = l at hl
      cases hl with
      | waits hsg _ => exact ⟨not_mem_nil, .inl fun _ => hsg⟩
      | copied _ _ => exact ⟨by simp, .inr (by simp)⟩
      | written hh => exact absurd hmem hh
      | follows hh => exact absurd hmem hh
      | lost hh => exact absurd hmem hh
      | dropped hh => exact absurd hmem hh
    · rw [h.fresh _ le_rfl]
      exact ⟨not_mem_nil, .inl fun hmem => absurd (h.held_lt _ hmem) (lt_irrefl _)⟩
  have hmem : .complete .success ∈ historyOf p s'.log := by
    rw [hlog, historyOf_append, mem_append]
    exact hbefore.2.elim (fun hsg => .inr (hsaid hsg)) .inl
  rcases ht.succeeded p hp hmem with hw | hh
  · rw [hlog, historyOf_append, mem_append] at hw
    exact hw.elim hbefore.1 hnot
  · exact hheld hh

/-- A step off the condition leaves the upper layer with a false success. -/
theorem TruthInv.not_truthful_of_step {op : TxOp} (hk : ¬op.Kept c s)
    (hs : (txSystem c).step s op = some s') : ¬Truthful c s' := by
  have hn : s.pkts.length ∉ s.held := fun hmem => absurd (h.held_lt _ hmem) (lt_irrefl _)
  simp only [TxOp.Kept, not_forall, Bool.not_eq_true] at hk
  obtain ⟨hflush, hnot, hfail⟩ := hk
  cases op with
  | data len payload nextPktLen flushOk curOk =>
    obtain rfl := Option.some.inj hs
    obtain rfl : flushOk = false := hfail
    obtain ⟨-, -, hcase⟩ := h.sdioHostToCard_cases len payload nextPktLen false curOk
    rcases hcase with ⟨hno, -⟩ | ⟨hlen, ⟨hno, -⟩ | ⟨new, hcase, hlog⟩⟩
    · exact absurd (hflush.symm.trans hno) (by decide)
    · exact absurd (hflush.symm.trans hno) (by decide)
    · rw [hflush] at hcase
      obtain ⟨p, hp, hgone, hsaid, hlie⟩ := hcase.exists_lie hnot h.nodup hn
      refine h.not_truthful ?_ hlog hgone hsaid hp hlie
      rcases hp with hp | rfl
      · have := h.held_lt p hp
        omega
      · omega
  | flush ok =>
    obtain rfl := Option.some.inj hs
    obtain rfl : ok = false := hfail
    have hcnt : s.mpa.pktCnt ≠ 0 := by simpa [TxPath.flushes] using hflush
    have hheld : s.held ≠ [] := by
      rw [← length_pos_iff, h.buffered.count]
      omega
    obtain ⟨hempty, -, hlog⟩ := sendMpAggrBuf_of_held h.buffered hheld false
    obtain ⟨p, hp⟩ := exists_mem_of_ne_nil _ hheld
    refine h.not_truthful ?_ hlog (hempty ▸ not_mem_nil) (fun hsg => ?_) (.inl hp) ?_
    · rw [TxPath.sendMpAggrBuf, if_neg hcnt]
      exact h.held_lt p hp
    · simp [historyOf_tells h.nodup, hp, hsg hp]
    · cases hsg : c.sg <;> simp [historyOf_tells h.nodup, hp, hsg]
  | refresh bitmap => simp [TxPath.flushes] at hflush

end

theorem TruthInv.of_reachableWhen (h : (txSystem c).ReachableWhen (fun s op => op.Kept c s) s) : TruthInv c s := by
  refine h.invariant (fun s hs => ?_) fun s op s' hi hk hs => hi.step hk hs
  obtain ⟨⟨-, hlen, hcnt, -, -, -⟩, hheld, hpkts, hlog⟩ := hs
  refine ⟨⟨?_, ?_, ?_⟩, fun _ => hcnt, ?_, ?_, ?_, ?_⟩
  · rw [hheld, hcnt]
    rfl
  · rw [hheld, aggrWrite, hcnt, hlen]
    cases c.sg <;> rfl
  · rw [hlog]
    exact fun _ _ _ hw => absurd hw not_mem_nil
  · exact hheld ▸ nodup_nil
  · rw [hheld]
    exact fun _ hp => absurd hp not_mem_nil
  · rw [hlog]
    exact fun _ _ => rfl
  · rw [hpkts]
    exact fun _ hp => absurd hp (by simp)

/-- **Completion truth.** In a run whose steps all meet the condition, the upper layer is told the truth; and the next
step keeps it so exactly if it meets the condition. -/
theorem completion_truth (h : (txSystem c).ReachableWhen (fun s op => op.Kept c s) s) :
    Truthful c s ∧ ∀ op s', (txSystem c).step s op = some s' → (Truthful c s' ↔ op.Kept c s) := by
  have hi := TruthInv.of_reachableWhen h
  refine ⟨hi.truthful, fun op s' hs => ⟨fun ht => ?_, fun hk => (hi.step hk hs).truthful⟩⟩
  by_contra hk
  exact hi.not_truthful_of_step hk hs ht

/-- A path before the first packet. -/
def emptyTxPath (start : ℕ) : TxPath :=
  ⟨emptyMpaTx start, [], [], []⟩

/-- A packet of one block; `more` : another one follows. -/
def oneBlock (more flushOk curOk : Bool) : TxOp :=
  .data 256 (fun _ => 0) (if more then 256 else 0) flushOk curOk

/-- Two packets in one write, and one alone that fails. -/
theorem completion_truth_one_lost : ∃ s, (txSystem newCard).ReachableWhen (fun s op => op.Kept newCard s) s ∧
    historyOf 0 s.log = [.complete .success, .write true] ∧
      historyOf 2 s.log = [.write false, .complete .failure] ∧ Truthful newCard s := by
  obtain ⟨s, hs, hrun⟩ := System.exists_reachableWhen_of_runWhen (M := txSystem newCard)
    (C := fun s op => op.Kept newCard s)
    (P := fun s => historyOf 0 s.log = [.complete .success, .write true] &&
      historyOf 2 s.log = [.write false, .complete .failure])
    (l := [.refresh 0xff, oneBlock true true true, oneBlock false true true, oneBlock false true false])
    (s := emptyTxPath 0) (.init ⟨⟨rfl, rfl, rfl, rfl, rfl, rfl⟩, rfl, rfl, rfl⟩) (by decide +kernel)
  simp only [Bool.and_eq_true, decide_eq_true_eq] at hrun
  exact ⟨s, hs, hrun.1, hrun.2, (completion_truth hs).1⟩

/-- A card in scatter-gather mode. -/
def sgCard : Card :=
  { newCard with sg := true }

/-- Two packets go out in one write, which fails; both are completed with success. -/
theorem failed_write_told_sent : ¬∀ c s, (txSystem c).Reachable s → Truthful c s := by
  intro h
  obtain ⟨s, hs, hrun⟩ := System.exists_reachable_of_run (M := txSystem sgCard)
    (P := fun s => s.pkts.length = 2 && s.held = [] &&
      historyOf 0 s.log = [.write false, .complete .success])
    (l := [.refresh 0xff, oneBlock true true true, oneBlock false false true])
    (s := emptyTxPath 0) ⟨⟨rfl, rfl, rfl, rfl, rfl, rfl⟩, rfl, rfl, rfl⟩ (by decide +kernel)
  simp only [Bool.and_eq_true, decide_eq_true_eq] at hrun
  obtain ⟨⟨hlen, hheld⟩, hhist⟩ := hrun
  rcases (h sgCard s hs).succeeded 0 (by omega) (by rw [hhist]; decide) with hw | hw
  · rw [hhist] at hw
    exact absurd hw (by decide)
  · rw [hheld] at hw
    exact absurd hw not_mem_nil

end

end WlanDriver.Sdio
