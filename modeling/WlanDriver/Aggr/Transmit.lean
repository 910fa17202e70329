import WlanDriver.Aggr.Amsdu
import WlanDriver.Tx.Path

/-!
# Aggregates on their way to the card

`wlan_11n_aggregate_pkt` takes packets off an RA list and copies them into a new buffer; on a card with a scatter list,
`wlan_send_amsdu_subframe_list` turns them into subframes where they are and queues them in `amsdu_txq`. Both let go
of `ra_list_spinlock` after each packet, and look whether their list is still there when they have it again.

A run is a sequence of critical sections. Between them other threads change RA lists in any way (`Step.change`), also
the one that a call works on. What a dequeued packet is known by afterwards is a `Sub` : the number of its dequeue, its
octets, and the receiver of the list it was taken from. `Exit` says what became of an aggregate.

`Copy.Good.close` and `Chain.Good.close` : what is handed over has the subframe of every packet that the call took.
-/

namespace WlanDriver.Aggr

open List Mem

open Tx (Priv TxEnv TxPD MlanBuffer Result)

/-! ## Descriptors of aggregates -/

def pktTypeAmsdu : UInt16 := 0xE6

/-- What both functions put into the descriptor. -/
def amsduTxPd (p : Priv) (env : TxEnv) (b : MlanBuffer) (len offset : ℕ) : TxPD where
  bssType := p.bssType
  bssNum := p.bssNum
  txPktLength := UInt16.ofNat len
  txPktOffset := UInt16.ofNat offset
  txPktType := pktTypeAmsdu
  txControl := env.pktTxCtrl
  priority := b.priority
  flags := (if b.flags.tdls then Tx.txPdTdlsPacket else 0) ||| if b.flags.easymesh then Tx.txPdEasymesh else 0
  pktDelay2ms := 0
  reserved := 0
  txControl1 := 0

/-- The descriptor at `pd`, and the address of the receiver behind it. -/
def writeAmsduTxPd (p : Priv) (env : TxEnv) (b : MlanBuffer) (pd len offset : ℕ) : Mem :=
  let m := b.mem.write pd ((amsduTxPd p env b len offset).octets ++ List.replicate (p.txPdSizeof - 20) 0)
  if b.flags.easymesh then m.write (pd + Tx.raMacOffset) (b.mac.take 6) else m

/-- `wlan_11n_form_amsdu_txpd`, behind `headroom` octets. -/
def formAmsduTxpd (p : Priv) (env : TxEnv) (headroom : ℕ) (b : MlanBuffer) : MlanBuffer :=
  { b with mem := writeAmsduTxPd p env b headroom 0 p.txPdSizeof }

/-- `wlan_11n_update_pktlen_amsdu_txpd`. -/
def updatePktlenAmsduTxpd (p : Priv) (env : TxEnv) (headroom len : ℕ) (m : Mem) : Mem :=
  let m := m.write (headroom + 2) (Tx.le16 (UInt16.ofNat (len - p.txPdSizeof)))
  let m := m.write (headroom + 14) [env.pktDelay2ms]
  if p.isSta && env.lastPacket then
    m.write (headroom + Tx.flagsOffset) [m (headroom + Tx.flagsOffset) ||| Tx.txPdLastPacket]
  else m

/-- `head_ptr` of `wlan_form_amsdu_txpd`, as an offset. -/
def amsduHead (p : Priv) (b : MlanBuffer) : ℕ :=
  (b.pbuf + b.dataOffset - p.txPdSizeof - p.intfHrLen) / 8 * 8 - b.pbuf

/-- `wlan_form_amsdu_txpd`, before the first subframe. -/
def formTxpdSubframe (p : Priv) (env : TxEnv) (amsduPktLen : ℕ) (b : MlanBuffer) : MlanBuffer :=
  let head := amsduHead p b
  let pd := head + p.intfHrLen
  { b with
    mem := writeAmsduTxPd p env b pd amsduPktLen (b.dataOffset - pd)
    dataOffset := head
    dataLen := b.dataLen + b.dataOffset - head }

/-! ## Calls -/

/-- `raListTbl`. -/
structure RaList where
  ra : List UInt8
  maxAmsdu : ℕ
  bufHead : List MlanBuffer

/-- What a dequeued packet is known by. -/
structure Sub where
  serial : ℕ
  frame : List UInt8
  ra : List UInt8
  deriving DecidableEq

/-- A call of `wlan_11n_aggregate_pkt`. `ra` and `subs` are history variables. -/
structure Copy (ι : Type*) where
  iface : ι
  list : ℕ
  headroom : ℕ
  maxAmsduSize : ℕ
  /-- `pmbuf_aggr`, from the beginning of its headroom on. -/
  buf : MlanBuffer
  pktSize : ℕ
  pad : ℕ
  ra : List UInt8
  subs : List Sub

/-- A call of `wlan_send_amsdu_subframe_list`. `ra` is a history variable. -/
structure Chain (ι : Type*) where
  iface : ι
  list : ℕ
  headroom : ℕ
  maxAmsduSize : ℕ
  maxMsduCount : ℕ
  msduCnt : ℕ
  pktSize : ℕ
  pad : ℕ
  /-- Where `pmbuf_first` is in `amsdu_txq`. -/
  first : ℕ
  ra : List UInt8

/-- What became of an aggregate buffer. A requeued one is at the head of a list of receiver `ra`. -/
inductive Fate
  | accepted
  | completed
  | requeued (ra : List UInt8)
  | lost
  deriving DecidableEq

/-- An aggregate that a call is done with : its receiver, packets, and octets, whether it was handed to the card, and its
fate. -/
structure Exit where
  ra : List UInt8
  subs : List Sub
  sent : List (List UInt8)
  handed : Bool
  fate : Fate

/-- Where the main process is when `ra_list_spinlock` is free. -/
inductive Phase (ι : Type*)
  | idle
  | copying (c : Copy ι) (src : MlanBuffer) (u : Sub)
  | sending (c : Copy ι)
  | refused (c : Copy ι)
  | chaining (k : Chain ι) (src : MlanBuffer) (u : Sub)
  | chained (k : Chain ι)

/-- RA lists by interface and address, and the calls on them. The last three are history variables : how many packets
were dequeued, which of them were completed, and what became of the aggregates. -/
structure Transmit (ι : Type*) where
  lists : ι → ℕ → Option RaList
  amsduTxq : List (MlanBuffer × Sub)
  phase : Phase ι
  taken : ℕ
  completed : List ℕ
  exits : List Exit

/-- The card : whether it takes scatter lists (`IS_PCIEAW693`), the size of its buffers, and its interfaces. -/
structure Card (ι : Type*) where
  sg : Bool
  txBufSize : ℕ
  priv : ι → Priv

/-- The steps, with what other functions give : the buffer that is allocated, `get_max_msdu_cnt`, what `host_to_card`
returns, whether `tp_state_drop_point` is 4, and whether `pps_uapsd_mode` and `tx_lock_flag` are set. -/
inductive Step (ι : Type*)
  | change (i : ι) (a : ℕ) (l : Option RaList)
  | start (i : ι) (a : ℕ) (headroom : ℕ) (alloc : Option MlanBuffer) (maxMsduCount : ℕ) (env : TxEnv)
  | copied
  | send (env : TxEnv) (r : Result) (drop : Bool)
  | requeue (locked : Bool)
  | linked
  | sendList (env : TxEnv) (drop : Bool)

/-- `pmbuf_aggr` with what it takes over from the first packet. -/
def aggrBuffer (new src : MlanBuffer) : MlanBuffer :=
  { new with
    dataOffset := 0
    rawData := src.rawData
    priority := src.priority
    flags := { new.flags with
      tdls := new.flags.tdls || src.flags.tdls
      easymesh := new.flags.easymesh || src.flags.easymesh }
    mac := if src.flags.easymesh then src.mac else new.mac }

namespace Copy

variable {ι : Type*} (c : Copy ι)

/-- The loop condition of `wlan_11n_aggregate_pkt`. -/
def fits (b : MlanBuffer) : Bool :=
  (c.pktSize + (b.dataLen + 8) + c.headroom) % 2 ^ 32 ≤ c.maxAmsduSize

/-- A packet is copied behind the others. -/
def add (src : MlanBuffer) (u : Sub) : Copy ι :=
  let r := formAmsduPkt c.buf.mem (c.headroom + c.pktSize) src.octets
  { c with
    buf := { c.buf with mem := r.mem }
    pktSize := c.pktSize + r.size
    pad := r.pad
    subs := c.subs ++ [u] }

/-- The aggregate as it is handed over : the last subframe has no pad, and the descriptor has its length. -/
def close (p : Priv) (env : TxEnv) : Copy ι :=
  let len := c.pktSize - c.pad
  { c with
    buf := { c.buf with
      mem := updatePktlenAmsduTxpd p env c.headroom len c.buf.mem
      dataLen := len + c.headroom }
    pktSize := len }

/-- The buffer as it is put back. -/
def requeued (p : Priv) (locked : Bool) : MlanBuffer :=
  let m := if p.isSta && locked then c.buf.mem.write (c.headroom + Tx.flagsOffset) [0] else c.buf.mem
  { c.buf with mem := m, flags := { c.buf.flags with requeuedPkt := true } }

/-- What is known of the aggregate when the call is done with it. -/
def exit (handed : Bool) (fate : Fate) : Exit :=
  ⟨c.ra, c.subs, [c.buf.octets], handed, fate⟩

end Copy

namespace Chain

variable {ι : Type*} (k : Chain ι)

/-- The loop condition of `wlan_send_amsdu_subframe_list`. -/
def fits (b : MlanBuffer) : Bool :=
  (k.pktSize + (b.dataLen + 8) + k.headroom) % 2 ^ 32 ≤ k.maxAmsduSize ∧ k.msduCnt < k.maxMsduCount

/-- A packet becomes a subframe. -/
def link (src : MlanBuffer) : Chain ι × MlanBuffer :=
  let r := formAmsduSubframe src.mem src.dataOffset src.dataLen
  ({ k with pktSize := k.pktSize + r.size, pad := r.pad, msduCnt := k.msduCnt + 1 },
    { src with mem := r.mem, dataOffset := r.dataOffset, dataLen := r.dataLen })

/-- `amsdu_txq` as it is handed over : the last subframe has no pad, and a descriptor is before the first. -/
def close (p : Priv) (env : TxEnv) (q : List (MlanBuffer × Sub)) : List (MlanBuffer × Sub) :=
  let q := q.modify (q.length - 1) fun x => ({ x.1 with dataLen := x.1.dataLen - k.pad }, x.2)
  q.modify k.first fun x => (formTxpdSubframe p env (k.pktSize - k.pad) x.1, x.2)

end Chain

namespace Transmit

variable {ι : Type*} [DecidableEq ι] (cfg : Card ι) (s : Transmit ι)

/-- The RA list at an address, or none. -/
def setList (i : ι) (a : ℕ) (l : Option RaList) : ι → ℕ → Option RaList :=
  Function.update s.lists i (Function.update (s.lists i) a l)

/-- The head of the loops, with the lock held : the next packet is dequeued and the lock dropped, or the loop ends. -/
def takeHead (i : ι) (a : ℕ) (l : RaList) (fits : MlanBuffer → Bool) (go : MlanBuffer → Sub → Phase ι)
    (stop : Phase ι) : Transmit ι :=
  match l.bufHead with
  | b :: rest =>
    if fits b then
      { s with
        lists := s.setList i a (some { l with bufHead := rest })
        phase := go b ⟨s.taken, b.octets, l.ra⟩
        taken := s.taken + 1 }
    else { s with phase := stop }
  | [] => { s with phase := stop }

def nextCopy (c : Copy ι) (l : RaList) : Transmit ι :=
  s.takeHead c.iface c.list l c.fits (.copying c) (.sending c)

def nextChain (k : Chain ι) (l : RaList) : Transmit ι :=
  s.takeHead k.iface k.list l k.fits (.chaining k) (.chained k)

/-- A call is done with its aggregate. -/
def finish (x : Exit) : Transmit ι :=
  { s with phase := .idle, exits := s.exits ++ [x] }

/-- The beginning of `wlan_11n_aggregate_pkt`, with the list `l` at `a`. -/
def start (i : ι) (a : ℕ) (l : RaList) (headroom : ℕ) (alloc : Option MlanBuffer) (maxMsduCount : ℕ) (env : TxEnv) :
    Transmit ι :=
  let maxAmsduSize := min l.maxAmsdu cfg.txBufSize
  match l.bufHead with
  | [] => s
  | src :: _ =>
    if cfg.sg then s.nextChain ⟨i, a, headroom, maxAmsduSize, maxMsduCount, 0, 0, 0, s.amsduTxq.length, l.ra⟩ l
    else
      match alloc with
      | none => s
      | some new =>
        let buf := formAmsduTxpd (cfg.priv i) env headroom (aggrBuffer new src)
        s.nextCopy ⟨i, a, headroom, maxAmsduSize, buf, (cfg.priv i).txPdSizeof, 0, l.ra, []⟩ l

/-- The aggregate `c` is handed over, or dropped. -/
def send (c : Copy ι) (r : Result) (drop : Bool) : Transmit ι :=
  if drop then s.finish (c.exit false .completed)
  else
    match r with
    | .resource => { s with phase := .refused c }
    | .success => s.finish (c.exit true .completed)
    | .failure => s.finish (c.exit true .completed)
    | .pending => s.finish (c.exit true .accepted)
    | .presource => s.finish (c.exit true .accepted)

/-- One step. -/
def step : Step ι → Option (Transmit ι)
  | .change i a l => some { s with lists := s.setList i a l }
  | .start i a headroom alloc maxMsduCount env =>
    match s.phase, s.lists i a with
    | .idle, some l => some (s.start cfg i a l headroom alloc maxMsduCount env)
    | _, _ => none
  | .copied =>
    match s.phase with
    | .copying c src u =>
      let c := c.add src u
      let s := { s with completed := s.completed ++ [u.serial] }
      match s.lists c.iface c.list with
      | none => some (s.finish (c.exit false .lost))
      | some l => some (s.nextCopy c l)
    | _ => none
  | .send env r drop =>
    match s.phase with
    | .sending c => some (s.send (c.close (cfg.priv c.iface) env) r drop)
    | _ => none
  | .requeue locked =>
    match s.phase with
    | .refused c =>
      match s.lists c.iface c.list with
      | none => some (s.finish (c.exit true .completed))
      | some l =>
        let b := c.requeued (cfg.priv c.iface) locked
        some (({ s with
          lists := s.setList c.iface c.list (some { l with bufHead := b :: l.bufHead }) } : Transmit ι).finish
          (c.exit true (.requeued l.ra)))
    | _ => none
  | .linked =>
    match s.phase with
    | .chaining k src u =>
      let (k, b) := k.link src
      let s := { s with amsduTxq := s.amsduTxq ++ [(b, u)] }
      match s.lists k.iface k.list with
      | none => some { s with phase := .idle }
      | some l => some (s.nextChain k l)
    | _ => none
  | .sendList env drop =>
    match s.phase with
    | .chained k =>
      if k.msduCnt = 0 then some { s with phase := .idle }
      else
        let q := k.close (cfg.priv k.iface) env s.amsduTxq
        let subs := q.map Prod.snd
        some (({ s with
          amsduTxq := []
          completed := s.completed ++ subs.map Sub.serial } : Transmit ι).finish
          ⟨k.ra, subs, q.map fun x => x.1.octets, !drop, if drop then .completed else .accepted⟩)
    | _ => none

/-- Before the first packet. -/
def Init : Prop :=
  (∀ i a, s.lists i a = none) ∧ s.amsduTxq = [] ∧ s.phase = .idle ∧ s.taken = 0 ∧ s.completed = [] ∧ s.exits = []

end Transmit

section Octets

variable {m : Mem} {a n : ℕ} {f : List UInt8} {frames : List (List UInt8)} {p : Priv} {env : TxEnv} {b : MlanBuffer}

theorem read_inside {k b : ℕ} (ha : a ≤ b) (hb : b + k ≤ a + n) : m.read b k <:+: m.read a n := by
  rw [read_part (n := n) ha (by omega)]
  exact (List.take_prefix _ _).isInfix.trans (drop_suffix _ _).isInfix

/-- A frame of an aggregate is in its octets. -/
theorem Laid.inside (h : Laid m a frames) (hf : f ∈ frames) : subframe f <:+: m.read a (amsduLen frames) := by
  induction frames generalizing a with
  | nil => exact absurd hf not_mem_nil
  | cons g gs ih =>
    obtain ⟨hg, hgs⟩ := h
    have hfit := length_le_amsduLen (show g ∈ g :: gs from mem_cons_self)
    rcases mem_cons.mp hf with rfl | hf
    · rw [← hg]
      exact read_inside le_rfl (by omega)
    · rcases amsduLen_cons g gs with ⟨-, hlen⟩ | ⟨rfl, -⟩
      · exact (ih hgs hf).trans (read_inside (by omega) (by omega))
      · exact absurd hf not_mem_nil

/-- The loop goes on where it was. -/
theorem aggregateLoop_append (pos pad : ℕ) (fs gs : List (List UInt8)) :
    aggregateLoop m pos pad (fs ++ gs) =
      aggregateLoop (aggregateLoop m pos pad fs).1 (aggregateLoop m pos pad fs).2.1 (aggregateLoop m pos pad fs).2.2
        gs := by
  induction fs generalizing m pos pad with
  | nil => rfl
  | cons f fs ih => exact ih _ _

/-- The length and the flags of a descriptor are before the subframes. -/
theorem updatePktlen_behind {headroom len x : ℕ} (hx : headroom + p.txPdSizeof ≤ x) :
    updatePktlenAmsduTxpd p env headroom len m x = m x := by
  have hsize := Tx.txPdSizeof_bounds p
  have hflags : Tx.flagsOffset = 13 := rfl
  unfold updatePktlenAmsduTxpd
  split
  · rw [write_apply_of_not_mem (.inr ?_), write_apply_of_not_mem (.inr ?_),
      write_apply_of_not_mem (.inr ?_)]
    · simp only [Tx.le16, length_cons, length_nil]
      omega
    · rw [length_singleton]
      omega
    · rw [length_singleton]
      omega
  · rw [write_apply_of_not_mem (.inr ?_), write_apply_of_not_mem (.inr ?_)]
    · simp only [Tx.le16, length_cons, length_nil]
      omega
    · rw [length_singleton]
      omega

/-- The place for a descriptor is in the buffer, and `ra_mac` ends before the subframe. -/
def TxpdRoom (p : Priv) (b : MlanBuffer) : Prop :=
  p.txPdSizeof + p.intfHrLen ≤ b.dataOffset ∧
    b.pbuf ≤ (b.pbuf + b.dataOffset - p.txPdSizeof - p.intfHrLen) / 8 * 8 ∧
    (b.flags.easymesh = true →
      amsduHead p b + p.intfHrLen + Tx.raMacOffset + (b.mac.take 6).length ≤ b.dataOffset)
  deriving Decidable

/-- A subframe stays in its buffer when a descriptor is put before it. -/
theorem formTxpdSubframe_inside (h : TxpdRoom p b) (len : ℕ) : b.octets <:+: (formTxpdSubframe p env len b).octets := by
  obtain ⟨hroom, hin, hmesh⟩ := h
  have hsize := Tx.txPdSizeof_bounds p
  have hhead : amsduHead p b + p.intfHrLen + p.txPdSizeof ≤ b.dataOffset := by
    unfold amsduHead
    omega
  have hkeep : (writeAmsduTxPd p env b (amsduHead p b + p.intfHrLen) len
      (b.dataOffset - (amsduHead p b + p.intfHrLen))).read b.dataOffset b.dataLen = b.octets := by
    have hfirst : (b.mem.write (amsduHead p b + p.intfHrLen)
        ((amsduTxPd p env b len (b.dataOffset - (amsduHead p b + p.intfHrLen))).octets ++
          List.replicate (p.txPdSizeof - 20) 0)).read b.dataOffset b.dataLen = b.octets := by
      refine read_write_of_disjoint (.inr ?_)
      rw [length_append, TxPD.length_octets, length_replicate]
      omega
    unfold writeAmsduTxPd
    dsimp only
    split
    · next hflag => rw [read_write_of_disjoint (.inr (hmesh hflag)), hfirst]
    · exact hfirst
  rw [← hkeep]
  change read _ _ _ <:+: read _ (amsduHead p b) (b.dataLen + b.dataOffset - amsduHead p b)
  exact read_inside (by omega) (by omega)

end Octets

/-! ## What a call has in hand -/

namespace Copy

variable {ι : Type*} {c : Copy ι} {p : Priv} {env : TxEnv} {src : MlanBuffer} {u : Sub}

/-- The subframes of the packets are in the buffer one after the other, and all are of one receiver. -/
structure Good (p : Priv) (c : Copy ι) : Prop where
  loop : ∃ m, aggregateLoop m (c.headroom + p.txPdSizeof) 0 (c.subs.map Sub.frame) =
    (c.buf.mem, c.headroom + c.pktSize, c.pad)
  long : ∀ f ∈ c.subs.map Sub.frame, 14 ≤ f.length
  ra : ∀ u ∈ c.subs, u.ra = c.ra
  dataOffset : c.buf.dataOffset = 0

/-- An aggregate that is ready : it has packets, all of one receiver, and their octets. -/
structure Closed (c : Copy ι) : Prop where
  ne_nil : c.subs ≠ []
  ra : ∀ u ∈ c.subs, u.ra = c.ra
  octets : ∀ u ∈ c.subs, subframe u.frame <:+: c.buf.octets

theorem Good.add (hc : c.Good p) (hframe : src.octets = u.frame) (hlong : 14 ≤ src.dataLen) (hra : u.ra = c.ra) :
    (c.add src u).Good p := by
  obtain ⟨⟨m, hloop⟩, hall, hsame, hoff⟩ := hc
  have hulen : u.frame.length = src.dataLen := by
    rw [← hframe]
    exact length_read _ _ _
  refine ⟨⟨m, ?_⟩, ?_, ?_, hoff⟩
  · change aggregateLoop m (c.headroom + p.txPdSizeof) 0 ((c.subs ++ [u]).map Sub.frame) = _
    rw [map_append, aggregateLoop_append, hloop]
    simp only [map_cons, map_nil, aggregateLoop, Copy.add, hframe, Nat.add_assoc]
  · intro f hf
    change f ∈ (c.subs ++ [u]).map Sub.frame at hf
    rw [map_append, mem_append] at hf
    rcases hf with hf | hf
    · exact hall f hf
    · rw [map_cons, map_nil, mem_singleton] at hf
      rw [hf, hulen]
      exact hlong
  · intro v hv
    rcases mem_append.mp hv with hv | hv
    · exact hsame v hv
    · rw [mem_singleton] at hv
      exact hv ▸ hra

theorem Good.close (hc : c.Good p) (hne : c.subs ≠ []) : (c.close p env).Closed := by
  obtain ⟨⟨m, hloop⟩, hlong, hra, hoff⟩ := hc
  refine ⟨hne, hra, fun u hu => ?_⟩
  have hframes : c.subs.map Sub.frame ≠ [] := fun h => hne (map_eq_nil_iff.mp h)
  have hend := aggregateLoop_end (m := m) hframes (c.headroom + p.txPdSizeof) 0
  have hlaid := aggregateLoop_laid (m := m) hlong (c.headroom + p.txPdSizeof) 0
  rw [hloop] at hend hlaid
  dsimp only at hend hlaid
  have hlaid' : Laid (c.close p env).buf.mem (c.headroom + p.txPdSizeof) (c.subs.map Sub.frame) :=
    hlaid.congr fun x hx => updatePktlen_behind hx
  have hsub := hlaid'.inside (mem_map_of_mem hu)
  refine hsub.trans ?_
  change _ <:+: read _ c.buf.dataOffset (c.pktSize - c.pad + c.headroom)
  exact read_inside (by omega) (by omega)

theorem Closed.exit {x : Fate} {handed : Bool} (hc : c.Closed) (u : Sub) (hu : u ∈ (c.exit handed x).subs) :
    ∃ o ∈ (c.exit handed x).sent, subframe u.frame <:+: o :=
  ⟨c.buf.octets, mem_singleton_self _, hc.octets u hu⟩

end Copy

namespace Chain

variable {ι : Type*} {k : Chain ι} {q : List (MlanBuffer × Sub)} {p : Priv} {env : TxEnv} {src : MlanBuffer} {u : Sub}

/-- A buffer of `amsdu_txq` has the subframe of its packet, and a pad. -/
structure Linked (x : MlanBuffer × Sub) : Prop where
  octets : x.1.mem.read x.1.dataOffset (x.2.frame.length + 8) = subframe x.2.frame
  dataLen : x.1.dataLen = x.2.frame.length + 8 + padLen (x.2.frame.length + 8)

/-- `amsdu_txq` has the packets of this call, all of one receiver. -/
structure Good (k : Chain ι) (q : List (MlanBuffer × Sub)) : Prop where
  first : k.first = 0
  msduCnt : k.msduCnt = q.length
  linked : ∀ x ∈ q, Linked x
  ra : ∀ x ∈ q, x.2.ra = k.ra
  pad : ∀ x ∈ q.getLast?, k.pad = padLen (x.2.frame.length + 8)

theorem linked_link (hframe : src.octets = u.frame) (hlong : 14 ≤ src.dataLen) (hroom : 8 ≤ src.dataOffset) :
    Linked ((k.link src).2, u) := by
  have hulen : src.dataLen = u.frame.length := by
    rw [← hframe]
    exact (length_read _ _ _).symm
  have hread : src.mem.read src.dataOffset u.frame.length = u.frame := by
    rw [← hulen]
    exact hframe
  refine ⟨?_, ?_⟩
  · change (formAmsduSubframe src.mem src.dataOffset src.dataLen).mem.read
      (formAmsduSubframe src.mem src.dataOffset src.dataLen).dataOffset (u.frame.length + 8) = _
    rw [hulen]
    exact formAmsduSubframe_read hroom (by omega) hread
  · change src.dataLen + 8 + padLen (src.dataLen + 8) = _
    rw [hulen]

theorem Good.link (hk : k.Good q) (hframe : src.octets = u.frame) (hlong : 14 ≤ src.dataLen)
    (hroom : 8 ≤ src.dataOffset) (hra : u.ra = k.ra) : (k.link src).1.Good (q ++ [((k.link src).2, u)]) := by
  have hx : Linked ((k.link src).2, u) := linked_link hframe hlong hroom
  have hulen : src.dataLen = u.frame.length := by
    rw [← hframe]
    exact (length_read _ _ _).symm
  obtain ⟨hfirst, hcnt, hlinked, hsame, -⟩ := hk
  refine ⟨hfirst, ?_, ?_, ?_, ?_⟩
  · rw [length_append, length_singleton, ← hcnt]
    rfl
  · intro y hy
    rcases mem_append.mp hy with hy | hy
    · exact hlinked y hy
    · rw [mem_singleton] at hy
      exact hy ▸ hx
  · intro y hy
    rcases mem_append.mp hy with hy | hy
    · exact hsame y hy
    · rw [mem_singleton] at hy
      exact hy ▸ hra
  · intro y hy
    rw [getLast?_append, getLast?_singleton, Option.some_or] at hy
    obtain rfl := Option.some.inj hy
    change padLen (src.dataLen + 8) = padLen (u.frame.length + 8)
    rw [hulen]

/-- A member of a list that was changed in one place. -/
theorem mem_modify {α : Type*} {l : List α} {i : ℕ} {f : α → α} {x : α} (h : x ∈ l.modify i f) :
    x ∈ l ∨ ∃ y, l[i]? = some y ∧ x = f y := by
  obtain ⟨j, hj⟩ := mem_iff_getElem?.mp h
  rw [getElem?_modify] at hj
  obtain ⟨y, hy, hxy⟩ := Option.map_eq_some_iff.mp hj
  split at hxy
  · next hij => exact .inr ⟨y, hij ▸ hy, hxy.symm⟩
  · exact .inl (hxy ▸ mem_of_getElem? hy)

theorem map_snd_modify {α β : Type*} {f : α × β → α × β} (hf : ∀ x, (f x).2 = x.2) (i : ℕ) (l : List (α × β)) :
    (l.modify i f).map Prod.snd = l.map Prod.snd := by
  refine ext_getElem? fun j => ?_
  rw [getElem?_map, getElem?_map, getElem?_modify]
  cases l[j]? with
  | none => rfl
  | some x =>
    change some (if i = j then f x else x).2 = some x.2
    split
    · rw [hf x]
    · rfl

theorem close_snd (k : Chain ι) (p : Priv) (env : TxEnv) (q : List (MlanBuffer × Sub)) :
    (k.close p env q).map Prod.snd = q.map Prod.snd := by
  unfold Chain.close
  dsimp only
  rw [map_snd_modify, map_snd_modify] <;> exact fun _ => rfl

/-- A buffer has the subframe of its packet. -/
theorem Linked.inside {x : MlanBuffer × Sub} (hx : Linked x) {n : ℕ} (hn : x.2.frame.length + 8 ≤ n) :
    subframe x.2.frame <:+: x.1.mem.read x.1.dataOffset n := by
  rw [← hx.octets]
  exact read_inside le_rfl (by omega)

/-- The buffers that are handed over have the subframes of their packets. -/
theorem Good.close (hk : k.Good q) (hroom : ∀ x ∈ q.head?, TxpdRoom p x.1) :
    ∀ x ∈ k.close p env q, subframe x.2.frame <:+: x.1.octets := by
  -- without its pad, the last one still ends with its subframe
  have hcut : ∀ x ∈ q.modify (q.length - 1) (fun x => ({ x.1 with dataLen := x.1.dataLen - k.pad }, x.2)),
      subframe x.2.frame <:+: x.1.octets := by
    intro x hx
    rcases mem_modify hx with hx | ⟨y, hy, rfl⟩
    · exact (hk.linked x hx).inside (by rw [(hk.linked x hx).dataLen]; omega)
    · have hlinked := hk.linked y (mem_of_getElem? hy)
      have hlast : q.getLast? = some y := by rw [getLast?_eq_getElem?, hy]
      have hpad : k.pad = padLen (y.2.frame.length + 8) := hk.pad y hlast
      have hlen : y.1.dataLen - k.pad = y.2.frame.length + 8 := by
        rw [hlinked.dataLen, hpad]
        omega
      exact hlinked.inside hlen.ge
  intro x hx
  unfold Chain.close at hx
  rw [hk.first] at hx
  rcases mem_modify hx with hx | ⟨y, hy, rfl⟩
  · exact hcut x hx
  · refine (hcut y (mem_of_getElem? hy)).trans ?_
    refine formTxpdSubframe_inside ?_ _
    rw [getElem?_modify] at hy
    obtain ⟨z, hz, hzy⟩ := Option.map_eq_some_iff.mp hy
    have hroomz : TxpdRoom p z.1 := hroom z (by rw [head?_eq_getElem?]; exact hz)
    split at hzy
    · exact hzy ▸ hroomz
    · exact hzy ▸ hroomz

end Chain

end WlanDriver.Aggr
