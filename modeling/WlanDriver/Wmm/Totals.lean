import WlanDriver.Wmm.Nodes

/-!
# Packets that a list counts

`total_pkts` of a list counts `buf_head`, and with it a processed packet that is with the bus. `TotalExact.step` : every
operation keeps this, as long as the 16 bits hold all packets and the allocator does not hand out the address of a list whose
packet is in flight.

The sums over a row, of all packets and of those in lists that are paused or not, are what the counters of the TIDs
and of the BSS repeat.
-/

namespace WlanDriver.Wmm

open Ethernet List Option

variable {cfg : Config} {s s' : Bss} {t : Tid} {a : ℕ} {l x y : RaList} {b : Buf} {mac : Mac}

/-! ## Sums over the lists -/

namespace RaList

/-- The packets of a list that is not paused. -/
def openPkts (l : RaList) : ℕ :=
  if l.txPause then 0 else l.totalPkts

/-- The packets of a paused list. -/
def pausedPkts (l : RaList) : ℕ :=
  if l.txPause then l.totalPkts else 0

theorem openPkts_add_pausedPkts (l : RaList) : l.openPkts + l.pausedPkts = l.totalPkts := by
  unfold openPkts pausedPkts
  split_ifs <;> omega

end RaList

def queuedSum (row : List RaList) : ℕ :=
  (row.map RaList.totalPkts).sum

def pausedSum (row : List RaList) : ℕ :=
  (row.map RaList.pausedPkts).sum

def openSum (row : List RaList) : ℕ :=
  (row.map RaList.openPkts).sum

theorem openSum_add_pausedSum (row : List RaList) : openSum row + pausedSum row = queuedSum row := by
  induction row with
  | nil => rfl
  | cons l row ih =>
    simp only [openSum, pausedSum, queuedSum, map_cons, sum_cons] at ih ⊢
    have := l.openPkts_add_pausedPkts
    omega

/-- The sum over all rows follows an edit of a node. -/
theorem NodeEdit.pool (h : NodeEdit s s' t x y) (w : RaList → ℕ) :
    poolSum (fun row => (row.map w).sum) s'.tbl + w x = poolSum (fun row => (row.map w).sum) s.tbl + w y := by
  have hpool := poolSum_update (fun row => (row.map w).sum) s.tbl t (s'.tbl t)
  rw [← h.tbl_eq] at hpool
  have hrow := h.row.sum w
  omega

/-- Row by row, what leaves the sum. -/
theorem poolSum_add {w : List RaList → ℕ} {f g : Tid → List RaList} {m : Tid → ℕ}
    (h : ∀ t, w (g t) + m t = w (f t)) : poolSum w g + ∑ t, m t = poolSum w f := by
  unfold poolSum
  rw [← Finset.sum_add_distrib]
  exact Finset.sum_congr rfl fun t _ => h t

namespace Bss

/-- The packets that the BSS holds. -/
def load (s : Bss) : ℕ :=
  poolSum queuedSum s.tbl + s.tdlsPendingTxq.length + if s.flight.isSome then 1 else 0

/-- 1 if a processed packet of the node is with the bus. -/
def inFlight (s : Bss) (t : Tid) (a : ℕ) : ℕ :=
  match s.flight with
  | none => 0
  | some f => if f.processed = true ∧ f.tid = t ∧ f.ptr = a then 1 else 0

theorem queuedSum_le_pool (s : Bss) (t : Tid) : queuedSum (s.tbl t) ≤ poolSum queuedSum s.tbl :=
  le_poolSum queuedSum s.tbl t

theorem totalPkts_le_pool (hl : l ∈ s.tbl t) : l.totalPkts ≤ poolSum queuedSum s.tbl :=
  (le_sum_map RaList.totalPkts hl).trans (s.queuedSum_le_pool t)

theorem pool_le_load (s : Bss) : poolSum queuedSum s.tbl ≤ s.load := by
  unfold load
  omega

theorem openPool_le_pool (s : Bss) : poolSum openSum s.tbl ≤ poolSum queuedSum s.tbl := by
  unfold poolSum
  refine Finset.sum_le_sum fun t _ => ?_
  have := openSum_add_pausedSum (s.tbl t)
  omega

theorem inFlight_of_flight (h : s'.flight = s.flight) (t : Tid) (a : ℕ) : s'.inFlight t a = s.inFlight t a := by
  unfold inFlight
  rw [h]

theorem inFlight_of_none (h : s.flight = none) : s.inFlight t a = 0 := by
  simp only [inFlight, h]

theorem inFlight_of_some {f : Flight} (h : s.flight = some f) :
    s.inFlight t a = if f.processed = true ∧ f.tid = t ∧ f.ptr = a then 1 else 0 := by
  simp only [inFlight, h]

end Bss

/-! ## The counts of the lists -/

/-- Each list counts its packets, and the processed one in flight. -/
def TotalExact (s : Bss) : Prop :=
  ∀ t, ∀ l ∈ s.tbl t, l.totalPkts = l.bufHead.length + s.inFlight t l.addr

namespace TotalExact

variable (h : TotalExact s)

include h

/-- An edit of one node, which may take a processed packet or put one back. -/
theorem edit (hd : Distinct s) (he : NodeEdit s s' t x y)
    (hf : ∀ u a, ¬(u = t ∧ a = x.addr) → s'.inFlight u a = s.inFlight u a)
    (hy : y.totalPkts = y.bufHead.length + s'.inFlight t x.addr) : TotalExact s' := by
  intro u
  by_cases hu : u = t
  · subst hu
    refine he.row.forall_mem_of_ne (hd.row u) (fun l hl hne => ?_) ?_
    · rw [hf u l.addr fun hc => hne hc.2]
      exact h u l hl
    · rw [he.addr]
      exact hy
  · rw [he.other u hu]
    intro l hl
    rw [hf u l.addr fun hc => hu hc.1]
    exact h u l hl

/-- Rows whose lists come from lists of the same address, with the same difference of count and packets. -/
theorem of_rows (hf : s'.flight = s.flight)
    (hrow : ∀ t, ∀ l' ∈ s'.tbl t, ∃ l ∈ s.tbl t, l'.addr = l.addr ∧
      ∀ k, l.totalPkts = l.bufHead.length + k → l'.totalPkts = l'.bufHead.length + k) : TotalExact s' := by
  intro t l' hl'
  obtain ⟨l, hl, haddr, hk⟩ := hrow t l' hl'
  rw [Bss.inFlight_of_flight hf, haddr]
  exact hk _ (h t l hl)

theorem of_tbl (htbl : s'.tbl = s.tbl) (hf : s'.flight = s.flight) : TotalExact s' :=
  h.of_rows hf fun _ l' hl' => ⟨l', htbl ▸ hl', rfl, fun _ hk => hk⟩

theorem length_le (hl : l ∈ s.tbl t) : l.bufHead.length ≤ l.totalPkts := by
  rw [h t l hl]
  exact Nat.le_add_right _ _

/-- The count of a list with packets is positive. -/
theorem pos (hl : l ∈ s.tbl t) (hb : l.bufHead ≠ []) : 0 < l.totalPkts := by
  have := h.length_le hl
  have := length_pos_iff.mpr hb
  omega

theorem bufHead_nil (hl : l ∈ s.tbl t) (hz : l.totalPkts = 0) : l.bufHead = [] := by
  have := h.length_le hl
  exact length_eq_zero_iff.mp (by omega)

theorem pushTail (hd : Distinct s) (he : NodeEdit s s' t l (l.pushTail b))
    (hf : s'.flight = s.flight) (hroom : poolSum queuedSum s.tbl + 1 < 2 ^ 16) : TotalExact s' := by
  have hl := he.row.mem_old
  have hle := Bss.totalPkts_le_pool hl
  refine h.edit hd he (fun u a _ => Bss.inFlight_of_flight hf u a) ?_
  rw [Bss.inFlight_of_flight hf]
  have ht := h t l hl
  simp only [RaList.pushTail, length_append, length_singleton]
  rw [wadd_of_lt (by omega)]
  omega

theorem pop (hd : Distinct s) (he : NodeEdit s s' t l l.pop)
    (hf : ∀ u a, s'.inFlight u a = s.inFlight u a) (hb : l.bufHead ≠ [])
    (hroom : poolSum queuedSum s.tbl < 2 ^ 16) : TotalExact s' := by
  have hl := he.row.mem_old
  have hle := Bss.totalPkts_le_pool hl
  have hpos := h.pos hl hb
  refine h.edit hd he (fun u a _ => hf u a) ?_
  rw [hf]
  have ht := h t l hl
  have hlen := length_pos_iff.mpr hb
  simp only [RaList.pop, length_tail]
  rw [wsub_of_le hpos (by omega)]
  omega

theorem sendStart (hd : Distinct s) (hflight : s.flight = none) (hn : s.node t a = some l)
    (hroom : poolSum queuedSum s.tbl < 2 ^ 16) : TotalExact (s.sendStart t a) := by
  have hl := Bss.mem_of_node hn
  have haddr := Bss.node_addr hn
  have hzero : ∀ u c, s.inFlight u c = 0 := fun u c => Bss.inFlight_of_none hflight
  rcases Bss.sendStart_cases hn with ⟨-, heq⟩ | ⟨b, rest, hb, ⟨-, heq⟩ | ⟨-, heq⟩⟩
  · rwa [heq]
  · -- a processed packet leaves the list and stays in the count
    rw [heq]
    refine h.edit (y := l.takeOut) hd (.of_editNode hn rfl rfl) (fun u c hne => ?_) ?_
    · rw [hzero, Bss.inFlight_of_some (f := ⟨a, t, b, true⟩) rfl]
      exact if_neg fun hc => hne ⟨hc.2.1.symm, by rw [haddr]; exact hc.2.2.symm⟩
    · rw [Bss.inFlight_of_some (f := ⟨a, t, b, true⟩) rfl, if_pos ⟨rfl, rfl, haddr.symm⟩]
      have ht := h t l hl
      rw [hzero, hb] at ht
      simp only [RaList.takeOut, hb, tail_cons]
      simpa using ht
  · rw [heq]
    refine h.pop (l := l) hd (.of_editNode hn (RaList.addr_pop l) rfl) (fun u c => ?_) (by simp [hb]) hroom
    rw [hzero, Bss.inFlight_of_some (f := ⟨a, t, b, false⟩) rfl]
    simp

theorem sendDone (hd : Distinct s) {resource : Bool} (hs : s.sendDone resource = some s')
    (hroom : poolSum queuedSum s.tbl + 1 < 2 ^ 16) : TotalExact s' := by
  obtain ⟨f, hf, hcase⟩ := Bss.sendDone_cases hs
  have hold : ∀ u c, s.inFlight u c = if f.processed = true ∧ f.tid = u ∧ f.ptr = c then 1 else 0 :=
    fun u c => Bss.inFlight_of_some hf
  -- the node of the flight is gone, so no list counts the packet
  have hgone : s.node f.tid f.ptr = none → ∀ {s' : Bss}, s'.tbl = s.tbl → s'.flight = none → TotalExact s' := by
    intro hn s' htbl hflight u l hl
    rw [htbl] at hl
    have ht := h u l hl
    rwa [hold, if_neg, ← Bss.inFlight_of_none hflight (t := u) (a := l.addr)] at ht
    rintro ⟨-, rfl, hptr⟩
    exact Bss.node_eq_none_iff.mp hn (hptr ▸ mem_map_of_mem hl)
  have hsingle : f.processed = false → ∀ u c, s.inFlight u c = 0 := by
    intro hp u c
    rw [hold, hp]
    simp
  cases hcase with
  | gone hn => exact hgone hn rfl rfl
  | miscounted hn => exact hgone hn rfl rfl
  | putBack hn hp =>
    have haddr := Bss.node_addr hn
    have hl := Bss.mem_of_node hn
    refine h.edit hd (.of_editNode (f := RaList.putBack f.buf) hn rfl rfl) (fun u c hne => ?_) ?_
    · rw [hold, if_neg fun hc => hne ⟨hc.2.1.symm, by rw [haddr]; exact hc.2.2.symm⟩, Bss.inFlight_of_none rfl]
    · have ht := h f.tid _ hl
      rw [hold, if_pos ⟨hp, rfl, haddr.symm⟩] at ht
      rw [Bss.inFlight_of_none rfl]
      simpa [RaList.putBack] using ht
  | requeued hn hp =>
    have hl := Bss.mem_of_node hn
    have hle := Bss.totalPkts_le_pool hl
    refine h.edit hd (.of_editNode (f := RaList.pushHead f.buf) hn rfl rfl) (fun u c _ => ?_) ?_
    · rw [hsingle hp, Bss.inFlight_of_none rfl]
    · have ht := h f.tid _ hl
      rw [hsingle hp] at ht
      rw [Bss.inFlight_of_none rfl]
      simp only [RaList.pushHead, length_cons]
      rw [wadd_of_lt (by omega)]
      omega
  | counted hn hp =>
    have haddr := Bss.node_addr hn
    have hl := Bss.mem_of_node hn
    have hle := Bss.totalPkts_le_pool hl
    refine h.edit hd (.of_editNode (f := RaList.countOut) hn (RaList.addr_countOut _) rfl) (fun u c hne => ?_) ?_
    · rw [hold, if_neg fun hc => hne ⟨hc.2.1.symm, by rw [haddr]; exact hc.2.2.symm⟩, Bss.inFlight_of_none rfl]
    · have ht := h f.tid _ hl
      rw [hold, if_pos ⟨hp, rfl, haddr.symm⟩] at ht
      rw [Bss.inFlight_of_none rfl]
      rw [RaList.bufHead_countOut, RaList.totalPkts_countOut, wsub_of_le (by omega) (by omega)]
      omega
  | sent hn hp =>
    intro u l hl
    have ht := h u l hl
    rw [Bss.inFlight_of_none rfl]
    rwa [hsingle hp] at ht

theorem grow {c : Bss.Alloc} (hc : ∀ f, s.flight = some f → f.ptr ∉ c.addrs) :
    TotalExact (s.grow cfg c mac) := by
  intro t l hl
  have hsame : (s.grow cfg c mac).inFlight t l.addr = s.inFlight t l.addr := Bss.inFlight_of_flight rfl t l.addr
  rw [hsame]
  simp only [Bss.grow, mem_append, mem_toList, map_eq_some_iff] at hl
  rcases hl with hl | ⟨a, ha, rfl⟩
  · exact h t l hl
  · -- a new node, which no flight came from
    cases hf : s.flight with
    | none => rw [Bss.inFlight_of_none hf]; rfl
    | some f =>
      rw [Bss.inFlight_of_some hf, if_neg]
      · rfl
      · rintro ⟨-, -, hptr⟩
        exact hc f hf (hptr ▸ mem_of_getElem? ha)

theorem hold (hroom : poolSum queuedSum s.tbl < 2 ^ 16) :
    TotalExact (s.holdTdlsPackets mac) := by
  refine h.of_rows rfl fun t l' hl' => ?_
  simp only [Bss.holdTdlsPackets] at hl'
  cases hrow : s.tbl t with
  | nil => simp [hrow, Bss.holdRow] at hl'
  | cons l rest =>
    rw [hrow, Bss.holdRow, mem_cons] at hl'
    rcases hl' with rfl | hl'
    · refine ⟨l, mem_cons_self, RaList.addr_holdTdls mac l, fun k hk => ?_⟩
      have hle : l.totalPkts ≤ poolSum queuedSum s.tbl :=
        Bss.totalPkts_le_pool (t := t) (by rw [hrow]; exact mem_cons_self)
      have hlen : (l.tdlsPackets mac).length + (l.bufHead.filter fun b => ¬b.ra = mac).length = l.bufHead.length := by
        have := length_eq_length_filter_add (l := l.bufHead) fun b => decide (b.ra = mac)
        simp only [RaList.tdlsPackets, decide_not]
        omega
      rw [RaList.totalPkts_holdTdls, RaList.bufHead_holdTdls, wsub_of_le (by omega) (by omega)]
      omega
    · exact ⟨l', mem_cons_of_mem _ hl', rfl, fun _ hk => hk⟩

theorem deleteTdls (hs : s.deleteTdlsRalist mac = some s')
    (hroom : poolSum queuedSum s.tbl < 2 ^ 16) : TotalExact s' := by
  obtain ⟨-, rfl⟩ := Bss.deleteTdlsRalist_eq hs
  refine h.of_rows rfl fun t l' hl' => ?_
  dsimp only at hl'
  have hle := s.queuedSum_le_pool t
  have hsame : l' ∈ s.tbl t → ∃ l ∈ s.tbl t, l'.addr = l.addr ∧
      ∀ k, l.totalPkts = l.bufHead.length + k → l'.totalPkts = l'.bufHead.length + k :=
    fun hl => ⟨l', hl, rfl, fun _ hk => hk⟩
  rcases Bss.deleteTdlsRow_cases mac (s.tbl t) with
    ⟨heq, -⟩ | ⟨ap, rest, hrow, ⟨-, heq⟩ | ⟨x, rest', -, -, hrem, -, heq⟩⟩
  · exact hsame (heq ▸ hl')
  · exact hsame (by rw [hrow]; exact mem_cons_of_mem _ (heq ▸ hl'))
  · rw [heq, mem_cons] at hl'
    rcases hl' with rfl | hl'
    · -- the counts of both lists are in the row's sum
      refine ⟨ap, by rw [hrow]; exact mem_cons_self, RaList.addr_takeOver ap x, fun k hk => ?_⟩
      have hx := h t x (by rw [hrow]; exact mem_cons_of_mem _ hrem.mem_old)
      have hxle := le_sum_map RaList.totalPkts hrem.mem_old
      simp only [hrow, queuedSum, map_cons, sum_cons] at hle
      rw [RaList.totalPkts_takeOver, RaList.bufHead_takeOver, wadd_of_lt (by omega), length_append]
      omega
    · exact hsame (by rw [hrow]; exact mem_cons_of_mem _ (hrem.sublist.subset hl'))

end TotalExact

/-- New nodes are empty. -/
theorem sum_grow {w : RaList → ℕ} {c : Bss.Alloc} (hw : ∀ t a, w (s.newNode cfg c mac t a) = 0) (t : Tid) :
    (((s.grow cfg c mac).tbl t).map w).sum = ((s.tbl t).map w).sum := by
  simp only [Bss.grow, map_append, sum_append]
  cases c.addrs[t.val]? with
  | none => rfl
  | some a => simp [hw]

theorem pool_grow (c : Bss.Alloc) : poolSum queuedSum (s.grow cfg c mac).tbl = poolSum queuedSum s.tbl :=
  Finset.sum_congr rfl fun t _ => sum_grow (fun _ _ => rfl) t

/-- A pushed packet is one more. -/
theorem NodeEdit.pool_pushTail (he : NodeEdit s s' t l (l.pushTail b)) (hroom : poolSum queuedSum s.tbl + 1 < 2 ^ 16) :
    poolSum queuedSum s'.tbl = poolSum queuedSum s.tbl + 1 := by
  have hsum := he.pool RaList.totalPkts
  have hle := Bss.totalPkts_le_pool he.row.mem_old
  simp only [RaList.pushTail] at hsum
  rw [wadd_of_lt (by omega)] at hsum
  unfold queuedSum
  omega

namespace Bss

/-- No address of the allocation is that of a node whose packet is in flight. -/
def FlightSafe (s : Bss) (c : Alloc) : Prop :=
  s.flight.all (fun f => f.ptr ∉ c.addrs) = true
  deriving Decidable

theorem FlightSafe.not_mem {c : Alloc} (h : s.FlightSafe c) : ∀ f, s.flight = some f → f.ptr ∉ c.addrs := by
  intro f hf
  simpa [FlightSafe, hf] using h

/-- The allocations of an operation are safe. -/
def AllocSafe (s : Bss) : Op → Prop
  | .add _ e => s.FlightSafe e.alloc
  | .ralistAdd _ c => s.FlightSafe c
  | .restore _ _ cs => ∀ c ∈ cs, s.FlightSafe c
  | _ => True

instance (s : Bss) (op : Op) : Decidable (s.AllocSafe op) := by
  unfold Bss.AllocSafe
  split <;> infer_instance

end Bss

namespace TotalExact

variable (h : TotalExact s)

include h

theorem restoreLoop (hd : Distinct s) {complete : Bool} {bs : List Buf} {cs : List Bss.Alloc}
    (hcs : ∀ c ∈ cs, s.FlightSafe c) (hroom : poolSum queuedSum s.tbl + bs.length < 2 ^ 16)
    (hs : Bss.restoreLoop cfg mac complete bs cs s = some s') :
    TotalExact s' ∧ poolSum queuedSum s'.tbl < 2 ^ 16 := by
  have hloop := Bss.restoreLoop_invariant (A := fun c => s.FlightSafe c)
    (I := fun bs u => Distinct u ∧ TotalExact u ∧ poolSum queuedSum u.tbl + bs.length < 2 ^ 16 ∧ u.flight = s.flight)
    (fun {b bs v u r} hi hto => ?_) hcs ⟨hd, h, hroom, rfl⟩ hs
  · exact ⟨hloop.2.1, by simpa using hloop.2.2.1⟩
  obtain ⟨hdv, hv, hrv, hfv⟩ := hi
  obtain ⟨hdu, hu, hru, hfu⟩ : Distinct u ∧ TotalExact u ∧ poolSum queuedSum u.tbl = poolSum queuedSum v.tbl ∧
      u.flight = s.flight := by
    rcases hto.1 with rfl | ⟨c, hc, -, -, hfresh, rfl⟩
    · exact ⟨hdv, hv, rfl, hfv⟩
    · exact ⟨hdv.grow hfresh, hv.grow (hfv ▸ hc.not_mem), pool_grow c, hfv⟩
  rw [length_cons] at hrv
  rcases u.restoreBuf_cases b (v.downgradeTid b.priority) r with heq | ⟨l, -, -, he⟩
  · rw [heq]
    exact ⟨hdu, hu, by omega, hfu⟩
  · have hflight : (u.restoreBuf b (v.downgradeTid b.priority) r).flight = u.flight := by
      unfold Bss.restoreBuf
      split <;> rfl
    refine ⟨hdu.restoreBuf, hu.pushTail hdu he hflight (by omega), ?_, hflight.trans hfu⟩
    rw [he.pool_pushTail (by omega)]
    omega

/-- The loop of `wlan_restore_tdls_packets` as it is called. -/
theorem restored (hd : Distinct s) {complete : Bool} {cs : List Bss.Alloc} {u : Bss}
    (hroom : s.load + 1 < 2 ^ 16) (hsafe : s.AllocSafe (.restore mac complete cs))
    (hu : Bss.restoreLoop cfg mac complete (s.tdlsPendingTxq.filter fun b => b.ra = mac) cs
      { s with tdlsPendingTxq := s.tdlsPendingTxq.filter fun b => ¬b.ra = mac } = some u) :
    TotalExact u ∧ poolSum queuedSum u.tbl < 2 ^ 16 := by
  refine restoreLoop ?_ ?_ ?_ ?_ hu
  · exact h.of_tbl rfl rfl
  · exact hd.of_tbl rfl
  · exact hsafe
  · have := length_filter_le (fun b => decide (b.ra = mac)) s.tdlsPendingTxq
    unfold Bss.load at hroom
    dsimp only
    omega

theorem delTxPkts (hd : Distinct s) (hs : s.delTxPktsInRalist t = some s')
    (hroom : poolSum queuedSum s.tbl < 2 ^ 16) : TotalExact s' ∧ poolSum queuedSum s'.tbl < 2 ^ 16 := by
  obtain ⟨l, hl, hdrop, he, hfl, -⟩ := Bss.delTxPktsInRalist_cases hs
  have hb := RaList.bufHead_ne_nil_of_droppable hdrop
  have hpos := h.pos hl hb
  refine ⟨h.pop hd he (fun t a => Bss.inFlight_of_flight hfl t a) hb hroom, ?_⟩
  have hsum := he.pool RaList.totalPkts
  have hle := Bss.totalPkts_le_pool hl
  rw [RaList.totalPkts_pop, wsub_of_le hpos (by omega)] at hsum
  unfold queuedSum at *
  omega

/-- What every drop keeps holds after the loop. -/
theorem drop_invariant {I : Bss → Prop} (hd : Distinct s) (hroom : poolSum queuedSum s.tbl < 2 ^ 16)
    (hi : I s) (hdel : ∀ {u t u'}, Distinct u → TotalExact u → poolSum queuedSum u.tbl < 2 ^ 16 → I u →
      u.delTxPktsInRalist t = some u' → I u')
    (htid : ∀ {u} d, I u → I { u with dropTid := d }) : TotalExact s.dropTxPkts ∧ I s.dropTxPkts := by
  have hloop := Bss.dropLoop_invariant
    (I := fun u => Distinct u ∧ TotalExact u ∧ poolSum queuedSum u.tbl < 2 ^ 16 ∧ I u) (fun {u t u'} hu hs => by
      obtain ⟨hdu, htu, hru, hiu⟩ := hu
      obtain ⟨htu', hru'⟩ := htu.delTxPkts hdu hs hru
      obtain ⟨l, -, -, he, -⟩ := Bss.delTxPktsInRalist_cases hs
      exact ⟨he.distinct hdu, htu', hru', hdel hdu htu hru hiu hs⟩)
    (fun d hu => ⟨hu.1.of_tbl rfl, hu.2.1.of_tbl rfl rfl, hu.2.2.1, htid d hu.2.2.2⟩) 8 ⟨hd, h, hroom, hi⟩
  exact ⟨hloop.2.1, hloop.2.2.2⟩

theorem enqueueBuf (hd : Distinct s) (hroom : poolSum queuedSum s.tbl + 1 < 2 ^ 16)
    {e : Bss.AddEnv} {r : Option ℕ} : TotalExact (s.enqueueBuf cfg e b t r) := by
  rcases s.enqueueBuf_cases cfg e b t r with heq | ⟨l, -, he, hl, hb⟩
  · rwa [heq]
  · refine h.pushTail hd he ?_ hroom
    simp only [Bss.enqueueBuf, hl, hb, Bool.false_eq_true, if_false]

/-- Every operation keeps the counts of the lists. -/
theorem step (hd : Distinct s) {op : Op} (hroom : s.load + 1 < 2 ^ 16) (hsafe : s.AllocSafe op)
    (hs : s.step cfg op = some s') : TotalExact s' := by
  have hpool := s.pool_le_load
  cases op with
  | add b e =>
    rcases Bss.addBufTxqueue_cases hs with rfl | ⟨u, t, r, -, hu, rfl⟩
    · exact h.of_tbl rfl rfl
    · rcases hu with rfl | ⟨hf, ra, rfl⟩
      · exact h.enqueueBuf hd (by omega)
      · exact (h.grow hsafe.not_mem).enqueueBuf (hd.grow hf) (by rw [pool_grow]; omega)
  | ralistAdd ra c =>
    obtain ⟨-, rfl⟩ := Bss.ralistAdd_eq hs
    exact h.grow (Bss.FlightSafe.not_mem hsafe)
  | dequeue d =>
    obtain ⟨hnone, u, heq, rfl | ⟨t, a, l, hn, -, rfl⟩⟩ := Bss.dequeueTxPacket_cases hd hs
    · obtain ⟨_, _, _, rfl⟩ := heq
      exact h.of_tbl rfl rfl
    · obtain ⟨_, _, _, rfl⟩ := heq
      refine sendStart ?_ (hd.of_tbl rfl) hnone hn (show poolSum queuedSum s.tbl < 2 ^ 16 by omega)
      exact h.of_tbl rfl rfl
  | aggregate =>
    obtain ⟨f, hf, hp, rfl | ⟨l, hn, hb, rfl⟩⟩ := Bss.aggregatePkt_cases hs
    · intro t l hl
      have ht := h t l hl
      rw [Bss.inFlight_of_some hf, hp] at ht
      rw [Bss.inFlight_of_none rfl]
      simpa using ht
    · exact h.pop hd (Bss.popBuf_edit hn) (fun _ _ => rfl) hb (by omega)
  | done resource => exact h.sendDone hd hs (by omega)
  | txPause mac p =>
    obtain rfl := some.inj hs
    refine h.of_rows rfl fun t l' hl' => ?_
    obtain ⟨l, hl, rfl | ⟨-, rfl⟩⟩ := mem_replaceFirst hl'
    · exact ⟨l', hl, rfl, fun _ hk => hk⟩
    · exact ⟨l, hl, rfl, fun _ hk => hk⟩
  | nonTdlsPause mac p =>
    obtain rfl := some.inj hs
    refine h.of_rows rfl fun t l' hl' => ?_
    obtain ⟨l, hl, rfl⟩ := mem_map.mp hl'
    split_ifs
    · exact ⟨l, hl, rfl, fun _ hk => hk⟩
    · exact ⟨l, hl, rfl, fun _ hk => hk⟩
  | ralistUpdate old new =>
    obtain rfl := some.inj hs
    refine h.of_rows rfl fun t l' hl' => ?_
    obtain ⟨l, hl, rfl | ⟨-, rfl⟩⟩ := mem_replaceFirst hl'
    · exact ⟨l', hl, rfl, fun _ hk => hk⟩
    · exact ⟨l, hl, rfl, fun _ hk => hk⟩
  | drop =>
    obtain rfl := some.inj hs
    exact (h.drop_invariant (I := fun _ => True) hd (by omega) trivial (fun _ _ _ _ _ => trivial) fun _ _ => trivial).1
  | deletePeer mac =>
    obtain rfl := some.inj hs
    exact h.of_rows rfl fun t l' hl' => ⟨l', mem_of_mem_eraseP hl', rfl, fun _ hk => hk⟩
  | hold mac =>
    obtain rfl := some.inj hs
    exact h.hold (by omega)
  | restore mac complete cs =>
    obtain ⟨u, hu, hend⟩ := Bss.restoreTdlsPackets_cases hs
    have hloop := h.restored hd hroom hsafe hu
    rcases hend with ⟨-, rfl⟩ | ⟨-, hdel⟩
    · exact hloop.1
    · exact hloop.1.deleteTdls hdel hloop.2
  | priorities ie =>
    obtain rfl := some.inj hs
    cases ie <;> exact h.of_tbl rfl rfl
  | downgrade vals =>
    obtain rfl := some.inj hs
    exact h.of_tbl rfl rfl

end TotalExact

end WlanDriver.Wmm
