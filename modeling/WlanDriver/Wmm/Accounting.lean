import WlanDriver.Wmm.Totals

/-!
# Accounting of the WMM queues

Four counters repeat what the RA lists hold : `total_pkts` of each list, `pkts_queued` and `pkts_paused` of each
TID, and `tx_pkts_queued` of the BSS, which leaves the paused lists out. `Accounted` says that all of them are
right, with a processed packet in flight still in its list's count.

An operation on a list moves packets in or out of its count, and changes the other counters by the same
amount if it looks at `tx_pause`. Some do not : `Bss.Separates` is the condition under which this makes no
difference, and `queues_accounted` says that the counters are right in every run whose operations meet it.
-/

namespace WlanDriver.Wmm

open Ethernet List Function RaList
open Option hiding all_eq_true

variable {cfg : Config} {s s' : Bss} {t : Tid} {a : ℕ} {l x y : RaList} {b : Buf} {mac : Mac}

/-! ## The counters of the BSS -/

/-- The counters of the TIDs and of the BSS are sums over the lists. -/
structure Counted (s : Bss) : Prop where
  queued : ∀ t, s.pktsQueued t = queuedSum (s.tbl t)
  paused : ∀ t, s.pktsPaused t = pausedSum (s.tbl t)
  tx : s.txPktsQueued = poolSum openSum s.tbl

namespace Counted

variable (h : Counted s)

include h

theorem of_eq (htbl : s'.tbl = s.tbl) (hq : s'.pktsQueued = s.pktsQueued)
    (hp : s'.pktsPaused = s.pktsPaused) (htx : s'.txPktsQueued = s.txPktsQueued) : Counted s' :=
  ⟨fun t => by rw [hq, htbl]; exact h.queued t, fun t => by rw [hp, htbl]; exact h.paused t,
    by rw [htx, htbl]; exact h.tx⟩

/-- An edit of a node moves each counter by what the node's share of it moves. -/
theorem edit (he : NodeEdit s s' t x y)
    (hq : ∀ u, u ≠ t → s'.pktsQueued u = s.pktsQueued u)
    (hqt : s'.pktsQueued t + x.totalPkts = s.pktsQueued t + y.totalPkts)
    (hp : ∀ u, u ≠ t → s'.pktsPaused u = s.pktsPaused u)
    (hpt : s'.pktsPaused t + x.pausedPkts = s.pktsPaused t + y.pausedPkts)
    (htx : s'.txPktsQueued + x.openPkts = s.txPktsQueued + y.openPkts) : Counted s' := by
  refine ⟨fun u => ?_, fun u => ?_, ?_⟩
  · by_cases hu : u = t
    · subst hu
      have hrow := he.row.sum totalPkts
      have := h.queued u
      unfold queuedSum at *
      omega
    · rw [hq u hu, he.other u hu]
      exact h.queued u
  · by_cases hu : u = t
    · subst hu
      have hrow := he.row.sum pausedPkts
      have := h.paused u
      unfold pausedSum at *
      omega
    · rw [hp u hu, he.other u hu]
      exact h.paused u
  · have hpool := he.pool openPkts
    have := h.tx
    unfold openSum at *
    omega

theorem queued_le (t : Tid) : s.pktsQueued t ≤ poolSum queuedSum s.tbl :=
  h.queued t ▸ s.queuedSum_le_pool t

theorem paused_le (t : Tid) : s.pktsPaused t ≤ poolSum queuedSum s.tbl := by
  have := s.queuedSum_le_pool t
  have := openSum_add_pausedSum (s.tbl t)
  rw [h.paused]
  omega

theorem tx_le : s.txPktsQueued ≤ poolSum queuedSum s.tbl :=
  h.tx ▸ s.openPool_le_pool

/-- The list's packets are in the counters. -/
theorem le_of_mem (hl : l ∈ s.tbl t) :
    l.totalPkts ≤ s.pktsQueued t ∧ l.pausedPkts ≤ s.pktsPaused t ∧ l.openPkts ≤ s.txPktsQueued := by
  rw [h.queued, h.paused, h.tx]
  exact ⟨le_sum_map _ hl, le_sum_map _ hl, (le_sum_map _ hl).trans (le_poolSum openSum s.tbl t)⟩

/-- The packets of a list that is not paused change, and with them the counts of its priority and of the pool. -/
theorem edit_open (he : NodeEdit s s' t x y) {n : ℕ} (hx : x.txPause = false)
    (hy : y.txPause = x.txPause) (hn : n + x.totalPkts = s.pktsQueued t + y.totalPkts)
    (hq : s'.pktsQueued = update s.pktsQueued t n) (hp : s'.pktsPaused = s.pktsPaused)
    (htx : s'.txPktsQueued + x.totalPkts = s.txPktsQueued + y.totalPkts) : Counted s' := by
  refine h.edit he (fun u hu => by rw [hq, update_of_ne hu]) ?_ (fun u _ => by rw [hp]) ?_ ?_
  · rw [hq, update_self, hn]
  · simp [hp, pausedPkts, hy, hx]
  · simpa [openPkts, hy, hx] using htx

/-- One packet leaves a list that is not paused. -/
theorem pop_open (he : NodeEdit s s' t x y) (hpos : 0 < x.totalPkts) (hx : x.txPause = false)
    (hroom : poolSum queuedSum s.tbl < 2 ^ 16) (hy : y.txPause = x.txPause) (hyt : y.totalPkts = wsub 16 x.totalPkts 1)
    (hq : s'.pktsQueued = update s.pktsQueued t (wsub 32 (s.pktsQueued t) 1))
    (hp : s'.pktsPaused = s.pktsPaused) (htx : s'.txPktsQueued = wsub 32 s.txPktsQueued 1) : Counted s' := by
  have hl := he.row.mem_old
  obtain ⟨hle, -, hleo⟩ := h.le_of_mem hl
  have hqle := h.queued_le t
  have htxle := h.tx_le
  have hxo : x.openPkts = x.totalPkts := by simp [openPkts, hx]
  have hxt := Bss.totalPkts_le_pool hl
  rw [wsub_of_le hpos (by omega)] at hyt
  refine h.edit_open he hx hy ?_ hq hp ?_
  · rw [wsub_of_le (by omega) (by omega)]
    omega
  · rw [htx, wsub_of_le (by omega) (by omega)]
    omega

/-- One packet comes to a list that is not paused. -/
theorem push_open (he : NodeEdit s s' t x y) (hx : x.txPause = false)
    (hroom : poolSum queuedSum s.tbl + 1 < 2 ^ 16) (hy : y.txPause = x.txPause)
    (hyt : y.totalPkts = wadd 16 x.totalPkts 1)
    (hq : s'.pktsQueued = update s.pktsQueued t (wadd 32 (s.pktsQueued t) 1))
    (hp : s'.pktsPaused = s.pktsPaused) (htx : s'.txPktsQueued = wadd 32 s.txPktsQueued 1) : Counted s' := by
  have hqle := h.queued_le t
  have htxle := h.tx_le
  have hxt := Bss.totalPkts_le_pool he.row.mem_old
  rw [wadd_of_lt (by omega)] at hyt
  refine h.edit_open he hx hy ?_ hq hp ?_
  · rw [wadd_of_lt (by omega)]
    omega
  · rw [htx, wadd_of_lt (by omega)]
    omega

/-- Rows with the old sums. -/
theorem of_sums (hq : ∀ t, queuedSum (s'.tbl t) = queuedSum (s.tbl t))
    (hp : ∀ t, pausedSum (s'.tbl t) = pausedSum (s.tbl t)) (hcq : s'.pktsQueued = s.pktsQueued)
    (hcp : s'.pktsPaused = s.pktsPaused) (hctx : s'.txPktsQueued = s.txPktsQueued) : Counted s' := by
  refine ⟨fun t => ?_, fun t => ?_, ?_⟩
  · rw [hcq, hq, h.queued]
  · rw [hcp, hp, h.paused]
  · rw [hctx, h.tx]
    refine Finset.sum_congr rfl fun t _ => ?_
    have := openSum_add_pausedSum (s.tbl t)
    have := openSum_add_pausedSum (s'.tbl t)
    have := hq t
    have := hp t
    omega

/-- `m t` packets of row `t` are paused, or go on. -/
theorem pauses {m : Tid → ℕ} (p : Bool) (hroom : poolSum queuedSum s.tbl < 2 ^ 16)
    (hq : ∀ t, queuedSum (s'.tbl t) = queuedSum (s.tbl t))
    (hp : ∀ t, if p then pausedSum (s'.tbl t) = pausedSum (s.tbl t) + m t
      else pausedSum (s'.tbl t) + m t = pausedSum (s.tbl t))
    (hcq : s'.pktsQueued = s.pktsQueued)
    (hcp : s'.pktsPaused = fun t => (if p then wadd else wsub) 32 (s.pktsPaused t) (m t))
    (hctx : s'.txPktsQueued =
      if ∑ t, m t ≠ 0 then (if p then wsub else wadd) 32 s.txPktsQueued (∑ t, m t) else s.txPktsQueued) :
    Counted s' := by
  have hsplit : ∀ t, openSum (s.tbl t) + pausedSum (s.tbl t) = queuedSum (s.tbl t) ∧
      openSum (s'.tbl t) + pausedSum (s'.tbl t) = queuedSum (s'.tbl t) ∧ queuedSum (s.tbl t) < 2 ^ 16 :=
    fun t => ⟨openSum_add_pausedSum _, openSum_add_pausedSum _, lt_of_le_of_lt (s.queuedSum_le_pool t) hroom⟩
  have htxle := h.tx_le
  cases p with
  | true =>
    simp only [if_true] at hp hcp hctx
    have hopen : poolSum openSum s'.tbl + ∑ t, m t = poolSum openSum s.tbl := poolSum_add fun t => by
      have := hsplit t
      have := hq t
      have := hp t
      omega
    refine ⟨fun t => by rw [hcq, hq, h.queued], fun t => ?_, ?_⟩
    · have := hsplit t
      have := hq t
      have := hp t
      rw [hcp, hp, ← h.paused]
      refine wadd_of_lt ?_
      rw [h.paused]
      omega
    · rw [hctx]
      split_ifs with hzero
      · rw [wsub_of_le (by rw [h.tx]; omega) (by omega), h.tx]
        omega
      · rw [h.tx]
        omega
  | false =>
    simp only [Bool.false_eq_true, if_false] at hp hcp hctx
    have hopen : poolSum openSum s.tbl + ∑ t, m t = poolSum openSum s'.tbl := poolSum_add fun t => by
      have := hsplit t
      have := hq t
      have := hp t
      omega
    have hpool : poolSum openSum s'.tbl ≤ poolSum queuedSum s.tbl := by
      refine Finset.sum_le_sum fun t _ => ?_
      have := hsplit t
      have := hq t
      omega
    refine ⟨fun t => by rw [hcq, hq, h.queued], fun t => ?_, ?_⟩
    · have := hsplit t
      have := hp t
      rw [hcp]
      dsimp only
      rw [h.paused, wsub_of_le (by omega) (by omega)]
      omega
    · rw [hctx]
      split_ifs with hzero
      · rw [wadd_of_lt (by rw [h.tx]; omega), h.tx]
        omega
      · rw [h.tx]
        omega

/-- `q t` packets leave row `t`, `p t` of them from paused lists. -/
theorem leaves {q p m : Tid → ℕ} (hroom : poolSum queuedSum s.tbl < 2 ^ 16)
    (hqm : ∀ t, q t = p t + m t) (hq : ∀ t, queuedSum (s'.tbl t) + q t = queuedSum (s.tbl t))
    (hp : ∀ t, pausedSum (s'.tbl t) + p t = pausedSum (s.tbl t))
    (hcq : s'.pktsQueued = fun t => wsub 32 (s.pktsQueued t) (q t))
    (hcp : ∀ t, s'.pktsPaused t = wsub 32 (s.pktsPaused t) (p t) ∨ p t = 0 ∧ s'.pktsPaused t = s.pktsPaused t)
    (hctx : s'.txPktsQueued = wsub 32 s.txPktsQueued (∑ t, m t) ∨ ∑ t, m t = 0 ∧ s'.txPktsQueued = s.txPktsQueued) :
    Counted s' := by
  have htxle := h.tx_le
  have hopen : poolSum openSum s'.tbl + ∑ t, m t = poolSum openSum s.tbl := poolSum_add fun t => by
    have := openSum_add_pausedSum (s.tbl t)
    have := openSum_add_pausedSum (s'.tbl t)
    have := hq t
    have := hp t
    have := hqm t
    omega
  refine ⟨fun t => ?_, fun t => ?_, ?_⟩
  · have := h.queued_le t
    have := h.queued t
    have := hq t
    rw [hcq]
    dsimp only
    rw [wsub_of_le (by omega) (by omega)]
    omega
  · have := h.paused_le t
    have := h.paused t
    have := hp t
    rcases hcp t with hcp | ⟨hzero, hcp⟩
    · rw [hcp, wsub_of_le (by omega) (by omega)]
      omega
    · omega
  · have := h.tx
    rcases hctx with hctx | ⟨hzero, hctx⟩
    · rw [hctx, wsub_of_le (by omega) (by omega)]
      omega
    · rw [hctx]
      omega

end Counted

/-! ## Sums of the changed rows -/

theorem RaList.pausedPkts_setPause (p : Bool) (l : RaList) :
    if p then (l.setPause p).pausedPkts = l.pausedPkts + l.flipPkts p
    else (l.setPause p).pausedPkts + l.flipPkts p = l.pausedPkts := by
  cases p <;> cases hl : l.txPause <;> simp [pausedPkts, flipPkts, setPause, hl]

theorem pauseRow_sums (mac : Mac) (p : Bool) (row : List RaList) :
    queuedSum (Bss.pauseRow mac p row) = queuedSum row ∧
      let m := ((row.find? fun l => l.ra = mac).map (flipPkts p)).getD 0
      if p then pausedSum (Bss.pauseRow mac p row) = pausedSum row + m
      else pausedSum (Bss.pauseRow mac p row) + m = pausedSum row := by
  unfold Bss.pauseRow
  cases hx : row.find? fun l => l.ra = mac with
  | none =>
    rw [replaceFirst_of_none hx]
    simp
  | some x =>
    have hrep := replaceFirst_of_find (f := setPause p) hx
    have hq : _ + x.totalPkts = _ + x.totalPkts := hrep.sum totalPkts
    have hp := hrep.sum pausedPkts
    have hflip := x.pausedPkts_setPause p
    simp only [queuedSum, pausedSum, map_some, getD_some]
    refine ⟨by omega, ?_⟩
    cases p with
    | true =>
      simp only [if_true] at hflip ⊢
      omega
    | false =>
      simp only [Bool.false_eq_true, if_false] at hflip ⊢
      omega

theorem nonTdlsRow_sums (mac : Mac) (p : Bool) (row : List RaList) :
    queuedSum (Bss.nonTdlsRow mac p row) = queuedSum row ∧
      let m := (row.map fun l => if l.ra ≠ mac then l.flipPkts p else 0).sum
      if p then pausedSum (Bss.nonTdlsRow mac p row) = pausedSum row + m
      else pausedSum (Bss.nonTdlsRow mac p row) + m = pausedSum row := by
  induction row with
  | nil => cases p <;> exact ⟨rfl, rfl⟩
  | cons l row ih =>
    obtain ⟨ihq, ihp⟩ := ih
    have hflip := l.pausedPkts_setPause p
    simp only [queuedSum, pausedSum, Bss.nonTdlsRow, map_cons, sum_cons] at ihq ihp ⊢
    by_cases hra : l.ra ≠ mac
    · simp only [if_pos hra]
      refine ⟨by rw [ihq]; rfl, ?_⟩
      cases p with
      | true =>
        simp only [if_true] at hflip ihp ⊢
        omega
      | false =>
        simp only [Bool.false_eq_true, if_false] at hflip ihp ⊢
        omega
    · simp only [if_neg hra]
      refine ⟨by rw [ihq], ?_⟩
      cases p with
      | true =>
        simp only [if_true] at ihp ⊢
        omega
      | false =>
        simp only [Bool.false_eq_true, if_false] at ihp ⊢
        omega

theorem eraseP_sums (mac : Mac) (row : List RaList) (w : RaList → ℕ) :
    ((row.eraseP fun l => l.ra = mac).map w).sum + ((row.find? fun l => l.ra = mac).map w).getD 0 =
      (row.map w).sum := by
  cases hx : row.find? fun l => l.ra = mac with
  | none =>
    rw [eraseP_of_none hx]
    rfl
  | some x => exact (eraseP_of_find hx).sum w

theorem RaList.length_tdlsPackets_le (mac : Mac) (l : RaList) : (l.tdlsPackets mac).length ≤ l.bufHead.length :=
  length_filter_le _ _

/-- The packets to `mac` leave the first list, which is not paused if there are any. -/
theorem holdRow_sums {row : List RaList} (hsum : queuedSum row < 2 ^ 16)
    (htotal : ∀ l ∈ row, l.bufHead.length ≤ l.totalPkts)
    (hopen : ∀ l, row.head? = some l → l.txPause = false ∨ l.tdlsPackets mac = []) :
    queuedSum (Bss.holdRow mac row) + ((row.head?.map fun l => l.tdlsPackets mac).getD []).length = queuedSum row ∧
      pausedSum (Bss.holdRow mac row) = pausedSum row := by
  cases row with
  | nil => exact ⟨rfl, rfl⟩
  | cons l rest =>
    have hle := l.length_tdlsPackets_le mac
    have hlt := htotal l mem_cons_self
    simp only [queuedSum, map_cons, sum_cons] at hsum
    have hheld : (l.holdTdls mac).totalPkts = l.totalPkts - (l.tdlsPackets mac).length := by
      rw [totalPkts_holdTdls, wsub_of_le (by omega) (by omega)]
    simp only [Bss.holdRow, queuedSum, pausedSum, map_cons, sum_cons, head?_cons, map_some,
      getD_some, hheld]
    refine ⟨by omega, ?_⟩
    rcases hopen l rfl with hl | hl
    · simp [pausedPkts, hl]
    · rw [hl, length_nil, Nat.sub_zero] at hheld
      simp only [pausedPkts, txPause_holdTdls, hheld]

/-- The packets of the peer's list go to a list on the same side. -/
theorem deleteTdlsRow_sums {row : List RaList} (hsum : queuedSum row < 2 ^ 16)
    (hx : ∀ x, row.find? (fun l => l.ra = mac) = some x → x.totalPkts = x.bufHead.length ∧
      (x.bufHead = [] ∨ ∀ ap, row.head? = some ap → ap.txPause = x.txPause))
    (hfirst : ∀ ap rest, row = ap :: rest → ap.ra = mac → ap.bufHead = []) :
    queuedSum (Bss.deleteTdlsRow mac row) = queuedSum row ∧ pausedSum (Bss.deleteTdlsRow mac row) = pausedSum row := by
  rcases Bss.deleteTdlsRow_cases mac row with
    ⟨heq, -⟩ | ⟨ap, rest, rfl, ⟨hra, heq⟩ | ⟨x, rest', hra, hfind, hrem, -, heq⟩⟩
  · rw [heq]
    exact ⟨rfl, rfl⟩
  · -- the first list is the peer's, and empty
    obtain ⟨htotal, -⟩ := hx ap (by rw [find?_cons_of_pos (by simpa using hra)])
    rw [hfirst ap rest rfl hra, length_nil] at htotal
    rw [heq]
    simp [queuedSum, pausedSum, pausedPkts, htotal]
  · obtain ⟨htotal, hside⟩ := hx x (by rw [find?_cons_of_neg (by simpa using hra), hfind])
    have hq := hrem.sum totalPkts
    have hp := hrem.sum pausedPkts
    simp only [queuedSum, map_cons, sum_cons] at hsum
    have htake : (ap.takeOver x).totalPkts = ap.totalPkts + x.totalPkts := by
      rw [totalPkts_takeOver, wadd_of_lt (by omega), htotal]
    rw [heq]
    simp only [queuedSum, pausedSum, map_cons, sum_cons, htake]
    refine ⟨by omega, ?_⟩
    rcases hside with hempty | hside
    · rw [hempty, length_nil] at htotal
      have htp : (ap.takeOver x).pausedPkts = ap.pausedPkts := by
        simp only [pausedPkts, txPause_takeOver, htake, htotal, Nat.add_zero]
      have hxp : x.pausedPkts = 0 := by simp [pausedPkts, htotal]
      omega
    · have hpause := hside ap rfl
      have htp : (ap.takeOver x).pausedPkts = ap.pausedPkts + x.pausedPkts := by
        simp only [pausedPkts, txPause_takeOver, htake, hpause]
        split_ifs <;> rfl
      omega

/-! ## Operations that keep to one side -/

namespace Bss

/-- No paused list is on a pending list or selected. -/
def NoPausedLink (s : Bss) : Prop :=
  ∀ t, ∀ l ∈ s.tbl t, l.txPause = true → ¬s.Linked l.addr ∧ s.selectedRaList ≠ some l.addr
  deriving Decidable

/-- `tx_pause` of the list that restored packets of TID `t` go to. -/
def restorePause (s : Bss) (mac : Mac) (complete : Bool) (t : Tid) : Option Bool :=
  (if complete then s.getRalistNode t mac else (s.tbl t).head?).map txPause

/-- The operations that count packets out of, or into, `tx_pkts_queued` without a look at `tx_pause` do it to lists that
are not paused, and those that change `tx_pause` or the lists without the counters do it where nothing is counted. -/
def Separates (cfg : Config) (s : Bss) : Op → Prop
  | .dequeue d => d = .highest ∨ s.NoPausedLink
  | .aggregate => s.flight.all (fun f => (s.node f.tid f.ptr).all fun l => !l.txPause) = true
  | .done resource =>
    s.flight.all (fun f =>
      if f.processed then resource || (s.node f.tid f.ptr).any fun l => !l.txPause
      else !resource || (s.node f.tid f.ptr).all fun l => !l.txPause) = true
  | .ralistUpdate old _ => ∀ t, (s.getRalistNode t old).all (fun l => !l.txPause || l.totalPkts = 0) = true
  | .hold mac => ∀ t, (s.tbl t).head?.all (fun l => !l.txPause || l.tdlsPackets mac = []) = true
  | .restore mac complete cs =>
    (∀ c ∈ cs, (cfg.raBased && c.txPause) = false) ∧
      (∀ b ∈ s.tdlsPendingTxq, b.ra = mac → s.restorePause mac complete (s.downgradeTid b.priority) ≠ some true) ∧
      (complete = false → ∀ t, (s.getRalistNode t mac).all (fun x => s.inFlight t x.addr = 0 &&
        (x.bufHead = [] || (s.tbl t).head?.all fun ap => ap.txPause = x.txPause)) = true)
  | _ => True

instance (cfg : Config) (s : Bss) (op : Op) : Decidable (s.Separates cfg op) := by
  induction op using Op.casesOn <;> dsimp only [Bss.Separates] <;> infer_instance

end Bss

namespace Counted

theorem grow (h : Counted s) (c : Bss.Alloc) : Counted (s.grow cfg c mac) :=
  h.of_sums (fun t => sum_grow (fun _ _ => rfl) t)
    (fun t => sum_grow (fun _ _ => by simp [pausedPkts, Bss.newNode]) t) rfl rfl rfl

theorem enqueueBuf (h : Counted s) (hroom : poolSum queuedSum s.tbl + 1 < 2 ^ 16) (e : Bss.AddEnv) (r : Option ℕ) :
    Counted (s.enqueueBuf cfg e b t r) := by
  rcases s.enqueueBuf_cases cfg e b t r with heq | ⟨l, -, he, hl, hb⟩
  · rwa [heq]
  · have heq : (s.enqueueBuf cfg e b t r).pktsQueued = update s.pktsQueued t (wadd 32 (s.pktsQueued t) 1) ∧
        (s.enqueueBuf cfg e b t r).pktsPaused = (if l.txPause then
          update s.pktsPaused t (wadd 32 (s.pktsPaused t) 1) else s.pktsPaused) ∧
        (s.enqueueBuf cfg e b t r).txPktsQueued = if l.txPause then s.txPktsQueued else wadd 32 s.txPktsQueued 1 := by
      simp only [Bss.enqueueBuf, hl, hb, Bool.false_eq_true, if_false, and_self]
    obtain ⟨hq, hp, htx⟩ := heq
    cases hpause : l.txPause with
    | false =>
      simp only [hpause, Bool.false_eq_true, if_false] at hp htx
      exact h.push_open he hpause hroom rfl rfl hq hp htx
    | true =>
      simp only [hpause, if_true] at hp htx
      have hqle := h.queued_le t
      have hple := h.paused_le t
      have hlt := Bss.totalPkts_le_pool he.row.mem_old
      have htotal : (l.pushTail b).totalPkts = l.totalPkts + 1 := wadd_of_lt (by omega)
      refine h.edit he (fun u hu => by rw [hq, update_of_ne hu]) ?_
        (fun u hu => by rw [hp, update_of_ne hu]) ?_ ?_
      · rw [hq, update_self, wadd_of_lt (by omega), htotal]
        omega
      · have hlp : l.pausedPkts = l.totalPkts := by simp [pausedPkts, hpause]
        have hyp : (l.pushTail b).pausedPkts = (l.pushTail b).totalPkts := if_pos hpause
        rw [hp, update_self, wadd_of_lt (by omega), hlp, hyp, htotal]
        omega
      · have hlo : l.openPkts = 0 := by simp [openPkts, hpause]
        have hyo : (l.pushTail b).openPkts = 0 := if_pos hpause
        rw [htx, hlo, hyo]

theorem popBuf (h : Counted s) (htotal : TotalExact s) (hn : s.node t a = some l) (hb : l.bufHead ≠ [])
    (hpause : l.txPause = false) (hroom : poolSum queuedSum s.tbl < 2 ^ 16) : Counted (s.popBuf t a) :=
  h.pop_open (Bss.popBuf_edit hn) (htotal.pos (Bss.mem_of_node hn) hb) hpause hroom (txPause_pop l)
    (totalPkts_pop l) rfl rfl rfl

theorem sendStart (h : Counted s) (htotal : TotalExact s) (hn : s.node t a = some l) (hpause : l.txPause = false)
    (hroom : poolSum queuedSum s.tbl < 2 ^ 16) : Counted (s.sendStart t a) := by
  rcases Bss.sendStart_cases hn with ⟨-, heq⟩ | ⟨b, rest, hb, ⟨-, heq⟩ | ⟨-, heq⟩⟩
  · rwa [heq]
  · rw [heq]
    exact h.edit (y := l.takeOut) (.of_editNode hn rfl rfl) (fun _ _ => rfl) rfl (fun _ _ => rfl) rfl rfl
  · rw [heq]
    exact (h.popBuf htotal hn (by simp [hb]) hpause hroom).of_eq rfl rfl rfl rfl

theorem sendDone (h : Counted s) (htotal : TotalExact s) {resource : Bool} (hsep : s.Separates cfg (.done resource))
    (hs : s.sendDone resource = some s') (hroom : poolSum queuedSum s.tbl + 1 < 2 ^ 16) : Counted s' := by
  obtain ⟨f, hf, hcase⟩ := Bss.sendDone_cases hs
  simp only [Bss.Separates, hf, all_some] at hsep
  cases hcase with
  | gone => exact h.of_eq rfl rfl rfl rfl
  | putBack hn =>
    exact h.edit (.of_editNode (f := putBack f.buf) hn rfl rfl) (fun _ _ => rfl) rfl (fun _ _ => rfl) rfl rfl
  | @requeued l hn hp =>
    have hpause : l.txPause = false := by simpa [hp, hn] using hsep
    exact h.push_open (.of_editNode (f := pushHead f.buf) hn rfl rfl) hpause hroom rfl rfl rfl rfl rfl
  | @counted l hn hp =>
    have hpause : l.txPause = false := by simpa [hp, hn] using hsep
    have haddr := Bss.node_addr hn
    have hl := htotal f.tid l (Bss.mem_of_node hn)
    rw [Bss.inFlight_of_some hf, if_pos ⟨hp, rfl, haddr.symm⟩] at hl
    refine h.pop_open (.of_editNode (f := countOut) hn (addr_countOut l) ?_) (by omega) hpause (by omega)
      (txPause_countOut l) (totalPkts_countOut l) ?_ ?_ ?_ <;> rfl
  | miscounted hn hp => simp [hp, hn] at hsep
  | sent => exact h.of_eq rfl rfl rfl rfl

end Counted

/-! ## Restored packets -/

namespace Bss

theorem downgradeTid_congr (h : s'.acDownGradedVals = s.acDownGradedVals) (n : ℕ) :
    s'.downgradeTid n = s.downgradeTid n := by
  unfold downgradeTid
  rw [h]

theorem restorePause_restoreBuf (mac : Mac) (complete : Bool) (b : Buf) (t u : Tid) (r : Option ℕ) :
    (s.restoreBuf b t r).restorePause mac complete u = s.restorePause mac complete u := by
  cases hl : r.bind (s.node t) with
  | none =>
    have heq : s.restoreBuf b t r = s := by simp only [restoreBuf, hl]
    rw [heq]
  | some l =>
    have htbl : (s.restoreBuf b t r).tbl = s.editNode t l.addr (pushTail b) := by simp only [restoreBuf, hl]
    unfold restorePause getRalistNode
    rw [htbl]
    by_cases hu : u = t
    · subst hu
      unfold editNode
      rw [update_self]
      cases complete with
      | true =>
        simp only [if_true]
        exact map_find?_replaceFirst (f := pushTail b) (fun _ => rfl) (fun _ => rfl) _
      | false =>
        simp only [Bool.false_eq_true, if_false]
        exact map_head?_replaceFirst (f := pushTail b) (fun _ => rfl) _
    · rw [editNode_of_ne hu]

/-- New nodes of a BSS with TDLS links are not paused. -/
theorem restorePause_grow {c : Alloc} (hc : (cfg.raBased && c.txPause) = false) {u : Tid}
    (h : s.restorePause mac true u ≠ some true) : (s.grow cfg c mac).restorePause mac true u ≠ some true := by
  unfold restorePause getRalistNode grow at *
  simp only [if_true, find?_append] at h ⊢
  cases hf : (s.tbl u).find? fun l => l.ra = mac with
  | some l => simpa [hf] using h
  | none =>
    cases c.addrs[u.val]? with
    | none => simp
    | some a => simp [newNode, hc]

end Bss

namespace Counted

theorem restoreLoop (h : Counted s) (hd : Distinct s) (htotal : TotalExact s) {complete : Bool} {bs : List Buf}
    {cs : List Bss.Alloc} (hcs : ∀ c ∈ cs, s.FlightSafe c ∧ (cfg.raBased && c.txPause) = false)
    (hroom : poolSum queuedSum s.tbl + bs.length < 2 ^ 16)
    (hpause : ∀ b ∈ bs, s.restorePause mac complete (s.downgradeTid b.priority) ≠ some true)
    (hs : Bss.restoreLoop cfg mac complete bs cs s = some s') : Counted s' := by
  have hloop := Bss.restoreLoop_invariant (A := fun c => s.FlightSafe c ∧ (cfg.raBased && c.txPause) = false)
    (I := fun bs u => (Distinct u ∧ TotalExact u ∧ Counted u ∧ poolSum queuedSum u.tbl + bs.length < 2 ^ 16 ∧
      u.flight = s.flight ∧ u.acDownGradedVals = s.acDownGradedVals) ∧
      ∀ b ∈ bs, u.restorePause mac complete (u.downgradeTid b.priority) ≠ some true)
    (fun {b bs v u r} hi hto => ?_) hcs ⟨⟨hd, htotal, h, hroom, rfl, rfl⟩, hpause⟩ hs
  · exact hloop.1.2.2.1
  obtain ⟨⟨hdv, htv, hcv, hrv, hfv, hav⟩, hpv⟩ := hi
  -- the state with the list that the packet goes to
  obtain ⟨⟨hdu, htu, hcu, hru, hfu, hau⟩, hpu⟩ : (Distinct u ∧ TotalExact u ∧ Counted u ∧
      poolSum queuedSum u.tbl = poolSum queuedSum v.tbl ∧ u.flight = s.flight ∧
      u.acDownGradedVals = s.acDownGradedVals) ∧
      ∀ b' ∈ b :: bs, u.restorePause mac complete (v.downgradeTid b'.priority) ≠ some true := by
    rcases hto.1 with rfl | ⟨c, ⟨hsafe, hnew⟩, hcomplete, -, hfresh, rfl⟩
    · exact ⟨⟨hdv, htv, hcv, rfl, hfv, hav⟩, hpv⟩
    · refine ⟨⟨hdv.grow hfresh, htv.grow (hfv ▸ hsafe.not_mem), hcv.grow c, pool_grow c, hfv, hav⟩, ?_⟩
      intro b' hb'
      subst hcomplete
      exact Bss.restorePause_grow hnew (hpv b' hb')
  obtain ⟨hfr, har, -⟩ := u.restoreBuf_frame b (v.downgradeTid b.priority) r
  rw [length_cons] at hrv
  refine ⟨?_, fun b' hb' => ?_⟩
  · rcases u.restoreBuf_cases b (v.downgradeTid b.priority) r with heq | ⟨l, hl, hn, he⟩
    · rw [heq]
      exact ⟨hdu, htu, hcu, by omega, hfu, hau⟩
    · have hlp : l.txPause = false := by
        have hne := hpu b mem_cons_self
        obtain ⟨a, ha, hna⟩ := bind_eq_some_iff.mp hl
        have hto' := hto.2 a ha
        cases complete with
        | true =>
          obtain ⟨l', hl', had⟩ := hto'
          have heq : l' = l := by
            have := hdu.node_eq (Bss.mem_of_getRalistNode hl')
            rw [had, hna] at this
            exact (some.inj this).symm
          simpa [Bss.restorePause, hl', heq] using hne
        | false =>
          have hvu : v = u := by
            rcases hto.1 with hvu | ⟨c, -, hcomplete, -⟩
            · exact hvu.symm
            · exact absurd hcomplete (by decide)
          subst hvu
          cases hrow : v.tbl (v.downgradeTid b.priority) with
          | nil => simp [Bss.node, hrow] at hna
          | cons ap rest =>
            simp only [Bool.false_eq_true, if_false, Bss.firstNode, hrow, head?_cons, map_some,
              some.injEq] at hto'
            have heq : l = ap := by
              rw [Bss.node, hrow, find?_cons_of_pos (by simpa using hto')] at hna
              exact (some.inj hna).symm
            simpa [Bss.restorePause, hrow, heq] using hne
      refine ⟨hdu.restoreBuf, htu.pushTail hdu he hfr (by omega), ?_, ?_, hfr.trans hfu, har.trans hau⟩
      · refine hcu.push_open he hlp (by omega) rfl rfl ?_ ?_ ?_ <;> simp only [Bss.restoreBuf, hl]
      · rw [he.pool_pushTail (by omega)]
        omega
  · rw [Bss.restorePause_restoreBuf, Bss.downgradeTid_congr (har.trans hau), ← Bss.downgradeTid_congr hav]
    exact hpu b' (mem_cons_of_mem _ hb')

/-- A teardown finds the peer's lists without a processed packet in flight, and empty or with the pause of the first
list, after the packets went to the first lists. -/
theorem sides_of_firstPushed {u : Bss} (htotal : TotalExact u) (hpush : Bss.FirstPushed s u)
    (hflight : u.flight = s.flight)
    (hsep : ∀ t, (s.getRalistNode t mac).all (fun x => s.inFlight t x.addr = 0 &&
      (x.bufHead = [] || (s.tbl t).head?.all fun ap => ap.txPause = x.txPause)) = true)
    (t : Tid) (x : RaList) (hx : (u.tbl t).find? (fun l => l.ra = mac) = some x) :
    x.totalPkts = x.bufHead.length ∧ (x.bufHead = [] ∨ ∀ ap, (u.tbl t).head? = some ap → ap.txPause = x.txPause) := by
  have hsame : ∀ a, u.inFlight t a = s.inFlight t a := Bss.inFlight_of_flight hflight t
  have hxt := htotal t x (mem_of_find?_eq_some hx)
  rw [hsame] at hxt
  have hs := hsep t
  rcases hpush t with ⟨-, hu⟩ | ⟨ap, ap', rest, hrow, hu, hra, had, hpause⟩
  · simp [hu] at hx
  · rw [Bss.getRalistNode, hrow] at hs
    rw [hu] at hx ⊢
    by_cases hap : ap.ra = mac
    · -- the first list itself
      rw [find?_cons_of_pos (by simpa using hap)] at hs
      rw [find?_cons_of_pos (by simpa using hra.trans hap), some.injEq] at hx
      subst hx
      simp only [all_some, Bool.and_eq_true, decide_eq_true_eq] at hs
      rw [had, hs.1] at hxt
      exact ⟨hxt, .inr fun ap hap => by rw [head?_cons, some.injEq] at hap; rw [hap]⟩
    · rw [find?_cons_of_neg (by simpa using hap)] at hs
      rw [find?_cons_of_neg (by simpa using hra ▸ hap)] at hx
      simp only [hx, all_some, head?_cons, Bool.and_eq_true, Bool.or_eq_true, decide_eq_true_eq] at hs
      rw [hs.1] at hxt
      refine ⟨hxt, hs.2.imp_right fun hap ap'' hap'' => ?_⟩
      rw [head?_cons, some.injEq] at hap''
      rw [← hap'', hpause]
      exact hap

/-- The teardown of a link. -/
theorem deleteTdls {u : Bss} (h : Counted u)
    (hsides : ∀ t x, (u.tbl t).find? (fun l => l.ra = mac) = some x → x.totalPkts = x.bufHead.length ∧
      (x.bufHead = [] ∨ ∀ ap, (u.tbl t).head? = some ap → ap.txPause = x.txPause))
    (hs : u.deleteTdlsRalist mac = some s') (hroom : poolSum queuedSum u.tbl < 2 ^ 16) : Counted s' := by
  obtain ⟨hfirst, rfl⟩ := Bss.deleteTdlsRalist_eq hs
  have hrows : ∀ t, queuedSum (Bss.deleteTdlsRow mac (u.tbl t)) = queuedSum (u.tbl t) ∧
      pausedSum (Bss.deleteTdlsRow mac (u.tbl t)) = pausedSum (u.tbl t) :=
    fun t => deleteTdlsRow_sums (lt_of_le_of_lt (u.queuedSum_le_pool t) hroom) (hsides t) (hfirst t)
  exact h.of_sums (fun t => (hrows t).1) (fun t => (hrows t).2) rfl rfl rfl

variable (h : Counted s)

include h

theorem dropTxPkts (hd : Distinct s) (htotal : TotalExact s)
    (hroom : poolSum queuedSum s.tbl < 2 ^ 16) : Counted s.dropTxPkts := by
  refine (htotal.drop_invariant hd hroom h (fun {u t u'} _ htu hru hcu hdel => ?_) fun _ hi => hi.of_eq rfl rfl rfl rfl).2
  obtain ⟨l, hl, hdrop, he, -, hq, hp, htx⟩ := Bss.delTxPktsInRalist_cases hdel
  have hpos := htu.pos hl (bufHead_ne_nil_of_droppable hdrop)
  cases hpause : l.txPause with
  | false =>
    simp only [hpause, Bool.false_eq_true, if_false] at hp htx
    exact hcu.pop_open he hpos hpause hru (txPause_pop l) (totalPkts_pop l) hq hp htx
  | true =>
    simp only [hpause, if_true] at hp htx
    obtain ⟨hqle, hple, -⟩ := hcu.le_of_mem hl
    have hqb := hcu.queued_le t
    have hpb := hcu.paused_le t
    have hlp : l.pausedPkts = l.totalPkts := by simp [pausedPkts, hpause]
    have hpop : l.pop.totalPkts = l.totalPkts - 1 := by rw [totalPkts_pop, wsub_of_le hpos (by omega)]
    refine hcu.edit he (fun v hv => by rw [hq, update_of_ne hv]) ?_
      (fun v hv => by rw [hp, update_of_ne hv]) ?_ ?_
    · rw [hq, update_self, wsub_of_le (by omega) (by omega), hpop]
      omega
    · have hyp : l.pop.pausedPkts = l.pop.totalPkts := by simp [pausedPkts, hpause]
      rw [hp, update_self, wsub_of_le (by omega) (by omega), hyp, hpop]
      omega
    · have hlo : l.openPkts = 0 := by simp [openPkts, hpause]
      have hyo : l.pop.openPkts = 0 := by simp [openPkts, hpause]
      rw [htx, hlo, hyo]

/-- A list that may be served is not paused, and one that the links lead to neither. -/
theorem dequeue (hd : Distinct s) (htotal : TotalExact s) {d : Bss.Sched}
    (hsep : d = .highest ∨ s.NoPausedLink) (hs : s.dequeueTxPacket cfg d = some s')
    (hroom : poolSum queuedSum s.tbl < 2 ^ 16) : Counted s' := by
  obtain ⟨-, u, heq, rfl | ⟨t, a, l, hn, hl, rfl⟩⟩ := Bss.dequeueTxPacket_cases hd hs
  · obtain ⟨_, _, _, rfl⟩ := heq
    exact h.of_eq rfl rfl rfl rfl
  · have hpause : l.txPause = false := by
      rcases hl with helig | ⟨hnot, hlink, -⟩
      · simp only [eligible, Bool.and_eq_true, Bool.not_eq_true'] at helig
        exact helig.1
      · by_contra hpause
        have hno := hsep.resolve_left hnot t l (Bss.mem_of_node hn) (by simpa using hpause)
        rw [Bss.node_addr hn] at hno
        exact hlink.elim hno.1 hno.2
    obtain ⟨_, _, _, rfl⟩ := heq
    refine sendStart ?_ ?_ hn hpause hroom
    · exact h.of_eq rfl rfl rfl rfl
    · exact htotal.of_tbl rfl rfl

/-- A list that loses its pause counts no packets. -/
theorem ralistUpdate {old new : Mac}
    (hsep : ∀ t, (s.getRalistNode t old).all (fun l => !l.txPause || l.totalPkts = 0) = true) :
    Counted (s.ralistUpdate old new) := by
  have hrows : ∀ t, queuedSum (Bss.updateRow old new (s.tbl t)) = queuedSum (s.tbl t) ∧
      pausedSum (Bss.updateRow old new (s.tbl t)) = pausedSum (s.tbl t) := by
    intro t
    have ht := hsep t
    unfold Bss.getRalistNode at ht
    cases hx : (s.tbl t).find? fun l => l.ra = old with
    | none =>
      rw [Bss.updateRow, replaceFirst_of_none hx]
      exact ⟨rfl, rfl⟩
    | some x =>
      have hrep := replaceFirst_of_find (f := rename new) hx
      have hq : _ + x.totalPkts = _ + x.totalPkts := hrep.sum totalPkts
      have hp : _ + x.pausedPkts = _ + 0 := hrep.sum pausedPkts
      have hzero : x.pausedPkts = 0 := by
        rw [hx] at ht
        simp only [all_some, Bool.or_eq_true, Bool.not_eq_true', decide_eq_true_eq] at ht
        rcases ht with ht | ht
        · simp [pausedPkts, ht]
        · simp [pausedPkts, ht]
      unfold queuedSum pausedSum Bss.updateRow
      omega
  exact h.of_sums (fun t => (hrows t).1) (fun t => (hrows t).2) rfl rfl rfl

theorem deletePeer (mac : Mac) (hroom : poolSum queuedSum s.tbl < 2 ^ 16) :
    Counted (s.deletePeerRalist cfg mac) := by
  refine h.leaves (q := fun t => ((s.getRalistNode t mac).map totalPkts).getD 0)
    (p := fun t => ((s.getRalistNode t mac).map pausedPkts).getD 0)
    (m := fun t => ((s.getRalistNode t mac).map openPkts).getD 0) hroom (fun t => ?_)
    (fun t => eraseP_sums mac (s.tbl t) totalPkts) (fun t => eraseP_sums mac (s.tbl t) pausedPkts)
    rfl (fun t => .inl rfl) ?_
  · cases s.getRalistNode t mac with
    | none => rfl
    | some l => simp only [map_some, getD_some, ← l.openPkts_add_pausedPkts, Nat.add_comm]
  · by_cases hzero : ∑ t, ((s.getRalistNode t mac).map openPkts).getD 0 = 0
    · exact .inr ⟨hzero, if_neg (not_not.mpr hzero)⟩
    · exact .inl (if_pos hzero)

theorem hold (htotal : TotalExact s) (mac : Mac) (hroom : poolSum queuedSum s.tbl < 2 ^ 16)
    (hsep : ∀ t, (s.tbl t).head?.all (fun l => !l.txPause || l.tdlsPackets mac = []) = true) :
    Counted (s.holdTdlsPackets mac) := by
  have hrows : ∀ t, queuedSum (Bss.holdRow mac (s.tbl t)) + (s.heldPackets mac t).length = queuedSum (s.tbl t) ∧
      pausedSum (Bss.holdRow mac (s.tbl t)) = pausedSum (s.tbl t) := by
    intro t
    have := s.queuedSum_le_pool t
    refine holdRow_sums (by omega) (fun l hl => htotal.length_le hl) (fun l hl => ?_)
    simpa [hl] using hsep t
  exact h.leaves (p := fun _ => 0) hroom (fun t => (Nat.zero_add _).symm) (fun t => (hrows t).1)
    (fun t => (hrows t).2) rfl (fun t => .inr ⟨rfl, rfl⟩) (.inl rfl)

theorem restore (hd : Distinct s) (htotal : TotalExact s) {complete : Bool} {cs : List Bss.Alloc}
    (hroom : s.load + 1 < 2 ^ 16) (hsafe : s.AllocSafe (.restore mac complete cs))
    (hsep : s.Separates cfg (.restore mac complete cs)) (hs : s.restoreTdlsPackets cfg mac complete cs = some s') :
    Counted s' := by
  obtain ⟨hcs, hpause, hdown⟩ := hsep
  obtain ⟨u, hu, hend⟩ := Bss.restoreTdlsPackets_cases hs
  have htu := htotal.restored hd hroom hsafe hu
  have hcu : Counted u := by
    refine restoreLoop (s := { s with tdlsPendingTxq := s.tdlsPendingTxq.filter fun b => ¬b.ra = mac }) ?_ ?_ ?_ ?_ ?_ ?_ hu
    · exact h.of_eq rfl rfl rfl rfl
    · exact hd.of_tbl rfl
    · exact htotal.of_tbl rfl rfl
    · exact fun c hc => ⟨hsafe c hc, hcs c hc⟩
    · have := length_filter_le (fun b => decide (b.ra = mac)) s.tdlsPendingTxq
      unfold Bss.load at hroom
      dsimp only
      omega
    · intro b hb
      obtain ⟨hb, hra⟩ := mem_filter.mp hb
      exact hpause b hb (by simpa using hra)
  rcases hend with ⟨-, rfl⟩ | ⟨rfl, hdel⟩
  · exact hcu
  · obtain ⟨hpush, hflight, -⟩ := Bss.firstPushed_restoreLoop hu
    exact hcu.deleteTdls (sides_of_firstPushed htu.1 hpush hflight (hdown rfl)) hdel htu.2

/-- Every operation that separates the paused lists keeps the counters. -/
theorem step (hd : Distinct s) (htotal : TotalExact s) {op : Op} (hroom : s.load + 1 < 2 ^ 16)
    (hsafe : s.AllocSafe op) (hsep : s.Separates cfg op) (hs : s.step cfg op = some s') : Counted s' := by
  have hpool := s.pool_le_load
  cases op with
  | add b e =>
    rcases Bss.addBufTxqueue_cases hs with rfl | ⟨u, t, r, -, hu, rfl⟩
    · exact h.of_eq rfl rfl rfl rfl
    · rcases hu with rfl | ⟨-, ra, rfl⟩
      · exact h.enqueueBuf (by omega) e r
      · exact (h.grow e.alloc).enqueueBuf (by rw [pool_grow]; omega) e r
  | ralistAdd ra c =>
    obtain ⟨-, rfl⟩ := Bss.ralistAdd_eq hs
    exact h.grow c
  | dequeue d => exact h.dequeue hd htotal hsep hs (by omega)
  | aggregate =>
    obtain ⟨f, hf, -, rfl | ⟨l, hn, hb, rfl⟩⟩ := Bss.aggregatePkt_cases hs
    · exact h.of_eq rfl rfl rfl rfl
    · have hpause : l.txPause = false := by simpa [Bss.Separates, hf, hn] using hsep
      exact h.popBuf htotal hn hb hpause (by omega)
  | done resource => exact h.sendDone htotal hsep hs (by omega)
  | txPause mac p =>
    obtain rfl := some.inj hs
    exact h.pauses p (by omega) (fun t => (pauseRow_sums mac p (s.tbl t)).1)
      (fun t => (pauseRow_sums mac p (s.tbl t)).2) rfl rfl rfl
  | nonTdlsPause mac p =>
    obtain rfl := some.inj hs
    exact h.pauses p (by omega) (fun t => (nonTdlsRow_sums mac p (s.tbl t)).1)
      (fun t => (nonTdlsRow_sums mac p (s.tbl t)).2) rfl rfl rfl
  | ralistUpdate old new =>
    obtain rfl := some.inj hs
    exact h.ralistUpdate hsep
  | drop =>
    obtain rfl := some.inj hs
    exact h.dropTxPkts hd htotal (by omega)
  | deletePeer mac =>
    obtain rfl := some.inj hs
    exact h.deletePeer mac (by omega)
  | hold mac =>
    obtain rfl := some.inj hs
    exact h.hold htotal mac (by omega) hsep
  | restore mac complete cs => exact h.restore hd htotal hroom hsafe hsep hs
  | priorities ie =>
    obtain rfl := some.inj hs
    cases ie <;> exact h.of_eq rfl rfl rfl rfl
  | downgrade vals =>
    obtain rfl := some.inj hs
    exact h.of_eq rfl rfl rfl rfl

end Counted

/-! ## Runs -/

/-- The counters are right. -/
structure Accounted (s : Bss) : Prop where
  total : ∀ t, ∀ l ∈ s.tbl t, l.totalPkts = l.bufHead.length + s.inFlight t l.addr
  queued : ∀ t, s.pktsQueued t = ((s.tbl t).map totalPkts).sum
  paused : ∀ t, s.pktsPaused t = ((s.tbl t).map pausedPkts).sum
  tx : s.txPktsQueued = ∑ t, ((s.tbl t).map openPkts).sum

namespace Bss

/-- Fewer packets than a 16-bit counter can count, no address of a node in flight is allocated, and no packet is counted
on the other side. -/
def KeepsAccounts (cfg : Config) (s : Bss) (op : Op) : Prop :=
  s.load + 1 < 2 ^ 16 ∧ s.AllocSafe op ∧ s.Separates cfg op
  deriving Decidable

end Bss

/-- What carries the accounting through a run. -/
structure AccountInv (s : Bss) : Prop where
  distinct : Distinct s
  total : TotalExact s
  counted : Counted s

theorem accountInv_empty : AccountInv emptyBss :=
  ⟨⟨fun _ => nodup_nil, fun ha => absurd ha not_mem_nil⟩, fun _ _ hl => absurd hl not_mem_nil,
    ⟨fun _ => rfl, fun _ => rfl, by decide⟩⟩

theorem AccountInv.step (h : AccountInv s) {op : Op} (hc : s.KeepsAccounts cfg op) (hs : s.step cfg op = some s') :
    AccountInv s' :=
  ⟨h.distinct.step hs, h.total.step h.distinct hc.1 hc.2.1 hs,
    h.counted.step h.distinct h.total hc.1 hc.2.1 hc.2.2 hs⟩

theorem AccountInv.of_reachableWhen (h : (wmmSystem cfg).ReachableWhen (Bss.KeepsAccounts cfg) s) : AccountInv s :=
  h.invariant (fun _ hs => hs ▸ accountInv_empty) fun _ _ _ hi hc hs => hi.step hc hs

/-- **Queue accounting.** In every run whose operations meet `KeepsAccounts`, each list counts its packets and the
processed one in flight, and the other counters are the sums of these counts. -/
theorem queues_accounted (h : (wmmSystem cfg).ReachableWhen (Bss.KeepsAccounts cfg) s) : Accounted s := by
  have hi := AccountInv.of_reachableWhen h
  exact ⟨hi.total, hi.counted.queued, hi.counted.paused, hi.counted.tx⟩

/-! ## Runs of a station -/

/-- A station in infrastructure mode. -/
def staConfig : Config := ⟨false, false, false⟩

def apAddr : Mac := ⟨0x00, 0x11, 0x22, 0x33, 0x44, 0x55⟩

/-- A packet to `ra` in TID 0. -/
def bestEffort (ra : Mac) : Buf := ⟨ra, none, 0, false⟩

/-- Eight new nodes. -/
def someNodes : Bss.Alloc := ⟨[1, 2, 3, 4, 5, 6, 7, 8], false, false, false⟩

/-- To the list of the AP. -/
def toAp : Bss.AddEnv := ⟨.none, false, false, someNodes⟩

/-- An association and one packet. -/
def associated : List Op :=
  [.downgrade id, .ralistAdd apAddr someNodes, .add (bestEffort apAddr) toAp]

/-- Two packets, one of which is with the card while the AP pauses. -/
theorem queues_accounted_paused : ∃ s, (wmmSystem staConfig).ReachableWhen (Bss.KeepsAccounts staConfig) s ∧
    s.pktsPaused 0 = 1 ∧ s.flight.isSome ∧ Accounted s := by
  obtain ⟨s, hs, hrun⟩ := System.exists_reachableWhen_of_runWhen (M := wmmSystem staConfig)
    (C := Bss.KeepsAccounts staConfig) (P := fun s => s.pktsPaused 0 = 1 && s.flight.isSome)
    (l := associated ++ [Op.add (bestEffort apAddr) toAp, .dequeue .highest, .txPause apAddr true])
    (s := emptyBss) (.init rfl) (by decide +kernel)
  simp only [Bool.and_eq_true, decide_eq_true_eq] at hrun
  exact ⟨s, hs, hrun.1, hrun.2, queues_accounted hs⟩

/-- The AP pauses while its packet is with the card, and the card has no room. The packet is queued back into the paused
list and counted among the others, so the end of the pause takes it from `pkts_paused`, which is zero. -/
theorem paused_counter_wraps : ¬∀ s, (wmmSystem staConfig).Reachable s → Accounted s := by
  intro h
  obtain ⟨s, hs, hrun⟩ := System.exists_reachable_of_run (M := wmmSystem staConfig)
    (P := fun s => s.pktsPaused 0 = 2 ^ 32 - 1 && (s.tbl 0).all fun l => !l.txPause)
    (l := associated ++ [Op.dequeue .highest, .txPause apAddr true, .done true, .txPause apAddr false])
    (s := emptyBss) rfl (by decide +kernel)
  simp only [Bool.and_eq_true, decide_eq_true_eq, all_eq_true, Bool.not_eq_true'] at hrun
  have hzero : ((s.tbl 0).map pausedPkts).sum = 0 := by
    refine sum_eq_zero fun n hn => ?_
    obtain ⟨l, hl, rfl⟩ := mem_map.mp hn
    simp [pausedPkts, hrun.2 l hl]
  have hp := (h s hs).paused 0
  rw [hzero, hrun.1] at hp
  exact absurd hp (by decide)

end WlanDriver.Wmm
