import WlanDriver.Reorder.Station

/-!
# Setting up a block ack stream

`wlan_cmd_11n_addba_rspgen` answers the request of a peer for a block ack stream and, when it accepts, creates
the reorder table. The parameter set of a request packs the A-MSDU bit, the policy, the traffic class and the
window into 16 bits; the answer puts its own window there.

`addbaRspgen_spec` : what the answer says, and which tables there are afterwards, over any run of requests and of all
else that works on the tables (`addbaSystem`).
-/

namespace WlanDriver.Reorder

open Ethernet List RxReorderTbl Station

variable {P : Type*} {wide : ℕ → BitVec 64}

/-! ## The request and the answer -/

/-- `HostCmd_DS_11N_ADDBA_REQ`, as far as it is read. -/
structure AddbaReq where
  peerMacAddr : Mac
  dialogToken : UInt8
  blockAckParamSet : BitVec 16
  blockAckTmo : BitVec 16
  ssn : BitVec 16

/-- `ADDBA_RSP_STATUS_ACCEPT` and `ADDBA_RSP_STATUS_DECLINED`. -/
inductive AddbaStatus
  | accept
  | declined
  deriving DecidableEq, Repr

/-- `HostCmd_DS_11N_ADDBA_RSP`. -/
structure AddbaRsp where
  addRspResult : UInt8
  peerMacAddr : Mac
  dialogToken : UInt8
  statusCode : AddbaStatus
  blockAckParamSet : BitVec 16
  blockAckTmo : BitVec 16
  ssn : BitVec 16

/-- What the answer depends on : `addba_reject`, the role, `wps.session_enable`, `pending_bridge_pkts`, and
`add_ba_param`, whose window is at most `MLAN_AMPDU_MAX_RXWINSIZE`; the sequence numbers come from the station
list or from `rx_seq`, depending on `queuing_ra_based`. -/
structure AddbaCfg where
  addbaReject : Fin maxNumTid → UInt8
  uap : Bool
  wpsSessionEnable : Bool
  pendingBridgePkts : ℕ
  rxAmsdu : Bool
  rxWinSize : ℕ
  rxWinSize_le : rxWinSize ≤ 0x3ff
  queuingRaBased : Bool
  staRxSeq : Mac → Option (ℕ → ℕ)
  rxSeq : ℕ → ℕ

def rxLowThreshold : ℕ := 128

/-- `BLOCKACKPARAM_TID_MASK` and `BLOCKACKPARAM_TID_POS`. -/
def paramTid (p : BitVec 16) : ℕ :=
  ((p &&& 0x3c#16) >>> 2).toNat

/-- `BLOCKACKPARAM_WINSIZE_MASK` and `BLOCKACKPARAM_WINSIZE_POS`. -/
def paramWinSize (p : BitVec 16) : ℕ :=
  ((p &&& 0xffc0#16) >>> 6).toNat

namespace AddbaCfg

variable (cfg : AddbaCfg)

def isAddbaReject (tid : ℕ) : Bool :=
  if h : tid < maxNumTid then cfg.addbaReject ⟨tid, h⟩ != 0 else true

/-- The request is declined. -/
def declines (tid : ℕ) : Bool :=
  cfg.isAddbaReject tid || (!cfg.uap && cfg.wpsSessionEnable) || (cfg.uap && rxLowThreshold < cfg.pendingBridgePkts)

/-- The window of the answer. -/
def winSize (requested : ℕ) : ℕ :=
  if requested ≠ 0 then min requested cfg.rxWinSize else cfg.rxWinSize

/-- The parameter set of the answer. -/
def answerParam (p : BitVec 16) : BitVec 16 :=
  let q := p &&& ~~~0xffc0#16
  let q := if !cfg.rxAmsdu then q &&& ~~~0x1#16 else q
  q ||| BitVec.ofNat 16 (cfg.winSize (paramWinSize p) <<< 6)

/-- `last_seq` of the table that is created. -/
def lastSeq (ta : Mac) (tid : ℕ) : ℕ :=
  if cfg.queuingRaBased then if cfg.uap then (cfg.staRxSeq ta).elim 0 (· tid) else 0
  else (cfg.staRxSeq ta).elim (cfg.rxSeq tid) (· tid)

end AddbaCfg

/-- `wlan_cmd_11n_addba_rspgen` : the answer, and the tables; `mem` says whether the allocations succeed. -/
def addbaRspgen (cfg : AddbaCfg) (req : AddbaReq) (mem : Bool) (s : Station P) : AddbaRsp × Station P :=
  let tid := paramTid req.blockAckParamSet
  let statusCode := if cfg.declines tid then AddbaStatus.declined else .accept
  let winSize := cfg.winSize (paramWinSize req.blockAckParamSet)
  ({ addRspResult := 0
     peerMacAddr := req.peerMacAddr
     dialogToken := req.dialogToken
     statusCode := statusCode
     blockAckParamSet := cfg.answerParam req.blockAckParamSet
     blockAckTmo := req.blockAckTmo
     ssn := req.ssn },
    if statusCode = .accept then
      s.createRxReorderTbl (req.peerMacAddr, tid) winSize req.ssn.toNat (cfg.lastSeq req.peerMacAddr tid) mem
    else s)

/-! ## The parameter set -/

section Param

variable (cfg : AddbaCfg) (p : BitVec 16)

theorem winSize_le (requested : ℕ) : cfg.winSize requested ≤ 0x3ff := by
  have h := cfg.rxWinSize_le
  unfold AddbaCfg.winSize
  split_ifs <;> omega

/-- A 16-bit mask, from its bits. -/
theorem getLsbD_mask (mask : BitVec 16) (q : ℕ → Bool) (h : ∀ i < 16, mask.getLsbD i = q i) (i : ℕ) :
    mask.getLsbD i = (decide (i < 16) && q i) := by
  rcases Nat.lt_or_ge i 16 with hi | hi
  · rw [h i hi, decide_eq_true hi, Bool.true_and]
  · rw [BitVec.getLsbD_of_ge mask i hi, decide_eq_false (Nat.not_lt.mpr hi), Bool.false_and]

theorem getLsbD_answerParam (i : ℕ) : (cfg.answerParam p).getLsbD i =
    if i < 6 then p.getLsbD i && (cfg.rxAmsdu || i != 0)
    else decide (i < 16) && (cfg.winSize (paramWinSize p)).testBit (i - 6) := by
  have hkeep := getLsbD_mask (~~~0xffc0#16) (fun i => decide (i < 6)) (by decide) i
  have hamsdu := getLsbD_mask (~~~0x1#16) (fun i => i != 0) (by decide) i
  have hrest : (if !cfg.rxAmsdu then p &&& ~~~0xffc0#16 &&& ~~~0x1#16 else p &&& ~~~0xffc0#16).getLsbD i =
      (p.getLsbD i && decide (i < 6) && (cfg.rxAmsdu || i != 0)) := by
    cases cfg.rxAmsdu
    · rw [Bool.not_false, if_pos rfl, BitVec.getLsbD_and, BitVec.getLsbD_and, hkeep, hamsdu]
      by_cases hi : i < 6
      · simp [hi, show i < 16 by omega]
      · simp [hi]
    · rw [Bool.not_true, if_neg Bool.false_ne_true, BitVec.getLsbD_and, hkeep]
      by_cases hi : i < 6
      · simp [hi, show i < 16 by omega]
      · simp [hi]
  unfold AddbaCfg.answerParam
  dsimp only
  rw [BitVec.getLsbD_or, BitVec.getLsbD_ofNat, Nat.testBit_shiftLeft, hrest]
  by_cases hi : i < 6
  · simp [hi, Nat.not_le.mpr hi]
  · simp [hi, Nat.not_lt.mp hi]

theorem paramWinSize_eq : paramWinSize p = p.toNat >>> 6 := by
  have h : (p &&& 0xffc0#16) >>> 6 = p >>> 6 := by
    ext i hi
    rw [BitVec.getElem_ushiftRight, BitVec.getElem_ushiftRight, BitVec.getLsbD_and,
      getLsbD_mask 0xffc0#16 (fun i => decide (6 ≤ i)) (by decide)]
    rcases Nat.lt_or_ge (6 + i) 16 with h | h
    · simp [h]
    · simp [BitVec.getLsbD_of_ge p _ h]
  rw [paramWinSize, h, BitVec.toNat_ushiftRight]

theorem paramWinSize_answerParam : paramWinSize (cfg.answerParam p) = cfg.winSize (paramWinSize p) := by
  have hlt : cfg.winSize (paramWinSize p) < 2 ^ 10 := (winSize_le cfg _).trans_lt (by decide)
  refine Nat.eq_of_testBit_eq fun i => ?_
  rw [paramWinSize_eq, Nat.testBit_shiftRight, BitVec.testBit_toNat, getLsbD_answerParam, if_neg (by omega),
    Nat.add_sub_cancel_left]
  rcases Nat.lt_or_ge i 10 with hi | hi
  · simp [show 6 + i < 16 by omega]
  · have hbit : (cfg.winSize (paramWinSize p)).testBit i = false :=
      Nat.testBit_lt_two_pow (hlt.trans_le (Nat.pow_le_pow_right (by decide) hi))
    simp [hbit]

end Param

/-! ## Which tables there are -/

/-- What a table is for, and its window. -/
def RxReorderTbl.shape (t : RxReorderTbl P) : Key × ℕ := (t.key, t.winSize)

/-- There is one table for a key, and its window is small against the sequence space. -/
structure TablesInv (tables : List (RxReorderTbl P)) : Prop where
  keys : (tables.map key).Nodup
  win : ∀ t ∈ tables, t.winSize ≤ 1024

section Tables

variable {tables tables' : List (RxReorderTbl P)} {k : Key} {t t' : RxReorderTbl P} {s s' : Station P}

/-- Tables that go, or change in other ways. -/
theorem TablesInv.mono (h : TablesInv tables)
    (hsub : (tables'.map shape).Sublist (tables.map shape)) : TablesInv tables' := by
  have hkeys : ∀ l : List (RxReorderTbl P), l.map key = (l.map shape).map Prod.fst := fun l => by
    rw [map_map]
    rfl
  refine ⟨?_, fun t ht => ?_⟩
  · rw [hkeys]
    refine (hsub.map Prod.fst).nodup ?_
    rw [← hkeys]
    exact h.keys
  · obtain ⟨u, hu, heq⟩ := mem_map.mp (hsub.subset (mem_map_of_mem ht))
    rw [show t.winSize = u.winSize from (congrArg Prod.snd heq).symm]
    exact h.win u hu

theorem TablesInv.of_map_eq (h : TablesInv tables) (heq : tables'.map RxReorderTbl.shape = tables.map RxReorderTbl.shape) :
    TablesInv tables' :=
  h.mono (by rw [heq])

theorem shape_set (ht : getRxReorderTbl tables k = some t) (hshape : t'.shape = t.shape) :
    (setRxReorderTbl k t' tables).map shape = tables.map shape := by
  obtain ⟨as, bs, rfl, -, hset, -⟩ := getRxReorderTbl_split ht
  rw [hset, map_append, map_append, map_cons, map_cons, hshape]

theorem shape_map {f : RxReorderTbl P → RxReorderTbl P} (hf : ∀ t, (f t).shape = t.shape) :
    (tables.map f).map shape = tables.map shape := by
  rw [map_map]
  exact map_congr_left fun t _ => hf t

theorem RxReorderTbl.Kept.shape (h : RxReorderTbl.Kept t t') : t'.shape = t.shape :=
  Prod.ext (Prod.ext h.ta h.tid) h.win

theorem shape_deleteTbl (s : Station P) (k : Key) :
    ((s.deleteTbl k).tables.map shape).Sublist (s.tables.map shape) := by
  unfold deleteTbl
  split
  · exact List.Sublist.refl _
  · exact eraseP_sublist.map _

theorem shape_deleteTbls (s : Station P) (ks : List Key) :
    ((s.deleteTbls ks).tables.map shape).Sublist (s.tables.map shape) := by
  unfold deleteTbls
  induction ks generalizing s with
  | nil => exact List.Sublist.refl _
  | cons k ks ih => exact (ih (s.deleteTbl k)).trans (shape_deleteTbl s k)

/-- Deleting the table of a key leaves the others. -/
theorem unlinkRxReorderTbl_eq (h : (tables.map RxReorderTbl.key).Nodup) (ht : getRxReorderTbl tables k = some t) :
    unlinkRxReorderTbl tables k = tables.filter (fun t => t.key ≠ k) ∧ tables.filter (fun t => t.key = k) = [t] := by
  obtain ⟨as, bs, rfl, hk, -, hunlink⟩ := getRxReorderTbl_split ht
  rw [map_append, map_cons, nodup_append_comm, cons_append, nodup_cons, hk, ← map_append] at h
  have hother : ∀ u ∈ as ++ bs, u.key ≠ k := fun u hu hkey => by
    refine h.1 (mem_map.mpr ⟨u, ?_, hkey⟩)
    exact (perm_append_comm.mem_iff).mp hu
  have has : ∀ u ∈ as, u.key ≠ k := fun u hu => hother u (mem_append_left bs hu)
  have hbs : ∀ u ∈ bs, u.key ≠ k := fun u hu => hother u (mem_append_right as hu)
  rw [hunlink, filter_append, filter_append, filter_cons_of_neg (by simpa using hk),
    filter_cons_of_pos (by simpa using hk)]
  refine ⟨?_, ?_⟩
  · rw [filter_eq_self.mpr (by simpa using has), filter_eq_self.mpr (by simpa using hbs)]
  · rw [filter_eq_nil_iff.mpr (by simpa using has), filter_eq_nil_iff.mpr (by simpa using hbs), nil_append]

/-- The table of a key is dispatched and goes; nothing else changes. -/
theorem deleteTbl_spec (h : TablesInv s.tables) (k : Key) :
    (s.deleteTbl k).tables = s.tables.filter (fun t => t.key ≠ k) ∧
      (s.deleteTbl k).log = s.log ++ (s.tables.filter fun t => t.key = k).flatMap
        fun t => (t.rxReorderPtr.contents t.winSize).map (k, ·) := by
  unfold deleteTbl
  cases ht : getRxReorderTbl s.tables k with
  | none =>
    have hnone : ∀ t ∈ s.tables, t.key ≠ k := fun t ht' hk => getRxReorderTbl_none ht (hk ▸ mem_map_of_mem ht')
    rw [filter_eq_self.mpr (by simpa using hnone), filter_eq_nil_iff.mpr (by simpa using hnone)]
    exact ⟨rfl, (append_nil _).symm⟩
  | some t =>
    obtain ⟨hothers, hone⟩ := unlinkRxReorderTbl_eq h.keys ht
    have hwin := h.win t (mem_of_find?_eq_some ht)
    have hall : t.noPktToSend ((t.startWin + t.winSize) % 4096) = t.winSize := by
      unfold noPktToSend
      split_ifs <;> omega
    rw [hone, ← hothers]
    refine ⟨rfl, ?_⟩
    simp only [deleteRxReorderTblEntry, dispatchPktUntilStartWin, hall, SlotArray.takeFirst_eq,
      flatMap_cons, flatMap_nil, append_nil]

/-- A table is created in the place of that of its key. -/
theorem createRxReorderTbl_spec (h : TablesInv s.tables) (hk : k.2 < maxNumTid) (winSize seq lastSeq : ℕ) :
    (s.createRxReorderTbl k winSize seq lastSeq true).tables =
        s.tables.filter (fun t => t.key ≠ k) ++ [.create k.1 k.2 winSize seq lastSeq] ∧
      (s.createRxReorderTbl k winSize seq lastSeq true).log = s.log ++ (s.tables.filter fun t => t.key = k).flatMap
        fun t => (t.rxReorderPtr.contents t.winSize).map (k, ·) := by
  obtain ⟨htables, hlog⟩ := deleteTbl_spec h k
  unfold createRxReorderTbl
  rw [if_neg (Nat.not_le.mpr hk), if_pos rfl]
  exact ⟨by rw [← htables], hlog⟩

theorem createRxReorderTbl_tables (h : TablesInv s.tables) (k : Key) {winSize : ℕ} (hwin : winSize ≤ 1024) (seq lastSeq : ℕ)
    (mem : Bool) : TablesInv (s.createRxReorderTbl k winSize seq lastSeq mem).tables := by
  rcases Nat.lt_or_ge k.2 maxNumTid with hk | hk
  · cases mem with
    | true =>
      obtain ⟨htables, -⟩ := createRxReorderTbl_spec h hk winSize seq lastSeq
      rw [htables]
      refine ⟨?_, fun t ht => ?_⟩
      · rw [map_append, nodup_append_comm]
        refine nodup_cons.mpr ⟨?_, (filter_sublist.map _).nodup h.keys⟩
        intro hmem
        obtain ⟨u, hu, hkey⟩ := mem_map.mp hmem
        have hne : u.key ≠ k := by simpa using (mem_filter.mp hu).2
        exact hne hkey
      · rcases mem_append.mp ht with ht | ht
        · exact h.win t (mem_filter.mp ht).1
        · obtain rfl := mem_singleton.mp ht
          exact hwin
    | false =>
      refine h.mono ?_
      unfold createRxReorderTbl
      rw [if_neg (Nat.not_le.mpr hk), if_neg Bool.false_ne_true]
      exact shape_deleteTbl s k
  · unfold createRxReorderTbl
    rw [if_pos hk]
    exact h

/-! ## Runs -/

/-- Anything that works on the tables keeps them distinct. -/
theorem TablesInv.act (h : TablesInv s.tables) {a : Station.Act P} (hs : s.step wide a = some s') : TablesInv s'.tables := by
  cases a with
  | pkt k seq ty payload =>
    obtain rfl := Option.some.inj hs
    unfold rxPkt
    dsimp only
    rcases @Station.rxReorder_cases _ wide s.tables k seq ty payload with heq | ⟨t, ht, -, heq⟩
    · rw [heq]
      exact h
    · rw [heq]
      exact h.of_map_eq (shape_set ht (kept_rxReorderPkt t seq ty payload).shape)
  | timer k =>
    simp only [step, timerStep] at hs
    split at hs
    · exact absurd hs (by simp)
    next t ht =>
    split_ifs at hs
    obtain rfl := Option.some.inj hs
    exact h.of_map_eq (shape_set ht rfl)
  | flush =>
    obtain rfl := Option.some.inj hs
    exact h.of_map_eq (shape_map fun t => t.kept_flushIfSet.shape)
  | create k winSize seq lastSeq mem =>
    obtain rfl := Option.some.inj hs
    exact createRxReorderTbl_tables (s := { s with left := none }) h k (Nat.lt_succ_iff.mp winSize.isLt) _ _ mem
  | addbaResp k ok amsdu =>
    obtain rfl := Option.some.inj hs
    unfold retAddbaResp
    split
    · exact h
    next t ht =>
    split_ifs
    · exact h.of_map_eq (shape_set ht rfl)
    · exact h.mono (shape_deleteTbl { s with left := none } k)
  | delba k =>
    obtain rfl := Option.some.inj hs
    exact h.mono (shape_deleteTbl { s with left := none } k)
  | cleanup =>
    obtain rfl := Option.some.inj hs
    exact h.mono (shape_deleteTbls { s with left := none } _)
  | cleanupSta ta =>
    obtain rfl := Option.some.inj hs
    exact h.mono (shape_deleteTbls { s with left := none } _)
  | noDrop flag =>
    obtain rfl := Option.some.inj hs
    exact h.of_map_eq (shape_map fun t => rfl)

/-- A request, or anything else that works on the tables. -/
inductive AddbaAct (P : Type*)
  | rspgen (cfg : AddbaCfg) (req : AddbaReq) (mem : Bool)
  | act (a : Station.Act P)

/-- The tables of an interface whose peers set up streams. -/
def addbaSystem (wide : ℕ → BitVec 64) : System (Station P) (AddbaAct P) where
  init s := s = emptyStation
  step s
    | .rspgen cfg req mem => some (addbaRspgen cfg req mem s).2
    | .act a => s.step wide a

theorem TablesInv.of_reachable (h : (addbaSystem wide).Reachable s) : TablesInv s.tables := by
  refine h.invariant (I := fun s => TablesInv s.tables) (fun s hs => ?_) fun s a s' hi hs => ?_
  · subst hs
    exact ⟨nodup_nil, nofun⟩
  · cases a with
    | rspgen cfg req mem =>
      obtain rfl := Option.some.inj hs
      unfold addbaRspgen
      dsimp only
      generalize (if cfg.declines (paramTid req.blockAckParamSet) then AddbaStatus.declined else .accept) = status
      split_ifs
      · exact createRxReorderTbl_tables hi _ ((winSize_le cfg _).trans (by decide)) _ _ mem
      · exact hi
    | act a => exact hi.act hs

end Tables

/-! ## The answer -/

/-- What an answer says : the smaller of the two windows, its own if none was asked for; the other bits are those of the
request, but that A-MSDUs are only supported when the host takes them. -/
structure Answers (cfg : AddbaCfg) (req : AddbaReq) (rsp : AddbaRsp) : Prop where
  window : paramWinSize rsp.blockAckParamSet =
    if paramWinSize req.blockAckParamSet = 0 then cfg.rxWinSize
    else min (paramWinSize req.blockAckParamSet) cfg.rxWinSize
  others : ∀ i < 6, i ≠ 0 → rsp.blockAckParamSet.getLsbD i = req.blockAckParamSet.getLsbD i
  amsdu : rsp.blockAckParamSet.getLsbD 0 = (req.blockAckParamSet.getLsbD 0 && cfg.rxAmsdu)

/-- There is one table for the stream, new and empty; the others are as they were; and what the one it replaces held was
delivered. -/
structure Created (s s' : Station P) (k : Key) (winSize startWin : ℕ) : Prop where
  one : ∃ t, s'.tables.filter (fun t => t.key = k) = [t] ∧ t.winSize = winSize ∧ t.startWin = startWin ∧
    ∀ i, t.rxReorderPtr i = none
  others : s'.tables.filter (fun t => t.key ≠ k) = s.tables.filter fun t => t.key ≠ k
  delivered : s'.log = s.log ++ (s.tables.filter fun t => t.key = k).flatMap
    fun t => (t.rxReorderPtr.contents t.winSize).map (k, ·)

theorem answers_addbaRspgen (cfg : AddbaCfg) (req : AddbaReq) (mem : Bool) (s : Station P) :
    Answers cfg req (addbaRspgen cfg req mem s).1 := by
  refine ⟨?_, fun i hi hne => ?_, ?_⟩
  · simp only [addbaRspgen, paramWinSize_answerParam, AddbaCfg.winSize, ne_eq, ite_not]
  · have hne : (i != 0) = true := bne_iff_ne.mpr hne
    simp only [addbaRspgen, getLsbD_answerParam, if_pos hi, hne, Bool.or_true, Bool.and_true]
  · simp only [addbaRspgen, getLsbD_answerParam, Nat.zero_lt_succ, if_true, bne_self_eq_false, Bool.or_false]

theorem lt_maxNumTid_of_not_declines {cfg : AddbaCfg} {tid : ℕ} (h : cfg.declines tid = false) : tid < maxNumTid := by
  by_contra hge
  rw [AddbaCfg.declines, AddbaCfg.isAddbaReject, dif_neg hge] at h
  exact absurd h (by simp)

/-- **Block ack setup** : in every run, the answer and the tables agree. -/
theorem addbaRspgen_spec {s : Station P} (h : (addbaSystem wide).Reachable s) (cfg : AddbaCfg) (req : AddbaReq)
    (mem : Bool) : Answers cfg req (addbaRspgen cfg req mem s).1 ∧
      ((addbaRspgen cfg req mem s).1.statusCode = .accept → mem = true →
        Created s (addbaRspgen cfg req mem s).2 (req.peerMacAddr, paramTid req.blockAckParamSet)
          (paramWinSize (addbaRspgen cfg req mem s).1.blockAckParamSet) req.ssn.toNat) ∧
      ((addbaRspgen cfg req mem s).1.statusCode = .declined → (addbaRspgen cfg req mem s).2 = s) := by
  refine ⟨answers_addbaRspgen cfg req mem s, fun haccept hmem => ?_, fun hdecline => ?_⟩
  · subst hmem
    have hopen : cfg.declines (paramTid req.blockAckParamSet) = false := by
      by_contra hd
      rw [Bool.not_eq_false] at hd
      simp [addbaRspgen, hd] at haccept
    obtain ⟨htables, hlog⟩ := createRxReorderTbl_spec (k := (req.peerMacAddr, paramTid req.blockAckParamSet))
      (.of_reachable h) (lt_maxNumTid_of_not_declines hopen) (cfg.winSize (paramWinSize req.blockAckParamSet)) req.ssn.toNat
      (cfg.lastSeq req.peerMacAddr (paramTid req.blockAckParamSet))
    simp only [addbaRspgen, hopen, Bool.false_eq_true, if_false, if_true, paramWinSize_answerParam]
    refine ⟨?_, ?_, hlog⟩
    · rw [htables, filter_append, filter_eq_nil_iff.mpr (by simp), nil_append,
        filter_cons_of_pos (by simp [create, key]), filter_nil]
      exact ⟨_, rfl, rfl, rfl, fun _ => rfl⟩
    · rw [htables, filter_append, filter_filter,
        filter_cons_of_neg (by simp [create, key]), filter_nil, append_nil]
      simp only [Bool.and_self]
  · simp only [addbaRspgen] at hdecline ⊢
    rw [if_neg (by rw [hdecline]; decide)]

/-- A station that takes A-MSDUs, with a window of 64. -/
def someCfg : AddbaCfg where
  addbaReject _ := 0
  uap := false
  wpsSessionEnable := false
  pendingBridgePkts := 0
  rxAmsdu := true
  rxWinSize := 64
  rxWinSize_le := by decide
  queuingRaBased := false
  staRxSeq _ := none
  rxSeq _ := defaultSeqNum

/-- A request for no window in particular : bit 0 for A-MSDUs, bit 1 for immediate acknowledgement. -/
def someReq : AddbaReq where
  peerMacAddr := someMac
  dialogToken := 1
  blockAckParamSet := 0x3#16
  blockAckTmo := 0
  ssn := 7#16

/-- The same with a window of four. -/
def fourReq : AddbaReq :=
  { someReq with blockAckParamSet := 0x103#16 }

/-- The stream is set up, one packet has come in order, and the next but one is held. -/
def heldStation : Station ℕ :=
  ((addbaRspgen someCfg fourReq true emptyStation).2.rxPkt maskedShl (someMac, 0) 7 .data 4).rxPkt maskedShl
    (someMac, 0) 9 .data 5

theorem heldStation_reachable : (addbaSystem maskedShl).Reachable heldStation :=
  .step (.step (.step (.init rfl) (a := .rspgen someCfg fourReq true) trivial rfl)
    (a := .act (.pkt (someMac, 0) 7 .data 4)) trivial rfl) (a := .act (.pkt (someMac, 0) 9 .data 5)) trivial rfl

/-- Another request for the stream delivers the packet, and one during a session of WPS changes nothing. -/
theorem addbaRspgen_spec_some :
    (heldStation.tables.map fun t => t.rxReorderPtr.contents t.winSize) = [[5]] ∧
      Created heldStation (addbaRspgen someCfg someReq true heldStation).2 (someMac, 0) 64 7 ∧
      (addbaRspgen { someCfg with wpsSessionEnable := true } someReq true heldStation).2 = heldStation :=
  ⟨by decide +kernel, (addbaRspgen_spec heldStation_reachable someCfg someReq true).2.1 (by decide) rfl,
    (addbaRspgen_spec heldStation_reachable { someCfg with wpsSessionEnable := true } someReq true).2.2 (by decide)⟩

end WlanDriver.Reorder
