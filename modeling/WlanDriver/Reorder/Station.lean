import WlanDriver.Lib.System
import WlanDriver.Reorder.Table

/-!
# The reorder tables of an interface

The list of tables of an interface (`priv->rx_reorder_tbl_ptr`) with everything that works on it : packets,
the flush timer and its work, block ack setup and teardown, cleanup, and the resume flag. A `Station`
also remembers what was handed to `wlan_11n_dispatch_pkt` (`log`), which payloads a call took
(`accepted`) and which it left to its caller (`returned`), what freed slots still held (`freed`), and the
table of the last call if that left through the window (`left`).

`payloads_conserved` says that no payload is lost or handed on twice. It rests on one lemma for each function of
the list, and for packets on `RxReorderTbl.rxReorderPkt_cases`.
-/

namespace WlanDriver.Reorder

open Ethernet List RxReorderTbl
open Option hiding map_map

variable {P : Type*} {wide : ℕ → BitVec 64}

/-- A transmitter and a traffic class. -/
abbrev Key := Mac × ℕ

/-- What a table is found by. -/
def RxReorderTbl.key (t : RxReorderTbl P) : Key := (t.ta, t.tid)

/-- The tables, and the history of the payloads. -/
structure Station (P : Type*) where
  tables : List (RxReorderTbl P)
  log : List (Key × P)
  accepted : List (Key × P)
  returned : List (Key × P)
  freed : List P
  left : Option (RxReorderTbl P)

def maxNumTid : ℕ := 8

/-! ## Lists of tables -/

section Tables

variable (tables : List (RxReorderTbl P)) (k : Key)

/-- `wlan_11n_get_rxreorder_tbl`. -/
def getRxReorderTbl : Option (RxReorderTbl P) :=
  tables.find? fun t => t.key = k

/-- What is written through the pointer that `getRxReorderTbl` returns. -/
def setRxReorderTbl (t' : RxReorderTbl P) : List (RxReorderTbl P) → List (RxReorderTbl P)
  | [] => []
  | t :: ts => if t.key = k then t' :: ts else t :: setRxReorderTbl t' ts

/-- `util_unlink_list`. -/
def unlinkRxReorderTbl : List (RxReorderTbl P) :=
  tables.eraseP fun t => t.key = k

/-- What the slots of all tables hold. -/
def held : List (Key × P) :=
  tables.flatMap fun t => (t.rxReorderPtr.contents t.winSize).map (t.key, ·)

end Tables

namespace Station

/-! ## Operations -/

/-- `mlan_11n_rxreorder_pkt` : status, payloads handed on, tables, and the table if the window was left
through `done`. -/
def rxReorder (wide : ℕ → BitVec 64) (tables : List (RxReorderTbl P)) (k : Key) (seq : ℕ) (ty : PktType)
    (payload : P) : MlanStatus × List P × List (RxReorderTbl P) × Option (RxReorderTbl P) :=
  match getRxReorderTbl tables k with
  | none => (.success, if ty = .bar then [] else [payload], tables, none)
  | some t =>
    if t.winSize ≤ 1 then (.success, if ty = .bar then [] else [payload], tables, none)
    else
      let r := t.rxReorderPkt wide seq ty payload
      (r.ret, r.out.map Prod.snd, setRxReorderTbl k r.tbl tables, if r.windowed then some r.tbl else none)

/-- A packet comes in; its payload is taken unless it is refused or a block ack request. -/
def rxPkt (wide : ℕ → BitVec 64) (s : Station P) (k : Key) (seq : ℕ) (ty : PktType) (payload : P) : Station P :=
  let r := rxReorder wide s.tables k seq ty payload
  let taken := r.1 = .success ∧ ty ≠ .bar
  { s with
    tables := r.2.2.1
    log := s.log ++ r.2.1.map (k, ·)
    accepted := if taken then s.accepted ++ [(k, payload)] else s.accepted
    returned := if taken then s.returned else s.returned ++ [(k, payload)]
    left := r.2.2.2 }

/-- `wlan_11n_delete_rxreorder_tbl_entry` on the table of `k`, if there is one. -/
def deleteTbl (s : Station P) (k : Key) : Station P :=
  match getRxReorderTbl s.tables k with
  | none => s
  | some t =>
    let r := t.deleteRxReorderTblEntry
    { s with
      tables := unlinkRxReorderTbl s.tables k
      log := s.log ++ r.1.map (k, ·)
      freed := s.freed ++ r.2.rxReorderPtr.contents r.2.winSize }

/-- Delete the tables of several keys. -/
def deleteTbls (s : Station P) (ks : List Key) : Station P :=
  ks.foldl deleteTbl s

/-- `wlan_11n_create_rxreorder_tbl`; `mem` says whether both allocations succeed. -/
def createRxReorderTbl (s : Station P) (k : Key) (winSize seq lastSeq : ℕ) (mem : Bool) : Station P :=
  if maxNumTid ≤ k.2 then s
  else
    let s := s.deleteTbl k
    if mem then { s with tables := s.tables ++ [.create k.1 k.2 winSize seq lastSeq] } else s

/-- `wlan_11n_cleanup_reorder_tbl`. -/
def cleanup11nReorderTbl (s : Station P) : Station P :=
  s.deleteTbls (s.tables.map key)

def cleanupReorderTbl (s : Station P) (ta : Mac) : Station P :=
  s.deleteTbls ((List.range maxNumTid).map (ta, ·))

/-- `wlan_ret_11n_addba_resp`. -/
def retAddbaResp (s : Station P) (k : Key) (ok amsdu : Bool) : Station P :=
  match getRxReorderTbl s.tables k with
  | none => s
  | some t => if ok then { s with tables := setRxReorderTbl k { t with amsdu := amsdu } s.tables } else s.deleteTbl k

/-- `wlan_flush_priv_rxreorder_tbl`. -/
def flushPriv (s : Station P) : Station P :=
  { s with
    tables := s.tables.map fun t => t.flushIfSet.2
    log := s.log ++ s.tables.flatMap fun t => t.flushIfSet.1.map (t.key, ·) }

/-- `wlan_set_rxreorder_tbl_no_drop_flag`. -/
def setNoDropFlag (s : Station P) (flag : Bool) : Station P :=
  { s with tables := s.tables.map fun t => { t with forceNoDrop := flag } }

/-- A packet goes straight on, or through the window of its table. -/
theorem rxReorder_cases (tables : List (RxReorderTbl P)) (k : Key) (seq : ℕ) (ty : PktType) (payload : P) :
    rxReorder wide tables k seq ty payload = (.success, if ty = .bar then [] else [payload], tables, none) ∨
      ∃ t, getRxReorderTbl tables k = some t ∧ 2 ≤ t.winSize ∧
        rxReorder wide tables k seq ty payload =
          ((t.rxReorderPkt wide seq ty payload).ret, (t.rxReorderPkt wide seq ty payload).out.map Prod.snd,
            setRxReorderTbl k (t.rxReorderPkt wide seq ty payload).tbl tables,
            if (t.rxReorderPkt wide seq ty payload).windowed then some (t.rxReorderPkt wide seq ty payload).tbl
            else none) := by
  unfold rxReorder
  cases ht : getRxReorderTbl tables k with
  | none => exact .inl rfl
  | some t =>
    dsimp only
    by_cases hw : t.winSize ≤ 1
    · rw [if_pos hw]
      exact .inl rfl
    · rw [if_neg hw]
      exact .inr ⟨t, rfl, by omega, rfl⟩

/-! ## Runs -/

/-- What happens to the tables. Sequence numbers have 12 bits, and windows at most 1024 slots. -/
inductive Act (P : Type*)
  | pkt (k : Key) (seq : Fin 4096) (ty : PktType) (payload : P)
  | timer (k : Key)
  | flush
  | create (k : Key) (winSize : Fin 1025) (seq : Fin 4096) (lastSeq : Option (Fin 4096)) (mem : Bool)
  | addbaResp (k : Key) (ok amsdu : Bool)
  | delba (k : Key)
  | cleanup
  | cleanupSta (ta : Mac)
  | noDrop (flag : Bool)

/-- The timer of a table runs out, if it is set. -/
def timerStep (s : Station P) (k : Key) : Option (Station P) :=
  match getRxReorderTbl s.tables k with
  | none => none
  | some t => if t.timerIsSet then some { s with tables := setRxReorderTbl k t.flushTimer s.tables } else none

def step (wide : ℕ → BitVec 64) (s : Station P) : Act P → Option (Station P)
  | .pkt k seq ty payload => some (s.rxPkt wide k seq ty payload)
  | .timer k => timerStep { s with left := none } k
  | .flush => some { s with left := none }.flushPriv
  | .create k winSize seq lastSeq mem =>
    some ({ s with left := none }.createRxReorderTbl k winSize seq (lastSeq.elim defaultSeqNum Fin.val) mem)
  | .addbaResp k ok amsdu => some ({ s with left := none }.retAddbaResp k ok amsdu)
  | .delba k => some ({ s with left := none }.deleteTbl k)
  | .cleanup => some { s with left := none }.cleanup11nReorderTbl
  | .cleanupSta ta => some ({ s with left := none }.cleanupReorderTbl ta)
  | .noDrop flag => some ({ s with left := none }.setNoDropFlag flag)

end Station

/-- An interface starts without tables. -/
def emptyStation : Station P where
  tables := []
  log := []
  accepted := []
  returned := []
  freed := []
  left := none

/-- The tables of an interface. -/
def stationSystem (wide : ℕ → BitVec 64) : System (Station P) (Station.Act P) where
  init s := s = emptyStation
  step s a := s.step wide a

/-! ## Lists of tables -/

section

variable {tables : List (RxReorderTbl P)} {k : Key} {t t' : RxReorderTbl P}

@[simp] theorem held_nil : held ([] : List (RxReorderTbl P)) = [] := rfl

@[simp] theorem held_append (as bs : List (RxReorderTbl P)) : held (as ++ bs) = held as ++ held bs :=
  flatMap_append

theorem held_cons (t : RxReorderTbl P) (ts : List (RxReorderTbl P)) :
    held (t :: ts) = (t.rxReorderPtr.contents t.winSize).map (t.key, ·) ++ held ts :=
  flatMap_cons

/-- The table that is found, between the others. -/
theorem getRxReorderTbl_split (h : getRxReorderTbl tables k = some t) :
    ∃ as bs, tables = as ++ t :: bs ∧ t.key = k ∧ (∀ t', setRxReorderTbl k t' tables = as ++ t' :: bs) ∧
      unlinkRxReorderTbl tables k = as ++ bs := by
  induction tables with
  | nil => simp [getRxReorderTbl] at h
  | cons u us ih =>
    by_cases hu : u.key = k
    · obtain rfl : u = t := by simpa [getRxReorderTbl, find?_cons, hu] using h
      exact ⟨[], us, rfl, hu, fun t' => by simp [setRxReorderTbl, hu], by simp [unlinkRxReorderTbl, hu]⟩
    · have h' : getRxReorderTbl us k = some t := by simpa [getRxReorderTbl, find?_cons, hu] using h
      obtain ⟨as, bs, rfl, hk, hset, hunlink⟩ := ih h'
      refine ⟨u :: as, bs, rfl, hk, fun t' => ?_, ?_⟩
      · rw [setRxReorderTbl, if_neg hu, hset, cons_append]
      · rw [unlinkRxReorderTbl] at hunlink ⊢
        rw [eraseP_cons_of_neg (by simpa using hu), hunlink, cons_append]

theorem getRxReorderTbl_none (h : getRxReorderTbl tables k = none) : k ∉ tables.map RxReorderTbl.key := by
  intro hk
  obtain ⟨t, ht, rfl⟩ := mem_map.mp hk
  have := find?_eq_none.mp h t ht
  simp at this

end

/-! ## Where tables come from -/

section Origin

variable {s s' : Station P} {k : Key} {t t' : RxReorderTbl P}

/-- A table behind a step drained or took a packet in that step, or was created by it. -/
inductive Origin (wide : ℕ → BitVec 64) (tables : List (RxReorderTbl P)) : RxReorderTbl P → Prop
  | drained {t t' : RxReorderTbl P} {l : List P} (ht : t ∈ tables) (hd : t.Drains l t') : Origin wide tables t'
  | created (ta : Mac) (tid winSize seq lastSeq : ℕ) : Origin wide tables (.create ta tid winSize seq lastSeq)
  | called {t : RxReorderTbl P} (ht : t ∈ tables) (hw : 2 ≤ t.winSize) (seq : Fin 4096) (ty : PktType)
      (payload : P) : Origin wide tables (t.rxReorderPkt wide seq ty payload).tbl

theorem mem_setRxReorderTbl {tables : List (RxReorderTbl P)} (ht : t ∈ setRxReorderTbl k t' tables) :
    t = t' ∨ t ∈ tables := by
  induction tables with
  | nil => simp [setRxReorderTbl] at ht
  | cons u us ih =>
    rw [setRxReorderTbl] at ht
    split_ifs at ht
    · exact (mem_cons.mp ht).imp_right (mem_cons_of_mem u)
    · rcases mem_cons.mp ht with rfl | ht
      · exact .inr mem_cons_self
      · exact (ih ht).imp_right (mem_cons_of_mem u)

theorem deleteTbl_subset (s : Station P) (k : Key) : (s.deleteTbl k).tables ⊆ s.tables := by
  unfold Station.deleteTbl
  split
  · exact fun _ h => h
  · exact fun _ h => mem_of_mem_eraseP h

theorem deleteTbls_subset (s : Station P) (ks : List Key) : (s.deleteTbls ks).tables ⊆ s.tables := by
  unfold Station.deleteTbls
  induction ks generalizing s with
  | nil => exact fun _ h => h
  | cons k ks ih => exact fun _ h => deleteTbl_subset s k (ih (s.deleteTbl k) h)

theorem origin_of_step (hwf : ∀ t ∈ s.tables, t.WellFormed) {a : Station.Act P} (h : s.step wide a = some s')
    (ht : t ∈ s'.tables) : Origin wide s.tables t := by
  have hold : ∀ {u : RxReorderTbl P}, u ∈ s.tables → Origin wide s.tables u := fun hu =>
    .drained hu (.refl (hwf _ hu))
  cases a with
  | pkt k seq ty payload =>
    obtain rfl := some.inj h
    simp only [Station.rxPkt] at ht
    rcases @Station.rxReorder_cases _ wide s.tables k seq ty payload with heq | ⟨u, hu, hw, heq⟩
    · rw [heq] at ht
      exact hold ht
    · rw [heq] at ht
      rcases mem_setRxReorderTbl ht with rfl | ht
      · exact .called (mem_of_find?_eq_some hu) hw seq ty payload
      · exact hold ht
  | timer k =>
    simp only [Station.step, Station.timerStep] at h
    split at h
    · exact absurd h (by simp)
    next u hu =>
    split_ifs at h
    obtain rfl := some.inj h
    have hu' := mem_of_find?_eq_some hu
    have hwf := hwf u hu'
    rcases mem_setRxReorderTbl ht with rfl | ht
    · refine .drained hu' (.of_eq { hwf with } rfl rfl rfl rfl rfl)
    · exact hold ht
  | flush =>
    obtain rfl := some.inj h
    obtain ⟨u, hu, rfl⟩ := mem_map.mp ht
    exact .drained hu (u.flushIfSet_drains (hwf u hu))
  | create k winSize seq lastSeq mem =>
    obtain rfl := some.inj h
    simp only [Station.createRxReorderTbl] at ht
    split_ifs at ht
    · exact hold ht
    · rcases mem_append.mp ht with ht | ht
      · exact hold (deleteTbl_subset { s with left := none } _ ht)
      · obtain rfl := mem_singleton.mp ht
        exact .created _ _ _ _ _
    · exact hold (deleteTbl_subset { s with left := none } _ ht)
  | addbaResp k ok amsdu =>
    obtain rfl := some.inj h
    simp only [Station.retAddbaResp] at ht
    split at ht
    · exact hold ht
    next u hu =>
    have hu' := mem_of_find?_eq_some hu
    have hwf := hwf u hu'
    split_ifs at ht
    · rcases mem_setRxReorderTbl ht with rfl | ht
      · refine .drained hu' (.of_eq { hwf with } rfl rfl rfl rfl rfl)
      · exact hold ht
    · exact hold (deleteTbl_subset { s with left := none } _ ht)
  | delba k =>
    obtain rfl := some.inj h
    exact hold (deleteTbl_subset { s with left := none } _ ht)
  | cleanup =>
    obtain rfl := some.inj h
    exact hold (deleteTbls_subset { s with left := none } _ ht)
  | cleanupSta ta =>
    obtain rfl := some.inj h
    exact hold (deleteTbls_subset { s with left := none } _ ht)
  | noDrop flag =>
    obtain rfl := some.inj h
    obtain ⟨u, hu, rfl⟩ := mem_map.mp ht
    have hwf := hwf u hu
    exact .drained hu (.of_eq { hwf with } rfl rfl rfl rfl rfl)

@[simp] theorem deleteTbl_left (s : Station P) (k : Key) : (s.deleteTbl k).left = s.left := by
  unfold Station.deleteTbl
  split <;> rfl

@[simp] theorem deleteTbls_left (s : Station P) (ks : List Key) : (s.deleteTbls ks).left = s.left := by
  unfold Station.deleteTbls
  induction ks generalizing s with
  | nil => rfl
  | cons k ks ih => rw [foldl_cons, ih, deleteTbl_left]

/-- A table is left only by a call that leaves through its window. -/
theorem left_of_step {a : Station.Act P} (h : s.step wide a = some s') (hleft : s'.left = some t') :
    ∃ t ∈ s.tables, 2 ≤ t.winSize ∧ ∃ (seq : Fin 4096) (ty : PktType) (payload : P),
      (t.rxReorderPkt wide seq ty payload).windowed = true ∧ t' = (t.rxReorderPkt wide seq ty payload).tbl := by
  cases a with
  | pkt k seq ty payload =>
    obtain rfl := some.inj h
    simp only [Station.rxPkt] at hleft
    rcases @Station.rxReorder_cases _ wide s.tables k seq ty payload with heq | ⟨u, hu, hw, heq⟩
    · simp [heq] at hleft
    · rw [heq] at hleft
      simp only [ite_none_right_eq_some, some.injEq] at hleft
      exact ⟨u, mem_of_find?_eq_some hu, hw, seq, ty, payload, hleft.1, hleft.2.symm⟩
  | timer k =>
    simp only [Station.step, Station.timerStep] at h
    split at h
    · exact absurd h (by simp)
    · split_ifs at h
      obtain rfl := some.inj h
      simp at hleft
  | flush =>
    obtain rfl := some.inj h
    simp [Station.flushPriv] at hleft
  | create k winSize seq lastSeq mem =>
    obtain rfl := some.inj h
    simp only [Station.createRxReorderTbl] at hleft
    split_ifs at hleft <;> simp at hleft
  | addbaResp k ok amsdu =>
    obtain rfl := some.inj h
    simp only [Station.retAddbaResp] at hleft
    split at hleft
    · simp at hleft
    · split_ifs at hleft
      simp at hleft
  | delba k =>
    obtain rfl := some.inj h
    simp at hleft
  | cleanup =>
    obtain rfl := some.inj h
    simp [Station.cleanup11nReorderTbl] at hleft
  | cleanupSta ta =>
    obtain rfl := some.inj h
    simp [Station.cleanupReorderTbl] at hleft
  | noDrop flag =>
    obtain rfl := some.inj h
    simp [Station.setNoDropFlag] at hleft

end Origin

/-! ## Conservation -/

section Conservation

variable [DecidableEq P] {s : Station P} {k : Key} {t t' : RxReorderTbl P}

/-- What a run keeps. -/
structure StationInv (s : Station P) : Prop where
  wf : ∀ t ∈ s.tables, t.WellFormed
  keys : (s.tables.map key).Nodup
  once : ∀ x, s.log.count x + (held s.tables).count x = s.accepted.count x
  freed : s.freed = []

namespace StationInv

section

variable (hi : StationInv s)

include hi

theorem wf_of_get (ht : getRxReorderTbl s.tables k = some t) : t.WellFormed :=
  hi.wf t (mem_of_find?_eq_some ht)

/-- A table changes, `l` is handed on and `m` is taken. -/
theorem set (ht : getRxReorderTbl s.tables k = some t) (hwf : t'.WellFormed)
    (hkey : t'.key = t.key) {l m : List P}
    (hperm : (l ++ t'.rxReorderPtr.contents t'.winSize).Perm (t.rxReorderPtr.contents t.winSize ++ m))
    {s' : Station P} (htables : s'.tables = setRxReorderTbl k t' s.tables)
    (hlog : s'.log = s.log ++ l.map (k, ·)) (hacc : s'.accepted = s.accepted ++ m.map (k, ·))
    (hfreed : s'.freed = s.freed) : StationInv s' := by
  obtain ⟨as, bs, heq, hk, hset, -⟩ := getRxReorderTbl_split ht
  rw [hset] at htables
  refine ⟨?_, ?_, ?_, hfreed.trans hi.freed⟩
  · rw [htables]
    intro u hu
    rcases mem_append.mp hu with hu | hu
    · exact hi.wf u (by simp [heq, hu])
    · rcases mem_cons.mp hu with rfl | hu
      · exact hwf
      · exact hi.wf u (by simp [heq, hu])
  · have hkeys := hi.keys
    rw [heq] at hkeys
    rw [htables]
    simpa [hkey] using hkeys
  · intro x
    have hcount := (hperm.map (k, ·)).count_eq x
    have honce := hi.once x
    simp only [map_append, count_append] at hcount
    simp only [heq, held_append, held_cons, count_append, hk] at honce
    simp only [hlog, hacc, htables, held_append, held_cons, hkey, hk, count_append]
    omega

theorem deleteTbl (k : Key) :
    StationInv (s.deleteTbl k) ∧ k ∉ (s.deleteTbl k).tables.map key := by
  unfold Station.deleteTbl
  cases ht : getRxReorderTbl s.tables k with
  | none => exact ⟨hi, getRxReorderTbl_none ht⟩
  | some t =>
    obtain ⟨as, bs, heq, hk, -, hunlink⟩ := getRxReorderTbl_split ht
    obtain ⟨hout, hslots⟩ := deleteRxReorderTblEntry_spec (hi.wf_of_get ht)
    have hkeys := hi.keys
    rw [heq, map_append, map_cons, nodup_append_comm, cons_append, nodup_cons,
      nodup_append_comm, hk] at hkeys
    dsimp only
    rw [hunlink, hout, hslots]
    refine ⟨⟨?_, ?_, ?_, by simp [hi.freed]⟩, ?_⟩
    · intro u hu
      refine hi.wf u ?_
      rw [heq]
      exact (sublist_cons_self t bs).append_left as |>.subset hu
    · simpa using hkeys.2
    · intro x
      have honce := hi.once x
      simp only [heq, held_append, held_cons, count_append, hk] at honce
      simp only [held_append, count_append]
      omega
    · have := hkeys.1
      simp only [mem_append] at this
      simp only [map_append, mem_append]
      tauto

theorem deleteTbls (ks : List Key) : StationInv (s.deleteTbls ks) := by
  unfold Station.deleteTbls
  induction ks generalizing s with
  | nil => exact hi
  | cons k ks ih => exact ih (hi.deleteTbl k).1

/-- A change that no table's slots and no list of payloads sees. -/
theorem setFlags (ht : getRxReorderTbl s.tables k = some t) (hd : t.Drains [] t')
    {s' : Station P} (htables : s'.tables = setRxReorderTbl k t' s.tables) (hlog : s'.log = s.log)
    (hacc : s'.accepted = s.accepted) (hfreed : s'.freed = s.freed) : StationInv s' := by
  refine hi.set ht hd.wf (Prod.ext hd.ta hd.tid) (l := []) (m := []) ?_ htables ?_ ?_ hfreed
  · rw [hd.contents_eq (hi.wf_of_get ht), append_nil]
  · simpa using hlog
  · simpa using hacc

theorem rxPkt (k : Key) {seq : ℕ} (hseq : seq < 4096) (ty : PktType) (payload : P) :
    StationInv (s.rxPkt wide k seq ty payload) := by
  rcases @Station.rxReorder_cases _ wide s.tables k seq ty payload with heq | ⟨t, ht, hw, heq⟩
  · -- a packet that finds no window goes straight on
    refine ⟨?_, ?_, fun x => ?_, hi.freed⟩
    · simpa [Station.rxPkt, heq] using hi.wf
    · simpa [Station.rxPkt, heq] using hi.keys
    · have honce := hi.once x
      by_cases hbar : ty = .bar
      · subst hbar
        simpa [Station.rxPkt, heq] using honce
      · simp only [Station.rxPkt, heq, hbar, if_false, ne_eq, not_false_eq_true, and_self, if_true,
          map_cons, map_nil, count_append]
        omega
  · have hwf := hi.wf_of_get ht
    have hcase := @RxReorderTbl.rxReorderPkt_cases _ _ wide _ hwf hw hseq ty payload
    obtain ⟨hwf', hta, htid, -⟩ := hcase.keeps
    refine hi.set ht hwf' (Prod.ext hta htid) (hcase.perm hwf) ?_ ?_ ?_ rfl
    · simp only [Station.rxPkt, heq]
    · simp only [Station.rxPkt, heq]
    · simp only [Station.rxPkt, heq]
      split_ifs <;> simp

theorem timerStep {s' : Station P} (h : s.timerStep k = some s') : StationInv s' := by
  unfold Station.timerStep at h
  split at h
  · exact absurd h (by simp)
  next t ht =>
  split_ifs at h
  obtain rfl := some.inj h
  have hwf := hi.wf_of_get ht
  refine hi.setFlags ht ?_ rfl rfl rfl rfl
  exact .of_eq { hwf with } rfl rfl rfl rfl rfl

theorem retAddbaResp (k : Key) (ok amsdu : Bool) : StationInv (s.retAddbaResp k ok amsdu) := by
  unfold Station.retAddbaResp
  split
  · exact hi
  next t ht =>
  have hwf := hi.wf_of_get ht
  split_ifs
  · refine hi.setFlags ht ?_ rfl rfl rfl rfl
    exact .of_eq { hwf with } rfl rfl rfl rfl rfl
  · exact (hi.deleteTbl k).1

theorem mapTables {f : RxReorderTbl P → List P × RxReorderTbl P}
    (hf : ∀ t : RxReorderTbl P, t.WellFormed → t.Drains (f t).1 (f t).2) {s' : Station P}
    (htables : s'.tables = s.tables.map fun t => (f t).2)
    (hlog : s'.log = s.log ++ s.tables.flatMap fun t => (f t).1.map (t.key, ·))
    (hacc : s'.accepted = s.accepted) (hfreed : s'.freed = s.freed) : StationInv s' := by
  have hkey : ∀ t ∈ s.tables, (f t).2.key = t.key := fun t ht =>
    Prod.ext (hf t (hi.wf t ht)).ta (hf t (hi.wf t ht)).tid
  have hcount : ∀ (ts : List (RxReorderTbl P)), (∀ t ∈ ts, t.WellFormed) → ∀ x,
      (ts.flatMap fun t => (f t).1.map (t.key, ·)).count x + (held (ts.map fun t => (f t).2)).count x =
        (held ts).count x := by
    intro ts hts x
    induction ts with
    | nil => simp
    | cons t ts ih =>
      have hwf := hts t mem_cons_self
      have hk : (f t).2.key = t.key := Prod.ext (hf t hwf).ta (hf t hwf).tid
      have ih := ih fun u hu => hts u (mem_cons_of_mem t hu)
      simp only [flatMap_cons, map_cons, held_cons, count_append, hk,
        (hf t hwf).contents_eq hwf, map_append]
      omega
  refine ⟨?_, ?_, fun x => ?_, hfreed.trans hi.freed⟩
  · rw [htables]
    intro u hu
    obtain ⟨t, ht, rfl⟩ := mem_map.mp hu
    exact (hf t (hi.wf t ht)).wf
  · have hkeys : s.tables.map (key ∘ fun t => (f t).2) = s.tables.map key :=
      map_congr_left hkey
    rw [htables, map_map, hkeys]
    exact hi.keys
  · rw [htables, hlog, hacc, count_append, ← hi.once x, ← hcount s.tables hi.wf x]
    omega

theorem createRxReorderTbl (k : Key) {winSize seq lastSeq : ℕ} (hwin : winSize ≤ 1024)
    (hseq : seq < 4096) (hlast : lastSeq < 4096 ∨ lastSeq = defaultSeqNum) (mem : Bool) :
    StationInv (s.createRxReorderTbl k winSize seq lastSeq mem) := by
  unfold Station.createRxReorderTbl
  obtain ⟨hd, hfresh⟩ := hi.deleteTbl k
  dsimp only
  split_ifs
  · exact hi
  · have hheld : held [create (P := P) k.1 k.2 winSize seq lastSeq] = [] := by
      rw [held_cons, held_nil, append_nil]
      exact map_eq_nil_iff.mpr (SlotArray.contents_eq_nil fun _ _ => rfl)
    refine ⟨?_, ?_, fun x => ?_, hd.freed⟩
    · intro u hu
      rcases mem_append.mp hu with hu | hu
      · exact hd.wf u hu
      · obtain rfl := mem_singleton.mp hu
        exact ⟨hwin, hseq.le, hlast, fun _ _ => rfl⟩
    · rw [map_append, nodup_append_comm]
      exact nodup_cons.mpr ⟨hfresh, hd.keys⟩
    · rw [held_append, hheld, append_nil]
      exact hd.once x
  · exact hd

theorem step {a : Station.Act P} {s' : Station P} (h : s.step wide a = some s') :
    StationInv s' := by
  have hi' : StationInv { s with left := none } := { hi with }
  cases a with
  | pkt k seq ty payload =>
    obtain rfl := some.inj h
    exact hi.rxPkt k seq.isLt ty payload
  | timer k => exact hi'.timerStep h
  | flush =>
    obtain rfl := some.inj h
    exact hi'.mapTables (fun t ht => t.flushIfSet_drains ht) rfl rfl rfl rfl
  | create k winSize seq lastSeq mem =>
    obtain rfl := some.inj h
    refine hi'.createRxReorderTbl k (Nat.lt_succ_iff.mp winSize.isLt) seq.isLt ?_ mem
    cases lastSeq with
    | none => exact .inr rfl
    | some n => exact .inl n.isLt
  | addbaResp k ok amsdu =>
    obtain rfl := some.inj h
    exact hi'.retAddbaResp k ok amsdu
  | delba k =>
    obtain rfl := some.inj h
    exact (hi'.deleteTbl k).1
  | cleanup =>
    obtain rfl := some.inj h
    exact hi'.deleteTbls _
  | cleanupSta ta =>
    obtain rfl := some.inj h
    exact hi'.deleteTbls _
  | noDrop flag =>
    obtain rfl := some.inj h
    refine hi'.mapTables (f := fun t => ([], { t with forceNoDrop := flag })) (fun t ht => ?_) rfl ?_ rfl rfl
    · exact .of_eq { ht with } rfl rfl rfl rfl rfl
    · simp [Station.setNoDropFlag]

end

theorem of_reachable (h : (stationSystem wide).Reachable s) : StationInv s :=
  System.Reachable.invariant (fun s hs => by
    subst hs
    exact ⟨by simp [emptyStation], nodup_nil, by simp [emptyStation], rfl⟩)
    (fun _ _ _ hi h => hi.step h) h

end StationInv

/-- Every payload that a call took is in exactly one slot of its table or was handed on exactly once; one
that was left to the caller is neither; there is one table for a key; and no freed slot held anything. -/
structure Conserved (s : Station P) : Prop where
  once : ∀ x, s.log.count x + (held s.tables).count x = s.accepted.count x
  returned : ∀ x ∈ s.returned, x ∉ s.accepted → x ∉ s.log ∧ x ∉ held s.tables
  keys : (s.tables.map key).Nodup
  freed : s.freed = []

/-- **Conservation of payloads**, in every run over any tables. -/
theorem payloads_conserved (h : (stationSystem wide).Reachable s) : Conserved s := by
  have hi := StationInv.of_reachable h
  refine ⟨hi.once, fun x _ hx => ?_, hi.keys, hi.freed⟩
  have honce := hi.once x
  rw [count_eq_zero_of_not_mem hx] at honce
  exact ⟨count_eq_zero.mp (by omega), count_eq_zero.mp (by omega)⟩

end Conservation

/-- The address of the examples. -/
def someMac : Mac := ⟨2, 0, 0, 0, 0, 1⟩

/-- A stream with a gap : sequence numbers 0 and 2 of a window of four. -/
def gapRun : List (Station.Act ℕ) :=
  [.create (someMac, 0) 4 0 none true, .pkt (someMac, 0) 0 .data 7, .pkt (someMac, 0) 2 .data 9]

theorem payloads_conserved_gap :
    ∃ s : Station ℕ, (stationSystem maskedShl).Reachable s ∧
      s.log = [((someMac, 0), 7)] ∧ held s.tables = [((someMac, 0), 9)] ∧ Conserved s := by
  obtain ⟨s, hs, hrun⟩ := System.exists_reachable_of_run (M := stationSystem maskedShl)
    (P := fun s => s.log = [((someMac, 0), 7)] ∧ held s.tables = [((someMac, 0), 9)])
    (l := gapRun) (s := emptyStation) rfl (by decide +kernel)
  simp only [decide_eq_true_eq] at hrun
  exact ⟨s, hs, hrun.1, hrun.2, payloads_conserved hs⟩

/-- A block ack request succeeds, and its payload is neither stored nor handed on. -/
theorem bar_payload_not_kept :
    ¬∀ s : Station ℕ, (stationSystem maskedShl).Reachable s → ∀ (k : Key) (seq : Fin 4096) (ty : PktType)
      (payload : ℕ), (Station.rxReorder maskedShl s.tables k seq ty payload).1 = .success →
        (k, payload) ∈ (s.rxPkt maskedShl k seq ty payload).log ∨
          (k, payload) ∈ held (s.rxPkt maskedShl k seq ty payload).tables := by
  intro h
  have hbar := h emptyStation (.init rfl) (someMac, 0) 0 .bar 5 (by decide)
  revert hbar
  decide

end WlanDriver.Reorder
