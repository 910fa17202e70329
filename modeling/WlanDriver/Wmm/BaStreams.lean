import WlanDriver.Lib.Keyed
import WlanDriver.Wmm.BaBackoff

/-!
# Block-ack streams and the RA lists

A block-ack session is kept twice : `tx_ba_stream_tbl_ptr` has an entry for the RA and the TID, and the RA list that the
TID is mapped to (`wlan_get_wmm_tid_down`) has its status, and whether AMSDUs go into it. `wlan_dequeue_tx_packet` makes
entries, the responses to ADDBA and DELBA and a DELBA of the peer change or delete them, and two clean-ups empty the
table.

`streams_coherent` : the two agree after every operation, in runs whose steps are `Clean`. Where they part : the
clean-ups leave the RA lists as they are; a failure response to an ADDBA resets the RA list before it looks for the
entry, which may belong to another TID by then; and a stream that is torn down for another one keeps `amsdu_in_ampdu`.
-/

set_option linter.unusedSectionVars false

namespace WlanDriver.Wmm

open List
open Option hiding map_map

/-- `TxBAStreamTbl`. -/
structure TxBaStream (M : Type*) where
  tid : ℕ
  ra : M
  baStatus : BaStatus
  amsdu : Bool
  deriving DecidableEq

/-- The part of `raListTbl` that follows the streams. -/
structure PeerList (M : Type*) where
  ra : M
  baStatus : BaStatus
  amsduInAmpdu : Bool
  deriving DecidableEq

/-- What an entry is searched by. -/
def TxBaStream.key {M : Type*} (e : TxBaStream M) : M × ℕ :=
  (e.ra, e.tid)

def TxBaStream.setStatus {M : Type*} (st : BaStatus) (e : TxBaStream M) : TxBaStream M :=
  { e with baStatus := st }

/-- The response has completed the stream. -/
def TxBaStream.complete {M : Type*} (amsdu : Bool) (e : TxBaStream M) : TxBaStream M :=
  { e with baStatus := .setupComplete, amsdu := amsdu }

def PeerList.set {M : Type*} (st : BaStatus) (amsdu : Bool) (l : PeerList M) : PeerList M :=
  { l with baStatus := st, amsduInAmpdu := amsdu }

/-- The table, and the RA lists of each TID. -/
structure BaTables (M : Type*) where
  streams : List (TxBaStream M)
  raLists : ℕ → List (PeerList M)

namespace BaTables

variable {M : Type*} [DecidableEq M]

/-- What a dequeue meets. -/
structure SetupEnv where
  /-- The list may get a stream, as far as it is not its status that says so. -/
  maySetup : Bool
  /-- `wlan_is_bastream_avail`. -/
  avail : Bool
  /-- There is memory for the entry. -/
  allocated : Bool
  /-- `aggr_prio_tbl[tid].ampdu_user`. -/
  ampduUser : ℕ → ℕ

/-- The steps. -/
inductive Op (M : Type*)
  /-- A packet with a TID is taken from the RA list of a row. -/
  | dequeueTxPacket (row : ℕ) (ra : M) (tid : ℕ) (e : SetupEnv)
  /-- The response to an ADDBA : its status, and whether AMSDUs are agreed on. -/
  | retAddbaReq (tid : ℕ) (ra : M) (success amsdu : Bool)
  | retDelba (tid : ℕ) (ra : M) (success initiator : Bool)
  /-- `mlan_11n_delete_bastream_tbl`, for a DELBA that is received or sent. -/
  | deleteBastream (received : Bool) (tid : ℕ) (ra : M) (initiator : Bool)
  | cleanupTxbastream (ra : M)
  | deleteallTxbastream

variable (down : ℕ → ℕ) (s : BaTables M)

/-- `wlan_wmm_get_ralist_node`. -/
def getRalistNode (row : ℕ) (ra : M) : Option (PeerList M) :=
  Keyed.look PeerList.ra ra (s.raLists row)

/-- The RA list, if there is one, is set. -/
def setRalist (row : ℕ) (ra : M) (st : BaStatus) (amsdu : Bool) : BaTables M :=
  { s with raLists := Function.update s.raLists row (Keyed.modify PeerList.ra ra (.set st amsdu) (s.raLists row)) }

/-- `wlan_11n_get_txbastream_tbl`. -/
def getTxbastreamTbl (tid : ℕ) (ra : M) : Option (TxBaStream M) :=
  Keyed.look TxBaStream.key (ra, tid) s.streams

/-- `wlan_11n_set_txbastream_status`. -/
def setTxbastreamStatus (tid : ℕ) (ra : M) (st : BaStatus) : BaTables M :=
  { s with streams := Keyed.modify TxBaStream.key (ra, tid) (.setStatus st) s.streams }

/-- `wlan_11n_get_txbastream_status`. -/
def getTxbastreamStatus (st : BaStatus) : Option (TxBaStream M) :=
  s.streams.find? fun e => e.baStatus = st

/-- `wlan_11n_create_txbastream_tbl`; the memory of an entry is cleared. -/
def createTxbastreamTbl (tid : ℕ) (ra : M) (st : BaStatus) (allocated : Bool) : BaTables M :=
  if allocated then
    { s.setRalist (down tid) ra st false with streams := s.streams ++ [⟨tid, ra, st, false⟩] }
  else s

def findStreamToDelete (ampduUser : ℕ → ℕ) (ptrTid : ℕ) : Option (ℕ × M) :=
  (s.streams.foldl (fun (acc : ℕ × Option (ℕ × M)) e =>
    if e.baStatus = .setupComplete ∧ ampduUser e.tid < acc.1 then (ampduUser e.tid, some (e.tid, e.ra)) else acc)
    (ampduUser ptrTid, none)).2

/-- The set-up in `wlan_dequeue_tx_packet`. -/
def setupBa (tid : ℕ) (ra : M) (e : SetupEnv) : BaTables M :=
  if e.avail then
    if (s.getTxbastreamTbl tid ra).isSome then s else s.createTxbastreamTbl down tid ra .setupSentAddba e.allocated
  else
    match s.findStreamToDelete e.ampduUser tid with
    | none => s
    | some (tidDel, raDel) =>
      if (s.getTxbastreamTbl tid ra).isSome then s
      else (s.createTxbastreamTbl down tid ra .setupInProgress e.allocated).setTxbastreamStatus tidDel raDel .sentDelba

/-- `wlan_dequeue_tx_packet`. The packet lies in the row that its TID is mapped to. -/
def dequeueTxPacket (row : ℕ) (ra : M) (tid : ℕ) (e : SetupEnv) : Option (BaTables M) :=
  match s.getRalistNode row ra with
  | none => none
  | some l =>
    if down tid = row ∧ tid < 8 then
      some (if l.baStatus = .notSetup ∧ e.maySetup then s.setupBa down tid ra e else s)
    else none

/-- The transmit side of `mlan_11n_delete_bastream_tbl`. -/
def deleteStream (tid : ℕ) (ra : M) : BaTables M :=
  if (s.getTxbastreamTbl tid ra).isSome then
    let s : BaTables M := { s with streams := Keyed.erase TxBaStream.key (ra, tid) s.streams }
    s.setRalist (down tid) ra .notSetup false
  else s

/-- `mlan_11n_delete_bastream_tbl`. -/
def deleteBastreamTbl (received : Bool) (tid : ℕ) (ra : M) (initiator : Bool) : BaTables M :=
  let cleanupRxReorderTbl := if received then initiator else !initiator
  if cleanupRxReorderTbl then s else s.deleteStream down tid ra

/-- `wlan_ret_11n_addba_req`. -/
def retAddbaReq (tid : ℕ) (ra : M) (success amsdu : Bool) : BaTables M :=
  if success then
    if (s.getTxbastreamTbl tid ra).isSome then
      let s : BaTables M := { s with streams := Keyed.modify TxBaStream.key (ra, tid) (.complete amsdu) s.streams }
      s.setRalist (down tid) ra .setupComplete amsdu
    else s
  else (s.setRalist (down tid) ra .notSetup false).deleteBastreamTbl down false tid ra true

/-- `wlan_ret_11n_delba`. -/
def retDelba (tid : ℕ) (ra : M) (success initiator : Bool) : BaTables M :=
  if success then
    let s := s.deleteBastreamTbl down false tid ra initiator
    { s with
      streams := replaceFirst (fun e => e.baStatus = .setupInProgress) (.setStatus .setupSentAddba) s.streams }
  else if initiator then
    let s := s.setTxbastreamStatus tid ra .setupComplete
    match s.getTxbastreamStatus .setupInProgress with
    | none => s
    | some e => s.deleteBastreamTbl down false e.tid e.ra true
  else s

/-- `wlan_11n_cleanup_txbastream_tbl`. -/
def cleanupTxbastreamTbl (ra : M) : BaTables M :=
  { s with streams := (List.range 8).foldl (fun l i => Keyed.erase TxBaStream.key (ra, i) l) s.streams }

/-- `wlan_11n_deleteall_txbastream_tbl`. -/
def deleteallTxbastreamTbl : BaTables M :=
  { s with streams := [] }

/-- One step. -/
def step : Op M → Option (BaTables M)
  | .dequeueTxPacket row ra tid e => s.dequeueTxPacket down row ra tid e
  | .retAddbaReq tid ra success amsdu => some (s.retAddbaReq down tid ra success amsdu)
  | .retDelba tid ra success initiator => some (s.retDelba down tid ra success initiator)
  | .deleteBastream received tid ra initiator => some (s.deleteBastreamTbl down received tid ra initiator)
  | .cleanupTxbastream ra => some (s.cleanupTxbastreamTbl ra)
  | .deleteallTxbastream => some s.deleteallTxbastreamTbl

/-- No stream is set up. -/
def Init : Prop :=
  s.streams = [] ∧ ∀ row, ∀ l ∈ s.raLists row, l.baStatus = .notSetup ∧ l.amsduInAmpdu = false

/-- The runs of the block-ack streams. -/
def baSystem : System (BaTables M) (Op M) where
  init := Init
  step := step down

/-- The table and the RA lists agree. -/
structure Coherent : Prop where
  once : Keyed.Distinct TxBaStream.key s.streams
  status : ∀ tid ra l, s.getRalistNode (down tid) ra = some l →
    (l.baStatus = .notSetup ↔ ∀ e ∈ s.streams, e.ra = ra → down e.tid ≠ down tid)
  amsdu : ∀ tid ra l, s.getRalistNode (down tid) ra = some l → l.amsduInAmpdu →
    ∃ e ∈ s.streams, e.ra = ra ∧ down e.tid = down tid ∧ e.baStatus = .setupComplete ∧ e.amsdu

/-- The entry has an RA list. -/
def Listed (e : TxBaStream M) : Prop :=
  (s.getRalistNode (down e.tid) e.ra).isSome

/-- Whether a step can be taken without the table and the RA lists parting. -/
def Op.Clean : Op M → Prop
  | .dequeueTxPacket row ra tid e =>
    (∃ l ∈ s.getRalistNode row ra, l.baStatus = .notSetup) → e.maySetup → e.avail = false →
      ∀ d ∈ s.findStreamToDelete e.ampduUser tid, ∀ l ∈ s.getRalistNode (down d.1) d.2, l.amsduInAmpdu = false
  | .retAddbaReq tid ra success _ =>
    success ∨ s.getRalistNode (down tid) ra = none ∨
      ∀ e ∈ s.streams, e.ra = ra → down e.tid = down tid → e.tid = tid
  | .cleanupTxbastream ra => ∀ e ∈ s.streams, e.ra = ra → ¬s.Listed down e
  | .deleteallTxbastream => ∀ e ∈ s.streams, ¬s.Listed down e
  | _ => True

instance (e : TxBaStream M) : Decidable (s.Listed down e) :=
  inferInstanceAs (Decidable ((s.getRalistNode (down e.tid) e.ra).isSome))

instance (op : Op M) : Decidable (op.Clean down s) := by
  cases op <;> unfold Op.Clean <;> infer_instance

/-! ## A second key -/

variable {down s} {s' : BaTables M} {row tid : ℕ} {ra : M} {k : M × ℕ} {st : BaStatus} {amsdu : Bool}
  {e : TxBaStream M} {op : Op M}

/-- The RA list that an entry goes with, by its RA and its row. -/
def rowKey (down : ℕ → ℕ) (e : TxBaStream M) : M × ℕ :=
  (e.ra, down e.tid)

variable (down s) in
/-- The entry that goes with an RA list. -/
def slot (k : M × ℕ) : Option (TxBaStream M) :=
  Keyed.look (rowKey down) k s.streams

/-- An RA list, if there is one, agrees with its entry. -/
def Agree (o : Option (TxBaStream M)) (l : Option (PeerList M)) : Prop :=
  ∀ x ∈ l, (x.baStatus = .notSetup ↔ o = none) ∧
    (x.amsduInAmpdu → ∃ e ∈ o, e.baStatus = .setupComplete ∧ e.amsdu)

variable (down s) in
/-- What holds along a run : an RA list has one entry at most, whatever its TID is. -/
structure Inv : Prop where
  one : Keyed.Distinct (rowKey down) s.streams
  tid_lt : ∀ e ∈ s.streams, e.tid < 8
  agree : ∀ k, Agree (s.slot down k) (s.getRalistNode k.2 k.1)

theorem getRalistNode_setRalist (s : BaTables M) (row : ℕ) (ra : M) (st : BaStatus) (amsdu : Bool) (k : M × ℕ) :
    (s.setRalist row ra st amsdu).getRalistNode k.2 k.1 =
      if k = (ra, row) then (s.getRalistNode row ra).map (.set st amsdu) else s.getRalistNode k.2 k.1 := by
  obtain ⟨ra', row'⟩ := k
  unfold getRalistNode setRalist
  dsimp only
  by_cases hrow : row' = row
  · subst hrow
    rw [Function.update_self, Keyed.look_modify (g := PeerList.set st amsdu) fun _ => rfl]
    simp
  · rw [Function.update_of_ne hrow, if_neg fun h => hrow (Prod.mk.inj h).2]

theorem get_spec (he : s.getTxbastreamTbl tid ra = some e) : e ∈ s.streams ∧ e.ra = ra ∧ e.tid = tid :=
  have hkey : e.key = (ra, tid) := Keyed.key_of_look he
  ⟨Keyed.mem_of_look he, Prod.mk.inj hkey⟩

theorem key_of_rowKey {l : List (TxBaStream M)} (h : Keyed.Distinct (rowKey down) l) :
    Keyed.Distinct TxBaStream.key l := by
  refine List.Nodup.of_map (fun k : M × ℕ => (k.1, down k.2)) ?_
  rw [map_map]
  exact h

theorem setRalist_of_none (hnone : s.getRalistNode row ra = none) : s.setRalist row ra st amsdu = s := by
  have hsame : Keyed.modify PeerList.ra ra (.set st amsdu) (s.raLists row) = s.raLists row := replaceFirst_of_none hnone
  unfold setRalist
  rw [hsame, Function.update_eq_self]

/-- An entry that is found by RA and TID is the entry of its RA list. -/
theorem Inv.slot_of_get (h : s.Inv down) (he : s.getTxbastreamTbl tid ra = some e) :
    s.slot down (ra, down tid) = some e := by
  obtain ⟨hmem, rfl, rfl⟩ := get_spec he
  exact Keyed.look_of_mem h.one hmem

/-- The entry of an RA list is found by its RA and its TID. -/
theorem Inv.get_of_mem (h : s.Inv down) (he : e ∈ s.streams) : s.getTxbastreamTbl e.tid e.ra = some e :=
  Keyed.look_of_mem (key_of_rowKey h.one) he

theorem Inv.edit (h : s.Inv down) (k : M × ℕ) (hone : Keyed.Distinct (rowKey down) s'.streams)
    (htid : ∀ e ∈ s'.streams, e.tid < 8)
    (hslot : ∀ k', k' ≠ k → s'.slot down k' = s.slot down k')
    (hlist : ∀ k', k' ≠ k → s'.getRalistNode k'.2 k'.1 = s.getRalistNode k'.2 k'.1)
    (hk : Agree (s'.slot down k) (s'.getRalistNode k.2 k.1)) : s'.Inv down := by
  refine ⟨hone, htid, fun k' => ?_⟩
  by_cases hne : k' = k
  · exact hne ▸ hk
  · rw [hslot k' hne, hlist k' hne]
    exact h.agree k'

theorem Agree.set {o : Option (TxBaStream M)} {l : Option (PeerList M)} (hst : st = .notSetup ↔ o = none)
    (hamsdu : amsdu → ∃ e ∈ o, e.baStatus = .setupComplete ∧ e.amsdu) : Agree o (l.map (.set st amsdu)) := by
  intro x hx
  obtain ⟨y, -, rfl⟩ := map_eq_some_iff.mp hx
  exact ⟨hst, hamsdu⟩

/-! ## The operations -/

namespace Inv

variable (h : s.Inv down)

include h

/-- The entry of a TID is taken out, and its RA list reset. -/
theorem erase (tid : ℕ) (hstreams : s'.streams = Keyed.erase TxBaStream.key (ra, tid) s.streams)
    (hlist : ∀ k, s'.getRalistNode k.2 k.1 = if k = (ra, down tid) then
      (s.getRalistNode (down tid) ra).map (.set .notSetup false) else s.getRalistNode k.2 k.1)
    (hsame : ∀ e ∈ s.slot down (ra, down tid), e.tid = tid) : s'.Inv down := by
  have herase : s'.streams = Keyed.erase (rowKey down) (ra, down tid) s.streams := by
    rw [hstreams]
    cases he : s.getTxbastreamTbl tid ra with
    | some e => exact Keyed.erase_eq_erase he (h.slot_of_get he)
    | none =>
      rw [Keyed.erase_of_look_none he, Keyed.erase_of_look_none]
      refine Keyed.look_eq_none.mpr fun e hmem heq => ?_
      obtain ⟨rfl, hdown⟩ := Prod.mk.inj heq
      have htid := hsame e (heq ▸ Keyed.look_of_mem h.one hmem)
      rw [← htid, h.get_of_mem hmem] at he
      exact some_ne_none e he
  have hslot : ∀ k, s'.slot down k = if k = (ra, down tid) then none else s.slot down k := fun k => by
    unfold slot
    rw [herase]
    exact Keyed.look_erase h.one
  refine h.edit (ra, down tid) (herase ▸ h.one.erase)
    (fun e he => h.tid_lt e (mem_of_mem_eraseP (herase ▸ he))) (fun k hk => by rw [hslot, if_neg hk])
    (fun k hk => by rw [hlist, if_neg hk]) ?_
  rw [hslot, if_pos rfl, hlist (ra, down tid), if_pos rfl]
  exact .set (by simp) (by simp)

theorem deleteStream (tid : ℕ) (ra : M) : (s.deleteStream down tid ra).Inv down := by
  unfold BaTables.deleteStream
  cases he : s.getTxbastreamTbl tid ra with
  | none => exact h
  | some e =>
    refine h.erase tid rfl (getRalistNode_setRalist _ _ _ _ _) fun x hx => ?_
    rw [h.slot_of_get he] at hx
    exact some.inj hx ▸ (get_spec he).2.2

/-- The entry of an RA list is changed, and perhaps the list. -/
theorem modify {g : TxBaStream M → TxBaStream M} (hg : ∀ e, (g e).ra = e.ra ∧ (g e).tid = e.tid)
    (hstreams : s'.streams = Keyed.modify (rowKey down) k g s.streams)
    (hlist : ∀ k', k' ≠ k → s'.getRalistNode k'.2 k'.1 = s.getRalistNode k'.2 k'.1)
    (hk : Agree ((s.slot down k).map g) (s'.getRalistNode k.2 k.1)) : s'.Inv down := by
  have hkey : ∀ e, rowKey down (g e) = rowKey down e := fun e => by rw [rowKey, rowKey, (hg e).1, (hg e).2]
  have hslot : ∀ k', s'.slot down k' = if k' = k then (s.slot down k).map g else s.slot down k' := fun k' => by
    unfold slot
    rw [hstreams]
    exact Keyed.look_modify hkey
  refine h.edit k (hstreams ▸ h.one.modify hkey) (fun e he => ?_) (fun k' hne => by rw [hslot, if_neg hne]) hlist ?_
  · rcases Keyed.mem_modify (hstreams ▸ he) with he | ⟨b, hb, -, rfl⟩
    · exact h.tid_lt e he
    · exact (hg b).2 ▸ h.tid_lt b hb
  · rw [hslot, if_pos rfl]
    exact hk

/-- The status of an entry is changed, where no AMSDUs go into its list, or to one of a complete stream. -/
theorem setStatus (tid : ℕ) (ra : M)
    (hst : st = .setupComplete ∨ ∀ x ∈ s.getRalistNode (down tid) ra, x.amsduInAmpdu = false) :
    (s.setTxbastreamStatus tid ra st).Inv down := by
  cases he : s.getTxbastreamTbl tid ra with
  | none =>
    have hsame : Keyed.modify TxBaStream.key (ra, tid) (.setStatus st) s.streams = s.streams := replaceFirst_of_none he
    unfold setTxbastreamStatus
    exact hsame.symm ▸ h
  | some e =>
    have hslot := h.slot_of_get he
    refine h.modify (g := .setStatus st) (fun e => ⟨rfl, rfl⟩) (Keyed.modify_eq_modify he hslot) (fun _ _ => rfl)
      fun x hx => ?_
    obtain ⟨hiff, hamsdu⟩ := h.agree _ x hx
    rw [hslot] at hiff hamsdu ⊢
    refine ⟨by simpa using hiff, fun ha => ?_⟩
    rcases hst with rfl | hno
    · obtain ⟨y, hy, -, hy'⟩ := hamsdu ha
      obtain rfl := some.inj hy
      exact ⟨_, rfl, rfl, hy'⟩
    · simp [hno x hx] at ha

/-- The first stream that waits for a DELBA is requested. -/
theorem request : Inv down { s with
    streams := replaceFirst (fun e => e.baStatus = .setupInProgress) (.setStatus .setupSentAddba) s.streams } := by
  cases he : s.getTxbastreamStatus .setupInProgress with
  | none =>
    rw [replaceFirst_of_none he]
    exact h
  | some e =>
    have hslot : s.slot down (rowKey down e) = some e := Keyed.look_of_mem h.one (mem_of_find?_eq_some he)
    have hstatus : e.baStatus = .setupInProgress := by simpa using find?_some he
    refine h.modify (k := rowKey down e) (g := .setStatus .setupSentAddba) (fun e => ⟨rfl, rfl⟩)
      (replaceFirst_congr he hslot) (fun _ _ => rfl) fun x hx => ?_
    obtain ⟨hiff, hamsdu⟩ := h.agree _ x hx
    rw [hslot] at hiff hamsdu ⊢
    refine ⟨by simpa using hiff, fun ha => ?_⟩
    obtain ⟨y, hy, hcomplete, -⟩ := hamsdu ha
    rw [← some.inj hy, hstatus] at hcomplete
    exact absurd hcomplete (by decide)

/-- An entry is created where its RA list has none. -/
theorem create (st : BaStatus) (b : Bool) (htid : tid < 8) (hst : st ≠ .notSetup)
    (hnone : s.slot down (ra, down tid) = none) : (s.createTxbastreamTbl down tid ra st b).Inv down := by
  unfold createTxbastreamTbl
  split_ifs
  · have hslot : ∀ k, Keyed.look (rowKey down) k (s.streams ++ [⟨tid, ra, st, false⟩]) =
        if (ra, down tid) = k then some ⟨tid, ra, st, false⟩ else s.slot down k := fun k => by
      rw [Keyed.look_append_singleton]
      change (s.slot down k).or _ = _
      rw [show rowKey down (⟨tid, ra, st, false⟩ : TxBaStream M) = (ra, down tid) from rfl]
      split_ifs with hk
      · rw [← hk, hnone]
        rfl
      · exact or_none
    have hlist := getRalistNode_setRalist s (down tid) ra st false
    refine h.edit (ra, down tid) (h.one.append_singleton hnone) (fun e he => ?_)
      (fun k hk => (hslot k).trans (if_neg hk.symm)) (fun k hk => (hlist k).trans (if_neg hk)) ?_
    · rcases mem_append.mp he with he | he
      · exact h.tid_lt e he
      · exact mem_singleton.mp he ▸ htid
    · change Agree (Keyed.look _ _ _) ((s.setRalist (down tid) ra st false).getRalistNode _ _)
      rw [hslot, if_pos rfl, hlist (ra, down tid), if_pos rfl]
      exact .set (by simpa using hst) (by simp)
  · exact h

theorem complete (tid : ℕ) (ra : M) (amsdu : Bool) :
    (s.retAddbaReq down tid ra true amsdu).Inv down := by
  unfold retAddbaReq
  rw [if_pos rfl]
  cases he : s.getTxbastreamTbl tid ra with
  | none => exact h
  | some e =>
    have hslot := h.slot_of_get he
    have hlist := getRalistNode_setRalist { s with
      streams := Keyed.modify TxBaStream.key (ra, tid) (.complete amsdu) s.streams } (down tid) ra .setupComplete amsdu
    simp only [isSome_some, if_true]
    refine h.modify (k := (ra, down tid)) (g := .complete amsdu) (fun e => ⟨rfl, rfl⟩)
      (Keyed.modify_eq_modify he hslot) (fun k hk => (hlist k).trans (if_neg hk)) ?_
    rw [hslot, hlist (ra, down tid), if_pos rfl]
    exact .set (by simp) fun ha => ⟨_, rfl, rfl, ha⟩

theorem refuse (hsame : ∀ e ∈ s.slot down (ra, down tid), e.tid = tid) :
    ((s.setRalist (down tid) ra .notSetup false).deleteStream down tid ra).Inv down := by
  have hlist := getRalistNode_setRalist s (down tid) ra .notSetup false
  unfold BaTables.deleteStream
  change (if (s.getTxbastreamTbl tid ra).isSome then _ else _ : BaTables M).Inv down
  cases he : s.getTxbastreamTbl tid ra with
  | none => exact h.erase tid (Keyed.erase_of_look_none he).symm hlist hsame
  | some e =>
    simp only [isSome_some, if_true]
    refine h.erase tid rfl (fun k => ?_) hsame
    rw [getRalistNode_setRalist]
    change (if _ then Option.map _ ((s.setRalist (down tid) ra .notSetup false).getRalistNode _ _)
      else (s.setRalist (down tid) ra .notSetup false).getRalistNode _ _) = _
    have hown := hlist (ra, down tid)
    rw [if_pos rfl] at hown
    rw [hown, hlist k, Option.map_map]
    split_ifs <;> rfl

end Inv

theorem coherent_of_inv (h : s.Inv down) : s.Coherent down := by
  refine ⟨key_of_rowKey h.one, fun tid ra l hl => ?_, fun tid ra l hl ha => ?_⟩
  · rw [(h.agree (ra, down tid) l hl).1, slot, Keyed.look_eq_none]
    simp [rowKey]
  · obtain ⟨e, he, hcomplete, hamsdu⟩ := (h.agree (ra, down tid) l hl).2 ha
    obtain ⟨hmem, hkey⟩ := (Keyed.look_eq_some h.one).mp he
    obtain ⟨hra, hdown⟩ := Prod.mk.inj hkey
    exact ⟨e, hmem, hra, hdown, hcomplete, hamsdu⟩

/-- Entries are taken out : that is seen exactly if one of them has an RA list. -/
theorem remove_iff (h : s.Inv down) (s' : BaTables M) (hsub : s'.streams.Sublist s.streams) (hlist : s'.raLists = s.raLists) :
    (s'.Coherent down ↔ ∀ e ∈ s.streams, s.Listed down e → e ∈ s'.streams) ∧
      (s'.Coherent down → s'.Inv down) := by
  have hnode : ∀ row ra, s'.getRalistNode row ra = s.getRalistNode row ra := fun row ra => by
    unfold getRalistNode
    rw [hlist]
  have hone : Keyed.Distinct (rowKey down) s'.streams := h.one.sublist (hsub.map _)
  have hkept : s'.Coherent down → ∀ e ∈ s.streams, s.Listed down e → e ∈ s'.streams := by
    intro hc e he hlisted
    obtain ⟨x, hx⟩ := isSome_iff_exists.mp hlisted
    have hslot : s.slot down (rowKey down e) = some e := Keyed.look_of_mem h.one he
    by_contra hout
    have hno := (hc.status e.tid e.ra x ((hnode _ _).trans hx)).mpr fun y hy hra hdown => by
      have hyslot : s.slot down (rowKey down y) = some y := Keyed.look_of_mem h.one (hsub.subset hy)
      rw [rowKey, hra, hdown] at hyslot
      exact hout (some.inj (hslot.symm.trans hyslot) ▸ hy)
    have hnone := (h.agree (rowKey down e) x hx).1.mp hno
    exact some_ne_none e (hslot.symm.trans hnone)
  have hinv : (∀ e ∈ s.streams, s.Listed down e → e ∈ s'.streams) → s'.Inv down := by
    intro hall
    refine ⟨hone, fun e he => h.tid_lt e (hsub.subset he), fun k x hx => ?_⟩
    rw [hnode] at hx
    have hlisted : ∀ e ∈ s.streams, rowKey down e = k → e ∈ s'.streams := fun e he hk => by
      refine hall e he (isSome_iff_exists.mpr ⟨x, ?_⟩)
      rw [← hk] at hx
      exact hx
    obtain ⟨hiff, hamsdu⟩ := h.agree k x hx
    refine ⟨hiff.trans ?_, fun ha => ?_⟩
    · unfold slot
      rw [Keyed.look_eq_none, Keyed.look_eq_none]
      exact ⟨fun hno e he => hno e (hsub.subset he), fun hno e he hk => hno e (hlisted e he hk) hk⟩
    · obtain ⟨e, he, hcomplete⟩ := hamsdu ha
      obtain ⟨hmem, hk⟩ := (Keyed.look_eq_some h.one).mp he
      exact ⟨e, (Keyed.look_eq_some hone).mpr ⟨hlisted e hmem hk, hk⟩, hcomplete⟩
  exact ⟨⟨hkept, fun hall => coherent_of_inv (hinv hall)⟩, fun hc => hinv (hkept hc)⟩

theorem mem_create {b : Bool} (he : e ∈ s.streams) : e ∈ (s.createTxbastreamTbl down tid ra st b).streams := by
  unfold createTxbastreamTbl
  split_ifs
  · exact mem_append_left _ he
  · exact he

/-- An entry that is created concerns its own RA list only. -/
theorem getRalistNode_create {b : Bool} (hk : k ≠ (ra, down tid)) :
    (s.createTxbastreamTbl down tid ra st b).getRalistNode k.2 k.1 = s.getRalistNode k.2 k.1 := by
  unfold createTxbastreamTbl
  split_ifs
  · exact (getRalistNode_setRalist s (down tid) ra st false k).trans (if_neg hk)
  · rfl

/-- The stream to tear down is in the table. -/
theorem mem_of_findStreamToDelete {ampduUser : ℕ → ℕ} {ptrTid : ℕ} {d : ℕ × M}
    (h : s.findStreamToDelete ampduUser ptrTid = some d) : ∃ e ∈ s.streams, e.tid = d.1 ∧ e.ra = d.2 := by
  have hfold : ∀ (l : List (TxBaStream M)) (acc : ℕ × Option (ℕ × M)),
      (l.foldl (fun (acc : ℕ × Option (ℕ × M)) e =>
        if e.baStatus = .setupComplete ∧ ampduUser e.tid < acc.1 then (ampduUser e.tid, some (e.tid, e.ra)) else acc)
        acc).2 = some d → acc.2 = some d ∨ ∃ e ∈ l, e.tid = d.1 ∧ e.ra = d.2 := by
    intro l
    induction l with
    | nil => exact fun acc h => .inl h
    | cons e l ih =>
      intro acc h
      rcases ih _ h with h | ⟨x, hx, hkey⟩
      · dsimp only at h
        split_ifs at h
        · obtain rfl := some.inj h
          exact .inr ⟨e, mem_cons_self, rfl, rfl⟩
        · exact .inl h
      · exact .inr ⟨x, mem_cons_of_mem _ hx, hkey⟩
  exact (hfold _ _ h).resolve_left (by simp)

section

variable (h : s.Inv down)

include h

/-- A stream is torn down for another one. -/
theorem teardown_iff (he : s.getTxbastreamTbl tid ra = some e) :
    ((s.setTxbastreamStatus tid ra .sentDelba).Coherent down ↔
      ∀ x ∈ s.getRalistNode (down tid) ra, x.amsduInAmpdu = false) := by
  refine ⟨fun hc x hx => ?_, fun hno => coherent_of_inv (h.setStatus tid ra (.inr hno))⟩
  have hslot := h.slot_of_get he
  have hkey : ∀ e : TxBaStream M, rowKey down (e.setStatus .sentDelba) = rowKey down e := fun _ => rfl
  have hmodify : (s.setTxbastreamStatus tid ra .sentDelba).streams =
      Keyed.modify (rowKey down) (ra, down tid) (.setStatus .sentDelba) s.streams := Keyed.modify_eq_modify he hslot
  by_contra ha
  obtain ⟨y, hy, hra, hdown, hcomplete, -⟩ := hc.amsdu tid ra x hx (by simpa using ha)
  rw [hmodify] at hy
  have hyslot := Keyed.look_of_mem (h.one.modify hkey) hy
  rw [show rowKey down y = (ra, down tid) from Prod.ext hra hdown, Keyed.look_modify hkey, if_pos rfl] at hyslot
  obtain ⟨z, -, rfl⟩ := map_eq_some_iff.mp hyslot
  exact absurd hcomplete (by simp [TxBaStream.setStatus])

/-- A dequeue leaves the two coherent, exactly if it is clean. -/
theorem dequeue_iff {b : SetupEnv} (hs : s.dequeueTxPacket down row ra tid b = some s') :
    (s'.Coherent down ↔ (Op.dequeueTxPacket row ra tid b).Clean down s) ∧
      ((Op.dequeueTxPacket row ra tid b).Clean down s → s'.Inv down) := by
  unfold dequeueTxPacket at hs
  cases hl : s.getRalistNode row ra with
  | none => simp [hl] at hs
  | some l =>
    simp only [hl] at hs
    obtain ⟨⟨hrow, htid⟩, rfl⟩ := System.of_guard hs
    obtain rfl := hrow
    by_cases hset : l.baStatus = .notSetup ∧ b.maySetup
    · rw [if_pos hset]
      have hnone : s.slot down (ra, down tid) = none := (h.agree (ra, down tid) l hl).1.mp hset.1
      have hget : s.getTxbastreamTbl tid ra = none := by
        by_contra hne
        obtain ⟨e, he⟩ := ne_none_iff_exists'.mp hne
        exact some_ne_none e ((h.slot_of_get he).symm.trans hnone)
      unfold setupBa Op.Clean
      rw [hget]
      simp only [isSome_none, Bool.false_eq_true, if_false, hl, mem_some_iff, exists_eq_left', hset.1,
        hset.2, true_imp_iff]
      by_cases havail : b.avail
      · have hinv := h.create .setupSentAddba b.allocated htid (by decide) hnone
        simp only [havail, if_true]
        exact ⟨iff_of_true (coherent_of_inv hinv) (by simp), fun _ => hinv⟩
      · simp only [havail, Bool.false_eq_true, if_false]
        cases hd : s.findStreamToDelete b.ampduUser tid with
        | none => exact ⟨iff_of_true (coherent_of_inv h) (by simp), fun _ => h⟩
        | some d =>
          obtain ⟨tidDel, raDel⟩ := d
          obtain ⟨e, he, rfl, rfl⟩ := mem_of_findStreamToDelete hd
          have hinv := h.create .setupInProgress b.allocated htid (by decide) hnone
          have hother : (e.ra, down e.tid) ≠ (ra, down tid) := fun hk => by
            rw [← hk] at hnone
            exact some_ne_none e ((Keyed.look_of_mem h.one he).symm.trans hnone)
          have hnode : (s.createTxbastreamTbl down tid ra .setupInProgress b.allocated).getRalistNode (down e.tid)
              e.ra = s.getRalistNode (down e.tid) e.ra := getRalistNode_create hother
          have hiff := teardown_iff hinv (hinv.get_of_mem (mem_create he))
          rw [hnode] at hiff
          simp only [mem_some_iff, forall_eq']
          refine ⟨hiff.trans (by simp), fun hc => ?_⟩
          exact hinv.setStatus e.tid e.ra (.inr (hnode.symm ▸ hc (by simp)))
    · rw [if_neg hset]
      refine ⟨iff_of_true (coherent_of_inv h) fun ⟨x, hx, hno⟩ hmay => ?_, fun _ => h⟩
      exact absurd ⟨some.inj (hl.symm.trans hx) ▸ hno, hmay⟩ hset

/-- A refused set-up leaves the two coherent, exactly if it is clean. -/
theorem refuse_iff :
    ((s.retAddbaReq down tid ra false amsdu).Coherent down ↔ (Op.retAddbaReq tid ra false amsdu).Clean down s) ∧
      ((Op.retAddbaReq tid ra false amsdu).Clean down s → (s.retAddbaReq down tid ra false amsdu).Inv down) := by
  change (((s.setRalist (down tid) ra .notSetup false).deleteStream down tid ra).Coherent down ↔ _) ∧
    (_ → ((s.setRalist (down tid) ra .notSetup false).deleteStream down tid ra).Inv down)
  have hinv : (Op.retAddbaReq tid ra false amsdu).Clean down s →
      ((s.setRalist (down tid) ra .notSetup false).deleteStream down tid ra).Inv down := by
    rintro (hf | hnone | hsame)
    · exact absurd hf (by simp)
    · rw [setRalist_of_none hnone]
      exact h.deleteStream tid ra
    · refine h.refuse fun e he => ?_
      obtain ⟨hmem, hkey⟩ := (Keyed.look_eq_some h.one).mp he
      obtain ⟨hra, hdown⟩ := Prod.mk.inj hkey
      exact hsame e hmem hra hdown
  refine ⟨⟨fun hc => ?_, fun hc => coherent_of_inv (hinv hc)⟩, hinv⟩
  by_contra hclean
  simp only [Op.Clean, Bool.false_eq_true, false_or, not_or, not_forall] at hclean
  obtain ⟨hlisted, e, he, rfl, hdown, hne⟩ := hclean
  obtain ⟨x, hx⟩ := ne_none_iff_exists'.mp hlisted
  -- the entry of the list belongs to another TID, so that the search finds none
  have hget : s.getTxbastreamTbl tid e.ra = none := by
    by_contra hsome
    obtain ⟨y, hy⟩ := ne_none_iff_exists'.mp hsome
    have hslot := h.slot_of_get hy
    rw [← hdown, show (e.ra, down e.tid) = rowKey down e from rfl, slot, Keyed.look_of_mem h.one he] at hslot
    exact hne (some.inj hslot ▸ (get_spec hy).2.2)
  have hnode := getRalistNode_setRalist s (down tid) e.ra .notSetup false (e.ra, down tid)
  rw [if_pos rfl, hx] at hnode
  unfold BaTables.deleteStream at hc
  rw [show (s.setRalist (down tid) e.ra .notSetup false).getTxbastreamTbl tid e.ra = none from hget] at hc
  exact (hc.status tid e.ra _ hnode).mp rfl e he rfl hdown

theorem Inv.deleteBastream (received : Bool) (tid : ℕ) (ra : M) (initiator : Bool) :
    (s.deleteBastreamTbl down received tid ra initiator).Inv down := by
  unfold deleteBastreamTbl
  dsimp only
  split_ifs
  · exact h
  · exact h.deleteStream tid ra
  · exact h
  · exact h.deleteStream tid ra

theorem Inv.retDelba (tid : ℕ) (ra : M) (success initiator : Bool) :
    (s.retDelba down tid ra success initiator).Inv down := by
  unfold BaTables.retDelba
  split_ifs
  · exact (h.deleteBastream false tid ra initiator).request
  · have hset : (s.setTxbastreamStatus tid ra .setupComplete).Inv down := h.setStatus tid ra (.inl rfl)
    dsimp only
    split
    · exact hset
    · exact hset.deleteBastream false _ _ true
  · exact h

/-- The clean-up of a peer takes the peer's entries out. -/
theorem mem_cleanup (ra : M) : (s.cleanupTxbastreamTbl ra).streams.Sublist s.streams ∧
    ∀ e, e ∈ (s.cleanupTxbastreamTbl ra).streams ↔ e ∈ s.streams ∧ e.ra ≠ ra := by
  have hfold : ∀ (is : List ℕ) (l : List (TxBaStream M)), Keyed.Distinct TxBaStream.key l →
      (is.foldl (fun l i => Keyed.erase TxBaStream.key (ra, i) l) l).Sublist l ∧
        ∀ e, e ∈ is.foldl (fun l i => Keyed.erase TxBaStream.key (ra, i) l) l ↔
          e ∈ l ∧ ∀ i ∈ is, e.key ≠ (ra, i) := by
    intro is
    induction is with
    | nil => exact fun l _ => ⟨.refl l, fun e => by simp⟩
    | cons i is ih =>
      intro l hl
      obtain ⟨hsub, hmem⟩ := ih _ (hl.erase (k := (ra, i)))
      refine ⟨hsub.trans eraseP_sublist, fun e => (hmem e).trans ?_⟩
      rw [Keyed.mem_erase hl, forall_mem_cons, and_assoc]
  obtain ⟨hsub, hmem⟩ := hfold (List.range 8) s.streams (key_of_rowKey h.one)
  refine ⟨hsub, fun e => (hmem e).trans (and_congr_right fun he => ?_)⟩
  constructor
  · rintro hne rfl
    exact hne e.tid (mem_range.mpr (h.tid_lt e he)) rfl
  · exact fun hne i _ hk => hne (Prod.mk.inj hk).1

/-- Each step leaves the two coherent, exactly if it is clean. -/
theorem step_iff (hs : s.step down op = some s') :
    (s'.Coherent down ↔ op.Clean down s) ∧ (op.Clean down s → s'.Inv down) := by
  cases op with
  | dequeueTxPacket row ra tid b => exact dequeue_iff h hs
  | retAddbaReq tid ra success amsdu =>
    obtain rfl := some.inj hs
    cases success with
    | true =>
      have hinv := h.complete tid ra amsdu
      exact ⟨iff_of_true (coherent_of_inv hinv) (.inl rfl), fun _ => hinv⟩
    | false => exact refuse_iff h
  | retDelba tid ra success initiator =>
    obtain rfl := some.inj hs
    have hinv := h.retDelba tid ra success initiator
    exact ⟨iff_of_true (coherent_of_inv hinv) trivial, fun _ => hinv⟩
  | deleteBastream received tid ra initiator =>
    obtain rfl := some.inj hs
    have hinv := h.deleteBastream received tid ra initiator
    exact ⟨iff_of_true (coherent_of_inv hinv) trivial, fun _ => hinv⟩
  | cleanupTxbastream ra =>
    obtain rfl := some.inj hs
    obtain ⟨hsub, hmem⟩ := mem_cleanup h ra
    obtain ⟨hiff, hinv⟩ := remove_iff h _ hsub rfl
    have hclean : (s.cleanupTxbastreamTbl ra).Coherent down ↔ (Op.cleanupTxbastream ra).Clean down s := by
      rw [hiff]
      refine forall₂_congr fun e he => ?_
      rw [hmem, and_iff_right he]
      exact ⟨fun hne hra hlisted => hne hlisted hra, fun hno hlisted hra => hno hra hlisted⟩
    exact ⟨hclean, fun hc => hinv (hclean.mpr hc)⟩
  | deleteallTxbastream =>
    obtain rfl := some.inj hs
    obtain ⟨hiff, hinv⟩ := remove_iff h s.deleteallTxbastreamTbl (nil_sublist _) rfl
    have hclean : s.deleteallTxbastreamTbl.Coherent down ↔ (Op.deleteallTxbastream : Op M).Clean down s := by
      rw [hiff]
      exact forall₂_congr fun e _ => by simp [deleteallTxbastreamTbl]
    exact ⟨hclean, fun hc => hinv (hclean.mpr hc)⟩

end

theorem inv_init (h : s.Init) : s.Inv down := by
  obtain ⟨hstreams, hlists⟩ := h
  refine ⟨?_, by simp [hstreams], fun k x hx => ?_⟩
  · rw [hstreams]
    exact nodup_nil
  · obtain ⟨hstatus, hamsdu⟩ := hlists k.2 x (Keyed.mem_of_look hx)
    simp [slot, hstreams, hstatus, hamsdu]

/-- **The block-ack tables agree** along every clean run, and each further step keeps that exactly if it is clean. -/
theorem streams_coherent (down : ℕ → ℕ) {s : BaTables M}
    (h : (baSystem down).ReachableWhen (fun s op => op.Clean down s) s) :
    s.Coherent down ∧ ∀ op s', s.step down op = some s' → (s'.Coherent down ↔ op.Clean down s) := by
  have hinv : s.Inv down := h.invariant (I := Inv down) (fun s => inv_init)
    fun s op s' hi hc hs => (step_iff hi hs).2 hc
  exact ⟨coherent_of_inv hinv, fun op s' hs => (step_iff hinv hs).1⟩

/-! ## Runs -/

/-- `wlan_wmm_downgrade_tid`, when voice is sent as video. -/
def voiceAsVideo : ℕ → ℕ
  | 6 => 4
  | 7 => 5
  | tid => tid

/-- Two peers, with an RA list in each row. -/
def twoPeers : BaTables ℕ where
  streams := []
  raLists := fun row => if row < 8 then [⟨0, .notSetup, false⟩, ⟨1, .notSetup, false⟩] else []

theorem twoPeers_init : twoPeers.Init := by
  refine ⟨rfl, fun row l hl => ?_⟩
  by_cases hrow : row < 8
  · simp only [twoPeers, hrow, if_true, mem_cons, not_mem_nil, or_false] at hl
    rcases hl with rfl | rfl <;> exact ⟨rfl, rfl⟩
  · simp [twoPeers, hrow] at hl

/-- The list gets a stream, if there is one. -/
def setup (avail : Bool) : SetupEnv :=
  ⟨true, avail, true, id⟩

/-- A stream is set up and then torn down for another one, which is refused. -/
theorem streams_coherent_refused : ∃ s : BaTables ℕ,
    (baSystem voiceAsVideo).ReachableWhen (fun s op => op.Clean voiceAsVideo s) s ∧ s.streams = [] ∧
    (s.getRalistNode 4 0).map PeerList.baStatus = some .notSetup ∧ s.Coherent voiceAsVideo := by
  obtain ⟨s, hs, hp⟩ := System.exists_reachableWhen_of_runWhen (M := baSystem voiceAsVideo)
    (C := fun s op => op.Clean voiceAsVideo s)
    (P := fun s => decide (s.streams = [] ∧ (s.getRalistNode 4 0).map PeerList.baStatus = some .notSetup))
    (l := [.dequeueTxPacket 4 0 4 (setup true), .retAddbaReq 4 0 true false, .dequeueTxPacket 5 1 7 (setup false),
      .retDelba 4 0 true true, .retAddbaReq 7 1 false false]) (s := twoPeers)
    (.init twoPeers_init) (by decide +kernel)
  obtain ⟨hstreams, hlist⟩ := of_decide_eq_true hp
  exact ⟨s, hs, hstreams, hlist, (streams_coherent voiceAsVideo hs).1⟩

/-- A refusal for TID 6 comes behind the DELBA of the peer, when TID 4 has the RA list; and a clean-up leaves a list
that seems to have a stream. -/
theorem list_parted_from_stream :
    (∃ s : BaTables ℕ, (baSystem voiceAsVideo).Reachable s ∧ s.streams = [⟨4, 0, .setupSentAddba, false⟩] ∧
      s.getRalistNode 4 0 = some ⟨0, .notSetup, false⟩) ∧
    (∃ s : BaTables ℕ, (baSystem voiceAsVideo).Reachable s ∧ s.streams = [] ∧
      s.getRalistNode 4 0 = some ⟨0, .setupSentAddba, false⟩) ∧
    ¬∀ s : BaTables ℕ, (baSystem voiceAsVideo).Reachable s → s.Coherent voiceAsVideo := by
  have hrefused : ∃ s : BaTables ℕ, (baSystem voiceAsVideo).Reachable s ∧
      decide (s.streams = [⟨4, 0, .setupSentAddba, false⟩] ∧
        s.getRalistNode 4 0 = some ⟨0, .notSetup, false⟩) = true :=
    System.exists_reachable_of_run (l := [.dequeueTxPacket 4 0 6 (setup true), .deleteBastream true 6 0 false,
      .dequeueTxPacket 4 0 4 (setup true), .retAddbaReq 6 0 false false]) twoPeers_init (by decide +kernel)
  have hcleaned : ∃ s : BaTables ℕ, (baSystem voiceAsVideo).Reachable s ∧ decide (s.streams = [] ∧
      s.getRalistNode 4 0 = some ⟨0, .setupSentAddba, false⟩) = true :=
    System.exists_reachable_of_run (l := [.dequeueTxPacket 4 0 6 (setup true), .cleanupTxbastream 0]) twoPeers_init
      (by decide +kernel)
  simp only [decide_eq_true_eq] at hrefused hcleaned
  refine ⟨hrefused, hcleaned, fun h => ?_⟩
  obtain ⟨s, hs, hstreams, hlist⟩ := hrefused
  have hno : ∀ e ∈ s.streams, e.ra = 0 → voiceAsVideo e.tid ≠ voiceAsVideo 4 :=
    ((h s hs).status 4 0 _ hlist).mp rfl
  simp [hstreams] at hno

end BaTables

end WlanDriver.Wmm
