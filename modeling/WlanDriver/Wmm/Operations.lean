import Mathlib.Data.List.FinRange
import WlanDriver.Wmm.Queues

/-!
# Operations on the WMM queues

The scheduler and the senders of `mlan_wmm.c`, the pauses, and what moves or frees RA lists, each as a function on
`Bss`. A `for` over the TIDs whose rounds touch one row each is a function of the row.

`wmmSystem` has all operations as its labels. Its steps are partial : an operation has no step where
the source follows a pointer to a freed node or does not return.
-/

namespace WlanDriver.Wmm

open Ethernet Function RaList

namespace Bss

variable (s : Bss)

/-! ## The scheduler -/

/-- The nodes of a row in the order of the round robin, from the one behind `p`. -/
def ring (p : RaPtr) (row : List RaList) : Option (List RaList) :=
  match p with
  | .null => none
  | .head => some row
  | .node a => (row.findIdx? fun l => l.addr = a).map fun i => row.drop (i + 1) ++ row.take (i + 1)

/-- The loop of `wlan_wmm_get_highest_priolist_ptr` through the priorities. -/
def scanPrio : List Tid → Option (Option (Tid × RaList))
  | [] => some none
  | i :: is =>
    if s.tbl (s.tosToTid i) = [] then scanPrio is
    else (ring (s.curr (s.tosToTid i)) (s.tbl (s.tosToTid i))).bind fun r =>
      match r.find? eligible with
      | some l => some (some (i, l))
      | none => scanPrio is

/-- The priorities from `h` down. -/
def prios (h : WithBot Tid) : List Tid :=
  (List.finRange 8).reverse.filter fun i => ((i : Tid) : WithBot Tid) ≤ h

/-- `wlan_wmm_get_highest_priolist_ptr`, with this BSS alone and ready. -/
def getHighestPriolistPtr : Option (Bss × Option (Tid × ℕ)) :=
  (s.scanPrio (prios s.highestQueuedPrio)).map fun
    | some (i, l) =>
      -- balance the two TIDs of the category
      let n := s.tosToTid (sibling i)
      ({ s with highestQueuedPrio :=
          if s.pktsQueued n ≠ 0 ∧ s.pktsPaused n < s.pktsQueued n then ((sibling i : Tid) : WithBot Tid)
          else s.highestQueuedPrio ⊓ ((i : Tid) : WithBot Tid) },
        some (s.tosToTid i, l.addr))
    | none => ({ s with highestQueuedPrio := if s.txPktsQueued ≠ 0 then highPrioTid else ⊥ }, none)

/-- Take a node off `pending_txq`. -/
def unlink (a : ℕ) : Bss :=
  { s with pendingTxq := fun q => (s.pendingTxq q).filter fun x => ¬x = a }

/-- `wlan_wmm_process_ra_list_quoats` : is the list within its budgets? -/
def processRaListQuoats (a : ℕ) (l : RaList) (within : Bool) : Option (Bss × Bool) :=
  if within then some ({ s with selectedRaList := some a }, true)
  -- to unlink a node that is on no list follows a null pointer
  else if s.Linked a then
    some ({ s.unlink a with
      pendingTxq := update (s.unlink a).pendingTxq l.queue ((s.unlink a).pendingTxq l.queue ++ [a])
      selectedRaList := none }, false)
  else none

end Bss

namespace Bss

/-- `wlan_wmm_get_next_ra_list`. A pick is the category that the node at hand is taken from and whether the node is within
its budgets; the inner loop stays with the category `cur` until its queue is empty. -/
def getNextRaList : Option Ac → List (Ac × Bool) → Bss → Option (Bss × Option (Tid × ℕ))
  | _, [], s => if ∀ q, s.pendingTxq q = [] then some (s, none) else none
  | cur, (ac, within) :: picks, s =>
    if ∃ q, cur = some q ∧ q ≠ ac ∧ s.pendingTxq q ≠ [] then none
    else match s.pendingTxq ac with
      | [] => none
      | a :: _ =>
        match s.deref a with
        | none => none
        | some (t, l) =>
          if l.totalPkts = 0 ∨ l.bufHead = [] then getNextRaList (some ac) picks (s.unlink a)
          else match s.processRaListQuoats a l within with
            | none => none
            | some (s', true) => some (s', some (t, a))
            | some (s', false) => getNextRaList (some ac) picks s'

/-- How `wlan_wmm_get_next_priolist_ptr` comes to a list. -/
inductive Sched
  | highest
  | selected (within : Bool)
  | next (picks : List (Ac × Bool))
  deriving DecidableEq

variable (s : Bss)

/-- `wlan_wmm_get_next_priolist_ptr` up to where it returns or gives the lock back. -/
def getNextPriolistPtr (cfg : Config) : Sched → Option (Bss × Option (Tid × ℕ))
  | .highest => s.getHighestPriolistPtr
  | .selected within =>
    if cfg.mclient then
      s.selectedRaList.bind fun a => (s.deref a).bind fun r =>
        if r.2.totalPkts = 0 then none
        else (s.processRaListQuoats a r.2 within).map fun u => (u.1, if u.2 then some (r.1, a) else none)
    else none
  | .next picks =>
    if cfg.mclient then
      match s.selectedRaList with
      | none => getNextRaList none picks s
      | some a => (s.deref a).bind fun r => if r.2.totalPkts = 0 then getNextRaList none picks s else none
    else none

/-! ## Senders -/

/-- Take the first packet of a node out of the list and the counters. -/
def popBuf (t : Tid) (a : ℕ) : Bss :=
  { s with
    tbl := s.editNode t a pop
    pktsQueued := update s.pktsQueued t (wsub 32 (s.pktsQueued t) 1)
    txPktsQueued := wsub 32 s.txPktsQueued 1 }

/-- `wlan_send_processed_packet`, `wlan_send_single_packet` and `wlan_11n_aggregate_pkt` up to where they give the lock
back. -/
def sendStart (t : Tid) (a : ℕ) : Bss :=
  match s.node t a with
  | none => s
  | some l =>
    match l.bufHead with
    | [] => s
    | b :: _ =>
      if b.requeued then { s with tbl := s.editNode t a takeOut, flight := some ⟨a, t, b, true⟩ }
      else { s.popBuf t a with flight := some ⟨a, t, b, false⟩ }

/-- `wlan_dequeue_tx_packet` up to there. One thread sends. -/
def dequeueTxPacket (cfg : Config) (d : Sched) : Option Bss :=
  if s.flight.isSome then none
  else (s.getNextPriolistPtr cfg d).map fun r =>
    match r.2 with
    | none => r.1
    | some (t, a) => r.1.sendStart t a

/-- Another round of the loop in `wlan_11n_aggregate_pkt`. -/
def aggregatePkt : Option Bss :=
  match s.flight with
  | none => none
  | some f =>
    if f.processed then none
    else match s.node f.tid f.ptr with
      | none => some { s with flight := none }
      | some l => if l.bufHead = [] then none else some (s.popBuf f.tid f.ptr)

/-- The rest of a send, from where it takes the lock again. `resource` : the card gave `MLAN_STATUS_RESOURCE`. -/
def sendDone (resource : Bool) : Option Bss :=
  match s.flight with
  | none => none
  | some f =>
    let valid := s.isRalistValid f.ptr f.tid
    let u := { s with flight := none }
    match resource, f.processed with
    | true, true => some (if valid then { u with tbl := s.editNode f.tid f.ptr (putBack f.buf) } else u)
    | true, false =>
      some (if valid then { u with
          tbl := s.editNode f.tid f.ptr (pushHead f.buf)
          pktsQueued := update s.pktsQueued f.tid (wadd 32 (s.pktsQueued f.tid) 1)
          txPktsQueued := wadd 32 s.txPktsQueued 1 }
        else u)
    | false, true =>
      some { u with
        tbl := if valid then s.editNode f.tid f.ptr countOut else s.tbl
        curr := if valid then update s.curr f.tid (.node f.ptr) else s.curr
        pktsQueued := update s.pktsQueued f.tid (wsub 32 (s.pktsQueued f.tid) 1)
        txPktsQueued := wsub 32 s.txPktsQueued 1 }
    | false, false => some (if valid then { u with curr := update s.curr f.tid (.node f.ptr) } else u)

/-! ## Pauses -/

/-- The node of row `t` that `wlan_update_ralist_tx_pause` changes. -/
def flipped (mac : Mac) (p : Bool) (t : Tid) : Option RaList :=
  (s.getRalistNode t mac).filter fun l => l.txPause ≠ p

/-- `wlan_update_ralist_tx_pause` in one row. -/
def pauseRow (mac : Mac) (p : Bool) (row : List RaList) : List RaList :=
  replaceFirst (fun l => l.ra = mac) (setPause p) row

def updateRalistTxPause (mac : Mac) (p : Bool) : Bss :=
  let moved : Tid → ℕ := fun t => ((s.getRalistNode t mac).map (flipPkts p)).getD 0
  let pktCnt := ∑ t, moved t
  let nodes := (List.finRange 8).filterMap fun t => (s.flipped mac p t).map fun l => (s.selectQueue t, l.addr)
  { s with
    tbl := fun t => pauseRow mac p (s.tbl t)
    pktsPaused := fun t => (if p then wadd else wsub) 32 (s.pktsPaused t) (moved t)
    txPktsQueued := if pktCnt ≠ 0 then (if p then wsub else wadd) 32 s.txPktsQueued pktCnt else s.txPktsQueued
    highestQueuedPrio := if pktCnt ≠ 0 then highPrioTid else s.highestQueuedPrio
    pendingTxq := fun q =>
      if p then (s.pendingTxq q).filter fun a => a ∉ nodes.map Prod.snd
      -- each goes to the head, the last TID comes first
      else ((nodes.filter fun n => n.1 = q).map Prod.snd).reverse ++ s.pendingTxq q
    selectedRaList := if p then s.selectedRaList.filter fun a => a ∉ nodes.map Prod.snd else s.selectedRaList }

/-- `wlan_update_non_tdls_ralist` in one row. -/
def nonTdlsRow (mac : Mac) (p : Bool) (row : List RaList) : List RaList :=
  row.map fun l => if l.ra ≠ mac then l.setPause p else l

def updateNonTdlsRalist (mac : Mac) (p : Bool) : Bss :=
  let moved : Tid → ℕ := fun t => ((s.tbl t).map fun l => if l.ra ≠ mac then l.flipPkts p else 0).sum
  let pktCnt := ∑ t, moved t
  { s with
    tbl := fun t => nonTdlsRow mac p (s.tbl t)
    pktsPaused := fun t => (if p then wadd else wsub) 32 (s.pktsPaused t) (moved t)
    txPktsQueued := if pktCnt ≠ 0 then (if p then wsub else wadd) 32 s.txPktsQueued pktCnt else s.txPktsQueued
    highestQueuedPrio := if pktCnt ≠ 0 then highPrioTid else s.highestQueuedPrio }

/-- `wlan_ralist_update` in one row. -/
def updateRow (old new : Mac) (row : List RaList) : List RaList :=
  replaceFirst (fun l => l.ra = old) (rename new) row

def ralistUpdate (old new : Mac) : Bss :=
  { s with tbl := fun t => updateRow old new (s.tbl t) }

/-! ## Drops -/

def delTxPktsInRalist (t : Tid) : Option Bss :=
  ((s.tbl t).find? droppable).map fun l =>
    { s with
      tbl := update s.tbl t (replaceFirst droppable pop (s.tbl t))
      pktsQueued := update s.pktsQueued t (wsub 32 (s.pktsQueued t) 1)
      pktsPaused := if l.txPause then update s.pktsPaused t (wsub 32 (s.pktsPaused t) 1) else s.pktsPaused
      txPktsQueued := if l.txPause then s.txPktsQueued else wsub 32 s.txPktsQueued 1 }

end Bss

namespace Bss

/-- The TID that `wlan_drop_tx_pkts` comes to next. -/
def dropNext (s : Bss) : Tid :=
  if h : s.dropTid.val < 8 then ⟨s.dropTid.val, h⟩ else 0

/-- `n` rounds of `wlan_drop_tx_pkts`. -/
def dropLoop : ℕ → Bss → Bss
  | 0, s => s
  | n + 1, s =>
    match s.delTxPktsInRalist s.dropNext with
    | some s' => { s' with dropTid := s.dropNext.succ }
    | none => dropLoop n { s with dropTid := s.dropNext.succ }

variable (s : Bss)

def dropTxPkts : Bss :=
  dropLoop 8 s

/-! ## Peers and TDLS links -/

/-- The nodes of a peer. -/
def peerNodes (mac : Mac) : List ℕ :=
  (List.finRange 8).filterMap fun t => (s.getRalistNode t mac).map addr

/-- `wlan_wmm_delete_peer_ralist`. -/
def deletePeerRalist (cfg : Config) (mac : Mac) : Bss :=
  let pktCnt := ∑ t, ((s.getRalistNode t mac).map fun l => if l.txPause then 0 else l.totalPkts).getD 0
  { s with
    tbl := fun t => (s.tbl t).eraseP fun l => l.ra = mac
    curr := fun t =>
      if (s.getRalistNode t mac).any fun l => s.curr t = .node l.addr then .head else s.curr t
    pktsQueued := fun t => wsub 32 (s.pktsQueued t) (((s.getRalistNode t mac).map totalPkts).getD 0)
    pktsPaused := fun t => wsub 32 (s.pktsPaused t)
      (((s.getRalistNode t mac).map fun l => if l.txPause then l.totalPkts else 0).getD 0)
    txPktsQueued := if pktCnt ≠ 0 then wsub 32 s.txPktsQueued pktCnt else s.txPktsQueued
    highestQueuedPrio := if pktCnt ≠ 0 then highPrioTid else s.highestQueuedPrio
    pendingTxq := fun q => (s.pendingTxq q).filter fun a => a ∉ s.peerNodes mac
    selectedRaList := s.selectedRaList.filter fun a => a ∉ s.peerNodes mac
    allStas := if cfg.mclient then s.allStas.erase mac else s.allStas }

/-- The packets to `mac` in the first list of row `t`. -/
def heldPackets (mac : Mac) (t : Tid) : List Buf :=
  ((s.tbl t).head?.map fun l => l.tdlsPackets mac).getD []

/-- `wlan_hold_tdls_packets` in one row. -/
def holdRow (mac : Mac) : List RaList → List RaList
  | [] => []
  | l :: rest => l.holdTdls mac :: rest

def holdTdlsPackets (mac : Mac) : Bss :=
  { s with
    tbl := fun t => holdRow mac (s.tbl t)
    pktsQueued := fun t => wsub 32 (s.pktsQueued t) (s.heldPackets mac t).length
    txPktsQueued := wsub 32 s.txPktsQueued (∑ t, (s.heldPackets mac t).length)
    tdlsPendingTxq := s.tdlsPendingTxq ++ (List.finRange 8).flatMap (s.heldPackets mac) }

/-- `wlan_wmm_delete_tdls_ralist` in one row. -/
def deleteTdlsRow (mac : Mac) : List RaList → List RaList
  | [] => []
  | ap :: rest =>
    if ap.ra = mac then rest
    else match rest.find? fun l => l.ra = mac with
      | none => ap :: rest
      | some x => ap.takeOver x :: rest.eraseP fun l => l.ra = mac

/-- `wlan_wmm_delete_tdls_ralist`. The packets of the first list would move to the list itself for ever. -/
def deleteTdlsRalist (mac : Mac) : Option Bss :=
  if ∃ t, (s.tbl t).head?.any fun ap => ap.ra = mac ∧ ap.bufHead ≠ [] then none
  else some { s with
    tbl := fun t => deleteTdlsRow mac (s.tbl t)
    curr := fun t =>
      if (s.getRalistNode t mac).any fun x => s.curr t = .node x.addr then
        ((s.firstNode t).map RaPtr.node).getD .null
      else s.curr t }

/-- One packet of `wlan_restore_tdls_packets` goes to the node `r` of row `t`. -/
def restoreBuf (b : Buf) (t : Tid) (r : Option ℕ) : Bss :=
  match r.bind (s.node t) with
  | none => s
  | some l =>
    { s with
      tbl := s.editNode t l.addr (pushTail b)
      pktsQueued := update s.pktsQueued t (wadd 32 (s.pktsQueued t) 1)
      txPktsQueued := wadd 32 s.txPktsQueued 1
      highestQueuedPrio := s.highestQueuedPrio ⊔ ((s.tosToTidInv t : Tid) : WithBot Tid) }

/-- The list that a restored packet goes to. `complete` : the status is `TDLS_SETUP_COMPLETE`. -/
def restoreTarget (cfg : Config) (mac : Mac) (complete : Bool) (cs : List Alloc) (t : Tid) :
    Option (Bss × List Alloc × Option ℕ) :=
  if complete then
    match s.getRalistNode t mac, cs with
    | some l, cs => some (s, cs, some l.addr)
    | none, c :: cs => (s.getQueueRaptr cfg c t mac).map fun r => (r.1, cs, r.2)
    | none, [] => none
  else some (s, cs, s.firstNode t)

end Bss

namespace Bss

/-- The loop of `wlan_restore_tdls_packets`, through the packets to `mac`. -/
def restoreLoop (cfg : Config) (mac : Mac) (complete : Bool) : List Buf → List Alloc → Bss → Option Bss
  | [], _, s => some s
  | b :: bs, cs, s =>
    (s.restoreTarget cfg mac complete cs (s.downgradeTid b.priority)).bind fun r =>
      restoreLoop cfg mac complete bs r.2.1 (r.1.restoreBuf b (s.downgradeTid b.priority) r.2.2)

def restoreTdlsPackets (cfg : Config) (mac : Mac) (complete : Bool) (cs : List Alloc) (s : Bss) : Option Bss :=
  (restoreLoop cfg mac complete (s.tdlsPendingTxq.filter fun b => b.ra = mac) cs
    { s with tdlsPendingTxq := s.tdlsPendingTxq.filter fun b => ¬b.ra = mac }).bind fun u =>
    if complete then some u else u.deleteTdlsRalist mac

end Bss

/-! ## The system -/

/-- The queues of a BSS after `wlan_wmm_init`. -/
def emptyBss : Bss where
  tbl := fun _ => []
  curr := fun _ => .null
  pktsQueued := fun _ => 0
  pktsPaused := fun _ => 0
  txPktsQueued := 0
  highestQueuedPrio := highPrioTid
  tosToTid := fun k => acToTid ⟨k.val / 2, half_lt k⟩ (k.val % 2 = 1)
  tosToTidInv := fun t =>
    match t with
    | 0 => 2
    | 1 => 0
    | 2 => 1
    | 3 => 3
    | 4 => 4
    | 5 => 5
    | 6 => 6
    | 7 => 7
  queuePriority := Fin.rev
  acDownGradedVals := fun _ => 0
  pendingTxq := fun _ => []
  selectedRaList := none
  allStas := []
  tdlsPendingTxq := []
  dropTid := 0
  flight := none

/-- The operations. -/
inductive Op
  | add (b : Buf) (e : Bss.AddEnv)
  | ralistAdd (ra : Mac) (c : Bss.Alloc)
  | dequeue (d : Bss.Sched)
  | aggregate
  | done (resource : Bool)
  | txPause (mac : Mac) (p : Bool)
  | nonTdlsPause (mac : Mac) (p : Bool)
  | ralistUpdate (old new : Mac)
  | drop
  | deletePeer (mac : Mac)
  | hold (mac : Mac)
  | restore (mac : Mac) (complete : Bool) (cs : List Bss.Alloc)
  | priorities (ie : Option (Fin 4 → AcParam))
  | downgrade (vals : Ac → Ac)

/-- One operation. -/
def Bss.step (cfg : Config) (s : Bss) : Op → Option Bss
  | .add b e => s.addBufTxqueue cfg b e
  | .ralistAdd ra c => s.ralistAdd cfg c ra
  | .dequeue d => s.dequeueTxPacket cfg d
  | .aggregate => s.aggregatePkt
  | .done resource => s.sendDone resource
  | .txPause mac p => some (s.updateRalistTxPause mac p)
  | .nonTdlsPause mac p => some (s.updateNonTdlsRalist mac p)
  | .ralistUpdate old new => some (s.ralistUpdate old new)
  | .drop => some s.dropTxPkts
  | .deletePeer mac => some (s.deletePeerRalist cfg mac)
  | .hold mac => some (s.holdTdlsPackets mac)
  | .restore mac complete cs => s.restoreTdlsPackets cfg mac complete cs
  | .priorities ie => some (s.setupQueuePriorities ie)
  | .downgrade vals => some { s with acDownGradedVals := vals }

/-- The queues of a BSS, from `wlan_wmm_init` on. -/
def wmmSystem (cfg : Config) : System Bss Op where
  init s := s = emptyBss
  step s a := s.step cfg a

end WlanDriver.Wmm
