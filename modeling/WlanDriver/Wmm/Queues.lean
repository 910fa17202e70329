import Mathlib.Order.WithBot
import Mathlib.Data.Fintype.Pi
import Mathlib.Logic.Equiv.Basic
import WlanDriver.Lib.Ethernet
import WlanDriver.Lib.FirstMatch
import WlanDriver.Lib.System

/-!
# The WMM transmit queues of a BSS

`mlan_wmm.c` keeps the packets of a BSS in RA lists, one for each receiver address and each of the
eight TIDs. Beside the lists it keeps counters of what they hold, the highest priority that may have
a packet, a pointer into each row of lists for the round robin, and, when several clients are scheduled
(`mclient_tx_supported`), the lists that wait for an access category.

`Bss` is this state. An operation is what one thread does between taking `ra_list_spinlock` and giving it
back, and is a function of the state; what it reads outside of the queues (link states, budgets, the
addresses that `moal_malloc` returns) is in its label. A send takes the lock twice, so the packet that is
with the bus in between is in `Bss.flight`.
-/

namespace WlanDriver.Wmm

open Ethernet Function

/-- A TID, or an index of `tos_to_tid`. -/
abbrev Tid := Fin 8

/-- An access category, `WMM_AC_BK` to `WMM_AC_VO`, or a queue of `pending_txq`. -/
abbrev Ac := Fin 4

instance neZeroAc : NeZero 4 := ⟨by decide⟩
instance neZeroTid : NeZero 8 := ⟨by decide⟩
instance neZeroDropTid : NeZero 9 := ⟨by decide⟩
instance neZeroEcw : NeZero 16 := ⟨by decide⟩

theorem half_lt (k : Tid) : k.val / 2 < 4 := by
  omega

theorem sub_half_lt (k : Tid) : (7 - k.val) / 2 < 4 := by
  omega

/-- `mlan_buffer`, a packet. -/
structure Buf where
  /-- The six octets at `data_offset`. -/
  ra : Mac
  /-- `mac`, when `MLAN_BUF_FLAG_EASYMESH` is set. -/
  mac : Option Mac
  priority : ℕ
  /-- `MLAN_BUF_FLAG_REQUEUED_PKT`. -/
  requeued : Bool
  deriving DecidableEq

/-- `raListTbl`. -/
structure RaList where
  /-- Where it is allocated. -/
  addr : ℕ
  ra : Mac
  bufHead : List Buf
  /-- `t_u16`. -/
  totalPkts : ℕ
  txPause : Bool
  queue : Ac
  deriving DecidableEq

/-- A `raListTbl *` into a row : the row's `ra_list` member stands for the end of the row. -/
inductive RaPtr
  | null
  | head
  | node (a : ℕ)
  deriving DecidableEq

/-- The packet that a thread is sending without the lock. -/
structure Flight where
  ptr : ℕ
  tid : Tid
  buf : Buf
  /-- It was requeued before, and `wlan_send_processed_packet` sends it. -/
  processed : Bool
  deriving DecidableEq

/-- The queues of a BSS. -/
structure Bss where
  /-- `tid_tbl_ptr[tid].ra_list`. -/
  tbl : Tid → List RaList
  /-- `tid_tbl_ptr[tid].ra_list_curr`. -/
  curr : Tid → RaPtr
  /-- `t_u32`. -/
  pktsQueued : Tid → ℕ
  /-- `t_u32`. -/
  pktsPaused : Tid → ℕ
  /-- The 32 bits of the scalar. -/
  txPktsQueued : ℕ
  /-- `NO_PKT_PRIO_TID` is `⊥`. -/
  highestQueuedPrio : WithBot Tid
  tosToTid : Tid → Tid
  tosToTidInv : Tid → Tid
  queuePriority : Fin 4 → Ac
  acDownGradedVals : Ac → Ac
  pendingTxq : Ac → List ℕ
  selectedRaList : Option ℕ
  allStas : List Mac
  tdlsPendingTxq : List Buf
  /-- The static variable of `wlan_drop_tx_pkts`. -/
  dropTid : Fin 9
  flight : Option Flight

/-- What is fixed for a BSS. -/
structure Config where
  /-- `mclient_tx_supported`. -/
  mclient : Bool
  /-- `queuing_ra_based`. -/
  raBased : Bool
  /-- `GET_BSS_ROLE` is `MLAN_BSS_ROLE_UAP`. -/
  uap : Bool
  deriving DecidableEq

def highPrioTid : WithBot Tid := ((7 : Tid) : WithBot Tid)

def rxLowThreshold : ℕ := 128

def bcastAddr : Mac := ⟨0xff, 0xff, 0xff, 0xff, 0xff, 0xff⟩

/-! ## RA lists -/

namespace RaList

/-- The scheduler may take a packet from this list. -/
def eligible (l : RaList) : Bool :=
  !l.txPause && !l.bufHead.isEmpty

def pushTail (b : Buf) (l : RaList) : RaList :=
  { l with bufHead := l.bufHead ++ [b], totalPkts := wadd 16 l.totalPkts 1 }

/-- Queue the packet back at the head. -/
def pushHead (b : Buf) (l : RaList) : RaList :=
  { l with bufHead := { b with requeued := true } :: l.bufHead, totalPkts := wadd 16 l.totalPkts 1 }

/-- Queue a processed packet back at the head : it never left the count. -/
def putBack (b : Buf) (l : RaList) : RaList :=
  { l with bufHead := { b with requeued := true } :: l.bufHead }

def pop (l : RaList) : RaList :=
  { l with bufHead := l.bufHead.tail, totalPkts := wsub 16 l.totalPkts 1 }

/-- Take a processed packet, which stays in the count. -/
def takeOut (l : RaList) : RaList :=
  { l with bufHead := l.bufHead.tail }

/-- A processed packet is sent. -/
def countOut (l : RaList) : RaList :=
  { l with totalPkts := wsub 16 l.totalPkts 1 }

def setPause (p : Bool) (l : RaList) : RaList :=
  { l with txPause := p }

/-- The packets that change sides when `tx_pause` becomes `p`. -/
def flipPkts (p : Bool) (l : RaList) : ℕ :=
  if l.txPause = p then 0 else l.totalPkts

/-- A new RA, and no pause. -/
def rename (ra : Mac) (l : RaList) : RaList :=
  { l with ra := ra, txPause := false }

/-- The packets to `mac`. -/
def tdlsPackets (mac : Mac) (l : RaList) : List Buf :=
  l.bufHead.filter fun b => b.ra = mac

/-- Without the packets to `mac`. -/
def holdTdls (mac : Mac) (l : RaList) : RaList :=
  { l with bufHead := l.bufHead.filter fun b => ¬b.ra = mac
           totalPkts := wsub 16 l.totalPkts (l.tdlsPackets mac).length }

/-- With the packets of the list `x`. -/
def takeOver (l x : RaList) : RaList :=
  { l with bufHead := l.bufHead ++ x.bufHead, totalPkts := wadd 16 l.totalPkts x.bufHead.length }

/-- `wlan_del_tx_pkts_in_ralist` drops from this list. -/
def droppable (l : RaList) : Bool :=
  l.totalPkts ≠ 0 && (l.txPause || rxLowThreshold < l.totalPkts) && !l.bufHead.isEmpty

theorem bufHead_ne_nil_of_droppable {l : RaList} (h : l.droppable = true) : l.bufHead ≠ [] := by
  intro hb
  simp [droppable, hb] at h

-- the fields, so that no proof compares a count with its successor
@[simp] theorem addr_pop (l : RaList) : l.pop.addr = l.addr := by
  rw [pop]

@[simp] theorem bufHead_pop (l : RaList) : l.pop.bufHead = l.bufHead.tail := by
  rw [pop]

@[simp] theorem totalPkts_pop (l : RaList) : l.pop.totalPkts = wsub 16 l.totalPkts 1 := by
  rw [pop]

@[simp] theorem txPause_pop (l : RaList) : l.pop.txPause = l.txPause := by
  rw [pop]

@[simp] theorem addr_countOut (l : RaList) : l.countOut.addr = l.addr := by
  rw [countOut]

@[simp] theorem bufHead_countOut (l : RaList) : l.countOut.bufHead = l.bufHead := by
  rw [countOut]

@[simp] theorem totalPkts_countOut (l : RaList) : l.countOut.totalPkts = wsub 16 l.totalPkts 1 := by
  rw [countOut]

@[simp] theorem txPause_countOut (l : RaList) : l.countOut.txPause = l.txPause := by
  rw [countOut]

@[simp] theorem addr_holdTdls (mac : Mac) (l : RaList) : (l.holdTdls mac).addr = l.addr := by
  rw [holdTdls]

@[simp] theorem bufHead_holdTdls (mac : Mac) (l : RaList) :
    (l.holdTdls mac).bufHead = l.bufHead.filter fun b => ¬b.ra = mac := by
  rw [holdTdls]

@[simp] theorem totalPkts_holdTdls (mac : Mac) (l : RaList) :
    (l.holdTdls mac).totalPkts = wsub 16 l.totalPkts (l.tdlsPackets mac).length := by
  rw [holdTdls]

@[simp] theorem txPause_holdTdls (mac : Mac) (l : RaList) : (l.holdTdls mac).txPause = l.txPause := by
  rw [holdTdls]

@[simp] theorem addr_takeOver (l x : RaList) : (l.takeOver x).addr = l.addr := by
  rw [takeOver]

@[simp] theorem bufHead_takeOver (l x : RaList) : (l.takeOver x).bufHead = l.bufHead ++ x.bufHead := by
  rw [takeOver]

@[simp] theorem totalPkts_takeOver (l x : RaList) :
    (l.takeOver x).totalPkts = wadd 16 l.totalPkts x.bufHead.length := by
  rw [takeOver]

@[simp] theorem txPause_takeOver (l x : RaList) : (l.takeOver x).txPause = l.txPause := by
  rw [takeOver]

end RaList

/-! ## TIDs and access categories -/

/-- `wlan_wmm_convert_tos_to_ac`, with the table `tos_to_ac`. -/
def convertTosToAc : ℕ → Ac
  | 0 => 1
  | 1 => 0
  | 2 => 0
  | 3 => 1
  | 4 => 2
  | 5 => 2
  | 6 => 3
  | 7 => 3
  | _ => 1

/-- The table `ac_to_tid`. -/
def acToTid : Ac → Bool → Tid
  | 0, false => 1
  | 0, true => 2
  | 1, false => 0
  | 1, true => 3
  | 2, false => 4
  | 2, true => 5
  | 3, false => 6
  | 3, true => 7

/-- One access category of a WMM parameter element. -/
structure AcParam where
  aci : Fin 4
  ecwMin : Fin 16
  aifsn : Fin 16
  deriving DecidableEq

/-- The table `wmm_aci_to_qidx_map`. -/
def aciToQidx : Fin 4 → Ac
  | 0 => 1
  | 1 => 0
  | 2 => 2
  | 3 => 3

def AcParam.avgBackOff (p : AcParam) : ℕ :=
  (2 ^ p.ecwMin.val - 1) / 2 + p.aifsn.val

/-- The other index of an access category's pair. -/
def sibling (i : Tid) : Tid :=
  ⟨if i.val % 2 = 1 then i.val - 1 else i.val + 1, by split_ifs <;> omega⟩

namespace Bss

variable (s : Bss)

/-- `wlan_wmm_downgrade_tid`. -/
def downgradeTid (tid : ℕ) : Tid :=
  let acDown := s.acDownGradedVals (convertTosToAc tid)
  if tid = 1 ∨ tid = 2 then acToTid acDown ((tid + 1) % 2 = 1)
  else if 8 ≤ tid then acToTid acDown false
  else acToTid acDown (tid % 2 = 1)

/-- `wlan_wmm_select_queue`. -/
def selectQueue (t : Tid) : Ac :=
  ((List.finRange 4).find? fun i => s.queuePriority i = s.acDownGradedVals (convertTosToAc t.val)).getD 0

/-- `wlan_wmm_queue_priorities_tid`. -/
def queuePrioritiesTid (qp : Fin 4 → Ac) : Bss :=
  let tos : Tid → Tid := fun k => acToTid (qp ⟨(7 - k.val) / 2, sub_half_lt k⟩) (k.val % 2 = 1)
  { s with
    tosToTid := tos
    tosToTidInv := (List.finRange 8).foldl (fun inv i => update inv (tos i) i) s.tosToTidInv
    highestQueuedPrio := highPrioTid }

/-- One comparison of the bubble sort, of `j - 1` and `j`. -/
def bubble (a : (Fin 4 → ℕ) × (Fin 4 → Ac)) (j : Fin 4) : (Fin 4 → ℕ) × (Fin 4 → Ac) :=
  if a.1 j < a.1 (j - 1) then (a.1 ∘ Equiv.swap (j - 1) j, a.2 ∘ Equiv.swap (j - 1) j)
  else if a.1 (j - 1) = a.1 j ∧ a.2 (j - 1) < a.2 j then (a.1, a.2 ∘ Equiv.swap (j - 1) j)
  else a

/-- `wlan_wmm_setup_queue_priorities`; there is no element, or WMM is off, in the first case. -/
def setupQueuePriorities : Option (Fin 4 → AcParam) → Bss
  | none => { s with queuePriority := Fin.rev }
  | some ie =>
    let qp := (List.finRange 4).foldl (fun qp n => update qp (aciToQidx (ie n).aci) (aciToQidx (ie n).aci))
      s.queuePriority
    let tmp := (List.finRange 4).foldl (fun tmp n => update tmp (aciToQidx (ie n).aci) (ie n).avgBackOff)
      fun _ => 0
    -- the pairs `i`, `j` of the two loops, in order
    let sorted := ([1, 2, 3, 1, 2, 1] : List (Fin 4)).foldl bubble (tmp, qp)
    { s.queuePrioritiesTid sorted.2 with queuePriority := sorted.2 }

/-! ## Nodes -/

/-- A node of row `t`, by its address. -/
def node (t : Tid) (a : ℕ) : Option RaList :=
  (s.tbl t).find? fun l => l.addr = a

/-- `wlan_wmm_get_ralist_node`. -/
def getRalistNode (t : Tid) (mac : Mac) : Option RaList :=
  (s.tbl t).find? fun l => l.ra = mac

/-- The first node of row `t`. -/
def firstNode (t : Tid) : Option ℕ :=
  (s.tbl t).head?.map RaList.addr

def isRalistValid (a : ℕ) (t : Tid) : Bool :=
  (s.node t a).isSome

/-- A node with this address is in some row. -/
def Live (a : ℕ) : Prop :=
  ∃ t, a ∈ (s.tbl t).map RaList.addr

instance : DecidablePred s.Live :=
  fun a => inferInstanceAs (Decidable (∃ t, a ∈ (s.tbl t).map RaList.addr))

/-- The node at an address, with its TID. -/
def deref (a : ℕ) : Option (Tid × RaList) :=
  (List.finRange 8).findSome? fun t => (s.node t a).map fun l => (t, l)

/-- `util_is_node_in_list` of the node's `pending_txq_entry`. -/
def Linked (a : ℕ) : Prop :=
  ∃ q, a ∈ s.pendingTxq q

instance : DecidablePred s.Linked :=
  fun a => inferInstanceAs (Decidable (∃ q, a ∈ s.pendingTxq q))

/-- Edit the node of row `t` at `a`. -/
def editNode (t : Tid) (a : ℕ) (f : RaList → RaList) : Tid → List RaList :=
  update s.tbl t (replaceFirst (fun l => l.addr = a) f (s.tbl t))

/-- `wlan_wmm_get_sta` finds an entry for the list's RA. -/
def hasSta (cfg : Config) (l : RaList) : Bool :=
  cfg.mclient && s.allStas.contains l.ra

/-- What `moal_malloc` and the station table answer to one call of `wlan_ralist_add`. -/
structure Alloc where
  /-- The nodes, from TID 0 on to the first failure. -/
  addrs : List ℕ
  /-- A `wmm_sta_table` was allocated. -/
  sta : Bool
  /-- `wlan_get_station_entry` has the RA. -/
  station : Bool
  /-- `wlan_is_tx_pause` of the RA. -/
  txPause : Bool
  deriving DecidableEq

/-- A new node of row `t`. -/
def newNode (cfg : Config) (c : Alloc) (ra : Mac) (t : Tid) (a : ℕ) : RaList :=
  { addr := a, ra := ra, bufHead := [], totalPkts := 0, txPause := cfg.raBased && c.txPause, queue := s.selectQueue t }

/-- The new nodes at the ends of their rows. -/
def grow (cfg : Config) (c : Alloc) (ra : Mac) : Bss :=
  { s with
    tbl := fun t => s.tbl t ++ (c.addrs[t.val]?.map (s.newNode cfg c ra t)).toList
    curr := fun t => if s.curr t = .null then (c.addrs[t.val]?.map RaPtr.node).getD .null else s.curr t
    allStas := if cfg.mclient && c.sta then s.allStas ++ [ra] else s.allStas }

/-- `moal_malloc` does not return a block in use. -/
def Fresh (c : Alloc) : Prop :=
  c.addrs.Nodup ∧ c.addrs.length ≤ 8 ∧ ∀ a ∈ c.addrs, ¬s.Live a
  deriving Decidable

def ralistAdd (cfg : Config) (c : Alloc) (ra : Mac) : Option Bss :=
  if s.Fresh c then some (s.grow cfg c ra) else none

/-- `wlan_wmm_get_queue_raptr`. -/
def getQueueRaptr (cfg : Config) (c : Alloc) (t : Tid) (ra : Mac) : Option (Bss × Option ℕ) :=
  match s.getRalistNode t ra with
  | some l => some (s, some l.addr)
  | none =>
    if cfg.uap && ra ≠ bcastAddr && !c.station then some (s, none)
    else (s.ralistAdd cfg c ra).map fun s' => (s', (s'.getRalistNode t ra).map RaList.addr)

/-! ## Enqueue -/

/-- The TDLS link to a destination, as `wlan_get_tdls_link_status` has it. -/
inductive TdlsLink
  | none
  | setup
  | inProgress
  deriving DecidableEq

/-- What `wlan_wmm_add_buf_txqueue` reads outside of the queues. -/
structure AddEnv where
  link : TdlsLink
  /-- The station has no WMM, and 11ac is off. -/
  legacy : Bool
  /-- The list is past the station's `queue_packets`, and the packet is not TCP. -/
  overBudget : Bool
  alloc : Alloc
  deriving DecidableEq

/-- The end of `wlan_wmm_add_buf_txqueue` : the packet goes to the node `r` of row `t`. -/
def enqueueBuf (cfg : Config) (e : AddEnv) (b : Buf) (t : Tid) (r : Option ℕ) : Bss :=
  match r.bind (s.node t) with
  | none => s
  | some l =>
    if s.hasSta cfg l && e.overBudget then s
    else { s with
      tbl := s.editNode t l.addr (RaList.pushTail b)
      pktsQueued := update s.pktsQueued t (wadd 32 (s.pktsQueued t) 1)
      pktsPaused := if l.txPause then update s.pktsPaused t (wadd 32 (s.pktsPaused t) 1) else s.pktsPaused
      txPktsQueued := if l.txPause then s.txPktsQueued else wadd 32 s.txPktsQueued 1
      highestQueuedPrio :=
        if l.txPause then s.highestQueuedPrio else s.highestQueuedPrio ⊔ ((s.tosToTidInv t : Tid) : WithBot Tid)
      pendingTxq :=
        if s.hasSta cfg l ∧ l.txPause = false ∧ ¬s.Linked l.addr then
          update s.pendingTxq (s.selectQueue t) (s.pendingTxq (s.selectQueue t) ++ [l.addr])
        else s.pendingTxq }

/-- `wlan_wmm_add_buf_txqueue`. -/
def addBufTxqueue (cfg : Config) (b : Buf) (e : AddEnv) : Option Bss :=
  let tid := s.downgradeTid b.priority
  if cfg.raBased then
    let dest := b.mac.getD b.ra
    let ra := if dest.isMulticast then bcastAddr else dest
    let tid := if !dest.isMulticast && cfg.uap && e.alloc.station && e.legacy then s.downgradeTid 0xff else tid
    (s.getQueueRaptr cfg e.alloc tid ra).map fun r => r.1.enqueueBuf cfg e b tid r.2
  else
    match e.link with
    | .setup => (s.getQueueRaptr cfg e.alloc tid b.ra).map fun r => r.1.enqueueBuf cfg e b tid r.2
    | .inProgress => some { s with tdlsPendingTxq := s.tdlsPendingTxq ++ [b] }
    | .none => some (s.enqueueBuf cfg e b tid (s.firstNode tid))

end Bss

end WlanDriver.Wmm
