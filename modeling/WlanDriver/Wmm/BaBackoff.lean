import WlanDriver.Wmm.Queues

/-!
# Block-ack set-up of an RA list

`wlan_dequeue_tx_packet` asks the peer for a block-ack stream once more than `ba_packet_threshold` packets came to the
list, as `packet_count` has it. When a stream is torn down, `mlan_11n_delete_bastream_tbl` starts the count again and
sets the threshold to 1024 and a random number, so that the next request waits for a thousand packets.

`BaList` is what these functions read and write of one RA list, in the widths of the source. `BacksOff` says that no
run from a state asks for a stream before 1024 packets have come. The threshold is a `t_u8`, so the constant is lost
in it, and `backsOff_iff` says for which lists the wait is kept.
-/

namespace WlanDriver.Wmm

open List Option WlanDriver.System

/-- `baStatus_e`. -/
inductive BaStatus
  | notSetup
  | setupInProgress
  | setupSentAddba
  | setupComplete
  | sentDelba
  deriving DecidableEq

/-- A packet of the list. -/
structure BaPkt where
  /-- `wlan_get_tid`; the list is that of the TID it is downgraded to. -/
  tid : Tid
  /-- `MLAN_BUF_FLAG_REQUEUED_PKT`. -/
  requeued : Bool
  deriving DecidableEq

/-- The block-ack side of `raListTbl`. -/
structure BaList where
  packetCount : UInt16
  baPacketThreshold : UInt8
  isWmmEnabled : Bool
  baStatus : BaStatus
  delBaCount : UInt8
  bufHead : List BaPkt
  /-- `tx_ba_stream_tbl_ptr` has an entry for the TID and the list's RA. -/
  stream : Tid → Bool

/-- What `wlan_get_random_ba_threshold` reads. -/
structure BaClock where
  sec : UInt32
  usec : UInt32
  minBaThreshold : UInt8
  deriving DecidableEq

def getRandomBaThreshold (c : BaClock) : UInt8 :=
  let sec : UInt32 := (c.sec &&& (0xFFFF : UInt32)) + (c.sec >>> (16 : UInt32))
  let usec : UInt32 := (c.usec &&& (0xFFFF : UInt32)) + (c.usec >>> (16 : UInt32))
  (((sec <<< (16 : UInt32)) + usec) % (16 : UInt32) + c.minBaThreshold.toUInt32).toUInt8

def delBaThreshold : UInt8 := 10

/-- `MIN_BA_SETUP_PACKET_REQIRED`. -/
def minBaSetupPacketRequired : ℕ := 1024

/-- What `wlan_dequeue_tx_packet` reads outside of the list, and what the send does. -/
structure BaEnv where
  remainOnChannel : Bool
  /-- `wps.session_enable`. -/
  sessionEnable : Bool
  /-- The RSSI is past `BA_RSSI_HIGH_THRESHOLD`. -/
  highRssi : Bool
  /-- `wlan_is_ampdu_allowed`. -/
  ampduAllowed : Bool
  /-- `wlan_is_bastream_avail`. -/
  bastreamAvail : Bool
  /-- `wlan_find_stream_to_delete`. -/
  streamToDelete : Bool
  /-- `wlan_11n_create_txbastream_tbl` has memory for the entry. -/
  allocated : Bool
  /-- `wlan_get_wmm_tid_down` of the packet's TID still leads to this list. -/
  down : Bool
  /-- The packets that an AMSDU takes behind the first one. -/
  aggregated : ℕ
  /-- The card gave `MLAN_STATUS_RESOURCE`. -/
  resource : Bool
  deriving DecidableEq

namespace BaList

variable (s : BaList)

/-- `wlan_wmm_add_buf_txqueue`; `wlan_restore_tdls_packets` and `wlan_wmm_delete_tdls_ralist` count a packet alike. -/
def addBufTxqueue (tid : Tid) : BaList :=
  { s with bufHead := s.bufHead ++ [⟨tid, false⟩], packetCount := s.packetCount + 1 }

/-- `wlan_hold_tdls_packets`, with the packets that it takes. -/
def holdTdlsPackets (held : BaPkt → Bool) : BaList :=
  { s with
    bufHead := s.bufHead.filter fun b => !held b
    packetCount := s.packetCount - (s.bufHead.countP held).toUInt16 }

/-- `wlan_del_tx_pkts_in_ralist`. -/
def delTxPkts : BaList :=
  { s with bufHead := s.bufHead.tail }

/-- `wlan_send_single_packet`, `wlan_send_processed_packet` or `wlan_11n_aggregate_pkt`, with `n` packets more. -/
def send (b : BaPkt) (rest : List BaPkt) (n : ℕ) (resource : Bool) : BaList :=
  { s with bufHead := if resource then { b with requeued := true } :: rest.drop n else rest.drop n }

/-- `wlan_11n_create_txbastream_tbl`. -/
def createTxbastreamTbl (e : BaEnv) (tid : Tid) (st : BaStatus) : BaList :=
  if e.allocated then
    { s with baStatus := if e.down then st else s.baStatus, stream := Function.update s.stream tid true }
  else s

/-- The set-up in `wlan_dequeue_tx_packet`; is `wlan_send_addba` called? -/
def setupBa (e : BaEnv) (tid : Tid) : BaList × Bool :=
  if s.stream tid then (s, false)
  else if e.bastreamAvail then (s.createTxbastreamTbl e tid .setupSentAddba, true)
  else if e.streamToDelete then (s.createTxbastreamTbl e tid .setupInProgress, false)
  else (s, false)

/-- `wlan_update_del_ba_count`, where the count is past its threshold. -/
def updateDelBaCount (e : BaEnv) : BaList :=
  if delBaThreshold ≤ s.delBaCount ∧ e.highRssi = true then { s with delBaCount := 0 } else s

/-- The list may get a block-ack stream now. -/
def maySetup (e : BaEnv) : Bool :=
  s.isWmmEnabled && !e.remainOnChannel && s.baStatus = .notSetup && s.delBaCount < delBaThreshold && !e.sessionEnable &&
    e.ampduAllowed && s.baPacketThreshold.toNat < s.packetCount.toNat

/-- `wlan_dequeue_tx_packet` with this list; does it issue an ADDBA? -/
def dequeueTxPacket (e : BaEnv) : Option (BaList × Bool) :=
  match s.bufHead with
  | [] => none
  | b :: rest =>
    if b.requeued then some (s.send b rest 0 e.resource, false)
    else
      let u := s.updateDelBaCount e
      let r := if u.maySetup e then u.setupBa e b.tid else (u, false)
      some (r.1.send b rest e.aggregated e.resource, r.2)

/-- `mlan_11n_delete_bastream_tbl`, where it takes the entry of a stream that the driver asked for. -/
def deleteBastreamTbl (tid : Tid) (received staTimeout : Bool) (c : BaClock) : BaList :=
  { s with
    stream := Function.update s.stream tid false
    baStatus := .notSetup
    delBaCount := if received then (if staTimeout then 0 else s.delBaCount + 1) else s.delBaCount
    packetCount := 0
    baPacketThreshold := (minBaSetupPacketRequired.toUInt32 + (getRandomBaThreshold c).toUInt32).toUInt8 }

/-- How the firmware answers an ADDBA. -/
inductive AddbaResult
  | success
  | refused
  | timeout
  deriving DecidableEq

/-- `wlan_ret_11n_addba_req`. -/
def retAddbaReq (tid : Tid) (r : AddbaResult) (c c' : BaClock) : BaList :=
  match r with
  | .success => if s.stream tid then { s with baStatus := .setupComplete } else s
  | .refused => if s.stream tid then s.deleteBastreamTbl tid false false c else { s with baStatus := .notSetup }
  | .timeout =>
    let u := if s.stream tid then s.deleteBastreamTbl tid false false c else { s with baStatus := .notSetup }
    { u with packetCount := 0, baPacketThreshold := getRandomBaThreshold c' }

def ralistUpdate (wmm : Bool) (c : BaClock) : BaList :=
  { s with isWmmEnabled := wmm, packetCount := 0, baPacketThreshold := getRandomBaThreshold c, baStatus := .notSetup }

end BaList

/-- What happens to a list. -/
inductive BaOp
  | add (tid : Tid)
  | hold (held : BaPkt → Bool)
  | drop
  | dequeue (e : BaEnv)
  | delba (tid : Tid) (received staTimeout : Bool) (c : BaClock)
  | addbaResp (tid : Tid) (r : BaList.AddbaResult) (c c' : BaClock)
  /-- `wlan_11n_cleanup_txbastream_tbl`, `wlan_11n_deleteall_txbastream_tbl`. -/
  | cleanup
  | update (wmm : Bool) (c : BaClock)

/-- One operation. -/
def BaList.step (s : BaList) : BaOp → Option BaList
  | .add tid => some (s.addBufTxqueue tid)
  | .hold held => some (s.holdTdlsPackets held)
  | .drop => some s.delTxPkts
  | .dequeue e => (s.dequeueTxPacket e).map Prod.fst
  | .delba tid received staTimeout c =>
    if s.stream tid then some (s.deleteBastreamTbl tid received staTimeout c) else some s
  | .addbaResp tid r c c' => some (s.retAddbaReq tid r c c')
  | .cleanup => some { s with stream := fun _ => false }
  | .update wmm c => some (s.ralistUpdate wmm c)

/-- A list, from `wlan_ralist_add` on. -/
def baSystem : System BaList BaOp where
  init s := s.packetCount = 0 ∧ s.baStatus = .notSetup ∧ s.delBaCount = 0 ∧ s.bufHead = [] ∧
    (∀ t, s.stream t = false) ∧ ∃ c, s.baPacketThreshold = getRandomBaThreshold c
  step := BaList.step

namespace BaOp

/-- A packet comes to the list. -/
def isAdd : BaOp → Bool
  | .add _ => true
  | _ => false

/-- `wlan_ralist_update` resets the list. -/
def isUpdate : BaOp → Bool
  | .update _ _ => true
  | _ => false

end BaOp

/-- From the state `u` on, no ADDBA before 1024 packets have come, as long as the list is not reset. -/
def BacksOff (u : BaList) : Prop :=
  ∀ ops s e r, (∀ op ∈ ops, BaOp.isUpdate op = false) → baSystem.run u ops = some s →
    s.dequeueTxPacket e = some (r, true) → minBaSetupPacketRequired ≤ ops.countP BaOp.isAdd

namespace BaList

variable {s s' : BaList} {e : BaEnv} {tid : Tid}

/-! ## Lists without WMM -/

theorem isWmmEnabled_updateDelBaCount (s : BaList) (e : BaEnv) : (s.updateDelBaCount e).isWmmEnabled = s.isWmmEnabled := by
  unfold updateDelBaCount
  split_ifs <;> rfl

theorem isWmmEnabled_setupBa (s : BaList) (e : BaEnv) (tid : Tid) : (s.setupBa e tid).1.isWmmEnabled = s.isWmmEnabled := by
  unfold setupBa createTxbastreamTbl
  split_ifs <;> rfl

theorem isWmmEnabled_dequeueTxPacket {r : BaList × Bool} (h : s.dequeueTxPacket e = some r) :
    r.1.isWmmEnabled = s.isWmmEnabled := by
  unfold dequeueTxPacket at h
  cases hb : s.bufHead with
  | nil => simp [hb] at h
  | cons b rest =>
    simp only [hb] at h
    split_ifs at h
    · obtain rfl := some.inj h
      rfl
    · obtain rfl := some.inj h
      exact (isWmmEnabled_setupBa _ e b.tid).trans (s.isWmmEnabled_updateDelBaCount e)
    · obtain rfl := some.inj h
      exact s.isWmmEnabled_updateDelBaCount e

theorem isWmmEnabled_of_addba {r : BaList} (h : s.dequeueTxPacket e = some (r, true)) : s.isWmmEnabled = true := by
  unfold dequeueTxPacket at h
  cases hb : s.bufHead with
  | nil => simp [hb] at h
  | cons b rest =>
    simp only [hb] at h
    split_ifs at h with hreq hmay
    · simp at h
    · simp only [maySetup, Bool.and_eq_true] at hmay
      rw [← s.isWmmEnabled_updateDelBaCount e]
      exact hmay.1.1.1.1.1.1
    · simp at h

/-- One operation keeps `is_wmm_enabled`, unless it resets the list. -/
theorem isWmmEnabled_step {op : BaOp} (hop : op.isUpdate = false) (h : s.step op = some s') :
    s'.isWmmEnabled = s.isWmmEnabled := by
  cases op with
  | add tid =>
    obtain rfl := some.inj h
    rfl
  | hold held =>
    obtain rfl := some.inj h
    rfl
  | drop =>
    obtain rfl := some.inj h
    rfl
  | dequeue e =>
    obtain ⟨r, hr, rfl⟩ := map_eq_some_iff.mp h
    exact isWmmEnabled_dequeueTxPacket hr
  | delba tid received staTimeout c =>
    simp only [step] at h
    split_ifs at h <;> obtain rfl := some.inj h <;> rfl
  | addbaResp tid r c c' =>
    obtain rfl := some.inj h
    cases r <;> simp only [retAddbaReq] <;> split_ifs <;> rfl
  | cleanup =>
    obtain rfl := some.inj h
    rfl
  | update wmm c => simp [BaOp.isUpdate] at hop

theorem isWmmEnabled_run {ops : List BaOp} (hops : ∀ op ∈ ops, BaOp.isUpdate op = false)
    (h : baSystem.run s ops = some s') : s'.isWmmEnabled = s.isWmmEnabled := by
  induction ops generalizing s with
  | nil =>
    simp only [run, runWhen, some.injEq] at h
    rw [h]
  | cons op ops ih =>
    simp only [run, runWhen, if_true] at h
    obtain ⟨u, hu, h⟩ := bind_eq_some_iff.mp h
    rw [ih (fun op hop => hops op (mem_cons_of_mem _ hop)) h]
    exact isWmmEnabled_step (hops op mem_cons_self) hu

/-! ## Lists with WMM -/

/-- A send without a set-up. -/
def plainEnv : BaEnv := ⟨true, false, false, false, false, false, true, true, 0, false⟩

/-- All is ready for a set-up. -/
def readyEnv : BaEnv := ⟨false, false, true, true, true, false, true, true, 0, false⟩

theorem step_plain {b : BaPkt} {rest : List BaPkt} (h : s.bufHead = b :: rest) :
    s.step (.dequeue plainEnv) = some { s with bufHead := rest } := by
  have hcount : s.updateDelBaCount plainEnv = s := by simp [updateDelBaCount, plainEnv]
  have hmay : s.maySetup plainEnv = false := by simp [maySetup, plainEnv]
  simp only [step, dequeueTxPacket, h, hcount, hmay]
  cases b.requeued <;> simp [send, plainEnv]

/-- The packets that are queued go out without a set-up. -/
theorem run_drain (rest : List BaPkt) (ops : List BaOp) (s : BaList) (h : s.bufHead = rest) :
    baSystem.run s (List.replicate rest.length (BaOp.dequeue plainEnv) ++ ops) =
      baSystem.run { s with bufHead := [] } ops := by
  induction rest generalizing s with
  | nil =>
    obtain ⟨_, _, _, _, _, _, _⟩ := s
    subst h
    rfl
  | cons b rest ih =>
    rw [length_cons, replicate_succ, cons_append, run, runWhen, if_pos trivial]
    have hstep : baSystem.step s (.dequeue plainEnv) = some { s with bufHead := rest } := step_plain h
    rw [hstep, bind_some]
    exact ih { s with bufHead := rest } rfl

/-- `n` packets come to the list. -/
theorem run_adds (tid : Tid) (n : ℕ) (s : BaList) :
    baSystem.run s (List.replicate n (BaOp.add tid)) =
      some { s with bufHead := s.bufHead ++ List.replicate n ⟨tid, false⟩, packetCount := s.packetCount + n.toUInt16 } := by
  induction n generalizing s with
  | zero =>
    obtain ⟨_, _, _, _, _, _, _⟩ := s
    simp [run, runWhen]
  | succ n ih =>
    rw [replicate_succ, run, runWhen, if_pos trivial]
    have hstep : baSystem.step s (.add tid) = some (s.addBufTxqueue tid) := rfl
    rw [hstep, bind_some]
    refine (ih _).trans ?_
    have hcount : s.packetCount + 1 + n.toUInt16 = s.packetCount + (n + 1).toUInt16 := by
      simp only [Nat.toUInt16, UInt16.ofNat_add, UInt16.add_assoc, UInt16.add_comm 1]
      rfl
    simp only [addBufTxqueue, append_assoc, hcount, replicate_succ, singleton_append]

/-- Past the threshold, the next packet of a TID without a stream asks for one. -/
theorem addba_of_lt {b : BaPkt} {rest : List BaPkt} (hb : s.bufHead = b :: rest) (hreq : b.requeued = false)
    (hwmm : s.isWmmEnabled = true) (hstatus : s.baStatus = .notSetup) (hstream : s.stream b.tid = false)
    (hlt : s.baPacketThreshold.toNat < s.packetCount.toNat) : ∃ r, s.dequeueTxPacket readyEnv = some (r, true) := by
  obtain ⟨u, hu⟩ : ∃ u, u = s.updateDelBaCount readyEnv := ⟨_, rfl⟩
  have hcount : u.delBaCount < delBaThreshold := by
    rw [hu, updateDelBaCount]
    split_ifs with hd
    · exact (by decide : (0 : UInt8) < delBaThreshold)
    · have hready : readyEnv.highRssi = true := rfl
      simpa [hready, UInt8.not_le] using hd
  have hsame : u.isWmmEnabled = s.isWmmEnabled ∧ u.baStatus = s.baStatus ∧ u.stream = s.stream ∧
      u.baPacketThreshold = s.baPacketThreshold ∧ u.packetCount = s.packetCount := by
    rw [hu, updateDelBaCount]
    split_ifs <;> exact ⟨rfl, rfl, rfl, rfl, rfl⟩
  obtain ⟨hw, hst, hstr, hth, hpc⟩ := hsame
  have hmay : u.maySetup readyEnv = true := by
    simp [maySetup, readyEnv, hw, hwmm, hst, hstatus, hcount, hth, hpc, hlt]
  have hsetup : (u.setupBa readyEnv b.tid).2 = true := by
    simp [setupBa, hstr, hstream, readyEnv]
  refine ⟨(u.setupBa readyEnv b.tid).1.send b rest 0 false, ?_⟩
  simp only [dequeueTxPacket, hb, hreq, ← hu, hmay, hsetup, if_true, Bool.false_eq_true, if_false]
  rfl

/-- A list with WMM asks again after at most 256 packets : those that are queued go out first, and then comes one more
than the threshold. -/
theorem not_backsOff (tid : Tid) {u : BaList} (hwmm : u.isWmmEnabled = true) (hstatus : u.baStatus = .notSetup)
    (hstream : u.stream tid = false) (hcount : u.packetCount = 0) : ¬BacksOff u := by
  intro h
  let n := u.baPacketThreshold.toNat + 1
  have hn : n ≤ 256 := u.baPacketThreshold.toNat_lt
  let ops : List BaOp := List.replicate u.bufHead.length (BaOp.dequeue plainEnv) ++ List.replicate n (BaOp.add tid)
  have hrun := (run_drain u.bufHead (List.replicate n (BaOp.add tid)) u rfl).trans
    (run_adds tid n { u with bufHead := [] })
  have hlt : u.baPacketThreshold.toNat < (u.packetCount + n.toUInt16).toNat := by
    have hn16 : n.toUInt16.toNat = n := UInt16.toNat_ofNat_of_lt (by simp only [UInt16.size]; omega)
    rw [hcount, UInt16.zero_add, hn16]
    exact Nat.lt_succ_self _
  have hhead : [] ++ List.replicate n (⟨tid, false⟩ : BaPkt) = ⟨tid, false⟩ :: List.replicate (n - 1) ⟨tid, false⟩ := rfl
  obtain ⟨r, hr⟩ := addba_of_lt
    (s := { u with bufHead := [] ++ List.replicate n ⟨tid, false⟩, packetCount := u.packetCount + n.toUInt16 })
    hhead rfl hwmm hstatus hstream hlt
  have hops : ∀ op ∈ ops, BaOp.isUpdate op = false := by
    intro op hop
    rcases mem_append.mp hop with hop | hop <;> rw [eq_of_mem_replicate hop] <;> rfl
  have hadds : ops.countP BaOp.isAdd = n := by
    simp [ops, countP_append, countP_replicate, BaOp.isAdd]
  have := h ops _ readyEnv r hops hrun hr
  rw [hadds] at this
  have hreq : minBaSetupPacketRequired = 1024 := rfl
  omega

end BaList

/-- **Back-off after a teardown.** The next ADDBA waits for 1024 packets if and only if the list has no WMM, and then gets
no ADDBA at all. -/
theorem backsOff_iff (s : BaList) (tid : Tid) (received staTimeout : Bool) (c : BaClock) :
    BacksOff (s.deleteBastreamTbl tid received staTimeout c) ↔ s.isWmmEnabled = false := by
  constructor
  · intro h
    by_contra hwmm
    have hon : s.isWmmEnabled = true := by simpa using hwmm
    refine BaList.not_backsOff tid (u := s.deleteBastreamTbl tid received staTimeout c) hon rfl ?_ rfl h
    exact Function.update_self tid false s.stream
  · intro hwmm ops s' e r hops hrun haddba
    have hkeep := BaList.isWmmEnabled_run hops hrun
    have hon := BaList.isWmmEnabled_of_addba haddba
    rw [hkeep] at hon
    exact absurd (hwmm.symm.trans hon) (by decide)

/-- The peer deletes the stream. At the time 0 and with `min_ba_threshold` 0, the second packet after it asks again. -/
theorem addba_after_one_packet : ¬∀ s, baSystem.Reachable s → ∀ tid received staTimeout c, s.stream tid = true →
    BacksOff (s.deleteBastreamTbl tid received staTimeout c) := by
  intro h
  obtain ⟨s, hs, hrun⟩ := exists_reachable_of_run (M := baSystem)
    (P := fun s => s.stream 0 && ((baSystem.run (s.deleteBastreamTbl 0 true false ⟨0, 0, 0⟩) [.add 0]).bind
      fun u => u.dequeueTxPacket BaList.readyEnv).any Prod.snd)
    (l := [.add 0, .dequeue BaList.readyEnv, .addbaResp 0 .success ⟨0, 0, 0⟩ ⟨0, 0, 0⟩])
    (s := ⟨0, 0, true, .notSetup, 0, [], fun _ => false⟩)
    ⟨rfl, rfl, rfl, rfl, fun _ => rfl, ⟨0, 0, 0⟩, by decide⟩ (by decide +kernel)
  simp only [Bool.and_eq_true] at hrun
  obtain ⟨hstream, haddba⟩ := hrun
  cases hu : (baSystem.run (s.deleteBastreamTbl 0 true false ⟨0, 0, 0⟩) [.add 0]) with
  | none => simp [hu] at haddba
  | some u =>
    rw [hu, bind_some] at haddba
    cases hr : u.dequeueTxPacket BaList.readyEnv with
    | none => simp [hr] at haddba
    | some r =>
      obtain ⟨r, issued⟩ := r
      rw [hr, any_some] at haddba
      obtain rfl : issued = true := haddba
      have := h s hs 0 true false ⟨0, 0, 0⟩ hstream [.add 0] u BaList.readyEnv r (by simp [BaOp.isUpdate]) hu hr
      exact absurd this (by decide)

end WlanDriver.Wmm
