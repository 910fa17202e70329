import WlanDriver.Wmm.Nodes

/-!
# TDLS events and the pause of the access point

While a station is with a TDLS peer off the base channel, `wlan_update_non_tdls_ralist` pauses the RA lists of the
access point and of the other peers. `wlan_parse_tdls_event` decides from the events of the firmware and from
`tdls_status` when to pause and when to resume.

Some of its branches write `tdls_status` without a look at the lists : a link that is established, fails or is torn
down, and a switch that failed. From off channel they leave lists paused that nothing resumes : the next result on the
base channel finds `TDLS_IN_BASE_CHANNEL` already set. `TdlsRun.Keeps` is the condition on an event under which
the lists agree with the status (`pauses_match`).
-/

namespace WlanDriver.Wmm

open Ethernet List Option

/-! ## The event handler -/

/-- `tdlsStatus_e`. -/
inductive TdlsStatus
  | notSetup
  | setupInprogress
  | setupComplete
  | setupFailure
  | tearDown
  | switchingChannel
  | inBaseChannel
  | inOffChannel
  deriving DecidableEq

/-- `TDLS_EVENT_TYPE_*`. -/
inductive TdlsEventType
  | setupFailure
  | setupReq
  | linkTornDown
  | linkEstablished
  | debug
  | packet
  | chanSwitchResult
  | startChanSwitch
  | chanSwitchStopped
  | unknown
  deriving DecidableEq

/-- `sta_node`, a TDLS peer. -/
structure StaNode where
  macAddr : Mac
  status : TdlsStatus
  externalTdls : Bool
  deriving DecidableEq

/-- `Event_tdls_generic`, and the length of the buffer it is in. -/
structure TdlsEvent where
  dataLen : ℕ
  eventType : TdlsEventType
  peerMacAddr : Mac
  /-- `u.switch_result.current_channel`. -/
  currentChannel : ℕ
  /-- `u.switch_result.status`. -/
  status : ℕ
  deriving DecidableEq

/-- What `moal_malloc` answers while an event is handled. -/
structure TdlsEnv where
  /-- To `wlan_add_station_entry`. -/
  station : Bool
  /-- To the calls of `wlan_ralist_add`. -/
  allocs : List Bss.Alloc
  deriving DecidableEq

/-- What the handler works on. -/
structure TdlsSta where
  bss : Bss
  staList : List StaNode
  /-- Of the adapter. -/
  tdlsStatus : TdlsStatus

/-- A station in infrastructure mode. -/
def tdlsConfig (mclient : Bool) : Config where
  mclient := mclient
  raBased := false
  uap := false

def tdlsBaseChannel : ℕ := 0

def tdlsOffChannel : ℕ := 1

/-- The least length of an event : without the reason code, and the event id is not counted. The union of an
`Event_tdls_generic` is not packed, so that it has four octets. -/
def tdlsEventMin : ℕ := 12 - 2 - 4

namespace TdlsSta

variable (s : TdlsSta)

def getStationEntry (mac : Mac) : Option StaNode :=
  s.staList.find? fun x => x.macAddr = mac

/-- The end of a link : `wlan_restore_tdls_packets`, `wlan_delete_station_entry`, and the status by what is left. -/
def dropLink (mclient : Bool) (env : TdlsEnv) (mac : Mac) : Option TdlsSta :=
  (s.bss.restoreTdlsPackets (tdlsConfig mclient) mac false env.allocs).map fun b =>
    let rest := s.staList.eraseP fun x => x.macAddr = mac
    ⟨b, rest, if rest = [] then .notSetup else .inBaseChannel⟩

/-- `TDLS_EVENT_TYPE_CHAN_SWITCH_RESULT`. -/
def chanSwitchResult (e : TdlsEvent) : TdlsSta :=
  if e.status = 0 then
    if e.currentChannel = tdlsBaseChannel then
      -- enable traffic to AP
      if s.tdlsStatus ≠ .inBaseChannel then
        { s with bss := s.bss.updateNonTdlsRalist e.peerMacAddr false, tdlsStatus := .inBaseChannel }
      else s
    else if e.currentChannel = tdlsOffChannel then
      -- pause traffic to AP
      if s.tdlsStatus ≠ .inOffChannel then
        { s with bss := s.bss.updateNonTdlsRalist e.peerMacAddr true, tdlsStatus := .inOffChannel }
      else s
    else s
  else if e.currentChannel = tdlsBaseChannel then { s with tdlsStatus := .inBaseChannel }
  else if e.currentChannel = tdlsOffChannel then { s with tdlsStatus := .inOffChannel }
  else s

/-- `wlan_parse_tdls_event`. It has no outcome where `wlan_restore_tdls_packets` has none. -/
def parseTdlsEvent (mclient : Bool) (env : TdlsEnv) (e : TdlsEvent) : Option TdlsSta :=
  if e.dataLen < tdlsEventMin then some s
  else match e.eventType, s.getStationEntry e.peerMacAddr with
    | .setupReq, none =>
      some (if env.station then
        { s with
          bss := s.bss.holdTdlsPackets e.peerMacAddr
          staList := s.staList ++ [⟨e.peerMacAddr, .setupInprogress, false⟩] }
        else s)
    | .linkEstablished, some _ =>
      (s.bss.restoreTdlsPackets (tdlsConfig mclient) e.peerMacAddr true env.allocs).map fun b =>
        { bss := b
          staList := replaceFirst (fun x => x.macAddr = e.peerMacAddr) (fun x => { x with status := .setupComplete })
            s.staList
          tdlsStatus := .inBaseChannel }
    | .setupFailure, _ => s.dropLink mclient env e.peerMacAddr
    | .linkTornDown, some sta =>
      -- an external link goes with the response of the firmware
      if sta.externalTdls then some { s with tdlsStatus := .tearDown } else s.dropLink mclient env e.peerMacAddr
    | .chanSwitchResult, _ => some (s.chanSwitchResult e)
    | .startChanSwitch, _ => some { s with tdlsStatus := .switchingChannel }
    | _, _ => some s

end TdlsSta

/-! ## Runs -/

/-- A station with what its events said about the channel. -/
structure TdlsRun extends TdlsSta where
  /-- The peer of the last switch that came to a result. -/
  peer : Mac
  /-- The status was last left from off channel. -/
  back : Bool

/-- What a run consists of. -/
inductive TdlsStep
  | event (e : TdlsEvent) (env : TdlsEnv)
  /-- `wlan_wmm_add_buf_txqueue`. -/
  | send (b : Buf) (e : Bss.AddEnv)
  deriving DecidableEq

/-- Every RA list has `P` of its address and its pause. -/
def Bss.EachPause (P : Mac → Bool → Prop) (s : Bss) : Prop :=
  ∀ t, ∀ l ∈ s.tbl t, P l.ra l.txPause

instance (P : Mac → Bool → Prop) [∀ m p, Decidable (P m p)] (s : Bss) : Decidable (s.EachPause P) :=
  inferInstanceAs (Decidable (∀ t, ∀ l ∈ s.tbl t, P l.ra l.txPause))

/-- No list is paused. -/
def Bss.NonePaused : Bss → Prop :=
  Bss.EachPause fun _ p => p = false

/-- No list of this address is paused. -/
def Bss.Resumed (mac : Mac) : Bss → Prop :=
  Bss.EachPause fun m p => m = mac → p = false

/-- The lists of all other addresses are paused. -/
def Bss.OthersPaused (mac : Mac) : Bss → Prop :=
  Bss.EachPause fun m p => m ≠ mac → p = true

instance : DecidablePred Bss.NonePaused :=
  fun s => inferInstanceAs (Decidable (s.EachPause fun _ p => p = false))

instance (mac : Mac) : DecidablePred (Bss.Resumed mac) :=
  fun s => inferInstanceAs (Decidable (s.EachPause fun m p => m = mac → p = false))

instance (mac : Mac) : DecidablePred (Bss.OthersPaused mac) :=
  fun s => inferInstanceAs (Decidable (s.EachPause fun m p => m ≠ mac → p = true))

namespace TdlsRun

variable (r : TdlsRun)

/-- Off channel, or on the way back. -/
def away : Bool :=
  r.tdlsStatus = .inOffChannel || r.tdlsStatus = .switchingChannel && r.back

/-- The peer of the last result, after `e`. -/
def nextPeer (e : TdlsEvent) : Mac :=
  if tdlsEventMin ≤ e.dataLen ∧ e.eventType = .chanSwitchResult ∧
      (e.currentChannel = tdlsBaseChannel ∨ e.currentChannel = tdlsOffChannel) then e.peerMacAddr
  else r.peer

/-- One step. -/
def step (mclient : Bool) : TdlsStep → Option TdlsRun
  | .event e env => (r.parseTdlsEvent mclient env e).map fun s => { s with peer := r.nextPeer e, back := r.away }
  | .send b e => (r.bss.addBufTxqueue (tdlsConfig mclient) b e).map fun u => { r with bss := u }

/-- The lists are paused as the status says : only away from the base channel, and then all but the peer's. -/
def PausesMatch : Prop :=
  ∀ t, ∀ l ∈ r.bss.tbl t, (l.txPause = true → r.away = true) ∧ (r.away = true → l.ra ≠ r.peer → l.txPause = true)

instance : DecidablePred PausesMatch :=
  fun r => inferInstanceAs (Decidable (∀ t, ∀ l ∈ r.bss.tbl t, _ ∧ _))

/-- An event that the lists follow. What ends or sets up a link, and a failed switch that ends on the base channel, come
while no list is paused; a result on the base channel names the peer that is not paused, and off channel the lists of
all others are paused where the event leaves them as they are. -/
def Follows (e : TdlsEvent) : Prop :=
  e.dataLen < tdlsEventMin ∨
  match e.eventType with
  | .linkEstablished | .linkTornDown => (r.getStationEntry e.peerMacAddr).isSome → r.bss.NonePaused
  | .setupFailure => r.bss.NonePaused
  | .chanSwitchResult =>
    (e.currentChannel = tdlsBaseChannel → if e.status = 0 then r.bss.Resumed e.peerMacAddr else r.bss.NonePaused) ∧
      (e.currentChannel = tdlsOffChannel → ¬e.status = 0 ∨ r.tdlsStatus = .inOffChannel →
        r.bss.OthersPaused e.peerMacAddr)
  | _ => True

instance (e : TdlsEvent) : Decidable (r.Follows e) := by
  unfold Follows
  cases e.eventType <;> infer_instance

/-- The condition on a step. Away from the base channel no packet brings a new list for another peer. -/
def Keeps : TdlsStep → Prop
  | .event e _ => r.Follows e
  | .send b e => r.away = true → e.link = .setup → b.ra ≠ r.peer →
    (r.bss.getRalistNode (r.bss.downgradeTid b.priority) b.ra).isSome

instance (a : TdlsStep) : Decidable (r.Keeps a) := by
  cases a <;> unfold Keeps <;> infer_instance

end TdlsRun

/-- A connected station : no link is set up, and no list is paused. -/
def tdlsSystem (mclient : Bool) : System TdlsRun TdlsStep where
  init r := r.tdlsStatus = .notSetup ∧ r.bss.NonePaused
  step r := r.step mclient

/-! ## Pauses under the queue operations -/

namespace Bss

variable {cfg : Config} {s s' : Bss} {P Q : Mac → Bool → Prop} {t : Tid} {x y : RaList} {mac : Mac}

section

variable (h : s.EachPause P)

include h

theorem EachPause.nodeEdit (he : NodeEdit s s' t x y) (hra : y.ra = x.ra)
    (hp : y.txPause = x.txPause) : s'.EachPause P := by
  intro u l hl
  by_cases hu : u = t
  · subst hu
    refine he.row.forall_mem (P := fun z => P z.ra z.txPause) (h u) ?_ l hl
    rw [hra, hp]
    exact h u x he.row.mem_old
  · rw [he.other u hu] at hl
    exact h u l hl

/-- New lists of a station are not paused. -/
theorem EachPause.grow {c : Alloc} (hb : cfg.raBased = false) (hP : P mac false) :
    (s.grow cfg c mac).EachPause P := by
  intro t l hl
  rcases mem_append.mp hl with hl | hl
  · exact h t l hl
  · obtain ⟨a, -, rfl⟩ := map_eq_some_iff.mp (mem_toList.mp hl)
    simpa [newNode, hb] using hP

theorem EachPause.restoreBuf {b : Buf} {r : Option ℕ} : (s.restoreBuf b t r).EachPause P := by
  rcases s.restoreBuf_cases b t r with heq | ⟨l, -, -, hedit⟩
  · rwa [heq]
  · exact h.nodeEdit hedit rfl rfl

theorem EachPause.enqueueBuf {e : AddEnv} {b : Buf} {r : Option ℕ} :
    (s.enqueueBuf cfg e b t r).EachPause P := by
  rcases s.enqueueBuf_cases cfg e b t r with heq | ⟨l, -, hedit, -⟩
  · rwa [heq]
  · exact h.nodeEdit hedit rfl rfl

theorem EachPause.restoreLoop (hb : cfg.raBased = false) {complete : Bool}
    (hP : complete = true → P mac false) {bs : List Buf} {cs : List Alloc}
    (hs : Bss.restoreLoop cfg mac complete bs cs s = some s') : s'.EachPause P := by
  refine restoreLoop_invariant (A := fun _ => True) (I := fun _ u => u.EachPause P) ?_ (fun _ _ => trivial) h hs
  intro b bs v u r hv hto
  rcases hto.1 with rfl | ⟨c, -, hc, -, -, rfl⟩
  · exact hv.restoreBuf
  · exact (hv.grow hb (hP hc)).restoreBuf

theorem EachPause.holdTdlsPackets : (s.holdTdlsPackets mac).EachPause P := by
  intro t l hl
  change l ∈ holdRow mac (s.tbl t) at hl
  have hrow := h t
  cases hs : s.tbl t with
  | nil => simp [hs, holdRow] at hl
  | cons ap rest =>
    rw [hs] at hl hrow
    rcases mem_cons.mp hl with rfl | hl
    · exact hrow ap mem_cons_self
    · exact hrow l (mem_cons_of_mem _ hl)

/-- The teardown of a link only drops lists, and moves packets. -/
theorem EachPause.deleteTdlsRalist (hs : s.deleteTdlsRalist mac = some s') : s'.EachPause P := by
  obtain ⟨-, rfl⟩ := deleteTdlsRalist_eq hs
  intro t l hl
  change l ∈ deleteTdlsRow mac (s.tbl t) at hl
  have hrow := h t
  rcases deleteTdlsRow_cases mac (s.tbl t) with
    ⟨heq, -⟩ | ⟨ap, rest, htbl, ⟨-, heq⟩ | ⟨x, rest', -, -, hrem, -, heq⟩⟩
  · exact hrow l (heq ▸ hl)
  · rw [htbl] at hrow
    exact hrow l (mem_cons_of_mem _ (heq ▸ hl))
  · rw [htbl] at hrow
    rcases mem_cons.mp (heq ▸ hl) with rfl | hl
    · exact hrow ap mem_cons_self
    · exact hrow l (mem_cons_of_mem _ (hrem.sublist.subset hl))

theorem EachPause.restoreTdlsPackets (hb : cfg.raBased = false) {complete : Bool}
    (hP : complete = true → P mac false) {cs : List Alloc}
    (hs : s.restoreTdlsPackets cfg mac complete cs = some s') : s'.EachPause P := by
  obtain ⟨u, hu, hend⟩ := restoreTdlsPackets_cases hs
  have hloop : u.EachPause P :=
    EachPause.restoreLoop (s := { s with tdlsPendingTxq := s.tdlsPendingTxq.filter fun b => ¬b.ra = mac }) h hb hP hu
  rcases hend with ⟨-, rfl⟩ | ⟨-, hdel⟩
  · exact hloop
  · exact hloop.deleteTdlsRalist hdel

end

/-- The lists of the peer stay, the others are set. -/
theorem EachPause.updateNonTdlsRalist {p : Bool} (hpeer : s.EachPause fun m q => m = mac → P m q)
    (hP : ∀ m, m ≠ mac → P m p) : (s.updateNonTdlsRalist mac p).EachPause P := by
  intro t l hl
  obtain ⟨z, hz, rfl⟩ := mem_map.mp hl
  by_cases hra : z.ra = mac
  · simpa only [ne_eq, hra, not_true, if_false] using hpeer t z hz hra
  · simpa only [ne_eq, hra, not_false_eq_true, if_true, RaList.setPause] using hP z.ra hra

end Bss

/-! ## The pauses follow the status -/

namespace TdlsRun

variable {mclient : Bool} {r r' : TdlsRun}

theorem PausesMatch.nonePaused (h : r.PausesMatch) (ha : r.away = false) : r.bss.NonePaused := by
  intro t l hl
  by_contra hp
  have := (h t l hl).1 (by simpa using hp)
  simp [ha] at this

theorem pausesMatch_of_nonePaused (ha : r.away = false) (h : r.bss.NonePaused) : r.PausesMatch := by
  intro t l hl
  simp [ha, h t l hl]

theorem pausesMatch_of_othersPaused (ha : r.away = true) (h : r.bss.OthersPaused r.peer) : r.PausesMatch := by
  intro t l hl
  exact ⟨fun _ => ha, fun _ hne => h t l hl hne⟩

/-- With nothing to note the run stays as it was. -/
theorem PausesMatch.stay (h : r.PausesMatch) : PausesMatch { r with back := r.away } := by
  have ha : away { r with back := r.away } = r.away := by
    simp only [away]
    cases r.tdlsStatus <;> simp
  intro t l hl
  rw [ha]
  exact h t l hl

/-- On the base channel, or without a link, nothing may be paused. -/
theorem pausesMatch_home {s : TdlsSta} {peer : Mac} {back : Bool} (hoff : s.tdlsStatus ≠ .inOffChannel)
    (hsw : s.tdlsStatus ≠ .switchingChannel) (h : s.bss.NonePaused) :
    PausesMatch { s with peer := peer, back := back } :=
  pausesMatch_of_nonePaused (by simp [away, hoff, hsw]) h

theorem pausesMatch_off {s : TdlsSta} {peer : Mac} {back : Bool} (hoff : s.tdlsStatus = .inOffChannel)
    (h : s.bss.OthersPaused peer) : PausesMatch { s with peer := peer, back := back } :=
  pausesMatch_of_othersPaused (by simp [away, hoff]) h

theorem nonePaused_of_status (h : r.PausesMatch) (hs : r.tdlsStatus = .inBaseChannel) : r.bss.NonePaused :=
  h.nonePaused (by simp [away, hs])

theorem PausesMatch.dropLink {env : TdlsEnv} {mac peer : Mac} {back : Bool} {s : TdlsSta}
    (hn : r.bss.NonePaused) (hs : r.dropLink mclient env mac = some s) :
    PausesMatch { s with peer := peer, back := back } := by
  obtain ⟨b, hb, rfl⟩ := map_eq_some_iff.mp hs
  have hb' : b.NonePaused :=
    Bss.EachPause.restoreTdlsPackets hn rfl (fun h => absurd h (by decide)) hb
  refine pausesMatch_home ?_ ?_ hb' <;> dsimp only <;> split_ifs <;> decide

theorem Follows.result {e : TdlsEvent} (hf : r.Follows e) (hlen : tdlsEventMin ≤ e.dataLen)
    (htype : e.eventType = .chanSwitchResult) :
    (e.currentChannel = tdlsBaseChannel → if e.status = 0 then r.bss.Resumed e.peerMacAddr else r.bss.NonePaused) ∧
      (e.currentChannel = tdlsOffChannel → ¬e.status = 0 ∨ r.tdlsStatus = .inOffChannel →
        r.bss.OthersPaused e.peerMacAddr) := by
  rw [Follows, htype] at hf
  exact hf.resolve_left (Nat.not_lt.mpr hlen)

theorem PausesMatch.chanSwitchResult (h : r.PausesMatch) {e : TdlsEvent} (hlen : tdlsEventMin ≤ e.dataLen)
    (htype : e.eventType = .chanSwitchResult) (hf : r.Follows e) :
    PausesMatch { r.toTdlsSta.chanSwitchResult e with peer := r.nextPeer e, back := r.away } := by
  obtain ⟨hbase, hoff⟩ := hf.result hlen htype
  by_cases hb : e.currentChannel = tdlsBaseChannel
  · have hpeer : r.nextPeer e = e.peerMacAddr := by simp [nextPeer, hlen, htype, hb]
    rw [hpeer]
    by_cases hok : e.status = 0
    · by_cases hst : r.tdlsStatus = .inBaseChannel
      · simp only [TdlsSta.chanSwitchResult, if_pos hok, if_pos hb, hst, ne_eq, not_true, if_false]
        exact pausesMatch_home (by simp [hst]) (by simp [hst]) (nonePaused_of_status h hst)
      · simp only [TdlsSta.chanSwitchResult, if_pos hok, if_pos hb, ne_eq, hst, not_false_eq_true, if_true]
        have hres : r.bss.Resumed e.peerMacAddr := by simpa only [hok, if_true] using hbase hb
        refine pausesMatch_home (fun hn => by cases hn) (fun hn => by cases hn) ?_
        exact Bss.EachPause.updateNonTdlsRalist hres fun _ _ => rfl
    · simp only [TdlsSta.chanSwitchResult, if_neg hok, if_pos hb]
      have hnone : r.bss.NonePaused := by simpa only [hok, if_false] using hbase hb
      exact pausesMatch_home (fun hn => by cases hn) (fun hn => by cases hn) hnone
  · by_cases ho : e.currentChannel = tdlsOffChannel
    · have hpeer : r.nextPeer e = e.peerMacAddr := by simp [nextPeer, hlen, htype, ho]
      rw [hpeer]
      by_cases hok : e.status = 0
      · by_cases hst : r.tdlsStatus = .inOffChannel
        · simp only [TdlsSta.chanSwitchResult, if_pos hok, if_neg hb, if_pos ho, hst, ne_eq, not_true, if_false]
          exact pausesMatch_off hst (hoff ho (.inr hst))
        · simp only [TdlsSta.chanSwitchResult, if_pos hok, if_neg hb, if_pos ho, ne_eq, hst, not_false_eq_true, if_true]
          refine pausesMatch_off rfl ?_
          exact Bss.EachPause.updateNonTdlsRalist (fun _ _ _ hm hne => absurd hm hne) fun _ _ _ => rfl
      · simp only [TdlsSta.chanSwitchResult, if_neg hok, if_neg hb, if_pos ho]
        exact pausesMatch_off rfl (hoff ho (.inl hok))
    · have hpeer : r.nextPeer e = r.peer := by simp [nextPeer, hb, ho]
      rw [hpeer]
      have hsame : r.toTdlsSta.chanSwitchResult e = r.toTdlsSta := by
        simp only [TdlsSta.chanSwitchResult, if_neg hb, if_neg ho, ite_self]
      rw [hsame]
      exact h.stay

/-- An event that changes neither the lists nor the channel. -/
theorem PausesMatch.stay_of_peer (h : r.PausesMatch) {e : TdlsEvent} (hpeer : r.nextPeer e = r.peer) :
    PausesMatch { r with peer := r.nextPeer e, back := r.away } := by
  rw [hpeer]
  exact h.stay

theorem PausesMatch.event (h : r.PausesMatch) {e : TdlsEvent} {env : TdlsEnv} {s : TdlsSta} (hf : r.Follows e)
    (hs : r.parseTdlsEvent mclient env e = some s) :
    PausesMatch { s with peer := r.nextPeer e, back := r.away } := by
  by_cases hlen : e.dataLen < tdlsEventMin
  · simp only [TdlsSta.parseTdlsEvent, if_pos hlen, some.injEq] at hs
    subst hs
    exact h.stay_of_peer (by simp [nextPeer, Nat.not_le.mpr hlen])
  have hfollows := hf.resolve_left hlen
  simp only [TdlsSta.parseTdlsEvent, if_neg hlen] at hs
  cases htype : e.eventType with
  | chanSwitchResult =>
    simp only [htype, some.injEq] at hs
    subst hs
    exact h.chanSwitchResult (Nat.not_lt.mp hlen) htype hf
  | startChanSwitch =>
    simp only [htype, some.injEq] at hs
    subst hs
    have hpeer : r.nextPeer e = r.peer := by simp [nextPeer, htype]
    rw [hpeer]
    intro t l hl
    simpa [away] using h t l hl
  | setupFailure =>
    simp only [htype] at hs hfollows
    exact PausesMatch.dropLink hfollows hs
  | linkEstablished =>
    simp only [htype] at hs hfollows
    cases hsta : r.getStationEntry e.peerMacAddr with
    | none =>
      simp only [hsta, some.injEq] at hs
      subst hs
      exact h.stay_of_peer (by simp [nextPeer, htype])
    | some sta =>
      simp only [hsta, map_eq_some_iff] at hs
      obtain ⟨b, hb, rfl⟩ := hs
      have hnone : r.bss.NonePaused := hfollows (by simp [hsta])
      have hb' : b.NonePaused := Bss.EachPause.restoreTdlsPackets hnone rfl (fun _ => rfl) hb
      exact pausesMatch_home (fun hn => by cases hn) (fun hn => by cases hn) hb'
  | linkTornDown =>
    simp only [htype] at hs hfollows
    cases hsta : r.getStationEntry e.peerMacAddr with
    | none =>
      simp only [hsta, some.injEq] at hs
      subst hs
      exact h.stay_of_peer (by simp [nextPeer, htype])
    | some sta =>
      have hnone : r.bss.NonePaused := hfollows (by simp [hsta])
      simp only [hsta] at hs
      split_ifs at hs with hext
      · simp only [some.injEq] at hs
        subst hs
        exact pausesMatch_home (fun hn => by cases hn) (fun hn => by cases hn) hnone
      · exact PausesMatch.dropLink hnone hs
  | setupReq =>
    have hpeer : r.nextPeer e = r.peer := by simp [nextPeer, htype]
    rw [hpeer]
    cases hsta : r.getStationEntry e.peerMacAddr with
    | some sta =>
      simp only [htype, hsta, some.injEq] at hs
      subst hs
      exact h.stay
    | none =>
      simp only [htype, hsta, some.injEq] at hs
      subst hs
      split_ifs
      · have hhold : (r.bss.holdTdlsPackets e.peerMacAddr).EachPause fun m p =>
            (p = true → r.away = true) ∧ (r.away = true → m ≠ r.peer → p = true) :=
          Bss.EachPause.holdTdlsPackets h
        exact PausesMatch.stay (r := { r with bss := r.bss.holdTdlsPackets e.peerMacAddr }) hhold
      · exact h.stay
  | _ =>
    simp only [htype, some.injEq] at hs
    subst hs
    exact h.stay_of_peer (by simp [nextPeer, htype])

/-- A packet. -/
theorem PausesMatch.send (h : r.PausesMatch) {b : Buf} {e : Bss.AddEnv} {u : Bss} (hk : r.Keeps (.send b e))
    (hs : r.bss.addBufTxqueue (tdlsConfig mclient) b e = some u) : PausesMatch { r with bss := u } := by
  have hP : r.bss.EachPause fun m p => (p = true → r.away = true) ∧ (r.away = true → m ≠ r.peer → p = true) := h
  change u.EachPause fun m p => (p = true → r.away = true) ∧ (r.away = true → m ≠ r.peer → p = true)
  simp only [Bss.addBufTxqueue, tdlsConfig, Bool.false_eq_true, if_false] at hs
  cases hlink : e.link with
  | none =>
    simp only [hlink, some.injEq] at hs
    subst hs
    exact hP.enqueueBuf
  | inProgress =>
    simp only [hlink, some.injEq] at hs
    subst hs
    exact hP
  | setup =>
    simp only [hlink] at hs
    obtain ⟨q, hq, rfl⟩ := map_eq_some_iff.mp hs
    refine Bss.EachPause.enqueueBuf ?_
    cases hnode : r.bss.getRalistNode (r.bss.downgradeTid b.priority) b.ra with
    | some l =>
      simp only [Bss.getQueueRaptr, hnode, some.injEq] at hq
      exact hq ▸ hP
    | none =>
      rcases (Bss.getQueueRaptr_cases hq).1 with hu | ⟨-, hu⟩
      · exact hu ▸ hP
      · rw [hu]
        refine hP.grow rfl ⟨fun hp => absurd hp (by decide), fun haway hne => ?_⟩
        have := hk haway hlink hne
        simp [hnode] at this

theorem PausesMatch.step (h : r.PausesMatch) {a : TdlsStep} (hk : r.Keeps a) (hs : r.step mclient a = some r') :
    r'.PausesMatch := by
  cases a with
  | event e env =>
    obtain ⟨s, hparse, rfl⟩ := map_eq_some_iff.mp hs
    exact h.event hk hparse
  | send b e =>
    obtain ⟨u, hu, rfl⟩ := map_eq_some_iff.mp hs
    exact h.send hk hu

end TdlsRun

/-- Along every run of steps that keep it, the RA lists of the access point and of the other peers are paused while the
station is off channel or on its way back, and no list is paused in any other state. -/
theorem pauses_match {mclient : Bool} {r : TdlsRun} (h : (tdlsSystem mclient).ReachableWhen TdlsRun.Keeps r) :
    r.PausesMatch := by
  refine h.invariant (I := TdlsRun.PausesMatch) ?_ fun _ _ _ hi hc hs => hi.step hc hs
  intro r hi
  exact TdlsRun.pausesMatch_of_nonePaused (by simp [TdlsRun.away, hi.1]) hi.2

/-! ## A switch and a teardown -/

/-- The access point of the runs below, and a peer. -/
def tdlsAp : Mac := ⟨2, 0, 0, 0, 0, 1⟩

def tdlsPeer : Mac := ⟨2, 0, 0, 0, 0, 7⟩

/-- After the association : one list for each TID. -/
def connectedRun : TdlsRun where
  bss := { emptyBss with tbl := fun t => [⟨t.val, tdlsAp, [], 0, false, 0⟩] }
  staList := []
  tdlsStatus := .notSetup
  peer := tdlsAp
  back := false

/-- An event about the peer. -/
def peerEvent (type : TdlsEventType) (channel : ℕ) : TdlsStep :=
  .event ⟨20, type, tdlsPeer, channel, 0⟩ ⟨true, []⟩

/-- A link is set up and goes off channel. -/
def offChannelSteps : List TdlsStep :=
  [peerEvent .setupReq 0, peerEvent .linkEstablished 0, peerEvent .startChanSwitch 0,
    peerEvent .chanSwitchResult tdlsOffChannel]

theorem connectedRun_init : (tdlsSystem false).init connectedRun := by
  change connectedRun.tdlsStatus = .notSetup ∧ connectedRun.bss.NonePaused
  decide

/-- Off channel the access point is paused, and back on the base channel it is not. -/
theorem pauses_match_switch :
    (∃ r, (tdlsSystem false).ReachableWhen TdlsRun.Keeps r ∧ (r.away = true ∧ r.peer = tdlsPeer) ∧ r.PausesMatch) ∧
      ∃ r, (tdlsSystem false).ReachableWhen TdlsRun.Keeps r ∧ r.tdlsStatus = .notSetup ∧ r.staList = [] ∧
        r.PausesMatch := by
  constructor
  · obtain ⟨r, hr, hp⟩ := System.exists_reachableWhen_of_runWhen (M := tdlsSystem false) (C := TdlsRun.Keeps)
      (P := fun r => decide (r.away = true ∧ r.peer = tdlsPeer)) (l := offChannelSteps) (s := connectedRun)
      (.init connectedRun_init) (by decide +kernel)
    exact ⟨r, hr, of_decide_eq_true hp, pauses_match hr⟩
  · obtain ⟨r, hr, hp⟩ := System.exists_reachableWhen_of_runWhen (M := tdlsSystem false) (C := TdlsRun.Keeps)
      (P := fun r => decide (r.tdlsStatus = .notSetup ∧ r.staList = []))
      (l := offChannelSteps ++ [peerEvent .startChanSwitch 0, peerEvent .chanSwitchResult tdlsBaseChannel,
        peerEvent .linkTornDown 0]) (s := connectedRun) (.init connectedRun_init) (by decide +kernel)
    obtain ⟨hst, hl⟩ := of_decide_eq_true hp
    exact ⟨r, hr, hst, hl, pauses_match hr⟩

/-- The only link is torn down off channel : every list of the access point stays paused. -/
theorem torn_down_off_channel : ∃ r, (tdlsSystem false).Reachable r ∧ r.tdlsStatus = .notSetup ∧ r.staList = [] ∧
    (∀ t, ∃ l ∈ r.bss.tbl t, l.ra = tdlsAp ∧ l.txPause = true) ∧ ¬r.PausesMatch := by
  obtain ⟨r, hr, hp⟩ := System.exists_reachable_of_run (M := tdlsSystem false)
    (P := fun r => decide (r.tdlsStatus = .notSetup ∧ r.staList = [] ∧
      (∀ t, ∃ l ∈ r.bss.tbl t, l.ra = tdlsAp ∧ l.txPause = true) ∧ ¬r.PausesMatch))
    (l := offChannelSteps ++ [peerEvent .linkTornDown 0]) (s := connectedRun) connectedRun_init (by decide +kernel)
  exact ⟨r, hr, of_decide_eq_true hp⟩

end WlanDriver.Wmm
