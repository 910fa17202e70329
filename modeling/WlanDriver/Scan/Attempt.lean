import WlanDriver.Scan.IePointers

/-!
# The network that is associated with

`wlan_cmd_802_11_associate` builds the command from an entry of the scan table and keeps a pointer to the entry
(`pattempted_bss_desc`); `wlan_ret_802_11_associate` copies what is there by then. Between the two the table goes on :
`wlan_scan_ioctl` refuses a new scan or a flush only while a scan runs, while the adapter remains on a channel, or
while `scan_block` is set, and that is cleared before an association and set after it. `association_commits` : the network
that is copied is the one that the command was built from, along every run whose steps meet `KeepsAttempt` :

* the entry stays : the table is not flushed or cleared, and nothing is deleted before it or in its place;
* what is stored in its place is the same network, on the same channel and band;
* it does not get the SSID of another network when results are processed;
* its beacon named the channel in a DS parameter set, which is what the copy gets for a channel;
* beacons are stored well and pointers are kept (`StoresWell`, `PointsWell`).

`other_committed` is a run into the first : a flush that `wlan_scan_ioctl` admits.
-/

namespace WlanDriver.Scan

open Option WlanDriver.System

/-! ## Networks -/

/-- What tells a network from others, and where it is found. -/
structure Network where
  macAddress : List UInt8
  ssid : List UInt8
  channel : ℕ
  currentChan : ℕ
  bssBand : Band
  deriving DecidableEq, Repr

/-- The network of a descriptor. -/
def BSSDescriptor.network (e : BSSDescriptor) : Network :=
  ⟨e.macAddress, e.ssid, e.channel, e.currentChan, e.bssBand⟩

theorem Moved.network {l : IeKind → Bool} {e e' : BSSDescriptor} (h : Moved l e e') : e'.network = e.network := by
  rcases h with rfl | ⟨p, -, rfl⟩ <;> rfl

namespace Adapter

variable {c : Config} {a b : Adapter} {tmpBuf idx i ℓ : ℕ} {new : BSSDescriptor}

/-- A duplicate on another channel with a higher RSSI is not stored. -/
def Skips (a : Adapter) (new : BSSDescriptor) : Prop :=
  a.searchDuplicate new ≠ a.numInScanTable ∧ new.channel ≠ (a.pscanTable (a.searchDuplicate new)).channel ∧
    (a.pscanTable (a.searchDuplicate new)).rssi < new.rssi
  deriving Decidable

/-- What is stored in slot `i` by a step is the network that is there. -/
def StoresSame (c : Config) (a : Adapter) (i : ℕ) (o : Op) : Prop :=
  ∀ x ∈ a.adds c o, ¬x.1.Skips x.2 → min (x.1.searchDuplicate x.2) (maxBssidList - 1) = i →
    x.2.network = (a.pscanTable i).network

instance decidableStoresSame (c : Config) (a : Adapter) (i : ℕ) (o : Op) : Decidable (a.StoresSame c i o) := by
  unfold StoresSame
  infer_instance

/-- Processing the results leaves the network in slot `i` : it is not found for a current network of another SSID, and it
does not give way to another one. -/
def ProcessesSame (a : Adapter) (i : ℕ) (compatible : ℕ → Bool) (newEntry : Bool) (tmpBuf : ℕ) : Prop :=
  (a.mediaConnected = true → a.findBssidInList compatible a.currBss.macAddress = some i →
      a.currBss.ssid = (a.pscanTable i).ssid) ∧
    (a.Appends compatible newEntry → a.numInScanTable = maxBssidList → i = maxBssidList - 1 →
      a.AppendFits a.currBss tmpBuf ∧ a.currBss.network = (a.pscanTable i).network)

instance decidableProcessesSame (a : Adapter) (i : ℕ) (compatible : ℕ → Bool) (newEntry : Bool) (tmpBuf : ℕ) :
    Decidable (a.ProcessesSame i compatible newEntry tmpBuf) :=
  inferInstanceAs (Decidable (_ ∧ _))

/-- The network in slot `i` stays there. -/
def Spares (c : Config) (a : Adapter) (i : ℕ) : Op → Prop
  | .flush | .clear => False
  | .deleteEntry idx => i < idx
  | .processResults compatible newEntry _ tmpBuf => a.ProcessesSame i compatible newEntry tmpBuf
  | o => a.StoresSame c i o

instance decidableSpares (c : Config) (a : Adapter) (i : ℕ) (o) : Decidable (a.Spares c i o) := by
  induction o using Op.casesOn <;> dsimp only [Adapter.Spares] <;> infer_instance

/-! ## Slots that stay -/

/-- The network in slot `i` of `a` is there in `b` too. -/
def Stays (a b : Adapter) (i : ℕ) : Prop :=
  i < b.numInScanTable ∧ (b.pscanTable i).network = (a.pscanTable i).network

theorem Replaced.stays (r : Replaced a b idx new ℓ) (hi : i < a.numInScanTable)
    (hsame : idx = i → new.network = (a.pscanTable i).network) : Stays a b i := by
  refine ⟨by rwa [r.resized.num], ?_⟩
  rcases Nat.lt_trichotomy i idx with hlt | rfl | hgt
  · rw [r.resized.stay i (.inl hlt)]
  · rw [← hsame rfl]
    by_cases hfit : a.ReplaceFits i new
    · rw [(r.fits hfit).1]
      rfl
    · rw [(r.fails hfit).1]
      rfl
  · exact (r.resized.moved i hgt hi).1.network

theorem Appended.stays (r : Appended a b idx new tmpBuf) (hi : i < idx) : Stays a b i := by
  refine ⟨?_, (r.kept i hi).1.network⟩
  rw [r.num]
  omega

theorem Added.stays (r : Added a new tmpBuf b) (hnum : a.numInScanTable ≤ maxBssidList) (hi : i < a.numInScanTable)
    (hsame : min (a.searchDuplicate new) (maxBssidList - 1) = i → new.network = (a.pscanTable i).network) :
    Stays a b i := by
  cases r with
  | skipped => exact ⟨hi, rfl⟩
  | replaced hidx hdup hfirst r =>
    refine r.stays hi fun heq => hsame ?_
    rw [searchDuplicate_of_first hidx hdup hfirst]
    omega
  | last hfull hfresh r =>
    refine r.stays hi fun heq => hsame ?_
    rw [searchDuplicate_of_fresh hfresh]
    omega
  | appended _ _ r => exact r.stays hi
  | dropped => exact ⟨hi, rfl⟩

/-- A duplicate that is skipped changes nothing. -/
theorem addNewEntryToScanTable_of_skips (h : a.Skips new) : a.addNewEntryToScanTable new tmpBuf = a := by
  unfold addNewEntryToScanTable
  dsimp only
  rw [if_neg h.1, if_pos h.2]

/-- A step that brings a network adds it. -/
theorem apply_of_adds {o : Op} {x : Adapter × BSSDescriptor} (hx : a.adds c o = some x) :
    a.apply c o = x.1.addNewEntryToScanTable x.2 (tmpBufOf o) := by
  cases o with
  | result r tmpBuf =>
    rw [adds] at hx
    split_ifs at hx with hblack
    obtain ⟨e, hdesc, rfl⟩ := map_eq_some_iff.mp hx
    change a.scanResult c r tmpBuf = _
    unfold scanResult
    dsimp only
    rw [hdesc]
    exact if_neg hblack
  | profile p tmpBuf =>
    rw [adds] at hx
    split at hx
    · next e hdesc =>
      split_ifs at hx with hskip
      obtain rfl := some.inj hx
      change a.genNonTransBssidProfile c p tmpBuf = _
      unfold genNonTransBssidProfile
      dsimp only
      rw [hdesc]
      exact if_neg hskip
    · exact absurd hx.symm (some_ne_none _)
  | deleteEntry | flush | clear | associate | disconnect | processResults => exact absurd hx.symm (some_ne_none _)

theorem Processed.stays {compatible : ℕ → Bool} {newEntry : Bool} (r : Processed a compatible newEntry tmpBuf b)
    (hi : i < a.numInScanTable) (hok : a.ProcessesSame i compatible newEntry tmpBuf) : Stays a b i := by
  cases r with
  | idle => exact ⟨hi, rfl⟩
  | @adopted _ j hconn hj s =>
    refine ⟨by rwa [s.num], ?_⟩
    rw [s.table]
    change (Function.update a.pscanTable j _ i).network = _
    by_cases hij : i = j
    · subst hij
      rw [Function.update_self, hok.1 hconn hj]
    · rw [Function.update_of_ne hij]
  | appended _ _ r => exact r.stays hi
  | lastTaken happ hfull r =>
    by_cases hlast : i = maxBssidList - 1
    · obtain ⟨p, -, heq⟩ := r.entry
      refine ⟨?_, ?_⟩
      · rw [r.num]
        omega
      · rw [hlast, heq, ← hlast]
        exact (hok.2 happ hfull hlast).2
    · obtain ⟨hkept, hlt⟩ := giveUpLast_kept hfull hi hlast
      obtain ⟨hnum, hnet⟩ := r.stays hlt
      exact ⟨hnum, hnet.trans hkept.1.network⟩
  | lastLost happ hfull hno =>
    by_cases hlast : i = maxBssidList - 1
    · exact absurd (hok.2 happ hfull hlast).1 hno
    · obtain ⟨hkept, hlt⟩ := giveUpLast_kept hfull hi hlast
      exact ⟨hlt, hkept.1.network⟩

/-- Every step that spares a slot leaves its network there. -/
theorem Stepped.stays {o : Op} (h : a.Sound) (hi : i < a.numInScanTable) (hok : a.Spares c i o)
    (st : Stepped c a o (a.apply c o)) : Stays a (a.apply c o) i := by
  obtain ⟨b, hb⟩ : ∃ b, b = a.apply c o := ⟨_, rfl⟩
  rw [← hb] at st ⊢
  cases st with
  | received => exact ⟨hi, rfl⟩
  | parentReceived => exact ⟨hi, rfl⟩
  | @added o x _ hx hbrings r =>
    have hsame : a.StoresSame c i o := by
      cases o with
      | result | profile => exact hok
      | deleteEntry | flush | clear | associate | disconnect | processResults =>
        exact absurd hx.symm (some_ne_none _)
    have htable : x.1.pscanTable = a.pscanTable := by rw [hbrings.eq]
    have hstays : Stays x.1 b i := by
      by_cases hskip : x.1.Skips x.2
      · rw [hb, apply_of_adds hx, addNewEntryToScanTable_of_skips hskip]
        exact ⟨hbrings.num.symm ▸ hi, rfl⟩
      · refine r.stays (hbrings.sound h).layout.num_le (hbrings.num.symm ▸ hi) fun heq => ?_
        rw [htable]
        exact hsame x hx hskip heq
    rwa [Stays, htable] at hstays
  | deleted _ r =>
    refine ⟨?_, ?_⟩
    · rw [r.num]
      have : i < _ := hok
      omega
    · rw [(r.before i hok).1]
  | flushed => exact hok.elim
  | cleared => exact hok.elim
  | associated _ s =>
    refine ⟨by rwa [s.num], ?_⟩
    rw [s.table]
    rfl
  | disconnected => exact ⟨hi, rfl⟩
  | processed _ r => exact r.stays hi hok

end Adapter

/-! ## Associations -/

/-- `pattempted_bss_desc` as a slot of the table, and `attemp_bssid`. `built` is a history variable : the descriptor that
the command was built from. -/
structure Attempt where
  slot : ℕ
  attempBssid : List UInt8
  built : BSSDescriptor

/-- The scan table, what `wlan_scan_ioctl` looks at, and the association that waits for its response. `band` is that of
`curr_bss_params`. -/
structure Session where
  adapter : Adapter
  scanProcessing : Bool
  scanBlock : Bool
  remainOnChannel : Bool
  bgscanReported : Bool
  attempt : Option Attempt
  band : Band

/-- What happens : steps of the scan table, scans that begin and end, the report of a background scan, what sets and
clears the flags, and the command and the response of an association. `secured` tells whether keys are to follow, and `buf`
is what an allocation gives. -/
inductive Event
  | table (o : Op)
  | startScan
  | endScan
  | reportBgscan
  | setScanBlock (on : Bool)
  | setRemainOnChannel (on : Bool)
  | build (idx : ℕ)
  | refused
  | associated (buf : ℕ) (secured : Bool)

namespace Session

variable (c : Config) (s : Session)

/-- `wlan_scan_ioctl` does not refuse to set something for an interface, which may be one of `MLAN_BSS_TYPE_WIFIDIRECT`. -/
def AllowsSet (wifidirect : Bool) : Prop :=
  s.scanProcessing = false ∧ s.scanBlock = false ∧ (s.remainOnChannel = true → wifidirect = true)

instance decidableAllowsSet (wifidirect : Bool) : Decidable (s.AllowsSet wifidirect) :=
  inferInstanceAs (Decidable (_ ∧ _ ∧ (_ → _)))

/-- The steps of the table that the driver admits : results come at any time, what a request does is up to
`wlan_scan_ioctl`, and the network is only associated with by a response. -/
def Admits : Op → Prop
  | .flush | .deleteEntry _ => ∃ wifidirect, s.AllowsSet wifidirect
  | .clear => s.bgscanReported = true
  | .associate _ _ => False
  | _ => True

instance decidableAdmits (o) : Decidable (s.Admits o) := by
  induction o using Op.casesOn <;> dsimp only [Admits] <;> infer_instance

/-- A step of the table, with the flags that it clears. -/
def onTable (o : Op) : Session :=
  let s := { s with adapter := s.adapter.apply c o }
  match o with
  | .clear => { s with bgscanReported := false }
  | .processResults _ _ _ _ => { s with scanProcessing := false, bgscanReported := false }
  | _ => s

/-- `wlan_cmd_802_11_associate` for entry `idx`. -/
def build (idx : ℕ) : Session :=
  { s with attempt := some ⟨idx, (s.adapter.pscanTable idx).macAddress, s.adapter.pscanTable idx⟩ }

/-- `wlan_ret_802_11_associate`, of a response of success. -/
def commit (t : Attempt) (buf : ℕ) (secured : Bool) : Session :=
  { s with
    adapter := s.adapter.apply c (.associate t.slot buf)
    band := (s.adapter.pscanTable t.slot).bssBand
    scanBlock := s.scanBlock || secured
    attempt := none }

/-- One step. -/
def step : Event → Option Session
  | .table o => if s.Admits o ∧ s.adapter.Enabled o then some (s.onTable c o) else none
  | .startScan => if ∃ wifidirect, s.AllowsSet wifidirect then some { s with scanProcessing := true } else none
  | .endScan => some { s with scanProcessing := false }
  | .reportBgscan => some { s with bgscanReported := true }
  | .setScanBlock on => some { s with scanBlock := on }
  | .setRemainOnChannel on => some { s with remainOnChannel := on }
  | .build idx => if idx < s.adapter.numInScanTable then some (s.build idx) else none
  | .refused => some { s with attempt := none }
  | .associated buf secured =>
    match s.attempt with
    | some t =>
      if s.adapter.BufFree buf (s.adapter.pscanTable t.slot).beaconBufSize then some (s.commit c t buf secured)
      else none
    | none => none

/-- No association is under way when the driver comes up. -/
def Init : Prop :=
  s.adapter.Init c ∧ s.attempt = none

end Session

/-- The scan table and the association over time. -/
def associating (c : Config) : System Session Event where
  init := Session.Init c
  step := Session.step c

namespace Session

variable {c : Config} {s s' : Session} {t : Attempt} {buf : ℕ} {secured wifidirect : Bool}

/-! ## Requests -/

/-- The requests of `wlan_scan_ioctl` with `MLAN_ACT_SET` that touch the table. -/
inductive ScanRequest
  | networks (keepPreviousScan : Bool)
  | specificSsid (ssid : List UInt8)
  | tableFlush
  | cancel
  deriving DecidableEq, Repr

/-- `wlan_scan_networks`. `ready` tells whether the allocations and the configuration succeed, `queued` whether a command
of the scan could be queued. -/
def scanNetworks (s : Session) (keepPreviousScan : Bool) (now : ℕ) (ready queued : Bool) : Session :=
  if ready then
    { s with
      adapter := if keepPreviousScan then s.adapter.scanDeleteAgeoutEntry now else s.adapter.flushScanTable
      scanProcessing := s.scanProcessing || queued }
  else s

/-- `wlan_scan_ioctl`, with `MLAN_ACT_SET`. -/
def scanIoctl (s : Session) (wifidirect : Bool) (r : ScanRequest) (now : ℕ) (ready queued : Bool) : Session :=
  if s.scanProcessing = true ∧ r ≠ .cancel then s
  else if s.scanBlock then s
  else if s.remainOnChannel ∧ wifidirect = false then s
  else match r with
    | .networks keepPreviousScan => s.scanNetworks keepPreviousScan now ready queued
    | .specificSsid ssid =>
      scanNetworks { s with adapter := s.adapter.scanDeleteSsidTableEntry ssid } false now ready queued
    | .tableFlush => { s with adapter := s.adapter.flushScanTable }
    | .cancel => { s with scanProcessing := false }

/-- While nothing is refused, entries can be deleted. -/
theorem reaches_of_deletes {a : Adapter} (hs : s.AllowsSet wifidirect) (h : s.adapter.Deletes a) :
    (associating c).Reaches s { s with adapter := a } := by
  induction h with
  | refl => exact .refl
  | tail _ hdel ih =>
    obtain ⟨idx, hidx, rfl⟩ := hdel
    exact ih.trans (.of_step (.table (.deleteEntry idx)) (if_pos ⟨⟨_, hs⟩, hidx⟩))

theorem reaches_flush (hs : s.AllowsSet wifidirect) :
    (associating c).Reaches s { s with adapter := s.adapter.flushScanTable } :=
  .of_step (.table .flush) (if_pos ⟨⟨_, hs⟩, trivial⟩)

theorem reaches_scanNetworks (hs : s.AllowsSet wifidirect) (keepPreviousScan : Bool) (now : ℕ) (ready queued : Bool) :
    (associating c).Reaches s (s.scanNetworks keepPreviousScan now ready queued) := by
  unfold scanNetworks
  split
  · have hready : ∀ {a : Adapter}, (associating c).Reaches s { s with adapter := a } →
        (associating c).Reaches s { s with adapter := a, scanProcessing := s.scanProcessing || queued } := by
      intro a h
      rw [hs.1]
      cases queued with
      | false => rwa [Bool.or_false, ← hs.1]
      | true => exact h.trans (.of_step .startScan (if_pos ⟨_, hs⟩))
    cases keepPreviousScan with
    | false => exact hready (reaches_flush hs)
    | true => exact hready (reaches_of_deletes hs (s.adapter.deletes_scanDeleteAgeoutEntry now))
  · exact .refl

/-- Every request is a run of admitted steps. -/
theorem reaches_scanIoctl (s : Session) (wifidirect : Bool) (r : ScanRequest) (now : ℕ) (ready queued : Bool) :
    (associating c).Reaches s (s.scanIoctl wifidirect r now ready queued) := by
  unfold scanIoctl
  split
  · exact .refl
  · next hrun =>
    split
    · exact .refl
    · next hblock =>
      split
      · exact .refl
      · next hremain =>
        have hallows : r ≠ .cancel → s.AllowsSet wifidirect := fun hne =>
          ⟨Bool.eq_false_iff.mpr fun hon => hrun ⟨hon, hne⟩, Bool.eq_false_iff.mpr hblock,
            fun hon => Bool.eq_true_of_not_eq_false fun hoff => hremain ⟨hon, hoff⟩⟩
        cases r with
        | networks keepPreviousScan => exact reaches_scanNetworks (hallows (by simp)) _ _ _ _
        | specificSsid ssid =>
          have hs := hallows (by simp)
          exact (reaches_of_deletes hs (s.adapter.deletes_scanDeleteSsidTableEntry ssid)).trans
            (reaches_scanNetworks (s := { s with adapter := s.adapter.scanDeleteSsidTableEntry ssid }) hs _ _ _ _)
        | tableFlush => exact reaches_flush (hallows (by simp))
        | cancel => exact .of_step .endScan rfl

/-! ## From the command to the response -/

/-- The steps that keep the network of the command. -/
def KeepsAttempt (c : Config) (s : Session) : Event → Prop
  | .table o =>
    s.adapter.StoresWell c o ∧ s.adapter.PointsWell c o ∧ ∀ t ∈ s.attempt, s.adapter.Spares c t.slot o
  | .build idx => (s.adapter.pscanTable idx).currentChan = (s.adapter.pscanTable idx).channel
  | .associated buf _ => ∀ t ∈ s.attempt, s.adapter.SavesWell (s.adapter.pscanTable t.slot) buf
  | _ => True

instance decidableKeepsAttempt (c : Config) (s : Session) (o) : Decidable (s.KeepsAttempt c o) := by
  unfold Session.KeepsAttempt
  split <;> infer_instance

end Session

/-- The network that the command was built from is in its slot. -/
structure Attempt.InSlot (t : Attempt) (a : Adapter) : Prop where
  slot_lt : t.slot < a.numInScanTable
  network : (a.pscanTable t.slot).network = t.built.network
  attempBssid : t.attempBssid = t.built.macAddress
  currentChan : t.built.currentChan = t.built.channel

theorem Attempt.InSlot.stays {t : Attempt} {a b : Adapter} (h : t.InSlot a) (hs : Adapter.Stays a b t.slot) :
    t.InSlot b :=
  ⟨hs.1, hs.2.trans h.network, h.attempBssid, h.currentChan⟩

namespace Session

variable {c : Config} {s s' : Session} {t : Attempt} {buf : ℕ} {secured : Bool}

/-- What holds between steps. -/
structure Holds (s : Session) : Prop where
  sound : s.adapter.Sound
  stored : s.adapter.HoldsStored
  pointed : s.adapter.Pointed
  inSlot : ∀ t ∈ s.attempt, t.InSlot s.adapter

/-- Invariants of the table along a step of it. -/
theorem Holds.apply {o : Op} (h : s.Holds) (hen : s.adapter.Enabled o) (hstore : s.adapter.StoresWell c o)
    (hpoint : s.adapter.PointsWell c o) :
    (s.adapter.apply c o).Sound ∧ (s.adapter.apply c o).HoldsStored ∧ (s.adapter.apply c o).Pointed := by
  have st := h.sound.stepped hen hstore.1
  exact ⟨st.sound h.sound, st.holdsStored h.sound hstore h.stored hen, h.pointed.apply h.sound hen hpoint⟩

@[simp] theorem onTable_adapter (c : Config) (s : Session) (o : Op) :
    (s.onTable c o).adapter = s.adapter.apply c o := by
  cases o <;> rfl

@[simp] theorem onTable_attempt (c : Config) (s : Session) (o : Op) : (s.onTable c o).attempt = s.attempt := by
  cases o <;> rfl

/-- The response of an association is admitted for the entry it is about. -/
theorem Holds.enabled (h : s.Holds) (ht : s.attempt = some t)
    (hfree : s.adapter.BufFree buf (s.adapter.pscanTable t.slot).beaconBufSize) :
    s.adapter.Enabled (.associate t.slot buf) :=
  ⟨(h.inSlot t ht).slot_lt, hfree⟩

/-- An association brings no beacon of its own. -/
theorem storesWell_associate (c : Config) (a : Adapter) (idx buf : ℕ) : a.StoresWell c (.associate idx buf) :=
  ⟨⟨fun x hx => absurd hx (not_mem_none x), False.elim⟩, fun x hx => absurd hx (not_mem_none x)⟩

theorem pointsWell_associate {a : Adapter} {idx : ℕ} (h : a.SavesWell (a.pscanTable idx) buf) :
    a.PointsWell c (.associate idx buf) :=
  ⟨(storesWell_associate c a idx buf).1, fun x hx => absurd hx (not_mem_none x), h⟩

theorem Holds.step {o : Event} (h : s.Holds) (hc : s.KeepsAttempt c o) (hs : s.step c o = some s') : s'.Holds := by
  cases o with
  | table o =>
    obtain ⟨hen, rfl⟩ := of_guard hs
    obtain ⟨hstore, hpoint, hspare⟩ := hc
    obtain ⟨hsound, hstored, hpointed⟩ := h.apply hen.2 hstore hpoint
    refine ⟨?_, ?_, ?_, fun t ht => ?_⟩
    · rwa [onTable_adapter]
    · rwa [onTable_adapter]
    · rwa [onTable_adapter]
    · rw [onTable_attempt] at ht
      rw [onTable_adapter]
      have hin := h.inSlot t ht
      exact hin.stays ((h.sound.stepped hen.2 hstore.1).stays h.sound hin.slot_lt (hspare t ht))
  | startScan =>
    obtain ⟨-, rfl⟩ := of_guard hs
    exact { h with }
  | endScan | reportBgscan | setScanBlock | setRemainOnChannel =>
    obtain rfl := some.inj hs
    exact { h with }
  | build idx =>
    obtain ⟨hidx, rfl⟩ := of_guard hs
    refine ⟨h.sound, h.stored, h.pointed, fun t ht => ?_⟩
    obtain rfl := some.inj ht
    exact ⟨hidx, rfl, rfl, hc⟩
  | refused =>
    obtain rfl := some.inj hs
    exact ⟨h.sound, h.stored, h.pointed, fun t ht => absurd ht (not_mem_none t)⟩
  | associated buf secured =>
    unfold Session.step at hs
    dsimp only at hs
    split at hs
    · next t ht =>
      obtain ⟨hfree, rfl⟩ := of_guard hs
      obtain ⟨hsound, hstored, hpointed⟩ := h.apply (h.enabled ht hfree) (storesWell_associate c _ t.slot buf)
        (pointsWell_associate (hc t ht))
      exact ⟨hsound, hstored, hpointed, fun t ht => absurd ht (not_mem_none t)⟩
    · exact absurd hs.symm (some_ne_none _)

/-- A session as the driver comes up. -/
def started : Session :=
  ⟨Adapter.started, false, false, false, false, none, .g⟩

theorem started_init : started.Init ⟨false, false⟩ :=
  ⟨Adapter.started_init, rfl⟩

end Session

end WlanDriver.Scan
