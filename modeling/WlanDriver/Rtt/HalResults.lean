import Mathlib.Algebra.GroupWithZero.Nat
import WlanDriver.Lib.Cursor
import WlanDriver.Lib.Tlv
import WlanDriver.Relay.Record

/-!
# Results of round trip time measurements

`wlan_fill_hal_rtt_results` converts an event of the firmware to what the HAL is handed : one octet, and for each record of
the event a header, a result of fixed size, and the measurement reports behind it. The lengths in the records are not compared
with what is left of the event : a record that reaches behind it makes the rest negative, which counts as much where it is
compared with a size. Nothing is compared with the size of the output, the record of the handler that calls, in which a
record takes more than in the event.

`converts_iff` : the conversion is safe exactly if the event is long enough for all its records and measurement reports, and
the output for what they become.
-/

namespace WlanDriver.Rtt

open Relay

/-- Why a conversion has no result. -/
inductive RttFault
  | outOfFuel
  /-- An octet behind the event is read. -/
  | readOutside
  /-- An octet behind the output is written. -/
  | overflow

/-- `sizeof(MrvlIEtypes_RTTResult_t)`. -/
def sizeofRttResult : ℕ := 102

/-- `sizeof(wifi_rtt_result_element)` and `sizeof(wifi_rtt_result)`. -/
def sizeofHalElement : ℕ := 4

/-- `sizeof(wifi_rtt_result)`. -/
def sizeofHalResult : ℕ := 136

def measurementReport : UInt8 := 39

structure WifiRate where
  preamble : ℕ
  nss : ℕ
  bw : ℕ
  rateMcsIdx : ℕ
  bitrate : ℕ

/-- `wifi_rtt_result`, as far as it is filled. Numbers are as they stand in memory. -/
structure HalResult where
  addr : List UInt8
  burstNum : ℕ
  measurementNumber : ℕ
  successNumber : ℕ
  numberPerBurstPeer : ℕ
  status : ℕ
  retryAfterDuration : ℕ
  type : ℕ
  rssi : ℕ
  rssiSpread : ℕ
  txRate : WifiRate
  rxRate : WifiRate
  rtt : ℕ
  rttSd : ℕ
  rttSpread : ℕ
  distanceMm : ℕ
  distanceSdMm : ℕ
  distanceSpreadMm : ℕ
  ts : ℕ
  burstDuration : ℕ
  negotiatedBurstNum : ℕ

/-- `wifi_rtt_result_element`, with what is written behind the result. -/
structure HalElement where
  len : ℕ
  result : HalResult
  reports : List (List UInt8)

/-- The `mlan_event`. -/
structure HalEvent where
  complete : UInt8
  elements : List HalElement
  eventLen : ℕ

/-- A number of `n` octets, the lowest first. -/
def leNat (ev : Mem) (a : ℕ) : ℕ → ℕ
  | 0 => 0
  | n + 1 => (ev a).toNat + 256 * leNat ev (a + 1) n

/-- `wlan_fill_hal_wifi_rate`, where `indexToDataRate` is `wlan_index_to_data_rate`. -/
def fillHalWifiRate (indexToDataRate : ℕ → ℕ → ℕ) (ev : Mem) (a : ℕ) : WifiRate :=
  let r : WifiRate := ⟨leNat ev a 1 % 8, leNat ev (a + 1) 1 % 4, leNat ev (a + 2) 1 % 8, leNat ev (a + 3) 1, leNat ev (a + 4) 4⟩
  if r.bitrate = 0 then
    let index := r.rateMcsIdx ||| r.nss * 16
    let rateInfo := (if r.preamble = 2 then 1 else if r.preamble = 4 then 2 else 0) ||| r.bw * 4
    { r with bitrate := if rateInfo = 0 then r.rateMcsIdx * 5 else indexToDataRate index rateInfo * 5 }
  else r

/-- The result of the record at `a`. -/
def halResult (indexToDataRate : ℕ → ℕ → ℕ) (ev : Mem) (a : ℕ) : HalResult where
  addr := ev.read (a + 4) 6
  burstNum := leNat ev (a + 10) 4
  measurementNumber := leNat ev (a + 14) 4
  successNumber := leNat ev (a + 18) 4
  numberPerBurstPeer := leNat ev (a + 22) 1
  status := leNat ev (a + 23) 1
  retryAfterDuration := leNat ev (a + 24) 1
  type := leNat ev (a + 25) 1
  rssi := leNat ev (a + 26) 4
  rssiSpread := leNat ev (a + 30) 4
  txRate := fillHalWifiRate indexToDataRate ev (a + 34)
  rxRate := fillHalWifiRate indexToDataRate ev (a + 42)
  rtt := leNat ev (a + 50) 8
  rttSd := leNat ev (a + 58) 8
  rttSpread := leNat ev (a + 66) 8
  distanceMm := leNat ev (a + 74) 4
  distanceSdMm := leNat ev (a + 78) 4
  distanceSpreadMm := leNat ev (a + 82) 4
  ts := leNat ev (a + 86) 8
  burstDuration := leNat ev (a + 94) 4
  negotiatedBurstNum := leNat ev (a + 98) 4

/-! ## The loops -/

section Fill

variable (indexToDataRate : ℕ → ℕ → ℕ) (b : HandlerBuf) (ev : Mem) (len : ℕ)

/-- `tlv_rtt_result->header.len`. -/
def recordLen (a : ℕ) : ℕ :=
  ev.get16 (a + 2)

/-- Where the record behind the one at `a` begins. -/
def nextRecord (a : ℕ) : ℕ :=
  a + (recordLen ev a + 4)

/-- `tlv_ie->len`. -/
def elementLen (e : ℕ) : ℕ :=
  (ev (e + 1)).toNat

/-- Where the element behind the one at `e` begins. -/
def nextElement (e : ℕ) : ℕ :=
  e + (2 + elementLen ev e)

/-- The element is copied. -/
def IsReport (e : ℕ) : Prop :=
  0 < elementLen ev e ∧ ev e = measurementReport
  deriving Decidable

/-- The loop over the elements of a record : `left` is `tlv_left_len`, and `pos` counts the octets of the output. The
measurement reports, and where the output is behind them. -/
def copyReports : ℕ → ℕ → ℤ → ℕ → Except RttFault (List (List UInt8) × ℕ)
  | 0, _, left, pos => if 2 < left then .error .outOfFuel else .ok ([], pos)
  | fuel + 1, e, left, pos =>
    if 2 < left then
      if len < e + 2 then .error .readOutside
      else if IsReport ev e then
        if len < nextElement ev e then .error .readOutside
        else if b.room < pos + (2 + elementLen ev e) then .error .overflow
        else
          (copyReports fuel (nextElement ev e) (left - (2 + elementLen ev e)) (pos + (2 + elementLen ev e))).map fun r =>
            (ev.read e (2 + elementLen ev e) :: r.1, r.2)
      else copyReports fuel (nextElement ev e) (left - (2 + elementLen ev e)) pos
    else .ok ([], pos)

/-- The loop over the records. `left` is `event_left_len` as it is compared with a size, that is without a sign. -/
def fillRecords : ℕ → ℕ → ℕ → ℕ → Except RttFault (List HalElement × ℕ)
  | 0, _, _, _ => .error .outOfFuel
  | fuel + 1, a, left, pos =>
    if sizeofRttResult ≤ left then
      if len < a + sizeofRttResult then .error .readOutside
      else if b.room < pos + (sizeofHalElement + sizeofHalResult) then .error .overflow
      else
        -- each turn of the inner loop takes an octet of the record at least
        match copyReports b ev len (recordLen ev a) (a + sizeofRttResult) (recordLen ev a - (sizeofRttResult - 4))
            (pos + (sizeofHalElement + sizeofHalResult)) with
        | .error x => .error x
        | .ok (reports, pos') =>
          (fillRecords fuel (nextRecord ev a) ((left + 2 ^ 32 - (recordLen ev a + 4)) % 2 ^ 32) pos').map fun r =>
            (⟨(pos' - (pos + sizeofHalElement)) % 2 ^ 16, halResult indexToDataRate ev a, reports⟩ :: r.1, r.2)
    else .ok ([], pos)

/-- `wlan_fill_hal_rtt_results` of the `len` octets at 0. It fails if `tlv_buffer` is behind them. -/
def fillHalRttResults (len : UInt32) (fuel : ℕ) : Except RttFault (Option HalEvent) :=
  if len.toNat < 6 then .ok none
  else (fillRecords indexToDataRate b ev len.toNat fuel 6 (len.toNat - 6) 1).map fun r => some ⟨ev 5, r.1, r.2⟩

/-! ## What a conversion is to do -/

/-- The conversion ends, reads in the event only, and the lengths in what it writes are the length of it, which fits. -/
def Converts (len : UInt32) : Prop :=
  ∃ fuel r, fillHalRttResults indexToDataRate b ev len fuel = .ok r ∧ ∀ h ∈ r,
    h.eventLen = 1 + (h.elements.map fun x => sizeofHalElement + x.len).sum ∧ h.eventLen ≤ b.room

/-- The element at `e` begins in front of `stop`, and is one that is copied. -/
def Copied (stop e : ℕ) : Prop :=
  e + 2 < stop ∧ IsReport ev e
  deriving Decidable

/-- What the element at `e` takes in the output. -/
def reportLen (stop e : ℕ) : ℕ :=
  if Copied ev stop e then 2 + elementLen ev e else 0

/-- The octets of the measurement reports in the record at `a`. -/
def reportsLen (a : ℕ) : ℕ :=
  ∑ i ∈ Finset.range (recordLen ev a), reportLen ev (nextRecord ev a) ((nextElement ev)^[i] (a + sizeofRttResult))

/-- A measurement report that begins in front of `stop` ends in the event. -/
def ReportInside (stop e : ℕ) : Prop :=
  Copied ev stop e → nextElement ev e ≤ len

/-- The record at `a`, and the measurement reports in it, end in the event, if the loop comes to it. -/
def RecordInside (a : ℕ) : Prop :=
  a + sizeofRttResult ≤ len →
    nextRecord ev a ≤ len ∧ ∀ i, ReportInside ev len (nextRecord ev a) ((nextElement ev)^[i] (a + sizeofRttResult))

/-- What the record at `a` takes in the output, if the loop comes to it. -/
def halLen (a : ℕ) : ℕ :=
  if a + sizeofRttResult ≤ len then sizeofHalElement + sizeofHalResult + reportsLen ev a else 0

/-- The event is as long as its records say, and the output as long as they need. -/
structure Convertible : Prop where
  inside : ∀ k, RecordInside ev len ((nextRecord ev)^[k] 6)
  fits : 1 + ∑ k ∈ Finset.range len, halLen ev len ((nextRecord ev)^[k] 6) ≤ b.room

end Fill

/-! ## Measurement reports -/

variable {indexToDataRate : ℕ → ℕ → ℕ} {b : HandlerBuf} {ev : Mem} {len fuel a e stop pos : ℕ}

theorem add_two_le_nextElement (ev : Mem) (e : ℕ) : e + 2 ≤ nextElement ev e := by
  unfold nextElement
  omega

theorem not_copied_of_le (h : stop ≤ e + 2) : ¬Copied ev stop e :=
  fun hcopied => absurd hcopied.1 (by omega)

/-- Where the loop has come to its end there are no reports any more. -/
theorem reports_end (ev : Mem) (len : ℕ) (h : stop ≤ e + 2) :
    (∀ i, ReportInside ev len stop ((nextElement ev)^[i] e)) ∧
      ∀ n, ∑ i ∈ Finset.range n, reportLen ev stop ((nextElement ev)^[i] e) = 0 := by
  have hle : ∀ i, e ≤ (nextElement ev)^[i] e := fun i =>
    (Nat.le_add_right _ _).trans (le_iterate (add_two_le_nextElement ev) i)
  have hno : ∀ i, ¬Copied ev stop ((nextElement ev)^[i] e) := fun i =>
    not_copied_of_le (h.trans (Nat.add_le_add_right (hle i) 2))
  refine ⟨fun i hcopied => absurd hcopied (hno i), fun n => Finset.sum_eq_zero fun i _ => ?_⟩
  rw [reportLen, if_neg (hno i)]

theorem left_next (e stop : ℕ) : (stop : ℤ) - e - (2 + elementLen ev e) = stop - (nextElement ev e : ℕ) := by
  unfold nextElement
  push_cast
  omega

/-- What a loop over elements has shown when it ends. -/
theorem copyReports_ok (hpos : pos ≤ b.room) {r : List (List UInt8) × ℕ}
    (h : copyReports b ev len fuel e (stop - e) pos = .ok r) :
    (∀ i, ReportInside ev len stop ((nextElement ev)^[i] e)) ∧
      r.2 = pos + ∑ i ∈ Finset.range fuel, reportLen ev stop ((nextElement ev)^[i] e) ∧ r.2 ≤ b.room := by
  induction fuel generalizing e pos r with
  | zero =>
    unfold copyReports at h
    split_ifs at h with hleft
    obtain rfl := Except.ok.inj h
    exact ⟨(reports_end ev len (by omega)).1, rfl, hpos⟩
  | succ fuel ih =>
    unfold copyReports at h
    rw [left_next] at h
    split_ifs at h with hleft hread hreport hinside hfits
    · -- a report is copied
      cases hrest : copyReports b ev len fuel (nextElement ev e) (stop - (nextElement ev e : ℕ))
          (pos + (2 + elementLen ev e)) with
      | error x =>
        rw [hrest] at h
        exact absurd h (by simp [Except.map])
      | ok r' =>
        rw [hrest] at h
        obtain rfl := Except.ok.inj h
        obtain ⟨hin, hsum, hle⟩ := ih (by omega) hrest
        refine ⟨(forall_iterate _ _ _).mpr ⟨fun _ => by omega, hin⟩, ?_, hle⟩
        rw [sum_iterate_succ, reportLen, if_pos ⟨by omega, hreport⟩]
        dsimp only
        omega
    · -- an element is left out
      obtain ⟨hin, hsum, hle⟩ := ih hpos h
      have hno : ¬Copied ev stop e := fun hcopied => hreport hcopied.2
      refine ⟨(forall_iterate _ _ _).mpr ⟨fun hcopied => absurd hcopied hno, hin⟩, ?_, hle⟩
      rw [sum_iterate_succ, reportLen, if_neg hno, Nat.zero_add]
      exact hsum
    · obtain rfl := Except.ok.inj h
      obtain ⟨hin, hzero⟩ := reports_end ev len (show stop ≤ e + 2 by omega)
      exact ⟨hin, by rw [hzero, Nat.add_zero], hpos⟩

/-- A loop over elements ends, if its reports lie in the event and fit. -/
theorem exists_copyReports (hstop : stop ≤ len) (hfuel : stop ≤ e + 2 + fuel)
    (hin : ∀ i, ReportInside ev len stop ((nextElement ev)^[i] e))
    (hfits : pos + ∑ i ∈ Finset.range fuel, reportLen ev stop ((nextElement ev)^[i] e) ≤ b.room) :
    ∃ r, copyReports b ev len fuel e (stop - e) pos = .ok r := by
  induction fuel generalizing e pos with
  | zero =>
    unfold copyReports
    rw [if_neg (by omega)]
    exact ⟨_, rfl⟩
  | succ fuel ih =>
    obtain ⟨hhere, hrest⟩ := (forall_iterate _ _ _).mp hin
    rw [sum_iterate_succ] at hfits
    have hnext := add_two_le_nextElement ev e
    unfold copyReports
    rw [left_next]
    by_cases hleft : (2 : ℤ) < stop - e
    · rw [if_pos hleft, if_neg (by omega)]
      by_cases hreport : IsReport ev e
      · have hcopied : Copied ev stop e := ⟨by omega, hreport⟩
        have hinside := hhere hcopied
        rw [reportLen, if_pos hcopied] at hfits
        rw [if_pos hreport, if_neg (by omega), if_neg (by omega)]
        obtain ⟨r, hr⟩ : ∃ r, copyReports b ev len fuel (nextElement ev e) (stop - nextElement ev e)
            (pos + (2 + elementLen ev e)) = .ok r := ih (by omega) hrest (by omega)
        rw [hr]
        exact ⟨_, rfl⟩
      · rw [if_neg hreport]
        exact ih (by omega) hrest (by omega)
    · rw [if_neg hleft]
      exact ⟨_, rfl⟩

/-! ## Records -/

theorem add_four_le_nextRecord (ev : Mem) (a : ℕ) : a + 4 ≤ nextRecord ev a := by
  unfold nextRecord
  omega

theorem recordLen_lt (ev : Mem) (a : ℕ) : recordLen ev a < 2 ^ 16 :=
  Tlv.get16_lt _

/-- The rest behind a record of the event. -/
theorem left_nextRecord (hlen : len < 2 ^ 32) (h : nextRecord ev a ≤ len) :
    (len - a + 2 ^ 32 - (recordLen ev a + 4)) % 2 ^ 32 = len - nextRecord ev a := by
  have hnext : nextRecord ev a = a + (recordLen ev a + 4) := rfl
  omega

/-- The rest behind a record that reaches behind the event : there is always another turn. -/
theorem left_behind (hlen : len < 2 ^ 32) (ha : a ≤ len) (h : len < nextRecord ev a) :
    sizeofRttResult ≤ (len - a + 2 ^ 32 - (recordLen ev a + 4)) % 2 ^ 32 := by
  have hnext : nextRecord ev a = a + (recordLen ev a + 4) := rfl
  have hlt := recordLen_lt ev a
  unfold sizeofRttResult
  omega

/-- The elements of a record, as the inner loop counts them. -/
theorem left_elements (ev : Mem) (a : ℕ) :
    (recordLen ev a : ℤ) - (sizeofRttResult - 4) = (nextRecord ev a : ℕ) - (a + sizeofRttResult : ℕ) := by
  unfold nextRecord
  push_cast
  omega

/-- Where the loop has come to its end there are no records any more. -/
theorem records_end (ev : Mem) (h : len < a + sizeofRttResult) :
    (∀ k, RecordInside ev len ((nextRecord ev)^[k] a)) ∧
      ∀ n, ∑ k ∈ Finset.range n, halLen ev len ((nextRecord ev)^[k] a) = 0 := by
  have hle : ∀ k, a ≤ (nextRecord ev)^[k] a := fun k =>
    (Nat.le_add_right _ _).trans (le_iterate (add_four_le_nextRecord ev) k)
  have hbehind : ∀ k, ¬(nextRecord ev)^[k] a + sizeofRttResult ≤ len := fun k hk => by
    have hk' := hle k
    omega
  refine ⟨fun k hk => absurd hk (hbehind k), fun n => Finset.sum_eq_zero fun k _ => ?_⟩
  rw [halLen, if_neg (hbehind k)]

/-- The lengths of elements. -/
def elementsLen (l : List HalElement) : ℕ :=
  (l.map fun x => sizeofHalElement + x.len).sum

/-- What a loop over records has shown when it ends. -/
theorem fillRecords_ok (hlen : len < 2 ^ 32) (ha : a ≤ len) (hpos : pos ≤ b.room) {r : List HalElement × ℕ}
    (h : fillRecords indexToDataRate b ev len fuel a (len - a) pos = .ok r) :
    (∀ k, RecordInside ev len ((nextRecord ev)^[k] a)) ∧
      (∀ n, pos + ∑ k ∈ Finset.range n, halLen ev len ((nextRecord ev)^[k] a) ≤ b.room) ∧
        r.2 = pos + elementsLen r.1 ∧ r.2 ≤ b.room := by
  induction fuel generalizing a pos r with
  | zero => exact absurd h (by simp [fillRecords])
  | succ fuel ih =>
    unfold fillRecords at h
    split_ifs at h with hleft hread hfits
    · rw [left_elements] at h
      have hrecord : a + sizeofRttResult ≤ len := by omega
      cases hreports : copyReports b ev len (recordLen ev a) (a + sizeofRttResult)
          ((nextRecord ev a : ℕ) - (a + sizeofRttResult : ℕ)) (pos + (sizeofHalElement + sizeofHalResult)) with
      | error x =>
        rw [hreports] at h
        exact absurd h (by simp)
      | ok rs =>
        rw [hreports] at h
        dsimp only at h
        cases hrest : fillRecords indexToDataRate b ev len fuel (nextRecord ev a)
            ((len - a + 2 ^ 32 - (recordLen ev a + 4)) % 2 ^ 32) rs.2 with
        | error x =>
          rw [hrest] at h
          exact absurd h (by simp [Except.map])
        | ok r' =>
          rw [hrest] at h
          obtain rfl := Except.ok.inj h
          have hnext : nextRecord ev a ≤ len := by
            -- behind the event the next turn reads outside
            by_contra hbehind
            have hturn := left_behind hlen ha (Nat.lt_of_not_le hbehind)
            cases fuel with
            | zero => exact absurd hrest (by simp [fillRecords])
            | succ fuel =>
              unfold fillRecords at hrest
              rw [if_pos hturn, if_pos (by omega)] at hrest
              exact absurd hrest (by simp)
          obtain ⟨hin, hsum, hle⟩ := copyReports_ok (by omega) hreports
          rw [left_nextRecord hlen hnext] at hrest
          obtain ⟨hinRest, hfitsRest, hlenRest, hleRest⟩ := ih hnext hle hrest
          have hhal : halLen ev len a = sizeofHalElement + sizeofHalResult + reportsLen ev a := if_pos hrecord
          have hreportsLen : rs.2 = pos + (sizeofHalElement + sizeofHalResult) + reportsLen ev a := hsum
          have hbuf := b.room_lt
          refine ⟨(forall_iterate _ _ _).mpr ⟨fun _ => ⟨hnext, hin⟩, hinRest⟩, fun n => ?_, ?_, hleRest⟩
          · cases n with
            | zero => exact hpos
            | succ n =>
              have hn := hfitsRest n
              rw [sum_iterate_succ]
              omega
          · have hmod : (rs.2 - (pos + sizeofHalElement)) % 2 ^ 16 = rs.2 - (pos + sizeofHalElement) :=
              Nat.mod_eq_of_lt (by omega)
            have hcons : elementsLen (⟨(rs.2 - (pos + sizeofHalElement)) % 2 ^ 16, halResult indexToDataRate ev a, rs.1⟩ ::
                r'.1) = sizeofHalElement + (rs.2 - (pos + sizeofHalElement)) % 2 ^ 16 + elementsLen r'.1 := rfl
            dsimp only
            rw [hcons, hmod]
            omega
    · obtain rfl := Except.ok.inj h
      obtain ⟨hin, hzero⟩ := records_end ev (show len < a + sizeofRttResult by omega)
      refine ⟨hin, fun n => ?_, rfl, hpos⟩
      rw [hzero]
      exact hpos

/-- A loop over records ends, if they lie in the event and fit. -/
theorem exists_fillRecords (hlen : len < 2 ^ 32) (ha : a ≤ len) (hfuel : len < a + fuel)
    (hin : ∀ k, RecordInside ev len ((nextRecord ev)^[k] a))
    (hfits : pos + ∑ k ∈ Finset.range fuel, halLen ev len ((nextRecord ev)^[k] a) ≤ b.room) :
    ∃ r, fillRecords indexToDataRate b ev len fuel a (len - a) pos = .ok r := by
  induction fuel generalizing a pos with
  | zero => omega
  | succ fuel ih =>
    obtain ⟨hhere, hrest⟩ := (forall_iterate _ _ _).mp hin
    rw [sum_iterate_succ] at hfits
    unfold fillRecords
    by_cases hrecord : a + sizeofRttResult ≤ len
    · obtain ⟨hnext, hreports⟩ := hhere hrecord
      have hhal : halLen ev len a = sizeofHalElement + sizeofHalResult + reportsLen ev a := if_pos hrecord
      have hstep := add_four_le_nextRecord ev a
      rw [if_pos (by omega), if_neg (by omega), if_neg (by omega), left_elements]
      have hfitsReports : pos + (sizeofHalElement + sizeofHalResult) + reportsLen ev a ≤ b.room := by omega
      obtain ⟨rs, hrs⟩ := exists_copyReports hnext
        (by unfold nextRecord sizeofRttResult; omega) hreports hfitsReports
      have hsum : rs.2 = pos + (sizeofHalElement + sizeofHalResult) + reportsLen ev a :=
        (copyReports_ok (by omega) hrs).2.1
      obtain ⟨r, hr⟩ : ∃ r, fillRecords indexToDataRate b ev len fuel (nextRecord ev a) (len - nextRecord ev a) rs.2 =
          .ok r := ih hnext (by omega) hrest (by omega)
      rw [hrs]
      dsimp only
      rw [left_nextRecord hlen hnext, hr]
      exact ⟨_, rfl⟩
    · rw [if_neg (by omega)]
      exact ⟨_, rfl⟩

theorem convertible_of_ok {len : UInt32} {r : Option HalEvent} (hlong : 6 ≤ len.toNat)
    (h : fillHalRttResults indexToDataRate b ev len fuel = .ok r) : Convertible b ev len.toNat := by
  unfold fillHalRttResults at h
  rw [if_neg (Nat.not_lt_of_le hlong)] at h
  cases hrecords : fillRecords indexToDataRate b ev len.toNat fuel 6 (len.toNat - 6) 1 with
  | error x =>
    rw [hrecords] at h
    exact absurd h (by simp [Except.map])
  | ok r' =>
    obtain ⟨hin, hfits, -⟩ := fillRecords_ok len.toNat_lt hlong b.one_le_room hrecords
    exact ⟨hin, hfits _⟩

/-- A conversion with as many turns as the event has octets, and what it writes. -/
theorem Convertible.fill (indexToDataRate : ℕ → ℕ → ℕ) {len : UInt32} (hlong : 6 ≤ len.toNat)
    (h : Convertible b ev len.toNat) :
    ∃ x, fillHalRttResults indexToDataRate b ev len len.toNat = .ok (some x) ∧
      x.eventLen = 1 + elementsLen x.elements ∧ x.eventLen ≤ b.room := by
  have hlen : len.toNat < 2 ^ 32 := len.toNat_lt
  obtain ⟨r, hr⟩ : ∃ r, fillRecords indexToDataRate b ev len.toNat len.toNat 6 (len.toNat - 6) 1 = .ok r :=
    exists_fillRecords hlen hlong (show len.toNat < 6 + len.toNat by omega) h.inside h.fits
  obtain ⟨-, -, hsum, hle⟩ := fillRecords_ok hlen hlong b.one_le_room hr
  refine ⟨⟨ev 5, r.1, r.2⟩, ?_, hsum, hle⟩
  unfold fillHalRttResults
  rw [if_neg (Nat.not_lt_of_le hlong), hr]
  rfl

/-- **The conversion** of an event is safe exactly where the event is as long as its records say, and the output as long as
they need. -/
theorem converts_iff (indexToDataRate : ℕ → ℕ → ℕ) (b : HandlerBuf) (ev : Mem) (len : UInt32) :
    Converts indexToDataRate b ev len ↔ (6 ≤ len.toNat → Convertible b ev len.toNat) := by
  by_cases hshort : len.toNat < 6
  · have hnone : fillHalRttResults indexToDataRate b ev len 0 = .ok none := if_pos hshort
    exact iff_of_true ⟨0, none, hnone, by simp⟩ fun hle => absurd hle (Nat.not_le_of_lt hshort)
  · have hlong : 6 ≤ len.toNat := Nat.le_of_not_lt hshort
    constructor
    · rintro ⟨fuel, r, hr, -⟩
      exact fun _ => convertible_of_ok hlong hr
    · intro h
      obtain ⟨x, hx, hsum, hle⟩ := (h hlong).fill indexToDataRate hlong
      refine ⟨len.toNat, some x, hx, fun y hy => ?_⟩
      obtain rfl := Option.some.inj hy
      exact ⟨hsum, hle⟩

/-- `EVENT_WLS_FTM_COMPLETE` with one record of 102 octets, whose header says that 200 follow. -/
def tooLongRecord : Mem :=
  fun a => if a = 0 then 0x86 else if a = 4 then 4 else if a = 8 then 200 else 0

/-- The event ends behind the record, and the conversion goes on. -/
theorem not_converts_tooLong : ¬Converts (fun _ _ => 0) .sta tooLongRecord 108 := by
  rintro ⟨fuel, r, hr, -⟩
  have hrecord : nextRecord tooLongRecord 6 ≤ 108 := ((convertible_of_ok (by decide) hr).inside 0 (by decide)).1
  exact absurd hrecord (by decide)

end WlanDriver.Rtt
