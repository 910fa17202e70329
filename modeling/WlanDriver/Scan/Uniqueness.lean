import WlanDriver.Lib.Rows
import WlanDriver.Scan.StoredBeacons

/-!
# Networks of the scan table

An entry is found again by BSSID and SSID, and an SSID of zeros is found with every SSID : `Duplicate` is `Displaces` of
the rows of BSSID and SSID. `table_unique` : no BSSID is there twice with one SSID or with two SSIDs of zeros, and what
cannot be stored takes no entry's place. Four kinds of steps are left out (`KeepsUnique`) :

* an enlarged buffer has no room for the beacon that it was enlarged for;
* a new network takes over the last slot of a full table, or the current network is put there, and does not fit;
* after a scan the entry with the BSSID of the current network gets its SSID, while another entry has both, or comes
  behind an entry that is to get an SSID of zeros;
* the current network is appended, since no entry is compatible with it, while one has its BSSID and SSID.

`ssid_twice` is a run into the third.
-/

namespace WlanDriver.Scan

open Function

/-- BSSID and SSID. -/
def BSSDescriptor.row (e : BSSDescriptor) : List UInt8 × List UInt8 :=
  (e.macAddress, e.ssid)

theorem Moved.row {l : IeKind → Bool} {e e' : BSSDescriptor} (h : Moved l e e') : e'.row = e.row :=
  Prod.ext h.macAddress h.ssid

namespace Adapter

variable {c : Config} {a b : Adapter} {tmpBuf idx ℓ : ℕ} {new : BSSDescriptor}

/-- The rows of the table. -/
def rows (a : Adapter) (i : ℕ) : List UInt8 × List UInt8 :=
  (a.pscanTable i).row

/-- No network is in the table twice. -/
def Unique (a : Adapter) : Prop :=
  Parted Hidden a.rows a.numInScanTable

/-- There is room for the beacon of a result where it is to be stored. -/
def Fits (a : Adapter) (new : BSSDescriptor) (tmpBuf : ℕ) : Prop :=
  if a.searchDuplicate new < a.numInScanTable ∨ a.numInScanTable = maxBssidList then
    a.ReplaceFits (min (a.searchDuplicate new) (maxBssidList - 1)) new
  else a.AppendFits new tmpBuf

instance decidableFits (a : Adapter) (new : BSSDescriptor) (tmpBuf : ℕ) : Decidable (a.Fits new tmpBuf) := by
  unfold Fits
  infer_instance

/-- Entry `j` can get the SSID of the current network : no other entry of the BSSID has it, and none comes behind `j` if
the SSID is one of zeros. -/
def Renames (a : Adapter) (j : ℕ) : Prop :=
  ∀ i < a.numInScanTable, i ≠ j → (a.pscanTable i).macAddress = a.currBss.macAddress →
    (a.pscanTable i).ssid ≠ a.currBss.ssid ∧ (j < i → ¬Hidden a.currBss.ssid)

instance decidableRenames (a : Adapter) (j : ℕ) : Decidable (a.Renames j) := by
  unfold Renames
  infer_instance

/-- The current network can be appended, or put into the last slot. -/
def Joins (a : Adapter) (tmpBuf : ℕ) : Prop :=
  (∀ i < min a.numInScanTable (maxBssidList - 1), ¬Duplicate a.currBss (a.pscanTable i)) ∧
    (a.numInScanTable = maxBssidList → a.AppendFits a.currBss tmpBuf)

instance decidableJoins (a : Adapter) (tmpBuf : ℕ) : Decidable (a.Joins tmpBuf) :=
  inferInstanceAs (Decidable (_ ∧ _))

/-- What is found for the current network can get its SSID; if nothing is found, it can be appended. -/
def ProcessesWell (a : Adapter) : Op → Prop
  | .processResults compatible newEntry _ tmpBuf =>
    (a.mediaConnected = true → ∀ j ∈ a.findBssidInList compatible a.currBss.macAddress, a.Renames j) ∧
      (a.Appends compatible newEntry → a.Joins tmpBuf)
  | _ => True

instance decidableProcessesWell (a : Adapter) (o) : Decidable (a.ProcessesWell o) := by
  induction o using Op.casesOn <;> dsimp only [Adapter.ProcessesWell] <;> infer_instance

theorem Replaced.row (r : Replaced a b idx new ℓ) : b.rows idx = new.row := by
  by_cases hfit : a.ReplaceFits idx new
  · rw [rows, (r.fits hfit).1]
    rfl
  · rw [rows, (r.fails hfit).1]
    rfl

theorem Replaced.rows_of_ne (r : Replaced a b idx new ℓ) {i : ℕ} (hi : i < a.numInScanTable) (hne : i ≠ idx) :
    b.rows i = a.rows i := by
  rcases Nat.lt_or_gt_of_ne hne with hlt | hgt
  · rw [rows, r.resized.stay i (.inl hlt)]
    rfl
  · exact (r.resized.moved i hgt hi).1.row

theorem Appended.row (r : Appended a b idx new tmpBuf) : b.rows idx = new.row := by
  obtain ⟨p, -, heq⟩ := r.entry
  rw [rows, heq]
  rfl

theorem Appended.rows_of_lt (r : Appended a b idx new tmpBuf) {i : ℕ} (hi : i < idx) : b.rows i = a.rows i :=
  (r.kept i hi).1.row

theorem Added.unique (r : Added a new tmpBuf b) (h : a.Unique) : b.Unique := by
  cases r with
  | skipped => exact h
  | replaced hidx hdup hfirst r =>
    unfold Unique
    rw [r.resized.num]
    exact Parted.replace (x := new.row) h hdup hfirst r.row fun i hi hne => r.rows_of_ne hi hne
  | last hfull hfresh r =>
    unfold Unique at h ⊢
    have hmax : maxBssidList = maxBssidList - 1 + 1 := rfl
    rw [r.resized.num, hfull, hmax]
    refine Parted.snoc (x := new.row) ?_ (fun i hi => ?_) r.row
    · exact (h.init (by omega)).congr fun i hi => r.rows_of_ne (by omega) hi.ne
    · rw [r.rows_of_ne (by omega) hi.ne]
      exact hfresh i (by omega)
  | appended _ hfresh r =>
    unfold Unique at h ⊢
    rw [r.num]
    refine Parted.snoc (x := new.row) (h.congr fun i hi => r.rows_of_lt hi) (fun i hi => ?_) r.row
    rw [r.rows_of_lt hi]
    exact hfresh i hi
  | dropped => exact h

theorem Deleted.unique (r : Deleted a b idx) (h : a.Unique) : b.Unique := by
  unfold Unique
  rw [r.num]
  exact Parted.remove h (fun i hi _ => (r.before i hi).2.1.row) fun i hi hlt => (r.behind i hi hlt).1.row

theorem Saves.unique (s : Saves a b) (h : a.Unique) : b.Unique := by
  unfold Unique
  rw [s.num]
  refine h.congr fun i _ => ?_
  rw [rows, s.table]
  rfl

/-- The entry that is found gets the SSID of the current network. -/
theorem Unique.adoptEntry (h : a.Unique) {j : ℕ} (hmac : (a.pscanTable j).macAddress = a.currBss.macAddress)
    (hok : a.Renames j) : (a.adoptEntry j).Unique := by
  have hself : (a.adoptEntry j).rows j = ((a.pscanTable j).macAddress, a.currBss.ssid) := by
    change (update a.pscanTable j _ j).row = _
    rw [update_self]
    rfl
  refine Parted.rename h hself rfl (fun i _ hne => ?_) fun i hi hne hkey => hok i hi hne (hkey.trans hmac)
  change (update a.pscanTable j _ i).row = _
  rw [update_of_ne hne]
  rfl

theorem Unique.giveUpLast (h : a.Unique) (hfull : a.numInScanTable = maxBssidList) : a.giveUpLast.Unique := by
  have hinit : Parted Hidden a.rows (maxBssidList - 1) := h.init (by omega)
  refine hinit.congr fun i hi => ?_
  change (update a.pscanTable (maxBssidList - 1) _ i).row = _
  rw [update_of_ne hi.ne]
  rfl

/-- The current network is put behind the others. -/
theorem Appended.unique (r : Appended a b idx new tmpBuf) (h : a.Unique) (hnum : a.numInScanTable = idx)
    (hno : ∀ i < idx, ¬Duplicate new (a.pscanTable i)) : b.Unique := by
  unfold Unique at h ⊢
  rw [hnum] at h
  rw [r.num]
  refine Parted.snoc (x := new.row) (h.congr fun i hi => r.rows_of_lt hi) (fun i hi => ?_) r.row
  rw [r.rows_of_lt hi]
  exact hno i hi

theorem Processed.unique {compatible : ℕ → Bool} {newEntry : Bool} {buf : ℕ}
    (r : Processed a compatible newEntry tmpBuf b)
    (hok : a.ProcessesWell (.processResults compatible newEntry buf tmpBuf)) (h : a.Unique) : b.Unique := by
  cases r with
  | idle => exact h
  | adopted hconn hj s => exact s.unique (h.adoptEntry (findBssidInList_spec hj).2 (hok.1 hconn _ hj))
  | appended happ hlt r =>
    refine r.unique h rfl fun i hi => (hok.2 happ).1 i ?_
    rw [lt_min_iff]
    omega
  | lastTaken happ hfull r =>
    refine r.unique (h.giveUpLast hfull) rfl fun i hi => ?_
    have hold : a.giveUpLast.pscanTable i = a.pscanTable i := update_of_ne hi.ne _ _
    rw [hold]
    exact (hok.2 happ).1 i (by rw [hfull, lt_min_iff]; omega)
  | lastLost _ hfull _ => exact h.giveUpLast hfull

/-! ## Steps -/

theorem Stepped.unique {o : Op} (st : Stepped c a o b) (hok : a.ProcessesWell o) (h : a.Unique) : b.Unique := by
  cases st with
  | received => exact h
  | parentReceived => exact h
  | added _ hbrings r =>
    refine r.unique ?_
    rw [hbrings.eq]
    exact h
  | deleted _ r => exact r.unique h
  | flushed => exact .nil
  | cleared => exact .nil
  | associated _ s => exact s.unique h
  | disconnected => exact h
  | processed _ r => exact r.unique hok h

end Adapter

end WlanDriver.Scan
