import WlanDriver.Scan.BeaconStore
import Mathlib.Order.Interval.Finset.Nat

/-!
# Selective removal from the scan table

`wlan_scan_delete_ageout_entry` and `wlan_scan_delete_ssid_table_entry` as runs of deletions. A run of deletions leaves
some entries of the table in their order (`Thinned`); which ones is said by the set of the entries it deleted. An entry
keeps all it had, its elements at their offsets in its own beacon, but for the RSNX element : its pointer stays behind
when the beacon moves, so it is right only by accident (`RsnxFollows`).

The age-out looks at the entries from the last one down, and its bound goes down with each deletion : entry `j` is looked
at exactly if no more than `j` entries above it are too old (`ageoutSet`). `removes_selected_iff` says when the two
functions leave what they should.
-/

open Finset

namespace WlanDriver.Scan

/-! ## Two deletions in a row -/

theorem Moved.trans {l : IeKind → Bool} {e e' e'' : BSSDescriptor} (h : Moved l e e') (h' : Moved l e' e'') :
    Moved l e e'' := by
  rcases h' with rfl | ⟨p', hp', rfl⟩
  · exact h
  rcases h with rfl | ⟨p, hp, rfl⟩
  · exact .inr ⟨p', hp', rfl⟩
  · refine .inr ⟨p', hp', ?_⟩
    unfold BSSDescriptor.rebase
    congr 1
    funext k
    dsimp only
    by_cases hl : l k = true
    · by_cases hzero : e.pie k = 0 <;> simp [hl, hzero, hp]
    · simp [hl]

/-- Only the kinds matter whose pointers are not at the new place already. -/
theorem Moved.mono {l l' : IeKind → Bool} {e e' : BSSDescriptor} (h : Moved l e e')
    (hk : ∀ k, e.pie k = 0 ∨ l k = l' k ∨ e.pie k = e'.pbeaconBuf + e.offset k) : Moved l' e e' := by
  rcases h with rfl | ⟨p, hp, rfl⟩
  · exact .inl rfl
  refine .inr ⟨p, hp, ?_⟩
  unfold BSSDescriptor.rebase
  congr 1
  funext k
  dsimp only
  rcases hk k with hzero | hl | hplace
  · rw [if_neg fun h => h.2 hzero, if_neg fun h => h.2 hzero]
  · rw [hl]
  · have hplace' : e.pie k = p + e.offset k := hplace
    split_ifs <;> omega

theorem Moved.ageInSecs {l : IeKind → Bool} {e e' : BSSDescriptor} (h : Moved l e e') : e'.ageInSecs = e.ageInSecs := by
  rcases h with rfl | ⟨p, -, rfl⟩
  · rfl
  · rfl

namespace Adapter

variable {a b d : Adapter} {l : IeKind → Bool} {R : Finset ℕ} {f : ℕ → ℕ} {idx i j : ℕ}

theorem Kept.trans {k : ℕ} (h : Kept l a b i j) (h' : Kept l b d j k) : Kept l a d i k :=
  ⟨h.1.trans h'.1, h'.2.trans h.2⟩

/-! ## What a run of deletions leaves -/

/-- Entry `j` of `b` is entry `f j` of `a` : those outside of `R`, in their order. -/
structure Thinned (l : IeKind → Bool) (R : Finset ℕ) (a b : Adapter) (f : ℕ → ℕ) : Prop where
  mono : ∀ i j, i < j → j < b.numInScanTable → f i < f j
  mem : ∀ i, (∃ j < b.numInScanTable, f j = i) ↔ i < a.numInScanTable ∧ i ∉ R
  kept : ∀ j < b.numInScanTable, Kept l a b (f j) j

/-- The table of `b` is what is left of that of `a` without the entries in `R`. -/
def Leaves (R : Finset ℕ) (a b : Adapter) : Prop :=
  b.Layout ∧ ∃ f, Thinned allKinds R a b f

/-- The space of the beacons in `R` below entry `i`. -/
def freed (R : Finset ℕ) (a : Adapter) (i : ℕ) : ℕ :=
  ∑ k ∈ R with k < i, (a.pscanTable k).beaconBufSizeMax

/-- An entry that moves has no RSNX element, or its pointer is to the new place already. -/
def RsnxFollows (R : Finset ℕ) (a : Adapter) : Prop :=
  ∀ i < a.numInScanTable, i ∉ R → (∃ k ∈ R, k < i) → (a.pscanTable i).pie .rsnx = 0 ∨
    (a.pscanTable i).pie .rsnx + a.freed R i = (a.pscanTable i).pbeaconBuf + (a.pscanTable i).offset .rsnx

instance (R : Finset ℕ) (a : Adapter) : Decidable (RsnxFollows R a) :=
  inferInstanceAs (Decidable (∀ i < a.numInScanTable, i ∉ R → (∃ k ∈ R, k < i) → (a.pscanTable i).pie .rsnx = 0 ∨
    (a.pscanTable i).pie .rsnx + a.freed R i = (a.pscanTable i).pbeaconBuf + (a.pscanTable i).offset .rsnx))

/-- What a run of deletions comes to. -/
structure Removes (R : Finset ℕ) (a b : Adapter) (f : ℕ → ℕ) : Prop where
  layout : b.Layout
  thinned : Thinned IeKind.movedByDelete R a b f
  subset : ∀ i ∈ R, i < a.numInScanTable
  num : b.numInScanTable + #R = a.numInScanTable
  place : ∀ j < b.numInScanTable,
    (b.pscanTable j).pbeaconBuf + a.freed R (f j) = (a.pscanTable (f j)).pbeaconBuf
  stay : ∀ j < b.numInScanTable, (b.pscanTable j).pbeaconBuf = (a.pscanTable (f j)).pbeaconBuf →
    b.pscanTable j = a.pscanTable (f j)

theorem Removes.refl (h : a.Layout) : Removes ∅ a a id where
  layout := h
  thinned := ⟨fun _ _ hij _ => hij, fun i => by simp, fun _ _ => ⟨.refl, rfl⟩⟩
  subset := by simp
  num := by simp
  place j _ := by simp [freed]
  stay _ _ _ := rfl

theorem freed_insert (hidx : idx ∉ R) : a.freed (insert idx R) i =
    a.freed R i + if idx < i then (a.pscanTable idx).beaconBufSizeMax else 0 := by
  unfold freed
  rw [filter_insert]
  split
  · rw [sum_insert (by simp [hidx]), Nat.add_comm]
  · rfl

/-- The places in the table once entry `idx` is deleted. -/
def skip (f : ℕ → ℕ) (idx j : ℕ) : ℕ :=
  if j < idx then f j else f (j + 1)

theorem skip_of_lt (h : j < idx) : skip f idx j = f j :=
  if_pos h

theorem skip_of_le (h : idx ≤ j) : skip f idx j = f (j + 1) :=
  if_neg (by omega)

section Delete

variable (r : Removes R a b f) (hidx : idx < b.numInScanTable)

include r hidx

theorem Removes.not_mem : f idx ∉ R :=
  ((r.thinned.mem (f idx)).mp ⟨idx, hidx, rfl⟩).2

theorem Removes.lt : f idx < a.numInScanTable :=
  ((r.thinned.mem (f idx)).mp ⟨idx, hidx, rfl⟩).1

/-- The entries behind the deleted one move down by its space. -/
theorem Removes.place_delete (hij : idx ≤ j) (hj : j + 1 < b.numInScanTable) :
    ((b.scanDeleteTableEntry idx).pscanTable j).pbeaconBuf + (a.pscanTable (f idx)).beaconBufSizeMax =
      (b.pscanTable (j + 1)).pbeaconBuf := by
  have horder := r.layout.packed.order idx (j + 1) (by omega) hj
  rw [r.layout.table_delete hidx, if_neg (by omega), if_pos ⟨hij, hj⟩, BSSDescriptor.rebase_pbeaconBuf,
    ← (r.thinned.kept idx hidx).1.beaconBufSizeMax]
  show (b.pscanTable (j + 1)).pbeaconBuf - (b.pscanTable idx).beaconBufSizeMax + _ = _
  omega

theorem Thinned.skip (h : Deleted b (b.scanDeleteTableEntry idx) idx) :
    Thinned IeKind.movedByDelete (insert (f idx) R) a (b.scanDeleteTableEntry idx) (skip f idx) where
  mono i j hij hj := by
    rw [h.num] at hj
    unfold Adapter.skip
    split_ifs
    · exact r.thinned.mono i j hij (by omega)
    · exact r.thinned.mono i (j + 1) (by omega) (by omega)
    · omega
    · exact r.thinned.mono (i + 1) (j + 1) (by omega) (by omega)
  mem i := by
    rw [h.num, mem_insert, not_or]
    constructor
    · rintro ⟨j, hj, rfl⟩
      by_cases hlt : j < idx
      · rw [skip_of_lt hlt]
        have hmem := (r.thinned.mem (f j)).mp ⟨j, by omega, rfl⟩
        exact ⟨hmem.1, (r.thinned.mono j idx hlt hidx).ne, hmem.2⟩
      · rw [skip_of_le (by omega)]
        have hmem := (r.thinned.mem (f (j + 1))).mp ⟨j + 1, by omega, rfl⟩
        exact ⟨hmem.1, (r.thinned.mono idx (j + 1) (by omega) (by omega)).ne', hmem.2⟩
    · rintro ⟨hi, hne, hR⟩
      obtain ⟨j, hj, rfl⟩ := (r.thinned.mem i).mpr ⟨hi, hR⟩
      rcases Nat.lt_trichotomy j idx with hlt | rfl | hgt
      · exact ⟨j, by omega, skip_of_lt hlt⟩
      · exact absurd rfl hne
      · refine ⟨j - 1, by omega, ?_⟩
        rw [skip_of_le (by omega), Nat.sub_add_cancel (by omega)]
  kept j hj := by
    rw [h.num] at hj
    by_cases hlt : j < idx
    · rw [skip_of_lt hlt]
      exact (r.thinned.kept j (by omega)).trans (h.before j hlt).2
    · rw [skip_of_le (by omega)]
      exact (r.thinned.kept (j + 1) (by omega)).trans (h.behind j (by omega) (by omega))

/-- One more entry is deleted. -/
theorem Removes.delete : Removes (insert (f idx) R) a (b.scanDeleteTableEntry idx) (skip f idx) := by
  have h := r.layout.deleted hidx
  have hmem := r.not_mem hidx
  have hplace : ∀ j < (b.scanDeleteTableEntry idx).numInScanTable,
      ((b.scanDeleteTableEntry idx).pscanTable j).pbeaconBuf + a.freed (insert (f idx) R) (skip f idx j) =
        (a.pscanTable (skip f idx j)).pbeaconBuf := by
    intro j hj
    rw [h.num] at hj
    rw [freed_insert hmem]
    by_cases hlt : j < idx
    · have hbelow := r.thinned.mono j idx hlt hidx
      rw [skip_of_lt hlt, if_neg (by omega), (h.before j hlt).1]
      exact r.place j (by omega)
    · have habove := r.thinned.mono idx (j + 1) (by omega) (by omega)
      have hmove := r.place_delete hidx (j := j) (by omega) (by omega)
      have hold := r.place (j + 1) (by omega)
      rw [skip_of_le (by omega), if_pos habove]
      omega
  refine ⟨h.layout, Thinned.skip r hidx h, fun i hi => ?_, ?_, hplace, fun j hj hsame => ?_⟩
  · rcases mem_insert.mp hi with rfl | hi
    · exact r.lt hidx
    · exact r.subset i hi
  · have hnum := r.num
    rw [card_insert_of_notMem hmem, h.num]
    omega
  · have hat := hplace j hj
    rw [h.num] at hj
    by_cases hlt : j < idx
    · rw [skip_of_lt hlt] at hsame ⊢
      rw [(h.before j hlt).1] at hsame ⊢
      exact r.stay j (by omega) hsame
    · -- the entry has moved down, by a space that is not empty
      have hpos := r.layout.packed.pos idx hidx
      rw [(r.thinned.kept idx hidx).1.beaconBufSizeMax] at hpos
      rw [freed_insert hmem, skip_of_le (by omega), if_pos (r.thinned.mono idx (j + 1) (by omega) (by omega))] at hat
      rw [skip_of_le (by omega)] at hsame
      omega

end Delete

/-! ## When the entries left are as they were -/

theorem Thinned.le_of_eq {l' : IeKind → Bool} {g : ℕ → ℕ} (h : Thinned l R a b f) (h' : Thinned l' R a b g)
    (hj : j < b.numInScanTable) (heq : ∀ k < j, f k = g k) : g j ≤ f j := by
  obtain ⟨k, hk, hgk⟩ := (h'.mem (f j)).mpr ((h.mem (f j)).mp ⟨j, hj, rfl⟩)
  rcases Nat.lt_trichotomy k j with hlt | rfl | hgt
  · have hmono := h.mono k j hlt hj
    rw [heq k hlt] at hmono
    omega
  · exact hgk.le
  · exact hgk ▸ (h'.mono j k hgt hk).le

/-- There is only one way for the entries to be in their order. -/
theorem Thinned.unique {l' : IeKind → Bool} {g : ℕ → ℕ} (h : Thinned l R a b f) (h' : Thinned l' R a b g) :
    ∀ j < b.numInScanTable, f j = g j := by
  intro j
  induction j using Nat.strong_induction_on with
  | _ j ih =>
    intro hj
    have hbelow : ∀ k < j, f k = g k := fun k hk => ih k hk (hk.trans hj)
    exact le_antisymm (h'.le_of_eq h hj fun k hk => (hbelow k hk).symm) (h.le_of_eq h' hj hbelow)

theorem Removes.exists_of_not_mem (r : Removes R a b f) (hi : i < a.numInScanTable) (hR : i ∉ R) :
    ∃ j < b.numInScanTable, f j = i :=
  (r.thinned.mem i).mpr ⟨hi, hR⟩

theorem freed_pos (h : a.Layout) (hR : ∀ k ∈ R, k < a.numInScanTable) (hex : ∃ k ∈ R, k < i) : 0 < a.freed R i := by
  obtain ⟨k, hk, hlt⟩ := hex
  exact sum_pos (fun k hk => h.packed.pos k (hR k (mem_filter.mp hk).1)) ⟨k, mem_filter.mpr ⟨hk, hlt⟩⟩

theorem freed_eq_zero (hno : ¬∃ k ∈ R, k < i) : a.freed R i = 0 := by
  unfold freed
  rw [filter_false_of_mem fun k hk hlt => hno ⟨k, hk, hlt⟩, sum_empty]

/-- A run of deletions leaves the entries as they were exactly if no RSNX pointer stays behind. -/
theorem Removes.leaves_iff (r : Removes R a b f) (h : a.Layout) : Leaves R a b ↔ RsnxFollows R a := by
  constructor
  · rintro ⟨-, g, hg⟩ i hi hR hbelow
    obtain ⟨j, hj, rfl⟩ := r.exists_of_not_mem hi hR
    have hkept := (hg.kept j hj).1
    rw [← r.thinned.unique hg j hj] at hkept
    have hplace := r.place j hj
    have hpos := freed_pos h r.subset hbelow
    have hdel : (b.pscanTable j).pie .rsnx = (a.pscanTable (f j)).pie .rsnx := by
      rcases (r.thinned.kept j hj).1 with heq | ⟨p, -, heq⟩
      · rw [heq]
      · rw [heq]
        rfl
    rcases hkept with heq | ⟨p, -, heq⟩
    · rw [heq] at hplace
      omega
    · rw [heq] at hdel hplace
      have hnew : p + a.freed R (f j) = (a.pscanTable (f j)).pbeaconBuf := hplace
      by_cases hzero : (a.pscanTable (f j)).pie .rsnx = 0
      · exact .inl hzero
      · have hpie : p + (a.pscanTable (f j)).offset .rsnx = (a.pscanTable (f j)).pie .rsnx :=
          (if_pos ⟨rfl, hzero⟩).symm.trans hdel
        exact .inr (by omega)
  · intro hrsnx
    refine ⟨r.layout, f, r.thinned.mono, r.thinned.mem, fun j hj => ?_⟩
    obtain ⟨hmoved, hbeacon⟩ := r.thinned.kept j hj
    have hmem := (r.thinned.mem (f j)).mp ⟨j, hj, rfl⟩
    have hplace := r.place j hj
    refine ⟨?_, hbeacon⟩
    by_cases hbelow : ∃ k ∈ R, k < f j
    · refine hmoved.mono (fun k => ?_)
      cases k with
      | rsnx => exact (hrsnx (f j) hmem.1 hmem.2 hbelow).imp_right fun hfollows => .inr (by omega)
      | _ => exact .inr (.inl rfl)
    · -- nothing below was deleted, so the entry is where it was
      exact .inl (r.stay j hj (by rw [← hplace, freed_eq_zero hbelow, Nat.add_zero]))

/-! ## The age-out -/

/-- What the age-out takes for too old. -/
def AgedOut (now : ℕ) (e : BSSDescriptor) : Prop :=
  (e.ageInSecs + scanResultAgeout) % 2 ^ 32 < now
  deriving Decidable

/-- The entries above `i` that are too old. -/
def agedAbove (a : Adapter) (now i : ℕ) : Finset ℕ :=
  {k ∈ range a.numInScanTable | i ≤ k ∧ AgedOut now (a.pscanTable k)}

/-- The entries that the age-out deletes. -/
def ageoutSet (a : Adapter) (now : ℕ) : Finset ℕ :=
  {i ∈ range a.numInScanTable | AgedOut now (a.pscanTable i) ∧ #(a.agedAbove now (i + 1)) ≤ i}

theorem mem_agedAbove {now k : ℕ} :
    k ∈ a.agedAbove now i ↔ k < a.numInScanTable ∧ i ≤ k ∧ AgedOut now (a.pscanTable k) := by
  rw [agedAbove, mem_filter, mem_range]

theorem card_agedAbove_le (now i : ℕ) : #(a.agedAbove now i) ≤ a.numInScanTable - i := by
  rw [← Nat.card_Ico]
  refine card_le_card fun k hk => ?_
  rw [mem_agedAbove] at hk
  exact mem_Ico.mpr ⟨hk.2.1, hk.1⟩

theorem agedAbove_anti (now : ℕ) {i j : ℕ} (hij : i ≤ j) : a.agedAbove now j ⊆ a.agedAbove now i := by
  intro k hk
  rw [mem_agedAbove] at hk ⊢
  exact ⟨hk.1, hij.trans hk.2.1, hk.2.2⟩

theorem agedAbove_of_aged {now : ℕ} (hi : i < a.numInScanTable) (h : AgedOut now (a.pscanTable i)) :
    a.agedAbove now i = insert i (a.agedAbove now (i + 1)) := by
  ext k
  rw [mem_insert, mem_agedAbove, mem_agedAbove]
  constructor
  · rintro ⟨hk, hle, haged⟩
    rcases hle.eq_or_lt with rfl | hlt
    · exact .inl rfl
    · exact .inr ⟨hk, hlt, haged⟩
  · rintro (rfl | ⟨hk, hlt, haged⟩)
    · exact ⟨hi, le_rfl, h⟩
    · exact ⟨hk, by omega, haged⟩

theorem agedAbove_of_not_aged {now : ℕ} (h : ¬AgedOut now (a.pscanTable i)) :
    a.agedAbove now i = a.agedAbove now (i + 1) := by
  refine (agedAbove_anti now (Nat.le_succ i)).antisymm' fun k hk => ?_
  rw [mem_agedAbove] at hk ⊢
  refine ⟨hk.1, ?_, hk.2.2⟩
  rcases hk.2.1.eq_or_lt with rfl | hlt
  · exact absurd hk.2.2 h
  · exact hlt

/-- The loop stops at the first entry that has more too old entries above it than entries below. -/
theorem agedAbove_eq_ageoutSet {now m : ℕ} (hdone : ∀ i, m ≤ i → i < a.numInScanTable → #(a.agedAbove now (i + 1)) ≤ i)
    (hstop : m = 0 ∨ m - 1 < #(a.agedAbove now m)) : a.agedAbove now m = a.ageoutSet now := by
  ext i
  rw [mem_agedAbove, ageoutSet, mem_filter, mem_range]
  constructor
  · rintro ⟨hi, hle, haged⟩
    exact ⟨hi, haged, hdone i hle hi⟩
  · rintro ⟨hi, haged, hcard⟩
    refine ⟨hi, ?_, haged⟩
    by_contra hlt
    have hmore := card_le_card (agedAbove_anti (a := a) now (show i + 1 ≤ m by omega))
    omega

/-- The age-out from its turn at entry `m - 1` on. -/
theorem removes_ageoutLoop (now : ℕ) : ∀ (m : ℕ) (b : Adapter) (f : ℕ → ℕ), m ≤ a.numInScanTable →
    Removes (a.agedAbove now m) a b f → (∀ j < m, f j = j) →
    (∀ i, m ≤ i → i < a.numInScanTable → #(a.agedAbove now (i + 1)) ≤ i) →
      ∃ g, Removes (a.ageoutSet now) a (ageoutLoop now m (a.numInScanTable - m) (m - 1) b) g
  | 0, b, f, _, r, _, hdone => ⟨f, agedAbove_eq_ageoutSet hdone (.inl rfl) ▸ r⟩
  | m + 1, b, f, hm, r, hid, hdone => by
    have hnum := r.num
    have hcard := card_agedAbove_le (a := a) now (m + 1)
    have hmem : m < b.numInScanTable := by omega
    have hentry := (r.thinned.kept m hmem).1
    rw [hid m (Nat.lt_succ_self m)] at hentry
    have hage : AgedOut now (b.pscanTable m) ↔ AgedOut now (a.pscanTable m) := by
      unfold AgedOut
      rw [hentry.ageInSecs]
    rw [ageoutLoop_succ]
    split
    · next hturn =>
      have hdone' : ∀ i, m ≤ i → i < a.numInScanTable → #(a.agedAbove now (i + 1)) ≤ i := by
        intro i hle hi
        rcases hle.eq_or_lt with rfl | hlt
        · omega
        · exact hdone i hlt hi
      rw [show a.numInScanTable - (m + 1) + 1 = a.numInScanTable - m by omega, Nat.add_sub_cancel]
      by_cases haged : AgedOut now (a.pscanTable m)
      · rw [if_pos (by exact hage.mpr haged)]
        have hdel := r.delete hmem
        rw [hid m (Nat.lt_succ_self m), ← agedAbove_of_aged (by omega) haged] at hdel
        refine removes_ageoutLoop now m _ _ (by omega) hdel (fun j hj => ?_) hdone'
        rw [skip_of_lt hj]
        exact hid j (by omega)
      · rw [if_neg (by exact hage.not.mpr haged)]
        rw [← agedAbove_of_not_aged haged] at r
        exact removes_ageoutLoop now m _ _ (by omega) r (fun j hj => hid j (by omega)) hdone'
    · next hturn => exact ⟨f, agedAbove_eq_ageoutSet hdone (.inr (by omega)) ▸ r⟩

/-- `wlan_scan_delete_ageout_entry` deletes the entries of `ageoutSet`. -/
theorem removes_ageout (h : a.Layout) (now : ℕ) :
    ∃ f, Removes (a.ageoutSet now) a (a.scanDeleteAgeoutEntry now) f := by
  have hnone : a.agedAbove now a.numInScanTable = ∅ := by
    rw [← card_eq_zero]
    have hcard := card_agedAbove_le (a := a) now a.numInScanTable
    omega
  have hloop := removes_ageoutLoop (a := a) now a.numInScanTable a id le_rfl (hnone ▸ Removes.refl h) (fun _ _ => rfl)
    fun i hle hi => by omega
  rwa [Nat.sub_self] at hloop

/-! ## The deletion of a network name -/

/-- The entries with an SSID. -/
def ssidSet (a : Adapter) (ssid : List UInt8) : Finset ℕ :=
  {i ∈ range a.numInScanTable | (a.pscanTable i).ssid = ssid}

/-- The search finds an entry with the SSID if there is one : the signal of each is stronger than none. -/
theorem findSsidInList_spec (a : Adapter) (ssid : List UInt8) :
    (∀ i, a.findSsidInList ssid = some i → i < a.numInScanTable ∧ (a.pscanTable i).ssid = ssid) ∧
      (a.findSsidInList ssid = none → ∀ i < a.numInScanTable, (a.pscanTable i).ssid ≠ ssid) := by
  have hfold : ∀ (l : List ℕ) (r : Option ℕ × ℕ), (∀ i ∈ r.1, (a.pscanTable i).ssid = ssid) →
      (r.1 = none → r.2 = 0) →
      (∀ i ∈ (l.foldl (fun (p : Option ℕ × ℕ) i =>
        let rssi := scanRssi (a.pscanTable i).rssi
        if (a.pscanTable i).ssid = ssid ∧ p.2 < rssi then (some i, rssi % 256) else p) r).1,
        (a.pscanTable i).ssid = ssid) ∧
      ((l.foldl (fun (p : Option ℕ × ℕ) i =>
        let rssi := scanRssi (a.pscanTable i).rssi
        if (a.pscanTable i).ssid = ssid ∧ p.2 < rssi then (some i, rssi % 256) else p) r).1 = none →
        r.1 = none ∧ ∀ i ∈ l, (a.pscanTable i).ssid ≠ ssid) := by
    intro l
    induction l with
    | nil => exact fun r hr _ => ⟨hr, fun hnone => ⟨hnone, by simp⟩⟩
    | cons i l ih =>
      intro r hr hbest
      rw [List.foldl_cons]
      dsimp only
      split
      · next hstronger =>
        obtain ⟨hall, hno⟩ := ih (some i, scanRssi (a.pscanTable i).rssi % 256)
          (fun j hj => Option.some.inj hj ▸ hstronger.1) (by simp)
        exact ⟨hall, fun hnone => absurd (hno hnone).1 (by simp)⟩
      · next hweaker =>
        obtain ⟨hall, hno⟩ := ih r hr hbest
        refine ⟨hall, fun hnone => ?_⟩
        obtain ⟨hr', hl⟩ := hno hnone
        refine ⟨hr', fun j hj => ?_⟩
        rcases List.mem_cons.mp hj with rfl | hj
        · refine fun hssid => hweaker ⟨hssid, ?_⟩
          rw [hbest hr']
          unfold scanRssi
          omega
        · exact hl j hj
  obtain ⟨hall, hno⟩ := hfold (List.range a.numInScanTable) (none, 0) (by simp) (by simp)
  exact ⟨fun i hi => ⟨findSsidInList_lt hi, hall i hi⟩, fun hnone i hi => (hno hnone).2 i (List.mem_range.mpr hi)⟩

/-- `wlan_scan_delete_ssid_table_entry` deletes the entries with the SSID. -/
theorem removes_deleteSsid (h : a.Layout) (ssid : List UInt8) :
    ∃ f, Removes (a.ssidSet ssid) a (a.scanDeleteSsidTableEntry ssid) f := by
  have hloop : ∀ (fuel : ℕ) (b : Adapter) (R : Finset ℕ) (f : ℕ → ℕ), b.numInScanTable ≤ fuel → Removes R a b f →
      R ⊆ a.ssidSet ssid → ∃ g, Removes (a.ssidSet ssid) a (deleteSsidLoop ssid fuel b) g := by
    intro fuel
    induction fuel with
    | zero =>
      intro b R f hfuel r hsub
      have hnum := r.num
      have hcard : a.ssidSet ssid = R := by
        refine (eq_of_subset_of_card_le hsub ?_).symm
        have hle := card_le_card (filter_subset (fun i => (a.pscanTable i).ssid = ssid) (range a.numInScanTable))
        rw [card_range] at hle
        unfold ssidSet
        omega
      exact ⟨f, hcard ▸ r⟩
    | succ fuel ih =>
      intro b R f hfuel r hsub
      obtain ⟨hfound, hnone⟩ := findSsidInList_spec b ssid
      rw [deleteSsidLoop]
      split
      · next idx hidx =>
        obtain ⟨hlt, hssid⟩ := hfound idx hidx
        refine ih _ _ _ ?_ (r.delete hlt) (insert_subset ?_ hsub)
        · rw [scanDeleteTableEntry_numInScanTable]
          omega
        · rw [ssidSet, mem_filter, mem_range, ← (r.thinned.kept idx hlt).1.ssid]
          exact ⟨r.lt hlt, hssid⟩
      · next hidx =>
        refine ⟨f, ?_⟩
        have hall : a.ssidSet ssid = R := by
          refine Subset.antisymm (fun i hi => ?_) hsub
          rw [ssidSet, mem_filter, mem_range] at hi
          by_contra hR
          obtain ⟨j, hj, rfl⟩ := r.exists_of_not_mem hi.1 hR
          exact hnone hidx j hj ((r.thinned.kept j hj).1.ssid.trans hi.2)
        exact hall ▸ r
  exact hloop _ a ∅ id le_rfl (Removes.refl h) (empty_subset _)

/-- The loop ends by itself : more turns change nothing. -/
theorem deleteSsidLoop_fuel (ssid : List UInt8) : ∀ (fuel : ℕ) (a : Adapter), a.numInScanTable ≤ fuel →
    deleteSsidLoop ssid fuel a = a.scanDeleteSsidTableEntry ssid := by
  have hmore : ∀ (fuel : ℕ) (a : Adapter), a.numInScanTable ≤ fuel →
      deleteSsidLoop ssid (fuel + 1) a = deleteSsidLoop ssid fuel a := by
    intro fuel
    induction fuel with
    | zero =>
      intro a ha
      rw [deleteSsidLoop, deleteSsidLoop]
      split
      · next idx hidx =>
        have hlt := findSsidInList_lt hidx
        omega
      · rfl
    | succ fuel ih =>
      intro a ha
      rw [deleteSsidLoop, deleteSsidLoop.eq_2 ssid a fuel]
      split
      · exact ih _ (by rw [scanDeleteTableEntry_numInScanTable]; omega)
      · rfl
  intro fuel a ha
  induction fuel, ha using Nat.le_induction with
  | base => rfl
  | succ fuel ha ih => rw [hmore fuel a ha, ih]

/-! ## What should be left -/

/-- An entry older than `SCAN_RESULT_AGEOUT` seconds. -/
def Old (now : ℕ) (e : BSSDescriptor) : Prop :=
  e.ageInSecs + scanResultAgeout < now
  deriving Decidable

/-- The old entries. -/
def oldSet (a : Adapter) (now : ℕ) : Finset ℕ :=
  {i ∈ range a.numInScanTable | Old now (a.pscanTable i)}

theorem Thinned.num (h : Thinned l R a b f) (hR : R ⊆ range a.numInScanTable) :
    b.numInScanTable + #R = a.numInScanTable := by
  have himage : (range b.numInScanTable).image f = range a.numInScanTable \ R := by
    ext i
    rw [mem_image, mem_sdiff, mem_range, ← h.mem i]
    simp only [mem_range]
  have hinj : Set.InjOn f (range b.numInScanTable) := by
    intro i hi j hj hij
    rcases Nat.lt_trichotomy i j with hlt | heq | hgt
    · exact absurd hij (h.mono i j hlt (by simpa using hj)).ne
    · exact heq
    · exact absurd hij (h.mono j i hgt (by simpa using hi)).ne'
  have hcard := congrArg card himage
  rw [card_image_of_injOn hinj, card_range, card_sdiff_of_subset hR, card_range] at hcard
  have hle := card_le_card hR
  rw [card_range] at hle
  omega

/-- If only old entries are missing, and no other, then they are what was deleted. -/
theorem Removes.eq_oldSet {now : ℕ} (r : Removes R a b f) (h : Leaves (a.oldSet now) a b) : R = a.oldSet now := by
  obtain ⟨-, g, hg⟩ := h
  have hsub : a.oldSet now ⊆ R := by
    intro i hi
    rw [oldSet, mem_filter, mem_range] at hi
    by_contra hR
    obtain ⟨j, hj, rfl⟩ := r.exists_of_not_mem hi.1 hR
    have hleft := ((hg.mem (g j)).mp ⟨j, hj, rfl⟩)
    refine hleft.2 (mem_filter.mpr ⟨mem_range.mpr hleft.1, ?_⟩)
    have hage := (hg.kept j hj).1.ageInSecs.symm.trans (r.thinned.kept j hj).1.ageInSecs
    unfold Old
    rw [hage]
    exact hi.2
  have hnum := r.num
  have hnum' := hg.num (filter_subset _ _ : a.oldSet now ⊆ range a.numInScanTable)
  exact (eq_of_subset_of_card_le hsub (by omega)).symm

/-- The age-out leaves the entries that are not old, as they were, exactly if the sum of each age does not wrap to the wrong
side, each old entry has no more old ones above it than entries below, and no RSNX pointer stays behind. The
deletion of an SSID ends, and leaves the entries with another SSID, if no RSNX pointer stays behind. -/
theorem removes_selected_iff (h : a.Layout) (now : ℕ) (ssid : List UInt8) :
    (Leaves (a.oldSet now) a (a.scanDeleteAgeoutEntry now) ↔
      (∀ i < a.numInScanTable, Old now (a.pscanTable i) ↔
        AgedOut now (a.pscanTable i) ∧ #(a.agedAbove now (i + 1)) ≤ i) ∧ RsnxFollows (a.oldSet now) a) ∧
      (∀ fuel, a.numInScanTable ≤ fuel → deleteSsidLoop ssid fuel a = a.scanDeleteSsidTableEntry ssid) ∧
      (Leaves (a.ssidSet ssid) a (a.scanDeleteSsidTableEntry ssid) ↔ RsnxFollows (a.ssidSet ssid) a) := by
  refine ⟨?_, fun fuel hfuel => deleteSsidLoop_fuel ssid fuel a hfuel, ?_⟩
  · obtain ⟨f, r⟩ := removes_ageout h now
    have hsets : (∀ i < a.numInScanTable, Old now (a.pscanTable i) ↔
        AgedOut now (a.pscanTable i) ∧ #(a.agedAbove now (i + 1)) ≤ i) ↔ a.ageoutSet now = a.oldSet now := by
      unfold ageoutSet oldSet
      rw [filter_inj']
      simp only [mem_range]
      exact forall₂_congr fun _ _ => Iff.comm
    rw [hsets]
    constructor
    · intro hleft
      have heq := r.eq_oldSet hleft
      exact ⟨heq, (heq ▸ r).leaves_iff h |>.mp hleft⟩
    · rintro ⟨heq, hrsnx⟩
      exact ((heq ▸ r).leaves_iff h).mpr hrsnx
  · obtain ⟨f, r⟩ := removes_deleteSsid h ssid
    exact r.leaves_iff h

/-- Two networks with beacons of four octets, found at the times `ages`. -/
def twoNetworks (ages : ℕ → ℕ) : Adapter where
  mem := fun _ => 0
  pscanTable i := if i < 2 then
      { BSSDescriptor.zero with
        macAddress := [2, 0, 0, 0, 0, UInt8.ofNat i], ssid := [UInt8.ofNat i], ageInSecs := ages i
        pbeaconBuf := 100 + 10 * i, beaconBufSize := 4, beaconBufSizeMax := 10 }
    else .zero
  numInScanTable := 2
  bcnBuf := 100
  bcnBufSize := defaultScanBeaconBuffer
  pbcnBufEnd := 120
  mediaConnected := false
  currBss := .zero
  pcurrBcnBuf := 0
  currBcnSize := 0

theorem twoNetworks_entry (ages : ℕ → ℕ) {i : ℕ} (hi : i < 2) :
    ((twoNetworks ages).pscanTable i).pbeaconBuf = 100 + 10 * i ∧
      ((twoNetworks ages).pscanTable i).beaconBufSizeMax = 10 ∧ ((twoNetworks ages).pscanTable i).beaconBufSize = 4 := by
  unfold twoNetworks
  dsimp only
  rw [if_pos hi]
  exact ⟨rfl, rfl, rfl⟩

theorem twoNetworks_layout (ages : ℕ → ℕ) : (twoNetworks ages).Layout := by
  have hle : ∀ {m n : ℕ}, Nat.ble m n = true → m ≤ n := Nat.le_of_ble_eq_true
  refine ⟨hle rfl, hle rfl, hle rfl, hle rfl, ⟨hle rfl, fun i hi => ?_, fun i hi => ?_, fun i hi => ?_,
    fun i j hij hj => ?_⟩, fun i hi => ?_, fun i hi => ?_⟩
  · rw [(twoNetworks_entry ages hi).2.1]
    decide
  · rw [(twoNetworks_entry ages hi).1]
    exact Nat.le_add_right 100 _
  · have hlt : i < 2 := hi
    rw [(twoNetworks_entry ages hi).1, (twoNetworks_entry ages hi).2.1]
    show 100 + 10 * i + 10 ≤ 120
    omega
  · have hlt : j < 2 := hj
    rw [(twoNetworks_entry ages hj).1, (twoNetworks_entry ages (hij.trans hj)).1,
      (twoNetworks_entry ages (hij.trans hj)).2.1]
    omega
  · rw [(twoNetworks_entry ages hi).2.1, (twoNetworks_entry ages hi).2.2]
    decide
  · have hge : ¬i < 2 := Nat.not_lt.mpr hi
    exact congrArg BSSDescriptor.pbeaconBuf (if_neg hge)

theorem removes_selected_two : Leaves {1} (twoNetworks fun i => 20 - 20 * i)
      ((twoNetworks fun i => 20 - 20 * i).scanDeleteAgeoutEntry 25) ∧
    Leaves {0} (twoNetworks fun i => 20 - 20 * i) ((twoNetworks fun i => 20 - 20 * i).scanDeleteSsidTableEntry [0]) := by
  obtain ⟨hage, -, hssid⟩ := removes_selected_iff (twoNetworks_layout fun i => 20 - 20 * i) 25 [0]
  have hold : (twoNetworks fun i => 20 - 20 * i).oldSet 25 = {1} := by decide
  have hset : (twoNetworks fun i => 20 - 20 * i).ssidSet [0] = {0} := by decide
  rw [hold] at hage
  rw [hset] at hssid
  exact ⟨hage.mpr ⟨by decide, by decide⟩, hssid.mpr (by decide)⟩

/-- Of two old networks the first one stays. -/
theorem old_network_left : (twoNetworks fun _ => 0).Layout ∧
    (twoNetworks fun _ => 0).oldSet 11 = {0, 1} ∧
    ((twoNetworks fun _ => 0).scanDeleteAgeoutEntry 11).numInScanTable = 1 ∧
    ¬Leaves ((twoNetworks fun _ => 0).oldSet 11) (twoNetworks fun _ => 0)
      ((twoNetworks fun _ => 0).scanDeleteAgeoutEntry 11) := by
  have hold : (twoNetworks fun _ => 0).oldSet 11 = {0, 1} := by decide
  have hnum : ((twoNetworks fun _ => 0).scanDeleteAgeoutEntry 11).numInScanTable = 1 := by decide
  refine ⟨twoNetworks_layout _, hold, hnum, ?_⟩
  rw [hold]
  rintro ⟨-, f, hf⟩
  have hcount := hf.num (by decide)
  rw [hnum] at hcount
  exact absurd hcount (by decide)

end Adapter

end WlanDriver.Scan
