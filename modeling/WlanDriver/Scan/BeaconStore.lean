import WlanDriver.Scan.Results

/-!
# The beacon store

`Layout` is what the beacon buffer looks like : the beacons of the entries lie in table order and apart, the slots
behind the table have none. Every operation of the table is given by one lemma that says where the others' beacons
are afterwards (`Kept` : the same octets, at a place the entry knows) and what the entry itself holds.
-/

namespace WlanDriver.Scan

open Mem

/-! ## Moved descriptors -/

namespace BSSDescriptor

variable {l : IeKind → Bool} {e e' : BSSDescriptor}

@[simp] theorem rebase_pbeaconBuf : (e.rebase l).pbeaconBuf = e.pbeaconBuf := rfl

@[simp] theorem rebase_beaconBufSize : (e.rebase l).beaconBufSize = e.beaconBufSize := rfl

@[simp] theorem rebase_beaconBufSizeMax : (e.rebase l).beaconBufSizeMax = e.beaconBufSizeMax := rfl

theorem without_beacon (h : e.pbeaconBuf = 0) : { e with pbeaconBuf := 0 } = e := by
  cases e
  subst h
  rfl

end BSSDescriptor

theorem adjustIeInBssEntry_of_ne {e : BSSDescriptor} (h : e.pbeaconBuf ≠ 0) :
    adjustIeInBssEntry e = e.rebase fun _ => true :=
  if_pos h

@[simp] theorem adjustIeInBssEntry_pbeaconBuf (e : BSSDescriptor) :
    (adjustIeInBssEntry e).pbeaconBuf = e.pbeaconBuf := by
  unfold adjustIeInBssEntry
  split <;> rfl

/-- `e'` is `e`, or `e` after its beacon moved, with the pointers of the kinds in `l` moved too. -/
def Moved (l : IeKind → Bool) (e e' : BSSDescriptor) : Prop :=
  e' = e ∨ ∃ p, p ≠ 0 ∧ e' = { e with pbeaconBuf := p }.rebase l

namespace Moved

variable {l : IeKind → Bool} {e e' : BSSDescriptor}

theorem refl : Moved l e e := .inl rfl

theorem beaconBufSize (h : Moved l e e') : e'.beaconBufSize = e.beaconBufSize := by
  rcases h with rfl | ⟨p, -, rfl⟩ <;> rfl

theorem beaconBufSizeMax (h : Moved l e e') : e'.beaconBufSizeMax = e.beaconBufSizeMax := by
  rcases h with rfl | ⟨p, -, rfl⟩ <;> rfl

theorem stored (h : Moved l e e') : e'.stored = e.stored := by
  rcases h with rfl | ⟨p, -, rfl⟩ <;> rfl

theorem macAddress (h : Moved l e e') : e'.macAddress = e.macAddress := by
  rcases h with rfl | ⟨p, -, rfl⟩ <;> rfl

theorem ssid (h : Moved l e e') : e'.ssid = e.ssid := by
  rcases h with rfl | ⟨p, -, rfl⟩ <;> rfl

end Moved

namespace Adapter

variable {a a' : Adapter} {idx n i j tmpBuf : ℕ} {new new' : BSSDescriptor}

/-- What the beacon buffer looks like. -/
structure Layout (a : Adapter) : Prop where
  num_le : a.numInScanTable ≤ maxBssidList
  bcnBuf_pos : 0 < a.bcnBuf
  size_lt : a.bcnBufSize < 2 ^ 32
  end_le : a.pbcnBufEnd ≤ a.bcnBuf + a.bcnBufSize
  packed : Packed (fun i => (a.pscanTable i).pbeaconBuf) (fun i => (a.pscanTable i).beaconBufSizeMax)
    a.numInScanTable a.bcnBuf a.pbcnBufEnd
  size_le : ∀ i < a.numInScanTable, (a.pscanTable i).beaconBufSize ≤ (a.pscanTable i).beaconBufSizeMax
  free : ∀ i, a.numInScanTable ≤ i → (a.pscanTable i).pbeaconBuf = 0

/-- The layout is one of the table and the bounds of the buffer. -/
theorem Layout.congr (h : a.Layout) (htable : a'.pscanTable = a.pscanTable)
    (hnum : a'.numInScanTable = a.numInScanTable) (hbuf : a'.bcnBuf = a.bcnBuf) (hsize : a'.bcnBufSize = a.bcnBufSize)
    (hend : a'.pbcnBufEnd = a.pbcnBufEnd) : a'.Layout where
  num_le := hnum ▸ h.num_le
  bcnBuf_pos := hbuf ▸ h.bcnBuf_pos
  size_lt := hsize ▸ h.size_lt
  end_le := by
    rw [hbuf, hsize, hend]
    exact h.end_le
  packed := by
    rw [htable, hnum, hbuf, hend]
    exact h.packed
  size_le := by
    rw [htable, hnum]
    exact h.size_le
  free := by
    rw [htable, hnum]
    exact h.free

/-- Entry `i` of `a` is entry `j` of `a'`, with the same beacon. -/
def Kept (l : IeKind → Bool) (a a' : Adapter) (i j : ℕ) : Prop :=
  Moved l (a.pscanTable i) (a'.pscanTable j) ∧ a'.beaconOf (a'.pscanTable j) = a.beaconOf (a.pscanTable i)

/-- The kinds whose pointers a store moves : all of them. -/
abbrev allKinds : IeKind → Bool := fun _ => true

theorem Layout.pbeaconBuf_pos (h : a.Layout) (hi : i < a.numInScanTable) : (a.pscanTable i).pbeaconBuf ≠ 0 := by
  have hlow := h.packed.low i hi
  have := h.bcnBuf_pos
  omega

/-- A beacon outside of the buffer. -/
def Outside (a : Adapter) (e : BSSDescriptor) : Prop :=
  Apart e.pbeaconBuf e.beaconBufSize a.bcnBuf a.bcnBufSize

/-- The memory outside of the buffer is kept. -/
def KeptOutside (a : Adapter) (m : Mem) : Prop :=
  ∀ p k, Apart p k a.bcnBuf a.bcnBufSize → m.read p k = a.mem.read p k

/-! ## One entry gets a new beacon -/

/-- Entry `idx` gets the space `ℓ`, and the beacons behind it move by the difference. -/
structure Resized (a b : Adapter) (idx ℓ : ℕ) : Prop where
  num : b.numInScanTable = a.numInScanTable
  bcnBuf : b.bcnBuf = a.bcnBuf
  bcnBufSize : b.bcnBufSize = a.bcnBufSize
  pbcnBufEnd : b.pbcnBufEnd = a.pbcnBufEnd -
    ((a.pscanTable idx).pbeaconBuf + (a.pscanTable idx).beaconBufSizeMax) + ((a.pscanTable idx).pbeaconBuf + ℓ)
  end_le : b.pbcnBufEnd ≤ a.bcnBuf + a.bcnBufSize
  pos : 0 < ℓ
  self : (b.pscanTable idx).pbeaconBuf = (a.pscanTable idx).pbeaconBuf
  selfMax : (b.pscanTable idx).beaconBufSizeMax = ℓ
  selfSize : (b.pscanTable idx).beaconBufSize ≤ ℓ
  stay : ∀ j, j < idx ∨ a.numInScanTable ≤ j → b.pscanTable j = a.pscanTable j
  moved : ∀ j, idx < j → j < a.numInScanTable → Moved allKinds (a.pscanTable j) (b.pscanTable j) ∧
    (b.pscanTable j).pbeaconBuf = (a.pscanTable j).pbeaconBuf -
      ((a.pscanTable idx).pbeaconBuf + (a.pscanTable idx).beaconBufSizeMax) + ((a.pscanTable idx).pbeaconBuf + ℓ)
  memBehind : ∀ x k,
    (a.pscanTable idx).pbeaconBuf + (a.pscanTable idx).beaconBufSizeMax + x + k ≤ a.pbcnBufEnd →
      b.mem.read ((a.pscanTable idx).pbeaconBuf + ℓ + x) k =
        a.mem.read ((a.pscanTable idx).pbeaconBuf + (a.pscanTable idx).beaconBufSizeMax + x) k
  memOut : ∀ p k, p + k ≤ (a.pscanTable idx).pbeaconBuf ∨ a.bcnBuf + a.bcnBufSize ≤ p →
    b.mem.read p k = a.mem.read p k

namespace Resized

variable {b : Adapter} {ℓ : ℕ}

theorem layout (r : Resized a b idx ℓ) (h : a.Layout) (hidx : idx < a.numInScanTable) : b.Layout where
  num_le := r.num ▸ h.num_le
  bcnBuf_pos := r.bcnBuf ▸ h.bcnBuf_pos
  size_lt := r.bcnBufSize ▸ h.size_lt
  end_le := by
    rw [r.bcnBuf, r.bcnBufSize]
    exact r.end_le
  packed := by
    rw [r.num, r.bcnBuf]
    refine h.packed.resize hidx r.pos (fun j hj => ?_) (fun j hj => ?_) r.pbcnBufEnd
    · rcases Nat.lt_trichotomy idx j with hij | rfl | hji
      · rw [if_pos hij, (r.moved j hij hj).2]
      · rw [if_neg (by omega), r.self]
      · rw [if_neg (by omega), r.stay j (.inl hji)]
    · rcases Nat.lt_trichotomy idx j with hij | rfl | hji
      · rw [if_neg (by omega), (r.moved j hij hj).1.beaconBufSizeMax]
      · rw [if_pos rfl, r.selfMax]
      · rw [if_neg (by omega), r.stay j (.inl hji)]
  size_le j hj := by
    rw [r.num] at hj
    have hold := h.size_le j hj
    rcases Nat.lt_trichotomy idx j with hij | rfl | hji
    · rwa [(r.moved j hij hj).1.beaconBufSize, (r.moved j hij hj).1.beaconBufSizeMax]
    · rw [r.selfMax]
      exact r.selfSize
    · rwa [r.stay j (.inl hji)]
  free j hj := by
    rw [r.num] at hj
    rw [r.stay j (.inr hj)]
    exact h.free j hj

/-- The others keep their beacons. -/
theorem kept (r : Resized a b idx ℓ) (h : a.Layout) (hidx : idx < a.numInScanTable) (hj : j < a.numInScanTable)
    (hne : j ≠ idx) : Kept allKinds a b j j := by
  have hsz := h.size_le j hj
  rcases Nat.lt_or_gt_of_ne hne with hji | hij
  · have hstay := r.stay j (.inl hji)
    have := h.packed.order j idx hji hidx
    refine ⟨.inl hstay, ?_⟩
    rw [beaconOf, beaconOf, hstay]
    exact r.memOut _ _ (.inl (by omega))
  · have hp := h.packed.order idx j hij hj
    have hhigh := h.packed.high j hj
    obtain ⟨hmoved, hbuf⟩ := r.moved j hij hj
    refine ⟨hmoved, ?_⟩
    have hread := r.memBehind ((a.pscanTable j).pbeaconBuf -
      ((a.pscanTable idx).pbeaconBuf + (a.pscanTable idx).beaconBufSizeMax)) (a.pscanTable j).beaconBufSize
      (by omega)
    rw [Nat.add_sub_cancel' hp] at hread
    rw [beaconOf, beaconOf, hmoved.beaconBufSize, hbuf, ← hread]
    congr 1
    omega

theorem keptOutside (r : Resized a b idx ℓ) (h : a.Layout) (hidx : idx < a.numInScanTable) :
    a.KeptOutside b.mem := by
  intro p k hp
  have := h.packed.low idx hidx
  refine r.memOut p k ?_
  unfold Apart at hp
  omega

end Resized

/-- The entries past the beacon of entry `idx`. -/
theorem Layout.adjustPast_of_lt (h : a.Layout) {move : ℕ → ℕ} (hij : idx < j) (hj : j < a.numInScanTable)
    (hmove : move (a.pscanTable j).pbeaconBuf ≠ 0) :
    a.adjustPast (a.pscanTable idx).pbeaconBuf a.numInScanTable move j =
      { a.pscanTable j with pbeaconBuf := move (a.pscanTable j).pbeaconBuf }.rebase allKinds := by
  have hlt := (h.packed.start_lt_iff (hij.trans hj) hj).mpr hij
  unfold adjustPast
  rw [if_pos ⟨hj, hlt⟩, adjustIeInBssEntry_of_ne hmove]

/-- The entries before the beacon of entry `idx`, and the slots behind the table. -/
theorem Layout.adjustPast_of_le (h : a.Layout) {move : ℕ → ℕ} (hidx : idx < a.numInScanTable)
    (hj : j ≤ idx ∨ a.numInScanTable ≤ j) :
    a.adjustPast (a.pscanTable idx).pbeaconBuf a.numInScanTable move j = a.pscanTable j := by
  unfold adjustPast
  rw [if_neg]
  rintro ⟨hlt, hpast⟩
  have := (h.packed.start_lt_iff hidx hlt).mp hpast
  omega

/-- There is room for `new` in place of the beacon of entry `idx`. -/
def ReplaceFits (a : Adapter) (idx : ℕ) (new : BSSDescriptor) : Prop :=
  new.beaconBufSize = (a.pscanTable idx).beaconBufSize ∨
    new.beaconBufSize ≤ (a.pscanTable idx).beaconBufSizeMax ∨
    a.pbcnBufEnd + (new.beaconBufSize - (a.pscanTable idx).beaconBufSizeMax) < a.bcnBuf + a.bcnBufSize
  deriving Decidable

/-- What a table keeps of everything but its entries and its buffer. -/
structure SameRest (a b : Adapter) : Prop where
  mediaConnected : b.mediaConnected = a.mediaConnected
  currBss : b.currBss = a.currBss
  pcurrBcnBuf : b.pcurrBcnBuf = a.pcurrBcnBuf
  currBcnSize : b.currBcnSize = a.currBcnSize

/-- What replacing the beacon of entry `idx` comes to. -/
structure Replaced (a b : Adapter) (idx : ℕ) (new : BSSDescriptor) (ℓ : ℕ) : Prop where
  resized : Resized a b idx ℓ
  rest : SameRest a b
  fits : a.ReplaceFits idx new →
    b.pscanTable idx =
        { new with
          pbeaconBuf := (a.pscanTable idx).pbeaconBuf
          beaconBufSizeMax := ℓ
          stored := some (a.beaconOf new) }.rebase allKinds ∧
      b.beaconOf (b.pscanTable idx) = a.beaconOf new
  fails : ¬ a.ReplaceFits idx new →
    b.pscanTable idx =
        { keepOldBeacon (a.pscanTable idx) new with
          pbeaconBuf := (a.pscanTable idx).pbeaconBuf
          beaconBufSizeMax := ℓ }.rebase allKinds ∧
      b.beaconOf (b.pscanTable idx) = a.beaconOf (a.pscanTable idx)

/-- Put a descriptor whose beacon was stored into the table. -/
def put (r : Adapter × BSSDescriptor) (idx n : ℕ) : Adapter :=
  { r.1 with pscanTable := Function.update r.1.pscanTable idx r.2, numInScanTable := n }

@[simp] theorem put_self (r : Adapter × BSSDescriptor) (idx n : ℕ) : (put r idx n).pscanTable idx = r.2 :=
  Function.update_self _ _ _

theorem put_of_ne {r : Adapter × BSSDescriptor} (h : j ≠ idx) : (put r idx n).pscanTable j = r.1.pscanTable j :=
  Function.update_of_ne h _ _

theorem storeEntry_of_ne (h : (a.pscanTable idx).pbeaconBuf ≠ 0) :
    a.storeEntry idx n new tmpBuf = put (a.replaceBeacon idx n new) idx n := by
  have hbuf : (a.replaceBeacon idx n new).2.pbeaconBuf ≠ 0 := by
    rw [replaceBeacon, adjustIeInBssEntry_pbeaconBuf]
    exact h
  rw [storeEntry, scanStoreBeacon, if_pos h]
  exact if_neg hbuf

theorem copyBeacon_eq (m : Mem) (store : ℕ) (e : BSSDescriptor) :
    copyBeacon m store e = m.memmove store e.pbeaconBuf e.beaconBufSize :=
  rfl

/-- The octets that a copy leaves at its destination. -/
theorem read_copyBeacon (hout : a.Outside new) {m : Mem} (hm : a.KeptOutside m) (store : ℕ) :
    (copyBeacon m store new).read store new.beaconBufSize = a.beaconOf new := by
  have hcopy : (m.memmove store new.pbeaconBuf new.beaconBufSize).read (store + 0) new.beaconBufSize =
      m.read (new.pbeaconBuf + 0) new.beaconBufSize := read_memmove (by omega)
  rw [copyBeacon_eq, beaconOf, ← hm _ _ hout]
  exact hcopy

section Replace

variable (h : a.Layout) (hidx : idx < a.numInScanTable) {m : Mem}

include h hidx

/-- The entry is written over in its own space. -/
theorem Layout.resized_overwrite
    (hm : ∀ p k, Apart p k (a.pscanTable idx).pbeaconBuf (a.pscanTable idx).beaconBufSizeMax →
      m.read p k = a.mem.read p k)
    (hbuf : new'.pbeaconBuf = (a.pscanTable idx).pbeaconBuf)
    (hmax : new'.beaconBufSizeMax = (a.pscanTable idx).beaconBufSizeMax)
    (hsize : new'.beaconBufSize ≤ (a.pscanTable idx).beaconBufSizeMax) :
    Resized a (put ({ a with mem := m }, new') idx a.numInScanTable) idx (a.pscanTable idx).beaconBufSizeMax := by
  have hhigh := h.packed.high idx hidx
  have hend := h.end_le
  exact {
    num := rfl
    bcnBuf := rfl
    bcnBufSize := rfl
    pbcnBufEnd := by
      show a.pbcnBufEnd = _
      omega
    end_le := hend
    pos := h.packed.pos idx hidx
    self := by rw [put_self, hbuf]
    selfMax := by rw [put_self, hmax]
    selfSize := by rw [put_self]; exact hsize
    stay := fun j hj => put_of_ne (by omega)
    moved := fun j hij hj => by
      have := h.packed.order idx j hij hj
      rw [put_of_ne (by omega)]
      exact ⟨.refl, by show (a.pscanTable j).pbeaconBuf = _; omega⟩
    memBehind := fun x k hx => hm _ _ (.inr (by omega))
    memOut := fun p k hp => hm _ _ (by unfold Apart; omega) }

/-- The entry gets the space `ℓ`, and the beacons behind it are moved. -/
theorem Layout.resized_move {ℓ pend : ℕ} {move : ℕ → ℕ} (hℓ : 0 < ℓ)
    (hmove : ∀ p, (a.pscanTable idx).pbeaconBuf + (a.pscanTable idx).beaconBufSizeMax ≤ p →
      move p = p - ((a.pscanTable idx).pbeaconBuf + (a.pscanTable idx).beaconBufSizeMax) +
        ((a.pscanTable idx).pbeaconBuf + ℓ))
    (hend : pend = a.pbcnBufEnd - ((a.pscanTable idx).pbeaconBuf + (a.pscanTable idx).beaconBufSizeMax) +
      ((a.pscanTable idx).pbeaconBuf + ℓ))
    (hle : pend ≤ a.bcnBuf + a.bcnBufSize)
    (hbehind : ∀ x k, (a.pscanTable idx).pbeaconBuf + (a.pscanTable idx).beaconBufSizeMax + x + k ≤ a.pbcnBufEnd →
      m.read ((a.pscanTable idx).pbeaconBuf + ℓ + x) k =
        a.mem.read ((a.pscanTable idx).pbeaconBuf + (a.pscanTable idx).beaconBufSizeMax + x) k)
    (hout : ∀ p k, p + k ≤ (a.pscanTable idx).pbeaconBuf ∨ a.bcnBuf + a.bcnBufSize ≤ p →
      m.read p k = a.mem.read p k)
    (hbuf : new'.pbeaconBuf = (a.pscanTable idx).pbeaconBuf) (hmax : new'.beaconBufSizeMax = ℓ)
    (hsize : new'.beaconBufSize ≤ ℓ) :
    Resized a (put ({ a with
      mem := m, pbcnBufEnd := pend
      pscanTable := a.adjustPast (a.pscanTable idx).pbeaconBuf a.numInScanTable move }, new')
        idx a.numInScanTable) idx ℓ := by
  have hpos := h.pbeaconBuf_pos hidx
  exact {
    num := rfl
    bcnBuf := rfl
    bcnBufSize := rfl
    pbcnBufEnd := hend
    end_le := hle
    pos := hℓ
    self := by rw [put_self, hbuf]
    selfMax := by rw [put_self, hmax]
    selfSize := by rw [put_self]; exact hsize
    stay := fun j hj => by
      rw [put_of_ne (by omega)]
      exact h.adjustPast_of_le hidx (by omega)
    moved := fun j hij hj => by
      have hp := hmove _ (h.packed.order idx j hij hj)
      have hne : move (a.pscanTable j).pbeaconBuf ≠ 0 := by omega
      rw [put_of_ne (by omega)]
      dsimp only
      rw [h.adjustPast_of_lt hij hj hne]
      exact ⟨.inr ⟨_, hne, rfl⟩, hp⟩
    memBehind := hbehind
    memOut := hout }

/-- The same size, or a size that fits and leaves the space as it is. -/
theorem Layout.replaced_overwrite (hout : a.Outside new)
    (hfit : new.beaconBufSize ≤ (a.pscanTable idx).beaconBufSizeMax)
    (hreq : a.replaceBeacon idx a.numInScanTable new =
      ({ a with mem := copyBeacon a.mem (a.pscanTable idx).pbeaconBuf new },
        { new with
          pbeaconBuf := (a.pscanTable idx).pbeaconBuf
          beaconBufSizeMax := (a.pscanTable idx).beaconBufSizeMax
          stored := some (a.beaconOf new) }.rebase allKinds)) :
    Replaced a (put (a.replaceBeacon idx a.numInScanTable new) idx a.numInScanTable) idx new
      (a.pscanTable idx).beaconBufSizeMax := by
  rw [hreq]
  refine ⟨h.resized_overwrite hidx (fun p k hp => ?_) rfl rfl hfit, ⟨rfl, rfl, rfl, rfl⟩, fun _ => ?_,
    fun hno => absurd (.inr (.inl hfit)) hno⟩
  · exact read_memmove_of_apart (hp.symm.part le_rfl (by omega)).symm
  · rw [put_self]
    exact ⟨rfl, read_copyBeacon hout (fun _ _ _ => rfl) _⟩

/-- A smaller beacon, where the old one was smaller than its space. -/
theorem Layout.replaced_shrink (hout : a.Outside new)
    (hne : new.beaconBufSize ≠ (a.pscanTable idx).beaconBufSize)
    (hold : (a.pscanTable idx).beaconBufSize < (a.pscanTable idx).beaconBufSizeMax)
    (hnew : new.beaconBufSize ≤ (a.pscanTable idx).beaconBufSize) :
    Replaced a (put (a.replaceBeacon idx a.numInScanTable new) idx a.numInScanTable) idx new
      (a.pscanTable idx).beaconBufSize := by
  have hlow := h.packed.low idx hidx
  have hhigh := h.packed.high idx hidx
  have hend := h.end_le
  have hpos := h.pbeaconBuf_pos hidx
  rw [replaceBeacon]
  dsimp only
  rw [if_neg hne, if_pos (by omega), if_pos ⟨hold, hnew⟩, adjustIeInBssEntry_of_ne (by exact hpos)]
  refine ⟨h.resized_move hidx (by omega) (fun p hp => by omega) (by omega) (by omega) (fun x k hx => ?_)
    (fun p k hp => ?_) rfl rfl hnew, ⟨rfl, rfl, rfl, rfl⟩, fun _ => ?_,
    fun hno => absurd (.inr (.inl (by omega))) hno⟩
  · rw [read_memmove (by omega)]
    exact read_memmove_of_apart (.inr (by omega))
  · rw [read_memmove_of_apart (by unfold Apart; omega)]
    exact read_memmove_of_apart (by unfold Apart; omega)
  · rw [put_self]
    refine ⟨rfl, ?_⟩
    show read _ (a.pscanTable idx).pbeaconBuf new.beaconBufSize = _
    rw [← read_copyBeacon hout (fun _ _ _ => rfl) (a.pscanTable idx).pbeaconBuf]
    exact read_memmove_of_apart (.inl (by omega))

/-- A beacon larger than its space, with room behind the last one. -/
theorem Layout.replaced_grow (hout : a.Outside new)
    (hne : new.beaconBufSize ≠ (a.pscanTable idx).beaconBufSize)
    (hlarge : (a.pscanTable idx).beaconBufSizeMax < new.beaconBufSize)
    (hroom : a.pbcnBufEnd + (new.beaconBufSize - (a.pscanTable idx).beaconBufSizeMax) < a.bcnBuf + a.bcnBufSize) :
    Replaced a (put (a.replaceBeacon idx a.numInScanTable new) idx a.numInScanTable) idx new
      new.beaconBufSize := by
  have hlow := h.packed.low idx hidx
  have hhigh := h.packed.high idx hidx
  have hpos := h.pbeaconBuf_pos hidx
  rw [replaceBeacon]
  dsimp only
  rw [if_neg hne, if_neg (by omega), if_pos hroom, adjustIeInBssEntry_of_ne (by exact hpos)]
  refine ⟨h.resized_move hidx (by omega) (fun p hp => by omega) (by omega) (by omega) (fun x k hx => ?_)
    (fun p k hp => ?_) rfl rfl le_rfl, ⟨rfl, rfl, rfl, rfl⟩, fun _ => ?_,
    fun hno => absurd (.inr (.inr hroom)) hno⟩
  · rw [copyBeacon_eq, read_memmove_of_apart (.inr (by omega))]
    exact read_memmove (by omega)
  · rw [copyBeacon_eq, read_memmove_of_apart (by unfold Apart; omega)]
    exact read_memmove_of_apart (by unfold Apart; omega)
  · rw [put_self]
    refine ⟨rfl, read_copyBeacon hout (fun p k hp => ?_) _⟩
    exact read_memmove_of_apart (by unfold Apart at *; omega)

/-- A beacon larger than its space, without room : the old one is kept. -/
theorem Layout.replaced_keep (hne : ¬ a.ReplaceFits idx new) :
    Replaced a (put (a.replaceBeacon idx a.numInScanTable new) idx a.numInScanTable) idx new
      (a.pscanTable idx).beaconBufSizeMax := by
  have hpos := h.pbeaconBuf_pos hidx
  have hsize := h.size_le idx hidx
  obtain ⟨hne₁, hne₂, hne₃⟩ : new.beaconBufSize ≠ (a.pscanTable idx).beaconBufSize ∧
      ¬ new.beaconBufSize ≤ (a.pscanTable idx).beaconBufSizeMax ∧
      ¬ a.pbcnBufEnd + (new.beaconBufSize - (a.pscanTable idx).beaconBufSizeMax) < a.bcnBuf + a.bcnBufSize := by
    unfold ReplaceFits at hne
    exact ⟨fun heq => hne (.inl heq), fun hle => hne (.inr (.inl hle)), fun hlt => hne (.inr (.inr hlt))⟩
  rw [replaceBeacon]
  dsimp only
  rw [if_neg hne₁, if_neg hne₂, if_neg hne₃, adjustIeInBssEntry_of_ne (by exact hpos)]
  refine ⟨h.resized_overwrite hidx (fun _ _ _ => rfl) rfl rfl hsize, ⟨rfl, rfl, rfl, rfl⟩,
    fun hfit => absurd hfit hne, fun _ => ?_⟩
  rw [put_self]
  exact ⟨rfl, rfl⟩

/-- `wlan_ret_802_11_scan_store_beacon` for an entry that has a beacon. -/
theorem Layout.replaced (hout : a.Outside new) :
    ∃ ℓ, Replaced a (a.storeEntry idx a.numInScanTable new tmpBuf) idx new ℓ := by
  have hpos := h.pbeaconBuf_pos hidx
  have hsize := h.size_le idx hidx
  rw [storeEntry_of_ne hpos]
  by_cases hfit : a.ReplaceFits idx new
  · by_cases heq : new.beaconBufSize = (a.pscanTable idx).beaconBufSize
    · refine ⟨_, h.replaced_overwrite hidx hout (by omega) ?_⟩
      rw [replaceBeacon]
      dsimp only
      rw [if_pos heq, adjustIeInBssEntry_of_ne (by exact hpos)]
    · by_cases hle : new.beaconBufSize ≤ (a.pscanTable idx).beaconBufSizeMax
      · by_cases hshrink : (a.pscanTable idx).beaconBufSize < (a.pscanTable idx).beaconBufSizeMax ∧
            new.beaconBufSize ≤ (a.pscanTable idx).beaconBufSize
        · exact ⟨_, h.replaced_shrink hidx hout heq hshrink.1 hshrink.2⟩
        · refine ⟨_, h.replaced_overwrite hidx hout hle ?_⟩
          rw [replaceBeacon]
          dsimp only
          rw [if_neg heq, if_pos hle, if_neg hshrink, adjustIeInBssEntry_of_ne (by exact hpos)]
      · exact ⟨_, h.replaced_grow hidx hout heq (by omega) ((hfit.resolve_left heq).resolve_left hle)⟩
  · exact ⟨_, h.replaced_keep hidx hfit⟩

end Replace

/-! ## A new entry -/

/-- The buffer is enlarged before `new` is stored. -/
def Enlarged (a : Adapter) (new : BSSDescriptor) (tmpBuf : ℕ) : Prop :=
  a.WantsEnlargement new ∧ tmpBuf ≠ 0
  deriving Decidable

/-- There is room for `new` behind the last beacon, in the enlarged buffer if it is enlarged. -/
def AppendFits (a : Adapter) (new : BSSDescriptor) (tmpBuf : ℕ) : Prop :=
  a.pbcnBufEnd + new.beaconBufSize + scanBeaconEntryPad <
    a.bcnBuf + a.bcnBufSize + if a.Enlarged new tmpBuf then defaultScanBeaconBuffer else 0

instance decidableAppendFits (a : Adapter) (new : BSSDescriptor) (tmpBuf : ℕ) :
    Decidable (a.AppendFits new tmpBuf) :=
  inferInstanceAs (Decidable (_ < _))

/-- The octets in memory that neither the buffer nor a larger one takes. -/
def KeptApart (a : Adapter) (tmpBuf : ℕ) (m : Mem) : Prop :=
  ∀ p k, Apart p k a.bcnBuf a.bcnBufSize → a.TmpApart tmpBuf p k → m.read p k = a.mem.read p k

/-- The buffer stays where it is, or becomes the one that was allocated. -/
def BufferOf (a b : Adapter) (tmpBuf : ℕ) : Prop :=
  (b.bcnBuf = a.bcnBuf ∧ b.bcnBufSize = a.bcnBufSize) ∨
    (tmpBuf ≠ 0 ∧ b.bcnBuf = tmpBuf ∧ b.bcnBufSize = a.bcnBufSize + defaultScanBeaconBuffer)

/-- `b` is `a` with a buffer in which `new` has room, ready to take it as entry `idx`. -/
structure Ready (a b : Adapter) (idx : ℕ) (new : BSSDescriptor) (tmpBuf : ℕ) : Prop where
  bcnBuf_pos : 0 < b.bcnBuf
  size_lt : b.bcnBufSize < 2 ^ 32
  room : b.pbcnBufEnd + new.beaconBufSize + scanBeaconEntryPad < b.bcnBuf + b.bcnBufSize
  packed : Packed (fun i => (b.pscanTable i).pbeaconBuf) (fun i => (b.pscanTable i).beaconBufSizeMax)
    idx b.bcnBuf b.pbcnBufEnd
  free : ∀ i, idx < i → (b.pscanTable i).pbeaconBuf = 0
  kept : ∀ j < idx, Kept allKinds a b j j
  outside : b.Outside new
  beacon : b.beaconOf new = a.beaconOf new
  rest : SameRest a b
  keptApart : a.KeptApart tmpBuf b.mem
  buffer : BufferOf a b tmpBuf

/-- What appending an entry comes to when there is room. -/
structure Appended (a b : Adapter) (idx : ℕ) (new : BSSDescriptor) (tmpBuf : ℕ) : Prop where
  layout : b.Layout
  num : b.numInScanTable = idx + 1
  kept : ∀ j < idx, Kept allKinds a b j j
  entry : ∃ p, p ≠ 0 ∧ b.pscanTable idx =
    { new with
      pbeaconBuf := p
      beaconBufSizeMax := new.beaconBufSize + scanBeaconEntryPad
      stored := some (a.beaconOf new) }.rebase allKinds
  beacon : b.beaconOf (b.pscanTable idx) = a.beaconOf new
  rest : SameRest a b
  keptApart : a.KeptApart tmpBuf b.mem
  buffer : BufferOf a b tmpBuf

/-- The new beacon is copied behind the others. -/
theorem Ready.appended {b : Adapter} (r : Ready a b idx new tmpBuf) (h : a.Layout) (hnum : a.numInScanTable = idx)
    (hlt : idx < maxBssidList) :
    Appended a (put ({ b with
      mem := copyBeacon b.mem b.pbcnBufEnd new
      pbcnBufEnd := b.pbcnBufEnd + (new.beaconBufSize + scanBeaconEntryPad) },
      { new with
        pbeaconBuf := b.pbcnBufEnd
        beaconBufSizeMax := new.beaconBufSize + scanBeaconEntryPad
        stored := some (b.beaconOf new) }.rebase allKinds) idx (idx + 1))
      idx new tmpBuf := by
  have hpad : scanBeaconEntryPad = 6 := rfl
  have hroom := r.room
  have hbuf := r.bcnBuf_pos
  have hle := r.packed.le
  have hsz : ∀ j < idx, (b.pscanTable j).beaconBufSize ≤ (b.pscanTable j).beaconBufSizeMax := by
    intro j hj
    have hold := h.size_le j (by omega)
    rwa [← (r.kept j hj).1.beaconBufSize, ← (r.kept j hj).1.beaconBufSizeMax] at hold
  -- the copy ends inside of the buffer, so it touches neither the others nor what lies outside
  have hmem : ∀ p k, Apart p k b.pbcnBufEnd new.beaconBufSize →
      (copyBeacon b.mem b.pbcnBufEnd new).read p k = b.mem.read p k :=
    fun p k hp => read_memmove_of_apart hp
  refine ⟨⟨hlt, hbuf, r.size_lt, ?_, ?_, fun j hj => ?_, fun j hj => ?_⟩, rfl, fun j hj => ?_, ?_, ?_, ?_,
    fun p k hp ht => ?_, r.buffer⟩
  · show b.pbcnBufEnd + (new.beaconBufSize + scanBeaconEntryPad) ≤ b.bcnBuf + b.bcnBufSize
    omega
  · refine r.packed.append (k := new.beaconBufSize + scanBeaconEntryPad) (by omega) (fun j hj => ?_)
      (fun j hj => ?_) ?_ ?_
    · rw [put_of_ne (by omega)]
    · rw [put_of_ne (by omega)]
    · rw [put_self]
      rfl
    · rw [put_self]
      rfl
  · rcases Nat.lt_succ_iff_lt_or_eq.mp hj with hj | rfl
    · rw [put_of_ne (by omega)]
      exact hsz j hj
    · rw [put_self]
      exact Nat.le_add_right _ _
  · have hji : idx + 1 ≤ j := hj
    rw [put_of_ne (by omega)]
    exact r.free j (by omega)
  · have hkept := r.kept j hj
    have hhigh := r.packed.high j hj
    have := hsz j hj
    refine ⟨by rw [put_of_ne (by omega)]; exact hkept.1, ?_⟩
    rw [put_of_ne (by omega), ← hkept.2]
    have hbefore : (b.pscanTable j).pbeaconBuf + (b.pscanTable j).beaconBufSize ≤ b.pbcnBufEnd := by omega
    exact hmem _ _ (.inl hbefore)
  · exact ⟨b.pbcnBufEnd, by omega, by rw [put_self, r.beacon]⟩
  · rw [put_self, ← r.beacon]
    exact read_copyBeacon r.outside (fun _ _ _ => rfl) _
  · exact ⟨r.rest.mediaConnected, r.rest.currBss, r.rest.pcurrBcnBuf, r.rest.currBcnSize⟩
  · rw [← r.keptApart p k hp ht]
    refine hmem p k ?_
    rcases r.buffer with ⟨hb, hs⟩ | ⟨hne, hb, hs⟩
    · unfold Apart at *
      omega
    · have htmp := ht.resolve_left hne
      unfold Apart at *
      omega

/-- A buffer in which the beacon has room as it is. -/
theorem Layout.ready (h : a.Layout) (hnum : a.numInScanTable = idx) (hout : a.Outside new)
    (hroom : a.pbcnBufEnd + new.beaconBufSize + scanBeaconEntryPad < a.bcnBuf + a.bcnBufSize) :
    Ready a a idx new tmpBuf where
  bcnBuf_pos := h.bcnBuf_pos
  size_lt := h.size_lt
  room := hroom
  packed := hnum ▸ h.packed
  free i hi := h.free i (by omega)
  kept _ _ := ⟨.refl, rfl⟩
  outside := hout
  beacon := rfl
  rest := ⟨rfl, rfl, rfl, rfl⟩
  keptApart _ _ _ _ := rfl
  buffer := .inl ⟨rfl, rfl⟩

/-- The offset of a beacon in the buffer, as it is computed for the larger buffer. -/
theorem Layout.offset_eq (h : a.Layout) (hj : j < a.numInScanTable) :
    ((a.pscanTable j).pbeaconBuf + 2 ^ 64 - a.bcnBuf) % 2 ^ 32 = (a.pscanTable j).pbeaconBuf - a.bcnBuf := by
  have hlow := h.packed.low j hj
  have hhigh := h.packed.high j hj
  have hpos := h.packed.pos j hj
  have := h.end_le
  have := h.size_lt
  omega

/-- The entries and their beacons in the larger buffer. -/
theorem Layout.kept_enlarge (h : a.Layout) (htmp : tmpBuf ≠ 0) (hn : j < n) (hj : j < a.numInScanTable) :
    (a.enlarge n tmpBuf).pscanTable j = { a.pscanTable j with
      pbeaconBuf := tmpBuf + ((a.pscanTable j).pbeaconBuf - a.bcnBuf) }.rebase allKinds ∧
    Kept allKinds a (a.enlarge n tmpBuf) j j := by
  have hlow := h.packed.low j hj
  have hhigh := h.packed.high j hj
  have hsize := h.size_le j hj
  have hne : tmpBuf + ((a.pscanTable j).pbeaconBuf - a.bcnBuf) ≠ 0 := by omega
  have heq : (a.enlarge n tmpBuf).pscanTable j = { a.pscanTable j with
      pbeaconBuf := tmpBuf + ((a.pscanTable j).pbeaconBuf - a.bcnBuf) }.rebase allKinds := by
    rw [enlarge]
    dsimp only
    rw [if_pos hn, h.offset_eq hj, adjustIeInBssEntry_of_ne (by exact hne)]
  refine ⟨heq, .inr ⟨_, hne, heq⟩, ?_⟩
  rw [heq, beaconOf, beaconOf]
  simp only [BSSDescriptor.rebase_pbeaconBuf, BSSDescriptor.rebase_beaconBufSize]
  have hread : (a.enlarge n tmpBuf).mem.read (tmpBuf + ((a.pscanTable j).pbeaconBuf - a.bcnBuf))
      (a.pscanTable j).beaconBufSize =
      a.mem.read (a.bcnBuf + ((a.pscanTable j).pbeaconBuf - a.bcnBuf)) (a.pscanTable j).beaconBufSize :=
    read_memmove (by omega)
  rw [hread, Nat.add_sub_cancel' hlow]

/-- The larger buffer takes the beacon. -/
theorem Layout.ready_enlarge (h : a.Layout) (hnum : a.numInScanTable = idx) (hwants : a.WantsEnlargement new)
    (htmp : tmpBuf ≠ 0)
    (hnew : Apart tmpBuf (a.bcnBufSize + defaultScanBeaconBuffer) new.pbeaconBuf new.beaconBufSize)
    (hroom : a.pbcnBufEnd + new.beaconBufSize + scanBeaconEntryPad <
      a.bcnBuf + a.bcnBufSize + defaultScanBeaconBuffer) :
    Ready a (a.enlarge (idx + 1) tmpBuf) idx new tmpBuf := by
  have hmax : maxScanBeaconBuffer = 102400 := rfl
  have hadd : defaultScanBeaconBuffer = 4096 := rfl
  have hle := h.packed.le
  have hend := h.end_le
  have hentry : ∀ j < idx, (a.enlarge (idx + 1) tmpBuf).pscanTable j = { a.pscanTable j with
      pbeaconBuf := tmpBuf + ((a.pscanTable j).pbeaconBuf - a.bcnBuf) }.rebase allKinds ∧
      Kept allKinds a (a.enlarge (idx + 1) tmpBuf) j j :=
    fun j hj => h.kept_enlarge htmp (by omega) (by omega)
  have hmem : ∀ p k, Apart tmpBuf (a.bcnBufSize + defaultScanBeaconBuffer) p k →
      (a.enlarge (idx + 1) tmpBuf).mem.read p k = a.mem.read p k :=
    fun p k hp => read_memmove_of_apart (hp.part le_rfl (by omega)).symm
  refine ⟨Nat.pos_of_ne_zero htmp, ?_, ?_, ?_, fun i hi => ?_, fun j hj => (hentry j hj).2, hnew.symm,
    hmem _ _ hnew, ⟨rfl, rfl, rfl, rfl⟩, fun p k _ ht => hmem p k (ht.resolve_left htmp),
    .inr ⟨htmp, rfl, rfl⟩⟩
  · have := hwants.2
    show a.bcnBufSize + defaultScanBeaconBuffer < 2 ^ 32
    omega
  · show tmpBuf + (a.pbcnBufEnd - a.bcnBuf) + new.beaconBufSize + scanBeaconEntryPad <
      tmpBuf + (a.bcnBufSize + defaultScanBeaconBuffer)
    omega
  · show Packed _ _ idx tmpBuf (tmpBuf + (a.pbcnBufEnd - a.bcnBuf))
    subst hnum
    refine (h.packed.congr (fun j _ => rfl) fun j hj => ?_).rebase (fun j hj => ?_) rfl
    · rw [(hentry j hj).2.1.beaconBufSizeMax]
    · rw [(hentry j hj).1]
      rfl
  · rw [enlarge]
    dsimp only
    rw [if_neg (by omega)]
    exact h.free i (by omega)

theorem storeEntry_of_room {b : Adapter} (hslot : (a.pscanTable idx).pbeaconBuf = 0)
    (hb : b = if a.WantsEnlargement new ∧ tmpBuf ≠ 0 then a.enlarge n tmpBuf else a)
    (hroom : b.pbcnBufEnd + new.beaconBufSize + scanBeaconEntryPad < b.bcnBuf + b.bcnBufSize)
    (hne : b.pbcnBufEnd ≠ 0) :
    a.storeEntry idx n new tmpBuf = put ({ b with
        mem := copyBeacon b.mem b.pbcnBufEnd new
        pbcnBufEnd := b.pbcnBufEnd + (new.beaconBufSize + scanBeaconEntryPad) },
      { new with
        pbeaconBuf := b.pbcnBufEnd
        beaconBufSizeMax := new.beaconBufSize + scanBeaconEntryPad
        stored := some (b.beaconOf new) }.rebase allKinds) idx n := by
  have hstore : a.scanStoreBeacon idx n new tmpBuf =
      ({ b with
        mem := copyBeacon b.mem b.pbcnBufEnd new
        pbcnBufEnd := b.pbcnBufEnd + (new.beaconBufSize + scanBeaconEntryPad) },
      { new with
        pbeaconBuf := b.pbcnBufEnd
        beaconBufSizeMax := new.beaconBufSize + scanBeaconEntryPad
        stored := some (b.beaconOf new) }.rebase allKinds) := by
    rw [scanStoreBeacon, if_neg (not_not_intro hslot), appendBeacon]
    dsimp only
    rw [← hb, if_pos hroom, adjustIeInBssEntry_of_ne (by exact hne)]
  rw [storeEntry, hstore]
  exact if_neg (by exact hne)

/-- `wlan_ret_802_11_scan_store_beacon` for a new entry, with room for it. -/
theorem Layout.appended (h : a.Layout) (hnum : a.numInScanTable = idx) (hlt : idx < maxBssidList)
    (hout : a.Outside new) (hnew : a.TmpApart tmpBuf new.pbeaconBuf new.beaconBufSize)
    (hfits : a.AppendFits new tmpBuf) :
    Appended a (a.storeEntry idx (idx + 1) new tmpBuf) idx new tmpBuf := by
  have hslot : (a.pscanTable idx).pbeaconBuf = 0 := h.free idx hnum.le
  obtain ⟨b, hb, hready⟩ : ∃ b : Adapter,
      b = (if a.WantsEnlargement new ∧ tmpBuf ≠ 0 then a.enlarge (idx + 1) tmpBuf else a) ∧
        Ready a b idx new tmpBuf := by
    refine ⟨_, rfl, ?_⟩
    unfold AppendFits at hfits
    by_cases hlarger : a.WantsEnlargement new ∧ tmpBuf ≠ 0
    · rw [if_pos (show a.Enlarged new tmpBuf from hlarger)] at hfits
      rw [if_pos hlarger]
      exact h.ready_enlarge hnum hlarger.1 hlarger.2 (hnew.resolve_left hlarger.2) hfits
    · rw [if_neg (show ¬ a.Enlarged new tmpBuf from hlarger)] at hfits
      rw [if_neg hlarger]
      exact h.ready hnum hout hfits
  have hbuf := hready.bcnBuf_pos
  have hle := hready.packed.le
  have hne : b.pbcnBufEnd ≠ 0 := by omega
  rw [storeEntry_of_room hslot hb hready.room hne]
  exact hready.appended h hnum hlt

/-- Without a larger buffer the used part grows by the space of the new beacon. -/
theorem Layout.pbcnBufEnd_append (h : a.Layout) (hnum : a.numInScanTable = idx) (hno : ¬ a.Enlarged new tmpBuf)
    (hfits : a.AppendFits new tmpBuf) :
    (a.storeEntry idx (idx + 1) new tmpBuf).pbcnBufEnd =
      a.pbcnBufEnd + (new.beaconBufSize + scanBeaconEntryPad) := by
  have hbuf := h.bcnBuf_pos
  have hle := h.packed.le
  unfold AppendFits at hfits
  rw [if_neg hno, Nat.add_zero] at hfits
  rw [storeEntry_of_room (b := a) (h.free idx hnum.le) (if_neg hno).symm hfits (by omega)]
  rfl

/-- Without room, and without a larger buffer, the entry is dropped. -/
theorem Layout.not_appended (h : a.Layout) (hnum : a.numInScanTable = idx) (hno : ¬ a.Enlarged new tmpBuf)
    (hfits : ¬ a.AppendFits new tmpBuf) : a.storeEntry idx (idx + 1) new tmpBuf = a := by
  have hslot : (a.pscanTable idx).pbeaconBuf = 0 := h.free idx hnum.le
  unfold AppendFits at hfits
  rw [if_neg hno, Nat.add_zero] at hfits
  have hbuf : (adjustIeInBssEntry
      { new with pbeaconBuf := 0, beaconBufSize := 0, beaconBufSizeMax := 0 }).pbeaconBuf = 0 :=
    adjustIeInBssEntry_pbeaconBuf _
  have hstore : a.scanStoreBeacon idx (idx + 1) new tmpBuf =
      (a, adjustIeInBssEntry { new with pbeaconBuf := 0, beaconBufSize := 0, beaconBufSizeMax := 0 }) := by
    rw [scanStoreBeacon, if_neg (not_not_intro hslot), appendBeacon]
    dsimp only
    rw [if_neg (show ¬ (a.WantsEnlargement new ∧ tmpBuf ≠ 0) from hno), if_neg hfits]
  rw [storeEntry, hstore]
  dsimp only
  rw [if_pos hbuf, Nat.add_sub_cancel, ← hnum]

/-! ## Deletions -/

/-- What deleting entry `idx` comes to. -/
structure Deleted (a b : Adapter) (idx : ℕ) : Prop where
  layout : b.Layout
  num : b.numInScanTable = a.numInScanTable - 1
  before : ∀ j < idx, b.pscanTable j = a.pscanTable j ∧ Kept IeKind.movedByDelete a b j j
  behind : ∀ j, idx ≤ j → j + 1 < a.numInScanTable → Kept IeKind.movedByDelete a b (j + 1) j
  rest : SameRest a b
  keptOutside : a.KeptOutside b.mem
  bcnBuf : b.bcnBuf = a.bcnBuf
  bcnBufSize : b.bcnBufSize = a.bcnBufSize

section Delete

variable (h : a.Layout) (hidx : idx < a.numInScanTable)

include h hidx

/-- The memory after the beacons behind the deleted one were moved back. -/
theorem Layout.mem_delete : (a.scanDeleteTableEntry idx).mem =
    a.mem.memmove (a.pscanTable idx).pbeaconBuf
      ((a.pscanTable idx).pbeaconBuf + (a.pscanTable idx).beaconBufSizeMax)
      (a.pbcnBufEnd - (a.pscanTable idx).beaconBufSizeMax - (a.pscanTable idx).pbeaconBuf) := by
  have hadj : (a.pscanTable idx).beaconBufSizeMax ≠ 0 := (h.packed.pos idx hidx).ne'
  rw [scanDeleteTableEntry]
  dsimp only
  rw [if_pos hadj]

theorem Layout.end_delete : (a.scanDeleteTableEntry idx).pbcnBufEnd =
    a.pbcnBufEnd - (a.pscanTable idx).beaconBufSizeMax := by
  have hadj : (a.pscanTable idx).beaconBufSizeMax ≠ 0 := (h.packed.pos idx hidx).ne'
  rw [scanDeleteTableEntry]
  dsimp only
  rw [if_pos hadj]

theorem Layout.table_delete (j : ℕ) : (a.scanDeleteTableEntry idx).pscanTable j =
    if j + 1 = a.numInScanTable then .zero
    else if idx ≤ j ∧ j + 1 < a.numInScanTable then
      { a.pscanTable (j + 1) with
        pbeaconBuf := (a.pscanTable (j + 1)).pbeaconBuf - (a.pscanTable idx).beaconBufSizeMax }.rebase
          IeKind.movedByDelete
    else a.pscanTable j := by
  have hadj : (a.pscanTable idx).beaconBufSizeMax ≠ 0 := (h.packed.pos idx hidx).ne'
  rw [scanDeleteTableEntry]
  dsimp only
  rw [if_pos hadj]
  by_cases hlast : j + 1 = a.numInScanTable
  · rw [if_pos hlast, if_pos hlast]
  · rw [if_neg hlast, if_neg hlast]
    by_cases hj : idx ≤ j ∧ j + 1 < a.numInScanTable
    · rw [if_pos hj, if_pos hj, if_pos (h.pbeaconBuf_pos hj.2)]
    · rw [if_neg hj, if_neg hj]

/-- The memory that the deletion keeps : below the deleted beacon, and outside of the buffer. -/
theorem Layout.read_delete_of_out {p k : ℕ}
    (hp : p + k ≤ (a.pscanTable idx).pbeaconBuf ∨ a.bcnBuf + a.bcnBufSize ≤ p) :
    (a.scanDeleteTableEntry idx).mem.read p k = a.mem.read p k := by
  have hhigh := h.packed.high idx hidx
  have hend := h.end_le
  rw [h.mem_delete hidx]
  exact read_memmove_of_apart (by unfold Apart; omega)

/-- `wlan_scan_delete_table_entry`. -/
theorem Layout.deleted : Deleted a (a.scanDeleteTableEntry idx) idx := by
  have hadj : (a.pscanTable idx).beaconBufSizeMax ≠ 0 := (h.packed.pos idx hidx).ne'
  have hlow := h.packed.low idx hidx
  have hhigh := h.packed.high idx hidx
  have hend := h.end_le
  have htable := h.table_delete hidx
  have hpend := h.end_delete hidx
  have hsame : (a.scanDeleteTableEntry idx).bcnBuf = a.bcnBuf ∧
      (a.scanDeleteTableEntry idx).bcnBufSize = a.bcnBufSize ∧ SameRest a (a.scanDeleteTableEntry idx) := by
    rw [scanDeleteTableEntry]
    dsimp only
    rw [if_pos hadj]
    exact ⟨rfl, rfl, rfl, rfl, rfl, rfl⟩
  have hbase : 0 < a.bcnBuf := h.bcnBuf_pos
  have hnum : (a.scanDeleteTableEntry idx).numInScanTable = a.numInScanTable - 1 := by
    rw [scanDeleteTableEntry]
    dsimp only
    rw [if_pos hadj]
  have hbefore : ∀ j < idx, (a.scanDeleteTableEntry idx).pscanTable j = a.pscanTable j := by
    intro j hj
    rw [htable j, if_neg (by omega), if_neg (by omega)]
  have hbehind : ∀ j, idx ≤ j → j + 1 < a.numInScanTable → (a.scanDeleteTableEntry idx).pscanTable j =
      { a.pscanTable (j + 1) with
        pbeaconBuf := (a.pscanTable (j + 1)).pbeaconBuf - (a.pscanTable idx).beaconBufSizeMax }.rebase
          IeKind.movedByDelete := by
    intro j hij hj
    rw [htable j, if_neg (by omega), if_pos ⟨hij, hj⟩]
  refine ⟨⟨?_, ?_, ?_, ?_, ?_, fun j hj => ?_, fun j hj => ?_⟩, hnum, fun j hj => ⟨hbefore j hj, ?_⟩,
    fun j hij hj => ?_, hsame.2.2, fun p k hp => ?_, hsame.1, hsame.2.1⟩
  · have := h.num_le
    omega
  · rw [hsame.1]
    exact h.bcnBuf_pos
  · rw [hsame.2.1]
    exact h.size_lt
  · rw [hsame.1, hsame.2.1, hpend]
    omega
  · rw [hnum, hsame.1]
    refine h.packed.remove hidx (fun j hj => ?_) (fun j hj => ?_) hpend
    · by_cases hji : j < idx
      · rw [if_pos hji, hbefore j hji]
      · rw [if_neg hji, hbehind j (by omega) (by omega), BSSDescriptor.rebase_pbeaconBuf]
    · by_cases hji : j < idx
      · rw [if_pos hji, hbefore j hji]
      · rw [if_neg hji, hbehind j (by omega) (by omega), BSSDescriptor.rebase_beaconBufSizeMax]
  · by_cases hji : j < idx
    · rw [hbefore j hji]
      exact h.size_le j (by omega)
    · rw [hbehind j (by omega) (by omega)]
      exact h.size_le (j + 1) (by omega)
  · rw [htable j]
    by_cases hlast : j + 1 = a.numInScanTable
    · rw [if_pos hlast]
      rfl
    · rw [if_neg hlast, if_neg (by omega)]
      exact h.free j (by omega)
  · refine ⟨.inl (hbefore j hj), ?_⟩
    have := h.packed.order j idx hj hidx
    have := h.size_le j (by omega)
    rw [beaconOf, beaconOf, hbefore j hj]
    exact h.read_delete_of_out hidx (.inl (by omega))
  · have hord := h.packed.order idx (j + 1) (by omega) hj
    have hjhigh := h.packed.high (j + 1) hj
    have hjsize := h.size_le (j + 1) hj
    refine ⟨.inr ⟨_, by omega, hbehind j hij hj⟩, ?_⟩
    rw [beaconOf, beaconOf, hbehind j hij hj]
    simp only [BSSDescriptor.rebase_pbeaconBuf, BSSDescriptor.rebase_beaconBufSize]
    obtain ⟨x, hx⟩ := Nat.exists_eq_add_of_le hord
    have hplace : (a.pscanTable (j + 1)).pbeaconBuf - (a.pscanTable idx).beaconBufSizeMax =
        (a.pscanTable idx).pbeaconBuf + x := by omega
    rw [hplace, hx, h.mem_delete hidx]
    exact read_memmove (by omega)
  · unfold Apart at hp
    exact h.read_delete_of_out hidx (by omega)

end Delete

/-! ## Adding a network -/

theorem searchDuplicate_cases (a : Adapter) (new : BSSDescriptor) :
    (a.searchDuplicate new = a.numInScanTable ∧ ∀ i < a.numInScanTable, ¬ Duplicate new (a.pscanTable i)) ∨
      (a.searchDuplicate new < a.numInScanTable ∧ Duplicate new (a.pscanTable (a.searchDuplicate new)) ∧
        ∀ i < a.searchDuplicate new, ¬ Duplicate new (a.pscanTable i)) := by
  rw [searchDuplicate]
  cases hfind : (List.range a.numInScanTable).find? fun i => Duplicate new (a.pscanTable i) with
  | none =>
    refine .inl ⟨rfl, fun i hi => ?_⟩
    simpa using List.find?_eq_none.mp hfind i (List.mem_range.mpr hi)
  | some idx =>
    obtain ⟨hdup, hlt, hfirst⟩ := List.find?_range_eq_some.mp hfind
    exact .inr ⟨List.mem_range.mp hlt, by simpa using hdup, fun i hi => by simpa using hfirst i hi⟩

/-- If the buffer is enlarged, the beacon has room in it. -/
def EnlargeFits (a : Adapter) (new : BSSDescriptor) (tmpBuf : ℕ) : Prop :=
  a.Enlarged new tmpBuf → a.AppendFits new tmpBuf

instance decidableEnlargeFits (a : Adapter) (new : BSSDescriptor) (tmpBuf : ℕ) :
    Decidable (a.EnlargeFits new tmpBuf) :=
  inferInstanceAs (Decidable (_ → _))

/-- No entry of the table is a duplicate. -/
def Fresh (a : Adapter) (new : BSSDescriptor) : Prop :=
  ∀ i < a.numInScanTable, ¬ Duplicate new (a.pscanTable i)

instance decidableFresh (a : Adapter) (new : BSSDescriptor) : Decidable (a.Fresh new) :=
  inferInstanceAs (Decidable (∀ i < a.numInScanTable, ¬ Duplicate new (a.pscanTable i)))

/-- What adding a network comes to. -/
inductive Added (a : Adapter) (new : BSSDescriptor) (tmpBuf : ℕ) : Adapter → Prop
  | skipped : Added a new tmpBuf a
  | replaced {b : Adapter} {idx ℓ : ℕ} (hidx : idx < a.numInScanTable) (hdup : Duplicate new (a.pscanTable idx))
      (hfirst : ∀ i < idx, ¬ Duplicate new (a.pscanTable i)) (r : Replaced a b idx new ℓ) : Added a new tmpBuf b
  | last {b : Adapter} {ℓ : ℕ} (hfull : a.numInScanTable = maxBssidList) (hfresh : a.Fresh new)
      (r : Replaced a b (maxBssidList - 1) new ℓ) : Added a new tmpBuf b
  | appended {b : Adapter} (hlt : a.numInScanTable < maxBssidList) (hfresh : a.Fresh new)
      (r : Appended a b a.numInScanTable new tmpBuf) : Added a new tmpBuf b
  | dropped (hlt : a.numInScanTable < maxBssidList) (hno : ¬ a.AppendFits new tmpBuf) : Added a new tmpBuf a

/-- `wlan_add_new_entry_to_scan_table`. -/
theorem Layout.added (h : a.Layout) (hout : a.Outside new) (hnew : a.TmpApart tmpBuf new.pbeaconBuf new.beaconBufSize)
    (hfits : a.Fresh new → a.numInScanTable < maxBssidList → a.EnlargeFits new tmpBuf) :
    Added a new tmpBuf (a.addNewEntryToScanTable new tmpBuf) := by
  rw [addNewEntryToScanTable]
  rcases a.searchDuplicate_cases new with ⟨heq, hfresh⟩ | ⟨hlt, hdup, hfirst⟩
  · rw [if_pos heq, heq]
    split
    · next hfull =>
      have hlast : maxBssidList - 1 < a.numInScanTable := by
        rw [hfull]
        decide
      obtain ⟨ℓ, hr⟩ : ∃ ℓ, Replaced a (a.storeEntry (maxBssidList - 1) a.numInScanTable new tmpBuf)
          (maxBssidList - 1) new ℓ := h.replaced hlast hout
      rw [hfull] at hr ⊢
      exact .last hfull hfresh hr
    · next hne =>
      have hlt : a.numInScanTable < maxBssidList := by
        have := h.num_le
        omega
      by_cases hroom : a.AppendFits new tmpBuf
      · exact .appended hlt hfresh (h.appended rfl hlt hout hnew hroom)
      · rw [h.not_appended rfl (fun hen => hroom (hfits hfresh hlt hen)) hroom]
        exact .dropped hlt hroom
  · rw [if_neg (by omega)]
    split
    · exact .skipped
    · obtain ⟨ℓ, hr⟩ : ∃ ℓ, Replaced a (a.storeEntry (a.searchDuplicate new) a.numInScanTable new tmpBuf)
          (a.searchDuplicate new) new ℓ := h.replaced hlt hout
      exact .replaced hlt hdup hfirst hr

end Adapter

end WlanDriver.Scan
