import WlanDriver.Scan.Steps

/-!
# Stored beacons

Along every run the entries of the table have their beacons in table order and apart inside of the used part of the
buffer, each holds the beacon that was last stored for it, and a step for one entry leaves the octets of the others
as they are (`stored_beacons`). Two kinds of steps are left out, and `beacon_misplaced` is a run into each :

* a new network takes over the last slot of a full table while its beacon does not fit there : the descriptor is
  replaced, the beacon of the other network stays (`keepOldBeacon`);
* a beacon does not fit even after the buffer was enlarged for it : the slot behind the table keeps the pointer that
  the enlargement computed for it, and the next network is stored there.
-/

namespace WlanDriver.Scan.Adapter

open List

variable {c : Config} {a b : Adapter} {tmpBuf idx ℓ : ℕ} {new : BSSDescriptor}

/-- Every entry holds the beacon that was last stored for it. -/
def HoldsStored (a : Adapter) : Prop :=
  ∀ i < a.numInScanTable, (a.pscanTable i).stored = some (a.beaconOf (a.pscanTable i))

/-- What the store of beacons is to keep. -/
structure Stores (a : Adapter) : Prop where
  stored : ∀ i < a.numInScanTable, (a.pscanTable i).pbeaconBuf ≠ 0
  inside : ∀ i < a.numInScanTable, a.bcnBuf ≤ (a.pscanTable i).pbeaconBuf ∧
    (a.pscanTable i).pbeaconBuf + (a.pscanTable i).beaconBufSizeMax ≤ a.pbcnBufEnd
  end_le : a.pbcnBufEnd ≤ a.bcnBuf + a.bcnBufSize
  order : ∀ i j, i < j → j < a.numInScanTable →
    (a.pscanTable i).pbeaconBuf + (a.pscanTable i).beaconBufSizeMax ≤ (a.pscanTable j).pbeaconBuf
  apart : ∀ i < a.numInScanTable, ∀ j < a.numInScanTable, i ≠ j →
    Apart (a.pscanTable i).pbeaconBuf (a.pscanTable i).beaconBufSizeMax
      (a.pscanTable j).pbeaconBuf (a.pscanTable j).beaconBufSizeMax
  size_le : ∀ i < a.numInScanTable, (a.pscanTable i).beaconBufSize ≤ (a.pscanTable i).beaconBufSizeMax
  holds : a.HoldsStored

/-- The slot that a step stores a beacon in. -/
def slotOf (c : Config) (a : Adapter) (o : Op) : Option ℕ :=
  match a.adds c o with
  | some x => some (min (x.1.searchDuplicate x.2) (maxBssidList - 1))
  | none => if a.AppendsIn o then some (min a.numInScanTable (maxBssidList - 1)) else none

/-- The entries that a step is not about keep their beacons. -/
def KeepsOthers (c : Config) (a b : Adapter) : Op → Prop
  | .deleteEntry idx => ∀ i < a.numInScanTable, i ≠ idx →
    b.beaconOf (b.pscanTable (if i < idx then i else i - 1)) = a.beaconOf (a.pscanTable i)
  | .flush | .clear => True
  | o => ∀ i < a.numInScanTable, a.slotOf c o ≠ some i →
    b.beaconOf (b.pscanTable i) = a.beaconOf (a.pscanTable i)

/-- No enlargement leaves the beacon without room, and a new network for the last slot of a full table fits there. -/
def StoresWell (c : Config) (a : Adapter) (o : Op) : Prop :=
  a.Roomy c o ∧ ∀ x ∈ a.adds c o, a.numInScanTable = maxBssidList → x.1.Fresh x.2 →
    x.1.ReplaceFits (maxBssidList - 1) x.2
  deriving Decidable

/-- The layout, without the free slots. -/
theorem Layout.stores (h : a.Layout) (hs : a.HoldsStored) : a.Stores where
  stored _ hi := h.pbeaconBuf_pos hi
  inside i hi := ⟨h.packed.low i hi, h.packed.high i hi⟩
  end_le := h.end_le
  order := h.packed.order
  apart _ hi _ hj hne := h.packed.apart hi hj hne
  size_le := h.size_le
  holds := hs

theorem Kept.holds {l : IeKind → Bool} {i j : ℕ} (k : Kept l a b i j)
    (h : (a.pscanTable i).stored = some (a.beaconOf (a.pscanTable i))) :
    (b.pscanTable j).stored = some (b.beaconOf (b.pscanTable j)) := by
  rw [k.1.stored, k.2, h]

/-! ## One lemma for each kind of change -/

/-- The table does not change while memory that is not in use does. -/
theorem Untouched.kept {m : Mem} (hm : a.Untouched m) (h : a.Layout) {i : ℕ} (hi : i < a.numInScanTable) :
    Kept allKinds a { a with mem := m } i i := by
  have hlow := h.packed.low i hi
  have hhigh := h.packed.high i hi
  have hsize := h.size_le i hi
  have hend := h.end_le
  have hread : m.read (a.pscanTable i).pbeaconBuf (a.pscanTable i).beaconBufSize = a.beaconOf (a.pscanTable i) :=
    hm _ _ (.inl ⟨hlow, by omega⟩)
  exact ⟨.refl, hread⟩

theorem Brings.kept {o : Op} {x : Adapter × BSSDescriptor} (hx : Brings a o x) (h : a.Sound) {i : ℕ}
    (hi : i < a.numInScanTable) : Kept allKinds a x.1 i i := by
  rw [hx.eq]
  exact hx.untouched.kept h.layout hi

theorem Brings.num {o : Op} {x : Adapter × BSSDescriptor} (hx : Brings a o x) :
    x.1.numInScanTable = a.numInScanTable := by
  rw [hx.eq]

theorem Replaced.holdsStored (r : Replaced a b idx new ℓ) (h : a.Layout) (hidx : idx < a.numInScanTable)
    (hs : a.HoldsStored) (hok : a.ReplaceFits idx new ∨ Duplicate new (a.pscanTable idx)) : b.HoldsStored := by
  intro i hi
  rw [r.resized.num] at hi
  by_cases hne : i = idx
  · subst hne
    by_cases hfit : a.ReplaceFits i new
    · obtain ⟨heq, hbeacon⟩ := r.fits hfit
      rw [hbeacon, heq]
      rfl
    · obtain ⟨heq, hbeacon⟩ := r.fails hfit
      rw [hbeacon, heq, ← hs i hidx]
      exact if_pos (hok.resolve_left hfit)
  · exact (r.resized.kept h hidx hi hne).holds (hs i hi)

theorem Appended.holdsStored (r : Appended a b idx new tmpBuf) (hs : ∀ i < idx, (a.pscanTable i).stored =
    some (a.beaconOf (a.pscanTable i))) : b.HoldsStored := by
  intro i hi
  rw [r.num] at hi
  rcases Nat.lt_succ_iff_lt_or_eq.mp hi with hlt | rfl
  · exact (r.kept i hlt).holds (hs i hlt)
  · obtain ⟨p, -, heq⟩ := r.entry
    rw [r.beacon, heq]
    rfl

theorem Deleted.holdsStored (r : Deleted a b idx) (hs : a.HoldsStored) (hidx : idx < a.numInScanTable) :
    b.HoldsStored := by
  intro i hi
  rw [r.num] at hi
  by_cases hlt : i < idx
  · exact (r.before i hlt).2.holds (hs i (by omega))
  · exact (r.behind i (by omega) (by omega)).holds (hs (i + 1) (by omega))

theorem Saves.holdsStored (s : Saves a b) (h : a.Layout) (hs : a.HoldsStored) : b.HoldsStored := by
  intro i hi
  rw [s.num] at hi
  rw [s.table, s.beaconOf h hi]
  exact hs i hi

theorem giveUpLast_kept (hfull : a.numInScanTable = maxBssidList) {i : ℕ} (hi : i < a.numInScanTable)
    (hne : i ≠ maxBssidList - 1) : Kept allKinds a a.giveUpLast i i ∧ i < maxBssidList - 1 := by
  have hold : a.giveUpLast.pscanTable i = a.pscanTable i := Function.update_of_ne hne _ _
  refine ⟨⟨.inl hold, ?_⟩, by omega⟩
  rw [hold]
  rfl

theorem adoptEntry_entry (a : Adapter) (j i : ℕ) :
    ((a.adoptEntry j).pscanTable i).stored = (a.pscanTable i).stored ∧
      (a.adoptEntry j).beaconOf ((a.adoptEntry j).pscanTable i) = a.beaconOf (a.pscanTable i) := by
  show (Function.update a.pscanTable j _ i).stored = _ ∧
    a.mem.read (Function.update a.pscanTable j _ i).pbeaconBuf (Function.update a.pscanTable j _ i).beaconBufSize = _
  by_cases hij : i = j
  · subst hij
    rw [Function.update_self]
    exact ⟨rfl, rfl⟩
  · rw [Function.update_of_ne hij]
    exact ⟨rfl, rfl⟩

/-! ## Steps -/

theorem Added.holdsStored (r : Added a new tmpBuf b) (h : a.Layout) (hs : a.HoldsStored)
    (hok : a.numInScanTable = maxBssidList → a.Fresh new → a.ReplaceFits (maxBssidList - 1) new) : b.HoldsStored := by
  cases r with
  | skipped => exact hs
  | replaced hidx hdup _ r => exact r.holdsStored h hidx hs (.inr hdup)
  | last hfull hfresh r =>
    refine r.holdsStored h ?_ hs (.inl (hok hfull hfresh))
    rw [hfull]
    decide
  | appended _ _ r => exact r.holdsStored hs
  | dropped => exact hs

/-- Every step that meets `StoresWell` keeps the entries at what was stored for them. -/
theorem Stepped.holdsStored {o : Op} (st : Stepped c a o b) (h : a.Sound) (hok : a.StoresWell c o)
    (hs : a.HoldsStored) (hen : a.Enabled o) : b.HoldsStored := by
  cases st with
  | received => exact fun i hi => ((untouched_touch hen.1).kept h.layout hi).holds (hs i hi)
  | parentReceived => exact fun i hi => ((untouched_touch hen.1).kept h.layout hi).holds (hs i hi)
  | added hx hbrings r =>
    refine r.holdsStored (hbrings.sound h).layout (fun i hi => ?_) fun hfull hfresh => ?_
    · rw [hbrings.num] at hi
      exact (hbrings.kept h hi).holds (hs i hi)
    · rw [hbrings.num] at hfull
      exact hok.2 _ hx hfull hfresh
  | deleted hidx r => exact r.holdsStored hs hidx
  | flushed => exact fun i hi => absurd hi (Nat.not_lt_zero i)
  | cleared => exact fun i hi => absurd hi (Nat.not_lt_zero i)
  | associated _ s => exact s.holdsStored (h.layout.congr rfl rfl rfl rfl rfl) hs
  | disconnected => exact hs
  | processed _ r =>
    cases r with
    | idle => exact hs
    | adopted _ _ s =>
      refine s.holdsStored (h.layout.adoptEntry _) fun i hi => ?_
      rw [(a.adoptEntry_entry _ i).1, (a.adoptEntry_entry _ i).2]
      exact hs i hi
    | appended _ _ r => exact r.holdsStored hs
    | lastTaken _ hfull r =>
      refine r.holdsStored fun i hi => ?_
      exact (giveUpLast_kept hfull (by omega) (by omega)).1.holds (hs i (by omega))
    | lastLost _ hfull _ =>
      intro i hi
      have hi' : i < maxBssidList - 1 := hi
      exact (giveUpLast_kept hfull (by omega) (by omega)).1.holds (hs i (by omega))

theorem searchDuplicate_of_first (hidx : idx < a.numInScanTable) (hdup : Duplicate new (a.pscanTable idx))
    (hfirst : ∀ i < idx, ¬ Duplicate new (a.pscanTable i)) : a.searchDuplicate new = idx := by
  rcases a.searchDuplicate_cases new with ⟨-, hfresh⟩ | ⟨hlt, hdup', hfirst'⟩
  · exact absurd hdup (hfresh idx hidx)
  · rcases Nat.lt_trichotomy (a.searchDuplicate new) idx with hlt' | heq | hgt
    · exact absurd hdup' (hfirst _ hlt')
    · exact heq
    · exact absurd hdup (hfirst' _ hgt)

theorem searchDuplicate_of_fresh (hfresh : a.Fresh new) : a.searchDuplicate new = a.numInScanTable := by
  rcases a.searchDuplicate_cases new with ⟨heq, -⟩ | ⟨hlt, hdup, -⟩
  · exact heq
  · exact absurd hdup (hfresh _ hlt)

theorem Added.keepsOthers (r : Added a new tmpBuf b) (h : a.Layout) {i : ℕ} (hi : i < a.numInScanTable)
    (hne : min (a.searchDuplicate new) (maxBssidList - 1) ≠ i) :
    b.beaconOf (b.pscanTable i) = a.beaconOf (a.pscanTable i) := by
  have hnum := h.num_le
  cases r with
  | skipped => rfl
  | replaced hidx hdup hfirst r =>
    rw [searchDuplicate_of_first hidx hdup hfirst] at hne
    exact (r.resized.kept h hidx hi (by omega)).2
  | last hfull hfresh r =>
    rw [searchDuplicate_of_fresh hfresh] at hne
    have hmax : maxBssidList = 200 := rfl
    exact (r.resized.kept h (by omega) hi (by omega)).2
  | appended _ _ r => exact (r.kept i hi).2
  | dropped => rfl

/-- Every step that meets `Roomy` keeps the beacons of the entries it is not about. -/
theorem Stepped.keepsOthers {o : Op} (st : Stepped c a o b) (h : a.Sound) (hen : a.Enabled o) :
    a.KeepsOthers c b o := by
  cases st with
  | received => exact fun i hi _ => ((untouched_touch hen.1).kept h.layout hi).2
  | parentReceived => exact fun i hi _ => ((untouched_touch hen.1).kept h.layout hi).2
  | @added o x b hx hbrings r =>
    have hkeeps : ∀ i < a.numInScanTable, a.slotOf c o ≠ some i →
        b.beaconOf (b.pscanTable i) = a.beaconOf (a.pscanTable i) := by
      intro i hi hne
      rw [slotOf, hx] at hne
      rw [← (hbrings.kept h hi).2]
      refine r.keepsOthers (hbrings.sound h).layout (hbrings.num.symm ▸ hi) fun heq => hne ?_
      rw [← heq]
    cases o with
    | deleteEntry => cases hx
    | flush => trivial
    | clear => trivial
    | _ => exact hkeeps
  | deleted hidx r =>
    intro i hi hne
    rcases Nat.lt_or_gt_of_ne hne with hlt | hgt
    · rw [if_pos hlt]
      exact (r.before i hlt).2.2
    · have hkept := (r.behind (i - 1) (by omega) (by omega)).2
      rw [Nat.sub_add_cancel (by omega)] at hkept
      rw [if_neg (by omega)]
      exact hkept
  | flushed => trivial
  | cleared => trivial
  | associated _ s =>
    intro i hi _
    rw [s.table]
    exact s.beaconOf (h.layout.congr rfl rfl rfl rfl rfl) hi
  | disconnected => exact fun _ _ _ => rfl
  | processed _ r =>
    intro i hi hne
    cases r with
    | idle => rfl
    | adopted _ _ s =>
      rw [s.table, s.beaconOf (h.layout.adoptEntry _) hi]
      exact (a.adoptEntry_entry _ i).2
    | appended _ _ r => exact (r.kept i hi).2
    | lastTaken happ hfull r =>
      have hslot : i ≠ maxBssidList - 1 := by
        rintro rfl
        refine hne ((if_pos happ).trans ?_)
        rw [hfull]
        rfl
      obtain ⟨hkept, hlt⟩ := giveUpLast_kept hfull hi hslot
      exact (r.kept i hlt).2.trans hkept.2
    | lastLost happ hfull _ =>
      have hslot : i ≠ maxBssidList - 1 := by
        rintro rfl
        refine hne ((if_pos happ).trans ?_)
        rw [hfull]
        rfl
      exact (giveUpLast_kept hfull hi hslot).1.2

/-! ## Sample results -/

/-- A response of the network `x`, with `k` elements of `n` octets that are not looked at. -/
def responseOf (x : UInt8) (k n : ℕ) : Response where
  src := 1
  octets := [UInt8.ofNat (19 + k * (n + 2)), UInt8.ofNat ((19 + k * (n + 2)) / 256), x, 0, 0, 0, 0, 0, 0] ++
    List.replicate 12 (UInt8.ofNat n) ++ (List.replicate k (5 :: UInt8.ofNat n :: List.replicate n 0)).flatten
  extScan := false
  rssi := 0
  channel := 1
  blacklisted := false
  ageInSecs := 0

/-- The descriptor of such a response. -/
def descriptorOf (x : UInt8) (size : ℕ) : BSSDescriptor :=
  { BSSDescriptor.zero with
    macAddress := [x, 0, 0, 0, 0, 0]
    channel := 1
    pbeaconBuf := 10
    beaconBufSize := size }

theorem descriptor_small (m : Mem) (x : UInt8) :
    (responseOf x 1 0).descriptor false (m.write 1 (responseOf x 1 0).octets) = some (descriptorOf x 14) :=
  rfl

set_option maxRecDepth 4000 in
theorem descriptor_large (m : Mem) (x : UInt8) :
    (responseOf x 1 102).descriptor false (m.write 1 (responseOf x 1 102).octets) = some (descriptorOf x 116) :=
  rfl

/-- An adapter as it comes up. -/
def started : Adapter where
  mem _ := 0
  pscanTable _ := .zero
  numInScanTable := 0
  bcnBuf := 10000
  bcnBufSize := defaultScanBeaconBuffer
  pbcnBufEnd := 10000
  mediaConnected := false
  currBss := .zero
  pcurrBcnBuf := 0
  currBcnSize := 0

theorem started_init : started.Init ⟨false, false⟩ :=
  ⟨rfl, rfl, by decide, rfl, rfl, rfl, rfl, rfl, rfl⟩

/-- A response whose beacon is larger than what a buffer grows by : the walk over the elements ends at the first. -/
def hugeResponse : Response where
  src := 1
  octets := [UInt8.ofNat 9007, UInt8.ofNat (9007 / 256)] ++ List.replicate 19 0 ++ [221, 16] ++ oweOui ++
    List.replicate 8982 0
  extScan := false
  rssi := 0
  channel := 1
  blacklisted := false
  ageInSecs := 0

/-! ## Runs -/

/-- The beacon store keeps its representation along every run whose steps meet `StoresWell`, and no step changes the
octets of an entry that it is not about. -/
theorem stored_beacons (h : (system c).ReachableWhen (fun a o => a.StoresWell c o) a) :
    a.Stores ∧ ∀ o b, a.StoresWell c o → (system c).step a o = some b → a.KeepsOthers c b o := by
  have hsound := sound_of_reachableWhen (fun _ _ hc => hc.1) h
  refine ⟨hsound.layout.stores ?_, fun o b hc hstep => ?_⟩
  · have hboth : a.Sound ∧ a.HoldsStored := by
      refine h.invariant (I := fun a => a.Sound ∧ a.HoldsStored)
        (fun s hs => ⟨sound_of_init hs, fun i hi => ?_⟩) fun a o b hinv hc hstep => ?_
      · rw [hs.1] at hi
        exact absurd hi (Nat.not_lt_zero i)
      · obtain ⟨hen, rfl⟩ := System.of_guard hstep
        have st := hinv.1.stepped hen hc.1
        exact ⟨st.sound hinv.1, st.holdsStored hinv.1 hc hinv.2 hen⟩
    exact hboth.2
  · obtain ⟨hen, rfl⟩ := System.of_guard hstep
    exact (hsound.stepped hen hc.1).keepsOthers hsound hen

/-- A run with two networks, the second of which is stored again. -/
theorem stored_beacons_two_networks : ∃ a : Adapter, a.numInScanTable = 2 ∧
    (a.Stores ∧ ∀ o b, a.StoresWell ⟨false, false⟩ o → (system ⟨false, false⟩).step a o = some b →
      a.KeepsOthers ⟨false, false⟩ b o) := by
  obtain ⟨a, ha, hp⟩ := System.exists_reachableWhen_of_runWhen (M := system ⟨false, false⟩)
    (C := fun a o => a.StoresWell ⟨false, false⟩ o) (P := fun a => decide (a.numInScanTable = 2))
    (l := [.result (responseOf 0 1 0) 0, .result (responseOf 1 1 0) 0, .result (responseOf 1 1 102) 0])
    (s := started) (.init started_init) (by decide +kernel)
  exact ⟨a, of_decide_eq_true hp, stored_beacons ha⟩

/-! ## Runs that misplace a beacon -/

/-- The table after `n` small results of different networks. -/
structure Filled (a : Adapter) (n : ℕ) : Prop where
  reachable : (system ⟨false, false⟩).Reachable a
  layout : a.Layout
  num : a.numInScanTable = n
  bcnBuf : a.bcnBuf = 10000
  bcnBufSize : a.bcnBufSize = 4096
  pbcnBufEnd : a.pbcnBufEnd = 10000 + 20 * n
  pcurrBcnBuf : a.pcurrBcnBuf = 0
  macAddress : ∀ i < n, (a.pscanTable i).macAddress = [UInt8.ofNat i, 0, 0, 0, 0, 0]
  beaconBufSize : ∀ i < n, (a.pscanTable i).beaconBufSize = 14
  beaconBufSizeMax : ∀ i < n, (a.pscanTable i).beaconBufSizeMax = 20

@[simp] theorem length_responseOf (x : UInt8) (k n : ℕ) : (responseOf x k n).octets.length = 21 + k * (n + 2) := by
  have hflat : (List.replicate k ((5 : UInt8) :: UInt8.ofNat n :: List.replicate n 0)).flatten.length =
      k * (n + 2) := by
    simp only [length_flatten, map_replicate, sum_replicate, length_cons, length_replicate]
    rfl
  rw [responseOf]
  simp only [length_append, length_cons, length_nil, length_replicate, hflat]

theorem Filled.enabled {n k s : ℕ} (f : Filled a n) (x : UInt8) (hlen : (responseOf x k s).octets.length ≤ 9000) :
    a.Enabled (.result (responseOf x k s) 0) := by
  refine ⟨⟨Nat.one_pos, ?_, fun hne => absurd f.pcurrBcnBuf hne⟩, .inl rfl, .inl rfl⟩
  have hsrc : (responseOf x k s).src = 1 := rfl
  rw [f.bcnBuf, f.bcnBufSize, hsrc]
  exact .inl (by omega)

theorem Filled.fresh {n size : ℕ} (f : Filled a n) (hn : n ≤ maxBssidList) (m : Mem) :
    Fresh { a with mem := m } (descriptorOf (UInt8.ofNat n) size) := by
  intro i hi hdup
  have hi' : i < n := f.num ▸ hi
  have hmac := hdup.1.trans (f.macAddress i hi')
  have hx : UInt8.ofNat n = UInt8.ofNat i := head_eq_of_cons_eq hmac
  have hmax : maxBssidList = 200 := rfl
  have hnat := congrArg UInt8.toNat hx
  rw [UInt8.toNat_ofNat', UInt8.toNat_ofNat', Nat.mod_eq_of_lt (by omega), Nat.mod_eq_of_lt (by omega)] at hnat
  omega

/-- The beacon of a sample response comes in memory that is not in use. -/
theorem outside_of_enabled {x : UInt8} {k n size : ℕ} (hen : a.Enabled (.result (responseOf x k n) 0))
    (hsize : size ≤ 12 + k * (n + 2)) : (a.receive (responseOf x k n)).Outside (descriptorOf x size) := by
  refine hen.1.2.1.part ?_ ?_
  · show 1 ≤ 10
    omega
  · rw [length_responseOf]
    show 10 + size ≤ 1 + _
    omega

/-- A response of a new network is stored behind the others, or in the last slot of a full table. -/
theorem Filled.apply_result {n size s : ℕ} (f : Filled a n) (hn : n ≤ maxBssidList)
    (hdesc : ∀ m : Mem, (responseOf (UInt8.ofNat n) 1 s).descriptor false
      (m.write 1 (responseOf (UInt8.ofNat n) 1 s).octets) = some (descriptorOf (UInt8.ofNat n) size)) :
    a.apply ⟨false, false⟩ (.result (responseOf (UInt8.ofNat n) 1 s) 0) =
      if n = maxBssidList then
        (a.receive (responseOf (UInt8.ofNat n) 1 s)).storeEntry (n - 1) n (descriptorOf (UInt8.ofNat n) size) 0
      else
        (a.receive (responseOf (UInt8.ofNat n) 1 s)).storeEntry n (n + 1) (descriptorOf (UInt8.ofNat n) size) 0 := by
  have hnum : (a.receive (responseOf (UInt8.ofNat n) 1 s)).numInScanTable = n := f.num
  have hsearch : (a.receive (responseOf (UInt8.ofNat n) 1 s)).searchDuplicate (descriptorOf (UInt8.ofNat n) size) =
      n :=
    (searchDuplicate_of_fresh (f.fresh hn _)).trans f.num
  show scanResult ⟨false, false⟩ a (responseOf (UInt8.ofNat n) 1 s) 0 = _
  have hmem : (responseOf (UInt8.ofNat n) 1 s).descriptor false (a.receive (responseOf (UInt8.ofNat n) 1 s)).mem =
      some (descriptorOf (UInt8.ofNat n) size) := hdesc a.mem
  rw [scanResult]
  rw [hmem]
  show addNewEntryToScanTable _ _ _ = _
  rw [addNewEntryToScanTable, hsearch, hnum, if_pos rfl]

/-- Every further small network is appended. -/
theorem Filled.succ {n : ℕ} (f : Filled a n) (hn : n < maxBssidList) : ∃ b, Filled b (n + 1) := by
  have hmax : maxBssidList = 200 := rfl
  have hpad : scanBeaconEntryPad = 6 := rfl
  have hen : a.Enabled (.result (responseOf (UInt8.ofNat n) 1 0) 0) := f.enabled _ (by rw [length_responseOf]; omega)
  have hlayout : (a.receive (responseOf (UInt8.ofNat n) 1 0)).Layout := f.layout.congr rfl rfl rfl rfl rfl
  have hno : ¬ (a.receive (responseOf (UInt8.ofNat n) 1 0)).Enlarged (descriptorOf (UInt8.ofNat n) 14) 0 :=
    fun h => h.2 rfl
  have hout : (a.receive (responseOf (UInt8.ofNat n) 1 0)).Outside (descriptorOf (UInt8.ofNat n) 14) :=
    outside_of_enabled hen (by decide)
  have hroom : (a.receive (responseOf (UInt8.ofNat n) 1 0)).AppendFits (descriptorOf (UInt8.ofNat n) 14) 0 := by
    rw [AppendFits, if_neg hno]
    show a.pbcnBufEnd + 14 + scanBeaconEntryPad < a.bcnBuf + a.bcnBufSize + 0
    rw [f.pbcnBufEnd, f.bcnBuf, f.bcnBufSize]
    omega
  have happ := hlayout.appended f.num hn hout (.inl rfl) hroom
  have hend := hlayout.pbcnBufEnd_append f.num hno hroom
  have happly := f.apply_result hn.le fun m => descriptor_small m _
  rw [if_neg hn.ne] at happly
  rw [← happly] at happ hend
  obtain ⟨p, -, hentry⟩ := happ.entry
  have hbuf : (a.apply ⟨false, false⟩ (.result (responseOf (UInt8.ofNat n) 1 0) 0)).bcnBuf = a.bcnBuf ∧
      (a.apply ⟨false, false⟩ (.result (responseOf (UInt8.ofNat n) 1 0) 0)).bcnBufSize = a.bcnBufSize :=
    happ.buffer.resolve_right fun h => h.1 rfl
  have hold : ∀ i < n, Moved allKinds (a.pscanTable i)
      ((a.apply ⟨false, false⟩ (.result (responseOf (UInt8.ofNat n) 1 0) 0)).pscanTable i) :=
    fun i hi => (happ.kept i hi).1
  refine ⟨_, f.reachable.step trivial (step_of_enabled hen), happ.layout, happ.num, hbuf.1.trans f.bcnBuf,
    hbuf.2.trans f.bcnBufSize, ?_, happ.rest.pcurrBcnBuf.trans f.pcurrBcnBuf, fun i hi => ?_, fun i hi => ?_,
    fun i hi => ?_⟩
  · rw [hend]
    show a.pbcnBufEnd + (14 + 6) = _
    rw [f.pbcnBufEnd]
    omega
  · rcases Nat.lt_succ_iff_lt_or_eq.mp hi with hlt | rfl
    · rw [(hold i hlt).macAddress, f.macAddress i hlt]
    · rw [hentry]
      rfl
  · rcases Nat.lt_succ_iff_lt_or_eq.mp hi with hlt | rfl
    · rw [(hold i hlt).beaconBufSize, f.beaconBufSize i hlt]
    · rw [hentry]
      rfl
  · rcases Nat.lt_succ_iff_lt_or_eq.mp hi with hlt | rfl
    · rw [(hold i hlt).beaconBufSizeMax, f.beaconBufSizeMax i hlt]
    · rw [hentry]
      rfl

/-- A table can be filled with small networks. -/
theorem exists_filled : ∀ {n : ℕ}, n ≤ maxBssidList → ∃ a, Filled a n
  | 0, _ => ⟨started, .init started_init, (sound_of_init started_init).layout, rfl, rfl, rfl, rfl, rfl,
      fun _ hi => absurd hi (Nat.not_lt_zero _), fun _ hi => absurd hi (Nat.not_lt_zero _),
      fun _ hi => absurd hi (Nat.not_lt_zero _)⟩
  | n + 1, hn => by
    obtain ⟨a, f⟩ := exists_filled (Nat.le_of_succ_le hn)
    exact f.succ hn

/-- Both kinds of steps go wrong : a large beacon for the last slot of a full table, and one that an enlarged buffer has
no room for. -/
theorem beacon_misplaced :
    (∃ a, (system ⟨false, false⟩).Reachable a ∧ a.numInScanTable = maxBssidList ∧
      (a.pscanTable (maxBssidList - 1)).macAddress = [200, 0, 0, 0, 0, 0] ∧
      (a.pscanTable (maxBssidList - 1)).beaconBufSize = 14 ∧ ¬ a.Stores) ∧
    ∃ a, (system ⟨true, false⟩).Reachable a ∧ ¬ a.Stores := by
  have hmax : maxBssidList = 200 := rfl
  constructor
  · obtain ⟨a, f⟩ := exists_filled (n := maxBssidList) le_rfl
    have hen : a.Enabled (.result (responseOf (UInt8.ofNat maxBssidList) 1 102) 0) :=
      f.enabled _ (by rw [length_responseOf]; omega)
    have hlayout : (a.receive (responseOf (UInt8.ofNat maxBssidList) 1 102)).Layout :=
      f.layout.congr rfl rfl rfl rfl rfl
    have hlast : maxBssidList - 1 < a.numInScanTable := by
      rw [f.num]
      decide
    have hout : (a.receive (responseOf (UInt8.ofNat maxBssidList) 1 102)).Outside
        (descriptorOf (UInt8.ofNat maxBssidList) 116) := outside_of_enabled hen (by decide)
    have hno : ¬ (a.receive (responseOf (UInt8.ofNat maxBssidList) 1 102)).ReplaceFits (maxBssidList - 1)
        (descriptorOf (UInt8.ofNat maxBssidList) 116) := by
      show ¬ (116 = (a.pscanTable (maxBssidList - 1)).beaconBufSize ∨
        116 ≤ (a.pscanTable (maxBssidList - 1)).beaconBufSizeMax ∨
        a.pbcnBufEnd + (116 - (a.pscanTable (maxBssidList - 1)).beaconBufSizeMax) < a.bcnBuf + a.bcnBufSize)
      rw [f.beaconBufSize _ (by decide), f.beaconBufSizeMax _ (by decide), f.pbcnBufEnd, f.bcnBuf, f.bcnBufSize]
      omega
    obtain ⟨ℓ, hr⟩ : ∃ ℓ, Replaced _ (storeEntry _ (maxBssidList - 1) _ _ 0) (maxBssidList - 1) _ ℓ :=
      hlayout.replaced hlast hout
    have happly := f.apply_result le_rfl fun m => descriptor_large m _
    rw [if_pos rfl] at happly
    have hnum : (a.receive (responseOf (UInt8.ofNat maxBssidList) 1 102)).numInScanTable = maxBssidList := f.num
    rw [hnum, ← happly] at hr
    have hentry := (hr.fails hno).1
    refine ⟨_, f.reachable.step trivial (step_of_enabled hen), hr.resized.num.trans f.num, ?_, ?_, fun hs => ?_⟩
    · rw [hentry]
      rfl
    · rw [hentry]
      exact f.beaconBufSize _ (by decide)
    · have hstored := hs.holds (maxBssidList - 1) (by rw [hr.resized.num]; exact hlast)
      rw [hentry] at hstored
      have hdup : ¬ Duplicate (descriptorOf (UInt8.ofNat maxBssidList) 116) (a.pscanTable (maxBssidList - 1)) := by
        rintro ⟨hmac, -⟩
        rw [f.macAddress _ (by decide)] at hmac
        exact absurd hmac (by decide)
      have hnone : (keepOldBeacon (a.pscanTable (maxBssidList - 1))
          (descriptorOf (UInt8.ofNat maxBssidList) 116)).stored = none := if_neg hdup
      exact Option.some_ne_none _ (hstored.symm.trans hnone)
  · obtain ⟨a, ha, hp⟩ := System.exists_reachable_of_run (M := system ⟨true, false⟩) (s := started)
      (P := fun a => decide (0 < a.numInScanTable ∧ a.bcnBuf + a.bcnBufSize < (a.pscanTable 0).pbeaconBuf))
      (l := [.result hugeResponse 50000, .result (responseOf 0 1 0) 0])
      ⟨rfl, rfl, by decide, rfl, rfl, rfl, rfl, rfl, rfl⟩ (by decide +kernel)
    obtain ⟨hnum, hpast⟩ := of_decide_eq_true hp
    refine ⟨a, ha, fun hs => ?_⟩
    have hinside := hs.inside 0 hnum
    have := hs.end_le
    omega

end WlanDriver.Scan.Adapter
