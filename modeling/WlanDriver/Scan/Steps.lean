import WlanDriver.Scan.BeaconStore

/-!
# Steps of the scan table

Each step is taken apart into what it does to memory that is not in use (`Brings`), to the table (`Added`, `Deleted`,
`Appended`) and to the current network (`Saves`, `Processed`); `Sound.stepped` says that there is nothing else, as long
as no enlargement of the buffer leaves the beacon it is made for without room (`Roomy`). Under that condition `Sound`
holds along every run : the buffer has its layout, and the saved beacon of the current network lies apart from it.
-/

namespace WlanDriver.Scan

open Function

/-! ## Descriptors of results -/

section Descriptor

variable {owe ext : Bool} {m : Mem} {buf : ℕ} {e e' : BSSDescriptor}

/-- What the walk over the elements leaves alone. -/
structure SameBeacon (e e' : BSSDescriptor) : Prop where
  pbeaconBuf : e'.pbeaconBuf = e.pbeaconBuf
  beaconBufSize : e'.beaconBufSize = e.beaconBufSize

theorem SameBeacon.trans {e'' : BSSDescriptor} (h : SameBeacon e e') (h' : SameBeacon e' e'') : SameBeacon e e'' :=
  ⟨h'.pbeaconBuf.trans h.pbeaconBuf, h'.beaconBufSize.trans h.beaconBufSize⟩

theorem sameBeacon_noteIe (m : Mem) (buf p : ℕ) (e : BSSDescriptor) : SameBeacon e (noteIe m buf p e) := by
  rw [noteIe]
  split <;> exact ⟨rfl, rfl⟩

theorem sameBeacon_interpretIe {p : ℕ} (h : interpretIe m buf p e = some e') : SameBeacon e e' := by
  rw [interpretIe] at h
  split_ifs at h
  all_goals try
    obtain rfl := Option.some.inj h
    exact ⟨rfl, rfl⟩
  obtain rfl := Option.some.inj h
  exact sameBeacon_noteIe m buf p e

theorem sameBeacon_interpretIes : ∀ {fuel p left : ℕ} {e : BSSDescriptor},
    interpretIes owe m buf fuel p left e = some e' → SameBeacon e e'
  | 0, _, _, e, h => by
    obtain rfl := Option.some.inj h
    exact ⟨rfl, rfl⟩
  | fuel + 1, p, left, e, h => by
    rw [interpretIes] at h
    split_ifs at h
    · obtain rfl := Option.some.inj h
      exact ⟨rfl, rfl⟩
    · obtain rfl := Option.some.inj h
      exact ⟨rfl, rfl⟩
    · split at h
      · next hie => exact (sameBeacon_interpretIe hie).trans (sameBeacon_interpretIes h)
      · exact absurd h (by simp)

theorem sameBeacon_updateNonTxIes : ∀ (fuel p left : ℕ) (e : BSSDescriptor),
    SameBeacon e (updateNonTxIes owe m buf fuel p left e)
  | 0, _, _, _ => ⟨rfl, rfl⟩
  | fuel + 1, p, left, e => by
    rw [updateNonTxIes]
    split
    · exact ⟨rfl, rfl⟩
    · split
      · exact ⟨rfl, rfl⟩
      · refine SameBeacon.trans ?_ (sameBeacon_updateNonTxIes fuel _ _ _)
        split
        · exact ⟨rfl, rfl⟩
        · exact sameBeacon_noteIe m buf p e

/-- The beacon of a result lies in its octets. -/
theorem descriptor_inside {r : Response} (h : r.descriptor owe m = some e) :
    r.src ≤ e.pbeaconBuf ∧ e.pbeaconBuf + e.beaconBufSize ≤ r.src + r.octets.length := by
  obtain ⟨e₀, he₀, rfl⟩ := Option.map_eq_some_iff.mp h
  rw [interpretBssDescWithIe] at he₀
  dsimp only at he₀
  split at he₀
  · exact absurd he₀ (by simp)
  · next hlen =>
    have hsame := sameBeacon_interpretIes he₀
    have hmac : macAddrLength = 6 := rfl
    have hfix : beaconFixSize = 12 := rfl
    dsimp only
    rw [hsame.pbeaconBuf, hsame.beaconBufSize]
    dsimp only
    split <;> omega

end Descriptor

namespace Adapter

variable {c : Config} {a b : Adapter} {idx tmpBuf p : ℕ} {bs : List UInt8} {new : BSSDescriptor}

/-! ## Memory outside of the buffer -/

/-- What holds of the buffer, and of the saved beacon of the current network. -/
structure Sound (a : Adapter) : Prop where
  layout : a.Layout
  size_ne : a.pcurrBcnBuf ≠ 0 → a.currBcnSize ≠ 0
  saved : a.pcurrBcnBuf ≠ 0 →
    a.currBss.pbeaconBuf = a.pcurrBcnBuf ∧ a.currBss.beaconBufSize = a.currBcnSize
  apart : a.pcurrBcnBuf ≠ 0 → Apart a.pcurrBcnBuf a.currBcnSize a.bcnBuf a.bcnBufSize

/-- Octets are written that are not in use. -/
def touch (a : Adapter) (p : ℕ) (bs : List UInt8) : Adapter :=
  { a with mem := a.mem.write p bs }

theorem Sound.touch (h : a.Sound) (p : ℕ) (bs : List UInt8) : (a.touch p bs).Sound :=
  ⟨h.layout.congr rfl rfl rfl rfl rfl, h.size_ne, h.saved, h.apart⟩

theorem Free.outside {n : ℕ} (hfree : a.Free p n) {e : BSSDescriptor} (hlow : p ≤ e.pbeaconBuf)
    (hhigh : e.pbeaconBuf + e.beaconBufSize ≤ p + n) : a.Outside e :=
  hfree.2.1.part hlow hhigh

theorem TmpApart.part {n p' n' : ℕ} (h : a.TmpApart tmpBuf p n) (hp : p ≤ p') (hn : p' + n' ≤ p + n) :
    a.TmpApart tmpBuf p' n' :=
  h.imp_right fun hap => (hap.symm.part hp hn).symm

/-! ## The current network -/

/-- What saving the beacon of the current network comes to. -/
structure Saves (a b : Adapter) : Prop where
  table : b.pscanTable = a.pscanTable
  num : b.numInScanTable = a.numInScanTable
  bcnBuf : b.bcnBuf = a.bcnBuf
  bcnBufSize : b.bcnBufSize = a.bcnBufSize
  pbcnBufEnd : b.pbcnBufEnd = a.pbcnBufEnd
  mediaConnected : b.mediaConnected = a.mediaConnected
  mem : ∀ p k, a.bcnBuf ≤ p → p + k ≤ a.bcnBuf + a.bcnBufSize → b.mem.read p k = a.mem.read p k
  apart : b.pcurrBcnBuf ≠ 0 → Apart b.pcurrBcnBuf b.currBcnSize a.bcnBuf a.bcnBufSize
  curr : (b.pcurrBcnBuf = 0 ∧ b.currBss = a.currBss) ∨
    (b.pcurrBcnBuf ≠ 0 ∧ a.currBss.beaconBufSize ≠ 0 ∧ b.currBcnSize = a.currBss.beaconBufSize ∧
      b.currBss = { a.currBss with
        pbeaconBuf := b.pcurrBcnBuf
        beaconBufSizeMax := a.currBss.beaconBufSize }.rebase IeKind.movedByUpdateCurrBcn ∧
      b.beaconOf b.currBss = a.beaconOf a.currBss)

theorem updateCurrBcn_of_ne (hbuf : a.pcurrBcnBuf ≠ 0) (hsize : a.currBcnSize ≠ 0) :
    a.updateCurrBcn = { a with
      currBss := ({ a.currBss with
        pbeaconBuf := a.pcurrBcnBuf
        beaconBufSize := a.currBcnSize
        beaconBufSizeMax := a.currBcnSize }).rebase IeKind.movedByUpdateCurrBcn } :=
  if_pos ⟨hbuf, hsize⟩

theorem updateCurrBcn_of_eq (hbuf : a.pcurrBcnBuf = 0) : a.updateCurrBcn = a :=
  if_neg fun h => h.1 hbuf

/-- `wlan_save_curr_bcn`. -/
theorem saves (hold : a.pcurrBcnBuf ≠ 0 → a.currBcnSize ≠ 0)
    (hapart : a.pcurrBcnBuf ≠ 0 → Apart a.pcurrBcnBuf a.currBcnSize a.bcnBuf a.bcnBufSize) {buf : ℕ}
    (hbuf : a.BufFree buf a.currBss.beaconBufSize) : Saves a (a.saveCurrBcn buf) := by
  rw [saveCurrBcn]
  dsimp only
  split
  · split
    · next halloc =>
      obtain ⟨hsize, hne⟩ := halloc
      rw [updateCurrBcn_of_ne hne hsize]
      have hfree := hbuf.resolve_left hne
      exact {
        table := rfl
        num := rfl
        bcnBuf := rfl
        bcnBufSize := rfl
        pbcnBufEnd := rfl
        mediaConnected := rfl
        mem := fun p k hlow hhigh => Mem.read_memmove_of_apart (hfree.symm.part hlow hhigh)
        apart := fun _ => hfree
        curr := .inr ⟨hne, hsize, rfl, rfl, by
          have hcopy : (a.mem.memmove buf a.currBss.pbeaconBuf a.currBss.beaconBufSize).read (buf + 0)
              a.currBss.beaconBufSize = a.mem.read (a.currBss.pbeaconBuf + 0) a.currBss.beaconBufSize :=
            Mem.read_memmove (by omega)
          exact hcopy⟩ }
    · rw [updateCurrBcn_of_eq rfl]
      exact ⟨rfl, rfl, rfl, rfl, rfl, rfl, fun _ _ _ _ => rfl, fun hne => absurd rfl hne, .inl ⟨rfl, rfl⟩⟩
  · next hsame =>
    -- the saved beacon is the one of the descriptor already
    obtain ⟨hne, hsize, hbytes⟩ : a.pcurrBcnBuf ≠ 0 ∧ a.currBcnSize = a.currBss.beaconBufSize ∧
        a.mem.read a.pcurrBcnBuf a.currBss.beaconBufSize =
          a.mem.read a.currBss.pbeaconBuf a.currBss.beaconBufSize := by
      refine ⟨fun h0 => hsame (.inl h0), ?_, ?_⟩
      · by_contra hno
        exact hsame (.inr (.inl hno))
      · by_contra hno
        exact hsame (.inr (.inr hno))
    rw [updateCurrBcn_of_ne hne (hold hne)]
    refine ⟨rfl, rfl, rfl, rfl, rfl, rfl, fun _ _ _ _ => rfl, fun _ => hapart hne,
      .inr ⟨hne, hsize ▸ hold hne, hsize, ?_, ?_⟩⟩
    · rw [hsize]
    · rw [hsize]
      exact hbytes

theorem Saves.layout (s : Saves a b) (h : a.Layout) : b.Layout :=
  h.congr s.table s.num s.bcnBuf s.bcnBufSize s.pbcnBufEnd

/-- The beacons of the table do not change. -/
theorem Saves.beaconOf (s : Saves a b) (h : a.Layout) {i : ℕ} (hi : i < a.numInScanTable) :
    b.beaconOf (a.pscanTable i) = a.beaconOf (a.pscanTable i) := by
  have hlow := h.packed.low i hi
  have hhigh := h.packed.high i hi
  have hsize := h.size_le i hi
  have hend := h.end_le
  exact s.mem _ _ hlow (by omega)

theorem Saves.sound (s : Saves a b) (h : a.Layout) : b.Sound := by
  refine ⟨s.layout h, fun hne => ?_, fun hne => ?_, fun hne => ?_⟩
  · rcases s.curr with ⟨h0, -⟩ | ⟨-, hsize, heq, -⟩
    · exact absurd h0 hne
    · rwa [heq]
  · rcases s.curr with ⟨h0, -⟩ | ⟨-, hsize, heq, hcurr, -⟩
    · exact absurd h0 hne
    · rw [hcurr, heq]
      exact ⟨rfl, rfl⟩
  · rw [s.bcnBuf, s.bcnBufSize]
    exact s.apart hne

/-- The last slot of a full table is given up for the current network. -/
def giveUpLast (a : Adapter) : Adapter :=
  { a.emptySlot (maxBssidList - 1) with numInScanTable := maxBssidList - 1 }

/-- A slot without a beacon stays as it is. -/
theorem emptySlot_of_eq {i : ℕ} (h : (a.pscanTable i).pbeaconBuf = 0) : a.emptySlot i = a := by
  rw [emptySlot, BSSDescriptor.without_beacon h, update_eq_self]

theorem Layout.giveUpLast (h : a.Layout) (hfull : a.numInScanTable = maxBssidList) : a.giveUpLast.Layout := by
  have hmax : maxBssidList = 200 := rfl
  have hold : ∀ j < maxBssidList - 1, a.giveUpLast.pscanTable j = a.pscanTable j :=
    fun j hj => update_of_ne (by omega) _ _
  have hpacked : Packed (fun i => (a.pscanTable i).pbeaconBuf) (fun i => (a.pscanTable i).beaconBufSizeMax)
      (maxBssidList - 1 + 1) a.bcnBuf a.pbcnBufEnd := by
    rw [show maxBssidList - 1 + 1 = a.numInScanTable by omega]
    exact h.packed
  refine ⟨Nat.sub_le _ _, h.bcnBuf_pos, h.size_lt, h.end_le,
    hpacked.init.congr (fun j hj => by rw [hold j hj]) fun j hj => by rw [hold j hj], fun j hj => ?_, fun j hj => ?_⟩
  · have hj' : j < maxBssidList - 1 := hj
    rw [hold j hj']
    exact h.size_le j (by omega)
  · have hj' : maxBssidList - 1 ≤ j := hj
    show (update a.pscanTable (maxBssidList - 1) _ j).pbeaconBuf = 0
    by_cases hlast : j = maxBssidList - 1
    · rw [hlast, update_self]
    · rw [update_of_ne hlast]
      exact h.free j (by omega)

theorem scanStoreBeacon_num (a : Adapter) (k idx n : ℕ) (new : BSSDescriptor) (tmpBuf : ℕ) :
    ({ a with numInScanTable := k } : Adapter).scanStoreBeacon idx n new tmpBuf =
      ({ (a.scanStoreBeacon idx n new tmpBuf).1 with numInScanTable := k },
        (a.scanStoreBeacon idx n new tmpBuf).2) := by
  unfold scanStoreBeacon
  by_cases h : (a.pscanTable idx).pbeaconBuf ≠ 0
  · rw [if_pos h, if_pos (by exact h)]
    unfold replaceBeacon
    dsimp only
    split_ifs <;> rfl
  · rw [if_neg h, if_neg (by exact h)]
    have hlarger : (if ({ a with numInScanTable := k } : Adapter).WantsEnlargement new ∧ tmpBuf ≠ 0 then
          ({ a with numInScanTable := k } : Adapter).enlarge n tmpBuf
        else { a with numInScanTable := k }) =
        { (if a.WantsEnlargement new ∧ tmpBuf ≠ 0 then a.enlarge n tmpBuf else a) with numInScanTable := k } := by
      by_cases hl : a.WantsEnlargement new ∧ tmpBuf ≠ 0
      · rw [if_pos hl, if_pos (by exact hl)]
        rfl
      · rw [if_neg hl, if_neg (by exact hl)]
    unfold appendBeacon
    rw [hlarger]
    dsimp only
    split_ifs <;> rfl

theorem storeEntry_num (a : Adapter) (k idx n : ℕ) (new : BSSDescriptor) (tmpBuf : ℕ) :
    storeEntry { a with numInScanTable := k } idx n new tmpBuf = a.storeEntry idx n new tmpBuf := by
  unfold storeEntry
  rw [scanStoreBeacon_num]

/-- The current network is not found in the table and is appended to it. -/
def Appends (a : Adapter) (compatible : ℕ → Bool) (newEntry : Bool) : Prop :=
  a.mediaConnected ∧ a.findBssidInList compatible a.currBss.macAddress = none ∧ a.pcurrBcnBuf ≠ 0 ∧
    a.currBcnSize ≠ 0 ∧ newEntry

instance decidableAppends (a : Adapter) (compatible : ℕ → Bool) (newEntry : Bool) :
    Decidable (a.Appends compatible newEntry) :=
  inferInstanceAs (Decidable (_ ∧ _ ∧ _ ∧ _ ∧ _))

/-- What processing the results comes to. -/
inductive Processed (a : Adapter) (compatible : ℕ → Bool) (newEntry : Bool) (tmpBuf : ℕ) : Adapter → Prop
  | idle : Processed a compatible newEntry tmpBuf a
  | adopted {b : Adapter} {j : ℕ} (hconn : a.mediaConnected)
      (hj : a.findBssidInList compatible a.currBss.macAddress = some j) (s : Saves (a.adoptEntry j) b) :
      Processed a compatible newEntry tmpBuf b
  | appended {b : Adapter} (happ : a.Appends compatible newEntry) (hlt : a.numInScanTable < maxBssidList)
      (r : Appended a b a.numInScanTable a.currBss tmpBuf) : Processed a compatible newEntry tmpBuf b
  | lastTaken {b : Adapter} (happ : a.Appends compatible newEntry) (hfull : a.numInScanTable = maxBssidList)
      (r : Appended a.giveUpLast b (maxBssidList - 1) a.currBss tmpBuf) : Processed a compatible newEntry tmpBuf b
  | lastLost (happ : a.Appends compatible newEntry) (hfull : a.numInScanTable = maxBssidList)
      (hno : ¬ a.AppendFits a.currBss tmpBuf) : Processed a compatible newEntry tmpBuf a.giveUpLast

/-- What is found is an entry. -/
theorem findBssidInList_spec {compatible : ℕ → Bool} {mac : List UInt8} {j : ℕ}
    (h : a.findBssidInList compatible mac = some j) :
    j < a.numInScanTable ∧ (a.pscanTable j).macAddress = mac := by
  have hmem := List.mem_of_find?_eq_some h
  have hp := List.find?_some h
  simp only [Bool.decide_and, Bool.and_eq_true, decide_eq_true_eq] at hp
  exact ⟨List.mem_range.mp hmem, hp.1⟩

/-- The layout does not look at SSIDs. -/
theorem Layout.adoptEntry (h : a.Layout) (j : ℕ) : (a.adoptEntry j).Layout := by
  have hstart : ∀ i, ((a.adoptEntry j).pscanTable i).pbeaconBuf = (a.pscanTable i).pbeaconBuf ∧
      ((a.adoptEntry j).pscanTable i).beaconBufSizeMax = (a.pscanTable i).beaconBufSizeMax ∧
      ((a.adoptEntry j).pscanTable i).beaconBufSize = (a.pscanTable i).beaconBufSize := by
    intro i
    show (update a.pscanTable j _ i).pbeaconBuf = _ ∧ (update a.pscanTable j _ i).beaconBufSizeMax = _ ∧
      (update a.pscanTable j _ i).beaconBufSize = _
    by_cases hij : i = j
    · subst hij
      rw [update_self]
      exact ⟨rfl, rfl, rfl⟩
    · rw [update_of_ne hij]
      exact ⟨rfl, rfl, rfl⟩
  refine ⟨h.num_le, h.bcnBuf_pos, h.size_lt, h.end_le,
    h.packed.congr (fun i _ => (hstart i).1) fun i _ => (hstart i).2.1, fun i hi => ?_, fun i hi => ?_⟩
  · rw [(hstart i).2.2, (hstart i).2.1]
    exact h.size_le i hi
  · rw [(hstart i).1]
    exact h.free i hi

/-- `wlan_scan_process_results`. -/
theorem Sound.processed (h : a.Sound) {compatible : ℕ → Bool} {newEntry : Bool} {buf : ℕ}
    (hbuf : ∀ j ∈ a.findBssidInList compatible a.currBss.macAddress, a.BufFree buf (a.pscanTable j).beaconBufSize)
    (hfree : a.TmpFree tmpBuf) (hfits : a.Appends compatible newEntry → a.EnlargeFits a.currBss tmpBuf) :
    Processed a compatible newEntry tmpBuf (a.scanProcessResults compatible newEntry buf tmpBuf) := by
  rw [scanProcessResults]
  split
  · next hconn =>
    split
    · next j hj =>
      have hs : Saves (a.adoptEntry j) ((a.adoptEntry j).saveCurrBcn buf) :=
        saves (a := a.adoptEntry j) h.size_ne h.apart (hbuf j hj)
      exact .adopted hconn hj hs
    · next hnone =>
      split
      · next happ =>
        obtain ⟨hpcurr, hsize, hnew⟩ := happ
        have happ : a.Appends compatible newEntry := ⟨hconn, hnone, hpcurr, hsize, hnew⟩
        obtain ⟨hbuf', hsize'⟩ := h.saved hpcurr
        have hout : a.Outside a.currBss := by
          rw [Outside, hbuf', hsize']
          exact h.apart hpcurr
        have hnew : a.TmpApart tmpBuf a.currBss.pbeaconBuf a.currBss.beaconBufSize := by
          rw [hbuf', hsize']
          exact hfree.imp_right fun hf => hf.2.2 hpcurr
        rw [appendCurrBss]
        by_cases hlt : a.numInScanTable < maxBssidList
        · rw [if_pos hlt]
          rw [Nat.add_sub_cancel, emptySlot_of_eq (h.layout.free _ le_rfl)]
          by_cases hroom : a.AppendFits a.currBss tmpBuf
          · exact .appended happ hlt (h.layout.appended rfl hlt hout hnew hroom)
          · rw [h.layout.not_appended rfl (fun hen => hroom (hfits happ hen)) hroom]
            exact .idle
        · have hfull : a.numInScanTable = maxBssidList := by
            have := h.layout.num_le
            omega
          have hlast : (a.emptySlot (maxBssidList - 1)).storeEntry (maxBssidList - 1) maxBssidList a.currBss tmpBuf =
              a.giveUpLast.storeEntry (maxBssidList - 1) (maxBssidList - 1 + 1) a.currBss tmpBuf :=
            (storeEntry_num _ (maxBssidList - 1) _ _ _ _).symm
          have hlayout := h.layout.giveUpLast hfull
          rw [if_neg hlt]
          rw [hfull, hlast]
          by_cases hroom : a.AppendFits a.currBss tmpBuf
          · exact .lastTaken happ hfull (hlayout.appended rfl (by decide) hout hnew hroom)
          · have hno : ¬ a.giveUpLast.Enlarged a.currBss tmpBuf := fun hen => hroom (hfits happ hen)
            rw [hlayout.not_appended (show a.giveUpLast.numInScanTable = maxBssidList - 1 from rfl) hno hroom]
            exact .lastLost happ hfull hroom
      · exact .idle
  · exact .idle

/-! ## Steps -/

/-- The network that a step adds, with the adapter once its beacon is in memory. -/
def adds (c : Config) (a : Adapter) : Op → Option (Adapter × BSSDescriptor)
  | .result r _ =>
    if r.blacklisted then none
    else (r.descriptor c.embeddedOwe (a.receive r).mem).map fun e => (a.receive r, e)
  | .profile p _ =>
    match p.parent.descriptor c.embeddedOwe (a.receive p.parent).mem with
    | some e =>
      if p.parent.blacklisted ∨ e.beaconBufSize < beaconFixSize + p.octets.length then none
      else some ((a.receive p.parent).profileDescriptor c p e)
    | none => none
  | _ => none

/-- What the allocation of a larger buffer gives in a step. -/
def tmpBufOf : Op → ℕ
  | .result _ tmpBuf => tmpBuf
  | .profile _ tmpBuf => tmpBuf
  | .processResults _ _ _ tmpBuf => tmpBuf
  | _ => 0

/-- The step appends the current network. -/
def AppendsIn (a : Adapter) : Op → Prop
  | .processResults compatible newEntry _ _ => a.Appends compatible newEntry
  | _ => False

instance decidableAppendsIn (a : Adapter) (o) : Decidable (a.AppendsIn o) := by
  induction o using Op.casesOn <;> dsimp only [Adapter.AppendsIn] <;> infer_instance

/-- A beacon that is to be added behind the others has room in the buffer if that is enlarged for it. -/
def Roomy (c : Config) (a : Adapter) (o : Op) : Prop :=
  (∀ x ∈ a.adds c o, x.1.Fresh x.2 → a.numInScanTable < maxBssidList → x.1.EnlargeFits x.2 (tmpBufOf o)) ∧
    (a.AppendsIn o → a.EnlargeFits a.currBss (tmpBufOf o))
  deriving Decidable

/-- The memory in use is kept : the buffer and the saved beacon of the current network. -/
def Untouched (a : Adapter) (m : Mem) : Prop :=
  ∀ p k, (a.bcnBuf ≤ p ∧ p + k ≤ a.bcnBuf + a.bcnBufSize) ∨
    (a.pcurrBcnBuf ≠ 0 ∧ a.pcurrBcnBuf ≤ p ∧ p + k ≤ a.pcurrBcnBuf + a.currBcnSize) → m.read p k = a.mem.read p k

/-- What brings a network : its beacon in memory that is not in use. -/
structure Brings (a : Adapter) (o : Op) (x : Adapter × BSSDescriptor) : Prop where
  eq : x.1 = { a with mem := x.1.mem }
  untouched : a.Untouched x.1.mem
  outside : x.1.Outside x.2
  tmpApart : x.1.TmpApart (tmpBufOf o) x.2.pbeaconBuf x.2.beaconBufSize
  tmpFree : a.TmpFree (tmpBufOf o)

/-- What a step comes to. -/
inductive Stepped (c : Config) (a : Adapter) : Op → Adapter → Prop
  | received {r : Response} {tmpBuf : ℕ} (hnone : a.adds c (.result r tmpBuf) = none) :
      Stepped c a (.result r tmpBuf) (a.receive r)
  | parentReceived {p : Profile} {tmpBuf : ℕ} (hnone : a.adds c (.profile p tmpBuf) = none) :
      Stepped c a (.profile p tmpBuf) (a.receive p.parent)
  | added {o : Op} {x : Adapter × BSSDescriptor} {b : Adapter} (hx : a.adds c o = some x) (hbrings : Brings a o x)
      (r : Added x.1 x.2 (tmpBufOf o) b) : Stepped c a o b
  | deleted {idx : ℕ} {b : Adapter} (hidx : idx < a.numInScanTable) (r : Deleted a b idx) :
      Stepped c a (.deleteEntry idx) b
  | flushed : Stepped c a .flush a.flushScanTable
  | cleared : Stepped c a .clear a.clearScanTable
  | associated {idx buf : ℕ} {b : Adapter} (hidx : idx < a.numInScanTable)
      (s : Saves (a.attempt idx) b) : Stepped c a (.associate idx buf) b
  | disconnected : Stepped c a .disconnect { a with mediaConnected := false }
  | processed {compatible : ℕ → Bool} {newEntry : Bool} {buf tmpBuf : ℕ} {b : Adapter}
      (hfree : a.TmpFree tmpBuf) (r : Processed a compatible newEntry tmpBuf b) :
      Stepped c a (.processResults compatible newEntry buf tmpBuf) b

theorem untouched_touch (hfree : a.Free p bs.length) : a.Untouched (a.touch p bs).mem := by
  rintro q k (⟨hlow, hhigh⟩ | ⟨hne, hlow, hhigh⟩)
  · exact Mem.read_write_of_apart (hfree.2.1.symm.part hlow hhigh)
  · exact Mem.read_write_of_apart ((hfree.2.2 hne).symm.part hlow hhigh)

theorem Untouched.trans {m : Mem} (h : a.Untouched b.mem) (h' : b.Untouched m) (hb : b = { a with mem := b.mem }) :
    a.Untouched m := by
  intro q k hq
  rw [hb] at h'
  exact (h' q k hq).trans (h q k hq)

theorem brings_result {r : Response} (hfree : a.Free r.src r.octets.length) (htmp : a.TmpFree tmpBuf)
    (hapart : a.TmpApart tmpBuf r.src r.octets.length)
    (hdesc : r.descriptor c.embeddedOwe (a.receive r).mem = some new) :
    Brings a (.result r tmpBuf) (a.receive r, new) := by
  obtain ⟨hlow, hhigh⟩ := descriptor_inside hdesc
  exact ⟨rfl, untouched_touch hfree, hfree.outside hlow hhigh, TmpApart.part hapart hlow hhigh, htmp⟩

/-- The descriptor of a profile has its beacon where it was put together. -/
theorem profileDescriptor_beacon (a : Adapter) (c : Config) (pr : Profile) (e : BSSDescriptor) :
    (a.profileDescriptor c pr e).2.pbeaconBuf = pr.pbuf ∧
      (a.profileDescriptor c pr e).2.beaconBufSize = beaconFixSize + pr.octets.length := by
  have hsame : SameBeacon { e with
      macAddress := genMultiBssidByBssidIndex e.macAddress pr.bssidIndex pr.maxBssidIndicator
      pbeaconBuf := pr.pbuf
      beaconBufSize := beaconFixSize + pr.octets.length } (a.profileDescriptor c pr e).2 :=
    sameBeacon_updateNonTxIes _ _ _ _
  exact ⟨hsame.pbeaconBuf, hsame.beaconBufSize⟩

theorem brings_profile {pr : Profile} {e : BSSDescriptor} (hen : a.Enabled (.profile pr tmpBuf)) :
    Brings a (.profile pr tmpBuf) ((a.receive pr.parent).profileDescriptor c pr e) := by
  obtain ⟨hfree, hbuf, hapart, htmp, htmpApart⟩ := hen
  obtain ⟨hpb, hsize⟩ := profileDescriptor_beacon (a.receive pr.parent) c pr e
  have hlen : ((a.receive pr.parent).mem.read e.pbeaconBuf beaconFixSize ++ pr.octets).length =
      beaconFixSize + pr.octets.length := by
    rw [List.length_append, Mem.length_read]
  have hfree' : (a.receive pr.parent).Free pr.pbuf
      ((a.receive pr.parent).mem.read e.pbeaconBuf beaconFixSize ++ pr.octets).length := by
    rw [hlen]
    exact hbuf
  refine ⟨rfl, (untouched_touch hfree).trans (untouched_touch hfree') rfl, ?_, ?_, htmp⟩
  · rw [Outside, hpb, hsize]
    exact hbuf.2.1
  · rw [hpb, hsize]
    exact htmpApart

theorem Brings.sound {o : Op} {x : Adapter × BSSDescriptor} (hx : Brings a o x) (h : a.Sound) : x.1.Sound := by
  rw [hx.eq]
  exact ⟨h.layout.congr rfl rfl rfl rfl rfl, h.size_ne, h.saved, h.apart⟩

theorem Sound.stepped (h : a.Sound) {o : Op} (hen : a.Enabled o) (hroomy : a.Roomy c o) :
    Stepped c a o (a.apply c o) := by
  have hadd : ∀ x, a.adds c o = some x → Brings a o x →
      Stepped c a o (x.1.addNewEntryToScanTable x.2 (tmpBufOf o)) := by
    intro x hx hbrings
    refine .added hx hbrings ((hbrings.sound h).layout.added hbrings.outside hbrings.tmpApart fun hfresh hlt => ?_)
    refine hroomy.1 x hx hfresh ?_
    rw [hbrings.eq] at hlt
    exact hlt
  cases o with
  | result r tmpBuf =>
    show Stepped c a _ (a.scanResult c r tmpBuf)
    rw [scanResult]
    split
    · next e hdesc =>
      split
      · next hblack => exact .received (if_pos hblack)
      · next hblack =>
        refine hadd (a.receive r, e) ?_ (brings_result hen.1 hen.2.1 hen.2.2 hdesc)
        rw [adds, if_neg hblack, hdesc]
        rfl
    · next hdesc =>
      refine .received ?_
      rw [adds, hdesc]
      exact ite_self _
  | profile pr tmpBuf =>
    show Stepped c a _ (a.genNonTransBssidProfile c pr tmpBuf)
    rw [genNonTransBssidProfile]
    dsimp only
    split
    · next e hdesc =>
      split
      · next hskip =>
        refine .parentReceived ?_
        rw [adds, hdesc]
        exact if_pos hskip
      · next hskip =>
        refine hadd ((a.receive pr.parent).profileDescriptor c pr e) ?_ (brings_profile hen)
        rw [adds, hdesc]
        exact if_neg hskip
    · next hdesc =>
      refine .parentReceived ?_
      rw [adds, hdesc]
  | deleteEntry idx => exact .deleted hen (h.layout.deleted hen)
  | flush => exact .flushed
  | clear => exact .cleared
  | associate idx buf =>
    have hs : Saves (a.attempt idx) ((a.attempt idx).saveCurrBcn buf) :=
      saves (a := a.attempt idx) h.size_ne h.apart hen.2
    exact .associated hen.1 hs
  | disconnect => exact .disconnected
  | processResults compatible newEntry buf tmpBuf =>
    exact .processed hen.2 (h.processed hen.1 hen.2 hroomy.2)

/-! ## Soundness along runs -/

theorem sound_of_init (h : a.Init c) : a.Sound := by
  obtain ⟨hnum, htable, hpos, hsize, hend, -, -, hsaved, -⟩ := h
  refine ⟨⟨?_, hpos, ?_, ?_, ?_, fun i hi => ?_, fun i _ => ?_⟩, fun hne => absurd hsaved hne,
    fun hne => absurd hsaved hne, fun hne => absurd hsaved hne⟩
  · omega
  · rw [hsize]
    split <;> decide
  · omega
  · rw [hnum, hend]
    exact .nil _
  · omega
  · rw [htable]
    rfl

/-- The saved beacon stays apart from the buffer, also when that is a new one. -/
theorem Sound.of_rest (h : a.Sound) (hl : b.Layout) (rest : SameRest a b) (hbuf : BufferOf a b tmpBuf)
    (hfree : a.TmpFree tmpBuf) : b.Sound := by
  refine ⟨hl, fun hne => ?_, fun hne => ?_, fun hne => ?_⟩
  · rw [rest.currBcnSize]
    exact h.size_ne (rest.pcurrBcnBuf ▸ hne)
  · rw [rest.currBss, rest.pcurrBcnBuf, rest.currBcnSize]
    exact h.saved (rest.pcurrBcnBuf ▸ hne)
  · have hne' : a.pcurrBcnBuf ≠ 0 := rest.pcurrBcnBuf ▸ hne
    rw [rest.pcurrBcnBuf, rest.currBcnSize]
    rcases hbuf with ⟨hb, hs⟩ | ⟨htmp, hb, hs⟩
    · rw [hb, hs]
      exact h.apart hne'
    · rw [hb, hs]
      exact ((hfree.resolve_left htmp).2.2 hne').symm

theorem Replaced.sound {ℓ : ℕ} (r : Replaced a b idx new ℓ) (h : a.Sound) (hidx : idx < a.numInScanTable) : b.Sound :=
  h.of_rest (r.resized.layout h.layout hidx) r.rest (.inl ⟨r.resized.bcnBuf, r.resized.bcnBufSize⟩)
    (.inl (rfl : 0 = 0))

theorem Added.sound (r : Added a new tmpBuf b) (h : a.Sound) (hfree : a.TmpFree tmpBuf) : b.Sound := by
  cases r with
  | skipped => exact h
  | replaced hidx _ _ r => exact r.sound h hidx
  | last hfull _ r =>
    refine r.sound h ?_
    rw [hfull]
    decide
  | appended _ _ r => exact h.of_rest r.layout r.rest r.buffer hfree
  | dropped => exact h

theorem Sound.giveUpLast (h : a.Sound) (hfull : a.numInScanTable = maxBssidList) : a.giveUpLast.Sound :=
  ⟨h.layout.giveUpLast hfull, h.size_ne, h.saved, h.apart⟩

theorem layout_clear (h : a.Layout) : a.clearScanTable.Layout :=
  ⟨Nat.zero_le _, h.bcnBuf_pos, h.size_lt, Nat.le_add_right _ _, .nil _, fun _ hi => absurd hi (Nat.not_lt_zero _),
    fun _ _ => rfl⟩

theorem Stepped.sound {o : Op} (st : Stepped c a o b) (h : a.Sound) : b.Sound := by
  cases st with
  | received => exact h.touch _ _
  | parentReceived => exact h.touch _ _
  | added _ hbrings r =>
    refine r.sound (hbrings.sound h) ?_
    rw [hbrings.eq]
    exact hbrings.tmpFree
  | deleted _ r => exact h.of_rest r.layout r.rest (.inl ⟨r.bcnBuf, r.bcnBufSize⟩) (.inl (rfl : 0 = 0))
  | flushed => exact ⟨(layout_clear h.layout).congr rfl rfl rfl rfl rfl, h.size_ne, h.saved, h.apart⟩
  | cleared => exact ⟨layout_clear h.layout, h.size_ne, h.saved, h.apart⟩
  | associated _ s => exact s.sound (h.layout.congr rfl rfl rfl rfl rfl)
  | disconnected => exact ⟨h.layout.congr rfl rfl rfl rfl rfl, h.size_ne, h.saved, h.apart⟩
  | processed hfree r =>
    cases r with
    | idle => exact h
    | adopted _ _ s => exact s.sound (h.layout.adoptEntry _)
    | appended _ _ r => exact h.of_rest r.layout r.rest r.buffer hfree
    | lastTaken _ hfull r => exact (h.giveUpLast hfull).of_rest r.layout r.rest r.buffer hfree
    | lastLost _ hfull _ => exact h.giveUpLast hfull

/-- Soundness along runs. -/
theorem sound_of_reachableWhen {C : Adapter → Op → Prop} (hC : ∀ a o, C a o → a.Roomy c o)
    (h : (system c).ReachableWhen C a) : a.Sound := by
  refine h.invariant (fun _ => sound_of_init) fun a o b hs hc hstep => ?_
  obtain ⟨hen, rfl⟩ := System.of_guard hstep
  exact (hs.stepped hen (hC a o hc)).sound hs

end Adapter

end WlanDriver.Scan
