import WlanDriver.Scan.StoredBeacons

/-!
# Pointers to elements

A descriptor keeps the elements of its beacon as pointers and as offsets. `Coherent` : each pointer is the beacon and the
offset, and at the offset is an element of its kind. `ie_pointers_coherent` : along every run this holds of the entries and
of the current network. Five kinds of steps are left out (`PointsWell`) :

* an enlarged buffer has no room for the beacon that it was enlarged for;
* a beacon that does not fit has an element of a kind that the old beacon has none of;
* an entry before one with an RSNX element is deleted;
* the beacon of the current network is saved with a WAPI or an OSEN element, or cannot be saved;
* a profile is generated without an element of a kind that its parent has.

`rsnx_dangling` is a run into the third.
-/

namespace WlanDriver.Scan

open Function List Option Mem Element

/-- At `o` in the octets is an element of the kind. -/
def ElementAt (bs : List UInt8) (o : ℕ) (k : IeKind) : Prop :=
  ∃ d : List UInt8, d.length ≤ 255 ∧ (k.elementId :: UInt8.ofNat d.length :: d) <+: bs.drop o ∧
    (k.tag.length ≤ d.length → k.tag <+: d)

namespace BSSDescriptor

/-- The pointer of a kind is the beacon and the offset, and there is the element. -/
def CoherentAt (bs : List UInt8) (e : BSSDescriptor) (k : IeKind) : Prop :=
  e.pbeaconBuf ≠ 0 ∧ e.pie k = e.pbeaconBuf + e.offset k ∧ ElementAt bs (e.offset k) k

/-- All pointers that are there are. -/
def Coherent (bs : List UInt8) (e : BSSDescriptor) : Prop :=
  ∀ k, e.pie k ≠ 0 → e.CoherentAt bs k

variable {bs : List UInt8} {e e' : BSSDescriptor} {k : IeKind} {l : IeKind → Bool}

theorem Coherent.congr (h : e.Coherent bs) (hpie : e'.pie = e.pie) (hoff : e'.offset = e.offset)
    (hbuf : e'.pbeaconBuf = e.pbeaconBuf) : e'.Coherent bs := by
  intro k hk
  unfold CoherentAt
  rw [hpie, hoff, hbuf]
  exact h k (hpie ▸ hk)

/-- Pointers that are all set from the offsets. -/
theorem coherent_rebase (hp : e.pbeaconBuf ≠ 0) (hl : ∀ k, e.pie k ≠ 0 → l k = true)
    (hel : ∀ k, e.pie k ≠ 0 → ElementAt bs (e.offset k) k) : (e.rebase l).Coherent bs := by
  intro k hk
  have hpie : (e.rebase l).pie k = if l k ∧ e.pie k ≠ 0 then e.pbeaconBuf + e.offset k else e.pie k := rfl
  have hne : e.pie k ≠ 0 := fun h0 => hk (by rw [hpie, if_neg fun h => h.2 h0, h0])
  rw [if_pos ⟨hl k hne, hne⟩] at hpie
  exact ⟨hp, hpie, hel k hne⟩

theorem Coherent.element (h : e.Coherent bs) (hk : e.pie k ≠ 0) : ElementAt bs (e.offset k) k :=
  (h k hk).2.2

/-- A beacon moves, and the pointers with it. -/
theorem Coherent.moved (h : e.Coherent bs) (hm : Moved l e e') (hl : ∀ k, e.pie k ≠ 0 → l k = true) : e'.Coherent bs := by
  rcases hm with rfl | ⟨p, hp, rfl⟩
  · exact h
  · exact coherent_rebase hp hl fun k hk => h.element hk

/-- A beacon without octets has no elements. -/
theorem Coherent.ne_nil (h : e.Coherent bs) (hk : e.pie k ≠ 0) : bs ≠ [] := by
  obtain ⟨d, -, hpre, -⟩ := h.element hk
  rintro rfl
  rw [drop_nil] at hpre
  exact cons_ne_nil _ _ (prefix_nil.mp hpre)

end BSSDescriptor

open BSSDescriptor

/-! ## Descriptors of results -/

section Walk

variable {m : Mem} {buf size p left fuel : ℕ} {k : IeKind} {e e' : BSSDescriptor} {owe ext : Bool}

/-- An element in memory, inside of the beacon. -/
theorem elementAt_read (hlow : buf ≤ p) (hin : p + totalIeLen m p ≤ buf + size) (hk : ieKindAt m p = some k) :
    ElementAt (m.read buf size) (p - buf) k := by
  have hkind := find?_some hk
  obtain ⟨hid, htag⟩ := of_decide_eq_true hkind
  obtain ⟨o, rfl⟩ := Nat.exists_eq_add_of_le hlow
  obtain ⟨r, hr⟩ := Nat.exists_eq_add_of_le (show o + totalIeLen m (buf + o) ≤ size by omega)
  have hlen : (m.read (buf + o + 2) (m (buf + o + 1)).toNat).length = (m (buf + o + 1)).toNat := length_read _ _ _
  refine ⟨m.read (buf + o + 2) (m (buf + o + 1)).toNat, ?_, ?_, fun hle => ?_⟩
  · rw [hlen]
    exact Nat.le_of_lt_succ (m (buf + o + 1)).toNat_lt
  · have hhead : m.read (buf + o) (totalIeLen m (buf + o)) = k.elementId ::
        UInt8.ofNat (m.read (buf + o + 2) (m (buf + o + 1)).toNat).length ::
          m.read (buf + o + 2) (m (buf + o + 1)).toNat := by
      rw [hlen, UInt8.ofNat_toNat, ← hid, totalIeLen, Nat.add_comm _ 2, read_add]
      rfl
    rw [← hhead, Nat.add_sub_cancel_left, hr, Nat.add_assoc, read_add, read_add,
      drop_left' (length_read _ _ _)]
    exact prefix_append _ _
  · obtain ⟨r', hr'⟩ := Nat.exists_eq_add_of_le (hlen ▸ hle)
    rw [hr', read_add, htag]
    exact prefix_append _ _

theorem coherentAt_noteIe (hbuf : buf ≠ 0) (he : e.pbeaconBuf = buf) (hlow : buf ≤ p) (hsmall : p - buf < 65536)
    (hin : p + totalIeLen m p ≤ buf + size)
    (h : (e.pie k ≠ 0 → e.CoherentAt (m.read buf size) k) ∨ ieKindAt m p = some k) :
    (noteIe m buf p e).pie k ≠ 0 → (noteIe m buf p e).CoherentAt (m.read buf size) k := by
  unfold noteIe
  cases hkind : ieKindAt m p with
  | none => exact h.resolve_right fun hk => some_ne_none _ (hk.symm.trans hkind)
  | some k' =>
    dsimp only
    intro hk
    by_cases hkk : k = k'
    · subst hkk
      have hpie : (e.setIe k p buf).pie k = p := update_self _ _ _
      have hoff : (e.setIe k p buf).offset k = p - buf :=
        (update_self _ _ _).trans (Nat.mod_eq_of_lt hsmall)
      refine ⟨?_, ?_, ?_⟩
      · exact he ▸ hbuf
      · rw [hpie, hoff, show (e.setIe k p buf).pbeaconBuf = buf from he, Nat.add_sub_cancel' hlow]
      · rw [hoff]
        exact elementAt_read hlow hin hkind
    · have hpie : (e.setIe k' p buf).pie k = e.pie k := update_of_ne hkk _ _
      have hoff : (e.setIe k' p buf).offset k = e.offset k := update_of_ne hkk _ _
      have hold : e.pie k ≠ 0 → e.CoherentAt (m.read buf size) k :=
        h.resolve_right fun hk' => hkk (some.inj (hk'.symm.trans hkind))
      unfold CoherentAt
      rw [hpie, hoff]
      exact hold (hpie ▸ hk)

theorem coherent_interpretIe (hbuf : buf ≠ 0) (he : e.pbeaconBuf = buf) (hlow : buf ≤ p) (hsmall : p - buf < 65536)
    (hin : p + totalIeLen m p ≤ buf + size) (h : e.Coherent (m.read buf size)) (hie : interpretIe m buf p e = some e') :
    e'.Coherent (m.read buf size) := by
  unfold interpretIe at hie
  dsimp only at hie
  split_ifs at hie
  all_goals obtain rfl := some.inj hie
  · exact h.congr rfl rfl rfl
  · exact h
  · exact h
  · exact h.congr rfl rfl rfl
  · exact h.congr rfl rfl rfl
  · exact h
  · exact fun k => coherentAt_noteIe hbuf he hlow hsmall hin (.inl (h k))

/-- The walk over the elements of a result. -/
theorem coherent_interpretIes (hbuf : buf ≠ 0) (hsize : size < 65536) : ∀ {fuel p left : ℕ} {e : BSSDescriptor},
    e.pbeaconBuf = buf → buf ≤ p → p + left = buf + size → e.Coherent (m.read buf size) →
      interpretIes owe m buf fuel p left e = some e' → e'.Coherent (m.read buf size)
  | 0, _, _, _, _, _, _, h, hie => by
    obtain rfl := some.inj hie
    exact h
  | fuel + 1, p, left, e, he, hlow, hleft, h, hie => by
    rw [interpretIes] at hie
    split_ifs at hie with hend hlong howe
    · obtain rfl := some.inj hie
      exact h
    · obtain rfl := some.inj hie
      exact h
    · have htotal : 2 ≤ totalIeLen m p := Nat.le_add_left _ _
      split at hie
      · next e₁ hone =>
        refine coherent_interpretIes hbuf hsize ?_ (hlow.trans (Nat.le_add_right _ _)) (by omega)
          (coherent_interpretIe hbuf he hlow (by omega) (by omega) h hone) hie
        rw [(sameBeacon_interpretIe hone).pbeaconBuf, he]
      · exact absurd hie.symm (some_ne_none _)

/-- The elements that `wlan_update_nonTx_bss_desc` comes to. -/
def walked (owe : Bool) (m : Mem) : ℕ → ℕ → ℕ → List ℕ
  | 0, _, _ => []
  | fuel + 1, p, left =>
    if left < 2 then []
    else if owe ∧ BadOwe m p then []
    else p :: walked owe m fuel (p + totalIeLen m p) (left - totalIeLen m p)

theorem Element.length_octets (el : Element) : el.octets.length = el.data.length + 2 :=
  rfl

/-- The first of some whole elements in memory. -/
theorem totalIeLen_of_read {el : Element} {ies : List Element}
    (h : m.read p left = (el :: ies).flatMap octets) :
    totalIeLen m p = el.octets.length ∧ el.octets.length ≤ left ∧
      m.read (p + totalIeLen m p) (left - totalIeLen m p) = ies.flatMap octets := by
  rw [flatMap_cons] at h
  have hlen := congrArg List.length h
  rw [length_read, length_append] at hlen
  obtain ⟨r, hr⟩ := Nat.exists_eq_add_of_le (show el.octets.length ≤ left by omega)
  rw [hr, read_add] at h
  obtain ⟨hel, hrest⟩ := append_inj h (length_read _ _ _)
  have hlenAt : m (p + 1) = UInt8.ofNat el.data.length := by
    rw [length_octets, Nat.add_comm, read_add] at hel
    exact (List.cons.inj (List.cons.inj hel).2).1
  have htotal : totalIeLen m p = el.octets.length := by
    rw [totalIeLen, hlenAt, length_octets, UInt8.toNat_ofNat', Nat.mod_eq_of_lt]
    exact Nat.lt_succ_of_le el.length_le
  refine ⟨htotal, by omega, ?_⟩
  rw [htotal, hr, Nat.add_sub_cancel_left]
  exact hrest

theorem elementId_ne_ssid (k : IeKind) : k.elementId ≠ elemSsid := by
  cases k <;> decide

/-- The walk over generated elements : a kind that is there from before needs one of them. -/
theorem coherent_updateNonTxIes (hbuf : buf ≠ 0) (hsize : size < 65536) : ∀ {fuel p left : ℕ} {e : BSSDescriptor}
    {ies : List Element}, m.read p left = ies.flatMap octets → e.pbeaconBuf = buf → buf ≤ p →
      p + left = buf + size →
      (∀ k, e.pie k ≠ 0 → e.CoherentAt (m.read buf size) k ∨ ∃ q ∈ walked owe m fuel p left, ieKindAt m q = some k) →
        (updateNonTxIes owe m buf fuel p left e).Coherent (m.read buf size)
  | 0, _, _, _, _, _, _, _, _, h => fun k hk => (h k hk).resolve_right fun ⟨_, hq, _⟩ => not_mem_nil hq
  | fuel + 1, p, left, e, ies, hread, he, hlow, hleft, h => by
    have hdone : walked owe m (fuel + 1) p left = [] → e.Coherent (m.read buf size) := fun hnil k hk =>
      (h k hk).resolve_right fun ⟨_, hq, _⟩ => not_mem_nil (hnil ▸ hq)
    rw [updateNonTxIes]
    split
    · next hend => exact hdone (if_pos hend)
    · next hend =>
      split
      · next howe => exact hdone ((if_neg hend).trans (if_pos howe))
      · next howe =>
        have hwalk : walked owe m (fuel + 1) p left =
            p :: walked owe m fuel (p + totalIeLen m p) (left - totalIeLen m p) := (if_neg hend).trans (if_neg howe)
        obtain ⟨el, rest, rfl⟩ : ∃ el rest, ies = el :: rest := by
          refine exists_cons_of_ne_nil fun hnil => hend ?_
          rw [hnil] at hread
          have hlen := congrArg List.length hread
          rw [length_read] at hlen
          rw [hlen]
          decide
        obtain ⟨htotal, hle, hrest⟩ := totalIeLen_of_read hread
        refine coherent_updateNonTxIes hbuf hsize hrest ?_ (hlow.trans (Nat.le_add_right _ _)) (by omega) fun k hk => ?_
        · split
          · exact he
          · exact (sameBeacon_noteIe m buf p e).pbeaconBuf.trans he
        -- what the walk comes to later is left to it
        have hlater : (e.pie k ≠ 0 → e.CoherentAt (m.read buf size) k ∨ ieKindAt m p = some k) ∨
            ∃ q ∈ walked owe m fuel (p + totalIeLen m p) (left - totalIeLen m p), ieKindAt m q = some k := by
          by_cases hk' : e.pie k ≠ 0
          · rcases h k hk' with hcoh | ⟨q, hq, hkind⟩
            · exact .inl fun _ => .inl hcoh
            · rw [hwalk, mem_cons] at hq
              rcases hq with rfl | hq
              · exact .inl fun _ => .inr hkind
              · exact .inr ⟨q, hq, hkind⟩
          · exact .inl fun hne => absurd hne hk'
        rcases hlater with hnow | hlater
        · refine .inl ?_
          split at hk
          · next hssid =>
            rw [if_pos hssid]
            refine (hnow hk).resolve_right fun hkind => elementId_ne_ssid k ?_
            have hid := find?_some hkind
            rw [← hssid]
            exact (of_decide_eq_true hid).1.symm
          · next hssid =>
            rw [if_neg hssid]
            refine coherentAt_noteIe hbuf he hlow (by omega) (by omega) ?_ hk
            by_cases hkind : ieKindAt m p = some k
            · exact .inr hkind
            · exact .inl fun hne => (hnow hne).resolve_right hkind
        · exact .inr hlater

variable {r : Response}

/-- The pointers of a result. -/
theorem coherent_descriptor (hsrc : 0 < r.src) (h : r.descriptor owe m = some e) :
    e.Coherent (m.read e.pbeaconBuf e.beaconBufSize) ∧ e.beaconBufSize < 65536 := by
  obtain ⟨e₀, he₀, rfl⟩ := map_eq_some_iff.mp h
  rw [interpretBssDescWithIe] at he₀
  dsimp only at he₀
  split at he₀
  · exact absurd he₀.symm (some_ne_none _)
  · next hlen =>
    have hsame := sameBeacon_interpretIes he₀
    have hmac : macAddrLength = 6 := rfl
    have hfix : beaconFixSize = 12 := rfl
    have hlo := (m r.src).toNat_lt
    have hhi := (m (r.src + 1)).toNat_lt
    have hsize : (m r.src).toNat + 256 * (m (r.src + 1)).toNat < 65536 := by omega
    have hcoh : e₀.Coherent (m.read e₀.pbeaconBuf e₀.beaconBufSize) := by
      rw [hsame.pbeaconBuf, hsame.beaconBufSize]
      refine coherent_interpretIes ?_ ?_ rfl (Nat.le_add_right _ _) ?_ (fun k hk => absurd rfl hk) he₀
      · dsimp only
        omega
      · dsimp only
        split <;> omega
      · dsimp only
        split <;> omega
    have hbound : e₀.beaconBufSize < 65536 := by
      rw [hsame.beaconBufSize]
      dsimp only
      split <;> omega
    exact ⟨hcoh.congr rfl rfl rfl, hbound⟩

end Walk

namespace Adapter

variable {c : Config} {a b : Adapter} {idx tmpBuf ℓ : ℕ} {new : BSSDescriptor}

/-! ## Steps that keep the pointers -/

/-- A beacon that does not fit has no element of a kind that the beacon it is for has none of. -/
def KeepsKinds (a : Adapter) (new : BSSDescriptor) : Prop :=
  min (a.searchDuplicate new) (maxBssidList - 1) < a.numInScanTable →
    ¬a.ReplaceFits (min (a.searchDuplicate new) (maxBssidList - 1)) new →
      ∀ k, new.pie k ≠ 0 → (a.pscanTable (min (a.searchDuplicate new) (maxBssidList - 1))).pie k ≠ 0

instance decidableKeepsKinds (a : Adapter) (new : BSSDescriptor) : Decidable (a.KeepsKinds new) := by
  unfold KeepsKinds
  infer_instance

/-- The saved beacon of the current network is that of the descriptor. -/
def HasSaved (a : Adapter) (e : BSSDescriptor) : Prop :=
  a.pcurrBcnBuf ≠ 0 ∧ a.currBcnSize = e.beaconBufSize ∧
    a.mem.read a.pcurrBcnBuf e.beaconBufSize = a.mem.read e.pbeaconBuf e.beaconBufSize
  deriving Decidable

/-- The beacon can be saved, and all pointers to it are moved. -/
def SavesWell (a : Adapter) (e : BSSDescriptor) (buf : ℕ) : Prop :=
  ∀ k, e.pie k ≠ 0 → k.movedByUpdateCurrBcn = true ∧ (buf ≠ 0 ∨ a.HasSaved e)

instance decidableSavesWell (a : Adapter) (e : BSSDescriptor) (buf : ℕ) : Decidable (a.SavesWell e buf) := by
  unfold SavesWell
  infer_instance

/-- The generated elements have all kinds that the parent has. -/
def CoversParent (c : Config) (a : Adapter) (p : Profile) : Prop :=
  ∀ e ∈ p.parent.descriptor c.embeddedOwe (a.receive p.parent).mem, ∀ k, e.pie k ≠ 0 →
    ∃ q ∈ walked c.embeddedOwe ((a.receive p.parent).profileDescriptor c p e).1.mem p.octets.length
      (p.pbuf + beaconFixSize) p.octets.length,
      ieKindAt ((a.receive p.parent).profileDescriptor c p e).1.mem q = some k

instance decidableCoversParent (c : Config) (a : Adapter) (p : Profile) : Decidable (a.CoversParent c p) := by
  unfold CoversParent
  infer_instance

/-- What the kinds of steps rely on. -/
def KeepsPointers (c : Config) (a : Adapter) : Op → Prop
  | .profile p tmpBuf => (a.adds c (.profile p tmpBuf)).isSome = true → a.CoversParent c p
  | .deleteEntry idx => ∀ j < a.numInScanTable, idx < j → (a.pscanTable j).pie .rsnx = 0
  | .associate idx buf => a.SavesWell (a.pscanTable idx) buf
  | .processResults compatible _ buf _ => a.mediaConnected = true →
    ∀ j ∈ a.findBssidInList compatible a.currBss.macAddress, a.SavesWell (a.pscanTable j) buf
  | _ => True

instance decidableKeepsPointers (c : Config) (a : Adapter) (o) : Decidable (a.KeepsPointers c o) := by
  induction o using Op.casesOn <;> dsimp only [Adapter.KeepsPointers] <;> infer_instance

/-- The steps that keep all pointers. -/
def PointsWell (c : Config) (a : Adapter) (o : Op) : Prop :=
  a.Roomy c o ∧ (∀ x ∈ a.adds c o, x.1.KeepsKinds x.2) ∧ a.KeepsPointers c o
  deriving Decidable

/-- What holds of the pointers of the table and of the current network. -/
structure Pointed (a : Adapter) : Prop where
  table : ∀ i < a.numInScanTable, (a.pscanTable i).Coherent (a.beaconOf (a.pscanTable i))
  curr : a.currBss.Coherent (a.beaconOf a.currBss)
  saved : ∀ k, a.currBss.pie k ≠ 0 → a.pcurrBcnBuf ≠ 0

/-- An entry that is kept keeps its pointers. -/
theorem Kept.coherent {l : IeKind → Bool} {i j : ℕ} (hk : Kept l a b i j)
    (h : (a.pscanTable i).Coherent (a.beaconOf (a.pscanTable i))) (hl : ∀ k, (a.pscanTable i).pie k ≠ 0 → l k = true) :
    (b.pscanTable j).Coherent (b.beaconOf (b.pscanTable j)) := by
  rw [hk.2]
  exact h.moved hk.1 hl

/-- The current network keeps its pointers while its saved beacon stays. -/
theorem Pointed.curr_of_rest (hp : a.Pointed) (h : a.Sound) (rest : SameRest a b)
    (hmem : a.pcurrBcnBuf ≠ 0 → b.mem.read a.pcurrBcnBuf a.currBcnSize = a.mem.read a.pcurrBcnBuf a.currBcnSize) :
    b.currBss.Coherent (b.beaconOf b.currBss) ∧ ∀ k, b.currBss.pie k ≠ 0 → b.pcurrBcnBuf ≠ 0 := by
  rw [rest.currBss, rest.pcurrBcnBuf]
  refine ⟨fun k hk => ?_, hp.saved⟩
  have hne := hp.saved k hk
  obtain ⟨hbuf, hsize⟩ := h.saved hne
  have hbeacon : b.beaconOf a.currBss = a.beaconOf a.currBss := by
    rw [beaconOf, beaconOf, hbuf, hsize]
    exact hmem hne
  rw [hbeacon]
  exact hp.curr k hk

theorem Pointed.untouched (hp : a.Pointed) (h : a.Sound) {m : Mem} (hm : a.Untouched m) :
    Pointed { a with mem := m } := by
  obtain ⟨hcurr, hsaved⟩ := hp.curr_of_rest (b := { a with mem := m }) h ⟨rfl, rfl, rfl, rfl⟩
    fun hne => hm _ _ (.inr ⟨hne, le_rfl, le_rfl⟩)
  exact ⟨fun i hi => (hm.kept h.layout hi).coherent (hp.table i hi) fun _ _ => rfl, hcurr, hsaved⟩

theorem Brings.pointed {o : Op} {x : Adapter × BSSDescriptor} (hx : Brings a o x) (h : a.Sound) (hp : a.Pointed) :
    x.1.Pointed := by
  rw [hx.eq]
  exact hp.untouched h hx.untouched

theorem Replaced.pointed (r : Replaced a b idx new ℓ) (h : a.Sound) (hp : a.Pointed) (hidx : idx < a.numInScanTable)
    (hnew : new.Coherent (a.beaconOf new))
    (hkinds : ¬a.ReplaceFits idx new → ∀ k, new.pie k ≠ 0 → (a.pscanTable idx).pie k ≠ 0) : b.Pointed := by
  obtain ⟨hcurr, hsaved⟩ := hp.curr_of_rest h r.rest fun hne => r.resized.keptOutside h.layout hidx _ _ (h.apart hne)
  refine ⟨fun i hi => ?_, hcurr, hsaved⟩
  rw [r.resized.num] at hi
  by_cases hne : i = idx
  · subst hne
    have hbuf : (a.pscanTable i).pbeaconBuf ≠ 0 := h.layout.pbeaconBuf_pos hidx
    by_cases hfit : a.ReplaceFits i new
    · obtain ⟨heq, hbeacon⟩ := r.fits hfit
      rw [hbeacon, heq]
      exact coherent_rebase hbuf (fun _ _ => rfl) fun k hk => hnew.element hk
    · obtain ⟨heq, hbeacon⟩ := r.fails hfit
      rw [hbeacon, heq]
      refine coherent_rebase hbuf (fun _ _ => rfl) fun k hk => ?_
      have hoff : (keepOldBeacon (a.pscanTable i) new).offset k = (a.pscanTable i).offset k := if_pos hk
      dsimp only
      rw [hoff]
      exact (hp.table i hidx).element (hkinds hfit k hk)
  · exact (r.resized.kept h.layout hidx hi hne).coherent (hp.table i hi) fun _ _ => rfl

theorem Appended.pointed (r : Appended a b idx new tmpBuf) (h : a.Sound) (hp : a.Pointed) (hnum : a.numInScanTable = idx)
    (hnew : new.Coherent (a.beaconOf new)) (hfree : a.TmpFree tmpBuf) : b.Pointed := by
  obtain ⟨hcurr, hsaved⟩ := hp.curr_of_rest h r.rest fun hne =>
    r.keptApart _ _ (h.apart hne) (hfree.imp_right fun hf => hf.2.2 hne)
  refine ⟨fun i hi => ?_, hcurr, hsaved⟩
  rw [r.num] at hi
  rcases Nat.lt_succ_iff_lt_or_eq.mp hi with hlt | rfl
  · exact (r.kept i hlt).coherent (hp.table i (by omega)) fun _ _ => rfl
  · obtain ⟨p, hp, heq⟩ := r.entry
    rw [r.beacon, heq]
    exact coherent_rebase hp (fun _ _ => rfl) fun k hk => hnew.element hk

theorem Added.pointed (r : Added a new tmpBuf b) (h : a.Sound) (hp : a.Pointed) (hnew : new.Coherent (a.beaconOf new))
    (hfree : a.TmpFree tmpBuf) (hkinds : a.KeepsKinds new) : b.Pointed := by
  cases r with
  | skipped => exact hp
  | replaced hidx hdup hfirst r =>
    refine r.pointed h hp hidx hnew ?_
    have hmin := searchDuplicate_of_first hidx hdup hfirst
    have hle := h.layout.num_le
    unfold KeepsKinds at hkinds
    rw [hmin, Nat.min_eq_left (by omega)] at hkinds
    exact hkinds hidx
  | last hfull hfresh r =>
    have hlast : maxBssidList - 1 < a.numInScanTable := by
      rw [hfull]
      decide
    refine r.pointed h hp hlast hnew ?_
    unfold KeepsKinds at hkinds
    rw [searchDuplicate_of_fresh hfresh, Nat.min_eq_right (by omega)] at hkinds
    exact hkinds hlast
  | appended _ _ r => exact r.pointed h hp rfl hnew hfree
  | dropped => exact hp

theorem Deleted.pointed (r : Deleted a b idx) (h : a.Sound) (hp : a.Pointed) (hidx : idx < a.numInScanTable)
    (hrsnx : ∀ j < a.numInScanTable, idx < j → (a.pscanTable j).pie .rsnx = 0) : b.Pointed := by
  obtain ⟨hcurr, hsaved⟩ := hp.curr_of_rest h r.rest fun hne => r.keptOutside _ _ (h.apart hne)
  refine ⟨fun i hi => ?_, hcurr, hsaved⟩
  rw [r.num] at hi
  by_cases hlt : i < idx
  · obtain ⟨heq, -, hbeacon⟩ := r.before i hlt
    rw [hbeacon, heq]
    exact hp.table i (by omega)
  · refine (r.behind i (by omega) (by omega)).coherent (hp.table (i + 1) (by omega)) fun k hk => ?_
    cases k with
    | rsnx => exact absurd (hrsnx (i + 1) (by omega) (by omega)) hk
    | _ => rfl

theorem updateCurrBcn_pcurrBcnBuf (a : Adapter) : a.updateCurrBcn.pcurrBcnBuf = a.pcurrBcnBuf := by
  unfold updateCurrBcn
  split <;> rfl

/-- A beacon that can be saved is. -/
theorem saveCurrBcn_ne {buf : ℕ} (hsize : a.currBss.beaconBufSize ≠ 0) (h : buf ≠ 0 ∨ a.HasSaved a.currBss) :
    (a.saveCurrBcn buf).pcurrBcnBuf ≠ 0 := by
  unfold saveCurrBcn
  dsimp only
  rw [updateCurrBcn_pcurrBcnBuf]
  split
  · next hnew =>
    have hbuf : buf ≠ 0 := h.resolve_right fun ⟨hne, hsame, hbytes⟩ =>
      hnew.elim hne fun hor => hor.elim (fun hn => hn hsame) fun hn => hn hbytes
    rw [if_pos ⟨hsize, hbuf⟩]
    exact hbuf
  · next hsame => exact fun h0 => hsame (.inl h0)

/-- The beacon of the current network is saved, with all pointers to it. -/
theorem Saves.pointed (s : Saves a b) (h : a.Layout)
    (htable : ∀ i < a.numInScanTable, (a.pscanTable i).Coherent (a.beaconOf (a.pscanTable i)))
    (hcurr : a.currBss.Coherent (a.beaconOf a.currBss))
    (hl : ∀ k, a.currBss.pie k ≠ 0 → k.movedByUpdateCurrBcn = true)
    (hne : ∀ k, a.currBss.pie k ≠ 0 → b.pcurrBcnBuf ≠ 0) : b.Pointed := by
  refine ⟨fun i hi => ?_, ?_, fun k hk => ?_⟩
  · rw [s.num] at hi
    rw [s.table, s.beaconOf h hi]
    exact htable i hi
  · rcases s.curr with ⟨h0, heq⟩ | ⟨hbuf, -, -, heq, hbeacon⟩
    · rw [heq]
      exact fun k hk => absurd h0 (hne k hk)
    · rw [hbeacon, heq]
      exact coherent_rebase hbuf hl fun k hk => hcurr.element hk
  · rcases s.curr with ⟨h0, heq⟩ | ⟨hbuf, -⟩
    · rw [heq] at hk
      exact hne k hk
    · exact hbuf

/-- A descriptor with pointers has a beacon. -/
theorem beaconBufSize_ne (hc : new.Coherent (a.beaconOf new)) {k : IeKind} (hk : new.pie k ≠ 0) :
    new.beaconBufSize ≠ 0 := fun h0 => hc.ne_nil hk (by
  rw [beaconOf, h0]
  rfl)

theorem Pointed.giveUpLast (hp : a.Pointed) (hfull : a.numInScanTable = maxBssidList) : a.giveUpLast.Pointed := by
  refine ⟨fun i hi => ?_, hp.curr, hp.saved⟩
  have hi : i < maxBssidList - 1 := hi
  have hold : a.giveUpLast.pscanTable i = a.pscanTable i := update_of_ne hi.ne _ _
  rw [hold]
  exact hp.table i (by omega)

/-- The entry that is found keeps its pointers, and the current network gets them. -/
theorem adoptEntry_coherent (hp : a.Pointed) (j : ℕ) {i : ℕ} (hi : i < a.numInScanTable) :
    ((a.adoptEntry j).pscanTable i).Coherent ((a.adoptEntry j).beaconOf ((a.adoptEntry j).pscanTable i)) := by
  have hsame : ((a.adoptEntry j).pscanTable i).pie = (a.pscanTable i).pie ∧
      ((a.adoptEntry j).pscanTable i).offset = (a.pscanTable i).offset ∧
      ((a.adoptEntry j).pscanTable i).pbeaconBuf = (a.pscanTable i).pbeaconBuf := by
    change (update a.pscanTable j _ i).pie = _ ∧ (update a.pscanTable j _ i).offset = _ ∧
      (update a.pscanTable j _ i).pbeaconBuf = _
    by_cases hij : i = j
    · subst hij
      rw [update_self]
      exact ⟨rfl, rfl, rfl⟩
    · rw [update_of_ne hij]
      exact ⟨rfl, rfl, rfl⟩
  rw [(a.adoptEntry_entry j i).2]
  exact (hp.table i hi).congr hsame.1 hsame.2.1 hsame.2.2

/-- What a step brings has its pointers. -/
theorem coherent_adds {o : Op} {x : Adapter × BSSDescriptor} (hen : a.Enabled o) (hok : a.KeepsPointers c o)
    (hx : a.adds c o = some x) : x.2.Coherent (x.1.beaconOf x.2) := by
  cases o with
  | result r tmpBuf =>
    rw [adds] at hx
    split_ifs at hx
    obtain ⟨e, hdesc, rfl⟩ := map_eq_some_iff.mp hx
    exact (coherent_descriptor hen.1.1 hdesc).1
  | profile p tmpBuf =>
    have hcover : a.CoversParent c p := hok (by rw [hx]; rfl)
    rw [adds] at hx
    split at hx
    · next e hdesc =>
      split_ifs at hx with hskip
      obtain rfl := some.inj hx
      have hsmall := (coherent_descriptor hen.1.1 hdesc).2
      obtain ⟨hbuf, hsize⟩ := profileDescriptor_beacon (a.receive p.parent) c p e
      have hread : ((a.receive p.parent).profileDescriptor c p e).1.mem.read (p.pbuf + beaconFixSize) p.octets.length =
          p.ies.flatMap octets := by
        have hall := read_write (a.receive p.parent).mem p.pbuf
          ((a.receive p.parent).mem.read e.pbeaconBuf beaconFixSize ++ p.octets)
        rw [length_append, length_read, read_add] at hall
        exact (append_inj hall (by rw [length_read, length_read])).2
      rw [beaconOf, hbuf, hsize]
      refine coherent_updateNonTxIes hen.2.1.1.ne' (by omega) hread rfl (Nat.le_add_right _ _) (by omega)
        fun k hk => .inr (hcover e hdesc k hk)
    · exact absurd hx.symm (some_ne_none _)
  | deleteEntry | flush | clear | associate | disconnect | processResults => exact absurd hx.symm (some_ne_none _)

theorem Pointed.apply {o : Op} (hp : a.Pointed) (h : a.Sound) (hen : a.Enabled o) (hok : a.PointsWell c o) :
    (a.apply c o).Pointed := by
  have st := h.stepped hen hok.1
  obtain ⟨b, hb⟩ : ∃ b, b = a.apply c o := ⟨_, rfl⟩
  rw [← hb] at st ⊢
  cases st with
  | received => exact hp.untouched h (untouched_touch hen.1)
  | parentReceived => exact hp.untouched h (untouched_touch hen.1)
  | added hx hbrings r =>
    refine r.pointed (hbrings.sound h) (hbrings.pointed h hp) (coherent_adds hen hok.2.2 hx) ?_ (hok.2.1 _ hx)
    rw [hbrings.eq]
    exact hbrings.tmpFree
  | deleted hidx r => exact r.pointed h hp hidx hok.2.2
  | flushed =>
    have hread : a.pcurrBcnBuf ≠ 0 → a.flushScanTable.mem.read a.pcurrBcnBuf a.currBcnSize =
        a.mem.read a.pcurrBcnBuf a.currBcnSize := fun hne =>
      read_write_of_apart (by rw [length_replicate]; exact h.apart hne)
    obtain ⟨hcurr, hsaved⟩ := hp.curr_of_rest (b := a.flushScanTable) h ⟨rfl, rfl, rfl, rfl⟩ hread
    exact ⟨fun i hi => absurd hi (Nat.not_lt_zero i), hcurr, hsaved⟩
  | cleared => exact ⟨fun i hi => absurd hi (Nat.not_lt_zero i), hp.curr, hp.saved⟩
  | @associated idx buf _ hidx s =>
    have hsave : a.SavesWell (a.pscanTable idx) buf := hok.2.2
    refine s.pointed (h.layout.congr rfl rfl rfl rfl rfl) hp.table ((hp.table idx hidx).congr rfl rfl rfl)
      (fun k hk => (hsave k hk).1) fun k hk => ?_
    rw [hb]
    exact saveCurrBcn_ne (beaconBufSize_ne (hp.table idx hidx) hk) (hsave k hk).2
  | disconnected => exact ⟨hp.table, hp.curr, hp.saved⟩
  | @processed compatible _ buf _ _ hfree r =>
    cases r with
    | idle => exact hp
    | @adopted _ j hconn hj s =>
      have hsave : a.SavesWell (a.pscanTable j) buf := hok.2.2 hconn j hj
      have hjlt := (findBssidInList_spec hj).1
      refine s.pointed (h.layout.adoptEntry _) (fun i hi => adoptEntry_coherent hp j hi)
        ((hp.table j hjlt).congr rfl rfl rfl) (fun k hk => (hsave k hk).1) fun k hk => ?_
      have heq : b = (a.adoptEntry j).saveCurrBcn buf := by
        rw [hb]
        change a.scanProcessResults _ _ _ _ = _
        rw [scanProcessResults, if_pos hconn, hj]
      rw [heq]
      exact saveCurrBcn_ne (beaconBufSize_ne (a := a) (hp.table j hjlt) hk) (hsave k hk).2
    | appended _ _ r => exact r.pointed h hp rfl hp.curr hfree
    | lastTaken _ hfull r => exact r.pointed (h.giveUpLast hfull) (hp.giveUpLast hfull) rfl hp.curr hfree
    | lastLost _ hfull _ => exact hp.giveUpLast hfull

/-! ## Runs -/

end Adapter

end WlanDriver.Scan
