import Mathlib.Algebra.Order.BigOperators.Group.List
import Mathlib.Algebra.Order.Ring.Nat
import WlanDriver.Misc.CustomIe

/-!
# Custom IEs in memory

`wlan_custom_ioctl_get_autoidx` and `wlan_custom_ioctl_auto_delete` on the table as it lies in memory : a comparison reads on
behind the length of an entry, and behind its buffer. `del_len` is at most one less than a buffer and may be none.

The search ends unless there are more indexes than the table has and no slot in it; it then looks through the same table
again (`searchIe_isSome_iff`).

The scan of an entry finds what is inside first (`find_hits`), so it goes wrong only where nothing is left to be found : what
is left has an end that reads on to the octets, the comparison is empty, or a length is more than a buffer
(`Deletable`, `Deletable.scan`).
-/

namespace WlanDriver.Misc

open List

def maxMgmtIeIndex : ℕ := 26

/-- `MLAN_CUSTOM_IE_AUTO_IDX_MASK`. -/
def customIeAutoIdxMask : ℕ := 0xffff

/-- Why a deletion has no result. -/
inductive DelFault
  | outOfFuel
  /-- `ie_length` is less than what is taken from it. -/
  | wrapped
  /-- What follows a match is written behind `ie`. -/
  | overrun

namespace CustomIe

variable (e : CustomIe) (behind : ℕ → UInt8)

/-- The octet at an offset from `ie_buffer` on. -/
def octet (k : ℕ) : UInt8 :=
  e.ieBuffer.getD k (behind (k - maxIeSize))

/-- `memcmp` at an offset. -/
def hits (del : List UInt8) (cnt : ℕ) : Bool :=
  (List.range del.length).map (fun k => e.octet behind (cnt + k)) = del

/-- `n` octets from `cnt` on are taken out, by way of `ie`. -/
def cut (cnt n : ℕ) : CustomIe where
  ieIndex := e.ieIndex
  mgmtSubtypeMask := e.mgmtSubtypeMask
  ieLength := e.ieLength - n
  ieBuffer := fit ((e.ieBuffer.take cnt ++ (List.range (min (e.ieLength - (cnt + n)) (maxIeSize - cnt))).map fun k =>
    e.octet behind (min (maxIeSize - 1) (cnt + n) + k)).take (e.ieLength - n))
  length_ieBuffer := length_fit _

/-- The loop over an entry, and whether there was a match. -/
def scan (behind : ℕ → UInt8) (del : List UInt8) : ℕ → CustomIe → Except DelFault (CustomIe × Bool)
  | 0, _ => .error .outOfFuel
  | fuel + 1, e =>
    match (List.range e.ieLength).find? (e.hits behind del) with
    | none => .ok (e, false)
    | some cnt =>
      if e.ieLength < del.length then .error .wrapped
      else if maxIeSize < cnt ∧ cnt + del.length < e.ieLength then .error .overrun
      else (scan behind del fuel (e.cut behind cnt del.length)).map fun r => (r.1, true)

/-- `del_ie`, as far as it is compared. -/
def delIe (req : CustomIe) : List UInt8 :=
  req.ieBuffer.take (min (maxIeSize - 1) req.ieLength)

end CustomIe

/-- What is deleted so far. -/
structure Deletion where
  mgmtIe : ℕ → CustomIe
  /-- `ie_index` of the request. -/
  ieIndex : ℕ
  insert : Bool

/-- The entries that the loop of a deletion comes to. -/
def visited (maxMgmtIe idx : ℕ) : List ℕ :=
  if min maxMgmtIe maxMgmtIeIndex = 0 then []
  else if idx = customIeAutoIdxMask then List.range (min maxMgmtIe maxMgmtIeIndex)
  else if idx < maxMgmtIeIndex then [idx]
  else [0]

/-- One entry. `behind i` is what lies behind the buffer of the entry `i`. -/
def deletionTurn (fuel : ℕ) (behind : ℕ → ℕ → UInt8) (del : List UInt8) (idx : ℕ) (s : Deletion) (i : ℕ) :
    Except DelFault Deletion :=
  ((s.mgmtIe i).scan (behind i) del fuel).map fun r =>
    ⟨Function.update s.mgmtIe i r.1,
      if r.2 ∧ idx = customIeAutoIdxMask then s.ieIndex ||| 2 ^ i % 2 ^ 16 else s.ieIndex, s.insert || r.2⟩

/-- `wlan_custom_ioctl_auto_delete`, and whether it succeeds. -/
def customIoctlAutoDelete (fuel maxMgmtIe : ℕ) (mgmtIe : ℕ → CustomIe) (behind : ℕ → ℕ → UInt8) (req : CustomIe)
    (idx : ℕ) : Except DelFault (Deletion × Bool) :=
  let s : Deletion := ⟨mgmtIe, if idx = customIeAutoIdxMask then 0 else req.ieIndex, false⟩
  let index := if idx = customIeAutoIdxMask then min maxMgmtIe maxMgmtIeIndex else (visited maxMgmtIe idx).headD 0
  ((visited maxMgmtIe idx).foldlM (deletionTurn fuel behind req.delIe idx) s).map fun s =>
    (s, !(index = maxMgmtIe && !s.insert))

/-- What a search reads. -/
structure IeSearch where
  maxMgmtIe : ℕ
  mgmtIe : ℕ → CustomIe
  behind : ℕ → ℕ → UInt8
  /-- The tables of the other interfaces. -/
  others : List (ℕ → CustomIe)
  mask : ℕ
  req : CustomIe
  reqBehind : ℕ → UInt8

namespace IeSearch

variable (q : IeSearch)

def isCustomIeIndexUnused (i : ℕ) : Bool :=
  q.others.all fun t => !((t i).mgmtSubtypeMask ≠ 0 && (t i).ieLength ≠ 0)

/-- The same IE is there. -/
def duplicate (i : ℕ) : Bool :=
  (q.mgmtIe i).ieLength ≠ 0 ∧
    (List.range (q.mgmtIe i).ieLength).all fun k => (q.mgmtIe i).octet (q.behind i) k = q.req.octet q.reqBehind k

/-- The first loop ends at an entry. -/
def sameMask (i : ℕ) : Bool :=
  (q.mgmtIe i).mgmtSubtypeMask ≠ customIeAutoIdxMask ∧ (q.mgmtIe i).mgmtSubtypeMask = q.mask ∧
    (q.duplicate i ∨ (q.mgmtIe i).ieLength + q.req.ieLength ≤ maxIeSize)

/-- The second loop ends at an entry. -/
def empty (i : ℕ) : Bool :=
  (q.mgmtIe i).ieLength = 0 ∧ q.isCustomIeIndexUnused i

/-- The loop of `wlan_custom_ioctl_get_autoidx`, from an index on. -/
def searchIe : ℕ → ℕ → Option Slot
  | 0, _ => none
  | fuel + 1, index =>
    match (List.range (min q.maxMgmtIe maxMgmtIeIndex)).find? fun i => index ≤ i ∧ q.sameMask i with
    | some i => some (if q.duplicate i then .duplicate else .at i)
    | none =>
      match (List.range (min q.maxMgmtIe maxMgmtIeIndex)).find? q.empty with
      | some i => some (.at i)
      | none => if min q.maxMgmtIe maxMgmtIeIndex = q.maxMgmtIe then some .full
        else searchIe fuel (min q.maxMgmtIe maxMgmtIeIndex)

def customIoctlGetAutoidx (fuel : ℕ) : Option Slot :=
  q.searchIe fuel 0

/-- The table has a slot, or all indexes. -/
def HasEnd : Prop :=
  q.maxMgmtIe ≤ maxMgmtIeIndex ∨ ∃ i < maxMgmtIeIndex, q.sameMask i ∨ q.empty i

end IeSearch

/-! ## What a deletion is to do -/

namespace CustomIe

/-- The octets of an entry are others. -/
def withContent (e : CustomIe) (l : List UInt8) : CustomIe where
  ieIndex := e.ieIndex
  mgmtSubtypeMask := e.mgmtSubtypeMask
  ieLength := l.length
  ieBuffer := fit l
  length_ieBuffer := length_fit _

/-- The occurrences of `w` inside an entry are taken out, and nothing else. -/
structure Removed (w : List UInt8) (e e' : CustomIe) : Prop where
  content : e'.content = exciseAll w e.content
  ieLength : e'.ieLength + e.content.length = e.ieLength + e'.content.length
  same : firstIn w e.content = none → e' = e

/-- No comparison with the entry agrees, wherever it begins. -/
def Quiet (behind : ℕ → UInt8) (del : List UInt8) (e : CustomIe) : Prop :=
  ∀ cnt < e.ieLength, e.hits behind del cnt = false

/-- The entry, as it lies in memory, is one that the octets can be taken out of. -/
def Deletable (behind : ℕ → UInt8) (e req : CustomIe) : Prop :=
  e.Quiet behind req.delIe ∨
    0 < req.ieLength ∧ req.ieLength < maxIeSize ∧ e.ieLength ≤ maxIeSize ∧ (firstIn req.content e.content).isSome ∧
      (e.withContent (exciseAll req.content e.content)).Quiet behind req.delIe

end CustomIe

/-- The search ends, and the deletion ends, takes the octets of the request out of the entries that it comes to, and leaves the
others as they are. -/
structure SearchesAndDeletes (q : IeSearch) (idx : ℕ) : Prop where
  search : ∃ fuel, (q.customIoctlGetAutoidx fuel).isSome
  delete : ∃ fuel r, customIoctlAutoDelete fuel q.maxMgmtIe q.mgmtIe q.behind q.req idx = .ok r ∧
    (∀ i ∈ visited q.maxMgmtIe idx, (q.mgmtIe i).Removed q.req.content (r.1.mgmtIe i)) ∧
      ∀ i ∉ visited q.maxMgmtIe idx, r.1.mgmtIe i = q.mgmtIe i

/-! ## The scan of an entry -/

namespace CustomIe

variable {e : CustomIe} {behind : ℕ → UInt8} {del l : List UInt8} {k n fuel : ℕ}

/-- Inside the entry the memory is its octets. -/
theorem map_octet (hn : k + n ≤ e.content.length) :
    (List.range n).map (fun i => e.octet behind (k + i)) = (e.content.drop k).take n := by
  have hlen : ((e.content.drop k).take n).length = n := by
    rw [length_take, length_drop]
    omega
  refine ext_getElem (by rw [length_map, length_range, hlen]) fun i hi _ => ?_
  rw [length_map, length_range] at hi
  have hbuf : k + i < e.ieBuffer.length := by
    have := length_take_le e.ieLength e.ieBuffer
    have : e.content.length ≤ e.ieBuffer.length := by
      rw [content, length_take]
      exact min_le_right _ _
    omega
  simp only [getElem_map, getElem_range, getElem_take, getElem_drop, octet, content]
  rw [getD_eq_getElem?_getD, getElem?_eq_getElem hbuf]
  rfl

theorem hits_of_isPrefix (h : del <+: e.content.drop k) (hk : k + del.length ≤ e.content.length) :
    e.hits behind del k = true := by
  unfold hits
  rw [decide_eq_true_eq, map_octet hk]
  exact (prefix_iff_eq_take.mp h).symm

theorem prefix_of_hits (h : e.hits behind del k = true) (hk : k + del.length ≤ e.content.length) :
    del <+: e.content.drop k := by
  unfold hits at h
  rw [decide_eq_true_eq, map_octet hk] at h
  exact h ▸ take_prefix _ _

theorem length_content_le (e : CustomIe) : e.content.length ≤ e.ieLength := by
  rw [content, length_take]
  exact min_le_left _ _

/-- What is found first is inside, if there is something inside. -/
theorem find_hits (hdel : del ≠ []) (h : firstIn del e.content = some k) :
    (List.range e.ieLength).find? (e.hits behind del) = some k := by
  obtain ⟨hp, hk⟩ := firstIn_eq_some h
  have hpos := length_pos_of_ne_nil hdel
  have hle := e.length_content_le
  rw [find?_range_eq_some]
  refine ⟨hits_of_isPrefix hp hk, mem_range.mpr (by omega), fun j hj => ?_⟩
  rw [Bool.not_eq_true']
  cases hhit : e.hits behind del j with
  | false => rfl
  | true =>
    have hpj := prefix_of_hits hhit (by omega)
    unfold firstIn at h
    rw [find?_range_eq_some] at h
    have hno := h.2.2 j hj
    rw [Bool.not_eq_true', ← Bool.not_eq_true, isPrefixOf_iff_prefix] at hno
    exact absurd hpj hno

@[simp] theorem content_withContent (hl : l.length ≤ maxIeSize) : (e.withContent l).content = l := by
  change (fit l).take l.length = l
  rw [take_fit le_rfl hl, take_length]

theorem cut_eq (hlen : e.ieLength ≤ maxIeSize) (h : firstIn del e.content = some k) :
    e.cut behind k del.length = e.withContent (excise del e.content) := by
  have hk := (firstIn_eq_some h).2
  have hcontent := length_content hlen
  have htake : e.ieBuffer.take k = e.content.take k := by
    rw [content, take_take, Nat.min_eq_left (by omega)]
  have hrest : (List.range (min (e.ieLength - (k + del.length)) (maxIeSize - k))).map
      (fun i => e.octet behind (min (maxIeSize - 1) (k + del.length) + i)) = e.content.drop (k + del.length) := by
    have hmin : min (e.ieLength - (k + del.length)) (maxIeSize - k) = e.ieLength - (k + del.length) :=
      Nat.min_eq_left (by omega)
    rw [hmin]
    rcases Nat.eq_zero_or_pos (e.ieLength - (k + del.length)) with hzero | hpos
    · rw [hzero, drop_eq_nil_of_le (by omega)]
      rfl
    · have hfrom : min (maxIeSize - 1) (k + del.length) = k + del.length := Nat.min_eq_right (by omega)
      rw [hfrom, map_octet (by omega)]
      exact take_of_length_le (by rw [length_drop, hcontent])
  have hexcise : excise del e.content = e.content.take k ++ e.content.drop (k + del.length) := by
    rw [excise, h]
  have hlength : (excise del e.content).length = e.ieLength - del.length := by
    have := length_excise h
    omega
  unfold cut withContent
  simp only [htake, hrest, ← hexcise, hlength]
  congr 1
  exact congrArg fit (take_of_length_le hlength.le)

theorem scan_quiet (h : e.Quiet behind del) : e.scan behind del (fuel + 1) = .ok (e, false) := by
  have hnone : (List.range e.ieLength).find? (e.hits behind del) = none :=
    find?_eq_none.mpr fun k hk => by simp [h k (mem_range.mp hk)]
  unfold scan
  rw [hnone]

/-- One match. -/
theorem scan_of_find (h : (List.range e.ieLength).find? (e.hits behind del) = some k) {r : CustomIe × Bool}
    (hr : e.scan behind del (fuel + 1) = .ok r) :
    del.length ≤ e.ieLength ∧ ∃ b, (e.cut behind k del.length).scan behind del fuel = .ok (r.1, b) := by
  unfold scan at hr
  rw [h] at hr
  dsimp only at hr
  split_ifs at hr with hwrap hover
  refine ⟨Nat.le_of_not_lt hwrap, ?_⟩
  cases hnext : (e.cut behind k del.length).scan behind del fuel with
  | error x =>
    rw [hnext] at hr
    exact absurd hr (by simp [Except.map])
  | ok r' =>
    rw [hnext] at hr
    obtain rfl := Except.ok.inj hr
    exact ⟨r'.2, rfl⟩

/-- A scan that has a result leaves the entry alone, or takes whole comparisons from its length. -/
theorem scan_ok {r : CustomIe × Bool} (hr : e.scan behind del fuel = .ok r) :
    (e.Quiet behind del ∧ r.1 = e) ∨ ∃ m, r.1.ieLength + (m + 1) * del.length = e.ieLength := by
  induction fuel generalizing e r with
  | zero => exact absurd hr (by simp [scan])
  | succ fuel ih =>
    cases h : (List.range e.ieLength).find? (e.hits behind del) with
    | none =>
      have hquiet : e.Quiet behind del := fun k hk => by
        simpa using find?_eq_none.mp h k (mem_range.mpr hk)
      rw [scan_quiet hquiet] at hr
      exact .inl ⟨hquiet, (congrArg Prod.fst (Except.ok.inj hr)).symm⟩
    | some k =>
      obtain ⟨hle, b, hnext⟩ := scan_of_find h hr
      have hcut : (e.cut behind k del.length).ieLength = e.ieLength - del.length := rfl
      rcases ih hnext with ⟨-, heq⟩ | ⟨m, hm⟩
      · have hlen : r.1.ieLength = e.ieLength - del.length := (congrArg ieLength heq).trans hcut
        exact .inr ⟨0, by omega⟩
      · refine .inr ⟨m + 1, ?_⟩
        dsimp only at hm
        rw [Nat.succ_mul]
        omega

/-- With nothing to compare the scan does not end. -/
theorem scan_nil_ne_ok (h : 0 < e.ieLength) {r : CustomIe × Bool} : e.scan behind [] fuel ≠ .ok r := by
  induction fuel generalizing e r with
  | zero => simp [scan]
  | succ fuel ih =>
    intro hr
    have hfind : (List.range e.ieLength).find? (e.hits behind []) = some 0 := by
      rw [find?_range_eq_some]
      exact ⟨by simp [hits], mem_range.mpr h, by simp⟩
    obtain ⟨-, b, hnext⟩ := scan_of_find hfind hr
    exact ih (e := e.cut behind 0 0) (by exact h) hnext

/-- What is inside is taken out before anything else. -/
theorem scan_inside (hdel : del ≠ []) (hlen : e.ieLength ≤ maxIeSize) (h : (firstIn del e.content).isSome)
    {r : CustomIe × Bool} (hr : e.scan behind del fuel = .ok r) :
    ∃ fuel' b, (e.withContent (exciseAll del e.content)).scan behind del fuel' = .ok (r.1, b) := by
  induction fuel generalizing e r with
  | zero => exact absurd hr (by simp [scan])
  | succ fuel ih =>
    obtain ⟨k, hk⟩ := Option.isSome_iff_exists.mp h
    obtain ⟨-, b, hnext⟩ := scan_of_find (find_hits hdel hk) hr
    rw [cut_eq hlen hk] at hnext
    have hle : (excise del e.content).length ≤ maxIeSize :=
      (length_excise_le _ _).trans (e.length_content_le.trans hlen)
    rw [exciseAll_of_some hdel hk]
    cases hrest : firstIn del (excise del e.content) with
    | none => exact ⟨fuel, b, by rw [exciseAll_of_none hrest]; exact hnext⟩
    | some j =>
      have hcontent := content_withContent (e := e) hle
      obtain ⟨fuel', b', hend⟩ := ih (e := e.withContent (excise del e.content)) hle
        (by rw [hcontent, hrest]; rfl) hnext
      rw [hcontent] at hend
      exact ⟨fuel', b', hend⟩

theorem scan_inside_eq (hdel : del ≠ []) (hlen : e.ieLength ≤ maxIeSize) (h : (firstIn del e.content).isSome)
    (hquiet : (e.withContent (exciseAll del e.content)).Quiet behind del) (hfuel : e.ieLength < fuel) :
    e.scan behind del fuel = .ok (e.withContent (exciseAll del e.content), true) := by
  induction fuel generalizing e with
  | zero => omega
  | succ fuel ih =>
    obtain ⟨k, hk⟩ := Option.isSome_iff_exists.mp h
    have hin := (firstIn_eq_some hk).2
    have hpos := length_pos_of_ne_nil hdel
    have hcontent := length_content hlen
    have hle : (excise del e.content).length ≤ maxIeSize :=
      (length_excise_le _ _).trans (e.length_content_le.trans hlen)
    have hshort := length_excise hk
    have hnext : (e.withContent (excise del e.content)).scan behind del fuel =
        .ok (e.withContent (exciseAll del e.content), (firstIn del (excise del e.content)).isSome) := by
      rw [exciseAll_of_some hdel hk] at hquiet ⊢
      cases hrest : firstIn del (excise del e.content) with
      | none =>
        rw [exciseAll_of_none hrest] at hquiet ⊢
        obtain ⟨fuel, rfl⟩ : ∃ n, fuel = n + 1 := ⟨fuel - 1, by omega⟩
        exact scan_quiet hquiet
      | some j =>
        have hcw := content_withContent (e := e) hle
        have hlw : (e.withContent (excise del e.content)).ieLength < fuel := by
          change (excise del e.content).length < fuel
          omega
        have := ih (e := e.withContent (excise del e.content)) hle (by rw [hcw, hrest]; rfl) (by rw [hcw]; exact hquiet) hlw
        rw [hcw] at this
        exact this
    unfold scan
    rw [find_hits hdel hk]
    dsimp only
    rw [if_neg (by omega), if_neg (by omega), cut_eq hlen hk, hnext]
    rfl

/-! ## Which entries -/

variable {req : CustomIe}

theorem delIe_isPrefix (req : CustomIe) : req.delIe <+: req.content :=
  take_prefix_take_left (min_le_right _ _)

theorem length_delIe (req : CustomIe) : req.delIe.length = min (maxIeSize - 1) req.ieLength := by
  have hle : min (maxIeSize - 1) req.ieLength ≤ maxIeSize := (min_le_left _ _).trans (by decide)
  rw [delIe, length_take, req.length_ieBuffer, Nat.min_eq_left hle]

/-- Where no comparison agrees nothing is inside. -/
theorem firstIn_of_quiet (h : e.Quiet behind req.delIe) : firstIn req.content e.content = none := by
  cases hk : firstIn req.content e.content with
  | none => rfl
  | some k =>
    obtain ⟨hp, hin⟩ := firstIn_eq_some hk
    have hlt : k < e.content.length := by
      unfold firstIn at hk
      exact mem_range.mp (mem_of_find?_eq_some hk)
    have hle := (delIe_isPrefix req).length_le
    have hhit : e.hits behind req.delIe k = true := hits_of_isPrefix ((delIe_isPrefix req).trans hp) (by omega)
    rw [h k (hlt.trans_le e.length_content_le)] at hhit
    exact absurd hhit Bool.false_ne_true

theorem Removed.of_quiet (h : e.Quiet behind req.delIe) : Removed req.content e e :=
  ⟨(exciseAll_of_none (firstIn_of_quiet h)).symm, rfl, fun _ => rfl⟩

theorem delIe_of_lt (h : req.ieLength < maxIeSize) : req.delIe = req.content := by
  have hmin : min (maxIeSize - 1) req.ieLength = req.ieLength := Nat.min_eq_right (by omega)
  rw [delIe, hmin, content]

/-- What can be taken out is taken out, with fuel for each octet. -/
theorem Deletable.scan (h : e.Deletable behind req) (hfuel : e.ieLength < fuel) :
    ∃ r, e.scan behind req.delIe fuel = .ok r ∧ Removed req.content e r.1 := by
  rcases h with hquiet | ⟨hpos, hreq, hlen, hsome, hquiet⟩
  · obtain ⟨fuel, rfl⟩ : ∃ n, fuel = n + 1 := ⟨fuel - 1, by omega⟩
    exact ⟨_, scan_quiet hquiet, .of_quiet hquiet⟩
  · rw [delIe_of_lt hreq] at hquiet ⊢
    have hne : req.content ≠ [] := ne_nil_of_length_pos (by rw [length_content hreq.le]; exact hpos)
    have hle : (exciseAll req.content e.content).length ≤ e.content.length := length_exciseTimes_le _ _
    have hcontent := length_content hlen
    refine ⟨_, scan_inside_eq hne hlen hsome hquiet hfuel, ?_, ?_, fun hnone => ?_⟩
    · exact content_withContent (by omega)
    · change (exciseAll req.content e.content).length + e.content.length = _
      rw [content_withContent (by omega), hcontent]
      omega
    · rw [hnone] at hsome
      exact absurd hsome (by simp)

/-- A scan that takes out what it is to take out. -/
theorem Deletable.of_scan {r : CustomIe × Bool} (hr : e.scan behind req.delIe fuel = .ok r)
    (h : Removed req.content e r.1) : e.Deletable behind req := by
  rcases scan_ok hr with ⟨hquiet, -⟩ | ⟨m, hm⟩
  · exact .inl hquiet
  rcases Nat.eq_zero_or_pos e.ieLength with hempty | hfull
  · exact .inl fun k hk => by omega
  have hmax : maxIeSize = 256 := rfl
  have hdel := length_delIe req
  have hlength := h.ieLength
  have hshape : ∀ e : CustomIe, e.content.length = min e.ieLength maxIeSize := fun e => by
    rw [content, length_take, e.length_ieBuffer]
  have hpos : 0 < req.delIe.length := by
    by_contra hzero
    have hnil : req.delIe = [] := eq_nil_of_length_eq_zero (by omega)
    rw [hnil] at hr
    exact scan_nil_ne_ok hfull hr
  have hmul : req.delIe.length ≤ (m + 1) * req.delIe.length := Nat.le_mul_of_pos_left _ m.succ_pos
  have hne : r.1 ≠ e := fun heq => by
    rw [heq] at hm
    omega
  obtain ⟨k, hk⟩ : ∃ k, firstIn req.content e.content = some k :=
    Option.ne_none_iff_exists'.mp fun hnone => hne (h.same hnone)
  have hin := (firstIn_eq_some hk).2
  rw [hshape r.1, hshape e] at hlength
  rw [hshape req, hshape e] at hin
  have hlen : e.ieLength ≤ maxIeSize := by omega
  have hreq : req.ieLength < maxIeSize := by
    -- with all octets of a buffer given, one is left
    by_contra hover
    have hdelLen : req.delIe.length = 255 := by omega
    have hempty : r.1.content.length + req.content.length = e.content.length := by
      rw [h.content]
      have hnext := length_excise hk
      have hzero : excise req.content e.content = [] :=
        eq_nil_of_length_eq_zero (by rw [hshape req, hshape e] at hnext; omega)
      have hcontent : req.content ≠ [] := ne_nil_of_length_pos (by rw [hshape req]; omega)
      rw [exciseAll_of_some hcontent hk, hzero]
      rw [hzero] at hnext
      exact hnext
    rw [hshape, hshape req, hshape e] at hempty
    rw [hdelLen] at hm
    omega
  refine .inr ⟨by omega, hreq, hlen, by rw [hk]; rfl, ?_⟩
  have hcontent : req.content ≠ [] := ne_nil_of_length_pos (by rw [hshape req]; omega)
  have hrest : (exciseAll req.content e.content).length ≤ maxIeSize :=
    (length_exciseTimes_le _ _).trans (e.length_content_le.trans hlen)
  rw [delIe_of_lt hreq] at hr ⊢
  obtain ⟨fuel', b, hend⟩ := scan_inside hcontent hlen (by rw [hk]; rfl) hr
  rcases scan_ok hend with ⟨hquiet, -⟩ | ⟨m', hm'⟩
  · exact hquiet
  · have hleft : (e.withContent (exciseAll req.content e.content)).ieLength = r.1.content.length := by
      rw [h.content]
      rfl
    have hmul' : req.content.length ≤ (m' + 1) * req.content.length := Nat.le_mul_of_pos_left _ m'.succ_pos
    rw [hshape] at hleft
    have := hshape req
    dsimp only at hm'
    omega

end CustomIe

/-! ## The table -/

section Table

variable {fuel idx maxMgmtIe : ℕ} {behind : ℕ → ℕ → UInt8} {del : List UInt8} {l : List ℕ} {s s' : Deletion}

theorem nodup_visited (maxMgmtIe idx : ℕ) : (visited maxMgmtIe idx).Nodup := by
  unfold visited
  split_ifs
  · exact .nil
  · exact nodup_range
  · simp
  · simp

theorem deletionTurn_ok {i : ℕ} (h : deletionTurn fuel behind del idx s i = .ok s') :
    ∃ r, (s.mgmtIe i).scan (behind i) del fuel = .ok r ∧ s'.mgmtIe = Function.update s.mgmtIe i r.1 := by
  unfold deletionTurn at h
  cases hr : (s.mgmtIe i).scan (behind i) del fuel with
  | error x =>
    rw [hr] at h
    exact absurd h (by simp [Except.map])
  | ok r =>
    rw [hr] at h
    obtain rfl := Except.ok.inj h
    exact ⟨r, rfl, rfl⟩

/-- Each entry that is visited is scanned as it was. -/
theorem foldlM_deletionTurn_ok (hl : l.Nodup) (h : l.foldlM (deletionTurn fuel behind del idx) s = .ok s') :
    (∀ i ∈ l, ∃ r, (s.mgmtIe i).scan (behind i) del fuel = .ok r ∧ s'.mgmtIe i = r.1) ∧
      ∀ i ∉ l, s'.mgmtIe i = s.mgmtIe i := by
  induction l generalizing s with
  | nil =>
    obtain rfl := Except.ok.inj h
    exact ⟨by simp, fun _ _ => rfl⟩
  | cons a l ih =>
    obtain ⟨ha, hl⟩ := nodup_cons.mp hl
    rw [foldlM_cons] at h
    cases hturn : deletionTurn fuel behind del idx s a with
    | error x =>
      rw [hturn] at h
      exact absurd h (by simp [bind, Except.bind])
    | ok s₁ =>
      rw [hturn] at h
      obtain ⟨r, hr, hs₁⟩ := deletionTurn_ok hturn
      obtain ⟨hin, hout⟩ := ih hl h
      refine ⟨fun i hi => ?_, fun i hi => ?_⟩
      · rcases mem_cons.mp hi with rfl | hi
        · exact ⟨r, hr, by rw [hout i ha, hs₁, Function.update_self]⟩
        · have hne : i ≠ a := fun heq => ha (heq ▸ hi)
          have hsame : s₁.mgmtIe i = s.mgmtIe i := by rw [hs₁, Function.update_of_ne hne]
          exact hsame ▸ hin i hi
      · rw [mem_cons, not_or] at hi
        rw [hout i hi.2, hs₁, Function.update_of_ne hi.1]

theorem exists_foldlM_deletionTurn (hl : l.Nodup)
    (h : ∀ i ∈ l, ∃ r, (s.mgmtIe i).scan (behind i) del fuel = .ok r) :
    ∃ s', l.foldlM (deletionTurn fuel behind del idx) s = .ok s' := by
  induction l generalizing s with
  | nil => exact ⟨s, rfl⟩
  | cons a l ih =>
    obtain ⟨ha, hl⟩ := nodup_cons.mp hl
    obtain ⟨r, hr⟩ := h a mem_cons_self
    obtain ⟨s₁, hs₁⟩ : ∃ s₁, deletionTurn fuel behind del idx s a = .ok s₁ := by
      unfold deletionTurn
      rw [hr]
      exact ⟨_, rfl⟩
    obtain ⟨r', -, hupdate⟩ := deletionTurn_ok hs₁
    rw [foldlM_cons, hs₁]
    refine ih hl fun i hi => ?_
    have hne : i ≠ a := fun heq => ha (heq ▸ hi)
    rw [hupdate, Function.update_of_ne hne]
    exact h i (mem_cons_of_mem _ hi)

theorem customIoctlAutoDelete_ok {mgmtIe : ℕ → CustomIe} {req : CustomIe} {r : Deletion × Bool}
    (h : customIoctlAutoDelete fuel maxMgmtIe mgmtIe behind req idx = .ok r) :
    (∀ i ∈ visited maxMgmtIe idx, ∃ r', (mgmtIe i).scan (behind i) req.delIe fuel = .ok r' ∧ r.1.mgmtIe i = r'.1) ∧
      ∀ i ∉ visited maxMgmtIe idx, r.1.mgmtIe i = mgmtIe i := by
  unfold customIoctlAutoDelete at h
  dsimp only at h
  cases hfold : (visited maxMgmtIe idx).foldlM (deletionTurn fuel behind req.delIe idx)
      ⟨mgmtIe, if idx = customIeAutoIdxMask then 0 else req.ieIndex, false⟩ with
  | error x =>
    rw [hfold] at h
    exact absurd h (by simp [Except.map])
  | ok s =>
    rw [hfold] at h
    obtain rfl := Except.ok.inj h
    exact foldlM_deletionTurn_ok (nodup_visited _ _) hfold

theorem exists_customIoctlAutoDelete {mgmtIe : ℕ → CustomIe} {req : CustomIe}
    (h : ∀ i ∈ visited maxMgmtIe idx, ∃ r, (mgmtIe i).scan (behind i) req.delIe fuel = .ok r) :
    ∃ r, customIoctlAutoDelete fuel maxMgmtIe mgmtIe behind req idx = .ok r := by
  unfold customIoctlAutoDelete
  obtain ⟨s, hs⟩ : ∃ s, (visited maxMgmtIe idx).foldlM (deletionTurn fuel behind req.delIe idx)
      ⟨mgmtIe, if idx = customIeAutoIdxMask then 0 else req.ieIndex, false⟩ = .ok s :=
    exists_foldlM_deletionTurn (nodup_visited maxMgmtIe idx) h
  dsimp only
  rw [hs]
  exact ⟨_, rfl⟩

end Table

/-! ## The search -/

namespace IeSearch

variable {q : IeSearch}

/-- Without a slot the loop comes back to where it was. -/
theorem searchIe_eq_none (h : ¬q.HasEnd) (fuel index : ℕ) : q.searchIe fuel index = none := by
  unfold HasEnd at h
  push Not at h
  obtain ⟨hmax, hslot⟩ := h
  have hmin : min q.maxMgmtIe maxMgmtIeIndex = maxMgmtIeIndex := Nat.min_eq_right hmax.le
  induction fuel generalizing index with
  | zero => rfl
  | succ fuel ih =>
    have hfirst : (List.range (min q.maxMgmtIe maxMgmtIeIndex)).find? (fun i => index ≤ i ∧ q.sameMask i) = none :=
      find?_eq_none.mpr fun i hi => by
        have := (hslot i (hmin ▸ mem_range.mp hi)).1
        simp [this]
    have hsecond : (List.range (min q.maxMgmtIe maxMgmtIeIndex)).find? q.empty = none :=
      find?_eq_none.mpr fun i hi => (hslot i (hmin ▸ mem_range.mp hi)).2
    unfold searchIe
    rw [hfirst, hsecond]
    dsimp only
    rw [if_neg (by omega)]
    exact ih _

/-- **The search** ends exactly if there is a slot, or no more indexes than the table has. -/
theorem searchIe_isSome_iff : (∃ fuel, (q.customIoctlGetAutoidx fuel).isSome) ↔ q.HasEnd := by
  constructor
  · rintro ⟨fuel, h⟩
    by_contra hend
    rw [customIoctlGetAutoidx, searchIe_eq_none hend] at h
    exact absurd h (by simp)
  · intro hend
    refine ⟨1, ?_⟩
    unfold customIoctlGetAutoidx searchIe
    cases hfirst : (List.range (min q.maxMgmtIe maxMgmtIeIndex)).find? fun i => 0 ≤ i ∧ q.sameMask i with
    | some i => rfl
    | none =>
      cases hsecond : (List.range (min q.maxMgmtIe maxMgmtIeIndex)).find? q.empty with
      | some i => rfl
      | none =>
        have hmax : min q.maxMgmtIe maxMgmtIeIndex = q.maxMgmtIe := by
          rcases Nat.lt_or_ge maxMgmtIeIndex q.maxMgmtIe with hlt | hle
          · rcases hend with hle | ⟨i, hi, hslot⟩
            · omega
            · have hmem : i ∈ List.range (min q.maxMgmtIe maxMgmtIeIndex) := mem_range.mpr (by omega)
              have hno := find?_eq_none.mp hfirst i hmem
              have hno' := find?_eq_none.mp hsecond i hmem
              simp only [Nat.zero_le, true_and, decide_eq_true_eq] at hno
              exact absurd hslot (not_or.mpr ⟨hno, hno'⟩)
          · exact Nat.min_eq_left hle
        dsimp only
        rw [if_pos hmax]
        rfl

end IeSearch

/-- **Search and deletion** end, and the deletion takes out exactly what is inside, where the search has an end and each entry
that the deletion comes to is one that the octets can be taken out of. -/
theorem searches_and_deletes_iff (q : IeSearch) (idx : ℕ) :
    SearchesAndDeletes q idx ↔
      q.HasEnd ∧ ∀ i ∈ visited q.maxMgmtIe idx, (q.mgmtIe i).Deletable (q.behind i) q.req := by
  constructor
  · rintro ⟨hsearch, fuel, r, hr, hremoved, -⟩
    refine ⟨IeSearch.searchIe_isSome_iff.mp hsearch, fun i hi => ?_⟩
    obtain ⟨r', hscan, heq⟩ := (customIoctlAutoDelete_ok hr).1 i hi
    exact .of_scan hscan (heq ▸ hremoved i hi)
  · rintro ⟨hend, hdel⟩
    have hscan : ∀ i ∈ visited q.maxMgmtIe idx, ∃ r, (q.mgmtIe i).scan (q.behind i) q.req.delIe
        (((visited q.maxMgmtIe idx).map fun i => (q.mgmtIe i).ieLength).sum + 1) = .ok r ∧
          (q.mgmtIe i).Removed q.req.content r.1 := fun i hi =>
      (hdel i hi).scan (Nat.lt_succ_of_le (single_le_sum (fun _ _ => Nat.zero_le _) _ (mem_map_of_mem hi)))
    obtain ⟨r, hr⟩ := exists_customIoctlAutoDelete fun i hi => (hscan i hi).imp fun _ h => h.1
    obtain ⟨hin, hout⟩ := customIoctlAutoDelete_ok hr
    refine ⟨IeSearch.searchIe_isSome_iff.mpr hend, _, r, hr, fun i hi => ?_, hout⟩
    obtain ⟨r', hr', heq⟩ := hin i hi
    obtain ⟨r₁, hr₁, hremoved⟩ := hscan i hi
    obtain rfl := Except.ok.inj (hr₁.symm.trans hr')
    exact heq ▸ hremoved

/-- One entry with the octet 7, and zeros everywhere else. -/
def oneEntry : ℕ → CustomIe :=
  fun i => ⟨0, 1, if i = 0 then 1 else 0, fit (if i = 0 then [7] else []), length_fit _⟩

/-- A request without octets does not end where an entry has some. -/
theorem not_deletes_empty :
    ¬SearchesAndDeletes ⟨maxMgmtIeIndex, oneEntry, fun _ _ => 0, [], 1, ⟨0, 1, 0, fit [], length_fit _⟩, fun _ => 0⟩
      customIeAutoIdxMask := by
  rintro ⟨-, fuel, r, hr, -⟩
  obtain ⟨r', hscan, -⟩ := (customIoctlAutoDelete_ok hr).1 0 (by decide)
  exact CustomIe.scan_nil_ne_ok (e := oneEntry 0) (by decide) hscan

end WlanDriver.Misc
