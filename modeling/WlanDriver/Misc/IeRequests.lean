import Mathlib.Algebra.GroupWithZero.Nat
import Mathlib.Data.List.Nodup
import WlanDriver.Misc.CustomIe

/-!
# Requests for custom IEs

`wlan_misc_ioctl_custom_ie_list` reads the entries of a request one by one, changes the table of the interface, and writes
what the firmware is to be told over the request : the entry itself, or an entry as it has become, which may be longer, or
all entries that a deletion has changed. What it has passed (`passed`) is sent at the end, up to `cust_ie.len`.

`IeEntry.apply` says what one entry is to do to the masks and octets (`View`), `IeEntry.Fine` what its processing relies on.
A list can be processed in place (`CleanList`) if no entry but the last is longer behind its processing, deletes, or ends
the request, and no index is changed twice. `customIeList_clean` : the table is then what the entries make of it one after
another, and the command has what has changed.
-/

namespace WlanDriver.Misc

open Function List

/-- A `t_u16`, low octet first. -/
def le16 (n : ℕ) : List UInt8 :=
  [UInt8.ofNat n, UInt8.ofNat (n / 256)]

def u16 (b : List UInt8) (i : ℕ) : ℕ :=
  (b.getD i 0).toNat + 256 * (b.getD (i + 1) 0).toNat

/-- The octets of a `custom_ie`, as far as its length says. -/
def ieBytes (index mask : ℕ) (ie : List UInt8) : List UInt8 :=
  le16 index ++ le16 mask ++ le16 ie.length ++ ie

/-- An entry of a request. -/
structure IeEntry where
  index : ℕ
  mask : ℕ
  ie : List UInt8
  index_lt : index < 2 ^ 16
  mask_lt : mask < 2 ^ 16
  length_ie : ie.length ≤ maxIeSize

def IeEntry.bytes (e : IeEntry) : List UInt8 :=
  ieBytes e.index e.mask e.ie

def CustomIe.bytes (e : CustomIe) : List UInt8 :=
  le16 e.ieIndex ++ le16 e.mgmtSubtypeMask ++ le16 e.ieLength ++ e.content

/-- Octets are written over the beginning of a buffer. -/
def overlay (bs b : List UInt8) : List UInt8 :=
  bs ++ b.drop bs.length

/-- `memset` of `MAX_MGMT_IE_INDEX_TO_FW` entries. -/
def zeroed (b : List UInt8) : List UInt8 :=
  overlay (List.replicate (4 * 262) 0) b

/-- The loop over a request : what lies before `app_data_len`, and what lies from there on. -/
structure Work where
  mgmtIe : ℕ → CustomIe
  passed : List UInt8
  buf : List UInt8
  custLen : ℕ
  ioctlLen : ℤ

/-- What becomes of a round : the next one, a way out with a status, or a scan that leaves the table. -/
inductive Round
  | go (w : Work)
  | exit (w : Work) (ok : Bool)
  | broken

/-- What becomes of a request : a command, a way out without one, or a scan that leaves the table. -/
inductive Outcome
  | command (w : Work)
  | exit (w : Work) (ok : Bool)
  | broken

namespace Work

variable (max : ℕ) (free : ℕ → Bool) (w : Work)

def view : View :=
  fun i => (w.mgmtIe i).view

/-- `app_data_len` goes on by the length that the entry had. -/
def pass (n : ℕ) (buf : List UInt8) : Work :=
  { w with passed := w.passed ++ buf.take n, buf := buf.drop n }

/-- Automatic deletion. -/
def autoDeletion (len : ℕ) : Round :=
  match autoDelete max w.mgmtIe ((w.buf.drop 6).take (min (maxIeSize - 1) len)) with
  | none => .broken
  | some (mgmtIe, found, bits) =>
    if found then
      let es := ((List.range max).filter bits).flatMap fun i =>
        le16 i ++ le16 (mgmtIe i).mgmtSubtypeMask ++ le16 (mgmtIe i).ieLength ++ (mgmtIe i).content
      .go { w.pass (len + 6) (overlay es (zeroed w.buf)) with mgmtIe := mgmtIe, custLen := w.custLen + es.length }
    else .exit { w with mgmtIe := mgmtIe } false

/-- Automatic addition. -/
def autoAddition (mask len : ℕ) : Round :=
  match getAutoidx max free w.view mask (w.buf.drop 6) len with
  | .full => .exit w false
  | .duplicate => .exit w true
  | .at i =>
    let e := w.mgmtIe i
    let e' : CustomIe := ⟨i, mask % 0x8000, e.ieLength + len,
      fit (e.ieBuffer.take e.ieLength ++ (w.buf.drop 6).take len ++ e.ieBuffer.drop (e.ieLength + len)), length_fit _⟩
    let bytes := le16 i ++ le16 mask ++ le16 e'.ieLength ++ e'.content
    .go { w.pass (len + 6) (overlay bytes w.buf) with
      mgmtIe := update w.mgmtIe i e', custLen := w.custLen + (e'.ieLength + 6) }

/-- Octets are taken out of one entry; whether any were found is not seen. -/
def clearPart (index len : ℕ) : Round :=
  let e := w.mgmtIe index
  match e.deleteLoop ((w.buf.drop 6).take (min (maxIeSize - 1) len)) (e.ieLength + 1) with
  | none => .broken
  | some (e', _) =>
    .go { w.pass (len + 6) (overlay e'.bytes (zeroed w.buf)) with
      mgmtIe := update w.mgmtIe index e', custLen := w.custLen + (e'.ieLength + 6) }

/-- An entry is set, or cleared with no octets. One that is there already is taken out of the request. -/
def setEntry (index mask len : ℕ) : Round :=
  let e := w.mgmtIe index
  if free index then
    if mask ≠ 0 ∧ e.mgmtSubtypeMask = mask ∧ e.ieLength = len ∧ e.ieBuffer.take len = (w.buf.drop 6).take len then
      if w.ioctlLen ≤ 0 ∧ w.custLen = 0 then .exit w true
      else .go { w with buf := overlay ((w.buf.drop (len + 6)).take w.ioctlLen.toNat) w.buf }
    else
      .go { w.pass (len + 6) w.buf with
        mgmtIe := update w.mgmtIe index ⟨index, mask, len, fit (w.buf.drop 6), length_fit _⟩,
        custLen := w.custLen + (len + 6) }
  else .exit w false

/-- A round of the loop. -/
def round : Round :=
  let index := u16 w.buf 0
  let mask := u16 w.buf 2
  let len := u16 w.buf 4
  let w : Work := { w with ioctlLen := w.ioctlLen - (len + 6 : ℕ) }
  if index = 0xffff then
    if mask = 0 then w.autoDeletion max len else w.autoAddition max free mask len
  else if max ≤ index then .exit w false
  else if mask = 0 ∧ len ≠ 0 then w.clearPart index len
  else w.setEntry free index mask len

/-- The loop; a round takes six octets of the request at least. -/
def loop : ℕ → Work → Outcome
  | 0, w => .command w
  | fuel + 1, w =>
    if 0 < w.ioctlLen then
      match w.round max free with
      | .go w' => loop fuel w'
      | .exit w' ok => .exit w' ok
      | .broken => .broken
    else .command w

end Work

/-- The octets of a list of entries. -/
def encode (es : List IeEntry) : List UInt8 :=
  es.flatMap IeEntry.bytes

/-- A request before its loop; `tail` lies behind it. -/
def begin (mgmtIe : ℕ → CustomIe) (es : List IeEntry) (tail : List UInt8) : Work :=
  ⟨mgmtIe, [], encode es ++ tail, 0, (encode es).length⟩

/-- `wlan_misc_ioctl_custom_ie_list`, up to the command. -/
def customIeList (max : ℕ) (free : ℕ → Bool) (mgmtIe : ℕ → CustomIe) (es : List IeEntry) (tail : List UInt8) : Outcome :=
  Work.loop max free (encode es).length (begin mgmtIe es tail)

/-! ## What an entry is to do -/

namespace IeEntry

variable (max : ℕ) (free : ℕ → Bool) (v : View) (e : IeEntry)

/-- What a deletion takes out. -/
def del : List UInt8 :=
  e.ie.take (maxIeSize - 1)

/-- An entry without the octets. -/
def without (i : ℕ) : ℕ × List UInt8 :=
  ((v i).1, exciseTimes e.del ((v i).2.length + 1) (v i).2)

/-- What the entry makes of the table. -/
def apply : View :=
  if e.index = 0xffff then
    if e.mask = 0 then fun i => if i < max then e.without v i else v i
    else
      match getAutoidx max free v e.mask e.ie e.ie.length with
      | .at i => update v i (e.mask, (v i).2 ++ e.ie)
      | _ => v
  else if max ≤ e.index then v
  else if e.mask = 0 ∧ e.ie ≠ [] then update v e.index (e.without v e.index)
  else if free e.index then update v e.index (e.mask, e.ie)
  else v

/-- The indexes that the entry changes. -/
def touched : List ℕ :=
  (List.range max).filter fun i => v i ≠ e.apply max free v i

/-- What the processing of the entry relies on. -/
def Fine : Prop :=
  if e.index = 0xffff then
    if e.mask = 0 then
      e.ie ≠ [] ∧ (∀ i < max, StrayFree e.del ((v i).2.length + 1) (v i).2) ∧ ∀ i ∈ e.touched max free v, i < 16
    else
      e.ie ≠ [] ∧ e.mask < 0x8000 ∧ (∀ i < max, (v i).1 = e.mask → e.ie <+: (v i).2 → (v i).2 = e.ie) ∧
        ∀ i < max, getAutoidx max free v e.mask e.ie e.ie.length = .at i → free i
  else if max ≤ e.index then True
  else if e.mask = 0 ∧ e.ie ≠ [] then
    StrayFree e.del ((v e.index).2.length + 1) (v e.index).2 ∧ e.touched max free v ≠ []
  else free e.index → e.mask = 0 → v e.index ≠ (0, [])

/-- The entry ends the request. -/
def Exits : Prop :=
  if e.index = 0xffff then
    if e.mask = 0 then e.touched max free v = []
    else ∀ i < max, getAutoidx max free v e.mask e.ie e.ie.length ≠ .at i
  else max ≤ e.index ∨ ¬(e.mask = 0 ∧ e.ie ≠ []) ∧ ¬free e.index

/-- The entry is as long behind its processing as before, and does not end the request. -/
def Plain : Prop :=
  if e.index = 0xffff then
    e.mask ≠ 0 ∧ ∃ i < max, getAutoidx max free v e.mask e.ie e.ie.length = .at i ∧ (v i).2 = []
  else e.index < max ∧ ¬(e.mask = 0 ∧ e.ie ≠ []) ∧ free e.index

/-- What a list makes of the table, one entry after another. -/
def applyAll (es : List IeEntry) : View :=
  es.foldl (fun v e => e.apply max free v) v

/-- The list can be processed in place : `t` is what has changed before. -/
def CleanList : View → List ℕ → List IeEntry → Prop
  | _, _, [] => True
  | v, t, [e] => e.Fine max free v ∧ (∀ i ∈ e.touched max free v, i ∉ t) ∧ (e.Exits max free v → t = [])
  | v, t, e :: es => e.Fine max free v ∧ e.Plain max free v ∧ (∀ i ∈ e.touched max free v, i ∉ t) ∧
      CleanList (e.apply max free v) (t ++ e.touched max free v) es

end IeEntry

/-! ## Octets -/

theorem toNat_le16 {n : ℕ} (h : n < 2 ^ 16) : (UInt8.ofNat n).toNat + 256 * (UInt8.ofNat (n / 256)).toNat = n := by
  rw [UInt8.toNat_ofNat', UInt8.toNat_ofNat']
  omega

theorem u16_ieBytes {index mask : ℕ} {ie r : List UInt8} (hi : index < 2 ^ 16) (hm : mask < 2 ^ 16)
    (hl : ie.length < 2 ^ 16) : u16 (ieBytes index mask ie ++ r) 0 = index ∧ u16 (ieBytes index mask ie ++ r) 2 = mask ∧
      u16 (ieBytes index mask ie ++ r) 4 = ie.length :=
  ⟨toNat_le16 hi, toNat_le16 hm, toNat_le16 hl⟩

@[simp] theorem length_ieBytes (index mask : ℕ) (ie : List UInt8) : (ieBytes index mask ie).length = ie.length + 6 := by
  simp [ieBytes, le16]

/-- What is sent when the last entry has been written over. -/
theorem take_passed (p es x : List UInt8) (n : ℕ) :
    (p ++ (es ++ x).take n ++ (es ++ x).drop n).take (p.length + es.length) = p ++ es := by
  rw [append_assoc, take_append_drop, ← append_assoc, ← length_append, take_left]

theorem CustomIe.bytes_eq {c : CustomIe} (h : c.ieLength ≤ maxIeSize) :
    c.bytes = ieBytes c.ieIndex c.mgmtSubtypeMask c.content := by
  rw [CustomIe.bytes, ieBytes, CustomIe.length_content h]

/-! ## One entry -/

/-- What holds of a table. -/
structure TableOk (t : ℕ → CustomIe) : Prop where
  ieLength : ∀ i, (t i).ieLength ≤ maxIeSize
  named : ∀ i, (t i).ieLength ≠ 0 → (t i).mgmtSubtypeMask ≠ 0 ∧ (t i).ieIndex = i

/-- The entries of a table, as they are sent. -/
def sentBytes (v : View) (t : List ℕ) : List UInt8 :=
  t.flatMap fun i => ieBytes i (v i).1 (v i).2

/-- The loop, when entries have changed `t` and `rest` is still to come. -/
structure Sim (v : View) (t : List ℕ) (w : Work) (rest : List IeEntry) : Prop where
  ok : TableOk w.mgmtIe
  view : w.view = v
  passed : w.passed = sentBytes v t
  custLen : w.custLen = w.passed.length
  buf : ∃ tail, w.buf = encode rest ++ tail
  ioctlLen : w.ioctlLen = (encode rest).length

/-- The loop behind the last entry. -/
structure Done (v : View) (t : List ℕ) (w : Work) : Prop where
  ok : TableOk w.mgmtIe
  view : w.view = v
  sent : (w.passed ++ w.buf).take w.custLen = sentBytes v t
  ioctlLen : w.ioctlLen = 0

section Entry

variable {max : ℕ} {free : ℕ → Bool} {v : View} {t : List ℕ} {w : Work} {e : IeEntry} {rest : List IeEntry} {i : ℕ}

theorem TableOk.length_content (h : TableOk w.mgmtIe) (hv : w.view = v) (i : ℕ) :
    (v i).2.length = (w.mgmtIe i).ieLength := by
  rw [← hv]
  exact CustomIe.length_content (h.ieLength i)

/-- One entry of the table is replaced. -/
theorem TableOk.update (h : TableOk w.mgmtIe) {c : CustomIe} (hl : c.ieLength ≤ maxIeSize)
    (hn : c.ieLength ≠ 0 → c.mgmtSubtypeMask ≠ 0 ∧ c.ieIndex = i) : TableOk (update w.mgmtIe i c) := by
  refine ⟨fun j => ?_, fun j => ?_⟩
  · by_cases hj : j = i
    · rw [hj, update_self]
      exact hl
    · rw [update_of_ne hj]
      exact h.ieLength j
  · by_cases hj : j = i
    · rw [hj, update_self]
      exact hn
    · rw [update_of_ne hj]
      exact h.named j

theorem view_update (hv : w.view = v) (c : CustomIe) :
    (fun j => (update w.mgmtIe i c j).view) = update v i c.view := by
  funext j
  rw [← hv]
  by_cases hj : j = i
  · rw [hj, update_self, update_self]
  · rw [update_of_ne hj, update_of_ne hj]
    rfl

/-- What was sent before is still so. -/
theorem sentBytes_congr {v' : View} (h : ∀ i ∈ t, v' i = v i) : sentBytes v' t = sentBytes v t := by
  unfold sentBytes
  refine flatMap_congr fun i hi => ?_
  rw [h i hi]

theorem sentBytes_append (v : View) (t t' : List ℕ) : sentBytes v (t ++ t') = sentBytes v t ++ sentBytes v t' :=
  flatMap_append

theorem getAutoidx_lt {mask len : ℕ} {ie : List UInt8} (h : getAutoidx max free v mask ie len = .at i) : i < max := by
  unfold getAutoidx at h
  dsimp only at h
  split at h
  · rename_i j hj
    split_ifs at h
    obtain rfl := Slot.at.inj h
    exact mem_range.mp (mem_of_find?_eq_some hj)
  · split at h
    · rename_i j hj
      obtain rfl := Slot.at.inj h
      exact mem_range.mp (mem_of_find?_eq_some hj)
    · simp at h

/-- Indexes that the firmware does not have are not touched. -/
theorem apply_of_le (hi : max ≤ i) : e.apply max free v i = v i := by
  unfold IeEntry.apply
  split_ifs with h1 h2 h3 h4 h5
  · exact if_neg (Nat.not_lt.mpr hi)
  · cases hs : getAutoidx max free v e.mask e.ie e.ie.length with
    | full => rfl
    | duplicate => rfl
    | «at» j =>
      have := getAutoidx_lt hs
      exact update_of_ne (by omega) _ _
  · rfl
  · exact update_of_ne (by omega) _ _
  · exact update_of_ne (by omega) _ _
  · rfl

theorem mem_touched : i ∈ e.touched max free v ↔ e.apply max free v i ≠ v i := by
  unfold IeEntry.touched
  rw [mem_filter, mem_range, decide_eq_true_iff]
  refine ⟨fun h => Ne.symm h.2, fun h => ⟨?_, Ne.symm h⟩⟩
  by_contra hi
  exact h (apply_of_le (Nat.not_lt.mp hi))

theorem apply_of_not_mem (h : i ∉ e.touched max free v) : e.apply max free v i = v i := by
  rwa [mem_touched, not_not] at h

/-- The change of one index. -/
theorem touched_update {x : ℕ × List UInt8} (h : e.apply max free v = update v i x)
    (hne : v i ≠ x) : e.touched max free v = [i] := by
  have hnodup : (e.touched max free v).Nodup := nodup_range.filter _
  have hmem : ∀ j, j ∈ e.touched max free v ↔ j = i := fun j => by
    rw [mem_touched, h]
    by_cases hj : j = i
    · rw [hj, update_self]
      exact iff_of_true (Ne.symm hne) rfl
    · rw [update_of_ne hj]
      exact iff_of_false (fun hn => hn rfl) hj
  exact perm_singleton.mp ((perm_ext_iff_of_nodup hnodup (nodup_singleton i)).mpr fun j => by
    rw [hmem, mem_singleton])

/-- A round when its entry has been read. -/
structure Entered (v : View) (t : List ℕ) (w : Work) (e : IeEntry) (rest : List IeEntry) : Prop where
  ok : TableOk w.mgmtIe
  view : w.view = v
  passed : w.passed = sentBytes v t
  custLen : w.custLen = w.passed.length
  buf : ∃ tail, w.buf = e.bytes ++ (encode rest ++ tail)
  ioctlLen : w.ioctlLen = (encode rest).length

theorem Sim.round_eq (max : ℕ) (free : ℕ → Bool) (h : Sim v t w (e :: rest)) :
    ∃ w₁, Entered v t w₁ e rest ∧ w₁.mgmtIe = w.mgmtIe ∧ w.round max free =
      if e.index = 0xffff then
        if e.mask = 0 then w₁.autoDeletion max e.ie.length else w₁.autoAddition max free e.mask e.ie.length
      else if max ≤ e.index then .exit w₁ false
      else if e.mask = 0 ∧ e.ie ≠ [] then w₁.clearPart e.index e.ie.length
      else w₁.setEntry free e.index e.mask e.ie.length := by
  obtain ⟨tail, hbuf⟩ := h.buf
  have hbuf : w.buf = e.bytes ++ (encode rest ++ tail) := by
    rw [hbuf, encode, flatMap_cons, append_assoc]
    rfl
  have hlen : e.ie.length < 2 ^ 16 := lt_of_le_of_lt e.length_ie (by decide)
  obtain ⟨hi, hm, hl⟩ := u16_ieBytes (r := encode rest ++ tail) e.index_lt e.mask_lt hlen
  refine ⟨{ w with ioctlLen := w.ioctlLen - (e.ie.length + 6 : ℕ) },
    ⟨h.ok, h.view, h.passed, h.custLen, ⟨tail, hbuf⟩, ?_⟩, rfl, ?_⟩
  · change w.ioctlLen - (e.ie.length + 6 : ℕ) = _
    rw [h.ioctlLen, encode, flatMap_cons, length_append, IeEntry.bytes, length_ieBytes, ← encode]
    omega
  · unfold Work.round
    rw [hbuf, IeEntry.bytes, hi, hm, hl]
    simp only [ne_eq, length_eq_zero_iff]

namespace Entered

variable (h : Entered v t w e rest)
include h

theorem drop_six : ∃ r, w.buf.drop 6 = e.ie ++ r := by
  obtain ⟨tail, hbuf⟩ := h.buf
  exact ⟨encode rest ++ tail, by rw [hbuf]; rfl⟩

theorem take_ie : (w.buf.drop 6).take e.ie.length = e.ie := by
  obtain ⟨r, hr⟩ := h.drop_six
  rw [hr, take_left]

theorem take_del : (w.buf.drop 6).take (min (maxIeSize - 1) e.ie.length) = e.del := by
  obtain ⟨r, hr⟩ := h.drop_six
  rw [hr, take_append_of_le_length (Nat.min_le_right _ _), IeEntry.del]
  rw [← take_take, take_length]

/-- What lies behind the entry. -/
theorem drop_bytes : ∃ tail, w.buf.drop (e.ie.length + 6) = encode rest ++ tail := by
  obtain ⟨tail, hbuf⟩ := h.buf
  refine ⟨tail, ?_⟩
  rw [hbuf, ← length_ieBytes e.index e.mask e.ie]
  exact drop_left

theorem take_bytes : w.buf.take (e.ie.length + 6) = e.bytes := by
  obtain ⟨tail, hbuf⟩ := h.buf
  rw [hbuf, ← length_ieBytes e.index e.mask e.ie]
  exact take_left

theorem length_content (i : ℕ) : (v i).2.length = (w.mgmtIe i).ieLength :=
  h.ok.length_content h.view i

theorem view_at (i : ℕ) : (w.mgmtIe i).view = v i :=
  congrFun h.view i

/-- The octets of the entries that have changed before. -/
theorem sent_before (hne : ∀ i ∈ e.touched max free v, i ∉ t) :
    w.passed = sentBytes (e.apply max free v) t := by
  rw [h.passed]
  exact (sentBytes_congr fun i hi => apply_of_not_mem fun hm => hne i hm hi).symm

/-- The entry `i` is replaced, and sent as it is in the request. -/
theorem replace (c : CustomIe) (hl : c.ieLength ≤ maxIeSize)
    (hn : c.ieLength ≠ 0 → c.mgmtSubtypeMask ≠ 0 ∧ c.ieIndex = i)
    (happly : e.apply max free v = update v i c.view) (hv : v i ≠ c.view)
    (hne : ∀ i ∈ e.touched max free v, i ∉ t) :
    TableOk (update w.mgmtIe i c) ∧ (fun j => (update w.mgmtIe i c j).view) = e.apply max free v ∧
      w.passed ++ ieBytes i c.mgmtSubtypeMask c.content = sentBytes (e.apply max free v) (t ++ e.touched max free v) := by
  refine ⟨h.ok.update hl hn, (view_update h.view c).trans happly.symm, ?_⟩
  rw [h.sent_before hne, sentBytes_append, touched_update happly hv, happly]
  simp [sentBytes, CustomIe.view]

/-- A set entry is the same as before if its mask and octets are. -/
theorem same_iff (hm : e.mask ≠ 0) :
    (e.mask ≠ 0 ∧ (w.mgmtIe e.index).mgmtSubtypeMask = e.mask ∧ (w.mgmtIe e.index).ieLength = e.ie.length ∧
      (w.mgmtIe e.index).ieBuffer.take e.ie.length = (w.buf.drop 6).take e.ie.length) ↔ v e.index = (e.mask, e.ie) := by
  rw [h.take_ie, ← h.view_at, CustomIe.view, Prod.mk.injEq]
  constructor
  · rintro ⟨-, hmask, hlen, hbuf⟩
    exact ⟨hmask, by rw [CustomIe.content, hlen, hbuf]⟩
  · rintro ⟨hmask, hc⟩
    have hlen : (w.mgmtIe e.index).ieLength = e.ie.length := by
      rw [← CustomIe.length_content (h.ok.ieLength _), hc]
    refine ⟨hm, hmask, hlen, ?_⟩
    rw [← hlen]
    exact hc

end Entered

theorem length_encode_pos (hr : rest ≠ []) : 0 < (encode rest).length := by
  obtain ⟨e, es, rfl⟩ := exists_cons_of_ne_nil hr
  rw [encode, flatMap_cons, length_append, IeEntry.bytes, length_ieBytes]
  omega

theorem length_sentBytes_pos (ht : t ≠ []) : 0 < (sentBytes v t).length := by
  obtain ⟨i, is, rfl⟩ := exists_cons_of_ne_nil ht
  rw [sentBytes, flatMap_cons, length_append, length_ieBytes]
  omega

theorem apply_set (hauto : e.index ≠ 0xffff) (hlt : e.index < max) (hclear : ¬(e.mask = 0 ∧ e.ie ≠ []))
    (hfree : free e.index = true) : e.apply max free v = update v e.index (e.mask, e.ie) := by
  unfold IeEntry.apply
  rw [if_neg hauto, if_neg (Nat.not_le.mpr hlt), if_neg hclear, if_pos hfree]

/-- A round of a set entry, or the end of a request that changes nothing. -/
theorem Entered.setEntry (h : Entered v t w e rest) (hauto : e.index ≠ 0xffff) (hlt : e.index < max)
    (hclear : ¬(e.mask = 0 ∧ e.ie ≠ [])) (hfree : free e.index = true) (hfine : e.mask = 0 → v e.index ≠ (0, []))
    (hne : ∀ i ∈ e.touched max free v, i ∉ t) :
    (∃ w', w.setEntry free e.index e.mask e.ie.length = .go w' ∧
      Sim (e.apply max free v) (t ++ e.touched max free v) w' rest ∧
      (e.touched max free v = [] → w'.mgmtIe = w.mgmtIe)) ∨
    w.setEntry free e.index e.mask e.ie.length = .exit w true ∧ rest = [] ∧ t = [] ∧ e.touched max free v = [] := by
  have happly := apply_set (v := v) hauto hlt hclear hfree
  obtain ⟨tail, htail⟩ := h.drop_bytes
  unfold Work.setEntry
  rw [if_pos hfree]
  by_cases hsame : v e.index = (e.mask, e.ie)
  · have hm : e.mask ≠ 0 := fun hm => hfine hm (by
      rw [hsame, hm]
      exact congrArg _ (not_not.mp fun hie => hclear ⟨hm, hie⟩))
    have hv : e.apply max free v = v := by
      rw [happly, ← hsame, update_eq_self]
    have ht : e.touched max free v = [] := eq_nil_iff_forall_not_mem.mpr fun i hi => mem_touched.mp hi (by rw [hv])
    rw [if_pos ((h.same_iff hm).mpr hsame), ht, append_nil, hv]
    by_cases hend : w.ioctlLen ≤ 0 ∧ w.custLen = 0
    · refine Or.inr ⟨if_pos hend, ?_, ?_, rfl⟩
      · by_contra hr
        have := length_encode_pos hr
        have := h.ioctlLen
        omega
      · by_contra hr
        have hpos := length_sentBytes_pos (v := v) hr
        rw [← h.passed, ← h.custLen] at hpos
        omega
    · refine Or.inl ⟨_, if_neg hend, ⟨h.ok, h.view, h.passed, h.custLen, ?_, h.ioctlLen⟩, fun _ => rfl⟩
      refine ⟨w.buf.drop (encode rest).length, ?_⟩
      dsimp only
      rw [htail, h.ioctlLen, Int.toNat_natCast, take_left, overlay]
  · have hlen : e.ie.length ≤ (w.buf.drop 6).length := by
      obtain ⟨r, hr⟩ := h.drop_six
      rw [hr, length_append]
      omega
    let c : CustomIe := ⟨e.index, e.mask, e.ie.length, fit (w.buf.drop 6), length_fit _⟩
    have hc : c.content = e.ie := by
      change (fit (w.buf.drop 6)).take e.ie.length = _
      rw [take_fit hlen e.length_ie, h.take_ie]
    have hview : c.view = (e.mask, e.ie) := by
      rw [CustomIe.view, hc]
    have hn : c.ieLength ≠ 0 → c.mgmtSubtypeMask ≠ 0 ∧ c.ieIndex = e.index := fun hl =>
      ⟨fun hm => hclear ⟨hm, ne_nil_of_length_pos (Nat.pos_of_ne_zero hl)⟩, rfl⟩
    obtain ⟨hok, hv, hsent⟩ := h.replace c e.length_ie hn (happly.trans (by rw [hview])) (by rwa [hview]) hne
    have htouched := touched_update (happly.trans (by rw [hview])) (show v e.index ≠ c.view by rwa [hview])
    refine Or.inl ⟨_, if_neg fun hs => hsame ((h.same_iff hs.1).mp hs), ⟨hok, hv, ?_, ?_, ⟨tail, htail⟩, h.ioctlLen⟩,
      fun hnil => absurd (htouched.symm.trans hnil) (cons_ne_nil _ _)⟩
    · rw [← hsent, hc]
      exact congrArg _ h.take_bytes
    · change w.custLen + (e.ie.length + 6) = (w.passed ++ w.buf.take (e.ie.length + 6)).length
      rw [h.take_bytes, length_append, IeEntry.bytes, length_ieBytes, h.custLen]

/-- What lies behind the octets of an addition does not matter if no entry begins with them. -/
theorem getAutoidx_append {mask len : ℕ} {ie r : List UInt8}
    (h : ∀ i < max, (v i).1 = mask → ie <+: (v i).2 → (v i).2 = ie) :
    getAutoidx max free v mask (ie ++ r) len = getAutoidx max free v mask ie len := by
  have hsame : ∀ i < max, (v i).1 = mask → decide ((v i).2 ≠ [] ∧ (ie ++ r).take (v i).2.length = (v i).2) =
      decide ((v i).2 ≠ [] ∧ ie.take (v i).2.length = (v i).2) := by
    intro i hi hm
    refine decide_eq_decide.mpr (and_congr_right fun _ => ?_)
    rcases Nat.lt_or_ge ie.length (v i).2.length with hlt | hle
    · refine iff_of_false (fun heq => ?_) fun heq => ?_
      · have hp : ie <+: (v i).2 := by
          rw [← heq, take_append, take_of_length_le hlt.le]
          exact prefix_append _ _
        rw [h i hi hm hp] at hlt
        exact Nat.lt_irrefl _ hlt
      · rw [take_of_length_le hlt.le] at heq
        rw [← heq] at hlt
        exact Nat.lt_irrefl _ hlt
    · rw [take_append_of_le_length hle]
  have hfind : (List.range max).find? (fun i => (v i).1 ≠ 0xffff ∧ (v i).1 = mask ∧
        (decide ((v i).2 ≠ [] ∧ (ie ++ r).take (v i).2.length = (v i).2) ∨ (v i).2.length + len ≤ maxIeSize)) =
      (List.range max).find? (fun i => (v i).1 ≠ 0xffff ∧ (v i).1 = mask ∧
        (decide ((v i).2 ≠ [] ∧ ie.take (v i).2.length = (v i).2) ∨ (v i).2.length + len ≤ maxIeSize)) := by
    refine find?_congr_mem fun i hi => ?_
    rw [decide_eq_decide]
    refine and_congr_right fun _ => and_congr_right fun hm => ?_
    rw [hsame i (mem_range.mp hi) hm]
  unfold getAutoidx
  dsimp only
  rw [hfind]
  cases hf : (List.range max).find? (fun i => decide ((v i).1 ≠ 0xffff ∧ (v i).1 = mask ∧
      (decide ((v i).2 ≠ [] ∧ ie.take (v i).2.length = (v i).2) ∨ (v i).2.length + len ≤ maxIeSize))) with
  | none => rfl
  | some i =>
    obtain ⟨hi, -, hm, -⟩ := of_find?_decide hf
    have hs := hsame i (mem_range.mp hi) hm
    simp only [hs]

theorem getAutoidx_room {mask len : ℕ} {ie : List UInt8} (hl : len ≤ maxIeSize)
    (h : getAutoidx max free v mask ie len = .at i) : (v i).2.length + len ≤ maxIeSize := by
  unfold getAutoidx at h
  dsimp only at h
  split at h
  · rename_i j hj
    split_ifs at h with hs
    obtain rfl := Slot.at.inj h
    exact (of_find?_decide hj).2.2.2.resolve_left fun hd => hs hd
  · split at h
    · rename_i j hj
      obtain rfl := Slot.at.inj h
      rw [(of_find?_decide hj).2.1, length_nil]
      omega
    · simp at h

theorem apply_add (hauto : e.index = 0xffff) (hm : e.mask ≠ 0)
    (hs : getAutoidx max free v e.mask e.ie e.ie.length = .at i) :
    e.apply max free v = update v i (e.mask, (v i).2 ++ e.ie) := by
  unfold IeEntry.apply
  rw [if_pos hauto, if_neg hm, hs]

theorem apply_no_slot (hauto : e.index = 0xffff) (hm : e.mask ≠ 0)
    (hs : ∀ i, getAutoidx max free v e.mask e.ie e.ie.length ≠ .at i) : e.apply max free v = v := by
  unfold IeEntry.apply
  rw [if_pos hauto, if_neg hm]
  cases hslot : getAutoidx max free v e.mask e.ie e.ie.length with
  | full => rfl
  | duplicate => rfl
  | «at» i => exact absurd hslot (hs i)

theorem Entered.slot_eq (free : ℕ → Bool) (h : Entered v t w e rest)
    (hbeg : ∀ i < max, (v i).1 = e.mask → e.ie <+: (v i).2 → (v i).2 = e.ie) :
    getAutoidx max free w.view e.mask (w.buf.drop 6) e.ie.length = getAutoidx max free v e.mask e.ie e.ie.length := by
  obtain ⟨r, hr⟩ := h.drop_six
  rw [h.view, hr, getAutoidx_append hbeg]

/-- The addition to the entry `i`. -/
theorem Entered.autoAddition (h : Entered v t w e rest) (hauto : e.index = 0xffff) (hm : e.mask ≠ 0) (hie : e.ie ≠ [])
    (hbit : e.mask < 0x8000) (hbeg : ∀ i < max, (v i).1 = e.mask → e.ie <+: (v i).2 → (v i).2 = e.ie)
    (hs : getAutoidx max free v e.mask e.ie e.ie.length = .at i) (hne : ∀ i ∈ e.touched max free v, i ∉ t) :
    ∃ w' tail, w.autoAddition max free e.mask e.ie.length = .go w' ∧ TableOk w'.mgmtIe ∧
      w'.view = e.apply max free v ∧ w'.custLen = (sentBytes (e.apply max free v) (t ++ e.touched max free v)).length ∧
      w'.ioctlLen = (encode rest).length ∧
      w'.passed ++ w'.buf = sentBytes (e.apply max free v) (t ++ e.touched max free v) ++ tail ∧
      ((v i).2 = [] → Sim (e.apply max free v) (t ++ e.touched max free v) w' rest) ∧ e.touched max free v ≠ [] := by
  have happly := apply_add hauto hm hs
  have hroom := getAutoidx_room e.length_ie hs
  obtain ⟨tail, htail⟩ := h.drop_bytes
  have hslot := (h.slot_eq free hbeg).trans hs
  have hlen := h.length_content i
  have hold : (w.mgmtIe i).content = (v i).2 := congrArg Prod.snd (h.view_at i)
  let c : CustomIe := ⟨i, e.mask % 0x8000, (w.mgmtIe i).ieLength + e.ie.length,
    fit ((w.mgmtIe i).ieBuffer.take (w.mgmtIe i).ieLength ++ (w.buf.drop 6).take e.ie.length ++
      (w.mgmtIe i).ieBuffer.drop ((w.mgmtIe i).ieLength + e.ie.length)), length_fit _⟩
  have hmask : c.mgmtSubtypeMask = e.mask := Nat.mod_eq_of_lt hbit
  have hcl : c.ieLength ≤ maxIeSize := by
    change (w.mgmtIe i).ieLength + e.ie.length ≤ _
    omega
  have hc : c.content = (v i).2 ++ e.ie := by
    have hl : ((v i).2 ++ e.ie).length = (w.mgmtIe i).ieLength + e.ie.length := by
      rw [length_append, hlen]
    change (fit ((w.mgmtIe i).content ++ (w.buf.drop 6).take e.ie.length ++ _)).take _ = _
    rw [hold, h.take_ie]
    exact take_fit_append hl hcl
  have hview : c.view = (e.mask, (v i).2 ++ e.ie) := by
    rw [CustomIe.view, hmask, hc]
  have hv : v i ≠ c.view := by
    rw [hview]
    intro heq
    exact hie (self_eq_append_right.mp (congrArg Prod.snd heq))
  obtain ⟨hok, hvw, hsent⟩ := h.replace c hcl (fun _ => ⟨hmask ▸ hm, rfl⟩) (happly.trans (by rw [hview])) hv hne
  let bytes : List UInt8 := le16 i ++ le16 e.mask ++ le16 c.ieLength ++ c.content
  have hbytes : bytes = ieBytes i c.mgmtSubtypeMask c.content := by
    rw [ieBytes, CustomIe.length_content hcl, hmask]
  rw [← hbytes] at hsent
  let w' : Work := { w.pass (e.ie.length + 6) (overlay bytes w.buf) with
    mgmtIe := update w.mgmtIe i c, custLen := w.custLen + (c.ieLength + 6) }
  have hcust : w'.custLen = (w.passed ++ bytes).length := by
    rw [length_append, hbytes, length_ieBytes, CustomIe.length_content hcl, ← h.custLen]
  refine ⟨w', w.buf.drop bytes.length, ?_, hok, hvw, by rw [hcust, hsent], h.ioctlLen, ?_, fun hnil => ?_, ?_⟩
  · unfold Work.autoAddition
    rw [hslot]
  · change w.passed ++ (overlay bytes w.buf).take _ ++ (overlay bytes w.buf).drop _ = _
    rw [append_assoc, take_append_drop, overlay, ← append_assoc, hsent]
  · have hblen : bytes.length = e.ie.length + 6 := by
      rw [hbytes, length_ieBytes, hc, hnil, nil_append]
    have htake : (overlay bytes w.buf).take (e.ie.length + 6) = bytes := by
      rw [overlay, ← hblen, take_left]
    have hdrop : (overlay bytes w.buf).drop (e.ie.length + 6) = encode rest ++ tail := by
      rw [overlay, hblen, ← hblen, drop_left, hblen, htail]
    refine ⟨hok, hvw, ?_, ?_, ⟨tail, hdrop⟩, h.ioctlLen⟩
    · change w.passed ++ (overlay bytes w.buf).take (e.ie.length + 6) = _
      rw [htake, hsent]
    · rw [hcust]
      change _ = (w.passed ++ (overlay bytes w.buf).take (e.ie.length + 6)).length
      rw [htake]
  · rw [touched_update (happly.trans (by rw [hview])) hv]
    exact cons_ne_nil _ _

theorem del_ne_nil (hie : e.ie ≠ []) : e.del ≠ [] := by
  rw [IeEntry.del, ne_eq, take_eq_nil_iff]
  exact not_or.mpr ⟨by decide, hie⟩

/-- An entry loses octets if the word occurs in it. -/
theorem without_ne_iff (hie : e.ie ≠ []) : e.without v i ≠ v i ↔ (firstIn e.del (v i).2).isSome = true := by
  cases hf : firstIn e.del (v i).2 with
  | none =>
    refine iff_of_false (not_not.mpr ?_) Bool.false_ne_true
    rw [IeEntry.without, exciseTimes_of_none hf]
  | some k =>
    refine iff_of_true (fun heq => ?_) rfl
    exact exciseTimes_ne (del_ne_nil hie) hf _ (congrArg Prod.snd heq)

theorem apply_delete (hauto : e.index = 0xffff) (hm : e.mask = 0) :
    e.apply max free v i = if i < max then e.without v i else v i := by
  unfold IeEntry.apply
  rw [if_pos hauto, if_pos hm]

theorem mem_touched_delete (hauto : e.index = 0xffff) (hm : e.mask = 0) (hie : e.ie ≠ []) :
    i ∈ e.touched max free v ↔ i < max ∧ (firstIn e.del (v i).2).isSome = true := by
  rw [mem_touched, apply_delete hauto hm]
  by_cases hi : i < max
  · rw [if_pos hi, without_ne_iff hie]
    simp only [hi, true_and]
  · rw [if_neg hi]
    exact iff_of_false (fun hn => hn rfl) fun hn => hi hn.1

/-- What a scan makes of an entry. -/
theorem Entered.view_deleted (h : Entered v t w e rest) {r : CustomIe × Bool}
    (hd : CustomIe.Deleted e.del ((w.mgmtIe i).ieLength + 1) (w.mgmtIe i) r) : r.1.view = e.without v i := by
  rw [CustomIe.view, hd.mask, hd.content, IeEntry.without, h.length_content i, ← h.view_at i]
  rfl

/-- The entry is bounded and named behind a scan. -/
theorem Entered.ok_deleted (h : Entered v t w e rest) {del : List UInt8} {n : ℕ} {r : CustomIe × Bool}
    (hd : CustomIe.Deleted del n (w.mgmtIe i) r) :
    r.1.ieLength ≤ maxIeSize ∧ (r.1.ieLength ≠ 0 → r.1.mgmtSubtypeMask ≠ 0 ∧ r.1.ieIndex = i) := by
  refine ⟨hd.ieLength.trans (h.ok.ieLength i), fun hl => ?_⟩
  rw [hd.mask, hd.ieIndex]
  refine h.ok.named i fun hz => hl ?_
  have := hd.ieLength
  omega

theorem Entered.autoDeletion (h : Entered v t w e []) (hauto : e.index = 0xffff) (hm : e.mask = 0) (hie : e.ie ≠ [])
    (hstray : ∀ i < max, StrayFree e.del ((v i).2.length + 1) (v i).2) (hbits : ∀ i ∈ e.touched max free v, i < 16)
    (hne : ∀ i ∈ e.touched max free v, i ∉ t) :
    (∃ w', w.autoDeletion max e.ie.length = .go w' ∧ Done (e.apply max free v) (t ++ e.touched max free v) w') ∨
      w.autoDeletion max e.ie.length = .exit w false ∧ e.touched max free v = [] := by
  have hcontent : ∀ i, (w.mgmtIe i).content = (v i).2 := fun i => congrArg Prod.snd (h.view_at i)
  obtain ⟨u, found, bits, heq, had⟩ := exists_autoDelete (t := w.mgmtIe) (del_ne_nil hie) h.ok.ieLength
    fun i (hi : i < max) => by
      rw [hcontent, ← h.length_content]
      exact hstray i hi
  have hmem : ∀ i, i ∈ e.touched max free v ↔ i < max ∧ (firstIn e.del (w.mgmtIe i).content).isSome = true := fun i => by
    rw [hcontent, mem_touched_delete hauto hm hie]
  unfold Work.autoDeletion
  rw [h.take_del, heq]
  cases found with
  | false =>
    have hno : ∀ i < max, firstIn e.del (w.mgmtIe i).content = none := fun i hi => by
      rw [← Option.not_isSome_iff_eq_none]
      exact fun hs => Bool.false_ne_true (had.found_iff.mpr ⟨i, hi, hs⟩)
    have hu : u = w.mgmtIe := funext fun i => by
      rcases Nat.lt_or_ge i max with hi | hi
      · obtain ⟨b, hb⟩ := had.deleted i hi
        exact hb.same (hno i hi)
      · exact had.others i hi
    refine Or.inr ⟨by rw [hu]; rfl, eq_nil_iff_forall_not_mem.mpr fun i hi => ?_⟩
    obtain ⟨hlt, hs⟩ := (hmem i).mp hi
    rw [hno i hlt] at hs
    exact Bool.false_ne_true hs
  | true =>
    have hview : ∀ i, (u i).view = e.apply max free v i := fun i => by
      rw [apply_delete hauto hm]
      by_cases hi : i < max
      · obtain ⟨b, hb⟩ := had.deleted i hi
        rw [if_pos hi]
        exact h.view_deleted hb
      · rw [if_neg hi, had.others i (Nat.not_lt.mp hi), h.view_at]
    have hok : TableOk u := by
      have hboth : ∀ i, (u i).ieLength ≤ maxIeSize ∧ ((u i).ieLength ≠ 0 → (u i).mgmtSubtypeMask ≠ 0 ∧ (u i).ieIndex = i) :=
        fun i => by
          rcases Nat.lt_or_ge i max with hi | hi
          · obtain ⟨b, hb⟩ := had.deleted i hi
            exact h.ok_deleted hb
          · rw [had.others i hi]
            exact ⟨h.ok.ieLength i, h.ok.named i⟩
      exact ⟨fun i => (hboth i).1, fun i => (hboth i).2⟩
    have hfilter : (List.range max).filter bits = e.touched max free v := by
      unfold IeEntry.touched
      refine filter_congr fun i hi => ?_
      rw [Bool.eq_iff_iff, had.bits_iff, decide_eq_true_iff]
      refine Iff.trans ?_ ((hmem i).symm.trans (mem_touched.trans ne_comm))
      exact ⟨fun hb => ⟨hb.1, hb.2.2⟩, fun hb => ⟨hb.1, hbits i ((hmem i).mpr hb), hb.2⟩⟩
    have hes : (((List.range max).filter bits).flatMap fun i => le16 i ++ le16 (u i).mgmtSubtypeMask ++
        le16 (u i).ieLength ++ (u i).content) = sentBytes (e.apply max free v) (e.touched max free v) := by
      rw [hfilter, sentBytes]
      refine flatMap_congr fun i _ => ?_
      rw [ieBytes, ← hview, CustomIe.view, CustomIe.length_content (hok.ieLength i)]
    refine Or.inl ⟨_, rfl, hok, funext hview, ?_, h.ioctlLen⟩
    dsimp only
    rw [hes, h.custLen, sentBytes_append, ← h.sent_before hne]
    exact take_passed _ _ _ _

/-- Octets taken out of one entry, which is the last of the request. -/
theorem Entered.clearPart (h : Entered v t w e []) (hauto : e.index ≠ 0xffff) (hlt : e.index < max)
    (hclear : e.mask = 0 ∧ e.ie ≠ []) (hstray : StrayFree e.del ((v e.index).2.length + 1) (v e.index).2)
    (hchange : e.touched max free v ≠ []) (hne : ∀ i ∈ e.touched max free v, i ∉ t) :
    ∃ w', w.clearPart e.index e.ie.length = .go w' ∧ Done (e.apply max free v) (t ++ e.touched max free v) w' := by
  have happly : e.apply max free v = update v e.index (e.without v e.index) := by
    unfold IeEntry.apply
    rw [if_neg hauto, if_neg (Nat.not_le.mpr hlt), if_pos hclear]
  have hcontent : (w.mgmtIe e.index).content = (v e.index).2 := congrArg Prod.snd (h.view_at e.index)
  have hv : v e.index ≠ e.without v e.index := fun heq => hchange (eq_nil_iff_forall_not_mem.mpr fun i hi => by
    refine mem_touched.mp hi ?_
    rw [happly, ← heq, update_eq_self])
  obtain ⟨r, hr, hd⟩ := CustomIe.exists_deleteLoop (e := w.mgmtIe e.index) (del_ne_nil hclear.2) (h.ok.ieLength _)
    (Nat.lt_succ_self _) (by rw [hcontent, ← h.length_content]; exact hstray)
  have hview : r.1.view = e.without v e.index := h.view_deleted hd
  obtain ⟨hl, hn⟩ := h.ok_deleted hd
  obtain ⟨hok, hvw, hsent⟩ := h.replace r.1 hl hn (happly.trans (by rw [hview])) (by rwa [hview]) hne
  have hindex : r.1.ieIndex = e.index := by
    rw [hd.ieIndex]
    refine (h.ok.named _ fun hz => ?_).2
    have hnil : (v e.index).2 = [] := by
      rw [← length_eq_zero_iff, h.length_content, hz]
    have hsome := (without_ne_iff hclear.2).mp (Ne.symm hv)
    rw [hnil] at hsome
    exact Bool.false_ne_true hsome
  have hbytes : r.1.bytes = ieBytes e.index r.1.mgmtSubtypeMask r.1.content := by
    rw [CustomIe.bytes_eq hl, hindex]
  have hlen : r.1.ieLength + 6 = r.1.bytes.length := by
    rw [hbytes, length_ieBytes, CustomIe.length_content hl]
  unfold Work.clearPart
  rw [h.take_del]
  dsimp only
  rw [hr]
  refine ⟨_, rfl, hok, hvw, ?_, h.ioctlLen⟩
  dsimp only
  rw [← hsent, ← hbytes, hlen, h.custLen]
  exact take_passed _ _ _ _

theorem Sim.done (h : Sim v t w []) : Done v t w := by
  refine ⟨h.ok, h.view, ?_, h.ioctlLen⟩
  rw [h.custLen, take_left, h.passed]

/-- A round of an entry that is as long behind its processing : the next one, or the end of a request that changes
nothing. -/
theorem Sim.plain (h : Sim v t w (e :: rest)) (hf : e.Fine max free v) (hp : e.Plain max free v)
    (hne : ∀ i ∈ e.touched max free v, i ∉ t) :
    (∃ w', w.round max free = .go w' ∧ Sim (e.apply max free v) (t ++ e.touched max free v) w' rest ∧
        (e.touched max free v = [] → w'.mgmtIe = w.mgmtIe)) ∨
      ∃ w' ok, w.round max free = .exit w' ok ∧ w'.mgmtIe = w.mgmtIe ∧ rest = [] ∧ t = [] ∧
        e.touched max free v = [] := by
  obtain ⟨w₁, hw, hm, heq⟩ := h.round_eq max free
  rw [heq]
  unfold IeEntry.Plain at hp
  unfold IeEntry.Fine at hf
  by_cases hauto : e.index = 0xffff
  · rw [if_pos hauto] at hp hf ⊢
    obtain ⟨hmask, i, hi, hs, hnil⟩ := hp
    rw [if_neg hmask] at hf ⊢
    obtain ⟨hie, hbit, hbeg, -⟩ := hf
    obtain ⟨w', -, hgo, -, -, -, -, -, hsim, ht⟩ := hw.autoAddition hauto hmask hie hbit hbeg hs hne
    exact Or.inl ⟨w', hgo, hsim hnil, fun h => absurd h ht⟩
  · rw [if_neg hauto] at hp hf ⊢
    obtain ⟨hlt, hclear, hfree⟩ := hp
    rw [if_neg (Nat.not_le.mpr hlt), if_neg hclear] at hf ⊢
    rcases hw.setEntry hauto hlt hclear hfree (hf hfree) hne with ⟨w', hgo, hsim, hsame⟩ | ⟨hexit, hrest⟩
    · exact Or.inl ⟨w', hgo, hsim, fun ht => (hsame ht).trans hm⟩
    · exact Or.inr ⟨w₁, true, hexit, hm, hrest⟩

theorem touched_of_apply (h : e.apply max free v = v) : e.touched max free v = [] :=
  eq_nil_iff_forall_not_mem.mpr fun i hi => mem_touched.mp hi (by rw [h])

/-- The round of the last entry. -/
theorem Sim.last (h : Sim v t w [e]) (hf : e.Fine max free v) (hne : ∀ i ∈ e.touched max free v, i ∉ t)
    (hexit : e.Exits max free v → t = []) :
    (∃ w', w.round max free = .go w' ∧ Done (e.apply max free v) (t ++ e.touched max free v) w') ∨
      ∃ w' ok, w.round max free = .exit w' ok ∧ w'.mgmtIe = w.mgmtIe ∧ t = [] ∧ e.touched max free v = [] := by
  by_cases hp : e.Plain max free v
  · rcases h.plain hf hp hne with ⟨w', hgo, hsim, -⟩ | ⟨w', ok, hend, hm, -, ht⟩
    · exact Or.inl ⟨w', hgo, hsim.done⟩
    · exact Or.inr ⟨w', ok, hend, hm, ht⟩
  · obtain ⟨w₁, hw, hm, heq⟩ := h.round_eq max free
    rw [heq]
    unfold IeEntry.Plain at hp
    unfold IeEntry.Fine at hf
    unfold IeEntry.Exits at hexit
    by_cases hauto : e.index = 0xffff
    · rw [if_pos hauto] at hf hexit ⊢
      by_cases hmask : e.mask = 0
      · rw [if_pos hmask] at hf hexit ⊢
        rcases hw.autoDeletion hauto hmask hf.1 hf.2.1 hf.2.2 hne with hgo | ⟨hend, ht⟩
        · exact Or.inl hgo
        · exact Or.inr ⟨w₁, false, hend, hm, hexit ht, ht⟩
      · rw [if_neg hmask] at hf hexit ⊢
        obtain ⟨hie, hbit, hbeg, -⟩ := hf
        have hslot := hw.slot_eq free hbeg
        have hno : (∀ i, getAutoidx max free v e.mask e.ie e.ie.length ≠ .at i) → t = [] ∧ e.touched max free v = [] :=
          fun hs => ⟨hexit fun i _ => hs i, touched_of_apply (apply_no_slot hauto hmask hs)⟩
        cases hs : getAutoidx max free v e.mask e.ie e.ie.length with
        | full =>
          refine Or.inr ⟨w₁, false, ?_, hm, hno fun i hi => by simp [hs] at hi⟩
          rw [Work.autoAddition, hslot, hs]
        | duplicate =>
          refine Or.inr ⟨w₁, true, ?_, hm, hno fun i hi => by simp [hs] at hi⟩
          rw [Work.autoAddition, hslot, hs]
        | «at» i =>
          obtain ⟨w', tail, hgo, hok, hview, hcust, hlen, hsent, -, -⟩ :=
            hw.autoAddition hauto hmask hie hbit hbeg hs hne
          refine Or.inl ⟨w', hgo, hok, hview, ?_, hlen⟩
          rw [hsent, hcust, take_left]
    · rw [if_neg hauto] at hf hp hexit ⊢
      by_cases hmax : max ≤ e.index
      · rw [if_pos hmax]
        refine Or.inr ⟨w₁, false, rfl, hm, hexit (Or.inl hmax), touched_of_apply ?_⟩
        unfold IeEntry.apply
        rw [if_neg hauto, if_pos hmax]
      · have hlt := Nat.not_le.mp hmax
        rw [if_neg hmax] at hf ⊢
        by_cases hclear : e.mask = 0 ∧ e.ie ≠ []
        · rw [if_pos hclear] at hf ⊢
          exact Or.inl (hw.clearPart hauto hlt hclear hf.1 hf.2 hne)
        · have hfree : free e.index ≠ true := fun hfree => hp ⟨hlt, hclear, hfree⟩
          rw [if_neg hclear]
          refine Or.inr ⟨w₁, false, if_neg hfree, hm, hexit (Or.inr ⟨hclear, hfree⟩), touched_of_apply ?_⟩
          unfold IeEntry.apply
          rw [if_neg hauto, if_neg hmax, if_neg hclear, if_neg hfree]

/-! ## The list -/

theorem loop_done {fuel : ℕ} (h : w.ioctlLen = 0) : w.loop max free fuel = .command w := by
  cases fuel with
  | zero => rfl
  | succ n => exact if_neg (by omega)

theorem loop_succ {fuel : ℕ} (h : Sim v t w (e :: rest)) : w.loop max free (fuel + 1) =
    match w.round max free with
    | .go w' => w'.loop max free fuel
    | .exit w' ok => .exit w' ok
    | .broken => .broken := by
  have hpos := length_encode_pos (cons_ne_nil e rest)
  have hlen := h.ioctlLen
  exact if_pos (by omega)

/-- The indexes changed so far, behind one more entry. -/
theorem changed_append {v₀ : View} (hne : ∀ i ∈ e.touched max free v, i ∉ t) (ht : ∀ i, i ∈ t ↔ v i ≠ v₀ i) :
    i ∈ t ++ e.touched max free v ↔ e.apply max free v i ≠ v₀ i := by
  rw [mem_append]
  by_cases hi : i ∈ e.touched max free v
  · have hv : v i = v₀ i := by
      by_contra hv
      exact hne i hi ((ht i).mpr hv)
    rw [← hv]
    exact iff_of_true (Or.inr hi) (mem_touched.mp hi)
  · rw [apply_of_not_mem hi, ← ht i]
    exact or_iff_left hi

theorem nodup_touched (hne : ∀ i ∈ e.touched max free v, i ∉ t) (hn : t.Nodup) : (t ++ e.touched max free v).Nodup :=
  List.Nodup.append hn (nodup_range.filter _) fun i hi hj => hne i hj hi

/-- A list that can be processed in place : the command has what has changed, or nothing has. -/
theorem Sim.loop {v₀ : View} {es : List IeEntry} {fuel : ℕ} (h : Sim v t w es) (hes : es ≠ [])
    (hc : IeEntry.CleanList max free v t es) (hn : t.Nodup) (ht : ∀ i, i ∈ t ↔ v i ≠ v₀ i) (hfuel : es.length ≤ fuel) :
    (∃ w' t', w.loop max free fuel = .command w' ∧ Done (IeEntry.applyAll max free v es) t' w' ∧ t'.Nodup ∧
      ∀ i, i ∈ t' ↔ IeEntry.applyAll max free v es i ≠ v₀ i) ∨
    ∃ w' ok, w.loop max free fuel = .exit w' ok ∧ w'.mgmtIe = w.mgmtIe ∧ t = [] ∧
      IeEntry.applyAll max free v es = v := by
  induction es generalizing v t w fuel with
  | nil => exact absurd rfl hes
  | cons e es ih =>
    obtain ⟨fuel, rfl⟩ : ∃ n, fuel = n + 1 := ⟨fuel - 1, by rw [length_cons] at hfuel; omega⟩
    rw [loop_succ h]
    have hunchanged : ∀ {v : View}, e.touched max free v = [] → e.apply max free v = v := fun hnil =>
      funext fun i => apply_of_not_mem (by rw [hnil]; exact not_mem_nil)
    cases es with
    | nil =>
      obtain ⟨hf, hne, hexit⟩ := hc
      rcases h.last hf hne hexit with ⟨w', hgo, hdone⟩ | ⟨w', ok, hend, hm, hnil, htouched⟩
      · refine Or.inl ⟨w', _, ?_, hdone, nodup_touched hne hn, fun i => changed_append hne ht⟩
        rw [hgo]
        exact loop_done hdone.ioctlLen
      · refine Or.inr ⟨w', ok, by rw [hend], hm, hnil, hunchanged htouched⟩
    | cons e' es =>
      obtain ⟨hf, hp, hne, hrest⟩ := hc
      rcases h.plain hf hp hne with ⟨w', hgo, hsim, hsame⟩ | ⟨-, -, -, -, habs, -⟩
      · rw [hgo]
        dsimp only
        rcases ih hsim (cons_ne_nil _ _) hrest (nodup_touched hne hn) (fun i => changed_append hne ht)
          (Nat.le_of_succ_le_succ hfuel) with hdone | ⟨w'', ok, hend, hm, hnil, hall⟩
        · exact Or.inl hdone
        · obtain ⟨ht, htouched⟩ := append_eq_nil_iff.mp hnil
          refine Or.inr ⟨w'', ok, hend, hm.trans (hsame htouched), ht, ?_⟩
          exact hall.trans (hunchanged htouched)
      · exact absurd habs (cons_ne_nil _ _)

theorem length_le_encode (es : List IeEntry) : es.length ≤ (encode es).length := by
  induction es with
  | nil => exact le_rfl
  | cons e es ih =>
    rw [encode, flatMap_cons, length_append, IeEntry.bytes, length_ieBytes, length_cons, ← encode]
    omega

/-- A request that can be processed in place. -/
theorem customIeList_clean {mgmtIe : ℕ → CustomIe} {es : List IeEntry} (tail : List UInt8) (hok : TableOk mgmtIe)
    (hes : es ≠ []) (hc : IeEntry.CleanList max free (fun i => (mgmtIe i).view) [] es) :
    let v : View := fun i => (mgmtIe i).view
    (∃ w t, customIeList max free mgmtIe es tail = .command w ∧ Done (IeEntry.applyAll max free v es) t w ∧ t.Nodup ∧
      ∀ i, i ∈ t ↔ IeEntry.applyAll max free v es i ≠ v i) ∨
    ∃ w ok, customIeList max free mgmtIe es tail = .exit w ok ∧ w.mgmtIe = mgmtIe ∧
      IeEntry.applyAll max free v es = v := by
  have hbegin : Sim (fun i => (mgmtIe i).view) [] (begin mgmtIe es tail) es :=
    ⟨hok, rfl, rfl, rfl, ⟨tail, rfl⟩, rfl⟩
  rcases hbegin.loop hes hc nodup_nil (fun i => iff_of_false not_mem_nil fun hi => hi rfl)
    (length_le_encode es) with hdone | ⟨w, ok, hend, hm, -, hall⟩
  · exact Or.inl hdone
  · exact Or.inr ⟨w, ok, hend, hm, hall⟩

end Entry

end WlanDriver.Misc
