import WlanDriver.Join.RsnLookup

/-!
# The RSN element of an association request

`wlan_update_rsn_ie` works on a copy of the access point's RSN element in the command : it selects one pairwise cipher and
one AKM suite, sets the bits for management frame protection, and moves what is behind the capabilities over what is dropped.
A cipher and a suite are selected by the last octet of their selector, and are written with the selector `00-0F-AC`.

The list of PMKIDs is taken if all of it is there, its number is kept either way. The group management cipher is taken from
behind the list, or from behind the number if the list was not taken : then the number counts PMKIDs that are not copied
(`memcpy_ext` has no source), and the cipher goes where they would end.

The octets of the element stand from 2 on, as in a scanned one, and what is behind them is arbitrary.
`updateRsnIe_right_iff` says exactly when the reads and writes are inside and the result is the element that is due.
-/

namespace WlanDriver.Join

open Rsn List Mem

def preferenceTkip : ℕ := 1

def cipherPreference : List ℕ := [0, 0, 1, 0, 2]

def akmPreference : List ℕ := [0, 0, 1, 0, 0, 0, 2, 0, 5, 0, 0, 0, 0, 0, 0, 0, 0, 0, 4]

/-- `AssocAgentAuth_Open`, `AssocAgentAuth_Wpa3Sae`, `AssocAgentAuth_Owe` and `AssocAgentAuth_Auto`. -/
def authOpen : ℕ := 0
def authWpa3Sae : ℕ := 6
def authOwe : ℕ := 7
def authAuto : ℕ := 8

/-- `oui`, with the last octet that is selected. -/
def selector (id : UInt8) : List UInt8 :=
  [0x00, 0x0f, 0xac, id]

structure PmfCfg where
  mfpc : UInt8
  mfpr : UInt8

namespace PmfCfg

variable (c : PmfCfg)

/-- `pmf_mask`, of 16 bits. -/
def mask : ℕ :=
  ((c.mfpc.toNat <<< 7 ||| c.mfpr.toNat <<< 6) ||| 0xFF3F) % 2 ^ 16

/-- `PMF_MASK` of the mask is not 0. -/
def Masked : Prop :=
  c.mask &&& 0x00c0 ≠ 0
  deriving Decidable

/-- The capabilities with the bits of the mask. -/
def apply (cap : ℕ) : ℕ :=
  (cap ||| 0x00c0) &&& c.mask

/-- The bits of the mask are those that are configured. -/
def Bits : Prop :=
  (c.mask.testBit 7 = true ↔ c.mfpc ≠ 0) ∧ (c.mask.testBit 6 = true ↔ c.mfpr ≠ 0)

end PmfCfg

/-- The one with the greatest preference, the first of several : its preference and its last octet. -/
def selectBest (preference : List ℕ) (ids : List UInt8) : ℕ × UInt8 :=
  ids.foldl (fun s id => if s.1 < preference.getD id.toNat 0 then (preference.getD id.toNat 0, id) else s) (0, 0)

/-- An AKM suite of an authentication type. -/
def akmMatches (akmType : ℕ) (id : UInt8) : Bool :=
  akmType = authOpen && (id = 6 || id = 2) || akmType = authWpa3Sae && id = 8 || akmType = authOwe && id = 18

/-- The authentication type of an AKM suite. -/
def akmAuth (id : UInt8) : ℕ :=
  if id = 18 then authOwe else if id = 8 then authWpa3Sae else authOpen

/-- The copy of an element in the command : an association accepts lengths up to the size of `wpa_ie`. -/
structure RsnCopy where
  mem : Mem
  len : ℕ
  len_le : len ≤ 256

/-- What `wlan_update_rsn_ie` leaves, with what it has read and written, and whether it has copied from nowhere. -/
structure RsnUpdate where
  ok : Bool
  mem : Mem
  len : ℕ
  akmType : ℕ
  touched : List Span
  nullCopy : Bool

namespace RsnCopy

variable (x : RsnCopy) (c : PmfCfg) (akmType : ℕ)

def endPtr : ℕ :=
  2 + x.len

/-- `MLAN_STATUS_FAILURE`. -/
def refuse (touched : List Span) : RsnUpdate :=
  ⟨false, x.mem, x.len, akmType, touched, false⟩

/-- The last octets of the pairwise ciphers. The counter of 8 bits is enough for what fits into the element. -/
def cipherIds : List UInt8 :=
  (List.range (pairwiseCount x.mem)).map fun i => x.mem (10 + 4 * i + 3)

/-- The last octets of the AKM suites. -/
def akmIds : List UInt8 :=
  (List.range (akmCount x.mem)).map fun j => x.mem (akmAt x.mem + 2 + 4 * j + 3)

/-- The pairwise cipher that is selected. -/
def cipher : ℕ × UInt8 :=
  selectBest cipherPreference x.cipherIds

/-- The authentication type behind the ciphers : with TKIP only `AssocAgentAuth_Open` is left. -/
def wanted : ℕ :=
  if x.cipher.1 = preferenceTkip ∧ akmType = authAuto then authOpen else akmType

/-- The AKM suite that is selected, if there is one. -/
def akm : Option UInt8 :=
  if x.wanted akmType = authAuto then
    if (selectBest akmPreference x.akmIds).1 = 0 then none else some (selectBest akmPreference x.akmIds).2
  else x.akmIds.find? (akmMatches (x.wanted akmType))

/-- How many AKM suites are looked at. -/
def akmLooked : ℕ :=
  if x.wanted akmType = authAuto then akmCount x.mem
  else min (x.akmIds.findIdx (akmMatches (x.wanted akmType)) + 1) (akmCount x.mem)

/-- The authentication type behind the AKM suites. -/
def chosen (id : UInt8) : ℕ :=
  if x.wanted akmType = authAuto then akmAuth id else x.wanted akmType

/-- The capabilities that are received. -/
def cap : ℕ :=
  word x.mem (capAt x.mem)

/-- The management frame protection of the two does not go together. -/
def PmfRefused (id : UInt8) : Prop :=
  let mfpc := x.cap.testBit 7
  let mfpr := x.cap.testBit 6
  x.chosen akmType id = authWpa3Sae ∧ ¬mfpc ∧ ¬mfpr ∨ ¬mfpc ∧ ¬mfpr ∧ c.mfpr ≠ 0 ∨ ¬mfpc ∧ mfpr ∨ mfpc ∧ mfpr ∧ c.mfpc = 0
  deriving Decidable

def pmkidCount : ℕ :=
  if capAt x.mem + 4 ≤ x.endPtr then word x.mem (capAt x.mem + 2) else 0

def pmkidListPtr : Option ℕ :=
  if capAt x.mem + 4 ≤ x.endPtr ∧ x.pmkidCount ≠ 0 ∧ capAt x.mem + 4 + 16 * x.pmkidCount ≤ x.endPtr then
    some (capAt x.mem + 4)
  else none

/-- Behind the number and the list, as far as they were taken. -/
def behindPmkids : ℕ :=
  if capAt x.mem + 4 ≤ x.endPtr then
    if x.pmkidListPtr.isSome then capAt x.mem + 4 + 16 * x.pmkidCount else capAt x.mem + 4
  else capAt x.mem + 2

/-- `group_mgmt_cipher_suite_ptr`. -/
def groupMgmtPtr : Option ℕ :=
  if x.behindPmkids + 4 ≤ x.endPtr ∧ c.Masked then some x.behindPmkids else none

/-- `end_ptr - ptr`, without a sign. -/
def room (ptr : ℕ) : ℕ :=
  (2 ^ 32 + x.endPtr - ptr) % 2 ^ 32

/-- The first part of the new element : the capabilities are set where they are, and moved. -/
def composeHead (cipherId akmId : UInt8) : Mem :=
  let m := x.mem.write (capAt x.mem) (Tlv.le16 (c.apply x.cap))
  let m := (((m.write 8 (Tlv.le16 1)).write 10 (selector cipherId)).write 14 (Tlv.le16 1)).write 16 (selector akmId)
  m.write 20 (Tlv.le16 (word m (capAt x.mem)))

end RsnCopy

/-- `memcpy_ext` : without a source nothing is copied. -/
def memcpyExt (m : Mem) (dst : ℕ) (src : Option ℕ) (num size : ℕ) : Mem :=
  match src with
  | none => m
  | some src => m.memcpy dst src (min num size)

/-- What `memcpy_ext` reads and writes. -/
def memcpyExtSpans (dst : ℕ) (src : Option ℕ) (num size : ℕ) : List Span :=
  match src with
  | none => []
  | some src => [⟨src, min num size⟩, ⟨dst, min num size⟩]

namespace RsnCopy

variable (x : RsnCopy) (c : PmfCfg) (akmType : ℕ)

/-- What is behind the capabilities of the new element : the memory, where it ends, what is touched, and whether a copy has
no source. -/
def composeTail (m : Mem) : Mem × ℕ × List Span × Bool :=
  if x.pmkidListPtr.isSome ∨ (x.groupMgmtPtr c).isSome then
    let n := x.pmkidCount
    let m := m.write 22 (Tlv.le16 n)
    let m := if n ≠ 0 then memcpyExt m 24 x.pmkidListPtr (16 * n) (x.room 24) else m
    let spans := ⟨22, 2⟩ :: if n ≠ 0 then memcpyExtSpans 24 x.pmkidListPtr (16 * n) (x.room 24) else []
    let ptr := 24 + 16 * n
    let null := n ≠ 0 ∧ x.pmkidListPtr.isNone
    match x.groupMgmtPtr c with
    | none => (m, ptr, spans, null)
    | some group =>
      (memcpyExt m ptr (some group) 4 (x.room ptr), ptr + 4, spans ++ memcpyExtSpans ptr (some group) 4 (x.room ptr), null)
  else (m, 22, [], false)

def updateRsnIe : RsnUpdate :=
  let m := x.mem
  if x.len < 20 then x.refuse akmType []
  else if pairwiseCount m = 0 ∨ x.endPtr ≤ akmAt m then x.refuse akmType [⟨8, 2⟩]
  else
    let touched : List Span := ⟨8, 2⟩ :: (List.range (pairwiseCount m)).map fun i => ⟨10 + 4 * i + 3, 1⟩
    if x.cipher.1 = 0 then x.refuse akmType touched
    else if x.cipher.1 = preferenceTkip ∧ (akmType = authWpa3Sae ∨ akmType = authOwe) then x.refuse akmType touched
    else
      let touched := touched ++ [(⟨akmAt m, 2⟩ : Span)]
      if akmCount m = 0 ∨ x.endPtr < capAt m + 2 then x.refuse (x.wanted akmType) touched
      else
        let touched := touched ++ (List.range (x.akmLooked akmType)).map fun j => ⟨akmAt m + 2 + 4 * j + 3, 1⟩
        match x.akm akmType with
        | none => x.refuse (x.wanted akmType) touched
        | some akmId =>
          let touched := touched ++ [(⟨capAt m, 2⟩ : Span)]
          if x.PmfRefused c akmType akmId then x.refuse (x.chosen akmType akmId) touched
          else
            let pmkid := if capAt m + 4 ≤ x.endPtr then [(⟨capAt m + 2, 2⟩ : Span)] else []
            let t := x.composeTail c (x.composeHead c x.cipher.2 akmId)
            ⟨true, t.1, t.2.1 - 2, x.chosen akmType akmId,
              touched ++ pmkid ++ [(⟨8, 2⟩ : Span), ⟨10, 4⟩, ⟨14, 2⟩, ⟨16, 4⟩, ⟨20, 2⟩] ++ t.2.2.1, t.2.2.2⟩

/-- The use in `wlan_cmd_802_11_associate` : a command with the element, or none. -/
def associate : Option (List UInt8) :=
  let u := x.updateRsnIe c akmType
  if u.ok then some (u.mem.read 2 u.len) else none

/-! ## What is due -/

/-- The pairwise ciphers that the access point offers. -/
def Offers (suite : List UInt8) : Prop :=
  ∃ i < pairwiseCount x.mem, suite = x.mem.read (10 + 4 * i) 4

/-- The AKM suites that the access point offers. -/
def OffersAkm (suite : List UInt8) : Prop :=
  ∃ j < akmCount x.mem, suite = akmSuite x.mem j

/-- All PMKIDs that are counted are there. -/
def PmkidsWhole : Prop :=
  x.pmkidCount ≠ 0 → capAt x.mem + 4 + 16 * x.pmkidCount ≤ x.endPtr
  deriving Decidable

/-- The PMKIDs of the element. -/
def pmkids : List UInt8 :=
  if x.PmkidsWhole then x.mem.read (capAt x.mem + 4) (16 * x.pmkidCount) else []

/-- The group management cipher of the element, if protection is configured. -/
def groupMgmt : List UInt8 :=
  let a := capAt x.mem + 4 + 16 * x.pmkidCount
  if x.PmkidsWhole ∧ capAt x.mem + 4 ≤ x.endPtr ∧ a + 4 ≤ x.endPtr ∧ (c.mfpc ≠ 0 ∨ c.mfpr ≠ 0) then x.mem.read a 4 else []

/-- What the new element has behind the capabilities. -/
def tail : List UInt8 :=
  if x.pmkids = [] ∧ x.groupMgmt c = [] then []
  else Tlv.le16 x.pmkidCount ++ (x.pmkids ++ x.groupMgmt c)

/-- The new element : one pairwise cipher and one AKM suite that were offered, the bits as configured, all else as received. -/
structure Composed (u : RsnUpdate) : Prop where
  version : u.mem.read 2 6 = x.mem.read 2 6
  pairwiseOne : word u.mem 8 = 1
  pairwise : x.Offers (u.mem.read 10 4)
  akmOne : word u.mem 14 = 1
  akm : x.OffersAkm (u.mem.read 16 4)
  mfpc : (word u.mem 20).testBit 7 = true ↔ c.mfpc ≠ 0
  mfpr : (word u.mem 20).testBit 6 = true ↔ c.mfpr ≠ 0
  cap : ∀ i, i ≠ 7 → i ≠ 6 → (word u.mem 20).testBit i = x.cap.testBit i
  tail : u.mem.read 22 (u.len - 20) = x.tail c
  len : u.len = 20 + (x.tail c).length
  len_le : u.len ≤ x.len

/-- `wlan_update_rsn_ie` stays inside, copies from somewhere, and gives the element that is due, or no command is sent. -/
structure Right : Prop where
  inside : ∀ r ∈ (x.updateRsnIe c akmType).touched, r.Inside 2 x.len
  source : (x.updateRsnIe c akmType).nullCopy = false
  composed : (x.updateRsnIe c akmType).ok = true → x.Composed c (x.updateRsnIe c akmType)
  refused : (x.updateRsnIe c akmType).ok = false → x.associate c akmType = none

/-- The pairwise ciphers are accepted. -/
structure CipherAccepted : Prop where
  len : 20 ≤ x.len
  count : pairwiseCount x.mem ≠ 0
  list : akmAt x.mem < x.endPtr
  preference : x.cipher.1 ≠ 0
  tkip : ¬(x.cipher.1 = preferenceTkip ∧ (akmType = authWpa3Sae ∨ akmType = authOwe))

/-- The element is accepted, with an AKM suite. -/
structure Accepted (akmId : UInt8) : Prop where
  ciphers : x.CipherAccepted akmType
  count : akmCount x.mem ≠ 0
  list : capAt x.mem + 2 ≤ x.endPtr
  akm : x.akm akmType = some akmId
  pmf : ¬x.PmfRefused c akmType akmId

/-- The element ends with its AKM count, or behind it; what is selected of an element that is accepted is offered, its PMKIDs
are all there or nothing is taken from behind their number, and the bits of the mask are the ones configured. -/
structure Fits : Prop where
  count : x.CipherAccepted akmType → akmAt x.mem + 2 ≤ x.endPtr
  cipher : ∀ id, x.Accepted c akmType id → x.Offers (selector x.cipher.2)
  akm : ∀ id, x.Accepted c akmType id → x.OffersAkm (selector id)
  pmkids : ∀ id, x.Accepted c akmType id → x.PmkidsWhole ∨ x.groupMgmtPtr c = none
  bits : ∀ id, x.Accepted c akmType id → c.Bits

end RsnCopy

/-! ## Numbers and bits -/

theorem word_lt (m : Mem) (a : ℕ) : word m a < 2 ^ 16 :=
  Tlv.get16_lt _

theorem word_write (m : Mem) (a : ℕ) {n : ℕ} (h : n < 2 ^ 16) : word (m.write a (Tlv.le16 n)) a = n := by
  have hread : (m.write a (Tlv.le16 n)).read a 2 = Tlv.le16 n := read_write m a (Tlv.le16 n)
  unfold word
  rw [hread, ← append_nil (Tlv.le16 n)]
  exact Tlv.get16_le16 h []

theorem word_write_of_disjoint {m : Mem} {a b : ℕ} {bs : List UInt8} (h : b + 2 ≤ a ∨ a + bs.length ≤ b) :
    word (m.write a bs) b = word m b := by
  unfold word
  rw [read_write_of_disjoint h]

namespace PmfCfg

variable (c : PmfCfg)

theorem mask_lt : c.mask < 2 ^ 16 :=
  Nat.mod_lt _ (by decide)

theorem apply_lt (cap : ℕ) : c.apply cap < 2 ^ 16 :=
  lt_of_le_of_lt Nat.and_le_right c.mask_lt

theorem testBit_mask {i : ℕ} (hi : i < 16) (h7 : i ≠ 7) (h6 : i ≠ 6) : c.mask.testBit i = true := by
  unfold mask
  rw [Nat.testBit_mod_two_pow, Nat.testBit_or]
  have hbit : (0xFF3F : ℕ).testBit i = true :=
    (by decide : ∀ i < 16, i ≠ 7 → i ≠ 6 → (0xFF3F : ℕ).testBit i = true) i hi h7 h6
  simp [hi, hbit]

/-- The two bits become those of the mask. -/
theorem testBit_apply_pmf (cap : ℕ) {i : ℕ} (h : i = 7 ∨ i = 6) : (c.apply cap).testBit i = c.mask.testBit i := by
  unfold apply
  rw [Nat.testBit_and, Nat.testBit_or]
  have hbit : (0x00c0 : ℕ).testBit i = true := by
    rcases h with rfl | rfl <;> decide
  simp [hbit]

theorem testBit_pmf_mask {i : ℕ} (h7 : i ≠ 7) (h6 : i ≠ 6) : (0x00c0 : ℕ).testBit i = false := by
  rcases Nat.lt_or_ge i 8 with hi | hi
  · exact (by decide : ∀ i < 8, i ≠ 7 → i ≠ 6 → (0x00c0 : ℕ).testBit i = false) i hi h7 h6
  · exact Nat.testBit_lt_two_pow (lt_of_lt_of_le (by decide) (Nat.pow_le_pow_right (by decide) hi))

/-- All others stay. -/
theorem testBit_apply {cap : ℕ} (hcap : cap < 2 ^ 16) {i : ℕ} (h7 : i ≠ 7) (h6 : i ≠ 6) :
    (c.apply cap).testBit i = cap.testBit i := by
  unfold apply
  rw [Nat.testBit_and, Nat.testBit_or]
  rcases Nat.lt_or_ge i 16 with hi | hi
  · simp [testBit_pmf_mask h7 h6, c.testBit_mask hi h7 h6]
  · have hhigh : cap.testBit i = false := Nat.testBit_lt_two_pow (lt_of_lt_of_le hcap (Nat.pow_le_pow_right (by decide) hi))
    have hmask : c.mask.testBit i = false :=
      Nat.testBit_lt_two_pow (lt_of_lt_of_le c.mask_lt (Nat.pow_le_pow_right (by decide) hi))
    simp [hhigh, hmask]

theorem masked_iff_testBit : c.Masked ↔ c.mask.testBit 7 = true ∨ c.mask.testBit 6 = true := by
  unfold Masked
  constructor
  · intro hne
    by_contra hnone
    obtain ⟨h7, h6⟩ := not_or.mp hnone
    refine hne (Nat.eq_of_testBit_eq fun i => ?_)
    rw [Nat.testBit_and, Nat.zero_testBit]
    by_cases h7i : i = 7
    · subst h7i
      simp [h7]
    · by_cases h6i : i = 6
      · subst h6i
        simp [h6]
      · simp [testBit_pmf_mask h7i h6i]
  · intro hbits hzero
    have hno : ∀ i, (c.mask &&& 0x00c0).testBit i = false := fun i => by rw [hzero, Nat.zero_testBit]
    rcases hbits with h7 | h6
    · have := hno 7
      rw [Nat.testBit_and, h7] at this
      exact absurd this (by decide)
    · have := hno 6
      rw [Nat.testBit_and, h6] at this
      exact absurd this (by decide)

/-- The mask is not empty where protection is configured. -/
theorem masked_iff (h : c.Bits) : c.Masked ↔ c.mfpc ≠ 0 ∨ c.mfpr ≠ 0 := by
  rw [masked_iff_testBit, h.1, h.2]

end PmfCfg

/-! ## Composing -/

namespace RsnCopy

variable {x : RsnCopy} {c : PmfCfg} {akmType : ℕ} {id : UInt8}

/-- An element that is accepted has room for the first part of the new one in front of what is moved. -/
theorem Accepted.capAt_le (h : x.Accepted c akmType id) : 20 ≤ capAt x.mem := by
  have hpair := Nat.pos_of_ne_zero h.ciphers.count
  have hakm := Nat.pos_of_ne_zero h.count
  unfold capAt akmAt
  omega

theorem Accepted.end_le (h : x.Accepted c akmType id) : 22 ≤ x.endPtr := by
  have := h.capAt_le
  have := h.list
  omega

/-- The first part of the new element, and what is not touched. -/
structure HeadOf (x : RsnCopy) (c : PmfCfg) (cipherId akmId : UInt8) (m : Mem) : Prop where
  version : m.read 2 6 = x.mem.read 2 6
  pairwiseOne : word m 8 = 1
  pairwise : m.read 10 4 = selector cipherId
  akmOne : word m 14 = 1
  akm : m.read 16 4 = selector akmId
  cap : word m 20 = c.apply x.cap

theorem headOf_composeHead (hcap : 20 ≤ capAt x.mem) (cipherId akmId : UInt8) :
    x.HeadOf c cipherId akmId (x.composeHead c cipherId akmId) := by
  have hsel : ∀ id, (selector id).length = 4 := fun _ => rfl
  have h16 : ∀ n, (Tlv.le16 n).length = 2 := fun _ => rfl
  unfold composeHead
  dsimp only
  constructor
  · rw [read_write_of_disjoint (.inl (by decide)), read_write_of_disjoint (.inl (by decide)),
      read_write_of_disjoint (.inl (by decide)), read_write_of_disjoint (.inl (by decide)),
      read_write_of_disjoint (.inl (by decide)), read_write_of_disjoint (.inl (by omega))]
  · rw [word_write_of_disjoint (.inl (by decide)), word_write_of_disjoint (.inl (by decide)),
      word_write_of_disjoint (.inl (by decide)), word_write_of_disjoint (.inl (by decide))]
    exact word_write _ _ (by decide)
  · rw [read_write_of_disjoint (.inl (by decide)), read_write_of_disjoint (.inl (by decide)),
      read_write_of_disjoint (.inl (by decide))]
    exact read_write _ 10 (selector cipherId)
  · rw [word_write_of_disjoint (.inl (by decide)), word_write_of_disjoint (.inl (by decide))]
    exact word_write _ _ (by decide)
  · rw [read_write_of_disjoint (.inl (by decide))]
    exact read_write _ 16 (selector akmId)
  · rw [word_write _ _ (word_lt _ _), word_write_of_disjoint (.inr (by rw [hsel]; omega)),
      word_write_of_disjoint (.inr (by rw [h16]; omega)), word_write_of_disjoint (.inr (by rw [hsel]; omega)),
      word_write_of_disjoint (.inr (by rw [h16]; omega))]
    exact word_write _ _ (c.apply_lt _)

/-- What stands behind the capabilities is not touched by the first part. -/
theorem read_composeHead (hcap : 20 ≤ capAt x.mem) (cipherId akmId : UInt8) {a n : ℕ} (ha : capAt x.mem + 2 ≤ a) :
    (x.composeHead c cipherId akmId).read a n = x.mem.read a n := by
  have hsel : ∀ id, (selector id).length = 4 := fun _ => rfl
  have h16 : ∀ n, (Tlv.le16 n).length = 2 := fun _ => rfl
  unfold composeHead
  dsimp only
  rw [read_write_of_disjoint (.inr (by rw [h16]; omega)), read_write_of_disjoint (.inr (by rw [hsel]; omega)),
    read_write_of_disjoint (.inr (by rw [h16]; omega)), read_write_of_disjoint (.inr (by rw [hsel]; omega)),
    read_write_of_disjoint (.inr (by rw [h16]; omega)), read_write_of_disjoint (.inr (by rw [h16]; omega))]

/-- The first part is what stands in front of 22. -/
theorem HeadOf.congr {cipherId akmId : UInt8} {m m' : Mem} (h : x.HeadOf c cipherId akmId m)
    (heq : ∀ a < 22, m' a = m a) : x.HeadOf c cipherId akmId m' := by
  have hread : ∀ a n, a + n ≤ 22 → m'.read a n = m.read a n := fun a n hle =>
    read_congr fun i hi => heq _ (by omega)
  refine ⟨?_, ?_, ?_, ?_, ?_, ?_⟩
  · rw [hread 2 6 (by decide)]
    exact h.version
  · rw [word, hread 8 2 (by decide)]
    exact h.pairwiseOne
  · rw [hread 10 4 (by decide)]
    exact h.pairwise
  · rw [word, hread 14 2 (by decide)]
    exact h.akmOne
  · rw [hread 16 4 (by decide)]
    exact h.akm
  · rw [word, hread 20 2 (by decide)]
    exact h.cap

/-! ## Behind the capabilities -/

/-- There is as much room as the element has left. -/
theorem room_eq {ptr : ℕ} (h : ptr ≤ x.endPtr) : x.room ptr = x.endPtr - ptr := by
  have hlen := x.len_le
  unfold room endPtr at *
  omega

theorem pmkidListPtr_of_whole (hwhole : x.PmkidsWhole) (hne : x.pmkidCount ≠ 0) :
    x.pmkidListPtr = some (capAt x.mem + 4) := by
  unfold pmkidListPtr
  rw [if_pos]
  refine ⟨?_, hne, hwhole hne⟩
  by_contra hle
  exact hne (if_neg hle)

theorem pmkidListPtr_of_zero (hzero : x.pmkidCount = 0) : x.pmkidListPtr = none :=
  if_neg fun h => h.2.1 hzero

theorem pmkidListPtr_of_not_whole (hwhole : ¬x.PmkidsWhole) : x.pmkidListPtr = none :=
  if_neg fun h => hwhole fun _ => h.2.2

section

variable (hwhole : x.PmkidsWhole)

include hwhole

/-- The group management cipher is behind the PMKIDs, if they are all there. -/
theorem behindPmkids_of_whole (hcount : capAt x.mem + 4 ≤ x.endPtr) :
    x.behindPmkids = capAt x.mem + 4 + 16 * x.pmkidCount := by
  unfold behindPmkids
  rw [if_pos hcount]
  by_cases hne : x.pmkidCount = 0
  · rw [pmkidListPtr_of_zero hne, hne]
    rfl
  · rw [pmkidListPtr_of_whole hwhole hne]
    rfl

/-- `group_mgmt_cipher_suite_ptr` points to the cipher of the element. -/
theorem groupMgmtPtr_of_whole (hbits : c.Bits) :
    x.groupMgmtPtr c = if capAt x.mem + 4 ≤ x.endPtr ∧ capAt x.mem + 4 + 16 * x.pmkidCount + 4 ≤ x.endPtr ∧
      (c.mfpc ≠ 0 ∨ c.mfpr ≠ 0) then some (capAt x.mem + 4 + 16 * x.pmkidCount) else none := by
  unfold groupMgmtPtr
  by_cases hcount : capAt x.mem + 4 ≤ x.endPtr
  · rw [behindPmkids_of_whole hwhole hcount]
    simp only [c.masked_iff hbits, hcount, true_and]
  · have hbehind : x.behindPmkids = capAt x.mem + 2 := if_neg hcount
    rw [if_neg (by rw [hbehind]; omega), if_neg (by omega)]

theorem groupMgmt_eq (hbits : c.Bits) :
    x.groupMgmt c = ((x.groupMgmtPtr c).map fun a => x.mem.read a 4).getD [] := by
  rw [groupMgmtPtr_of_whole hwhole hbits]
  unfold groupMgmt
  dsimp only
  simp only [hwhole, true_and]
  split_ifs <;> rfl

theorem length_pmkids : x.pmkids.length = 16 * x.pmkidCount := by
  unfold pmkids
  rw [if_pos hwhole, length_read]

theorem pmkidListPtr_isSome_iff : x.pmkidListPtr.isSome ↔ x.pmkids ≠ [] := by
  rw [← length_pos_iff, length_pmkids hwhole]
  by_cases hne : x.pmkidCount = 0
  · simp [pmkidListPtr_of_zero hne, hne]
  · simp [pmkidListPtr_of_whole hwhole hne, Nat.pos_of_ne_zero hne]

theorem groupMgmtPtr_isSome_iff (hbits : c.Bits) :
    (x.groupMgmtPtr c).isSome ↔ x.groupMgmt c ≠ [] := by
  rw [groupMgmt_eq hwhole hbits]
  cases x.groupMgmtPtr c with
  | none => simp
  | some a =>
    refine iff_of_true rfl fun hnil => ?_
    have := congrArg List.length hnil
    simp at this

end

/-- What is left behind the capabilities is what is due : the memory, where it ends, what is touched, and the sources. -/
structure TailOf (x : RsnCopy) (c : PmfCfg) (m : Mem) (t : Mem × ℕ × List Span × Bool) : Prop where
  mem : t.1 = m.write 22 (x.tail c)
  ptr : t.2.1 = 22 + (x.tail c).length
  inside : ∀ r ∈ t.2.2.1, r.Inside 2 x.len
  source : t.2.2.2 = false
  len_le : 22 + (x.tail c).length ≤ x.endPtr

end RsnCopy

theorem write_nil (m : Mem) (a : ℕ) : m.write a [] = m :=
  funext fun _ => write_apply_of_not_mem (by simp only [length_nil]; omega)

/-- A copy leaves what stands in front of its destination. -/
theorem memcpy_apply_of_lt {m : Mem} {dst src a : ℕ} (h : a < dst) (n : ℕ) : m.memcpy dst src n a = m a := by
  induction n with
  | zero => rfl
  | succ n ih =>
    rw [memcpy, Function.update_of_ne (by omega)]
    exact ih

theorem memcpyExt_apply_of_lt {m : Mem} {dst a : ℕ} (src : Option ℕ) (num size : ℕ) (h : a < dst) :
    memcpyExt m dst src num size a = m a := by
  cases src with
  | none => rfl
  | some src => exact memcpy_apply_of_lt h _

namespace RsnCopy

variable {x : RsnCopy} {c : PmfCfg} {akmType : ℕ} {id : UInt8} {m : Mem}

/-- The moves leave what stands in front of 22. -/
theorem composeTail_apply_of_lt {a : ℕ} (h : a < 22) : (x.composeTail c m).1 a = m a := by
  have hlist : (if x.pmkidCount ≠ 0 then
      memcpyExt (m.write 22 (Tlv.le16 x.pmkidCount)) 24 x.pmkidListPtr (16 * x.pmkidCount) (x.room 24)
      else m.write 22 (Tlv.le16 x.pmkidCount)) a = m a := by
    have hcount : m.write 22 (Tlv.le16 x.pmkidCount) a = m a := write_apply_of_not_mem (.inl h)
    split_ifs
    · rw [memcpyExt_apply_of_lt _ _ _ (by omega), hcount]
    · exact hcount
  unfold composeTail
  split_ifs with hsome
  · dsimp only
    cases x.groupMgmtPtr c with
    | none => exact hlist
    | some g =>
      dsimp only
      rw [memcpyExt_apply_of_lt _ _ _ (by omega), hlist]
  · rfl

/-- The number and the list are moved. -/
theorem memcpyExt_pmkids (hwhole : x.PmkidsWhole) (hcap : 20 ≤ capAt x.mem)
    (hm : ∀ a n, capAt x.mem + 2 ≤ a → m.read a n = x.mem.read a n) :
    (if x.pmkidCount ≠ 0 then
        memcpyExt (m.write 22 (Tlv.le16 x.pmkidCount)) 24 x.pmkidListPtr (16 * x.pmkidCount) (x.room 24)
      else m.write 22 (Tlv.le16 x.pmkidCount)) = m.write 22 (Tlv.le16 x.pmkidCount ++ x.pmkids) := by
  by_cases hne : x.pmkidCount = 0
  · have hnil : x.pmkids = [] := length_eq_zero_iff.mp (by rw [length_pmkids hwhole, hne])
    rw [if_neg (not_not_intro hne), hnil, append_nil]
  · have hend := hwhole hne
    have hnum : min (16 * x.pmkidCount) (x.room 24) = 16 * x.pmkidCount := by
      rw [room_eq (by omega), min_eq_left (by omega)]
    rw [if_pos hne, pmkidListPtr_of_whole hwhole hne, memcpyExt, hnum, memcpy_eq (.inl (by omega)),
      read_write_of_disjoint (.inr (by rw [Tlv.length_le16]; omega)), hm _ _ (by omega),
      write_append _ (by rw [Tlv.length_le16])]
    congr 2
    unfold pmkids
    rw [if_pos hwhole]

/-- The group management cipher is moved behind them. -/
theorem memcpyExt_group {bs : List UInt8} (hbs : bs.length = 2 + 16 * x.pmkidCount) (hcap : 20 ≤ capAt x.mem)
    (hend : capAt x.mem + 4 + 16 * x.pmkidCount + 4 ≤ x.endPtr)
    (hm : ∀ a n, capAt x.mem + 2 ≤ a → m.read a n = x.mem.read a n) :
    memcpyExt (m.write 22 bs) (24 + 16 * x.pmkidCount) (some (capAt x.mem + 4 + 16 * x.pmkidCount)) 4
        (x.room (24 + 16 * x.pmkidCount)) =
      m.write 22 (bs ++ x.mem.read (capAt x.mem + 4 + 16 * x.pmkidCount) 4) := by
  have hnum : min 4 (x.room (24 + 16 * x.pmkidCount)) = 4 := by
    rw [room_eq (by omega), min_eq_left (by omega)]
  rw [memcpyExt, hnum, memcpy_eq (.inl (by omega)), read_write_of_disjoint (.inr (by omega)), hm _ _ (by omega),
    write_append _ (by omega)]

/-- What the copies touch is inside. -/
theorem inside_memcpyExtSpans {dst src n size : ℕ} (hdst : 2 ≤ dst ∧ dst + n ≤ x.endPtr) (hsrc : 2 ≤ src ∧ src + n ≤ x.endPtr) :
    ∀ r ∈ memcpyExtSpans dst (some src) n size, r.Inside 2 x.len := by
  intro r hr
  have hmin : min n size ≤ n := Nat.min_le_left _ _
  unfold endPtr at hdst hsrc
  simp only [memcpyExtSpans, mem_cons, not_mem_nil, or_false] at hr
  rcases hr with rfl | rfl
  · exact ⟨hsrc.1, by dsimp only; omega⟩
  · exact ⟨hdst.1, by dsimp only; omega⟩

theorem inside_pmkids (hwhole : x.PmkidsWhole) (hcap : 20 ≤ capAt x.mem) : ∀ r ∈ (if x.pmkidCount ≠ 0 then
    memcpyExtSpans 24 x.pmkidListPtr (16 * x.pmkidCount) (x.room 24) else []), r.Inside 2 x.len := by
  by_cases hne : x.pmkidCount = 0
  · simp [hne]
  · have hend := hwhole hne
    rw [if_pos hne, pmkidListPtr_of_whole hwhole hne]
    exact inside_memcpyExtSpans ⟨by decide, by omega⟩ ⟨by omega, hend⟩

/-- Nothing is behind the capabilities. -/
theorem tailOf_of_none (hm : 22 ≤ x.endPtr) (hlist : x.pmkidListPtr = none) (hgroup : x.groupMgmtPtr c = none)
    (htail : x.tail c = []) : x.TailOf c m (x.composeTail c m) := by
  have heq : x.composeTail c m = (m, 22, [], false) := if_neg (by simp [hlist, hgroup])
  rw [heq]
  exact ⟨by rw [htail, write_nil], by rw [htail]; rfl, by simp, rfl, by rw [htail]; exact hm⟩

/-- All PMKIDs are there. -/
theorem tailOf_of_whole (hwhole : x.PmkidsWhole) (hbits : c.Bits) (hcap : 20 ≤ capAt x.mem) (hend : capAt x.mem + 2 ≤ x.endPtr)
    (hm : ∀ a n, capAt x.mem + 2 ≤ a → m.read a n = x.mem.read a n) : x.TailOf c m (x.composeTail c m) := by
  have hlist := pmkidListPtr_isSome_iff hwhole
  have hgroup := groupMgmtPtr_isSome_iff hwhole hbits
  by_cases hnone : x.pmkids = [] ∧ x.groupMgmt c = []
  · refine tailOf_of_none (by omega) ?_ ?_ (if_pos hnone)
    · rw [← Option.not_isSome_iff_eq_none, hlist]
      exact not_not_intro hnone.1
    · rw [← Option.not_isSome_iff_eq_none, hgroup]
      exact not_not_intro hnone.2
  · have hsome : x.pmkidListPtr.isSome ∨ (x.groupMgmtPtr c).isSome := by
      rw [hlist, hgroup]
      exact not_and_or.mp hnone
    have htail : x.tail c = Tlv.le16 x.pmkidCount ++ (x.pmkids ++ x.groupMgmt c) := if_neg hnone
    have hcount : capAt x.mem + 4 ≤ x.endPtr := by
      by_contra hle
      have hzero : x.pmkidCount = 0 := if_neg hle
      refine hnone ⟨length_eq_zero_iff.mp (by rw [length_pmkids hwhole, hzero]), ?_⟩
      exact if_neg fun h => hle h.2.1
    have hpmkids : capAt x.mem + 4 + 16 * x.pmkidCount ≤ x.endPtr := by
      by_cases hne : x.pmkidCount = 0
      · omega
      · exact hwhole hne
    have hsource : (decide (x.pmkidCount ≠ 0 ∧ x.pmkidListPtr.isNone)) = false := by
      by_cases hne : x.pmkidCount = 0
      · simp [hne]
      · simp [pmkidListPtr_of_whole hwhole hne]
    have hspans := inside_pmkids hwhole hcap
    have hfirst : (⟨22, 2⟩ : Span).Inside 2 x.len := by
      unfold endPtr at hcount
      exact ⟨by decide, by dsimp only; omega⟩
    unfold composeTail
    rw [if_pos hsome]
    simp only [memcpyExt_pmkids hwhole hcap hm]
    have hlen : (Tlv.le16 x.pmkidCount ++ x.pmkids).length = 2 + 16 * x.pmkidCount := by
      rw [length_append, Tlv.length_le16, length_pmkids hwhole]
    cases hptr : x.groupMgmtPtr c with
    | none =>
      have hnil : x.groupMgmt c = [] := by rw [groupMgmt_eq hwhole hbits, hptr]; rfl
      rw [hnil, append_nil] at htail
      refine ⟨by rw [htail], by rw [htail, hlen]; dsimp only; omega, ?_, hsource, by rw [htail, hlen]; omega⟩
      intro r hr
      rcases mem_cons.mp hr with rfl | hr
      · exact hfirst
      · exact hspans r hr
    | some g =>
      rw [groupMgmtPtr_of_whole hwhole hbits] at hptr
      obtain ⟨⟨-, hgend, -⟩, hg⟩ := Option.ite_none_right_eq_some.mp hptr
      rw [← groupMgmtPtr_of_whole hwhole hbits] at hptr
      obtain rfl : capAt x.mem + 4 + 16 * x.pmkidCount = g := Option.some.inj hg
      have hread : x.groupMgmt c = x.mem.read (capAt x.mem + 4 + 16 * x.pmkidCount) 4 := by
        rw [groupMgmt_eq hwhole hbits, hptr]
        rfl
      rw [hread, ← append_assoc] at htail
      have hlen' : (x.tail c).length = 6 + 16 * x.pmkidCount := by
        rw [htail, length_append, hlen, length_read]
        omega
      refine ⟨?_, by dsimp only; omega, ?_, hsource, by omega⟩
      · dsimp only
        rw [memcpyExt_group hlen hcap hgend hm, htail]
      · intro r hr
        rcases mem_append.mp hr with hr | hr
        · rcases mem_cons.mp hr with rfl | hr
          · exact hfirst
          · exact hspans r hr
        · exact inside_memcpyExtSpans ⟨by omega, by omega⟩ ⟨by omega, hgend⟩ r hr

/-- PMKIDs are missing, and nothing is taken from behind their number. -/
theorem tailOf_of_not_whole (hwhole : ¬x.PmkidsWhole) (hgroup : x.groupMgmtPtr c = none) (hend : 22 ≤ x.endPtr) :
    x.TailOf c m (x.composeTail c m) := by
  refine tailOf_of_none hend (pmkidListPtr_of_not_whole hwhole) hgroup (if_pos ⟨if_neg hwhole, ?_⟩)
  exact if_neg fun h => hwhole h.1

/-- Otherwise a copy has no source. -/
theorem source_of_not_whole (hwhole : ¬x.PmkidsWhole) (hgroup : x.groupMgmtPtr c ≠ none) :
    (x.composeTail c m).2.2.2 = true := by
  obtain ⟨g, hg⟩ := Option.ne_none_iff_exists'.mp hgroup
  have hne : x.pmkidCount ≠ 0 := fun hzero => hwhole fun h => absurd hzero h
  unfold composeTail
  rw [if_pos (.inr (by rw [hg]; rfl))]
  simp [hg, hne, pmkidListPtr_of_not_whole hwhole]

end RsnCopy

/-! ## The stages -/

namespace RsnCopy

variable {x : RsnCopy} {c : PmfCfg} {akmType : ℕ} {id : UInt8}

theorem inside_count (hlen : 20 ≤ x.len) : (⟨8, 2⟩ : Span).Inside 2 x.len :=
  ⟨by decide, by dsimp only; omega⟩

theorem inside_cipherIds (hlen : 20 ≤ x.len) (hlist : akmAt x.mem < x.endPtr) :
    ∀ r ∈ (⟨8, 2⟩ : Span) :: (List.range (pairwiseCount x.mem)).map (fun i => (⟨10 + 4 * i + 3, 1⟩ : Span)),
      r.Inside 2 x.len := by
  intro r hr
  rcases mem_cons.mp hr with rfl | hr
  · exact inside_count hlen
  · obtain ⟨i, hi, rfl⟩ := mem_map.mp hr
    have hlt := mem_range.mp hi
    unfold akmAt endPtr at hlist
    exact ⟨by dsimp only; omega, by dsimp only; omega⟩

theorem inside_akmIds (hlist : capAt x.mem + 2 ≤ x.endPtr) :
    ∀ r ∈ (List.range (x.akmLooked akmType)).map (fun j => (⟨akmAt x.mem + 2 + 4 * j + 3, 1⟩ : Span)), r.Inside 2 x.len := by
  intro r hr
  obtain ⟨j, hj, rfl⟩ := mem_map.mp hr
  have hlt : j < akmCount x.mem := by
    refine lt_of_lt_of_le (mem_range.mp hj) ?_
    unfold akmLooked
    split_ifs
    · exact le_rfl
    · exact Nat.min_le_right _ _
  unfold capAt endPtr at hlist
  exact ⟨by dsimp only; omega, by dsimp only; omega⟩

/-- A refusal leaves nothing to be said but what was read. -/
theorem right_of_refuse {t : ℕ} {touched : List Span} (h : x.updateRsnIe c akmType = x.refuse t touched)
    (hinside : ∀ r ∈ touched, r.Inside 2 x.len) : x.Right c akmType := by
  refine ⟨?_, ?_, ?_, fun _ => ?_⟩
  · rw [h]
    exact hinside
  · rw [h]
    rfl
  · rw [h]
    exact fun hok => absurd hok Bool.false_ne_true
  · unfold associate
    dsimp only
    rw [h]
    rfl

theorem right_of_not_ciphers (h : ¬x.CipherAccepted akmType) : x.Right c akmType := by
  by_cases hlen : x.len < 20
  · exact right_of_refuse (if_pos hlen) (by simp)
  by_cases hlist : pairwiseCount x.mem = 0 ∨ x.endPtr ≤ akmAt x.mem
  · have hrefused : x.updateRsnIe c akmType = x.refuse akmType [⟨8, 2⟩] := (if_neg hlen).trans (if_pos hlist)
    refine right_of_refuse hrefused fun r hr => ?_
    rw [mem_singleton.mp hr]
    exact inside_count (Nat.le_of_not_lt hlen)
  obtain ⟨hcount, hend⟩ := not_or.mp hlist
  have hinside := inside_cipherIds (Nat.le_of_not_lt hlen) (Nat.lt_of_not_le hend)
  by_cases hpref : x.cipher.1 = 0
  · exact right_of_refuse ((if_neg hlen).trans ((if_neg hlist).trans (if_pos hpref))) hinside
  by_cases htkip : x.cipher.1 = preferenceTkip ∧ (akmType = authWpa3Sae ∨ akmType = authOwe)
  · exact right_of_refuse ((if_neg hlen).trans ((if_neg hlist).trans ((if_neg hpref).trans (if_pos htkip)))) hinside
  exact absurd ⟨Nat.le_of_not_lt hlen, hcount, Nat.lt_of_not_le hend, hpref, htkip⟩ h

/-- What is touched when the ciphers are accepted. -/
def touchedCiphers (x : RsnCopy) : List Span :=
  (⟨8, 2⟩ :: (List.range (pairwiseCount x.mem)).map fun i => ⟨10 + 4 * i + 3, 1⟩) ++ [(⟨akmAt x.mem, 2⟩ : Span)]

/-- What is touched when the AKM suites are looked at. -/
def touchedAkms (x : RsnCopy) (akmType : ℕ) : List Span :=
  x.touchedCiphers ++ (List.range (x.akmLooked akmType)).map fun j => ⟨akmAt x.mem + 2 + 4 * j + 3, 1⟩

section

variable (h : x.CipherAccepted akmType)

include h

theorem inside_touchedCiphers (hcount : akmAt x.mem + 2 ≤ x.endPtr) :
    ∀ r ∈ x.touchedCiphers, r.Inside 2 x.len := by
  intro r hr
  rcases mem_append.mp hr with hr | hr
  · exact inside_cipherIds h.len h.list r hr
  · rw [mem_singleton.mp hr]
    unfold endPtr at hcount
    exact ⟨by unfold akmAt; dsimp only; omega, hcount⟩

theorem inside_touchedAkms (hlist : capAt x.mem + 2 ≤ x.endPtr) :
    ∀ r ∈ x.touchedAkms akmType, r.Inside 2 x.len := by
  have hcount : akmAt x.mem + 2 ≤ x.endPtr := by
    unfold capAt at hlist
    omega
  intro r hr
  rcases mem_append.mp hr with hr | hr
  · exact inside_touchedCiphers h hcount r hr
  · exact inside_akmIds hlist r hr

/-- What follows when the ciphers are accepted. -/
theorem updateRsnIe_of_ciphers : x.updateRsnIe c akmType =
    if akmCount x.mem = 0 ∨ x.endPtr < capAt x.mem + 2 then x.refuse (x.wanted akmType) x.touchedCiphers
    else match x.akm akmType with
      | none => x.refuse (x.wanted akmType) (x.touchedAkms akmType)
      | some akmId =>
        if x.PmfRefused c akmType akmId then
          x.refuse (x.chosen akmType akmId) (x.touchedAkms akmType ++ [(⟨capAt x.mem, 2⟩ : Span)])
        else
          let pmkid := if capAt x.mem + 4 ≤ x.endPtr then [(⟨capAt x.mem + 2, 2⟩ : Span)] else []
          let t := x.composeTail c (x.composeHead c x.cipher.2 akmId)
          ⟨true, t.1, t.2.1 - 2, x.chosen akmType akmId,
            x.touchedAkms akmType ++ [(⟨capAt x.mem, 2⟩ : Span)] ++ pmkid ++
              [(⟨8, 2⟩ : Span), ⟨10, 4⟩, ⟨14, 2⟩, ⟨16, 4⟩, ⟨20, 2⟩] ++ t.2.2.1, t.2.2.2⟩ := by
  have hlist : ¬(pairwiseCount x.mem = 0 ∨ x.endPtr ≤ akmAt x.mem) := not_or.mpr ⟨h.count, Nat.not_le.mpr h.list⟩
  exact (if_neg (Nat.not_lt.mpr h.len)).trans ((if_neg hlist).trans ((if_neg h.preference).trans (if_neg h.tkip)))

/-- The number of AKM suites is read wherever the ciphers are accepted. -/
theorem mem_touched_of_ciphers :
    (⟨akmAt x.mem, 2⟩ : Span) ∈ (x.updateRsnIe c akmType).touched := by
  have hmem : (⟨akmAt x.mem, 2⟩ : Span) ∈ x.touchedCiphers := mem_append_right _ (mem_singleton.mpr rfl)
  have hmem' : (⟨akmAt x.mem, 2⟩ : Span) ∈ x.touchedAkms akmType := mem_append_left _ hmem
  rw [updateRsnIe_of_ciphers h]
  by_cases hlist : akmCount x.mem = 0 ∨ x.endPtr < capAt x.mem + 2
  · rw [if_pos hlist]
    exact hmem
  · rw [if_neg hlist]
    cases x.akm akmType with
    | none => exact hmem'
    | some akmId =>
      dsimp only
      split_ifs
      · exact mem_append_left _ hmem'
      · exact mem_append_left _ (mem_append_left _ (mem_append_left _ (mem_append_left _ hmem')))
      · exact mem_append_left _ (mem_append_left _ (mem_append_left _ (mem_append_left _ hmem')))

/-- The ciphers are accepted, and what follows is refused. -/
theorem right_of_not_accepted (hcount : akmAt x.mem + 2 ≤ x.endPtr)
    (hno : ∀ id, ¬x.Accepted c akmType id) : x.Right c akmType := by
  have heq := updateRsnIe_of_ciphers (c := c) h
  by_cases hlist : akmCount x.mem = 0 ∨ x.endPtr < capAt x.mem + 2
  · rw [if_pos hlist] at heq
    exact right_of_refuse heq (inside_touchedCiphers h hcount)
  obtain ⟨hakm, hend⟩ := not_or.mp hlist
  have hend : capAt x.mem + 2 ≤ x.endPtr := Nat.le_of_not_lt hend
  rw [if_neg hlist] at heq
  cases hid : x.akm akmType with
  | none =>
    simp only [hid] at heq
    exact right_of_refuse heq (inside_touchedAkms h hend)
  | some akmId =>
    simp only [hid] at heq
    have hpmf : x.PmfRefused c akmType akmId := by
      by_contra hpmf
      exact hno akmId ⟨h, hakm, hend, hid, hpmf⟩
    rw [if_pos hpmf] at heq
    refine right_of_refuse heq fun r hr => ?_
    rcases mem_append.mp hr with hr | hr
    · exact inside_touchedAkms h hend r hr
    · rw [mem_singleton.mp hr]
      unfold endPtr at hend
      exact ⟨by unfold capAt akmAt; dsimp only; omega, hend⟩

end

/-- What an element that is accepted becomes. -/
theorem Accepted.updateRsnIe (h : x.Accepted c akmType id) : x.updateRsnIe c akmType =
    ⟨true, (x.composeTail c (x.composeHead c x.cipher.2 id)).1, (x.composeTail c (x.composeHead c x.cipher.2 id)).2.1 - 2,
      x.chosen akmType id,
      x.touchedAkms akmType ++ [(⟨capAt x.mem, 2⟩ : Span)] ++
          (if capAt x.mem + 4 ≤ x.endPtr then [(⟨capAt x.mem + 2, 2⟩ : Span)] else []) ++
          [(⟨8, 2⟩ : Span), ⟨10, 4⟩, ⟨14, 2⟩, ⟨16, 4⟩, ⟨20, 2⟩] ++
        (x.composeTail c (x.composeHead c x.cipher.2 id)).2.2.1,
      (x.composeTail c (x.composeHead c x.cipher.2 id)).2.2.2⟩ := by
  rw [updateRsnIe_of_ciphers h.ciphers, if_neg (not_or.mpr ⟨h.count, Nat.not_lt.mpr h.list⟩), h.akm]
  exact if_neg h.pmf

/-- What is touched in front of the moves is inside. -/
theorem Accepted.inside (h : x.Accepted c akmType id) : ∀ r ∈ x.touchedAkms akmType ++ [(⟨capAt x.mem, 2⟩ : Span)] ++
    (if capAt x.mem + 4 ≤ x.endPtr then [(⟨capAt x.mem + 2, 2⟩ : Span)] else []) ++
    [(⟨8, 2⟩ : Span), ⟨10, 4⟩, ⟨14, 2⟩, ⟨16, 4⟩, ⟨20, 2⟩], r.Inside 2 x.len := by
  have hcap := h.capAt_le
  have hend := h.list
  intro r hr
  rcases mem_append.mp hr with hr | hr
  · rcases mem_append.mp hr with hr | hr
    · rcases mem_append.mp hr with hr | hr
      · exact inside_touchedAkms h.ciphers h.list r hr
      · rw [mem_singleton.mp hr]
        unfold endPtr at hend
        exact ⟨by dsimp only; omega, hend⟩
    · split_ifs at hr with hcount
      · rw [mem_singleton.mp hr]
        unfold endPtr at hcount
        exact ⟨by dsimp only; omega, hcount⟩
      · exact absurd hr (not_mem_nil)
  · unfold endPtr at hend
    simp only [mem_cons, not_mem_nil, or_false] at hr
    rcases hr with rfl | rfl | rfl | rfl | rfl <;> exact ⟨by decide, by dsimp only; omega⟩

/-- What is moved is what is due, where the PMKIDs are all there or nothing is taken from behind their number. -/
theorem Accepted.tailOf (h : x.Accepted c akmType id) (hbits : c.Bits) (hpmkids : x.PmkidsWhole ∨ x.groupMgmtPtr c = none) :
    x.TailOf c (x.composeHead c x.cipher.2 id) (x.composeTail c (x.composeHead c x.cipher.2 id)) := by
  by_cases hwhole : x.PmkidsWhole
  · exact tailOf_of_whole hwhole hbits h.capAt_le h.list fun a n ha => read_composeHead h.capAt_le _ _ ha
  · exact tailOf_of_not_whole hwhole (hpmkids.resolve_left hwhole) h.end_le

/-- The ends of an element that is accepted. -/
theorem composed_of_tailOf {u : RsnUpdate} {cipherId akmId : UInt8}
    (hhead : x.HeadOf c cipherId akmId (x.composeHead c cipherId akmId))
    (htail : x.TailOf c (x.composeHead c cipherId akmId) (x.composeTail c (x.composeHead c cipherId akmId)))
    (hmem : u.mem = (x.composeTail c (x.composeHead c cipherId akmId)).1)
    (hlen : u.len = (x.composeTail c (x.composeHead c cipherId akmId)).2.1 - 2)
    (hcipher : x.Offers (selector cipherId)) (hakm : x.OffersAkm (selector akmId)) (hbits : c.Bits) : x.Composed c u := by
  have hnew : x.HeadOf c cipherId akmId u.mem := hhead.congr fun a ha => hmem ▸ composeTail_apply_of_lt ha
  have hptr := htail.ptr
  have hle := htail.len_le
  have hlen' : u.len = 20 + (x.tail c).length := by omega
  refine ⟨hnew.version, hnew.pairwiseOne, hnew.pairwise ▸ hcipher, hnew.akmOne, hnew.akm ▸ hakm, ?_, ?_, ?_, ?_, hlen', ?_⟩
  · rw [hnew.cap, c.testBit_apply_pmf _ (.inl rfl)]
    exact hbits.1
  · rw [hnew.cap, c.testBit_apply_pmf _ (.inr rfl)]
    exact hbits.2
  · intro i h7 h6
    rw [hnew.cap]
    exact c.testBit_apply (word_lt x.mem (capAt x.mem)) h7 h6
  · rw [hlen', Nat.add_sub_cancel_left, hmem, htail.mem]
    exact read_write _ 22 (x.tail c)
  · unfold endPtr at hle
    omega

/-- An element that is accepted and fits. -/
theorem Accepted.right (h : x.Accepted c akmType id) (hfits : x.Fits c akmType) : x.Right c akmType := by
  have hbits := hfits.bits id h
  have htail := h.tailOf hbits (hfits.pmkids id h)
  have heq := h.updateRsnIe
  refine ⟨?_, ?_, fun _ => ?_, ?_⟩
  · rw [heq]
    intro r hr
    rcases mem_append.mp hr with hr | hr
    · exact h.inside r hr
    · exact htail.inside r hr
  · rw [heq]
    exact htail.source
  · exact composed_of_tailOf (headOf_composeHead h.capAt_le _ _) htail (by rw [heq]) (by rw [heq])
      (hfits.cipher id h) (hfits.akm id h) hbits
  · rw [heq]
    exact fun hok => absurd hok (by simp)

/-- The first part of what an element that is accepted becomes. -/
theorem Accepted.head (h : x.Accepted c akmType id) : x.HeadOf c x.cipher.2 id (x.updateRsnIe c akmType).mem := by
  rw [h.updateRsnIe]
  exact (headOf_composeHead h.capAt_le _ _).congr fun a ha => composeTail_apply_of_lt ha

/-- **The RSN element of an association request** is the one that is due, with all reads and writes inside, exactly where the
element fits. -/
theorem updateRsnIe_right_iff (x : RsnCopy) (c : PmfCfg) (akmType : ℕ) : x.Right c akmType ↔ x.Fits c akmType := by
  constructor
  · intro h
    refine ⟨fun hciphers => ?_, fun id hacc => ?_, fun id hacc => ?_, fun id hacc => ?_, fun id hacc => ?_⟩
    · have hinside := h.inside _ (mem_touched_of_ciphers hciphers)
      exact hinside.2
    · have hok : (x.updateRsnIe c akmType).ok = true := by rw [hacc.updateRsnIe]
      exact hacc.head.pairwise ▸ (h.composed hok).pairwise
    · have hok : (x.updateRsnIe c akmType).ok = true := by rw [hacc.updateRsnIe]
      exact hacc.head.akm ▸ (h.composed hok).akm
    · by_contra hno
      obtain ⟨hwhole, hgroup⟩ := not_or.mp hno
      have hsource := h.source
      rw [hacc.updateRsnIe, source_of_not_whole hwhole hgroup] at hsource
      exact absurd hsource (by simp)
    · have hok : (x.updateRsnIe c akmType).ok = true := by rw [hacc.updateRsnIe]
      have hcomposed := h.composed hok
      have hcap := hacc.head.cap
      refine ⟨?_, ?_⟩
      · rw [← hcomposed.mfpc, hcap, c.testBit_apply_pmf _ (.inl rfl)]
      · rw [← hcomposed.mfpr, hcap, c.testBit_apply_pmf _ (.inr rfl)]
  · intro hfits
    by_cases hciphers : x.CipherAccepted akmType
    · by_cases hacc : ∃ id, x.Accepted c akmType id
      · obtain ⟨id, hacc⟩ := hacc
        exact hacc.right hfits
      · exact right_of_not_accepted hciphers (hfits.count hciphers) (not_exists.mp hacc)
    · exact right_of_not_ciphers hciphers

/-- An element with CCMP, PSK and protected management frames, whose number of PMKIDs is 1, with 4 octets behind it. -/
def truncatedPmkids : RsnCopy :=
  ⟨fun a => ([48, 26, 1, 0, 0, 0x0f, 0xac, 4, 1, 0, 0, 0x0f, 0xac, 4, 1, 0, 0, 0x0f, 0xac, 2, 0x80, 0, 1, 0, 0, 0x0f, 0xac,
    (6 : UInt8)]).getD a 0, 26, by decide⟩

/-- The PMKID is copied from nowhere. -/
theorem not_right_truncatedPmkids : ¬truncatedPmkids.Right ⟨1, 0⟩ authAuto := by
  intro h
  have hnull : (truncatedPmkids.updateRsnIe ⟨1, 0⟩ authAuto).nullCopy = true := by decide
  rw [h.source] at hnull
  exact Bool.false_ne_true hnull

end RsnCopy

end WlanDriver.Join
