import Mathlib.Data.Nat.Bitwise
import WlanDriver.Lib.RingSlots

/-!
# Pointers into the descriptor rings

The driver and the card share rings of buffer descriptors whose size is a power of two. A pointer has one of two formats :
an index and, behind a mask, a bit that is flipped on each turn of the ring; or, on ADMA, 13 bits that count on over a ring
of at most 4096 descriptors.

`encode` is the pointer to a position, counted without bound. The tests of the driver are exact as long as the pointers are
at most one ring length apart : `pending_encode`, `notFull_encode`.
-/

namespace WlanDriver.Pcie

/-- `_mlan_pcie_card_reg` : the format of the pointers. -/
structure CardReg where
  txrxRwPtrMask : ℕ
  txrxRwPtrRolloverInd : ℕ
  useAdma : Bool
  deriving DecidableEq

def mlanRegPcie8897 : CardReg :=
  ⟨0x3FF, 2 ^ 10, false⟩

def mlanRegPcie8997 : CardReg :=
  ⟨0xFFF, 2 ^ 12, false⟩

/-- `mlan_reg_pcie9098` and its like. -/
def mlanRegPcieAdma : CardReg :=
  ⟨0, 0, true⟩

def admaRwPtrWrapMask : ℕ := 0x1FFF

/-- The rings of a card : their size is `2 ^ order`, and it fits the pointers. -/
structure RingConfig where
  reg : CardReg
  txrxBdSize : ℕ
  order : ℕ
  /-- The mask has so many bits. -/
  bits : ℕ
  size_eq : txrxBdSize = 2 ^ order
  adma : reg.useAdma = true → order ≤ 12
  mask_eq : reg.useAdma = false → reg.txrxRwPtrMask = 2 ^ bits - 1
  rollover_eq : reg.useAdma = false → reg.txrxRwPtrRolloverInd = 2 ^ bits
  order_le : reg.useAdma = false → order ≤ bits
  bits_lt : bits < 32

namespace RingConfig

variable (c : RingConfig) (ptr rdptr wrptr p : ℕ)

/-- The pointer to the next descriptor. -/
def advance : ℕ :=
  let ptr := (ptr + 1) % 2 ^ 32
  if c.reg.useAdma then ptr &&& admaRwPtrWrapMask
  else if ptr &&& c.reg.txrxRwPtrMask = c.txrxBdSize then
    (ptr &&& c.reg.txrxRwPtrRolloverInd) ^^^ c.reg.txrxRwPtrRolloverInd
  else ptr

/-- The descriptor that a pointer leads to. -/
def index : ℕ :=
  ptr &&& (c.txrxBdSize - 1)

/-- `wlan_check_tx_pending_buffer`, `wlan_check_rx_pending_buffer` : the card has passed the descriptor. -/
def pending : Bool :=
  if c.reg.useAdma then ptr &&& admaRwPtrWrapMask != rdptr &&& admaRwPtrWrapMask
  else ptr &&& c.reg.txrxRwPtrMask != rdptr &&& c.reg.txrxRwPtrMask ||
    ptr &&& c.reg.txrxRwPtrRolloverInd != rdptr &&& c.reg.txrxRwPtrRolloverInd

/-- `wlan_check_txbd_not_full`. -/
def notFull : Bool :=
  if c.reg.useAdma then
    !(wrptr &&& (c.txrxBdSize - 1) == rdptr &&& (c.txrxBdSize - 1) &&
      wrptr &&& c.txrxBdSize != rdptr &&& c.txrxBdSize)
  else wrptr &&& c.reg.txrxRwPtrMask != rdptr &&& c.reg.txrxRwPtrMask ||
    wrptr &&& c.reg.txrxRwPtrRolloverInd == rdptr &&& c.reg.txrxRwPtrRolloverInd

/-- The pointer to a position. -/
def encode : ℕ :=
  if c.reg.useAdma then p % 2 ^ 13
  else if c.order < c.bits then p % 2 ^ c.order + 2 ^ c.bits * (p / 2 ^ c.order % 2)
  else p % 2 ^ 32

/-- The bits of a pointer that the driver looks at. -/
def seen : ℕ × ℕ :=
  if c.reg.useAdma then (ptr &&& admaRwPtrWrapMask, 0)
  else (ptr &&& c.reg.txrxRwPtrMask, ptr &&& c.reg.txrxRwPtrRolloverInd)

/-- A value that shows a position. -/
def Shows : Prop :=
  c.seen ptr = c.seen (c.encode p)
  deriving Decidable

end RingConfig

/-- The ring of the 8997. -/
def config8997 : RingConfig where
  reg := mlanRegPcie8997
  txrxBdSize := 32
  order := 5
  bits := 12
  size_eq := rfl
  adma := nofun
  mask_eq _ := rfl
  rollover_eq _ := rfl
  order_le _ := by decide
  bits_lt := by decide

/-- The default ring of the cards with ADMA. -/
def configAdma : RingConfig where
  reg := mlanRegPcieAdma
  txrxBdSize := 128
  order := 7
  bits := 0
  size_eq := rfl
  adma _ := by decide
  mask_eq := nofun
  rollover_eq := nofun
  order_le := nofun
  bits_lt := by decide

/-! ## Positions less than a turn apart -/

section

variable {n r w : ℕ}

theorem eq_or_eq_of_mod_eq (hr : r ≤ w) (hw : w ≤ r + n) (h : w % n = r % n) : w = r ∨ w = r + n := by
  rcases hw.lt_or_eq with hlt | rfl
  · obtain ⟨k, rfl⟩ := Nat.exists_eq_add_of_le hr
    have hk : k = 0 := eq_of_add_mod_eq (n := n) (r := r) (by omega) (by omega) h
    exact .inl (by omega)
  · exact .inr rfl

theorem turn_ne (hn : 0 < n) : (r + n) / n % 2 ≠ r / n % 2 := by
  rw [Nat.add_div_right r hn]
  omega

theorem eq_iff_of_turn (hn : 0 < n) (hr : r ≤ w) (hw : w ≤ r + n) :
    w % n = r % n ∧ w / n % 2 = r / n % 2 ↔ w = r := by
  constructor
  · rintro ⟨hmod, hturn⟩
    rcases eq_or_eq_of_mod_eq hr hw hmod with rfl | rfl
    · rfl
    · exact absurd hturn (turn_ne hn)
  · rintro rfl
    exact ⟨rfl, rfl⟩

theorem full_iff_of_turn (hn : 0 < n) (hr : r ≤ w) (hw : w ≤ r + n) :
    w % n = r % n ∧ w / n % 2 ≠ r / n % 2 ↔ w = r + n := by
  constructor
  · rintro ⟨hmod, hturn⟩
    rcases eq_or_eq_of_mod_eq hr hw hmod with rfl | rfl
    · exact absurd rfl hturn
    · rfl
  · rintro rfl
    exact ⟨Nat.add_mod_right r n, turn_ne hn⟩

/-- A single bit of a number. -/
theorem and_two_pow_eq (x b : ℕ) : x &&& 2 ^ b = 2 ^ b * (x / 2 ^ b % 2) := by
  rw [Nat.and_two_pow, Nat.testBit_eq_decide_div_mod_eq]
  rcases Nat.mod_two_eq_zero_or_one (x / 2 ^ b) with h | h <;> simp [h]

theorem and_two_pow_inj {x y b : ℕ} : x &&& 2 ^ b = y &&& 2 ^ b ↔ x / 2 ^ b % 2 = y / 2 ^ b % 2 := by
  rw [and_two_pow_eq, and_two_pow_eq, Nat.mul_right_inj (Nat.two_pow_pos b).ne']

end

namespace RingConfig

variable {c : RingConfig} {ptr r w p q : ℕ}

theorem size_pos (c : RingConfig) : 0 < c.txrxBdSize := by
  rw [c.size_eq]
  exact Nat.two_pow_pos _

/-- On ADMA the low bits of the pointer. -/
theorem encode_adma (ha : c.reg.useAdma = true) : c.encode p = p % 2 ^ 13 := by
  rw [encode, if_pos ha]

theorem mod_order_lt (hlt : c.order < c.bits) : p % 2 ^ c.order < 2 ^ c.bits :=
  (Nat.mod_lt _ (Nat.two_pow_pos _)).trans (Nat.pow_lt_pow_right (by decide) hlt)

/-- The index bits of the pointer. -/
theorem encode_mod (ha : c.reg.useAdma = false) : c.encode p % 2 ^ c.bits = p % c.txrxBdSize := by
  have hle := c.order_le ha
  rw [encode, if_neg (by simp [ha]), c.size_eq]
  split
  · next hlt => rw [Nat.add_mul_mod_self_left, Nat.mod_eq_of_lt (mod_order_lt hlt)]
  · next hlt =>
    have heq : c.order = c.bits := by omega
    rw [heq, Nat.mod_mod_of_dvd p (pow_dvd_pow 2 c.bits_lt.le)]

/-- The bit behind them. -/
theorem encode_div (ha : c.reg.useAdma = false) : c.encode p / 2 ^ c.bits % 2 = p / c.txrxBdSize % 2 := by
  have hle := c.order_le ha
  rw [encode, if_neg (by simp [ha]), c.size_eq]
  split
  · next hlt =>
    rw [Nat.add_mul_div_left _ _ (Nat.two_pow_pos _), Nat.div_eq_of_lt (mod_order_lt hlt), Nat.zero_add, Nat.mod_mod]
  · next hlt =>
    have heq : c.order = c.bits := by omega
    have hbits := c.bits_lt
    have hpow : 2 ^ 32 = 2 ^ c.bits * 2 ^ (32 - c.bits) := by
      rw [← pow_add]
      congr 1
      omega
    rw [heq, hpow, Nat.mod_mul_right_div_self, Nat.mod_mod_of_dvd _ (dvd_pow_self 2 (by omega))]

/-- The parity of the turn, on ADMA. -/
theorem encode_adma_div (ha : c.reg.useAdma = true) :
    c.encode p / c.txrxBdSize % 2 = p / c.txrxBdSize % 2 := by
  have hle := c.adma ha
  have hpow : 2 ^ 13 = 2 ^ c.order * 2 ^ (13 - c.order) := by
    rw [← pow_add]
    congr 1
    omega
  rw [encode_adma ha, c.size_eq, hpow, Nat.mod_mul_right_div_self, Nat.mod_mod_of_dvd _ (dvd_pow_self 2 (by omega))]

/-- A pointer leads to the descriptor of its position. -/
theorem index_encode : c.index (c.encode p) = p % c.txrxBdSize := by
  rw [index]
  cases ha : c.reg.useAdma with
  | true =>
    have hle := c.adma ha
    rw [encode_adma ha, c.size_eq, Nat.and_two_pow_sub_one_eq_mod, Nat.mod_mod_of_dvd _ (pow_dvd_pow 2 (by omega))]
  | false =>
    have hmod : c.encode p % 2 ^ c.bits % 2 ^ c.order = c.encode p % 2 ^ c.order :=
      Nat.mod_mod_of_dvd _ (pow_dvd_pow 2 (c.order_le ha))
    rw [c.size_eq, Nat.and_two_pow_sub_one_eq_mod, ← hmod, encode_mod ha, c.size_eq, Nat.mod_mod]

/-- Below the next turn the pointer counts on, and then the bit is flipped. -/
theorem encode_succ (hlt : c.order < c.bits) (ha : c.reg.useAdma = false) :
    c.encode (p + 1) = if p % c.txrxBdSize + 1 = c.txrxBdSize then 2 ^ c.bits * (1 - p / c.txrxBdSize % 2)
      else c.encode p + 1 := by
  have hn := c.size_pos
  have hlt' := Nat.mod_lt p hn
  simp only [encode, ha, Bool.false_eq_true, if_false, if_pos hlt, ← c.size_eq]
  split
  · next heq =>
    have hp : p + 1 = c.txrxBdSize * (p / c.txrxBdSize + 1) := by
      have := Nat.div_add_mod p c.txrxBdSize
      rw [Nat.mul_succ]
      omega
    rw [hp, Nat.mul_mod_right, Nat.mul_div_cancel_left _ hn, Nat.zero_add]
    congr 1
    omega
  · next hne =>
    have hp : p + 1 = (p % c.txrxBdSize + 1) + c.txrxBdSize * (p / c.txrxBdSize) := by
      have := Nat.div_add_mod p c.txrxBdSize
      omega
    rw [hp, Nat.add_mul_mod_self_left, Nat.mod_eq_of_lt (by omega), Nat.add_mul_div_left _ _ hn,
      Nat.div_eq_of_lt (by omega), Nat.zero_add]
    omega

theorem two_mul_two_pow_bits_le (c : RingConfig) : 2 ^ c.bits * 2 ≤ 2 ^ 32 := by
  rw [← pow_succ]
  exact Nat.pow_le_pow_right (by decide) c.bits_lt

/-- The next pointer is that of the next position. -/
theorem advance_encode : c.advance (c.encode p) = c.encode (p + 1) := by
  rw [advance]
  cases ha : c.reg.useAdma with
  | true =>
    rw [encode_adma ha, encode_adma ha, show admaRwPtrWrapMask = 2 ^ 13 - 1 from rfl]
    simp only [if_true, Nat.and_two_pow_sub_one_eq_mod]
    omega
  | false =>
    simp only [Bool.false_eq_true, if_false, c.mask_eq ha, c.rollover_eq ha, Nat.and_two_pow_sub_one_eq_mod,
      and_two_pow_eq]
    have hfit := c.two_mul_two_pow_bits_le
    by_cases hlt : c.order < c.bits
    · have hn : c.txrxBdSize < 2 ^ c.bits := c.size_eq ▸ Nat.pow_lt_pow_right (by decide) hlt
      have hm := Nat.mod_lt p c.size_pos
      have henc : c.encode p = p % c.txrxBdSize + 2 ^ c.bits * (p / c.txrxBdSize % 2) := by
        rw [encode, if_neg (by simp [ha]), if_pos hlt, c.size_eq]
      rw [encode_succ hlt ha, henc]
      generalize p % c.txrxBdSize = m at hm ⊢
      rcases Nat.mod_two_eq_zero_or_one (p / c.txrxBdSize) with ht | ht
      · rw [ht, Nat.mul_zero, Nat.add_zero, Nat.mod_eq_of_lt (by omega : m + 1 < 2 ^ 32),
          Nat.mod_eq_of_lt (by omega : m + 1 < 2 ^ c.bits), Nat.div_eq_of_lt (by omega : m + 1 < 2 ^ c.bits)]
        simp
      · rw [ht, Nat.mul_one, Nat.mod_eq_of_lt (by omega : m + 2 ^ c.bits + 1 < 2 ^ 32),
          show m + 2 ^ c.bits + 1 = m + 1 + 2 ^ c.bits by omega, Nat.add_mod_right,
          Nat.mod_eq_of_lt (by omega : m + 1 < 2 ^ c.bits), Nat.add_div_right _ (Nat.two_pow_pos _),
          Nat.div_eq_of_lt (by omega : m + 1 < 2 ^ c.bits)]
        simp
    · have hle := c.order_le ha
      have hn : c.txrxBdSize = 2 ^ c.bits := by rw [c.size_eq, show c.order = c.bits by omega]
      have hmod := Nat.mod_lt ((c.encode p + 1) % 2 ^ 32) (Nat.two_pow_pos c.bits)
      rw [if_neg (by omega)]
      simp only [encode, ha, Bool.false_eq_true, if_false, if_neg hlt]
      omega

/-- The descriptor has been passed if the card is behind it. -/
theorem pending_encode (h : c.Shows ptr q) (hr : r ≤ q) (hq : q ≤ r + c.txrxBdSize) :
    c.pending (c.encode r) ptr = decide (r ≠ q) := by
  have hn := c.size_pos
  unfold Shows seen at h
  unfold pending
  cases ha : c.reg.useAdma with
  | true =>
    simp only [ha, if_true, Prod.mk.injEq, and_true] at h ⊢
    rw [h, encode_adma ha, encode_adma ha, show admaRwPtrWrapMask = 2 ^ 13 - 1 from rfl,
      Nat.and_two_pow_sub_one_eq_mod, Nat.and_two_pow_sub_one_eq_mod, Nat.mod_mod, Nat.mod_mod]
    have hsize : c.txrxBdSize ≤ 2 ^ 12 := c.size_eq ▸ Nat.pow_le_pow_right (by decide) (c.adma ha)
    have hiff : r % 2 ^ 13 ≠ q % 2 ^ 13 ↔ r ≠ q := by omega
    rw [Bool.eq_iff_iff, bne_iff_ne, decide_eq_true_eq, hiff]
  | false =>
    simp only [ha, Bool.false_eq_true, if_false, Prod.mk.injEq, c.mask_eq ha, c.rollover_eq ha,
      Nat.and_two_pow_sub_one_eq_mod] at h ⊢
    obtain ⟨hmask, hrollover⟩ := h
    have hiff := eq_iff_of_turn hn hr hq
    rw [hmask, hrollover, encode_mod ha, encode_mod ha, Bool.eq_iff_iff]
    simp only [bne_iff_ne, Bool.or_eq_true, decide_eq_true_eq, ne_eq, and_two_pow_inj, encode_div ha]
    grind

/-- The ring is full if the pointers are one turn apart. -/
theorem notFull_encode (hr : r ≤ w) (hw : w ≤ r + c.txrxBdSize) :
    c.notFull (c.encode w) (c.encode r) = decide (w < r + c.txrxBdSize) := by
  have hn := c.size_pos
  have hiff := full_iff_of_turn hn hr hw
  unfold notFull
  rw [Bool.eq_iff_iff]
  cases ha : c.reg.useAdma with
  | true =>
    have hw' := index_encode (c := c) (p := w)
    have hr' := index_encode (c := c) (p := r)
    rw [index] at hw' hr'
    simp only [if_true, hw', hr', Bool.not_eq_true', Bool.and_eq_false_iff, beq_eq_false_iff_ne, bne_eq_false_iff_eq,
      decide_eq_true_eq]
    rw [c.size_eq, and_two_pow_inj, ← c.size_eq, encode_adma_div ha, encode_adma_div ha]
    grind
  | false =>
    simp only [Bool.false_eq_true, if_false, c.mask_eq ha, c.rollover_eq ha, Nat.and_two_pow_sub_one_eq_mod,
      encode_mod ha, Bool.or_eq_true, bne_iff_ne, beq_iff_eq, and_two_pow_inj, encode_div ha, decide_eq_true_eq]
    grind

end RingConfig

end WlanDriver.Pcie
