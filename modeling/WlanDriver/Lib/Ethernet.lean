import Mathlib.Data.Nat.Basic
import Mathlib.Tactic.Common

/-!
# Ethernet frames

Octets of a frame, read in network order, MAC addresses, and the EtherType behind a stack of
VLAN tags.

A tag is four octets : two of tag control information and the EtherType of what follows. `innermost`
walks the tags from the EtherType in front of them; it has no result when the frame ends inside
the stack. `Mac.isGroupReserved_iff` says which addresses are in the block
`01:80:C2:00:00:00 .. 01:80:C2:00:00:0F` that bridges must not forward.
-/

namespace WlanDriver.Ethernet

/-! ## EtherTypes -/

def ethPIp : UInt16 := 0x0800

def ethPArp : UInt16 := 0x0806

def ethP8021Q : UInt16 := 0x8100

def ethP8021AD : UInt16 := 0x88a8

/-- `ETH_P_PAE`, EAPOL. -/
def ethPPae : UInt16 := 0x888e

/-- `eth_type_vlan` : the EtherTypes of VLAN tags. -/
def ethTypeVlan (t : UInt16) : Bool :=
  t == ethP8021Q || t == ethP8021AD

/-! ## Octets -/

/-- The octet at `i`, zero behind the end. -/
def octet (bs : List UInt8) (i : ℕ) : UInt8 :=
  bs.getD i 0

/-- The 16-bit field at `i` in network order. -/
def be16 (bs : List UInt8) (i : ℕ) : UInt16 :=
  (octet bs i).toUInt16 <<< 8 ||| (octet bs (i + 1)).toUInt16

/-- The 32-bit field at `i` in network order. -/
def be32 (bs : List UInt8) (i : ℕ) : UInt32 :=
  (be16 bs i).toUInt32 <<< 16 ||| (be16 bs (i + 2)).toUInt32

theorem octet_append_add (as bs : List UInt8) (i : ℕ) :
    octet (as ++ bs) (as.length + i) = octet bs i := by
  simp [octet, List.getD_eq_getElem?_getD, List.getElem?_append_right]

/-- A field behind a header of `as.length` octets. -/
theorem be16_append_add (as bs : List UInt8) (i : ℕ) :
    be16 (as ++ bs) (as.length + i) = be16 bs i := by
  unfold be16
  rw [octet_append_add, Nat.add_assoc, octet_append_add]

/-- The EtherType behind the VLAN tags that start with EtherType `t` in front of `bs`. -/
def innermost (t : UInt16) (bs : List UInt8) : Option UInt16 :=
  match bs with
  | _ :: _ :: hi :: lo :: rest =>
    if ethTypeVlan t then innermost (be16 [hi, lo] 0) rest else some t
  | _ => if ethTypeVlan t then none else some t

theorem innermost_of_not_vlan {t : UInt16} (h : ethTypeVlan t = false) (bs : List UInt8) :
    innermost t bs = some t := by
  unfold innermost
  split <;> simp [h]

/-! ## MAC addresses -/

/-- A MAC address. -/
structure Mac where
  b0 : UInt8
  b1 : UInt8
  b2 : UInt8
  b3 : UInt8
  b4 : UInt8
  b5 : UInt8
  deriving DecidableEq

namespace Mac

def octets (m : Mac) : List UInt8 :=
  [m.b0, m.b1, m.b2, m.b3, m.b4, m.b5]

/-- The address as a number, first octet most significant. -/
def toNat (m : Mac) : ℕ :=
  m.octets.foldl (fun n b => n * 256 + b.toNat) 0

/-- `is_multicast_ether_addr` : the group bit. -/
def isMulticast (m : Mac) : Bool :=
  m.b0 &&& 1 != 0

/-- The comparison of the octets with the bridge group block. -/
def isGroupReserved (m : Mac) : Bool :=
  m.b0 == 0x01 && m.b1 == 0x80 && m.b2 == 0xc2 && m.b3 == 0x00 && m.b4 == 0x00 &&
    m.b5 &&& 0xf0 == 0x00

theorem and_f0_eq_zero_iff (b : UInt8) : b &&& 0xf0 = 0x00 ↔ b.toNat < 16 := by
  have h : ∀ v : BitVec 8, v &&& 0xf0 = 0x00 ↔ v.toNat < 16 := by decide
  rw [← UInt8.toBitVec_inj]
  exact h b.toBitVec

/-- The octet comparison is membership in the block. -/
theorem isGroupReserved_iff (m : Mac) :
    m.isGroupReserved = true ↔ 0x0180c2000000 ≤ m.toNat ∧ m.toNat ≤ 0x0180c200000f := by
  obtain ⟨b0, b1, b2, b3, b4, b5⟩ := m
  have h0 := b0.toNat_lt
  have h1 := b1.toNat_lt
  have h2 := b2.toNat_lt
  have h3 := b3.toNat_lt
  have h4 := b4.toNat_lt
  have h5 := b5.toNat_lt
  simp only [isGroupReserved, toNat, octets, List.foldl_cons, List.foldl_nil, Bool.and_eq_true,
    beq_iff_eq, and_f0_eq_zero_iff]
  simp only [← UInt8.toNat_inj]
  constructor
  · rintro ⟨⟨⟨⟨⟨e0, e1⟩, e2⟩, e3⟩, e4⟩, e5⟩
    simp only [UInt8.reduceToNat] at e0 e1 e2 e3 e4
    omega
  · rintro ⟨hlo, hhi⟩
    simp only [UInt8.reduceToNat]
    omega

end Mac

/-- The Ethernet header. -/
structure EthHdr where
  dest : Mac
  source : Mac
  proto : UInt16
  deriving DecidableEq

def ethHlen : ℕ := 14

def vlanHlen : ℕ := 4

/-- The header as it stands in front of its payload. -/
def EthHdr.octets (e : EthHdr) : List UInt8 :=
  e.dest.octets ++ e.source.octets ++ [(e.proto >>> 8).toUInt8, e.proto.toUInt8]

theorem EthHdr.length_octets (e : EthHdr) : e.octets.length = ethHlen := rfl

/-- The header in front of `bs`. -/
def EthHdr.ofOctets (bs : List UInt8) : EthHdr :=
  ⟨⟨octet bs 0, octet bs 1, octet bs 2, octet bs 3, octet bs 4, octet bs 5⟩,
    ⟨octet bs 6, octet bs 7, octet bs 8, octet bs 9, octet bs 10, octet bs 11⟩, be16 bs 12⟩

/-! ## Behind the tags -/

/-- The EtherType behind the VLAN tags that start with EtherType `t` in front of `bs`, and the offset in `bs` of what
it is the type of. -/
def innermostAt (t : UInt16) (bs : List UInt8) : Option (UInt16 × ℕ) :=
  match bs with
  | _ :: _ :: hi :: lo :: rest =>
    if ethTypeVlan t then (innermostAt (be16 [hi, lo] 0) rest).map fun p => (p.1, p.2 + vlanHlen)
    else some (t, 0)
  | _ => if ethTypeVlan t then none else some (t, 0)

theorem innermostAt_fst (t : UInt16) (bs : List UInt8) : (innermostAt t bs).map Prod.fst = innermost t bs := by
  fun_induction innermostAt t bs with
  | case1 t _ _ hi lo rest hv ih =>
    rw [innermost, if_pos hv, ← ih, Option.map_map]
    rfl
  | case2 t _ _ hi lo rest hv => rw [innermost, if_neg hv, Option.map_some]
  | case3 bs t hv hbs => rw [innermost.eq_2 t bs hbs, if_pos hv, Option.map_none]
  | case4 bs t hv hbs => rw [innermost.eq_2 t bs hbs, if_neg hv, Option.map_some]

theorem innermostAt_of_not_vlan {t : UInt16} (h : ethTypeVlan t = false) (bs : List UInt8) :
    innermostAt t bs = some (t, 0) := by
  unfold innermostAt
  split <;> simp [h]

/-- Behind the tags stands no tag. -/
theorem not_vlan_of_innermostAt {t : UInt16} {bs : List UInt8} {p : UInt16 × ℕ} (h : innermostAt t bs = some p) :
    ethTypeVlan p.1 = false := by
  fun_induction innermostAt t bs generalizing p with
  | case1 t _ _ hi lo rest hv ih =>
    obtain ⟨q, hq, rfl⟩ := Option.map_eq_some_iff.mp h
    have hin := ih hq
    exact hin
  | case2 t _ _ hi lo rest hv => simpa [← Option.some.inj h] using hv
  | case3 bs t hv hbs => cases h
  | case4 bs t hv hbs => simpa [← Option.some.inj h] using hv

theorem innermostAt_of_tag {t : UInt16} {bs : List UInt8} {p : UInt16 × ℕ} (ht : ethTypeVlan t = true)
    (h : innermostAt t bs = some p) (hp : ethTypeVlan (be16 bs 2) = false) : p = (be16 bs 2, vlanHlen) := by
  match bs with
  | a :: b :: hi :: lo :: rest =>
    have htag : be16 (a :: b :: hi :: lo :: rest) 2 = be16 [hi, lo] 0 := rfl
    rw [htag] at hp ⊢
    rw [innermostAt, if_pos ht, innermostAt_of_not_vlan hp] at h
    simpa using h.symm
  | [] | [_] | [_, _] | [_, _, _] => simp [innermostAt, ht] at h

end WlanDriver.Ethernet
