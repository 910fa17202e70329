import WlanDriver.Lib.Memory

/-!
# Chains of records

A record is a type and a length of 16 bits each, the low octet first, and as many octets as the length says (`Tlv`). A chain
is one record behind the other without a gap; `parse` reads it, and reads nothing else (`parse_eq_some_iff`). `find` walks
along a chain in memory to the first record of a type.
-/

namespace WlanDriver

open List

/-- A record : its type and its value. -/
@[ext]
structure Tlv where
  type : UInt16
  value : List UInt8
  length_lt : value.length < 65536

namespace Tlv

/-- A number of 16 bits, the low octet first. -/
def le16 (n : ℕ) : List UInt8 :=
  [UInt8.ofNat n, UInt8.ofNat (n / 256)]

/-- The number in the first two octets. -/
def get16 (bs : List UInt8) : ℕ :=
  (bs.getD 0 0).toNat + 256 * (bs.getD 1 0).toNat

@[simp] theorem length_le16 (n : ℕ) : (le16 n).length = 2 :=
  rfl

theorem get16_le16 {n : ℕ} (h : n < 65536) (bs : List UInt8) : get16 (le16 n ++ bs) = n := by
  have hlow : (UInt8.ofNat n).toNat = n % 256 := by simp
  have hhigh : (UInt8.ofNat (n / 256)).toNat = n / 256 % 256 := by simp
  show (UInt8.ofNat n).toNat + 256 * (UInt8.ofNat (n / 256)).toNat = n
  omega

theorem get16_lt (bs : List UInt8) : get16 bs < 65536 := by
  have h0 := (bs.getD 0 0).toNat_lt
  have h1 := (bs.getD 1 0).toNat_lt
  unfold get16
  omega

theorem le16_get16 (x y : UInt8) (bs : List UInt8) : le16 (get16 (x :: y :: bs)) = [x, y] := by
  have hx := x.toNat_lt
  have hy := y.toNat_lt
  have hget : get16 (x :: y :: bs) = x.toNat + 256 * y.toNat := rfl
  unfold le16
  rw [hget, show (x.toNat + 256 * y.toNat) / 256 = y.toNat by omega, UInt8.ofNat_toNat]
  congr 1
  refine UInt8.toNat_inj.mp ?_
  rw [UInt8.toNat_ofNat']
  omega

/-- The octets of a record. -/
def octets (t : Tlv) : List UInt8 :=
  le16 t.type.toNat ++ (le16 t.value.length ++ t.value)

/-- The record of a type with a value. -/
def make (type : UInt16) (value : List UInt8) : Tlv :=
  ⟨type, value.take 65535, by rw [length_take]; omega⟩

theorem value_make {value : List UInt8} (type : UInt16) (h : value.length < 65536) : (make type value).value = value :=
  take_of_length_le (Nat.lt_succ_iff.mp h)

theorem octets_make {value : List UInt8} (type : UInt16) (h : value.length < 65536) :
    (make type value).octets = le16 type.toNat ++ (le16 value.length ++ value) := by
  rw [octets, value_make type h]
  rfl

/-- The octets of records one behind the other. -/
def chain (ts : List Tlv) : List UInt8 :=
  ts.flatMap octets

@[simp] theorem length_octets (t : Tlv) : t.octets.length = 4 + t.value.length := by
  simp [octets]
  omega

@[simp] theorem chain_nil : chain [] = [] :=
  rfl

@[simp] theorem chain_cons (t : Tlv) (ts : List Tlv) : chain (t :: ts) = t.octets ++ chain ts :=
  flatMap_cons

@[simp] theorem chain_append (ts us : List Tlv) : chain (ts ++ us) = chain ts ++ chain us :=
  flatMap_append

/-! ## Reading a chain -/

/-- The records of a chain, `none` if the octets are none; `fuel` records at most. -/
def walk : ℕ → List UInt8 → Option (List Tlv)
  | _, [] => some []
  | 0, _ :: _ => none
  | fuel + 1, b :: bs =>
    let len := get16 ((b :: bs).drop 2)
    if h : 4 + len ≤ (b :: bs).length then
      let t : Tlv := ⟨UInt16.ofNat (get16 (b :: bs)), ((b :: bs).drop 4).take len, by
        have hlen := get16_lt ((b :: bs).drop 2)
        rw [length_take]
        omega⟩
      (walk fuel ((b :: bs).drop (4 + len))).map (t :: ·)
    else none

/-- The records of a chain. -/
def parse (bs : List UInt8) : Option (List Tlv) :=
  walk bs.length bs

theorem walk_chain : ∀ (ts : List Tlv) (fuel : ℕ), ts.length ≤ fuel → walk fuel (chain ts) = some ts
  | [], _, _ => by
    rw [chain_nil, walk]
  | t :: ts, fuel + 1, h => by
    have htype : get16 (chain (t :: ts)) = t.type.toNat := by
      rw [chain_cons, octets, append_assoc]
      exact get16_le16 t.type.toNat_lt _
    have hlen : get16 ((chain (t :: ts)).drop 2) = t.value.length := by
      rw [chain_cons, octets, append_assoc, drop_left' (length_le16 _), append_assoc]
      exact get16_le16 t.length_lt _
    have hcons : ∃ b bs, chain (t :: ts) = b :: bs := ⟨_, _, rfl⟩
    have hlength : 4 + t.value.length ≤ (chain (t :: ts)).length := by
      rw [chain_cons, length_append, length_octets]
      omega
    have hvalue : ((chain (t :: ts)).drop 4).take t.value.length = t.value := by
      rw [chain_cons, octets, ← append_assoc (le16 _), append_assoc,
        drop_left' (by rw [length_append, length_le16, length_le16]), take_left' rfl]
    have hrest : (chain (t :: ts)).drop (4 + t.value.length) = chain ts := by
      rw [chain_cons, drop_left' (length_octets t)]
    obtain ⟨b, bs, hbs⟩ := hcons
    rw [hbs] at htype hlen hlength hvalue hrest ⊢
    rw [walk]
    dsimp only
    rw [dif_pos (by rw [hlen]; exact hlength)]
    have hrec := walk_chain ts fuel (by simpa using h)
    simp only [hlen, htype, hvalue, hrest, hrec, UInt16.ofNat_toNat, Option.map_some]

theorem chain_of_walk : ∀ (fuel : ℕ) (bs : List UInt8) (ts : List Tlv), walk fuel bs = some ts → bs = chain ts
  | _, [], ts, h => by
    rw [walk] at h
    obtain rfl := Option.some.inj h
    rfl
  | fuel + 1, b :: bs, ts, h => by
    rw [walk] at h
    dsimp only at h
    split at h
    · next hlength =>
      obtain ⟨us, hus, rfl⟩ := Option.map_eq_some_iff.mp h
      have hrec := chain_of_walk fuel _ us hus
      match bs, hlength with
      | c :: d :: e :: bs, hlength =>
        have hhead : octets ⟨UInt16.ofNat (get16 (b :: c :: d :: e :: bs)),
            ((b :: c :: d :: e :: bs).drop 4).take (get16 ((b :: c :: d :: e :: bs).drop 2)), by
              have hlen := get16_lt ((b :: c :: d :: e :: bs).drop 2)
              rw [length_take]
              omega⟩ = (b :: c :: d :: e :: bs).take (4 + get16 ((b :: c :: d :: e :: bs).drop 2)) := by
          have hvalue : (List.take (get16 (d :: e :: bs)) bs).length = get16 (d :: e :: bs) := by
            rw [length_take]
            simp only [length_cons, drop_succ_cons, drop_zero] at hlength
            omega
          have htype : (UInt16.ofNat (get16 (b :: c :: d :: e :: bs))).toNat = get16 (b :: c :: d :: e :: bs) := by
            rw [UInt16.toNat_ofNat', Nat.mod_eq_of_lt (get16_lt _)]
          unfold octets
          simp only [drop_succ_cons, drop_zero, hvalue, htype, le16_get16]
          rw [show 4 + get16 (d :: e :: bs) = get16 (d :: e :: bs) + 4 by omega]
          rfl
        rw [chain_cons, hhead, ← hrec, take_append_drop]
      | [], hlength => simp at hlength; omega
      | [_], hlength => simp at hlength; omega
      | [_, _], hlength => simp at hlength; omega
    · cases h

theorem length_le_chain (ts : List Tlv) : ts.length ≤ (chain ts).length := by
  induction ts with
  | nil => rfl
  | cons t ts ih =>
    rw [chain_cons, length_append, length_octets, length_cons]
    omega

/-- What is read as a chain is the chain of the records that are read. -/
theorem parse_eq_some_iff {bs : List UInt8} {ts : List Tlv} : parse bs = some ts ↔ bs = chain ts :=
  ⟨chain_of_walk _ bs ts, fun h => h ▸ walk_chain ts _ (length_le_chain ts)⟩

/-- A record is read off the octets it begins. -/
theorem octets_append_inj {t u : Tlv} {bs cs : List UInt8} (h : t.octets ++ bs = u.octets ++ cs) : t = u ∧ bs = cs := by
  simp only [octets, append_assoc] at h
  obtain ⟨htype, h⟩ := append_inj h rfl
  obtain ⟨hlen, h⟩ := append_inj h rfl
  have htype := (get16_le16 t.type.toNat_lt []).symm.trans (htype ▸ get16_le16 u.type.toNat_lt [])
  have hlen := (get16_le16 t.length_lt []).symm.trans (hlen ▸ get16_le16 u.length_lt [])
  obtain ⟨hvalue, h⟩ := append_inj h hlen
  exact ⟨Tlv.ext (UInt16.toNat_inj.mp htype) hvalue, h⟩

/-- As many records are read off the octets they begin. -/
theorem chain_append_inj {ts us : List Tlv} {bs cs : List UInt8} (hlen : ts.length = us.length)
    (h : chain ts ++ bs = chain us ++ cs) : ts = us ∧ bs = cs := by
  induction ts generalizing us with
  | nil =>
    obtain rfl := length_eq_zero_iff.mp hlen.symm
    exact ⟨rfl, h⟩
  | cons t ts ih =>
    obtain ⟨u, us, rfl⟩ := exists_cons_of_length_eq_add_one hlen.symm
    rw [chain_cons, chain_cons, append_assoc, append_assoc] at h
    obtain ⟨rfl, htail⟩ := octets_append_inj h
    obtain ⟨rfl, hrest⟩ := ih (by simpa using hlen) htail
    exact ⟨rfl, hrest⟩

end Tlv

/-! ## A chain in memory -/

namespace Mem

variable {m : Mem} {a : ℕ}

/-- The number of 16 bits at `a`. -/
def get16 (m : Mem) (a : ℕ) : ℕ :=
  Tlv.get16 (m.read a 2)

/-- Walk along the records from `pos` on to the first one of a type, not beyond `limit`. -/
def findTlv (m : Mem) (type : ℕ) : ℕ → ℕ → ℕ → Option ℕ
  | 0, _, _ => none
  | fuel + 1, pos, limit =>
    if pos < limit then
      if m.get16 pos = type then some pos else findTlv m type fuel (pos + (4 + m.get16 (pos + 2))) limit
    else none

theorem get16_of_read {n : ℕ} (hn : n < 65536) (h : m.read a 2 = Tlv.le16 n) : m.get16 a = n := by
  rw [get16, h]
  exact append_nil (Tlv.le16 n) ▸ Tlv.get16_le16 hn []

/-- The header of a record in memory. -/
theorem get16_of_octets {t : Tlv} (h : m.read a t.octets.length = t.octets) :
    m.get16 a = t.type.toNat ∧ m.get16 (a + 2) = t.value.length := by
  rw [Tlv.octets, read_append_iff] at h
  obtain ⟨htype, hrest⟩ := h
  rw [Tlv.length_le16, read_append_iff] at hrest
  exact ⟨get16_of_read t.type.toNat_lt htype, get16_of_read t.length_lt hrest.1⟩

/-- The walk goes past the records of other types. -/
theorem findTlv_skip {type limit : ℕ} (pre : List Tlv) (fuel : ℕ) (h : m.read a (Tlv.chain pre).length = Tlv.chain pre)
    (hpre : ∀ t ∈ pre, t.type.toNat ≠ type) (hlimit : a + (Tlv.chain pre).length ≤ limit) :
    m.findTlv type (pre.length + fuel) a limit = m.findTlv type fuel (a + (Tlv.chain pre).length) limit := by
  induction pre generalizing a with
  | nil => rw [length_nil, Nat.zero_add, Tlv.chain_nil, length_nil, Nat.add_zero]
  | cons t pre ih =>
    rw [Tlv.chain_cons, read_append_iff] at h
    obtain ⟨htype, hlen⟩ := get16_of_octets h.1
    rw [Tlv.chain_cons, length_append, Tlv.length_octets] at hlimit
    rw [length_cons, show pre.length + 1 + fuel = pre.length + fuel + 1 by omega, findTlv, if_pos (by omega),
      if_neg (by rw [htype]; exact hpre t mem_cons_self), hlen, ← Tlv.length_octets,
      ih h.2 (fun u hu => hpre u (mem_cons_of_mem t hu)) (by rw [Tlv.length_octets]; omega), Tlv.chain_cons,
      length_append, Nat.add_assoc]

/-- The walk stops at the first record of the type. -/
theorem findTlv_eq_some {limit fuel : ℕ} {pre post : List Tlv} {t : Tlv}
    (h : m.read a (Tlv.chain (pre ++ t :: post)).length = Tlv.chain (pre ++ t :: post))
    (hpre : ∀ u ∈ pre, u.type.toNat ≠ t.type.toNat) (hfuel : pre.length < fuel)
    (hlimit : a + (Tlv.chain (pre ++ t :: post)).length ≤ limit) :
    m.findTlv t.type.toNat fuel a limit = some (a + (Tlv.chain pre).length) := by
  rw [Tlv.chain_append, Tlv.chain_cons, read_append_iff, read_append_iff] at h
  rw [Tlv.chain_append, Tlv.chain_cons, length_append, length_append, Tlv.length_octets] at hlimit
  obtain ⟨fuel, rfl⟩ : ∃ k, fuel = pre.length + (k + 1) := ⟨fuel - pre.length - 1, by omega⟩
  rw [findTlv_skip pre (fuel + 1) h.1 hpre (by omega), findTlv, if_pos (by omega), if_pos (get16_of_octets h.2.1).1]

/-- Without a record of the type the walk ends behind the chain. -/
theorem findTlv_eq_none {type fuel : ℕ} {ts : List Tlv} (h : m.read a (Tlv.chain ts).length = Tlv.chain ts)
    (hts : ∀ t ∈ ts, t.type.toNat ≠ type) (hfuel : ts.length ≤ fuel) :
    m.findTlv type fuel a (a + (Tlv.chain ts).length) = none := by
  obtain ⟨fuel, rfl⟩ := Nat.exists_eq_add_of_le hfuel
  rw [findTlv_skip ts fuel h hts le_rfl]
  match fuel with
  | 0 => rfl
  | fuel + 1 => rw [findTlv, if_neg (lt_irrefl _)]

end Mem

/-! ## Writing a chain -/

/-- A buffer, and the place in it where the next record goes. -/
structure TlvWriter where
  mem : Mem
  pos : ℕ

namespace TlvWriter

variable {w : TlvWriter} {ts : List Tlv} {value : List UInt8} {len : ℕ}

/-- Write a header and a value, and go on by `advance`. -/
def put (w : TlvWriter) (type : UInt16) (len : ℕ) (value : List UInt8) (advance : ℕ) : TlvWriter :=
  { mem := (w.mem.write w.pos (Tlv.le16 type.toNat ++ Tlv.le16 len)).write (w.pos + 4) value
    pos := w.pos + advance }

/-- Write a record, and go on behind it. -/
def putTlv (w : TlvWriter) (type : UInt16) (value : List UInt8) : TlvWriter :=
  w.put type value.length value (4 + value.length)

/-- The records are written, and nothing behind them. -/
structure Wrote (w : TlvWriter) (ts : List Tlv) : Prop where
  pos : w.pos = (Tlv.chain ts).length
  read : w.mem.read 0 (Tlv.chain ts).length = Tlv.chain ts
  zero : ∀ x, w.pos ≤ x → w.mem x = 0

theorem wrote_nil : Wrote ⟨fun _ => 0, 0⟩ [] :=
  ⟨rfl, rfl, fun _ _ => rfl⟩

/-- More records than were written, if the octets behind are these. -/
theorem Wrote.extend (h : w.Wrote ts) {w' : TlvWriter} {us : List Tlv} (hkeep : ∀ x < w.pos, w'.mem x = w.mem x)
    (hpos : w'.pos = w.pos + (Tlv.chain us).length)
    (hread : w'.mem.read w.pos (Tlv.chain us).length = Tlv.chain us) (hzero : ∀ x, w'.pos ≤ x → w'.mem x = 0) :
    w'.Wrote (ts ++ us) := by
  refine ⟨?_, ?_, hzero⟩
  · rw [hpos, h.pos, Tlv.chain_append, length_append]
  · rw [Tlv.chain_append, Mem.read_append_iff, Nat.zero_add, ← h.pos]
    refine ⟨(Mem.read_congr fun i hi => hkeep _ ?_).trans (h.pos ▸ h.read), hread⟩
    rwa [Nat.zero_add]

/-- A header with a length that is not shorter than the value : zeros fill the record. -/
theorem Wrote.put (h : w.Wrote ts) (type : UInt16) (hvalue : value.length ≤ len) (hlen : len < 65536) :
    (w.put type len value (4 + len)).Wrote
      (ts ++ [Tlv.make type (value ++ List.replicate (len - value.length) 0)]) := by
  have hfull : (value ++ List.replicate (len - value.length) (0 : UInt8)).length = len := by
    rw [length_append, length_replicate]
    omega
  have hchain : Tlv.chain [Tlv.make type (value ++ List.replicate (len - value.length) 0)] =
      (Tlv.le16 type.toNat ++ Tlv.le16 len ++ value) ++ List.replicate (len - value.length) 0 := by
    rw [Tlv.chain_cons, Tlv.chain_nil, append_nil, Tlv.octets_make _ (by rw [hfull]; exact hlen), hfull]
    simp only [append_assoc]
  have hlength : (Tlv.le16 type.toNat ++ Tlv.le16 len ++ value).length = 4 + value.length := by
    simp only [length_append, Tlv.length_le16]
  have hmem : (w.put type len value (4 + len)).mem =
      w.mem.write w.pos (Tlv.le16 type.toNat ++ Tlv.le16 len ++ value) :=
    Mem.write_append _ (by rw [length_append, Tlv.length_le16, Tlv.length_le16]) value
  refine h.extend (fun x hx => ?_) ?_ ?_ fun x hx => ?_
  · rw [hmem, Mem.write_apply_of_not_mem (.inl hx)]
  · rw [hchain, length_append, hlength, length_replicate]
    show w.pos + (4 + len) = _
    omega
  · rw [hchain, Mem.read_append_iff, hmem]
    refine ⟨Mem.read_write _ _ _, Mem.read_eq_iff.mpr ⟨rfl, fun i hi => ?_⟩⟩
    rw [Mem.write_apply_of_not_mem (.inr (by omega)), getElem_replicate]
    exact h.zero _ (by omega)
  · have hx : w.pos + (4 + len) ≤ x := hx
    rw [hmem, Mem.write_apply_of_not_mem (.inr (by rw [hlength]; omega))]
    exact h.zero x (by omega)

theorem Wrote.putTlv (h : w.Wrote ts) (type : UInt16) (hlen : value.length < 65536) :
    (w.putTlv type value).Wrote (ts ++ [Tlv.make type value]) := by
  have hput := h.put type le_rfl hlen
  rwa [Nat.sub_self, replicate_zero, append_nil] at hput

/-- Four octets that are skipped are an empty record of type 0. -/
theorem Wrote.skip (h : w.Wrote ts) : Wrote ⟨w.mem, w.pos + 4⟩ (ts ++ [Tlv.make 0 []]) := by
  refine h.extend (fun _ _ => rfl) rfl (Mem.read_eq_iff.mpr ⟨rfl, fun i hi => ?_⟩) fun x hx => h.zero x ?_
  · have hzero : Tlv.chain [Tlv.make 0 []] = List.replicate 4 0 := by
      decide
    simp only [hzero, getElem_replicate]
    exact h.zero _ (by omega)
  · exact (Nat.le_add_right _ _).trans hx

end TlvWriter

/-! ## Writing over what a buffer has -/

namespace TlvWriter

variable {w w' w'' : TlvWriter} {bs cs : List UInt8}

/-- Octets are written where the writer is, it goes on behind them, and what is in front is kept. -/
structure Appends (w w' : TlvWriter) (bs : List UInt8) : Prop where
  pos : w'.pos = w.pos + bs.length
  read : w'.mem.read w.pos bs.length = bs
  keep : ∀ x < w.pos, w'.mem x = w.mem x

theorem Appends.refl (w : TlvWriter) : w.Appends w [] :=
  ⟨rfl, rfl, fun _ _ => rfl⟩

theorem Appends.trans (h : w.Appends w' bs) (h' : w'.Appends w'' cs) : w.Appends w'' (bs ++ cs) := by
  have hpos := h.pos
  refine ⟨?_, ?_, fun x hx => ?_⟩
  · rw [h'.pos, hpos, length_append, Nat.add_assoc]
  · refine Mem.read_append_iff.mpr ⟨(Mem.read_congr fun i hi => h'.keep _ ?_).trans h.read, hpos ▸ h'.read⟩
    omega
  · rw [h'.keep x (by omega), h.keep x hx]

/-- Written under a condition. -/
theorem Appends.ite {c : Prop} [Decidable c] (h : c → w.Appends w' bs) :
    w.Appends (if c then w' else w) (if c then bs else []) := by
  split_ifs with hc
  · exact h hc
  · exact Appends.refl w

end TlvWriter

/-! ## The record of a type -/

namespace Tlv

/-- The type and the length. -/
def shape (t : Tlv) : UInt16 × ℕ :=
  (t.type, t.value.length)

/-- The first record of a type. -/
def ofType (ts : List Tlv) (type : UInt16) : Option Tlv :=
  ts.find? fun t => t.type = type

end Tlv

end WlanDriver
