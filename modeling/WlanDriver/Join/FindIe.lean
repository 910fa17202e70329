import WlanDriver.Join.AssocRecords
import WlanDriver.Scan.Elements

/-!
# The search for an element

`wlan_find_ie` walks over the generic elements of the user, and an association tells the operating classes of the card unless
they are among these. What is left of the elements has 8 bits and a sign, and so has the size of an element when it is
compared with that : more than 127 octets are not searched at all, and an element that states 126 octets or more is taken for
whole. `find_ie_iff` tells where a call is right all the same.
-/

namespace WlanDriver.Join.Assoc

open Scan List

def regulatoryClass : UInt8 := 59

/-- What a number is as a `t_s8`. -/
def toS8 (x : ℤ) : ℤ :=
  if x % 256 < 128 then x % 256 else x % 256 - 256

/-- The loop of `wlan_find_ie` at `pos` : the answer, and the end of what was read. None if `fuel` turns are not enough. -/
def findIe (m : Mem) (ieType : UInt8) : ℕ → ℕ → ℤ → Option (Bool × ℕ)
  | 0, _, _ => none
  | fuel + 1, pos, retLen =>
    if 2 ≤ retLen then
      let size := (m (pos + 1)).toNat + 2
      if retLen < toS8 size then some (false, pos + 2)
      else if m pos = ieType then some (true, pos + 2)
      else (findIe m ieType fuel (pos + size) (toS8 (retLen - size))).map fun r => (r.1, max (pos + 2) r.2)
    else some (false, 0)

/-- An element with the id is among some. -/
def Supplied (es : List Element) (id : UInt8) : Prop :=
  ∃ el ∈ es, el.elementId = id

/-- With `found` as the result of the search, an association tells the operating classes exactly if the user does not. -/
def TellsUnless (es : List Element) (found : Bool) : Prop :=
  ∀ e : Setting, e.adapter.ecsaEnable = true → e.calls.currOperClass.isSome = true → e.calls.findIe = found →
    (e.tellsOperClass.isSome = true ↔ ¬Supplied es regulatoryClass)

/-- The loop at `pos`, with `bs` in front of it : it ends, reads nothing else, and finds what is among the elements `es`. -/
def Searched (m : Mem) (id : UInt8) (pos len : ℕ) (retLen : ℤ) (es : List Element) : Prop :=
  ∃ fuel found last, findIe m id fuel pos retLen = some (found, last) ∧ last ≤ pos + len ∧ (found = true ↔ Supplied es id) ∧
    (id = regulatoryClass → TellsUnless es found)

/-- No element is whole at the start of the octets. -/
def Broken (bs : List UInt8) : Prop :=
  ∀ i len behind, bs = i :: len :: behind → behind.length < len.toNat

/-- A broken element ends the search, and is not what is searched for. -/
def EndsAt (id : UInt8) : List UInt8 → Prop
  | i :: len :: behind => len.toNat ≤ 125 ∨ i ≠ id ∧ toS8 (behind.length - len.toNat) < 2
  | _ => True

/-- Where a call on these octets is right. -/
def FindsIn (bs : List UInt8) (id : UInt8) : Prop :=
  let es := forEachElement bs
  if bs.length ≤ 127 then Supplied es id ∨ EndsAt id (bs.drop (Element.chain es).length) else ¬Supplied es id

/-! ## Elements -/

theorem exists_broken : ∀ (fuel : ℕ) (bs : List UInt8), bs.length ≤ fuel →
    ∃ rest, Broken rest ∧ bs = Element.chain (forEachElementTurns fuel bs) ++ rest
  | 0, [], _ => ⟨[], nofun, rfl⟩
  | _ + 1, [], _ => ⟨[], nofun, rfl⟩
  | _ + 1, [b], _ => ⟨[b], nofun, rfl⟩
  | fuel + 1, i :: len :: behind, h => by
    rw [forEachElementTurns]
    split_ifs with hle
    · have hlen : (behind.drop len.toNat).length ≤ fuel := by
        rw [length_cons, length_cons] at h
        rw [length_drop]
        omega
      obtain ⟨rest, hrest, heq⟩ := exists_broken fuel _ hlen
      refine ⟨rest, hrest, ?_⟩
      rw [Element.chain_cons_octets, length_take_of_le hle, UInt8.ofNat_toNat, cons_append, cons_append, append_assoc, ← heq,
        take_append_drop]
    · refine ⟨_, ?_, rfl⟩
      rintro _ _ _ ⟨⟩
      exact Nat.lt_of_not_le hle

theorem supplied_cons {el : Element} {es : List Element} {id : UInt8} :
    Supplied (el :: es) id ↔ el.elementId = id ∨ Supplied es id := by
  simp [Supplied]

theorem tellsUnless_of_iff {es : List Element} {found : Bool} (h : found = true ↔ Supplied es regulatoryClass) :
    TellsUnless es found := by
  intro e hecsa hclass hfind
  rw [← h, ← hfind, Setting.tellsOperClass]
  cases e.calls.findIe <;> simp [hecsa, hclass]

/-! ## The loop -/

section

variable {m : Mem} {id : UInt8} {pos fuel : ℕ} {retLen : ℤ}

theorem searched_of {len : ℕ} {es : List Element} (fuel : ℕ) (found : Bool) (last : ℕ)
    (h : findIe m id fuel pos retLen = some (found, last))
    (hlast : last ≤ pos + len) (hfound : found = true ↔ Supplied es id) : Searched m id pos len retLen es :=
  ⟨fuel, found, last, h, hlast, hfound, fun hid => tellsUnless_of_iff (hid ▸ hfound)⟩

/-- A turn reads the header. -/
theorem le_last {found : Bool} {last : ℕ} (hlen : 2 ≤ retLen) (h : findIe m id fuel pos retLen = some (found, last)) :
    pos + 2 ≤ last := by
  cases fuel with
  | zero => simp [findIe] at h
  | succ fuel =>
    rw [findIe, if_pos hlen] at h
    dsimp only at h
    split_ifs at h
    · exact (Prod.mk.inj (Option.some.inj h)).2.le
    · exact (Prod.mk.inj (Option.some.inj h)).2.le
    · obtain ⟨r, -, hr⟩ := Option.map_eq_some_iff.mp h
      exact (Prod.mk.inj hr).2 ▸ le_max_left _ _

/-- Behind the last element that is whole. -/
theorem searched_nil {rest : List UInt8} (hbroken : Broken rest) (hlen : rest.length ≤ 127)
    (hread : m.read pos rest.length = rest) : Searched m id pos rest.length rest.length [] ↔ EndsAt id rest := by
  have hnone : false = true ↔ Supplied [] id := by simp [Supplied]
  match rest with
  | [] => exact iff_of_true (searched_of 1 false 0 rfl (Nat.zero_le _) hnone) trivial
  | [_] => exact iff_of_true (searched_of 1 false 0 rfl (Nat.zero_le _) hnone) trivial
  | i :: len :: behind =>
    have hlt := hbroken i len behind rfl
    have hoctets := (Mem.read_eq_iff.mp hread).2
    have hi : m pos = i := hoctets 0 (by simp)
    have hl : m (pos + 1) = len := hoctets 1 (by simp)
    have h255 := len.toNat_lt
    rw [length_cons, length_cons] at hlen
    have htwo : (2 : ℤ) ≤ ((i :: len :: behind).length : ℕ) := by
      rw [length_cons, length_cons]
      omega
    have hturn : ∀ fuel, findIe m id (fuel + 1) pos ((i :: len :: behind).length : ℕ) =
        if len.toNat ≤ 125 then some (false, pos + 2) else if i = id then some (true, pos + 2) else
          (findIe m id fuel (pos + (len.toNat + 2)) (toS8 (behind.length - len.toNat))).map
            fun r => (r.1, max (pos + 2) r.2) := by
      intro fuel
      have hsub : (((i :: len :: behind).length : ℕ) : ℤ) - ((len.toNat + 2 : ℕ) : ℤ) = behind.length - len.toNat := by
        rw [length_cons, length_cons]
        omega
      have hsize : (((i :: len :: behind).length : ℕ) : ℤ) < toS8 ((len.toNat + 2 : ℕ) : ℤ) ↔ len.toNat ≤ 125 := by
        rw [length_cons, length_cons]
        unfold toS8
        split_ifs <;> omega
      rw [findIe, if_pos htwo]
      simp only [hi, hl, hsub, hsize]
    unfold EndsAt
    by_cases hshort : len.toNat ≤ 125
    · refine iff_of_true (searched_of 1 false (pos + 2) ?_ ?_ hnone) (.inl hshort)
      · rw [hturn, if_pos hshort]
      · rw [length_cons, length_cons]
        omega
    · constructor
      · rintro ⟨fuel, found, last, h, hlast, hfound, -⟩
        obtain rfl : found = false := by simpa [Supplied] using hfound
        cases fuel with
        | zero => simp [findIe] at h
        | succ fuel =>
          rw [hturn, if_neg hshort] at h
          split_ifs at h with hid
          · simp at h
          · refine .inr ⟨hid, lt_of_not_ge fun hge => ?_⟩
            obtain ⟨⟨b, end'⟩, hnext, hr⟩ := Option.map_eq_some_iff.mp h
            have hend := le_last hge hnext
            have hmax := (Prod.mk.inj hr).2
            rw [length_cons, length_cons] at hlast
            dsimp only at hmax
            omega
      · rintro (hle | ⟨hid, hlt⟩)
        · exact absurd hle hshort
        · refine searched_of 2 false (pos + 2) ?_ ?_ hnone
          · rw [hturn, if_neg hshort, if_neg hid, findIe, if_neg (by omega)]
            simp
          · rw [length_cons, length_cons]
            omega

/-- Elements that are whole are walked over one by one. -/
theorem searched_iff {rest : List UInt8} (hbroken : Broken rest) : ∀ (es : List Element) (pos : ℕ),
    (Element.chain es ++ rest).length ≤ 127 →
      m.read pos (Element.chain es ++ rest).length = Element.chain es ++ rest →
        (Searched m id pos (Element.chain es ++ rest).length (Element.chain es ++ rest).length es ↔
          Supplied es id ∨ EndsAt id rest)
  | [], pos, hlen, hread => by
    rw [or_iff_right (by simp [Supplied])]
    exact searched_nil hbroken hlen hread
  | el :: es, pos, hlen, hread => by
    have hoctets := (Mem.read_eq_iff.mp hread).2
    have hsize : el.octets.length = el.data.length + 2 := rfl
    have htotal : (Element.chain (el :: es) ++ rest).length = el.data.length + 2 + (Element.chain es ++ rest).length := by
      rw [Element.chain_cons, append_assoc, length_append, hsize]
    have hi : m pos = el.elementId := hoctets 0 (by rw [htotal]; omega)
    have hl : (m (pos + 1)).toNat = el.data.length := by
      rw [← toNat_ofNat_length el]
      exact congrArg UInt8.toNat (hoctets 1 (by rw [htotal]; omega))
    have hbehind : m.read (pos + (el.data.length + 2)) (Element.chain es ++ rest).length = Element.chain es ++ rest := by
      rw [Element.chain_cons, append_assoc, Mem.read_append_iff, hsize] at hread
      exact hread.2
    rw [htotal] at hlen ⊢
    have ih := searched_iff hbroken es (pos + (el.data.length + 2)) (by omega) hbehind
    generalize (Element.chain es ++ rest).length = n at hlen ih ⊢
    have hturn : ∀ fuel, findIe m id (fuel + 1) pos ((el.data.length + 2 + n : ℕ) : ℤ) =
        if el.elementId = id then some (true, pos + 2) else
          (findIe m id fuel (pos + (el.data.length + 2)) n).map fun r => (r.1, max (pos + 2) r.2) := by
      intro fuel
      have hwhole : ¬((el.data.length + 2 + n : ℕ) : ℤ) < toS8 ((el.data.length + 2 : ℕ) : ℤ) := by
        unfold toS8
        split_ifs <;> omega
      have hleft : toS8 (((el.data.length + 2 + n : ℕ) : ℤ) - ((el.data.length + 2 : ℕ) : ℤ)) = n := by
        unfold toS8
        split_ifs <;> omega
      rw [findIe, if_pos (by omega)]
      simp only [hi, hl, if_neg hwhole, hleft]
    rw [supplied_cons]
    by_cases hid : el.elementId = id
    · refine iff_of_true (searched_of 1 true (pos + 2) ?_ (by omega) ?_) (.inl (.inl hid))
      · rw [hturn, if_pos hid]
      · simp [supplied_cons, hid]
    · rw [or_iff_right hid, ← ih]
      constructor
      · rintro ⟨fuel, found, last, h, hlast, hfound, -⟩
        cases fuel with
        | zero => simp [findIe] at h
        | succ fuel =>
          rw [hturn, if_neg hid] at h
          obtain ⟨⟨b, end'⟩, hnext, hr⟩ := Option.map_eq_some_iff.mp h
          obtain ⟨rfl, hmax⟩ := Prod.mk.inj hr
          rw [supplied_cons, or_iff_right hid] at hfound
          dsimp only at hmax
          exact searched_of _ _ _ hnext (by omega) hfound
      · rintro ⟨fuel, found, last, h, hlast, hfound, -⟩
        refine searched_of (fuel + 1) found (max (pos + 2) last) ?_ (by omega) ?_
        · rw [hturn, if_neg hid, h]
          rfl
        · rw [hfound, supplied_cons, or_iff_right hid]

end

/-- **The search for an element.** A call on `ie_len` octets of a buffer ends, reads only these, and finds exactly what is among
the whole elements, so that the association tells the operating classes exactly if the user does not, if and only if there
are at most 127 octets and the element is found or a broken one ends the search, or there are more and it is not there. -/
theorem find_ie_iff (m : Mem) (ieLen id : UInt8) :
    Searched m id 0 ieLen.toNat (toS8 ieLen.toNat) (forEachElement (m.read 0 ieLen.toNat)) ↔
      FindsIn (m.read 0 ieLen.toNat) id := by
  obtain ⟨rest, hbroken, heq⟩ : ∃ rest, Broken rest ∧ m.read 0 ieLen.toNat =
    Element.chain (forEachElement (m.read 0 ieLen.toNat)) ++ rest := exists_broken _ _ le_rfl
  have hlength := m.length_read 0 ieLen.toNat
  have h255 := ieLen.toNat_lt
  unfold FindsIn
  dsimp only
  rw [hlength]
  generalize forEachElement (m.read 0 ieLen.toNat) = es at heq ⊢
  split_ifs with hle
  · have hs8 : toS8 ieLen.toNat = (ieLen.toNat : ℤ) := by
      unfold toS8
      split_ifs <;> omega
    have hlen : ieLen.toNat = (Element.chain es ++ rest).length := by rw [← heq, hlength]
    rw [hs8, heq, drop_left]
    rw [hlen] at hle heq ⊢
    exact searched_iff hbroken es 0 hle heq
  · have hneg : toS8 ieLen.toNat < 2 := by
      unfold toS8
      split_ifs <;> omega
    constructor
    · rintro ⟨fuel, found, last, h, -, hfound, -⟩ hsupplied
      cases fuel with
      | zero => simp [findIe] at h
      | succ fuel =>
        rw [findIe, if_neg hneg.not_ge] at h
        have hfalse := (Prod.mk.inj (Option.some.inj h)).1
        exact Bool.false_ne_true (hfalse.trans (hfound.mpr hsupplied))
    · intro hnot
      exact searched_of 1 false 0 (if_neg hneg.not_ge) (Nat.zero_le _) (by simpa using hnot)

/-- The header of an operating class element that states 126 octets, with one octet behind it, is taken for the element. -/
theorem find_ie_cut : ∃ (m : Mem) (ieLen id : UInt8),
    ¬Searched m id 0 ieLen.toNat (toS8 ieLen.toNat) (forEachElement (m.read 0 ieLen.toNat)) := by
  refine ⟨fun a => [59, 126].getD a 0, 3, regulatoryClass, ?_⟩
  rintro ⟨fuel, found, last, h, -, hfound, -⟩
  cases fuel with
  | zero => simp [findIe] at h
  | succ fuel =>
    obtain ⟨rfl, -⟩ : true = found ∧ 2 = last := by simpa [findIe, toS8, regulatoryClass] using h
    obtain ⟨el, hel, -⟩ := hfound.mp rfl
    exact absurd hel (by simp [Mem.read, range_succ, forEachElement, forEachElementTurns])

end WlanDriver.Join.Assoc
