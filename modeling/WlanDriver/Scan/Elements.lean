import Mathlib.Algebra.GroupWithZero.Nat
import WlanDriver.Scan.Results
import Mathlib.Data.List.TakeWhile

/-!
# Lists of elements

`for_each_element` on octets that are whole elements one behind the other (`forEachElement_chain`), and such lists as the
standard has them : an element too long for 255 octets goes on in fragments right behind it, each full but the last
(`Fragmented`). The octets of a list tell which elements it has (`Fragmented.octets_injective`).
-/

namespace WlanDriver.Scan

open List Element

/-- `MULTI_BSSID`. -/
def elemMultiBssid : UInt8 := 71

/-- `NONTX_BSSID_CAP`. -/
def elemNontxBssidCap : UInt8 := 83

/-- `MBSSID_INDEX`. -/
def elemMbssidIndex : UInt8 := 85

/-- `FRAGMENT`. -/
def elemFragment : UInt8 := 242

/-- `NON_INHERITANCE`, of the elements `EXTENSION`. -/
def extNonInheritance : UInt8 := 56

deriving instance DecidableEq for Element

/-- The octets of elements one behind the other. -/
def Element.chain (es : List Element) : List UInt8 :=
  es.flatMap octets

@[simp] theorem Element.chain_nil : Element.chain [] = [] :=
  rfl

@[simp] theorem Element.chain_cons (e : Element) (es : List Element) :
    chain (e :: es) = e.octets ++ chain es :=
  flatMap_cons

@[simp] theorem Element.chain_append (es fs : List Element) :
    chain (es ++ fs) = chain es ++ chain fs :=
  flatMap_append

theorem length_take_octet_le (n : UInt8) (bs : List UInt8) : (bs.take n.toNat).length ≤ 255 :=
  (length_take_le _ _).trans (Nat.lt_succ_iff.mp n.toNat_lt)

/-- The turns of `for_each_element` : up to the first element that is not whole. Every turn takes two octets at least,
and `fuel` is not less than the length. -/
def forEachElementTurns : ℕ → List UInt8 → List Element
  | 0, _ => []
  | fuel + 1, elementId :: len :: behind =>
    if len.toNat ≤ behind.length then
      ⟨elementId, behind.take len.toNat, length_take_octet_le len behind⟩ ::
        forEachElementTurns fuel (behind.drop len.toNat)
    else []
  | _ + 1, _ => []

/-- `for_each_element` : the elements in the octets. -/
def forEachElement (bs : List UInt8) : List Element :=
  forEachElementTurns bs.length bs

theorem toNat_ofNat_length (e : Element) : (UInt8.ofNat e.data.length).toNat = e.data.length := by
  have hle := e.length_le
  rw [UInt8.toNat_ofNat']
  omega

theorem Element.chain_cons_octets (e : Element) (es : List Element) :
    chain (e :: es) = e.elementId :: UInt8.ofNat e.data.length :: (e.data ++ chain es) :=
  rfl

theorem Element.length_chain_le {e : Element} {es : List Element} {fuel : ℕ}
    (h : (chain (e :: es)).length ≤ fuel + 1) : (chain es).length ≤ fuel := by
  rw [chain_cons_octets, length_cons, length_cons, length_append] at h
  omega

theorem forEachElementTurns_chain : ∀ (es : List Element) (fuel : ℕ), (Element.chain es).length ≤ fuel →
    forEachElementTurns fuel (chain es) = es
  | [], 0, _ => rfl
  | [], _ + 1, _ => rfl
  | e :: es, 0, h => absurd h (by simp [octets])
  | e :: es, fuel + 1, h => by
    rw [chain_cons_octets, forEachElementTurns]
    simp only [toNat_ofNat_length, take_left, drop_left]
    rw [if_pos (by rw [length_append]; omega), forEachElementTurns_chain es fuel (length_chain_le h)]

theorem forEachElement_chain (es : List Element) : forEachElement (Element.chain es) = es :=
  forEachElementTurns_chain es _ le_rfl

theorem Element.chain_injective : Function.Injective Element.chain := fun es fs h => by
  rw [← forEachElement_chain es, h, forEachElement_chain]

/-! ## Types and fragments -/

/-- The type of an element : its id, and the extension id if it is an extension. -/
@[ext]
structure ElementType where
  id : UInt8
  extId : Option UInt8
  deriving DecidableEq

/-- The type of an element. -/
def Element.type (e : Element) : ElementType :=
  ⟨e.elementId, if e.elementId = elemExtension then e.data.head? else none⟩

/-- An element with the fragments that it goes on in. An extension has its extension id. -/
structure Fragmented where
  head : Element
  fragments : List Element
  head_ne : head.elementId ≠ elemFragment
  extension : head.elementId = elemExtension → head.data ≠ []
  fragment : ∀ f ∈ fragments, f.elementId = elemFragment
  full : ∀ f ∈ (head :: fragments).dropLast, f.data.length = 255

namespace Fragmented

/-- The element and its fragments. -/
def pieces (u : Fragmented) : List Element :=
  u.head :: u.fragments

/-- The type of the element. -/
def type (u : Fragmented) : ElementType :=
  u.head.type

/-- The elements of a list, the fragments behind theirs. -/
def elements (us : List Fragmented) : List Element :=
  us.flatMap pieces

/-- The octets of a list. -/
def octets (us : List Fragmented) : List UInt8 :=
  chain (elements us)

@[simp] theorem elements_nil : elements [] = [] :=
  rfl

@[simp] theorem elements_cons (u : Fragmented) (us : List Fragmented) : elements (u :: us) = u.pieces ++ elements us :=
  flatMap_cons

@[simp] theorem elements_append (us vs : List Fragmented) : elements (us ++ vs) = elements us ++ elements vs :=
  flatMap_append

@[simp] theorem octets_nil : octets [] = [] :=
  rfl

@[simp] theorem octets_cons (u : Fragmented) (us : List Fragmented) :
    octets (u :: us) = chain u.pieces ++ octets us := by
  rw [octets, elements_cons, chain_append, octets]

@[simp] theorem octets_append (us vs : List Fragmented) : octets (us ++ vs) = octets us ++ octets vs := by
  rw [octets, elements_append, chain_append, octets, octets]

theorem length_octets (us : List Fragmented) :
    (octets us).length = (us.map fun u => (chain u.pieces).length).sum := by
  induction us with
  | nil => rfl
  | cons u us ih => rw [octets_cons, length_append, ih, map_cons, sum_cons]

/-- Behind an element with its fragments comes no fragment. -/
theorem head?_elements (us : List Fragmented) : ∀ e ∈ (elements us).head?, e.elementId ≠ elemFragment := by
  intro e he
  cases us with
  | nil => simp at he
  | cons u us =>
    have hu : u.head = e := by simpa [pieces] using he
    exact hu ▸ u.head_ne

theorem takeWhile_fragments (u : Fragmented) (us : List Fragmented) :
    (u.fragments ++ elements us).takeWhile (fun e => e.elementId = elemFragment) = u.fragments := by
  have hall : ∀ e ∈ u.fragments, decide (e.elementId = elemFragment) = true := fun e he => by simpa using u.fragment e he
  rw [takeWhile_append_of_pos hall]
  have hnil : (elements us).takeWhile (fun e => e.elementId = elemFragment) = [] := by
    refine takeWhile_eq_nil_iff.mpr fun hlen => ?_
    have hne := head?_elements us (elements us)[0] (by rw [head?_eq_getElem?, getElem?_eq_getElem hlen]; rfl)
    simpa using hne
  rw [hnil, append_nil]

theorem elements_injective : ∀ {us vs : List Fragmented}, elements us = elements vs → us = vs
  | [], [], _ => rfl
  | [], v :: vs, h => by
    simp [pieces] at h
  | u :: us, [], h => by
    simp [pieces] at h
  | u :: us, v :: vs, h => by
    rw [elements_cons, elements_cons, pieces, pieces, cons_append, cons_append] at h
    obtain ⟨hhead, hrest⟩ := cons_eq_cons.mp h
    have hfragments : u.fragments = v.fragments := by
      rw [← takeWhile_fragments u us, hrest, takeWhile_fragments]
    have huv : u = v := by
      obtain ⟨_, _, _, _, _, _⟩ := u
      obtain ⟨_, _, _, _, _, _⟩ := v
      obtain rfl : _ = _ := hhead
      obtain rfl : _ = _ := hfragments
      rfl
    rw [huv] at hrest
    rw [huv, elements_injective (append_cancel_left hrest)]

theorem octets_injective : Function.Injective octets := fun _ _ h =>
  elements_injective (chain_injective h)

end Fragmented

end WlanDriver.Scan
