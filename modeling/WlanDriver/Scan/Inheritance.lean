import WlanDriver.Lib.KeyedMerge
import WlanDriver.Scan.Elements

/-!
# Inheritance of a nontransmitted BSSID

`wlan_gen_new_ie` puts the elements of a nontransmitted BSSID together, from the beacon of the transmitting BSS and the
profile. On lists of whole elements it is `mergeByKey` by the type of the elements (`genNewIe_octets`), and its buffer is
large enough where the profile came in the Multiple BSSID elements of the beacon (`length_merged_le`). The profile
has the say over the types that occur in it, but for the two that describe the profile itself : of these nothing goes
into the list, unless the beacon has one too (`inherits_merged_iff`).
-/

namespace WlanDriver.Scan

open List Option

/-! ## Generating the elements -/

/-- `wlan_find_elem_match` at the offset 0 : from the first element with the id and the octets on, nothing if there is
none. -/
def findElemMatch (eid : UInt8) (subie : List Element) (mtch : List UInt8) : List Element :=
  subie.dropWhile fun elem => ¬(elem.elementId = eid ∧ mtch.length ≤ elem.data.length ∧ elem.data.take mtch.length = mtch)

def isElementInherited (elem : Element) (nonInheritIe : Option Element) : Bool :=
  if elem.elementId = elemMultiBssid then false
  else match nonInheritIe with
  | none => true
  | some ie =>
    let idLen := (ie.data.getD 1 0).toNat
    let extIdLen := (ie.data.getD (2 + idLen) 0).toNat
    if ie.data.length < 2 ∨ ie.data.length < 3 + idLen ∨ ie.data.length < 3 + idLen + extIdLen then true
    else if elem.elementId = elemExtension then
      elem.data.getD 0 0 ∉ (ie.data.drop (3 + idLen)).take extIdLen
    else elem.elementId ∉ (ie.data.drop 2).take idLen

/-- The fragments that `wlan_copy_ie_with_fragments` copies behind an element of 255 octets, to a buffer of `bufLen` octets
with `buf` in it. `none` if it is full. -/
def copyFragments (bufLen : ℕ) : List Element → List UInt8 → Option (List UInt8)
  | [], buf => some buf
  | elem :: ie, buf =>
    if elem.elementId ≠ elemFragment then some buf
    else if bufLen - buf.length < elem.data.length + 2 then none
    else if elem.data.length ≠ 255 then some (buf ++ elem.octets)
    else copyFragments bufLen ie (buf ++ elem.octets)

/-- `wlan_copy_ie_with_fragments`, of an element with the elements `ie` behind it. -/
def copyIeWithFragments (bufLen : ℕ) (elem : Element) (ie : List Element) (buf : List UInt8) : Option (List UInt8) :=
  if bufLen - buf.length < elem.data.length + 2 then none
  else if elem.data.length ≠ 255 then some (buf ++ elem.octets)
  else copyFragments bufLen ie (buf ++ elem.octets)

/-- The search for the Non-Inheritance element at the start of `wlan_gen_new_ie`, on octets that are whole elements. Every
turn takes two octets at least, and `fuel` is not less than the length. -/
def fetchNonInherit : ℕ → List UInt8 → Option Element
  | 0, _ => none
  | fuel + 1, elementId :: elementLen :: behind =>
    if elementId = elemExtension ∧ behind.head? = some extNonInheritance then
      some ⟨elementId, behind.take elementLen.toNat, length_take_octet_le elementLen behind⟩
    else fetchNonInherit fuel (behind.drop elementLen.toNat)
  | _ + 1, _ => none

/-- The octets that an element is matched on besides its id, `none` for an element that `wlan_gen_new_ie` passes over : the
extension id of an extension. -/
def matchedOn (elem : Element) : Option (List UInt8) :=
  if elem.elementId = elemFragment then none
  else if elem.elementId = elemExtension then if elem.data.length < 1 then none else some (elem.data.take 1)
  else some []

/-- The inner loop of `wlan_gen_new_ie`, over the matching elements from `sub` on. Every turn takes an element at least, and
`fuel` is not less than their number. -/
def copySimilar (bufLen : ℕ) (id : UInt8) (mtch : List UInt8) : ℕ → List Element → List UInt8 → Option (List UInt8)
  | 0, _, buf => some buf
  | _ + 1, [], buf => some buf
  | fuel + 1, sub :: ie, buf =>
    (copyIeWithFragments bufLen sub ie buf).bind (copySimilar bufLen id mtch fuel (findElemMatch id ie mtch))

/-- The first loop of `wlan_gen_new_ie`, over the elements of the beacon from behind `before` on. -/
def copyParent (bufLen : ℕ) (mergedIe : List Element) (nonInheritElem : Option Element) :
    List Element → List Element → List UInt8 → Option (List UInt8)
  | _, [], buf => some buf
  | before, parent :: ie, buf =>
    match matchedOn parent with
    | none => copyParent bufLen mergedIe nonInheritElem (before ++ [parent]) ie buf
    | some mtch =>
      let sub := findElemMatch parent.elementId mergedIe mtch
      (if sub = [] ∧ isElementInherited parent nonInheritElem then copyIeWithFragments bufLen parent ie buf
        else if findElemMatch parent.elementId before mtch ≠ [] then some buf
        else copySimilar bufLen parent.elementId mtch mergedIe.length sub buf).bind
        (copyParent bufLen mergedIe nonInheritElem (before ++ [parent]) ie)

/-- The second loop of `wlan_gen_new_ie`, over the elements of the profile. -/
def copyMissed (bufLen : ℕ) (ie : List Element) : List Element → List UInt8 → Option (List UInt8)
  | [], buf => some buf
  | sub :: mergedIe, buf =>
    if sub.elementId = elemNontxBssidCap then copyMissed bufLen ie mergedIe buf
    else match matchedOn sub with
    | none => copyMissed bufLen ie mergedIe buf
    | some mtch =>
      if sub.elementId = elemExtension ∧ sub.data.head? = some extNonInheritance then copyMissed bufLen ie mergedIe buf
      else if findElemMatch sub.elementId ie mtch ≠ [] then copyMissed bufLen ie mergedIe buf
      else (copyIeWithFragments bufLen sub mergedIe buf).bind (copyMissed bufLen ie mergedIe)

/-- `wlan_gen_new_ie` : the octets of the elements of a nontransmitted BSSID, from the octets of the beacon and of the
profile. `none` where it gives up. -/
def genNewIe (ie mergedIe : List UInt8) (newIeLen : ℕ) : Option (List UInt8) :=
  (copyParent newIeLen (forEachElement mergedIe) (fetchNonInherit mergedIe.length mergedIe) [] (forEachElement ie) []).bind
    (copyMissed newIeLen (forEachElement ie) (forEachElement mergedIe))

/-! ## Types -/

/-- The type of Multiple BSSID elements. -/
def multiBssid : ElementType :=
  ⟨elemMultiBssid, none⟩

/-- The type of Nontransmitted BSSID Capability elements. -/
def nontxBssidCap : ElementType :=
  ⟨elemNontxBssidCap, none⟩

/-- The type of Multiple BSSID-Index elements. -/
def mbssidIndex : ElementType :=
  ⟨elemMbssidIndex, none⟩

/-- The type of Non-Inheritance elements. -/
def nonInheritance : ElementType :=
  ⟨elemExtension, some extNonInheritance⟩

/-- A Non-Inheritance element lists a type : the ids come first, the extension ids behind them, both after their
number. -/
def Element.Lists (ie : Element) (t : ElementType) : Prop :=
  ∃ ids extIds behind : List UInt8,
    ie.data = [extNonInheritance, UInt8.ofNat ids.length] ++ ids ++ (UInt8.ofNat extIds.length :: extIds) ++ behind ∧
      match t.extId with
      | none => t.id ∈ ids
      | some x => x ∈ extIds

/-- The types of the elements of a list. -/
abbrev Fragmented.types (us : List Fragmented) : List ElementType :=
  us.map Fragmented.type

/-- The elements of a type, with their fragments. -/
abbrev Fragmented.ofType (t : ElementType) (us : List Fragmented) : List Fragmented :=
  ofKey Fragmented.type t us

/-- The profile has a Non-Inheritance element that lists the type. -/
def Fragmented.Listed (profile : List Fragmented) (t : ElementType) : Prop :=
  ∃ u, profile.find? (fun u => u.type = nonInheritance) = some u ∧ u.head.Lists t

namespace Fragmented

theorem type_id (u : Fragmented) : u.type.id = u.head.elementId :=
  rfl

theorem head?_of_extension {u : Fragmented} (h : u.head.elementId = elemExtension) :
    u.head.data.head? = some (u.head.data.getD 0 0) := by
  have hne := u.extension h
  rw [head?_eq_getElem?, getD_eq_getElem?_getD]
  rw [getElem?_eq_getElem (length_pos_iff.mpr hne)]
  rfl

theorem extId_of_extension {u : Fragmented} (h : u.head.elementId = elemExtension) :
    u.type.extId = some (u.head.data.getD 0 0) := by
  have htype : u.type.extId = if u.head.elementId = elemExtension then u.head.data.head? else none := rfl
  rw [htype, if_pos h, head?_of_extension h]

theorem extId_of_ne {u : Fragmented} (h : u.head.elementId ≠ elemExtension) : u.type.extId = none :=
  if_neg h

theorem elementId_eq_iff {id : UInt8} (h : id ≠ elemExtension) (u : Fragmented) :
    u.head.elementId = id ↔ u.type = ⟨id, none⟩ :=
  ⟨fun hid => ElementType.ext hid (extId_of_ne (hid ▸ h)), congrArg ElementType.id⟩

theorem type_eq_nonInheritance_iff (u : Fragmented) :
    u.type = nonInheritance ↔ u.head.elementId = elemExtension ∧ u.head.data.head? = some extNonInheritance := by
  constructor
  · intro htype
    have hid : u.head.elementId = elemExtension := congrArg ElementType.id htype
    refine ⟨hid, ?_⟩
    rw [head?_of_extension hid, ← extId_of_extension hid, htype]
    rfl
  · rintro ⟨hid, hhead⟩
    refine ElementType.ext hid ?_
    rw [extId_of_extension hid, ← head?_of_extension hid, hhead]
    rfl

theorem matchedOn_head (u : Fragmented) : matchedOn u.head = some u.type.extId.toList := by
  unfold matchedOn
  rw [if_neg u.head_ne]
  by_cases hext : u.head.elementId = elemExtension
  · have hne := u.extension hext
    have hlen : ¬u.head.data.length < 1 := by
      have hpos := length_pos_iff.mpr hne
      omega
    rw [if_pos hext, if_neg hlen, extId_of_extension hext]
    obtain ⟨x, xs, hdata⟩ := exists_cons_of_ne_nil hne
    rw [hdata]
    rfl
  · rw [if_neg hext, extId_of_ne hext]
    rfl

theorem matchedOn_fragment {f : Element} (h : f.elementId = elemFragment) : matchedOn f = none :=
  if_pos h

/-- An element matches on the id and the octets of another if it is of its type. -/
theorem matches_iff (u : Fragmented) (e : Element) :
    (e.elementId = u.type.id ∧ u.type.extId.toList.length ≤ e.data.length ∧
      e.data.take u.type.extId.toList.length = u.type.extId.toList) ↔ e.type = u.type := by
  have hetype : e.type = u.type ↔
      e.elementId = u.type.id ∧ (if e.elementId = elemExtension then e.data.head? else none) = u.type.extId :=
    ElementType.ext_iff
  rw [hetype, type_id]
  refine and_congr_right fun hid => ?_
  rw [hid]
  by_cases hext : u.head.elementId = elemExtension
  · rw [if_pos hext, extId_of_extension hext, toList_some, length_singleton]
    cases e.data with
    | nil => simp
    | cons x xs => simp
  · simp [extId_of_ne hext, hext]

theorem type_ne_of_fragment {f : Element} (h : f.elementId = elemFragment) (u : Fragmented) : f.type ≠ u.type := by
  intro htype
  have hid : f.elementId = u.head.elementId := congrArg ElementType.id htype
  exact u.head_ne (hid ▸ h)

/-- Along the elements of a list the search passes the fragments. -/
theorem findElemMatch_elements (u : Fragmented) {fs : List Element} (hfs : ∀ f ∈ fs, f.elementId = elemFragment) :
    ∀ us : List Fragmented, findElemMatch u.type.id (fs ++ elements us) u.type.extId.toList =
      elements (us.dropWhile fun v => v.type ≠ u.type) := by
  have hskip : ∀ (gs : List Element) (es : List Element), (∀ f ∈ gs, f.elementId = elemFragment) →
      findElemMatch u.type.id (gs ++ es) u.type.extId.toList = findElemMatch u.type.id es u.type.extId.toList := by
    intro gs es hgs
    unfold findElemMatch
    rw [dropWhile_append_of_pos]
    intro f hf
    simp only [matches_iff]
    simpa using type_ne_of_fragment (hgs f hf) u
  intro us
  rw [hskip fs _ hfs]
  induction us with
  | nil => rfl
  | cons v us ih =>
    by_cases hv : v.type = u.type
    · rw [dropWhile_cons_of_neg (by simpa using hv), elements_cons, pieces, cons_append, findElemMatch,
        dropWhile_cons_of_neg]
      simp only [matches_iff]
      simpa using (show v.head.type = u.type from hv)
    · rw [dropWhile_cons_of_pos (by simpa using hv), ← ih, elements_cons, pieces, cons_append,
        ← hskip v.fragments (elements us) v.fragment]
      unfold findElemMatch
      rw [dropWhile_cons_of_pos]
      simp only [matches_iff]
      simpa using (show v.head.type ≠ u.type from hv)

theorem elements_eq_nil {us : List Fragmented} : elements us = [] ↔ us = [] := by
  cases us with
  | nil => simp
  | cons u us => simp [pieces]

theorem findElemMatch_eq_nil (u : Fragmented) (us : List Fragmented) :
    findElemMatch u.type.id (elements us) u.type.extId.toList = [] ↔ u.type ∉ types us := by
  have hfind := @findElemMatch_elements u [] (by simp) us
  rw [nil_append] at hfind
  rw [hfind, elements_eq_nil, dropWhile_eq_nil_iff]
  simp

/-! ## Copying -/

variable {bufLen : ℕ} {buf : List UInt8}

theorem copyFragments_append (us : List Fragmented) : ∀ (fs : List Element) (buf : List UInt8),
    (∀ f ∈ fs, f.elementId = elemFragment) → (∀ f ∈ fs.dropLast, f.data.length = 255) →
    buf.length + (Element.chain fs).length ≤ bufLen →
    copyFragments bufLen (fs ++ elements us) buf = some (buf ++ Element.chain fs)
  | [], buf, _, _, _ => by
    have hbehind := head?_elements us
    rw [nil_append, Element.chain_nil, append_nil]
    cases hes : elements us with
    | nil => rfl
    | cons e es =>
      have hne : e.elementId ≠ elemFragment := hbehind e (by rw [hes]; rfl)
      rw [copyFragments, if_pos hne]
  | f :: fs, buf, hid, hfull, hlen => by
    have hf := hid f mem_cons_self
    rw [Element.chain_cons, length_append] at hlen
    have hoctets : f.octets.length = f.data.length + 2 := rfl
    rw [cons_append, copyFragments, if_neg (by simpa using hf), if_neg (by omega)]
    by_cases hmore : f.data.length = 255
    · have hrest : ∀ g ∈ fs.dropLast, g.data.length = 255 := fun g hg =>
        hfull g (by
          cases fs with
          | nil => simp at hg
          | cons g' fs => exact mem_cons_of_mem _ hg)
      have ih := copyFragments_append us fs (buf ++ f.octets)
        (fun g hg => hid g (mem_cons_of_mem _ hg)) hrest (by rw [length_append]; omega)
      rw [if_neg (by simpa using hmore), ih, Element.chain_cons, append_assoc]
    · have hlast : fs = [] := by
        cases fs with
        | nil => rfl
        | cons g fs => exact absurd (hfull f (by simp)) hmore
      rw [if_pos hmore, hlast, Element.chain_cons, Element.chain_nil, append_nil]

/-- An element is copied with its fragments. -/
theorem copyIeWithFragments_pieces {u : Fragmented} {us : List Fragmented}
    (h : (buf ++ Element.chain u.pieces).length ≤ bufLen) :
    copyIeWithFragments bufLen u.head (u.fragments ++ elements us) buf = some (buf ++ Element.chain u.pieces) := by
  have hoctets : u.head.octets.length = u.head.data.length + 2 := rfl
  rw [pieces, Element.chain_cons, length_append, length_append] at h
  rw [copyIeWithFragments, if_neg (by omega), pieces, Element.chain_cons]
  by_cases hmore : u.head.data.length = 255
  · have hrest : ∀ f ∈ u.fragments.dropLast, f.data.length = 255 := fun f hf =>
      u.full f (by
        cases hfs : u.fragments with
        | nil => simp [hfs] at hf
        | cons g fs => exact mem_cons_of_mem _ (hfs ▸ hf))
    rw [if_neg (by simpa using hmore), copyFragments_append us _ _ u.fragment hrest (by rw [length_append]; omega),
      append_assoc]
  · have hlast : u.fragments = [] := by
      cases hfs : u.fragments with
      | nil => rfl
      | cons g fs => exact absurd (u.full u.head (by rw [hfs]; simp)) hmore
    rw [if_pos hmore, hlast, Element.chain_nil, append_nil]

/-- The inner loop copies the elements of a type. -/
theorem copySimilar_elements (u : Fragmented) : ∀ (us : List Fragmented) {fuel : ℕ} {buf : List UInt8},
    us.length ≤ fuel → (buf ++ octets (ofType u.type us)).length ≤ bufLen →
    copySimilar bufLen u.type.id u.type.extId.toList fuel (elements (us.dropWhile fun v => v.type ≠ u.type)) buf =
      some (buf ++ octets (ofType u.type us))
  | [], 0, buf, _, _ => by
    simp [copySimilar]
  | [], _ + 1, buf, _, _ => by
    simp [copySimilar]
  | v :: us, fuel, buf, hfuel, hlen => by
    rw [length_cons] at hfuel
    by_cases hv : v.type = u.type
    · obtain ⟨fuel, rfl⟩ := Nat.exists_eq_succ_of_ne_zero (show fuel ≠ 0 by omega)
      have hofType : ofType u.type (v :: us) = v :: ofType u.type us := ofKey_cons_self hv
      rw [hofType, octets_cons, ← append_assoc] at hlen
      rw [hofType, octets_cons, ← append_assoc]
      have hhead : (buf ++ Element.chain v.pieces).length ≤ bufLen := by
        rw [length_append] at hlen
        omega
      rw [dropWhile_cons_of_neg (by simpa using hv), elements_cons, pieces, cons_append, copySimilar,
        copyIeWithFragments_pieces hhead, bind_some, findElemMatch_elements u v.fragment us]
      exact copySimilar_elements u us (by omega) hlen
    · have hofType : ofType u.type (v :: us) = ofType u.type us := ofKey_cons_of_ne hv
      rw [hofType] at hlen
      rw [hofType, dropWhile_cons_of_pos (by simpa using hv)]
      exact copySimilar_elements u us (by omega) hlen

/-! ## What is inherited -/

theorem lists_iff {ie : Element} (h : ie.data.head? = some extNonInheritance) (t : ElementType) :
    ie.Lists t ↔
      3 + (ie.data.getD 1 0).toNat ≤ ie.data.length ∧
      3 + (ie.data.getD 1 0).toNat + (ie.data.getD (2 + (ie.data.getD 1 0).toNat) 0).toNat ≤ ie.data.length ∧
      match t.extId with
      | none => t.id ∈ (ie.data.drop 2).take (ie.data.getD 1 0).toNat
      | some x => x ∈ (ie.data.drop (3 + (ie.data.getD 1 0).toNat)).take
          (ie.data.getD (2 + (ie.data.getD 1 0).toNat) 0).toNat := by
  have hle := ie.length_le
  constructor
  · rintro ⟨ids, extIds, behind, hdata, ht⟩
    have hlen : ie.data.length = 3 + ids.length + extIds.length + behind.length := by
      simp only [hdata, length_append, length_cons, length_nil]
      omega
    have hids : (UInt8.ofNat ids.length).toNat = ids.length := by
      rw [UInt8.toNat_ofNat']
      omega
    have hexts : (UInt8.ofNat extIds.length).toNat = extIds.length := by
      rw [UInt8.toNat_ofNat']
      omega
    have h1 : (ie.data.getD 1 0).toNat = ids.length := by
      refine Eq.trans ?_ hids
      rw [hdata]
      rfl
    have hdrop : ie.data.drop 2 = ids ++ (UInt8.ofNat extIds.length :: (extIds ++ behind)) := by
      rw [hdata]
      simp
    have h2 : (ie.data.getD (2 + ids.length) 0).toNat = extIds.length := by
      have hget : ie.data.getD (2 + ids.length) 0 = (ie.data.drop 2).getD ids.length 0 := by
        rw [getD_eq_getElem?_getD, getD_eq_getElem?_getD, getElem?_drop]
      refine Eq.trans ?_ hexts
      rw [hget, hdrop, getD_eq_getElem?_getD, getElem?_append_right le_rfl, Nat.sub_self]
      rfl
    have hdrop' : ie.data.drop (3 + ids.length) = extIds ++ behind := by
      rw [show 3 + ids.length = 2 + (ids.length + 1) by omega, ← drop_drop, hdrop, ← drop_drop,
        drop_left' rfl]
      rfl
    rw [h1, h2, hdrop, hdrop', take_left' rfl, take_left' rfl]
    exact ⟨by omega, by omega, ht⟩
  · rintro ⟨hlen, hlen', ht⟩
    obtain ⟨b, rest, hdata⟩ := exists_cons_of_length_pos (show 0 < (ie.data.drop 1).length by
      rw [length_drop]
      omega)
    have hcons : ie.data = extNonInheritance :: b :: rest := by
      cases hd : ie.data with
      | nil => simp [hd] at h
      | cons x xs =>
        rw [hd] at h hdata
        obtain rfl := some.inj h
        exact congrArg _ hdata
    rw [hcons] at hlen hlen' ht
    simp only [getD_cons_succ, getD_cons_zero, length_cons] at hlen hlen' ht
    have h2 : (extNonInheritance :: b :: rest).getD (2 + b.toNat) 0 = rest.getD b.toNat 0 := by
      rw [show 2 + b.toNat = b.toNat + 1 + 1 by omega]
      rfl
    have h3 : (extNonInheritance :: b :: rest).drop (3 + b.toNat) = rest.drop (b.toNat + 1) := by
      rw [show 3 + b.toNat = b.toNat + 1 + 1 + 1 by omega]
      rfl
    rw [h2] at hlen'
    rw [h2, h3] at ht
    have htakeLen : (rest.take b.toNat).length = b.toNat := by
      rw [length_take]
      omega
    have hextLen : ((rest.drop (b.toNat + 1)).take (rest.getD b.toNat 0).toNat).length = (rest.getD b.toNat 0).toNat := by
      rw [length_take, length_drop]
      omega
    refine ⟨rest.take b.toNat, (rest.drop (b.toNat + 1)).take (rest.getD b.toNat 0).toNat,
      (rest.drop (b.toNat + 1)).drop (rest.getD b.toNat 0).toNat, ?_, ht⟩
    have hget : rest.getD b.toNat 0 :: rest.drop (b.toNat + 1) = rest.drop b.toNat := by
      rw [getD_eq_getElem?_getD, getElem?_eq_getElem (by omega)]
      exact (drop_eq_getElem_cons (by omega)).symm
    rw [hcons, htakeLen, hextLen, UInt8.ofNat_toNat, UInt8.ofNat_toNat]
    simp only [cons_append, append_assoc, nil_append, take_append_drop, hget]

theorem isElementInherited_iff (u : Fragmented) {ie : Option Element}
    (h : ∀ e ∈ ie, e.data.head? = some extNonInheritance) :
    isElementInherited u.head ie = true ↔ u.type ≠ multiBssid ∧ ∀ e ∈ ie, ¬e.Lists u.type := by
  have hmulti : u.head.elementId = elemMultiBssid ↔ u.type = multiBssid := elementId_eq_iff (by decide) u
  unfold isElementInherited
  by_cases hu : u.head.elementId = elemMultiBssid
  · simp [hu, hmulti.mp hu]
  rw [if_neg hu]
  cases ie with
  | none => simpa using fun ht => hu (hmulti.mpr ht)
  | some e =>
    have hlists := lists_iff (h e rfl) u.type
    have hne : u.type ≠ multiBssid := fun ht => hu (hmulti.mpr ht)
    simp only [mem_some_iff, forall_eq', hlists, ne_eq, hne, not_false_eq_true, true_and]
    split_ifs with hshort hext
    · refine iff_of_true rfl fun hl => ?_
      omega
    · rw [extId_of_extension hext]
      simp only [decide_eq_true_eq]
      exact ⟨fun hx hl => hx hl.2.2, fun hn hx => hn ⟨by omega, by omega, hx⟩⟩
    · rw [extId_of_ne hext]
      simp only [decide_eq_true_eq]
      exact ⟨fun hx hl => hx hl.2.2, fun hn hx => hn ⟨by omega, by omega, hx⟩⟩

theorem length_le_elements (us : List Fragmented) : us.length ≤ (elements us).length := by
  induction us with
  | nil => exact le_rfl
  | cons u us ih =>
    rw [elements_cons, pieces, length_append, length_cons, length_cons]
    omega

/-! ## The two loops -/

/-- The Non-Inheritance element of a profile. -/
def nonInheritElem (profile : List Fragmented) : Option Element :=
  (profile.find? fun u => u.type = nonInheritance).map head

theorem fetchNonInherit_chain : ∀ (es : List Element) {fuel : ℕ},
    (∀ e ∈ es, e.elementId = elemExtension → e.data ≠ []) → (Element.chain es).length ≤ fuel →
    fetchNonInherit fuel (Element.chain es) = es.find? fun e => e.type = nonInheritance
  | [], 0, _, _ => rfl
  | [], _ + 1, _, _ => rfl
  | e :: es, 0, _, h => absurd h (by simp [Element.octets])
  | e :: es, fuel + 1, hext, h => by
    have htype : (e.elementId = elemExtension ∧ (e.data ++ Element.chain es).head? = some extNonInheritance) ↔
        e.type = nonInheritance := by
      have hiff : e.type = nonInheritance ↔ e.elementId = elemExtension ∧
          (if e.elementId = elemExtension then e.data.head? else none) = some extNonInheritance := ElementType.ext_iff
      rw [hiff]
      refine and_congr_right fun hid => ?_
      rw [if_pos hid, head?_append_of_ne_nil _ (hext e mem_cons_self hid)]
    rw [Element.chain_cons_octets, fetchNonInherit]
    simp only [toNat_ofNat_length, htype, take_left, drop_left]
    by_cases hfound : e.type = nonInheritance
    · rw [if_pos hfound, find?_cons_of_pos (by simpa using hfound)]
    · rw [if_neg hfound, find?_cons_of_neg (by simpa using hfound)]
      exact fetchNonInherit_chain es (fun e he => hext e (mem_cons_of_mem _ he)) (Element.length_chain_le h)

theorem find?_elements (profile : List Fragmented) :
    (elements profile).find? (fun e => e.type = nonInheritance) = nonInheritElem profile := by
  induction profile with
  | nil => rfl
  | cons u us ih =>
    unfold nonInheritElem at ih ⊢
    rw [elements_cons, pieces, cons_append]
    by_cases hu : u.type = nonInheritance
    · rw [find?_cons_of_pos (by simpa using (show u.head.type = nonInheritance from hu)),
        find?_cons_of_pos (by simpa using hu)]
      rfl
    · have hskip : u.fragments.find? (fun e => e.type = nonInheritance) = none := by
        refine find?_eq_none.mpr fun f hf => ?_
        have hid := u.fragment f hf
        have hne : f.type ≠ nonInheritance := by
          intro htype
          have hext : f.elementId = elemExtension := congrArg ElementType.id htype
          rw [hid] at hext
          exact absurd hext (by decide)
        simpa using hne
      rw [find?_cons_of_neg (by simpa using (show u.head.type ≠ nonInheritance from hu)),
        find?_cons_of_neg (by simpa using hu), find?_append, hskip, none_or, ih]

theorem extension_elements {us : List Fragmented} : ∀ e ∈ elements us, e.elementId = elemExtension → e.data ≠ [] := by
  intro e he hext
  obtain ⟨u, -, heu⟩ := mem_flatMap.mp he
  rcases mem_cons.mp heu with rfl | hf
  · exact u.extension hext
  · have hid := u.fragment e hf
    rw [hext] at hid
    exact absurd hid (by decide)

theorem fetchNonInherit_octets (profile : List Fragmented) :
    fetchNonInherit (octets profile).length (octets profile) = nonInheritElem profile := by
  rw [octets, fetchNonInherit_chain _ extension_elements le_rfl, find?_elements]

/-- A type goes from the beacon to the list. -/
def Kept (profile : List Fragmented) (t : ElementType) : Prop :=
  t ≠ multiBssid ∧ ¬Listed profile t

theorem isElementInherited_nonInheritElem (profile : List Fragmented) (u : Fragmented) :
    isElementInherited u.head (nonInheritElem profile) = true ↔ Kept profile u.type := by
  have hhead : ∀ e ∈ nonInheritElem profile, e.data.head? = some extNonInheritance := by
    intro e he
    obtain ⟨v, hv, rfl⟩ := map_eq_some_iff.mp he
    have htype : v.type = nonInheritance := by simpa using find?_some hv
    exact ((type_eq_nonInheritance_iff v).mp htype).2
  rw [isElementInherited_iff u hhead]
  refine and_congr_right fun _ => ⟨?_, ?_⟩
  · rintro hno ⟨v, hv, hl⟩
    exact hno v.head (map_eq_some_iff.mpr ⟨v, hv, rfl⟩) hl
  · rintro hno e he hl
    obtain ⟨v, hv, rfl⟩ := map_eq_some_iff.mp he
    exact hno ⟨v, hv, hl⟩

theorem copyParent_fragments (mergedIe : List Element) (ne : Option Element) (ie : List Element) :
    ∀ (fs before : List Element) {buf : List UInt8}, (∀ f ∈ fs, f.elementId = elemFragment) →
      copyParent bufLen mergedIe ne before (fs ++ ie) buf = copyParent bufLen mergedIe ne (before ++ fs) ie buf
  | [], before, buf, _ => by
    rw [nil_append, append_nil]
  | f :: fs, before, buf, h => by
    rw [cons_append, copyParent, matchedOn_fragment (h f mem_cons_self)]
    show copyParent _ _ _ _ _ _ = _
    rw [copyParent_fragments mergedIe ne ie fs _ fun g hg => h g (mem_cons_of_mem _ hg), append_assoc]
    rfl

open Classical in
/-- The first loop merges the profile into the beacon. -/
theorem copyParent_elements (profile : List Fragmented) : ∀ (seen us : List Fragmented) {buf : List UInt8},
    (buf ++ octets (mergeBase type (Kept profile) profile seen us)).length ≤ bufLen →
    copyParent bufLen (elements profile) (nonInheritElem profile) (elements seen) (elements us) buf =
      some (buf ++ octets (mergeBase type (Kept profile) profile seen us))
  | seen, [], buf, _ => by
    simp [copyParent, mergeBase]
  | seen, u :: us, buf, hlen => by
    have hsub := @findElemMatch_elements u [] (by simp) profile
    rw [nil_append] at hsub
    have hnil : elements (profile.dropWhile fun v => v.type ≠ u.type) = [] ↔ u.type ∉ types profile := by
      rw [← hsub, findElemMatch_eq_nil]
    rw [mergeBase, octets_append, ← append_assoc] at hlen
    rw [mergeBase, octets_append, ← append_assoc]
    have hturn : (if elements (profile.dropWhile fun v => v.type ≠ u.type) = [] ∧
          isElementInherited u.head (nonInheritElem profile) then
          copyIeWithFragments bufLen u.head (u.fragments ++ elements us) buf
        else if findElemMatch u.type.id (elements seen) u.type.extId.toList ≠ [] then some buf
        else copySimilar bufLen u.type.id u.type.extId.toList (elements profile).length
          (elements (profile.dropWhile fun v => v.type ≠ u.type)) buf) =
        some (buf ++ octets (if u.type ∈ types profile then
          if u.type ∈ types seen then [] else ofType u.type profile
          else if Kept profile u.type then [u] else [])) := by
      have hfits : (buf ++ octets (if u.type ∈ types profile then
          if u.type ∈ types seen then [] else ofType u.type profile
          else if Kept profile u.type then [u] else [])).length ≤ bufLen := by
        rw [length_append] at hlen
        exact (Nat.le_add_right _ _).trans hlen
      by_cases hown : u.type ∈ types profile
      · rw [if_pos hown] at hfits
        rw [if_neg (fun h => hnil.mp h.1 hown), if_pos hown]
        by_cases hseen : u.type ∈ types seen
        · rw [if_pos ((findElemMatch_eq_nil u seen).not.mpr (not_not.mpr hseen)), if_pos hseen, octets_nil, append_nil]
        · rw [if_neg hseen] at hfits
          rw [if_neg (not_not.mpr ((findElemMatch_eq_nil u seen).mpr hseen)), if_neg hseen]
          exact copySimilar_elements u profile (length_le_elements profile) hfits
      · rw [if_neg hown] at hfits
        rw [if_neg hown]
        by_cases hkept : Kept profile u.type
        · rw [if_pos hkept, octets_cons, octets_nil, append_nil] at hfits
          rw [if_pos ⟨hnil.mpr hown, (isElementInherited_nonInheritElem profile u).mpr hkept⟩, if_pos hkept, octets_cons,
            octets_nil, append_nil]
          exact copyIeWithFragments_pieces hfits
        · rw [if_neg (fun h => hkept ((isElementInherited_nonInheritElem profile u).mp h.2)), if_neg hkept, hnil.mpr hown,
            octets_nil, append_nil]
          cases (elements profile).length with
          | zero => simp [copySimilar]
          | succ n => simp [copySimilar]
    rw [elements_cons, pieces, cons_append, copyParent, matchedOn_head]
    simp only [← type_id, hsub]
    rw [hturn, bind_some, copyParent_fragments _ _ _ _ _ u.fragment]
    have hbefore : elements seen ++ [u.head] ++ u.fragments = elements (seen ++ [u]) := by
      rw [elements_append, elements_cons, elements_nil, append_nil, append_assoc]
      rfl
    rw [hbefore]
    exact copyParent_elements profile (seen ++ [u]) us hlen

/-- A type that only says something about the profile. -/
def AboutProfile (t : ElementType) : Prop :=
  t = nontxBssidCap ∨ t = nonInheritance

theorem copyMissed_fragments (ie mergedIe : List Element) : ∀ (fs : List Element) {buf : List UInt8},
    (∀ f ∈ fs, f.elementId = elemFragment) →
    copyMissed bufLen ie (fs ++ mergedIe) buf = copyMissed bufLen ie mergedIe buf
  | [], _, _ => rfl
  | f :: fs, buf, h => by
    have hid := h f mem_cons_self
    rw [cons_append, copyMissed, if_neg (by rw [hid]; decide), matchedOn_fragment hid]
    exact copyMissed_fragments ie mergedIe fs fun g hg => h g (mem_cons_of_mem _ hg)

open Classical in
/-- The second loop adds what the beacon has none of. -/
theorem copyMissed_elements (base : List Fragmented) : ∀ (us : List Fragmented) {buf : List UInt8},
    (buf ++ octets (us.filter fun u => ¬AboutProfile u.type ∧ u.type ∉ types base)).length ≤ bufLen →
    copyMissed bufLen (elements base) (elements us) buf =
      some (buf ++ octets (us.filter fun u => ¬AboutProfile u.type ∧ u.type ∉ types base))
  | [], buf, _ => by
    simp [copyMissed]
  | u :: us, buf, hlen => by
    have hcap : u.head.elementId = elemNontxBssidCap ↔ u.type = nontxBssidCap := elementId_eq_iff (by decide) u
    have hnon := type_eq_nonInheritance_iff u
    have ih := fun b => @copyMissed_elements base us b
    rw [elements_cons, pieces, cons_append, copyMissed, matchedOn_head]
    simp only [← type_id, copyMissed_fragments _ _ _ u.fragment]
    by_cases hskip : ¬AboutProfile u.type ∧ u.type ∉ types base
    · rw [filter_cons_of_pos (by simpa using hskip), octets_cons, ← append_assoc] at hlen
      rw [filter_cons_of_pos (by simpa using hskip), octets_cons, ← append_assoc]
      have hhead : (buf ++ Element.chain u.pieces).length ≤ bufLen := by
        rw [length_append] at hlen
        omega
      rw [type_id, if_neg (fun h => hskip.1 (Or.inl (hcap.mp h))), if_neg (fun h => hskip.1 (Or.inr (hnon.mpr h))), ← type_id,
        if_neg (not_not.mpr ((findElemMatch_eq_nil u base).mpr hskip.2)), copyIeWithFragments_pieces hhead,
        bind_some]
      exact ih _ hlen
    · rw [filter_cons_of_neg (by simpa using hskip)] at hlen
      rw [filter_cons_of_neg (by simpa using hskip)]
      rw [type_id]
      split_ifs with h1 h2 h3
      · exact ih _ hlen
      · exact ih _ hlen
      · exact ih _ hlen
      · refine absurd ⟨?_, ?_⟩ hskip
        · exact fun h => h.elim (fun h => h1 (hcap.mpr h)) fun h => h2 (hnon.mp h)
        · exact (findElemMatch_eq_nil u base).mp (not_not.mp h3)

/-! ## The generated list -/

open Classical in
/-- The elements of a nontransmitted BSSID. -/
noncomputable def merged (parent profile : List Fragmented) : List Fragmented :=
  mergeByKey type (Kept profile) AboutProfile profile parent

theorem forEachElement_octets (us : List Fragmented) : forEachElement (octets us) = elements us :=
  forEachElement_chain _

theorem genNewIe_octets {parent profile : List Fragmented} (h : (octets (merged parent profile)).length ≤ bufLen) :
    genNewIe (octets parent) (octets profile) bufLen = some (octets (merged parent profile)) := by
  classical
  have hfirst := @copyParent_elements bufLen profile [] parent []
  rw [elements_nil, nil_append] at hfirst
  rw [merged, mergeByKey, octets_append] at h
  rw [genNewIe, forEachElement_octets, forEachElement_octets, fetchNonInherit_octets, hfirst, bind_some, merged, mergeByKey,
    octets_append]
  · exact copyMissed_elements parent profile h
  · rw [length_append] at h
    exact (Nat.le_add_right _ _).trans h

/-- The octets of the profile came in the Multiple BSSID elements of the beacon. -/
def Carried (parent profile : List Fragmented) : Prop :=
  (octets profile).Sublist ((elements (ofType multiBssid parent)).flatMap Element.data)

theorem length_data_le_length_chain (es : List Element) : (es.flatMap Element.data).length ≤ (Element.chain es).length := by
  induction es with
  | nil => exact le_rfl
  | cons e es ih =>
    have hoctets : e.octets.length = e.data.length + 2 := rfl
    rw [flatMap_cons, length_append, Element.chain_cons, length_append]
    omega

/-- What is taken from the beacon and its Multiple BSSID elements together are no more octets than it has. -/
theorem length_kept_add_le (parent profile : List Fragmented) [DecidablePred fun t => Kept profile t] :
    (octets (parent.filter fun u => Kept profile u.type)).length + (octets (ofType multiBssid parent)).length ≤
      (octets parent).length := by
  induction parent with
  | nil => exact le_rfl
  | cons u us ih =>
    rw [octets_cons, length_append]
    by_cases hmulti : u.type = multiBssid
    · have hdrop : ¬Kept profile u.type := fun h => h.1 hmulti
      have hofType : ofType multiBssid (u :: us) = u :: ofType multiBssid us := ofKey_cons_self hmulti
      rw [filter_cons_of_neg (by simpa using hdrop), hofType, octets_cons, length_append]
      omega
    · have hofType : ofType multiBssid (u :: us) = ofType multiBssid us := ofKey_cons_of_ne hmulti
      rw [hofType, filter_cons]
      split
      · rw [octets_cons, length_append]
        omega
      · omega

/-- The generated elements take no more room than the elements of the beacon. -/
theorem length_merged_le {parent profile : List Fragmented} (h : Carried parent profile) :
    (octets (merged parent profile)).length ≤ (octets parent).length := by
  classical
  have hsum : ((merged parent profile).map fun u => (Element.chain u.pieces).length).sum ≤ _ :=
    sum_mergeByKey_le (fun u => (Element.chain u.pieces).length) parent
  calc (octets (merged parent profile)).length
      ≤ (octets (parent.filter fun u => Kept profile u.type)).length + (octets profile).length := by
        rw [length_octets, length_octets, length_octets]
        exact hsum
    _ ≤ (octets (parent.filter fun u => Kept profile u.type)).length + (octets (ofType multiBssid parent)).length :=
        Nat.add_le_add_left (h.length_le.trans (length_data_le_length_chain _)) _
    _ ≤ (octets parent).length := length_kept_add_le parent profile

/-- The inheritance : the profile has the say over the types that occur in it, but for the two that are about the profile
itself, and the beacon over all others that are not listed. -/
structure Inherits (parent profile out : List Fragmented) : Prop where
  own : ∀ t ∈ types profile, ¬AboutProfile t → ofType t out = ofType t profile
  inherited : ∀ t, t ∉ types profile ∨ AboutProfile t → t ≠ multiBssid → ¬Listed profile t →
    ofType t out = ofType t parent
  dropped : ∀ t, t ∉ types profile ∨ AboutProfile t → t = multiBssid ∨ Listed profile t → ofType t out = []

open Classical in
theorem ofType_merged (parent profile : List Fragmented) (t : ElementType) : ofType t (merged parent profile) =
    if t ∈ types profile then if t ∈ types parent ∨ ¬AboutProfile t then ofType t profile else []
    else if Kept profile t then ofType t parent else [] :=
  ofKey_mergeByKey t parent

/-- The elements about the profile that go into the list although they should not are those of a type that the beacon has
too. -/
theorem inherits_merged_iff (parent profile : List Fragmented) :
    Inherits parent profile (merged parent profile) ↔
      ∀ t, AboutProfile t → t ∈ types parent → t ∈ types profile →
        ¬Listed profile t ∧ ofType t parent = ofType t profile := by
  classical
  constructor
  · intro h t habout hparent hprofile
    have hmerged : ofType t (merged parent profile) = ofType t profile := by
      rw [ofType_merged, if_pos hprofile, if_pos (Or.inl hparent)]
    have hne : ofType t profile ≠ [] := ofKey_ne_nil hprofile
    have hmulti : t ≠ multiBssid := by
      rcases habout with rfl | rfl
      · decide
      · decide
    have hlisted : ¬Listed profile t := by
      intro hl
      rw [h.dropped t (Or.inr habout) (Or.inr hl)] at hmerged
      exact hne hmerged.symm
    refine ⟨hlisted, ?_⟩
    rw [← h.inherited t (Or.inr habout) hmulti hlisted, hmerged]
  · intro h
    refine ⟨fun t ht habout => ?_, fun t ht hmulti hlisted => ?_, fun t ht hdrop => ?_⟩
    · rw [ofType_merged, if_pos ht, if_pos (Or.inr habout)]
    · rw [ofType_merged]
      by_cases hprofile : t ∈ types profile
      · have habout : AboutProfile t := ht.resolve_left (not_not.mpr hprofile)
        rw [if_pos hprofile]
        by_cases hparent : t ∈ types parent
        · rw [if_pos (Or.inl hparent), (h t habout hparent hprofile).2]
        · rw [if_neg (not_or.mpr ⟨hparent, not_not.mpr habout⟩)]
          exact (ofKey_eq_nil hparent).symm
      · rw [if_neg hprofile, if_pos ⟨hmulti, hlisted⟩]
    · have hkept : ¬Kept profile t := fun hk => hdrop.elim hk.1 hk.2
      rw [ofType_merged]
      by_cases hprofile : t ∈ types profile
      · have habout : AboutProfile t := ht.resolve_left (not_not.mpr hprofile)
        rw [if_pos hprofile, if_neg]
        rintro (hparent | habout')
        · obtain ⟨hlisted, -⟩ := h t habout hparent hprofile
          have hmulti : t ≠ multiBssid := by
            rcases habout with rfl | rfl
            · decide
            · decide
          exact hdrop.elim hmulti hlisted
        · exact habout' habout
      · rw [if_neg hprofile, if_neg hkept]

/-- `wlan_gen_new_ie` has room for the elements of a profile that came in the beacon, and generates some if the profile has
its index. They are inherited as they should be if the beacon has no elements that are only about a profile, or the same ones
and none of them listed. -/
theorem inherits_iff (parent profile : List Fragmented) (h : Carried parent profile) :
    (∃ out, genNewIe (octets parent) (octets profile) (octets parent).length = some (octets out) ∧
      (mbssidIndex ∈ types profile → octets out ≠ []) ∧ Inherits parent profile out) ↔
      ∀ t, AboutProfile t → t ∈ types parent → t ∈ types profile →
        ¬Listed profile t ∧ ofType t parent = ofType t profile := by
  classical
  have hgen := genNewIe_octets (length_merged_le h)
  rw [← inherits_merged_iff]
  constructor
  · rintro ⟨out, hout, -, hinherits⟩
    have heq : out = merged parent profile := octets_injective (some.inj (hout.symm.trans hgen))
    exact heq ▸ hinherits
  · intro hinherits
    refine ⟨_, hgen, fun hindex hnil => ?_, hinherits⟩
    have habout : ¬AboutProfile mbssidIndex := by
      rintro (habout | habout)
      · exact absurd habout (by decide)
      · exact absurd habout (by decide)
    have hown := hinherits.own mbssidIndex hindex habout
    rw [octets_injective (hnil.trans octets_nil.symm)] at hown
    exact ofKey_ne_nil hindex hown.symm

/-- An element without fragments. -/
def single (elementId : UInt8) (data : List UInt8) (hlen : data.length ≤ 255) (hid : elementId ≠ elemFragment)
    (hext : elementId = elemExtension → data ≠ []) : Fragmented where
  head := ⟨elementId, data, hlen⟩
  fragments := []
  head_ne := hid
  extension := hext
  fragment := by simp
  full := by simp

/-- A profile with its capability and its index. -/
def profileOfIndex : List Fragmented :=
  [single 83 [2, 0] (by decide) (by decide) (by decide), single 85 [1] (by decide) (by decide) (by decide)]

/-- The beacon of a transmitting BSS with this profile. -/
def beaconOfIndex : List Fragmented :=
  [single 0 [97] (by decide) (by decide) (by decide),
    single 71 [2, 0, 7, 83, 2, 2, 0, 85, 1, 1] (by decide) (by decide) (by decide)]

/-- The same with a capability of its own. -/
def beaconWithCap : List Fragmented :=
  beaconOfIndex ++ [single 83 [1, 0] (by decide) (by decide) (by decide)]

theorem carried_profileOfIndex : Carried beaconOfIndex profileOfIndex := by
  unfold Carried
  decide

theorem carried_withCap : Carried beaconWithCap profileOfIndex := by
  unfold Carried
  decide

theorem inherits_ofIndex : ∃ out, genNewIe (octets beaconOfIndex) (octets profileOfIndex) (octets beaconOfIndex).length =
    some (octets out) ∧ (mbssidIndex ∈ types profileOfIndex → octets out ≠ []) ∧
      Inherits beaconOfIndex profileOfIndex out := by
  refine (inherits_iff beaconOfIndex profileOfIndex carried_profileOfIndex).mpr ?_
  rintro t (rfl | rfl) hparent
  · exact absurd hparent (by decide)
  · exact absurd hparent (by decide)

/-- A Nontransmitted BSSID Capability element in the beacon is replaced by that of the profile. -/
theorem not_inherits_withCap : Carried beaconWithCap profileOfIndex ∧
    ¬∃ out, genNewIe (octets beaconWithCap) (octets profileOfIndex) (octets beaconWithCap).length = some (octets out) ∧
      Inherits beaconWithCap profileOfIndex out := by
  refine ⟨carried_withCap, ?_⟩
  rintro ⟨out, hout, hinherits⟩
  have hgen := genNewIe_octets (length_merged_le carried_withCap)
  have heq : out = merged beaconWithCap profileOfIndex := octets_injective (some.inj (hout.symm.trans hgen))
  rw [heq, inherits_merged_iff] at hinherits
  obtain ⟨-, hsame⟩ := hinherits nontxBssidCap (Or.inl rfl) (by decide) (by decide)
  have hdata := congrArg (List.map fun u => u.head.data) hsame
  exact absurd hdata (by decide)

end Fragmented

end WlanDriver.Scan
