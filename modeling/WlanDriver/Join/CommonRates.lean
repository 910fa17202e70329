import Mathlib.Data.FinEnum
import Mathlib.Data.List.TakeWhile
import WlanDriver.Join.Roam

/-!
# The rates in common

`wlan_setup_rates_from_bssdesc` copies the rates of the access point, `wlan_get_common_rates` goes through the rates of the
card and looks each one up in a copy of those of the access point. Both loops read an entry before they compare its index with
the size : an array without a closing zero is read behind its end, unless the loop ends before that.

What comes out is what is due (`commonLoop_eq`, `searchRate_eq`), so that `setupRates_iff` is about the reads alone : the card
has a closing zero, and where the access point has none it has all rates of the card.
-/

namespace WlanDriver.Join

open List

def wlanSupportedRates : ℕ := 14

/-- `WLAN_802_11_RATES`. -/
structure RatesArray where
  octets : List UInt8
  length_eq : octets.length = wlanSupportedRates

/-- Two rates are the same without the basic bit. -/
def SameRate (a c : UInt8) : Prop :=
  c &&& 0x7F = a &&& 0x7F
  deriving Decidable

/-! ## The loops -/

/-- The inner loop over what is left of `tmp` : nothing if it reads behind the end. The index is compared behind the read,
and is less than the size as long as there is an entry. -/
def searchRate (c : UInt8) : List UInt8 → Option (Option UInt8)
  | [] => none
  | t :: tmp => if t = 0 then some none else if SameRate t c then some (some t) else searchRate c tmp

/-- The outer loop over what is left of `rate2`, of which `n` entries count. -/
def commonLoop (tmp : List UInt8) : List UInt8 → ℕ → List UInt8 → Option (List UInt8)
  | [], _, _ => none
  | c :: rate2, n, rate1 =>
    if c = 0 then some rate1
    else match n with
      | 0 => some rate1
      | n + 1 =>
        match searchRate c tmp with
        | none => none
        | some none => commonLoop tmp rate2 n rate1
        | some (some t) => if rate1.length < wlanSupportedRates then commonLoop tmp rate2 n (rate1 ++ [t]) else none

/-- The fixed rate is searched in the output, up to a zero or its size. -/
def fixedRate (dataRate : ℕ) : List UInt8 → Bool
  | [] => false
  | r :: rates => if r = 0 then false else if (r &&& 0x7F).toNat = dataRate then true else fixedRate dataRate rates

/-- `wlan_strlen` : nothing if it reads behind the end. -/
def wlanStrlen : List UInt8 → Option ℕ
  | [] => none
  | r :: rates => if r = 0 then some 0 else (wlanStrlen rates).map (· + 1)

/-- `memset`, and what is written over it. -/
def padded (rates : List UInt8) : List UInt8 :=
  rates ++ List.replicate (wlanSupportedRates - rates.length) 0

/-- `wlan_copy_rates` to the front of a cleared array : what it copies of a table of rates. -/
def copyRates (src : List UInt8) : List UInt8 :=
  (src.takeWhile (· ≠ 0)).take wlanSupportedRates

/-- What `wlan_setup_rates_from_bssdesc` returns. -/
structure RatesSetup where
  ok : Bool
  outRates : List UInt8
  outRatesSize : ℕ

/-- Behind the loops : the fixed rate is searched, if there is one, and the rates are counted. -/
def finishRates (fixed : Option ℕ) (out : List UInt8) : Option RatesSetup :=
  if fixed.all fun dataRate => fixedRate dataRate out then
    (wlanStrlen out).map fun n => ⟨true, out, min n wlanSupportedRates⟩
  else some ⟨false, out, 0⟩

/-- `wlan_setup_rates_from_bssdesc` with the buffer of `wlan_get_common_rates`, where `src` are the rates of the card and
`fixed` is the fixed data rate if there is one : nothing if an array is read or written behind its end. -/
def setupRates (fixed : Option ℕ) (src : List UInt8) (ap : RatesArray) : Option RatesSetup :=
  let card := copyRates src
  (commonLoop ap.octets (padded card) card.length []).bind fun common => finishRates fixed (padded common)

/-! ## What is due -/

/-- The rates of the card that the access point lists, with the access point's basic bits. -/
def commonRates (ap card : List UInt8) : List UInt8 :=
  card.filterMap fun c => (ap.takeWhile (· ≠ 0)).find? fun a => SameRate a c

/-- The rates in common are set up, and no array is left. -/
structure RatesSetup.Right (r : RatesSetup) (fixed : Option ℕ) (card ap : List UInt8) : Prop where
  rates : r.outRates = padded (commonRates ap card)
  fits : (commonRates ap card).length ≤ wlanSupportedRates
  ok : r.ok ↔ ∀ dataRate ∈ fixed, ∃ c ∈ commonRates ap card, (c &&& 0x7F).toNat = dataRate
  size : r.outRatesSize = if r.ok then (commonRates ap card).length else 0

/-- The reads end inside : the card has a closing zero, and the access point has one or has all rates of the card. -/
def Closed (card ap : List UInt8) : Prop :=
  card.length < wlanSupportedRates ∧ ((∀ a ∈ ap, a ≠ 0) → ∀ c ∈ card, ∃ a ∈ ap, SameRate a c)

/-! ## Searching -/

variable {c : UInt8} {tmp ap card out pad : List UInt8}

/-- A search leaves the array where there is neither a zero nor the rate. -/
theorem searchRate_eq_none_iff : searchRate c tmp = none ↔ (∀ a ∈ tmp, a ≠ 0) ∧ ∀ a ∈ tmp, ¬SameRate a c := by
  induction tmp with
  | nil => simp [searchRate]
  | cons t tmp ih =>
    unfold searchRate
    split_ifs with hzero hsame
    · simp [hzero]
    · simp [hsame]
    · simp [ih, hzero, hsame]

/-- Otherwise it finds the first one in front of the zero. -/
theorem searchRate_eq (h : searchRate c tmp ≠ none) :
    searchRate c tmp = some ((tmp.takeWhile (· ≠ 0)).find? fun a => SameRate a c) := by
  induction tmp with
  | nil => exact absurd rfl h
  | cons t tmp ih =>
    unfold searchRate at h ⊢
    split_ifs at h ⊢ with hzero hsame
    · simp [hzero]
    · simp [hzero, hsame]
    · rw [ih h]
      simp [hzero, hsame]

theorem mem_of_mem_commonRates {a : UInt8} (h : a ∈ commonRates ap card) : a ≠ 0 := by
  obtain ⟨c, -, hfind⟩ := mem_filterMap.mp h
  simpa using mem_takeWhile_imp (mem_of_find?_eq_some hfind)

theorem commonRates_cons {found : Option UInt8} (h : ((ap.takeWhile (· ≠ 0)).find? fun a => SameRate a c) = found) :
    commonRates ap (c :: card) = found.toList ++ commonRates ap card := by
  unfold commonRates
  rw [filterMap_cons, h]
  cases found <;> rfl

theorem length_commonRates_le (ap card : List UInt8) : (commonRates ap card).length ≤ card.length :=
  length_filterMap_le _ _

/-- The outer loop over rates with a closing zero. -/
theorem commonLoop_eq (hcard : ∀ c ∈ card, c ≠ 0) (hpad : pad ≠ []) (hpad0 : ∀ c ∈ pad, c = 0)
    (hroom : out.length + card.length ≤ wlanSupportedRates) :
    commonLoop tmp (card ++ pad) card.length out =
      if ∀ c ∈ card, searchRate c tmp ≠ none then some (out ++ commonRates tmp card) else none := by
  induction card generalizing out with
  | nil =>
    obtain ⟨z, pad, rfl⟩ := exists_cons_of_ne_nil hpad
    simp [commonLoop, hpad0 z mem_cons_self, commonRates]
  | cons c card ih =>
    have hc : c ≠ 0 := hcard c mem_cons_self
    have hrest : ∀ c ∈ card, c ≠ 0 := fun c hmem => hcard c (mem_cons_of_mem _ hmem)
    rw [length_cons] at hroom
    rw [cons_append, length_cons]
    unfold commonLoop
    rw [if_neg hc]
    by_cases hnone : searchRate c tmp = none
    · simp [hnone]
    · have hfind := searchRate_eq hnone
      cases hsome : (tmp.takeWhile (· ≠ 0)).find? fun a => SameRate a c with
      | none =>
        rw [hsome] at hfind
        simp only [hfind]
        rw [ih hrest (by omega), commonRates_cons hsome]
        simp [hfind]
      | some t =>
        rw [hsome] at hfind
        simp only [hfind]
        rw [if_pos (by omega), ih hrest (by rw [length_append, length_singleton]; omega),
          commonRates_cons hsome]
        simp [hfind]

/-- Without a closing zero the outer loop leaves the array. -/
theorem commonLoop_of_full (hcard : ∀ c ∈ card, c ≠ 0) : commonLoop tmp card card.length out = none := by
  induction card generalizing out with
  | nil => rfl
  | cons c card ih =>
    have hc : c ≠ 0 := hcard c mem_cons_self
    have hrest : ∀ c ∈ card, c ≠ 0 := fun c hmem => hcard c (mem_cons_of_mem _ hmem)
    rw [length_cons]
    unfold commonLoop
    rw [if_neg hc]
    cases searchRate c tmp with
    | none => rfl
    | some found =>
      cases found with
      | none => exact ih hrest
      | some t =>
        dsimp only
        split_ifs
        · exact ih hrest
        · rfl

/-! ## Behind the loops -/

theorem fixedRate_append (dataRate : ℕ) (hout : ∀ a ∈ out, a ≠ 0) (k : ℕ) :
    fixedRate dataRate (out ++ List.replicate k 0) = true ↔ ∃ c ∈ out, (c &&& 0x7F).toNat = dataRate := by
  induction out with
  | nil => cases k <;> simp [fixedRate, replicate_succ]
  | cons r out ih =>
    have hr : r ≠ 0 := hout r mem_cons_self
    rw [cons_append, fixedRate, if_neg hr]
    simp only [mem_cons, exists_eq_or_imp]
    split_ifs with hsame
    · exact iff_of_true rfl (.inl hsame)
    · rw [ih fun a ha => hout a (mem_cons_of_mem _ ha), or_iff_right hsame]

theorem wlanStrlen_append (hout : ∀ a ∈ out, a ≠ 0) {k : ℕ} (hk : 0 < k) :
    wlanStrlen (out ++ List.replicate k 0) = some out.length := by
  induction out with
  | nil =>
    obtain ⟨k, rfl⟩ := Nat.exists_eq_succ_of_ne_zero hk.ne'
    rfl
  | cons r out ih =>
    rw [cons_append, wlanStrlen, if_neg (hout r mem_cons_self),
      ih fun a ha => hout a (mem_cons_of_mem _ ha)]
    rfl

theorem mem_copyRates {src : List UInt8} (h : c ∈ copyRates src) : c ≠ 0 := by
  simpa using mem_takeWhile_imp (mem_of_mem_take h)

theorem length_copyRates_le (src : List UInt8) : (copyRates src).length ≤ wlanSupportedRates :=
  length_take_le _ _

/-- Every search ends inside. -/
theorem searches_iff : (∀ c ∈ card, searchRate c ap ≠ none) ↔ ((∀ a ∈ ap, a ≠ 0) → ∀ c ∈ card, ∃ a ∈ ap, SameRate a c) := by
  simp only [ne_eq, searchRate_eq_none_iff, not_and, not_forall, not_not]
  constructor
  · intro h hfull c hc
    obtain ⟨a, ha, hsame⟩ := h c hc hfull
    exact ⟨a, ha, hsame⟩
  · intro h c hc hfull
    obtain ⟨a, ha, hsame⟩ := h hfull c hc
    exact ⟨a, ha, hsame⟩

/-- What is left of the output behind the rates in common is cleared. -/
theorem right_finishRates (fixed : Option ℕ) (hroom : (commonRates ap card).length < wlanSupportedRates) :
    ∃ r, finishRates fixed (padded (commonRates ap card)) = some r ∧ r.Right fixed card ap := by
  have hne : ∀ a ∈ commonRates ap card, a ≠ 0 := fun a => mem_of_mem_commonRates
  have hlen : wlanStrlen (padded (commonRates ap card)) = some (commonRates ap card).length :=
    wlanStrlen_append hne (Nat.sub_pos_of_lt hroom)
  have hfixed : ∀ dataRate, fixedRate dataRate (padded (commonRates ap card)) = true ↔
      ∃ c ∈ commonRates ap card, (c &&& 0x7F).toNat = dataRate := fun dataRate => fixedRate_append dataRate hne _
  have hall : (fixed.all fun dataRate => fixedRate dataRate (padded (commonRates ap card))) = true ↔
      ∀ dataRate ∈ fixed, ∃ c ∈ commonRates ap card, (c &&& 0x7F).toNat = dataRate := by
    simp only [Option.all_eq_true, Option.mem_def, hfixed]
  unfold finishRates
  split_ifs with hfound
  · rw [hlen]
    exact ⟨_, rfl, rfl, hroom.le, iff_of_true rfl (hall.mp hfound), by simp [hroom.le]⟩
  · exact ⟨_, rfl, rfl, hroom.le, iff_of_false (by simp) fun h => hfound (hall.mpr h), by simp⟩

/-- **The rates in common** are set up from inside of the arrays exactly where these are closed. -/
theorem setupRates_iff (fixed : Option ℕ) (src : List UInt8) (ap : RatesArray) :
    (∃ r, setupRates fixed src ap = some r ∧ r.Right fixed (copyRates src) ap.octets) ↔
      Closed (copyRates src) ap.octets := by
  have hcard : ∀ c ∈ copyRates src, c ≠ 0 := fun c => mem_copyRates
  change (∃ r, (commonLoop ap.octets (padded (copyRates src)) (copyRates src).length []).bind
    (fun common => finishRates fixed (padded common)) = some r ∧ _) ↔ _
  rcases (length_copyRates_le src).lt_or_eq with hlt | hfull
  · have hpad : List.replicate (wlanSupportedRates - (copyRates src).length) (0 : UInt8) ≠ [] := by
      rw [Ne, replicate_eq_nil_iff]
      exact (Nat.sub_pos_of_lt hlt).ne'
    have hloop := @commonLoop_eq ap.octets (copyRates src) [] _ hcard hpad (fun c hc => eq_of_mem_replicate hc)
      (by simpa using hlt.le)
    rw [nil_append] at hloop
    change commonLoop ap.octets (padded (copyRates src)) _ _ = _ at hloop
    unfold Closed
    rw [← searches_iff, hloop]
    split_ifs with hsearch
    · exact iff_of_true (right_finishRates fixed ((length_commonRates_le _ _).trans_lt hlt)) ⟨hlt, hsearch⟩
    · simp [hsearch]
  · have hpad : padded (copyRates src) = copyRates src := by simp [padded, hfull]
    refine iff_of_false ?_ fun h => h.1.ne hfull
    rintro ⟨r, hr, -⟩
    rw [hpad, commonLoop_of_full hcard] at hr
    exact absurd hr (by simp)

/-! ## The card's own rates -/

/-- A full list of rates of an access point, none of which is 1 Mbit/s. -/
def fullRates : RatesArray :=
  ⟨List.replicate 14 0x0c, rfl⟩

/-- The search for 1 Mbit/s reads behind the copy. -/
theorem not_setupRates_full :
    ¬∃ r, setupRates none supportedRatesB fullRates = some r ∧ r.Right none (copyRates supportedRatesB) fullRates.octets := by
  rintro ⟨r, hr, -⟩
  have hnone : (setupRates none supportedRatesB fullRates).isNone := by decide
  rw [hr] at hnone
  exact Bool.false_ne_true hnone

end WlanDriver.Join
