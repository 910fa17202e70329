import Mathlib.Data.Nat.Find
import WlanDriver.Join.Roam
import WlanDriver.Lib.Tlv

/-!
# What is looked up in an RSN element

An RSN element has a version, a group cipher, a counted list of pairwise ciphers, a counted list of AKM suites, and the
capabilities. `wlan_get_rsn_cap` and `wlan_ft_akm_is_used` each walk along it on their own. The first compares where a field
begins with the end of the element, and not where it ends; the second compares nothing.

An element lies in memory from 0 on, with its header, and what is behind it can be read too : the functions give what they
return and what they read. `lookups_iff` says for which elements all reads are inside, and the answers are those of the element.
-/

namespace WlanDriver.Join

def rsnIe : UInt8 := 48

namespace Rsn

variable (m : Mem)

/-- A field of 16 bits. -/
def word (a : ℕ) : ℕ :=
  Tlv.get16 (m.read a 2)

/-- The length of the header. -/
def len : ℕ :=
  (m 1).toNat

/-- The octets of the element, with the header. -/
def size : ℕ :=
  2 + len m

/-- The number of pairwise ciphers. -/
def pairwiseCount : ℕ :=
  word m 8

/-- Where the number of AKM suites is. -/
def akmAt : ℕ :=
  10 + 4 * pairwiseCount m

/-- The number of AKM suites. -/
def akmCount : ℕ :=
  word m (akmAt m)

/-- Where the capabilities are, behind the AKM suites. -/
def capAt : ℕ :=
  akmAt m + 2 + 4 * akmCount m

/-- An AKM suite. -/
def akmSuite (j : ℕ) : List UInt8 :=
  m.read (akmAt m + 2 + 4 * j) 4

/-- `rsn_ft_1x_oui`, `rsn_ft_psk_oui` or `rsn_ft_sae_oui`. -/
def IsFt (suite : List UInt8) : Prop :=
  suite ∈ [[0x00, 0x0f, 0xac, 0x03], [0x00, 0x0f, 0xac, 0x04], [0x00, 0x0f, 0xac, (0x09 : UInt8)]]
  deriving Decidable

/-! ## The functions -/

/-- `wlan_get_rsn_cap` of the octets behind the header. -/
def getRsnCap : ℕ × List Span :=
  if len m < 20 then (0, [])
  else if pairwiseCount m = 0 ∨ size m ≤ akmAt m then (0, [⟨8, 2⟩])
  else if akmCount m = 0 ∨ size m < capAt m then (0, [⟨8, 2⟩, ⟨akmAt m, 2⟩])
  else (word m (capAt m), [⟨8, 2⟩, ⟨akmAt m, 2⟩, ⟨capAt m, 2⟩])

/-- `wlan_use_mfp` : what is read of `wpa_ie`, and of the element of the access point if there is one. -/
def useMfp (ap : Option Mem) : Bool × List Span × List Span :=
  if m 0 ≠ rsnIe then (false, [⟨0, 1⟩], [])
  else
    let sta := getRsnCap m
    match ap with
    | none => (false, ⟨0, 1⟩ :: ⟨1, 1⟩ :: sta.2, [])
    | some ap => (Priv.mfp (getRsnCap ap).1 && Priv.mfp sta.1, ⟨0, 1⟩ :: ⟨1, 1⟩ :: sta.2, ⟨1, 1⟩ :: (getRsnCap ap).2)

/-- The loop over the AKM suites, `n` of which are left. -/
def ftScan : ℕ → ℕ → Bool × List Span
  | 0, _ => (false, [])
  | n + 1, temp =>
    if IsFt (m.read temp 4) then (true, [⟨temp, 4⟩])
    else
      let rest := ftScan n (temp + 4)
      (rest.1, ⟨temp, 4⟩ :: rest.2)

def ftAkmIsUsed : Bool × List Span :=
  if m 0 ≠ rsnIe then (false, [⟨0, 1⟩])
  else
    let scan := ftScan m (akmCount m) (akmAt m + 2)
    (scan.1, ⟨0, 1⟩ :: ⟨8, 2⟩ :: ⟨akmAt m, 2⟩ :: scan.2)

/-! ## What is due -/

/-- All octets that are read are in the element. -/
def Inside (reads : List Span) : Prop :=
  ∀ r ∈ reads, r.Inside 0 (size m)

/-- The element is long enough for the capabilities behind its two lists. -/
def HasCap : Prop :=
  capAt m + 2 ≤ size m

/-- `wlan_get_rsn_cap` stays inside, and gives the capabilities if the element has them. -/
structure CapRight : Prop where
  inside : Inside m (getRsnCap m).2
  has : HasCap m → (getRsnCap m).1 = word m (capAt m)
  hasNot : ¬HasCap m → (getRsnCap m).1 = 0

/-- An AKM suite that is listed in the element is an FT suite. -/
def ListsFt : Prop :=
  ∃ j < akmCount m, akmAt m + 2 + 4 * j + 4 ≤ size m ∧ IsFt (akmSuite m j)

/-- `wlan_ft_akm_is_used` stays inside, and finds what is listed. -/
structure FtRight : Prop where
  inside : Inside m (ftAkmIsUsed m).2
  answer : (ftAkmIsUsed m).1 = true ↔ m 0 = rsnIe ∧ ListsFt m

/-- The lookups in the element `wpa` of the supplicant and in the element `ap` of a network. -/
structure LookupsRight (wpa ap : Mem) : Prop where
  cap : CapRight ap
  ft : FtRight ap
  wpaCap : wpa 0 = rsnIe → CapRight wpa
  wpaFt : FtRight wpa
  mfpWpa : Inside wpa (useMfp wpa (some ap)).2.1
  mfpAp : Inside ap (useMfp wpa (some ap)).2.2
  mfpNone : Inside wpa (useMfp wpa none).2.1

/-- `wlan_get_rsn_cap` looks at the lists of the element. -/
def Looked : Prop :=
  20 ≤ len m ∧ pairwiseCount m ≠ 0 ∧ akmAt m < size m

/-- What makes `wlan_get_rsn_cap` right : an element whose lists are looked at has the second number, does not end right
behind the second list or one octet further, and has no capabilities behind an empty list. -/
structure CapFits : Prop where
  count : Looked m → akmAt m + 2 ≤ size m
  cap : Looked m → akmCount m ≠ 0 → size m ≠ capAt m ∧ size m ≠ capAt m + 1
  listed : pairwiseCount m = 0 ∨ akmCount m = 0 → HasCap m → word m (capAt m) = 0

/-- What makes `wlan_ft_akm_is_used` right : the element has the numbers, and the suites up to the first FT suite. -/
def FtFits : Prop :=
  m 0 = rsnIe → akmAt m + 2 ≤ size m ∧
    ∀ j < akmCount m, (∀ i < j, ¬IsFt (akmSuite m i)) → akmAt m + 2 + 4 * j + 4 ≤ size m

/-! ## The capabilities -/

variable {m} {ap : Mem} {a b n temp : ℕ} {l : List Span}

@[simp] theorem inside_nil : Inside m [] := by
  simp [Inside]

@[simp] theorem inside_cons : Inside m (⟨a, n⟩ :: l) ↔ a + n ≤ size m ∧ Inside m l := by
  simp [Inside, Span.Inside]

/-- An element with two lists that has capabilities is long enough for the first test. -/
theorem HasCap.looked (h : HasCap m) (hpair : pairwiseCount m ≠ 0) (hakm : akmCount m ≠ 0) : Looked m := by
  unfold HasCap capAt akmAt size at h
  refine ⟨by omega, hpair, ?_⟩
  unfold akmAt size
  omega

theorem getRsnCap_of_not_looked (h : ¬Looked m) : (getRsnCap m).1 = 0 ∧ Inside m (getRsnCap m).2 := by
  unfold getRsnCap
  split_ifs with hlen hlist hcap
  · simp
  · simp only [inside_cons, inside_nil, and_true]
    exact ⟨trivial, by unfold size; omega⟩
  · exact absurd ⟨Nat.le_of_not_lt hlen, fun h0 => hlist (.inl h0), Nat.lt_of_not_le fun hle => hlist (.inr hle)⟩ h
  · exact absurd ⟨Nat.le_of_not_lt hlen, fun h0 => hlist (.inl h0), Nat.lt_of_not_le fun hle => hlist (.inr hle)⟩ h

theorem getRsnCap_of_looked (h : Looked m) : getRsnCap m =
    if akmCount m = 0 ∨ size m < capAt m then (0, [⟨8, 2⟩, ⟨akmAt m, 2⟩])
    else (word m (capAt m), [⟨8, 2⟩, ⟨akmAt m, 2⟩, ⟨capAt m, 2⟩]) := by
  unfold getRsnCap
  rw [if_neg (Nat.not_lt.mpr h.1), if_neg (not_or.mpr ⟨h.2.1, Nat.not_le.mpr h.2.2⟩)]

theorem CapRight.fits (h : CapRight m) (hlooked : Looked m) : CapFits m := by
  obtain ⟨hinside, hhas, -⟩ := h
  rw [getRsnCap_of_looked hlooked] at hinside hhas
  refine ⟨fun _ => ?_, fun _ hakm => ?_, fun hempty hcap => ?_⟩
  · split_ifs at hinside
    · exact (inside_cons.mp (inside_cons.mp hinside).2).1
    · exact (inside_cons.mp (inside_cons.mp hinside).2).1
  · split_ifs at hinside with hcap
    · have hlt := hcap.resolve_left hakm
      omega
    · have hlast := (inside_cons.mp (inside_cons.mp (inside_cons.mp hinside).2).2).1
      omega
  · have hakm := hempty.resolve_left hlooked.2.1
    have hval := hhas hcap
    rw [if_pos (.inl hakm)] at hval
    exact hval.symm

theorem CapFits.right (h : CapFits m) (hlooked : Looked m) : CapRight m := by
  have heq := getRsnCap_of_looked hlooked
  have hcount := h.count hlooked
  have hfirst : 8 + 2 ≤ size m := by
    have := hlooked.1
    unfold size
    omega
  by_cases hstop : akmCount m = 0 ∨ size m < capAt m
  · rw [if_pos hstop] at heq
    refine ⟨by rw [heq]; simp [hfirst, hcount], fun hcap => ?_, fun _ => by rw [heq]⟩
    rcases hstop with hakm | hlt
    · rw [heq, h.listed (.inr hakm) hcap]
    · unfold HasCap at hcap
      omega
  · rw [if_neg hstop] at heq
    obtain ⟨hakm, hle⟩ := not_or.mp hstop
    obtain ⟨hne, hne1⟩ := h.cap hlooked hakm
    have hcap : capAt m + 2 ≤ size m := by omega
    exact ⟨by rw [heq]; simp [hfirst, hcount, hcap], fun _ => by rw [heq], fun hnot => absurd hcap hnot⟩

/-- `wlan_get_rsn_cap` is right exactly where the element fits. -/
theorem capRight_iff : CapRight m ↔ CapFits m := by
  by_cases hlooked : Looked m
  · exact ⟨fun h => h.fits hlooked, fun h => h.right hlooked⟩
  · obtain ⟨hzero, hinside⟩ := getRsnCap_of_not_looked hlooked
    have hempty : HasCap m → pairwiseCount m = 0 ∨ akmCount m = 0 := by
      intro hcap
      by_contra hne
      obtain ⟨hpair, hakm⟩ := not_or.mp hne
      exact hlooked (hcap.looked hpair hakm)
    constructor
    · intro h
      exact ⟨fun hl => absurd hl hlooked, fun hl => absurd hl hlooked, fun _ hcap => (h.has hcap).symm.trans hzero⟩
    · intro h
      exact ⟨hinside, fun hcap => hzero.trans (h.listed (hempty hcap) hcap).symm, fun _ => hzero⟩

/-! ## The AKM suites -/

theorem ftScan_answer : (ftScan m n temp).1 = true ↔ ∃ j < n, IsFt (m.read (temp + 4 * j) 4) := by
  induction n generalizing temp with
  | zero => simp [ftScan]
  | succ n ih =>
    unfold ftScan
    split_ifs with hft
    · exact iff_of_true rfl ⟨0, Nat.succ_pos n, hft⟩
    · dsimp only
      rw [ih]
      constructor
      · rintro ⟨j, hj, hsuite⟩
        refine ⟨j + 1, Nat.succ_lt_succ hj, ?_⟩
        rwa [Nat.mul_add, Nat.add_comm (4 * j), ← Nat.add_assoc]
      · rintro ⟨j, hj, hsuite⟩
        cases j with
        | zero => exact absurd hsuite hft
        | succ j =>
          refine ⟨j, Nat.lt_of_succ_lt_succ hj, ?_⟩
          rwa [Nat.mul_add, Nat.add_comm (4 * j), ← Nat.add_assoc] at hsuite

theorem ftScan_inside : Inside m (ftScan m n temp).2 ↔
    ∀ j < n, (∀ i < j, ¬IsFt (m.read (temp + 4 * i) 4)) → temp + 4 * j + 4 ≤ size m := by
  induction n generalizing temp with
  | zero => simp [ftScan]
  | succ n ih =>
    unfold ftScan
    split_ifs with hft
    · simp only [inside_cons, inside_nil, and_true]
      constructor
      · intro h j hj hbefore
        cases j with
        | zero => exact h
        | succ j => exact absurd hft (hbefore 0 (Nat.succ_pos j))
      · intro h
        exact h 0 (Nat.succ_pos n) (fun i hi => absurd hi (Nat.not_lt_zero i))
    · dsimp only
      rw [inside_cons, ih]
      constructor
      · rintro ⟨hfirst, hrest⟩ j hj hbefore
        cases j with
        | zero => exact hfirst
        | succ j =>
          have := hrest j (Nat.lt_of_succ_lt_succ hj) fun i hi => by
            have := hbefore (i + 1) (Nat.succ_lt_succ hi)
            rwa [Nat.mul_add, Nat.add_comm (4 * i), ← Nat.add_assoc] at this
          omega
      · intro h
        refine ⟨h 0 (Nat.succ_pos n) (fun i hi => absurd hi (Nat.not_lt_zero i)), fun j hj hbefore => ?_⟩
        have := h (j + 1) (Nat.succ_lt_succ hj) fun i hi => by
          cases i with
          | zero => exact hft
          | succ i =>
            rw [Nat.mul_add, Nat.add_comm (4 * i), ← Nat.add_assoc]
            exact hbefore i (Nat.lt_of_succ_lt_succ hi)
        omega

/-- `wlan_ft_akm_is_used` is right exactly where the element has what it looks at. -/
theorem ftRight_iff : FtRight m ↔ FtFits m := by
  have hsize : 0 + 1 ≤ size m := by
    unfold size
    omega
  by_cases hid : m 0 = rsnIe
  · have heq : ftAkmIsUsed m = ((ftScan m (akmCount m) (akmAt m + 2)).1,
        ⟨0, 1⟩ :: ⟨8, 2⟩ :: ⟨akmAt m, 2⟩ :: (ftScan m (akmCount m) (akmAt m + 2)).2) := by
      unfold ftAkmIsUsed
      rw [if_neg (not_not_intro hid)]
    constructor
    · rintro ⟨hinside, -⟩ -
      rw [heq] at hinside
      simp only [inside_cons, ftScan_inside] at hinside
      exact ⟨hinside.2.2.1, hinside.2.2.2⟩
    · intro hfits
      obtain ⟨hcount, hsuites⟩ := hfits hid
      refine ⟨?_, ?_⟩
      · rw [heq]
        simp only [inside_cons, ftScan_inside]
        have hpair : 10 ≤ akmAt m := Nat.le_add_right _ _
        exact ⟨hsize, by omega, hcount, hsuites⟩
      · rw [heq]
        dsimp only
        rw [ftScan_answer, and_iff_right hid]
        constructor
        · intro h
          -- the first FT suite is inside
          have hex : ∃ j, j < akmCount m ∧ IsFt (akmSuite m j) := h
          obtain ⟨hlt, hft⟩ := Nat.find_spec hex
          refine ⟨Nat.find hex, hlt, hsuites _ hlt fun i hi hi' => ?_, hft⟩
          exact Nat.find_min hex hi ⟨hi.trans hlt, hi'⟩
        · rintro ⟨j, hj, -, hft⟩
          exact ⟨j, hj, hft⟩
  · have heq : ftAkmIsUsed m = (false, [⟨0, 1⟩]) := if_pos hid
    refine iff_of_true ⟨?_, ?_⟩ fun h => absurd h hid
    · rw [heq]
      simp [hsize]
    · rw [heq]
      exact iff_of_false Bool.false_ne_true fun h => hid h.1

/-! ## Both elements -/

/-- What `wlan_use_mfp` reads of the element of the supplicant. -/
theorem inside_useMfp (h : m 0 = rsnIe → Inside m (getRsnCap m).2) (ap : Option Mem) : Inside m (useMfp m ap).2.1 := by
  have hsize : 2 ≤ size m := Nat.le_add_right _ _
  unfold useMfp
  split_ifs with hid
  · simp only [inside_cons, inside_nil, and_true]
    omega
  · have hinside := h (not_not.mp hid)
    cases ap <;>
    · simp only [inside_cons, hinside, and_true]
      omega

/-- **The lookups** in the elements of the supplicant and of a network stay inside and give what these have exactly where
the elements fit. -/
theorem lookups_iff (wpa ap : Mem) : LookupsRight wpa ap ↔
    (CapFits ap ∧ FtFits ap) ∧ (wpa 0 = rsnIe → CapFits wpa) ∧ FtFits wpa := by
  constructor
  · intro h
    exact ⟨⟨capRight_iff.mp h.cap, ftRight_iff.mp h.ft⟩, fun hid => capRight_iff.mp (h.wpaCap hid), ftRight_iff.mp h.wpaFt⟩
  · rintro ⟨⟨hcap, hft⟩, hwpaCap, hwpaFt⟩
    have hap : 2 ≤ size ap := Nat.le_add_right _ _
    have hapInside := (capRight_iff.mpr hcap).inside
    have hwpaInside : wpa 0 = rsnIe → _ := fun hid => (capRight_iff.mpr (hwpaCap hid)).inside
    refine ⟨capRight_iff.mpr hcap, ftRight_iff.mpr hft, fun hid => capRight_iff.mpr (hwpaCap hid),
      ftRight_iff.mpr hwpaFt, inside_useMfp hwpaInside _, ?_, inside_useMfp hwpaInside _⟩
    unfold useMfp
    split_ifs with hid
    · exact inside_nil
    · simp only [inside_cons, hapInside, and_true]
      omega

/-- An element of 22 octets with two AKM suites and no capabilities : it ends with the list. -/
def noCapElement : Mem :=
  fun a => ([48, 22, 1, 0, 0, 0x0f, 0xac, 4, 1, 0, 0, 0x0f, 0xac, 4, 2, 0, 0, 0x0f, 0xac, 2, 0, 0x0f, 0xac, 6] : List UInt8).getD a 0

/-- The capabilities are read behind its end. -/
theorem not_lookups_noCap : ¬LookupsRight noCapElement noCapElement := by
  intro h
  have hread : (⟨24, 2⟩ : Span) ∈ (getRsnCap noCapElement).2 := by decide
  have hinside := h.cap.inside _ hread
  exact absurd hinside (by decide)

end Rsn

end WlanDriver.Join
