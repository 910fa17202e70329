import Mathlib.Data.List.Range
import Mathlib.Logic.Function.Basic
import WlanDriver.Lib.Excise

/-!
# Custom management IEs

Each interface has a table `mgmt_ie` of entries with a mask of frame subtypes and the octets that are added to these frames.
`wlan_custom_ioctl_auto_delete` takes octets out of one entry or of all, `wlan_custom_ioctl_get_autoidx` finds the entry for
an addition. What they do is said on `view`, the mask and the octets of each entry : `deleteLoop` is `exciseTimes`, where no
search reads on behind an entry (`StrayFree`).
-/

namespace WlanDriver.Misc

open Function List

def maxIeSize : ℕ := 256

/-- Octets in a buffer of `MAX_IE_SIZE`, with zeros behind them. -/
def fit (l : List UInt8) : List UInt8 :=
  (l ++ List.replicate maxIeSize 0).take maxIeSize

@[simp] theorem length_fit (l : List UInt8) : (fit l).length = maxIeSize := by
  simp [fit]

theorem take_fit {l : List UInt8} {n : ℕ} (hn : n ≤ l.length) (hl : n ≤ maxIeSize) : (fit l).take n = l.take n := by
  rw [fit, take_take, Nat.min_eq_left hl, take_append_of_le_length hn]

theorem take_fit_append {a b : List UInt8} {n : ℕ} (ha : a.length = n) (hl : n ≤ maxIeSize) :
    (fit (a ++ b)).take n = a := by
  rw [take_fit (by simp [ha]) hl, ← ha, take_left]

structure CustomIe where
  ieIndex : ℕ
  mgmtSubtypeMask : ℕ
  ieLength : ℕ
  ieBuffer : List UInt8
  length_ieBuffer : ieBuffer.length = maxIeSize

/-- Masks and octets by index. -/
abbrev View := ℕ → ℕ × List UInt8

namespace CustomIe

def content (e : CustomIe) : List UInt8 :=
  e.ieBuffer.take e.ieLength

theorem length_content {e : CustomIe} (h : e.ieLength ≤ maxIeSize) : e.content.length = e.ieLength := by
  rw [content, length_take, e.length_ieBuffer, Nat.min_eq_left h]

def view (e : CustomIe) : ℕ × List UInt8 :=
  (e.mgmtSubtypeMask, e.content)

/-- `memcmp` of what is to be deleted with the entry from `cnt` on. What lies behind the buffer is taken to agree. -/
def agrees (e : CustomIe) (del : List UInt8) (cnt : ℕ) : Bool :=
  ((e.ieBuffer.drop cnt).take del.length).isPrefixOf del

/-- The octets from `cnt` on are taken out. -/
def removeAt (e : CustomIe) (cnt n : ℕ) : CustomIe where
  ieIndex := e.ieIndex
  mgmtSubtypeMask := e.mgmtSubtypeMask
  ieLength := e.ieLength - n
  ieBuffer := fit (e.ieBuffer.take cnt ++ e.content.drop (cnt + n))
  length_ieBuffer := length_fit _

/-- The scan of an entry, which starts again behind each match, and whether there was one. There is no result if a match
reaches behind the entry, whose length then wraps, or if the scan does not end. -/
def deleteLoop (del : List UInt8) : ℕ → CustomIe → Option (CustomIe × Bool)
  | 0, _ => none
  | fuel + 1, e =>
    match (List.range e.ieLength).find? (e.agrees del) with
    | none => some (e, false)
    | some cnt =>
      if e.ieLength < cnt + del.length then none
      else (deleteLoop del fuel (e.removeAt cnt del.length)).map fun r => (r.1, true)

end CustomIe

/-- `wlan_custom_ioctl_auto_delete` with `MLAN_CUSTOM_IE_AUTO_IDX_MASK` : the entries, whether something was found, and the
bits of `ie_index`, which has 16 of them. -/
def autoDelete (max : ℕ) (mgmtIe : ℕ → CustomIe) (del : List UInt8) : Option ((ℕ → CustomIe) × Bool × (ℕ → Bool)) :=
  (List.range max).foldlM (fun t i => ((t.1 i).deleteLoop del ((t.1 i).ieLength + 1)).map fun r =>
    (update t.1 i r.1, t.2.1 || r.2, if r.2 ∧ i < 16 then update t.2.2 i true else t.2.2))
    (mgmtIe, false, fun _ => false)

/-- What `wlan_custom_ioctl_get_autoidx` finds. -/
inductive Slot
  | full
  | duplicate
  | at (i : ℕ)
  deriving DecidableEq

/-- `wlan_custom_ioctl_get_autoidx`, where `ie` is what lies from `ie_buffer` on, and `free i` says that no other interface
uses the index. -/
def getAutoidx (max : ℕ) (free : ℕ → Bool) (v : View) (mask : ℕ) (ie : List UInt8) (ieLength : ℕ) : Slot :=
  let same : ℕ → Bool := fun i => (v i).2 ≠ [] ∧ ie.take (v i).2.length = (v i).2
  match (List.range max).find? fun i =>
      (v i).1 ≠ 0xffff ∧ (v i).1 = mask ∧ (same i ∨ (v i).2.length + ieLength ≤ maxIeSize) with
  | some i => if same i then .duplicate else .at i
  | none =>
    match (List.range max).find? fun i => (v i).2 = [] ∧ free i with
    | some i => .at i
    | none => .full

/-! ## The scan of an entry -/

namespace CustomIe

variable {e : CustomIe} {del : List UInt8} {cnt fuel : ℕ}

theorem content_eq_of_le {n : ℕ} (hn : cnt + n ≤ e.ieLength) :
    (e.ieBuffer.drop cnt).take n = (e.content.drop cnt).take n := by
  rw [content, drop_take, take_take, Nat.min_eq_left (by omega)]

/-- Where no end of the entry agrees, the comparison is one with its octets. -/
theorem agrees_iff (h : e.ieLength ≤ maxIeSize) (hcnt : cnt < e.ieLength) (hstray : ¬Stray del e.content cnt) :
    e.agrees del cnt = true ↔ del <+: e.content.drop cnt := by
  unfold agrees
  rw [List.isPrefixOf_iff_prefix]
  by_cases hin : cnt + del.length ≤ e.ieLength
  · have hlen : ((e.content.drop cnt).take del.length).length = del.length := by
      rw [length_take, length_drop, length_content h]
      omega
    rw [content_eq_of_le hin]
    constructor
    · intro hp
      exact hp.eq_of_length hlen ▸ List.take_prefix _ _
    · intro hp
      rw [prefix_iff_eq_take] at hp
      exact hp ▸ prefix_rfl
  · have hover : e.content.length < cnt + del.length := by
      rw [length_content h]
      omega
    refine iff_of_false (fun hp => hstray ⟨hover, ?_⟩) fun hp => ?_
    · refine List.IsPrefix.trans ?_ hp
      rw [content, drop_take]
      exact List.take_prefix_take_left (by omega)
    · have := hp.length_le
      rw [length_drop] at this
      omega

theorem find_agrees (h : e.ieLength ≤ maxIeSize) (hstray : ∀ k < e.content.length, ¬Stray del e.content k) :
    (List.range e.ieLength).find? (e.agrees del) = firstIn del e.content := by
  unfold firstIn
  rw [length_content h] at hstray ⊢
  refine find?_congr_mem fun k hk => ?_
  have hk := mem_range.mp hk
  rw [Bool.eq_iff_iff, agrees_iff h hk (hstray k hk), List.isPrefixOf_iff_prefix]

theorem content_removeAt (h : e.ieLength ≤ maxIeSize) (hfirst : firstIn del e.content = some cnt) :
    (e.removeAt cnt del.length).content = excise del e.content := by
  have hin := (firstIn_eq_some hfirst).2
  rw [length_content h] at hin
  have htake : e.ieBuffer.take cnt = e.content.take cnt := by
    rw [content, take_take, Nat.min_eq_left (by omega)]
  have hlen : (e.content.take cnt ++ e.content.drop (cnt + del.length)).length = e.ieLength - del.length := by
    rw [length_append, length_take, length_drop, length_content h]
    omega
  rw [excise, hfirst, content]
  change (fit (e.ieBuffer.take cnt ++ e.content.drop (cnt + del.length))).take (e.ieLength - del.length) = _
  rw [htake, take_fit hlen.ge (by omega), ← hlen, take_length]

/-- What the scan of an entry gives. -/
structure Deleted (del : List UInt8) (n : ℕ) (e : CustomIe) (r : CustomIe × Bool) : Prop where
  content : r.1.content = exciseTimes del n e.content
  ieLength : r.1.ieLength ≤ e.ieLength
  mask : r.1.mgmtSubtypeMask = e.mgmtSubtypeMask
  ieIndex : r.1.ieIndex = e.ieIndex
  found : r.2 = (firstIn del e.content).isSome
  same : firstIn del e.content = none → r.1 = e

theorem exists_deleteLoop (hdel : del ≠ []) (h : e.ieLength ≤ maxIeSize) (hfuel : e.ieLength < fuel)
    (hstray : StrayFree del fuel e.content) : ∃ r, e.deleteLoop del fuel = some r ∧ Deleted del fuel e r := by
  induction fuel generalizing e with
  | zero => omega
  | succ fuel ih =>
    obtain ⟨hfree, hrest⟩ := hstray
    unfold deleteLoop
    rw [find_agrees h hfree]
    cases hfirst : firstIn del e.content with
    | none =>
      exact ⟨(e, false), rfl, (exciseTimes_of_none hfirst _).symm, le_rfl, rfl, rfl, by rw [hfirst]; rfl, fun _ => rfl⟩
    | some cnt =>
      have hin := (firstIn_eq_some hfirst).2
      have hpos := length_pos_of_ne_nil hdel
      rw [length_content h] at hin
      rw [← content_removeAt h hfirst] at hrest
      have hle : (e.removeAt cnt del.length).ieLength = e.ieLength - del.length := rfl
      obtain ⟨r, hr, hd⟩ := ih (e := e.removeAt cnt del.length) (by omega) (by omega) hrest
      dsimp only
      rw [if_neg (by omega), hr]
      refine ⟨(r.1, true), rfl, ?_, hd.ieLength.trans (by omega), hd.mask, hd.ieIndex, by rw [hfirst]; rfl,
        fun h => absurd (hfirst.symm.trans h) (Option.some_ne_none _)⟩
      rw [hd.content, content_removeAt h hfirst]
      rfl

end CustomIe

/-! ## All entries -/

section AutoDelete

variable {max : ℕ} {t : ℕ → CustomIe} {del : List UInt8}

/-- What `autoDelete` gives. -/
structure AutoDeleted (max : ℕ) (t : ℕ → CustomIe) (del : List UInt8) (u : ℕ → CustomIe) (found : Bool)
    (bits : ℕ → Bool) : Prop where
  others : ∀ i, max ≤ i → u i = t i
  deleted : ∀ i < max, ∃ b, CustomIe.Deleted del ((t i).ieLength + 1) (t i) (u i, b)
  found_iff : found = true ↔ ∃ i < max, (firstIn del (t i).content).isSome
  bits_iff : ∀ i, bits i = true ↔ i < max ∧ i < 16 ∧ (firstIn del (t i).content).isSome

theorem exists_autoDelete (hdel : del ≠ []) (hlen : ∀ i, (t i).ieLength ≤ maxIeSize)
    (hstray : ∀ i < max, StrayFree del ((t i).ieLength + 1) (t i).content) :
    ∃ u found bits, autoDelete max t del = some (u, found, bits) ∧ AutoDeleted max t del u found bits := by
  induction max with
  | zero => exact ⟨t, false, fun _ => false, rfl, fun _ _ => rfl, by simp, by simp, by simp⟩
  | succ n ih =>
    obtain ⟨u, found, bits, heq, h⟩ := ih fun i hi => hstray i (Nat.lt_succ_of_lt hi)
    have hun : u n = t n := h.others n le_rfl
    obtain ⟨r, hr, hd⟩ := CustomIe.exists_deleteLoop hdel (hlen n) (Nat.lt_succ_self _) (hstray n (Nat.lt_succ_self n))
    have hstep : autoDelete (n + 1) t del = some (update u n r.1, found || r.2,
        if r.2 ∧ n < 16 then update bits n true else bits) := by
      unfold autoDelete at heq ⊢
      rw [range_succ, foldlM_append, heq]
      simp [hun, hr]
    refine ⟨_, _, _, hstep, fun i hi => ?_, fun i hi => ?_, ?_, fun i => ?_⟩
    · rw [update_of_ne (by omega)]
      exact h.others i (by omega)
    · rcases Nat.lt_succ_iff_lt_or_eq.mp hi with hlt | rfl
      · rw [update_of_ne (by omega)]
        exact h.deleted i hlt
      · rw [update_self]
        exact ⟨r.2, hd⟩
    · rw [Bool.or_eq_true, h.found_iff, hd.found]
      simp only [Nat.lt_succ_iff_lt_or_eq, or_and_right, exists_or, exists_eq_left]
    · have hor : i < n + 1 ↔ i < n ∨ i = n := Nat.lt_succ_iff_lt_or_eq
      rw [hor]
      by_cases hi : i = n
      · subst hi
        have hno : bits i = false := by
          rw [Bool.eq_false_iff]
          exact fun hb => absurd ((h.bits_iff i).mp hb).1 (Nat.lt_irrefl i)
        by_cases hb : r.2 = true ∧ i < 16
        · rw [if_pos hb, update_self]
          simpa [hb.2] using hd.found ▸ hb.1
        · rw [if_neg hb, hno]
          simp only [Bool.false_eq_true, lt_irrefl, or_true, true_and, false_iff]
          exact fun hand => hb ⟨hd.found.trans hand.2, hand.1⟩
      · simp only [hi, or_false]
        rw [← h.bits_iff i]
        split_ifs
        · rw [update_of_ne hi]
        · rfl

end AutoDelete

end WlanDriver.Misc
