import WlanDriver.Lib.Tlv

/-!
# The response to a power mode command

`wlan_ret_enh_power_mode` walks along the TLVs behind the fixed part of a response twice : for the parameters of auto deep
sleep, without a look at the size, and for those of the sleep of an AP, with a 16-bit remainder from which the length in each
TLV is taken off. The reads of both walks are kept. They end inside the response if it has the TLV that the first looks
for, and if the second meets TLVs that fit (`retEnhPowerMode_bounded_iff`).
-/

namespace WlanDriver.Cmd

open List

/-- `ps_mode` of the adapter. -/
inductive PowerMode
  | cam
  | psp
  deriving DecidableEq

/-- The fields of the adapter that the response sets. -/
structure PsAdapter where
  isDeepSleep : Bool
  idleTime : ℕ
  sleepPeriod : ℕ
  psMode : PowerMode
  delayNullPkt : Bool
  txLockFlag : Bool
  ppsUapsdMode : Bool
  deriving DecidableEq

/-- The sub-command of a pending ioctl. -/
inductive PmSubCommand
  | ieeePs
  | psMode
  | other
  deriving DecidableEq

/-- What the response sets of a pending ioctl : `param.ps_mode`, and `param.ps_mgmt`. -/
structure PmCfg where
  ieeePsMode : ℕ
  flags : ℕ
  psMode : ℕ
  sleepParam : ℕ × ℕ × ℕ
  inactParam : ℕ × ℕ × ℕ
  deriving DecidableEq

/-- Four octets, the low ones first. -/
def get32 (m : Mem) (a : ℕ) : ℕ :=
  m.get16 a + 65536 * m.get16 (a + 2)

/-- `GET_PS`, `DIS_AUTO_PS`, `EN_AUTO_PS`. -/
def getPs : ℕ := 0

def disAutoPs : ℕ := 0xfe

def enAutoPs : ℕ := 0xff

/-- `TLV_TYPE_AP_SLEEP_PARAM`. -/
def tlvApSleepParam : ℕ := 0x16a

/-- `TLV_TYPE_AP_INACT_SLEEP_PARAM`. -/
def tlvApInactSleepParam : ℕ := 0x16b

/-- `TLV_TYPE_AUTO_DS_PARAM`. -/
def tlvAutoDsParam : ℕ := 0x171

/-- `BITMAP_AUTO_DS`, `BITMAP_STA_PS`, `BITMAP_UAP_INACT_PS`, `BITMAP_UAP_DTIM_PS`, by their bits. -/
def bitAutoDs : ℕ := 0

def bitStaPs : ℕ := 4

def bitUapInactPs : ℕ := 8

def bitUapDtimPs : ℕ := 9

/-- `S_DS_GEN + AUTO_PS_FIX_SIZE` : where the TLVs are in the response. -/
def psTlvs : ℕ := 12

/-- The TLV behind the one at `p`. -/
def nextTlv (m : Mem) (p : ℕ) : ℕ :=
  p + m.get16 (p + 2) + 4

/-- The search for the TLV of auto deep sleep, with what it reads. -/
def autoDsWalk (m : Mem) : ℕ → ℕ → Option (ℕ × List Span)
  | 0, _ => none
  | fuel + 1, p =>
    if m.get16 p = tlvAutoDsParam then some (p, [⟨p, 2⟩])
    else (autoDsWalk m fuel (nextTlv m p)).map fun r => (r.1, ⟨p, 2⟩ :: ⟨p + 2, 2⟩ :: r.2)

/-- What a TLV of the second walk sets. -/
def setPsMgmt (m : Mem) (p : ℕ) (cfg : PmCfg) : PmCfg :=
  let param := (get32 m (p + 4), get32 m (p + 8), get32 m (p + 12))
  if m.get16 p = tlvApSleepParam then { cfg with flags := cfg.flags ||| 2, sleepParam := param }
  else if m.get16 p = tlvApInactSleepParam then { cfg with flags := cfg.flags ||| 4, inactParam := param }
  else cfg

/-- What is read of a TLV of the second walk. -/
def psMgmtReads (m : Mem) (p : ℕ) : List Span :=
  [⟨p, 2⟩, ⟨p + 2, 2⟩] ++ if m.get16 p = tlvApSleepParam ∨ m.get16 p = tlvApInactSleepParam then
    [⟨p + 4, 4⟩, ⟨p + 8, 4⟩, ⟨p + 12, 4⟩] else []

/-- The walk along the TLVs of an AP, with `tlv_buf_left` and what it reads. -/
def psMgmtWalk (m : Mem) : ℕ → ℕ → ℕ → PmCfg → Option (PmCfg × List Span)
  | 0, _, _, _ => none
  | fuel + 1, p, left, cfg =>
    if left < 4 then some (cfg, [])
    else
      (psMgmtWalk m fuel (nextTlv m p) ((left + 131072 - (m.get16 (p + 2) + 4)) % 65536) (setPsMgmt m p cfg)).map
        fun r => (r.1, psMgmtReads m p ++ r.2)

/-- `wlan_ret_enh_power_mode`, of a response at the address 0 : the adapter, the ioctl, and what the two walks read. `none` if
a walk is not through with `fuel` turns. -/
def retEnhPowerMode (m : Mem) (ioctl : Option PmSubCommand) (fuel : ℕ) (a : PsAdapter) (cfg : PmCfg) :
    Option (PsAdapter × PmCfg × List Span) :=
  let size := m.get16 2
  let action := m.get16 8
  let bitmap := m.get16 10
  if action = enAutoPs then
    let a' := if bitmap.testBit bitUapInactPs || bitmap.testBit bitUapDtimPs then { a with psMode := .psp } else a
    if bitmap.testBit bitAutoDs then
      (autoDsWalk m fuel psTlvs).map fun r =>
        ({ a' with isDeepSleep := true, idleTime := m.get16 (r.1 + 4) }, cfg, r.2 ++ [⟨r.1 + 4, 2⟩])
    else some (a', cfg, [])
  else if action = disAutoPs then
    let a := if bitmap.testBit bitAutoDs then { a with isDeepSleep := false } else a
    let a := if bitmap.testBit bitStaPs ∧ a.sleepPeriod ≠ 0 then
      { a with delayNullPkt := false, txLockFlag := false, ppsUapsdMode := false } else a
    let a := if bitmap.testBit bitUapInactPs || bitmap.testBit bitUapDtimPs then { a with psMode := .cam } else a
    some (a, cfg, [])
  else if action = getPs then
    let a := { a with psMode := if bitmap.testBit bitStaPs || bitmap.testBit bitUapInactPs || bitmap.testBit bitUapDtimPs
      then .psp else .cam }
    match ioctl with
    | some .ieeePs => some (a, { cfg with ieeePsMode := if bitmap.testBit bitStaPs then 1 else 0 }, [])
    | some .psMode =>
      let cfg := { cfg with
        flags := 1
        psMode := if bitmap.testBit bitUapInactPs then 2 else if bitmap.testBit bitUapDtimPs then 1 else 0 }
      (psMgmtWalk m fuel psTlvs ((size + 65536 - psTlvs) % 65536) cfg).map fun r => (a, r.1, r.2)
    | _ => some (a, cfg, [])
  else some (a, cfg, [])

/-! ## The TLVs -/

/-- Where the TLVs are, one behind the other. -/
def tlvOffset (m : Mem) : ℕ → ℕ
  | 0 => psTlvs
  | k + 1 => nextTlv m (tlvOffset m k)

/-- The reads lie inside of the response. -/
def InResponse (size : ℕ) (reads : List Span) : Prop :=
  ∀ r ∈ reads, r.start + r.len ≤ size

/-- The response has a TLV of auto deep sleep, with its timeout. -/
def HasAutoDs (m : Mem) (size : ℕ) : Prop :=
  ∃ k, m.get16 (tlvOffset m k) = tlvAutoDsParam ∧ tlvOffset m k + 6 ≤ size

/-- The TLVs of an AP that begin in the response end there, or else in the last three octets of it counted around 65536. -/
structure PsMgmtFits (m : Mem) (size : ℕ) : Prop where
  fixed : psTlvs ≤ size
  param : ∀ k, tlvOffset m k + 4 ≤ size →
    m.get16 (tlvOffset m k) = tlvApSleepParam ∨ m.get16 (tlvOffset m k) = tlvApInactSleepParam →
      tlvOffset m k + 16 ≤ size
  ends : ∀ k, tlvOffset m k + 4 ≤ size →
    tlvOffset m (k + 1) ≤ size ∨ size + 65533 ≤ tlvOffset m (k + 1)

variable {m : Mem} {size : ℕ}

theorem tlvOffset_succ (m : Mem) (k : ℕ) : tlvOffset m (k + 1) = tlvOffset m k + m.get16 (tlvOffset m k + 2) + 4 :=
  rfl

theorem tlvOffset_mono (m : Mem) {j k : ℕ} (h : j ≤ k) : tlvOffset m j ≤ tlvOffset m k := by
  induction h with
  | refl => exact le_rfl
  | step _ ih =>
    refine ih.trans ?_
    rw [tlvOffset_succ]
    omega

/-! ## Auto deep sleep -/

/-- A search that ends has found a TLV. -/
theorem autoDsWalk_sound : ∀ {fuel k : ℕ} {r : ℕ × List Span}, autoDsWalk m fuel (tlvOffset m k) = some r →
    ∃ j, r.1 = tlvOffset m j ∧ m.get16 r.1 = tlvAutoDsParam
  | fuel + 1, k, r, h => by
    rw [autoDsWalk] at h
    split at h
    · next htype =>
      obtain rfl := Option.some.inj h
      exact ⟨k, rfl, htype⟩
    · obtain ⟨r', hr', rfl⟩ := Option.map_eq_some_iff.mp h
      obtain ⟨j, hj, htype⟩ := autoDsWalk_sound (show autoDsWalk m fuel (tlvOffset m (k + 1)) = some r' from hr')
      exact ⟨j, hj, htype⟩

/-- The search ends at the first TLV it looks for, and reads nothing behind its header. -/
theorem autoDsWalk_ends : ∀ (n k : ℕ), m.get16 (tlvOffset m (k + n)) = tlvAutoDsParam →
    ∃ fuel r, autoDsWalk m fuel (tlvOffset m k) = some r ∧ r.1 ≤ tlvOffset m (k + n) ∧
      ∀ sp ∈ r.2, sp.start + sp.len ≤ tlvOffset m (k + n) + 2
  | 0, k, h => by
    rw [Nat.add_zero] at h ⊢
    refine ⟨1, (tlvOffset m k, [⟨tlvOffset m k, 2⟩]), ?_, le_rfl, by simp⟩
    rw [autoDsWalk, if_pos h]
  | n + 1, k, h => by
    have hmono := tlvOffset_mono m (show k + 1 ≤ k + (n + 1) by omega)
    rw [tlvOffset_succ] at hmono
    by_cases htype : m.get16 (tlvOffset m k) = tlvAutoDsParam
    · refine ⟨1, (tlvOffset m k, [⟨tlvOffset m k, 2⟩]), ?_, by dsimp only; omega, ?_⟩
      · rw [autoDsWalk, if_pos htype]
      · intro sp hsp
        obtain rfl := mem_singleton.mp hsp
        dsimp only
        omega
    · rw [show k + (n + 1) = k + 1 + n by omega] at h ⊢
      obtain ⟨fuel, r, hr, hle, hreads⟩ := autoDsWalk_ends n (k + 1) h
      refine ⟨fuel + 1, (r.1, ⟨tlvOffset m k, 2⟩ :: ⟨tlvOffset m k + 2, 2⟩ :: r.2), ?_, hle, ?_⟩
      · rw [autoDsWalk, if_neg htype, show nextTlv m (tlvOffset m k) = tlvOffset m (k + 1) from rfl, hr]
        rfl
      · rw [show k + (n + 1) = k + 1 + n by omega] at hmono
        intro sp hsp
        rcases mem_cons.mp hsp with rfl | hsp
        · dsimp only
          omega
        rcases mem_cons.mp hsp with rfl | hsp
        · dsimp only
          omega
        exact hreads sp hsp

theorem autoDsWalk_iff : (∃ fuel r, autoDsWalk m fuel psTlvs = some r ∧ InResponse size (r.2 ++ [⟨r.1 + 4, 2⟩])) ↔
    HasAutoDs m size := by
  constructor
  · rintro ⟨fuel, r, hr, hreads⟩
    obtain ⟨j, hj, htype⟩ := autoDsWalk_sound (show autoDsWalk m fuel (tlvOffset m 0) = some r from hr)
    have htimeout := hreads ⟨r.1 + 4, 2⟩ (by simp)
    rw [hj] at htype htimeout
    exact ⟨j, htype, htimeout⟩
  · rintro ⟨k, htype, hsize⟩
    rw [← Nat.zero_add k] at htype hsize
    obtain ⟨fuel, r, hr, hle, hreads⟩ := autoDsWalk_ends k 0 htype
    refine ⟨fuel, r, hr, fun sp hsp => ?_⟩
    rcases mem_append.mp hsp with hsp | hsp
    · have hsp' := hreads sp hsp
      omega
    · obtain rfl := mem_singleton.mp hsp
      dsimp only
      omega

/-! ## The sleep of an AP -/

theorem psMgmtWalk_reads {fuel p left : ℕ} {cfg : PmCfg} {r : PmCfg × List Span} (h : psMgmtWalk m fuel p left cfg = some r)
    (hleft : 4 ≤ left) : (⟨p, 2⟩ : Span) ∈ r.2 := by
  cases fuel with
  | zero => cases h
  | succ fuel =>
    rw [psMgmtWalk, if_neg (by omega)] at h
    obtain ⟨r', -, rfl⟩ := Option.map_eq_some_iff.mp h
    exact mem_append_left _ (by simp [psMgmtReads])

/-- What the walk does to the remainder. -/
theorem left_next {left len : ℕ} (hleft : 4 ≤ left) (hlt : left < 65536) (hlen : len < 65536) :
    (left + 131072 - (len + 4)) % 65536 = if len + 4 ≤ left then left - (len + 4) else left + 65536 - (len + 4) := by
  split
  · omega
  · omega

theorem get16_lt (m : Mem) (a : ℕ) : m.get16 a < 65536 :=
  Tlv.get16_lt _

/-- A walk that reads inside the response has met TLVs that fit. -/
theorem psMgmtWalk_sound : ∀ {fuel k left : ℕ} {cfg : PmCfg} {r : PmCfg × List Span},
    psMgmtWalk m fuel (tlvOffset m k) left cfg = some r → tlvOffset m k + left = size → left < 65536 →
    InResponse size r.2 → ∀ j, k ≤ j → tlvOffset m j + 4 ≤ size →
      (m.get16 (tlvOffset m j) = tlvApSleepParam ∨ m.get16 (tlvOffset m j) = tlvApInactSleepParam →
        tlvOffset m j + 16 ≤ size) ∧ (tlvOffset m (j + 1) ≤ size ∨ size + 65533 ≤ tlvOffset m (j + 1))
  | fuel + 1, k, left, cfg, r, h, hsize, hlt, hreads, j, hj, hbegin => by
    have hmono := tlvOffset_mono m hj
    have hlen := get16_lt m (tlvOffset m k + 2)
    rw [psMgmtWalk, if_neg (by omega)] at h
    obtain ⟨r', hr', rfl⟩ := Option.map_eq_some_iff.mp h
    rw [left_next (by omega) hlt hlen] at hr'
    have hnext := tlvOffset_succ m k
    have hparam : m.get16 (tlvOffset m k) = tlvApSleepParam ∨ m.get16 (tlvOffset m k) = tlvApInactSleepParam →
        tlvOffset m k + 16 ≤ size := fun htype => by
      have hread := hreads ⟨tlvOffset m k + 12, 4⟩ (mem_append_left _ (by
        unfold psMgmtReads
        rw [if_pos htype]
        simp))
      dsimp only at hread
      omega
    by_cases hfits : m.get16 (tlvOffset m k + 2) + 4 ≤ left
    · rw [if_pos hfits] at hr'
      rcases hj.eq_or_lt with rfl | hj
      · exact ⟨hparam, Or.inl (by omega)⟩
      · exact psMgmtWalk_sound (show psMgmtWalk m fuel (tlvOffset m (k + 1)) _ _ = some r' from hr') (by omega) (by omega)
          (fun sp hsp => hreads sp (mem_append_right _ hsp)) j hj hbegin
    · -- the remainder has gone round : the walk is over, or reads behind the end
      rw [if_neg hfits] at hr'
      have hover : left + 65536 - (m.get16 (tlvOffset m k + 2) + 4) < 4 := by
        by_contra hge
        have hread := hreads _ (mem_append_right _ (psMgmtWalk_reads hr' (not_lt.mp hge)))
        dsimp only [nextTlv] at hread
        omega
      rcases hj.eq_or_lt with rfl | hj
      · exact ⟨hparam, Or.inr (by omega)⟩
      · have hmono' := tlvOffset_mono m (Nat.succ_le_of_lt hj)
        rw [Nat.succ_eq_add_one] at hmono'
        omega

/-- Where the TLVs fit, the walk ends with reads inside the response. -/
theorem psMgmtWalk_ends (hfits : PsMgmtFits m size) : ∀ {fuel k left : ℕ} {cfg : PmCfg}, left < fuel →
    tlvOffset m k + left = size → left < 65536 → ∃ r, psMgmtWalk m fuel (tlvOffset m k) left cfg = some r ∧ InResponse size r.2
  | fuel + 1, k, left, cfg, hfuel, hsize, hlt => by
    have hlen := get16_lt m (tlvOffset m k + 2)
    have hnext := tlvOffset_succ m k
    rw [psMgmtWalk]
    by_cases hshort : left < 4
    · exact ⟨(cfg, []), if_pos hshort, by simp [InResponse]⟩
    rw [if_neg hshort, left_next (by omega) hlt hlen]
    have hreads : InResponse size (psMgmtReads m (tlvOffset m k)) := by
      intro sp hsp
      unfold psMgmtReads at hsp
      rcases mem_append.mp hsp with hsp | hsp
      · simp only [mem_cons, not_mem_nil, or_false] at hsp
        rcases hsp with rfl | rfl
        · dsimp only
          omega
        · dsimp only
          omega
      · split at hsp
        · next htype =>
          have hparam := hfits.param k (by omega) htype
          simp only [mem_cons, not_mem_nil, or_false] at hsp
          rcases hsp with rfl | rfl | rfl
          · dsimp only
            omega
          · dsimp only
            omega
          · dsimp only
            omega
        · cases hsp
    have hrest : ∃ r, psMgmtWalk m fuel (tlvOffset m (k + 1)) (if m.get16 (tlvOffset m k + 2) + 4 ≤ left then
        left - (m.get16 (tlvOffset m k + 2) + 4) else left + 65536 - (m.get16 (tlvOffset m k + 2) + 4))
        (setPsMgmt m (tlvOffset m k) cfg) = some r ∧ InResponse size r.2 := by
      by_cases hin : m.get16 (tlvOffset m k + 2) + 4 ≤ left
      · rw [if_pos hin]
        exact psMgmtWalk_ends hfits (by omega) (by omega) (by omega)
      · rw [if_neg hin]
        rcases hfits.ends k (by omega) with hend | hend
        · omega
        · obtain ⟨fuel, rfl⟩ := Nat.exists_eq_succ_of_ne_zero (show fuel ≠ 0 by omega)
          rw [psMgmtWalk, if_pos (by omega)]
          exact ⟨_, rfl, by simp [InResponse]⟩
    obtain ⟨r, hr, hrIn⟩ := hrest
    refine ⟨(r.1, psMgmtReads m (tlvOffset m k) ++ r.2), ?_, fun sp hsp => ?_⟩
    · rw [show nextTlv m (tlvOffset m k) = tlvOffset m (k + 1) from rfl, hr]
      rfl
    · rcases mem_append.mp hsp with hsp | hsp
      · exact hreads sp hsp
      · exact hrIn sp hsp

theorem psMgmtWalk_iff (hsize : size < 65536) (cfg : PmCfg) :
    (∃ fuel r, psMgmtWalk m fuel psTlvs ((size + 65536 - psTlvs) % 65536) cfg = some r ∧ InResponse size r.2) ↔
      PsMgmtFits m size := by
  have hmod : (size + 65536 - psTlvs) % 65536 = if psTlvs ≤ size then size - psTlvs else size + 65536 - psTlvs := by
    unfold psTlvs
    split
    · omega
    · omega
  rw [hmod]
  constructor
  · rintro ⟨fuel, r, hr, hreads⟩
    by_cases hfixed : psTlvs ≤ size
    · rw [if_pos hfixed] at hr
      have hsound := psMgmtWalk_sound (show psMgmtWalk m fuel (tlvOffset m 0) _ cfg = some r from hr)
        (show psTlvs + (size - psTlvs) = size by omega) (by omega) hreads
      exact ⟨hfixed, fun k hk => (hsound k (Nat.zero_le k) hk).1, fun k hk => (hsound k (Nat.zero_le k) hk).2⟩
    · rw [if_neg hfixed] at hr
      have hread := hreads _ (psMgmtWalk_reads hr (by unfold psTlvs; omega))
      dsimp only at hread
      omega
  · intro hfits
    have hfixed := hfits.fixed
    rw [if_pos hfixed]
    have hless : size - psTlvs < size := by
      unfold psTlvs at hfixed ⊢
      omega
    exact ⟨size, @psMgmtWalk_ends m size hfits size 0 _ cfg hless (show psTlvs + (size - psTlvs) = size by omega) (by omega)⟩

/-- **The walks of a power mode response.** They end and read inside the response if it has the TLV of auto deep sleep where
the first looks for it, and TLVs that fit where the second goes. -/
theorem retEnhPowerMode_bounded_iff (m : Mem) (ioctl : Option PmSubCommand) (a : PsAdapter) (cfg : PmCfg) :
    (∃ fuel r, retEnhPowerMode m ioctl fuel a cfg = some r ∧ InResponse (m.get16 2) r.2.2) ↔
      (m.get16 8 = enAutoPs → (m.get16 10).testBit bitAutoDs = true → HasAutoDs m (m.get16 2)) ∧
        (m.get16 8 = getPs → ioctl = some .psMode → PsMgmtFits m (m.get16 2)) := by
  have hnone : InResponse (m.get16 2) [] := by simp [InResponse]
  unfold retEnhPowerMode
  dsimp only
  by_cases hen : m.get16 8 = enAutoPs
  · have hget : m.get16 8 ≠ getPs := by
      rw [hen]
      decide
    simp only [hen, if_true]
    by_cases hds : (m.get16 10).testBit bitAutoDs = true
    · simp only [hds, if_true, Option.map_eq_some_iff]
      rw [← hen]
      simp only [hget, false_implies, and_true, true_implies]
      rw [← autoDsWalk_iff]
      constructor
      · rintro ⟨fuel, -, ⟨r, hr, rfl⟩, hreads⟩
        exact ⟨fuel, r, hr, hreads⟩
      · rintro ⟨fuel, r, hr, hreads⟩
        exact ⟨fuel, _, ⟨r, hr, rfl⟩, hreads⟩
    · simp only [hds]
      refine iff_of_true ⟨0, _, rfl, hnone⟩ ⟨by simp, fun h => absurd h (by decide)⟩
  · simp only [hen, if_false]
    by_cases hdis : m.get16 8 = disAutoPs
    · simp only [hdis, if_true]
      refine iff_of_true ⟨0, _, rfl, hnone⟩ ⟨by simp, fun h => absurd h (by decide)⟩
    · simp only [hdis, if_false]
      by_cases hget : m.get16 8 = getPs
      · simp only [hget, if_true, false_implies, true_and, true_implies]
        match ioctl with
        | some .psMode =>
          simp only [true_implies, Option.map_eq_some_iff]
          rw [← psMgmtWalk_iff (get16_lt m 2)]
          constructor
          · rintro ⟨fuel, -, ⟨r, hr, rfl⟩, hreads⟩
            exact ⟨fuel, r, hr, hreads⟩
          · rintro ⟨fuel, r, hr, hreads⟩
            exact ⟨fuel, _, ⟨r, hr, rfl⟩, hreads⟩
        | some .ieeePs => exact iff_of_true ⟨0, _, rfl, hnone⟩ (by simp)
        | some .other => exact iff_of_true ⟨0, _, rfl, hnone⟩ (by simp)
        | none => exact iff_of_true ⟨0, _, rfl, hnone⟩ (by simp)
      · simp only [hget, if_false]
        exact iff_of_true ⟨0, _, rfl, hnone⟩ ⟨by simp, by simp⟩

/-- A response of twelve octets that tells of auto deep sleep, without a TLV. -/
def autoDsResponse : Mem :=
  fun a => if a = 2 then 12 else if a = 8 then 0xff else if a = 10 then 1 else 0

/-- The search for the TLV runs on behind the end of the response. -/
theorem not_bounded_autoDsResponse : ¬∃ fuel r,
    retEnhPowerMode autoDsResponse none fuel ⟨false, 0, 0, .cam, false, false, false⟩ ⟨0, 0, 0, (0, 0, 0), (0, 0, 0)⟩ = some r ∧
      InResponse (autoDsResponse.get16 2) r.2.2 := by
  rintro ⟨fuel, r, hr, hreads⟩
  have hen : autoDsResponse.get16 8 = enAutoPs := by decide
  have hds : (autoDsResponse.get16 10).testBit bitAutoDs = true := by decide
  unfold retEnhPowerMode at hr
  simp only [hen, hds, if_true] at hr
  obtain ⟨r', hr', rfl⟩ := Option.map_eq_some_iff.mp hr
  obtain ⟨k, htype, -⟩ := autoDsWalk_iff.mp ⟨fuel, r', hr', hreads⟩
  have hfar : 12 ≤ tlvOffset autoDsResponse k := tlvOffset_mono autoDsResponse (Nat.zero_le k)
  have hzero : ∀ b, 12 ≤ b → autoDsResponse b = 0 := by
    intro b hb
    unfold autoDsResponse
    rw [if_neg (by omega), if_neg (by omega), if_neg (by omega)]
  have hget : autoDsResponse.get16 (tlvOffset autoDsResponse k) = 0 := by
    unfold Mem.get16 Tlv.get16 Mem.read
    simp [hzero _ hfar, hzero _ (hfar.trans (Nat.le_succ _))]
  rw [hget] at htype
  exact absurd htype (by decide)

end WlanDriver.Cmd
