import WlanDriver.Scan.ScanConfig

/-!
# The records of a scan command

A command is `Chained` if its octets are the records that are asked for, one behind the other, and fit the buffer. All commands
of a scan are chained exactly if the configuration can be written (`commands_chained_iff`). The first command shows what is
wrong with the records in front of the channels, by its first octets and by its length; where nothing is, the commands are
those of `ChannelCommands`.
-/

namespace WlanDriver.Scan

open Tlv TlvWriter
open List hiding chain_cons

/-! ## The commands that are asked for -/

/-- The offset of `tlv_buf` in the buffer that is allocated. -/
def tlvBufOffset : ℕ := 11

namespace SplitSetup

variable (p : SplitSetup) (a : ScanSettings) (cfg : Option UserScanCfg)

/-- The records of a command for the channels `g`, the last of which is `c`. -/
def requestedCommand (g : List ChanScanParamSet) (c : ChanScanParamSet) : List Tlv :=
  p.frontFor (requested a cfg) g ++ chanRecord g :: requestedCaps a c.chanBand

/-- The octets are the records that are asked for, and fit the buffer. -/
def Chained (g : List ChanScanParamSet) (cmd : ScanCmd) : Prop :=
  ∀ c ∈ g.getLast?, parse cmd.tlvBuf = some (p.requestedCommand a cfg g c) ∧
    tlvBufOffset + cmd.tlvBuf.length ≤ maxScanCfgAlloc

end SplitSetup

/-- The record is as long as its header says. -/
def HeCapOk (bs : List UInt8) : Prop :=
  bs = [] ∨ get16 (bs.drop 2) = bs.length - 4

/-- The rates can be cut without reaching what lies behind them. -/
def RatesCuttable (a : ScanSettings) (cfg : Option UserScanCfg) : Prop :=
  4 ≤ a.rates.length ∨ behindRates a cfg (wpsRecord a) = []

/-- The channels can be sent : channel 14 in Japan, where it cuts the rates, is the first and can cut them; and the HE
capabilities for the band of the last one are a record. -/
def SplitSetup.GroupOk (p : SplitSetup) (a : ScanSettings) (cfg : Option UserScanCfg) (g : List ChanScanParamSet) :
    Prop :=
  (∀ c ∈ g.tail, ¬p.CutsRates c) ∧ ((∃ c ∈ g, p.CutsRates c) → RatesCuttable a cfg) ∧
    ∀ c ∈ g.getLast?, HeCapOk (a.heCapFor c.chanBand)

/-! ## Capabilities -/

section Caps

variable {a : ScanSettings} {r : UInt8}

theorem length_heCapFor (a : ScanSettings) (r : UInt8) :
    a.heCapFor r = [] ∨ 4 ≤ (a.heCapFor r).length ∧ (a.heCapFor r).length ≤ 54 := by
  unfold ScanSettings.heCapFor
  split_ifs
  · exact a.heCap.length_octets
  · exact a.heCap2g.length_octets
  · exact .inl rfl

theorem length_chain_requestedCaps (a : ScanSettings) (r : UInt8) :
    (chain (requestedCaps a r)).length = (a.caps r).length := by
  unfold requestedCaps ScanSettings.caps
  rcases length_heCapFor a r with h | ⟨hle, hlt⟩
  · simp [h]
  · have hne : a.heCapFor r ≠ [] := by
      rintro h
      rw [h] at hle
      exact absurd hle (by decide)
    rw [if_neg hne, chain_append, chain_append, length_append, length_append, length_append,
      length_append, chain_cons, chain_nil, append_nil, Tlv.length_octets,
      length_value_make (by rw [length_drop]; omega), length_drop]
    omega

/-- The capabilities are the records that are asked for, if the HE record is as long as it says. -/
theorem caps_eq_iff (a : ScanSettings) (r : UInt8) :
    a.caps r = chain (requestedCaps a r) ↔ HeCapOk (a.heCapFor r) := by
  unfold requestedCaps ScanSettings.caps HeCapOk
  rw [chain_append, chain_append, append_cancel_left_eq, append_cancel_left_eq]
  rcases length_heCapFor a r with h | ⟨hle, hlt⟩
  · simp [h]
  · generalize a.heCapFor r = bs at *
    match bs, hle with
    | b0 :: b1 :: b2 :: b3 :: bs, _ =>
      rw [if_neg (cons_ne_nil _ _), chain_cons, chain_nil, append_nil]
      simp only [drop_succ_cons, drop_zero, length_cons] at hlt ⊢
      have htype := get16_lt (b0 :: b1 :: b2 :: b3 :: bs)
      have hlow := le16_get16 b2 b3 bs
      rw [octets_make _ (by omega), UInt16.toNat_ofNat', Nat.mod_eq_of_lt htype, le16_get16]
      simp only [cons_append, nil_append, List.cons.injEq, true_and, reduceCtorEq, false_or]
      constructor
      · intro h
        rw [h, get16_le16 (by omega)]
        omega
      · intro h
        rw [show bs.length = get16 (b2 :: b3 :: bs) by omega, hlow]
        rfl

end Caps

/-! ## The front -/

section Front

variable {p : SplitSetup} {a : ScanSettings} {cfg : Option UserScanCfg} {pre post front : List Tlv} {t : Tlv}
  {g : List ChanScanParamSet} {cmd : ScanCmd} {c : ChanScanParamSet}

theorem cutFront_append (hpre : ∀ u ∈ pre, u.type ≠ tlvTypeRates) (ts : List Tlv) :
    cutFront (pre ++ ts) = pre ++ cutFront ts ∧ (CutKeepsRest (pre ++ ts) ↔ CutKeepsRest ts) := by
  induction pre with
  | nil => exact ⟨rfl, Iff.rfl⟩
  | cons u pre ih =>
    have hu := hpre u mem_cons_self
    obtain ⟨hcut, hkeeps⟩ := ih fun v hv => hpre v (mem_cons_of_mem u hv)
    rw [cons_append, cutFront, if_neg hu, CutKeepsRest, if_neg hu, hcut]
    exact ⟨rfl, hkeeps⟩

/-- Cut or not, the records are as long as they should be. -/
theorem length_cutOctets (front : List Tlv) : (cutOctets front).length = (chain (cutFront front)).length := by
  induction front with
  | nil => rfl
  | cons u ts ih =>
    rw [cutOctets, cutFront]
    split
    · have hB : supportedRatesB.length = 4 := rfl
      simp only [chain_cons, Tlv.length_octets, length_append, length_le16, length_take, length_drop, hB]
      omega
    · rw [chain_cons, length_append, length_append, ih]

theorem length_frontOctets (front : List Tlv) (g : List ChanScanParamSet) :
    (frontOctets p front g).length = (chain (p.frontFor front g)).length := by
  unfold frontOctets SplitSetup.frontFor
  by_cases hcut : ∃ c ∈ g, p.CutsRates c
  · by_cases hrates : HasRates front
    · rw [if_pos ⟨hcut, hrates⟩, if_pos hcut, length_cutOctets]
    · rw [if_neg fun h => hrates h.2, if_pos hcut, (cutFront_of_not_hasRates hrates).1]
  · rw [if_neg fun h => hcut h.1, if_neg hcut]

theorem type_ratesRecord (a : ScanSettings) : (ratesRecord a).type = tlvTypeRates :=
  rfl

/-- The record of the rates in front of the channels `g`. -/
def SplitSetup.ratesFor (p : SplitSetup) (a : ScanSettings) (g : List ChanScanParamSet) : Tlv :=
  if ∃ c ∈ g, p.CutsRates c then ⟨tlvTypeRates, supportedRatesB, supportedRatesB_lt⟩ else ratesRecord a

theorem frontFor_append (hpre : ∀ u ∈ pre, u.type ≠ tlvTypeRates) (post : List Tlv) :
    p.frontFor (pre ++ ratesRecord a :: post) g = pre ++ p.ratesFor a g :: post := by
  unfold SplitSetup.frontFor SplitSetup.ratesFor
  split
  · rw [(cutFront_append hpre _).1, cutFront, if_pos (type_ratesRecord a)]
  · rfl

theorem type_recordIf {b : Prop} [Decidable b] {type : UInt16} {value : List UInt8} {u : Tlv}
    (h : u ∈ recordIf b type value) : u.type = type := by
  unfold recordIf at h
  split at h
  · rw [mem_singleton.mp h]
    rfl
  · cases h

theorem type_bssidRecord {cfg : UserScanCfg} {num : ℕ} {u : Tlv} (h : u ∈ bssidRecord a cfg num) :
    u.type = tlvTypeBssid := by
  unfold bssidRecord at h
  split at h
  · split at h
    · rw [mem_singleton.mp h]
      rfl
    · exact type_recordIf h
  · cases h

theorem type_beforeRates {u : Tlv} (h : u ∈ beforeRates a cfg) : u.type ≠ tlvTypeRates := by
  unfold beforeRates at h
  rcases mem_append.mp h with h | h
  · rw [type_recordIf h]
    decide
  · rcases mem_append.mp h with h | h
    · rw [type_recordIf h]
      decide
    · rw [type_recordIf h]
      decide

/-- The filters of a configuration are none of rates, whatever its BSSIDs and SSIDs are written as. -/
theorem type_filters {α : Type*} {cfg : UserScanCfg} {n : ℕ} {l : List α} {f : α → List UInt8} {u : Tlv}
    (h : u ∈ bssidRecord a cfg n ++ l.map fun e => make tlvTypeWildcardssid (f e)) : u.type ≠ tlvTypeRates := by
  rcases mem_append.mp h with h | h
  · rw [type_bssidRecord h]
    decide
  · obtain ⟨e, -, rfl⟩ := mem_map.mp h
    exact (by decide : tlvTypeWildcardssid ≠ tlvTypeRates)

/-- No record of rates lies in front of the rates. -/
theorem type_writtenFilters : ∀ u ∈ writtenFilters a cfg ++ beforeRates a cfg, u.type ≠ tlvTypeRates := by
  intro u hu
  rcases mem_append.mp hu with hu | hu
  · cases cfg with
    | none => cases hu
    | some cfg => exact type_filters hu
  · exact type_beforeRates hu

theorem type_requestedFilters : ∀ u ∈ requestedFilters a cfg ++ beforeRates a cfg, u.type ≠ tlvTypeRates := by
  intro u hu
  rcases mem_append.mp hu with hu | hu
  · cases cfg with
    | none => cases hu
    | some cfg => exact type_filters hu
  · exact type_beforeRates hu

theorem frontFor_written (p : SplitSetup) (a : ScanSettings) (cfg : Option UserScanCfg) (g : List ChanScanParamSet) :
    p.frontFor (written a cfg) g =
      (writtenFilters a cfg ++ beforeRates a cfg) ++ p.ratesFor a g :: behindRates a cfg (writtenWps a) := by
  rw [written, ← append_assoc, frontFor_append type_writtenFilters]

theorem frontFor_requested (p : SplitSetup) (a : ScanSettings) (cfg : Option UserScanCfg) (g : List ChanScanParamSet) :
    p.frontFor (requested a cfg) g =
      (requestedFilters a cfg ++ beforeRates a cfg) ++ p.ratesFor a g :: behindRates a cfg (wpsRecord a) := by
  rw [requested, ← append_assoc, frontFor_append type_requestedFilters]

theorem hasRates_requested (a : ScanSettings) (cfg : Option UserScanCfg) : HasRates (requested a cfg) :=
  ⟨ratesRecord a, by simp [requested], rfl⟩

/-- The types of the records behind the rates do not begin as the rates of 11b do. -/
theorem type_behindRates {u : Tlv} (h : u ∈ behindRates a cfg (wpsRecord a)) :
    UInt8.ofNat u.type.toNat ≠ 0x02 := by
  have hext : ∀ u ∈ extCapRecord a, u.type = extCapability := by
    unfold extCapRecord
    cases a.extCap with
    | none => simp
    | some cap => exact fun u hu => by rw [mem_singleton.mp hu]; rfl
  have huser : ∀ u ∈ userRecords cfg, u.type = tlvTypeOnlyproberesp ∨ u.type = tlvTypeRandomMac := by
    cases cfg with
    | none => simp [userRecords]
    | some cfg => exact fun u hu => (mem_append.mp hu).imp type_recordIf type_recordIf
  unfold behindRates wpsRecord at h
  rcases mem_append.mp h with h | h
  · rw [hext u h]
    decide
  rcases mem_append.mp h with h | h
  · rw [type_recordIf h]
    decide
  rcases mem_append.mp h with h | h
  · rw [type_recordIf h]
    decide
  rcases huser u h with h | h
  · rw [h]
    decide
  · rw [h]
    decide

theorem cutKeepsRest_requested_iff (a : ScanSettings) (cfg : Option UserScanCfg) :
    CutKeepsRest (requested a cfg) ↔ RatesCuttable a cfg := by
  have hvalue : (ratesRecord a).value = a.rates := value_make _ ((length_rates a).1.trans_lt (by decide))
  rw [requested, ← append_assoc, (cutFront_append type_requestedFilters _).2, CutKeepsRest,
    if_pos (type_ratesRecord a), hvalue, RatesCuttable]
  by_cases hfour : 4 ≤ a.rates.length
  · rw [Nat.sub_eq_zero_of_le hfour, take_zero, drop_eq_nil_of_le hfour, take_nil]
    exact iff_of_true rfl (.inl hfour)
  · rw [(length_rates a).2 (by omega), length_nil, Nat.sub_zero, drop_zero]
    have htypes : ∀ u ∈ behindRates a cfg (wpsRecord a), UInt8.ofNat u.type.toNat ≠ 0x02 := fun u => type_behindRates
    generalize behindRates a cfg (wpsRecord a) = post at *
    cases post with
    | nil => simp
    | cons u post =>
      refine iff_of_false (fun h => htypes u mem_cons_self ?_) (by simp)
      have hhead := congrArg (fun bs => bs.getD 0 0) h
      have hlen : (chain (u :: post)).length = (chain post).length + u.value.length + 3 + 1 := by
        rw [chain_cons, length_append, Tlv.length_octets]
        omega
      rw [hlen] at hhead
      exact hhead

end Front

/-! ## Lengths -/

section Lengths

variable {p : SplitSetup} {a : ScanSettings} {cfg : Option UserScanCfg} {g : List ChanScanParamSet}

theorem length_chain_recordIf {b : Prop} [Decidable b] {type : UInt16} {value : List UInt8} (n : ℕ)
    (h : value.length ≤ n) (hn : n < 65536) : (chain (recordIf b type value)).length ≤ 4 + n := by
  unfold recordIf
  split
  · rw [chain_cons, chain_nil, append_nil, Tlv.length_octets, length_value_make (by omega)]
    omega
  · exact Nat.zero_le _

theorem length_chain_writtenWps (a : ScanSettings) : (chain (writtenWps a)).length =
    (chain (wpsRecord a)).length + if a.wpsIe = [] then 0 else 4 := by
  unfold writtenWps wpsRecord recordIf
  by_cases h : a.wpsIe = []
  · simp [h]
  · rw [if_pos (by simpa using h), if_pos (by simpa using h), if_neg h]
    simp only [chain_cons, chain_nil, append_nil, length_append]
    rfl

theorem length_chain_requestedFilters (a : ScanSettings) (cfg : Option UserScanCfg) :
    (chain (requestedFilters a cfg)).length ≤ 404 := by
  cases cfg with
  | none => exact Nat.zero_le _
  | some cfg =>
    have hbssid : (chain (bssidRecord a cfg (min cfg.bssidNum.toNat 5))).length ≤ 34 := by
      unfold bssidRecord
      split
      · split
        · rw [chain_cons, chain_nil, append_nil, Tlv.length_octets, length_value_make (by rw [Mem.length_read]; omega),
            Mem.length_read]
          omega
        · exact (length_chain_recordIf 6 (by simp) (by decide)).trans (by decide)
      · exact Nat.zero_le _
    have hssid : ∀ es : List (UserScanSsid × List UInt8),
        (chain (es.map fun e => make tlvTypeWildcardssid (e.1.maxLen :: e.1.name))).length ≤ 37 * es.length := by
      intro es
      induction es with
      | nil => exact Nat.zero_le _
      | cons e es ih =>
        have hname := length_name e.1
        rw [map_cons, chain_cons, length_append, Tlv.length_octets,
          length_value_make (by rw [length_cons]; omega), length_cons, length_cons]
        omega
    have hused := congrArg List.length (usedSsids_eq cfg.behindSsids cfg.ssidList.toList)
    have hten := (takeWhile_sublist (l := cfg.ssidList.toList) fun e : UserScanSsid => decide e.Used).length_le
    have hall := hssid (UserScanCfg.usedSsids cfg.behindSsids cfg.ssidList.toList)
    rw [length_map] at hused
    rw [Vector.length_toList] at hten
    rw [requestedFilters, chain_append, length_append]
    omega

/-- The records in front of the channels are far shorter than the buffer, if there is no WPS element. -/
theorem length_chain_requested (hwps : a.wpsIe = []) : (chain (requested a cfg)).length ≤ 500 := by
  have hfilters := length_chain_requestedFilters a cfg
  have hrates : (chain [ratesRecord a]).length ≤ 16 := by
    have hlen := (length_rates a).1
    rw [ratesRecord, chain_cons, chain_nil, append_nil, Tlv.length_octets, length_value_make (by omega)]
    omega
  have hbefore : (chain (beforeRates a cfg)).length ≤ 6 + (5 + 6) := by
    rw [beforeRates, chain_append, chain_append, length_append, length_append]
    exact Nat.add_le_add (length_chain_recordIf 2 le_rfl (by decide))
      (Nat.add_le_add (length_chain_recordIf 1 le_rfl (by decide)) (length_chain_recordIf 2 le_rfl (by decide)))
  have hext : (chain (extCapRecord a)).length ≤ 15 := by
    unfold extCapRecord
    cases a.extCap with
    | none => exact Nat.zero_le _
    | some cap => simp [length_value_make]
  have hclass : (chain (recordIf (a.ecsaEnable = true) regulatoryClass (a.operClass :: a.operClasses))).length ≤ 28 :=
    length_chain_recordIf 24 (Nat.succ_le_succ (length_operClasses a)) (by decide)
  have huser : (chain (userRecords cfg)).length ≤ 15 := by
    cases cfg with
    | none => exact Nat.zero_le _
    | some cfg =>
      rw [userRecords, chain_append, length_append]
      exact Nat.add_le_add (length_chain_recordIf 1 le_rfl (by decide)) (length_chain_recordIf 6 (by simp) (by decide))
  have hnone : chain (wpsRecord a) = [] := by
    simp [wpsRecord, recordIf, hwps]
  have hsplit : chain (requested a cfg) = chain (requestedFilters a cfg) ++ (chain (beforeRates a cfg) ++
      (chain [ratesRecord a] ++ (chain (extCapRecord a) ++
        (chain (recordIf (a.ecsaEnable = true) regulatoryClass (a.operClass :: a.operClasses)) ++
          (chain (wpsRecord a) ++ chain (userRecords cfg)))))) := by
    simp only [requested, behindRates, chain_append, chain_cons, chain_nil, append_nil]
  rw [hsplit, hnone]
  simp only [length_append, length_nil]
  omega

theorem length_caps (a : ScanSettings) (r : UInt8) : (a.caps r).length ≤ 100 := by
  have hht : (chain a.htRecord).length ≤ 30 := by
    unfold ScanSettings.htRecord
    split
    · simp [length_value_make]
    · exact Nat.zero_le _
  have hvht : (chain a.vhtRecord).length ≤ 16 := by
    unfold ScanSettings.vhtRecord
    split
    · simp [length_value_make]
    · exact Nat.zero_le _
  have hhe : (a.heCapFor r).length ≤ 54 := by
    rcases length_heCapFor a r with h | h
    · rw [h]
      exact Nat.zero_le _
    · exact h.2
  rw [ScanSettings.caps, length_append, length_append]
  omega

theorem length_chain_chanRecord (hlen : g.length < 256) : (chanRecord g).octets.length = 4 + 7 * g.length := by
  rw [Tlv.length_octets, chanRecord, length_value_make (by rw [ChanScanParamSet.length_flatMap_octets]; omega),
    ChanScanParamSet.length_flatMap_octets]

theorem length_ratesFor (p : SplitSetup) (a : ScanSettings) (g : List ChanScanParamSet) :
    (p.ratesFor a g).octets.length ≤ (ratesRecord a).octets.length + 4 := by
  unfold SplitSetup.ratesFor
  split
  · rw [Tlv.length_octets, Tlv.length_octets]
    exact (by decide : 4 + supportedRatesB.length ≤ 4 + 4).trans (by omega)
  · exact Nat.le_add_right _ _

end Lengths

/-! ## One command -/

section Command

variable {p : SplitSetup} {a : ScanSettings} {cfg : Option UserScanCfg} {g : List ChanScanParamSet} {cmd : ScanCmd}
  {c : ChanScanParamSet}

/-- The octets of a command begin with the records in front of the rates. -/
theorem Sent.begins (hg : g ≠ []) (h : Sent p (written a cfg) g cmd) :
    ∃ bs, cmd.tlvBuf = chain (writtenFilters a cfg ++ beforeRates a cfg) ++ bs := by
  have hcut : ∃ bs, cutOctets (written a cfg) = chain (writtenFilters a cfg ++ beforeRates a cfg) ++ bs := by
    rw [written, ← append_assoc, cutOctets_append type_writtenFilters]
    exact ⟨_, rfl⟩
  have hfront : ∃ bs, frontOctets p (written a cfg) g = chain (writtenFilters a cfg ++ beforeRates a cfg) ++ bs := by
    unfold frontOctets
    split
    · exact hcut
    · rw [written, ← append_assoc, chain_append]
      exact ⟨_, rfl⟩
  rcases h with h | h
  · obtain ⟨bs, hbs⟩ := hfront
    rw [h.tlvBuf _ (getLast?_eq_some_getLast hg), hbs, append_assoc]
    exact ⟨_, rfl⟩
  · obtain ⟨bs, hbs⟩ := hcut
    obtain ⟨cs, hcs⟩ := h.begins
    rw [← hcs, hbs, append_assoc]
    exact ⟨_, rfl⟩

/-- The length of a command : of all records that are written, but with one channel only if others are missing. -/
theorem Sent.length (hlen : g.length < 256) (hc : c ∈ g.getLast?) (hcaps : p.caps = a.caps)
    (h : Sent p (written a cfg) g cmd) : ∃ n, (n = g.length ∨ n = 1 ∧ 1 < g.length) ∧
      cmd.tlvBuf.length = (chain (p.frontFor (written a cfg) g)).length + (4 + 7 * n + (a.caps c.chanBand).length) ∧
      (Broken p (written a cfg) g → n = 1 ∧ 1 < g.length) := by
  rcases h with h | h
  · refine ⟨g.length, .inl rfl, ?_, fun hbroken => absurd hbroken h.not_broken⟩
    rw [h.tlvBuf c hc, length_append, length_append, length_frontOctets, length_chain_chanRecord hlen, hcaps]
  · obtain ⟨pre, z, rfl, hpre, hcut, -⟩ := h.broken
    have hpos := length_pos_of_ne_nil hpre
    have hmany : 1 < (pre ++ [z]).length := by
      rw [length_append, length_singleton]
      omega
    refine ⟨1, .inr ⟨rfl, hmany⟩, ?_, fun _ => ⟨rfl, hmany⟩⟩
    have hfor : p.frontFor (written a cfg) (pre ++ [z]) = cutFront (written a cfg) :=
      if_pos ⟨z, by simp, hcut⟩
    rw [h.length c hc, length_cutOctets, hfor, hcaps]

theorem length_requestedCommand (hlen : g.length < 256) : (chain (p.requestedCommand a cfg g c)).length =
    (chain (p.frontFor (requested a cfg) g)).length + (4 + 7 * g.length + (a.caps c.chanBand).length) := by
  rw [SplitSetup.requestedCommand, chain_append, chain_cons, length_append, length_append,
    length_chain_chanRecord hlen, length_chain_requestedCaps]

/-- A command that is as it should be shows that the records in front of the channels are. -/
theorem fit_of_chained (hg : g ≠ []) (hlen : g.length < 256) (hcaps : p.caps = a.caps)
    (h : Sent p (written a cfg) g cmd) (hchained : p.Chained a cfg g cmd) : FiltersFit a cfg ∧ a.wpsIe = [] := by
  have hc := getLast?_eq_some_getLast hg
  have hbuf := parse_eq_some_iff.mp (hchained _ hc).1
  obtain ⟨bs, hbegins⟩ := h.begins hg
  obtain ⟨n, hn, hlength, -⟩ := h.length hlen hc hcaps
  have hrecords : (writtenFilters a cfg ++ beforeRates a cfg).length =
      (requestedFilters a cfg ++ beforeRates a cfg).length := by
    rw [length_append, length_append, length_writtenFilters]
  have hpre : writtenFilters a cfg ++ beforeRates a cfg = requestedFilters a cfg ++ beforeRates a cfg := by
    have hboth := hbegins.symm.trans hbuf
    rw [SplitSetup.requestedCommand, frontFor_requested, append_assoc, chain_append (requestedFilters a cfg ++ _)] at hboth
    exact (chain_append_inj hrecords hboth).1
  refine ⟨(writtenFilters_eq_iff a cfg).mp (append_cancel_right hpre), ?_⟩
  -- the four octets behind the WPS element cannot be made up for by channels that are missing
  have hwps := length_chain_writtenWps a
  have hboth := hlength.symm.trans ((congrArg List.length hbuf).trans (length_requestedCommand hlen))
  rw [frontFor_written, frontFor_requested, hpre] at hboth
  simp only [behindRates, chain_append, chain_cons, length_append] at hboth
  by_contra hne
  rw [if_neg hne] at hwps
  omega

/-- Where the records in front of the channels are as they should be, a command is so exactly if its channels can be sent. -/
theorem chained_iff (hg : g ≠ []) (hlen : g.length ≤ 38) (hcaps : p.caps = a.caps) (hwps : a.wpsIe = [])
    (hwritten : written a cfg = requested a cfg) (hlast : ∀ c ∈ g.dropLast, ¬p.CutsRates c)
    (h : Sent p (written a cfg) g cmd) : p.Chained a cfg g cmd ↔ p.GroupOk a cfg g := by
  have hc := getLast?_eq_some_getLast hg
  have honly : ∀ {P : ChanScanParamSet → Prop}, (∀ c ∈ g.getLast?, P c) ↔ P (g.getLast hg) := by
    intro P
    rw [hc]
    exact ⟨fun h => h _ rfl, fun h c heq => Option.some.inj heq ▸ h⟩
  have hbroken : Broken p (requested a cfg) g ↔ ∃ c ∈ g.tail, p.CutsRates c := by
    rw [broken_iff hlast]
    simp only [hasRates_requested, and_true]
  have hlong : (chain (p.requestedCommand a cfg g (g.getLast hg))).length = _ := length_requestedCommand (by omega)
  rw [SplitSetup.Chained, SplitSetup.GroupOk, honly, honly, parse_eq_some_iff]
  rcases h with h | h
  · have hnot := hwritten ▸ h.not_broken
    have hbuf := h.tlvBuf _ hc
    rw [hwritten, hcaps] at hbuf
    have hequal : cmd.tlvBuf = chain (p.requestedCommand a cfg g (g.getLast hg)) ↔
        ((∃ c ∈ g, p.CutsRates c) → RatesCuttable a cfg) ∧ HeCapOk (a.heCapFor (g.getLast hg).chanBand) := by
      rw [hbuf, SplitSetup.requestedCommand, chain_append, chain_cons, ← cutKeepsRest_requested_iff, ← frontOctets_eq_iff,
        ← caps_eq_iff]
      constructor
      · intro heq
        obtain ⟨hfront, hrest⟩ := append_inj heq (length_frontOctets _ g)
        exact ⟨hfront, append_cancel_left hrest⟩
      · rintro ⟨hfront, hrest⟩
        rw [hfront, hrest]
    have hshort : tlvBufOffset + cmd.tlvBuf.length ≤ maxScanCfgAlloc := by
      have hfront : (chain (requested a cfg)).length ≤ 500 := length_chain_requested hwps
      have hcap := length_caps a (g.getLast hg).chanBand
      have hrates := length_ratesFor p a g
      have hcut : (frontOctets p (requested a cfg) g).length ≤ (chain (requested a cfg)).length + 4 := by
        rw [length_frontOctets, frontFor_requested, requested]
        simp only [chain_append, chain_cons, length_append]
        omega
      rw [hbuf, length_append, length_append, length_chain_chanRecord (by omega)]
      unfold tlvBufOffset maxScanCfgAlloc
      omega
    rw [hequal, and_iff_left hshort]
    rw [hbroken] at hnot
    exact (and_iff_right fun c hc hcut => hnot ⟨c, hc, hcut⟩).symm
  · refine iff_of_false (fun hchained => ?_) fun hok => ?_
    · have hsent : Sent p (written a cfg) g cmd := .inr h
      obtain ⟨n, -, hlength, hone⟩ := hsent.length (by omega) hc hcaps
      obtain ⟨rfl, hmany⟩ := hone h.broken
      rw [hchained.1, hlong, hwritten] at hlength
      omega
    · obtain ⟨c, hc, hcut⟩ := hbroken.mp (hwritten ▸ h.broken)
      exact hok.1 c hc hcut

end Command

/-! ## All commands of a scan -/

/-- The commands of `wlan_scan_networks`. -/
def scanNetworks (a : ScanSettings) (cfg : Option UserScanCfg) (blocked : Band → UInt8 → Bool)
    (alloc prepare : ℕ → Bool) (l : List ChanScanParamSet) : List ScanCmd × Bool :=
  let w := setupScanConfig a cfg
  scanChannelList ((a.splitSetup cfg blocked).outcomes alloc prepare) w.mem w.pos l

section Scans

variable {α β : Type*} {R : α → β → Prop} {xs : List α} {ys : List β} {i : ℕ}

theorem exists_left_of_forall₂ (h : List.Forall₂ R xs ys) {y : β} (hy : ys[i]? = some y) :
    ∃ x, xs[i]? = some x ∧ R x y := by
  induction h generalizing i with
  | nil => simp at hy
  | cons hxy _ ih =>
    cases i with
    | zero => exact ⟨_, rfl, Option.some.inj hy ▸ hxy⟩
    | succ i => exact ih hy

theorem exists_right_of_forall₂ (h : List.Forall₂ R xs ys) {x : α} (hx : xs[i]? = some x) :
    ∃ y, ys[i]? = some y ∧ R x y :=
  exists_left_of_forall₂ h.flip hx

/-- Whatever fails, all commands that are made are the records that are asked for, one behind the other, and fit the buffer,
exactly if the configuration can be written and the channels of every command can be sent. -/
theorem commands_chained_iff (a : ScanSettings) (cfg : Option UserScanCfg) (blocked : Band → UInt8 → Bool)
    (l : List ChanScanParamSet) :
    (∀ (alloc prepare : ℕ → Bool) (i : ℕ) (cmd : ScanCmd),
      (scanNetworks a cfg blocked alloc prepare l).1[i]? = some cmd →
        ∃ g, ((a.splitSetup cfg blocked).sent l)[i]? = some g ∧ (a.splitSetup cfg blocked).Chained a cfg g cmd) ↔
    ((a.splitSetup cfg blocked).sent l ≠ [] → FiltersFit a cfg ∧ a.wpsIe = []) ∧
      ∀ g ∈ (a.splitSetup cfg blocked).sent l, (a.splitSetup cfg blocked).GroupOk a cfg g := by
  have hwrote := wrote_setupScanConfig a cfg
  have hmax : 0 < (a.splitSetup cfg blocked).maxChanPerScan ∧ (a.splitSetup cfg blocked).maxChanPerScan ≤ 38 := by
    show 0 < maxChanPerScanFor a cfg ∧ maxChanPerScanFor a cfg ≤ 38
    unfold maxChanPerScanFor
    split <;> decide
  have hmax' := And.intro hmax.1 (hmax.2.trans_lt (by decide : 38 < 256))
  have hrun : ∀ alloc prepare, (scanNetworks a cfg blocked alloc prepare l).1 <+:
      (scanChannelList (a.splitSetup cfg blocked) (setupScanConfig a cfg).mem (chain (written a cfg)).length l).1 := by
    intro alloc prepare
    rw [← hwrote.pos]
    exact (scanChannelList_succeeding _ _ _ l).1
  have hself : (scanNetworks a cfg blocked (fun _ => true) (fun _ => true) l).1 =
      (scanChannelList (a.splitSetup cfg blocked) (setupScanConfig a cfg).mem (chain (written a cfg)).length l).1 := by
    rw [← hwrote.pos]
    rfl
  have hshape : ∀ g ∈ (a.splitSetup cfg blocked).sent l, g ≠ [] ∧ g.length ≤ 38 ∧
      ∀ c ∈ g.dropLast, ¬(a.splitSetup cfg blocked).CutsRates c := by
    intro g hg
    have htime := mem_takeWhile_imp hg
    have hmem := (takeWhile_sublist _).subset hg
    refine ⟨(of_decide_eq_true htime).ne_nil, ?_, not_cutsRates_markGroups
      (SplitSetup.not_cutsRates_dropLast false [] l (by simp) (by simp)) g hmem⟩
    have hlen := mem_map_of_mem (f := List.length) hmem
    rw [length_markGroups] at hlen
    obtain ⟨g', hg', heq⟩ := mem_map.mp hlen
    exact heq ▸ (SplitSetup.length_groups_le hmax.1 false [] l (Nat.zero_le _) g' hg').trans hmax.2
  have hfirst := first_command (l := l) hmax' (fun _ => rfl) (fun _ => rfl) hwrote.read
  -- where the records in front of the channels are as they should be, the commands are looked at one by one
  have hall : FiltersFit a cfg ∧ a.wpsIe = [] → List.Forall₂
      (fun g cmd => (a.splitSetup cfg blocked).Chained a cfg g cmd ↔ (a.splitSetup cfg blocked).GroupOk a cfg g)
      ((a.splitSetup cfg blocked).sent l)
      (scanChannelList (a.splitSetup cfg blocked) (setupScanConfig a cfg).mem (chain (written a cfg)).length l).1 := by
    rintro ⟨hfilters, hwps⟩
    have hwritten : written a cfg = requested a cfg := by
      have hnone : writtenWps a = wpsRecord a := by
        simp [writtenWps, wpsRecord, recordIf, hwps]
      rw [written, requested, (writtenFilters_eq_iff a cfg).mpr hfilters, hnone]
    have hfits : (chain (written a cfg)).length ≤ maxScanCfgAlloc - chanTlvMaxSize :=
      hwritten ▸ (length_chain_requested hwps).trans (by decide)
    have hsends := (sends_scanChannelList (l := l) hmax' (fun _ => rfl) (fun _ => rfl) hwrote.read hfits).all.2
    refine (forall₂_iff_zip.mpr ⟨hsends.length_eq, fun {g cmd} hmem => ?_⟩)
    have hsent := (forall₂_iff_zip.mp hsends).2 hmem
    obtain ⟨hg, hlen, hlast⟩ := hshape g (of_mem_zip hmem).1
    exact chained_iff hg hlen rfl hwps hwritten hlast hsent
  constructor
  · intro h
    have hfit : (a.splitSetup cfg blocked).sent l ≠ [] → FiltersFit a cfg ∧ a.wpsIe = [] := by
      intro hne
      obtain ⟨g, gs, cmd, cmds, hsent, hcmds, hcmd⟩ := hfirst.resolve_left fun h => hne h.1
      obtain ⟨g', hg', hchained⟩ := h (fun _ => true) (fun _ => true) 0 cmd (by rw [hself, hcmds]; rfl)
      rw [hsent] at hg'
      obtain rfl := Option.some.inj hg'
      obtain ⟨hg, hlen, -⟩ := hshape g (hsent ▸ mem_cons_self)
      exact fit_of_chained hg (by omega) rfl hcmd hchained
    refine ⟨hfit, fun g hg => ?_⟩
    obtain ⟨i, hi⟩ := mem_iff_getElem?.mp hg
    obtain ⟨cmd, hcmd, hiff⟩ := exists_right_of_forall₂ (hall (hfit (ne_nil_of_mem hg))) hi
    obtain ⟨g', hg', hchained⟩ := h (fun _ => true) (fun _ => true) i cmd (by rw [hself, hcmd])
    obtain rfl := Option.some.inj (hi.symm.trans hg')
    exact hiff.mp hchained
  · rintro ⟨hfit, hok⟩ alloc prepare i cmd hcmd
    obtain ⟨rest, hrest⟩ := hrun alloc prepare
    have hcmd' : (scanChannelList (a.splitSetup cfg blocked) (setupScanConfig a cfg).mem
        (chain (written a cfg)).length l).1[i]? = some cmd := by
      rw [← hrest, getElem?_append_left (List.getElem?_eq_some_iff.mp hcmd).1]
      exact hcmd
    have hne : (a.splitSetup cfg blocked).sent l ≠ [] := by
      intro hnil
      rcases hfirst with ⟨-, hnone⟩ | ⟨g, gs, _, _, hsent, -⟩
      · rw [hnone] at hcmd'
        cases hcmd'
      · exact absurd hnil (by rw [hsent]; exact cons_ne_nil g gs)
    obtain ⟨g, hg, hiff⟩ := exists_left_of_forall₂ (hall (hfit hne)) hcmd'
    exact ⟨g, hg, hiff.mpr (hok g (mem_of_getElem? hg))⟩

/-- Settings with a WPS element and nothing else that is asked for. -/
def wpsSettings : ScanSettings where
  scanMode := 3
  scanProbes := 0
  scanChanGap := 0
  extScan := 0
  extScanEnh := false
  extScanType := 0
  infra := true
  wifiDirect := false
  configBands := 3
  extCap := none
  ecsaEnable := false
  operClass := 1
  countryCode := (0x55, 0x53)
  etsi := false
  wpsIe := [0x00, 0x50, 0xf2, 0x04]
  length_wpsIe := by decide
  regionCode := 0x10
  fw11n := false
  fw11ac := false
  fw11ax := false
  htCap := Vector.replicate 26 0
  vhtCap := Vector.replicate 12 0
  heCap := ⟨[], .inl rfl⟩
  heCap2g := ⟨[], .inl rfl⟩

/-- Four octets lie between the WPS element and the channels. -/
theorem gap_behind_wps : ¬∀ (alloc prepare : ℕ → Bool) (i : ℕ) (cmd : ScanCmd),
    (scanNetworks wpsSettings none (fun _ _ => false) alloc prepare [entryOf 0 2]).1[i]? = some cmd →
      ∃ g, ((wpsSettings.splitSetup none fun _ _ => false).sent [entryOf 0 2])[i]? = some g ∧
        (wpsSettings.splitSetup none fun _ _ => false).Chained wpsSettings none g cmd := by
  intro h
  have hrun : (scanNetworks wpsSettings none (fun _ _ => false) (fun _ => true) (fun _ => true)
      [entryOf 0 2]).1[0]?.map (fun cmd => cmd.tlvBuf.length) = some 39 := by
    decide +kernel
  have hsent : ((wpsSettings.splitSetup none fun _ _ => false).sent [entryOf 0 2])[0]? =
      some [(entryOf 0 2).markFirst] := by
    decide +kernel
  have hshort : (chain ((wpsSettings.splitSetup none fun _ _ => false).requestedCommand wpsSettings none
      [(entryOf 0 2).markFirst] (entryOf 0 2).markFirst)).length = 35 := by
    decide +kernel
  obtain ⟨cmd, hcmd, hlen⟩ := Option.map_eq_some_iff.mp hrun
  obtain ⟨g, hg, hchained⟩ := h _ _ 0 cmd hcmd
  obtain rfl := Option.some.inj (hsent.symm.trans hg)
  have hbuf := congrArg List.length (parse_eq_some_iff.mp (hchained _ rfl).1)
  exact absurd (hlen.symm.trans (hbuf.trans hshort)) (by decide)

end Scans

end WlanDriver.Scan
