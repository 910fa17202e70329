import WlanDriver.Scan.ChannelSplit
import Mathlib.Data.List.TakeWhile

/-!
# The commands of a channel list

Each group of channels has its command, and the commands have all channels exactly if no channel but the first of its
command cuts the rates (`Sends`, `Exact`). With that the commands of `wlan_scan_channel_list` are as they should be exactly
if the entries that are looked at decide as the next allowed ones would (`splits_iff`).
-/

namespace WlanDriver.Scan

open Tlv List

/-! ## The commands -/

section Commands

variable {p : SplitSetup} {front : List Tlv} {l g : List ChanScanParamSet} {cmd : ScanCmd} {s : Filling} {first : Bool}

/-- The command has all channels of its group, behind the records in front. -/
structure Exact (p : SplitSetup) (front : List Tlv) (g : List ChanScanParamSet) (cmd : ScanCmd) : Prop where
  not_broken : ¬Broken p front g
  tlvBuf : ∀ c ∈ g.getLast?,
    cmd.tlvBuf = frontOctets p front g ++ ((chanRecord g).octets ++ p.caps c.chanBand)
  chanTlv : cmd.chanTlv = (frontOctets p front g).length

/-- The command has one entry, while the group has more : a channel that is not its first cuts the rates. -/
structure MissesSome (p : SplitSetup) (front : List Tlv) (g : List ChanScanParamSet) (cmd : ScanCmd) : Prop where
  broken : Broken p front g
  begins : cutOctets front <+: cmd.tlvBuf
  length : ∀ c ∈ g.getLast?, cmd.tlvBuf.length = (cutOctets front).length + (11 + (p.caps c.chanBand).length)
  channels : cmd.channels.length < g.length

/-- What a command has of its group. -/
def Sent (p : SplitSetup) (front : List Tlv) (g : List ChanScanParamSet) (cmd : ScanCmd) : Prop :=
  Exact p front g cmd ∨ MissesSome p front g cmd

/-- The time that a command takes. -/
def scanTime (g : List ChanScanParamSet) : ℕ :=
  (g.map fun c => c.maxScanTime.toNat).sum

/-- The command is sent. -/
def TimeOk (g : List ChanScanParamSet) : Prop :=
  0 < scanTime g ∧ scanTime g ≤ maxTotalScanTime
  deriving Decidable

/-- The commands of the groups, up to one whose time is wrong : there the function gives up. -/
def Sends (p : SplitSetup) (front : List Tlv) : Bool → List (List ChanScanParamSet) → List ScanCmd × Bool → Prop
  | _, [], r => r = ([], true)
  | first, g :: gs, r =>
    if TimeOk g then ∃ cmd r', r = (cmd :: r'.1, r'.2) ∧ Sent p front (markGroup first g) cmd ∧ Sends p front false gs r'
    else r = ([], false)

theorem not_timeOk_nil : ¬TimeOk [] :=
  fun h => absurd h.1 (lt_irrefl 0)

theorem TimeOk.ne_nil (h : TimeOk g) : g ≠ [] := by
  rintro rfl
  exact not_timeOk_nil h

/-- The channels that are read off a command. -/
theorem channels_eq {bs rest : List UInt8} (hlen : g.length < 256)
    (hbuf : cmd.tlvBuf = bs ++ ((chanRecord g).octets ++ rest)) (hchan : cmd.chanTlv = bs.length) :
    cmd.channels = g.map ChanScanParamSet.octets ∧ cmd.front = bs := by
  have hflat := ChanScanParamSet.length_flatMap_octets g
  have hrecord : (chanRecord g).octets = le16 tlvTypeChanlist.toNat ++
      (le16 (7 * g.length) ++ g.flatMap ChanScanParamSet.octets) := by
    rw [chanRecord, octets_make _ (by omega), hflat]
  have hlength : get16 (cmd.tlvBuf.drop (bs.length + 2)) = 7 * g.length := by
    rw [hbuf, drop_length_add_append, hrecord, append_assoc, drop_left' (length_le16 _), append_assoc]
    exact get16_le16 (by omega) _
  have hentries : cmd.tlvBuf.drop (bs.length + 4) = g.flatMap ChanScanParamSet.octets ++ rest := by
    rw [hbuf, drop_length_add_append, hrecord, ← append_assoc (le16 _), append_assoc, drop_left' (by simp)]
  have hentry : ∀ (g : List ChanScanParamSet) (i : ℕ) (hi : i < g.length),
      ((g.flatMap ChanScanParamSet.octets ++ rest).drop (7 * i)).take 7 = g[i].octets := by
    intro g
    induction g with
    | nil => exact fun i hi => absurd hi (Nat.not_lt_zero i)
    | cons c g ih =>
      intro i hi
      rw [flatMap_cons, append_assoc]
      cases i with
      | zero => exact take_left' c.length_octets
      | succ i =>
        rw [show 7 * (i + 1) = c.octets.length + 7 * i by rw [c.length_octets]; omega, drop_length_add_append]
        exact ih i (by simpa using hi)
  refine ⟨ext_getElem ?_ fun i hi hi' => ?_, ?_⟩
  · rw [ScanCmd.channels, hchan, hlength, length_map, length_range, length_map,
      Nat.mul_div_cancel_left _ (by decide)]
  · rw [length_map] at hi'
    simp only [ScanCmd.channels, getElem_map, getElem_range]
    rw [hchan, ← Nat.add_assoc, ← drop_drop, hentries, hentry g i hi']
  · rw [ScanCmd.front, hbuf, hchan, take_left' rfl]

theorem map_markGroup {α : Type*} (f : ChanScanParamSet → α) (hf : ∀ c, f c.markFirst = f c) (first : Bool)
    (g : List ChanScanParamSet) : (markGroup first g).map f = g.map f := by
  cases first with
  | false => rfl
  | true =>
    cases g with
    | nil => rfl
    | cons c g => rw [markGroup, if_pos rfl, markHead, map_cons, map_cons, hf]

theorem length_markGroup (first : Bool) (g : List ChanScanParamSet) : (markGroup first g).length = g.length := by
  have hmap := congrArg List.length (map_markGroup (fun _ => ()) (fun _ => rfl) first g)
  rwa [length_map, length_map] at hmap

theorem markGroup_eq_nil : markGroup first g = [] ↔ g = [] := by
  rw [← length_eq_zero_iff, length_markGroup, length_eq_zero_iff]

theorem not_cutsRates_markGroup (h : ∀ c ∈ g.dropLast, ¬p.CutsRates c) :
    ∀ c ∈ (markGroup first g).dropLast, ¬p.CutsRates c := by
  intro c hc hcut
  have hmem : c.chanNumber ∈ ((markGroup first g).map ChanScanParamSet.chanNumber).dropLast := by
    rw [← map_dropLast]
    exact mem_map_of_mem hc
  rw [map_markGroup ChanScanParamSet.chanNumber (fun _ => rfl), ← map_dropLast] at hmem
  obtain ⟨d, hd, heq⟩ := mem_map.mp hmem
  exact h d hd ⟨⟨hcut.1.1, heq.trans hcut.1.2⟩, hcut.2⟩

theorem timeOk_markGroup : TimeOk (markGroup first g) ↔ TimeOk g := by
  rw [TimeOk, TimeOk, scanTime, scanTime, map_markGroup _ fun _ => rfl]

/-- A group makes a command. -/
theorem exists_command (first : Bool) (halloc : ∀ k, p.alloc k = true) (hg : g ≠ []) (hlen : g.length < 256)
    (hlast : ∀ c ∈ g.dropLast, ¬p.CutsRates c) (h : Ready front s) (hs : s.len = 0) :
    ∃ s', addAll p 0 (markGroup first g) s = some s' ∧ Sent p front (markGroup first g) (s'.close p).2 ∧
      ((chain front).length ≤ maxScanCfgAlloc - chanTlvMaxSize → Ready front { (s'.close p).1 with len := 0 }) := by
  have hg' : markGroup first g ≠ [] := markGroup_eq_nil.not.mpr hg
  obtain ⟨s', hs', hready, hholds⟩ := addAll_group halloc hg' (not_cutsRates_markGroup hlast) h hs
  have hgetLast := getLast?_eq_some_getLast hg'
  refine ⟨s', hs', ?_, fun hfits => (hready hfits).close⟩
  rcases hholds with ⟨hno, hholds⟩ | ⟨hbroken, hbegins⟩
  · obtain ⟨hbuf, hchan⟩ := hholds.close (p := p) (by rwa [length_markGroup])
    refine .inl ⟨hno, fun c hc => ?_, hchan⟩
    rw [hbuf, hholds.radio c hc]
  · obtain ⟨hpre, hlength, -⟩ := hbegins.close (p := p)
    refine .inr ⟨hbroken, hpre, fun c hc => ?_, ?_⟩
    · rw [hgetLast] at hc
      rwa [Option.some.inj hc] at hlength
    · obtain ⟨pre, z, heq, hpre, -, -⟩ := hbroken
      have hpos := length_pos_of_ne_nil hpre
      have hseven := hbegins.len
      rw [length_channels_close (by omega), hseven, heq, length_append, length_singleton]
      omega

theorem scanLoop_turn (hmax : 0 < p.maxChanPerScan ∧ p.maxChanPerScan < 256) (halloc : ∀ k, p.alloc k = true)
    (hprepare : ∀ k, p.prepare k = true) (fuel k : ℕ) (first : Bool) (c : ChanScanParamSet)
    (rest : List ChanScanParamSet) (hready : Ready front { s with len := 0 }) :
    if TimeOk (takeGroup p (c :: rest) 0 false).1 then
      ∃ cmd s', scanLoop p (fuel + 1) k first (c :: rest) s =
          (scanLoop p fuel (k + 1) false (takeGroup p (c :: rest) 0 false).2 s').map (cmd :: ·) id ∧
        Sent p front (markGroup first (takeGroup p (c :: rest) 0 false).1) cmd ∧
        ((chain front).length ≤ maxScanCfgAlloc - chanTlvMaxSize → Ready front { s' with len := 0 })
    else scanLoop p (fuel + 1) k first (c :: rest) s = ([], false) := by
  have hgroups := groups_eq (p := p) hmax.1 false [] (c :: rest)
  rw [nil_append, length_nil] at hgroups
  have hle := SplitSetup.length_groups_le hmax.1 (p := p) false [] (c :: rest) (Nat.zero_le _)
  have hcuts := SplitSetup.not_cutsRates_dropLast (p := p) false [] (c :: rest) (by simp) (by simp)
  rw [hgroups] at hle hcuts
  rw [scanLoop, fillCommand_eq]
  generalize (takeGroup p (c :: rest) 0 false).1 = g at *
  generalize (takeGroup p (c :: rest) 0 false).2 = l' at *
  have hgle := hle g mem_cons_self
  rw [Nat.zero_add]
  by_cases hg : g = []
  · subst hg
    rw [if_neg not_timeOk_nil]
    cases first <;> rfl
  · obtain ⟨s', hs', hsent, hready'⟩ := exists_command first halloc hg (by omega) (hcuts g mem_cons_self) hready rfl
    rw [hs', Option.map_some]
    dsimp only
    split
    · next htime =>
      have hno : ¬((g.map fun d => d.maxScanTime.toNat).sum = 0 ∨
          maxTotalScanTime < (g.map fun d => d.maxScanTime.toNat).sum) := by
        have hpos := htime.1
        have hlimit := htime.2
        unfold scanTime at hpos hlimit
        omega
      rw [if_neg hno, if_pos (hprepare k), isEmpty_eq_false_iff.mpr hg, Bool.and_false]
      exact ⟨_, _, rfl, hsent, hready'⟩
    · next htime =>
      rw [if_pos]
      unfold TimeOk scanTime at htime
      omega

theorem sends_scanLoop (hmax : 0 < p.maxChanPerScan ∧ p.maxChanPerScan < 256) (halloc : ∀ k, p.alloc k = true)
    (hprepare : ∀ k, p.prepare k = true) (hfits : (chain front).length ≤ maxScanCfgAlloc - chanTlvMaxSize) :
    ∀ (fuel k : ℕ) (first : Bool) (l : List ChanScanParamSet) (s : Filling), l.length ≤ fuel → l ≠ [] →
      Ready front { s with len := 0 } → Sends p front first (p.groups false [] l) (scanLoop p fuel k first l s)
  | 0, _, _, l, _, hlen, hl, _ => absurd (length_eq_zero_iff.mp (Nat.le_zero.mp hlen)) hl
  | fuel + 1, k, first, l, s, hlen, hl, hready => by
    obtain ⟨c, rest, rfl⟩ := exists_cons_of_ne_nil hl
    have hgroups := groups_eq (p := p) hmax.1 false [] (c :: rest)
    have hshort := length_takeGroup (p := p) hmax.1 c rest
    have hturn := scanLoop_turn hmax halloc hprepare fuel k first c rest hready
    rw [nil_append, length_nil] at hgroups
    rw [hgroups, Sends]
    split at hturn
    · next htime =>
      rw [if_pos htime]
      obtain ⟨cmd, s', heq, hsent, hready'⟩ := hturn
      rw [heq]
      refine ⟨cmd, _, rfl, hsent, ?_⟩
      by_cases hl' : (takeGroup p (c :: rest) 0 false).2 = []
      · rw [hl', if_pos rfl]
        cases fuel <;> rfl
      · rw [if_neg hl']
        refine sends_scanLoop hmax halloc hprepare hfits fuel (k + 1) false _ _ ?_ hl' (hready' hfits)
        rw [length_cons] at hlen
        omega
    · next htime =>
      rw [if_neg htime]
      exact hturn

end Commands

/-! ## When the list is split as it should be -/

/-- The groups, with the first entry of the first one marked. -/
def markGroups : Bool → List (List ChanScanParamSet) → List (List ChanScanParamSet)
  | _, [] => []
  | first, g :: gs => markGroup first g :: gs

namespace ChanScanParamSet

theorem le16_inj {m n : ℕ} (hm : m < 65536) (hn : n < 65536) (h : le16 m = le16 n) : m = n := by
  rw [← get16_le16 hm [], ← get16_le16 hn [], h]

theorem octets_injective : Function.Injective octets := by
  rintro ⟨b, n, m, t, u⟩ ⟨b', n', m', t', u'⟩ h
  obtain ⟨hhead, htail⟩ := append_inj h rfl
  obtain ⟨ht, hu⟩ := append_inj htail rfl
  obtain rfl := UInt16.toNat_inj.mp (le16_inj t.toNat_lt t'.toNat_lt ht)
  obtain rfl := UInt16.toNat_inj.mp (le16_inj u.toNat_lt u'.toNat_lt hu)
  simp only [List.cons.injEq, and_true] at hhead
  obtain ⟨rfl, rfl, rfl⟩ := hhead
  rfl

theorem marked_markFirst (c : ChanScanParamSet) : c.markFirst.Marked := by
  have hbit : ∀ x : BitVec 8, (x ||| 0x20#8) &&& 0x20#8 ≠ 0#8 := by decide
  intro h
  exact hbit c.chanScanMode.toBitVec (by simpa [markFirst] using congrArg UInt8.toBitVec h)

end ChanScanParamSet

section Groups

variable {p : SplitSetup} {front : List Tlv} {l g : List ChanScanParamSet} {gs : List (List ChanScanParamSet)}
  {cmd : ScanCmd} {cmds : List ScanCmd} {r : List ScanCmd × Bool} {first : Bool} {c d : ChanScanParamSet}

theorem cutFront_of_not_hasRates (h : ¬HasRates front) : cutFront front = front ∧ CutKeepsRest front := by
  induction front with
  | nil => exact ⟨rfl, trivial⟩
  | cons t ts ih =>
    have ht : t.type ≠ tlvTypeRates := fun ht => h ⟨t, mem_cons_self, ht⟩
    obtain ⟨hcut, hkeeps⟩ := ih fun ⟨u, hu, htype⟩ => h ⟨u, mem_cons_of_mem t hu, htype⟩
    rw [cutFront, if_neg ht, CutKeepsRest, if_neg ht, hcut]
    exact ⟨rfl, hkeeps⟩

/-- The records in front of a group are as they should be, if those that are cut keep what is behind them. -/
theorem frontOctets_eq_iff : frontOctets p front g = chain (p.frontFor front g) ↔
    ((∃ c ∈ g, p.CutsRates c) → CutKeepsRest front) := by
  unfold frontOctets SplitSetup.frontFor
  by_cases hcut : ∃ c ∈ g, p.CutsRates c
  · by_cases hrates : HasRates front
    · rw [if_pos ⟨hcut, hrates⟩, if_pos hcut, cutOctets_eq_iff]
      exact ⟨fun h _ => h, fun h => h hcut⟩
    · obtain ⟨heq, hkeeps⟩ := cutFront_of_not_hasRates hrates
      rw [if_neg fun h => hrates h.2, if_pos hcut, heq]
      exact iff_of_true rfl fun _ => hkeeps
  · rw [if_neg fun h => hcut h.1, if_neg hcut]
    exact iff_of_true rfl fun h => absurd h hcut

/-- Channels may follow each other in a command, if all of them may share it. -/
theorem isChain_mustCut_iff (g : List ChanScanParamSet) : (g.IsChain fun c d => ¬p.MustCut front c d) ↔
    (∀ c ∈ g, ∀ d ∈ g, c.chanBand = d.chanBand) ∧
    (p.filteredScan = false → ¬p.Enhanced → ∀ c ∈ g, ChanScanParamSet.IsolatedNumber c.chanNumber → g = [c]) ∧
    ∀ c ∈ g.tail, ¬(p.CutsRates c ∧ HasRates front) := by
  induction g with
  | nil => simp
  | cons c g ih =>
    cases g with
    | nil => simp
    | cons d g =>
      rw [isChain_cons_cons, ih, tail_cons]
      constructor
      · rintro ⟨hcd, hband, halone, hcut⟩
        have hbands : ∀ e ∈ d :: g, c.chanBand = e.chanBand := fun e he =>
          (not_not.mp fun h => hcd (.inl h)).trans (hband d mem_cons_self e he)
        refine ⟨?_, fun hfilter henh => ?_, ?_⟩
        · rintro x (_ | ⟨_, hx⟩) y (_ | ⟨_, hy⟩)
          · rfl
          · exact hbands y hy
          · exact (hbands x hx).symm
          · exact hband x hx y hy
        · have hno : ∀ x ∈ c :: d :: g, ¬ChanScanParamSet.IsolatedNumber x.chanNumber := by
            rintro x (_ | ⟨_, hx⟩) hiso
            · exact hcd (.inr (.inl ⟨hfilter, henh, .inl hiso⟩))
            · obtain ⟨rfl, -⟩ := cons_eq_cons.mp (halone hfilter henh x hx hiso)
              exact hcd (.inr (.inl ⟨hfilter, henh, .inr hiso⟩))
          exact fun x hx hiso => absurd hiso (hno x hx)
        · exact forall_mem_cons.mpr ⟨fun h => hcd (.inr (.inr h)), hcut⟩
      · rintro ⟨hband, halone, hcut⟩
        have hno : p.filteredScan = false → ¬p.Enhanced →
            ∀ x ∈ c :: d :: g, ¬ChanScanParamSet.IsolatedNumber x.chanNumber := by
          intro hfilter henh x hx hiso
          exact cons_ne_nil d g (cons_eq_cons.mp (halone hfilter henh x hx hiso)).2
        refine ⟨?_, fun x hx y hy => hband x (mem_cons_of_mem c hx) y (mem_cons_of_mem c hy),
          fun hfilter henh x hx hiso => absurd hiso (hno hfilter henh x (mem_cons_of_mem c hx)),
          fun x hx => hcut x (mem_cons_of_mem d hx)⟩
        rintro (h | ⟨hfilter, henh, hiso⟩ | h)
        · exact h (hband c mem_cons_self d (by simp))
        · exact hiso.elim (hno hfilter henh c mem_cons_self) (hno hfilter henh d (by simp))
        · exact hcut d mem_cons_self h

theorem isChain_markGroup (first : Bool) (g : List ChanScanParamSet) :
    ((markGroup first g).IsChain fun c d => ¬p.MustCut front c d) ↔ g.IsChain fun c d => ¬p.MustCut front c d := by
  cases first with
  | false => rfl
  | true =>
    match g with
    | [] => rfl
    | [c] => simp [markGroup, markHead]
    | c :: d :: g =>
      rw [isChain_cons_cons]
      show ((c.markFirst :: d :: g).IsChain fun c d => ¬p.MustCut front c d) ↔ _
      rw [isChain_cons_cons]
      rfl

theorem goodGroups_markGroups : p.GoodGroups front (markGroups first gs) ↔ p.GoodGroups front gs := by
  cases gs with
  | nil => rfl
  | cons g gs =>
    rw [markGroups, SplitSetup.goodGroups_cons, SplitSetup.goodGroups_cons, isChain_markGroup, Ne, markGroup_eq_nil]

theorem flatten_markGroups (h : ∀ g ∈ gs, g ≠ []) : (markGroups true gs).flatten = markHead gs.flatten := by
  match gs with
  | [] => rfl
  | [] :: gs => exact absurd rfl (h [] mem_cons_self)
  | (c :: g) :: gs => rfl

theorem markGroups_ne_nil (h : ∀ g ∈ gs, g ≠ []) : ∀ g ∈ markGroups first gs, g ≠ [] := by
  cases gs with
  | nil => exact h
  | cons g gs =>
    rw [forall_mem_cons] at h
    exact forall_mem_cons.mpr ⟨markGroup_eq_nil.not.mpr h.1, h.2⟩

theorem length_markGroups (gs : List (List ChanScanParamSet)) :
    (markGroups first gs).map List.length = gs.map List.length := by
  cases gs with
  | nil => rfl
  | cons g gs => rw [markGroups, map_cons, map_cons, length_markGroup]

/-- The commands are those of the groups up to the first whose time is wrong, and all goes well if there is none. -/
theorem Sends.all : ∀ {first : Bool} {gs : List (List ChanScanParamSet)} {r : List ScanCmd × Bool},
    Sends p front first gs r → (r.2 = true ↔ ∀ g ∈ gs, TimeOk g) ∧
      List.Forall₂ (Sent p front) ((markGroups first gs).takeWhile fun g => TimeOk g) r.1
  | _, [], r, h => by
    rw [Sends] at h
    subst h
    exact ⟨by simp, .nil⟩
  | first, g :: gs, r, h => by
    rw [Sends] at h
    rw [forall_mem_cons, markGroups]
    split at h
    · next hg =>
      obtain ⟨cmd, r', rfl, hsent, hrest⟩ := h
      obtain ⟨hok, hall⟩ := hrest.all
      have hmarks : markGroups false gs = gs := by
        cases gs <;> rfl
      rw [takeWhile_cons_of_pos (by simpa using timeOk_markGroup.mpr hg)]
      rw [hmarks] at hall
      exact ⟨⟨fun h => ⟨hg, hok.mp h⟩, fun h => hok.mpr h.2⟩, .cons hsent hall⟩
    · next hg =>
      subst h
      rw [takeWhile_cons_of_neg (by simpa using timeOk_markGroup.not.mpr hg)]
      exact ⟨⟨fun h => absurd h (by simp), fun h => absurd h.1 hg⟩, .nil⟩

theorem timeOk_markGroups (h : ∀ g ∈ gs, TimeOk g) : ∀ g ∈ markGroups first gs, TimeOk g := by
  cases gs with
  | nil => exact h
  | cons g gs =>
    rw [forall_mem_cons] at h
    exact forall_mem_cons.mpr ⟨timeOk_markGroup.mpr h.1, h.2⟩

/-- If all goes well, every group has its command. -/
theorem Sends.forall₂ (h : Sends p front first gs r) (hok : r.2 = true) :
    List.Forall₂ (Sent p front) (markGroups first gs) r.1 := by
  obtain ⟨hiff, hall⟩ := h.all
  have htimes : ∀ g ∈ markGroups first gs, TimeOk g := timeOk_markGroups (hiff.mp hok)
  rwa [takeWhile_eq_self_iff.mpr fun g hg => by simpa using htimes g hg] at hall

/-- What is read off a command that has all of its group. -/
theorem Exact.channels (h : Exact p front g cmd) (hg : g ≠ []) (hlen : g.length < 256) :
    cmd.channels = g.map ChanScanParamSet.octets ∧ cmd.front = frontOctets p front g :=
  channels_eq hlen (h.tlvBuf _ (getLast?_eq_some_getLast hg)) h.chanTlv

/-- Commands with as many channels as their groups have them all. -/
theorem exact_of_length (h : List.Forall₂ (Sent p front) gs cmds) (hgs : ∀ g ∈ gs, g ≠ [] ∧ g.length < 256)
    (hsum : (gs.map List.length).sum ≤ (cmds.map fun cmd => cmd.channels.length).sum) :
    List.Forall₂ (Exact p front) gs cmds := by
  have hle : ∀ {g cmd}, g ≠ [] ∧ g.length < 256 → Sent p front g cmd → cmd.channels.length ≤ g.length := by
    rintro g cmd hg (h | h)
    · rw [(h.channels hg.1 hg.2).1, length_map]
    · exact h.channels.le
  have hles : ∀ {gs cmds}, (∀ g ∈ gs, g ≠ [] ∧ g.length < 256) → List.Forall₂ (Sent p front) gs cmds →
      (cmds.map fun cmd => cmd.channels.length).sum ≤ (gs.map List.length).sum := by
    intro gs cmds hgs h
    induction h with
    | nil => rfl
    | cons hsent _ ih =>
      rw [forall_mem_cons] at hgs
      rw [map_cons, map_cons, sum_cons, sum_cons]
      exact Nat.add_le_add (hle hgs.1 hsent) (ih hgs.2)
  induction h with
  | nil => exact .nil
  | cons hsent hrest ih =>
    rw [forall_mem_cons] at hgs
    rw [map_cons, map_cons, sum_cons, sum_cons] at hsum
    have hone := hle hgs.1 hsent
    have hmany := hles hgs.2 hrest
    refine .cons (hsent.resolve_right fun h => ?_) (ih hgs.2 (by omega))
    have hlt := h.channels
    omega

end Groups

section Splitting

variable {p : SplitSetup} {front : List Tlv} {l g : List ChanScanParamSet} {gs : List (List ChanScanParamSet)}
  {cmds : List ScanCmd} {r : List ScanCmd × Bool} {first : Bool} {c : ChanScanParamSet}

/-- Where only the last channel of a command may cut the rates. -/
theorem broken_iff (hlast : ∀ c ∈ g.dropLast, ¬p.CutsRates c) :
    Broken p front g ↔ ∃ c ∈ g.tail, p.CutsRates c ∧ HasRates front := by
  rcases eq_nil_or_concat g with rfl | ⟨pre, z, rfl⟩
  · exact iff_of_false (fun ⟨pre, z, h, _⟩ => by simp at h) (fun ⟨c, hc, _⟩ => by simp at hc)
  · rw [concat_eq_append] at hlast ⊢
    rw [dropLast_concat] at hlast
    rw [broken_concat]
    cases pre with
    | nil => simp
    | cons c pre =>
      rw [cons_append, tail_cons]
      refine ⟨fun h => ⟨z, by simp, h.2⟩, ?_⟩
      rintro ⟨d, hd, hcut, hrates⟩
      rcases mem_append.mp hd with hd | hd
      · exact absurd hcut (hlast d (mem_cons_of_mem c hd))
      · exact ⟨cons_ne_nil c pre, mem_singleton.mp hd ▸ hcut, hrates⟩

/-- A group whose channels may follow each other, by what its command should have. -/
theorem isChain_iff_not_broken (hlast : ∀ c ∈ g.dropLast, ¬p.CutsRates c) :
    (g.IsChain fun c d => ¬p.MustCut front c d) ↔
      ((∀ c ∈ g, ∀ d ∈ g, c.chanBand = d.chanBand) ∧
        (p.filteredScan = false → ¬p.Enhanced → ∀ c ∈ g, ChanScanParamSet.IsolatedNumber c.chanNumber → g = [c])) ∧
      ¬Broken p front g := by
  rw [isChain_mustCut_iff, broken_iff hlast, and_assoc]
  simp only [not_exists, not_and]

theorem not_cutsRates_markGroups (h : ∀ g ∈ gs, ∀ c ∈ g.dropLast, ¬p.CutsRates c) :
    ∀ g ∈ markGroups first gs, ∀ c ∈ g.dropLast, ¬p.CutsRates c := by
  cases gs with
  | nil => exact h
  | cons g gs =>
    rw [forall_mem_cons] at h
    exact forall_mem_cons.mpr ⟨not_cutsRates_markGroup h.1, h.2⟩

theorem Sent.exact (h : List.Forall₂ (Sent p front) gs cmds) (hno : ∀ g ∈ gs, ¬Broken p front g) :
    List.Forall₂ (Exact p front) gs cmds := by
  induction h with
  | nil => exact .nil
  | cons hsent _ ih =>
    rw [forall_mem_cons] at hno
    exact .cons (hsent.resolve_right fun h => hno.1 h.broken) (ih hno.2)

/-- What commands that have all channels are made of. -/
theorem Exact.maps (h : List.Forall₂ (Exact p front) gs cmds) (hgs : ∀ g ∈ gs, g ≠ [] ∧ g.length < 256) :
    (∀ g ∈ gs, ¬Broken p front g) ∧
    cmds.map ScanCmd.channels = gs.map (List.map ChanScanParamSet.octets) ∧
    cmds.map ScanCmd.front = gs.map (frontOctets p front) := by
  induction h with
  | nil => exact ⟨by simp, rfl, rfl⟩
  | cons hexact _ ih =>
    rw [forall_mem_cons] at hgs
    obtain ⟨hchannels, hfront⟩ := hexact.channels hgs.1.1 hgs.1.2
    have hrest := ih hgs.2
    rw [map_cons, map_cons, map_cons, map_cons, hchannels, hfront, hrest.2.1, hrest.2.2]
    exact ⟨forall_mem_cons.mpr ⟨hexact.not_broken, hrest.1⟩, rfl, rfl⟩

theorem sound_of_blocked (h : ∀ c ∈ l, p.Blocks c) : ∀ k, p.Sound front k l := by
  induction l with
  | nil => exact fun _ => trivial
  | cons c rest ih =>
    rw [forall_mem_cons] at h
    exact fun k => (SplitSetup.sound_cons_blocked h.1).mpr (ih h.2 k)

theorem groups_of_blocked (hmax : 0 < p.maxChanPerScan) (h : ∀ c ∈ l, p.Blocks c) : p.groups false [] l = [[]] := by
  induction l with
  | nil => rfl
  | cons c rest ih =>
    rw [forall_mem_cons] at h
    rw [SplitSetup.groups, if_pos ⟨hmax, rfl⟩, if_pos h.1, ih h.2]

theorem allowed_of_blocked (h : ∀ c ∈ l, p.Blocks c) : p.allowed l = [] :=
  filter_eq_nil_iff.mpr fun c hc => by simpa using h c hc

/-- Only the first entry is marked. -/
theorem marked_markHead (h : ∀ c ∈ l, ¬c.Marked) (i : ℕ) (hc : (markHead l)[i]? = some c) : c.Marked ↔ i = 0 := by
  cases l with
  | nil => simp [markHead] at hc
  | cons d l =>
    cases i with
    | zero =>
      rw [markHead, getElem?_cons_zero, Option.some.injEq] at hc
      exact iff_of_true (hc ▸ d.marked_markFirst) rfl
    | succ i =>
      rw [markHead, getElem?_cons_succ] at hc
      exact iff_of_false (h c (mem_cons_of_mem d (mem_of_getElem? hc))) (Nat.succ_ne_zero i)

theorem exists_cutsRates_markHead (l : List ChanScanParamSet) :
    (∃ c ∈ markHead l, p.CutsRates c) ↔ ∃ c ∈ l, p.CutsRates c := by
  cases l with
  | nil => rfl
  | cons d l =>
    rw [markHead, exists_mem_cons_iff, exists_mem_cons_iff]
    rfl

/-- The groups that the commands are made of. -/
def commandGroups (p : SplitSetup) (l : List ChanScanParamSet) : List (List ChanScanParamSet) :=
  markGroups true (p.groups false [] l)

theorem flatten_commandGroups (h : ∀ g ∈ p.groups false [] l, g ≠ []) : (commandGroups p l).flatten = markHead (p.allowed l) := by
  rw [commandGroups, flatten_markGroups h, SplitSetup.flatten_groups, nil_append]

theorem length_commandGroups_le (hmax : 0 < p.maxChanPerScan) : ∀ g ∈ commandGroups p l, g.length ≤ p.maxChanPerScan := by
  intro g hg
  have hlengths : (commandGroups p l).map List.length = _ := length_markGroups (p.groups false [] l)
  have hmem := hlengths ▸ mem_map_of_mem (f := List.length) hg
  obtain ⟨g', hg', heq⟩ := mem_map.mp hmem
  exact heq ▸ SplitSetup.length_groups_le hmax false [] l (Nat.zero_le _) g' hg'

/-- A channel that cuts the rates ends its group. -/
theorem not_cutsRates_commandGroups (l : List ChanScanParamSet) : ∀ g ∈ commandGroups p l, ∀ c ∈ g.dropLast, ¬p.CutsRates c :=
  not_cutsRates_markGroups (SplitSetup.not_cutsRates_dropLast (p := p) false [] l (by simp) (by simp))

theorem goodGroups_commandGroups (hmax : 0 < p.maxChanPerScan) (hex : ∃ c ∈ l, ¬p.Blocks c) :
    p.GoodGroups front (commandGroups p l) ↔ p.Sound front 0 l := by
  rw [commandGroups, goodGroups_markGroups, (SplitSetup.goodGroups_iff hmax l).2, and_iff_right hex]

theorem exists_cutsRates_allowed (l : List ChanScanParamSet) :
    (∃ c ∈ l, ¬p.Blocks c ∧ p.CutsRates c) ↔ ∃ c ∈ markHead (p.allowed l), p.CutsRates c := by
  rw [exists_cutsRates_markHead]
  simp [SplitSetup.allowed, and_assoc]

/-- Where every channel is blocked there is no command, and none that should be. -/
theorem splits_of_blocked (h : ∀ c ∈ l, p.Blocks c) : p.Splits front l ([], false) := by
  refine ⟨fun _ => .inl h, [], ?_, by simp, prefix_rfl, prefix_rfl, by simp, by simp⟩
  rw [allowed_of_blocked h]
  rfl

/-- Commands with all the allowed channels are those of the groups, each with what its group should have. -/
theorem sound_of_splits (hmax : 0 < p.maxChanPerScan ∧ p.maxChanPerScan < 256) (hex : ∃ c ∈ l, ¬p.Blocks c)
    (hfull : ∀ g ∈ p.groups false [] l, g ≠ []) (hsent : List.Forall₂ (Sent p front) (commandGroups p l) r.1)
    (htrue : r.2 = true) (h : p.Splits front l r) :
    p.Sound front 0 l ∧ ((∃ c ∈ l, ¬p.Blocks c ∧ p.CutsRates c) → CutKeepsRest front) := by
  obtain ⟨gs, hgs, -, hchannels, hfront, hlength, hall⟩ := h.parts
  have hflat := flatten_commandGroups hfull
  have hlast := not_cutsRates_commandGroups (p := p) l
  have hchannels := hchannels.eq_of_length (by rw [length_map, length_map, hlength htrue])
  have hfront := hfront.eq_of_length (by rw [length_map, length_map, hlength htrue])
  have hshort : ∀ g ∈ commandGroups p l, g ≠ [] ∧ g.length < 256 := fun g hg =>
    ⟨markGroups_ne_nil hfull g hg, (length_commandGroups_le hmax.1 g hg).trans_lt hmax.2⟩
  -- no channel is missing, so every command has all of its group
  have hsum : ((commandGroups p l).map List.length).sum ≤ (r.1.map fun cmd => cmd.channels.length).sum := by
    have hmap := congrArg (List.map List.length) hchannels
    simp only [map_map, Function.comp_def, length_map] at hmap
    rw [hmap, ← length_flatten, ← length_flatten, hgs, hflat]
  obtain ⟨hno, hchannels', hfront'⟩ := Exact.maps (exact_of_length hsent hshort hsum) hshort
  obtain rfl : gs = commandGroups p l :=
    (ChanScanParamSet.octets_injective.list_map.list_map) (hchannels.symm.trans hchannels')
  refine ⟨(goodGroups_commandGroups hmax.1 hex).mp fun g hg => ⟨(hall g hg).1, ?_⟩, fun hcut => ?_⟩
  · exact (isChain_iff_not_broken (hlast g hg)).mpr ⟨(hall g hg).2.2, hno g hg⟩
  · obtain ⟨c, hc, hcut⟩ := (exists_cutsRates_allowed l).mp hcut
    rw [← hgs, mem_flatten] at hc
    obtain ⟨g, hg, hc⟩ := hc
    have heq := map_inj_left.mp (hfront'.symm.trans hfront) g hg
    exact frontOctets_eq_iff.mp heq ⟨c, hc, hcut⟩

/-- Commands of groups whose channels may follow each other are as they should be. -/
theorem splits_of_sound (hmax : 0 < p.maxChanPerScan ∧ p.maxChanPerScan < 256) (hunmarked : ∀ c ∈ l, ¬c.Marked)
    (hfull : ∀ g ∈ p.groups false [] l, g ≠ []) (hsent : List.Forall₂ (Sent p front) (commandGroups p l) r.1)
    (htrue : r.2 = true) (hgood : p.GoodGroups front (commandGroups p l))
    (hkeeps : (∃ c ∈ l, ¬p.Blocks c ∧ p.CutsRates c) → CutKeepsRest front) : p.Splits front l r := by
  have hflat := flatten_commandGroups hfull
  have hchain := fun g hg => (isChain_iff_not_broken (not_cutsRates_commandGroups (p := p) l g hg)).mp (hgood g hg).2
  have hshort := fun g hg => length_commandGroups_le (l := l) hmax.1 g hg
  obtain ⟨-, hchannels, hfront⟩ := Exact.maps (Sent.exact hsent fun g hg => (hchain g hg).2) fun g hg =>
    ⟨(hgood g hg).1, (hshort g hg).trans_lt hmax.2⟩
  refine ⟨fun h => absurd htrue (by rw [h]; decide), _, hflat, fun i c hi => ?_, hchannels ▸ prefix_rfl, ?_, fun _ => ?_,
    fun g hg => ⟨(hgood g hg).1, hshort g hg, (hchain g hg).1⟩⟩
  · rw [hflat] at hi
    exact marked_markHead (fun d hd => hunmarked d (mem_of_mem_filter hd)) i hi
  · rw [hfront, map_congr_left fun g hg => frontOctets_eq_iff.mpr fun hcut => hkeeps ((exists_cutsRates_allowed l).mpr ?_)]
    obtain ⟨c, hc, hcut⟩ := hcut
    exact ⟨c, hflat ▸ mem_flatten.mpr ⟨g, hg, hc⟩, hcut⟩
  · have hlen := congrArg List.length hchannels
    rwa [length_map, length_map] at hlen

/-- The commands of the groups are as they should be exactly if the neighbours that were looked at made no difference. -/
theorem splits_iff_of_sends (hmax : 0 < p.maxChanPerScan ∧ p.maxChanPerScan < 256) (halloc : ∀ k, p.alloc k = true)
    (hprepare : ∀ k, p.prepare k = true) (hunmarked : ∀ c ∈ l, ¬c.Marked)
    (htimes : ∀ g ∈ p.groups false [] l, TimeOk g ↔ g ≠ []) (hsends : Sends p front true (p.groups false [] l) r) :
    p.Splits front l r ↔
      p.Sound front 0 l ∧ ((∃ c ∈ l, ¬p.Blocks c ∧ p.CutsRates c) → CutKeepsRest front) := by
  by_cases hex : ∃ c ∈ l, ¬p.Blocks c
  · have hok : r.2 = true ↔ ∀ g ∈ p.groups false [] l, g ≠ [] := by
      rw [hsends.all.1]
      exact forall₂_congr htimes
    constructor
    · intro h
      have htrue : r.2 = true := by
        by_contra hfalse
        rcases h.fails (Bool.eq_false_iff.mpr hfalse) with hblocked | hno | ⟨k, -, hno⟩
        · obtain ⟨c, hc, hb⟩ := hex
          exact hb (hblocked c hc)
        · exact absurd (hprepare _) (by rw [hno]; decide)
        · exact absurd (halloc k) (by rw [hno]; decide)
      exact sound_of_splits hmax hex (hok.mp htrue) (hsends.forall₂ htrue) htrue h
    · rintro ⟨hsound, hkeeps⟩
      have hgood := (goodGroups_commandGroups hmax.1 hex).mpr hsound
      have hfull : ∀ g ∈ p.groups false [] l, g ≠ [] := fun g hg => (goodGroups_markGroups.mp hgood g hg).1
      exact splits_of_sound hmax hunmarked hfull (hsends.forall₂ (hok.mpr hfull)) (hok.mpr hfull) hgood hkeeps
  · have hblocked : ∀ c ∈ l, p.Blocks c := fun c hc => not_not.mp fun hb => hex ⟨c, hc, hb⟩
    rw [groups_of_blocked hmax.1 hblocked, Sends, if_neg not_timeOk_nil] at hsends
    subst hsends
    exact iff_of_true (splits_of_blocked hblocked)
      ⟨sound_of_blocked hblocked 0, fun h => (hex (h.imp fun _ hc => ⟨hc.1, hc.2.1⟩)).elim⟩

end Splitting

/-! ## Commands that cannot be made -/

namespace SplitSetup

/-- The setup with these outcomes of the allocations and of `wlan_prepare_cmd`. -/
def outcomes (p : SplitSetup) (alloc prepare : ℕ → Bool) : SplitSetup :=
  { p with alloc := alloc, prepare := prepare }

/-- The setup when nothing fails. -/
def succeeding (p : SplitSetup) : SplitSetup :=
  p.outcomes (fun _ => true) fun _ => true

end SplitSetup

section Failing

variable {p : SplitSetup} {front : List Tlv} {l : List ChanScanParamSet} {mem : Mem} {alloc prepare : ℕ → Bool}

theorem allocs_restore (s : Filling) : s.restore.allocs = s.allocs := by
  unfold Filling.restore
  split <;> rfl

/-- A channel is added as when nothing fails, or its allocation fails. -/
theorem addChannel_succeeding (idx : ℕ) (c : ChanScanParamSet) (s : Filling) :
    s.addChannel p idx c = s.addChannel p.succeeding idx c ∨
      s.addChannel p idx c = none ∧ p.CutsRates c ∧ p.alloc s.allocs = false := by
  unfold Filling.addChannel Filling.japan14
  rw [allocs_restore]
  cases halloc : p.alloc s.allocs with
  | true => exact .inl rfl
  | false =>
    by_cases hcut : p.CutsRates c
    · rw [if_pos hcut, if_neg (by decide)]
      exact .inr ⟨rfl, hcut, rfl⟩
    · rw [if_neg hcut]
      exact .inl (by rw [if_neg (show ¬p.succeeding.CutsRates c from hcut)])

/-- Only a channel that cuts the rates takes an allocation. -/
theorem allocs_japan14 {c : ChanScanParamSet} {s t : Filling} (h : s.japan14 p c = some t) :
    t.allocs ≤ s.allocs + if p.CutsRates c then 1 else 0 := by
  unfold Filling.japan14 at h
  split_ifs at h with hcut halloc
  · rw [if_pos hcut]
    split at h <;> cases h <;> exact le_rfl
  · cases h
    exact Nat.le_add_right _ _

theorem allocs_addChannel {idx : ℕ} {c : ChanScanParamSet} {s s' : Filling} (h : s.addChannel p idx c = some s') :
    s'.allocs ≤ s.allocs + if p.CutsRates c then 1 else 0 := by
  obtain ⟨t, ht, rfl⟩ := Option.map_eq_some_iff.mp h
  have hle := allocs_japan14 ht
  rwa [allocs_restore] at hle

theorem allocations_cons (c : ChanScanParamSet) (l : List ChanScanParamSet) :
    p.allocations (c :: l) = p.allocations l + if ¬p.Blocks c ∧ p.CutsRates c then 1 else 0 := by
  simp [SplitSetup.allocations, countP_cons]

theorem cutsRates_marking (first : Bool) (c : ChanScanParamSet) : p.CutsRates (marking first c) ↔ p.CutsRates c := by
  cases first <;> rfl

/-- What the inner loop has allocated is counted with the channels that it has added. -/
theorem allocs_fillCommand {l rest : List ChanScanParamSet} {idx time time' : ℕ} {done first first' : Bool} {s s' : Filling}
    (h : fillCommand p l idx done first time s = some (rest, first', time', s')) :
    s'.allocs + p.allocations rest ≤ s.allocs + p.allocations l := by
  induction l generalizing idx done first time s with
  | nil =>
    cases h
    exact le_rfl
  | cons c l ih =>
    rw [fillCommand] at h
    split_ifs at h with hroom hb
    · refine (ih h).trans ?_
      rw [allocations_cons]
      omega
    · obtain ⟨t, ht, h⟩ := Option.bind_eq_some_iff.mp h
      have hle := allocs_addChannel ht
      have hrest := ih h
      simp only [cutsRates_marking] at hle
      simp only [allocations_cons, hb, not_false_eq_true, true_and]
      omega
    · cases h
      exact le_rfl

/-- The inner loop does what it does when nothing fails, or an allocation that it comes to fails. -/
theorem fillCommand_succeeding (l : List ChanScanParamSet) (idx : ℕ) (done first : Bool) (time : ℕ) (s : Filling) :
    fillCommand p l idx done first time s = fillCommand p.succeeding l idx done first time s ∨
      fillCommand p l idx done first time s = none ∧ ∃ k < s.allocs + p.allocations l, p.alloc k = false := by
  induction l generalizing idx done first time s with
  | nil => exact .inl rfl
  | cons c rest ih =>
    by_cases hroom : idx < p.maxChanPerScan ∧ done = false
    · by_cases hb : p.Blocks c
      · rw [fillCommand, if_pos hroom, if_pos hb, fillCommand, if_pos (show idx < p.succeeding.maxChanPerScan ∧ _ from hroom),
          if_pos (show p.succeeding.Blocks c from hb), allocations_cons, if_neg fun h => h.1 hb]
        exact ih idx done first time s
      · rw [fillCommand, if_pos hroom, if_neg hb, fillCommand, if_pos (show idx < p.succeeding.maxChanPerScan ∧ _ from hroom),
          if_neg (show ¬p.succeeding.Blocks c from hb)]
        rcases addChannel_succeeding idx (marking first c) s with heq | ⟨hnone, hcut, hfail⟩
        · cases hadd : s.addChannel p idx (marking first c) with
          | none =>
            rw [← heq, hadd]
            exact .inl rfl
          | some s' =>
            rw [← heq, hadd]
            have hle := allocs_addChannel hadd
            refine (ih _ _ _ _ s').imp_right fun h => ⟨h.1, ?_⟩
            obtain ⟨k, hk, hfail⟩ := h.2
            refine ⟨k, hk.trans_le ?_, hfail⟩
            simp only [cutsRates_marking] at hle
            simp only [allocations_cons, hb, not_false_eq_true, true_and]
            omega
        · rw [hnone]
          refine .inr ⟨rfl, s.allocs, ?_, hfail⟩
          rw [allocations_cons, if_pos ⟨hb, (cutsRates_marking first c).mp hcut⟩]
          omega
    · rw [fillCommand, if_neg hroom, fillCommand, if_neg (show ¬(idx < p.succeeding.maxChanPerScan ∧ _) from hroom)]
      exact .inl rfl

/-- The commands are those that are made when nothing fails, up to the first that fails. -/
theorem scanLoop_succeeding : ∀ (fuel k : ℕ) (first : Bool) (l : List ChanScanParamSet) (s : Filling),
    (scanLoop p fuel k first l s).1 <+: (scanLoop p.succeeding fuel k first l s).1 ∧
      (scanLoop p fuel k first l s = scanLoop p.succeeding fuel k first l s ∨
        (scanLoop p fuel k first l s).2 = false ∧
          (p.prepare (k + (scanLoop p fuel k first l s).1.length) = false ∨
            ∃ j < s.allocs + p.allocations l, p.alloc j = false))
  | 0, _, _, [], _ => ⟨prefix_rfl, .inl rfl⟩
  | _ + 1, _, _, [], _ => ⟨prefix_rfl, .inl rfl⟩
  | 0, _, _, _ :: _, _ => ⟨prefix_rfl, .inl rfl⟩
  | fuel + 1, k, first, c :: rest, s => by
    rw [scanLoop, scanLoop]
    rcases fillCommand_succeeding (c :: rest) 0 false first 0 { s with len := 0 } with heq | ⟨hnone, hfail⟩
    · rw [← heq]
      cases hfill : fillCommand p (c :: rest) 0 false first 0 { s with len := 0 } with
      | none => exact ⟨prefix_rfl, .inl rfl⟩
      | some x =>
        obtain ⟨rest', first, time, s'⟩ := x
        have hle := allocs_fillCommand hfill
        by_cases htime : time = 0 ∨ maxTotalScanTime < time
        · dsimp only
          rw [if_pos htime, if_pos htime]
          exact ⟨prefix_rfl, .inl rfl⟩
        · dsimp only
          rw [if_neg htime, if_neg htime]
          cases hprepare : p.prepare k with
          | false => exact ⟨List.nil_prefix, .inr ⟨rfl, .inl hprepare⟩⟩
          | true =>
            obtain ⟨hpre, hor⟩ := scanLoop_succeeding fuel (k + 1) first rest' (s'.close p).1
            rw [Nat.add_assoc, Nat.add_comm 1] at hor
            refine ⟨(prefix_cons_inj _).mpr hpre, hor.imp (fun heq => ?_) (And.imp_right (Or.imp_right fun h => ?_))⟩
            · exact congrArg (fun r : List ScanCmd × Bool => r.map ((s'.close p).2 :: ·) id) heq
            · obtain ⟨j, hj, hfail⟩ := h
              exact ⟨j, hj.trans_le hle, hfail⟩
    · rw [hnone]
      exact ⟨List.nil_prefix, .inr ⟨rfl, .inr hfail⟩⟩

theorem sound_succeeding (k : ℕ) (l : List ChanScanParamSet) : p.succeeding.Sound front k l ↔ p.Sound front k l := by
  induction l generalizing k with
  | nil => rfl
  | cons c rest ih =>
    simp only [SplitSetup.Sound, ih]
    rfl

theorem plain_start (hread : mem.read 0 (chain front).length = chain front) : Plain front
    ⟨mem.write (chain front).length (le16 tlvTypeChanlist.toNat), (chain front).length, 0, 0, none, 0⟩ :=
  ⟨rfl, rfl, (Mem.read_write_of_disjoint (.inl (by rw [Nat.zero_add]))).trans hread,
    Mem.read_write mem _ (le16 tlvTypeChanlist.toNat)⟩

/-- The function sends the groups. -/
theorem sends_scanChannelList (hmax : 0 < p.maxChanPerScan ∧ p.maxChanPerScan < 256) (halloc : ∀ k, p.alloc k = true)
    (hprepare : ∀ k, p.prepare k = true) (hread : mem.read 0 (chain front).length = chain front)
    (hfits : (chain front).length ≤ maxScanCfgAlloc - chanTlvMaxSize) :
    Sends p front true (p.groups false [] l) (scanChannelList p mem (chain front).length l) := by
  unfold scanChannelList
  split
  · next hl =>
    rw [hl, SplitSetup.groups, Sends, if_neg not_timeOk_nil]
  · next hl =>
    exact sends_scanLoop hmax halloc hprepare hfits l.length 0 true l _ le_rfl hl (.inl (plain_start hread))

/-- The groups whose commands are sent. -/
def SplitSetup.sent (p : SplitSetup) (l : List ChanScanParamSet) : List (List ChanScanParamSet) :=
  (markGroups true (p.groups false [] l)).takeWhile fun g => TimeOk g

theorem first_command (hmax : 0 < p.maxChanPerScan ∧ p.maxChanPerScan < 256) (halloc : ∀ k, p.alloc k = true)
    (hprepare : ∀ k, p.prepare k = true) (hread : mem.read 0 (chain front).length = chain front) :
    p.sent l = [] ∧ (scanChannelList p mem (chain front).length l).1 = [] ∨
      ∃ g gs cmd cmds, p.sent l = g :: gs ∧ (scanChannelList p mem (chain front).length l).1 = cmd :: cmds ∧
        Sent p front g cmd := by
  cases l with
  | nil =>
    refine .inl ⟨takeWhile_cons_of_neg ?_, rfl⟩
    simpa using timeOk_markGroup.not.mpr not_timeOk_nil
  | cons c rest =>
    have hturn := scanLoop_turn (s := ⟨mem.write (chain front).length (le16 tlvTypeChanlist.toNat),
      (chain front).length, 0, 0, none, 0⟩) hmax halloc hprepare rest.length 0 true c rest (.inl (plain_start hread))
    have hgroups := groups_eq (p := p) hmax.1 false [] (c :: rest)
    rw [nil_append, length_nil] at hgroups
    unfold SplitSetup.sent
    rw [hgroups, markGroups, scanChannelList, if_neg (cons_ne_nil c rest), length_cons]
    by_cases htime : TimeOk (takeGroup p (c :: rest) 0 false).1
    · rw [if_pos htime] at hturn
      obtain ⟨cmd, s', heq, hcmd, -⟩ := hturn
      rw [takeWhile_cons_of_pos (by simpa using timeOk_markGroup.mpr htime), heq]
      exact .inr ⟨_, _, cmd, _, rfl, rfl, hcmd⟩
    · rw [if_neg htime] at hturn
      rw [takeWhile_cons_of_neg (by simpa using timeOk_markGroup.not.mpr htime), hturn]
      exact .inl ⟨rfl, rfl⟩

theorem scanChannelList_succeeding (p : SplitSetup) (mem : Mem) (chanTlv : ℕ) (l : List ChanScanParamSet) :
    (scanChannelList p mem chanTlv l).1 <+: (scanChannelList p.succeeding mem chanTlv l).1 ∧
      (scanChannelList p mem chanTlv l = scanChannelList p.succeeding mem chanTlv l ∨
        (scanChannelList p mem chanTlv l).2 = false ∧
          (p.prepare (scanChannelList p mem chanTlv l).1.length = false ∨ ∃ j < p.allocations l, p.alloc j = false)) := by
  unfold scanChannelList
  split
  · exact ⟨prefix_rfl, .inl rfl⟩
  · have hrun := scanLoop_succeeding (p := p) l.length 0 true l
      ⟨mem.write chanTlv (le16 tlvTypeChanlist.toNat), chanTlv, 0, 0, none, 0⟩
    simpa only [Nat.zero_add] using hrun

/-- Where the run with nothing failing is as it should be, so is every run. -/
theorem Splits.of_succeeding (h : p.succeeding.Splits front l (scanChannelList p.succeeding mem (chain front).length l)) :
    p.Splits front l (scanChannelList p mem (chain front).length l) := by
  obtain ⟨hpre, hor⟩ := scanChannelList_succeeding p mem (chain front).length l
  obtain ⟨gs, hflat, hmarks, hchannels, hfront, hlength, hall⟩ := h.parts
  refine ⟨fun hfalse => ?_, gs, hflat, hmarks, (hpre.map _).trans hchannels, (hpre.map _).trans hfront, fun htrue => ?_,
    hall⟩
  · rcases hor with heq | ⟨-, hfail⟩
    · rw [heq] at hfalse
      rcases h.fails hfalse with hblocked | hno | ⟨k, -, hno⟩
      · exact .inl hblocked
      · cases hno
      · cases hno
    · exact .inr hfail
  · rcases hor with heq | ⟨hfalse, -⟩
    · rw [heq] at htrue ⊢
      exact hlength htrue
    · rw [htrue] at hfalse
      cases hfalse

/-- Whatever fails, the commands are as they should be exactly if the neighbours that are looked at make no difference, and
the rates for channel 14 do not reach into the records behind them. -/
theorem splits_iff (hmax : 0 < p.maxChanPerScan ∧ p.maxChanPerScan < 256)
    (hread : mem.read 0 (chain front).length = chain front)
    (hfits : (chain front).length ≤ maxScanCfgAlloc - chanTlvMaxSize) (hunmarked : ∀ c ∈ l, ¬c.Marked)
    (htime : ∀ c ∈ l, 0 < c.maxScanTime.toNat)
    (hlimit : ∀ g : List ChanScanParamSet, g.Sublist l → g.length ≤ p.maxChanPerScan →
      (g.map fun c => c.maxScanTime.toNat).sum ≤ maxTotalScanTime) :
    (∀ alloc prepare, (p.outcomes alloc prepare).Splits front l
        (scanChannelList (p.outcomes alloc prepare) mem (chain front).length l)) ↔
      p.Sound front 0 l ∧ ((∃ c ∈ l, ¬p.Blocks c ∧ p.CutsRates c) → CutKeepsRest front) := by
  have htimes : ∀ g ∈ p.succeeding.groups false [] l, TimeOk g ↔ g ≠ [] := by
    refine fun g hg => ⟨TimeOk.ne_nil, fun hne => ?_⟩
    have hsub : g.Sublist l := by
      have hflat := sublist_flatten_of_mem hg
      rw [SplitSetup.flatten_groups, nil_append] at hflat
      exact hflat.trans filter_sublist
    obtain ⟨d, hd⟩ := exists_mem_of_ne_nil g hne
    exact ⟨(htime d (hsub.subset hd)).trans_le (le_sum_of_mem (mem_map_of_mem hd)),
      hlimit g hsub (SplitSetup.length_groups_le (p := p.succeeding) hmax.1 false [] l (Nat.zero_le _) g hg)⟩
  have hsucceeds : p.succeeding.Splits front l (scanChannelList p.succeeding mem (chain front).length l) ↔
      p.Sound front 0 l ∧ ((∃ c ∈ l, ¬p.Blocks c ∧ p.CutsRates c) → CutKeepsRest front) := by
    have hsends := sends_scanChannelList (p := p.succeeding) (l := l) hmax (fun _ => rfl) (fun _ => rfl) hread hfits
    rw [← sound_succeeding]
    exact splits_iff_of_sends (p := p.succeeding) hmax (fun _ => rfl) (fun _ => rfl) hunmarked htimes hsends
  rw [← hsucceeds]
  exact ⟨fun h => h _ _, fun h alloc prepare => Splits.of_succeeding h⟩

/-- A scan of channels 2, 14 and 36, the second in Japan. -/
def japanScan : SplitSetup :=
  ⟨fun _ _ => false, 4, false, 0x40, true, false, false, fun _ => [], fun _ => true, fun _ => true⟩

/-- An entry for a channel of a band. -/
def entryOf (band number : UInt8) : ChanScanParamSet :=
  ⟨band, number, 0, 110, 110⟩

/-- Rates of 11b and 11g, and an empty record behind them. -/
def ratesFront : List Tlv :=
  [⟨tlvTypeRates, [0x82, 0x84, 0x8b, 0x96, 0x0c, 0x12], by decide⟩, ⟨0x102, [], by decide⟩]

theorem splits_japan : japanScan.succeeding.Splits ratesFront [entryOf 0 2, entryOf 0 14, entryOf 1 36]
    (scanChannelList japanScan.succeeding (Mem.write (fun _ => 0) 0 (chain ratesFront))
      (chain ratesFront).length [entryOf 0 2, entryOf 0 14, entryOf 1 36]) := by
  have hkeeps : CutKeepsRest ratesFront := by
    simp [CutKeepsRest, ratesFront, tlvTypeRates, supportedRatesB]
  have hsound : japanScan.Sound ratesFront 0 [entryOf 0 2, entryOf 0 14, entryOf 1 36] := by
    rw [SplitSetup.Sound, if_neg (by decide), if_pos (.inr (by decide)), SplitSetup.Sound, if_neg (by decide),
      if_pos (.inr (by decide)), SplitSetup.Sound, if_neg (by decide), if_pos (.inr (by decide))]
    exact ⟨.inr ⟨entryOf 0 14, by decide⟩, .inr ⟨entryOf 1 36, by decide⟩, .inl rfl, trivial⟩
  refine (splits_iff (by decide) (Mem.read_write _ 0 _) (by decide) (by simp [entryOf, ChanScanParamSet.Marked])
    (by simp [entryOf]) fun g hg _ => ?_).mpr ⟨hsound, fun _ => hkeeps⟩ (fun _ => true) fun _ => true
  have hsum : ([entryOf 0 2, entryOf 0 14, entryOf 1 36].map fun c => c.maxScanTime.toNat).sum ≤ maxTotalScanTime := by
    decide
  exact ((hg.map fun c => c.maxScanTime.toNat).sum_le_sum (by simp)).trans hsum

/-- A scan in which channel 12 is blocked. -/
def blockedScan : SplitSetup :=
  ⟨fun _ n => n == 12, 4, false, 0x10, true, false, false, fun _ => [], fun _ => true, fun _ => true⟩

/-- The entry that is looked at behind channel 2 is blocked, and the next one that is added has the other band. -/
theorem bands_mixed : ¬∀ alloc prepare, (blockedScan.outcomes alloc prepare).Splits []
    [entryOf 0 2, entryOf 0 12, entryOf 1 36]
    (scanChannelList (blockedScan.outcomes alloc prepare) (fun _ => 0) (chain []).length
      [entryOf 0 2, entryOf 0 12, entryOf 1 36]) := by
  intro h
  obtain ⟨gs, -, -, hchannels, -, -, hall⟩ := (h (fun _ => true) fun _ => true).parts
  have hsent : (scanChannelList blockedScan (fun _ => 0) 0 [entryOf 0 2, entryOf 0 12, entryOf 1 36]).1.map
      ScanCmd.channels = [[(entryOf 0 2).markFirst, entryOf 1 36].map ChanScanParamSet.octets] := by
    decide +kernel
  have hmem := hchannels.subset (hsent ▸ mem_singleton_self _)
  obtain ⟨g, hg, heq⟩ := mem_map.mp hmem
  obtain rfl := ChanScanParamSet.octets_injective.list_map heq
  exact absurd ((hall _ hg).2.2.1 _ mem_cons_self _ (mem_cons_of_mem _ mem_cons_self)) (by decide)

end Failing

end WlanDriver.Scan
