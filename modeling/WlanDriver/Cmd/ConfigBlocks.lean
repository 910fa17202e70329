import WlanDriver.Cmd.ConfigText

/-!
# Blocks of configuration text

What `wlan_process_hostcmd_cfg` stores from a block whose runs of digits have two digits each. A line of data gives its pairs
in order (`scanRaw_line`), but not every line is taken for what it is : behind a comment the next line is not looked at for
another, and `}` is looked for in front of a line only. A block is sent as it is written if and only if no comment with a
digit stands directly behind another, nothing but blanks and NULs stands in front of `}`, and no blank if the line before is
a comment (`Kept`, `Settled`).
-/

namespace WlanDriver.Cmd

open List

/-! ## Runs of digits -/

/-- The longest runs of digits of a line, in order. -/
def hexRuns (l : List UInt8) : List (List UInt8) :=
  (l.splitOnP fun c => !wlanIsxdigit c).filter (· ≠ [])

/-- The octets that the runs of a line stand for. -/
def linePairs (l : List UInt8) : List UInt8 :=
  (hexRuns l).map fun r => UInt8.ofNat (r.foldl (fun i c => i * 16 + wlanHexval c) 0)

@[simp] theorem hexRuns_nil : hexRuns [] = [] := by
  simp [hexRuns]

theorem hexRuns_cons_of_not {c : UInt8} (hx : ¬wlanIsxdigit c) (l : List UInt8) : hexRuns (c :: l) = hexRuns l := by
  simp [hexRuns, splitOnP_cons_eq_if_modifyHead, hx]

@[simp] theorem linePairs_nil : linePairs [] = [] := by
  simp [linePairs]

theorem linePairs_cons_of_not {c : UInt8} (hx : ¬wlanIsxdigit c) (l : List UInt8) : linePairs (c :: l) = linePairs l := by
  rw [linePairs, hexRuns_cons_of_not hx, linePairs]

/-- Behind a digit the first run goes on. -/
theorem exists_hexRuns_cons {c : UInt8} (hx : wlanIsxdigit c) (l : List UInt8) :
    ∃ r rs, l.splitOnP (fun c => !wlanIsxdigit c) = r :: rs ∧ hexRuns (c :: l) = (c :: r) :: rs.filter (· ≠ []) ∧
      hexRuns l = ([r].filter (· ≠ [])) ++ rs.filter (· ≠ []) := by
  obtain ⟨r, rs, hrs⟩ := exists_cons_of_ne_nil (splitOnP_ne_nil (fun c => !wlanIsxdigit c) l)
  refine ⟨r, rs, hrs, ?_, ?_⟩
  · simp [hexRuns, splitOnP_cons_eq_if_modifyHead, hx, hrs]
  · rw [hexRuns, hrs, ← filter_append, singleton_append]

/-- A run of two digits is taken off a line whose first run has no more and no less. -/
theorem exists_pair {c : UInt8} {l : List UInt8} (hx : wlanIsxdigit c) (hrun : ∀ r ∈ hexRuns (c :: l), r.length = 2) :
    ∃ d l', l = d :: l' ∧ wlanIsxdigit d ∧ (∀ e ∈ l'.head?, ¬wlanIsxdigit e) ∧
      hexRuns (c :: l) = [c, d] :: hexRuns l' := by
  obtain ⟨r, rs, hrs, hruns, -⟩ := exists_hexRuns_cons hx l
  obtain ⟨d, rfl⟩ : ∃ d, r = [d] := length_eq_one_iff.mp (by simpa using hrun (c :: r) (by simp [hruns]))
  cases l with
  | nil => simp at hrs
  | cons d' l' =>
    rw [splitOnP_cons_eq_if_modifyHead] at hrs
    split at hrs
    next => simp at hrs
    next hd =>
      obtain ⟨r', rs', hrs'⟩ := exists_cons_of_ne_nil (splitOnP_ne_nil (fun c => !wlanIsxdigit c) l')
      rw [hrs', modifyHead_cons] at hrs
      obtain ⟨⟨rfl, rfl⟩, rfl⟩ : (d' = d ∧ r' = []) ∧ rs' = rs := by simpa using hrs
      refine ⟨d', l', rfl, by simpa using hd, ?_, ?_⟩
      · intro e he hxe
        obtain ⟨t, rfl⟩ := head?_eq_some_iff.mp he
        obtain ⟨r'', rs'', h2⟩ := exists_cons_of_ne_nil (splitOnP_ne_nil (fun c => !wlanIsxdigit c) t)
        simp [splitOnP_cons_eq_if_modifyHead, hxe, h2] at hrs'
      · rw [hruns, hexRuns, hrs']
        simp

/-- However long they are, two characters from a digit on hold no more than one run of their own. -/
theorem length_hexRuns_pair {c : UInt8} (hx : wlanIsxdigit c) (d : UInt8) (l : List UInt8) :
    (hexRuns (c :: d :: l)).length ≤ (hexRuns l).length + 1 := by
  obtain ⟨r, rs, hrs, hruns, hrest⟩ := exists_hexRuns_cons hx (d :: l)
  obtain hd | hd := em (wlanIsxdigit d)
  · obtain ⟨r', rs', hrs', -, hrest'⟩ := exists_hexRuns_cons hd l
    rw [splitOnP_cons_eq_if_modifyHead, if_neg (by simp [hd]), hrs', modifyHead_cons] at hrs
    obtain ⟨-, rfl⟩ := List.cons.inj hrs
    rw [hruns, hrest']
    simp
  · rw [hexRuns_cons_of_not hd] at hrest
    rw [hruns, hrest]
    simp

theorem wlanHexval_le (c : UInt8) : wlanHexval c ≤ 15 := by
  simp only [wlanHexval, UInt8.le_iff_toNat_le, UInt8.reduceToNat]
  split_ifs <;> omega

theorem wlanAtox_pair {c d e : UInt8} (hc : wlanIsxdigit c) (hd : wlanIsxdigit d) (he : ¬wlanIsxdigit e) (t : List UInt8) :
    wlanAtox 0 (c :: d :: e :: t) = .ok (wlanHexval c * 16 + wlanHexval d) := by
  have hc' := wlanHexval_le c
  have hd' := wlanHexval_le d
  simp only [wlanAtox, hc, hd, he, if_true, if_false, Bool.false_eq_true]
  rw [Nat.mod_eq_of_lt (by omega), Nat.mod_eq_of_lt (by omega), Nat.zero_mul, Nat.zero_add]

/-- A line of data of which each run has two digits gives their octets, as far as there is room. -/
theorem scanRaw_line {reserved : ℕ} {l : List UInt8} (hnl : newline ∉ l) (hrun : ∀ r ∈ hexRuns l, r.length = 2)
    (more stored : List UInt8) (hroom : reserved + stored.length ≤ sizeOfCmdBuffer) :
    scanRaw reserved (l ++ newline :: more) stored =
      if reserved + (stored ++ linePairs l).length ≤ sizeOfCmdBuffer then .ok (newline :: more, stored ++ linePairs l)
      else .error .overflow := by
  induction hn : l.length using Nat.strong_induction_on generalizing l stored with
  | _ n ih =>
    subst hn
    cases l with
    | nil => simp [hroom]
    | cons c l =>
      have hc : c ≠ newline := fun hc => hnl (by simp [hc])
      obtain hx | hx := em (wlanIsxdigit c)
      · obtain ⟨d, l', rfl, hd, hhead, hruns⟩ := exists_pair hx hrun
        have hnl' : newline ∉ l' := fun h => hnl (by simp [h])
        obtain ⟨e, t, ht, he⟩ : ∃ e t, l' ++ newline :: more = e :: t ∧ ¬wlanIsxdigit e := by
          cases l' with
          | nil => exact ⟨newline, more, rfl, not_wlanIsxdigit_newline⟩
          | cons e t => exact ⟨e, t ++ newline :: more, rfl, hhead e rfl⟩
        have hv : wlanAtox 0 (c :: d :: (l' ++ newline :: more)) = .ok (wlanHexval c * 16 + wlanHexval d) := by
          rw [ht]
          exact wlanAtox_pair hx hd he t
        have hpairs : linePairs (c :: d :: l') = UInt8.ofNat (wlanHexval c * 16 + wlanHexval d) :: linePairs l' := by
          simp [linePairs, hruns]
        rw [cons_append, cons_append, scanRaw_pair hx hv, hpairs]
        split
        next hfull =>
          rw [if_neg]
          simp
          omega
        next hfull =>
          have hrun' : ∀ r ∈ hexRuns l', r.length = 2 := fun r hr => hrun r (by simp [hruns, hr])
          have hlt : l'.length < (c :: d :: l').length := by
            simp only [length_cons]
            omega
          have hroom' : reserved + (stored ++ [UInt8.ofNat (wlanHexval c * 16 + wlanHexval d)]).length ≤ sizeOfCmdBuffer := by
            rw [length_append, length_singleton]
            omega
          rw [ih _ hlt hnl' hrun' _ hroom' rfl, append_assoc, singleton_append]
      · rw [cons_append, scanRaw_skip hc hx,
          ih l.length (by simp) (fun h => hnl (by simp [h])) (by rwa [hexRuns_cons_of_not hx] at hrun) stored hroom rfl]
        rw [linePairs_cons_of_not hx]

/-! ## Blocks -/

/-- The text of a block, from a line on and up to what is behind `}`. -/
def blockText : List (List UInt8) → List UInt8 → List UInt8 → List UInt8
  | [], last, post => last ++ closeBrace :: post
  | l :: ls, last, post => l ++ newline :: blockText ls last post

/-- A comment has blanks and NULs in front of it, or nothing. -/
def isComment (l : List UInt8) : Bool :=
  (l.dropWhile fun c => isBlank c || c = 0).head? = some hash

/-- A line of a block. In a line of data each run has two digits, and there is no `}`. -/
structure BlockLine (l : List UInt8) : Prop where
  newline_notMem : newline ∉ l
  brace_notMem : isComment l = false → closeBrace ∉ l
  run : isComment l = false → ∀ r ∈ hexRuns l, r.length = 2

structure BlockLines (ls : List (List UInt8)) (last : List UInt8) : Prop where
  line : ∀ l ∈ ls, BlockLine l
  lastLine : BlockLine last
  lastData : isComment last = false

/-- The octets of the lines of data. -/
def dataPairs (ls : List (List UInt8)) : List UInt8 :=
  (ls.filter fun l => !isComment l).flatMap linePairs

/-- No comment with a digit is directly behind another, and `}` stands in front of its line. A NUL in front is a line of its
own, and `behind` says that the line before is passed as a comment. -/
def Kept : Bool → List (List UInt8) → List UInt8 → Prop
  | behind, [], last => (∀ c ∈ last, isBlank c ∨ c = 0) ∧ (behind → ∀ c ∈ last.head?, ¬isBlank c)
  | behind, l :: ls, last =>
    if isComment l then
      if behind ∧ l.head? ≠ some 0 then hexRuns l = [] ∧ Kept false ls last
      else Kept true ls last
    else Kept false ls last

/-- A turn of the loop. -/
def CfgState.Step (ty : CfgType) (s s' : CfgState) : Prop :=
  s.rest ≠ [] ∧ s.turn ty = .ok s'

/-- The block that is open is sent with the octets given, and the loop goes on behind it. -/
def CfgState.Closes (ty : CfgType) (s : CfgState) (post octets : List UInt8) : Prop :=
  ∃ s' c, Relation.ReflTransGen (CfgState.Step ty) s s' ∧ s'.rest = post ∧ s'.block = none ∧ s'.sent = s.sent ++ [c] ∧
    c.octets = octets

namespace CfgState

variable {ty : CfgType} {s s' : CfgState} {post octets : List UInt8}

theorem step_iff : s.Step ty s' ↔ s.TurnTo ty s' := by
  refine ⟨fun h => turn_eq_ok_iff.mp h.2, fun h => ⟨?_, turn_eq_ok_iff.mpr h⟩⟩
  cases h with
  | lineEnd hs => exact hs.ne_nil
  | close hs => exact hs.ne_nil
  | opens hs => exact hs.ne_nil
  | comment hs => exact hs.ne_nil
  | data hs => exact hs.ne_nil

theorem Step.eq {s'' : CfgState} (h : s.Step ty s') (h' : s.Step ty s'') : s' = s'' :=
  Except.ok.inj (h.2.symm.trans h'.2)

theorem Step.sent_prefix (h : s.Step ty s') : s.sent <+: s'.sent := by
  cases step_iff.mp h with
  | close => exact prefix_append _ _
  | lineEnd => exact prefix_rfl
  | opens => exact prefix_rfl
  | comment => exact prefix_rfl
  | data => exact prefix_rfl

theorem sent_prefix_of_steps (h : Relation.ReflTransGen (Step ty) s s') : s.sent <+: s'.sent := by
  induction h with
  | refl => exact prefix_rfl
  | tail _ h ih => exact ih.trans h.sent_prefix

/-- A block that is open is closed by the turns after the next. -/
theorem closes_of_step (h : s.Step ty s') (hsent : s'.sent = s.sent) (hblk : s.block ≠ none) :
    s.Closes ty post octets ↔ s'.Closes ty post octets := by
  constructor
  · rintro ⟨e, c, hsteps, hrest, hnone, hc, ho⟩
    obtain rfl | ⟨s'', hstep, hsteps⟩ := hsteps.cases_head
    · exact absurd hnone hblk
    · obtain rfl := h.eq hstep
      exact ⟨e, c, hsteps, hrest, hnone, by rw [hc, hsent], ho⟩
  · rintro ⟨e, c, hsteps, hrest, hnone, hc, ho⟩
    exact ⟨e, c, hsteps.head h, hrest, hnone, by rw [hc, hsent], ho⟩

theorem not_closes_of_error {f : CfgFault} (h : s.turn ty = .error f) (hblk : s.block ≠ none) :
    ¬s.Closes ty post octets := by
  rintro ⟨e, c, hsteps, -, hnone, -⟩
  obtain rfl | ⟨s'', hstep, -⟩ := hsteps.cases_head
  · exact hblk hnone
  · rw [hstep.2] at h
    cases h

/-- At `}` the octets are those that are stored. -/
theorem closes_iff_of_brace {b : CfgBlock} (hs : LineStart s.rest (closeBrace :: post)) (hblk : s.block = some b) :
    s.Closes ty post octets ↔ octets = b.stored := by
  have hstep : s.Step ty (s.closeBlock ty post) := step_iff.mpr (.close hs)
  have hoctets : (hostcmdOf ty s.buf (s.block.getD ⟨false, []⟩)).octets = b.stored := by
    rw [hblk, Option.getD_some, hostcmdOf]
    split <;> rfl
  constructor
  · rintro ⟨e, c, hsteps, -, hnone, hc, rfl⟩
    obtain rfl | ⟨s'', hstep', hsteps⟩ := hsteps.cases_head
    · rw [hnone] at hblk
      cases hblk
    · obtain rfl := hstep.eq hstep'
      have hpre := sent_prefix_of_steps hsteps
      rw [hc, closeBlock] at hpre
      have heq := append_cancel_left (hpre.eq_of_length (by simp))
      rw [← hoctets, singleton_inj.mp heq]
  · rintro rfl
    exact ⟨_, _, .single hstep, rfl, rfl, rfl, hoctets⟩

theorem scanRaw_length_le {reserved : ℕ} {t stored u stored' : List UInt8}
    (h : scanRaw reserved t stored = .ok (u, stored')) : u.length ≤ t.length := by
  fun_induction scanRaw reserved t stored with
  | case1 => simp at h
  | case2 => simp_all
  | case3 => simp at h
  | case4 => simp_all
  | case5 => simp at h
  | case6 => simp at h
  | case7 _ _ _ _ _ _ _ _ _ ih => exact (ih h).trans (by simp; omega)
  | case8 _ _ _ _ _ _ ih => exact (ih h).trans (by simp)

/-- The text gets no longer, and shorter where a block is closed. -/
theorem Step.length_le (h : s.Step ty s') :
    s'.rest.length ≤ s.rest.length ∧ (s.block ≠ none → s'.block = none → s'.rest.length < s.rest.length) := by
  cases step_iff.mp h with
  | @lineEnd t hs => exact ⟨(by simp : t.tail.length ≤ t.length).trans hs.length_le, fun hb hn => absurd hn hb⟩
  | close hs => exact ⟨(Nat.le_succ _).trans hs.length_le, fun _ _ => hs.length_le⟩
  | opens hs he hb hblk ho =>
    refine ⟨le_trans ?_ hs.length_le, fun hb => absurd hblk hb⟩
    cases ho
    simp only [openBlock, length_append, length_cons]
    omega
  | comment hs => exact ⟨hs.length_le, fun hb hn => absurd hn hb⟩
  | data hs he hb hblk hd => exact ⟨(scanRaw_length_le hd).trans hs.length_le, fun _ hn => by cases hn⟩

/-- Where `}` is passed, the block is not closed there any more. -/
theorem not_closes_of_length_le (hblk : s.block ≠ none) (hle : s.rest.length ≤ post.length) :
    ¬s.Closes ty post octets := by
  rintro ⟨e, c, hsteps, hrest, hnone, -⟩
  have hpassed : (e.block ≠ none ∧ e.rest.length ≤ post.length) ∨ e.rest.length < post.length := by
    clear hrest hnone
    induction hsteps with
    | refl => exact .inl ⟨hblk, hle⟩
    | @tail a b _ hstep ih =>
      obtain ⟨hshort, hless⟩ := hstep.length_le
      obtain ⟨ha, hle⟩ | hlt := ih
      · obtain hb | hb := em (b.block = none)
        · exact .inr ((hless ha hb).trans_le hle)
        · exact .inl ⟨hb, hshort.trans hle⟩
      · exact .inr (hshort.trans_lt hlt)
  obtain ⟨he, -⟩ | hlt := hpassed
  · exact he hnone
  · rw [hrest] at hlt
    exact hlt.ne rfl

end CfgState

/-! ## What is scanned -/

theorem length_blockText_le (last post : List UInt8) {ls ls' : List (List UInt8)} (h : ls' <:+ ls) :
    (blockText ls' last post).length ≤ (blockText ls last post).length := by
  obtain ⟨before, rfl⟩ := h
  induction before with
  | nil => exact le_rfl
  | cons l before ih =>
    refine ih.trans ?_
    simp only [cons_append, blockText, length_append, length_cons]
    omega

theorem length_hexRuns_cons {c : UInt8} (hx : wlanIsxdigit c) (l : List UInt8) :
    (hexRuns (c :: l)).length ≤ (hexRuns l).length + 1 := by
  obtain ⟨r, rs, -, hruns, hrest⟩ := exists_hexRuns_cons hx l
  rw [hruns, hrest]
  simp

theorem dataPairs_cons (l : List UInt8) (ls : List (List UInt8)) :
    dataPairs (l :: ls) = (if isComment l then [] else linePairs l) ++ dataPairs ls := by
  unfold dataPairs
  cases h : isComment l <;> simp [h]

theorem dataPairs_append (ls ls' : List (List UInt8)) : dataPairs (ls ++ ls') = dataPairs ls ++ dataPairs ls' := by
  simp [dataPairs]

theorem length_dataPairs_cons_le (l : List UInt8) (ls : List (List UInt8)) :
    (dataPairs (l :: ls)).length ≤ (hexRuns l).length + (dataPairs ls).length := by
  rw [dataPairs_cons, length_append]
  split
  next => simp
  next => simp [linePairs]

/-- A scan that reaches the line of `}` goes past it. -/
theorem Scans.length_le_of_brace {x post u : List UInt8} {n : ℕ} (h : Scans (x ++ closeBrace :: post) n u)
    (hx : newline ∉ x) : u.length ≤ post.length := by
  generalize ht : x ++ closeBrace :: post = t at h
  induction h generalizing x with
  | stop t =>
    cases x with
    | nil => exact absurd (List.cons.inj ht).1 (by decide)
    | cons c x => exact absurd (List.cons.inj ht).1 fun hc => hx (by simp [hc])
  | skip hc hd h ih =>
    cases x with
    | nil =>
      obtain ⟨-, rfl⟩ := List.cons.inj ht
      exact h.length_le
    | cons c x => exact ih (fun hm => hx (by simp [hm])) (List.cons.inj ht).2
  | pair hd h ih =>
    cases x with
    | nil =>
      rw [← (List.cons.inj ht).1] at hd
      exact absurd hd (by decide)
    | cons c x =>
      have ht := (List.cons.inj ht).2
      cases x with
      | nil =>
        obtain ⟨-, rfl⟩ := List.cons.inj ht
        exact h.length_le
      | cons d x => exact ih (fun hm => hx (by simp [hm])) (List.cons.inj ht).2

/-- A scan from anywhere in a line stores no less than the lines that it passes stand for. -/
theorem Scans.block {l last post u : List UInt8} {ls : List (List UInt8)} {n : ℕ}
    (h : Scans (l ++ newline :: blockText ls last post) n u) (hl : newline ∉ l) (hb : BlockLines ls last) :
    u.length ≤ post.length ∨ ∃ ls', u = newline :: blockText ls' last post ∧ ls' <:+ ls ∧
      (hexRuns l).length + (dataPairs ls).length ≤ n + (dataPairs ls').length := by
  generalize ht : l ++ newline :: blockText ls last post = t at h
  induction h generalizing l ls with
  | stop t =>
    cases l with
    | nil =>
      obtain ⟨-, rfl⟩ := List.cons.inj ht
      exact .inr ⟨ls, rfl, suffix_rfl, by simp⟩
    | cons c l => exact absurd (List.cons.inj ht).1 fun hc => hl (by simp [hc])
  | skip hc hd h ih =>
    cases l with
    | nil => exact absurd (List.cons.inj ht).1.symm hc
    | cons c l =>
      obtain ⟨rfl, ht'⟩ := List.cons.inj ht
      rw [hexRuns_cons_of_not hd]
      exact ih (fun hm => hl (by simp [hm])) hb ht'
  | pair hd h ih =>
    cases l with
    | nil =>
      rw [← (List.cons.inj ht).1] at hd
      exact absurd hd not_wlanIsxdigit_newline
    | cons c l =>
      obtain ⟨rfl, ht'⟩ := List.cons.inj ht
      cases l with
      | nil =>
        -- the end of the line is jumped over, and the next line is data whatever is in it
        have ht'' := (List.cons.inj ht').2
        have hone := length_hexRuns_cons hd []
        rw [hexRuns_nil, length_nil] at hone
        cases ls with
        | nil =>
          rw [← ht''] at h
          exact .inl (h.length_le_of_brace hb.lastLine.newline_notMem)
        | cons m ls =>
          have hm := length_dataPairs_cons_le m ls
          have hb' : BlockLines ls last := ⟨fun x hx => hb.line x (by simp [hx]), hb.lastLine, hb.lastData⟩
          obtain hlen | ⟨ls', rfl, hsuf, hle⟩ := ih (hb.line m (by simp)).newline_notMem hb' ht''
          · exact .inl hlen
          · exact .inr ⟨ls', rfl, hsuf.trans (suffix_cons m ls), by omega⟩
      | cons d l =>
        obtain ⟨rfl, ht''⟩ := List.cons.inj ht'
        have htwo := length_hexRuns_pair hd d l
        obtain hlen | ⟨ls', rfl, hsuf, hle⟩ := ih (fun hm => hl (by simp [hm])) hb ht''
        · exact .inl hlen
        · exact .inr ⟨ls', rfl, hsuf, by omega⟩

/-! ## A block as a whole -/

/-- What a block holds when it is closed, with the lines that are left. -/
def CfgBlock.octetsOf (b : CfgBlock) (ls : List (List UInt8)) (last : List UInt8) : List UInt8 :=
  b.stored ++ dataPairs (ls ++ [last])

/-- Whether what is left of a block is closed as it is written; where it is not, there are too many octets. -/
structure Settled (ty : CfgType) (post : List UInt8) (s : CfgState) (b : CfgBlock) (behind : Bool)
    (ls : List (List UInt8)) (last : List UInt8) : Prop where
  closes : Kept behind ls last → b.reserved + (b.octetsOf ls last).length ≤ sizeOfCmdBuffer →
    s.Closes ty post (b.octetsOf ls last)
  octets : ∀ o, s.Closes ty post o →
    (Kept behind ls last ∧ b.reserved + (b.octetsOf ls last).length ≤ sizeOfCmdBuffer ∧ o = b.octetsOf ls last) ∨
      (b.octetsOf ls last).length < o.length

section Settled

variable {ty : CfgType} {post : List UInt8} {s s' : CfgState} {b b' : CfgBlock} {behind behind' : Bool}
  {ls ls' : List (List UInt8)} {l last last' : List UInt8}

theorem Settled.congr (h : Settled ty post s b' behind' ls' last') (hkept : Kept behind ls last ↔ Kept behind' ls' last')
    (hres : b'.reserved = b.reserved) (hoct : b'.octetsOf ls' last' = b.octetsOf ls last) :
    Settled ty post s b behind ls last := by
  constructor
  · rw [hkept, ← hres, ← hoct]
    exact h.closes
  · rw [hkept, ← hres, ← hoct]
    exact h.octets

theorem Settled.of_step (h : Settled ty post s' b behind ls last) (hstep : s.Step ty s') (hsent : s'.sent = s.sent)
    (hblk : s.block ≠ none) : Settled ty post s b behind ls last where
  closes hk hr := (CfgState.closes_of_step hstep hsent hblk).mpr (h.closes hk hr)
  octets o ho := h.octets o ((CfgState.closes_of_step hstep hsent hblk).mp ho)

theorem Settled.of_not_closes (h : ∀ o, ¬s.Closes ty post o)
    (hk : Kept behind ls last → ¬b.reserved + (b.octetsOf ls last).length ≤ sizeOfCmdBuffer) :
    Settled ty post s b behind ls last where
  closes hkept hr := absurd hr (hk hkept)
  octets o ho := absurd ho (h o)

/-- A line of which nothing is stored, and what the loop comes to behind it. -/
theorem Settled.of_lineEnd {t : List UInt8} (hs : LineStart s.rest t) (he : LineEnd t) (hblk : s.block = some b)
    (h : Settled ty post { s with rest := t.tail } b behind' ls' last')
    (hkept : Kept behind ls last ↔ Kept behind' ls' last')
    (hpairs : dataPairs (ls' ++ [last']) = dataPairs (ls ++ [last])) : Settled ty post s b behind ls last := by
  have hstep : s.Step ty { s with rest := t.tail } := CfgState.step_iff.mpr (.lineEnd hs he)
  refine Settled.of_step (h.congr hkept rfl ?_) hstep rfl (by simp [hblk])
  rw [CfgBlock.octetsOf, hpairs, CfgBlock.octetsOf]

/-- The loop scans what is left into the block. -/
structure Scanning (s : CfgState) (b : CfgBlock) (t : List UInt8) : Prop where
  start : LineStart s.rest t
  notEnd : ¬LineEnd t
  notBrace : t.head? ≠ some closeBrace
  block : s.block = some b

namespace Scanning

variable {t u stored o : List UInt8}

theorem step (h : Scanning s b t) (hscan : scanRaw b.reserved t b.stored = .ok (u, stored)) :
    s.Step ty { s with rest := u, block := some { b with stored := stored } } :=
  CfgState.step_iff.mpr (.data h.start h.notEnd h.notBrace h.block hscan)

theorem closes_iff (h : Scanning s b t) (hscan : scanRaw b.reserved t b.stored = .ok (u, stored)) :
    s.Closes ty post o ↔ CfgState.Closes ty { s with rest := u, block := some { b with stored := stored } } post o :=
  CfgState.closes_of_step (h.step hscan) rfl (by simp [h.block])

theorem not_closes_of_error {f : CfgFault} {c : UInt8} (h : Scanning s b t) (hm : c ∈ t) (hc : c ≠ carriageReturn)
    (hscan : scanRaw b.reserved t b.stored = .error f) : ¬s.Closes ty post o := by
  have hturn : s.turn ty = .error f := by
    simp only [CfgState.turn, lineStart_eq_ok_iff.mpr h.start, isLineEnd_of_mem h.notEnd hm hc, h.notBrace, if_false,
      h.block, hscan]
  exact CfgState.not_closes_of_error hturn (by simp [h.block])

end Scanning

/-! Parts of a line. -/

theorem isComment_nul (l : List UInt8) : isComment (0 :: l) = isComment l := by
  simp [isComment]

theorem not_wlanIsxdigit_nul : ¬wlanIsxdigit 0 := by
  decide

theorem not_wlanIsxdigit_of_isBlank {c : UInt8} (h : isBlank c) : ¬wlanIsxdigit c := by
  obtain rfl | rfl : c = 32 ∨ c = 9 := by simpa [isBlank] using h
  · decide
  · decide

theorem isComment_append {bl : List UInt8} (hbl : ∀ c ∈ bl, isBlank c) (d : List UInt8) : isComment (bl ++ d) = isComment d := by
  rw [isComment, dropWhile_append_of_pos (fun c hc => by simp [hbl c hc]), isComment]

theorem hexRuns_append {bl : List UInt8} (hbl : ∀ c ∈ bl, isBlank c) (d : List UInt8) : hexRuns (bl ++ d) = hexRuns d := by
  induction bl with
  | nil => rfl
  | cons c bl ih =>
    rw [cons_append, hexRuns_cons_of_not (not_wlanIsxdigit_of_isBlank (hbl c (by simp))),
      ih fun e he => hbl e (by simp [he])]

/-- A line that starts with anything but a blank, a NUL or `#` is data. -/
theorem isComment_cons {c : UInt8} (hblank : ¬isBlank c) (h0 : c ≠ 0) (hh : c ≠ hash) (l : List UInt8) :
    isComment (c :: l) = false := by
  simp [isComment, hblank, h0, hh]

theorem dataPairs_congr {d : List UInt8} (hc : isComment l = isComment d) (hr : hexRuns l = hexRuns d)
    (ls : List (List UInt8)) : dataPairs (l :: ls) = dataPairs (d :: ls) := by
  rw [dataPairs_cons, dataPairs_cons, hc, linePairs, hr, linePairs]

theorem dataPairs_nil_cons (ls : List (List UInt8)) : dataPairs ([] :: ls) = dataPairs ls := by
  simp [dataPairs_cons]

theorem BlockLine.of_suffix {d : List UInt8} (h : BlockLine l) (hsub : ∀ c ∈ d, c ∈ l) (hc : isComment l = isComment d)
    (hr : hexRuns l = hexRuns d) : BlockLine d where
  newline_notMem hm := h.newline_notMem (hsub _ hm)
  brace_notMem hd hm := h.brace_notMem (hc.trans hd) (hsub _ hm)
  run hd := by
    rw [← hr]
    exact h.run (hc.trans hd)

theorem blockLine_nil : BlockLine [] where
  newline_notMem := not_mem_nil
  brace_notMem _ := not_mem_nil
  run _ := by simp

theorem BlockLines.tail (h : BlockLines (l :: ls) last) : BlockLines ls last :=
  ⟨fun m hm => h.line m (by simp [hm]), h.lastLine, h.lastData⟩

theorem BlockLines.cons (h : BlockLines ls last) (hl : BlockLine l) : BlockLines (l :: ls) last :=
  ⟨forall_mem_cons.mpr ⟨hl, h.line⟩, h.lastLine, h.lastData⟩

/-! What is left is read from the start of a line, or directly behind a comment. -/

/-- At the start of a line. -/
def AtLine (ty : CfgType) (post : List UInt8) (ls : List (List UInt8)) (last : List UInt8) : Prop :=
  ∀ s b, s.rest = blockText ls last post → s.block = some b → b.used ≤ sizeOfCmdBuffer →
    Settled ty post s b false ls last

/-- At what is read of a line, without a look at what it starts with. -/
def AtText (ty : CfgType) (post : List UInt8) (ls : List (List UInt8)) (last : List UInt8) : Prop :=
  ∀ s b, LineStart s.rest (blockText ls last post) → s.block = some b → b.used ≤ sizeOfCmdBuffer →
    Settled ty post s b true ls last

/-- The line of `}`. -/
theorem atText_last (hb : BlockLines [] last)
    (ih : ∀ last', BlockLines [] last' → last'.length < last.length → AtLine ty post [] last') :
    AtText ty post [] last := by
  intro s b hs hblk hused
  cases last with
  | nil =>
    have hoct : b.octetsOf [] [] = b.stored := by simp [CfgBlock.octetsOf, dataPairs]
    have hcl : ∀ o, s.Closes ty post o ↔ o = b.stored := fun o => CfgState.closes_iff_of_brace hs hblk
    refine ⟨fun _ _ => ?_, fun o ho => .inl ⟨⟨by simp, by simp⟩, ?_, ?_⟩⟩
    · rw [hoct, hcl]
    · rw [hoct]
      exact hused
    · rw [hoct]
      exact (hcl o).mp ho
  | cons c last =>
    obtain rfl | h0 := em (c = 0)
    · -- a NUL is a line of its own
      have hruns := hexRuns_cons_of_not not_wlanIsxdigit_nul last
      have hlast : BlockLine last := hb.lastLine.of_suffix (fun _ h => mem_cons_of_mem _ h) (isComment_nul last) hruns
      have hb' : BlockLines [] last := ⟨by simp, hlast, (isComment_nul last).symm.trans hb.lastData⟩
      refine .of_lineEnd hs (.nul _) hblk (ih last hb' (by simp) _ b rfl hblk hused) ?_ ?_
      · have hz : isBlank 0 = false := by decide
        simp [Kept, hz]
      · simp only [nil_append]
        rw [dataPairs_congr (isComment_nul last) hruns]
    · refine .of_not_closes (fun o => ?_) fun hk => ?_
      · have hnl : newline ∉ c :: last := hb.lastLine.newline_notMem
        have hbrace : closeBrace ∉ c :: last := hb.lastLine.brace_notMem hb.lastData
        have hscanning : Scanning s b (blockText [] (c :: last) post) := by
          refine ⟨hs, fun he => ?_, ?_, hblk⟩
          · cases last with
            | nil => cases he <;> simp_all
            | cons d last => cases he <;> simp_all
          · simpa [blockText] using fun hc : c = closeBrace => hbrace (by simp [hc])
        cases hscan : scanRaw b.reserved (blockText [] (c :: last) post) b.stored with
        | error f =>
          have hm : closeBrace ∈ blockText [] (c :: last) post := by simp [blockText]
          exact hscanning.not_closes_of_error hm (by decide) hscan
        | ok p =>
          obtain ⟨n, hn, -⟩ := scans_of_scanRaw hscan hused
          rw [hscanning.closes_iff hscan]
          exact CfgState.not_closes_of_length_le (by simp) (hn.length_le_of_brace hnl)
      · obtain ⟨hall, hfirst⟩ := hk
        obtain hbl | hz := hall c (by simp)
        · exact absurd hbl (hfirst rfl c rfl)
        · exact absurd hz h0

/-! A line with another behind it. -/

theorem kept_nil_cons : Kept behind ([] :: ls) last ↔ Kept false ls last := by
  rw [Kept, if_neg (by decide)]

/-- A line of which the pairs are stored, and nothing else. -/
theorem Scanning.settled_of_pairs (h : Scanning s b (blockText (l :: ls) last post)) (hused : b.used ≤ sizeOfCmdBuffer)
    (hnl : newline ∉ l) (hrun : ∀ r ∈ hexRuns l, r.length = 2) (hnext : AtLine ty post ([] :: ls) last)
    (hkept : Kept behind (l :: ls) last ↔ Kept false ls last)
    (hpairs : dataPairs (l :: (ls ++ [last])) = linePairs l ++ dataPairs (ls ++ [last])) :
    Settled ty post s b behind (l :: ls) last := by
  have hscan := scanRaw_line hnl hrun (blockText ls last post) b.stored hused
  have hoct : b.octetsOf (l :: ls) last = b.stored ++ linePairs l ++ dataPairs (ls ++ [last]) := by
    rw [CfgBlock.octetsOf, cons_append, hpairs, append_assoc]
  split at hscan
  next hroom =>
    have hsettled := hnext
      { s with rest := newline :: blockText ls last post, block := some { b with stored := b.stored ++ linePairs l } }
      _ rfl rfl hroom
    refine Settled.of_step (hsettled.congr (hkept.trans kept_nil_cons.symm) rfl ?_) (h.step hscan) rfl (by simp [h.block])
    rw [hoct, CfgBlock.octetsOf, cons_append, dataPairs_nil_cons]
  next hfull =>
    have hm : newline ∈ blockText (l :: ls) last post := by simp [blockText]
    refine .of_not_closes (fun o => h.not_closes_of_error hm (by decide) hscan) fun _ hr => hfull ?_
    rw [hoct, length_append] at hr
    omega

/-- A comment that gives octets : no line behind it takes them back. -/
theorem Scanning.settled_of_comment (h : Scanning s b (blockText (l :: ls) last post)) (hused : b.used ≤ sizeOfCmdBuffer)
    (hnl : newline ∉ l) (hb : BlockLines ls last)
    (hnext : ∀ ls', ls' <:+ ls → BlockLines ls' last → AtLine ty post ([] :: ls') last) (hruns : hexRuns l ≠ [])
    (hkept : ¬Kept behind (l :: ls) last) (hpairs : dataPairs (l :: (ls ++ [last])) = dataPairs (ls ++ [last])) :
    Settled ty post s b behind (l :: ls) last := by
  cases hscan : scanRaw b.reserved (blockText (l :: ls) last post) b.stored with
  | error f =>
    have hm : newline ∈ blockText (l :: ls) last post := by simp [blockText]
    exact .of_not_closes (fun o => h.not_closes_of_error hm (by decide) hscan) fun hk => absurd hk hkept
  | ok p =>
    obtain ⟨u, stored⟩ := p
    obtain ⟨n, hn, hlen, hroom⟩ := scans_of_scanRaw hscan hused
    obtain hpast | ⟨ls', rfl, hsuf, hle⟩ := hn.block hnl hb
    · refine .of_not_closes (fun o => ?_) fun hk => absurd hk hkept
      rw [h.closes_iff hscan]
      exact CfgState.not_closes_of_length_le (by simp) hpast
    · have hb' : BlockLines ls' last := ⟨fun m hm => hb.line m (hsuf.subset hm), hb.lastLine, hb.lastData⟩
      have hsettled := hnext ls' hsuf hb'
        { s with rest := newline :: blockText ls' last post, block := some { b with stored := stored } } _ rfl rfl hroom
      have hmore : (b.octetsOf (l :: ls) last).length <
          (CfgBlock.octetsOf { b with stored := stored } ([] :: ls') last).length := by
        have := length_pos_of_ne_nil hruns
        simp only [CfgBlock.octetsOf, cons_append, hpairs, dataPairs_nil_cons, length_append, hlen,
          dataPairs_append]
        omega
      refine ⟨fun hk => absurd hk hkept, fun o ho => .inr ?_⟩
      rw [h.closes_iff hscan] at ho
      obtain ⟨-, -, rfl⟩ | hlong := hsettled.octets o ho
      · exact hmore
      · exact hmore.trans hlong

theorem atText_line (hb : BlockLines (l :: ls) last)
    (ih : ∀ ls', BlockLines ls' last → (blockText ls' last post).length < (blockText (l :: ls) last post).length →
      AtLine ty post ls' last) : AtText ty post (l :: ls) last := by
  intro s b hs hblk hused
  have hl : BlockLine l := hb.line l (by simp)
  have hnil : BlockLines ([] :: ls) last := hb.tail.cons blockLine_nil
  cases l with
  | nil =>
    refine .of_lineEnd hs (.newline _) hblk (ih ls hb.tail (by simp [blockText]) _ b rfl hblk hused) kept_nil_cons ?_
    rw [cons_append, dataPairs_nil_cons]
  | cons c l =>
    obtain rfl | h0 := em (c = 0)
    · -- a NUL is a line of its own
      have hruns := hexRuns_cons_of_not not_wlanIsxdigit_nul l
      have hline : BlockLine l := hl.of_suffix (fun _ h => mem_cons_of_mem _ h) (isComment_nul l) hruns
      refine .of_lineEnd hs (.nul _) hblk (ih (l :: ls) (hb.tail.cons hline) (by simp [blockText]) _ b rfl hblk hused) ?_ ?_
      · simp [Kept, isComment_nul]
      · rw [cons_append, cons_append, dataPairs_congr (isComment_nul l) hruns]
    obtain ⟨rfl, rfl⟩ | hcr := em (c = carriageReturn ∧ l = [])
    · have hdata : isComment [carriageReturn] = false := by decide
      refine .of_lineEnd hs (.carriageReturn _) hblk (ih ([] :: ls) hnil (by simp [blockText]) _ b rfl hblk hused) ?_ ?_
      · rw [kept_nil_cons, Kept, hdata, if_neg (by simp)]
      · rw [cons_append, cons_append, dataPairs_nil_cons, dataPairs_cons, hdata,
          linePairs_cons_of_not (by decide), linePairs_nil]
        simp
    have hnl : newline ∉ c :: l := hl.newline_notMem
    have hscanning : Scanning s b (blockText ((c :: l) :: ls) last post) := by
      refine ⟨hs, fun he => ?_, fun hc => ?_, hblk⟩
      · cases l with
        | nil => cases he <;> simp_all
        | cons d l => cases he <;> simp_all
      · obtain rfl : c = closeBrace := by simpa [blockText] using hc
        exact hl.brace_notMem (isComment_cons (by decide) (by decide) (by decide) l) (by simp)
    have hnext : ∀ ls', ls' <:+ ls → BlockLines ls' last → AtLine ty post ([] :: ls') last := by
      intro ls' hsuf hb'
      refine ih _ (hb'.cons blockLine_nil) ?_
      have := length_blockText_le last post hsuf
      simp only [blockText, length_append, length_cons, length_nil]
      omega
    have hnextNil := hnext ls suffix_rfl hb.tail
    cases hcomment : isComment (c :: l) with
    | false =>
      refine hscanning.settled_of_pairs hused hnl (hl.run hcomment) hnextNil ?_ ?_
      · rw [Kept, hcomment, if_neg (by simp)]
      · rw [dataPairs_cons, hcomment, if_neg (by simp)]
    | true =>
      have hkept : Kept true ((c :: l) :: ls) last ↔ hexRuns (c :: l) = [] ∧ Kept false ls last := by
        rw [Kept, hcomment, if_pos rfl, if_pos ⟨rfl, by simpa using h0⟩]
      have hpairs : dataPairs ((c :: l) :: (ls ++ [last])) = dataPairs (ls ++ [last]) := by
        rw [dataPairs_cons, hcomment, if_pos rfl, nil_append]
      obtain hruns | hruns := em (hexRuns (c :: l) = [])
      · refine hscanning.settled_of_pairs hused hnl (by simp [hruns]) hnextNil (hkept.trans (by simp [hruns])) ?_
        rw [hpairs, linePairs, hruns, map_nil, nil_append]
      · exact hscanning.settled_of_comment hused hnl hb.tail hnext hruns (fun hk => hruns (hkept.mp hk).1) hpairs

/-- At the start of a line blanks are passed, and a comment with the end of its line. -/
theorem atLine (hb : BlockLines ls last)
    (ih : ∀ ls' last', BlockLines ls' last' → (blockText ls' last' post).length ≤ (blockText ls last post).length →
      AtText ty post ls' last') : AtLine ty post ls last := by
  intro s b hrest hblk hused
  obtain ⟨bl, d, hsplit, hbl, hd⟩ : ∃ bl d, ls.headD last = bl ++ d ∧ (∀ c ∈ bl, isBlank c) ∧ ∀ c ∈ d.head?, ¬isBlank c := by
    refine ⟨_, _, (takeWhile_append_dropWhile (p := isBlank)).symm, fun c hc => mem_takeWhile_imp hc, fun c hc => ?_⟩
    have hhead := head?_dropWhile_not isBlank (ls.headD last)
    rw [Option.mem_def.mp hc] at hhead
    simpa using hhead
  have hcomment : isComment (bl ++ d) = isComment d := isComment_append hbl d
  have hruns : hexRuns (bl ++ d) = hexRuns d := hexRuns_append hbl d
  have hnotBlank : ∀ c : UInt8, c = newline ∨ c = closeBrace → ¬isBlank c ∧ c ≠ hash := by
    rintro c (rfl | rfl)
    · exact ⟨by decide, by decide⟩
    · exact ⟨by decide, by decide⟩
  -- what is left of a line that is no comment is where the text is read from
  have hstart : ∀ c t, (c = newline ∨ c = closeBrace) → (∀ e ∈ d.head?, e ≠ hash) →
      LineStart (bl ++ d ++ c :: t) (d ++ c :: t) := by
    intro c t hc hh
    rw [append_assoc]
    cases d with
    | nil => exact .plain hbl (hnotBlank c hc).1 (hnotBlank c hc).2
    | cons e d => exact .plain hbl (hd e rfl) (hh e rfl)
  cases ls with
  | nil =>
    obtain rfl : last = bl ++ d := hsplit
    have hline : BlockLine d := hb.lastLine.of_suffix (fun c hc => mem_append_right _ hc) hcomment hruns
    have hb' : BlockLines [] d := ⟨by simp, hline, hcomment.symm.trans hb.lastData⟩
    have hh : ∀ e ∈ d.head?, e ≠ hash := by
      rintro e he rfl
      obtain ⟨t, rfl⟩ := head?_eq_some_iff.mp (Option.mem_def.mp he)
      exact absurd hb'.lastData (by simp [isComment, (by decide : isBlank hash = false), (by decide : hash ≠ 0)])
    have hsettled := ih [] d hb' (by simp [blockText]) s b (by rw [hrest]; exact hstart _ _ (.inr rfl) hh) hblk hused
    refine hsettled.congr ?_ rfl ?_
    · simp only [Kept, mem_append]
      exact ⟨fun h => ⟨fun c hc => h.1 c (.inr hc), fun _ => hd⟩,
        fun h => ⟨fun c hc => hc.elim (fun hc => .inl (hbl c hc)) (h.1 c), by simp⟩⟩
    · simp only [CfgBlock.octetsOf, nil_append]
      rw [dataPairs_congr hcomment hruns]
  | cons l ls =>
    obtain rfl : l = bl ++ d := hsplit
    obtain hh | hh := em (∀ e ∈ d.head?, e ≠ hash)
    · have hline : BlockLine d := (hb.line _ (by simp)).of_suffix (fun c hc => mem_append_right _ hc) hcomment hruns
      have hs : LineStart s.rest (blockText (d :: ls) last post) := by
        rw [hrest]
        exact hstart _ _ (.inl rfl) hh
      have hsettled := ih (d :: ls) last (hb.tail.cons hline) (by simp [blockText]) s b hs hblk hused
      refine hsettled.congr ?_ rfl ?_
      · rw [Kept, Kept, hcomment]
        cases hc : isComment d with
        | false => simp
        | true =>
          have h0 : d.head? = some 0 := by
            cases d with
            | nil => simp [isComment] at hc
            | cons e d =>
              obtain h0 | h0 := em (e = 0)
              · rw [h0, head?_cons]
              · rw [isComment_cons (hd e rfl) h0 (hh e rfl)] at hc
                cases hc
          simp [h0]
      · simp only [CfgBlock.octetsOf, cons_append]
        rw [dataPairs_congr hcomment hruns]
    · obtain ⟨note, rfl⟩ : ∃ note, d = hash :: note := by
        cases d with
        | nil => simp at hh
        | cons e note => exact ⟨note, by simpa using hh⟩
      have hc : isComment (bl ++ hash :: note) = true := by
        rw [hcomment]
        simp [isComment, (by decide : isBlank hash = false), (by decide : hash ≠ 0)]
      have hline : BlockLine (bl ++ hash :: note) := hb.line _ (by simp)
      have hnote : newline ∉ note := fun hm => hline.newline_notMem (by simp [hm])
      have hs : LineStart s.rest (blockText ls last post) := by
        rw [hrest, blockText, append_assoc]
        exact .comment hbl hnote
      have hsettled := ih ls last hb.tail (by simp [blockText]; omega) s b hs hblk hused
      refine hsettled.congr ?_ rfl ?_
      · rw [Kept, hc, if_pos rfl, if_neg (by simp)]
      · rw [CfgBlock.octetsOf, CfgBlock.octetsOf, cons_append, dataPairs_cons, hc, if_pos rfl, nil_append]

theorem settled (hb : BlockLines ls last) : AtLine ty post ls last := by
  induction hn : (blockText ls last post).length using Nat.strong_induction_on generalizing ls last with
  | _ n ih =>
    subst hn
    refine atLine hb fun ls' last' hb' hle => ?_
    cases ls' with
    | nil =>
      refine atText_last hb' fun last'' hb'' hlt => ih _ ?_ hb'' rfl
      simp only [blockText, length_append] at hle ⊢
      omega
    | cons l ls' => exact atText_line hb' fun ls'' hb'' hlt => ih _ (hlt.trans_le hle) hb'' rfl

end Settled

/-- A text is read to its end, inside and within the command buffer, if it is one of the grammar; calibration data, if it
ends in no digit; and a block is sent as it is written if its lines are kept and its octets fit. -/
theorem configText_iff (ty : CfgType) (buf : ℕ → UInt8) (text : List UInt8) :
    ((∃ fuel e, wlanProcessHostcmdCfg ty buf text fuel = .ok e) ↔ Fits ty false none text) ∧
      ((∃ l, wlanParseCalCfg text = .ok l ∧ 2 * l.length ≤ text.length) ↔ ∀ c ∈ text.getLast?, ¬wlanIsxdigit c) ∧
      ∀ (s : CfgState) (b : CfgBlock) (ls : List (List UInt8)) (last post : List UInt8),
        s.rest = blockText ls last post → s.block = some b → b.stored = [] → BlockLines ls last →
          (s.Closes ty post (dataPairs (ls ++ [last])) ↔
            Kept false ls last ∧ b.reserved + (dataPairs (ls ++ [last])).length ≤ sizeOfCmdBuffer) := by
  refine ⟨processes_iff ty buf text, parses_iff text, fun s b ls last post hrest hblk hstored hb => ?_⟩
  have hused : b.used ≤ sizeOfCmdBuffer := by
    simp only [CfgBlock.used, CfgBlock.reserved, cfgDataHead, sizeOfCmdBuffer, hstored, length_nil]
    split <;> omega
  have hoct : b.octetsOf ls last = dataPairs (ls ++ [last]) := by rw [CfgBlock.octetsOf, hstored, nil_append]
  have hsettled : Settled ty post s b false ls last := settled hb s b hrest hblk hused
  rw [← hoct]
  constructor
  · intro h
    obtain ⟨hk, hr, -⟩ | hlong := hsettled.octets _ h
    · exact ⟨hk, hr⟩
    · exact absurd hlong (lt_irrefl _)
  · rintro ⟨hk, hr⟩
    exact hsettled.closes hk hr

/-- The lines `0a 12` and `34`, with `}` on a line of its own. -/
theorem configText_iff_block :
    CfgState.Closes .hostcmd
      { rest := [48, 97, 32, 49, 50, newline, 51, 52, newline, closeBrace], block := some ⟨false, []⟩, buf := fun _ => 0,
        hostcmdFlag := false, sent := [] }
      [] [0x0a, 0x12, 0x34] := by
  have hruns : hexRuns [48, 97, 32, 49, 50] = [[48, 97], [49, 50]] := by
    simp [hexRuns, splitOnP_cons_eq_if_modifyHead, wlanIsxdigit]
  have hruns' : hexRuns [51, 52] = [[51, 52]] := by
    simp [hexRuns, splitOnP_cons_eq_if_modifyHead, wlanIsxdigit]
  have hdata : isComment [48, 97, 32, 49, 50] = false := by decide
  have hdata' : isComment [51, 52] = false := by decide
  have hpairs : dataPairs ([[48, 97, 32, 49, 50], [51, 52]] ++ [[]]) = [0x0a, 0x12, 0x34] := by
    rw [cons_append, singleton_append, dataPairs_cons, hdata, dataPairs_cons, hdata', dataPairs_nil_cons, linePairs, hruns,
      linePairs, hruns']
    rfl
  have hline : BlockLine [48, 97, 32, 49, 50] := ⟨by decide, fun _ => by decide, fun _ => by simp [hruns]⟩
  have hline' : BlockLine [51, 52] := ⟨by decide, fun _ => by decide, fun _ => by simp [hruns']⟩
  have hlines : BlockLines [[48, 97, 32, 49, 50], [51, 52]] [] := ⟨by simpa using ⟨hline, hline'⟩, blockLine_nil, rfl⟩
  rw [← hpairs]
  refine ((configText_iff .hostcmd (fun _ => 0) []).2.2 _ ⟨false, []⟩ [[48, 97, 32, 49, 50], [51, 52]] [] [] rfl rfl rfl
    hlines).mpr ⟨?_, ?_⟩
  · rw [Kept, hdata, Kept, hdata']
    simp [Kept]
  · rw [hpairs]
    decide

/-- A text that ends in a comment is read on behind it. -/
theorem not_processes_comment :
    ¬∃ fuel e, wlanProcessHostcmdCfg .hostcmd (fun _ => 0) [hash, newline] fuel = .ok e := by
  rintro ⟨fuel, e, h⟩
  cases fuel with
  | zero => simp [wlanProcessHostcmdCfg, cfgLoop] at h
  | succ fuel =>
    have ht (s : CfgState) (hs : s.rest = [hash, newline]) : s.turn .hostcmd = .error .readOutside := by
      rw [CfgState.turn, hs]
      rfl
    rw [wlanProcessHostcmdCfg, cfgLoop, if_neg (by simp), ht _ rfl] at h
    cases h

end WlanDriver.Cmd
