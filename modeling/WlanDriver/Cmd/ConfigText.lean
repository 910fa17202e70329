import Mathlib.Data.List.TakeWhile
import Mathlib.Data.Nat.Notation
import WlanDriver.Cmd.Vdll

/-!
# Configuration text

`wlan_process_hostcmd_cfg` reads a file of host commands, or of DPD data, line by line and by a cursor into the text;
`wlan_parse_cal_cfg` reads calibration data in one go. A text is what the cursor has in front of it, and a read where there
is nothing left is a fault.

No loop over a line looks for the end of the text, and outside a block a line that opens none does not move the cursor. The
texts that are read to their end and inside the command buffer are those of a grammar (`Fits`, `processes_iff`) : lines that
say nothing, comments with something behind them, openings, lines with `}` in front, and lines of data whose pairs of
digits are taken two characters at a time.
-/

namespace WlanDriver.Cmd

open List Option

/-- `S_DS_GEN` and `sizeof(HostCmd_DS_802_11_CFG_DATA)`. -/
def cfgDataHead : ℕ := 8 + 6

/-- `HostCmd_CMD_CFG_DATA`, `HostCmd_ACT_GEN_SET`, `OID_TYPE_DPD`. -/
def hostCmdCfgData : ℕ := 0x008f

def actGenSet : ℕ := 0x0001

def oidTypeDpd : ℕ := 0xa

/-! ## Characters -/

abbrev newline : UInt8 := 10

abbrev carriageReturn : UInt8 := 13

abbrev hash : UInt8 := 35

abbrev equals : UInt8 := 61

abbrev openBrace : UInt8 := 123

abbrev closeBrace : UInt8 := 125

/-- `' '` and `'\t'`. -/
def isBlank (c : UInt8) : Bool :=
  c = 32 ∨ c = 9

def wlanIsxdigit (c : UInt8) : Bool :=
  (c ≤ 102 ∧ 97 ≤ c) ∨ (c ≤ 70 ∧ 65 ≤ c) ∨ (c ≤ 57 ∧ 48 ≤ c)

def wlanIsspace (c : UInt8) : Bool :=
  c ≤ 32 ∧ (c = 32 ∨ (c ≤ 13 ∧ 9 ≤ c))

def wlanHexval (c : UInt8) : ℕ :=
  if 48 ≤ c ∧ c ≤ 57 then c.toNat - 48
  else if 65 ≤ c ∧ c ≤ 70 then c.toNat - 65 + 10
  else if 97 ≤ c ∧ c ≤ 102 then c.toNat - 97 + 10
  else 0

/-! ## Reading a text -/

/-- Why a text is not read to its end. -/
inductive CfgFault
  | outOfFuel
  /-- A character behind the text is read. -/
  | readOutside
  /-- An octet is stored behind the command buffer. -/
  | overflow

/-- `wlan_atox`, from the value that it has so far. -/
def wlanAtox : ℕ → List UInt8 → Except CfgFault ℕ
  | _, [] => .error .readOutside
  | i, c :: t => if wlanIsxdigit c then wlanAtox ((i * 16 + wlanHexval c) % 2 ^ 32) t else .ok i

def wlanStrchr (c : UInt8) : List UInt8 → Except CfgFault (Option (List UInt8))
  | [] => .error .readOutside
  | d :: t => if d = 0 then .ok none else if d = c then .ok (some (d :: t)) else wlanStrchr c t

/-- `wlan_parse_cal_cfg` : what is stored at `dst`. -/
def wlanParseCalCfg : List UInt8 → Except CfgFault (List UInt8)
  | [] => .ok []
  | [c] =>
    if c ≠ 0 ∧ (wlanIsspace c ∨ c = 9) then .ok []
    else if wlanIsxdigit c then (wlanAtox 0 [c]).map fun v => [UInt8.ofNat v]
    else .ok []
  | c :: d :: t =>
    if c ≠ 0 ∧ (wlanIsspace c ∨ c = 9) then wlanParseCalCfg (d :: t)
    else if wlanIsxdigit c then
      match wlanAtox 0 (c :: d :: t) with
      | .error f => .error f
      | .ok v => (wlanParseCalCfg t).map fun l => UInt8.ofNat v :: l
    else wlanParseCalCfg (d :: t)

/-- To what a line says, or behind a comment. -/
def lineStart (r : List UInt8) : Except CfgFault (List UInt8) :=
  match r.dropWhile isBlank with
  | [] => .error .readOutside
  | c :: t =>
    if c = hash then
      match t.dropWhile (· ≠ newline) with
      | [] => .error .readOutside
      | _ :: u => .ok u
    else .ok (c :: t)

/-- Whether there is nothing in a line. -/
def isLineEnd : List UInt8 → Except CfgFault Bool
  | [] => .error .readOutside
  | c :: t =>
    if c = carriageReturn then
      match t with
      | [] => .error .readOutside
      | d :: _ => .ok (d = newline)
    else .ok (c = newline ∨ c = 0)

/-- `intf_s` and `intf_e` : whether there are two `=`, and what is behind `{`. -/
def opening (t : List UInt8) : Except CfgFault (Bool × Option (List UInt8)) :=
  match wlanStrchr equals t with
  | .error f => .error f
  | .ok none => .ok (false, none)
  | .ok (some s) =>
    match s.tail.head? with
    | none => .error .readOutside
    | some d => (wlanStrchr openBrace s).map fun e => (decide (d = equals), e.map List.tail)

/-- A line of data, with `reserved` octets in front of those stored. -/
def scanRaw (reserved : ℕ) : List UInt8 → List UInt8 → Except CfgFault (List UInt8 × List UInt8)
  | [], _ => .error .readOutside
  | [c], stored => if c = newline then .ok ([c], stored) else .error .readOutside
  | c :: d :: t, stored =>
    if c = newline then .ok (c :: d :: t, stored)
    else if wlanIsxdigit c then
      match wlanAtox 0 (c :: d :: t) with
      | .error f => .error f
      | .ok v =>
        if sizeOfCmdBuffer ≤ reserved + stored.length then .error .overflow
        else scanRaw reserved t (stored ++ [UInt8.ofNat v])
    else scanRaw reserved (d :: t) stored

/-! ## The loop -/

inductive CfgType
  | hostcmd
  | dpdfile
  deriving DecidableEq

/-- A block that is open : `pcmd`, and what is stored up to `ptr` and behind the head of a command. -/
structure CfgBlock where
  pcmd : Bool
  stored : List UInt8

/-- What is reserved for the head of a command. -/
def CfgBlock.reserved (b : CfgBlock) : ℕ :=
  if b.pcmd then cfgDataHead else 0

/-- `ptr - buf`. -/
def CfgBlock.used (b : CfgBlock) : ℕ :=
  b.reserved + b.stored.length

/-- `HostCmd_DS_802_11_CFG_DATA` behind the command and its size. -/
structure CfgDataHead where
  command : ℕ
  size : ℕ
  action : ℕ
  oidType : ℕ
  dataLen : ℕ

/-- A command as it is given to `wlan_prepare_cmd`. -/
structure HostcmdMsg where
  len : ℕ
  head? : Option CfgDataHead
  octets : List UInt8

/-- The variables of `wlan_process_hostcmd_cfg`. `start_raw` holds where a block is open; otherwise `ptr` is `buf`, and
`pcmd` is null. -/
structure CfgState where
  rest : List UInt8
  block : Option CfgBlock
  /-- The octets of the buffer that nothing is stored to. -/
  buf : ℕ → UInt8
  hostcmdFlag : Bool
  sent : List HostcmdMsg

/-- The command that `}` sends. -/
def hostcmdOf (ty : CfgType) (buf : ℕ → UInt8) (b : CfgBlock) : HostcmdMsg :=
  if ty = .dpdfile ∧ b.pcmd then
    { len := b.used
      head? := some
        { command := hostCmdCfgData, size := b.used % 2 ^ 16, action := actGenSet, oidType := oidTypeDpd
          dataLen := (b.used - cfgDataHead) % 2 ^ 16 }
      octets := b.stored }
  else
    { len := (b.stored.getD 2 (buf 2)).toNat + 256 * (b.stored.getD 3 (buf 3)).toNat
      head? := none
      octets := b.stored }

namespace CfgState

variable (ty : CfgType) (s : CfgState)

/-- At `}`, with the text behind it. -/
def closeBlock (u : List UInt8) : CfgState where
  rest := u
  block := none
  buf := fun _ => 0
  hostcmdFlag := s.hostcmdFlag
  sent := s.sent ++ [hostcmdOf ty s.buf (s.block.getD ⟨false, []⟩)]

/-- At `{`, with the text behind it. -/
def openBlock (twice : Bool) (u : List UInt8) : CfgState :=
  { s with
    rest := u
    block := some ⟨decide (ty = .dpdfile ∧ (s.hostcmdFlag || twice) = false), []⟩
    hostcmdFlag := s.hostcmdFlag || twice }

/-- One turn of the loop. -/
def turn : Except CfgFault CfgState :=
  match lineStart s.rest with
  | .error f => .error f
  | .ok t =>
    match isLineEnd t with
    | .error f => .error f
    | .ok true => .ok { s with rest := t.tail }
    | .ok false =>
      if t.head? = some closeBrace then .ok (s.closeBlock ty t.tail)
      else
        match s.block with
        | none =>
          match opening t with
          | .error f => .error f
          | .ok (twice, some u) => .ok (s.openBlock ty twice u)
          | .ok (twice, none) => .ok { s with rest := t, hostcmdFlag := s.hostcmdFlag || twice }
        | some b =>
          match scanRaw b.reserved t b.stored with
          | .error f => .error f
          | .ok (u, stored) => .ok { s with rest := u, block := some { b with stored := stored } }

end CfgState

def cfgLoop (ty : CfgType) : ℕ → CfgState → Except CfgFault CfgState
  | 0, s => if s.rest = [] then .ok s else .error .outOfFuel
  | fuel + 1, s =>
    if s.rest = [] then .ok s
    else
      match s.turn ty with
      | .error f => .error f
      | .ok s' => cfgLoop ty fuel s'

/-- `wlan_process_hostcmd_cfg`, with a buffer as it was allocated. -/
def wlanProcessHostcmdCfg (ty : CfgType) (buf : ℕ → UInt8) (text : List UInt8) (fuel : ℕ) : Except CfgFault CfgState :=
  cfgLoop ty fuel { rest := text, block := none, buf := buf, hostcmdFlag := false, sent := [] }

/-! ## What a line is -/

/-- Neither a NUL nor `c` is in a part of a text. -/
def Free (c : UInt8) (l : List UInt8) : Prop :=
  ∀ d ∈ l, d ≠ 0 ∧ d ≠ c

inductive LineStart : List UInt8 → List UInt8 → Prop
  | plain {bl c t} (hbl : ∀ b ∈ bl, isBlank b) (hc : ¬isBlank c) (hh : c ≠ hash) : LineStart (bl ++ c :: t) (c :: t)
  | comment {bl note t} (hbl : ∀ b ∈ bl, isBlank b) (hn : newline ∉ note) :
    LineStart (bl ++ hash :: (note ++ newline :: t)) t

inductive LineEnd : List UInt8 → Prop
  | newline (t) : LineEnd (newline :: t)
  | nul (t) : LineEnd (0 :: t)
  | carriageReturn (t) : LineEnd (carriageReturn :: newline :: t)

/-- An opening, whether `=` is followed by another, and what is behind it. -/
inductive Opens : List UInt8 → Bool → List UInt8 → Prop
  | mk {name value u} (hn : Free equals name) (hv : Free openBrace value) :
    Opens (name ++ equals :: (value ++ openBrace :: u)) (decide (value.head? = some equals)) u

/-- A NUL is met before an opening is found. -/
inductive NoOpening : List UInt8 → Bool → Prop
  | noEquals {name t} (hn : Free equals name) : NoOpening (name ++ 0 :: t) false
  | noBrace {name value t} (hn : Free equals name) (hv : Free openBrace value) :
    NoOpening (name ++ equals :: (value ++ 0 :: t)) (decide (value.head? = some equals))

/-- The octets that are stored from a line of data, by their number, up to the end of a line. -/
inductive Scans : List UInt8 → ℕ → List UInt8 → Prop
  | stop (t) : Scans (newline :: t) 0 (newline :: t)
  | skip {c t n u} (hc : c ≠ newline) (hx : ¬wlanIsxdigit c) (h : Scans t n u) : Scans (c :: t) n u
  | pair {c d t n u} (hx : wlanIsxdigit c) (h : Scans t n u) : Scans (c :: d :: t) (n + 1) u

/-- The texts that are read to their end, from where `hostcmdFlag` and what is used of the buffer by an open block are as
given. -/
inductive Fits (ty : CfgType) : Bool → Option ℕ → List UInt8 → Prop
  | done (flag b) : Fits ty flag b []
  | lineEnd {flag b r t} (hs : LineStart r t) (he : LineEnd t) (h : Fits ty flag b t.tail) : Fits ty flag b r
  | close {flag b r t} (hs : LineStart r (closeBrace :: t)) (h : Fits ty flag none t) : Fits ty flag b r
  | opens {flag r t twice u} (hs : LineStart r t) (he : ¬LineEnd t) (hb : t.head? ≠ some closeBrace)
    (ho : Opens t twice u)
    (h : Fits ty (flag || twice) (some (if ty = .dpdfile ∧ (flag || twice) = false then cfgDataHead else 0)) u) :
    Fits ty flag none r
  | comment {flag r t twice} (hs : LineStart r t) (he : ¬LineEnd t) (hb : t.head? ≠ some closeBrace)
    (ho : NoOpening t twice) (hlt : t.length < r.length) (h : Fits ty (flag || twice) none t) : Fits ty flag none r
  | data {flag used r t n u} (hs : LineStart r t) (he : ¬LineEnd t) (hb : t.head? ≠ some closeBrace) (hd : Scans t n u)
    (hn : used + n ≤ sizeOfCmdBuffer) (h : Fits ty flag (some (used + n)) u) : Fits ty flag (some used) r

theorem lineStart_eq_ok_iff {r t : List UInt8} : lineStart r = .ok t ↔ LineStart r t := by
  constructor
  · intro h
    obtain ⟨bl, u, rfl, hbl, hu⟩ : ∃ bl u, r = bl ++ u ∧ (∀ b ∈ bl, isBlank b) ∧ u = r.dropWhile isBlank :=
      ⟨_, _, (takeWhile_append_dropWhile).symm, fun b hb => mem_takeWhile_imp hb, rfl⟩
    unfold lineStart at h
    rw [← hu] at h
    cases u with
    | nil => simp at h
    | cons c t' =>
      have hc : ¬isBlank c := by
        have hhead := head?_dropWhile_not isBlank (bl ++ c :: t')
        rw [← hu] at hhead
        simpa using hhead
      simp only at h
      split at h
      next hh =>
        subst hh
        split at h
        next => simp at h
        next d u' hd =>
          obtain rfl : u' = t := by simpa using h
          have hsplit := takeWhile_append_dropWhile (p := (· ≠ newline)) (l := t')
          have hd' := head?_dropWhile_not (· ≠ newline) t'
          rw [hd] at hd' hsplit
          obtain rfl : d = newline := by simpa using hd'
          rw [← hsplit]
          exact .comment hbl fun hm => by simpa using mem_takeWhile_imp hm
      next hh =>
        obtain rfl : c :: t' = t := by simpa using h
        exact .plain hbl hc hh
  · intro h
    cases h with
    | plain hbl hc hh => simp [lineStart, dropWhile_append_of_pos hbl, hc, hh]
    | @comment bl note t hbl hn =>
      have hnote : ∀ b ∈ note, (!decide (b = newline)) = true := fun b hb => by
        simpa using fun he : b = newline => hn (he ▸ hb)
      have hh : isBlank hash = false := by decide
      simp [lineStart, dropWhile_append_of_pos hbl, hh, dropWhile_append_of_pos hnote]

theorem isLineEnd_eq_true_iff {t : List UInt8} : isLineEnd t = .ok true ↔ LineEnd t := by
  constructor
  · intro h
    unfold isLineEnd at h
    split at h
    next => simp at h
    next c t =>
      split at h
      next hc =>
        subst hc
        split at h
        next => simp at h
        next d u =>
          obtain rfl : d = newline := by simpa using h
          exact .carriageReturn u
      next =>
        obtain rfl | rfl : c = newline ∨ c = 0 := by simpa using h
        · exact .newline t
        · exact .nul t
  · intro h
    cases h <;> rfl

theorem isLineEnd_of_mem {t : List UInt8} (h : ¬LineEnd t) {c : UInt8} (hm : c ∈ t) (hc : c ≠ carriageReturn) :
    isLineEnd t = .ok false := by
  cases hr : isLineEnd t with
  | ok b =>
    cases b with
    | false => rfl
    | true => exact absurd (isLineEnd_eq_true_iff.mp hr) h
  | error f =>
    unfold isLineEnd at hr
    split at hr
    next => simp at hm
    next d t =>
      split at hr
      next hd =>
        subst hd
        split at hr
        next => exact absurd (mem_singleton.mp hm) hc
        next => simp at hr
      next => simp at hr

theorem Free.cons {c d : UInt8} {l : List UInt8} (h : Free c l) (hd : d ≠ 0 ∧ d ≠ c) : Free c (d :: l) :=
  forall_mem_cons.mpr ⟨hd, h⟩

theorem wlanStrchr_eq_some_iff {c : UInt8} (hc : c ≠ 0) {t v : List UInt8} :
    wlanStrchr c t = .ok (some v) ↔ ∃ l u, t = l ++ v ∧ v = c :: u ∧ Free c l := by
  induction t with
  | nil =>
    refine iff_of_false (by simp [wlanStrchr]) fun ⟨l, u, ht, hv, _⟩ => ?_
    simp [hv] at ht
  | cons d t ih =>
    unfold wlanStrchr
    split
    next hd =>
      subst hd
      refine iff_of_false (by simp) fun ⟨l, u, ht, hv, hl⟩ => ?_
      subst hv
      cases l with
      | nil => exact hc (by simpa using (List.cons.inj ht).1.symm)
      | cons e l => exact (hl e (by simp)).1 (List.cons.inj ht).1.symm
    next hd =>
      split
      next hdc =>
        subst hdc
        constructor
        · intro h
          obtain rfl : d :: t = v := by simpa using h
          exact ⟨[], t, rfl, rfl, by simp [Free]⟩
        · rintro ⟨l, u, ht, rfl, hl⟩
          cases l with
          | nil => rw [ht, nil_append]
          | cons e l => exact absurd (List.cons.inj ht).1.symm (hl e (by simp)).2
      next hdc =>
        rw [ih]
        constructor
        · rintro ⟨l, u, rfl, rfl, hl⟩
          exact ⟨d :: l, u, rfl, rfl, hl.cons ⟨hd, hdc⟩⟩
        · rintro ⟨l, u, ht, rfl, hl⟩
          cases l with
          | nil => exact absurd (List.cons.inj ht).1 hdc
          | cons e l => exact ⟨l, u, (List.cons.inj ht).2, rfl, fun x hx => hl x (by simp [hx])⟩

theorem wlanStrchr_eq_none_iff {c : UInt8} {t : List UInt8} :
    wlanStrchr c t = .ok none ↔ ∃ l u, t = l ++ 0 :: u ∧ Free c l := by
  induction t with
  | nil => simp [wlanStrchr]
  | cons d t ih =>
    unfold wlanStrchr
    split
    next hd => exact iff_of_true rfl ⟨[], t, by rw [hd, nil_append], by simp [Free]⟩
    next hd =>
      split
      next hdc =>
        refine iff_of_false (by simp) fun ⟨l, u, ht, hl⟩ => ?_
        cases l with
        | nil => exact hd (List.cons.inj ht).1
        | cons e l => exact (hl e (by simp)).2 ((List.cons.inj ht).1.symm.trans hdc)
      next hdc =>
        rw [ih]
        constructor
        · rintro ⟨l, u, rfl, hl⟩
          exact ⟨d :: l, u, rfl, hl.cons ⟨hd, hdc⟩⟩
        · rintro ⟨l, u, ht, hl⟩
          cases l with
          | nil => exact absurd (List.cons.inj ht).1 hd
          | cons e l => exact ⟨l, u, (List.cons.inj ht).2, fun x hx => hl x (by simp [hx])⟩

/-- What follows `=` is another of it if the value starts with one. -/
theorem head_value (value : List UInt8) (c : UInt8) (u : List UInt8) (hc : c ≠ equals) :
    ∃ d, (value ++ c :: u).head? = some d ∧ decide (d = equals) = decide (value.head? = some equals) := by
  cases value with
  | nil => exact ⟨c, rfl, by simp [hc]⟩
  | cons d value => exact ⟨d, rfl, by simp⟩

theorem opening_eq_some_iff {t : List UInt8} {twice : Bool} {u : List UInt8} :
    opening t = .ok (twice, some u) ↔ Opens t twice u := by
  constructor
  · intro h
    unfold opening at h
    split at h
    next => simp at h
    next => simp at h
    next s hs =>
      obtain ⟨name, w, rfl, rfl, hn⟩ := (wlanStrchr_eq_some_iff (by decide)).mp hs
      split at h
      next => simp at h
      next d hd =>
        cases he : wlanStrchr openBrace (equals :: w) with
        | error f => simp [he, Except.map] at h
        | ok e =>
          cases e with
          | none => simp [he, Except.map] at h
          | some e =>
            obtain ⟨value, u', hv, rfl, hfree⟩ := (wlanStrchr_eq_some_iff (by decide)).mp he
            simp only [he, Except.map, map_some, tail_cons, Except.ok.injEq, Prod.mk.injEq,
              some.injEq] at h
            obtain ⟨rfl, rfl⟩ := h
            cases value with
            | nil => exact absurd (List.cons.inj hv).1 (by decide)
            | cons x value =>
              obtain ⟨rfl, rfl⟩ := List.cons.inj hv
              obtain ⟨d', hd', heq⟩ := head_value value openBrace u' (by decide)
              obtain rfl : d' = d := by
                rw [tail_cons] at hd
                exact some.inj (hd'.symm.trans hd)
              rw [heq]
              exact .mk hn fun y hy => hfree y (by simp [hy])
  · intro h
    cases h with
    | @mk name value u hn hv =>
      obtain ⟨d, hd, heq⟩ := head_value value openBrace u (by decide)
      have hs : wlanStrchr equals (name ++ equals :: (value ++ openBrace :: u)) =
          .ok (some (equals :: (value ++ openBrace :: u))) :=
        (wlanStrchr_eq_some_iff (by decide)).mpr ⟨name, _, rfl, rfl, hn⟩
      have he : wlanStrchr openBrace (equals :: (value ++ openBrace :: u)) = .ok (some (openBrace :: u)) :=
        (wlanStrchr_eq_some_iff (by decide)).mpr ⟨equals :: value, u, rfl, rfl, hv.cons (by decide)⟩
      simp [opening, hs, hd, he, Except.map, ← heq]

theorem opening_eq_none_iff {t : List UInt8} {twice : Bool} : opening t = .ok (twice, none) ↔ NoOpening t twice := by
  constructor
  · intro h
    unfold opening at h
    split at h
    next => simp at h
    next hs =>
      obtain ⟨name, w, rfl, hn⟩ := wlanStrchr_eq_none_iff.mp hs
      obtain rfl : false = twice := by simpa using h
      exact .noEquals hn
    next s hs =>
      obtain ⟨name, w, rfl, rfl, hn⟩ := (wlanStrchr_eq_some_iff (by decide)).mp hs
      split at h
      next => simp at h
      next d hd =>
        cases he : wlanStrchr openBrace (equals :: w) with
        | error f => simp [he, Except.map] at h
        | ok e =>
          cases e with
          | some e => simp [he, Except.map] at h
          | none =>
            obtain ⟨value, u', hv, hfree⟩ := wlanStrchr_eq_none_iff.mp he
            simp only [he, Except.map, map_none, Except.ok.injEq, Prod.mk.injEq, and_true] at h
            subst h
            cases value with
            | nil => exact absurd (List.cons.inj hv).1 (by decide)
            | cons x value =>
              obtain ⟨rfl, rfl⟩ := List.cons.inj hv
              obtain ⟨d', hd', heq⟩ := head_value value 0 u' (by decide)
              obtain rfl : d' = d := by
                rw [tail_cons] at hd
                exact some.inj (hd'.symm.trans hd)
              rw [heq]
              exact .noBrace hn fun y hy => hfree y (by simp [hy])
  · intro h
    cases h with
    | @noEquals name t hn =>
      have hs : wlanStrchr equals (name ++ 0 :: t) = .ok none := wlanStrchr_eq_none_iff.mpr ⟨name, t, rfl, hn⟩
      simp [opening, hs]
    | @noBrace name value t hn hv =>
      obtain ⟨d, hd, heq⟩ := head_value value 0 t (by decide)
      have hs : wlanStrchr equals (name ++ equals :: (value ++ 0 :: t)) = .ok (some (equals :: (value ++ 0 :: t))) :=
        (wlanStrchr_eq_some_iff (by decide)).mpr ⟨name, _, rfl, rfl, hn⟩
      have he : wlanStrchr openBrace (equals :: (value ++ 0 :: t)) = .ok none :=
        wlanStrchr_eq_none_iff.mpr ⟨equals :: value, t, rfl, hv.cons (by decide)⟩
      simp [opening, hs, hd, he, Except.map, ← heq]

theorem LineStart.ne_nil {r t : List UInt8} (h : LineStart r t) : r ≠ [] := by
  cases h <;> simp

theorem LineStart.length_le {r t : List UInt8} (h : LineStart r t) : t.length ≤ r.length := by
  cases h with
  | plain => simp
  | comment =>
    simp only [length_append, length_cons]
    omega

/-- A start that is no further on is the text itself. -/
theorem LineStart.eq_of_length_le {r t : List UInt8} (h : LineStart r t) (hle : r.length ≤ t.length) : t = r := by
  cases h with
  | @plain bl c t hbl hc hh =>
    rw [length_append] at hle
    have hnil : bl = [] := eq_nil_of_length_eq_zero (by omega)
    rw [hnil, nil_append]
  | comment =>
    simp only [length_append, length_cons] at hle
    omega

/-! ## Lines of data -/

theorem exists_wlanAtox {t : List UInt8} (h : ∃ e ∈ t, ¬wlanIsxdigit e) (i : ℕ) : ∃ v, wlanAtox i t = .ok v := by
  induction t generalizing i with
  | nil => simp at h
  | cons c t ih =>
    unfold wlanAtox
    split
    next hc =>
      obtain ⟨e, he, hx⟩ := h
      obtain rfl | he := mem_cons.mp he
      · exact absurd hc hx
      · exact ih ⟨e, he, hx⟩ _
    next => exact ⟨i, rfl⟩

theorem wlanAtox_of_forall {t : List UInt8} (h : ∀ e ∈ t, wlanIsxdigit e) (i : ℕ) :
    wlanAtox i t = .error .readOutside := by
  induction t generalizing i with
  | nil => rfl
  | cons c t ih =>
    rw [wlanAtox, if_pos (h c (by simp))]
    exact ih (fun e he => h e (by simp [he])) _

theorem not_wlanIsxdigit_newline : ¬wlanIsxdigit newline := by
  decide

theorem Scans.newline_mem {t u : List UInt8} {n : ℕ} (h : Scans t n u) : newline ∈ t := by
  induction h with
  | stop => simp
  | skip _ _ _ ih => exact mem_cons_of_mem _ ih
  | pair _ _ ih => exact mem_cons_of_mem _ (mem_cons_of_mem _ ih)

theorem Scans.length_le {t u : List UInt8} {n : ℕ} (h : Scans t n u) : u.length ≤ t.length := by
  induction h with
  | stop => exact le_rfl
  | skip _ _ _ ih => exact ih.trans (by simp)
  | pair _ _ ih => exact ih.trans (by simp; omega)

@[simp] theorem scanRaw_newline (reserved : ℕ) (t stored : List UInt8) :
    scanRaw reserved (newline :: t) stored = .ok (newline :: t, stored) := by
  cases t <;> simp [scanRaw]

theorem scanRaw_skip {c : UInt8} (hc : c ≠ newline) (hx : ¬wlanIsxdigit c) (reserved : ℕ) (t stored : List UInt8) :
    scanRaw reserved (c :: t) stored = scanRaw reserved t stored := by
  cases t <;> simp [scanRaw, hc, hx]

theorem scanRaw_pair {c d : UInt8} {t : List UInt8} {v : ℕ} (hx : wlanIsxdigit c) (hv : wlanAtox 0 (c :: d :: t) = .ok v)
    (reserved : ℕ) (stored : List UInt8) :
    scanRaw reserved (c :: d :: t) stored =
      if sizeOfCmdBuffer ≤ reserved + stored.length then .error .overflow
      else scanRaw reserved t (stored ++ [UInt8.ofNat v]) := by
  have hc : c ≠ newline := fun hc => not_wlanIsxdigit_newline (hc ▸ hx)
  simp only [scanRaw, hc, hx, hv, if_false, if_true]

theorem scanRaw_of_scans {t u : List UInt8} {n : ℕ} (h : Scans t n u) {reserved : ℕ} {stored : List UInt8}
    (hn : reserved + stored.length + n ≤ sizeOfCmdBuffer) :
    ∃ l, l.length = n ∧ scanRaw reserved t stored = .ok (u, stored ++ l) := by
  induction h generalizing stored with
  | stop t => exact ⟨[], rfl, by rw [scanRaw_newline, append_nil]⟩
  | skip hc hx h ih =>
    obtain ⟨l, hl, hscan⟩ := ih hn
    exact ⟨l, hl, by rw [scanRaw_skip hc hx, hscan]⟩
  | @pair c d t n u hx h ih =>
    obtain ⟨v, hv⟩ := exists_wlanAtox (t := c :: d :: t) ⟨newline, by simp [h.newline_mem], not_wlanIsxdigit_newline⟩ 0
    have hroom : reserved + (stored ++ [UInt8.ofNat v]).length + n ≤ sizeOfCmdBuffer := by
      rw [length_append, length_singleton]
      omega
    obtain ⟨l, hl, hscan⟩ := ih hroom
    refine ⟨UInt8.ofNat v :: l, by simp [hl], ?_⟩
    rw [scanRaw_pair hx hv, if_neg (by omega), hscan, append_assoc, singleton_append]

theorem scans_of_scanRaw {reserved : ℕ} {t stored u stored' : List UInt8} (h : scanRaw reserved t stored = .ok (u, stored'))
    (hroom : reserved + stored.length ≤ sizeOfCmdBuffer) :
    ∃ n, Scans t n u ∧ stored'.length = stored.length + n ∧ reserved + stored'.length ≤ sizeOfCmdBuffer := by
  fun_induction scanRaw reserved t stored with
  | case1 => simp at h
  | case2 stored =>
    obtain ⟨rfl, rfl⟩ : [newline] = u ∧ stored = stored' := by simpa using h
    exact ⟨0, .stop _, rfl, hroom⟩
  | case3 => simp at h
  | case4 d t stored =>
    obtain ⟨rfl, rfl⟩ : newline :: d :: t = u ∧ stored = stored' := by simpa using h
    exact ⟨0, .stop _, rfl, hroom⟩
  | case5 => simp at h
  | case6 => simp at h
  | case7 c d t stored hc hx v hv hfull ih =>
    obtain ⟨n, hn, hlen, hle⟩ := ih h (by simp; omega)
    exact ⟨n + 1, .pair hx hn, by simp at hlen; omega, hle⟩
  | case8 c d t stored hc hx ih =>
    obtain ⟨n, hn, hlen, hle⟩ := ih h hroom
    exact ⟨n, .skip hc hx hn, hlen, hle⟩

/-! ## Turns -/

namespace CfgState

/-- What one turn does. -/
inductive TurnTo (ty : CfgType) (s : CfgState) : CfgState → Prop
  | lineEnd {t} (hs : LineStart s.rest t) (he : LineEnd t) : TurnTo ty s { s with rest := t.tail }
  | close {u} (hs : LineStart s.rest (closeBrace :: u)) : TurnTo ty s (s.closeBlock ty u)
  | opens {t twice u} (hs : LineStart s.rest t) (he : ¬LineEnd t) (hb : t.head? ≠ some closeBrace)
    (hblk : s.block = none) (ho : Opens t twice u) : TurnTo ty s (s.openBlock ty twice u)
  | comment {t twice} (hs : LineStart s.rest t) (he : ¬LineEnd t) (hb : t.head? ≠ some closeBrace)
    (hblk : s.block = none) (ho : NoOpening t twice) :
    TurnTo ty s { s with rest := t, hostcmdFlag := s.hostcmdFlag || twice }
  | data {t b u stored} (hs : LineStart s.rest t) (he : ¬LineEnd t) (hb : t.head? ≠ some closeBrace)
    (hblk : s.block = some b) (hd : scanRaw b.reserved t b.stored = .ok (u, stored)) :
    TurnTo ty s { s with rest := u, block := some { b with stored := stored } }

theorem newline_mem_of_scanRaw {reserved : ℕ} {t stored : List UInt8} {p : List UInt8 × List UInt8}
    (h : scanRaw reserved t stored = .ok p) : newline ∈ t := by
  fun_induction scanRaw reserved t stored with
  | case1 => simp at h
  | case2 => simp
  | case3 => simp at h
  | case4 => simp
  | case5 => simp at h
  | case6 => simp at h
  | case7 _ _ _ _ _ _ _ _ _ ih => exact mem_cons_of_mem _ (mem_cons_of_mem _ (ih h))
  | case8 _ _ _ _ _ _ ih => exact mem_cons_of_mem _ (ih h)

theorem turn_eq_ok_iff {ty : CfgType} {s s' : CfgState} : s.turn ty = .ok s' ↔ TurnTo ty s s' := by
  constructor
  · intro h
    unfold turn at h
    split at h
    next => simp at h
    next t hs =>
      have hs := lineStart_eq_ok_iff.mp hs
      split at h
      next => simp at h
      next he =>
        obtain rfl := Except.ok.inj h
        exact .lineEnd hs (isLineEnd_eq_true_iff.mp he)
      next hf =>
        have he : ¬LineEnd t := fun he => by
          rw [isLineEnd_eq_true_iff.mpr he] at hf
          simp at hf
        split at h
        next hb =>
          obtain rfl := Except.ok.inj h
          obtain ⟨u, rfl⟩ : ∃ u, t = closeBrace :: u := head?_eq_some_iff.mp hb
          exact .close hs
        next hb =>
          split at h
          next hblk =>
            split at h
            next => simp at h
            next ho =>
              obtain rfl := Except.ok.inj h
              exact .opens hs he hb hblk (opening_eq_some_iff.mp ho)
            next ho =>
              obtain rfl := Except.ok.inj h
              exact .comment hs he hb hblk (opening_eq_none_iff.mp ho)
          next b hblk =>
            split at h
            next => simp at h
            next hd =>
              obtain rfl := Except.ok.inj h
              exact .data hs he hb hblk hd
  · intro h
    unfold turn
    cases h with
    | lineEnd hs he => simp only [lineStart_eq_ok_iff.mpr hs, isLineEnd_eq_true_iff.mpr he]
    | @close u hs =>
      have he : isLineEnd (closeBrace :: u) = .ok false :=
        isLineEnd_of_mem (fun he => by cases he) mem_cons_self (by decide)
      simp [lineStart_eq_ok_iff.mpr hs, he]
    | @opens t twice u hs he hb hblk ho =>
      have hm : equals ∈ t := by
        cases ho
        simp
      simp only [lineStart_eq_ok_iff.mpr hs, isLineEnd_of_mem he hm (by decide), hb, if_false, hblk,
        opening_eq_some_iff.mpr ho]
    | @comment t twice hs he hb hblk ho =>
      have hm : 0 ∈ t := by
        cases ho <;> simp
      simp only [lineStart_eq_ok_iff.mpr hs, isLineEnd_of_mem he hm (by decide), hb, if_false, hblk,
        opening_eq_none_iff.mpr ho]
    | data hs he hb hblk hd =>
      simp only [lineStart_eq_ok_iff.mpr hs, isLineEnd_of_mem he (newline_mem_of_scanRaw hd) (by decide), hb, if_false,
        hblk, hd]

end CfgState

/-! ## The texts that are read to their end -/

section Loop

variable {ty : CfgType} {s s' : CfgState}

theorem cfgLoop_of_turn (hne : s.rest ≠ []) (ht : s.TurnTo ty s') (fuel : ℕ) :
    cfgLoop ty (fuel + 1) s = cfgLoop ty fuel s' := by
  rw [cfgLoop, if_neg hne, CfgState.turn_eq_ok_iff.mpr ht]

theorem exists_cfgLoop_of_turn (ht : s.TurnTo ty s') (hne : s.rest ≠ []) (h : ∃ fuel e, cfgLoop ty fuel s' = .ok e) :
    ∃ fuel e, cfgLoop ty fuel s = .ok e := by
  obtain ⟨fuel, e, he⟩ := h
  exact ⟨fuel + 1, e, (cfgLoop_of_turn hne ht fuel).trans he⟩

/-- A turn that changes nothing is taken without end. -/
theorem cfgLoop_ne_ok_of_stuck (hne : s.rest ≠ []) (ht : s.TurnTo ty s) (fuel : ℕ) (e : CfgState) :
    cfgLoop ty fuel s ≠ .ok e := by
  induction fuel with
  | zero => simp [cfgLoop, hne]
  | succ fuel ih =>
    rw [cfgLoop_of_turn hne ht]
    exact ih

/-- A text of the grammar is read to its end. -/
theorem exists_cfgLoop_of_fits {flag : Bool} {b : Option ℕ} {r : List UInt8} (h : Fits ty flag b r) (hr : s.rest = r)
    (hf : s.hostcmdFlag = flag) (hb : s.block.map CfgBlock.used = b) : ∃ fuel e, cfgLoop ty fuel s = .ok e := by
  induction h generalizing s with
  | done => exact ⟨0, s, by rw [cfgLoop, if_pos hr]⟩
  | lineEnd hs he h ih =>
    subst hr
    exact exists_cfgLoop_of_turn (.lineEnd hs he) hs.ne_nil (ih rfl hf hb)
  | close hs h ih =>
    subst hr
    exact exists_cfgLoop_of_turn (.close hs) hs.ne_nil (ih rfl hf rfl)
  | opens hs he hbr ho h ih =>
    subst hr hf
    refine exists_cfgLoop_of_turn (.opens hs he hbr (map_eq_none_iff.mp hb) ho) hs.ne_nil (ih rfl rfl ?_)
    simp [CfgState.openBlock, CfgBlock.used, CfgBlock.reserved]
  | comment hs he hbr ho hlt h ih =>
    subst hr hf
    exact exists_cfgLoop_of_turn (.comment hs he hbr (map_eq_none_iff.mp hb) ho) hs.ne_nil (ih rfl rfl hb)
  | data hs he hbr hd hn h ih =>
    subst hr
    obtain ⟨b, hblk, rfl⟩ := map_eq_some_iff.mp hb
    obtain ⟨l, hl, hscan⟩ := scanRaw_of_scans hd hn
    refine exists_cfgLoop_of_turn (.data hs he hbr hblk hscan) hs.ne_nil (ih rfl hf ?_)
    simp [CfgBlock.used, CfgBlock.reserved, ← hl, Nat.add_assoc]

/-- A text that is read to its end is one of the grammar. -/
theorem fits_of_cfgLoop {fuel : ℕ} {e : CfgState} (h : cfgLoop ty fuel s = .ok e)
    (hroom : ∀ b ∈ s.block, b.used ≤ sizeOfCmdBuffer) : Fits ty s.hostcmdFlag (s.block.map CfgBlock.used) s.rest := by
  induction fuel generalizing s with
  | zero =>
    obtain hr | hr := em (s.rest = [])
    · rw [hr]
      exact .done _ _
    · simp [cfgLoop, hr] at h
  | succ fuel ih =>
    obtain hr | hr := em (s.rest = [])
    · rw [hr]
      exact .done _ _
    cases ht : s.turn ty with
    | error f => simp [cfgLoop, hr, ht] at h
    | ok s' =>
      have ht := CfgState.turn_eq_ok_iff.mp ht
      rw [cfgLoop_of_turn hr ht] at h
      cases ht with
      | lineEnd hs he => exact .lineEnd hs he (ih h hroom)
      | close hs => exact .close hs (ih h (by simp [CfgState.closeBlock]))
      | @opens t twice u hs he hb hblk ho =>
        have hfit := ih h fun b hb => by
          obtain rfl := mem_some.mp hb
          simp only [CfgBlock.used, CfgBlock.reserved, cfgDataHead, sizeOfCmdBuffer, length_nil]
          split <;> omega
        rw [hblk]
        refine .opens hs he hb ho ?_
        simpa [CfgState.openBlock, CfgBlock.used, CfgBlock.reserved] using hfit
      | @comment t twice hs he hb hblk ho =>
        obtain hlt | hle := Nat.lt_or_ge t.length s.rest.length
        · rw [hblk]
          have hfit := ih h hroom
          simp only [hblk] at hfit
          exact .comment hs he hb ho hlt hfit
        · -- the line is met again, and the flag is as it was left
          obtain rfl := hs.eq_of_length_le hle
          have hagain : CfgState.TurnTo ty { s with hostcmdFlag := s.hostcmdFlag || twice }
              { s with hostcmdFlag := (s.hostcmdFlag || twice) || twice } := .comment hs he hb hblk ho
          rw [Bool.or_assoc, Bool.or_self] at hagain
          refine absurd h (cfgLoop_ne_ok_of_stuck ?_ hagain fuel e)
          exact hr
      | @data t b u stored hs he hb hblk hd =>
        obtain ⟨n, hn, hlen, hle⟩ := scans_of_scanRaw hd (hroom b hblk)
        have hfit := ih h fun b' hb' => by
          obtain rfl := mem_some.mp hb'
          exact hle
        rw [hblk]
        refine .data hs he hb hn (by simpa [CfgBlock.used, hlen, Nat.add_assoc] using hle) ?_
        simpa [CfgBlock.used, CfgBlock.reserved, hlen, Nat.add_assoc] using hfit

end Loop

theorem processes_iff (ty : CfgType) (buf : ℕ → UInt8) (text : List UInt8) :
    (∃ fuel e, wlanProcessHostcmdCfg ty buf text fuel = .ok e) ↔ Fits ty false none text :=
  ⟨fun ⟨_, _, h⟩ => fits_of_cfgLoop h (by simp), fun h => exists_cfgLoop_of_fits h rfl rfl rfl⟩

/-! ## Calibration data -/

theorem not_isSpace_of_wlanIsxdigit {c : UInt8} (h : wlanIsxdigit c) : ¬(c ≠ 0 ∧ (wlanIsspace c ∨ c = 9)) := by
  simp only [wlanIsxdigit, wlanIsspace, decide_eq_true_eq, UInt8.le_iff_toNat_le, ← UInt8.toNat_inj] at *
  simp at *
  omega

/-- A text that ends in no digit is read inside, and two characters are taken for an octet. -/
theorem exists_wlanParseCalCfg {t : List UInt8} (h : ∀ c ∈ t.getLast?, ¬wlanIsxdigit c) :
    ∃ l, wlanParseCalCfg t = .ok l ∧ 2 * l.length ≤ t.length := by
  fun_induction wlanParseCalCfg t with
  | case1 => exact ⟨[], rfl, by simp⟩
  | case2 => exact ⟨[], rfl, by simp⟩
  | case3 c _ hx => exact absurd hx (h c rfl)
  | case4 => exact ⟨[], rfl, by simp⟩
  | case5 c d t _ ih =>
    obtain ⟨l, hl, hle⟩ := ih (by simpa using h)
    exact ⟨l, hl, by simp at hle ⊢; omega⟩
  | case6 c d t _ hx f hv =>
    have he := getLast?_eq_some_getLast (cons_ne_nil c (d :: t))
    obtain ⟨v, hv'⟩ := exists_wlanAtox ⟨_, mem_of_getLast? he, h _ he⟩ 0
    rw [hv] at hv'
    cases hv'
  | case7 c d t _ hx v hv ih =>
    have hlast : ∀ e ∈ t.getLast?, ¬wlanIsxdigit e := by
      cases t with
      | nil => simp
      | cons x t => simpa using h
    obtain ⟨l, hl, hle⟩ := ih hlast
    exact ⟨UInt8.ofNat v :: l, by rw [hl]; rfl, by simp; omega⟩
  | case8 c d t _ _ ih =>
    obtain ⟨l, hl, hle⟩ := ih (by simpa using h)
    exact ⟨l, hl, by simp at hle ⊢; omega⟩

/-- The digits at the end of a text are read on behind it. -/
theorem wlanParseCalCfg_of_digit {t : List UInt8} {c : UInt8} (h : t.getLast? = some c) (hc : wlanIsxdigit c)
    (l : List UInt8) : wlanParseCalCfg t ≠ .ok l := by
  fun_induction wlanParseCalCfg t generalizing l with
  | case1 => simp at h
  | case2 e hs =>
    obtain rfl : e = c := by simpa using h
    exact absurd hs (not_isSpace_of_wlanIsxdigit hc)
  | case3 e _ hx => simp [wlanAtox, hx, Except.map]
  | case4 e _ hx =>
    obtain rfl : e = c := by simpa using h
    exact absurd hc hx
  | case5 e d t _ ih => exact ih (by simpa using h) l
  | case6 => simp
  | case7 e d t _ hx v hv ih =>
    cases t with
    | nil =>
      obtain rfl : d = c := by simpa using h
      rw [wlanAtox_of_forall (by simp [hx, hc])] at hv
      cases hv
    | cons x t =>
      cases hr : wlanParseCalCfg (x :: t) with
      | error f => simp [Except.map]
      | ok l' => exact absurd hr (ih (by simpa using h) l')
  | case8 e d t _ _ ih => exact ih (by simpa using h) l

theorem parses_iff (text : List UInt8) :
    (∃ l, wlanParseCalCfg text = .ok l ∧ 2 * l.length ≤ text.length) ↔ ∀ c ∈ text.getLast?, ¬wlanIsxdigit c :=
  ⟨fun ⟨l, hl, _⟩ _ hc hx => wlanParseCalCfg_of_digit hc hx l hl, exists_wlanParseCalCfg⟩

end WlanDriver.Cmd
