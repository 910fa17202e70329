import Mathlib.Algebra.GroupWithZero.Nat
import Mathlib.Data.List.TakeDrop
import WlanDriver.Lib.Postfix
import WlanDriver.Lib.Tlv

/-!
# Wake-up filters

The memory-efficient filters say which packets wake the host. `wlan_set_mef_entry` writes the filters of an entry as a postfix
program on a stack of octets : operands, the operator of the filter, and behind every filter but the first how it is joined to
those before it. The type of what is written is its last octet, so that the stack is read from its end (`Sym.pop`).

The number of octets of a sequence and how filters are joined are octets that nothing checks. `mef_push` reads as many octets of
an operand as its number says, of the seven that there are, and an octet that joins filters may be the type of an operand.
`wlanGenerateMefFilterStack_eq` : what is pushed for an entry, when it is refused, and when an octet is read outside.
`MefEntry.means` : what the stack decides.
-/

namespace WlanDriver.Mef

open List Postfix

/-! ## The data -/

def maxNumStackBytes : ℕ := 100

def maxNumByteSeq : ℕ := 6

def operandDnum : UInt8 := 1

def operandByteSeq : UInt8 := 2

/-- `byte_seq` or `mask_seq`. -/
abbrev SeqArray := {bs : List UInt8 // bs.length = maxNumByteSeq}

/-- `mef_filter_t`. -/
structure MefFilter where
  fillFlag : UInt32
  type : UInt16
  pattern : UInt32
  offset : UInt16
  numBytes : UInt16
  «repeat» : UInt16
  numByteSeq : UInt8
  byteSeq : SeqArray
  numMaskSeq : UInt8
  maskSeq : SeqArray

/-- `mef_entry_t` : for each number below `filter_num` its `rpn` and its `filter_item`. Both arrays have 10; what a longer list
has there is never looked at (`wlanGenerateMefFilterStack_take`). -/
structure MefEntry where
  mode : UInt8
  action : UInt8
  items : List (UInt8 × MefFilter)

/-- `mef_op`. -/
structure MefOp where
  operandType : UInt8
  val : List UInt8
  length_val : val.length = maxNumByteSeq + 1

/-- Why nothing is written. -/
inductive MefError
  /-- `MLAN_STATUS_FAILURE`. -/
  | refused
  /-- An octet behind the array of an operand is read. -/
  | readOutside

/-- A number of 32 bits, the low octet first. -/
def le32 (n : ℕ) : List UInt8 :=
  Tlv.le16 (n % 65536) ++ Tlv.le16 (n / 65536)

def get32 (bs : List UInt8) : ℕ :=
  Tlv.get16 bs + 65536 * Tlv.get16 (bs.drop 2)

namespace MefOp

/-- `OPERAND_DNUM` with a number. -/
def dnum (n : UInt32) : MefOp :=
  ⟨operandDnum, le32 n.toNat ++ [0, 0, 0], rfl⟩

/-- `OPERAND_BYTE_SEQ` with a number of octets, of which no more are copied than there are. -/
def byteSeq (num : UInt8) (bs : SeqArray) : MefOp :=
  ⟨operandByteSeq, num :: (bs.1.take num.toNat ++ replicate (maxNumByteSeq - num.toNat) 0), by
    have hbs := bs.2
    simp only [length_cons, length_append, length_take, length_replicate]
    omega⟩

/-- An operator, which is its type only. -/
def oper (t : UInt8) : MefOp :=
  ⟨t, replicate 7 0, rfl⟩

end MefOp

namespace MefFilter

variable (f : MefFilter)

/-- `TYPE_DNUM_EQ`. -/
def dnumEq : List MefOp :=
  [.dnum f.pattern, .dnum f.offset.toUInt32, .dnum f.numBytes.toUInt32, .oper 0x42]

/-- `TYPE_BYTE_EQ`. -/
def byteEq : List MefOp :=
  [.dnum f.repeat.toUInt32, .byteSeq f.numByteSeq f.byteSeq, .dnum f.offset.toUInt32, .oper 0x41]

/-- `TYPE_BIT_EQ`. -/
def bitEq : List MefOp :=
  [.byteSeq f.numByteSeq f.byteSeq, .dnum f.offset.toUInt32, .byteSeq f.numMaskSeq f.maskSeq, .oper 0x43]

end MefFilter

/-! ## The functions of the driver -/

/-- `push_n` of `len` octets of an array; a stack is its first `sp` octets. -/
def pushN (s : List UInt8) (len : ℕ) (val : List UInt8) : Except MefError (List UInt8) :=
  if s.length + len ≤ maxNumStackBytes then
    if len ≤ val.length then .ok (s ++ val.take len) else .error .readOutside
  else .error .refused

/-- `mef_push` : an operand, its length if it has one, and its type. -/
def mefPush (s : List UInt8) (op : MefOp) : Except MefError (List UInt8) :=
  if op.operandType = operandDnum then do
    let s ← pushN s 4 op.val
    pushN s 1 [op.operandType]
  else if op.operandType = operandByteSeq then do
    let nbytes := op.val.headD 0
    let s ← pushN s nbytes.toNat (op.val.drop 1)
    let s ← pushN s 1 op.val
    pushN s 1 [op.operandType]
  else pushN s 1 [op.operandType]

/-- What the functions for the types of filters have in common : exactly the fields that are needed are filled. -/
def pushFilter (filling : UInt32) (ops : List MefOp) (s : List UInt8) (f : MefFilter) : Except MefError (List UInt8) :=
  if f.fillFlag ≠ filling then .error .refused else ops.foldlM mefPush s

/-- `push_filter_dnum_eq` wants `FILLING_TYPE | FILLING_PATTERN | FILLING_OFFSET | FILLING_NUM_BYTES`. -/
def pushFilterDnumEq (s : List UInt8) (f : MefFilter) : Except MefError (List UInt8) :=
  pushFilter 15 f.dnumEq s f

/-- `push_filter_byte_eq` wants `FILLING_TYPE | FILLING_REPEAT | FILLING_BYTE_SEQ | FILLING_OFFSET`. -/
def pushFilterByteEq (s : List UInt8) (f : MefFilter) : Except MefError (List UInt8) :=
  pushFilter 53 f.byteEq s f

/-- `push_filter_bit_eq` wants the same, and not `FILLING_MASK_SEQ`. -/
def pushFilterBitEq (s : List UInt8) (f : MefFilter) : Except MefError (List UInt8) :=
  pushFilter 53 f.bitEq s f

def wlanPushFilter (s : List UInt8) (f : MefFilter) : Except MefError (List UInt8) :=
  if f.type = 0x42 then pushFilterDnumEq s f
  else if f.type = 0x41 then pushFilterByteEq s f
  else if f.type = 0x43 then pushFilterBitEq s f
  else .error .refused

/-- The loop over the filters from the one with the index `i` on. -/
def generateLoop : ℕ → List (UInt8 × MefFilter) → List UInt8 → Except MefError (List UInt8)
  | _, [], s => .ok s
  | i, p :: l, s => do
    let s ← wlanPushFilter s p.2
    let s ← if i ≠ 0 then mefPush s (.oper p.1) else .ok s
    generateLoop (i + 1) l s

def wlanGenerateMefFilterStack (e : MefEntry) : Except MefError (List UInt8) :=
  generateLoop 0 e.items []

/-! ## What is pushed -/

namespace MefOp

variable (op : MefOp) (k : ℕ)

def nbytes : UInt8 :=
  op.val.headD 0

/-- The octets of an operand or operator, with 0 for those of a sequence that it does not have. -/
def code : List UInt8 :=
  if op.operandType = operandDnum then op.val.take 4 ++ [operandDnum]
  else if op.operandType = operandByteSeq then (op.val.drop 1).takeD op.nbytes.toNat 0 ++ [op.nbytes, operandByteSeq]
  else [op.operandType]

theorem code_byteSeq (num : UInt8) (bs : SeqArray) : (byteSeq num bs).code =
    (bs.1.take num.toNat ++ replicate (maxNumByteSeq - num.toNat) 0).takeD num.toNat 0 ++ [num, operandByteSeq] :=
  rfl

theorem one_le_length_code : 1 ≤ op.code.length := by
  unfold code
  split_ifs <;> simp

/-- The octets of a sequence are there. -/
def Short : Prop :=
  op.operandType = operandByteSeq → op.nbytes.toNat ≤ maxNumByteSeq
  deriving Decidable

/-- No octet outside is read for `op` behind `k` octets : a sequence is short, or there is no room for it. -/
def ReadsInside : Prop :=
  k + op.nbytes.toNat ≤ maxNumStackBytes → op.Short
  deriving Decidable

end MefOp

/-- The same for one behind the other, until there is no room. -/
def OpsInside : ℕ → List MefOp → Prop
  | _, [] => True
  | k, op :: ops => op.ReadsInside k ∧ (k + op.code.length ≤ maxNumStackBytes → OpsInside (k + op.code.length) ops)

instance decidableOpsInside : ∀ k ops, Decidable (OpsInside k ops)
  | _, [] => .isTrue trivial
  | k, op :: ops =>
    have := decidableOpsInside (k + op.code.length) ops
    inferInstanceAs (Decidable (_ ∧ (_ → _)))

/-- What is pushed for a filter that is filled as its type wants it. -/
def MefFilter.ops (f : MefFilter) : Option (List MefOp) :=
  if f.type = 0x42 ∧ f.fillFlag = 15 then some f.dnumEq
  else if f.type = 0x41 ∧ f.fillFlag = 53 then some f.byteEq
  else if f.type = 0x43 ∧ f.fillFlag = 53 then some f.bitEq
  else none

/-- What is pushed from the filter with the index `i` on, in front of the first that is not filled as its type wants it. -/
def stackOps : ℕ → List (UInt8 × MefFilter) → List MefOp
  | _, [] => []
  | i, p :: l =>
    match p.2.ops with
    | none => []
    | some ops => ops ++ ((if i ≠ 0 then [.oper p.1] else []) ++ stackOps (i + 1) l)

/-- Every filter is filled as its type wants it. -/
def Filled (l : List (UInt8 × MefFilter)) : Prop :=
  ∀ p ∈ l, p.2.ops.isSome
  deriving Decidable

namespace MefEntry

variable (e : MefEntry)

def ops : List MefOp :=
  stackOps 0 e.items

/-- The octets of an entry. -/
def stack : List UInt8 :=
  e.ops.flatMap MefOp.code

/-- No octet outside is read. -/
def ReadsInside : Prop :=
  OpsInside 0 e.ops
  deriving Decidable

/-- No filter is refused : each is filled as its type wants it, and there is room for all. -/
def Accepted : Prop :=
  Filled e.items ∧ e.stack.length ≤ maxNumStackBytes
  deriving Decidable

end MefEntry

/-- Octets are pushed if there is room for them. -/
def pushAll (s a : List UInt8) : Except MefError (List UInt8) :=
  if s.length + a.length ≤ maxNumStackBytes then .ok (s ++ a) else .error .refused

theorem pushAll_bind (s a b : List UInt8) : (pushAll s a >>= fun s => pushAll s b) = pushAll s (a ++ b) := by
  unfold pushAll
  by_cases ha : s.length + a.length ≤ maxNumStackBytes
  · rw [if_pos ha]
    show (if (s ++ a).length + b.length ≤ maxNumStackBytes then Except.ok (s ++ a ++ b) else _) = _
    rw [append_assoc]
    simp only [length_append, Nat.add_assoc]
  · rw [if_neg ha, if_neg fun hab => ha ?_]
    · rfl
    · rw [length_append] at hab
      omega

theorem pushN_of_le {s val : List UInt8} {len : ℕ} (h : len ≤ val.length) : pushN s len val = pushAll s (val.take len) := by
  rw [pushN, pushAll, if_pos h, length_take_of_le h]

theorem mefPush_of_inside {s : List UInt8} {op : MefOp} (h : op.ReadsInside s.length) : mefPush s op = pushAll s op.code := by
  have hlen : op.val.length = 7 := op.length_val
  have hone : ∀ (s : List UInt8) (t : UInt8), pushN s 1 [t] = pushAll s [t] := fun _ _ => rfl
  unfold mefPush MefOp.code
  by_cases hd : op.operandType = operandDnum
  · rw [if_pos hd, if_pos hd, pushN_of_le (by omega), hd]
    simp only [hone, pushAll_bind]
  by_cases hb : op.operandType = operandByteSeq
  · rw [if_neg hd, if_pos hb, if_neg hd, if_pos hb, hb]
    have hfirst : op.val.take 1 = [op.nbytes] := by
      rw [MefOp.nbytes]
      cases hval : op.val with
      | nil => simp [hval] at hlen
      | cons b bs => rfl
    have hrest : ∀ s, pushN s 1 op.val = pushAll s [op.nbytes] := fun s => by rw [pushN_of_le (by omega), hfirst]
    by_cases hroom : s.length + op.nbytes.toNat ≤ maxNumStackBytes
    · have hshort : op.nbytes.toNat ≤ (op.val.drop 1).length := by
        rw [length_drop, hlen]
        exact h hroom hb
      show ((pushN s op.nbytes.toNat (op.val.drop 1)) >>= fun s => pushN s 1 op.val >>= fun s => pushAll s [operandByteSeq]) = _
      simp only [pushN_of_le hshort, hrest, pushAll_bind, takeD_eq_take _ hshort, singleton_append]
    · have hfull : pushN s op.nbytes.toNat (op.val.drop 1) = .error .refused := if_neg hroom
      show ((pushN s op.nbytes.toNat (op.val.drop 1)) >>= _) = _
      rw [hfull, pushAll, if_neg]
      · rfl
      · rw [length_append, takeD_length]
        omega
  · rw [if_neg hd, if_neg hb, if_neg hd, if_neg hb]
    exact hone _ _

theorem mefPush_of_not_inside {s : List UInt8} {op : MefOp} (h : ¬op.ReadsInside s.length) :
    mefPush s op = .error .readOutside := by
  obtain ⟨hroom, hshort⟩ := Classical.not_imp.mp h
  obtain ⟨hb, hmany⟩ := Classical.not_imp.mp hshort
  have hlen : (op.val.drop 1).length = 6 := by rw [length_drop, op.length_val]; rfl
  have hout : pushN s op.nbytes.toNat (op.val.drop 1) = .error .readOutside := by
    rw [pushN, if_pos hroom, if_neg]
    rw [hlen]
    exact hmany
  rw [mefPush, hb, if_neg (by decide), if_pos rfl]
  show ((pushN s op.nbytes.toNat (op.val.drop 1)) >>= _) = _
  rw [hout]
  rfl

/-- **What is pushed** one behind the other : the octets of all if there is room for them. The induction is on the operands and
operators, each behind those before it. -/
theorem foldlM_mefPush (ops : List MefOp) {s : List UInt8} (hs : s.length ≤ maxNumStackBytes) :
    (OpsInside s.length ops → ops.foldlM mefPush s = pushAll s (ops.flatMap MefOp.code)) ∧
      (¬OpsInside s.length ops → ops.foldlM mefPush s = .error .readOutside) := by
  induction ops generalizing s with
  | nil =>
    refine ⟨fun _ => ?_, fun h => absurd trivial h⟩
    rw [flatMap_nil, pushAll, if_pos (by simpa using hs), append_nil]
    rfl
  | cons op ops ih =>
    rw [foldlM_cons, flatMap_cons, OpsInside]
    by_cases hop : op.ReadsInside s.length
    · rw [mefPush_of_inside hop]
      by_cases hroom : s.length + op.code.length ≤ maxNumStackBytes
      · have hnext := ih (s := s ++ op.code) (by rwa [length_append])
        rw [length_append] at hnext
        have hok : pushAll s op.code = .ok (s ++ op.code) := if_pos hroom
        refine ⟨fun h => ?_, fun h => ?_⟩
        · rw [← pushAll_bind, hok]
          exact hnext.1 (h.2 hroom)
        · rw [hok]
          exact hnext.2 fun hrest => h ⟨hop, fun _ => hrest⟩
      · have hfull : pushAll s op.code = .error .refused := if_neg hroom
        refine ⟨fun _ => ?_, fun h => absurd ⟨hop, fun hyes => absurd hyes hroom⟩ h⟩
        rw [← pushAll_bind, hfull]
        rfl
    · refine ⟨fun h => absurd h.1 hop, fun _ => ?_⟩
      rw [mefPush_of_not_inside hop]
      rfl

theorem wlanPushFilter_eq (s : List UInt8) (f : MefFilter) :
    wlanPushFilter s f = f.ops.elim (.error .refused) fun ops => ops.foldlM mefPush s := by
  unfold wlanPushFilter pushFilterDnumEq pushFilterByteEq pushFilterBitEq pushFilter MefFilter.ops
  split_ifs <;> simp_all

/-- The loop pushes what is pushed for each filter, and refuses an entry at the first that is not filled. -/
theorem generateLoop_eq (i : ℕ) (l : List (UInt8 × MefFilter)) (s : List UInt8) : generateLoop i l s =
    (stackOps i l).foldlM mefPush s >>= fun s => if Filled l then .ok s else .error .refused := by
  induction l generalizing i s with
  | nil =>
    have hnil : Filled [] := fun _ hp => absurd hp not_mem_nil
    rw [stackOps, foldlM_nil, pure_bind, if_pos hnil, generateLoop]
  | cons p l ih =>
    rw [generateLoop, wlanPushFilter_eq, stackOps]
    cases hops : p.2.ops with
    | none =>
      have hnot : ¬Filled (p :: l) := fun hall => by simpa [hops] using hall p mem_cons_self
      exact (if_neg hnot).symm
    | some ops =>
      have hfilled : Filled (p :: l) ↔ Filled l := by simp [Filled, hops]
      simp only [Option.elim_some, foldlM_append, bind_assoc, hfilled, ih]
      by_cases hi : i = 0
      · simp only [hi, ne_eq, not_true, if_false]
        rfl
      · simp only [if_pos hi, foldlM_cons, foldlM_nil, bind_assoc, pure_bind]

/-- **What is written for an entry.** No octet outside is read exactly if each sequence is short that there is room for, and the
entry is accepted exactly if each filter is filled as its type wants it and there is room for all. -/
theorem wlanGenerateMefFilterStack_eq (e : MefEntry) :
    (e.ReadsInside → (e.Accepted → wlanGenerateMefFilterStack e = .ok e.stack) ∧
      (¬e.Accepted → wlanGenerateMefFilterStack e = .error .refused)) ∧
    (¬e.ReadsInside → wlanGenerateMefFilterStack e = .error .readOutside) := by
  have hempty : ([] : List UInt8).length ≤ maxNumStackBytes := Nat.zero_le _
  obtain ⟨hin, hout⟩ := foldlM_mefPush e.ops hempty
  have hrun : wlanGenerateMefFilterStack e =
      (e.ops.foldlM mefPush [] >>= fun s => if Filled e.items then .ok s else .error .refused) := generateLoop_eq _ _ _
  refine ⟨fun h => ?_, fun h => ?_⟩
  · have hpush : e.ops.foldlM mefPush [] = pushAll [] e.stack := hin h
    rw [hrun, hpush]
    refine ⟨fun hacc => ?_, fun hacc => ?_⟩
    · have hall : pushAll [] e.stack = .ok e.stack := if_pos (by simpa using hacc.2)
      rw [hall]
      exact if_pos hacc.1
    · by_cases hroom : e.stack.length ≤ maxNumStackBytes
      · have hall : pushAll [] e.stack = .ok e.stack := if_pos (by simpa using hroom)
        rw [hall]
        exact if_neg fun hfilled => hacc ⟨hfilled, hroom⟩
      · have hfull : pushAll [] e.stack = .error .refused := if_neg (by simpa using hroom)
        rw [hfull]
        rfl
  · rw [hrun, hout h]
    rfl

/-! ## The arrays of an entry -/

theorem le_length_ops {f : MefFilter} {ops : List MefOp} (h : f.ops = some ops) : 10 ≤ (ops.flatMap MefOp.code).length := by
  have hnum : ∀ n, (MefOp.dnum n).code.length = 5 := fun _ => rfl
  have hseq : ∀ num bs, 2 ≤ (MefOp.byteSeq num bs).code.length := fun num bs => by
    rw [MefOp.code_byteSeq, length_append]
    exact Nat.le_add_left _ _
  unfold MefFilter.ops at h
  split_ifs at h
  · obtain rfl := Option.some.inj h
    simp only [MefFilter.dnumEq, flatMap_cons, flatMap_nil, length_append, hnum]
    omega
  · obtain rfl := Option.some.inj h
    have hb := hseq f.numByteSeq f.byteSeq
    have ho := MefOp.one_le_length_code (.oper 0x41)
    simp only [MefFilter.byteEq, flatMap_cons, flatMap_nil, length_append, hnum]
    omega
  · obtain rfl := Option.some.inj h
    have hb := hseq f.numByteSeq f.byteSeq
    have hm := hseq f.numMaskSeq f.maskSeq
    have ho := MefOp.one_le_length_code (.oper 0x43)
    simp only [MefFilter.bitEq, flatMap_cons, flatMap_nil, length_append, hnum]
    omega

theorem length_of_foldlM {ops : List MefOp} {s s' : List UInt8} (hs : s.length ≤ maxNumStackBytes)
    (h : ops.foldlM mefPush s = .ok s') :
    s'.length = s.length + (ops.flatMap MefOp.code).length ∧ s'.length ≤ maxNumStackBytes := by
  obtain ⟨hin, hout⟩ := foldlM_mefPush ops hs
  by_cases hops : OpsInside s.length ops
  · rw [hin hops, pushAll] at h
    split_ifs at h with hroom
    obtain rfl := Except.ok.inj h
    rw [length_append]
    exact ⟨rfl, hroom⟩
  · exact absurd ((hout hops).symm.trans h) (by simp)

/-- Each filter takes ten octets and each way of joining one, so that there is no room for a tenth filter : the loop looks at no
element that the arrays do not have. -/
theorem generateLoop_take {i : ℕ} {s : List UInt8} (l : List (UInt8 × MefFilter)) (hs : s.length ≤ maxNumStackBytes)
    (hi : 11 * i ≤ s.length + 1) : generateLoop i (l.take (10 - i)) s = generateLoop i l s := by
  induction l generalizing i s with
  | nil => rw [take_nil]
  | cons p l ih =>
    have hlt : i ≤ 9 := by
      unfold maxNumStackBytes at hs
      omega
    obtain ⟨n, hn⟩ : ∃ n, 10 - i = n + 1 := ⟨9 - i, by omega⟩
    have hrest : n = 10 - (i + 1) := by omega
    rw [hn, take_succ_cons, generateLoop, generateLoop, wlanPushFilter_eq, hrest]
    cases hops : p.2.ops with
    | none => rfl
    | some ops =>
      rw [Option.elim_some]
      cases hpush : ops.foldlM mefPush s with
      | error x => rfl
      | ok s' =>
        obtain ⟨hlen, hle⟩ := length_of_foldlM hs hpush
        have hten := le_length_ops hops
        by_cases hfirst : i = 0
        · subst hfirst
          exact ih hle (by omega)
        · simp only [if_pos hfirst, bind, Except.bind]
          cases hjoin : mefPush s' (.oper p.1) with
          | error x => rfl
          | ok s'' =>
            have hone : [MefOp.oper p.1].foldlM mefPush s' = .ok s'' := by simp [hjoin]
            obtain ⟨hlen', hle'⟩ := length_of_foldlM hle hone
            have hpos := MefOp.one_le_length_code (.oper p.1)
            rw [flatMap_singleton] at hlen'
            exact ih hle' (by omega)

theorem wlanGenerateMefFilterStack_take (e : MefEntry) :
    wlanGenerateMefFilterStack { e with items := e.items.take 10 } = wlanGenerateMefFilterStack e :=
  generateLoop_take e.items (Nat.zero_le _) (Nat.zero_le _)

/-! ## Programs and what they decide -/

/-- `RPN_TYPE_AND` and `RPN_TYPE_OR`. -/
inductive Rpn
  | and
  | or

def Rpn.ofOctet (t : UInt8) : Option Rpn :=
  if t = 0x44 then some .and else if t = 0x45 then some .or else none

/-- An operator : `TYPE_BYTE_EQ`, `TYPE_DNUM_EQ`, `TYPE_BIT_EQ` or one that joins filters. -/
inductive Operator
  | byteEq
  | dnumEq
  | bitEq
  | rpn (r : Rpn)

def Operator.octet : Operator → UInt8
  | .byteEq => 0x41
  | .dnumEq => 0x42
  | .bitEq => 0x43
  | .rpn .and => 0x44
  | .rpn .or => 0x45

/-- The octets of a sequence. -/
abbrev ByteSeq := {bs : List UInt8 // bs.length ≤ maxNumByteSeq}

/-- What a stack is read as : a number, octets or an operator. -/
inductive Sym
  | dnum (n : UInt32)
  | byteSeq (bs : ByteSeq)
  | oper (o : Operator)

namespace Sym

def code : Sym → List UInt8
  | dnum n => le32 n.toNat ++ [operandDnum]
  | byteSeq bs => bs.1 ++ [UInt8.ofNat bs.1.length, operandByteSeq]
  | oper o => [o.octet]

theorem length_reverse_take_le {n : ℕ} (h : n ≤ 6) (bs : List UInt8) : (bs.take n).reverse.length ≤ 6 := by
  rw [length_reverse, length_take]
  omega

/-- The operand or operator at the end of a stack whose octets are given in reverse. -/
def pop : List UInt8 → Option (Sym × List UInt8)
  | [] => none
  | t :: bs =>
    if t = operandDnum then some (dnum (UInt32.ofNat (get32 (bs.take 4).reverse)), bs.drop 4)
    else if t = operandByteSeq then
      if h : (bs.headD 0).toNat ≤ 6 then
        some (byteSeq ⟨((bs.drop 1).take (bs.headD 0).toNat).reverse, length_reverse_take_le h _⟩,
          (bs.drop 1).drop (bs.headD 0).toNat)
      else none
    else ([Operator.byteEq, .dnumEq, .bitEq, .rpn .and, .rpn .or].find? (·.octet = t)).map fun o => (oper o, bs)

end Sym

/-- What a filter asks of a packet. -/
inductive Test
  | dnumEq (pattern offset numBytes : UInt32)
  | byteEq («repeat» : UInt32) (bytes : ByteSeq) (offset : UInt32)
  | bitEq (bytes : ByteSeq) (offset : UInt32) (mask : ByteSeq)

/-- The operands of a test and its operator. -/
def Test.syms : Test → List Sym
  | dnumEq pattern offset numBytes => [.dnum pattern, .dnum offset, .dnum numBytes, .oper .dnumEq]
  | byteEq n bytes offset => [.dnum n, .byteSeq bytes, .dnum offset, .oper .byteEq]
  | bitEq bytes offset mask => [.byteSeq bytes, .dnum offset, .byteSeq mask, .oper .bitEq]

/-- The first `num` octets of an array, or all. -/
def SeqArray.take (bs : SeqArray) (num : UInt8) : ByteSeq :=
  ⟨bs.1.take num.toNat, (length_take_le' _ _).trans bs.2.le⟩

/-- The test of a filter that is filled as its type wants it. -/
def MefFilter.test (f : MefFilter) : Option Test :=
  if f.type = 0x42 ∧ f.fillFlag = 15 then some (.dnumEq f.pattern f.offset.toUInt32 f.numBytes.toUInt32)
  else if f.type = 0x41 ∧ f.fillFlag = 53 then
    some (.byteEq f.repeat.toUInt32 (SeqArray.take f.byteSeq f.numByteSeq) f.offset.toUInt32)
  else if f.type = 0x43 ∧ f.fillFlag = 53 then
    some (.bitEq (SeqArray.take f.byteSeq f.numByteSeq) f.offset.toUInt32 (SeqArray.take f.maskSeq f.numMaskSeq))
  else none

/-- The tests of filters, with how each is joined to those before it. -/
def joinedTests : List (UInt8 × MefFilter) → Option (List (Rpn × Test))
  | [] => some []
  | p :: l => (Rpn.ofOctet p.1).bind fun r => p.2.test.bind fun t => (joinedTests l).map ((r, t) :: ·)

/-- Tests that are joined from the left. -/
inductive Chain
  | empty
  | of (first : Test) (rest : List (Rpn × Test))

/-- What an entry asks of a packet. -/
def MefEntry.chain (e : MefEntry) : Option Chain :=
  match e.items with
  | [] => some .empty
  | p :: l => p.2.test.bind fun t => (joinedTests l).map (.of t)

/-- The tests behind the first. -/
def joined (l : List (Rpn × Test)) : List Sym :=
  l.flatMap fun p => p.2.syms ++ [.oper (.rpn p.1)]

def Chain.program : Chain → List Sym
  | .empty => []
  | .of t l => t.syms ++ joined l

/-- A value on the stack of the interpreter. -/
inductive Val
  | num (n : UInt32)
  | bytes (bs : ByteSeq)
  | truth (b : Bool)

def Rpn.sem : Rpn → Bool → Bool → Bool
  | .and => Bool.and
  | .or => Bool.or

/-- One step of the interpreter; `holds` says which tests the packet passes. -/
def step (holds : Test → Bool) : List Val → Sym → Option (List Val)
  | st, .dnum n => some (.num n :: st)
  | st, .byteSeq bs => some (.bytes bs :: st)
  | .num c :: .num b :: .num a :: st, .oper .dnumEq => some (.truth (holds (.dnumEq a b c)) :: st)
  | .num c :: .bytes b :: .num a :: st, .oper .byteEq => some (.truth (holds (.byteEq a b c)) :: st)
  | .bytes c :: .num b :: .bytes a :: st, .oper .bitEq => some (.truth (holds (.bitEq a b c)) :: st)
  | .truth y :: .truth x :: st, .oper (.rpn r) => some (.truth (r.sem x y) :: st)
  | _, .oper _ => none

/-- The tests joined from the left; without any there is no verdict. -/
def Chain.verdict (holds : Test → Bool) : Chain → List Val
  | .empty => []
  | .of t l => [.truth (l.foldl (fun x q => q.1.sem x (holds q.2)) (holds t))]

/-- The symbols of a stack, which is read from its end. -/
def readStack (s : List UInt8) : Option (List Sym) :=
  readBack Sym.pop s.length s.reverse

/-- A stack is read as the operands and operators of an entry's filters, and decides what the filters say, joined from the
left. -/
def MefEntry.Means (e : MefEntry) (s : List UInt8) : Prop :=
  ∃ k, e.chain = some k ∧ readStack s = some k.program ∧ ∀ holds, k.program.foldlM (step holds) [] = some (k.verdict holds)

/-- Each filter but the first is joined by `RPN_TYPE_AND` or `RPN_TYPE_OR`. -/
def MefEntry.Connected (e : MefEntry) : Prop :=
  ∀ p ∈ e.items.tail, p.1 = 0x44 ∨ p.1 = 0x45
  deriving Decidable

/-! ## How it is read -/

theorem get32_le32 {n : ℕ} (h : n < 2 ^ 32) (bs : List UInt8) : get32 (le32 n ++ bs) = n := by
  unfold get32 le32
  rw [append_assoc, Tlv.get16_le16 (Nat.mod_lt _ (by omega)), drop_left' (Tlv.length_le16 _), Tlv.get16_le16 (by omega)]
  omega

theorem pop_code (op : Sym) (bs : List UInt8) : Sym.pop (op.code.reverse ++ bs) = some (op, bs) := by
  cases op with
  | dnum n =>
    have hget := get32_le32 n.toNat_lt []
    rw [append_nil] at hget
    have hlen : (le32 n.toNat).reverse.length = 4 := rfl
    simp only [Sym.code, reverse_append, reverse_singleton, cons_append, nil_append, Sym.pop, if_true]
    rw [take_left' hlen, drop_left' hlen, reverse_reverse, hget, UInt32.ofNat_toNat]
  | byteSeq b =>
    obtain ⟨b, hb⟩ := b
    have hmax : b.length ≤ 6 := hb
    have hlen : (UInt8.ofNat b.length).toNat = b.length := by
      rw [UInt8.toNat_ofNat']
      omega
    simp [Sym.code, Sym.pop, operandDnum, operandByteSeq, hlen, hmax, take_left', drop_left']
  | oper o => rcases o with _ | _ | _ | _ | _ <;> rfl

theorem readStack_code (l : List Sym) : readStack (l.flatMap Sym.code) = some l := by
  have hne : ∀ s : Sym, s.code ≠ [] := fun s => by cases s <;> simp [Sym.code]
  exact readBack_flatMap pop_code hne (length_le_flatMap hne _)

theorem foldlM_syms (holds : Test → Bool) (t : Test) (st : List Val) :
    t.syms.foldlM (step holds) st = some (.truth (holds t) :: st) := by
  cases t <;> rfl

/-- **What a program decides** : the verdict of the tests it was written for, joined from the left. -/
theorem Chain.foldlM_program (holds : Test → Bool) (k : Chain) :
    k.program.foldlM (step holds) [] = some (k.verdict holds) := by
  cases k with
  | empty => rfl
  | of t l =>
    have hfirst := foldlM_syms holds t []
    have hrest := @foldlM_chain _ _ _ _ _ (step holds) Test.syms holds (fun r => .oper (.rpn r)) Rpn.sem Val.truth
      (foldlM_syms holds) (fun _ _ _ _ => rfl) l (holds t) []
    rw [program, foldlM_append, hfirst]
    exact hrest

/-! ## What is written is what is read -/

/-- Every sequence that is pushed with all the others is short. -/
theorem short_of_opsInside {ops : List MefOp} {k : ℕ} (h : OpsInside k ops)
    (hroom : k + (ops.flatMap MefOp.code).length ≤ maxNumStackBytes) : ∀ op ∈ ops, op.Short := by
  induction ops generalizing k with
  | nil => exact fun op hop => absurd hop not_mem_nil
  | cons op ops ih =>
    rw [flatMap_cons, length_append] at hroom
    refine forall_mem_cons.mpr ⟨fun hb => ?_, ih (h.2 (by omega)) (by omega)⟩
    have hlen : op.code.length = op.nbytes.toNat + 2 := by
      rw [MefOp.code, if_neg (by rw [hb]; decide), if_pos hb, length_append, takeD_length]
      rfl
    exact h.1 (by omega) hb

theorem code_byteSeq_of_short {num : UInt8} {bs : SeqArray} (h : (MefOp.byteSeq num bs).Short) :
    (MefOp.byteSeq num bs).code = (Sym.byteSeq (SeqArray.take bs num)).code := by
  have hnum : num.toNat ≤ 6 := h rfl
  have hlen : (bs.1.take num.toNat).length = num.toNat := length_take_of_le (bs.2.symm ▸ hnum)
  rw [MefOp.code_byteSeq, takeD_left' hlen, Sym.code]
  show _ = bs.1.take num.toNat ++ [UInt8.ofNat (bs.1.take num.toNat).length, operandByteSeq]
  rw [hlen, UInt8.ofNat_toNat]

/-- What is pushed for a filter is the code of its test. -/
theorem test_of_ops {f : MefFilter} {ops : List MefOp} (h : f.ops = some ops) :
    ∃ t, f.test = some t ∧ ((∀ op ∈ ops, op.Short) → ops.flatMap MefOp.code = t.syms.flatMap Sym.code) := by
  unfold MefFilter.ops at h
  unfold MefFilter.test
  split_ifs at h ⊢
  · obtain rfl := Option.some.inj h
    exact ⟨_, rfl, fun _ => rfl⟩
  · obtain rfl := Option.some.inj h
    refine ⟨_, rfl, fun hshort => ?_⟩
    have hseq := code_byteSeq_of_short (hshort (.byteSeq f.numByteSeq f.byteSeq) (by simp [MefFilter.byteEq]))
    simp only [MefFilter.byteEq, Test.syms, flatMap_cons, hseq]
    rfl
  · obtain rfl := Option.some.inj h
    refine ⟨_, rfl, fun hshort => ?_⟩
    have hseq := code_byteSeq_of_short (hshort (.byteSeq f.numByteSeq f.byteSeq) (by simp [MefFilter.bitEq]))
    have hmask := code_byteSeq_of_short (hshort (.byteSeq f.numMaskSeq f.maskSeq) (by simp [MefFilter.bitEq]))
    simp only [MefFilter.bitEq, Test.syms, flatMap_cons, hseq, hmask]
    rfl

theorem code_oper_of_rpn {t : UInt8} (h : t = 0x44 ∨ t = 0x45) :
    ∃ r, Rpn.ofOctet t = some r ∧ (MefOp.oper t).code = (Sym.oper (.rpn r)).code := by
  rcases h with rfl | rfl
  · exact ⟨.and, rfl, rfl⟩
  · exact ⟨.or, rfl, rfl⟩

/-- From the second filter on. -/
theorem joinedTests_of_filled {i : ℕ} (hi : i ≠ 0) {l : List (UInt8 × MefFilter)} (hfilled : Filled l)
    (hrpn : ∀ p ∈ l, p.1 = 0x44 ∨ p.1 = 0x45) (hshort : ∀ op ∈ stackOps i l, op.Short) :
    ∃ r, joinedTests l = some r ∧ (stackOps i l).flatMap MefOp.code = (joined r).flatMap Sym.code := by
  induction l generalizing i with
  | nil => exact ⟨[], rfl, rfl⟩
  | cons p l ih =>
    obtain ⟨hp, hl⟩ := forall_mem_cons.mp hfilled
    obtain ⟨hr, hrs⟩ := forall_mem_cons.mp hrpn
    obtain ⟨ops, hops⟩ := Option.isSome_iff_exists.mp hp
    obtain ⟨t, ht, hcode⟩ := test_of_ops hops
    obtain ⟨r, hr, hoper⟩ := code_oper_of_rpn hr
    simp only [stackOps, hops, if_pos hi, forall_mem_append, singleton_append, forall_mem_cons] at hshort ⊢
    obtain ⟨rest, hrest, hrestCode⟩ := ih (Nat.succ_ne_zero i) hl hrs hshort.2.2
    refine ⟨(r, t) :: rest, by simp [joinedTests, hr, ht, hrest], ?_⟩
    have hjoined : joined ((r, t) :: rest) = t.syms ++ Sym.oper (.rpn r) :: joined rest := by simp [joined]
    rw [hjoined, flatMap_append, flatMap_append, flatMap_cons, flatMap_cons, hcode hshort.1, hoper, hrestCode]

namespace MefEntry

variable {e : MefEntry}

theorem chain_of_accepted (h : e.ReadsInside) (hacc : e.Accepted) (hrpn : e.Connected) :
    ∃ k, e.chain = some k ∧ e.stack = k.program.flatMap Sym.code := by
  obtain ⟨hfilled, hroom⟩ := hacc
  have hshort : ∀ op ∈ e.ops, op.Short := short_of_opsInside h (by rwa [Nat.zero_add])
  unfold stack ops chain at *
  unfold Connected at hrpn
  cases hitems : e.items with
  | nil => exact ⟨.empty, rfl, rfl⟩
  | cons p l =>
    rw [hitems] at hfilled hshort hrpn
    obtain ⟨hp, hl⟩ := forall_mem_cons.mp hfilled
    obtain ⟨ops, hops⟩ := Option.isSome_iff_exists.mp hp
    obtain ⟨t, ht, hcode⟩ := test_of_ops hops
    have hfirst : stackOps 0 (p :: l) = ops ++ stackOps 1 l := by simp [stackOps, hops]
    rw [hfirst] at hshort ⊢
    obtain ⟨hs, hsl⟩ := forall_mem_append.mp hshort
    obtain ⟨r, hr, hrest⟩ := joinedTests_of_filled Nat.one_ne_zero hl hrpn hsl
    refine ⟨.of t r, by simp [ht, hr], ?_⟩
    rw [Chain.program, flatMap_append, flatMap_append, hcode hs, hrest]

theorem connected_of_chain {k : Chain} (h : e.chain = some k) : e.Connected := by
  have hjoined : ∀ {l r}, joinedTests l = some r → ∀ p ∈ l, p.1 = 0x44 ∨ p.1 = 0x45 := by
    intro l
    induction l with
    | nil => exact fun _ p hp => absurd hp not_mem_nil
    | cons p l ih =>
      intro r hr
      obtain ⟨x, hx, hr⟩ := Option.bind_eq_some_iff.mp hr
      obtain ⟨t, -, hr⟩ := Option.bind_eq_some_iff.mp hr
      obtain ⟨r', hr', -⟩ := Option.map_eq_some_iff.mp hr
      refine forall_mem_cons.mpr ⟨?_, ih hr'⟩
      unfold Rpn.ofOctet at hx
      split_ifs at hx with hand hor
      · exact .inl hand
      · exact .inr hor
  unfold chain at h
  unfold Connected
  cases hitems : e.items with
  | nil => exact fun p hp => absurd hp not_mem_nil
  | cons p l =>
    rw [hitems] at h
    obtain ⟨t, -, h⟩ := Option.bind_eq_some_iff.mp h
    obtain ⟨r, hr, -⟩ := Option.map_eq_some_iff.mp h
    exact hjoined hr

/-- **What the stack of an entry means.** The stack of an accepted entry, written without an octet outside, is read as its filters
and decides what they say, if and only if they are joined by operators that there are. -/
theorem means (h : e.ReadsInside) (hacc : e.Accepted) : e.Means e.stack ↔ e.Connected := by
  refine ⟨fun ⟨k, hk, _⟩ => connected_of_chain hk, fun hrpn => ?_⟩
  obtain ⟨k, hk, hstack⟩ := chain_of_accepted h hacc hrpn
  exact ⟨k, hk, by rw [hstack, readStack_code], fun holds => k.foldlM_program holds⟩

end MefEntry

end WlanDriver.Mef
