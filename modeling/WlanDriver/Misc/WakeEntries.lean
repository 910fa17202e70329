import WlanDriver.Misc.WakeFilters

/-!
# Wake-up entries

`wlan_misc_ioctl_mef_flt_cfg` keeps an entry for ARP, one for the patterns of the user and one for neighbour solicitations, and
sends them with one command. `compiled_iff` : when a command says what its entries say, without an octet read outside of an
operand. `reply_runLog` : along every run, what is sent is what was set since the last removal, with the criteria of all requests.
-/

namespace WlanDriver.Mef

open List

def maxNumEntries : ℕ := 8

/-- `MRVDRV_SIZE_OF_CMD_BUFFER`. -/
def sizeOfCmdBuffer : ℕ := 3 * 1024

/-- `HostCmd_CMD_MEF_CFG`. -/
def cmdMefCfg : ℕ := 0x9a

structure MefCfgData where
  criteria : UInt32
  entries : List MefEntry

/-! ## The command -/

/-- The header of an entry, and its stack with its length. -/
def entryOctets (e : MefEntry) (s : List UInt8) : List UInt8 :=
  e.mode :: e.action :: (Tlv.le16 s.length ++ s)

/-- The entries one behind the other. The memory that they are written to is zeroed, so that each stack is empty at first. -/
def entriesOctets : List MefEntry → Except MefError (List UInt8)
  | [] => .ok []
  | e :: es => do
    let s ← wlanGenerateMefFilterStack e
    let bs ← entriesOctets es
    .ok (entryOctets e s ++ bs)

/-- A header with command, size, sequence number and result, the criteria, and the entries with their number. -/
def commandOctets (criteria : UInt32) (n : ℕ) (bs : List UInt8) : List UInt8 :=
  Tlv.le16 cmdMefCfg ++ (Tlv.le16 (14 + bs.length) ++ (replicate 4 0 ++ (le32 criteria.toNat ++ (Tlv.le16 n ++ bs))))

/-- The command that `wlan_prepare_cmd` gets, with `memory` for it or without. -/
def wlanSetMefEntry (memory : Bool) (c : MefCfgData) : Except MefError (List UInt8) :=
  if maxNumEntries < c.entries.length then .error .refused
  else if memory then do
    let bs ← entriesOctets c.entries
    .ok (commandOctets c.criteria c.entries.length bs)
  else .error .refused

/-- What an entry of a command is read as. -/
structure EntryRead where
  mode : UInt8
  action : UInt8
  stack : List UInt8

/-- `n` entries, with nothing behind them. -/
def readEntries : ℕ → List UInt8 → Option (List EntryRead)
  | 0, bs => if bs = [] then some [] else none
  | n + 1, mode :: action :: bs =>
    if Tlv.get16 bs + 2 ≤ bs.length then
      (readEntries n (bs.drop (Tlv.get16 bs + 2))).map (⟨mode, action, (bs.drop 2).take (Tlv.get16 bs)⟩ :: ·)
    else none
  | _ + 1, _ => none

/-- The criteria and the entries of a command whose size is its length. -/
def readCommand (cmd : List UInt8) : Option (UInt32 × List EntryRead) :=
  if Tlv.get16 cmd = cmdMefCfg ∧ Tlv.get16 (cmd.drop 2) = cmd.length then
    (readEntries (Tlv.get16 (cmd.drop 12)) (cmd.drop 14)).map (UInt32.ofNat (get32 (cmd.drop 8)), ·)
  else none

/-- `x` says what the entry `e` says, in a stack that is not too long. -/
structure EntryRead.Says (e : MefEntry) (x : EntryRead) : Prop where
  mode : x.mode = e.mode
  action : x.action = e.action
  length_le : x.stack.length ≤ maxNumStackBytes
  means : e.Means x.stack

/-- What is asked of the outcome : no octet is read outside of an operand, a command fits its buffer and says what its entries
say, one by one, and there is none if a filter was refused. -/
structure Compiled (c : MefCfgData) (out : Except MefError (List UInt8)) : Prop where
  inside : out ≠ .error .readOutside
  faithful : ∀ cmd, out = .ok cmd → cmd.length ≤ sizeOfCmdBuffer ∧
    ∃ xs, readCommand cmd = some (c.criteria, xs) ∧ Forall₂ EntryRead.Says c.entries xs
  refused : ∀ e ∈ c.entries, wlanGenerateMefFilterStack e = .error .refused → ∀ cmd, out ≠ .ok cmd

/-! ## What is written -/

/-- No octet outside is read for the entries up to the first that is refused. -/
def EntriesInside : List MefEntry → Prop
  | [] => True
  | e :: es => e.ReadsInside ∧ (e.Accepted → EntriesInside es)

theorem entriesOctets_outside {es : List MefEntry} (h : ¬EntriesInside es) : entriesOctets es = .error .readOutside := by
  induction es with
  | nil => exact absurd trivial h
  | cons e es ih =>
    obtain ⟨hin, hout⟩ := wlanGenerateMefFilterStack_eq e
    rw [entriesOctets]
    by_cases he : e.ReadsInside
    · obtain ⟨hacc, hrest⟩ := Classical.not_imp.mp (not_and.mp h he)
      rw [(hin he).1 hacc, ih hrest]
      rfl
    · rw [hout he]
      rfl

theorem entriesOctets_refused {es : List MefEntry} (h : EntriesInside es) (hacc : ¬∀ e ∈ es, e.Accepted) :
    entriesOctets es = .error .refused := by
  induction es with
  | nil => exact absurd (fun e he => absurd he not_mem_nil) hacc
  | cons e es ih =>
    have hin := (wlanGenerateMefFilterStack_eq e).1 h.1
    rw [entriesOctets]
    by_cases he : e.Accepted
    · rw [hin.1 he, ih (h.2 he) fun hall => hacc (forall_mem_cons.mpr ⟨he, hall⟩)]
      rfl
    · rw [hin.2 he]
      rfl

theorem entriesOctets_accepted {es : List MefEntry} (h : EntriesInside es) (hacc : ∀ e ∈ es, e.Accepted) :
    entriesOctets es = .ok (es.flatMap fun e => entryOctets e e.stack) := by
  induction es with
  | nil => rfl
  | cons e es ih =>
    obtain ⟨he, hes⟩ := forall_mem_cons.mp hacc
    rw [entriesOctets, ((wlanGenerateMefFilterStack_eq e).1 h.1).1 he, ih (h.2 he) hes]
    rfl

theorem readsInside_of_mem {es : List MefEntry} (h : EntriesInside es) (hacc : ∀ e ∈ es, e.Accepted) :
    ∀ e ∈ es, e.ReadsInside := by
  induction es with
  | nil => exact fun e he => absurd he not_mem_nil
  | cons e es ih =>
    obtain ⟨he, hes⟩ := forall_mem_cons.mp hacc
    exact forall_mem_cons.mpr ⟨h.1, ih (h.2 he) hes⟩

/-! ## How a command is read -/

theorem length_entries_le {es : List MefEntry} (hacc : ∀ e ∈ es, e.Accepted) :
    (es.flatMap fun e => entryOctets e e.stack).length ≤ 104 * es.length := by
  induction es with
  | nil => exact Nat.le_refl 0
  | cons e es ih =>
    obtain ⟨he, hes⟩ := forall_mem_cons.mp hacc
    have hlen := he.2
    have hrest := ih hes
    simp only [flatMap_cons, length_append, length_cons, entryOctets, Tlv.length_le16, maxNumStackBytes] at hlen hrest ⊢
    omega

theorem readEntries_octets {es : List MefEntry} (hacc : ∀ e ∈ es, e.Accepted) :
    readEntries es.length (es.flatMap fun e => entryOctets e e.stack) =
      some (es.map fun e => ⟨e.mode, e.action, e.stack⟩) := by
  induction es with
  | nil => rfl
  | cons e es ih =>
    obtain ⟨he, hes⟩ := forall_mem_cons.mp hacc
    have hlen : e.stack.length < 65536 := Nat.lt_of_le_of_lt he.2 (by decide)
    have hget := Tlv.get16_le16 hlen (e.stack ++ es.flatMap fun e => entryOctets e e.stack)
    simp only [flatMap_cons, entryOctets, cons_append, append_assoc, length_cons, readEntries] at hget ⊢
    rw [hget, if_pos (by simp only [length_append, Tlv.length_le16]; omega), Nat.add_comm, ← drop_drop,
      drop_left' (Tlv.length_le16 _), drop_left, take_left]
    exact congrArg (Option.map _) (ih hes)

theorem length_commandOctets (criteria : UInt32) (n : ℕ) (bs : List UInt8) :
    (commandOctets criteria n bs).length = 14 + bs.length := by
  simp [commandOctets, le32]
  omega

theorem readCommand_commandOctets (criteria : UInt32) {n : ℕ} (hn : n < 65536) {bs : List UInt8}
    (hlen : 14 + bs.length < 65536) : readCommand (commandOctets criteria n bs) = (readEntries n bs).map (criteria, ·) := by
  have hsize : Tlv.get16 ((commandOctets criteria n bs).drop 2) = 14 + bs.length := Tlv.get16_le16 hlen _
  have hcriteria : get32 ((commandOctets criteria n bs).drop 8) = criteria.toNat := get32_le32 criteria.toNat_lt _
  have hnum : Tlv.get16 ((commandOctets criteria n bs).drop 12) = n := Tlv.get16_le16 hn _
  have hbody : (commandOctets criteria n bs).drop 14 = bs := rfl
  rw [readCommand, hsize, hcriteria, hnum, hbody, length_commandOctets, if_pos ⟨Tlv.get16_le16 (by decide) _, rfl⟩,
    UInt32.ofNat_toNat]

theorem forall₂_says {es : List MefEntry} (h : ∀ e ∈ es, e.ReadsInside ∧ e.Accepted ∧ e.Connected) :
    Forall₂ EntryRead.Says es (es.map fun e => ⟨e.mode, e.action, e.stack⟩) := by
  induction es with
  | nil => exact .nil
  | cons e es ih =>
    obtain ⟨⟨hin, hacc, hrpn⟩, hes⟩ := forall_mem_cons.mp h
    exact .cons ⟨rfl, rfl, hacc.2, (e.means hin hacc).mpr hrpn⟩ (ih hes)

section Compiled

variable {c : MefCfgData} (hnum : c.entries.length ≤ maxNumEntries)

include hnum

theorem wlanSetMefEntry_of_accepted (hin : EntriesInside c.entries) (hacc : ∀ e ∈ c.entries, e.Accepted) :
    wlanSetMefEntry true c = .ok (commandOctets c.criteria c.entries.length
      (c.entries.flatMap fun e => entryOctets e e.stack)) := by
  rw [wlanSetMefEntry, if_neg (Nat.not_lt.mpr hnum), if_pos rfl, entriesOctets_accepted hin hacc]
  rfl

theorem readCommand_of_accepted (hacc : ∀ e ∈ c.entries, e.Accepted) :
    readCommand (commandOctets c.criteria c.entries.length (c.entries.flatMap fun e => entryOctets e e.stack)) =
      some (c.criteria, c.entries.map fun e => ⟨e.mode, e.action, e.stack⟩) := by
  have hlen := length_entries_le hacc
  have hmax : c.entries.length ≤ 8 := hnum
  rw [readCommand_commandOctets _ (by omega) (by omega), readEntries_octets hacc]
  rfl

theorem entriesInside_of_compiled (h : Compiled c (wlanSetMefEntry true c)) : EntriesInside c.entries := by
  by_contra hout
  refine h.inside ?_
  rw [wlanSetMefEntry, if_neg (Nat.not_lt.mpr hnum), if_pos rfl, entriesOctets_outside hout]
  rfl

theorem connected_of_compiled (h : Compiled c (wlanSetMefEntry true c)) (hacc : ∀ e ∈ c.entries, e.Accepted) :
    ∀ e ∈ c.entries, e.Connected := by
  have hin := entriesInside_of_compiled hnum h
  obtain ⟨-, xs, hread, hsays⟩ := h.faithful _ (wlanSetMefEntry_of_accepted hnum hin hacc)
  obtain rfl : c.entries.map (fun e => (⟨e.mode, e.action, e.stack⟩ : EntryRead)) = xs := by
    simpa [readCommand_of_accepted hnum hacc] using hread
  intro e he
  have hmeans : e.Means e.stack := (forall₂_map_right_iff.mp hsays |> forall₂_same.mp) e he |>.means
  exact (e.means (readsInside_of_mem hin hacc e he) (hacc e he)).mp hmeans

theorem compiled_of_inside (hin : EntriesInside c.entries)
    (hrpn : (∀ e ∈ c.entries, e.Accepted) → ∀ e ∈ c.entries, e.Connected) : Compiled c (wlanSetMefEntry true c) := by
  by_cases hacc : ∀ e ∈ c.entries, e.Accepted
  · have hreads := readsInside_of_mem hin hacc
    rw [wlanSetMefEntry_of_accepted hnum hin hacc]
    refine ⟨by simp, fun cmd hcmd => ?_, fun e he href => ?_⟩
    · obtain rfl := Except.ok.inj hcmd
      refine ⟨?_, _, readCommand_of_accepted hnum hacc, forall₂_says fun e he => ⟨hreads e he, hacc e he, hrpn hacc e he⟩⟩
      have hlen := length_entries_le hacc
      have hmax : c.entries.length ≤ 8 := hnum
      rw [length_commandOctets, sizeOfCmdBuffer]
      omega
    · have hok := ((wlanGenerateMefFilterStack_eq e).1 (hreads e he)).1 (hacc e he)
      exact absurd (hok.symm.trans href) (by simp)
  · have hout : wlanSetMefEntry true c = .error .refused := by
      rw [wlanSetMefEntry, if_neg (Nat.not_lt.mpr hnum), if_pos rfl, entriesOctets_refused hin hacc]
      rfl
    rw [hout]
    exact ⟨by simp, by simp, by simp⟩

end Compiled

/-- **Commands say what their entries say**, and no octet is read outside of an operand, exactly where there are too many entries
or no memory, or each sequence that is come to is short if there is room for it, and the filters of entries that are all accepted
are joined by operators that there are. -/
theorem compiled_iff (memory : Bool) (c : MefCfgData) : Compiled c (wlanSetMefEntry memory c) ↔
    (memory = true → c.entries.length ≤ maxNumEntries → EntriesInside c.entries ∧
      ((∀ e ∈ c.entries, e.Accepted) → ∀ e ∈ c.entries, e.Connected)) := by
  constructor
  · rintro h rfl hnum
    exact ⟨entriesInside_of_compiled hnum h, connected_of_compiled hnum h⟩
  · intro h
    by_cases hnum : c.entries.length ≤ maxNumEntries
    · cases memory with
      | true => exact compiled_of_inside hnum (h rfl hnum).1 (h rfl hnum).2
      | false =>
        rw [wlanSetMefEntry, if_neg (Nat.not_lt.mpr hnum)]
        exact ⟨by simp, by simp, by simp⟩
    · rw [wlanSetMefEntry, if_pos (Nat.not_le.mp hnum)]
      exact ⟨by simp, by simp, by simp⟩

/-- A filter for the octets `bs` at `offset`, as `woal_set_auto_arp_ext` fills it. -/
def byteFilter (offset : UInt16) (num : UInt8) (bs : SeqArray) : MefFilter :=
  ⟨53, 0x41, 0, offset, 0, 1, num, bs, 0, ⟨replicate 6 0, rfl⟩⟩

/-- The entry of `woal_set_auto_arp_ext` with two addresses : `rpn[2]` is left at 0. -/
def twoAddresses : MefEntry :=
  ⟨1, 0x10, [(0, byteFilter 20 2 ⟨[8, 6, 0, 0, 0, 0], rfl⟩), (0x44, byteFilter 46 4 ⟨[192, 168, 0, 1, 0, 0], rfl⟩),
    (0, byteFilter 46 4 ⟨[192, 168, 1, 1, 0, 0], rfl⟩)]⟩

/-- An entry whose only filter has seven octets. -/
def sevenOctets : MefEntry :=
  ⟨1, 3, [(0, byteFilter 20 7 ⟨[1, 2, 3, 4, 5, 6], rfl⟩)]⟩

/-- Of seven octets one lies outside, and the stack of two addresses is not read as a program. -/
theorem not_compiled : ¬Compiled ⟨3, [sevenOctets]⟩ (wlanSetMefEntry true ⟨3, [sevenOctets]⟩) ∧
    ¬Compiled ⟨3, [twoAddresses]⟩ (wlanSetMefEntry true ⟨3, [twoAddresses]⟩) := by
  refine ⟨fun h => ?_, fun h => ?_⟩
  · have hin : sevenOctets.ReadsInside := (entriesInside_of_compiled (by decide) h).1
    exact absurd hin (by decide)
  · have hacc : ∀ e ∈ [twoAddresses], e.Accepted := by decide
    exact absurd (connected_of_compiled (by decide) h hacc) (by decide)

/-! ## The table of an adapter -/

/-- `entry[5]`, `entry[6]` and `entry[7]` of `mef_entry`. -/
inductive MefSlot
  | autoarp
  | wowlan
  | ipv6ns
  deriving DecidableEq

/-- `mef_entry` : the entries whose number is not 0. -/
structure MefTable where
  entry : MefSlot → Option MefEntry
  clearMefEntry : Bool
  criteria : UInt32

inductive MefAction
  | set
  | get
  | other
  deriving DecidableEq

/-- A request, and the memory that there is for it : for the entries, and for the command. `actType` is `none` for any other
`mef_act_type`. -/
structure MefFltCfg where
  action : MefAction
  actType : Option MefSlot
  opCode : UInt32
  criteria : UInt32
  entry : MefEntry
  entriesMemory : Bool
  commandMemory : Bool

/-- What becomes of a request : its status, its entry, and the outcome of `wlan_set_mef_entry` if it was called. -/
@[ext] structure MefReply where
  status : Bool
  entry : MefEntry
  sent : Option (Except MefError (List UInt8))

namespace MefTable

def started : MefTable :=
  ⟨fun _ => none, false, 0⟩

/-- An entry as it is after `memset`. -/
def noEntry : MefEntry :=
  ⟨0, 0, []⟩

/-- `wlan_process_mef_cfg_cmd`. -/
def processMefCfgCmd (t : MefTable) (q : MefFltCfg) : Option (Except MefError (List UInt8)) :=
  let entries := [.autoarp, .wowlan, .ipv6ns].filterMap t.entry
  if entries.isEmpty ∧ t.clearMefEntry = false then none
  else if entries.isEmpty ∨ q.entriesMemory then some (wlanSetMefEntry q.commandMemory ⟨t.criteria, entries⟩)
  else none

def put (t : MefTable) (k : MefSlot) (q : MefFltCfg) : MefTable :=
  { t with entry := Function.update t.entry k (some q.entry), criteria := t.criteria ||| q.criteria }

/-- The criteria stay. -/
def clear (t : MefTable) : MefTable :=
  ⟨fun _ => none, true, t.criteria⟩

/-- `MLAN_ACT_SET` : the table, and what is sent. -/
def setMefFltCfg (t : MefTable) (q : MefFltCfg) : MefTable × Option (Except MefError (List UInt8)) :=
  match q.actType with
  | none => (t, none)
  | some .wowlan => (t.put .wowlan q, none)
  | some .ipv6ns => (t.put .ipv6ns q, none)
  | some .autoarp =>
    -- `MLAN_IPADDR_OP_AUTO_ARP_RESP` and `MLAN_IPADDR_OP_IP_REMOVE`.
    if q.opCode &&& 2 ≠ 0 then (t.put .autoarp q, (t.put .autoarp q).processMefCfgCmd q)
    else if q.opCode = 0 then (t.clear, t.clear.processMefCfgCmd q)
    else (t, none)

/-- `wlan_misc_ioctl_mef_flt_cfg`. -/
def miscIoctlMefFltCfg (t : MefTable) (q : MefFltCfg) : MefTable × MefReply :=
  match q.action with
  | .set => ((t.setMefFltCfg q).1, ⟨true, q.entry, (t.setMefFltCfg q).2⟩)
  | .get => (t, ⟨true, if q.actType = some .wowlan then (t.entry .wowlan).getD noEntry else q.entry, none⟩)
  | .other => (t, ⟨false, q.entry, none⟩)

def runLog (l : List MefFltCfg) : MefTable :=
  l.foldl (fun t q => (t.miscIoctlMefFltCfg q).1) started

end MefTable

namespace MefFltCfg

variable (q : MefFltCfg)

/-- The slot that a request sets. -/
def sets : Option MefSlot :=
  if q.action = .set then q.actType.filter fun k => k ≠ .autoarp ∨ q.opCode &&& 2 ≠ 0 else none

/-- All entries are removed. -/
def Removes : Prop :=
  q.action = .set ∧ q.actType = some .autoarp ∧ q.opCode = 0
  deriving Decidable

/-- The patterns of the user are asked for. -/
def Asks : Prop :=
  q.action = .get ∧ q.actType = some .wowlan
  deriving Decidable

end MefFltCfg

/-- The entry of the last request that set a slot, if nothing was removed since. -/
def current (l : List MefFltCfg) (k : MefSlot) : Option MefEntry :=
  ((l.reverse.takeWhile fun q => ¬q.Removes).find? fun q => q.sets = some k).map MefFltCfg.entry

/-- The criteria of all requests that set a slot. -/
def allCriteria (l : List MefFltCfg) : UInt32 :=
  (l.filter fun q => q.sets.isSome).foldl (fun c q => c ||| q.criteria) 0

theorem current_append (l : List MefFltCfg) (q : MefFltCfg) (k : MefSlot) : current (l ++ [q]) k =
    if q.Removes then none else if q.sets = some k then some q.entry else current l k := by
  unfold current
  rw [reverse_append, reverse_singleton, singleton_append, takeWhile_cons]
  by_cases hr : q.Removes
  · simp [hr]
  · by_cases hs : q.sets = some k <;> simp [hr, hs]

theorem allCriteria_append (l : List MefFltCfg) (q : MefFltCfg) :
    allCriteria (l ++ [q]) = if q.sets.isSome then allCriteria l ||| q.criteria else allCriteria l := by
  unfold allCriteria
  cases hs : q.sets <;> simp [filter_append, hs]

/-- The entries that are set, in the order they are sent in. -/
def currentEntries (l : List MefFltCfg) : List MefEntry :=
  [.autoarp, .wowlan, .ipv6ns].filterMap (current l)

namespace MefTable

/-- What a request does to the table, and what is sent. -/
theorem miscIoctlMefFltCfg_cases (t : MefTable) (q : MefFltCfg) :
    (∃ k, q.sets = some k ∧ ¬q.Removes ∧ (t.miscIoctlMefFltCfg q).1 = t.put k q ∧
      (t.miscIoctlMefFltCfg q).2.sent = if k = .autoarp then (t.put k q).processMefCfgCmd q else none) ∨
    q.sets = none ∧ q.Removes ∧ (t.miscIoctlMefFltCfg q).1 = t.clear ∧
      (t.miscIoctlMefFltCfg q).2.sent = t.clear.processMefCfgCmd q ∨
    q.sets = none ∧ ¬q.Removes ∧ (t.miscIoctlMefFltCfg q).1 = t ∧ (t.miscIoctlMefFltCfg q).2.sent = none := by
  unfold miscIoctlMefFltCfg setMefFltCfg MefFltCfg.sets MefFltCfg.Removes
  rcases q.action with _ | _ | _
  · rcases q.actType with _ | _ | _ | _
    · exact .inr (.inr (by simp))
    · by_cases harp : q.opCode &&& 2 = 0
      · by_cases h0 : q.opCode = 0
        · exact .inr (.inl (by simp [h0]))
        · exact .inr (.inr (by simp [harp, h0]))
      · exact .inl ⟨.autoarp, by simp [harp], fun h => harp (by simp [h.2.2]), by simp [harp]⟩
    · exact .inl ⟨.wowlan, by simp⟩
    · exact .inl ⟨.ipv6ns, by simp⟩
  · exact .inr (.inr (by simp))
  · exact .inr (.inr (by simp))

theorem runLog_append (l : List MefFltCfg) (q : MefFltCfg) : runLog (l ++ [q]) = ((runLog l).miscIoctlMefFltCfg q).1 :=
  foldl_append

/-- The table after a run. -/
theorem runLog_eq (l : List MefFltCfg) : (runLog l).entry = current l ∧ (runLog l).criteria = allCriteria l := by
  induction l using List.reverseRecOn with
  | nil => exact ⟨rfl, rfl⟩
  | append_singleton l q ih =>
    obtain ⟨hentry, hcriteria⟩ := ih
    rw [runLog_append, allCriteria_append, ← hcriteria]
    obtain ⟨k, hs, hr, hq, -⟩ | ⟨hs, hr, hq, -⟩ | ⟨hs, hr, hq, -⟩ := miscIoctlMefFltCfg_cases (runLog l) q <;>
      refine ⟨funext fun k' => ?_, ?_⟩ <;>
      simp [current_append, hq, hs, hr, put, clear, hentry, Function.update_apply, eq_comm]

/-- There is something to be sent where something is. -/
theorem set_or_cleared {l : List MefFltCfg} {q : MefFltCfg} (h : q.Removes ∨ q.sets = some .autoarp) :
    ¬(currentEntries (l ++ [q]) = [] ∧ (runLog (l ++ [q])).clearMefEntry = false) := by
  rintro ⟨hempty, hclear⟩
  rw [runLog_append] at hclear
  obtain ⟨k, hs, hr, hq, -⟩ | ⟨hs, hr, hq, -⟩ | ⟨hs, hr, hq, -⟩ := miscIoctlMefFltCfg_cases (runLog l) q
  · have hk : q.sets = some .autoarp := h.resolve_left hr
    have hcurrent : current (l ++ [q]) .autoarp = some q.entry := by rw [current_append, if_neg hr, if_pos hk]
    rw [currentEntries, filterMap_cons_some hcurrent] at hempty
    exact absurd hempty (by simp)
  · rw [hq] at hclear
    exact absurd hclear (by simp [clear])
  · exact (h.resolve_left hr |>.symm.trans hs |> Option.some_ne_none _).elim

theorem sent_runLog (l : List MefFltCfg) (q : MefFltCfg) : ((runLog l).miscIoctlMefFltCfg q).2.sent =
    if (q.Removes ∨ q.sets = some .autoarp) ∧ (currentEntries (l ++ [q]) = [] ∨ q.entriesMemory) then
      some (wlanSetMefEntry q.commandMemory ⟨allCriteria (l ++ [q]), currentEntries (l ++ [q])⟩)
    else none := by
  obtain ⟨hentry, hcriteria⟩ := runLog_eq (l ++ [q])
  have hsent : ((runLog l).miscIoctlMefFltCfg q).2.sent =
      if q.Removes ∨ q.sets = some .autoarp then (runLog (l ++ [q])).processMefCfgCmd q else none := by
    rw [runLog_append]
    obtain ⟨k, hs, hr, hq, hsent⟩ | ⟨hs, hr, hq, hsent⟩ | ⟨hs, hr, hq, hsent⟩ := miscIoctlMefFltCfg_cases (runLog l) q
    · simp [hs, hr, hq, hsent]
    · simp [hr, hq, hsent]
    · simp [hs, hr, hsent]
  rw [hsent]
  by_cases hact : q.Removes ∨ q.sets = some .autoarp
  · have hsome := set_or_cleared (l := l) hact
    have hentries : [.autoarp, .wowlan, .ipv6ns].filterMap (runLog (l ++ [q])).entry = currentEntries (l ++ [q]) := by
      rw [hentry]
      rfl
    rw [if_pos hact, processMefCfgCmd]
    simp only [hentries, hcriteria, List.isEmpty_iff, if_neg hsome, hact, true_and]
  · rw [if_neg hact, if_neg fun hboth => hact hboth.1]

/-- **What becomes of requests.** In every run, the answer to ARP and the removal send what has been set since the last removal,
and the criteria of all requests, unless there is no memory for the entries; no other request sends anything. The patterns of the
user are given back as they were set last, and only an action that is neither `MLAN_ACT_SET` nor `MLAN_ACT_GET` fails. -/
theorem reply_runLog (l : List MefFltCfg) (q : MefFltCfg) : ((runLog l).miscIoctlMefFltCfg q).2 =
    { status := q.action ≠ .other
      entry := if q.Asks then (current l .wowlan).getD noEntry else q.entry
      sent :=
        if (q.Removes ∨ q.sets = some .autoarp) ∧ (currentEntries (l ++ [q]) = [] ∨ q.entriesMemory) then
          some (wlanSetMefEntry q.commandMemory ⟨allCriteria (l ++ [q]), currentEntries (l ++ [q])⟩)
        else none } := by
  refine MefReply.ext ?_ ?_ (sent_runLog l q)
  · unfold miscIoctlMefFltCfg
    cases q.action <;> rfl
  · show _ = if q.action = .get ∧ q.actType = some .wowlan then (current l .wowlan).getD noEntry else q.entry
    rw [← (runLog_eq l).1]
    unfold miscIoctlMefFltCfg
    cases q.action <;> simp

end MefTable

end WlanDriver.Mef
