import Mathlib.Data.List.Basic
import WlanDriver.Lib.System

/-!
# Blocks of the dynamic firmware image

The firmware asks for blocks of its VDLL image with events. `wlan_process_vdll_event` sends a block at once, or, while a
command is outstanding, keeps a pointer and a length for the main process. Another event replaces the image.

An allocation of the image has a number, and a pointer carries the number of the image it points into : after the
image is freed the number is gone. Every request is numbered too, and `copies` notes each copy into a command buffer,
with the octets that the request asked for.

Nothing keeps a deferred block from being overwritten by the next request, from outliving its image or from being
larger than the buffer. `Vdll.Keeps` says which steps do none of that, and `vdll_blocks` what holds along their runs.
-/

namespace WlanDriver.Cmd

open List

/-! ## State -/

/-- The interface of the card. -/
inductive CardType
  | sdio
  | pcie
  | usb
  deriving DecidableEq

/-- The memory at `vdll_mem`. -/
structure VdllImage where
  /-- Which allocation it is. -/
  gen : ℕ
  data : List UInt8
  deriving DecidableEq

/-- A pointer into an image. -/
structure VdllPtr where
  gen : ℕ
  offset : ℕ
  deriving DecidableEq

/-- One copy of a block into a command buffer. -/
structure VdllCopy where
  /-- The request it is for. -/
  req : ℕ
  /-- What the request asked for. -/
  wanted : List UInt8
  /-- What was copied; `none` out of memory that is no longer the image. -/
  copied : Option (List UInt8)
  /-- Where in the buffer. -/
  start : ℕ
  len : ℕ
  /-- `host_to_card` did not fail. -/
  downloaded : Bool
  deriving DecidableEq

/-- `vdll_dnld_ctrl` and `cmd_sent`. -/
structure Vdll where
  cmdSent : Bool
  /-- `cmd_buf->data_offset`. -/
  cmdBuf : Option ℕ
  vdllMem : Option VdllImage
  vdllLen : ℕ
  pendingBlock : Option VdllPtr
  pendingBlockLen : ℕ
  /-- Images allocated so far. -/
  gens : ℕ
  /-- Requests taken so far. -/
  reqs : ℕ
  /-- The request that the pending block is for, and what it asked for. -/
  pendingReq : ℕ
  pendingWanted : List UInt8
  /-- The requests that were deferred. -/
  deferred : List ℕ
  copies : List VdllCopy
  deriving DecidableEq

/-- What one download meets outside. -/
structure DnldEnv where
  /-- `wlan_alloc_mlan_buffer` has a buffer, for USB. -/
  buf : Bool
  /-- `wlan_get_priv` finds an interface. -/
  priv : Bool
  /-- The write to the card fails. -/
  fails : Bool
  deriving DecidableEq

/-- `MRVDRV_SIZE_OF_CMD_BUFFER`. -/
def sizeOfCmdBuffer : ℕ := 3 * 1024

/-- `intf_header_len`, and `MLAN_TYPE_LEN` for USB. -/
def vdllHeaderLen : ℕ := 4

/-- `sizeof(HostCmd_DS_GEN)`. -/
def hostCmdDsGen : ℕ := 8

namespace Vdll

variable (s : Vdll)

/-! ## Downloads -/

/-- The octets at a pointer. Nothing is read through a null pointer for an empty block. -/
def read (p : Option VdllPtr) (len : ℕ) : Option (List UInt8) :=
  match p, s.vdllMem with
  | none, _ => if len = 0 then some [] else none
  | some p, some m => if p.gen = m.gen then some ((m.data.drop p.offset).take len) else none
  | some _, none => none

/-- The `data_offset` of the buffer that a download works with. -/
def buffer (card : CardType) (env : DnldEnv) : Option ℕ :=
  if card = .usb then if env.buf then some 0 else none else s.cmdBuf

/-- `data_len` as `host_to_card` gets it, after a `t_u16`. -/
def vdllDataLen (blockLen : ℕ) : ℕ :=
  (blockLen + hostCmdDsGen) % 2 ^ 16 + vdllHeaderLen

/-- `host_to_card` for a block : does it fail, and `cmd_sent`. -/
def hostToCard (card : CardType) (env : DnldEnv) (blockLen : ℕ) : Bool × Bool :=
  match card with
  | .sdio =>
    -- in blocks of 256
    if sizeOfCmdBuffer < (vdllDataLen blockLen + 255) / 256 * 256 then (true, s.cmdSent) else (env.fails, true)
  | .pcie | .usb => (env.fails, !env.fails)

/-- `wlan_download_vdll_block`, for the request `req`. -/
def downloadVdllBlock (card : CardType) (env : DnldEnv) (block : Option VdllPtr) (blockLen req : ℕ)
    (wanted : List UInt8) : Vdll :=
  match s.buffer card env with
  | none => s
  | some offset =>
    let start := offset + vdllHeaderLen
    if env.priv then
      let sent := s.hostToCard card env blockLen
      { s with
        cmdBuf := if card = .usb then s.cmdBuf else some (start - vdllHeaderLen)
        cmdSent := sent.2
        copies := s.copies ++
          [⟨req, wanted, s.read block blockLen, start + hostCmdDsGen, blockLen, !sent.1⟩] }
    else { s with cmdBuf := if card = .usb then s.cmdBuf else some start }

/-! ## Events -/

/-- `moal_get_vdll_data` : the end of the firmware file. -/
def moalGetVdllData (firmware : Option (List UInt8)) (len : ℕ) : Option (List UInt8) :=
  firmware.bind fun f => if len < f.length then some (f.drop (f.length - len)) else none

/-- `wlan_get_vdll_image`. `alloc` is the answer of the allocator. -/
def getVdllImage (len : ℕ) (alloc : Bool) (firmware : Option (List UInt8)) : Vdll :=
  let freed := { s with vdllMem := none, vdllLen := if s.vdllMem.isSome then 0 else s.vdllLen }
  if alloc then
    match moalGetVdllData firmware len with
    | some data => { freed with vdllMem := some ⟨s.gens, data⟩, vdllLen := len, gens := s.gens + 1 }
    | none => { freed with vdllLen := 0, gens := s.gens + 1 }
  else freed

/-- The octets that a request asks for. -/
def wanted (offset blockLen : ℕ) : List UInt8 :=
  let data := (s.vdllMem.map VdllImage.data).getD []
  (data.drop offset).take (min blockLen (data.length - offset))

/-- `vdll_mem + offset`. -/
def blockAt (offset : ℕ) : Option VdllPtr :=
  s.vdllMem.map fun m => ⟨m.gen, offset⟩

/-- `VDLL_IND_TYPE_REQ`. -/
def blockRequest (card : CardType) (env : DnldEnv) (offset blockLen : ℕ) : Vdll :=
  if offset ≤ s.vdllLen then
    let len := min blockLen (s.vdllLen - offset)
    let u := { s with reqs := s.reqs + 1 }
    if s.cmdSent then
      { u with
        pendingBlockLen := len
        pendingBlock := s.blockAt offset
        pendingReq := s.reqs
        pendingWanted := s.wanted offset blockLen
        deferred := s.deferred ++ [s.reqs] }
    else u.downloadVdllBlock card env (s.blockAt offset) len s.reqs (s.wanted offset blockLen)
  else s

/-- The pending block in `mlan_main_process`. -/
def mainProcess (card : CardType) (env : DnldEnv) : Vdll :=
  if s.cmdSent = false ∧ s.pendingBlock.isSome then
    { s.downloadVdllBlock card env s.pendingBlock s.pendingBlockLen s.pendingReq s.pendingWanted with
      pendingBlock := none }
  else s

end Vdll

/-- What a run consists of. -/
inductive VdllStep
  /-- `VDLL_IND_TYPE_REQ`. -/
  | req (offset : UInt32) (blockLen : UInt16) (env : DnldEnv)
  /-- `VDLL_IND_TYPE_OFFSET`. -/
  | offset (len : UInt32) (alloc : Bool) (firmware : Option (List UInt8))
  /-- The error indications, and an unknown type. -/
  | err
  /-- A command is downloaded, or the card took one. -/
  | cmd (sent : Bool)
  | main (env : DnldEnv)
  deriving DecidableEq

namespace Vdll

variable (card : CardType) (s : Vdll)

/-- One step. -/
def step : VdllStep → Vdll
  | .req offset blockLen env => s.blockRequest card env offset.toNat blockLen.toNat
  | .offset len alloc firmware => s.getVdllImage len.toNat alloc firmware
  | .err => s
  | .cmd sent => { s with cmdSent := sent }
  | .main env => s.mainProcess card env

/-- `vdll_init`. -/
def initial (cmdBuf : Option ℕ) : Vdll where
  cmdSent := false
  cmdBuf := cmdBuf
  vdllMem := none
  vdllLen := 0
  pendingBlock := none
  pendingBlockLen := 0
  gens := 0
  reqs := 0
  pendingReq := 0
  pendingWanted := []
  deferred := []
  copies := []

/-- The block fits behind the headers. -/
def Fits (len : ℕ) : Prop :=
  vdllHeaderLen + hostCmdDsGen + len ≤ sizeOfCmdBuffer

instance : DecidablePred Fits :=
  fun _ => inferInstanceAs (Decidable (_ ≤ _))

/-- The condition on a step. A block that is sent at once fits, and an interface is found once the shared buffer is
taken; a block is deferred out of an image, and while no other is pending; the image stays while a block is pending;
and the pending block fits and is not lost in the download. -/
def Keeps : VdllStep → Prop
  | .req offset blockLen env =>
    offset.toNat ≤ s.vdllLen →
      if s.cmdSent then s.pendingBlock = none ∧ s.vdllMem.isSome
      else (s.buffer card env).isSome → (card ≠ .usb → env.priv = true) ∧
        (env.priv = true → Fits (min blockLen.toNat (s.vdllLen - offset.toNat)))
  | .offset _ _ _ => s.pendingBlock = none
  | .main env => s.cmdSent = false → s.pendingBlock.isSome →
    (s.buffer card env).isSome ∧ env.priv = true ∧ env.fails = false ∧ Fits s.pendingBlockLen
  | _ => True

instance (a : VdllStep) : Decidable (s.Keeps card a) := by
  cases a <;> unfold Keeps <;> infer_instance

/-- How often the block of a request went to the card. -/
def downloads (r : ℕ) : ℕ :=
  s.copies.countP fun c => c.req = r ∧ c.downloaded = true

/-- The block of this request is still to come. -/
def Pending (r : ℕ) : Prop :=
  s.pendingBlock.isSome ∧ s.pendingReq = r
  deriving Decidable

/-- What is wanted of the blocks. -/
structure Correct : Prop where
  /-- Every block copied has the octets that its request asked for. -/
  bytes : ∀ c ∈ s.copies, c.copied = some c.wanted
  /-- No copy leaves the buffer. -/
  room : ∀ c ∈ s.copies, c.start + c.len ≤ sizeOfCmdBuffer
  /-- A deferred block is still pending, or was downloaded once. -/
  once : ∀ r ∈ s.deferred, s.downloads r + (if s.Pending r then 1 else 0) = 1
  /-- A pending block lies in the present image. -/
  alive : ∀ p, s.pendingBlock = some p →
    ∃ m, s.vdllMem = some m ∧ p.gen = m.gen ∧ p.offset + s.pendingBlockLen ≤ m.data.length
  /-- The shared buffer has its idle offset. -/
  idle : ∀ o, s.cmdBuf = some o → o = 0

end Vdll

/-- VDLL events, commands and passes of the main process, from `vdll_init` on. -/
def vdllSystem (card : CardType) : System Vdll VdllStep where
  init s := ∃ b : Bool, s = Vdll.initial (if card ≠ .usb ∧ b then some 0 else none)
  step s a := some (s.step card a)

namespace Vdll

variable {card : CardType} {s : Vdll} {env : DnldEnv} {block : Option VdllPtr} {len r : ℕ} {w : List UInt8}

/-! ## Downloads keep the buffer -/

/-- The state after a copy. -/
def noted (s : Vdll) (sent : Bool) (c : VdllCopy) : Vdll :=
  { s with cmdSent := sent, copies := s.copies ++ [c] }

/-- The copy of a download from the idle offset. -/
def copyOf (s : Vdll) (card : CardType) (env : DnldEnv) (block : Option VdllPtr) (len r : ℕ) (w : List UInt8) :
    VdllCopy :=
  ⟨r, w, s.read block len, vdllHeaderLen + hostCmdDsGen, len, !(s.hostToCard card env len).1⟩

theorem buffer_idle (hidle : ∀ o, s.cmdBuf = some o → o = 0) {o : ℕ} (hb : s.buffer card env = some o) : o = 0 := by
  by_cases hu : card = .usb
  · simp only [buffer, if_pos hu] at hb
    split_ifs at hb
    exact (Option.some.inj hb).symm
  · simp only [buffer, if_neg hu] at hb
    exact hidle o hb

/-- With a buffer and an interface the block is copied, and the offset is idle again. -/
theorem downloadVdllBlock_of_priv (hidle : ∀ o, s.cmdBuf = some o → o = 0) (hb : (s.buffer card env).isSome)
    (hp : env.priv = true) : s.downloadVdllBlock card env block len r w =
      s.noted (s.hostToCard card env len).2 (s.copyOf card env block len r w) := by
  obtain ⟨o, ho⟩ := Option.isSome_iff_exists.mp hb
  obtain rfl := buffer_idle hidle ho
  have hbuf : (if card = .usb then s.cmdBuf else some (vdllHeaderLen - vdllHeaderLen)) = s.cmdBuf := by
    split_ifs with hu
    · rfl
    · simpa [buffer, hu] using ho.symm
  simp only [downloadVdllBlock, ho, hp, if_true, Nat.zero_add, hbuf, noted, copyOf]

/-- Without a buffer, or on USB without an interface, nothing changes. -/
theorem downloadVdllBlock_eq_self (h : (s.buffer card env).isSome → card = .usb ∧ env.priv = false) :
    s.downloadVdllBlock card env block len r w = s := by
  cases hb : s.buffer card env with
  | none => simp only [downloadVdllBlock, hb]
  | some o =>
    obtain ⟨rfl, hp⟩ := h (by simp [hb])
    simp only [downloadVdllBlock, hb, hp, Bool.false_eq_true, if_false, if_true]

/-- Rounded up to blocks, what fits still fits. -/
theorem hostToCard_of_fits (hfit : Fits len) (hf : env.fails = false) : (s.hostToCard card env len).1 = false := by
  have hlen : 4 + 8 + len ≤ 3 * 1024 := hfit
  cases card with
  | sdio =>
    have hsmall : ¬sizeOfCmdBuffer < (vdllDataLen len + 255) / 256 * 256 := by
      simp only [sizeOfCmdBuffer, vdllDataLen, hostCmdDsGen, vdllHeaderLen]
      omega
    simp only [hostToCard, if_neg hsmall, hf]
  | pcie => simp only [hostToCard, hf]
  | usb => simp only [hostToCard, hf]

theorem room_copyOf (hfit : Fits len) :
    (s.copyOf card env block len r w).start + (s.copyOf card env block len r w).len ≤ sizeOfCmdBuffer :=
  hfit

/-! ## The invariant -/

/-- What holds along the runs : besides what is wanted, the length belongs to the image, the pending block has the
octets of its request, and no request has been numbered twice. -/
structure Inv (s : Vdll) : Prop extends Correct s where
  len : s.vdllLen = ((s.vdllMem.map VdllImage.data).getD []).length
  pend : s.pendingBlock.isSome → s.read s.pendingBlock s.pendingBlockLen = some s.pendingWanted
  pendReq : s.pendingBlock.isSome → s.pendingReq ∈ s.deferred
  freshCopy : ∀ c ∈ s.copies, c.req < s.reqs
  freshDeferred : ∀ r ∈ s.deferred, r < s.reqs

theorem inv_initial {b : Option ℕ} (hb : ∀ o, b = some o → o = 0) : Inv (initial b) where
  bytes c hc := by cases hc
  room c hc := by cases hc
  once r hr := by cases hr
  alive p hp := by cases hp
  idle := hb
  len := rfl
  pend h := by cases h
  pendReq h := by cases h
  freshCopy c hc := by cases hc
  freshDeferred r hr := by cases hr

theorem downloads_snoc (c : VdllCopy) {sent : Bool} :
    (s.noted sent c).downloads r = s.downloads r + if c.req = r ∧ c.downloaded = true then 1 else 0 := by
  simp [downloads, noted, countP_append, countP_cons]

/-- What holds of the copies so far, and of the new one. -/
theorem forall_noted {P : VdllCopy → Prop} {c : VdllCopy} (h : ∀ d ∈ s.copies, P d) (hc : P c) :
    ∀ d ∈ s.copies ++ [c], P d :=
  forall_mem_append.mpr ⟨h, forall_mem_singleton.mpr hc⟩

theorem downloads_eq_zero (h : ∀ c ∈ s.copies, c.req ≠ r) : s.downloads r = 0 := by
  simp only [downloads, countP_eq_zero, decide_eq_true_eq]
  exact fun c hc hr => h c hc hr.1

/-- What a request points at is what it asks for. -/
theorem Inv.read_blockAt (h : s.Inv) (offset blockLen : ℕ) :
    s.read (s.blockAt offset) (min blockLen (s.vdllLen - offset)) = some (s.wanted offset blockLen) := by
  have hlen := h.len
  cases hm : s.vdllMem with
  | none =>
    have hz : s.vdllLen = 0 := by simpa [hm] using hlen
    simp [read, blockAt, hm, hz, wanted]
  | some m =>
    have hz : s.vdllLen = m.data.length := by simpa [hm] using hlen
    simp [read, blockAt, hm, hz, wanted]

/-- A request that is served at once. -/
theorem Inv.sendNow (h : s.Inv) {offset blockLen : ℕ}
    (hk : (s.buffer card env).isSome → (card ≠ .usb → env.priv = true) ∧
      (env.priv = true → Fits (min blockLen (s.vdllLen - offset)))) :
    Inv ({ s with reqs := s.reqs + 1 }.downloadVdllBlock card env (s.blockAt offset)
      (min blockLen (s.vdllLen - offset)) s.reqs (s.wanted offset blockLen)) := by
  have hbump : Inv { s with reqs := s.reqs + 1 } :=
    { h with
      freshCopy := fun c hc => (h.freshCopy c hc).trans (Nat.lt_succ_self _)
      freshDeferred := fun r hr => (h.freshDeferred r hr).trans (Nat.lt_succ_self _) }
  by_cases hgo : (s.buffer card env).isSome ∧ env.priv = true
  · obtain ⟨hbuf, hp⟩ := hgo
    have hfit := (hk hbuf).2 hp
    rw [downloadVdllBlock_of_priv (s := { s with reqs := s.reqs + 1 }) h.idle hbuf hp]
    refine { hbump with bytes := ?_, room := ?_, once := ?_, freshCopy := ?_ }
    · exact forall_noted h.bytes (h.read_blockAt offset blockLen)
    · exact forall_noted h.room (room_copyOf hfit)
    · intro r hr
      have hne : s.reqs ≠ r := (h.freshDeferred r hr).ne'
      rw [downloads_snoc, if_neg fun hc => hne hc.1, Nat.add_zero]
      exact h.once r hr
    · exact forall_noted hbump.freshCopy (Nat.lt_succ_self _)
  · rw [downloadVdllBlock_eq_self]
    · exact hbump
    · intro hbuf
      have hp : ¬env.priv = true := fun hp => hgo ⟨hbuf, hp⟩
      exact ⟨by_contra fun hu => hp ((hk hbuf).1 hu), by simpa using hp⟩

/-- A request that has to wait. -/
theorem Inv.defer (h : s.Inv) {offset blockLen : ℕ} (ho : offset ≤ s.vdllLen) (hnone : s.pendingBlock = none)
    (himg : s.vdllMem.isSome) :
    Inv { s with
      reqs := s.reqs + 1
      pendingBlockLen := min blockLen (s.vdllLen - offset)
      pendingBlock := s.blockAt offset
      pendingReq := s.reqs
      pendingWanted := s.wanted offset blockLen
      deferred := s.deferred ++ [s.reqs] } := by
  obtain ⟨m, hm⟩ := Option.isSome_iff_exists.mp himg
  have hz : s.vdllLen = m.data.length := by simpa [hm] using h.len
  refine { h with once := ?_, alive := ?_, pend := ?_, pendReq := ?_, freshCopy := ?_, freshDeferred := ?_ }
  · intro r hr
    rcases mem_append.mp hr with hr | hr
    · have hne : s.reqs ≠ r := (h.freshDeferred r hr).ne'
      have honce := h.once r hr
      simpa [downloads, Pending, hnone, hne] using honce
    · rw [mem_singleton.mp hr]
      have hzero : s.downloads s.reqs = 0 := downloads_eq_zero fun c hc => (h.freshCopy c hc).ne
      simpa [downloads, Pending, blockAt, hm] using hzero
  · intro p hp
    have hp' : (⟨m.gen, offset⟩ : VdllPtr) = p := by simpa [blockAt, hm] using hp
    refine ⟨m, hm, by rw [← hp'], ?_⟩
    rw [← hp']
    dsimp only
    omega
  · exact fun _ => h.read_blockAt offset blockLen
  · exact fun _ => mem_append_right _ (mem_singleton_self _)
  · exact fun c hc => (h.freshCopy c hc).trans (Nat.lt_succ_self _)
  · intro r hr
    rcases mem_append.mp hr with hr | hr
    · exact (h.freshDeferred r hr).trans (Nat.lt_succ_self _)
    · rw [mem_singleton.mp hr]
      exact Nat.lt_succ_self _

/-- A new image, while no block is pending. -/
theorem Inv.getVdllImage (h : s.Inv) (hnone : s.pendingBlock = none) (n : ℕ) (alloc : Bool)
    (firmware : Option (List UInt8)) : Inv (s.getVdllImage n alloc firmware) := by
  have hpend : ∀ {u : Vdll}, u.pendingBlock = s.pendingBlock → u.pendingBlock.isSome → False :=
    fun hu hs => by simp [hu, hnone] at hs
  have hfreed : (if s.vdllMem.isSome then 0 else s.vdllLen) = 0 := by
    have := h.len
    cases hm : s.vdllMem with
    | none => simpa [hm] using this
    | some m => simp
  have hkeep : ∀ {m : Option VdllImage} {l g : ℕ}, l = ((m.map VdllImage.data).getD []).length →
      Inv { s with vdllMem := m, vdllLen := l, gens := g } := fun hl =>
    { h with
      alive := fun p hp => by simp [hnone] at hp
      len := hl
      pend := fun hp => (hpend rfl hp).elim }
  cases alloc with
  | false =>
    simp only [Vdll.getVdllImage, hfreed, Bool.false_eq_true, if_false]
    exact hkeep rfl
  | true =>
    simp only [Vdll.getVdllImage, hfreed, if_true]
    cases hd : moalGetVdllData firmware n with
    | none => exact hkeep rfl
    | some data =>
      refine hkeep ?_
      obtain ⟨f, -, hf⟩ := Option.bind_eq_some_iff.mp hd
      split_ifs at hf with hlt
      rw [← Option.some.inj hf]
      simp only [Option.map_some, Option.getD_some, length_drop]
      omega

/-- The pending block goes out. -/
theorem Inv.mainProcess (h : s.Inv) (hk : s.Keeps card (.main env)) : Inv (s.mainProcess card env) := by
  unfold Vdll.mainProcess
  split_ifs with hgo
  · obtain ⟨hsent, hpend⟩ := hgo
    obtain ⟨hbuf, hp, hf, hfit⟩ := hk hsent hpend
    have hreq := h.pendReq hpend
    rw [downloadVdllBlock_of_priv h.idle hbuf hp]
    refine { h with bytes := ?_, room := ?_, once := ?_, alive := ?_, pend := ?_, pendReq := ?_, freshCopy := ?_ }
    · exact forall_noted h.bytes (h.pend hpend)
    · exact forall_noted h.room (room_copyOf hfit)
    · intro r hr
      have hdone :
          (s.copyOf card env s.pendingBlock s.pendingBlockLen s.pendingReq s.pendingWanted).downloaded = true := by
        simp [copyOf, hostToCard_of_fits hfit hf]
      have hpending : s.Pending r ↔ s.pendingReq = r := ⟨fun hr => hr.2, fun hr => ⟨hpend, hr⟩⟩
      calc (s.noted (s.hostToCard card env s.pendingBlockLen).2
              (s.copyOf card env s.pendingBlock s.pendingBlockLen s.pendingReq s.pendingWanted)).downloads r + 0
          = s.downloads r + if s.pendingReq = r then 1 else 0 := by
            rw [Nat.add_zero, downloads_snoc]
            simp only [hdone, and_true]
            rfl
        _ = 1 := by simpa only [hpending] using h.once r hr
    · exact fun p hp => by cases hp
    · exact fun hp => by cases hp
    · exact fun hp => by cases hp
    · exact forall_noted h.freshCopy (h.freshDeferred _ hreq)
  · exact h

theorem Inv.step (h : s.Inv) {a : VdllStep} (hk : s.Keeps card a) : Inv (s.step card a) := by
  cases a with
  | req offset blockLen env =>
    unfold Vdll.step blockRequest
    dsimp only
    by_cases ho : offset.toNat ≤ s.vdllLen
    · rw [if_pos ho]
      have hkeep := hk ho
      by_cases hsent : s.cmdSent = true
      · rw [if_pos hsent] at hkeep ⊢
        exact h.defer ho hkeep.1 hkeep.2
      · rw [if_neg hsent] at hkeep ⊢
        exact h.sendNow hkeep
    · rw [if_neg ho]
      exact h
  | offset n alloc firmware => exact h.getVdllImage hk n.toNat alloc firmware
  | err => exact h
  | cmd sent => exact { h with }
  | main env => exact h.mainProcess hk

end Vdll

/-- Along every run of steps that keep it, every block that is copied has the octets its request asked for and stays in
its buffer, a deferred block is pending in the present image or was downloaded once, and the shared buffer has its idle
offset; a pass of the main process without an outstanding command takes the pending block. -/
theorem vdll_blocks {card : CardType} {s : Vdll} (h : (vdllSystem card).ReachableWhen (fun s a => s.Keeps card a) s) :
    s.Correct ∧ (s.cmdSent = false → ∀ env, (s.mainProcess card env).pendingBlock = none) := by
  have hinv : s.Inv := by
    refine h.invariant (I := Vdll.Inv) ?_ ?_
    · rintro s ⟨b, rfl⟩
      refine Vdll.inv_initial fun o ho => ?_
      split_ifs at ho
      exact (Option.some.inj ho).symm
    · intro s a s' hi hk hs
      exact Option.some.inj hs ▸ hi.step hk
  refine ⟨hinv.toCorrect, fun hsent env => ?_⟩
  unfold Vdll.mainProcess
  cases hp : s.pendingBlock with
  | none => simp [hp]
  | some p => simp [hsent]

/-! ## A deferred block -/

/-- A download that meets no failure. -/
def fineEnv : DnldEnv := ⟨true, true, false⟩

/-- A firmware file whose last three octets are the image. -/
def firmwareFile : Option (List UInt8) := some [0, 0, 7, 8, 9]

/-- A block is asked for while a command is out; the main process sends it later, and the next request is served at
once. -/
theorem vdll_blocks_deferred : ∃ s, (vdllSystem .pcie).ReachableWhen (fun s a => s.Keeps .pcie a) s ∧
    (s.deferred = [0] ∧ s.copies.map VdllCopy.copied = [some [8, 9], some [7]]) ∧
    s.Correct ∧ (s.cmdSent = false → ∀ env, (s.mainProcess .pcie env).pendingBlock = none) := by
  obtain ⟨s, hs, hp⟩ := System.exists_reachableWhen_of_runWhen (M := vdllSystem .pcie)
    (C := fun s a => s.Keeps .pcie a)
    (P := fun s => decide (s.deferred = [0] ∧ s.copies.map VdllCopy.copied = [some [8, 9], some [7]]))
    (l := [.offset 3 true firmwareFile, .cmd true, .req 1 5 fineEnv, .cmd false, .main fineEnv, .cmd false,
      .req 0 1 fineEnv]) (s := Vdll.initial (some 0)) (.init ⟨true, rfl⟩) (by decide +kernel)
  exact ⟨s, hs, of_decide_eq_true hp, vdll_blocks hs⟩

/-- The image is replaced while a block is pending : the copy reads freed memory. -/
theorem replaced_while_pending : ∃ s, (vdllSystem .pcie).Reachable s ∧
    (∃ c ∈ s.copies, c.req ∈ s.deferred ∧ c.copied = none) ∧ ¬s.Correct := by
  obtain ⟨s, hs, hp⟩ := System.exists_reachable_of_run (M := vdllSystem .pcie)
    (P := fun s => decide (∃ c ∈ s.copies, c.req ∈ s.deferred ∧ c.copied = none))
    (l := [.offset 3 true firmwareFile, .cmd true, .req 1 2 fineEnv, .offset 4 true firmwareFile, .cmd false,
      .main fineEnv]) (s := Vdll.initial (some 0)) ⟨true, rfl⟩ (by decide +kernel)
  obtain ⟨c, hc, hd, hnone⟩ := of_decide_eq_true hp
  refine ⟨s, hs, ⟨c, hc, hd, hnone⟩, fun hcorrect => ?_⟩
  have := hcorrect.bytes c hc
  rw [hnone] at this
  cases this

end WlanDriver.Cmd
