import Mathlib.Data.UInt
import Mathlib.Tactic.Common

/-!
# Firmware download

`wlan_sdio_prog_fw_w_helper` sends the image in blocks whose lengths the card asks for. An odd length behind the first
block means that the block before had a CRC error : it is sent again, at most `MAX_WRITE_IOMEM_RETRY` times in a row,
and where the status register tells of an error of the image the download starts over, at most `MAX_FW_RETRY` times.

What the card answers in a turn of the loop is a `CardTurn`. Whatever it answers, the blocks that were sent tile the
image from its start (`Tiled`), or from where it started over, and lie inside of it. The loop ends unless the card asks
for one octet at the start of the image, which is made a length of 0 and leaves everything as it was; and a success without a
length of 0 means that all was sent (`fw_download`).
-/

namespace WlanDriver.Sdio

open List

/-- What the card answers in a turn : to the polling of its status, to the reads of both base registers at each try, to the
reads of the download offset and status, and to the write. -/
structure CardTurn where
  poll : Bool
  base : ℕ → Option (UInt32 × UInt32)
  dnldOffset : Bool
  dnldStatus : Option UInt16
  write : Bool

/-- A block that was written : the octets of the image in it, its length with the padding, and whether it was sent for a
CRC error, with a new start of the download. -/
structure SentBlock where
  offset : ℕ
  len : ℕ
  dataLen : ℕ
  crc : Bool
  restart : Bool
  deriving DecidableEq

/-- The variables of the loop. `fwbuf` is the part of the image in the buffer, `sent` is history. -/
structure FwState where
  offset : ℕ
  i : ℕ
  micRetry : ℕ
  txBlocks : ℕ
  fwDnldStatus : UInt16
  fwbuf : ℕ × ℕ
  sent : List SentBlock

/-- How a turn ends. -/
inductive FwNext
  | success (s : FwState)
  | failure (s : FwState)
  | again (s : FwState)

def wlanUpldSize : ℕ := 3072

def maxPollTries : ℕ := 100

def maxWriteIomemRetry : ℕ := 2

def maxFwRetry : ℕ := 3

/-- `MLAN_SDIO_BLOCK_SIZE_FW_DNLD`. -/
def blockSizeFwDnld : ℕ := 256

/-- The length of the next block, from the base registers. -/
def lenOfBase (base0 base1 : UInt32) : ℕ :=
  base1.toNat % 256 * 256 + base0.toNat % 256

/-- The tries to read a length that is not 0, from the try `k` on. `none` if a register cannot be read. -/
def readLen (base : ℕ → Option (UInt32 × UInt32)) : ℕ → ℕ → Option ℕ
  | 0, _ => some 0
  | tries + 1, k =>
    match base k with
    | none => none
    | some (base0, base1) =>
      if lenOfBase base0 base1 ≠ 0 then some (lenOfBase base0 base1) else readLen base tries (k + 1)

/-- The length that the card asks for in a turn. -/
def CardTurn.len (t : CardTurn) : Option ℕ :=
  readLen t.base maxPollTries 0

/-- The buffer is written to the card, and the offset moves on. -/
def sendData (t : CardTurn) (txlen : ℕ) (crc restart : Bool) (s : FwState) : FwNext :=
  let s := { s with sent := s.sent ++ [⟨s.fwbuf.1, s.fwbuf.2, s.txBlocks * blockSizeFwDnld, crc, restart⟩] }
  if t.write then .again { s with offset := s.offset + txlen } else .failure s

/-- `MBIT(6) | MBIT(7)` of the download status. -/
def imageError (status : UInt16) : Bool :=
  status.toNat.testBit 6 || status.toNat.testBit 7

/-- A turn for a CRC error. -/
def crcTurn (checkFwStatus : Bool) (t : CardTurn) (s : FwState) : FwNext :=
  if checkFwStatus ∧ ¬t.dnldOffset then .failure s
  else match (if checkFwStatus then t.dnldStatus else some s.fwDnldStatus) with
  | none => .failure s
  | some status =>
    let s := { s with fwDnldStatus := status, i := s.i + 1 }
    if maxWriteIomemRetry < s.i then .failure s
    else if imageError status then
      let s := { s with offset := 0, micRetry := s.micRetry + 1 }
      if maxFwRetry < s.micRetry then .failure s else sendData t 0 true true s
    else sendData t 0 true false s

/-- A turn for the next block, of an image of `n` octets. -/
def blockTurn (n : UInt32) (t : CardTurn) (len : ℕ) (s : FwState) : FwNext :=
  let txlen := if n ≠ 0 ∧ n.toNat - s.offset < len then n.toNat - s.offset else len
  sendData t txlen false false
    { s with i := 0, txBlocks := (txlen + blockSizeFwDnld - 1) / blockSizeFwDnld, fwbuf := (s.offset, txlen) }

/-- One turn of the loop. -/
def fwTurn (n : UInt32) (checkFwStatus : Bool) (t : CardTurn) (s : FwState) : FwNext :=
  if ¬t.poll then .failure s
  else if n ≠ 0 ∧ n.toNat ≤ s.offset then .success s
  else match t.len with
  | none => .failure s
  | some len =>
    if len = 0 then .success s
    else if wlanUpldSize < len then .failure s
    else
      -- the CRC check is ignored before the first block
      let len := if s.offset = 0 ∧ len % 2 = 1 then len - 1 else len
      if len % 2 = 1 then crcTurn checkFwStatus t s else blockTurn n t len s

/-- The loop from its turn `k` on, with whether it was a success. `none` if it is not through with `fuel` turns. -/
def fwLoop (n : UInt32) (checkFwStatus : Bool) (card : ℕ → CardTurn) : ℕ → ℕ → FwState → Option (Bool × FwState)
  | 0, _, _ => none
  | fuel + 1, k, s =>
    match fwTurn n checkFwStatus (card k) s with
    | .success s => some (true, s)
    | .failure s => some (false, s)
    | .again s => fwLoop n checkFwStatus card fuel (k + 1) s

/-- The variables at the start. -/
def FwState.start : FwState :=
  ⟨0, 0, 0, 0, 0, (0, 0), []⟩

/-- `wlan_sdio_prog_fw_w_helper` : `ready` says that there is an image and a buffer, `checkFwStatus` whether the card is one
that tells of errors, `none` if that cannot be read. -/
def sdioProgFwWHelper (n : UInt32) (ready : Bool) (checkFwStatus : Option Bool) (card : ℕ → CardTurn) (fuel : ℕ) :
    Option (Bool × FwState) :=
  if ¬ready then some (false, .start)
  else match checkFwStatus with
  | none => some (false, .start)
  | some check => fwLoop n check card fuel 0 .start

/-! ## Tiling -/

/-- The blocks tile the first `offset` octets of an image of `n` octets, in their order. Only a CRC error has the
block before sent again, with a new start if the card told of an error of the image. -/
inductive Tiled (n : ℕ) : List SentBlock → ℕ → Prop
  | nil : Tiled n [] 0
  | block {l : List SentBlock} {offset len dataLen : ℕ} (h : Tiled n l offset) (hlen : offset + len ≤ n)
      (hdata : len ≤ dataLen) : Tiled n (l ++ [⟨offset, len, dataLen, false, false⟩]) (offset + len)
  | again {l : List SentBlock} {offset : ℕ} {b : SentBlock} (h : Tiled n l offset) (hb : l.getLast? = some b) :
      Tiled n (l ++ [⟨b.offset, b.len, b.dataLen, true, false⟩]) offset
  | restart {l : List SentBlock} {offset : ℕ} {b : SentBlock} (h : Tiled n l offset) (hb : l.getLast? = some b) :
      Tiled n (l ++ [⟨b.offset, b.len, b.dataLen, true, true⟩]) 0

/-- What every turn keeps. -/
structure FwInv (n : ℕ) (s : FwState) : Prop where
  tiled : Tiled n s.sent s.offset
  offset_le : s.offset ≤ n
  i_le : s.i ≤ maxWriteIomemRetry
  micRetry_le : s.micRetry ≤ maxFwRetry
  buffered : s.offset ≠ 0 → ∃ b, s.sent.getLast? = some b ∧ b.offset = s.fwbuf.1 ∧ b.len = s.fwbuf.2 ∧
    b.dataLen = s.txBlocks * blockSizeFwDnld

/-- How far the download is from its end. -/
def FwState.left (n : ℕ) (s : FwState) : ℕ :=
  (maxFwRetry - s.micRetry) * (4 * (n + 1)) + 4 * (n - s.offset) + (maxWriteIomemRetry - s.i)

/-- The blocks that a turn ends with, however it ends. -/
def FwNext.state : FwNext → FwState
  | .success s | .failure s | .again s => s

/-- What a turn does to a state with the invariant : the blocks stay tiled, the invariant is kept, and if `Moves` it goes on with
less left. -/
structure TurnSpec (n : ℕ) (s : FwState) (moves : Prop) (next : FwNext) : Prop where
  tiled : ∃ offset, Tiled n next.state.sent offset
  inv : ∀ s', next = .again s' → FwInv n s' ∧ (moves → s'.left n < s.left n)

variable {n : UInt32} {t : CardTurn} {s s' : FwState} {check : Bool}

theorem FwInv.turnSpec_failure {m : ℕ} {moves : Prop} (hs : FwInv m s) (h : s'.sent = s.sent) :
    TurnSpec m s moves (.failure s') :=
  ⟨⟨s.offset, by
    show Tiled m s'.sent s.offset
    rw [h]
    exact hs.tiled⟩, fun _ h => by cases h⟩

/-- Writing the buffer, with what it says of the block. -/
theorem turnSpec_sendData {m txlen : ℕ} {crc restart : Bool} {moves : Prop} {s₀ : FwState}
    (htiled : Tiled m (s.sent ++ [⟨s.fwbuf.1, s.fwbuf.2, s.txBlocks * blockSizeFwDnld, crc, restart⟩]) (s.offset + txlen))
    (hoffset : s.offset + txlen ≤ m) (hi : s.i ≤ maxWriteIomemRetry) (hmic : s.micRetry ≤ maxFwRetry)
    (hless : moves → ({ s with offset := s.offset + txlen } : FwState).left m < s₀.left m) :
    TurnSpec m s₀ moves (sendData t txlen crc restart s) := by
  unfold sendData
  dsimp only
  split
  · refine ⟨⟨_, htiled⟩, fun s' h => ?_⟩
    injection h with h
    subst h
    exact ⟨⟨htiled, hoffset, hi, hmic, fun _ => ⟨_, getLast?_concat, rfl, rfl, rfl⟩⟩, hless⟩
  · exact ⟨⟨_, htiled⟩, fun _ h => by cases h⟩

theorem FwInv.turnSpec_crcTurn {m : ℕ} (hs : FwInv m s) (hoffset : s.offset ≠ 0) :
    TurnSpec m s True (crcTurn check t s) := by
  obtain ⟨b, hb, hboffset, hblen, hbdata⟩ := hs.buffered hoffset
  have hi := hs.i_le
  have hmic := hs.micRetry_le
  unfold crcTurn
  split
  · exact hs.turnSpec_failure rfl
  split
  · exact hs.turnSpec_failure rfl
  next status _ =>
  dsimp only
  split
  · exact hs.turnSpec_failure rfl
  next hretry =>
  split
  · split
    · exact hs.turnSpec_failure rfl
    next hmicRetry =>
    refine turnSpec_sendData ?_ (Nat.zero_le _) (not_lt.mp hretry) (not_lt.mp hmicRetry) fun _ => ?_
    · have hrestart := hs.tiled.restart hb
      rw [hboffset, hblen, hbdata] at hrestart
      exact hrestart
    · -- a new start costs a retry of the image, which weighs more than all of it
      have hle := hs.offset_le
      have hsub : maxFwRetry - s.micRetry = (maxFwRetry - (s.micRetry + 1)) + 1 := by omega
      unfold FwState.left
      dsimp only
      rw [hsub, Nat.add_one_mul (maxFwRetry - (s.micRetry + 1)) (4 * (m + 1))]
      generalize (maxFwRetry - (s.micRetry + 1)) * (4 * (m + 1)) = x
      unfold maxWriteIomemRetry
      omega
  · refine turnSpec_sendData ?_ hs.offset_le (not_lt.mp hretry) hmic fun _ => ?_
    · have hagain := hs.tiled.again hb
      rw [hboffset, hblen, hbdata] at hagain
      exact hagain
    · unfold FwState.left
      dsimp only
      omega

theorem FwInv.turnSpec_blockTurn (hs : FwInv n.toNat s) (hn : n ≠ 0) {len : ℕ} :
    TurnSpec n.toNat s (len ≠ 0 ∧ s.offset < n.toNat) (blockTurn n t len s) := by
  have hi := hs.i_le
  have hle := hs.offset_le
  unfold blockTurn
  dsimp only
  have htxlen : (if n ≠ 0 ∧ n.toNat - s.offset < len then n.toNat - s.offset else len) = min (n.toNat - s.offset) len := by
    split
    · next h => omega
    · next h =>
      have hge : ¬n.toNat - s.offset < len := fun hlt => h ⟨hn, hlt⟩
      omega
  rw [htxlen]
  have hpad : min (n.toNat - s.offset) len ≤
      (min (n.toNat - s.offset) len + blockSizeFwDnld - 1) / blockSizeFwDnld * blockSizeFwDnld := by
    unfold blockSizeFwDnld
    omega
  have hfits : s.offset + min (n.toNat - s.offset) len ≤ n.toNat := by omega
  refine turnSpec_sendData (hs.tiled.block hfits hpad) hfits (Nat.zero_le _) hs.micRetry_le fun hmoves => ?_
  obtain ⟨hlen, hlt⟩ := hmoves
  unfold FwState.left
  dsimp only
  generalize (maxFwRetry - s.micRetry) * (4 * (n.toNat + 1)) = x
  unfold maxWriteIomemRetry at hi ⊢
  omega

/-- A turn keeps the blocks tiled; it goes on with less left unless one octet was asked for at the start of the image, and it
is a success at the end of the image or for a length of 0. -/
theorem FwInv.turn (hs : FwInv n.toNat s) (hn : n ≠ 0) :
    TurnSpec n.toNat s (s.offset = 0 → t.len ≠ some 1) (fwTurn n check t s) ∧
      ∀ s', fwTurn n check t s = .success s' → s' = s ∧ (n.toNat ≤ s.offset ∨ t.len = some 0) := by
  have hnosuccess : ∀ (txlen : ℕ) (crc restart : Bool) (u s' : FwState), sendData t txlen crc restart u ≠ .success s' := by
    intro txlen crc restart u s' h
    unfold sendData at h
    dsimp only at h
    split at h <;> cases h
  unfold fwTurn
  split
  · exact ⟨hs.turnSpec_failure rfl, fun _ h => by cases h⟩
  split
  · next hend =>
    refine ⟨⟨⟨_, hs.tiled⟩, fun _ h => by cases h⟩, fun s' h => ?_⟩
    injection h with h
    exact ⟨h.symm, Or.inl hend.2⟩
  next hend =>
  have hlt : s.offset < n.toNat := not_le.mp fun h => hend ⟨hn, h⟩
  split
  · exact ⟨hs.turnSpec_failure rfl, fun _ h => by cases h⟩
  next len hread =>
  split
  · next hzero =>
    refine ⟨⟨⟨_, hs.tiled⟩, fun _ h => by cases h⟩, fun s' h => ?_⟩
    injection h with h
    exact ⟨h.symm, Or.inr (hzero ▸ hread)⟩
  next hzero =>
  split
  · exact ⟨hs.turnSpec_failure rfl, fun _ h => by cases h⟩
  dsimp only
  generalize hmask : (if s.offset = 0 ∧ len % 2 = 1 then len - 1 else len) = len'
  split
  · next hodd =>
    have hoffset : s.offset ≠ 0 := by
      intro h0
      split at hmask
      · omega
      · next h => exact h ⟨h0, by rw [hmask]; exact hodd⟩
    refine ⟨⟨(hs.turnSpec_crcTurn hoffset).tiled, fun s' h => ?_⟩, fun s' h => ?_⟩
    · obtain ⟨hinv, hless⟩ := (hs.turnSpec_crcTurn hoffset).inv s' h
      exact ⟨hinv, fun _ => hless trivial⟩
    · unfold crcTurn at h
      split at h
      · cases h
      split at h
      · cases h
      dsimp only at h
      split at h
      · cases h
      split at h
      · split at h
        · cases h
        · exact absurd h (hnosuccess _ _ _ _ _)
      · exact absurd h (hnosuccess _ _ _ _ _)
  · next hodd =>
    refine ⟨⟨(hs.turnSpec_blockTurn hn).tiled, fun s' h => ?_⟩, fun s' h => absurd h (hnosuccess _ _ _ _ _)⟩
    obtain ⟨hinv, hless⟩ := (hs.turnSpec_blockTurn hn).inv s' h
    refine ⟨hinv, fun hmoves => hless ⟨fun hlen => ?_, hlt⟩⟩
    split at hmask
    · next hfirst =>
      have hone : len = 1 := by omega
      exact hmoves hfirst.1 (hone ▸ hread)
    · exact hzero (hmask.trans hlen)

theorem fwInv_start (m : ℕ) : FwInv m .start :=
  ⟨.nil, Nat.zero_le _, Nat.zero_le _, Nat.zero_le _, fun h => absurd rfl h⟩

/-! ## The loop -/

/-- The variables before the turn `k`, if the loop makes it. -/
def stateAt (n : UInt32) (check : Bool) (card : ℕ → CardTurn) : ℕ → Option FwState
  | 0 => some .start
  | k + 1 => (stateAt n check card k).bind fun s =>
    match fwTurn n check (card k) s with
    | .again s' => some s'
    | _ => none

variable {card : ℕ → CardTurn}

theorem fwInv_stateAt (hn : n ≠ 0) : ∀ {k : ℕ} {s : FwState}, stateAt n check card k = some s → FwInv n.toNat s
  | 0, s, h => by
    obtain rfl := Option.some.inj h
    exact fwInv_start _
  | k + 1, s, h => by
    obtain ⟨s₀, hs₀, hturn⟩ := Option.bind_eq_some_iff.mp h
    split at hturn
    · next s' hagain =>
      obtain rfl := Option.some.inj hturn
      exact (((fwInv_stateAt hn hs₀).turn hn).1.inv s' hagain).1
    · cases hturn

/-- The card never asks for one octet at the start of the image. -/
def Moving (n : UInt32) (check : Bool) (card : ℕ → CardTurn) : Prop :=
  ∀ k s, stateAt n check card k = some s → s.offset = 0 → (card k).len ≠ some 1

theorem fwLoop_ends (hn : n ≠ 0) (hmoving : Moving n check card) : ∀ {fuel k : ℕ} {s : FwState},
    stateAt n check card k = some s → s.left n.toNat < fuel → ∃ r, fwLoop n check card fuel k s = some r
  | fuel + 1, k, s, hs, h => by
    rw [fwLoop]
    split
    · exact ⟨_, rfl⟩
    · exact ⟨_, rfl⟩
    · next s' hagain =>
      have hless := (((fwInv_stateAt hn hs).turn hn).1.inv s' hagain).2 (hmoving k s hs)
      refine fwLoop_ends hn hmoving ?_ (by omega)
      rw [stateAt, hs, Option.bind_some, hagain]

theorem fwLoop_result (hn : n ≠ 0) : ∀ {fuel k : ℕ} {s t : FwState} {ok : Bool}, FwInv n.toNat s →
    fwLoop n check card fuel k s = some (ok, t) → (∃ offset, Tiled n.toNat t.sent offset) ∧
      (ok = true → FwInv n.toNat t ∧ (n.toNat ≤ t.offset ∨ ∃ j, (card j).len = some 0))
  | fuel + 1, k, s, t, ok, hs, h => by
    obtain ⟨hspec, hsuccess⟩ : TurnSpec n.toNat s _ (fwTurn n check (card k) s) ∧ _ := hs.turn hn
    rw [fwLoop] at h
    split at h
    · next s' hnext =>
      obtain ⟨rfl, hend⟩ := hsuccess s' hnext
      obtain ⟨rfl, rfl⟩ := Prod.mk.inj (Option.some.inj h)
      exact ⟨⟨_, hs.tiled⟩, fun _ => ⟨hs, hend.imp_right fun h0 => ⟨k, h0⟩⟩⟩
    · next s' hnext =>
      obtain ⟨rfl, rfl⟩ := Prod.mk.inj (Option.some.inj h)
      have htiled := hspec.tiled
      rw [hnext] at htiled
      exact ⟨htiled, by simp⟩
    · next s' hnext => exact fwLoop_result hn (hspec.inv s' hnext).1 h

theorem Tiled.inside {m offset : ℕ} {l : List SentBlock} (h : Tiled m l offset) : ∀ b ∈ l, b.offset + b.len ≤ m := by
  induction h with
  | nil => simp
  | block _ hlen _ ih =>
    intro b hb
    rcases mem_append.mp hb with hb | hb
    · exact ih b hb
    · obtain rfl := mem_singleton.mp hb
      exact hlen
  | @again _ _ last _ hlast ih =>
    intro b hb
    rcases mem_append.mp hb with hb | hb
    · exact ih b hb
    · obtain rfl := mem_singleton.mp hb
      exact ih last (mem_of_getLast? hlast)
  | @restart _ _ last _ hlast ih =>
    intro b hb
    rcases mem_append.mp hb with hb | hb
    · exact ih b hb
    · obtain rfl := mem_singleton.mp hb
      exact ih last (mem_of_getLast? hlast)

/-- **The firmware download.** The blocks tile the image, from its start or from where the download started over, and lie
inside of it; a success without a length of 0 means that the whole image was sent; and the download ends unless one octet is
asked for at the start of the image. -/
theorem fw_download (n : UInt32) (hn : n ≠ 0) (ready : Bool) (check : Option Bool) (card : ℕ → CardTurn) :
    (∀ fuel ok s, sdioProgFwWHelper n ready check card fuel = some (ok, s) →
      (∃ offset, Tiled n.toNat s.sent offset) ∧ (∀ b ∈ s.sent, b.offset + b.len ≤ n.toNat) ∧
        (ok = true → (∀ j, (card j).len ≠ some 0) → Tiled n.toNat s.sent n.toNat)) ∧
      ((∀ c, check = some c → Moving n c card) →
        ∃ r, sdioProgFwWHelper n ready check card (16 * (n.toNat + 1)) = some r) := by
  unfold sdioProgFwWHelper
  by_cases hready : ready = true
  swap
  · simp only [hready]
    refine ⟨fun fuel ok s h => ?_, fun _ => ⟨_, rfl⟩⟩
    obtain ⟨rfl, rfl⟩ := Prod.mk.inj (Option.some.inj h)
    exact ⟨⟨0, .nil⟩, by simp [FwState.start], by simp⟩
  simp only [hready, not_true_eq_false, if_false]
  cases check with
  | none =>
    refine ⟨fun fuel ok s h => ?_, fun _ => ⟨_, rfl⟩⟩
    obtain ⟨rfl, rfl⟩ := Prod.mk.inj (Option.some.inj h)
    exact ⟨⟨0, .nil⟩, by simp [FwState.start], by simp⟩
  | some c =>
    refine ⟨fun fuel ok s h => ?_, fun hmoving => ?_⟩
    · obtain ⟨⟨offset, htiled⟩, hend⟩ := fwLoop_result hn (fwInv_start _) h
      refine ⟨⟨offset, htiled⟩, htiled.inside, fun hok hzero => ?_⟩
      obtain ⟨hinv, hend | ⟨j, hj⟩⟩ := hend hok
      · exact le_antisymm hinv.offset_le hend ▸ hinv.tiled
      · exact absurd hj (hzero j)
    · refine fwLoop_ends hn (hmoving c rfl) rfl ?_
      unfold FwState.left FwState.start maxFwRetry maxWriteIomemRetry
      dsimp only
      omega

/-- A card that always asks for `len` octets and takes them. -/
def steadyCard (len : UInt32) (_ : ℕ) : CardTurn :=
  ⟨true, fun _ => some (len, 0), true, some 0, true⟩

theorem len_steadyCard {len : UInt32} (h : lenOfBase len 0 ≠ 0) (k : ℕ) :
    (steadyCard len k).len = some (lenOfBase len 0) := by
  show readLen (fun _ => some (len, 0)) (99 + 1) 0 = _
  rw [readLen]
  exact if_pos h

/-- Three blocks, the last one shorter than what is asked for. -/
theorem fw_download_two : (∃ r, sdioProgFwWHelper 5 true (some false) (steadyCard 2) 96 = some r) ∧
    ∃ s, sdioProgFwWHelper 5 true (some false) (steadyCard 2) 4 = some (true, s) ∧ Tiled 5 s.sent 5 ∧
      s.sent = [⟨0, 2, 256, false, false⟩, ⟨2, 2, 256, false, false⟩, ⟨4, 1, 256, false, false⟩] := by
  have hlen : ∀ k, (steadyCard 2 k).len = some 2 := len_steadyCard (by decide)
  obtain ⟨hruns, hends⟩ := fw_download 5 (by decide) true (some false) (steadyCard 2)
  refine ⟨hends fun c _ k s _ _ h => ?_, _, rfl, ?_, rfl⟩
  · rw [hlen] at h
    exact absurd h (by decide)
  · refine (hruns 4 true _ rfl).2.2 rfl fun j h => ?_
    rw [hlen] at h
    exact absurd h (by decide)

/-- A card that takes a block of two octets, tells of an error of the image, and takes blocks of four then. -/
def restartingCard (k : ℕ) : CardTurn :=
  ⟨true, fun _ => some (if k = 0 then 2 else if k = 1 then 3 else 4, 0), true, some 64, true⟩

/-- A card that asks for one octet at the start keeps the download going for ever, and one that asks for nothing lets it
succeed with nothing sent. One that tells of an error of the image has the download start over, with the octets in front sent
again. -/
theorem not_fw_download : (∀ fuel, sdioProgFwWHelper 2 true (some false) (steadyCard 1) fuel = none) ∧
    (sdioProgFwWHelper 2 true (some false) (steadyCard 0) 1).map (fun r => (r.1, r.2.sent)) = some (true, []) ∧
    (sdioProgFwWHelper 4 true (some true) restartingCard 4).map (fun r => (r.1, r.2.sent)) =
      some (true, [⟨0, 2, 256, false, false⟩, ⟨0, 2, 256, true, true⟩, ⟨0, 4, 256, false, false⟩]) := by
  refine ⟨fun fuel => ?_, by decide, by decide +kernel⟩
  have hturn : ∀ k s, s.offset = 0 → ∃ s', fwTurn 2 false (steadyCard 1 k) s = .again s' ∧ s'.offset = 0 := by
    rintro k ⟨offset, i, micRetry, txBlocks, status, fwbuf, sent⟩ h0
    obtain rfl : offset = 0 := h0
    have hone : (steadyCard 1 k).len = some 1 := len_steadyCard (by decide) k
    unfold fwTurn
    rw [hone]
    exact ⟨_, rfl, rfl⟩
  have hloop : ∀ fuel k s, s.offset = 0 → fwLoop 2 false (steadyCard 1) fuel k s = none := by
    intro fuel
    induction fuel with
    | zero => exact fun _ _ _ => rfl
    | succ fuel ih =>
      intro k s h0
      obtain ⟨s', hs', h0'⟩ := hturn k s h0
      rw [fwLoop, hs']
      exact ih (k + 1) s' h0'
  exact hloop fuel 0 .start rfl

end WlanDriver.Sdio
