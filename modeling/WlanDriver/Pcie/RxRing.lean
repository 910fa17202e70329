import WlanDriver.Lib.SlotArray
import WlanDriver.Lib.System
import WlanDriver.Lib.Tokens
import WlanDriver.Pcie.RingPointer

/-!
# The receive ring

`wlan_pcie_process_recv_data` takes each buffer that the card has filled out of its descriptor, hands it up, and attaches a
new one; `wlan_pcie_create_rxbd_ring` and `wlan_pcie_delete_rxbd_ring` fill and empty the ring. One call of them is under
way at a time (`pcie_rx_processing`). An iteration of the loop is one step, and the card moves its read pointer in between,
at most one ring length ahead of that of the driver.

History : the buffers that were allocated (`issued`), that were handed up with their header length and `data_len`, and that
were freed.

`rx_buffers_conserved` : in runs in which no mapping fails in the loop and no header has a length below that of the
interface header. Where a mapping fails the buffer in hand is dropped, and a shorter length underflows.
-/

set_option linter.unusedSectionVars false

namespace WlanDriver.Pcie

open Function List Option WlanDriver.System SlotArray

def mlanRxDataBufSize : ℕ := 4096

def pcieIntfHeaderLen : ℕ := 4

/-- A buffer that was handed up. -/
structure RxPacket (B : Type*) where
  buf : B
  /-- The length in the interface header. -/
  rxLen : ℕ
  dataLen : ℕ
  deriving DecidableEq

/-- Where the receive path is. -/
inductive RxPc
  | idle
  /-- The loop, with the read pointer of the card, and the position that it shows. -/
  | loop (rdptr shown : ℕ)
  deriving DecidableEq

/-- The ring, and the card. -/
structure RxRing (B : Type*) where
  /-- The ring exists. -/
  created : Bool
  rxbdRdptr : ℕ
  rxbdWrptr : ℕ
  rxBufList : SlotArray B
  delayRxDataFlag : Bool
  dataReceived : Bool
  pc : RxPc
  /-- The positions of the read pointers of the card and of the driver. -/
  card : ℕ
  rd : ℕ
  issued : List B
  handed : List (RxPacket B)
  freed : List B

/-- What an iteration meets. -/
structure RxInput (B : Type*) where
  /-- `rx_pkts_queued` is above `HIGH_RX_PENDING`. -/
  paused : Bool
  unmapped : Bool
  /-- The length in the interface header, 16 bits. -/
  rxLen : ℕ
  /-- `tp_state_drop_point` is `RX_DROP_P1`. -/
  drop : Bool
  alloc : Option B
  mapped : Bool
  written : Bool
  /-- `ps_state` is `SLEEP` or `SLEEP_CFM`. -/
  sleeping : Bool
  /-- The register, if it can be read again. -/
  value : Option ℕ

namespace RxRing

variable {B : Type*} (c : RingConfig) (s : RxRing B)

/-- The read pointer in a value of the register. -/
def rdptrOf (value : ℕ) : ℕ :=
  if c.reg.useAdma then value >>> 16 else value

/-- The loop is left. -/
def leave : RxRing B :=
  { s with pc := .idle }

/-- The register is read, and may be unreadable. -/
def readRdptr (value : Option ℕ) : Option (RxRing B) :=
  match value with
  | none => some s.leave
  | some v =>
    if c.Shows (rdptrOf c v) s.card then some { s with pc := .loop (rdptrOf c v) s.card } else none

/-- The buffer is handed up, or freed for the throughput accounting. `data_len` has 32 bits. -/
def deliver (b : B) (i : RxInput B) : RxRing B :=
  if i.drop then { s with freed := s.freed ++ [b] }
  else
    { s with
      handed := s.handed ++ [⟨b, i.rxLen, (i.rxLen + 2 ^ 32 - pcieIntfHeaderLen) % 2 ^ 32⟩]
      dataReceived := true }

/-- A buffer is mapped and attached, and the new pointer is written to the card. -/
def attach (rdIndex : ℕ) (b : B) (i : RxInput B) : Option (RxRing B) :=
  if i.mapped = false then some s.leave
  else
    let s : RxRing B := { s with
      rxBufList := update s.rxBufList rdIndex (some b)
      rxbdRdptr := c.advance s.rxbdRdptr
      rxbdWrptr := c.advance s.rxbdWrptr
      rd := s.rd + 1 }
    if i.written = false ∨ i.sleeping then some s.leave else s.readRdptr c i.value

/-- A new buffer is attached. -/
def reattach (rdIndex : ℕ) (i : RxInput B) : Option (RxRing B) :=
  match i.alloc with
  | none => some s.leave
  | some b => { s with issued := s.issued ++ [b] }.attach c rdIndex b i

/-- One iteration of `wlan_pcie_process_recv_data`. -/
def iterate (rdptr : ℕ) (i : RxInput B) : Option (RxRing B) :=
  if c.pending s.rxbdRdptr rdptr then
    if i.paused then some { s.leave with delayRxDataFlag := true }
    else
      let rdIndex := c.index s.rxbdRdptr
      if c.txrxBdSize - 1 < rdIndex then some s.leave
      else
        match s.rxBufList rdIndex with
        | none => s.reattach c rdIndex i
        | some b =>
          if i.unmapped = false then some s.leave
          else
            let s : RxRing B := { s with rxBufList := update s.rxBufList rdIndex none }
            if i.rxLen ≤ mlanRxDataBufSize then (s.deliver b i).reattach c rdIndex i else s.attach c rdIndex b i
  else some s.leave

/-- `wlan_pcie_delete_rxbd_ring`. -/
def delete : RxRing B :=
  let taken := takeFirst c.txrxBdSize s.rxBufList
  { s with
    created := false
    rxbdRdptr := 0
    rxbdWrptr := 0
    rxBufList := taken.2
    freed := s.freed ++ taken.1 }

/-- The loop of `wlan_pcie_create_rxbd_ring`, from descriptor `i` on : each allocation with the result of the mapping. -/
def createLoop : List (Option (B × Bool)) → ℕ → RxRing B → RxRing B
  | [], _, s => { s with created := true }
  | none :: _, _, s => s.delete c
  | some (b, mapped) :: l, i, s =>
    let s : RxRing B := { s with rxBufList := update s.rxBufList i (some b), issued := s.issued ++ [b] }
    if mapped then createLoop l (i + 1) s else s.delete c

/-- `wlan_pcie_create_rxbd_ring`, if the memory for the descriptors can be allocated. -/
def create (l : List (Option (B × Bool))) : RxRing B :=
  createLoop c l 0 { s with
    rxbdRdptr := 0
    rxbdWrptr := if c.reg.useAdma then c.txrxBdSize else c.reg.txrxRwPtrRolloverInd
    card := 0
    rd := 0 }

/-- The steps. -/
inductive Op (B : Type*)
  /-- For each descriptor, the buffer if there is one, and whether it is mapped. -/
  | create (l : List (Option (B × Bool)))
  | delete
  /-- The call, with the register. -/
  | recvData (value : Option ℕ)
  | iterate (i : RxInput B)
  /-- The card moves its read pointer. -/
  | card (n : ℕ)

variable [DecidableEq B]

/-- One step; what is allocated is new. -/
def step (s : RxRing B) : Op B → Option (RxRing B)
  | .create l =>
    if s.created = false ∧ l.length = c.txrxBdSize ∧ ((l.filterMap id).map Prod.fst).Nodup ∧
        ∀ b ∈ (l.filterMap id).map Prod.fst, b ∉ s.issued then some (s.create c l) else none
  | .delete => if s.created ∧ s.pc = .idle then some (s.delete c) else none
  | .recvData value => if s.created ∧ s.pc = .idle then s.readRdptr c value else none
  | .iterate i =>
    match s.pc with
    | .loop rdptr _ => if ∀ b ∈ i.alloc, b ∉ s.issued then s.iterate c rdptr i else none
    | .idle => none
  | .card n => if s.created ∧ s.card ≤ n ∧ n ≤ s.rd + c.txrxBdSize then some { s with card := n } else none

/-- No ring. -/
def Init : Prop :=
  s.created = false ∧ (∀ i < c.txrxBdSize, s.rxBufList i = none) ∧ s.pc = .idle ∧ s.issued = [] ∧ s.handed = [] ∧
    s.freed = []

/-- No mapping fails, and the length of what is not dropped covers the interface header. -/
def Op.Clean (_ : RxRing B) : Op B → Prop
  | .iterate i => i.mapped = true ∧ (i.drop = false → pcieIntfHeaderLen ≤ i.rxLen)
  | _ => True

instance Op.decidableClean (s : RxRing B) (op : Op B) : Decidable (op.Clean s) := by
  unfold Op.Clean
  split <;> infer_instance

end RxRing

/-- The receive ring over time. -/
def rxRingSystem (B : Type*) [DecidableEq B] (c : RingConfig) : System (RxRing B) (RxRing.Op B) :=
  ⟨RxRing.Init c, RxRing.step c⟩

namespace RxRing

variable {B : Type*} [DecidableEq B] {c : RingConfig} {s s' : RxRing B} {b : B} {i : RxInput B}

/-- The buffers that have left the ring. -/
def out (s : RxRing B) : List B :=
  s.handed.map RxPacket.buf ++ s.freed

/-- What holds of the pointers and the slots while the ring exists. -/
structure RingAt (c : RingConfig) (s : RxRing B) : Prop where
  rdptr : s.rxbdRdptr = c.encode s.rd
  wrptr : s.rxbdWrptr = c.encode (s.rd + c.txrxBdSize)
  rd_le : s.rd ≤ s.card
  card_le : s.card ≤ s.rd + c.txrxBdSize
  filled : ∀ i < c.txrxBdSize, s.rxBufList i = none → i = s.rd % c.txrxBdSize

/-- What was handed up has the length of its header without the interface header. -/
def LensExact (s : RxRing B) : Prop :=
  ∀ p ∈ s.handed, pcieIntfHeaderLen ≤ p.rxLen ∧ p.dataLen = p.rxLen - pcieIntfHeaderLen ∧ p.dataLen ≤ mlanRxDataBufSize

/-- What holds of the ring. -/
structure Conserved (c : RingConfig) (s : RxRing B) : Prop where
  balanced : Balanced (Finset.range c.txrxBdSize) s.rxBufList s.issued s.out
  lens : s.LensExact
  ring : s.created = true → s.RingAt c
  gone : s.created = false → ∀ i < c.txrxBdSize, s.rxBufList i = none

/-- What holds of the ring and of the loop. -/
structure RxInv (c : RingConfig) (s : RxRing B) : Prop extends Conserved c s where
  loop : ∀ v p, s.pc = .loop v p → s.created = true ∧ c.Shows v p ∧ s.rd ≤ p ∧ p ≤ s.card

/-- The loop holds a buffer, and the slot of the read pointer is empty. -/
structure InHand (c : RingConfig) (s : RxRing B) (b : B) : Prop where
  balanced : Balanced (Finset.range c.txrxBdSize) s.rxBufList s.issued (s.out ++ [b])
  lens : s.LensExact
  created : s.created = true
  ring : s.RingAt c
  behind : s.rd < s.card
  empty : s.rxBufList (s.rd % c.txrxBdSize) = none

theorem rd_mem (c : RingConfig) (r : ℕ) : r % c.txrxBdSize ∈ Finset.range c.txrxBdSize :=
  Finset.mem_range.mpr (Nat.mod_lt r c.size_pos)

namespace Conserved

theorem leave (h : Conserved c s) : RxInv c s.leave :=
  ⟨⟨h.balanced, h.lens, fun hc => ⟨(h.ring hc).rdptr, (h.ring hc).wrptr, (h.ring hc).rd_le, (h.ring hc).card_le,
    (h.ring hc).filled⟩, h.gone⟩, fun _ _ hp => by simp [RxRing.leave] at hp⟩

theorem readRdptr (h : Conserved c s) (hc : s.created = true) {value : Option ℕ}
    (hs : s.readRdptr c value = some s') : RxInv c s' := by
  unfold RxRing.readRdptr at hs
  split at hs
  · exact some.inj hs ▸ h.leave
  · obtain ⟨hshows, rfl⟩ := of_guard hs
    have hr := h.ring hc
    refine ⟨⟨h.balanced, h.lens, fun _ => { hr with }, h.gone⟩, ?_⟩
    rintro v p ⟨⟩
    exact ⟨hc, hshows, hr.rd_le, le_rfl⟩

end Conserved

theorem InHand.attach (h : InHand c s b) (hm : i.mapped = true)
    (hs : s.attach c (s.rd % c.txrxBdSize) b i = some s') : RxInv c s' := by
  have hr := h.ring
  have hlt := Finset.mem_range.mp (rd_mem c s.rd)
  have ht : Conserved c { s with
      rxBufList := update s.rxBufList (s.rd % c.txrxBdSize) (some b)
      rxbdRdptr := c.advance s.rxbdRdptr
      rxbdWrptr := c.advance s.rxbdWrptr
      rd := s.rd + 1 } := by
    refine ⟨h.balanced.put (rd_mem c s.rd) h.empty, h.lens, fun _ => ⟨?_, ?_, h.behind, ?_, fun j hj hn => ?_⟩,
      fun hc => absurd (h.created.symm.trans hc) (by decide)⟩
    · rw [hr.rdptr, RingConfig.advance_encode]
    · show c.advance s.rxbdWrptr = c.encode (s.rd + 1 + c.txrxBdSize)
      rw [hr.wrptr, RingConfig.advance_encode, Nat.add_right_comm]
    · have hle := hr.card_le
      dsimp only
      omega
    · by_cases hjr : j = s.rd % c.txrxBdSize
      · simp [hjr] at hn
      · exact absurd (hr.filled j hj (by simpa [hjr] using hn)) hjr
  rw [RxRing.attach, if_neg (by simp [hm])] at hs
  dsimp only at hs
  split at hs
  · exact some.inj hs ▸ ht.leave
  · exact ht.readRdptr h.created hs

/-- A new buffer is attached to the empty slot. -/
theorem Conserved.reattach (h : Conserved c s) (hc : s.created = true) (hlt : s.rd < s.card)
    (hempty : s.rxBufList (s.rd % c.txrxBdSize) = none) (hm : i.mapped = true) (hnew : ∀ b ∈ i.alloc, b ∉ s.issued)
    (hs : s.reattach c (s.rd % c.txrxBdSize) i = some s') : RxInv c s' := by
  unfold RxRing.reattach at hs
  split at hs
  · exact some.inj hs ▸ h.leave
  · next b halloc =>
    have hr := h.ring hc
    have hhand : InHand c { s with issued := s.issued ++ [b] } b :=
      ⟨h.balanced.issue (hnew b (by simp [halloc])), h.lens, hc,
        { hr with }, hlt, hempty⟩
    exact hhand.attach hm hs

/-- The buffer leaves the ring. -/
theorem RxInv.deliver (h : RxInv c s) (hc : s.created = true) (hb : s.rxBufList (s.rd % c.txrxBdSize) = some b)
    (hlen : i.drop = false → pcieIntfHeaderLen ≤ i.rxLen) (hmax : i.rxLen ≤ mlanRxDataBufSize) :
    Conserved c (RxRing.deliver
      { s with rxBufList := update s.rxBufList (s.rd % c.txrxBdSize) none } b i) := by
  have hr := h.ring hc
  have htake := h.balanced.take (rd_mem c s.rd) hb
  have hring : ∀ j < c.txrxBdSize, update s.rxBufList (s.rd % c.txrxBdSize) none j = none →
      j = s.rd % c.txrxBdSize := by
    intro j hj hn
    by_cases hjr : j = s.rd % c.txrxBdSize
    · exact hjr
    · exact hr.filled j hj (by simpa [hjr] using hn)
  have hgone : ∀ {p : Prop}, s.created = false → p := fun hc' => absurd (hc.symm.trans hc') (by decide)
  rw [RxRing.deliver]
  split
  · refine ⟨htake.perm ?_, h.lens, fun _ => ⟨hr.rdptr, hr.wrptr, hr.rd_le, hr.card_le, hring⟩, hgone⟩
    simp only [out]
    rw [← append_assoc]
    exact (perm_append_singleton b _).symm
  · next hdrop =>
    have hlen := hlen (Bool.not_eq_true _ ▸ hdrop)
    refine ⟨htake.perm ?_, fun p hp => ?_, fun _ => ⟨hr.rdptr, hr.wrptr, hr.rd_le, hr.card_le, hring⟩, hgone⟩
    · simp only [out, map_append, map_cons, map_nil]
      rw [append_assoc]
      exact perm_middle.symm
    · rcases mem_append.mp hp with hp | hp
      · exact h.lens p hp
      · obtain rfl := mem_singleton.mp hp
        unfold pcieIntfHeaderLen mlanRxDataBufSize at *
        dsimp only
        refine ⟨hlen, ?_, ?_⟩ <;> omega

/-- What the hand-up leaves alone. -/
theorem deliver_frame (s : RxRing B) (b : B) (i : RxInput B) :
    (s.deliver b i).created = s.created ∧ (s.deliver b i).rd = s.rd ∧ (s.deliver b i).card = s.card ∧
      (s.deliver b i).rxBufList = s.rxBufList ∧ (s.deliver b i).issued = s.issued := by
  rw [deliver]
  split <;> exact ⟨rfl, rfl, rfl, rfl, rfl⟩

/-- A buffer with an invalid length is taken out to be attached again. -/
theorem RxInv.take (h : RxInv c s) (hc : s.created = true) (hb : s.rxBufList (s.rd % c.txrxBdSize) = some b)
    (hlt : s.rd < s.card) :
    InHand c { s with rxBufList := update s.rxBufList (s.rd % c.txrxBdSize) none } b := by
  have hr := h.ring hc
  refine ⟨(h.balanced.take (rd_mem c s.rd) hb).perm (perm_append_singleton b _).symm, h.lens, hc,
    ⟨hr.rdptr, hr.wrptr, hr.rd_le, hr.card_le, fun j hj hn => ?_⟩, hlt, update_self _ _ _⟩
  by_cases hjr : j = s.rd % c.txrxBdSize
  · exact hjr
  · exact hr.filled j hj (by simpa [hjr] using hn)

theorem RxInv.iterate (h : RxInv c s) {v p : ℕ} (hpc : s.pc = .loop v p) (hm : i.mapped = true)
    (hlen : i.drop = false → pcieIntfHeaderLen ≤ i.rxLen) (hnew : ∀ b ∈ i.alloc, b ∉ s.issued) (hs : s.iterate c v i = some s') :
    RxInv c s' := by
  obtain ⟨hc, hshows, hle, hcard⟩ := h.loop v p hpc
  have hr := h.ring hc
  have hcl := hr.card_le
  have hidx : c.index s.rxbdRdptr = s.rd % c.txrxBdSize := by rw [hr.rdptr, RingConfig.index_encode]
  have hlt := Finset.mem_range.mp (rd_mem c s.rd)
  unfold RxRing.iterate at hs
  split at hs
  · next hpend =>
    rw [hr.rdptr, RingConfig.pending_encode hshows hle (by omega), decide_eq_true_eq] at hpend
    have hbehind : s.rd < s.card := by omega
    rw [hidx] at hs
    split at hs
    · obtain rfl := some.inj hs
      have hl := h.leave
      exact ⟨⟨hl.balanced, hl.lens, fun hc => { hr with }, hl.gone⟩, hl.loop⟩
    · dsimp only at hs
      rw [if_neg (by omega)] at hs
      split at hs
      · next hnone => exact h.toConserved.reattach hc hbehind hnone hm hnew hs
      · next b hb =>
        split at hs
        · exact some.inj hs ▸ h.leave
        · split at hs
          · next hmax =>
            obtain ⟨hc', hrd', hcard', hlist', hissued'⟩ := deliver_frame
              { s with rxBufList := update s.rxBufList (s.rd % c.txrxBdSize) none } b i
            refine (h.deliver hc hb hlen hmax).reattach (hc'.trans hc) ?_ ?_ hm ?_ (by rwa [hrd'])
            · rw [hrd', hcard']
              exact hbehind
            · rw [hlist', hrd']
              exact update_self _ _ _
            · rw [hissued']
              exact hnew
          · exact (h.take hc hb hbehind).attach hm hs
  · exact some.inj hs ▸ h.leave

/-- The ring is given up, and its buffers are freed. -/
theorem deleted (hb : Balanced (Finset.range c.txrxBdSize) s.rxBufList s.issued s.out) (hl : s.LensExact)
    (hpc : s.pc = .idle) : RxInv c (s.delete c) := by
  have hempty : ∀ j < c.txrxBdSize, (s.delete c).rxBufList j = none := fun j hj => by
    simp [delete, takeFirst_eq, hj]
  refine ⟨⟨⟨hb.nodup, fun t => ?_⟩, hl, nofun, fun _ => hempty⟩, fun v p hp => ?_⟩
  · have hperm := hb.issued_perm (nodup_range (n := c.txrxBdSize)) fun j => by simp
    have hnone : holders (Finset.range c.txrxBdSize) (s.delete c).rxBufList t = ∅ := by
      refine Finset.filter_eq_empty_iff.mpr fun j hj => ?_
      simp [hempty j (Finset.mem_range.mp hj)]
    rw [hnone, Finset.card_empty, Nat.add_zero, show (s.delete c).issued = s.issued from rfl, hperm.count_eq]
    simp [delete, takeFirst_eq, contents, out, append_assoc]
  · rw [show (s.delete c).pc = s.pc from rfl, hpc] at hp
    exact absurd hp (by simp)

/-- The loop that fills the ring : the slots below `i` are filled. -/
theorem createLoop_inv {l : List (Option (B × Bool))} {i : ℕ}
    (hb : Balanced (Finset.range c.txrxBdSize) s.rxBufList s.issued s.out) (hl : s.LensExact) (hpc : s.pc = .idle)
    (hrd : s.rxbdRdptr = 0) (hwr : s.rxbdWrptr = c.encode c.txrxBdSize) (hpos : s.rd = 0 ∧ s.card = 0)
    (hlen : i + l.length = c.txrxBdSize) (hbelow : ∀ j < i, s.rxBufList j ≠ none)
    (habove : ∀ j, i ≤ j → j < c.txrxBdSize → s.rxBufList j = none)
    (hnodup : ((l.filterMap id).map Prod.fst).Nodup) (hnew : ∀ b ∈ (l.filterMap id).map Prod.fst, b ∉ s.issued) :
    RxInv c (createLoop c l i s) := by
  induction l generalizing s i with
  | nil =>
    have hi : i = c.txrxBdSize := hlen
    subst hi
    have henc : c.encode 0 = 0 := by simp [RingConfig.encode]
    refine ⟨⟨hb, hl, fun _ => ⟨?_, ?_, ?_, ?_, fun j hj hn => absurd hn (hbelow j hj)⟩, by simp [createLoop]⟩, fun v p hp => ?_⟩
    · show s.rxbdRdptr = c.encode s.rd
      rw [hrd, hpos.1, henc]
    · show s.rxbdWrptr = c.encode (s.rd + c.txrxBdSize)
      rw [hwr, hpos.1, Nat.zero_add]
    · exact hpos.1.le.trans (Nat.zero_le _)
    · exact hpos.2.le.trans (Nat.zero_le _)
    · exact absurd (hpc.symm.trans hp) (by simp)
  | cons o l ih =>
    cases o with
    | none => exact deleted hb hl hpc
    | some e =>
      obtain ⟨b, mapped⟩ := e
      simp only [filterMap_cons, id_eq, map_cons, nodup_cons, mem_cons, forall_eq_or_imp] at hnodup hnew
      have hi : i < c.txrxBdSize := by
        rw [length_cons] at hlen
        omega
      have hput := (hb.issue hnew.1).put (Finset.mem_range.mpr hi) (habove i le_rfl hi)
      rw [createLoop]
      split
      · refine ih hput hl hpc hrd hwr hpos ?_ (fun j hj => ?_) (fun j hj hjs => ?_) hnodup.2 fun b' hb' => ?_
        · rw [length_cons] at hlen
          omega
        · by_cases hji : j = i
          · simp [hji]
          · simpa [hji] using hbelow j (by omega)
        · have hji : j ≠ i := by omega
          simpa [hji] using habove j (by omega) hjs
        · rw [mem_append, not_or, mem_singleton]
          exact ⟨hnew.2 b' hb', fun he => hnodup.1 (he ▸ hb')⟩
      · exact deleted hput hl hpc

theorem encode_size (c : RingConfig) :
    c.encode c.txrxBdSize = if c.reg.useAdma then c.txrxBdSize else c.reg.txrxRwPtrRolloverInd := by
  cases ha : c.reg.useAdma with
  | true =>
    have hle : c.txrxBdSize ≤ 2 ^ 12 := c.size_eq ▸ Nat.pow_le_pow_right (by decide) (c.adma ha)
    rw [RingConfig.encode_adma ha, Nat.mod_eq_of_lt (by omega), if_pos rfl]
  | false =>
    have hle := c.order_le ha
    rw [RingConfig.encode, if_neg (by simp [ha]), c.rollover_eq ha, c.size_eq]
    simp only [Bool.false_eq_true, if_false]
    split
    · rw [Nat.mod_self, Nat.div_self (Nat.two_pow_pos _)]
      simp
    · have hbits := c.bits_lt
      rw [show c.order = c.bits by omega, Nat.mod_eq_of_lt (Nat.pow_lt_pow_right (by decide) hbits)]

theorem RxInv.create (h : RxInv c s) (hc : s.created = false) {l : List (Option (B × Bool))}
    (hlen : l.length = c.txrxBdSize) (hnodup : ((l.filterMap id).map Prod.fst).Nodup)
    (hnew : ∀ b ∈ (l.filterMap id).map Prod.fst, b ∉ s.issued) : RxInv c (s.create c l) := by
  have hpc : s.pc = .idle := by
    cases hp : s.pc with
    | idle => rfl
    | loop v p => exact absurd (hc.symm.trans (h.loop v p hp).1) (by decide)
  exact createLoop_inv h.balanced h.lens hpc rfl (encode_size c).symm ⟨rfl, rfl⟩ (by omega) (by omega)
    (fun j _ hj => h.gone hc j hj) hnodup hnew

theorem RxInv.step (h : RxInv c s) {op : Op B} (hclean : op.Clean s) (hs : s.step c op = some s') : RxInv c s' := by
  cases op with
  | create l =>
    obtain ⟨⟨hc, hlen, hnodup, hnew⟩, hs⟩ := ite_none_right_eq_some.mp hs
    exact some.inj hs ▸ h.create hc hlen hnodup hnew
  | delete =>
    obtain ⟨⟨-, hpc⟩, hs⟩ := ite_none_right_eq_some.mp hs
    exact some.inj hs ▸ deleted h.balanced h.lens hpc
  | recvData value =>
    obtain ⟨⟨hc, -⟩, hs⟩ := ite_none_right_eq_some.mp hs
    exact h.toConserved.readRdptr hc hs
  | iterate i =>
    simp only [RxRing.step] at hs
    split at hs
    · next hpc =>
      obtain ⟨hnew, hs⟩ := ite_none_right_eq_some.mp hs
      exact h.iterate hpc hclean.1 hclean.2 hnew hs
    · simp at hs
  | card n =>
    obtain ⟨⟨hc, hle, hcard⟩, rfl⟩ := of_guard hs
    have hr := h.ring hc
    exact ⟨⟨h.balanced, h.lens, fun _ => ⟨hr.rdptr, hr.wrptr, hr.rd_le.trans hle, hcard, hr.filled⟩, h.gone⟩,
      fun v p hp => ⟨hc, (h.loop v p hp).2.1, (h.loop v p hp).2.2.1, (h.loop v p hp).2.2.2.trans hle⟩⟩

theorem RxInv.of_init (h : s.Init c) : RxInv c s := by
  obtain ⟨hc, hlist, hpc, hissued, hhanded, hfreed⟩ := h
  refine ⟨⟨⟨?_, fun t => ?_⟩, fun p hp => ?_, fun hc' => absurd (hc.symm.trans hc') (by decide), fun _ => hlist⟩,
    fun v p hp => absurd (hpc.symm.trans hp) (by simp)⟩
  · rw [hissued]
    exact nodup_nil
  · have hnone : holders (Finset.range c.txrxBdSize) s.rxBufList t = ∅ := by
      refine Finset.filter_eq_empty_iff.mpr fun j hj => ?_
      simp [hlist j (Finset.mem_range.mp hj)]
    rw [hissued, hnone, out, hhanded, hfreed]
    rfl
  · rw [hhanded] at hp
    exact absurd hp not_mem_nil

/-- A buffer is in one slot, or it was once handed up or freed. -/
def OnePlace (c : RingConfig) (s : RxRing B) (b : B) : Prop :=
  ((∃! i, i < c.txrxBdSize ∧ s.rxBufList i = some b) ∧ b ∉ s.handed.map RxPacket.buf ∧ b ∉ s.freed) ∨
    ((∀ i < c.txrxBdSize, s.rxBufList i ≠ some b) ∧ (s.handed.map RxPacket.buf).count b + s.freed.count b = 1)

/-- The buffers are conserved, and the pointers are a ring length apart. -/
structure Safe (c : RingConfig) (s : RxRing B) : Prop where
  buffers : ∀ b ∈ s.issued, s.OnePlace c b
  pointers : s.created = true →
    s.rxbdRdptr = c.encode s.rd ∧ s.rxbdWrptr = c.encode (s.rd + c.txrxBdSize)
  empty : s.created = true → ∀ i < c.txrxBdSize, s.rxBufList i = none → i = c.index s.rxbdRdptr
  lens : s.LensExact

theorem Conserved.onePlace (h : Conserved c s) (hb : b ∈ s.issued) : s.OnePlace c b := by
  have hcount := h.balanced.tokens b
  rw [count_eq_one_of_mem h.balanced.nodup hb, out, count_append] at hcount
  rcases Nat.eq_zero_or_pos (holders (Finset.range c.txrxBdSize) s.rxBufList b).card with hz | hpos
  · refine .inr ⟨fun i hi hs => ?_, by omega⟩
    have hmem : i ∈ holders (Finset.range c.txrxBdSize) s.rxBufList b :=
      Finset.mem_filter.mpr ⟨Finset.mem_range.mpr hi, hs⟩
    rw [Finset.card_eq_zero.mp hz] at hmem
    exact absurd hmem (Finset.notMem_empty i)
  · obtain ⟨i, hi⟩ := Finset.card_pos.mp hpos
    obtain ⟨hi, hs⟩ := Finset.mem_filter.mp hi
    refine .inl ⟨⟨i, ⟨Finset.mem_range.mp hi, hs⟩, fun j hj => ?_⟩, ?_, ?_⟩
    · exact h.balanced.unique (Finset.mem_range.mpr hj.1) hi hj.2 hs
    · exact count_eq_zero.mp (by omega)
    · exact count_eq_zero.mp (by omega)

/-- **The receive ring.** In runs in which no mapping fails in the loop and no header has a length below that of the
interface header : each buffer is in one slot, or once handed up or freed; the write pointer is one ring length ahead of the
read pointer, at whose slot only a buffer may be missing; and what is handed up has the length of its header less that of
the interface header. -/
theorem rx_buffers_conserved (h : (rxRingSystem B c).ReachableWhen (fun s op => op.Clean s) s) : s.Safe c := by
  have hi : RxInv c s := h.invariant (fun _ => RxInv.of_init) fun _ _ _ hi hc hs => hi.step hc hs
  refine ⟨fun b hb => hi.onePlace hb, fun hc => ⟨(hi.ring hc).rdptr, (hi.ring hc).wrptr⟩, fun hc i hlt hn => ?_, hi.lens⟩
  rw [(hi.ring hc).rdptr, RingConfig.index_encode]
  exact (hi.ring hc).filled i hlt hn

/-- No ring yet. -/
def absent (B : Type*) : RxRing B :=
  ⟨false, 0, 0, fun _ => none, false, false, .idle, 0, 0, [], [], []⟩

theorem absent_init : (absent B).Init c :=
  ⟨rfl, fun _ _ => rfl, rfl, rfl, rfl, rfl⟩

/-- The ring of the 8997 with 32 buffers, and the card behind the first two. -/
def twoFrames : List (Op ℕ) :=
  [.create ((List.range 32).map fun b => some (b, true)), .card 2, .recvData (some 2)]

/-- An iteration with a header length, an allocation and a mapping. -/
def frameOf (rxLen : ℕ) (alloc : Option ℕ) (mapped : Bool) : Op ℕ :=
  .iterate ⟨false, true, rxLen, false, alloc, mapped, true, false, some 2⟩

/-- A frame is handed up; one with an invalid length is put back; the next allocation fails. -/
theorem rx_buffers_conserved_two : ∃ s, (rxRingSystem ℕ config8997).ReachableWhen (fun s op => op.Clean s) s ∧
    s.handed = [⟨0, 100, 96⟩] ∧ s.rd = 2 ∧ s.rxBufList 1 = some 1 ∧ s.Safe config8997 := by
  obtain ⟨s, hs, hp⟩ := exists_reachableWhen_of_runWhen (M := rxRingSystem ℕ config8997)
    (C := fun s op => op.Clean s)
    (P := fun s => decide (s.handed = [⟨0, 100, 96⟩] ∧ s.rd = 2 ∧ s.rxBufList 1 = some 1))
    (l := twoFrames ++ [frameOf 100 (some 32) true, frameOf 5000 none true]) (s := absent ℕ) (.init absent_init)
    (by decide +kernel)
  obtain ⟨hh, hrd, hslot⟩ := of_decide_eq_true hp
  exact ⟨s, hs, hh, hrd, hslot, rx_buffers_conserved hs⟩

/-- The mapping fails, and a buffer is nowhere; a header with length 3, and `data_len` underflows. -/
theorem rx_buffer_lost :
    (∃ s, (rxRingSystem ℕ config8997).Reachable s ∧ 32 ∈ s.issued ∧ ¬s.OnePlace config8997 32) ∧
      (∃ s, (rxRingSystem ℕ config8997).Reachable s ∧ s.handed = [⟨0, 3, 2 ^ 32 - 1⟩]) ∧
      ¬∀ s, (rxRingSystem ℕ config8997).Reachable s → s.Safe config8997 := by
  have hlost : ∃ s, (rxRingSystem ℕ config8997).Reachable s ∧ 32 ∈ s.issued ∧ ¬s.OnePlace config8997 32 := by
    obtain ⟨s, hs, hp⟩ := exists_reachable_of_run (M := rxRingSystem ℕ config8997)
      (P := fun s => decide (32 ∈ s.issued ∧ (∀ i < config8997.txrxBdSize, s.rxBufList i ≠ some 32) ∧
        s.handed.map RxPacket.buf = [0] ∧ s.freed = []))
      (l := twoFrames ++ [frameOf 100 (some 32) false]) (s := absent ℕ) absent_init (by decide +kernel)
    obtain ⟨hissued, hslots, hhanded, hfreed⟩ := of_decide_eq_true hp
    refine ⟨s, hs, hissued, ?_⟩
    rintro (⟨⟨i, ⟨hi, hsome⟩, -⟩, -⟩ | ⟨-, hone⟩)
    · exact hslots i hi hsome
    · rw [hhanded, hfreed] at hone
      exact absurd hone (by decide)
  have hshort : ∃ s, (rxRingSystem ℕ config8997).Reachable s ∧ s.handed = [⟨0, 3, 2 ^ 32 - 1⟩] := by
    obtain ⟨s, hs, hp⟩ := exists_reachable_of_run (M := rxRingSystem ℕ config8997)
      (P := fun s => decide (s.handed = [⟨0, 3, 2 ^ 32 - 1⟩]))
      (l := twoFrames ++ [frameOf 3 (some 32) true]) (s := absent ℕ) absent_init (by decide +kernel)
    exact ⟨s, hs, of_decide_eq_true hp⟩
  refine ⟨hlost, hshort, fun h => ?_⟩
  obtain ⟨s, hs, hissued, hno⟩ := hlost
  exact hno ((h s hs).buffers 32 hissued)

end RxRing

end WlanDriver.Pcie
