import Mathlib.Algebra.Order.Group.Nat
import WlanDriver.Relay.Record
import WlanDriver.Rx.Buffer

/-!
# Relayed management frames

`wlan_process_802dot11_mgmt_pkt` hands a management frame up as an event. How long the frame is it is told by `frm_len`, in
front of the frame, which nothing compares with what was received; the record has room for a frame that is admitted, but
not for the four octets that are put in front of it. `relayed_mgmt_iff` tells which frames are relayed as they are.
-/

namespace WlanDriver.Relay

open Ethernet Rx

/-! ## The frame -/

/-- What the function reads of an interface. -/
structure MgmtPriv where
  /-- `bss_role` is `MLAN_BSS_ROLE_STA`. -/
  staRole : Bool
  mgmtFramePassthruMask : ℕ
  /-- `UAP_FLAG_HOST_MLME` of `uap_host_based`. -/
  uapHostMlme : Bool
  hostMlme : Bool
  currAddr : Mac
  bssid : Mac
  prevBssid : Mac
  assocRspSize : ℕ

/-- A frame behind its `frm_len`, with how many octets from there on were received. -/
structure MgmtFrame where
  octets : Mem
  received : ℕ
  frmLen : ℕ
  snr : UInt8
  nf : UInt8

/-- What the receive functions of both roles hand over. -/
def mgmtFrame (d : RxPD) : MgmtFrame :=
  ⟨fun i => d.mem (d.pkt + 2 + i), d.rxPktLength - 2, u16 d.mem d.pkt, d.mem (d.pd + 12), d.mem (d.pd + 13)⟩

/-- An event. `buf` is what is put into `event_buf`. -/
structure MgmtEvent where
  eventId : ℕ
  eventLen : ℕ
  buf : List UInt8

inductive MgmtOutcome
  | dropped
  | noMemory
  | sent (e : MgmtEvent)

/-- A subtraction of `t_u32`. -/
def sub32 (a b : ℕ) : ℕ :=
  (a + 2 ^ 32 - b) % 2 ^ 32

/-- `n` octets are written to a record of `size`, from `dst` on. -/
def put (size dst n : ℕ) : Except RelayFault Unit :=
  if dst + n ≤ size then .ok () else .error .overflow

/-- `n` octets are written to the event buffer, from `event_buf[dst]` on. -/
def putEvent (dst n : ℕ) : Except RelayFault Unit :=
  put maxEventSize (sizeofMlanEvent + dst) n

def broadcastAddr : List UInt8 := [0xff, 0xff, 0xff, 0xff, 0xff, 0xff]

namespace MgmtFrame

variable (p : MgmtPriv) (f : MgmtFrame)

/-- `n` octets of the frame, from `off` on. -/
def read (off n : ℕ) : Except RelayFault (List UInt8) :=
  if off + n ≤ f.received then .ok (f.octets.read off n) else .error .readOutside

/-- `frm_len + sizeof(wlan_mgmt_pkt) - sizeof(frm_len)`. -/
def payloadLen : ℕ := f.frmLen + 30

def subType : ℕ := (f.octets 0).toNat / 16
def addr1 : List UInt8 := f.octets.read 4 6
def addr3 : List UInt8 := f.octets.read 16 6

/-- `category` and `action_code`. -/
def action : List UInt8 := f.octets.read 30 2

/-- The large frames are dropped. -/
def isLarge : Prop :=
  maxEventSize - sizeofMlanEvent < f.payloadLen
  deriving Decidable

/-- `mgmt_frame_passthru_mask` has the subtype. -/
def passes : Bool := p.mgmtFramePassthruMask.testBit f.subType

/-! ## The switch -/

/-- The association record of a frame to this access point : a header of `ASSOC_EVENT_FIX_SIZE`, a TLV header with the
frame control, and what is behind the 802.11 header. -/
def assocRecord : Except RelayFault Unit := do
  put f.payloadLen 12 6
  let frame ← f.read 30 (sub32 f.payloadLen 30)
  put f.payloadLen 18 frame.length

/-- What the switch reads. Of a request for association `added` tells whether there is a station entry, and `alloc` whether
there is memory; the message about an authentication tells `addr2`. -/
def looks (added alloc : Bool) : Except RelayFault Unit :=
  if f.subType = 0 ∨ f.subType = 2 then
    ifSet p.uapHostMlme do
      let addr3 ← f.read 16 6
      ifSet (addr3 == p.currAddr.octets && added) do
        let _ ← f.read 30 2
        ifSet alloc f.assocRecord
  else if f.subType = 11 then (fun _ => ()) <$> f.read 10 6
  else if f.subType = 10 ∨ f.subType = 12 then do
    let _ ← f.read 4 6
    ifSet (p.uapHostMlme || p.staRole && p.hostMlme) (f.read 16 6)
  else if f.subType = 13 then (fun _ => ()) <$> f.read 30 2
  else pure ()

/-- What the switch comes to : the frame is dropped, or it is `unicast` or not. -/
def verdict : Option Bool :=
  if f.subType = 0 ∨ f.subType = 2 ∨ f.subType = 11 ∨ f.subType = 5 then some true
  else if f.subType = 10 ∨ f.subType = 12 then
    if p.staRole ∧ p.hostMlme ∧ (f.addr3 ≠ p.bssid.octets ∨ p.assocRspSize = 0 ∨ f.addr3 = p.prevBssid.octets) then none
    else some (f.addr1 != broadcastAddr)
  else if f.subType = 13 then
    -- block acknowledgement, and the public action of 20/40 coexistence
    if f.octets 30 = 3 ∨ f.action = [4, 0] then none
    else some (f.addr1 != broadcastAddr && !(f.octets 4).toNat.testBit 0)
  else some false

/-! ## The event -/

/-- The station's supplicant does FT. -/
def ftRole : Bool := p.staRole && !p.hostMlme

/-- What the two tests for FT read. -/
def ftLooks : Except RelayFault Unit :=
  ifSet (ftRole p) <|
    if f.subType = 13 then ifSet (f.action == [6, 2]) (f.read 44 2)
    else if f.subType = 11 then do
      let alg ← f.read 30 2
      ifSet (alg == [2, 0]) do
        let transaction ← f.read 32 2
        ifSet (transaction == [2, 0]) (f.read 34 2)
    else pure ()

def isFtAction : Prop :=
  ftRole p ∧ f.subType = 13 ∧ f.action = [6, 2] ∧ f.octets.read 44 2 = [0, 0]
  deriving Decidable

def isFtAuth : Prop :=
  ftRole p ∧ f.subType = 11 ∧ f.octets.read 30 2 = [2, 0] ∧ f.octets.read 32 2 = [2, 0] ∧ f.octets.read 34 2 = [0, 0]
  deriving Decidable

/-- An FT response : an address, and the elements behind the head of the frame. -/
def ftResponse (addr head : ℕ) : Except RelayFault MgmtEvent := do
  let mac ← f.read addr 6
  putEvent 0 6
  putEvent 6 (sub32 f.payloadLen head)
  let rest ← f.read head (sub32 f.payloadLen head)
  return ⟨0x80000018, sub32 (f.payloadLen + 6) head, mac ++ rest⟩

/-- The event of a frame. Octets 2 and 3 of its identifier give way to the signal. -/
def event : Except RelayFault MgmtEvent := do
  f.ftLooks p
  if f.isFtAction p then f.ftResponse 38 46
  else if f.isFtAuth p then f.ftResponse 10 36
  else
    putEvent 0 4
    putEvent 4 f.payloadLen
    let payload ← f.read 0 f.payloadLen
    return ⟨0x80000005, f.payloadLen + 4, [0x05, 0x00, f.snr, f.nf] ++ payload⟩

/-- `wlan_process_802dot11_mgmt_pkt`. `buffer` tells whether there is memory for the event. -/
def process (added alloc buffer : Bool) : Except RelayFault MgmtOutcome :=
  if f.isLarge then return .dropped
  else do
    let _ ← f.read 0 2
    if !f.passes p then return .dropped
    else
      f.looks p added alloc
      match f.verdict p with
      | none => return .dropped
      | some unicast =>
        ifSet unicast (f.read 4 6)
        if unicast ∧ f.addr1 ≠ p.currAddr.octets then return .dropped
        else if !buffer then return .noMemory
        else .sent <$> f.event p

/-! ## What is meant -/

/-- The octets of the frame that were received. -/
def payload : List UInt8 :=
  f.octets.read 0 (min f.payloadLen f.received)

/-- What is subtracted from the length of the frame. -/
def headLen : ℕ :=
  if f.isFtAction p then 46 else if f.isFtAuth p then 36 else 0

/-- The octets that the event of a frame is to have. -/
def relayedOctets : List UInt8 :=
  if f.isFtAction p then (f.payload.drop 38).take 6 ++ f.payload.drop 46
  else if f.isFtAuth p then (f.payload.drop 10).take 6 ++ f.payload.drop 36
  else [0x05, 0x00, f.snr, f.nf] ++ f.payload

/-- Nothing is read outside of what was received and nothing is written outside of its record, no subtraction wraps, and the
event has the octets of the frame. -/
structure Relayed (added alloc buffer : Bool) : Prop where
  ran : Ran (f.process p added alloc buffer)
  noWrap : ∀ e, f.process p added alloc buffer = .ok (.sent e) → f.headLen p ≤ f.payloadLen
  octets : ∀ e, f.process p added alloc buffer = .ok (.sent e) → e.buf = f.relayedOctets p ∧ e.eventLen = e.buf.length

/-- The frame passes the switch, and it is for this interface unless it is not `unicast`. -/
def Relays : Prop :=
  ∃ unicast ∈ f.verdict p, unicast = true → f.addr1 = p.currAddr.octets

/-- An association record is written. -/
def takesAssoc (added alloc : Bool) : Prop :=
  (f.subType = 0 ∨ f.subType = 2) ∧ p.uapHostMlme ∧ f.addr3 = p.currAddr.octets ∧ added ∧ alloc

/-- How far the switch looks. -/
def lookedAt (added : Bool) : ℕ :=
  if f.subType = 0 ∨ f.subType = 2 then
    if p.uapHostMlme then if f.addr3 = p.currAddr.octets ∧ added then 32 else 22 else 10
  else if f.subType = 11 then 16
  else if f.subType = 5 then 10
  else if f.subType = 10 ∨ f.subType = 12 then if p.uapHostMlme ∨ (p.staRole ∧ p.hostMlme) then 22 else 10
  else if f.subType = 13 then 32 else 2

/-- How far the tests for FT look. -/
def ftLookedAt : ℕ :=
  if !ftRole p then 0
  else if f.subType = 13 then if f.action = [6, 2] then 46 else 0
  else if f.subType = 11 then
    if f.octets.read 30 2 = [2, 0] then if f.octets.read 32 2 = [2, 0] then 36 else 34 else 32
  else 0

/-- The frame is whole as far as it is looked at, and where it is copied in full; an FT response has its head, and any other
frame leaves room for four octets more. -/
def Fits (added alloc buffer : Bool) : Prop :=
  f.isLarge ∨ 2 ≤ f.received ∧ (f.passes p → f.lookedAt p added ≤ f.received ∧
    (f.takesAssoc p added alloc → f.payloadLen ≤ f.received) ∧
    (f.Relays p ∧ buffer → f.ftLookedAt p ≤ f.received ∧ f.payloadLen ≤ f.received ∧ f.headLen p ≤ f.payloadLen ∧
      (f.headLen p = 0 → f.payloadLen + 16 ≤ maxEventSize)))

/-! ## Runs -/

section

variable {p : MgmtPriv} {f : MgmtFrame} {β : Type} {added alloc buffer : Bool}

theorem bind_check_eq_ok {c : Prop} [Decidable c] {α : Type} {a : α} {x : RelayFault} {g : α → Except RelayFault β} {b : β} :
    (if c then .ok a else .error x) >>= g = .ok b ↔ c ∧ g a = .ok b := by
  split_ifs with h
  · exact (and_iff_right h).symm
  · exact iff_of_false nofun fun hc => h hc.1

theorem ran_bind_check {c : Prop} [Decidable c] {α : Type} {a : α} {x : RelayFault} {g : α → Except RelayFault β} :
    Ran ((if c then .ok a else .error x) >>= g) ↔ c ∧ Ran (g a) :=
  (exists_congr fun _ => bind_check_eq_ok).trans exists_and_left

@[simp] theorem ran_bind_read {off n : ℕ} {g : List UInt8 → Except RelayFault β} :
    Ran (f.read off n >>= g) ↔ off + n ≤ f.received ∧ Ran (g (f.octets.read off n)) :=
  ran_bind_check

@[simp] theorem ran_read {off n : ℕ} : Ran (f.read off n) ↔ off + n ≤ f.received := by
  unfold read
  split_ifs with h <;> simp [h]

@[simp] theorem ran_bind_put {size dst n : ℕ} {g : Unit → Except RelayFault β} :
    Ran (put size dst n >>= g) ↔ dst + n ≤ size ∧ Ran (g ()) :=
  ran_bind_check

@[simp] theorem ran_put {size dst n : ℕ} : Ran (put size dst n) ↔ dst + n ≤ size := by
  unfold put
  split_ifs with h <;> simp [h]

theorem sub32_of_le {a b : ℕ} (h : b ≤ a) (ha : a < 2 ^ 32) : sub32 a b = a - b := by
  unfold sub32
  omega

/-- A subtraction that wraps gives more than a record has room for. -/
theorem le_sub32 {a b : ℕ} (h : a < b) (hb : b ≤ 2 ^ 31) : maxEventSize < sub32 a b := by
  unfold sub32 maxEventSize
  omega

theorem payloadLen_le (h : ¬f.isLarge) : f.payloadLen ≤ 3060 :=
  Nat.le_of_not_lt h

theorem ran_assocRecord (h : ¬f.isLarge) : Ran f.assocRecord ↔ f.payloadLen ≤ f.received := by
  have hle := payloadLen_le h
  have h30 : 30 ≤ f.payloadLen := Nat.le_add_left 30 _
  simp only [assocRecord, ran_bind_put, ran_bind_read, ran_put, Mem.length_read, sub32_of_le h30 (by omega)]
  omega

/-- Before the event is built, `addr1` is read of a frame that is `unicast`. -/
theorem ran_switch (h : ¬f.isLarge) :
    2 ≤ f.received ∧ Ran (f.looks p added alloc) ∧ (f.verdict p = some true → 10 ≤ f.received) ↔
      f.lookedAt p added ≤ f.received ∧ (f.takesAssoc p added alloc → f.payloadLen ≤ f.received) := by
  have h30 : 30 ≤ f.payloadLen := Nat.le_add_left 30 _
  unfold looks verdict lookedAt takesAssoc addr3
  cases alloc <;> split_ifs <;> simp_all [ran_assocRecord h] <;> omega

theorem ran_ftLooks : Ran (f.ftLooks p) ↔ f.ftLookedAt p ≤ f.received := by
  unfold ftLooks ftLookedAt
  split_ifs <;> simp_all <;> omega

/-- A head that does not fit in the frame leaves more than the record has room for. -/
theorem ran_ftResponse (h : ¬f.isLarge) {addr head : ℕ} (haddr : addr + 6 ≤ head) (hhead : head ≤ 2 ^ 31) :
    Ran (f.ftResponse addr head) ↔ f.payloadLen ≤ f.received ∧ head ≤ f.payloadLen := by
  have hle := payloadLen_le h
  simp only [ftResponse, putEvent, ran_bind_read, ran_bind_put, ran_bind_pure, ran_read, sizeofMlanEvent]
  by_cases hlen : head ≤ f.payloadLen
  · rw [sub32_of_le hlen (by omega), maxEventSize]
    omega
  · have hwrap := le_sub32 (Nat.lt_of_not_le hlen) hhead
    omega

theorem ran_event (h : ¬f.isLarge) :
    Ran (f.event p) ↔ f.ftLookedAt p ≤ f.received ∧ f.payloadLen ≤ f.received ∧ f.headLen p ≤ f.payloadLen ∧
      (f.headLen p = 0 → f.payloadLen + 16 ≤ maxEventSize) := by
  rw [event, ran_bind_const, ran_ftLooks]
  refine and_congr_right fun _ => ?_
  unfold headLen
  split_ifs
  · simp [ran_ftResponse h]
  · simp [ran_ftResponse h]
  · simp only [putEvent, ran_bind_put, ran_bind_pure, ran_read, sizeofMlanEvent, maxEventSize, forall_const]
    omega

theorem relays_iff {unicast : Bool} (h : f.verdict p = some unicast) :
    f.Relays p ↔ ¬(unicast ∧ f.addr1 ≠ p.currAddr.octets) := by
  simp [Relays, h]

theorem ran_process : Ran (f.process p added alloc buffer) ↔ f.Fits p added alloc buffer := by
  unfold process Fits
  by_cases h : f.isLarge
  · simp [h]
  rw [if_neg h, ran_bind_read, or_iff_right h]
  refine and_congr_right fun htwo => ?_
  by_cases hpass : f.passes p
  swap
  · simp [hpass]
  simp only [hpass, Bool.not_true, Bool.false_eq_true, if_false, forall_true_left]
  rw [ran_bind_const, ← and_assoc, ← ran_switch h]
  cases hv : f.verdict p with
  | none => simp [Relays, hv, htwo]
  | some unicast =>
    dsimp only
    rw [ran_bind_const, ran_ifSet, ran_read, relays_iff hv]
    split_ifs with hours hbuf
    · simp [hours, htwo]
    · simp_all
    · simp_all [ran_event h, and_assoc]

/-- Octets of the frame, where all of it was received. -/
theorem read_payload (h : f.payloadLen ≤ f.received) {a n : ℕ} (hn : a + n ≤ f.payloadLen) :
    f.octets.read a n = (f.payload.drop a).take n := by
  rw [payload, min_eq_left h]
  exact Mem.read_part (Nat.zero_le a) (by omega)

theorem drop_payload (h : f.payloadLen ≤ f.received) (a : ℕ) :
    f.payload.drop a = f.octets.read a (f.payloadLen - a) := by
  rw [payload, min_eq_left h, Mem.drop_read, Nat.zero_add]

theorem ftResponse_octets {addr head : ℕ} {e : MgmtEvent} (he : f.ftResponse addr head = .ok e) (hlarge : ¬f.isLarge)
    (h : f.payloadLen ≤ f.received) (haddr : addr + 6 ≤ head) (hhead : head ≤ f.payloadLen) :
    e.buf = (f.payload.drop addr).take 6 ++ f.payload.drop head ∧ e.eventLen = e.buf.length := by
  have hle := payloadLen_le hlarge
  simp only [ftResponse, read, putEvent, put, bind_check_eq_ok, sub32_of_le hhead (by omega),
    sub32_of_le (show head ≤ f.payloadLen + 6 by omega) (by omega)] at he
  obtain ⟨-, -, -, -, ⟨⟩⟩ := he
  rw [← read_payload h (by omega), drop_payload h]
  refine ⟨rfl, ?_⟩
  rw [List.length_append, Mem.length_read, Mem.length_read]
  show f.payloadLen + 6 - head = 6 + (f.payloadLen - head)
  omega

theorem eq_ok_of_bind_const {α : Type} {x : Except RelayFault α} {y : Except RelayFault β} {b : β}
    (h : (x >>= fun _ => y) = .ok b) : y = .ok b := by
  cases x with
  | error _ => exact nomatch h
  | ok _ => exact h

theorem event_octets {e : MgmtEvent} (he : f.event p = .ok e) (hlarge : ¬f.isLarge) :
    f.headLen p ≤ f.payloadLen ∧ e.buf = f.relayedOctets p ∧ e.eventLen = e.buf.length := by
  obtain ⟨-, h, hhead, -⟩ := (ran_event hlarge).mp ⟨e, he⟩
  refine ⟨hhead, ?_⟩
  have hrest := eq_ok_of_bind_const he
  unfold headLen at hhead
  unfold relayedOctets
  split_ifs at hrest hhead ⊢
  · exact ftResponse_octets hrest hlarge h (by decide) hhead
  · exact ftResponse_octets hrest hlarge h (by decide) hhead
  · simp only [read, putEvent, put, bind_check_eq_ok] at hrest
    obtain ⟨-, -, -, ⟨⟩⟩ := hrest
    have hwhole : f.payload = f.octets.read 0 f.payloadLen := by rw [payload, min_eq_left h]
    rw [hwhole]
    refine ⟨rfl, ?_⟩
    rw [List.length_append, Mem.length_read]
    exact Nat.add_comm _ 4

theorem event_of_process {e : MgmtEvent} (h : f.process p added alloc buffer = .ok (.sent e)) :
    ¬f.isLarge ∧ f.event p = .ok e := by
  unfold process at h
  by_cases hlarge : f.isLarge
  · rw [if_pos hlarge] at h
    cases h
  refine ⟨hlarge, ?_⟩
  rw [if_neg hlarge] at h
  have hpass := eq_ok_of_bind_const h
  by_cases hmask : (!f.passes p) = true
  · rw [if_pos hmask] at hpass
    cases hpass
  rw [if_neg hmask] at hpass
  have hmatch := eq_ok_of_bind_const hpass
  cases hv : f.verdict p with
  | none =>
    rw [hv] at hmatch
    cases hmatch
  | some unicast =>
    rw [hv] at hmatch
    have hours := eq_ok_of_bind_const hmatch
    split_ifs at hours
    · cases hours
    · cases hours
    · cases hevent : f.event p with
      | error _ =>
        rw [hevent] at hours
        cases hours
      | ok _ =>
        rw [hevent] at hours
        cases hours
        rfl

/-- **Relayed management frames.** -/
theorem relayed_mgmt_iff (p : MgmtPriv) (d : RxPD) (added alloc buffer : Bool) :
    (mgmtFrame d).Relayed p added alloc buffer ↔ (mgmtFrame d).Fits p added alloc buffer := by
  refine ⟨fun h => ran_process.mp h.ran, fun h => ⟨ran_process.mpr h, fun e he => ?_, fun e he => ?_⟩⟩
  · obtain ⟨hlarge, hevent⟩ := event_of_process he
    exact (event_octets hevent hlarge).1
  · obtain ⟨hlarge, hevent⟩ := event_of_process he
    exact (event_octets hevent hlarge).2

/-- The largest frame that is admitted, a beacon, is longer than the room that the record has for it. -/
theorem relayed_mgmt_overflow : ¬∀ (p : MgmtPriv) (d : RxPD) (added alloc buffer : Bool),
    (mgmtFrame d).Relayed p added alloc buffer := by
  intro h
  have hran := (h ⟨true, 256, false, false, ⟨0, 0, 0, 0, 0, 0⟩, ⟨0, 0, 0, 0, 0, 0⟩, ⟨0, 0, 0, 0, 0, 0⟩, 0⟩
    ⟨fun | 2 => 0xf6 | 3 => 0x0b | 4 => 28 | 28 => 0xd6 | 29 => 0x0b | 30 => 0x80 | _ => 0, 0⟩ false false true).ran
  exact not_ran_error _ hran

end

end MgmtFrame

end WlanDriver.Relay
