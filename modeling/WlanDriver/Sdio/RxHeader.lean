import Mathlib.Algebra.GroupWithZero.Nat
import WlanDriver.Lib.Tlv

/-!
# The interface header of a received packet

A packet from a data port begins with its length and its type, of 16 bits each. `wlan_sdio_card_to_host` and its callers look
at them for a port that is read alone, `wlan_receive_mp_aggr_buf` for the packets of an aggregate that was read to a buffer,
and for those that were read straight to their own buffers only `wlan_decode_rx_packet` looks. No place looks for a length below
that of the header, and the last mode takes any type. `rx_sound_iff` says which headers come through as they should.
-/

namespace WlanDriver.Sdio

/-- `MLAN_TYPE_DATA`, `MLAN_TYPE_CMD`, `MLAN_TYPE_EVENT`, `MLAN_TYPE_SPA_DATA`. -/
def mlanTypeData : ℕ := 0

def mlanTypeCmd : ℕ := 1

def mlanTypeEvent : ℕ := 3

def mlanTypeSpaData : ℕ := 10

/-- The state of the adapter that matters. -/
structure RxState where
  rxWorkFlag : Bool
  /-- `tp_state_drop_point` is `RX_DROP_P1`. -/
  dropP1 : Bool
  /-- `curr_cmd` is not null. -/
  currCmd : Bool

/-- What becomes of a packet : octets from `start` on in its buffer go on, `len` of them. -/
inductive RxOutcome
  | freed
  /-- `data_complete` at the drop point. -/
  | completed
  /-- To `wlan_handle_rx_packet`, at once or from the queue. -/
  | data (start len : ℕ)
  /-- To `wlan_decode_spa_buffer`, at once or from the queue. -/
  | spaData (start len : ℕ)
  /-- Taken for the response to a command, or to the sleep confirm. -/
  | cmdResp (start len : ℕ)
  /-- Taken for an event. -/
  | event (start len : ℕ)
  deriving DecidableEq

/-- A length without the interface header, as a number of 32 bits. -/
def trimmed (upldLen : ℕ) : ℕ :=
  (upldLen + 2 ^ 32 - 4) % 2 ^ 32

/-- `wlan_decode_rx_packet`, of a buffer with `data_len` octets. -/
def decodeRxPacket (a : RxState) (upldLen upldTyp dataLen : ℕ) : RxOutcome :=
  if upldTyp = mlanTypeSpaData then .spaData 0 upldLen
  else if upldTyp = mlanTypeData then
    if dataLen < upldLen then .freed
    else if a.rxWorkFlag ∧ a.dropP1 then .completed
    else .data 4 (trimmed upldLen)
  else if upldTyp = mlanTypeCmd then
    -- without `curr_cmd` the length is taken off twice on the way to `upld_buf`
    .cmdResp 4 (if a.currCmd then trimmed upldLen else min (trimmed (trimmed upldLen)) 3072)
  else if upldTyp = mlanTypeEvent then .event 4 (trimmed upldLen)
  else .freed

/-- A port that is read alone : `wlan_sdio_card_to_host` and the type check behind it, in `wlan_receive_single_packet` and
`wlan_sdio_card_to_host_mp_aggr`. -/
def receiveSingle (a : RxState) (nb pktType rxLen : ℕ) : RxOutcome :=
  if rxLen < nb then .freed
  else if pktType ≠ mlanTypeData ∧ pktType ≠ mlanTypeSpaData then .freed
  else decodeRxPacket a nb pktType rxLen

/-- A packet that `wlan_receive_mp_aggr_buf` copies out of `mpa_rx.buf`. -/
def receiveCopied (a : RxState) (pktLen pktType rxLen : ℕ) : RxOutcome :=
  if (pktType = mlanTypeData ∨ pktType = mlanTypeSpaData) ∧ pktLen ≤ rxLen then decodeRxPacket a pktLen pktType rxLen
  else .freed

/-- A packet that was read to its own buffer. -/
def receiveScattered (a : RxState) (pktLen pktType rxLen : ℕ) : RxOutcome :=
  decodeRxPacket a pktLen pktType rxLen

/-- The modes. -/
inductive RxMode
  | single
  | copied
  | scattered
  deriving DecidableEq

/-- One packet, by its mode. -/
def RxMode.receive : RxMode → RxState → ℕ → ℕ → ℕ → RxOutcome
  | .single => receiveSingle
  | .copied => receiveCopied
  | .scattered => receiveScattered

/-- The loop of `wlan_receive_mp_aggr_buf` : the packets behind `curr`, where each takes the octets of `len_arr`. -/
def receiveFrom (mode : RxMode) (a : RxState) (buf : Mem) : ℕ → List ℕ → List RxOutcome
  | _, [] => []
  | curr, rxLen :: lens =>
    mode.receive a (buf.get16 curr) (buf.get16 (curr + 2)) rxLen :: receiveFrom mode a buf (curr + rxLen) lens

/-- The mode that a read of the data ports has : alone for one packet, else by whether there is a `mpa_rx.buf`. -/
def rxModeOf (hasBuf : Bool) (lenArr : List ℕ) : RxMode :=
  if lenArr.length = 1 then .single else if hasBuf then .copied else .scattered

/-- A read of the data ports, with the octets that the card returned. -/
def receiveData (hasBuf : Bool) (a : RxState) (buf : Mem) (lenArr : List ℕ) : List RxOutcome :=
  receiveFrom (rxModeOf hasBuf lenArr) a buf 0 lenArr

/-! ## Which headers come through -/

/-- What should become of a packet with the length `nb` of its header, of which `rxLen` octets were read. -/
def RxOutcome.Sound (nb rxLen : ℕ) : RxOutcome → Prop
  | .freed | .completed => True
  | .data start len => len + 4 = nb ∧ start + len ≤ rxLen
  | .spaData start len => start + len ≤ rxLen
  | .cmdResp _ _ | .event _ _ => False

/-- A header that comes through as it should. -/
def HeaderSound (mode : RxMode) (a : RxState) (nb pktType rxLen : ℕ) : Prop :=
  (pktType = mlanTypeData → 4 ≤ nb ∨ rxLen < nb ∨ a.rxWorkFlag = true ∧ a.dropP1 = true) ∧
    (mode = .scattered → pktType ≠ mlanTypeCmd ∧ pktType ≠ mlanTypeEvent ∧ (pktType = mlanTypeSpaData → nb ≤ rxLen))

variable {a : RxState} {nb pktType rxLen : ℕ}

theorem trimmed_eq (h : nb < 65536) : trimmed nb + 4 = nb ↔ 4 ≤ nb := by
  unfold trimmed
  omega

theorem decode_data_sound_iff (h : nb < 65536) (hle : nb ≤ rxLen) :
    (decodeRxPacket a nb mlanTypeData rxLen).Sound nb rxLen ↔ 4 ≤ nb ∨ a.rxWorkFlag = true ∧ a.dropP1 = true := by
  unfold decodeRxPacket
  rw [if_neg (by decide), if_pos rfl, if_neg (by omega)]
  split
  · next hdrop => exact iff_of_true trivial (Or.inr hdrop)
  · next hdrop =>
    have htrim := trimmed_eq h
    constructor
    · rintro ⟨hlen, -⟩
      exact Or.inl (htrim.mp hlen)
    · intro h4
      have hlen := htrim.mpr (h4.resolve_right hdrop)
      exact ⟨hlen, by omega⟩

theorem decode_spaData_sound_iff : (decodeRxPacket a nb mlanTypeSpaData rxLen).Sound nb rxLen ↔ nb ≤ rxLen := by
  unfold decodeRxPacket
  rw [if_pos rfl]
  show 0 + nb ≤ rxLen ↔ _
  rw [Nat.zero_add]

/-- What the modes with a type check make of a packet. -/
theorem checked_sound_iff (h : nb < 65536) :
    ((if (pktType = mlanTypeData ∨ pktType = mlanTypeSpaData) ∧ nb ≤ rxLen then decodeRxPacket a nb pktType rxLen
      else .freed).Sound nb rxLen) ↔
      (pktType = mlanTypeData → 4 ≤ nb ∨ rxLen < nb ∨ a.rxWorkFlag = true ∧ a.dropP1 = true) := by
  split
  · next hin =>
    obtain ⟨rfl | rfl, hle⟩ := hin
    · rw [decode_data_sound_iff h hle]
      simp [not_lt.mpr hle]
    · rw [decode_spaData_sound_iff]
      exact iff_of_true hle fun hne => absurd hne (by decide)
  · next hout =>
    refine iff_of_true trivial ?_
    rintro rfl
    exact Or.inr (Or.inl (not_le.mp fun hle => hout ⟨Or.inl rfl, hle⟩))

theorem receiveSingle_eq : receiveSingle a nb pktType rxLen =
    if (pktType = mlanTypeData ∨ pktType = mlanTypeSpaData) ∧ nb ≤ rxLen then decodeRxPacket a nb pktType rxLen
    else .freed := by
  unfold receiveSingle
  by_cases hlen : rxLen < nb
  · rw [if_pos hlen, if_neg fun h => absurd h.2 (not_le.mpr hlen)]
  · rw [if_neg hlen]
    by_cases htype : pktType = mlanTypeData ∨ pktType = mlanTypeSpaData
    · rw [if_neg fun h => htype.elim h.1 h.2, if_pos ⟨htype, not_lt.mp hlen⟩]
    · rw [if_pos (not_or.mp htype), if_neg fun h => htype h.1]

theorem receiveScattered_sound_iff (h : nb < 65536) : (receiveScattered a nb pktType rxLen).Sound nb rxLen ↔
    HeaderSound .scattered a nb pktType rxLen := by
  unfold receiveScattered HeaderSound
  by_cases hspa : pktType = mlanTypeSpaData
  · subst hspa
    rw [decode_spaData_sound_iff]
    simp [mlanTypeSpaData, mlanTypeData, mlanTypeCmd, mlanTypeEvent]
  by_cases hdata : pktType = mlanTypeData
  · subst hdata
    by_cases hle : nb ≤ rxLen
    · rw [decode_data_sound_iff h hle]
      simp [mlanTypeSpaData, mlanTypeData, mlanTypeCmd, mlanTypeEvent, not_lt.mpr hle]
    · have hfreed : decodeRxPacket a nb mlanTypeData rxLen = .freed := by
        unfold decodeRxPacket
        rw [if_neg (by decide), if_pos rfl, if_pos (not_le.mp hle)]
      rw [hfreed]
      refine iff_of_true trivial ⟨fun _ => Or.inr (Or.inl (not_le.mp hle)), fun _ => ⟨by decide, by decide, fun hne => ?_⟩⟩
      exact absurd hne (by decide)
  unfold decodeRxPacket
  rw [if_neg hspa, if_neg hdata]
  by_cases hcmd : pktType = mlanTypeCmd
  · rw [if_pos hcmd]
    exact iff_of_false (fun h => h) fun h => (h.2 rfl).1 hcmd
  rw [if_neg hcmd]
  by_cases hevent : pktType = mlanTypeEvent
  · rw [if_pos hevent]
    exact iff_of_false (fun h => h) fun h => (h.2 rfl).2.1 hevent
  rw [if_neg hevent]
  exact iff_of_true trivial ⟨fun hd => absurd hd hdata, fun _ => ⟨hcmd, hevent, fun hs => absurd hs hspa⟩⟩

/-- One packet, in any mode. -/
theorem receive_sound_iff (mode : RxMode) (h : nb < 65536) :
    (mode.receive a nb pktType rxLen).Sound nb rxLen ↔ HeaderSound mode a nb pktType rxLen := by
  cases mode with
  | single =>
    rw [RxMode.receive, receiveSingle_eq, checked_sound_iff h, HeaderSound]
    simp
  | copied =>
    rw [RxMode.receive, receiveCopied, checked_sound_iff h, HeaderSound]
    simp
  | scattered => exact receiveScattered_sound_iff h

/-- Where the packet `k` of an aggregate begins. -/
def pktStart (lenArr : List ℕ) (k : ℕ) : ℕ :=
  (lenArr.take k).sum

theorem receiveFrom_getElem? (mode : RxMode) (a : RxState) (buf : Mem) : ∀ (lenArr : List ℕ) (curr k : ℕ),
    (receiveFrom mode a buf curr lenArr)[k]? = (lenArr[k]?).map fun rxLen =>
      mode.receive a (buf.get16 (curr + pktStart lenArr k)) (buf.get16 (curr + pktStart lenArr k + 2)) rxLen
  | [], _, _ => rfl
  | rxLen :: lens, curr, 0 => rfl
  | rxLen :: lens, curr, k + 1 => by
    rw [receiveFrom, List.getElem?_cons_succ, List.getElem?_cons_succ, receiveFrom_getElem? mode a buf lens, pktStart,
      pktStart, List.take_succ_cons, List.sum_cons, Nat.add_assoc]

/-- **Headers from the data ports.** In every mode, what becomes of each packet of a read is as it should be if its header is
sound : a data packet has a length of four at least, or is refused or dropped for another reason; and where packets are
read straight to their buffers, none is for the command port and no aggregate is longer than what was read. -/
theorem rx_sound_iff (hasBuf : Bool) (a : RxState) (buf : Mem) (lenArr : List ℕ) :
    (∀ (k rxLen : ℕ) (outcome : RxOutcome), lenArr[k]? = some rxLen → (receiveData hasBuf a buf lenArr)[k]? = some outcome →
      outcome.Sound (buf.get16 (pktStart lenArr k)) rxLen) ↔
      ∀ k rxLen, lenArr[k]? = some rxLen → HeaderSound (rxModeOf hasBuf lenArr) a (buf.get16 (pktStart lenArr k))
        (buf.get16 (pktStart lenArr k + 2)) rxLen := by
  have hget : ∀ k, (receiveData hasBuf a buf lenArr)[k]? = (lenArr[k]?).map fun rxLen =>
      (rxModeOf hasBuf lenArr).receive a (buf.get16 (pktStart lenArr k)) (buf.get16 (pktStart lenArr k + 2)) rxLen := by
    intro k
    rw [receiveData, receiveFrom_getElem?, Nat.zero_add]
  constructor
  · intro h k rxLen hk
    have hout := hget k
    rw [hk, Option.map_some] at hout
    exact (receive_sound_iff _ (Tlv.get16_lt _)).mp (h k rxLen _ hk hout)
  · intro h k rxLen outcome hk hout
    rw [hget k, hk, Option.map_some] at hout
    obtain rfl := Option.some.inj hout
    exact (receive_sound_iff _ (Tlv.get16_lt _)).mpr (h k rxLen hk)

/-- A read of two packets straight to their buffers, the first an event. -/
def scatteredEvent : Mem :=
  fun x => if x = 0 then 64 else if x = 2 then 3 else if x = 256 then 64 else 0

/-- An event is accepted from a data port. -/
theorem not_rx_sound : ¬∀ (k rxLen : ℕ) (outcome : RxOutcome), [256, 256][k]? = some rxLen →
    (receiveData false ⟨true, false, true⟩ scatteredEvent [256, 256])[k]? = some outcome →
      outcome.Sound (scatteredEvent.get16 (pktStart [256, 256] k)) rxLen := by
  intro h
  have hout : (receiveData false ⟨true, false, true⟩ scatteredEvent [256, 256])[0]? = some (.event 4 60) := by decide
  exact h 0 256 (.event 4 60) rfl hout

end WlanDriver.Sdio
