import WlanDriver.Rx.Balance

/-!
# Every received buffer ends once

`disposed_once` : along every run in which an interface exists, the multi-AP check does not refuse a packet, and
at a reorder table the sequence number has 12 bits and the type of the packet and its low octet agree on whether it is a
block ack request. `not_disposed` is a multi-AP packet of an unknown station : both roles return without completing it, and
no caller does.
-/

set_option linter.unusedSectionVars false

namespace WlanDriver.Rx

open Ethernet Aggr Reorder RxReorderTbl

variable {ι : Type*} [Fintype ι] [DecidableEq ι] {s s' s'' : RxPath ι} {env : Env ι} {i : ι} {b : Buf}
  {hand hand' hand'' : List Buf}

/-! ## A packet -/

section Packet

variable {wide : ℕ → BitVec 64} {type : ℕ} {d : RxPD}

/-- A packet fits the table that it comes to : the window its sequence number, and its low octet its type. -/
def WayFits (s : RxPath ι) (i : ι) (type : ℕ) (d : RxPD) : Way → Prop
  | .process => True
  | .upload => True
  | .closed ta => SeqFits s i ta d
  | .reorder ta => SeqFits s i ta d ∧ (d.reorderType = .bar ↔ type = pktTypeBar)

/-- A buffer that `ret` is returned for has ended if `ret` is a failure. -/
def Told (n : ℕ) (ret : MlanStatus) (s : RxPath ι) : Prop :=
  ret = .failure → (n, .completed) ∈ s.disposed ∨ (n, .freed) ∈ s.disposed

/-- What a call does for its packet. -/
structure Settles (s : RxPath ι) (b : Buf) (hand : List Buf) (r : MlanStatus × RxPath ι) : Prop where
  balance : Balance r.2 hand
  keeps : Keeps s r.2
  told : Told b.id r.1 r.2

/-- What is left to do once the tables are done. -/
theorem Settles.then {ret : MlanStatus} (h : Balance s' hand' ∧ Keeps s s') (hp : Passes hand' s' hand s'')
    (ht : Told b.id ret s'') : Settles s b hand (ret, s'') :=
  ⟨hp.balance h.1, h.2.trans hp.keeps, ht⟩

theorem Settles.success (h : Balance s (b :: hand)) (hp : Passes (b :: hand) s hand s') :
    Settles s b hand (.success, s') :=
  ⟨hp.balance h, hp.keeps, nofun⟩

theorem mem_complete : (b.id, .completed) ∈ (complete b s).disposed := by
  simp [complete]

/-- **A packet at its reorder table.** -/
theorem reorderOrComplete_settles {ta : Mac} (h : Balance s (b :: hand)) (hseq : SeqFits s i ta b.rxPd)
    (htype : b.rxPd.reorderType = .bar ↔ type = pktTypeBar) :
    Settles s b hand (reorderOrComplete wide env i ta type b s) := by
  have hcall := @Balance.rxreorder ι _ _ s env i hand wide ta b.rxPd (some b) h hseq
  unfold reorderOrComplete
  dsimp only
  set r := rxreorderPkt wide env i ta b.rxPd (some b) s
  cases hret : r.1 with
  | failure =>
    -- refused : completed by the caller
    rw [leftOver, if_neg (by simp [hret])] at hcall
    rw [if_pos (.inl rfl)]
    exact .then hcall .complete fun _ => .inl mem_complete
  | success =>
    by_cases hbar : type = pktTypeBar
    · rw [leftOver, if_neg fun hr => hr.2 (htype.mpr hbar)] at hcall
      rw [if_pos (.inr hbar)]
      exact .then hcall .complete nofun
    · rw [leftOver, if_pos ⟨hret, fun hr => hbar (htype.mp hr)⟩] at hcall
      rw [if_neg (by simp [hbar])]
      exact ⟨hcall.1, hcall.2, by simp [Told, hret]⟩

/-- **A packet on its way.** -/
theorem go_settles (h : Balance s (b :: hand)) (w : Way) (hw : WayFits s i type b.rxPd w) :
    Settles s b hand (go wide env i type b s w) := by
  cases w with
  | process => exact .success h .process
  | upload => exact .success h (.recv fun _ => .complete)
  | closed ta =>
    have hcall := @Balance.rxreorder ι _ _ s env i (b :: hand) wide ta b.rxPd none h hw
    have hnone : leftOver (rxreorderPkt wide env i ta b.rxPd none s).1 b.rxPd none = [] := by
      simp [leftOver]
    rw [hnone, List.nil_append] at hcall
    unfold go
    dsimp only
    split_ifs
    · exact .then hcall (.deaggregateBehind (hcall.1.plain b List.mem_cons_self)) nofun
    · exact .then hcall .process nofun
  | reorder ta => exact reorderOrComplete_settles h hw.1 hw.2

theorem frontEnd_frame {p : Iface} {b' : Buf} {m : Option Mem} (h : frontEnd env p b = .frame b' m) :
    b'.id = b.id ∧ b'.bridge = b.bridge := by
  unfold frontEnd at h
  dsimp only at h
  split_ifs at h <;> obtain ⟨rfl, -⟩ := Front.frame.inj h <;> exact ⟨rfl, rfl⟩

theorem way_congr (h : s'.stations = s.stations) : way env i type d s' = way env i type d s := by
  simp only [way, h]

theorem wayFits_congr (h : s'.stations = s.stations) {w : Way} (hw : WayFits s i type d w) : WayFits s' i type d w := by
  cases w with
  | process => trivial
  | upload => trivial
  | closed ta => simpa only [WayFits, SeqFits, h] using hw
  | reorder ta => simpa only [WayFits, SeqFits, h] using hw

/-- A packet of an interface is not lost : the multi-AP check does not refuse it, and it fits its table. -/
def Fits (env : Env ι) (i : ι) (b : Buf) (s : RxPath ι) : Prop :=
  match frontEnd env (env.iface i) b with
  | .refused => False
  | .frame b' _ => WayFits s i b.rxPd.rxPktType b'.rxPd (way env i b.rxPd.rxPktType b'.rxPd s)
  | _ => True

/-- **A packet of an interface.** -/
theorem opsProcessRxPacket_settles (h : Balance s (b :: hand)) (hfits : Fits env i b s) :
    Settles s b hand (opsProcessRxPacket wide env i b s) := by
  unfold opsProcessRxPacket
  unfold Fits at hfits
  split
  next heq =>
    rw [heq] at hfits
    exact hfits.elim
  next => exact .then ⟨h, .refl⟩ .complete fun _ => .inl mem_complete
  next => exact .success h .complete
  next => exact .then ⟨h, .refl⟩ .free fun _ => .inr (by simp [freeMlanBuffer])
  next b' m heq =>
    rw [heq] at hfits
    dsimp only at hfits
    obtain ⟨hid, hbridge⟩ := frontEnd_frame heq
    have hsniff : Passes (b :: hand) s (b' :: hand) (sniff env i b' m s) := (Passes.rename hid hbridge).trans (.sniff m)
    rw [← way_congr hsniff.stations] at hfits
    have hgo : Settles _ b' hand (go wide env i b.rxPd.rxPktType b' (sniff env i b' m s) _) :=
      go_settles (hsniff.balance h) _ (wayFits_congr hsniff.stations hfits)
    exact ⟨hgo.balance, hsniff.keeps.trans hgo.keeps, hid ▸ hgo.told⟩

end Packet

/-! ## Runs -/

section Runs

variable {wide : ℕ → BitVec 64}

/-- A packet comes to an interface that does not lose it. -/
def Meets (s : RxPath ι) : Act ι → Prop
  | .rx env r => ∃ i ∈ getPriv env (newBuf s r).rxPd, Fits env i (newBuf s r) s
  | _ => True

instance (s : RxPath ι) (i : ι) (ta : Mac) (d : RxPD) : Decidable (SeqFits s i ta d) := by
  unfold SeqFits
  infer_instance

instance (s : RxPath ι) (i : ι) (type : ℕ) (d : RxPD) (w : Way) : Decidable (WayFits s i type d w) := by
  cases w <;> unfold WayFits <;> infer_instance

instance (env : Env ι) (i : ι) (b : Buf) (s : RxPath ι) : Decidable (Fits env i b s) := by
  unfold Fits
  split <;> infer_instance

instance (s : RxPath ι) (a : Act ι) : Decidable (Meets s a) := by
  unfold Meets
  split <;> infer_instance

/-- What a run keeps. -/
structure DisposalInv (s : RxPath ι) : Prop where
  balance : Balance s []
  told : ∀ n ret, (n, ret) ∈ s.returns → Told n ret s

theorem DisposalInv.initial : DisposalInv (initial : RxPath ι) where
  balance := {
    once n := by
      have hslots : poolSum (inSlots n) (Rx.initial : RxPath ι).stations = 0 := poolSum_eq_zero.mpr fun _ => rfl
      rw [hslots]
      rfl
    pending := rfl
    bridged := nofun
    plain := nofun
    slots := nofun
    sound _ := sound_empty }
  told := nofun

/-- What has ended once is not taken back. -/
theorem DisposalInv.keep (h : DisposalInv s) (hb : Balance s' []) (hk : Keeps s s') : DisposalInv s' := by
  refine ⟨hb, fun n ret hn hf => ?_⟩
  rw [hk.returns] at hn
  exact (h.told n ret hn hf).imp (hk.grows.subset ·) (hk.grows.subset ·)

theorem DisposalInv.arrive (h : DisposalInv s) {r : Received} (hmeets : Meets s (.rx env r)) :
    DisposalInv (arrive wide env r s) := by
  obtain ⟨i, hi, hfits⟩ := hmeets
  have hb : Balance { s with nextId := s.nextId + 1 } [newBuf s r] := (Passes.alloc rfl rfl).balance h.balance
  have hsettle : Settles _ (newBuf s r) [] (opsProcessRxPacket wide env i (newBuf s r) _) :=
    opsProcessRxPacket_settles hb hfits
  unfold Rx.arrive handleRxPacket
  rw [Option.mem_def.mp hi]
  dsimp only
  refine ⟨hsettle.balance.history _, fun n ret hn hf => ?_⟩
  rw [hsettle.keeps.returns] at hn
  rcases List.mem_append.mp hn with hn | hn
  · exact (h.told n ret hn hf).imp (hsettle.keeps.grows.subset ·) (hsettle.keeps.grows.subset ·)
  · obtain ⟨rfl, rfl⟩ := Prod.mk.inj (List.mem_singleton.mp hn)
    exact hsettle.told hf

/-- Something else happens to the tables. -/
theorem DisposalInv.tables (h : DisposalInv s) {a : Station.Act (Option Buf)} (ha : tableAct wide env i a s = some s') :
    DisposalInv s' := by
  have hact : ∀ a : Station.Act (Option Buf), (∀ k seq ty p, a ≠ .pkt k seq ty p) →
      ((s.stations i).step wide a).map (fun t => ((t.log.drop (s.stations i).log.length).map Prod.snd).foldl
        (dispatchPkt env i) { s with stations := Function.update s.stations i t }) = some s' → DisposalInv s' := by
    intro a hpkt ha
    obtain ⟨t, ht, rfl⟩ := Option.map_eq_some_iff.mp ha
    obtain ⟨hs, hperm⟩ := (h.balance.sound i).step hpkt ht
    obtain ⟨hb, hk⟩ := Balance.handsOut h.balance hs hperm
    exact h.keep hb hk
  unfold tableAct at ha
  split at ha
  · exact absurd ha (by simp)
  next hpkt => exact hact a hpkt ha

theorem DisposalInv.step (h : DisposalInv s) {a : Act ι} (hmeets : Meets s a) (hs : step wide s a = some s') :
    DisposalInv s' := by
  cases a with
  | rx env r =>
    obtain rfl := Option.some.inj hs
    exact h.arrive hmeets
  | tables env i a => exact h.tables hs
  | bridged k =>
    obtain rfl := Option.some.inj hs
    have hpass : Passes [] s [] (completeQueued k s) := .completeQueued k
    exact h.keep (hpass.balance h.balance) hpass.keeps

theorem DisposalInv.of_reachable (h : (system wide).ReachableWhen Meets s) : DisposalInv s := by
  refine h.invariant (I := DisposalInv) ?_ fun _ _ _ hi hc hs => hi.step hc hs
  rintro s rfl
  exact .initial

/-- Every buffer that was handed over or allocated has ended once, is queued once or lies in one slot; the packets queued for
forwarding are those that are counted; and a packet that a failure was returned for has been completed or freed, so that its
caller has nothing left to free. -/
structure Disposed (s : RxPath ι) : Prop where
  once : ∀ n < s.nextId, ended n s + among n s.queued + poolSum (inSlots n) s.stations = 1
  pending : s.pendingBridge = s.queued.length
  failed : ∀ n, (n, .failure) ∈ s.returns → (n, .completed) ∈ s.disposed ∨ (n, .freed) ∈ s.disposed

/-- **Disposal**, in every run whose packets are not lost. -/
theorem disposed_once (h : (system wide).ReachableWhen Meets s) : Disposed s := by
  have hi := DisposalInv.of_reachable h
  refine ⟨fun n hn => ?_, hi.balance.pending, fun n hn => hi.told n _ hn rfl⟩
  have honce := hi.balance.once n
  rwa [if_pos hn, among_nil, Nat.add_zero] at honce

end Runs

/-! ## Examples -/

/-- The access point of the examples : stations 1 and 2 are known, with 11n. -/
def someAp : Iface where
  uapRole := true
  bssType := bssTypeUap
  bssNum := 0
  currAddr := someMac
  bssid := someMac
  mgmtFramePassthru := false
  is11nEnabled := true
  is11axEnabled := false
  queuingRaBased := true
  portCtrlMode := false
  portOpen := true
  pktFwd := 0
  mediaConnected := true
  hotspotEnabled := false
  ewpaEnabled := false
  station a := if a.b5 = 1 ∨ a.b5 = 2 then some true else none

/-- One access point; memory is there, the host keeps what it gets and packets are queued. -/
def someEnv : Env Unit where
  privs := [()]
  iface _ := someAp
  enableNetMon := false
  isUsb := false
  rxDropP3 := false
  maxRxDataSize := rxDataBufSize
  recvAmsdu := false
  convertRate := id
  recv _ := .pending
  alloc _ := true
  subAlloc _ _ := true
  accept _ := true
  drop _ := none

/-- A frame from station 1 to `dest`, with sequence number `seq`, flags and the number of the multi-AP transmitter. -/
def somePacket (dest seq flags ta : UInt8) (len : ℕ) : Received where
  mem a := ([1, 0, 14, 0, 48, 0, 0, 0, seq, 0, 0] ++ List.replicate 7 0 ++ [flags] ++ List.replicate 21 0 ++
    [2, 0, 0, 0, 0, ta] ++ [0, 0] ++ [2, 0, 0, 0, 0, dest] ++ [2, 0, 0, 0, 0, 1] ++ [8, 0] : List UInt8).getD a 0
  dataOffset := 0
  dataLen := len
  rxDeaggr := false
  pdesc := false

local instance neZeroTimeout : NeZero 1025 := ⟨by decide⟩
local instance neZeroSeq : NeZero 4096 := ⟨by decide⟩

/-- A packet for station 2, one behind a gap, one that is too short, one for the host that fills the gap, and the
completion of the first. -/
def gapRun : List (Act Unit) :=
  [.tables someEnv () (.create (someMac, 0) 4 0 none true), .rx someEnv (somePacket 2 0 0 0 62),
    .rx someEnv (somePacket 9 2 0 0 62), .rx someEnv (somePacket 9 1 0 0 61), .rx someEnv (somePacket 9 3 0 0 62),
    .rx someEnv (somePacket 9 1 0 0 62), .bridged 0, .rx someEnv (somePacket 2 7 16 1 62)]

theorem disposed_once_gap :
    ∃ s : RxPath Unit, (system maskedShl).ReachableWhen Meets s ∧
      (s.disposed = [(2, .completed), (4, .uploaded), (1, .uploaded), (3, .uploaded), (0, .freed)] ∧
        s.returns = [(0, .success), (1, .success), (2, .failure), (3, .success), (4, .success), (5, .success)] ∧
        s.nextId = 6 ∧ (held (s.stations ()).tables).length = 1) ∧ Disposed s := by
  obtain ⟨s, hs, hrun⟩ := System.exists_reachableWhen_of_runWhen (M := system maskedShl)
    (P := fun s : RxPath Unit =>
      decide (s.disposed = [(2, .completed), (4, .uploaded), (1, .uploaded), (3, .uploaded), (0, .freed)] ∧
        s.returns = [(0, .success), (1, .success), (2, .failure), (3, .success), (4, .success), (5, .success)] ∧
        s.nextId = 6 ∧ (held (s.stations ()).tables).length = 1))
    (l := gapRun) (C := Meets) (.init rfl) (by decide +kernel)
  exact ⟨s, hs, of_decide_eq_true hrun, disposed_once hs⟩

/-- A multi-AP packet of a station that is not known is not completed by anyone. -/
theorem not_disposed : ¬∀ s : RxPath Unit, (system RxReorderTbl.maskedShl).Reachable s → Disposed s := by
  intro h
  obtain ⟨s, hs, hrun⟩ := System.exists_reachable_of_run (M := system maskedShl)
    (P := fun s : RxPath Unit => decide (s.nextId = 1 ∧ s.disposed = [] ∧ s.queued.length = 0 ∧
      inSlots 0 (s.stations ()) = 0))
    (l := [.rx someEnv (somePacket 2 0 16 7 62)]) (s := initial) rfl (by decide +kernel)
  obtain ⟨hnext, hended, hqueued, hslots⟩ := of_decide_eq_true hrun
  have honce := (h s hs).once 0 (by omega)
  rw [List.length_eq_zero_iff.mp hqueued, among_nil, ended, hended, poolSum, Fintype.sum_unique] at honce
  have hzero : inSlots 0 (s.stations default) = 0 := hslots
  rw [hzero] at honce
  exact absurd honce (by decide)

end WlanDriver.Rx
