import WlanDriver.Rx.Path

/-!
# Where the buffers are

`Balance s hand` : every buffer there ever was has ended, is queued, lies in a slot of a reorder table or is in `hand`, and
only in one of these places and once. A function that is given a buffer takes it out of the hand (`Passes`), and these
compose. What a reorder table is given and hands on is `Sound.rxPkt`, from the conservation of payloads, and
`Balance.rxreorder` puts both together.
-/

set_option linter.unusedSectionVars false

namespace WlanDriver.Rx

open Ethernet Aggr Reorder List Function

/-! ## Slots -/

section Slots

variable {wide : ℕ → BitVec 64} {t t' : Station (Option Buf)} {out taken : List (Key × Option Buf)}

/-- The buffers among payloads. -/
def bufs (l : List (Key × Option Buf)) : List Buf :=
  l.filterMap Prod.snd

/-- What the tables of an interface keep, over payloads without a decidable equality. -/
def Sound (t : Station (Option Buf)) : Prop :=
  @StationInv _ (Classical.decEq _) t

theorem sound_empty : Sound emptyStation := by
  let _ := Classical.decEq (Option Buf)
  have h : (stationSystem RxReorderTbl.maskedShl).Reachable (emptyStation : Station (Option Buf)) := .init rfl
  exact StationInv.of_reachable h

/-- What was taken is handed on or in the slots. -/
theorem Sound.perm (h : Sound t) (h' : Sound t') (hlog : t'.log = t.log ++ out)
    (hacc : t'.accepted = t.accepted ++ taken) : (out ++ held t'.tables).Perm (held t.tables ++ taken) := by
  let _ := Classical.decEq (Option Buf)
  refine perm_iff_count.mpr fun x => ?_
  have honce := StationInv.once h x
  have honce' := StationInv.once h' x
  rw [hlog, hacc, count_append, count_append] at honce'
  rw [count_append, count_append]
  omega

/-- Without a window the sequence number does not matter. -/
theorem rxPkt_seq (t : Station (Option Buf)) (k : Key) (seq : ℕ) (ty : PktType) (payload : Option Buf)
    (hwin : ∀ u ∈ getRxReorderTbl t.tables k, u.winSize ≤ 1) :
    t.rxPkt wide k seq ty payload = t.rxPkt wide k 0 ty payload := by
  have hsame : Station.rxReorder wide t.tables k seq ty payload = Station.rxReorder wide t.tables k 0 ty payload := by
    unfold Station.rxReorder
    cases hu : getRxReorderTbl t.tables k with
    | none => rfl
    | some u =>
      have hw := hwin u hu
      simp [hw]
  simp only [Station.rxPkt, hsame]

/-- **A packet at the tables.** -/
theorem Sound.rxPkt (h : Sound t) (k : Key) {seq : ℕ} (ty : PktType) (payload : Option Buf)
    (hseq : ∀ u ∈ getRxReorderTbl t.tables k, 2 ≤ u.winSize → seq < 4096) :
    Sound (t.rxPkt wide k seq ty payload) ∧
      ((Station.rxReorder wide t.tables k seq ty payload).2.1.map (k, ·) ++
          held (t.rxPkt wide k seq ty payload).tables).Perm
        (held t.tables ++
          if (Station.rxReorder wide t.tables k seq ty payload).1 = .success ∧ ty ≠ .bar then [(k, payload)] else []) := by
  let _ := Classical.decEq (Option Buf)
  have h' : Sound (t.rxPkt wide k seq ty payload) := by
    by_cases hwin : ∀ u ∈ getRxReorderTbl t.tables k, u.winSize ≤ 1
    · rw [rxPkt_seq t k seq ty payload hwin]
      exact StationInv.rxPkt h k (by decide) ty payload
    · push Not at hwin
      obtain ⟨u, hu, hw⟩ := hwin
      exact StationInv.rxPkt h k (hseq u hu hw) ty payload
  refine ⟨h', h.perm h' rfl ?_⟩
  simp only [Station.rxPkt]
  split_ifs <;> simp

theorem deleteTbl_hands (t : Station (Option Buf)) (k : Key) :
    t.log <+: (t.deleteTbl k).log ∧ (t.deleteTbl k).accepted = t.accepted := by
  unfold Station.deleteTbl
  split
  · exact ⟨prefix_refl _, rfl⟩
  · exact ⟨prefix_append _ _, rfl⟩

theorem deleteTbls_hands (t : Station (Option Buf)) (ks : List Key) :
    t.log <+: (t.deleteTbls ks).log ∧ (t.deleteTbls ks).accepted = t.accepted := by
  unfold Station.deleteTbls
  induction ks generalizing t with
  | nil => exact ⟨prefix_refl _, rfl⟩
  | cons k ks ih =>
    obtain ⟨hlog, hacc⟩ := deleteTbl_hands t k
    obtain ⟨hlog', hacc'⟩ := ih (t.deleteTbl k)
    exact ⟨hlog.trans hlog', hacc'.trans hacc⟩

theorem step_hands {a : Station.Act (Option Buf)} (ha : ∀ k seq ty p, a ≠ .pkt k seq ty p)
    (h : t.step wide a = some t') : t.log <+: t'.log ∧ t'.accepted = t.accepted := by
  have hrefl : t.log <+: t.log := prefix_refl _
  cases a with
  | pkt k seq ty p => exact absurd rfl (ha k seq ty p)
  | timer k =>
    simp only [Station.step, Station.timerStep] at h
    split at h
    · exact absurd h (by simp)
    · split_ifs at h
      obtain rfl := Option.some.inj h
      exact ⟨hrefl, rfl⟩
  | flush =>
    obtain rfl := Option.some.inj h
    exact ⟨prefix_append _ _, rfl⟩
  | create k w seq last mem =>
    obtain rfl := Option.some.inj h
    have hd := deleteTbl_hands { t with left := none } k
    simp only [Station.createRxReorderTbl]
    split_ifs
    · exact ⟨hrefl, rfl⟩
    · exact hd
    · exact hd
  | addbaResp k ok amsdu =>
    obtain rfl := Option.some.inj h
    simp only [Station.retAddbaResp]
    split
    · exact ⟨hrefl, rfl⟩
    · split_ifs
      · exact ⟨hrefl, rfl⟩
      · exact deleteTbl_hands { t with left := none } k
  | delba k =>
    obtain rfl := Option.some.inj h
    exact deleteTbl_hands { t with left := none } k
  | cleanup =>
    obtain rfl := Option.some.inj h
    exact deleteTbls_hands { t with left := none } _
  | cleanupSta ta =>
    obtain rfl := Option.some.inj h
    exact deleteTbls_hands { t with left := none } _
  | noDrop flag =>
    obtain rfl := Option.some.inj h
    exact ⟨hrefl, rfl⟩

/-- **Anything else at the tables.** -/
theorem Sound.step (h : Sound t) {a : Station.Act (Option Buf)} (ha : ∀ k seq ty p, a ≠ .pkt k seq ty p)
    (hs : t.step wide a = some t') :
    Sound t' ∧ ((t'.log.drop t.log.length) ++ held t'.tables).Perm (held t.tables) := by
  let _ := Classical.decEq (Option Buf)
  have h' : Sound t' := StationInv.step h hs
  obtain ⟨⟨out, hout⟩, hacc⟩ := step_hands ha hs
  have hperm : (out ++ held t'.tables).Perm (held t.tables ++ []) :=
    h.perm h' hout.symm (by rw [hacc, append_nil])
  rw [append_nil] at hperm
  rw [← hout, drop_left]
  exact ⟨h', hperm⟩

end Slots

/-! ## The balance -/

variable {ι : Type*} [Fintype ι] [DecidableEq ι] {s s' s'' : RxPath ι} {env : Env ι} {i : ι} {b : Buf}
  {hand hand' hand'' : List Buf}

/-- How often buffer `n` is among `l`. -/
def among (n : ℕ) (l : List Buf) : ℕ :=
  (l.map Buf.id).count n

@[simp] theorem among_nil (n : ℕ) : among n [] = 0 := rfl

@[simp] theorem among_append (n : ℕ) (l l' : List Buf) : among n (l ++ l') = among n l + among n l' := by
  simp [among]

theorem among_cons (n : ℕ) (b : Buf) (l : List Buf) : among n (b :: l) = among n l + if b.id = n then 1 else 0 := by
  simp [among, count_cons]

theorem among_perm (n : ℕ) {l l' : List Buf} (h : l.Perm l') : among n l = among n l' :=
  (h.map Buf.id).count_eq n

/-- How often buffer `n` lies in a slot of an interface. -/
def inSlots (n : ℕ) (t : Station (Option Buf)) : ℕ :=
  among n (bufs (held t.tables))

/-- How often buffer `n` has ended. -/
def ended (n : ℕ) (s : RxPath ι) : ℕ :=
  (s.disposed.map Prod.fst).count n

/-- Where the buffers are. -/
structure Balance (s : RxPath ι) (hand : List Buf) : Prop where
  once : ∀ n, ended n s + among n s.queued + poolSum (inSlots n) s.stations + among n hand =
    if n < s.nextId then 1 else 0
  pending : s.pendingBridge = s.queued.length
  bridged : ∀ b ∈ s.queued, b.bridge = true
  plain : ∀ b ∈ hand, b.bridge = false
  slots : ∀ i, ∀ b ∈ bufs (held (s.stations i).tables), b.bridge = false
  sound : ∀ i, Sound (s.stations i)

/-- From `hand` to `hand'`, without a change to the tables. -/
structure Passes (hand : List Buf) (s : RxPath ι) (hand' : List Buf) (s' : RxPath ι) : Prop where
  balance : Balance s hand → Balance s' hand'
  grows : s.disposed <+: s'.disposed
  stations : s'.stations = s.stations
  returns : s'.returns = s.returns

namespace Passes

theorem refl : Passes hand s hand s :=
  ⟨id, prefix_refl _, rfl, rfl⟩

theorem trans (h : Passes hand s hand' s') (h' : Passes hand' s' hand'' s'') : Passes hand s hand'' s'' :=
  ⟨h'.balance ∘ h.balance, h.grows.trans h'.grows, h'.stations.trans h.stations, h'.returns.trans h.returns⟩

/-- The clock does not matter. -/
theorem tick (k : ℕ) : Passes hand s hand { s with tick := k } :=
  ⟨fun h => { h with }, prefix_refl _, rfl, rfl⟩

theorem ends (d : Disposal) : Passes (b :: hand) s hand { s with disposed := s.disposed ++ [(b.id, d)] } := by
  refine ⟨fun h => ⟨fun n => ?_, h.pending, h.bridged, fun c hc => h.plain c (mem_cons_of_mem b hc), h.slots,
    h.sound⟩, prefix_append _ _, rfl, rfl⟩
  have honce := h.once n
  rw [among_cons] at honce
  simp only [ended, map_append, map_cons, map_nil, count_append, count_singleton,
    beq_iff_eq] at honce ⊢
  omega

theorem complete : Passes (b :: hand) s hand (complete b s) :=
  ends .completed

theorem free : Passes (b :: hand) s hand (freeMlanBuffer b s) := by
  have h : Passes (b :: hand) s hand { s with disposed := s.disposed ++ [(b.id, .freed)] } := ends .freed
  refine ⟨fun hb => ?_, h.grows, h.stations, h.returns⟩
  have hplain := hb.plain b mem_cons_self
  have heq : freeMlanBuffer b s = { s with disposed := s.disposed ++ [(b.id, .freed)] } := by
    simp [freeMlanBuffer, hplain]
  rw [heq]
  exact h.balance hb

theorem recvComplete : Passes (b :: hand) s hand (recvPacketComplete b s) := by
  unfold recvPacketComplete
  split_ifs
  · exact free
  · exact complete

/-- The host keeps a packet, or it ends otherwise. -/
theorem recv {done : Buf → RxPath ι → RxPath ι} (hdone : ∀ s, Passes (b :: hand) s hand (done b s)) :
    Passes (b :: hand) s hand (recvPacket env done b s) := by
  unfold recvPacket
  refine (tick (s.tick + 1)).trans ?_
  dsimp only
  split_ifs
  · exact ends .uploaded
  · exact hdone _

theorem alloc (hid : b.id = s.nextId) (hplain : b.bridge = false) :
    Passes hand s (b :: hand) { s with nextId := s.nextId + 1 } := by
  refine ⟨fun h => ⟨fun n => ?_, h.pending, h.bridged, ?_, h.slots, h.sound⟩, prefix_refl _, rfl, rfl⟩
  · have honce := h.once n
    rw [among_cons, hid]
    change ended n s + _ + _ + _ = _
    dsimp only
    split_ifs at honce ⊢ <;> omega
  · intro c hc
    rcases mem_cons.mp hc with rfl | hc
    · exact hplain
    · exact h.plain c hc

/-! ### Forwarding -/

theorem completeQueued (k : ℕ) : Passes hand s hand (completeQueued k s) := by
  unfold Rx.completeQueued
  cases hb : s.queued[k]? with
  | none => exact refl
  | some b =>
    obtain ⟨hk, hget⟩ := List.getElem?_eq_some_iff.mp hb
    have hperm : (b :: s.queued.eraseIdx k).Perm s.queued := by
      rw [← hget]
      exact getElem_cons_eraseIdx_perm hk
    refine ⟨fun h => ⟨fun n => ?_, ?_, fun c hc => h.bridged c (mem_of_mem_eraseIdx hc), h.plain, h.slots,
      h.sound⟩, prefix_append _ _, rfl, rfl⟩
    · have honce := h.once n
      rw [← among_perm n hperm, among_cons] at honce
      simp only [freeMlanBuffer, ended, map_append, map_cons, map_nil, count_append,
        count_singleton, beq_iff_eq] at honce ⊢
      omega
    · have hbr := h.bridged b (mem_of_getElem? hb)
      have hpend := h.pending
      have hlen := length_eraseIdx_add_one hk
      simp only [freeMlanBuffer, hbr, if_true]
      omega

theorem drop : Passes hand s hand (dropTxPkts env s) := by
  unfold dropTxPkts
  refine (tick (s.tick + 1)).trans ?_
  dsimp only
  split
  · exact refl
  · exact completeQueued _

/-- A packet is counted, and queued or freed. -/
theorem addBuf : Passes (b :: hand) s hand
    (wmmAddBufTxqueue env { b with bridge := true } { s with pendingBridge := s.pendingBridge + 1 }) := by
  unfold wmmAddBufTxqueue
  dsimp only
  split_ifs
  · refine ⟨fun h => ⟨fun n => ?_, ?_, ?_, fun c hc => h.plain c (mem_cons_of_mem b hc), h.slots, h.sound⟩,
      prefix_refl _, rfl, rfl⟩
    · have honce := h.once n
      simp only [among_append, among_cons, among_nil] at honce ⊢
      change ended n s + _ + _ + _ = _
      omega
    · have hpend := h.pending
      simp only [length_append, length_singleton]
      omega
    · intro c hc
      rcases mem_append.mp hc with hc | hc
      · exact h.bridged c hc
      · rw [mem_singleton.mp hc]
  · -- what was counted is counted down again
    have heq : freeMlanBuffer { b with bridge := true }
        { s with pendingBridge := s.pendingBridge + 1, tick := s.tick + 1 } =
          { s with tick := s.tick + 1, disposed := s.disposed ++ [(b.id, .freed)] } := by
      simp [freeMlanBuffer]
    rw [heq]
    exact (tick (s.tick + 1)).trans (ends .freed)

theorem forward : Passes (b :: hand) s hand (forward env b s) := by
  unfold Rx.forward
  dsimp only
  split_ifs
  · exact addBuf.trans drop
  · exact addBuf

theorem forwardCopy (skip : ℕ) : Passes hand s hand (forwardCopy env b skip s) := by
  unfold Rx.forwardCopy
  refine (tick (s.tick + 1)).trans ?_
  dsimp only
  split_ifs
  · exact (alloc rfl rfl).trans forward
  · exact refl

/-! ### Packets -/

theorem processRx : Passes (b :: hand) s hand (processRxPacket env i b s) := by
  unfold processRxPacket
  dsimp only
  split_ifs
  · exact complete
  · exact complete
  · exact recv fun _ => complete

theorem processUap : Passes (b :: hand) s hand (processUapRxPacket env i b s) := by
  have hup : ∀ s : RxPath ι, Passes (b :: hand) s hand (recvPacket env Rx.complete b s) := fun _ => recv fun _ => complete
  unfold processUapRxPacket
  dsimp only
  split_ifs
  · exact hup _
  · exact hup _
  · exact (forwardCopy _).trans (hup _)
  · exact (forwardCopy _).trans complete
  · -- the packet itself is forwarded
    refine Passes.trans ?_ (forward (b := { b with
      dataOffset := b.dataOffset + b.rxPd.rxPktOffset, dataLen := b.dataLen - b.rxPd.rxPktOffset }))
    exact ⟨fun h => ⟨h.once, h.pending, h.bridged, fun c hc => by
      rcases mem_cons.mp hc with rfl | hc
      · exact h.plain b mem_cons_self
      · exact h.plain c (mem_cons_of_mem b hc), h.slots, h.sound⟩, prefix_refl _, rfl, rfl⟩
  · exact hup _

/-- What differs only in memory and place is the same buffer. -/
theorem rename {b' : Buf} (hid : b'.id = b.id) (hbridge : b'.bridge = b.bridge) :
    Passes (b :: hand) s (b' :: hand) s := by
  refine ⟨fun h => ⟨fun n => ?_, h.pending, h.bridged, fun c hc => ?_, h.slots, h.sound⟩, prefix_refl _, rfl, rfl⟩
  · have honce := h.once n
    rw [among_cons] at honce ⊢
    rwa [hid]
  · rcases mem_cons.mp hc with rfl | hc
    · rw [hbridge]
      exact h.plain b mem_cons_self
    · exact h.plain c (mem_cons_of_mem b hc)

theorem uapRecv : Passes (b :: hand) s hand (uapRecvPacket env i b s) := by
  have hup : ∀ s : RxPath ι, Passes (b :: hand) s hand (recvPacket env recvPacketComplete b s) := fun _ =>
    recv fun _ => recvComplete
  unfold uapRecvPacket
  dsimp only
  split_ifs
  · exact hup _
  · exact hup _
  · exact (forwardCopy 0).trans (hup _)
  · exact (forwardCopy 0).trans recvComplete
  · exact hup _

theorem subframe (hplain : b.bridge = false) (f : Route × List UInt8) :
    Passes hand s hand (deaggrSubframe env i b s f) := by
  unfold deaggrSubframe
  dsimp only
  split
  · exact (alloc (by rfl) (by exact hplain)).trans uapRecv
  · exact (alloc (by rfl) (by exact hplain)).trans free
  · exact (alloc (by rfl) (by exact hplain)).trans (recv fun _ => recvComplete)

theorem subframes (hplain : b.bridge = false) (l : List (Route × List UInt8)) :
    Passes hand s hand (l.foldl (deaggrSubframe env i b) s) := by
  induction l generalizing s with
  | nil => exact refl
  | cons f l ih => exact (subframe hplain f).trans ih

theorem deaggregate (hplain : b.bridge = false) : Passes (b :: hand) s hand (deaggregatePkt env i b s) := by
  unfold Rx.deaggregatePkt
  refine (tick (s.tick + 1)).trans ?_
  dsimp only
  split_ifs
  · exact complete
  · split
    · exact complete
    · exact recv fun _ => complete
    · exact (subframes hplain _).trans complete

theorem deaggregateBehind (hplain : b.bridge = false) :
    Passes (b :: hand) s hand (deaggregateBehind env i b s) := by
  unfold Rx.deaggregateBehind
  exact (rename (by rfl) (by rfl)).trans (deaggregate (by exact hplain))

theorem process : Passes (b :: hand) s hand (process env i b s) := by
  unfold Rx.process
  split_ifs
  · exact processUap
  · exact processRx

theorem dispatch (p : Option Buf) (hplain : ∀ b ∈ p, b.bridge = false) :
    Passes (p.toList ++ hand) s hand (dispatchPkt env i s p) := by
  cases p with
  | none => exact refl
  | some b =>
    unfold dispatchPkt
    dsimp only
    split_ifs
    · exact deaggregateBehind (hplain b rfl)
    · exact process

/-- What a table hands on. -/
theorem dispatches (l : List (Option Buf)) (hplain : ∀ b ∈ l.filterMap id, b.bridge = false) :
    Passes (l.filterMap id ++ hand) s hand (l.foldl (dispatchPkt env i) s) := by
  induction l generalizing s with
  | nil => exact refl
  | cons p l ih =>
    cases p with
    | none => exact ih (by simpa using hplain)
    | some b =>
      simp only [filterMap_cons_some (show id (some b) = some b from rfl), mem_cons, forall_eq_or_imp] at hplain
      exact (dispatch (some b) fun c hc => by
        obtain rfl := Option.some.inj hc
        exact hplain.1).trans (ih hplain.2)

/-- The copy for the monitor. -/
theorem sniff (sniffed : Option Mem) : Passes hand s hand (sniff env i b sniffed s) := by
  unfold Rx.sniff
  cases sniffed with
  | none => exact refl
  | some m =>
    refine (tick (s.tick + 1)).trans ?_
    dsimp only
    split_ifs
    · exact (alloc rfl rfl).trans process
    · exact refl

end Passes

/-! ## At the tables -/

section Tables

variable {wide : ℕ → BitVec 64} {t : Station (Option Buf)} {out taken : List (Key × Option Buf)}

theorem bufs_map (k : Key) (l : List (Option Buf)) : bufs (l.map (k, ·)) = l.filterMap id := by
  simp [bufs, filterMap_map]

/-- A table takes buffers out of the hand and gives others into it. -/
theorem Balance.station (h : Balance s (bufs taken ++ hand)) (hs : Sound t)
    (hperm : (out ++ held t.tables).Perm (held (s.stations i).tables ++ taken)) :
    Balance { s with stations := update s.stations i t } (bufs out ++ hand) := by
  have hbufs : (bufs out ++ bufs (held t.tables)).Perm (bufs (held (s.stations i).tables) ++ bufs taken) := by
    have := hperm.filterMap Prod.snd
    rwa [filterMap_append, filterMap_append] at this
  have hplain : ∀ b ∈ bufs out ++ bufs (held t.tables), b.bridge = false := by
    intro b hb
    rcases mem_append.mp (hbufs.subset hb) with hb | hb
    · exact h.slots i b hb
    · exact h.plain b (mem_append_left _ hb)
  refine ⟨fun n => ?_, h.pending, h.bridged, fun b hb => ?_, fun j => ?_, fun j => ?_⟩
  · have honce := h.once n
    have hmove := poolSum_update (inSlots n) s.stations i t
    have hcount := among_perm n hbufs
    simp only [among_append, inSlots] at honce hmove hcount ⊢
    change ended n s + _ + _ + _ = _
    omega
  · rcases mem_append.mp hb with hb | hb
    · exact hplain b (mem_append_left _ hb)
    · exact h.plain b (mem_append_right _ hb)
  · by_cases hj : j = i
    · subst hj
      simp only [update_self]
      exact fun b hb => hplain b (mem_append_right _ hb)
    · simp only [update_of_ne hj]
      exact h.slots j
  · by_cases hj : j = i
    · subst hj
      simpa only [update_self] using hs
    · simpa only [update_of_ne hj] using h.sound j

/-- The sequence number fits the window that it meets. -/
def SeqFits (s : RxPath ι) (i : ι) (ta : Mac) (d : RxPD) : Prop :=
  ∀ u ∈ getRxReorderTbl (s.stations i).tables (ta, d.priority), 2 ≤ u.winSize → d.seqNum < 4096

/-- The payload that `mlan_11n_rxreorder_pkt` leaves to its caller. -/
def leftOver (ret : MlanStatus) (d : RxPD) (payload : Option Buf) : List Buf :=
  if ret = .success ∧ d.reorderType ≠ .bar then [] else payload.toList

/-- What a call keeps of the history. -/
structure Keeps (s s' : RxPath ι) : Prop where
  grows : s.disposed <+: s'.disposed
  returns : s'.returns = s.returns

theorem Keeps.refl : Keeps s s :=
  ⟨prefix_refl _, rfl⟩

theorem Passes.keeps (h : Passes hand s hand' s') : Keeps s s' :=
  ⟨h.grows, h.returns⟩

theorem Balance.pass (h : Balance s hand) (hp : Passes hand s hand' s') : Balance s' hand' ∧ Keeps s s' :=
  ⟨hp.balance h, hp.keeps⟩

theorem Keeps.trans (h : Keeps s s') (h' : Keeps s' s'') : Keeps s s'' :=
  ⟨h.grows.trans h'.grows, h'.returns.trans h.returns⟩

/-- Packets that a table hands on, once it has taken what it takes. -/
theorem Balance.handsOn {k : Key} {l : List (Option Buf)} (h : Balance s (bufs taken ++ hand)) (hs : Sound t)
    (hperm : (l.map (k, ·) ++ held t.tables).Perm (held (s.stations i).tables ++ taken)) :
    Balance (l.foldl (dispatchPkt env i) { s with stations := update s.stations i t }) hand ∧
      Keeps s (l.foldl (dispatchPkt env i) { s with stations := update s.stations i t }) := by
  have hb := h.station hs hperm
  rw [bufs_map] at hb
  obtain ⟨hb', hk⟩ := hb.pass (.dispatches l fun b hl => hb.plain b (mem_append_left _ hl))
  exact ⟨hb', hk.grows, hk.returns⟩

/-- **A call of `mlan_11n_rxreorder_pkt`.** -/
theorem Balance.rxreorder {ta : Mac} {d : RxPD} {payload : Option Buf} (h : Balance s (payload.toList ++ hand))
    (hseq : SeqFits s i ta d) :
    Balance (rxreorderPkt wide env i ta d payload s).2
        (leftOver (rxreorderPkt wide env i ta d payload s).1 d payload ++ hand) ∧
      Keeps s (rxreorderPkt wide env i ta d payload s).2 := by
  obtain ⟨hs, hperm⟩ := @Sound.rxPkt wide _ (h.sound i) (ta, d.priority) d.seqNum d.reorderType payload hseq
  unfold rxreorderPkt leftOver
  dsimp only
  set r := Station.rxReorder wide (s.stations i).tables (ta, d.priority) d.seqNum d.reorderType payload
  split_ifs at hperm ⊢ with htaken
  · have htake : bufs [(((ta, d.priority) : Key), payload)] = payload.toList := by
      cases payload <;> rfl
    exact Balance.handsOn (by rwa [htake]) hs hperm
  · exact Balance.handsOn (by exact h) hs hperm

/-- Packets that a table hands on without a packet. -/
theorem Balance.handsOut (h : Balance s hand) (hs : Sound t)
    (hperm : (out ++ held t.tables).Perm (held (s.stations i).tables)) :
    Balance ((out.map Prod.snd).foldl (dispatchPkt env i) { s with stations := update s.stations i t }) hand ∧
      Keeps s ((out.map Prod.snd).foldl (dispatchPkt env i) { s with stations := update s.stations i t }) := by
  have hb : Balance { s with stations := update s.stations i t } (bufs out ++ hand) :=
    @Balance.station _ _ _ s i hand t out [] h hs (by rwa [append_nil])
  have hmap : bufs out = (out.map Prod.snd).filterMap id := by
    simp [bufs, filterMap_map]
  rw [hmap] at hb
  obtain ⟨hb', hk⟩ := hb.pass (.dispatches (out.map Prod.snd) fun b hl => hb.plain b (mem_append_left _ hl))
  exact ⟨hb', hk.grows, hk.returns⟩

/-- What was returned does not matter. -/
theorem Balance.history (h : Balance s hand) (l : List (ℕ × MlanStatus)) : Balance { s with returns := l } hand :=
  { h with }

end Tables

end WlanDriver.Rx
