import WlanDriver.Sdio.RxAggr

/-!
# Conservation of the SDIO receive buffers

`Moves` says what became of the buffers that were held and of new ones, and in which order, and each function of the
receive path has one lemma of this form (`Disposes`). The port loop goes by induction on the ports that are set
(`portLoop_spec`).

`buffers_conserved` : a buffer is lost exactly if a read that should make room for it fails, since `f_do_rx_cur` is not
set for it. The loop ends with packets in `mpa_rx` only if the last port is without a buffer and the read of the others in
the recovery fails, or if the interrupt has no port.
-/

namespace WlanDriver.Sdio

open List

/-! ## What becomes of the buffers -/

section

variable {c : RxCard} {s u v w : MpaRx} {b : RxBuf} {x y : List RxBuf} {i : RxInput} {port n : ℕ}

/-- From `u` to `v`, the buffers held before and the new ones `x` are freed, decoded or held, and what is decoded or
held keeps its order. -/
def Moves (u v : MpaRx) (x : List RxBuf) : Prop :=
  ∃ g d, v.freed = u.freed ++ g ∧ v.decoded = u.decoded ++ d ∧ (g ++ d ++ v.mbufArr).Perm (u.mbufArr ++ x) ∧
    (d ++ v.mbufArr).Sublist (u.mbufArr ++ x)

theorem Moves.refl (u : MpaRx) : Moves u u [] :=
  ⟨[], [], by simp⟩

theorem Moves.trans (h : Moves u v x) (h' : Moves v w y) : Moves u w (x ++ y) := by
  obtain ⟨g, d, hf, hd, hperm, hsub⟩ := h
  obtain ⟨g', d', hf', hd', hperm', hsub'⟩ := h'
  refine ⟨g ++ g', d ++ d', ?_, ?_, ?_, ?_⟩
  · rw [hf', hf, append_assoc]
  · rw [hd', hd, append_assoc]
  · have hmid : (g ++ g' ++ (d ++ d') ++ w.mbufArr).Perm (g ++ d ++ (g' ++ d' ++ w.mbufArr)) := by
      simp only [append_assoc]
      refine List.Perm.append_left g ?_
      rw [← append_assoc, ← append_assoc d]
      exact perm_append_comm.append_right _
    have hlast := hperm.append_right y
    rw [append_assoc, append_assoc u.mbufArr] at hlast
    exact hmid.trans ((hperm'.append_left _).trans hlast)
  · have hlast := hsub.append_right y
    rw [append_assoc, append_assoc u.mbufArr] at hlast
    rw [append_assoc]
    exact (hsub'.append_left d).trans hlast

/-- The ports and the allocations stay as they are. -/
structure Disposes (u v : MpaRx) (x : List RxBuf) : Prop where
  allocated : v.allocated = u.allocated
  bitmap : v.mpRdBitmap = u.mpRdBitmap
  curr : v.currRdPort = u.currRdPort
  moved : Moves u v x

namespace Disposes

theorem refl (u : MpaRx) : Disposes u u [] :=
  ⟨rfl, rfl, rfl, .refl u⟩

theorem trans (h : Disposes u v x) (h' : Disposes v w y) : Disposes u w (x ++ y) :=
  ⟨h'.allocated.trans h.allocated, h'.bitmap.trans h.bitmap, h'.curr.trans h.curr, h.moved.trans h'.moved⟩

theorem aggrSetup (u : MpaRx) (b : RxBuf) : Disposes u (u.aggrSetup b) [b] :=
  ⟨rfl, rfl, rfl, [], [], by simp [MpaRx.aggrSetup]⟩

theorem free (u : MpaRx) (b : RxBuf) : Disposes u (u.free b) [b] :=
  ⟨rfl, rfl, rfl, [b], [], by simp [MpaRx.free], by simp [MpaRx.free], perm_append_comm, by simp [MpaRx.free]⟩

/-- A packet is decoded only when no other waits. -/
theorem decode (h : u.mbufArr = []) (b : RxBuf) : Disposes u (u.decode b) [b] :=
  ⟨rfl, rfl, rfl, [], [b], by simp [MpaRx.decode], by simp [MpaRx.decode], by simp [MpaRx.decode, h],
    by simp [MpaRx.decode, h]⟩

end Disposes

/-- The read of the buffers in `mpa_rx` fails. -/
def MpaRx.aggrReadFails (s : MpaRx) (i : RxInput) : Bool :=
  match s.mbufArr with
  | [b] =>
    match MpaRx.cardToHost b.len i.single with
    | some ty => !ty.isData
    | none => true
  | _ => !i.aggrOk

theorem deliver_disposes (c : RxCard) (s : MpaRx) (b : RxBuf) (header : PktType × ℕ) :
    s.deliver c b header = s.decode b ∨ s.deliver c b header = s.free b := by
  unfold MpaRx.deliver
  split_ifs
  exacts [.inl rfl, .inl rfl, .inr rfl]

/-- The packets of an aggregate read are freed or decoded, in their order. -/
theorem deliverAll_spec (c : RxCard) (i : RxInput) : ∀ (bs : List RxBuf) (pind : ℕ) (s : MpaRx),
    ∃ g d, s.deliverAll c i pind bs = { s with freed := s.freed ++ g, decoded := s.decoded ++ d } ∧
      (g ++ d).Perm bs ∧ d.Sublist bs
  | [], pind, s => ⟨[], [], by simp [MpaRx.deliverAll], .refl _, .refl _⟩
  | b :: bs, pind, s => by
    obtain ⟨g, d, heq, hperm, hsub⟩ := deliverAll_spec c i bs (pind + 1) (s.deliver c b (i.header pind))
    rw [MpaRx.deliverAll, heq]
    rcases deliver_disposes c s b (i.header pind) with h | h
    · refine ⟨g, b :: d, ?_, ?_, hsub.cons_cons b⟩
      · simp [h, MpaRx.decode]
      · exact perm_middle.trans (hperm.cons b)
    · exact ⟨b :: g, d, by simp [h, MpaRx.free], hperm.cons b, hsub.cons b⟩

/-- The buffers in `mpa_rx` are read, and if that fails it is empty or as before. -/
theorem receiveMpAggrBuf_spec (c : RxCard) (s : MpaRx) (i : RxInput) :
    Disposes s (s.receiveMpAggrBuf c i).1 [] ∧ (s.receiveMpAggrBuf c i).2 = !s.aggrReadFails i ∧
      ((s.receiveMpAggrBuf c i).2 = true ∨ s.mbufArr.length = 1 → (s.receiveMpAggrBuf c i).1.mbufArr = []) ∧
      ((s.receiveMpAggrBuf c i).2 = false → s.mbufArr.length ≠ 1 → (s.receiveMpAggrBuf c i).1 = s) := by
  rcases hs : s.mbufArr with _ | ⟨b, _ | ⟨b', bs⟩⟩
  · unfold MpaRx.receiveMpAggrBuf MpaRx.aggrReadFails
    rw [hs]
    cases i.aggrOk with
    | true =>
      exact ⟨⟨rfl, rfl, rfl, [], [], by simp [hs, MpaRx.bufReset, MpaRx.deliverAll]⟩, rfl, fun _ => rfl, by simp⟩
    | false => exact ⟨.refl s, rfl, by simp [hs], fun _ _ => rfl⟩
  · have hdec : Disposes s (s.decode b).bufReset [] :=
      ⟨rfl, rfl, rfl, [], [b], by simp [MpaRx.decode, MpaRx.bufReset, hs]⟩
    have hfree : Disposes s (s.free b).bufReset [] :=
      ⟨rfl, rfl, rfl, [b], [], by simp [MpaRx.free, MpaRx.bufReset, hs]⟩
    unfold MpaRx.receiveMpAggrBuf MpaRx.receiveSinglePacket MpaRx.aggrReadFails
    rw [hs]
    dsimp only
    cases MpaRx.cardToHost b.len i.single with
    | none => exact ⟨hfree, rfl, fun _ => rfl, by simp⟩
    | some ty =>
      dsimp only
      split_ifs with hty
      · exact ⟨hdec, by simp [hty], fun _ => rfl, by simp⟩
      · exact ⟨hfree, by simp [hty], fun _ => rfl, by simp⟩
  · unfold MpaRx.receiveMpAggrBuf MpaRx.aggrReadFails
    rw [hs]
    cases i.aggrOk with
    | true =>
      obtain ⟨g, d, heq, hperm, hsub⟩ := deliverAll_spec c i (b :: b' :: bs) 0 s
      simp only [if_true, heq]
      exact ⟨⟨rfl, rfl, rfl, g, d, rfl, rfl, by simpa [MpaRx.bufReset, hs] using hperm,
        by simpa [MpaRx.bufReset, hs] using hsub⟩, rfl, fun _ => rfl, by simp⟩
    | false => exact ⟨.refl s, rfl, by simp, fun _ _ => rfl⟩

theorem rxFailed_spec (s : MpaRx) (f : MpaRx.RxFlags) (b : RxBuf) :
    Disposes s (s.rxFailed f b) (if f.doRxCur then [b] else []) ∧ (s.rxFailed f b).mbufArr = [] := by
  have hall : Disposes s { s with freed := s.freed ++ s.mbufArr }.bufReset [] :=
    ⟨rfl, rfl, rfl, s.mbufArr, [], by simp [MpaRx.bufReset]⟩
  unfold MpaRx.rxFailed
  by_cases hs : s.mbufArr = []
  · simp only [ne_eq, hs, not_true_eq_false, if_false]
    split_ifs
    · exact ⟨.free s b, hs⟩
    · exact ⟨.refl s, hs⟩
  · simp only [ne_eq, hs, not_false_eq_true, if_true]
    split_ifs
    · exact ⟨hall.trans (.free _ b), rfl⟩
    · exact ⟨hall, rfl⟩

/-- A data port is read alone, with the others, behind the others, or it makes room for itself. -/
inductive RxFlagCase (c : RxCard) (s : MpaRx) : MpaRx.RxFlags → Prop
  | single (h : s.mbufArr = []) : RxFlagCase c s ⟨false, true, false, false⟩
  | aggr {flush : Bool} (h : flush = false → s.notLast c = true) : RxFlagCase c s ⟨flush, false, true, false⟩
  | flushSingle : RxFlagCase c s ⟨true, true, false, false⟩
  | flushPost (h : s.notLast c = true) : RxFlagCase c s ⟨true, false, false, true⟩

theorem rxFlags_cases (hdis : c.enabled = false → s.mbufArr = []) (hport : c.newMode = false → port ≠ 0) (len : ℕ) :
    RxFlagCase c s (s.rxFlags c port len) := by
  unfold MpaRx.rxFlags
  split_ifs with hsingle hlast hprog hroom hprog' hroom'
  · simp only [Bool.or_eq_true, Bool.and_eq_true, Bool.not_eq_true', decide_eq_true_eq] at hsingle
    exact .single (hsingle.elim (fun h => absurd h.2 (hport h.1)) hdis)
  · exact .aggr fun _ => hlast
  · exact .flushPost hlast
  · exact .aggr fun _ => hlast
  · exact .aggr fun h => absurd h (by decide)
  · exact .flushSingle
  · exact .single (not_not.mp hprog')

/-- The buffer of a port that makes room for itself is lost if the read of the others fails. -/
def MpaRx.leaks (c : RxCard) (s : MpaRx) (port len : ℕ) (i : RxInput) : Bool :=
  (s.rxFlags c port len).postAggrCur && s.aggrReadFails i

/-- What becomes of the buffer of a port. -/
theorem cardToHostMpAggr_spec (hdis : c.enabled = false → s.mbufArr = []) (hport : c.newMode = false → b.port ≠ 0)
    (i : RxInput) :
    (s.leaks c b.port b.len i = false → Disposes s (s.cardToHostMpAggr c b i).1 [b]) ∧
      (s.leaks c b.port b.len i = true →
        (s.cardToHostMpAggr c b i).2 = false ∧ Disposes s (s.cardToHostMpAggr c b i).1 []) ∧
      ((s.cardToHostMpAggr c b i).2 = true → s.notLast c = false → (s.cardToHostMpAggr c b i).1.mbufArr = []) ∧
      (c.enabled = false → (s.cardToHostMpAggr c b i).1.mbufArr = []) := by
  have hcase := rxFlags_cases hdis hport b.len
  obtain ⟨f, hf⟩ : ∃ f, f = s.rxFlags c b.port b.len := ⟨_, rfl⟩
  have hen : f ≠ ⟨false, true, false, false⟩ → c.enabled = true := fun hne => by
    by_contra h
    refine hne (hf.trans ?_)
    simp [MpaRx.rxFlags, h]
  obtain ⟨hrecv, hok, hempty, -⟩ := receiveMpAggrBuf_spec c s i
  unfold MpaRx.cardToHostMpAggr MpaRx.leaks
  rw [← hf] at hcase ⊢
  cases hcase with
  | single h =>
    have hdec : Disposes s (s.decode b) [b] := .decode h b
    obtain ⟨hfail, hnil⟩ := rxFailed_spec s ⟨false, true, false, false⟩ b
    simp only [MpaRx.aggrCur, Bool.false_and, Bool.false_eq_true, if_false, Bool.not_true, if_true]
    split_ifs
    · exact ⟨fun _ => hdec, by simp, fun _ _ => h, fun _ => h⟩
    · exact ⟨fun _ => hfail, by simp, by simp, fun _ => hnil⟩
  | @aggr flush hflush =>
    have hput := Disposes.aggrSetup s b
    obtain ⟨hrecv, hok, hempty, -⟩ := receiveMpAggrBuf_spec c (s.aggrSetup b) i
    obtain ⟨hfail, hnil⟩ := rxFailed_spec ((s.aggrSetup b).receiveMpAggrBuf c i).1 ⟨flush, false, true, false⟩ b
    have hlive := hen (by simp)
    simp only [MpaRx.aggrCur, Bool.false_and, Bool.false_eq_true, if_false, if_true]
    cases hsend : (flush || (s.aggrSetup b).mbufArr.length = c.pktAggrLimit || (s.aggrSetup b).portLimitReached c) with
    | false =>
      simp only [Bool.or_eq_false_iff] at hsend
      simp only [Bool.false_eq_true, if_false, Bool.not_true]
      refine ⟨fun _ => hput, by simp, fun _ hlast => ?_, fun h => absurd (hlive.symm.trans h) (by decide)⟩
      exact absurd (hlast.symm.trans (hflush hsend.1.1)) (by decide)
    | true =>
      simp only [if_true]
      cases hres : ((s.aggrSetup b).receiveMpAggrBuf c i).2 with
      | true =>
        simp only [Bool.not_true, Bool.false_eq_true, if_false]
        exact ⟨fun _ => by simpa using hput.trans hrecv, by simp, fun _ _ => hempty (.inl hres),
          fun h => absurd (hlive.symm.trans h) (by decide)⟩
      | false =>
        simp only [Bool.not_false, if_true]
        exact ⟨fun _ => by simpa using (hput.trans hrecv).trans hfail, by simp, by simp, fun _ => hnil⟩
  | flushSingle =>
    obtain ⟨hfail, hnil⟩ := rxFailed_spec (s.receiveMpAggrBuf c i).1 ⟨true, true, false, false⟩ b
    have hlive := hen (by simp)
    simp only [MpaRx.aggrCur, Bool.false_and, Bool.false_eq_true, if_false, if_true]
    cases hres : (s.receiveMpAggrBuf c i).2 with
    | true =>
      have hnil' := hempty (.inl hres)
      have hdec : Disposes _ ((s.receiveMpAggrBuf c i).1.decode b) [b] := .decode hnil' b
      simp only [Bool.not_true, Bool.false_eq_true, if_false]
      split_ifs
      · exact ⟨fun _ => by simpa using hrecv.trans hdec, by simp, fun _ _ => hnil',
          fun h => absurd (hlive.symm.trans h) (by decide)⟩
      · exact ⟨fun _ => by simpa using hrecv.trans hfail, by simp, by simp, fun _ => hnil⟩
    | false =>
      simp only [Bool.not_false, if_true]
      exact ⟨fun _ => by simpa using hrecv.trans hfail, by simp, by simp, fun _ => hnil⟩
  | flushPost hnot =>
    obtain ⟨hfail, hnil⟩ := rxFailed_spec (s.receiveMpAggrBuf c i).1 ⟨true, false, false, true⟩ b
    have hlive := hen (by simp)
    have hput := Disposes.aggrSetup (s.receiveMpAggrBuf c i).1 b
    simp only [MpaRx.aggrCur, Bool.true_and, Bool.false_eq_true, if_false, if_true]
    cases hres : (s.receiveMpAggrBuf c i).2 with
    | true =>
      have hread : s.aggrReadFails i = false := by simpa [hres] using hok.symm
      simp only [Bool.not_true, Bool.false_eq_true, if_false, hread]
      exact ⟨fun _ => by simpa using hrecv.trans hput, by simp,
        fun _ hlast => absurd (hlast.symm.trans hnot) (by decide), fun h => absurd (hlive.symm.trans h) (by decide)⟩
    | false =>
      have hread : s.aggrReadFails i = true := by simpa [hres] using hok.symm
      simp only [Bool.not_false, if_true, hread]
      exact ⟨by simp, fun _ => ⟨trivial, by simpa using hrecv.trans hfail⟩, by simp, fun _ => hnil⟩

/-- The packets stay in `mpa_rx`, and the loop goes on : there is no buffer, and the aggregate read fails. -/
def MpaRx.strands (c : RxCard) (s : MpaRx) (len : ℕ) (i : RxInput) : Bool :=
  c.newMode && 2 ≤ s.mbufArr.length && !i.aggrOk && ((MpaRx.cardToHost len i.curr).all PktType.isData)

/-- What becomes of the buffers in the recovery. -/
theorem cardToHostRecovery_spec (c : RxCard) (s : MpaRx) (len : ℕ) (i : RxInput) :
    Disposes s (s.cardToHostRecovery c len i).1 [] ∧
      ((s.cardToHostRecovery c len i).2 = true →
        ((s.cardToHostRecovery c len i).1.mbufArr = [] ↔ s.strands c len i = false)) ∧
      (s.mbufArr = [] → (s.cardToHostRecovery c len i).1.mbufArr = []) ∧
      (s.strands c len i = true → (s.cardToHostRecovery c len i).2 = true) := by
  obtain ⟨hrecv, hok, hempty, hsame⟩ := receiveMpAggrBuf_spec c s i
  obtain ⟨u, hu⟩ : ∃ u, u = if s.mbufArr ≠ [] then (s.receiveMpAggrBuf c i).1 else s := ⟨_, rfl⟩
  have hdisp : Disposes s u [] := by
    rw [hu]
    split_ifs
    · exact hrecv
    · exact .refl s
  have hnil : s.mbufArr = [] → u.mbufArr = [] := fun h => by
    rw [hu, if_neg (by simp [h])]
    exact h
  -- two packets or more stay if the read fails
  have hiff : u.mbufArr = [] ↔ (2 ≤ s.mbufArr.length && !i.aggrOk) = false := by
    rcases hs : s.mbufArr with _ | ⟨x, _ | ⟨y, l⟩⟩
    · simp [hnil hs]
    · rw [hu, if_pos (by simp [hs])]
      simp [hempty (.inr (by simp [hs]))]
    · rw [hu, if_pos (by simp [hs])]
      have hfails : s.aggrReadFails i = !i.aggrOk := by
        unfold MpaRx.aggrReadFails
        rw [hs]
      cases hio : i.aggrOk with
      | true => simp [hempty (.inl (by rw [hok, hfails, hio]; rfl))]
      | false =>
        rw [hsame (by rw [hok, hfails, hio]; rfl) (by simp [hs])]
        simp [hs]
  unfold MpaRx.cardToHostRecovery MpaRx.strands
  rw [← hu]
  cases hmode : c.newMode with
  | false =>
    simp only [Bool.not_false, if_true]
    exact ⟨.refl s, by simp, fun h => h, by simp⟩
  | true =>
    simp only [Bool.not_true, Bool.false_eq_true, if_false, Bool.true_and]
    rcases hread : MpaRx.cardToHost len i.curr with _ | ty
    · exact ⟨hdisp, fun _ => by simpa using hiff, hnil, fun _ => rfl⟩
    · refine ⟨hdisp, fun hty => ?_, hnil, fun hs => ?_⟩
      · dsimp only at hty
        simpa [hty] using hiff
      · simp only [Option.all_some, Bool.and_eq_true] at hs
        exact hs.2

/-! ## The port loop -/

/-- A turn loses its buffer. -/
def MpaRx.turnLeaks (c : RxCard) (s : MpaRx) (port : ℕ) (i : RxInput) : Bool :=
  (MpaRx.blockRxLen c i.rxLen).any fun len => i.alloc && s.leaks c port len i

/-- A last turn leaves packets in `mpa_rx`. -/
def MpaRx.turnStrands (c : RxCard) (s : MpaRx) (i : RxInput) : Bool :=
  (MpaRx.blockRxLen c i.rxLen).any fun len => !i.alloc && s.strands c len i && !s.notLast c

/-- The buffer of a turn. -/
def MpaRx.turnBufs (c : RxCard) (s : MpaRx) (port : ℕ) (i : RxInput) : List RxBuf :=
  match MpaRx.blockRxLen c i.rxLen with
  | some len => if i.alloc then [⟨s.allocated.length, port, len⟩] else []
  | none => []

theorem portTurn_spec (hdis : c.enabled = false → s.mbufArr = []) (hport : c.newMode = false → port ≠ 0) (i : RxInput) :
    let t := { s with allocated := s.allocated ++ s.turnBufs c port i }
    let r := s.portTurn c port i
    (s.turnLeaks c port i = false → Disposes t r.1 (s.turnBufs c port i)) ∧
      (s.turnLeaks c port i = true → r.2 = false ∧ s.turnBufs c port i ≠ [] ∧ Disposes t r.1 []) ∧
      (r.2 = true → s.notLast c = false → (r.1.mbufArr = [] ↔ s.turnStrands c i = false)) ∧
      (c.enabled = false → r.1.mbufArr = []) ∧ (s.turnStrands c i = true → r.2 = true ∧ s.notLast c = false) := by
  unfold MpaRx.portTurn MpaRx.turnLeaks MpaRx.turnStrands MpaRx.turnBufs
  rcases hlen : MpaRx.blockRxLen c i.rxLen with _ | len
  · simp only [append_nil]
    exact ⟨fun _ => .refl s, by simp, by simp, hdis, by simp⟩
  · cases halloc : i.alloc with
    | true =>
      obtain ⟨hkeep, hleak, hlast, hoff⟩ := cardToHostMpAggr_spec (c := c)
        (s := { s with allocated := s.allocated ++ [⟨s.allocated.length, port, len⟩] })
        (b := ⟨s.allocated.length, port, len⟩) hdis hport i
      simp only [if_true, Option.any_some, Bool.true_and, Bool.not_true, Bool.false_and]
      refine ⟨hkeep, fun h => ⟨(hleak h).1, by simp, (hleak h).2⟩, fun h hl => ?_, hoff, by simp⟩
      simpa using hlast h hl
    | false =>
      obtain ⟨hdisp, hiff, hnil, hgo⟩ := cardToHostRecovery_spec c s len i
      simp only [Bool.false_eq_true, if_false, Option.any_some, Bool.false_and, append_nil, Bool.not_false,
        Bool.true_and]
      refine ⟨fun _ => hdisp, by simp, fun h hl => ?_, fun h => hnil (hdis h), fun h => ?_⟩
      · simpa [hl] using hiff h
      · simp only [Bool.and_eq_true, Bool.not_eq_true'] at h
        exact ⟨hgo h.1, h.2⟩

/-- The `k`-th port from `p` on, for less than a full turn. -/
def RxCard.rdPortAt (c : RxCard) (p k : ℕ) : ℕ :=
  if p + k < maxPorts c.newMode then p + k else p + k - (maxPorts c.newMode - startRdPort c.newMode)

/-- The set bits are those of `n` data ports from `curr_rd_port` on. -/
structure RdRun (c : RxCard) (s : MpaRx) (n : ℕ) : Prop where
  le : n ≤ maxPorts c.newMode - startRdPort c.newMode
  start_le : startRdPort c.newMode ≤ s.currRdPort
  lt_max : s.currRdPort < maxPorts c.newMode
  bits : ∀ i, s.mpRdBitmap.getLsbD i = true ↔ ∃ k < n, c.rdPortAt s.currRdPort k = i

theorem startRdPort_lt (m : Bool) : startRdPort m < maxPorts m ∧ maxPorts m ≤ 32 := by
  cases m <;> decide

theorem dataPortMask_bit (m : Bool) (i : ℕ) :
    (dataPortMask m).getLsbD i = decide (startRdPort m ≤ i ∧ i < maxPorts m) := by
  by_cases hi : i < 32
  · have hall : ∀ i < 32, ∀ m, (dataPortMask m).getLsbD i = decide (startRdPort m ≤ i ∧ i < maxPorts m) := by decide
    exact hall i hi m
  · have := (startRdPort_lt m).2
    rw [BitVec.getLsbD_of_ge _ _ (by omega), eq_comm, decide_eq_false_iff_not]
    omega

/-- A word has no bit of a mask that covers its bits exactly if it has no bit. -/
theorem and_eq_zero_iff {x m : BitVec 32} (h : ∀ i, x.getLsbD i = true → m.getLsbD i = true) :
    x &&& m = 0 ↔ ∀ i, x.getLsbD i = false := by
  constructor
  · intro h0 i
    by_contra hi
    have hbit := congrArg (BitVec.getLsbD · i) h0
    simp only [BitVec.getLsbD_and, h i (by simpa using hi), Bool.and_true] at hbit
    simp [hbit] at hi
  · intro h0
    refine BitVec.eq_of_getLsbD_eq fun i _ => ?_
    simp [h0 i]

namespace RdRun

theorem isPort (h : RdRun c s n) {k : ℕ} (hk : k < n) :
    startRdPort c.newMode ≤ c.rdPortAt s.currRdPort k ∧ c.rdPortAt s.currRdPort k < maxPorts c.newMode := by
  obtain ⟨hle, hstart, hlt, -⟩ := h
  unfold RxCard.rdPortAt
  split_ifs <;> omega

/-- A set bit is that of a data port. -/
theorem mask_of_bit (h : RdRun c s n) {i : ℕ} (hi : s.mpRdBitmap.getLsbD i = true) :
    (dataPortMask c.newMode).getLsbD i = true := by
  obtain ⟨k, hk, rfl⟩ := (h.bits i).mp hi
  rw [dataPortMask_bit, decide_eq_true_eq]
  exact h.isPort hk

theorem bit_iff (h : RdRun c s n) : (∀ i, s.mpRdBitmap.getLsbD i = false) ↔ n = 0 := by
  constructor
  · intro h0
    by_contra hn
    have := (h.bits _).mpr ⟨0, by omega, rfl⟩
    simp [h0] at this
  · rintro rfl i
    by_contra hi
    obtain ⟨k, hk, -⟩ := (h.bits i).mp (by simpa using hi)
    exact absurd hk (by omega)

theorem notLast_iff (h : RdRun c s n) : s.notLast c = true ↔ n ≠ 0 := by
  have hbits := not_congr h.bit_iff
  unfold MpaRx.notLast
  split_ifs with hmode
  · rw [decide_eq_true_eq, ne_eq, and_eq_zero_iff fun i hi => h.mask_of_bit hi]
    exact hbits
  · have hold : c.newMode = false := by simpa using hmode
    rw [decide_eq_true_eq, ne_eq, and_eq_zero_iff fun i hi => ?_]
    · exact hbits
    have hbit := h.mask_of_bit hi
    rw [dataPortMask_bit, hold, decide_eq_true_eq] at hbit
    obtain ⟨hlow, hhigh⟩ := hbit
    have hall : ∀ i < 16, 1 ≤ i → (~~~(1 : BitVec 32)).getLsbD i = true := by decide
    exact hall i hhigh hlow

theorem getRdPort_succ (h : RdRun c s (n + 1)) : ∃ u, s.getRdPort c = (u, some s.currRdPort) ∧
    u = { s with mpRdBitmap := u.mpRdBitmap, currRdPort := c.rdPortAt s.currRdPort 1 } ∧ RdRun c u n ∧
      (c.newMode = false → s.currRdPort ≠ 0) := by
  obtain ⟨hlt, h32⟩ := startRdPort_lt c.newMode
  have hzero : c.rdPortAt s.currRdPort 0 = s.currRdPort := by
    rw [RxCard.rdPortAt, if_pos (by simpa using h.lt_max), Nat.add_zero]
  have hbit : s.mpRdBitmap.getLsbD s.currRdPort = true := (h.bits _).mpr ⟨0, by omega, hzero⟩
  have hctrl : (!c.newMode && s.mpRdBitmap.getLsbD 0) = false := by
    cases hmode : c.newMode with
    | true => rfl
    | false =>
      by_contra h0
      have := h.mask_of_bit (i := 0) (by simpa using h0)
      rw [dataPortMask_bit, hmode] at this
      exact absurd this (by decide)
  have hmask : ¬s.mpRdBitmap &&& (if c.newMode then dataPortMask c.newMode else 1 ||| dataPortMask c.newMode) = 0 := by
    rw [and_eq_zero_iff fun i hi => ?_]
    · exact fun h0 => absurd ((h0 _).symm.trans hbit) (by decide)
    · split_ifs
      · exact h.mask_of_bit hi
      · rw [BitVec.getLsbD_or, h.mask_of_bit hi, Bool.or_true]
  have hnext : (if s.currRdPort + 1 = maxPorts c.newMode then startRdPort c.newMode else s.currRdPort + 1) =
      c.rdPortAt s.currRdPort 1 := by
    have := h.lt_max
    unfold RxCard.rdPortAt
    split_ifs <;> omega
  refine ⟨_, by rw [MpaRx.getRdPort, if_neg hmask, if_neg (by rw [hctrl]; decide), if_pos hbit], ?_, ?_, ?_⟩
  · simp only [hnext]
  · obtain ⟨hle, hstart, hmax, hbits⟩ := h
    refine ⟨by omega, ?_, ?_, fun i => ?_⟩
    · dsimp only
      split_ifs <;> omega
    · dsimp only
      split_ifs <;> omega
    · dsimp only
      rw [hnext, BitVec.getLsbD_and, BitVec.getLsbD_not, BitVec.getLsbD_shiftLeft, Bool.and_eq_true, hbits i]
      have hshift : ∀ k < n, c.rdPortAt (c.rdPortAt s.currRdPort 1) k = c.rdPortAt s.currRdPort (k + 1) := by
        intro k hk
        unfold RxCard.rdPortAt
        split_ifs <;> omega
      constructor
      · rintro ⟨⟨k, hk, rfl⟩, hne⟩
        obtain _ | k := k
        · rw [hzero] at hne
          simp [show s.currRdPort < 32 by omega] at hne
        · exact ⟨k, by omega, hshift k (by omega)⟩
      · rintro ⟨k, hk, rfl⟩
        rw [hshift k hk]
        refine ⟨⟨k + 1, by omega, rfl⟩, ?_⟩
        have hneq : c.rdPortAt s.currRdPort (k + 1) ≠ s.currRdPort := by
          unfold RxCard.rdPortAt
          split_ifs <;> omega
        have hlt' : c.rdPortAt s.currRdPort (k + 1) < 32 := by
          unfold RxCard.rdPortAt
          split_ifs <;> omega
        simp only [Bool.and_eq_true, decide_eq_true_eq, Bool.not_eq_true', Bool.and_eq_false_iff]
        refine ⟨hlt', ?_⟩
        by_cases hge : c.rdPortAt s.currRdPort (k + 1) < s.currRdPort
        · simp [hge]
        · have h1 : c.rdPortAt s.currRdPort (k + 1) - s.currRdPort ≠ 0 := by omega
          right
          simp [BitVec.getLsbD_one, h1]
  · intro hmode
    have hs := h.start_le
    rw [hmode] at hs
    exact Nat.one_le_iff_ne_zero.mp hs

theorem getRdPort_zero (h : RdRun c s 0) : s.getRdPort c = (s, none) := by
  have h0 := h.bit_iff.mpr rfl
  have hzero : s.mpRdBitmap = 0 := BitVec.eq_of_getLsbD_eq fun i _ => by simp [h0 i]
  unfold MpaRx.getRdPort
  rw [if_pos]
  rw [hzero]
  exact BitVec.zero_and

end RdRun

/-- No turn of the loop loses its buffer, and the last one leaves no packet. -/
def MpaRx.portsKept (c : RxCard) (i : ℕ → RxInput) : ℕ → MpaRx → Bool
  | 0, _ => true
  | fuel + 1, s =>
    match s.getRdPort c with
    | (_, none) => true
    | (u, some port) =>
      !u.turnLeaks c port (i port) && !u.turnStrands c (i port) &&
        match u.portTurn c port (i port) with
        | (v, true) => v.portsKept c i fuel
        | (_, false) => true

/-- What a loop over `n` ports does from `s`, with the buffers `x`. -/
structure LoopSpec (c : RxCard) (s : MpaRx) (n : ℕ) (ok : Bool) (r : MpaRx × Bool) (x : List RxBuf) : Prop where
  allocated : r.1.allocated = s.allocated ++ x
  ids : x.map RxBuf.id = range' s.allocated.length x.length
  ports : (x.map RxBuf.port).Sublist ((List.range n).map (c.rdPortAt s.currRdPort))
  /-- If nothing is lost, the buffers are accounted for. -/
  kept : ok = true → Moves s r.1 x ∧ (n ≠ 0 → r.2 = true → r.1.mbufArr = [])
  /-- Otherwise one is lost, or packets are left. -/
  lost : ok = false → (∃ y, Moves s r.1 y ∧ y.length < x.length) ∨ r.2 = true ∧ r.1.mbufArr ≠ []
  disabled : c.enabled = false → r.1.mbufArr = []
  start_le : startRdPort c.newMode ≤ r.1.currRdPort
  lt_max : r.1.currRdPort < maxPorts c.newMode

theorem turnBufs_ids (c : RxCard) (s : MpaRx) (port : ℕ) (i : RxInput) :
    (s.turnBufs c port i).map RxBuf.id = range' s.allocated.length (s.turnBufs c port i).length ∧
      ((s.turnBufs c port i).map RxBuf.port).Sublist [port] := by
  unfold MpaRx.turnBufs
  split
  · split_ifs
    · exact ⟨rfl, .refl _⟩
    · exact ⟨rfl, nil_sublist _⟩
  · exact ⟨rfl, nil_sublist _⟩

/-- The first of the `n + 1` ports, and then the others. -/
theorem rdPorts_succ (h : RdRun c s (n + 1)) :
    (List.range (n + 1)).map (c.rdPortAt s.currRdPort) =
      s.currRdPort :: (List.range n).map (c.rdPortAt (c.rdPortAt s.currRdPort 1)) := by
  obtain ⟨hle, hstart, hmax, -⟩ := h
  rw [range_succ_eq_map, map_cons, map_map]
  congr 1
  · unfold RxCard.rdPortAt
    split_ifs <;> omega
  · refine map_congr_left fun k hk => ?_
    have := mem_range.mp hk
    simp only [Function.comp_apply, Nat.succ_eq_add_one]
    unfold RxCard.rdPortAt
    split_ifs <;> omega

theorem portLoop_spec (i : ℕ → RxInput) : ∀ (n fuel : ℕ) (s : MpaRx), RdRun c s n → n < fuel →
    (c.enabled = false → s.mbufArr = []) → ∃ x, LoopSpec c s n (s.portsKept c i fuel) (s.portLoop c i fuel) x
  | 0, fuel + 1, s, h, _, hdis => by
    unfold MpaRx.portLoop MpaRx.portsKept
    rw [h.getRdPort_zero]
    exact ⟨[], by simp, rfl, .refl _, fun _ => ⟨.refl s, fun h => absurd rfl h⟩, by simp, hdis, h.start_le, h.lt_max⟩
  | n + 1, fuel + 1, s, h, hfuel, hdis => by
    obtain ⟨u, hget, hu, hrun, hctrl⟩ := h.getRdPort_succ
    obtain ⟨port, hport⟩ : ∃ port, port = s.currRdPort := ⟨_, rfl⟩
    have hmoves : ∀ v y, Moves { u with allocated := u.allocated ++ u.turnBufs c port (i port) } v y → Moves s v y := by
      rw [hu]
      exact fun v y hm => hm
    have halloc : u.allocated = s.allocated := by rw [hu]
    have hdis' : c.enabled = false → u.mbufArr = [] := by
      rw [hu]
      exact hdis
    obtain ⟨hkeep, hleak, hlast, hoff, hstrand⟩ := portTurn_spec hdis' (hport ▸ hctrl) (i port)
    obtain ⟨hids, hports⟩ := turnBufs_ids c u port (i port)
    have hone : ((u.turnBufs c port (i port)).map RxBuf.port).Sublist
        ((List.range (n + 1)).map (c.rdPortAt s.currRdPort)) := by
      rw [rdPorts_succ h, ← hport]
      exact hports.trans ((nil_sublist _).cons_cons port)
    have hframe : ∀ y, Disposes { u with allocated := u.allocated ++ u.turnBufs c port (i port) }
        (u.portTurn c port (i port)).1 y → (u.portTurn c port (i port)).1.allocated =
          s.allocated ++ u.turnBufs c port (i port) ∧ RdRun c (u.portTurn c port (i port)).1 n ∧
            (u.portTurn c port (i port)).1.currRdPort = c.rdPortAt s.currRdPort 1 := by
      intro y hd
      refine ⟨hd.allocated.trans (by rw [halloc]), ⟨hrun.le, ?_, ?_, ?_⟩, hd.curr.trans (by rw [hu])⟩
      · rw [hd.curr]
        exact hrun.start_le
      · rw [hd.curr]
        exact hrun.lt_max
      · rw [hd.bitmap, hd.curr]
        exact hrun.bits
    unfold MpaRx.portLoop MpaRx.portsKept
    rw [hget, ← hport]
    obtain ⟨r, hr⟩ : ∃ r, r = u.portTurn c port (i port) := ⟨_, rfl⟩
    obtain ⟨v, ok⟩ := r
    rw [← hr] at hkeep hleak hlast hoff hstrand hframe
    dsimp only at hkeep hleak hlast hoff hstrand hframe ⊢
    rw [← hr]
    cases hl : u.turnLeaks c port (i port) with
    | true =>
      -- the buffer is lost, and the function returns
      obtain ⟨hok, hne, hd⟩ := hleak hl
      subst hok
      obtain ⟨ha, hrun', -⟩ := hframe _ hd
      refine ⟨_, ha, halloc ▸ hids, hone, by simp, fun _ => .inl ⟨[], hmoves _ _ hd.moved, ?_⟩, hoff, hrun'.start_le,
        hrun'.lt_max⟩
      exact length_pos_iff.mpr hne
    | false =>
      have hd := hkeep hl
      obtain ⟨ha, hrun', hcurr⟩ := hframe _ hd
      have hm := hmoves _ _ hd.moved
      have hnl : u.notLast c = false ↔ n = 0 := by
        rw [← Bool.not_eq_true, hrun.notLast_iff, not_not]
      cases ok with
      | false =>
        dsimp only
        have hs : u.turnStrands c (i port) = false := by
          by_contra hs
          exact absurd (hstrand (by simpa using hs)).1 (by decide)
        refine ⟨_, ha, halloc ▸ hids, hone, fun _ => ⟨hm, fun _ h => nomatch h⟩, ?_, hoff, hrun'.start_le,
          hrun'.lt_max⟩
        simp [hs]
      | true =>
        obtain ⟨y, hy⟩ := portLoop_spec i n fuel v hrun' (by omega) hoff
        dsimp only
        have hend : n = 0 → v.portLoop c i fuel = (v, true) ∧ v.portsKept c i fuel = true := by
          rintro rfl
          obtain ⟨fuel, rfl⟩ : ∃ f, fuel = f + 1 := ⟨fuel - 1, by omega⟩
          unfold MpaRx.portLoop MpaRx.portsKept
          rw [hrun'.getRdPort_zero]
          exact ⟨rfl, rfl⟩
        refine ⟨_, by rw [hy.allocated, ha, append_assoc], ?_, ?_, fun hk => ?_, fun hk => ?_, hy.disabled,
          hy.start_le, hy.lt_max⟩
        · rw [map_append, hids, hy.ids, ha, halloc, length_append, length_append, List.range'_append_1]
        · have hrest := hy.ports
          rw [hcurr, ← hport] at hrest
          rw [map_append, rdPorts_succ h, ← hport]
          exact hports.append hrest
        · simp only [Bool.not_false, Bool.true_and, Bool.and_eq_true, Bool.not_eq_true'] at hk
          obtain ⟨hmy, hempty⟩ := hy.kept hk.2
          refine ⟨hm.trans hmy, fun _ hok => ?_⟩
          by_cases hn : n = 0
          · rw [(hend hn).1]
            exact (hlast rfl (hnl.mpr hn)).mpr hk.1
          · exact hempty hn hok
        · simp only [Bool.not_false, Bool.true_and] at hk
          cases hs : u.turnStrands c (i port) with
          | true =>
            have hn := hnl.mp (hstrand hs).2
            rw [(hend hn).1]
            exact .inr ⟨rfl, fun h => absurd (hs.symm.trans ((hlast rfl (hnl.mpr hn)).mp h)) (by decide)⟩
          | false =>
            rw [hs] at hk
            rcases hy.lost (by simpa using hk) with ⟨z, hz, hlt⟩ | hleft
            · refine .inl ⟨_, hm.trans hz, ?_⟩
              rw [length_append, length_append]
              omega
            · exact .inr hleft

/-! ## Runs -/

/-- An interrupt : the read bitmap of the card, and what happens at each port. -/
structure RxOp where
  bitmap : BitVec 32
  input : ℕ → RxInput

/-- The receive path, from `wlan_init_adapter` on. -/
def rxSystem (c : RxCard) : System MpaRx RxOp where
  init s := s.currRdPort = startRdPort c.newMode ∧ s.mbufArr = [] ∧ s.allocated = [] ∧ s.freed = [] ∧ s.decoded = []
  step s op := some (s.processIntStatus c op.bitmap op.input).1

/-- The set bits of the interrupt are those of `n` data ports from `curr_rd_port` on. -/
def RxOp.Ports (c : RxCard) (s : MpaRx) (op : RxOp) (n : ℕ) : Prop :=
  RdRun c { s with mpRdBitmap := op.bitmap } n

/-- No read of the buffers in `mpa_rx` that makes room for a buffer fails, no last port is without a buffer while such a
read fails, and an interrupt without ports finds `mpa_rx` empty. -/
def RxOp.Kept (c : RxCard) (s : MpaRx) (op : RxOp) : Prop :=
  (op.bitmap = 0 → s.mbufArr = []) ∧
    { s with mpRdBitmap := op.bitmap }.portsKept c op.input (maxPorts c.newMode + 1) = true
  deriving Decidable

/-- Each buffer is freed once, decoded once, or in `mpa_rx` once, and packets are decoded in the order of the ports. -/
structure Conserved (s : MpaRx) : Prop where
  ids : s.allocated.map RxBuf.id = List.range s.allocated.length
  once : (s.freed ++ s.decoded ++ s.mbufArr).Perm s.allocated
  order : (s.decoded ++ s.mbufArr).Sublist s.allocated

/-- What an interrupt leaves behind. -/
structure RxDone (c : RxCard) (s : MpaRx) (n : ℕ) (r : MpaRx × Bool) : Prop where
  conserved : Conserved r.1
  /-- The new buffers are those of the ports, in the cyclic order. -/
  ports : ∃ x, r.1.allocated = s.allocated ++ x ∧
    (x.map RxBuf.port).Sublist ((List.range n).map (c.rdPortAt s.currRdPort))
  emptied : r.2 = true → r.1.mbufArr = []

/-- What holds between the interrupts. -/
structure RxInv (c : RxCard) (s : MpaRx) : Prop where
  conserved : Conserved s
  disabled : c.enabled = false → s.mbufArr = []

theorem Moves.length (h : Moves u v x) (hu : (u.freed ++ u.decoded ++ u.mbufArr).length = n) :
    (v.freed ++ v.decoded ++ v.mbufArr).length = n + x.length := by
  obtain ⟨g, d, hf, hd, hperm, -⟩ := h
  have hlen := hperm.length_eq
  simp only [length_append] at hlen hu ⊢
  rw [hf, hd, length_append, length_append]
  omega

theorem Moves.conserved_next (h : Moves u v x) (hu : Conserved u) (halloc : v.allocated = u.allocated ++ x)
    (hids : x.map RxBuf.id = range' u.allocated.length x.length) : Conserved v := by
  obtain ⟨g, d, hf, hd, hperm, hsub⟩ := h
  refine ⟨?_, ?_, ?_⟩
  · rw [halloc, map_append, hu.ids, hids, length_append, range_eq_range', range_eq_range',
      ← List.range'_append_1, Nat.zero_add]
  · have hmid : (v.freed ++ v.decoded ++ v.mbufArr).Perm (u.freed ++ u.decoded ++ (g ++ d ++ v.mbufArr)) := by
      rw [hf, hd]
      simp only [append_assoc]
      refine List.Perm.append_left u.freed ?_
      rw [← append_assoc, ← append_assoc u.decoded]
      exact perm_append_comm.append_right _
    rw [halloc]
    refine hmid.trans ((hperm.append_left _).trans ?_)
    rw [← append_assoc]
    exact hu.once.append_right x
  · rw [halloc, hd, append_assoc]
    refine (hsub.append_left _).trans ?_
    rw [← append_assoc]
    exact hu.order.append_right x

/-- An interrupt leaves everything in order exactly if it meets the condition. -/
theorem RxInv.done_iff (h : RxInv c s) {op : RxOp} (hrun : op.Ports c s n) :
    (RxDone c s n (s.processIntStatus c op.bitmap op.input) ↔ op.Kept c s) ∧
      (op.Kept c s → RxInv c (s.processIntStatus c op.bitmap op.input).1) := by
  have hlt : n < maxPorts c.newMode + 1 := by
    have := hrun.le
    omega
  obtain ⟨x, hx⟩ := portLoop_spec op.input n _ _ hrun hlt h.disabled
  have hzero : op.bitmap = 0 ↔ n = 0 := by
    rw [← hrun.bit_iff]
    exact ⟨fun h => by simp [h], fun h => BitVec.eq_of_getLsbD_eq fun i _ => by simpa using h i⟩
  have hmoves : ∀ v y, Moves { s with mpRdBitmap := op.bitmap } v y → Moves s v y := fun v y hm => hm
  have hempty : n = 0 → (s.processIntStatus c op.bitmap op.input) = ({ s with mpRdBitmap := op.bitmap }, true) := by
    rintro rfl
    unfold MpaRx.processIntStatus MpaRx.portLoop
    rw [hrun.getRdPort_zero]
  have hcons : op.Kept c s → Conserved (s.processIntStatus c op.bitmap op.input).1 := fun hk =>
    (hmoves _ _ (hx.kept hk.2).1).conserved_next h.conserved hx.allocated hx.ids
  refine ⟨⟨fun hd => ⟨fun h0 => ?_, ?_⟩, fun hk => ⟨hcons hk, ⟨x, hx.allocated, hx.ports⟩, fun hok => ?_⟩⟩,
    fun hk => ⟨hcons hk, hx.disabled⟩⟩
  · have := hd.emptied (by rw [hempty (hzero.mp h0)])
    rwa [hempty (hzero.mp h0)] at this
  · by_contra hkept
    rcases hx.lost (by simpa using hkept) with ⟨y, hy, hlt⟩ | ⟨hok, hleft⟩
    · -- a buffer is missing
      have hlen := (hmoves _ _ hy).length h.conserved.once.length_eq
      have hall : (s.processIntStatus c op.bitmap op.input).1.allocated.length = s.allocated.length + x.length := by
        rw [show (s.processIntStatus c op.bitmap op.input).1.allocated = _ from hx.allocated, length_append]
      have := hd.conserved.once.length_eq
      unfold MpaRx.processIntStatus at this hall
      omega
    · exact hleft (hd.emptied hok)
  · by_cases hn : n = 0
    · rw [hempty hn]
      exact hk.1 (hzero.mpr hn)
    · exact (hx.kept hk.2).2 hn hok

theorem RxInv.of_reachableWhen
    (h : (rxSystem c).ReachableWhen (fun s op => (∃ n, op.Ports c s n) ∧ op.Kept c s) s) : RxInv c s := by
  refine h.invariant (fun s hs => ?_) fun s op s' hi hop hs => ?_
  · obtain ⟨-, hheld, halloc, hfreed, hdec⟩ := hs
    refine ⟨⟨?_, ?_, ?_⟩, fun _ => hheld⟩
    · rw [halloc]
      rfl
    · rw [hfreed, hdec, hheld, halloc]
      exact .refl _
    · rw [hdec, hheld, halloc]
      exact .refl _
  · obtain ⟨⟨n, hrun⟩, hk⟩ := hop
    obtain rfl := Option.some.inj hs
    exact (hi.done_iff hrun).2 hk

/-- **Conservation of the receive buffers.** In a run of interrupts whose ports follow the cyclic order and that meet
the condition, each buffer is accounted for; and the next interrupt leaves everything in order exactly if it meets the
condition. -/
theorem buffers_conserved
    (h : (rxSystem c).ReachableWhen (fun s op => (∃ n, op.Ports c s n) ∧ op.Kept c s) s) :
    Conserved s ∧ ∀ (op : RxOp) n, op.Ports c s n →
      (RxDone c s n (s.processIntStatus c op.bitmap op.input) ↔ op.Kept c s) :=
  have hi := RxInv.of_reachableWhen h
  ⟨hi.conserved, fun _ _ hrun => (hi.done_iff hrun).1⟩

end

/-- A card in the new mode, in copy mode. -/
def rxCard : RxCard :=
  ⟨true, 32, 16, 65280, true, false⟩

/-- The path before the first interrupt. -/
def emptyMpaRx : MpaRx :=
  ⟨0, 0, [], 0, 0, [], [], []⟩

/-- The ports 0 to 2, each with a data packet of 32 KiB, but the second one, which has `len` octets. The read of a
buffer that is alone in `mpa_rx` succeeds if `ok`. -/
def threePorts (len : UInt16) (ok : Bool) : RxOp :=
  ⟨7, fun port => ⟨if port = 1 then len else 0x8000, true, true, fun _ => (.data, 100),
    if ok then some (.data, 100) else none, some (.data, 100)⟩⟩

theorem threePorts_ports (len : UInt16) (ok : Bool) : (threePorts len ok).Ports rxCard emptyMpaRx 3 := by
  refine ⟨by decide, Nat.zero_le _, (by decide : 0 < 32), fun i => ?_⟩
  by_cases hi : i < 32
  · have hall : ∀ i < 32, (7 : BitVec 32).getLsbD i = true ↔ ∃ k < 3, rxCard.rdPortAt 0 k = i := by decide
    exact hall i hi
  · refine iff_of_false ?_ ?_
    · simp [BitVec.getLsbD_of_ge _ _ (Nat.not_lt.mp hi)]
    · rintro ⟨k, hk, rfl⟩
      have hall : ∀ k < 3, rxCard.rdPortAt 0 k < 32 := by decide
      exact hi (hall k hk)

/-- The third packet is read behind the first two. -/
theorem buffers_conserved_three :
    ((emptyMpaRx.processIntStatus rxCard 7 (threePorts 256 true).input).1.decoded.map RxBuf.port = [0, 1, 2]) ∧
      RxDone rxCard emptyMpaRx 3 (emptyMpaRx.processIntStatus rxCard 7 (threePorts 256 true).input) :=
  ⟨by decide +kernel, ((buffers_conserved (c := rxCard) (s := emptyMpaRx) (.init ⟨rfl, rfl, rfl, rfl, rfl⟩)).2
    (threePorts 256 true) 3 (threePorts_ports 256 true)).mpr (by decide +kernel)⟩

/-- The second packet has no room behind the first one, and the read that makes room fails : its buffer is lost. -/
theorem waiting_buffer_lost : ¬∀ c s (op : RxOp) n, (rxSystem c).Reachable s → op.Ports c s n →
    RxDone c s n (s.processIntStatus c op.bitmap op.input) := by
  intro h
  have hdone := h rxCard emptyMpaRx (threePorts 0x8000 false) 3 (.init ⟨rfl, rfl, rfl, rfl, rfl⟩)
    (threePorts_ports 0x8000 false)
  have hlen := hdone.conserved.once.length_eq
  have hrun : (emptyMpaRx.processIntStatus rxCard 7 (threePorts 0x8000 false).input).1.allocated.length = 2 ∧
      ((emptyMpaRx.processIntStatus rxCard 7 (threePorts 0x8000 false).input).1.freed ++
        (emptyMpaRx.processIntStatus rxCard 7 (threePorts 0x8000 false).input).1.decoded ++
          (emptyMpaRx.processIntStatus rxCard 7 (threePorts 0x8000 false).input).1.mbufArr).length = 1 := by
    decide +kernel
  obtain ⟨hall, hleft⟩ := hrun
  exact absurd (hleft.symm.trans (hlen.trans hall)) (by decide)

end WlanDriver.Sdio
