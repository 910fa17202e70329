import Mathlib.Algebra.GroupWithZero.Nat
import WlanDriver.Tcp.AckSafety

/-!
# Runs of the coalescing

The sections of `woal_process_tcp_ack`, of the handler and of a flush are made of the changes that keep the invariant.
`acks_lossless` : no acknowledgement is lost in a run whose steps are in order. Out of order, they are (`acks_lost`).
-/

set_option linter.unusedSectionVars false

namespace WlanDriver.Tcp

open Function List
open Option hiding any_eq_true

variable {ι : Type*} [DecidableEq ι] {s s' : State ι} {i : ℕ} {t : ι} {x : TcpSess} {k : Held} {own : ℕ}

namespace Inv

/-! ## The handler of a timer -/

section

variable (h : Inv s)

include h

/-- Who uses a session finds it. -/
theorem sess_of_handler (hh : (s.obj i).handler ≠ .idle) : ∃ x, (s.obj i).sess = some x :=
  ne_none_iff_exists'.mp fun hn => hh (h.shape.live i hn).2.1

theorem sess_of_inside (hin : (s.pc t).inside = some i) : ∃ x, (s.obj i).sess = some x :=
  ne_none_iff_exists'.mp fun hn => (h.shape.live i hn).2.2 t hin

theorem expire (hstep : s.expire i = some s') : Inv s' := by
  unfold State.expire at hstep
  split_ifs at hstep with hcond
  obtain ⟨harmed, hidle⟩ := hcond
  obtain ⟨x, hx⟩ : ∃ x, (s.obj i).sess = some x :=
    ne_none_iff_exists'.mp fun hn => by simp [(h.shape.live i hn).1] at harmed
  rw [State.withSess, hx] at hstep
  obtain rfl := some.inj hstep
  refine h.setObj (by simp [hx]) (by simp [hx]) rfl (by simp [Obj.handlerSkb, Handler.hand, hidle]) fun y hy hne => ?_
  obtain rfl := some.inj (hx.symm.trans hy)
  rcases h.shape.promised i x hx hne with ⟨-, hcan⟩ | ⟨hf, -⟩ | hf | hin
  · exact .inr (.inl ⟨by simp [State.setObj], hcan⟩)
  · simp [hidle] at hf
  · simp [hidle] at hf
  · exact .inr (.inr (.inr hin))

/-- The handler has looked at `timer_is_canceled`. -/
theorem handlerFired (hx : (s.obj i).sess = some x) (hh : (s.obj i).handler = .fired) :
    Inv (s.setObj i { s.obj i with handler := if x.canceled then .tail else .calling }) := by
  have hhand : (if x.canceled then Handler.tail else .calling).hand = none := by split_ifs <;> rfl
  refine h.setObj (by simp [hx]) (by simp [hx]) rfl (by rw [Obj.handlerSkb, Obj.handlerSkb, hhand, hh]; rfl)
    fun y hy hne => ?_
  obtain rfl := some.inj (hx.symm.trans hy)
  cases hcan : x.canceled with
  | false => exact .inr (.inr (.inl (by simp [State.setObj])))
  | true =>
    rcases h.shape.promised i x hx hne with ⟨-, hc⟩ | ⟨-, hc⟩ | hf | hin
    · simp [hcan] at hc
    · simp [hcan] at hc
    · simp [hh] at hf
    · exact .inr (.inr (.inr hin))

/-- The handler has taken what was held. -/
theorem handlerCalling (hx : (s.obj i).sess = some x) (hh : (s.obj i).handler = .calling) :
    Inv (s.setObj i { s.obj i with
      sess := some { x with isTimerSet := false, held := none }
      handler := match x.held with
        | some h => .sending h
        | none => .tail }) := by
  set o : Obj := { s.obj i with
      sess := some { x with isTimerSet := false, held := none }
      handler := match x.held with
        | some h => .sending h
        | none => .tail } with ho
  have hsome : (s.obj i).sess ≠ none := by simp [hx]
  have hshape : Shape (s.setObj i o) := h.shape.setObj hsome (by simp [ho]) fun y hy hne => by
    obtain rfl := some.inj hy
    exact absurd rfl hne
  refine ⟨hshape, ?_⟩
  have hslot : (s.setObj i o).slot = update (update s.slot (.held i) none) (.handler i)
      (x.held.map fun g => ⟨g.skb, some (i, g)⟩) := by
    rw [slot_setObj]
    cases hheld : x.held <;> simp [ho, hheld, Obj.heldSkb, Obj.handlerSkb, Handler.hand]
  have halive := alive_setObj (s := s) (o := o) hsome (by simp [ho])
  have hfrom : s.slot (.held i) = x.held.map fun g => ⟨g.skb, some (i, g)⟩ := by simp [State.slot, Obj.heldSkb, hx]
  have hto : s.slot (.handler i) = none := by simp [State.slot, Obj.handlerSkb, Handler.hand, hh]
  rw [hslot]
  cases hheld : x.held with
  | none =>
    have hsame : update (update s.slot (.held i) none) (.handler i) none = s.slot := by
      have hempty : update s.slot (.held i) none = s.slot := by
        rw [update_eq_self_iff, hfrom, hheld, map_none]
      rw [hempty, update_eq_self_iff, hto]
    rw [map_none, hsame]
    exact halive ▸ h.accounts
  | some g =>
    have hA := h.accounts.move (a := .held i) (b := .handler i) (k := ⟨g.skb, some (i, g)⟩)
      (by rw [hfrom, hheld, map_some]) hto
    exact halive ▸ hA

/-- A handler that has taken what was held does not promise it : something else does, wherever the handler goes. -/
theorem promised_setHandler (hx : (s.obj i).sess = some x) (hne : x.held ≠ none)
    (hfired : (s.obj i).handler ≠ .fired) (hcalling : (s.obj i).handler ≠ .calling) (b : Handler) :
    (s.setObj i { s.obj i with handler := b }).Promised i x := by
  rcases h.shape.promised i x hx hne with hp | ⟨hf, -⟩ | hf | hin
  · exact .inl (by simpa [State.setObj] using hp)
  · exact absurd hf hfired
  · exact absurd hf hcalling
  · exact .inr (.inr (.inr hin))

/-- The handler has sent what it took. -/
theorem handlerSending (hh : (s.obj i).handler = .sending k) :
    Inv ((s.setObj i { s.obj i with handler := .tail }).send ⟨k.skb, some (i, k)⟩ true) := by
  obtain ⟨x, hx⟩ := h.sess_of_handler (i := i) (by simp [hh])
  have hsome : (s.obj i).sess ≠ none := by simp [hx]
  have hshape : Shape (s.setObj i { s.obj i with handler := .tail }) :=
    h.shape.setObj hsome (by simp [hx]) fun y hy hne => by
      exact h.promised_setHandler hy hne (by simp [hh]) (by simp [hh]) _
  refine ⟨hshape.congr rfl rfl rfl rfl rfl hshape.droppedBelow, ?_⟩
  have hslot : (s.setObj i { s.obj i with handler := .tail }).slot = update s.slot (.handler i) none :=
    slot_setObj_handler rfl
  have hA := h.accounts.sendFrom (a := .handler i) (k := ⟨k.skb, some (i, k)⟩)
    (by simp [State.slot, Obj.handlerSkb, Handler.hand, hh])
  have halive := alive_setObj (s := s) (o := { s.obj i with handler := .tail }) hsome (by simp [hx])
  rw [← hslot] at hA
  exact halive ▸ hA

theorem handlerTail (hx : (s.obj i).sess = some x) (hh : (s.obj i).handler = .tail) :
    Inv (s.setObj i { s.obj i with handler := .idle }) := by
  refine h.setObj (by simp [hx]) (by simp [hx]) rfl (by simp [Obj.handlerSkb, Handler.hand, hh]) fun y hy hne => ?_
  exact h.promised_setHandler hy hne (by simp [hh]) (by simp [hh]) _

theorem handlerStep {pending : Bool} (hc : Orderly s (.handler i pending))
    (hstep : s.handlerStep i pending = some s') : Inv s' := by
  unfold State.handlerStep at hstep
  cases hh : (s.obj i).handler with
  | idle => simp [hh] at hstep
  | sending g =>
    rw [hh] at hstep
    obtain rfl := some.inj hstep
    have htaken : pending = true := hc (by simp [hh, Handler.hand])
    subst htaken
    exact h.handlerSending hh
  | fired =>
    obtain ⟨x, hx⟩ := h.sess_of_handler (i := i) (by simp [hh])
    rw [hh] at hstep
    obtain rfl := some.inj hstep
    rw [State.withSess, hx]
    exact h.handlerFired hx hh
  | calling =>
    obtain ⟨x, hx⟩ := h.sess_of_handler (i := i) (by simp [hh])
    rw [hh] at hstep
    obtain rfl := some.inj hstep
    rw [State.withSess, hx]
    exact h.handlerCalling hx hh
  | tail =>
    obtain ⟨x, hx⟩ := h.sess_of_handler (i := i) (by simp [hh])
    rw [hh] at hstep
    obtain rfl := some.inj hstep
    rw [State.withSess, hx]
    exact h.handlerTail hx hh

end

/-! ## Threads without the lock -/

theorem promised_inside (h : Inv s) {o : Obj} (hin : (s.pc t).inside = some i) (x : TcpSess) :
    (s.setObj i o).Promised i x :=
  .inr (.inr (.inr ⟨t, hin, h.shape.noFlush t⟩))

theorem delTimer {sync : Bool} (h : Inv s) (hpc : s.pc t = .window i own)
    (hstep : s.delTimer t i sync (.deleted i own) = some s') : Inv s' := by
  unfold State.delTimer at hstep
  split_ifs at hstep with hwait
  obtain ⟨x, hx⟩ := h.sess_of_inside (t := t) (i := i) (by rw [hpc]; rfl)
  rw [State.withSess, hx] at hstep
  obtain rfl := some.inj hstep
  have hpc' : Inv (s.setPc t (.deleted i own)) := by
    refine h.setPc rfl (by simp [hpc, Pc.inside]) (fun j hj => ?_) (by rw [hpc]; rfl) (by rw [hpc]; rfl)
    obtain rfl := some.inj hj
    simp [hx]
  exact hpc'.setObj (s := s.setPc t (.deleted i own)) (by simp [State.setPc, hx]) (by simp [hx]) rfl rfl fun y _ _ =>
    hpc'.promised_inside (t := t) (by simp [State.setPc, Pc.inside]) y

theorem markCanceled (h : Inv s) (hpc : s.pc t = .deleted i own) : Inv (s.markCanceled t i (.canceled i own)) := by
  obtain ⟨x, hx⟩ := h.sess_of_inside (t := t) (i := i) (by rw [hpc]; rfl)
  rw [State.markCanceled, State.withSess, hx]
  have hpc' : Inv (s.setPc t (.canceled i own)) := by
    refine h.setPc rfl (by simp [hpc, Pc.inside]) (fun j hj => ?_) (by rw [hpc]; rfl) (by rw [hpc]; rfl)
    obtain rfl := some.inj hj
    simp [hx]
  exact hpc'.setObj (s := s.setPc t (.canceled i own)) (o := { s.obj i with sess := some { x with canceled := true } })
    (by simp [State.setPc, hx]) (by simp) (by simp [State.setPc, Obj.heldSkb, hx]) rfl fun y _ _ =>
      hpc'.promised_inside (t := t) (by simp [State.setPc, Pc.inside]) y

theorem takeHeld (h : Inv s) (hpc : s.pc t = .canceled i own) : Inv (s.takeHeld t i own) := by
  obtain ⟨x, hx⟩ := h.sess_of_inside (t := t) (i := i) (by rw [hpc]; rfl)
  have hins : ∀ j, (s.pc t).inside = some j → j = i := fun j hj => by
    rw [hpc] at hj
    exact (some.inj hj).symm
  rw [State.takeHeld, State.withSess, hx]
  dsimp only
  cases hheld : x.held with
  | some g => exact h.take hx hheld rfl hins (by rw [hpc]; rfl) (by rw [hpc]; rfl)
  | none =>
    have hput : Inv (s.putSess i { x with held := none }) := h.putSess hx hheld.symm rfl
    exact hput.leave (x := { x with held := none }) (by simp [State.putSess, State.setObj]) rfl hins
      (by simp [State.putSess, State.setObj, hpc, Pc.own]) (by simp [State.putSess, State.setObj, hpc, Pc.hand])

theorem threadStep {sync pending : Bool} (h : Inv s) (hc : Orderly s (.thread t sync pending))
    (hstep : s.threadStep t sync pending = some s') : Inv s' := by
  have hflush := h.shape.noFlush t
  unfold State.threadStep at hstep
  cases hpc : s.pc t with
  | idle => simp [hpc] at hstep
  | window i own =>
    rw [hpc] at hstep
    exact h.delTimer hpc hstep
  | deleted i own =>
    rw [hpc] at hstep
    obtain rfl := some.inj hstep
    exact h.markCanceled hpc
  | canceled i own =>
    rw [hpc] at hstep
    obtain rfl := some.inj hstep
    exact h.takeHeld hpc
  | sending i k own =>
    rw [hpc] at hstep
    obtain rfl := some.inj hstep
    have htaken : pending = true := hc (by simp [hpc, Pc.hand])
    subst htaken
    exact h.sendHand hpc
  | freeing own =>
    rw [hpc] at hstep
    obtain rfl := some.inj hstep
    exact h.freeOwn (by rw [hpc]; rfl) (by rw [hpc]; rfl) (by rw [hpc]; rfl)
  | passing own =>
    rw [hpc] at hstep
    obtain rfl := some.inj hstep
    exact h.pass hpc pending
  | flushWindow i tmp | flushDeleted i tmp | flushCanceled i tmp => simp [hpc, Pc.inFlush] at hflush

/-! ## Sections under the lock -/

/-- An old session that nothing is inside of is unlinked and freed. -/
theorem ageoutOne_eq (hx : (s.obj i).sess = some x) (hold : x.updateTime + tcpSessAgeout < s.now) (hquiet : s.Quiet i)
    (harmed : (s.obj i).armed = true → x.isTimerSet = true) :
    s.ageoutOne i = { s.setObj i {} with
      queue := s.queue.erase i
      cnt := (s.cnt + 255) % 256
      freed := (x.held.map Held.skb).toList ++ s.freed } := by
  have hidle := hquiet.1
  rw [State.ageoutOne, State.withSess, hx]
  dsimp only
  rw [if_pos hold]
  cases hset : x.isTimerSet with
  | true => simp [State.kfreeSess, State.setObj, hidle]
  | false =>
    have hoff : (s.obj i).armed = false := by
      by_contra ha
      simp [harmed (by simpa using ha)] at hset
    simp [State.kfreeSess, State.setObj, hidle, hoff]

/-- What the ageing of sessions relies on. -/
def AgeQuiet (s : State ι) (l : List ℕ) : Prop :=
  ∀ i ∈ l, ∀ x ∈ (s.obj i).sess, x.updateTime + tcpSessAgeout < s.now →
    s.Quiet i ∧ ((s.obj i).armed = true → x.isTimerSet = true)

/-- One round of ageing. -/
theorem ageoutOne (h : Inv s) (hmem : i ∈ s.queue) (hq : AgeQuiet s [i]) :
    Inv (s.ageoutOne i) ∧ (s.ageoutOne i).pc = s.pc ∧ (s.ageoutOne i).issued = s.issued ∧
      (s.ageoutOne i).now = s.now ∧ (∀ j, j ≠ i → (s.ageoutOne i).obj j = s.obj j ∧
        (j ∈ (s.ageoutOne i).queue ↔ j ∈ s.queue)) ∧
      ((s.ageoutOne i).queue = s.queue ∧ (s.ageoutOne i).cnt = s.cnt ∨
        (s.ageoutOne i).queue = s.queue.erase i ∧ (s.ageoutOne i).cnt = (s.cnt + 255) % 256) := by
  obtain ⟨x, hx⟩ := ne_none_iff_exists'.mp ((h.shape.queued i).mp hmem)
  by_cases hold : x.updateTime + tcpSessAgeout < s.now
  · obtain ⟨hquiet, harmed⟩ := hq i mem_cons_self x hx hold
    rw [ageoutOne_eq hx hold hquiet harmed]
    refine ⟨h.free hx hquiet, rfl, rfl, rfl, fun j hj => ⟨?_, ?_⟩, .inr ⟨rfl, rfl⟩⟩
    · simp [State.setObj, hj]
    · simp [h.shape.nodup.mem_erase_iff, hj]
  · have hsame : s.ageoutOne i = s := by
      rw [State.ageoutOne, State.withSess, hx]
      exact if_neg hold
    rw [hsame]
    exact ⟨h, rfl, rfl, rfl, fun j _ => ⟨rfl, Iff.rfl⟩, .inl ⟨rfl, rfl⟩⟩

/-- Sessions that are in order when they age keep the invariant, and the count of sessions. -/
theorem ageout {l : List ℕ} (h : Inv s) (hl : l.Nodup) (hmem : ∀ i ∈ l, i ∈ s.queue) (hq : AgeQuiet s l)
    (hcnt : s.cnt = s.queue.length) (hle : s.cnt ≤ tcpAckMaxSess) :
    Inv (l.foldl State.ageoutOne s) ∧ (l.foldl State.ageoutOne s).pc = s.pc ∧
      (l.foldl State.ageoutOne s).issued = s.issued ∧
      (l.foldl State.ageoutOne s).cnt = (l.foldl State.ageoutOne s).queue.length ∧
      (l.foldl State.ageoutOne s).cnt ≤ tcpAckMaxSess := by
  induction l generalizing s with
  | nil => exact ⟨h, rfl, rfl, hcnt, hle⟩
  | cons i l ih =>
    obtain ⟨hi, hl⟩ := nodup_cons.mp hl
    have hin := hmem i mem_cons_self
    obtain ⟨hinv, hpc, hissued, hnow, hother, hcount⟩ :=
      h.ageoutOne hin fun j hj => hq j (mem_singleton.mp hj ▸ mem_cons_self)
    have hne : ∀ j ∈ l, j ≠ i := fun j hj hji => hi (hji ▸ hj)
    have hcnt' : (s.ageoutOne i).cnt = (s.ageoutOne i).queue.length ∧ (s.ageoutOne i).cnt ≤ tcpAckMaxSess := by
      rcases hcount with ⟨hqueue, hn⟩ | ⟨hqueue, hn⟩
      · rw [hqueue, hn]
        exact ⟨hcnt, hle⟩
      · have hpos := length_pos_of_mem hin
        rw [hqueue, hn, length_erase_of_mem hin]
        unfold tcpAckMaxSess at hle ⊢
        omega
    obtain ⟨hend, hpc', hissued', hrest⟩ := ih hinv hl
      (fun j hj => (hother j (hne j hj)).2.mpr (hmem j (mem_cons_of_mem _ hj)))
      (fun j hj y hy hold => by
        unfold State.Quiet
        rw [(hother j (hne j hj)).1, hnow] at *
        rw [hpc]
        exact hq j (mem_cons_of_mem _ hj) y hy hold) hcnt'.1 hcnt'.2
    exact ⟨hend, hpc'.trans hpc, hissued'.trans hissued, hrest⟩

/-- A session that holds nothing gets a packet. -/
theorem holdAck (h : Inv s) (hx : (s.obj i).sess = some x) (hheld : x.held = none) (p : Packet) :
    Inv { s.holdAck i x p s.issued with issued := s.issued + 1 } :=
  h.hold hx hheld rfl rfl rfl rfl

/-- A session that holds a packet gets another one. -/
theorem replaceAck (h : Inv s) (hpc : s.pc t = .idle) (hx : (s.obj i).sess = some x) (hheld : x.held = some k)
    {p : Packet} (hseq : State.Replaces x k p → ∀ n ∈ k.seq :: k.covers, NotBehind p.ackSeq n) (maxHold : UInt8) :
    Inv { s.replaceAck t i x k p maxHold s.issued with issued := s.issued + 1 } := by
  unfold State.replaceAck
  dsimp only
  by_cases hrep : State.Replaces x k p
  swap
  · rw [if_neg hrep]
    have hput : Inv (s.putSess i { x with updateTime := s.now }) := h.putSess hx rfl rfl
    exact hput.enterOwn hpc rfl nofun rfl rfl
  rw [if_pos hrep]
  have hput : Inv ({ s with dropped := (i, k.seq) :: s.dropped }.putSess i { x with
      updateTime := s.now, ackSeq := p.ackSeq, held := some (State.replaced k p) }) :=
    h.replace hx hheld (hseq hrep) rfl rfl
  by_cases hmax : maxHold ≤ (State.replaced k p).count
  swap
  · rw [if_neg hmax]
    exact hput.enterOwn hpc rfl nofun rfl rfl
  rw [if_pos hmax]
  by_cases hset : x.isTimerSet = true
  · rw [if_pos hset]
    have hput' : Inv ({ s with dropped := (i, k.seq) :: s.dropped }.putSess i { x with
        updateTime := s.now, ackSeq := p.ackSeq, held := some (State.replaced k p), isTimerSet := false }) :=
      h.replace hx hheld (hseq hrep) rfl rfl
    refine hput'.enterOwn hpc rfl (fun j hj => ?_) rfl rfl
    obtain rfl := some.inj hj
    simp [State.putSess, State.setObj]
  · rw [if_neg hset]
    -- the thread has its own skb, and then takes what is held
    have hown := hput.enterOwn (t := t) (p := .freeing s.issued) hpc rfl nofun rfl rfl
    have htake := @take _ _ _ i t _ { x with updateTime := s.now, ackSeq := p.ackSeq, held := none }
      (State.replaced k p) s.issued hown (by simp [State.putSess, State.setObj, State.setPc]; rfl) rfl rfl
      (by simp [State.setPc, Pc.inside]) (by simp [State.setPc, Pc.own]) (by simp [State.setPc, Pc.hand])
    simpa [State.putSess, State.setObj, State.setPc] using htake

theorem getTcpSess_some (h : Inv s) {f : Flow} (hget : s.getTcpSess f = some i) : ∃ x, (s.obj i).sess = some x :=
  ne_none_iff_exists'.mp ((h.shape.queued i).mp (mem_of_find?_eq_some hget))

theorem processTcpAck (h : Inv s) (hcnt : s.cnt = s.queue.length) (hle : s.cnt ≤ tcpAckMaxSess) (hpc : s.pc t = .idle)
    {p : Packet} {maxHold : UInt8} {alloc : Bool} (hc : Orderly s (.process t p maxHold alloc)) :
    Inv { s.processTcpAck t p maxHold alloc with issued := s.issued + 1 } := by
  unfold State.processTcpAck
  dsimp only
  by_cases hpure : p.isPureAck = true
  swap
  · rw [if_pos (by simpa using hpure)]
    exact h.enterOwn hpc rfl nofun rfl rfl
  rw [if_neg (by simpa using hpure)]
  have hthere : ¬(s.queue.any fun i => (s.obj i).sess.isNone) = true := by
    simp only [any_eq_true, isNone_iff_eq_none, not_exists, not_and]
    exact fun j hj => (h.shape.queued j).mp hj
  rw [if_neg hthere]
  have hc := hc hpure
  cases hget : s.getTcpSess p.flow with
  | some i =>
    rw [hget] at hc
    obtain ⟨x, hx⟩ := h.getTcpSess_some hget
    dsimp only
    rw [State.withSess, hx]
    dsimp only
    cases hheld : x.held with
    | none => exact h.holdAck hx hheld p
    | some k => exact h.replaceAck hpc hx hheld (hc x hx k hheld) maxHold
  | none =>
    rw [hget] at hc
    obtain ⟨hage, hpc', hissued, -, -⟩ := h.ageout h.shape.nodup (fun _ hi => hi) hc hcnt hle
    dsimp only
    rw [State.ageoutTcpSessQueue]
    rw [← hissued]
    split_ifs with hfull halloc
    · exact hage.enterOwn (by rw [hpc', hpc]) rfl nofun rfl rfl
    · exact hage.enterOwn (by rw [hpc', hpc]) rfl nofun rfl rfl
    · exact hage.create rfl rfl rfl rfl

/-- What a flush in order relies on. -/
def FlushQuiet (s : State ι) (l : List ℕ) : Prop :=
  ∀ i ∈ l, s.Quiet i ∧ (s.obj i).armed = false ∧ ∀ x ∈ (s.obj i).sess, x.isTimerSet = false

/-- A flush in order does not drop the lock. -/
theorem flushFrom {l : List ℕ} (h : Inv s) (hpc : s.pc t = .idle) (hl : s.queue = l) (hq : FlushQuiet s l) :
    Inv (State.flushFrom t l s) ∧ (State.flushFrom t l s).queue = [] ∧ (State.flushFrom t l s).cnt = 0 := by
  induction l generalizing s with
  | nil =>
    rw [State.flushFrom]
    have hset : Inv (s.setPc t .idle) :=
      h.setPc rfl (by simp [hpc, Pc.inside]) nofun (by rw [hpc]) (by rw [hpc])
    exact ⟨⟨hset.shape.congr rfl rfl hl.symm rfl rfl hset.shape.droppedBelow, hset.accounts⟩, rfl, rfl⟩
  | cons i l ih =>
    obtain ⟨hquiet, harmed, hset⟩ := hq i mem_cons_self
    have hmem : i ∈ s.queue := hl ▸ mem_cons_self
    have hnodup := h.shape.nodup
    rw [hl] at hnodup
    obtain ⟨x, hx⟩ := ne_none_iff_exists'.mp ((h.shape.queued i).mp hmem)
    rw [State.flushFrom, State.withSess, hx]
    dsimp only
    rw [if_neg (by simp [hset x hx])]
    have hfree := h.free (n := s.cnt) hx hquiet
    have hobj : ({ s.obj i with sess := none } : Obj) = {} := by
      have hidle := hquiet.1
      cases hobj : s.obj i with
      | mk sess armed handler => simp_all
    have heq : ({ s with queue := s.queue.erase i } : State ι).kfreeSess i x =
        { s.setObj i {} with
          queue := s.queue.erase i, cnt := s.cnt, freed := (x.held.map Held.skb).toList ++ s.freed } := by
      simp [State.kfreeSess, State.setObj, hobj]
    rw [heq]
    refine ih hfree hpc (by simp [hl]) fun j hj => ?_
    have hji : j ≠ i := fun hji => (nodup_cons.mp hnodup).1 (hji ▸ hj)
    simpa [State.Quiet, State.setObj, hji] using hq j (mem_cons_of_mem _ hj)

end Inv

/-! ## The count of sessions -/

/-- The count is the length of the queue, and bounded. -/
def Counted (s : State ι) : Prop :=
  s.cnt = s.queue.length ∧ s.cnt ≤ tcpAckMaxSess

namespace Counted

/-- Queue and count are as they were. -/
theorem withSess (h : Counted s) {f : TcpSess → State ι} (hf : ∀ x, (f x).queue = s.queue ∧ (f x).cnt = s.cnt) :
    Counted (s.withSess i f) := by
  unfold State.withSess
  split
  · rename_i x _
    rw [Counted, (hf x).1, (hf x).2]
    exact h
  · exact h

theorem send {k : Skb} {pending : Bool} (h : Counted s) : Counted (s.send k pending) := by
  unfold State.send
  split_ifs <;> exact h

theorem handlerStep {pending : Bool} (h : Counted s) (hstep : s.handlerStep i pending = some s') : Counted s' := by
  unfold State.handlerStep at hstep
  cases hh : (s.obj i).handler with
  | idle => simp [hh] at hstep
  | fired | calling | tail =>
    rw [hh] at hstep
    obtain rfl := some.inj hstep
    exact h.withSess fun _ => ⟨rfl, rfl⟩
  | sending g =>
    rw [hh] at hstep
    obtain rfl := some.inj hstep
    exact send (s := s.setObj i { s.obj i with handler := .tail }) h

theorem threadStep {sync pending : Bool} (h : Counted s) (hflush : (s.pc t).inFlush = false)
    (hstep : s.threadStep t sync pending = some s') : Counted s' := by
  unfold State.threadStep at hstep
  cases hpc : s.pc t with
  | idle => simp [hpc] at hstep
  | window i own =>
    rw [hpc] at hstep
    dsimp only [State.delTimer] at hstep
    split_ifs at hstep
    obtain rfl := some.inj hstep
    exact h.withSess fun _ => ⟨rfl, rfl⟩
  | deleted i own | canceled i own =>
    rw [hpc] at hstep
    obtain rfl := some.inj hstep
    exact h.withSess fun _ => ⟨rfl, rfl⟩
  | sending i k own | passing own =>
    rw [hpc] at hstep
    obtain rfl := some.inj hstep
    exact h.send
  | freeing own =>
    rw [hpc] at hstep
    obtain rfl := some.inj hstep
    exact h
  | flushWindow i tmp | flushDeleted i tmp | flushCanceled i tmp => simp [hpc, Pc.inFlush] at hflush

theorem processTcpAck {p : Packet} {maxHold : UInt8} {alloc : Bool} (h : Counted s) (hinv : Inv s)
    (hc : Orderly s (.process t p maxHold alloc)) : Counted (s.processTcpAck t p maxHold alloc) := by
  unfold State.processTcpAck
  dsimp only
  by_cases hpure : p.isPureAck = true
  swap
  · rw [if_pos (by simpa using hpure)]
    exact h
  rw [if_neg (by simpa using hpure)]
  have hc := hc hpure
  by_cases hgone : (s.queue.any fun i => (s.obj i).sess.isNone) = true
  · rw [if_pos hgone]
    exact h
  rw [if_neg hgone]
  cases hget : s.getTcpSess p.flow with
  | some i =>
    refine h.withSess fun x => ?_
    split
    · exact ⟨rfl, rfl⟩
    · dsimp only [State.replaceAck]
      split_ifs <;> exact ⟨rfl, rfl⟩
  | none =>
    rw [hget] at hc
    obtain ⟨-, -, -, hcnt, hle⟩ := hinv.ageout hinv.shape.nodup (fun _ hi => hi) hc h.1 h.2
    dsimp only
    rw [State.ageoutTcpSessQueue]
    split_ifs with hfull halloc
    · exact ⟨hcnt, hle⟩
    · exact ⟨hcnt, hle⟩
    · refine ⟨?_, ?_⟩
      · simp only [State.createSess, length_append, length_singleton]
        unfold tcpAckMaxSess at hfull
        omega
      · simp only [State.createSess]
        unfold tcpAckMaxSess at hfull ⊢
        omega

end Counted

/-! ## Runs in order -/

theorem Inv.step {a : Act ι} (h : Inv s) (hcnt : Counted s) (hc : Orderly s a) (hstep : State.step s a = some s') :
    Inv s' ∧ Counted s' := by
  cases a with
  | process t p maxHold alloc =>
    dsimp only [State.step] at hstep
    split_ifs at hstep with hpc
    obtain rfl := some.inj hstep
    exact ⟨h.processTcpAck hcnt.1 hcnt.2 hpc hc, hcnt.processTcpAck h hc⟩
  | flush t =>
    dsimp only [State.step] at hstep
    split_ifs at hstep with hpc
    obtain rfl := some.inj hstep
    obtain ⟨hinv, hqueue, hzero⟩ := h.flushFrom hpc rfl hc
    exact ⟨hinv, by rw [hqueue, hzero]; rfl, by rw [hzero]; exact Nat.zero_le _⟩
  | thread t sync pending => exact ⟨h.threadStep hc hstep, hcnt.threadStep (h.shape.noFlush t) hstep⟩
  | expire i =>
    refine ⟨h.expire hstep, ?_⟩
    dsimp only [State.step, State.expire] at hstep
    split_ifs at hstep
    obtain rfl := some.inj hstep
    exact hcnt.withSess fun _ => ⟨rfl, rfl⟩
  | handler i pending => exact ⟨h.handlerStep hc hstep, hcnt.handlerStep hstep⟩
  | tick =>
    obtain rfl := some.inj hstep
    exact ⟨⟨h.shape.congr rfl rfl rfl rfl rfl h.shape.droppedBelow, h.accounts⟩, hcnt⟩

theorem Inv.init : Inv (State.init : State ι) where
  shape :=
    { safe := rfl
      queued := fun i => iff_of_false not_mem_nil fun h => h rfl
      nodup := nodup_nil
      below := fun i h => absurd rfl h
      droppedBelow := fun i n h => absurd h not_mem_nil
      live := fun i _ => ⟨rfl, rfl, fun t => nofun⟩
      noFlush := fun t => rfl
      promised := fun i x => nofun }
  accounts :=
    { once :=
        { nodup := nodup_nil
          unique := fun {a b k} ha => by cases a <;> cases ha
          apart := fun {a k} ha => not_mem_nil
          mem := fun {k} => iff_of_false (Nat.not_lt_zero k) (by
            rintro (h | ⟨a, ha⟩)
            · exact not_mem_nil h
            · cases a <;> cases ha) }
      good := fun k i h hk => by
        rcases hk with ⟨a, ha⟩ | hk
        · cases a <;> cases ha
        · exact absurd hk not_mem_nil
      covered := fun i n h => absurd h not_mem_nil }

theorem Inv.lossless (h : Inv s) (hcnt : Counted s) : Lossless s where
  once := h.accounts.once
  covered i n hn halive := by
    obtain ⟨k, g, hk, hack, hg⟩ := h.accounts.covered i n hn halive
    refine ⟨g, ?_, hg, h.accounts.good k i g hk hack n hg⟩
    rcases hk with ⟨a, ha⟩ | hk
    · exact .inl ⟨a, k, ha, hack⟩
    · exact .inr ⟨k, hk, hack⟩
  promised := h.shape.promised
  safe := h.shape.safe
  counted := hcnt

/-- **No acknowledgement is lost** in a run whose steps are in order. -/
theorem acks_lossless (hs : (tcpAcks ι).ReachableWhen Orderly s) : Lossless s := by
  have hinv : Inv s ∧ Counted s := by
    refine hs.invariant (I := fun s => Inv s ∧ Counted s) (fun s hinit => ?_) fun _ _ _ hi hc hstep =>
      hi.1.step hi.2 hc hstep
    obtain rfl : s = State.init := hinit
    exact ⟨Inv.init, rfl, Nat.zero_le _⟩
  exact hinv.1.lossless hinv.2

/-- An acknowledgement without payload. -/
def ackPacket (seq : UInt32) : Packet where
  hProto := Ethernet.ethPIp
  protocol := ipprotoTcp
  ihl := 5
  totLen := 40
  doff := 5
  tcpFlags := 0x10
  flow := ⟨1, 2, 3, 4⟩
  ackSeq := seq
  len := 54

local instance neZeroOne : NeZero 1 := ⟨by decide⟩

/-- One acknowledgement is copied over another one and sent by a thread, and a third one is sent by the timer. -/
def coalesce : List (Act (Fin 1)) :=
  [.process 0 (ackPacket 1) 9 true, .process 0 (ackPacket 2) 1 true, .thread 0 false true, .thread 0 false true,
    .thread 0 false true, .thread 0 false true, .thread 0 false true, .process 0 (ackPacket 3) 9 true, .expire 0,
    .handler 0 true, .handler 0 true, .handler 0 true, .handler 0 true]

/-- The second acknowledgement is copied over the first, which it is not behind. -/
theorem orderly_copy : Orderly (ι := Fin 1) { State.init.processTcpAck 0 (ackPacket 1) 9 true with issued := 1 }
    (.process 0 (ackPacket 2) 1 true) := by
  rintro - x hx h hh - n hn
  obtain rfl := some.inj hx
  obtain rfl := some.inj hh
  obtain rfl : n = 1 := by simpa [ackPacket] using hn
  decide

theorem acks_lossless_coalesce : ∃ s : State (Fin 1), Lossless s ∧ s.sent.map Skb.id = [2, 0] ∧ s.dropped = [(0, 1)] := by
  have hheld : (tcpAcks (Fin 1)).ReachableWhen Orderly
      { State.init.processTcpAck 0 (ackPacket 1) 9 true with issued := 1 } :=
    .step (.init rfl) (a := .process 0 (ackPacket 1) 9 true) (by decide +kernel) rfl
  have hcopied : (tcpAcks (Fin 1)).ReachableWhen Orderly
      { ({ State.init.processTcpAck 0 (ackPacket 1) 9 true with issued := 1 } : State (Fin 1)).processTcpAck 0
          (ackPacket 2) 1 true with issued := 2 } :=
    .step hheld orderly_copy rfl
  obtain ⟨s, hs, hend⟩ := System.exists_reachableWhen_of_runWhen
    (P := fun s : State (Fin 1) => decide (s.sent.map Skb.id = [2, 0] ∧ s.dropped = [(0, 1)])) (l := coalesce.drop 2)
    hcopied
    (by decide +kernel)
  obtain ⟨hsent, hdropped⟩ := of_decide_eq_true hend
  exact ⟨s, acks_lossless hs, hsent, hdropped⟩

/-- Only what a session holds can cover a number that was dropped in it, and it is behind the number. -/
theorem not_lossless_of_behind {n : UInt32} (hn : (i, n) ∈ s.dropped) (hx : (s.obj i).sess = some x)
    (hheld : x.held = some k) (hbehind : ¬NotBehind k.seq n) (hhandler : (s.obj i).handler.hand = none)
    (hpc : ∀ t, (s.pc t).hand = none) (hsent : s.sent = []) : ¬Lossless s := by
  intro h
  obtain ⟨g, hcarrier, -, hseq⟩ := h.covered i n hn (by simp [hx])
  rcases hcarrier with ⟨a, c, ha, hack⟩ | ⟨c, hc, -⟩
  · cases a with
    | held j =>
      obtain ⟨g', hg', rfl⟩ := map_eq_some_iff.mp ha
      obtain ⟨rfl, rfl⟩ := Prod.mk.inj (some.inj hack)
      rw [hx, bind_some, hheld] at hg'
      exact hbehind (some.inj hg' ▸ hseq)
    | handler j =>
      obtain ⟨g', hg', rfl⟩ := map_eq_some_iff.mp ha
      obtain ⟨rfl, rfl⟩ := Prod.mk.inj (some.inj hack)
      rw [hhandler] at hg'
      cases hg'
    | own t =>
      obtain ⟨o, -, rfl⟩ := map_eq_some_iff.mp ha
      cases hack
    | hand t =>
      obtain ⟨q, hq, -⟩ := map_eq_some_iff.mp ha
      rw [hpc] at hq
      cases hq
  · rw [hsent] at hc
    exact absurd hc not_mem_nil

/-- Acknowledgements are lost : a number that has wrapped is copied over a newer one; a flush frees a session that a
thread is inside of; and while it has dropped the lock the count is not that of the queue. -/
theorem acks_lost :
    (∃ s : State (Fin 2), (tcpAcks (Fin 2)).Reachable s ∧ ¬Lossless s ∧ s.fault = false ∧ s.cnt = s.queue.length) ∧
      (∃ s : State (Fin 2), (tcpAcks (Fin 2)).Reachable s ∧ s.fault = true) ∧
      ∃ s : State (Fin 2), (tcpAcks (Fin 2)).Reachable s ∧ s.cnt ≠ s.queue.length := by
  refine ⟨?_, ?_, ?_⟩
  · obtain ⟨s, hs, hend⟩ := System.exists_reachable_of_run (M := tcpAcks (Fin 2)) (s := State.init)
      (P := fun s => decide ((0, 2) ∈ s.dropped ∧ (∃ x ∈ (s.obj 0).sess, ∃ k ∈ x.held, ¬NotBehind k.seq 2) ∧
        (s.obj 0).handler.hand = none ∧ (∀ t, (s.pc t).hand = none) ∧ s.sent = [] ∧ s.fault = false ∧
        s.cnt = s.queue.length))
      (l := [.process 0 (ackPacket 2) 9 true, .process 0 (ackPacket 0xffffffff) 9 true]) rfl (by decide +kernel)
    obtain ⟨hn, ⟨x, hx, k, hheld, hbehind⟩, hhandler, hpc, hsent, hfault, hcnt⟩ := of_decide_eq_true hend
    exact ⟨s, hs, not_lossless_of_behind hn hx hheld hbehind hhandler hpc hsent, hfault, hcnt⟩
  · obtain ⟨s, hs, hend⟩ := System.exists_reachable_of_run (M := tcpAcks (Fin 2)) (s := State.init)
      (P := fun s => s.fault)
      (l := [.process 0 (ackPacket 1) 9 true, .process 0 (ackPacket 2) 1 true, .flush 1, .thread 0 false true])
      rfl (by decide +kernel)
    exact ⟨s, hs, hend⟩
  · obtain ⟨s, hs, hend⟩ := System.exists_reachable_of_run (M := tcpAcks (Fin 2)) (s := State.init)
      (P := fun s => decide (s.cnt ≠ s.queue.length)) (l := [.process 0 (ackPacket 1) 9 true, .flush 1])
      rfl (by decide +kernel)
    exact ⟨s, hs, of_decide_eq_true hend⟩

end WlanDriver.Tcp
