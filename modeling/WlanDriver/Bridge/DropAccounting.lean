import WlanDriver.Bridge.Disposition
import WlanDriver.Bridge.ForwardPolicy

/-!
# What becomes of the frames

Calls of the ingress functions in any order, the two threads that empty the queues, and the purges of `NETDEV_DOWN` and
of `moal_bridge_peer_release_work`. Each call has a number; a queue, a thread and a counter remember for which calls
they hold a frame or were moved.

The threads count what they take off, also what they drop because the bridge is not active any more. The purges free the
frames and count nothing. `frame_accounting` : as long as the purges find the queues empty, each accepted frame is at
exactly one place (`FrameFlow.places`).
-/

namespace WlanDriver.Bridge

open Function List

/-! ## The run of a bridge -/

/-- The queues, what each thread has taken off, for which calls each counter was moved, and which calls were accepted
for forwarding. -/
structure FrameFlow where
  queue : Dir → List ℕ
  hand : Dir → Option ℕ
  moved : Stat → List ℕ
  accepted : Dir → List ℕ
  next : ℕ

/-- A call of an ingress function; a step of a thread, `skb_dequeue` or what follows it; or `skb_dequeue` and
`dev_kfree_skb_any` of a purge. -/
inductive FlowAct
  | call (c : Call)
  | take (d : Dir)
  | finish (d : Dir) (peerReleased active devReady xmitFails : Bool)
  | purge (d : Dir)

/-- The counter `moal_bridge_w2p_thread_fn` and `moal_bridge_p2w_thread_fn` move for a frame. -/
def threadCounter (peerReleased active devReady xmitFails : Bool) : Counter :=
  if peerReleased || !active || !devReady then .dropped
  else if xmitFails then .errors
  else .fwdPackets

section

variable (vlanGetProtocol : Skb → UInt16)

def flowStep (s : FrameFlow) : FlowAct → Option FrameFlow
  | .call c =>
    let x := c.disposition vlanGetProtocol
    some {
      queue := fun d => s.queue d ++ List.replicate (queuedOn d x.ops) s.next
      hand := s.hand
      moved := fun st => s.moved st ++ List.replicate (x.stats.count st) s.next
      accepted :=
        if x.accepted then update s.accepted c.producer.dir (s.accepted c.producer.dir ++ [s.next])
        else s.accepted
      next := s.next + 1 }
  | .take d =>
    match s.hand d, s.queue d with
    | none, n :: ns =>
      some { s with queue := update s.queue d ns, hand := update s.hand d (some n) }
    | _, _ => none
  | .finish d peerReleased active devReady xmitFails =>
    match s.hand d with
    | some n =>
      let st := Stat.dir d (threadCounter peerReleased active devReady xmitFails)
      some { s with hand := update s.hand d none, moved := update s.moved st (s.moved st ++ [n]) }
    | none => none
  | .purge d => some { s with queue := update s.queue d (s.queue d).tail }

/-- The bridge from its activation on. -/
def flowSystem : System FrameFlow FlowAct where
  init s := (∀ d, s.queue d = []) ∧ (∀ d, s.hand d = none) ∧ (∀ st, s.moved st = []) ∧ ∀ d, s.accepted d = []
  step := flowStep vlanGetProtocol

end

/-- The counters of `d`, how often they were moved for call `n`. -/
def FrameFlow.countedFor (s : FrameFlow) (d : Dir) (n : ℕ) : ℕ :=
  (s.moved (.dir d .fwdPackets)).count n + (s.moved (.dir d .errors)).count n + (s.moved (.dir d .dropped)).count n +
    (s.moved (.dir d .oomDrops)).count n

/-- The places where the frame of call `n` is found in direction `d` : on the queue, with the thread, or counted. -/
def FrameFlow.places (s : FrameFlow) (d : Dir) (n : ℕ) : ℕ :=
  (s.queue d).count n + (s.hand d).toList.count n + s.countedFor d n

/-- A purge finds the queue empty. -/
def PurgesNothing (s : FrameFlow) : FlowAct → Prop
  | .purge d => s.queue d = []
  | _ => True

instance (s : FrameFlow) (a : FlowAct) : Decidable (PurgesNothing s a) := by
  unfold PurgesNothing
  split <;> infer_instance

/-! ## Each accepted frame is at one place -/

/-- The invariant : an accepted frame is at one place, and a later call is at none. -/
structure FlowInv (s : FrameFlow) : Prop where
  one : ∀ d, ∀ n ∈ s.accepted d, s.places d n = 1
  fresh : ∀ d n, s.next ≤ n → s.places d n = 0 ∧ n ∉ s.accepted d

section

variable {vlanGetProtocol : Skb → UInt16} {s s' : FrameFlow} {d : Dir}

/-- A call adds what it queues and what it counts under its own number. -/
theorem places_call {c : Call} (hs : flowStep vlanGetProtocol s (.call c) = some s') (e : Dir) (n : ℕ) :
    s'.places e n = s.places e n + if n = s.next then
      queuedOn e (c.disposition vlanGetProtocol).ops + countedOn e (c.disposition vlanGetProtocol).stats else 0 := by
  cases hs
  by_cases h : n = s.next
  · simp only [FrameFlow.places, FrameFlow.countedFor, count_append, h, count_replicate_self, countedOn,
      if_true]
    omega
  · have hr : ∀ k, (List.replicate k s.next).count n = 0 := fun k => by
      rw [count_replicate]
      simp [Ne.symm h]
    simp [FrameFlow.places, FrameFlow.countedFor, count_append, hr, h]

/-- The threads move a frame from one place to another. -/
theorem places_take (hs : flowStep vlanGetProtocol s (.take d) = some s') (e : Dir) (n : ℕ) :
    s'.places e n = s.places e n := by
  dsimp only [flowStep] at hs
  split at hs
  next m ns hhand hqueue =>
    cases hs
    by_cases he : e = d
    · subst he
      simp only [FrameFlow.places, FrameFlow.countedFor, update_self, hhand, hqueue, count_cons,
        Option.toList_some, Option.toList_none, count_nil]
      omega
    · simp [FrameFlow.places, FrameFlow.countedFor, he]
  next => cases hs

theorem countedFor_update (t : FrameFlow) (c : Counter) (m : ℕ) (e : Dir) (n : ℕ) :
    FrameFlow.countedFor { t with moved := update t.moved (.dir d c) (t.moved (.dir d c) ++ [m]) } e n =
      t.countedFor e n + if e = d then [m].count n else 0 := by
  by_cases he : e = d
  · subst he
    cases c <;> simp [FrameFlow.countedFor, count_append] <;> omega
  · simp [FrameFlow.countedFor, he]

theorem places_finish {r a v x : Bool} (hs : flowStep vlanGetProtocol s (.finish d r a v x) = some s') (e : Dir) (n : ℕ) :
    s'.places e n = s.places e n := by
  dsimp only [flowStep] at hs
  split at hs
  next m hhand =>
    cases hs
    have hcount := @countedFor_update d { s with hand := update s.hand d none } (threadCounter r a v x) m e n
    unfold FrameFlow.places
    rw [hcount]
    by_cases he : e = d
    · subst he
      simp only [update_self, hhand, if_true, FrameFlow.countedFor, Option.toList_some, Option.toList_none,
        count_nil]
      omega
    · simp [he, FrameFlow.countedFor]
  next => cases hs

theorem FlowInv.of_init (h : (flowSystem vlanGetProtocol).init s) : FlowInv s := by
  obtain ⟨hqueue, hhand, hmoved, hacc⟩ := h
  constructor
  · intro d n hn
    simp [hacc] at hn
  · intro d n _
    simp [FrameFlow.places, FrameFlow.countedFor, hqueue, hhand, hmoved, hacc]

/-- A step that leaves every frame at its place. -/
theorem FlowInv.of_places (h : FlowInv s) (hp : ∀ e n, s'.places e n = s.places e n) (hacc : s'.accepted = s.accepted)
    (hnext : s'.next = s.next) : FlowInv s' where
  one e n hn := by rw [hp]; exact h.one e n (hacc ▸ hn)
  fresh e n hn := by rw [hp, hacc]; exact h.fresh e n (hnext ▸ hn)

/-- A call puts its frame at one place if it accepts it. -/
theorem FlowInv.call {c : Call} (h : FlowInv s) (hs : flowStep vlanGetProtocol s (.call c) = some s') : FlowInv s' := by
  have hp := places_call hs
  have hsound := c.sound vlanGetProtocol
  cases hs
  constructor
  · intro e n hn
    rw [hp]
    dsimp only at hn
    split_ifs at hn with hacc
    · by_cases he : e = c.producer.dir
      · subst he
        rw [update_self, mem_append, mem_singleton] at hn
        obtain hn | rfl := hn
        · have hold : n ≠ s.next := fun heq => (h.fresh _ n (heq ▸ le_rfl)).2 hn
          rw [if_neg hold, h.one _ n hn]
        · rw [if_pos rfl, (h.fresh _ _ le_rfl).1, hsound.once hacc]
      · rw [update_of_ne he] at hn
        have hold : n ≠ s.next := fun heq => (h.fresh _ n (heq ▸ le_rfl)).2 hn
        rw [if_neg hold, h.one _ n hn]
    · have hold : n ≠ s.next := fun heq => (h.fresh _ n (heq ▸ le_rfl)).2 hn
      rw [if_neg hold, h.one _ n hn]
  · intro e n hn
    have hlt : s.next < n := hn
    obtain ⟨hzero, hnew⟩ := h.fresh e n hlt.le
    refine ⟨by rw [hp, hzero, if_neg (by omega)], ?_⟩
    dsimp only
    split_ifs with hacc
    · by_cases he : e = c.producer.dir
      · subst he
        rw [update_self, mem_append, mem_singleton]
        rintro (hmem | rfl)
        · exact hnew hmem
        · omega
      · rwa [update_of_ne he]
    · exact hnew

theorem FlowInv.step {a : FlowAct} (h : FlowInv s) (hc : PurgesNothing s a)
    (hs : flowStep vlanGetProtocol s a = some s') : FlowInv s' := by
  cases a with
  | call c => exact h.call hs
  | take d =>
    have hp := places_take hs
    dsimp only [flowStep] at hs
    split at hs
    next => cases hs; exact h.of_places hp rfl rfl
    next => cases hs
  | finish d r a v x =>
    have hp := places_finish hs
    dsimp only [flowStep] at hs
    split at hs
    next => cases hs; exact h.of_places hp rfl rfl
    next => cases hs
  | purge d =>
    have hempty : s.queue d = [] := hc
    cases hs
    rw [hempty, tail_nil, ← hempty, update_eq_self]
    exact h

end

/-- **What becomes of the frames.** Each call disposes of its reference once and says so; the `packet_type` function
always consumes; and in every run in which the purges find the queues empty, each frame accepted for forwarding is still
queued, in the hands of the thread, or was counted once, and only one of these. -/
theorem frame_accounting (vlanGetProtocol : Skb → UInt16) :
    (∀ c : Call, (c.disposition vlanGetProtocol).Sound c.producer.dir c.producer.nulls) ∧
      (∀ cfg al shared br skb, (peerPtFuncRef vlanGetProtocol cfg al shared br skb).consumed = true) ∧
      ∀ s, (flowSystem vlanGetProtocol).ReachableWhen PurgesNothing s → ∀ d, ∀ n ∈ s.accepted d, s.places d n = 1 := by
  refine ⟨fun c => c.sound vlanGetProtocol, ?_, ?_⟩
  · intro cfg al shared br skb
    exact peerPtFuncRef_agrees.consumed.trans peerPtFunc_consumed
  · intro s hs
    have hinv : FlowInv s := hs.invariant (fun _ => FlowInv.of_init) fun _ _ _ hi hc hstep => hi.step hc hstep
    exact hinv.one

/-- Nothing received yet. -/
def idleFlow : FrameFlow where
  queue _ := []
  hand _ := none
  moved _ := []
  accepted _ := []
  next := 0

theorem init_idleFlow (vlanGetProtocol : Skb → UInt16) : (flowSystem vlanGetProtocol).init idleFlow :=
  ⟨fun _ => rfl, fun _ => rfl, fun _ => rfl, fun _ => rfl⟩

/-- An IPv6 frame to a host behind the bridge as the WLAN receive path sees it. -/
def wlanFrame : Skb :=
  { unicastFrame with pulled := false }

/-- A frame from the WLAN is accepted and queued, and a purge frees it before the thread takes it : no counter of the
direction was moved. -/
theorem frame_purged_uncounted : ∃ s, (flowSystem walkTags).Reachable s ∧
    0 ∈ s.accepted .w2p ∧ s.queue .w2p = [] ∧ s.hand .w2p = none ∧ s.countedFor .w2p 0 = 0 := by
  obtain ⟨s, hs, hp⟩ := System.exists_reachable_of_run (M := flowSystem walkTags)
    (P := fun s => 0 ∈ s.accepted .w2p ∧ s.queue .w2p = [] ∧ s.hand .w2p = none ∧ s.countedFor .w2p 0 = 0)
    (l := [.call (.rxFast ⟨false, false⟩ allocOk (openBridge 0) wlanFrame), .purge .w2p, .purge .p2w])
    (s := idleFlow) (init_idleFlow _) (by decide +kernel)
  exact ⟨s, hs, of_decide_eq_true hp⟩

/-- Two frames for the wire, of which one is sent and one is dropped by the thread, and one for the air that is still
queued. -/
theorem frame_accounting_mixed : ∃ s, (flowSystem walkTags).ReachableWhen PurgesNothing s ∧
    (s.accepted .w2p = [0, 1] ∧ s.accepted .p2w = [2] ∧ s.moved (.dir .w2p .fwdPackets) = [0] ∧
      s.moved (.dir .w2p .dropped) = [1] ∧ s.queue .p2w = [2]) ∧
    s.places .w2p 0 = 1 ∧ s.places .w2p 1 = 1 ∧ s.places .p2w 2 = 1 := by
  obtain ⟨s, hs, hp⟩ := System.exists_reachableWhen_of_runWhen (M := flowSystem walkTags) (C := PurgesNothing)
    (P := fun s => s.accepted .w2p = [0, 1] ∧ s.accepted .p2w = [2] ∧ s.moved (.dir .w2p .fwdPackets) = [0] ∧
      s.moved (.dir .w2p .dropped) = [1] ∧ s.queue .p2w = [2])
    (l := [.call (.rxFast ⟨false, false⟩ allocOk (openBridge 0) wlanFrame),
      .call (.rxFast ⟨false, false⟩ allocOk (openBridge 0) wlanFrame), .take .w2p,
      .call (.peerRxHandler ⟨false, false⟩ allocOk (openBridge 0) unicastFrame),
      .finish .w2p false true true false, .take .w2p, .finish .w2p false false true false, .purge .w2p])
    (s := idleFlow) (.init (init_idleFlow _)) (by decide +kernel)
  have hend := of_decide_eq_true hp
  have hone := (frame_accounting walkTags).2.2 s hs
  exact ⟨s, hs, hend, hone _ _ (by simp [hend.1]), hone _ _ (by simp [hend.1]), hone _ _ (by simp [hend.2.1])⟩

end WlanDriver.Bridge
