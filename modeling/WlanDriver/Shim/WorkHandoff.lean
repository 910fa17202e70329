import WlanDriver.Lib.System

/-!
# Handing work to the main and receive processes

`mlan_main_process` and `mlan_rx_process` have one monitor each : three flags under a spin lock (`Proc`). A caller that
finds the process running leaves `more_task_flag`, and whoever runs the body looks at it behind the body. A caller that
finds it idle runs the body itself, or raises the event that makes a work item do so. A caller that finds it blocked
leaves the flag too.

Each section under the lock is one step, and so are the event and the work item that takes it. A thread of the model is
one call, so that a call out of the body is another thread. The log is history : the requests and the starts of the body,
in their order.

`no_request_lost` : one thread at a time runs the body, and a request is followed by a start or by a pending event, unless
the process is unblocked while the flag of a refused call is the only trace of it; `mlan_block_rx_process` then clears
`rx_lock_flag` and starts nobody.
-/

set_option linter.unusedSectionVars false

namespace WlanDriver.Shim

open Function List WlanDriver.System

/-- The flags of a process. -/
structure Proc where
  /-- `mlan_processing`, `mlan_rx_processing`. -/
  processing : Bool
  /-- `more_task_flag`, `more_rx_task_flag`. -/
  more : Bool
  /-- `main_lock_flag`, `rx_lock_flag`. -/
  lock : Bool
  deriving DecidableEq

namespace Proc

variable (p : Proc)

/-- `mlan_main_process`, `mlan_rx_process`, the first section : whether the caller runs the body. -/
def enter : Proc × Bool :=
  if p.processing || p.lock then ({ p with more := true }, false) else ({ p with processing := true }, true)

/-- `mlan_main_process`, `mlan_rx_process`, the section behind the body : whether the body is run again. -/
def leave : Proc × Bool :=
  if p.more then ({ p with more := false }, true) else ({ p with processing := false }, false)

/-- `mlan_queue_main_work`, `mlan_queue_rx_work` : whether the event is to be raised. -/
def queueWork : Proc × Bool :=
  if p.processing then ({ p with more := true }, false) else (p, true)

/-- `mlan_is_main_process_running`. -/
def isRunning : Proc × Bool :=
  if p.processing then ({ p with more := true }, true) else (p, false)

/-- `mlan_block_main_process`, `mlan_block_rx_process`. Behind the section it may wait for the work item. -/
def block (b : Bool) : Proc :=
  { p with lock := b }

end Proc

/-- Where a thread is. -/
inductive Pc
  | idle
  /-- The work item has taken the event and calls the process. -/
  | woken
  /-- It runs the body. -/
  | body
  /-- It has found the process idle and raises the event. -/
  | raising
  deriving DecidableEq

/-- The requests for work, and the starts of the body. -/
inductive Event
  | request
  | start
  deriving DecidableEq

/-- A process and its callers. -/
structure Handoff (ι : Type*) where
  proc : Proc
  /-- `MLAN_EVENT_ID_DRV_DEFER_HANDLING`, `MLAN_EVENT_ID_DRV_DEFER_RX_WORK` : the work item is queued. -/
  deferred : Bool
  pc : ι → Pc
  log : List Event

/-- The steps. -/
inductive Op (ι : Type*)
  /-- A call of the process, by the work item or by anyone. -/
  | process (i : ι)
  /-- The body has ended. -/
  | leave (i : ι)
  | queueWork (i : ι)
  /-- The event of `queueWork`. -/
  | raise (i : ι)
  | isRunning
  | block (b : Bool)
  /-- The event, raised by others. -/
  | defer
  /-- The work item takes the event. -/
  | wake (i : ι)

section

variable {ι : Type*} [DecidableEq ι]

namespace Handoff

variable (s : Handoff ι)

/-- A thread moves on, with new flags and more history. -/
def move (i : ι) (c : Pc) (p : Proc) (l : List Event) : Handoff ι :=
  { s with proc := p, pc := update s.pc i c, log := s.log ++ l }

/-- A call : the caller runs the body or returns. -/
def process (i : ι) : Handoff ι :=
  if s.proc.enter.2 then s.move i .body s.proc.enter.1 [.request, .start] else s.move i .idle s.proc.enter.1 [.request]

def leave (i : ι) : Handoff ι :=
  if s.proc.leave.2 then s.move i .body s.proc.leave.1 [.start] else s.move i .idle s.proc.leave.1 []

def queueWork (i : ι) : Handoff ι :=
  s.move i (if s.proc.queueWork.2 then .raising else .idle) s.proc.queueWork.1 [.request]

/-- Only a positive answer is a request. -/
def isRunning : Handoff ι :=
  { s with proc := s.proc.isRunning.1, log := s.log ++ if s.proc.isRunning.2 then [.request] else [] }

end Handoff

/-- One step. -/
def Handoff.step (s : Handoff ι) : Op ι → Option (Handoff ι)
  | .process i => if s.pc i = .idle ∨ s.pc i = .woken then some (s.process i) else none
  | .leave i => if s.pc i = .body then some (s.leave i) else none
  | .queueWork i => if s.pc i = .idle then some (s.queueWork i) else none
  | .raise i => if s.pc i = .raising then some { s.move i .idle s.proc [] with deferred := true } else none
  | .isRunning => some s.isRunning
  | .block b => some { s with proc := s.proc.block b }
  | .defer => some { s with deferred := true }
  | .wake i =>
    if s.deferred = true ∧ s.pc i = .idle then some { s.move i .woken s.proc [] with deferred := false } else none

/-- Nothing runs, and nothing was asked for. -/
def Handoff.Init (s : Handoff ι) : Prop :=
  s.proc = ⟨false, false, false⟩ ∧ s.deferred = false ∧ (∀ i, s.pc i = .idle) ∧ s.log = []

variable (ι) in
/-- The monitor with any number of callers. -/
def handoffSystem : System (Handoff ι) (Op ι) :=
  ⟨Handoff.Init, Handoff.step⟩

/-- A thread is about to call the process or to raise the event. -/
def Handoff.Coming (s : Handoff ι) : Prop :=
  ∃ i, s.pc i = .woken ∨ s.pc i = .raising

/-- A call goes on, or the body will be run again. -/
def Handoff.Underway (s : Handoff ι) : Prop :=
  s.Coming ∨ s.proc.more = true ∧ ∃ i, s.pc i = .body

/-- **The hand-off.** One thread runs the body; and while the process is not blocked, a request is followed by a start,
by a pending event, or by the thread that brings about one of them. -/
structure HandedOff (s : Handoff ι) : Prop where
  alone : ∀ i j, s.pc i = .body → s.pc j = .body → i = j
  followed : s.proc.lock = false → ∀ l₁ l₂, s.log = l₁ ++ .request :: l₂ →
    .start ∈ l₂ ∨ s.deferred = true ∨ s.Underway

/-- The process is not unblocked while a refused call has left nothing but its flag. -/
def Op.Kept (s : Handoff ι) : Op ι → Prop
  | .block false => s.proc.more = true → s.proc.processing = false → s.deferred = true ∨ s.Coming
  | _ => True

instance [Fintype ι] (s : Handoff ι) : Decidable s.Coming :=
  inferInstanceAs (Decidable (∃ _, _))

instance [Fintype ι] (s : Handoff ι) (op : Op ι) : Decidable (op.Kept s) := by
  unfold Op.Kept
  split <;> infer_instance

/-! ## The log -/

/-- A request waits for its start. -/
def Waits (l : List Event) : Prop :=
  ∃ l₁ l₂, l = l₁ ++ .request :: l₂ ∧ .start ∉ l₂

theorem not_waits_nil : ¬Waits [] := by
  rintro ⟨l₁, l₂, h, -⟩
  simp at h

theorem waits_append_request (l : List Event) : Waits (l ++ [Event.request]) :=
  ⟨l, [], rfl, not_mem_nil⟩

theorem not_waits_append_start (l : List Event) : ¬Waits (l ++ [Event.start]) := by
  rintro ⟨l₁, l₂, h, hl₂⟩
  rcases eq_nil_or_concat l₂ with rfl | ⟨l₂', e, rfl⟩
  · have := (append_inj' h rfl).2
    simp at this
  · rw [concat_eq_append, ← cons_append, ← append_assoc] at h
    have he : Event.start = e := by simpa using (append_inj' h rfl).2
    exact hl₂ (by simp [he])

/-! ## The invariant -/

/-- What holds of the flags, the threads and the log. -/
structure HandoffInv (s : Handoff ι) : Prop where
  alone : ∀ i j, s.pc i = .body → s.pc j = .body → i = j
  running : s.proc.processing = true ↔ ∃ i, s.pc i = .body
  /-- A waiting request has left a trace. -/
  traced : Waits s.log → s.deferred = true ∨ s.Coming ∨ s.proc.more = true
  /-- An idle process has the flag only for a request that waits. -/
  refused : s.proc.more = true → s.proc.processing = false → Waits s.log
  /-- If it is not blocked, that is not the only trace. -/
  covered : s.proc.lock = false → s.proc.more = true → s.proc.processing = false → s.deferred = true ∨ s.Coming

namespace HandoffInv

variable {s s' : Handoff ι} {i : ι} {c : Pc}

/-- Nobody runs the body while the process is idle. -/
theorem not_body (h : HandoffInv s) (hp : s.proc.processing = false) (j : ι) : s.pc j ≠ .body := fun hj =>
  absurd (h.running.mpr ⟨j, hj⟩) (by simp [hp])

/-- A thread that is not about to do anything moves. -/
theorem coming_of_update (hi : s.pc i = .idle ∨ s.pc i = .body) (h : s.Coming) :
    ∃ j, update s.pc i c j = .woken ∨ update s.pc i c j = .raising := by
  obtain ⟨j, hj⟩ := h
  have hne : j ≠ i := by
    rintro rfl
    rcases hi with hi | hi <;> simp [hi] at hj
  exact ⟨j, by simpa [hne] using hj⟩

/-- A thread moves, and neither before nor after it runs the body. -/
theorem update_body (hi : s.pc i ≠ .body) (hc : c ≠ .body) (j : ι) :
    update s.pc i c j = .body ↔ s.pc j = .body := by
  by_cases hj : j = i
  · subst hj
    simp [hi, hc]
  · simp [hj]

section

variable (h : HandoffInv s)

include h

/-- What such a move keeps. -/
theorem bodies_of_update (hi : s.pc i ≠ .body) (hc : c ≠ .body) :
    (∀ j k, update s.pc i c j = .body → update s.pc i c k = .body → j = k) ∧
      (s.proc.processing = true ↔ ∃ j, update s.pc i c j = .body) := by
  simp only [update_body hi hc]
  exact ⟨h.alone, h.running⟩

theorem process (hi : s.pc i ≠ .body) : HandoffInv (s.process i) := by
  unfold Handoff.process Proc.enter
  cases hbusy : (s.proc.processing || s.proc.lock) with
  | true =>
    simp only [if_true, Bool.false_eq_true, if_false]
    obtain ⟨halone, hrun⟩ := h.bodies_of_update hi (c := .idle) (by decide)
    refine ⟨halone, hrun, fun _ => .inr (.inr rfl), fun _ _ => waits_append_request s.log, fun hlock _ hp => ?_⟩
    simp only [Handoff.move] at hlock hp
    simp [hlock, hp] at hbusy
  | false =>
    simp only [Bool.or_eq_false_iff] at hbusy
    simp only [Bool.false_eq_true, if_false, if_true]
    have hbody : ∀ j, update s.pc i .body j = .body → j = i := fun j hj => by
      by_contra hne
      rw [update_of_ne hne] at hj
      exact h.not_body hbusy.1 j hj
    refine ⟨fun j k hj hk => (hbody j hj).trans (hbody k hk).symm, iff_of_true rfl ⟨i, update_self ..⟩,
      fun hw => ?_, fun _ hp => absurd hp (by simp [Handoff.move]), fun _ _ hp => absurd hp (by simp [Handoff.move])⟩
    have hlog : s.log ++ [Event.request, .start] = s.log ++ [Event.request] ++ [Event.start] := by simp
    exact absurd (hlog ▸ hw : Waits (s.log ++ [Event.request] ++ [Event.start])) (not_waits_append_start _)

theorem leave (hi : s.pc i = .body) : HandoffInv (s.leave i) := by
  have hp : s.proc.processing = true := h.running.mpr ⟨i, hi⟩
  unfold Handoff.leave Proc.leave
  cases hmore : s.proc.more with
  | true =>
    simp only [if_true]
    have hpc : update s.pc i .body = s.pc := by rw [← hi, update_eq_self]
    refine ⟨?_, ?_, fun hw => absurd hw (not_waits_append_start _), fun hm => absurd hm (by simp [Handoff.move]),
      fun _ hm => absurd hm (by simp [Handoff.move])⟩
    · simp only [Handoff.move, hpc]
      exact h.alone
    · simp only [Handoff.move, hpc]
      exact h.running
  | false =>
    simp only [Bool.false_eq_true, if_false]
    have hnone : ∀ j, update s.pc i .idle j ≠ .body := fun j hj => by
      by_cases hji : j = i
      · subst hji
        simp at hj
      · rw [update_of_ne hji] at hj
        exact hji (h.alone j i hj hi)
    refine ⟨fun j _ hj => absurd hj (hnone j), iff_of_false (by simp [Handoff.move]) fun ⟨j, hj⟩ => hnone j hj,
      fun hw => ?_, fun hm => absurd hm (by simp [Handoff.move]),
      fun _ hm => absurd hm (by simp [Handoff.move])⟩
    rcases h.traced (by simpa [Handoff.move] using hw) with hd | hc | hm
    · exact .inl hd
    · exact .inr (.inl (coming_of_update (.inr hi) hc))
    · exact absurd hm (by simp [hmore])

theorem queueWork (hi : s.pc i = .idle) : HandoffInv (s.queueWork i) := by
  have hne : s.pc i ≠ .body := by simp [hi]
  unfold Handoff.queueWork Proc.queueWork
  cases hp : s.proc.processing with
  | true =>
    simp only [if_true, Bool.false_eq_true, if_false]
    obtain ⟨halone, hrun⟩ := h.bodies_of_update hne (c := .idle) (by decide)
    exact ⟨halone, iff_of_true rfl (hrun.mp hp), fun _ => .inr (.inr rfl), fun _ _ => waits_append_request s.log,
      fun _ _ hp' => absurd hp' (by simp [Handoff.move])⟩
  | false =>
    simp only [Bool.false_eq_true, if_false, if_true]
    obtain ⟨halone, hrun⟩ := h.bodies_of_update hne (c := .raising) (by decide)
    have hcoming : (s.move i .raising s.proc [.request]).Coming := ⟨i, .inr (by simp [Handoff.move])⟩
    exact ⟨halone, hrun, fun _ => .inr (.inl hcoming), fun _ _ => waits_append_request s.log, fun _ _ _ => .inr hcoming⟩

theorem raise (hi : s.pc i = .raising) :
    HandoffInv { s.move i .idle s.proc [] with deferred := true } := by
  obtain ⟨halone, hrun⟩ := h.bodies_of_update (i := i) (c := .idle) (by simp [hi]) (by decide)
  refine ⟨halone, hrun, fun _ => .inl rfl, fun hm hp => ?_, fun _ _ _ => .inl rfl⟩
  simpa [Handoff.move] using h.refused hm hp

theorem isRunning : HandoffInv s.isRunning := by
  unfold Handoff.isRunning Proc.isRunning
  cases hp : s.proc.processing with
  | true =>
    simp only [if_true]
    exact ⟨h.alone, iff_of_true rfl (h.running.mp hp), fun _ => .inr (.inr rfl), fun _ _ => waits_append_request s.log,
      fun _ _ hp' => absurd hp' (by simp)⟩
  | false =>
    simp only [Bool.false_eq_true, if_false, append_nil]
    exact h

/-- To block keeps everything, and so does to unblock under the condition. -/
theorem block (b : Bool) (hk : (Op.block b).Kept s) :
    HandoffInv { s with proc := s.proc.block b } := by
  refine ⟨h.alone, h.running, h.traced, h.refused, fun hlock hm hp => ?_⟩
  have hb : b = false := hlock
  subst hb
  exact hk hm hp

theorem wake (hi : s.pc i = .idle) :
    HandoffInv { s.move i .woken s.proc [] with deferred := false } := by
  obtain ⟨halone, hrun⟩ := h.bodies_of_update (i := i) (c := .woken) (by simp [hi]) (by decide)
  have hcoming : Handoff.Coming { s.move i .woken s.proc [] with deferred := false } :=
    ⟨i, .inl (by simp [Handoff.move])⟩
  refine ⟨halone, hrun, fun _ => .inr (.inl hcoming), fun hm hp => ?_, fun _ _ _ => .inr hcoming⟩
  simpa [Handoff.move] using h.refused hm hp

theorem step {op : Op ι} (hk : op.Kept s) (hs : s.step op = some s') : HandoffInv s' := by
  cases op with
  | process i =>
    obtain ⟨hi, rfl⟩ := of_guard hs
    exact h.process (by rcases hi with hi | hi <;> simp [hi])
  | leave i =>
    obtain ⟨hi, rfl⟩ := of_guard hs
    exact h.leave hi
  | queueWork i =>
    obtain ⟨hi, rfl⟩ := of_guard hs
    exact h.queueWork hi
  | raise i =>
    obtain ⟨hi, rfl⟩ := of_guard hs
    exact h.raise hi
  | isRunning =>
    obtain rfl := Option.some.inj hs
    exact h.isRunning
  | block b =>
    obtain rfl := Option.some.inj hs
    exact h.block b hk
  | defer =>
    obtain rfl := Option.some.inj hs
    exact ⟨h.alone, h.running, fun _ => .inl rfl, h.refused, fun _ _ _ => .inl rfl⟩
  | wake i =>
    obtain ⟨⟨-, hi⟩, rfl⟩ := of_guard hs
    exact h.wake hi

end

theorem of_init (h : s.Init) : HandoffInv s := by
  obtain ⟨hproc, -, hpc, hlog⟩ := h
  refine ⟨fun i _ hi => absurd hi (by simp [hpc]), by simp [hproc, hpc], fun hw => ?_, by simp [hproc], by simp [hproc]⟩
  exact absurd (hlog ▸ hw) not_waits_nil

theorem of_reachableWhen (h : (handoffSystem ι).ReachableWhen (fun s op => op.Kept s) s) : HandoffInv s :=
  h.invariant (fun _ => of_init) fun _ _ _ hi hk hs => hi.step hk hs

theorem handedOff (h : HandoffInv s) : HandedOff s := by
  refine ⟨h.alone, fun hlock l₁ l₂ hlog => ?_⟩
  by_cases hstart : .start ∈ l₂
  · exact .inl hstart
  · rcases h.traced ⟨l₁, l₂, hlog, hstart⟩ with hd | hc | hm
    · exact .inr (.inl hd)
    · exact .inr (.inr (.inl hc))
    · cases hp : s.proc.processing with
      | true => exact .inr (.inr (.inr ⟨hm, h.running.mp hp⟩))
      | false => exact .inr ((h.covered hlock hm hp).imp id .inl)

/-- A request that waits for an idle, unblocked process is lost without an event or a thread that brings one. -/
theorem not_handedOff (h : HandoffInv s) (hm : s.proc.more = true) (hp : s.proc.processing = false)
    (hd : s.deferred = false) (hc : ¬s.Coming) : ¬HandedOff { s with proc := s.proc.block false } := fun ho => by
  obtain ⟨l₁, l₂, hlog, hstart⟩ := h.refused hm hp
  rcases ho.followed rfl l₁ l₂ hlog with hs | hd' | hc' | ⟨-, j, hj⟩
  · exact hstart hs
  · exact absurd (hd.symm.trans hd') (by decide)
  · exact hc hc'
  · exact h.not_body hp j hj

end HandoffInv

/-- **No request is lost.** In a run whose steps meet the condition, requests are handed off; and the next step keeps it
so exactly if it meets the condition. Whoever ends the body while the flag is set starts it again. -/
theorem no_request_lost {s : Handoff ι} (h : (handoffSystem ι).ReachableWhen (fun s op => op.Kept s) s) :
    HandedOff s ∧ (∀ op s', s.step op = some s' → (HandedOff s' ↔ op.Kept s)) ∧
      ∀ i s', s.proc.more = true → s.step (.leave i) = some s' → s'.pc i = .body ∧ s'.log = s.log ++ [Event.start] := by
  have hi := HandoffInv.of_reachableWhen h
  refine ⟨hi.handedOff, fun op s' hs => ⟨fun ho => ?_, fun hk => (hi.step hk hs).handedOff⟩, fun i s' hm hs => ?_⟩
  · cases op with
    | block b =>
      obtain rfl := Option.some.inj hs
      cases b with
      | true => trivial
      | false =>
        intro hm hp
        by_contra hno
        rw [not_or, Bool.not_eq_true] at hno
        exact hi.not_handedOff hm hp hno.1 hno.2 ho
    | process | leave | queueWork | raise | isRunning | defer | wake => trivial
  · obtain ⟨-, rfl⟩ := of_guard hs
    simp [Handoff.leave, Proc.leave, hm, Handoff.move]

end

/-- Two callers, and nothing to do. -/
def quiet : Handoff (Fin 2) :=
  ⟨⟨false, false, false⟩, false, fun _ => .idle, []⟩

/-- A call that comes while the body runs, and one that comes behind a block. -/
theorem no_request_lost_blocked : ∃ s, (handoffSystem (Fin 2)).ReachableWhen (fun s op => op.Kept s) s ∧
    s.log = [.request, .start, .request, .request, .start] ∧ s.proc = ⟨false, false, false⟩ ∧ HandedOff s := by
  obtain ⟨s, hs, hrun⟩ := exists_reachableWhen_of_runWhen (M := handoffSystem (Fin 2))
    (C := fun s op => op.Kept s)
    (P := fun s => s.log = [.request, .start, .request, .request, .start] ∧ s.proc = ⟨false, false, false⟩)
    (l := [.process 0, .queueWork 1, .block true, .process 1, .block false, .leave 0, .leave 0])
    (s := quiet) (.init ⟨rfl, rfl, fun _ => rfl, rfl⟩) (by decide +kernel)
  simp only [decide_eq_true_eq] at hrun
  exact ⟨s, hs, hrun.1, hrun.2, (no_request_lost hs).1⟩

/-- A call that is refused, and the end of the block : nobody will run the body. -/
theorem blocked_request_lost : ¬∀ s, (handoffSystem (Fin 2)).Reachable s → HandedOff s := by
  intro h
  obtain ⟨s, hs, hrun⟩ := exists_reachable_of_run (M := handoffSystem (Fin 2))
    (P := fun s => s.log = [.request] ∧ s.proc = ⟨false, true, false⟩ ∧ s.deferred = false ∧ ∀ i, s.pc i = .idle)
    (l := [.block true, .process 0, .block false]) (s := quiet) ⟨rfl, rfl, fun _ => rfl, rfl⟩ (by decide +kernel)
  simp only [decide_eq_true_eq] at hrun
  obtain ⟨hlog, hproc, hd, hpc⟩ := hrun
  rcases (h s hs).followed (by rw [hproc]) [] [] hlog with hstart | hd' | ⟨i, hi⟩ | ⟨-, i, hi⟩
  · exact absurd hstart not_mem_nil
  · exact absurd (hd.symm.trans hd') (by decide)
  · simp [hpc] at hi
  · simp [hpc] at hi

end WlanDriver.Shim
