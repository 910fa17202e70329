import WlanDriver.Cmd.RequestBalance

/-!
# Completion of the requests

`ioctl_completed_once` : each request that was passed with a command is completed once, and nothing is done with it behind
that. This is kept by every step but the ones that use a request through a pointer they have read before it was completed,
and the response to the cancelling of an extended scan, whose handler completes the request of a command that still has it.
-/

namespace WlanDriver.Cmd

open List Option

/-! ## When a step keeps it -/

/-- The request that `wlan_process_cmdresp` has read from the current command. -/
def Engine.captured (s : Engine) : Option ℕ :=
  match s.main with
  | .matched cap | .handling cap => cap
  | _ => none

/-- The handler of the response is called. -/
def Engine.handles (c : EngineCfg) (b : RespBuf) : Bool :=
  b.command &&& retBit ≠ 0 && (c.usb || !b.preAsleep)

/-- The handler uses the request it is given. -/
def Engine.Outcome.uses : Engine.Outcome → Bool
  | .plain uses _ => uses
  | .frees _ _ | .scanCancel => true
  | .scanEnhance => false

def Engine.Outcome.isScanCancel : Engine.Outcome → Bool
  | .scanCancel => true
  | _ => false

/-- The response is handled with a use of the request. -/
def Engine.usesCaptured (c : EngineCfg) (s : Engine) (i : ℕ) (b : RespBuf) (o : Engine.Outcome) : Bool :=
  (s.node i).hostcmd || b.command &&& retBit = 0 || Engine.handles c b && o.uses

/-- A request that was read earlier is not used behind its completion, and the response to the cancelling of an extended
scan has no request. -/
def Op.Settles (c : EngineCfg) (s : Engine) : Op → Prop
  | .checkCanceled => ∀ i ∈ s.curr, (s.node i).canceled = true → ∀ r ∈ s.captured, r ∉ completions s.log
  | .handleCmdresp o => ∀ i ∈ s.curr, ∀ b ∈ (s.node i).respbuf, ∀ r ∈ s.captured,
      (s.usesCaptured c i b o = true → r ∉ completions s.log) ∧ (Engine.handles c b && o.isScanCancel) = false
  | .cancelPendingIoctl r | .endLookIoctl r => r ∉ completions s.log
  | _ => True

instance Op.decidableSettles (c : EngineCfg) (s : Engine) (op : Op) : Decidable (op.Settles c s) := by
  unfold Op.Settles
  split <;> infer_instance

namespace Accounted

variable {c : EngineCfg} {g : List ℕ × List ℕ} {s u : Engine} {r : ℕ}

theorem checkCanceled (hp : Pool c g s []) (h : Accounted c s []) (hk : Op.checkCanceled.Settles c s)
    (hs : s.checkCanceled = some u) : Accounted c u [] := by
  unfold Engine.checkCanceled at hs
  split at hs
  · next cap i hmain hcurr =>
    split_ifs at hs with hc
    · obtain rfl := some.inj hs
      have hcap : s.captured = cap := by rw [Engine.captured, hmain]
      have hstatus := h.setStatusOf .cmdCancel fun r hr => hk i hcurr hc r (hcap ▸ hr)
      have hfree := hstatus.freeCurr fun i hi => by cases cap <;> exact curr_owned hp i hi
      exact ⟨hfree.balanced, hfree.attach, hfree.silent⟩
    · obtain rfl := some.inj hs
      exact ⟨h.balanced, h.attach, h.silent⟩
  · simp at hs

theorem requeue (h : Accounted c s []) (i : ℕ) : Accounted c (s.requeue i) [] := by
  have hset := h.setNode (i := i) (n := { s.node i with respbuf := none }) rfl
  have hout : Accounted c { s.setNode i { s.node i with respbuf := none } with
      curr := none, released := s.released ++ (s.node i).respbuf.toList.map RespBuf.id } [] :=
    ⟨hset.balanced, hset.attach, hset.silent⟩
  exact hout.insertCmdToPendingQ false

theorem handleCmdresp (h : Accounted c s []) {o : Engine.Outcome} (hk : (Op.handleCmdresp o).Settles c s)
    (hs : s.handleCmdresp c o = some u) : Accounted c u [] := by
  unfold Engine.handleCmdresp at hs
  split at hs
  · next cap i hmain hcurr =>
    split at hs
    · simp at hs
    · next b hresp =>
      have hcap : s.captured = cap := by rw [Engine.captured, hmain]
      have hkeep : ∀ r ∈ cap, (s.usesCaptured c i b o = true → r ∉ completions s.log) ∧
          (Engine.handles c b && o.isScanCancel) = false := fun r hr => hk i hcurr b hresp r (hcap ▸ hr)
      obtain ⟨v, hv⟩ : ∃ v, v = if (s.node i).hostcmd = true then s.useOf cap else s := ⟨_, rfl⟩
      have hv' : Accounted c v [] ∧ completions v.log = completions s.log ∧ v.node = s.node := by
        rw [hv]
        split_ifs with hhost
        · exact ⟨h.useOf fun r hr => (hkeep r hr).1 (by simp [Engine.usesCaptured, hhost]),
            Engine.completions_useOf cap, rfl⟩
        · exact ⟨h, rfl, rfl⟩
      obtain ⟨hva, hvl, hvn⟩ := hv'
      have hset : Accounted c (v.setNode i { s.node i with hostcmd := false }) [] :=
        hva.setNode (by rw [Engine.slot, hvn])
      have hmains : ∀ m, Accounted c { v.setNode i { s.node i with hostcmd := false } with main := m } [] := fun _ =>
        ⟨hset.balanced, hset.attach, hset.silent⟩
      dsimp only at hs
      rw [← hv] at hs
      split_ifs at hs with hret hpre
      · obtain rfl := some.inj hs
        have hout : Accounted c { v with main := .dropping } [] := ⟨hva.balanced, hva.attach, hva.silent⟩
        refine hout.setStatusOf .fwCmdresp fun r hr => ?_
        exact hvl ▸ (hkeep r hr).1 (by simp [Engine.usesCaptured, hret])
      · obtain rfl := some.inj hs
        have hre := hva.requeue i
        exact ⟨hre.balanced, hre.attach, hre.silent⟩
      · have hhandles : Engine.handles c b = true := by
          simp only [Engine.handles, Bool.and_eq_true, decide_eq_true_eq]
          refine ⟨by simpa using hret, ?_⟩
          cases hu : c.usb <;> simp_all
        have huses : o.uses = true → ∀ r ∈ cap, r ∉ completions v.log := fun hou r hr =>
          hvl ▸ (hkeep r hr).1 (by simp [Engine.usesCaptured, hhandles, hou])
        split at hs
        · next uses ok =>
          obtain rfl := some.inj hs
          cases uses with
          | true => exact (hmains _).useOf (huses rfl)
          | false => exact (hmains _).useOf (by simp)
        · obtain rfl := some.inj hs
          exact (hmains _).setStatusOf _ (huses rfl)
        · obtain rfl := some.inj hs
          have hm := hmains (.finishing true)
          exact ⟨hm.balanced, hm.attach, hm.silent⟩
        · split at hs
          · next r =>
            have hno := (hkeep r rfl).2
            simp [hhandles, Engine.Outcome.isScanCancel] at hno
          · obtain rfl := some.inj hs
            exact ⟨hset.balanced, hset.attach, hset.silent⟩
  · simp at hs

theorem step (hp : Pool c g s []) (h : Accounted c s []) {op : Op} (hk : op.Settles c s) (hs : s.step c op = some u) :
    Accounted c u [] := by
  cases op with
  | getCmdNode req allocOk =>
    obtain ⟨hreq, hs⟩ := ite_none_right_eq_some.mp hs
    exact some.inj hs ▸ h.getCmdNode hp hreq allocOk
  | prepareFails i =>
    obtain ⟨hi, hs⟩ := ite_none_right_eq_some.mp hs
    exact some.inj hs ▸ h.prepareFails hp hi
  | prepared i cmd hostcmd hsCancel =>
    obtain ⟨-, hs⟩ := ite_none_right_eq_some.mp hs
    exact some.inj hs ▸ (h.fill cmd hostcmd).enqueue cmd hsCancel
  | execNextCmd => exact h.execNextCmd hs
  | dnldCmdToFw => exact h.dnldCmdToFw hp hs
  | hostToCard ok => exact h.hostToCard hs
  | drop => exact h.drop hp hs
  | recvResp b =>
    obtain ⟨-, hs⟩ := ite_none_right_eq_some.mp hs
    exact h.recvResp hs
  | processCmdresp => exact h.processCmdresp hs
  | checkCanceled => exact h.checkCanceled hp hk hs
  | handleCmdresp o => exact h.handleCmdresp hk hs
  | finishCmdresp => exact h.finishCmdresp hp hs
  | cmdTimeout => exact some.inj hs ▸ h.cmdTimeout
  | flushScanQueue => exact some.inj hs ▸ h.flushScanQueue hp
  | flushExtCmdPendingQueue => exact some.inj hs ▸ h.flushExtCmdPendingQueue hp
  | moveCmdToCmdPendingQ => exact some.inj hs ▸ h.moveCmdToCmdPendingQ hp
  | feedScan start => exact h.feedScan hs
  | cancelAllPendingCmd flag => exact some.inj hs ▸ h.cancelAllPendingCmd hp flag
  | cancelBssPendingCmd b => exact some.inj hs ▸ h.cancelBssPendingCmd hp b
  | cancelPendingScanCmd => exact some.inj hs ▸ h.cancelPendingScanCmd hp
  | cancelPendingIoctl r => exact some.inj hs ▸ h.cancelPendingIoctl hp hk
  | endCancelIoctl r => exact h.endCancelIoctl hs
  | endLookIoctl r =>
    unfold Engine.step Engine.endLookIoctl at hs
    obtain ⟨-, rfl⟩ := System.of_guard hs
    have hout : Accounted c { s with looking := s.looking.erase r } [] := ⟨h.balanced, h.attach, h.silent⟩
    refine hout.useOf fun r' hr' => ?_
    obtain rfl := some.inj hr'
    exact hk
  | extScanStatus =>
    obtain rfl := some.inj hs
    split_ifs
    · exact ⟨h.balanced, h.attach, h.silent⟩
    · exact h
  | scanDone | setExtScanType | setPsState =>
    obtain rfl := some.inj hs
    exact ⟨h.balanced, h.attach, h.silent⟩

theorem of_init (h : s.Init c) : Accounted c s [] := by
  obtain ⟨-, -, -, -, -, -, -, hcan, -, hnode, hlog, hissued, href, -⟩ := h
  have hslot : ∀ i, s.slot i = none := fun i => (hnode i).1
  refine ⟨⟨by simp [hissued], fun r => ?_⟩, fun i r hi => by simp [hslot] at hi, by simp [hlog, Silent]⟩
  have hholders : holders (s.owned c) s.slot r = ∅ := by simp [holders, hslot]
  rw [hholders, hissued, Engine.out, hlog, href, hcan]
  rfl

end Accounted

/-! ## Requests completed once -/

/-- The requests that wait : those of the commands, and those that are being cancelled. -/
def Engine.waiting (s : Engine) : List ℕ :=
  s.places.filterMap s.slot ++ s.cancelling

/-- **Each request is completed once.** A request that was passed with a command was completed, or given back, or waits,
and only one of these and once; and nothing is done with it behind its completion. -/
structure CompletedOnce (s : Engine) : Prop where
  nodup : s.issued.Nodup
  once : s.issued.Perm (completions s.log ++ s.refused ++ s.waiting)
  silent : Silent ReqEvent.req ReqEvent.settles s.log

section

variable {c : EngineCfg} {g : List ℕ × List ℕ} {s : Engine}

theorem Accounted.completedOnce (hp : Pool c g s []) (h : Accounted c s []) : CompletedOnce s := by
  have hnodup : s.places.Nodup := nodup_iff_count_le_one.mpr fun i => by
    have htotal := hp.total i
    simp only [count_append] at htotal
    split_ifs at htotal <;> omega
  have hplaces : ∀ i, i ∈ s.places ↔ i ∈ s.owned c := fun i => by
    refine ⟨hp.mem_owned, fun hi => ?_⟩
    rw [Engine.owned, Finset.mem_filter, Finset.mem_range] at hi
    have htotal := hp.total i
    have hlost := count_eq_zero.mpr hi.2
    rw [if_pos hi.1, append_nil, count_append, hlost] at htotal
    exact count_pos_iff.mp (by omega)
  refine ⟨h.balanced.nodup, (h.balanced.issued_perm hnodup hplaces).trans ?_, h.silent⟩
  refine perm_iff_count.mpr fun r => ?_
  simp only [Engine.out, Engine.waiting, count_append, count_nil]
  omega

/-! ## Steps that break it -/

theorem Engine.insertCmdToFreeQ_prefix (s : Engine) (i : ℕ) : s.log <+: (s.insertCmdToFreeQ i).log := by
  unfold Engine.insertCmdToFreeQ
  cases (s.node i).pioctlBuf with
  | none => exact prefix_rfl
  | some r => exact (prefix_append _ _).trans (prefix_append _ _)

theorem Engine.freeCurr_prefix (s : Engine) : s.log <+: s.freeCurr.log := by
  unfold Engine.freeCurr
  split
  · exact s.insertCmdToFreeQ_prefix _
  · exact prefix_rfl

theorem Engine.complete_setStatus_prefix (s : Engine) (r : ℕ) (e : Err) (ok : Bool) :
    s.log <+: ((s.setStatus r e).complete r ok).log :=
  (prefix_append s.log [.status r e]).trans (prefix_append _ _)

theorem Engine.requeue_log (s : Engine) (i : ℕ) : (s.requeue i).log = s.log := by
  unfold Engine.requeue
  obtain ⟨q, heq, -⟩ := Engine.insertCmdToPendingQ_eq { s.setNode i { s.node i with respbuf := none } with
    curr := none, released := s.released ++ (s.node i).respbuf.toList.map RespBuf.id } i false
  rw [heq]
  rfl

theorem CompletedOnce.not_stale {u : Engine} (h : CompletedOnce u) {l : List ReqEvent} {e : ReqEvent}
    (hl : l ++ [e] <+: u.log) : e.req ∉ completions l := by
  obtain ⟨l', hl'⟩ := hl
  have hs : Silent ReqEvent.req ReqEvent.settles (l ++ [e]) := by
    have hsilent := h.silent
    rw [← hl'] at hsilent
    exact hsilent.of_append
  rw [← completions_eq]
  exact (silent_append_singleton.mp hs).2

theorem CompletedOnce.checkCanceled {u : Engine} (h : CompletedOnce u) (hs : s.checkCanceled = some u) :
    Op.checkCanceled.Settles c s := by
  intro i hi hc r hr
  unfold Engine.checkCanceled at hs
  split at hs
  · next cap j hmain hcurr =>
    obtain rfl : j = i := some.inj (hcurr.symm.trans hi)
    have hcap : cap = some r := by
      have hr' : s.captured = some r := hr
      rwa [Engine.captured, hmain] at hr'
    subst hcap
    rw [if_pos hc] at hs
    obtain rfl := some.inj hs
    exact h.not_stale (e := .status r .cmdCancel) (Engine.freeCurr_prefix (s.setStatusOf (some r) .cmdCancel))
  · simp at hs

theorem CompletedOnce.cancelPendingIoctl {r : ℕ} (h : CompletedOnce (s.cancelPendingIoctl c r)) :
    r ∉ completions s.log := by
  refine h.not_stale (l := s.log) (e := .use r) ?_
  have hlog : (s.takeCurrIoctl r).log = s.log := by
    unfold Engine.takeCurrIoctl
    split
    · split_ifs <;> rfl
    · rfl
  have hfold : ∀ (l : List ℕ) (u : Engine),
      u.log <+: (l.foldl (fun u i => (u.takeIoctl i).insertCmdToFreeQ i) u).log := fun l => by
    induction l with
    | nil => exact fun _ => prefix_rfl
    | cons i l ih => exact fun u => (Engine.insertCmdToFreeQ_prefix (u.takeIoctl i) i).trans (ih _)
  have huse : ((s.takeCurrIoctl r).useOf (some r)).log = s.log ++ [ReqEvent.use r] := by
    simp [Engine.useOf, hlog]
  rw [← huse]
  unfold Engine.cancelPendingIoctl
  dsimp only
  generalize (s.takeCurrIoctl r).useOf (some r) = u
  have hv : ∀ q (l : List ℕ), u.log <+: (l.foldl (fun (u : Engine) i => (u.takeIoctl i).insertCmdToFreeQ i)
      { u with pendingQ := q }).log :=
    fun q l => hfold l { u with pendingQ := q }
  split_ifs
  · exact hv _ _
  · exact (hv _ _).trans (Engine.complete_setStatus_prefix ..)
  · exact hv _ _

theorem CompletedOnce.handleCmdresp {u : Engine} {o : Engine.Outcome} (h0 : CompletedOnce s) (h : CompletedOnce u)
    (hs : s.handleCmdresp c o = some u) : (Op.handleCmdresp o).Settles c s := by
  intro i hi b hb r hr
  unfold Engine.handleCmdresp at hs
  split at hs
  · next cap j hmain hcurr =>
    obtain rfl : j = i := some.inj (hcurr.symm.trans hi)
    have hcap : cap = some r := by
      have hr' : s.captured = some r := hr
      rwa [Engine.captured, hmain] at hr'
    subst hcap
    rw [mem_def.mp hb] at hs
    dsimp only at hs
    obtain ⟨v, hv⟩ : ∃ v, v = if (s.node j).hostcmd = true then s.useOf (some r) else s := ⟨_, rfl⟩
    rw [← hv] at hs
    have hgrow : v.log <+: u.log ∧ ((b.command &&& retBit = 0 || Engine.handles c b && o.uses) = true →
        ∃ e : ReqEvent, e.req = r ∧ v.log ++ [e] <+: u.log) := by
      split_ifs at hs with hret hpre
      · obtain rfl := some.inj hs
        exact ⟨prefix_append _ _, fun _ => ⟨.status r .fwCmdresp, rfl, prefix_rfl⟩⟩
      · obtain rfl := some.inj hs
        refine ⟨(v.requeue_log j).symm ▸ prefix_rfl, fun huses => ?_⟩
        have hno : Engine.handles c b = false := by
          rw [Bool.and_eq_true] at hpre
          have husb : c.usb = false := by simpa using hpre.1
          simp [Engine.handles, hpre.2, husb]
        exact absurd (by simpa [hno] using huses) hret
      · split at hs
        · next uses ok =>
          obtain rfl := some.inj hs
          cases uses with
          | true => exact ⟨prefix_append _ _, fun _ => ⟨.use r, rfl, prefix_rfl⟩⟩
          | false =>
            exact ⟨prefix_append _ _, fun huses => absurd (by simpa [Engine.Outcome.uses] using huses) hret⟩
        · next e ok =>
          obtain rfl := some.inj hs
          exact ⟨prefix_append _ _, fun _ => ⟨.status r e, rfl, prefix_rfl⟩⟩
        · obtain rfl := some.inj hs
          exact ⟨prefix_rfl, fun huses => absurd (by simpa [Engine.Outcome.uses] using huses) hret⟩
        · obtain rfl := some.inj hs
          exact ⟨(prefix_append v.log [.status r .noError]).trans (prefix_append _ _),
            fun _ => ⟨.status r .noError, rfl, prefix_append _ _⟩⟩
    refine ⟨fun huses => ?_, ?_⟩
    · cases hhost : (s.node j).hostcmd with
      | true =>
        have huse : s.log ++ [ReqEvent.use r] <+: u.log := by
          rw [hv, if_pos hhost] at hgrow
          exact hgrow.1
        exact h.not_stale huse
      | false =>
        rw [hv, if_neg (by simp [hhost])] at hgrow
        rw [Engine.usesCaptured, hhost, Bool.false_or] at huses
        obtain ⟨e, rfl, he⟩ := hgrow.2 huses
        exact h.not_stale he
    · -- the request is completed and still with the command
      by_contra hcan
      rw [Bool.not_eq_false, Bool.and_eq_true] at hcan
      obtain ⟨hhandles, ho⟩ := hcan
      cases o with
      | plain | frees | scanEnhance => simp [Engine.Outcome.isScanCancel] at ho
      | scanCancel =>
        rw [Engine.handles, Bool.and_eq_true] at hhandles
        rw [if_neg (by simpa using hhandles.1), if_neg (by cases hu : c.usb <;> simp_all)] at hs
        obtain ⟨l, hl, rfl⟩ : ∃ l, completions l = completions s.log ∧ v = { s with log := l } := by
          rw [hv]
          split_ifs
          · exact ⟨_, Engine.completions_useOf (some r), rfl⟩
          · exact ⟨_, rfl, rfl⟩
        have hu := some.inj hs
        have hslot : u.slot = s.slot := by
          rw [← hu]
          exact (Engine.slot_setNode j _).trans (Function.update_eq_self j s.slot)
        have hplaces : u.places = s.places := by
          rw [← hu]
          simp [Engine.places, Engine.complete, Engine.setStatus, Engine.setNode, MainPc.holds, hmain]
        have hlog : completions u.log = completions s.log ++ [r] := by
          rw [← hu, ← hl]
          simp [Engine.complete, Engine.setStatus, Engine.setNode, completions]
        have hsame : u.issued = s.issued ∧ u.refused = s.refused ∧ u.cancelling = s.cancelling := by
          rw [← hu]
          exact ⟨rfl, rfl, rfl⟩
        have hlen := h.once.length_eq
        have hlen0 := h0.once.length_eq
        rw [Engine.waiting, hslot, hplaces, hlog, hsame.1, hsame.2.1, hsame.2.2] at hlen
        rw [Engine.waiting] at hlen0
        simp only [length_append, length_singleton] at hlen hlen0
        omega
  · simp at hs

/-- **Each request is completed once**, along every run whose steps meet the condition, and a step breaks it exactly if it
does not meet the condition. -/
theorem ioctl_completed_once (h : (engineSystem c).ReachableWhen (fun s op => op.Settles c s) s) :
    CompletedOnce s ∧ ∀ op s', s.step c op = some s' → (CompletedOnce s' ↔ op.Settles c s) := by
  have hinv : (∃ g, Pool c g s []) ∧ Accounted c s [] := by
    refine h.invariant (I := fun s => (∃ g, Pool c g s []) ∧ Accounted c s [])
      (fun s hs => ⟨⟨_, Pool.of_init hs⟩, .of_init hs⟩) ?_
    rintro s op s' ⟨⟨g, hp⟩, hi⟩ hc hs
    exact ⟨⟨_, hp.step hs⟩, hi.step hp hc hs⟩
  obtain ⟨⟨g, hp⟩, hi⟩ := hinv
  have honce := hi.completedOnce hp
  refine ⟨honce, fun op s' hs => ⟨fun h' => ?_, fun hk => (hi.step hp hk hs).completedOnce (hp.step hs)⟩⟩
  cases op with
  | checkCanceled => exact h'.checkCanceled hs
  | handleCmdresp o => exact honce.handleCmdresp h' hs
  | cancelPendingIoctl r =>
    obtain rfl := some.inj hs
    exact h'.cancelPendingIoctl
  | endLookIoctl r =>
    unfold Engine.step Engine.endLookIoctl at hs
    obtain ⟨-, rfl⟩ := System.of_guard hs
    exact h'.not_stale (e := .use r) prefix_rfl
  | _ => trivial

end

/-- A card with the enhanced extended scan. -/
def enhanced : EngineCfg :=
  { twoNodes false with extScanEnh := true }

theorem fresh_init_enhanced : fresh.Init enhanced :=
  fresh_init false

/-- A command that is answered, one that is cancelled on its way to the card, one that waits and is cancelled, and one that
cannot be prepared. -/
theorem ioctl_completed_once_four : ∃ s,
    (engineSystem enhanced).ReachableWhen (fun s op => op.Settles enhanced s) s ∧
      completions s.log = [1, 2, 3] ∧ s.refused = [4] ∧ s.waiting = [] ∧ CompletedOnce s := by
  obtain ⟨s, hs, hrun⟩ := System.exists_reachableWhen_of_runWhen (M := engineSystem enhanced)
    (C := fun s op => op.Settles enhanced s)
    (P := fun s => completions s.log = [1, 2, 3] ∧ s.refused = [4] ∧ s.waiting = [])
    (l := [.getCmdNode (some 1) true, .prepared 0 getHwSpec false false, .execNextCmd, .dnldCmdToFw, .hostToCard true,
      .recvResp ⟨0, 0x8003, false⟩, .processCmdresp, .checkCanceled, .handleCmdresp (.plain true true), .finishCmdresp,
      .getCmdNode (some 2) true, .prepared 1 getHwSpec false false, .execNextCmd, .dnldCmdToFw,
      .cancelBssPendingCmd 0, .hostToCard true, .recvResp ⟨1, 0x8003, false⟩, .processCmdresp, .checkCanceled,
      .getCmdNode (some 3) true, .prepared 0 getHwSpec false false, .cancelPendingIoctl 3,
      .getCmdNode (some 4) true, .prepareFails 1])
    (s := fresh) (.init fresh_init_enhanced) (by decide +kernel)
  simp only [decide_eq_true_eq] at hrun
  exact ⟨s, hs, hrun.1, hrun.2.1, hrun.2.2, (ioctl_completed_once hs).1⟩

/-- The command is cancelled behind the read of its request, which then gets a status; and the request that cancels an
extended scan is completed by the handler and with the command. -/
theorem ioctl_completed_twice :
    (¬∀ s, (engineSystem enhanced).Reachable s → CompletedOnce s) ∧
      ∃ s, (engineSystem enhanced).Reachable s ∧ completions s.log = [7, 7] ∧ ¬CompletedOnce s := by
  constructor
  · intro h
    obtain ⟨s, hs, hrun⟩ := System.exists_reachable_of_run (M := engineSystem enhanced)
      (P := fun s => s.log = [ReqEvent.use 7, .status 7 .cmdCancel, .complete 7 false] ++ [ReqEvent.status 7 .cmdCancel])
      (l := [.getCmdNode (some 7) true, .prepared 0 getHwSpec false false, .execNextCmd, .dnldCmdToFw, .hostToCard true,
        .recvResp ⟨0, 0x8003, false⟩, .processCmdresp, .cancelBssPendingCmd 0, .checkCanceled])
      (s := fresh) fresh_init_enhanced (by decide +kernel)
    refine (h s hs).not_stale (l := [.use 7, .status 7 .cmdCancel, .complete 7 false]) (e := .status 7 .cmdCancel) ?_
      (by decide)
    rw [of_decide_eq_true hrun]
  · obtain ⟨s, hs, hrun⟩ := System.exists_reachable_of_run (M := engineSystem enhanced)
      (P := fun s => completions s.log = [7, 7] ∧ s.issued = [7])
      (l := [.setExtScanType true, .getCmdNode (some 7) true, .prepared 0 ⟨cmd80211ScanExt, 64, true, false⟩ false false,
        .execNextCmd, .dnldCmdToFw, .hostToCard true, .recvResp ⟨0, 0x8107, false⟩, .processCmdresp, .checkCanceled,
        .handleCmdresp .scanCancel, .finishCmdresp])
      (s := fresh) fresh_init_enhanced (by decide +kernel)
    obtain ⟨hlog, hissued⟩ := of_decide_eq_true hrun
    refine ⟨s, hs, hlog, fun h => ?_⟩
    have hlen := h.once.length_eq
    rw [hlog, hissued] at hlen
    simp only [length_append, length_cons, length_nil] at hlen
    omega

end WlanDriver.Cmd
