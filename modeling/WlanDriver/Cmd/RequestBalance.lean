import WlanDriver.Lib.Tokens
import WlanDriver.Cmd.NodePool

/-!
# The balance of the requests

A request is a token : a command node of the pool is its slot, and it is out once it was completed, given back, or taken
off its command by a cancelling function that has yet to complete it. `Accounted` says that the tokens are balanced
(`Balanced`) and that nothing is done with a completed request (`Silent`); `taken` are the requests that an operation has
in its hands. Every operation keeps it that does not use a request it has read earlier.
-/

namespace WlanDriver.Cmd

open List Option

/-! ## The history -/

def ReqEvent.settles : ReqEvent → Bool
  | .complete _ _ => true
  | _ => false

theorem completions_eq (l : List ReqEvent) : (l.filter ReqEvent.settles).map ReqEvent.req = completions l := by
  induction l with
  | nil => rfl
  | cons e l ih =>
    cases e with
    | status | use => exact ih
    | complete r ok => exact congrArg (r :: ·) ih

@[simp] theorem completions_append (l l' : List ReqEvent) :
    completions (l ++ l') = completions l ++ completions l' :=
  filterMap_append

@[simp] theorem completions_complete (r : ℕ) (ok : Bool) : completions [.complete r ok] = [r] :=
  rfl

@[simp] theorem completions_uses (l : List ℕ) : completions (l.map .use) = [] := by
  induction l with
  | nil => rfl
  | cons r l ih => exact ih

theorem completions_of_not_settles {e : ReqEvent} (he : e.settles = false) : completions [e] = [] := by
  cases e with
  | status | use => rfl
  | complete => exact absurd he (by simp [ReqEvent.settles])

namespace Engine

variable (c : EngineCfg) (s : Engine)

/-- The request of a node. -/
def slot (i : ℕ) : Option ℕ :=
  (s.node i).pioctlBuf

/-- The nodes of the pool that are not lost. -/
def owned : Finset ℕ :=
  (Finset.range c.numCmdBuffer).filter (· ∉ s.lost)

/-- The requests that are with no command any more. -/
def out (taken : List ℕ) : List ℕ :=
  completions s.log ++ s.refused ++ s.cancelling ++ taken

variable {c s}

theorem slot_setNode (i : ℕ) (n : CmdNode) : (s.setNode i n).slot = Function.update s.slot i n.pioctlBuf := by
  funext j
  by_cases hji : j = i
  · subst hji
    simp [slot, setNode]
  · simp [slot, setNode, hji]

theorem completions_useOf (o : Option ℕ) : completions (s.useOf o).log = completions s.log := by
  simp [useOf]

end Engine

/-! ## The balance -/

/-- The requests are accounted for. -/
structure Accounted (c : EngineCfg) (s : Engine) (taken : List ℕ) : Prop where
  balanced : Balanced (s.owned c) s.slot s.issued (s.out taken)
  attach : ∀ i r, s.slot i = some r → i ∈ s.owned c ∨ r ∈ s.refused
  silent : Silent ReqEvent.req ReqEvent.settles s.log

namespace Accounted

variable {c : EngineCfg} {g : List ℕ × List ℕ} {s u : Engine} {taken : List ℕ} {i r : ℕ} {o : Option ℕ}

section

variable (h : Accounted c s taken)

include h

theorem not_completed (hr : r ∈ s.refused ++ s.cancelling ++ taken) :
    r ∉ completions s.log := by
  intro hc
  have hpos := count_pos_iff.mpr hc
  have hpos' := count_pos_iff.mpr hr
  have hle := h.balanced.holders_le_one r
  simp only [Engine.out, count_append] at hle hpos'
  omega

/-- The request of a command is not completed. -/
theorem slot_not_completed (hi : s.slot i = some r) : r ∉ completions s.log := by
  rcases h.attach i r hi with howned | href
  · intro hc
    exact h.balanced.not_mem_out howned hi (by simp [Engine.out, hc])
  · exact h.not_completed (by simp [href])

theorem slot_open (i : ℕ) : ∀ r ∈ (s.node i).pioctlBuf, r ∉ completions s.log :=
  fun _ hr => h.slot_not_completed (i := i) hr

/-- The history goes on, but completes nothing. -/
theorem event {e : ReqEvent} (f : ℕ → Err) (he : e.settles = false)
    (hr : e.req ∉ completions s.log) : Accounted c { s with statusCode := f, log := s.log ++ [e] } taken := by
  refine ⟨?_, h.attach, silent_append_singleton.mpr ⟨h.silent, by rwa [completions_eq]⟩⟩
  have hb := h.balanced
  simp only [Engine.out] at hb ⊢
  rwa [completions_append, completions_of_not_settles he, append_nil]

theorem setStatusOf (e : Err) (ho : ∀ r ∈ o, r ∉ completions s.log) :
    Accounted c (s.setStatusOf o e) taken := by
  cases o with
  | none => exact h
  | some r => exact h.event _ rfl (ho r rfl)

end

theorem uses (l : List ℕ) : ∀ {s : Engine}, Accounted c s taken → (∀ r ∈ l, r ∉ completions s.log) →
    Accounted c { s with log := s.log ++ l.map .use } taken := by
  induction l with
  | nil =>
    intro s h _
    simpa using h
  | cons r l ih =>
    intro s h hl
    have hr := h.event (e := .use r) s.statusCode rfl (hl r mem_cons_self)
    have hrest := ih hr fun r' hr' => by
      simpa [completions] using hl r' (mem_cons_of_mem r hr')
    simpa using hrest

theorem useOf (h : Accounted c s taken) (ho : ∀ r ∈ o, r ∉ completions s.log) : Accounted c (s.useOf o) taken :=
  h.uses o.toList fun r hr => ho r (mem_toList.mp hr)

/-- A request that was taken is completed. -/
theorem complete (h : Accounted c s (r :: taken)) (ok : Bool) : Accounted c (s.complete r ok) taken := by
  have hr : r ∉ completions s.log := h.not_completed (by simp)
  refine ⟨h.balanced.perm ?_, h.attach, silent_append_singleton.mpr ⟨h.silent, by rwa [completions_eq]⟩⟩
  refine perm_iff_count.mpr fun r' => ?_
  simp only [Engine.out, Engine.complete, completions_append, completions_complete, count_append, count_cons,
    count_nil]
  omega

/-- Requests that were taken are given back. -/
theorem refuse {l : List ℕ} (h : Accounted c s (l ++ taken)) :
    Accounted c { s with refused := s.refused ++ l } taken := by
  refine ⟨h.balanced.perm ?_, fun i r' hi => (h.attach i r' hi).imp_right (mem_append_left l), h.silent⟩
  refine perm_iff_count.mpr fun r' => ?_
  simp only [Engine.out, count_append]
  omega

/-- A request that was taken is completed later. -/
theorem postpone (h : Accounted c s (r :: taken)) : Accounted c { s with cancelling := r :: s.cancelling } taken := by
  refine ⟨h.balanced.perm ?_, h.attach, h.silent⟩
  refine perm_iff_count.mpr fun r' => ?_
  simp only [Engine.out, count_append, count_cons]
  omega

/-- A new request. -/
theorem issue (h : Accounted c s []) (ho : ∀ r ∈ o, r ∉ s.issued) :
    Accounted c { s with issued := s.issued ++ o.toList } o.toList := by
  cases o with
  | none =>
    refine ⟨?_, h.attach, h.silent⟩
    simpa using h.balanced
  | some r =>
    refine ⟨(h.balanced.issue (ho r rfl)).perm ?_, h.attach, h.silent⟩
    simp [Engine.out]

theorem setNode (h : Accounted c s taken) {n : CmdNode} (hn : n.pioctlBuf = s.slot i) :
    Accounted c (s.setNode i n) taken := by
  have hslot : (s.setNode i n).slot = s.slot := by
    rw [Engine.slot_setNode, hn, Function.update_eq_self]
  refine ⟨?_, fun j r hj => h.attach j r (hslot ▸ hj), h.silent⟩
  rw [hslot]
  exact h.balanced

/-- A node loses its request. -/
theorem take (h : Accounted c s taken) {n : CmdNode} (hi : i ∈ s.owned c) (hr : s.slot i = some r)
    (hn : n.pioctlBuf = none) : Accounted c (s.setNode i n) (r :: taken) := by
  refine ⟨?_, fun j r' hj => ?_, h.silent⟩
  · rw [Engine.slot_setNode, hn]
    refine (h.balanced.take hi hr).perm (perm_iff_count.mpr fun r' => ?_)
    simp only [Engine.out, Engine.setNode, count_append, count_cons]
    omega
  · rw [Engine.slot_setNode, hn] at hj
    by_cases hji : j = i
    · simp [hji] at hj
    · exact h.attach j r' (by simpa [hji] using hj)

/-- Whatever request a node has, it loses it. -/
theorem takeOf (h : Accounted c s taken) {n : CmdNode} (hi : i ∈ s.owned c) (hr : s.slot i = o)
    (hn : n.pioctlBuf = none) : Accounted c (s.setNode i n) (o.toList ++ taken) := by
  cases o with
  | none => exact h.setNode (hn.trans hr.symm)
  | some r => exact h.take hi hr hn

/-- A node without a request gets one that was taken. -/
theorem put (h : Accounted c s o.toList) {n : CmdNode} (hi : i ∈ s.owned c) (hn : s.slot i = none)
    (hr : n.pioctlBuf = o) : Accounted c (s.setNode i n) [] := by
  cases o with
  | none => exact h.setNode (hr.trans hn.symm)
  | some r =>
    refine ⟨?_, fun j r' hj => ?_, h.silent⟩
    · rw [Engine.slot_setNode, hr]
      have hb : Balanced (s.owned c) s.slot s.issued (s.out [] ++ [r]) := h.balanced.perm (by simp [Engine.out])
      exact hb.put hi hn
    · rw [Engine.slot_setNode, hr] at hj
      by_cases hji : j = i
      · exact .inl (hji ▸ hi)
      · exact h.attach j r' (by simpa [hji] using hj)

/-- A node gets lost with a request that was given back. -/
theorem lose (h : Accounted c s taken) {n : CmdNode} (hn : s.slot i = none)
    (hr : ∀ r ∈ n.pioctlBuf, r ∈ s.refused) : Accounted c { s.setNode i n with lost := s.lost ++ [i] } taken := by
  have howned : Engine.owned c { s.setNode i n with lost := s.lost ++ [i] } = (s.owned c).erase i := by
    ext j
    simp only [Engine.owned, Finset.mem_filter, Finset.mem_range, mem_append, mem_singleton, Finset.mem_erase]
    tauto
  have hslot : Engine.slot { s.setNode i n with lost := s.lost ++ [i] } = Function.update s.slot i n.pioctlBuf :=
    Engine.slot_setNode i n
  refine ⟨?_, fun j r' hj => ?_, h.silent⟩
  · rw [howned, hslot]
    refine (h.balanced.erase hn).congr fun j hj => ?_
    simp [Finset.ne_of_mem_erase hj]
  · rw [hslot] at hj
    rw [howned]
    by_cases hji : j = i
    · subst hji
      exact .inr (hr r' (by simpa using hj))
    · exact (h.attach j r' (by simpa [hji] using hj)).imp_left fun hm => Finset.mem_erase.mpr ⟨hji, hm⟩

/-! ### Operations -/

theorem insertCmdToFreeQ (h : Accounted c s taken) (hi : i ∈ s.owned c) :
    Accounted c (s.insertCmdToFreeQ i) taken := by
  unfold Engine.insertCmdToFreeQ
  cases hr : (s.node i).pioctlBuf with
  | none =>
    have hset := h.setNode (i := i) (n := (s.node i).clean) hr.symm
    exact ⟨hset.balanced, hset.attach, hset.silent⟩
  | some r =>
    have huse := h.useOf (o := some r) fun r' hr' => h.slot_not_completed (hr.trans hr')
    have htake := huse.take (n := (s.node i).clean) hi hr rfl
    have hdone := htake.complete (decide (s.statusCode r = .noError))
    exact ⟨hdone.balanced, hdone.attach, hdone.silent⟩

theorem cancelIoctl (h : Accounted c s taken) (hi : i ∈ s.owned c) : Accounted c (s.cancelIoctl i) taken := by
  unfold Engine.cancelIoctl
  cases hr : (s.node i).pioctlBuf with
  | none => exact h
  | some r =>
    have htake := h.take (n := { s.node i with pioctlBuf := none }) hi hr rfl
    have hstatus := htake.setStatusOf (o := some r) .cmdCancel fun r' hr' =>
      h.slot_not_completed (i := i) (hr.trans hr')
    exact hstatus.complete false

/-- A loop over nodes of the pool. -/
theorem foldl {f : Engine → ℕ → Engine}
    (hf : ∀ {s i}, Accounted c s taken → i ∈ s.owned c → Accounted c (f s i) taken ∧ (f s i).lost = s.lost) :
    ∀ {l : List ℕ} {s : Engine}, Accounted c s taken → (∀ i ∈ l, i ∈ s.owned c) → Accounted c (l.foldl f s) taken
  | [], _, h, _ => h
  | i :: l, s, h, hl => by
    obtain ⟨hfi, hlost⟩ := hf h (hl i mem_cons_self)
    refine foldl (l := l) (s := f s i) @hf hfi fun j hj => ?_
    rw [Engine.owned, hlost]
    exact hl j (mem_cons_of_mem i hj)

theorem insertCmdToFreeQ_lost (s : Engine) (i : ℕ) : (s.insertCmdToFreeQ i).lost = s.lost := by
  obtain ⟨l, heq⟩ := s.insertCmdToFreeQ_eq i
  rw [heq]

theorem cancelIoctl_lost (s : Engine) (i : ℕ) : (s.cancelIoctl i).lost = s.lost := by
  obtain ⟨f, l, heq⟩ := s.cancelIoctl_eq i
  rw [heq]

variable (h : Accounted c s taken)

include h

theorem cancelIoctl_insertCmdToFreeQ (hi : i ∈ s.owned c) :
    Accounted c ((s.cancelIoctl i).insertCmdToFreeQ i) taken ∧ ((s.cancelIoctl i).insertCmdToFreeQ i).lost = s.lost := by
  refine ⟨(h.cancelIoctl hi).insertCmdToFreeQ ?_, ?_⟩
  · rwa [Engine.owned, cancelIoctl_lost]
  · rw [insertCmdToFreeQ_lost, cancelIoctl_lost]

theorem cancelAll {l : List ℕ} (hl : ∀ i ∈ l, i ∈ s.owned c) :
    Accounted c (s.cancelAll l) taken :=
  h.foldl cancelIoctl_insertCmdToFreeQ hl

theorem freeAll {l : List ℕ} (hl : ∀ i ∈ l, i ∈ s.owned c) :
    Accounted c (s.freeAll l) taken :=
  h.foldl (fun h hi => ⟨h.insertCmdToFreeQ hi, insertCmdToFreeQ_lost ..⟩) hl

theorem insertCmdToPendingQ (addTail : Bool) :
    Accounted c (s.insertCmdToPendingQ i addTail) taken := by
  obtain ⟨q, heq, -⟩ := s.insertCmdToPendingQ_eq i addTail
  rw [heq]
  exact ⟨h.balanced, h.attach, h.silent⟩

theorem freeCurr (hi : ∀ i ∈ s.curr, i ∈ s.owned c) : Accounted c s.freeCurr taken := by
  unfold Engine.freeCurr
  split
  · next i hcurr =>
    have hfree := h.insertCmdToFreeQ (hi i hcurr)
    exact ⟨hfree.balanced, hfree.attach, hfree.silent⟩
  · exact h

end Accounted

/-- The nodes in the places belong to the pool. -/
theorem Pool.mem_owned {c : EngineCfg} {g : List ℕ × List ℕ} {s : Engine} (h : Pool c g s []) {i : ℕ}
    (hi : i ∈ s.places) : i ∈ s.owned c := by
  have htotal := h.total i
  have hpos := count_pos_iff.mpr hi
  simp only [count_append, count_nil] at htotal
  rw [Engine.owned, Finset.mem_filter, Finset.mem_range]
  split_ifs at htotal with hlt
  · refine ⟨hlt, fun hlost => ?_⟩
    have := count_pos_iff.mpr hlost
    omega
  · omega

namespace Accounted

variable {c : EngineCfg} {g : List ℕ × List ℕ} {s u : Engine} {i r : ℕ} {o : Option ℕ}

theorem getCmdNode (hp : Pool c g s []) (h : Accounted c s []) {req : Option ℕ} (hreq : ∀ r ∈ req, r ∉ s.issued)
    (allocOk : Bool) : Accounted c (s.getCmdNode c req allocOk) [] := by
  have hnot : ∀ r ∈ req, r ∉ completions s.log := fun r hr hc =>
    hreq r hr (h.balanced.mem_issued_of_out (by simp [Engine.out, hc]))
  have hissue := h.issue hreq
  have hissue' : Accounted c { s with issued := s.issued ++ req.toList } (req.toList ++ []) := by
    rwa [append_nil]
  unfold Engine.getCmdNode
  split
  · exact setStatusOf hissue'.refuse .noMem hnot
  · next i rest hq =>
    have hi : i ∈ s.owned c := hp.mem_owned (by simp [Engine.places, hq])
    have hclean : s.slot i = none := hp.clean i (by simp [hq])
    dsimp only
    split_ifs
    · have hlose := hissue'.refuse.lose (i := i) (n := { s.node i with pioctlBuf := req }) hclean fun r hr => by
        simp [mem_toList.mpr hr]
      have hout : Accounted c
          { s.setNode i { s.node i with pioctlBuf := req } with
            freeQ := rest, issued := s.issued ++ req.toList, refused := s.refused ++ req.toList,
            lost := s.lost ++ [i] } [] :=
        ⟨hlose.balanced, hlose.attach, hlose.silent⟩
      exact hout.setStatusOf .noMem hnot
    · have hput := hissue.put (i := i) (n := { s.node i with pioctlBuf := req }) hi hclean rfl
      exact ⟨hput.balanced, hput.attach, hput.silent⟩

theorem prepareFails (hp : Pool c g s []) (h : Accounted c s []) (hi : i ∈ s.prep) :
    Accounted c (s.prepareFails i) [] := by
  have howned : i ∈ s.owned c := hp.mem_owned (by simp [Engine.places, hi])
  have href := (h.takeOf (n := { s.node i with pioctlBuf := none }) howned rfl rfl).refuse
  have hout : Accounted c
      { s.setNode i { s.node i with pioctlBuf := none } with
        prep := s.prep.erase i, refused := s.refused ++ (s.slot i).toList } [] :=
    ⟨href.balanced, href.attach, href.silent⟩
  refine (hout.setStatusOf .cmdDnldFail (h.slot_open i)).insertCmdToFreeQ ?_
  cases (s.node i).pioctlBuf <;> exact howned

theorem enqueue (h : Accounted c s []) (cmd : HostCmd) (hsCancel : Bool) :
    Accounted c (s.enqueue c i cmd hsCancel) [] := by
  unfold Engine.enqueue Engine.queueScanCmd Engine.queueCmd
  split_ifs
  · exact h.insertCmdToPendingQ false
  · have hset := h.setNode (i := i) (n := { s.node i with scan := true }) rfl
    exact ⟨hset.balanced, hset.attach, hset.silent⟩
  · exact h.insertCmdToPendingQ false
  · exact ⟨h.balanced, h.attach, h.silent⟩
  · exact h.insertCmdToPendingQ true

theorem fill (h : Accounted c s []) (cmd : HostCmd) (hostcmd : Bool) : Accounted c (s.fill i cmd hostcmd) [] := by
  have hset := h.setNode (i := i)
    (n := { s.node i with cmd := cmd, cmdNo := if hostcmd then 0 else cmd.command, hostcmd := hostcmd }) rfl
  exact ⟨hset.balanced, hset.attach, hset.silent⟩

/-! ### Download and responses -/

theorem execNextCmd (h : Accounted c s []) (hs : s.execNextCmd = some u) : Accounted c u [] := by
  unfold Engine.execNextCmd at hs
  split at hs
  · obtain ⟨-, rfl⟩ := System.of_guard hs
    exact ⟨h.balanced, h.attach, h.silent⟩
  · simp at hs

theorem dnldCmdToFw (hp : Pool c g s []) (h : Accounted c s []) (hs : s.dnldCmdToFw = some u) :
    Accounted c u [] := by
  unfold Engine.dnldCmdToFw at hs
  split at hs
  · next i hmain =>
    have hi : i ∈ s.owned c := hp.mem_owned (by simp [Engine.places, hmain, MainPc.holds])
    split_ifs at hs
    · obtain rfl := some.inj hs
      have hidle : Accounted c { s with main := .idle } [] := ⟨h.balanced, h.attach, h.silent⟩
      refine (hidle.setStatusOf .cmdDnldFail (h.slot_open i)).insertCmdToFreeQ ?_
      cases (s.node i).pioctlBuf <;> exact hi
    · obtain rfl := some.inj hs
      have hset := h.setNode (i := i) (n := { s.node i with cmdNo := (s.node i).cmd.command }) rfl
      exact ⟨hset.balanced, hset.attach, hset.silent⟩
  · simp at hs

theorem hostToCard (h : Accounted c s []) {ok : Bool} (hs : s.hostToCard ok = some u) : Accounted c u [] := by
  have hmain : ∀ m, Accounted c { s with main := m } [] := fun _ => ⟨h.balanced, h.attach, h.silent⟩
  unfold Engine.hostToCard at hs
  split at hs
  · next i _ =>
    split_ifs at hs
    · exact some.inj hs ▸ (hmain .dropping).setStatusOf .cmdDnldFail (h.slot_open i)
    · exact some.inj hs ▸ hmain _
    · exact some.inj hs ▸ hmain _
    · obtain rfl := some.inj hs
      exact ⟨h.balanced, h.attach, h.silent⟩
  · simp at hs

theorem curr_owned (hp : Pool c g s []) : ∀ i ∈ s.curr, i ∈ s.owned c :=
  fun i hi => hp.mem_owned (by simp [Engine.places, mem_def.mp hi])

theorem drop (hp : Pool c g s []) (h : Accounted c s []) (hs : s.drop = some u) : Accounted c u [] := by
  have hfree := h.freeCurr (curr_owned hp)
  unfold Engine.drop at hs
  split at hs
  · obtain rfl := some.inj hs
    exact ⟨hfree.balanced, hfree.attach, hfree.silent⟩
  · obtain rfl := some.inj hs
    exact ⟨hfree.balanced, hfree.attach, hfree.silent⟩
  · simp at hs

theorem recvResp (h : Accounted c s []) {b : RespBuf} (hs : s.recvResp b = some u) : Accounted c u [] := by
  unfold Engine.recvResp at hs
  split at hs
  · next i _ =>
    obtain rfl := some.inj hs
    have hset := h.setNode (i := i) (n := { s.node i with respbuf := some b }) rfl
    exact ⟨hset.balanced, hset.attach, hset.silent⟩
  · simp at hs

theorem processCmdresp (h : Accounted c s []) (hs : s.processCmdresp = some u) : Accounted c u [] := by
  unfold Engine.processCmdresp at hs
  split at hs
  · split at hs
    · exact some.inj hs ▸ h
    · split at hs
      · exact some.inj hs ▸ h
      · next i _ =>
        split at hs
        · exact some.inj hs ▸ h.setStatusOf .cmdRespFail (h.slot_open i)
        · split_ifs at hs
          · exact some.inj hs ▸ h
          · obtain rfl := some.inj hs
            exact ⟨h.balanced, h.attach, h.silent⟩
  · simp at hs

theorem finishCmdresp (hp : Pool c g s []) (h : Accounted c s []) (hs : s.finishCmdresp c = some u) :
    Accounted c u [] := by
  unfold Engine.finishCmdresp at hs
  split at hs
  · split at hs
    · obtain rfl := some.inj hs
      exact ⟨h.balanced, h.attach, h.silent⟩
    · split at hs
      · obtain rfl := some.inj hs
        exact ⟨h.balanced, h.attach, h.silent⟩
      · next i hcurr =>
        obtain rfl := some.inj hs
        have hfree : ∀ v, s.Told v → Accounted c v [] → Accounted c { v.freeCurr with main := .idle } [] := by
          rintro v ⟨f, l, rfl⟩ hv
          have hcurr' := hv.freeCurr fun i hi => curr_owned hp i hi
          exact ⟨hcurr'.balanced, hcurr'.attach, hcurr'.silent⟩
        have hopen := h.slot_open i
        apply hfree
        · split_ifs
          · exact s.told_setStatusOf ..
          · exact (s.told_useOf _).trans (Engine.told_setStatusOf ..)
          · exact s.told_useOf _
        · split_ifs
          · exact h.setStatusOf .noError hopen
          · refine (h.useOf hopen).setStatusOf .cmdRespFail ?_
            rwa [Engine.completions_useOf]
          · exact h.useOf hopen
  · simp at hs

theorem cmdTimeout (h : Accounted c s []) : Accounted c s.cmdTimeout [] := by
  unfold Engine.cmdTimeout
  split
  · exact ⟨h.balanced, h.attach, h.silent⟩
  · next i _ =>
    have hout : Accounted c
        { s with timerSet := false, numCmdTimeout := s.numCmdTimeout + 1, timedOut := true } [] :=
      ⟨h.balanced, h.attach, h.silent⟩
    exact hout.setStatusOf .cmdTimeout (h.slot_open i)

/-! ### Flushing and cancelling -/

theorem flushScanQueue (hp : Pool c g s []) (h : Accounted c s []) : Accounted c s.flushScanQueue [] := by
  have hout : Accounted c { s with scanQ := [] } [] := ⟨h.balanced, h.attach, h.silent⟩
  have hscan : ∀ {v : Engine} {i}, Accounted c v [] → i ∈ v.owned c →
      Accounted c (v.flushScan i) [] ∧ (v.flushScan i).lost = v.lost := fun hv hi => by
    unfold Engine.flushScan
    split_ifs
    · exact ⟨hv.insertCmdToFreeQ hi, insertCmdToFreeQ_lost ..⟩
    · exact hv.cancelIoctl_insertCmdToFreeQ hi
  have hf := hout.foldl hscan (l := s.scanQ) fun i hi => hp.mem_owned (by simp [Engine.places, hi])
  exact ⟨hf.balanced, hf.attach, hf.silent⟩

theorem flushExtCmdPendingQueue (hp : Pool c g s []) (h : Accounted c s []) :
    Accounted c s.flushExtCmdPendingQueue [] := by
  have hout : Accounted c { s with extQ := [] } [] := ⟨h.balanced, h.attach, h.silent⟩
  exact hout.cancelAll fun i hi => hp.mem_owned (by simp [Engine.places, hi])

theorem moveCmdToCmdPendingQ (hp : Pool c g s []) (h : Accounted c s []) : Accounted c s.moveCmdToCmdPendingQ [] := by
  have hout : Accounted c { s with extQ := [] } [] := ⟨h.balanced, h.attach, h.silent⟩
  refine hout.foldl (fun {v i} hv _ => ⟨hv.insertCmdToPendingQ true, ?_⟩)
    fun i hi => hp.mem_owned (by simp [Engine.places, hi])
  obtain ⟨q, heq, -⟩ := v.insertCmdToPendingQ_eq i true
  rw [heq]

theorem feedScan (h : Accounted c s []) {start : Bool} (hs : s.feedScan start = some u) : Accounted c u [] := by
  unfold Engine.feedScan at hs
  split at hs
  · next i rest _ =>
    obtain rfl := some.inj hs
    have hout : Accounted c { s with scanQ := rest, scanProcessing := start || s.scanProcessing } [] :=
      ⟨h.balanced, h.attach, h.silent⟩
    exact hout.insertCmdToPendingQ true
  · simp at hs

section

variable (hp : Pool c g s [])

include hp

theorem cancelCurr (h : Accounted c s []) : Accounted c s.cancelCurr [] := by
  unfold Engine.cancelCurr
  split
  · next i hcurr => exact h.cancelIoctl (curr_owned hp i hcurr)
  · exact h

theorem cancelAllPendingCmd (h : Accounted c s []) (flag : Bool) :
    Accounted c (s.cancelAllPendingCmd flag) [] := by
  have hcurr := h.cancelCurr hp
  have hu : Accounted c (if flag = true then s.cancelCurr.freeCurr else s.cancelCurr) [] := by
    split_ifs
    · exact hcurr.freeCurr (curr_owned hp.cancelCurr)
    · exact hcurr
  have hpu : Pool c g (if flag = true then s.cancelCurr.freeCurr else s.cancelCurr) [] := by
    split_ifs
    · exact hp.cancelCurr.freeCurr
    · exact hp.cancelCurr
  unfold Engine.cancelAllPendingCmd
  generalize (if flag = true then s.cancelCurr.freeCurr else s.cancelCurr) = u at hu hpu
  have hout : Accounted c { u with timerSet := false, pendingQ := [] } [] := ⟨hu.balanced, hu.attach, hu.silent⟩
  exact hout.cancelAll fun i hi => hpu.mem_owned (by simp [Engine.places, hi])

theorem cancelCurrIf (h : Accounted c s []) (p : ℕ → Bool) :
    Accounted c (s.cancelCurrIf p) [] := by
  unfold Engine.cancelCurrIf
  split
  · next i hcurr =>
    have huse := h.useOf (h.slot_open i)
    dsimp only
    split_ifs
    · exact (huse.setNode (i := i) (n := { s.node i with canceled := true }) rfl).cancelIoctl (curr_owned hp i hcurr)
    · exact huse
  · exact h

theorem pending_owned (p : ℕ → Bool) : ∀ i ∈ s.pendingQ.filter p, i ∈ s.owned c :=
  fun i hi => hp.mem_owned (by simp [Engine.places, (mem_filter.mp hi).1])

theorem cancelBssPendingCmd (h : Accounted c s []) (b : ℕ) :
    Accounted c (s.cancelBssPendingCmd c b) [] := by
  have hcurr := h.cancelCurrIf hp fun r => c.bssIndex r = b
  have hpu := hp.cancelCurrIf fun r => c.bssIndex r = b
  unfold Engine.cancelBssPendingCmd
  generalize (s.cancelCurrIf fun r => c.bssIndex r = b) = u at hcurr hpu
  have huse : Accounted c u.usePending [] := hcurr.uses _ fun r hr => by
    obtain ⟨i, -, hi⟩ := mem_filterMap.mp hr
    exact hcurr.slot_not_completed (i := i) hi
  have hout : ∀ q, Accounted c { u.usePending with pendingQ := q } [] := fun _ =>
    ⟨huse.balanced, huse.attach, huse.silent⟩
  exact (hout _).cancelAll (pending_owned hpu _)

theorem cancelPendingScanCmd (h : Accounted c s []) :
    Accounted c (s.cancelPendingScanCmd c) [] := by
  have hcurr := h.cancelCurrIf hp c.isScan
  have hpu := hp.cancelCurrIf c.isScan
  unfold Engine.cancelPendingScanCmd
  generalize s.cancelCurrIf c.isScan = u at hcurr hpu
  have hout : ∀ q, Accounted c { u with pendingQ := q } [] := fun _ =>
    ⟨hcurr.balanced, hcurr.attach, hcurr.silent⟩
  exact (hout _).freeAll (pending_owned hpu _)

/-- Of the pending commands, at most one has the request. -/
theorem pending_single (h : Accounted c s taken) (r : ℕ) :
    (∀ i ∈ s.pendingQ, s.slot i ≠ some r) ∨
      ∃ i, s.pendingQ.filter (fun i => decide (s.slot i = some r)) = [i] ∧ i ∈ s.owned c ∧ s.slot i = some r := by
  have hnodup : s.pendingQ.Nodup := nodup_iff_count_le_one.mpr fun i => by
    have htotal := hp.total i
    simp only [Engine.places, count_append] at htotal
    split_ifs at htotal <;> omega
  have hmem : ∀ i ∈ s.pendingQ.filter (fun i => decide (s.slot i = some r)), i ∈ s.owned c ∧ s.slot i = some r :=
    fun i hi => ⟨pending_owned hp _ i hi, of_decide_eq_true (mem_filter.mp hi).2⟩
  have hnd := hnodup.filter fun i => decide (s.slot i = some r)
  cases hq : s.pendingQ.filter (fun i => decide (s.slot i = some r)) with
  | nil =>
    refine .inl fun i hi hr => ?_
    have hin : i ∈ s.pendingQ.filter (fun i => decide (s.slot i = some r)) := by simp [hi, hr]
    simp [hq] at hin
  | cons i l =>
    rw [hq] at hmem hnd
    obtain ⟨hi, hri⟩ := hmem i mem_cons_self
    cases l with
    | nil => exact .inr ⟨i, rfl, hi, hri⟩
    | cons j l =>
      obtain ⟨hj, hrj⟩ := hmem j (by simp)
      have hij := h.balanced.unique hi hj hri hrj
      simp [hij] at hnd

end

/-- A request that was found is completed, now or later. -/
theorem found (h : Accounted c s [r]) :
    Accounted c (if c.isScan r then { s with cancelling := r :: s.cancelling }
      else (s.setStatus r .cmdCancel).complete r false) [] := by
  split_ifs
  · exact h.postpone
  · have hstatus := h.setStatusOf (o := some r) .cmdCancel fun r' hr' => by
      obtain rfl := some.inj hr'
      exact h.not_completed (by simp)
    exact hstatus.complete false

/-- The command has the request, and no pending one. -/
theorem takeCurrIoctl (hp : Pool c g s []) (h : Accounted c s []) (hcurr : s.curr = some i) (hr : s.slot i = some r) :
    Accounted c (s.takeCurrIoctl r) [r] := by
  unfold Engine.takeCurrIoctl
  rw [hcurr]
  dsimp only
  rw [if_pos (show (s.node i).pioctlBuf = some r from hr)]
  exact h.take (curr_owned hp i hcurr) hr rfl

theorem cancelPendingIoctl (hp : Pool c g s []) (h : Accounted c s []) (hr : r ∉ completions s.log) :
    Accounted c (s.cancelPendingIoctl c r) [] := by
  have huses : ∀ {v : Engine} {taken}, completions v.log = completions s.log → Accounted c v taken →
      Accounted c (v.useOf (some r)) taken := fun hv h => h.useOf fun r' hr' => by
    obtain rfl := some.inj hr'
    rwa [hv]
  have hpu := (hp.takeCurrIoctl r).told (Engine.told_useOf _ (some r))
  unfold Engine.cancelPendingIoctl
  dsimp only
  by_cases hcurr : s.curr.any (fun i => decide ((s.node i).pioctlBuf = some r)) = true
  · -- the current command has it : then no pending one has
    obtain ⟨i, hi, hri⟩ := (Option.any_eq_true _ _).mp hcurr
    have hri' := of_decide_eq_true hri
    have htake := huses (by simp [Engine.takeCurrIoctl, hi, hri', Engine.setNode]) (h.takeCurrIoctl hp hi hri')
    generalize (s.takeCurrIoctl r).useOf (some r) = u at hpu htake
    have hnone : u.pendingQ.filter (fun i => decide ((u.node i).pioctlBuf = some r)) = [] := by
      refine filter_eq_nil_iff.mpr fun j hj hrj => ?_
      have hj' : j ∈ u.owned c := hpu.mem_owned (by simp [Engine.places, hj])
      exact htake.balanced.not_mem_out hj' (of_decide_eq_true hrj) (by simp [Engine.out])
    rw [hnone, hcurr, Bool.true_or, if_pos rfl]
    have hout : ∀ q, Accounted c { u with pendingQ := q } [r] := fun _ =>
      ⟨htake.balanced, htake.attach, htake.silent⟩
    exact (hout _).found
  · have hsame : s.takeCurrIoctl r = s := by
      unfold Engine.takeCurrIoctl
      split
      · next i hi =>
        rw [if_neg fun hri => hcurr (by simp [hi, hri])]
      · rfl
    have huse := huses rfl h
    rw [hsame] at hpu ⊢
    rw [Bool.eq_false_iff.mpr hcurr, Bool.false_or]
    generalize s.useOf (some r) = u at hpu huse
    have hout : ∀ q, Accounted c { u with pendingQ := q } [] := fun _ =>
      ⟨huse.balanced, huse.attach, huse.silent⟩
    rcases huse.pending_single hpu r with hno | ⟨i, hq, hi, hri⟩
    · have hnone : u.pendingQ.filter (fun i => decide ((u.node i).pioctlBuf = some r)) = [] :=
        filter_eq_nil_iff.mpr fun j hj hrj => hno j hj (of_decide_eq_true hrj)
      have hany : u.pendingQ.any (fun i => decide ((u.node i).pioctlBuf = some r)) = false :=
        any_eq_false.mpr fun j hj hrj => hno j hj (of_decide_eq_true hrj)
      rw [hnone, hany, if_neg (by simp)]
      exact ⟨huse.balanced, huse.attach, huse.silent⟩
    · have hany : u.pendingQ.any (fun i => decide ((u.node i).pioctlBuf = some r)) = true := by
        have hin : i ∈ u.pendingQ.filter (fun i => decide (u.slot i = some r)) := by simp [hq]
        exact any_eq_true.mpr ⟨i, (mem_filter.mp hin).1, (mem_filter.mp hin).2⟩
      have hq' : u.pendingQ.filter (fun i => decide ((u.node i).pioctlBuf = some r)) = [i] := hq
      rw [hq', hany, if_pos rfl]
      have htake := (hout (u.pendingQ.filter fun i => !decide ((u.node i).pioctlBuf = some r))).take
        (n := { u.node i with pioctlBuf := none }) hi hri rfl
      exact (htake.insertCmdToFreeQ hi).found

theorem endCancelIoctl (h : Accounted c s []) (hs : s.endCancelIoctl r = some u) : Accounted c u [] := by
  unfold Engine.endCancelIoctl at hs
  obtain ⟨hr, rfl⟩ := System.of_guard hs
  have htake : Accounted c { s with cancelling := s.cancelling.erase r } [r] := by
    refine ⟨h.balanced.perm ?_, h.attach, h.silent⟩
    refine perm_iff_count.mpr fun r' => ?_
    have hcount := (perm_cons_erase hr).count_eq r'
    simp only [Engine.out, count_append, count_cons, count_nil] at hcount ⊢
    omega
  have hstatus := htake.setStatusOf (o := some r) .cmdCancel fun r' hr' => by
    obtain rfl := some.inj hr'
    exact htake.not_completed (by simp)
  exact hstatus.complete false

end Accounted

end WlanDriver.Cmd
