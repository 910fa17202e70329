import WlanDriver.Bridge.Deferred
import WlanDriver.Bridge.Switch

/-!
# The request as a program

`moal_bridge_switch_iface_request` is modelled twice : as one function of the whole state, with the
build and the teardown in full (`switchLocked`), and as a program of locked sections that other
parties can interrupt, with the bridge cut down to two flags (`SwitchPc`). Here the two are the same
request : whatever the function meets, the program has a run, with the edges that the function's
builds receive as steps of the notifier, that ends with the function's result and shows the function's
final state (`switchLocked_refines`). So what is proved of every interleaving of the program covers
every request as the function computes it.
-/

namespace WlanDriver.Bridge

/-- The flags of `s` show the bridge and the pending request of `g`. -/
structure Shows (s : DeferState) (g : Global) : Prop where
  pend : s.pend = g.pend
  owner : s.owner = g.owner.isSome
  published : s.published = g.instanceActive
  notifier : s.notifier = .idle

/-- A run leads to a state that shows `g`, where the operation is at `op`. -/
def Leads (s : DeferState) (g : Global) (op : OpPc) : Prop :=
  ∃ s', deferSystem.Reaches s s' ∧ Shows s' g ∧ s'.op = op

section Program

variable {s : DeferState} {g : Global} {w : Bool} {r : SwitchReq} {pc : SwitchPc}

/-! ## Single steps -/

theorem reaches_switchStep (hop : s.op = .switch w r pc) (hn : s.notifier = .idle) (o : Oracle) :
    deferSystem.Reaches s (switchStep s w r o pc) := by
  refine .of_step (.op o) ?_
  simp [deferSystem, deferStep, opStep, hop, hn, opNext]

theorem reaches_setDeferred (s : DeferState) (b : Bool) :
    deferSystem.Reaches s { s with deferred := b } :=
  .of_step (.setDeferred b) rfl

/-- The notifier of a published instance passes an edge on. -/
theorem reaches_readiness (hn : s.notifier = .idle) (hr : s.op.holdsRtnl = false)
    (hp : s.published = true) (n : IfName) :
    ∃ s', deferSystem.Reaches s s' ∧ s'.pend = s.pend.pendingReadiness s.deferred n true ∧
      s'.owner = s.owner ∧ s'.published = s.published ∧ s'.notifier = .idle ∧ s'.op = s.op := by
  have hread : deferStep s (.readiness n) = some { s with notifier := .readiness n true } := by
    simp [deferStep, hn, hr, hp]
  have hdeliver : deferStep { s with notifier := .readiness n true } .deliver = some { s with
      pend := s.pend.pendingReadiness s.deferred n true
      notifier := .idle
      edgeSince := s.edgeSince || decide (s.pend.state ≠ .none ∧ s.pend.ifname = n) } := rfl
  exact ⟨_, .trans (.of_step (.readiness n) hread) (.of_step .deliver hdeliver), rfl, rfl, rfl, rfl,
    rfl⟩

/-- What the live instance of a build receives, as steps of the notifier. -/
theorem reaches_live (l : List Site.Async) (s : DeferState) (hn : s.notifier = .idle)
    (hr : s.op.holdsRtnl = false) (hp : s.published = true) :
    ∃ s', deferSystem.Reaches s s' ∧ s'.pend = l.foldl (Site.Async.pend true) s.pend ∧
      s'.owner = s.owner ∧ s'.published = true ∧ s'.notifier = .idle ∧ s'.op = s.op := by
  induction l generalizing s with
  | nil => exact ⟨s, .refl, rfl, rfl, hp, hn, rfl⟩
  | cons a l ih =>
    obtain ⟨s₁, h₁, hp₁, ho₁, hpub₁, hn₁, hop₁⟩ : ∃ s', deferSystem.Reaches s s' ∧
        s'.pend = a.pend true s.pend ∧ s'.owner = s.owner ∧ s'.published = true ∧
        s'.notifier = .idle ∧ s'.op = s.op := by
      cases a with
      | releaseWork => exact ⟨s, .refl, rfl, rfl, hp, hn, rfl⟩
      | event w d k =>
        simp only [Site.Async.pend, Site.readiness]
        split_ifs
        · obtain ⟨s', h, hp', ho, hpub, hn', hop⟩ :=
            reaches_readiness (s := { s with deferred := w.deferred }) hn hr hp (w.name d)
          exact ⟨s', .trans (reaches_setDeferred s _) h, hp', ho, hpub.trans hp, hn', hop⟩
        · exact ⟨s, .refl, rfl, rfl, hp, hn, rfl⟩
    obtain ⟨s₂, h₂, hp₂, ho₂, hpub₂, hn₂, hop₂⟩ := ih s₁ hn₁ (hop₁ ▸ hr) hpub₁
    exact ⟨s₂, .trans h₁ h₂, by rw [hp₂, hp₁]; rfl, ho₂.trans ho₁, hpub₂, hn₂, hop₂.trans hop₁⟩

/-! ## A binding -/

/-- The program counters of a build, its validation and its teardown, as the target and the rollback
have them. -/
structure BindPcs (w : Bool) (r : SwitchReq) (start check ok : SwitchPc) (undo fail : ℤ → SwitchPc) :
    Prop where
  build : ∀ s o, switchStep s w r o start =
    if buildRet s o = 0 then { s with published := true, op := .switch w r check }
    else { s with op := .switch w r (fail (buildRet s o)) }
  validate : ∀ s o, switchStep s w r o check =
    { s with op := .switch w r (if o.ret = 0 then ok else undo o.ret) }
  unbuild : ∀ s o e, switchStep s w r o (undo e) =
    { s with published := false, op := .switch w r (fail e) }
  rtnl : (OpPc.switch w r check).holdsRtnl = false

theorem bindPcs_target (w : Bool) (r : SwitchReq) (c : Capture) :
    BindPcs w r (.build c) (.validate c) (.commit c) (.unbuild c) (.rollback c) :=
  ⟨fun _ _ => rfl, fun _ _ => rfl, fun _ _ _ => rfl, rfl⟩

theorem bindPcs_rollback (w : Bool) (r : SwitchReq) (c : Capture) (e : ℤ) :
    BindPcs w r (.rollback c e) (.rollbackValidate c e) (.restored c e)
      (fun _ => .rollbackUnbuild c e) (fun _ => .lost c e) :=
  ⟨fun _ _ => rfl, fun _ _ => rfl, fun _ _ _ => rfl, rfl⟩

/-- A binding of the function is a run of the program. -/
theorem bind_refines {start check ok : SwitchPc} {undo fail : ℤ → SwitchPc}
    (hpcs : BindPcs w r start check ok undo fail) {e : BindEnv} {a : InitArgs} {t : Option Target}
    {peer : Dev} {q : ℤ × Global} (hg : g.Vacant) (hs : Shows s g) (hop : s.op = .switch w r start)
    (hq : BindResult e a t peer g q) :
    Leads s q.2 (.switch w r (if q.1 = 0 then ok else fail q.1)) := by
  have hdown : s.published = false := hs.published.trans hg.instanceActive
  -- A build that succeeds, and what its instance receives.
  have hbuilt : ∃ s', deferSystem.Reaches s s' ∧ s'.pend = e.init.livePend g.pend ∧
      s'.owner = s.owner ∧ s'.published = true ∧ s'.notifier = .idle ∧
      s'.op = .switch w r check := by
    have hstep := reaches_switchStep hop hs.notifier {}
    rw [hpcs.build, if_pos (by simp [buildRet, hdown])] at hstep
    obtain ⟨s', h, hp, ho, hpub, hn, hop'⟩ := reaches_live e.init.live
      { s with published := true, op := .switch w r check } hs.notifier hpcs.rtnl rfl
    refine ⟨s', .trans hstep h, ?_, ho, hpub, hn, hop'⟩
    rw [hp, InitEnv.livePend, ← hs.pend]
  cases hq with
  | @unbuilt ret hret =>
    have hbuild : buildRet s { ret := ret } = ret := by simp [buildRet, hdown]
    have hstep := reaches_switchStep hop hs.notifier { ret := ret }
    rw [hpcs.build, hbuild, if_neg hret] at hstep
    refine ⟨_, hstep, { hs with }, ?_⟩
    rw [if_neg hret]
  | @undone ret hret =>
    obtain ⟨s₁, h₁, hp₁, ho₁, hpub₁, hn₁, hop₁⟩ := hbuilt
    have hcheck := reaches_switchStep hop₁ hn₁ { ret := ret }
    rw [hpcs.validate] at hcheck
    dsimp only at hcheck
    rw [if_neg hret] at hcheck
    have hundo := reaches_switchStep (s := { s₁ with op := .switch w r (undo ret) }) rfl hn₁ {}
    rw [hpcs.unbuild] at hundo
    refine ⟨_, .trans h₁ (.trans hcheck hundo), ⟨hp₁, ho₁.trans hs.owner, ?_, hn₁⟩, ?_⟩
    · exact hg.instanceActive.symm
    · rw [if_neg hret]
  | bound ht hbr hv =>
    obtain ⟨s₁, h₁, hp₁, ho₁, hpub₁, hn₁, hop₁⟩ := hbuilt
    have hcheck := reaches_switchStep hop₁ hn₁ {}
    rw [hpcs.validate] at hcheck
    exact ⟨_, .trans h₁ hcheck, ⟨hp₁, ho₁.trans hs.owner, hpub₁, hn₁⟩, rfl⟩

/-- What a failed binding leaves. -/
theorem BindResult.vacant {e : BindEnv} {a : InitArgs} {t : Option Target} {peer : Dev}
    {q : ℤ × Global} (hq : BindResult e a t peer g q) (hg : g.Vacant) (hret : q.1 ≠ 0) :
    q.2.Vacant := by
  cases hq with
  | unbuilt _ => exact hg
  | undone _ => exact hg
  | bound _ _ _ => exact absurd rfl hret

/-! ## The transaction -/

variable {h : Handle} {br : Instance} {t : Target} {n : IfName} {allowDefer : Bool} {expected : ℕ}

theorem transact_refines (e : SwitchEnv) (p : Pending) (hg : g.Owned h br) (hs : Shows s g)
    (hop : s.op = .switch w ⟨n, allowDefer, expected⟩ (.teardown p.capture)) :
    Leads s (transact e g h br t n expected p).2
      (.switch w ⟨n, allowDefer, expected⟩ (.done (transact e g h br t n expected p).1)) := by
  have htorn : tornDown e g h = g.vacate h br := by
    rw [tornDown, deinitLocked_eq hg.bridge, Global.vacate]
  have hbind := bindLocked_result (a := targetArgs br t) (t := some t) (g := g.vacate h br) e.target
    br.peerDev hg.drop (fun t' ht => by cases ht; rfl)
  have hdown := reaches_switchStep hop hs.notifier {}
  obtain ⟨s₁, h₁, hs₁, hop₁⟩ := bind_refines (bindPcs_target w ⟨n, allowDefer, expected⟩ p.capture)
    (s := switchStep s w ⟨n, allowDefer, expected⟩ {} (.teardown p.capture)) hg.drop
    ⟨hs.pend, rfl, rfl, hs.notifier⟩ rfl hbind
  unfold transact bindTarget
  rw [htorn]
  generalize bindLocked e.target (targetArgs br t) (some t) br.peerDev (g.vacate h br) = q
    at hbind hs₁ hop₁
  by_cases hq : q.1 = 0
  · rw [if_pos hq] at hop₁
    have hcommit := reaches_switchStep hop₁ hs₁.notifier {}
    dsimp only
    rw [if_pos hq]
    refine ⟨_, .trans hdown (.trans h₁ hcommit), ⟨?_, rfl, hs₁.published, hs₁.notifier⟩, rfl⟩
    simp only [switchStep, Pending.capture, hs₁.pend]
  rw [if_neg hq] at hop₁
  dsimp only
  rw [if_neg hq]
  unfold bindOld
  have hold := bindLocked_result (a := rollbackArgs br h (g.effIdx h))
    (t := rollbackTarget e.rollback.check q.2.toSlots h (g.effIdx h)) e.rollback br.peerDev
    (hbind.vacant hg.drop hq) (fun t' ht => handle_rollbackTarget ht)
  obtain ⟨s₂, h₂, hs₂, hop₂⟩ := bind_refines (bindPcs_rollback _ _ _ _) (hbind.vacant hg.drop hq) hs₁
    hop₁ hold
  generalize bindLocked e.rollback _ _ _ _ = q' at hs₂ hop₂
  by_cases hq' : q'.1 = 0
  · rw [if_pos hq'] at hop₂
    rw [if_pos hq']
    have hset := reaches_setDeferred s₂ e.rollback.check.deferred
    have hrestored := reaches_switchStep (s := { s₂ with deferred := e.rollback.check.deferred }) hop₂
      hs₂.notifier {}
    refine ⟨_, .trans hdown (.trans h₁ (.trans h₂ (.trans hset hrestored))),
      ⟨?_, rfl, hs₂.published, hs₂.notifier⟩, rfl⟩
    simp only [switchStep, hs₂.pend]
  · rw [if_neg hq'] at hop₂
    rw [if_neg hq']
    have hlost := reaches_switchStep hop₂ hs₂.notifier {}
    refine ⟨_, .trans hdown (.trans h₁ (.trans h₂ hlost)), ⟨?_, rfl, hs₂.published, hs₂.notifier⟩, rfl⟩
    simp only [switchStep, hs₂.pend]

/-! ## The request -/

/-- Every look at the target is a step of the program. -/
theorem reaches_sample {c : Capture} {same : Bool} (hs : Shows s g)
    (hop : s.op = .switch w r (.sample c same)) (deferred : Bool) (o : Oracle) :
    Leads s g (.switch w r (sampleNext r deferred c same o)) := by
  have hset := reaches_setDeferred s deferred
  have hsample := reaches_switchStep (s := { s with deferred := deferred }) hop hs.notifier o
  exact ⟨_, .trans hset hsample, { hs with }, rfl⟩

/-- The part of the request behind its checks of the target and of the peer. -/
theorem switchPinned_refines (e : SwitchEnv) (hg : g.Owned h br) (hs : Shows s g) {same : Bool}
    {o : Oracle} (hlook : o.lookup = 0) (hid : same = true → o.identity = true)
    (hpeer : o.peerReady = true) (hlink : o.link = targetLinkStatus e.look t)
    (hop : s.op = .switch w ⟨n, allowDefer, expected⟩
      (sampleNext ⟨n, allowDefer, expected⟩ e.look.deferred g.pend.capture same o)) :
    Leads s (switchPinned e g h br t n allowDefer expected same).2
      (.switch w ⟨n, allowDefer, expected⟩ (.done (switchPinned e g h br t n allowDefer expected same).1)) := by
  have hchecks : ¬(same = true ∧ ¬o.identity = true) := fun hc => hc.2 (hid hc.1)
  unfold sampleNext at hop
  rw [if_neg (not_not.mpr hlook), if_neg hchecks, if_neg (not_not.mpr hpeer), hlink] at hop
  unfold switchPinned
  split_ifs at hop ⊢ with hl hdefer hgen hsame
  · -- A disabled worker admits nothing.
    have hsame : (g.pend.pendingSet n).2 = g.pend := by
      rcases g.pend.pendingSet_cases n with ⟨-, hset⟩ | ⟨-, hset⟩
      · simp [hset] at hgen
      · rw [hset]
    have hset := reaches_switchStep hop hs.notifier {}
    refine ⟨_, hset, ⟨?_, hs.owner, hs.published, hs.notifier⟩, ?_⟩
    · simp only [switchStep, hs.pend, hsame]
    · simp only [switchStep, hs.pend, if_pos hgen]
  · have hset := reaches_switchStep hop hs.notifier {}
    refine ⟨_, hset, ⟨?_, hs.owner, hs.published, hs.notifier⟩, ?_⟩
    · simp only [switchStep, hs.pend]
    · simp only [switchStep, hs.pend, if_neg hgen]
  · exact ⟨s, .refl, hs, hop⟩
  · exact ⟨s, .refl, hs, hop⟩
  · exact transact_refines e g.pend hg hs hop

/-- The first sections of the request : it returns at once, or its capture shows what is pending. -/
theorem reaches_recheck (hs : Shows s g) (ho : g.owner = some h)
    (hop : s.op = .switch w r .locked) :
    Leads s g (.switch w r
      (if r.expected ≠ 0 ∧ ¬g.pend.pendingMatches r.ifname r.expected then .done (-ecanceled)
        else .sameTarget g.pend.capture)) := by
  have howner : s.owner = true := by rw [hs.owner, ho, Option.isSome_some]
  have hlocked := reaches_switchStep hop hs.notifier {}
  simp only [switchStep, if_pos howner] at hlocked
  have hsnap := reaches_switchStep (s := { s with op := .switch w r .snapshot }) rfl hs.notifier {}
  have hcheck := reaches_switchStep
    (s := { s with op := .switch w r (.recheck s.pend.capture) }) rfl hs.notifier {}
  refine ⟨_, .trans hlocked (.trans hsnap hcheck), { hs with }, ?_⟩
  simp only [switchStep, hs.pend]

/-- A request for the owner's own interface cancels what is pending. -/
theorem reaches_ownTarget {same : Bool} (hs : Shows s g)
    (hop : s.op = .switch w r (.sameTarget g.pend.capture))
    (hown : same = true ∧ r.expected = 0 ∧ g.pend.state ≠ .none ∧
      (g.pend.pendingClearIf g.pend.ifname g.pend.generation).1 = true) :
    Leads s { g with pend := (g.pend.pendingClearIf g.pend.ifname g.pend.generation).2 }
      (.switch w r (.done 0)) := by
  obtain ⟨hsame, hexp, hstate, hclear⟩ := hown
  have hstep := reaches_switchStep hop hs.notifier { same := same }
  simp only [switchStep, Pending.capture, hs.pend] at hstep
  rw [if_pos ⟨hsame, hexp, hstate⟩, if_pos hclear] at hstep
  exact ⟨_, hstep, ⟨rfl, hs.owner, hs.published, hs.notifier⟩, rfl⟩

theorem reaches_otherTarget {same : Bool} (hs : Shows s g)
    (hop : s.op = .switch w r (.sameTarget g.pend.capture))
    (hown : ¬(same = true ∧ r.expected = 0 ∧ g.pend.state ≠ .none ∧
      (g.pend.pendingClearIf g.pend.ifname g.pend.generation).1 = true)) :
    Leads s g (.switch w r (.sample g.pend.capture same)) := by
  have hstep := reaches_switchStep hop hs.notifier { same := same }
  simp only [switchStep, Pending.capture, hs.pend] at hstep
  split_ifs at hstep with hc hclear
  · exact absurd ⟨hc.1, hc.2.1, hc.2.2, hclear⟩ hown
  · have hkeep : (g.pend.pendingClearIf g.pend.ifname g.pend.generation).2 = g.pend := by
      rcases g.pend.pendingClearIf_cases g.pend.ifname g.pend.generation with ⟨-, -, -, h⟩ | ⟨-, h⟩
      · simp [h] at hclear
      · rw [h]
    rw [hkeep] at hstep
    exact ⟨_, hstep, ⟨rfl, hs.owner, hs.published, hs.notifier⟩, rfl⟩
  · exact ⟨_, hstep, ⟨rfl, hs.owner, hs.published, hs.notifier⟩, rfl⟩

/-- **The program is the request.** What `switchLocked` computes while `h` owns `br`, the program of
the request reaches. -/
theorem switchLocked_refines (e : SwitchEnv) (hg : g.Owned h br) (hs : Shows s g)
    (hop : s.op = .switch w ⟨n, allowDefer, expected⟩ .locked) :
    Leads s (switchLocked e g h br n allowDefer expected).2
      (.switch w ⟨n, allowDefer, expected⟩ (.done (switchLocked e g h br n allowDefer expected).1)) := by
  obtain ⟨s₁, h₁, hs₁, hop₁⟩ := reaches_recheck hs hg.owner hop
  unfold switchLocked
  dsimp only at hop₁ ⊢
  by_cases hcancel : expected ≠ 0 ∧ ¬g.pend.pendingMatches n expected
  · rw [if_pos hcancel] at hop₁ ⊢
    exact ⟨s₁, h₁, hs₁, hop₁⟩
  rw [if_neg hcancel] at hop₁ ⊢
  by_cases hown : (e.look.name br.wlanDev == n) = true ∧ expected = 0 ∧ g.pend.state ≠ .none ∧
      (g.pend.pendingClearIf g.pend.ifname g.pend.generation).1 = true
  · rw [if_pos hown]
    obtain ⟨s₂, h₂, hs₂, hop₂⟩ := reaches_ownTarget hs₁ hop₁ hown
    exact ⟨s₂, .trans h₁ h₂, hs₂, hop₂⟩
  rw [if_neg hown]
  obtain ⟨s₂, h₂, hs₂, hop₂⟩ := reaches_otherTarget hs₁ hop₁ hown
  cases htarget : findTarget e.look g.toSlots n with
  | error ret =>
    obtain ⟨s₃, h₃, hs₃, hop₃⟩ := reaches_sample hs₂ hop₂ e.look.deferred { lookup := ret }
    refine ⟨s₃, .trans h₁ (.trans h₂ h₃), hs₃, ?_⟩
    rw [hop₃, sampleNext, if_pos (findTarget_error htarget)]
  | ok t =>
    obtain ⟨s₃, h₃, hs₃, hop₃⟩ := reaches_sample hs₂ hop₂ e.look.deferred
      { identity := decide (t.handle = h ∧ t.dev = br.wlanDev)
        link := targetLinkStatus e.look t
        peerReady := peerUsable e.look br
        peerReleased := br.peerReleased || e.releasedSince }
    dsimp only
    by_cases hid : (e.look.name br.wlanDev == n) = true ∧ (t.handle ≠ h ∨ t.dev ≠ br.wlanDev)
    · rw [if_pos hid]
      refine ⟨s₃, .trans h₁ (.trans h₂ h₃), hs₃, ?_⟩
      rw [hop₃, sampleNext, if_neg (by simp), if_pos ⟨hid.1, by simpa [imp_iff_not_or] using hid.2⟩]
    rw [if_neg hid]
    have hidentity : (e.look.name br.wlanDev == n) = true → t.handle = h ∧ t.dev = br.wlanDev := by
      intro hsame
      simpa [hsame] using hid
    by_cases hpeer : peerUsable e.look br = true
    · rw [if_neg (not_not.mpr hpeer)]
      obtain ⟨s₄, h₄, hs₄, hop₄⟩ := switchPinned_refines (g := g.pin br.peerDev) e hg
        { hs₃ with } rfl
        (fun hsame => decide_eq_true (hidentity hsame)) hpeer rfl hop₃
      exact ⟨s₄, .trans h₁ (.trans h₂ (.trans h₃ h₄)),
        { hs₄ with }, hop₄⟩
    · rw [if_pos hpeer]
      refine ⟨s₃, .trans h₁ (.trans h₂ h₃), hs₃, ?_⟩
      rw [hop₃, sampleNext, if_neg (by simp), if_neg (by simpa using hidentity), if_pos hpeer]
      simp only [Bool.or_eq_true]

end Program

/-- A request for `mlan1` while `mlan0` is bridged. -/
theorem switchLocked_refines_pair : ∃ br s, Leads s (switchLocked pairEnv pairState 0 br mlan1 true 0).2
    (.switch true ⟨mlan1, true, 0⟩ (.done (switchLocked pairEnv pairState 0 br mlan1 true 0).1)) := by
  obtain ⟨br, hbr⟩ := pairState_owned
  exact ⟨br, ⟨pairState.pend, false, pairState.owner.isSome, pairState.instanceActive, .idle,
    .switch true ⟨mlan1, true, 0⟩ .locked, .idle, false, false⟩,
    switchLocked_refines pairEnv hbr ⟨rfl, rfl, rfl, rfl⟩ rfl⟩

end WlanDriver.Bridge
