import WlanDriver.Cmd.Engine

/-!
# Conservation of the command nodes

`Pool` counts, for each node, the places it is in : the queues, `curr_cmd`, the hands of `wlan_prepare_cmd` and of the
main process, and those of a function that has unlinked it and has not put it back yet. Each operation has one lemma;
the loops go by induction on the nodes they unlink.

`nodes_conserved` : a node is lost exactly if its command buffer cannot be allocated, and a response buffer exactly if
another one is attached while the current command still has it.
-/

namespace WlanDriver.Cmd

open List Option WlanDriver.System

/-! ## What the operations change -/

namespace Engine

variable (s : Engine) (i r : ℕ) (o : Option ℕ) (e : Err)

/-- Only the requests and their history differ. -/
def Told (s u : Engine) : Prop :=
  ∃ f l, u = { s with statusCode := f, log := l }

theorem told_setStatusOf : s.Told (s.setStatusOf o e) := by
  cases o with
  | none => exact ⟨s.statusCode, s.log, rfl⟩
  | some r => exact ⟨_, _, rfl⟩

theorem told_useOf : s.Told (s.useOf o) :=
  ⟨_, _, rfl⟩

theorem Told.trans {s u v : Engine} (h : s.Told u) (h' : u.Told v) : s.Told v := by
  obtain ⟨f, l, rfl⟩ := h
  obtain ⟨f', l', rfl⟩ := h'
  exact ⟨f', l', rfl⟩

theorem insertCmdToFreeQ_eq : ∃ l, s.insertCmdToFreeQ i =
    { s with
      log := l
      node := Function.update s.node i (s.node i).clean
      released := s.released ++ (s.node i).respbuf.toList.map RespBuf.id
      freeQ := s.freeQ ++ [i] } := by
  unfold insertCmdToFreeQ
  cases (s.node i).pioctlBuf with
  | none => exact ⟨_, rfl⟩
  | some r => exact ⟨_, rfl⟩

theorem cancelIoctl_eq : ∃ f l, s.cancelIoctl i =
    { s with
      node := Function.update s.node i { s.node i with pioctlBuf := none }
      statusCode := f
      log := l } := by
  unfold cancelIoctl
  cases h : (s.node i).pioctlBuf with
  | none =>
    have hnode : { s.node i with pioctlBuf := none } = s.node i := by rw [← h]
    exact ⟨s.statusCode, s.log, by rw [hnode, Function.update_eq_self]⟩
  | some r => exact ⟨_, _, rfl⟩

/-- The node goes to one end of the queue. -/
theorem insertCmdToPendingQ_eq (addTail : Bool) :
    ∃ q, s.insertCmdToPendingQ i addTail = { s with pendingQ := q } ∧ q.Perm (i :: s.pendingQ) := by
  unfold insertCmdToPendingQ
  split_ifs
  · exact ⟨_, rfl, perm_append_singleton i s.pendingQ⟩
  · exact ⟨_, rfl, .refl _⟩

theorem freeCurr_main : s.freeCurr.main = s.main := by
  unfold freeCurr
  split
  · next i _ =>
    obtain ⟨l, heq⟩ := s.insertCmdToFreeQ_eq i
    rw [heq]
  · rfl

end Engine

/-! ## The pool -/

/-- The node that the main process has in its hands. -/
def MainPc.holds : MainPc → List ℕ
  | .sending i => [i]
  | _ => []

/-- The nodes in all the places. -/
def Engine.places (s : Engine) : List ℕ :=
  s.freeQ ++ s.pendingQ ++ s.scanQ ++ s.extQ ++ s.curr.toList ++ s.prep ++ s.main.holds

/-- The response buffer of the current command. -/
def Engine.attached (s : Engine) : List ℕ :=
  s.curr.toList.filterMap fun i => (s.node i).respbuf.map RespBuf.id

theorem Engine.attached_of_curr {s : Engine} {i : ℕ} (h : s.curr = some i) :
    s.attached = (s.node i).respbuf.toList.map RespBuf.id := by
  cases hr : (s.node i).respbuf <;> simp [Engine.attached, h, hr]

/-- Each node of the pool is in one place, lost, or one of `hands`. A free node has no request, and only the current
command may have a response buffer. `g` : the nodes and the response buffers that are gone. -/
structure Pool (c : EngineCfg) (g : List ℕ × List ℕ) (s : Engine) (hands : List ℕ) : Prop where
  total : ∀ j, (s.places ++ s.lost ++ hands).count j = if j < c.numCmdBuffer then 1 else 0
  clean : ∀ j ∈ s.freeQ, (s.node j).pioctlBuf = none
  bare : ∀ j, s.curr ≠ some j → (s.node j).respbuf = none
  sole : ∀ j, s.main = .sending j → s.curr = none
  gone : (s.lost, s.overwritten) = g
  bufs : (s.released ++ s.attached ++ s.overwritten).Perm s.received

/-- What is gone behind a step : a node that is taken without a command buffer on a USB card, and a response buffer that
another one replaces. -/
def Op.gone (c : EngineCfg) (s : Engine) (g : List ℕ × List ℕ) : Op → List ℕ × List ℕ
  | .getCmdNode _ allocOk => if c.usb && !allocOk then (g.1 ++ s.freeQ.take 1, g.2) else g
  | .recvResp _ => (g.1, g.2 ++ s.attached)
  | _ => g

namespace Pool

variable {c : EngineCfg} {g : List ℕ × List ℕ} {s u : Engine} {hands hands' : List ℕ} {i : ℕ}

theorem told (h : Pool c g s hands) (ht : s.Told u) : Pool c g u hands := by
  obtain ⟨f, l, rfl⟩ := ht
  exact { h with }

theorem attached_congr (hcurr : u.curr = s.curr) (hresp : ∀ j, (u.node j).respbuf = (s.node j).respbuf) :
    u.attached = s.attached := by
  simp only [Engine.attached, hcurr, hresp]

/-- Nodes change their places. -/
theorem move (h : Pool c g s hands)
    (htotal : ∀ j, (u.places ++ u.lost ++ hands').count j = (s.places ++ s.lost ++ hands).count j)
    (hfree : u.freeQ ⊆ s.freeQ)
    (hrest : u.node = s.node ∧ u.curr = s.curr ∧ u.main = s.main ∧ u.released = s.released ∧
      (u.lost, u.overwritten) = (s.lost, s.overwritten) ∧ u.received = s.received) :
    Pool c g u hands' := by
  obtain ⟨hnode, hcurr, hmain, hrel, hgone, hrecv⟩ := hrest
  refine ⟨fun j => (htotal j).trans (h.total j), fun j hj => hnode ▸ h.clean j (hfree hj),
    fun j hj => hnode ▸ h.bare j (hcurr ▸ hj), fun j hj => hcurr ▸ h.sole j (hmain ▸ hj), hgone.trans h.gone, ?_⟩
  rw [attached_congr hcurr fun j => by rw [hnode], hrel, (Prod.mk.inj hgone).2, hrecv]
  exact h.bufs

/-- The main process goes on with nothing in its hands. -/
theorem setMain (h : Pool c g s hands) (m : MainPc) (hs : s.main.holds = []) (hm : m.holds = []) :
    Pool c g { s with main := m } hands := by
  refine ⟨fun j => ?_, h.clean, h.bare, fun j hj => ?_, h.gone, h.bufs⟩
  · rw [← h.total j, Engine.places, Engine.places, hs, hm]
  · have hj' : m = .sending j := hj
    rw [hj'] at hm
    simp [MainPc.holds] at hm

theorem setNode (h : Pool c g s hands) (n : CmdNode) (hreq : n.pioctlBuf = none ∨ i ∉ s.freeQ)
    (hresp : n.respbuf = (s.node i).respbuf) : Pool c g (s.setNode i n) hands := by
  have hresp' : ∀ j, ((s.setNode i n).node j).respbuf = (s.node j).respbuf := fun j => by
    by_cases hji : j = i
    · subst hji
      simpa [Engine.setNode] using hresp
    · simp [Engine.setNode, hji]
  refine ⟨h.total, fun j hj => ?_, fun j hj => (hresp' j).trans (h.bare j hj), h.sole, h.gone, ?_⟩
  · by_cases hji : j = i
    · subst hji
      simpa [Engine.setNode] using hreq.resolve_right fun hn => hn hj
    · simpa [Engine.setNode, hji] using h.clean j hj
  · rw [attached_congr (s := s) (u := s.setNode i n) rfl hresp']
    exact h.bufs

/-- A node in a place other than `cmd_free_q` is not there. -/
theorem not_free (h : Pool c g s hands) {l : List ℕ} (hi : i ∈ l)
    (hl : ∀ j, s.freeQ.count j + l.count j ≤ (s.places ++ s.lost ++ hands).count j) : i ∉ s.freeQ := fun hf => by
  have h1 := count_pos_iff.mpr hf
  have h2 := count_pos_iff.mpr hi
  have h3 := h.total i
  have h4 := hl i
  split_ifs at h3 <;> omega

theorem hand_ne_curr (h : Pool c g s (i :: hands)) : s.curr ≠ some i := fun hc => by
  have h1 := h.total i
  simp only [Engine.places, hc, Option.toList, count_append, count_cons_self, count_nil] at h1
  split_ifs at h1
  omega

theorem insertCmdToFreeQ (h : Pool c g s (i :: hands)) : Pool c g (s.insertCmdToFreeQ i) hands := by
  have hbare := h.bare i h.hand_ne_curr
  obtain ⟨l, heq⟩ := s.insertCmdToFreeQ_eq i
  rw [heq, hbare]
  have hresp : ∀ j, (Function.update s.node i (s.node i).clean j).respbuf = (s.node j).respbuf := fun j => by
    by_cases hji : j = i
    · subst hji
      simp [CmdNode.clean, hbare]
    · simp [hji]
  refine ⟨fun j => ?_, fun j hj => ?_, fun j hj => (hresp j).trans (h.bare j hj), h.sole, h.gone, ?_⟩
  · rw [← h.total j]
    simp only [Engine.places, count_append, count_cons, count_nil]
    omega
  · by_cases hji : j = i
    · subst hji
      simp [CmdNode.clean]
    · simpa [hji] using h.clean j (by simpa [hji] using hj)
  · have hatt := attached_congr (s := s) (u := { s with node := Function.update s.node i (s.node i).clean }) rfl hresp
    have hb := h.bufs
    rw [← hatt] at hb
    simpa [Engine.attached] using hb

theorem cancelIoctl (h : Pool c g s hands) (i : ℕ) : Pool c g (s.cancelIoctl i) hands := by
  obtain ⟨f, l, heq⟩ := s.cancelIoctl_eq i
  have hset : Pool c g (s.setNode i { s.node i with pioctlBuf := none }) hands := h.setNode _ (.inl rfl) rfl
  exact hset.told ⟨f, l, heq⟩

/-- A node comes from the hands to `cmd_pending_q`. -/
theorem insertCmdToPendingQ (h : Pool c g s (i :: hands)) (addTail : Bool) :
    Pool c g (s.insertCmdToPendingQ i addTail) hands := by
  obtain ⟨q, heq, hq⟩ := s.insertCmdToPendingQ_eq i addTail
  rw [heq]
  refine h.move (fun j => ?_) (fun _ hj => hj) ⟨rfl, rfl, rfl, rfl, rfl, rfl⟩
  have := hq.count_eq j
  simp only [Engine.places, count_append, count_cons] at this ⊢
  omega

/-- A loop over nodes in the hands. -/
theorem foldl {f : Engine → ℕ → Engine} (hf : ∀ {s i hands}, Pool c g s (i :: hands) → Pool c g (f s i) hands) :
    ∀ {l : List ℕ} {s : Engine}, Pool c g s (l ++ hands) → Pool c g (l.foldl f s) hands
  | [], _, h => h
  | _ :: l, _, h => foldl (l := l) @hf (hf h)

theorem freeAll (h : Pool c g s (l ++ hands)) : Pool c g (s.freeAll l) hands :=
  h.foldl insertCmdToFreeQ

theorem cancelAll (h : Pool c g s (l ++ hands)) : Pool c g (s.cancelAll l) hands :=
  h.foldl fun h => (h.cancelIoctl _).insertCmdToFreeQ

theorem freeCurr (h : Pool c g s hands) : Pool c g s.freeCurr hands := by
  unfold Engine.freeCurr
  cases hc : s.curr with
  | none => exact h
  | some i =>
    obtain ⟨l, heq⟩ := s.insertCmdToFreeQ_eq i
    dsimp only
    rw [heq]
    refine ⟨fun j => ?_, fun j hj => ?_, fun j _ => ?_, fun _ _ => rfl, h.gone, ?_⟩
    · rw [← h.total j]
      simp only [Engine.places, hc, Option.toList, count_append, count_cons, count_nil]
      omega
    · by_cases hji : j = i
      · subst hji
        simp [CmdNode.clean]
      · simpa [hji] using h.clean j (by simpa [hji] using hj)
    · by_cases hji : j = i
      · subst hji
        simp [CmdNode.clean]
      · simpa [hji] using h.bare j (by simpa [hc] using Ne.symm hji)
    · have hb := h.bufs
      rw [Engine.attached_of_curr hc] at hb
      simpa [Engine.attached] using hb

/-- Nodes are unlinked, and no longer counted where they were. -/
theorem unlink (h : Pool c g s hands)
    (htotal : ∀ j, (u.places ++ u.lost ++ l).count j = (s.places ++ s.lost).count j)
    (hfree : u.freeQ ⊆ s.freeQ)
    (hrest : u.node = s.node ∧ u.curr = s.curr ∧ u.main = s.main ∧ u.released = s.released ∧
      (u.lost, u.overwritten) = (s.lost, s.overwritten) ∧ u.received = s.received) :
    Pool c g u (l ++ hands) := by
  refine h.move (fun j => ?_) hfree hrest
  rw [← append_assoc, count_append, htotal, ← count_append]

/-! ### Preparation -/

section

variable (h : Pool c g s (i :: hands))

include h

theorem toPrep : Pool c g { s with prep := i :: s.prep } hands := by
  refine h.move (fun j => ?_) (fun _ hj => hj) ⟨rfl, rfl, rfl, rfl, rfl, rfl⟩
  simp only [Engine.places, count_append, count_cons]
  omega

theorem toLost :
    Pool c (g.1 ++ [i], g.2) { s with lost := s.lost ++ [i] } hands := by
  refine ⟨fun j => ?_, h.clean, h.bare, h.sole, by rw [← h.gone], h.bufs⟩
  rw [← h.total j]
  simp only [Engine.places, count_append, count_cons, count_nil]
  omega

theorem toScanQ : Pool c g { s with scanQ := s.scanQ ++ [i] } hands := by
  refine h.move (fun j => ?_) (fun _ hj => hj) ⟨rfl, rfl, rfl, rfl, rfl, rfl⟩
  simp only [Engine.places, count_append, count_cons, count_nil]
  omega

theorem toExtQ : Pool c g { s with extQ := s.extQ ++ [i] } hands := by
  refine h.move (fun j => ?_) (fun _ hj => hj) ⟨rfl, rfl, rfl, rfl, rfl, rfl⟩
  simp only [Engine.places, count_append, count_cons, count_nil]
  omega

theorem hand_not_free : i ∉ s.freeQ :=
  h.not_free (mem_singleton_self i) fun j => by
    simp only [Engine.places, count_append, count_cons, count_nil]
    omega

/-- A node in the hands is changed, but not its response buffer. -/
theorem setHand {n : CmdNode} (hn : n.respbuf = (s.node i).respbuf) :
    Pool c g (s.setNode i n) (i :: hands) :=
  h.setNode n (.inr h.hand_not_free) hn

end

theorem takePrep (h : Pool c g s hands) (hi : i ∈ s.prep) : Pool c g { s with prep := s.prep.erase i } (i :: hands) := by
  refine h.move (fun j => ?_) (fun _ hj => hj) ⟨rfl, rfl, rfl, rfl, rfl, rfl⟩
  have hcount := (perm_cons_erase hi).count_eq j
  simp only [Engine.places, count_append, count_cons] at hcount ⊢
  omega

theorem getCmdNode (h : Pool c g s []) (req : Option ℕ) (allocOk : Bool) :
    Pool c ((Op.getCmdNode req allocOk).gone c s g) (s.getCmdNode c req allocOk) [] := by
  have hgone : (Op.getCmdNode req allocOk).gone c s g =
    if c.usb && !allocOk then (g.1 ++ s.freeQ.take 1, g.2) else g := rfl
  unfold Engine.getCmdNode
  split
  · next hq =>
    have hout : Pool c g { s with issued := s.issued ++ req.toList, refused := s.refused ++ req.toList } [] :=
      { h with }
    have hsame : (Op.getCmdNode req allocOk).gone c s g = g := by
      rw [hgone, hq, take_nil, append_nil, ite_self]
    rw [hsame]
    exact hout.told (Engine.told_setStatusOf ..)
  · next i rest hq =>
    have hout : Pool c g { s with freeQ := rest, issued := s.issued ++ req.toList } [i] := by
      refine h.move (fun j => ?_) (by simp [hq]) ⟨rfl, rfl, rfl, rfl, rfl, rfl⟩
      simp only [Engine.places, hq, count_append, count_cons, count_nil]
      omega
    have hset := hout.setHand (n := { s.node i with pioctlBuf := req }) rfl
    rw [hgone, hq]
    dsimp only
    split_ifs
    · have ht := hset.toLost
      refine Pool.told ?_ (Engine.told_setStatusOf ..)
      exact { ht with }
    · exact hset.toPrep

theorem prepareFails (h : Pool c g s []) (hi : i ∈ s.prep) : Pool c g (s.prepareFails i) [] := by
  have hout := h.takePrep hi
  have hout' : Pool c g { s with prep := s.prep.erase i, refused := s.refused ++ (s.node i).pioctlBuf.toList } [i] :=
    { hout with }
  have hset := hout'.setHand (n := { s.node i with pioctlBuf := none }) rfl
  exact (hset.told (Engine.told_setStatusOf ..)).insertCmdToFreeQ

theorem fill (h : Pool c g s []) (hi : i ∈ s.prep) (cmd : HostCmd) (hostcmd : Bool) :
    Pool c g (s.fill i cmd hostcmd) [i] :=
  (h.takePrep hi).setHand (by rfl)

theorem enqueue (h : Pool c g s [i]) (cmd : HostCmd) (hsCancel : Bool) : Pool c g (s.enqueue c i cmd hsCancel) [] := by
  unfold Engine.enqueue Engine.queueScanCmd Engine.queueCmd
  split_ifs
  · exact h.insertCmdToPendingQ false
  · exact (h.setHand (n := { s.node i with scan := true }) rfl).toScanQ
  · exact h.insertCmdToPendingQ false
  · exact h.toExtQ
  · exact h.insertCmdToPendingQ true

/-! ### Download and responses -/

section

variable (h : Pool c g s [])

include h

theorem execNextCmd (hs : s.execNextCmd = some u) : Pool c g u [] := by
  unfold Engine.execNextCmd at hs
  split at hs
  · next i rest hmain hcurr hq =>
    obtain ⟨-, rfl⟩ := of_guard hs
    refine ⟨fun j => ?_, h.clean, h.bare, fun _ _ => hcurr, h.gone, h.bufs⟩
    rw [← h.total j]
    simp only [Engine.places, hmain, hq, MainPc.holds, count_append, count_cons, count_nil]
    omega
  · simp at hs

theorem dnldCmdToFw (hs : s.dnldCmdToFw = some u) : Pool c g u [] := by
  unfold Engine.dnldCmdToFw at hs
  split at hs
  · next i hmain =>
    have hcurr := h.sole i hmain
    split_ifs at hs
    · obtain rfl := some.inj hs
      have hout : Pool c g { s with main := .idle } [i] := by
        refine ⟨fun j => ?_, h.clean, h.bare, fun _ _ => hcurr, h.gone, h.bufs⟩
        rw [← h.total j]
        simp only [Engine.places, hmain, MainPc.holds, count_append, count_nil]
        omega
      exact (hout.told (Engine.told_setStatusOf ..)).insertCmdToFreeQ
    · obtain rfl := some.inj hs
      have hnot : i ∉ s.freeQ := h.not_free (mem_singleton_self i) fun j => by
        simp only [Engine.places, hmain, MainPc.holds, count_append]
        omega
      have hset := h.setNode (i := i) { s.node i with cmdNo := (s.node i).cmd.command } (.inr hnot) rfl
      refine ⟨fun j => ?_, hset.clean, fun j _ => hset.bare j (by simp [Engine.setNode, hcurr]), fun j hj => ?_, h.gone, ?_⟩
      · rw [← h.total j]
        simp only [Engine.places, Engine.setNode, hmain, hcurr, MainPc.holds, Option.toList, count_append,
          count_nil]
        omega
      · simp at hj
      · have hb := h.bufs
        rw [Engine.attached, hcurr] at hb
        have hbare := h.bare i (by simp [hcurr])
        simpa [Engine.attached, Engine.setNode, hbare] using hb
  · simp at hs

theorem hostToCard {ok : Bool} (hs : s.hostToCard ok = some u) : Pool c g u [] := by
  unfold Engine.hostToCard at hs
  split at hs
  · next i hmain =>
    have hholds : s.main.holds = [] := by rw [hmain]; rfl
    split_ifs at hs
    · obtain rfl := some.inj hs
      exact (h.setMain .dropping hholds rfl).told (Engine.told_setStatusOf ..)
    · obtain rfl := some.inj hs
      exact h.setMain .dropping hholds rfl
    · obtain rfl := some.inj hs
      exact h.setMain .idle hholds rfl
    · obtain rfl := some.inj hs
      have ht := h.setMain .idle hholds rfl
      exact { ht with }
  · simp at hs

theorem drop (hs : s.drop = some u) : Pool c g u [] := by
  unfold Engine.drop at hs
  have hcurr : ∀ m m', s.main = m → m.holds = [] → MainPc.holds m' = [] → Pool c g { s.freeCurr with main := m' } [] :=
    fun m m' hm h0 h0' => by
    refine h.freeCurr.setMain m' ?_ h0'
    rw [s.freeCurr_main, hm, h0]
  split at hs
  · next hmain =>
    obtain rfl := some.inj hs
    exact hcurr _ .idle hmain rfl rfl
  · next ok hmain =>
    obtain rfl := some.inj hs
    exact hcurr _ (.finishing ok) hmain rfl rfl
  · simp at hs

theorem recvResp {b : RespBuf} (hs : s.recvResp b = some u) :
    Pool c ((Op.recvResp b).gone c s g) u [] := by
  unfold Engine.recvResp at hs
  split at hs
  · next i hcurr =>
    obtain rfl := some.inj hs
    have hnot : i ∉ s.freeQ := h.not_free (mem_toList.mpr hcurr) fun j => by
      simp only [Engine.places, count_append]
      omega
    refine ⟨h.total, fun j hj => ?_, fun j hj => ?_, h.sole, ?_, ?_⟩
    · have hji : j ≠ i := fun hji => hnot (hji ▸ hj)
      simpa [Engine.setNode, hji] using h.clean j hj
    · have hji : j ≠ i := fun hji => hj (hji ▸ hcurr)
      simpa [Engine.setNode, hji] using h.bare j hj
    · rw [Op.gone, ← h.gone, Engine.attached_of_curr hcurr]
      rfl
    · have hb := h.bufs
      rw [Engine.attached_of_curr hcurr] at hb
      refine perm_iff_count.mpr fun k => ?_
      have hk := hb.count_eq k
      rw [Engine.attached_of_curr (i := i) (by exact hcurr)]
      simp only [Engine.setNode, Function.update_self, Option.toList, map_cons, map_nil, count_append,
        count_cons, count_nil] at hk ⊢
      omega
  · simp at hs

theorem processCmdresp (hs : s.processCmdresp = some u) : Pool c g u [] := by
  unfold Engine.processCmdresp at hs
  split at hs
  · next hmain =>
    split at hs
    · exact some.inj hs ▸ h
    · split at hs
      · exact some.inj hs ▸ h
      · split at hs
        · exact some.inj hs ▸ h.told (s.told_setStatusOf ..)
        · next i hcurr _ b hresp =>
          split_ifs at hs
          · exact some.inj hs ▸ h
          · obtain rfl := some.inj hs
            have hm := h.setMain (.matched (s.node i).pioctlBuf) (by rw [hmain]; rfl) rfl
            exact { hm with }
  · simp at hs

theorem checkCanceled (hs : s.checkCanceled = some u) : Pool c g u [] := by
  unfold Engine.checkCanceled at hs
  split at hs
  · next cap i hmain hcurr =>
    split_ifs at hs
    · obtain rfl := some.inj hs
      obtain ⟨f, l, heq⟩ := s.told_setStatusOf cap .cmdCancel
      refine (h.told ⟨f, l, heq⟩).freeCurr.setMain .idle ?_ rfl
      rw [Engine.freeCurr_main, heq]
      dsimp only
      rw [hmain]
      rfl
    · obtain rfl := some.inj hs
      exact h.setMain _ (by rw [hmain]; rfl) rfl
  · simp at hs

/-- The current command goes back to `cmd_pending_q`, without its response buffer. -/
theorem requeue (hcurr : s.curr = some i) : Pool c g (s.requeue i) [] := by
  have hnot : i ∉ s.freeQ := h.not_free (mem_toList.mpr hcurr) fun j => by
    simp only [Engine.places, count_append]
    omega
  have hout : Pool c g { s.setNode i { s.node i with respbuf := none } with
      curr := none, released := s.released ++ (s.node i).respbuf.toList.map RespBuf.id } [i] := by
    refine ⟨fun j => ?_, fun j hj => ?_, fun j _ => ?_, fun _ _ => rfl, h.gone, ?_⟩
    · rw [← h.total j]
      simp only [Engine.places, Engine.setNode, hcurr, Option.toList, count_append, count_cons,
        count_nil]
      omega
    · have hji : j ≠ i := fun hji => hnot (hji ▸ hj)
      simpa [Engine.setNode, hji] using h.clean j hj
    · by_cases hji : j = i
      · subst hji
        simp [Engine.setNode]
      · simpa [Engine.setNode, hji] using h.bare j (by simpa [hcurr] using Ne.symm hji)
    · have hb := h.bufs
      rw [Engine.attached_of_curr hcurr] at hb
      simpa [Engine.attached, Engine.setNode] using hb
  exact hout.insertCmdToPendingQ false

theorem handleCmdresp {o : Engine.Outcome} (hs : s.handleCmdresp c o = some u) : Pool c g u [] := by
  unfold Engine.handleCmdresp at hs
  split at hs
  · next cap i hmain hcurr =>
    split at hs
    · simp at hs
    · next b hresp =>
      obtain ⟨v, hv⟩ : ∃ v, v = if (s.node i).hostcmd = true then s.useOf cap else s := ⟨_, rfl⟩
      obtain ⟨f, l, heq⟩ : s.Told v := by
        rw [hv]
        split_ifs
        · exact s.told_useOf cap
        · exact ⟨s.statusCode, s.log, rfl⟩
      have hv' : Pool c g v [] := h.told ⟨f, l, heq⟩
      have hholds : v.main.holds = [] := by
        rw [heq]
        dsimp only
        rw [hmain]
        rfl
      have hcurr' : v.curr = some i := by rw [heq]; exact hcurr
      have hnot : i ∉ v.freeQ := hv'.not_free (mem_toList.mpr hcurr') fun j => by
        simp only [Engine.places, count_append]
        omega
      have hset := hv'.setNode (i := i) { s.node i with hostcmd := false } (.inr hnot) (by rw [heq])
      have hset' : ∀ m, MainPc.holds m = [] →
          Pool c g { v.setNode i { s.node i with hostcmd := false } with main := m } [] := fun m hm =>
        hset.setMain m hholds hm
      dsimp only at hs
      rw [← hv] at hs
      split_ifs at hs
      · obtain rfl := some.inj hs
        exact (hv'.setMain .dropping hholds rfl).told (Engine.told_setStatusOf ..)
      · obtain rfl := some.inj hs
        refine (hv'.requeue hcurr').setMain .idle ?_ rfl
        obtain ⟨q, hq, -⟩ := Engine.insertCmdToPendingQ_eq
          { v.setNode i { v.node i with respbuf := none } with
            curr := none, released := v.released ++ (v.node i).respbuf.toList.map RespBuf.id } i false
        rw [Engine.requeue, hq]
        exact hholds
      · split at hs
        · obtain rfl := some.inj hs
          exact (hset' _ rfl).told (Engine.told_useOf ..)
        · obtain rfl := some.inj hs
          exact (hset' _ rfl).told (Engine.told_setStatusOf ..)
        · obtain rfl := some.inj hs
          have hm := hset' (.finishing true) rfl
          exact { hm with }
        · have hm := hset' (.finishing true) rfl
          split at hs
          · obtain rfl := some.inj hs
            exact { hm with }
          · obtain rfl := some.inj hs
            exact { hm with }
  · simp at hs

theorem finishCmdresp (hs : s.finishCmdresp c = some u) : Pool c g u [] := by
  unfold Engine.finishCmdresp at hs
  split at hs
  · next ok hmain =>
    have hholds : s.main.holds = [] := by rw [hmain]; rfl
    split at hs
    · exact some.inj hs ▸ h.setMain .idle hholds rfl
    · split at hs
      · exact some.inj hs ▸ h.setMain .idle hholds rfl
      · next i hcurr =>
        obtain rfl := some.inj hs
        have hfree : ∀ v, s.Told v → Pool c g { v.freeCurr with main := .idle } [] := fun v hv => by
          obtain ⟨f, l, heq⟩ := hv
          refine (h.told ⟨f, l, heq⟩).freeCurr.setMain .idle ?_ rfl
          rw [Engine.freeCurr_main, heq]
          exact hholds
        apply hfree
        split_ifs
        · exact s.told_setStatusOf ..
        · exact (s.told_useOf _).trans (Engine.told_setStatusOf ..)
        · exact s.told_useOf _
  · simp at hs

theorem cmdTimeout : Pool c g s.cmdTimeout [] := by
  unfold Engine.cmdTimeout
  split
  · exact { h with }
  · refine Pool.told ?_ (Engine.told_setStatusOf ..)
    exact { h with }

end

/-! ### Flushing and cancelling -/

theorem flushScan (h : Pool c g s (i :: hands)) : Pool c g (s.flushScan i) hands := by
  unfold Engine.flushScan
  split_ifs
  · exact h.insertCmdToFreeQ
  · exact (h.cancelIoctl i).insertCmdToFreeQ

section

variable (h : Pool c g s [])

include h

theorem flushScanQueue : Pool c g s.flushScanQueue [] := by
  have hout : Pool c g { s with scanQ := [] } (s.scanQ ++ []) := by
    refine h.unlink (fun j => ?_) (fun _ hj => hj) ⟨rfl, rfl, rfl, rfl, rfl, rfl⟩
    simp only [Engine.places, count_append, count_nil]
    omega
  have hf := hout.foldl flushScan
  exact { hf with }

theorem unlinkExt : Pool c g { s with extQ := [] } (s.extQ ++ []) := by
  refine h.unlink (fun j => ?_) (fun _ hj => hj) ⟨rfl, rfl, rfl, rfl, rfl, rfl⟩
  simp only [Engine.places, count_append, count_nil]
  omega

theorem flushExtCmdPendingQueue : Pool c g s.flushExtCmdPendingQueue [] :=
  h.unlinkExt.cancelAll

theorem moveCmdToCmdPendingQ : Pool c g s.moveCmdToCmdPendingQ [] :=
  h.unlinkExt.foldl fun h => h.insertCmdToPendingQ true

theorem feedScan {start : Bool} (hs : s.feedScan start = some u) : Pool c g u [] := by
  unfold Engine.feedScan at hs
  split at hs
  · next i rest hq =>
    obtain rfl := some.inj hs
    refine Pool.insertCmdToPendingQ ?_ true
    refine h.move (fun j => ?_) (fun _ hj => hj) ⟨rfl, rfl, rfl, rfl, rfl, rfl⟩
    simp only [Engine.places, hq, count_append, count_cons, count_nil]
    omega
  · simp at hs

theorem unlinkPending (p : ℕ → Bool) :
    Pool c g { s with pendingQ := s.pendingQ.filter fun i => !p i } (s.pendingQ.filter p ++ []) := by
  refine h.unlink (fun j => ?_) (fun _ hj => hj) ⟨rfl, rfl, rfl, rfl, rfl, rfl⟩
  have hcount := (filter_append_perm p s.pendingQ).count_eq j
  simp only [Engine.places, count_append] at hcount ⊢
  omega

theorem cancelCurr : Pool c g s.cancelCurr [] := by
  unfold Engine.cancelCurr
  split
  · exact h.cancelIoctl _
  · exact h

theorem cancelAllPendingCmd (flag : Bool) : Pool c g (s.cancelAllPendingCmd flag) [] := by
  have hu : Pool c g (if flag = true then s.cancelCurr.freeCurr else s.cancelCurr) [] := by
    split_ifs
    · exact h.cancelCurr.freeCurr
    · exact h.cancelCurr
  unfold Engine.cancelAllPendingCmd
  generalize (if flag = true then s.cancelCurr.freeCurr else s.cancelCurr) = u at hu
  have hout : Pool c g { u with timerSet := false, pendingQ := [] } (u.pendingQ ++ []) := by
    refine hu.unlink (fun j => ?_) (fun _ hj => hj) ⟨rfl, rfl, rfl, rfl, rfl, rfl⟩
    simp only [Engine.places, count_append, count_nil]
    omega
  exact hout.cancelAll

theorem cancelCurrIf (p : ℕ → Bool) : Pool c g (s.cancelCurrIf p) [] := by
  unfold Engine.cancelCurrIf
  split
  · next i hcurr =>
    have hnot : i ∉ s.freeQ := h.not_free (mem_toList.mpr hcurr) fun j => by
      simp only [Engine.places, count_append]
      omega
    dsimp only
    split_ifs
    · have hset := (h.told (s.told_useOf (s.node i).pioctlBuf)).setNode { s.node i with canceled := true } (.inr hnot) rfl
      exact hset.cancelIoctl i
    · exact h.told (s.told_useOf _)
  · exact h

theorem cancelBssPendingCmd (b : ℕ) : Pool c g (s.cancelBssPendingCmd c b) [] := by
  have hu : Pool c g (s.cancelCurrIf fun r => c.bssIndex r = b).usePending [] :=
    (h.cancelCurrIf _).told ⟨_, _, rfl⟩
  exact (hu.unlinkPending _).cancelAll

theorem cancelPendingScanCmd : Pool c g (s.cancelPendingScanCmd c) [] :=
  ((h.cancelCurrIf c.isScan).unlinkPending _).freeAll

end

theorem takeIoctl (h : Pool c g s hands) : Pool c g (s.takeIoctl i) hands :=
  h.setNode _ (.inl rfl) rfl

theorem takeCurrIoctl (h : Pool c g s []) (r : ℕ) : Pool c g (s.takeCurrIoctl r) [] := by
  unfold Engine.takeCurrIoctl
  split
  · next i hcurr =>
    split_ifs
    · exact h.setNode _ (.inl rfl) rfl
    · exact h
  · exact h

theorem cancelPendingIoctl (h : Pool c g s []) (r : ℕ) : Pool c g (s.cancelPendingIoctl c r) [] := by
  have hu := (h.takeCurrIoctl r).told (Engine.told_useOf _ (some r))
  have hv := fun p : ℕ → Bool => (hu.unlinkPending p).foldl (f := fun u i => (u.takeIoctl i).insertCmdToFreeQ i)
    fun h => h.takeIoctl.insertCmdToFreeQ
  unfold Engine.cancelPendingIoctl
  dsimp only
  split_ifs
  · exact ⟨(hv _).total, (hv _).clean, (hv _).bare, (hv _).sole, (hv _).gone, (hv _).bufs⟩
  · exact (hv _).told ⟨_, _, rfl⟩
  · exact ⟨(hv _).total, (hv _).clean, (hv _).bare, (hv _).sole, (hv _).gone, (hv _).bufs⟩

/-- No step puts a node in two places. -/
theorem step (h : Pool c g s []) {op : Op} (hs : s.step c op = some u) : Pool c (op.gone c s g) u [] := by
  cases op with
  | getCmdNode req allocOk =>
    obtain ⟨-, hs⟩ := ite_none_right_eq_some.mp hs
    exact some.inj hs ▸ h.getCmdNode req allocOk
  | prepareFails i =>
    obtain ⟨hi, hs⟩ := ite_none_right_eq_some.mp hs
    exact some.inj hs ▸ h.prepareFails hi
  | prepared i cmd hostcmd hsCancel =>
    obtain ⟨hi, hs⟩ := ite_none_right_eq_some.mp hs
    exact some.inj hs ▸ (h.fill hi cmd hostcmd).enqueue cmd hsCancel
  | execNextCmd => exact h.execNextCmd hs
  | dnldCmdToFw => exact h.dnldCmdToFw hs
  | hostToCard ok => exact h.hostToCard hs
  | drop => exact h.drop hs
  | recvResp b =>
    obtain ⟨-, hs⟩ := ite_none_right_eq_some.mp hs
    exact h.recvResp hs
  | processCmdresp => exact h.processCmdresp hs
  | checkCanceled => exact h.checkCanceled hs
  | handleCmdresp o => exact h.handleCmdresp hs
  | finishCmdresp => exact h.finishCmdresp hs
  | cmdTimeout => exact some.inj hs ▸ h.cmdTimeout
  | flushScanQueue => exact some.inj hs ▸ h.flushScanQueue
  | flushExtCmdPendingQueue => exact some.inj hs ▸ h.flushExtCmdPendingQueue
  | moveCmdToCmdPendingQ => exact some.inj hs ▸ h.moveCmdToCmdPendingQ
  | feedScan start => exact h.feedScan hs
  | cancelAllPendingCmd flag => exact some.inj hs ▸ h.cancelAllPendingCmd flag
  | cancelBssPendingCmd b => exact some.inj hs ▸ h.cancelBssPendingCmd b
  | cancelPendingScanCmd => exact some.inj hs ▸ h.cancelPendingScanCmd
  | cancelPendingIoctl r => exact some.inj hs ▸ h.cancelPendingIoctl r
  | endCancelIoctl r =>
    unfold Engine.step Engine.endCancelIoctl at hs
    obtain ⟨-, rfl⟩ := of_guard hs
    exact { h with }
  | endLookIoctl r =>
    unfold Engine.step Engine.endLookIoctl at hs
    obtain ⟨-, rfl⟩ := of_guard hs
    exact { h with }
  | extScanStatus =>
    obtain rfl := some.inj hs
    split_ifs
    · exact { h with }
    · exact h
  | scanDone | setExtScanType | setPsState =>
    obtain rfl := some.inj hs
    exact { h with }

theorem of_init (h : s.Init c) : Pool c ([], []) s [] := by
  obtain ⟨hfree, hpend, hscan, hext, hcurr, hprep, hmain, -, -, hnode, -, -, -, hlost, hrecv, hrel, hover⟩ := h
  refine ⟨fun j => ?_, fun j _ => (hnode j).1, fun j _ => (hnode j).2, fun _ _ => hcurr, by rw [hlost, hover], ?_⟩
  · simp only [Engine.places, hfree, hpend, hscan, hext, hcurr, hprep, hmain, hlost, MainPc.holds, Option.toList,
      append_nil]
    split_ifs with hj
    · exact count_eq_one_of_mem nodup_range (mem_range.mpr hj)
    · exact count_eq_zero.mpr fun hm => hj (mem_range.mp hm)
  · simp [Engine.attached, hcurr, hrecv, hrel, hover]

end Pool

/-! ## Conservation of the nodes -/

/-- **Conservation.** The nodes of the pool are in the places, each in one; a free node holds nothing; and a response
buffer that was received is with the current command or was released once. -/
structure Conserved (c : EngineCfg) (s : Engine) : Prop where
  nodes : s.places.Perm (List.range c.numCmdBuffer)
  clean : ∀ i ∈ s.freeQ, (s.node i).pioctlBuf = none ∧ (s.node i).respbuf = none
  bufs : (s.released ++ s.attached).Perm s.received
  bare : ∀ i, s.curr ≠ some i → (s.node i).respbuf = none

/-- A USB card has a command buffer for each node that is taken, and the current command no response buffer when it
gets one. -/
def Op.Conserves (c : EngineCfg) (s : Engine) : Op → Prop
  | .getCmdNode _ allocOk => c.usb = true → allocOk = false → s.freeQ = []
  | .recvResp _ => ∀ i ∈ s.curr, (s.node i).respbuf = none
  | _ => True

section

variable {c : EngineCfg} {g : List ℕ × List ℕ} {s : Engine}

/-- Nothing is gone. -/
theorem Op.conserves_iff (op : Op) : op.Conserves c s ↔ op.gone c s ([], []) = ([], []) := by
  cases op with
  | getCmdNode req allocOk =>
    cases hu : c.usb <;> cases allocOk <;> simp [Op.Conserves, Op.gone, hu]
  | recvResp b =>
    cases hc : s.curr with
    | none => simp [Op.Conserves, Op.gone, Engine.attached, hc]
    | some i => simp [Op.Conserves, Op.gone, Engine.attached_of_curr hc, hc]
  | _ => simp [Op.Conserves, Op.gone]

instance Op.decidableConserves (op : Op) : Decidable (op.Conserves c s) :=
  decidable_of_iff _ op.conserves_iff.symm

theorem Pool.conserved_iff (h : Pool c g s []) : Conserved c s ↔ g = ([], []) := by
  have hgone := h.gone
  constructor
  · intro hc
    have hnodes : s.lost = [] := by
      refine eq_nil_iff_forall_not_mem.mpr fun i hi => ?_
      have htotal := h.total i
      have hrange := hc.nodes.count_eq i
      have hlost := count_pos_iff.mpr hi
      rw [count_append, count_append] at htotal
      rw [count_range] at hrange
      split_ifs at htotal hrange <;> omega
    have hbufs : s.overwritten = [] := by
      have h1 := h.bufs.length_eq
      have h2 := hc.bufs.length_eq
      rw [length_append] at h1
      exact eq_nil_of_length_eq_zero (by omega)
    rw [← hgone, hnodes, hbufs]
  · rintro rfl
    obtain ⟨hlost, hover⟩ := Prod.mk.inj hgone
    refine ⟨perm_iff_count.mpr fun i => ?_, fun i hi => ⟨h.clean i hi, h.bare i fun hc => ?_⟩, ?_, h.bare⟩
    · rw [count_range, ← h.total i, hlost, append_nil, append_nil]
    · exact h.not_free (mem_toList.mpr hc) (fun j => by
        simp only [Engine.places, count_append]
        omega) hi
    · simpa [hover] using h.bufs

/-- The pool along a run without a loss. -/
theorem Pool.of_reachableWhen (h : (engineSystem c).ReachableWhen (fun s op => op.Conserves c s) s) :
    Pool c ([], []) s [] := by
  refine h.invariant (fun _ => Pool.of_init) fun s op s' hi hc hs => ?_
  have hstep := hi.step hs
  rwa [op.conserves_iff.mp hc] at hstep

/-- **The nodes and the response buffers are conserved** along every run without a loss, and a step loses nothing exactly
if it meets the condition. -/
theorem nodes_conserved (h : (engineSystem c).ReachableWhen (fun s op => op.Conserves c s) s) :
    Conserved c s ∧ ∀ op s', s.step c op = some s' → (Conserved c s' ↔ op.Conserves c s) := by
  have hpool := Pool.of_reachableWhen h
  exact ⟨hpool.conserved_iff.mpr rfl, fun op s' hs => (hpool.step hs).conserved_iff.trans op.conserves_iff.symm⟩

end

/-- A pool of two nodes. -/
def twoNodes (usb : Bool) : EngineCfg :=
  ⟨2, usb, true, false, true, fun _ => false, fun _ => 0⟩

/-- `HostCmd_CMD_GET_HW_SPEC`. -/
def getHwSpec : HostCmd :=
  ⟨0x0003, 64, false, false⟩

/-- All nodes are free. -/
def fresh : Engine where
  node _ := ⟨0, false, false, false, ⟨0, 0, false, false⟩, none, none⟩
  freeQ := [0, 1]
  pendingQ := []
  scanQ := []
  extQ := []
  curr := none
  prep := []
  main := .idle
  cancelling := []
  looking := []
  timerSet := false
  numCmdTimeout := 0
  scanProcessing := false
  extScanEnhance := false
  psAwake := true
  statusCode _ := .noError
  log := []
  issued := []
  refused := []
  lost := []
  received := []
  released := []
  overwritten := []
  timedOut := false

theorem fresh_init (usb : Bool) : fresh.Init (twoNodes usb) :=
  ⟨rfl, rfl, rfl, rfl, rfl, rfl, rfl, rfl, rfl, fun _ => ⟨rfl, rfl⟩, rfl, rfl, rfl, rfl, rfl, rfl, rfl⟩

/-- A command that the card puts off, another one that cannot be prepared, and the response. -/
theorem nodes_conserved_put_off : ∃ s,
    (engineSystem (twoNodes false)).ReachableWhen (fun s op => op.Conserves (twoNodes false) s) s ∧
      s.freeQ = [1, 0] ∧ s.released = [0, 1] ∧ completions s.log = [7] ∧ Conserved (twoNodes false) s := by
  obtain ⟨s, hs, hrun⟩ := exists_reachableWhen_of_runWhen (M := engineSystem (twoNodes false))
    (C := fun s op => op.Conserves (twoNodes false) s)
    (P := fun s => s.freeQ = [1, 0] ∧ s.released = [0, 1] ∧ completions s.log = [7])
    (l := [.getCmdNode (some 7) true, .prepared 0 getHwSpec false false, .execNextCmd, .dnldCmdToFw, .hostToCard true,
      .recvResp ⟨0, 0x8003, true⟩, .processCmdresp, .checkCanceled, .handleCmdresp (.plain false true),
      .getCmdNode (some 8) true, .prepareFails 1, .execNextCmd, .dnldCmdToFw, .hostToCard true,
      .recvResp ⟨1, 0x8003, false⟩, .processCmdresp, .checkCanceled, .handleCmdresp (.plain true true), .finishCmdresp])
    (s := fresh) (.init (fresh_init false)) (by decide +kernel)
  simp only [decide_eq_true_eq] at hrun
  exact ⟨s, hs, hrun.1, hrun.2.1, hrun.2.2, (nodes_conserved hs).1⟩

/-- Without a command buffer the node is in no queue; and the buffer of a response to another command is never
released. -/
theorem node_or_buffer_lost :
    (¬∀ s, (engineSystem (twoNodes true)).Reachable s → Conserved (twoNodes true) s) ∧
      ¬∀ s, (engineSystem (twoNodes false)).Reachable s → Conserved (twoNodes false) s := by
  constructor
  · intro h
    obtain ⟨s, hs, hrun⟩ := exists_reachable_of_run (M := engineSystem (twoNodes true))
      (P := fun s => s.places = [1]) (l := [.getCmdNode (some 7) false]) (s := fresh) (fresh_init true)
      (by decide +kernel)
    have hnodes := (h s hs).nodes.length_eq
    rw [of_decide_eq_true hrun] at hnodes
    exact absurd hnodes (by decide)
  · intro h
    obtain ⟨s, hs, hrun⟩ := exists_reachable_of_run (M := engineSystem (twoNodes false))
      (P := fun s => s.released ++ s.attached = [1] ∧ s.received = [0, 1])
      (l := [.getCmdNode (some 7) true, .prepared 0 getHwSpec false false, .execNextCmd, .dnldCmdToFw, .hostToCard true,
        .recvResp ⟨0, 0x8010, false⟩, .processCmdresp, .recvResp ⟨1, 0x8003, false⟩])
      (s := fresh) (fresh_init false) (by decide +kernel)
    simp only [decide_eq_true_eq] at hrun
    have hbufs := (h s hs).bufs.length_eq
    rw [hrun.1, hrun.2] at hbufs
    exact absurd hbufs (by decide)

end WlanDriver.Cmd
