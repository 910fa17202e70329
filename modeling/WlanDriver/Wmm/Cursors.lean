import WlanDriver.Wmm.Nodes

/-!
# Cursors of the round robin

`ra_list_curr` of a TID is where the next round through the TID's lists starts : the end of the row or one of its
nodes. Whatever frees a list has to move the cursor off it. `CurrValid.step` : every operation does, but for
`wlan_wmm_delete_tdls_ralist`, which moves the cursor to the first list also when this is the list it frees
(`Bss.CurrSafe`).
-/

namespace WlanDriver.Wmm

open Ethernet List Option RaList

variable {cfg : Config} {s s' : Bss} {t : Tid} {a : ℕ} {l x y : RaList} {b : Buf} {mac : Mac}

/-- `ra_list_curr` is the row's end or one of its nodes, and null for an empty row only. -/
structure CurrValid (s : Bss) : Prop where
  null : ∀ t, s.curr t = .null → s.tbl t = []
  node : ∀ t a, s.curr t = .node a → a ∈ (s.tbl t).map addr

namespace CurrValid

/-- Rows that keep their addresses. -/
theorem of_addrs (h : CurrValid s) (heq : ∀ t, (s'.tbl t).map RaList.addr = (s.tbl t).map RaList.addr)
    (hc : s'.curr = s.curr) : CurrValid s' := by
  refine ⟨fun t ht => ?_, fun t a ht => ?_⟩
  · have hnil := h.null t (by rw [← hc, ht])
    have := heq t
    rw [hnil, map_nil, map_eq_nil_iff] at this
    exact this
  · rw [heq]
    exact h.node t a (by rw [← hc, ht])

theorem of_tbl (h : CurrValid s) (htbl : s'.tbl = s.tbl) (hc : s'.curr = s.curr) : CurrValid s' :=
  h.of_addrs (fun t => by rw [htbl]) hc

theorem edit (h : CurrValid s) (he : NodeEdit s s' t x y) (hc : s'.curr = s.curr) : CurrValid s' := by
  refine h.of_addrs (fun u => ?_) hc
  by_cases hu : u = t
  · subst hu
    exact he.row.map_eq he.addr
  · rw [he.other u hu]

/-- A node of row `t` becomes its cursor. -/
theorem set (h : CurrValid s) (hn : s.node t a = some l)
    (htbl : ∀ u, (s'.tbl u).map addr = (s.tbl u).map addr)
    (hc : s'.curr = Function.update s.curr t (.node a)) : CurrValid s' := by
  have hmem : a ∈ (s.tbl t).map addr := Bss.node_addr hn ▸ mem_map_of_mem (Bss.mem_of_node hn)
  have hbase : CurrValid { s' with curr := s.curr } := h.of_addrs htbl rfl
  refine ⟨fun u hu => ?_, fun u b hu => ?_⟩
  · rw [hc] at hu
    by_cases hut : u = t
    · subst hut
      rw [Function.update_self] at hu
      exact absurd hu (by simp)
    · rw [Function.update_of_ne hut] at hu
      exact hbase.null u hu
  · rw [hc] at hu
    by_cases hut : u = t
    · subst hut
      rw [Function.update_self, RaPtr.node.injEq] at hu
      rw [htbl, ← hu]
      exact hmem
    · rw [Function.update_of_ne hut] at hu
      exact hbase.node u b hu

theorem grow (h : CurrValid s) (c : Bss.Alloc) : CurrValid (s.grow cfg c mac) := by
  refine ⟨fun t ht => ?_, fun t a ht => ?_⟩
  · simp only [Bss.grow] at ht ⊢
    split_ifs at ht with hnull
    · cases ha : c.addrs[t.val]? with
      | none => rw [h.null t hnull]; rfl
      | some a => simp [ha] at ht
    · exact absurd ht hnull
  · rw [Bss.addrs_grow, mem_append]
    simp only [Bss.grow] at ht
    split_ifs at ht with hnull
    · cases ha : c.addrs[t.val]? with
      | none => simp [ha] at ht
      | some b =>
        simp only [ha, map_some, getD_some, RaPtr.node.injEq] at ht
        exact .inr (by simp [ht])
    · exact .inl (h.node t a ht)

end CurrValid

namespace Bss

/-- A teardown does not free a first list that the cursor is at. -/
def CurrSafe (s : Bss) : Op → Prop
  | .restore mac false _ => ∀ t, (s.tbl t).head?.all (fun ap => ap.ra ≠ mac || s.curr t ≠ .node ap.addr) = true
  | _ => True

instance (s : Bss) (op : Op) : Decidable (s.CurrSafe op) := by
  unfold Bss.CurrSafe
  split <;> infer_instance

end Bss

namespace CurrValid

theorem sendStart (h : CurrValid s) : CurrValid (s.sendStart t a) := by
  rcases s.sendStart_eq_or t a with heq | ⟨l, b, rest, hn, -, heq | heq⟩
  · rwa [heq]
  · rw [heq]
    exact h.edit (.of_editNode hn rfl rfl) rfl
  · rw [heq]
    exact h.edit (.of_editNode (f := pop) hn (addr_pop l) rfl) rfl

theorem enqueueBuf (h : CurrValid s) {e : Bss.AddEnv} {r : Option ℕ} : CurrValid (s.enqueueBuf cfg e b t r) := by
  rcases s.enqueueBuf_cases cfg e b t r with heq | ⟨l, -, hedit, hl, hb⟩
  · rwa [heq]
  · refine h.edit hedit ?_
    simp only [Bss.enqueueBuf, hl, hb, Bool.false_eq_true, if_false]

theorem restoreBuf (h : CurrValid s) {r : Option ℕ} : CurrValid (s.restoreBuf b t r) := by
  rcases s.restoreBuf_cases b t r with heq | ⟨l, hl, -, hedit⟩
  · rwa [heq]
  · refine h.edit hedit ?_
    simp only [Bss.restoreBuf, hl]

theorem restoreLoop (h : CurrValid s) {complete : Bool} {bs : List Buf} {cs : List Bss.Alloc}
    (hs : Bss.restoreLoop cfg mac complete bs cs s = some s') : CurrValid s' := by
  refine Bss.restoreLoop_invariant (A := fun _ => True) (I := fun _ s => CurrValid s) ?_ (fun _ _ => trivial) h hs
  intro b bs s u r hi hto
  rcases hto.1 with rfl | ⟨c, -, -, -, -, rfl⟩
  · exact hi.restoreBuf
  · exact (hi.grow c).restoreBuf

/-- A peer's list goes, and a cursor at it goes back to the end. -/
theorem deletePeer (h : CurrValid s) (mac : Mac) : CurrValid (s.deletePeerRalist cfg mac) := by
  refine ⟨fun t ht => ?_, fun t a ht => ?_⟩
  · simp only [Bss.deletePeerRalist] at ht ⊢
    split_ifs at ht
    rw [h.null t ht]
    rfl
  · simp only [Bss.deletePeerRalist] at ht ⊢
    split_ifs at ht with hx
    have ha := h.node t a ht
    cases hn : s.getRalistNode t mac with
    | none =>
      rw [eraseP_of_none hn]
      exact ha
    | some x =>
      refine (eraseP_of_find hn).mem_map_of_ne ha ?_
      rintro rfl
      exact hx (by simp [hn, ht])

/-- A link's list goes, and a cursor at it goes to the first list, which stays. -/
theorem deleteTdls {u : Bss} (h : CurrValid u) (hpush : Bss.FirstPushed s u) (hcurr : u.curr = s.curr)
    (hsafe : ∀ t, (s.tbl t).head?.all (fun ap => ap.ra ≠ mac || s.curr t ≠ .node ap.addr) = true)
    (hs : u.deleteTdlsRalist mac = some s') : CurrValid s' := by
  obtain ⟨-, rfl⟩ := Bss.deleteTdlsRalist_eq hs
  -- the first list stays, if the cursor goes there
  have hfirst : ∀ t x a, u.getRalistNode t mac = some x → u.curr t = .node x.addr → u.firstNode t = some a →
      a ∈ (Bss.deleteTdlsRow mac (u.tbl t)).map addr := by
    intro t x a hx hc hfirst
    rcases Bss.deleteTdlsRow_cases mac (u.tbl t) with
      ⟨-, hnone⟩ | ⟨ap, rest, hu, ⟨hra, heq⟩ | ⟨y, rest', hra, hy, hrem, -, heq⟩⟩
    · rw [Bss.getRalistNode, hnone] at hx
      exact absurd hx (by simp)
    · -- the first list is the peer's and the cursor is at it
      rw [Bss.getRalistNode, hu, find?_cons_of_pos (by simpa using hra), some.injEq] at hx
      subst hx
      have hs := hsafe t
      rcases hpush t with ⟨-, hnil⟩ | ⟨ap', ap'', rest', hrow, hu', hra', had, -⟩
      · simp [hnil] at hu
      · rw [hu, List.cons.injEq] at hu'
        rw [← hu'.1] at hra' had
        rw [hcurr] at hc
        rw [hrow] at hs
        simp [← hra', hra, hc, had] at hs
    · rw [Bss.firstNode, hu, head?_cons, map_some, some.injEq] at hfirst
      rw [heq, map_cons, addr_takeOver, hfirst]
      exact mem_cons_self
  refine ⟨fun t ht => ?_, fun t a ht => ?_⟩
  · dsimp only at ht ⊢
    split_ifs at ht with hx
    · cases hf : u.firstNode t with
      | none =>
        have hnil : u.tbl t = [] := by simpa [Bss.firstNode] using hf
        rw [hnil]
        rfl
      | some a => simp [hf] at ht
    · rw [h.null t ht]
      rfl
  · dsimp only at ht ⊢
    split_ifs at ht with hx
    · obtain ⟨x, hfind, hc⟩ : ∃ x, u.getRalistNode t mac = some x ∧ u.curr t = .node x.addr := by
        cases hn : u.getRalistNode t mac with
        | none => simp [hn] at hx
        | some x => exact ⟨x, rfl, by simpa [hn] using hx⟩
      cases hf : u.firstNode t with
      | none => simp [hf] at ht
      | some b =>
        simp only [hf, map_some, getD_some, RaPtr.node.injEq] at ht
        subst ht
        exact hfirst t x b hfind hc hf
    · refine Bss.mem_addrs_deleteTdlsRow (h.node t a ht) fun x hfind => ?_
      rintro rfl
      exact hx (by simp [hfind, ht])

/-- Every operation keeps the cursors, unless it frees a list under one. -/
theorem step (h : CurrValid s) (hd : Distinct s) {op : Op} (hsafe : s.CurrSafe op) (hs : s.step cfg op = some s') :
    CurrValid s' := by
  cases op with
  | add b e =>
    rcases Bss.addBufTxqueue_cases hs with rfl | ⟨u, t, r, -, hu, rfl⟩
    · exact h.of_tbl rfl rfl
    · rcases hu with rfl | ⟨-, ra, rfl⟩
      · exact h.enqueueBuf
      · exact (h.grow e.alloc).enqueueBuf
  | ralistAdd ra c =>
    obtain ⟨-, rfl⟩ := Bss.ralistAdd_eq hs
    exact h.grow c
  | dequeue d =>
    obtain ⟨-, u, heq, rfl | ⟨t, a, l, -, -, rfl⟩⟩ := Bss.dequeueTxPacket_cases hd hs
    · obtain ⟨_, _, _, rfl⟩ := heq
      exact h.of_tbl rfl rfl
    · obtain ⟨_, _, _, rfl⟩ := heq
      refine sendStart ?_
      exact h.of_tbl rfl rfl
  | aggregate =>
    obtain ⟨f, -, -, rfl | ⟨l, hn, -, rfl⟩⟩ := Bss.aggregatePkt_cases hs
    · exact h.of_tbl rfl rfl
    · exact h.edit (Bss.popBuf_edit hn) rfl
  | done resource =>
    obtain ⟨f, -, hcase⟩ := Bss.sendDone_cases hs
    cases hcase with
    | gone => exact h.of_tbl rfl rfl
    | putBack hn => exact h.edit (.of_editNode (f := putBack f.buf) hn rfl rfl) rfl
    | requeued hn => exact h.edit (.of_editNode (f := pushHead f.buf) hn rfl rfl) rfl
    | @counted l hn =>
      refine h.set hn (fun u => ?_) rfl
      have hedit : NodeEdit s { s with tbl := s.editNode f.tid f.ptr countOut } f.tid l l.countOut :=
        .of_editNode hn (addr_countOut l) rfl
      by_cases hu : u = f.tid
      · subst hu
        exact hedit.row.map_eq hedit.addr
      · exact congrArg _ (hedit.other u hu)
    | miscounted => exact h.of_tbl rfl rfl
    | sent hn => exact h.set hn (fun _ => rfl) rfl
  | txPause mac p =>
    obtain rfl := some.inj hs
    exact h.of_addrs (fun t => Bss.addrs_pauseRow mac p (s.tbl t)) rfl
  | nonTdlsPause mac p =>
    obtain rfl := some.inj hs
    exact h.of_addrs (fun t => Bss.addrs_nonTdlsRow mac p (s.tbl t)) rfl
  | ralistUpdate old new =>
    obtain rfl := some.inj hs
    exact h.of_addrs (fun t => Bss.addrs_updateRow old new (s.tbl t)) rfl
  | drop =>
    obtain rfl := some.inj hs
    refine Bss.dropLoop_invariant (I := CurrValid) (fun hi hs => ?_) (fun _ hi => hi.of_tbl rfl rfl) 8 h
    obtain ⟨l, -, -, hedit, -⟩ := Bss.delTxPktsInRalist_cases hs
    refine hi.edit hedit ?_
    obtain ⟨l, -, rfl⟩ := map_eq_some_iff.mp hs
    rfl
  | deletePeer mac =>
    obtain rfl := some.inj hs
    exact h.deletePeer mac
  | hold mac =>
    obtain rfl := some.inj hs
    exact h.of_addrs (fun t => Bss.addrs_holdRow mac (s.tbl t)) rfl
  | restore mac complete cs =>
    obtain ⟨u, hu, hend⟩ := Bss.restoreTdlsPackets_cases hs
    have hcu : CurrValid u := by
      refine restoreLoop ?_ hu
      exact h.of_tbl rfl rfl
    rcases hend with ⟨-, rfl⟩ | ⟨rfl, hdel⟩
    · exact hcu
    · obtain ⟨hpush, -, hcurr, -⟩ := Bss.firstPushed_restoreLoop hu
      exact hcu.deleteTdls hpush hcurr hsafe hdel
  | priorities ie =>
    obtain rfl := some.inj hs
    cases ie <;> exact h.of_tbl rfl rfl
  | downgrade vals =>
    obtain rfl := some.inj hs
    exact h.of_tbl rfl rfl

end CurrValid

end WlanDriver.Wmm
