import WlanDriver.Wmm.Accounting
import WlanDriver.Wmm.Cursors

/-!
# Links of the client scheduler

When several clients are scheduled, an RA list that has packets and is not paused waits on the pending list of an access
category, and the list at hand is `selected_ra_list`. These links point at the RA lists from outside of the rows, so
what frees a list has to take it off, and what changes `tx_pause` has to link or unlink.

`Links` is what the links should be. `wlan_update_ralist_tx_pause` and `wlan_wmm_delete_peer_ralist` keep it;
`wlan_update_non_tdls_ralist`, `wlan_ralist_update`, `wlan_restore_tdls_packets` and `wlan_wmm_delete_tdls_ralist` do not
look at the links at all. `links_valid` : it holds in every run in which these have nothing to link or unlink
(`Bss.KeepsLinks`).
-/

namespace WlanDriver.Wmm

open Ethernet List RaList
open Option hiding mem_map

variable {cfg : Config} {s s' : Bss} {t : Tid} {a : ℕ} {l x y : RaList} {b : Buf} {mac : Mac}

/-- The links of the scheduler are to lists that exist; a paused list is on no pending list, and one that is not paused and
counts a packet is on one. -/
structure Links (s : Bss) : Prop where
  threaded : Threaded s.pendingTxq
  live : ∀ a, s.Linked a → s.Live a
  selected : ∀ a, s.selectedRaList = some a → s.Live a
  paused : ∀ t, ∀ l ∈ s.tbl t, l.txPause = true → ¬s.Linked l.addr
  linked : ∀ t, ∀ l ∈ s.tbl t, l.txPause = false → l.totalPkts ≠ 0 → s.Linked l.addr

namespace Bss

theorem live_of_mem (h : l ∈ s.tbl t) : s.Live l.addr :=
  ⟨t, mem_map_of_mem h⟩

theorem live_of_node (h : s.node t a = some l) : s.Live a :=
  node_addr h ▸ live_of_mem (mem_of_node h)

theorem live_of_addrs (h : ∀ t, (s'.tbl t).map RaList.addr = (s.tbl t).map RaList.addr) (ha : s.Live a) : s'.Live a := by
  obtain ⟨t, ht⟩ := ha
  exact ⟨t, by rwa [h]⟩

theorem linked_congr (h : s'.pendingTxq = s.pendingTxq) : s'.Linked a ↔ s.Linked a := by
  unfold Linked
  rw [h]

end Bss

namespace Links

/-- The rows change, and keep their addresses. -/
theorem of_lists (h : Links s) (hp : s'.pendingTxq = s.pendingTxq) (hsel : s'.selectedRaList = s.selectedRaList)
    (haddr : ∀ t, (s'.tbl t).map addr = (s.tbl t).map addr)
    (hpaused : ∀ t, ∀ l ∈ s'.tbl t, l.txPause = true → ¬s.Linked l.addr)
    (hlinked : ∀ t, ∀ l ∈ s'.tbl t, l.txPause = false → l.totalPkts ≠ 0 → s.Linked l.addr) : Links s' := by
  refine ⟨hp ▸ h.threaded, fun a ha => ?_, fun a ha => ?_, fun t l hl hpause => ?_, fun t l hl hpause htotal => ?_⟩
  · exact Bss.live_of_addrs haddr (h.live a ((Bss.linked_congr hp).mp ha))
  · exact Bss.live_of_addrs haddr (h.selected a (hsel ▸ ha))
  · rw [Bss.linked_congr hp]
    exact hpaused t l hl hpause
  · rw [Bss.linked_congr hp]
    exact hlinked t l hl hpause htotal

theorem of_tbl (h : Links s) (htbl : s'.tbl = s.tbl) (hp : s'.pendingTxq = s.pendingTxq)
    (hsel : s'.selectedRaList = s.selectedRaList) : Links s' :=
  h.of_lists hp hsel (fun t => by rw [htbl]) (fun t => by rw [htbl]; exact h.paused t)
    fun t => by rw [htbl]; exact h.linked t

/-- One list changes; if it counts a packet and is not paused, it did before, or is linked. -/
theorem edit (h : Links s) (he : NodeEdit s s' t x y) (hp : s'.pendingTxq = s.pendingTxq)
    (hsel : s'.selectedRaList = s.selectedRaList) (hpause : y.txPause = x.txPause)
    (htotal : y.txPause = false → y.totalPkts ≠ 0 → x.totalPkts ≠ 0 ∨ s.Linked x.addr) : Links s' := by
  have hx := he.row.mem_old
  refine h.of_lists hp hsel (fun u => ?_) (fun u => ?_) (fun u => ?_)
  · by_cases hu : u = t
    · subst hu
      exact he.row.map_eq he.addr
    · rw [he.other u hu]
  · by_cases hu : u = t
    · subst hu
      refine he.row.forall_mem (h.paused u) fun hy => ?_
      rw [he.addr]
      exact h.paused u x hx (hpause ▸ hy)
    · rw [he.other u hu]
      exact h.paused u
  · by_cases hu : u = t
    · subst hu
      refine he.row.forall_mem (h.linked u) fun hy hyt => ?_
      rw [he.addr]
      exact (htotal hy hyt).elim (h.linked u x hx (hpause ▸ hy)) id
    · rw [he.other u hu]
      exact h.linked u

/-- The pending lists change, and hold the same lists. -/
theorem of_pending (h : Links s) (htbl : s'.tbl = s.tbl) (ht : Threaded s'.pendingTxq)
    (hl : ∀ z, s'.Linked z ↔ s.Linked z) (hsel : ∀ z, s'.selectedRaList = some z → s.Live z) : Links s' := by
  have hlive : ∀ z, s.Live z → s'.Live z := fun z => Bss.live_of_addrs fun t => by rw [htbl]
  refine ⟨ht, fun z hz => hlive z (h.live z ((hl z).mp hz)), fun z hz => hlive z (hsel z hz), fun t l hm hpause => ?_,
    fun t l hm hpause htotal => ?_⟩
  · rw [hl]
    exact h.paused t l (htbl ▸ hm) hpause
  · rw [hl]
    exact h.linked t l (htbl ▸ hm) hpause htotal

/-! ## The scheduler -/

/-- A list without packets is taken off. -/
theorem unlink (h : Links s) (hno : ∀ t, ∀ l ∈ s.tbl t, l.addr = a → l.totalPkts = 0) : Links (s.unlink a) := by
  refine ⟨h.threaded.sublist fun q => filter_sublist, fun z hz => h.live z (Bss.linked_unlink.mp hz).1, h.selected,
    fun t l hl hpause hz => h.paused t l hl hpause (Bss.linked_unlink.mp hz).1, fun t l hl hpause htotal => ?_⟩
  exact Bss.linked_unlink.mpr ⟨h.linked t l hl hpause htotal, fun ha => htotal (hno t l hl ha)⟩

/-- The list at hand is selected, or goes to the end of its queue. -/
theorem processRaListQuoats (h : Links s) {within : Bool} {r : Bss × Bool} (ha : s.Live a)
    (hr : s.processRaListQuoats a l within = some r) : Links r.1 := by
  obtain ⟨heq, hlinked⟩ := Bss.processRaListQuoats_cases hr
  refine h.of_pending heq.tbl ?_ hlinked fun z hz => ?_
  · unfold Bss.processRaListQuoats at hr
    split_ifs at hr
    · obtain rfl := some.inj hr
      exact h.threaded
    · obtain rfl := some.inj hr
      have hthreaded : Threaded (s.unlink a).pendingTxq := h.threaded.sublist fun q => filter_sublist
      exact hthreaded.push l.queue fun q hq => (Bss.linked_unlink.mp ⟨q, hq⟩).2 rfl
  · unfold Bss.processRaListQuoats at hr
    split_ifs at hr
    · obtain rfl := some.inj hr
      rwa [← some.inj hz]
    · obtain rfl := some.inj hr
      exact absurd hz (by simp)

/-- The loops of `wlan_wmm_get_next_ra_list` : between two sends, a list without packets counts none. -/
theorem getNextRaList {picks : List (Ac × Bool)} :
    ∀ {cur : Option Ac} {s : Bss} {r : Bss × Option (Tid × ℕ)}, Links s → Distinct s →
      (∀ t, ∀ l ∈ s.tbl t, l.totalPkts = l.bufHead.length) → Bss.getNextRaList cur picks s = some r → Links r.1 := by
  induction picks with
  | nil =>
    intro cur s r h _ _ hr
    unfold Bss.getNextRaList at hr
    split_ifs at hr
    obtain rfl := some.inj hr
    exact h
  | cons p picks ih =>
    intro cur s r h hd hexact hr
    obtain ⟨ac, within⟩ := p
    unfold Bss.getNextRaList at hr
    split_ifs at hr
    cases hp : s.pendingTxq ac with
    | nil => simp [hp] at hr
    | cons a rest =>
      simp only [hp] at hr
      cases hdr : s.deref a with
      | none => simp [hdr] at hr
      | some d =>
        obtain ⟨t, l⟩ := d
        have hn := Bss.node_of_deref hdr
        simp only [hdr] at hr
        split_ifs at hr with hdata
        · refine ih (h.unlink fun u x hx hxa => ?_) (hd.of_tbl rfl) hexact hr
          -- the list at this address is the one without data
          obtain ⟨-, rfl⟩ := hd.eq_of_addr hn hx hxa
          rcases hdata with hdata | hdata
          · exact hdata
          · rw [hexact u x hx, hdata, length_nil]
        · cases hq : s.processRaListQuoats a l within with
          | none => simp [hq] at hr
          | some u =>
            obtain ⟨u, ready⟩ := u
            have hu := h.processRaListQuoats (Bss.live_of_node hn) hq
            have htbl := (Bss.processRaListQuoats_cases hq).1.tbl
            cases ready with
            | true =>
              simp only [hq] at hr
              obtain rfl := some.inj hr
              exact hu
            | false =>
              simp only [hq] at hr
              refine ih hu (hd.of_tbl htbl) (fun t l hl => ?_) hr
              exact hexact t l (by rwa [← htbl])

/-! ## Senders -/

/-- A new list has no packets and no links. -/
theorem grow (h : Links s) {c : Bss.Alloc} (hc : s.Fresh c) : Links (s.grow cfg c mac) := by
  have hlive : ∀ a, s.Live a → (s.grow cfg c mac).Live a := by
    rintro a ⟨t, ht⟩
    exact ⟨t, by rw [Bss.addrs_grow]; exact mem_append_left _ ht⟩
  have hmem : ∀ t, ∀ l ∈ (s.grow cfg c mac).tbl t, l ∈ s.tbl t ∨ ¬s.Linked l.addr ∧ l.totalPkts = 0 := by
    intro t l hl
    rcases mem_append.mp hl with hl | hl
    · exact .inl hl
    · simp only [mem_toList, map_eq_some_iff] at hl
      obtain ⟨a, ha, rfl⟩ := hl
      exact .inr ⟨fun hlink => hc.2.2 a (mem_of_getElem? ha) (h.live a hlink), rfl⟩
  refine ⟨h.threaded, fun a ha => hlive a (h.live a ha), fun a ha => hlive a (h.selected a ha), fun t l hl hpause => ?_,
    fun t l hl hpause htotal => ?_⟩
  · exact (hmem t l hl).elim (h.paused t l · hpause) And.left
  · exact (hmem t l hl).elim (h.linked t l · hpause htotal) fun hnew => absurd hnew.2 htotal

/-- A list that is not paused is put on a queue. -/
theorem link (h : Links s) (hn : s.node t a = some l) (hd : Distinct s) (hl : l.txPause = false) (hoff : ¬s.Linked a)
    (q : Ac) :
    Links { s with pendingTxq := Function.update s.pendingTxq q (s.pendingTxq q ++ [a]) } := by
  refine ⟨h.threaded.push q fun r hr => hoff ⟨r, hr⟩, fun z hz => ?_, h.selected, fun u x hx hpause hz => ?_,
    fun u x hx hpause htotal => exists_mem_push.mpr (.inl (h.linked u x hx hpause htotal))⟩
  · rcases exists_mem_push.mp hz with hz | rfl
    · exact h.live z hz
    · exact Bss.live_of_node hn
  · rcases exists_mem_push.mp hz with hz | hz
    · exact h.paused u x hx hpause hz
    · obtain ⟨-, rfl⟩ := hd.eq_of_addr hn hx hz
      exact absurd hpause (by simp [hl])

end Links

namespace Bss

/-- A packet that comes to the list without a link does not miss one. -/
def LinkReady (s : Bss) (l : RaList) : Prop :=
  l.txPause = true ∨ s.Linked l.addr
  deriving Decidable

end Bss

namespace Links

/-- A packet comes to a list that has its link. -/
theorem push (h : Links s) (he : NodeEdit s s' t x y) (hp : s'.pendingTxq = s.pendingTxq)
    (hsel : s'.selectedRaList = s.selectedRaList) (hpause : y.txPause = x.txPause) (hready : s.LinkReady x) : Links s' := by
  refine h.edit he hp hsel hpause fun hy _ => .inr ?_
  rcases hready with hx | hx
  · exact absurd hx (by simp [← hpause, hy])
  · exact hx

theorem enqueueBuf (h : Links s) (hd : Distinct s) {e : Bss.AddEnv} {r : Option ℕ}
    (hready : ∀ l, r.bind (s.node t) = some l → s.hasSta cfg l = true ∨ s.LinkReady l) :
    Links (s.enqueueBuf cfg e b t r) := by
  rcases s.enqueueBuf_cases cfg e b t r with heq | ⟨l, hn, he, hl, hb⟩
  · rwa [heq]
  · have hframe : (s.enqueueBuf cfg e b t r).selectedRaList = s.selectedRaList ∧ (s.enqueueBuf cfg e b t r).pendingTxq =
        if s.hasSta cfg l = true ∧ l.txPause = false ∧ ¬s.Linked l.addr then
          Function.update s.pendingTxq (s.selectQueue t) (s.pendingTxq (s.selectQueue t) ++ [l.addr])
        else s.pendingTxq := by
      simp only [Bss.enqueueBuf, hl, hb, Bool.false_eq_true, if_false, and_self]
    obtain ⟨hsel, hp⟩ := hframe
    split_ifs at hp with hlink
    · -- the list is linked, then the packet is there
      have hlinked := h.link hn hd hlink.2.1 hlink.2.2 (s.selectQueue t)
      refine hlinked.push ⟨he.row, he.other, he.addr⟩ hp hsel rfl (.inr ⟨s.selectQueue t, ?_⟩)
      dsimp only
      rw [Function.update_self]
      exact mem_append_right _ mem_cons_self
    · refine h.push he hp hsel rfl ?_
      rcases hready l hl with hsta | hready
      · unfold Bss.LinkReady
        cases hpause : l.txPause with
        | true => exact .inl rfl
        | false => exact .inr (by simpa [hsta, hpause] using hlink)
      · exact hready

theorem popBuf (h : Links s) (htotal : TotalExact s) (hn : s.node t a = some l) (hb : l.bufHead ≠ []) :
    Links (s.popBuf t a) :=
  h.edit (Bss.popBuf_edit hn) rfl rfl (txPause_pop l) fun _ _ =>
    .inl (htotal.pos (Bss.mem_of_node hn) hb).ne'

theorem sendStart (h : Links s) (htotal : TotalExact s) : Links (s.sendStart t a) := by
  rcases s.sendStart_eq_or t a with heq | ⟨l, b, rest, hn, hb, heq | heq⟩
  · rwa [heq]
  · rw [heq]
    exact h.edit (y := l.takeOut) (.of_editNode hn rfl rfl) rfl rfl rfl fun _ ht => .inl ht
  · rw [heq]
    exact (h.popBuf htotal hn (by simp [hb])).of_tbl rfl rfl rfl

theorem dequeue (h : Links s) (hd : Distinct s) (htotal : TotalExact s) {d : Bss.Sched}
    (hs : s.dequeueTxPacket cfg d = some s') : Links s' := by
  unfold Bss.dequeueTxPacket at hs
  split_ifs at hs with hflight
  obtain ⟨r, hr, rfl⟩ := map_eq_some_iff.mp hs
  have hf : s.flight = none := by simpa using hflight
  have hexact : ∀ t, ∀ l ∈ s.tbl t, l.totalPkts = l.bufHead.length := fun t l hl => by
    rw [htotal t l hl, Bss.inFlight_of_none hf, Nat.add_zero]
  have heq := (Bss.getNextPriolistPtr_cases hd hr).1
  have hlinks : Links r.1 := by
    cases d with
    | highest =>
      simp only [Bss.getNextPriolistPtr, Bss.getHighestPriolistPtr, map_eq_some_iff] at hr
      obtain ⟨o, -, rfl⟩ := hr
      cases o <;> exact h.of_tbl rfl rfl rfl
    | selected within =>
      simp only [Bss.getNextPriolistPtr] at hr
      split_ifs at hr
      obtain ⟨a, ha, hr⟩ := bind_eq_some_iff.mp hr
      obtain ⟨x, -, hr⟩ := bind_eq_some_iff.mp hr
      split_ifs at hr
      obtain ⟨u, hu, rfl⟩ := map_eq_some_iff.mp hr
      exact h.processRaListQuoats (h.selected a ha) hu
    | next picks =>
      simp only [Bss.getNextPriolistPtr] at hr
      split_ifs at hr
      cases hsel : s.selectedRaList with
      | none =>
        simp only [hsel] at hr
        exact h.getNextRaList hd hexact hr
      | some a =>
        simp only [hsel] at hr
        obtain ⟨x, -, hr⟩ := bind_eq_some_iff.mp hr
        split_ifs at hr
        exact h.getNextRaList hd hexact hr
  cases r.2 with
  | none => exact hlinks
  | some ta =>
    refine hlinks.sendStart (htotal.of_tbl heq.tbl ?_)
    obtain ⟨_, _, _, hu⟩ := heq
    rw [hu]

theorem sendDone (h : Links s) (htotal : TotalExact s) {resource : Bool} (hs : s.sendDone resource = some s')
    (hready : resource = true → ∀ f l, s.flight = some f → f.processed = false → s.node f.tid f.ptr = some l →
      s.LinkReady l) : Links s' := by
  obtain ⟨f, hf, hcase⟩ := Bss.sendDone_cases hs
  cases hcase with
  | gone => exact h.of_tbl rfl rfl rfl
  | @putBack l hn =>
    refine h.edit (y := l.putBack f.buf) (.of_editNode hn rfl ?_) ?_ ?_ rfl fun _ ht => .inl ht <;> rfl
  | @requeued l hn hp =>
    refine h.push (y := l.pushHead f.buf) (.of_editNode hn rfl ?_) ?_ ?_ rfl (hready rfl f l hf hp hn) <;> rfl
  | @counted l hn hp =>
    refine h.edit (.of_editNode (f := countOut) hn (addr_countOut l) ?_) ?_ ?_ (txPause_countOut l)
      fun _ _ => .inl ?_
    any_goals rfl
    -- the packet is still in the count
    have hl := htotal f.tid l (Bss.mem_of_node hn)
    rw [Bss.inFlight_of_some hf, if_pos ⟨hp, rfl, (Bss.node_addr hn).symm⟩] at hl
    omega
  | miscounted => exact h.of_tbl rfl rfl rfl
  | sent => exact h.of_tbl rfl rfl rfl

end Links

/-! ## Pauses -/

namespace Bss

/-- The lists whose `tx_pause` changes, with the queues of their TIDs. -/
def flippedNodes (s : Bss) (mac : Mac) (p : Bool) : List (Ac × ℕ) :=
  (List.finRange 8).filterMap fun t => (s.flipped mac p t).map fun l => (s.selectQueue t, l.addr)

theorem flipped_eq_some {p : Bool} : s.flipped mac p t = some l ↔ s.getRalistNode t mac = some l ∧ l.txPause ≠ p := by
  simp [flipped, filter_eq_some_iff]

theorem addrs_flippedNodes (s : Bss) (mac : Mac) (p : Bool) : (s.flippedNodes mac p).map Prod.snd =
    (List.finRange 8).filterMap fun t => (s.flipped mac p t).map addr := by
  simp only [flippedNodes, map_filterMap, Option.map_map]
  rfl

theorem mem_flippedNodes {p : Bool} :
    a ∈ (s.flippedNodes mac p).map Prod.snd ↔ ∃ t l, s.flipped mac p t = some l ∧ l.addr = a := by
  rw [addrs_flippedNodes]
  simp [mem_filterMap]

theorem live_of_flipped {p : Bool} (h : s.flipped mac p t = some l) : s.Live l.addr :=
  live_of_mem (mem_of_getRalistNode (flipped_eq_some.mp h).1)

theorem nodup_flippedNodes (hd : Distinct s) (p : Bool) : ((s.flippedNodes mac p).map Prod.snd).Nodup := by
  rw [addrs_flippedNodes]
  refine List.Nodup.filterMap (fun t u a ht hu => ?_) (nodup_finRange 8)
  obtain ⟨l, hl, rfl⟩ := map_eq_some_iff.mp ht
  obtain ⟨x, hx, hxl⟩ := map_eq_some_iff.mp hu
  refine hd.cross (mem_map_of_mem (mem_of_getRalistNode (flipped_eq_some.mp hl).1)) ?_
  rw [← hxl]
  exact mem_map_of_mem (mem_of_getRalistNode (flipped_eq_some.mp hx).1)

/-- A list of the row is among them if it is the first one of the RA, and changes. -/
theorem addr_mem_flippedNodes (hd : Distinct s) {p : Bool} (hl : l ∈ s.tbl t) :
    l.addr ∈ (s.flippedNodes mac p).map Prod.snd ↔ s.getRalistNode t mac = some l ∧ l.txPause ≠ p := by
  rw [mem_flippedNodes]
  constructor
  · rintro ⟨u, x, hx, hxl⟩
    obtain ⟨hx, hp⟩ := flipped_eq_some.mp hx
    obtain ⟨rfl, rfl⟩ := hd.eq_of_addr (hd.node_eq hl) (mem_of_getRalistNode hx) hxl
    exact ⟨hx, hp⟩
  · exact fun h => ⟨t, l, flipped_eq_some.mpr h, rfl⟩

/-- The row after the pause : a list is as it was and not among them, or it is the first one of the RA. -/
theorem mem_pauseRow (hd : Distinct s) {p : Bool} (hl : l ∈ pauseRow mac p (s.tbl t)) :
    (l ∈ s.tbl t ∧ l.addr ∉ (s.flippedNodes mac p).map Prod.snd) ∨
      ∃ x, s.getRalistNode t mac = some x ∧ l = x.setPause p := by
  unfold pauseRow at hl
  cases hx : s.getRalistNode t mac with
  | none =>
    rw [replaceFirst_of_none hx] at hl
    refine .inl ⟨hl, fun hmem => ?_⟩
    rw [addr_mem_flippedNodes hd hl, hx] at hmem
    exact absurd hmem.1 (by simp)
  | some x =>
    have hrep := replaceFirst_of_find (f := setPause p) hx
    refine hrep.forall_mem_of_ne (P := fun l => (l ∈ s.tbl t ∧ l.addr ∉ (s.flippedNodes mac p).map Prod.snd) ∨
      ∃ y, some x = some y ∧ l = y.setPause p) (hd.row t) (fun z hz hne => .inl ⟨hz, fun hmem => ?_⟩)
      (.inr ⟨x, rfl, rfl⟩) l hl
    obtain ⟨hz', -⟩ := (addr_mem_flippedNodes hd hz).mp hmem
    rw [hx, some.injEq] at hz'
    exact hne (hz' ▸ rfl)

end Bss

namespace Links

theorem pause (h : Links s) (hd : Distinct s) (mac : Mac) : Links (s.updateRalistTxPause mac true) := by
  have hlive : ∀ a, s.Live a → (s.updateRalistTxPause mac true).Live a :=
    fun a => Bss.live_of_addrs fun t => Bss.addrs_pauseRow mac true (s.tbl t)
  have hlinked : ∀ a, (s.updateRalistTxPause mac true).Linked a ↔
      s.Linked a ∧ a ∉ (s.flippedNodes mac true).map Prod.snd := by
    intro a
    unfold Bss.Linked Bss.updateRalistTxPause Bss.flippedNodes
    simp only [if_true, mem_filter, decide_eq_true_eq, exists_and_right]
  refine ⟨h.threaded.sublist fun q => filter_sublist, fun a ha => hlive a (h.live a ((hlinked a).mp ha).1),
    fun a ha => hlive a (h.selected a ?_), fun t l hl hpause hlink => ?_, fun t l hl hpause htotal => ?_⟩
  · simp only [Bss.updateRalistTxPause, if_true] at ha
    exact (filter_eq_some_iff.mp ha).1
  · obtain ⟨hlink, hoff⟩ := (hlinked _).mp hlink
    rcases Bss.mem_pauseRow hd hl with ⟨hold, -⟩ | ⟨x, hx, rfl⟩
    · exact h.paused t l hold hpause hlink
    · -- it was paused before, or is taken off
      have hxm := Bss.mem_of_getRalistNode hx
      by_cases hxp : x.txPause = true
      · exact h.paused t x hxm hxp hlink
      · exact hoff ((Bss.addr_mem_flippedNodes hd hxm).mpr ⟨hx, hxp⟩)
  · rcases Bss.mem_pauseRow hd hl with ⟨hold, hoff⟩ | ⟨x, -, rfl⟩
    · exact (hlinked _).mpr ⟨h.linked t l hold hpause htotal, hoff⟩
    · exact absurd hpause (by simp [setPause])

/-- What goes on is linked. -/
theorem resume (h : Links s) (hd : Distinct s) (mac : Mac) : Links (s.updateRalistTxPause mac false) := by
  have hlive : ∀ a, s.Live a → (s.updateRalistTxPause mac false).Live a :=
    fun a => Bss.live_of_addrs fun t => Bss.addrs_pauseRow mac false (s.tbl t)
  have hlinked : ∀ a, (s.updateRalistTxPause mac false).Linked a ↔
      s.Linked a ∨ a ∈ (s.flippedNodes mac false).map Prod.snd := by
    intro a
    unfold Bss.Linked Bss.updateRalistTxPause
    simp only [Bool.false_eq_true, if_false, mem_append, mem_reverse, exists_or, or_comm]
    refine or_congr_right ?_
    simp only [Bss.flippedNodes, mem_map, mem_filter, decide_eq_true_eq]
    constructor
    · rintro ⟨q, n, ⟨hn, -⟩, rfl⟩
      exact ⟨n, hn, rfl⟩
    · rintro ⟨n, hn, rfl⟩
      exact ⟨n.1, n, ⟨hn, rfl⟩, rfl⟩
  -- they were paused
  have hnew : ∀ a ∈ (s.flippedNodes mac false).map Prod.snd, ¬s.Linked a := by
    intro a ha
    obtain ⟨t, l, hl, rfl⟩ := Bss.mem_flippedNodes.mp ha
    obtain ⟨hl, hp⟩ := Bss.flipped_eq_some.mp hl
    exact h.paused t l (Bss.mem_of_getRalistNode hl) (by simpa using hp)
  refine ⟨?_, fun a ha => hlive a ?_, fun a ha => hlive a (h.selected a ha), fun t l hl hpause hlink => ?_,
    fun t l hl hpause htotal => ?_⟩
  · exact h.threaded.prepend (Bss.nodup_flippedNodes hd false) fun a ha q hq => hnew a ha ⟨q, hq⟩
  · rcases (hlinked a).mp ha with ha | ha
    · exact h.live a ha
    · obtain ⟨t, l, hl, rfl⟩ := Bss.mem_flippedNodes.mp ha
      exact Bss.live_of_flipped hl
  · rcases Bss.mem_pauseRow hd hl with ⟨hold, hoff⟩ | ⟨x, -, rfl⟩
    · exact ((hlinked _).mp hlink).elim (h.paused t l hold hpause) hoff
    · exact absurd hpause (by simp [setPause])
  · rcases Bss.mem_pauseRow hd hl with ⟨hold, -⟩ | ⟨x, hx, rfl⟩
    · exact (hlinked _).mpr (.inl (h.linked t l hold hpause htotal))
    · have hxm := Bss.mem_of_getRalistNode hx
      refine (hlinked _).mpr ?_
      by_cases hxp : x.txPause = false
      · exact .inl (h.linked t x hxm hxp htotal)
      · exact .inr ((Bss.addr_mem_flippedNodes hd hxm).mpr ⟨hx, hxp⟩)

/-- `wlan_update_non_tdls_ralist` leaves the links alone. -/
theorem nonTdlsPause (h : Links s) (mac : Mac) (p : Bool)
    (hsafe : ∀ t, ∀ l ∈ s.tbl t, l.ra ≠ mac → l.txPause ≠ p → if p then ¬s.Linked l.addr else l.totalPkts = 0) :
    Links (s.updateNonTdlsRalist mac p) := by
  have hrow : ∀ t, ∀ l ∈ Bss.nonTdlsRow mac p (s.tbl t), ∃ x ∈ s.tbl t, l = x ∨ x.ra ≠ mac ∧ l = x.setPause p := by
    intro t l hl
    obtain ⟨x, hx, rfl⟩ := mem_map.mp hl
    split_ifs with hra
    · exact ⟨x, hx, .inr ⟨hra, rfl⟩⟩
    · exact ⟨x, hx, .inl rfl⟩
  refine h.of_lists rfl rfl (fun t => Bss.addrs_nonTdlsRow mac p (s.tbl t)) (fun t l hl hpause => ?_)
    fun t l hl hpause htotal => ?_
  · obtain ⟨x, hx, rfl | ⟨hra, rfl⟩⟩ := hrow t l hl
    · exact h.paused t l hx hpause
    · obtain rfl : p = true := hpause
      by_cases hxp : x.txPause = true
      · exact h.paused t x hx hxp
      · have hoff := hsafe t x hx hra hxp
        rwa [if_pos rfl] at hoff
  · obtain ⟨x, hx, rfl | ⟨hra, rfl⟩⟩ := hrow t l hl
    · exact h.linked t l hx hpause htotal
    · obtain rfl : p = false := hpause
      by_cases hxp : x.txPause = false
      · exact h.linked t x hx hxp htotal
      · have hzero := hsafe t x hx hra hxp
        rw [if_neg Bool.false_ne_true] at hzero
        exact absurd hzero htotal

/-- `wlan_ralist_update` ends pauses and does not link. -/
theorem ralistUpdate (h : Links s) {old new : Mac}
    (hsafe : ∀ t, (s.getRalistNode t old).all (fun l => !l.txPause || l.totalPkts = 0) = true) :
    Links (s.ralistUpdate old new) := by
  have hrow : ∀ t, ∀ l ∈ Bss.updateRow old new (s.tbl t), l ∈ s.tbl t ∨
      ∃ x, s.getRalistNode t old = some x ∧ l = x.rename new := by
    intro t l hl
    unfold Bss.updateRow at hl
    cases hx : s.getRalistNode t old with
    | none =>
      rw [replaceFirst_of_none hx] at hl
      exact .inl hl
    | some x =>
      refine (replaceFirst_of_find hx).forall_mem (P := fun l => l ∈ s.tbl t ∨ ∃ y, some x = some y ∧ l = y.rename new)
        (fun z hz => .inl hz) (.inr ⟨x, rfl, rfl⟩) l hl
  refine h.of_lists rfl rfl (fun t => Bss.addrs_updateRow old new (s.tbl t)) (fun t l hl hpause => ?_)
    fun t l hl hpause htotal => ?_
  · rcases hrow t l hl with hl | ⟨x, -, rfl⟩
    · exact h.paused t l hl hpause
    · exact absurd hpause (by simp [rename])
  · rcases hrow t l hl with hl | ⟨x, hx, rfl⟩
    · exact h.linked t l hl hpause htotal
    · have ht := hsafe t
      rw [hx] at ht
      simp only [all_some, Bool.or_eq_true, Bool.not_eq_true', decide_eq_true_eq] at ht
      exact h.linked t x (Bss.mem_of_getRalistNode hx) (ht.resolve_right htotal) htotal

/-! ## Drops, peers and TDLS links -/

theorem dropTxPkts (h : Links s) : Links s.dropTxPkts := by
  refine Bss.dropLoop_invariant (I := Links) (fun hi hdel => ?_) (fun _ hi => hi.of_tbl rfl rfl rfl) 8 h
  obtain ⟨l, -, hdrop, he, -⟩ := Bss.delTxPktsInRalist_cases hdel
  obtain ⟨_, -, rfl⟩ := map_eq_some_iff.mp hdel
  refine hi.edit he rfl rfl (txPause_pop l) fun _ _ => .inl ?_
  simp only [droppable, Bool.and_eq_true, decide_eq_true_eq] at hdrop
  exact hdrop.1.1

/-- `wlan_wmm_delete_peer_ralist` takes the peer's lists off. -/
theorem deletePeer (h : Links s) (hd : Distinct s) (mac : Mac) : Links (s.deletePeerRalist cfg mac) := by
  have hmem : ∀ a, a ∈ s.peerNodes mac ↔ ∃ t x, s.getRalistNode t mac = some x ∧ x.addr = a := by
    intro a
    simp [Bss.peerNodes, mem_filterMap]
  have hlinked : ∀ a, (s.deletePeerRalist cfg mac).Linked a ↔ s.Linked a ∧ a ∉ s.peerNodes mac := by
    intro a
    unfold Bss.Linked Bss.deletePeerRalist
    simp only [mem_filter, decide_eq_true_eq, exists_and_right]
  have hlive : ∀ a, s.Live a → a ∉ s.peerNodes mac → (s.deletePeerRalist cfg mac).Live a := by
    rintro a ⟨t, ht⟩ hoff
    refine ⟨t, ?_⟩
    show a ∈ ((s.tbl t).eraseP fun l => l.ra = mac).map addr
    cases hx : s.getRalistNode t mac with
    | none => rwa [eraseP_of_none hx]
    | some x => exact (eraseP_of_find hx).mem_map_of_ne ht fun hax => hoff ((hmem a).mpr ⟨t, x, hx, hax.symm⟩)
  refine ⟨h.threaded.sublist fun q => filter_sublist, fun a ha => ?_, fun a ha => ?_, fun t l hl hpause hlink => ?_,
    fun t l hl hpause htotal => ?_⟩
  · obtain ⟨ha, hoff⟩ := (hlinked a).mp ha
    exact hlive a (h.live a ha) hoff
  · obtain ⟨ha, hoff⟩ := filter_eq_some_iff.mp ha
    exact hlive a (h.selected a ha) (by simpa using hoff)
  · exact h.paused t l (mem_of_mem_eraseP hl) hpause ((hlinked _).mp hlink).1
  · have hold := mem_of_mem_eraseP hl
    refine (hlinked _).mpr ⟨h.linked t l hold hpause htotal, fun hpeer => ?_⟩
    -- the peer's list of this row is not in it any more
    obtain ⟨u, x, hx, hxl⟩ := (hmem _).mp hpeer
    obtain ⟨rfl, rfl⟩ := hd.eq_of_addr (hd.node_eq hold) (Bss.mem_of_getRalistNode hx) hxl
    exact (eraseP_of_find hx).key_ne (hd.row u) hl rfl

theorem hold (h : Links s) (htotal : TotalExact s) (mac : Mac) : Links (s.holdTdlsPackets mac) := by
  have hrow : ∀ t, ∀ l ∈ Bss.holdRow mac (s.tbl t), ∃ x ∈ s.tbl t, l.addr = x.addr ∧ l.txPause = x.txPause ∧
      (l.totalPkts ≠ 0 → x.totalPkts ≠ 0) := by
    intro t l hl
    cases hr : s.tbl t with
    | nil => simp [hr, Bss.holdRow] at hl
    | cons x rest =>
      rw [hr, Bss.holdRow, mem_cons] at hl
      rcases hl with rfl | hl
      · refine ⟨x, mem_cons_self, addr_holdTdls mac x, txPause_holdTdls mac x, fun hne hzero => hne ?_⟩
        have hnil := htotal.length_le (t := t) (hr ▸ mem_cons_self)
        rw [hzero, Nat.le_zero, length_eq_zero_iff] at hnil
        rw [totalPkts_holdTdls, tdlsPackets, hnil, hzero, filter_nil, length_nil]
        decide
      · exact ⟨l, mem_cons_of_mem _ hl, rfl, rfl, id⟩
  refine h.of_lists rfl rfl (fun t => Bss.addrs_holdRow mac (s.tbl t)) (fun t l hl hpause => ?_)
    fun t l hl hpause hne => ?_
  · obtain ⟨x, hx, haddr, hxp, -⟩ := hrow t l hl
    rw [haddr]
    exact h.paused t x hx (hxp ▸ hpause)
  · obtain ⟨x, hx, haddr, hxp, hxt⟩ := hrow t l hl
    rw [haddr]
    exact h.linked t x hx (hxp ▸ hpause) (hxt hne)

theorem restoreBuf (h : Links s) {r : Option ℕ} (hready : ∀ l, r.bind (s.node t) = some l → s.LinkReady l) :
    Links (s.restoreBuf b t r) := by
  rcases s.restoreBuf_cases b t r with heq | ⟨l, hl, -, he⟩
  · rwa [heq]
  · obtain ⟨-, -, -, hp, hsel⟩ := s.restoreBuf_frame b t r
    exact h.push he hp hsel rfl (hready l hl)

end Links

namespace Bss

/-- Each packet that the loop of `wlan_restore_tdls_packets` restores comes to a list that is paused or linked. -/
def restoreReady (cfg : Config) (mac : Mac) (complete : Bool) : List Buf → List Alloc → Bss → Bool
  | [], _, _ => true
  | b :: bs, cs, s =>
    match s.restoreTarget cfg mac complete cs (s.downgradeTid b.priority) with
    | none => true
    | some (u, cs', r) => ((r.bind (u.node (s.downgradeTid b.priority))).all fun l => u.LinkReady l) &&
        restoreReady cfg mac complete bs cs' (u.restoreBuf b (s.downgradeTid b.priority) r)

/-- A teardown frees lists that are not linked or selected, and moves packets to first lists that are paused or linked. -/
def TeardownSafe (s : Bss) (mac : Mac) : Prop :=
  ∀ t, (s.getRalistNode t mac).all (fun x => ¬s.Linked x.addr && s.selectedRaList ≠ some x.addr &&
    (x.bufHead = [] || (s.tbl t).head?.all fun ap => s.LinkReady ap)) = true
  deriving Decidable

/-- A list that stays after a teardown is as it was, or has taken packets and needs no link for them. -/
theorem mem_row_teardown {u : Bss} (hpush : FirstPushed s u) (hp : u.pendingTxq = s.pendingTxq)
    (hsafe : s.TeardownSafe mac) (hl : l ∈ deleteTdlsRow mac (u.tbl t)) : ∃ x ∈ u.tbl t, l.addr = x.addr ∧ l.txPause = x.txPause ∧
      (l.totalPkts ≠ 0 → x.totalPkts ≠ 0 ∨ u.LinkReady x) := by
  rcases deleteTdlsRow_cases mac (u.tbl t) with
    ⟨heq, -⟩ | ⟨ap, rest, hu, ⟨hra, heq⟩ | ⟨x, rest', hra, hx, hrem, -, heq⟩⟩
  · rw [heq] at hl
    exact ⟨l, hl, rfl, rfl, .inl⟩
  · rw [heq] at hl
    exact ⟨l, by rw [hu]; exact mem_cons_of_mem _ hl, rfl, rfl, .inl⟩
  · rw [heq, mem_cons] at hl
    rw [hu]
    rcases hl with rfl | hl
    · refine ⟨ap, mem_cons_self, addr_takeOver ap x, txPause_takeOver ap x, fun hne => ?_⟩
      rcases hpush t with ⟨-, hnil⟩ | ⟨ap₀, ap', rest₀, hrow, hu', hra', had, hpause⟩
      · simp [hnil] at hu
      · obtain ⟨rfl, rfl⟩ := List.cons.inj (hu.symm.trans hu')
        have ht := hsafe t
        rw [getRalistNode, hrow, find?_cons_of_neg (by simpa using hra' ▸ hra), hx] at ht
        simp only [all_some, head?_cons, Bool.and_eq_true, Bool.or_eq_true, decide_eq_true_eq] at ht
        rcases ht.2 with hempty | hready
        · left
          rintro hzero
          rw [totalPkts_takeOver, hempty, hzero] at hne
          exact hne rfl
        · right
          unfold LinkReady at hready ⊢
          rwa [linked_congr hp, had, hpause]
    · exact ⟨l, mem_cons_of_mem _ (hrem.sublist.subset hl), rfl, rfl, .inl⟩

end Bss

namespace Links

theorem restoreLoop {complete : Bool} : ∀ {bs : List Buf} {cs : List Bss.Alloc} {s : Bss}, Links s →
    Bss.restoreReady cfg mac complete bs cs s = true → Bss.restoreLoop cfg mac complete bs cs s = some s' → Links s'
  | [], cs, s, h, _, hs => by
    obtain rfl := some.inj hs
    exact h
  | b :: bs, cs, s, h, hready, hs => by
    unfold Bss.restoreLoop at hs
    obtain ⟨⟨u, cs', r⟩, ht, hs⟩ := bind_eq_some_iff.mp hs
    unfold Bss.restoreReady at hready
    simp only [ht, Bool.and_eq_true] at hready
    have hu : Links u := by
      obtain ⟨hto, -⟩ := Bss.restoreTarget_cases (A := fun _ => True) (fun _ _ => trivial) ht
      rcases hto.1 with rfl | ⟨c, -, -, -, hfresh, rfl⟩
      · exact h
      · exact h.grow hfresh
    refine restoreLoop (hu.restoreBuf fun l hl => ?_) hready.2 hs
    simpa [hl] using hready.1

theorem deleteTdls {u : Bss} (h : Links u) (hpush : Bss.FirstPushed s u) (hp : u.pendingTxq = s.pendingTxq)
    (hsel : u.selectedRaList = s.selectedRaList) (hsafe : s.TeardownSafe mac)
    (hs : u.deleteTdlsRalist mac = some s') : Links s' := by
  obtain ⟨-, rfl⟩ := Bss.deleteTdlsRalist_eq hs
  -- what is freed has no link
  have hoff : ∀ t x, u.getRalistNode t mac = some x → ¬u.Linked x.addr ∧ u.selectedRaList ≠ some x.addr := by
    intro t x hx
    obtain ⟨y, hy, hyx⟩ := hpush.getRalistNode hx
    have ht := hsafe t
    simp only [hy, all_some, Bool.and_eq_true, decide_eq_true_eq] at ht
    rw [Bss.linked_congr hp, hsel, ← hyx]
    exact ht.1
  have hlive : ∀ a, u.Live a → (∀ t x, u.getRalistNode t mac = some x → a ≠ x.addr) →
      ∃ t, a ∈ (Bss.deleteTdlsRow mac (u.tbl t)).map addr := by
    rintro a ⟨t, ht⟩ hne
    exact ⟨t, Bss.mem_addrs_deleteTdlsRow ht (hne t)⟩
  refine ⟨h.threaded, fun a ha => ?_, fun a ha => ?_, fun t l hl hpause => ?_, fun t l hl hpause hne => ?_⟩
  · exact hlive a (h.live a ha) fun t x hx hax => (hoff t x hx).1 (hax ▸ ha)
  · exact hlive a (h.selected a ha) fun t x hx hax => (hoff t x hx).2 (hax ▸ ha)
  · obtain ⟨x, hx, haddr, hxp, -⟩ := Bss.mem_row_teardown hpush hp hsafe hl
    rw [haddr]
    exact h.paused t x hx (hxp ▸ hpause)
  · obtain ⟨x, hx, haddr, hxp, hxt⟩ := Bss.mem_row_teardown hpush hp hsafe hl
    rw [haddr]
    have hxopen : x.txPause = false := hxp ▸ hpause
    rcases hxt hne with hxt | hready | hlink
    · exact h.linked t x hx hxopen hxt
    · exact absurd hready (by simp [hxopen])
    · exact hlink

end Links

/-! ## Runs -/

namespace Bss

/-- The operations that do not look at the links have nothing to link or unlink. -/
def LinkSafe (cfg : Config) (s : Bss) : Op → Prop
  | .add b e => (s.addTarget cfg b e).all (fun r => (r.2.2.bind (r.1.node r.2.1)).all fun l =>
      r.1.hasSta cfg l || r.1.LinkReady l) = true
  | .done resource => resource = true → s.flight.all (fun f => f.processed || (s.node f.tid f.ptr).all fun l =>
      s.LinkReady l) = true
  | .nonTdlsPause mac p => ∀ t, ∀ l ∈ s.tbl t, l.ra ≠ mac → l.txPause ≠ p →
      if p then ¬s.Linked l.addr else l.totalPkts = 0
  | .ralistUpdate old _ => ∀ t, (s.getRalistNode t old).all (fun l => !l.txPause || l.totalPkts = 0) = true
  | .restore mac complete cs =>
    restoreReady cfg mac complete (s.tdlsPendingTxq.filter fun b => b.ra = mac) cs
        { s with tdlsPendingTxq := s.tdlsPendingTxq.filter fun b => ¬b.ra = mac } = true ∧
      (complete = false → s.TeardownSafe mac)
  | _ => True

instance (cfg : Config) (s : Bss) (op : Op) : Decidable (s.LinkSafe cfg op) := by
  induction op using Op.casesOn <;> dsimp only [Bss.LinkSafe] <;> infer_instance

/-- Fewer packets than a 16-bit counter can count, no address of a node in flight is allocated, no list is freed under a
cursor, and the links are safe. -/
def KeepsLinks (cfg : Config) (s : Bss) (op : Op) : Prop :=
  s.load + 1 < 2 ^ 16 ∧ s.AllocSafe op ∧ s.CurrSafe op ∧ s.LinkSafe cfg op
  deriving Decidable

end Bss

/-- Every operation that is safe keeps the links. -/
theorem Links.step (h : Links s) (hd : Distinct s) (htotal : TotalExact s) {op : Op} (hsafe : s.LinkSafe cfg op)
    (hs : s.step cfg op = some s') : Links s' := by
  cases op with
  | add b e =>
    rcases Bss.addBufTxqueue_cases hs with rfl | ⟨u, t, r, htarget, hu, rfl⟩
    · exact h.of_tbl rfl rfl rfl
    · have hready : ∀ l, r.bind (u.node t) = some l → u.hasSta cfg l = true ∨ u.LinkReady l := by
        intro l hl
        simpa [Bss.LinkSafe, htarget, hl] using hsafe
      rcases hu with rfl | ⟨hfresh, ra, rfl⟩
      · exact h.enqueueBuf hd hready
      · exact (h.grow hfresh).enqueueBuf (hd.grow hfresh) hready
  | ralistAdd ra c =>
    obtain ⟨hfresh, rfl⟩ := Bss.ralistAdd_eq hs
    exact h.grow hfresh
  | dequeue d => exact h.dequeue hd htotal hs
  | aggregate =>
    obtain ⟨f, -, -, rfl | ⟨l, hn, hb, rfl⟩⟩ := Bss.aggregatePkt_cases hs
    · exact h.of_tbl rfl rfl rfl
    · exact h.popBuf htotal hn hb
  | done resource =>
    refine h.sendDone htotal hs fun hres f l hf hp hn => ?_
    have hready := hsafe hres
    simpa [hf, hp, hn] using hready
  | txPause mac p =>
    obtain rfl := some.inj hs
    cases p with
    | true => exact h.pause hd mac
    | false => exact h.resume hd mac
  | nonTdlsPause mac p =>
    obtain rfl := some.inj hs
    exact h.nonTdlsPause mac p hsafe
  | ralistUpdate old new =>
    obtain rfl := some.inj hs
    exact h.ralistUpdate hsafe
  | drop =>
    obtain rfl := some.inj hs
    exact h.dropTxPkts
  | deletePeer mac =>
    obtain rfl := some.inj hs
    exact h.deletePeer hd mac
  | hold mac =>
    obtain rfl := some.inj hs
    exact h.hold htotal mac
  | restore mac complete cs =>
    obtain ⟨u, hu, hend⟩ := Bss.restoreTdlsPackets_cases hs
    have hlu : Links u := by
      refine restoreLoop ?_ hsafe.1 hu
      exact h.of_tbl rfl rfl rfl
    rcases hend with ⟨-, rfl⟩ | ⟨rfl, hdel⟩
    · exact hlu
    · obtain ⟨hpush, -, -, hp, hsel⟩ := Bss.firstPushed_restoreLoop hu
      exact hlu.deleteTdls (s := s) hpush hp hsel (hsafe.2 rfl) hdel
  | priorities ie =>
    obtain rfl := some.inj hs
    cases ie <;> exact h.of_tbl rfl rfl rfl
  | downgrade vals =>
    obtain rfl := some.inj hs
    exact h.of_tbl rfl rfl rfl

/-- What carries the links through a run. -/
structure LinkInv (s : Bss) : Prop where
  distinct : Distinct s
  total : TotalExact s
  curr : CurrValid s
  links : Links s

theorem linkInv_empty : LinkInv emptyBss :=
  ⟨accountInv_empty.distinct, accountInv_empty.total, ⟨fun _ _ => rfl, fun _ _ h => absurd h (by simp [emptyBss])⟩,
    ⟨Threaded.empty, fun _ ⟨_, h⟩ => absurd h not_mem_nil, fun _ h => absurd h (by simp [emptyBss]),
      fun _ _ hl => absurd hl not_mem_nil, fun _ _ hl => absurd hl not_mem_nil⟩⟩

theorem LinkInv.step (h : LinkInv s) {op : Op} (hc : s.KeepsLinks cfg op) (hs : s.step cfg op = some s') : LinkInv s' :=
  ⟨h.distinct.step hs, h.total.step h.distinct hc.1 hc.2.1 hs, h.curr.step h.distinct hc.2.2.1 hs,
    h.links.step h.distinct h.total hc.2.2.2 hs⟩

/-- The links are valid : they lead to lists of the rows, `ra_list_curr` is null for an empty row only, no list is on the pending
lists twice or paused, and every other list that counts a packet is on one. -/
structure LinksValid (s : Bss) : Prop where
  pending : ∀ q, ∀ a ∈ s.pendingTxq q, ∃ t, ∃ l ∈ s.tbl t, l.addr = a
  selected : ∀ a, s.selectedRaList = some a → ∃ t, ∃ l ∈ s.tbl t, l.addr = a
  curr : ∀ t a, s.curr t = .node a → ∃ l ∈ s.tbl t, l.addr = a
  currNull : ∀ t, s.curr t = .null → s.tbl t = []
  once : ((List.finRange 4).flatMap s.pendingTxq).Nodup
  paused : ∀ t, ∀ l ∈ s.tbl t, l.txPause = true → ∀ q, l.addr ∉ s.pendingTxq q
  waiting : ∀ t, ∀ l ∈ s.tbl t, l.txPause = false → 0 < l.totalPkts → ∃ q, l.addr ∈ s.pendingTxq q

/-- **Valid links.** In every run whose operations meet `KeepsLinks`, the links of the scheduler are valid. -/
theorem links_valid (h : (wmmSystem cfg).ReachableWhen (Bss.KeepsLinks cfg) s) : LinksValid s := by
  have hi : LinkInv s := h.invariant (fun s hs => hs ▸ linkInv_empty) fun _ _ _ hi hc hs => hi.step hc hs
  have hmem : ∀ a, s.Live a → ∃ t, ∃ l ∈ s.tbl t, l.addr = a :=
    fun a ⟨t, ht⟩ => ⟨t, mem_map.mp ht⟩
  refine ⟨fun q a ha => hmem a (hi.links.live a ⟨q, ha⟩), fun a ha => hmem a (hi.links.selected a ha),
    fun t a ha => mem_map.mp (hi.curr.node t a ha), hi.curr.null, hi.links.threaded.nodup_flatMap (nodup_finRange 4),
    fun t l hl hpause q hq => hi.links.paused t l hl hpause ⟨q, hq⟩, fun t l hl hpause htotal => ?_⟩
  exact hi.links.linked t l hl hpause htotal.ne'

/-! ## Runs of a station with a TDLS link -/

/-- A station that schedules its clients. -/
def clientConfig : Config := ⟨true, false, false⟩

def peerAddr : Mac := ⟨0x00, 0x22, 0x33, 0x44, 0x55, 0x66⟩

/-- The lists of the AP and of a peer with a TDLS link, and a packet to each. -/
def linkedPeer : List Op :=
  [.downgrade id, .ralistAdd apAddr ⟨[1, 2, 3, 4, 5, 6, 7, 8], true, false, false⟩,
    .ralistAdd peerAddr ⟨[9, 10, 11, 12, 13, 14, 15, 16], true, false, false⟩,
    .add (bestEffort apAddr) ⟨.none, false, false, ⟨[], false, false, false⟩⟩,
    .add (bestEffort peerAddr) ⟨.setup, false, false, ⟨[], false, false, false⟩⟩]

/-- The peer pauses, the AP's list is served, and the peer goes on. -/
theorem links_valid_peer : ∃ s, (wmmSystem clientConfig).ReachableWhen (Bss.KeepsLinks clientConfig) s ∧
    s.selectedRaList = some 1 ∧ (∃ q, 9 ∈ s.pendingTxq q) ∧ LinksValid s := by
  obtain ⟨s, hs, hrun⟩ := System.exists_reachableWhen_of_runWhen (M := wmmSystem clientConfig)
    (C := Bss.KeepsLinks clientConfig) (P := fun s => decide (s.selectedRaList = some 1) && decide (s.Linked 9))
    (l := linkedPeer ++ [Op.txPause peerAddr true, .dequeue (.next [(2, true)]), .done false, .txPause peerAddr false])
    (s := emptyBss) (.init rfl) (by decide +kernel)
  simp only [Bool.and_eq_true, decide_eq_true_eq] at hrun
  exact ⟨s, hs, hrun.1, hrun.2, links_valid hs⟩

/-- The TDLS link is torn down while the peer's list has a packet : `wlan_wmm_delete_tdls_ralist` frees the list and leaves
its node on the pending list. -/
theorem teardown_leaves_node : ¬∀ s, (wmmSystem clientConfig).Reachable s → LinksValid s := by
  intro h
  obtain ⟨s, hs, hrun⟩ := System.exists_reachable_of_run (M := wmmSystem clientConfig)
    (P := fun s => decide (s.Linked 9) && decide (¬s.Live 9))
    (l := linkedPeer ++ [Op.restore peerAddr false []]) (s := emptyBss) rfl (by decide +kernel)
  simp only [Bool.and_eq_true, decide_eq_true_eq] at hrun
  obtain ⟨⟨q, hq⟩, hdead⟩ := hrun
  obtain ⟨t, l, hl, haddr⟩ := (h s hs).pending q 9 hq
  exact hdead (haddr ▸ Bss.live_of_mem hl)

end WlanDriver.Wmm
