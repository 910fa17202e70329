import WlanDriver.Lib.Threaded
import WlanDriver.Wmm.Operations

/-!
# Rows of RA lists

What the operations do to the rows, for every later invariant : which node an edit changes, that an
operation keeps the addresses of a row or drops some, and what the scheduler hands out.

One invariant belongs to the rows alone. `Distinct` : no two nodes have one address, which the allocator promises.
-/

namespace WlanDriver.Wmm

open Ethernet List Function RaList
open Option hiding map_map

variable {cfg : Config} {s s' : Bss} {t : Tid} {a : ℕ} {l x y : RaList} {b : Buf} {mac : Mac}

/-! ## Nodes -/

namespace Bss

theorem node_addr (h : s.node t a = some l) : l.addr = a := by
  simpa using find?_some h

theorem mem_of_node (h : s.node t a = some l) : l ∈ s.tbl t :=
  mem_of_find?_eq_some h

theorem mem_of_getRalistNode (h : s.getRalistNode t mac = some l) : l ∈ s.tbl t :=
  mem_of_find?_eq_some h

theorem node_of_bind {r : Option ℕ} (h : r.bind (s.node t) = some l) : s.node t l.addr = some l := by
  obtain ⟨a, -, ha⟩ := bind_eq_some_iff.mp h
  rwa [node_addr ha]

theorem editNode_replaces (h : s.node t a = some x) (f : RaList → RaList) :
    Replaces x (f x) (s.tbl t) (s.editNode t a f t) := by
  unfold editNode
  rw [update_self]
  exact replaceFirst_of_find h

theorem editNode_of_ne {t' : Tid} (h : t' ≠ t) (f : RaList → RaList) : s.editNode t a f t' = s.tbl t' :=
  update_of_ne h _ _

theorem node_of_deref (h : s.deref a = some (t, l)) : s.node t a = some l := by
  obtain ⟨u, -, hu⟩ := exists_of_findSome?_eq_some h
  cases hn : s.node u a with
  | none => simp [hn] at hu
  | some m =>
    simp only [hn, map_some, some.injEq, Prod.mk.injEq] at hu
    obtain ⟨rfl, rfl⟩ := hu
    exact hn

theorem node_eq_none_iff : s.node t a = none ↔ a ∉ (s.tbl t).map RaList.addr := by
  unfold node
  simp [find?_eq_none]

theorem ralistAdd_eq {c : Alloc} (h : s.ralistAdd cfg c mac = some s') : s.Fresh c ∧ s' = s.grow cfg c mac := by
  unfold ralistAdd at h
  split_ifs at h with hc
  exact ⟨hc, (some.inj h).symm⟩

theorem addrs_grow (cfg : Config) (c : Alloc) (mac : Mac) (s : Bss) (t : Tid) :
    ((s.grow cfg c mac).tbl t).map addr = (s.tbl t).map addr ++ c.addrs[t.val]?.toList := by
  unfold grow
  dsimp only
  rw [map_append]
  cases c.addrs[t.val]? with
  | none => rfl
  | some a => rfl

end Bss

/-! ## Distinct addresses -/

/-- No two nodes have one address. -/
structure Distinct (s : Bss) : Prop where
  row : ∀ t, ((s.tbl t).map addr).Nodup
  cross : ∀ {t t' a}, a ∈ (s.tbl t).map addr → a ∈ (s.tbl t').map addr → t = t'

namespace Distinct

theorem of_sublist (h : Distinct s)
    (hsub : ∀ t, ((s'.tbl t).map addr).Sublist ((s.tbl t).map addr)) : Distinct s' :=
  ⟨fun t => (h.row t).sublist (hsub t), fun ha ha' => h.cross ((hsub _).subset ha) ((hsub _).subset ha')⟩

theorem of_tbl (h : Distinct s) (htbl : s'.tbl = s.tbl) : Distinct s' :=
  h.of_sublist fun t => by rw [htbl]

/-- Each row keeps its addresses. -/
theorem of_addrs (h : Distinct s) (heq : ∀ t, (s'.tbl t).map RaList.addr = (s.tbl t).map RaList.addr) : Distinct s' :=
  h.of_sublist fun t => by rw [heq]

/-- A node that is found by its RA keeps its address. -/
theorem replaceFirst {p : RaList → Bool} {f : RaList → RaList} (hf : ∀ l, (f l).addr = l.addr) (row : List RaList) :
    (WlanDriver.replaceFirst p f row).map addr = row.map addr := by
  cases hn : row.find? p with
  | none => rw [replaceFirst_of_none hn]
  | some x => exact (replaceFirst_of_find hn).map_eq (hf x)

theorem grow (h : Distinct s) {c : Bss.Alloc} (hc : s.Fresh c) : Distinct (s.grow cfg c mac) := by
  obtain ⟨hnodup, -, hfresh⟩ := hc
  have hold : ∀ t a, a ∈ (s.tbl t).map addr → a ∉ c.addrs :=
    fun t a ha hin => hfresh a hin ⟨t, ha⟩
  refine ⟨fun t => ?_, fun {t t' a} ha ha' => ?_⟩
  · rw [Bss.addrs_grow]
    refine nodup_append.mpr ⟨h.row t, ?_, fun x hx y hy he => ?_⟩
    · cases c.addrs[t.val]? <;> simp
    · subst he
      exact hold t _ hx (mem_of_getElem? (mem_toList.mp hy))
  · rw [Bss.addrs_grow, mem_append] at ha ha'
    rcases ha with ha | ha <;> rcases ha' with ha' | ha'
    · exact h.cross ha ha'
    · exact absurd (mem_of_getElem? (mem_toList.mp ha')) (hold t a ha)
    · exact absurd (mem_of_getElem? (mem_toList.mp ha)) (hold t' a ha')
    · obtain ⟨_, hb⟩ := List.getElem?_eq_some_iff.mp (mem_toList.mp ha)
      obtain ⟨_, hb'⟩ := List.getElem?_eq_some_iff.mp (mem_toList.mp ha')
      exact Fin.ext ((List.Nodup.getElem_inj_iff hnodup).mp (hb.trans hb'.symm))

end Distinct

/-! ## What the operations can do -/

namespace Bss

theorem getQueueRaptr_cases {c : Alloc} {r : Bss × Option ℕ} (h : s.getQueueRaptr cfg c t mac = some r) :
    (r.1 = s ∨ s.Fresh c ∧ r.1 = s.grow cfg c mac) ∧
      ∀ a, r.2 = some a → ∃ l, r.1.getRalistNode t mac = some l ∧ l.addr = a := by
  unfold getQueueRaptr at h
  cases hn : s.getRalistNode t mac with
  | some l =>
    simp only [hn, some.injEq] at h
    subst h
    exact ⟨.inl rfl, fun a ha => ⟨l, hn, by simpa using ha⟩⟩
  | none =>
    simp only [hn] at h
    split_ifs at h
    · simp only [some.injEq] at h
      subst h
      exact ⟨.inl rfl, by simp⟩
    · obtain ⟨u, hu, rfl⟩ := map_eq_some_iff.mp h
      obtain ⟨hf, rfl⟩ := ralistAdd_eq hu
      exact ⟨.inr ⟨hf, rfl⟩, fun a ha => by simpa using ha⟩

/-- Where `wlan_wmm_add_buf_txqueue` queues the packet, unless it is held for a TDLS link : the state with the new lists, if
it adds some, the TID and the list. -/
def addTarget (s : Bss) (cfg : Config) (b : Buf) (e : AddEnv) : Option (Bss × Tid × Option ℕ) :=
  let tid := s.downgradeTid b.priority
  if cfg.raBased then
    let dest := b.mac.getD b.ra
    let ra := if dest.isMulticast then bcastAddr else dest
    let tid := if !dest.isMulticast && cfg.uap && e.alloc.station && e.legacy then s.downgradeTid 0xff else tid
    (s.getQueueRaptr cfg e.alloc tid ra).map fun r => (r.1, tid, r.2)
  else
    match e.link with
    | .setup => (s.getQueueRaptr cfg e.alloc tid b.ra).map fun r => (r.1, tid, r.2)
    | .inProgress => none
    | .none => some (s, tid, s.firstNode tid)

/-- A packet is held for a TDLS link, or goes to a list, which may be new. -/
theorem addBufTxqueue_cases {e : AddEnv} (h : s.addBufTxqueue cfg b e = some s') :
    s' = { s with tdlsPendingTxq := s.tdlsPendingTxq ++ [b] } ∨
      ∃ u t r, s.addTarget cfg b e = some (u, t, r) ∧ (u = s ∨ s.Fresh e.alloc ∧ ∃ ra, u = s.grow cfg e.alloc ra) ∧
        s' = u.enqueueBuf cfg e b t r := by
  have hraptr : ∀ {t ra}, (s.getQueueRaptr cfg e.alloc t ra).map (fun r => r.1.enqueueBuf cfg e b t r.2) = some s' →
      ∃ u t' r, (s.getQueueRaptr cfg e.alloc t ra).map (fun r => (r.1, t, r.2)) = some (u, t', r) ∧
        (u = s ∨ s.Fresh e.alloc ∧ ∃ ra, u = s.grow cfg e.alloc ra) ∧ s' = u.enqueueBuf cfg e b t' r := by
    intro t ra h
    obtain ⟨r, hr, rfl⟩ := map_eq_some_iff.mp h
    refine ⟨r.1, t, r.2, by rw [hr, map_some], ?_, rfl⟩
    rcases (getQueueRaptr_cases hr).1 with hu | ⟨hf, hu⟩
    · exact .inl hu
    · exact .inr ⟨hf, ra, hu⟩
  unfold addBufTxqueue at h
  unfold addTarget
  split_ifs at h ⊢
  · exact .inr (hraptr h)
  · cases hl : e.link with
    | setup =>
      simp only [hl] at h
      exact .inr (hraptr h)
    | inProgress =>
      simp only [hl, some.injEq] at h
      exact .inl h.symm
    | none =>
      simp only [hl, some.injEq] at h
      exact .inr ⟨s, _, _, rfl, .inl rfl, h.symm⟩

/-- The scheduler changes its own links only. -/
def SchedEq (s s' : Bss) : Prop :=
  ∃ h p sel, s' = { s with highestQueuedPrio := h, pendingTxq := p, selectedRaList := sel }

theorem SchedEq.trans {u : Bss} (h : SchedEq s u) (h' : SchedEq u s') : SchedEq s s' := by
  obtain ⟨_, _, _, rfl⟩ := h
  obtain ⟨_, _, _, rfl⟩ := h'
  exact ⟨_, _, _, rfl⟩

theorem SchedEq.tbl (h : SchedEq s s') : s'.tbl = s.tbl := by
  obtain ⟨_, _, _, rfl⟩ := h
  rfl

theorem schedEq_unlink (s : Bss) (a : ℕ) : SchedEq s (s.unlink a) :=
  ⟨_, _, _, rfl⟩

theorem linked_unlink {z : ℕ} : (s.unlink a).Linked z ↔ s.Linked z ∧ z ≠ a := by
  unfold Linked unlink
  simp only [mem_filter, decide_eq_true_eq, exists_and_right]

/-- The quotas leave the same lists linked. -/
theorem processRaListQuoats_cases {within : Bool} {r : Bss × Bool} (h : s.processRaListQuoats a l within = some r) :
    SchedEq s r.1 ∧ ∀ z, r.1.Linked z ↔ s.Linked z := by
  unfold processRaListQuoats at h
  split_ifs at h with hw hlink
  · obtain rfl := some.inj h
    exact ⟨⟨_, _, _, rfl⟩, fun _ => Iff.rfl⟩
  · obtain rfl := some.inj h
    refine ⟨⟨_, _, _, rfl⟩, fun z => ?_⟩
    have hpush : _ ↔ (s.unlink a).Linked z ∨ z = a := exists_mem_push (i := l.queue)
    refine hpush.trans ?_
    rw [linked_unlink]
    by_cases hza : z = a
    · simp [hza, hlink]
    · simp [hza]

/-- What `wlan_wmm_get_next_ra_list` returns is on a pending list and has a packet. -/
theorem getNextRaList_cases {picks : List (Ac × Bool)} :
    ∀ {cur : Option Ac} {s : Bss} {r : Bss × Option (Tid × ℕ)}, getNextRaList cur picks s = some r →
      SchedEq s r.1 ∧ ∀ t a, r.2 = some (t, a) →
        s.Linked a ∧ ∃ l, s.node t a = some l ∧ l.bufHead ≠ [] ∧ l.totalPkts ≠ 0 := by
  induction picks with
  | nil =>
    intro cur s r h
    unfold getNextRaList at h
    split_ifs at h
    simp only [some.injEq] at h
    subst h
    exact ⟨⟨_, _, _, rfl⟩, by simp⟩
  | cons p picks ih =>
    intro cur s r h
    obtain ⟨ac, within⟩ := p
    unfold getNextRaList at h
    split_ifs at h
    cases hp : s.pendingTxq ac with
    | nil => simp [hp] at h
    | cons a rest =>
      have hlink : s.Linked a := ⟨ac, by rw [hp]; exact mem_cons_self⟩
      simp only [hp] at h
      cases hd : s.deref a with
      | none => simp [hd] at h
      | some d =>
        obtain ⟨t, l⟩ := d
        simp only [hd] at h
        split_ifs at h with hdata
        · -- the node has no data and is unlinked
          obtain ⟨heq, hres⟩ := ih h
          refine ⟨(schedEq_unlink s a).trans heq, fun t' a' hr => ?_⟩
          obtain ⟨⟨q, hq⟩, hnode⟩ := hres t' a' hr
          exact ⟨⟨q, (mem_filter.mp hq).1⟩, hnode⟩
        · push Not at hdata
          cases hq : s.processRaListQuoats a l within with
          | none => simp [hq] at h
          | some u =>
            obtain ⟨u, ready⟩ := u
            obtain ⟨heq, hsub⟩ := processRaListQuoats_cases hq
            cases ready with
            | true =>
              simp only [hq, some.injEq] at h
              subst h
              refine ⟨heq, fun t' a' hr => ?_⟩
              simp only [some.injEq, Prod.mk.injEq] at hr
              obtain ⟨rfl, rfl⟩ := hr
              exact ⟨hlink, l, node_of_deref hd, hdata.2, hdata.1⟩
            | false =>
              simp only [hq] at h
              obtain ⟨heq', hres⟩ := ih h
              refine ⟨heq.trans heq', fun t' a' hr => ?_⟩
              obtain ⟨hlink', l', hn, hrest⟩ := hres t' a' hr
              refine ⟨(hsub _).mp hlink', l', ?_, hrest⟩
              unfold node at hn ⊢
              rwa [heq.tbl] at hn

theorem mem_ring {p : RaPtr} {row r : List RaList} (h : ring p row = some r) : l ∈ r ↔ l ∈ row := by
  cases p with
  | null => simp [ring] at h
  | head =>
    simp only [ring, some.injEq] at h
    rw [h]
  | node a =>
    simp only [ring, map_eq_some_iff] at h
    obtain ⟨i, -, rfl⟩ := h
    rw [mem_append, or_comm, ← mem_append, take_append_drop]

/-- No list at the priority `i` may be served. -/
def NoneEligible (s : Bss) (i : Tid) : Prop :=
  ∀ l ∈ s.tbl (s.tosToTid i), l.eligible = false

/-- What a scan through the priorities `is` says. -/
def ScanResult (s : Bss) (is : List Tid) : Option (Tid × RaList) → Prop
  | none => ∀ i ∈ is, s.NoneEligible i
  | some (i, l) => l ∈ s.tbl (s.tosToTid i) ∧ l.eligible = true ∧
      ∃ is₁ is₂, is = is₁ ++ i :: is₂ ∧ ∀ j ∈ is₁, s.NoneEligible j

/-- A priority without such a list in front of a scan. -/
theorem ScanResult.cons {i : Tid} {is : List Tid} {r : Option (Tid × RaList)} (hi : s.NoneEligible i)
    (h : ScanResult s is r) : ScanResult s (i :: is) r := by
  cases r with
  | none => exact forall_mem_cons.mpr ⟨hi, h⟩
  | some r =>
    obtain ⟨hl, he, is₁, is₂, his, hno⟩ := h
    exact ⟨hl, he, i :: is₁, is₂, by rw [his]; rfl, forall_mem_cons.mpr ⟨hi, hno⟩⟩

/-- The scan stops at the first priority with a list that it may serve. -/
theorem scanPrio_cases :
    ∀ {is : List Tid} {r : Option (Tid × RaList)}, s.scanPrio is = some r → ScanResult s is r
  | [], r, h => by
    simp only [scanPrio, some.injEq] at h
    subst h
    simp [ScanResult]
  | i :: is, r, h => by
    unfold scanPrio at h
    split_ifs at h with hempty
    · exact .cons (by simp [NoneEligible, hempty]) (scanPrio_cases h)
    · obtain ⟨row, hrow, h⟩ := bind_eq_some_iff.mp h
      cases hf : row.find? eligible with
      | none =>
        simp only [hf] at h
        refine .cons (fun l hl => ?_) (scanPrio_cases h)
        simpa using find?_eq_none.mp hf l ((mem_ring hrow).mpr hl)
      | some l =>
        simp only [hf, some.injEq] at h
        subst h
        exact ⟨(mem_ring hrow).mp (mem_of_find?_eq_some hf), find?_some hf, [], is, rfl, by simp⟩

end Bss

theorem Distinct.node_eq (h : Distinct s) (hl : l ∈ s.tbl t) : s.node t l.addr = some l := by
  cases hn : s.node t l.addr with
  | none => exact absurd (mem_map_of_mem hl) (Bss.node_eq_none_iff.mp hn)
  | some x =>
    have hx := Bss.mem_of_node hn
    exact congrArg some (inj_on_of_nodup_map (h.row t) hx hl (Bss.node_addr hn))

theorem Distinct.eq_of_addr (h : Distinct s) {u : Tid} (hn : s.node t a = some l) (hx : x ∈ s.tbl u) (ha : x.addr = a) :
    u = t ∧ x = l := by
  have hl : a ∈ (s.tbl t).map addr := Bss.node_addr hn ▸ mem_map_of_mem (Bss.mem_of_node hn)
  have hu : a ∈ (s.tbl u).map addr := ha ▸ mem_map_of_mem hx
  obtain rfl := h.cross hu hl
  have hnode := h.node_eq hx
  rw [ha, hn] at hnode
  exact ⟨rfl, (some.inj hnode).symm⟩

namespace Bss

/-- What the scheduler hands out : a node with a packet, which is not paused unless the links led to it. -/
theorem getNextPriolistPtr_cases (hd : Distinct s) {d : Sched} {r : Bss × Option (Tid × ℕ)}
    (h : s.getNextPriolistPtr cfg d = some r) :
    SchedEq s r.1 ∧ ∀ t a, r.2 = some (t, a) → ∃ l, s.node t a = some l ∧
      (l.eligible = true ∨ d ≠ .highest ∧ (s.Linked a ∨ s.selectedRaList = some a) ∧ l.totalPkts ≠ 0) := by
  cases d with
  | highest =>
    simp only [getNextPriolistPtr, getHighestPriolistPtr, map_eq_some_iff] at h
    obtain ⟨o, ho, rfl⟩ := h
    have hscan := scanPrio_cases ho
    cases o with
    | none => exact ⟨⟨_, _, _, rfl⟩, by simp⟩
    | some o =>
      refine ⟨⟨_, _, _, rfl⟩, fun t a hr => ?_⟩
      simp only [some.injEq, Prod.mk.injEq] at hr
      obtain ⟨rfl, rfl⟩ := hr
      exact ⟨o.2, hd.node_eq hscan.1, .inl hscan.2.1⟩
  | selected within =>
    simp only [getNextPriolistPtr] at h
    split_ifs at h
    obtain ⟨a, ha, h⟩ := bind_eq_some_iff.mp h
    obtain ⟨x, hx, h⟩ := bind_eq_some_iff.mp h
    split_ifs at h with htotal
    obtain ⟨u, hu, rfl⟩ := map_eq_some_iff.mp h
    refine ⟨(processRaListQuoats_cases hu).1, fun t a' hr => ?_⟩
    split_ifs at hr
    simp only [some.injEq, Prod.mk.injEq] at hr
    obtain ⟨rfl, rfl⟩ := hr
    exact ⟨x.2, node_of_deref hx, .inr ⟨by simp, .inr ha, htotal⟩⟩
  | next picks =>
    have hnext : getNextRaList none picks s = some r → SchedEq s r.1 ∧ ∀ t a, r.2 = some (t, a) →
        ∃ l, s.node t a = some l ∧ (l.eligible = true ∨
          Sched.next picks ≠ .highest ∧ (s.Linked a ∨ s.selectedRaList = some a) ∧ l.totalPkts ≠ 0) := by
      intro h
      obtain ⟨heq, hres⟩ := getNextRaList_cases h
      refine ⟨heq, fun t a hr => ?_⟩
      obtain ⟨hlink, l, hn, -, htotal⟩ := hres t a hr
      exact ⟨l, hn, .inr ⟨by simp, .inl hlink, htotal⟩⟩
    simp only [getNextPriolistPtr] at h
    split_ifs at h
    cases hsel : s.selectedRaList with
    | none =>
      simp only [hsel] at h
      rw [hsel] at hnext
      exact hnext h
    | some a =>
      simp only [hsel] at h
      obtain ⟨x, -, h⟩ := bind_eq_some_iff.mp h
      split_ifs at h
      rw [hsel] at hnext
      exact hnext h

/-- A send starts, or the lock is given back before. -/
theorem dequeueTxPacket_cases (hd : Distinct s) {d : Sched} (h : s.dequeueTxPacket cfg d = some s') :
    s.flight = none ∧ ∃ u, SchedEq s u ∧ (s' = u ∨ ∃ t a l, s.node t a = some l ∧
      (l.eligible = true ∨ d ≠ .highest ∧ (s.Linked a ∨ s.selectedRaList = some a) ∧ l.totalPkts ≠ 0) ∧
      s' = u.sendStart t a) := by
  unfold dequeueTxPacket at h
  split_ifs at h with hf
  obtain ⟨r, hr, rfl⟩ := map_eq_some_iff.mp h
  obtain ⟨heq, hres⟩ := getNextPriolistPtr_cases hd hr
  refine ⟨by simpa using hf, r.1, heq, ?_⟩
  cases hr2 : r.2 with
  | none => exact .inl rfl
  | some ta =>
    obtain ⟨l, hn, hl⟩ := hres ta.1 ta.2 hr2
    exact .inr ⟨ta.1, ta.2, l, hn, hl, rfl⟩

end Bss

/-- One node of row `t` changes, and keeps its address. -/
structure NodeEdit (s s' : Bss) (t : Tid) (x y : RaList) : Prop where
  row : Replaces x y (s.tbl t) (s'.tbl t)
  other : ∀ u, u ≠ t → s'.tbl u = s.tbl u
  addr : y.addr = x.addr

namespace NodeEdit

theorem of_editNode {f : RaList → RaList} (hn : s.node t a = some x) (hf : (f x).addr = x.addr)
    (htbl : s'.tbl = s.editNode t a f) : NodeEdit s s' t x (f x) :=
  ⟨by rw [htbl]; exact Bss.editNode_replaces hn f, fun u hu => by rw [htbl, Bss.editNode_of_ne hu], hf⟩

theorem symm (h : NodeEdit s s' t x y) : NodeEdit s' s t y x :=
  ⟨h.row.symm, fun u hu => (h.other u hu).symm, h.addr.symm⟩

/-- The row function, for sums over all rows. -/
theorem tbl_eq (h : NodeEdit s s' t x y) : s'.tbl = update s.tbl t (s'.tbl t) := by
  funext u
  by_cases hu : u = t
  · subst hu
    rw [update_self]
  · rw [update_of_ne hu, h.other u hu]

theorem distinct (h : NodeEdit s s' t x y) (hd : Distinct s) : Distinct s' := by
  refine hd.of_sublist fun u => ?_
  by_cases hu : u = t
  · subst hu
    rw [h.row.map_eq h.addr]
  · rw [h.other u hu]

end NodeEdit

namespace Bss

theorem enqueueBuf_cases (cfg : Config) (e : AddEnv) (b : Buf) (t : Tid) (r : Option ℕ) : s.enqueueBuf cfg e b t r = s ∨
    ∃ l, s.node t l.addr = some l ∧ NodeEdit s (s.enqueueBuf cfg e b t r) t l (l.pushTail b) ∧
      r.bind (s.node t) = some l ∧ (s.hasSta cfg l && e.overBudget) = false := by
  cases hl : r.bind (s.node t) with
  | none =>
    left
    simp only [enqueueBuf, hl]
  | some l =>
    by_cases hb : (s.hasSta cfg l && e.overBudget) = true
    · left
      simp only [enqueueBuf, hl, if_pos hb]
    · right
      have hn := node_of_bind hl
      refine ⟨l, hn, .of_editNode hn rfl ?_, rfl, by simpa using hb⟩
      simp only [enqueueBuf, hl, if_neg hb]

theorem restoreBuf_cases (b : Buf) (t : Tid) (r : Option ℕ) : s.restoreBuf b t r = s ∨
    ∃ l, r.bind (s.node t) = some l ∧ s.node t l.addr = some l ∧
      NodeEdit s (s.restoreBuf b t r) t l (l.pushTail b) := by
  cases hl : r.bind (s.node t) with
  | none =>
    left
    simp only [restoreBuf, hl]
  | some l =>
    have hn := node_of_bind hl
    exact .inr ⟨l, rfl, hn, .of_editNode hn rfl (by simp only [restoreBuf, hl])⟩

theorem popBuf_edit (hn : s.node t a = some l) : NodeEdit s (s.popBuf t a) t l l.pop :=
  .of_editNode hn rfl rfl

/-- A packet is dropped, and the counters of its list's side follow. -/
theorem delTxPktsInRalist_cases (h : s.delTxPktsInRalist t = some s') :
    ∃ l, l ∈ s.tbl t ∧ l.droppable = true ∧ NodeEdit s s' t l l.pop ∧ s'.flight = s.flight ∧
      s'.pktsQueued = update s.pktsQueued t (wsub 32 (s.pktsQueued t) 1) ∧
      s'.pktsPaused = (if l.txPause then update s.pktsPaused t (wsub 32 (s.pktsPaused t) 1)
        else s.pktsPaused) ∧
      s'.txPktsQueued = if l.txPause then s.txPktsQueued else wsub 32 s.txPktsQueued 1 := by
  obtain ⟨l, hl, rfl⟩ := map_eq_some_iff.mp h
  refine ⟨l, mem_of_find?_eq_some hl, find?_some hl, ⟨?_, fun u hu => update_of_ne hu _ _, ?_⟩, rfl,
    rfl, rfl, rfl⟩
  · dsimp only
    rw [update_self]
    exact replaceFirst_of_find hl
  · exact addr_pop l

theorem aggregatePkt_cases (h : s.aggregatePkt = some s') :
    ∃ f, s.flight = some f ∧ f.processed = false ∧
      (s' = { s with flight := none } ∨
        ∃ l, s.node f.tid f.ptr = some l ∧ l.bufHead ≠ [] ∧ s' = s.popBuf f.tid f.ptr) := by
  unfold aggregatePkt at h
  cases hf : s.flight with
  | none => simp [hf] at h
  | some f =>
    simp only [hf] at h
    split_ifs at h with hp
    refine ⟨f, rfl, by simpa using hp, ?_⟩
    cases hn : s.node f.tid f.ptr with
    | none =>
      simp only [hn, some.injEq] at h
      exact .inl h.symm
    | some l =>
      simp only [hn] at h
      split_ifs at h with hb
      exact .inr ⟨l, rfl, hb, (some.inj h).symm⟩

/-- How a send ends. -/
inductive DoneCase (s : Bss) (f : Flight) : Bool → Bss → Prop
  | gone {resource : Bool} (hn : s.node f.tid f.ptr = none) (h : resource = true ∨ f.processed = false) :
    DoneCase s f resource { s with flight := none }
  | putBack {l : RaList} (hn : s.node f.tid f.ptr = some l) (hp : f.processed = true) :
    DoneCase s f true { s with flight := none, tbl := s.editNode f.tid f.ptr (putBack f.buf) }
  | requeued {l : RaList} (hn : s.node f.tid f.ptr = some l) (hp : f.processed = false) :
    DoneCase s f true { s with
      flight := none
      tbl := s.editNode f.tid f.ptr (pushHead f.buf)
      pktsQueued := update s.pktsQueued f.tid (wadd 32 (s.pktsQueued f.tid) 1)
      txPktsQueued := wadd 32 s.txPktsQueued 1 }
  | counted {l : RaList} (hn : s.node f.tid f.ptr = some l) (hp : f.processed = true) :
    DoneCase s f false { s with
      flight := none
      tbl := s.editNode f.tid f.ptr countOut
      curr := update s.curr f.tid (.node f.ptr)
      pktsQueued := update s.pktsQueued f.tid (wsub 32 (s.pktsQueued f.tid) 1)
      txPktsQueued := wsub 32 s.txPktsQueued 1 }
  | miscounted (hn : s.node f.tid f.ptr = none) (hp : f.processed = true) :
    DoneCase s f false { s with
      flight := none
      pktsQueued := update s.pktsQueued f.tid (wsub 32 (s.pktsQueued f.tid) 1)
      txPktsQueued := wsub 32 s.txPktsQueued 1 }
  | sent {l : RaList} (hn : s.node f.tid f.ptr = some l) (hp : f.processed = false) :
    DoneCase s f false { s with flight := none, curr := update s.curr f.tid (.node f.ptr) }

theorem sendDone_cases {resource : Bool} (h : s.sendDone resource = some s') :
    ∃ f, s.flight = some f ∧ DoneCase s f resource s' := by
  unfold sendDone at h
  cases hf : s.flight with
  | none => simp [hf] at h
  | some f =>
    refine ⟨f, rfl, ?_⟩
    simp only [hf] at h
    cases hn : s.node f.tid f.ptr with
    | none =>
      have hv : s.isRalistValid f.ptr f.tid = false := by simp [isRalistValid, hn]
      cases resource with
      | true =>
        cases hp : f.processed <;> simp [hp, hv] at h <;> exact h ▸ .gone hn (.inl rfl)
      | false =>
        cases hp : f.processed with
        | true =>
          simp only [hp, hv, Bool.false_eq_true, if_false, some.injEq] at h
          exact h ▸ .miscounted hn hp
        | false =>
          simp only [hp, hv, Bool.false_eq_true, if_false, some.injEq] at h
          exact h ▸ .gone hn (.inr hp)
    | some l =>
      have hv : s.isRalistValid f.ptr f.tid = true := by simp [isRalistValid, hn]
      cases resource <;> cases hp : f.processed <;> simp only [hp, hv, if_true, some.injEq] at h
      · exact h ▸ .sent hn hp
      · exact h ▸ .counted hn hp
      · exact h ▸ .requeued hn hp
      · exact h ▸ .putBack hn hp

/-! ## Restored packets -/

/-- A restored packet goes to the node `r` of `u` : of the peer's list, which may be new, or of the first one. -/
def RestoreTo (cfg : Config) (mac : Mac) (complete : Bool) (A : Alloc → Prop) (s : Bss) (t : Tid) (u : Bss)
    (r : Option ℕ) : Prop :=
  (u = s ∨ ∃ c, A c ∧ complete = true ∧ s.getRalistNode t mac = none ∧ s.Fresh c ∧ u = s.grow cfg c mac) ∧
    ∀ a, r = some a →
      if complete then ∃ l, u.getRalistNode t mac = some l ∧ l.addr = a else s.firstNode t = some a

theorem restoreTarget_cases {complete : Bool} {A : Alloc → Prop} {cs cs' : List Alloc} {u : Bss} {r : Option ℕ}
    (hA : ∀ c ∈ cs, A c) (h : s.restoreTarget cfg mac complete cs t = some (u, cs', r)) :
    RestoreTo cfg mac complete A s t u r ∧ ∀ c ∈ cs', A c := by
  unfold restoreTarget at h
  cases complete with
  | false =>
    simp only [Bool.false_eq_true, if_false, some.injEq, Prod.mk.injEq] at h
    obtain ⟨rfl, rfl, rfl⟩ := h
    exact ⟨⟨.inl rfl, fun a ha => ha⟩, hA⟩
  | true =>
    simp only [if_true] at h
    cases hn : s.getRalistNode t mac with
    | some l =>
      simp only [hn, some.injEq, Prod.mk.injEq] at h
      obtain ⟨rfl, rfl, rfl⟩ := h
      exact ⟨⟨.inl rfl, fun a ha => ⟨l, hn, by simpa using ha⟩⟩, hA⟩
    | none =>
      cases cs with
      | nil => simp [hn] at h
      | cons c cs =>
        simp only [hn, map_eq_some_iff, Prod.mk.injEq] at h
        obtain ⟨r, hr, rfl, rfl, rfl⟩ := h
        obtain ⟨hu, hnode⟩ := getQueueRaptr_cases hr
        refine ⟨⟨?_, hnode⟩, fun c' hc' => hA c' (mem_cons_of_mem _ hc')⟩
        rcases hu with hu | ⟨hf, hu⟩
        · exact .inl hu
        · exact .inr ⟨c, hA c mem_cons_self, rfl, hn, hf, hu⟩

/-- What every restored packet keeps holds after the loop. -/
theorem restoreLoop_invariant {complete : Bool} {A : Alloc → Prop} {I : List Buf → Bss → Prop}
    (hstep : ∀ {b bs s u r}, I (b :: bs) s →
      RestoreTo cfg mac complete A s (s.downgradeTid b.priority) u r →
      I bs (u.restoreBuf b (s.downgradeTid b.priority) r)) :
    ∀ {bs : List Buf} {cs : List Alloc} {s s' : Bss}, (∀ c ∈ cs, A c) → I bs s →
      restoreLoop cfg mac complete bs cs s = some s' → I [] s'
  | [], cs, s, s', _, hi, h => by
    simp only [restoreLoop, some.injEq] at h
    exact h ▸ hi
  | b :: bs, cs, s, s', hA, hi, h => by
    unfold restoreLoop at h
    obtain ⟨⟨u, cs', r⟩, ht, h⟩ := bind_eq_some_iff.mp h
    obtain ⟨hto, hA'⟩ := restoreTarget_cases hA ht
    exact restoreLoop_invariant hstep hA' (hstep hi hto) h

theorem deleteTdlsRalist_eq (h : s.deleteTdlsRalist mac = some s') :
    (∀ t ap rest, s.tbl t = ap :: rest → ap.ra = mac → ap.bufHead = []) ∧
      s' = { s with
        tbl := fun t => deleteTdlsRow mac (s.tbl t)
        curr := fun t => if (s.getRalistNode t mac).any fun x => s.curr t = .node x.addr then
          ((s.firstNode t).map RaPtr.node).getD .null else s.curr t } := by
  unfold deleteTdlsRalist at h
  split_ifs at h with hloop
  refine ⟨fun t ap rest ht hra => ?_, (some.inj h).symm⟩
  by_contra hne
  exact hloop ⟨t, by simp [ht, hra, hne]⟩

/-- The loop, and then the teardown unless the link is complete. -/
theorem restoreTdlsPackets_cases {complete : Bool} {cs : List Alloc}
    (h : s.restoreTdlsPackets cfg mac complete cs = some s') :
    ∃ u, restoreLoop cfg mac complete (s.tdlsPendingTxq.filter fun b => b.ra = mac) cs
        { s with tdlsPendingTxq := s.tdlsPendingTxq.filter fun b => ¬b.ra = mac } = some u ∧
      (complete = true ∧ s' = u ∨ complete = false ∧ u.deleteTdlsRalist mac = some s') := by
  obtain ⟨u, hu, h⟩ := bind_eq_some_iff.mp h
  refine ⟨u, hu, ?_⟩
  cases complete with
  | true => exact .inl ⟨rfl, (some.inj h).symm⟩
  | false => exact .inr ⟨rfl, h⟩

theorem restoreBuf_frame (b : Buf) (t : Tid) (r : Option ℕ) : (s.restoreBuf b t r).flight = s.flight ∧
    (s.restoreBuf b t r).acDownGradedVals = s.acDownGradedVals ∧ (s.restoreBuf b t r).curr = s.curr ∧
    (s.restoreBuf b t r).pendingTxq = s.pendingTxq ∧ (s.restoreBuf b t r).selectedRaList = s.selectedRaList := by
  unfold restoreBuf
  split <;> exact ⟨rfl, rfl, rfl, rfl, rfl⟩

/-- The first lists have taken packets. -/
def FirstPushed (s u : Bss) : Prop :=
  ∀ t, s.tbl t = [] ∧ u.tbl t = [] ∨ ∃ ap ap' rest, s.tbl t = ap :: rest ∧ u.tbl t = ap' :: rest ∧
    ap'.ra = ap.ra ∧ ap'.addr = ap.addr ∧ ap'.txPause = ap.txPause

theorem FirstPushed.refl (s : Bss) : FirstPushed s s := by
  intro t
  cases hrow : s.tbl t with
  | nil => exact .inl ⟨rfl, rfl⟩
  | cons ap rest => exact .inr ⟨ap, ap, rest, rfl, rfl, rfl, rfl, rfl⟩

theorem FirstPushed.restoreBuf {u : Bss} (h : FirstPushed s u) (b : Buf) (t : Tid) {r : Option ℕ}
    (hr : ∀ a, r = some a → u.firstNode t = some a) : FirstPushed s (u.restoreBuf b t r) := by
  rcases u.restoreBuf_cases b t r with heq | ⟨l, hl, hn, he⟩
  · rwa [heq]
  · intro t'
    by_cases ht : t' = t
    · subst ht
      have hedit : (u.restoreBuf b t' r).tbl t' =
          replaceFirst (fun x => x.addr = l.addr) (pushTail b) (u.tbl t') := by
        simp only [Bss.restoreBuf, hl, editNode, update_self]
      obtain ⟨a, ha, hna⟩ := bind_eq_some_iff.mp hl
      have hfirst := hr a ha
      have haddr := node_addr hna
      rcases h t' with ⟨-, hu⟩ | ⟨ap, ap', rest, hs, hu, hra, had, hpause⟩
      · rw [node, hu] at hna
        simp at hna
      · -- the node at the first list's address is the first list
        rw [firstNode, hu, head?_cons, map_some, some.injEq] at hfirst
        refine .inr ⟨ap, ap'.pushTail b, rest, hs, ?_, hra, had, hpause⟩
        rw [hedit, hu, replaceFirst, if_pos (by simp [haddr, hfirst])]
    · rw [he.other t' ht]
      exact h t'

theorem FirstPushed.getRalistNode {u : Bss} (h : FirstPushed s u) (hx : u.getRalistNode t mac = some x) :
    ∃ y, s.getRalistNode t mac = some y ∧ y.addr = x.addr := by
  unfold Bss.getRalistNode at hx ⊢
  rcases h t with ⟨-, hu⟩ | ⟨ap, ap', rest, hs, hu, hra, had, -⟩
  · simp [hu] at hx
  · rw [hu] at hx
    rw [hs]
    by_cases hap : ap.ra = mac
    · rw [find?_cons_of_pos (by simpa using hra.trans hap), some.injEq] at hx
      exact ⟨ap, find?_cons_of_pos (by simpa using hap), hx ▸ had.symm⟩
    · rw [find?_cons_of_neg (by simpa using hra ▸ hap)] at hx
      exact ⟨x, by rw [find?_cons_of_neg (by simpa using hap), hx], rfl⟩

/-- Without a complete link, the packets go to the first lists. -/
theorem firstPushed_restoreLoop {bs : List Buf} {cs : List Alloc} (h : restoreLoop cfg mac false bs cs s = some s') :
    FirstPushed s s' ∧ s'.flight = s.flight ∧ s'.curr = s.curr ∧ s'.pendingTxq = s.pendingTxq ∧
      s'.selectedRaList = s.selectedRaList := by
  refine restoreLoop_invariant (A := fun _ => True)
    (I := fun _ u => FirstPushed s u ∧ u.flight = s.flight ∧ u.curr = s.curr ∧ u.pendingTxq = s.pendingTxq ∧
      u.selectedRaList = s.selectedRaList) ?_ (fun _ _ => trivial) ⟨.refl s, rfl, rfl, rfl, rfl⟩ h
  intro b bs v u r hi hto
  have hvu : u = v := by
    rcases hto.1 with hvu | ⟨c, -, hcomplete, -⟩
    · exact hvu
    · exact absurd hcomplete (by decide)
  subst hvu
  obtain ⟨hpush, hflight, hcurr, hpend, hsel⟩ := hi
  obtain ⟨hf, -, hc, hp, hs⟩ := u.restoreBuf_frame b (u.downgradeTid b.priority) r
  refine ⟨hpush.restoreBuf b _ fun a ha => ?_, hf.trans hflight, hc.trans hcurr, hp.trans hpend, hs.trans hsel⟩
  simpa using hto.2 a ha

/-! ## Loops and rows -/

theorem sendStart_cases (hn : s.node t a = some l) :
    (l.bufHead = [] ∧ s.sendStart t a = s) ∨ ∃ b rest, l.bufHead = b :: rest ∧
      (b.requeued = true ∧
          s.sendStart t a = { s with tbl := s.editNode t a takeOut, flight := some ⟨a, t, b, true⟩ } ∨
        b.requeued = false ∧ s.sendStart t a = { s.popBuf t a with flight := some ⟨a, t, b, false⟩ }) := by
  cases hb : l.bufHead with
  | nil => exact .inl ⟨rfl, by simp only [sendStart, hn, hb]⟩
  | cons b rest =>
    refine .inr ⟨b, rest, rfl, ?_⟩
    cases hr : b.requeued with
    | true => exact .inl ⟨rfl, by simp only [sendStart, hn, hb, hr, if_true]⟩
    | false => exact .inr ⟨rfl, by simp only [sendStart, hn, hb, hr, Bool.false_eq_true, if_false]⟩

/-- The send does not start, or it starts with the first packet of a node. -/
theorem sendStart_eq_or (s : Bss) (t : Tid) (a : ℕ) : s.sendStart t a = s ∨
    ∃ l b rest, s.node t a = some l ∧ l.bufHead = b :: rest ∧
      (s.sendStart t a = { s with tbl := s.editNode t a takeOut, flight := some ⟨a, t, b, true⟩ } ∨
        s.sendStart t a = { s.popBuf t a with flight := some ⟨a, t, b, false⟩ }) := by
  cases hn : s.node t a with
  | none => exact .inl (by simp only [sendStart, hn])
  | some l =>
    rcases sendStart_cases hn with ⟨-, heq⟩ | ⟨b, rest, hb, hstart⟩
    · exact .inl heq
    · exact .inr ⟨l, b, rest, rfl, hb, hstart.imp And.right And.right⟩

theorem dropLoop_invariant {I : Bss → Prop} (hdel : ∀ {s t s'}, I s → s.delTxPktsInRalist t = some s' → I s')
    (htid : ∀ {s} d, I s → I { s with dropTid := d }) : ∀ (n : ℕ) {s : Bss}, I s → I (dropLoop n s)
  | 0, _, hi => hi
  | n + 1, s, hi => by
    unfold dropLoop
    cases hs : s.delTxPktsInRalist s.dropNext with
    | none => exact dropLoop_invariant hdel htid n (htid _ hi)
    | some s' => exact htid _ (hdel hi hs)

theorem addrs_pauseRow (mac : Mac) (p : Bool) (row : List RaList) :
    (pauseRow mac p row).map addr = row.map addr :=
  Distinct.replaceFirst (f := setPause p) (fun _ => rfl) row

theorem addrs_updateRow (old new : Mac) (row : List RaList) :
    (updateRow old new row).map addr = row.map addr :=
  Distinct.replaceFirst (f := rename new) (fun _ => rfl) row

theorem addrs_nonTdlsRow (mac : Mac) (p : Bool) (row : List RaList) :
    (nonTdlsRow mac p row).map addr = row.map addr := by
  rw [nonTdlsRow, map_map]
  refine map_congr_left fun l _ => ?_
  simp only [Function.comp_apply]
  split_ifs <;> rfl

theorem addrs_holdRow (mac : Mac) (row : List RaList) : (holdRow mac row).map RaList.addr = row.map RaList.addr := by
  cases row <;> rfl

/-- The teardown in one row : the first list is the peer's and empty, or it takes the packets of the peer's list. -/
theorem deleteTdlsRow_cases (mac : Mac) (row : List RaList) :
    deleteTdlsRow mac row = row ∧ row.find? (fun l => l.ra = mac) = none ∨
      ∃ ap rest, row = ap :: rest ∧
        (ap.ra = mac ∧ deleteTdlsRow mac row = rest ∨
          ∃ x rest', ap.ra ≠ mac ∧ rest.find? (fun l => l.ra = mac) = some x ∧ Removes x rest rest' ∧
            rest' = rest.eraseP (fun l => l.ra = mac) ∧ deleteTdlsRow mac row = ap.takeOver x :: rest') := by
  cases row with
  | nil => exact .inl ⟨rfl, rfl⟩
  | cons ap rest =>
    by_cases hra : ap.ra = mac
    · exact .inr ⟨ap, rest, rfl, .inl ⟨hra, by simp only [deleteTdlsRow, if_pos hra]⟩⟩
    · cases hx : rest.find? fun l => l.ra = mac with
      | none =>
        left
        refine ⟨by simp only [deleteTdlsRow, if_neg hra, hx], ?_⟩
        rw [find?_cons_of_neg (by simpa using hra), hx]
      | some x =>
        right
        refine ⟨ap, rest, rfl, .inr ⟨x, _, hra, hx, eraseP_of_find hx, rfl, ?_⟩⟩
        simp only [deleteTdlsRow, if_neg hra, hx]

/-- Only the peer's list goes. -/
theorem mem_addrs_deleteTdlsRow (ha : a ∈ (s.tbl t).map RaList.addr)
    (hne : ∀ x, s.getRalistNode t mac = some x → a ≠ x.addr) : a ∈ (deleteTdlsRow mac (s.tbl t)).map addr := by
  rcases deleteTdlsRow_cases mac (s.tbl t) with
    ⟨heq, -⟩ | ⟨ap, rest, hrow, ⟨hra, heq⟩ | ⟨x, rest', hra, hx, hrem, -, heq⟩⟩
  · rwa [heq]
  · rw [hrow, map_cons, mem_cons] at ha
    rw [heq]
    refine ha.resolve_left (hne ap ?_)
    rw [getRalistNode, hrow, find?_cons_of_pos (by simpa using hra)]
  · rw [hrow, map_cons, mem_cons] at ha
    rw [heq, map_cons, addr_takeOver, mem_cons]
    refine ha.imp_right fun ha => hrem.mem_map_of_ne ha (hne x ?_)
    rw [getRalistNode, hrow, find?_cons_of_neg (by simpa using hra), hx]

theorem addrs_deleteTdlsRow (mac : Mac) (row : List RaList) :
    ((deleteTdlsRow mac row).map addr).Sublist (row.map addr) := by
  rcases deleteTdlsRow_cases mac row with ⟨heq, -⟩ | ⟨ap, rest, rfl, ⟨-, heq⟩ | ⟨x, rest', -, -, hrem, -, heq⟩⟩
  · rw [heq]
  · rw [heq]
    exact sublist_cons_self _ _
  · rw [heq, map_cons, map_cons, addr_takeOver]
    exact (hrem.sublist.map addr).cons_cons _

end Bss

namespace Distinct

variable (h : Distinct s)

include h

theorem sendStart : Distinct (s.sendStart t a) := by
  rcases s.sendStart_eq_or t a with heq | ⟨l, b, rest, hn, -, heq | heq⟩
  · rwa [heq]
  · rw [heq]
    exact (NodeEdit.of_editNode hn rfl rfl).distinct h
  · rw [heq]
    exact (NodeEdit.of_editNode (f := pop) hn (addr_pop l) rfl).distinct h

theorem enqueueBuf {e : Bss.AddEnv} {r : Option ℕ} : Distinct (s.enqueueBuf cfg e b t r) := by
  rcases s.enqueueBuf_cases cfg e b t r with heq | ⟨l, -, hedit, -⟩
  · rwa [heq]
  · exact hedit.distinct h

theorem restoreBuf {r : Option ℕ} : Distinct (s.restoreBuf b t r) := by
  rcases s.restoreBuf_cases b t r with heq | ⟨l, -, -, hedit⟩
  · rwa [heq]
  · exact hedit.distinct h

theorem deleteTdlsRalist (hs : s.deleteTdlsRalist mac = some s') : Distinct s' := by
  obtain ⟨-, rfl⟩ := Bss.deleteTdlsRalist_eq hs
  exact h.of_sublist fun t => Bss.addrs_deleteTdlsRow mac (s.tbl t)

theorem restoreLoop {complete : Bool} {bs : List Buf} {cs : List Bss.Alloc}
    (hs : Bss.restoreLoop cfg mac complete bs cs s = some s') : Distinct s' := by
  refine Bss.restoreLoop_invariant (A := fun _ => True) (I := fun _ s => Distinct s) ?_ (fun _ _ => trivial) h hs
  intro b bs s u r hi hto
  rcases hto.1 with rfl | ⟨c, -, -, -, hf, rfl⟩
  · exact hi.restoreBuf
  · exact (hi.grow hf).restoreBuf

/-- Every operation keeps the addresses distinct. -/
theorem step {op : Op} (hs : s.step cfg op = some s') : Distinct s' := by
  cases op with
  | add b e =>
    rcases Bss.addBufTxqueue_cases hs with rfl | ⟨u, t, r, -, hu, rfl⟩
    · exact h.of_tbl rfl
    · rcases hu with rfl | ⟨hf, ra, rfl⟩
      · exact h.enqueueBuf
      · exact (h.grow hf).enqueueBuf
  | ralistAdd ra c =>
    obtain ⟨hf, rfl⟩ := Bss.ralistAdd_eq hs
    exact h.grow hf
  | dequeue d =>
    obtain ⟨-, u, heq, rfl | ⟨t, a, l, -, -, rfl⟩⟩ := Bss.dequeueTxPacket_cases h hs
    · exact h.of_tbl heq.tbl
    · exact (h.of_tbl heq.tbl).sendStart
  | aggregate =>
    obtain ⟨f, -, -, rfl | ⟨l, hn, -, rfl⟩⟩ := Bss.aggregatePkt_cases hs
    · exact h.of_tbl rfl
    · exact (Bss.popBuf_edit hn).distinct h
  | done resource =>
    obtain ⟨f, -, hcase⟩ := Bss.sendDone_cases hs
    cases hcase with
    | gone => exact h.of_tbl rfl
    | putBack hn =>
      refine NodeEdit.distinct (.of_editNode (f := putBack f.buf) hn rfl ?_) h
      rfl
    | requeued hn =>
      refine NodeEdit.distinct (.of_editNode (f := pushHead f.buf) hn rfl ?_) h
      rfl
    | counted hn =>
      refine NodeEdit.distinct (.of_editNode (f := countOut) hn (addr_countOut _) ?_) h
      rfl
    | miscounted => exact h.of_tbl rfl
    | sent => exact h.of_tbl rfl
  | txPause mac p =>
    obtain rfl := some.inj hs
    exact h.of_addrs fun t => Bss.addrs_pauseRow mac p (s.tbl t)
  | nonTdlsPause mac p =>
    obtain rfl := some.inj hs
    exact h.of_addrs fun t => Bss.addrs_nonTdlsRow mac p (s.tbl t)
  | ralistUpdate old new =>
    obtain rfl := some.inj hs
    exact h.of_addrs fun t => Bss.addrs_updateRow old new (s.tbl t)
  | drop =>
    obtain rfl := some.inj hs
    refine Bss.dropLoop_invariant (I := Distinct) (fun hi hs => ?_) (fun _ hi => hi.of_tbl rfl) 8 h
    obtain ⟨l, -, -, hedit, -⟩ := Bss.delTxPktsInRalist_cases hs
    exact hedit.distinct hi
  | deletePeer mac =>
    obtain rfl := some.inj hs
    exact h.of_sublist fun t => eraseP_sublist.map addr
  | hold mac =>
    obtain rfl := some.inj hs
    exact h.of_addrs fun t => Bss.addrs_holdRow mac (s.tbl t)
  | restore mac complete cs =>
    obtain ⟨u, hu, hend⟩ := Bss.restoreTdlsPackets_cases hs
    have hd : Distinct u := by
      refine restoreLoop ?_ hu
      exact h.of_tbl rfl
    rcases hend with ⟨-, rfl⟩ | ⟨-, hdel⟩
    · exact hd
    · exact hd.deleteTdlsRalist hdel
  | priorities ie =>
    obtain rfl := some.inj hs
    cases ie <;> exact h.of_tbl rfl
  | downgrade vals =>
    obtain rfl := some.inj hs
    exact h.of_tbl rfl

end Distinct

end WlanDriver.Wmm
