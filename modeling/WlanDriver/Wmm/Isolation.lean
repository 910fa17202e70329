import Mathlib.Order.Fin.Basic
import WlanDriver.Wmm.Priority

/-!
# The interfaces of an adapter and the tables they share

The RA lists, the counters and `highest_queued_prio` are kept for each interface, and so is the order of the access
categories that its WMM parameters give (`queue_priority`). `tos_to_tid` and its inverse are file-scope tables : a new
order of one interface is the order of all of them, and only the interface it is set up for has its
`highest_queued_prio` put up again. The defaults of `wlan_wmm_setup_queue_priorities` leave the tables, and
`wlan_clean_txrx` puts them back for all.

`Before` is the order that parameters ask for. The bubble sort finds it (`strictMono_setup`) if the element names every
category; otherwise a part of an earlier order stays.

`wmm_isolation` : in every run in which a new order is the one in force already, each interface is served in the order
of its own parameters, and no set-up takes a list of another interface out of the reach of the scheduler.
-/

set_option linter.unusedSectionVars false

namespace WlanDriver.Wmm

open Ethernet Function Option

variable {cfg : Config} {s s' : Bss} {b : Buf} {mac : Mac}

/-! ## The order of the parameters -/

/-- The WMM parameters of an interface, or the defaults. -/
abbrev WmmParams :=
  Option (Fin 4 → AcParam)

/-- The average back-off of a category, from the element's last entry for it. -/
def backOff (ie : Fin 4 → AcParam) : Ac → ℕ :=
  (List.finRange 4).foldl (fun tmp n => update tmp (aciToQidx (ie n).aci) (ie n).avgBackOff) fun _ => 0

/-- The parameters ask for category `a` before category `b` : it has the smaller back-off, or the same one and the
higher number. The defaults are voice, video, best effort, background. -/
def Before : WmmParams → Ac → Ac → Prop
  | none, a, b => b < a
  | some ie, a, b => backOff ie a < backOff ie b ∨ backOff ie a = backOff ie b ∧ b < a

instance : (p : WmmParams) → (a b : Ac) → Decidable (Before p a b)
  | none, a, b => inferInstanceAs (Decidable (b < a))
  | some _, _, _ => inferInstanceAs (Decidable (_ ∨ _ ∧ _))

/-- The same order. -/
def SameOrder (p p' : WmmParams) : Prop :=
  ∀ a b, Before p a b ↔ Before p' a b
  deriving Decidable

/-- The order as an order of numbers. -/
def key : WmmParams → Ac → ℕ
  | none, a => 3 - a.val
  | some ie, a => 4 * backOff ie a + (3 - a.val)

theorem before_iff_key (p : WmmParams) (a b : Ac) : Before p a b ↔ key p a < key p b := by
  cases p with
  | none =>
    simp only [Before, key, Fin.lt_def]
    omega
  | some ie =>
    simp only [Before, key, Fin.lt_def]
    omega

theorem key_injective (p : WmmParams) : Function.Injective (key p) := by
  intro a b h
  cases p with
  | none =>
    simp only [key] at h
    exact Fin.ext (by omega)
  | some ie =>
    simp only [key] at h
    exact Fin.ext (by omega)

/-- The number of the categories before `a`. -/
def rank (p : WmmParams) (a : Ac) : Fin 4 :=
  ⟨(Finset.univ.filter fun c => Before p c a).card, by
    have hsub : (Finset.univ.filter fun c => Before p c a) ⊂ Finset.univ := by
      refine Finset.filter_ssubset.mpr ⟨a, Finset.mem_univ a, ?_⟩
      rw [before_iff_key]
      exact lt_irrefl _
    simpa using Finset.card_lt_card hsub⟩

theorem rank_lt_of_before {p : WmmParams} {a b : Ac} (h : Before p a b) : rank p a < rank p b := by
  rw [before_iff_key] at h
  change (Finset.univ.filter fun c => Before p c a).card < (Finset.univ.filter fun c => Before p c b).card
  refine Finset.card_lt_card (Finset.ssubset_iff_subset_ne.mpr ⟨fun c hc => ?_, fun heq => ?_⟩)
  · simp only [Finset.mem_filter, Finset.mem_univ, true_and, before_iff_key] at hc ⊢
    omega
  · have ha : a ∈ Finset.univ.filter fun c => Before p c b := by
      simp only [Finset.mem_filter, Finset.mem_univ, true_and, before_iff_key]
      exact h
    rw [← heq] at ha
    simp only [Finset.mem_filter, Finset.mem_univ, true_and, before_iff_key] at ha
    omega

theorem before_iff_rank (p : WmmParams) (a b : Ac) : Before p a b ↔ rank p a < rank p b := by
  refine ⟨rank_lt_of_before, fun h => ?_⟩
  by_contra hno
  rcases eq_or_ne a b with rfl | hne
  · exact lt_irrefl _ h
  · have hba : Before p b a := by
      rw [before_iff_key] at hno ⊢
      have := (key_injective p).ne hne
      omega
    exact lt_asymm h (rank_lt_of_before hba)

theorem rank_injective (p : WmmParams) : Function.Injective (rank p) := by
  intro a b h
  by_contra hne
  have hkey := (key_injective p).ne hne
  rcases Nat.lt_or_gt_of_ne hkey with hlt | hlt
  · exact absurd (h ▸ rank_lt_of_before ((before_iff_key p a b).mpr hlt)) (lt_irrefl _)
  · exact absurd (h ▸ rank_lt_of_before ((before_iff_key p b a).mpr hlt)) (lt_irrefl _)

theorem SameOrder.rank_eq {p p' : WmmParams} (h : SameOrder p p') : rank p = rank p' := by
  funext a
  refine Fin.ext ?_
  simp only [rank, fun c => h c a]

/-- There is one way to put the categories into the order. -/
theorem eq_of_strictMono_rank {p : WmmParams} {q q' : Fin 4 → Ac} (h : StrictMono (rank p ∘ q))
    (h' : StrictMono (rank p ∘ q')) : q = q' := by
  have hsurj : ∀ f : Fin 4 → Fin 4, StrictMono f → Set.range f = Set.univ := fun f hf =>
    Set.range_eq_univ.mpr (Finite.surjective_of_injective hf.injective)
  have heq : rank p ∘ q = rank p ∘ q' := (StrictMono.range_inj h h').mp ((hsurj _ h).trans (hsurj _ h').symm)
  funext i
  exact rank_injective p (congrFun heq i)

/-! ## The sort -/

/-- Compare and exchange, of `j - 1` and `j`, by numbers. -/
def exchange {α : Type*} [LinearOrder α] (r : Ac → α) (q : Fin 4 → Ac) (j : Fin 4) : Fin 4 → Ac :=
  if r (q j) < r (q (j - 1)) then q ∘ Equiv.swap (j - 1) j else q

/-- One comparison of the bubble sort is one of the order. -/
theorem bubble_eq_exchange (ie : Fin 4 → AcParam) (q : Fin 4 → Ac) (j : Fin 4) :
    Bss.bubble (backOff ie ∘ q, q) j =
      (backOff ie ∘ exchange (key (some ie)) q j, exchange (key (some ie)) q j) := by
  have hkey := before_iff_key (some ie) (q j) (q (j - 1))
  unfold Bss.bubble exchange
  simp only [Function.comp_apply]
  by_cases hlt : backOff ie (q j) < backOff ie (q (j - 1))
  · rw [if_pos hlt, if_pos (hkey.mp (.inl hlt))]
    rfl
  · rw [if_neg hlt]
    by_cases heq : backOff ie (q (j - 1)) = backOff ie (q j) ∧ q (j - 1) < q j
    · rw [if_pos heq, if_pos (hkey.mp (.inr ⟨heq.1.symm, heq.2⟩))]
      refine Prod.ext ?_ rfl
      -- the two back-offs are the same, and stay where they are
      funext i
      simp only [Function.comp_apply, Equiv.swap_apply_def]
      split_ifs with h1 h2
      · rw [h1, heq.1]
      · rw [h2, heq.1]
      · rfl
    · rw [if_neg heq, if_neg]
      intro hk
      rcases hkey.mpr hk with h | h
      · exact hlt h
      · exact heq ⟨h.1.symm, h.2⟩

theorem foldl_bubble_snd (ie : Fin 4 → AcParam) (l : List (Fin 4)) (q : Fin 4 → Ac) {tmp : Fin 4 → ℕ}
    (h : tmp = backOff ie ∘ q) : (l.foldl Bss.bubble (tmp, q)).2 = l.foldl (exchange (key (some ie))) q := by
  induction l generalizing q tmp with
  | nil => rfl
  | cons j l ih =>
    rw [List.foldl_cons, List.foldl_cons, h, bubble_eq_exchange]
    exact ih _ rfl

theorem exchange_key (p : WmmParams) : exchange (key p) = exchange (rank p) := by
  funext q j
  unfold exchange
  refine if_congr ?_ rfl rfl
  rw [← before_iff_key, before_iff_rank]

/-- The six comparisons put any four numbers in order. -/
theorem strictMono_network (r : Fin 4 → Fin 4) (h : Function.Injective r) :
    StrictMono (r ∘ ([1, 2, 3, 1, 2, 1] : List (Fin 4)).foldl (exchange r) id) := by
  have hall : ∀ r : Fin 4 → Fin 4, (∀ a b, r a = r b → a = b) → ∀ i j : Fin 4, i < j →
      r ((([1, 2, 3, 1, 2, 1] : List (Fin 4)).foldl (exchange r) id) i) <
        r ((([1, 2, 3, 1, 2, 1] : List (Fin 4)).foldl (exchange r) id) j) := by
    decide +kernel
  exact fun i j hij => hall r h i j hij

/-- An element that names every category sets up its own order, whatever the order was before. -/
theorem strictMono_setup {ie : Fin 4 → AcParam} (h : Bss.NamesAll ie) (s : Bss) :
    StrictMono (rank (some ie) ∘ (s.setupQueuePriorities (some ie)).queuePriority) := by
  have hnamed : (List.finRange 4).foldl
      (fun qp n => update qp (aciToQidx (ie n).aci) (aciToQidx (ie n).aci)) s.queuePriority = id := by
    funext q
    obtain ⟨a, rfl⟩ := aciToQidx_surj q
    obtain ⟨n, rfl⟩ := h a
    exact foldl_update_self (f := fun n => aciToQidx (ie n).aci) (.inr ⟨n, List.mem_finRange n, rfl⟩)
  have hsorted : (s.setupQueuePriorities (some ie)).queuePriority =
      ([1, 2, 3, 1, 2, 1] : List (Fin 4)).foldl (exchange (rank (some ie))) id := by
    calc (s.setupQueuePriorities (some ie)).queuePriority
      _ = (([1, 2, 3, 1, 2, 1] : List (Fin 4)).foldl Bss.bubble (backOff ie, id)).2 := by
        simp only [Bss.setupQueuePriorities, hnamed, backOff]
      _ = ([1, 2, 3, 1, 2, 1] : List (Fin 4)).foldl (exchange (key (some ie))) id := foldl_bubble_snd ie _ id rfl
      _ = ([1, 2, 3, 1, 2, 1] : List (Fin 4)).foldl (exchange (rank (some ie))) id := by
        rw [exchange_key]
  have hnetwork := strictMono_network (rank (some ie)) (rank_injective _)
  rwa [← hsorted] at hnetwork

/-! ## The tables -/

/-- The table `tos_to_tid` of an order. -/
def tidTable (q : Fin 4 → Ac) : Tid → Tid :=
  fun k => acToTid (q ⟨(7 - k.val) / 2, sub_half_lt k⟩) (k.val % 2 = 1)

theorem convertTosToAc_acToTid (q : Ac) (b : Bool) : convertTosToAc (acToTid q b).val = q := by
  revert q b
  decide

/-- The scheduler, which looks from index 7 downwards, comes to the categories in the order of the parameters. -/
def Follows (tos : Tid → Tid) (p : WmmParams) : Prop :=
  ∀ i j : Tid, Before p (convertTosToAc (tos i).val) (convertTosToAc (tos j).val) ↔ j.val / 2 < i.val / 2
  deriving Decidable

theorem follows_tidTable {p : WmmParams} {q : Fin 4 → Ac} (h : StrictMono (rank p ∘ q)) : Follows (tidTable q) p := by
  intro i j
  rw [tidTable, tidTable, convertTosToAc_acToTid, convertTosToAc_acToTid, before_iff_rank]
  refine h.lt_iff_lt.trans ?_
  rw [Fin.lt_def]
  dsimp only
  omega

namespace Bss

theorem tables_setup (s : Bss) (ie : Fin 4 → AcParam) :
    (s.setupQueuePriorities (some ie)).tosToTid = tidTable (s.setupQueuePriorities (some ie)).queuePriority := by
  unfold setupQueuePriorities
  dsimp only
  generalize List.foldl bubble _ [1, 2, 3, 1, 2, 1] = sorted
  rfl

/-- Both tables are the same. -/
def SameTables (s s' : Bss) : Prop :=
  s'.tosToTid = s.tosToTid ∧ s'.tosToTidInv = s.tosToTidInv

theorem SameTables.trans {u : Bss} (h : SameTables s u) (h' : SameTables u s') : SameTables s s' :=
  ⟨h'.1.trans h.1, h'.2.trans h.2⟩

theorem SchedEq.sameTables (h : SchedEq s s') : SameTables s s' := by
  obtain ⟨_, _, _, rfl⟩ := h
  exact ⟨rfl, rfl⟩

theorem schedEq_getNextPriolistPtr {d : Sched} {r : Bss × Option (Tid × ℕ)}
    (h : s.getNextPriolistPtr cfg d = some r) : SchedEq s r.1 := by
  cases d with
  | highest =>
    simp only [getNextPriolistPtr, getHighestPriolistPtr, map_eq_some_iff] at h
    obtain ⟨o, -, rfl⟩ := h
    cases o <;> exact ⟨_, _, _, rfl⟩
  | selected within =>
    simp only [getNextPriolistPtr, ite_none_right_eq_some, bind_eq_some_iff] at h
    obtain ⟨-, a, -, x, -, h⟩ := h
    split_ifs at h
    obtain ⟨u, hu, rfl⟩ := map_eq_some_iff.mp h
    exact (processRaListQuoats_cases hu).1
  | next picks =>
    simp only [getNextPriolistPtr, ite_none_right_eq_some] at h
    obtain ⟨-, h⟩ := h
    split at h
    · exact (getNextRaList_cases h).1
    · obtain ⟨x, -, h⟩ := bind_eq_some_iff.mp h
      split_ifs at h
      exact (getNextRaList_cases h).1

theorem sameTables_sendStart (s : Bss) (t : Tid) (a : ℕ) : SameTables s (s.sendStart t a) := by
  unfold sendStart
  split
  · exact ⟨rfl, rfl⟩
  · split
    · exact ⟨rfl, rfl⟩
    · split_ifs <;> exact ⟨rfl, rfl⟩

theorem sameTables_dequeue {d : Sched} (h : s.dequeueTxPacket cfg d = some s') : SameTables s s' := by
  unfold dequeueTxPacket at h
  split_ifs at h
  obtain ⟨r, hr, rfl⟩ := map_eq_some_iff.mp h
  have hsched := (schedEq_getNextPriolistPtr hr).sameTables
  split
  · exact hsched
  · exact hsched.trans (sameTables_sendStart _ _ _)

theorem sameTables_enqueueBuf (e : AddEnv) (t : Tid) (r : Option ℕ) : SameTables s (s.enqueueBuf cfg e b t r) := by
  unfold enqueueBuf
  split
  · exact ⟨rfl, rfl⟩
  · split_ifs <;> exact ⟨rfl, rfl⟩

theorem sameTables_add {e : AddEnv} (h : s.addBufTxqueue cfg b e = some s') : SameTables s s' := by
  rcases addBufTxqueue_cases h with rfl | ⟨u, t, r, -, rfl | ⟨-, ra, rfl⟩, rfl⟩
  · exact ⟨rfl, rfl⟩
  · exact sameTables_enqueueBuf e t r
  · exact SameTables.trans ⟨rfl, rfl⟩ (sameTables_enqueueBuf e t r)

theorem sameTables_dropLoop (n : ℕ) (s : Bss) : SameTables s (dropLoop n s) := by
  induction n generalizing s with
  | zero => exact ⟨rfl, rfl⟩
  | succ n ih =>
    unfold dropLoop
    split
    · rename_i u hu
      simp only [delTxPktsInRalist, map_eq_some_iff] at hu
      obtain ⟨l, -, rfl⟩ := hu
      exact ⟨rfl, rfl⟩
    · exact SameTables.trans ⟨rfl, rfl⟩ (ih _)

theorem sameTables_restore {complete : Bool} {cs : List Alloc}
    (h : s.restoreTdlsPackets cfg mac complete cs = some s') : SameTables s s' := by
  obtain ⟨u, hu, hend⟩ := restoreTdlsPackets_cases h
  have hloop : SameTables s u := by
    refine restoreLoop_invariant (A := fun _ => True) (I := fun _ v => SameTables s v) ?_ (fun _ _ => trivial) ?_ hu
    · intro b bs v w r hi hto
      have hvw : SameTables v w := by
        rcases hto.1 with rfl | ⟨c, -, -, -, -, rfl⟩
        · exact ⟨rfl, rfl⟩
        · exact ⟨rfl, rfl⟩
      refine (hi.trans hvw).trans ?_
      unfold restoreBuf
      split <;> exact ⟨rfl, rfl⟩
    · exact ⟨rfl, rfl⟩
  rcases hend with ⟨-, rfl⟩ | ⟨-, hdel⟩
  · exact hloop
  · obtain ⟨-, rfl⟩ := deleteTdlsRalist_eq hdel
    exact hloop.trans ⟨rfl, rfl⟩

/-- Only a new order writes the tables. -/
theorem sameTables_step {op : Op} (hop : ∀ ie, op ≠ .priorities (some ie)) (h : s.step cfg op = some s') :
    SameTables s s' := by
  cases op with
  | add b e => exact sameTables_add h
  | ralistAdd ra c =>
    obtain ⟨-, rfl⟩ := ralistAdd_eq h
    exact ⟨rfl, rfl⟩
  | dequeue d => exact sameTables_dequeue h
  | aggregate =>
    simp only [step, aggregatePkt] at h
    split at h
    · cases h
    · split_ifs at h
      split at h
      · exact some.inj h ▸ ⟨rfl, rfl⟩
      · split_ifs at h
        exact some.inj h ▸ ⟨rfl, rfl⟩
  | done resource =>
    simp only [step, sendDone] at h
    split at h
    · cases h
    · split at h <;> refine some.inj h ▸ ?_
      · split_ifs <;> exact ⟨rfl, rfl⟩
      · split_ifs <;> exact ⟨rfl, rfl⟩
      · exact ⟨rfl, rfl⟩
      · split_ifs <;> exact ⟨rfl, rfl⟩
  | drop => exact some.inj h ▸ sameTables_dropLoop 8 s
  | restore mac complete cs => exact sameTables_restore h
  | priorities ie =>
    cases ie with
    | none => exact some.inj h ▸ ⟨rfl, rfl⟩
    | some ie => exact absurd rfl (hop ie)
  | txPause mac p => exact some.inj h ▸ ⟨rfl, rfl⟩
  | nonTdlsPause mac p => exact some.inj h ▸ ⟨rfl, rfl⟩
  | ralistUpdate old new => exact some.inj h ▸ ⟨rfl, rfl⟩
  | deletePeer mac => exact some.inj h ▸ ⟨rfl, rfl⟩
  | hold mac => exact some.inj h ▸ ⟨rfl, rfl⟩
  | downgrade vals => exact some.inj h ▸ ⟨rfl, rfl⟩

/-- The loop that writes `tos_to_tid_inv`. -/
def invert (inv tos : Tid → Tid) : Tid → Tid :=
  (List.finRange 8).foldl (fun inv i => update inv (tos i) i) inv

/-- `wlan_clean_txrx`, as far as it is about these queues. The default table is copied from `ac_to_tid`. -/
def cleanTxrx (cfg : Config) (s : Bss) : Bss :=
  let tos : Tid → Tid := fun k => acToTid ⟨k.val / 2, half_lt k⟩ (k.val % 2 = 1)
  { s with
    tbl := fun _ => []
    curr := fun _ => .null
    pktsQueued := fun _ => 0
    pktsPaused := fun _ => 0
    txPktsQueued := 0
    highestQueuedPrio := highPrioTid
    tosToTid := tos
    tosToTidInv := invert s.tosToTidInv tos
    pendingTxq := fun q => (s.pendingTxq q).filter fun a => ¬s.Live a
    selectedRaList := none
    allStas := []
    tdlsPendingTxq := if cfg.uap then s.tdlsPendingTxq else [] }

theorem defaultTable : (fun k : Tid => acToTid ⟨k.val / 2, half_lt k⟩ (k.val % 2 = 1)) = tidTable Fin.rev := by
  funext k
  revert k
  decide

theorem inverse_cleanTxrx (s : Bss) : Inverse (s.cleanTxrx cfg) := by
  have hinv := inverse_queuePrioritiesTid Fin.rev_injective s
  exact hinv.congr defaultTable (congrArg (invert s.tosToTidInv) defaultTable)

/-- The scheduler looks at the row. -/
def Reaches (s : Bss) (t : Tid) : Prop :=
  ∃ i : Tid, s.tosToTid i = t ∧ (i : WithBot Tid) ≤ s.highestQueuedPrio
  deriving Decidable

end Bss

/-! ## The interfaces -/

/-- The interfaces of an adapter. The tables are those of all interfaces; the ones in `bss` are not used. -/
structure Adapter (ι : Type*) where
  bss : ι → Bss
  tosToTid : Tid → Tid
  tosToTidInv : Tid → Tid
  /-- History : the parameters last set up for an interface. -/
  params : ι → WmmParams

/-- The operations. -/
inductive AdapterOp (ι : Type*)
  | bss (b : ι) (op : Op)
  | cleanTxrx (b : ι)

section

variable {ι : Type*} [DecidableEq ι] (conf : ι → Config)

namespace Adapter

variable (s : Adapter ι)

/-- An interface with the tables. -/
def view (b : ι) : Bss :=
  { s.bss b with tosToTid := s.tosToTid, tosToTidInv := s.tosToTidInv }

/-- An interface and the tables after an operation. -/
def put (b : ι) (u : Bss) (p : ι → WmmParams) : Adapter ι :=
  ⟨update s.bss b u, u.tosToTid, u.tosToTidInv, p⟩

/-- The parameters last set up, behind an operation on `b`. -/
def nextParams (b : ι) : Op → ι → WmmParams
  | .priorities ie => update s.params b ie
  | _ => s.params

/-- One operation. -/
def step : AdapterOp ι → Option (Adapter ι)
  | .bss b op => ((s.view b).step (conf b) op).map fun u => s.put b u (s.nextParams b op)
  | .cleanTxrx b => some (s.put b ((s.view b).cleanTxrx (conf b)) (update s.params b none))

theorem step_bss {s s' : Adapter ι} {b : ι} {op : Op} (h : s.step conf (.bss b op) = some s') :
    ∃ u, (s.view b).step (conf b) op = some u ∧ s' = s.put b u (s.nextParams b op) := by
  obtain ⟨u, hu, rfl⟩ := map_eq_some_iff.mp h
  exact ⟨u, hu, rfl⟩

/-- The interfaces after `wlan_wmm_init`. -/
def Init : Prop :=
  (∀ b, s.bss b = emptyBss) ∧ s.tosToTid = emptyBss.tosToTid ∧ s.tosToTidInv = emptyBss.tosToTidInv ∧
    ∀ b, s.params b = none

end Adapter

/-- The interfaces of an adapter, from `wlan_wmm_init` on. -/
def adapterSystem : System (Adapter ι) (AdapterOp ι) :=
  ⟨Adapter.Init, Adapter.step conf⟩

/-- The order that is set up is in force already : it is the one of the other interfaces' parameters, and the defaults,
which leave the tables, are so for the interface itself as well. -/
def AdapterOp.Agrees (s : Adapter ι) : AdapterOp ι → Prop
  | .bss a (.priorities (some ie)) => Bss.NamesAll ie ∧ ∀ c, c ≠ a → SameOrder (s.params c) (some ie)
  | .bss _ (.priorities none) => ∀ c, SameOrder (s.params c) none
  | .cleanTxrx a => ∀ c, c ≠ a → SameOrder (s.params c) none
  | _ => True

instance [Fintype ι] (s : Adapter ι) (op : AdapterOp ι) : Decidable (op.Agrees s) := by
  unfold AdapterOp.Agrees
  split <;> infer_instance

/-- **Isolation of the interfaces.** Each is served in the order of the parameters last set up for it, and a set-up of
one that meets the condition leaves the lists of the others in the reach of the scheduler. -/
structure Isolated (s : Adapter ι) : Prop where
  order : ∀ b, Follows s.tosToTid (s.params b)
  reach : ∀ a ie s', (AdapterOp.bss a (.priorities ie)).Agrees s → s.step conf (.bss a (.priorities ie)) = some s' →
    ∀ b, b ≠ a → ∀ t, ∀ l ∈ (s.bss b).tbl t, l.eligible = true → (s.view b).Reaches t →
      l ∈ (s'.bss b).tbl t ∧ (s'.view b).Reaches t

/-- The tables are of one order, which is the one of all parameters, and inverse. -/
structure Uniform (s : Adapter ι) (q : Fin 4 → Ac) : Prop where
  table : s.tosToTid = tidTable q
  sorted : ∀ b, StrictMono (rank (s.params b) ∘ q)
  left : ∀ i, s.tosToTidInv (s.tosToTid i) = i
  right : ∀ t, s.tosToTid (s.tosToTidInv t) = t

namespace Uniform

variable {conf} {s s' : Adapter ι} {q : Fin 4 → Ac}

theorem strictMono_rev : StrictMono (rank none ∘ Fin.rev) := by
  intro i j hij
  exact rank_lt_of_before (Fin.rev_lt_rev.mpr hij)

theorem init (h : s.Init) : Uniform s Fin.rev := by
  obtain ⟨-, htos, hinv, hp⟩ := h
  refine ⟨htos.trans Bss.defaultTable, fun b => ?_, fun i => ?_, fun t => ?_⟩
  · rw [hp b]
    exact strictMono_rev
  · rw [htos, hinv]
    exact Bss.inverse_empty.left i
  · rw [htos, hinv]
    exact Bss.inverse_empty.right t

/-- A new order, the same as that of the other parameters. -/
theorem setup {a : ι} {p : WmmParams} {q' : Fin 4 → Ac} {u : Bss} (hu : Bss.Inverse u)
    (htable : u.tosToTid = tidTable q') (hq : StrictMono (rank p ∘ q')) (hc : ∀ c, c ≠ a → SameOrder (s.params c) p) :
    Uniform (s.put a u (update s.params a p)) q' := by
  refine ⟨htable, fun b => ?_, hu.left, hu.right⟩
  by_cases hb : b = a
  · subst hb
    simpa [Adapter.put] using hq
  · have hrank := (hc b hb).rank_eq
    simpa [Adapter.put, hb, hrank] using hq

/-- The order stays. -/
theorem keep (h : Uniform s q) {b : ι} {u : Bss} {p : ι → WmmParams} (hu : Bss.SameTables (s.view b) u)
    (hp : ∀ c, rank (p c) = rank (s.params c)) : Uniform (s.put b u p) q := by
  refine ⟨hu.1.trans h.table, fun c => ?_, fun i => ?_, fun t => ?_⟩
  · simpa [Adapter.put, hp c] using h.sorted c
  · change u.tosToTidInv (u.tosToTid i) = i
    rw [hu.1, hu.2]
    exact h.left i
  · change u.tosToTid (u.tosToTidInv t) = t
    rw [hu.1, hu.2]
    exact h.right t

theorem step {op : AdapterOp ι} (h : Uniform s q) (hc : op.Agrees s) (hs : s.step conf op = some s') :
    ∃ q', Uniform s' q' := by
  cases op with
  | cleanTxrx a =>
    obtain rfl := some.inj hs
    exact ⟨Fin.rev, setup (Bss.inverse_cleanTxrx _) Bss.defaultTable strictMono_rev hc⟩
  | bss a op =>
    obtain ⟨u, hu, rfl⟩ := Adapter.step_bss conf hs
    by_cases hop : ∃ ie, op = .priorities (some ie)
    · obtain ⟨ie, rfl⟩ := hop
      obtain ⟨hnames, hothers⟩ := hc
      obtain rfl := some.inj hu
      exact ⟨_, setup (Bss.inverse_setupQueuePriorities hnames _).1 (Bss.tables_setup _ ie) (strictMono_setup hnames _)
        hothers⟩
    · refine ⟨q, h.keep (Bss.sameTables_step (fun ie hie => hop ⟨ie, hie⟩) hu) fun c => ?_⟩
      cases op with
      | priorities ie =>
        cases ie with
        | some ie => exact absurd ⟨ie, rfl⟩ hop
        | none =>
          by_cases hca : c = a
          · subst hca
            simpa [Adapter.nextParams] using (hc c).rank_eq.symm
          · simp [Adapter.nextParams, hca]
      | _ => rfl

/-- A set-up of one interface that meets the condition changes nothing that the others see. -/
theorem view_eq (h : Uniform s q) {a : ι} {ie : WmmParams} (hc : (AdapterOp.bss a (.priorities ie)).Agrees s)
    (hs : s.step conf (.bss a (.priorities ie)) = some s') {b : ι} (hb : b ≠ a) : s'.view b = s.view b := by
  obtain ⟨u, hu, rfl⟩ := Adapter.step_bss conf hs
  have htables : u.tosToTid = s.tosToTid ∧ u.tosToTidInv = s.tosToTidInv := by
    cases ie with
    | none => exact Bss.sameTables_step (by simp) hu
    | some ie =>
      obtain ⟨hnames, hothers⟩ := hc
      obtain rfl := some.inj hu
      have hinv := (Bss.inverse_setupQueuePriorities hnames (s.view a)).1
      have hq := strictMono_setup hnames (s.view a)
      rw [← (hothers b hb).rank_eq] at hq
      have htos : ((s.view a).setupQueuePriorities (some ie)).tosToTid = s.tosToTid := by
        rw [Bss.tables_setup, eq_of_strictMono_rank hq (h.sorted b), h.table]
      refine ⟨htos, ?_⟩
      -- an inverse is unique
      funext t
      have hright := h.right t
      rw [← htos] at hright
      rw [← hinv.left (s.tosToTidInv t), hright]
  simp [Adapter.view, Adapter.put, hb, htables]

theorem isolated (h : Uniform s q) : Isolated conf s := by
  refine ⟨fun b => ?_, fun a ie s' hc hs b hb t l hl _ hr => ?_⟩
  · rw [h.table]
    exact follows_tidTable (h.sorted b)
  · have hview := h.view_eq hc hs hb
    refine ⟨?_, hview ▸ hr⟩
    have htbl := congrArg (fun v : Bss => v.tbl t) hview
    exact htbl ▸ hl

end Uniform

/-- **WMM isolation**, in a run whose set-ups ask for the order in force. -/
theorem wmm_isolation {s : Adapter ι} (h : (adapterSystem conf).ReachableWhen (fun s op => op.Agrees s) s) :
    Isolated conf s := by
  have hinv : ∃ q, Uniform s q :=
    h.invariant (I := fun s => ∃ q, Uniform s q) (fun _ hi => ⟨_, .init hi⟩) fun _ _ _ ⟨_, hi⟩ hc hs => hi.step hc hs
  obtain ⟨q, hq⟩ := hinv
  exact hq.isolated

end

/-! ## Two stations -/

/-- The parameters that `wlan_wmm_init` has, voice before video before best effort before background. -/
def usualParams : Fin 4 → AcParam
  | 0 => ⟨0, 4, 3⟩
  | 1 => ⟨1, 4, 7⟩
  | 2 => ⟨2, 3, 2⟩
  | 3 => ⟨3, 2, 2⟩

/-- A network that puts best effort first. -/
def bestEffortFirst : Fin 4 → AcParam
  | 0 => ⟨0, 1, 1⟩
  | 1 => ⟨1, 4, 7⟩
  | 2 => ⟨2, 3, 2⟩
  | 3 => ⟨3, 2, 2⟩

def twoStations : Adapter Bool :=
  ⟨fun _ => emptyBss, emptyBss.tosToTid, emptyBss.tosToTidInv, fun _ => none⟩

theorem twoStations_init : twoStations.Init :=
  ⟨fun _ => rfl, rfl, rfl, fun _ => rfl⟩

/-- A station with two packets in TID 0, of which the first one is sent : the bound is at TID 0. -/
def onePacketLeft (b : Bool) : List (AdapterOp Bool) :=
  (associated ++ [Op.add (bestEffort apAddr) toAp, .dequeue .highest, .done false]).map (.bss b)

/-- Both stations set up the usual parameters. -/
theorem wmm_isolation_usual : ∃ s : Adapter Bool,
    (adapterSystem fun _ => staConfig).ReachableWhen (fun s op => op.Agrees s) s ∧
      (s.bss true).Elig 0 ∧ s.params false = some usualParams ∧ Isolated (fun _ => staConfig) s := by
  obtain ⟨s, hs, hp⟩ := System.exists_reachableWhen_of_runWhen (M := adapterSystem fun _ : Bool => staConfig)
    (C := fun s op => op.Agrees s)
    (P := fun s => decide (EligRow ((s.bss true).tbl 0) ∧ s.params false = some usualParams))
    (l := .bss true (.priorities (some usualParams)) :: onePacketLeft true ++
      [.bss false (.priorities (some usualParams))])
    (.init twoStations_init) (by decide +kernel)
  obtain ⟨helig, hparams⟩ := of_decide_eq_true hp
  exact ⟨s, hs, helig, hparams, wmm_isolation _ hs⟩

/-- One station has a packet left and its bound at TID 0, and the other one sets up an order with best effort first :
the first one is not served in the order of its own parameters any more, and its scheduler looks below TID 0 and finds
nothing. -/
theorem order_of_another : ∃ s s' : Adapter Bool, (adapterSystem fun _ => staConfig).Reachable s ∧
    s.step (fun _ => staConfig) (.bss false (.priorities (some bestEffortFirst))) = some s' ∧
    (∃ l ∈ (s.bss true).tbl 0, l.eligible = true) ∧ (s.view true).Reaches 0 ∧ ¬(s'.view true).Reaches 0 ∧
    ((s'.view true).getHighestPriolistPtr.all fun r => r.2.isNone) ∧ ¬Follows s'.tosToTid (s'.params true) := by
  obtain ⟨s, hs, hp⟩ := System.exists_reachable_of_run (M := adapterSystem fun _ : Bool => staConfig)
    (P := fun s => (s.step (fun _ => staConfig) (.bss false (.priorities (some bestEffortFirst)))).any
      fun s' : Adapter Bool =>
      decide (EligRow ((s.bss true).tbl 0) ∧ (s.view true).Reaches 0 ∧ ¬(s'.view true).Reaches 0 ∧
        ((s'.view true).getHighestPriolistPtr.all fun r => r.2.isNone) ∧ ¬Follows s'.tosToTid (s'.params true)))
    (l := onePacketLeft true) twoStations_init (by decide +kernel)
  obtain ⟨s', hs', hdec⟩ := (Option.any_eq_true _ _).mp hp
  obtain ⟨helig, hreach, hunseen, hnone, horder⟩ := of_decide_eq_true hdec
  exact ⟨s, s', hs, hs', helig, hreach, hunseen, hnone, horder⟩

end WlanDriver.Wmm
