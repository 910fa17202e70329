import WlanDriver.Wmm.Accounting
import WlanDriver.Wmm.Cursors

/-!
# Priority of the WMM queues

`highest_queued_prio` is a bound from above on the priority of the lists that may be served : an index of `tos_to_tid`,
where the indices `2k` and `2k + 1` are one access category. An enqueue raises it, and the scheduler, which looks from it
downwards, lowers it, or moves it to the other index of the category so that both TIDs get their turn.

The bound may therefore be the lower index of a category whose upper index has packets; then the lower one must have some as
well, or the scheduler passes the category by. `PrioInv` says both. What takes packets away has to raise the bound again
or leave some there. `strict_priority` : in every run whose operations do (`Bss.KeepsPriority`), the scheduler serves
the highest category that has a packet.
-/

namespace WlanDriver.Wmm

open Ethernet List Function
open Option hiding mem_map any_eq_true or_assoc

variable {cfg : Config} {s s' : Bss} {t : Tid} {a : ℕ} {l x y : RaList} {b : Buf} {mac : Mac}

/-! ## Tables of priorities -/

theorem acToTid_inj {q r : Ac} {b c : Bool} (h : acToTid q b = acToTid r c) : q = r ∧ b = c := by
  revert q r b c
  decide

theorem aciToQidx_surj (q : Ac) : ∃ a, aciToQidx a = q := by
  revert q
  decide

section Tables

variable {α β γ : Type*} [DecidableEq α]

theorem foldl_update_of_ne {f : β → α} {g : β → γ} {x : α} {l : List β} (h : ∀ i ∈ l, f i ≠ x) (m : α → γ) :
    (l.foldl (fun m i => update m (f i) (g i)) m) x = m x := by
  induction l generalizing m with
  | nil => rfl
  | cons i l ih =>
    rw [foldl_cons, ih fun j hj => h j (mem_cons_of_mem _ hj)]
    exact update_of_ne (h i mem_cons_self).symm _ _

/-- An inverse, entry by entry. -/
theorem foldl_update_inverse {f : β → α} (hf : Function.Injective f) {l : List β} {i : β} (hi : i ∈ l) (hn : l.Nodup)
    (m : α → β) : (l.foldl (fun m i => update m (f i) i) m) (f i) = i := by
  induction l generalizing m with
  | nil => simp at hi
  | cons j l ih =>
    rw [nodup_cons] at hn
    rw [foldl_cons]
    rcases mem_cons.mp hi with rfl | hi
    · have hne : ∀ k ∈ l, f k ≠ f i := fun k hk he => hn.1 (hf he ▸ hk)
      exact (foldl_update_of_ne (g := id) hne _).trans (update_self (f i) i m)
    · exact ih hi hn.2 _

/-- Entries that are their own index stay so. -/
theorem foldl_update_self {f : β → α} {x : α} {l : List β} {m : α → α} (h : m x = x ∨ ∃ i ∈ l, f i = x) :
    (l.foldl (fun m i => update m (f i) (f i)) m) x = x := by
  induction l generalizing m with
  | nil => simpa using h
  | cons i l ih =>
    rw [foldl_cons]
    refine ih ?_
    by_cases hx : f i = x
    · left
      rw [hx, update_self]
    · rw [update_of_ne (Ne.symm hx)]
      rcases h with h | ⟨j, hj, rfl⟩
      · exact .inl h
      · rcases mem_cons.mp hj with rfl | hj
        · exact absurd rfl hx
        · exact .inr ⟨j, hj, rfl⟩

end Tables

namespace Bss

theorem bubble_injective {a : (Fin 4 → ℕ) × (Fin 4 → Ac)} (j : Fin 4) (h : Function.Injective a.2) :
    Function.Injective (bubble a j).2 := by
  unfold bubble
  split_ifs
  · exact h.comp (Equiv.injective _)
  · exact h.comp (Equiv.injective _)
  · exact h

theorem foldl_bubble_injective (l : List (Fin 4)) {a : (Fin 4 → ℕ) × (Fin 4 → Ac)} (h : Function.Injective a.2) :
    Function.Injective (l.foldl bubble a).2 := by
  induction l generalizing a with
  | nil => exact h
  | cons j l ih => exact ih (bubble_injective j h)

/-- `tos_to_tid` and `tos_to_tid_inv` are inverse. -/
structure Inverse (s : Bss) : Prop where
  left : ∀ i, s.tosToTidInv (s.tosToTid i) = i
  right : ∀ t, s.tosToTid (s.tosToTidInv t) = t

theorem Inverse.injective (h : Inverse s) : Function.Injective s.tosToTid :=
  Function.LeftInverse.injective h.left

theorem Inverse.congr (h : Inverse s) (htos : s'.tosToTid = s.tosToTid) (hinv : s'.tosToTidInv = s.tosToTidInv) :
    Inverse s' :=
  ⟨fun i => by rw [htos, hinv, h.left], fun t => by rw [htos, hinv, h.right]⟩

theorem inverse_queuePrioritiesTid {qp : Fin 4 → Ac} (h : Function.Injective qp) (s : Bss) :
    Inverse (s.queuePrioritiesTid qp) := by
  let tos : Tid → Tid := fun k => acToTid (qp ⟨(7 - k.val) / 2, by omega⟩) (k.val % 2 = 1)
  have htos : Function.Injective tos := by
    intro i j hij
    obtain ⟨hq, hb⟩ := acToTid_inj hij
    have hq' := congrArg Fin.val (h hq)
    have hb' : (i.val % 2 = 1) ↔ (j.val % 2 = 1) := by simpa using hb
    dsimp only at hq'
    exact Fin.ext (by omega)
  have hleft : Function.LeftInverse (s.queuePrioritiesTid qp).tosToTidInv tos :=
    fun i => foldl_update_inverse htos (mem_finRange i) (nodup_finRange 8) _
  exact ⟨hleft, hleft.rightInverse_of_surjective (Finite.surjective_of_injective htos)⟩

/-- The element names every access category. -/
def NamesAll (ie : Fin 4 → AcParam) : Prop :=
  ∀ a : Fin 4, ∃ n, (ie n).aci = a
  deriving Decidable

/-- The categories before the sort. -/
theorem named_injective {ie : Fin 4 → AcParam} (h : NamesAll ie) (qp : Fin 4 → Ac) :
    Function.Injective ((List.finRange 4).foldl
      (fun qp n => update qp (aciToQidx (ie n).aci) (aciToQidx (ie n).aci)) qp) := by
  have hself : ∀ q, ((List.finRange 4).foldl
      (fun qp n => update qp (aciToQidx (ie n).aci) (aciToQidx (ie n).aci)) qp) q = q := by
    intro q
    obtain ⟨a, rfl⟩ := aciToQidx_surj q
    obtain ⟨n, rfl⟩ := h a
    exact foldl_update_self (f := fun n => aciToQidx (ie n).aci) (.inr ⟨n, mem_finRange n, rfl⟩)
  intro q r hqr
  rwa [hself, hself] at hqr

theorem inverse_setupQueuePriorities {ie : Fin 4 → AcParam} (h : NamesAll ie) (s : Bss) :
    Inverse (s.setupQueuePriorities (some ie)) ∧ (s.setupQueuePriorities (some ie)).highestQueuedPrio = highPrioTid := by
  have hinj := named_injective h s.queuePriority
  unfold setupQueuePriorities
  dsimp only
  generalize (List.finRange 4).foldl
    (fun qp n => update qp (aciToQidx (ie n).aci) (aciToQidx (ie n).aci)) s.queuePriority = qp at hinj ⊢
  generalize (List.finRange 4).foldl
    (fun tmp n => update tmp (aciToQidx (ie n).aci) (ie n).avgBackOff) (fun _ => 0) = tmp
  have hsorted := foldl_bubble_injective [1, 2, 3, 1, 2, 1] (a := (tmp, qp)) hinj
  generalize List.foldl bubble (tmp, qp) [1, 2, 3, 1, 2, 1] = sorted at hsorted ⊢
  exact ⟨(inverse_queuePrioritiesTid hsorted s).congr rfl rfl, rfl⟩

theorem inverse_empty : Inverse emptyBss :=
  ⟨by decide, by decide⟩

end Bss

/-! ## The bound -/

theorem sibling_ne (i : Tid) : sibling i ≠ i := by
  revert i
  decide

/-- The index `i` is at most `h | 1`, category by category. -/
def Covers (h : WithBot Tid) (i : Tid) : Prop :=
  ∃ j : Tid, h = (j : WithBot Tid) ∧ i.val / 2 ≤ j.val / 2

theorem le_lor_one_iff (i j : Tid) : i.val ≤ j.val ||| 1 ↔ i.val / 2 ≤ j.val / 2 := by
  revert i j
  decide

theorem covers_highPrioTid (i : Tid) : Covers highPrioTid i :=
  ⟨7, rfl, by have := i.isLt; simp; omega⟩

theorem Covers.sup {h : WithBot Tid} {i : Tid} (hc : Covers h i) (k : Tid) : Covers (h ⊔ (k : WithBot Tid)) i := by
  obtain ⟨j, rfl, hij⟩ := hc
  refine ⟨j ⊔ k, (WithBot.coe_sup j k).symm, ?_⟩
  have : j.val ≤ (j ⊔ k).val := Fin.le_def.mp le_sup_left
  omega

theorem covers_sup (h : WithBot Tid) (i : Tid) : Covers (h ⊔ (i : WithBot Tid)) i := by
  cases h with
  | bot => exact ⟨i, by simp, le_rfl⟩
  | coe j =>
    refine ⟨j ⊔ i, (WithBot.coe_sup j i).symm, ?_⟩
    have : i.val ≤ (j ⊔ i).val := Fin.le_def.mp le_sup_right
    omega

/-- A list of the row may be served. -/
def EligRow (row : List RaList) : Prop :=
  ∃ l ∈ row, l.eligible = true

instance : DecidablePred EligRow :=
  fun row => inferInstanceAs (Decidable (∃ l ∈ row, l.eligible = true))

namespace Bss

def Elig (s : Bss) (t : Tid) : Prop :=
  EligRow (s.tbl t)

/-- A packet of the TID is with the bus. -/
def FlightAt (s : Bss) (t : Tid) : Prop :=
  ∃ f, s.flight = some f ∧ f.tid = t

/-- The TID has a packet to serve, or may get one back. -/
def Busy (s : Bss) (t : Tid) : Prop :=
  s.Elig t ∨ s.FlightAt t

instance (s : Bss) (t : Tid) : Decidable (s.Busy t) :=
  decidable_of_iff (EligRow (s.tbl t) ∨ s.flight.any (fun f => f.tid = t) = true)
    (or_congr_right (by cases hf : s.flight <;> simp [FlightAt, hf]))

theorem flightAt_congr (h : s'.flight = s.flight) : s'.FlightAt t ↔ s.FlightAt t := by
  unfold FlightAt
  rw [h]

theorem flightAt_of_some {f : Flight} (h : s.flight = some f) : s.FlightAt t ↔ t = f.tid := by
  unfold FlightAt
  simp only [h, some.injEq, exists_eq_left', eq_comm]

theorem not_flightAt (h : s.flight = none) : ¬s.FlightAt t := by
  rintro ⟨f, hf, -⟩
  rw [h] at hf
  exact absurd hf (by simp)

end Bss

/-- The bound covers what may be served; at the lower index of a category, that index can be served if the upper one can. -/
structure PrioInv (s : Bss) : Prop where
  inverse : Bss.Inverse s
  bound : ∀ i, s.Busy (s.tosToTid i) → Covers s.highestQueuedPrio i
  even : ∀ i : Tid, s.highestQueuedPrio = (i : WithBot Tid) → i.val % 2 = 0 → s.Busy (s.tosToTid (sibling i)) →
    s.Elig (s.tosToTid i) ∧ ¬s.FlightAt (s.tosToTid i)

namespace PrioInv

/-- Less is served under the same bound. -/
theorem of_le (h : PrioInv s) (htos : s'.tosToTid = s.tosToTid) (hinv : s'.tosToTidInv = s.tosToTidInv)
    (hh : s'.highestQueuedPrio = s.highestQueuedPrio) (hb : ∀ t, s'.Busy t → s.Busy t)
    (he : ∀ i : Tid, s.highestQueuedPrio = (i : WithBot Tid) → i.val % 2 = 0 → s.Busy (s.tosToTid (sibling i)) →
      s.Elig (s.tosToTid i) → ¬s.FlightAt (s.tosToTid i) → s'.Elig (s.tosToTid i) ∧ ¬s'.FlightAt (s.tosToTid i)) :
    PrioInv s' := by
  refine ⟨h.inverse.congr htos hinv, fun i hi => ?_, fun i hi heven hbusy => ?_⟩
  · rw [htos] at hi
    rw [hh]
    exact h.bound i (hb _ hi)
  · rw [htos] at hbusy ⊢
    rw [hh] at hi
    obtain ⟨helig, hflight⟩ := h.even i hi heven (hb _ hbusy)
    exact he i hi heven (hb _ hbusy) helig hflight

/-- The same lists can be served. -/
theorem of_elig (h : PrioInv s) (htos : s'.tosToTid = s.tosToTid) (hinv : s'.tosToTidInv = s.tosToTidInv)
    (hh : s'.highestQueuedPrio = s.highestQueuedPrio) (hf : s'.flight = s.flight) (he : ∀ t, s'.Elig t ↔ s.Elig t) :
    PrioInv s' := by
  refine h.of_le htos hinv hh (fun t => ?_) fun i _ _ _ helig hflight => ⟨(he _).mpr helig, ?_⟩
  · exact Or.imp (he t).mp (Bss.flightAt_congr hf).mp
  · rwa [Bss.flightAt_congr hf]

theorem landed (h : PrioInv s) (htos : s'.tosToTid = s.tosToTid) (hinv : s'.tosToTidInv = s.tosToTidInv)
    (hh : s'.highestQueuedPrio = s.highestQueuedPrio) (hf : s'.flight = none) (hb : ∀ t, s'.Elig t → s.Busy t)
    (he : ∀ t, s.Elig t → s'.Elig t) : PrioInv s' := by
  refine h.of_le htos hinv hh (fun t ht => ?_) fun i _ _ _ helig _ => ⟨he _ helig, Bss.not_flightAt hf⟩
  rcases ht with ht | ht
  · exact hb t ht
  · exact absurd ht (Bss.not_flightAt hf)

theorem of_high (hinv : Bss.Inverse s) (hh : s.highestQueuedPrio = highPrioTid) : PrioInv s := by
  refine ⟨hinv, fun i _ => hh ▸ covers_highPrioTid i, fun i hi heven => ?_⟩
  rw [hh, highPrioTid, WithBot.coe_inj] at hi
  subst hi
  exact absurd heven (by decide)

/-- A packet comes to TID `t`, and the bound is raised to it. -/
theorem raise (h : PrioInv s) (htos : s'.tosToTid = s.tosToTid) (hinv : s'.tosToTidInv = s.tosToTidInv)
    (hh : s'.highestQueuedPrio = s.highestQueuedPrio ⊔ ((s.tosToTidInv t : Tid) : WithBot Tid))
    (hf : s'.flight = s.flight) (hb : ∀ u, s'.Elig u → s.Elig u ∨ u = t) (he : ∀ u, s.Elig u → s'.Elig u) :
    PrioInv s' := by
  have hbusy : ∀ u, s'.Busy u → s.Busy u ∨ u = t := by
    rintro u (hu | hu)
    · exact (hb u hu).imp_left .inl
    · exact .inl (.inr ((Bss.flightAt_congr hf).mp hu))
  refine ⟨h.inverse.congr htos hinv, fun i hi => ?_, fun i hi heven hi' => ?_⟩
  · rw [htos] at hi
    rw [hh]
    rcases hbusy _ hi with hi | hi
    · exact (h.bound i hi).sup _
    · rw [← hi, h.inverse.left]
      exact covers_sup _ i
  · rw [htos] at hi' ⊢
    rw [hh] at hi
    have hsib : (sibling i).val = i.val + 1 := by simp [sibling, heven]
    rcases hbusy _ hi' with hold | hnew
    · -- the bound was at this index already : from below it would not cover the upper one
      have hsame : s.highestQueuedPrio = (i : WithBot Tid) := by
        obtain ⟨j, hj, hle⟩ := h.bound _ hold
        rw [hj, ← WithBot.coe_sup, WithBot.coe_inj] at hi
        have hji : j ≤ i := hi ▸ le_sup_left
        have := Fin.le_def.mp hji
        rw [hj, WithBot.coe_inj]
        exact Fin.ext (by omega)
      obtain ⟨helig, hflight⟩ := h.even i hsame heven hold
      exact ⟨he _ helig, by rwa [Bss.flightAt_congr hf]⟩
    · -- the packet is at the upper index, which the bound is not below
      rw [← hnew, h.inverse.left] at hi
      have hle : ((sibling i : Tid) : WithBot Tid) ≤ (i : WithBot Tid) := hi ▸ le_sup_right
      have := Fin.le_def.mp (WithBot.coe_le_coe.mp hle)
      omega

end PrioInv

/-! ## Rows that may be served -/

namespace EligRow

variable {row row' : List RaList}

theorem replace (h : Replaces x y row row') (hxy : x.eligible = true → y.eligible = true) (he : EligRow row) :
    EligRow row' := by
  obtain ⟨l, hl, hel⟩ := he
  obtain ⟨l₁, l₂, rfl, rfl⟩ := h
  rw [mem_append, mem_cons] at hl
  rcases hl with hl | rfl | hl
  · exact ⟨l, mem_append_left _ hl, hel⟩
  · exact ⟨y, by simp, hxy hel⟩
  · exact ⟨l, mem_append_right _ (mem_cons_of_mem _ hl), hel⟩

theorem replace_iff (h : Replaces x y row row') (hxy : y.eligible = x.eligible) : EligRow row' ↔ EligRow row :=
  ⟨replace h.symm fun hy => hxy ▸ hy, replace h fun hx => hxy.symm ▸ hx⟩

/-- One list of the row changes, if any. -/
theorem replaceFirst_iff {p : RaList → Bool} {f : RaList → RaList}
    (hf : ∀ x, row.find? p = some x → (f x).eligible = x.eligible) : EligRow (replaceFirst p f row) ↔ EligRow row := by
  cases hx : row.find? p with
  | none => rw [replaceFirst_of_none hx]
  | some x => exact replace_iff (replaceFirst_of_find hx) (hf x hx)

theorem map_iff {f : RaList → RaList} (hf : ∀ x ∈ row, (f x).eligible = x.eligible) :
    EligRow (row.map f) ↔ EligRow row := by
  constructor
  · rintro ⟨y, hy, he⟩
    obtain ⟨x, hx, rfl⟩ := mem_map.mp hy
    exact ⟨x, hx, hf x hx ▸ he⟩
  · rintro ⟨x, hx, he⟩
    exact ⟨f x, mem_map_of_mem hx, (hf x hx).symm ▸ he⟩

theorem removes_iff (h : Removes x row row') : EligRow row ↔ x.eligible = true ∨ EligRow row' := by
  constructor
  · rintro ⟨l, hl, he⟩
    by_cases hlx : l = x
    · exact .inl (hlx ▸ he)
    · exact .inr ⟨l, h.mem_of_ne hl hlx, he⟩
  · rintro (hx | ⟨l, hl, he⟩)
    · exact ⟨x, h.mem_old, hx⟩
    · exact ⟨l, h.sublist.subset hl, he⟩

theorem cons_iff : EligRow (x :: row) ↔ x.eligible = true ∨ EligRow row := by
  unfold EligRow
  simp only [mem_cons, exists_eq_or_imp]

end EligRow

namespace RaList

theorem eligible_eq_false_of_nil (h : l.bufHead = []) : l.eligible = false := by
  simp [eligible, h]

theorem eligible_pushTail (h : l.eligible = true) : (l.pushTail b).eligible = true := by
  simp only [eligible, Bool.and_eq_true, Bool.not_eq_true'] at h
  simp [eligible, pushTail, h.1]

theorem eligible_of_pop (h : l.pop.eligible = true) : l.eligible = true := by
  simp only [eligible, bufHead_pop, txPause_pop, Bool.and_eq_true, Bool.not_eq_true', isEmpty_eq_false_iff] at h ⊢
  refine ⟨h.1, fun hb => h.2 ?_⟩
  rw [hb, tail_nil]

/-- The packets of another list, if there are any, keep to their side. -/
theorem eligible_takeOver (h : x.bufHead = [] ∨ l.txPause = x.txPause) :
    (l.takeOver x).eligible = (l.eligible || x.eligible) := by
  have happ : (l.bufHead ++ x.bufHead).isEmpty = (l.bufHead.isEmpty && x.bufHead.isEmpty) := by
    cases l.bufHead <;> rfl
  simp only [eligible, bufHead_takeOver, txPause_takeOver, happ]
  rcases h with h | h
  · simp [h]
  · rw [h]
    cases x.txPause <;> simp

/-- Without packets, it does not matter whether the list is paused. -/
theorem eligible_setPause {p : Bool} (hb : l.totalPkts = 0 → l.bufHead = []) (h : l.flipPkts p = 0) :
    (l.setPause p).eligible = l.eligible := by
  unfold flipPkts at h
  split_ifs at h with hp
  · subst hp
    rfl
  · have hnil := hb h
    rw [eligible_eq_false_of_nil hnil]
    exact eligible_eq_false_of_nil hnil

end RaList

/-- What is dropped from a list that is not paused leaves packets there. -/
theorem TotalExact.eligible_drop (h : TotalExact s) (hl : l ∈ s.tbl t) (hd : l.droppable = true) :
    l.pop.eligible = l.eligible := by
  simp only [RaList.droppable, Bool.and_eq_true, Bool.or_eq_true, decide_eq_true_eq] at hd
  unfold RaList.eligible
  rw [RaList.txPause_pop, RaList.bufHead_pop]
  rcases hd.1.2 with hp | hmany
  · simp [hp]
  · have hlen := h t l hl
    have hfl : s.inFlight t l.addr ≤ 1 := by
      unfold Bss.inFlight
      split
      · omega
      · split_ifs <;> omega
    cases hb : l.bufHead with
    | nil => simp
    | cons b rest =>
      cases rest with
      | nil =>
        rw [hb, length_singleton] at hlen
        unfold rxLowThreshold at hmany
        omega
      | cons c rest => simp

namespace Bss

theorem elig_edit {u : Tid} (he : NodeEdit s s' t x y) (hxy : x.eligible = true → y.eligible = true) (h : s.Elig u) :
    s'.Elig u := by
  unfold Elig at h ⊢
  by_cases hu : u = t
  · subst hu
    exact EligRow.replace he.row hxy h
  · rwa [he.other u hu]

theorem elig_edit_iff {u : Tid} (he : NodeEdit s s' t x y) (hxy : y.eligible = x.eligible) : s'.Elig u ↔ s.Elig u :=
  ⟨elig_edit he.symm fun hy => hxy ▸ hy, elig_edit he fun hx => hxy.symm ▸ hx⟩

theorem elig_edit_of_ne {u : Tid} (he : NodeEdit s s' t x y) (hu : u ≠ t) : s'.Elig u ↔ s.Elig u := by
  unfold Elig
  rw [he.other u hu]

theorem elig_grow (c : Alloc) : (s.grow cfg c mac).Elig t ↔ s.Elig t := by
  unfold Elig grow
  constructor
  · rintro ⟨l, hl, he⟩
    rcases mem_append.mp hl with hl | hl
    · exact ⟨l, hl, he⟩
    · simp only [mem_toList, map_eq_some_iff] at hl
      obtain ⟨a, -, rfl⟩ := hl
      simp [RaList.eligible, newNode] at he
  · rintro ⟨l, hl, he⟩
    exact ⟨l, mem_append_left _ hl, he⟩

end Bss

/-! ## The scheduler -/

theorem openSum_eq_zero_iff {row : List RaList} (h : ∀ l ∈ row, l.totalPkts = l.bufHead.length) :
    openSum row = 0 ↔ ¬EligRow row := by
  unfold openSum EligRow
  rw [sum_eq_zero_iff]
  simp only [mem_map, forall_exists_index, and_imp, forall_apply_eq_imp_iff₂, not_exists, not_and]
  refine forall₂_congr fun l hl => ?_
  rw [RaList.openPkts, h l hl]
  cases hp : l.txPause <;> simp [RaList.eligible, hp]

/-- Between two sends, the counters of a TID say whether one of its lists may be served. -/
theorem AccountInv.elig_iff (h : AccountInv s) (hf : s.flight = none) (t : Tid) :
    (s.pktsQueued t ≠ 0 ∧ s.pktsPaused t < s.pktsQueued t) ↔ s.Elig t := by
  have hopen : openSum (s.tbl t) = 0 ↔ ¬s.Elig t :=
    openSum_eq_zero_iff fun l hl => by rw [h.total t l hl, Bss.inFlight_of_none hf, Nat.add_zero]
  have hsum := openSum_add_pausedSum (s.tbl t)
  rw [← not_iff_not, ← hopen, h.counted.queued, h.counted.paused]
  omega

namespace Bss

theorem mem_prios {h : WithBot Tid} {i : Tid} : i ∈ prios h ↔ (i : WithBot Tid) ≤ h := by
  simp [prios]

theorem prios_descending (h : WithBot Tid) : (prios h).Pairwise (· > ·) := by
  refine List.Pairwise.filter _ ?_
  decide

/-- The scan finds its way along valid cursors. -/
theorem exists_scanPrio (h : CurrValid s) (is : List Tid) : ∃ r, s.scanPrio is = some r := by
  induction is with
  | nil => exact ⟨none, rfl⟩
  | cons i is ih =>
    unfold scanPrio
    split_ifs with hempty
    · exact ih
    · obtain ⟨r, hr⟩ : ∃ r, ring (s.curr (s.tosToTid i)) (s.tbl (s.tosToTid i)) = some r := by
        cases hc : s.curr (s.tosToTid i) with
        | null => exact absurd (h.null _ hc) hempty
        | head => exact ⟨_, rfl⟩
        | node a =>
          obtain ⟨l, hl, hla⟩ := mem_map.mp (h.node _ a hc)
          have hidx : ((s.tbl (s.tosToTid i)).findIdx? fun l => l.addr = a).isSome := by
            rw [findIdx?_isSome, any_eq_true]
            exact ⟨l, hl, by simpa using hla⟩
          obtain ⟨k, hk⟩ := isSome_iff_exists.mp hidx
          exact ⟨_, by rw [ring, hk, map_some]⟩
      rw [hr, bind_some]
      cases r.find? RaList.eligible with
      | none => exact ih
      | some l => exact ⟨_, rfl⟩

theorem noneEligible_iff {i : Tid} : s.NoneEligible i ↔ ¬s.Elig (s.tosToTid i) := by
  simp [NoneEligible, Elig, EligRow]

/-- What the scheduler should find : a list of the highest category with one that may be served. -/
def Highest (s : Bss) : Option (Tid × RaList) → Prop
  | none => ∀ i, ¬s.Elig (s.tosToTid i)
  | some (i, l) => l ∈ s.tbl (s.tosToTid i) ∧ l.eligible = true ∧ (i : WithBot Tid) ≤ s.highestQueuedPrio ∧
      ∀ j, s.Elig (s.tosToTid j) → j.val / 2 ≤ i.val / 2

end Bss

namespace PrioInv

variable (h : PrioInv s)

include h

/-- A list that may be served is not above the bound, or at the upper index when the lower one has another. -/
theorem le_or_upper {k : Tid} (hk : s.Elig (s.tosToTid k)) :
    (k : WithBot Tid) ≤ s.highestQueuedPrio ∨
      ∃ i : Tid, s.highestQueuedPrio = (i : WithBot Tid) ∧ k.val / 2 ≤ i.val / 2 ∧ s.Elig (s.tosToTid i) := by
  obtain ⟨i, hi, hle⟩ := h.bound k (.inl hk)
  by_cases hki : k ≤ i
  · left
    rw [hi]
    exact WithBot.coe_le_coe.mpr hki
  · have hlt := Fin.lt_def.mp (not_le.mp hki)
    have heven : i.val % 2 = 0 := by omega
    have hsib : sibling i = k := Fin.ext (by simp only [sibling, heven]; simp; omega)
    exact .inr ⟨i, hi, hle, (h.even i hi heven (hsib ▸ .inl hk)).1⟩

/-- The scan from the bound downwards finds the highest. -/
theorem highest {r : Option (Tid × RaList)} (hr : s.scanPrio (Bss.prios s.highestQueuedPrio) = some r) :
    s.Highest r := by
  have hscan := Bss.scanPrio_cases hr
  cases r with
  | none =>
    intro k hk
    rcases h.le_or_upper hk with hle | ⟨i, hi, -, helig⟩
    · exact Bss.noneEligible_iff.mp (hscan k (Bss.mem_prios.mpr hle)) hk
    · exact Bss.noneEligible_iff.mp (hscan i (Bss.mem_prios.mpr hi.ge)) helig
  | some r =>
    obtain ⟨i, l⟩ := r
    obtain ⟨hl, he, is₁, is₂, his, hnone⟩ := hscan
    have hmem : (i : WithBot Tid) ≤ s.highestQueuedPrio := Bss.mem_prios.mp (by rw [his]; simp)
    -- above `i`, the scan has found nothing
    have habove : ∀ k : Tid, (k : WithBot Tid) ≤ s.highestQueuedPrio → s.Elig (s.tosToTid k) → k ≤ i := by
      intro k hk helig
      have hk' := Bss.mem_prios.mpr hk
      have hdesc := Bss.prios_descending s.highestQueuedPrio
      rw [his] at hk' hdesc
      rcases mem_append.mp hk' with hk' | hk'
      · exact absurd helig (Bss.noneEligible_iff.mp (hnone k hk'))
      · rcases mem_cons.mp hk' with rfl | hk'
        · exact le_rfl
        · exact (rel_of_pairwise_cons (pairwise_append.mp hdesc).2.1 hk').le
    refine ⟨hl, he, hmem, fun k hk => ?_⟩
    rcases h.le_or_upper hk with hle | ⟨j, hj, hkj, helig⟩
    · have := Fin.le_def.mp (habove k hle hk)
      omega
    · have := Fin.le_def.mp (habove j hj.ge helig)
      omega

/-- A list of the highest category is served, and the bound goes to the other TID of the category if that has a packet. -/
theorem served {i : Tid} {f : Flight} (hhigh : s.Highest (some (i, l)))
    (he : NodeEdit s s' (s.tosToTid i) l y) (hf : s'.flight = some f) (hft : f.tid = s.tosToTid i)
    (htos : s'.tosToTid = s.tosToTid) (hinv : s'.tosToTidInv = s.tosToTidInv)
    (hh : s.Elig (s.tosToTid (sibling i)) ∧ s'.highestQueuedPrio = ((sibling i : Tid) : WithBot Tid) ∨
      ¬s.Elig (s.tosToTid (sibling i)) ∧ s'.highestQueuedPrio = (i : WithBot Tid)) : PrioInv s' := by
  obtain ⟨-, hl, -, hmax⟩ := hhigh
  have hfl : ∀ t, s'.FlightAt t ↔ t = s.tosToTid i := fun t => hft ▸ Bss.flightAt_of_some hf
  have hne : s.tosToTid (sibling i) ≠ s.tosToTid i := fun heq => sibling_ne i (h.inverse.injective heq)
  have hbusy : ∀ u, s'.Busy u → s.Elig u ∨ u = s.tosToTid i := by
    rintro u (hu | hu)
    · exact .inl (Bss.elig_edit he.symm (fun _ => hl) hu)
    · exact .inr ((hfl u).mp hu)
  refine ⟨h.inverse.congr htos hinv, fun k hk => ?_, fun j hj _ hbs => ?_⟩
  · rw [htos] at hk
    have hki : k.val / 2 ≤ i.val / 2 := by
      rcases hbusy _ hk with hk | hk
      · exact hmax k hk
      · rw [h.inverse.injective hk]
    rcases hh with ⟨-, hh⟩ | ⟨-, hh⟩
    · refine ⟨sibling i, hh, ?_⟩
      have : (sibling i).val / 2 = i.val / 2 := by
        simp only [sibling]
        split_ifs <;> omega
      omega
    · exact ⟨i, hh, hki⟩
  · rw [htos] at hbs ⊢
    rcases hh with ⟨helig, hh⟩ | ⟨hno, hh⟩
    · rw [hh, WithBot.coe_inj] at hj
      subst hj
      exact ⟨(Bss.elig_edit_of_ne he hne).mpr helig, fun hat => hne ((hfl _).mp hat)⟩
    · -- the other TID has nothing
      rw [hh, WithBot.coe_inj] at hj
      subst hj
      exact absurd (hbusy _ hbs) (by simp [hno, hne])

theorem dequeue (ha : AccountInv s) (hcfg : cfg.mclient = false) {d : Bss.Sched}
    (hs : s.dequeueTxPacket cfg d = some s') : PrioInv s' := by
  unfold Bss.dequeueTxPacket at hs
  split_ifs at hs with hflight
  have hf : s.flight = none := by simpa using hflight
  cases d with
  | selected within => simp [Bss.getNextPriolistPtr, hcfg] at hs
  | next picks => simp [Bss.getNextPriolistPtr, hcfg] at hs
  | highest =>
    simp only [Bss.getNextPriolistPtr, Bss.getHighestPriolistPtr, map_eq_some_iff] at hs
    obtain ⟨_, ⟨r, hr, rfl⟩, rfl⟩ := hs
    have hhigh := h.highest hr
    cases r with
    | none =>
      -- nothing may be served, whatever the bound is
      have hnone : ∀ t, ¬s.Busy t := by
        rintro t (ht | ht)
        · exact hhigh (s.tosToTidInv t) (by rwa [h.inverse.right])
        · exact Bss.not_flightAt hf ht
      exact ⟨h.inverse.congr rfl rfl, fun i hi => absurd hi (hnone _), fun i _ _ hi => absurd hi (hnone _)⟩
    | some r =>
      obtain ⟨i, l⟩ := r
      obtain ⟨hl, he, hle, -⟩ := id hhigh
      have hn := ha.distinct.node_eq hl
      dsimp only
      generalize hw : (if s.pktsQueued (s.tosToTid (sibling i)) ≠ 0 ∧
        s.pktsPaused (s.tosToTid (sibling i)) < s.pktsQueued (s.tosToTid (sibling i)) then
        ((sibling i : Tid) : WithBot Tid) else s.highestQueuedPrio ⊓ ((i : Tid) : WithBot Tid)) = w
      have hbound : s.Elig (s.tosToTid (sibling i)) ∧ w = ((sibling i : Tid) : WithBot Tid) ∨
          ¬s.Elig (s.tosToTid (sibling i)) ∧ w = (i : WithBot Tid) := by
        split_ifs at hw with hc
        · exact .inl ⟨(ha.elig_iff hf _).mp hc, hw.symm⟩
        · exact .inr ⟨fun helig => hc ((ha.elig_iff hf _).mpr helig), hw.symm.trans (inf_eq_right.mpr hle)⟩
      have hn' : ({ s with highestQueuedPrio := w } : Bss).node (s.tosToTid i) l.addr = some l := hn
      rcases Bss.sendStart_cases hn' with ⟨hb, -⟩ | ⟨b, rest, hb, ⟨-, heq⟩ | ⟨-, heq⟩⟩
      · exact absurd he (by simp [RaList.eligible_eq_false_of_nil hb])
      · rw [heq]
        exact h.served hhigh (.of_editNode (f := RaList.takeOut) hn rfl rfl) rfl rfl rfl rfl hbound
      · rw [heq]
        exact h.served hhigh (.of_editNode (f := RaList.pop) hn (RaList.addr_pop l) rfl) rfl rfl rfl rfl hbound

/-- A packet comes to a list of TID `t`, and the bound is raised to it. -/
theorem pushTail (he : NodeEdit s s' t l (l.pushTail b)) (htos : s'.tosToTid = s.tosToTid)
    (hinv : s'.tosToTidInv = s.tosToTidInv)
    (hh : s'.highestQueuedPrio = s.highestQueuedPrio ⊔ ((s.tosToTidInv t : Tid) : WithBot Tid))
    (hf : s'.flight = s.flight) : PrioInv s' := by
  refine h.raise htos hinv hh hf (fun u hu => ?_) (fun u => Bss.elig_edit he RaList.eligible_pushTail)
  by_cases hut : u = t
  · exact .inr hut
  · exact .inl ((Bss.elig_edit_of_ne he hut).mp hu)

theorem grow (c : Bss.Alloc) : PrioInv (s.grow cfg c mac) :=
  h.of_elig rfl rfl rfl rfl fun _ => Bss.elig_grow c

theorem enqueueBuf {e : Bss.AddEnv} {r : Option ℕ} : PrioInv (s.enqueueBuf cfg e b t r) := by
  rcases s.enqueueBuf_cases cfg e b t r with heq | ⟨l, -, he, hl, hb⟩
  · rwa [heq]
  · have hframe : (s.enqueueBuf cfg e b t r).tosToTid = s.tosToTid ∧
        (s.enqueueBuf cfg e b t r).tosToTidInv = s.tosToTidInv ∧ (s.enqueueBuf cfg e b t r).flight = s.flight ∧
        (s.enqueueBuf cfg e b t r).highestQueuedPrio = if l.txPause then s.highestQueuedPrio else
          s.highestQueuedPrio ⊔ ((s.tosToTidInv t : Tid) : WithBot Tid) := by
      simp only [Bss.enqueueBuf, hl, hb, Bool.false_eq_true, if_false, and_self]
    obtain ⟨htos, hinv, hf, hh⟩ := hframe
    cases hp : l.txPause with
    | false =>
      rw [hp] at hh
      exact h.pushTail he htos hinv hh hf
    | true =>
      rw [hp] at hh
      refine h.of_elig htos hinv hh hf fun u => Bss.elig_edit_iff he ?_
      simp [RaList.eligible, RaList.pushTail, hp]

theorem restoreBuf {r : Option ℕ} : PrioInv (s.restoreBuf b t r) := by
  rcases s.restoreBuf_cases b t r with heq | ⟨l, hl, -, he⟩
  · rwa [heq]
  · refine h.pushTail he ?_ ?_ ?_ ?_ <;> simp only [Bss.restoreBuf, hl]

theorem restoreLoop {complete : Bool} {bs : List Buf} {cs : List Bss.Alloc}
    (hs : Bss.restoreLoop cfg mac complete bs cs s = some s') : PrioInv s' := by
  refine Bss.restoreLoop_invariant (A := fun _ => True) (I := fun _ s => PrioInv s) ?_ (fun _ _ => trivial) h hs
  intro b bs s u r hi hto
  rcases hto.1 with rfl | ⟨c, -, -, -, -, rfl⟩
  · exact hi.restoreBuf
  · exact (hi.grow c).restoreBuf

theorem aggregate (hs : s.aggregatePkt = some s') : PrioInv s' := by
  obtain ⟨f, hf, -, rfl | ⟨l, hn, -, rfl⟩⟩ := Bss.aggregatePkt_cases hs
  · exact h.landed rfl rfl rfl rfl (fun t ht => .inl ht) fun t ht => ht
  · have he := Bss.popBuf_edit hn
    refine h.of_le rfl rfl rfl (fun t => Or.imp_left (Bss.elig_edit he.symm RaList.eligible_of_pop))
      fun i _ _ _ helig hflight => ⟨?_, hflight⟩
    -- the lower index has no flight, so its row is another
    have hne : s.tosToTid i ≠ f.tid := fun heq => hflight ((Bss.flightAt_of_some hf).mpr heq)
    exact (Bss.elig_edit_of_ne he hne).mpr helig

theorem comeBack {f : Flight} (hfl : s.flight = some f) (he : NodeEdit s s' f.tid x y)
    (hxy : x.eligible = true → y.eligible = true) (htos : s'.tosToTid = s.tosToTid)
    (hinv : s'.tosToTidInv = s.tosToTidInv) (hh : s'.highestQueuedPrio = s.highestQueuedPrio)
    (hf : s'.flight = none) : PrioInv s' := by
  refine h.landed htos hinv hh hf (fun u hu => ?_) fun u => Bss.elig_edit he hxy
  by_cases hut : u = f.tid
  · exact .inr ((Bss.flightAt_of_some hfl).mpr hut)
  · exact .inl ((Bss.elig_edit_of_ne he hut).mp hu)

theorem sendDone {resource : Bool} (hs : s.sendDone resource = some s') : PrioInv s' := by
  obtain ⟨f, hf, hcase⟩ := Bss.sendDone_cases hs
  cases hcase with
  | gone => exact h.landed rfl rfl rfl rfl (fun t ht => .inl ht) fun t ht => ht
  | @putBack l hn =>
    refine h.comeBack hf (.of_editNode (f := RaList.putBack f.buf) hn rfl rfl) (fun hl => ?_) rfl rfl rfl rfl
    simp only [RaList.eligible, Bool.and_eq_true, Bool.not_eq_true'] at hl
    simp [RaList.eligible, RaList.putBack, hl.1]
  | @requeued l hn =>
    refine h.comeBack hf (.of_editNode (f := RaList.pushHead f.buf) hn rfl rfl) (fun hl => ?_) rfl rfl rfl rfl
    simp only [RaList.eligible, Bool.and_eq_true, Bool.not_eq_true'] at hl
    simp [RaList.eligible, RaList.pushHead, hl.1]
  | @counted l hn =>
    refine h.comeBack hf (.of_editNode (f := RaList.countOut) hn (RaList.addr_countOut l) rfl) (fun hl => ?_) rfl rfl rfl
      rfl
    simpa [RaList.eligible] using hl
  | miscounted => exact h.landed rfl rfl rfl rfl (fun t ht => .inl ht) fun t ht => ht
  | sent => exact h.landed rfl rfl rfl rfl (fun t ht => .inl ht) fun t ht => ht

/-- The bound goes to the top, unless no packet was concerned. -/
theorem reset {n : ℕ} (htos : s'.tosToTid = s.tosToTid) (hinv : s'.tosToTidInv = s.tosToTidInv)
    (hh : s'.highestQueuedPrio = if n ≠ 0 then highPrioTid else s.highestQueuedPrio) (hf : s'.flight = s.flight)
    (he : n = 0 → ∀ t, s'.Elig t ↔ s.Elig t) : PrioInv s' := by
  split_ifs at hh with hn
  · exact of_high (h.inverse.congr htos hinv) hh
  · exact h.of_elig htos hinv hh hf (he (not_not.mp hn))

theorem txPause (htotal : TotalExact s) (mac : Mac) (p : Bool) :
    PrioInv (s.updateRalistTxPause mac p) := by
  refine h.reset rfl rfl rfl rfl fun hzero t => EligRow.replaceFirst_iff fun x hx => ?_
  have ht := Finset.sum_eq_zero_iff.mp hzero t (Finset.mem_univ t)
  rw [Bss.getRalistNode, hx, map_some, getD_some] at ht
  exact RaList.eligible_setPause (htotal.bufHead_nil (mem_of_find?_eq_some hx)) ht

theorem nonTdlsPause (htotal : TotalExact s) (mac : Mac) (p : Bool) :
    PrioInv (s.updateNonTdlsRalist mac p) := by
  refine h.reset rfl rfl rfl rfl fun hzero t => EligRow.map_iff fun x hx => ?_
  have ht := Finset.sum_eq_zero_iff.mp hzero t (Finset.mem_univ t)
  have hx0 := sum_eq_zero_iff.mp ht _ (mem_map_of_mem hx)
  split_ifs with hra
  · rw [if_pos hra] at hx0
    exact RaList.eligible_setPause (htotal.bufHead_nil hx) hx0
  · rfl

theorem deletePeer (htotal : TotalExact s) (mac : Mac) : PrioInv (s.deletePeerRalist cfg mac) := by
  refine h.reset rfl rfl rfl rfl fun hzero t => ?_
  have ht := Finset.sum_eq_zero_iff.mp hzero t (Finset.mem_univ t)
  show EligRow ((s.tbl t).eraseP fun l => l.ra = mac) ↔ EligRow (s.tbl t)
  unfold Bss.getRalistNode at ht
  cases hx : (s.tbl t).find? fun l => l.ra = mac with
  | none => rw [eraseP_of_none hx]
  | some x =>
    have hno : x.eligible = false := by
      rw [hx, map_some, getD_some] at ht
      split_ifs at ht with hp
      · simp [RaList.eligible, hp]
      · exact RaList.eligible_eq_false_of_nil (htotal.bufHead_nil (mem_of_find?_eq_some hx) ht)
    rw [EligRow.removes_iff (eraseP_of_find hx)]
    simp [hno]

/-- Lists that lose their pause have no packets. -/
theorem ralistUpdate (htotal : TotalExact s) {old new : Mac}
    (hsep : ∀ t, (s.getRalistNode t old).all (fun l => !l.txPause || l.totalPkts = 0) = true) :
    PrioInv (s.ralistUpdate old new) := by
  refine h.of_elig rfl rfl rfl rfl fun t => EligRow.replaceFirst_iff fun x hx => ?_
  have ht := hsep t
  rw [Bss.getRalistNode, hx] at ht
  simp only [all_some, Bool.or_eq_true, Bool.not_eq_true', decide_eq_true_eq] at ht
  rcases ht with ht | ht
  · simp [RaList.eligible, RaList.rename, ht]
  · have hnil := htotal.bufHead_nil (mem_of_find?_eq_some hx) ht
    rw [RaList.eligible_eq_false_of_nil hnil]
    exact RaList.eligible_eq_false_of_nil hnil

theorem dropTxPkts (hd : Distinct s) (htotal : TotalExact s) (hroom : poolSum queuedSum s.tbl < 2 ^ 16) :
    PrioInv s.dropTxPkts := by
  refine (htotal.drop_invariant hd hroom h (fun {u t u'} _ htu _ hpu hdel => ?_)
    fun _ hi => hi.of_elig rfl rfl rfl rfl fun _ => Iff.rfl).2
  obtain ⟨l, hl, hdrop, he, -⟩ := Bss.delTxPktsInRalist_cases hdel
  obtain ⟨_, -, rfl⟩ := map_eq_some_iff.mp hdel
  exact hpu.of_elig rfl rfl rfl rfl fun v => Bss.elig_edit_iff he (htu.eligible_drop hl hdrop)

/-- The packets of the peer's lists keep to their side. -/
theorem deleteTdls
    (hsides : ∀ t x, (s.tbl t).find? (fun l => l.ra = mac) = some x →
      x.bufHead = [] ∨ ∀ ap, (s.tbl t).head? = some ap → ap.txPause = x.txPause)
    (hs : s.deleteTdlsRalist mac = some s') : PrioInv s' := by
  obtain ⟨hfirst, rfl⟩ := Bss.deleteTdlsRalist_eq hs
  refine h.of_elig rfl rfl rfl rfl fun t => ?_
  show EligRow (Bss.deleteTdlsRow mac (s.tbl t)) ↔ EligRow (s.tbl t)
  rcases Bss.deleteTdlsRow_cases mac (s.tbl t) with
    ⟨heq, -⟩ | ⟨ap, rest, hrow, ⟨hra, heq⟩ | ⟨x, rest', hra, hx, hrem, -, heq⟩⟩
  · rw [heq]
  · rw [heq, hrow, EligRow.cons_iff, RaList.eligible_eq_false_of_nil (hfirst t ap rest hrow hra)]
    simp
  · have hside : x.bufHead = [] ∨ ap.txPause = x.txPause :=
      (hsides t x (by rw [hrow, find?_cons_of_neg (by simpa using hra), hx])).imp_right
        fun hap => hap ap (by rw [hrow, head?_cons])
    rw [heq, hrow, EligRow.cons_iff, EligRow.cons_iff, RaList.eligible_takeOver hside, EligRow.removes_iff hrem,
      Bool.or_eq_true, or_assoc]

end PrioInv

/-! ## Runs -/

namespace Bss

/-- What the operations that do not touch the bound must leave to it : a hold does not take the last packet from the lower
index of a category whose upper one has some, and a new order of priorities names every category. -/
def KeepsBound (s : Bss) : Op → Prop
  | .hold mac => ∀ i : Tid, s.highestQueuedPrio = (i : WithBot Tid) → i.val % 2 = 0 →
      s.Busy (s.tosToTid (sibling i)) → EligRow (holdRow mac (s.tbl (s.tosToTid i)))
  | .priorities (some ie) => NamesAll ie
  | _ => True

instance (s : Bss) (op : Op) : Decidable (s.KeepsBound op) := by
  induction op using Op.casesOn with
  | priorities ie => induction ie using Option.casesOn <;> dsimp only [Bss.KeepsBound] <;> infer_instance
  | _ => dsimp only [Bss.KeepsBound]; infer_instance

/-- The counters stay right, no list is freed under a cursor, and the bound stays one. -/
def KeepsPriority (cfg : Config) (s : Bss) (op : Op) : Prop :=
  s.KeepsAccounts cfg op ∧ s.CurrSafe op ∧ s.KeepsBound op
  deriving Decidable

theorem eligRow_of_holdRow {row : List RaList} (h : EligRow (holdRow mac row)) : EligRow row := by
  cases row with
  | nil => exact h
  | cons l rest =>
    rw [holdRow, EligRow.cons_iff] at h
    rw [EligRow.cons_iff]
    refine h.imp_left fun hl => ?_
    simp only [RaList.eligible, RaList.bufHead_holdTdls, RaList.txPause_holdTdls, Bool.and_eq_true, Bool.not_eq_true',
      isEmpty_eq_false_iff] at hl ⊢
    refine ⟨hl.1, fun hnil => hl.2 ?_⟩
    rw [hnil, filter_nil]

end Bss

/-- Every operation that meets `KeepsPriority` keeps the bound. -/
theorem PrioInv.step (h : PrioInv s) (ha : AccountInv s) (hcfg : cfg.mclient = false) {op : Op}
    (hc : s.KeepsPriority cfg op) (hs : s.step cfg op = some s') : PrioInv s' := by
  obtain ⟨⟨hroom, hsafe, hsep⟩, -, hkeep⟩ := hc
  have hpool := s.pool_le_load
  cases op with
  | add b e =>
    rcases Bss.addBufTxqueue_cases hs with rfl | ⟨u, t, r, -, hu, rfl⟩
    · exact h.of_elig rfl rfl rfl rfl fun _ => Iff.rfl
    · rcases hu with rfl | ⟨-, ra, rfl⟩
      · exact h.enqueueBuf
      · exact (h.grow e.alloc).enqueueBuf
  | ralistAdd ra c =>
    obtain ⟨-, rfl⟩ := Bss.ralistAdd_eq hs
    exact h.grow c
  | dequeue d => exact h.dequeue ha hcfg hs
  | aggregate => exact h.aggregate hs
  | done resource => exact h.sendDone hs
  | txPause mac p =>
    obtain rfl := some.inj hs
    exact h.txPause ha.total mac p
  | nonTdlsPause mac p =>
    obtain rfl := some.inj hs
    exact h.nonTdlsPause ha.total mac p
  | ralistUpdate old new =>
    obtain rfl := some.inj hs
    exact h.ralistUpdate ha.total hsep
  | drop =>
    obtain rfl := some.inj hs
    exact h.dropTxPkts ha.distinct ha.total (by omega)
  | deletePeer mac =>
    obtain rfl := some.inj hs
    exact h.deletePeer ha.total mac
  | hold mac =>
    obtain rfl := some.inj hs
    refine h.of_le rfl rfl rfl (fun t => Or.imp_left Bss.eligRow_of_holdRow) fun i hi heven hbusy _ hflight => ?_
    exact ⟨hkeep i hi heven hbusy, hflight⟩
  | restore mac complete cs =>
    obtain ⟨u, hu, hend⟩ := Bss.restoreTdlsPackets_cases hs
    have hpu : PrioInv u := by
      refine restoreLoop ?_ hu
      exact h.of_elig rfl rfl rfl rfl fun _ => Iff.rfl
    rcases hend with ⟨-, rfl⟩ | ⟨rfl, hdel⟩
    · exact hpu
    · refine hpu.deleteTdls (fun t x hx => ?_) hdel
      have htu := ha.total.restored ha.distinct hroom hsafe hu
      obtain ⟨hpush, hflight, -⟩ := Bss.firstPushed_restoreLoop hu
      exact (Counted.sides_of_firstPushed htu.1 hpush hflight (hsep.2.2 rfl) t x hx).2
  | priorities ie =>
    obtain rfl := some.inj hs
    cases ie with
    | none => exact h.of_elig rfl rfl rfl rfl fun _ => Iff.rfl
    | some ie =>
      obtain ⟨hinv, hh⟩ := Bss.inverse_setupQueuePriorities hkeep s
      exact of_high hinv hh
  | downgrade vals =>
    obtain rfl := some.inj hs
    exact h.of_elig rfl rfl rfl rfl fun _ => Iff.rfl

/-- What carries the priorities through a run. -/
structure StrictInv (s : Bss) : Prop where
  account : AccountInv s
  curr : CurrValid s
  prio : PrioInv s

theorem strictInv_empty : StrictInv emptyBss :=
  ⟨accountInv_empty, ⟨fun _ _ => rfl, fun _ _ h => absurd h (by simp [emptyBss])⟩, .of_high Bss.inverse_empty rfl⟩

theorem StrictInv.step (h : StrictInv s) (hcfg : cfg.mclient = false) {op : Op} (hc : s.KeepsPriority cfg op)
    (hs : s.step cfg op = some s') : StrictInv s' :=
  ⟨h.account.step hc.1 hs, h.curr.step h.account.distinct hc.2.1 hs, h.prio.step h.account hcfg hc hs⟩

/-- The list that the scheduler gives is in the highest category with one that may be served, and it gives none if
there is none. -/
def Bss.Serves (s : Bss) : Option (Tid × ℕ) → Prop
  | none => ∀ t, ∀ l ∈ s.tbl t, l.eligible = false
  | some (t, a) => ∃ i, s.tosToTid i = t ∧ (∃ l ∈ s.tbl t, l.addr = a ∧ l.eligible = true) ∧
      ∀ j, ∀ l ∈ s.tbl (s.tosToTid j), l.eligible = true → j.val / 2 ≤ i.val / 2

/-- Strict priority of the access categories. -/
structure StrictPriority (s : Bss) : Prop where
  permutes : Function.Bijective s.tosToTid
  bound : ∀ i, ∀ l ∈ s.tbl (s.tosToTid i), l.eligible = true →
    ∃ j : Tid, s.highestQueuedPrio = (j : WithBot Tid) ∧ i.val ≤ j.val ||| 1
  serves : ∃ r, s.getHighestPriolistPtr = some r ∧ s.Serves r.2

theorem StrictInv.serves (h : StrictInv s) : ∃ r, s.getHighestPriolistPtr = some r ∧ s.Serves r.2 := by
  obtain ⟨r, hr⟩ := Bss.exists_scanPrio h.curr (Bss.prios s.highestQueuedPrio)
  have hhigh := h.prio.highest hr
  unfold Bss.getHighestPriolistPtr
  rw [hr]
  refine ⟨_, rfl, ?_⟩
  cases r with
  | none =>
    intro t l hl
    by_contra he
    refine hhigh (s.tosToTidInv t) ⟨l, ?_, by simpa using he⟩
    rwa [h.prio.inverse.right]
  | some r =>
    obtain ⟨hl, he, -, hmax⟩ := hhigh
    exact ⟨r.1, rfl, ⟨r.2, hl, rfl, he⟩, fun j l' hl' he' => hmax j ⟨l', hl', he'⟩⟩

/-- **Strict priority.** With one client, in every run whose operations meet `KeepsPriority`, the scheduler finds a list of
the highest category that has a packet, and `highest_queued_prio | 1` bounds the priorities of such lists. -/
theorem strict_priority (hcfg : cfg.mclient = false)
    (h : (wmmSystem cfg).ReachableWhen (Bss.KeepsPriority cfg) s) : StrictPriority s := by
  have hi : StrictInv s := h.invariant (fun s hs => hs ▸ strictInv_empty) fun _ _ _ hi hc hs => hi.step hcfg hc hs
  refine ⟨⟨hi.prio.inverse.injective, fun t => ⟨_, hi.prio.inverse.right t⟩⟩, fun i l hl he => ?_, hi.serves⟩
  obtain ⟨j, hj, hle⟩ := hi.prio.bound i (.inl ⟨l, hl, he⟩)
  exact ⟨j, hj, (le_lor_one_iff i j).mpr hle⟩

/-- A packet to the AP in TID 6. -/
def voice : Buf := ⟨apAddr, none, 6, false⟩

/-- A new AP of the network. -/
def roamAddr : Mac := ⟨0x00, 0x11, 0x22, 0x33, 0x44, 0x66⟩

/-- One packet has brought the bound down, and a voice packet brings it up again. -/
theorem strict_priority_voice : ∃ s, (wmmSystem staConfig).ReachableWhen (Bss.KeepsPriority staConfig) s ∧
    s.Elig 0 ∧ s.Elig 6 ∧ s.highestQueuedPrio = ((6 : Tid) : WithBot Tid) ∧ StrictPriority s := by
  obtain ⟨s, hs, hrun⟩ := System.exists_reachableWhen_of_runWhen (M := wmmSystem staConfig)
    (C := Bss.KeepsPriority staConfig)
    (P := fun s => decide (EligRow (s.tbl 0)) && decide (EligRow (s.tbl 6)) &&
      decide (s.highestQueuedPrio = ((6 : Tid) : WithBot Tid)))
    (l := associated ++ [Op.dequeue .highest, .done false, .add (bestEffort apAddr) toAp, .add voice toAp, .hold roamAddr])
    (s := emptyBss) (.init rfl) (by decide +kernel)
  simp only [Bool.and_eq_true, decide_eq_true_eq] at hrun
  exact ⟨s, hs, hrun.1.1, hrun.1.2, hrun.2, strict_priority rfl hs⟩

/-- A packet comes to the paused AP, the scheduler finds nothing and puts the bound down, and the station roams :
`wlan_ralist_update` ends the pause and leaves the bound, so that the scheduler does not see the packet. -/
theorem roamed_packet_unseen : ¬∀ s, (wmmSystem staConfig).Reachable s → StrictPriority s := by
  intro h
  obtain ⟨s, hs, hrun⟩ := System.exists_reachable_of_run (M := wmmSystem staConfig)
    (P := fun s => decide (EligRow (s.tbl 0)) && s.getHighestPriolistPtr.all fun r => r.2.isNone)
    (l := [.downgrade id, .ralistAdd apAddr someNodes, .txPause apAddr true, .add (bestEffort apAddr) toAp,
      .dequeue .highest, .ralistUpdate apAddr roamAddr])
    (s := emptyBss) rfl (by decide +kernel)
  simp only [Bool.and_eq_true, decide_eq_true_eq] at hrun
  obtain ⟨⟨l, hl, he⟩, hnone⟩ := hrun
  obtain ⟨r, hr, hserves⟩ := (h s hs).serves
  rw [hr, all_some, isNone_iff_eq_none] at hnone
  rw [hnone] at hserves
  exact absurd he (by simp [hserves 0 l hl])

end WlanDriver.Wmm
