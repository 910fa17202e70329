import WlanDriver.Wmm.Isolation

/-!
# Setting up the queue priorities

`wlan_wmm_setup_queue_priorities` on the octets of `queue_priority`. A record of the WMM parameter element writes the slot
of its own category and no other, so a category without a record keeps what its slot held before : after the defaults
that is another category. `PriorityState.InOrder` is what the parameters ask for, of the array and of the two tables that are made
from it.

`inOrder_setup_iff` : it is so exactly if the slots of the categories without a record held these categories before, in
some order. Without WMM the defaults are put in place and the tables stay.
-/

namespace WlanDriver.Wmm

/-- A category as it is stored. -/
def acOctet (a : Ac) : UInt8 :=
  UInt8.ofNat a.val

theorem toNat_acOctet (a : Ac) : (acOctet a).toNat = a.val := by
  revert a
  decide

theorem acOctet_lt_iff {a b : Ac} : acOctet a < acOctet b ↔ a < b := by
  rw [UInt8.lt_iff_toNat_lt, toNat_acOctet, toNat_acOctet, Fin.lt_def]

theorem acOctet_injective : Function.Injective acOctet := by
  intro a b h
  have hval := congrArg UInt8.toNat h
  rw [toNat_acOctet, toNat_acOctet] at hval
  exact Fin.ext hval

/-- The priorities of an interface, and the file-scope tables. -/
structure PriorityState where
  wmmEnabled : Bool
  queuePriority : Fin 4 → UInt8
  tosToTid : Tid → Tid
  tosToTidInv : Tid → Tid
  highestQueuedPrio : WithBot Tid

namespace PriorityState

/-- `wlan_wmm_queue_priorities_tid`, `none` if it reads behind the four rows of `ac_to_tid`. -/
def queuePrioritiesTid (s : PriorityState) (qp : Fin 4 → UInt8) : Option PriorityState :=
  if h : ∀ i, (qp i).toNat < 4 then
    let tos : Tid → Tid := fun k => acToTid ⟨(qp ⟨(7 - k.val) / 2, sub_half_lt k⟩).toNat, h _⟩ (k.val % 2 = 1)
    some { s with
      tosToTid := tos
      tosToTidInv := (List.finRange 8).foldl (fun inv i => Function.update inv (tos i) i) s.tosToTidInv
      highestQueuedPrio := highPrioTid }
  else none

/-- One comparison of the bubble sort, of `j - 1` and `j`. -/
def bubble (a : (Fin 4 → ℕ) × (Fin 4 → UInt8)) (j : Fin 4) : (Fin 4 → ℕ) × (Fin 4 → UInt8) :=
  if a.1 j < a.1 (j - 1) then (a.1 ∘ Equiv.swap (j - 1) j, a.2 ∘ Equiv.swap (j - 1) j)
  else if a.1 (j - 1) = a.1 j ∧ a.2 (j - 1) < a.2 j then (a.1, a.2 ∘ Equiv.swap (j - 1) j)
  else a

/-- `wlan_wmm_default_queue_priorities`. -/
def defaultQueuePriorities (s : PriorityState) : PriorityState :=
  { s with queuePriority := acOctet ∘ Fin.rev }

/-- `queue_priority` after the loop over the records. -/
def recorded (ie : Fin 4 → AcParam) (qp : Fin 4 → UInt8) : Fin 4 → UInt8 :=
  (List.finRange 4).foldl
    (fun qp n => Function.update qp (aciToQidx (ie n).aci) (acOctet (aciToQidx (ie n).aci))) qp

/-- `wlan_wmm_setup_queue_priorities`. The back-offs are at most 16398, which a `t_u16` holds. -/
def setupQueuePriorities (s : PriorityState) : Option (Fin 4 → AcParam) → Option PriorityState
  | none => some s.defaultQueuePriorities
  | some ie =>
    if s.wmmEnabled then
      let tmp := (List.finRange 4).foldl (fun tmp n => Function.update tmp (aciToQidx (ie n).aci) (ie n).avgBackOff)
        fun _ => 0
      -- the pairs `i`, `j` of the two loops, in order
      let sorted := ([1, 2, 3, 1, 2, 1] : List (Fin 4)).foldl bubble (tmp, recorded ie s.queuePriority)
      { s with queuePriority := sorted.2 }.queuePrioritiesTid sorted.2
    else some s.defaultQueuePriorities

/-- The array holds the four categories. -/
def IsPermutation (qp : Fin 4 → UInt8) : Prop :=
  ∀ a : Ac, ∃ i, qp i = acOctet a

/-- The order that the parameters ask for is in force. -/
structure InOrder (ie : Fin 4 → AcParam) (s : PriorityState) : Prop where
  permutation : IsPermutation s.queuePriority
  sorted : ∀ i j, i < j → ∀ a b : Ac, s.queuePriority i = acOctet a → s.queuePriority j = acOctet b →
    Before (some ie) a b
  tosToTid : Function.Bijective s.tosToTid
  tosToTidInv : Function.Bijective s.tosToTidInv
  left : Function.LeftInverse s.tosToTidInv s.tosToTid
  right : Function.RightInverse s.tosToTidInv s.tosToTid

/-- Some record is for the category. -/
def Named (ie : Fin 4 → AcParam) (a : Ac) : Prop :=
  ∃ n, aciToQidx (ie n).aci = a
  deriving Decidable

/-- The slots of the categories without a record hold these categories, in some order. -/
def RestInPlace (ie : Fin 4 → AcParam) (qp : Fin 4 → UInt8) : Prop :=
  ∀ a, ¬Named ie a → ∃ b, ¬Named ie b ∧ qp b = acOctet a
  deriving Decidable

/-- The defaults are the order that the parameters ask for, and the tables are inverse already. -/
def DefaultsInOrder (ie : Fin 4 → AcParam) (s : PriorityState) : Prop :=
  (∀ a b : Ac, b < a → Before (some ie) a b) ∧ Function.LeftInverse s.tosToTidInv s.tosToTid

/-! ## The array before the sort -/

section Recorded

variable {ie : Fin 4 → AcParam} {qp : Fin 4 → UInt8} {a : Ac}

theorem recorded_of_named (h : Named ie a) : recorded ie qp a = acOctet a := by
  obtain ⟨n, hn⟩ := h
  have hall : ∀ (l : List (Fin 4)) (m : Fin 4 → UInt8), (m a = acOctet a ∨ n ∈ l) →
      (l.foldl (fun qp n => Function.update qp (aciToQidx (ie n).aci) (acOctet (aciToQidx (ie n).aci))) m) a =
        acOctet a := by
    intro l
    induction l with
    | nil => exact fun m hm => hm.resolve_right (by simp)
    | cons k l ih =>
      intro m hm
      refine ih _ ?_
      dsimp only
      by_cases hk : aciToQidx (ie k).aci = a
      · exact .inl (by rw [hk, Function.update_self])
      · rw [Function.update_of_ne (Ne.symm hk)]
        refine hm.imp_right fun hmem => (List.mem_cons.mp hmem).resolve_left ?_
        rintro rfl
        exact hk hn
  exact hall _ qp (.inr (List.mem_finRange n))

theorem recorded_of_not_named (h : ¬Named ie a) : recorded ie qp a = qp a :=
  foldl_update_of_ne (f := fun n => aciToQidx (ie n).aci) (fun n _ hn => h ⟨n, hn⟩) qp

theorem backOff_of_not_named (h : ¬Named ie a) : backOff ie a = 0 :=
  foldl_update_of_ne (f := fun n => aciToQidx (ie n).aci) (fun n _ hn => h ⟨n, hn⟩) _

theorem isPermutation_recorded_iff : IsPermutation (recorded ie qp) ↔ RestInPlace ie qp := by
  constructor
  · intro h a ha
    obtain ⟨i, hi⟩ := h a
    have hrest : ¬Named ie i := by
      intro hn
      rw [recorded_of_named hn] at hi
      exact ha (acOctet_injective hi ▸ hn)
    exact ⟨i, hrest, by rwa [recorded_of_not_named hrest] at hi⟩
  · intro h a
    by_cases ha : Named ie a
    · exact ⟨a, recorded_of_named ha⟩
    · obtain ⟨b, hb, hq⟩ := h a ha
      exact ⟨b, by rw [recorded_of_not_named hb, hq]⟩

/-- A permutation is one of the categories themselves. -/
theorem IsPermutation.exists_eq (h : IsPermutation qp) :
    ∃ q : Fin 4 → Ac, Function.Injective q ∧ qp = acOctet ∘ q := by
  choose g hg using h
  have hinj : Function.Injective g := fun a b hab => acOctet_injective (by rw [← hg a, ← hg b, hab])
  have hbij : Function.Bijective g := Finite.injective_iff_bijective.mp hinj
  refine ⟨(Equiv.ofBijective g hbij).symm, Equiv.injective _, ?_⟩
  funext i
  obtain ⟨a, rfl⟩ := hbij.surjective i
  rw [hg, Function.comp_apply, Equiv.ofBijective_symm_apply_apply]

theorem isPermutation_comp {q : Fin 4 → Ac} (h : Function.Injective q) : IsPermutation (acOctet ∘ q) := by
  intro a
  obtain ⟨i, rfl⟩ := (Finite.injective_iff_surjective.mp h) a
  exact ⟨i, rfl⟩

/-- The back-offs lie with the categories : those without a record are all 0. -/
theorem backOff_recorded {q : Fin 4 → Ac} (hq : Function.Injective q) (h : recorded ie qp = acOctet ∘ q) :
    backOff ie = backOff ie ∘ q := by
  funext i
  have hi : recorded ie qp i = acOctet (q i) := congrFun h i
  by_cases hn : Named ie i
  · rw [recorded_of_named hn] at hi
    rw [Function.comp_apply, ← acOctet_injective hi]
  · have hrest : ¬Named ie (q i) := by
      intro hn'
      have hself : acOctet (q i) = acOctet (q (q i)) := (recorded_of_named hn').symm.trans (congrFun h (q i))
      exact hn (hq (acOctet_injective hself) ▸ hn')
    rw [Function.comp_apply, backOff_of_not_named hn, backOff_of_not_named hrest]

end Recorded

/-! ## The sort -/

/-- The octets are compared as the categories are. -/
theorem bubble_acOctet (tmp : Fin 4 → ℕ) (q : Fin 4 → Ac) (j : Fin 4) :
    bubble (tmp, acOctet ∘ q) j = ((Bss.bubble (tmp, q) j).1, acOctet ∘ (Bss.bubble (tmp, q) j).2) := by
  unfold bubble Bss.bubble
  simp only [Function.comp_apply, acOctet_lt_iff]
  split_ifs <;> rfl

theorem foldl_bubble_acOctet (l : List (Fin 4)) (tmp : Fin 4 → ℕ) (q : Fin 4 → Ac) :
    (l.foldl bubble (tmp, acOctet ∘ q)).2 = acOctet ∘ (l.foldl Bss.bubble (tmp, q)).2 := by
  induction l generalizing tmp q with
  | nil => rfl
  | cons j l ih =>
    rw [List.foldl_cons, List.foldl_cons, bubble_acOctet]
    exact ih _ _

/-- The sort changes places only. -/
theorem foldl_bubble_eq_comp (l : List (Fin 4)) (a : (Fin 4 → ℕ) × (Fin 4 → UInt8)) :
    ∃ σ : Equiv.Perm (Fin 4), (l.foldl bubble a).2 = a.2 ∘ σ := by
  induction l generalizing a with
  | nil => exact ⟨Equiv.refl _, rfl⟩
  | cons j l ih =>
    obtain ⟨σ, hσ⟩ := ih (bubble a j)
    have hone : ∃ τ : Equiv.Perm (Fin 4), (bubble a j).2 = a.2 ∘ τ := by
      unfold bubble
      split_ifs
      · exact ⟨_, rfl⟩
      · exact ⟨_, rfl⟩
      · exact ⟨Equiv.refl _, rfl⟩
    obtain ⟨τ, hτ⟩ := hone
    exact ⟨σ.trans τ, by rw [List.foldl_cons, hσ, hτ]; rfl⟩

theorem isPermutation_foldl_bubble {l : List (Fin 4)} {a : (Fin 4 → ℕ) × (Fin 4 → UInt8)} :
    IsPermutation (l.foldl bubble a).2 ↔ IsPermutation a.2 := by
  obtain ⟨σ, hσ⟩ := foldl_bubble_eq_comp l a
  rw [hσ]
  constructor
  · intro h q
    obtain ⟨i, hi⟩ := h q
    exact ⟨σ i, hi⟩
  · intro h q
    obtain ⟨i, hi⟩ := h q
    exact ⟨σ.symm i, by rw [Function.comp_apply, Equiv.apply_symm_apply, hi]⟩

theorem foldl_exchange_comp (r : Ac → Fin 4) (q : Fin 4 → Ac) (l : List (Fin 4)) (σ : Fin 4 → Fin 4) :
    l.foldl (exchange r) (q ∘ σ) = q ∘ l.foldl (exchange (r ∘ q)) σ := by
  induction l generalizing σ with
  | nil => rfl
  | cons j l ih =>
    have hone : exchange r (q ∘ σ) j = q ∘ exchange (r ∘ q) σ j := by
      unfold exchange
      simp only [Function.comp_apply]
      split_ifs <;> rfl
    rw [List.foldl_cons, List.foldl_cons, hone, ih]

/-- Four different categories are put into the order of their back-offs. -/
theorem strictMono_sorted (ie : Fin 4 → AcParam) {q : Fin 4 → Ac} (hq : Function.Injective q) {tmp : Fin 4 → ℕ}
    (htmp : tmp = backOff ie ∘ q) :
    StrictMono (rank (some ie) ∘ (([1, 2, 3, 1, 2, 1] : List (Fin 4)).foldl Bss.bubble (tmp, q)).2) := by
  have hnetwork := strictMono_network (rank (some ie) ∘ q) ((rank_injective _).comp hq)
  rw [foldl_bubble_snd ie _ q htmp, exchange_key]
  have hcomp := foldl_exchange_comp (rank (some ie)) q [1, 2, 3, 1, 2, 1] id
  rw [Function.comp_id] at hcomp
  rw [hcomp]
  exact hnetwork

/-! ## The tables -/

section Tables

variable {s s' : PriorityState} {ie : Fin 4 → AcParam} {qp : Fin 4 → UInt8}

/-- The tables that are made from a permutation. -/
theorem inverse_of_queuePrioritiesTid {q : Fin 4 → Ac} (hq : Function.Injective q)
    (h : s.queuePrioritiesTid (acOctet ∘ q) = some s') :
    s'.queuePriority = s.queuePriority ∧ Function.LeftInverse s'.tosToTidInv s'.tosToTid ∧
      Function.RightInverse s'.tosToTidInv s'.tosToTid := by
  unfold queuePrioritiesTid at h
  split_ifs at h with hrange
  obtain rfl := Option.some.inj h
  have hrow : ∀ (i : Fin 4) (hi : ((acOctet ∘ q) i).toNat < 4), (⟨((acOctet ∘ q) i).toNat, hi⟩ : Ac) = q i :=
    fun i hi => Fin.ext (toNat_acOctet (q i))
  have hinv := Bss.inverse_queuePrioritiesTid hq { emptyBss with tosToTidInv := s.tosToTidInv }
  refine ⟨rfl, ?_⟩
  simp only [hrow]
  exact ⟨hinv.left, hinv.right⟩

theorem exists_queuePrioritiesTid (s : PriorityState) (q : Fin 4 → Ac) :
    ∃ s', s.queuePrioritiesTid (acOctet ∘ q) = some s' := by
  unfold queuePrioritiesTid
  rw [dif_pos fun i => by rw [Function.comp_apply, toNat_acOctet]; exact (q i).isLt]
  exact ⟨_, rfl⟩

theorem queuePriority_of_queuePrioritiesTid (h : s.queuePrioritiesTid qp = some s') :
    s'.queuePriority = s.queuePriority := by
  unfold queuePrioritiesTid at h
  split_ifs at h
  obtain rfl := Option.some.inj h
  rfl

end Tables

/-! ## The set-up -/

variable {ie : Fin 4 → AcParam}

theorem inOrder_defaults_iff (ie : Fin 4 → AcParam) (s : PriorityState) :
    InOrder ie s.defaultQueuePriorities ↔ DefaultsInOrder ie s := by
  constructor
  · intro h
    refine ⟨fun a b hab => ?_, h.left⟩
    refine h.sorted (Fin.rev a) (Fin.rev b) (Fin.rev_lt_rev.mpr hab) a b ?_ ?_
    · exact congrArg acOctet (Fin.rev_rev a)
    · exact congrArg acOctet (Fin.rev_rev b)
  · rintro ⟨horder, hleft⟩
    have htos : Function.Bijective s.tosToTid := Finite.injective_iff_bijective.mp hleft.injective
    have hright : Function.RightInverse s.tosToTidInv s.tosToTid := hleft.rightInverse_of_surjective htos.surjective
    refine ⟨isPermutation_comp Fin.rev_injective, fun i j hij a b ha hb => ?_, htos,
      ⟨hright.injective, hleft.surjective⟩, hleft, hright⟩
    have ha' : Fin.rev i = a := acOctet_injective ha
    have hb' : Fin.rev j = b := acOctet_injective hb
    rw [← ha', ← hb']
    exact horder _ _ (Fin.rev_lt_rev.mpr hij)

/-- `wlan_wmm_setup_queue_priorities` puts the order of the element in force exactly if the categories that no record is for
had the slots of such categories before; without WMM, if the defaults are that order. -/
theorem inOrder_setup_iff (s : PriorityState) (ie : Fin 4 → AcParam) :
    (∃ s', s.setupQueuePriorities (some ie) = some s' ∧ InOrder ie s') ↔
      if s.wmmEnabled then RestInPlace ie s.queuePriority else DefaultsInOrder ie s := by
  cases hwmm : s.wmmEnabled with
  | false =>
    have heq : s.setupQueuePriorities (some ie) = some s.defaultQueuePriorities := by
      simp only [setupQueuePriorities, hwmm, Bool.false_eq_true, if_false]
    rw [heq, if_neg Bool.false_ne_true, ← inOrder_defaults_iff]
    exact ⟨fun ⟨s', hs, h⟩ => Option.some.inj hs ▸ h, fun h => ⟨_, rfl, h⟩⟩
  | true =>
    have heq : s.setupQueuePriorities (some ie) =
        { s with queuePriority := (([1, 2, 3, 1, 2, 1] : List (Fin 4)).foldl bubble
          (backOff ie, recorded ie s.queuePriority)).2 }.queuePrioritiesTid
            (([1, 2, 3, 1, 2, 1] : List (Fin 4)).foldl bubble (backOff ie, recorded ie s.queuePriority)).2 := by
      simp only [setupQueuePriorities, hwmm, if_true, backOff]
    rw [heq, if_pos rfl, ← isPermutation_recorded_iff]
    constructor
    · rintro ⟨s', hs, h⟩
      have hperm := h.permutation
      rw [queuePriority_of_queuePrioritiesTid hs] at hperm
      exact isPermutation_foldl_bubble.mp hperm
    · intro hperm
      obtain ⟨q, hq, hrec⟩ := hperm.exists_eq
      have hback := backOff_recorded hq hrec
      have hmono := strictMono_sorted ie hq hback
      rw [hrec, foldl_bubble_acOctet]
      have hinj : Function.Injective
          (([1, 2, 3, 1, 2, 1] : List (Fin 4)).foldl Bss.bubble (backOff ie, q)).2 :=
        Bss.foldl_bubble_injective _ hq
      generalize (([1, 2, 3, 1, 2, 1] : List (Fin 4)).foldl Bss.bubble (backOff ie, q)).2 = sorted at hmono hinj
      obtain ⟨s', hs⟩ := exists_queuePrioritiesTid { s with queuePriority := acOctet ∘ sorted } sorted
      obtain ⟨hqueue, hleft, hright⟩ := inverse_of_queuePrioritiesTid hinj hs
      refine ⟨s', hs, ⟨?_, fun i j hij a b ha hb => ?_, ⟨hleft.injective, hright.surjective⟩,
        ⟨hright.injective, hleft.surjective⟩, hleft, hright⟩⟩
      · rw [hqueue]
        exact isPermutation_comp hinj
      · rw [hqueue] at ha hb
        have ha' : sorted i = a := acOctet_injective ha
        have hb' : sorted j = b := acOctet_injective hb
        rw [← ha', ← hb', before_iff_rank]
        exact hmono hij

/-- Four records of best effort, after the defaults. -/
def fourBestEffort : Fin 4 → AcParam :=
  fun _ => ⟨0, 4, 3⟩

/-- The state after the defaults. -/
def afterDefaults : PriorityState where
  wmmEnabled := true
  queuePriority := acOctet ∘ Fin.rev
  tosToTid := emptyBss.tosToTid
  tosToTidInv := emptyBss.tosToTidInv
  highestQueuedPrio := ⊥

/-- Records of best effort alone leave the video queue without a place. -/
theorem video_lost : (∃ s', afterDefaults.setupQueuePriorities (some fourBestEffort) = some s' ∧
      ∀ i, s'.queuePriority i ≠ acOctet 2) ∧
    ¬∃ s', afterDefaults.setupQueuePriorities (some fourBestEffort) = some s' ∧ InOrder fourBestEffort s' := by
  have hrun : ∃ s', afterDefaults.setupQueuePriorities (some fourBestEffort) = some s' ∧
      ∀ i, s'.queuePriority i ≠ acOctet 2 :=
    ⟨_, rfl, by decide +kernel⟩
  refine ⟨hrun, ?_⟩
  obtain ⟨s', hs, hno⟩ := hrun
  rintro ⟨s'', hs', h⟩
  obtain rfl := Option.some.inj (hs.symm.trans hs')
  obtain ⟨i, hi⟩ := h.permutation 2
  exact hno i hi

end PriorityState

end WlanDriver.Wmm
