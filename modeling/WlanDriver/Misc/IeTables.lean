import WlanDriver.Lib.System
import WlanDriver.Misc.IeRequests

/-!
# The tables of custom IEs

Requests for custom IEs come on any interface, in any order. `requests_exact` : where all requests are clean, no entry is
longer than its buffer, no index is used on two interfaces, and each request does what its entries do one after another and
sends the entries that have changed, or changes nothing. A request is clean if its list can be processed in place
(`IeEntry.CleanList`) and its command can be queued. `list_inexact` has two lists that cannot be processed in place.
-/

set_option linter.unusedSectionVars false

namespace WlanDriver.Misc

/-- The tables of the interfaces, and the commands that were queued. -/
structure MgmtIe (ι : Type*) where
  mgmtIe : ι → ℕ → CustomIe
  cmds : List (ι × List UInt8)
  broken : Bool

/-- A request on an interface; `prepared` is whether `wlan_prepare_cmd` can queue the command. -/
structure Request (ι : Type*) where
  bss : ι
  entries : List IeEntry
  tail : List UInt8
  prepared : Bool

namespace MgmtIe

variable {ι : Type*} [Fintype ι] [DecidableEq ι] (max : ℕ) (s : MgmtIe ι)

/-- `wlan_is_custom_ie_index_unused`. -/
def isUnused (i : ι) (idx : ℕ) : Bool :=
  ∀ j, j ≠ i → ¬((s.mgmtIe j idx).mgmtSubtypeMask ≠ 0 ∧ (s.mgmtIe j idx).ieLength ≠ 0)

/-- One request. -/
def step (r : Request ι) : Option (MgmtIe ι) :=
  if s.broken then none
  else
    match customIeList max (s.isUnused r.bss) (s.mgmtIe r.bss) r.entries r.tail with
    | .broken => some { s with broken := true }
    | .exit w _ => some { s with mgmtIe := Function.update s.mgmtIe r.bss w.mgmtIe }
    | .command w => some { s with
        mgmtIe := Function.update s.mgmtIe r.bss w.mgmtIe
        cmds := if r.prepared then s.cmds ++ [(r.bss, (w.passed ++ w.buf).take w.custLen)] else s.cmds }

/-- No entry is in use. -/
def Init : Prop :=
  (∀ i idx, (s.mgmtIe i idx).ieLength = 0) ∧ s.cmds = [] ∧ s.broken = false

/-- The runs of requests; the firmware has `max` indexes. -/
def requestSystem : System (MgmtIe ι) (Request ι) where
  init := Init
  step := step max

end MgmtIe

namespace IeEntry

variable {max : ℕ} {free : ℕ → Bool} {v : View} {t : List ℕ} {e : IeEntry} {es : List IeEntry} {i : ℕ}

instance : Decidable (e.Fine max free v) := by
  unfold Fine
  infer_instance

instance : Decidable (e.Exits max free v) := by
  unfold Exits
  infer_instance

instance : Decidable (e.Plain max free v) := by
  unfold Plain
  infer_instance

instance CleanList.decidable (max : ℕ) (free : ℕ → Bool) :
    (es : List IeEntry) → (v : View) → (t : List ℕ) → Decidable (CleanList max free v t es)
  | [], _, _ => .isTrue trivial
  | [e], v, t => by
    unfold CleanList
    infer_instance
  | e :: e' :: es, v, t =>
    have := CleanList.decidable max free (e' :: es) (e.apply max free v) (t ++ e.touched max free v)
    inferInstanceAs (Decidable (e.Fine max free v ∧ e.Plain max free v ∧ (∀ i ∈ e.touched max free v, i ∉ t) ∧ _))

/-- A list of one entry needs only what the entry needs. -/
theorem cleanList_singleton (h : e.Fine max free v) : CleanList max free v [] [e] :=
  ⟨h, fun _ _ => List.not_mem_nil, fun _ => rfl⟩

theorem CleanList.fine (h : CleanList max free v t (e :: es)) : e.Fine max free v := by
  cases es with
  | nil => exact h.1
  | cons _ _ => exact h.1

theorem CleanList.tail (h : CleanList max free v t (e :: es)) :
    CleanList max free (e.apply max free v) (t ++ e.touched max free v) es := by
  cases es with
  | nil => trivial
  | cons _ _ => exact h.2.2.2

/-- An entry puts octets only where there are some, or where no other interface has any. -/
theorem Fine.fills (h : e.Fine max free v) (hne : (e.apply max free v i).2 ≠ []) : (v i).2 ≠ [] ∨ free i = true := by
  have hwithout : (e.without v i).2 ≠ [] → (v i).2 ≠ [] := fun hw hnil => hw (by
    have hle := length_exciseTimes_le (w := e.del) ((v i).2.length + 1) (v i).2
    rw [hnil, List.length_nil] at hle
    rw [without, hnil]
    exact List.length_eq_zero_iff.mp (Nat.le_zero.mp hle))
  unfold Fine at h
  by_cases hauto : e.index = 0xffff
  · rw [if_pos hauto] at h
    by_cases hm : e.mask = 0
    · rw [apply_delete hauto hm] at hne
      split_ifs at hne
      · exact Or.inl (hwithout hne)
      · exact Or.inl hne
    · rw [if_neg hm] at h
      obtain ⟨-, -, -, hfree⟩ := h
      cases hs : getAutoidx max free v e.mask e.ie e.ie.length with
      | full =>
        rw [apply_no_slot hauto hm fun j => by simp [hs]] at hne
        exact Or.inl hne
      | duplicate =>
        rw [apply_no_slot hauto hm fun j => by simp [hs]] at hne
        exact Or.inl hne
      | «at» j =>
        rw [apply_add hauto hm hs] at hne
        by_cases hij : i = j
        · exact Or.inr (hij ▸ hfree j (getAutoidx_lt hs) hs)
        · rw [Function.update_of_ne hij] at hne
          exact Or.inl hne
  · unfold apply at hne
    rw [if_neg hauto] at hne
    split_ifs at hne with hmax hclear hfree
    · exact Or.inl hne
    · by_cases hi : i = e.index
      · subst hi
        rw [Function.update_self] at hne
        exact Or.inl (hwithout hne)
      · rw [Function.update_of_ne hi] at hne
        exact Or.inl hne
    · by_cases hi : i = e.index
      · exact Or.inr (hi ▸ hfree)
      · rw [Function.update_of_ne hi] at hne
        exact Or.inl hne
    · exact Or.inl hne

theorem CleanList.fills (h : CleanList max free v t es) (hne : (applyAll max free v es i).2 ≠ []) :
    (v i).2 ≠ [] ∨ free i = true := by
  induction es generalizing v t with
  | nil => exact Or.inl hne
  | cons e es ih =>
    rcases ih h.tail hne with hv | hf
    · exact h.fine.fills hv
    · exact Or.inr hf

end IeEntry

/-- An entry of a request as a request of its own. -/
def Request.single {ι : Type*} (r : Request ι) (e : IeEntry) : Request ι :=
  { r with entries := [e] }

namespace MgmtIe

variable {ι : Type*} [Fintype ι] [DecidableEq ι] {max : ℕ} {s s' : MgmtIe ι} {r : Request ι} {i j : ι} {idx : ℕ}

/-- The masks and octets of an interface. -/
def view (s : MgmtIe ι) (i : ι) : View :=
  fun idx => (s.mgmtIe i idx).view

/-- The request is not one for reading, its list can be processed in place and its command can be queued. -/
def Clean (max : ℕ) (s : MgmtIe ι) (r : Request ι) : Prop :=
  0 < r.entries.length ∧ r.prepared = true ∧ IeEntry.CleanList max (s.isUnused r.bss) (s.view r.bss) [] r.entries

instance (s : MgmtIe ι) (r : Request ι) : Decidable (Clean max s r) := by
  have := IeEntry.CleanList.decidable max (s.isUnused r.bss) r.entries (s.view r.bss) []
  unfold Clean
  infer_instance

/-- What holds of the tables of all interfaces. -/
structure Kept (s : MgmtIe ι) : Prop where
  ok : ∀ i, TableOk (s.mgmtIe i)
  parted : ∀ i j idx, i ≠ j → (s.mgmtIe i idx).ieLength ≠ 0 → (s.mgmtIe j idx).ieLength = 0
  broken : s.broken = false

/-- The new command has the entries that have changed, or nothing has changed. -/
def Told (s : MgmtIe ι) (r : Request ι) (s' : MgmtIe ι) : Prop :=
  (∃ l, s'.cmds = s.cmds ++ [(r.bss, sentBytes (s'.view r.bss) l)] ∧ l.Nodup ∧
    ∀ idx, idx ∈ l ↔ s'.view r.bss idx ≠ s.view r.bss idx) ∨
  s'.cmds = s.cmds ∧ s'.mgmtIe = s.mgmtIe

/-- What a request does. -/
structure Processed (max : ℕ) (s : MgmtIe ι) (r : Request ι) (s' : MgmtIe ι) : Prop where
  kept : Kept s'
  others : ∀ i, i ≠ r.bss → s'.mgmtIe i = s.mgmtIe i
  applied : s'.view r.bss = IeEntry.applyAll max (s.isUnused r.bss) (s.view r.bss) r.entries
  told : Told s r s'

theorem isUnused_iff : s.isUnused i idx = true ↔
    ∀ j, j ≠ i → ¬((s.mgmtIe j idx).mgmtSubtypeMask ≠ 0 ∧ (s.mgmtIe j idx).ieLength ≠ 0) :=
  decide_eq_true_iff

/-- An index that is unused has no octets elsewhere. -/
theorem Kept.empty_of_unused (h : Kept s) (hu : s.isUnused i idx = true) (hj : j ≠ i) :
    (s.mgmtIe j idx).ieLength = 0 := by
  by_contra hl
  exact isUnused_iff.mp hu j hj ⟨((h.ok j).named idx hl).1, hl⟩

/-- The other interfaces decide what is unused. -/
theorem isUnused_congr (h : ∀ j, j ≠ i → s'.mgmtIe j = s.mgmtIe j) : s'.isUnused i = s.isUnused i := by
  funext idx
  rw [Bool.eq_iff_iff, isUnused_iff, isUnused_iff]
  refine forall₂_congr fun j hj => ?_
  rw [h j hj]

theorem ieLength_ne_zero_iff (h : TableOk (s.mgmtIe i)) : (s.mgmtIe i idx).ieLength ≠ 0 ↔ (s.view i idx).2 ≠ [] := by
  change _ ↔ (s.mgmtIe i idx).content ≠ []
  rw [← List.length_pos_iff_ne_nil, CustomIe.length_content (h.ieLength idx), Nat.pos_iff_ne_zero]

/-- A table of one interface that fills only what is its own keeps the tables parted. -/
theorem Kept.update (h : Kept s) (hm : s'.mgmtIe = Function.update s.mgmtIe i (s'.mgmtIe i))
    (hok : TableOk (s'.mgmtIe i)) (hb : s'.broken = false)
    (hfill : ∀ idx, (s'.view i idx).2 ≠ [] → (s.view i idx).2 ≠ [] ∨ s.isUnused i idx = true) : Kept s' := by
  have hother : ∀ j, j ≠ i → s'.mgmtIe j = s.mgmtIe j := fun j hj => by
    rw [hm, Function.update_of_ne hj]
  have hempty : ∀ j idx, j ≠ i → (s'.mgmtIe i idx).ieLength ≠ 0 → (s.mgmtIe j idx).ieLength = 0 := fun j idx hj hl => by
    rcases hfill idx ((ieLength_ne_zero_iff hok).mp hl) with hold | hu
    · exact h.parted i j idx (Ne.symm hj) ((ieLength_ne_zero_iff (h.ok i)).mpr hold)
    · exact h.empty_of_unused hu hj
  refine ⟨fun j => ?_, fun j k idx hjk hl => ?_, hb⟩
  · by_cases hj : j = i
    · exact hj ▸ hok
    · exact hother j hj ▸ h.ok j
  · by_cases hj : j = i
    · subst hj
      rw [hother k (Ne.symm hjk)]
      exact hempty k idx (Ne.symm hjk) hl
    · rw [hother j hj] at hl
      by_cases hk : k = i
      · subst hk
        by_contra hl'
        exact hl (hempty j idx hj hl')
      · rw [hother k hk]
        exact h.parted j k idx hjk hl

/-- A clean request. -/
theorem Kept.step (h : Kept s) (hc : Clean max s r) : ∃ s', step max s r = some s' ∧ Processed max s r s' := by
  obtain ⟨hpos, hprep, hclean⟩ := hc
  unfold MgmtIe.step
  rw [if_neg (by rw [h.broken]; exact Bool.false_ne_true)]
  rcases customIeList_clean r.tail (h.ok r.bss) (List.length_pos_iff_ne_nil.mp hpos) hclean with
    ⟨w, l, hcmd, hdone, hn, hl⟩ | ⟨w, ok, hexit, hm, hall⟩
  · rw [hcmd]
    refine ⟨_, rfl, ?_⟩
    have hview : ∀ c, view (⟨Function.update s.mgmtIe r.bss w.mgmtIe, c, s.broken⟩ : MgmtIe ι) r.bss =
        IeEntry.applyAll max (s.isUnused r.bss) (s.view r.bss) r.entries := fun c => by
      refine Eq.trans (funext fun idx => ?_) hdone.view
      simp only [view, Function.update_self]
      rfl
    refine ⟨h.update (i := r.bss) ?_ ?_ h.broken fun idx hne => ?_, fun i hi => Function.update_of_ne hi _ _, hview _,
      Or.inl ⟨l, ?_, hn, fun idx => ?_⟩⟩
    · simp only [Function.update_self]
    · simp only [Function.update_self]
      exact hdone.ok
    · rw [hview] at hne
      exact hclean.fills hne
    · have hsent : (w.passed ++ w.buf).take w.custLen =
          sentBytes (IeEntry.applyAll max (s.isUnused r.bss) (s.view r.bss) r.entries) l := hdone.sent
      rw [hview, ← hsent]
      exact if_pos hprep
    · rw [hview]
      exact hl idx
  · rw [hexit]
    have hsame : (⟨Function.update s.mgmtIe r.bss w.mgmtIe, s.cmds, s.broken⟩ : MgmtIe ι) = s := by
      rw [hm, Function.update_eq_self]
    refine ⟨_, rfl, ?_⟩
    rw [hsame]
    exact ⟨h, fun _ _ => rfl, hall.symm, Or.inr ⟨rfl, rfl⟩⟩

/-- The entries of a request, as requests one after another. -/
theorem Kept.singles {es : List IeEntry} {t : List ℕ} (h : Kept s) (hprep : r.prepared = true)
    (hc : IeEntry.CleanList max (s.isUnused r.bss) (s.view r.bss) t es) :
    ∃ s', (requestSystem max).run s (es.map r.single) = some s' ∧ (∀ i, i ≠ r.bss → s'.mgmtIe i = s.mgmtIe i) ∧
      s'.view r.bss = IeEntry.applyAll max (s.isUnused r.bss) (s.view r.bss) es := by
  induction es generalizing s t with
  | nil => exact ⟨s, rfl, fun _ _ => rfl, rfl⟩
  | cons e es ih =>
    obtain ⟨s₁, hstep, hp⟩ := h.step (r := r.single e) ⟨Nat.one_pos, hprep, IeEntry.cleanList_singleton hc.fine⟩
    have hfree : s₁.isUnused r.bss = s.isUnused r.bss := isUnused_congr hp.others
    have hview : s₁.view r.bss = e.apply max (s.isUnused r.bss) (s.view r.bss) := hp.applied
    obtain ⟨s₂, hrun, hothers, hall⟩ := ih (s := s₁) hp.kept (by rw [hfree, hview]; exact hc.tail)
    refine ⟨s₂, ?_, fun i hi => (hothers i hi).trans (hp.others i hi), ?_⟩
    · have hstep : (requestSystem max).step s (r.single e) = some s₁ := hstep
      rw [List.map_cons, System.run, System.runWhen, if_pos trivial, hstep]
      exact hrun
    · rw [hall, hfree, hview]
      rfl

theorem Init.kept (h : Init s) : Kept s := by
  refine ⟨fun i => ⟨fun idx => ?_, fun idx hl => absurd (h.1 i idx) hl⟩, fun i j idx _ _ => h.1 j idx, h.2.2⟩
  rw [h.1 i idx]
  exact Nat.zero_le _

/-- In runs of clean requests no entry is longer than its buffer and no index is used on two interfaces; and the next clean
request does what its entries do one after another, and sends what has changed or changes nothing. -/
theorem requests_exact (h : (requestSystem max).ReachableWhen (Clean max) s) :
    (∀ i idx, (s.mgmtIe i idx).ieLength ≤ maxIeSize) ∧
    (∀ i j idx, i ≠ j → (s.mgmtIe i idx).ieLength ≠ 0 → (s.mgmtIe j idx).ieLength = 0) ∧
    ∀ r, Clean max s r → ∃ s' s'', step max s r = some s' ∧ s'.broken = false ∧ Told s r s' ∧
      (requestSystem max).run s (r.entries.map r.single) = some s'' ∧ ∀ i, s''.view i = s'.view i := by
  have hk : Kept s := h.invariant (I := Kept) (fun s (hs : Init s) => hs.kept) fun s r s' hs hc hstep => by
    obtain ⟨s₁, hs₁, hp⟩ := hs.step hc
    obtain rfl := Option.some.inj (hs₁.symm.trans hstep)
    exact hp.kept
  refine ⟨fun i => (hk.ok i).ieLength, hk.parted, fun r hc => ?_⟩
  obtain ⟨s', hstep, hp⟩ := hk.step hc
  obtain ⟨s'', hrun, hothers, hview⟩ := hk.singles hc.2.1 hc.2.2
  refine ⟨s', s'', hstep, hp.kept.broken, hp.told, hrun, fun i => ?_⟩
  by_cases hi : i = r.bss
  · rw [hi, hview, hp.applied]
  · unfold view
    rw [hothers i hi, hp.others i hi]

/-- Tables without an entry. -/
def unset : MgmtIe (Fin 2) :=
  ⟨fun _ _ => ⟨0, 0, 0, List.replicate maxIeSize 0, List.length_replicate⟩, [], false⟩

theorem unset_init : Init unset :=
  ⟨fun _ _ => rfl, rfl, rfl⟩

/-- An addition of `ie` to an entry for association requests. -/
def addition (i : Fin 2) (ie : List UInt8) (h : ie.length ≤ maxIeSize) : Request (Fin 2) :=
  ⟨i, [⟨0xffff, 1, ie, by decide, by decide, h⟩], [], true⟩

/-- Two additions in one list. -/
def twoAdditions : Request (Fin 2) :=
  ⟨0, [⟨0xffff, 2, [221, 1, 9], by decide, by decide, by decide⟩, ⟨0xffff, 4, [221, 2, 9, 9], by decide, by decide, by decide⟩],
    [], true⟩

/-- Two interfaces get an entry each, the first a second octet string in its own, and then two entries by one list. -/
theorem requests_exact_additions : ∃ s : MgmtIe (Fin 2), (requestSystem 26).ReachableWhen (Clean 26) s ∧
    s.view 0 0 = (1, [221, 1, 7, 221, 1, 8]) ∧ s.view 1 1 = (1, [221, 1, 7]) ∧ (s.mgmtIe 1 0).ieLength = 0 ∧
    ∃ s' s'', step 26 s twoAdditions = some s' ∧ Told s twoAdditions s' ∧ s'.view 0 2 = (2, [221, 1, 9]) ∧
      s'.view 0 3 = (4, [221, 2, 9, 9]) ∧
      (requestSystem 26).run s (twoAdditions.entries.map twoAdditions.single) = some s'' ∧ ∀ i, s''.view i = s'.view i := by
  obtain ⟨s, hs, hP⟩ := System.exists_reachableWhen_of_runWhen (M := requestSystem 26) (C := Clean 26)
    (P := fun s : MgmtIe (Fin 2) => decide (s.view 0 0 = (1, [221, 1, 7, 221, 1, 8]) ∧ s.view 1 1 = (1, [221, 1, 7]) ∧
      (s.mgmtIe 0 0).ieLength ≠ 0 ∧ Clean 26 s twoAdditions) &&
      (step 26 s twoAdditions).all fun s' : MgmtIe (Fin 2) =>
        decide (s'.view 0 2 = (2, [221, 1, 9]) ∧ s'.view 0 3 = (4, [221, 2, 9, 9])))
    (l := [addition 0 [221, 1, 7] (by decide), addition 1 [221, 1, 7] (by decide), addition 0 [221, 1, 8] (by decide)])
    (.init unset_init) (by decide +kernel)
  rw [Bool.and_eq_true] at hP
  obtain ⟨h0, h1, hl, hclean⟩ := of_decide_eq_true hP.1
  obtain ⟨-, hparted, hrequest⟩ := requests_exact hs
  obtain ⟨s', s'', hstep, -, htold, hrun, hview⟩ := hrequest twoAdditions hclean
  obtain ⟨h2, h3⟩ := of_decide_eq_true ((Option.all_eq_true _ _).mp hP.2 s' hstep)
  exact ⟨s, hs, h0, h1, hparted 0 1 0 (by decide) hl, s', s'', hstep, htold, h2, h3, hrun, hview⟩

/-- A list that deletes octets and then sets another entry. -/
def deleteThenSet : Request (Fin 2) :=
  ⟨0, [⟨0xffff, 0, [221, 1, 7], by decide, by decide, by decide⟩, ⟨5, 1, [221, 1, 9], by decide, by decide, by decide⟩],
    [], true⟩

/-- A list that sets an entry and then adds what is there already. -/
def setThenDuplicate : Request (Fin 2) :=
  ⟨0, [⟨5, 2, [221, 1, 9], by decide, by decide, by decide⟩, ⟨0xffff, 1, [221, 1, 7], by decide, by decide, by decide⟩],
    [], true⟩

/-- The deletion clears what follows it in the list, and an addition that is not needed ends a list whose first entry is in
the table by then. -/
theorem list_inexact : ∃ s : MgmtIe (Fin 2), (requestSystem 26).Reachable s ∧
    (∃ r s' s'', step 26 s r = some s' ∧ (requestSystem 26).run s (r.entries.map r.single) = some s'' ∧
      s'.view 0 5 ≠ s''.view 0 5) ∧
    ∃ r s', step 26 s r = some s' ∧ s'.cmds = s.cmds ∧ s'.view 0 5 ≠ s.view 0 5 := by
  obtain ⟨s, hs, hP⟩ := System.exists_reachable_of_run (M := requestSystem 26) (s := unset)
    (P := fun s : MgmtIe (Fin 2) => ((step 26 s deleteThenSet).any fun s₁ : MgmtIe (Fin 2) =>
        ((requestSystem 26).run s (deleteThenSet.entries.map deleteThenSet.single)).any fun s₂ : MgmtIe (Fin 2) =>
          decide (s₁.view 0 5 ≠ s₂.view 0 5)) &&
      (step 26 s setThenDuplicate).any fun s₁ : MgmtIe (Fin 2) =>
        decide (s₁.cmds = s.cmds ∧ s₁.view 0 5 ≠ s.view 0 5))
    (l := [addition 0 [221, 1, 7] (by decide)]) unset_init (by decide +kernel)
  rw [Bool.and_eq_true] at hP
  obtain ⟨s₁, h₁, hwiped⟩ := (Option.any_eq_true _ _).mp hP.1
  obtain ⟨s₂, h₂, hwiped⟩ := (Option.any_eq_true _ _).mp hwiped
  obtain ⟨s₃, h₃, hended⟩ := (Option.any_eq_true _ _).mp hP.2
  exact ⟨s, hs, ⟨deleteThenSet, s₁, s₂, h₁, h₂, of_decide_eq_true hwiped⟩,
    ⟨setThenDuplicate, s₃, h₃, of_decide_eq_true hended⟩⟩

end MgmtIe

end WlanDriver.Misc
