import Mathlib.Data.Finset.Card
import Mathlib.Data.List.Count

/-!
# Tokens in slots

Tokens are issued once, put into slots, and taken out of them again. `Balanced` : each issued token is in one slot or, once,
in a list of those that are out. `Located` says the same of any number of slots. `Silent` : in a history nothing is said
about a token behind the event that settles it.
-/

set_option linter.unusedSectionVars false

namespace WlanDriver

open Function List

section

variable {ι τ : Type*} [DecidableEq ι] [DecidableEq τ]

/-- The slots that hold the token. -/
def holders (S : Finset ι) (slot : ι → Option τ) (t : τ) : Finset ι :=
  S.filter fun i => slot i = some t

/-- Each issued token is in one slot or out, and only once. -/
structure Balanced (S : Finset ι) (slot : ι → Option τ) (issued out : List τ) : Prop where
  nodup : issued.Nodup
  tokens : ∀ t, issued.count t = out.count t + (holders S slot t).card

namespace Balanced

variable {S : Finset ι} {slot slot' : ι → Option τ} {issued out out' : List τ} {i j : ι} {t : τ}

section

variable (h : Balanced S slot issued out)

include h

theorem perm (hp : out.Perm out') : Balanced S slot issued out' :=
  ⟨h.nodup, fun t => by rw [h.tokens t, hp.count_eq]⟩

/-- What other slots hold does not matter. -/
theorem congr (hs : ∀ i ∈ S, slot' i = slot i) : Balanced S slot' issued out := by
  refine ⟨h.nodup, fun t => ?_⟩
  have hholders : holders S slot' t = holders S slot t := Finset.filter_congr fun i hi => by rw [hs i hi]
  rw [h.tokens t, hholders]

theorem holders_le_one (t : τ) : out.count t + (holders S slot t).card ≤ 1 :=
  h.tokens t ▸ nodup_iff_count_le_one.mp h.nodup t

/-- A token in a slot is not out. -/
theorem not_mem_out (hi : i ∈ S) (ht : slot i = some t) : t ∉ out := by
  intro hout
  have hpos := count_pos_iff.mpr hout
  have hcard : 0 < (holders S slot t).card := Finset.card_pos.mpr ⟨i, Finset.mem_filter.mpr ⟨hi, ht⟩⟩
  have hle := h.holders_le_one t
  omega

/-- A token is in one slot. -/
theorem unique (hi : i ∈ S) (hj : j ∈ S) (hti : slot i = some t)
    (htj : slot j = some t) : i = j := by
  have hle : (holders S slot t).card ≤ 1 := by
    have := h.holders_le_one t
    omega
  exact Finset.card_le_one.mp hle i (Finset.mem_filter.mpr ⟨hi, hti⟩) j (Finset.mem_filter.mpr ⟨hj, htj⟩)

theorem mem_issued_of_out (ht : t ∈ out) : t ∈ issued := by
  have hpos := count_pos_iff.mpr ht
  exact count_pos_iff.mp (by rw [h.tokens t]; omega)

end

/-- The slots that hold a token, behind a change of one slot. -/
theorem holders_update (hi : i ∈ S) (o : Option τ) (t : τ) :
    holders S (update slot i o) t =
      if o = some t then insert i (holders S slot t) else (holders S slot t).erase i := by
  ext j
  by_cases hji : j = i
  · subst hji
    split_ifs with ho <;> simp [holders, hi, ho]
  · split_ifs <;> simp [holders, hji]

/-- A token is taken out of its slot. -/
theorem take (h : Balanced S slot issued out) (hi : i ∈ S) (ht : slot i = some t) :
    Balanced S (update slot i none) issued (t :: out) := by
  refine ⟨h.nodup, fun t' => ?_⟩
  rw [h.tokens t', holders_update hi none t', if_neg (by simp)]
  by_cases htt : t = t'
  · subst htt
    have hmem : i ∈ holders S slot t := Finset.mem_filter.mpr ⟨hi, ht⟩
    have hcard := Finset.card_erase_of_mem hmem
    have hpos : 0 < (holders S slot t).card := Finset.card_pos.mpr ⟨i, hmem⟩
    rw [count_cons_self]
    omega
  · have hmem : i ∉ holders S slot t' := fun hm => htt (Option.some.inj (ht.symm.trans (Finset.mem_filter.mp hm).2))
    rw [Finset.erase_eq_of_notMem hmem, count_cons_of_ne htt]

/-- A new token is out at once. -/
theorem issue (h : Balanced S slot issued out) (ht : t ∉ issued) : Balanced S slot (issued ++ [t]) (out ++ [t]) := by
  refine ⟨?_, fun t' => ?_⟩
  · rw [nodup_append]
    refine ⟨h.nodup, nodup_singleton t, fun a ha b hb => ?_⟩
    rw [mem_singleton.mp hb]
    exact fun hat => ht (hat ▸ ha)
  · rw [count_append, count_append, h.tokens t']
    omega

/-- A token that is out is put into an empty slot. -/
theorem put (h : Balanced S slot issued (out ++ [t])) (hi : i ∈ S) (hn : slot i = none) :
    Balanced S (update slot i (some t)) issued out := by
  refine ⟨h.nodup, fun t' => ?_⟩
  have hmem : i ∉ holders S slot t' := fun hm => by simp [holders, hn] at hm
  rw [h.tokens t', holders_update hi (some t) t', count_append]
  by_cases htt : t = t'
  · subst htt
    rw [if_pos rfl, Finset.card_insert_of_notMem hmem, count_singleton_self]
    omega
  · rw [if_neg (by simpa using htt), Finset.erase_eq_of_notMem hmem, count_singleton, beq_false_of_ne htt]
    simp

/-- A slot without a token is given up. -/
theorem erase (h : Balanced S slot issued out) (hn : slot i = none) : Balanced (S.erase i) slot issued out := by
  refine ⟨h.nodup, fun t => ?_⟩
  have hholders : holders (S.erase i) slot t = holders S slot t := by
    ext j
    by_cases hji : j = i
    · subst hji
      simp [holders, hn]
    · simp [holders, hji]
  rw [h.tokens t, hholders]

/-- The tokens in a list of all the slots. -/
theorem issued_perm (h : Balanced S slot issued out) {l : List ι} (hl : l.Nodup) (hS : ∀ i, i ∈ l ↔ i ∈ S) :
    issued.Perm (out ++ l.filterMap slot) := by
  refine perm_iff_count.mpr fun t => ?_
  have hcount : (l.filterMap slot).count t = (holders S slot t).card := by
    rw [count_filterMap, countP_eq_length_filter]
    have hto : holders S slot t = (l.filter fun i => slot i == some t).toFinset := by
      ext i
      simp [holders, hS]
    rw [hto, toFinset_card_of_nodup (hl.filter _)]
  rw [count_append, h.tokens t, hcount]

end Balanced

end

/-! ## Any number of slots -/

section

variable {κ τ : Type*} [DecidableEq κ]

/-- Each issued token is in one slot or, once, in the list of those that are out. -/
structure Located (slot : κ → Option τ) (issued : Set τ) (out : List τ) : Prop where
  nodup : out.Nodup
  unique : ∀ {a b t}, slot a = some t → slot b = some t → a = b
  apart : ∀ {a t}, slot a = some t → t ∉ out
  mem : ∀ {t}, t ∈ issued ↔ t ∈ out ∨ ∃ a, slot a = some t

namespace Located

variable {slot slot' : κ → Option τ} {issued issued' : Set τ} {out out' : List τ} {a b : κ} {t : τ}

variable (h : Located slot issued out)

include h

theorem congr (hslot : slot' = slot) (hissued : issued' = issued) (hout : out'.Perm out) :
    Located slot' issued' out' := by
  subst hslot hissued
  exact ⟨hout.nodup_iff.mpr h.nodup, h.unique, fun ha => mt hout.mem_iff.mp (h.apart ha), fun {_} => by
    rw [h.mem, hout.mem_iff]⟩

/-- A token is issued into an empty slot. -/
theorem enter (hb : slot b = none) (ht : t ∉ issued) :
    Located (update slot b (some t)) (insert t issued) out := by
  have hold : ∀ {a t'}, update slot b (some t) a = some t' → a = b ∧ t' = t ∨ a ≠ b ∧ slot a = some t' := by
    intro a t' ha
    by_cases hab : a = b
    · subst hab
      rw [update_self] at ha
      exact .inl ⟨rfl, (Option.some.inj ha).symm⟩
    · rw [update_of_ne hab] at ha
      exact .inr ⟨hab, ha⟩
  have hnew : ∀ {a}, slot a ≠ some t := fun ha => ht (h.mem.mpr (.inr ⟨_, ha⟩))
  refine ⟨h.nodup, fun {c d t'} hc hd => ?_, fun {c t'} hc => ?_, fun {t'} => ?_⟩
  · rcases hold hc with ⟨rfl, rfl⟩ | ⟨-, hc'⟩
    · rcases hold hd with ⟨rfl, -⟩ | ⟨-, hd'⟩
      · rfl
      · exact absurd hd' hnew
    · rcases hold hd with ⟨rfl, rfl⟩ | ⟨-, hd'⟩
      · exact absurd hc' hnew
      · exact h.unique hc' hd'
  · rcases hold hc with ⟨-, rfl⟩ | ⟨-, hc⟩
    · exact fun hout => ht (h.mem.mpr (.inl hout))
    · exact h.apart hc
  · constructor
    · rintro (rfl | hin)
      · exact .inr ⟨b, update_self _ _ _⟩
      · rcases h.mem.mp hin with hout | ⟨c, hc⟩
        · exact .inl hout
        · have hcb : c ≠ b := fun hcb => by simp [hcb, hb] at hc
          exact .inr ⟨c, by rw [update_of_ne hcb, hc]⟩
    · rintro (hout | ⟨c, hc⟩)
      · exact .inr (h.mem.mpr (.inl hout))
      · rcases hold hc with ⟨-, rfl⟩ | ⟨-, hc⟩
        · exact .inl rfl
        · exact .inr (h.mem.mpr (.inr ⟨c, hc⟩))

theorem leave (ha : slot a = some t) :
    Located (update slot a none) issued (t :: out) := by
  have hold : ∀ {c t'}, update slot a none c = some t' ↔ c ≠ a ∧ slot c = some t' := by
    intro c t'
    by_cases hca : c = a
    · subst hca
      simp
    · rw [update_of_ne hca]
      simp [hca]
  refine ⟨nodup_cons.mpr ⟨h.apart ha, h.nodup⟩, fun hc hd => h.unique (hold.mp hc).2 (hold.mp hd).2,
    fun {c t'} hc hout => ?_, fun {t'} => ?_⟩
  · obtain ⟨hca, hc⟩ := hold.mp hc
    rcases mem_cons.mp hout with rfl | hout
    · exact hca (h.unique hc ha)
    · exact h.apart hc hout
  · rw [h.mem, mem_cons]
    constructor
    · rintro (hout | ⟨c, hc⟩)
      · exact .inl (.inr hout)
      · by_cases hca : c = a
        · subst hca
          exact .inl (.inl (Option.some.inj (hc.symm.trans ha)))
        · exact .inr ⟨c, hold.mpr ⟨hca, hc⟩⟩
    · rintro ((rfl | hout) | ⟨c, hc⟩)
      · exact .inr ⟨a, ha⟩
      · exact .inl hout
      · exact .inr ⟨c, (hold.mp hc).2⟩

/-- A token goes from its slot to an empty one. -/
theorem move (ha : slot a = some t) (hb : slot b = none) :
    Located (update (update slot a none) b (some t)) issued out := by
  have hab : b ≠ a := fun hba => by simp [hba, ha] at hb
  have hold : ∀ {c t'}, update (update slot a none) b (some t) c = some t' →
      c = b ∧ t' = t ∨ c ≠ b ∧ c ≠ a ∧ slot c = some t' := by
    intro c t' hc
    by_cases hcb : c = b
    · subst hcb
      rw [update_self] at hc
      exact .inl ⟨rfl, (Option.some.inj hc).symm⟩
    · rw [update_of_ne hcb] at hc
      by_cases hca : c = a
      · subst hca
        simp at hc
      · rw [update_of_ne hca] at hc
        exact .inr ⟨hcb, hca, hc⟩
  refine ⟨h.nodup, fun {c d t'} hc hd => ?_, fun {c t'} hc => ?_, fun {t'} => ?_⟩
  · rcases hold hc with ⟨rfl, rfl⟩ | ⟨-, hca, hc'⟩
    · rcases hold hd with ⟨rfl, -⟩ | ⟨-, hda, hd'⟩
      · rfl
      · exact absurd (h.unique hd' ha) hda
    · rcases hold hd with ⟨rfl, rfl⟩ | ⟨-, hda, hd'⟩
      · exact absurd (h.unique hc' ha) hca
      · exact h.unique hc' hd'
  · rcases hold hc with ⟨-, rfl⟩ | ⟨-, -, hc⟩
    · exact h.apart ha
    · exact h.apart hc
  · rw [h.mem]
    refine or_congr_right ⟨?_, ?_⟩
    · rintro ⟨c, hc⟩
      by_cases hca : c = a
      · subst hca
        obtain rfl := Option.some.inj (hc.symm.trans ha)
        exact ⟨b, update_self _ _ _⟩
      · have hcb : c ≠ b := fun hcb => by simp [hcb, hb] at hc
        exact ⟨c, by rw [update_of_ne hcb, update_of_ne hca, hc]⟩
    · rintro ⟨c, hc⟩
      rcases hold hc with ⟨-, rfl⟩ | ⟨-, -, hc⟩
      · exact ⟨a, ha⟩
      · exact ⟨c, hc⟩

end Located

end

/-! ## Histories -/

section

variable {ε τ : Type*} {subject : ε → τ} {settles : ε → Bool} {l l' : List ε} {e : ε}

/-- Nothing is said about a token behind the event that settles it. -/
def Silent (subject : ε → τ) (settles : ε → Bool) (l : List ε) : Prop :=
  l.Pairwise fun e e' => settles e = true → subject e' ≠ subject e

theorem silent_append_singleton : Silent subject settles (l ++ [e]) ↔
    Silent subject settles l ∧ subject e ∉ (l.filter settles).map subject := by
  simp only [Silent, pairwise_append, pairwise_singleton, mem_singleton, forall_eq, true_and,
    mem_map, mem_filter]
  constructor
  · rintro ⟨hl, he⟩
    refine ⟨hl, ?_⟩
    rintro ⟨a, ⟨ha, hs⟩, hae⟩
    exact he a ha hs hae.symm
  · rintro ⟨hl, he⟩
    exact ⟨hl, fun a ha hs hae => he ⟨a, ⟨ha, hs⟩, hae.symm⟩⟩

theorem Silent.of_append (h : Silent subject settles (l ++ l')) : Silent subject settles l :=
  (pairwise_append.mp h).1

end

end WlanDriver
