import Mathlib.Data.List.Nodup
import Mathlib.Logic.Function.Basic
import Mathlib.Tactic.Common

/-!
# Elements threaded on lists

An element with the links of a list inside it (an intrusive node) can be on one list at a time, and once. `Threaded p`
says this of a family `p` of lists : no element is on two of them, or twice on one. Unlinking keeps it, and so does
linking an element that is on none of the lists.
-/

set_option linter.unusedSectionVars false

namespace WlanDriver

open List

variable {ι α : Type*} [DecidableEq ι]

/-- No element is on two of the lists, or twice on one. -/
structure Threaded (p : ι → List α) : Prop where
  nodup : ∀ i, (p i).Nodup
  once : ∀ {a i j}, a ∈ p i → a ∈ p j → i = j

section Push

variable {p : ι → List α} {i j : ι} {a b : α}

/-- What is on a list after `a` has come to the tail of list `i`. -/
theorem mem_push : b ∈ Function.update p i (p i ++ [a]) j ↔ b ∈ p j ∨ b = a ∧ j = i := by
  by_cases hj : j = i
  · subst hj
    simp
  · simp [hj]

theorem exists_mem_push : (∃ j, b ∈ Function.update p i (p i ++ [a]) j) ↔ (∃ j, b ∈ p j) ∨ b = a := by
  simp only [mem_push, exists_or, exists_and_left, exists_eq, and_true]

end Push

namespace Threaded

variable {p p' : ι → List α} {a : α}

theorem empty : Threaded fun _ : ι => ([] : List α) :=
  ⟨fun _ => nodup_nil, fun ha => absurd ha not_mem_nil⟩

/-- Elements are unlinked. -/
theorem sublist (h : Threaded p) (hp : ∀ i, (p' i).Sublist (p i)) : Threaded p' :=
  ⟨fun i => (h.nodup i).sublist (hp i), fun hi hj => h.once ((hp _).subset hi) ((hp _).subset hj)⟩

/-- An element is linked at the tail. -/
theorem push (h : Threaded p) (i : ι) (ha : ∀ j, a ∉ p j) : Threaded (Function.update p i (p i ++ [a])) := by
  refine ⟨fun j => ?_, fun {b j k} hj hk => ?_⟩
  · by_cases hj : j = i
    · subst hj
      rw [Function.update_self]
      exact (h.nodup j).append (nodup_singleton a) (disjoint_singleton.mpr (ha j))
    · rw [Function.update_of_ne hj]
      exact h.nodup j
  · rcases mem_push.mp hj with hjp | ⟨hba, hji⟩
    · rcases mem_push.mp hk with hkp | ⟨hba, -⟩
      · exact h.once hjp hkp
      · exact absurd (hba ▸ hjp) (ha j)
    · rcases mem_push.mp hk with hkp | ⟨-, hki⟩
      · exact absurd (hba ▸ hkp) (ha k)
      · rw [hji, hki]

/-- Elements are linked at the heads, one after the other. -/
theorem prepend (h : Threaded p) {n : List (ι × α)} (hn : (n.map Prod.snd).Nodup)
    (hnew : ∀ a ∈ n.map Prod.snd, ∀ i, a ∉ p i) :
    Threaded fun i => ((n.filter fun x => x.1 = i).map Prod.snd).reverse ++ p i := by
  have hmem : ∀ {b i}, b ∈ ((n.filter fun x => x.1 = i).map Prod.snd).reverse → (i, b) ∈ n := by
    intro b i hb
    obtain ⟨⟨j, c⟩, hx, rfl⟩ := mem_map.mp (mem_reverse.mp hb)
    obtain ⟨hx, hj⟩ := mem_filter.mp hx
    simp only [decide_eq_true_eq] at hj
    exact hj ▸ hx
  have hnot : ∀ {b i j}, (i, b) ∈ n → b ∉ p j := fun hb => hnew _ (mem_map_of_mem hb) _
  refine ⟨fun i => ?_, fun {b i j} hi hj => ?_⟩
  · refine List.Nodup.append ?_ (h.nodup i) fun b hb hp => hnot (hmem hb) hp
    exact nodup_reverse.mpr (hn.sublist (filter_sublist.map Prod.snd))
  · rcases mem_append.mp hi with hin | hip
    · rcases mem_append.mp hj with hjn | hjp
      · exact congrArg Prod.fst (inj_on_of_nodup_map hn (hmem hin) (hmem hjn) rfl)
      · exact absurd hjp (hnot (hmem hin))
    · rcases mem_append.mp hj with hjn | hjp
      · exact absurd hip (hnot (hmem hjn))
      · exact h.once hip hjp

/-- The lists one after the other. -/
theorem nodup_flatMap (h : Threaded p) {l : List ι} (hl : l.Nodup) : (l.flatMap p).Nodup := by
  rw [List.nodup_flatMap]
  refine ⟨fun i _ => h.nodup i, hl.imp fun {i j} hij => ?_⟩
  exact fun a hi hj => hij (h.once hi hj)

end Threaded

end WlanDriver
