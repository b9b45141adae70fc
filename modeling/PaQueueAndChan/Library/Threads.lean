import Mathlib.Algebra.BigOperators.Fin
import Mathlib.Logic.Function.Basic
import Mathlib.Tactic.Abel

/-! Threads that each have a program counter, of which a step changes one. -/

namespace PaQueueAndChan.Library

variable {ι π : Type*} [DecidableEq ι] {pc : ι → π} {t u : ι} {c : π}

lemma forall_update {P : ι → π → Prop} (hc : P t c) (h : ∀ u, u ≠ t → P u (pc u)) (u : ι) :
    P u (Function.update pc t c u) := by
  by_cases hu : u = t
  · subst hu
    rwa [Function.update_self]
  · rw [Function.update_of_ne hu]
    exact h u hu

lemma sum_update {M : Type*} [AddCommMonoid M] [Fintype ι] (f : π → M) (pc : ι → π) (t : ι)
    (c : π) : ∑ u, f (Function.update pc t c u) + f (pc t) = ∑ u, f (pc u) + f c := by
  have hrest : ∑ u ∈ {t}ᶜ, f (Function.update pc t c u) = ∑ u ∈ {t}ᶜ, f (pc u) :=
    Finset.sum_congr rfl fun u hu => by
      rw [Function.update_of_ne (by simpa using hu)]
  rw [Fintype.sum_eq_add_sum_compl t, Fintype.sum_eq_add_sum_compl t fun u => f (pc u), hrest,
    Function.update_self]
  abel

end PaQueueAndChan.Library
