import Mathlib.Algebra.Order.Group.Multiset
import Mathlib.Data.Multiset.AddSub
import Mathlib.Data.Multiset.Bind
import Mathlib.Data.Set.Basic

/-! Admission of requests that need several keys at once. A request is granted when none of its
keys is held, and waits otherwise; a release of one key may admit one of the requests waiting for
it. Nothing is said about which request a release picks. -/

namespace PaQueueAndChan.Library

structure Admission (κ μ : Type*) where
  held : Set κ
  waiting : Multiset μ

namespace Admission

variable {κ μ : Type*} (keys : μ → List κ)

def Clash (held : Set κ) (m : μ) : Prop := ∃ k ∈ keys m, k ∈ held

inductive Arrive : Admission κ μ → μ → Option μ → Admission κ μ → Prop
  | grant {held : Set κ} {waiting : Multiset μ} {m : μ} (h : ¬ Clash keys held m) :
      Arrive ⟨held, waiting⟩ m (some m) ⟨held ∪ {k | k ∈ keys m}, waiting⟩
  | wait {held : Set κ} {waiting : Multiset μ} {m : μ} (h : Clash keys held m) :
      Arrive ⟨held, waiting⟩ m none ⟨held, m ::ₘ waiting⟩

inductive Release : Admission κ μ → κ → Option μ → Admission κ μ → Prop
  | pass {held : Set κ} {waiting : Multiset μ} {k : κ} {m : μ} (hk : k ∈ held)
      (hm : k ∈ keys m) (h : ¬ Clash keys (held \ {k}) m) :
      Release ⟨held, m ::ₘ waiting⟩ k (some m) ⟨held \ {k} ∪ {k' | k' ∈ keys m}, waiting⟩
  | free {held : Set κ} {waiting : Multiset μ} {k : κ} (hk : k ∈ held)
      (h : ∀ m ∈ waiting, k ∈ keys m → Clash keys (held \ {k}) m) :
      Release ⟨held, waiting⟩ k none ⟨held \ {k}, waiting⟩

variable {keys} {t t' : Admission κ μ} {m : μ} {k : κ} {o : Option μ}

lemma Arrive.of_grant (h : ¬ Clash keys t.held m) (hh : t'.held = t.held ∪ {k | k ∈ keys m})
    (hw : t'.waiting = t.waiting) : Arrive keys t m (some m) t' := by
  obtain ⟨held, waiting⟩ := t'
  obtain rfl : held = _ := hh
  obtain rfl : waiting = _ := hw
  exact .grant h

lemma Arrive.of_wait (h : Clash keys t.held m) (hh : t'.held = t.held)
    (hw : t'.waiting = m ::ₘ t.waiting) : Arrive keys t m none t' := by
  obtain ⟨held, waiting⟩ := t'
  obtain rfl : held = _ := hh
  obtain rfl : waiting = _ := hw
  exact .wait h

lemma Release.of_pass (hk : k ∈ t.held) (hm : k ∈ keys m) (h : ¬ Clash keys (t.held \ {k}) m)
    (hh : t'.held = t.held \ {k} ∪ {k' | k' ∈ keys m}) (hw : t.waiting = m ::ₘ t'.waiting) :
    Release keys t k (some m) t' := by
  obtain ⟨held, waiting⟩ := t
  obtain ⟨held', waiting'⟩ := t'
  simp only at hk h hh hw
  subst hh hw
  exact .pass hk hm h

lemma Release.of_free (hk : k ∈ t.held)
    (h : ∀ m ∈ t.waiting, k ∈ keys m → Clash keys (t.held \ {k}) m)
    (hh : t'.held = t.held \ {k}) (hw : t'.waiting = t.waiting) : Release keys t k none t' := by
  obtain ⟨held, waiting⟩ := t'
  obtain rfl : held = _ := hh
  obtain rfl : waiting = _ := hw
  exact .free hk h

lemma Arrive.grant_inv {m' : μ} (h : Arrive keys t m (some m') t') :
    t'.held = t.held ∪ {k | k ∈ keys m} ∧ t'.waiting = t.waiting := by
  cases h
  exact ⟨rfl, rfl⟩

lemma Arrive.wait_inv (h : Arrive keys t m none t') :
    t'.held = t.held ∧ t'.waiting = m ::ₘ t.waiting := by
  cases h
  exact ⟨rfl, rfl⟩

lemma Release.pass_inv (h : Release keys t k (some m) t') :
    t'.held = t.held \ {k} ∪ {k' | k' ∈ keys m} ∧ t.waiting = m ::ₘ t'.waiting := by
  cases h
  exact ⟨rfl, rfl⟩

lemma Release.key_mem (h : Release keys t k (some m) t') : k ∈ keys m := by
  cases h
  assumption

lemma Release.free_inv (h : Release keys t k none t') :
    ∀ m ∈ t.waiting, k ∈ keys m → Clash keys (t.held \ {k}) m := by
  cases h
  assumption

lemma Clash.mono {held held' : Set κ} (h : Clash keys held m) (hs : held ⊆ held') :
    Clash keys held' m := by
  obtain ⟨k, hk, hh⟩ := h
  exact ⟨k, hk, hs hh⟩

lemma Arrive.waiting_add (h : Arrive keys t m o t') :
    t'.waiting + (o.toList : Multiset μ) = t.waiting + {m} := by
  cases h with
  | grant h => simp
  | wait h => simp [← Multiset.singleton_add, add_comm]

lemma Release.waiting_add (h : Release keys t k o t') :
    t'.waiting + (o.toList : Multiset μ) = t.waiting := by
  cases h with
  | pass hk hm h => simp [← Multiset.singleton_add, add_comm]
  | free hk h => simp

lemma Arrive.none_iff (h : Arrive keys t m o t') : o = none ↔ Clash keys t.held m := by
  cases h with
  | grant h => simp [h]
  | wait h => simp [h]

lemma Release.mem (h : Release keys t k o t') : k ∈ t.held := by
  cases h <;> assumption

def NoStranded (keys : μ → List κ) (t : Admission κ μ) : Prop :=
  ∀ m ∈ t.waiting, Clash keys t.held m

lemma Arrive.noStranded (h : Arrive keys t m o t') (ht : NoStranded keys t) :
    NoStranded keys t' := by
  cases h with
  | grant h => exact fun m' hm' => (ht m' hm').mono Set.subset_union_left
  | wait h =>
    intro m' hm'
    rcases Multiset.mem_cons.mp hm' with rfl | hm'
    · exact h
    · exact ht m' hm'

lemma Release.noStranded (h : Release keys t k o t') (ht : NoStranded keys t) :
    NoStranded keys t' := by
  cases h with
  | @pass held waiting k m hk hm h =>
    intro m' hm'
    apply (ht m' (Multiset.mem_cons_of_mem hm')).mono
    intro k' hk'
    by_cases he : k' = k
    · exact Or.inr (he ▸ hm)
    · exact Or.inl ⟨hk', he⟩
  | @free held waiting k hk h =>
    intro m' hm'
    by_cases hkm : k ∈ keys m'
    · exact h m' hm' hkm
    · obtain ⟨k', hk', hh⟩ := ht m' hm'
      exact ⟨k', hk', hh, by rintro rfl; exact hkm hk'⟩

def Needed (keys : μ → List κ) (t : Admission κ μ) (k : κ) : Prop :=
  k ∈ t.held ∨ ∃ m ∈ t.waiting, k ∈ keys m

lemma Arrive.needed {k : κ} (h : Arrive keys t m o t') :
    Needed keys t' k ↔ Needed keys t k ∨ k ∈ keys m := by
  cases h with
  | grant h => simp only [Needed, Set.mem_union, Set.mem_ofPred_eq, or_right_comm]
  | wait h => simp only [Needed, Multiset.mem_cons, exists_eq_or_imp, or_left_comm, or_comm]

lemma Release.needed {k' : κ} (h : Release keys t k o t') (hk : k' ≠ k) :
    Needed keys t' k' ↔ Needed keys t k' := by
  cases h with
  | pass hk' hm h =>
    simp only [Needed, Set.mem_union, Set.mem_sdiff, Set.mem_singleton_iff, hk, not_false_eq_true,
      and_true, Set.mem_ofPred_eq, Multiset.mem_cons, exists_eq_or_imp, or_assoc]
  | free hk' h => simp [Needed, hk]

def Accounted (t : Admission κ μ) (owned : Multiset κ) : Prop :=
  owned.Nodup ∧ ∀ k, k ∈ owned ↔ k ∈ t.held

lemma Arrive.accounted {owned : Multiset κ} (h : Arrive keys t m o t') (ht : Accounted t owned)
    (hm : (keys m).Nodup) : Accounted t' (owned + (o.toList.flatMap keys : Multiset κ)) := by
  cases h with
  | wait h => simpa [Accounted] using ht
  | grant h =>
    have hdis : Disjoint owned (keys m : Multiset κ) := by
      refine Multiset.disjoint_left.mpr fun {k} hk hkm => h ⟨k, by simpa using hkm, ?_⟩
      exact (ht.2 k).mp hk
    refine ⟨?_, fun k => ?_⟩
    · simpa [Multiset.nodup_add, hm, ht.1] using hdis
    · simpa using or_congr (ht.2 k) Iff.rfl

lemma Release.accounted {owned : Multiset κ} (h : Release keys t k o t')
    (ht : Accounted t (k ::ₘ owned)) (hm : ∀ m ∈ t.waiting, (keys m).Nodup) :
    Accounted t' (owned + (o.toList.flatMap keys : Multiset κ)) := by
  obtain ⟨hk, hn⟩ := Multiset.nodup_cons.mp ht.1
  have hrest : ∀ k', k' ∈ owned ↔ k' ∈ t.held \ {k} := by
    intro k'
    rw [Set.mem_sdiff, ← ht.2 k', Multiset.mem_cons]
    constructor
    · intro hk'
      exact ⟨Or.inr hk', by rintro rfl; exact hk hk'⟩
    · rintro ⟨rfl | hk', hne⟩
      · exact (hne rfl).elim
      · exact hk'
  cases h with
  | free _ h => simpa [Accounted] using ⟨hn, hrest⟩
  | @pass held waiting k m _ _ h =>
    have hdis : Disjoint owned (keys m : Multiset κ) := by
      refine Multiset.disjoint_left.mpr fun {k'} hk' hkm => h ⟨k', by simpa using hkm, ?_⟩
      exact (hrest k').mp hk'
    refine ⟨?_, fun k' => ?_⟩
    · simpa [Multiset.nodup_add, hn, hm m (Multiset.mem_cons_self m waiting)] using hdis
    · simpa using or_congr (hrest k') Iff.rfl

section ledger

variable [DecidableEq κ]

/-- Among the requests granted so far, those with `k` are one more than the releases of `k` while
`k` is held, and as many otherwise. -/
def Ledger (keys : μ → List κ) (t : Admission κ μ) (granted : List μ) (released : List κ) : Prop :=
  ∀ k, (k ∈ t.held → granted.countP (fun m => k ∈ keys m) = released.count k + 1) ∧
    (k ∉ t.held → granted.countP (fun m => k ∈ keys m) = released.count k)

variable {granted : List μ} {released : List κ}

lemma Arrive.ledger (h : Arrive keys t m o t') (ht : Ledger keys t granted released) :
    Ledger keys t' (granted ++ o.toList) released := by
  cases h with
  | wait h => simpa [Ledger] using ht
  | @grant held waiting m h =>
    intro k
    obtain ⟨h1, h0⟩ := ht k
    by_cases hkm : k ∈ keys m
    · have hk : k ∉ held := fun hk => h ⟨k, hkm, hk⟩
      simp [hkm, h0 hk]
    · simpa [hkm] using ⟨h1, h0⟩

lemma Release.ledger (h : Release keys t k o t') (ht : Ledger keys t granted released) :
    Ledger keys t' (granted ++ o.toList) (released ++ [k]) := by
  have hk := h.mem
  cases h with
  | @free held waiting k _ h =>
    intro k'
    obtain ⟨h1, h0⟩ := ht k'
    by_cases he : k' = k
    · subst he
      simpa using h1 hk
    · simpa [he, List.count_cons, Ne.symm he] using ⟨h1, h0⟩
  | @pass held waiting k m _ hm h =>
    intro k'
    obtain ⟨h1, h0⟩ := ht k'
    by_cases he : k' = k
    · subst he
      simpa [hm] using h1 hk
    · by_cases hkm : k' ∈ keys m
      · have hk' : k' ∉ held := fun hk' => h ⟨k', hkm, hk', he⟩
        simp [hkm, h0 hk', he, Ne.symm he]
      · simpa [he, hkm, List.count_cons, Ne.symm he] using ⟨h1, h0⟩

lemma Ledger.held_eq_empty (ht : Ledger keys t granted released)
    (h : (granted.flatMap keys : Multiset κ) ≤ released) : t.held = ∅ := by
  apply Set.eq_empty_of_forall_notMem
  intro k hk
  have hcount : granted.countP (fun m => k ∈ keys m) ≤ (granted.flatMap keys).count k := by
    clear ht h
    induction granted with
    | nil => simp
    | cons m ms ih =>
      by_cases hm : k ∈ keys m
      · have := List.count_pos_iff.mpr hm
        simp only [List.countP_cons, hm, List.flatMap_cons, List.count_append, decide_true, if_true]
        omega
      · simp only [List.countP_cons, hm, List.flatMap_cons, List.count_append, decide_false,
          Bool.false_eq_true, if_false]
        omega
  have hle := Multiset.count_le_of_le k h
  simp only [Multiset.coe_count] at hle
  have := (ht k).1 hk
  omega

end ledger

lemma NoStranded.waiting_eq_zero (ht : NoStranded keys t) (h : t.held = ∅) : t.waiting = 0 := by
  apply Multiset.eq_zero_of_forall_notMem
  intro m hm
  obtain ⟨k, _, hk⟩ := ht m hm
  simp [h] at hk

end Admission

end PaQueueAndChan.Library
