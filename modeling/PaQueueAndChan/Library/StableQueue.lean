import Mathlib.Data.List.Lemmas
import Mathlib.Order.Basic
import PaQueueAndChan.Library.Lines

/-! Stable priority queues. The reference keeps what is present in the order of the insertions; to
empty it is to sort it stably. Other queues are compared with it by what they answer to the same
operations. -/

namespace PaQueueAndChan.Library

section first

variable {μ π : Type*} [LinearOrder π] (key : μ → π)

def least (l : List μ) (m : μ) : Bool := l.all fun m' => decide (key m ≤ key m')

/-- The earliest of those with the least key, and what is left without it. -/
def popFirst (l : List μ) : Option μ × List μ := (l.find? (least key l), l.eraseP (least key l))

def keyLe (m m' : μ) : Bool := decide (key m ≤ key m')

def stableSort (l : List μ) : List μ := l.mergeSort (keyLe key)

variable {key} {l l' l₁ l₂ : List μ} {m : μ}

lemma least_iff : least key l m = true ↔ ∀ m' ∈ l, key m ≤ key m' := by simp [least]

variable (key) in
lemma exists_least (hl : l ≠ []) : ∃ m ∈ l, ∀ m' ∈ l, key m ≤ key m' := by
  induction l with
  | nil => exact (hl rfl).elim
  | cons a l ih =>
    by_cases hnil : l = []
    · exact ⟨a, List.mem_cons_self .., by simp [hnil]⟩
    · obtain ⟨m, hm, hle⟩ := ih hnil
      rcases le_total (key a) (key m) with h | h
      · refine ⟨a, List.mem_cons_self .., fun m' hm' => ?_⟩
        rcases List.mem_cons.mp hm' with rfl | hm'
        · exact le_rfl
        · exact h.trans (hle m' hm')
      · refine ⟨m, List.mem_cons_of_mem a hm, fun m' hm' => ?_⟩
        rcases List.mem_cons.mp hm' with rfl | hm'
        · exact h
        · exact hle m' hm'

structure IsFirst (key : μ → π) (l₁ : List μ) (m : μ) (l₂ : List μ) : Prop where
  least : ∀ m' ∈ l₁ ++ m :: l₂, key m ≤ key m'
  first : ∀ m' ∈ l₁, key m' ≠ key m

variable (key) in
lemma popFirst_of_ne_nil (hl : l ≠ []) : ∃ l₁ m l₂, l = l₁ ++ m :: l₂ ∧ IsFirst key l₁ m l₂ ∧
    popFirst key l = (some m, l₁ ++ l₂) := by
  obtain ⟨m₀, hm₀, hle₀⟩ := exists_least key hl
  cases hf : l.find? (Library.least key l) with
  | none => exact (List.find?_eq_none.mp hf m₀ hm₀ (least_iff.mpr hle₀)).elim
  | some m =>
    obtain ⟨hm, l₁, l₂, hsplit, hl₁⟩ := List.find?_eq_some_iff_append.mp hf
    have hle := least_iff.mp hm
    have hnot : ∀ m' ∈ l₁, ¬ Library.least key l m' = true := fun m' hm' => by
      simpa using hl₁ m' hm'
    refine ⟨l₁, m, l₂, hsplit, ⟨hsplit ▸ hle, fun m' hm' he => ?_⟩, ?_⟩
    · exact hnot m' hm' (least_iff.mpr fun m'' hm'' => he ▸ hle m'' hm'')
    · rw [popFirst, hf]
      refine congrArg (Prod.mk (some m)) ?_
      conv_lhs => rw [hsplit]
      rw [List.eraseP_append_right _ (by rw [← hsplit]; exact hnot),
        List.eraseP_cons_of_pos (by rw [← hsplit]; exact hm)]

lemma IsFirst.ofClass_key (h : IsFirst key l₁ m l₂) :
    ofClass key (key m) (l₁ ++ m :: l₂) = m :: ofClass key (key m) (l₁ ++ l₂) := by
  have hl₁ : ofClass key (key m) l₁ = [] := ofClass_eq_nil h.first
  rw [ofClass_append, ofClass_append, hl₁]
  simp [ofClass]

lemma ofClass_of_ne {p : π} (h : p ≠ key m) :
    ofClass key p (l₁ ++ m :: l₂) = ofClass key p (l₁ ++ l₂) := by
  simp [ofClass, h.symm]

lemma eq_of_ofClass (hs : l.Pairwise fun m m' => key m ≤ key m')
    (hs' : l'.Pairwise fun m m' => key m ≤ key m')
    (hc : ∀ p, ofClass key p l = ofClass key p l') : l = l' := by
  have hmem : ∀ x, x ∈ l ↔ x ∈ l' := fun x => by
    have hx := congrArg (x ∈ ·) (hc (key x))
    simpa [mem_ofClass] using hx
  induction l generalizing l' with
  | nil =>
    refine (List.eq_nil_iff_forall_not_mem.mpr fun x hx => ?_).symm
    simpa using (hmem x).mpr hx
  | cons x l ih =>
    cases l' with
    | nil => simpa using (hmem x).mp (List.mem_cons_self ..)
    | cons y l' =>
      obtain ⟨hx, hl⟩ := List.pairwise_cons.mp hs
      obtain ⟨hy, hl'⟩ := List.pairwise_cons.mp hs'
      have hxy : key x = key y := by
        refine le_antisymm ?_ ?_
        · rcases List.mem_cons.mp ((hmem y).mpr (List.mem_cons_self ..)) with rfl | h
          · exact le_rfl
          · exact hx y h
        · rcases List.mem_cons.mp ((hmem x).mp (List.mem_cons_self ..)) with rfl | h
          · exact le_rfl
          · exact hy x h
      have hhead := hc (key x)
      simp only [ofClass, List.filter_cons, hxy, decide_true, if_true, List.cons.injEq] at hhead
      obtain ⟨rfl, -⟩ := hhead
      have htail : ∀ p, ofClass key p l = ofClass key p l' := by
        intro p
        have hp := hc p
        simp only [ofClass, List.filter_cons] at hp
        split_ifs at hp
        · exact (List.cons.inj hp).2
        · exact hp
      rw [ih hl hl' htail fun z => ?_]
      have hz := congrArg (z ∈ ·) (htail (key z))
      simpa [mem_ofClass] using hz

variable (key) in
lemma keyLe_trans (a b c : μ) (hab : keyLe key a b = true) (hbc : keyLe key b c = true) :
    keyLe key a c = true := by
  simp only [keyLe, decide_eq_true_eq] at *
  exact hab.trans hbc

variable (key) in
lemma keyLe_total (a b : μ) : (keyLe key a b || keyLe key b a) = true := by
  simpa [keyLe] using le_total (key a) (key b)

lemma stableSort_pairwise (l : List μ) :
    (stableSort key l).Pairwise fun m m' => key m ≤ key m' := by
  have h := List.pairwise_mergeSort (keyLe_trans key) (keyLe_total key) l
  simpa only [stableSort, keyLe, decide_eq_true_eq] using h

lemma ofClass_stableSort (l : List μ) (p : π) :
    ofClass key p (stableSort key l) = ofClass key p l := by
  have hclass : (ofClass key p l).Pairwise fun m m' => keyLe key m m' = true := by
    refine List.pairwise_of_forall_mem_list fun m hm m' hm' => ?_
    rw [keyLe, (mem_ofClass.mp hm).2, (mem_ofClass.mp hm').2]
    simp
  have hsub : (ofClass key p l).Sublist (stableSort key l) :=
    List.sublist_mergeSort (keyLe_trans key) (keyLe_total key) hclass List.filter_sublist
  have hsub : (ofClass key p l).Sublist (ofClass key p (stableSort key l)) := by
    have h := hsub.filter fun m => decide (key m = p)
    simpa [ofClass, List.filter_filter] using h
  have hperm : (ofClass key p (stableSort key l)).Perm (ofClass key p l) :=
    (List.mergeSort_perm l _).filter _
  exact (hsub.eq_of_length hperm.length_eq.symm).symm

lemma IsFirst.stableSort (h : IsFirst key l₁ m l₂) :
    stableSort key (l₁ ++ m :: l₂) = m :: stableSort key (l₁ ++ l₂) := by
  refine eq_of_ofClass (stableSort_pairwise _) (List.pairwise_cons.mpr ⟨fun m' hm' => ?_,
    stableSort_pairwise _⟩) fun p => ?_
  · have hmem : m' ∈ l₁ ++ l₂ := List.mem_mergeSort.mp hm'
    refine h.least m' ?_
    rcases List.mem_append.mp hmem with hm' | hm'
    · exact List.mem_append_left _ hm'
    · exact List.mem_append_right _ (List.mem_cons_of_mem m hm')
  · rw [ofClass_stableSort]
    by_cases hp : p = key m
    · subst hp
      rw [h.ofClass_key, ← ofClass_stableSort (l₁ ++ l₂)]
      simp [ofClass]
    · rw [ofClass_of_ne hp, ← ofClass_stableSort (l₁ ++ l₂)]
      simp [ofClass, Ne.symm hp]

end first

structure PrioQueue (σ ι π : Type*) where
  push : σ → ι → π → σ
  pop : σ → Option ι × σ

inductive Op (ι π : Type*)
  | push (i : ι) (p : π)
  | pop

namespace PrioQueue

variable {σ τ ι π : Type*}

def exec (Q : PrioQueue σ ι π) : σ → List (Op ι π) → List (Option ι) × σ
  | s, [] => ([], s)
  | s, .push i p :: ops => Q.exec (Q.push s i p) ops
  | s, .pop :: ops => ((Q.pop s).1 :: (Q.exec (Q.pop s).2 ops).1, (Q.exec (Q.pop s).2 ops).2)

variable {Q : PrioQueue σ ι π} {Q' : PrioQueue τ ι π} {s : σ} {t : τ}

lemma exec_append (ops ops' : List (Op ι π)) : Q.exec s (ops ++ ops') =
    ((Q.exec s ops).1 ++ (Q.exec (Q.exec s ops).2 ops').1, (Q.exec (Q.exec s ops).2 ops').2) := by
  induction ops generalizing s with
  | nil => rfl
  | cons op ops ih => cases op <;> simp [exec, ih]

structure Sim (Q : PrioQueue σ ι π) (Q' : PrioQueue τ ι π) (R : σ → τ → Prop) : Prop where
  push : ∀ {s t} i p, R s t → R (Q.push s i p) (Q'.push t i p)
  pop : ∀ {s t}, R s t → (Q.pop s).1 = (Q'.pop t).1 ∧ R (Q.pop s).2 (Q'.pop t).2

lemma Sim.exec {R : σ → τ → Prop} (h : Sim Q Q' R) (hst : R s t) (ops : List (Op ι π)) :
    (Q.exec s ops).1 = (Q'.exec t ops).1 ∧ R (Q.exec s ops).2 (Q'.exec t ops).2 := by
  induction ops generalizing s t with
  | nil => exact ⟨rfl, hst⟩
  | cons op ops ih =>
    cases op with
    | push i p => exact ih (h.push i p hst)
    | pop =>
      obtain ⟨hanswer, hnext⟩ := h.pop hst
      obtain ⟨hanswers, hlast⟩ := ih hnext
      exact ⟨by rw [PrioQueue.exec, PrioQueue.exec, hanswer, hanswers], hlast⟩

variable [LinearOrder π]

/-- The reference: items with their priorities, in the order of the pushes. -/
def reference (ι π : Type*) [LinearOrder π] : PrioQueue (List (ι × π)) ι π where
  push l i p := l ++ [(i, p)]
  pop l := ((popFirst Prod.snd l).1.map Prod.fst, (popFirst Prod.snd l).2)

lemma reference_pop (l : List (ι × π)) : (reference ι π).pop l =
    ((popFirst Prod.snd l).1.map Prod.fst, (popFirst Prod.snd l).2) := rfl

lemma reference_pop_eq_none {l : List (ι × π)} : ((reference ι π).pop l).1 = none ↔ l = [] := by
  refine ⟨fun h => ?_, fun h => h ▸ rfl⟩
  by_contra hl
  obtain ⟨_, m, _, -, -, hpop⟩ := popFirst_of_ne_nil Prod.snd hl
  simp [reference_pop, hpop] at h

def present (ops : List (Op ι π)) : List (ι × π) := ((reference ι π).exec [] ops).2

lemma reference_pushes (l items : List (ι × π)) :
    (reference ι π).exec l (items.map fun e => .push e.1 e.2) = ([], l ++ items) := by
  induction items generalizing l with
  | nil => simp [exec]
  | cons e items ih =>
    rw [List.map_cons, exec, ih, reference, List.append_assoc]
    rfl

lemma reference_pops_nil (n : ℕ) :
    ((reference ι π).exec [] (List.replicate n .pop)).1 = List.replicate n none := by
  induction n with
  | zero => rfl
  | succ n ih =>
    rw [List.replicate_succ, List.replicate_succ, exec]
    exact congrArg (none :: ·) ih

lemma reference_pops (l : List (ι × π)) (n : ℕ) :
    ((reference ι π).exec l (List.replicate (l.length + n) .pop)).1 =
      (stableSort Prod.snd l).map (fun e => some e.1) ++ List.replicate n none := by
  induction hl : l.length generalizing l with
  | zero =>
    obtain rfl := List.length_eq_zero_iff.mp hl
    rw [Nat.zero_add, reference_pops_nil, stableSort, List.mergeSort_nil]
    rfl
  | succ k ih =>
    obtain ⟨l₁, m, l₂, rfl, hfirst, hpop⟩ := popFirst_of_ne_nil Prod.snd
      (List.ne_nil_of_length_eq_add_one hl)
    have hlen : (l₁ ++ l₂).length = k := by
      simp only [List.length_append, List.length_cons] at hl ⊢
      omega
    have hstep : (reference ι π).pop (l₁ ++ m :: l₂) = (some m.1, l₁ ++ l₂) := by
      rw [reference_pop, hpop, Option.map_some]
    rw [Nat.add_right_comm, List.replicate_succ, exec, hstep, ih _ hlen, hfirst.stableSort]
    rfl

end PrioQueue

end PaQueueAndChan.Library
