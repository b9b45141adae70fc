import Mathlib.Data.List.Infix

/-! Items that stand in lines, one line for each class. Who enters goes to the end of the line of
its class, and who leaves comes from its front. -/

namespace PaQueueAndChan.Library

variable {γ μ : Type*} [DecidableEq γ] {c : μ → γ} {g : γ} {m : μ} {l r : List μ}

def ofClass (c : μ → γ) (g : γ) (l : List μ) : List μ := l.filter fun m => c m = g

@[simp] lemma ofClass_nil : ofClass c g [] = [] := rfl

@[simp] lemma ofClass_append : ofClass c g (l ++ r) = ofClass c g l ++ ofClass c g r :=
  List.filter_append ..

lemma ofClass_singleton : ofClass c g [m] = if c m = g then [m] else [] := by
  by_cases h : c m = g <;> simp [ofClass, h]

lemma mem_ofClass : m ∈ ofClass c g l ↔ m ∈ l ∧ c m = g := by
  simp [ofClass]

lemma ofClass_eq_nil (h : ∀ m ∈ l, c m ≠ g) : ofClass c g l = [] :=
  List.filter_eq_nil_iff.mpr fun m hm => by simpa using h m hm

lemma perm_of_ofClass (h : ∀ g, ofClass c g l = ofClass c g r) : l.Perm r := by
  classical
  refine List.perm_iff_count.mpr fun m => ?_
  have hcount : ∀ l : List μ, (ofClass c (c m) l).count m = l.count m := fun l =>
    List.count_filter (by simp)
  rw [← hcount l, ← hcount r, h (c m)]

def InOrder (c : μ → γ) (line : γ → List μ) (entered gone : List μ) : Prop :=
  ∀ g, ofClass c g entered = ofClass c g gone ++ line g

variable {line line' : γ → List μ} {entered gone : List μ}

lemma inOrder_nil (h : ∀ g, line g = []) : InOrder c line [] [] := fun g => by simp [h g]

lemma InOrder.move (ho : InOrder c line entered gone)
    (h : ∀ g, line g ++ ofClass c g l = ofClass c g r ++ line' g) :
    InOrder c line' (entered ++ l) (gone ++ r) := by
  intro g
  rw [ofClass_append, ho g, List.append_assoc, h g, ofClass_append, List.append_assoc]

lemma InOrder.enter (ho : InOrder c line entered gone)
    (h : ∀ g, line' g = line g ++ ofClass c g l) : InOrder c line' (entered ++ l) gone := by
  simpa using ho.move (r := []) fun g => (by simpa using (h g).symm)

lemma InOrder.leave (ho : InOrder c line entered gone)
    (h : ∀ g, line g = ofClass c g l ++ line' g) : InOrder c line' entered (gone ++ l) := by
  simpa using ho.move (l := []) fun g => (by simpa using h g)

lemma InOrder.isPrefix (ho : InOrder c line entered gone) (g : γ) :
    ofClass c g gone <+: ofClass c g entered := ⟨line g, (ho g).symm⟩

end PaQueueAndChan.Library
