import Mathlib.Data.List.Forall2

/-! Computations that may panic: how an answer of a sequence comes from the answers of its parts. -/

namespace PaQueueAndChan.Library

variable {ε α β : Type} {e : ε}

@[simp] lemma bind_eq_ok {x : Except ε α} {f : α → Except ε β} {b : β} :
    (x >>= f) = .ok b ↔ ∃ a, x = .ok a ∧ f a = .ok b := by
  cases x <;> simp [bind, Except.bind]

@[simp] lemma bind_eq_error {x : Except ε α} {f : α → Except ε β} :
    (x >>= f) = .error e ↔ x = .error e ∨ ∃ a, x = .ok a ∧ f a = .error e := by
  cases x <;> simp [bind, Except.bind]

@[simp] lemma pure_eq_ok {a b : α} : (pure a : Except ε α) = .ok b ↔ a = b := by
  simp [pure, Except.pure]

@[simp] lemma pure_ne_error {a : α} : (pure a : Except ε α) ≠ .error e := by
  simp [pure, Except.pure]

lemma foldlM_ne_error {f : α → β → Except ε α} {I : α → List β → Prop}
    (hf : ∀ a b bs, I a (b :: bs) → ∃ a', f a b = .ok a' ∧ I a' bs) {a : α} {bs : List β}
    (h : I a bs) : bs.foldlM f a ≠ .error e := by
  induction bs generalizing a with
  | nil => exact pure_ne_error
  | cons b bs ih =>
    obtain ⟨a', ha, hi⟩ := hf a b bs h
    simp only [List.foldlM_cons, ne_eq, bind_eq_error, ha, reduceCtorEq, false_or, Except.ok.injEq,
      exists_eq_left']
    exact ih hi

lemma mapM_eq_ok {f : α → Except ε β} {as : List α} {bs : List β} :
    as.mapM f = .ok bs ↔ List.Forall₂ (fun a b => f a = .ok b) as bs := by
  induction as generalizing bs with
  | nil => rw [List.mapM_nil, pure_eq_ok, List.forall₂_nil_left_iff, eq_comm]
  | cons a as ih =>
    simp only [List.mapM_cons, bind_eq_ok, pure_eq_ok, List.forall₂_cons_left_iff, ih]
    constructor
    · rintro ⟨b, hb, bs', hbs, rfl⟩
      exact ⟨b, bs', hb, hbs, rfl⟩
    · rintro ⟨b, bs', hb, hbs, rfl⟩
      exact ⟨b, hb, bs', hbs, rfl⟩

lemma mapM_congr {f g : α → Except ε β} {as : List α} (h : ∀ a ∈ as, f a = g a) :
    as.mapM f = as.mapM g := by
  induction as with
  | nil => rfl
  | cons a as ih =>
    rw [List.mapM_cons, List.mapM_cons, h a (List.mem_cons_self ..),
      ih fun a' ha' => h a' (List.mem_cons_of_mem a ha')]

end PaQueueAndChan.Library
