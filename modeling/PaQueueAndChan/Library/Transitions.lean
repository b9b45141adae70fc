import Mathlib.Algebra.BigOperators.Group.List.Basic
import Mathlib.Algebra.Order.Monoid.Defs
import Mathlib.Data.List.Basic
import Mathlib.Data.Option.Basic

/-! Guarded transition systems. A schedule is a list of actions; `run` replays it and stops at
the first action that is not enabled. The rules below are the only inductions over schedules. -/

namespace PaQueueAndChan.Library

variable {σ α : Type*} (step : σ → α → Option σ)

def run (s : σ) (as : List α) : Option σ := as.foldlM step s

def trace {β : Type*} (f : σ → α → List β) : σ → List α → List β
  | _, [] => []
  | s, a :: as =>
    match step s a with
    | some t => f s a ++ trace f t as
    | none => []

/-- `P` holds of every state that an initial part of the schedule reaches. -/
def Always (P : σ → Prop) : σ → List α → Prop
  | s, [] => P s
  | s, a :: as => P s ∧ ∀ s', step s a = some s' → Always P s' as

/-- Every step that the schedule takes meets `C`, judged in the state before it. -/
def EachStep (C : σ → α → Prop) : σ → List α → Prop
  | _, [] => True
  | s, a :: as => ∀ s', step s a = some s' → C s a ∧ EachStep C s' as

/-- Every action that the schedule tries meets `C`, the one that is not enabled included. -/
def EachTry (C : σ → α → Prop) : σ → List α → Prop
  | _, [] => True
  | s, a :: as => C s a ∧ ∀ s', step s a = some s' → EachTry C s' as

variable {step}

@[simp] lemma run_nil (s : σ) : run step s [] = some s := rfl

@[simp] lemma run_cons (s : σ) (a : α) (as : List α) :
    run step s (a :: as) = (step s a).bind (fun t => run step t as) := rfl

lemma run_cons_some {s u : σ} {a : α} {as : List α} (h : run step s (a :: as) = some u) :
    ∃ t, step s a = some t ∧ run step t as = some u := by
  simpa only [run_cons, Option.bind_eq_some_iff] using h

lemma run_append {s t : σ} {as bs : List α} (h : run step s as = some t) :
    run step s (as ++ bs) = run step t bs := by
  induction as generalizing s with
  | nil =>
    obtain rfl := Option.some.inj h
    rfl
  | cons a as ih =>
    obtain ⟨u, hu, hr⟩ := run_cons_some h
    rw [List.cons_append, run_cons, hu, Option.bind_some, ih hr]

lemma run_append_some {s u : σ} {as bs : List α} (h : run step s (as ++ bs) = some u) :
    ∃ t, run step s as = some t ∧ run step t bs = some u := by
  rw [run, List.foldlM_append] at h
  exact Option.bind_eq_some_iff.mp h

lemma trace_cons {β : Type*} {f : σ → α → List β} {s t : σ} {a : α} {as : List α}
    (h : step s a = some t) : trace step f s (a :: as) = f s a ++ trace step f t as := by
  rw [trace, h]

lemma Always.head {P : σ → Prop} {s : σ} {as : List α} (h : Always step P s as) : P s := by
  cases as with
  | nil => exact h
  | cons a as => exact h.1

lemma Always.last {P : σ → Prop} {s t : σ} {as : List α} (hp : Always step P s as)
    (h : run step s as = some t) : P t := by
  induction as generalizing s with
  | nil =>
    obtain rfl := Option.some.inj h
    exact hp
  | cons a as ih =>
    obtain ⟨u, hu, hr⟩ := run_cons_some h
    exact ih (hp.2 u hu) hr

lemma run_invariant_of_mem {I : σ → Prop} {A : α → Prop}
    (hstep : ∀ s a t, A a → I s → step s a = some t → I t)
    {s t : σ} {as : List α} (hA : ∀ a ∈ as, A a) (hs : I s) (h : run step s as = some t) : I t := by
  induction as generalizing s with
  | nil =>
    obtain rfl := Option.some.inj h
    exact hs
  | cons a as ih =>
    obtain ⟨u, hu, hr⟩ := run_cons_some h
    exact ih (fun b hb => hA b (List.mem_cons_of_mem a hb))
      (hstep s a u (hA a (List.mem_cons_self ..)) hs hu) hr

lemma run_invariant {I : σ → Prop} (hstep : ∀ s a t, I s → step s a = some t → I t)
    {s t : σ} {as : List α} (hs : I s) (h : run step s as = some t) : I t :=
  run_invariant_of_mem (A := fun _ => True) (fun s a t _ => hstep s a t) (fun _ _ => trivial) hs h

lemma run_sum {M : Type*} [AddCommMonoid M] {I : σ → Prop} {f : σ → M} {g : α → M}
    (hstep : ∀ s a t, I s → step s a = some t → I t ∧ f t = f s + g a) {s t : σ} {as : List α}
    (hs : I s) (h : run step s as = some t) : f t = f s + (as.map g).sum := by
  induction as generalizing s with
  | nil =>
    obtain rfl := Option.some.inj h
    simp
  | cons a as ih =>
    obtain ⟨u, hu, hr⟩ := run_cons_some h
    obtain ⟨hi, hf⟩ := hstep s a u hs hu
    rw [ih hi hr, hf, List.map_cons, List.sum_cons, add_assoc]

lemma always_of_invariant {I P : σ → Prop} (hstep : ∀ s a t, I s → step s a = some t → I t)
    (hP : ∀ s, I s → P s) {s : σ} (as : List α) (hs : I s) : Always step P s as := by
  induction as generalizing s with
  | nil => exact hP s hs
  | cons a as ih => exact ⟨hP s hs, fun t ht => ih (hstep s a t hs ht)⟩

lemma eachStep_cons {C : σ → α → Prop} {s t : σ} {a : α} {as : List α} (h : step s a = some t)
    (hc : C s a) (ht : EachStep step C t as) : EachStep step C s (a :: as) := by
  intro u hu
  obtain rfl := Option.some.inj (h.symm.trans hu)
  exact ⟨hc, ht⟩

instance decidableAlways {P : σ → Prop} [DecidablePred P] :
    ∀ (s : σ) (as : List α), Decidable (Always step P s as)
  | s, [] => decidable_of_iff (P s) Iff.rfl
  | s, a :: as =>
    match h : step s a with
    | none => decidable_of_iff (P s) (by simp [Always, h])
    | some t =>
      have : Decidable (Always step P t as) := decidableAlways t as
      decidable_of_iff (P s ∧ Always step P t as) (by simp [Always, h])

instance decidableEachStep {C : σ → α → Prop} [∀ s a, Decidable (C s a)] :
    ∀ (s : σ) (as : List α), Decidable (EachStep step C s as)
  | _, [] => isTrue trivial
  | s, a :: as =>
    match h : step s a with
    | none => isTrue (by simp [EachStep, h])
    | some t =>
      have : Decidable (EachStep step C t as) := decidableEachStep t as
      decidable_of_iff (C s a ∧ EachStep step C t as) (by simp [EachStep, h])

lemma always_of_eachStep {I P : σ → Prop} {C : σ → α → Prop}
    (hstep : ∀ s a t, I s → C s a → step s a = some t → I t) (hP : ∀ s, I s → P s) {s : σ}
    (as : List α) (hs : I s) (hc : EachStep step C s as) : Always step P s as := by
  induction as generalizing s with
  | nil => exact hP s hs
  | cons a as ih =>
    refine ⟨hP s hs, fun t ht => ?_⟩
    obtain ⟨ha, hr⟩ := hc t ht
    exact ih (hstep s a t hs ha ht) hr

lemma EachTry.of_run {C : σ → α → Prop} {s t : σ} {as bs : List α}
    (h : EachTry step C s (as ++ bs)) (hr : run step s as = some t) : EachTry step C t bs := by
  induction as generalizing s with
  | nil =>
    obtain rfl := Option.some.inj hr
    exact h
  | cons a as ih =>
    obtain ⟨u, hu, hr⟩ := run_cons_some hr
    exact ih (h.2 u hu) hr

lemma eachTry_iff {I : σ → Prop} {C D : σ → α → Prop} (hCD : ∀ s a, I s → (C s a ↔ D s a))
    (hinv : ∀ s a t, I s → D s a → step s a = some t → I t) {s : σ} (as : List α) (hs : I s) :
    EachTry step C s as ↔ EachTry step D s as := by
  induction as generalizing s with
  | nil => rfl
  | cons a as ih =>
    have hiff := hCD s a hs
    constructor
    · rintro ⟨hc, hr⟩
      exact ⟨hiff.mp hc, fun t ht => (ih (hinv s a t hs (hiff.mp hc) ht)).mp (hr t ht)⟩
    · rintro ⟨hd, hr⟩
      exact ⟨hiff.mpr hd, fun t ht => (ih (hinv s a t hs hd ht)).mpr (hr t ht)⟩

lemma run_invariant_while {I Q : σ → Prop}
    (hstep : ∀ s a t, I s → step s a = some t → Q t → I t) {s t : σ} {as : List α} (hs : I s)
    (hq : Always step Q s as) (h : run step s as = some t) : I t := by
  induction as generalizing s with
  | nil =>
    obtain rfl := Option.some.inj h
    exact hs
  | cons a as ih =>
    obtain ⟨u, hu, hr⟩ := run_cons_some h
    have hq := hq.2 u hu
    exact ih (hstep s a u hs hu hq.head) hq hr

lemma run_add_le {M : Type*} [AddCommMonoid M] [PartialOrder M] [IsOrderedAddMonoid M]
    {I : σ → Prop} {f : σ → M} {g h : α → M}
    (hstep : ∀ s a t, I s → step s a = some t → I t ∧ f t + g a ≤ f s + h a) {s t : σ}
    {as : List α} (hs : I s) (hrun : run step s as = some t) :
    f t + (as.map g).sum ≤ f s + (as.map h).sum := by
  induction as generalizing s with
  | nil =>
    obtain rfl := Option.some.inj hrun
    exact le_refl _
  | cons a as ih =>
    obtain ⟨u, hu, hr⟩ := run_cons_some hrun
    obtain ⟨hi, hle⟩ := hstep s a u hs hu
    rw [List.map_cons, List.sum_cons, List.map_cons, List.sum_cons]
    calc f t + (g a + (as.map g).sum) = f t + (as.map g).sum + g a := by
          rw [add_comm (g a), add_assoc]
      _ ≤ f u + (as.map h).sum + g a := add_le_add_left (ih hi hr) (g a)
      _ = f u + g a + (as.map h).sum := add_right_comm ..
      _ ≤ f s + h a + (as.map h).sum := add_le_add_left hle _
      _ = f s + (h a + (as.map h).sum) := add_assoc ..

lemma run_length_le {I : σ → Prop} {C : σ → α → Prop} {f : σ → ℕ}
    (hstep : ∀ s a t, I s → C s a → step s a = some t → I t ∧ f t < f s) {s t : σ} {as : List α}
    (hs : I s) (hc : EachStep step C s as) (h : run step s as = some t) :
    I t ∧ as.length + f t ≤ f s := by
  induction as generalizing s with
  | nil =>
    obtain rfl := Option.some.inj h
    exact ⟨hs, Nat.le_of_eq (Nat.zero_add _)⟩
  | cons a as ih =>
    obtain ⟨u, hu, hr⟩ := run_cons_some h
    obtain ⟨ha, hc⟩ := hc u hu
    obtain ⟨hi, hlt⟩ := hstep s a u hs ha hu
    obtain ⟨ht, hle⟩ := ih hi hc hr
    refine ⟨ht, ?_⟩
    rw [List.length_cons]
    omega

lemma run_flow {β : Type*} {I : σ → Prop} {R : List β → List β → Prop} (hrefl : ∀ l, R l l)
    (htrans : ∀ {l₁ l₂ l₃}, R l₁ l₂ → R l₂ l₃ → R l₁ l₃)
    (hl : ∀ {l₁ l₂} l, R l₁ l₂ → R (l ++ l₁) (l ++ l₂))
    (hr : ∀ {l₁ l₂} l, R l₁ l₂ → R (l₁ ++ l) (l₂ ++ l)) {f : σ → List β} {inp out : σ → α → List β}
    (hstep : ∀ s a t, I s → step s a = some t → I t ∧ R (out s a ++ f t) (f s ++ inp s a)) {s t : σ}
    {as : List α} (hs : I s) (h : run step s as = some t) :
    R (trace step out s as ++ f t) (f s ++ trace step inp s as) := by
  induction as generalizing s with
  | nil =>
    obtain rfl := Option.some.inj h
    simpa [trace] using hrefl (f s)
  | cons a as ih =>
    obtain ⟨u, hu, hrun⟩ := run_cons_some h
    obtain ⟨hi, hR⟩ := hstep s a u hs hu
    have htail := hl (out s a) (ih hi hrun)
    have hhead := hr (trace step inp u as) hR
    rw [← List.append_assoc] at htail
    rw [List.append_assoc, List.append_assoc] at hhead
    rw [trace_cons hu, trace_cons hu]
    exact htrans htail hhead

lemma run_outflow {β : Type*} {I : σ → Prop} {C : σ → α → Prop} {f : σ → List β}
    {out : σ → α → List β}
    (hstep : ∀ s a t, I s → C s a → step s a = some t → I t ∧ out s a ++ f t = f s) {s t : σ}
    {as : List α} (hs : I s) (hc : EachStep step C s as) (h : run step s as = some t) :
    trace step out s as ++ f t = f s := by
  induction as generalizing s with
  | nil =>
    obtain rfl := Option.some.inj h
    rfl
  | cons a as ih =>
    obtain ⟨u, hu, hrun⟩ := run_cons_some h
    obtain ⟨ha, hc⟩ := hc u hu
    obtain ⟨hi, hout⟩ := hstep s a u hs ha hu
    rw [trace_cons hu, List.append_assoc, ih hi hc hrun, hout]

lemma run_recorded {β M : Type*} [AddCommMonoid M] {f : σ → M} {r : σ → α → List β}
    {g : List β → M} (hnil : g [] = 0) (happend : ∀ l l', g (l ++ l') = g l + g l')
    (hstep : ∀ s a t, step s a = some t → f t = f s + g (r s a)) {s t : σ} {as : List α}
    (h : run step s as = some t) : f t = f s + g (trace step r s as) := by
  induction as generalizing s with
  | nil =>
    obtain rfl := Option.some.inj h
    rw [trace, hnil, add_zero]
  | cons a as ih =>
    obtain ⟨u, hu, hrun⟩ := run_cons_some h
    rw [trace_cons hu, happend, ih hrun, hstep s a u hu, add_assoc]

lemma trace_map {β γ : Type*} {g : List β → List γ} (hnil : g [] = [])
    (happend : ∀ l l', g (l ++ l') = g l ++ g l') {f : σ → α → List β} (s : σ) (as : List α) :
    g (trace step f s as) = trace step (fun s a => g (f s a)) s as := by
  induction as generalizing s with
  | nil => exact hnil
  | cons a as ih =>
    unfold trace
    cases step s a with
    | none => exact hnil
    | some t => exact (happend ..).trans (congrArg _ (ih t))

lemma run_simulated {τ β γ : Type*} {step' : τ → β → Option τ} {R : List γ → σ → τ → Prop}
    {r : σ → α → List γ}
    (hstep : ∀ l s v a s', R l s v → step s a = some s' →
      ∃ bs v', run step' v bs = some v' ∧ R (l ++ r s a) s' v') {l : List γ} {s s' : σ} {v : τ}
    {as : List α} (hR : R l s v) (h : run step s as = some s') :
    ∃ bs v', run step' v bs = some v' ∧ R (l ++ trace step r s as) s' v' := by
  induction as generalizing l s v with
  | nil =>
    obtain rfl := Option.some.inj h
    exact ⟨[], v, rfl, by rwa [trace, List.append_nil]⟩
  | cons a as ih =>
    obtain ⟨t, ht, hrun⟩ := run_cons_some h
    obtain ⟨bs, u, hbs, hu⟩ := hstep l s v a t hR ht
    obtain ⟨cs, v', hcs, hv'⟩ := ih hu hrun
    refine ⟨bs ++ cs, v', (run_append hbs).trans hcs, ?_⟩
    rwa [trace_cons ht, ← List.append_assoc]

lemma always_iff_eachStep {I P : σ → Prop} {C : σ → α → Prop}
    (hinv : ∀ s a t, I s → step s a = some t → I t)
    (hstep : ∀ s a t, I s → P s → step s a = some t → (P t ↔ C s a))
    {s : σ} (as : List α) (hs : I s) (hp : P s) :
    Always step P s as ↔ EachStep step C s as := by
  induction as generalizing s with
  | nil => exact ⟨fun _ => trivial, fun _ => hp⟩
  | cons a as ih =>
    constructor
    · rintro ⟨_, h⟩ t ht
      have hpt := (h t ht).head
      exact ⟨(hstep s a t hs hp ht).mp hpt, (ih (hinv s a t hs ht) hpt).mp (h t ht)⟩
    · intro h
      refine ⟨hp, fun t ht => ?_⟩
      obtain ⟨hc, hr⟩ := h t ht
      exact (ih (hinv s a t hs ht) ((hstep s a t hs hp ht).mpr hc)).mpr hr

/-- Schedules that look the same under `f` differ in choices that nobody controls. All of them are
good exactly when all their steps meet `C`, if `C` keeps a good state good and whatever violates it
could have chosen a bad state. -/
lemma forall_always_iff {β : Type*} (f : α → β) {I P : σ → Prop} {A : β → Prop} {C : σ → α → Prop}
    (hinv : ∀ s a t, A (f a) → I s → P s → C s a → step s a = some t → I t ∧ P t)
    (hbad : ∀ s a t, A (f a) → I s → P s → ¬ C s a → step s a = some t →
      ∃ b t', f b = f a ∧ step s b = some t' ∧ ¬ P t')
    {s : σ} {as : List α} (hA : ∀ a ∈ as, A (f a)) (hs : I s) (hp : P s) :
    (∀ bs : List α, bs.map f = as.map f → Always step P s bs) ↔
      ∀ bs : List α, bs.map f = as.map f → EachStep step C s bs := by
  induction as generalizing s with
  | nil =>
    constructor
    · rintro - bs hbs
      obtain rfl := List.map_eq_nil_iff.mp hbs
      trivial
    · rintro - bs hbs
      obtain rfl := List.map_eq_nil_iff.mp hbs
      exact hp
  | cons a as ih =>
    have hA' : ∀ a ∈ as, A (f a) := fun b hb => hA b (List.mem_cons_of_mem a hb)
    constructor
    · intro h bs hbs
      obtain ⟨b, bs, rfl, hb, hbs⟩ := List.map_eq_cons_iff.mp hbs
      intro t ht
      have hAb : A (f b) := hb ▸ hA a (List.mem_cons_self ..)
      have hC : C s b := by
        by_contra hC
        obtain ⟨b', t', hb', ht', hn⟩ := hbad s b t hAb hs hp hC ht
        exact hn ((h (b' :: bs) (by simp [hb', hb, hbs])).2 t' ht').head
      obtain ⟨hs', hp'⟩ := hinv s b t hAb hs hp hC ht
      refine ⟨hC, (ih hA' hs' hp').mp (fun cs hcs => ?_) bs hbs⟩
      exact (h (b :: cs) (by simp [hb, hcs])).2 t ht
    · intro h bs hbs
      obtain ⟨b, bs, rfl, hb, hbs⟩ := List.map_eq_cons_iff.mp hbs
      refine ⟨hp, fun t ht => ?_⟩
      have hAb : A (f b) := hb ▸ hA a (List.mem_cons_self ..)
      have hC : C s b := (h (b :: bs) (by simp [hb, hbs]) t ht).1
      obtain ⟨hs', hp'⟩ := hinv s b t hAb hs hp hC ht
      refine (ih hA' hs' hp').mpr (fun cs hcs => ?_) bs hbs
      exact (h (b :: cs) (by simp [hb, hcs]) t ht).2

end PaQueueAndChan.Library
