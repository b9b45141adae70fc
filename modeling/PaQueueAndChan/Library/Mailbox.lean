import Mathlib.Data.Multiset.AddSub
import PaQueueAndChan.Library.Lines
import PaQueueAndChan.Library.Transitions

/-! What a channel promises whose items exclude each other while they are out. Items come in, are
given out once and are given back; an item is given out only if it is apart from all those that are
out, and if it need not follow any that came in before it and is still inside. -/

namespace PaQueueAndChan.Library

variable {μ : Type*}

structure Mailbox (μ : Type*) where
  inside : List μ
  out : Multiset μ

inductive Visible (μ : Type*)
  | enter (m : μ)
  | give (m : μ)
  | back (m : μ)

namespace Mailbox

variable (Apart Follows : μ → μ → Prop)

def empty : Mailbox μ := ⟨[], 0⟩

inductive Moves : Mailbox μ → Visible μ → Mailbox μ → Prop
  | enter {inside : List μ} {out : Multiset μ} (m : μ) :
      Moves ⟨inside, out⟩ (.enter m) ⟨inside ++ [m], out⟩
  | give {before after : List μ} {out : Multiset μ} (m : μ) (hf : ∀ m' ∈ before, ¬ Follows m m')
      (ha : ∀ m' ∈ out, Apart m' m) :
      Moves ⟨before ++ m :: after, out⟩ (.give m) ⟨before ++ after, m ::ₘ out⟩
  | back {inside : List μ} {out : Multiset μ} (m : μ) :
      Moves ⟨inside, m ::ₘ out⟩ (.back m) ⟨inside, out⟩

inductive Accepts : Mailbox μ → List (Visible μ) → Mailbox μ → Prop
  | nil {b : Mailbox μ} : Accepts b [] b
  | cons {b b₁ b' : Mailbox μ} {e : Visible μ} {es : List (Visible μ)}
      (h : Moves Apart Follows b e b₁) (hs : Accepts b₁ es b') : Accepts b (e :: es) b'

variable {Apart Follows} {b b₁ b' : Mailbox μ} {e : Visible μ} {es es' : List (Visible μ)}

lemma Accepts.append (h : Accepts Apart Follows b es b₁) (h' : Accepts Apart Follows b₁ es' b') :
    Accepts Apart Follows b (es ++ es') b' := by
  induction h with
  | nil => exact h'
  | cons hm _ ih => exact .cons hm (ih h')

lemma Accepts.one (h : Moves Apart Follows b e b') : Accepts Apart Follows b [e] b' := .cons h .nil

lemma accepts_run {σ α : Type*} {step : σ → α → Option σ} {R : σ → Mailbox μ → Prop}
    {A : α → Prop} {visible : σ → α → List (Visible μ)}
    (hstep : ∀ s a t b, A a → R s b → step s a = some t →
      ∃ b', Accepts Apart Follows b (visible s a) b' ∧ R t b')
    {s t : σ} {as : List α} (hA : ∀ a ∈ as, A a) (hs : R s b) (h : run step s as = some t) :
    ∃ b', Accepts Apart Follows b (trace step visible s as) b' ∧ R t b' := by
  induction as generalizing s b with
  | nil =>
    obtain rfl := Option.some.inj h
    exact ⟨b, .nil, hs⟩
  | cons a as ih =>
    obtain ⟨u, hu, hrun⟩ := run_cons_some h
    obtain ⟨b₁, hacc, hu'⟩ := hstep s a u b (hA a (List.mem_cons_self ..)) hs hu
    obtain ⟨b', hacc', ht⟩ := ih (fun a ha => hA a (List.mem_cons_of_mem _ ha)) hu' hrun
    rw [trace_cons hu]
    exact ⟨b', hacc.append hacc', ht⟩

/-- `Served entered given` is what a system says of the two, and enough to know that the last one
given was not to follow anybody inside. -/
structure Tells (Follows : μ → μ → Prop) (Served : List μ → List μ → Prop)
    (Inside : List μ → List μ → List μ → Prop) : Prop where
  nil : Inside [] [] []
  enter : ∀ {inside entered given} m, Inside inside entered given →
    Inside (inside ++ [m]) (entered ++ [m]) given
  give : ∀ {inside entered given m}, Inside inside entered given → Served entered (given ++ [m]) →
    ∃ before after, inside = before ++ m :: after ∧ (∀ m' ∈ before, ¬ Follows m m') ∧
      Inside (before ++ after) entered (given ++ [m])

lemma tells_bag : Tells (fun _ _ => False) (fun entered given : List μ => given.Subperm entered)
    (fun inside entered given => (given ++ inside).Perm entered) where
  nil := .nil
  enter m h := by
    rw [← List.append_assoc]
    exact h.append_right [m]
  give := by
    rintro inside entered given m h hle
    have hm : m ∈ inside := by
      have hle := (List.subperm_append_left _).mp (hle.trans h.symm.subperm)
      exact hle.subset (List.mem_singleton.mpr rfl)
    obtain ⟨before, after, rfl⟩ := List.append_of_mem hm
    refine ⟨before, after, rfl, fun _ _ => id, ?_⟩
    rw [List.append_assoc, List.singleton_append]
    exact (List.perm_middle.symm.append_left given).trans h

lemma tells_lines {γ : Type*} [DecidableEq γ] (c : μ → γ) : Tells (fun m m' => c m' = c m)
    (fun entered given => ∀ g, ofClass c g given <+: ofClass c g entered)
    (fun inside entered given => InOrder c (fun g => ofClass c g inside) entered given) where
  nil := fun g => rfl
  enter m h := h.enter fun g => ofClass_append
  give := by
    rintro inside entered given m h hserved
    have hfirst : ∀ g, ofClass c g [m] <+: ofClass c g inside := by
      intro g
      have hg := hserved g
      rw [ofClass_append, h g] at hg
      exact (List.prefix_append_right_inj _).mp hg
    have hm := hfirst (c m)
    rw [ofClass_singleton, if_pos rfl] at hm
    obtain ⟨rest, hrest⟩ := hm
    obtain ⟨before, after, rfl, hbefore, hafter⟩ := List.filter_eq_cons_iff.mp hrest.symm
    have hnil : ∀ m' ∈ before, ¬ c m' = c m := fun m' hm' => by simpa using hbefore m' hm'
    refine ⟨before, after, rfl, hnil, InOrder.leave h fun g => ?_⟩
    rw [ofClass_append, ← List.singleton_append, ofClass_append, ofClass_append, ofClass_singleton]
    by_cases hg : c m = g
    · subst hg
      rw [ofClass_eq_nil hnil, if_pos rfl, List.nil_append, List.nil_append]
    · simp [hg]

end Mailbox

end PaQueueAndChan.Library
