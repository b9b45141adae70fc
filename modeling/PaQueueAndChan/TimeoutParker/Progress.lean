import PaQueueAndChan.TimeoutParker.Notification

/-! The calls end: each needs a bounded number of steps, and where no step is left without a timeout
nobody is left but a parker that waits and that nobody has notified. -/

namespace PaQueueAndChan.TimeoutParker

open Library

def ParkPc.left : ParkPc → ℕ
  | .tryNotified round => 8 + (2 - round)
  | .lock => 7
  | .exchange => 6
  | .waitTimeout => 5
  | .waiting => 4
  | .relock => 3
  | .swap | .store => 2
  | .unlock => 1
  | .idle | .inconsistent _ | .unexpected _ => 0

def UnparkPc.left : UnparkPc → ℕ
  | .swap => 4
  | .lock => 3
  | .unlock => 2
  | .notify => 1
  | .idle | .inconsistent _ => 0

def Action.parkerSteps : Action → ℕ
  | .parkStep | .wake => 1
  | _ => 0

def Action.parkerCost : Action → ℕ
  | .park => 10
  | _ => 0

def Action.steps (u : ℕ) : Action → ℕ
  | .unparkStep v => if v = u then 1 else 0
  | _ => 0

def Action.cost (u : ℕ) : Action → ℕ
  | .unpark v => if v = u then 4 else 0
  | _ => 0

namespace Inner

variable {s s' : Inner} {a : Action} {u : ℕ}

lemma left_parkStep (h : s.parkStep = some s') :
    s'.parker.left + 1 ≤ s.parker.left ∧ s'.unparkers = s.unparkers := by
  unfold parkStep at h
  cases hp : s.parker with
  | idle => simp [hp] at h
  | waiting => simp [hp] at h
  | inconsistent a => simp [hp] at h
  | unexpected a => simp [hp] at h
  | tryNotified round =>
    simp only [hp] at h
    split_ifs at h <;> obtain rfl := Option.some.inj h <;> refine ⟨?_, rfl⟩ <;>
      simp only [ParkPc.left] <;> omega
  | waitTimeout | store | unlock =>
    simp only [hp, Option.some.injEq] at h
    subst h
    simp [ParkPc.left]
  | _ =>
    simp only [hp] at h
    split_ifs at h <;> obtain rfl := Option.some.inj h <;> simp [ParkPc.left]

lemma left_unparkStep (h : s.unparkStep u = some s') :
    s'.parker.left ≤ s.parker.left ∧ ∃ c, s'.unparkers = Function.update s.unparkers u c ∧
      c.left + 1 ≤ (s.unparkers u).left := by
  unfold unparkStep at h
  cases hu : s.unparkers u with
  | idle => simp [hu] at h
  | inconsistent a => simp [hu] at h
  | swap =>
    simp only [hu] at h
    split_ifs at h <;> obtain rfl := Option.some.inj h <;>
      exact ⟨le_rfl, _, rfl, by simp [UnparkPc.left]⟩
  | lock =>
    simp only [hu] at h
    split_ifs at h
    obtain rfl := Option.some.inj h
    exact ⟨le_rfl, _, rfl, by simp [UnparkPc.left]⟩
  | unlock =>
    simp only [hu, Option.some.injEq] at h
    subst h
    exact ⟨le_rfl, _, rfl, by simp [UnparkPc.left]⟩
  | notify =>
    simp only [hu, Option.some.injEq] at h
    subst h
    unfold notifyOne
    split
    · next hp => exact ⟨by simp [hp, ParkPc.left], _, rfl, by simp [UnparkPc.left]⟩
    · exact ⟨le_rfl, _, rfl, by simp [UnparkPc.left]⟩

lemma parkerLeft_step (h : s.step a = some s') :
    s'.parker.left + a.parkerSteps ≤ s.parker.left + a.parkerCost := by
  cases a with
  | park =>
    simp only [step] at h
    split at h
    · next hp =>
      obtain rfl := Option.some.inj h
      simp [hp, ParkPc.left, Action.parkerSteps, Action.parkerCost]
    · cases h
  | parkStep => exact (left_parkStep h).1
  | wake =>
    simp only [step] at h
    split at h
    · next hp =>
      obtain rfl := Option.some.inj h
      simp [hp, ParkPc.left, Action.parkerSteps, Action.parkerCost]
    · cases h
  | unpark v =>
    simp only [step] at h
    split at h
    · obtain rfl := Option.some.inj h
      exact le_rfl
    · cases h
  | unparkStep v => exact (left_unparkStep h).1

lemma unparkerLeft_step (h : s.step a = some s') (u : ℕ) :
    (s'.unparkers u).left + a.steps u ≤ (s.unparkers u).left + a.cost u := by
  cases a with
  | park =>
    simp only [step] at h
    split at h
    · obtain rfl := Option.some.inj h
      exact le_rfl
    · cases h
  | parkStep =>
    rw [(left_parkStep h).2]
    exact le_rfl
  | wake =>
    simp only [step] at h
    split at h
    · obtain rfl := Option.some.inj h
      exact le_rfl
    · cases h
  | unpark v =>
    simp only [step] at h
    split at h
    · next hv =>
      obtain rfl := Option.some.inj h
      by_cases huv : u = v
      · simp [huv, hv, UnparkPc.left, Action.steps, Action.cost]
      · simp [huv, Ne.symm huv, Action.steps, Action.cost]
    · cases h
  | unparkStep v =>
    obtain ⟨-, c, hc, hle⟩ := left_unparkStep h
    rw [hc]
    by_cases huv : u = v
    · subst huv
      simpa [Action.steps, Action.cost] using hle
    · simp [huv, Ne.symm huv, Action.steps, Action.cost]

/-- Nobody can take a step, unless `wait_timeout` returns by itself or a call begins. -/
def Still (s : Inner) : Prop := s.parkStep = none ∧ ∀ u, s.unparkStep u = none

lemma ParkerOk.mutex_of_still (hs : ParkerOk s) (h : Still s) : s.mutex = none := by
  cases hm : s.mutex with
  | none => rfl
  | some o =>
    cases o with
    | parker =>
      have hholds := hs.holder.mp hm
      have hnone := h.1
      unfold parkStep at hnone
      cases hp : s.parker <;> rw [hp] at hholds <;> simp only [ParkPc.Holds] at hholds <;>
        simp only [hp] at hnone <;> first | split_ifs at hnone | cases hnone
    | unparker u =>
      have hnone := h.2 u
      simp [unparkStep, (hs.unparkHolder u).mp hm] at hnone

lemma ParkerOk.still (hs : ParkerOk s) (h : Still s) :
    (∀ u, s.unparkers u = .idle) ∧
      (s.parker = .idle ∨ s.parker = .waiting ∧ s.state = parkedCondvar) := by
  have hm := hs.mutex_of_still h
  have hidle : ∀ u, s.unparkers u = .idle := by
    intro u
    have hnone := h.2 u
    unfold unparkStep at hnone
    cases hu : s.unparkers u with
    | idle => rfl
    | inconsistent a => exact (hs.unparkers u a hu).elim
    | _ =>
      simp only [hu] at hnone
      (first | split_ifs at hnone | cases hnone)
  refine ⟨hidle, ?_⟩
  have hnone := h.1
  have hstate := hs.state
  unfold parkStep at hnone
  cases hp : s.parker with
  | idle => exact Or.inl rfl
  | waiting =>
    rw [hp] at hstate
    refine Or.inr ⟨rfl, hstate.resolve_right fun hn => ?_⟩
    obtain ⟨u, hu⟩ := hs.waiting hp hn
    simp [Notifying, hidle u] at hu
  | inconsistent a | unexpected a =>
    rw [hp] at hstate
    exact hstate.elim
  | _ =>
    simp only [hp] at hnone
    (first | split_ifs at hnone | cases hnone)

/-- In every run the parker takes at most ten steps for each call of `park_timeout`, the return of
the wait included, and an unparker four for each call of `unpark`. Where nothing moves any more
without a timeout, every `unpark` has returned, and `park_timeout` has returned or it waits and no
`unpark` has begun to notify it. -/
theorem calls_end (as : List Action) (s : Inner) (h : run step new as = some s) :
    (as.map Action.parkerSteps).sum ≤ (as.map Action.parkerCost).sum ∧
      (∀ u, (as.map (Action.steps u)).sum ≤ (as.map (Action.cost u)).sum) ∧
      (Still s → (∀ u, s.unparkers u = .idle) ∧
        (s.parker = .idle ∨ s.parker = .waiting ∧ s.state = parkedCondvar)) := by
  refine ⟨?_, fun u => ?_, (run_invariant (fun _ _ _ => parkerOk_step) parkerOk_new h).still⟩
  · have hle := run_add_le (I := fun _ => True) (f := fun s => s.parker.left)
      (fun _ _ _ _ h => ⟨trivial, parkerLeft_step h⟩) trivial h
    exact (Nat.le_add_left _ _).trans (hle.trans_eq (Nat.zero_add _))
  · have hle := run_add_le (I := fun _ => True) (f := fun s => (s.unparkers u).left)
      (fun _ _ _ _ h => ⟨trivial, unparkerLeft_step h u⟩) trivial h
    exact (Nat.le_add_left _ _).trans (hle.trans_eq (Nat.zero_add _))

def parkedAndNotified : List Action :=
  park ++ .unpark 0 :: List.replicate 4 (.unparkStep 0) ++ List.replicate 3 .parkStep

theorem calls_end_parkedAndNotified :
    ∃ s, run step new parkedAndNotified = some s ∧ s.state = empty ∧
      (parkedAndNotified.map Action.parkerSteps).sum ≤
        (parkedAndNotified.map Action.parkerCost).sum ∧
      (∀ u, (parkedAndNotified.map (Action.steps u)).sum ≤
        (parkedAndNotified.map (Action.cost u)).sum) ∧
      (Still s → (∀ u, s.unparkers u = .idle) ∧
        (s.parker = .idle ∨ s.parker = .waiting ∧ s.state = parkedCondvar)) :=
  ⟨_, rfl, rfl, calls_end parkedAndNotified _
    (show run step new parkedAndNotified = some _ from rfl)⟩

end Inner

end PaQueueAndChan.TimeoutParker
