import PaQueueAndChan.NoOrderQueue

/-! The consumer's loop while no thread pushes: calls of `try_pop` until one returns `None`. -/

namespace PaQueueAndChan.NoOrderQueue

open Library

variable {T : Type*}

namespace MpscNoOrderQueue

variable {s s' : MpscNoOrderQueue T} {a : Action T}

/-- The steps of the consumer, up to the first `None`. -/
def Consumes (s : MpscNoOrderQueue T) : Action T → Prop
  | .tryPop => s.consumer ≠ .idle (some none)
  | .popStep _ => True
  | _ => False

-- nothing lies behind the scan
def Clean (s : MpscNoOrderQueue T) : Prop :=
  match s.consumer with
  | .lock | .idle (some (some _)) => True
  | .scan rest => ∀ id ∉ rest, s.queueAt id = []
  | .idle (some none) => ∀ id, s.queueAt id = []
  | .idle none => False

def stored (s : MpscNoOrderQueue T) : ℕ := s.threadsQueues.total fun e => e.2.length

def left (s : MpscNoOrderQueue T) : ℕ :=
  match s.consumer with
  | .lock => s.threadsQueues.keys.length + 2
  | .scan rest => rest.length + 1
  | .idle (some (some _)) => s.threadsQueues.keys.length + 3
  | .idle _ => 0

def work (s : MpscNoOrderQueue T) : ℕ := s.stored * (s.threadsQueues.keys.length + 3) + s.left

lemma queueAt_eq_nil {id : ℕ} (h : ∀ t q, s.threadsQueues.get id ≠ some (t :: q)) :
    s.queueAt id = [] := by
  cases hg : s.threadsQueues.get id with
  | none => rw [queueAt, hg, Option.getD_none]
  | some q =>
    cases q with
    | nil => rw [queueAt, hg, Option.getD_some]
    | cons t q => exact (h t q hg).elim

lemma total_tail {m : FinMap ℕ (List T)} {id : ℕ} {t : T} {q : List T}
    (h : m.get id = some (t :: q)) : m.total (fun e => e.2.length) =
      (m.modify id List.tail).total (fun e => e.2.length) + 1 := by
  rw [FinMap.total_of_get h, FinMap.total_modify h, List.tail_cons]
  exact Nat.add_right_comm ..

lemma drain_popStep {iter : IterOrder ℕ} (hs : Clean s) (h : s.popStep iter = some s') :
    Clean s' ∧ work s' < work s := by
  unfold popStep at h
  cases hc : s.consumer with
  | idle last => simp [hc] at h
  | lock =>
    simp only [hc, Option.some.injEq] at h
    subst h
    refine ⟨fun id hid => queueAt_eq_nil fun t q hget => hid ?_, ?_⟩
    · rw [IterOrder.mem_order, FinMap.mem_keys]
      exact ⟨_, hget⟩
    · have hlen := (iter.perm s.threadsQueues.keys).length_eq
      simp only [work, stored, left, hc, setPop_consumer, setPop_threadsQueues, hlen]
      omega
  | scan rest =>
    simp only [Clean, hc] at hs
    cases rest with
    | nil =>
      simp only [hc, Option.some.injEq] at h
      subst h
      exact ⟨fun id => hs id List.not_mem_nil, by simp [work, stored, left, hc]⟩
    | cons id rest =>
      simp only [hc] at h
      split at h
      · next t q hget =>
        obtain rfl := Option.some.inj h
        refine ⟨trivial, ?_⟩
        have hone := total_tail hget
        simp only [work, stored, left, hc, setPop_consumer, setPop_threadsQueues, hone,
          FinMap.keys_modify, List.length_cons]
        rw [Nat.add_mul]
        omega
      · next hget =>
        obtain rfl := Option.some.inj h
        refine ⟨fun i hi => ?_, by simp [work, stored, left, hc]⟩
        by_cases he : i = id
        · subst he
          exact queueAt_eq_nil fun t q => hget t q
        · exact hs i (by simp [he, hi])

lemma drain_step (hs : Clean s) (hc : Consumes s a) (h : s.step a = some s') :
    Clean s' ∧ work s' < work s := by
  cases a with
  | popStep iter => exact drain_popStep hs h
  | tryPop =>
    simp only [step] at h
    split at h
    · next last hr =>
      obtain rfl := Option.some.inj h
      rcases last with _ | _ | t
      · simp [Clean, hr] at hs
      · exact (hc hr).elim
      · exact ⟨trivial, by simp [work, stored, left, hr]⟩
    · cases h
  | _ => exact hc.elim

lemma told_of_halted (hs : Clean s) (hstop : ∀ a, Consumes s a → s.step a = none) :
    s.consumer = .idle (some none) ∧ ∀ id, s.queueAt id = [] := by
  have hpop := hstop (.popStep .stored) trivial
  simp only [step, popStep] at hpop
  cases hc : s.consumer with
  | lock => simp [hc] at hpop
  | scan rest =>
    cases rest with
    | nil => simp [hc] at hpop
    | cons id rest =>
      simp only [hc] at hpop
      split at hpop <;> cases hpop
  | idle last =>
    rcases last with _ | _ | t
    · simp [Clean, hc] at hs
    · rw [Clean, hc] at hs
      exact ⟨rfl, hs⟩
    · have hnone := hstop .tryPop (by simp [Consumes, hc])
      simp [step, hc] at hnone

/-- From where `try_pop` is about to take the read lock, as long as nobody pushes, the consumer that
goes on popping takes a bounded number of steps. Where it can take no more it has been told `None`,
every queue is empty, and all that was pushed has been returned, in the order of its thread. -/
theorem drains_each_thread_in_order (as : List (Action T)) (s : MpscNoOrderQueue T)
    (h : run step new as = some s) (hlock : s.consumer = .lock) :
    ∀ bs t, EachStep step Consumes s bs → run step s bs = some t →
      bs.length ≤ (s.stored + 1) * (s.threadsQueues.keys.length + 3) ∧
      ((∀ a, Consumes t a → t.step a = none) → t.consumer = .idle (some none) ∧
        (∀ id, t.queueAt id = []) ∧ t.returned.Perm t.pushed ∧
        ∀ id, ofClass Prod.fst id t.returned = ofClass Prod.fst id t.pushed) := by
  intro bs t hc hrun
  have hs : Clean s := by simp [Clean, hlock]
  obtain ⟨ht, hlen⟩ := run_length_le (f := work)
    (fun _ _ _ hs hc h => drain_step hs hc h) hs hc hrun
  refine ⟨?_, fun hstop => ?_⟩
  · have hwork : work s ≤ (s.stored + 1) * (s.threadsQueues.keys.length + 3) := by
      simp only [work, left, hlock]
      rw [Nat.add_mul]
      omega
    omega
  · have hok : QueueOk t := run_invariant (fun _ _ _ => queueOk_step) queueOk_new
      ((run_append h).trans hrun)
    obtain ⟨htold, hempty⟩ := told_of_halted ht hstop
    have hclass : ∀ id, ofClass Prod.fst id t.returned = ofClass Prod.fst id t.pushed := by
      intro id
      have hline : line t.threadsQueues id = [] := by
        rw [line, ← queueAt, hempty id, List.map_nil]
      rw [hok.order id, hline, List.append_nil]
    exact ⟨htold, hempty, perm_of_ofClass hclass, hclass⟩

def firstPush (n t : ℕ) : List (Action ℕ) := .push n t :: List.replicate 3 (.pushStep n)

def pushedByTwo : List (Action ℕ) :=
  [.spawn 0 7, .spawn 1 5] ++ firstPush 0 70 ++ firstPush 1 50 ++ [.tryPop]

theorem drains_each_thread_in_order_pushedByTwo :
    ∃ s, run step new pushedByTwo = some s ∧ s.pushed = [(7, 70), (5, 50)] ∧
      ∀ bs t, EachStep step Consumes s bs → run step s bs = some t →
        bs.length ≤ (s.stored + 1) * (s.threadsQueues.keys.length + 3) ∧
        ((∀ a, Consumes t a → t.step a = none) → t.consumer = .idle (some none) ∧
          (∀ id, t.queueAt id = []) ∧ t.returned.Perm t.pushed ∧
          ∀ id, ofClass Prod.fst id t.returned = ofClass Prod.fst id t.pushed) :=
  ⟨_, rfl, rfl,
    drains_each_thread_in_order pushedByTwo _ (show run step new pushedByTwo = some _ from rfl) rfl⟩

end MpscNoOrderQueue

end PaQueueAndChan.NoOrderQueue
