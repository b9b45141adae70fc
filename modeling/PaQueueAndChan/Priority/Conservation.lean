import PaQueueAndChan.Priority.Channel

/-! What the steps of the channel do to the stored items, and when no item is lost. -/

namespace PaQueueAndChan.Priority.PriorityChan

open Library

variable {I P W : Type*} [LinearOrder P]

variable [DecidableEq W]

inductive QueueStep (s : PriorityChan I P W) : Action I P W → PriorityChan I P W → Prop
  | same {a s'} (hw : ∀ t i p, a = .sender t → s.senders.pc t ≠ .missing i p)
      (hq : s'.queue = s.queue) (hp : s'.pushed = s.pushed) (hr : s'.returned = s.returned) :
      QueueStep s a s'
  | pushRead {t i p s'} (hpc : s.senders.pc t = .checked i p)
      (hq : s.queue.pushRead i p = some s'.queue)
      (hp : s'.pushed = s.pushed + {i}) (hr : s'.returned = s.returned) :
      QueueStep s (.sender t) s'
  | pushWrite {t i p s'} (hpc : s.senders.pc t = .missing i p) (hl : s.scanning = false)
      (hq : s'.queue = s.queue.pushWrite i p)
      (hp : s'.pushed = s.pushed + {i}) (hr : s'.returned = s.returned) :
      QueueStep s (.sender t) s'
  | pop {b w second p ps i s'} (hpc : s.recv = .polling w (.scan second (p :: ps)))
      (hq : s.queue.popAt p = (some i, s'.queue))
      (hp : s'.pushed = s.pushed) (hr : s'.returned = s.returned + {i}) :
      QueueStep s (.recv b) s'

variable {s s' : PriorityChan I P W} {a : Action I P W}

lemma senderStep_queue {t : ℕ} (h : s.senderStep t = some s') : QueueStep s (.sender t) s' := by
  cases hpc : s.senders.pc t with
  | checked i p =>
    simp only [senderStep, hpc] at h
    split at h <;> rename_i hq <;> obtain rfl := Option.some.inj h
    · exact .pushRead hpc hq rfl rfl
    · exact .same (by rintro _ _ _ ⟨⟩; simp [hpc]) rfl rfl rfl
  | missing i p =>
    simp only [senderStep, hpc] at h
    split_ifs at h with hl
    obtain rfl := Option.some.inj h
    exact .pushWrite hpc (by simpa using hl) rfl rfl rfl
  | idle => simp [senderStep, hpc] at h
  | pushed | taking | releasing | waking | dropping =>
    simp only [senderStep, hpc] at h
    refine .same (by rintro _ _ _ ⟨⟩; simp [hpc]) ?_ ?_ ?_ <;>
      (first | split_ifs at h | skip) <;> obtain rfl := Option.some.inj h <;> simp

lemma pollStep_queue {b : Bool} {w : W} {pc : PollPc P W} (hr : s.recv = .polling w pc) :
    QueueStep s (.recv b) (s.pollStep w b pc) := by
  by_cases hpop : ∃ second p ps i q, pc = .scan second (p :: ps) ∧ s.queue.popAt p = (some i, q)
  · obtain ⟨second, p, ps, i, q, rfl, hq⟩ := hpop
    simp only [pollStep, hq]
    exact .pop hr hq rfl rfl
  · obtain ⟨hq, hp, hret⟩ : (s.pollStep w b pc).queue = s.queue ∧
        (s.pollStep w b pc).pushed = s.pushed ∧ (s.pollStep w b pc).returned = s.returned := by
      fun_cases pollStep <;> simp_all
    exact .same (by simp) hq hp hret

lemma step_queue (h : s.step a = some s') : QueueStep s a s' := by
  cases step_moves h with
  | handle senders hs => exact .same (fun t i p ha => (hs t ha).elim) rfl rfl rfl
  | sender h => exact senderStep_queue h
  | poll hr => exact .same (by simp) rfl rfl rfl
  | recv hr => exact pollStep_queue hr

def Conserved (s : PriorityChan I P W) : Prop := s.pushed = s.returned + s.queue.stored

def WriteFindsNothing (s : PriorityChan I P W) (a : Action I P W) : Prop :=
  ∀ t i p, a = .sender t → s.senders.pc t = .missing i p → s.queue.queueAt p = []

lemma conserved_step (hs : Conserved s) (h : s.step a = some s') :
    Conserved s' ↔ WriteFindsNothing s a := by
  unfold Conserved at *
  cases step_queue h with
  | same hw hq hp hr =>
    rw [hq, hp, hr]
    exact ⟨fun _ t i p ha hpc => (hw t i p ha hpc).elim, fun _ => hs⟩
  | pushRead hpc hq hp hr =>
    rw [hp, hr, PriorityQueue.pushRead_stored hq, hs, add_assoc]
    refine ⟨fun _ t i p ha hm => ?_, fun _ => rfl⟩
    obtain rfl := Action.sender.inj ha
    simp [hpc] at hm
  | pop hpc hq hp hr =>
    rw [hp, hr, hs, PriorityQueue.popAt_stored hq]
    refine ⟨fun _ t i p ha => ?_, fun _ => ?_⟩
    · cases ha
    · abel
  | @pushWrite t i p _ hpc hl hq hp hr =>
    have hst := PriorityQueue.pushWrite_stored (q := s.queue) (i := i) (p := p)
    rw [hp, hr, hq, hs, add_assoc, ← hst]
    constructor
    · intro he t' i' p' ha hm
      obtain rfl := Action.sender.inj ha
      obtain ⟨rfl, rfl⟩ := SenderPc.missing.inj (hpc.symm.trans hm)
      have := add_left_cancel he
      simpa using this
    · intro hc
      simp [hc t i p rfl hpc]

/-- Nothing is lost in a run exactly if each write section finds no item under its priority. -/
theorem conserved_iff_write_finds_nothing (as : List (Action I P W)) :
    Always step Conserved new as ↔ EachStep step WriteFindsNothing new as :=
  always_iff_eachStep (I := fun _ => True) (fun _ _ _ _ _ => trivial)
    (fun _ _ _ _ hs h => conserved_step hs h) as trivial rfl

/-- Two senders meet at a new priority, and the second throws the first one's item away. -/
theorem not_conserved_two_first_pushes :
    ¬ ∀ (as : List (Action ℕ ℕ Unit)) (s : PriorityChan ℕ ℕ Unit),
      run step new as = some s → Conserved s := by
  intro h
  have hlost := h
    [.clone 0 1, .send 0 10 5, .send 1 11 5, .sender 0, .sender 1, .sender 0, .sender 1] _ rfl
  revert hlost
  unfold Conserved
  decide

end PaQueueAndChan.Priority.PriorityChan
