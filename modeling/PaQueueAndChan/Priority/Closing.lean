import PaQueueAndChan.Priority.EndOfStream

/-! The drop of the last sender raises `end_flag` and calls nobody. -/

namespace PaQueueAndChan.Priority.PriorityChan

open Library

variable {I P W : Type*} [LinearOrder P] {s s' : PriorityChan I P W} {a : Action I P W}

-- the last poll returned `Pending` and its waker has not been called since it was registered
def Parked (s : PriorityChan I P W) : Prop :=
  (∃ w, s.recv = .idle (some (w, .pending))) ∧ s.wokenSinceRegister = false

def ClosedIsTold (s : PriorityChan I P W) : Prop :=
  ¬ (s.senders.live = ∅ ∧ s.endFlag = true ∧ Parked s)

def LastDropNotParked (s : PriorityChan I P W) (a : Action I P W) : Prop :=
  ∀ t, a = .sender t → s.senders.pc t = .dropping → ¬ Parked s

variable [DecidableEq W]

lemma endFlag_of_sender {t : ℕ} (h : s.senderStep t = some s') (hpc : s.senders.pc t ≠ .dropping) :
    s'.endFlag = s.endFlag := by
  revert h
  fun_cases senderStep s t <;> rintro ⟨⟩ <;> simp_all

lemma closedIsTold_step (hs : SendersOk s) (hp : ClosedIsTold s) (h : s.step a = some s') :
    ClosedIsTold s' ↔ LastDropNotParked s a := by
  cases step_moves h with
  | handle senders ha =>
    refine iff_of_true ?_ fun t hc => (ha t hc).elim
    rintro ⟨_, hf, hparked⟩
    exact hp ⟨(hs.ended hf).1, hf, hparked⟩
  | @sender t _ h =>
    by_cases hpc : s.senders.pc t = .dropping
    · simp only [senderStep, hpc, Option.some.injEq] at h
      subst h
      have hempty := (hs.last t hpc).1
      constructor
      · rintro hgood t' ht' _ hparked
        exact hgood ⟨hempty, rfl, hparked⟩
      · rintro hc ⟨_, _, hparked⟩
        exact hc t rfl hpc hparked
    · refine iff_of_true ?_ fun t' ht' hpc' => (hpc (Action.sender.inj ht' ▸ hpc')).elim
      rintro ⟨_, hf, _⟩
      rw [endFlag_of_sender h hpc] at hf
      have hidle := ((hs.ended hf).2 t).resolve_right hpc
      simp [senderStep, hidle] at h
  | poll hr => exact iff_of_true (by simp [ClosedIsTold, Parked]) (by simp [LastDropNotParked])
  | @recv b w pc hr =>
    refine iff_of_true ?_ (by simp [LastDropNotParked])
    rintro ⟨_, hf, ⟨w', hw'⟩, _⟩
    -- a poll that is about to return `Pending` has just read the flag down
    obtain ⟨hdown, _, rfl⟩ := pollStep_pending hw'
    simp [pollStep, hdown] at hf

/-- The end of the channel reaches a waiting receiver exactly in the runs where the last sender
never goes while the receiver is parked. -/
theorem closed_is_told_iff_last_drop_not_parked (as : List (Action I P W)) :
    Always step ClosedIsTold new as ↔ EachStep step LastDropNotParked new as :=
  always_iff_eachStep (I := SendersOk) (fun _ _ _ hs h => sendersOk_step hs h)
    (fun _ _ _ hs hp h => closedIsTold_step hs hp h) as sendersOk_new (by simp [ClosedIsTold, new])

/-- The receiver finds nothing, registers, finds nothing again and waits; then the sender goes. -/
theorem not_closed_is_told_last_drop :
    ¬ ∀ (as : List (Action ℕ ℕ Unit)) (s : PriorityChan ℕ ℕ Unit),
      run step new as = some s → ClosedIsTold s := by
  intro h
  refine h [.poll (), .recv false, .recv false, .recv false, .recv false, .recv false, .recv false,
    .recv false, .recv false, .recv false, .drop 0, .sender 0] _ rfl ⟨rfl, rfl, ⟨(), rfl⟩, rfl⟩

end PaQueueAndChan.Priority.PriorityChan
