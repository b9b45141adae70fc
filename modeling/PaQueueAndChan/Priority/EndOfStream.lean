import PaQueueAndChan.Priority.Conservation

/-! The life of the senders, and what the receiver knows when it is told that the channel has
ended. -/

namespace PaQueueAndChan.Priority.PriorityChan

open Library

variable {I P W : Type*} [LinearOrder P] {s s' : PriorityChan I P W} {a : Action I P W}

lemma sendersOk_new : SendersOk (new : PriorityChan I P W) :=
  Handles.ok_first (by simp) (by simp [new])

variable [DecidableEq W]

lemma sendersOk_senderStep {t : ℕ} (hs : SendersOk s) (h : s.senderStep t = some s') :
    SendersOk s' := by
  have hset : s.senders.pc t ≠ .idle → s.senders.pc t ≠ .dropping → ∀ c ≠ .dropping,
      SendersOk (s.setPc t c) := fun hi hd c hc => hs.set (hs.mem hi hd) hc
  cases hpc : s.senders.pc t with
  | idle => simp [senderStep, hpc] at h
  | dropping =>
    simp only [senderStep, hpc, Option.some.injEq] at h
    subst h
    exact hs.advance hpc (Or.inl rfl)
  | waking w =>
    simp only [senderStep, hpc, wake_eq, Option.some.injEq] at h
    subst h
    exact hset (by simp [hpc]) (by simp [hpc]) _ (by simp)
  | _ =>
    simp only [senderStep, hpc] at h
    (first | split at h | skip) <;> first
    | (obtain rfl := Option.some.inj h; exact hset (by simp [hpc]) (by simp [hpc]) _ (by simp))
    | cases h

lemma pollStep_senders (w : W) (b : Bool) (pc : PollPc P W) :
    (s.pollStep w b pc).senders = s.senders ∧ (s.pollStep w b pc).endFlag = s.endFlag := by
  constructor <;> fun_cases pollStep <;> simp

lemma sendersOk_step (hs : SendersOk s) (h : s.step a = some s') : SendersOk s' := by
  cases step_moves h with
  | handle senders _ _ _ _ hok => exact hok hs
  | sender h => exact sendersOk_senderStep hs h
  | poll hr => exact hs
  | recv hr => simpa only [SendersOk, pollStep_senders] using hs

-- between the lock of a scan and the load of `end_flag` that follows it
def Observing (s : PriorityChan I P W) : Prop :=
  match s.recv with
  | .polling _ (.scan _ _) | .polling _ (.load _) => True
  | _ => False

structure BehindOk (s : PriorityChan I P W) : Prop where
  behind : s.Observing →
    (s.behind = true ↔ ∃ p, s.passed p = true ∧ s.queue.queueAt p ≠ [])
  closed : ∀ w, s.recv = .idle (some (w, .ready none)) → s.endFlag = true

omit [DecidableEq W] in
lemma BehindOk.of_eq (hs : BehindOk s) (hr : s'.recv = s.recv) (hq : s'.queue = s.queue)
    (hb : s'.behind = s.behind) (he : s.endFlag = true → s'.endFlag = true) : BehindOk s' := by
  refine ⟨?_, fun w h => he (hs.closed w (hr ▸ h))⟩
  simpa only [Observing, passed, hr, hq, hb] using hs.behind

omit [DecidableEq W] in
lemma BehindOk.notePush (hs : BehindOk s) {q : PriorityQueue I P} {i : I} {p : P} {t : ℕ}
    {c : SenderPc I P W} (hp : q.queueAt p ≠ [])
    (ho : ∀ p', p' ≠ p → q.queueAt p' = s.queue.queueAt p') :
    BehindOk ((s.notePush q i p).setPc t c) := by
  refine ⟨fun hobs => ?_, hs.closed⟩
  have hold := hs.behind hobs
  change (s.behind || s.passed p) = true ↔ ∃ p', s.passed p' = true ∧ q.queueAt p' ≠ []
  rw [Bool.or_eq_true, hold]
  constructor
  · rintro (⟨p', hpass, hne⟩ | hpass)
    · by_cases h : p' = p
      · subst h
        exact ⟨p', hpass, hp⟩
      · exact ⟨p', hpass, by rwa [ho p' h]⟩
    · exact ⟨p, hpass, hp⟩
  · rintro ⟨p', hpass, hne⟩
    by_cases h : p' = p
    · subst h
      exact Or.inr hpass
    · exact Or.inl ⟨p', hpass, by rwa [← ho p' h]⟩

lemma behindOk_senderStep {t : ℕ} (hs : BehindOk s) (h : s.senderStep t = some s') :
    BehindOk s' := by
  cases hpc : s.senders.pc t with
  | idle => simp [senderStep, hpc] at h
  | checked i p =>
    simp only [senderStep, hpc] at h
    split at h <;> rename_i hq <;> obtain rfl := Option.some.inj h
    · refine hs.notePush ?_ fun p' hp' => ?_
      · simp [PriorityQueue.pushRead_queueAt hq]
      · simp [PriorityQueue.pushRead_queueAt hq, hp']
    · exact hs.of_eq rfl rfl rfl id
  | missing i p =>
    simp only [senderStep, hpc] at h
    split_ifs at h
    obtain rfl := Option.some.inj h
    refine hs.notePush ?_ fun p' hp' => ?_
    · simp [PriorityQueue.pushWrite_queueAt]
    · simp [PriorityQueue.pushWrite_queueAt, hp']
  | waking w =>
    simp only [senderStep, hpc, Option.some.injEq] at h
    subst h
    exact hs.of_eq (by simp) (by simp) (by simp) (by simp)
  | dropping =>
    simp only [senderStep, hpc, Option.some.injEq] at h
    subst h
    exact hs.of_eq rfl rfl rfl (fun _ => rfl)
  | _ =>
    simp only [senderStep, hpc] at h
    (first | split at h | skip) <;> obtain rfl := Option.some.inj h <;>
      exact hs.of_eq rfl rfl rfl id

lemma behindOk_pollStep {b : Bool} {w : W} {pc : PollPc P W} (hs : BehindOk s)
    (hr : s.recv = .polling w pc) : BehindOk (s.pollStep w b pc) := by
  have hold := hs.behind
  cases pc with
  | lock second =>
    refine ⟨fun _ => ?_, by simp [pollStep]⟩
    simp only [pollStep, setPoll_behind, setPoll_queue, passed, setPoll_recv, Bool.false_eq_true,
      false_iff, not_exists, not_and, not_not, decide_eq_true_eq]
    intro p hp
    rw [FinMap.mem_keys, not_exists] at hp
    cases hg : s.queue.map.get p with
    | none => simp [PriorityQueue.queueAt, hg]
    | some l => exact (hp l hg).elim
  | scan second rest =>
    simp only [Observing, passed, hr, true_implies, decide_eq_true_eq] at hold
    cases rest with
    | nil =>
      refine ⟨fun _ => ?_, by simp [pollStep]⟩
      simpa [pollStep, passed] using hold
    | cons p ps =>
      simp only [pollStep]
      split
      · exact ⟨by simp [Observing], by simp⟩
      · rename_i q hq
        obtain ⟨rfl, hempty⟩ := PriorityQueue.popAt_none hq
        refine ⟨fun _ => ?_, by simp⟩
        simp only [setPoll_behind, setPoll_queue, passed, setPoll_recv, decide_eq_true_eq, hold]
        -- the queue just visited was empty, so it adds nothing behind the scan
        refine exists_congr fun p' => and_congr_left fun hne => ?_
        have : p' ≠ p := by
          rintro rfl
          exact hne hempty
        simp [this]
  | load second =>
    simp only [pollStep]
    split_ifs with hf
    · exact ⟨by simp [Observing], fun _ _ => hf⟩
    · exact ⟨by simp [Observing], by simp⟩
    · exact ⟨by simp [Observing], by simp⟩
  | _ =>
    simp only [pollStep]
    (first | split_ifs | skip) <;> exact ⟨by simp [Observing], by simp⟩

lemma behindOk_step (hs : BehindOk s) (h : s.step a = some s') : BehindOk s' := by
  cases step_moves h with
  | handle senders => exact hs.of_eq rfl rfl rfl id
  | sender h => exact behindOk_senderStep hs h
  | poll hr => exact ⟨by simp [Observing], by simp⟩
  | recv hr => exact behindOk_pollStep hs hr

def NothingLeft (s : PriorityChan I P W) : Prop :=
  ∀ w, s.recv = .idle (some (w, .ready none)) → s.queue.stored = 0

def ClosesOnCleanScan (s : PriorityChan I P W) (a : Action I P W) : Prop :=
  ∀ b w second, a = .recv b → s.recv = .polling w (.load second) → s.endFlag = true →
    s.behind = false

lemma recv_of_sender {t : ℕ} (h : s.senderStep t = some s') : s'.recv = s.recv := by
  revert h
  fun_cases senderStep s t <;> rintro ⟨⟩ <;> simp

omit [DecidableEq W] in
lemma nothingLeft_load (hb : BehindOk s) {w : W} {second : Bool}
    (hr : s.recv = .polling w (.load second)) :
    s.queue.stored = 0 ↔ s.behind = false := by
  have hobs : s.behind = true ↔ ∃ p, s.queue.queueAt p ≠ [] := by
    simpa [Observing, passed, hr] using hb.behind
  rw [PriorityQueue.stored_eq_zero, Bool.eq_false_iff, ne_eq, hobs]
  push Not
  rfl

lemma nothingLeft_step (hs : SendersOk s) (hb : BehindOk s) (hp : NothingLeft s)
    (h : s.step a = some s') : NothingLeft s' ↔ ClosesOnCleanScan s a := by
  cases step_moves h with
  | handle senders _ _ hr => exact iff_of_true hp fun b _ _ ha => (hr b ha).elim
  | @sender t _ h =>
    refine iff_of_true (fun w hw => ?_) (by simp [ClosesOnCleanScan])
    -- the flag is up, so every sender is gone and none can touch the map
    have hr := recv_of_sender h
    have hend := hb.closed w (hr ▸ hw)
    rcases (hs.ended hend).2 t with hpc | hpc
    · simp [senderStep, hpc] at h
    · simp only [senderStep, hpc, Option.some.injEq] at h
      subst h
      exact hp w (hr ▸ hw)
  | poll hr => simp [NothingLeft, ClosesOnCleanScan]
  | @recv b w pc hr =>
    by_cases hend : s.endFlag = true ∧ ∃ second, pc = .load second
    · obtain ⟨hf, second, rfl⟩ := hend
      simp [pollStep, hf, NothingLeft, ClosesOnCleanScan, hr, nothingLeft_load hb hr]
    · refine iff_of_true (fun w' hw => (hend (pollStep_ready_none hw)).elim) ?_
      rintro _ _ second _ hr' hf
      have hpc := (Recv.polling.inj (hr.symm.trans hr')).2
      exact (hend ⟨hf, second, hpc⟩).elim

/-- The end is never announced over a stored item exactly in the runs where no push lands behind a
scan that the load of a raised `end_flag` follows. -/
theorem nothing_left_iff_closes_on_clean_scan (as : List (Action I P W)) :
    Always step NothingLeft new as ↔ EachStep step ClosesOnCleanScan new as := by
  refine always_iff_eachStep (I := fun s => SendersOk s ∧ BehindOk s)
    (fun s a s' hs h => ⟨sendersOk_step hs.1 h, behindOk_step hs.2 h⟩)
    (fun s a s' hs hp h => nothingLeft_step hs.1 hs.2 hp h) as ⟨sendersOk_new, ?_⟩ ?_
  · exact ⟨fun h => h.elim, by simp [new]⟩
  · simp [NothingLeft, new]

/-- The last sender pushes and goes between the empty scan and the load of `end_flag`. -/
theorem left_behind_by_last_sender :
    ¬ ∀ (as : List (Action ℕ ℕ Unit)) (s : PriorityChan ℕ ℕ Unit),
      run step new as = some s → NothingLeft s := by
  intro h
  have hleft := h [.poll (), .recv false, .recv false, .send 0 7 3, .sender 0, .sender 0, .sender 0,
    .sender 0, .sender 0, .sender 0, .drop 0, .sender 0, .recv false] _ rfl () rfl
  revert hleft
  decide

end PaQueueAndChan.Priority.PriorityChan
