import PaQueueAndChan.LinkQueue.Queue

/-! A pusher goes round its loop only because another one got ahead of it. -/

namespace PaQueueAndChan.LinkQueue

open Library

variable {T : Type*}

def PushPc.left : PushPc T → ℤ
  | .load .. => 2
  | .exchange .. => 1
  | .count .. => 2
  | .link .. => 1
  | .idle => 0

-- `tail` has moved since the pusher has read it
def PushPc.outdated (tail : Ptr) : PushPc T → ℤ
  | .exchange _ _ oldtail => if tail = oldtail then 0 else 1
  | _ => 0

def Action.steps (p : ℕ) : Action T → ℤ
  | .pushStep q _ => if q = p then 1 else 0
  | _ => 0

def Action.cost (p : ℕ) : Action T → ℤ
  | .push q _ => if q = p then 2 else 0
  | .pushStep q spurious => if q = p ∧ spurious = true then 2 else 0
  | _ => 0

namespace LockfreeMpscLinkQueue

variable {s s' : LockfreeMpscLinkQueue T} {a : Action T} {p q : ℕ}

def due (s : LockfreeMpscLinkQueue T) (p : ℕ) : ℤ :=
  (s.pushers p).left + 2 * (s.pushers p).outdated s.tail - 2 * s.pushed.length

lemma PushPc.outdated_le (c : PushPc T) (tail tail' : Ptr) :
    c.outdated tail ≤ c.outdated tail' + 1 := by
  unfold PushPc.outdated
  split
  · split_ifs <;> omega
  · omega

lemma popStep_frame (h : s.popStep = some s') :
    s'.pushers = s.pushers ∧ s'.tail = s.tail ∧ s'.pushed = s.pushed := by
  revert h
  fun_cases popStep s <;> rintro ⟨⟩ <;> exact ⟨rfl, rfl, rfl⟩

lemma due_other {spurious : Bool} (hq : q ≠ p) (h : s.pushStep q spurious = some s') :
    s'.due p ≤ s.due p := by
  unfold pushStep at h
  split at h
  · cases h
  · obtain rfl := Option.some.inj h
    simp [due, Ne.symm hq]
  · next new t oldtail _ =>
    split_ifs at h <;> obtain rfl := Option.some.inj h
    · have hle := PushPc.outdated_le (s.pushers p) new s.tail
      simp only [due, setPush_pushers, setPush_tail, setPush_pushed, Function.update_of_ne hq.symm,
        List.length_append, List.length_singleton]
      omega
    · simp [due, Ne.symm hq]
  · obtain rfl := Option.some.inj h
    simp [due, Ne.symm hq]
  · obtain rfl := Option.some.inj h
    simp [due, storeNext, Ne.symm hq]

lemma due_own {spurious : Bool} (h : s.pushStep p spurious = some s') :
    s'.due p + 1 ≤ s.due p + if spurious = true then 2 else 0 := by
  unfold pushStep at h
  split at h
  · cases h
  · next hp =>
    obtain rfl := Option.some.inj h
    simp only [due, setPush_pushers, setPush_tail, setPush_pushed, Function.update_self, hp,
      PushPc.left, PushPc.outdated]
    split_ifs <;> omega
  · next new t oldtail hp =>
    split_ifs at h with hc <;> obtain rfl := Option.some.inj h
    · obtain ⟨hc, rfl⟩ := hc
      simp only [due, setPush_pushers, setPush_pushed, Function.update_self, hp,
        PushPc.left, PushPc.outdated, hc, if_true, List.length_append, List.length_singleton]
      split_ifs <;> omega
    · -- it has failed because of `tail`, or for no reason
      have hwhy : s.tail = oldtail → spurious = true := by simpa using hc
      simp only [due, setPush_pushers, setPush_pushed, Function.update_self, hp,
        PushPc.left, PushPc.outdated]
      split_ifs with ht hs
      · omega
      · exact (hs (hwhy ht)).elim
      · omega
      · omega
  · next hp =>
    obtain rfl := Option.some.inj h
    simp only [due, setPush_pushers, setPush_pushed, Function.update_self, hp,
      PushPc.left, PushPc.outdated]
    split_ifs <;> omega
  · next hp =>
    obtain rfl := Option.some.inj h
    simp only [due, storeNext, setPush_pushers, setPush_pushed, setNode_pushed, touch_pushed,
      Function.update_self, hp, PushPc.left, PushPc.outdated]
    split_ifs <;> omega

lemma due_step (h : s.step a = some s') (p : ℕ) :
    s'.due p + a.steps p ≤ s.due p + a.cost p := by
  cases a with
  | push q t =>
    simp only [step] at h
    split at h
    · next hq =>
      obtain rfl := Option.some.inj h
      by_cases hpq : q = p
      · subst hpq
        simp [due, hq, PushPc.left, PushPc.outdated, Action.steps, Action.cost]
      · simp [due, hpq, Ne.symm hpq, Action.steps, Action.cost]
    · cases h
  | pushStep q spurious =>
    by_cases hpq : q = p
    · subst hpq
      simpa [Action.steps, Action.cost] using due_own h
    · simpa [Action.steps, Action.cost, hpq] using due_other hpq h
  | pop =>
    simp only [step] at h
    split at h
    · obtain rfl := Option.some.inj h
      simp [due, Action.steps, Action.cost]
    · cases h
  | popStep =>
    obtain ⟨hpushers, htail, hpushed⟩ := popStep_frame h
    simp [due, hpushers, htail, hpushed, Action.steps, Action.cost]

lemma left_nonneg (c : PushPc T) (tail : Ptr) : 0 ≤ c.left + 2 * c.outdated tail := by
  unfold PushPc.left PushPc.outdated
  cases c <;> simp only <;> (first | split_ifs | skip) <;> omega

/-- `push` is lock-free: in every run a pusher takes at most two steps for each of its calls, two
for each weak exchange of its own that fails for no reason, and two for each exchange of any pusher
that succeeds; and inside a call it can always take its next step. -/
theorem push_is_lock_free (as : List (Action T)) (s : LockfreeMpscLinkQueue T)
    (h : run step new as = some s) (p : ℕ) :
    (as.map (Action.steps p)).sum ≤ (as.map (Action.cost p)).sum + 2 * s.pushed.length ∧
      (s.pushers p ≠ .idle → ∀ spurious, ∃ s', s.step (.pushStep p spurious) = some s') := by
  constructor
  · have hle := run_add_le (I := fun _ => True) (f := fun s => s.due p)
      (fun _ _ _ _ h => ⟨trivial, due_step h p⟩) trivial h
    have hnew : (new : LockfreeMpscLinkQueue T).due p = 0 := rfl
    have hleft := left_nonneg (s.pushers p) s.tail
    rw [hnew] at hle
    unfold due at hle
    omega
  · intro hp spurious
    simp only [step, pushStep]
    split
    · next hidle => exact (hp hidle).elim
    · exact ⟨_, rfl⟩
    · split_ifs <;> exact ⟨_, rfl⟩
    · exact ⟨_, rfl⟩
    · exact ⟨_, rfl⟩

def overtaken : List (Action ℕ) :=
  [.push 0 5, .pushStep 0 false, .push 1 6] ++ List.replicate 4 (.pushStep 1 false) ++
    [.pushStep 0 false, .pushStep 0 false, .pushStep 0 true] ++ List.replicate 4 (.pushStep 0 false)

theorem push_is_lock_free_overtaken :
    ∃ s, run step new overtaken = some s ∧ s.pushed.map Prod.snd = [6, 5] ∧
      (overtaken.map (Action.steps 0)).sum = 8 ∧
      (overtaken.map (Action.steps 0)).sum ≤
        (overtaken.map (Action.cost 0)).sum + 2 * s.pushed.length ∧
      (s.pushers 0 ≠ .idle → ∀ spurious, ∃ s', s.step (.pushStep 0 spurious) = some s') :=
  ⟨_, rfl, rfl, rfl, push_is_lock_free overtaken _
    (show run step new overtaken = some _ from rfl) 0⟩

end LockfreeMpscLinkQueue

end PaQueueAndChan.LinkQueue
