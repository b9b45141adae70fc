import PaQueueAndChan.AtomicWaker.Accounting

/-! No `wake` is lost. Where a call of `wake` finds the cell locked it leaves the waking bit behind,
and the thread that holds the lock does not give it back before it has taken every waker along. -/

namespace PaQueueAndChan.Waking

open Library Priority

/-- `w` is kept by a registration, to be put into the cell or to be displaced from it. -/
def Pc.Keeps (w : ℕ) : Pc → Prop
  | .takeOld w' => w' = w
  | .putNew old w' => old = some w ∨ w' = w
  | .publish old _ => old = some w
  | _ => False

def Pc.Delivers (w : ℕ) : Pc → Prop
  | .reclaim old _ => old = some w
  | .swap old new _ | .wakeOld old new _ => old = some w ∨ new = some w
  | .wakeNew new _ => new = some w
  | .releasing w' | .waking w' => w' = some w
  | _ => False

def Pc.left : Pc → ℕ
  | .idle | .failed => 0
  | .dropOld _ | .wakeSelf _ | .waking _ | .wakeNew _ _ => 1
  | .wakeOld _ _ _ | .releasing _ => 2
  | .swap _ _ _ | .taking => 3
  | .reclaim _ _ | .wake => 4
  | .publish _ _ => 5
  | .putNew _ _ => 6
  | .takeOld _ => 7
  | .into _ => 8
  | .register _ => 9

variable {ι : Type*} [DecidableEq ι] in
def Action.steps (t : ι) : Action ι → ℕ
  | .step u _ => if u = t then 1 else 0
  | _ => 0

variable {ι : Type*} [DecidableEq ι] in
def Action.cost (t : ι) : Action ι → ℕ
  | .register u => if u = t then 9 else 0
  | .wake u => if u = t then 4 else 0
  | .step _ _ => 0

lemma Pc.Keeps.owns {c : Pc} {w : ℕ} (h : c.Keeps w) : c.owns = true := by
  cases c <;> first | rfl | exact h.elim

namespace Wakers

variable {ι : Type*} {s s' : Wakers ι} {owner : Option ι} {t u : ι} {a : Action ι} {c : Pc} {w : ℕ}

def Registered (w : ℕ) (s : Wakers ι) : Prop :=
  s.cell.waker = some w ∨ ∃ t, (s.pc t).Keeps w

/-- `w` has been woken, or some call will do it. -/
def Owed (w : ℕ) (s : Wakers ι) : Prop :=
  w ∈ s.woken ∨ (∃ t, (s.pc t).Delivers w) ∨ s.cell.state.waking = true ∧ Registered w s

lemma Owed.at_rest (hl : LockOk s owner) (hs : Owed w s) (hidle : ∀ t, s.pc t = .idle) :
    w ∈ s.woken := by
  rcases hs with h | ⟨t, ht⟩ | ⟨hb, -⟩
  · exact h
  · rw [hidle t] at ht
    exact ht.elim
  · -- nobody holds the lock, so no bit is set
    have hnone : owner = none := by
      by_contra hne
      obtain ⟨t, ht⟩ := Option.ne_none_iff_exists'.mp hne
      have := (hl.owns t).mpr ht
      simp [hidle t, Pc.owns, Pc.registering] at this
    simp [hl.free hnone, WAITING] at hb

variable [DecidableEq ι]

lemma Owed.of_moves (hs : Owed w s) {v : Wakers ι} (hwoken : s.woken ≤ v.woken)
    (hpc : v.pc = Function.update s.pc t c)
    (hd : (s.pc t).Delivers w → c.Delivers w ∨ w ∈ v.woken)
    (hr : s.cell.state.waking = true → Registered w s → Owed w v) : Owed w v := by
  rcases hs with h | ⟨u, hu⟩ | ⟨hb, h⟩
  · exact Or.inl (Multiset.mem_of_le hwoken h)
  · by_cases hut : u = t
    · subst hut
      rcases hd hu with h | h
      · exact Or.inr (Or.inl ⟨u, by rwa [hpc, Function.update_self]⟩)
      · exact Or.inl h
    · exact Or.inr (Or.inl ⟨u, by rwa [hpc, Function.update_of_ne hut]⟩)
  · exact hr hb h

lemma Registered.keep (hs : Registered w s) {v : Wakers ι} (hcell : v.cell.waker = s.cell.waker)
    (hpc : v.pc = Function.update s.pc t c) (hk : (s.pc t).Keeps w → c.Keeps w) :
    Registered w v := by
  rcases hs with h | ⟨u, hu⟩
  · exact Or.inl (hcell ▸ h)
  · refine Or.inr ⟨u, ?_⟩
    rw [hpc]
    by_cases hut : u = t
    · subst hut
      simpa using hk hu
    · rwa [Function.update_of_ne hut]

lemma Registered.owed {panics : Bool} (hr : Registered w s) (hpc : s.pc t = .wake)
    (h : s.step (.step t panics) = some s') : Owed w s' := by
  have hk : (s.pc t).Keeps w → False := by
    rw [hpc]
    exact id
  simp only [step, hpc, stepAt] at h
  split_ifs at h <;> obtain rfl := Option.some.inj h <;>
    exact Or.inr (Or.inr ⟨rfl, hr.keep rfl rfl fun h => (hk h).elim⟩)

lemma left_stepAt {panics : Bool} (h : s.stepAt t panics (s.pc t) = some s') :
    (s'.pc t).left + 1 ≤ (s.pc t).left ∧ ∀ u, u ≠ t → s'.pc u = s.pc u := by
  revert h
  generalize s.pc t = c
  fun_cases stepAt s t panics c <;> rintro ⟨⟩ <;>
    refine ⟨?_, fun u hu => Function.update_of_ne hu ..⟩ <;>
    simp only [goto_pc, Function.update_self]
  case case15 => split_ifs <;> simp [Pc.left]
  all_goals simp [Pc.left]

lemma left_step (h : s.step a = some s') (t : ι) :
    (s'.pc t).left + a.steps t ≤ (s.pc t).left + a.cost t := by
  cases a with
  | register u =>
    simp only [step] at h
    split_ifs at h with hpc
    obtain rfl := Option.some.inj h
    by_cases hu : u = t
    · subst hu
      simp [Pc.left, hpc, Action.steps, Action.cost]
    · simp [Function.update_of_ne (Ne.symm hu), Action.steps, Action.cost, hu]
  | wake u =>
    simp only [step] at h
    split_ifs at h with hpc
    obtain rfl := Option.some.inj h
    by_cases hu : u = t
    · subst hu
      simp [Pc.left, hpc, Action.steps, Action.cost]
    · simp [Function.update_of_ne (Ne.symm hu), Action.steps, Action.cost, hu]
  | step u panics =>
    obtain ⟨hlt, hrest⟩ := left_stepAt h
    by_cases hu : u = t
    · subst hu
      simpa [Action.steps, Action.cost] using hlt
    · simp [Action.steps, Action.cost, hu, hrest t (Ne.symm hu)]

lemma LockOk.enabled (hl : LockOk s owner) (hpc : s.pc t ≠ .idle) (panics : Bool) :
    ∃ s', s.step (.step t panics) = some s' := by
  have hk := hl.knows t
  simp only [step]
  cases hc : s.pc t with
  | idle => exact (hpc hc).elim
  | failed =>
    rw [hc] at hk
    exact hk.elim
  | wakeNew new panic =>
    cases new with
    | none => exact ⟨_, rfl⟩
    | some w =>
      rw [stepAt]
      split_ifs <;> exact ⟨_, rfl⟩
  | _ =>
    rw [stepAt]
    (first | split_ifs | skip) <;> exact ⟨_, rfl⟩

variable [Fintype ι]

end Wakers

def wokenBeforeStored : List (Action (Fin 2)) :=
  [.register 0, .step 0 false, .step 0 false, .wake 1]

/-- Whatever the other threads do, a thread needs at most nine steps for a call of
`register_by_ref` and four for one of `wake`, and it can always take the next one. -/
theorem calls_are_wait_free {ι : Type*} [DecidableEq ι] (as : List (Action ι)) (s : Wakers ι)
    (h : run Wakers.step Wakers.new as = some s) (t : ι) :
    (as.map (Action.steps t)).sum ≤ (as.map (Action.cost t)).sum ∧
      (s.pc t ≠ .idle → ∀ panics, ∃ s', s.step (.step t panics) = some s') := by
  obtain ⟨owner, hl⟩ := Wakers.lockOk_run h
  refine ⟨?_, fun hpc => hl.enabled hpc⟩
  have hle := run_add_le (I := fun _ => True) (f := fun s : Wakers ι => (s.pc t).left)
    (g := Action.steps t) (h := Action.cost t)
    (fun s a s' _ h => ⟨trivial, Wakers.left_step h t⟩) trivial h
  have hnew : ((Wakers.new : Wakers ι).pc t).left = 0 := rfl
  rw [hnew] at hle
  omega

theorem calls_are_wait_free_wokenBeforeStored :
    ∃ s, run Wakers.step Wakers.new wokenBeforeStored = some s ∧
      (wokenBeforeStored.map (Action.steps 0)).sum ≤ (wokenBeforeStored.map (Action.cost 0)).sum ∧
      (s.pc 0 ≠ .idle → ∀ panics, ∃ s', s.step (.step 0 panics) = some s') :=
  ⟨_, rfl, calls_are_wait_free wokenBeforeStored _
    (show run Wakers.step Wakers.new wokenBeforeStored = some _ from rfl) 0⟩

end PaQueueAndChan.Waking
