import PaQueueAndChan.Priority.Conservation

/-! What a pop returns while senders push. The scan visits the queues in ascending order and never
looks back, so an item that lies ahead of it is not passed by. -/

namespace PaQueueAndChan.Priority.PriorityChan

open Library

variable {I P W : Type*} [LinearOrder P]

-- `pop` has the read lock or is about to take it
def popping (s : PriorityChan I P W) : Bool :=
  match s.recv with
  | .polling _ (.lock _) | .polling _ (.scan _ _) => true
  | _ => false

/-- The pop that is running has still to look under `p`. -/
def Ahead (s : PriorityChan I P W) (p : P) : Prop :=
  match s.recv with
  | .polling _ (.lock _) => True
  | .polling _ (.scan _ rest) => p ∈ rest
  | _ => False

def Ascending (s : PriorityChan I P W) : Prop :=
  ∀ w second rest, s.recv = .polling w (.scan second rest) → rest.Pairwise (· < ·)

variable [DecidableEq W] {s s' : PriorityChan I P W} {a : Action I P W} {p : P} {i : I}

lemma senderStep_recv {t : ℕ} (h : s.senderStep t = some s') : s'.recv = s.recv := by
  revert h
  fun_cases senderStep s t <;> rintro ⟨⟩ <;> simp

lemma ascending_step (hs : Ascending s) (h : s.step a = some s') : Ascending s' := by
  cases step_moves h with
  | handle => exact hs
  | sender h => simpa only [Ascending, senderStep_recv h] using hs
  | poll => simp [Ascending]
  | @recv b w pc hr =>
    cases pc with
    | lock second =>
      rintro w' second' rest hrest
      simp only [pollStep, setPoll_recv, Recv.polling.injEq, PollPc.scan.injEq] at hrest
      obtain ⟨-, -, rfl⟩ := hrest
      exact s.queue.map.keys_sorted
    | scan second rest =>
      have hsorted := hs w second rest hr
      cases rest with
      | nil => simp [Ascending, pollStep]
      | cons p ps =>
        rintro w' second' rest hrest
        simp only [pollStep] at hrest
        split at hrest
        · simp at hrest
        · simp only [setPoll_recv, Recv.polling.injEq, PollPc.scan.injEq] at hrest
          obtain ⟨-, -, rfl⟩ := hrest
          exact (List.pairwise_cons.mp hsorted).2
    | _ =>
      rintro w' second' rest hrest
      simp only [pollStep] at hrest
      (first | split_ifs at hrest | skip) <;> simp at hrest

omit [DecidableEq W] in
lemma mem_keys_of_stored (h : s.queue.queueAt p ≠ []) : p ∈ s.queue.map.keys := by
  rw [FinMap.mem_keys]
  cases hg : s.queue.map.get p with
  | none => simp [PriorityQueue.queueAt, hg] at h
  | some l => exact ⟨l, rfl⟩

lemma queueAt_senderStep {t : ℕ} (hq : s.queue.queueAt p ≠ []) (h : s.senderStep t = some s') :
    s'.queue.queueAt p ≠ [] := by
  cases senderStep_queue h with
  | same _ hsame => rwa [hsame]
  | pushRead _ hpush =>
    rw [PriorityQueue.pushRead_queueAt hpush]
    split_ifs <;> simp [hq]
  | pushWrite _ _ hpush =>
    rw [hpush, PriorityQueue.pushWrite_queueAt]
    split_ifs <;> simp [hq]

lemma ahead_step (hs : Ahead s p ∧ s.queue.queueAt p ≠ []) (h : s.step a = some s')
    (hpop : s'.popping = true) : Ahead s' p ∧ s'.queue.queueAt p ≠ [] := by
  obtain ⟨ha, hq⟩ := hs
  cases step_moves h with
  | handle => exact ⟨ha, hq⟩
  | sender h => exact ⟨by simpa only [Ahead, senderStep_recv h] using ha, queueAt_senderStep hq h⟩
  | poll hr => simp [Ahead, hr] at ha
  | @recv b w pc hr =>
    cases pc with
    | lock second => exact ⟨by simpa [Ahead, pollStep] using mem_keys_of_stored hq, hq⟩
    | scan second rest =>
      cases rest with
      | nil => simp [Ahead, hr] at ha
      | cons p₀ ps =>
        simp only [pollStep] at hpop ⊢
        split at hpop
        · simp [popping] at hpop
        · rename_i hnone
          obtain ⟨-, hempty⟩ := PriorityQueue.popAt_none hnone
          have hne : p ≠ p₀ := by
            rintro rfl
            exact hq hempty
          have hmem : p = p₀ ∨ p ∈ ps := by simpa [Ahead, hr] using ha
          exact ⟨by simpa [Ahead] using hmem.resolve_left hne, by simpa using hq⟩
    | _ => simp [Ahead, hr] at ha

lemma step_ready {w : W} (hs : Ascending s) (h : s.step a = some s')
    (hr : s'.recv = .idle (some (w, .ready (some i)))) (hold : s'.recv ≠ s.recv) :
    ∃ p, s.queue.queueAt p = i :: s'.queue.queueAt p ∧ ∀ p', Ahead s p' → p ≤ p' := by
  cases step_moves h with
  | handle => exact (hold rfl).elim
  | sender h => exact (hold (senderStep_recv h)).elim
  | poll => simp at hr
  | @recv b w' pc hpoll =>
    cases pc with
    | scan second rest =>
      cases rest with
      | nil => simp [pollStep] at hr
      | cons p ps =>
        cases hp : s.queue.popAt p with
        | mk o q =>
          cases o with
          | none => simp [pollStep, hp] at hr
          | some j =>
            obtain ⟨-, rfl⟩ : w' = w ∧ j = i := by simpa [pollStep, hp] using hr
            refine ⟨p, ?_, fun p' hp' => ?_⟩
            · simpa [pollStep, hp] using (PriorityQueue.popAt_queueAt hp).1
            · have hmem : p' = p ∨ p' ∈ ps := by simpa [Ahead, hpoll] using hp'
              rcases hmem with rfl | hmem
              · exact le_rfl
              · exact ((List.pairwise_cons.mp (hs _ _ _ hpoll)).1 p' hmem).le
    | _ =>
      simp only [pollStep] at hr
      (first | split_ifs at hr | skip) <;> simp at hr

lemma not_ahead_of_load {c b : Bool} {w : W} (h : s.step (.recv c) = some s')
    (hpop : s.popping = true) (hr : s'.recv = .polling w (.load b)) (p : P) : ¬ Ahead s p := by
  cases step_moves h with
  | handle _ _ _ hne => exact (hne c rfl).elim
  | @recv _ w' pc hpoll =>
    cases pc with
    | lock second => simp [pollStep] at hr
    | scan second rest =>
      cases rest with
      | nil => simp [Ahead, hpoll]
      | cons p₀ ps =>
        simp only [pollStep] at hr
        split at hr <;> simp at hr
    | _ => simp [popping, hpoll] at hpop

lemma ahead_run {s₁ s₂ : PriorityChan I P W} {bs : List (Action I P W)} (ha : Ahead s₁ p)
    (hq : s₁.queue.queueAt p ≠ []) (hpop : Always step (fun s => s.popping = true) s₁ bs)
    (h : run step s₁ bs = some s₂) : Ahead s₂ p ∧ s₂.queue.queueAt p ≠ [] :=
  run_invariant_while (I := fun s => Ahead s p ∧ s.queue.queueAt p ≠ [])
    (fun _ _ _ hs h hpop => ahead_step hs h hpop) ⟨ha, hq⟩ hpop h

omit [DecidableEq W] in
lemma ascending_new : Ascending (new : PriorityChan I P W) := by simp [Ascending, new]

/-- An item stored under `p` before the running pop has looked there keeps this pop from returning
anything of a larger priority. -/
theorem no_inversion_ahead_of_scan (as bs : List (Action I P W)) (c : Bool)
    (s₁ s₂ s₃ : PriorityChan I P W) (a b : I) (p : P) (w : W) (h₁ : run step new as = some s₁)
    (ha : a ∈ s₁.queue.queueAt p) (hp : Ahead s₁ p) (h₂ : run step s₁ bs = some s₂)
    (hpop : Always step (fun s => s.popping = true) s₁ bs) (h₃ : s₂.step (.recv c) = some s₃)
    (hret : s₃.recv = .idle (some (w, .ready (some b)))) :
    ∃ q, q ≤ p ∧ s₂.queue.queueAt q = b :: s₃.queue.queueAt q := by
  have hasc : Ascending s₂ := run_invariant (fun _ _ _ => ascending_step)
    ascending_new ((run_append h₁).trans h₂)
  obtain ⟨hahead, -⟩ := ahead_run hp (List.ne_nil_of_mem ha) hpop h₂
  have hold : s₃.recv ≠ s₂.recv := by
    intro he
    rw [Ahead, ← he, hret] at hahead
    exact hahead
  obtain ⟨q, hq, hle⟩ := step_ready hasc h₃ hret hold
  exact ⟨q, hle p hahead, hq⟩

-- a whole `send_sync`, under a priority that has a queue or not, while no poll registers
def sendSync (i p : ℕ) (known : Bool) : List (Action ℕ ℕ Unit) :=
  .send 0 i p :: List.replicate (if known then 5 else 6) (.sender 0)

def twoStored : List (Action ℕ ℕ Unit) :=
  sendSync 20 2 false ++ sendSync 30 3 false ++ [.poll ()]

theorem no_inversion_ahead_of_scan_twoStored :
    ∃ s₁ s₂ s₃, run step new twoStored = some s₁ ∧ 30 ∈ s₁.queue.queueAt 3 ∧
      run step s₁ [.recv false] = some s₂ ∧ s₂.step (.recv false) = some s₃ ∧
      ∃ q, q ≤ 3 ∧ s₂.queue.queueAt q = 20 :: s₃.queue.queueAt q :=
  ⟨_, _, _, rfl, List.mem_singleton.mpr rfl, rfl, rfl,
    no_inversion_ahead_of_scan twoStored [.recv false] false _ _ _ 30 20 3 ()
      (show run step new twoStored = some _ from rfl) (List.mem_singleton.mpr rfl) trivial rfl
      ⟨rfl, by rintro _ ⟨⟩; rfl⟩ rfl rfl⟩

-- both queues have been emptied, and the scan has just looked under 1
def passedOne : List (Action ℕ ℕ Unit) :=
  sendSync 1 1 false ++ sendSync 2 2 false ++ [.poll (), .recv false, .recv false, .poll (),
    .recv false, .recv false, .recv false, .poll (), .recv false, .recv false] ++
    sendSync 10 1 true

/-- An item pushed behind the scan is passed by, and one pushed after it under a larger priority is
returned. -/
theorem inversion_behind_scan :
    ¬ ∀ (as bs : List (Action ℕ ℕ Unit)) (c : Bool) (s₁ s₂ s₃ : PriorityChan ℕ ℕ Unit)
      (a b p q : ℕ) (w : Unit), run step new as = some s₁ →
      p ∈ s₁.queue.map.keys → q ∈ s₁.queue.map.keys → p < q →
      -- the push of `a` is over and that of `b` has not begun
      a ∈ s₁.queue.queueAt p → b ∉ s₁.pushed → (∀ t ∈ s₁.senders.live, s₁.senders.pc t = .idle) →
      run step s₁ bs = some s₂ → s₂.step (.recv c) = some s₃ →
      s₃.recv = .idle (some (w, .ready (some b))) →
      s₂.queue.queueAt q = b :: s₃.queue.queueAt q → a ∉ s₃.queue.queueAt p := by
  intro h
  obtain ⟨s₁, s₂, s₃, h₁, h₂, h₃, hkeys, ha, hpushed, hlive, hpc, hret, hb, hleft⟩ :
      ∃ s₁ s₂ s₃, run step new passedOne = some s₁ ∧
        run step s₁ (sendSync 20 2 true) = some s₂ ∧ s₂.step (.recv false) = some s₃ ∧
        s₁.queue.map.keys = [1, 2] ∧ s₁.queue.queueAt 1 = [10] ∧ s₁.pushed = {1, 2, 10} ∧
        s₁.senders.live = {0} ∧ s₁.senders.pc 0 = .idle ∧
        s₃.recv = .idle (some ((), .ready (some 20))) ∧
        s₂.queue.queueAt 2 = 20 :: s₃.queue.queueAt 2 ∧ s₃.queue.queueAt 1 = [10] :=
    ⟨_, _, _, rfl, rfl, rfl, rfl, rfl, rfl, rfl, rfl, rfl, rfl, rfl⟩
  refine h passedOne (sendSync 20 2 true) false s₁ s₂ s₃ 10 20 1 2 () h₁ (by simp [hkeys])
    (by simp [hkeys]) (by decide) (by simp [ha]) (by simp [hpushed]) ?_ h₂ h₃ hret hb
    (by simp [hleft])
  simp [hlive, hpc]

def pushes (s : PriorityChan I P W) : Action I P W → List (I × P)
  | .sender t =>
    match s.senders.pc t with
    | .checked i p => if s.queue.map.contains p then [(i, p)] else []
    | .missing i p => [(i, p)]
    | _ => []
  | _ => []

def under (p : P) (log : List (I × P)) : List I := (log.filter fun e => e.2 = p).map Prod.fst

lemma queueAt_senderStep_suffix {t : ℕ} (h : s.senderStep t = some s') (p : P) :
    s'.queue.queueAt p <:+ s.queue.queueAt p ++ under p (pushes s (.sender t)) := by
  cases hpc : s.senders.pc t with
  | checked i p' =>
    simp only [senderStep, hpc] at h
    split at h <;> rename_i hq <;> obtain rfl := Option.some.inj h
    · have hc : s.queue.map.contains p' = true :=
        FinMap.contains_iff.mpr (FinMap.mem_keys.mp (PriorityQueue.pushRead_eq_some hq).1)
      rw [setPc_queue, notePush_queue, PriorityQueue.pushRead_queueAt hq]
      simp only [pushes, hpc, hc, if_true, under]
      by_cases hp : p = p'
      · simp [hp]
      · simp [hp, Ne.symm hp]
    · have hc : ¬ s.queue.map.contains p' = true := by
        intro hc
        simp [PriorityQueue.pushRead, hc] at hq
      simp [pushes, hpc, hc, under]
  | missing i p' =>
    simp only [senderStep, hpc] at h
    split_ifs at h
    obtain rfl := Option.some.inj h
    rw [setPc_queue, notePush_queue, PriorityQueue.pushWrite_queueAt]
    simp only [pushes, hpc, under]
    by_cases hp : p = p'
    · simp [hp]
    · simp [hp, Ne.symm hp]
  | idle => simp [senderStep, hpc] at h
  | _ =>
    simp only [senderStep, hpc] at h
    (first | split_ifs at h | skip) <;> obtain rfl := Option.some.inj h <;>
      simp [pushes, hpc, under]

lemma queueAt_step (h : s.step a = some s') (p : P) :
    s'.queue.queueAt p <:+ s.queue.queueAt p ++ under p (pushes s a) := by
  cases step_moves h with
  | handle senders hs =>
    have hnone : pushes s a = [] := by
      cases a with
      | sender t => exact (hs t rfl).elim
      | _ => rfl
    simp [hnone, under]
  | sender h => exact queueAt_senderStep_suffix h p
  | poll => simp [pushes, under]
  | @recv b w pc hr =>
    simp only [pushes, under, List.filter_nil, List.map_nil, List.append_nil]
    cases pollStep_queue (b := b) hr with
    | same _ hq => rw [hq]
    | @pop _ _ _ p' _ _ _ _ hq =>
      by_cases hp : p = p'
      · subst hp
        rw [(PriorityQueue.popAt_queueAt hq).1]
        exact List.suffix_cons ..
      · rw [(PriorityQueue.popAt_queueAt hq).2 p hp]

lemma queueAt_run {as : List (Action I P W)} (h : run step s as = some s') (p : P) :
    s'.queue.queueAt p <:+ s.queue.queueAt p ++ under p (trace step pushes s as) := by
  induction as generalizing s with
  | nil =>
    obtain rfl := Option.some.inj h
    simp [trace, under]
  | cons a as ih =>
    obtain ⟨u, hu, hr⟩ := run_cons_some h
    obtain ⟨l, hl⟩ := queueAt_step hu p
    have hsplit : under p (trace step pushes s (a :: as)) =
        under p (pushes s a) ++ under p (trace step pushes u as) := by
      simp [trace_cons hu, under]
    rw [hsplit, ← List.append_assoc, ← hl, List.append_assoc]
    exact (ih hr).trans (List.suffix_append ..)

/-- A pop takes the read lock in `s₀` and ends with the step from `s₂` to `s₃`. If it returns an
item of priority `p`, nothing of a smaller priority was stored in `s₀`, and the item is the first
pushed of those then stored under `p`; if it returns nothing, nothing was stored in `s₀`. -/
theorem pop_sees_what_was_stored (as bs : List (Action I P W)) (c c' b : Bool)
    (s₀ s₁ s₂ s₃ : PriorityChan I P W) (w : W) (h₀ : run step new as = some s₀)
    (hlock : s₀.recv = .polling w (.lock b)) (h₁ : s₀.step (.recv c) = some s₁)
    (h₂ : run step s₁ bs = some s₂) (hpop : Always step (fun s => s.popping = true) s₁ bs)
    (h₃ : s₂.step (.recv c') = some s₃) :
    (∀ w' i, s₃.recv = .idle (some (w', .ready (some i))) →
      ∃ p, s₂.queue.queueAt p = i :: s₃.queue.queueAt p ∧
        (∀ p', p' < p → s₀.queue.queueAt p' = []) ∧
        s₂.queue.queueAt p <:+ under p (trace step pushes new (as ++ .recv c :: bs))) ∧
      ∀ w' b', s₃.recv = .polling w' (.load b') → s₀.queue.stored = 0 := by
  have hwhole : run step new (as ++ .recv c :: bs) = some s₂ := by
    rw [run_append h₀, run_cons, h₁]
    exact h₂
  have hseen : ∀ p', s₀.queue.queueAt p' ≠ [] → Ahead s₂ p' := by
    intro p' hne
    have hahead : Ahead s₀ p' := by simp [Ahead, hlock]
    have hs₁ := ahead_step ⟨hahead, hne⟩ h₁ hpop.head
    exact (ahead_run hs₁.1 hs₁.2 hpop h₂).1
  have hlast : s₂.popping = true := hpop.last h₂
  constructor
  · intro w' i hret
    have hold : s₃.recv ≠ s₂.recv := by
      intro he
      simp [popping, ← he, hret] at hlast
    obtain ⟨p, hq, hle⟩ := step_ready (run_invariant (fun _ _ _ => ascending_step)
      ascending_new hwhole) h₃ hret hold
    refine ⟨p, hq, fun p' hp' => ?_, queueAt_run hwhole p⟩
    by_contra hne
    exact (hle p' (hseen p' hne)).not_gt hp'
  · intro w' b' hload
    rw [PriorityQueue.stored_eq_zero]
    intro p
    by_contra hne
    exact not_ahead_of_load h₃ hlast hload p (hseen p hne)

def bothEmptied : List (Action ℕ ℕ Unit) :=
  sendSync 1 1 false ++ sendSync 2 2 false ++ [.poll (), .recv false, .recv false, .poll (),
    .recv false, .recv false, .recv false, .poll ()]

def pushedBehind : List (Action ℕ ℕ Unit) := [.recv false] ++ sendSync 10 1 true ++ [.recv false]

theorem pop_sees_what_was_stored_twenty_and_nothing :
    (∃ s₀ s₁ s₂ s₃, run step new twoStored = some s₀ ∧ s₀.step (.recv false) = some s₁ ∧
      run step s₁ [.send 0 21 2, .sender 0] = some s₂ ∧ s₂.step (.recv false) = some s₃ ∧
      s₃.recv = .idle (some ((), .ready (some 20))) ∧
      ∃ p, s₂.queue.queueAt p = 20 :: s₃.queue.queueAt p ∧
        (∀ p', p' < p → s₀.queue.queueAt p' = []) ∧
        s₂.queue.queueAt p <:+ under p
          (trace step pushes new (twoStored ++ .recv false :: [.send 0 21 2, .sender 0]))) ∧
      ∃ s₀ s₁ s₂ s₃, run step new bothEmptied = some s₀ ∧ s₀.step (.recv false) = some s₁ ∧
        run step s₁ pushedBehind = some s₂ ∧ s₂.step (.recv false) = some s₃ ∧
        s₃.recv = .polling () (.load false) ∧ s₃.queue.queueAt 1 = [10] ∧ s₀.queue.stored = 0 := by
  refine ⟨⟨_, _, _, _, rfl, rfl, rfl, rfl, rfl, ?_⟩, _, _, _, _, rfl, rfl, rfl, rfl, rfl, rfl, ?_⟩
  · exact (pop_sees_what_was_stored twoStored [.send 0 21 2, .sender 0] false false false _ _ _ _
      () (show run step new twoStored = some _ from rfl) rfl rfl rfl (by decide) rfl).1 () 20 rfl
  · exact (pop_sees_what_was_stored bothEmptied pushedBehind false false false _ _ _ _ ()
      (show run step new bothEmptied = some _ from rfl) rfl rfl rfl (by decide) rfl).2 () false rfl

end PaQueueAndChan.Priority.PriorityChan
