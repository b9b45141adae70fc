import PaQueueAndChan.Priority.Scan

/-! What is popped of one priority, in the order of its pushes. A write section that throws a queue
away makes a gap and changes no order. -/

namespace PaQueueAndChan.Priority.PriorityChan

open Library

variable {I P W : Type*} [LinearOrder P]

def pops (s : PriorityChan I P W) : Action I P W → List (I × P)
  | .recv _ =>
    match s.recv with
    | .polling _ (.scan _ (p :: _)) => (s.queue.popAt p).1.toList.map fun i => (i, p)
    | _ => []
  | _ => []

def items (l : List (I × P)) : Multiset I := (l.map Prod.fst : List I)

omit [LinearOrder P] in
lemma items_append (l l' : List (I × P)) : items (l ++ l') = items l + items l' := by simp [items]

omit [LinearOrder P] in
lemma items_eq_zero {l : List (I × P)} : items l = 0 ↔ l = [] := by simp [items]

@[simp] lemma under_nil {p : P} : under p ([] : List (I × P)) = [] := rfl

lemma under_append {p : P} (l l' : List (I × P)) : under p (l ++ l') = under p l ++ under p l' := by
  simp [under]

lemma under_singleton {i : I} {p p' : P} : under p' [(i, p)] = if p = p' then [i] else [] := by
  unfold under
  split_ifs with h <;> simp [h]

variable [DecidableEq W] {s s' : PriorityChan I P W} {a : Action I P W} {p : P}

lemma pops_step (h : s.step a = some s') :
    s'.returned = s.returned + items (pops s a) := by
  cases step_moves h with
  | handle _ _ _ hr =>
    cases a with
    | recv b => exact (hr b rfl).elim
    | _ => simp [items, pops]
  | sender h =>
    cases senderStep_queue h with
    | same _ _ _ hr => simp [items, pops, hr]
    | pushRead _ _ _ hr => simp [items, pops, hr]
    | pushWrite _ _ _ _ hr => simp [items, pops, hr]
  | poll => simp [items, pops]
  | @recv b w pc hpoll =>
    cases pc with
    | scan second rest =>
      cases rest with
      | nil => simp [items, pops, hpoll, pollStep]
      | cons p ps =>
        simp only [pops, hpoll, pollStep]
        split <;> next hp => simp [items, hp]
    | _ =>
      simp only [pops, hpoll, pollStep]
      (first | split_ifs | skip) <;> simp [items]

lemma pushes_step (h : s.step a = some s') :
    s'.pushed = s.pushed + items (pushes s a) := by
  cases step_moves h with
  | handle _ hs =>
    cases a with
    | sender t => exact (hs t rfl).elim
    | _ => simp [items, pushes]
  | @sender t _ h =>
    cases hpc : s.senders.pc t with
    | checked i p =>
      simp only [senderStep, hpc] at h
      cases hc : s.queue.map.contains p <;> simp only [PriorityQueue.pushRead, hc] at h <;>
        obtain rfl := Option.some.inj h <;> simp [items, pushes, hpc, hc]
    | missing i p =>
      simp only [senderStep, hpc] at h
      split_ifs at h
      obtain rfl := Option.some.inj h
      simp [items, pushes, hpc]
    | idle => simp [senderStep, hpc] at h
    | _ =>
      simp only [senderStep, hpc] at h
      (first | split_ifs at h | skip) <;> obtain rfl := Option.some.inj h <;>
        simp [items, pushes, hpc]
  | poll => simp [items, pushes]
  | @recv b w pc hr => cases pollStep_queue (b := b) hr <;> simp_all [items, pushes]

lemma line_step (h : s.step a = some s') (p : P) :
    (under p (pops s a) ++ s'.queue.queueAt p).Sublist
      (s.queue.queueAt p ++ under p (pushes s a)) := by
  have hpops := pops_step h
  have hpushes := pushes_step h
  cases step_queue h with
  | same _ hq hp hr =>
    rw [hr, left_eq_add, items_eq_zero] at hpops
    rw [hpops, hq]
    exact List.sublist_append_left ..
  | pushRead => exact (queueAt_step h p).sublist
  | pushWrite => exact (queueAt_step h p).sublist
  | @pop b _ _ p' _ i _ hpc hq =>
    have hone : pops s (.recv b) = [(i, p')] := by simp [pops, hpc, hq]
    rw [hone, under_singleton]
    split_ifs with hp
    · subst hp
      simp [pushes, (PriorityQueue.popAt_queueAt hq).1]
    · simp [pushes, (PriorityQueue.popAt_queueAt hq).2 p (Ne.symm hp)]

lemma line_step_eq_iff (h : s.step a = some s') :
    (∀ p, under p (pops s a) ++ s'.queue.queueAt p = s.queue.queueAt p ++ under p (pushes s a)) ↔
      WriteFindsNothing s a := by
  have hpops := pops_step h
  have hpushes := pushes_step h
  cases step_queue h with
  | same hw hq hp hr =>
    rw [hr, left_eq_add, items_eq_zero] at hpops
    rw [hp, left_eq_add, items_eq_zero] at hpushes
    simp only [hpops, hpushes, hq, under_nil, List.nil_append, List.append_nil, implies_true,
      true_iff]
    exact fun t i p ha hpc => (hw t i p ha hpc).elim
  | @pushRead t i p _ hpc hq =>
    have hc := FinMap.contains_iff.mpr (FinMap.mem_keys.mp (PriorityQueue.pushRead_eq_some hq).1)
    refine iff_of_true (fun p' => ?_) ?_
    · rw [PriorityQueue.pushRead_queueAt hq]
      by_cases hp : p' = p
      · simp [pops, pushes, hpc, hc, hp, under_singleton]
      · simp [pops, pushes, hpc, hc, hp, Ne.symm hp, under_singleton]
    · rintro t' i' p' ha hm
      obtain rfl := Action.sender.inj ha
      simp [hpc] at hm
  | @pushWrite t i p _ hpc hl hq =>
    have hone : pushes s (.sender t) = [(i, p)] := by simp [pushes, hpc]
    simp only [pops, hone, hq, PriorityQueue.pushWrite_queueAt, under_singleton, under_nil,
      List.nil_append]
    constructor
    · rintro hall t' i' p' ha hm
      obtain rfl := Action.sender.inj ha
      obtain ⟨rfl, rfl⟩ := SenderPc.missing.inj (hpc.symm.trans hm)
      simpa using hall p
    · intro hw p'
      by_cases hp : p' = p
      · simp [hp, hw t i p rfl hpc]
      · simp [hp, Ne.symm hp]
  | @pop b _ _ p _ i _ hpc hq =>
    refine iff_of_true (fun p' => ?_) (by rintro _ _ _ ⟨⟩)
    have hone : pops s (.recv b) = [(i, p)] := by simp [pops, hpc, hq]
    rw [hone, under_singleton]
    split_ifs with hp
    · subst hp
      simp [pushes, (PriorityQueue.popAt_queueAt hq).1]
    · simp [pushes, (PriorityQueue.popAt_queueAt hq).2 p' (Ne.symm hp)]

lemma under_trace (f : PriorityChan I P W → Action I P W → List (I × P)) (as : List (Action I P W))
    (p : P) : under p (trace step f s as) = trace step (fun s a => under p (f s a)) s as :=
  trace_map under_nil under_append s as

lemma line_run {as : List (Action I P W)} (h : run step s as = some s') (p : P) :
    (under p (trace step pops s as) ++ s'.queue.queueAt p).Sublist
      (s.queue.queueAt p ++ under p (trace step pushes s as)) := by
  rw [under_trace, under_trace]
  exact run_flow (I := fun _ => True) (R := List.Sublist) List.Sublist.refl List.Sublist.trans
    (fun l h => h.append_left l) (fun l h => h.append_right l) (f := fun s => s.queue.queueAt p)
    (fun _ _ _ _ h => ⟨trivial, line_step h p⟩) trivial h

/-- No step shortens the line of a priority for good, so a run that does not has no step that
does. -/
lemma line_run_eq_iff {as : List (Action I P W)} (h : run step s as = some s') :
    (∀ p, under p (trace step pops s as) ++ s'.queue.queueAt p =
      s.queue.queueAt p ++ under p (trace step pushes s as)) ↔
      EachStep step WriteFindsNothing s as := by
  induction as generalizing s with
  | nil =>
    obtain rfl := Option.some.inj h
    simp [trace, EachStep]
  | cons a as ih =>
    obtain ⟨u, hu, hrun⟩ := run_cons_some h
    simp only [trace_cons hu, under_append]
    constructor
    · intro hall
      have hboth : ∀ p,
          under p (pops s a) ++ u.queue.queueAt p = s.queue.queueAt p ++ under p (pushes s a) ∧
          under p (trace step pops u as) ++ s'.queue.queueAt p =
            u.queue.queueAt p ++ under p (trace step pushes u as) := by
        intro p
        have hstep := line_step hu p
        have htail := line_run hrun p
        have hlen := congrArg List.length (hall p)
        have hstep' := hstep.length_le
        have htail' := htail.length_le
        simp only [List.length_append] at hlen hstep' htail'
        refine ⟨hstep.eq_of_length ?_, htail.eq_of_length ?_⟩ <;>
          simp only [List.length_append] <;> omega
      exact eachStep_cons hu ((line_step_eq_iff hu).mp fun p => (hboth p).1)
        ((ih hrun).mp fun p => (hboth p).2)
    · intro hc p
      obtain ⟨ha, hc⟩ := hc u hu
      have hstep := (line_step_eq_iff hu).mpr ha p
      have htail := (ih hrun).mpr hc p
      rw [List.append_assoc, htail, ← List.append_assoc, hstep, List.append_assoc]

def twoFirstPushes : List (Action ℕ ℕ Unit) :=
  [.clone 0 1, .clone 0 2, .send 0 10 5, .send 1 11 5, .sender 0, .sender 1, .sender 0, .sender 1,
    .send 2 12 5, .sender 2, .poll (), .recv false, .recv false]

/-- In every run what is popped of a priority, followed by what is stored under it, is what was
pushed under it, in the same order and with nothing twice. Nothing is missing from it under any
priority exactly if each write section finds no item. -/
theorem each_priority_in_order (as : List (Action I P W)) (s : PriorityChan I P W)
    (h : run step new as = some s) :
    s.returned = items (trace step pops new as) ∧
      s.pushed = items (trace step pushes new as) ∧
      (∀ p, (under p (trace step pops new as) ++ s.queue.queueAt p).Sublist
        (under p (trace step pushes new as))) ∧
      ((∀ p, under p (trace step pops new as) ++ s.queue.queueAt p =
        under p (trace step pushes new as)) ↔ EachStep step WriteFindsNothing new as) := by
  refine ⟨?_, ?_, line_run h, line_run_eq_iff h⟩
  · rw [run_recorded (g := items) rfl items_append (fun _ _ _ => pops_step) h]
    exact zero_add _
  · rw [run_recorded (g := items) rfl items_append (fun _ _ _ => pushes_step) h]
    exact zero_add _

theorem each_priority_in_order_twoFirstPushes :
    ∃ s, run step new twoFirstPushes = some s ∧
      s.returned = items (trace step pops new twoFirstPushes) ∧
      s.pushed = items (trace step pushes new twoFirstPushes) ∧
      (∀ p, (under p (trace step pops new twoFirstPushes) ++ s.queue.queueAt p).Sublist
        (under p (trace step pushes new twoFirstPushes))) ∧
      ((∀ p, under p (trace step pops new twoFirstPushes) ++ s.queue.queueAt p =
        under p (trace step pushes new twoFirstPushes)) ↔
          EachStep step WriteFindsNothing new twoFirstPushes) :=
  ⟨_, rfl, each_priority_in_order twoFirstPushes _
    (show run step new twoFirstPushes = some _ from rfl)⟩

end PaQueueAndChan.Priority.PriorityChan
