import PaQueueAndChan.Library.StableQueue
import PaQueueAndChan.Priority.Closing
import PaQueueAndChan.Priority.Order

/-! The receiver's loop once the senders are gone: whole polls until one returns `None`. It sorts
what is stored. -/

namespace PaQueueAndChan.Priority

open Library

variable {I P W : Type*} [LinearOrder P]

namespace PriorityQueue

variable {q q' : PriorityQueue I P} {i : I} {p : P}

/-- What is stored, by ascending priority and in each queue from its front. -/
def inOrder (q : PriorityQueue I P) : List (I × P) :=
  q.map.entries.flatMap fun e => e.2.map fun i => (i, e.1)

lemma mem_inOrder {m : I × P} : m ∈ q.inOrder ↔ m.1 ∈ q.queueAt m.2 := by
  simp only [inOrder, List.mem_flatMap, List.mem_map]
  constructor
  · rintro ⟨e, he, i, hi, rfl⟩
    rw [queueAt, FinMap.get_eq_some.mpr (show (e.1, e.2) ∈ q.map.entries from he)]
    exact hi
  · intro hm
    cases hg : q.map.get m.2 with
    | none => simp [queueAt, hg] at hm
    | some l =>
      rw [queueAt, hg] at hm
      exact ⟨(m.2, l), FinMap.get_eq_some.mp hg, m.1, hm, rfl⟩

lemma inOrder_pairwise (q : PriorityQueue I P) : q.inOrder.Pairwise fun m m' => m.2 ≤ m'.2 := by
  refine List.pairwise_flatMap.mpr ⟨fun e _ => ?_, q.map.sorted.imp fun {e e'} h m hm m' hm' => ?_⟩
  · exact List.pairwise_map.mpr (List.pairwise_of_forall fun _ _ => le_rfl)
  · obtain ⟨i, -, rfl⟩ := List.mem_map.mp hm
    obtain ⟨i', -, rfl⟩ := List.mem_map.mp hm'
    exact h.le

lemma ofClass_inOrder (q : PriorityQueue I P) (p : P) :
    ofClass Prod.snd p q.inOrder = (q.queueAt p).map fun i => (i, p) := by
  cases hg : q.map.get p with
  | none =>
    have hnil : q.queueAt p = [] := by rw [queueAt, hg, Option.getD_none]
    rw [hnil]
    refine ofClass_eq_nil fun m hm hp => ?_
    rw [mem_inOrder, hp, hnil] at hm
    exact List.not_mem_nil hm
  | some l =>
    obtain ⟨es, es', hes, -⟩ := FinMap.entries_of_get hg
    have hnodup := q.map.keys_nodup
    rw [FinMap.keys, hes, List.map_append, List.map_cons] at hnodup
    have hother : ∀ fs : List (P × SegQueue I), p ∉ fs.map Prod.fst →
        ofClass Prod.snd p (fs.flatMap fun e => e.2.map fun i => (i, e.1)) = [] := by
      intro fs hfs
      refine ofClass_eq_nil fun m hm hp => hfs ?_
      obtain ⟨e, he, hm⟩ := List.mem_flatMap.mp hm
      obtain ⟨i, -, rfl⟩ := List.mem_map.mp hm
      exact List.mem_map.mpr ⟨e, he, hp⟩
    obtain ⟨hp, -⟩ := List.nodup_cons.mp (List.nodup_middle.mp hnodup)
    rw [List.mem_append, not_or] at hp
    have hl : ofClass Prod.snd p (l.map fun i => (i, p)) = l.map fun i => (i, p) := by
      simp [ofClass, List.filter_eq_self]
    rw [inOrder, hes, List.flatMap_append, List.flatMap_cons, ofClass_append, ofClass_append,
      hother es hp.1, hother es' hp.2, hl, List.nil_append, List.append_nil, queueAt, hg,
      Option.getD_some]

lemma inOrder_eq_nil : q.inOrder = [] ↔ ∀ p, q.queueAt p = [] := by
  constructor
  · intro h p
    have hclass := q.ofClass_inOrder p
    rw [h, ofClass_nil] at hclass
    exact List.map_eq_nil_iff.mp hclass.symm
  · intro h
    refine List.eq_nil_iff_forall_not_mem.mpr fun m hm => ?_
    rw [mem_inOrder, h] at hm
    exact List.not_mem_nil hm

lemma popAt_inOrder (h : q.popAt p = (some i, q')) (hp : ∀ p' < p, q.queueAt p' = []) :
    q.inOrder = (i, p) :: q'.inOrder := by
  obtain ⟨hfront, hother⟩ := popAt_queueAt h
  refine eq_of_ofClass q.inOrder_pairwise (List.pairwise_cons.mpr ⟨?_, q'.inOrder_pairwise⟩) ?_
  · intro m hm
    by_contra hlt
    have hlt : m.2 < p := not_le.mp hlt
    rw [mem_inOrder, hother m.2 hlt.ne, hp m.2 hlt] at hm
    exact List.not_mem_nil hm
  · intro p'
    rw [← List.singleton_append, ofClass_append, ofClass_inOrder, ofClass_inOrder,
      ofClass_singleton]
    by_cases he : p = p'
    · simp [← he, hfront]
    · simp [he, hother p' (Ne.symm he)]

end PriorityQueue

namespace PriorityChan

variable [DecidableEq W] {s s' : PriorityChan I P W} {a : Action I P W}

def SendersIdle (s : PriorityChan I P W) : Prop := s.endFlag = true → ∀ t, s.senders.pc t = .idle

lemma receiver_steps (hs : SendersOk s) (he : s.endFlag = true) (hi : SendersIdle s)
    (h : s.step a = some s') : (∃ w, a = .poll w) ∨ ∃ b, a = .recv b := by
  have hlive := (hs.ended he).1
  have hpc := hi he
  cases a with
  | poll w => exact Or.inl ⟨w, rfl⟩
  | recv b => exact Or.inr ⟨b, rfl⟩
  | clone t t' => simp [step, hlive] at h
  | send t i p => simp [step, hpc t, hlive] at h
  | sender t => simp [step, senderStep, hpc t] at h
  | drop t => simp [step, hpc t, hlive] at h

lemma sendersIdle_step (hs : SendersOk s) (hi : SendersIdle s) (h : s.step a = some s') :
    SendersIdle s' := by
  by_cases he : s.endFlag = true
  · rcases receiver_steps hs he hi h with ⟨w, rfl⟩ | ⟨b, rfl⟩
    · cases step_moves h with
      | handle _ _ hp => exact (hp w rfl).elim
      | poll => exact hi
    · cases step_moves h with
      | handle _ _ _ hr => exact (hr b rfl).elim
      | recv => simpa only [SendersIdle, pollStep_senders] using hi
  · intro he' u
    cases step_moves h with
    | handle => exact (he he').elim
    | poll => exact (he he').elim
    | recv => exact (he (by simpa only [pollStep_senders] using he')).elim
    | @sender t _ h =>
      by_cases hpc : s.senders.pc t = .dropping
      · simp only [senderStep, hpc, Option.some.injEq] at h
        subst h
        by_cases hu : u = t
        · simp [hu]
        · simpa [hu] using (hs.last t hpc).2 u hu
      · rw [endFlag_of_sender h hpc] at he'
        exact (he he').elim

def PollsOn (s : PriorityChan I P W) (a : Action I P W) : Prop :=
  ∀ w w', a = .poll w → s.recv ≠ .idle (some (w', .ready none))

-- nothing lies behind the scan
def Clean (s : PriorityChan I P W) : Prop :=
  match s.recv with
  | .polling _ (.lock _) | .idle (some (_, .ready (some _))) => True
  | .polling _ (.scan _ rest) => rest.Pairwise (· < ·) ∧ ∀ p ∉ rest, s.queue.queueAt p = []
  | .polling _ (.load _) | .idle (some (_, .ready none)) => ∀ p, s.queue.queueAt p = []
  | _ => False

structure DrainOk (s : PriorityChan I P W) : Prop where
  senders : SendersOk s
  ended : s.endFlag = true
  idle : SendersIdle s
  clean : Clean s

def left (s : PriorityChan I P W) : ℕ :=
  match s.recv with
  | .polling _ (.lock _) => s.queue.map.keys.length + 3
  | .polling _ (.scan _ rest) => rest.length + 2
  | .polling _ (.load _) => 1
  | .idle (some (_, .ready (some _))) => s.queue.map.keys.length + 4
  | _ => 0

def work (s : PriorityChan I P W) : ℕ :=
  s.queue.inOrder.length * (s.queue.map.keys.length + 4) + s.left

lemma drain_pollStep {w : W} {b : Bool} {pc : PollPc P W} (hs : DrainOk s)
    (hr : s.recv = .polling w pc) : Clean (s.pollStep w b pc) ∧
      work (s.pollStep w b pc) < work s ∧
      pops s (.recv b) ++ (s.pollStep w b pc).queue.inOrder = s.queue.inOrder := by
  have hclean := hs.clean
  cases pc with
  | lock second =>
    refine ⟨⟨s.queue.map.keys_sorted, fun p hp => ?_⟩, ?_, ?_⟩
    · by_contra hne
      exact hp (mem_keys_of_stored hne)
    · simp [work, left, hr, pollStep]
    · simp [pops, hr, pollStep]
  | scan second rest =>
    simp only [Clean, hr] at hclean
    cases rest with
    | nil =>
      refine ⟨fun p => hclean.2 p List.not_mem_nil, ?_, ?_⟩
      · simp [work, left, hr, pollStep]
      · simp [pops, hr, pollStep]
    | cons p ps =>
      obtain ⟨hsorted, hbehind⟩ := hclean
      obtain ⟨hp, hps⟩ := List.pairwise_cons.mp hsorted
      cases hpop : s.queue.popAt p with
      | mk o q =>
        cases o with
        | none =>
          obtain ⟨rfl, hempty⟩ := PriorityQueue.popAt_none hpop
          simp only [pollStep, hpop]
          refine ⟨⟨hps, fun p' hp' => ?_⟩, ?_, ?_⟩
          · by_cases he : p' = p
            · exact he ▸ hempty
            · exact hbehind p' (by simp [he, hp'])
          · simp [work, left, hr]
          · simp [pops, hr, hpop]
        | some i =>
          have hsmaller : ∀ p' < p, s.queue.queueAt p' = [] := by
            intro p' hlt
            refine hbehind p' fun hmem => ?_
            rcases List.mem_cons.mp hmem with rfl | hmem
            · exact lt_irrefl _ hlt
            · exact lt_asymm hlt (hp p' hmem)
          have hin := PriorityQueue.popAt_inOrder hpop hsmaller
          simp only [pollStep, hpop]
          refine ⟨trivial, ?_, ?_⟩
          · simp only [work, left, hr, hin, finish_queue, finish_recv,
              PriorityQueue.popAt_keys hpop, List.length_cons]
            rw [Nat.add_mul]
            omega
          · simp [pops, hr, hpop, hin]
  | load second =>
    simp only [Clean, hr] at hclean
    simp only [pollStep, hs.ended, if_true]
    refine ⟨hclean, ?_, ?_⟩
    · simp [work, left, hr]
    · simp [pops, hr]
  | _ => simp [Clean, hr] at hclean

omit [DecidableEq W] in
lemma clean_idle {last : Option (W × PollResult I)} (hs : Clean s) (hr : s.recv = .idle last) :
    (∃ w, last = some (w, .ready none)) ∨ ∃ w i, last = some (w, .ready (some i)) := by
  simp only [Clean, hr] at hs
  rcases last with _ | ⟨w, item | _ | _⟩
  · exact hs.elim
  · cases item with
    | none => exact Or.inl ⟨w, rfl⟩
    | some i => exact Or.inr ⟨w, i, rfl⟩
  · exact hs.elim
  · exact hs.elim

lemma drain_step (hs : DrainOk s) (hc : PollsOn s a) (h : s.step a = some s') :
    DrainOk s' ∧ work s' < work s ∧ pops s a ++ s'.queue.inOrder = s.queue.inOrder := by
  have hsenders := sendersOk_step hs.senders h
  have hidle := sendersIdle_step hs.senders hs.idle h
  rcases receiver_steps hs.senders hs.ended hs.idle h with ⟨w, rfl⟩ | ⟨b, rfl⟩
  · cases step_moves h with
    | handle _ _ hp => exact (hp w rfl).elim
    | @poll _ last hr =>
      refine ⟨⟨hsenders, hs.ended, hidle, trivial⟩, ?_, rfl⟩
      obtain ⟨w', i, rfl⟩ := (clean_idle hs.clean hr).resolve_left fun ⟨w', he⟩ =>
        hc w w' rfl (hr.trans (congrArg Recv.idle he))
      simp [work, left, hr]
  · cases step_moves h with
    | handle _ _ _ hr => exact (hr b rfl).elim
    | @recv _ w pc hr =>
      obtain ⟨hclean, hrest⟩ := drain_pollStep (b := b) hs hr
      refine ⟨⟨hsenders, ?_, hidle, hclean⟩, hrest⟩
      rw [(pollStep_senders w b pc).2, hs.ended]

lemma drainOk_of_lock {w : W} {b : Bool} {as : List (Action I P W)} (h : run step new as = some s)
    (he : s.endFlag = true) (hr : s.recv = .polling w (.lock b)) : DrainOk s := by
  obtain ⟨hsenders, hidle⟩ := run_invariant (I := fun s => SendersOk s ∧ SendersIdle s)
    (fun _ _ _ hs h => ⟨sendersOk_step hs.1 h, sendersIdle_step hs.1 hs.2 h⟩)
    ⟨sendersOk_new, by simp [SendersIdle, new]⟩ h
  exact ⟨hsenders, he, hidle, by simp [Clean, hr]⟩

lemma told_of_halted (hs : DrainOk s) (hstop : ∀ a, PollsOn s a → s.step a = none) :
    (∃ w, s.recv = .idle (some (w, .ready none))) ∧ s.queue.inOrder = [] := by
  cases hr : s.recv with
  | polling w pc =>
    have hnone := hstop (.recv false) (by rintro _ _ ⟨⟩)
    simp [step, recvStep, hr] at hnone
  | idle last =>
    rcases clean_idle hs.clean hr with ⟨w, rfl⟩ | ⟨w, i, rfl⟩
    · refine ⟨⟨w, rfl⟩, PriorityQueue.inOrder_eq_nil.mpr ?_⟩
      have hclean := hs.clean
      rwa [Clean, hr] at hclean
    · have hnone := hstop (.poll w) (by simp [PollsOn, hr])
      simp [step, hr] at hnone

lemma conserved_of_ended (hs : DrainOk s) (hc : Conserved s) (h : s.step a = some s') :
    Conserved s' := by
  refine (conserved_step hc h).mpr fun t i p _ hpc => ?_
  simp [hs.idle hs.ended t] at hpc

lemma conserved_of_writes {as : List (Action I P W)} (h : run step new as = some s)
    (hw : EachStep step WriteFindsNothing new as) : Conserved s := by
  have hnew : Conserved (new : PriorityChan I P W) := rfl
  exact (always_of_eachStep (I := Conserved) (fun _ _ _ hs ha h => (conserved_step hs h).mpr ha)
    (fun _ hs => hs) as hnew hw).last h

/-- Once the senders are gone, a poll that is about to look into the map and the polls after it, up
to the first that returns `None`, take a bounded number of steps, return what is stored by ascending
priority and each queue in its order, and never `Pending`. Where they halt the receiver has been
told the end and all that was stored has been returned; so has all that was pushed, if no write
section found an item. -/
theorem drains_in_order (as : List (Action I P W)) (s : PriorityChan I P W) (w : W) (b : Bool)
    (h : run step new as = some s) (he : s.endFlag = true) (hr : s.recv = .polling w (.lock b)) :
    ∀ bs t, EachStep step PollsOn s bs → run step s bs = some t →
      bs.length ≤ (s.queue.inOrder.length + 1) * (s.queue.map.keys.length + 4) ∧
      trace step pops s bs <+: s.queue.inOrder ∧
      (∀ w', t.recv ≠ .idle (some (w', .pending))) ∧
      ((∀ a, PollsOn t a → t.step a = none) →
        (∃ w', t.recv = .idle (some (w', .ready none))) ∧
          trace step pops s bs = s.queue.inOrder ∧
          (EachStep step WriteFindsNothing new as → t.returned = t.pushed)) := by
  intro bs t hc hrun
  have hs := drainOk_of_lock h he hr
  obtain ⟨ht, hlen⟩ := run_length_le (f := work)
    (fun _ _ _ hs hc h => ⟨(drain_step hs hc h).1, (drain_step hs hc h).2.1⟩) hs hc hrun
  have hout : trace step pops s bs ++ t.queue.inOrder = s.queue.inOrder :=
    run_outflow (f := fun s => s.queue.inOrder)
      (fun _ _ _ hs hc h => ⟨(drain_step hs hc h).1, (drain_step hs hc h).2.2⟩) hs hc hrun
  refine ⟨?_, ⟨_, hout⟩, fun w' hw => ?_, fun hstop => ?_⟩
  · have hwork : work s ≤ (s.queue.inOrder.length + 1) * (s.queue.map.keys.length + 4) := by
      simp only [work, left, hr]
      rw [Nat.add_mul]
      omega
    omega
  · have hclean := ht.clean
    simp [Clean, hw] at hclean
  · obtain ⟨htold, hnil⟩ := told_of_halted ht hstop
    rw [hnil, List.append_nil] at hout
    refine ⟨htold, hout, fun hw => ?_⟩
    have hcons := conserved_of_writes h hw
    have hcons : Conserved t := (always_of_eachStep (I := fun s => DrainOk s ∧ Conserved s)
      (fun _ _ _ hs ha h => ⟨(drain_step hs.1 ha h).1, conserved_of_ended hs.1 hs.2 h⟩)
      (fun _ hs => hs.2) bs ⟨hs, hcons⟩ hc).last hrun
    have hstored : t.queue.stored = 0 := by
      rw [PriorityQueue.stored_eq_zero]
      exact PriorityQueue.inOrder_eq_nil.mp hnil
    rw [hcons, hstored, add_zero]

def closedOverTwo : List (Action ℕ ℕ Unit) :=
  sendSync 30 3 false ++ sendSync 20 2 false ++ sendSync 21 2 true ++
    [.drop 0, .sender 0, .poll ()]

theorem drains_in_order_closedOverTwo :
    ∃ s, run step new closedOverTwo = some s ∧ s.queue.inOrder = [(20, 2), (21, 2), (30, 3)] ∧
      ∀ bs t, EachStep step PollsOn s bs → run step s bs = some t →
        bs.length ≤ (s.queue.inOrder.length + 1) * (s.queue.map.keys.length + 4) ∧
        trace step pops s bs <+: s.queue.inOrder ∧
        (∀ w', t.recv ≠ .idle (some (w', .pending))) ∧
        ((∀ a, PollsOn t a → t.step a = none) →
          (∃ w', t.recv = .idle (some (w', .ready none))) ∧
            trace step pops s bs = s.queue.inOrder ∧
            (EachStep step WriteFindsNothing new closedOverTwo → t.returned = t.pushed)) :=
  ⟨_, rfl, rfl, drains_in_order closedOverTwo _ () false
    (show run step new closedOverTwo = some _ from rfl) rfl rfl⟩

end PriorityChan

end PaQueueAndChan.Priority
