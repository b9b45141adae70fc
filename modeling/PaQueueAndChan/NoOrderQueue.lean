import Mathlib
import PaQueueAndChan.Library.FinMap
import PaQueueAndChan.Library.Lines
import PaQueueAndChan.Library.Transitions

/-! `mpsc_no_order_queue.rs`: a queue for each thread, in a hash map under a read-write lock. Every
lock section of `push` is one step. `try_pop` holds the read lock over its whole scan, in which
every `pop` of a single queue is one step. -/

namespace PaQueueAndChan.NoOrderQueue

open Library

inductive PushPc (T : Type*)
  | idle
  | test (t : T)                -- before `contains_key` under the read lock
  | insert (t : T)              -- before the insert under the write lock
  | push (t : T)                -- before the second read lock
  | panicked                    -- `get(&curthreadid).unwrap()`

structure Thread (T : Type*) where
  id : ℕ                        -- its `current_thread_id`
  pc : PushPc T

inductive PopPc (T : Type*)
  | idle (last : Option (Option T))
  | lock
  | scan (rest : List ℕ)

structure MpscNoOrderQueue (T : Type*) where
  threadsQueues : FinMap ℕ (List T)
  threads : FinMap ℕ (Thread T)     -- those alive
  consumer : PopPc T
  pushed : List (ℕ × T)             -- history, as is `returned`
  returned : List (ℕ × T)

inductive Action (T : Type*)
  | spawn (n id : ℕ)
  | exit (n : ℕ)
  | push (n : ℕ) (t : T)
  | pushStep (n : ℕ)
  | tryPop
  | popStep (iter : IterOrder ℕ)    -- the order in which the map hands out its keys

namespace MpscNoOrderQueue

variable {T : Type*}

def new : MpscNoOrderQueue T := ⟨.empty, .empty, .idle none, [], []⟩

@[simps]
def setPc (s : MpscNoOrderQueue T) (n id : ℕ) (c : PushPc T) : MpscNoOrderQueue T :=
  { s with threads := s.threads.insert n ⟨id, c⟩ }

@[simps]
def setPop (s : MpscNoOrderQueue T) (c : PopPc T) : MpscNoOrderQueue T := { s with consumer := c }

def scanning (s : MpscNoOrderQueue T) : Bool :=
  match s.consumer with
  | .scan _ => true
  | _ => false

def pushStep (s : MpscNoOrderQueue T) (n : ℕ) : Option (MpscNoOrderQueue T) :=
  match s.threads.get n with
  | some ⟨id, .test t⟩ =>
    if s.threadsQueues.contains id then some (s.setPc n id (.push t))
    else some (s.setPc n id (.insert t))
  | some ⟨id, .insert t⟩ =>
    if s.scanning then none
    else some ({ s with threadsQueues := s.threadsQueues.insert id [] }.setPc n id (.push t))
  | some ⟨id, .push t⟩ =>
    if s.threadsQueues.contains id then
      some ({ s with
        threadsQueues := s.threadsQueues.modify id (fun q => q ++ [t])
        pushed := s.pushed ++ [(id, t)] }.setPc n id .idle)
    else some (s.setPc n id .panicked)
  | _ => none

def popStep (s : MpscNoOrderQueue T) (iter : IterOrder ℕ) : Option (MpscNoOrderQueue T) :=
  match s.consumer with
  | .idle _ => none
  | .lock => some (s.setPop (.scan (iter.order s.threadsQueues.keys)))
  | .scan [] => some (s.setPop (.idle (some none)))
  | .scan (id :: rest) =>
    match s.threadsQueues.get id with
    | some (t :: _) =>
      some ({ s with
        threadsQueues := s.threadsQueues.modify id List.tail
        returned := s.returned ++ [(id, t)] }.setPop (.idle (some (some t))))
    | _ => some (s.setPop (.scan rest))

def step (s : MpscNoOrderQueue T) : Action T → Option (MpscNoOrderQueue T)
  | .spawn n id =>
    if s.threads.get n = none ∧ ∀ e ∈ s.threads.entries, e.2.id ≠ id then
      some (s.setPc n id .idle)
    else none
  | .exit n =>
    match s.threads.get n with
    | some ⟨_, .idle⟩ => some { s with threads := s.threads.erase n }
    | _ => none
  | .push n t =>
    match s.threads.get n with
    | some ⟨id, .idle⟩ => some (s.setPc n id (.test t))
    | _ => none
  | .pushStep n => s.pushStep n
  | .tryPop =>
    match s.consumer with
    | .idle _ => some (s.setPop .lock)
    | _ => none
  | .popStep iter => s.popStep iter

/-- The queue under `id`; a missing key counts as an empty one. -/
def queueAt (s : MpscNoOrderQueue T) (id : ℕ) : List T := (s.threadsQueues.get id).getD []

def PcOk (s : MpscNoOrderQueue T) (th : Thread T) : Prop :=
  match th.pc with
  | .insert _ => s.threadsQueues.contains th.id = false
  | .push _ => s.threadsQueues.contains th.id = true
  | .panicked => False
  | _ => True

def line (m : FinMap ℕ (List T)) (id : ℕ) : List (ℕ × T) := ((m.get id).getD []).map (Prod.mk id)

structure QueueOk (s : MpscNoOrderQueue T) : Prop where
  distinct : ∀ n n' th th', s.threads.get n = some th → s.threads.get n' = some th' →
    th.id = th'.id → n = n'
  pc : ∀ n th, s.threads.get n = some th → PcOk s th
  order : InOrder Prod.fst (line s.threadsQueues) s.pushed s.returned

variable {s s' : MpscNoOrderQueue T} {n id : ℕ} {c c' : PushPc T}

lemma queueOk_new : QueueOk (new : MpscNoOrderQueue T) :=
  ⟨by simp [new], by simp [new], inOrder_nil fun _ => rfl⟩

lemma PcOk.congr {th : Thread T} (h : PcOk s th)
    (hc : s'.threadsQueues.contains th.id = s.threadsQueues.contains th.id) : PcOk s' th := by
  rw [PcOk, hc]
  exact h

lemma QueueOk.move (hs : QueueOk s) (hn : s.threads.get n = some ⟨id, c⟩)
    (hthreads : s'.threads = s.threads.insert n ⟨id, c'⟩) (hpc : PcOk s' ⟨id, c'⟩)
    (hother : ∀ i, i ≠ id → s'.threadsQueues.contains i = s.threadsQueues.contains i)
    (ho : InOrder Prod.fst (line s'.threadsQueues) s'.pushed s'.returned) : QueueOk s' := by
  have hget : ∀ m, s'.threads.get m = if m = n then some ⟨id, c'⟩ else s.threads.get m :=
    fun m => by rw [hthreads, FinMap.get_insert]
  have hback : ∀ m th, s'.threads.get m = some th → ∃ c₀, s.threads.get m = some ⟨th.id, c₀⟩ := by
    intro m th hm
    rw [hget] at hm
    split_ifs at hm with he
    · obtain rfl := Option.some.inj hm
      exact ⟨c, he ▸ hn⟩
    · exact ⟨th.pc, hm⟩
  refine ⟨fun m m' th th' hm hm' hid => ?_, fun m th hm => ?_, ho⟩
  · obtain ⟨_, h⟩ := hback m th hm
    obtain ⟨_, h'⟩ := hback m' th' hm'
    exact hs.distinct m m' _ _ h h' hid
  · rw [hget] at hm
    split_ifs at hm with he
    · obtain rfl := Option.some.inj hm
      exact hpc
    · have hne : th.id ≠ id := fun hid => he (hs.distinct m n th _ hm hn hid)
      exact (hs.pc m th hm).congr (hother _ hne)

lemma line_modify {m : FinMap ℕ (List T)} {q : List T} {f : List T → List T} {i : ℕ}
    (h : m.get id = some q) :
    line (m.modify id f) i = if i = id then (f q).map (Prod.mk id) else line m i := by
  rw [line, FinMap.get_modify, line]
  split_ifs with hi
  · subst hi
    rw [h]
    rfl
  · rfl

lemma queueOk_pushStep (hs : QueueOk s) (h : s.pushStep n = some s') : QueueOk s' := by
  unfold pushStep at h
  split at h
  · next id t hn =>
    split_ifs at h with hc
    · cases h
      exact hs.move hn rfl hc (fun _ _ => rfl) hs.order
    · cases h
      exact hs.move hn rfl (Bool.eq_false_iff.mpr hc) (fun _ _ => rfl) hs.order
  · next id t hn =>
    split_ifs at h
    cases h
    have hnone : s.threadsQueues.get id = none := FinMap.contains_eq_false.mp (hs.pc n _ hn)
    refine hs.move hn rfl (FinMap.contains_iff.mpr ⟨[], FinMap.get_insert_self⟩) (fun i hi => ?_) ?_
    · exact congrArg Option.isSome (FinMap.get_insert_of_ne hi)
    refine (congrArg (InOrder Prod.fst · s.pushed s.returned) (funext fun i => ?_)).mpr hs.order
    by_cases hi : i = id
    · subst hi
      simp [line, hnone]
    · simp [line, FinMap.get_insert_of_ne hi]
  · next id t hn =>
    have hc : s.threadsQueues.contains id = true := hs.pc n _ hn
    obtain ⟨q, hq⟩ := FinMap.contains_iff.mp hc
    rw [if_pos hc] at h
    cases h
    refine hs.move hn rfl trivial (fun i _ => FinMap.contains_modify) (hs.order.enter fun i => ?_)
    rw [setPc_threadsQueues, line_modify hq, ofClass_singleton]
    by_cases hi : i = id
    · subst hi
      simp [line, hq]
    · simp [hi, Ne.symm hi]
  · cases h

lemma queueOk_popStep {iter : IterOrder ℕ} (hs : QueueOk s) (h : s.popStep iter = some s') :
    QueueOk s' := by
  unfold popStep at h
  split at h
  · cases h
  · cases h
    exact ⟨hs.distinct, hs.pc, hs.order⟩
  · cases h
    exact ⟨hs.distinct, hs.pc, hs.order⟩
  · next id rest _ =>
    split at h
    · next t q hq =>
      cases h
      refine ⟨hs.distinct, fun n th hn => (hs.pc n th hn).congr FinMap.contains_modify,
        hs.order.leave fun i => ?_⟩
      rw [setPop_threadsQueues, line_modify hq, ofClass_singleton]
      by_cases hi : i = id
      · subst hi
        simp [line, hq]
      · simp [hi, Ne.symm hi]
    · cases h
      exact ⟨hs.distinct, hs.pc, hs.order⟩

lemma queueOk_step {a : Action T} (hs : QueueOk s) (h : s.step a = some s') : QueueOk s' := by
  unfold step at h
  cases a with
  | spawn n id =>
    simp only at h
    split_ifs at h with hfresh
    cases h
    have hget : ∀ m, (s.threads.insert n ⟨id, .idle⟩).get m =
        if m = n then some ⟨id, .idle⟩ else s.threads.get m := fun m => FinMap.get_insert
    have hid : ∀ m th, s.threads.get m = some th → th.id ≠ id := fun m th hm =>
      hfresh.2 (m, th) (FinMap.get_eq_some.mp hm)
    refine ⟨fun m m' th th' hm hm' heq => ?_, fun m th hm => ?_, hs.order⟩
    · rw [setPc_threads, hget] at hm hm'
      split_ifs at hm hm' with he he'
      · rw [he, he']
      · obtain rfl := Option.some.inj hm
        exact (hid m' th' hm' heq.symm).elim
      · obtain rfl := Option.some.inj hm'
        exact (hid m th hm heq).elim
      · exact hs.distinct m m' th th' hm hm' heq
    · rw [setPc_threads, hget] at hm
      split_ifs at hm
      · obtain rfl := Option.some.inj hm
        trivial
      · exact hs.pc m th hm
  | exit n =>
    simp only at h
    split at h
    · cases h
      refine ⟨fun m m' th th' hm hm' => ?_, fun m th hm => ?_, hs.order⟩
      · exact hs.distinct m m' th th' (FinMap.get_erase_eq_some.mp hm).2
          (FinMap.get_erase_eq_some.mp hm').2
      · exact hs.pc m th (FinMap.get_erase_eq_some.mp hm).2
    · cases h
  | push n t =>
    simp only at h
    split at h
    · next id hn =>
      cases h
      exact hs.move hn rfl trivial (fun _ _ => rfl) hs.order
    · cases h
  | pushStep n => exact queueOk_pushStep hs h
  | tryPop =>
    simp only at h
    split at h
    · cases h
      exact ⟨hs.distinct, hs.pc, hs.order⟩
    · cases h
  | popStep iter => exact queueOk_popStep hs h

/-! What a scan has still to find. The map does not change while the scan holds the read lock. -/

def Ahead (s : MpscNoOrderQueue T) (id : ℕ) : Prop :=
  (∃ rest, s.consumer = .scan rest ∧ id ∈ rest) ∧ s.queueAt id ≠ []

lemma queueAt_modify {q : List T} {f : List T → List T} {i : ℕ}
    (hq : s.threadsQueues.get id = some q)
    (h : s'.threadsQueues = s.threadsQueues.modify id f) :
    s'.queueAt i = if i = id then f q else s.queueAt i := by
  rw [queueAt, h, FinMap.get_modify, queueAt]
  split_ifs with hi
  · subst hi
    rw [hq]
    rfl
  · rfl

lemma ahead_pushStep {i : ℕ} (hs : Ahead s i) (h : s.pushStep n = some s') : Ahead s' i := by
  obtain ⟨⟨rest, hscan, hi⟩, hq⟩ := hs
  unfold pushStep at h
  split at h
  · split_ifs at h <;> cases h <;> exact ⟨⟨rest, hscan, hi⟩, hq⟩
  · simp [scanning, hscan] at h
  · next id t _ =>
    split_ifs at h with hc
    · cases h
      obtain ⟨q, hget⟩ := FinMap.contains_iff.mp hc
      refine ⟨⟨rest, hscan, hi⟩, ?_⟩
      rw [queueAt_modify (f := fun q => q ++ [t]) hget rfl]
      split_ifs
      · simp
      · exact hq
    · cases h
      exact ⟨⟨rest, hscan, hi⟩, hq⟩
  · cases h

lemma ahead_step {a : Action T} {i : ℕ} (hs : Ahead s i) (h : s.step a = some s')
    (hscan : s'.scanning = true) : Ahead s' i := by
  cases a with
  | pushStep n => exact ahead_pushStep hs h
  | popStep iter =>
    obtain ⟨⟨rest, hrest, hi⟩, hq⟩ := hs
    simp only [step, popStep, hrest] at h
    cases rest with
    | nil => simp at hi
    | cons id rest =>
      simp only at h
      split at h
      · cases h
        simp [scanning] at hscan
      · next hget =>
        cases h
        have hne : i ≠ id := by
          rintro rfl
          cases hg : s.threadsQueues.get i with
          | none => simp [queueAt, hg] at hq
          | some q =>
            cases q with
            | nil => simp [queueAt, hg] at hq
            | cons t q => exact hget t q hg
        exact ⟨⟨rest, rfl, (List.mem_cons.mp hi).resolve_left hne⟩, hq⟩
  | tryPop =>
    obtain ⟨⟨rest, hrest, -⟩, -⟩ := hs
    simp [step, hrest] at h
  | _ =>
    simp only [step] at h
    split at h <;> cases h
    exact hs

lemma ahead_lock {iter : IterOrder ℕ} {i : ℕ} (hlock : s.consumer = .lock)
    (h : s.step (.popStep iter) = some s') (hq : s.queueAt i ≠ []) : Ahead s' i := by
  simp only [step, popStep, hlock] at h
  cases h
  refine ⟨⟨_, rfl, ?_⟩, hq⟩
  rw [IterOrder.mem_order, FinMap.mem_keys]
  cases hg : s.threadsQueues.get i with
  | none => simp [queueAt, hg] at hq
  | some q => exact ⟨q, rfl⟩

/-- If the `try_pop` that takes the read lock in `s` returns `None`, every queue is empty in `s`. -/
def NoneOnlyIfEmpty (s : MpscNoOrderQueue T) : Prop :=
  s.consumer = .lock → ∀ (iter iter' : IterOrder ℕ) (s₁ s₂ s₃ : MpscNoOrderQueue T)
    (bs : List (Action T)), s.step (.popStep iter) = some s₁ → run step s₁ bs = some s₂ →
    Always step (fun s => s.scanning = true) s₁ bs → s₂.step (.popStep iter') = some s₃ →
    s₃.consumer = .idle (some none) → ∀ id, s.queueAt id = []

lemma none_only_if_empty (s : MpscNoOrderQueue T) : NoneOnlyIfEmpty s := by
  intro hlock iter iter' s₁ s₂ s₃ bs h₁ h₂ hscan h₃ hnone id
  by_contra hq
  obtain ⟨⟨rest, hrest, hi⟩, -⟩ : Ahead s₂ id := run_invariant_while (I := fun s => Ahead s id)
    (fun _ _ _ hs h hscan => ahead_step hs h hscan) (ahead_lock hlock h₁ hq) hscan h₂
  cases rest with
  | nil => simp at hi
  | cons i rest =>
    simp only [step, popStep, hrest] at h₃
    split at h₃ <;> cases h₃ <;> simp at hnone

structure Kept (s : MpscNoOrderQueue T) : Prop where
  inOrder : ∀ id, (ofClass Prod.fst id s.pushed).map Prod.snd =
    (ofClass Prod.fst id s.returned).map Prod.snd ++ s.queueAt id
  -- the lookup after the insert
  found : ∀ n id t, s.threads.get n = some ⟨id, .push t⟩ → s.threadsQueues.contains id = true
  noPanic : ∀ n id, s.threads.get n ≠ some ⟨id, .panicked⟩
  none : NoneOnlyIfEmpty s

lemma QueueOk.kept (hs : QueueOk s) : Kept s := by
  refine ⟨fun id => ?_, fun n id t h => hs.pc n _ h, fun n id h => hs.pc n _ h,
    none_only_if_empty s⟩
  rw [hs.order id, List.map_append, line, List.map_map]
  exact congrArg _ (List.map_id _)

theorem nothing_lost_and_each_thread_in_order (as : List (Action T)) :
    Always step Kept new as :=
  always_of_invariant (fun _ _ _ hs h => queueOk_step hs h) (fun _ hs => hs.kept) as queueOk_new

def threePushed : List (Action ℕ) :=
  [.spawn 0 7, .spawn 1 5, .push 0 70, .pushStep 0, .pushStep 0, .pushStep 0, .push 0 71,
    .pushStep 0, .pushStep 0, .push 1 50, .pushStep 1, .pushStep 1, .pushStep 1, .tryPop,
    .popStep .stored, .popStep .stored, .tryPop, .popStep .stored, .popStep .stored,
    .popStep .stored]

theorem nothing_lost_and_each_thread_in_order_threePushed :
    ∃ s, run step new threePushed = some s ∧ s.pushed = [(7, 70), (7, 71), (5, 50)] ∧
      s.returned = [(5, 50), (7, 70)] ∧ s.queueAt 7 = [71] ∧ Kept s :=
  ⟨_, rfl, rfl, rfl, rfl, (nothing_lost_and_each_thread_in_order threePushed).last
    (show run step new threePushed = some _ from rfl)⟩

end MpscNoOrderQueue

end PaQueueAndChan.NoOrderQueue
