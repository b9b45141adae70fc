import PaQueueAndChan.Priority.WakeUp
import PaQueueAndChan.Priority.Draining
import PaQueueAndChan.Priority.Progress

/-! The receiver's task while no call of a sender is in progress. It is polled again after an item
and after its waker was called, and comes to rest only over an empty channel. -/

namespace PaQueueAndChan.Priority

open Library

variable {I P W : Type*}

def Recv.wakes : Recv I P W → Bool
  | .polling _ (.reclaim ..) | .polling _ (.swap ..) | .polling _ (.wakeOld ..)
  | .polling _ (.wakeNew ..) | .polling _ .wakeSelf => true
  | _ => false

namespace PriorityChan

variable [LinearOrder P]

def PollsWhenWoken (s : PriorityChan I P W) : Action I P W → Prop
  | .recv _ => True
  | .poll _ =>
    match s.recv with
    | .idle none | .idle (some (_, .ready (some _))) => True
    | .idle (some (_, .pending)) => s.wokenSincePoll = true
    | _ => False
  | _ => False

/-- The task has been woken since its last poll began, or the poll will see to it. -/
def awaited (s : PriorityChan I P W) : Bool :=
  s.wokenSincePoll || s.waker.state.waking || s.recv.wakes

def ahead (s : PriorityChan I P W) : ℕ :=
  match s.recv with
  | .polling _ pc => pc.left s.queue.map.keys.length
  | .idle none | .idle (some (_, .ready (some _))) => 2 * s.queue.map.keys.length + 14
  | _ => 0

def pending (s : PriorityChan I P W) : ℕ := s.queue.stored.card + s.awaited.toNat

def toDo (s : PriorityChan I P W) : ℕ :=
  s.pending * (2 * s.queue.map.keys.length + 14) + s.ahead

structure QuietOk (s : PriorityChan I P W) : Prop where
  wake : WakeOk s
  behind : BehindOk s
  idle : ∀ t, s.senders.pc t = .idle
  opened : s.endFlag = false

variable {s s' : PriorityChan I P W} {a : Action I P W}

lemma QuietOk.not_waking (hs : QuietOk s) (hr : s.recv.registering = false) :
    s.waker.state.waking = false := by
  by_contra hw
  have hreg := hs.wake.bit
  rw [hr] at hreg
  have hst : s.waker.state = WAKING := by
    rcases hst : s.waker.state with ⟨r, k⟩
    simp_all [WAKING]
  obtain ⟨t, ht⟩ := hs.wake.waking_section hst
  rw [hs.idle t] at ht
  cases ht

variable [DecidableEq W]

lemma awaited_pollStep {w : W} {b : Bool} {pc : PollPc P W} (hs : WakeOk s)
    (hr : s.recv = .polling w pc) (h : (s.pollStep w b pc).awaited = true) : s.awaited = true := by
  revert h
  fun_cases pollStep
  case case15 old panic hst =>
    -- the registering bit is set, so only a waking bit beside it makes the exchange fail
    have hbit := hs.bit
    rw [hr] at hbit
    rcases hstate : s.waker.state with ⟨r, k⟩
    simp_all [awaited, REGISTERING, Recv.registering]
  all_goals
    simp_all [awaited, Recv.wakes, AtomicWaker.compareExchange, AtomicWaker.take, WAITING,
      REGISTERING, WAKING]

omit [DecidableEq W] in
lemma toDo_lt (hkeys : s'.queue.map.keys.length = s.queue.map.keys.length)
    (h : s'.pending < s.pending ∧ s'.ahead < s.ahead + (2 * s.queue.map.keys.length + 14) ∨
      s'.pending ≤ s.pending ∧ s'.ahead < s.ahead) : s'.toDo < s.toDo := by
  unfold toDo
  rw [hkeys]
  rcases h with ⟨hp, ha⟩ | ⟨hp, ha⟩
  · have hmul := Nat.mul_le_mul_right (2 * s.queue.map.keys.length + 14) (Nat.succ_le_of_lt hp)
    rw [Nat.succ_mul] at hmul
    omega
  · have hmul := Nat.mul_le_mul_right (2 * s.queue.map.keys.length + 14) hp
    omega

omit [LinearOrder P] [DecidableEq W] in
lemma left_pos (k : ℕ) (pc : PollPc P W) : 0 < pc.left k := by
  unfold PollPc.left
  cases pc <;> simp only <;> (first | split_ifs | skip) <;> omega

lemma quiet_pollStep {w : W} {b : Bool} {pc : PollPc P W} (hs : QuietOk s)
    (hr : s.recv = .polling w pc) : toDo (s.pollStep w b pc) < toDo s ∧
      (s.pollStep w b pc).returned + (s.pollStep w b pc).queue.stored =
        s.returned + s.queue.stored := by
  have hawaited : (s.pollStep w b pc).awaited.toNat ≤ s.awaited.toNat :=
    Bool.toNat_le_toNat (awaited_pollStep hs.wake hr)
  by_cases hpop : ∃ second p ps i q, pc = .scan second (p :: ps) ∧ s.queue.popAt p = (some i, q)
  · obtain ⟨second, p, ps, i, q, rfl, hq⟩ := hpop
    have hstored := PriorityQueue.popAt_stored hq
    have hkeys := PriorityQueue.popAt_keys hq
    simp only [pollStep, hq] at hawaited ⊢
    constructor
    · refine toDo_lt (congrArg List.length hkeys) (Or.inl ⟨?_, ?_⟩)
      · simp only [pending, finish_queue, hstored, Multiset.card_add, Multiset.card_singleton]
        omega
      · have hpos := left_pos s.queue.map.keys.length (.scan second (p :: ps) : PollPc P W)
        simp only [ahead, finish_recv, finish_queue, hr, hkeys]
        omega
    · simp only [finish_returned, finish_queue, hstored]
      abel
  · obtain ⟨hqueue, hret, hahead⟩ : (s.pollStep w b pc).queue = s.queue ∧
        (s.pollStep w b pc).returned = s.returned ∧
        (s.pollStep w b pc).ahead = (s.pollStep w b pc).recv.left s.queue.map.keys.length := by
      fun_cases pollStep <;> simp_all [ahead, Recv.left]
    refine ⟨toDo_lt (by rw [hqueue]) (Or.inr ⟨?_, ?_⟩), by rw [hqueue, hret]⟩
    · simp only [pending, hqueue]
      omega
    · have hleft : (s.pollStep w b pc).recv.left s.queue.map.keys.length + 1 ≤
          pc.left s.queue.map.keys.length := left_pollStep le_rfl
      rw [hahead]
      simp only [ahead, hr]
      omega

omit [DecidableEq W] in
lemma quiet_poll {w : W} {last : Option (W × PollResult I)} (hs : QuietOk s)
    (hr : s.recv = .idle last) (hc : PollsWhenWoken s (.poll w)) :
    toDo ({ s with wokenSincePoll := false }.setPoll w (.lock false)) < toDo s := by
  have hwaking := hs.not_waking (by rw [hr]; rfl)
  have hnot : ({ s with wokenSincePoll := false }.setPoll w (.lock false)).awaited = false := by
    simp [awaited, hwaking, Recv.wakes]
  have hleft : ({ s with wokenSincePoll := false }.setPoll w (.lock false)).ahead =
      2 * s.queue.map.keys.length + 13 := by
    simp only [ahead, setPoll_recv, setPoll_queue, PollPc.left, Bool.false_eq_true, if_false]
    omega
  refine toDo_lt rfl ?_
  simp only [pending, hnot, hleft, setPoll_queue, Bool.toNat_false, add_zero]
  rcases last with _ | ⟨w', item | _ | _⟩
  · refine Or.inr ⟨Nat.le_add_right .., ?_⟩
    simp [ahead, hr]
  · cases item with
    | none => simp [PollsWhenWoken, hr] at hc
    | some i =>
      refine Or.inr ⟨Nat.le_add_right .., ?_⟩
      simp [ahead, hr]
  · -- the wake-up is used up, and in the quiet there is no other
    simp only [PollsWhenWoken, hr] at hc
    refine Or.inl ⟨?_, ?_⟩
    · simp [awaited, hc]
    · omega
  · simp [PollsWhenWoken, hr] at hc

lemma quiet_step (hs : QuietOk s) (hc : PollsWhenWoken s a) (h : s.step a = some s') :
    QuietOk s' ∧ toDo s' < toDo s ∧
      s'.returned + s'.queue.stored = s.returned + s.queue.stored := by
  have hwake := wakeOk_step hs.wake h
  have hbehind := behindOk_step hs.behind h
  cases step_moves h with
  | handle _ ht hp hr =>
    cases a with
    | poll w => exact (hp w rfl).elim
    | recv b => exact (hr b rfl).elim
    | _ => exact hc.elim
  | sender => exact hc.elim
  | poll hr => exact ⟨⟨hwake, hbehind, hs.idle, hs.opened⟩, quiet_poll hs hr hc, rfl⟩
  | @recv b w pc hr =>
    obtain ⟨hsenders, hend⟩ := pollStep_senders (s := s) w b pc
    exact ⟨⟨hwake, hbehind, hsenders ▸ hs.idle, hend ▸ hs.opened⟩, quiet_pollStep hs hr⟩

lemma waits_of_halted (hs : QuietOk s) (w : W)
    (hstop : ∀ a, PollsWhenWoken s a → s.step a = none) :
    (∃ w, s.recv = .idle (some (w, .unwound))) ∨
      (∃ w, s.recv = .idle (some (w, .pending))) ∧ s.queue.stored = 0 := by
  cases hr : s.recv with
  | polling w' pc =>
    have hnone := hstop (.recv false) trivial
    simp [step, recvStep, hr] at hnone
  | idle last =>
    have hpoll : ¬ PollsWhenWoken s (.poll w) := by
      intro hc
      have hnone := hstop (.poll w) hc
      simp [step, hr] at hnone
    simp only [PollsWhenWoken, hr] at hpoll
    rcases last with _ | ⟨w', item | _ | _⟩
    · exact (hpoll trivial).elim
    · cases item with
      | none =>
        have hclosed := hs.behind.closed w' hr
        rw [hs.opened] at hclosed
        cases hclosed
      | some i => exact (hpoll trivial).elim
    · refine Or.inr ⟨⟨w', rfl⟩, PriorityQueue.stored_eq_zero.mpr fun p => ?_⟩
      -- an item under `p` would be owed a wake-up, and no sender owes one
      by_contra hp
      rcases hs.wake.owed w' (by simp [hr, Recv.Looked]) ⟨p, by simp [passed, hr], hp⟩ with hw | ht
      · exact hpoll hw
      · obtain ⟨t, ht⟩ := ht
        simp [hs.idle t, SenderPc.Owes, SenderPc.Carries] at ht
    · exact Or.inl ⟨w', rfl⟩

def RestOk (s : PriorityChan I P W) : Prop :=
  ∀ w second rest, s.recv = .polling w (.scan second rest) →
    rest.length ≤ s.queue.map.keys.length

lemma restOk_step (hs : RestOk s) (h : s.step a = some s') : RestOk s' := by
  have hkeys := keys_step h
  cases step_moves h with
  | handle => exact hs
  | sender h =>
    intro w second rest hr
    rw [recv_of_sender h] at hr
    exact (hs w second rest hr).trans hkeys
  | poll => exact fun w second rest hr => by cases hr
  | @recv b w pc hr =>
    intro w' second' rest' hr'
    cases pc with
    | lock second =>
      obtain ⟨-, -, rfl⟩ : w = w' ∧ second = second' ∧ s.queue.map.keys = rest' := by
        simpa [pollStep] using hr'
      exact le_rfl
    | scan second rest =>
      have hle := hs w second rest hr
      cases rest with
      | nil => simp [pollStep] at hr'
      | cons p ps =>
        simp only [pollStep] at hr' hkeys ⊢
        split at hr'
        · simp at hr'
        · obtain ⟨-, -, rfl⟩ : w = w' ∧ second = second' ∧ ps = rest' := by simpa using hr'
          exact (Nat.le_succ _).trans hle
    | _ =>
      simp only [pollStep] at hr'
      (first | split_ifs at hr' | skip) <;> simp at hr'

omit [DecidableEq W] in
lemma ahead_le (hs : RestOk s) : s.ahead ≤ 2 * s.queue.map.keys.length + 14 := by
  unfold ahead
  split
  · next w pc hr =>
    cases pc with
    | scan second rest =>
      have hle := hs w second rest hr
      simp only [PollPc.left]
      split_ifs <;> omega
    | _ =>
      simp only [PollPc.left]
      (first | split_ifs | skip) <;> omega
  · exact le_rfl
  · exact le_rfl
  · exact Nat.zero_le _

/-- From any state that a run reaches with the channel open and every sender outside its calls, the
receiver's task, polled again after each item and whenever its waker was called since its last poll
began, takes a bounded number of steps. Where it can take no more, it waits with nothing stored and
all that was stored has been returned, and all that was ever pushed if no write section found an
item; or a clone of its waker has panicked. -/
theorem waits_only_when_empty (as : List (Action I P W)) (s : PriorityChan I P W) (w : W)
    (h : run step new as = some s) (ho : s.endFlag = false)
    (hi : ∀ t, s.senders.pc t = .idle) :
    ∀ bs u, EachStep step PollsWhenWoken s bs → run step s bs = some u →
      bs.length ≤ (s.queue.stored.card + 2) * (2 * s.queue.map.keys.length + 14) ∧
      ((∀ a, PollsWhenWoken u a → u.step a = none) →
        (∃ w', u.recv = .idle (some (w', .unwound))) ∨
          (∃ w', u.recv = .idle (some (w', .pending))) ∧ u.queue.stored = 0 ∧
            u.returned = s.returned + s.queue.stored ∧
            (EachStep step WriteFindsNothing new as → u.returned = s.pushed)) := by
  intro bs u hc hrun
  obtain ⟨hwake, hbehind, hrest⟩ := run_invariant
    (I := fun s : PriorityChan I P W => WakeOk s ∧ BehindOk s ∧ RestOk s)
    (fun _ _ _ hs h => ⟨wakeOk_step hs.1 h, behindOk_step hs.2.1 h, restOk_step hs.2.2 h⟩)
    ⟨wakeOk_new, ⟨by simp [Observing, new], by simp [new]⟩, by simp [RestOk, new]⟩ h
  have hs : QuietOk s := ⟨hwake, hbehind, hi, ho⟩
  obtain ⟨hu, hlen⟩ := run_length_le (f := toDo)
    (fun _ _ _ hs hc h => ⟨(quiet_step hs hc h).1, (quiet_step hs hc h).2.1⟩) hs hc hrun
  have hkept : u.returned + u.queue.stored = s.returned + s.queue.stored :=
    ((always_of_eachStep
      (I := fun v => QuietOk v ∧ v.returned + v.queue.stored = s.returned + s.queue.stored)
      (fun _ _ _ hv hc h => ⟨(quiet_step hv.1 hc h).1, (quiet_step hv.1 hc h).2.2.trans hv.2⟩)
      (fun _ hv => hv.2) bs ⟨hs, rfl⟩ hc).last hrun)
  refine ⟨?_, fun hstop => ?_⟩
  · have hahead := ahead_le hrest
    have hmul := Nat.mul_le_mul_right (2 * s.queue.map.keys.length + 14)
      (show s.pending ≤ s.queue.stored.card + 1 from Nat.add_le_add_left (Bool.toNat_le _) _)
    rw [show s.queue.stored.card + 2 = s.queue.stored.card + 1 + 1 from rfl, Nat.succ_mul]
    unfold toDo at hlen
    omega
  · rcases waits_of_halted hu w hstop with hun | ⟨hwait, hempty⟩
    · exact Or.inl hun
    · rw [hempty, add_zero] at hkept
      exact Or.inr ⟨hwait, hempty, hkept, fun hw => hkept.trans (conserved_of_writes h hw).symm⟩

def sentWhileWaiting : List (Action ℕ ℕ Unit) :=
  .poll () :: List.replicate 9 (.recv false) ++ .send 0 7 3 :: List.replicate 6 (.sender 0)

theorem waits_only_when_empty_sentWhileWaiting :
    ∃ s, run step new sentWhileWaiting = some s ∧ s.recv = .idle (some ((), .pending)) ∧
      s.queue.stored = {7} ∧
      ∀ bs u, EachStep step PollsWhenWoken s bs → run step s bs = some u →
        bs.length ≤ (s.queue.stored.card + 2) * (2 * s.queue.map.keys.length + 14) ∧
        ((∀ a, PollsWhenWoken u a → u.step a = none) →
          (∃ w', u.recv = .idle (some (w', .unwound))) ∨
            (∃ w', u.recv = .idle (some (w', .pending))) ∧ u.queue.stored = 0 ∧
              u.returned = s.returned + s.queue.stored ∧
              (EachStep step WriteFindsNothing new sentWhileWaiting → u.returned = s.pushed)) :=
  ⟨_, rfl, rfl, rfl, waits_only_when_empty sentWhileWaiting _ ()
    (show run step new sentWhileWaiting = some _ from rfl) rfl fun t => by cases t <;> rfl⟩

end PriorityChan

end PaQueueAndChan.Priority
