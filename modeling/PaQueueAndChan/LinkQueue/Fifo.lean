import PaQueueAndChan.LinkQueue.Linked
import PaQueueAndChan.LinkQueue.Safety

namespace PaQueueAndChan.LinkQueue

open Library

variable {T : Type*}

-- how many steps a call of `pop` takes from here when it does not have to retry
def PopPc.left : PopPc T → ℕ
  | .idle _ | .panicked => 0
  | .sub _ => 1
  | .free _ => 2
  | .store .. => 3
  | .next .. => 4
  | .head _ => 5
  | .dummyhead => 6
  | .count => 7

namespace LockfreeMpscLinkQueue

variable {s s' u : LockfreeMpscLinkQueue T}

/-- `u` is `s` with a call of `pop` in progress, which may have been started just now. -/
def InPop (s u : LockfreeMpscLinkQueue T) : Prop :=
  s.step .pop = some u ∨ u = s ∧ ∀ last, s.popper ≠ .idle last

def PopReturns (s : LockfreeMpscLinkQueue T) : Prop :=
  ∃ n t u, run step s (List.replicate n .popStep) = some u ∧ u.popper = .idle (some (some t)) ∧
    u.returned = s.returned ++ [t] ∧ u.returned <+: s.pushed.map Prod.snd

structure Fifo (s : LockfreeMpscLinkQueue T) : Prop where
  inOrder : s.returned <+: s.pushed.map Prod.snd
  untouched : s.touchedFreed = false
  returns : (∀ p, s.pushers p = .idle) → s.cnt ≠ 0 → ∀ u, InPop s u → PopReturns u

structure QueueOk (s : LockfreeMpscLinkQueue T) : Prop where
  chain : ChainOk s
  linked : LinkedOk s
  count : CountOk s
  untouched : s.touchedFreed = false

lemma queueOk_new : QueueOk (new : LockfreeMpscLinkQueue T) :=
  ⟨chainOk_new, linkedOk_new, countOk_new, rfl⟩

lemma ChainOk.linksLive {a : Action T} (hs : ChainOk s) (ha : LinksUntaken s a) :
    LinksLive s a := by
  cases a with
  | pushStep p spurious =>
    simp only [LinksUntaken, LinksLive] at *
    split
    · next hp =>
      rw [hp] at ha
      exact hs.link_live (p := p) (by rw [hp]; rfl) ha
    · trivial
  | push | pop | popStep => trivial

lemma queueOk_step {a : Action T} (hs : QueueOk s) (ha : LinksUntaken s a)
    (h : s.step a = some s') : QueueOk s' :=
  ⟨chainOk_step hs.chain h, linkedOk_step hs.chain hs.linked ha h, countOk_step hs.count h,
    (touchedFreed_step hs.chain hs.untouched h).mpr (hs.chain.linksLive ha)⟩

lemma QueueOk.front_isSome (hs : QueueOk s) (hidle : ∀ p, s.pushers p = .idle) (hc : s.cnt ≠ 0)
    (hret : s.returned = s.takenValues) : ∃ y, s.front = some y := by
  obtain ⟨S, hS, hcnt⟩ := hs.count
  have hempty : S = ∅ := by
    refine Finset.eq_empty_of_forall_notMem fun p hp => ?_
    obtain ⟨x, oldtail, h⟩ := (hS p).mp hp
    simp [hidle] at h
  have hlen : s.returned.length = s.taken.length := by
    rw [hret, takenValues, List.length_map, List.length_take, min_eq_left hs.chain.taken_le]
  have hlt : s.taken.length < s.pushed.length := by
    refine lt_of_le_of_ne hs.chain.taken_le fun he => hc ?_
    rw [hcnt, hempty, hlen, he]
    simp
  refine ⟨s.pushed[s.taken.length].1, hs.linked.front _ ?_ ?_⟩
  · rw [nodes_succ, List.getElem?_eq_getElem hlt, Option.map_some]
  · rintro ⟨p, oldtail, h⟩
    simp [hidle, PushPc.links] at h

lemma QueueOk.pop_progress (hs : QueueOk s) (hidle : ∀ p, s.pushers p = .idle) (hc : s.cnt ≠ 0)
    (hbusy : ∀ last, s.popper ≠ .idle last) :
    ∃ s', s.popStep = some s' ∧ s'.pushed = s.pushed ∧
      ((s'.pushers = s.pushers ∧ s'.cnt = s.cnt ∧ s'.returned = s.returned ∧
          (∀ last, s'.popper ≠ .idle last) ∧ s'.popper.left < s.popper.left) ∨
        ∃ t, s'.popper = .idle (some (some t)) ∧ s'.returned = s.returned ++ [t]) := by
  have hok := hs.chain.popper
  unfold popStep
  rw [PopperOk] at hok
  cases hp : s.popper with
  | idle last => exact (hbusy last hp).elim
  | panicked => simp [hp] at hok
  | count => exact ⟨_, if_neg hc, rfl, Or.inl ⟨rfl, rfl, rfl, by simp, by simp [PopPc.left]⟩⟩
  | dummyhead => exact ⟨_, rfl, rfl, Or.inl ⟨rfl, rfl, rfl, by simp, by simp [PopPc.left]⟩⟩
  | head d =>
    obtain ⟨rfl, hret⟩ : d = s.dummyhead ∧ s.returned = s.takenValues := by simpa [hp] using hok
    obtain ⟨y, hy⟩ := hs.front_isSome hidle hc hret
    have hy : (s.heap s.dummyhead).next = some y := by simpa [front, hp] using hy
    simp only [hy]
    exact ⟨_, rfl, rfl, Or.inl ⟨rfl, rfl, rfl, by simp, by simp [PopPc.left]⟩⟩
  | next d y => exact ⟨_, rfl, rfl, Or.inl ⟨rfl, rfl, rfl, by simp, by simp [PopPc.left]⟩⟩
  | store d y n => exact ⟨_, rfl, rfl, Or.inl ⟨rfl, rfl, rfl, by simp, by simp [PopPc.left]⟩⟩
  | free y =>
    obtain ⟨-, -, t, ht, -⟩ : InHand s y := by simpa [hp] using hok
    simp only [ht]
    exact ⟨_, rfl, rfl, Or.inl ⟨rfl, rfl, rfl, by simp, by simp [PopPc.left]⟩⟩
  | sub t => exact ⟨_, rfl, rfl, Or.inr ⟨t, rfl, rfl⟩⟩

lemma QueueOk.pop_returns (hs : QueueOk s) (hidle : ∀ p, s.pushers p = .idle) (hc : s.cnt ≠ 0)
    (hbusy : ∀ last, s.popper ≠ .idle last) : PopReturns s := by
  induction hk : s.popper.left using Nat.strong_induction_on generalizing s with
  | h k ih =>
    subst hk
    obtain ⟨s', hstep, hpushed, h | ⟨t, hpop, hret⟩⟩ := hs.pop_progress hidle hc hbusy
    · obtain ⟨hpushers, hcnt, hret, hbusy', hlt⟩ := h
      obtain ⟨n, t, u, hrun, hu⟩ := ih _ hlt (queueOk_step (a := .popStep) hs trivial hstep)
        (fun p => by rw [hpushers, hidle]) (hcnt ▸ hc) hbusy' rfl
      refine ⟨n + 1, t, u, ?_, ?_⟩
      · rw [List.replicate_succ, run_cons, step, hstep, Option.bind_some, hrun]
      · rwa [hret, hpushed] at hu
    · refine ⟨1, t, s', ?_, hpop, hret, ?_⟩
      · rw [List.replicate_one, run_cons, step, hstep, Option.bind_some, run_nil]
      · exact hpushed ▸ (chainOk_popStep hs.chain hstep).inOrder

lemma QueueOk.fifo (hs : QueueOk s) : Fifo s := by
  refine ⟨hs.chain.inOrder, hs.untouched, fun hidle hc u hu => ?_⟩
  rcases hu with hu | ⟨rfl, hbusy⟩
  · have hok := queueOk_step (a := .pop) hs trivial hu
    simp only [step] at hu
    split at hu
    · cases hu
      exact hok.pop_returns hidle hc (by simp)
    · cases hu
  · exact hs.pop_returns hidle hc hbusy

theorem fifo_unless_links_taken (as : List (Action T))
    (hlink : EachStep step LinksUntaken new as) : Always step Fifo new as :=
  always_of_eachStep (fun _ _ _ hs ha h => queueOk_step hs ha h) (fun _ hs => hs.fifo) as
    queueOk_new hlink

-- the third push finds the node of the second one, which the popper has not taken
def keepsOne : List (Action ℕ) := pushOnce 5 ++ pushOnce 7 ++ popOnce ++ pushOnce 6

theorem fifo_unless_links_taken_keepsOne :
    ∃ s, run step new keepsOne = some s ∧ s.returned = [5] ∧ s.pushed.map Prod.snd = [5, 7, 6] ∧
      Always step Fifo new keepsOne :=
  ⟨_, rfl, rfl, rfl, fifo_unless_links_taken keepsOne (by decide)⟩

/-- After the only value is returned, `tail` still points to its node. -/
theorem not_fifo_emptied :
    ¬ ∀ as : List (Action ℕ), Always step Fifo new as := by
  intro h
  obtain ⟨s, hrun, htouched⟩ :
      ∃ s, run step new (pushOnce 5 ++ popOnce ++ pushOnce 6) = some s ∧ s.touchedFreed = true :=
    ⟨_, rfl, rfl⟩
  have hfifo := (h _).last hrun
  exact absurd hfifo.untouched (by rw [htouched]; decide)

end LockfreeMpscLinkQueue

end PaQueueAndChan.LinkQueue
