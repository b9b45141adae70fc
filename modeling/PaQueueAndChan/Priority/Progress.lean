import PaQueueAndChan.Priority.EndOfStream

/-! The calls of the priority channel end. A sender waits for nobody but a scan, which holds the
read lock, and the receiver for nobody. -/

namespace PaQueueAndChan.Priority

open Library

variable {I P W : Type*} [LinearOrder P]

def SenderPc.left : SenderPc I P W → ℕ
  | .checked .. => 6
  | .missing .. => 5
  | .pushed => 4
  | .taking => 3
  | .releasing _ => 2
  | .waking _ | .dropping => 1
  | .idle => 0

def PollPc.left (k : ℕ) : PollPc P W → ℕ
  | .lock second => if second then k + 3 else k + 3 + 8 + k + 2
  | .scan second rest => if second then rest.length + 2 else k + 3 + 8 + rest.length + 1
  | .load second => if second then 1 else k + 3 + 8
  | .register => k + 3 + 7
  | .store => k + 3 + 6
  | .publish .. => k + 3 + 5
  | .reclaim .. => k + 3 + 4
  | .swap .. => k + 3 + 3
  | .wakeOld .. => k + 3 + 2
  | .wakeNew .. | .wakeSelf => k + 3 + 1

def Recv.left (k : ℕ) : Recv I P W → ℕ
  | .polling _ pc => pc.left k
  | .idle _ => 0

def Action.steps (t : ℕ) : Action I P W → ℕ
  | .sender t' => if t' = t then 1 else 0
  | _ => 0

def Action.cost (t : ℕ) : Action I P W → ℕ
  | .send t' _ _ => if t' = t then 6 else 0
  | .drop t' => if t' = t then 1 else 0
  | _ => 0

lemma PriorityQueue.keys_pushWrite (q : PriorityQueue I P) (i : I) (p : P) :
    q.map.keys.length ≤ (q.pushWrite i p).map.keys.length := by
  refine (List.subperm_of_subset q.map.keys_nodup fun p' hp' => ?_).length_le
  rw [FinMap.mem_keys] at hp' ⊢
  obtain ⟨l, hl⟩ := hp'
  by_cases hp : p' = p
  · simp [pushWrite, FinMap.get_modify, hp]
  · simp [pushWrite, FinMap.get_modify, FinMap.get_insert_of_ne hp, hp, hl]

namespace PriorityChan

variable [DecidableEq W] {s s' : PriorityChan I P W} {a : Action I P W}

lemma keys_step (h : s.step a = some s') :
    s.queue.map.keys.length ≤ s'.queue.map.keys.length := by
  cases step_queue h with
  | same _ hq => rw [hq]
  | pushRead _ hq =>
    obtain ⟨-, hq⟩ := PriorityQueue.pushRead_eq_some hq
    rw [hq, FinMap.keys_modify]
  | @pushWrite t i p _ _ _ hq =>
    rw [hq]
    exact PriorityQueue.keys_pushWrite s.queue i p
  | pop _ hq => rw [PriorityQueue.popAt_keys hq]

lemma left_pollStep {k : ℕ} {w : W} {b : Bool} {pc : PollPc P W}
    (hk : s.queue.map.keys.length ≤ k) :
    (s.pollStep w b pc).recv.left k + 1 ≤ pc.left k := by
  fun_cases pollStep <;> simp only [setPoll_recv, finish_recv, wake_eq, Recv.left, PollPc.left,
    List.length_cons] <;> (first | split_ifs | skip) <;> (try dsimp only) <;> omega

end PriorityChan

end PaQueueAndChan.Priority
