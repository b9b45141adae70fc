import PaQueueAndChan.Library.StableQueue
import PaQueueAndChan.Priority.Channel

/-! `push` and `pop` of `PriorityQueue` as whole calls that do not overlap. A stable priority queue
answers the same. -/

namespace PaQueueAndChan.Priority

open Library PrioQueue

variable {I P : Type*} [LinearOrder P]

namespace PriorityQueue

def push (q : PriorityQueue I P) (i : I) (p : P) : PriorityQueue I P :=
  match q.pushRead i p with
  | some q => q
  | none => q.pushWrite i p

def scan (q : PriorityQueue I P) : List P → Option I × PriorityQueue I P
  | [] => (none, q)
  | p :: ps =>
    match q.popAt p with
    | (some i, q) => (some i, q)
    | (none, _) => q.scan ps

def pop (q : PriorityQueue I P) : Option I × PriorityQueue I P := q.scan q.map.keys

variable {q q' : PriorityQueue I P} {i : I} {p : P} {ps : List P} {l : List (I × P)}

lemma push_queueAt (q : PriorityQueue I P) (i : I) (p p' : P) :
    (q.push i p).queueAt p' = if p' = p then q.queueAt p ++ [i] else q.queueAt p' := by
  unfold push
  split
  · next hq => exact pushRead_queueAt hq
  · next hq =>
    -- the write section is reached only for a priority without a queue
    have hnone : q.queueAt p = [] := by
      unfold pushRead at hq
      split_ifs at hq with hc
      rw [queueAt, FinMap.contains_eq_false.mp (Bool.eq_false_iff.mpr hc), Option.getD_none]
    rw [pushWrite_queueAt, hnone, List.nil_append]

lemma scan_cases (hps : ps.Pairwise (· < ·)) :
    q.scan ps = (none, q) ∧ (∀ p ∈ ps, q.queueAt p = []) ∨
      ∃ p ∈ ps, ∃ i q', q.scan ps = (some i, q') ∧ q.popAt p = (some i, q') ∧
        ∀ p' ∈ ps, p' < p → q.queueAt p' = [] := by
  induction ps with
  | nil => exact Or.inl ⟨rfl, by simp⟩
  | cons p ps ih =>
    obtain ⟨hp, hps⟩ := List.pairwise_cons.mp hps
    cases hpop : q.popAt p with
    | mk o q₁ =>
      cases o with
      | some i =>
        refine Or.inr ⟨p, List.mem_cons_self .., i, q₁, by rw [scan, hpop], hpop, ?_⟩
        intro p' hp' hlt
        rcases List.mem_cons.mp hp' with rfl | hp'
        · exact (lt_irrefl p' hlt).elim
        · exact (lt_asymm hlt (hp p' hp')).elim
      | none =>
        have hempty := (popAt_none hpop).2
        have hscan : q.scan (p :: ps) = q.scan ps := by rw [scan, hpop]
        rw [hscan]
        rcases ih hps with ⟨h, hall⟩ | ⟨p₁, hp₁, i, q', h, hpop₁, hall⟩
        · exact Or.inl ⟨h, List.forall_mem_cons.mpr ⟨hempty, hall⟩⟩
        · refine Or.inr ⟨p₁, List.mem_cons_of_mem p hp₁, i, q', h, hpop₁, ?_⟩
          exact List.forall_mem_cons.mpr ⟨fun _ => hempty, hall⟩

/-- Each queue holds what is present under its priority, in the order of the pushes. -/
def Holds (q : PriorityQueue I P) (l : List (I × P)) : Prop :=
  ∀ p, q.queueAt p = (ofClass Prod.snd p l).map Prod.fst

def whole : PrioQueue (PriorityQueue I P) I P := ⟨push, pop⟩

lemma holds_new : Holds (new : PriorityQueue I P) [] := fun _ => rfl

lemma Holds.push (h : Holds q l) (i : I) (p : P) : Holds (q.push i p) (l ++ [(i, p)]) := by
  intro p'
  rw [push_queueAt, ofClass_append, ofClass_singleton, List.map_append, ← h p']
  by_cases hp : p' = p
  · simp [hp]
  · simp [hp, Ne.symm hp]

lemma Holds.mem_keys (h : Holds q l) {m : I × P} (hm : m ∈ l) :
    m.2 ∈ q.map.keys ∧ q.queueAt m.2 ≠ [] := by
  have hne : q.queueAt m.2 ≠ [] := by
    rw [h m.2]
    exact List.ne_nil_of_mem (List.mem_map_of_mem (mem_ofClass.mpr ⟨hm, rfl⟩))
  refine ⟨FinMap.mem_keys.mpr ?_, hne⟩
  cases hg : q.map.get m.2 with
  | none => simp [queueAt, hg] at hne
  | some items => exact ⟨items, rfl⟩

lemma Holds.pop (h : Holds q l) : (q.pop).1 = ((reference I P).pop l).1 ∧
    Holds (q.pop).2 ((reference I P).pop l).2 := by
  rw [reference_pop]
  rcases scan_cases (q := q) q.map.keys_sorted with
    ⟨hscan, hall⟩ | ⟨p, hp, i, q', hscan, hpop, hall⟩
  · have hnil : l = [] := by
      refine List.eq_nil_iff_forall_not_mem.mpr fun m hm => ?_
      obtain ⟨hkey, hne⟩ := h.mem_keys hm
      exact hne (hall _ hkey)
    subst hnil
    rw [PriorityQueue.pop, hscan]
    exact ⟨rfl, h⟩
  · obtain ⟨hfront, hother⟩ := popAt_queueAt hpop
    have hclass := h p
    rw [hfront] at hclass
    have hl : l ≠ [] := by
      rintro rfl
      simp at hclass
    obtain ⟨l₁, m, l₂, rfl, hfirst, hpopFirst⟩ := popFirst_of_ne_nil Prod.snd hl
    obtain ⟨hkey, hne⟩ := h.mem_keys (m := m) (by simp)
    have hm : p = m.2 := by
      refine le_antisymm (le_of_not_gt fun hlt => hne (hall _ hkey hlt)) ?_
      have hmem : i ∈ (ofClass Prod.snd p (l₁ ++ m :: l₂)).map Prod.fst :=
        hclass ▸ List.mem_cons_self ..
      obtain ⟨m', hm', -⟩ := List.mem_map.mp hmem
      obtain ⟨hin, rfl⟩ := mem_ofClass.mp hm'
      exact hfirst.least m' hin
    subst hm
    rw [hfirst.ofClass_key, List.map_cons, List.cons.injEq] at hclass
    rw [PriorityQueue.pop, hscan, hpopFirst]
    refine ⟨congrArg some hclass.1, fun p => ?_⟩
    by_cases hp : p = m.2
    · subst hp
      exact hclass.2
    · rw [hother p hp, h p, ofClass_of_ne hp]

lemma holds_sim : Sim (whole : PrioQueue (PriorityQueue I P) I P) (reference I P) Holds where
  push i p h := h.push i p
  pop h := h.pop

/-- The pops of any calls answer as those of a stable priority queue do, and with nothing exactly if
nothing is present. Popping on, what is present comes out stably sorted, then nothing; after pushes
alone this is what was pushed. -/
theorem whole_refines_stable_queue (ops : List (Op I P)) :
    (whole.exec new ops).1 = ((reference I P).exec [] ops).1 ∧
      ((whole.exec new ops).2.pop.1 = none ↔ present ops = []) ∧
      (∀ n, (whole.exec new (ops ++ List.replicate ((present ops).length + n) .pop)).1 =
        (whole.exec new ops).1 ++ (stableSort Prod.snd (present ops)).map (fun e => some e.1) ++
          List.replicate n none) ∧
      ∀ items : List (I × P), present (items.map fun e => .push e.1 e.2) = items := by
  obtain ⟨hanswers, hleft⟩ := holds_sim.exec (holds_new (I := I) (P := P)) ops
  refine ⟨hanswers, ?_, fun n => ?_, fun items => ?_⟩
  · rw [hleft.pop.1, reference_pop_eq_none]
    rfl
  · rw [exec_append, (holds_sim.exec hleft _).1, List.append_assoc]
    exact congrArg _ (reference_pops _ n)
  · rw [present, reference_pushes, List.nil_append]

end PriorityQueue

namespace PriorityChan

variable {W : Type*} [DecidableEq W] {s : PriorityChan I P W}

lemma sender_push {t : ℕ} {i : I} {p : P} (h : s.senders.pc t = .checked i p)
    (hscan : s.scanning = false) :
    ∃ n s', run step s (List.replicate n (.sender t)) = some s' ∧
      s'.queue = s.queue.push i p ∧ s'.senders.pc t = .pushed := by
  cases hq : s.queue.pushRead i p with
  | some q =>
    refine ⟨1, (s.notePush q i p).setPc t .pushed, ?_, ?_, by simp⟩
    · simp [step, senderStep, h, hq]
    · simp [PriorityQueue.push, hq]
  | none =>
    refine ⟨2, ((s.setPc t (.missing i p)).notePush (s.queue.pushWrite i p) i p).setPc t .pushed,
      ?_, ?_, by simp⟩
    · have hscan' : (s.setPc t (.missing i p)).scanning = false := hscan
      simp [List.replicate, step, senderStep, h, hq, hscan']
    · simp [PriorityQueue.push, hq]

lemma recv_scan {w : W} {b c : Bool} {ps : List P} (h : s.recv = .polling w (.scan b ps)) :
    ∃ n s', run step s (List.replicate n (.recv c)) = some s' ∧
      s'.queue = (s.queue.scan ps).2 ∧
      s'.recv = ((s.queue.scan ps).1.elim (.polling w (.load b))
        fun i => .idle (some (w, .ready (some i)))) := by
  induction ps generalizing s with
  | nil => exact ⟨1, s.setPoll w (.load b), by simp [step, recvStep, h, pollStep], rfl, rfl⟩
  | cons p ps ih =>
    cases hpop : s.queue.popAt p with
    | mk o q =>
      cases o with
      | some i =>
        refine ⟨1, { s with
          queue := q, returned := s.returned + {i} }.finish w (.ready (some i)), ?_, ?_, ?_⟩
        · simp [step, recvStep, h, pollStep, hpop]
        · simp [PriorityQueue.scan, hpop]
        · simp [PriorityQueue.scan, hpop]
      | none =>
        obtain ⟨n, s', hrun, hq, hr⟩ := ih (s := s.setPoll w (.scan b ps)) rfl
        refine ⟨n + 1, s', ?_, ?_, ?_⟩
        · rw [List.replicate_succ, run_cons, step, recvStep, h]
          simpa only [pollStep, hpop, Option.bind_some] using hrun
        · rw [hq, PriorityQueue.scan, hpop]
          rfl
        · rw [hr, PriorityQueue.scan, hpop]
          rfl

lemma recv_pop {w : W} {b c : Bool} (h : s.recv = .polling w (.lock b)) :
    ∃ n s', run step s (List.replicate n (.recv c)) = some s' ∧ s'.queue = (s.queue.pop).2 ∧
      s'.recv = ((s.queue.pop).1.elim (.polling w (.load b))
        fun i => .idle (some (w, .ready (some i)))) := by
  obtain ⟨n, s', hrun, hs'⟩ := recv_scan (c := c)
    (s := { s with behind := false }.setPoll w (.scan b s.queue.map.keys)) rfl
  refine ⟨n + 1, s', ?_, hs'⟩
  rw [List.replicate_succ, run_cons, step, recvStep, h]
  exact hrun

end PriorityChan

end PaQueueAndChan.Priority
