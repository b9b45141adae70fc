import Mathlib
import PaQueueAndChan.Library.FinMap

/-! `PriorityQueue` of `priotity_async_mpsc_chan.rs`, cut into its atomic sections: the read-lock
and the write-lock section of `push`, and the single `q.pop()` of the scan in `pop`. -/

namespace PaQueueAndChan.Priority

open Library

/-- crossbeam's queue: a linearizable first-in first-out queue. -/
abbrev SegQueue (I : Type*) := List I

structure PriorityQueue (I P : Type*) [LT P] where
  map : FinMap P (SegQueue I)

namespace PriorityQueue

variable {I P : Type*} [LinearOrder P]

def new : PriorityQueue I P := ⟨.empty⟩

/-- `push` under the read lock, `none` where `contains_key` fails and the lock is given back. -/
def pushRead (q : PriorityQueue I P) (i : I) (p : P) : Option (PriorityQueue I P) :=
  if q.map.contains p then some ⟨q.map.modify p (fun l => l ++ [i])⟩ else none

/-- `push` under the write lock: a fresh queue is inserted whatever the map holds by now. -/
def pushWrite (q : PriorityQueue I P) (i : I) (p : P) : PriorityQueue I P :=
  ⟨(q.map.insert p []).modify p (fun l => l ++ [i])⟩

def popAt (q : PriorityQueue I P) (p : P) : Option I × PriorityQueue I P :=
  match q.map.get p with
  | some (i :: _) => (some i, ⟨q.map.modify p List.tail⟩)
  | _ => (none, q)

/-- The queue under `p`; a missing key counts as an empty one. -/
def queueAt (q : PriorityQueue I P) (p : P) : SegQueue I := (q.map.get p).getD []

def stored (q : PriorityQueue I P) : Multiset I := q.map.total (fun e => (e.2 : Multiset I))

variable {q q' : PriorityQueue I P} {i : I} {p p' : P}

@[simp] lemma queueAt_new : (new : PriorityQueue I P).queueAt p = [] := rfl

@[simp] lemma stored_new : (new : PriorityQueue I P).stored = 0 := rfl

lemma stored_eq_add (q : PriorityQueue I P) (p : P) :
    q.stored =
      (q.queueAt p : Multiset I) + (q.map.erase p).total (fun e => (e.2 : Multiset I)) := by
  cases h : q.map.get p with
  | none => simp [stored, queueAt, h, FinMap.total_erase_of_get_eq_none h]
  | some l => simp [stored, queueAt, h, FinMap.total_of_get h]

lemma stored_eq_zero : q.stored = 0 ↔ ∀ p, q.queueAt p = [] := by
  constructor
  · intro h p
    rw [stored_eq_add q p, add_eq_zero] at h
    simpa using h.1
  · intro h
    simp only [stored, FinMap.total]
    apply List.sum_eq_zero
    intro x hx
    obtain ⟨e, he, rfl⟩ := List.mem_map.mp hx
    have := h e.1
    simp only [queueAt, FinMap.get_eq_some.mpr (show (e.1, e.2) ∈ q.map.entries from he),
      Option.getD_some] at this
    simp [this]

lemma pushRead_eq_some (h : q.pushRead i p = some q') :
    p ∈ q.map.keys ∧ q' = ⟨q.map.modify p (fun l => l ++ [i])⟩ := by
  simp only [pushRead] at h
  split_ifs at h with hc
  exact ⟨FinMap.mem_keys.mpr (FinMap.contains_iff.mp hc), (Option.some.inj h).symm⟩

lemma pushRead_queueAt (h : q.pushRead i p = some q') :
    q'.queueAt p' = if p' = p then q.queueAt p ++ [i] else q.queueAt p' := by
  obtain ⟨hp, rfl⟩ := pushRead_eq_some h
  obtain ⟨l, hl⟩ := FinMap.mem_keys.mp hp
  simp only [queueAt, FinMap.get_modify, hl]
  split_ifs <;> simp

lemma pushRead_stored (h : q.pushRead i p = some q') : q'.stored = q.stored + {i} := by
  obtain ⟨hp, rfl⟩ := pushRead_eq_some h
  obtain ⟨l, hl⟩ := FinMap.mem_keys.mp hp
  simp only [stored, FinMap.total_modify hl, FinMap.total_of_get hl, ← Multiset.coe_add,
    Multiset.coe_singleton]
  abel

lemma pushWrite_queueAt :
    (q.pushWrite i p).queueAt p' = if p' = p then [i] else q.queueAt p' := by
  simp only [queueAt, pushWrite, FinMap.get_modify]
  split_ifs with h
  · simp
  · simp [FinMap.get_insert_of_ne h]

lemma pushWrite_stored :
    (q.pushWrite i p).stored + (q.queueAt p : Multiset I) = q.stored + {i} := by
  rw [stored_eq_add q p, stored_eq_add (q.pushWrite i p) p, pushWrite_queueAt]
  simp only [pushWrite, FinMap.erase_modify, FinMap.erase_insert, if_true, Multiset.coe_singleton]
  abel

lemma popAt_none (h : q.popAt p = (none, q')) : q' = q ∧ q.queueAt p = [] := by
  simp only [popAt] at h
  split at h
  · cases h
  · rename_i hne
    refine ⟨(Prod.mk.inj h).2.symm, ?_⟩
    cases hg : q.map.get p with
    | none => simp [queueAt, hg]
    | some l =>
      cases l with
      | nil => simp [queueAt, hg]
      | cons j l => exact (hne j l hg).elim

lemma popAt_stored (h : q.popAt p = (some i, q')) : q.stored = q'.stored + {i} := by
  simp only [popAt] at h
  split at h
  · rename_i j l hl
    obtain ⟨hi, rfl⟩ := Prod.mk.inj h
    obtain rfl := Option.some.inj hi
    simp only [stored, FinMap.total_modify hl, FinMap.total_of_get hl, List.tail_cons,
      ← Multiset.cons_coe, ← Multiset.singleton_add]
    abel
  · cases (Prod.mk.inj h).1

lemma popAt_queueAt (h : q.popAt p = (some i, q')) :
    q.queueAt p = i :: q'.queueAt p ∧ ∀ p', p' ≠ p → q'.queueAt p' = q.queueAt p' := by
  simp only [popAt] at h
  split at h
  · rename_i j l hl
    obtain ⟨hi, rfl⟩ := Prod.mk.inj h
    obtain rfl := Option.some.inj hi
    refine ⟨by simp [queueAt, FinMap.get_modify, hl], fun p' hp' => ?_⟩
    simp [queueAt, FinMap.get_modify, hp']
  · cases (Prod.mk.inj h).1

lemma popAt_keys (h : q.popAt p = (some i, q')) : q'.map.keys = q.map.keys := by
  unfold popAt at h
  split at h
  · obtain ⟨-, rfl⟩ := Prod.mk.inj h
    exact FinMap.keys_modify
  · cases (Prod.mk.inj h).1

end PriorityQueue

end PaQueueAndChan.Priority
