import PaQueueAndChan.LinkQueue.Fifo

/-! `Drop for LockfreeMpscLinkQueue`, and what every run of pushes and pops leaves it with. Nothing
is assumed here of the order of the steps. -/

namespace PaQueueAndChan.LinkQueue

open Library

variable {T : Type*}

inductive DropPc
  | loop
  | returned
  | dangling                         -- read `(*head).t` through a null or freed pointer

structure Dropping (T : Type*) where
  heap : Ptr → Node T
  dummyhead : Option Ptr
  freed : List Ptr
  dropped : List T
  pc : DropPc

namespace Dropping

-- `drop` has the queue for itself, so an iteration of its loop is one step
def step (d : Dropping T) (_ : Unit) : Option (Dropping T) :=
  match d.pc with
  | .returned | .dangling => none
  | .loop =>
    match d.dummyhead with
    | none => some { d with pc := .dangling }
    | some head =>
      if (d.heap head).live then
        match (d.heap head).t with
        | none => some { d with pc := .returned }
        | some t =>
          some { d with
            heap := Function.update d.heap head { d.heap head with t := none, live := false }
            dummyhead := (d.heap head).next
            freed := d.freed ++ [head]
            dropped := d.dropped ++ [t] }
      else some { d with pc := .dangling }

end Dropping

def PopPc.ahead : PopPc T → List Ptr
  | .next _ x | .free x => [x]
  | .store _ x n => x :: n.toList
  | _ => []

def PopPc.hand : PopPc T → Multiset T
  | .sub t => {t}
  | _ => 0

def Action.value : Action T → List T
  | .push _ t => [t]
  | _ => []

namespace LockfreeMpscLinkQueue

variable {s s' : LockfreeMpscLinkQueue T} {x y : Ptr} {n : Option Ptr}

def drop (s : LockfreeMpscLinkQueue T) : Dropping T := ⟨s.heap, some s.dummyhead, [], [], .loop⟩

def remaining (s : LockfreeMpscLinkQueue T) : Finset Ptr :=
  (Finset.range s.nextPtr).filter fun x => (s.heap x).t.isSome

def stored (s : LockfreeMpscLinkQueue T) : Multiset T :=
  ∑ x ∈ Finset.range s.nextPtr, ((s.heap x).t.toList : Multiset T)

/-- `drop` ends, has freed each remaining node once, and with what it dropped every value that was
given to `push` is accounted for. -/
def DropsAll (given : List T) (s : LockfreeMpscLinkQueue T) : Prop :=
  ∃ n d, run Dropping.step s.drop (List.replicate n ()) = some d ∧ d.pc = .returned ∧
    (d.freed : Multiset Ptr) = s.remaining.val ∧
    (given : Multiset T) = s.returned + d.dropped

/-! The node at address 0 is the permanent first one: it never holds a value and is never freed. -/

structure HeadOk (s : LockfreeMpscLinkQueue T) : Prop where
  dummyhead : s.dummyhead = 0
  empty : (s.heap 0).t = none
  live : (s.heap 0).live = true
  allocated : 0 < s.nextPtr
  beyond : ∀ x, s.nextPtr ≤ x → (s.heap x).t = none
  next : ∀ x, (s.heap x).next ≠ some 0
  new : ∀ p, (s.pushers p).new ≠ some 0
  popper : 0 ∉ s.popper.ahead

lemma headOk_new : HeadOk (new : LockfreeMpscLinkQueue T) := by
  constructor <;> simp [new, Node.newHead, PushPc.new, PopPc.ahead]

lemma HeadOk.congr (hs : HeadOk s) (hh : s'.heap = s.heap) (hn : s'.nextPtr = s.nextPtr)
    (hd : s'.dummyhead = s.dummyhead) (hnew : ∀ p, (s'.pushers p).new ≠ some 0)
    (hpop : 0 ∉ s'.popper.ahead) : HeadOk s' := by
  refine ⟨hd.trans hs.dummyhead, ?_, ?_, ?_, ?_, ?_, hnew, hpop⟩
  · rw [hh, hs.empty]
  · rw [hh, hs.live]
  · rw [hn]
    exact hs.allocated
  · rw [hh, hn]
    exact hs.beyond
  · rw [hh]
    exact hs.next

lemma HeadOk.new_update {p : ℕ} {c : PushPc T} (hs : HeadOk s) (hc : c.new ≠ some 0) (q : ℕ) :
    (Function.update s.pushers p c q).new ≠ some 0 := by
  by_cases hq : q = p
  · subst hq
    simpa using hc
  · simpa [hq] using hs.new q

lemma HeadOk.storeNext (hs : HeadOk s) (hn : n ≠ some 0) : HeadOk (s.storeNext x n) := by
  refine ⟨hs.dummyhead, storeNext_t.trans hs.empty, storeNext_live.trans hs.live, hs.allocated,
    fun y hy => storeNext_t.trans (hs.beyond y hy), fun y => ?_, hs.new, hs.popper⟩
  rw [storeNext_next]
  split_ifs
  · exact hn
  · exact hs.next y

lemma HeadOk.push {p : ℕ} {t : T} (hs : HeadOk s) :
    HeadOk ({ s.setNode s.nextPtr (.new t) with nextPtr := s.nextPtr + 1 }.setPush p
      (.load s.nextPtr t)) := by
  have hne := hs.allocated.ne
  refine ⟨hs.dummyhead, ?_, ?_, Nat.succ_pos _, fun x hx => ?_, fun x => ?_,
    hs.new_update (by simpa [PushPc.new] using hne.symm), hs.popper⟩
  · simpa [hne] using hs.empty
  · simpa [hne] using hs.live
  · have hx : s.nextPtr < x := hx
    simpa [hx.ne'] using hs.beyond x hx.le
  · by_cases he : x = s.nextPtr
    · simp [he, Node.new]
    · simpa [he] using hs.next x

lemma HeadOk.free (hs : HeadOk s) (hne : 0 ≠ y) :
    HeadOk ((s.touch y).setNode y { s.heap y with t := none, live := false }) := by
  refine ⟨hs.dummyhead, ?_, ?_, hs.allocated, fun x hx => ?_, fun x => ?_, hs.new, hs.popper⟩
  · simpa [hne] using hs.empty
  · simpa [hne] using hs.live
  · by_cases he : x = y
    · simp [he]
    · simpa [he] using hs.beyond x hx
  · by_cases he : x = y
    · simpa [he] using hs.next y
    · simpa [he] using hs.next x

lemma headOk_pushStep {p : ℕ} {spurious : Bool} (hs : HeadOk s)
    (h : s.pushStep p spurious = some s') : HeadOk s' := by
  have hnew := hs.new p
  unfold pushStep at h
  cases hp : s.pushers p with
  | idle => simp [hp] at h
  | load x t =>
    have hx : x ≠ 0 := by simpa [hp, PushPc.new] using hnew
    simp only [hp, Option.some.injEq] at h
    rw [← h]
    exact hs.congr rfl rfl rfl (hs.new_update (by simpa [PushPc.new] using hx)) hs.popper
  | exchange x t oldtail =>
    have hx : x ≠ 0 := by simpa [hp, PushPc.new] using hnew
    simp only [hp] at h
    split_ifs at h <;> obtain rfl := Option.some.inj h
    · exact hs.congr rfl rfl rfl (hs.new_update (by simpa [PushPc.new] using hx)) hs.popper
    · exact hs.congr rfl rfl rfl (hs.new_update (by simpa [PushPc.new] using hx)) hs.popper
  | count x oldtail =>
    have hx : x ≠ 0 := by simpa [hp, PushPc.new] using hnew
    simp only [hp, Option.some.injEq] at h
    rw [← h]
    exact hs.congr rfl rfl rfl (hs.new_update (by simpa [PushPc.new] using hx)) hs.popper
  | link x oldtail =>
    have hx : x ≠ 0 := by simpa [hp, PushPc.new] using hnew
    have hstored : HeadOk (s.storeNext oldtail (some x)) := hs.storeNext (by simpa using hx)
    simp only [hp, Option.some.injEq] at h
    rw [← h]
    exact hstored.congr rfl rfl rfl (hs.new_update (by simp [PushPc.new])) hs.popper

lemma headOk_popStep (hs : HeadOk s) (h : s.popStep = some s') : HeadOk s' := by
  have hahead := hs.popper
  unfold popStep at h
  cases hp : s.popper with
  | idle last => simp [hp] at h
  | panicked => simp [hp] at h
  | count =>
    simp only [hp] at h
    split_ifs at h <;> obtain rfl := Option.some.inj h
    · exact hs.congr rfl rfl rfl hs.new (by simp [PopPc.ahead])
    · exact hs.congr rfl rfl rfl hs.new (by simp [PopPc.ahead])
  | dummyhead =>
    simp only [hp, Option.some.injEq] at h
    rw [← h]
    exact hs.congr rfl rfl rfl hs.new (by simp [PopPc.ahead])
  | head d =>
    simp only [hp] at h
    split at h
    · obtain rfl := Option.some.inj h
      exact hs.congr rfl rfl rfl hs.new (by simp [PopPc.ahead])
    · next y hy =>
      obtain rfl := Option.some.inj h
      have hne : y ≠ 0 := fun he => hs.next d (hy.trans (congrArg some he))
      exact hs.congr rfl rfl rfl hs.new (by simpa [PopPc.ahead] using hne.symm)
  | next d y =>
    have hne : (0 : Ptr) ≠ y := by simpa [hp, PopPc.ahead] using hahead
    simp only [hp, Option.some.injEq] at h
    rw [← h]
    refine hs.congr rfl rfl rfl hs.new ?_
    simpa [PopPc.ahead, hne] using hs.next y
  | store d y n =>
    obtain ⟨hne, hn⟩ : (0 : Ptr) ≠ y ∧ n ≠ some 0 := by simpa [hp, PopPc.ahead] using hahead
    simp only [hp, Option.some.injEq] at h
    rw [← h]
    exact (hs.storeNext hn).congr rfl rfl rfl hs.new (by simpa [PopPc.ahead] using hne)
  | free y =>
    have hne : (0 : Ptr) ≠ y := by simpa [hp, PopPc.ahead] using hahead
    simp only [hp] at h
    split at h <;> obtain rfl := Option.some.inj h
    · exact (hs.free hne).congr rfl rfl rfl hs.new (by simp [PopPc.ahead])
    · exact (hs.free hne).congr rfl rfl rfl hs.new (by simp [PopPc.ahead])
  | sub t =>
    simp only [hp, Option.some.injEq] at h
    rw [← h]
    exact hs.congr rfl rfl rfl hs.new (by simp [PopPc.ahead])

lemma headOk_step {a : Action T} (hs : HeadOk s) (h : s.step a = some s') : HeadOk s' := by
  unfold step at h
  cases a with
  | push p t =>
    simp only at h
    split at h
    · obtain rfl := Option.some.inj h
      exact hs.push
    · cases h
  | pushStep p spurious => exact headOk_pushStep hs h
  | pop =>
    simp only at h
    split at h
    · obtain rfl := Option.some.inj h
      exact hs.congr rfl rfl rfl hs.new (by simp [PopPc.ahead])
    · cases h
  | popStep => exact headOk_popStep hs h

def values (s : LockfreeMpscLinkQueue T) : Multiset T := s.returned + s.popper.hand + s.stored

lemma stored_congr (hn : s'.nextPtr = s.nextPtr) (hh : ∀ x, (s'.heap x).t = (s.heap x).t) :
    s'.stored = s.stored := by
  simp only [stored, hn, hh]

lemma remaining_eq_empty : s.remaining = ∅ ↔ s.stored = 0 := by
  simp only [remaining, stored, Finset.filter_eq_empty_iff, Finset.sum_eq_zero_iff]
  refine forall₂_congr fun x _ => ?_
  cases (s.heap x).t <;> simp

lemma stored_push {t : T} :
    stored { s.setNode s.nextPtr (.new t) with nextPtr := s.nextPtr + 1 } = s.stored + {t} := by
  rw [stored, Finset.sum_range_succ, stored]
  congr 1
  · refine Finset.sum_congr rfl fun x hx => ?_
    simp [(Finset.mem_range.mp hx).ne]
  · simp [Node.new]

lemma HeadOk.stored_free {t : T} (hs : HeadOk s) (ht : (s.heap x).t = some t) :
    s.stored = {t} + stored (s.setNode x { s.heap x with t := none, live := false }) := by
  have hx : x ∈ Finset.range s.nextPtr := by
    by_contra hx
    rw [hs.beyond x (not_lt.mp fun hlt => hx (Finset.mem_range.mpr hlt))] at ht
    cases ht
  have hrest : ∀ y ∈ (Finset.range s.nextPtr).erase x,
      (((s.setNode x { s.heap x with t := none, live := false }).heap y).t.toList : Multiset T) =
        (s.heap y).t.toList := by
    intro y hy
    simp [Finset.ne_of_mem_erase hy]
  rw [stored, stored, setNode_nextPtr, ← Finset.add_sum_erase _ _ hx,
    ← Finset.add_sum_erase _ (fun y => ((_ : Option T).toList : Multiset T)) hx,
    Finset.sum_congr rfl hrest]
  simp [ht]

lemma values_congr (hr : s'.returned = s.returned) (hp : s'.popper.hand = s.popper.hand)
    (hn : s'.nextPtr = s.nextPtr) (hh : ∀ x, (s'.heap x).t = (s.heap x).t) :
    s'.values = s.values := by
  rw [values, values, hr, hp, stored_congr hn hh]

lemma values_pushStep {p : ℕ} {spurious : Bool} (h : s.pushStep p spurious = some s') :
    s'.values = s.values := by
  unfold pushStep at h
  split at h
  · cases h
  · obtain rfl := Option.some.inj h
    exact values_congr rfl rfl rfl fun _ => rfl
  · split_ifs at h <;> obtain rfl := Option.some.inj h <;>
      exact values_congr rfl rfl rfl fun _ => rfl
  · obtain rfl := Option.some.inj h
    exact values_congr rfl rfl rfl fun _ => rfl
  · obtain rfl := Option.some.inj h
    exact values_congr rfl rfl rfl fun _ => storeNext_t

lemma values_popStep (hs : HeadOk s) (h : s.popStep = some s') : s'.values = s.values := by
  unfold popStep at h
  cases hp : s.popper with
  | idle last => simp [hp] at h
  | panicked => simp [hp] at h
  | count =>
    simp only [hp] at h
    split_ifs at h <;> obtain rfl := Option.some.inj h
    · exact values_congr rfl (by simp [hp, PopPc.hand]) rfl fun _ => rfl
    · exact values_congr rfl (by simp [hp, PopPc.hand]) rfl fun _ => rfl
  | dummyhead =>
    simp only [hp, Option.some.injEq] at h
    rw [← h]
    exact values_congr rfl (by simp [hp, PopPc.hand]) rfl fun _ => rfl
  | head d =>
    simp only [hp] at h
    split at h <;> obtain rfl := Option.some.inj h
    · exact values_congr rfl (by simp [hp, PopPc.hand]) rfl fun _ => rfl
    · exact values_congr rfl (by simp [hp, PopPc.hand]) rfl fun _ => rfl
  | next d y =>
    simp only [hp, Option.some.injEq] at h
    rw [← h]
    exact values_congr rfl (by simp [hp, PopPc.hand]) rfl fun _ => rfl
  | store d y n =>
    simp only [hp, Option.some.injEq] at h
    rw [← h]
    exact values_congr rfl (by simp [hp, PopPc.hand]) rfl fun _ => storeNext_t
  | free y =>
    simp only [hp] at h
    split at h <;> obtain rfl := Option.some.inj h
    · next t ht =>
      -- the value moves from its node to the hand of the popper
      have hstored := hs.stored_free ht
      rw [values, values, hp, hstored]
      simp only [PopPc.hand, setPop_popper, add_zero, add_assoc]
      rfl
    · next ht =>
      refine values_congr rfl (by simp [hp, PopPc.hand]) rfl fun x => ?_
      by_cases hx : x = y
      · simp [hx, ht]
      · simp [hx]
  | sub t =>
    simp only [hp, Option.some.injEq] at h
    rw [← h, values, values, hp]
    change ((s.returned ++ [t] : List T) : Multiset T) + 0 + s.stored = s.returned + {t} + s.stored
    rw [add_zero, ← Multiset.coe_add]
    rfl

lemma values_step {a : Action T} (hs : HeadOk s) (h : s.step a = some s') :
    s'.values = s.values + (a.value : Multiset T) := by
  unfold step at h
  cases a with
  | push p t =>
    simp only at h
    split at h
    · obtain rfl := Option.some.inj h
      change (s.returned : Multiset T) + s.popper.hand + stored _ = _
      rw [values, add_assoc _ s.stored]
      exact congrArg _ stored_push
    · cases h
  | pushStep p spurious => simpa [Action.value] using values_pushStep h
  | pop =>
    simp only at h
    split at h
    · next hp =>
      obtain rfl := Option.some.inj h
      have hpop : (s.setPop .count).values = s.values :=
        values_congr rfl (by simp [hp, PopPc.hand]) rfl fun _ => rfl
      simpa [Action.value] using hpop
    · cases h
  | popStep => simpa [Action.value] using values_popStep hs h

lemma values_run {as : List (Action T)} (h : run step new as = some s) :
    HeadOk s ∧ s.values = (as.flatMap Action.value : Multiset T) := by
  have hsum := run_sum (I := HeadOk) (f := values) (g := fun a : Action T => (a.value : Multiset T))
    (fun s a t hs h => ⟨headOk_step hs h, values_step hs h⟩) headOk_new h
  refine ⟨run_invariant (fun s a t hs h => headOk_step hs h) headOk_new h, ?_⟩
  have hnew : (new : LockfreeMpscLinkQueue T).values = 0 := by
    simp [values, stored, new, PopPc.hand, Node.newHead]
  rw [hsum, hnew, zero_add, ← Multiset.coe_bind, Multiset.bind, Multiset.join, Multiset.map_coe,
    Multiset.sum_coe]

lemma HeadOk.drop_step (hs : HeadOk s) :
    s.drop.step () = some { s.drop with pc := .returned } := by
  simp [Dropping.step, drop, hs.dummyhead, hs.live, hs.empty]

lemma HeadOk.dropsAll_iff {given : List T} (hs : HeadOk s) :
    DropsAll given s ↔ s.remaining = ∅ ∧ (given : Multiset T) = s.returned := by
  have hend : ∀ n, run Dropping.step { s.drop with pc := .returned } (List.replicate (n + 1) ()) =
      none := fun n => rfl
  constructor
  · rintro ⟨n, d, hrun, hpc, hfreed, hgiven⟩
    obtain rfl : d = { s.drop with pc := .returned } := by
      match n with
      | 0 =>
        obtain rfl := Option.some.inj hrun
        cases hpc
      | 1 =>
        rw [List.replicate_one, run_cons, hs.drop_step] at hrun
        exact (Option.some.inj hrun).symm
      | n + 2 =>
        rw [List.replicate_succ, run_cons, hs.drop_step, Option.bind_some, hend] at hrun
        cases hrun
    refine ⟨?_, by simpa [drop] using hgiven⟩
    exact Finset.val_eq_zero.mp hfreed.symm
  · rintro ⟨hrem, hgiven⟩
    refine ⟨1, _, by rw [List.replicate_one, run_cons, hs.drop_step]; rfl, rfl, ?_, ?_⟩
    · simp [drop, hrem]
    · simpa [drop] using hgiven

/-- `drop` frees what is left exactly when no value is left. It stops at the permanent first node,
which it leaves allocated in every state. -/
theorem drops_all_iff_all_returned (as : List (Action T)) (s : LockfreeMpscLinkQueue T)
    (h : run step new as = some s) (hidle : ∃ last, s.popper = .idle last) :
    DropsAll (as.flatMap Action.value) s ↔
      s.returned.length = (as.flatMap Action.value).length := by
  obtain ⟨hs, hvalues⟩ := values_run h
  obtain ⟨last, hpop⟩ := hidle
  simp only [values, hpop, PopPc.hand, add_zero] at hvalues
  have hlen : (as.flatMap Action.value).length = s.returned.length + s.stored.card := by
    simpa using congrArg Multiset.card hvalues.symm
  rw [hs.dropsAll_iff, remaining_eq_empty]
  constructor
  · rintro ⟨hstored, -⟩
    simp [hlen, hstored]
  · intro h
    have hstored : s.stored = 0 := Multiset.card_eq_zero.mp (by omega)
    rw [hstored, add_zero] at hvalues
    exact ⟨hstored, hvalues.symm⟩

theorem drops_all_iff_all_returned_emptied_and_not :
    (∃ s, run step new (pushOnce 5 ++ popOnce) = some s ∧ s.returned = [5] ∧ DropsAll [5] s) ∧
      ∃ s, run step new keepsOne = some s ∧ s.returned = [5] ∧ ¬ DropsAll [5, 7, 6] s := by
  refine ⟨⟨_, rfl, rfl, ?_⟩, _, rfl, rfl, ?_⟩
  · exact (drops_all_iff_all_returned (pushOnce 5 ++ popOnce) _ rfl ⟨_, rfl⟩).mpr rfl
  · intro h
    have hlen := (drops_all_iff_all_returned keepsOne _ rfl ⟨_, rfl⟩).mp h
    cases hlen

theorem not_drops_all_one_left :
    ¬ ∀ (as : List (Action ℕ)) (s : LockfreeMpscLinkQueue ℕ), run step new as = some s →
      (∀ p, s.pushers p = .idle) → (∃ last, s.popper = .idle last) →
      DropsAll (as.flatMap Action.value) s := by
  intro h
  obtain ⟨s, hrun, hpush, hpop, hret⟩ :
      ∃ s, run step new (pushOnce 5) = some s ∧ (∀ p, s.pushers p = .idle) ∧
        s.popper = .idle none ∧ s.returned = [] := by
    refine ⟨_, rfl, fun p => ?_, rfl, rfl⟩
    cases p <;> rfl
  obtain ⟨-, hgiven⟩ := (values_run hrun).1.dropsAll_iff.mp (h _ s hrun hpush ⟨none, hpop⟩)
  simp [hret, pushOnce, Action.value] at hgiven

end LockfreeMpscLinkQueue

end PaQueueAndChan.LinkQueue
