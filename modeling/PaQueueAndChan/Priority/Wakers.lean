import PaQueueAndChan.AtomicWaker.Exclusion

/-! The waker of the channel is an `AtomicWaker` with which the receiver registers and on which the
senders call `wake`. What a run of the channel does to it is a run of `AtomicWaker` by itself, where
each waker is known by the number of its registration. -/

namespace PaQueueAndChan.Priority

open Library
open Waking (Wakers Pc)

variable {I P W : Type*}

inductive WakerEvent (W : Type*)
  | registers (w : W)
  | wakes (w : W)

def WakerEvent.registered : WakerEvent W → Option W
  | .registers w => some w
  | .wakes _ => none

def WakerEvent.woken : WakerEvent W → Option W
  | .registers _ => none
  | .wakes w => some w

def registers (l : List (WakerEvent W)) : List W := l.filterMap WakerEvent.registered

def wakes (l : List (WakerEvent W)) : Multiset W := (l.filterMap WakerEvent.woken : List W)

@[simp] lemma registers_append (l l' : List (WakerEvent W)) :
    registers (l ++ l') = registers l ++ registers l' := List.filterMap_append

@[simp] lemma wakes_append (l l' : List (WakerEvent W)) :
    wakes (l ++ l') = wakes l + wakes l' := by
  rw [wakes, List.filterMap_append, ← Multiset.coe_add]
  rfl

@[simp] lemma registers_nil : registers ([] : List (WakerEvent W)) = [] := rfl

@[simp] lemma wakes_nil : wakes ([] : List (WakerEvent W)) = 0 := rfl

@[simp] lemma registers_registers (w : W) : registers [.registers w] = [w] := rfl

@[simp] lemma wakes_registers (w : W) : wakes [.registers w] = 0 := rfl

@[simp] lemma registers_wake (w : W) : registers [.wakes w] = [] := rfl

@[simp] lemma wakes_wake (w : W) : wakes [.wakes w] = {w} := rfl

@[simp] lemma registers_wakes (o : Option W) :
    registers (o.toList.map WakerEvent.wakes) = [] := by
  cases o <;> rfl

@[simp] lemma wakes_wakes (o : Option W) :
    wakes (o.toList.map WakerEvent.wakes) = (o.toList : Multiset W) := by
  cases o <;> rfl

def Names (ws : List W) (o : Option ℕ) (o' : Option W) : Prop := o.map (ws[·]?) = o'.map some

section Names

variable {ws : List W} {o : Option ℕ} {o' : Option W} {n : ℕ} {w : W}

lemma names_none : Names ws none (none : Option W) := rfl

lemma names_some (h : ws[n]? = some w) : Names ws (some n) (some w) := congrArg some h

lemma getElem?_grow (h : ws[n]? = some w) (l : List W) : (ws ++ l)[n]? = some w :=
  (List.getElem?_append_left (List.getElem?_eq_some_iff.mp h).1).trans h

lemma Names.eq_none (h : Names ws none o') : o' = none := Option.map_eq_none_iff.mp h.symm

lemma Names.grow (h : Names ws o o') (l : List W) : Names (ws ++ l) o o' := by
  cases o with
  | none => exact h
  | some n =>
    cases o' with
    | none => cases h
    | some w => exact names_some (getElem?_grow (Option.some.inj h) l)

lemma Names.toList (h : Names ws o o') :
    (o.toList : Multiset ℕ).map (ws[·]?) = (o'.toList : Multiset W).map some := by
  cases o <;> cases o' <;> simp_all [Names]

lemma map_grow {m : Multiset ℕ} {m' : Multiset W} (h : m.map (ws[·]?) = m'.map some) (l : List W) :
    m.map ((ws ++ l)[·]?) = m'.map some := by
  rw [← h]
  refine Multiset.map_congr rfl fun n hn => ?_
  have hmem : ws[n]? ∈ m'.map some := h ▸ Multiset.mem_map_of_mem (ws[·]?) hn
  obtain ⟨w, -, hw⟩ := Multiset.mem_map.mp hmem
  rw [getElem?_grow hw.symm l, hw]

end Names

def SenderPc.Shows (ws : List W) : SenderPc I P W → Pc → Prop
  | .pushed, c => c = .wake
  | .taking, c => c = .taking
  | .releasing w, c => ∃ n, c = .releasing n ∧ Names ws n w
  | .waking w, c => ∃ n, c = .waking n ∧ Names ws n w
  | _, c => c = .idle

def PollPc.Shows (ws : List W) (w : W) : PollPc P W → Pc → Prop
  | .register, c => ∃ n, c = .register n ∧ ws[n]? = some w
  | .store, c => ∃ n, c = .into n ∧ ws[n]? = some w
  | .publish old panic, c => ∃ o, c = .publish o panic ∧ Names ws o old
  | .reclaim old panic, c => ∃ o, c = .reclaim o panic ∧ Names ws o old
  | .swap old new panic, c => ∃ o n, c = .swap o n panic ∧ Names ws o old ∧ Names ws n new
  | .wakeOld old new panic, c => ∃ o n, c = .wakeOld o n panic ∧ Names ws o old ∧ Names ws n new
  | .wakeNew new panic, c => ∃ n, c = .wakeNew n panic ∧ Names ws n new
  | .wakeSelf, c => ∃ n, c = .wakeSelf n ∧ ws[n]? = some w
  | _, c => c = .idle

def Recv.Shows (ws : List W) : Recv I P W → Pc → Prop
  | .polling w pc, c => pc.Shows ws w c
  | .idle _, c => c = .idle

lemma SenderPc.Shows.grow {ws : List W} {pc : SenderPc I P W} {c : Pc} (h : pc.Shows ws c)
    (l : List W) : pc.Shows (ws ++ l) c := by
  cases pc with
  | releasing w | waking w =>
    obtain ⟨n, rfl, hn⟩ := h
    exact ⟨n, rfl, hn.grow l⟩
  | _ => exact h

lemma SenderPc.shows_of_outside {ws : List W} {pc : SenderPc I P W} {c : Pc}
    (h : pc.afterPush = false) : pc.Shows ws c ↔ c = .idle := by
  cases pc <;> simp_all [SenderPc.Shows, SenderPc.afterPush]

namespace PriorityChan

variable [LinearOrder P]

def events (s : PriorityChan I P W) : Action I P W → List (WakerEvent W)
  | .sender t =>
    match s.senders.pc t with
    | .waking w => w.toList.map .wakes
    | _ => []
  | .recv _ =>
    match s.recv with
    | .polling w (.load second) =>
      if s.endFlag = false ∧ second = false then [.registers w] else []
    | .polling _ (.wakeOld old _ _) => old.toList.map .wakes
    | .polling _ (.wakeNew new _) => new.toList.map .wakes
    | .polling w .wakeSelf => [.wakes w]
    | _ => []
  | _ => []

/-- The receiver is one thread and each sender another. -/
structure Shows (l : List (WakerEvent W)) (s : PriorityChan I P W) (v : Wakers (Option ℕ)) :
    Prop where
  state : v.cell.state = s.waker.state
  cell : Names (registers l) v.cell.waker s.waker.waker
  senders : ∀ t, (s.senders.pc t).Shows (registers l) (v.pc (some t))
  recv : s.recv.Shows (registers l) (v.pc none)
  calls : v.calls = (registers l).length
  woken : (v.woken + v.wokenByRef).map ((registers l)[·]?) = (wakes l).map some

variable {l l' : List (WakerEvent W)} {s s' : PriorityChan I P W} {v v' : Wakers (Option ℕ)}

lemma Shows.sender {t : ℕ} {pc : SenderPc I P W} {c : Pc} (hs : Shows l s v)
    (hpc : s'.senders.pc = Function.update s.senders.pc t pc) (hrecv : s'.recv = s.recv)
    (hc : v'.pc = Function.update v.pc (some t) c) (hshows : pc.Shows (registers l) c)
    (hstate : v'.cell.state = s'.waker.state)
    (hcell : Names (registers l) v'.cell.waker s'.waker.waker)
    (hcalls : v'.calls = v.calls) (hnone : registers l' = [])
    (hwoken : (v'.woken + v'.wokenByRef).map ((registers l)[·]?) =
      (v.woken + v.wokenByRef).map ((registers l)[·]?) + (wakes l').map some) :
    Shows (l ++ l') s' v' := by
  have hreg : registers (l ++ l') = registers l := by
    rw [registers_append, hnone, List.append_nil]
  refine ⟨hstate, hreg ▸ hcell, fun u => ?_, ?_, ?_, ?_⟩
  · rw [hreg, hpc, hc]
    by_cases hu : u = t
    · subst hu
      simpa using hshows
    · simpa [hu] using hs.senders u
  · rw [hreg, hrecv, hc, Function.update_of_ne (by simp)]
    exact hs.recv
  · rw [hreg, hcalls, hs.calls]
  · rw [hreg, hwoken, hs.woken, wakes_append, Multiset.map_add]

lemma Shows.receiver {c : Pc} (hs : Shows l s v) (hpc : s'.senders.pc = s.senders.pc)
    (hc : v'.pc = Function.update v.pc none c)
    (hshows : s'.recv.Shows (registers (l ++ l')) c)
    (hstate : v'.cell.state = s'.waker.state)
    (hcell : Names (registers (l ++ l')) v'.cell.waker s'.waker.waker)
    (hcalls : v'.calls = v.calls + (registers l').length)
    (hwoken : (v'.woken + v'.wokenByRef).map ((registers l)[·]?) =
      (v.woken + v.wokenByRef).map ((registers l)[·]?) + (wakes l').map some) :
    Shows (l ++ l') s' v' := by
  refine ⟨hstate, hcell, fun u => ?_, ?_, ?_, ?_⟩
  · rw [hpc, hc, Function.update_of_ne (by simp), registers_append]
    exact (hs.senders u).grow _
  · rwa [hc, Function.update_self]
  · rw [hcalls, hs.calls, registers_append, List.length_append]
  · rw [registers_append]
    refine map_grow ?_ _
    rw [hwoken, hs.woken, wakes_append, Multiset.map_add]

variable [DecidableEq W]

omit [DecidableEq W] in
lemma run_one {a : Waking.Action (Option ℕ)} (h : v.step a = some v') :
    run Wakers.step v [a] = some v' := by
  rw [run_cons, h, Option.bind_some, run_nil]

omit [DecidableEq W] in
lemma run_step {u : Option ℕ} {c : Pc} (panics : Bool) (hc : v.pc u = c)
    (h : v.stepAt u panics c = some v') : run Wakers.step v [.step u panics] = some v' :=
  run_one (by rw [Wakers.step, hc, h])

omit [DecidableEq W] in
lemma Shows.busy (hs : Shows l s v) (hw : s.waker.state ≠ WAITING) :
    v.cell.state ≠ WAITING ∧ (v.cell.state = REGISTERING ∨ v.cell.state = ⟨true, true⟩ ∨
      v.cell.state = WAKING) := by
  have hne : v.cell.state ≠ WAITING := hs.state ▸ hw
  refine ⟨hne, ?_⟩
  rcases Waking.Wakers.state_cases v.cell.state with h | h | h | h
  · exact (hne h).elim
  · exact Or.inr (Or.inr h)
  · exact Or.inl h
  · exact Or.inr (Or.inl h)

lemma shows_sender {t : ℕ} (hs : Shows l s v) (h : s.senderStep t = some s') :
    ∃ bs v', run Wakers.step v bs = some v' ∧ Shows (l ++ events s (.sender t)) s' v' := by
  have hv := hs.senders t
  cases hpc : s.senders.pc t with
  | idle => simp [senderStep, hpc] at h
  | checked i p =>
    rw [hpc] at hv
    have hidle : v.pc (some t) = .idle := hv
    simp only [senderStep, hpc] at h
    simp only [events, hpc]
    split at h <;> obtain rfl := Option.some.inj h
    · refine ⟨_, _, run_one (a := .wake (some t)) (if_pos hidle), ?_⟩
      exact hs.sender rfl rfl rfl rfl hs.state hs.cell rfl rfl (by simp)
    · refine ⟨[], v, rfl, hs.sender rfl rfl (c := .idle) ?_ rfl hs.state hs.cell rfl rfl (by simp)⟩
      rw [← hidle, Function.update_eq_self]
  | missing i p =>
    rw [hpc] at hv
    have hidle : v.pc (some t) = .idle := hv
    simp only [senderStep, hpc] at h
    simp only [events, hpc]
    split_ifs at h
    obtain rfl := Option.some.inj h
    refine ⟨_, _, run_one (a := .wake (some t)) (if_pos hidle), ?_⟩
    exact hs.sender rfl rfl rfl rfl hs.state hs.cell rfl rfl (by simp)
  | dropping =>
    rw [hpc] at hv
    have hidle : v.pc (some t) = .idle := hv
    simp only [senderStep, hpc, Option.some.injEq] at h
    subst h
    simp only [events, hpc]
    refine ⟨[], v, rfl, hs.sender rfl rfl (c := .idle) ?_ rfl hs.state hs.cell rfl rfl (by simp)⟩
    rw [← hidle, Function.update_eq_self]
  | pushed =>
    rw [hpc] at hv
    have hwake : v.pc (some t) = .wake := hv
    simp only [senderStep, hpc] at h
    simp only [events, hpc]
    split_ifs at h with hw <;> obtain rfl := Option.some.inj h
    · refine ⟨_, _, run_step false hwake (if_pos (hs.state.trans hw)), ?_⟩
      exact hs.sender rfl rfl rfl rfl
        (by simp [AtomicWaker.fetchOrWaking, hs.state]) hs.cell rfl rfl (by simp)
    · obtain ⟨hne, hor⟩ := hs.busy hw
      refine ⟨_, _, run_step false hwake ((if_neg hne).trans (if_pos hor)), ?_⟩
      exact hs.sender rfl rfl rfl rfl
        (by simp [AtomicWaker.fetchOrWaking, hs.state]) hs.cell rfl rfl (by simp)
  | taking =>
    rw [hpc] at hv
    have htaking : v.pc (some t) = .taking := hv
    simp only [senderStep, hpc, Option.some.injEq] at h
    subst h
    simp only [events, hpc]
    refine ⟨_, _, run_step false htaking rfl, ?_⟩
    exact hs.sender rfl rfl rfl ⟨_, rfl, hs.cell⟩ hs.state names_none rfl rfl (by simp)
  | releasing w =>
    rw [hpc] at hv
    obtain ⟨n, hn, hname⟩ := hv
    simp only [senderStep, hpc, Option.some.injEq] at h
    subst h
    simp only [events, hpc]
    refine ⟨_, _, run_step false hn rfl, ?_⟩
    exact hs.sender rfl rfl rfl ⟨n, rfl, hname⟩
      (by simp [AtomicWaker.fetchAndNotWaking, hs.state]) hs.cell rfl rfl (by simp)
  | waking w =>
    rw [hpc] at hv
    obtain ⟨n, hn, hname⟩ := hv
    simp only [senderStep, hpc, wake_eq, Option.some.injEq] at h
    subst h
    simp only [events, hpc]
    refine ⟨_, _, run_step false hn rfl, ?_⟩
    refine hs.sender rfl rfl rfl rfl hs.state hs.cell rfl (registers_wakes w) ?_
    simp only [Wakers.goto, Multiset.map_add, hname.toList, wakes_wakes]
    exact add_right_comm ..

omit [DecidableEq W] in
lemma Shows.outside (hs : Shows l s v) (hpc : s'.senders.pc = s.senders.pc)
    (hwaker : s'.waker = s.waker) (hv : v.pc none = .idle)
    (hrecv : s'.recv.Shows (registers l) .idle) :
    ∃ bs v', run Wakers.step v bs = some v' ∧ Shows (l ++ []) s' v' := by
  refine ⟨[], v, rfl, ?_⟩
  rw [List.append_nil]
  exact ⟨hwaker ▸ hs.state, hwaker ▸ hs.cell, hpc ▸ hs.senders, hv ▸ hrecv, hs.calls, hs.woken⟩

omit [DecidableEq W] in
lemma run_put {u : Option ℕ} {n : ℕ} (h : v.pc u = .into n) :
    run Wakers.step v (List.replicate 3 (.step u false)) = some ({ v with
      cell := { v.cell with waker := some n }, stored := v.stored ++ [n] }.goto u
        (.publish v.cell.waker false)) := by
  simp [List.replicate, Wakers.step, Wakers.stepAt, h, Wakers.goto, AtomicWaker.take]

omit [DecidableEq W] in
lemma run_publish {u : Option ℕ} {old : Option ℕ} {panic : Bool} (h : v.pc u = .publish old panic)
    (hst : v.cell.state = REGISTERING) :
    run Wakers.step v (List.replicate 2 (.step u false)) = some ({ v with
      cell := v.cell.compareExchange REGISTERING WAITING, dropped := v.dropped + old.toList }.goto u
        .idle) := by
  simp [List.replicate, Wakers.step, Wakers.stepAt, h, hst, Wakers.goto]

lemma shows_recv {owner : Option (Option ℕ)} {w : W} {b : Bool} {pc : PollPc P W}
    (hs : Shows l s v) (hl : v.LockOk owner) (hr : s.recv = .polling w pc) :
    ∃ bs v', run Wakers.step v bs = some v' ∧
      Shows (l ++ events s (.recv b)) (s.pollStep w b pc) v' := by
  have hv := hs.recv
  rw [hr] at hv
  cases pc with
  | lock second =>
    simp only [events, hr]
    exact hs.outside rfl rfl hv rfl
  | scan second rest =>
    simp only [events, hr]
    cases rest with
    | nil => exact hs.outside rfl rfl hv rfl
    | cons p ps =>
      simp only [pollStep]
      split <;> exact hs.outside rfl rfl hv rfl
  | load second =>
    have hidle : v.pc none = .idle := hv
    simp only [events, hr, pollStep]
    cases s.endFlag with
    | true => exact hs.outside rfl rfl hidle rfl
    | false =>
      cases second with
      | true => exact hs.outside rfl rfl hidle rfl
      | false =>
        refine ⟨_, _, run_one (a := .register none) (if_pos hidle), ?_⟩
        refine hs.receiver rfl rfl ⟨v.calls, rfl, by simp [hs.calls]⟩ hs.state ?_ rfl (by simp)
        rw [registers_append]
        exact hs.cell.grow _
  | register =>
    obtain ⟨n, hn, hw⟩ := hv
    simp only [events, hr, pollStep]
    split_ifs with hwaiting hwaking
    · refine ⟨_, _, run_step false hn (if_pos (hs.state.trans hwaiting)), ?_⟩
      refine hs.receiver rfl rfl ⟨n, rfl, by simpa using hw⟩ ?_ ?_ rfl (by simp)
      · simp [AtomicWaker.compareExchange, hs.state, hwaiting]
      · simpa [AtomicWaker.compareExchange, hs.state, hwaiting] using hs.cell
    · obtain ⟨hne, -⟩ := hs.busy hwaiting
      refine ⟨_, _, run_step false hn ((if_neg hne).trans
        (if_pos (hs.state.trans hwaking))), ?_⟩
      exact hs.receiver rfl rfl ⟨n, rfl, by simpa using hw⟩ hs.state (by simpa using hs.cell) rfl
        (by simp)
    · obtain ⟨hne, hor⟩ := hs.busy hwaiting
      have hnot : v.cell.state ≠ WAKING := hs.state ▸ hwaking
      have hrefused : v.cell.state = REGISTERING ∨ v.cell.state = ⟨true, true⟩ :=
        hor.imp_right fun h => h.resolve_right hnot
      refine ⟨_, _, run_step false hn ((if_neg hne).trans
        ((if_neg hnot).trans (if_pos hrefused))), ?_⟩
      exact hs.receiver rfl rfl rfl hs.state (by simpa using hs.cell) rfl (by simp)
  | store =>
    obtain ⟨n, hn, hw⟩ := hv
    simp only [events, hr, pollStep]
    cases b with
    | true =>
      refine ⟨_, _, run_step true hn rfl, ?_⟩
      exact hs.receiver rfl rfl ⟨none, rfl, names_none⟩ hs.state (by simpa using hs.cell) rfl
        (by simp)
    | false =>
      refine ⟨_, _, run_put hn, ?_⟩
      refine hs.receiver rfl rfl ⟨_, rfl, by simpa using hs.cell⟩ hs.state ?_ rfl (by simp)
      simpa using names_some hw
  | publish old panic =>
    obtain ⟨o, ho, hold⟩ := hv
    simp only [events, hr, pollStep]
    split_ifs with hst hpanic
    · have hst' : v.cell.state = REGISTERING := hs.state.trans hst
      refine ⟨_, _, run_publish ho hst', ?_⟩
      refine hs.receiver rfl rfl rfl ?_ ?_ rfl (by simp)
      · simp [AtomicWaker.compareExchange, hst, hst']
      · simpa [AtomicWaker.compareExchange, hst, hst'] using hs.cell
    · have hst' : v.cell.state = REGISTERING := hs.state.trans hst
      refine ⟨_, _, run_publish ho hst', ?_⟩
      refine hs.receiver rfl rfl rfl ?_ ?_ rfl (by simp)
      · simp [AtomicWaker.compareExchange, hst, hst']
      · simpa [AtomicWaker.compareExchange, hst, hst'] using hs.cell
    · -- the registering bit is still set, so a sender has added the other one
      have hne : v.cell.state ≠ REGISTERING := hs.state ▸ hst
      have hboth : v.cell.state = ⟨true, true⟩ := by
        have hk := hl.knows none
        rw [ho] at hk
        have hreg := hk.1
        rcases Wakers.state_cases v.cell.state with h | h | h | h <;> simp_all [WAITING, WAKING]
      refine ⟨_, _, run_step false ho ((if_neg hne).trans (if_pos hboth)), ?_⟩
      exact hs.receiver rfl rfl ⟨o, rfl, by simpa using hold⟩ hs.state (by simpa using hs.cell) rfl
        (by simp)
  | reclaim old panic =>
    obtain ⟨o, ho, hold⟩ := hv
    simp only [events, hr, pollStep]
    refine ⟨_, _, run_step false ho rfl, ?_⟩
    exact hs.receiver rfl rfl ⟨o, _, rfl, by simpa using hold, by simpa using hs.cell⟩ hs.state
      names_none rfl (by simp)
  | swap old new panic =>
    obtain ⟨o, n, ho, hold, hnew⟩ := hv
    simp only [events, hr, pollStep]
    refine ⟨_, _, run_step false ho rfl, ?_⟩
    refine hs.receiver rfl rfl ?_ rfl (by simpa using hs.cell) rfl (by simp)
    cases panic with
    | true => exact ⟨n, none, rfl, by simpa using hnew, names_none⟩
    | false => exact ⟨o, n, rfl, by simpa using hold, by simpa using hnew⟩
  | wakeOld old new panic =>
    obtain ⟨o, n, ho, hold, hnew⟩ := hv
    simp only [events, hr, pollStep, wake_eq]
    refine ⟨_, _, run_step false ho rfl, ?_⟩
    refine hs.receiver rfl rfl ⟨n, rfl, by simpa using hnew⟩ hs.state (by simpa using hs.cell) ?_ ?_
    · simp
    · simp only [Wakers.goto, Multiset.map_add, hold.toList, wakes_wakes]
      exact add_right_comm ..
  | wakeNew new panic =>
    obtain ⟨n, hn, hnew⟩ := hv
    simp only [events, hr, pollStep, wake_eq]
    have hk := hl.knows none
    rw [hn] at hk
    cases n with
    | none =>
      obtain rfl := hnew.eq_none
      refine ⟨_, _, run_step false hn rfl, ?_⟩
      cases panic <;>
        exact hs.receiver rfl rfl rfl hs.state (by simpa using hs.cell) rfl (by simp)
    | some k =>
      have hpanic : panic = false := by
        cases panic with
        | false => rfl
        | true => cases hk rfl
      subst hpanic
      refine ⟨_, _, run_step false hn rfl, ?_⟩
      refine hs.receiver rfl rfl rfl hs.state (by simpa using hs.cell) (by simp) ?_
      have hone := hnew.toList
      simp only [Option.toList_some, Multiset.coe_singleton] at hone
      simp only [Wakers.goto, Multiset.map_add, hone, wakes_wakes]
      exact add_right_comm ..
  | wakeSelf =>
    obtain ⟨n, hn, hw⟩ := hv
    simp only [events, hr, pollStep, wake_eq]
    refine ⟨_, _, run_step false hn rfl, ?_⟩
    refine hs.receiver rfl rfl rfl hs.state (by simpa using hs.cell) rfl ?_
    simp [Wakers.goto, hw, add_assoc]

lemma shows_step {owner : Option (Option ℕ)} {a : Action I P W} (hs : Shows l s v)
    (hl : v.LockOk owner) (h : s.step a = some s') :
    ∃ bs v', run Wakers.step v bs = some v' ∧ Shows (l ++ events s a) s' v' := by
  cases step_moves h with
  | handle senders ht hp hr hpc =>
    have hnone : events s a = [] := by
      cases a with
      | sender t => exact (ht t rfl).elim
      | recv b => exact (hr b rfl).elim
      | _ => rfl
    refine ⟨[], v, rfl, ?_⟩
    rw [hnone, List.append_nil]
    refine ⟨hs.state, hs.cell, fun t => ?_, hs.recv, hs.calls, hs.woken⟩
    rcases hpc t with he | ⟨hout, hout'⟩
    · exact he ▸ hs.senders t
    · exact (SenderPc.shows_of_outside hout').mpr
        ((SenderPc.shows_of_outside hout).mp (hs.senders t))
  | sender h => exact shows_sender hs h
  | poll hr =>
    have hv := hs.recv
    rw [hr] at hv
    exact hs.outside rfl rfl hv rfl
  | recv hr => exact shows_recv hs hl hr

/-- Every run of the channel does to its waker what a run of `AtomicWaker` by itself does, with the
receiver as the one thread that registers: the same bits and the same waker in the cell, each thread
at the same place of its call, the same wakers registered in the same order and the same wakers
woken. So none of the assertions of `AtomicWaker` fails, and no two threads are in its cell. -/
theorem refines_atomicWaker (as : List (Action I P W)) (s : PriorityChan I P W)
    (h : run step new as = some s) :
    ∃ bs v, run Wakers.step Wakers.new bs = some v ∧ Shows (trace step events new as) s v ∧
      (∀ u, v.pc u ≠ .failed) ∧
      ∀ u u', (v.pc u).accesses = true → (v.pc u').owns = true → u = u' := by
  have hnew : Shows [] (new : PriorityChan I P W) Wakers.new :=
    ⟨rfl, rfl, fun _ => rfl, rfl, rfl, rfl⟩
  obtain ⟨bs, v, hbs, ⟨hv, owner, hl⟩⟩ := run_simulated
    (R := fun l s v => Shows l s v ∧ ∃ owner, Wakers.LockOk v owner)
    (fun l s v a s' hR hstep => by
      obtain ⟨hs, owner, hl⟩ := hR
      obtain ⟨bs, v', hbs, hv'⟩ := shows_step hs hl hstep
      exact ⟨bs, v', hbs, hv', run_invariant (I := fun v => ∃ owner, Wakers.LockOk v owner)
        (fun _ _ _ hl h => hl.elim fun _ hl => Wakers.lockOk_step hl h) ⟨owner, hl⟩ hbs⟩)
    ⟨hnew, none, Wakers.lockOk_new⟩ h
  refine ⟨bs, v, hbs, hv, fun u hu => ?_, fun u u' hu => hl.exclusive (Pc.accesses_owns hu)⟩
  have hk := hl.knows u
  rwa [hu] at hk

def registeredThenWoken : List (Action ℕ ℕ Unit) :=
  .poll () :: List.replicate 6 (.recv false) ++ .send 0 7 3 :: List.replicate 6 (.sender 0)

theorem refines_atomicWaker_registeredThenWoken :
    ∃ s, run step new registeredThenWoken = some s ∧
      trace step events new registeredThenWoken = [.registers (), .wakes ()] ∧
      ∃ bs v, run Wakers.step Wakers.new bs = some v ∧
        Shows (trace step events new registeredThenWoken) s v ∧ (∀ u, v.pc u ≠ .failed) ∧
        ∀ u u', (v.pc u).accesses = true → (v.pc u').owns = true → u = u' :=
  ⟨_, rfl, rfl, refines_atomicWaker registeredThenWoken _
    (show run step new registeredThenWoken = some _ from rfl)⟩

end PriorityChan

end PaQueueAndChan.Priority
