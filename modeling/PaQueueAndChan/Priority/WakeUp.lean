import PaQueueAndChan.Priority.EndOfStream

/-! Who owes the receiver a wake-up. A sender that finds the waking bit set gives its own call up;
the invariant names the thread that delivers the wake-up in its place. -/

namespace PaQueueAndChan.Priority

open Library

variable {I P W : Type*}

def SenderPc.inSection : SenderPc I P W → Bool
  | .taking | .releasing _ => true
  | _ => false

def SenderPc.Carries (w : W) (c : SenderPc I P W) : Prop :=
  c = .releasing (some w) ∨ c = .waking (some w)

def SenderPc.Owes (w : W) (c : SenderPc I P W) : Prop :=
  c = .pushed ∨ c = .taking ∨ c.Carries w

def Recv.registering : Recv I P W → Bool
  | .polling _ .store | .polling _ (.publish _ _) | .polling _ (.reclaim _ _)
  | .polling _ (.swap _ _ _) => true
  | _ => false

-- the call of `register_by_ref` with `w` is over and the poll has not found anything since
def Recv.Registered (w : W) : Recv I P W → Prop
  | .polling v (.lock true) | .polling v (.scan true _) | .polling v (.load true)
  | .idle (some (v, .pending)) => v = w
  | _ => False

def Recv.Looked (w : W) : Recv I P W → Prop
  | .polling v (.scan true _) | .polling v (.load true) | .idle (some (v, .pending)) => v = w
  | _ => False

-- where the poll's own waker is while it is being registered
def Recv.Fresh (cell : Option W) : Recv I P W → Prop
  | .polling v (.publish _ false) | .polling v (.reclaim _ false) => cell = some v
  | .polling v (.swap _ new false) | .polling v (.wakeOld _ new false)
  | .polling v (.wakeNew new false) => new = some v
  | _ => True

lemma Recv.Looked.registered {w : W} {r : Recv I P W} (h : r.Looked w) : r.Registered w := by
  unfold Recv.Looked at h
  unfold Recv.Registered
  split at h <;> simp_all

lemma Recv.Registered.waker {w : W} {r : Recv I P W} (h : r.Registered w) : r.waker = some w := by
  unfold Recv.Registered at h
  split at h <;> simp_all [Recv.waker]

lemma Recv.Registered.registering {w : W} {r : Recv I P W} (h : r.Registered w) :
    r.registering = false := by
  unfold Recv.Registered at h
  split at h <;> simp_all [Recv.registering]

lemma inSection_update {pc : ℕ → SenderPc I P W} {t : ℕ} {c : SenderPc I P W}
    (h : c.inSection = (pc t).inSection) (u : ℕ) :
    (Function.update pc t c u).inSection = (pc u).inSection := by
  by_cases hu : u = t
  · subst hu
    simp [h]
  · simp [hu]

namespace PriorityChan

variable [LinearOrder P]

structure WakeOk (s : PriorityChan I P W) : Prop where
  bit : s.waker.state.registering = s.recv.registering
  section_waking : ∀ t, (s.senders.pc t).inSection = true → s.waker.state = WAKING
  waking_section : s.waker.state = WAKING → ∃ t, (s.senders.pc t).inSection = true
  alone : ∀ t t', (s.senders.pc t).inSection = true → (s.senders.pc t').inSection = true → t = t'
  emptied : ∀ t o, s.senders.pc t = .releasing o → s.waker.waker = none
  fresh : s.recv.Fresh s.waker.waker
  covered : ∀ w, s.recv.Registered w →
    s.wokenSincePoll = true ∨ s.waker.waker = some w ∨ ∃ t, (s.senders.pc t).Carries w
  owed : ∀ w, s.recv.Looked w → (∃ p, s.passed p = true ∧ s.queue.queueAt p ≠ []) →
    s.wokenSincePoll = true ∨ ∃ t, (s.senders.pc t).Owes w

lemma wakeOk_new : WakeOk (new : PriorityChan I P W) := by
  constructor <;> simp [new, Handles.first, AtomicWaker.new, WAITING, WAKING, Recv.registering,
    Recv.Fresh, Recv.Registered, Recv.Looked, SenderPc.inSection]

variable {s s' : PriorityChan I P W} {a : Action I P W}

lemma WakeOk.handle (hs : WakeOk s) {senders : Handles (SenderPc I P W)}
    (hpc : ∀ t, senders.pc t = s.senders.pc t ∨
      (s.senders.pc t).afterPush = false ∧ (senders.pc t).afterPush = false) :
    WakeOk { s with senders := senders } := by
  have hsame : ∀ (t : ℕ) (Q : SenderPc I P W → Prop), (∀ c, Q c → c.afterPush = true) →
      (Q (senders.pc t) ↔ Q (s.senders.pc t)) := by
    intro t Q hQ
    rcases hpc t with h | ⟨h, h'⟩
    · rw [h]
    · constructor
      · intro hq
        simp [hQ _ hq] at h'
      · intro hq
        simp [hQ _ hq] at h
  have hin : ∀ t, (senders.pc t).inSection = true ↔ (s.senders.pc t).inSection = true := fun t =>
    hsame t (fun c => c.inSection = true) (by
      intro c
      cases c <;> simp [SenderPc.inSection, SenderPc.afterPush])
  have hrel : ∀ t o, senders.pc t = .releasing o ↔ s.senders.pc t = .releasing o := fun t o =>
    hsame t (fun c => c = .releasing o) (by rintro _ rfl; rfl)
  have hcar : ∀ t w, (senders.pc t).Carries w ↔ (s.senders.pc t).Carries w := fun t w =>
    hsame t (SenderPc.Carries w) (by rintro c (rfl | rfl) <;> rfl)
  have howe : ∀ t w, (senders.pc t).Owes w ↔ (s.senders.pc t).Owes w := fun t w =>
    hsame t (SenderPc.Owes w) (by rintro c (rfl | rfl | rfl | rfl) <;> rfl)
  obtain ⟨h1, h2, h3, h4, h5, h6, h7, h8⟩ := hs
  constructor <;> simp only [hin, hrel, hcar, howe] <;> assumption

lemma WakeOk.not_waking_of_registering (hs : WakeOk s) (h : s.recv.registering = true) (t : ℕ) :
    (s.senders.pc t).inSection = false := by
  by_contra hin
  have hst := hs.section_waking t (by simpa using hin)
  have hbit := hs.bit
  rw [hst, h] at hbit
  cases hbit

lemma WakeOk.outside (hs : WakeOk s) {t : ℕ} {c : SenderPc I P W} {q : PriorityQueue I P}
    {f : Bool} {pushed : Multiset I} {b : Bool}
    (hold : (s.senders.pc t).afterPush = false) (hc : c.inSection = false)
    (hcar : ∀ w, ¬ c.Carries w)
    (howed : ∀ p, q.queueAt p ≠ [] → s.queue.queueAt p ≠ [] ∨ c = .pushed) :
    WakeOk ({ s with queue := q, endFlag := f, pushed := pushed, behind := b }.setPc t c) := by
  have hne : ∀ u, (s.senders.pc u).afterPush = true → u ≠ t := by
    rintro u hu rfl
    simp [hold] at hu
  have hout : (s.senders.pc t).inSection = false := by
    cases hpc : s.senders.pc t <;> simp_all [SenderPc.inSection, SenderPc.afterPush]
  have hin := inSection_update (hc.trans hout.symm)
  refine ⟨hs.bit, fun u => ?_, ?_, fun u v => ?_, fun u o => ?_, hs.fresh, fun w hw => ?_,
    fun w hw hp => ?_⟩
  · simpa [hin] using hs.section_waking u
  · simpa [hin] using hs.waking_section
  · simpa [hin] using hs.alone u v
  · by_cases hu : u = t
    · subst hu
      intro he
      simp only [setPc_senders, Handles.set_pc, Function.update_self] at he
      simp [he, SenderPc.inSection] at hc
    · simpa [hu] using hs.emptied u o
  · rcases hs.covered w hw with h | h | ⟨u, hu⟩
    · exact Or.inl h
    · exact Or.inr (Or.inl h)
    · have hut := hne u (by rcases hu with h | h <;> simp [h, SenderPc.afterPush])
      exact Or.inr (Or.inr ⟨u, by simpa [hut] using hu⟩)
  · obtain ⟨p, hpass, hp⟩ := hp
    rcases howed p hp with hp | rfl
    · rcases hs.owed w hw ⟨p, hpass, hp⟩ with h | ⟨u, hu⟩
      · exact Or.inl h
      · have hut := hne u (by
          rcases hu with h | h | h | h <;> simp [h, SenderPc.afterPush])
        exact Or.inr ⟨u, by simpa [hut] using hu⟩
    · exact Or.inr ⟨t, by simp [SenderPc.Owes]⟩

lemma WakeOk.covered_update (hs : WakeOk s) {t : ℕ} {c : SenderPc I P W} {w : W}
    (hr : s.recv.Registered w) (hkeep : (s.senders.pc t).Carries w → c.Carries w) :
    s.wokenSincePoll = true ∨ s.waker.waker = some w ∨
      ∃ u, (Function.update s.senders.pc t c u).Carries w := by
  rcases hs.covered w hr with h | h | ⟨u, hu⟩
  · exact Or.inl h
  · exact Or.inr (Or.inl h)
  · refine Or.inr (Or.inr ⟨u, ?_⟩)
    by_cases hut : u = t
    · subst hut
      simpa using hkeep hu
    · simpa [hut] using hu

lemma WakeOk.owed_update (hs : WakeOk s) {t : ℕ} {c : SenderPc I P W} {w : W}
    (hl : s.recv.Looked w) (hp : ∃ p, s.passed p = true ∧ s.queue.queueAt p ≠ [])
    (hkeep : (s.senders.pc t).Owes w → c.Owes w) :
    s.wokenSincePoll = true ∨ ∃ u, (Function.update s.senders.pc t c u).Owes w := by
  rcases hs.owed w hl hp with h | ⟨u, hu⟩
  · exact Or.inl h
  · refine Or.inr ⟨u, ?_⟩
    by_cases hut : u = t
    · subst hut
      simpa using hkeep hu
    · simpa [hut] using hu

lemma WakeOk.enter (hs : WakeOk s) {t : ℕ} (hpc : s.senders.pc t = .pushed)
    (hst : s.waker.state = WAITING) :
    WakeOk ({ s with waker := s.waker.fetchOrWaking }.setPc t .taking) := by
  have hnone : ∀ u, (s.senders.pc u).inSection = false := by
    intro u
    by_contra h
    have := hs.section_waking u (by simpa using h)
    simp [hst, WAITING, WAKING] at this
  have hin : ∀ u, (Function.update s.senders.pc t .taking u).inSection = true → u = t := by
    intro u hu
    by_contra hut
    simp [hut, hnone u] at hu
  refine ⟨hs.bit, fun u _ => ?_, fun _ => ⟨t, by simp [SenderPc.inSection]⟩, fun u v hu hv => ?_,
    fun u o hu => ?_, hs.fresh, fun w hw => ?_, fun w _ _ => Or.inr ⟨t, by simp [SenderPc.Owes]⟩⟩
  · simp [AtomicWaker.fetchOrWaking, hst, WAITING, WAKING]
  · exact (hin u hu).trans (hin v hv).symm
  · have hut := hin u (by
      rw [setPc_senders, Handles.set_pc] at hu
      simp [hu, SenderPc.inSection])
    subst hut
    simp at hu
  · exact hs.covered_update hw (by simp [hpc, SenderPc.Carries])

-- `fetch_or` found a bit set: the sender leaves its wake-up to the thread that set it
lemma WakeOk.giveUp (hs : WakeOk s) {t : ℕ} (hpc : s.senders.pc t = .pushed)
    (hst : s.waker.state ≠ WAITING) :
    WakeOk ({ s with waker := s.waker.fetchOrWaking }.setPc t .idle) := by
  have hin : ∀ u, (Function.update s.senders.pc t .idle u).inSection =
      (s.senders.pc u).inSection := inSection_update (by rw [hpc]; rfl)
  have hwaking : s.waker.fetchOrWaking.state = WAKING → s.waker.state = WAKING := by
    rcases s with ⟨q, f, ⟨⟨r, k⟩, c⟩⟩
    cases r <;> cases k <;> simp_all [AtomicWaker.fetchOrWaking, WAITING, WAKING]
  have hkept : s.waker.state = WAKING → s.waker.fetchOrWaking.state = WAKING := by
    intro h
    simp [AtomicWaker.fetchOrWaking, h, WAKING]
  refine ⟨hs.bit, fun u hu => ?_, fun h => ?_, fun u v hu hv => ?_, fun u o hu => ?_, hs.fresh,
    fun w hw => ?_, fun w hw hp => ?_⟩
  · exact hkept (hs.section_waking u (by simpa only [setPc_senders, Handles.set_pc, hin] using hu))
  · obtain ⟨u, hu⟩ := hs.waking_section (hwaking h)
    exact ⟨u, by simpa only [setPc_senders, Handles.set_pc, hin] using hu⟩
  · simp only [setPc_senders, Handles.set_pc, hin] at hu hv
    exact hs.alone u v hu hv
  · by_cases hut : u = t
    · subst hut
      simp at hu
    · exact hs.emptied u o (by simpa [hut] using hu)
  · exact hs.covered_update hw (by simp [hpc, SenderPc.Carries])
  · -- the receiver is not registering, so some sender is in the section, before or after its take
    have hreg : s.waker.state.registering = false := hs.bit.trans hw.registered.registering
    have hbusy : s.waker.state = WAKING := by
      rcases s with ⟨q, f, ⟨⟨r, k⟩, c⟩⟩
      cases r <;> cases k <;> simp_all [WAITING, WAKING]
    obtain ⟨u, hu⟩ := hs.waking_section hbusy
    have hut : u ≠ t := by
      rintro rfl
      simp [hpc, SenderPc.inSection] at hu
    cases hpu : s.senders.pc u with
    | taking => exact Or.inr ⟨u, by simp [hut, hpu, SenderPc.Owes]⟩
    | releasing o =>
      rcases hs.covered w hw.registered with h | h | ⟨v, hv⟩
      · exact Or.inl h
      · rw [hs.emptied u o hpu] at h
        cases h
      · have hvt : v ≠ t := by
          rintro rfl
          simp [hpc, SenderPc.Carries] at hv
        exact Or.inr ⟨v, Or.inr (Or.inr (by simpa [hvt] using hv))⟩
    | _ => simp [hpu, SenderPc.inSection] at hu

lemma WakeOk.take (hs : WakeOk s) {t : ℕ} (hpc : s.senders.pc t = .taking) :
    WakeOk ({ s with waker := s.waker.take }.setPc t (.releasing s.waker.waker)) := by
  have ht : (s.senders.pc t).inSection = true := by simp [hpc, SenderPc.inSection]
  have hin : ∀ u, (Function.update s.senders.pc t (.releasing s.waker.waker) u).inSection = true →
      u = t := by
    intro u hu
    by_contra hut
    exact hut (hs.alone u t (by simpa [hut] using hu) ht)
  have hst : s.waker.state = WAKING := hs.section_waking t ht
  have hreg : s.recv.registering = false := by
    rw [← hs.bit, hst]
    rfl
  refine ⟨hs.bit, fun u _ => hst, fun _ => ⟨t, by simp [SenderPc.inSection]⟩, fun u v hu hv => ?_,
    fun u o hu => rfl, ?_, fun w hw => ?_, fun w hw hp => ?_⟩
  · exact (hin u hu).trans (hin v hv).symm
  · have hf := hs.fresh
    change s.recv.Fresh none
    unfold Recv.Fresh at hf ⊢
    split <;> simp_all [Recv.registering]
  · by_cases hcell : s.waker.waker = some w
    · exact Or.inr (Or.inr ⟨t, by simp [SenderPc.Carries, hcell]⟩)
    · rcases hs.covered_update (t := t) (c := .releasing s.waker.waker) hw
        (by simp [hpc, SenderPc.Carries]) with h | h | h
      · exact Or.inl h
      · exact (hcell h).elim
      · exact Or.inr (Or.inr h)
  · by_cases hcell : s.waker.waker = some w
    · exact Or.inr ⟨t, by simp [SenderPc.Owes, SenderPc.Carries, hcell]⟩
    · rcases hs.covered_update (t := t) (c := .releasing s.waker.waker) hw.registered
        (by simp [hpc, SenderPc.Carries]) with h | h | ⟨u, hu⟩
      · exact Or.inl h
      · exact (hcell h).elim
      · exact Or.inr ⟨u, Or.inr (Or.inr hu)⟩

lemma WakeOk.release (hs : WakeOk s) {t : ℕ} {o : Option W} (hpc : s.senders.pc t = .releasing o) :
    WakeOk ({ s with waker := s.waker.fetchAndNotWaking }.setPc t (.waking o)) := by
  have ht : (s.senders.pc t).inSection = true := by simp [hpc, SenderPc.inSection]
  have hout : ∀ u, (Function.update s.senders.pc t (.waking o) u).inSection = false := by
    intro u
    by_cases hut : u = t
    · simp [hut, SenderPc.inSection]
    · by_contra hu
      exact hut (hs.alone u t (by simpa [hut] using hu) ht)
  refine ⟨hs.bit, fun u hu => ?_, fun h => ?_, fun u v hu => ?_, fun u o' hu => ?_, hs.fresh,
    fun w hw => ?_, fun w hw hp => ?_⟩
  · simp [hout u] at hu
  · simp [AtomicWaker.fetchAndNotWaking, WAKING] at h
  · simp [hout u] at hu
  · have := hout u
    rw [setPc_senders, Handles.set_pc] at hu
    simp [hu, SenderPc.inSection] at this
  · exact hs.covered_update hw (by rw [hpc]; simp [SenderPc.Carries])
  · exact hs.owed_update hw hp (by rw [hpc]; simp [SenderPc.Owes, SenderPc.Carries])

variable [DecidableEq W]

lemma WakeOk.call (hs : WakeOk s) {t : ℕ} {o : Option W} (hpc : s.senders.pc t = .waking o) :
    WakeOk ((s.wake o).setPc t .idle) := by
  have hin : ∀ u, (Function.update s.senders.pc t .idle u).inSection =
      (s.senders.pc u).inSection := inSection_update (by rw [hpc]; rfl)
  rw [wake_eq]
  refine ⟨hs.bit, fun u hu => ?_, fun h => ?_, fun u v hu hv => ?_, fun u o' hu => ?_, hs.fresh,
    fun w hw => ?_, fun w hw hp => ?_⟩
  · exact hs.section_waking u (by simpa only [setPc_senders, Handles.set_pc, hin] using hu)
  · obtain ⟨u, hu⟩ := hs.waking_section h
    exact ⟨u, by simpa only [setPc_senders, Handles.set_pc, hin] using hu⟩
  · simp only [setPc_senders, Handles.set_pc, hin] at hu hv
    exact hs.alone u v hu hv
  · by_cases hut : u = t
    · subst hut
      simp at hu
    · exact hs.emptied u o' (by simpa [hut] using hu)
  · have hwaker := Recv.Registered.waker (show s.recv.Registered w from hw)
    by_cases ho : o = some w
    · exact Or.inl (by simp [ho, hwaker])
    · rcases hs.covered_update (t := t) (c := .idle) hw
        (by simp [hpc, SenderPc.Carries, ho]) with h | h | h
      · exact Or.inl (by simp [h])
      · exact Or.inr (Or.inl h)
      · exact Or.inr (Or.inr h)
  · have hwaker := Recv.Registered.waker (Recv.Looked.registered (show s.recv.Looked w from hw))
    by_cases ho : o = some w
    · exact Or.inl (by simp [ho, hwaker])
    · rcases hs.owed_update (t := t) (c := .idle) hw hp
        (by simp [hpc, SenderPc.Owes, SenderPc.Carries, ho]) with h | h
      · exact Or.inl (by simp [h])
      · exact Or.inr h

lemma wakeOk_senderStep {t : ℕ} (hs : WakeOk s) (h : s.senderStep t = some s') : WakeOk s' := by
  cases hpc : s.senders.pc t with
  | idle => simp [senderStep, hpc] at h
  | checked i p =>
    simp only [senderStep, hpc] at h
    split at h <;> obtain rfl := Option.some.inj h
    · exact hs.outside (by simp [hpc, SenderPc.afterPush]) rfl (by simp [SenderPc.Carries])
        (fun _ _ => Or.inr rfl)
    · exact hs.outside (by simp [hpc, SenderPc.afterPush]) rfl (by simp [SenderPc.Carries])
        (fun _ => Or.inl)
  | missing i p =>
    simp only [senderStep, hpc] at h
    split_ifs at h
    obtain rfl := Option.some.inj h
    exact hs.outside (by simp [hpc, SenderPc.afterPush]) rfl (by simp [SenderPc.Carries])
      (fun _ _ => Or.inr rfl)
  | dropping =>
    simp only [senderStep, hpc, Option.some.injEq] at h
    subst h
    exact hs.outside (by simp [hpc, SenderPc.afterPush]) rfl (by simp [SenderPc.Carries])
      (fun _ => Or.inl)
  | pushed =>
    simp only [senderStep, hpc] at h
    split_ifs at h with hst <;> obtain rfl := Option.some.inj h
    · exact hs.enter hpc hst
    · exact hs.giveUp hpc hst
  | taking =>
    simp only [senderStep, hpc, Option.some.injEq] at h
    exact h ▸ hs.take hpc
  | releasing o =>
    simp only [senderStep, hpc, Option.some.injEq] at h
    exact h ▸ hs.release hpc
  | waking o =>
    simp only [senderStep, hpc, Option.some.injEq] at h
    exact h ▸ hs.call hpc

omit [DecidableEq W] in
lemma WakeOk.moveRecv (hs : WakeOk s) (hst : s'.waker.state = s.waker.state)
    (hpc : s'.senders.pc = s.senders.pc)
    (hreg : s'.recv.registering = s.recv.registering)
    (hcell : s'.waker.waker = s.waker.waker ∨ s.recv.registering = true)
    (hfresh : s'.recv.Fresh s'.waker.waker)
    (hcov : ∀ w, s'.recv.Registered w →
      s'.wokenSincePoll = true ∨ s'.waker.waker = some w ∨ ∃ t, (s'.senders.pc t).Carries w)
    (howe : ∀ w, s'.recv.Looked w → (∃ p, s'.passed p = true ∧ s'.queue.queueAt p ≠ []) →
      s'.wokenSincePoll = true ∨ ∃ t, (s'.senders.pc t).Owes w) : WakeOk s' := by
  refine ⟨by rw [hst, hs.bit, hreg], ?_, ?_, ?_, fun t o ht => ?_, hfresh, hcov, howe⟩
  · simpa only [hst, hpc] using hs.section_waking
  · simpa only [hst, hpc] using hs.waking_section
  · simpa only [hpc] using hs.alone
  · rw [hpc] at ht
    rcases hcell with h | h
    · rw [h, hs.emptied t o ht]
    · have := hs.not_waking_of_registering h t
      simp [ht, SenderPc.inSection] at this

omit [DecidableEq W] in
-- the poll takes or gives back the registering bit; no sender is in the section then
lemma setBits (hpc : s'.senders.pc = s.senders.pc)
    (hnone : ∀ t, (s.senders.pc t).inSection = false) (hst : s'.waker.state ≠ WAKING)
    (hbit : s'.waker.state.registering = s'.recv.registering)
    (hfresh : s'.recv.Fresh s'.waker.waker)
    (hcov : ∀ w, s'.recv.Registered w → s'.waker.waker = some w)
    (howe : ∀ w, ¬ s'.recv.Looked w) : WakeOk s' := by
  refine ⟨hbit, fun t ht => ?_, fun h => (hst h).elim, fun t t' ht => ?_, fun t o ht => ?_, hfresh,
    fun w hw => Or.inr (Or.inl (hcov w hw)), fun w hw => (howe w hw).elim⟩
  · simp [hpc, hnone t] at ht
  · simp [hpc, hnone t] at ht
  · have := hnone t
    rw [hpc] at ht
    simp [ht, SenderPc.inSection] at this

omit [DecidableEq W] in
lemma WakeOk.unregistered (hs : WakeOk s) (hst : s'.waker.state = s.waker.state)
    (hpc : s'.senders.pc = s.senders.pc)
    (hreg : s'.recv.registering = s.recv.registering)
    (hcell : s'.waker.waker = s.waker.waker ∨ s.recv.registering = true)
    (hfresh : s'.recv.Fresh s'.waker.waker) (hnot : ∀ w, ¬ s'.recv.Registered w) : WakeOk s' := by
  apply hs.moveRecv hst hpc hreg hcell hfresh
  · intro w hw
    exact (hnot w hw).elim
  · intro w hw
    exact (hnot w hw.registered).elim

section poll

variable {w : W} {b second panic : Bool} {old new : Option W} {rest : List P}

-- a priority that is not in the map holds nothing, so nothing is passed over when a scan begins
lemma WakeOk.pollLock (hs : WakeOk s) (hr : s.recv = .polling w (.lock second)) :
    WakeOk (s.pollStep w b (.lock second)) := by
  have hcov := hs.covered
  refine hs.moveRecv rfl rfl (by rw [hr]; rfl) (Or.inl rfl) trivial (fun w' hw' => ?_) ?_
  · exact hcov w' (by cases second <;> simp_all [pollStep, Recv.Registered])
  · rintro w' _ ⟨p, hp, hne⟩
    have hmem : p ∉ s.queue.map.keys := by simpa [pollStep, passed] using hp
    refine (hne ?_).elim
    rw [FinMap.mem_keys, not_exists] at hmem
    cases hg : s.queue.map.get p with
    | none => simp [pollStep, PriorityQueue.queueAt, hg]
    | some l => exact (hmem l hg).elim

lemma WakeOk.pollScan (hs : WakeOk s) (hr : s.recv = .polling w (.scan second rest)) :
    WakeOk (s.pollStep w b (.scan second rest)) := by
  have hcov := hs.covered
  have howe := hs.owed
  cases rest with
  | nil =>
    refine hs.moveRecv rfl rfl (by rw [hr]; rfl) (Or.inl rfl) trivial (fun w' hw' => ?_)
      fun w' hw' hp => ?_
    · exact hcov w' (by cases second <;> simp_all [pollStep, Recv.Registered])
    · exact howe w' (by cases second <;> simp_all [pollStep, Recv.Looked])
        (by simpa [pollStep, hr, passed] using hp)
  | cons p ps =>
    simp only [pollStep]
    split
    · exact hs.unregistered rfl rfl (by rw [hr]; rfl) (Or.inl rfl) trivial
        (by simp [Recv.Registered])
    · rename_i q hq
      obtain ⟨rfl, hempty⟩ := PriorityQueue.popAt_none hq
      refine hs.moveRecv rfl rfl (by rw [hr]; rfl) (Or.inl rfl) trivial (fun w' hw' => ?_) ?_
      · exact hcov w' (by cases second <;> simp_all [Recv.Registered])
      · rintro w' hw' ⟨p', hpass, hne⟩
        have hp' : p' ≠ p := by
          rintro rfl
          exact hne hempty
        exact howe w' (by cases second <;> simp_all [Recv.Looked])
          ⟨p', by simpa [hr, passed, hp'] using hpass, hne⟩

lemma WakeOk.pollLoad (hs : WakeOk s) (hr : s.recv = .polling w (.load second)) :
    WakeOk (s.pollStep w b (.load second)) := by
  simp only [pollStep]
  split_ifs with hf hsec
  · exact hs.unregistered rfl rfl (by rw [hr]; rfl) (Or.inl rfl) trivial (by simp [Recv.Registered])
  · refine hs.moveRecv rfl rfl (by rw [hr]; rfl) (Or.inl rfl) trivial ?_ ?_
    · simpa [hr, hsec, Recv.Registered] using hs.covered
    · simpa [hr, hsec, Recv.Looked, passed] using hs.owed
  · exact hs.unregistered rfl rfl (by rw [hr]; rfl) (Or.inl rfl) trivial (by simp [Recv.Registered])

lemma WakeOk.pollRegister (hs : WakeOk s) (hr : s.recv = .polling w .register) :
    WakeOk (s.pollStep w b .register) := by
  simp only [pollStep]
  split_ifs with hwait hwake
  · have hnone : ∀ t, (s.senders.pc t).inSection = false := by
      intro t
      by_contra hin
      have := hs.section_waking t (by simpa using hin)
      simp [hwait, WAITING, WAKING] at this
    exact setBits rfl hnone
      (by simp [AtomicWaker.compareExchange, hwait, REGISTERING, WAKING])
      (by simp [AtomicWaker.compareExchange, hwait, REGISTERING, Recv.registering]) trivial
      (by simp [Recv.Registered]) (by simp [Recv.Looked])
  · exact hs.unregistered rfl rfl (by rw [hr]; rfl) (Or.inl rfl) trivial (by simp [Recv.Registered])
  · -- no other thread ever holds the registering bit
    have hbit := hs.bit
    rw [hr] at hbit
    rcases s with ⟨q, f, ⟨⟨r, k⟩, c⟩⟩
    cases r <;> cases k <;> simp_all [WAITING, WAKING, Recv.registering]

lemma WakeOk.pollPublish (hs : WakeOk s) (hr : s.recv = .polling w (.publish old panic)) :
    WakeOk (s.pollStep w b (.publish old panic)) := by
  have hfresh := hs.fresh
  have hnone := hs.not_waking_of_registering (by rw [hr]; rfl)
  simp only [pollStep]
  split_ifs with hst hpanic
  · exact setBits rfl hnone (by simp [AtomicWaker.compareExchange, hst, WAITING, WAKING])
      (by simp [AtomicWaker.compareExchange, hst, WAITING, Recv.registering]) trivial
      (by simp [Recv.Registered]) (by simp [Recv.Looked])
  · refine setBits rfl hnone (by simp [AtomicWaker.compareExchange, hst, WAITING, WAKING])
      (by simp [AtomicWaker.compareExchange, hst, WAITING, Recv.registering]) trivial ?_
      (by simp [Recv.Looked])
    rintro w' rfl
    simpa [AtomicWaker.compareExchange, hst, hr, hpanic, Recv.Fresh] using hfresh
  · refine hs.unregistered rfl rfl (by rw [hr]; rfl) (Or.inl rfl) ?_ (by simp [Recv.Registered])
    cases panic <;> simp_all [Recv.Fresh]

-- a sender that set the waking bit meanwhile has taken nothing and left; the poll wakes for it
lemma WakeOk.pollSwap (hs : WakeOk s) (hr : s.recv = .polling w (.swap old new panic)) :
    WakeOk (s.pollStep w b (.swap old new panic)) := by
  have hfresh := hs.fresh
  have hnone := hs.not_waking_of_registering (by rw [hr]; rfl)
  cases panic with
  | false =>
    refine setBits rfl hnone (by simp [pollStep, WAITING, WAKING]) rfl ?_
      (by simp [pollStep, Recv.Registered]) (by simp [pollStep, Recv.Looked])
    simpa [pollStep, hr, Recv.Fresh] using hfresh
  | true =>
    exact setBits rfl hnone (by simp [pollStep, WAITING, WAKING]) rfl trivial
      (by simp [pollStep, Recv.Registered]) (by simp [pollStep, Recv.Looked])

lemma WakeOk.pollWakeNew (hs : WakeOk s) (hr : s.recv = .polling w (.wakeNew new panic)) :
    WakeOk (s.pollStep w b (.wakeNew new panic)) := by
  have hfresh := hs.fresh
  simp only [pollStep, wake_eq]
  split_ifs with hpanic
  · exact hs.unregistered rfl rfl (by rw [hr]; rfl) (Or.inl rfl) trivial (by simp [Recv.Registered])
  · refine hs.moveRecv rfl rfl (by rw [hr]; rfl) (Or.inl rfl) trivial ?_ (by simp [Recv.Looked])
    rintro w' rfl
    have hnew : new = some w := by simpa [hr, hpanic, Recv.Fresh] using hfresh
    exact Or.inl (by simp [hnew, hr, Recv.waker])

lemma wakeOk_pollStep {pc : PollPc P W} (hs : WakeOk s) (hr : s.recv = .polling w pc) :
    WakeOk (s.pollStep w b pc) := by
  have hfresh := hs.fresh
  cases pc with
  | lock second => exact hs.pollLock hr
  | scan second rest => exact hs.pollScan hr
  | load second => exact hs.pollLoad hr
  | register => exact hs.pollRegister hr
  | store =>
    simp only [pollStep]
    split_ifs
    · exact hs.unregistered rfl rfl (by rw [hr]; rfl) (Or.inl rfl) trivial
        (by simp [Recv.Registered])
    · exact hs.unregistered rfl rfl (by rw [hr]; rfl) (Or.inr (by rw [hr]; rfl)) rfl
        (by simp [Recv.Registered])
  | publish old panic => exact hs.pollPublish hr
  | reclaim old panic =>
    refine hs.unregistered rfl rfl (by rw [hr]; rfl) (Or.inr (by rw [hr]; rfl)) ?_
      (by simp [pollStep, Recv.Registered])
    cases panic <;> simp_all [pollStep, Recv.Fresh]
  | swap old new panic => exact hs.pollSwap hr
  | wakeOld old new panic =>
    simp only [pollStep, wake_eq]
    refine hs.unregistered rfl rfl (by rw [hr]; rfl) (Or.inl rfl) ?_ (by simp [Recv.Registered])
    cases panic <;> simp_all [Recv.Fresh]
  | wakeNew new panic => exact hs.pollWakeNew hr
  | wakeSelf =>
    simp only [pollStep, wake_eq]
    refine hs.moveRecv rfl rfl (by rw [hr]; rfl) (Or.inl rfl) trivial ?_ (by simp [Recv.Looked])
    rintro w' rfl
    exact Or.inl (by simp [hr, Recv.waker])

end poll

lemma wakeOk_step (hs : WakeOk s) (h : s.step a = some s') : WakeOk s' := by
  cases step_moves h with
  | handle senders _ _ _ hpc => exact hs.handle hpc
  | sender h => exact wakeOk_senderStep hs h
  | poll hr =>
    refine hs.moveRecv rfl rfl (by rw [hr]; rfl) (Or.inl rfl) trivial (by simp [Recv.Registered])
      (by simp [Recv.Looked])
  | recv hr => exact wakeOk_pollStep hs hr

/-- While an item is stored and the receiver waits, its task has been woken since its last poll
began, or some sender is still between its push and the end of its `wake` call. -/
theorem no_lost_wake_up {as : List (Action I P W)} (h : run step new as = some s) {w : W}
    (hr : s.recv = .idle (some (w, .pending))) (hi : s.queue.stored ≠ 0) :
    s.wokenSincePoll = true ∨ ∃ t, (s.senders.pc t).afterPush = true := by
  have hs : WakeOk s := run_invariant (fun _ _ _ => wakeOk_step) wakeOk_new h
  obtain ⟨p, hp⟩ : ∃ p, s.queue.queueAt p ≠ [] := by
    simpa [PriorityQueue.stored_eq_zero] using hi
  rcases hs.owed w (by simp [hr, Recv.Looked]) ⟨p, by simp [passed, hr], hp⟩ with hw | ⟨t, ht⟩
  · exact Or.inl hw
  · refine Or.inr ⟨t, ?_⟩
    rcases ht with ht | ht | ht | ht <;> rw [ht] <;> rfl

def pushBeforeWake : List (Action ℕ ℕ Unit) :=
  [.poll (), .recv false, .recv false, .recv false, .recv false, .recv false, .recv false,
    .recv false, .recv false, .recv false, .send 0 7 3, .sender 0, .sender 0]

theorem no_lost_wake_up_pushBeforeWake :
    ∃ s, run step new pushBeforeWake = some s ∧ s.recv = .idle (some ((), .pending)) ∧
      s.queue.stored ≠ 0 ∧ (s.wokenSincePoll = true ∨ ∃ t, (s.senders.pc t).afterPush = true) := by
  refine ⟨_, rfl, rfl, ?_, no_lost_wake_up (w := ()) (show run step new pushBeforeWake = _ from rfl)
    rfl ?_⟩ <;> decide

end PriorityChan

end PaQueueAndChan.Priority
