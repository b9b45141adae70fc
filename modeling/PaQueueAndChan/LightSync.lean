import Mathlib
import PaQueueAndChan.Library.Threads
import PaQueueAndChan.Library.Transitions

/-! `lightsync.rs` as a transition system: any number of threads call `wait` and `notify`. A step is
one access to `waiting`, one section of the lock of `wait_thread`, or one call of `park` or
`unpark`. What `current_thread_id` returns is a parameter: the address of a thread local, which a
later thread may have again. -/

namespace PaQueueAndChan.LightSync

open Library

inductive Pc
  | idle
  | testThread                       -- in `wait`, before the first `read()`
  | testId                           -- before the second one
  | write
  | swap                             -- before `waiting.swap(true)`
  | load
  | park
  | panicked                         -- `waiting` was set
  | notifySwap                       -- in `notify`, before `waiting.swap(false)`
  | unpark
  | noThread                         -- the `unwrap` of `notify`
deriving DecidableEq

structure Sync (ι : Type*) where
  waiting : Bool
  waitId : ℕ
  waitThread : Option ι
  token : ι → Bool                   -- of `park` and `unpark`
  pc : ι → Pc
  notified : ℕ                       -- how many times `notify` has found `waiting` set
  returned : ℕ                       -- how many calls of `wait` are over

inductive Action (ι : Type*)
  | wait (t : ι)
  | notify (t : ι)
  | step (t : ι)
  | spurious (t : ι)                 -- `park` returns without a token

namespace Sync

variable {ι : Type*}

def new : Sync ι where
  waiting := false
  waitId := 0
  waitThread := none
  token _ := false
  pc _ := .idle
  notified := 0
  returned := 0

variable [DecidableEq ι]

@[simps]
def goto (s : Sync ι) (t : ι) (c : Pc) : Sync ι := { s with pc := Function.update s.pc t c }

def stepAt (currentThreadId : ι → ℕ) (s : Sync ι) (t : ι) : Pc → Option (Sync ι)
  | .idle | .panicked | .noThread => none
  | .testThread => some (s.goto t (if s.waitThread.isNone then .write else .testId))
  | .testId => some (s.goto t (if s.waitId ≠ currentThreadId t then .write else .swap))
  | .write => some ({ s with waitId := currentThreadId t, waitThread := some t }.goto t .swap)
  | .swap =>
    if s.waiting then some (s.goto t .panicked) else some ({ s with waiting := true }.goto t .load)
  | .load =>
    if s.waiting then some (s.goto t .park)
    else some ({ s with returned := s.returned + 1 }.goto t .idle)
  | .park =>
    if s.token t then some ({ s with token := Function.update s.token t false }.goto t .load)
    else none
  | .notifySwap =>
    if s.waiting then
      some ({ s with waiting := false, notified := s.notified + 1 }.goto t .unpark)
    else some (s.goto t .idle)
  | .unpark =>
    match s.waitThread with
    | some u => some ({ s with token := Function.update s.token u true }.goto t .idle)
    | none => some (s.goto t .noThread)

def step (currentThreadId : ι → ℕ) (s : Sync ι) : Action ι → Option (Sync ι)
  | .wait t => if s.pc t = .idle then some (s.goto t .testThread) else none
  | .notify t => if s.pc t = .idle then some (s.goto t .notifySwap) else none
  | .step t => s.stepAt currentThreadId t (s.pc t)
  | .spurious t => if s.pc t = .park then some (s.goto t .load) else none

end Sync

def Pc.waits : Pc → Bool
  | .testThread | .testId | .write | .swap | .load | .park => true
  | _ => false

def Pc.loops : Pc → Bool
  | .load | .park => true
  | _ => false

lemma Pc.loops_waits {c : Pc} (h : c.loops = true) : c.waits = true := by
  cases c <;> first | rfl | cases h

namespace Sync

variable {ι : Type*} {currentThreadId : ι → ℕ} {s s' : Sync ι} {t u : ι} {a : Action ι} {c : Pc}

/-- A thread sleeps in `wait` though it has been notified, and nobody is about to wake it. -/
def Lost (s : Sync ι) : Prop :=
  ∃ t, s.pc t = .park ∧ s.waiting = false ∧ s.token t = false ∧ ∀ u, s.pc u ≠ .unpark

def Knows (s : Sync ι) (t : ι) : Pc → Prop
  | .testId | .unpark => s.waitThread ≠ none
  | .swap | .load => s.waitThread = some t
  | .park => s.waitThread = some t ∧
      (s.waiting = false → s.token t = true ∨ ∃ u, s.pc u = .unpark)
  | .panicked | .noThread => False
  | _ => True

structure SyncOk (currentThreadId : ι → ℕ) (s : Sync ι) : Prop where
  alone : ∀ t u, (s.pc t).waits = true → (s.pc u).waits = true → t = u
  knows : ∀ t, s.Knows t (s.pc t)
  registered : ∀ u, s.waitThread = some u → s.waitId = currentThreadId u
  waiting : s.waiting = true → ∃ t, (s.pc t).loops = true
  -- a call of `wait` that has been notified and is not over
  owed : ∀ t, (s.pc t).loops = true → s.waiting = false → s.notified = s.returned + 1
  even : (s.waiting = true ∨ ∀ t, (s.pc t).loops = false) → s.notified = s.returned

lemma syncOk_new : SyncOk currentThreadId (new : Sync ι) := by
  constructor <;> simp [new, Pc.waits, Pc.loops, Knows]

lemma Knows.outside {v : Sync ι} (h : s.Knows t c) (hc : c.waits = false)
    (hthread : s.waitThread ≠ none → v.waitThread ≠ none) : v.Knows t c := by
  cases c with
  | unpark => exact hthread h
  | panicked | noThread => exact h.elim
  | idle | notifySwap => trivial
  | _ => cases hc

lemma SyncOk.loops_none (hs : SyncOk currentThreadId s) (hloops : ∀ u, (s.pc u).loops = false) :
    s.waiting = false ∧ s.notified = s.returned := by
  refine ⟨?_, hs.even (Or.inr hloops)⟩
  by_contra hw
  obtain ⟨u, hu⟩ := hs.waiting (by simpa using hw)
  rw [hloops u] at hu
  cases hu

variable [DecidableEq ι]

lemma SyncOk.waiter (hs : SyncOk currentThreadId s) (ht : ∀ u, u ≠ t → (s.pc u).waits = false)
    {v : Sync ι} (hpc : v.pc = s.pc) (hthread : s.waitThread ≠ none → v.waitThread ≠ none)
    (hk : (v.goto t c).Knows t c) (hreg : ∀ u, v.waitThread = some u → v.waitId = currentThreadId u)
    (hwait : v.waiting = true → c.loops = true)
    (howed : c.loops = true → v.waiting = false → v.notified = v.returned + 1)
    (heven : v.waiting = true ∨ c.loops = false → v.notified = v.returned) :
    SyncOk currentThreadId (v.goto t c) := by
  have honly : ∀ u, ((v.goto t c).pc u).waits = true → u = t := by
    intro u hu
    by_contra hne
    rw [goto_pc, hpc, Function.update_of_ne hne, ht u hne] at hu
    cases hu
  have hself : (v.goto t c).pc t = c := by simp
  refine ⟨fun u u' hu hu' => (honly u hu).trans (honly u' hu').symm, fun u => ?_, hreg,
    fun hw => ⟨t, by rw [hself]; exact hwait hw⟩, fun u hu => ?_,
    fun he => heven (he.imp_right fun h => ?_)⟩
  · by_cases hu : u = t
    · rw [hu, hself]
      exact hk
    · rw [goto_pc, hpc, Function.update_of_ne hu]
      exact (hs.knows u).outside (ht u hu) hthread
  · rw [honly u (Pc.loops_waits hu), hself] at hu
    exact howed hu
  · have hout := h t
    rwa [hself] at hout

lemma SyncOk.notifier (hs : SyncOk currentThreadId s) (hold : (s.pc t).waits = false)
    (hc : c.waits = false) {v : Sync ι} (hpc : v.pc = s.pc) (hk : (v.goto t c).Knows t c)
    (hothers : ∀ u, u ≠ t → s.Knows u (s.pc u) → (v.goto t c).Knows u (s.pc u))
    (hthread : v.waitThread = s.waitThread) (hid : v.waitId = s.waitId)
    (hwait : v.waiting = true → s.waiting = true)
    (howed : ∀ u, (s.pc u).loops = true → v.waiting = false → v.notified = v.returned + 1)
    (heven : v.waiting = true ∨ (∀ u, (s.pc u).loops = false) → v.notified = v.returned) :
    SyncOk currentThreadId (v.goto t c) := by
  have hloops : ∀ c : Pc, c.waits = false → c.loops = false := by
    intro c h
    cases c <;> first | rfl | cases h
  have hsame : ∀ u, ((v.goto t c).pc u).waits = (s.pc u).waits ∧
      ((v.goto t c).pc u).loops = (s.pc u).loops := by
    intro u
    rw [goto_pc, hpc]
    by_cases hu : u = t
    · rw [hu, Function.update_self, hc, hold, hloops c hc, hloops _ hold]
      exact ⟨rfl, rfl⟩
    · rw [Function.update_of_ne hu]
      exact ⟨rfl, rfl⟩
  refine ⟨fun u u' => ?_, fun u => ?_, fun u hu => ?_, fun hw => ?_, fun u => ?_, fun he => ?_⟩
  · rw [(hsame u).1, (hsame u').1]
    exact hs.alone u u'
  · by_cases hu : u = t
    · rw [hu, goto_pc, Function.update_self]
      exact hk
    · rw [goto_pc, hpc, Function.update_of_ne hu]
      exact hothers u hu (hs.knows u)
  · rw [goto_waitThread, hthread] at hu
    rw [goto_waitId, hid]
    exact hs.registered u hu
  · obtain ⟨u, hu⟩ := hs.waiting (hwait hw)
    exact ⟨u, (hsame u).2.trans hu⟩
  · rw [(hsame u).2]
    exact howed u
  · exact heven (he.imp_right fun h u => (hsame u).2 ▸ h u)

omit [DecidableEq ι] in
lemma SyncOk.others (hs : SyncOk currentThreadId s) (ht : (s.pc t).waits = true) (u : ι)
    (hu : u ≠ t) : (s.pc u).waits = false := by
  rw [← Bool.not_eq_true]
  exact fun h => hu (hs.alone u t h ht)

lemma SyncOk.outside_loop (hs : SyncOk currentThreadId s) (ht : (s.pc t).waits = true)
    (hl : (s.pc t).loops = false) : s.waiting = false ∧ s.notified = s.returned := by
  refine hs.loops_none fun u => ?_
  by_cases hu : u = t
  · rw [hu, hl]
  · have := hs.others ht u hu
    rw [← Bool.not_eq_true]
    exact fun h => by simp [Pc.loops_waits h] at this

lemma SyncOk.enters (hs : SyncOk currentThreadId s) (ht : (s.pc t).waits = true)
    (hl : (s.pc t).loops = false) (hc : c.loops = false) {v : Sync ι} (hpc : v.pc = s.pc)
    (hwait : v.waiting = s.waiting) (hn : v.notified = s.notified) (hr : v.returned = s.returned)
    (hthread : s.waitThread ≠ none → v.waitThread ≠ none) (hk : (v.goto t c).Knows t c)
    (hreg : ∀ u, v.waitThread = some u → v.waitId = currentThreadId u) :
    SyncOk currentThreadId (v.goto t c) := by
  obtain ⟨hw, heven⟩ := hs.outside_loop ht hl
  refine hs.waiter (hs.others ht) hpc hthread hk hreg (fun h => ?_) (fun h => ?_) fun _ => ?_
  · simp [hwait, hw] at h
  · simp [hc] at h
  · rw [hn, hr, heven]

lemma SyncOk.quiet (hs : SyncOk currentThreadId s) (hold : (s.pc t).waits = false)
    (hne : s.pc t ≠ .unpark) (hc : c = .idle ∨ c = .notifySwap) :
    SyncOk currentThreadId (s.goto t c) := by
  have hcw : c.waits = false := by rcases hc with rfl | rfl <;> rfl
  have hk : (s.goto t c).Knows t c := by rcases hc with rfl | rfl <;> trivial
  refine hs.notifier hold hcw rfl hk (fun u hu hku => ?_) rfl rfl id hs.owed hs.even
  cases hpc : s.pc u with
  | park =>
    rw [hpc] at hku
    refine ⟨hku.1, fun hf => (hku.2 hf).imp_right ?_⟩
    rintro ⟨x, hx⟩
    refine ⟨x, ?_⟩
    rw [goto_pc, Function.update_of_ne]
    · exact hx
    · rintro rfl
      exact hne hx
  | _ =>
    rw [hpc] at hku
    exact hku

lemma syncOk_stepAt (hid : Function.Injective currentThreadId) (hs : SyncOk currentThreadId s)
    (h : s.stepAt currentThreadId t (s.pc t) = some s') : SyncOk currentThreadId s' := by
  have hk := hs.knows t
  cases hpc : s.pc t with
  | idle | panicked | noThread => simp [hpc, stepAt] at h
  | testThread =>
    rw [hpc, stepAt] at h
    obtain rfl := Option.some.inj h
    have ht : (s.pc t).waits = true := by rw [hpc]; rfl
    cases hthread : s.waitThread with
    | none =>
      exact hs.enters (c := .write) ht (by rw [hpc]; rfl) rfl rfl rfl rfl rfl id trivial
        hs.registered
    | some u =>
      refine hs.enters (c := .testId) ht (by rw [hpc]; rfl) rfl rfl rfl rfl rfl id ?_ hs.registered
      change s.waitThread ≠ none
      simp [hthread]
  | testId =>
    rw [hpc] at hk
    rw [hpc, stepAt] at h
    obtain rfl := Option.some.inj h
    have ht : (s.pc t).waits = true := by rw [hpc]; rfl
    split_ifs with hne
    · exact hs.enters ht (by rw [hpc]; rfl) rfl rfl rfl rfl rfl id trivial hs.registered
    · refine hs.enters ht (by rw [hpc]; rfl) rfl rfl rfl rfl rfl id ?_ hs.registered
      obtain ⟨u, hu⟩ := Option.ne_none_iff_exists'.mp hk
      -- the thread that registered last has this thread's id
      obtain rfl : u = t := hid ((hs.registered u hu).symm.trans (not_not.mp hne))
      exact hu
  | write =>
    rw [hpc, stepAt] at h
    obtain rfl := Option.some.inj h
    have ht : (s.pc t).waits = true := by rw [hpc]; rfl
    refine hs.enters ht (by rw [hpc]; rfl) rfl rfl rfl rfl rfl (fun _ => nofun) rfl ?_
    rintro u ⟨⟩
    rfl
  | swap =>
    rw [hpc] at hk
    have ht : (s.pc t).waits = true := by rw [hpc]; rfl
    obtain ⟨hw, heven⟩ := hs.outside_loop ht (by rw [hpc]; rfl)
    rw [hpc, stepAt, hw] at h
    obtain rfl := Option.some.inj h
    exact hs.waiter (hs.others ht) rfl id hk hs.registered (fun _ => rfl) nofun fun _ => heven
  | load =>
    rw [hpc] at hk
    have ht : (s.pc t).waits = true := by rw [hpc]; rfl
    have hl : (s.pc t).loops = true := by rw [hpc]; rfl
    rw [hpc, stepAt] at h
    split_ifs at h with hw <;> obtain rfl := Option.some.inj h
    · refine hs.waiter (hs.others ht) rfl id ⟨hk, fun hf => ?_⟩ hs.registered (fun _ => rfl)
        (fun _ hf => ?_) fun _ => hs.even (Or.inl hw)
      · rw [goto_waiting, hw] at hf
        cases hf
      · rw [hw] at hf
        cases hf
    · have hf : s.waiting = false := by simpa using hw
      exact hs.waiter (hs.others ht) rfl id trivial hs.registered (fun h => (hw h).elim) nofun
        fun _ => hs.owed t hl hf
  | park =>
    rw [hpc] at hk
    have ht : (s.pc t).waits = true := by rw [hpc]; rfl
    have hl : (s.pc t).loops = true := by rw [hpc]; rfl
    rw [hpc, stepAt] at h
    split_ifs at h
    obtain rfl := Option.some.inj h
    exact hs.waiter (hs.others ht) rfl id hk.1 hs.registered (fun _ => rfl)
      (fun _ hf => hs.owed t hl hf) fun he => hs.even (he.imp_right nofun)
  | notifySwap =>
    have hout : (s.pc t).waits = false := by rw [hpc]; rfl
    rw [hpc, stepAt] at h
    split_ifs at h with hw <;> obtain rfl := Option.some.inj h
    · obtain ⟨w, hloop⟩ := hs.waiting hw
      have hsome : s.waitThread = some w := by
        have hkw := hs.knows w
        cases hc : s.pc w <;> simp_all [Pc.loops, Knows]
      refine hs.notifier hout rfl rfl ?_ (fun u hu hku => ?_) rfl rfl nofun (fun u _ _ => ?_) ?_
      · change s.waitThread ≠ none
        simp [hsome]
      · cases hc : s.pc u with
        | park =>
          rw [hc] at hku
          exact ⟨hku.1, fun _ => Or.inr ⟨t, by simp⟩⟩
        | _ =>
          rw [hc] at hku
          exact hku
      · exact congrArg (· + 1) (hs.even (Or.inl hw))
      · rintro (hf | hnone)
        · cases hf
        · rw [hnone w] at hloop
          cases hloop
    · exact hs.quiet hout (by simp [hpc]) (Or.inl rfl)
  | unpark =>
    rw [hpc] at hk
    have hout : (s.pc t).waits = false := by rw [hpc]; rfl
    obtain ⟨w, hw⟩ := Option.ne_none_iff_exists'.mp hk
    rw [hpc, stepAt, hw] at h
    obtain rfl := Option.some.inj h
    refine hs.notifier hout rfl rfl trivial (fun u hu hku => ?_) hw.symm rfl id hs.owed
      hs.even
    cases hc : s.pc u with
    | park =>
      rw [hc] at hku
      -- the token goes to the thread that is registered
      obtain rfl : w = u := Option.some.inj (hw.symm.trans hku.1)
      exact ⟨rfl, fun _ => Or.inl (by simp)⟩
    | testId | unpark => exact nofun
    | swap | load =>
      rw [hc] at hku
      exact hw.symm.trans hku
    | panicked | noThread =>
      rw [hc] at hku
      exact hku.elim
    | _ => trivial

def OneWaits (s : Sync ι) (a : Action ι) : Prop := ∀ t, a = .wait t → ∀ u, (s.pc u).waits = false

lemma syncOk_step (hid : Function.Injective currentThreadId) (hs : SyncOk currentThreadId s)
    (hc : OneWaits s a) (h : s.step currentThreadId a = some s') : SyncOk currentThreadId s' := by
  cases a with
  | wait t =>
    simp only [step] at h
    split_ifs at h with hpc
    obtain rfl := Option.some.inj h
    have hnone := hc t rfl
    obtain ⟨hw, heven⟩ := hs.loops_none fun u => by
      rw [← Bool.not_eq_true]
      exact fun hl => by simpa [hnone u] using Pc.loops_waits hl
    exact hs.waiter (fun u _ => hnone u) rfl id trivial hs.registered (by simp [hw]) nofun
      fun _ => heven
  | notify t =>
    simp only [step] at h
    split_ifs at h with hpc
    obtain rfl := Option.some.inj h
    exact hs.quiet (by rw [hpc]; rfl) (by simp [hpc]) (Or.inr rfl)
  | step t => exact syncOk_stepAt hid hs h
  | spurious t =>
    have hk := hs.knows t
    simp only [step] at h
    split_ifs at h with hpc
    obtain rfl := Option.some.inj h
    rw [hpc] at hk
    exact hs.waiter (hs.others (by rw [hpc]; rfl)) rfl id hk.1 hs.registered (fun _ => rfl)
      (fun _ hf => hs.owed t (by rw [hpc]; rfl) hf) fun he => hs.even (he.imp_right nofun)

/-- Nothing panics, a notified thread does not go on sleeping, and every effective notification
ends one call of `wait`. -/
structure Sound (s : Sync ι) : Prop where
  panics : ∀ t, s.pc t ≠ .panicked ∧ s.pc t ≠ .noThread
  lost : ¬ Lost s
  paired : s.notified = s.returned ∨
    s.notified = s.returned + 1 ∧ s.waiting = false ∧ ∃ t, (s.pc t).loops = true

omit [DecidableEq ι] in
lemma SyncOk.sound (hs : SyncOk currentThreadId s) : Sound s := by
  refine ⟨fun t => ⟨fun h => ?_, fun h => ?_⟩, ?_, ?_⟩
  · have hk := hs.knows t
    rwa [h] at hk
  · have hk := hs.knows t
    rwa [h] at hk
  · rintro ⟨t, hpc, hw, htok, hn⟩
    have hk := hs.knows t
    rw [hpc] at hk
    rcases hk.2 hw with h | ⟨u, hu⟩
    · simp [htok] at h
    · exact hn u hu
  · by_cases hl : s.waiting = true ∨ ∀ t, (s.pc t).loops = false
    · exact Or.inl (hs.even hl)
    · obtain ⟨hw, hl⟩ := not_or.mp hl
      obtain ⟨t, ht⟩ := not_forall.mp hl
      have hw : s.waiting = false := by simpa using hw
      have ht : (s.pc t).loops = true := by simpa using ht
      exact Or.inr ⟨hs.owed t ht hw, hw, t, ht⟩

end Sync

/-- Used by one waiting thread at a time, whichever that is, with different ids for different
threads, `LightSync` is sound in every run. -/
theorem sound_of_one_waiter {ι : Type*} [DecidableEq ι] (currentThreadId : ι → ℕ)
    (hid : Function.Injective currentThreadId) (as : List (Action ι))
    (hc : EachStep (Sync.step currentThreadId) Sync.OneWaits Sync.new as) :
    Always (Sync.step currentThreadId) Sync.Sound Sync.new as :=
  always_of_eachStep (I := Sync.SyncOk currentThreadId)
    (fun _ _ _ hs ha h => Sync.syncOk_step hid hs ha h) (fun _ hs => hs.sound) as Sync.syncOk_new hc

def oneAfterTheOther : List (Action Bool) :=
  [.wait false, .step false, .step false, .step false, .notify true, .step true, .step true,
    .step false, .wait true, .step true, .step true, .step true, .step true, .notify false,
    .step false, .step false]

theorem sound_of_one_waiter_oneAfterTheOther :
    ∃ s, run (Sync.step fun b : Bool => b.toNat) Sync.new oneAfterTheOther = some s ∧
      s.pc true = .load ∧ s.waitThread = some true ∧
      Always (Sync.step fun b : Bool => b.toNat) Sync.Sound Sync.new oneAfterTheOther := by
  refine ⟨_, rfl, rfl, rfl, sound_of_one_waiter _ (by decide) oneAfterTheOther ?_⟩
  iterate 16 refine eachStep_cons rfl (by rintro t ⟨⟩ (_ | _) <;> rfl) ?_
  trivial

/-- A thread that has the id of the one that waited before it is not woken: the old one is. -/
theorem not_sound_with_reused_id :
    ¬ ∀ (currentThreadId : Bool → ℕ) (as : List (Action Bool)),
      EachStep (Sync.step currentThreadId) Sync.OneWaits Sync.new as →
        Always (Sync.step currentThreadId) Sync.Sound Sync.new as := by
  intro h
  have hc : EachStep (Sync.step fun _ => 0) Sync.OneWaits Sync.new oneAfterTheOther := by
    iterate 16 refine eachStep_cons rfl (by rintro t ⟨⟩ (_ | _) <;> rfl) ?_
    trivial
  refine ((h _ oneAfterTheOther hc).last rfl).lost ⟨true, rfl, rfl, rfl, ?_⟩
  rintro (_ | _) <;> exact nofun

end PaQueueAndChan.LightSync
