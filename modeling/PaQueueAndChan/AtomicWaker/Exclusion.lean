import PaQueueAndChan.AtomicWaker.Calls

/-! The two bits are a lock on the cell. A thread that has turned `WAITING` into `REGISTERING` or
`WAKING` owns the cell until it turns the state back; the others can only add the waking bit. -/

namespace PaQueueAndChan.Waking

open Library Priority

def Pc.registering : Pc → Bool
  | .into _ | .takeOld _ | .putNew _ _ | .publish _ _ | .reclaim _ _ | .swap _ _ _ => true
  | _ => false

-- between the transition from `WAITING` and the one back
def Pc.owns : Pc → Bool
  | .taking | .releasing _ => true
  | c => c.registering

def Pc.accesses : Pc → Bool
  | .takeOld _ | .putNew _ _ | .reclaim _ _ | .taking => true
  | _ => false

def Pc.Knows (a : AtomicWaker ℕ) : Pc → Prop
  | .into _ | .takeOld _ => a.state.registering = true
  | .putNew _ _ => a.state.registering = true ∧ a.waker = none
  | .publish old panic => a.state.registering = true ∧ (panic = true → old = none)
  | .reclaim old panic => a.state = ⟨true, true⟩ ∧ (panic = true → old = none)
  | .swap old _ panic => a.state = ⟨true, true⟩ ∧ a.waker = none ∧ (panic = true → old = none)
  | .wakeOld _ new panic | .wakeNew new panic => panic = true → new = none
  | .taking => a.state = WAKING
  | .releasing _ => a.state = WAKING ∧ a.waker = none
  | .failed => False
  | _ => True

lemma Pc.accesses_owns {c : Pc} (h : c.accesses = true) : c.owns = true := by
  cases c <;> simp_all [Pc.accesses, Pc.owns, Pc.registering]

lemma Pc.Knows.congr {a b : AtomicWaker ℕ} {c : Pc} (h : c.Knows a) (hc : c.owns = false) :
    c.Knows b := by
  cases c <;> simp_all [Pc.Knows, Pc.owns, Pc.registering]

lemma Pc.Knows.fetchOr {a : AtomicWaker ℕ} {c : Pc} (h : c.Knows a) : c.Knows a.fetchOrWaking := by
  cases c <;> simp_all [Pc.Knows, AtomicWaker.fetchOrWaking, WAKING]

lemma Pc.Knows.ne_waiting {a : AtomicWaker ℕ} {c : Pc} (h : c.Knows a) (hc : c.owns = true) :
    a.state ≠ WAITING := by
  rintro he
  cases c <;> simp_all [Pc.Knows, Pc.owns, Pc.registering, WAITING, WAKING]

lemma Pc.Knows.registering_iff {a : AtomicWaker ℕ} {c : Pc} (h : c.Knows a) (hc : c.owns = true) :
    a.state.registering = true ↔ c.registering = true := by
  cases c <;> simp_all [Pc.Knows, Pc.owns, Pc.registering, WAKING]

lemma Pc.registering_owns {c : Pc} (h : c.registering = true) : c.owns = true := by
  cases c <;> simp_all [Pc.owns, Pc.registering]

namespace Wakers

variable {ι : Type*}

structure LockOk (s : Wakers ι) (owner : Option ι) : Prop where
  owns : ∀ t, (s.pc t).owns = true ↔ owner = some t
  free : owner = none → s.cell.state = WAITING
  knows : ∀ t, (s.pc t).Knows s.cell

lemma lockOk_new : LockOk (new : Wakers ι) none :=
  ⟨by simp [new, Pc.owns, Pc.registering], fun _ => rfl, by simp [new, Pc.Knows]⟩

variable {s s' : Wakers ι} {owner : Option ι} {t u : ι} {a : Action ι} {c : Pc}

lemma LockOk.exclusive (hs : LockOk s owner) (ht : (s.pc t).owns = true)
    (hu : (s.pc u).owns = true) : t = u :=
  Option.some.inj (((hs.owns t).mp ht).symm.trans ((hs.owns u).mp hu))

lemma LockOk.none_of_waiting (hs : LockOk s owner) (hw : s.cell.state = WAITING) :
    owner = none := by
  by_contra hne
  obtain ⟨u, hu⟩ := Option.ne_none_iff_exists'.mp hne
  exact (hs.knows u).ne_waiting ((hs.owns u).mpr hu) hw

variable [DecidableEq ι]

lemma LockOk.outside (hs : LockOk s owner) (hold : (s.pc t).owns = false) (hc : c.owns = false)
    {v : Wakers ι} (hv : v.pc = s.pc) (hk : c.Knows v.cell)
    (hcell : v.cell = s.cell ∨ owner ≠ none ∧ v.cell = s.cell.fetchOrWaking) :
    LockOk (v.goto t c) owner := by
  have hkeep : ∀ u, (s.pc u).Knows v.cell := by
    intro u
    rcases hcell with he | ⟨-, he⟩
    · exact he ▸ hs.knows u
    · exact he ▸ (hs.knows u).fetchOr
  refine ⟨fun u => ?_, fun hn => ?_, fun u => ?_⟩
  · rw [goto_pc, hv]
    by_cases hu : u = t
    · subst hu
      rw [Function.update_self, hc, ← hs.owns u, hold]
    · rw [Function.update_of_ne hu]
      exact hs.owns u
  · rw [goto_cell]
    rcases hcell with he | ⟨ho, -⟩
    · exact he ▸ hs.free hn
    · exact (ho hn).elim
  · rw [goto_pc, goto_cell, hv]
    exact forall_update (P := fun _ c => Pc.Knows v.cell c) hk (fun u _ => hkeep u) u

lemma LockOk.acquire (hs : LockOk s owner) (hw : s.cell.state = WAITING) (hc : c.owns = true)
    {v : Wakers ι} (hv : v.pc = s.pc) (hk : c.Knows v.cell) : LockOk (v.goto t c) (some t) := by
  obtain rfl := hs.none_of_waiting hw
  have hfree : ∀ u, (s.pc u).owns = false := by
    intro u
    rw [← Bool.not_eq_true, hs.owns u]
    exact nofun
  refine ⟨fun u => ?_, nofun, fun u => ?_⟩
  · rw [goto_pc, hv]
    by_cases hu : u = t
    · subst hu
      simp [hc]
    · simp [Function.update_of_ne hu, hfree u, Ne.symm hu]
  · rw [goto_pc, goto_cell, hv]
    exact forall_update (P := fun _ c => Pc.Knows v.cell c) hk
      (fun u _ => (hs.knows u).congr (hfree u)) u

lemma LockOk.inside (hs : LockOk s owner) (hold : (s.pc t).owns = true) {v : Wakers ι}
    (hv : v.pc = s.pc) (hk : c.Knows v.cell)
    (hc : c.owns = true ∨ c.owns = false ∧ v.cell.state = WAITING) :
    ∃ owner', LockOk (v.goto t c) owner' := by
  obtain rfl := (hs.owns t).mp hold
  have hothers : ∀ u, u ≠ t → (s.pc u).owns = false := by
    intro u hu
    rw [← Bool.not_eq_true]
    exact fun h => hu (hs.exclusive h hold)
  have hknows : ∀ u, ((v.goto t c).pc u).Knows (v.goto t c).cell := by
    intro u
    rw [goto_pc, goto_cell, hv]
    exact forall_update (P := fun _ c => Pc.Knows v.cell c) hk
      (fun u hu => (hs.knows u).congr (hothers u hu)) u
  rcases hc with hc | ⟨hc, hw⟩
  · refine ⟨some t, fun u => ?_, nofun, hknows⟩
    rw [goto_pc, hv]
    by_cases hu : u = t
    · subst hu
      simp [hc]
    · simp [Function.update_of_ne hu, hothers u hu, Ne.symm hu]
  · refine ⟨none, fun u => ?_, fun _ => hw, hknows⟩
    rw [goto_pc, hv]
    by_cases hu : u = t
    · subst hu
      simp [hc]
    · simp [Function.update_of_ne hu, hothers u hu]

lemma state_cases (b : WakerState) :
    b = WAITING ∨ b = WAKING ∨ b = REGISTERING ∨ b = ⟨true, true⟩ := by
  rcases b with ⟨_ | _, _ | _⟩ <;> simp [WAITING, WAKING, REGISTERING]

lemma lockOk_stepAt {panics : Bool} (hs : LockOk s owner)
    (h : s.stepAt t panics (s.pc t) = some s') : ∃ owner', LockOk s' owner' := by
  have hk := hs.knows t
  have hlocked : s.cell.state ≠ WAITING → owner ≠ none := fun hw ho => hw (hs.free ho)
  cases hpc : s.pc t with
  | idle | failed => simp [hpc, stepAt] at h
  | register w =>
    have hout : (s.pc t).owns = false := by rw [hpc]; rfl
    rw [hpc, stepAt] at h
    split_ifs at h with hw hk hr <;> obtain rfl := Option.some.inj h
    · exact ⟨_, hs.acquire hw rfl rfl (by simp [Pc.Knows, AtomicWaker.compareExchange, hw,
        REGISTERING])⟩
    · exact ⟨_, hs.outside hout rfl rfl trivial (Or.inl rfl)⟩
    · exact ⟨_, hs.outside hout rfl rfl trivial (Or.inl rfl)⟩
    · rcases state_cases s.cell.state with h | h | h | h <;> simp_all
  | wake =>
    have hout : (s.pc t).owns = false := by rw [hpc]; rfl
    rw [hpc, stepAt] at h
    split_ifs at h with hw hr <;> obtain rfl := Option.some.inj h
    · exact ⟨_, hs.acquire hw rfl rfl (by simp [Pc.Knows, AtomicWaker.fetchOrWaking, hw, WAITING,
        WAKING])⟩
    · exact ⟨_, hs.outside hout rfl rfl trivial (Or.inr ⟨hlocked hw, rfl⟩)⟩
    · rcases state_cases s.cell.state with h | h | h | h <;> simp_all
  | into w =>
    have hin : (s.pc t).owns = true := by rw [hpc]; rfl
    rw [hpc] at hk
    rw [hpc, stepAt] at h
    split_ifs at h <;> obtain rfl := Option.some.inj h
    · exact hs.inside hin rfl ⟨hk, fun _ => rfl⟩ (Or.inl rfl)
    · exact hs.inside hin rfl hk (Or.inl rfl)
  | takeOld w =>
    have hin : (s.pc t).owns = true := by rw [hpc]; rfl
    rw [hpc] at hk
    rw [hpc, stepAt] at h
    obtain rfl := Option.some.inj h
    exact hs.inside hin rfl ⟨hk, rfl⟩ (Or.inl rfl)
  | putNew old w =>
    have hin : (s.pc t).owns = true := by rw [hpc]; rfl
    rw [hpc] at hk
    rw [hpc, stepAt] at h
    obtain rfl := Option.some.inj h
    exact hs.inside hin rfl ⟨hk.1, nofun⟩ (Or.inl rfl)
  | publish old panic =>
    have hin : (s.pc t).owns = true := by rw [hpc]; rfl
    rw [hpc] at hk
    rw [hpc, stepAt] at h
    split_ifs at h with hr hb <;> obtain rfl := Option.some.inj h
    · exact hs.inside hin rfl trivial (Or.inr ⟨rfl, by simp [AtomicWaker.compareExchange, hr]⟩)
    · exact hs.inside hin rfl ⟨hb, hk.2⟩ (Or.inl rfl)
    · have hreg := hk.1
      rcases state_cases s.cell.state with h | h | h | h <;> simp_all [WAITING, WAKING]
  | reclaim old panic =>
    have hin : (s.pc t).owns = true := by rw [hpc]; rfl
    rw [hpc] at hk
    rw [hpc, stepAt] at h
    obtain rfl := Option.some.inj h
    exact hs.inside hin rfl ⟨hk.1, rfl, hk.2⟩ (Or.inl rfl)
  | swap old new panic =>
    have hin : (s.pc t).owns = true := by rw [hpc]; rfl
    rw [hpc, stepAt] at h
    obtain rfl := Option.some.inj h
    cases panic with
    | false => exact hs.inside hin rfl nofun (Or.inr ⟨rfl, rfl⟩)
    | true => exact hs.inside hin rfl (fun _ => rfl) (Or.inr ⟨rfl, rfl⟩)
  | wakeOld old new panic =>
    have hout : (s.pc t).owns = false := by rw [hpc]; rfl
    rw [hpc] at hk
    rw [hpc, stepAt] at h
    obtain rfl := Option.some.inj h
    exact ⟨_, hs.outside hout rfl rfl hk (Or.inl rfl)⟩
  | wakeNew new panic =>
    have hout : (s.pc t).owns = false := by rw [hpc]; rfl
    rw [hpc] at hk
    cases new with
    | none =>
      rw [hpc, stepAt] at h
      obtain rfl := Option.some.inj h
      exact ⟨_, hs.outside hout rfl rfl trivial (Or.inl rfl)⟩
    | some w =>
      rw [hpc, stepAt] at h
      split_ifs at h with hp <;> obtain rfl := Option.some.inj h
      · cases hk hp
      · exact ⟨_, hs.outside hout rfl rfl trivial (Or.inl rfl)⟩
  | dropOld old | wakeSelf w | waking w =>
    have hout : (s.pc t).owns = false := by rw [hpc]; rfl
    rw [hpc, stepAt] at h
    obtain rfl := Option.some.inj h
    exact ⟨_, hs.outside hout rfl rfl trivial (Or.inl rfl)⟩
  | taking =>
    have hin : (s.pc t).owns = true := by rw [hpc]; rfl
    rw [hpc] at hk
    rw [hpc, stepAt] at h
    obtain rfl := Option.some.inj h
    exact hs.inside hin rfl ⟨hk, rfl⟩ (Or.inl rfl)
  | releasing w =>
    have hin : (s.pc t).owns = true := by rw [hpc]; rfl
    rw [hpc] at hk
    rw [hpc, stepAt] at h
    obtain rfl := Option.some.inj h
    refine hs.inside hin rfl trivial (Or.inr ⟨rfl, ?_⟩)
    simp only [AtomicWaker.fetchAndNotWaking, hk.1]
    rfl

lemma lockOk_step (hs : LockOk s owner) (h : s.step a = some s') : ∃ owner', LockOk s' owner' := by
  cases a with
  | register t =>
    simp only [step] at h
    split_ifs at h with hpc
    obtain rfl := Option.some.inj h
    exact ⟨_, hs.outside (by rw [hpc]; rfl) rfl rfl trivial (Or.inl rfl)⟩
  | wake t =>
    simp only [step] at h
    split_ifs at h with hpc
    obtain rfl := Option.some.inj h
    exact ⟨_, hs.outside (by rw [hpc]; rfl) rfl rfl trivial (Or.inl rfl)⟩
  | step t panics => exact lockOk_stepAt hs h

lemma lockOk_run {as : List (Action ι)} (h : run step new as = some s) :
    ∃ owner, LockOk s owner :=
  run_invariant (I := fun s => ∃ owner, LockOk s owner)
    (fun _ _ _ ⟨_, hs⟩ h => lockOk_step hs h) ⟨none, lockOk_new⟩ h

end Wakers

/-- In every run of any number of threads, no `debug_assert!` of `AtomicWaker` fails, and a thread
that is about to access the cell is the only one between a transition from `WAITING` and the one
back, of which there is never more than one. The state is `WAITING` exactly when there is none, and
has the registering bit exactly when it is in `do_register`. -/
theorem cell_access_is_exclusive {ι : Type*} [DecidableEq ι] (as : List (Action ι)) (s : Wakers ι)
    (h : run Wakers.step Wakers.new as = some s) :
    (∀ t, s.pc t ≠ .failed) ∧
      (∀ t u, (s.pc t).accesses = true → (s.pc u).owns = true → t = u) ∧
      (∀ t u, (s.pc t).owns = true → (s.pc u).owns = true → t = u) ∧
      (s.cell.state = WAITING ↔ ∀ t, (s.pc t).owns = false) ∧
      (s.cell.state.registering = true ↔ ∃ t, (s.pc t).registering = true) := by
  obtain ⟨owner, hs⟩ := Wakers.lockOk_run h
  have howned : s.cell.state ≠ WAITING → ∃ t, (s.pc t).owns = true := by
    intro hw
    obtain ⟨t, ht⟩ := Option.ne_none_iff_exists'.mp fun hn => hw (hs.free hn)
    exact ⟨t, (hs.owns t).mpr ht⟩
  refine ⟨fun t hf => ?_, fun t u ht => hs.exclusive (Pc.accesses_owns ht),
    fun t u => hs.exclusive, ⟨fun hw t => ?_, fun hfree => ?_⟩, ⟨fun hr => ?_, ?_⟩⟩
  · have hk := hs.knows t
    rwa [hf] at hk
  · by_contra ho
    exact (hs.knows t).ne_waiting (by simpa using ho) hw
  · by_contra hw
    obtain ⟨t, ht⟩ := howned hw
    rw [hfree t] at ht
    cases ht
  · obtain ⟨t, ht⟩ := howned fun hw => by simp [hw, WAITING] at hr
    exact ⟨t, ((hs.knows t).registering_iff ht).mp hr⟩
  · rintro ⟨t, ht⟩
    exact ((hs.knows t).registering_iff (Pc.registering_owns ht)).mpr ht

def wokenWhileRegistering : List (Action ℕ) :=
  [.register 0, .step 0 false, .step 0 false, .step 0 false, .wake 1, .step 1 false, .step 0 false,
    .step 0 false, .step 0 false]

theorem cell_access_is_exclusive_wokenWhileRegistering :
    ∃ s, run Wakers.step Wakers.new wokenWhileRegistering = some s ∧
      s.pc 0 = .swap none (some 0) false ∧ s.pc 1 = .idle ∧
      (∀ t, s.pc t ≠ .failed) ∧
      (∀ t u, (s.pc t).accesses = true → (s.pc u).owns = true → t = u) ∧
      (∀ t u, (s.pc t).owns = true → (s.pc u).owns = true → t = u) ∧
      (s.cell.state = WAITING ↔ ∀ t, (s.pc t).owns = false) ∧
      (s.cell.state.registering = true ↔ ∃ t, (s.pc t).registering = true) :=
  ⟨_, rfl, rfl, rfl, cell_access_is_exclusive wokenWhileRegistering _
    (show run Wakers.step Wakers.new wokenWhileRegistering = some _ from rfl)⟩

end PaQueueAndChan.Waking
