import PaQueueAndChan.TimeoutParker.Inner

namespace PaQueueAndChan.TimeoutParker

open Library

lemma parked_ne_notified : parkedCondvar ≠ notified := by decide

def ParkPc.Holds : ParkPc → Prop
  | .exchange | .swap | .waitTimeout | .store | .unlock => True
  | _ => False

/-- What `state` may be, seen from the parker. -/
def ParkPc.StateOk (state : ℕ) : ParkPc → Prop
  | .idle | .tryNotified _ | .lock | .exchange | .unlock => state = empty ∨ state = notified
  | .swap => state = notified
  | .waitTimeout | .waiting | .relock | .store => state = parkedCondvar ∨ state = notified
  | .inconsistent _ | .unexpected _ => False

-- of a call of `park_timeout` there is at most the guard left to drop
def ParkPc.Outside (c : ParkPc) : Prop := c = .idle ∨ c = .unlock

namespace Inner

variable {s s' : Inner} {u : ℕ}

/-- Between the swap that found the parker parked and the `notify_one`. -/
def Notifying (s : Inner) (u : ℕ) : Prop :=
  s.unparkers u = .lock ∨ s.unparkers u = .unlock ∨ s.unparkers u = .notify

structure ParkerOk (s : Inner) : Prop where
  state : s.parker.StateOk s.state
  holder : s.mutex = some .parker ↔ s.parker.Holds
  unparkHolder : ∀ u, s.mutex = some (.unparker u) ↔ s.unparkers u = .unlock
  unparkers : ∀ u actual, s.unparkers u ≠ .inconsistent actual
  -- as long as the parker has the lock, the notification cannot come too early
  ahead : s.parker = .waitTimeout → s.state = notified → ∃ u, s.unparkers u = .lock
  waiting : s.parker = .waiting → s.state = notified → ∃ u, s.Notifying u

lemma parkerOk_new : ParkerOk new := by
  constructor <;> simp [new, ParkPc.StateOk, ParkPc.Holds]

lemma ParkerOk.not_unlocking (hs : ParkerOk s) {o : Option Holder} (hm : s.mutex = o)
    (ho : o = none ∨ o = some .parker) (u : ℕ) : s.unparkers u ≠ .unlock := by
  intro hu
  have hmu := (hs.unparkHolder u).mpr hu
  rw [hm] at hmu
  rcases ho with rfl | rfl <;> cases hmu

lemma ParkerOk.parker_keeps {state : ℕ} {c : ParkPc} (hs : ParkerOk s) (hstate : c.StateOk state)
    (hholds : s.parker.Holds ↔ c.Holds)
    (hwait : c = .waitTimeout ∨ c = .waiting → state ≠ notified) :
    ParkerOk { s with state := state, parker := c } :=
  ⟨hstate, hs.holder.trans hholds, hs.unparkHolder, hs.unparkers,
    fun hc hn => (hwait (Or.inl hc) hn).elim, fun hc hn => (hwait (Or.inr hc) hn).elim⟩

lemma ParkerOk.parker_locks {c : ParkPc} (hs : ParkerOk s) (hm : s.mutex = none)
    (hstate : c.StateOk s.state) (hholds : c.Holds) (hc : c ≠ .waitTimeout) :
    ParkerOk { s with mutex := some .parker, parker := c } := by
  refine ⟨hstate, iff_of_true rfl hholds, fun u => ?_, hs.unparkers, fun h => (hc h).elim,
    fun h _ => ?_⟩
  · exact iff_of_false nofun (hs.not_unlocking hm (Or.inl rfl) u)
  · obtain rfl : c = .waiting := h
    exact hholds.elim

lemma ParkerOk.parker_unlocks {c : ParkPc} (hs : ParkerOk s) (hp : s.parker.Holds)
    (hstate : c.StateOk s.state) (hholds : ¬ c.Holds)
    (hwait : c = .waiting → s.state = notified → ∃ u, s.Notifying u) :
    ParkerOk { s with mutex := none, parker := c } := by
  refine ⟨hstate, iff_of_false nofun hholds, fun u => ?_, hs.unparkers, fun h _ => ?_, hwait⟩
  · exact iff_of_false nofun (hs.not_unlocking (hs.holder.mpr hp) (Or.inr rfl) u)
  · obtain rfl : c = .waitTimeout := h
    exact (hholds trivial).elim

lemma parkerOk_parkStep (hs : ParkerOk s) (h : s.parkStep = some s') : ParkerOk s' := by
  have hstate := hs.state
  unfold parkStep at h
  cases hp : s.parker with
  | idle => simp [hp] at h
  | waiting => simp [hp] at h
  | inconsistent a => simp [hp] at h
  | unexpected a => simp [hp] at h
  | tryNotified round =>
    simp only [hp] at h
    rw [hp] at hstate
    split_ifs at h with hn hr <;> obtain rfl := Option.some.inj h
    · exact hs.parker_keeps (Or.inl rfl) (by rw [hp]; rfl) (by simp)
    · exact hs.parker_keeps hstate (by rw [hp]; rfl) (by simp)
    · exact hs.parker_keeps hstate (by rw [hp]; rfl) (by simp)
  | lock =>
    simp only [hp] at h
    rw [hp] at hstate
    split_ifs at h with hm
    obtain rfl := Option.some.inj h
    exact hs.parker_locks hm hstate trivial nofun
  | exchange =>
    simp only [hp] at h
    rw [hp] at hstate
    split_ifs at h with he hn <;> obtain rfl := Option.some.inj h
    · exact hs.parker_keeps (Or.inl rfl) (by rw [hp]; rfl) fun _ => parked_ne_notified
    · exact hs.parker_keeps hn (by rw [hp]; rfl) (by simp)
    · exact (hstate.elim he hn).elim
  | swap =>
    simp only [hp] at h
    rw [hp] at hstate
    split_ifs at h with hn <;> obtain rfl := Option.some.inj h
    · exact hs.parker_keeps (Or.inl rfl) (by rw [hp]; rfl) (by simp)
    · exact (hn hstate).elim
  | waitTimeout =>
    simp only [hp, Option.some.injEq] at h
    rw [hp] at hstate
    subst h
    refine hs.parker_unlocks (by rw [hp]; trivial) hstate id fun _ hn => ?_
    -- whoever has notified since the exchange is still kept from the lock
    obtain ⟨u, hu⟩ := hs.ahead hp hn
    exact ⟨u, Or.inl hu⟩
  | relock =>
    simp only [hp] at h
    rw [hp] at hstate
    split_ifs at h with hm
    obtain rfl := Option.some.inj h
    exact hs.parker_locks hm hstate trivial nofun
  | store =>
    simp only [hp, Option.some.injEq] at h
    subst h
    exact hs.parker_keeps (Or.inl rfl) (by rw [hp]; rfl) (by simp)
  | unlock =>
    simp only [hp, Option.some.injEq] at h
    rw [hp] at hstate
    subst h
    exact hs.parker_unlocks (by rw [hp]; trivial) hstate id nofun

lemma ParkPc.state_cases {c : ParkPc} {state : ℕ} (h : c.StateOk state) :
    state = empty ∨ state = parkedCondvar ∨ state = notified := by
  cases c <;> simp only [ParkPc.StateOk] at h <;> tauto

lemma ParkPc.stateOk_notified {c : ParkPc} {state : ℕ} (h : c.StateOk state) :
    c.StateOk notified := by
  cases c with
  | inconsistent | unexpected => exact h
  | swap => exact rfl
  | _ => exact Or.inr rfl

lemma ParkerOk.ne_empty (hs : ParkerOk s) (hp : s.parker = .waitTimeout ∨ s.parker = .waiting) :
    s.state ≠ empty := by
  have hstate := hs.state
  rintro he
  rcases hp with hp | hp <;> simp [hp, he, ParkPc.StateOk] at hstate

lemma ParkerOk.not_inconsistent {c : UnparkPc} (hs : ParkerOk s)
    (hc : ∀ actual, c ≠ .inconsistent actual) (v actual : ℕ) :
    (s.setUnpark u c).unparkers v ≠ .inconsistent actual := by
  by_cases hv : v = u
  · subst hv
    simpa using hc actual
  · simpa [hv] using hs.unparkers v actual

lemma ParkerOk.unparkHolder_update {c : UnparkPc} (hs : ParkerOk s) (hu : s.unparkers u ≠ .unlock)
    (hc : c ≠ .unlock) (v : ℕ) :
    s.mutex = some (.unparker v) ↔ (s.setUnpark u c).unparkers v = .unlock := by
  rw [hs.unparkHolder]
  by_cases hv : v = u
  · subst hv
    simp [hu, hc]
  · simp [hv]

lemma Notifying.of_ne {c : UnparkPc} {v : ℕ} (h : s.Notifying v) (hv : v ≠ u) :
    (s.setUnpark u c).Notifying v := by
  simpa [Notifying, hv] using h

lemma ParkerOk.setUnpark {c : UnparkPc} (hs : ParkerOk s) (hu : s.unparkers u ≠ .unlock)
    (hc : c ≠ .unlock) (hc' : ∀ actual, c ≠ .inconsistent actual) (hlock : s.unparkers u ≠ .lock)
    (hwait : s.parker = .waiting → ¬ s.Notifying u) : ParkerOk (s.setUnpark u c) := by
  refine ⟨hs.state, hs.holder, hs.unparkHolder_update hu hc, hs.not_inconsistent hc',
    fun hp hn => ?_, fun hp hn => ?_⟩
  · obtain ⟨v, hv⟩ := hs.ahead hp hn
    have hne : v ≠ u := by
      rintro rfl
      exact hlock hv
    exact ⟨v, by simpa [hne] using hv⟩
  · obtain ⟨v, hv⟩ := hs.waiting hp hn
    have hne : v ≠ u := by
      rintro rfl
      exact hwait hp hv
    exact ⟨v, hv.of_ne hne⟩

lemma ParkerOk.setNotified (hs : ParkerOk s)
    (hold : s.parker = .waitTimeout ∨ s.parker = .waiting → s.state = notified) :
    ParkerOk { s with state := notified } :=
  ⟨ParkPc.stateOk_notified hs.state, hs.holder, hs.unparkHolder, hs.unparkers,
    fun hp _ => hs.ahead hp (hold (Or.inl hp)), fun hp _ => hs.waiting hp (hold (Or.inr hp))⟩

lemma parkerOk_swap (hs : ParkerOk s) (hu : s.unparkers u = .swap)
    (h : s.unparkStep u = some s') : ParkerOk s' := by
  simp only [unparkStep, hu] at h
  split_ifs at h with hn hp <;> obtain rfl := Option.some.inj h
  · -- nobody is parked, or somebody has notified the parker already
    have hs' := hs.setNotified fun hp => hn.resolve_right (hs.ne_empty hp)
    exact hs'.setUnpark (by simp [hu]) nofun nofun (by simp [hu]) fun _ => by simp [Notifying, hu]
  · exact ⟨ParkPc.stateOk_notified hs.state, hs.holder,
      hs.unparkHolder_update (by simp [hu]) nofun, hs.not_inconsistent nofun,
      fun _ _ => ⟨u, by simp⟩, fun _ _ => ⟨u, Or.inl (by simp)⟩⟩
  · rcases ParkPc.state_cases hs.state with he | he | he
    · exact (hn (Or.inr he)).elim
    · exact (hp he).elim
    · exact (hn (Or.inl he)).elim

lemma parkerOk_woken (hs : ParkerOk s) (hp : s.parker = .waiting) :
    ParkerOk { s with parker := .relock } := by
  have hstate := hs.state
  rw [hp] at hstate
  exact hs.parker_keeps hstate (by rw [hp]; rfl) (by simp)

lemma parkerOk_notify (hs : ParkerOk s) (hu : s.unparkers u = .notify) :
    ParkerOk (s.notifyOne.setUnpark u .idle) := by
  unfold notifyOne
  split
  · next hp =>
    exact (parkerOk_woken hs hp).setUnpark (by simp [hu]) nofun nofun (by simp [hu]) nofun
  · next hp =>
    exact hs.setUnpark (by simp [hu]) nofun nofun (by simp [hu]) fun hw => (hp hw).elim

lemma ParkerOk.unparker_moves {m : Option Holder} {c : UnparkPc} (hs : ParkerOk s)
    (hfree : ¬ s.parker.Holds) (hm : m ≠ some .parker) (hc : c = .unlock ∨ c = .notify)
    (hholder : ∀ v, m = some (.unparker v) ↔ (s.setUnpark u c).unparkers v = .unlock) :
    ParkerOk ({ s with mutex := m }.setUnpark u c) := by
  have hc' : ∀ actual, c ≠ .inconsistent actual := by rcases hc with rfl | rfl <;> nofun
  refine ⟨hs.state, iff_of_false hm hfree, hholder, hs.not_inconsistent hc', fun hp _ => ?_,
    fun hp hn => ?_⟩
  · have hp : s.parker = .waitTimeout := hp
    exact (hfree (hp ▸ trivial)).elim
  · obtain ⟨v, hv⟩ := hs.waiting hp hn
    by_cases hne : v = u
    · exact ⟨u, by simp [Notifying, hc]⟩
    · exact ⟨v, hv.of_ne hne⟩

lemma parkerOk_unparkStep (hs : ParkerOk s) (h : s.unparkStep u = some s') : ParkerOk s' := by
  cases hu : s.unparkers u with
  | idle => simp [unparkStep, hu] at h
  | inconsistent a => simp [unparkStep, hu] at h
  | swap => exact parkerOk_swap hs hu h
  | lock =>
    simp only [unparkStep, hu] at h
    split_ifs at h with hm
    obtain rfl := Option.some.inj h
    have hfree : ¬ s.parker.Holds := fun hp => nomatch hm.symm.trans (hs.holder.mpr hp)
    refine hs.unparker_moves hfree nofun (Or.inl rfl) fun v => ?_
    by_cases hv : v = u
    · simp [hv]
    · have hnot := hs.not_unlocking hm (Or.inl rfl) v
      simpa [hv, hnot] using Ne.symm hv
  | unlock =>
    simp only [unparkStep, hu, Option.some.injEq] at h
    subst h
    have hm : s.mutex = some (.unparker u) := (hs.unparkHolder u).mpr hu
    have hfree : ¬ s.parker.Holds := fun hp => nomatch hm.symm.trans (hs.holder.mpr hp)
    refine hs.unparker_moves hfree nofun (Or.inr rfl) fun v => iff_of_false nofun ?_
    by_cases hv : v = u
    · simp [hv]
    · have hnot : s.unparkers v ≠ .unlock := fun hvu => by
        have := hm.symm.trans ((hs.unparkHolder v).mpr hvu)
        exact hv (by simpa using this.symm)
      simpa [hv] using hnot
  | notify =>
    simp only [unparkStep, hu, Option.some.injEq] at h
    subst h
    exact parkerOk_notify hs hu

lemma parkerOk_step {a : Action} (hs : ParkerOk s) (h : s.step a = some s') : ParkerOk s' := by
  unfold step at h
  cases a with
  | park =>
    simp only at h
    split at h
    · next hp =>
      obtain rfl := Option.some.inj h
      have hstate := hs.state
      rw [hp] at hstate
      exact hs.parker_keeps hstate (by rw [hp]; rfl) (by simp)
    · cases h
  | parkStep => exact parkerOk_parkStep hs h
  | wake =>
    simp only at h
    split at h
    · next hp =>
      obtain rfl := Option.some.inj h
      exact parkerOk_woken hs hp
    · cases h
  | unpark u =>
    simp only at h
    split at h
    · next hu =>
      obtain rfl := Option.some.inj h
      exact hs.setUnpark (by simp [hu]) nofun nofun (by simp [hu]) fun _ => by simp [Notifying, hu]
    · cases h
  | unparkStep u => exact parkerOk_unparkStep hs h

lemma unparkStep_frame (h : s.unparkStep u = some s') (hp : s.parker ≠ .waiting) :
    s'.parker = s.parker ∧ (s'.state = s.state ∨ s'.state = notified) := by
  unfold unparkStep at h
  split at h
  · cases h
  · cases h
  · dsimp only at h
    split_ifs at h <;> obtain rfl := Option.some.inj h <;> exact ⟨rfl, Or.inr rfl⟩
  · split_ifs at h
    obtain rfl := Option.some.inj h
    exact ⟨rfl, Or.inl rfl⟩
  · obtain rfl := Option.some.inj h
    exact ⟨rfl, Or.inl rfl⟩
  · obtain rfl := Option.some.inj h
    have hsame : s.notifyOne = s := by
      unfold notifyOne
      split
      · next hw => exact (hp hw).elim
      · rfl
    rw [hsame]
    exact ⟨rfl, Or.inl rfl⟩

lemma step_frame {a : Action} (ha : a ≠ .park) (ha' : a ≠ .parkStep) (hp : s.parker ≠ .waiting)
    (h : s.step a = some s') :
    s'.parker = s.parker ∧ (s'.state = s.state ∨ s'.state = notified) := by
  unfold step at h
  cases a with
  | park => exact (ha rfl).elim
  | parkStep => exact (ha' rfl).elim
  | wake =>
    simp only at h
    cases h
  | unpark u =>
    simp only at h
    split at h
    · obtain rfl := Option.some.inj h
      exact ⟨rfl, Or.inl rfl⟩
    · cases h
  | unparkStep u => exact unparkStep_frame h hp

structure Announced (s : Inner) : Prop where
  outside : s.parker.Outside
  state : s.state = notified

/-- The next call of `park_timeout` has looked at nothing yet, or has returned. -/
def Answered (s : Inner) : Prop :=
  s.parker = .tryNotified 0 ∧ s.state = notified ∨ s.parker = .idle

lemma announced_step {a : Action} (ha : a ≠ .park) (hs : Announced s) (h : s.step a = some s') :
    Announced s' := by
  obtain ⟨hout, hn⟩ := hs
  by_cases hstep : a = .parkStep
  · subst hstep
    rcases hout with hp | hp
    · simp [step, parkStep, hp] at h
    · simp only [step, parkStep, hp, Option.some.injEq] at h
      subst h
      exact ⟨Or.inl rfl, hn⟩
  · have hwait : s.parker ≠ .waiting := by rcases hout with hp | hp <;> simp [hp]
    obtain ⟨hp, hst⟩ := step_frame ha hstep hwait h
    exact ⟨hp ▸ hout, hst.elim (fun he => he.trans hn) id⟩

lemma answered_step {a : Action} (ha : a ≠ .park) (hs : Answered s) (h : s.step a = some s') :
    Answered s' := by
  by_cases hstep : a = .parkStep
  · subst hstep
    rcases hs with ⟨hp, hn⟩ | hp
    · simp only [step, parkStep, hp, hn, if_true, Option.some.injEq] at h
      subst h
      exact Or.inr rfl
    · simp [step, parkStep, hp] at h
  · have hwait : s.parker ≠ .waiting := by rcases hs with ⟨hp, -⟩ | hp <;> simp [hp]
    obtain ⟨hp, hst⟩ := step_frame ha hstep hwait h
    rw [Answered, hp]
    exact hs.imp_left fun hs => ⟨hs.1, hst.elim (fun he => he.trans hs.2) id⟩

lemma announced_run {bs : List Action} (hbs : .park ∉ bs) (hs : Announced s)
    (h : run step s bs = some s') : Announced s' :=
  run_invariant_of_mem (A := fun a => a ≠ .park) (fun _ _ _ ha hs h => announced_step ha hs h)
    (fun _ ha => ne_of_mem_of_not_mem ha hbs) hs h

lemma answered_run {bs : List Action} (hbs : .park ∉ bs) (hs : Answered s)
    (h : run step s bs = some s') : Answered s' :=
  run_invariant_of_mem (A := fun a => a ≠ .park) (fun _ _ _ ha hs h => answered_step ha hs h)
    (fun _ ha => ne_of_mem_of_not_mem ha hbs) hs h

/-- As long as at most one call of `park_timeout` is made from here on, whatever the unparkers do,
the parker is outside or before its first exchange, with which the call returns. -/
def NextReturns (s : Inner) : Prop :=
  ∀ bs t, run step s bs = some t → bs.count .park ≤ 1 →
    t.parker.Outside ∨ t.parker = .tryNotified 0 ∧
      ∃ t', t.step .parkStep = some t' ∧ t'.parker = .idle

lemma Announced.nextReturns (hs : Announced s) : NextReturns s := by
  intro bs t hrun hcount
  by_cases hmem : .park ∈ bs
  · obtain ⟨xs, ys, rfl, hxs⟩ := List.eq_append_cons_of_mem hmem
    have hys : .park ∉ ys := by
      intro hys
      have := List.count_pos_iff.mpr hys
      simp only [List.count_append, List.count_cons_self] at hcount
      omega
    obtain ⟨u, hu, hrun⟩ := run_append_some hrun
    obtain ⟨v, hv, hrun⟩ := run_cons_some hrun
    have hsu := announced_run hxs hs hu
    have hsv : Answered v := by
      simp only [step] at hv
      split at hv
      · obtain rfl := Option.some.inj hv
        exact Or.inl ⟨rfl, hsu.state⟩
      · cases hv
    rcases answered_run hys hsv hrun with ⟨hp, hn⟩ | hp
    · exact Or.inr ⟨hp, _, by simp only [step, parkStep, hp, hn, if_true]; rfl, rfl⟩
    · exact Or.inl (Or.inl hp)
  · exact Or.inl (announced_run hmem hs hrun).outside

structure LosesNone (s : Inner) : Prop where
  noPanic : ∀ a, s.parker ≠ .inconsistent a ∧ s.parker ≠ .unexpected a ∧
    ∀ u, s.unparkers u ≠ .inconsistent a
  notAsleep : s.parker = .waiting → s.state = notified → ∃ u, s.Notifying u
  nextReturns : ∀ u s', s.unparkers u = .swap → s.parker.Outside →
    s.step (.unparkStep u) = some s' → s'.unparkers u = .idle ∧ NextReturns s'

lemma ParkerOk.losesNone (hs : ParkerOk s) : LosesNone s := by
  refine ⟨fun a => ⟨fun hp => ?_, fun hp => ?_, fun u => hs.unparkers u a⟩, hs.waiting,
    fun u s' hu hout h => ?_⟩
  · exact (hp ▸ hs.state :)
  · exact (hp ▸ hs.state :)
  · have hstate : s.state = notified ∨ s.state = empty := by
      have hstate := hs.state
      rcases hout with hp | hp <;> rw [hp] at hstate <;> exact hstate.symm
    simp only [step, unparkStep, hu, hstate, if_true, Option.some.injEq] at h
    subst h
    exact ⟨Function.update_self .., Announced.nextReturns ⟨hout, rfl⟩⟩

theorem no_notification_lost (as : List Action) : Always step LosesNone new as :=
  always_of_invariant (fun _ _ _ hs h => parkerOk_step hs h) (fun _ hs => hs.losesNone) as
    parkerOk_new

def park : List Action := .park :: List.replicate 6 .parkStep

def leave : List Action := .wake :: List.replicate 3 .parkStep

/-- The swap found the parker parked, but the wait timed out before the `notify_one`. -/
theorem notification_of_ended_wait :
    ¬ ∀ (as : List Action) (s s' : Inner) (u : ℕ), run step new as = some s →
      s.parker = .idle → s.unparkers u ≠ .idle → s.step (.unparkStep u) = some s' →
      s'.unparkers u = .idle → NextReturns s' := by
  intro h
  obtain ⟨s, s', t, hrun, hp, hu, hstep, hu', hrun', ht⟩ :
      ∃ s s' t, run step new (park ++ [.unpark 0, .unparkStep 0] ++ leave ++
          [.unparkStep 0, .unparkStep 0]) = some s ∧ s.parker = .idle ∧
        s.unparkers 0 = .notify ∧ s.step (.unparkStep 0) = some s' ∧ s'.unparkers 0 = .idle ∧
        run step s' park = some t ∧ t.parker = .waiting :=
    ⟨_, _, _, rfl, rfl, rfl, rfl, rfl, rfl, rfl⟩
  rcases h _ s s' 0 hrun hp (by simp [hu]) hstep hu' park t hrun' (by decide) with hout | ⟨hp, -⟩
  · rcases hout with hp | hp <;> simp [ht] at hp
  · simp [ht] at hp

end Inner

end PaQueueAndChan.TimeoutParker
