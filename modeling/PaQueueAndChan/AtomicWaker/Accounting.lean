import PaQueueAndChan.AtomicWaker.Exclusion

/-! Where each waker is. The old waker that a registration takes out of the cell and the new one
that it puts there are both in its hands until it is over. -/

namespace PaQueueAndChan.Waking

open Library Priority

-- given to the call, and not yet put into the cell
def Pc.arriving : Pc → Multiset ℕ
  | .register w | .into w | .takeOld w | .putNew _ w | .wakeSelf w => {w}
  | _ => 0

-- taken out of the cell
def Pc.holds : Pc → Multiset ℕ
  | .putNew old _ | .publish old _ | .reclaim old _ | .dropOld old => old.toList
  | .swap old new _ | .wakeOld old new _ => old.toList + new.toList
  | .wakeNew w _ | .releasing w | .waking w => w.toList
  | _ => 0

def Pc.Displaces (stored : List ℕ) : Pc → Prop
  | .putNew (some w) _ => stored.getLast? = some w
  | .publish (some w) _ | .dropOld (some w) => ∃ w', [w, w'].Sublist stored
  | _ => True

lemma Pc.Displaces.append {stored : List ℕ} {c : Pc} {w : ℕ} (h : c.Displaces stored)
    (hc : c.accesses = false) : c.Displaces (stored ++ [w]) := by
  have hmono : ∀ x, (∃ w', [x, w'].Sublist stored) → ∃ w', [x, w'].Sublist (stored ++ [w]) :=
    fun x ⟨w', hx⟩ => ⟨w', hx.trans (List.sublist_append_left ..)⟩
  cases c with
  | publish old panic =>
    cases old with
    | none => trivial
    | some x => exact hmono x h
  | dropOld old =>
    cases old with
    | none => trivial
    | some x => exact hmono x h
  | putNew => cases hc
  | _ => trivial

lemma not_last_of_sublist {l : List ℕ} {w w' : ℕ} (hn : l.Nodup) (h : [w, w'].Sublist l) :
    l.getLast? ≠ some w := by
  obtain ⟨l₁, l₂, rfl, hw, hsub⟩ := List.cons_sublist_iff.mp h
  intro hlast
  have hne : l₂ ≠ [] := by
    rintro rfl
    simp at hsub
  rw [List.getLast?_append_of_ne_nil _ hne] at hlast
  exact (List.nodup_append.mp hn).2.2 w hw w (List.mem_of_getLast? hlast) rfl

namespace Wakers

variable {ι : Type*} [DecidableEq ι] {s s' : Wakers ι} {owner : Option ι} {t u : ι} {a : Action ι}
  {c : Pc}

lemma coe_append (l l' : List ℕ) : ((l ++ l' : List ℕ) : Multiset ℕ) = l + l' :=
  (Multiset.coe_add l l').symm

lemma stepAt_moves {panics : Bool} (hk : (s.pc t).Knows s.cell)
    (h : s.stepAt t panics (s.pc t) = some s') :
    ∃ c, s'.pc = Function.update s.pc t c ∧ s'.calls = s.calls ∧
      (s'.stored + c.arriving + s'.refused + s'.unwound + s'.wokenByRef : Multiset ℕ) =
        s.stored + (s.pc t).arriving + s.refused + s.unwound + s.wokenByRef ∧
      (s'.cell.waker.toList + c.holds + s'.woken + s'.dropped + s.stored : Multiset ℕ) =
        s.cell.waker.toList + (s.pc t).holds + s.woken + s.dropped + s'.stored := by
  revert h
  generalize s.pc t = c at hk ⊢
  fun_cases stepAt s t panics c <;> rintro ⟨⟩
  -- the two states that an assertion excludes, and the waker that the third one excludes
  case case6 => rcases state_cases s.cell.state with h | h | h | h <;> simp_all
  case case13 =>
    have hreg := hk.1
    rcases state_cases s.cell.state with h | h | h | h <;> simp_all [WAITING, WAKING]
  case case18 => cases hk rfl
  case case10 old w =>
    refine ⟨_, rfl, rfl, ?_, ?_⟩
    · simp only [goto, Pc.arriving, coe_append, Multiset.coe_singleton]
      abel
    · simp only [goto, Pc.holds, coe_append, hk.2, Option.toList_none, Option.toList_some,
        Multiset.coe_nil, Multiset.coe_singleton]
      abel
  case case15 old new panic =>
    refine ⟨_, rfl, rfl, ?_, ?_⟩
    · cases panic <;> simp [Pc.arriving]
    · cases panic with
      | false => simp [Pc.holds]
      | true =>
        have hold : old = none := hk.2.2 rfl
        simp [Pc.holds, hold]
  all_goals
    refine ⟨_, rfl, rfl, ?_, ?_⟩ <;>
      simp only [goto, Pc.arriving, Pc.holds, compareExchange_waker, take_waker,
        fetchOrWaking_waker, fetchAndNotWaking_waker, Option.toList_none, Option.toList_some,
        Multiset.coe_nil, Multiset.coe_singleton, add_zero, zero_add] <;> abel

structure DropsOk (s : Wakers ι) : Prop where
  last : ∀ w, s.cell.waker = some w → s.stored.getLast? = some w
  displaces : ∀ t, (s.pc t).Displaces s.stored
  dropped : ∀ w ∈ s.dropped, ∃ w', [w, w'].Sublist s.stored

lemma DropsOk.quiet (hs : DropsOk s) {v : Wakers ι} (hcell : v.cell.waker = s.cell.waker ∨
    v.cell.waker = none) (hstored : v.stored = s.stored) (hdropped : v.dropped = s.dropped)
    (hpc : v.pc = Function.update s.pc t c) (hc : c.Displaces s.stored) : DropsOk v := by
  refine ⟨fun w hw => ?_, fun u => ?_, ?_⟩
  · rcases hcell with he | he
    · exact hstored ▸ hs.last w (he ▸ hw)
    · rw [he] at hw
      cases hw
  · rw [hpc, hstored]
    exact forall_update (P := fun _ c => Pc.Displaces s.stored c) hc (fun u _ => hs.displaces u) u
  · rw [hdropped, hstored]
    exact hs.dropped

lemma dropsOk_stepAt {panics : Bool} (hl : LockOk s owner) (hs : DropsOk s)
    (h : s.stepAt t panics (s.pc t) = some s') : DropsOk s' := by
  have hd := hs.displaces t
  cases hpc : s.pc t with
  | takeOld w =>
    rw [hpc, stepAt] at h
    obtain rfl := Option.some.inj h
    refine hs.quiet (Or.inr rfl) rfl rfl rfl ?_
    cases hw : s.cell.waker with
    | none => trivial
    | some x => exact hs.last x hw
  | putNew old w =>
    rw [hpc] at hd
    rw [hpc, stepAt] at h
    obtain rfl := Option.some.inj h
    have hin : (s.pc t).owns = true := by rw [hpc]; rfl
    refine ⟨fun x hx => ?_, fun u => ?_, fun x hx => ?_⟩
    · obtain rfl : w = x := Option.some.inj hx
      simp [goto]
    · refine forall_update (P := fun _ c => Pc.Displaces (s.stored ++ [w]) c) ?_ (fun u hu => ?_) u
      · cases old with
        | none => trivial
        | some x =>
          obtain ⟨l, hl⟩ := List.getLast?_eq_some_iff.mp hd
          refine ⟨w, ?_⟩
          rw [hl, List.append_assoc]
          exact List.sublist_append_right l _
      · refine (hs.displaces u).append ?_
        rw [← Bool.not_eq_true]
        exact fun ha => hu (hl.exclusive (Pc.accesses_owns ha) hin)
    · obtain ⟨w', hw'⟩ := hs.dropped x hx
      exact ⟨w', hw'.trans (List.sublist_append_left ..)⟩
  | publish old panic =>
    rw [hpc] at hd
    rw [hpc, stepAt] at h
    split_ifs at h <;> obtain rfl := Option.some.inj h
    · refine hs.quiet (Or.inl (compareExchange_waker ..)) rfl rfl rfl ?_
      cases old <;> exact hd
    · exact hs.quiet (Or.inl rfl) rfl rfl rfl trivial
    · exact hs.quiet (Or.inl rfl) rfl rfl rfl trivial
  | dropOld old =>
    rw [hpc] at hd
    rw [hpc, stepAt] at h
    obtain rfl := Option.some.inj h
    refine ⟨hs.last, fun u => ?_, fun w hw => ?_⟩
    · exact forall_update (c := Pc.idle) (P := fun _ c => Pc.Displaces s.stored c) trivial
        (fun u _ => hs.displaces u) u
    · rcases Multiset.mem_add.mp hw with hw | hw
      · exact hs.dropped w hw
      · obtain rfl : old = some w := by simpa [eq_comm] using hw
        exact hd
  | swap old new panic =>
    rw [hpc, stepAt] at h
    obtain rfl := Option.some.inj h
    cases panic <;> exact hs.quiet (Or.inl rfl) rfl rfl rfl trivial
  | wakeNew new panic =>
    rw [hpc] at h
    cases new with
    | none =>
      obtain rfl := Option.some.inj h
      exact hs.quiet (Or.inl rfl) rfl rfl rfl trivial
    | some w =>
      rw [stepAt] at h
      split_ifs at h <;> obtain rfl := Option.some.inj h <;>
        exact hs.quiet (Or.inl rfl) rfl rfl rfl trivial
  | reclaim | taking =>
    rw [hpc, stepAt] at h
    obtain rfl := Option.some.inj h
    exact hs.quiet (Or.inr rfl) rfl rfl rfl trivial
  | idle | failed => simp [hpc, stepAt] at h
  | _ =>
    rw [hpc, stepAt] at h
    (first | split_ifs at h | skip) <;> obtain rfl := Option.some.inj h <;>
      exact hs.quiet (Or.inl (by simp [goto])) rfl rfl rfl trivial

omit [DecidableEq ι] in
lemma dropsOk_new : DropsOk (new : Wakers ι) := by
  constructor <;> simp [new, AtomicWaker.new, Pc.Displaces]

lemma dropsOk_step (hl : LockOk s owner) (hs : DropsOk s) (h : s.step a = some s') :
    DropsOk s' := by
  cases a with
  | register t | wake t =>
    simp only [step] at h
    split_ifs at h
    obtain rfl := Option.some.inj h
    exact hs.quiet (Or.inl rfl) rfl rfl rfl trivial
  | step t panics => exact dropsOk_stepAt hl hs h

variable [Fintype ι]

structure Balanced (s : Wakers ι) : Prop where
  calls : Multiset.range s.calls =
    s.stored + ∑ t, (s.pc t).arriving + s.refused + s.unwound + s.wokenByRef
  stored : (s.stored : Multiset ℕ) =
    s.cell.waker.toList + ∑ t, (s.pc t).holds + s.woken + s.dropped

omit [DecidableEq ι] in
lemma balanced_new : Balanced (new : Wakers ι) := by
  constructor <;> simp [new, AtomicWaker.new, Pc.arriving, Pc.holds]

lemma Balanced.of_moves {given : Multiset ℕ} (hs : Balanced s)
    (hpc : s'.pc = Function.update s.pc t c)
    (hcalls : Multiset.range s'.calls = Multiset.range s.calls + given)
    (harr : (s'.stored + c.arriving + s'.refused + s'.unwound + s'.wokenByRef : Multiset ℕ) =
      s.stored + (s.pc t).arriving + s.refused + s.unwound + s.wokenByRef + given)
    (hheld : (s'.cell.waker.toList + c.holds + s'.woken + s'.dropped + s.stored : Multiset ℕ) =
      s.cell.waker.toList + (s.pc t).holds + s.woken + s.dropped + s'.stored) : Balanced s' := by
  have hsum := sum_update Pc.arriving s.pc t c
  have hsum' := sum_update Pc.holds s.pc t c
  rw [← hpc] at hsum hsum'
  obtain ⟨hc, hst⟩ := hs
  constructor <;> refine Multiset.ext.mpr fun w => ?_
  · have h₁ := congrArg (Multiset.count w) harr
    have h₂ := congrArg (Multiset.count w) hsum
    have h₃ := congrArg (Multiset.count w) hc
    rw [hcalls]
    simp only [Multiset.count_add] at h₁ h₂ h₃ ⊢
    omega
  · have h₁ := congrArg (Multiset.count w) hheld
    have h₂ := congrArg (Multiset.count w) hsum'
    have h₃ := congrArg (Multiset.count w) hst
    simp only [Multiset.count_add] at h₁ h₂ h₃ ⊢
    omega

lemma balanced_step (hl : LockOk s owner) (hs : Balanced s) (h : s.step a = some s') :
    Balanced s' := by
  cases a with
  | register t =>
    simp only [step] at h
    split_ifs at h with hpc
    obtain rfl := Option.some.inj h
    have hcalls : Multiset.range (s.calls + 1) = Multiset.range s.calls + {s.calls} := by
      rw [Multiset.range_succ, ← Multiset.singleton_add, add_comm]
    refine hs.of_moves rfl hcalls ?_ (by rw [hpc]; rfl)
    simp only [hpc, goto, Pc.arriving]
    abel
  | wake t =>
    simp only [step] at h
    split_ifs at h with hpc
    obtain rfl := Option.some.inj h
    exact hs.of_moves rfl (add_zero _).symm (by rw [hpc, add_zero]; rfl) (by rw [hpc]; rfl)
  | step t panics =>
    obtain ⟨c, hpc, hcalls, harr, hheld⟩ := stepAt_moves (hl.knows t) h
    exact hs.of_moves hpc (by rw [hcalls, add_zero]) (by rw [harr, add_zero]) hheld

omit [DecidableEq ι] in
lemma Balanced.nodup (hs : Balanced s) : s.stored.Nodup := by
  have hle : (s.stored : Multiset ℕ) ≤ Multiset.range s.calls := by
    rw [hs.calls]
    simp only [add_assoc]
    exact Multiset.le_add_right _ _
  exact Multiset.coe_nodup.mp (Multiset.nodup_of_le hle (Multiset.nodup_range _))

omit [DecidableEq ι] in
lemma Balanced.at_rest (hs : Balanced s) (hd : DropsOk s) (hidle : ∀ t, s.pc t = .idle) :
    s.cell.waker = s.stored.getLast? ∨
      s.cell.waker = none ∧ ∃ w ∈ s.woken, s.stored.getLast? = some w := by
  cases hlast : s.stored.getLast? with
  | none =>
    refine Or.inl ?_
    by_contra hne
    obtain ⟨w, hw⟩ := Option.ne_none_iff_exists'.mp hne
    have := hd.last w hw
    simp [hlast] at this
  | some w =>
    cases hcell : s.cell.waker with
    | some x => exact Or.inl ((hd.last x hcell).symm.trans hlast)
    | none =>
      refine Or.inr ⟨rfl, w, ?_, rfl⟩
      have hmem : w ∈ (s.stored : Multiset ℕ) := Multiset.mem_coe.mpr (List.mem_of_getLast? hlast)
      rw [hs.stored, hcell] at hmem
      simp only [hidle, Pc.holds, Finset.sum_const_zero, Option.toList_none, Multiset.coe_nil,
        zero_add] at hmem
      refine (Multiset.mem_add.mp hmem).resolve_right fun hdrop => ?_
      obtain ⟨w', hw'⟩ := hd.dropped w hdrop
      exact not_last_of_sublist hs.nodup hw' hlast

end Wakers

/-- In every run, each waker given to `register_by_ref` is still on its way to the cell or was put
there, once, or was woken by reference, refused or not even made. Of those put into the cell, each
is there, in the hands of one call, woken or dropped, once in all; one is dropped only if another
was put there after it. With no call in progress, the cell holds the waker put there last, or
nothing if that has been woken. -/
theorem wakers_accounted {ι : Type*} [DecidableEq ι] [Fintype ι] (as : List (Action ι))
    (s : Wakers ι) (h : run Wakers.step Wakers.new as = some s) :
    Multiset.range s.calls =
        s.stored + ∑ t, (s.pc t).arriving + s.refused + s.unwound + s.wokenByRef ∧
      (s.stored : Multiset ℕ) =
        s.cell.waker.toList + ∑ t, (s.pc t).holds + s.woken + s.dropped ∧
      (∀ w ∈ s.dropped, ∃ w', [w, w'].Sublist s.stored) ∧
      ((∀ t, s.pc t = .idle) → s.cell.waker = s.stored.getLast? ∨
        s.cell.waker = none ∧ ∃ w ∈ s.woken, s.stored.getLast? = some w) := by
  obtain ⟨-, hb, hd⟩ := run_invariant
    (I := fun s : Wakers ι => (∃ owner, Wakers.LockOk s owner) ∧ s.Balanced ∧ s.DropsOk)
    (fun s a s' ⟨⟨owner, hl⟩, hb, hd⟩ h =>
      ⟨Wakers.lockOk_step hl h, Wakers.balanced_step hl hb h, Wakers.dropsOk_step hl hd h⟩)
    ⟨⟨none, Wakers.lockOk_new⟩, Wakers.balanced_new, Wakers.dropsOk_new⟩ h
  exact ⟨hb.calls, hb.stored, hd.dropped, hb.at_rest hd⟩

def replacedThenWoken : List (Action (Fin 3)) :=
  [.register 0, .step 0 false, .step 0 false, .step 0 false, .step 0 false, .step 0 false,
    .step 0 false, .register 1, .step 1 false, .step 1 false, .step 1 false, .step 1 false,
    .step 1 false, .step 1 false, .wake 2, .step 2 false, .step 2 false, .step 2 false,
    .step 2 false]

theorem wakers_accounted_replacedThenWoken :
    ∃ s, run Wakers.step Wakers.new replacedThenWoken = some s ∧ s.stored = [0, 1] ∧
      Multiset.range s.calls =
        s.stored + ∑ t, (s.pc t).arriving + s.refused + s.unwound + s.wokenByRef ∧
      (s.stored : Multiset ℕ) =
        s.cell.waker.toList + ∑ t, (s.pc t).holds + s.woken + s.dropped ∧
      (∀ w ∈ s.dropped, ∃ w', [w, w'].Sublist s.stored) ∧
      ((∀ t, s.pc t = .idle) → s.cell.waker = s.stored.getLast? ∨
        s.cell.waker = none ∧ ∃ w ∈ s.woken, s.stored.getLast? = some w) :=
  ⟨_, rfl, rfl, wakers_accounted replacedThenWoken _
    (show run Wakers.step Wakers.new replacedThenWoken = some _ from rfl)⟩

end PaQueueAndChan.Waking
