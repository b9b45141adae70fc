import PaQueueAndChan.KeyChannel.KvMpscMultik.Stranded

/-! The table of key states has an entry for the keys that are in use or waited for, and for no
others. That these keys have one is `Wf`; that no other key has one is what every call keeps. -/

namespace PaQueueAndChan.KeyChannel.KvMpscMultik

open Library

namespace ConflictManager

variable {K V : Type} [LinearOrder K] {cm cm' : ConflictManager K V} {k k' : K} {r : StateRef}
  {a : MsgRef} {w w' : WaitingMsg V} {ks : List K} {v : V} {o : Option (List K × V)}
  {succ : WaitingMsgId → Option WaitingMsgId} {order : IterOrder (WaitingMsgId × MsgRef)}

lemma entry_contains (h : cm.entry k = (r, cm')) (hc : cm'.keysStates.contains k' = true) :
    cm.keysStates.contains k' = true ∨ k' = k := by
  unfold entry at h
  split at h <;> obtain ⟨rfl, rfl⟩ := Prod.mk.inj h
  · exact Or.inl hc
  · obtain ⟨r, hr⟩ := FinMap.contains_iff.mp hc
    rw [FinMap.get_insert] at hr
    split_ifs at hr with hk
    · exact Or.inr hk
    · exact Or.inl (FinMap.contains_iff.mpr ⟨r, hr⟩)

lemma entry_contains_cons {cm₁ : ConflictManager K V} (he : cm.entry k' = (r, cm₁))
    (h : cm₁.keysStates.contains k = true ∨ k ∈ ks) :
    cm.keysStates.contains k = true ∨ k ∈ k' :: ks := by
  rcases h with hc | hk
  · exact (entry_contains he hc).imp_right fun hk => List.mem_cons.mpr (Or.inl hk)
  · exact Or.inr (List.mem_cons_of_mem _ hk)

lemma becomeUsing_contains (h : cm.becomeUsing ks = .ok cm')
    (hc : cm'.keysStates.contains k = true) : cm.keysStates.contains k = true ∨ k ∈ ks := by
  induction ks generalizing cm with
  | nil =>
    obtain rfl := Except.ok.inj h
    exact Or.inl hc
  | cons k₀ ks ih =>
    unfold becomeUsing at h
    cases he : cm.entry k₀ with
    | mk r cm₁ =>
    simp only [he, bind_eq_ok, setUse] at h
    obtain ⟨cm₂, h₂, h⟩ := h
    split_ifs at h₂
    obtain rfl := Except.ok.inj h₂
    have hc := ih h
    exact entry_contains_cons he hc

lemma attach_contains (h : attach a w cm ks = .ok (w', cm'))
    (hc : cm'.keysStates.contains k = true) : cm.keysStates.contains k = true ∨ k ∈ ks := by
  induction ks generalizing cm w with
  | nil =>
    obtain ⟨rfl, rfl⟩ := Prod.mk.inj (Except.ok.inj h)
    exact Or.inl hc
  | cons k₀ ks ih =>
    cases he : cm.entry k₀ with
    | mk r cm₁ =>
    simp only [attach, he, bind_eq_ok] at h
    obtain ⟨w₁, hw₁, h⟩ := h
    have hc := ih h
    exact entry_contains_cons he hc

lemma handleNewMsg_contains (h : cm.handleNewMsg succ ks v = .ok (o, cm'))
    (hc : cm'.keysStates.contains k = true) : cm.keysStates.contains k = true ∨ k ∈ ks := by
  unfold handleNewMsg at h
  split_ifs at h
  · simp only [bind_eq_ok, newWaitingMsg] at h
    obtain ⟨⟨w, cm₀⟩, h₀, ⟨w₁, cm₁⟩, h₁, h⟩ := h
    split at h₀
    · obtain ⟨rfl, rfl⟩ := Prod.mk.inj (Except.ok.inj h₀)
      split_ifs at h
      obtain ⟨rfl, rfl⟩ := Prod.mk.inj (pure_eq_ok.mp h)
      exact (attach_contains h₁ hc).imp_right List.mem_reverse.mp
    · cases h₀
  · simp only [bind_eq_ok, pure_eq_ok, Prod.mk.injEq] at h
    obtain ⟨cm₁, h₁, rfl, rfl⟩ := h
    exact becomeUsing_contains h₁ hc

lemma unuseDropedKey_kept (h : cm.unuseDropedKey order k = .ok (none, cm'))
    (hr : cm'.keysStates.get k = some r) : (cm'.heap r).waitingmsgs.isEmpty = false := by
  unfold unuseDropedKey at h
  cases hk : cm.keysStates.get k with
  | none => simp [hk] at h
  | some self =>
    simp only [hk, bind_eq_ok] at h
    obtain ⟨cm₀, h₀, ⟨found, cm₂⟩, h₂, h⟩ := h
    cases found with
    | some id =>
      dsimp only at h
      split at h
      · simp only [bind_eq_ok, pure_eq_ok, Prod.mk.injEq, reduceCtorEq, false_and, and_false,
          exists_false] at h
      · cases h
    | none =>
      dsimp only at h
      split_ifs at h with he
      · obtain ⟨-, rfl⟩ := Prod.mk.inj (pure_eq_ok.mp h)
        simp at hr
      · obtain ⟨-, rfl⟩ := Prod.mk.inj (pure_eq_ok.mp h)
        obtain ⟨rfl, -⟩ := tryGetStopWaitingMsg_none h₂
        unfold setUnuse at h₀
        split_ifs at h₀
        obtain rfl := Except.ok.inj h₀
        obtain rfl := Option.some.inj (hk.symm.trans hr)
        exact Bool.eq_false_iff.mpr he

def Tight (cm : ConflictManager K V) : Prop :=
  ∀ k, cm.keysStates.contains k = true → cm.admission.Needed Prod.fst k

lemma tight_new : Tight (new : ConflictManager K V) := by
  intro k hc
  simp [new, FinMap.contains_iff] at hc

lemma Tight.handleNewMsg (ht : Tight cm) (hw : Wf cm)
    (h : cm.handleNewMsg succ ks v = .ok (o, cm')) : Tight cm' := by
  intro k hc
  refine ((handleNewMsg_arrived hw h).arrive hw).needed.mpr ?_
  exact (handleNewMsg_contains h hc).imp_left (ht k)

lemma Wf.needed_of_get {id : WaitingMsgId} {rs : List StateRef} (hw : Wf cm)
    (hid : cm.waitingmsgs.get id = some (a, w)) (hrs : w.ksV = some (rs, v)) (hr : r ∈ rs)
    (hk : cm.keysStates.get k = some r) : cm.admission.Needed Prod.fst k := by
  obtain ⟨rs', v', m, rfl, htake, hmem, -⟩ := hw.waits hid
  obtain ⟨rfl, rfl⟩ := Prod.mk.inj (Option.some.inj hrs)
  exact Or.inr ⟨m, mem_waiting.mpr ⟨id, a, _, hid, htake⟩, (hmem k).mpr ⟨r, hr, hk⟩⟩

lemma Tight.unuseDropedKey (ht : Tight cm) (hw : Wf cm)
    (h : cm.unuseDropedKey order k = .ok (o, cm')) : Tight cm' := by
  have hrel := unuseDropedKey_released hw h
  have hneed := fun k' (hne : k' ≠ k) => (hrel.release hw).needed hne
  intro k' hc
  obtain ⟨r, hr⟩ := FinMap.contains_iff.mp hc
  cases hrel with
  | @kept self hk hu hall =>
    by_cases hne : k' = k
    · subst hne
      obtain rfl := Option.some.inj (hk.symm.trans hr)
      -- the table holds a message, and the search found it waiting for another key
      have hempty := unuseDropedKey_kept h hr
      rw [setInUse_table, Bool.eq_false_iff, ne_eq, FinMap.isEmpty_iff, not_forall] at hempty
      obtain ⟨id, hid⟩ := hempty
      obtain ⟨a, ha⟩ := Option.ne_none_iff_exists'.mp hid
      obtain ⟨w, rs, v, hup, hrs, -⟩ := hall id a ha
      obtain ⟨id', hid'⟩ := (upgrade_eq_some hw).mp hup
      obtain ⟨-, rs', v', hrs', hself⟩ := hw.table_ok hk ha hid'
      have hw' : Wf (cm.setInUse self false) := FlagsOnly.refl.setInUse.wf hw
      exact hw'.needed_of_get hid' hrs' hself hk
    · exact (hneed k' hne).mpr (ht k' (FinMap.contains_iff.mpr ⟨r, hr⟩))
  | forgotten hk hu he =>
    obtain ⟨hne, hr⟩ := FinMap.get_erase_eq_some.mp hr
    exact (hneed k' hne).mpr (ht k' (FinMap.contains_iff.mpr ⟨r, hr⟩))
  | @handedOver self id a rs v m cm₁ hk hu ha hid htake hself hfree hf hset =>
    rw [setWaitingmsgs_keysStates, hf.keysStates] at hr
    by_cases hne : k' = k
    · subst hne
      obtain rfl := Option.some.inj (hk.symm.trans hr)
      refine Or.inl ⟨self, (congrArg (·.get k') hf.keysStates).trans hk, ?_⟩
      exact setWaitingmsgs_inUse.trans ((hset self).mpr (Or.inr hself))
    · exact (hneed k' hne).mpr (ht k' (FinMap.contains_iff.mpr ⟨r, hr⟩))

lemma Tight.unuseAllDropedKey {order : ℕ → IterOrder (WaitingMsgId × MsgRef)}
    {dropq rest : List K} (ht : Tight cm) (hw : Wf cm)
    (h : cm.unuseAllDropedKey order dropq = .ok (o, cm', rest)) : Tight cm' := by
  induction dropq generalizing cm with
  | nil =>
    obtain ⟨rfl, rfl, rfl⟩ := by simpa [ConflictManager.unuseAllDropedKey] using h
    exact ht
  | cons k dropq ih =>
    simp only [ConflictManager.unuseAllDropedKey, bind_eq_ok] at h
    obtain ⟨⟨found, cm₁⟩, h₁, h⟩ := h
    have ht₁ := ht.unuseDropedKey hw h₁
    cases found with
    | some ksV =>
      obtain ⟨rfl, rfl, rfl⟩ := by simpa using h
      exact ht₁
    | none => exact ih ht₁ ((unuseDropedKey_released hw h₁).wf hw) h

def WaitedFor (cm : ConflictManager K V) (k : K) : Prop :=
  ∃ id a w rs v, cm.waitingmsgs.get id = some (a, w) ∧ w.ksV = some (rs, v) ∧
    ∃ r ∈ rs, (cm.heap r).k = some k

lemma Wf.waitedFor_iff (hw : Wf cm) :
    cm.WaitedFor k ↔ ∃ m ∈ cm.admission.waiting, k ∈ m.1 := by
  simp only [WaitedFor, mem_waiting]
  constructor
  · rintro ⟨id, a, w, rs, v, hid, hrs, r, hr, hkr⟩
    obtain ⟨rs', v', m, rfl, htake, -⟩ := hw.waits hid
    obtain ⟨rfl, rfl⟩ := Prod.mk.inj (Option.some.inj hrs)
    exact ⟨m, ⟨id, a, _, hid, htake⟩, (mem_takeKv htake).mpr ⟨r, hr, hkr⟩⟩
  · rintro ⟨m, ⟨id, a, w, hid, htake⟩, hkm⟩
    obtain ⟨rs, v, m', rfl, -⟩ := hw.waits hid
    exact ⟨id, a, _, rs, v, hid, rfl, (mem_takeKv htake).mp hkm⟩

lemma Wf.contains_of_needed (hw : Wf cm) (h : cm.admission.Needed Prod.fst k) :
    cm.keysStates.contains k = true := by
  rcases h with ⟨r, hr, -⟩ | ⟨m, hm, hkm⟩
  · exact FinMap.contains_iff.mpr ⟨r, hr⟩
  · obtain ⟨id, a, w, hid, htake⟩ := mem_waiting.mp hm
    obtain ⟨rs, v, m', rfl, htake', hmem, -⟩ := hw.waits hid
    obtain rfl := Except.ok.inj (htake.symm.trans htake')
    obtain ⟨r, -, hkr⟩ := (hmem k).mp hkm
    exact FinMap.contains_iff.mpr ⟨r, hkr⟩

end ConflictManager

open ConflictManager

variable {K V : Type} [LinearOrder K] {succ : WaitingMsgId → Option WaitingMsgId}

lemma tight_call {s s' : Calls K V} {c : Call K V} (hw : Wf s.cm) (ht : Tight s.cm)
    (h : s.call succ c = some s') : Tight s'.cm := by
  cases c with
  | handleNewMsg ks v =>
    simp only [Calls.call] at h
    split at h
    · obtain rfl := Option.some.inj h
      exact ht.handleNewMsg hw ‹_›
    · cases h
  | unuseAllDropedKey order dropq =>
    simp only [Calls.call] at h
    split at h
    · obtain rfl := Option.some.inj h
      exact ht.unuseAllDropedKey hw ‹_›
    · cases h

structure KeysStatesExact (s : Calls K V) : Prop where
  present : ∀ k, s.cm.keysStates.contains k = true ↔ s.cm.Using k ∨ s.cm.WaitedFor k
  -- in use are the keys of the messages returned, each until it is processed
  inUse : ∀ k, s.cm.Using k ↔ s.processed.count k < s.delivered.countP fun m => k ∈ m.1
  stored : ∀ id a w, s.cm.waitingmsgs.get id = some (a, w) → ∃ rs v, w.ksV = some (rs, v) ∧
    ∀ r ∈ rs, ∃ k, (s.cm.heap r).k = some k ∧ s.cm.keysStates.get k = some r
  empty : s.cm.waitingmsgs.isEmpty = true →
    (s.delivered.flatMap Prod.fst : Multiset K) ≤ s.processed → s.cm.keysStates.isEmpty = true

theorem keys_states_exact (calls : List (Call K V)) (s : Calls K V)
    (h : run (Calls.call succ) Calls.new calls = some s) : KeysStatesExact s := by
  obtain ⟨hs, ht⟩ := run_invariant
    (I := fun s : Calls K V => CallsOk s.cm s.delivered s.processed ∧ Tight s.cm)
    (fun s c s' hs h => ⟨callsOk_call hs.1 h, tight_call hs.1.wf hs.2 h⟩)
    ⟨callsOk_new, tight_new⟩ h
  have hneed : ∀ k, s.cm.keysStates.contains k = true ↔ s.cm.admission.Needed Prod.fst k :=
    fun k => ⟨ht k, hs.wf.contains_of_needed⟩
  refine ⟨fun k => ?_, fun k => ?_, fun id a w hid => ?_, fun _ hall => ?_⟩
  · rw [hneed, hs.wf.waitedFor_iff]
    rfl
  · obtain ⟨hused, hfree⟩ := hs.ledger k
    by_cases hk : s.cm.Using k
    · simp [hk, hused hk]
    · simp [hk, hfree hk]
  · obtain ⟨-, rs, v, rfl, hrs⟩ := hs.wf.msg_ok hid
    refine ⟨rs, v, rfl, fun r hr => ?_⟩
    obtain ⟨⟨k, hk⟩, -⟩ := hrs r hr
    exact ⟨k, (hs.wf.key_of hk).2, hk⟩
  · have hheld := hs.ledger.held_eq_empty hall
    rw [FinMap.isEmpty_iff]
    intro k
    rw [← FinMap.contains_eq_false, Bool.eq_false_iff, ne_eq, hneed]
    simp [Admission.Needed, hheld, hs.noStranded.waiting_eq_zero hheld]

theorem keys_states_exact_oneHandedOver :
    ∃ s, run (Calls.call succChecked) Calls.new oneHandedOver = some s ∧
      s.cm.keysStates.keys = [1, 2] ∧ KeysStatesExact s :=
  ⟨_, rfl, rfl, keys_states_exact oneHandedOver _
    (show run (Calls.call succChecked) Calls.new oneHandedOver = some _ from rfl)⟩

end PaQueueAndChan.KeyChannel.KvMpscMultik
