import PaQueueAndChan.KeyChannel.KvMpscMultik.Coherence
import PaQueueAndChan.Library.Admission

/-! One message given to `handle_new_msg`. Where it does not panic, it is an arrival of the
admission machine, and of a message with distinct keys it panics only on the id counter. -/

namespace PaQueueAndChan.KeyChannel.KvMpscMultik.ConflictManager

open Library

variable {K V : Type} [LinearOrder K] {cm cm' : ConflictManager K V} {k k' : K} {r : StateRef}
  {id : WaitingMsgId} {a : MsgRef} {w : WaitingMsg V} {ks : List K} {rs : List StateRef} {v : V}
  {e : Panic} {succ : WaitingMsgId → Option WaitingMsgId} {o : Option (List K × V)}

structure Grows (cm cm' : ConflictManager K V) : Prop where
  nextMsg : cm'.nextMsg = cm.nextMsg
  waitingmsgs : cm'.waitingmsgs = cm.waitingmsgs
  nextWaitingmsgId : cm'.nextWaitingmsgId = cm.nextWaitingmsgId
  attached : ∀ ⦃k r⦄, cm.keysStates.get k = some r → cm'.keysStates.get k = some r
  kept : ∀ ⦃k r⦄, cm.keysStates.get k = some r → cm'.heap r = cm.heap r
  fresh : ∀ ⦃k r⦄, cm'.keysStates.get k = some r → cm.keysStates.get k = some r ∨
    cm'.isUsing r = false ∧ (cm'.heap r).waitingmsgs = .empty

lemma Grows.refl : Grows cm cm :=
  ⟨rfl, rfl, rfl, fun _ _ h => h, fun _ _ _ => rfl, fun _ _ h => Or.inl h⟩

lemma Grows.listed (h : Grows cm cm') : cm'.Listed k id a ↔ cm.Listed k id a := by
  constructor
  · rintro ⟨r, hr, ht⟩
    rcases h.fresh hr with hold | ⟨-, hempty⟩
    · exact ⟨r, hold, by rwa [h.kept hold] at ht⟩
    · simp [hempty] at ht
  · rintro ⟨r, hr, ht⟩
    exact ⟨r, h.attached hr, by rwa [h.kept hr]⟩

lemma Grows.admission (h : Grows cm cm') (hw : Wf cm) : cm'.admission = cm.admission := by
  have hheld : cm'.admission.held = cm.admission.held := by
    ext k
    constructor
    · rintro ⟨r, hr, hu⟩
      rcases h.fresh hr with hold | ⟨hn, -⟩
      · exact ⟨r, hold, by rwa [isUsing, h.kept hold] at hu⟩
      · rw [hn] at hu
        cases hu
    · rintro ⟨r, hr, hu⟩
      exact ⟨r, h.attached hr, by rwa [isUsing, h.kept hr]⟩
  have hwait : cm'.admission.waiting = cm.admission.waiting := by
    change cm'.pairs cm'.waitingmsgs = cm.pairs cm.waitingmsgs
    rw [h.waitingmsgs]
    refine pairs_congr fun id a w hid => takeKv_congr fun rs v hrs r hr => ?_
    obtain ⟨-, rs', v', rfl, hall⟩ := hw.msg_ok hid
    obtain ⟨rfl, rfl⟩ := Prod.mk.inj (Option.some.inj hrs)
    obtain ⟨⟨k, hk⟩, -⟩ := hall r hr
    rw [h.kept hk]
  rw [show cm'.admission = ⟨cm'.admission.held, cm'.admission.waiting⟩ from rfl, hheld, hwait]

lemma entry_grows (hw : Wf cm) (h : cm.entry k = (r, cm')) :
    Grows cm cm' ∧ Wf cm' ∧ cm'.keysStates.get k = some r := by
  unfold entry at h
  split at h <;> obtain ⟨rfl, rfl⟩ := Prod.mk.inj h
  · rename_i hk
    exact ⟨.refl, hw, hk⟩
  · rename_i hk
    have hold : ∀ {k' r'}, cm.keysStates.get k' = some r' → r' ≠ cm.nextState := fun h =>
      (hw.key_of h).1.ne
    have hkeys : ∀ {k' r'}, (cm.keysStates.insert k cm.nextState).get k' = some r' →
        k' = k ∧ r' = cm.nextState ∨ cm.keysStates.get k' = some r' := by
      intro k' r' h
      rw [FinMap.get_insert] at h
      split_ifs at h with hkk
      · exact Or.inl ⟨hkk, (Option.some.inj h).symm⟩
      · exact Or.inr h
    have hne : ∀ {k' r'}, cm.keysStates.get k' = some r' → k' ≠ k := by
      rintro k' r' hr rfl
      rw [hk] at hr
      cases hr
    refine ⟨⟨rfl, rfl, rfl, fun k' r' h => ?_, fun k' r' h => ?_, fun k' r' h => ?_⟩,
      ⟨?_, ?_, ?_, ?_, ?_⟩, FinMap.get_insert_self⟩
    · rwa [FinMap.get_insert_of_ne (hne h)]
    · exact Function.update_of_ne (hold h) ..
    · rcases hkeys h with ⟨rfl, rfl⟩ | h
      · exact Or.inr ⟨by simp [isUsing], by simp⟩
      · exact Or.inl h
    · intro k' r' h
      rcases hkeys h with ⟨rfl, rfl⟩ | h
      · exact ⟨Nat.lt_succ_self _, by simp⟩
      · refine ⟨(hw.key_of h).1.trans (Nat.lt_succ_self _), ?_⟩
        simpa [Function.update_of_ne (hold h)] using (hw.key_of h).2
    · intro id a w h
      obtain ⟨ha, rs, v, rfl, hrs⟩ := hw.msg_ok h
      refine ⟨ha, rs, v, rfl, fun r' hr' => ?_⟩
      obtain ⟨⟨k', hk'⟩, ht⟩ := hrs r' hr'
      exact ⟨⟨k', by rwa [FinMap.get_insert_of_ne (hne hk')]⟩,
        by simpa [Function.update_of_ne (hold hk')] using ht⟩
    · exact hw.addr_inj
    · intro k' r' id a h ht
      rcases hkeys h with ⟨rfl, rfl⟩ | h
      · simp at ht
      · exact hw.table_lt h (by simpa [Function.update_of_ne (hold h)] using ht)
    · intro k' r' id a id' w h ht
      rcases hkeys h with ⟨rfl, rfl⟩ | h
      · simp at ht
      · exact hw.table_ok h (by simpa [Function.update_of_ne (hold h)] using ht)

lemma becomeUsing_ok (hw : Wf cm) (h : cm.becomeUsing ks = .ok cm') :
    Wf cm' ∧ ks.Nodup ∧ (∀ k ∈ ks, k ∉ cm.admission.held) ∧
      cm'.admission.held = cm.admission.held ∪ {k | k ∈ ks} ∧
      cm'.admission.waiting = cm.admission.waiting := by
  induction ks generalizing cm with
  | nil =>
    obtain rfl := Except.ok.inj h
    exact ⟨hw, .nil, by simp, by simp, rfl⟩
  | cons k ks ih =>
    unfold becomeUsing at h
    cases he : cm.entry k with
    | mk r cm₁ =>
    obtain ⟨hg, hw₁, hk⟩ := entry_grows hw he
    simp only [he, bind_eq_ok, setUse] at h
    obtain ⟨cm₂, h₂, h⟩ := h
    split_ifs at h₂ with hu
    obtain rfl := Except.ok.inj h₂
    obtain ⟨hw', hn, hfree, hheld, hwait⟩ := ih (FlagsOnly.refl.setInUse.wf hw₁) h
    have hset : ∀ k', k' ∈ (cm₁.setInUse r true).admission.held ↔
        k' = k ∨ k' ∈ cm.admission.held := by
      intro k'
      rw [held_setInUse hw₁ hk, hg.admission hw]
      split_ifs with h <;> simp [h]
    simp only [hset, not_or] at hfree
    refine ⟨hw', List.nodup_cons.mpr ⟨fun hm => (hfree k hm).1 rfl, hn⟩, ?_, ?_, ?_⟩
    · intro k' hk'
      rcases List.mem_cons.mp hk' with rfl | hk'
      · rw [← hg.admission hw]
        exact fun hheld => hu ((using_iff hk).mp hheld)
      · exact (hfree k' hk').2
    · ext k'
      simp only [hheld, Set.mem_union, hset, Set.mem_ofPred_eq, List.mem_cons]
      tauto
    · rw [hwait, FlagsOnly.refl.setInUse.waiting, hg.admission hw]

lemma becomeUsing_frame (hw : Wf cm) (h : cm.becomeUsing ks = .ok cm') :
    cm'.waitingmsgs = cm.waitingmsgs ∧ cm'.nextWaitingmsgId = cm.nextWaitingmsgId ∧
      cm'.nextMsg = cm.nextMsg ∧
      (∀ k r, cm.keysStates.get k = some r → cm'.keysStates.get k = some r) ∧
      ∀ k id a, cm'.Listed k id a ↔ cm.Listed k id a := by
  induction ks generalizing cm with
  | nil =>
    obtain rfl := Except.ok.inj h
    exact ⟨rfl, rfl, rfl, fun _ _ h => h, fun _ _ _ => Iff.rfl⟩
  | cons k ks ih =>
    unfold becomeUsing at h
    cases he : cm.entry k with
    | mk r cm₁ =>
    obtain ⟨hg, hw₁, hk⟩ := entry_grows hw he
    simp only [he, bind_eq_ok, setUse] at h
    obtain ⟨cm₂, h₂, h⟩ := h
    split_ifs at h₂
    obtain rfl := Except.ok.inj h₂
    obtain ⟨hwm, hid, hnm, hatt, hlist⟩ := ih (FlagsOnly.refl.setInUse.wf hw₁) h
    exact ⟨hwm.trans hg.waitingmsgs, hid.trans hg.nextWaitingmsgId, hnm.trans hg.nextMsg,
      fun k r hk => hatt k r (hg.attached hk),
      fun k id a => (hlist k id a).trans (FlagsOnly.refl.setInUse.listed.trans hg.listed)⟩

lemma becomeUsing_error (hw : Wf cm) (h : cm.becomeUsing ks = .error e) :
    e = .setUse ∧ (ks.Nodup → ∃ k ∈ ks, k ∈ cm.admission.held) := by
  induction ks generalizing cm with
  | nil => cases h
  | cons k ks ih =>
    unfold becomeUsing at h
    cases he : cm.entry k with
    | mk r cm₁ =>
    obtain ⟨hg, hw₁, hk⟩ := entry_grows hw he
    simp only [he, bind_eq_error, setUse] at h
    split_ifs at h with hu
    · obtain rfl : Panic.setUse = e := by simpa using h
      refine ⟨rfl, fun _ => ⟨k, List.mem_cons_self .., ?_⟩⟩
      rw [← hg.admission hw]
      exact (using_iff hk).mpr hu
    · simp only [false_or, Except.ok.injEq, exists_eq_left'] at h
      obtain ⟨rfl, hheld⟩ := ih (FlagsOnly.refl.setInUse.wf hw₁) h
      refine ⟨rfl, fun hn => ?_⟩
      obtain ⟨hkn, hn⟩ := List.nodup_cons.mp hn
      obtain ⟨k', hk', hin⟩ := hheld hn
      rw [held_setInUse hw₁ hk, hg.admission hw, if_neg] at hin
      · exact ⟨k', List.mem_cons_of_mem k hk', hin⟩
      · rintro rfl
        exact hkn hk'

/-- The message at `a`, not yet in the map, has been given the key states `rs`. -/
structure Pending (cm : ConflictManager K V) (a : MsgRef) (id : WaitingMsgId)
    (rs : List StateRef) : Prop where
  absent : cm.waitingmsgs.get id = none
  lt : a < cm.nextMsg
  dead : ∀ id' w, cm.waitingmsgs.get id' ≠ some (a, w)
  listed : ∀ r ∈ rs, (∃ k, cm.keysStates.get k = some r) ∧
    (cm.heap r).waitingmsgs.get id = some a
  only : ∀ ⦃k r id'⦄, cm.keysStates.get k = some r →
    (cm.heap r).waitingmsgs.get id' = some a → id' = id ∧ r ∈ rs

lemma Grows.pending (h : Grows cm cm') (hp : Pending cm a id rs) : Pending cm' a id rs := by
  refine ⟨by rw [h.waitingmsgs]; exact hp.absent, by rw [h.nextMsg]; exact hp.lt,
    by rw [h.waitingmsgs]; exact hp.dead, fun r hr => ?_, fun k r id' hk ht => ?_⟩
  · obtain ⟨⟨k, hk⟩, ht⟩ := hp.listed r hr
    exact ⟨⟨k, h.attached hk⟩, by rwa [h.kept hk]⟩
  · rcases h.fresh hk with hk | ⟨-, hempty⟩
    · rw [h.kept hk] at ht
      exact hp.only hk ht
    · rw [hempty, FinMap.get_empty] at ht
      cases ht

lemma addWaitingmsg_table {r' : StateRef} {id' : WaitingMsgId} :
    ((cm.addWaitingmsg r id a).heap r').waitingmsgs.get id' =
      if r' = r ∧ id' = id then some a else (cm.heap r').waitingmsgs.get id' := by
  rw [addWaitingmsg, setWaitingmsgs_table]
  by_cases hr : r' = r
  · subst hr
    simp [FinMap.get_insert]
  · simp [hr]

lemma Pending.addWaitingmsg (hp : Pending cm a id rs) (hw : Wf cm)
    (hk : cm.keysStates.get k = some r) :
    Pending (cm.addWaitingmsg r id a) a id (rs ++ [r]) ∧ Wf (cm.addWaitingmsg r id a) := by
  refine ⟨⟨hp.absent, hp.lt, hp.dead, fun r' hr' => ?_, fun k' r' id' hk' ht => ?_⟩,
    ⟨fun k' r' h => ?_, fun id' a' w h => ?_, hw.addr_inj, fun k' r' id' a' h ht => ?_,
      fun k' r' id' a' id'' w h ht hid => ?_⟩⟩
  · rw [addWaitingmsg_table]
    split_ifs with h
    · exact ⟨⟨k, h.1 ▸ hk⟩, rfl⟩
    · rcases List.mem_append.mp hr' with hr' | hr'
      · exact hp.listed r' hr'
      · exact (h ⟨List.mem_singleton.mp hr', rfl⟩).elim
  · rw [addWaitingmsg_table] at ht
    split_ifs at ht with h
    · exact ⟨h.2, by simp [h.1]⟩
    · obtain ⟨hid, hr⟩ := hp.only hk' ht
      exact ⟨hid, List.mem_append_left _ hr⟩
  · simpa [ConflictManager.addWaitingmsg] using hw.key_of h
  · obtain ⟨ha, rs', v, rfl, hrs⟩ := hw.msg_ok h
    refine ⟨ha, rs', v, rfl, fun r' hr' => ⟨(hrs r' hr').1, ?_⟩⟩
    rw [addWaitingmsg_table, if_neg]
    · exact (hrs r' hr').2
    · rintro ⟨-, rfl⟩
      have h : cm.waitingmsgs.get id' = _ := h
      rw [hp.absent] at h
      cases h
  · rw [addWaitingmsg_table] at ht
    split_ifs at ht
    · exact Option.some.inj ht ▸ hp.lt
    · exact hw.table_lt h ht
  · rw [addWaitingmsg_table] at ht
    split_ifs at ht
    · obtain rfl := Option.some.inj ht
      exact (hp.dead _ _ hid).elim
    · exact hw.table_ok h ht hid

lemma addWaitingmsg_admission : (cm.addWaitingmsg r id a).admission = cm.admission := by
  have hwait : (cm.addWaitingmsg r id a).admission.waiting = cm.admission.waiting :=
    waiting_congr rfl fun _ => setWaitingmsgs_k
  have hheld : (cm.addWaitingmsg r id a).admission.held = cm.admission.held := by
    ext k
    simp [admission, Using, isUsing, addWaitingmsg]
  rw [show (cm.addWaitingmsg r id a).admission = ⟨(cm.addWaitingmsg r id a).admission.held,
    (cm.addWaitingmsg r id a).admission.waiting⟩ from rfl, hheld, hwait]

lemma addWaitingmsg_listed {id' : WaitingMsgId} {a' : MsgRef}
    (h : (cm.addWaitingmsg r id a).Listed k id' a') : cm.Listed k id' a' ∨ id' = id ∧ a' = a := by
  obtain ⟨r', hr', ht⟩ := h
  rw [addWaitingmsg_table] at ht
  split_ifs at ht with hrid
  · exact Or.inr ⟨hrid.2, (Option.some.inj ht).symm⟩
  · exact Or.inl ⟨r', hr', ht⟩

lemma Listed.addWaitingmsg {id' : WaitingMsgId} {a' : MsgRef} (h : cm.Listed k id' a')
    (hne : id' ≠ id) : (cm.addWaitingmsg r id a).Listed k id' a' := by
  obtain ⟨r', hr', ht⟩ := h
  refine ⟨r', hr', ?_⟩
  rwa [addWaitingmsg_table, if_neg fun hrid => hne hrid.2]

structure AttachedTo (cm cm' : ConflictManager K V) (a : MsgRef) (id : WaitingMsgId) (ks : List K)
    (rs rs' : List StateRef) : Prop where
  wf : Wf cm'
  pending : Pending cm' a id (rs ++ rs')
  admission : cm'.admission = cm.admission
  attached : ∀ ⦃k r⦄, cm.keysStates.get k = some r → cm'.keysStates.get k = some r
  waitingmsgs : cm'.waitingmsgs = cm.waitingmsgs
  nextWaitingmsgId : cm'.nextWaitingmsgId = cm.nextWaitingmsgId
  listed : ∀ ⦃k id' a'⦄, cm'.Listed k id' a' → cm.Listed k id' a' ∨ id' = id ∧ a' = a
  kept : ∀ ⦃k id' a'⦄, id' ≠ id → cm.Listed k id' a' → cm'.Listed k id' a'
  states : List.Forall₂ (fun k r => cm'.keysStates.get k = some r) ks rs'

lemma attach_spec (v : V) (ks : List K) (hw : Wf cm) (hp : Pending cm a id rs) :
    ∃ rs' cm', attach a ⟨some (rs, v), id⟩ cm ks = .ok (⟨some (rs ++ rs', v), id⟩, cm') ∧
      AttachedTo cm cm' a id ks rs rs' := by
  induction ks generalizing cm rs with
  | nil =>
    exact ⟨[], cm, by simp [attach], hw, by simpa using hp, rfl, fun _ _ h => h, rfl, rfl,
      fun _ _ _ h => Or.inl h, fun _ _ _ _ h => h, .nil⟩
  | cons k ks ih =>
    cases he : cm.entry k with
    | mk r cm₁ =>
    obtain ⟨hg, hw₁, hk⟩ := entry_grows hw he
    obtain ⟨hp₂, hw₂⟩ := (hg.pending hp).addWaitingmsg hw₁ hk
    obtain ⟨rs', cm', h, hat⟩ := ih hw₂ hp₂
    refine ⟨r :: rs', cm', ?_, hat.wf, by simpa using hat.pending, ?_, fun k' r' h => ?_, ?_, ?_,
      fun k' id' a' h => ?_, fun k' id' a' hne h => ?_, .cons ?_ hat.states⟩
    · simp only [attach, he, bind_eq_ok]
      exact ⟨_, rfl, by simpa using h⟩
    · rw [hat.admission, addWaitingmsg_admission, hg.admission hw]
    · exact hat.attached (hg.attached h)
    · exact hat.waitingmsgs.trans hg.waitingmsgs
    · exact hat.nextWaitingmsgId.trans hg.nextWaitingmsgId
    · rcases hat.listed h with h | h
      · exact (addWaitingmsg_listed h).imp_left hg.listed.mp
      · exact Or.inr h
    · exact hat.kept hne ((hg.listed.mpr h).addWaitingmsg hne)
    · exact hat.attached hk

lemma attach_frame {w' : WaitingMsg V} (h : attach a w cm ks = .ok (w', cm')) :
    cm'.waitingmsgs = cm.waitingmsgs ∧ w'.id = w.id := by
  induction ks generalizing cm w with
  | nil =>
    obtain ⟨rfl, rfl⟩ := Prod.mk.inj (Except.ok.inj h)
    exact ⟨rfl, rfl⟩
  | cons k ks ih =>
    simp only [attach, bind_eq_ok] at h
    obtain ⟨w₁, hw₁, h⟩ := h
    obtain ⟨hwm, hid⟩ := ih h
    have hentry : (cm.entry k).2.waitingmsgs = cm.waitingmsgs := by
      unfold entry
      split <;> rfl
    refine ⟨hwm.trans hentry, hid.trans ?_⟩
    unfold WaitingMsg.addKstate at hw₁
    split at hw₁
    · rw [← Except.ok.inj hw₁]
    · cases hw₁

lemma attach_ne_error : attach a ⟨some (rs, v), id⟩ cm ks ≠ .error e := by
  induction ks generalizing cm rs with
  | nil => simp [attach]
  | cons k ks ih => simpa [attach, WaitingMsg.addKstate] using ih

lemma anyUsing_iff : cm.anyUsing ks = true ↔ ∃ k ∈ ks, k ∈ cm.admission.held := by
  simp only [anyUsing, List.any_eq_true]
  refine exists_congr fun k => and_congr_right fun _ => ?_
  cases hk : cm.keysStates.get k with
  | none => simp [admission, Using, hk]
  | some r => exact (using_iff hk).symm

def allocated (cm : ConflictManager K V) (next : WaitingMsgId) : ConflictManager K V :=
  { cm with nextWaitingmsgId := next, nextMsg := cm.nextMsg + 1 }

lemma Wf.allocated (hw : Wf cm) (next : WaitingMsgId) : Wf (cm.allocated next) := by
  refine ⟨hw.key_of, fun id a w h => ?_, hw.addr_inj, fun k r id a hk h => ?_, hw.table_ok⟩
  · exact ⟨(hw.msg_ok h).1.trans (Nat.lt_succ_self _), (hw.msg_ok h).2⟩
  · exact (hw.table_lt hk h).trans (Nat.lt_succ_self _)

lemma Wf.pending (hw : Wf cm) (next : WaitingMsgId) (h : cm.waitingmsgs.get id = none) :
    Pending (cm.allocated next) cm.nextMsg id [] := by
  refine ⟨h, Nat.lt_succ_self _, fun id' w hid => ?_, by simp, fun k r id' hk ht => ?_⟩
  · exact (hw.msg_ok hid).1.false
  · exact ((hw.table_lt hk ht).false).elim

lemma Pending.insert (hp : Pending cm a id rs) (hw : Wf cm) :
    Wf { cm with waitingmsgs := cm.waitingmsgs.insert id (a, ⟨some (rs, v), id⟩) } := by
  have hget : ∀ {id' a' w'}, (cm.waitingmsgs.insert id (a, ⟨some (rs, v), id⟩)).get id' =
      some (a', w') → id' = id ∧ a' = a ∧ w' = ⟨some (rs, v), id⟩ ∨
        a' ≠ a ∧ cm.waitingmsgs.get id' = some (a', w') := by
    intro id' a' w' h
    rw [FinMap.get_insert] at h
    split_ifs at h with hid
    · obtain ⟨rfl, rfl⟩ := Prod.mk.inj (Option.some.inj h)
      exact Or.inl ⟨hid, rfl, rfl⟩
    · refine Or.inr ⟨?_, h⟩
      rintro rfl
      exact hp.dead _ _ h
  refine ⟨hw.key_of, fun id' a' w' h => ?_, fun id₁ id₂ a' w₁ w₂ h₁ h₂ => ?_, hw.table_lt,
    fun k r id' a' id'' w' hk ht h => ?_⟩
  · rcases hget h with ⟨rfl, rfl, rfl⟩ | ⟨-, h⟩
    · exact ⟨hp.lt, rs, v, rfl, hp.listed⟩
    · exact hw.msg_ok h
  · rcases hget h₁ with ⟨rfl, rfl, -⟩ | ⟨hne₁, h₁⟩ <;> rcases hget h₂ with ⟨rfl, he, -⟩ | ⟨hne₂, h₂⟩
    · rfl
    · exact (hne₂ rfl).elim
    · exact (hne₁ he).elim
    · exact hw.addr_inj h₁ h₂
  · rcases hget h with ⟨rfl, rfl, rfl⟩ | ⟨-, h⟩
    · obtain ⟨rfl, hr⟩ := hp.only hk ht
      exact ⟨rfl, rs, v, rfl, hr⟩
    · exact hw.table_ok hk ht h

lemma takeKv_of_attached (hw : Wf cm)
    (hall : List.Forall₂ (fun k r => cm.keysStates.get k = some r) ks.reverse rs) :
    cm.takeKv ⟨some (rs, v), id⟩ = .ok (ks, v) := by
  have hkeys : rs.map (fun r => (cm.heap r).k) = ks.reverse.map some := by
    rw [← List.forall₂_eq_eq_eq, List.forall₂_map_left_iff, List.forall₂_map_right_iff]
    exact (hall.imp fun k r hk => (hw.key_of hk).2).flip
  refine takeKv_eq_ok.mpr ⟨?_, rfl⟩
  rw [List.map_reverse, hkeys, ← List.map_reverse, List.reverse_reverse]

lemma Pending.waiting_insert (hp : Pending cm a id rs) (hw : Wf cm)
    (hall : List.Forall₂ (fun k r => cm.keysStates.get k = some r) ks.reverse rs) :
    ({ cm with waitingmsgs := cm.waitingmsgs.insert id (a, ⟨some (rs, v), id⟩) } :
      ConflictManager K V).admission.waiting = (ks, v) ::ₘ cm.admission.waiting := by
  change cm.pairs (cm.waitingmsgs.insert id _) = _
  rw [pairs_of_get FinMap.get_insert_self (takeKv_of_attached hw hall), FinMap.erase_insert]
  congr 1
  exact FinMap.total_erase_of_get_eq_none hp.absent

inductive Arrived (succ : WaitingMsgId → Option WaitingMsgId) (cm : ConflictManager K V)
    (ks : List K) (v : V) : Option (List K × V) → ConflictManager K V → Prop
  | granted {cm₁ : ConflictManager K V} (hu : ¬ ∃ k ∈ ks, k ∈ cm.admission.held)
      (h : cm.becomeUsing ks = .ok cm₁) : Arrived succ cm ks v (some (ks, v)) cm₁
  | setAside {next : WaitingMsgId} {rs : List StateRef} {cm₁ : ConflictManager K V}
      (hu : ∃ k ∈ ks, k ∈ cm.admission.held) (hnext : succ cm.nextWaitingmsgId = some next)
      (hat : AttachedTo (cm.allocated next) cm₁ cm.nextMsg cm.nextWaitingmsgId ks.reverse [] rs) :
      Arrived succ cm ks v none { cm₁ with
        waitingmsgs := cm₁.waitingmsgs.insert cm.nextWaitingmsgId
          (cm.nextMsg, ⟨some (rs, v), cm.nextWaitingmsgId⟩) }

lemma handleNewMsg_arrived (hw : Wf cm) (h : cm.handleNewMsg succ ks v = .ok (o, cm')) :
    Arrived succ cm ks v o cm' := by
  unfold handleNewMsg at h
  split_ifs at h with hu
  · simp only [bind_eq_ok, newWaitingMsg] at h
    obtain ⟨⟨w, cm₀⟩, h₀, ⟨w₁, cm₁⟩, h₁, h⟩ := h
    split at h₀
    · rename_i next hnext
      obtain ⟨rfl, rfl⟩ := Prod.mk.inj (Except.ok.inj h₀)
      obtain ⟨hwm, hid⟩ := attach_frame h₁
      split_ifs at h with hc
      obtain ⟨rfl, rfl⟩ := Prod.mk.inj (pure_eq_ok.mp h)
      rw [Bool.not_eq_true, FinMap.contains_eq_false, hwm, hid] at hc
      obtain ⟨rs, cm₂, h₂, hat⟩ := attach_spec v ks.reverse
        (hw.allocated next) (hw.pending next hc)
      obtain ⟨rfl, rfl⟩ := Prod.mk.inj (Except.ok.inj (h₁.symm.trans h₂))
      exact .setAside (anyUsing_iff.mp hu) hnext hat
    · cases h₀
  · simp only [bind_eq_ok, pure_eq_ok, Prod.mk.injEq] at h
    obtain ⟨cm₁, h₁, rfl, rfl⟩ := h
    exact .granted (fun hc => hu (anyUsing_iff.mpr hc)) h₁

lemma Arrived.wf (h : Arrived succ cm ks v o cm') (hw : Wf cm) : Wf cm' := by
  cases h with
  | granted hu h => exact (becomeUsing_ok hw h).1
  | setAside hu hnext hat => exact hat.pending.insert hat.wf

lemma Arrived.arrive (h : Arrived succ cm ks v o cm') (hw : Wf cm) :
    Admission.Arrive Prod.fst cm.admission (ks, v) o cm'.admission := by
  cases h with
  | granted hu h =>
    obtain ⟨-, -, -, hheld, hwait⟩ := becomeUsing_ok hw h
    exact .of_grant hu hheld hwait
  | @setAside next rs cm₁ hu hnext hat =>
    have hadm : cm₁.admission = cm.admission := hat.admission
    refine .of_wait hu ?_ ?_
    · change cm₁.admission.held = _
      rw [hadm]
    · rw [← hadm]
      exact hat.pending.waiting_insert hat.wf hat.states

lemma handleNewMsg_error (hw : Wf cm) (h : cm.handleNewMsg succ ks v = .error e) :
    e = .setUse ∧ ¬ ks.Nodup ∨ e = .idOverflow ∧ succ cm.nextWaitingmsgId = none ∨
      e = .idInserted ∧ cm.waitingmsgs.get cm.nextWaitingmsgId ≠ none := by
  unfold handleNewMsg at h
  split_ifs at h with hu
  · refine Or.inr ?_
    simp only [bind_eq_error, newWaitingMsg] at h
    rcases h with h | ⟨⟨w, cm₀⟩, h₀, h⟩
    · split at h
      · cases h
      · exact Or.inl ⟨(Except.error.inj h).symm, ‹_›⟩
    · split at h₀
      · rename_i next hnext
        obtain ⟨rfl, rfl⟩ := Prod.mk.inj (Except.ok.inj h₀)
        rcases h with h | ⟨⟨w, cm₁⟩, h₁, h⟩
        · exact (attach_ne_error h).elim
        · obtain ⟨hwm, hid⟩ := attach_frame h₁
          dsimp only at h
          split_ifs at h with hc
          · obtain ⟨x, hx⟩ := FinMap.contains_iff.mp hc
            refine Or.inr ⟨(Except.error.inj h).symm, fun hnone => ?_⟩
            rw [hwm, hid] at hx
            exact Option.some_ne_none x (hx.symm.trans hnone)
          · cases h
      · cases h₀
  · simp only [bind_eq_error, pure_ne_error, and_false, exists_false, or_false] at h
    obtain ⟨rfl, hn⟩ := becomeUsing_error hw h
    exact Or.inl ⟨rfl, fun hks => hu (anyUsing_iff.mpr (hn hks))⟩

end PaQueueAndChan.KeyChannel.KvMpscMultik.ConflictManager
