import PaQueueAndChan.KeyChannel.KvMpscMultik.Backlog
import PaQueueAndChan.KeyChannel.KvMpscMultik.Stranded

/-! What is given to the manager comes back or waits, with the keys in the order in which they were
given, for any keys, drop queues and orders of the searches. -/

namespace PaQueueAndChan.KeyChannel.KvMpscMultik

open Library ConflictManager

variable {K V : Type} [LinearOrder K] {succ : WaitingMsgId → Option WaitingMsgId}
  {cm cm' : ConflictManager K V} {o : Option (List K × V)}

structure Effect (cm : ConflictManager K V) (given : List (List K × V)) (o : Option (List K × V))
    (cm' : ConflictManager K V) : Prop where
  wf : Wf cm'
  waiting : cm'.admission.waiting + (o.toList : Multiset (List K × V)) =
    cm.admission.waiting + (given : Multiset (List K × V))
  kept : ∀ id a w m, cm.waitingmsgs.get id = some (a, w) → cm.takeKv w = .ok m →
    cm'.waitingmsgs.get id = some (a, w) ∧ cm'.takeKv w = .ok m ∨
      cm'.waitingmsgs.get id = none ∧ o = some m

lemma ConflictManager.Arrived.effect {ks : List K} {v : V} (h : Arrived succ cm ks v o cm')
    (hw : Wf cm) : Effect cm [(ks, v)] o cm' := by
  refine ⟨h.wf hw, (h.arrive hw).waiting_add, fun id a w m hid htake => Or.inl ?_⟩
  have hw' := h.wf hw
  cases h with
  | granted hu h =>
    obtain ⟨hwm, -, -, hatt, -⟩ := becomeUsing_frame hw h
    exact ⟨hwm ▸ hid, (hw.takeKv_kept (fun r => key_kept hw hw' hatt) hid).trans htake⟩
  | @setAside next rs cm₁ hu hnext hat =>
    refine ⟨?_, (hw.takeKv_kept (fun r => key_kept hw hat.wf hat.attached) hid).trans htake⟩
    rw [FinMap.get_insert_of_ne, hat.waitingmsgs]
    · exact hid
    · rintro rfl
      have hnone : cm.waitingmsgs.get cm.nextWaitingmsgId = none :=
        hat.waitingmsgs ▸ hat.pending.absent
      rw [hid] at hnone
      cases hnone

lemma ConflictManager.Released.effect {k : K} (h : Released cm k o cm') (hw : Wf cm) :
    Effect cm [] o cm' := by
  refine ⟨h.wf hw, by simpa using (h.release hw).waiting_add, fun id a w m hid htake => ?_⟩
  cases h with
  | kept | forgotten =>
    exact Or.inl ⟨hid, (hw.takeKv_kept (fun r _ => setInUse_k) hid).trans htake⟩
  | @handedOver self id' a' rs v m' cm₁ hk hu ha hid' htake' hself hfree hf hset =>
    by_cases he : id = id'
    · subst he
      obtain ⟨-, rfl⟩ := Prod.mk.inj (Option.some.inj (hid.symm.trans hid'))
      obtain rfl := Except.ok.inj (htake.symm.trans htake')
      exact Or.inr ⟨FinMap.get_erase_self, rfl⟩
    · refine Or.inl ⟨FinMap.get_erase_eq_some.mpr ⟨he, hf.waitingmsgs ▸ hid⟩, ?_⟩
      exact (hw.takeKv_kept (fun r _ => setWaitingmsgs_k.trans (hf.key r)) hid).trans htake

lemma Effect.trans {cm₁ : ConflictManager K V} (h : Effect cm [] none cm₁)
    (h' : Effect cm₁ [] o cm') : Effect cm [] o cm' := by
  refine ⟨h'.wf, ?_, fun id a w m hid htake => ?_⟩
  · rw [h'.waiting, ← h.waiting]
    simp
  · rcases h.kept id a w m hid htake with ⟨hid, htake⟩ | ⟨-, he⟩
    · exact h'.kept id a w m hid htake
    · cases he

lemma ConflictManager.ReleasedAll.effect {popped : List K} (h : ReleasedAll cm popped o cm')
    (hw : Wf cm) : Effect cm [] o cm' := by
  induction h with
  | done => exact ⟨hw, by simp, fun _ _ _ _ hid htake => Or.inl ⟨hid, htake⟩⟩
  | found h => exact h.effect hw
  | next h _ ih =>
    have h₁ := h.effect hw
    exact h₁.trans (ih h₁.wf)

def Call.given : Call K V → List (List K × V)
  | .handleNewMsg ks v => [(ks, v)]
  | .unuseAllDropedKey _ _ => []

lemma call_effect {s s' : Calls K V} {c : Call K V} (hw : Wf s.cm) (h : s.call succ c = some s') :
    ∃ o, s'.delivered = s.delivered ++ o.toList ∧ Effect s.cm c.given o s'.cm := by
  cases c with
  | handleNewMsg ks v =>
    simp only [Calls.call] at h
    split at h
    · next o cm hc =>
      cases h
      exact ⟨o, rfl, (handleNewMsg_arrived hw hc).effect hw⟩
    · cases h
  | unuseAllDropedKey order dropq =>
    simp only [Calls.call] at h
    split at h
    · next o cm rest hc =>
      cases h
      obtain ⟨_, _, hrel⟩ := unuseAllDropedKey_released hw hc
      exact ⟨o, rfl, hrel.effect hw⟩
    · cases h

lemma call_setAside {s s' : Calls K V} {ks : List K} {v : V} (hw : Wf s.cm)
    (h : s.call succ (.handleNewMsg ks v) = some s') (hd : s'.delivered = s.delivered) :
    s.cm.waitingmsgs.get s.cm.nextWaitingmsgId = none ∧
      ∃ a w, s'.cm.waitingmsgs.get s.cm.nextWaitingmsgId = some (a, w) ∧
        s'.cm.takeKv w = .ok (ks, v) := by
  simp only [Calls.call] at h
  split at h
  · next o cm hc =>
    cases h
    cases handleNewMsg_arrived hw hc with
    | granted => simp at hd
    | @setAside next rs cm₁ hu hnext hat =>
      have hnew : cm₁.takeKv ⟨some (rs, v), s.cm.nextWaitingmsgId⟩ = .ok (ks, v) :=
        takeKv_of_attached hat.wf hat.states
      exact ⟨hat.waitingmsgs ▸ hat.pending.absent, _, _, FinMap.get_insert_self, hnew⟩
  · cases h

def Calls.held (s : Calls K V) : Multiset (List K × V) := s.delivered + s.cm.admission.waiting

lemma call_held {s s' : Calls K V} {c : Call K V} (hw : Wf s.cm) (h : s.call succ c = some s') :
    s'.held = s.held + (c.given : Multiset (List K × V)) := by
  obtain ⟨o, hd, heff⟩ := call_effect hw h
  calc s'.held = (s.delivered : Multiset _) +
        (s'.cm.admission.waiting + (o.toList : Multiset (List K × V))) := by
        rw [Calls.held, hd, ← Multiset.coe_add, add_assoc, add_comm s'.cm.admission.waiting]
    _ = s.held + (c.given : Multiset (List K × V)) := by
        rw [heff.waiting, Calls.held, add_assoc]

structure Conserved (succ : WaitingMsgId → Option WaitingMsgId) (given : List (List K × V))
    (s : Calls K V) : Prop where
  pairs : (given : Multiset (List K × V)) = s.delivered + s.cm.pairs s.cm.waitingmsgs
  whole : ∀ id a w, s.cm.waitingmsgs.get id = some (a, w) → ∃ m, s.cm.takeKv w = .ok m
  -- a message that is not returned at once gets a record of its own, which holds it
  setAside : ∀ ks v s', s.call succ (.handleNewMsg ks v) = some s' →
    s'.delivered = s.delivered → s.cm.waitingmsgs.get s.cm.nextWaitingmsgId = none ∧
      ∃ a w, s'.cm.waitingmsgs.get s.cm.nextWaitingmsgId = some (a, w) ∧
        s'.cm.takeKv w = .ok (ks, v)
  kept : ∀ c s', s.call succ c = some s' →
    ∀ id a w m, s.cm.waitingmsgs.get id = some (a, w) → s.cm.takeKv w = .ok m →
      s'.cm.waitingmsgs.get id = some (a, w) ∧ s'.cm.takeKv w = .ok m ∨
        s'.cm.waitingmsgs.get id = none ∧ s'.delivered = s.delivered ++ [m]

theorem messages_conserved (calls : List (Call K V)) (s : Calls K V)
    (h : run (Calls.call succ) Calls.new calls = some s) :
    Conserved succ (calls.flatMap Call.given) s := by
  have hw : Wf s.cm := run_invariant (I := fun s : Calls K V => Wf s.cm)
    (fun s c s' hw h => (call_effect hw h).choose_spec.2.wf) wf_new h
  refine ⟨?_, fun id a w hid => ?_, fun ks v s' hc hd => call_setAside hw hc hd,
    fun c s' hc id a w m hid htake => ?_⟩
  · have hsum := run_sum (I := fun s : Calls K V => Wf s.cm) (f := Calls.held)
      (g := fun c => (c.given : Multiset (List K × V)))
      (fun s c s' hw hc => ⟨(call_effect hw hc).choose_spec.2.wf, call_held hw hc⟩) wf_new h
    have hnew : (Calls.new : Calls K V).held = 0 := by
      simp [Calls.held, Calls.new, admission_new]
    rw [hnew, zero_add] at hsum
    rw [← Multiset.coe_bind, Multiset.bind, Multiset.join, Multiset.map_coe, Multiset.sum_coe]
    exact hsum.symm
  · obtain ⟨-, -, m, -, htake, -⟩ := hw.waits hid
    exact ⟨m, htake⟩
  · obtain ⟨o, hd, heff⟩ := call_effect hw hc
    rcases heff.kept id a w m hid htake with hkept | ⟨hnone, rfl⟩
    · exact Or.inl hkept
    · exact Or.inr ⟨hnone, hd⟩

theorem messages_conserved_oneHandedOver :
    ∃ s, run (Calls.call succChecked) Calls.new oneHandedOver = some s ∧
      s.delivered = [([1], 10), ([1], 11)] ∧
      Conserved succChecked (oneHandedOver.flatMap Call.given) s :=
  ⟨_, rfl, rfl, messages_conserved oneHandedOver _
    (show run (Calls.call succChecked) Calls.new oneHandedOver = some _ from rfl)⟩

end PaQueueAndChan.KeyChannel.KvMpscMultik
