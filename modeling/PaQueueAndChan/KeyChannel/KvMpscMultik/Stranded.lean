import PaQueueAndChan.KeyChannel.KvMpscMultik.Arrival
import PaQueueAndChan.KeyChannel.KvMpscMultik.Release
import PaQueueAndChan.Library.Transitions

/-! Any sequence of calls of the `ConflictManager`, with any keys and any drop queues: no message is
left waiting for keys that nobody uses. -/

namespace PaQueueAndChan.KeyChannel.KvMpscMultik

open Library ConflictManager

variable {K V : Type} [LinearOrder K] {succ : WaitingMsgId → Option WaitingMsgId}

inductive Call (K V : Type)
  | handleNewMsg (ks : List K) (v : V)
  | unuseAllDropedKey (order : ℕ → IterOrder (WaitingMsgId × MsgRef)) (dropq : List K)

/-- The manager, with the messages it has returned and the keys it has taken out of drop queues. -/
structure Calls (K V : Type) [LinearOrder K] where
  cm : ConflictManager K V
  delivered : List (List K × V)
  processed : List K

def Calls.new : Calls K V := ⟨.new, [], []⟩

-- a call that panics ends the run
def Calls.call (succ : WaitingMsgId → Option WaitingMsgId) (s : Calls K V) :
    Call K V → Option (Calls K V)
  | .handleNewMsg ks v =>
    match s.cm.handleNewMsg succ ks v with
    | .ok (o, cm) => some ⟨cm, s.delivered ++ o.toList, s.processed⟩
    | .error _ => none
  | .unuseAllDropedKey order dropq =>
    match s.cm.unuseAllDropedKey order dropq with
    | .ok (o, cm, rest) =>
      some ⟨cm, s.delivered ++ o.toList, s.processed ++ dropq.take (dropq.length - rest.length)⟩
    | .error _ => none

structure CallsOk (cm : ConflictManager K V) (delivered : List (List K × V)) (processed : List K) :
    Prop where
  wf : Wf cm
  noStranded : Admission.NoStranded Prod.fst cm.admission
  ledger : Admission.Ledger Prod.fst cm.admission delivered processed

lemma callsOk_new : CallsOk (new : ConflictManager K V) [] [] := by
  refine ⟨wf_new, ?_, ?_⟩
  · simp [Admission.NoStranded, admission_new]
  · simp [Admission.Ledger, admission_new]

variable {cm cm' : ConflictManager K V} {delivered : List (List K × V)} {processed : List K}
  {o : Option (List K × V)}

lemma CallsOk.handleNewMsg {ks : List K} {v : V} (hs : CallsOk cm delivered processed)
    (h : cm.handleNewMsg succ ks v = .ok (o, cm')) :
    CallsOk cm' (delivered ++ o.toList) processed := by
  have harr := handleNewMsg_arrived hs.wf h
  have hadm := harr.arrive hs.wf
  exact ⟨harr.wf hs.wf, hadm.noStranded hs.noStranded, hadm.ledger hs.ledger⟩

lemma CallsOk.released {k : K} (hs : CallsOk cm delivered processed)
    (h : Released cm k o cm') : CallsOk cm' (delivered ++ o.toList) (processed ++ [k]) := by
  have hadm := h.release hs.wf
  exact ⟨h.wf hs.wf, hadm.noStranded hs.noStranded, hadm.ledger hs.ledger⟩

lemma CallsOk.releasedAll {popped : List K} (hs : CallsOk cm delivered processed)
    (h : ReleasedAll cm popped o cm') :
    CallsOk cm' (delivered ++ o.toList) (processed ++ popped) := by
  induction h generalizing processed with
  | done => simpa using hs
  | found h => exact hs.released h
  | next h _ ih =>
    have hs₁ := hs.released h
    rw [Option.toList_none, List.append_nil] at hs₁
    rw [List.append_cons]
    exact ih hs₁

lemma callsOk_call {s s' : Calls K V} {c : Call K V}
    (hs : CallsOk s.cm s.delivered s.processed) (h : s.call succ c = some s') :
    CallsOk s'.cm s'.delivered s'.processed := by
  cases c with
  | handleNewMsg ks v =>
    simp only [Calls.call] at h
    split at h
    · obtain rfl := Option.some.inj h
      exact hs.handleNewMsg ‹_›
    · cases h
  | unuseAllDropedKey order dropq =>
    simp only [Calls.call] at h
    split at h
    · obtain rfl := Option.some.inj h
      obtain ⟨popped, rfl, hrel⟩ := unuseAllDropedKey_released hs.wf ‹_›
      simpa using hs.releasedAll hrel
    · cases h

lemma CallsOk.waits_for_used (hs : CallsOk cm delivered processed) {id : WaitingMsgId} {a : MsgRef}
    {w : WaitingMsg V} (h : cm.waitingmsgs.get id = some (a, w)) :
    ∃ rs v, w.ksV = some (rs, v) ∧
      ∃ k, ∃ state ∈ rs, cm.keysStates.get k = some state ∧ (cm.heap state).inUse = true := by
  obtain ⟨rs, v, m, rfl, htake, hmem, -⟩ := hs.wf.waits h
  obtain ⟨k, hk, state, hks, hu⟩ := hs.noStranded m (mem_waiting.mpr ⟨id, a, _, h, htake⟩)
  obtain ⟨state', hin, hks'⟩ := (hmem k).mp hk
  obtain rfl := Option.some.inj (hks.symm.trans hks')
  exact ⟨rs, v, rfl, k, state, hin, hks, hu⟩

lemma CallsOk.none_waits (hs : CallsOk cm delivered processed)
    (h : (delivered.flatMap Prod.fst : Multiset K) ≤ processed) :
    cm.waitingmsgs.isEmpty = true := by
  have hzero := hs.noStranded.waiting_eq_zero (hs.ledger.held_eq_empty h)
  apply FinMap.isEmpty_iff.mpr
  intro id
  apply Option.eq_none_iff_forall_ne_some.mpr
  intro x hx
  obtain ⟨_, _, m, _, htake, -⟩ := hs.wf.waits hx
  have hm := mem_waiting.mpr ⟨id, x.1, x.2, hx, htake⟩
  simp [hzero] at hm

/-- Between any two calls every waiting message has a key in use; once all keys of all messages
returned so far have been processed, no message waits. -/
theorem no_message_stranded (calls : List (Call K V)) (s : Calls K V)
    (h : run (Calls.call succ) Calls.new calls = some s) :
    (∀ id a w, s.cm.waitingmsgs.get id = some (a, w) → ∃ rs v, w.ksV = some (rs, v) ∧
      ∃ k, ∃ state ∈ rs, s.cm.keysStates.get k = some state ∧ (s.cm.heap state).inUse = true) ∧
    ((s.delivered.flatMap Prod.fst : Multiset K) ≤ s.processed →
      s.cm.waitingmsgs.isEmpty = true) := by
  have hs := run_invariant (I := fun s : Calls K V => CallsOk s.cm s.delivered s.processed)
    (fun s c s' => callsOk_call) callsOk_new h
  exact ⟨fun id a w => hs.waits_for_used, hs.none_waits⟩

def oneHandedOver : List (Call ℕ ℕ) :=
  [.handleNewMsg [1] 10, .handleNewMsg [1] 11, .handleNewMsg [2, 1] 12,
    .unuseAllDropedKey (fun _ => .stored) [1]]

theorem no_message_stranded_oneHandedOver :
    ∃ s, run (Calls.call succChecked) Calls.new oneHandedOver = some s ∧
      s.delivered = [([1], 10), ([1], 11)] ∧
      (∀ id a w, s.cm.waitingmsgs.get id = some (a, w) → ∃ rs v, w.ksV = some (rs, v) ∧
        ∃ k, ∃ state ∈ rs, s.cm.keysStates.get k = some state ∧ (s.cm.heap state).inUse = true) ∧
      ((s.delivered.flatMap Prod.fst : Multiset ℕ) ≤ s.processed →
        s.cm.waitingmsgs.isEmpty = true) :=
  ⟨_, rfl, rfl, no_message_stranded oneHandedOver _
    (show run (Calls.call succChecked) Calls.new oneHandedOver = some _ from rfl)⟩

end PaQueueAndChan.KeyChannel.KvMpscMultik
