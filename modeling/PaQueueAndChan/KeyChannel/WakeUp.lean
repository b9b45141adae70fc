import PaQueueAndChan.KeyChannel.KvMpsc
import PaQueueAndChan.KeyChannel.KvMpscMultik.ConflictManager

/-! The receiver's wait. A notification is lost only while there is no listener, between a wait and
the next `listen`, and the tests that follow see everything that was pushed by then. -/

namespace PaQueueAndChan.KeyChannel

open Library

lemma Event.notify_listener {e : Event} (h : e.listener ≠ none) :
    e.notify.listener = some true := by
  obtain ⟨b, hb⟩ := Option.ne_none_iff_exists'.mp h
  simp [notify, hb]

@[simp] lemma Event.notify_eq_none {e : Event} : e.notify.listener = none ↔ e.listener = none := by
  simp [notify]

namespace System

variable {κ μ τ ω ε : Type*} {T : KeyTable κ μ τ ω ε} {s s' : System κ μ τ ε} {a : Action μ ω}

/-- A sender or a drop is between its push or store and its `notify`. -/
def Notifying (s : System κ μ τ ε) : Prop :=
  (∃ t, s.senders.pc t = .pushed ∨ s.senders.pc t = .closing) ∨ s.dropping ≠ []

/-- What the receiver should not sleep on. -/
def WorkLeft (T : KeyTable κ μ τ ω ε) (s : System κ μ τ ε) : Prop :=
  s.chan.q ≠ [] ∨ s.chan.dropKeyQ ≠ [] ∨
    T.closable s.table = true ∧ s.chan.sendersDropped = true

/-- Blocked on a listener that is not notified, with nobody about to notify it. -/
def Asleep (s : System κ μ τ ε) : Prop :=
  s.recv = .waiting ∧ s.chan.wakeRecvEvent.listener ≠ some true ∧ ¬ Notifying s

def Missed (T : KeyTable κ μ τ ω ε) (s : System κ μ τ ε) : Prop :=
  match s.recv with
  | .testDrop => s.chan.q ≠ []
  | .close => s.chan.q ≠ [] ∨ s.chan.dropKeyQ ≠ []
  | .takeListener | .waiting => WorkLeft T s
  | _ => False

structure WakeOk (T : KeyTable κ μ τ ω ε) (s : System κ μ τ ε) : Prop where
  listening : s.recv = .relisten ∨ s.recv = .dropped ∨ s.chan.wakeRecvEvent.listener ≠ none
  covered : Missed T s → s.chan.wakeRecvEvent.listener = some true ∨ Notifying s

lemma wakeOk_new : WakeOk T (new T) := ⟨by simp [new, Event.listen], by simp [Missed, new]⟩

lemma WakeOk.of_notify {s' : System κ μ τ ε} (hs : WakeOk T s) (hr : s'.recv = s.recv)
    (he : s'.chan.wakeRecvEvent = s.chan.wakeRecvEvent.notify) : WakeOk T s' := by
  have hl : s.recv = .relisten ∨ s.recv = .dropped ∨
      s.chan.wakeRecvEvent.notify.listener ≠ none := by
    simpa using hs.listening
  refine ⟨by rwa [hr, he], fun hm => Or.inl ?_⟩
  rw [he]
  apply Event.notify_listener
  rcases hs.listening with h | h | h
  · simp [Missed, hr, h] at hm
  · simp [Missed, hr, h] at hm
  · exact h

lemma WakeOk.of_notifying {s' : System κ μ τ ε} (hs : WakeOk T s) (hr : s'.recv = s.recv)
    (he : s'.chan.wakeRecvEvent = s.chan.wakeRecvEvent) (hn : Notifying s') : WakeOk T s' :=
  ⟨by rw [hr, he]; exact hs.listening, fun _ => Or.inr hn⟩

lemma wakeOk_handles {senders : Handles (SendPc μ)} (hs : WakeOk T s)
    (hk : ∀ t, s.senders.pc t ≠ .idle → senders.pc t = s.senders.pc t) :
    WakeOk T { s with senders := senders } := by
  refine ⟨hs.listening, fun hm => (hs.covered hm).imp_right (Or.imp_left ?_)⟩
  rintro ⟨t, ht⟩
  refine ⟨t, ?_⟩
  rwa [hk t (by rcases ht with h | h <;> simp [h])]

lemma wakeOk_senderStep {t : ℕ} (hs : WakeOk T s) (h : s.senderStep t = some s') :
    WakeOk T s' := by
  cases hpc : s.senders.pc t with
  | idle => simp [senderStep, hpc] at h
  | checked m =>
    simp only [senderStep, hpc, Option.some.injEq] at h
    subst h
    exact hs.of_notifying rfl rfl (Or.inl ⟨t, Or.inl (by simp)⟩)
  | dropping =>
    simp only [senderStep, hpc, Option.some.injEq] at h
    subst h
    exact hs.of_notifying rfl rfl (Or.inl ⟨t, Or.inr (by simp)⟩)
  | pushed | closing =>
    simp only [senderStep, hpc, Option.some.injEq] at h
    subst h
    exact hs.of_notify rfl rfl

lemma wakeOk_dropMsg {i : ℕ} (hs : WakeOk T s) (h : s.dropMsg T i = some s') : WakeOk T s' := by
  obtain ⟨m, _, rfl⟩ := dropMsg_eq h
  exact hs.of_notifying rfl rfl (Or.inr (by simp))

lemma wakeOk_dropStep {i : ℕ} (hs : WakeOk T s) (h : s.dropStep i = some s') : WakeOk T s' := by
  unfold dropStep at h
  split at h
  · cases h
  · obtain rfl := Option.some.inj h
    exact hs.of_notify rfl rfl
  · rename_i k ks hd
    obtain rfl := Option.some.inj h
    refine hs.of_notifying rfl rfl (Or.inr fun hnil => ?_)
    have hnone : s.dropping = [] := by simpa [pushDropKey] using hnil
    simp [hnone] at hd

lemma missed_settle (released : Option κ) (r : Except ε (Option μ × τ)) :
    ¬ Missed T (s.settle released r) := by
  rcases settle_recv s released r with ⟨e, h⟩ | h | ⟨m, h⟩ <;> simp [Missed, h]

lemma wakeOk_recvStep {o : ω} (hs : WakeOk T s) (h : s.recvStep T o = some s') : WakeOk T s' := by
  obtain ⟨hlis, hcov⟩ := hs
  cases hr : s.recv with
  | idle | panicked | dropped => simp [recvStep, hr] at h
  | drain =>
    have hne : s.chan.wakeRecvEvent.listener ≠ none := by simpa [hr] using hlis
    cases hk : s.chan.dropKeyQ with
    | nil =>
      simp only [recvStep, hr, hk, Option.some.injEq] at h
      subst h
      exact ⟨Or.inr (Or.inr hne), by simp [Missed]⟩
    | cons k ks =>
      simp only [recvStep, hr, hk, Option.some.injEq] at h
      subst h
      exact ⟨Or.inr (Or.inr (by rwa [(settle_frame ..).2.1])),
        fun hm => (missed_settle _ _ hm).elim⟩
  | popQ =>
    have hne : s.chan.wakeRecvEvent.listener ≠ none := by simpa [hr] using hlis
    cases hq : s.chan.q with
    | nil =>
      simp only [recvStep, hr, hq, Option.some.injEq] at h
      subst h
      exact ⟨Or.inr (Or.inr hne), by simp [Missed]⟩
    | cons m ms =>
      simp only [recvStep, hr, hq, Option.some.injEq] at h
      subst h
      exact ⟨Or.inr (Or.inr (by rwa [(settle_frame ..).2.1])),
        fun hm => (missed_settle _ _ hm).elim⟩
  | testQ =>
    have hne : s.chan.wakeRecvEvent.listener ≠ none := by simpa [hr] using hlis
    simp only [recvStep, hr] at h
    split_ifs at h with hq <;> obtain rfl := Option.some.inj h
    · exact ⟨Or.inr (Or.inr hne), fun hm => (hm (List.isEmpty_iff.mp hq)).elim⟩
    · exact ⟨Or.inr (Or.inr hne), by simp [Missed]⟩
  | testDrop =>
    have hne : s.chan.wakeRecvEvent.listener ≠ none := by simpa [hr] using hlis
    simp only [recvStep, hr] at h
    split_ifs at h with hk <;> obtain rfl := Option.some.inj h
    · refine ⟨Or.inr (Or.inr hne), ?_⟩
      rintro (hq | hd)
      · exact hcov (by simpa [Missed, hr] using hq)
      · exact (hd (List.isEmpty_iff.mp hk)).elim
    · exact ⟨Or.inr (Or.inr hne), by simp [Missed]⟩
  | close =>
    have hne : s.chan.wakeRecvEvent.listener ≠ none := by simpa [hr] using hlis
    simp only [recvStep, hr] at h
    split_ifs at h with hc <;> obtain rfl := Option.some.inj h
    · exact ⟨Or.inr (Or.inr hne), by simp [Missed]⟩
    · refine ⟨Or.inr (Or.inr hne), ?_⟩
      rintro (hq | hd | hclose)
      · exact hcov (by simpa [Missed, hr] using Or.inl hq)
      · exact hcov (by simpa [Missed, hr] using Or.inr hd)
      · exact (hc (by simpa using hclose)).elim
  | takeListener =>
    have hne : s.chan.wakeRecvEvent.listener ≠ none := by simpa [hr] using hlis
    simp only [recvStep, hr] at h
    split_ifs at h <;> obtain rfl := Option.some.inj h
    · refine ⟨Or.inr (Or.inr hne), fun hm => hcov ?_⟩
      have hleft : WorkLeft T s := hm
      simpa [Missed, hr] using hleft
    · exact ⟨Or.inr (Or.inr hne), by simp [Missed]⟩
  | waiting =>
    simp only [recvStep, hr] at h
    split_ifs at h
    obtain rfl := Option.some.inj h
    exact ⟨Or.inl rfl, by simp [Missed]⟩
  | relisten =>
    simp only [recvStep, hr, Option.some.injEq] at h
    subst h
    exact ⟨Or.inr (Or.inr (by simp [Event.listen])), by simp [Missed]⟩

lemma wakeOk_step (hs : WakeOk T s) (h : s.step T a = some s') : WakeOk T s' := by
  cases a with
  | clone t t' =>
    simp only [step] at h
    split_ifs at h
    obtain rfl := Option.some.inj h
    exact wakeOk_handles hs fun _ _ => rfl
  | send t m =>
    cases hpc : s.senders.pc t with
    | idle =>
      simp only [step, hpc] at h
      split_ifs at h <;> obtain rfl := Option.some.inj h
      · exact hs
      · refine wakeOk_handles hs fun u hu => Function.update_of_ne ?_ ..
        rintro rfl
        exact hu hpc
    | _ => simp [step, hpc] at h
  | sender t => exact wakeOk_senderStep hs h
  | drop t =>
    cases hpc : s.senders.pc t with
    | idle =>
      simp only [step, hpc] at h
      split_ifs at h
      obtain rfl := Option.some.inj h
      refine wakeOk_handles hs fun u hu => ?_
      unfold Handles.drop
      split_ifs
      · refine Function.update_of_ne ?_ ..
        rintro rfl
        exact hu hpc
      · rfl
    | _ => simp [step, hpc] at h
  | recv =>
    cases hr : s.recv with
    | idle last =>
      simp only [step, hr, Option.some.injEq] at h
      subst h
      exact ⟨Or.inr (Or.inr (by simpa [hr] using hs.listening)), by simp [Missed]⟩
    | _ => simp [step, hr] at h
  | recvStep o => exact wakeOk_recvStep hs h
  | dropMsg i => exact wakeOk_dropMsg hs h
  | dropStep i => exact wakeOk_dropStep hs h
  | dropReceiver =>
    cases hr : s.recv with
    | idle last =>
      simp only [step, hr, Option.some.injEq] at h
      subst h
      exact ⟨Or.inr (Or.inl rfl), by simp [Missed]⟩
    | _ => simp [step, hr] at h

lemma WakeOk.not_asleep (hs : WakeOk T s) (hleft : WorkLeft T s) : ¬ Asleep s := by
  rintro ⟨hr, hl, hn⟩
  rcases hs.covered (by simpa [Missed, hr] using hleft) with h | h
  · exact hl h
  · exact hn h

lemma always_not_asleep (as : List (Action μ ω)) :
    Always (step T) (fun s => WorkLeft T s → ¬ Asleep s) (new T) as :=
  always_of_invariant (fun _ _ _ => wakeOk_step) (fun _ hs => hs.not_asleep) as wakeOk_new

end System

open KeyChannel.System KvMpscMultik

/-- In every state that a run of either channel reaches, a receiver that is asleep has nothing in
`q`, nothing in `drop_key_q` and nothing to be told. -/
theorem never_asleep_on_work {K V K' V' : Type} [LinearOrder K] [LinearOrder K']
    (succ : WaitingMsgId → Option WaitingMsgId) :
    (∀ as : List (Action (K × V) Unit),
      Always (step (KvMpsc.kvMpsc K V)) (fun s => WorkLeft (KvMpsc.kvMpsc K V) s → ¬ Asleep s)
        (new (KvMpsc.kvMpsc K V)) as) ∧
    ∀ as : List (MultikAction K' V'),
      Always (step (kvMpscMultik K' V' succ))
        (fun s => WorkLeft (kvMpscMultik K' V' succ) s → ¬ Asleep s)
        (new (kvMpscMultik K' V' succ)) as :=
  ⟨always_not_asleep, always_not_asleep⟩

end PaQueueAndChan.KeyChannel
