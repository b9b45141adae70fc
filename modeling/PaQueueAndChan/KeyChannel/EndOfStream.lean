import PaQueueAndChan.KeyChannel.KvMpsc
import PaQueueAndChan.KeyChannel.KvMpscMultik.Exclusion

/-! What the receiver of either channel knows when it is told `Closed`. -/

namespace PaQueueAndChan.KeyChannel

open Library KeyChannel.System KvMpscMultik

/-- In both channels, `sync_pop` ends with every sent message returned exactly in the runs where
nothing is pushed to `q` between its empty test and a close test that succeeds. -/
theorem closed_when_drained_iff_nothing_since_test {K V K' V' : Type} [LinearOrder K]
    [LinearOrder K'] (succ : WaitingMsgId → Option WaitingMsgId) :
    (∀ as : List (Action (K × V) Unit),
      Always (step (KvMpsc.kvMpsc K V)) (Drained KvMpsc.admission) (new (KvMpsc.kvMpsc K V)) as ↔
        EachStep (step (KvMpsc.kvMpsc K V)) (ClosesOnEmpty (KvMpsc.kvMpsc K V))
          (new (KvMpsc.kvMpsc K V)) as) ∧
    ∀ as : List (MultikAction K' V'),
      Always (step (kvMpscMultik K' V' succ)) (Drained ConflictManager.admission)
          (new (kvMpscMultik K' V' succ)) as ↔
        EachStep (step (kvMpscMultik K' V' succ)) (ClosesOnEmpty (kvMpscMultik K' V' succ))
          (new (kvMpscMultik K' V' succ)) as :=
  ⟨drained_iff KvMpsc.refines, drained_iff KvMpscMultik.refines⟩

-- the only sender pushes and goes between the two tests of `sync_pop`
def sentAndGone {μ ω : Type} (m : μ) (order : ω) : List (Action μ ω) :=
  [.recv, .recvStep order, .recvStep order, .recvStep order, .recvStep order, .send 0 m, .sender 0,
    .sender 0, .drop 0, .sender 0, .recvStep order]

theorem closed_with_message_left :
    (¬ ∀ (as : List (Action (ℕ × ℕ) Unit))
        (s : System ℕ (ℕ × ℕ) (KvMpsc.UsingKeys ℕ ℕ) KvMpsc.Panic),
        run (step (KvMpsc.kvMpsc ℕ ℕ)) (new (KvMpsc.kvMpsc ℕ ℕ)) as = some s →
          Drained KvMpsc.admission s) ∧
      ¬ ∀ (as : List (MultikAction ℕ ℕ)) (s : MultikSystem ℕ ℕ),
        run (step (kvMpscMultik ℕ ℕ succChecked)) (new (kvMpscMultik ℕ ℕ succChecked)) as = some s →
          Drained ConflictManager.admission s := by
  constructor
  · intro h
    have hleft := (h (sentAndGone (1, 7) ()) _ rfl rfl).1
    cases hleft
  · intro h
    have hleft := (h (sentAndGone ([1, 2], 7) .stored) _ rfl rfl).1
    cases hleft

section told

variable {κ μ τ ω ε : Type*} {T : KeyTable κ μ τ ω ε} {s u : System κ μ τ ε}

/-- `u` is `s` with a call of `sync_pop` in progress that has its close test still to come. -/
def Asks (T : KeyTable κ μ τ ω ε) (s u : System κ μ τ ε) : Prop :=
  s.step T .recv = some u ∨ u = s ∧ (s.recv = .drain ∨ s.recv = .popQ ∨ s.recv = .testQ ∨
    s.recv = .testDrop ∨ s.recv = .close)

def ReturnsNone (T : KeyTable κ μ τ ω ε) (o : ω) (s : System κ μ τ ε) : Prop :=
  ∃ n u, run (step T) s (List.replicate n (.recvStep o)) = some u ∧ u.recv = .idle (some none)

structure Ended (s : System κ μ τ ε) : Prop where
  dropped : s.chan.sendersDropped = true
  q : s.chan.q = []
  dropKeyQ : s.chan.dropKeyQ = []

lemma returnsNone_of_step {o : ω} (h : s.recvStep T o = some u) (hu : ReturnsNone T o u) :
    ReturnsNone T o s := by
  obtain ⟨n, v, hr, hv⟩ := hu
  refine ⟨n + 1, v, ?_, hv⟩
  rw [List.replicate_succ, run_cons, step, h, Option.bind_some, hr]

lemma Ended.returnsNone (hs : Ended s) (hc : T.closable s.table = true) (o : ω)
    (hr : s.recv = .drain ∨ s.recv = .popQ ∨ s.recv = .testQ ∨ s.recv = .testDrop ∨
      s.recv = .close) : ReturnsNone T o s := by
  have hclose : ∀ st, ReturnsNone T o ({ s with sinceTest := st }.goto .close) := fun st =>
    ⟨1, ({ s with sinceTest := st }.goto .close).goto (.idle (some none)),
      by simp [step, recvStep, hc, hs.dropped], rfl⟩
  have htestDrop : ∀ st, ReturnsNone T o ({ s with sinceTest := st }.goto .testDrop) := fun st =>
    returnsNone_of_step (by simp [recvStep, hs.dropKeyQ, goto]) (hclose st)
  have htestQ : ReturnsNone T o (s.goto .testQ) :=
    returnsNone_of_step (by simp [recvStep, hs.q, goto]) (htestDrop [])
  have hpopQ : ReturnsNone T o (s.goto .popQ) :=
    returnsNone_of_step (by simp [recvStep, hs.q, goto]) htestQ
  have hgoto : ∀ r, s.recv = r → s.goto r = s := by
    rintro r rfl
    rfl
  rcases hr with hr | hr | hr | hr | hr
  · exact returnsNone_of_step (by simp [recvStep, hr, hs.dropKeyQ]) hpopQ
  · exact hgoto _ hr ▸ hpopQ
  · exact hgoto _ hr ▸ htestQ
  · exact hgoto _ hr ▸ htestDrop s.sinceTest
  · exact hgoto _ hr ▸ hclose s.sinceTest

lemma Ended.recvStep {o : ω} (hs : Ended s) (hc : T.closable s.table = false)
    (h : s.recvStep T o = some u) :
    Ended u ∧ u.table = s.table ∧ u.recv ≠ .idle (some none) := by
  obtain ⟨hd, hq, hk⟩ := hs
  cases hr : s.recv with
  | idle | panicked | dropped => simp [System.recvStep, hr] at h
  | waiting =>
    simp only [System.recvStep, hr] at h
    split_ifs at h
    cases h
    exact ⟨⟨hd, hq, hk⟩, rfl, by simp⟩
  | relisten =>
    simp only [System.recvStep, hr] at h
    cases h
    exact ⟨⟨hd, hq, hk⟩, rfl, by simp⟩
  | _ =>
    simp only [System.recvStep, hr, hq, hk, hc, List.isEmpty_nil, Bool.false_and, if_true,
      Bool.false_eq_true, if_false] at h
    (first | split_ifs at h | skip) <;> cases h <;> exact ⟨⟨hd, hq, hk⟩, rfl, by simp⟩

lemma Ended.not_returnsNone (hs : Ended s) (hc : T.closable s.table = false) {o : ω}
    (hr : s.recv ≠ .idle (some none)) : ¬ ReturnsNone T o s := by
  rintro ⟨n, u, hrun, hu⟩
  have hinv := run_invariant_of_mem (A := fun a => ∃ o, a = .recvStep o)
    (I := fun s => Ended s ∧ T.closable s.table = false ∧ s.recv ≠ .idle (some none))
    (fun s a s' ha hI h => ?_) (by simp [List.mem_replicate]) ⟨hs, hc, hr⟩ hrun
  · exact hinv.2.2 hu
  · obtain ⟨o, rfl⟩ := ha
    obtain ⟨hend, htab, hne⟩ := hI.1.recvStep hI.2.1 h
    exact ⟨hend, htab ▸ hI.2.1, hne⟩

lemma Asks.returnsNone_iff (hs : Ended s) (ha : Asks T s u) (o : ω) :
    ReturnsNone T o u ↔ T.closable s.table = true := by
  have hu : Ended u ∧ u.table = s.table ∧ (u.recv = .drain ∨ u.recv = .popQ ∨ u.recv = .testQ ∨
      u.recv = .testDrop ∨ u.recv = .close) := by
    rcases ha with h | ⟨rfl, hr⟩
    · simp only [step] at h
      split at h
      · cases h
        exact ⟨⟨hs.dropped, hs.q, hs.dropKeyQ⟩, rfl, Or.inl rfl⟩
      · cases h
    · exact ⟨hs, rfl, hr⟩
  obtain ⟨hend, htab, hr⟩ := hu
  rw [← htab]
  constructor
  · intro h
    by_contra hc
    refine hend.not_returnsNone (Bool.eq_false_iff.mpr hc) ?_ h
    rcases hr with hr | hr | hr | hr | hr <;> simp [hr]
  · exact fun hc => hend.returnsNone hc o hr

end told

variable {K V K' V' : Type} [LinearOrder K] [LinearOrder K']

lemma isEmpty_iff_alive {s : System K (K × V) (KvMpsc.UsingKeys K V) KvMpsc.Panic}
    (hs : KvMpsc.RunOk s) (hk : s.chan.dropKeyQ = []) :
    s.table.isEmpty = true ↔ s.alive = [] := by
  have hkeys := hs.inUse.2
  rw [hk] at hkeys
  rw [FinMap.isEmpty_iff, List.eq_nil_iff_forall_not_mem]
  constructor
  · intro h m hm
    obtain ⟨w, hw⟩ := FinMap.mem_keys.mp ((hkeys m.1).mp (by simpa using ⟨m.2, hm⟩))
    rw [h] at hw
    cases hw
  · intro h k
    rw [Option.eq_none_iff_forall_ne_some]
    intro w hw
    have hmem := (hkeys k).mpr (FinMap.mem_keys.mpr ⟨w, hw⟩)
    rw [List.append_nil] at hmem
    obtain ⟨m, hm, -⟩ := List.mem_map.mp hmem
    exact h m hm

/-- When all senders are dropped, both queues are empty and no message waits, a call of `sync_pop`
returns `None` in `kv_mpsc` exactly if no delivered message is alive, and in `kv_mpsc_multik`
always. -/
theorem end_told_iff_none_alive (succ : WaitingMsgId → Option WaitingMsgId) :
    (∀ (as : List (Action (K × V) Unit))
        (s u : System K (K × V) (KvMpsc.UsingKeys K V) KvMpsc.Panic),
      run (step (KvMpsc.kvMpsc K V)) (new (KvMpsc.kvMpsc K V)) as = some s → Ended s →
        (∀ k waiting, s.table.get k = some waiting → waiting = []) →
        Asks (KvMpsc.kvMpsc K V) s u →
        (ReturnsNone (KvMpsc.kvMpsc K V) () u ↔ s.alive = [])) ∧
    ∀ (s u : MultikSystem K' V') (order : IterOrder (WaitingMsgId × MsgRef)), Ended s →
      s.table.waitingmsgs.isEmpty = true → Asks (kvMpscMultik K' V' succ) s u →
        ReturnsNone (kvMpscMultik K' V' succ) order u := by
  constructor
  · intro as s u h hs _ ha
    exact (ha.returnsNone_iff hs ()).trans (isEmpty_iff_alive (KvMpsc.runOk_run h) hs.dropKeyQ)
  · intro s u order hs hw ha
    refine (ha.returnsNone_iff hs order).mpr ?_
    simp [kvMpscMultik, ConflictManager.waitingmsgsExist, hw]

def oneReceived : List (Action (ℕ × ℕ) Unit) :=
  [.send 0 (1, 10), .sender 0, .sender 0, .drop 0, .sender 0, .sender 0, .recv, .recvStep (),
    .recvStep ()]

theorem end_told_iff_none_alive_oneReceived :
    ∃ s, run (step (KvMpsc.kvMpsc ℕ ℕ)) (new (KvMpsc.kvMpsc ℕ ℕ))
        (oneReceived ++ [.dropMsg 0, .recv, .recvStep ()]) = some s ∧ Ended s ∧
      (ReturnsNone (KvMpsc.kvMpsc ℕ ℕ) () s ↔ s.alive = []) := by
  obtain ⟨s, hrun, hd, hq, hk, hr, htab⟩ :
      ∃ s, run (step (KvMpsc.kvMpsc ℕ ℕ)) (new (KvMpsc.kvMpsc ℕ ℕ))
          (oneReceived ++ [.dropMsg 0, .recv, .recvStep ()]) = some s ∧
        s.chan.sendersDropped = true ∧ s.chan.q = [] ∧ s.chan.dropKeyQ = [] ∧
        s.recv = .drain ∧ s.table.entries = [] :=
    ⟨_, rfl, rfl, rfl, rfl, rfl, rfl⟩
  have hs : Ended s := ⟨hd, hq, hk⟩
  have hwaiting : ∀ k waiting, s.table.get k = some waiting → waiting = [] := by
    intro k waiting hw
    have hmem := FinMap.get_eq_some.mp hw
    simp [htab] at hmem
  exact ⟨s, hrun, hs, (@end_told_iff_none_alive ℕ ℕ ℕ ℕ _ _ succUnbounded).1 _ s s hrun hs
    hwaiting (Or.inr ⟨rfl, Or.inl hr⟩)⟩

theorem end_withheld_oneReceived :
    ¬ ∀ (as : List (Action (ℕ × ℕ) Unit))
        (s u : System ℕ (ℕ × ℕ) (KvMpsc.UsingKeys ℕ ℕ) KvMpsc.Panic),
      run (step (KvMpsc.kvMpsc ℕ ℕ)) (new (KvMpsc.kvMpsc ℕ ℕ)) as = some s → Ended s →
        (∀ k waiting, s.table.get k = some waiting → waiting = []) →
        Asks (KvMpsc.kvMpsc ℕ ℕ) s u → ReturnsNone (KvMpsc.kvMpsc ℕ ℕ) () u := by
  intro h
  obtain ⟨s, u, hrun, hd, hq, hk, hu, htab⟩ :
      ∃ s u, run (step (KvMpsc.kvMpsc ℕ ℕ)) (new (KvMpsc.kvMpsc ℕ ℕ)) oneReceived = some s ∧
        s.chan.sendersDropped = true ∧ s.chan.q = [] ∧ s.chan.dropKeyQ = [] ∧
        s.step (KvMpsc.kvMpsc ℕ ℕ) .recv = some u ∧ s.table.entries = [(1, [])] :=
    ⟨_, _, rfl, rfl, rfl, rfl, rfl, rfl⟩
  have hs : Ended s := ⟨hd, hq, hk⟩
  have hwaiting : ∀ k waiting, s.table.get k = some waiting → waiting = [] := by
    intro k waiting hw
    have hmem := FinMap.get_eq_some.mp hw
    rw [htab] at hmem
    simp_all
  have hnone := h _ s u hrun hs hwaiting (Or.inl hu)
  have hempty := (Asks.returnsNone_iff hs (Or.inl hu) ()).mp hnone
  simp [KvMpsc.kvMpsc, FinMap.isEmpty, htab] at hempty

end PaQueueAndChan.KeyChannel
