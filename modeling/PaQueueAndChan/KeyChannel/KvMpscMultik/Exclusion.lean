import PaQueueAndChan.KeyChannel.Exclusion
import PaQueueAndChan.KeyChannel.KvMpscMultik.Arrival
import PaQueueAndChan.KeyChannel.KvMpscMultik.Release

/-! Keys in use over whole runs of the channel: they are the keys that someone owns, as long as no
message lists a key twice. -/

namespace PaQueueAndChan.KeyChannel.KvMpscMultik

open Library KeyChannel.System ConflictManager

variable {K V : Type} [LinearOrder K] {succ : WaitingMsgId → Option WaitingMsgId}

lemma refines : (kvMpscMultik K V succ).Refines Wf admission where
  inv_empty := wf_new
  abs_empty := admission_new
  handle hw h := ⟨(handleNewMsg_arrived hw h).wf hw, (handleNewMsg_arrived hw h).arrive hw⟩
  release hw h := ⟨(unuseDropedKey_released hw h).wf hw, (unuseDropedKey_released hw h).release hw⟩
  closable := by
    intro cm _ hc
    have hempty : cm.waitingmsgs.isEmpty = true := by
      simpa [kvMpscMultik, waitingmsgsExist] using hc
    apply Multiset.eq_zero_of_forall_notMem
    intro m hm
    obtain ⟨id, a, w, hid, -⟩ := mem_waiting.mp hm
    simp [FinMap.isEmpty_iff.mp hempty] at hid

variable {s s' : MultikSystem K V}
  {a : MultikAction K V}

def Panic.Residual (e : Panic) : Prop := e = .deadWeak ∨ e = .idOverflow ∨ e = .idInserted

lemma residual_step (hs : KeyOk (kvMpscMultik K V succ) Wf admission s)
    (hr : ∀ e, s.recv = .panicked (some e) → e.Residual)
    (h : s.step (kvMpscMultik K V succ) a = some s') :
    ∀ e, s'.recv = .panicked (some e) → e.Residual := by
  intro e he
  rcases panicked_step h he with he | ⟨_, k, ks, _, hrec, hk, herr⟩ | ⟨_, m, ms, _, hrec, hq, herr⟩
  · exact hr e he
  · obtain ⟨ht, ho⟩ := hs.table.resolve_left fun ⟨x, hx⟩ => by simp [hrec] at hx
    rcases unuseDropedKey_error ht.inv (ho.held_of_release hk) herr with ⟨rfl, -⟩ | ⟨m, hm, hn⟩
    · exact Or.inl rfl
    · exact (hn (ho.distinct m (Or.inr (Or.inl hm)))).elim
  · obtain ⟨ht, ho⟩ := hs.table.resolve_left fun ⟨x, hx⟩ => by simp [hrec] at hx
    rcases handleNewMsg_error ht.inv herr with ⟨-, hn⟩ | ⟨rfl, -⟩ | ⟨rfl, -⟩
    · exact (hn (ho.distinct m (Or.inl (by simp [hq])))).elim
    · exact Or.inr (Or.inl rfl)
    · exact Or.inr (Or.inr rfl)

lemma keyOk_run {as : List (MultikAction K V)}
    (hd : ∀ t m, .send t m ∈ as → m.1.Nodup)
    (h : run (step (kvMpscMultik K V succ)) (System.new (kvMpscMultik K V succ)) as = some s) :
    KeyOk (kvMpscMultik K V succ) Wf admission s ∧
      ∀ e, s.recv = .panicked (some e) → e.Residual := by
  refine run_invariant_of_mem (A := fun a => ∀ t m, a = .send t m → m.1.Nodup)
    (I := fun s => KeyOk (kvMpscMultik K V succ) Wf admission s ∧
      ∀ e, s.recv = .panicked (some e) → e.Residual)
    (fun s a s' ha hs h => ⟨keyOk_step refines ha hs.1 h, residual_step hs.1 hs.2 h⟩)
    (fun a ha t m he => hd t m (by rwa [he] at ha)) ⟨keyOk_new refines, by simp [System.new]⟩ h

/-- While nothing has panicked, the keys of the live messages, those still to be pushed by drops
and those in `drop_key_q` are the keys in use, each once; no two live messages share a key; and a
message popped from `q` is set aside exactly when one of its keys is among them. -/
theorem keys_in_use_are_owned
    (as : List (MultikAction K V))
    (hd : ∀ t m, .send t m ∈ as → m.1.Nodup)
    (s : MultikSystem K V)
    (h : run (step (kvMpscMultik K V succ)) (System.new (kvMpscMultik K V succ)) as = some s)
    (hp : ∀ site, s.recv ≠ .panicked site) :
    (owned (kvMpscMultik K V succ) s).Nodup ∧
      (∀ k, k ∈ owned (kvMpscMultik K V succ) s ↔
        ∃ state, s.table.keysStates.get k = some state ∧ (s.table.heap state).inUse = true) ∧
      s.alive.Pairwise (fun m m' => m.1.Disjoint m'.1) ∧
      ∀ m ms, s.recv = .popQ → s.chan.q = m :: ms →
        ∀ answer cm, s.table.handleNewMsg succ m.1 m.2 = .ok (answer, cm) →
          (answer = none ↔ ∃ k ∈ m.1, k ∈ owned (kvMpscMultik K V succ) s) := by
  obtain ⟨hok, -⟩ := keyOk_run hd h
  obtain ⟨ht, ho⟩ := hok.table.resolve_left fun ⟨e, he⟩ => hp _ he
  refine ⟨ho.accounted.1, ho.accounted.2, hok.exclusive, fun m ms _ _ answer cm hm => ?_⟩
  have harr := (handleNewMsg_arrived ht.inv hm).arrive ht.inv
  rw [harr.none_iff]
  exact exists_congr fun k => and_congr_right fun _ => (ho.accounted.2 k).symm

def secondPopped : List (MultikAction ℕ ℕ) :=
  [.send 0 ([1, 2], 10), .sender 0, .sender 0, .send 0 ([2, 3], 11), .sender 0, .sender 0, .recv,
    .recvStep .stored, .recvStep .stored, .recv, .recvStep .stored]

theorem keys_in_use_are_owned_secondPopped :
    ∃ s, run (step (kvMpscMultik ℕ ℕ succChecked)) (System.new (kvMpscMultik ℕ ℕ succChecked))
        secondPopped = some s ∧
      s.chan.q = [([2, 3], 11)] ∧ (owned (kvMpscMultik ℕ ℕ succChecked) s).Nodup ∧
      (∀ k, k ∈ owned (kvMpscMultik ℕ ℕ succChecked) s ↔
        ∃ state, s.table.keysStates.get k = some state ∧ (s.table.heap state).inUse = true) ∧
      s.alive.Pairwise (fun m m' => m.1.Disjoint m'.1) ∧
      ∀ m ms, s.recv = .popQ → s.chan.q = m :: ms →
        ∀ answer cm, s.table.handleNewMsg succChecked m.1 m.2 = .ok (answer, cm) →
          (answer = none ↔ ∃ k ∈ m.1, k ∈ owned (kvMpscMultik ℕ ℕ succChecked) s) := by
  refine ⟨_, rfl, rfl, keys_in_use_are_owned secondPopped ?_ _ rfl ?_⟩
  · intro t m hm
    have : m = ([1, 2], 10) ∨ m = ([2, 3], 11) := by
      simp only [secondPopped, List.mem_cons, Action.send.injEq, reduceCtorEq, false_or,
        List.not_mem_nil, or_false] at hm
      exact hm.imp And.right And.right
    rcases this with rfl | rfl <;> decide
  · rintro site ⟨⟩

/-- Neither a flag has been set or cleared twice nor an unknown key released, and no two live
messages share a key. -/
def Harmless (s : MultikSystem K V) : Prop :=
  s.recv ≠ .panicked (some .setUse) ∧ s.recv ≠ .panicked (some .trySetUse) ∧
    s.recv ≠ .panicked (some .setUnuse) ∧ s.recv ≠ .panicked (some .unknownKey) ∧
    s.alive.Pairwise (fun m m' => m.1.Disjoint m'.1)

lemma handleNewMsg_repeated {cm : ConflictManager K V} {ks : List K} (v : V) (hw : Wf cm)
    (hn : ¬ ks.Nodup) (hfree : ∀ k ∈ ks, k ∉ cm.admission.held) :
    cm.handleNewMsg succ ks v = .error .setUse := by
  have hu : ¬ cm.anyUsing ks = true := by
    rw [anyUsing_iff]
    rintro ⟨k, hk, hheld⟩
    exact hfree k hk hheld
  rw [handleNewMsg, if_neg hu]
  cases h : cm.becomeUsing ks with
  | error e =>
    obtain ⟨rfl, -⟩ := becomeUsing_error hw h
    rfl
  | ok cm' => exact (hn (becomeUsing_ok hw h).2.1).elim

def sendAndRecv {K V : Type} (ks : List K) (v : V) :
    List (MultikAction K V) :=
  [.send 0 (ks, v), .sender 0, .sender 0, .recv, .recvStep .stored, .recvStep .stored]

lemma sendAndRecv_repeated (succ : WaitingMsgId → Option WaitingMsgId) {ks : List K} (v : V)
    (hn : ¬ ks.Nodup) :
    ∃ s, run (step (kvMpscMultik K V succ)) (System.new (kvMpscMultik K V succ))
        (sendAndRecv ks v) = some s ∧
      s.recv = .panicked (some .setUse) := by
  refine ⟨_, rfl, ?_⟩
  change (System.settle _ none (ConflictManager.new.handleNewMsg succ ks v)).recv = _
  rw [handleNewMsg_repeated v wf_new hn (by simp [admission_new])]
  rfl

/-- Sending only key vectors of a given kind is harmless in every run exactly when no vector of the
kind lists a key twice. -/
theorem harmless_iff_no_repeated_key (succ : WaitingMsgId → Option WaitingMsgId) (v : V)
    (kind : List K → Prop) :
    (∀ (as : List (MultikAction K V))
        (s : MultikSystem K V),
        (∀ t m, .send t m ∈ as → kind m.1) →
        run (step (kvMpscMultik K V succ)) (System.new (kvMpscMultik K V succ)) as = some s →
        Harmless s) ↔
      ∀ ks, kind ks → ks.Nodup := by
  constructor
  · intro h ks hks
    by_contra hn
    obtain ⟨s, hrun, hs⟩ := sendAndRecv_repeated succ v hn
    refine (h _ s (fun t m hm => ?_) hrun).1 hs
    obtain ⟨-, rfl⟩ : t = 0 ∧ m = (ks, v) := by simpa [sendAndRecv] using hm
    exact hks
  · intro hkind as s hsend hrun
    obtain ⟨hok, hres⟩ := keyOk_run (fun t m hm => hkind _ (hsend t m hm)) hrun
    refine ⟨fun he => ?_, fun he => ?_, fun he => ?_, fun he => ?_, hok.exclusive⟩ <;>
      simpa [Panic.Residual] using hres _ he

theorem not_harmless_key_listed_twice :
    ¬ ∀ (as : List (MultikAction ℕ ℕ))
      (s : MultikSystem ℕ ℕ),
      run (step (kvMpscMultik ℕ ℕ succChecked)) (System.new (kvMpscMultik ℕ ℕ succChecked)) as =
        some s → Harmless s := by
  intro h
  exact (h (sendAndRecv [1, 1] 7) _ rfl).1 rfl

end PaQueueAndChan.KeyChannel.KvMpscMultik
