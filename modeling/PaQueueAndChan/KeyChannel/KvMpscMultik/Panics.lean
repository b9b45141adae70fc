import PaQueueAndChan.KeyChannel.KvMpscMultik.Exclusion
import PaQueueAndChan.KeyChannel.KvMpscMultik.Stale

/-! The panics of the table when every message has distinct keys and ids are not bounded. -/

namespace PaQueueAndChan.KeyChannel.KvMpscMultik

open Library KeyChannel.System ConflictManager

variable {K V : Type} [LinearOrder K] {s s' : MultikSystem K V} {a : MultikAction K V}

section order

variable {cm : ConflictManager K V} {k : K} {order : IterOrder (WaitingMsgId × MsgRef)}

def startingWith (x : WaitingMsgId × MsgRef) : IterOrder (WaitingMsgId × MsgRef) where
  order l := if x ∈ l then x :: l.erase x else l
  perm l := by
    split_ifs with h
    · exact (List.perm_cons_erase h).symm
    · exact .refl _

lemma unuseDropedKey_stale (hheld : k ∈ cm.admission.held) (hs : cm.Stale k) :
    ∃ order, cm.unuseDropedKey order k = .error .deadWeak := by
  obtain ⟨self, hk, hu⟩ := hheld
  obtain ⟨id, a, ⟨r, hr, ht⟩, hd⟩ := hs
  obtain rfl := Option.some.inj (hk.symm.trans hr)
  refine ⟨startingWith (id, a), ?_⟩
  have hmem := FinMap.get_eq_some.mp ht
  have hup : (cm.setInUse self false).upgrade a = none := hd
  simp only [unuseDropedKey, hk, setUnuse, hu, if_true, bind_eq_error, reduceCtorEq, false_or,
    Except.ok.injEq, exists_eq_left', tryGetStopWaitingMsg]
  refine Or.inl (Or.inl ?_)
  simp [startingWith, hmem, search, hup]

end order

structure HandedOk (s : MultikSystem K V) : Prop where
  fresh : Fresh s.table
  stale : ∀ k, s.table.Stale k ↔ ∃ k₀ m, (k₀, m) ∈ s.handed ∧ k ∈ m.1 ∧ k ≠ k₀

lemma handedOk_step (ht : TableOk Wf admission s) (hs : HandedOk s)
    (h : s.step (kvMpscMultik K V succUnbounded) a = some s') : Stopped s' ∨ HandedOk s' := by
  cases step_moves h with
  | sender hq =>
    obtain ⟨_, htab, _, _, _, _, hh, _⟩ := senderStep_frame hq
    exact Or.inr ⟨htab ▸ hs.fresh, by simpa only [htab, hh] using hs.stale⟩
  | @release o k ks hr hk =>
    apply stopped_or_settle
    intro om t hres
    have hrel := unuseDropedKey_released ht.inv hres
    rw [settle_ok]
    refine ⟨hrel.fresh ht.inv hs.fresh, fun k' => ?_⟩
    change t.Stale k' ↔ _
    rw [hrel.stale ht.inv, hs.stale k']
    cases om with
    | none => simp
    | some m =>
      simp only [List.mem_append, Option.toList_some, List.flatMap_singleton, List.map_cons,
        List.map_nil, List.mem_singleton, Prod.mk.injEq, Option.some.injEq]
      constructor
      · rintro (⟨k₀, m', hm, hrest⟩ | ⟨m', rfl, hrest⟩)
        · exact ⟨k₀, m', Or.inl hm, hrest⟩
        · exact ⟨k, m, Or.inr ⟨rfl, rfl⟩, hrest⟩
      · rintro ⟨k₀, m', hm | ⟨rfl, rfl⟩, hrest⟩
        · exact Or.inl ⟨k₀, m', hm, hrest⟩
        · exact Or.inr ⟨_, rfl, hrest⟩
  | @handle o m ms hr hq =>
    apply stopped_or_settle
    intro om t hres
    have harr := handleNewMsg_arrived ht.inv hres
    rw [settle_ok]
    refine ⟨harr.fresh ht.inv hs.fresh, fun k' => ?_⟩
    change t.Stale k' ↔ _
    rw [harr.stale ht.inv hs.fresh, hs.stale k']
    cases om <;> simp
  | dropMsg hq =>
    obtain ⟨_, _, rfl⟩ := dropMsg_eq hq
    exact Or.inr ⟨hs.fresh, hs.stale⟩
  | dropStep hq =>
    obtain ⟨_, _, _, _, _, _, rfl⟩ := dropStep_eq hq
    exact Or.inr ⟨hs.fresh, hs.stale⟩
  | handles | recv | quiet | dropReceiver => exact Or.inr ⟨hs.fresh, hs.stale⟩

def NotPanicked (s : MultikSystem K V) : Prop := ∀ e, s.recv ≠ .panicked (some e)

/-- The key that the receiver takes out of `drop_key_q` was never listed by a message that had to
wait and was delivered on the release of another of its keys. -/
def ReleasesUnshared (s : MultikSystem K V) (a : MultikAction K V) : Prop :=
  ∀ order k ks, a = .recvStep order → s.recv = .drain → s.chan.dropKeyQ = k :: ks →
    ∀ k₀ m, (k₀, m) ∈ s.handed → k ∈ m.1 → k = k₀

def withoutOrder : MultikAction K V → Action (List K × V) Unit
  | .clone t t' => .clone t t'
  | .send t m => .send t m
  | .sender t => .sender t
  | .drop t => .drop t
  | .recv => .recv
  | .recvStep _ => .recvStep ()
  | .dropMsg i => .dropMsg i
  | .dropStep i => .dropStep i
  | .dropReceiver => .dropReceiver

omit [LinearOrder K] in
lemma withoutOrder_send {t : ℕ} {m : List K × V} (h : withoutOrder a = .send t m) :
    a = .send t m := by
  cases a <;> simp_all [withoutOrder]

structure Healthy (s : MultikSystem K V) : Prop where
  keyOk : KeyOk (kvMpscMultik K V succUnbounded) Wf admission s
  handedOk : HandedOk s

lemma healthy_new : Healthy (System.new (kvMpscMultik K V succUnbounded)) := by
  refine ⟨keyOk_new refines, fresh_new, fun k => ?_⟩
  have : ¬ (ConflictManager.new : ConflictManager K V).Stale k := not_stale_new
  simpa [System.new, kvMpscMultik] using this

lemma Healthy.tables (hs : Healthy s) (hp : NotPanicked s) :
    TableOk Wf admission s ∧ OwnedOk (kvMpscMultik K V succUnbounded) admission s :=
  hs.keyOk.table.resolve_left fun ⟨e, he⟩ => hp e he

lemma notPanicked_step (hs : Healthy s) (hp : NotPanicked s) (hc : ReleasesUnshared s a)
    (h : s.step (kvMpscMultik K V succUnbounded) a = some s') : NotPanicked s' := by
  obtain ⟨ht, ho⟩ := hs.tables hp
  intro e he
  rcases panicked_step h he with he | ⟨_, k, ks, ha, hrec, hk, herr⟩ | ⟨_, m, ms, _, _, hq, herr⟩
  · exact hp e he
  · rcases unuseDropedKey_error ht.inv (ho.held_of_release hk) herr with
      ⟨-, r, id, x, hr, hx, hd⟩ | ⟨m, hm, hn⟩
    · obtain ⟨k₀, m, hm, hkm, hne⟩ := (hs.handedOk.stale k).mp ⟨id, x, ⟨r, hr, hx⟩, hd⟩
      exact hne (hc _ k ks ha hrec hk k₀ m hm hkm)
    · exact hn (ho.distinct m (Or.inr (Or.inl hm)))
  · rcases handleNewMsg_error ht.inv herr with ⟨-, hn⟩ | ⟨-, hnone⟩ | ⟨-, hin⟩
    · exact hn (ho.distinct m (Or.inl (by simp [hq])))
    · cases hnone
    · obtain ⟨x, hx⟩ := Option.ne_none_iff_exists'.mp hin
      exact lt_irrefl _ (hs.handedOk.fresh.waitingmsgs hx)

lemma healthy_step (ha : ∀ t m, a = .send t m → m.1.Nodup) (hs : Healthy s) (hp : NotPanicked s)
    (hc : ReleasesUnshared s a) (h : s.step (kvMpscMultik K V succUnbounded) a = some s') :
    Healthy s' ∧ NotPanicked s' := by
  have hp' := notPanicked_step hs hp hc h
  refine ⟨⟨keyOk_step refines ha hs.keyOk h, ?_⟩, hp'⟩
  exact (handedOk_step (hs.tables hp).1 hs.handedOk h).resolve_left fun ⟨e, he⟩ => hp' e he

lemma panics_of_shared (hs : Healthy s) (hp : NotPanicked s) (hc : ¬ ReleasesUnshared s a) :
    ∃ b s', withoutOrder b = withoutOrder a ∧
      s.step (kvMpscMultik K V succUnbounded) b = some s' ∧ ¬ NotPanicked s' := by
  simp only [ReleasesUnshared, not_forall] at hc
  obtain ⟨order, k, ks, rfl, hrec, hk, k₀, m, hm, hkm, hne⟩ := hc
  obtain ⟨-, ho⟩ := hs.tables hp
  obtain ⟨order', herr⟩ := unuseDropedKey_stale (ho.held_of_release hk)
    ((hs.handedOk.stale k).mpr ⟨k₀, m, hm, hkm, hne⟩)
  have hrel : (kvMpscMultik K V succUnbounded).release order' s.table k = .error .deadWeak := herr
  have hstep : s.step (kvMpscMultik K V succUnbounded) (.recvStep order') =
      some (({ s with chan := { s.chan with dropKeyQ := ks } } : MultikSystem K V).goto
        (.panicked (some .deadWeak))) := by
    simp only [step, recvStep, hrec, hk, hrel]
    rfl
  exact ⟨.recvStep order', _, rfl, hstep, fun hn => hn .deadWeak rfl⟩

/-- Of messages with distinct keys, a schedule panics in no iteration order exactly when, in every
order, no key is released that was shared by a message handed over on another key. -/
theorem no_panic_iff_releases_unshared (as : List (MultikAction K V))
    (hd : ∀ t m, .send t m ∈ as → m.1.Nodup) :
    (∀ bs, bs.map withoutOrder = as.map withoutOrder →
        Always (step (kvMpscMultik K V succUnbounded)) NotPanicked
          (System.new (kvMpscMultik K V succUnbounded)) bs) ↔
      ∀ bs, bs.map withoutOrder = as.map withoutOrder →
        EachStep (step (kvMpscMultik K V succUnbounded)) ReleasesUnshared
          (System.new (kvMpscMultik K V succUnbounded)) bs := by
  apply forall_always_iff withoutOrder (I := Healthy)
    (A := fun b => ∀ t m, b = .send t m → m.1.Nodup)
  · intro s a t ha hs hp hc h
    exact healthy_step (fun t m he => ha t m (by rw [he]; rfl)) hs hp hc h
  · intro s a t _ hs hp hc _
    exact panics_of_shared hs hp hc
  · intro a ha t m he
    exact hd t m (withoutOrder_send he ▸ ha)
  · exact healthy_new
  · simp [NotPanicked, System.new]

def sharedHandedOver : List (MultikAction ℕ ℕ) :=
  [.send 0 ([1], 10), .sender 0, .sender 0, .send 0 ([1, 2], 11), .sender 0, .sender 0, .recv,
    .recvStep .stored, .recvStep .stored, .recv, .recvStep .stored, .recvStep .stored, .dropMsg 0,
    .recvStep .stored]

theorem no_panic_iff_releases_unshared_sharedHandedOver :
    (∃ s, run (step (kvMpscMultik ℕ ℕ succUnbounded))
        (System.new (kvMpscMultik ℕ ℕ succUnbounded)) sharedHandedOver = some s ∧
      s.handed = [(1, ([1, 2], 11))] ∧ s.alive = [([1, 2], 11)]) ∧
      ((∀ bs, bs.map withoutOrder = sharedHandedOver.map withoutOrder →
          Always (step (kvMpscMultik ℕ ℕ succUnbounded)) NotPanicked
            (System.new (kvMpscMultik ℕ ℕ succUnbounded)) bs) ↔
        ∀ bs, bs.map withoutOrder = sharedHandedOver.map withoutOrder →
          EachStep (step (kvMpscMultik ℕ ℕ succUnbounded)) ReleasesUnshared
            (System.new (kvMpscMultik ℕ ℕ succUnbounded)) bs) := by
  refine ⟨⟨_, rfl, rfl, rfl⟩, no_panic_iff_releases_unshared sharedHandedOver fun t m hm => ?_⟩
  simp only [sharedHandedOver, List.mem_cons, Action.send.injEq, reduceCtorEq, false_or,
    List.not_mem_nil, or_false] at hm
  rcases hm with ⟨-, rfl⟩ | ⟨-, rfl⟩ <;> decide

-- `[1, 2]` waits for `[1]`, is handed over and dropped, and its other key is released
def otherKeyReleased : List (MultikAction ℕ ℕ) :=
  [.send 0 ([1], 10), .sender 0, .sender 0, .send 0 ([1, 2], 11), .sender 0, .sender 0, .recv,
    .recvStep .stored, .recvStep .stored, .recv, .recvStep .stored, .recvStep .stored, .dropMsg 0,
    .recvStep .stored, .dropMsg 0, .dropStep 0, .dropStep 0, .recv, .recvStep .stored]

theorem panics_on_other_key_released :
    ¬ ∀ (as : List (MultikAction ℕ ℕ)) (s : MultikSystem ℕ ℕ),
      (∀ t m, .send t m ∈ as → m.1.Nodup) →
      run (step (kvMpscMultik ℕ ℕ succUnbounded))
        (System.new (kvMpscMultik ℕ ℕ succUnbounded)) as = some s → NotPanicked s := by
  intro h
  refine h otherKeyReleased _ (fun t m hm => ?_) rfl .deadWeak rfl
  simp only [otherKeyReleased, List.mem_cons, Action.send.injEq, reduceCtorEq, false_or,
    List.not_mem_nil, or_false] at hm
  rcases hm with ⟨-, rfl⟩ | ⟨-, rfl⟩ <;> decide

end PaQueueAndChan.KeyChannel.KvMpscMultik
