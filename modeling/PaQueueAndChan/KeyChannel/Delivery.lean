import PaQueueAndChan.KeyChannel.Channel

/-! The channel over any table that admits messages as `Admission` says: no message is lost between
`q`, the waiting ones and those returned, and `sync_pop` ends with nothing left exactly when nothing
was pushed behind its empty test. -/

namespace PaQueueAndChan.KeyChannel

open Library

variable {κ μ τ ω ε : Type*}

/-- Wherever the code does not panic, the table behaves as the admission machine. -/
structure KeyTable.Refines (T : KeyTable κ μ τ ω ε) (Inv : τ → Prop) (abs : τ → Admission κ μ) :
    Prop where
  inv_empty : Inv T.empty
  abs_empty : abs T.empty = ⟨∅, 0⟩
  handle : ∀ {t m o t'}, Inv t → T.handle t m = .ok (o, t') →
    Inv t' ∧ Admission.Arrive T.keys (abs t) m o (abs t')
  release : ∀ {r t k o t'}, Inv t → T.release r t k = .ok (o, t') →
    Inv t' ∧ Admission.Release T.keys (abs t) k o (abs t')
  closable : ∀ {t}, Inv t → T.closable t = true → (abs t).waiting = 0

lemma KeyTable.Refines.noStranded {T : KeyTable κ μ τ ω ε} {Inv : τ → Prop}
    {abs : τ → Admission κ μ} (hT : T.Refines Inv abs) :
    T.Refines (fun t => Inv t ∧ Admission.NoStranded T.keys (abs t)) abs where
  inv_empty := ⟨hT.inv_empty, by simp [Admission.NoStranded, hT.abs_empty]⟩
  abs_empty := hT.abs_empty
  handle := by
    rintro t m o t' ⟨hi, hn⟩ h
    obtain ⟨hi', harr⟩ := hT.handle hi h
    exact ⟨⟨hi', harr.noStranded hn⟩, harr⟩
  release := by
    rintro r t k o t' ⟨hi, hn⟩ h
    obtain ⟨hi', hrel⟩ := hT.release hi h
    exact ⟨⟨hi', hrel.noStranded hn⟩, hrel⟩
  closable hi hc := hT.closable hi.1 hc

namespace System

variable {T : KeyTable κ μ τ ω ε} {Inv : τ → Prop} {abs : τ → Admission κ μ}
  {s s' : System κ μ τ ε} {a : Action μ ω}

lemma settle_ok (s : System κ μ τ ε) (released : Option κ) (o : Option μ) (t : τ) :
    s.settle released (.ok (o, t)) = { s with
      table := t, alive := s.alive ++ o.toList, returned := s.returned ++ o.toList
      handed := s.handed ++ o.toList.flatMap fun m => released.toList.map (·, m)
      recv := o.elim .drain fun m => .idle (some (some m)) } := by
  cases o <;> simp [settle, goto]

lemma settle_frame (s : System κ μ τ ε) (released : Option κ) (r : Except ε (Option μ × τ)) :
    (s.settle released r).senders = s.senders ∧ (s.settle released r).chan = s.chan ∧
      (s.settle released r).listener = s.listener ∧
      (s.settle released r).dropping = s.dropping := by
  rcases r with e | ⟨o, t⟩
  · exact ⟨rfl, rfl, rfl, rfl⟩
  · rw [settle_ok]
    exact ⟨rfl, rfl, rfl, rfl⟩

lemma settle_recv (s : System κ μ τ ε) (released : Option κ) (r : Except ε (Option μ × τ)) :
    (∃ e, (s.settle released r).recv = .panicked (some e)) ∨ (s.settle released r).recv = .drain ∨
      ∃ m, (s.settle released r).recv = .idle (some (some m)) := by
  rcases r with e | ⟨_ | m, t⟩
  · exact Or.inl ⟨e, rfl⟩
  · exact Or.inr (Or.inl rfl)
  · exact Or.inr (Or.inr ⟨m, rfl⟩)

lemma dropMsg_eq {i : ℕ} (h : s.dropMsg T i = some s') :
    ∃ m, s.alive[i]? = some m ∧ s' = { s with
      alive := s.alive.eraseIdx i, dropping := s.dropping ++ [(T.keys m).reverse.drop 1]
      chan := { s.chan with dropKeyQ := s.chan.dropKeyQ ++ (T.keys m).reverse.take 1 } } := by
  unfold dropMsg at h
  split at h
  · cases h
  · rename_i m hm
    refine ⟨m, hm, ?_⟩
    split at h <;> obtain rfl := Option.some.inj h <;> rename_i hk <;> simp [hk, pushDropKey]

lemma dropStep_eq {i : ℕ} (h : s.dropStep i = some s') :
    ∃ pushed left e rest, s.dropping[i]? = some (pushed ++ left) ∧
      (left = [] ∧ rest = s.dropping.eraseIdx i ∨ rest = s.dropping.set i left) ∧
      s' = { s with
        dropping := rest
        chan := { s.chan with dropKeyQ := s.chan.dropKeyQ ++ pushed, wakeRecvEvent := e } } := by
  unfold dropStep at h
  split at h
  · cases h
  · rename_i hd
    obtain rfl := Option.some.inj h
    exact ⟨[], [], s.chan.wakeRecvEvent.notify, _, hd, Or.inl ⟨rfl, rfl⟩, by simp [notify]⟩
  · rename_i k ks hd
    obtain rfl := Option.some.inj h
    exact ⟨[k], ks, _, _, hd, Or.inr rfl, rfl⟩

lemma sendersOk_new : SendersOk (new T) := Handles.ok_first (by simp [SendPc.Ends]) (by simp [new])

lemma sendersOk_senderStep {t : ℕ} (hs : SendersOk s) (h : s.senderStep t = some s') :
    SendersOk s' := by
  cases hpc : s.senders.pc t with
  | idle => simp [senderStep, hpc] at h
  | checked m =>
    simp only [senderStep, hpc, Option.some.injEq] at h
    subst h
    exact hs.set (hs.mem (by simp [hpc]) (by simp [hpc, SendPc.Ends])) (by simp [SendPc.Ends])
  | pushed =>
    simp only [senderStep, hpc, Option.some.injEq] at h
    subst h
    exact hs.set (hs.mem (by simp [hpc]) (by simp [hpc, SendPc.Ends])) (by simp [SendPc.Ends])
  | dropping =>
    simp only [senderStep, hpc, Option.some.injEq] at h
    subst h
    exact hs.advance (Or.inl hpc) (Or.inr (Or.inr rfl))
  | closing =>
    simp only [senderStep, hpc, Option.some.injEq] at h
    subst h
    exact hs.advance (Or.inr hpc) (Or.inl rfl)

lemma sendersOk_step (hs : SendersOk s) (h : s.step T a = some s') : SendersOk s' := by
  cases step_moves h with
  | handles senders _ hok => exact hok hs
  | sender h => exact sendersOk_senderStep hs h
  | release | handle => simpa only [SendersOk, settle_frame] using hs
  | dropMsg h =>
    obtain ⟨_, _, rfl⟩ := dropMsg_eq h
    exact hs
  | dropStep h =>
    obtain ⟨_, _, _, _, _, _, rfl⟩ := dropStep_eq h
    exact hs
  | recv | quiet | dropReceiver => exact hs

lemma SendersOk.senderStep_of_ended {t : ℕ} (hs : SendersOk s)
    (hd : s.chan.sendersDropped = true) (h : s.senderStep t = some s') :
    s'.chan.q = s.chan.q ∧ s'.sent = s.sent ∧ s'.table = s.table ∧ s'.returned = s.returned := by
  rcases (hs.ended hd).2 t with hpc | hpc | hpc <;>
    simp only [senderStep, hpc, reduceCtorEq, Option.some.injEq] at h
  all_goals
    subst h
    exact ⟨rfl, rfl, rfl, rfl⟩

lemma senderStep_frame {t : ℕ} (h : s.senderStep t = some s') :
    s'.recv = s.recv ∧ s'.table = s.table ∧ s'.alive = s.alive ∧ s'.dropping = s.dropping ∧
      s'.chan.dropKeyQ = s.chan.dropKeyQ ∧ s'.returned = s.returned ∧ s'.handed = s.handed ∧
      s'.listener = s.listener ∧
      (s.chan.sendersDropped = true → s'.chan.sendersDropped = true) := by
  revert h
  fun_cases senderStep s t <;> rintro ⟨⟩ <;> simp [notify]

lemma senderStep_queues {t : ℕ} (h : s.senderStep t = some s') :
    ∃ new, s'.chan.q = s.chan.q ++ new ∧ s'.sent = s.sent ++ new ∧
      s'.sinceTest = s.sinceTest ++ new ∧ (∀ m ∈ new, s.senders.pc t = .checked m) ∧
      ∀ u m, s'.senders.pc u = .checked m → s.senders.pc u = .checked m := by
  have hset : ∀ c, (∀ m, c ≠ .checked m) → ∀ u m,
      Function.update s.senders.pc t c u = .checked m → s.senders.pc u = .checked m := by
    intro c hc u m hu
    by_cases he : u = t
    · subst he
      exact (hc m (by simpa using hu)).elim
    · simpa [he] using hu
  cases hpc : s.senders.pc t with
  | idle => simp [senderStep, hpc] at h
  | checked m =>
    simp only [senderStep, hpc, Option.some.injEq] at h
    subst h
    exact ⟨[m], rfl, rfl, rfl, by simp, hset _ (by simp)⟩
  | _ =>
    simp only [senderStep, hpc, Option.some.injEq] at h
    subst h
    exact ⟨[], by simp, by simp, by simp, by simp, hset _ (by simp)⟩

structure LoopOk (s : System κ μ τ ε) : Prop where
  window : s.recv = .testDrop ∨ s.recv = .close → s.chan.q = s.sinceTest
  told : s.recv = .idle (some none) → s.chan.sendersDropped = true
  listener : s.listener = true ∨ s.recv = .waiting ∨ s.recv = .relisten ∨ s.recv = .dropped ∨
    ∃ e, s.recv = .panicked (some e)
  present : s.recv ≠ .panicked none

lemma loopOk_new : LoopOk (new T) := ⟨by simp [new], by simp [new], Or.inl rfl, by simp [new]⟩

lemma LoopOk.settle {s u : System κ μ τ ε} (hs : LoopOk s) (hr : s.recv = .drain ∨ s.recv = .popQ)
    (hl : u.listener = s.listener) (released : Option κ) (r : Except ε (Option μ × τ)) :
    LoopOk (u.settle released r) := by
  have hlis : s.listener = true := by
    have := hs.listener
    rcases hr with hr | hr <;> simpa [hr] using this
  rcases settle_recv u released r with ⟨e, h⟩ | h | ⟨m, h⟩ <;>
    exact ⟨by simp [h], by simp [h], Or.inl (by simp [settle_frame, hl, hlis]), by simp [h]⟩

lemma loopOk_recvStep {o : ω} (hs : LoopOk s) (h : s.recvStep T o = some s') : LoopOk s' := by
  have hlis := hs.listener
  cases hr : s.recv with
  | idle | panicked | dropped => simp [recvStep, hr] at h
  | drain =>
    cases hk : s.chan.dropKeyQ with
    | nil =>
      simp only [recvStep, hr, hk, Option.some.injEq] at h
      subst h
      exact ⟨by simp, by simp, Or.inl (by simpa [hr] using hlis), by simp⟩
    | cons k ks =>
      simp only [recvStep, hr, hk, Option.some.injEq] at h
      subst h
      refine hs.settle (Or.inl hr) ?_ _ _
      rfl
  | popQ =>
    cases hm : s.chan.q with
    | nil =>
      simp only [recvStep, hr, hm, Option.some.injEq] at h
      subst h
      exact ⟨by simp, by simp, Or.inl (by simpa [hr] using hlis), by simp⟩
    | cons m ms =>
      simp only [recvStep, hr, hm, Option.some.injEq] at h
      subst h
      refine hs.settle (Or.inr hr) ?_ _ _
      rfl
  | testQ =>
    simp only [recvStep, hr] at h
    split_ifs at h with hq <;> obtain rfl := Option.some.inj h
    · exact ⟨fun _ => List.isEmpty_iff.mp hq, by simp, Or.inl (by simpa [hr] using hlis), by simp⟩
    · exact ⟨by simp, by simp, Or.inl (by simpa [hr] using hlis), by simp⟩
  | testDrop =>
    simp only [recvStep, hr] at h
    split_ifs at h with hq <;> obtain rfl := Option.some.inj h
    · exact ⟨fun _ => hs.window (Or.inl hr), by simp, Or.inl (by simpa [hr] using hlis), by simp⟩
    · exact ⟨by simp, by simp, Or.inl (by simpa [hr] using hlis), by simp⟩
  | close =>
    simp only [recvStep, hr] at h
    split_ifs at h with hc <;> obtain rfl := Option.some.inj h
    · rw [Bool.and_eq_true] at hc
      exact ⟨by simp, fun _ => hc.2, Or.inl (by simpa [hr] using hlis), by simp⟩
    · exact ⟨by simp, by simp, Or.inl (by simpa [hr] using hlis), by simp⟩
  | takeListener =>
    have hl : s.listener = true := by simpa [hr] using hlis
    simp only [recvStep, hr, hl, if_true, Option.some.injEq] at h
    subst h
    exact ⟨by simp, by simp, by simp, by simp⟩
  | waiting =>
    simp only [recvStep, hr] at h
    split_ifs at h
    obtain rfl := Option.some.inj h
    exact ⟨by simp, by simp, by simp, by simp⟩
  | relisten =>
    simp only [recvStep, hr, Option.some.injEq] at h
    subst h
    exact ⟨by simp, by simp, Or.inl rfl, by simp⟩

lemma loopOk_step (hs : LoopOk s) (h : s.step T a = some s') : LoopOk s' := by
  cases step_moves h with
  | handles => exact ⟨hs.window, hs.told, hs.listener, hs.present⟩
  | sender h =>
    obtain ⟨hr, _, _, _, _, _, _, hl, hd⟩ := senderStep_frame h
    obtain ⟨new, hq, _, ht, _⟩ := senderStep_queues h
    constructor
    · intro hw
      rw [hq, ht, hs.window (by simpa only [hr] using hw)]
    · intro hw
      exact hd (hs.told (hr ▸ hw))
    · simpa only [hr, hl] using hs.listener
    · exact hr ▸ hs.present
  | recv hr => exact ⟨by simp, by simp, Or.inl (by simpa [hr] using hs.listener), by simp⟩
  | release | handle => exact loopOk_recvStep hs h
  | quiet e l r st h => exact loopOk_recvStep hs h
  | dropMsg h =>
    obtain ⟨_, _, rfl⟩ := dropMsg_eq h
    exact ⟨hs.window, hs.told, hs.listener, hs.present⟩
  | dropStep h =>
    obtain ⟨_, _, _, _, _, _, rfl⟩ := dropStep_eq h
    exact ⟨hs.window, hs.told, hs.listener, hs.present⟩
  | dropReceiver => exact ⟨by simp, by simp, by simp, by simp⟩

def Stopped (s : System κ μ τ ε) : Prop := ∃ e, s.recv = .panicked (some e)

lemma stopped_or_settle {P : System κ μ τ ε → Prop} {u : System κ μ τ ε} {released : Option κ}
    {r : Except ε (Option μ × τ)}
    (h : ∀ o t, r = .ok (o, t) → P (u.settle released (.ok (o, t)))) :
    Stopped (u.settle released r) ∨ P (u.settle released r) := by
  rcases r with e | ⟨o, t⟩
  · exact Or.inl ⟨e, rfl⟩
  · exact Or.inr (h o t rfl)

structure TableOk (Inv : τ → Prop) (abs : τ → Admission κ μ) (s : System κ μ τ ε) : Prop where
  inv : Inv s.table
  conserved : (s.sent : Multiset μ) = s.returned + (abs s.table).waiting + s.chan.q

lemma tableOk_new (hT : T.Refines Inv abs) : TableOk Inv abs (new T) :=
  ⟨hT.inv_empty, by simp [new, hT.abs_empty]⟩

lemma stopped_step (hs : Stopped s) (h : s.step T a = some s') : Stopped s' := by
  obtain ⟨e, he⟩ := hs
  cases step_moves h with
  | handles => exact ⟨e, he⟩
  | sender h => exact ⟨e, (senderStep_frame h).1.trans he⟩
  | dropMsg h =>
    obtain ⟨_, _, rfl⟩ := dropMsg_eq h
    exact ⟨e, he⟩
  | dropStep h =>
    obtain ⟨_, _, _, _, _, _, rfl⟩ := dropStep_eq h
    exact ⟨e, he⟩
  | quiet _ _ _ _ hq => simp [recvStep, he] at hq
  | recv hr | release hr | handle hr | dropReceiver hr => simp [he] at hr

lemma tableOk_step (hT : T.Refines Inv abs) (hs : TableOk Inv abs s) (h : s.step T a = some s') :
    Stopped s' ∨ TableOk Inv abs s' := by
  obtain ⟨hinv, hcons⟩ := hs
  cases step_moves h with
  | handles => exact Or.inr ⟨hinv, hcons⟩
  | sender h =>
    obtain ⟨_, ht, _, _, _, hret, _⟩ := senderStep_frame h
    obtain ⟨new, hq, hsent, _⟩ := senderStep_queues h
    refine Or.inr ⟨ht ▸ hinv, ?_⟩
    rw [hq, hsent, ht, hret, ← Multiset.coe_add, hcons, ← Multiset.coe_add]
    abel
  | @release o k ks hr hk =>
    apply stopped_or_settle
    intro om t hres
    obtain ⟨hinv', hrel⟩ := hT.release hinv hres
    rw [settle_ok]
    refine ⟨hinv', ?_⟩
    change (s.sent : Multiset μ) = (s.returned ++ om.toList : List μ) + (abs t).waiting + s.chan.q
    rw [hcons, ← hrel.waiting_add, ← Multiset.coe_add]
    abel
  | @handle o m ms hr hq =>
    apply stopped_or_settle
    intro om t hres
    obtain ⟨hinv', harr⟩ := hT.handle hinv hres
    rw [settle_ok]
    refine ⟨hinv', ?_⟩
    change (s.sent : Multiset μ) = (s.returned ++ om.toList : List μ) + (abs t).waiting + ms
    rw [hcons, hq, ← Multiset.coe_add, ← Multiset.cons_coe, ← Multiset.singleton_add]
    calc (s.returned + (abs s.table).waiting + ({m} + ms) : Multiset μ)
        = s.returned + ((abs s.table).waiting + {m}) + ms := by abel
      _ = s.returned + om.toList + (abs t).waiting + ms := by
        rw [← harr.waiting_add]
        abel
  | dropMsg h =>
    obtain ⟨_, _, rfl⟩ := dropMsg_eq h
    exact Or.inr ⟨hinv, hcons⟩
  | dropStep h =>
    obtain ⟨_, _, _, _, _, _, rfl⟩ := dropStep_eq h
    exact Or.inr ⟨hinv, hcons⟩
  | recv | quiet | dropReceiver => exact Or.inr ⟨hinv, hcons⟩

def Drained (abs : τ → Admission κ μ) (s : System κ μ τ ε) : Prop :=
  s.recv = .idle (some none) →
    s.chan.q = [] ∧ (abs s.table).waiting = 0 ∧ (s.sent : Multiset μ) = s.returned

/-- `sync_pop` leaves by its close test only if nothing was pushed since its empty test. -/
def ClosesOnEmpty (T : KeyTable κ μ τ ω ε) (s : System κ μ τ ε) (a : Action μ ω) : Prop :=
  ∀ o, a = .recvStep o → s.recv = .close → T.closable s.table = true →
    s.chan.sendersDropped = true → s.sinceTest = []

lemma settle_recv_ne_closed (s : System κ μ τ ε) (released : Option κ)
    (r : Except ε (Option μ × τ)) : (s.settle released r).recv ≠ .idle (some none) := by
  rcases settle_recv s released r with ⟨_, h⟩ | h | ⟨_, h⟩ <;> simp [h]

lemma recvStep_closed {o : ω} (h : s.recvStep T o = some s') (hc : s'.recv = .idle (some none)) :
    s.recv = .close ∧ T.closable s.table = true ∧ s.chan.sendersDropped = true := by
  revert h hc
  fun_cases recvStep T s o <;> rintro ⟨⟩ hc <;> first
    | exact (settle_recv_ne_closed _ _ _ hc).elim
    | simp_all

lemma drained_step (hT : T.Refines Inv abs) (hs : SendersOk s) (hl : LoopOk s)
    (ht : Stopped s ∨ TableOk Inv abs s) (hd : Drained abs s) (h : s.step T a = some s') :
    Drained abs s' ↔ ClosesOnEmpty T s a := by
  cases step_moves h with
  | handles senders ha => exact iff_of_true hd fun o hao => (ha o hao).elim
  | sender hq =>
    refine iff_of_true (fun hr => ?_) (by simp [ClosesOnEmpty])
    rw [(senderStep_frame hq).1] at hr
    obtain ⟨h1, h2, h3, h4⟩ := hs.senderStep_of_ended (hl.told hr) hq
    simpa only [h1, h2, h3, h4] using hd hr
  | recv => simp [Drained, ClosesOnEmpty]
  | release hr =>
    apply iff_of_true
    · intro hc
      exact (settle_recv_ne_closed _ _ _ hc).elim
    · simp [ClosesOnEmpty, hr]
  | handle hr =>
    apply iff_of_true
    · intro hc
      exact (settle_recv_ne_closed _ _ _ hc).elim
    · simp [ClosesOnEmpty, hr]
  | dropMsg hq =>
    obtain ⟨_, _, rfl⟩ := dropMsg_eq hq
    exact iff_of_true hd (by simp [ClosesOnEmpty])
  | dropStep hq =>
    obtain ⟨_, _, _, _, _, _, rfl⟩ := dropStep_eq hq
    exact iff_of_true hd (by simp [ClosesOnEmpty])
  | dropReceiver => simp [Drained, ClosesOnEmpty]
  | quiet e l r st hq =>
    by_cases hc : s.recv = .close ∧ T.closable s.table = true ∧ s.chan.sendersDropped = true
    · obtain ⟨hr, hcl, hsd⟩ := hc
      have hok : TableOk Inv abs s := ht.resolve_left fun ⟨x, hx⟩ => by simp [hr] at hx
      have hw := hT.closable hok.inv hcl
      have hcons := hok.conserved
      simp only [recvStep, hr, hcl, hsd, Bool.and_true, if_true, Option.some.injEq, goto,
        System.mk.injEq] at hq
      obtain ⟨-, -, -, -, rfl, -⟩ := hq
      simp only [Drained, ClosesOnEmpty, hr, hcl, hsd, hw, hl.window (Or.inr hr), true_implies,
        true_and, Action.recvStep.injEq]
      constructor
      · rintro ⟨h0, -⟩ _ -
        exact h0
      · intro h0
        have h0 := h0 _ rfl
        rw [hw, hl.window (Or.inr hr), h0] at hcons
        exact ⟨h0, by simpa using hcons⟩
    · refine iff_of_true (fun hr => (hc (recvStep_closed hq hr)).elim) ?_
      rintro _ - hr hcl hsd
      exact (hc ⟨hr, hcl, hsd⟩).elim

lemma drained_iff (hT : T.Refines Inv abs) (as : List (Action μ ω)) :
    Always (step T) (Drained abs) (new T) as ↔ EachStep (step T) (ClosesOnEmpty T) (new T) as := by
  refine always_iff_eachStep
    (I := fun s => SendersOk s ∧ LoopOk s ∧ (Stopped s ∨ TableOk Inv abs s))
    (fun s a s' hs h => ⟨sendersOk_step hs.1 h, loopOk_step hs.2.1 h, ?_⟩)
    (fun s a s' hs hd h => drained_step hT hs.1 hs.2.1 hs.2.2 hd h) as
    ⟨sendersOk_new, loopOk_new, Or.inr (tableOk_new hT)⟩ (by simp [Drained, new])
  rcases hs.2.2 with hst | hok
  · exact Or.inl (stopped_step hst h)
  · exact tableOk_step hT hok h

end System

end PaQueueAndChan.KeyChannel
