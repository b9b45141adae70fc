import PaQueueAndChan.KeyChannel.WakeUp
import PaQueueAndChan.KeyChannel.KvMpscMultik.Panics

/-! The consumer's loop while no call of a sender is in progress: calls of `recv`, until it is told
`Closed` if the senders are gone, and drops of the messages it got, in any order and at any moment.
The loop comes to rest, and with everything. -/

namespace PaQueueAndChan.KeyChannel

open Library

variable {κ μ τ ω ε : Type*}

-- of a receiver that is left alone, the steps before it blocks or returns
def RecvPc.left (qWaits keysWait : Bool) : RecvPc μ ε → ℕ
  | .idle (some none) | .panicked _ | .dropped => 0
  | .idle _ | .relisten => 8
  | .drain => 7
  | .popQ => 6 + if keysWait then 4 else 0
  | .testQ => (if qWaits then 8 else 5) + if keysWait then 4 else 0
  | .testDrop => 4 + if keysWait then 4 else 0
  | .close => 3
  | .takeListener => 2
  | .waiting => 1

-- behind the empty test of `q`, with the close test still to come
def RecvPc.Searched (r : RecvPc μ ε) : Prop := r = .testDrop ∨ r = .close

def Event.debt (e : Event) : ℕ := if e.listener = some true then 8 else 0

namespace System

variable {T : KeyTable κ μ τ ω ε} {Inv : τ → Prop} {abs : τ → Admission κ μ}
  {s s' : System κ μ τ ε} {a : Action μ ω} {m : μ}

def Consumes (s : System κ μ τ ε) : Action μ ω → Prop
  | .recv => s.recv ≠ .idle (some none)
  | .recvStep _ | .dropMsg _ | .dropStep _ => True
  | _ => False

def weight (T : KeyTable κ μ τ ω ε) (c : ℕ) (m : μ) : ℕ := c + 7 * (T.keys m).length

/-- What is left to do: for each message the way from `q` over its waiting and its life to the
release of its keys, and the rounds of the receiver that this may cost. -/
def work (T : KeyTable κ μ τ ω ε) (abs : τ → Admission κ μ) (s : System κ μ τ ε) : ℕ :=
  (s.chan.q.map (weight T 14)).sum + ((abs s.table).waiting.map (weight T 12)).sum +
    (s.alive.map (weight T 10)).sum + (s.dropping.map fun ks => 9 + 7 * ks.length).sum +
    2 * s.chan.dropKeyQ.length + s.chan.wakeRecvEvent.debt +
    s.recv.left (!s.chan.q.isEmpty) (!s.chan.dropKeyQ.isEmpty)

structure DrainOk (T : KeyTable κ μ τ ω ε) (Inv : τ → Prop) (abs : τ → Admission κ μ)
    (s : System κ μ τ ε) : Prop where
  idle : ∀ t, s.senders.pc t = .idle
  key : KeyOk T Inv abs s
  wake : WakeOk T s
  empty : s.chan.sendersDropped = true → s.recv.Searched → s.chan.q = []
  told : s.recv = .idle (some none) → s.chan.q = [] ∧ (abs s.table).waiting = 0
  here : s.recv ≠ .dropped

lemma Event.debt_le (e : Event) : e.debt ≤ 8 := by
  unfold Event.debt
  split_ifs <;> omega

lemma sum_eraseIdx {α : Type*} {l : List α} {i : ℕ} {x : α} (f : α → ℕ) (h : l[i]? = some x) :
    (l.map f).sum = f x + ((l.eraseIdx i).map f).sum := by
  rw [((perm_eraseIdx h).map f).sum_eq, List.map_cons, List.sum_cons]

lemma sum_set {α : Type*} {l : List α} {i : ℕ} {x : α} (f : α → ℕ) (h : l[i]? = some x) (y : α) :
    ((l.set i y).map f).sum + f x = (l.map f).sum + f y := by
  rw [((perm_set h y).map f).sum_eq, sum_eraseIdx f h, List.map_cons, List.sum_cons]
  omega

lemma left_le (r : RecvPc μ ε) (q b b' : Bool) : r.left q b ≤ r.left q b' + 4 := by
  cases r with
  | idle last => rcases last with _ | _ | _ <;> simp [RecvPc.left]
  | _ =>
    simp only [RecvPc.left]
    (first | split_ifs | skip) <;> omega

lemma weight_add (c d : ℕ) : weight T (c + d) m = weight T c m + d := by
  simp only [weight]
  omega

lemma work_dropMsg {i : ℕ} (h : s.dropMsg T i = some s') : work T abs s' < work T abs s := by
  unfold dropMsg at h
  split at h
  · cases h
  · next m hm =>
    have halive := sum_eraseIdx (weight T 10) hm
    have hw : weight T 10 m = 10 + 7 * (T.keys m).reverse.length := by
      rw [weight, List.length_reverse]
    split at h <;> rename_i hk <;> obtain rfl := Option.some.inj h
    · rw [hk, List.length_nil] at hw
      simp only [work, halive, List.map_append, List.sum_append, List.map_cons, List.map_nil,
        List.sum_cons, List.sum_nil, List.length_nil]
      omega
    · next k ks =>
      rw [hk, List.length_cons] at hw
      have hleft := left_le s.recv (!s.chan.q.isEmpty) (!(s.chan.dropKeyQ ++ [k]).isEmpty)
        (!s.chan.dropKeyQ.isEmpty)
      simp only [work, pushDropKey, halive, List.map_append, List.sum_append, List.map_cons,
        List.map_nil, List.sum_cons, List.sum_nil, List.length_append, List.length_cons,
        List.length_nil]
      omega

lemma work_dropStep {i : ℕ} (h : s.dropStep i = some s') : work T abs s' < work T abs s := by
  unfold dropStep at h
  split at h
  · cases h
  · next hd =>
    obtain rfl := Option.some.inj h
    have hdrop := sum_eraseIdx (fun ks => 9 + 7 * ks.length) hd
    have hdebt := Event.debt_le s.chan.wakeRecvEvent.notify
    simp only [work, notify, hdrop, List.length_nil]
    omega
  · next k ks hd =>
    obtain rfl := Option.some.inj h
    have hdrop := sum_set (fun ks => 9 + 7 * ks.length) hd ks
    have hleft := left_le s.recv (!s.chan.q.isEmpty) (!(s.chan.dropKeyQ ++ [k]).isEmpty)
      (!s.chan.dropKeyQ.isEmpty)
    simp only [List.length_cons] at hdrop
    simp only [work, pushDropKey, List.length_append, List.length_cons, List.length_nil]
    omega

lemma work_release {o : ω} {k : κ} {ks : List κ} (hT : T.Refines Inv abs) (hs : TableOk Inv abs s)
    (hr : s.recv = .drain) (hk : s.chan.dropKeyQ = k :: ks) :
    work T abs (({ s with chan := { s.chan with dropKeyQ := ks } } : System κ μ τ ε).settle (some k)
      (T.release o s.table k)) < work T abs s := by
  cases hres : T.release o s.table k with
  | error e =>
    simp only [work, settle, goto, hk, hr, RecvPc.left, List.length_cons]
    omega
  | ok res =>
    obtain ⟨om, t⟩ := res
    have hwait := congrArg (fun w => (w.map (weight T 12)).sum)
      (hT.release hs.inv hres).2.waiting_add
    simp only [Multiset.map_add, Multiset.sum_add] at hwait
    rw [settle_ok]
    cases om with
    | none =>
      simp only [work, hk, hr, RecvPc.left, List.length_cons, Option.elim_none, Option.toList_none,
        List.append_nil]
      simp at hwait
      omega
    | some m =>
      have hw : weight T 12 m = weight T 10 m + 2 := weight_add 10 2
      simp only [work, hk, hr, RecvPc.left, List.length_cons, Option.elim_some, Option.toList_some,
        List.map_append, List.sum_append, List.map_cons, List.map_nil, List.sum_cons, List.sum_nil]
      simp at hwait
      omega

lemma work_handle {m : μ} {ms : List μ} (hT : T.Refines Inv abs) (hs : TableOk Inv abs s)
    (hr : s.recv = .popQ) (hq : s.chan.q = m :: ms) :
    work T abs (({ s with chan := { s.chan with q := ms } } : System κ μ τ ε).settle none
      (T.handle s.table m)) < work T abs s := by
  have hw : weight T 14 m = weight T 12 m + 2 := weight_add 12 2
  cases hres : T.handle s.table m with
  | error e =>
    simp only [work, settle, goto, hq, hr, RecvPc.left, List.map_cons, List.sum_cons]
    omega
  | ok res =>
    obtain ⟨om, t⟩ := res
    have hwait := congrArg (fun w => (w.map (weight T 12)).sum)
      (hT.handle hs.inv hres).2.waiting_add
    simp only [Multiset.map_add, Multiset.sum_add, Multiset.map_singleton,
      Multiset.sum_singleton] at hwait
    rw [settle_ok]
    cases om with
    | none =>
      simp only [work, hq, hr, RecvPc.left, List.map_cons, List.sum_cons, Option.elim_none,
        Option.toList_none, List.append_nil]
      simp at hwait
      omega
    | some m' =>
      have hw' : weight T 12 m' = weight T 10 m' + 2 := weight_add 10 2
      simp only [work, hq, hr, RecvPc.left, List.map_cons, List.sum_cons, Option.elim_some,
        Option.toList_some, List.map_append, List.sum_append, List.map_nil, List.sum_nil]
      simp at hwait
      omega

lemma KeyOk.tables (hs : KeyOk T Inv abs s) (hr : ∀ e, s.recv ≠ .panicked (some e)) :
    TableOk Inv abs s ∧ OwnedOk T abs s := by
  refine hs.table.resolve_left ?_
  rintro ⟨e, he⟩
  exact hr e he

lemma work_recvStep {o : ω} (hT : T.Refines Inv abs) (hs : DrainOk T Inv abs s)
    (h : s.recvStep T o = some s') : work T abs s' < work T abs s := by
  unfold recvStep at h
  cases hr : s.recv with
  | idle | panicked | dropped => simp [hr] at h
  | drain =>
    obtain ⟨ht, -⟩ := hs.key.tables (by simp [hr])
    cases hk : s.chan.dropKeyQ with
    | nil =>
      simp only [hr, hk, Option.some.injEq] at h
      subst h
      simp [work, goto, hr, hk, RecvPc.left]
    | cons k ks =>
      simp only [hr, hk, Option.some.injEq] at h
      exact h ▸ work_release hT ht hr hk
  | popQ =>
    obtain ⟨ht, -⟩ := hs.key.tables (by simp [hr])
    cases hm : s.chan.q with
    | nil =>
      simp only [hr, hm, Option.some.injEq] at h
      subst h
      simp [work, goto, hr, hm, RecvPc.left]
    | cons m ms =>
      simp only [hr, hm, Option.some.injEq] at h
      exact h ▸ work_handle hT ht hr hm
  | testQ =>
    simp only [hr] at h
    split_ifs at h with hq <;> obtain rfl := Option.some.inj h
    · simp [work, goto, hr, hq, RecvPc.left]
    · simp only [work, goto, hr, hq, RecvPc.left]
      simp
      omega
  | testDrop =>
    simp only [hr] at h
    split_ifs at h with hk <;> obtain rfl := Option.some.inj h <;>
      simp [work, goto, hr, hk, RecvPc.left]
  | close =>
    simp only [hr] at h
    split_ifs at h <;> obtain rfl := Option.some.inj h <;> simp [work, goto, hr, RecvPc.left]
  | takeListener =>
    simp only [hr] at h
    split_ifs at h <;> obtain rfl := Option.some.inj h <;> simp [work, goto, hr, RecvPc.left]
  | waiting =>
    simp only [hr] at h
    split_ifs at h with hl
    obtain rfl := Option.some.inj h
    simp [work, goto, hr, RecvPc.left, Event.debt, hl]
  | relisten =>
    simp only [hr, Option.some.injEq] at h
    subst h
    simp only [work, goto, hr, RecvPc.left, Event.debt, Event.listen]
    simp

lemma consumes_frame (hc : Consumes s a) (h : s.step T a = some s') :
    s'.senders = s.senders ∧ s'.chan.sendersDropped = s.chan.sendersDropped ∧
      (s.chan.q = [] → s'.chan.q = []) := by
  cases a with
  | clone | send | sender | drop | dropReceiver => exact hc.elim
  | recv =>
    cases hr : s.recv with
    | idle last =>
      simp only [step, hr, Option.some.injEq] at h
      subst h
      exact ⟨rfl, rfl, id⟩
    | _ => simp [step, hr] at h
  | recvStep o =>
    cases recvStep_moves h with
    | handles _ hn => exact (hn o rfl).elim
    | release => exact ⟨(settle_frame ..).1, by rw [(settle_frame ..).2.1],
        by rw [(settle_frame ..).2.1]; exact id⟩
    | handle hr hq => exact ⟨(settle_frame ..).1, by rw [(settle_frame ..).2.1], by simp [hq]⟩
    | quiet => exact ⟨rfl, rfl, id⟩
  | dropMsg i =>
    obtain ⟨_, _, rfl⟩ := dropMsg_eq h
    exact ⟨rfl, rfl, id⟩
  | dropStep i =>
    obtain ⟨_, _, _, _, _, _, rfl⟩ := dropStep_eq h
    exact ⟨rfl, rfl, id⟩

lemma not_searched_settle (released : Option κ) (r : Except ε (Option μ × τ)) :
    ¬ (s.settle released r).recv.Searched := by
  rcases settle_recv s released r with ⟨e, h⟩ | h | ⟨m, h⟩ <;> simp [RecvPc.Searched, h]

lemma searched_recvStep {o : ω} (hs : s.recv.Searched → s.chan.q = [])
    (h : s.recvStep T o = some s') (hr : s'.recv.Searched) : s'.chan.q = [] := by
  revert h hr
  fun_cases recvStep T s o <;> rintro ⟨⟩ hr <;> first
    | exact (not_searched_settle _ _ hr).elim
    | simp_all [RecvPc.Searched]

lemma settle_recv_ne_dropped (released : Option κ) (r : Except ε (Option μ × τ)) :
    (s.settle released r).recv ≠ .dropped := by
  rcases settle_recv s released r with ⟨e, h⟩ | h | ⟨m, h⟩ <;> simp [h]

lemma recvStep_here {o : ω} (h : s.recvStep T o = some s') : s'.recv ≠ .dropped := by
  revert h
  fun_cases recvStep T s o <;> rintro ⟨⟩ <;> first
    | exact settle_recv_ne_dropped _ _
    | simp

lemma drainOk_step (hT : T.Refines Inv abs) (hs : DrainOk T Inv abs s) (hc : Consumes s a)
    (h : s.step T a = some s') : DrainOk T Inv abs s' := by
  obtain ⟨hsend, hdrop, hq⟩ := consumes_frame hc h
  have hkey := keyOk_step hT (by rintro t m rfl; exact hc.elim) hs.key h
  have hrest : (s'.chan.sendersDropped = true → s'.recv.Searched → s'.chan.q = []) ∧
      (s'.recv = .idle (some none) → s'.chan.q = [] ∧ (abs s'.table).waiting = 0) ∧
      s'.recv ≠ .dropped := by
    cases a with
    | clone | send | sender | drop | dropReceiver => exact hc.elim
    | recv =>
      cases hr : s.recv with
      | idle last =>
        simp only [step, hr, Option.some.injEq] at h
        subst h
        exact ⟨fun _ => by simp [RecvPc.Searched], by simp, by simp⟩
      | _ => simp [step, hr] at h
    | recvStep o =>
      refine ⟨fun hd => searched_recvStep (hs.empty (hdrop ▸ hd)) h, fun htold => ?_,
        recvStep_here h⟩
      obtain ⟨hr, hclose, hd⟩ := recvStep_closed h htold
      obtain ⟨ht, -⟩ := hs.key.tables (by simp [hr])
      have htab : s'.table = s.table := by
        simp only [step, recvStep, hr] at h
        split_ifs at h <;> obtain rfl := Option.some.inj h <;> rfl
      exact ⟨hq (hs.empty hd (Or.inr hr)), htab ▸ hT.closable ht.inv hclose⟩
    | dropMsg i =>
      obtain ⟨_, _, rfl⟩ := dropMsg_eq h
      exact ⟨hs.empty, hs.told, hs.here⟩
    | dropStep i =>
      obtain ⟨_, _, _, _, _, _, rfl⟩ := dropStep_eq h
      exact ⟨hs.empty, hs.told, hs.here⟩
  exact ⟨hsend ▸ hs.idle, hkey, wakeOk_step hs.wake h, hrest.1, hrest.2.1, hrest.2.2⟩

lemma work_step (hT : T.Refines Inv abs) (hs : DrainOk T Inv abs s) (hc : Consumes s a)
    (h : s.step T a = some s') : work T abs s' < work T abs s := by
  cases a with
  | clone | send | sender | drop | dropReceiver => exact hc.elim
  | recv =>
    cases hr : s.recv with
    | idle last =>
      simp only [step, hr, Option.some.injEq] at h
      subst h
      cases last with
      | none => simp [work, goto, hr, RecvPc.left]
      | some last =>
        cases last with
        | none => exact (hc hr).elim
        | some m => simp [work, goto, hr, RecvPc.left]
    | _ => simp [step, hr] at h
  | recvStep o => exact work_recvStep hT hs h
  | dropMsg i => exact work_dropMsg h
  | dropStep i => exact work_dropStep h

def Halted (T : KeyTable κ μ τ ω ε) (s : System κ μ τ ε) : Prop :=
  ∀ b, Consumes s b → s.step T b = none

lemma Halted.alive (h : Halted T s) : s.alive = [] := by
  have hstep : s.dropMsg T 0 = none := h (.dropMsg 0) trivial
  cases ha : s.alive with
  | nil => rfl
  | cons m ms =>
    simp only [dropMsg, ha, List.getElem?_cons_zero] at hstep
    split at hstep <;> cases hstep

lemma Halted.dropping (h : Halted T s) : s.dropping = [] := by
  have hstep : s.dropStep 0 = none := h (.dropStep 0) trivial
  cases hd : s.dropping with
  | nil => rfl
  | cons ks rest =>
    simp only [dropStep, hd, List.getElem?_cons_zero] at hstep
    cases ks <;> cases hstep

-- it has been told `Closed`, or it waits for the senders that are left
def AtRest (s : System κ μ τ ε) : Prop :=
  s.recv = .idle (some none) ∨ s.recv = .waiting ∧ s.chan.sendersDropped = false

lemma Halted.atRest [Nonempty ω] (hT : T.Refines Inv abs) (h : Halted T s)
    (hs : DrainOk T Inv abs s) (hfree : ∀ t, Inv t → (abs t).held = ∅ → T.closable t = true) :
    Stopped s ∨ AtRest s ∧ s.chan.q = [] ∧ (abs s.table).waiting = 0 := by
  obtain ⟨o⟩ := ‹Nonempty ω›
  have hstep : s.recvStep T o = none := h (.recvStep o) trivial
  cases hr : s.recv with
  | idle last =>
    have htold : s.recv = .idle (some none) := by
      by_contra hne
      have hrecv := h .recv hne
      simp [step, hr] at hrecv
    exact Or.inr ⟨Or.inl htold, hs.told htold⟩
  | panicked site =>
    cases site with
    | none => exact (hs.key.loop.present hr).elim
    | some e => exact Or.inl ⟨e, hr⟩
  | dropped => exact (hs.here hr).elim
  | waiting =>
    obtain ⟨ht, ho⟩ := hs.key.tables (by simp [hr])
    have hasleep : Asleep s := by
      refine ⟨hr, fun hl => by simp [recvStep, hr, hl] at hstep, ?_⟩
      rintro (⟨t, ht⟩ | hd)
      · simp [hs.idle t] at ht
      · exact hd h.dropping
    have hidle : ¬ WorkLeft T s := fun hleft => hs.wake.not_asleep hleft hasleep
    have hq : s.chan.q = [] := not_not.mp fun hq => hidle (Or.inl hq)
    -- nobody owns a key, so nothing holds the close back
    have hkeys : s.chan.dropKeyQ = [] := not_not.mp fun hk => hidle (Or.inr (Or.inl hk))
    have hheld : (abs s.table).held = ∅ := by
      apply Set.eq_empty_of_forall_notMem
      intro k hk
      have hown := (ho.accounted.2 k).mpr hk
      simp [owned, h.alive, h.dropping, hkeys] at hown
    have hclosable := hfree _ ht.inv hheld
    have hopen : s.chan.sendersDropped = false := by
      rw [← Bool.not_eq_true]
      exact fun hd => hidle (Or.inr (Or.inr ⟨hclosable, hd⟩))
    exact Or.inr ⟨Or.inr ⟨hr, hopen⟩, hq, hT.closable ht.inv hclosable⟩
  | _ =>
    simp only [recvStep, hr] at hstep
    (first | split at hstep | skip) <;> cases hstep

lemma drains [Nonempty ω] (hT : T.Refines Inv abs) (hs : DrainOk T Inv abs s)
    (hfree : ∀ t, Inv t → (abs t).held = ∅ → T.closable t = true) {as : List (Action μ ω)}
    {t : System κ μ τ ε} (hc : EachStep (step T) Consumes s as) (h : run (step T) s as = some t) :
    as.length ≤ work T abs s ∧
      (Halted T t → Stopped t ∨ AtRest t ∧ (t.returned : Multiset μ) = t.sent) := by
  obtain ⟨ht, hle⟩ := run_length_le (I := DrainOk T Inv abs) (f := work T abs)
    (fun s a t hs hc h => ⟨drainOk_step hT hs hc h, work_step hT hs hc h⟩) hs hc h
  refine ⟨by omega, fun hhalt => ?_⟩
  rcases hhalt.atRest hT ht hfree with hst | ⟨hrest, hq, hw⟩
  · exact Or.inl hst
  · have hpanic : ∀ e, t.recv ≠ .panicked (some e) := by
      intro e he
      rcases hrest with hr | ⟨hr, -⟩ <;> simp [hr] at he
    obtain ⟨htab, -⟩ := ht.key.tables hpanic
    refine Or.inr ⟨hrest, ?_⟩
    rw [htab.conserved, hq, hw]
    simp

lemma drainOk_run (hT : T.Refines Inv abs) {as : List (Action μ ω)}
    (hd : ∀ t m, .send t m ∈ as → (T.keys m).Nodup) (h : run (step T) (new T) as = some s)
    (hi : ∀ t, s.senders.pc t = .idle) (hr : s.recv ≠ .dropped ∧ s.recv ≠ .idle (some none))
    (hw : s.chan.sendersDropped = true → s.recv.Searched → s.chan.q = []) :
    DrainOk T Inv abs s := by
  obtain ⟨hkey, hwake⟩ := run_invariant_of_mem
    (A := fun a => ∀ t m, a = .send t m → (T.keys m).Nodup)
    (I := fun s => KeyOk T Inv abs s ∧ WakeOk T s)
    (fun s a s' ha hs h => ⟨keyOk_step hT ha hs.1 h, wakeOk_step hs.2 h⟩)
    (fun a ha t m he => hd t m (by rwa [he] at ha)) ⟨keyOk_new hT, wakeOk_new⟩ h
  exact ⟨hi, hkey, hwake, hw, fun he => (hr.2 he).elim, hr.1⟩

end System

open KeyChannel.System KvMpscMultik ConflictManager

variable {K V : Type} [LinearOrder K]

def secondLeft {μ ω : Type} (m m' : μ) (order : ω) : List (Action μ ω) :=
  [.send 0 m, .sender 0, .sender 0, .send 0 m', .sender 0, .sender 0, .drop 0, .sender 0, .sender 0,
    .recv, .recvStep order, .recvStep order]

lemma update_idle {μ : Type*} {pc : ℕ → SendPc μ} (h : ∀ t, t ≠ 0 → pc t = .idle) (t : ℕ) :
    Function.update pc 0 .idle t = .idle := by
  by_cases ht : t = 0
  · rw [ht, Function.update_self]
  · rw [Function.update_of_ne ht, h t ht]

/-- The same of `kv_mpsc_multik`, as long as no message lists a key twice: there the table may
panic instead. -/
theorem kvMpscMultik_drains (succ : WaitingMsgId → Option WaitingMsgId)
    (as : List (MultikAction K V)) (hd : ∀ t m, .send t m ∈ as → m.1.Nodup) (s : MultikSystem K V)
    (h : run (step (kvMpscMultik K V succ)) (new (kvMpscMultik K V succ)) as = some s)
    (hi : ∀ t, s.senders.pc t = .idle) (hr : s.recv ≠ .dropped ∧ s.recv ≠ .idle (some none))
    (hw : s.chan.sendersDropped = true → s.recv.Searched → s.chan.q = []) :
    ∃ n, ∀ bs t, EachStep (step (kvMpscMultik K V succ)) Consumes s bs →
      run (step (kvMpscMultik K V succ)) s bs = some t → bs.length ≤ n ∧
        (Halted (kvMpscMultik K V succ) t → Stopped t ∨
          AtRest t ∧ (t.returned : Multiset (List K × V)) = t.sent) := by
  have hrefines : (kvMpscMultik K V succ).Refines Wf ConflictManager.admission :=
    KvMpscMultik.refines
  have hT := hrefines.noStranded
  have hs := drainOk_run hT hd h hi hr hw
  have hfree : ∀ cm : ConflictManager K V, Wf cm ∧ Admission.NoStranded Prod.fst cm.admission →
      cm.admission.held = ∅ → (kvMpscMultik K V succ).closable cm = true := by
    rintro cm ⟨hwf, hn⟩ hheld
    have hzero := hn.waiting_eq_zero hheld
    have hempty : cm.waitingmsgs.isEmpty = true := by
      refine FinMap.isEmpty_iff.mpr fun id => ?_
      rw [Option.eq_none_iff_forall_ne_some]
      intro x hx
      obtain ⟨_, _, m, _, htake, -⟩ := hwf.waits hx
      have hm := mem_waiting.mpr ⟨id, x.1, x.2, hx, htake⟩
      simp [hzero] at hm
    simp [kvMpscMultik, waitingmsgsExist, hempty]
  have : Nonempty (IterOrder (WaitingMsgId × MsgRef)) := ⟨.stored⟩
  exact ⟨work (kvMpscMultik K V succ) ConflictManager.admission s, fun bs t hc ht =>
    drains hT hs hfree hc ht⟩

theorem kvMpscMultik_drains_secondLeft :
    ∃ s, run (step (kvMpscMultik ℕ ℕ succChecked)) (new (kvMpscMultik ℕ ℕ succChecked))
        (secondLeft ([1, 2], 10) ([2, 3], 11) .stored) = some s ∧ s.alive = [([1, 2], 10)] ∧
      s.chan.q = [([2, 3], 11)] ∧
      ∃ n, ∀ bs t, EachStep (step (kvMpscMultik ℕ ℕ succChecked)) Consumes s bs →
        run (step (kvMpscMultik ℕ ℕ succChecked)) s bs = some t → bs.length ≤ n ∧
          (Halted (kvMpscMultik ℕ ℕ succChecked) t → Stopped t ∨
            AtRest t ∧ (t.returned : Multiset (List ℕ × ℕ)) = t.sent) := by
  refine ⟨_, rfl, rfl, rfl, kvMpscMultik_drains succChecked
    (secondLeft ([1, 2], 10) ([2, 3], 11) .stored) ?_ _ rfl ?_ ?_ ?_⟩
  · intro t m hm
    simp only [secondLeft, List.mem_cons, Action.send.injEq, reduceCtorEq, false_or,
      List.not_mem_nil, or_false] at hm
    rcases hm with ⟨-, rfl⟩ | ⟨-, rfl⟩ <;> decide
  · refine update_idle fun t ht => ?_
    simp [ht, Handles.drop, System.new, Handles.first]
  · constructor <;> rintro ⟨⟩
  · rintro - (h | h) <;> cases h

end PaQueueAndChan.KeyChannel
