import PaQueueAndChan.Library.Mailbox
import PaQueueAndChan.KeyChannel.KvMpsc
import PaQueueAndChan.KeyChannel.KvMpscMultik.Exclusion

/-! Both channels as mailboxes. What a run shows of itself is the pushes to `q`, the messages that
`sync_pop` returns and the messages that are dropped. -/

namespace PaQueueAndChan.KeyChannel

open Library Mailbox

variable {κ μ τ ω ε : Type*}

def RecvPc.gives : RecvPc μ ε → List (Visible μ)
  | .idle (some (some m)) => [.give m]
  | _ => []

lemma RecvPc.gives_eq_nil {r : RecvPc μ ε} (h : ∀ m, r ≠ .idle (some (some m))) : r.gives = [] := by
  unfold gives
  split
  · next m => exact (h m rfl).elim
  · rfl

namespace System

def Apart (T : KeyTable κ μ τ ω ε) (m m' : μ) : Prop := (T.keys m).Disjoint (T.keys m')

def visible (T : KeyTable κ μ τ ω ε) (s : System κ μ τ ε) : Action μ ω → List (Visible μ)
  | .sender t =>
    match s.senders.pc t with
    | .checked m => [.enter m]
    | _ => []
  | .recvStep o => (s.recvStep T o).elim [] fun s' => s'.recv.gives
  | .dropMsg i => (s.alive[i]?).toList.map .back
  | _ => []

variable {T : KeyTable κ μ τ ω ε} {s s' : System κ μ τ ε} {a : Action μ ω}
  {Follows : μ → μ → Prop} {Served : List μ → List μ → Prop}
  {Inside : List μ → List μ → List μ → Prop} {b : Mailbox μ}

structure Shows (Inside : List μ → List μ → List μ → Prop) (s : System κ μ τ ε) (b : Mailbox μ) :
    Prop where
  out : b.out = s.alive
  inside : Inside b.inside s.sent s.returned

lemma Shows.stays (hs : Shows Inside s b) (halive : s'.alive = s.alive) (hsent : s'.sent = s.sent)
    (hreturned : s'.returned = s.returned) :
    ∃ b', Accepts (Apart T) Follows b [] b' ∧ Shows Inside s' b' :=
  ⟨b, .nil, by rw [hs.out, halive], by rw [hsent, hreturned]; exact hs.inside⟩

lemma shows_sender {t : ℕ} (hI : Tells Follows Served Inside) (hs : Shows Inside s b)
    (h : s.senderStep t = some s') :
    ∃ b', Accepts (Apart T) Follows b (visible T s (.sender t : Action μ ω)) b' ∧
      Shows Inside s' b' := by
  cases hpc : s.senders.pc t with
  | idle => simp [senderStep, hpc] at h
  | checked m =>
    simp only [senderStep, hpc, Option.some.injEq] at h
    subst h
    simp only [visible, hpc]
    exact ⟨⟨b.inside ++ [m], b.out⟩, .one (.enter m), hs.out, hI.enter m hs.inside⟩
  | _ =>
    simp only [senderStep, hpc, Option.some.injEq] at h
    subst h
    simp only [visible, hpc]
    exact hs.stays rfl rfl rfl

lemma Shows.gives {m : μ} (hI : Tells Follows Served Inside) (hs : Shows Inside s b)
    (halive : s'.alive = s.alive ++ [m]) (hsent : s'.sent = s.sent)
    (hreturned : s'.returned = s.returned ++ [m]) (hserved : Served s'.sent s'.returned)
    (hx : Exclusive T s') :
    ∃ b', Accepts (Apart T) Follows b [.give m] b' ∧ Shows Inside s' b' := by
  obtain ⟨inside, out⟩ := b
  rw [hsent, hreturned] at hserved
  obtain ⟨before, after, rfl, hfollows, hrest⟩ := hI.give hs.inside hserved
  have hout : out = s.alive := hs.out
  refine ⟨⟨before ++ after, m ::ₘ out⟩, .one (.give m hfollows fun m' hm' => ?_), ?_, ?_⟩
  · rw [Exclusive, halive, List.pairwise_append] at hx
    rw [hout, Multiset.mem_coe] at hm'
    exact hx.2.2 m' hm' m (List.mem_singleton.mpr rfl)
  · rw [hout, halive, Multiset.cons_coe, Multiset.coe_eq_coe]
    exact (List.perm_append_singleton m s.alive).symm
  · rw [hsent, hreturned]
    exact hrest

lemma shows_settle {u : System κ μ τ ε} {released : Option κ} {r : Except ε (Option μ × τ)} {o : ω}
    (hI : Tells Follows Served Inside) (hs : Shows Inside s b)
    (hu : u.alive = s.alive ∧ u.sent = s.sent ∧ u.returned = s.returned)
    (hstep : s.recvStep T o = some (u.settle released r))
    (hok : Stopped (u.settle released r) ∨
      Served (u.settle released r).sent (u.settle released r).returned)
    (hx : Exclusive T (u.settle released r)) : ∃ b',
      Accepts (Apart T) Follows b (visible T s (.recvStep o)) b' ∧
        Shows Inside (u.settle released r) b' := by
  obtain ⟨halive, hsent, hreturned⟩ := hu
  rcases r with e | ⟨_ | m, t⟩
  · simp only [visible, hstep, Option.elim_some, settle, goto_recv, RecvPc.gives]
    exact hs.stays halive hsent hreturned
  · simp only [visible, hstep, Option.elim_some, settle, goto_recv, RecvPc.gives]
    exact hs.stays halive hsent hreturned
  · simp only [visible, hstep, Option.elim_some, settle, goto_recv, RecvPc.gives]
    have hserved := hok.resolve_left (by simp [Stopped, settle])
    exact hs.gives hI (by rw [← halive]; rfl) hsent (by rw [← hreturned]; rfl) hserved hx

lemma settle_gives {u : System κ μ τ ε} {released : Option κ} {r : Except ε (Option μ × τ)} {m : μ}
    (h : (u.settle released r).recv = .idle (some (some m))) :
    (u.settle released r).returned ≠ u.returned := by
  rcases r with e | ⟨_ | m', t⟩ <;> simp [settle] at h ⊢

lemma recvStep_gives {o : ω} {m : μ} (h : s.recvStep T o = some s')
    (hr : s'.recv = .idle (some (some m))) : s'.returned ≠ s.returned := by
  revert h hr
  fun_cases recvStep T s o <;> rintro ⟨⟩ hr <;> first
    | exact settle_gives hr
    | simp at hr

lemma shows_step (hI : Tells Follows Served Inside) (hs : Shows Inside s b)
    (h : s.step T a = some s') (hok : Stopped s' ∨ Served s'.sent s'.returned)
    (hx : Exclusive T s') :
    ∃ b', Accepts (Apart T) Follows b (visible T s a) b' ∧ Shows Inside s' b' := by
  cases a with
  | sender t => exact shows_sender hI hs h
  | clone | send | drop | recv | dropReceiver =>
    cases step_moves h <;> exact hs.stays rfl rfl rfl
  | dropMsg i =>
    obtain ⟨m, hm, rfl⟩ := dropMsg_eq h
    obtain ⟨inside, out⟩ := b
    obtain rfl : out = m ::ₘ (s.alive.eraseIdx i : Multiset μ) := by
      rw [Multiset.cons_coe]
      exact hs.out.trans (Multiset.coe_eq_coe.mpr (perm_eraseIdx hm))
    simp only [visible, hm]
    exact ⟨⟨inside, _⟩, .one (.back m), rfl, hs.inside⟩
  | dropStep i =>
    obtain ⟨_, _, _, _, _, _, rfl⟩ := dropStep_eq h
    exact hs.stays rfl rfl rfl
  | recvStep o =>
    have hstep : s.recvStep T o = some s' := h
    cases step_moves h with
    | release hr hk => exact shows_settle hI hs ⟨rfl, rfl, rfl⟩ hstep hok hx
    | handle hr hq => exact shows_settle hI hs ⟨rfl, rfl, rfl⟩ hstep hok hx
    | quiet e l r st hq =>
      have hnone : ∀ m, r ≠ .idle (some (some m)) := fun m hr => recvStep_gives hq hr rfl
      simp only [visible, hstep, Option.elim_some, RecvPc.gives_eq_nil hnone]
      exact hs.stays rfl rfl rfl
    | handles _ hc => exact (hc o rfl).elim

lemma shows_new (hI : Tells Follows Served Inside) : Shows Inside (new T) Mailbox.empty :=
  ⟨rfl, hI.nil⟩

lemma shows_run {A : Action μ ω → Prop} (Ok : System κ μ τ ε → Prop)
    (hI : Tells Follows Served Inside)
    (hok : ∀ s, Ok s → (Stopped s ∨ Served s.sent s.returned) ∧ Exclusive T s)
    (hstep : ∀ s a s', A a → Ok s → step T s a = some s' → Ok s') (hnew : Ok (new T))
    {as : List (Action μ ω)} (hA : ∀ a ∈ as, A a) (h : run (step T) (new T) as = some s) :
    ∃ b, Accepts (Apart T) Follows Mailbox.empty (trace (step T) (visible T) (new T) as) b ∧
      Ok s ∧ Shows Inside s b := by
  refine accepts_run (R := fun s b => Ok s ∧ Shows Inside s b) (fun s a s' b ha hs h => ?_) hA
    ⟨hnew, shows_new hI⟩ h
  have hok' := hstep s a s' ha hs.1 h
  obtain ⟨hserved, hx⟩ := hok s' hok'
  obtain ⟨b', hacc, hshows⟩ := shows_step hI hs.2 h hserved hx
  exact ⟨b', hacc, hok', hshows⟩

lemma TableOk.inside {Inv : τ → Prop} {abs : τ → Admission κ μ} {inside : List μ}
    (hs : TableOk Inv abs s) (h : (s.returned ++ inside).Perm s.sent) :
    (inside : Multiset μ) = (abs s.table).waiting + s.chan.q := by
  have hsent := hs.conserved
  rw [← Multiset.coe_eq_coe.mpr h, ← Multiset.coe_add, add_assoc] at hsent
  exact add_left_cancel hsent

end System

open KeyChannel.System KvMpscMultik ConflictManager

variable {K V : Type} [LinearOrder K]

/-- `kv_mpsc` is a mailbox: in every run the pushes to `q`, the returns of `sync_pop` and the drops
of messages are what a mailbox accepts that gives out no two messages of one key at once, and those
of a key in the order in which they came in. Inside is what waits or is still in `q`, and out is
what is alive. -/
theorem kvMpsc_refines_mailbox (as : List (Action (K × V) Unit))
    (s : System K (K × V) (KvMpsc.UsingKeys K V) KvMpsc.Panic)
    (h : run (step (KvMpsc.kvMpsc K V)) (new (KvMpsc.kvMpsc K V)) as = some s) :
    ∃ b, Accepts (fun m m' => m.1 ≠ m'.1) (fun m m' => m'.1 = m.1) Mailbox.empty
        (trace (step (KvMpsc.kvMpsc K V)) (visible (KvMpsc.kvMpsc K V))
          (new (KvMpsc.kvMpsc K V)) as) b ∧
      b.out = s.alive ∧
      (b.inside : Multiset (K × V)) = (KvMpsc.admission s.table).waiting + s.chan.q := by
  have hapart : Apart (KvMpsc.kvMpsc K V) = fun m m' => m.1 ≠ m'.1 := by
    funext m m'
    simp [Apart, KvMpsc.kvMpsc, eq_comm]
  obtain ⟨b, hacc, ⟨hok, -⟩, hshows⟩ := shows_run (T := KvMpsc.kvMpsc K V) (A := fun _ => True)
    (fun s => KvMpsc.RunOk s ∧ OrderOk Prod.fst KvMpsc.waitingUnder s)
    (tells_lines Prod.fst) (fun s hs => ⟨Or.inr hs.2.isPrefix, hs.1.key.exclusive⟩)
    (fun s a s' _ hs h => by
      have hok := KvMpsc.runOk_step hs.1 h
      have hq := (hs.1.key.table.resolve_left hs.1.running).1.inv
      have ho := orderOk_step KvMpsc.lines hq (fun r _ _ _ _ _ => KvMpsc.serves hq r) hs.2 h
      exact ⟨hok, ho.resolve_left hok.running⟩)
    ⟨KvMpsc.runOk_new, orderOk_new KvMpsc.lines⟩ (fun _ _ => trivial) h
  rw [hapart] at hacc
  have hperm : (s.returned ++ b.inside).Perm s.sent := perm_of_ofClass fun k => by
    rw [hshows.inside k, ofClass_append]
  exact ⟨b, hacc, hshows.out, (hok.key.table.resolve_left hok.running).1.inside hperm⟩

theorem kvMpsc_refines_mailbox_handOver :
    ∃ s b, run (step (KvMpsc.kvMpsc ℕ ℕ)) (new (KvMpsc.kvMpsc ℕ ℕ)) KvMpsc.handOver = some s ∧
      trace (step (KvMpsc.kvMpsc ℕ ℕ)) (visible (KvMpsc.kvMpsc ℕ ℕ)) (new (KvMpsc.kvMpsc ℕ ℕ))
          KvMpsc.handOver =
        [.enter (1, 10), .enter (1, 11), .give (1, 10), .back (1, 10), .give (1, 11)] ∧
      Accepts (fun m m' => m.1 ≠ m'.1) (fun m m' => m'.1 = m.1) Mailbox.empty
        (trace (step (KvMpsc.kvMpsc ℕ ℕ)) (visible (KvMpsc.kvMpsc ℕ ℕ)) (new (KvMpsc.kvMpsc ℕ ℕ))
          KvMpsc.handOver) b ∧
      b.out = s.alive ∧
      (b.inside : Multiset (ℕ × ℕ)) = (KvMpsc.admission s.table).waiting + s.chan.q := by
  obtain ⟨b, hb⟩ := kvMpsc_refines_mailbox (K := ℕ) (V := ℕ) KvMpsc.handOver _ rfl
  exact ⟨_, b, rfl, rfl, hb⟩

/-- `kv_mpsc_multik` is a mailbox as long as no message lists a key twice: it gives out no two
messages at once that share a key, and after a panic of its table none at all. -/
theorem kvMpscMultik_refines_mailbox (succ : WaitingMsgId → Option WaitingMsgId)
    (as : List (MultikAction K V)) (hd : ∀ t m, .send t m ∈ as → m.1.Nodup) (s : MultikSystem K V)
    (h : run (step (kvMpscMultik K V succ)) (new (kvMpscMultik K V succ)) as = some s) :
    ∃ b, Accepts (fun m m' => m.1.Disjoint m'.1) (fun _ _ => False) Mailbox.empty
        (trace (step (kvMpscMultik K V succ)) (visible (kvMpscMultik K V succ))
          (new (kvMpscMultik K V succ)) as) b ∧
      b.out = s.alive ∧
      ((∀ e, s.recv ≠ .panicked (some e)) →
        (b.inside : Multiset (List K × V)) = s.table.admission.waiting + s.chan.q) := by
  have hrefines : (kvMpscMultik K V succ).Refines Wf ConflictManager.admission :=
    KvMpscMultik.refines
  have hserved : ∀ s : MultikSystem K V, TableOk Wf ConflictManager.admission s →
      s.returned.Subperm s.sent := by
    intro s hs
    rw [← Multiset.coe_le, hs.conserved, add_assoc]
    exact Multiset.le_add_right _ _
  obtain ⟨b, hacc, hok, hshows⟩ := shows_run (T := kvMpscMultik K V succ)
    (A := fun a => ∀ t m, a = .send t m → m.1.Nodup)
    (KeyOk (kvMpscMultik K V succ) Wf ConflictManager.admission) tells_bag
    (fun s hs => ⟨hs.table.imp_right fun ht => hserved s ht.1, hs.exclusive⟩)
    (fun s a s' ha hs h => keyOk_step hrefines ha hs h) (keyOk_new hrefines)
    (fun a ha t m he => hd t m (by rwa [he] at ha)) h
  refine ⟨b, hacc, hshows.out, fun hp => ?_⟩
  have hrunning : ¬ Stopped s := by
    rintro ⟨e, he⟩
    exact hp e he
  exact (hok.table.resolve_left hrunning).1.inside hshows.inside

def overtaken : List (MultikAction ℕ ℕ) :=
  sendAndRecv [1] 10 ++ [.send 0 ([1, 2], 11), .sender 0, .sender 0, .recv, .recvStep .stored,
    .recvStep .stored, .send 0 ([2, 3], 12), .sender 0, .sender 0, .recvStep .stored,
    .recvStep .stored]

theorem kvMpscMultik_refines_mailbox_overtaken :
    ∃ s b, run (step (kvMpscMultik ℕ ℕ succChecked)) (new (kvMpscMultik ℕ ℕ succChecked))
        overtaken = some s ∧
      trace (step (kvMpscMultik ℕ ℕ succChecked)) (visible (kvMpscMultik ℕ ℕ succChecked))
          (new (kvMpscMultik ℕ ℕ succChecked)) overtaken =
        [.enter ([1], 10), .give ([1], 10), .enter ([1, 2], 11), .enter ([2, 3], 12),
          .give ([2, 3], 12)] ∧
      Accepts (fun m m' => m.1.Disjoint m'.1) (fun _ _ => False) Mailbox.empty
        (trace (step (kvMpscMultik ℕ ℕ succChecked)) (visible (kvMpscMultik ℕ ℕ succChecked))
          (new (kvMpscMultik ℕ ℕ succChecked)) overtaken) b ∧
      b.out = s.alive ∧
      ((∀ e, s.recv ≠ .panicked (some e)) →
        (b.inside : Multiset (List ℕ × ℕ)) = s.table.admission.waiting + s.chan.q) := by
  obtain ⟨b, hb⟩ := kvMpscMultik_refines_mailbox (K := ℕ) (V := ℕ) succChecked overtaken (by
    intro t m hm
    simp only [overtaken, sendAndRecv, List.cons_append, List.nil_append, List.mem_cons,
      Action.send.injEq, reduceCtorEq, false_or, List.not_mem_nil, or_false] at hm
    rcases hm with ⟨-, rfl⟩ | ⟨-, rfl⟩ | ⟨-, rfl⟩ <;> decide) _ rfl
  exact ⟨_, b, rfl, rfl, hb⟩

end PaQueueAndChan.KeyChannel
