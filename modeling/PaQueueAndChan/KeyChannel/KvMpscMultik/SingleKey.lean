import PaQueueAndChan.KeyChannel.KvMpscMultik.Panics

/-! Messages with one key each. A hand-over releases the only key of its message, so nothing stale
is left behind and no search meets a dead address. -/

namespace PaQueueAndChan.KeyChannel

open Library

namespace System

variable {κ μ τ ω ε : Type*} {T : KeyTable κ μ τ ω ε} {Inv : τ → Prop} {abs : τ → Admission κ μ}
  {s s' : System κ μ τ ε} {a : Action μ ω} {P : μ → Prop} {m : μ}

def SentOnly (P : μ → Prop) (s : System κ μ τ ε) : Prop :=
  (∀ m ∈ s.sent, P m) ∧ ∀ t m, s.senders.pc t = .checked m → P m

lemma sentOnly_new : SentOnly P (new T) := ⟨by simp [new], by simp [new, Handles.first]⟩

lemma sentOnly_step (ha : ∀ t m, a = .send t m → P m) (hs : SentOnly P s)
    (h : s.step T a = some s') : SentOnly P s' := by
  obtain ⟨hsent, hpc⟩ := hs
  cases step_moves h with
  | handles senders hc hok hchecked =>
    refine ⟨hsent, fun t m hm => ?_⟩
    rcases hchecked t m hm with hold | hsend
    · exact hpc t m hold
    · exact ha t m hsend
  | sender hq =>
    obtain ⟨new, _, hnew, _, hfrom, hold⟩ := senderStep_queues hq
    refine ⟨fun m hm => ?_, fun t m hm => hpc t m (hold t m hm)⟩
    rw [hnew, List.mem_append] at hm
    rcases hm with hm | hm
    · exact hsent m hm
    · exact hpc _ m (hfrom m hm)
  | release | handle =>
    refine ⟨?_, by simpa only [settle_frame] using hpc⟩
    have hkeep : ∀ (u : System κ μ τ ε) released (r : Except ε (Option μ × τ)),
        (u.settle released r).sent = u.sent := by
      rintro u released (e | ⟨o, t⟩)
      · rfl
      · rw [settle_ok]
    rw [hkeep]
    exact hsent
  | dropMsg hq =>
    obtain ⟨_, _, rfl⟩ := dropMsg_eq hq
    exact ⟨hsent, hpc⟩
  | dropStep hq =>
    obtain ⟨_, _, _, _, _, _, rfl⟩ := dropStep_eq hq
    exact ⟨hsent, hpc⟩
  | recv | quiet | dropReceiver => exact ⟨hsent, hpc⟩

lemma SentOnly.waiting (hs : SentOnly P s) (ht : TableOk Inv abs s)
    (hm : m ∈ (abs s.table).waiting) : P m := by
  refine hs.1 m ?_
  rw [← Multiset.mem_coe, ht.conserved]
  exact Multiset.mem_add.mpr (Or.inl (Multiset.mem_add.mpr (Or.inr hm)))

end System

namespace KvMpscMultik

open KeyChannel.System ConflictManager

variable {K V : Type} [LinearOrder K] {succ : WaitingMsgId → Option WaitingMsgId}
  {s s' : MultikSystem K V} {a : MultikAction K V}

/-- Whatever `next_waitingmsg_id.add(1)` returns, it does not return a wrong number. -/
def Counts (succ : WaitingMsgId → Option WaitingMsgId) : Prop :=
  ∀ id next, succ id = some next → next = id + 1

lemma counts_succChecked : Counts succChecked := by
  intro id next h
  unfold succChecked at h
  split_ifs at h
  exact (Option.some.inj h).symm

lemma ConflictManager.Arrived.counted {cm cm' : ConflictManager K V} {ks : List K} {v : V}
    {o : Option (List K × V)} (hc : Counts succ) (h : Arrived succ cm ks v o cm') :
    Arrived succUnbounded cm ks v o cm' := by
  cases h with
  | granted hu h => exact .granted hu h
  | @setAside next rs cm₁ hu hnext hat =>
    obtain rfl := hc _ _ hnext
    exact .setAside hu rfl hat

structure CleanOk (s : MultikSystem K V) : Prop where
  fresh : Fresh s.table
  clean : ∀ k, ¬ s.table.Stale k

structure SingleOk (succ : WaitingMsgId → Option WaitingMsgId) (s : MultikSystem K V) : Prop where
  key : KeyOk (kvMpscMultik K V succ) Wf admission s
  single : SentOnly (fun m => ∃ k, m.1 = [k]) s
  clean : s.recv = .panicked (some .idOverflow) ∨ ¬ Stopped s ∧ CleanOk s

lemma singleOk_new : SingleOk succ (System.new (kvMpscMultik K V succ)) :=
  ⟨keyOk_new refines, sentOnly_new, Or.inr ⟨by simp [Stopped, System.new], fresh_new,
    fun _ => not_stale_new⟩⟩

lemma CleanOk.released {k : K} {o : Option (List K × V)} {cm : ConflictManager K V}
    (hs : CleanOk s) (ht : TableOk Wf admission s) (h : Released s.table k o cm)
    (hsingle : SentOnly (fun m => ∃ k, m.1 = [k]) s) : Fresh cm ∧ ∀ k, ¬ cm.Stale k := by
  refine ⟨h.fresh ht.inv hs.fresh, fun k' hk' => ?_⟩
  rcases (h.stale ht.inv).mp hk' with hold | ⟨m, rfl, hm, hne⟩
  · exact hs.clean k' hold
  · have hrel := h.release ht.inv
    have hwait : m ∈ s.table.admission.waiting := by
      rw [hrel.pass_inv.2]
      exact Multiset.mem_cons_self _ _
    obtain ⟨k₁, hk₁⟩ := hsingle.waiting ht hwait
    have hk := hrel.key_mem
    rw [hk₁, List.mem_singleton] at hm hk
    exact hne (hm.trans hk.symm)

lemma cleanOk_step (hc : Counts succ) (ht : TableOk Wf admission s)
    (hsingle : SentOnly (fun m => ∃ k, m.1 = [k]) s) (hs : CleanOk s)
    (h : s.step (kvMpscMultik K V succ) a = some s') : Stopped s' ∨ CleanOk s' := by
  cases step_moves h with
  | sender hq =>
    obtain ⟨_, htab, _⟩ := senderStep_frame hq
    exact Or.inr ⟨htab ▸ hs.fresh, htab ▸ hs.clean⟩
  | release hr hk =>
    apply stopped_or_settle
    intro om t hres
    obtain ⟨hf, hn⟩ := hs.released ht (unuseDropedKey_released ht.inv hres) hsingle
    rw [settle_ok]
    exact ⟨hf, hn⟩
  | handle hr hq =>
    apply stopped_or_settle
    intro om t hres
    have harr := (handleNewMsg_arrived ht.inv hres).counted hc
    rw [settle_ok]
    exact ⟨harr.fresh ht.inv hs.fresh, fun k hk => hs.clean k ((harr.stale ht.inv hs.fresh).mp hk)⟩
  | dropMsg hq =>
    obtain ⟨_, _, rfl⟩ := dropMsg_eq hq
    exact Or.inr ⟨hs.fresh, hs.clean⟩
  | dropStep hq =>
    obtain ⟨_, _, _, _, _, _, rfl⟩ := dropStep_eq hq
    exact Or.inr ⟨hs.fresh, hs.clean⟩
  | handles | recv | quiet | dropReceiver => exact Or.inr ⟨hs.fresh, hs.clean⟩

lemma overflow_of_stopped (hs : SingleOk succ s) (hn : ¬ Stopped s) (hc : CleanOk s)
    (h : s.step (kvMpscMultik K V succ) a = some s') (hst : Stopped s') :
    s'.recv = .panicked (some .idOverflow) := by
  obtain ⟨ht, ho⟩ := hs.key.table.resolve_left hn
  obtain ⟨e, he⟩ := hst
  rcases panicked_step h he with he | ⟨_, k, ks, _, _, hk, herr⟩ | ⟨_, m, ms, _, _, hq, herr⟩
  · exact (hn ⟨e, he⟩).elim
  · rcases unuseDropedKey_error ht.inv (ho.held_of_release hk) herr with
      ⟨-, r, id, x, hr, hx, hd⟩ | ⟨m, hm, hn⟩
    · exact (hc.clean k ⟨id, x, ⟨r, hr, hx⟩, hd⟩).elim
    · exact (hn (ho.distinct m (Or.inr (Or.inl hm)))).elim
  · rcases handleNewMsg_error ht.inv herr with ⟨-, hn⟩ | ⟨rfl, -⟩ | ⟨-, hin⟩
    · exact (hn (ho.distinct m (Or.inl (by simp [hq])))).elim
    · exact he
    · obtain ⟨x, hx⟩ := Option.ne_none_iff_exists'.mp hin
      exact (lt_irrefl _ (hc.fresh.waitingmsgs hx)).elim

lemma singleOk_step (hc : Counts succ) (ha : ∀ t m, a = .send t m → ∃ k, m.1 = [k])
    (hs : SingleOk succ s) (h : s.step (kvMpscMultik K V succ) a = some s') : SingleOk succ s' := by
  have hnodup : ∀ t m, a = .send t m → m.1.Nodup := by
    intro t m he
    obtain ⟨k, hk⟩ := ha t m he
    exact hk ▸ List.nodup_singleton k
  refine ⟨keyOk_step refines hnodup hs.key h, sentOnly_step ha hs.single h, ?_⟩
  rcases hs.clean with hp | ⟨hn, hclean⟩
  · obtain ⟨e, he⟩ := stopped_step ⟨_, hp⟩ h
    rcases panicked_step h he with he' | ⟨_, _, _, _, hr, _⟩ | ⟨_, _, _, _, hr, _⟩
    · rw [hp, RecvPc.panicked.injEq] at he'
      exact Or.inl (he' ▸ he)
    · simp [hp] at hr
    · simp [hp] at hr
  · by_cases hst : Stopped s'
    · exact Or.inl (overflow_of_stopped hs hn hclean h hst)
    · obtain ⟨ht, -⟩ := hs.key.table.resolve_left hn
      exact Or.inr ⟨hst, (cleanOk_step hc ht hs.single hclean h).resolve_left hst⟩

/-- In a run in which every message has one key, nothing panics but the overflow of the counter of
waiting messages, and until then no table holds the address of a message that was handed over. -/
theorem single_keys_never_panic (hc : Counts succ) (as : List (MultikAction K V))
    (hd : ∀ t m, .send t m ∈ as → ∃ k, m.1 = [k]) (s : MultikSystem K V)
    (h : run (step (kvMpscMultik K V succ)) (System.new (kvMpscMultik K V succ)) as = some s) :
    (∀ site, s.recv = .panicked site → site = some .idOverflow) ∧
      ((∀ site, s.recv ≠ .panicked site) → ∀ k, ¬ s.table.Stale k) := by
  have hs := run_invariant_of_mem (A := fun a => ∀ t m, a = .send t m → ∃ k, m.1 = [k])
    (I := SingleOk succ) (fun s a s' ha hs h => singleOk_step hc ha hs h)
    (fun a ha t m he => hd t m (by rwa [he] at ha)) singleOk_new h
  refine ⟨fun site he => ?_, fun hn => ?_⟩
  · cases site with
    | none => exact (hs.key.loop.present he).elim
    | some e =>
      rcases hs.clean with hp | ⟨hn, -⟩
      · rw [hp, RecvPc.panicked.injEq] at he
        exact he.symm
      · exact (hn ⟨e, he⟩).elim
  · exact (hs.clean.resolve_left (hn _)).2.clean

def secondHandedOver : List (MultikAction ℕ ℕ) :=
  [.send 0 ([1], 10), .sender 0, .sender 0, .send 0 ([1], 11), .sender 0, .sender 0, .recv,
    .recvStep .stored, .recvStep .stored, .recv, .recvStep .stored, .recvStep .stored, .dropMsg 0,
    .recvStep .stored]

theorem single_keys_never_panic_secondHandedOver :
    ∃ s, run (step (kvMpscMultik ℕ ℕ succChecked)) (System.new (kvMpscMultik ℕ ℕ succChecked))
        secondHandedOver = some s ∧ s.handed = [(1, ([1], 11))] ∧
      (∀ site, s.recv = .panicked site → site = some .idOverflow) ∧
        ((∀ site, s.recv ≠ .panicked site) → ∀ k, ¬ s.table.Stale k) := by
  refine ⟨_, rfl, rfl, single_keys_never_panic counts_succChecked secondHandedOver ?_ _ rfl⟩
  intro t m hm
  simp only [secondHandedOver, List.mem_cons, Action.send.injEq, reduceCtorEq, false_or,
    List.not_mem_nil, or_false] at hm
  rcases hm with ⟨-, rfl⟩ | ⟨-, rfl⟩ <;> exact ⟨1, rfl⟩

end KvMpscMultik

end PaQueueAndChan.KeyChannel
