import PaQueueAndChan.KeyChannel.Delivery

/-! Who owns a key. A delivered message owns its keys until their release is taken out of
`drop_key_q`; the table holds exactly the keys that are owned, and none is owned twice. -/

namespace PaQueueAndChan.KeyChannel.System

open Library Admission

variable {κ μ τ ω ε : Type*} {T : KeyTable κ μ τ ω ε} {Inv : τ → Prop} {abs : τ → Admission κ μ}
  {s s' : System κ μ τ ε} {a : Action μ ω}

/-- The keys of the live messages, those still to be pushed by messages in their drop, and those
in `drop_key_q`. -/
def owned (T : KeyTable κ μ τ ω ε) (s : System κ μ τ ε) : Multiset κ :=
  (s.alive.flatMap T.keys ++ s.dropping.flatten ++ s.chan.dropKeyQ : List κ)

def Exclusive (T : KeyTable κ μ τ ω ε) (s : System κ μ τ ε) : Prop :=
  s.alive.Pairwise fun m m' => (T.keys m).Disjoint (T.keys m')

structure OwnedOk (T : KeyTable κ μ τ ω ε) (abs : τ → Admission κ μ) (s : System κ μ τ ε) :
    Prop where
  accounted : Accounted (abs s.table) (owned T s)
  distinct : ∀ m, (m ∈ s.chan.q ∨ m ∈ (abs s.table).waiting ∨ ∃ t, s.senders.pc t = .checked m) →
    (T.keys m).Nodup

lemma ownedOk_new (hT : T.Refines Inv abs) : OwnedOk T abs (new T) := by
  constructor
  · simp [Accounted, owned, new, hT.abs_empty]
  · simp [new, hT.abs_empty, Handles.first]

lemma OwnedOk.exclusive (hs : OwnedOk T abs s) : Exclusive T s := by
  have hnodup : (s.alive.flatMap T.keys).Nodup := by
    have := hs.accounted.1
    rw [owned, Multiset.coe_nodup, List.append_assoc] at this
    exact this.of_append_left
  exact (List.nodup_flatMap.mp hnodup).2

lemma perm_eraseIdx {α : Type*} {l : List α} {i : ℕ} {x : α} (h : l[i]? = some x) :
    l.Perm (x :: l.eraseIdx i) := by
  obtain ⟨hi, rfl⟩ := List.getElem?_eq_some_iff.mp h
  exact (List.getElem_cons_eraseIdx_perm hi).symm

lemma perm_set {α : Type*} {l : List α} {i : ℕ} {x : α} (h : l[i]? = some x) (y : α) :
    (l.set i y).Perm (y :: l.eraseIdx i) := by
  obtain ⟨hi, rfl⟩ := List.getElem?_eq_some_iff.mp h
  exact List.set_perm_cons_eraseIdx hi y

lemma owned_dropMsg {i : ℕ} (h : s.dropMsg T i = some s') : owned T s' = owned T s := by
  obtain ⟨m, hm, rfl⟩ := dropMsg_eq h
  have halive := (perm_eraseIdx hm).flatMap_right T.keys
  have hkeys : (T.keys m).Perm ((T.keys m).reverse.take 1 ++ (T.keys m).reverse.drop 1) := by
    rw [List.take_append_drop]
    exact (List.reverse_perm _).symm
  simp only [owned, ← Multiset.coe_add, List.flatten_append, List.flatten_singleton,
    Multiset.coe_eq_coe.mpr halive, List.flatMap_cons]
  rw [Multiset.coe_eq_coe.mpr hkeys, ← Multiset.coe_add]
  abel

lemma owned_dropStep {i : ℕ} (h : s.dropStep i = some s') : owned T s' = owned T s := by
  obtain ⟨pushed, left, e, rest, hd, hrest, rfl⟩ := dropStep_eq h
  have hold := (perm_eraseIdx hd).flatten
  have hnew : (rest.flatten : Multiset κ) = left + (s.dropping.eraseIdx i).flatten := by
    rcases hrest with ⟨rfl, rfl⟩ | rfl
    · simp
    · exact Multiset.coe_eq_coe.mpr (perm_set hd left).flatten
  simp only [owned, ← Multiset.coe_add, hnew, Multiset.coe_eq_coe.mpr hold, List.flatten_cons]
  abel

lemma OwnedOk.held_of_release {k : κ} {ks : List κ} (hs : OwnedOk T abs s)
    (hk : s.chan.dropKeyQ = k :: ks) : k ∈ (abs s.table).held :=
  (hs.accounted.2 k).mp (by simp [owned, hk])

lemma OwnedOk.released {r : ω} {k : κ} {ks : List κ} {o : Option μ} {t : τ} (hs : OwnedOk T abs s)
    (hT : T.Refines Inv abs) (ht : TableOk Inv abs s) (hk : s.chan.dropKeyQ = k :: ks)
    (h : T.release r s.table k = .ok (o, t)) :
    OwnedOk T abs (({ s with chan := { s.chan with dropKeyQ := ks } } : System κ μ τ ε).settle
      (some k) (.ok (o, t))) := by
  obtain ⟨hacc, hdist⟩ := hs
  obtain ⟨_, hrel⟩ := hT.release ht.inv h
  have hwait : ∀ m ∈ (abs s.table).waiting, (T.keys m).Nodup := fun m hm =>
    hdist m (Or.inr (Or.inl hm))
  have howned : owned T s =
      k ::ₘ (s.alive.flatMap T.keys ++ s.dropping.flatten ++ ks : List κ) := by
    simp only [owned, hk, Multiset.cons_coe, Multiset.coe_eq_coe, List.perm_middle]
  rw [howned] at hacc
  rw [settle_ok]
  constructor
  · convert hrel.accounted hacc hwait using 1
    simp only [owned, List.flatMap_append, ← Multiset.coe_add]
    abel
  · rintro m (hm | hm | hm)
    · exact hdist m (Or.inl hm)
    · have hle : (abs t).waiting ≤ (abs s.table).waiting := by
        rw [← hrel.waiting_add]
        exact Multiset.le_add_right _ _
      exact hwait m (Multiset.mem_of_le hle hm)
    · exact hdist m (Or.inr (Or.inr hm))

lemma OwnedOk.handled {m : μ} {ms : List μ} {o : Option μ} {t : τ} (hs : OwnedOk T abs s)
    (hT : T.Refines Inv abs) (ht : TableOk Inv abs s) (hq : s.chan.q = m :: ms)
    (h : T.handle s.table m = .ok (o, t)) :
    OwnedOk T abs (({ s with chan := { s.chan with q := ms } } : System κ μ τ ε).settle
      none (.ok (o, t))) := by
  obtain ⟨hacc, hdist⟩ := hs
  obtain ⟨_, harr⟩ := hT.handle ht.inv h
  have hm : (T.keys m).Nodup := hdist m (Or.inl (by simp [hq]))
  rw [settle_ok]
  constructor
  · convert harr.accounted hacc hm using 1
    simp only [owned, List.flatMap_append, ← Multiset.coe_add]
    abel
  · rintro m' (hm' | hm' | hm')
    · exact hdist m' (Or.inl (by rw [hq]; exact List.mem_cons_of_mem m hm'))
    · have hmem : m' ∈ (abs s.table).waiting + {m} := by
        rw [← harr.waiting_add]
        exact Multiset.mem_add.mpr (Or.inl hm')
      rcases Multiset.mem_add.mp hmem with hmem | hmem
      · exact hdist m' (Or.inr (Or.inl hmem))
      · exact Multiset.mem_singleton.mp hmem ▸ hm
    · exact hdist m' (Or.inr (Or.inr hm'))

lemma ownedOk_step (hT : T.Refines Inv abs) (ha : ∀ t m, a = .send t m → (T.keys m).Nodup)
    (ht : TableOk Inv abs s) (hs : OwnedOk T abs s) (h : s.step T a = some s') :
    Stopped s' ∨ OwnedOk T abs s' := by
  have hacc := hs.accounted
  have hdist := hs.distinct
  cases step_moves h with
  | handles senders hc hok hpc =>
    refine Or.inr ⟨hacc, fun m hm => ?_⟩
    rcases hm with hm | hm | ⟨t, hm⟩
    · exact hdist m (Or.inl hm)
    · exact hdist m (Or.inr (Or.inl hm))
    · rcases hpc t m hm with hold | hsend
      · exact hdist m (Or.inr (Or.inr ⟨t, hold⟩))
      · exact ha t m hsend
  | sender hq =>
    obtain ⟨_, htab, hal, hdr, hdk, _⟩ := senderStep_frame hq
    obtain ⟨new, hnq, _, _, hnew, hpc⟩ := senderStep_queues hq
    refine Or.inr ⟨by simpa only [owned, htab, hal, hdr, hdk] using hacc, fun m hm => ?_⟩
    rw [hnq, htab, List.mem_append] at hm
    rcases hm with (hm | hm) | hm | ⟨u, hm⟩
    · exact hdist m (Or.inl hm)
    · exact hdist m (Or.inr (Or.inr ⟨_, hnew m hm⟩))
    · exact hdist m (Or.inr (Or.inl hm))
    · exact hdist m (Or.inr (Or.inr ⟨u, hpc u m hm⟩))
  | release hr hk => exact stopped_or_settle fun o t hres => hs.released hT ht hk hres
  | handle hr hq => exact stopped_or_settle fun o t hres => hs.handled hT ht hq hres
  | dropMsg hq =>
    have howned := owned_dropMsg hq
    obtain ⟨_, _, rfl⟩ := dropMsg_eq hq
    exact Or.inr ⟨by rw [howned]; exact hacc, hdist⟩
  | dropStep hq =>
    have howned := owned_dropStep (T := T) hq
    obtain ⟨_, _, _, _, _, _, rfl⟩ := dropStep_eq hq
    exact Or.inr ⟨by rw [howned]; exact hacc, hdist⟩
  | recv | quiet | dropReceiver => exact Or.inr ⟨hacc, hdist⟩

structure KeyOk (T : KeyTable κ μ τ ω ε) (Inv : τ → Prop) (abs : τ → Admission κ μ)
    (s : System κ μ τ ε) : Prop where
  loop : LoopOk s
  exclusive : Exclusive T s
  table : Stopped s ∨ TableOk Inv abs s ∧ OwnedOk T abs s

lemma keyOk_new (hT : T.Refines Inv abs) : KeyOk T Inv abs (new T) :=
  ⟨loopOk_new, .nil, Or.inr ⟨tableOk_new hT, ownedOk_new hT⟩⟩

lemma settle_panicked {u : System κ μ τ ε} {released : Option κ} {r : Except ε (Option μ × τ)}
    {e : ε} (h : (u.settle released r).recv = .panicked (some e)) :
    r = .error e ∧ (u.settle released r).alive = u.alive := by
  rcases r with e' | ⟨_ | m, t⟩ <;> simp_all [settle]

lemma alive_of_stopped (hs : Stopped s') (h : s.step T a = some s') :
    s'.alive.Sublist s.alive := by
  obtain ⟨e, he⟩ := hs
  cases step_moves h with
  | handles => exact .refl _
  | sender hq => rw [(senderStep_frame hq).2.2.1]
  | release | handle => rw [(settle_panicked he).2]
  | dropMsg hq =>
    obtain ⟨_, _, rfl⟩ := dropMsg_eq hq
    exact List.eraseIdx_sublist _ _
  | dropStep hq =>
    obtain ⟨_, _, _, _, _, _, rfl⟩ := dropStep_eq hq
    exact .refl _
  | recv | quiet | dropReceiver => exact .refl _

lemma keyOk_step (hT : T.Refines Inv abs) (ha : ∀ t m, a = .send t m → (T.keys m).Nodup)
    (hs : KeyOk T Inv abs s) (h : s.step T a = some s') : KeyOk T Inv abs s' := by
  obtain ⟨hl, hx, ht⟩ := hs
  have hstop : Stopped s' → KeyOk T Inv abs s' := fun hst =>
    ⟨loopOk_step hl h, hx.sublist (alive_of_stopped hst h), Or.inl hst⟩
  rcases ht with hst | ⟨ht, ho⟩
  · exact hstop (stopped_step hst h)
  · rcases tableOk_step hT ht h with hst | ht'
    · exact hstop hst
    · rcases ownedOk_step hT ha ht ho h with hst | ho'
      · exact hstop hst
      · exact ⟨loopOk_step hl h, ho'.exclusive, Or.inr ⟨ht', ho'⟩⟩

lemma panicked_step {e : ε} (h : s.step T a = some s') (he : s'.recv = .panicked (some e)) :
    s.recv = .panicked (some e) ∨
    (∃ o k ks, a = .recvStep o ∧ s.recv = .drain ∧ s.chan.dropKeyQ = k :: ks ∧
      T.release o s.table k = .error e) ∨
    ∃ o m ms, a = .recvStep o ∧ s.recv = .popQ ∧ s.chan.q = m :: ms ∧
      T.handle s.table m = .error e := by
  cases step_moves h with
  | handles => exact Or.inl he
  | sender hq => exact Or.inl ((senderStep_frame hq).1 ▸ he)
  | release hr hk => exact Or.inr (Or.inl ⟨_, _, _, rfl, hr, hk, (settle_panicked he).1⟩)
  | handle hr hq => exact Or.inr (Or.inr ⟨_, _, _, rfl, hr, hq, (settle_panicked he).1⟩)
  | quiet _ _ _ _ _ _ hr => exact (hr e he).elim
  | dropMsg hq =>
    obtain ⟨_, _, rfl⟩ := dropMsg_eq hq
    exact Or.inl he
  | dropStep hq =>
    obtain ⟨_, _, _, _, _, _, rfl⟩ := dropStep_eq hq
    exact Or.inl he
  | recv | dropReceiver => simp at he

end PaQueueAndChan.KeyChannel.System
