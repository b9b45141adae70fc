import PaQueueAndChan.KeyChannel.Exclusion
import PaQueueAndChan.KeyChannel.Order
import PaQueueAndChan.Library.FinMap

/-! `kv_mpsc.rs`: the table is `using_keys`, one queue of waiting messages under each key in use. -/

namespace PaQueueAndChan.KeyChannel.KvMpsc

open Library

variable {K V : Type*} [LinearOrder K]

abbrev UsingKeys (K V : Type*) [LinearOrder K] := FinMap K (List (K × V))

inductive Panic
  | unknownKey                       -- `drop_key_q` gave a key that is not in `using_keys`
  | keyInserted                      -- `assert!(using_keys.insert(..).is_none())`

def release (usingKeys : UsingKeys K V) (k : K) : Except Panic (Option (K × V) × UsingKeys K V) :=
  match usingKeys.get k with
  | none => .error .unknownKey
  | some (msg :: waiting) => .ok (some msg, usingKeys.insert k waiting)
  | some [] => .ok (none, usingKeys.erase k)

def handle (usingKeys : UsingKeys K V) (msg : K × V) :
    Except Panic (Option (K × V) × UsingKeys K V) :=
  match usingKeys.get msg.1 with
  | some waitingForK => .ok (none, usingKeys.insert msg.1 (waitingForK ++ [msg]))
  | none =>
    if (usingKeys.get msg.1).isNone then .ok (some msg, usingKeys.insert msg.1 [])
    else .error .keyInserted

variable (K V) in
def kvMpsc : KeyTable K (K × V) (UsingKeys K V) Unit Panic where
  keys m := [m.1]
  empty := FinMap.empty
  release _ := release
  handle := handle
  closable := FinMap.isEmpty

def QueuesOk (usingKeys : UsingKeys K V) : Prop :=
  ∀ k waiting, usingKeys.get k = some waiting → ∀ m ∈ waiting, m.1 = k

def admission (usingKeys : UsingKeys K V) : Admission K (K × V) where
  held := {k | k ∈ usingKeys.keys}
  waiting := usingKeys.total fun e => (e.2 : Multiset (K × V))

variable {usingKeys usingKeys' : UsingKeys K V} {k : K} {m : K × V} {o : Option (K × V)}

lemma QueuesOk.insert {waiting : List (K × V)} (hq : QueuesOk usingKeys)
    (hw : ∀ m ∈ waiting, m.1 = k) : QueuesOk (usingKeys.insert k waiting) := by
  intro k' l hl
  by_cases hk : k' = k
  · subst hk
    obtain rfl : waiting = l := by simpa using hl
    exact hw
  · exact hq k' l (by rwa [FinMap.get_insert_of_ne hk] at hl)

lemma mem_held : k ∈ (admission usingKeys).held ↔ ∃ waiting, usingKeys.get k = some waiting :=
  FinMap.mem_keys

lemma held_insert {waiting : List (K × V)} :
    (admission (usingKeys.insert k waiting)).held =
      (admission usingKeys).held ∪ {k' | k' ∈ [k]} := by
  ext k'
  rw [Set.mem_union, mem_held, mem_held, FinMap.get_insert]
  by_cases hk : k' = k <;> simp [hk]

lemma waiting_insert {waiting : List (K × V)} :
    (admission (usingKeys.insert k waiting)).waiting =
      waiting + (admission (usingKeys.erase k)).waiting := FinMap.total_insert

lemma waiting_of_get {waiting : List (K × V)} (h : usingKeys.get k = some waiting) :
    (admission usingKeys).waiting = waiting + (admission (usingKeys.erase k)).waiting :=
  FinMap.total_of_get h

lemma handle_arrive (hq : QueuesOk usingKeys) (h : handle usingKeys m = .ok (o, usingKeys')) :
    QueuesOk usingKeys' ∧
      Admission.Arrive (kvMpsc K V).keys (admission usingKeys) m o (admission usingKeys') := by
  unfold handle at h
  cases hg : usingKeys.get m.1 with
  | some waiting =>
    simp only [hg, Except.ok.injEq, Prod.mk.injEq] at h
    obtain ⟨rfl, rfl⟩ := h
    have hheld : m.1 ∈ (admission usingKeys).held := mem_held.mpr ⟨_, hg⟩
    refine ⟨hq.insert fun m' hm' => ?_, .of_wait ⟨m.1, List.mem_singleton.mpr rfl, hheld⟩ ?_ ?_⟩
    · rcases List.mem_append.mp hm' with hm' | hm'
      · exact hq _ _ hg m' hm'
      · rw [List.mem_singleton.mp hm']
    · simpa [held_insert] using hheld
    · rw [waiting_insert, waiting_of_get hg, ← Multiset.coe_add, ← Multiset.singleton_add]
      simp only [Multiset.coe_singleton]
      abel
  | none =>
    simp only [hg, Option.isNone_none, if_true, Except.ok.injEq, Prod.mk.injEq] at h
    obtain ⟨rfl, rfl⟩ := h
    refine ⟨hq.insert (by simp), .of_grant ?_ held_insert ?_⟩
    · rintro ⟨k, hk, hheld⟩
      obtain rfl : k = m.1 := List.mem_singleton.mp hk
      obtain ⟨waiting, hw⟩ := mem_held.mp hheld
      rw [hg] at hw
      cases hw
    · rw [waiting_insert, Multiset.coe_nil, zero_add]
      exact FinMap.total_erase_of_get_eq_none hg

lemma release_release (hq : QueuesOk usingKeys) (h : release usingKeys k = .ok (o, usingKeys')) :
    QueuesOk usingKeys' ∧
      Admission.Release (kvMpsc K V).keys (admission usingKeys) k o (admission usingKeys') := by
  unfold release at h
  cases hg : usingKeys.get k with
  | none => simp [hg] at h
  | some waiting =>
    have hheld : k ∈ (admission usingKeys).held := mem_held.mpr ⟨_, hg⟩
    cases waiting with
    | nil =>
      simp only [hg, Except.ok.injEq, Prod.mk.injEq] at h
      obtain ⟨rfl, rfl⟩ := h
      refine ⟨fun k' l hl => ?_, .of_free hheld (fun m hm hkm => ?_) ?_ ?_⟩
      · rw [FinMap.get_erase] at hl
        split_ifs at hl
        exact hq k' l hl
      · -- a message that waits for `k` would be in the queue under `k`
        obtain ⟨k', l, hl, hml⟩ := FinMap.mem_total.mp hm
        obtain rfl : k = m.1 := List.mem_singleton.mp hkm
        obtain rfl := hq k' l hl m hml
        rw [hg] at hl
        cases hl
        cases hml
      · ext k'
        rw [Set.mem_sdiff, mem_held, mem_held, FinMap.get_erase]
        by_cases hk : k' = k <;> simp [hk]
      · simp [waiting_of_get hg]
    | cons msg ms =>
      simp only [hg, Except.ok.injEq, Prod.mk.injEq] at h
      obtain ⟨rfl, rfl⟩ := h
      obtain rfl : msg.1 = k := hq k _ hg msg (List.mem_cons_self ..)
      refine ⟨hq.insert fun m' hm' => hq _ _ hg m' (List.mem_cons_of_mem _ hm'),
        .of_pass hheld (List.mem_singleton.mpr rfl) ?_ ?_ ?_⟩
      · rintro ⟨k, hk, -, hne⟩
        exact hne (List.mem_singleton.mp hk)
      · -- the key stays in use, now for the message handed over
        change _ = _ \ {msg.1} ∪ {k' | k' ∈ [msg.1]}
        rw [held_insert]
        ext k'
        by_cases hk : k' = msg.1 <;> simp [hk]
      · rw [waiting_insert, waiting_of_get hg, ← Multiset.cons_coe, Multiset.cons_add]

lemma refines : (kvMpsc K V).Refines QueuesOk admission where
  inv_empty := by simp [QueuesOk, kvMpsc]
  abs_empty := by simp [admission, kvMpsc, FinMap.keys, FinMap.empty, FinMap.total]
  handle := handle_arrive
  release := release_release
  closable := by
    intro usingKeys _ hc
    apply Multiset.eq_zero_of_forall_notMem
    intro m hm
    obtain ⟨k, l, hl, _⟩ := FinMap.mem_total.mp hm
    simp [FinMap.isEmpty_iff.mp hc k] at hl

lemma release_ne_error {e : Panic} (hk : k ∈ (admission usingKeys).held) :
    release usingKeys k ≠ .error e := by
  obtain ⟨waiting, hg⟩ := mem_held.mp hk
  cases waiting <;> simp [release, hg]

lemma handle_ne_error {e : Panic} : handle usingKeys m ≠ .error e := by
  unfold handle
  cases usingKeys.get m.1 <;> simp

def waitingUnder (usingKeys : UsingKeys K V) (k : K) : List (K × V) :=
  (usingKeys.get k).getD []

lemma waitingUnder_insert {waiting : List (K × V)} (g : K) :
    waitingUnder (usingKeys.insert k waiting) g =
      if g = k then waiting else waitingUnder usingKeys g := by
  rw [waitingUnder, FinMap.get_insert]
  split_ifs <;> rfl

lemma lines : (kvMpsc K V).Lines QueuesOk Prod.fst waitingUnder where
  line_empty _ := rfl
  handle := by
    intro usingKeys m o usingKeys' _ h g
    change handle usingKeys m = _ at h
    unfold handle at h
    rw [ofClass_singleton]
    cases hg : usingKeys.get m.1 with
    | some waiting =>
      simp only [hg, Except.ok.injEq, Prod.mk.injEq] at h
      obtain ⟨rfl, rfl⟩ := h
      rw [waitingUnder_insert]
      by_cases hm : m.1 = g
      · subst hm
        simp [waitingUnder, hg]
      · simp [hm, Ne.symm hm]
    | none =>
      simp only [hg, Option.isNone_none, if_true, Except.ok.injEq, Prod.mk.injEq] at h
      obtain ⟨rfl, rfl⟩ := h
      rw [waitingUnder_insert, Option.toList_some, ofClass_singleton]
      by_cases hm : m.1 = g
      · subst hm
        simp [waitingUnder, hg]
      · simp [hm, Ne.symm hm]

lemma serves (hq : QueuesOk usingKeys) (r : Unit) :
    (kvMpsc K V).Serves Prod.fst waitingUnder r usingKeys k := by
  intro o usingKeys' h g
  change release usingKeys k = _ at h
  unfold release at h
  split at h
  · cases h
  · rename_i msg waiting hg
    obtain ⟨rfl, rfl⟩ := Prod.mk.inj (Except.ok.inj h)
    obtain rfl : msg.1 = k := hq k _ hg msg (List.mem_cons_self ..)
    rw [waitingUnder_insert, Option.toList_some, ofClass_singleton]
    by_cases hm : msg.1 = g
    · subst hm
      simp [waitingUnder, hg]
    · simp [hm, Ne.symm hm]
  · rename_i hg
    obtain ⟨rfl, rfl⟩ := Prod.mk.inj (Except.ok.inj h)
    simp only [waitingUnder, FinMap.get_erase, Option.toList_none, ofClass_nil, List.nil_append]
    split_ifs with hk
    · simp [hk, hg]
    · rfl

section runs

open KeyChannel.System

variable {s s' : System K (K × V) (UsingKeys K V) Panic} {a : Action (K × V) Unit}

lemma not_stopped_step (hs : KeyOk (kvMpsc K V) QueuesOk admission s) (hn : ¬ Stopped s)
    (h : s.step (kvMpsc K V) a = some s') : ¬ Stopped s' := by
  rintro ⟨e, he⟩
  obtain ⟨_, ho⟩ := hs.table.resolve_left hn
  rcases panicked_step h he with he | ⟨_, k, ks, _, _, hk, herr⟩ | ⟨_, m, ms, _, _, _, herr⟩
  · exact hn ⟨e, he⟩
  · exact release_ne_error (ho.held_of_release hk) herr
  · exact handle_ne_error herr

-- the first push of a drop is also its last
lemma dropping_step (hs : ∀ ks ∈ s.dropping, ks = []) (h : s.step (kvMpsc K V) a = some s') :
    ∀ ks ∈ s'.dropping, ks = [] := by
  cases step_moves h with
  | sender hq => rwa [(senderStep_frame hq).2.2.2.1]
  | release | handle => simpa only [settle_frame] using hs
  | dropMsg hq =>
    obtain ⟨m, _, rfl⟩ := dropMsg_eq hq
    intro ks hks
    rcases List.mem_append.mp hks with hks | hks
    · exact hs ks hks
    · exact List.mem_singleton.mp hks
  | dropStep hq =>
    obtain ⟨pushed, left, _, rest, hd, hrest, rfl⟩ := dropStep_eq hq
    have hnil := hs _ (List.mem_of_getElem? hd)
    rcases hrest with ⟨_, rfl⟩ | rfl
    · exact fun ks hks => hs ks (List.mem_of_mem_eraseIdx hks)
    · intro ks hks
      rcases List.mem_or_eq_of_mem_set hks with hks | rfl
      · exact hs ks hks
      · exact (List.append_eq_nil_iff.mp hnil).2
  | handles | recv | quiet | dropReceiver => exact hs

structure RunOk (s : System K (K × V) (UsingKeys K V) Panic) : Prop where
  key : KeyOk (kvMpsc K V) QueuesOk admission s
  running : ¬ Stopped s
  dropping : ∀ ks ∈ s.dropping, ks = []

lemma runOk_new : RunOk (new (kvMpsc K V)) :=
  ⟨keyOk_new refines, by simp [Stopped, new], by simp [new]⟩

lemma runOk_step (hs : RunOk s) (h : s.step (kvMpsc K V) a = some s') : RunOk s' :=
  ⟨keyOk_step refines (fun _ _ _ => List.nodup_singleton _) hs.key h,
    not_stopped_step hs.key hs.running h, dropping_step hs.dropping h⟩

lemma runOk_run {as : List (Action (K × V) Unit)}
    (h : run (step (kvMpsc K V)) (new (kvMpsc K V)) as = some s) : RunOk s :=
  run_invariant (fun _ _ _ => runOk_step) runOk_new h

lemma RunOk.inUse (hs : RunOk s) : (s.alive.map Prod.fst ++ s.chan.dropKeyQ).Nodup ∧
    ∀ k, k ∈ s.alive.map Prod.fst ++ s.chan.dropKeyQ ↔ k ∈ s.table.keys := by
  have howned : owned (kvMpsc K V) s = (s.alive.map Prod.fst ++ s.chan.dropKeyQ : List K) := by
    have hflat : s.alive.flatMap (kvMpsc K V).keys = s.alive.map Prod.fst :=
      (List.map_eq_flatMap ..).symm
    simp [owned, List.flatten_eq_nil_iff.mpr hs.dropping, hflat]
  obtain ⟨hnodup, hheld⟩ := (hs.key.table.resolve_left hs.running).2.accounted
  rw [howned] at hnodup hheld
  exact ⟨hnodup, hheld⟩

/-- In every run the keys of the live messages and those in `drop_key_q` are the keys of
`using_keys`, each once; a queue holds the messages of its key; no two live messages have the same
key, and nothing panics. -/
theorem exclusive_keys (as : List (Action (K × V) Unit))
    (s : System K (K × V) (UsingKeys K V) Panic)
    (h : run (step (kvMpsc K V)) (new (kvMpsc K V)) as = some s) :
    (s.alive.map Prod.fst ++ s.chan.dropKeyQ).Nodup ∧
      (∀ k, k ∈ s.alive.map Prod.fst ++ s.chan.dropKeyQ ↔ k ∈ s.table.keys) ∧
      (∀ k waiting, s.table.get k = some waiting → ∀ m ∈ waiting, m.1 = k) ∧
      s.alive.Pairwise (fun m m' => m.1 ≠ m'.1) ∧
      ∀ site, s.recv ≠ .panicked site := by
  have hok := runOk_run h
  obtain ⟨hnodup, hkeys⟩ := hok.inUse
  refine ⟨hnodup, hkeys, (hok.key.table.resolve_left hok.running).1.inv, ?_, ?_⟩
  · exact List.pairwise_map.mp (List.Nodup.of_append_left hnodup)
  · rintro (_ | e) he
    · exact hok.key.loop.present he
    · exact hok.running ⟨e, he⟩

def handOver : List (Action (ℕ × ℕ) Unit) :=
  [.send 0 (1, 10), .sender 0, .sender 0, .send 0 (1, 11), .sender 0, .sender 0, .recv,
    .recvStep (), .recvStep (), .recv, .recvStep (), .recvStep (), .dropMsg 0, .recvStep ()]

theorem exclusive_keys_handOver :
    ∃ s, run (step (kvMpsc ℕ ℕ)) (new (kvMpsc ℕ ℕ)) handOver = some s ∧ s.alive = [(1, 11)] ∧
      (s.alive.map Prod.fst ++ s.chan.dropKeyQ).Nodup ∧
      (∀ k, k ∈ s.alive.map Prod.fst ++ s.chan.dropKeyQ ↔ k ∈ s.table.keys) ∧
      (∀ k waiting, s.table.get k = some waiting → ∀ m ∈ waiting, m.1 = k) ∧
      s.alive.Pairwise (fun m m' => m.1 ≠ m'.1) ∧
      ∀ site, s.recv ≠ .panicked site :=
  ⟨_, rfl, rfl, exclusive_keys handOver _ rfl⟩

/-- In every run and for every key, the messages sent with it are, in the order in which they
entered `q`, those returned, those waiting under the key and those still in `q`. -/
theorem fifo_per_key (as : List (Action (K × V) Unit))
    (s : System K (K × V) (UsingKeys K V) Panic)
    (h : run (step (kvMpsc K V)) (new (kvMpsc K V)) as = some s) (k : K) :
    s.sent.filter (fun m => m.1 = k) =
      s.returned.filter (fun m => m.1 = k) ++ (s.table.get k).getD [] ++
        s.chan.q.filter (fun m => m.1 = k) := by
  have hinv := run_invariant (I := fun s => RunOk s ∧ OrderOk Prod.fst waitingUnder s)
    (fun s a s' hs h => by
      have hok := runOk_step hs.1 h
      have hq := (hs.1.key.table.resolve_left hs.1.running).1.inv
      have ho := orderOk_step lines hq (fun r k ks _ _ _ => serves hq r) hs.2 h
      exact ⟨hok, ho.resolve_left hok.running⟩)
    ⟨runOk_new, orderOk_new lines⟩ h
  rw [List.append_assoc]
  exact hinv.2 k

def oneOfEach : List (Action (ℕ × ℕ) Unit) :=
  [.send 0 (1, 10), .sender 0, .sender 0, .send 0 (1, 11), .sender 0, .sender 0, .recv,
    .recvStep (), .recvStep (), .recv, .recvStep (), .recvStep (), .send 0 (1, 12), .sender 0]

theorem fifo_per_key_oneOfEach :
    ∃ s, run (step (kvMpsc ℕ ℕ)) (new (kvMpsc ℕ ℕ)) oneOfEach = some s ∧
      s.returned = [(1, 10)] ∧ s.chan.q = [(1, 12)] ∧
      s.sent.filter (fun m => m.1 = 1) =
        s.returned.filter (fun m => m.1 = 1) ++ (s.table.get 1).getD [] ++
          s.chan.q.filter (fun m => m.1 = 1) :=
  ⟨_, rfl, rfl, rfl, fifo_per_key oneOfEach _
    (show run (step (kvMpsc ℕ ℕ)) (new (kvMpsc ℕ ℕ)) oneOfEach = some _ from rfl) 1⟩

end runs

end PaQueueAndChan.KeyChannel.KvMpsc
