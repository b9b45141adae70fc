import PaQueueAndChan.KeyChannel.KvMpscMultik.ConflictManager
import PaQueueAndChan.Library.Fallible

/-! What keeps the indexes of the `ConflictManager` in step. A message that waits is found in the
table of each of its key states; a table may also hold addresses of messages that no longer wait. -/

namespace PaQueueAndChan.KeyChannel.KvMpscMultik.ConflictManager

open Library

variable {K V : Type} [LinearOrder K] {cm cm' : ConflictManager K V} {k k' : K} {r r' : StateRef}
  {id : WaitingMsgId} {a : MsgRef} {w : WaitingMsg V} {b : Bool} {t : FinMap WaitingMsgId MsgRef}

@[simp] lemma setInUse_nextState : (cm.setInUse r b).nextState = cm.nextState := rfl
@[simp] lemma setInUse_nextMsg : (cm.setInUse r b).nextMsg = cm.nextMsg := rfl
@[simp] lemma setInUse_waitingmsgs : (cm.setInUse r b).waitingmsgs = cm.waitingmsgs := rfl
@[simp] lemma setInUse_keysStates : (cm.setInUse r b).keysStates = cm.keysStates := rfl
@[simp] lemma setInUse_nextWaitingmsgId :
    (cm.setInUse r b).nextWaitingmsgId = cm.nextWaitingmsgId := rfl

@[simp] lemma setInUse_k : ((cm.setInUse r b).heap r').k = (cm.heap r').k := by
  by_cases h : r' = r <;> simp [setInUse, h]

@[simp] lemma setInUse_table :
    ((cm.setInUse r b).heap r').waitingmsgs = (cm.heap r').waitingmsgs := by
  by_cases h : r' = r <;> simp [setInUse, h]

lemma setInUse_inUse :
    ((cm.setInUse r b).heap r').inUse = if r' = r then b else (cm.heap r').inUse := by
  by_cases h : r' = r <;> simp [setInUse, h]

@[simp] lemma setWaitingmsgs_nextState : (cm.setWaitingmsgs r t).nextState = cm.nextState := rfl
@[simp] lemma setWaitingmsgs_nextMsg : (cm.setWaitingmsgs r t).nextMsg = cm.nextMsg := rfl
@[simp] lemma setWaitingmsgs_waitingmsgs :
    (cm.setWaitingmsgs r t).waitingmsgs = cm.waitingmsgs := rfl
@[simp] lemma setWaitingmsgs_keysStates : (cm.setWaitingmsgs r t).keysStates = cm.keysStates := rfl
@[simp] lemma setWaitingmsgs_nextWaitingmsgId :
    (cm.setWaitingmsgs r t).nextWaitingmsgId = cm.nextWaitingmsgId := rfl

@[simp] lemma setWaitingmsgs_k : ((cm.setWaitingmsgs r t).heap r').k = (cm.heap r').k := by
  by_cases h : r' = r <;> simp [setWaitingmsgs, h]

@[simp] lemma setWaitingmsgs_inUse :
    ((cm.setWaitingmsgs r t).heap r').inUse = (cm.heap r').inUse := by
  by_cases h : r' = r <;> simp [setWaitingmsgs, h]

lemma setWaitingmsgs_table :
    ((cm.setWaitingmsgs r t).heap r').waitingmsgs =
      if r' = r then t else (cm.heap r').waitingmsgs := by
  by_cases h : r' = r <;> simp [setWaitingmsgs, h]

def Using (cm : ConflictManager K V) (k : K) : Prop :=
  ∃ r, cm.keysStates.get k = some r ∧ cm.isUsing r = true

-- what `take_kv` would make of a waiting message
def pair (cm : ConflictManager K V) (w : WaitingMsg V) : Option (List K × V) :=
  (cm.takeKv w).toOption

def pairs (cm : ConflictManager K V) (ws : FinMap WaitingMsgId (MsgRef × WaitingMsg V)) :
    Multiset (List K × V) :=
  ws.total fun e => ((cm.pair e.2.2).toList : Multiset (List K × V))

def admission (cm : ConflictManager K V) : Admission K (List K × V) where
  held := {k | cm.Using k}
  waiting := cm.pairs cm.waitingmsgs

def Listed (cm : ConflictManager K V) (k : K) (id : WaitingMsgId) (a : MsgRef) : Prop :=
  ∃ r, cm.keysStates.get k = some r ∧ (cm.heap r).waitingmsgs.get id = some a

structure Wf (cm : ConflictManager K V) : Prop where
  key_of : ∀ ⦃k r⦄, cm.keysStates.get k = some r → r < cm.nextState ∧ (cm.heap r).k = some k
  msg_ok : ∀ ⦃id a w⦄, cm.waitingmsgs.get id = some (a, w) → a < cm.nextMsg ∧
    ∃ rs v, w = ⟨some (rs, v), id⟩ ∧ ∀ r ∈ rs, (∃ k, cm.keysStates.get k = some r) ∧
      (cm.heap r).waitingmsgs.get id = some a
  addr_inj : ∀ ⦃id id' a w w'⦄, cm.waitingmsgs.get id = some (a, w) →
    cm.waitingmsgs.get id' = some (a, w') → id = id'
  table_lt : ∀ ⦃k r id a⦄, cm.keysStates.get k = some r →
    (cm.heap r).waitingmsgs.get id = some a → a < cm.nextMsg
  table_ok : ∀ ⦃k r id a id' w⦄, cm.keysStates.get k = some r →
    (cm.heap r).waitingmsgs.get id = some a → cm.waitingmsgs.get id' = some (a, w) →
    id' = id ∧ ∃ rs v, w.ksV = some (rs, v) ∧ r ∈ rs

lemma wf_new : Wf (new : ConflictManager K V) := by
  constructor <;> simp [new]

lemma admission_new : (new : ConflictManager K V).admission = ⟨∅, 0⟩ := by
  simp [admission, new, Using, pairs]

lemma Wf.attached_inj (hw : Wf cm) (h : cm.keysStates.get k = some r)
    (h' : cm.keysStates.get k' = some r) : k = k' := by
  have := (hw.key_of h).2.symm.trans (hw.key_of h').2
  exact Option.some.inj this

lemma using_iff (h : cm.keysStates.get k = some r) :
    cm.Using k ↔ cm.isUsing r = true := by
  constructor
  · rintro ⟨r', hr', hu⟩
    obtain rfl := Option.some.inj (h.symm.trans hr')
    exact hu
  · exact fun hu => ⟨r, h, hu⟩

structure FlagsOnly (cm cm' : ConflictManager K V) : Prop where
  nextState : cm'.nextState = cm.nextState
  nextMsg : cm'.nextMsg = cm.nextMsg
  waitingmsgs : cm'.waitingmsgs = cm.waitingmsgs
  keysStates : cm'.keysStates = cm.keysStates
  nextWaitingmsgId : cm'.nextWaitingmsgId = cm.nextWaitingmsgId
  key : ∀ r, (cm'.heap r).k = (cm.heap r).k
  table : ∀ r, (cm'.heap r).waitingmsgs = (cm.heap r).waitingmsgs

lemma FlagsOnly.refl : FlagsOnly cm cm := ⟨rfl, rfl, rfl, rfl, rfl, fun _ => rfl, fun _ => rfl⟩

lemma FlagsOnly.setInUse (h : FlagsOnly cm cm') : FlagsOnly cm (cm'.setInUse r b) :=
  ⟨h.nextState, h.nextMsg, h.waitingmsgs, h.keysStates, h.nextWaitingmsgId,
    fun r => setInUse_k.trans (h.key r), fun r => setInUse_table.trans (h.table r)⟩

lemma FlagsOnly.listed (h : FlagsOnly cm cm') : cm'.Listed k id a ↔ cm.Listed k id a := by
  simp only [Listed, h.keysStates, h.table]

lemma FlagsOnly.wf (h : FlagsOnly cm cm') (hw : Wf cm) : Wf cm' := by
  constructor
  · simpa only [h.keysStates, h.nextState, h.key] using hw.key_of
  · simpa only [h.keysStates, h.nextMsg, h.waitingmsgs, h.table] using hw.msg_ok
  · simpa only [h.waitingmsgs] using hw.addr_inj
  · simpa only [h.keysStates, h.nextMsg, h.table] using hw.table_lt
  · simpa only [h.keysStates, h.waitingmsgs, h.table] using hw.table_ok

lemma keyOf_eq_ok : cm.keyOf r = .ok k ↔ (cm.heap r).k = some k := by
  unfold keyOf
  split <;> simp_all

lemma takeKv_congr (hk : ∀ rs v, w.ksV = some (rs, v) → ∀ r ∈ rs, (cm'.heap r).k = (cm.heap r).k) :
    cm'.takeKv w = cm.takeKv w := by
  unfold takeKv
  split
  · rename_i rs v hrs
    have : rs.reverse.mapM cm'.keyOf = rs.reverse.mapM cm.keyOf :=
      mapM_congr fun r hr => by
        simp only [keyOf, hk rs v hrs r (List.mem_reverse.mp hr)]
    rw [this]
  · rfl

lemma takeKv_eq_ok {rs : List StateRef} {v : V} {m : List K × V} :
    cm.takeKv ⟨some (rs, v), id⟩ = .ok m ↔
      rs.reverse.map (fun r => (cm.heap r).k) = m.1.map some ∧ v = m.2 := by
  have hmap : ∀ ks, rs.reverse.mapM cm.keyOf = .ok ks ↔
      rs.reverse.map (fun r => (cm.heap r).k) = ks.map some := by
    intro ks
    rw [mapM_eq_ok, ← List.forall₂_eq_eq_eq, List.forall₂_map_left_iff, List.forall₂_map_right_iff]
    simp only [keyOf_eq_ok]
  obtain ⟨ks, v'⟩ := m
  simp only [takeKv, bind_eq_ok, pure_eq_ok, hmap, Prod.mk.injEq]
  constructor
  · rintro ⟨ks', hks, rfl, rfl⟩
    exact ⟨hks, rfl⟩
  · rintro ⟨hks, rfl⟩
    exact ⟨ks, hks, rfl, rfl⟩

lemma mem_takeKv {rs : List StateRef} {v : V} {m : List K × V}
    (h : cm.takeKv ⟨some (rs, v), id⟩ = .ok m) : k ∈ m.1 ↔ ∃ r ∈ rs, (cm.heap r).k = some k := by
  have hk := (takeKv_eq_ok.mp h).1
  calc k ∈ m.1 ↔ some k ∈ m.1.map some := by simp
    _ ↔ ∃ r ∈ rs, (cm.heap r).k = some k := by simp [← hk]

lemma nodup_of_takeKv {rs : List StateRef} {v : V} {m : List K × V}
    (h : cm.takeKv ⟨some (rs, v), id⟩ = .ok m) (hm : m.1.Nodup) : rs.Nodup := by
  have hk := (takeKv_eq_ok.mp h).1
  have : (rs.reverse.map fun r => (cm.heap r).k).Nodup := hk ▸ hm.map (Option.some_injective K)
  exact List.nodup_reverse.mp this.of_map

lemma exists_map_some {α β : Type*} {f : α → Option β} {l : List α}
    (h : ∀ a ∈ l, ∃ b, f a = some b) : ∃ l' : List β, l.map f = l'.map some := by
  induction l with
  | nil => exact ⟨[], rfl⟩
  | cons a l ih =>
    obtain ⟨b, hb⟩ := h a (List.mem_cons_self ..)
    obtain ⟨l', hl⟩ := ih fun a' ha' => h a' (List.mem_cons_of_mem a ha')
    exact ⟨b :: l', by simp [hb, hl]⟩

lemma Wf.waits (hw : Wf cm) (h : cm.waitingmsgs.get id = some (a, w)) :
    ∃ rs v m, w = ⟨some (rs, v), id⟩ ∧ cm.takeKv w = .ok m ∧
      (∀ k, k ∈ m.1 ↔ ∃ r ∈ rs, cm.keysStates.get k = some r) ∧
      ∀ r ∈ rs, (∃ k, cm.keysStates.get k = some r) ∧ (cm.heap r).waitingmsgs.get id = some a := by
  obtain ⟨-, rs, v, rfl, hrs⟩ := hw.msg_ok h
  obtain ⟨ks, hks⟩ := exists_map_some (f := fun r => (cm.heap r).k) (l := rs.reverse)
    fun r hr => by
      obtain ⟨⟨k, hk⟩, -⟩ := hrs r (List.mem_reverse.mp hr)
      exact ⟨k, (hw.key_of hk).2⟩
  have hm : cm.takeKv ⟨some (rs, v), id⟩ = .ok (ks, v) := takeKv_eq_ok.mpr ⟨hks, rfl⟩
  refine ⟨rs, v, (ks, v), rfl, hm, fun k => ?_, hrs⟩
  rw [mem_takeKv hm]
  refine exists_congr fun r => and_congr_right fun hr => ?_
  obtain ⟨⟨k', hk'⟩, -⟩ := hrs r hr
  have hkey := (hw.key_of hk').2
  constructor
  · intro h
    obtain rfl := Option.some.inj (hkey.symm.trans h)
    exact hk'
  · exact fun h => (hw.key_of h).2

lemma mem_waiting {m : List K × V} : m ∈ cm.admission.waiting ↔
    ∃ id a w, cm.waitingmsgs.get id = some (a, w) ∧ cm.takeKv w = .ok m := by
  have htake : ∀ w, m ∈ ((cm.pair w).toList : Multiset (List K × V)) ↔ cm.takeKv w = .ok m := by
    intro w
    cases h : cm.takeKv w <;> simp [pair, h, Except.toOption, eq_comm]
  simp only [admission, pairs, FinMap.mem_total, htake, Prod.exists]

lemma upgrade_eq_some (hw : Wf cm) :
    cm.upgrade a = some w ↔ ∃ id, cm.waitingmsgs.get id = some (a, w) := by
  simp only [upgrade, Option.map_eq_some_iff]
  constructor
  · rintro ⟨⟨id, a', w'⟩, he, rfl⟩
    obtain rfl : a' = a := by simpa using List.find?_some he
    exact ⟨id, FinMap.get_eq_some.mpr (List.mem_of_find?_eq_some he)⟩
  · rintro ⟨id, hid⟩
    cases hf : cm.waitingmsgs.entries.find? (fun e => decide (e.2.1 = a)) with
    | none =>
      have := List.find?_eq_none.mp hf _ (FinMap.get_eq_some.mp hid)
      simp at this
    | some e =>
      obtain ⟨id', a', w'⟩ := e
      obtain rfl : a' = a := by simpa using List.find?_some hf
      have hid' := FinMap.get_eq_some.mpr (List.mem_of_find?_eq_some hf)
      obtain rfl := hw.addr_inj hid hid'
      rw [hid] at hid'
      obtain ⟨-, rfl⟩ := Prod.mk.inj (Option.some.inj hid')
      exact ⟨_, rfl, rfl⟩

lemma pairs_congr {ws : FinMap WaitingMsgId (MsgRef × WaitingMsg V)}
    (hp : ∀ id a w, ws.get id = some (a, w) → cm'.takeKv w = cm.takeKv w) :
    cm'.pairs ws = cm.pairs ws := by
  simp only [pairs, FinMap.total]
  congr 1
  apply List.map_congr_left
  intro e he
  rw [pair, hp e.1 e.2.1 e.2.2 (FinMap.get_eq_some.mpr he), pair]

lemma pairs_of_get {ws : FinMap WaitingMsgId (MsgRef × WaitingMsg V)} {m : List K × V}
    (h : ws.get id = some (a, w)) (ht : cm.takeKv w = .ok m) :
    cm.pairs ws = m ::ₘ cm.pairs (ws.erase id) := by
  rw [pairs, FinMap.total_of_get h]
  simp [pair, ht, Except.toOption, pairs]

lemma waiting_congr (hw : cm'.waitingmsgs = cm.waitingmsgs)
    (hk : ∀ r, (cm'.heap r).k = (cm.heap r).k) :
    cm'.admission.waiting = cm.admission.waiting := by
  change cm'.pairs cm'.waitingmsgs = cm.pairs cm.waitingmsgs
  rw [hw]
  exact pairs_congr fun _ _ _ _ => takeKv_congr fun _ _ _ r _ => hk r

lemma FlagsOnly.waiting (h : FlagsOnly cm cm') :
    cm'.admission.waiting = cm.admission.waiting :=
  waiting_congr h.waitingmsgs h.key

lemma FlagsOnly.mem_held (h : FlagsOnly cm cm') :
    k ∈ cm'.admission.held ↔ ∃ r, cm.keysStates.get k = some r ∧ cm'.isUsing r = true := by
  simp only [admission, Using, Set.mem_ofPred_eq, h.keysStates]

lemma held_setInUse (hw : Wf cm) (h : cm.keysStates.get k = some r) :
    k' ∈ (cm.setInUse r b).admission.held ↔
      if k' = k then b = true else k' ∈ cm.admission.held := by
  rw [FlagsOnly.refl.setInUse.mem_held, FlagsOnly.refl.mem_held]
  simp only [isUsing, setInUse_inUse]
  split_ifs with hk
  · subst hk
    simp [h]
  · refine exists_congr fun r' => and_congr_right fun hr' => ?_
    have : r' ≠ r := by
      rintro rfl
      exact hk (hw.attached_inj hr' h)
    rw [if_neg this]

end PaQueueAndChan.KeyChannel.KvMpscMultik.ConflictManager
