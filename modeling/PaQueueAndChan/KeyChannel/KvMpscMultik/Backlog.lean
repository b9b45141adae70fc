import PaQueueAndChan.KeyChannel.KvMpscMultik.Arrival
import PaQueueAndChan.KeyChannel.KvMpscMultik.Release
import PaQueueAndChan.Library.Lines

/-! The waiting messages in the order in which they were set aside. Addresses grow with each of
them, whatever the ids do, so this is the order of the addresses. -/

namespace PaQueueAndChan.KeyChannel.KvMpscMultik.ConflictManager

open Library

variable {K V : Type} [LinearOrder K] {cm cm' : ConflictManager K V} {k : K} {a : MsgRef}
  {m : List K × V} {ks : List K} {v : V} {o : Option (List K × V)}
  {succ : WaitingMsgId → Option WaitingMsgId}

def byAddress (cm : ConflictManager K V) : FinMap MsgRef (List K × V) :=
  .ofList (cm.waitingmsgs.entries.filterMap fun e => (cm.pair e.2.2).map fun m => (e.2.1, m))

def backlog (cm : ConflictManager K V) : List (List K × V) := cm.byAddress.entries.map Prod.snd

lemma pair_eq_some {w : WaitingMsg V} : cm.pair w = some m ↔ cm.takeKv w = .ok m := by
  cases h : cm.takeKv w <;> simp [pair, h, Except.toOption]

lemma byAddress_get (hw : Wf cm) : cm.byAddress.get a = some m ↔
    ∃ id w, cm.waitingmsgs.get id = some (a, w) ∧ cm.takeKv w = .ok m := by
  have hdistinct : (cm.waitingmsgs.entries.filterMap fun e =>
      (cm.pair e.2.2).map fun m => (e.2.1, m)).Pairwise fun x y => x.1 ≠ y.1 := by
    apply List.pairwise_filterMap.mpr
    apply cm.waitingmsgs.sorted.imp_of_mem
    rintro ⟨id, a, w⟩ ⟨id', a', w'⟩ hmem hmem' hlt x hx x' hx' he
    obtain ⟨m, -, rfl⟩ := Option.map_eq_some_iff.mp hx
    obtain ⟨m', -, rfl⟩ := Option.map_eq_some_iff.mp hx'
    obtain rfl : a = a' := he
    have := hw.addr_inj (FinMap.get_eq_some.mpr hmem) (FinMap.get_eq_some.mpr hmem')
    exact hlt.ne this
  rw [byAddress, FinMap.get_ofList hdistinct, List.mem_filterMap]
  constructor
  · rintro ⟨⟨id, a', w⟩, hmem, he⟩
    obtain ⟨m', hp, he⟩ := Option.map_eq_some_iff.mp he
    obtain ⟨rfl, rfl⟩ := Prod.mk.inj he
    exact ⟨id, w, FinMap.get_eq_some.mpr hmem, pair_eq_some.mp hp⟩
  · rintro ⟨id, w, hid, htake⟩
    exact ⟨(id, a, w), FinMap.get_eq_some.mp hid, by simp [pair_eq_some.mpr htake]⟩

lemma mem_backlog (hw : Wf cm) : m ∈ cm.backlog ↔ m ∈ cm.admission.waiting := by
  simp only [backlog, List.mem_map, Prod.exists, exists_eq_right, ← FinMap.get_eq_some,
    byAddress_get hw, mem_waiting]
  constructor
  · rintro ⟨a, id, w, h⟩
    exact ⟨id, a, w, h⟩
  · rintro ⟨id, a, w, h⟩
    exact ⟨a, id, w, h⟩

lemma key_kept (hw : Wf cm) (hw' : Wf cm')
    (hatt : ∀ k r, cm.keysStates.get k = some r → cm'.keysStates.get k = some r) {r : StateRef}
    (h : ∃ k, cm.keysStates.get k = some r) : (cm'.heap r).k = (cm.heap r).k := by
  obtain ⟨k, hk⟩ := h
  rw [(hw.key_of hk).2, (hw'.key_of (hatt k r hk)).2]

lemma Wf.takeKv_kept (hw : Wf cm)
    (hkey : ∀ r, (∃ k, cm.keysStates.get k = some r) → (cm'.heap r).k = (cm.heap r).k)
    {id : WaitingMsgId} {w : WaitingMsg V} (hid : cm.waitingmsgs.get id = some (a, w)) :
    cm'.takeKv w = cm.takeKv w := by
  obtain ⟨rs, v, _, rfl, -, -, hrs⟩ := hw.waits hid
  apply takeKv_congr
  intro rs' v' he r hr
  obtain ⟨rfl, rfl⟩ := Prod.mk.inj (Option.some.inj he)
  exact hkey r (hrs r hr).1

lemma byAddress_congr (hw : Wf cm) (hw' : Wf cm') (hwm : cm'.waitingmsgs = cm.waitingmsgs)
    (hkey : ∀ r, (∃ k, cm.keysStates.get k = some r) → (cm'.heap r).k = (cm.heap r).k) :
    cm'.byAddress = cm.byAddress := by
  apply FinMap.ext_get
  intro a
  apply Option.ext
  intro m
  rw [byAddress_get hw, byAddress_get hw', hwm]
  refine exists_congr fun id => exists_congr fun w => and_congr_right fun hid => ?_
  rw [hw.takeKv_kept hkey hid]

lemma byAddress_erase {id : WaitingMsgId} {w : WaitingMsg V} (hw : Wf cm) (hw' : Wf cm')
    (hid : cm.waitingmsgs.get id = some (a, w))
    (hwm : cm'.waitingmsgs = cm.waitingmsgs.erase id)
    (hkey : ∀ r, (∃ k, cm.keysStates.get k = some r) → (cm'.heap r).k = (cm.heap r).k) :
    cm'.byAddress = cm.byAddress.erase a := by
  apply FinMap.ext_get
  intro a'
  apply Option.ext
  intro m
  rw [FinMap.get_erase_eq_some, byAddress_get hw, byAddress_get hw', hwm]
  simp only [FinMap.get_erase_eq_some]
  constructor
  · rintro ⟨id', w', ⟨hne, hid'⟩, htake⟩
    refine ⟨?_, id', w', hid', hw.takeKv_kept hkey hid' ▸ htake⟩
    rintro rfl
    exact hne (hw.addr_inj hid' hid)
  · rintro ⟨hne, id', w', hid', htake⟩
    refine ⟨id', w', ⟨?_, hid'⟩, (hw.takeKv_kept hkey hid').trans htake⟩
    rintro rfl
    rw [hid] at hid'
    exact hne (Prod.mk.inj (Option.some.inj hid')).1.symm

lemma byAddress_lt (hw : Wf cm) {e : MsgRef × List K × V} (he : e ∈ cm.byAddress.entries) :
    e.1 < cm.nextMsg := by
  obtain ⟨id, w, hid, -⟩ := (byAddress_get hw).mp (FinMap.get_eq_some.mpr he)
  exact (hw.msg_ok hid).1

lemma Arrived.backlog (h : Arrived succ cm ks v o cm') (hw : Wf cm) :
    cm'.backlog = cm.backlog ++ if o = none then [(ks, v)] else [] := by
  have hw' := h.wf hw
  cases h with
  | granted hu h =>
    obtain ⟨hwm, -, -, hatt, -⟩ := becomeUsing_frame hw h
    rw [ConflictManager.backlog, byAddress_congr hw hw' hwm fun r => key_kept hw hw' hatt]
    simp [ConflictManager.backlog]
  | @setAside next rs cm₁ hu hnext hat =>
    have hnew : cm₁.takeKv ⟨some (rs, v), cm.nextWaitingmsgId⟩ = .ok (ks, v) :=
      takeKv_of_attached hat.wf hat.states
    have hadd : ConflictManager.byAddress { cm₁ with
        waitingmsgs := cm₁.waitingmsgs.insert cm.nextWaitingmsgId
          (cm.nextMsg, ⟨some (rs, v), cm.nextWaitingmsgId⟩) } =
        cm.byAddress.insert cm.nextMsg (ks, v) := by
      apply FinMap.ext_get
      intro a
      apply Option.ext
      intro m
      have hkey : ∀ r, (∃ k, cm.keysStates.get k = some r) → (cm₁.heap r).k = (cm.heap r).k :=
        fun r => key_kept hw hat.wf hat.attached
      rw [byAddress_get hw', FinMap.get_insert]
      constructor
      · rintro ⟨id', w', hid', htake⟩
        rw [FinMap.get_insert, hat.waitingmsgs] at hid'
        split_ifs at hid'
        · obtain ⟨rfl, rfl⟩ := Prod.mk.inj (Option.some.inj hid')
          rw [if_pos rfl]
          exact congrArg some (Except.ok.inj (hnew.symm.trans htake))
        · have hold : cm.waitingmsgs.get id' = some (a, w') := hid'
          rw [if_neg (hw.msg_ok hold).1.ne, byAddress_get hw]
          exact ⟨id', w', hold, (hw.takeKv_kept hkey hold).symm.trans htake⟩
      · intro h
        split_ifs at h with ha
        · obtain rfl := Option.some.inj h
          refine ⟨cm.nextWaitingmsgId, ⟨some (rs, v), cm.nextWaitingmsgId⟩, ?_, hnew⟩
          rw [ha]
          exact FinMap.get_insert_self
        · obtain ⟨id', w', hold, htake⟩ := (byAddress_get hw).mp h
          refine ⟨id', w', ?_, (hw.takeKv_kept hkey hold).trans htake⟩
          rw [FinMap.get_insert_of_ne, hat.waitingmsgs]
          · exact hold
          · rintro rfl
            have hnone : cm.waitingmsgs.get cm.nextWaitingmsgId = none :=
              hat.waitingmsgs ▸ hat.pending.absent
            rw [hold] at hnone
            cases hnone
    rw [ConflictManager.backlog, hadd, FinMap.entries_insert_of_lt fun e he => byAddress_lt hw he]
    simp [ConflictManager.backlog]

lemma Released.backlog (h : Released cm k o cm') (hw : Wf cm) :
    ∃ l l', cm.backlog = l ++ o.toList ++ l' ∧ cm'.backlog = l ++ l' := by
  have hw' := h.wf hw
  cases h with
  | kept | forgotten =>
    have hsame := byAddress_congr hw hw' rfl fun r _ => setInUse_k
    refine ⟨cm.backlog, [], by simp, ?_⟩
    rw [ConflictManager.backlog, hsame, List.append_nil]
    rfl
  | @handedOver self id a rs v m cm₁ hk hu ha hid htake hself hfree hf hset =>
    have hout := byAddress_erase hw hw' hid (by rw [hf.waitingmsgs])
      fun r _ => setWaitingmsgs_k.trans (hf.key r)
    obtain ⟨l, l', hl, hl'⟩ := FinMap.entries_of_get ((byAddress_get hw).mpr ⟨id, _, hid, htake⟩)
    refine ⟨l.map Prod.snd, l'.map Prod.snd, ?_, ?_⟩
    · simp [ConflictManager.backlog, hl]
    · rw [ConflictManager.backlog, hout, hl', List.map_append]

end PaQueueAndChan.KeyChannel.KvMpscMultik.ConflictManager
