import PaQueueAndChan.KeyChannel.KvMpscMultik.Coherence
import PaQueueAndChan.Library.Admission

/-! One key taken out of the drop queue. Where it does not panic, it is a release of the admission
machine; where it does, either a message with a repeated key is handed over or the table of the
released key still names a message that no longer waits. -/

namespace PaQueueAndChan.KeyChannel.KvMpscMultik.ConflictManager

open Library

variable {K V : Type} [LinearOrder K] {cm cm' : ConflictManager K V} {k k' : K} {r self : StateRef}
  {id : WaitingMsgId} {a : MsgRef} {w : WaitingMsg V} {rs : List StateRef} {v : V} {e : Panic}
  {order : IterOrder (WaitingMsgId × MsgRef)} {es : List (WaitingMsgId × MsgRef)}
  {o : Option (List K × V)}

lemma search_eq_none (h : cm.search es = .ok none) {x : WaitingMsgId × MsgRef} (hx : x ∈ es) :
    ∃ w rs v, cm.upgrade x.2 = some w ∧ w.ksV = some (rs, v) ∧ ∃ r ∈ rs, cm.isUsing r = true := by
  induction es with
  | nil => cases hx
  | cons y es ih =>
    obtain ⟨id, weak⟩ := y
    unfold search at h
    split at h
    · cases h
    · rename_i w hw
      split at h
      · cases h
      · rename_i rs v hrs
        split_ifs at h with hu
        · rcases List.mem_cons.mp hx with rfl | hx
          · exact ⟨w, rs, v, hw, hrs, List.any_eq_true.mp hu⟩
          · exact ih h hx
        · cases h

lemma search_eq_some (h : cm.search es = .ok (some (id, rs))) :
    ∃ a w v, (id, a) ∈ es ∧ cm.upgrade a = some w ∧ w.ksV = some (rs, v) ∧
      ∀ r ∈ rs, cm.isUsing r = false := by
  induction es with
  | nil => simp [search] at h
  | cons y es ih =>
    obtain ⟨id', weak⟩ := y
    unfold search at h
    split at h
    · cases h
    · rename_i w hw
      split at h
      · cases h
      · rename_i rs' v hrs
        split_ifs at h with hu
        · obtain ⟨a, w, v, ha, hrest⟩ := ih h
          exact ⟨a, w, v, List.mem_cons_of_mem _ ha, hrest⟩
        · obtain ⟨rfl, rfl⟩ := Prod.mk.inj (Option.some.inj (Except.ok.inj h))
          refine ⟨weak, w, v, List.mem_cons_self .., hw, hrs, fun r hr => ?_⟩
          exact Bool.eq_false_iff.mpr fun hru => hu (List.any_eq_true.mpr ⟨r, hr, hru⟩)

lemma search_eq_error (h : cm.search es = .error e) :
    e = .deadWeak ∧ (∃ x ∈ es, cm.upgrade x.2 = none) ∨
      ∃ x ∈ es, ∃ w, cm.upgrade x.2 = some w ∧ w.ksV = none := by
  induction es with
  | nil => simp [search] at h
  | cons y es ih =>
    obtain ⟨id, weak⟩ := y
    unfold search at h
    split at h
    · rename_i hw
      exact Or.inl ⟨(Except.error.inj h).symm, _, List.mem_cons_self .., hw⟩
    · rename_i w hw
      split at h
      · rename_i hrs
        exact Or.inr ⟨_, List.mem_cons_self .., w, hw, hrs⟩
      · split_ifs at h
        rcases ih h with ⟨he, x, hx, hd⟩ | ⟨x, hx, hrest⟩
        · exact Or.inl ⟨he, x, List.mem_cons_of_mem _ hx, hd⟩
        · exact Or.inr ⟨x, List.mem_cons_of_mem _ hx, hrest⟩

lemma trySetUses_ok (h : rs.foldlM (trySetUse self) cm = .ok cm') :
    FlagsOnly cm cm' ∧
      ∀ r, cm'.isUsing r = true ↔ cm.isUsing r = true ∨ r ∈ rs ∧ r ≠ self := by
  suffices hgen : ∀ cm₀, FlagsOnly cm₀ cm → FlagsOnly cm₀ cm' ∧
      ∀ r, cm'.isUsing r = true ↔ cm.isUsing r = true ∨ r ∈ rs ∧ r ≠ self from hgen cm .refl
  induction rs generalizing cm with
  | nil =>
    obtain rfl := pure_eq_ok.mp h
    exact fun cm₀ hf => ⟨hf, by simp⟩
  | cons r₀ rs ih =>
    rw [List.foldlM_cons, bind_eq_ok] at h
    obtain ⟨cm₁, h₁, h⟩ := h
    intro cm₀ hf
    unfold trySetUse at h₁
    split_ifs at h₁ with hself hu
    · obtain rfl := Except.ok.inj h₁
      obtain ⟨hf', hu'⟩ := ih h cm₀ hf
      subst hself
      refine ⟨hf', fun r => (hu' r).trans ?_⟩
      by_cases hr : r = r₀ <;> simp [hr]
    · obtain rfl := Except.ok.inj h₁
      obtain ⟨hf', hu'⟩ := ih h cm₀ hf.setInUse
      refine ⟨hf', fun r => (hu' r).trans ?_⟩
      by_cases hr : r = r₀ <;> simp [isUsing, setInUse_inUse, hr, hself]

lemma trySetUses_error (hn : rs.Nodup) (hu : ∀ r ∈ rs, cm.isUsing r = false) :
    rs.foldlM (trySetUse self) cm ≠ .error e := by
  refine foldlM_ne_error (I := fun cm rs => rs.Nodup ∧ ∀ r ∈ rs, cm.isUsing r = false)
    (fun cm r rs ⟨hn, hu⟩ => ?_) ⟨hn, hu⟩
  obtain ⟨hr, hn⟩ := List.nodup_cons.mp hn
  unfold trySetUse
  split_ifs with hself hru
  · exact ⟨cm, rfl, hn, fun r' hr' => hu r' (List.mem_cons_of_mem r hr')⟩
  · simp [hu r (List.mem_cons_self ..)] at hru
  · refine ⟨_, rfl, hn, fun r' hr' => ?_⟩
    have hne : r' ≠ r := by
      rintro rfl
      exact hr hr'
    simpa [isUsing, setInUse_inUse, hne] using hu r' (List.mem_cons_of_mem r hr')

lemma tryGetStopWaitingMsg_none (h : cm.tryGetStopWaitingMsg order self = .ok (none, cm')) :
    cm' = cm ∧ ∀ id a, (cm.heap self).waitingmsgs.get id = some a →
      ∃ w rs v, cm.upgrade a = some w ∧ w.ksV = some (rs, v) ∧ ∃ r ∈ rs, cm.isUsing r = true := by
  simp only [tryGetStopWaitingMsg, bind_eq_ok] at h
  obtain ⟨found, hs, h⟩ := h
  cases found with
  | some x =>
    simp only [bind_eq_ok, pure_eq_ok, Prod.mk.injEq, reduceCtorEq, false_and, and_false,
      exists_false] at h
  | none =>
    obtain rfl := (Prod.mk.inj (pure_eq_ok.mp h)).2
    refine ⟨rfl, fun id a ha => ?_⟩
    exact search_eq_none hs (x := (id, a)) (by simpa using FinMap.get_eq_some.mp ha)

lemma tryGetStopWaitingMsg_some (h : cm.tryGetStopWaitingMsg order self = .ok (some id, cm')) :
    ∃ a w rs v cm₁, (cm.heap self).waitingmsgs.get id = some a ∧ cm.upgrade a = some w ∧
      w.ksV = some (rs, v) ∧ (∀ r ∈ rs, cm.isUsing r = false) ∧ FlagsOnly cm cm₁ ∧
      (∀ r, cm₁.isUsing r = true ↔ cm.isUsing r = true ∨ r ∈ rs ∨ r = self) ∧
      cm' = cm₁.setWaitingmsgs self ((cm.heap self).waitingmsgs.erase id) := by
  simp only [tryGetStopWaitingMsg, bind_eq_ok] at h
  obtain ⟨found, hs, h⟩ := h
  cases found with
  | none => simp at h
  | some x =>
    obtain ⟨id', rs⟩ := x
    simp only [bind_eq_ok, pure_eq_ok, Prod.mk.injEq, Option.some.injEq] at h
    obtain ⟨cm₁, h₁, cm₂, h₂, cm₃, h₃, rfl, rfl⟩ := h
    obtain ⟨a, w, v, ha, hup, hrs, hfree⟩ := search_eq_some hs
    obtain ⟨hf, hu⟩ := trySetUses_ok h₁
    unfold setUse at h₂
    split_ifs at h₂
    obtain rfl := Except.ok.inj h₂
    unfold removeWaitingmsg at h₃
    split_ifs at h₃
    obtain rfl := Except.ok.inj h₃
    refine ⟨a, w, rs, v, _, FinMap.get_eq_some.mpr (by simpa using ha), hup, hrs, hfree,
      hf.setInUse (r := self) (b := true), fun r => ?_, by rw [setInUse_table, hf.table]⟩
    by_cases hr : r = self
    · simp [isUsing, setInUse_inUse, hr]
    · simp only [isUsing, setInUse_inUse, hr, if_false, or_false]
      simpa [isUsing, hr] using hu r

lemma tryGetStopWaitingMsg_found (hu : cm.isUsing self = false)
    (hs : cm.search (order.order (cm.heap self).waitingmsgs.entries) = .ok (some (id, rs)))
    (hn : rs.Nodup) : ∃ cm', cm.tryGetStopWaitingMsg order self = .ok (some id, cm') := by
  obtain ⟨a, w, v, ha, -, -, hfree⟩ := search_eq_some hs
  have ha : (cm.heap self).waitingmsgs.get id = some a :=
    FinMap.get_eq_some.mpr (by simpa using ha)
  cases h₁ : rs.foldlM (trySetUse self) cm with
  | error e => exact (trySetUses_error hn hfree h₁).elim
  | ok cm₁ =>
    obtain ⟨hf, hu₁⟩ := trySetUses_ok h₁
    have hself : cm₁.isUsing self = false := by
      rw [Bool.eq_false_iff, ne_eq, hu₁]
      simp [hu]
    have hc : ((cm₁.setInUse self true).heap self).waitingmsgs.contains id = true :=
      FinMap.contains_iff.mpr ⟨a, by rw [setInUse_table, hf.table, ha]⟩
    have h₂ : cm₁.setUse self = .ok (cm₁.setInUse self true) := by simp [setUse, hself]
    obtain ⟨cm₃, h₃⟩ : ∃ cm₃, (cm₁.setInUse self true).removeWaitingmsg self id = .ok cm₃ :=
      ⟨_, if_pos hc⟩
    refine ⟨cm₃, bind_eq_ok.mpr ⟨some (id, rs), hs, ?_⟩⟩
    simp only [h₁, h₂, h₃, bind, Except.bind]
    rfl

lemma tryGetStopWaitingMsg_error (hw : Wf cm) (hu : cm.isUsing self = false)
    (h : cm.tryGetStopWaitingMsg order self = .error e) :
    e = .deadWeak ∧ (∃ id a, (cm.heap self).waitingmsgs.get id = some a ∧ cm.upgrade a = none) ∨
      ∃ id a w rs v, cm.waitingmsgs.get id = some (a, w) ∧ w.ksV = some (rs, v) ∧ ¬ rs.Nodup := by
  cases hs : cm.search (order.order (cm.heap self).waitingmsgs.entries) with
  | error e' =>
    obtain rfl : e' = e := by simpa [tryGetStopWaitingMsg, hs, bind_eq_error] using h
    rcases search_eq_error hs with ⟨he, ⟨id, a⟩, hx, hd⟩ | ⟨⟨id, a⟩, hx, w, hup, hnone⟩
    · exact Or.inl ⟨he, id, a, FinMap.get_eq_some.mpr (by simpa using hx), hd⟩
    · obtain ⟨id', hid'⟩ := (upgrade_eq_some hw).mp hup
      obtain ⟨-, rs, v, rfl, -⟩ := hw.msg_ok hid'
      cases hnone
  | ok found =>
    cases found with
    | none => simp [tryGetStopWaitingMsg, hs, bind_eq_error] at h
    | some x =>
      obtain ⟨id, rs⟩ := x
      obtain ⟨a, w, v, -, hup, hrs, -⟩ := search_eq_some hs
      obtain ⟨id', hid'⟩ := (upgrade_eq_some hw).mp hup
      by_cases hn : rs.Nodup
      · obtain ⟨cm', hok⟩ := tryGetStopWaitingMsg_found hu hs hn
        rw [h] at hok
        cases hok
      · exact Or.inr ⟨id', a, w, rs, v, hid', hrs, hn⟩

/-- `id` leaves the map and the table of one key state; other tables may keep its address. -/
lemma Wf.handOver (hw : Wf cm) :
    Wf { cm.setWaitingmsgs r ((cm.heap r).waitingmsgs.erase id) with
      waitingmsgs := cm.waitingmsgs.erase id } := by
  have htab : ∀ {r' id' a}, ((cm.setWaitingmsgs r ((cm.heap r).waitingmsgs.erase id)).heap
      r').waitingmsgs.get id' = some a → (cm.heap r').waitingmsgs.get id' = some a := by
    intro r' id' a h
    rw [setWaitingmsgs_table] at h
    split_ifs at h with hr
    · exact hr ▸ (FinMap.get_erase_eq_some.mp h).2
    · exact h
  constructor
  · intro k' r' h
    simpa using hw.key_of h
  · intro id' a w h
    obtain ⟨hne, h⟩ := FinMap.get_erase_eq_some.mp h
    obtain ⟨ha, rs, v, rfl, hrs⟩ := hw.msg_ok h
    refine ⟨ha, rs, v, rfl, fun r' hr' => ⟨(hrs r' hr').1, ?_⟩⟩
    change ((cm.setWaitingmsgs _ _).heap r').waitingmsgs.get id' = some a
    rw [setWaitingmsgs_table]
    split_ifs with hr
    · subst hr
      exact FinMap.get_erase_eq_some.mpr ⟨hne, (hrs r' hr').2⟩
    · exact (hrs r' hr').2
  · intro id₁ id₂ a w w' h h'
    exact hw.addr_inj (FinMap.get_erase_eq_some.mp h).2 (FinMap.get_erase_eq_some.mp h').2
  · intro k' r' id' a hk h
    exact hw.table_lt hk (htab h)
  · intro k' r' id' a id'' w hk h h'
    exact hw.table_ok hk (htab h) (FinMap.get_erase_eq_some.mp h').2

lemma Wf.forget (hw : Wf cm) (hk : cm.keysStates.get k = some r)
    (he : (cm.heap r).waitingmsgs.isEmpty = true) :
    Wf { cm with keysStates := cm.keysStates.erase k } := by
  have hold : ∀ {k' r'}, (cm.keysStates.erase k).get k' = some r' →
      cm.keysStates.get k' = some r' := fun h => (FinMap.get_erase_eq_some.mp h).2
  constructor
  · intro k' r' h
    exact hw.key_of (hold h)
  · intro id a w h
    obtain ⟨ha, rs, v, rfl, hrs⟩ := hw.msg_ok h
    refine ⟨ha, rs, v, rfl, fun r' hr' => ⟨?_, (hrs r' hr').2⟩⟩
    obtain ⟨⟨k', hk'⟩, ht⟩ := hrs r' hr'
    refine ⟨k', FinMap.get_erase_eq_some.mpr ⟨?_, hk'⟩⟩
    rintro rfl
    obtain rfl := Option.some.inj (hk.symm.trans hk')
    simp [FinMap.isEmpty_iff.mp he] at ht
  · exact hw.addr_inj
  · intro k' r' id a h
    exact hw.table_lt (hold h)
  · intro k' r' id a id' w h
    exact hw.table_ok (hold h)

/-- The ways in which the body of the loop ends: the key state stays with messages that wait for
other keys too, or goes, or one of its messages takes all its keys. -/
inductive Released (cm : ConflictManager K V) (k : K) :
    Option (List K × V) → ConflictManager K V → Prop
  | kept {self : StateRef} (hk : cm.keysStates.get k = some self) (hu : cm.isUsing self = true)
      (hall : ∀ id a, (cm.heap self).waitingmsgs.get id = some a → ∃ w rs v,
        cm.upgrade a = some w ∧ w.ksV = some (rs, v) ∧
          ∃ r ∈ rs, (cm.setInUse self false).isUsing r = true) :
      Released cm k none (cm.setInUse self false)
  | forgotten {self : StateRef} (hk : cm.keysStates.get k = some self)
      (hu : cm.isUsing self = true) (he : (cm.heap self).waitingmsgs.isEmpty = true) :
      Released cm k none
        { cm.setInUse self false with keysStates := cm.keysStates.erase k }
  | handedOver {self : StateRef} {id : WaitingMsgId} {a : MsgRef} {rs : List StateRef} {v : V}
      {m : List K × V} {cm₁ : ConflictManager K V} (hk : cm.keysStates.get k = some self)
      (hu : cm.isUsing self = true) (ha : (cm.heap self).waitingmsgs.get id = some a)
      (hid : cm.waitingmsgs.get id = some (a, ⟨some (rs, v), id⟩))
      (htake : cm.takeKv ⟨some (rs, v), id⟩ = .ok m) (hself : self ∈ rs)
      (hfree : ∀ r ∈ rs, (cm.setInUse self false).isUsing r = false) (hf : FlagsOnly cm cm₁)
      (hset : ∀ r, cm₁.isUsing r = true ↔
        (cm.setInUse self false).isUsing r = true ∨ r ∈ rs) :
      Released cm k (some m)
        { cm₁.setWaitingmsgs self ((cm₁.heap self).waitingmsgs.erase id) with
          waitingmsgs := cm₁.waitingmsgs.erase id }

lemma FlagsOnly.trans {cm₁ : ConflictManager K V} (h : FlagsOnly cm cm₁) (h' : FlagsOnly cm₁ cm') :
    FlagsOnly cm cm' :=
  ⟨h'.nextState.trans h.nextState, h'.nextMsg.trans h.nextMsg, h'.waitingmsgs.trans h.waitingmsgs,
    h'.keysStates.trans h.keysStates, h'.nextWaitingmsgId.trans h.nextWaitingmsgId,
    fun r => (h'.key r).trans (h.key r), fun r => (h'.table r).trans (h.table r)⟩

lemma unuseDropedKey_released (hw : Wf cm) (h : cm.unuseDropedKey order k = .ok (o, cm')) :
    Released cm k o cm' := by
  unfold unuseDropedKey at h
  cases hk : cm.keysStates.get k with
  | none => simp [hk] at h
  | some self =>
    simp only [hk, bind_eq_ok] at h
    obtain ⟨cm₀, h₀, ⟨found, cm₂⟩, h₂, h⟩ := h
    unfold setUnuse at h₀
    split_ifs at h₀ with hu
    obtain rfl := Except.ok.inj h₀
    have hw₀ : Wf (cm.setInUse self false) := FlagsOnly.refl.setInUse.wf hw
    cases found with
    | none =>
      obtain ⟨rfl, hall⟩ := tryGetStopWaitingMsg_none h₂
      simp only [setInUse_table] at hall h
      split_ifs at h with he
      · obtain ⟨rfl, rfl⟩ := Prod.mk.inj (pure_eq_ok.mp h)
        exact .forgotten hk hu he
      · obtain ⟨rfl, rfl⟩ := Prod.mk.inj (pure_eq_ok.mp h)
        exact .kept hk hu hall
    | some id =>
      obtain ⟨a, w, rs, v, cm₁, ha, hup, hrs, hfree, hf, hset, rfl⟩ := tryGetStopWaitingMsg_some h₂
      obtain ⟨id', hid⟩ := (upgrade_eq_some hw₀).mp hup
      obtain ⟨rfl, rs', v', hrs', hself⟩ := hw₀.table_ok hk ha hid
      have hid : cm.waitingmsgs.get id' = some (a, w) := hid
      obtain ⟨rs₁, v₁, m, rfl, htake, -⟩ := hw.waits hid
      obtain ⟨rfl, rfl⟩ := Prod.mk.inj (Option.some.inj hrs)
      obtain ⟨rfl, rfl⟩ := Prod.mk.inj (Option.some.inj hrs')
      have hf₁ : FlagsOnly cm cm₁ := FlagsOnly.refl.setInUse.trans hf
      simp only [setWaitingmsgs_waitingmsgs, hf₁.waitingmsgs, hid, bind_eq_ok, pure_eq_ok] at h
      obtain ⟨m', hm', h⟩ := h
      obtain ⟨rfl, rfl⟩ := Prod.mk.inj h
      rw [takeKv_congr fun _ _ _ r _ => setWaitingmsgs_k.trans (hf₁.key r), htake] at hm'
      obtain rfl := Except.ok.inj hm'
      rw [← hf.table self, ← hf₁.waitingmsgs]
      refine .handedOver hk hu (by simpa using ha) hid htake hself hfree hf₁ fun r => ?_
      rw [hset r]
      constructor
      · rintro (h | h | rfl)
        · exact Or.inl h
        · exact Or.inr h
        · exact Or.inr hself
      · rintro (h | h)
        · exact Or.inl h
        · exact Or.inr (Or.inl h)

lemma held_unuse (hw : Wf cm) (hk : cm.keysStates.get k = some self) :
    (cm.setInUse self false).admission.held = cm.admission.held \ {k} := by
  ext k'
  rw [held_setInUse hw hk, Set.mem_sdiff, Set.mem_singleton_iff]
  by_cases hk' : k' = k <;> simp [hk']

lemma clash_of_blocked (hw : Wf cm) (hk : cm.keysStates.get k = some self)
    (hall : ∀ id a, (cm.heap self).waitingmsgs.get id = some a → ∃ w rs v,
      cm.upgrade a = some w ∧ w.ksV = some (rs, v) ∧
        ∃ r ∈ rs, (cm.setInUse self false).isUsing r = true) :
    ∀ m ∈ cm.admission.waiting, k ∈ m.1 →
      Admission.Clash Prod.fst (cm.admission.held \ {k}) m := by
  intro m hm hkm
  obtain ⟨id, a, w, hid, htake⟩ := mem_waiting.mp hm
  obtain ⟨rs, v, m', rfl, htake', hmem, hrs⟩ := hw.waits hid
  obtain rfl := Except.ok.inj (htake.symm.trans htake')
  obtain ⟨r', hr', hkr'⟩ := (hmem k).mp hkm
  obtain rfl := Option.some.inj (hk.symm.trans hkr')
  obtain ⟨w', rs', v', hup, hrs', r₂, hr₂, hur₂⟩ := hall id a (hrs _ hr').2
  obtain rfl : _ = w' := Option.some.inj (((upgrade_eq_some hw).mpr ⟨id, hid⟩).symm.trans hup)
  obtain ⟨rfl, rfl⟩ := Prod.mk.inj (Option.some.inj hrs')
  obtain ⟨⟨k₂, hk₂⟩, -⟩ := hrs r₂ hr₂
  refine ⟨k₂, (hmem k₂).mpr ⟨r₂, hr₂, hk₂⟩, ?_⟩
  rw [← held_unuse hw hk]
  exact ⟨r₂, hk₂, hur₂⟩

lemma Released.wf (h : Released cm k o cm') (hw : Wf cm) : Wf cm' := by
  cases h with
  | kept hk hu hall => exact FlagsOnly.refl.setInUse.wf hw
  | forgotten hk hu he => exact (FlagsOnly.refl.setInUse.wf hw).forget hk (by simpa using he)
  | handedOver hk hu ha hid htake hself hfree hf hset => exact (hf.wf hw).handOver

inductive ReleasedAll : ConflictManager K V → List K → Option (List K × V) →
    ConflictManager K V → Prop
  | done {cm : ConflictManager K V} : ReleasedAll cm [] none cm
  | found {cm cm' : ConflictManager K V} {k : K} {m : List K × V}
      (h : Released cm k (some m) cm') : ReleasedAll cm [k] (some m) cm'
  | next {cm cm₁ cm' : ConflictManager K V} {k : K} {ks : List K} {o : Option (List K × V)}
      (h : Released cm k none cm₁) (hs : ReleasedAll cm₁ ks o cm') : ReleasedAll cm (k :: ks) o cm'

lemma unuseAllDropedKey_released {order : ℕ → IterOrder (WaitingMsgId × MsgRef)}
    {dropq rest : List K} (hw : Wf cm)
    (h : cm.unuseAllDropedKey order dropq = .ok (o, cm', rest)) :
    ∃ popped, dropq = popped ++ rest ∧ ReleasedAll cm popped o cm' := by
  induction dropq generalizing cm with
  | nil =>
    obtain ⟨rfl, rfl, rfl⟩ := by simpa [unuseAllDropedKey] using h
    exact ⟨[], rfl, .done⟩
  | cons k dropq ih =>
    simp only [unuseAllDropedKey, bind_eq_ok] at h
    obtain ⟨⟨found, cm₁⟩, h₁, h⟩ := h
    have hrel := unuseDropedKey_released hw h₁
    cases found with
    | some ksV =>
      obtain ⟨rfl, rfl, rfl⟩ := by simpa using h
      exact ⟨[k], rfl, .found hrel⟩
    | none =>
      obtain ⟨popped, rfl, hrest⟩ := ih (hrel.wf hw) h
      exact ⟨k :: popped, rfl, .next hrel hrest⟩

lemma Released.release (h : Released cm k o cm') (hw : Wf cm) :
    Admission.Release Prod.fst cm.admission k o cm'.admission := by
  cases h with
  | @kept self hk hu hall =>
    exact .of_free ⟨self, hk, hu⟩ (clash_of_blocked hw hk hall) (held_unuse hw hk)
      FlagsOnly.refl.setInUse.waiting
  | @forgotten self hk hu he =>
    have hall := clash_of_blocked hw hk fun id a ha => by simp [FinMap.isEmpty_iff.mp he] at ha
    refine .of_free ⟨self, hk, hu⟩ hall ?_ (waiting_congr rfl fun _ => setInUse_k)
    rw [← held_unuse hw hk]
    ext k'
    simp only [admission, Using, Set.mem_ofPred_eq, FinMap.get_erase_eq_some]
    refine exists_congr fun r => ⟨fun hr => ⟨hr.1.2, hr.2⟩, fun hr => ⟨⟨?_, hr.1⟩, hr.2⟩⟩
    rintro rfl
    obtain rfl := Option.some.inj (hk.symm.trans hr.1)
    simp [isUsing, setInUse_inUse] at hr
  | @handedOver self id a rs v m cm₁ hk hu ha hid htake hself hfree hf hset =>
    obtain ⟨rs', v', m', he, htake', hmem, -⟩ := hw.waits hid
    obtain ⟨rfl, rfl⟩ := Prod.mk.inj (Option.some.inj (WaitingMsg.mk.inj he).1)
    obtain rfl := Except.ok.inj (htake.symm.trans htake')
    refine .of_pass ⟨self, hk, hu⟩ ((hmem k).mpr ⟨self, hself, hk⟩) ?_ ?_ ?_
    · rintro ⟨k', hk', hheld⟩
      obtain ⟨r, hr, hkr⟩ := (hmem k').mp hk'
      rw [← held_unuse hw hk] at hheld
      obtain ⟨r', hkr', hur'⟩ := hheld
      obtain rfl := Option.some.inj (hkr.symm.trans hkr')
      exact Bool.eq_false_iff.mp (hfree _ hr) hur'
    · ext k'
      rw [← held_unuse hw hk, Set.mem_union, Set.mem_ofPred_eq, hmem]
      simp only [admission, Using, Set.mem_ofPred_eq, setWaitingmsgs_keysStates, hf.keysStates]
      simp only [isUsing, setWaitingmsgs_inUse]
      constructor
      · rintro ⟨r, hkr, hur⟩
        rcases (hset r).mp hur with h | h
        · exact Or.inl ⟨r, hkr, h⟩
        · exact Or.inr ⟨r, h, hkr⟩
      · rintro (⟨r, hkr, h⟩ | ⟨r, hr, hkr⟩)
        · exact ⟨r, hkr, (hset r).mpr (Or.inl h)⟩
        · exact ⟨r, hkr, (hset r).mpr (Or.inr hr)⟩
    · change cm.pairs cm.waitingmsgs = m ::ₘ _
      rw [pairs_of_get hid htake]
      refine congrArg (m ::ₘ ·) ?_
      change cm.pairs (cm.waitingmsgs.erase id) = ConflictManager.pairs _ (cm₁.waitingmsgs.erase id)
      rw [hf.waitingmsgs]
      exact (pairs_congr fun _ _ _ _ => takeKv_congr fun _ _ _ r _ =>
        setWaitingmsgs_k.trans (hf.key r)).symm

lemma unuseDropedKey_error (hw : Wf cm) (hheld : k ∈ cm.admission.held)
    (h : cm.unuseDropedKey order k = .error e) :
    e = .deadWeak ∧ (∃ r id a, cm.keysStates.get k = some r ∧
      (cm.heap r).waitingmsgs.get id = some a ∧ cm.upgrade a = none) ∨
    ∃ m ∈ cm.admission.waiting, ¬ m.1.Nodup := by
  obtain ⟨self, hk, hu⟩ := hheld
  have hw₀ : Wf (cm.setInUse self false) := FlagsOnly.refl.setInUse.wf hw
  simp only [unuseDropedKey, hk, setUnuse, hu, if_true, bind_eq_error, reduceCtorEq, false_or,
    Except.ok.injEq, exists_eq_left'] at h
  rcases h with h | ⟨⟨found, cm₂⟩, h₂, h⟩
  · have hu₀ : (cm.setInUse self false).isUsing self = false := by simp [isUsing, setInUse_inUse]
    rcases tryGetStopWaitingMsg_error hw₀ hu₀ h with
      ⟨he, id, a, ha, hd⟩ | ⟨id, a, w, rs, v, hid, hrs, hn⟩
    · exact Or.inl ⟨he, self, id, a, hk, by simpa using ha, hd⟩
    · have hid : cm.waitingmsgs.get id = some (a, w) := hid
      obtain ⟨rs', v', m, rfl, htake, -⟩ := hw.waits hid
      obtain ⟨rfl, rfl⟩ := Prod.mk.inj (Option.some.inj hrs)
      exact Or.inr ⟨m, mem_waiting.mpr ⟨id, a, _, hid, htake⟩,
        fun hm => hn (nodup_of_takeKv htake hm)⟩
  · cases found with
    | none =>
      dsimp only at h
      split_ifs at h <;> simp at h
    | some id =>
      obtain ⟨a, w, rs, v, cm₁, ha, hup, hrs, -, hf, -, rfl⟩ := tryGetStopWaitingMsg_some h₂
      obtain ⟨id', hid'⟩ := (upgrade_eq_some hw₀).mp hup
      obtain ⟨rfl, -⟩ := hw₀.table_ok hk ha hid'
      have hid : cm.waitingmsgs.get id' = some (a, w) := hid'
      obtain ⟨rs', v', m, rfl, htake, -⟩ := hw.waits hid
      have hwm : cm₁.waitingmsgs = cm.waitingmsgs := hf.waitingmsgs
      simp only [setWaitingmsgs_waitingmsgs, hwm, hid, bind_eq_error, pure_ne_error, and_false,
        exists_false, or_false] at h
      rw [takeKv_congr fun _ _ _ r _ => setWaitingmsgs_k.trans ((hf.key r).trans setInUse_k),
        htake] at h
      cases h

end PaQueueAndChan.KeyChannel.KvMpscMultik.ConflictManager
