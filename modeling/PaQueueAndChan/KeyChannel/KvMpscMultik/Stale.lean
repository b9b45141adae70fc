import PaQueueAndChan.KeyChannel.KvMpscMultik.Arrival
import PaQueueAndChan.KeyChannel.KvMpscMultik.Release

/-! Addresses of delivered messages that stay in the tables. A message that is handed over leaves
the table of the released key only; in the tables of its other keys it stays for good. -/

namespace PaQueueAndChan.KeyChannel.KvMpscMultik.ConflictManager

open Library

variable {K V : Type} [LinearOrder K] {cm cm' : ConflictManager K V} {k k' : K}
  {id : WaitingMsgId} {a : MsgRef} {ks : List K} {v : V} {o : Option (List K × V)}

/-- The table of `k` holds an address that does not upgrade. -/
def Stale (cm : ConflictManager K V) (k : K) : Prop :=
  ∃ id a, cm.Listed k id a ∧ cm.upgrade a = none

structure Fresh (cm : ConflictManager K V) : Prop where
  waitingmsgs : ∀ ⦃id x⦄, cm.waitingmsgs.get id = some x → id < cm.nextWaitingmsgId
  listed : ∀ ⦃k id a⦄, cm.Listed k id a → id < cm.nextWaitingmsgId

lemma fresh_new : Fresh (new : ConflictManager K V) :=
  ⟨by simp [new], by simp [new, Listed]⟩

lemma not_stale_new : ¬ (new : ConflictManager K V).Stale k := by
  simp [Stale, Listed, new]

lemma stale_iff (hw : Wf cm) : cm.Stale k ↔
    ∃ id a, cm.Listed k id a ∧ ∀ id' w, cm.waitingmsgs.get id' ≠ some (a, w) := by
  refine exists_congr fun id => exists_congr fun a => and_congr_right fun _ => ?_
  rw [Option.eq_none_iff_forall_ne_some]
  constructor
  · exact fun h id' w hid => h w ((upgrade_eq_some hw).mpr ⟨id', hid⟩)
  · rintro h w hup
    obtain ⟨id', hid⟩ := (upgrade_eq_some hw).mp hup
    exact h id' w hid

lemma stale_congr (hw : Wf cm) (hw' : Wf cm') (hwm : cm'.waitingmsgs = cm.waitingmsgs)
    (hl : ∀ id a, cm'.Listed k id a ↔ cm.Listed k id a) : cm'.Stale k ↔ cm.Stale k := by
  simp only [stale_iff hw, stale_iff hw', hwm, hl]

lemma Arrived.fresh (h : Arrived succUnbounded cm ks v o cm') (hw : Wf cm) (hf : Fresh cm) :
    Fresh cm' := by
  cases h with
  | granted hu h =>
    obtain ⟨hwm, hid, -, -, hl⟩ := becomeUsing_frame hw h
    constructor
    · simpa only [hwm, hid] using hf.waitingmsgs
    · simpa only [hl, hid] using hf.listed
  | @setAside next rs cm₁ hu hnext hat =>
    obtain rfl : cm.nextWaitingmsgId + 1 = next := Option.some.inj hnext
    have hid : cm₁.nextWaitingmsgId = cm.nextWaitingmsgId + 1 := hat.nextWaitingmsgId
    constructor
    · intro id x h
      change id < cm₁.nextWaitingmsgId
      rw [hid]
      rw [FinMap.get_insert] at h
      split_ifs at h with he
      · exact he ▸ lt_add_one _
      · rw [hat.waitingmsgs] at h
        exact (hf.waitingmsgs h).trans (lt_add_one _)
    · intro k id a h
      change id < cm₁.nextWaitingmsgId
      rw [hid]
      rcases hat.listed h with h | ⟨rfl, -⟩
      · exact (hf.listed h).trans (lt_add_one _)
      · exact lt_add_one _

lemma Arrived.stale (h : Arrived succUnbounded cm ks v o cm') (hw : Wf cm) (hf : Fresh cm) :
    cm'.Stale k ↔ cm.Stale k := by
  have hw' := h.wf hw
  cases h with
  | granted hu h =>
    obtain ⟨hwm, -, -, -, hl⟩ := becomeUsing_frame hw h
    exact stale_congr hw hw' hwm (hl k)
  | @setAside next rs cm₁ hu hnext hat =>
    rw [stale_iff hw, stale_iff hw']
    constructor
    · rintro ⟨id, a, hl, hdead⟩
      rcases hat.listed hl with hl | ⟨rfl, rfl⟩
      · refine ⟨id, a, hl, fun id' w hid => ?_⟩
        refine hdead id' w ?_
        rw [FinMap.get_insert_of_ne (hf.waitingmsgs hid).ne, hat.waitingmsgs]
        exact hid
      · exact (hdead _ _ FinMap.get_insert_self).elim
    · rintro ⟨id, a, hl, hdead⟩
      refine ⟨id, a, hat.kept (hf.listed hl).ne hl, fun id' w hid => ?_⟩
      rw [FinMap.get_insert] at hid
      split_ifs at hid
      · -- the new address lies above every address in a table
        obtain ⟨r, hr, ht⟩ := hl
        have := hw.table_lt hr ht
        obtain ⟨rfl, -⟩ := Prod.mk.inj (Option.some.inj hid)
        exact absurd this (lt_irrefl _)
      · rw [hat.waitingmsgs] at hid
        exact hdead id' w hid

lemma handOver_listed {self : StateRef} {id id' : WaitingMsgId} {cm₁ : ConflictManager K V}
    (hw : Wf cm) (hk : cm.keysStates.get k = some self) (hf : FlagsOnly cm cm₁) :
    (cm₁.setWaitingmsgs self ((cm₁.heap self).waitingmsgs.erase id)).Listed k' id' a ↔
      cm.Listed k' id' a ∧ (k' = k → id' ≠ id) := by
  have htab : ∀ r, (if r = self then (cm₁.heap self).waitingmsgs.erase id
      else (cm₁.heap r).waitingmsgs).get id' = some a ↔
      (cm.heap r).waitingmsgs.get id' = some a ∧ (r = self → id' ≠ id) := by
    intro r
    rw [hf.table, hf.table]
    split_ifs with hr
    · subst hr
      rw [FinMap.get_erase_eq_some]
      tauto
    · simp [hr]
  simp only [Listed, setWaitingmsgs_keysStates, setWaitingmsgs_table, htab, hf.keysStates]
  constructor
  · rintro ⟨r, hr, ht, hne⟩
    refine ⟨⟨r, hr, ht⟩, ?_⟩
    rintro rfl
    exact hne (Option.some.inj (hr.symm.trans hk))
  · rintro ⟨⟨r, hr, ht⟩, hne⟩
    refine ⟨r, hr, ht, ?_⟩
    rintro rfl
    exact hne (hw.attached_inj hr hk)

lemma handOver_dead {w : WaitingMsg V} {cm₁ : ConflictManager K V} (hw : Wf cm)
    (hid : cm.waitingmsgs.get id = some (a, w)) (hf : FlagsOnly cm cm₁) (a' : MsgRef) :
    (∀ id' w', (cm₁.waitingmsgs.erase id).get id' ≠ some (a', w')) ↔
      (∀ id' w', cm.waitingmsgs.get id' ≠ some (a', w')) ∨ a' = a := by
  simp only [hf.waitingmsgs, ne_eq, FinMap.get_erase_eq_some, not_and]
  constructor
  · intro h
    by_cases ha : a' = a
    · exact Or.inr ha
    · refine Or.inl fun id' w' hid' => h id' w' ?_ hid'
      rintro rfl
      rw [hid] at hid'
      exact ha (Prod.mk.inj (Option.some.inj hid')).1.symm
  · rintro (h | rfl) id' w' hne hid'
    · exact h id' w' hid'
    · exact hne (hw.addr_inj hid' hid)

lemma Released.fresh (h : Released cm k o cm') (hw : Wf cm) (hf : Fresh cm) : Fresh cm' := by
  cases h with
  | kept => exact ⟨hf.waitingmsgs, fun k' id a h => hf.listed (FlagsOnly.refl.setInUse.listed.mp h)⟩
  | forgotten hk hu he =>
    refine ⟨hf.waitingmsgs, fun k' id a h => ?_⟩
    obtain ⟨r, hr, ht⟩ := h
    exact hf.listed ⟨r, (FinMap.get_erase_eq_some.mp hr).2, by simpa using ht⟩
  | @handedOver self id a rs v m cm₁ hk hu ha hid htake hself hfree hflags hset =>
    constructor
    · intro id' x h
      have h := (FinMap.get_erase_eq_some.mp h).2
      rw [hflags.waitingmsgs] at h
      exact (hf.waitingmsgs h).trans_eq hflags.nextWaitingmsgId.symm
    · intro k' id' a' h
      exact (hf.listed ((handOver_listed hw hk hflags).mp h).1).trans_eq
        hflags.nextWaitingmsgId.symm

lemma Released.stale (h : Released cm k o cm') (hw : Wf cm) :
    cm'.Stale k' ↔ cm.Stale k' ∨ ∃ m, o = some m ∧ k' ∈ m.1 ∧ k' ≠ k := by
  have hw' := h.wf hw
  cases h with
  | kept =>
    simpa using stale_congr hw hw' rfl fun _ _ => FlagsOnly.refl.setInUse.listed
  | @forgotten self hk hu he =>
    simp only [reduceCtorEq, false_and, exists_false, or_false]
    refine stale_congr hw hw' rfl fun id a => ⟨?_, ?_⟩
    · rintro ⟨r, hr, ht⟩
      exact ⟨r, (FinMap.get_erase_eq_some.mp hr).2, by simpa using ht⟩
    · rintro ⟨r, hr, ht⟩
      refine ⟨r, FinMap.get_erase_eq_some.mpr ⟨?_, hr⟩, by simpa using ht⟩
      rintro rfl
      obtain rfl := Option.some.inj (hk.symm.trans hr)
      simp [FinMap.isEmpty_iff.mp he] at ht
  | @handedOver self id a rs v m cm₁ hk hu ha hid htake hself hfree hflags hset =>
    obtain ⟨rs', v', m', he, htake', hmem, hrs⟩ := hw.waits hid
    obtain ⟨rfl, rfl⟩ := Prod.mk.inj (Option.some.inj (WaitingMsg.mk.inj he).1)
    obtain rfl := Except.ok.inj (htake.symm.trans htake')
    have hdead := fun a' => handOver_dead hw hid hflags a'
    rw [stale_iff hw, stale_iff hw']
    constructor
    · rintro ⟨id', a', hl, hd⟩
      obtain ⟨hl, hne⟩ := (handOver_listed hw hk hflags).mp hl
      rcases (hdead a').mp hd with hd | rfl
      · exact Or.inl ⟨id', a', hl, hd⟩
      · obtain ⟨r, hr, ht⟩ := hl
        obtain ⟨rfl, rs', v', he', hin⟩ := hw.table_ok hr ht hid
        obtain ⟨rfl, rfl⟩ := Prod.mk.inj (Option.some.inj he')
        exact Or.inr ⟨m, rfl, (hmem k').mpr ⟨r, hin, hr⟩, fun hkk => hne hkk rfl⟩
    · rintro (⟨id', a', hl, hd⟩ | ⟨_, ⟨⟩, hk', hne⟩)
      · refine ⟨id', a', (handOver_listed hw hk hflags).mpr ⟨hl, ?_⟩, (hdead a').mpr (Or.inl hd)⟩
        rintro rfl rfl
        obtain ⟨r, hr, ht⟩ := hl
        obtain rfl := Option.some.inj (hk.symm.trans hr)
        obtain rfl := Option.some.inj (ha.symm.trans ht)
        exact hd _ _ hid
      · obtain ⟨r, hr, hkr⟩ := (hmem k').mp hk'
        refine ⟨id, a, (handOver_listed hw hk hflags).mpr ⟨⟨r, hkr, (hrs r hr).2⟩, ?_⟩,
          (hdead a).mpr (Or.inr rfl)⟩
        exact fun hkk => (hne hkk).elim

end PaQueueAndChan.KeyChannel.KvMpscMultik.ConflictManager
