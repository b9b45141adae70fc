import PaQueueAndChan.KeyChannel.KvMpscMultik.Backlog
import PaQueueAndChan.KeyChannel.KvMpscMultik.Panics
import PaQueueAndChan.KeyChannel.Order

/-! The order of delivery among messages with the same set of keys. Those that wait stand in line,
but a release serves the line in whatever order the hash map gives. -/

namespace PaQueueAndChan.KeyChannel.KvMpscMultik

open Library KeyChannel.System ConflictManager

variable {K V : Type} [LinearOrder K] {succ : WaitingMsgId → Option WaitingMsgId}

def keySet (m : List K × V) : Finset K := m.1.toFinset

lemma mem_keySet {m : List K × V} {k : K} : k ∈ keySet m ↔ k ∈ m.1 := List.mem_toFinset

section table

variable {cm cm' : ConflictManager K V} {k : K} {m : List K × V} {o : Option (List K × V)}

def line (cm : ConflictManager K V) (g : Finset K) : List (List K × V) :=
  ofClass keySet g cm.backlog

/-- Waiting for `k` and for no other key in use. -/
def Ready (cm : ConflictManager K V) (k : K) (m : List K × V) : Prop :=
  m ∈ cm.admission.waiting ∧ k ∈ m.1 ∧ ∀ k' ∈ m.1, k' ≠ k → ¬ cm.Using k'

lemma lines : (kvMpscMultik K V succ).Lines
    (fun cm => Wf cm ∧ Admission.NoStranded Prod.fst cm.admission) keySet line where
  line_empty _ := rfl
  handle := by
    rintro cm m o cm' ⟨hw, hn⟩ h g
    have harr := handleNewMsg_arrived hw h
    rw [line, line, harr.backlog hw]
    cases harr with
    | setAside => simp
    | granted hfree =>
      simp only [reduceCtorEq, if_false, List.append_nil, Option.toList_some, ofClass_singleton]
      split_ifs with hg
      · -- whoever waits with these keys waits for one in use, and none of them is
        have : ofClass keySet g cm.backlog = [] := by
          apply ofClass_eq_nil
          intro m' hm' hg'
          obtain ⟨k, hk, hheld⟩ := hn m' ((mem_backlog hw).mp hm')
          refine hfree ⟨k, (mem_keySet (m := m)).mp ?_, hheld⟩
          rw [hg, ← hg']
          exact mem_keySet.mpr hk
        simp [this]
      · simp

lemma Ready.of_keySet {m' : List K × V} (h : Ready cm k m) (hm' : m' ∈ cm.admission.waiting)
    (he : keySet m' = keySet m) : Ready cm k m' := by
  have hmem : ∀ k, k ∈ m'.1 ↔ k ∈ m.1 := fun k => by rw [← mem_keySet, he, mem_keySet]
  obtain ⟨-, hk, hfree⟩ := h
  exact ⟨hm', (hmem k).mpr hk, fun k' hk' => hfree k' ((hmem k').mp hk')⟩

lemma ConflictManager.Released.ready (h : Released cm k (some m) cm') (hw : Wf cm) :
    Ready cm k m := by
  have hrel := h.release hw
  generalize hadm : cm.admission = t at hrel
  generalize cm'.admission = t' at hrel
  cases hrel with
  | pass hk hm hfree =>
    refine ⟨by simp [hadm], hm, fun k' hk' hne hu => hfree ⟨k', hk', ?_, hne⟩⟩
    have : k' ∈ cm.admission.held := hu
    rwa [hadm] at this

lemma serves (hw : Wf cm) (order : IterOrder (WaitingMsgId × MsgRef))
    (hturn : ∀ m m', Ready cm k m → Ready cm k m' → keySet m = keySet m' → m = m') :
    (kvMpscMultik K V succ).Serves keySet line order cm k := by
  intro o cm' h g
  have hrel := unuseDropedKey_released hw h
  obtain ⟨l, l', hl, hl'⟩ := hrel.backlog hw
  simp only [line, hl, hl', ofClass_append]
  cases o with
  | none => simp
  | some m =>
    rw [Option.toList_some, ofClass_singleton]
    split_ifs with hg
    · have hready := hrel.ready hw
      have hall : ∀ x ∈ ofClass keySet g l, x = m := by
        intro x hx
        obtain ⟨hx, hgx⟩ := mem_ofClass.mp hx
        have hwait : x ∈ cm.admission.waiting :=
          (mem_backlog hw).mp (by simp [hl, hx])
        have hsame := hgx.trans hg.symm
        exact hturn x m (hready.of_keySet hwait hsame) hready hsame
      rw [List.eq_replicate_of_mem hall, ← List.replicate_succ', List.replicate_succ]
      simp
    · simp

lemma unuseDropedKey_startingWith (hw : Wf cm) (hheld : k ∈ cm.admission.held)
    (hready : Ready cm k m) (hn : m.1.Nodup) :
    ∃ order cm', cm.unuseDropedKey order k = .ok (some m, cm') := by
  obtain ⟨self, hk, hu⟩ := hheld
  obtain ⟨hwait, hkm, hfree⟩ := hready
  obtain ⟨id, a, w, hid, htake⟩ := mem_waiting.mp hwait
  obtain ⟨rs, v, m', rfl, htake', hmem, hrs⟩ := hw.waits hid
  obtain rfl := Except.ok.inj (htake.symm.trans htake')
  obtain ⟨self', hself, hks⟩ := (hmem k).mp hkm
  obtain rfl := Option.some.inj (hk.symm.trans hks)
  have hfree₀ : ∀ r ∈ rs, (cm.setInUse self false).isUsing r = false := by
    intro r hr
    obtain ⟨⟨k', hk'⟩, -⟩ := hrs r hr
    rw [isUsing, setInUse_inUse]
    split_ifs with he
    · rfl
    · refine Bool.eq_false_iff.mpr fun hur => hfree k' ((hmem k').mpr ⟨r, hr, hk'⟩) ?_ ⟨r, hk', hur⟩
      rintro rfl
      exact he (Option.some.inj (hk'.symm.trans hk))
  refine ⟨startingWith (id, a), ?_⟩
  have hs : (cm.setInUse self false).search ((startingWith (id, a)).order
      ((cm.setInUse self false).heap self).waitingmsgs.entries) = .ok (some (id, rs)) := by
    have hin := FinMap.get_eq_some.mp (hrs self hself).2
    have hup : (cm.setInUse self false).upgrade a = some ⟨some (rs, v), id⟩ :=
      (upgrade_eq_some hw).mpr ⟨id, hid⟩
    have hany : ¬ rs.any (cm.setInUse self false).isUsing = true := by
      simpa using hfree₀
    simp only [startingWith, setInUse_table, hin, if_true, search, hup, if_neg hany]
  obtain ⟨cm₂, h₂⟩ := tryGetStopWaitingMsg_found (by simp [isUsing, setInUse_inUse]) hs
    (nodup_of_takeKv htake hn)
  obtain ⟨_, _, _, _, cm₁, -, -, -, -, hf, -, rfl⟩ := tryGetStopWaitingMsg_some h₂
  have hid₁ : cm₁.waitingmsgs.get id = some (a, ⟨some (rs, v), id⟩) := by
    rw [hf.waitingmsgs]
    exact hid
  have htake₁ : (cm₁.setWaitingmsgs self (((cm.setInUse self false).heap self).waitingmsgs.erase
      id)).takeKv ⟨some (rs, v), id⟩ = .ok m := by
    rw [takeKv_congr fun _ _ _ r _ => setWaitingmsgs_k.trans ((hf.key r).trans setInUse_k), htake]
  have h₀ : cm.setUnuse self = .ok (cm.setInUse self false) := if_pos hu
  simp only [unuseDropedKey, hk, h₀, h₂, bind, Except.bind, setWaitingmsgs_waitingmsgs, hid₁,
    htake₁]
  exact ⟨_, rfl⟩

end table

variable {s s' : MultikSystem K V} {a : MultikAction K V}

def InOrderOfSending (s : MultikSystem K V) : Prop :=
  NotPanicked s → ∀ S : Finset K,
    s.returned.filter (fun m => m.1.toFinset = S) <+: s.sent.filter (fun m => m.1.toFinset = S)

/-- Of the messages with the same key set that wait for no key in use but the one being released,
all are equal. -/
def ReleasesInTurn (s : MultikSystem K V) (a : MultikAction K V) : Prop :=
  ∀ order k ks, a = .recvStep order → s.recv = .drain → s.chan.dropKeyQ = k :: ks →
    ∀ m m', Ready s.table k m → Ready s.table k m' → keySet m = keySet m' → m = m'

structure LinesOk (succ : WaitingMsgId → Option WaitingMsgId) (s : MultikSystem K V) : Prop where
  keyOk : KeyOk (kvMpscMultik K V succ)
    (fun cm => Wf cm ∧ Admission.NoStranded Prod.fst cm.admission) admission s
  order : Stopped s ∨ OrderOk keySet line s

lemma linesOk_new : LinesOk succ (System.new (kvMpscMultik K V succ)) :=
  ⟨keyOk_new refines.noStranded, Or.inr (orderOk_new lines)⟩

lemma LinesOk.inOrder (hs : LinesOk succ s) : InOrderOfSending s := by
  intro hp S
  have ho := hs.order.resolve_left fun ⟨e, he⟩ => hp e he
  exact ho.isPrefix S

lemma linesOk_step (ha : ∀ t m, a = .send t m → m.1.Nodup) (hs : LinesOk succ s)
    (hc : ReleasesInTurn s a) (h : s.step (kvMpscMultik K V succ) a = some s') :
    LinesOk succ s' := by
  refine ⟨keyOk_step refines.noStranded ha hs.keyOk h, ?_⟩
  rcases hs.order with hst | ho
  · exact Or.inl (stopped_step hst h)
  · rcases hs.keyOk.table with hst | ⟨ht, -⟩
    · exact Or.inl (stopped_step hst h)
    · exact orderOk_step lines ht.inv
        (fun r k ks hr hd hk => serves ht.inv.1 r (hc r k ks hr hd hk)) ho h

lemma overtakes (hs : LinesOk succ s) (hc : ¬ ReleasesInTurn s a) :
    ∃ b s', withoutOrder b = withoutOrder a ∧ s.step (kvMpscMultik K V succ) b = some s' ∧
      ¬ InOrderOfSending s' := by
  simp only [ReleasesInTurn, not_forall] at hc
  obtain ⟨order, k, ks, rfl, hrec, hk, m, m', hm, hm', heq, hne⟩ := hc
  have hp : NotPanicked s := fun e he => by simp [hrec] at he
  obtain ⟨ht, ho⟩ := hs.keyOk.table.resolve_left fun ⟨e, he⟩ => hp e he
  have hord := (hs.order.resolve_left fun ⟨e, he⟩ => hp e he) (keySet m)
  obtain ⟨f, rest, hline⟩ : ∃ f rest, line s.table (keySet m) = f :: rest :=
    List.exists_cons_of_ne_nil (List.ne_nil_of_mem
      (mem_ofClass.mpr ⟨(mem_backlog ht.inv.1).mpr hm.1, rfl⟩))
  obtain ⟨x, hx, hxg, hxf⟩ : ∃ x, Ready s.table k x ∧ keySet x = keySet m ∧ x ≠ f := by
    by_cases hf : m = f
    · exact ⟨m', hm', heq.symm, fun h => hne (hf.trans h.symm)⟩
    · exact ⟨m, hm, rfl, hf⟩
  obtain ⟨order', cm', hrel⟩ := unuseDropedKey_startingWith ht.inv.1 (ho.held_of_release hk) hx
    (ho.distinct x (Or.inr (Or.inl hx.1)))
  have hrel : (kvMpscMultik K V succ).release order' s.table k = .ok (some x, cm') := hrel
  refine ⟨.recvStep order', ({ s with chan := { s.chan with dropKeyQ := ks } } :
    MultikSystem K V).settle (some k) (.ok (some x, cm')), rfl, ?_, fun hs' => ?_⟩
  · simp only [step, recvStep, hrec, hk, hrel]
  · have hpre : ofClass keySet (keySet m) (s.returned ++ [x]) <+:
        ofClass keySet (keySet m) s.sent := hs' (by rintro e ⟨⟩) (keySet m)
    rw [hord, ofClass_append, ofClass_singleton, if_pos hxg, List.prefix_append_right_inj, ahead,
      hline, List.cons_append, List.cons_prefix_cons] at hpre
    exact hxf hpre.1

/-- Of messages with distinct keys, a schedule keeps the order of sending for every set of keys and
in every iteration order exactly when, in every order, no release has two of its messages to choose
from. -/
theorem fifo_per_key_set_iff_releases_in_turn (succ : WaitingMsgId → Option WaitingMsgId)
    (as : List (MultikAction K V)) (hd : ∀ t m, .send t m ∈ as → m.1.Nodup) :
    (∀ bs, bs.map withoutOrder = as.map withoutOrder →
        Always (step (kvMpscMultik K V succ)) InOrderOfSending
          (System.new (kvMpscMultik K V succ)) bs) ↔
      ∀ bs, bs.map withoutOrder = as.map withoutOrder →
        EachStep (step (kvMpscMultik K V succ)) ReleasesInTurn
          (System.new (kvMpscMultik K V succ)) bs := by
  apply forall_always_iff withoutOrder (I := fun s => LinesOk succ s)
    (A := fun b => ∀ t m, b = .send t m → m.1.Nodup)
  · intro s a t ha hs _ hc h
    have hs' := linesOk_step (fun t m he => ha t m (by rw [he]; rfl)) hs hc h
    exact ⟨hs', hs'.inOrder⟩
  · intro s a t _ hs _ hc _
    exact overtakes hs hc
  · intro a ha t m he
    exact hd t m (withoutOrder_send he ▸ ha)
  · exact linesOk_new
  · exact linesOk_new.inOrder

-- two messages wait for the key of the first, and its drop hands the key to the later one
def laterFirst (order : IterOrder (WaitingMsgId × MsgRef)) : List (MultikAction ℕ ℕ) :=
  [.send 0 ([1], 10), .sender 0, .sender 0, .send 0 ([1], 11), .sender 0, .sender 0,
    .send 0 ([1], 12), .sender 0, .sender 0, .recv, .recvStep .stored, .recvStep .stored, .recv,
    .recvStep .stored, .recvStep .stored, .recvStep .stored, .recvStep .stored, .dropMsg 0,
    .recvStep order]

lemma laterFirst_distinct (order : IterOrder (WaitingMsgId × MsgRef)) (t : ℕ) (m : List ℕ × ℕ)
    (hm : .send t m ∈ laterFirst order) : m.1.Nodup := by
  simp only [laterFirst, List.mem_cons, Action.send.injEq, reduceCtorEq, false_or,
    List.not_mem_nil, or_false] at hm
  rcases hm with ⟨-, rfl⟩ | ⟨-, rfl⟩ | ⟨-, rfl⟩ <;> decide

theorem fifo_per_key_set_iff_laterFirst :
    (∀ bs, bs.map withoutOrder = (laterFirst .stored).map withoutOrder →
        Always (step (kvMpscMultik ℕ ℕ succChecked)) InOrderOfSending
          (System.new (kvMpscMultik ℕ ℕ succChecked)) bs) ↔
      ∀ bs, bs.map withoutOrder = (laterFirst .stored).map withoutOrder →
        EachStep (step (kvMpscMultik ℕ ℕ succChecked)) ReleasesInTurn
          (System.new (kvMpscMultik ℕ ℕ succChecked)) bs :=
  fifo_per_key_set_iff_releases_in_turn succChecked (laterFirst .stored)
    (laterFirst_distinct .stored)

def backwards : IterOrder (WaitingMsgId × MsgRef) := ⟨List.reverse, List.reverse_perm⟩

theorem not_fifo_laterFirst :
    ¬ ∀ (as : List (MultikAction ℕ ℕ)) (s : MultikSystem ℕ ℕ),
      (∀ t m, .send t m ∈ as → m.1.Nodup) →
      run (step (kvMpscMultik ℕ ℕ succChecked)) (System.new (kvMpscMultik ℕ ℕ succChecked)) as =
        some s → InOrderOfSending s := by
  intro h
  obtain ⟨s, hrun, hret, hsent, hrec⟩ : ∃ s, run (step (kvMpscMultik ℕ ℕ succChecked))
      (System.new (kvMpscMultik ℕ ℕ succChecked)) (laterFirst backwards) = some s ∧
      s.returned = [([1], 10), ([1], 12)] ∧ s.sent = [([1], 10), ([1], 11), ([1], 12)] ∧
      s.recv = .idle (some (some ([1], 12))) := ⟨_, rfl, rfl, rfl, rfl⟩
  have hpre := h _ s (laterFirst_distinct backwards) hrun (fun e he => by simp [hrec] at he) {1}
  rw [hret, hsent] at hpre
  revert hpre
  decide

end PaQueueAndChan.KeyChannel.KvMpscMultik
