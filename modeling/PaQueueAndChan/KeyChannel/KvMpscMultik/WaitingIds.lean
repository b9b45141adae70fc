import PaQueueAndChan.KeyChannel.KvMpscMultik.Stale
import PaQueueAndChan.KeyChannel.KvMpscMultik.Stranded

/-! The ids of the messages that have to wait: an `i32` counter that is never reset. -/

namespace PaQueueAndChan.KeyChannel.KvMpscMultik

open Library

variable {K V : Type} [LinearOrder K] {succ : WaitingMsgId → Option WaitingMsgId}

/-- `i32::add`, with overflow checks and without. -/
def succI32 : Bool → WaitingMsgId → Option WaitingMsgId
  | true => succChecked
  | false => succWrapping

lemma succI32_of_lt {checks : Bool} {id : ℤ} (h₀ : 0 ≤ id) (h : id + 1 < 2 ^ 31) :
    succI32 checks id = some (id + 1) := by
  cases checks with
  | true => exact if_pos h
  | false => exact congrArg some (Int.bmod_eq_of_le (by norm_num; omega) (by norm_num; omega))

namespace ConflictManager

variable {cm cm' : ConflictManager K V} {k : K} {ks : List K} {v : V} {o : Option (List K × V)}
  {popped : List K}

lemma Arrived.unbounded (h : Arrived succ cm ks v o cm')
    (hs : o = none → succ cm.nextWaitingmsgId = some (cm.nextWaitingmsgId + 1)) :
    Arrived succUnbounded cm ks v o cm' := by
  cases h with
  | granted hu h => exact .granted hu h
  | @setAside next rs cm₁ hu hnext hat =>
    obtain rfl := Option.some.inj ((hs rfl).symm.trans hnext)
    exact .setAside hu rfl hat

lemma Arrived.nextWaitingmsgId (h : Arrived succUnbounded cm ks v o cm') (hw : Wf cm) :
    cm'.nextWaitingmsgId = cm.nextWaitingmsgId + (cm.anyUsing ks).toNat := by
  cases h with
  | granted hu h =>
    obtain ⟨-, hid, -⟩ := becomeUsing_frame hw h
    rw [hid, Bool.eq_false_iff.mpr fun hc => hu (anyUsing_iff.mp hc)]
    simp
  | @setAside next rs cm₁ hu hnext hat =>
    obtain rfl : cm.nextWaitingmsgId + 1 = next := Option.some.inj hnext
    rw [anyUsing_iff.mpr hu]
    exact hat.nextWaitingmsgId

lemma Released.nextWaitingmsgId (h : Released cm k o cm') :
    cm'.nextWaitingmsgId = cm.nextWaitingmsgId := by
  cases h with
  | kept | forgotten => rfl
  | handedOver hk hu ha hid htake hself hfree hf hset => exact hf.nextWaitingmsgId

lemma ReleasedAll.fresh (h : ReleasedAll cm popped o cm') (hw : Wf cm) (hf : Fresh cm) :
    Wf cm' ∧ Fresh cm' ∧ cm'.nextWaitingmsgId = cm.nextWaitingmsgId := by
  induction h with
  | done => exact ⟨hw, hf, rfl⟩
  | found h => exact ⟨h.wf hw, h.fresh hw hf, h.nextWaitingmsgId⟩
  | next h _ ih =>
    obtain ⟨hw', hf', hid⟩ := ih (h.wf hw) (h.fresh hw hf)
    exact ⟨hw', hf', hid.trans h.nextWaitingmsgId⟩

structure NewIdOk (succ : WaitingMsgId → Option WaitingMsgId) (cm : ConflictManager K V) :
    Prop where
  noOverflow : cm.nextWaitingmsgId + 1 < 2 ^ 31
  unused : ∀ id a w, cm.waitingmsgs.get id = some (a, w) →
    id ≠ cm.nextWaitingmsgId ∧ w.id ≠ cm.nextWaitingmsgId
  notOverwritten : ∀ k id a, cm.Listed k id a → id ≠ cm.nextWaitingmsgId
  inserted : ∀ ks v, cm.handleNewMsg succ ks v ≠ .error .idInserted

lemma Fresh.newIdOk_iff (hf : Fresh cm) (hw : Wf cm) :
    NewIdOk succ cm ↔ cm.nextWaitingmsgId + 1 < 2 ^ 31 := by
  refine ⟨NewIdOk.noOverflow, fun h => ⟨h, fun id a w hid => ?_, fun k id a hl => ?_,
    fun ks v herr => ?_⟩⟩
  · obtain ⟨-, rs, v, rfl, -⟩ := hw.msg_ok hid
    exact ⟨(hf.waitingmsgs hid).ne, (hf.waitingmsgs hid).ne⟩
  · exact (hf.listed hl).ne
  · rcases handleNewMsg_error hw herr with ⟨he, -⟩ | ⟨he, -⟩ | ⟨-, hin⟩
    · cases he
    · cases he
    · obtain ⟨x, hx⟩ := Option.ne_none_iff_exists'.mp hin
      exact lt_irrefl _ (hf.waitingmsgs hx)

def hasToWait (cm : ConflictManager K V) : Call K V → Bool
  | .handleNewMsg ks _ => cm.anyUsing ks
  | .unuseAllDropedKey _ _ => false

end ConflictManager

open ConflictManager

/-- With the number of messages that have had to wait so far, delivered or not. -/
structure CountedCalls (K V : Type) [LinearOrder K] extends Calls K V where
  waited : ℕ

namespace CountedCalls

variable {s s' : CountedCalls K V} {c : Call K V} {checks : Bool}

def new : CountedCalls K V := ⟨.new, 0⟩

def call (succ : WaitingMsgId → Option WaitingMsgId) (s : CountedCalls K V) (c : Call K V) :
    Option (CountedCalls K V) :=
  (s.toCalls.call succ c).map fun t => ⟨t, s.waited + (s.cm.hasToWait c).toNat⟩

structure CountOk (s : CountedCalls K V) : Prop where
  wf : Wf s.cm
  fresh : Fresh s.cm
  counted : s.cm.nextWaitingmsgId = s.waited

lemma countOk_new : CountOk (new : CountedCalls K V) := ⟨wf_new, fresh_new, rfl⟩

def IdsOk (succ : WaitingMsgId → Option WaitingMsgId) (s : CountedCalls K V) (c : Call K V) :
    Prop :=
  s.cm.hasToWait c = true → NewIdOk succ s.cm

def FewWaited (s : CountedCalls K V) (c : Call K V) : Prop :=
  s.cm.hasToWait c = true → s.waited + 1 < 2 ^ 31

lemma CountOk.idsOk_iff (hs : CountOk s) : IdsOk succ s c ↔ FewWaited s c := by
  refine imp_congr_right fun _ => ?_
  rw [hs.fresh.newIdOk_iff hs.wf, hs.counted]
  norm_cast

lemma countOk_call (hs : CountOk s) (hc : FewWaited s c)
    (h : s.call (succI32 checks) c = some s') : CountOk s' := by
  obtain ⟨t, ht, rfl⟩ := Option.map_eq_some_iff.mp h
  cases c with
  | handleNewMsg ks v =>
    simp only [Calls.call] at ht
    split at ht
    · next o cm hok =>
      obtain rfl := Option.some.inj ht
      have harr := handleNewMsg_arrived hs.wf hok
      have hlt : o = none → (s.waited : ℤ) + 1 < 2 ^ 31 := by
        rintro rfl
        cases harr with
        | setAside hu => exact_mod_cast hc (anyUsing_iff.mpr hu)
      have harr := harr.unbounded fun ho => succI32_of_lt (hs.counted ▸ Int.natCast_nonneg _)
        (hs.counted ▸ hlt ho)
      refine ⟨harr.wf hs.wf, harr.fresh hs.wf hs.fresh, ?_⟩
      rw [harr.nextWaitingmsgId hs.wf, hs.counted]
      push_cast
      rfl
    · cases ht
  | unuseAllDropedKey order dropq =>
    simp only [Calls.call] at ht
    split at ht
    · next o cm rest hok =>
      obtain rfl := Option.some.inj ht
      obtain ⟨popped, -, hrel⟩ := unuseAllDropedKey_released hs.wf hok
      obtain ⟨hw, hf, hid⟩ := hrel.fresh hs.wf hs.fresh
      exact ⟨hw, hf, hid.trans hs.counted⟩
    · cases ht

theorem ids_unique_iff_few_waited (checks : Bool) (calls : List (Call K V)) :
    EachTry (call (succI32 checks)) (IdsOk (succI32 checks)) new calls ↔
      EachTry (call (succI32 checks)) FewWaited new calls :=
  eachTry_iff (I := CountOk) (fun _ _ hs => hs.idsOk_iff)
    (fun _ _ _ hs hc h => countOk_call hs hc h) calls countOk_new

def handOver : List (Call ℕ ℕ) :=
  [.handleNewMsg [1] 0, .unuseAllDropedKey (fun _ => .stored) [1]]

def handOvers (n : ℕ) : List (Call ℕ ℕ) :=
  .handleNewMsg [1] 0 :: (List.replicate n handOver).flatten

structure RoundOk (s : CountedCalls ℕ ℕ) (n : ℕ) : Prop extends CountOk s where
  used : s.cm.admission.held = {1}
  waiting : s.cm.admission.waiting = 0
  notStale : ¬ s.cm.Stale 1
  waited : s.waited = n

lemma call_handleNewMsg {ks : List K} {v : V} {o : Option (List K × V)} {cm : ConflictManager K V}
    (h : s.cm.handleNewMsg succ ks v = .ok (o, cm)) :
    s.call succ (.handleNewMsg ks v) =
      some ⟨⟨cm, s.delivered ++ o.toList, s.processed⟩, s.waited + (s.cm.anyUsing ks).toNat⟩ := by
  simp [call, Calls.call, h, hasToWait]

lemma call_unuse {k : K} {o : Option (List K × V)} {cm : ConflictManager K V}
    (h : s.cm.unuseDropedKey .stored k = .ok (o, cm)) :
    s.call succ (.unuseAllDropedKey (fun _ => .stored) [k]) =
      some ⟨⟨cm, s.delivered ++ o.toList, s.processed ++ [k]⟩, s.waited⟩ := by
  have hall : s.cm.unuseAllDropedKey (fun _ => .stored) [k] = .ok (o, cm, []) := by
    cases o <;> simp [unuseAllDropedKey, h, bind, Except.bind]
  simp [call, Calls.call, hall, hasToWait]

lemma RoundOk.setAside {s : CountedCalls ℕ ℕ} {n : ℕ} (hs : RoundOk s n) (hn : n + 1 < 2 ^ 31)
    (checks : Bool) :
    ∃ cm, s.cm.handleNewMsg (succI32 checks) [1] 0 = .ok (none, cm) ∧
      cm.admission.held = {1} ∧ cm.admission.waiting = {([1], 0)} ∧ ¬ cm.Stale 1 := by
  have hclash : Admission.Clash Prod.fst s.cm.admission.held ([1], 0) :=
    ⟨1, by simp, by simp [hs.used]⟩
  have hid : s.cm.nextWaitingmsgId = n := by rw [hs.counted, hs.waited]
  have hsucc : succI32 checks s.cm.nextWaitingmsgId = some (s.cm.nextWaitingmsgId + 1) :=
    succI32_of_lt (hid ▸ Int.natCast_nonneg n) (hid ▸ mod_cast hn)
  cases hok : s.cm.handleNewMsg (succI32 checks) [1] 0 with
  | error e =>
    rcases handleNewMsg_error hs.wf hok with ⟨-, hnd⟩ | ⟨-, hnone⟩ | ⟨-, hin⟩
    · simp at hnd
    · rw [hsucc] at hnone
      cases hnone
    · obtain ⟨x, hx⟩ := Option.ne_none_iff_exists'.mp hin
      exact (lt_irrefl _ (hs.fresh.waitingmsgs hx)).elim
  | ok res =>
    obtain ⟨o, cm⟩ := res
    have harr := (handleNewMsg_arrived hs.wf hok).unbounded fun _ => hsucc
    have hadm := harr.arrive hs.wf
    obtain rfl := hadm.none_iff.mpr hclash
    obtain ⟨hheld, hwait⟩ := hadm.wait_inv
    refine ⟨cm, rfl, hheld.trans hs.used, ?_, (harr.stale hs.wf hs.fresh).not.mpr hs.notStale⟩
    rw [hwait, hs.waiting, Multiset.cons_zero]

lemma handedOver_of_waiting {cm : ConflictManager ℕ ℕ} (hw : Wf cm)
    (hheld : cm.admission.held = {1}) (hwait : cm.admission.waiting = {([1], 0)})
    (hstale : ¬ cm.Stale 1) : ∃ m cm', cm.unuseDropedKey .stored 1 = .ok (some m, cm') ∧
      cm'.admission.held = {1} ∧ cm'.admission.waiting = 0 ∧ ¬ cm'.Stale 1 := by
  cases hok : cm.unuseDropedKey .stored 1 with
  | error e =>
    rcases unuseDropedKey_error hw (by simp [hheld]) hok with
      ⟨-, r, id, a, hr, ha, hd⟩ | ⟨m, hm, hn⟩
    · exact (hstale ⟨id, a, ⟨r, hr, ha⟩, hd⟩).elim
    · rw [hwait, Multiset.mem_singleton] at hm
      simp [hm] at hn
  | ok res =>
    obtain ⟨o, cm'⟩ := res
    have hrel := unuseDropedKey_released hw hok
    have hadm := hrel.release hw
    cases o with
    | none =>
      obtain ⟨k, hk, hin⟩ := hadm.free_inv ([1], 0) (by simp [hwait]) (by simp)
      obtain rfl : k = 1 := by simpa using hk
      simp at hin
    | some m =>
      obtain ⟨hheld', hwait'⟩ := hadm.pass_inv
      rw [hwait, Multiset.singleton_eq_cons_iff] at hwait'
      obtain ⟨rfl, hnone⟩ := hwait'
      refine ⟨_, cm', rfl, ?_, hnone, fun h => ?_⟩
      · simp [hheld', hheld]
      · rcases (hrel.stale hw).mp h with h | ⟨m, -, -, hne⟩
        · exact hstale h
        · exact hne rfl

lemma roundOk_handOver {s : CountedCalls ℕ ℕ} {n : ℕ} (hs : RoundOk s n) (hn : n + 1 < 2 ^ 31)
    (checks : Bool) :
    ∃ s', run (call (succI32 checks)) s handOver = some s' ∧ RoundOk s' (n + 1) := by
  obtain ⟨cm₁, h₁, hheld, hwait, hstale⟩ := hs.setAside hn checks
  have hused : s.cm.anyUsing [1] = true := anyUsing_iff.mpr ⟨1, by simp, by simp [hs.used]⟩
  have hcall₁ := call_handleNewMsg h₁
  have hs₁ := countOk_call hs.toCountOk (fun _ => by rwa [hs.waited]) hcall₁
  obtain ⟨m, cm₂, h₂, hheld₂, hwait₂, hstale₂⟩ := handedOver_of_waiting hs₁.wf hheld hwait hstale
  have hcall₂ : call (succI32 checks) ⟨⟨cm₁, _, _⟩, _⟩ (.unuseAllDropedKey _ [1]) = some _ :=
    call_unuse h₂
  have hs₂ := countOk_call hs₁ (by simp [FewWaited, hasToWait]) hcall₂
  refine ⟨_, ?_, hs₂, hheld₂, hwait₂, hstale₂, ?_⟩
  · rw [handOver, run_cons, hcall₁, Option.bind_some, run_cons, hcall₂, Option.bind_some, run_nil]
  · simp [hused, hs.waited]

lemma roundOk_handOvers {n : ℕ} (hn : n < 2 ^ 31) (checks : Bool) :
    ∃ s, run (call (succI32 checks)) new (handOvers n) = some s ∧ RoundOk s n := by
  induction n with
  | zero =>
    obtain ⟨cm, hok⟩ : ∃ cm, (ConflictManager.new : ConflictManager ℕ ℕ).handleNewMsg
        (succI32 checks) [1] 0 = .ok (some ([1], 0), cm) := ⟨_, rfl⟩
    have hcall := call_handleNewMsg (s := new) hok
    have hs := countOk_call countOk_new (by simp [FewWaited, hasToWait, new, Calls.new]) hcall
    have harr := (handleNewMsg_arrived wf_new hok).unbounded (by simp)
    obtain ⟨hheld, hwait⟩ := (harr.arrive wf_new).grant_inv
    have hstale := (harr.stale (k := 1) wf_new fresh_new).not.mpr not_stale_new
    refine ⟨_, ?_, hs, ?_, ?_, hstale, rfl⟩
    · rw [handOvers, run_cons, hcall, Option.bind_some]
      rfl
    · simpa [admission_new] using hheld
    · simpa [admission_new] using hwait
  | succ n ih =>
    obtain ⟨s, hrun, hs⟩ := ih (by omega)
    obtain ⟨s', hrun', hs'⟩ := roundOk_handOver hs (by omega) checks
    refine ⟨s', ?_, hs'⟩
    have hcons : handOvers (n + 1) = handOvers n ++ handOver := by
      simp [handOvers, List.replicate_succ']
    rw [hcons, run_append hrun, hrun']

lemma not_idsOk_handOvers (checks : Bool) :
    ¬ EachTry (call (succI32 checks)) (IdsOk (succI32 checks)) new
      (handOvers (2 ^ 31 - 1) ++ handOver) := by
  obtain ⟨s, hrun, hs⟩ := roundOk_handOvers (n := 2 ^ 31 - 1) (by norm_num) checks
  intro h
  have hused : s.cm.anyUsing [1] = true := anyUsing_iff.mpr ⟨1, by simp, by simp [hs.used]⟩
  have hlt := ((h.of_run hrun).1 hused).noOverflow
  rw [hs.counted, hs.waited] at hlt
  norm_num at hlt

/-- With overflow checks and without, of messages of which never two wait at a time. -/
theorem ids_overflow_after_handOvers :
    ¬ EachTry (call (succI32 true)) (IdsOk (succI32 true)) new
        (handOvers (2 ^ 31 - 1) ++ handOver) ∧
      ¬ EachTry (call (succI32 false)) (IdsOk (succI32 false)) new
        (handOvers (2 ^ 31 - 1) ++ handOver) :=
  ⟨not_idsOk_handOvers true, not_idsOk_handOvers false⟩

end CountedCalls

end PaQueueAndChan.KeyChannel.KvMpscMultik
