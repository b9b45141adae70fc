import Mathlib
import PaQueueAndChan.Library.Admission
import PaQueueAndChan.Library.Handles
import PaQueueAndChan.Library.Transitions

/-! What `kv_mpsc.rs` and `kv_mpsc_multik.rs` share: the `Channel`, the senders, the messages and
the loop of `sync_pop`. The receiver's own table of keys is a parameter, and each of the two files
supplies its own. Every step is one operation on a shared queue, flag or event, with the local work
that follows it. The fields after `dropping` are history that no step reads. -/

namespace PaQueueAndChan.KeyChannel

open Library

variable {κ μ τ ω ε : Type*}

/-- The receiver's table. `release` is the body of the loop over `drop_key_q`, `handle` the branch
for a message popped from `q`, and `closable` the table's part of the close test. -/
structure KeyTable (κ μ τ ω ε : Type*) where
  keys : μ → List κ
  empty : τ
  release : ω → τ → κ → Except ε (Option μ × τ)
  handle : τ → μ → Except ε (Option μ × τ)
  closable : τ → Bool

-- `event_listener::Event` with the one listener it ever has, and whether that is notified
structure Event where
  listener : Option Bool

def Event.listen : Event := ⟨some false⟩

-- `notify(1)`: no effect without a listener or on a notified one
def Event.notify (e : Event) : Event := ⟨e.listener.map fun _ => true⟩

structure Channel (κ μ : Type*) where
  wakeRecvEvent : Event
  q : List μ
  dropKeyQ : List κ
  sendersDropped : Bool
  receiverDropped : Bool

inductive SendPc (μ : Type*)
  | idle
  | checked (m : μ)                  -- `receiver_dropped` read false, before `q.push`
  | pushed                           -- before `notify`
  | dropping                         -- the last clone is gone, before `senders_dropped.store`
  | closing                          -- before the `notify` of the drop code

def SendPc.Ends (c : SendPc μ) : Prop := c = .dropping ∨ c = .closing

inductive RecvPc (μ ε : Type*)
  | idle (last : Option (Option μ))  -- outside `sync_pop`, with what the last call returned
  | drain                            -- before `drop_key_q.pop()`
  | popQ
  | testQ
  | testDrop
  | close                            -- before the table's test and the load of `senders_dropped`
  | takeListener
  | waiting
  | relisten
  | panicked (site : Option ε)       -- `none`: the listener was missing
  | dropped

structure System (κ μ τ ε : Type*) where
  chan : Channel κ μ
  senders : Handles (SendPc μ)
  table : τ
  listener : Bool
  recv : RecvPc μ ε
  alive : List μ
  dropping : List (List κ)           -- keys still to be pushed, in the order of the pushes
  sent : List μ
  returned : List μ
  handed : List (κ × μ)              -- messages that left waiting, with the key then released
  sinceTest : List μ                 -- pushed since the last `q.is_empty()` of `sync_pop`

inductive Action (μ ω : Type*)
  | clone (t t' : ℕ)
  | send (t : ℕ) (m : μ)
  | sender (t : ℕ)
  | drop (t : ℕ)
  | recv
  | recvStep (order : ω)
  | dropMsg (i : ℕ)
  | dropStep (i : ℕ)
  | dropReceiver

namespace System

variable (T : KeyTable κ μ τ ω ε)

def new : System κ μ τ ε where
  chan := ⟨.listen, [], [], false, false⟩
  senders := .first .idle
  table := T.empty
  listener := true
  recv := .idle none
  alive := []
  dropping := []
  sent := []
  returned := []
  handed := []
  sinceTest := []

@[simps]
def setPc (s : System κ μ τ ε) (t : ℕ) (c : SendPc μ) : System κ μ τ ε :=
  { s with senders := s.senders.set t c }

@[simps]
def goto (s : System κ μ τ ε) (r : RecvPc μ ε) : System κ μ τ ε := { s with recv := r }

@[simps]
def notify (s : System κ μ τ ε) : System κ μ τ ε :=
  { s with chan := { s.chan with wakeRecvEvent := s.chan.wakeRecvEvent.notify } }

@[simps]
def pushDropKey (s : System κ μ τ ε) (k : κ) : System κ μ τ ε :=
  { s with chan := { s.chan with dropKeyQ := s.chan.dropKeyQ ++ [k] } }

-- what `sync_pop` does with the answer of the table, on a released key or on a popped message
def settle (s : System κ μ τ ε) (released : Option κ) :
    Except ε (Option μ × τ) → System κ μ τ ε
  | .error e => s.goto (.panicked (some e))
  | .ok (none, t) => { s with table := t }.goto .drain
  | .ok (some m, t) =>
    { s with
      table := t, alive := s.alive ++ [m], returned := s.returned ++ [m]
      handed := s.handed ++ released.toList.map (·, m) }.goto (.idle (some (some m)))

def recvStep (s : System κ μ τ ε) (order : ω) : Option (System κ μ τ ε) :=
  match s.recv with
  | .idle _ | .panicked _ | .dropped => none
  | .drain =>
    match s.chan.dropKeyQ with
    | [] => some (s.goto .popQ)
    | k :: ks =>
      some ({ s with chan := { s.chan with dropKeyQ := ks } }.settle (some k)
        (T.release order s.table k))
  | .popQ =>
    match s.chan.q with
    | [] => some (s.goto .testQ)
    | m :: ms =>
      some ({ s with chan := { s.chan with q := ms } }.settle none (T.handle s.table m))
  | .testQ =>
    if s.chan.q.isEmpty then some ({ s with sinceTest := [] }.goto .testDrop)
    else some ({ s with sinceTest := [] }.goto .drain)
  | .testDrop => if s.chan.dropKeyQ.isEmpty then some (s.goto .close) else some (s.goto .drain)
  | .close =>
    if T.closable s.table && s.chan.sendersDropped then some (s.goto (.idle (some none)))
    else some (s.goto .takeListener)
  | .takeListener =>
    if s.listener then some ({ s with listener := false }.goto .waiting)
    else some (s.goto (.panicked none))
  | .waiting =>
    -- `wait` returns once its listener is notified, and uses it up
    if s.chan.wakeRecvEvent.listener = some true then
      some ({ s with chan := { s.chan with wakeRecvEvent := ⟨none⟩ } }.goto .relisten)
    else none
  | .relisten =>
    some ({ s with
      chan := { s.chan with wakeRecvEvent := .listen }, listener := true }.goto .drain)

def senderStep (s : System κ μ τ ε) (t : ℕ) : Option (System κ μ τ ε) :=
  match s.senders.pc t with
  | .idle => none
  | .checked m =>
    some ({ s with
      chan := { s.chan with q := s.chan.q ++ [m] }
      sent := s.sent ++ [m], sinceTest := s.sinceTest ++ [m] }.setPc t .pushed)
  | .pushed => some (s.notify.setPc t .idle)
  | .dropping =>
    some ({ s with chan := { s.chan with sendersDropped := true } }.setPc t .closing)
  | .closing => some (s.notify.setPc t .idle)

-- `while let Some(k) = self.ks.pop()`: the keys go from the end, and the first push is made here
def dropMsg (s : System κ μ τ ε) (i : ℕ) : Option (System κ μ τ ε) :=
  match s.alive[i]? with
  | none => none
  | some m =>
    match (T.keys m).reverse with
    | [] => some { s with alive := s.alive.eraseIdx i, dropping := s.dropping ++ [[]] }
    | k :: ks =>
      some ({ s with alive := s.alive.eraseIdx i, dropping := s.dropping ++ [ks] }.pushDropKey k)

def dropStep (s : System κ μ τ ε) (i : ℕ) : Option (System κ μ τ ε) :=
  match s.dropping[i]? with
  | none => none
  | some [] => some { s.notify with dropping := s.dropping.eraseIdx i }
  | some (k :: ks) => some ({ s with dropping := s.dropping.set i ks }.pushDropKey k)

def step (s : System κ μ τ ε) : Action μ ω → Option (System κ μ τ ε)
  | .clone t t' =>
    if t ∈ s.senders.live ∧ t' ∉ s.senders.live then some { s with senders := s.senders.clone t' }
    else none
  | .send t m =>
    match s.senders.pc t with
    | .idle =>
      if t ∈ s.senders.live then
        -- `Err(Closed)` once the receiver is dropped: the call is over and nothing has changed
        if s.chan.receiverDropped then some s else some (s.setPc t (.checked m))
      else none
    | _ => none
  | .sender t => s.senderStep t
  | .drop t =>
    match s.senders.pc t with
    | .idle =>
      if t ∈ s.senders.live then some { s with senders := s.senders.drop t .dropping } else none
    | _ => none
  | .recv =>
    match s.recv with
    | .idle _ => some (s.goto .drain)
    | _ => none
  | .recvStep order => s.recvStep T order
  | .dropMsg i => s.dropMsg T i
  | .dropStep i => s.dropStep i
  | .dropReceiver =>
    match s.recv with
    | .idle _ =>
      -- the listener goes with the receiver
      some ({ s with
        chan := { s.chan with receiverDropped := true, wakeRecvEvent := ⟨none⟩ }
        listener := false }.goto .dropped)
    | _ => none

variable {T} {s s' : System κ μ τ ε} {a : Action μ ω}

def SendersOk (s : System κ μ τ ε) : Prop :=
  s.senders.Ok .idle SendPc.Ends (s.chan.sendersDropped = true)

inductive Moves (T : KeyTable κ μ τ ω ε) (s : System κ μ τ ε) :
    Action μ ω → System κ μ τ ε → Prop
  | handles {c : Action μ ω} (senders : Handles (SendPc μ)) (hc : ∀ o, c ≠ .recvStep o)
      (hok : SendersOk s → senders.Ok .idle SendPc.Ends (s.chan.sendersDropped = true))
      (hpc : ∀ t m, senders.pc t = .checked m → s.senders.pc t = .checked m ∨ c = .send t m) :
      Moves T s c { s with senders := senders }
  | sender {t : ℕ} {u : System κ μ τ ε} (h : s.senderStep t = some u) : Moves T s (.sender t) u
  | recv {last : Option (Option μ)} (hr : s.recv = .idle last) : Moves T s .recv (s.goto .drain)
  | release {o : ω} {k : κ} {ks : List κ} (hr : s.recv = .drain) (hk : s.chan.dropKeyQ = k :: ks) :
      Moves T s (.recvStep o) ({ s with chan := { s.chan with dropKeyQ := ks } }.settle (some k)
        (T.release o s.table k))
  | handle {o : ω} {m : μ} {ms : List μ} (hr : s.recv = .popQ) (hq : s.chan.q = m :: ms) :
      Moves T s (.recvStep o) ({ s with chan := { s.chan with q := ms } }.settle none
        (T.handle s.table m))
  | quiet {o : ω} (e : Event) (l : Bool) (r : RecvPc μ ε) (st : List μ)
      (h : s.recvStep T o = some { s with
        chan := { s.chan with wakeRecvEvent := e }, listener := l, recv := r, sinceTest := st })
      (hd : s.recv = .drain → s.chan.dropKeyQ = []) (hr : ∀ x, r ≠ .panicked (some x)) :
      Moves T s (.recvStep o) { s with
        chan := { s.chan with wakeRecvEvent := e }, listener := l, recv := r, sinceTest := st }
  | dropMsg {i : ℕ} {u : System κ μ τ ε} (h : s.dropMsg T i = some u) : Moves T s (.dropMsg i) u
  | dropStep {i : ℕ} {u : System κ μ τ ε} (h : s.dropStep i = some u) : Moves T s (.dropStep i) u
  | dropReceiver {last : Option (Option μ)} (hr : s.recv = .idle last) :
      Moves T s .dropReceiver ({ s with
        chan := { s.chan with receiverDropped := true, wakeRecvEvent := ⟨none⟩ }
        listener := false }.goto .dropped)

lemma recvStep_moves {o : ω} (h : s.recvStep T o = some s') : Moves T s (.recvStep o) s' := by
  have hq : ∀ e l r st, s' = { s with
      chan := { s.chan with wakeRecvEvent := e }, listener := l, recv := r, sinceTest := st } →
      (s.recv = .drain → s.chan.dropKeyQ = []) → (∀ x, r ≠ .panicked (some x)) →
      Moves T s (.recvStep o) s' := by
    rintro e l r st rfl hd hr
    exact .quiet e l r st h hd hr
  cases hr : s.recv with
  | idle | panicked | dropped => simp [recvStep, hr] at h
  | drain =>
    cases hk : s.chan.dropKeyQ with
    | nil =>
      simp only [recvStep, hr, hk, Option.some.injEq] at h
      exact hq _ _ _ _ h.symm (fun _ => hk) (by simp)
    | cons k ks =>
      simp only [recvStep, hr, hk, Option.some.injEq] at h
      subst h
      exact .release hr hk
  | popQ =>
    cases hm : s.chan.q with
    | nil =>
      simp only [recvStep, hr, hm, Option.some.injEq] at h
      exact hq _ _ _ _ h.symm (by simp [hr]) (by simp)
    | cons m ms =>
      simp only [recvStep, hr, hm, Option.some.injEq] at h
      subst h
      exact .handle hr hm
  | _ =>
    simp only [recvStep, hr] at h
    (first | split_ifs at h | skip) <;>
      exact hq _ _ _ _ (Option.some.inj h).symm (by simp [hr]) (by simp)

lemma step_moves (h : s.step T a = some s') : Moves T s a s' := by
  cases a with
  | sender t => exact .sender h
  | recvStep o => exact recvStep_moves h
  | dropMsg i => exact .dropMsg h
  | dropStep i => exact .dropStep h
  | recv =>
    cases hr : s.recv with
    | idle last =>
      simp only [step, hr, Option.some.injEq] at h
      subst h
      exact .recv hr
    | _ => simp [step, hr] at h
  | dropReceiver =>
    cases hr : s.recv with
    | idle last =>
      simp only [step, hr, Option.some.injEq] at h
      subst h
      exact .dropReceiver hr
    | _ => simp [step, hr] at h
  | clone t t' =>
    simp only [step] at h
    split_ifs at h with ht
    obtain rfl := Option.some.inj h
    exact .handles _ (by simp) (fun hs => hs.clone ht.1) fun _ _ h => Or.inl h
  | send t m =>
    cases hpc : s.senders.pc t with
    | idle =>
      simp only [step, hpc] at h
      split_ifs at h with ht <;> obtain rfl := Option.some.inj h
      · exact .handles _ (by simp) id fun _ _ h => Or.inl h
      · refine .handles _ (by simp) (fun hs => hs.set ht (by simp [SendPc.Ends])) fun u m' hu => ?_
        by_cases he : u = t
        · subst he
          obtain rfl : m = m' := by simpa using hu
          exact Or.inr rfl
        · exact Or.inl (by simpa [he] using hu)
    | _ => simp [step, hpc] at h
  | drop t =>
    cases hpc : s.senders.pc t with
    | idle =>
      simp only [step, hpc] at h
      split_ifs at h with ht
      obtain rfl := Option.some.inj h
      refine .handles _ (by simp) (fun hs => hs.drop ht hpc (Or.inl rfl)) fun u m hu => Or.inl ?_
      unfold Handles.drop at hu
      split_ifs at hu
      · by_cases he : u = t
        · subst he
          simp at hu
        · simpa [he] using hu
      · exact hu
    | _ => simp [step, hpc] at h

end System

end PaQueueAndChan.KeyChannel
