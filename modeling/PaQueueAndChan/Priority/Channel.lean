import PaQueueAndChan.Library.Handles
import PaQueueAndChan.Library.Transitions
import PaQueueAndChan.Priority.Queue

/-! The priority channel as a transition system. Senders are numbered; each has a program counter
in `send_sync` or in the drop of its handle, and the receiver has one in its current poll. Every
step is one lock section, one atomic operation or one access to the waker cell. The fields after
`recv` are history that no step reads. -/

namespace PaQueueAndChan.Priority

open Library

-- the two bits of the `AtomicUsize` of `AtomicWaker`, operated on independently
structure WakerState where
  registering : Bool
  waking : Bool
deriving DecidableEq

def WAITING : WakerState := ⟨false, false⟩
def REGISTERING : WakerState := ⟨true, false⟩
def WAKING : WakerState := ⟨false, true⟩

structure AtomicWaker (W : Type*) where
  state : WakerState
  waker : Option W

namespace AtomicWaker

variable {W : Type*}

def new : AtomicWaker W := ⟨WAITING, none⟩

def compareExchange (a : AtomicWaker W) (current new : WakerState) : AtomicWaker W :=
  if a.state = current then { a with state := new } else a

def fetchOrWaking (a : AtomicWaker W) : AtomicWaker W :=
  { a with state := { a.state with waking := true } }

def fetchAndNotWaking (a : AtomicWaker W) : AtomicWaker W :=
  { a with state := { a.state with waking := false } }

def take (a : AtomicWaker W) : AtomicWaker W := { a with waker := none }

end AtomicWaker

inductive SenderPc (I P W : Type*)
  | idle
  | checked (i : I) (p : P)          -- `end_flag` read false, before the read section of `push`
  | missing (i : I) (p : P)          -- `contains_key` was false, before the write section
  | pushed                           -- before `fetch_or` of `take_waker`
  | taking                           -- holds the waking bit, before the cell is emptied
  | releasing (waker : Option W)     -- before `fetch_and`
  | waking (waker : Option W)        -- before `waker.wake()`
  | dropping                         -- the last clone is gone, before `end_flag.store(true)`

def SenderPc.afterPush {I P W : Type*} : SenderPc I P W → Bool
  | .pushed | .taking | .releasing _ | .waking _ => true
  | _ => false

inductive PollPc (P W : Type*)
  | lock (second : Bool)             -- before `map.read()` of the first or second `try_recv!`
  | scan (second : Bool) (rest : List P)
  | load (second : Bool)
  | register                         -- before the first `compare_exchange` of `do_register`
  | store                            -- holds the registering bit, before `into_waker`
  | publish (old : Option W) (panic : Bool)
  | reclaim (old : Option W) (panic : Bool)
  | swap (old new : Option W) (panic : Bool)
  | wakeOld (old new : Option W) (panic : Bool)
  | wakeNew (new : Option W) (panic : Bool)
  | wakeSelf                         -- the waking bit was set: `waker.wake()` on the new waker

inductive PollResult (I : Type*)
  | ready (item : Option I)
  | pending
  | unwound

inductive Recv (I P W : Type*)
  | idle (last : Option (W × PollResult I))
  | polling (waker : W) (pc : PollPc P W)

def Recv.waker {I P W : Type*} : Recv I P W → Option W
  | .idle last => last.map Prod.fst
  | .polling w _ => some w

structure PriorityChan (I P W : Type*) [LT P] where
  queue : PriorityQueue I P
  endFlag : Bool
  waker : AtomicWaker W
  senders : Handles (SenderPc I P W)
  recv : Recv I P W
  pushed : Multiset I
  returned : Multiset I
  behind : Bool
  wokenSincePoll : Bool
  wokenSinceRegister : Bool

inductive Action (I P W : Type*)
  | clone (t t' : ℕ)
  | send (t : ℕ) (i : I) (p : P)
  | sender (t : ℕ)
  | drop (t : ℕ)
  | poll (waker : W)
  | recv (clonePanics : Bool)

namespace PriorityChan

variable {I P W : Type*} [LinearOrder P]

def new : PriorityChan I P W where
  queue := .new
  endFlag := false
  waker := .new
  senders := .first .idle
  recv := .idle none
  pushed := 0
  returned := 0
  behind := false
  wokenSincePoll := false
  wokenSinceRegister := false

@[simps]
def setPc (s : PriorityChan I P W) (t : ℕ) (pc : SenderPc I P W) : PriorityChan I P W :=
  { s with senders := s.senders.set t pc }

@[simps]
def setPoll (s : PriorityChan I P W) (w : W) (pc : PollPc P W) : PriorityChan I P W :=
  { s with recv := .polling w pc }

@[simps]
def finish (s : PriorityChan I P W) (w : W) (r : PollResult I) : PriorityChan I P W :=
  { s with recv := .idle (some (w, r)) }

-- the read lock of the map is held by the scan
def scanning (s : PriorityChan I P W) : Bool :=
  match s.recv with
  | .polling _ (.scan _ _) => true
  | _ => false

-- a push under `p` would land where the running scan does not look any more
def passed (s : PriorityChan I P W) (p : P) : Bool :=
  match s.recv with
  | .polling _ (.scan _ rest) => decide (p ∉ rest)
  | _ => true

@[simps]
def notePush (s : PriorityChan I P W) (q : PriorityQueue I P) (i : I) (p : P) :
    PriorityChan I P W :=
  { s with queue := q, pushed := s.pushed + {i}, behind := s.behind || s.passed p }

variable [DecidableEq W]

def wake (s : PriorityChan I P W) : Option W → PriorityChan I P W
  | none => s
  | some w =>
    if s.recv.waker = some w then { s with wokenSincePoll := true, wokenSinceRegister := true }
    else s

def senderStep (s : PriorityChan I P W) (t : ℕ) : Option (PriorityChan I P W) :=
  match s.senders.pc t with
  | .idle => none
  | .checked i p =>
    match s.queue.pushRead i p with
    | some q => some ((s.notePush q i p).setPc t .pushed)
    | none => some (s.setPc t (.missing i p))
  | .missing i p =>
    if s.scanning then none
    else some ((s.notePush (s.queue.pushWrite i p) i p).setPc t .pushed)
  | .pushed =>
    if s.waker.state = WAITING then
      some ({ s with waker := s.waker.fetchOrWaking }.setPc t .taking)
    else
      some ({ s with waker := s.waker.fetchOrWaking }.setPc t .idle)
  | .taking => some ({ s with waker := s.waker.take }.setPc t (.releasing s.waker.waker))
  | .releasing w => some ({ s with waker := s.waker.fetchAndNotWaking }.setPc t (.waking w))
  | .waking w => some ((s.wake w).setPc t .idle)
  | .dropping => some ({ s with endFlag := true }.setPc t .idle)

def pollStep (s : PriorityChan I P W) (w : W) (clonePanics : Bool) :
    PollPc P W → PriorityChan I P W
  | .lock b => { s with behind := false }.setPoll w (.scan b s.queue.map.keys)
  | .scan b [] => s.setPoll w (.load b)
  | .scan b (p :: ps) =>
    match s.queue.popAt p with
    | (some i, q) =>
      { s with queue := q, returned := s.returned + {i} }.finish w (.ready (some i))
    | (none, _) => s.setPoll w (.scan b ps)
  | .load b =>
    if s.endFlag then s.finish w (.ready none)
    else if b then s.finish w .pending
    else s.setPoll w .register
  | .register =>
    if s.waker.state = WAITING then
      { s with waker := s.waker.compareExchange WAITING REGISTERING }.setPoll w .store
    else if s.waker.state = WAKING then
      { s with wokenSinceRegister := false }.setPoll w .wakeSelf
    else s.setPoll w (.lock true)
  | .store =>
    if clonePanics then s.setPoll w (.publish none true)
    else
      { s with waker := { s.waker with waker := some w }, wokenSinceRegister := false }.setPoll w
        (.publish s.waker.waker false)
  | .publish old panic =>
    if s.waker.state = REGISTERING then
      if panic then
        { s with waker := s.waker.compareExchange REGISTERING WAITING }.finish w .unwound
      else { s with waker := s.waker.compareExchange REGISTERING WAITING }.setPoll w (.lock true)
    else s.setPoll w (.reclaim old panic)
  | .reclaim old panic => { s with waker := s.waker.take }.setPoll w (.swap old s.waker.waker panic)
  | .swap old new panic =>
    -- after a panic of `into_waker` the cell held the old waker
    { s with waker := { s.waker with state := WAITING } }.setPoll w
      (if panic then .wakeOld new none panic else .wakeOld old new panic)
  | .wakeOld old new panic => (s.wake old).setPoll w (.wakeNew new panic)
  | .wakeNew new panic =>
    if panic then (s.wake new).finish w .unwound else (s.wake new).setPoll w (.lock true)
  | .wakeSelf => (s.wake (some w)).setPoll w (.lock true)

def recvStep (s : PriorityChan I P W) (clonePanics : Bool) : Option (PriorityChan I P W) :=
  match s.recv with
  | .idle _ => none
  | .polling w pc => some (s.pollStep w clonePanics pc)

def step (s : PriorityChan I P W) : Action I P W → Option (PriorityChan I P W)
  | .clone t t' =>
    if t ∈ s.senders.live ∧ t' ∉ s.senders.live then some { s with senders := s.senders.clone t' }
    else none
  | .send t i p =>
    match s.senders.pc t with
    | .idle =>
      if t ∈ s.senders.live then
        -- `Err(())` when the flag is set: the call is over and nothing has changed
        if s.endFlag then some s else some (s.setPc t (.checked i p))
      else none
    | _ => none
  | .sender t => s.senderStep t
  | .drop t =>
    match s.senders.pc t with
    | .idle =>
      if t ∈ s.senders.live then some { s with senders := s.senders.drop t .dropping } else none
    | _ => none
  | .poll w =>
    match s.recv with
    | .idle _ => some ({ s with wokenSincePoll := false }.setPoll w (.lock false))
    | .polling _ _ => none
  | .recv clonePanics => s.recvStep clonePanics

variable {s s' : PriorityChan I P W} {a : Action I P W}

@[simp] lemma wake_eq (s : PriorityChan I P W) (o : Option W) :
    s.wake o = { s with
      wokenSincePoll := s.wokenSincePoll || (o.isSome && decide (s.recv.waker = o))
      wokenSinceRegister := s.wokenSinceRegister || (o.isSome && decide (s.recv.waker = o)) } := by
  cases o with
  | none => simp [wake]
  | some w => by_cases h : s.recv.waker = some w <;> simp [wake, h]

def SendersOk (s : PriorityChan I P W) : Prop :=
  s.senders.Ok .idle (fun c => c = .dropping) (s.endFlag = true)

inductive Moves (s : PriorityChan I P W) : Action I P W → PriorityChan I P W → Prop
  | handle {c : Action I P W} (senders : Handles (SenderPc I P W))
      (hs : ∀ t, c ≠ .sender t) (hp : ∀ w, c ≠ .poll w) (hr : ∀ b, c ≠ .recv b)
      (hpc : ∀ t, senders.pc t = s.senders.pc t ∨
        (s.senders.pc t).afterPush = false ∧ (senders.pc t).afterPush = false)
      (hok : SendersOk s → senders.Ok .idle (fun c => c = .dropping) (s.endFlag = true)) :
      Moves s c { s with senders := senders }
  | sender {t : ℕ} {u : PriorityChan I P W} (h : s.senderStep t = some u) : Moves s (.sender t) u
  | poll {w : W} {last : Option (W × PollResult I)} (hr : s.recv = .idle last) :
      Moves s (.poll w) ({ s with wokenSincePoll := false }.setPoll w (.lock false))
  | recv {b : Bool} {w : W} {pc : PollPc P W} (hr : s.recv = .polling w pc) :
      Moves s (.recv b) (s.pollStep w b pc)

lemma step_moves (h : s.step a = some s') : Moves s a s' := by
  cases a with
  | sender t => exact .sender h
  | recv b =>
    cases hr : s.recv with
    | idle last => simp [step, recvStep, hr] at h
    | polling w pc =>
      simp only [step, recvStep, hr, Option.some.injEq] at h
      subst h
      exact .recv hr
  | poll w =>
    cases hr : s.recv with
    | idle last =>
      simp only [step, hr, Option.some.injEq] at h
      subst h
      exact .poll hr
    | polling w' pc => simp [step, hr] at h
  | clone t t' =>
    simp only [step] at h
    split_ifs at h with ht
    obtain rfl := Option.some.inj h
    exact .handle _ (by simp) (by simp) (by simp) (fun _ => Or.inl rfl) fun hs => hs.clone ht.1
  | send t i p =>
    cases hpc : s.senders.pc t with
    | idle =>
      simp only [step, hpc] at h
      split_ifs at h with ht <;> obtain rfl := Option.some.inj h
      · exact .handle _ (by simp) (by simp) (by simp) (fun _ => Or.inl rfl) id
      · refine .handle _ (by simp) (by simp) (by simp) (fun u => ?_) fun hs => hs.set ht (by simp)
        by_cases hu : u = t
        · subst hu
          exact Or.inr (by simp [hpc, SenderPc.afterPush])
        · exact Or.inl (by simp [hu])
    | _ => simp [step, hpc] at h
  | drop t =>
    cases hpc : s.senders.pc t with
    | idle =>
      simp only [step, hpc] at h
      split_ifs at h with ht
      obtain rfl := Option.some.inj h
      refine .handle _ (by simp) (by simp) (by simp) (fun u => ?_) fun hs => hs.drop ht hpc rfl
      unfold Handles.drop
      split_ifs
      · by_cases hu : u = t
        · subst hu
          exact Or.inr (by simp [hpc, SenderPc.afterPush])
        · exact Or.inl (by simp [hu])
      · exact Or.inl rfl
    | _ => simp [step, hpc] at h

lemma pollStep_ready_none {w w' : W} {b : Bool} {pc : PollPc P W}
    (h : (s.pollStep w b pc).recv = .idle (some (w', .ready none))) :
    s.endFlag = true ∧ ∃ second, pc = .load second := by
  revert h
  fun_cases pollStep <;> simp_all

lemma pollStep_pending {w w' : W} {b : Bool} {pc : PollPc P W}
    (h : (s.pollStep w b pc).recv = .idle (some (w', .pending))) :
    s.endFlag = false ∧ w = w' ∧ pc = .load true := by
  revert h
  fun_cases pollStep <;> simp_all

end PriorityChan

end PaQueueAndChan.Priority
