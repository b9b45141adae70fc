import PaQueueAndChan.KeyChannel.Channel
import PaQueueAndChan.Library.FinMap

/-! `ConflictManager` of `kv_mpsc_multik.rs`. The key states live in a heap, since the manager and
the waiting messages share them; a waiting message is owned by the manager alone, and the key
states know it by its address only. -/

namespace PaQueueAndChan.KeyChannel.KvMpscMultik

open Library

-- an `i32` in the source; what the increment does at its bound is a parameter below
abbrev WaitingMsgId := ℤ

-- address of an `Rc<RefCell<KeyStateInner>>`
abbrev StateRef := ℕ

-- address of an `Rc<RefCell<WaitingMsg>>`, which its `Weak`s keep from being used again
abbrev MsgRef := ℕ

inductive Panic
  | addKstate
  | takeKvState
  | takeKv
  | removeWaitingmsg
  | trySetUse
  | setUse
  | setUnuse
  | ksVTaken                         -- the search met a message without its `ks_v`
  | deadWeak                         -- the search met a `Weak` that does not upgrade
  | unknownId                        -- the id found is not in the manager's map
  | unknownKey                       -- a released key has no key state
  | idOverflow
  | idInserted                       -- the assert on inserting a waiting message
  deriving DecidableEq

structure WaitingMsg (V : Type) where
  ksV : Option (List StateRef × V)
  id : WaitingMsgId

structure KeyStateInner (K : Type) where
  k : Option K
  inUse : Bool                       -- `using`
  waitingmsgs : FinMap WaitingMsgId MsgRef

structure ConflictManager (K V : Type) [LinearOrder K] where
  heap : StateRef → KeyStateInner K
  nextState : StateRef
  nextMsg : MsgRef
  waitingmsgs : FinMap WaitingMsgId (MsgRef × WaitingMsg V)
  keysStates : FinMap K StateRef
  nextWaitingmsgId : WaitingMsgId

def WaitingMsg.addKstate {V : Type} (w : WaitingMsg V) (r : StateRef) :
    Except Panic (WaitingMsg V) :=
  match w.ksV with
  | some (rs, v) => .ok { w with ksV := some (rs ++ [r], v) }
  | none => .error .addKstate

namespace ConflictManager

variable {K V : Type} [LinearOrder K]

def new : ConflictManager K V where
  heap _ := ⟨none, false, .empty⟩
  nextState := 0
  nextMsg := 0
  waitingmsgs := .empty
  keysStates := .empty
  nextWaitingmsgId := 0

def isUsing (cm : ConflictManager K V) (r : StateRef) : Bool := (cm.heap r).inUse

def setInUse (cm : ConflictManager K V) (r : StateRef) (b : Bool) : ConflictManager K V :=
  { cm with heap := Function.update cm.heap r { cm.heap r with inUse := b } }

def setWaitingmsgs (cm : ConflictManager K V) (r : StateRef) (t : FinMap WaitingMsgId MsgRef) :
    ConflictManager K V :=
  { cm with heap := Function.update cm.heap r { cm.heap r with waitingmsgs := t } }

-- the caller owns the message whose `Weak` this is, so the upgrade that reads its id succeeds
def addWaitingmsg (cm : ConflictManager K V) (r : StateRef) (id : WaitingMsgId) (weak : MsgRef) :
    ConflictManager K V :=
  cm.setWaitingmsgs r ((cm.heap r).waitingmsgs.insert id weak)

def removeWaitingmsg (cm : ConflictManager K V) (r : StateRef) (id : WaitingMsgId) :
    Except Panic (ConflictManager K V) :=
  if (cm.heap r).waitingmsgs.contains id then
    .ok (cm.setWaitingmsgs r ((cm.heap r).waitingmsgs.erase id))
  else .error .removeWaitingmsg

-- the search holds a borrow of `self`, so `try_borrow_mut` fails on it and nothing happens
def trySetUse (self : StateRef) (cm : ConflictManager K V) (r : StateRef) :
    Except Panic (ConflictManager K V) :=
  if r = self then .ok cm
  else if cm.isUsing r then .error .trySetUse
  else .ok (cm.setInUse r true)

def setUse (cm : ConflictManager K V) (r : StateRef) : Except Panic (ConflictManager K V) :=
  if cm.isUsing r then .error .setUse else .ok (cm.setInUse r true)

def setUnuse (cm : ConflictManager K V) (r : StateRef) : Except Panic (ConflictManager K V) :=
  if cm.isUsing r then .ok (cm.setInUse r false) else .error .setUnuse

-- a `Weak` upgrades as long as the manager's map owns the message
def upgrade (cm : ConflictManager K V) (weak : MsgRef) : Option (WaitingMsg V) :=
  (cm.waitingmsgs.entries.find? fun e => e.2.1 = weak).map fun e => e.2.2

-- the loop of `try_get_stop_waiting_msg`, with the key states of the message it stops at
def search (cm : ConflictManager K V) :
    List (WaitingMsgId × MsgRef) → Except Panic (Option (WaitingMsgId × List StateRef))
  | [] => .ok none
  | (id, weak) :: es =>
    match cm.upgrade weak with
    | none => .error .deadWeak
    | some w =>
      match w.ksV with
      | none => .error .ksVTaken
      | some (rs, _) => if rs.any cm.isUsing then cm.search es else .ok (some (id, rs))

def tryGetStopWaitingMsg (order : IterOrder (WaitingMsgId × MsgRef)) (cm : ConflictManager K V)
    (self : StateRef) : Except Panic (Option WaitingMsgId × ConflictManager K V) := do
  match ← cm.search (order.order (cm.heap self).waitingmsgs.entries) with
  | some (findid, rs) =>
    let cm ← rs.foldlM (trySetUse self) cm
    let cm ← cm.setUse self
    let cm ← cm.removeWaitingmsg self findid
    pure (some findid, cm)
  | none => pure (none, cm)

-- `k.inner.borrow_mut().k.as_ref()`
def keyOf (cm : ConflictManager K V) (r : StateRef) : Except Panic K :=
  match (cm.heap r).k with
  | some k => .ok k
  | none => .error .takeKvState

-- the keys come out from the end of the key states
def takeKv (cm : ConflictManager K V) (w : WaitingMsg V) : Except Panic (List K × V) :=
  match w.ksV with
  | some (rs, v) => do
    let ks ← rs.reverse.mapM cm.keyOf
    pure (ks, v)
  | none => .error .takeKv

-- the body of the loop of `unuse_all_droped_key`
def unuseDropedKey (order : IterOrder (WaitingMsgId × MsgRef)) (cm : ConflictManager K V) (k : K) :
    Except Panic (Option (List K × V) × ConflictManager K V) :=
  match cm.keysStates.get k with
  | none => .error .unknownKey
  | some state => do
    let cm ← cm.setUnuse state
    match ← cm.tryGetStopWaitingMsg order state with
    | (some id, cm) =>
      match cm.waitingmsgs.get id with
      | some (_, msg) =>
        let ksV ← cm.takeKv msg
        pure (some ksV, { cm with waitingmsgs := cm.waitingmsgs.erase id })
      | none => .error .unknownId
    | (none, cm) =>
      if (cm.heap state).waitingmsgs.isEmpty then
        pure (none, { cm with keysStates := cm.keysStates.erase k })
      else pure (none, cm)

/-- With what is left of `dropq`; the order of each search is named by what is left after its
key. -/
def unuseAllDropedKey (order : ℕ → IterOrder (WaitingMsgId × MsgRef)) (cm : ConflictManager K V) :
    List K → Except Panic (Option (List K × V) × ConflictManager K V × List K)
  | [] => pure (none, cm, [])
  | k :: dropq => do
    match ← cm.unuseDropedKey (order dropq.length) k with
    | (some ksV, cm) => pure (some ksV, cm, dropq)
    | (none, cm) => unuseAllDropedKey order cm dropq

def waitingmsgsExist (cm : ConflictManager K V) : Bool := !cm.waitingmsgs.isEmpty

def newWaitingMsg (succ : WaitingMsgId → Option WaitingMsgId) (cm : ConflictManager K V) (v : V) :
    Except Panic (WaitingMsg V × ConflictManager K V) :=
  match succ cm.nextWaitingmsgId with
  | some next => .ok (⟨some ([], v), cm.nextWaitingmsgId⟩, { cm with nextWaitingmsgId := next })
  | none => .error .idOverflow

-- `keys_states.entry(k).or_insert_with(..)`
def entry (cm : ConflictManager K V) (k : K) : StateRef × ConflictManager K V :=
  match cm.keysStates.get k with
  | some r => (r, cm)
  | none =>
    (cm.nextState, { cm with
      heap := Function.update cm.heap cm.nextState ⟨some k, false, .empty⟩
      nextState := cm.nextState + 1
      keysStates := cm.keysStates.insert k cm.nextState })

-- the first loop of `handle_new_msg`
def anyUsing (cm : ConflictManager K V) (ks : List K) : Bool :=
  ks.any fun k =>
    match cm.keysStates.get k with
    | some r => cm.isUsing r
    | none => false

-- the loop that makes a message wait, on the keys in the order in which they are popped
def attach (weak : MsgRef) (w : WaitingMsg V) (cm : ConflictManager K V) :
    List K → Except Panic (WaitingMsg V × ConflictManager K V)
  | [] => .ok (w, cm)
  | k :: ks => do
    let (r, cm) := cm.entry k
    let w ← w.addKstate r
    attach weak w (cm.addWaitingmsg r w.id weak) ks

-- the loop that makes the keys of a message used
def becomeUsing (cm : ConflictManager K V) : List K → Except Panic (ConflictManager K V)
  | [] => .ok cm
  | k :: ks => do
    let (r, cm) := cm.entry k
    let cm ← cm.setUse r
    cm.becomeUsing ks

def handleNewMsg (succ : WaitingMsgId → Option WaitingMsgId) (cm : ConflictManager K V)
    (ks : List K) (v : V) : Except Panic (Option (List K × V) × ConflictManager K V) :=
  if cm.anyUsing ks then do
    let (w, cm) ← cm.newWaitingMsg succ v
    let weak := cm.nextMsg
    let (w, cm) ← attach weak w { cm with nextMsg := weak + 1 } ks.reverse
    if cm.waitingmsgs.contains w.id then .error .idInserted
    else pure (none, { cm with waitingmsgs := cm.waitingmsgs.insert w.id (weak, w) })
  else do
    let cm ← cm.becomeUsing ks
    pure (some (ks, v), cm)

end ConflictManager

/-! What `next_waitingmsg_id.add(1)` does: count without a bound, or as an `i32` of a build with
overflow checks or without. -/

def succUnbounded (id : WaitingMsgId) : Option WaitingMsgId := some (id + 1)

def succChecked (id : WaitingMsgId) : Option WaitingMsgId :=
  if id + 1 < 2 ^ 31 then some (id + 1) else none

def succWrapping (id : WaitingMsgId) : Option WaitingMsgId := some (Int.bmod (id + 1) (2 ^ 32))

variable (K V : Type) [LinearOrder K]

def kvMpscMultik (succ : WaitingMsgId → Option WaitingMsgId) :
    KeyTable K (List K × V) (ConflictManager K V) (IterOrder (WaitingMsgId × MsgRef)) Panic where
  keys := Prod.fst
  empty := .new
  release := ConflictManager.unuseDropedKey
  handle cm m := cm.handleNewMsg succ m.1 m.2
  closable cm := !cm.waitingmsgsExist

abbrev MultikSystem := System K (List K × V) (ConflictManager K V) Panic

abbrev MultikAction := Action (List K × V) (IterOrder (WaitingMsgId × MsgRef))

end PaQueueAndChan.KeyChannel.KvMpscMultik
