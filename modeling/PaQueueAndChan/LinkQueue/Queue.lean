import Mathlib
import PaQueueAndChan.Library.Transitions

/-! `lockfree_link_queue.rs` as a transition system: any number of pushers and one popper. Every
step is one atomic operation or one access to a node; a freed node keeps its address and its mark.
The fields after `popper` are history that no step reads, and so are the values that a pusher keeps
beside its node. -/

namespace PaQueueAndChan.LinkQueue

open Library

-- address of a node; the null pointer is `none`
abbrev Ptr := ℕ

structure Node (T : Type*) where
  t : Option T
  next : Option Ptr
  live : Bool

def Node.newHead {T : Type*} : Node T := ⟨none, none, true⟩

def Node.new {T : Type*} (t : T) : Node T := ⟨some t, none, true⟩

inductive PushPc (T : Type*)
  | idle
  | load (new : Ptr) (t : T)              -- before `tail.load`
  | exchange (new : Ptr) (t : T) (oldtail : Ptr)
  | count (new oldtail : Ptr)             -- before `cnt.fetch_add`
  | link (new oldtail : Ptr)              -- before `(*oldtail).next.store`

inductive PopPc (T : Type*)
  | idle (last : Option (Option T))       -- outside `pop`, with what the last call returned
  | count                                 -- before `cnt.load`
  | dummyhead
  | head (dummyhead : Ptr)                -- before `(*dummyhead).next.load`
  | next (dummyhead head : Ptr)           -- before `(*head).next.load`
  | store (dummyhead head : Ptr) (next : Option Ptr)
  | free (head : Ptr)
  | sub (t : T)                           -- before `cnt.fetch_sub`
  | panicked                              -- `t.unwrap()` of `Node::free`

structure LockfreeMpscLinkQueue (T : Type*) where
  heap : Ptr → Node T
  nextPtr : Ptr
  dummyhead : Ptr
  tail : Ptr
  cnt : ℤ
  pushers : ℕ → PushPc T
  popper : PopPc T
  pushed : List (Ptr × T)            -- in the order of the successful exchanges
  taken : List Ptr                   -- the nodes whose `next` the popper has read
  returned : List T
  touchedFreed : Bool

inductive Action (T : Type*)
  | push (p : ℕ) (t : T)
  | pushStep (p : ℕ) (spurious : Bool)    -- whether a weak exchange fails for no reason
  | pop
  | popStep

-- `fetch_add` on an `AtomicI32`
def fetchAdd (cnt d : ℤ) : ℤ := Int.bmod (cnt + d) (2 ^ 32)

namespace LockfreeMpscLinkQueue

variable {T : Type*}

def new : LockfreeMpscLinkQueue T where
  heap _ := Node.newHead
  nextPtr := 1
  dummyhead := 0
  tail := 0
  cnt := 0
  pushers _ := .idle
  popper := .idle none
  pushed := []
  taken := []
  returned := []
  touchedFreed := false

@[simps]
def setPush (s : LockfreeMpscLinkQueue T) (p : ℕ) (c : PushPc T) : LockfreeMpscLinkQueue T :=
  { s with pushers := Function.update s.pushers p c }

@[simps]
def setPop (s : LockfreeMpscLinkQueue T) (c : PopPc T) : LockfreeMpscLinkQueue T :=
  { s with popper := c }

@[simps]
def setNode (s : LockfreeMpscLinkQueue T) (x : Ptr) (n : Node T) : LockfreeMpscLinkQueue T :=
  { s with heap := Function.update s.heap x n }

-- a read or write of the node at `x`
@[simps]
def touch (s : LockfreeMpscLinkQueue T) (x : Ptr) : LockfreeMpscLinkQueue T :=
  { s with touchedFreed := s.touchedFreed || !(s.heap x).live }

def storeNext (s : LockfreeMpscLinkQueue T) (x : Ptr) (next : Option Ptr) :
    LockfreeMpscLinkQueue T :=
  (s.touch x).setNode x { s.heap x with next := next }

@[simp] lemma storeNext_t {s : LockfreeMpscLinkQueue T} {x y : Ptr} {n : Option Ptr} :
    ((s.storeNext x n).heap y).t = (s.heap y).t := by
  by_cases h : y = x <;> simp [storeNext, h]

@[simp] lemma storeNext_live {s : LockfreeMpscLinkQueue T} {x y : Ptr} {n : Option Ptr} :
    ((s.storeNext x n).heap y).live = (s.heap y).live := by
  by_cases h : y = x <;> simp [storeNext, h]

lemma storeNext_next {s : LockfreeMpscLinkQueue T} {x y : Ptr} {n : Option Ptr} :
    ((s.storeNext x n).heap y).next = if y = x then n else (s.heap y).next := by
  by_cases h : y = x <;> simp [storeNext, h]

lemma storeNext_of_ne {s : LockfreeMpscLinkQueue T} {x y : Ptr} {n : Option Ptr} (h : y ≠ x) :
    (s.storeNext x n).heap y = s.heap y := by
  simp [storeNext, h]

def pushStep (s : LockfreeMpscLinkQueue T) (p : ℕ) (spurious : Bool) :
    Option (LockfreeMpscLinkQueue T) :=
  match s.pushers p with
  | .idle => none
  | .load new t => some (s.setPush p (.exchange new t s.tail))
  | .exchange new t oldtail =>
    if s.tail = oldtail ∧ spurious = false then
      some ({ s with tail := new, pushed := s.pushed ++ [(new, t)] }.setPush p (.count new oldtail))
    else some (s.setPush p (.load new t))
  | .count new oldtail =>
    some ({ s with cnt := fetchAdd s.cnt 1 }.setPush p (.link new oldtail))
  | .link new oldtail => some ((s.storeNext oldtail (some new)).setPush p .idle)

def popStep (s : LockfreeMpscLinkQueue T) : Option (LockfreeMpscLinkQueue T) :=
  match s.popper with
  | .idle _ | .panicked => none
  | .count => if s.cnt = 0 then some (s.setPop (.idle (some none))) else some (s.setPop .dummyhead)
  | .dummyhead => some (s.setPop (.head s.dummyhead))
  | .head dummyhead =>
    match (s.heap dummyhead).next with
    | none => some ((s.touch dummyhead).setPop .dummyhead)
    | some head => some ((s.touch dummyhead).setPop (.next dummyhead head))
  | .next dummyhead head =>
    some ({ s.touch head with taken := s.taken ++ [head] }.setPop
      (.store dummyhead head (s.heap head).next))
  | .store dummyhead head next => some ((s.storeNext dummyhead next).setPop (.free head))
  | .free head =>
    let u := (s.touch head).setNode head { s.heap head with t := none, live := false }
    match (s.heap head).t with
    | some t => some (u.setPop (.sub t))
    | none => some (u.setPop .panicked)
  | .sub t =>
    some ({ s with cnt := fetchAdd s.cnt (-1), returned := s.returned ++ [t] }.setPop
      (.idle (some (some t))))

def step (s : LockfreeMpscLinkQueue T) : Action T → Option (LockfreeMpscLinkQueue T)
  | .push p t =>
    match s.pushers p with
    | .idle =>
      some ({ s.setNode s.nextPtr (.new t) with nextPtr := s.nextPtr + 1 }.setPush p
        (.load s.nextPtr t))
    | _ => none
  | .pushStep p spurious => s.pushStep p spurious
  | .pop =>
    match s.popper with
    | .idle _ => some (s.setPop .count)
    | _ => none
  | .popStep => s.popStep

end LockfreeMpscLinkQueue

end PaQueueAndChan.LinkQueue
