import Mathlib
import PaQueueAndChan.Library.Transitions

/-! `timeout_parker.rs` as a transition system: one `Parker` and any number of threads that call
`unpark`. Every step is one access to `state` or one step on the mutex or the condvar, on which
nobody but the parker waits. That a panic poisons the mutex is left out: it would have to be one of
the parker, and nobody else looks at what `lock` returns. -/

namespace PaQueueAndChan.TimeoutParker

open Library

abbrev empty : ℕ := 0

abbrev parkedCondvar : ℕ := 1

abbrev notified : ℕ := 3

inductive ParkPc
  | idle                             -- outside `park_timeout`
  | tryNotified (round : ℕ)          -- before the exchange of a round of the loop of `park`
  | lock                             -- before `self.mutex.lock()`
  | exchange                         -- before the exchange of `EMPTY` for `PARKED_CONDVAR`
  | swap                             -- that exchange found `NOTIFIED`
  | waitTimeout                      -- before `wait_timeout`
  | waiting                          -- blocked on the condvar
  | relock                           -- `wait_timeout` has still to lock the mutex again
  | store                            -- before the store of `EMPTY`
  | unlock                           -- before the guard is dropped
  | inconsistent (actual : ℕ)        -- the panic of `park_condvar`
  | unexpected (old : ℕ)             -- its `debug_assert_eq!`

inductive UnparkPc
  | idle
  | swap                             -- before the swap of `NOTIFIED`
  | lock                             -- in `unpark_condvar`, before `self.mutex.lock()`
  | unlock                           -- before the guard is dropped
  | notify                           -- before `notify_one`
  | inconsistent (actual : ℕ)        -- the panic of `unpark`

inductive Holder
  | parker
  | unparker (u : ℕ)

structure Inner where
  state : ℕ
  mutex : Option Holder
  parker : ParkPc
  unparkers : ℕ → UnparkPc

inductive Action
  | park                             -- a call of `park_timeout`
  | parkStep
  | wake                             -- `wait_timeout` returns by timeout or spuriously
  | unpark (u : ℕ)
  | unparkStep (u : ℕ)
  deriving DecidableEq

namespace Inner

def new : Inner where
  state := empty
  mutex := none
  parker := .idle
  unparkers _ := .idle

@[simps]
def setUnpark (s : Inner) (u : ℕ) (c : UnparkPc) : Inner :=
  { s with unparkers := Function.update s.unparkers u c }

def parkStep (s : Inner) : Option Inner :=
  match s.parker with
  | .idle | .waiting | .inconsistent _ | .unexpected _ => none
  | .tryNotified round =>
    if s.state = notified then some { s with state := empty, parker := .idle }
    else if round + 1 < 3 then some { s with parker := .tryNotified (round + 1) }
    else some { s with parker := .lock }
  | .lock =>
    if s.mutex = none then some { s with mutex := some .parker, parker := .exchange } else none
  | .exchange =>
    if s.state = empty then some { s with state := parkedCondvar, parker := .waitTimeout }
    else if s.state = notified then some { s with parker := .swap }
    else some { s with mutex := none, parker := .inconsistent s.state }
  | .swap =>
    if s.state = notified then some { s with state := empty, parker := .unlock }
    else some { s with state := empty, mutex := none, parker := .unexpected s.state }
  | .waitTimeout => some { s with mutex := none, parker := .waiting }
  | .relock =>
    if s.mutex = none then some { s with mutex := some .parker, parker := .store } else none
  | .store => some { s with state := empty, parker := .unlock }
  | .unlock => some { s with mutex := none, parker := .idle }

-- wakes the parker where it waits
def notifyOne (s : Inner) : Inner :=
  match s.parker with
  | .waiting => { s with parker := .relock }
  | _ => s

def unparkStep (s : Inner) (u : ℕ) : Option Inner :=
  match s.unparkers u with
  | .idle | .inconsistent _ => none
  | .swap =>
    let s' := { s with state := notified }
    if s.state = notified ∨ s.state = empty then some (s'.setUnpark u .idle)
    else if s.state = parkedCondvar then some (s'.setUnpark u .lock)
    else some (s'.setUnpark u (.inconsistent s.state))
  | .lock =>
    if s.mutex = none then some ({ s with mutex := some (.unparker u) }.setUnpark u .unlock)
    else none
  | .unlock => some ({ s with mutex := none }.setUnpark u .notify)
  | .notify => some (s.notifyOne.setUnpark u .idle)

def step (s : Inner) : Action → Option Inner
  | .park =>
    match s.parker with
    | .idle => some { s with parker := .tryNotified 0 }
    | _ => none
  | .parkStep => s.parkStep
  | .wake =>
    match s.parker with
    | .waiting => some { s with parker := .relock }
    | _ => none
  | .unpark u =>
    match s.unparkers u with
    | .idle => some (s.setUnpark u .swap)
    | _ => none
  | .unparkStep u => s.unparkStep u

end Inner

end PaQueueAndChan.TimeoutParker
