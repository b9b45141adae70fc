import PaQueueAndChan.Library.Threads
import PaQueueAndChan.Priority.Channel

/-! `AtomicWaker` by itself: any number of threads call `register_by_ref` and `wake`, in any
interleaving. A step is one atomic operation, one access to the cell, or one call of code that the
waker brings along. Each waker is known by the number of the `register_by_ref` call it was given
to. -/

namespace PaQueueAndChan.Waking

open Library Priority

inductive Pc
  | idle
  | register (w : ℕ)                 -- before the first `compare_exchange` of `do_register`
  | into (w : ℕ)                     -- holds the registering bit, before `into_waker`
  | takeOld (w : ℕ)                  -- before the old waker is taken out of the cell
  | putNew (old : Option ℕ) (w : ℕ)
  | publish (old : Option ℕ) (panic : Bool)
  | reclaim (old : Option ℕ) (panic : Bool)
  | swap (old new : Option ℕ) (panic : Bool)
  | wakeOld (old new : Option ℕ) (panic : Bool)
  | wakeNew (new : Option ℕ) (panic : Bool)
  | dropOld (old : Option ℕ)
  | wakeSelf (w : ℕ)                 -- the waking bit was set: `wake_by_ref` on the new waker
  | wake                             -- before `fetch_or` of `take_waker`
  | taking                           -- holds the waking bit, before the cell is emptied
  | releasing (w : Option ℕ)         -- before `fetch_and`
  | waking (w : Option ℕ)            -- before `waker.wake()`
  | failed                           -- at a `debug_assert!`
deriving DecidableEq

/-- The fields after `calls` are the wakers that were put into the cell, in this order, and what
became of those that are in no cell and no call any more: they were woken, woken by reference,
dropped for a newer one, refused for a concurrent registration, or not even made. -/
structure Wakers (ι : Type*) where
  cell : AtomicWaker ℕ
  pc : ι → Pc
  calls : ℕ
  stored : List ℕ
  woken : Multiset ℕ
  wokenByRef : Multiset ℕ
  dropped : Multiset ℕ
  refused : Multiset ℕ
  unwound : Multiset ℕ

inductive Action (ι : Type*)
  | register (t : ι)
  | wake (t : ι)
  | step (t : ι) (panics : Bool)     -- whether `into_waker` panics in this step

@[simp] lemma compareExchange_waker (a : AtomicWaker ℕ) (current new : WakerState) :
    (a.compareExchange current new).waker = a.waker := by
  unfold AtomicWaker.compareExchange
  split_ifs <;> rfl

@[simp] lemma fetchOrWaking_waker (a : AtomicWaker ℕ) : a.fetchOrWaking.waker = a.waker := rfl

@[simp] lemma fetchAndNotWaking_waker (a : AtomicWaker ℕ) :
    a.fetchAndNotWaking.waker = a.waker := rfl

@[simp] lemma take_waker (a : AtomicWaker ℕ) : a.take.waker = none := rfl

namespace Wakers

variable {ι : Type*}

def new : Wakers ι where
  cell := .new
  pc _ := .idle
  calls := 0
  stored := []
  woken := 0
  wokenByRef := 0
  dropped := 0
  refused := 0
  unwound := 0

variable [DecidableEq ι]

@[simps]
def goto (s : Wakers ι) (t : ι) (c : Pc) : Wakers ι := { s with pc := Function.update s.pc t c }

def stepAt (s : Wakers ι) (t : ι) (panics : Bool) : Pc → Option (Wakers ι)
  | .idle | .failed => none
  | .register w =>
    if s.cell.state = WAITING then
      some ({ s with cell := s.cell.compareExchange WAITING REGISTERING }.goto t (.into w))
    else if s.cell.state = WAKING then some (s.goto t (.wakeSelf w))
    else if s.cell.state = REGISTERING ∨ s.cell.state = ⟨true, true⟩ then
      some ({ s with refused := s.refused + {w} }.goto t .idle)
    else some (s.goto t .failed)
  | .into w =>
    if panics then some ({ s with unwound := s.unwound + {w} }.goto t (.publish none true))
    else some (s.goto t (.takeOld w))
  | .takeOld w => some ({ s with cell := s.cell.take }.goto t (.putNew s.cell.waker w))
  | .putNew old w =>
    some ({ s with
      cell := { s.cell with waker := some w }, stored := s.stored ++ [w] }.goto t
        (.publish old false))
  | .publish old panic =>
    if s.cell.state = REGISTERING then
      some ({ s with cell := s.cell.compareExchange REGISTERING WAITING }.goto t (.dropOld old))
    else if s.cell.state = ⟨true, true⟩ then some (s.goto t (.reclaim old panic))
    else some (s.goto t .failed)
  | .reclaim old panic =>
    some ({ s with cell := s.cell.take }.goto t (.swap old s.cell.waker panic))
  | .swap old new panic =>
    -- after a panic of `into_waker` the cell held the old waker
    some ({ s with cell := { s.cell with state := WAITING } }.goto t
      (if panic then .wakeOld new none panic else .wakeOld old new panic))
  | .wakeOld old new panic =>
    some ({ s with woken := s.woken + old.toList }.goto t (.wakeNew new panic))
  | .wakeNew none _ => some (s.goto t .idle)
  | .wakeNew (some w) panic =>
    if panic then some (s.goto t .failed)
    else some ({ s with woken := s.woken + {w} }.goto t .idle)
  | .dropOld old => some ({ s with dropped := s.dropped + old.toList }.goto t .idle)
  | .wakeSelf w => some ({ s with wokenByRef := s.wokenByRef + {w} }.goto t .idle)
  | .wake =>
    if s.cell.state = WAITING then some ({ s with cell := s.cell.fetchOrWaking }.goto t .taking)
    else if s.cell.state = REGISTERING ∨ s.cell.state = ⟨true, true⟩ ∨ s.cell.state = WAKING then
      some ({ s with cell := s.cell.fetchOrWaking }.goto t .idle)
    else some ({ s with cell := s.cell.fetchOrWaking }.goto t .failed)
  | .taking => some ({ s with cell := s.cell.take }.goto t (.releasing s.cell.waker))
  | .releasing w => some ({ s with cell := s.cell.fetchAndNotWaking }.goto t (.waking w))
  | .waking w => some ({ s with woken := s.woken + w.toList }.goto t .idle)

def step (s : Wakers ι) : Action ι → Option (Wakers ι)
  | .register t =>
    if s.pc t = .idle then some ({ s with calls := s.calls + 1 }.goto t (.register s.calls))
    else none
  | .wake t => if s.pc t = .idle then some (s.goto t .wake) else none
  | .step t panics => s.stepAt t panics (s.pc t)

end Wakers

end PaQueueAndChan.Waking
