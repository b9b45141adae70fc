import PaQueueAndChan.LinkQueue.Chain

namespace PaQueueAndChan.LinkQueue

open Library

variable {T : Type*}

-- the node that the next step of the popper reads, writes or frees
def PopPc.accesses : PopPc T → Option Ptr
  | .head x | .next _ x | .store x _ _ | .free x => some x
  | _ => none

namespace LockfreeMpscLinkQueue

variable {s s' : LockfreeMpscLinkQueue T} {a : Action T} {x : Ptr}

lemma ChainOk.accesses_live (hs : ChainOk s) (hx : s.popper.accesses = some x) :
    (s.heap x).live = true := by
  have hok := hs.popper
  rw [PopperOk] at hok
  cases hp : s.popper with
  | idle | count | dummyhead | sub | panicked => simp [hp, PopPc.accesses] at hx
  | head d =>
    obtain rfl : d = x := by simpa [hp, PopPc.accesses] using hx
    rw [hp] at hok
    exact hok.1 ▸ hs.dummyhead
  | next d y =>
    obtain rfl : y = x := by simpa [hp, PopPc.accesses] using hx
    obtain ⟨t, -, -, hlive, -⟩ := hs.next_front hp
    exact hlive
  | store d y n =>
    obtain rfl : d = x := by simpa [hp, PopPc.accesses] using hx
    rw [hp] at hok
    exact hok.1 ▸ hs.dummyhead
  | free y =>
    obtain rfl : y = x := by simpa [hp, PopPc.accesses] using hx
    rw [hp] at hok
    exact hok.2.1

lemma popStep_touchedFreed (h : s.popStep = some s')
    (hlive : ∀ x, s.popper.accesses = some x → (s.heap x).live = true) :
    s'.touchedFreed = s.touchedFreed := by
  unfold popStep at h
  split at h
  · cases h
  · cases h
  · split_ifs at h <;> cases h <;> rfl
  · cases h
    rfl
  · next d hp =>
    rw [touch_of_live (hlive d (by rw [hp]; rfl))] at h
    split at h <;> cases h <;> rfl
  · next d y hp =>
    rw [touch_of_live (hlive y (by rw [hp]; rfl))] at h
    cases h
    rfl
  · next d y n hp =>
    rw [storeNext, touch_of_live (hlive d (by rw [hp]; rfl))] at h
    cases h
    rfl
  · next y hp =>
    rw [touch_of_live (hlive y (by rw [hp]; rfl))] at h
    split at h <;> cases h <;> rfl
  · cases h
    rfl

def LinksLive (s : LockfreeMpscLinkQueue T) : Action T → Prop
  | .pushStep p _ =>
    match s.pushers p with
    | .link _ oldtail => (s.heap oldtail).live = true
    | _ => True
  | _ => True

lemma touchedFreed_step (hs : ChainOk s) (hf : s.touchedFreed = false) (h : s.step a = some s') :
    s'.touchedFreed = false ↔ LinksLive s a := by
  cases a with
  | push p t =>
    simp only [step] at h
    split at h <;> cases h
    exact iff_of_true hf trivial
  | pop =>
    simp only [step] at h
    split at h <;> cases h
    exact iff_of_true hf trivial
  | popStep =>
    exact iff_of_true ((popStep_touchedFreed h fun x => hs.accesses_live).trans hf) trivial
  | pushStep p spurious =>
    simp only [step, pushStep] at h
    simp only [LinksLive]
    split at h
    · cases h
    · next hp =>
      cases h
      simpa [hp] using hf
    · next hp =>
      split_ifs at h <;> cases h <;> simpa [hp] using hf
    · next hp =>
      cases h
      simpa [hp] using hf
    · next hp =>
      cases h
      simp [hp, storeNext, hf]

lemma takenValues_prefix (s : LockfreeMpscLinkQueue T) :
    s.takenValues <+: s.pushed.map Prod.snd := by
  rw [takenValues, List.map_take]
  exact List.take_prefix _ _

lemma ChainOk.inOrder (hs : ChainOk s) : s.returned <+: s.pushed.map Prod.snd := by
  have hok := hs.popper
  have hlast : ∀ {t}, s.returned ++ [t] = s.takenValues → s.returned <+: s.takenValues :=
    fun h => ⟨_, h⟩
  refine List.IsPrefix.trans ?_ s.takenValues_prefix
  rw [PopperOk] at hok
  split at hok
  · exact hok ▸ List.prefix_rfl
  · exact hok ▸ List.prefix_rfl
  · exact hok ▸ List.prefix_rfl
  · exact hok.2 ▸ List.prefix_rfl
  · exact hok.2.2 ▸ List.prefix_rfl
  · obtain ⟨-, -, -, t, -, hret⟩ := hok
    exact hlast hret
  · obtain ⟨-, -, t, -, hret⟩ := hok
    exact hlast hret
  · exact hlast hok
  · exact hok.elim

lemma ChainOk.not_panicked (hs : ChainOk s) : s.popper ≠ .panicked := by
  intro hp
  have hok := hs.popper
  rw [PopperOk, hp] at hok
  exact hok

/-- In every run, also in those that lose links, the popper reads, writes and frees live nodes only.
As long as no freed memory has been touched, `pop` returns the pushed values in the order of the
exchanges from the first one on, and finds a value in each node that it frees. Freed memory is
touched exactly if a push stores its link into a node that has been freed by then. -/
theorem pops_safely (as : List (Action T)) :
    Always step (fun s => ∀ x, s.popper.accesses = some x → (s.heap x).live = true) new as ∧
      Always step (fun s => s.touchedFreed = false →
        s.returned <+: s.pushed.map Prod.snd ∧ s.popper ≠ .panicked) new as ∧
      (Always step (fun s => s.touchedFreed = false) new as ↔ EachStep step LinksLive new as) :=
  ⟨always_of_invariant (fun _ _ _ => chainOk_step) (fun _ hs _ => hs.accesses_live) as chainOk_new,
    always_of_invariant (fun _ _ _ => chainOk_step) (fun _ hs _ => ⟨hs.inOrder, hs.not_panicked⟩) as
      chainOk_new,
    always_iff_eachStep (fun _ _ _ => chainOk_step) (fun _ _ _ hs hf h => touchedFreed_step hs hf h)
      as chainOk_new rfl⟩

def pushOnce (t : ℕ) : List (Action ℕ) := .push 0 t :: List.replicate 4 (.pushStep 0 false)

def popOnce : List (Action ℕ) := .pop :: List.replicate 7 .popStep

-- the link of the second value is stored into the freed node of the first one
def linkLost : List (Action ℕ) :=
  pushOnce 5 ++ popOnce ++ pushOnce 6 ++ [.pop, .popStep, .popStep]

theorem pops_safely_linkLost :
    ∃ s, run step new linkLost = some s ∧ s.touchedFreed = true ∧ s.popper.accesses = some 0 ∧
      (s.heap 0).live = true :=
  ⟨_, rfl, rfl, rfl, (pops_safely linkLost).1.last
    (show run step new linkLost = some _ from rfl) 0 rfl⟩

end LockfreeMpscLinkQueue

end PaQueueAndChan.LinkQueue
