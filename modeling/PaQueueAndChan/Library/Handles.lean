import Mathlib.Data.Finset.Basic
import Mathlib.Logic.Function.Basic

/-! Clones of one reference-counted handle, each with a program counter in the call it is making.
The last clone to go runs the drop code of what they share, under its own number. -/

namespace PaQueueAndChan.Library

structure Handles (π : Type*) where
  live : Finset ℕ
  pc : ℕ → π

namespace Handles

variable {π : Type*}

def first (idle : π) : Handles π := ⟨{0}, fun _ => idle⟩

def set (h : Handles π) (t : ℕ) (c : π) : Handles π := ⟨h.live, Function.update h.pc t c⟩

def clone (h : Handles π) (t : ℕ) : Handles π := ⟨insert t h.live, h.pc⟩

def drop (h : Handles π) (t : ℕ) (dropCode : π) : Handles π :=
  if h.live.erase t = ∅ then ⟨∅, Function.update h.pc t dropCode⟩ else ⟨h.live.erase t, h.pc⟩

@[simp] lemma set_live (h : Handles π) (t : ℕ) (c : π) : (h.set t c).live = h.live := rfl

@[simp] lemma set_pc (h : Handles π) (t : ℕ) (c : π) :
    (h.set t c).pc = Function.update h.pc t c := rfl

/-- `Ends` marks the drop code and `ended` says that its effect has been seen. -/
structure Ok (idle : π) (Ends : π → Prop) (ended : Prop) (h : Handles π) : Prop where
  idle_ends : ¬ Ends idle
  live : ∀ t, h.pc t = idle ∨ t ∈ h.live ∨ Ends (h.pc t)
  last : ∀ t, Ends (h.pc t) → h.live = ∅ ∧ ∀ t', t' ≠ t → h.pc t' = idle
  ended : ended → h.live = ∅ ∧ ∀ t, h.pc t = idle ∨ Ends (h.pc t)

variable {idle : π} {Ends : π → Prop} {ended : Prop} {h : Handles π} {t : ℕ} {c : π}

lemma ok_first (he : ¬ Ends idle) (hn : ¬ ended) : Ok idle Ends ended (first idle) :=
  ⟨he, fun _ => Or.inl rfl, fun _ h => (he h).elim, fun h => (hn h).elim⟩

lemma Ok.mem (hh : Ok idle Ends ended h) (hi : h.pc t ≠ idle) (he : ¬ Ends (h.pc t)) :
    t ∈ h.live := by
  rcases hh.live t with h | h | h
  · exact (hi h).elim
  · exact h
  · exact (he h).elim

lemma Ok.of_mem (hh : Ok idle Ends ended h) (ht : t ∈ h.live) :
    ¬ ended ∧ ∀ t', ¬ Ends (h.pc t') := by
  refine ⟨fun he => ?_, fun t' he => ?_⟩
  · simp [(hh.ended he).1] at ht
  · simp [(hh.last t' he).1] at ht

lemma Ok.set (hh : Ok idle Ends ended h) (ht : t ∈ h.live) (hc : ¬ Ends c) :
    Ok idle Ends ended (h.set t c) := by
  obtain ⟨hn, hd⟩ := hh.of_mem ht
  refine ⟨hh.idle_ends, fun u => ?_, fun u hu => ?_, fun he => (hn he).elim⟩
  · by_cases hut : u = t
    · exact Or.inr (Or.inl (hut ▸ ht))
    · simpa [hut] using hh.live u
  · by_cases hut : u = t
    · subst hut
      exact (hc (by simpa using hu)).elim
    · exact (hd u (by simpa [hut] using hu)).elim

lemma Ok.clone {t' : ℕ} (hh : Ok idle Ends ended h) (ht : t ∈ h.live) :
    Ok idle Ends ended (h.clone t') := by
  obtain ⟨hn, hd⟩ := hh.of_mem ht
  refine ⟨hh.idle_ends, fun u => ?_, fun u hu => (hd u hu).elim, fun he => (hn he).elim⟩
  rcases hh.live u with h | h | h
  · exact Or.inl h
  · exact Or.inr (Or.inl (Finset.mem_insert_of_mem h))
  · exact Or.inr (Or.inr h)

lemma Ok.drop (hh : Ok idle Ends ended h) (ht : t ∈ h.live) (hi : h.pc t = idle) (hc : Ends c) :
    Ok idle Ends ended (h.drop t c) := by
  obtain ⟨hn, hd⟩ := hh.of_mem ht
  unfold Handles.drop
  split_ifs with hlast
  · have hidle : ∀ u, u ≠ t → h.pc u = idle := by
      intro u hu
      rcases hh.live u with h | h | h
      · exact h
      · have := Finset.mem_erase.mpr ⟨hu, h⟩
        simp [hlast] at this
      · exact (hd u h).elim
    refine ⟨hh.idle_ends, fun u => ?_, fun u hu => ⟨rfl, fun v hv => ?_⟩, fun he => (hn he).elim⟩
    · by_cases hut : u = t
      · subst hut
        exact Or.inr (Or.inr (by simpa using hc))
      · exact Or.inl (by simpa [hut] using hidle u hut)
    · by_cases hut : u = t
      · subst hut
        simpa [hv] using hidle v hv
      · exact (hd u (by simpa [hut] using hu)).elim
  · refine ⟨hh.idle_ends, fun u => ?_, fun u hu => (hd u hu).elim, fun he => (hn he).elim⟩
    by_cases hut : u = t
    · exact Or.inl (hut ▸ hi)
    · simpa [hut] using hh.live u

lemma Ok.advance {ended' : Prop} (hh : Ok idle Ends ended h) (he : Ends (h.pc t))
    (hc : c = idle ∨ Ends c) : Ok idle Ends ended' (h.set t c) := by
  obtain ⟨hempty, hidle⟩ := hh.last t he
  have hall : ∀ u, (h.set t c).pc u = idle ∨ Ends ((h.set t c).pc u) := by
    intro u
    by_cases hut : u = t
    · subst hut
      simpa using hc
    · exact Or.inl (by simpa [hut] using hidle u hut)
  refine ⟨hh.idle_ends, fun u => (hall u).imp_right Or.inr, fun u hu => ⟨hempty, fun v hv => ?_⟩,
    fun _ => ⟨hempty, hall⟩⟩
  by_cases hut : u = t
  · subst hut
    simpa [hv] using hidle v hv
  · rw [set_pc, Function.update_of_ne hut, hidle u hut] at hu
    exact (hh.idle_ends hu).elim

end Handles

end PaQueueAndChan.Library
