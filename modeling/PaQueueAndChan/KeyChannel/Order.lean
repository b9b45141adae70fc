import PaQueueAndChan.KeyChannel.Delivery
import PaQueueAndChan.Library.Lines

/-! The order of delivery over any table whose waiting messages stand in lines. A message enters
`q`, may wait in the line of its class, and is returned; in each class nobody is overtaken as long
as releases serve the lines from the front. -/

namespace PaQueueAndChan.KeyChannel

open Library

variable {κ μ τ ω ε γ : Type*} [DecidableEq γ]

structure KeyTable.Lines (T : KeyTable κ μ τ ω ε) (Inv : τ → Prop) (c : μ → γ)
    (line : τ → γ → List μ) : Prop where
  line_empty : ∀ g, line T.empty g = []
  handle : ∀ {t m o t'}, Inv t → T.handle t m = .ok (o, t') → ∀ g,
    line t g ++ ofClass c g [m] = ofClass c g o.toList ++ line t' g

/-- The release of `k` hands over nobody but the first in line. -/
def KeyTable.Serves (T : KeyTable κ μ τ ω ε) (c : μ → γ) (line : τ → γ → List μ) (r : ω) (t : τ)
    (k : κ) : Prop :=
  ∀ o t', T.release r t k = .ok (o, t') → ∀ g, line t g = ofClass c g o.toList ++ line t' g

namespace System

variable {T : KeyTable κ μ τ ω ε} {Inv : τ → Prop} {c : μ → γ} {line : τ → γ → List μ}
  {s s' : System κ μ τ ε} {a : Action μ ω}

def ahead (c : μ → γ) (line : τ → γ → List μ) (s : System κ μ τ ε) (g : γ) : List μ :=
  line s.table g ++ ofClass c g s.chan.q

def OrderOk (c : μ → γ) (line : τ → γ → List μ) (s : System κ μ τ ε) : Prop :=
  InOrder c (ahead c line s) s.sent s.returned

lemma orderOk_new (hT : T.Lines Inv c line) : OrderOk c line (new T) :=
  inOrder_nil fun g => by simp [ahead, new, hT.line_empty]

lemma OrderOk.of_eq (hs : OrderOk c line s) (ht : s'.table = s.table) (hq : s'.chan.q = s.chan.q)
    (hsent : s'.sent = s.sent) (hret : s'.returned = s.returned) : OrderOk c line s' := by
  unfold OrderOk ahead
  rw [ht, hq, hsent, hret]
  exact hs

lemma orderOk_step (hT : T.Lines Inv c line) (hi : Inv s.table)
    (hserve : ∀ r k ks, a = .recvStep r → s.recv = .drain → s.chan.dropKeyQ = k :: ks →
      T.Serves c line r s.table k)
    (hs : OrderOk c line s) (h : s.step T a = some s') : Stopped s' ∨ OrderOk c line s' := by
  cases step_moves h with
  | sender h =>
    obtain ⟨_, ht, _, _, _, hret, _⟩ := senderStep_frame h
    obtain ⟨new, hq, hsent, _⟩ := senderStep_queues h
    right
    unfold OrderOk
    rw [hsent, hret]
    apply hs.enter
    intro g
    simp only [ahead, ht, hq, ofClass_append, List.append_assoc]
  | @release o k ks hr hk =>
    apply stopped_or_settle
    intro om t hres
    rw [settle_ok]
    apply InOrder.leave hs
    intro g
    simp only [ahead, hserve o k ks rfl hr hk om t hres g, List.append_assoc]
  | @handle o m ms hr hq =>
    apply stopped_or_settle
    intro om t hres
    rw [settle_ok]
    apply InOrder.leave hs
    intro g
    -- the message leaves the head of `q` for the end of its line
    calc ahead c line s g = line s.table g ++ ofClass c g [m] ++ ofClass c g ms := by
          rw [ahead, hq, ← List.singleton_append, ofClass_append, List.append_assoc]
      _ = ofClass c g om.toList ++ (line t g ++ ofClass c g ms) := by
          rw [hT.handle hi hres g, List.append_assoc]
  | dropMsg h =>
    obtain ⟨_, _, rfl⟩ := dropMsg_eq h
    exact Or.inr (hs.of_eq rfl rfl rfl rfl)
  | dropStep h =>
    obtain ⟨_, _, _, _, _, _, rfl⟩ := dropStep_eq h
    exact Or.inr (hs.of_eq rfl rfl rfl rfl)
  | handles | recv | quiet | dropReceiver => exact Or.inr (hs.of_eq rfl rfl rfl rfl)

end System

end PaQueueAndChan.KeyChannel
