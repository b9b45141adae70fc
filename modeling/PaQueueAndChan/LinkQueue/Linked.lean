import PaQueueAndChan.LinkQueue.Chain

/-! Where every link is stored in time, each node whose push has ended can be reached; and `cnt`
counts the nodes in any case. -/

namespace PaQueueAndChan.LinkQueue

open Library

variable {T : Type*}

namespace LockfreeMpscLinkQueue

variable {s s' : LockfreeMpscLinkQueue T} {a : Action T} {p : ℕ} {x y oldtail : Ptr} {t : T}
  {c : PushPc T} {n o : Option Ptr}

-- no push stores its link in a node that the popper has already read its `next` from
def LinksUntaken (s : LockfreeMpscLinkQueue T) : Action T → Prop
  | .pushStep p _ =>
    match s.pushers p with
    | .link _ oldtail => oldtail ∉ s.taken
    | _ => True
  | _ => True

instance (s : LockfreeMpscLinkQueue T) : DecidablePred (LinksUntaken s)
  | .pushStep p _ =>
    match hp : s.pushers p with
    | .link _ oldtail => decidable_of_iff (oldtail ∉ s.taken) (by simp [LinksUntaken, hp])
    | .idle | .load .. | .exchange .. | .count .. => isTrue (by simp [LinksUntaken, hp])
  | .push .. | .pop | .popStep => isTrue trivial

/-- `n` is the pointer to `o`, unless the push of `o` has still to store it. -/
def Reaches (s : LockfreeMpscLinkQueue T) (n o : Option Ptr) : Prop :=
  ∀ x, o = some x → ¬ Unlinked s x → n = some x

structure LinkedOk (s : LockfreeMpscLinkQueue T) : Prop where
  node : ∀ i x t, s.taken.length ≤ i → s.pushed[i]? = some (x, t) →
    Reaches s (s.heap x).next s.nodes[i + 2]?
  front : Reaches s s.front s.nodes[s.taken.length + 1]?

lemma linkedOk_new : LinkedOk (new : LockfreeMpscLinkQueue T) := by
  constructor
  · simp [new]
  · simp [Reaches, new, nodes]

lemma Reaches.mono (h : Reaches s n o) (hu : ∀ x, Unlinked s x → Unlinked s' x) :
    Reaches s' n o := fun x ho hx => h x ho fun hn => hx (hu x hn)

lemma Reaches.append {i : ℕ} (h : Reaches s n s.nodes[i]?)
    (hu : ∀ y, Unlinked s' y ↔ Unlinked s y ∨ y = x) : Reaches s' n (s.nodes ++ [x])[i]? := by
  intro y hy hn
  rw [hu, not_or] at hn
  rw [List.getElem?_append] at hy
  split_ifs at hy
  · exact h y hy hn.1
  · exact (hn.2 (List.mem_singleton.mp (List.mem_of_getElem? hy))).elim

lemma LinkedOk.congr (hs : LinkedOk s) (hpush : s'.pushed = s.pushed)
    (hd : s'.dummyhead = s.dummyhead) (hk : s'.taken = s.taken)
    (hheap : ∀ i x t, s.taken.length ≤ i → s.pushed[i]? = some (x, t) →
      (s'.heap x).next = (s.heap x).next)
    (hu : ∀ x, Unlinked s x → Unlinked s' x) (hf : s'.front = s.front) : LinkedOk s' := by
  have hnodes : s'.nodes = s.nodes := by rw [nodes, hpush, hd, nodes]
  refine ⟨fun i x t hi hx => ?_, ?_⟩
  · rw [hk] at hi
    rw [hpush] at hx
    rw [hheap i x t hi hx, hnodes]
    exact (hs.node i x t hi hx).mono hu
  · rw [hk, hnodes, hf]
    exact hs.front.mono hu

lemma linkedOk_exchange (hs : LinkedOk s) (hp : s.pushers p = .exchange x t oldtail)
    (h : s' = { s with tail := x, pushed := s.pushed ++ [(x, t)] }.setPush p (.count x oldtail)) :
    LinkedOk s' := by
  have hnodes := nodes_exchange h
  have hu := unlinked_exchange hp h
  refine ⟨fun i y t' hi hy => ?_, ?_⟩
  · rw [hnodes]
    subst h
    rw [setPush_pushed, List.getElem?_append] at hy
    split_ifs at hy with hlen
    · exact (hs.node i y t' hi hy).append hu
    · refine Reaches.append (i := i + 2) ?_ hu
      rw [List.getElem?_eq_none (by simp only [nodes, List.length_cons, List.length_map]; omega)]
      exact fun z hz => by cases hz
  · rw [hnodes]
    subst h
    exact hs.front.append hu

lemma ChainOk.link_behind (hc : ChainOk s) (h : (s.pushers p).links = some (x, oldtail))
    (ht : oldtail ∉ s.taken) : ∃ i, s.nodes[i]? = some oldtail ∧ s.nodes[i + 1]? = some x ∧
      (oldtail = s.dummyhead ∨ s.taken.length < i) := by
  obtain ⟨i, -, hi, hi'⟩ := hc.link_index h
  refine ⟨i, hi, hi', ?_⟩
  cases i with
  | zero => exact Or.inl (by simpa [nodes] using hi.symm)
  | succ i =>
    refine Or.inr (Nat.lt_succ_of_le ?_)
    by_contra hlt
    exact ht (hc.mem_taken (not_le.mp hlt) hi)

lemma ChainOk.link_live (hc : ChainOk s) (h : (s.pushers p).links = some (x, oldtail))
    (ht : oldtail ∉ s.taken) : (s.heap oldtail).live = true := by
  obtain ⟨i, hi, -, rfl | hlt⟩ := hc.link_behind h ht
  · exact hc.dummyhead
  · obtain ⟨j, rfl⟩ : ∃ j, i = j + 1 := ⟨i - 1, by omega⟩
    obtain ⟨⟨_, t⟩, hit, rfl⟩ := Option.map_eq_some_iff.mp (nodes_succ (s := s) _ ▸ hi)
    exact (hc.node j _ t (Nat.le_of_lt_succ hlt) hit).1

lemma linkedOk_link (hc : ChainOk s) (hs : LinkedOk s) (hp : s.pushers p = .link x oldtail)
    (ht : oldtail ∉ s.taken) (h : s' = (s.storeNext oldtail (some x)).setPush p .idle) :
    LinkedOk s' := by
  have hlinks : (s.pushers p).links = some (x, oldtail) := by rw [hp]; rfl
  obtain ⟨i, hi, hi', hcase⟩ := hc.link_behind hlinks ht
  have hu := unlinked_link hc hp h
  have hkeep : ∀ {n j}, Reaches s n s.nodes[j]? → j ≠ i + 1 → Reaches s' n s.nodes[j]? := by
    intro n j hr hj z hz hn
    have hzx : z ≠ x := by
      rintro rfl
      exact hj (hc.index hz hi')
    exact hr z hz fun hz' => hn ((hu z).mpr ⟨hz', hzx⟩)
  have hself : Reaches s' (some x) (some x) := fun _ hz _ => hz
  obtain ⟨hnodes, htaken, hpushed⟩ : s'.nodes = s.nodes ∧ s'.taken = s.taken ∧
      s'.pushed = s.pushed := by
    rw [h]
    exact ⟨rfl, rfl, rfl⟩
  refine ⟨fun j y t hj hy => ?_, ?_⟩
  · rw [htaken] at hj
    rw [hpushed] at hy
    have hjy : s.nodes[j + 1]? = some y := by simp [nodes_succ, hy]
    rw [hnodes, h, setPush_heap, storeNext_next, ← h]
    split_ifs with hyo
    · obtain rfl : j + 1 = i := hc.index hjy (hyo ▸ hi)
      rw [hi']
      exact hself
    · refine hkeep (hs.node j y t hj hy) fun hji => hyo ?_
      obtain rfl : j + 1 = i := Nat.succ_injective hji
      exact Option.some.inj (hjy.symm.trans hi)
  · rw [hnodes, htaken, front_link hc hp h]
    split_ifs with hd
    · subst hd
      obtain ⟨hnil, hx⟩ := hc.link_first hlinks
      rw [hnil, List.length_nil, hx]
      exact hself
    · exact hkeep hs.front fun hj => by
        rcases hcase with hd' | hlt
        · exact hd hd'
        · omega

lemma linkedOk_pushStep {spurious : Bool} (hc : ChainOk s) (hs : LinkedOk s)
    (ht : ∀ x oldtail, s.pushers p = .link x oldtail → oldtail ∉ s.taken)
    (h : s.pushStep p spurious = some s') : LinkedOk s' := by
  have hmove : ∀ {cnt c}, c.links = (s.pushers p).links →
      LinkedOk ({ s with cnt := cnt }.setPush p c) := fun hlinks =>
    hs.congr rfl rfl rfl (fun _ _ _ _ _ => rfl) (fun x => (unlinked_update hlinks rfl x).mpr) rfl
  unfold pushStep at h
  split at h
  · cases h
  · next hp =>
    cases h
    exact hmove (by rw [hp]; rfl)
  · next hp =>
    split_ifs at h
    · exact linkedOk_exchange hs hp (Option.some.inj h).symm
    · cases h
      exact hmove (by rw [hp]; rfl)
  · next hp =>
    cases h
    exact hmove (by rw [hp]; rfl)
  · next hp => exact linkedOk_link hc hs hp (ht _ _ hp) (Option.some.inj h).symm

lemma linkedOk_popStep (hc : ChainOk s) (hs : LinkedOk s) (h : s.popStep = some s') :
    LinkedOk s' := by
  have hok := hc.popper
  have hkeep : ∀ {s'}, s'.pushed = s.pushed → s'.dummyhead = s.dummyhead → s'.taken = s.taken →
      (∀ x ∈ s.pushed.map Prod.fst, (s'.heap x).next = (s.heap x).next) →
      s'.pushers = s.pushers → s'.front = s.front → LinkedOk s' := by
    intro s' hpush hd hk hheap hpushers hf
    refine hs.congr hpush hd hk (fun i x t _ hx => hheap x ?_) (fun x hx => ?_) hf
    · exact List.mem_map.mpr ⟨_, List.mem_of_getElem? hx, rfl⟩
    · rwa [Unlinked, hpushers]
  unfold popStep at h
  split at h
  · cases h
  · cases h
  · next hp =>
    split_ifs at h <;> cases h <;>
      exact hkeep rfl rfl rfl (fun _ _ => rfl) rfl (by simp [front, hp])
  · next hp =>
    cases h
    exact hkeep rfl rfl rfl (fun _ _ => rfl) rfl (by simp [front, hp])
  · next d hp =>
    split at h <;> cases h <;> exact hkeep rfl rfl rfl (fun _ _ => rfl) rfl (by simp [front, hp])
  · next d y hp =>
    cases h
    obtain ⟨t, hk, -⟩ := hc.next_front hp
    refine ⟨fun i z u hi hz => hs.node i z u ((Nat.le_succ _).trans (by simpa using hi)) hz, ?_⟩
    simp only [setPop_taken, List.length_append, List.length_singleton]
    exact hs.node _ _ t le_rfl hk
  · next d y n hp =>
    rw [PopperOk, hp] at hok
    obtain ⟨rfl, -⟩ := hok
    cases h
    refine hkeep rfl rfl rfl (fun x hx => ?_) rfl ?_
    · rw [setPop_heap, storeNext_of_ne (hc.taken_ne_dummyhead hx)]
    · rw [front, front, hp]
      simp [storeNext]
  · next y hp =>
    have hnext : ∀ x, (Function.update s.heap y { s.heap y with t := none, live := false } x).next =
        (s.heap x).next := by
      intro x
      by_cases hx : x = y <;> simp [hx]
    split at h <;> cases h <;> exact hkeep rfl rfl rfl (fun x _ => hnext x) rfl
      ((hnext s.dummyhead).trans (by rw [front, hp]))
  · next t hp =>
    cases h
    exact hkeep rfl rfl rfl (fun _ _ => rfl) rfl (by simp [front, hp])

lemma linkedOk_step (hc : ChainOk s) (hs : LinkedOk s) (ha : LinksUntaken s a)
    (h : s.step a = some s') : LinkedOk s' := by
  cases a with
  | push p t =>
    simp only [step] at h
    split at h
    · next hp =>
      have hfront := hc.front_push (p := p) (t := t) rfl
      cases h
      exact hs.congr rfl rfl rfl
        (fun _ x _ _ hx => congrArg Node.next (heap_push (hc.lt x (mem_nodes hx))))
        (fun x => (unlinked_update (by simp [hp, PushPc.links]) rfl x).mpr) hfront
    · cases h
  | pushStep p spurious =>
    refine linkedOk_pushStep hc hs (fun x oldtail hp => ?_) h
    simpa [LinksUntaken, hp] using ha
  | pop =>
    simp only [step] at h
    split at h
    · next last hp =>
      cases h
      exact hs.congr rfl rfl rfl (fun _ _ _ _ _ => rfl) (fun _ h => h) (by simp [front, hp])
    · cases h
  | popStep => exact linkedOk_popStep hc hs h

/-- `cnt` is the number of nodes not returned, less the pushes that have not counted theirs. -/
def CountOk (s : LockfreeMpscLinkQueue T) : Prop :=
  ∃ S : Finset ℕ, (∀ p, p ∈ S ↔ ∃ x oldtail, s.pushers p = .count x oldtail) ∧
    s.cnt = Int.bmod (s.pushed.length - S.card - s.returned.length) (2 ^ 32)

lemma countOk_new : CountOk (new : LockfreeMpscLinkQueue T) := ⟨∅, by simp [new], by simp [new]⟩

lemma CountOk.congr (hs : CountOk s) (hp : ∀ q, (∃ x oldtail, s'.pushers q = .count x oldtail) ↔
      ∃ x oldtail, s.pushers q = .count x oldtail) (hcnt : s'.cnt = s.cnt)
    (hlen : s'.pushed = s.pushed) (hret : s'.returned = s.returned) : CountOk s' := by
  obtain ⟨S, hS, hc⟩ := hs
  exact ⟨S, fun q => (hS q).trans (hp q).symm, by rw [hcnt, hlen, hret, hc]⟩

lemma count_update {q : ℕ} (h : ∀ x oldtail, s.pushers p ≠ .count x oldtail)
    (h' : ∀ x oldtail, c ≠ .count x oldtail) :
    (∃ x oldtail, Function.update s.pushers p c q = .count x oldtail) ↔
      ∃ x oldtail, s.pushers q = .count x oldtail := by
  by_cases hq : q = p
  · subst hq
    simp [h, h']
  · simp [hq]

lemma countOk_pushStep {spurious : Bool} (hs : CountOk s) (h : s.pushStep p spurious = some s') :
    CountOk s' := by
  unfold pushStep at h
  split at h
  · cases h
  · next hp =>
    cases h
    exact hs.congr (fun q => count_update (by simp [hp]) (by simp)) rfl rfl rfl
  · next x t oldtail hp =>
    split_ifs at h <;> cases h
    · obtain ⟨S, hS, hc⟩ := hs
      have hpS : p ∉ S := by simp [hS, hp]
      refine ⟨insert p S, fun q => ?_, ?_⟩
      · by_cases hq : q = p
        · subst hq
          simp
        · simp [hq, hS]
      · simp only [setPush_cnt, setPush_pushed, setPush_returned, List.length_append,
          List.length_singleton, Finset.card_insert_of_notMem hpS, hc]
        congr 1
        push_cast
        ring
    · exact hs.congr (fun q => count_update (by simp [hp]) (by simp)) rfl rfl rfl
  · next x oldtail hp =>
    cases h
    obtain ⟨S, hS, hc⟩ := hs
    have hpS : p ∈ S := (hS p).mpr ⟨x, oldtail, hp⟩
    refine ⟨S.erase p, fun q => ?_, ?_⟩
    · by_cases hq : q = p
      · subst hq
        simp
      · simp [hq, hS]
    · have hcard := Finset.card_erase_add_one hpS
      simp only [setPush_cnt, setPush_pushed, setPush_returned, fetchAdd, hc, Int.bmod_add_bmod]
      congr 1
      omega
  · next hp =>
    cases h
    exact hs.congr (fun q => count_update (s := s) (by simp [hp]) (by simp)) rfl rfl rfl

lemma countOk_popStep (hs : CountOk s) (h : s.popStep = some s') : CountOk s' := by
  unfold popStep at h
  split at h
  · cases h
  · cases h
  · split_ifs at h <;> cases h <;> exact hs.congr (fun _ => Iff.rfl) rfl rfl rfl
  · cases h
    exact hs.congr (fun _ => Iff.rfl) rfl rfl rfl
  · split at h <;> cases h <;> exact hs.congr (fun _ => Iff.rfl) rfl rfl rfl
  · cases h
    exact hs.congr (fun _ => Iff.rfl) rfl rfl rfl
  · cases h
    exact hs.congr (fun _ => Iff.rfl) rfl rfl rfl
  · split at h <;> cases h <;> exact hs.congr (fun _ => Iff.rfl) rfl rfl rfl
  · next t hp =>
    cases h
    obtain ⟨S, hS, hc⟩ := hs
    refine ⟨S, hS, ?_⟩
    simp only [setPop_cnt, setPop_pushed, setPop_returned, fetchAdd, hc, Int.bmod_add_bmod,
      List.length_append, List.length_singleton]
    congr 1
    push_cast
    ring

lemma countOk_step (hs : CountOk s) (h : s.step a = some s') : CountOk s' := by
  cases a with
  | push p t =>
    simp only [step] at h
    split at h
    · next hp =>
      cases h
      exact hs.congr (fun q => count_update (by simp [hp]) (by simp)) rfl rfl rfl
    · cases h
  | pushStep p spurious => exact countOk_pushStep hs h
  | pop =>
    simp only [step] at h
    split at h <;> cases h
    exact hs.congr (fun _ => Iff.rfl) rfl rfl rfl
  | popStep => exact countOk_popStep hs h

end LockfreeMpscLinkQueue

end PaQueueAndChan.LinkQueue
