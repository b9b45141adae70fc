import PaQueueAndChan.LinkQueue.Queue

/-! The chain of nodes, in the order of their exchanges. Where a node points to another one it is
the next one; a link that is stored too late makes the popper find null sooner than it should, and
never a wrong node. -/

namespace PaQueueAndChan.LinkQueue

open Library

variable {T : Type*}

-- the node of a push that is not yet in the chain, with its value
def PushPc.owns : PushPc T → Option (Ptr × T)
  | .load x t | .exchange x t _ => some (x, t)
  | _ => none

-- the node of a push that is in the chain, with the node that has still to point to it
def PushPc.links : PushPc T → Option (Ptr × Ptr)
  | .count x oldtail | .link x oldtail => some (x, oldtail)
  | _ => none

def PushPc.new : PushPc T → Option Ptr
  | .idle => none
  | .load x _ | .exchange x _ _ | .count x _ | .link x _ => some x

lemma PushPc.new_cases {c : PushPc T} {x : Ptr} (h : c.new = some x) :
    (∃ t, c.owns = some (x, t)) ∨ ∃ oldtail, c.links = some (x, oldtail) := by
  cases c <;> simp_all [owns, new, links]

lemma PushPc.new_of_owns {c : PushPc T} {x : Ptr} {t : T} (h : c.owns = some (x, t)) :
    c.new = some x := by
  cases c <;> simp_all [owns, new]

lemma PushPc.new_of_links {c : PushPc T} {x oldtail : Ptr} (h : c.links = some (x, oldtail)) :
    c.new = some x := by
  cases c <;> simp_all [links, new]

namespace LockfreeMpscLinkQueue

variable {s s' : LockfreeMpscLinkQueue T} {p : ℕ} {x y oldtail : Ptr} {t : T} {c : PushPc T}
  {n o : Option Ptr}

def nodes (s : LockfreeMpscLinkQueue T) : List Ptr := s.dummyhead :: s.pushed.map Prod.fst

def Unlinked (s : LockfreeMpscLinkQueue T) (x : Ptr) : Prop :=
  ∃ p oldtail, (s.pushers p).links = some (x, oldtail)

/-- `n` is null, or the pointer to `o` and stored by its push. -/
def PointsTo (s : LockfreeMpscLinkQueue T) (n o : Option Ptr) : Prop :=
  ∀ x, n = some x → o = some x ∧ ¬ Unlinked s x

-- the pointer to the first node that is not taken, which the popper may still have to store
def front (s : LockfreeMpscLinkQueue T) : Option Ptr :=
  match s.popper with
  | .store _ _ next => next
  | _ => (s.heap s.dummyhead).next

structure PushersOk (s : LockfreeMpscLinkQueue T) : Prop where
  owners : ∀ p p' x, (s.pushers p).new = some x → (s.pushers p').new = some x → p = p'
  owned : ∀ p x t, (s.pushers p).owns = some (x, t) →
    x ∉ s.nodes ∧ x < s.nextPtr ∧ s.heap x = .new t
  linking : ∀ p x oldtail, (s.pushers p).links = some (x, oldtail) →
    ∃ i, s.nodes[i]? = some oldtail ∧ s.nodes[i + 1]? = some x

def takenValues (s : LockfreeMpscLinkQueue T) : List T :=
  (s.pushed.take s.taken.length).map Prod.snd

/-- The popper has taken the node at `x` and not yet freed it. -/
def InHand (s : LockfreeMpscLinkQueue T) (x : Ptr) : Prop :=
  x ∈ s.taken ∧ (s.heap x).live = true ∧
    ∃ t, (s.heap x).t = some t ∧ s.returned ++ [t] = s.takenValues

def PopperOk (s : LockfreeMpscLinkQueue T) : Prop :=
  match s.popper with
  | .idle _ | .count | .dummyhead => s.returned = s.takenValues
  | .head d => d = s.dummyhead ∧ s.returned = s.takenValues
  | .next d h => d = s.dummyhead ∧ s.front = some h ∧ s.returned = s.takenValues
  | .store d h _ => d = s.dummyhead ∧ InHand s h
  | .free h => InHand s h
  | .sub t => s.returned ++ [t] = s.takenValues
  | .panicked => False

structure ChainOk (s : LockfreeMpscLinkQueue T) : Prop where
  nodup : s.nodes.Nodup
  lt : ∀ x ∈ s.nodes, x < s.nextPtr
  tail : s.nodes.getLast? = some s.tail
  dummyhead : (s.heap s.dummyhead).live = true
  taken : s.taken <+: s.pushed.map Prod.fst
  settled : ∀ x ∈ s.taken, ¬ Unlinked s x
  node : ∀ i x t, s.taken.length ≤ i → s.pushed[i]? = some (x, t) →
    (s.heap x).live = true ∧ (s.heap x).t = some t ∧ PointsTo s (s.heap x).next s.nodes[i + 2]?
  front : PointsTo s s.front s.nodes[s.taken.length + 1]?
  pushers : PushersOk s
  popper : PopperOk s

lemma chainOk_new : ChainOk (new : LockfreeMpscLinkQueue T) := by
  refine ⟨?_, ?_, ?_, rfl, ?_, ?_, ?_, ?_, ⟨?_, ?_, ?_⟩, ?_⟩
  · simp [nodes, new]
  · simp [nodes, new]
  · simp [nodes, new]
  · simp [new]
  · simp [new]
  · simp [new]
  · simp [PointsTo, front, new, Node.newHead]
  · simp [new, PushPc.new]
  · simp [new, PushPc.owns]
  · simp [new, PushPc.links]
  · simp [PopperOk, new, takenValues]

lemma PointsTo.mono (h : PointsTo s n o) (hu : ∀ x, Unlinked s' x → Unlinked s x) :
    PointsTo s' n o := fun x hx => ⟨(h x hx).1, fun hn => (h x hx).2 (hu x hn)⟩

lemma PointsTo.append {i : ℕ} (h : PointsTo s n s.nodes[i]?) (hx : x ∉ s.nodes)
    (hu : ∀ y, Unlinked s' y → Unlinked s y ∨ y = x) : PointsTo s' n (s.nodes ++ [x])[i]? := by
  intro y hy
  obtain ⟨hi, hn⟩ := h y hy
  refine ⟨?_, fun hn' => ?_⟩
  · rw [List.getElem?_append_left (List.getElem?_eq_some_iff.mp hi).1, hi]
  · rcases hu y hn' with hn' | rfl
    · exact hn hn'
    · exact hx (List.mem_of_getElem? hi)

lemma nodes_succ (i : ℕ) : s.nodes[i + 1]? = (s.pushed[i]?).map Prod.fst := by simp [nodes]

lemma mem_nodes {i : ℕ} (h : s.pushed[i]? = some (x, t)) : x ∈ s.nodes :=
  List.mem_cons_of_mem _ (List.mem_map.mpr ⟨(x, t), List.mem_of_getElem? h, rfl⟩)

lemma ChainOk.taken_le (hs : ChainOk s) : s.taken.length ≤ s.pushed.length := by
  simpa using hs.taken.length_le

lemma ChainOk.mem_taken {i : ℕ} (hs : ChainOk s) (hi : i < s.taken.length)
    (h : s.nodes[i + 1]? = some x) : x ∈ s.taken := by
  obtain ⟨rest, hr⟩ := hs.taken
  have h : (s.pushed.map Prod.fst)[i]? = some x := by simpa [nodes] using h
  rw [← hr, List.getElem?_append_left hi] at h
  exact List.mem_of_getElem? h

lemma ChainOk.index {i i' : ℕ} (hs : ChainOk s) (h : s.nodes[i]? = some x)
    (h' : s.nodes[i']? = some x) : i = i' :=
  (List.getElem?_inj (List.getElem?_eq_some_iff.mp h).1 hs.nodup).mp (h.trans h'.symm)

lemma ChainOk.taken_ne_dummyhead (hs : ChainOk s) (h : x ∈ s.pushed.map Prod.fst) :
    x ≠ s.dummyhead := by
  rintro rfl
  exact (List.nodup_cons.mp hs.nodup).1 h

lemma ChainOk.new_lt (hs : ChainOk s) (h : (s.pushers p).new = some x) : x < s.nextPtr := by
  rcases PushPc.new_cases h with ⟨t, h⟩ | ⟨oldtail, h⟩
  · exact (hs.pushers.owned p x t h).2.1
  · obtain ⟨i, -, hi⟩ := hs.pushers.linking p x oldtail h
    exact hs.lt x (List.mem_of_getElem? hi)

lemma front_congr (hp : s'.popper = s.popper) (hd : s'.dummyhead = s.dummyhead)
    (hh : (s'.heap s.dummyhead).next = (s.heap s.dummyhead).next) : s'.front = s.front := by
  rw [front, front, hp, hd, hh]

lemma PushersOk.congr (hs : PushersOk s) (hnew : ∀ p, (s'.pushers p).new = (s.pushers p).new)
    (howns : ∀ p, (s'.pushers p).owns = (s.pushers p).owns)
    (hlinks : ∀ p, (s'.pushers p).links = (s.pushers p).links) (hnodes : s'.nodes = s.nodes)
    (hn : s.nextPtr ≤ s'.nextPtr)
    (hheap : ∀ x, x ∉ s.nodes → x < s.nextPtr → s'.heap x = s.heap x) : PushersOk s' := by
  refine ⟨fun p p' x h h' => ?_, fun p x t h => ?_, fun p x oldtail h => ?_⟩
  · rw [hnew] at h h'
    exact hs.owners p p' x h h'
  · rw [howns] at h
    obtain ⟨hx, hlt, hnode⟩ := hs.owned p x t h
    exact ⟨hnodes ▸ hx, hlt.trans_le hn, (hheap x hx hlt).trans hnode⟩
  · rw [hlinks] at h
    rw [hnodes]
    exact hs.linking p x oldtail h

lemma PopperOk.congr (hs : PopperOk s) (hp : s'.popper = s.popper) (hd : s'.dummyhead = s.dummyhead)
    (hk : s'.taken = s.taken) (hret : s'.returned = s.returned)
    (hval : s'.takenValues = s.takenValues) (hf : ∀ x, s.front = some x → s'.front = some x)
    (hheap : ∀ x ∈ s.taken, (s'.heap x).live = (s.heap x).live ∧ (s'.heap x).t = (s.heap x).t) :
    PopperOk s' := by
  have hhand : ∀ x, InHand s x → InHand s' x := by
    intro x h
    rw [InHand, hk, hret, hval, (hheap x h.1).1, (hheap x h.1).2]
    exact h
  unfold PopperOk at *
  rw [hp, hd, hret, hval]
  revert hs
  split
  · exact id
  · exact id
  · exact id
  · exact id
  · exact fun h => ⟨h.1, hf _ h.2.1, h.2.2⟩
  · exact fun h => ⟨h.1, hhand _ h.2⟩
  · exact hhand _
  · exact id
  · exact id

lemma ChainOk.congr (hs : ChainOk s) (hpush : s'.pushed = s.pushed)
    (hd : s'.dummyhead = s.dummyhead) (hn : s.nextPtr ≤ s'.nextPtr) (ht : s'.tail = s.tail)
    (hk : s'.taken = s.taken) (hlive : (s'.heap s.dummyhead).live = true)
    (hheap : ∀ i x t, s.taken.length ≤ i → s.pushed[i]? = some (x, t) → s'.heap x = s.heap x)
    (hu : ∀ x, Unlinked s' x → Unlinked s x) (hf : s'.front = s.front) (hpushers : PushersOk s')
    (hpopper : PopperOk s') : ChainOk s' := by
  have hnodes : s'.nodes = s.nodes := by rw [nodes, hpush, hd, nodes]
  refine ⟨hnodes ▸ hs.nodup, fun x hx => ?_, ?_, hd ▸ hlive, ?_, fun x hx hx' => ?_,
    fun i x t hi hx => ?_, ?_, hpushers, hpopper⟩
  · exact (hs.lt x (hnodes ▸ hx)).trans_le hn
  · rw [hnodes, ht, hs.tail]
  · rw [hk, hpush]
    exact hs.taken
  · exact hs.settled x (hk ▸ hx) (hu x hx')
  · rw [hk] at hi
    rw [hpush] at hx
    obtain ⟨hlive, hval, hnext⟩ := hs.node i x t hi hx
    rw [hheap i x t hi hx, hnodes]
    exact ⟨hlive, hval, hnext.mono hu⟩
  · rw [hk, hnodes, hf]
    exact hs.front.mono hu

lemma update_keeps {β : Type*} {f : PushPc T → β} {g : ℕ → PushPc T} (h : f c = f (g p)) (q : ℕ) :
    f (Function.update g p c q) = f (g q) := by
  by_cases hq : q = p
  · subst hq
    simpa using h
  · simp [hq]

lemma unlinked_update (hlinks : c.links = (s.pushers p).links)
    (hs : s'.pushers = Function.update s.pushers p c) (x : Ptr) :
    Unlinked s' x ↔ Unlinked s x := by
  simp only [Unlinked, hs, update_keeps hlinks]

lemma ChainOk.move {cnt : ℤ} (hs : ChainOk s) (hnew : c.new = (s.pushers p).new)
    (howns : c.owns = (s.pushers p).owns) (hlinks : c.links = (s.pushers p).links) :
    ChainOk ({ s with cnt := cnt }.setPush p c) :=
  hs.congr rfl rfl le_rfl rfl rfl hs.dummyhead (fun _ _ _ _ _ => rfl)
    (fun x => (unlinked_update hlinks rfl x).mp) rfl
    (hs.pushers.congr (update_keeps hnew) (update_keeps howns) (update_keeps hlinks) rfl le_rfl
      fun _ _ _ => rfl)
    (hs.popper.congr rfl rfl rfl rfl rfl (fun _ h => h) fun _ _ => ⟨rfl, rfl⟩)

lemma heap_push (hx : x < s.nextPtr) :
    Function.update s.heap s.nextPtr (Node.new t) x = s.heap x :=
  Function.update_of_ne hx.ne ..

lemma ChainOk.front_push (hs : ChainOk s)
    (h : s' = { s.setNode s.nextPtr (.new t) with nextPtr := s.nextPtr + 1 }.setPush p
      (.load s.nextPtr t)) : s'.front = s.front := by
  subst h
  exact front_congr rfl rfl
    (congrArg Node.next (heap_push (hs.lt s.dummyhead (List.mem_cons_self ..))))

lemma pushersOk_push (hs : ChainOk s) (hp : s.pushers p = .idle) :
    PushersOk ({ s.setNode s.nextPtr (.new t) with nextPtr := s.nextPtr + 1 }.setPush p
      (.load s.nextPtr t)) := by
  refine ⟨fun q q' x h h' => ?_, fun q x t' h => ?_, fun q x oldtail h => ?_⟩
  · -- the new address lies above that of every other push
    have hlt : ∀ q, q ≠ p → (Function.update s.pushers p (.load s.nextPtr t) q).new = some x →
        x < s.nextPtr := by
      intro q hq hx
      rw [Function.update_of_ne hq] at hx
      exact hs.new_lt hx
    have hself : ∀ q, q = p → (Function.update s.pushers p (.load s.nextPtr t) q).new = some x →
        x = s.nextPtr := by
      rintro q rfl hx
      rw [Function.update_self] at hx
      exact (Option.some.inj hx).symm
    by_cases hq : q = p <;> by_cases hq' : q' = p
    · rw [hq, hq']
    · exact ((hlt q' hq' h').ne (hself q hq h)).elim
    · exact ((hlt q hq h).ne (hself q' hq' h')).elim
    · refine hs.pushers.owners q q' x ?_ ?_
      · simpa [hq] using h
      · simpa [hq'] using h'
  · by_cases hq : q = p
    · subst hq
      obtain ⟨rfl, rfl⟩ : s.nextPtr = x ∧ t = t' := by simpa [PushPc.owns] using h
      exact ⟨fun hx => (hs.lt _ hx).false, Nat.lt_succ_self _, Function.update_self ..⟩
    · obtain ⟨hx, hlt, hnode⟩ := hs.pushers.owned q x t' (by simpa [hq] using h)
      exact ⟨hx, hlt.trans (Nat.lt_succ_self _), (heap_push hlt).trans hnode⟩
  · have hlinks := update_keeps (f := PushPc.links) (g := s.pushers) (p := p)
      (c := .load s.nextPtr t) (by simp [hp, PushPc.links])
    exact hs.pushers.linking q x oldtail ((hlinks q).symm.trans h)

lemma chainOk_push (hs : ChainOk s) (hp : s.pushers p = .idle) :
    ChainOk ({ s.setNode s.nextPtr (.new t) with nextPtr := s.nextPtr + 1 }.setPush p
      (.load s.nextPtr t)) := by
  have hfront := hs.front_push (p := p) (t := t) rfl
  refine hs.congr rfl rfl (Nat.le_succ _) rfl rfl ?_
    (fun _ x _ _ hx => heap_push (hs.lt x (mem_nodes hx)))
    (fun x => (unlinked_update (by simp [hp, PushPc.links]) rfl x).mp) hfront
    (pushersOk_push hs hp)
    (hs.popper.congr rfl rfl rfl rfl rfl (fun x h => hfront.trans h) fun x hx => ?_)
  · exact (congrArg Node.live (heap_push (hs.lt _ (List.mem_cons_self ..)))).trans hs.dummyhead
  · have hlt := hs.lt x (List.mem_cons_of_mem _ (hs.taken.subset hx))
    exact ⟨congrArg Node.live (heap_push hlt), congrArg Node.t (heap_push hlt)⟩

section Exchange

variable (hp : s.pushers p = .exchange x t oldtail)
  (h : s' = { s with tail := x, pushed := s.pushed ++ [(x, t)] }.setPush p (.count x oldtail))

include h

lemma nodes_exchange : s'.nodes = s.nodes ++ [x] := by simp [h, nodes]

include hp

lemma unlinked_exchange (y : Ptr) : Unlinked s' y ↔ Unlinked s y ∨ y = x := by
  subst h
  constructor
  · rintro ⟨q, o, h⟩
    by_cases hq : q = p
    · subst hq
      obtain ⟨rfl, -⟩ : x = y ∧ oldtail = o := by simpa [PushPc.links] using h
      exact Or.inr rfl
    · exact Or.inl ⟨q, o, by simpa [hq] using h⟩
  · rintro (⟨q, o, h⟩ | rfl)
    · have hq : q ≠ p := by
        rintro rfl
        simp [hp, PushPc.links] at h
      exact ⟨q, o, by simpa [hq] using h⟩
    · exact ⟨p, oldtail, by simp [PushPc.links]⟩

lemma pushersOk_exchange (hs : ChainOk s) (htail : s.tail = oldtail) : PushersOk s' := by
  have hnodes := nodes_exchange h
  refine ⟨fun q q' y h h' => ?_, fun q y t' h => ?_, fun q y o h => ?_⟩
  · have hnew := update_keeps (f := PushPc.new) (g := s.pushers) (p := p) (c := .count x oldtail)
      (by simp [hp, PushPc.new])
    subst s'
    exact hs.pushers.owners q q' y ((hnew q).symm.trans h) ((hnew q').symm.trans h')
  · rw [hnodes, List.mem_append, not_or, List.mem_singleton]
    subst s'
    by_cases hq : q = p
    · subst hq
      simp [PushPc.owns] at h
    · obtain ⟨hy, hylt, hynode⟩ := hs.pushers.owned q y t' (by simpa [hq] using h)
      refine ⟨⟨hy, ?_⟩, hylt, hynode⟩
      rintro rfl
      have hqy := PushPc.new_of_owns (c := s.pushers q) (by simpa [hq] using h)
      exact hq (hs.pushers.owners q p y hqy (by simp [hp, PushPc.new]))
  · rw [hnodes]
    subst s'
    by_cases hq : q = p
    · subst hq
      obtain ⟨rfl, rfl⟩ : x = y ∧ oldtail = o := by simpa [PushPc.links] using h
      refine ⟨s.nodes.length - 1, ?_, by simp [nodes]⟩
      rw [List.getElem?_append_left (by simp [nodes]), ← List.getLast?_eq_getElem?, hs.tail, htail]
    · obtain ⟨i, hi, hi'⟩ := hs.pushers.linking q y o (by simpa [hq] using h)
      have hlt := (List.getElem?_eq_some_iff.mp hi').1
      refine ⟨i, ?_, ?_⟩
      · rwa [List.getElem?_append_left (by omega)]
      · rwa [List.getElem?_append_left hlt]

lemma chainOk_exchange (hs : ChainOk s) (htail : s.tail = oldtail) : ChainOk s' := by
  obtain ⟨hx, hlt, hnode⟩ := hs.pushers.owned p x t (by simp [hp, PushPc.owns])
  have hnodes := nodes_exchange h
  have hu := fun y => (unlinked_exchange hp h y).mp
  have hpushers := pushersOk_exchange hp h hs htail
  have hval : s'.takenValues = s.takenValues := by
    rw [h]
    simp [takenValues, List.take_append_of_le_length hs.taken_le]
  obtain ⟨hpushed, htaken, hheap, hfront⟩ : s'.pushed = s.pushed ++ [(x, t)] ∧
      s'.taken = s.taken ∧ s'.heap = s.heap ∧ s'.front = s.front := by
    rw [h]
    exact ⟨rfl, rfl, rfl, rfl⟩
  refine ⟨?_, fun y hy => ?_, ?_, h ▸ hs.dummyhead, ?_, fun y hy hy' => ?_,
    fun i y t' hi hy => ?_, ?_, hpushers, ?_⟩
  · rw [hnodes]
    exact hs.nodup.append (List.nodup_singleton x) (by simpa using hx)
  · have hle : s'.nextPtr = s.nextPtr := by rw [h]; rfl
    rw [hnodes] at hy
    rw [hle]
    rcases List.mem_append.mp hy with hy | hy
    · exact hs.lt y hy
    · rw [List.mem_singleton.mp hy]
      exact hlt
  · rw [hnodes, h]
    simp
  · rw [htaken, hpushed, List.map_append]
    exact hs.taken.trans (List.prefix_append ..)
  · rw [htaken] at hy
    rcases hu y hy' with hy' | rfl
    · exact hs.settled y hy hy'
    · exact hx (List.mem_cons_of_mem _ (hs.taken.subset hy))
  · rw [htaken] at hi
    rw [hpushed, List.getElem?_append] at hy
    rw [hnodes, hheap]
    split_ifs at hy with hlen
    · obtain ⟨hlive, ht, hnext⟩ := hs.node i y t' hi hy
      exact ⟨hlive, ht, hnext.append hx hu⟩
    · obtain ⟨rfl, rfl⟩ := Prod.mk.inj (List.mem_singleton.mp (List.mem_of_getElem? hy))
      rw [hnode]
      exact ⟨rfl, rfl, fun z hz => by cases hz⟩
  · rw [hnodes, htaken, hfront]
    exact hs.front.append hx hu
  · refine hs.popper.congr ?_ ?_ htaken ?_ hval (fun _ h => hfront.trans h) fun _ _ => ?_
    · rw [h]
      rfl
    · rw [h]
      rfl
    · rw [h]
      rfl
    · rw [hheap]
      exact ⟨rfl, rfl⟩

end Exchange

section Link

lemma ChainOk.link_index (hs : ChainOk s) (h : (s.pushers p).links = some (x, oldtail)) :
    ∃ i, s.taken.length ≤ i ∧ s.nodes[i]? = some oldtail ∧ s.nodes[i + 1]? = some x := by
  obtain ⟨i, hi, hi'⟩ := hs.pushers.linking p x oldtail h
  refine ⟨i, ?_, hi, hi'⟩
  by_contra hlt
  exact hs.settled x (hs.mem_taken (not_le.mp hlt) hi') ⟨p, oldtail, h⟩

lemma ChainOk.link_first (hs : ChainOk s) (h : (s.pushers p).links = some (x, s.dummyhead)) :
    s.taken = [] ∧ s.nodes[1]? = some x := by
  obtain ⟨i, hle, hi, hi'⟩ := hs.link_index h
  obtain rfl : i = 0 := hs.index hi rfl
  exact ⟨List.length_eq_zero_iff.mp (Nat.le_zero.mp hle), hi'⟩

variable (hs : ChainOk s) (hp : s.pushers p = .link x oldtail)
  (h : s' = (s.storeNext oldtail (some x)).setPush p .idle)

include hs hp h

lemma unlinked_link (y : Ptr) : Unlinked s' y ↔ Unlinked s y ∧ y ≠ x := by
  subst h
  constructor
  · rintro ⟨q, o, hq⟩
    have hqp : q ≠ p := by
      rintro rfl
      simp [PushPc.links] at hq
    rw [setPush_pushers, Function.update_of_ne hqp] at hq
    refine ⟨⟨q, o, hq⟩, ?_⟩
    rintro rfl
    exact hqp (hs.pushers.owners q p y (PushPc.new_of_links hq) (by simp [hp, PushPc.new]))
  · rintro ⟨⟨q, o, hq⟩, hne⟩
    refine ⟨q, o, ?_⟩
    rw [setPush_pushers, Function.update_of_ne]
    · exact hq
    · rintro rfl
      simp [hp, PushPc.links, hne.symm] at hq

lemma front_link : s'.front = if oldtail = s.dummyhead then some x else s.front := by
  have hpopper : s'.popper = s.popper := by rw [h]; rfl
  have hdummy : s'.dummyhead = s.dummyhead := by rw [h]; rfl
  split_ifs with hd
  · subst hd
    obtain ⟨hnil, -⟩ := hs.link_first (p := p) (x := x) (by rw [hp]; rfl)
    rw [front, hpopper, hdummy]
    split
    · -- nothing is taken, so the popper has no pointer to store
      next hpop =>
        have hok := hs.popper
        rw [PopperOk, hpop] at hok
        simpa [hnil] using hok.2.1
    · simp [h, storeNext_next]
  · refine front_congr hpopper hdummy ?_
    simp [h, storeNext_next, Ne.symm hd]

lemma pushersOk_link : PushersOk s' := by
  obtain ⟨i, -, hi, -⟩ := hs.link_index (p := p) (x := x) (by rw [hp]; rfl)
  have hkeep : ∀ q, q ≠ p → s'.pushers q = s.pushers q := fun q hq => by
    rw [h, setPush_pushers, Function.update_of_ne hq]
    rfl
  have hself : s'.pushers p = .idle := by rw [h, setPush_pushers, Function.update_self]
  have hnodes : s'.nodes = s.nodes := by rw [h]; rfl
  refine ⟨fun q q' y hq hq' => ?_, fun q y t hq => ?_, fun q y o hq => ?_⟩
  · have hne : ∀ q'', (s'.pushers q'').new = some y → q'' ≠ p := by
      rintro q'' hq'' rfl
      simp [hself, PushPc.new] at hq''
    rw [hkeep q (hne q hq)] at hq
    rw [hkeep q' (hne q' hq')] at hq'
    exact hs.pushers.owners q q' y hq hq'
  · have hne : q ≠ p := by
      rintro rfl
      simp [hself, PushPc.owns] at hq
    obtain ⟨hy, hlt, hnode⟩ := hs.pushers.owned q y t (hkeep q hne ▸ hq)
    refine ⟨hnodes ▸ hy, h ▸ hlt, ?_⟩
    rw [h, setPush_heap, storeNext_of_ne, hnode]
    rintro rfl
    exact hy (List.mem_of_getElem? hi)
  · have hne : q ≠ p := by
      rintro rfl
      simp [hself, PushPc.links] at hq
    rw [hnodes]
    exact hs.pushers.linking q y o (hkeep q hne ▸ hq)

/-- A link that is late, in a node that is taken or even freed, changes nothing that the popper will
still look at. -/
lemma chainOk_link : ChainOk s' := by
  have hlinks : (s.pushers p).links = some (x, oldtail) := by rw [hp]; rfl
  obtain ⟨i, hle, hi, hi'⟩ := hs.link_index hlinks
  have hu := unlinked_link hs hp h
  have hmono : ∀ y, Unlinked s' y → Unlinked s y := fun y hy => ((hu y).mp hy).1
  have hself : PointsTo s' (some x) (some x) := fun y hy =>
    ⟨hy, fun hn => ((hu y).mp hn).2 (Option.some.inj hy).symm⟩
  have hpushers := pushersOk_link hs hp h
  have hfront := front_link hs hp h
  have hfields : ∀ y, (s'.heap y).live = (s.heap y).live ∧ (s'.heap y).t = (s.heap y).t := by
    simp [h]
  obtain ⟨hnodes, htaken, hpushed, hval⟩ : s'.nodes = s.nodes ∧ s'.taken = s.taken ∧
      s'.pushed = s.pushed ∧ s'.takenValues = s.takenValues := by
    rw [h]
    exact ⟨rfl, rfl, rfl, rfl⟩
  refine ⟨hnodes ▸ hs.nodup, ?_, ?_, ?_, ?_, fun y hy hy' => ?_, fun j y t hj hy => ?_, ?_,
    hpushers, ?_⟩
  · rw [hnodes, h]
    exact hs.lt
  · rw [hnodes, h]
    exact hs.tail
  · rw [(hfields _).1, h]
    exact hs.dummyhead
  · rw [htaken, hpushed]
    exact hs.taken
  · exact hs.settled y (htaken ▸ hy) (hmono y hy')
  · rw [htaken] at hj
    rw [hpushed] at hy
    obtain ⟨hylive, hyt, hnext⟩ := hs.node j y t hj hy
    refine ⟨(hfields y).1.trans hylive, (hfields y).2.trans hyt, ?_⟩
    rw [h, setPush_heap, storeNext_next, ← h, hnodes]
    split_ifs with hyo
    · obtain rfl : j + 1 = i := hs.index (by simp [nodes_succ, hy]) (hyo ▸ hi)
      rw [hi']
      exact hself
    · exact hnext.mono hmono
  · rw [htaken, hnodes, hfront]
    split_ifs with hd
    · subst hd
      obtain ⟨hnil, hx⟩ := hs.link_first hlinks
      rw [hnil, List.length_nil, hx]
      exact hself
    · exact hs.front.mono hmono
  · refine hs.popper.congr (by rw [h]; rfl) (by rw [h]; rfl) htaken (by rw [h]; rfl) hval ?_
      fun y _ => hfields y
    -- a pointer that the popper has read is not one that is still to be stored
    intro y hy
    rw [hfront]
    split_ifs with hd
    · subst hd
      obtain ⟨hnil, hx⟩ := hs.link_first hlinks
      obtain ⟨hxy, hlinked⟩ := hs.front y hy
      rw [hnil, List.length_nil, hx] at hxy
      exact (hlinked (Option.some.inj hxy ▸ ⟨p, _, hlinks⟩)).elim
    · exact hy

end Link

lemma chainOk_pushStep {spurious : Bool} (hs : ChainOk s) (h : s.pushStep p spurious = some s') :
    ChainOk s' := by
  unfold pushStep at h
  split at h
  · cases h
  · next x t hp =>
    cases h
    exact hs.move (by rw [hp]; rfl) (by rw [hp]; rfl) (by rw [hp]; rfl)
  · next x t oldtail hp =>
    split_ifs at h with htail
    · exact chainOk_exchange hp (Option.some.inj h).symm hs htail.1
    · cases h
      exact hs.move (by rw [hp]; rfl) (by rw [hp]; rfl) (by rw [hp]; rfl)
  · next x oldtail hp =>
    cases h
    exact hs.move (by rw [hp]; rfl) (by rw [hp]; rfl) (by rw [hp]; rfl)
  · next x oldtail hp => exact chainOk_link hs hp (Option.some.inj h).symm

lemma touch_of_live (h : (s.heap x).live = true) : s.touch x = s := by
  rw [touch, h, Bool.not_true, Bool.or_false]

lemma PushersOk.of_popper (hs : PushersOk s) (hp : s'.pushers = s.pushers)
    (hnodes : s'.nodes = s.nodes) (hn : s'.nextPtr = s.nextPtr)
    (hheap : ∀ x, x ∉ s.nodes → s'.heap x = s.heap x) : PushersOk s' :=
  hs.congr (fun q => by rw [hp]) (fun q => by rw [hp]) (fun q => by rw [hp]) hnodes hn.ge
    fun x hx _ => hheap x hx

lemma ChainOk.setPop {c : PopPc T} (hs : ChainOk s) (hf : (s.setPop c).front = s.front)
    (hp : PopperOk (s.setPop c)) : ChainOk (s.setPop c) :=
  hs.congr rfl rfl le_rfl rfl rfl hs.dummyhead (fun _ _ _ _ _ => rfl) (fun _ h => h) hf
    (hs.pushers.of_popper rfl rfl rfl fun _ _ => rfl) hp

lemma takenValues_append (h : s.pushed[s.taken.length]? = some (x, t))
    (hp : s'.pushed = s.pushed) (hk : s'.taken = s.taken ++ [x]) :
    s'.takenValues = s.takenValues ++ [t] := by
  simp [takenValues, hp, hk, List.take_add_one, h]

lemma prefix_append_singleton {α : Type*} {l l' : List α} {a : α} (h : l <+: l')
    (ha : l'[l.length]? = some a) : l ++ [a] <+: l' := by
  obtain ⟨rest, rfl⟩ := h
  rw [List.getElem?_append_right le_rfl, Nat.sub_self] at ha
  cases rest with
  | nil => cases ha
  | cons b rest =>
    cases ha
    exact ⟨rest, by simp⟩

lemma ChainOk.next_front {d : Ptr} (hs : ChainOk s) (hp : s.popper = .next d y) :
    ∃ t, s.pushed[s.taken.length]? = some (y, t) ∧ ¬ Unlinked s y ∧ (s.heap y).live = true ∧
      (s.heap y).t = some t ∧
      PointsTo s (s.heap y).next s.nodes[s.taken.length + 2]? := by
  have hok := hs.popper
  rw [PopperOk, hp] at hok
  obtain ⟨hy, hlinked⟩ := hs.front y hok.2.1
  obtain ⟨⟨_, t⟩, hk, rfl⟩ := Option.map_eq_some_iff.mp (nodes_succ (s := s) _ ▸ hy)
  exact ⟨t, hk, hlinked, hs.node _ _ t le_rfl hk⟩

lemma chainOk_next {d : Ptr} (hs : ChainOk s) (hp : s.popper = .next d y)
    (h : s' = { s.touch y with taken := s.taken ++ [y] }.setPop (.store d y (s.heap y).next)) :
    ChainOk s' := by
  obtain ⟨hd, -, hret⟩ : d = s.dummyhead ∧ s.front = some y ∧ s.returned = s.takenValues := by
    have hok := hs.popper
    rwa [PopperOk, hp] at hok
  obtain ⟨t, hk, hlinked, hlive, ht, hnext⟩ := hs.next_front hp
  have hval : s'.takenValues = s.takenValues ++ [t] :=
    takenValues_append hk (by rw [h]; rfl) (by rw [h]; rfl)
  rw [touch_of_live hlive] at h
  subst h
  refine ⟨hs.nodup, hs.lt, hs.tail, hs.dummyhead, ?_, fun z hz => ?_, fun i z u hi hz => ?_, ?_,
    hs.pushers.of_popper rfl rfl rfl fun _ _ => rfl, ?_⟩
  · exact prefix_append_singleton hs.taken (by simp [hk])
  · rcases List.mem_append.mp hz with hz | hz
    · exact hs.settled z hz
    · rw [List.mem_singleton.mp hz]
      exact hlinked
  · exact hs.node i z u ((Nat.le_succ _).trans (by simpa using hi)) hz
  · simp only [setPop_taken, List.length_append, List.length_singleton]
    exact hnext
  · refine ⟨hd, List.mem_append_right _ (List.mem_singleton_self _), hlive, t, ht, ?_⟩
    rw [hval, ← hret]
    rfl

lemma chainOk_store {d : Ptr} (hs : ChainOk s) (hp : s.popper = .store d y n)
    (h : s' = (s.storeNext d n).setPop (.free y)) : ChainOk s' := by
  obtain ⟨rfl, hy⟩ : d = s.dummyhead ∧ InHand s y := by
    have hok := hs.popper
    rwa [PopperOk, hp] at hok
  have hheap : ∀ z, z ≠ s.dummyhead → s'.heap z = s.heap z := fun z hz => by
    rw [h, setPop_heap, storeNext_of_ne hz]
  obtain ⟨hpushed, htaken, hnodes, hpushers, hdummy, hpopper, hval⟩ : s'.pushed = s.pushed ∧
      s'.taken = s.taken ∧ s'.nodes = s.nodes ∧ s'.pushers = s.pushers ∧
      s'.dummyhead = s.dummyhead ∧ s'.popper = .free y ∧ s'.takenValues = s.takenValues := by
    rw [h]
    exact ⟨rfl, rfl, rfl, rfl, rfl, rfl, rfl⟩
  have hf : s'.front = s.front := by
    rw [front, hpopper, front, hp, hdummy]
    simp [h, storeNext_next]
  refine hs.congr hpushed hdummy (by rw [h]; exact le_rfl) (by rw [h]; rfl) htaken ?_
    (fun i z t _ hz => hheap z (hs.taken_ne_dummyhead ?_)) (fun z hz => ?_) hf ?_ ?_
  · rw [h, setPop_heap, storeNext_live]
    exact hs.dummyhead
  · exact List.mem_map.mpr ⟨_, List.mem_of_getElem? hz, rfl⟩
  · rwa [Unlinked, hpushers] at hz
  · refine hs.pushers.of_popper hpushers hnodes (by rw [h]; rfl) fun z hz => hheap z ?_
    rintro rfl
    exact hz (List.mem_cons_self ..)
  · rw [PopperOk, hpopper]
    change InHand s' y
    rw [InHand, htaken, hval, hheap y (hs.taken_ne_dummyhead (hs.taken.subset hy.1)), h]
    exact hy

lemma chainOk_free (hs : ChainOk s) (hp : s.popper = .free y) (ht : (s.heap y).t = some t)
    (h : s' = ((s.touch y).setNode y { s.heap y with t := none, live := false }).setPop
      (.sub t)) : ChainOk s' := by
  obtain ⟨hy, hlive, t', ht', hret⟩ : InHand s y := by
    have hok := hs.popper
    rwa [PopperOk, hp] at hok
  obtain rfl : t = t' := Option.some.inj (ht.symm.trans ht')
  rw [touch_of_live hlive] at h
  have hheap : ∀ z, z ≠ y → s'.heap z = s.heap z := fun z hz => by simp [h, hz]
  have hdummy := (hs.taken_ne_dummyhead (hs.taken.subset hy)).symm
  have hf : s'.front = s.front := by
    rw [h, front, front, hp]
    simp [hdummy]
  have hnode : ∀ i z u, s.taken.length ≤ i → s.pushed[i]? = some (z, u) → z ≠ y := by
    rintro i z u hi hz rfl
    obtain ⟨j, hj, hjy⟩ := List.getElem_of_mem hy
    have hy' : s.nodes[j + 1]? = some z := by
      rw [nodes, List.getElem?_cons_succ, ← hjy]
      exact List.prefix_iff_getElem?.mp hs.taken j hj
    have heq := hs.index (show s.nodes[i + 1]? = some z by simp [nodes_succ, hz]) hy'
    omega
  refine hs.congr (by rw [h]; rfl) (by rw [h]; rfl) (by rw [h]; exact le_rfl) (by rw [h]; rfl)
    (by rw [h]; rfl) ?_ (fun i z u hi hz => hheap z (hnode i z u hi hz)) (fun z hz => ?_) hf ?_ ?_
  · rw [hheap _ hdummy]
    exact hs.dummyhead
  · rwa [h] at hz
  · subst h
    refine hs.pushers.of_popper rfl rfl rfl fun z hz => hheap z ?_
    rintro rfl
    exact hz (List.mem_cons_of_mem _ (hs.taken.subset hy))
  · rw [h]
    exact hret

lemma chainOk_popStep (hs : ChainOk s) (h : s.popStep = some s') : ChainOk s' := by
  have hok := hs.popper
  unfold popStep at h
  split at h
  · cases h
  · cases h
  · next hp =>
    rw [PopperOk, hp] at hok
    split_ifs at h <;> cases h <;> exact hs.setPop (by simp [front, hp]) hok
  · next hp =>
    rw [PopperOk, hp] at hok
    cases h
    exact hs.setPop (by simp [front, hp]) ⟨rfl, hok⟩
  · next d hp =>
    rw [PopperOk, hp] at hok
    obtain ⟨rfl, hok⟩ := hok
    rw [touch_of_live hs.dummyhead] at h
    split at h
    · cases h
      exact hs.setPop (by simp [front, hp]) hok
    · next y hy =>
      cases h
      exact hs.setPop (by simp [front, hp]) ⟨rfl, by simp [front, hy], hok⟩
  · next d y hp => exact chainOk_next hs hp (Option.some.inj h).symm
  · next d y n hp => exact chainOk_store hs hp (Option.some.inj h).symm
  · next y hp =>
    rw [PopperOk, hp] at hok
    obtain ⟨-, -, t, ht, -⟩ := hok
    simp only [ht] at h
    exact chainOk_free hs hp ht (Option.some.inj h).symm
  · next t hp =>
    rw [PopperOk, hp] at hok
    cases h
    exact hs.congr rfl rfl le_rfl rfl rfl hs.dummyhead (fun _ _ _ _ _ => rfl) (fun _ h => h)
      (by simp [front, hp]) (hs.pushers.of_popper rfl rfl rfl fun _ _ => rfl) hok

lemma chainOk_step {a : Action T} (hs : ChainOk s) (h : s.step a = some s') : ChainOk s' := by
  cases a with
  | push p t =>
    simp only [step] at h
    split at h
    · next hp =>
      cases h
      exact chainOk_push hs hp
    · cases h
  | pushStep p spurious => exact chainOk_pushStep hs h
  | pop =>
    simp only [step] at h
    split at h
    · next last hp =>
      cases h
      have hok := hs.popper
      rw [PopperOk, hp] at hok
      exact hs.setPop (by simp [front, hp]) hok
    · cases h
  | popStep => exact chainOk_popStep hs h

end LockfreeMpscLinkQueue

end PaQueueAndChan.LinkQueue
