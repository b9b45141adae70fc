import Mathlib.Algebra.BigOperators.Group.List.Basic
import Mathlib.Algebra.Order.Group.Multiset
import Mathlib.Order.Basic
import Mathlib.Data.List.Nodup

/-! Finite maps as strictly sorted association lists. An ordered map is read in this order; a hash
map is read in the order that an `IterOrder` makes of it. -/

namespace PaQueueAndChan.Library

variable {κ β : Type*}

structure FinMap (κ β : Type*) [LT κ] where
  entries : List (κ × β)
  sorted : entries.Pairwise (fun x y => x.1 < y.1)

/-- One order in which a hash map may hand out its entries. -/
structure IterOrder (α : Type*) where
  order : List α → List α
  perm : ∀ l, (order l).Perm l

def IterOrder.stored {α : Type*} : IterOrder α := ⟨id, fun _ => .rfl⟩

@[simp] lemma IterOrder.mem_order {α : Type*} (o : IterOrder α) (l : List α) (x : α) :
    x ∈ o.order l ↔ x ∈ l := (o.perm l).mem_iff

def insertEntry [LT κ] [DecidableLT κ] [DecidableEq κ] (k : κ) (b : β) : List (κ × β) → List (κ × β)
  | [] => [(k, b)]
  | e :: es =>
    if k < e.1 then (k, b) :: e :: es
    else if k = e.1 then (k, b) :: es
    else e :: insertEntry k b es

section sorted

variable [LinearOrder κ]

lemma insertEntry_perm (k : κ) (b : β) (es : List (κ × β))
    (h : es.Pairwise (fun x y => x.1 < y.1)) :
    (insertEntry k b es).Perm ((k, b) :: es.filter (fun e => e.1 ≠ k)) := by
  induction es with
  | nil => simp [insertEntry]
  | cons e es ih =>
    obtain ⟨he, hes⟩ := List.pairwise_cons.mp h
    have hrest : k < e.1 ∨ k = e.1 → es.filter (fun e => e.1 ≠ k) = es := by
      intro hk
      apply List.filter_eq_self.mpr
      intro x hx
      have := he x hx
      rcases hk with hk | rfl
      · simpa using (hk.trans this).ne'
      · simpa using this.ne'
    simp only [insertEntry]
    split_ifs with hlt heq
    · rw [List.filter_cons_of_pos (by simpa using hlt.ne'), hrest (Or.inl hlt)]
    · rw [List.filter_cons_of_neg (by simpa using heq.symm), hrest (Or.inr heq)]
    · rw [List.filter_cons_of_pos (by simpa using fun h => heq h.symm)]
      exact ((ih hes).cons e).trans (List.Perm.swap _ _ _)

lemma insertEntry_sorted (k : κ) (b : β) (es : List (κ × β))
    (h : es.Pairwise (fun x y => x.1 < y.1)) :
    (insertEntry k b es).Pairwise (fun x y => x.1 < y.1) := by
  induction es with
  | nil => simp [insertEntry]
  | cons e es ih =>
    obtain ⟨he, hes⟩ := List.pairwise_cons.mp h
    simp only [insertEntry]
    split_ifs with hlt heq
    · refine List.pairwise_cons.mpr ⟨fun x hx => ?_, h⟩
      rcases List.mem_cons.mp hx with rfl | hx
      · exact hlt
      · exact hlt.trans (he x hx)
    · refine List.pairwise_cons.mpr ⟨fun x hx => ?_, hes⟩
      simpa only [heq] using he x hx
    · refine List.pairwise_cons.mpr ⟨fun x hx => ?_, ih hes⟩
      have hmem := (insertEntry_perm k b es hes).mem_iff.mp hx
      rcases List.mem_cons.mp hmem with rfl | hmem
      · exact lt_of_le_of_ne (not_lt.mp hlt) (fun h => heq h.symm)
      · exact he x (List.mem_of_mem_filter hmem)

end sorted

namespace FinMap

variable [LinearOrder κ]

def empty : FinMap κ β := ⟨[], .nil⟩

def get (m : FinMap κ β) (k : κ) : Option β := (m.entries.find? (fun e => e.1 = k)).map Prod.snd

def contains (m : FinMap κ β) (k : κ) : Bool := (m.get k).isSome

def isEmpty (m : FinMap κ β) : Bool := m.entries.isEmpty

def keys (m : FinMap κ β) : List κ := m.entries.map Prod.fst

def insert (m : FinMap κ β) (k : κ) (b : β) : FinMap κ β :=
  ⟨insertEntry k b m.entries, insertEntry_sorted k b m.entries m.sorted⟩

def erase (m : FinMap κ β) (k : κ) : FinMap κ β :=
  ⟨m.entries.filter (fun e => e.1 ≠ k), m.sorted.filter _⟩

def modify (m : FinMap κ β) (k : κ) (f : β → β) : FinMap κ β :=
  ⟨m.entries.map (fun e => if e.1 = k then (e.1, f e.2) else e), by
    refine List.pairwise_map.mpr (m.sorted.imp fun {x y} h => ?_)
    split_ifs <;> exact h⟩

instance : Inhabited (FinMap κ β) := ⟨empty⟩

def total {M : Type*} [AddCommMonoid M] (m : FinMap κ β) (f : κ × β → M) : M :=
  (m.entries.map f).sum

def ofList (l : List (κ × β)) : FinMap κ β := l.foldr (fun e m => m.insert e.1 e.2) empty

variable {m : FinMap κ β} {k k' : κ} {b : β}

lemma keys_sorted (m : FinMap κ β) : m.keys.Pairwise (· < ·) := List.pairwise_map.mpr m.sorted

lemma keys_nodup (m : FinMap κ β) : m.keys.Nodup := m.keys_sorted.imp ne_of_lt

lemma eq_of_mem {b' : β} (h : (k, b) ∈ m.entries) (h' : (k, b') ∈ m.entries) : b = b' := by
  have := List.inj_on_of_nodup_map m.keys_nodup h h' rfl
  exact (Prod.mk.inj this).2

lemma get_eq_some : m.get k = some b ↔ (k, b) ∈ m.entries := by
  simp only [get, Option.map_eq_some_iff]
  constructor
  · rintro ⟨e, he, rfl⟩
    have hk := List.find?_some he
    obtain rfl : e.1 = k := by simpa using hk
    exact List.mem_of_find?_eq_some he
  · intro h
    cases hf : m.entries.find? (fun e => decide (e.1 = k)) with
    | none => simpa using List.find?_eq_none.mp hf _ h
    | some e =>
      have hk : e.1 = k := by simpa using List.find?_some hf
      refine ⟨e, rfl, ?_⟩
      subst hk
      exact eq_of_mem (List.mem_of_find?_eq_some hf) h

lemma get_eq_none : m.get k = none ↔ ∀ b, (k, b) ∉ m.entries := by
  constructor
  · intro h b hb
    rw [get_eq_some.mpr hb] at h
    cases h
  · intro h
    cases hg : m.get k with
    | none => rfl
    | some b => exact (h b (get_eq_some.mp hg)).elim

lemma mem_keys : k ∈ m.keys ↔ ∃ b, m.get k = some b := by
  simp [keys, get_eq_some]

lemma contains_iff : m.contains k = true ↔ ∃ b, m.get k = some b := by
  simp [contains, Option.isSome_iff_exists]

lemma contains_eq_false : m.contains k = false ↔ m.get k = none := by
  simp [contains]

@[simp] lemma get_empty : (empty : FinMap κ β).get k = none := rfl

lemma mem_insert {e : κ × β} :
    e ∈ (m.insert k b).entries ↔ e = (k, b) ∨ e ∈ m.entries ∧ e.1 ≠ k := by
  simp only [insert, (insertEntry_perm k b m.entries m.sorted).mem_iff, List.mem_cons,
    List.mem_filter, decide_eq_true_eq]

lemma entries_insert_of_lt (h : ∀ e ∈ m.entries, e.1 < k) :
    (m.insert k b).entries = m.entries ++ [(k, b)] := by
  have hlist : ∀ es : List (κ × β), (∀ e ∈ es, e.1 < k) → insertEntry k b es = es ++ [(k, b)] := by
    intro es hes
    induction es with
    | nil => rfl
    | cons e es ih =>
      have he := hes e (List.mem_cons_self ..)
      rw [insertEntry, if_neg he.not_gt, if_neg he.ne',
        ih fun x hx => hes x (List.mem_cons_of_mem e hx)]
      rfl
  exact hlist m.entries h

lemma mem_erase {e : κ × β} : e ∈ (m.erase k).entries ↔ e ∈ m.entries ∧ e.1 ≠ k := by
  simp [erase]

lemma get_insert : (m.insert k b).get k' = if k' = k then some b else m.get k' := by
  apply Option.ext
  intro c
  split_ifs with h
  · subst h
    rw [get_eq_some, mem_insert]
    simp [eq_comm]
  · simp [get_eq_some, mem_insert, h]

@[simp] lemma get_insert_self : (m.insert k b).get k = some b := by simp [get_insert]

lemma get_insert_of_ne (h : k' ≠ k) : (m.insert k b).get k' = m.get k' := by simp [get_insert, h]

lemma get_erase : (m.erase k).get k' = if k' = k then none else m.get k' := by
  apply Option.ext
  intro c
  split_ifs with h
  · simp [get_eq_some, mem_erase, h]
  · simp [get_eq_some, mem_erase, h]

lemma get_erase_eq_some : (m.erase k).get k' = some b ↔ k' ≠ k ∧ m.get k' = some b := by
  rw [get_erase]
  split_ifs with h <;> simp [h]

@[simp] lemma get_erase_self : (m.erase k).get k = none := by simp [get_erase]

lemma get_modify {f : β → β} :
    (m.modify k f).get k' = if k' = k then (m.get k).map f else m.get k' := by
  apply Option.ext
  intro c
  split_ifs with h
  · subst h
    simp only [get_eq_some, modify, List.mem_map, Option.map_eq_some_iff, Prod.exists]
    constructor
    · rintro ⟨x, y, hm, he⟩
      split_ifs at he with hx
      · subst hx
        exact ⟨y, hm, (Prod.mk.inj he).2⟩
      · exact absurd (Prod.mk.inj he).1 hx
    · rintro ⟨y, hm, rfl⟩
      exact ⟨k', y, hm, by simp⟩
  · simp only [get_eq_some, modify, List.mem_map, Prod.exists]
    constructor
    · rintro ⟨x, y, hm, he⟩
      split_ifs at he with hx
      · exact absurd ((Prod.mk.inj he).1.symm.trans hx) h
      · obtain ⟨rfl, rfl⟩ := Prod.mk.inj he
        exact hm
    · intro hm
      exact ⟨k', c, hm, by simp [h]⟩

@[simp] lemma contains_modify {f : β → β} : (m.modify k f).contains k' = m.contains k' := by
  rw [contains, get_modify, contains]
  split_ifs with h
  · rw [h, Option.isSome_map]
  · rfl

@[simp] lemma keys_modify {f : β → β} : (m.modify k f).keys = m.keys := by
  simp only [keys, modify, List.map_map]
  apply List.map_congr_left
  intro e _
  simp only [Function.comp_apply]
  split_ifs <;> rfl

lemma isEmpty_iff : m.isEmpty = true ↔ ∀ k, m.get k = none := by
  simp only [isEmpty, List.isEmpty_iff, get_eq_none]
  constructor
  · intro h k b
    simp [h]
  · intro h
    exact List.eq_nil_iff_forall_not_mem.mpr fun e => h e.1 e.2

lemma perm_erase (h : m.get k = some b) : m.entries.Perm ((k, b) :: (m.erase k).entries) := by
  refine (List.perm_ext_iff_of_nodup (List.Nodup.of_map _ m.keys_nodup) ?_).mpr fun e => ?_
  · refine List.nodup_cons.mpr ⟨by simp [mem_erase], List.Nodup.of_map _ (m.erase k).keys_nodup⟩
  · rw [List.mem_cons, mem_erase]
    constructor
    · intro he
      by_cases hk : e.1 = k
      · subst hk
        exact Or.inl (Prod.ext rfl (eq_of_mem he (get_eq_some.mp h)))
      · exact Or.inr ⟨he, hk⟩
    · rintro (rfl | ⟨he, _⟩)
      · exact get_eq_some.mp h
      · exact he

lemma entries_of_get (h : m.get k = some b) :
    ∃ l l', m.entries = l ++ (k, b) :: l' ∧ (m.erase k).entries = l ++ l' := by
  obtain ⟨l, l', hl⟩ := List.append_of_mem (get_eq_some.mp h)
  refine ⟨l, l', hl, ?_⟩
  have hs := m.sorted
  rw [hl, List.pairwise_append, List.pairwise_cons] at hs
  obtain ⟨-, ⟨hafter, -⟩, hbefore⟩ := hs
  have hkeep : ∀ es : List (κ × β), (∀ e ∈ es, e.1 ≠ k) → es.filter (fun e => e.1 ≠ k) = es :=
    fun es hes => List.filter_eq_self.mpr fun e he => by simpa using hes e he
  simp only [erase, hl, List.filter_append]
  rw [hkeep l fun e he => (hbefore e he _ (List.mem_cons_self ..)).ne,
    List.filter_cons_of_neg (by simp), hkeep l' fun e he => (hafter e he).ne']

lemma erase_of_get_eq_none (h : m.get k = none) : (m.erase k).entries = m.entries := by
  apply List.filter_eq_self.mpr
  intro e he
  have := get_eq_none.mp h e.2
  simp only [ne_eq, decide_not, Bool.not_eq_eq_eq_not, Bool.not_true, decide_eq_false_iff_not]
  rintro rfl
  exact this he

lemma ext_get {m m' : FinMap κ β} (h : ∀ k, m.get k = m'.get k) : m = m' := by
  have hperm : m.entries.Perm m'.entries := by
    refine (List.perm_ext_iff_of_nodup (List.Nodup.of_map _ m.keys_nodup)
      (List.Nodup.of_map _ m'.keys_nodup)).mpr fun e => ?_
    rw [← get_eq_some (m := m) (k := e.1) (b := e.2), ← get_eq_some (m := m'), h]
  obtain ⟨es, hs⟩ := m
  obtain ⟨es', hs'⟩ := m'
  congr 1
  exact hperm.eq_of_pairwise (fun x y _ _ hxy hyx => (lt_asymm hxy hyx).elim) hs hs'

lemma get_ofList {l : List (κ × β)} (h : l.Pairwise fun x y => x.1 ≠ y.1) :
    (ofList l).get k = some b ↔ (k, b) ∈ l := by
  induction l with
  | nil => simp [ofList]
  | cons e l ih =>
    obtain ⟨k', b'⟩ := e
    obtain ⟨he, hl⟩ := List.pairwise_cons.mp h
    change ((ofList l).insert k' b').get k = some b ↔ _
    rw [get_insert, List.mem_cons, Prod.mk.injEq]
    split_ifs with hk
    · subst hk
      constructor
      · intro hb
        exact Or.inl ⟨rfl, (Option.some.inj hb).symm⟩
      · rintro (⟨-, rfl⟩ | hmem)
        · rfl
        · exact (he _ hmem rfl).elim
    · rw [ih hl]
      simp [hk]

lemma erase_insert : (m.insert k b).erase k = m.erase k := by
  apply ext_get
  intro k'
  simp only [get_erase, get_insert]
  split_ifs <;> rfl

lemma erase_modify {f : β → β} : (m.modify k f).erase k = m.erase k := by
  apply ext_get
  intro k'
  simp only [get_erase, get_modify]
  split_ifs <;> rfl

section total

variable {M : Type*} [AddCommMonoid M] {f : κ × β → M}

@[simp] lemma total_empty : (empty : FinMap κ β).total f = 0 := rfl

lemma total_of_get (h : m.get k = some b) : m.total f = f (k, b) + (m.erase k).total f := by
  simp [total, ((perm_erase h).map f).sum_eq]

lemma total_insert : (m.insert k b).total f = f (k, b) + (m.erase k).total f := by
  rw [total_of_get get_insert_self, erase_insert]

lemma total_erase_of_get_eq_none (h : m.get k = none) : (m.erase k).total f = m.total f := by
  simp only [total, erase_of_get_eq_none h]

lemma total_modify {g : β → β} (h : m.get k = some b) :
    (m.modify k g).total f = f (k, g b) + (m.erase k).total f := by
  have hg : (m.modify k g).get k = some (g b) := by simp [get_modify, h]
  rw [total_of_get hg, erase_modify]

lemma mem_total {α : Type*} {f : κ × β → Multiset α} {x : α} :
    x ∈ m.total f ↔ ∃ k b, m.get k = some b ∧ x ∈ f (k, b) := by
  have hsum : ∀ es : List (κ × β), x ∈ (es.map f).sum ↔ ∃ e ∈ es, x ∈ f e := by
    intro es
    induction es with
    | nil => simp
    | cons e es ih => simp [ih]
  simp [total, hsum, get_eq_some]

end total

end FinMap

end PaQueueAndChan.Library
