import Mathlib.Data.List.AList
import Mathlib.Data.List.Dedup

/-!
Caches that keep a map from keys to the elements of a linked list, the most recently used
in front, and drop elements from its back. Elements have an identity of their own; that
the map and the list stay in step is what makes the pair one recency list of entries.
-/
namespace RecencyCaches
variable {K V : Type} {e cap old : Nat} {es : List (K × V)}

section Elements

structure Elements (V : Type) where
  order : List Nat
  value : Nat → Option V
  fresh : Nat

namespace Elements

def empty : Elements V := ⟨[], fun _ => none, 0⟩

def pushFront (l : Elements V) (v : V) : Nat × Elements V :=
  (l.fresh, ⟨l.fresh :: l.order, Function.update l.value l.fresh (some v), l.fresh + 1⟩)

def moveToFront (l : Elements V) (e : Nat) : Elements V :=
  if e ∈ l.order then { l with order := e :: l.order.erase e } else l

def remove (l : Elements V) (e : Nat) : Elements V := { l with order := l.order.erase e }

def back (l : Elements V) : Option Nat := l.order.getLast?

def len (l : Elements V) : Nat := l.order.length

def setValue (l : Elements V) (e : Nat) (v : V) : Elements V := { l with value := Function.update l.value e (some v) }

end Elements

end Elements

section Caches

structure Cache (K V : Type) where
  items : AList fun _ : K => Nat
  lru : Elements (K × V)

namespace Cache

def empty : Cache K V := ⟨∅, Elements.empty⟩

def entries (c : Cache K V) : List (K × V) := c.lru.order.filterMap c.lru.value

variable {c : Cache K V} {k : K} {v : V}

def front (c : Cache K V) (e : Nat) (k : K) (v : V) : Cache K V :=
  { c with lru := (c.lru.setValue e (k, v)).moveToFront e }

theorem front_order (member : e ∈ c.lru.order) : (c.front e k v).lru.order = e :: c.lru.order.erase e := by
  simp [front, Elements.moveToFront, Elements.setValue, member]

theorem front_value : (c.front e k v).lru.value = Function.update c.lru.value e (some (k, v)) := by
  simp only [front, Elements.moveToFront]
  split <;> rfl

theorem front_fresh : (c.front e k v).lru.fresh = c.lru.fresh := by
  simp only [front, Elements.moveToFront]
  split <;> rfl

variable [DecidableEq K]

def get (c : Cache K V) (k : K) : Option V × Cache K V :=
  match c.items.lookup k with
  | some e => ((c.lru.value e).map Prod.snd, { c with lru := c.lru.moveToFront e })
  | none => (none, c)

def trim (cap : Nat) : Nat → Cache K V → Cache K V
  | 0, c => c
  | fuel + 1, c =>
    if cap < c.lru.len then
      match c.lru.back with
      | none => c
      | some old =>
        let items := (c.lru.value old).elim c.items fun entry => c.items.erase entry.1
        trim cap fuel ⟨items, c.lru.remove old⟩
    else c

def add (cap : Nat) (c : Cache K V) (k : K) (v : V) : Cache K V :=
  let (e, lru) := c.lru.pushFront (k, v)
  trim cap lru.len ⟨c.items.insert k e, lru⟩

def put (cap : Nat) (c : Cache K V) (k : K) (v : V) : Cache K V :=
  match c.items.lookup k with
  | some e =>
    let lru := (c.lru.value e).elim c.lru fun entry => c.lru.setValue e (entry.1, v)
    { c with lru := lru.moveToFront e }
  | none => c.add cap k v

structure Coupled (c : Cache K V) : Prop where
  apart : c.lru.order.Nodup
  below : ∀ e ∈ c.lru.order, e < c.lru.fresh
  listed : ∀ e ∈ c.lru.order, ∃ k v, c.lru.value e = some (k, v) ∧ c.items.lookup k = some e
  found : ∀ k e, c.items.lookup k = some e → e ∈ c.lru.order ∧ ∃ v, c.lru.value e = some (k, v)

theorem empty_coupled : Coupled (empty : Cache K V) where
  apart := List.nodup_nil
  below := by simp [empty, Elements.empty]
  listed := by simp [empty, Elements.empty]
  found := by simp [empty]

theorem item_iff (coupled : Coupled c) :
    c.items.lookup k = some e ↔ e ∈ c.lru.order ∧ ∃ v, c.lru.value e = some (k, v) := by
  constructor
  · exact coupled.found k e
  · rintro ⟨member, v, value⟩
    obtain ⟨k', v', value', item⟩ := coupled.listed e member
    rw [value] at value'
    cases value'
    exact item

theorem mem_entries (coupled : Coupled c) :
    (k, v) ∈ c.entries ↔ ∃ e, c.items.lookup k = some e ∧ c.lru.value e = some (k, v) := by
  rw [entries, List.mem_filterMap]
  constructor
  · rintro ⟨e, member, value⟩
    exact ⟨e, (item_iff coupled).2 ⟨member, v, value⟩, value⟩
  · rintro ⟨e, item, value⟩
    exact ⟨e, (coupled.found k e item).1, value⟩

theorem mem_keys (coupled : Coupled c) : k ∈ c.entries.map Prod.fst ↔ (c.items.lookup k).isSome = true := by
  rw [List.mem_map]
  constructor
  · rintro ⟨⟨k', v⟩, member, rfl⟩
    obtain ⟨e, item, _⟩ := (mem_entries coupled).1 member
    exact Option.isSome_iff_exists.2 ⟨e, item⟩
  · intro known
    obtain ⟨e, item⟩ := Option.isSome_iff_exists.1 known
    obtain ⟨_, v, value⟩ := coupled.found k e item
    exact ⟨(k, v), (mem_entries coupled).2 ⟨e, item, value⟩, rfl⟩

theorem keys_nodup (coupled : Coupled c) : (c.entries.map Prod.fst).Nodup := by
  rw [entries, List.map_filterMap, List.Nodup, List.pairwise_filterMap]
  refine coupled.apart.imp_of_mem ?_
  intro e e' member member' other k key k' key' same
  subst same
  obtain ⟨k₁, v, value, item⟩ := coupled.listed e member
  obtain ⟨k₂, v', value', item'⟩ := coupled.listed e' member'
  simp only [value, value', Option.map_some, Option.some.injEq] at key key'
  subst key key'
  exact other (Option.some.inj (item.symm.trans item'))

theorem entries_length (coupled : Coupled c) : c.entries.length = c.lru.len := by
  have all : ∀ e ∈ c.lru.order, (c.lru.value e).isSome = true := by
    intro e member
    obtain ⟨k, v, value, _⟩ := coupled.listed e member
    rw [value]
    rfl
  rw [entries, Elements.len, List.length_filterMap_eq_countP, List.countP_eq_length]
  exact all

theorem items_perm (coupled : Coupled c) : c.items.keys.Perm (c.entries.map Prod.fst) := by
  rw [List.perm_ext_iff_of_nodup c.items.keys_nodup (keys_nodup coupled)]
  intro k
  rw [mem_keys coupled, AList.lookup_isSome, AList.mem_keys]

theorem entries_erase (coupled : Coupled c) (item : c.items.lookup k = some e) :
    (c.lru.order.erase e).filterMap c.lru.value = c.entries.filter fun p => p.1 ≠ k := by
  rw [coupled.apart.erase_eq_filter, entries, List.filterMap_filter, List.filter_filterMap]
  apply List.filterMap_congr
  intro e' member
  obtain ⟨k', v, value, item'⟩ := coupled.listed e' member
  rw [value]
  by_cases same : e' = e
  · subst same
    obtain ⟨_, v', value'⟩ := coupled.found k e' item
    rw [value] at value'
    cases value'
    simp [Option.filter]
  · have other : k' ≠ k := by
      rintro rfl
      exact same (Option.some.inj (item'.symm.trans item))
    simp [Option.filter, same, other]

section Fronts

theorem front_entries (coupled : Coupled c) (item : c.items.lookup k = some e) :
    (c.front e k v).entries = (k, v) :: c.entries.filter fun p => p.1 ≠ k := by
  obtain ⟨member, _⟩ := coupled.found k e item
  have gone : e ∉ c.lru.order.erase e := coupled.apart.not_mem_erase
  rw [entries, front_order member, front_value, List.filterMap_cons_some (Function.update_self ..),
    ← entries_erase coupled item]
  congr 1
  refine List.filterMap_congr fun e' member' => Function.update_of_ne ?_ ..
  rintro rfl
  exact gone member'

theorem front_coupled (coupled : Coupled c) (item : c.items.lookup k = some e) : Coupled (c.front e k v) := by
  obtain ⟨member, _⟩ := coupled.found k e item
  have same : ∀ e', e' ∈ (c.front e k v).lru.order ↔ e' ∈ c.lru.order := fun e' => by
    rw [front_order member]
    exact (List.perm_cons_erase member).mem_iff.symm
  constructor
  · rw [front_order member]
    exact List.nodup_cons.2 ⟨coupled.apart.not_mem_erase, coupled.apart.erase e⟩
  · intro e' member'
    rw [front_fresh]
    exact coupled.below e' ((same e').1 member')
  · intro e' member'
    rw [front_value]
    by_cases here : e' = e
    · subst here
      exact ⟨k, v, Function.update_self .., item⟩
    · rw [Function.update_of_ne here]
      exact coupled.listed e' ((same e').1 member')
  · intro k' e' item'
    obtain ⟨member', v', value'⟩ := coupled.found k' e' item'
    refine ⟨(same e').2 member', ?_⟩
    rw [front_value]
    by_cases here : e' = e
    · subst here
      obtain ⟨_, w, value⟩ := coupled.found k e' item
      cases value'.symm.trans value
      exact ⟨v, Function.update_self ..⟩
    · exact ⟨v', by rw [Function.update_of_ne here, value']⟩

end Fronts

section Trimming

theorem drop_last_coupled {order : List Nat} (coupled : Coupled c) (last : c.lru.order = order ++ [old])
    (entry : c.lru.value old = some (k, v)) : Coupled ⟨c.items.erase k, { c.lru with order := order }⟩ := by
  have apart := coupled.apart
  rw [last, List.nodup_append] at apart
  have member : old ∈ c.lru.order := by simp [last]
  have item : c.items.lookup k = some old := by
    obtain ⟨k', v', value, item⟩ := coupled.listed old member
    rw [entry] at value
    cases value
    exact item
  have inside : ∀ e ∈ order, e ∈ c.lru.order := fun e member => by simp [last, member]
  have other : ∀ e ∈ order, e ≠ old := fun e member => apart.2.2 e member old (by simp)
  constructor
  · exact apart.1
  · exact fun e member => coupled.below e (inside e member)
  · intro e member
    obtain ⟨k', v', value, item'⟩ := coupled.listed e (inside e member)
    refine ⟨k', v', value, ?_⟩
    rw [AList.lookup_erase_ne, item']
    rintro rfl
    exact other e member (Option.some.inj (item'.symm.trans item))
  · intro k' e item'
    have apart' : k' ≠ k := by
      rintro rfl
      rw [AList.lookup_erase] at item'
      cases item'
    rw [AList.lookup_erase_ne apart'] at item'
    obtain ⟨member', v', value⟩ := coupled.found k' e item'
    refine ⟨?_, v', value⟩
    rw [last, List.mem_append, List.mem_singleton] at member'
    rcases member' with here | rfl
    · exact here
    · rw [entry] at value
      cases value
      exact absurd rfl apart'

theorem trim_spec (cap fuel : Nat) (coupled : Coupled c) (budget : c.lru.len ≤ fuel) :
    Coupled (trim cap fuel c) ∧ (trim cap fuel c).entries = c.entries.take cap := by
  induction fuel generalizing c with
  | zero =>
    have none : c.entries = [] := by
      rw [← List.length_eq_zero_iff, entries_length coupled]
      omega
    simp [trim, coupled, none]
  | succ fuel ih =>
    unfold trim
    split
    · rename_i large
      have some : c.lru.order ≠ [] := by
        intro none
        simp [Elements.len, none] at large
      obtain ⟨order, old, last⟩ : ∃ order old, c.lru.order = order ++ [old] :=
        ⟨_, _, (List.dropLast_append_getLast some).symm⟩
      have back : c.lru.back = old := by rw [Elements.back, last, List.getLast?_concat]
      obtain ⟨k, v, value, _⟩ := coupled.listed old (by simp [last])
      have dropped := drop_last_coupled coupled last value
      have removed : c.lru.remove old = { c.lru with order := order } := by
        have gone := coupled.apart
        rw [last, List.nodup_append] at gone
        rw [Elements.remove, last, List.erase_append_right _ fun member => gone.2.2 old member old (by simp) rfl]
        simp
      have shorter : c.lru.len = order.length + 1 := by simp [Elements.len, last]
      simp only [back, value, Option.elim_some, removed]
      obtain ⟨coupled', kept⟩ := ih dropped (by simp only [Elements.len] at budget shorter ⊢; omega)
      refine ⟨coupled', ?_⟩
      have whole : c.entries = order.filterMap c.lru.value ++ [(k, v)] := by
        simp [entries, last, List.filterMap_append, value]
      have size : (order.filterMap c.lru.value).length = order.length := entries_length dropped
      rw [kept, whole, List.take_append_of_le_length (by omega)]
      rfl
    · rename_i small
      refine ⟨coupled, ?_⟩
      rw [List.take_of_length_le]
      rw [entries_length coupled]
      omega

end Trimming

section Operations

def store (cap : Nat) (k : K) (v : V) (es : List (K × V)) : List (K × V) :=
  ((k, v) :: es.filter fun p => p.1 ≠ k).take cap

theorem store_known {w : V} (member : (k, w) ∈ es) (fits : es.length ≤ cap) :
    store cap k v es = (k, v) :: es.filter fun p => p.1 ≠ k := by
  have fewer : (es.filter fun p => decide (p.1 ≠ k)).length < es.length :=
    List.length_filter_lt_length_iff_exists.2 ⟨(k, w), member, by simp⟩
  rw [store, List.take_of_length_le]
  rw [List.length_cons]
  omega

theorem store_new (absent : k ∉ es.map Prod.fst) : store cap k v es = ((k, v) :: es).take cap := by
  have all : es.filter (fun p => p.1 ≠ k) = es := by
    refine List.filter_eq_self.2 fun p member => decide_eq_true fun same => absent ?_
    exact List.mem_map.2 ⟨p, member, same⟩
  rw [store, all]

theorem get_miss (absent : c.items.lookup k = none) : c.get k = (none, c) := by
  simp only [get, absent]

theorem get_items (c : Cache K V) (k : K) : (c.get k).2.items = c.items := by
  unfold get
  split <;> rfl

theorem get_hit (coupled : Coupled c) (item : c.items.lookup k = some e) :
    ∃ v, c.get k = (some v, c.front e k v) ∧ (k, v) ∈ c.entries := by
  obtain ⟨member, v, value⟩ := coupled.found k e item
  refine ⟨v, ?_, (mem_entries coupled).2 ⟨e, item, value⟩⟩
  have same : c.lru.setValue e (k, v) = c.lru := by
    rw [Elements.setValue, ← value, Function.update_eq_self]
  simp only [get, item, value, Option.map_some, front, same]

theorem put_hit (cap : Nat) (coupled : Coupled c) (item : c.items.lookup k = some e) :
    c.put cap k v = c.front e k v := by
  obtain ⟨_, w, value⟩ := coupled.found k e item
  simp only [put, item, value, Option.elim_some, front]

theorem push_coupled (coupled : Coupled c) (absent : c.items.lookup k = none) :
    Coupled ⟨c.items.insert k c.lru.fresh, (c.lru.pushFront (k, v)).2⟩ := by
  have old : ∀ e ∈ c.lru.order, e ≠ c.lru.fresh := fun e member => Nat.ne_of_lt (coupled.below e member)
  constructor
  · exact List.nodup_cons.2 ⟨fun member => old _ member rfl, coupled.apart⟩
  · intro e member
    rcases List.mem_cons.1 member with rfl | inside
    · exact Nat.lt_succ_self _
    · exact Nat.lt_succ_of_lt (coupled.below e inside)
  · intro e member
    rcases List.mem_cons.1 member with rfl | inside
    · exact ⟨k, v, Function.update_self .., AList.lookup_insert _⟩
    · obtain ⟨k', v', value, item⟩ := coupled.listed e inside
      refine ⟨k', v', (Function.update_of_ne (old e inside) ..).trans value, ?_⟩
      rw [AList.lookup_insert_ne, item]
      rintro rfl
      rw [absent] at item
      cases item
  · intro k' e item
    by_cases same : k' = k
    · subst same
      rw [AList.lookup_insert] at item
      cases item
      exact ⟨List.mem_cons_self, v, Function.update_self ..⟩
    · rw [AList.lookup_insert_ne same] at item
      obtain ⟨member, v', value⟩ := coupled.found k' e item
      exact ⟨List.mem_cons_of_mem _ member, v', (Function.update_of_ne (old e member) ..).trans value⟩

theorem push_entries (coupled : Coupled c) :
    (⟨c.items.insert k c.lru.fresh, (c.lru.pushFront (k, v)).2⟩ : Cache K V).entries = (k, v) :: c.entries := by
  rw [entries, Elements.pushFront, List.filterMap_cons_some (Function.update_self ..), entries]
  congr 1
  refine List.filterMap_congr fun e member => Function.update_of_ne ?_ ..
  exact Nat.ne_of_lt (coupled.below e member)

theorem add_spec (cap : Nat) (coupled : Coupled c) (absent : c.items.lookup k = none) :
    Coupled (c.add cap k v) ∧ (c.add cap k v).entries = store cap k v c.entries := by
  obtain ⟨coupled', kept⟩ := trim_spec cap _ (push_coupled (v := v) coupled absent) (Nat.le_refl _)
  refine ⟨coupled', kept.trans ?_⟩
  rw [push_entries coupled, store_new]
  rw [mem_keys coupled, absent]
  simp

theorem put_spec (coupled : Coupled c) (fits : c.entries.length ≤ cap) :
    Coupled (c.put cap k v) ∧ (c.put cap k v).entries = store cap k v c.entries := by
  cases item : c.items.lookup k with
  | none =>
    have step : c.put cap k v = c.add cap k v := by simp only [put, item]
    rw [step]
    exact add_spec cap coupled item
  | some e =>
    obtain ⟨w, _, member⟩ := get_hit coupled item
    rw [put_hit cap coupled item, store_known member fits]
    exact ⟨front_coupled coupled item, front_entries coupled item⟩

theorem get_spec (coupled : Coupled c) (fits : c.entries.length ≤ cap) :
    (k ∉ c.entries.map Prod.fst ∧ c.get k = (none, c)) ∨
      ∃ v, (k, v) ∈ c.entries ∧ (c.get k).1 = some v ∧ Coupled (c.get k).2 ∧
        (c.get k).2.entries = store cap k v c.entries := by
  cases item : c.items.lookup k with
  | none =>
    left
    rw [mem_keys coupled, item]
    exact ⟨by simp, get_miss item⟩
  | some e =>
    right
    obtain ⟨v, got, member⟩ := get_hit coupled item
    rw [got]
    exact ⟨v, member, rfl, front_coupled coupled item,
      (front_entries coupled item).trans (store_known member fits).symm⟩

theorem mem_store {j : K} {w : V} (member : (j, w) ∈ store cap k v es) : (j = k ∧ w = v) ∨ (j ≠ k ∧ (j, w) ∈ es) := by
  rcases List.mem_cons.1 (List.mem_of_mem_take member) with here | old
  · left
    exact Prod.mk.inj here
  · right
    obtain ⟨inside, other⟩ := List.mem_filter.1 old
    exact ⟨of_decide_eq_true other, inside⟩

theorem store_length (cap : Nat) (k : K) (v : V) (es : List (K × V)) : (store cap k v es).length ≤ cap :=
  List.length_take_le _ _

theorem add_absent (cap : Nat) (coupled : Coupled c) (absent : c.items.lookup k = none) {j : K} (other : j ≠ k)
    (missing : c.items.lookup j = none) : (c.add cap k v).items.lookup j = none := by
  obtain ⟨coupled', entries⟩ := add_spec (v := v) cap coupled absent
  rw [← Option.not_isSome_iff_eq_none, ← mem_keys coupled']
  intro member
  obtain ⟨⟨_, w⟩, inside, rfl⟩ := List.mem_map.1 member
  rw [entries] at inside
  rcases mem_store inside with ⟨same, _⟩ | ⟨_, old⟩
  · exact other same
  · have known := (mem_keys coupled).1 (List.mem_map_of_mem old)
    rw [missing] at known
    cases known

end Operations

end Cache

end Caches

section Recency
variable [DecidableEq K]

/-- The keys in the order of their last use, from all uses, the newest first. -/
def recency : List K → List K
  | [] => []
  | k :: ks => k :: (recency ks).erase k

theorem recency_nodup (ks : List K) : (recency ks).Nodup := by
  induction ks with
  | nil => exact List.nodup_nil
  | cons k ks ih => exact List.nodup_cons.2 ⟨ih.not_mem_erase, ih.erase k⟩

theorem mem_recency {k : K} {ks : List K} : k ∈ recency ks ↔ k ∈ ks := by
  induction ks with
  | nil => rfl
  | cons j ks ih =>
    rw [recency, List.mem_cons, (recency_nodup ks).mem_erase_iff, ih, List.mem_cons]
    by_cases same : k = j
    · simp [same]
    · simp [same]

theorem recency_length (ks : List K) : (recency ks).length = ks.dedup.length := by
  have same : (recency ks).Perm ks.dedup := by
    rw [List.perm_ext_iff_of_nodup (recency_nodup ks) ks.nodup_dedup]
    intro k
    rw [mem_recency, List.mem_dedup]
  exact same.length_eq

theorem recency_append {k : K} {front : List K} (absent : k ∉ front) (back : List K) :
    ∃ rest, recency (front ++ k :: back) = recency front ++ k :: rest := by
  induction front with
  | nil => exact ⟨_, rfl⟩
  | cons j front ih =>
    rw [List.mem_cons, not_or] at absent
    obtain ⟨rest, split⟩ := ih absent.2
    by_cases seen : j ∈ recency front
    · exact ⟨rest, by rw [List.cons_append, recency, split, List.erase_append_left _ seen]; rfl⟩
    · refine ⟨rest.erase j, ?_⟩
      rw [List.cons_append, recency, split, List.erase_append_right _ seen, recency, List.erase_of_not_mem seen,
        List.erase_cons_tail (by simpa using absent.1)]
      rfl

omit [DecidableEq K] in
theorem mem_take_iff {k : K} {front back : List K} (absent : k ∉ front) (cap : Nat) :
    k ∈ (front ++ k :: back).take cap ↔ front.length < cap := by
  constructor
  · intro member
    by_contra short
    rw [List.take_append_of_le_length (by omega)] at member
    exact absent (List.mem_of_mem_take member)
  · intro room
    obtain ⟨more, rfl⟩ := Nat.exists_eq_add_of_lt room
    rw [Nat.add_assoc, List.take_length_add_append]
    simp

theorem recent_iff (cap : Nat) (k : K) (uses : List K) :
    k ∈ (recency uses).take cap ↔ k ∈ uses ∧ (uses.takeWhile (· ≠ k)).dedup.length < cap := by
  by_cases used : k ∈ uses
  · obtain ⟨front, back, rfl, absent⟩ := List.eq_append_cons_of_mem used
    have since : (front ++ k :: back).takeWhile (· ≠ k) = front := by
      rw [List.takeWhile_append_of_pos, List.takeWhile_cons_of_neg (by simp), List.append_nil]
      exact fun j member => decide_eq_true fun same => absent (same ▸ member)
    obtain ⟨rest, split⟩ := recency_append absent back
    rw [since, split, mem_take_iff (mt mem_recency.1 absent), recency_length]
    simp
  · refine iff_of_false (fun member => used ?_) fun both => used both.1
    exact mem_recency.1 (List.mem_of_mem_take member)

theorem take_erase_take (cap : Nat) (k : K) (ks : List K) :
    ((ks.take (cap + 1)).erase k).take cap = (ks.erase k).take cap := by
  induction ks generalizing cap with
  | nil => simp
  | cons j ks ih =>
    by_cases same : j = k
    · subst same
      rw [List.take_succ_cons, List.erase_cons_head, List.erase_cons_head, List.take_take, Nat.min_self]
    · have other : ¬ (j == k) = true := by simpa using same
      rw [List.take_succ_cons, List.erase_cons_tail other, List.erase_cons_tail other]
      cases cap with
      | zero => rfl
      | succ cap => rw [List.take_succ_cons, List.take_succ_cons, ih]

theorem take_use (cap : Nat) (k : K) (ks : List K) :
    (k :: (ks.take cap).erase k).take cap = (k :: ks.erase k).take cap := by
  cases cap with
  | zero => rfl
  | succ cap => rw [List.take_succ_cons, List.take_succ_cons, take_erase_take]

end Recency

section Traces
variable [DecidableEq K]

inductive Op (K V : Type) where
  | put (k : K) (v : V)
  | get (k : K)

/-- A cache with its past: the keys used (a get that finds nothing is no use) and the
    entries put, the newest first. -/
structure Trace (K V : Type) where
  cache : Cache K V
  uses : List K
  puts : List (K × V)

namespace Trace

def step (cap : Nat) (t : Trace K V) : Op K V → Trace K V
  | .put k v => ⟨t.cache.put cap k v, k :: t.uses, (k, v) :: t.puts⟩
  | .get k => ⟨(t.cache.get k).2, if (t.cache.get k).1.isSome then k :: t.uses else t.uses, t.puts⟩

def run (cap : Nat) (ops : List (Op K V)) : Trace K V := ops.foldl (step cap) ⟨Cache.empty, [], []⟩

def lastPut (t : Trace K V) (k : K) : Option V := (t.puts.find? fun p => p.1 = k).map Prod.snd

structure Tracked (cap : Nat) (t : Trace K V) : Prop where
  coupled : t.cache.Coupled
  keys : t.cache.entries.map Prod.fst = (recency t.uses).take cap
  values : ∀ k v, (k, v) ∈ t.cache.entries → t.lastPut k = some v

variable {t : Trace K V}

theorem tracked_fits (tracked : Tracked cap t) : t.cache.entries.length ≤ cap := by
  have length := congrArg List.length tracked.keys
  rw [List.length_map, List.length_take] at length
  omega

theorem store_keys (apart : (es.map Prod.fst).Nodup) (k : K) (v : V) :
    (Cache.store cap k v es).map Prod.fst = (k :: (es.map Prod.fst).erase k).take cap := by
  have others : (es.filter fun p => decide (p.1 ≠ k)).map Prod.fst = (es.map Prod.fst).erase k := by
    rw [apart.erase_eq_filter, List.filter_map]
    congr 1
    refine List.filter_congr fun p _ => ?_
    simp [bne, beq_eq_decide]
  rw [Cache.store, List.map_take, List.map_cons, others]

theorem tracked_step (tracked : Tracked cap t) (op : Op K V) : Tracked cap (t.step cap op) := by
  have apart := Cache.keys_nodup tracked.coupled
  have fits := tracked_fits tracked
  cases op with
  | put k v =>
    obtain ⟨coupled, entries⟩ := Cache.put_spec (k := k) (v := v) tracked.coupled fits
    refine ⟨coupled, ?_, ?_⟩
    · rw [step, entries, store_keys apart, tracked.keys, take_use]
      rfl
    · intro j w member
      rw [step, entries] at member
      rcases Cache.mem_store member with ⟨rfl, rfl⟩ | ⟨other, old⟩
      · simp [step, lastPut]
      · simpa [step, lastPut, Ne.symm other] using tracked.values j w old
  | get k =>
    rcases Cache.get_spec (k := k) tracked.coupled fits with ⟨_, missed⟩ | ⟨v, member, got, coupled, entries⟩
    · rw [step, missed]
      exact ⟨tracked.coupled, tracked.keys, tracked.values⟩
    · rw [step, got]
      refine ⟨coupled, ?_, ?_⟩
      · rw [entries, store_keys apart, tracked.keys, take_use]
        rfl
      · intro j w inside
        rw [entries] at inside
        rcases Cache.mem_store inside with ⟨rfl, rfl⟩ | ⟨_, old⟩
        · exact tracked.values j w member
        · exact tracked.values j w old

theorem tracked_run (cap : Nat) (ops : List (Op K V)) : Tracked cap (run cap ops) := by
  suffices steps : ∀ t : Trace K V, Tracked cap t → Tracked cap (ops.foldl (step cap) t) by
    exact steps _ ⟨Cache.empty_coupled, by simp [Cache.empty, Cache.entries, Elements.empty, recency],
      by simp [Cache.empty, Cache.entries, Elements.empty]⟩
  induction ops with
  | nil => exact fun t tracked => tracked
  | cons op ops ih => exact fun t tracked => ih _ (tracked_step tracked op)

theorem tracked_get (tracked : Tracked cap t) (k : K) :
    (t.cache.get k).1 =
      if k ∈ t.uses ∧ (t.uses.takeWhile (· ≠ k)).dedup.length < cap then t.lastPut k else none := by
  have present := recent_iff cap k t.uses
  rw [← tracked.keys] at present
  rcases Cache.get_spec (k := k) tracked.coupled (tracked_fits tracked) with ⟨absent, missed⟩ | ⟨v, member, got, _⟩
  · rw [if_neg (mt present.2 absent), missed]
  · rw [if_pos (present.1 (List.mem_map.2 ⟨(k, v), member, rfl⟩)), got, tracked.values k v member]

end Trace

end Traces

end RecencyCaches
