import Mathlib.Data.List.GetD

/-!
Arrays and the slices that view them. A write shows in every slice over the cells that it
changes. Appending writes in place as long as the capacity allows, whoever else looks at the
cells, and moves to a new array otherwise.
-/
namespace SliceViews
universe u
variable {α : Type u}

structure Memory (α : Type u) where
  cell : Nat → Nat → α
  next : Nat

structure Slice where
  array : Nat
  offset : Nat
  len : Nat
  cap : Nat
  deriving DecidableEq

def Memory.view (m : Memory α) (s : Slice) : List α := (List.range s.len).map fun i => m.cell s.array (s.offset + i)

def Memory.write (m : Memory α) (array start : Nat) (data : List α) : Memory α where
  cell a i := if a = array ∧ start ≤ i then data.getD (i - start) (m.cell a i) else m.cell a i
  next := m.next

def Memory.alloc (m : Memory α) (data : List α) (cap : Nat) : Memory α × Slice :=
  ({ m.write m.next 0 data with next := m.next + 1 }, ⟨m.next, 0, data.length, cap⟩)

/-- `grow` is the capacity that the runtime chooses for a new array. -/
def Memory.append (grow : Nat → Nat → Nat) (m : Memory α) (s : Slice) (data : List α) : Memory α × Slice :=
  if s.len + data.length ≤ s.cap then
    (m.write s.array (s.offset + s.len) data, { s with len := s.len + data.length })
  else m.alloc (m.view s ++ data) (max (s.len + data.length) (grow s.cap (s.len + data.length)))

def Slice.drop (s : Slice) (count : Nat) : Slice := ⟨s.array, s.offset + count, s.len - count, s.cap - count⟩

def Apart (s : Slice) (array start count : Nat) : Prop :=
  s.array = array → s.offset + s.len ≤ start ∨ start + count ≤ s.offset

instance decidableApart (s : Slice) (array start count : Nat) : Decidable (Apart s array start count) :=
  inferInstanceAs (Decidable (_ → _))

section Views
variable {m : Memory α} {s : Slice} {data : List α}

@[simp] theorem view_length (m : Memory α) (s : Slice) : (m.view s).length = s.len := by
  simp [Memory.view]

theorem view_drop (m : Memory α) (s : Slice) (count : Nat) : m.view (s.drop count) = (m.view s).drop count := by
  apply List.ext_getElem
  · simp [Slice.drop]
  · intro i first second
    simp only [Memory.view, Slice.drop, List.getElem_map, List.getElem_range, List.getElem_drop, Nat.add_assoc]

theorem view_write_apart {array start : Nat} (apart : Apart s array start data.length) :
    (m.write array start data).view s = m.view s := by
  unfold Memory.view
  apply List.map_congr_left
  intro i inside
  have bound := List.mem_range.1 inside
  simp only [Memory.write]
  split
  · rename_i here
    rcases apart here.1 with before | behind
    · omega
    · exact List.getD_eq_default _ _ (by omega)
  · rfl

theorem view_write (m : Memory α) (array start cap : Nat) (data : List α) :
    (m.write array start data).view ⟨array, start, data.length, cap⟩ = data := by
  apply List.ext_getElem
  · simp
  · intro i first second
    simp [Memory.view, Memory.write, List.getElem?_eq_getElem second]

theorem view_split (m : Memory α) (s : Slice) (more cap : Nat) :
    m.view { s with len := s.len + more } = m.view s ++ m.view ⟨s.array, s.offset + s.len, more, cap⟩ := by
  simp only [Memory.view, List.range_add, List.map_append, List.map_map, Function.comp_def, Nat.add_assoc]

theorem alloc_view (m : Memory α) (data : List α) (cap : Nat) :
    (m.alloc data cap).1.view (m.alloc data cap).2 = data :=
  view_write m m.next 0 cap data

theorem alloc_keeps {cap : Nat} (known : s.array < m.next) : (m.alloc data cap).1.view s = m.view s := by
  have apart : Apart s m.next 0 data.length := by
    intro same
    omega
  exact view_write_apart apart

variable (grow : Nat → Nat → Nat)

theorem append_view (m : Memory α) (s : Slice) (data : List α) :
    (m.append grow s data).1.view (m.append grow s data).2 = m.view s ++ data := by
  unfold Memory.append
  split
  · have before : Apart s s.array (s.offset + s.len) data.length := fun _ => .inl (Nat.le_refl _)
    dsimp only
    rw [view_split _ s data.length data.length, view_write_apart before, view_write]
  · exact alloc_view _ _ _

theorem append_keeps {v : Slice} (known : v.array < m.next)
    (apart : s.len + data.length ≤ s.cap → Apart v s.array (s.offset + s.len) data.length) :
    (m.append grow s data).1.view v = m.view v := by
  unfold Memory.append
  split
  · rename_i room
    exact view_write_apart (apart room)
  · exact alloc_keeps known

theorem append_next (m : Memory α) (s : Slice) (data : List α) : m.next ≤ (m.append grow s data).1.next := by
  unfold Memory.append
  split
  · exact Nat.le_refl _
  · exact Nat.le_succ _

theorem append_known (known : s.array < m.next) : (m.append grow s data).2.array < (m.append grow s data).1.next := by
  unfold Memory.append
  split
  · exact known
  · exact Nat.lt_succ_self _

end Views

end SliceViews
