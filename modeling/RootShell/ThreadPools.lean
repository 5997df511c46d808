import RootShell.Interleaving
import Mathlib.Algebra.BigOperators.Group.Finset.Basic
import Mathlib.Algebra.BigOperators.Fin
import Mathlib.Algebra.Order.BigOperators.Group.Finset
import Mathlib.Tactic.Abel

/-!
Threads that run the same program over shared data. A counter that every move changes by as much
as it changes what the moving thread holds is the sum of what the threads hold, and threads that
can always move towards their end can all be brought there.
-/
namespace ThreadPools
open Interleaving
universe u v w x
variable {S : Type u} {F : Type v} {A : Type w} {B : Type x} {n : Nat}

structure Pool (S : Type u) (F : Type v) (n : Nat) where
  shared : S
  locals : Fin n → F

inductive Action (A : Type w) (B : Type x) (n : Nat) where
  | own (i : Fin n) (a : A)
  | outer (b : B)

structure Moves (S : Type u) (F : Type v) (A : Type w) (B : Type x) (n : Nat) where
  own : Fin n → S → F → A → Option (S × F)
  outer : S → B → Option S

def Pool.after (p : Pool S F n) (i : Fin n) (r : S × F) : Pool S F n :=
  ⟨r.1, Function.update p.locals i r.2⟩

def step (moves : Moves S F A B n) (p : Pool S F n) : Action A B n → Option (Pool S F n)
  | .own i a => (moves.own i p.shared (p.locals i) a).map (p.after i)
  | .outer b => (moves.outer p.shared b).map fun s => { p with shared := s }

variable {moves : Moves S F A B n} {p q : Pool S F n}

theorem step_own {i : Fin n} {a : A} (taken : step moves p (.own i a) = some q) :
    ∃ s f, moves.own i p.shared (p.locals i) a = some (s, f) ∧ q = p.after i (s, f) := by
  obtain ⟨r, moved, same⟩ := Option.map_eq_some_iff.1 taken
  exact ⟨r.1, r.2, moved, same.symm⟩

theorem step_outer {b : B} (taken : step moves p (.outer b) = some q) :
    ∃ s, moves.outer p.shared b = some s ∧ q = { p with shared := s } := by
  obtain ⟨s, moved, same⟩ := Option.map_eq_some_iff.1 taken
  exact ⟨s, moved, same.symm⟩

@[simp] theorem after_shared (p : Pool S F n) (i : Fin n) (r : S × F) : (p.after i r).shared = r.1 := rfl

theorem after_locals (p : Pool S F n) (i : Fin n) (r : S × F) (j : Fin n) :
    (p.after i r).locals j = if j = i then r.2 else p.locals j := Function.update_apply _ _ _ _

@[simp] theorem after_own (p : Pool S F n) (i : Fin n) (r : S × F) : (p.after i r).locals i = r.2 :=
  Function.update_self _ _ _

section Tallies
universe y
variable {M : Type y} [AddCommGroup M]

theorem sum_update (g : F → M) (l : Fin n → F) (i : Fin n) (f : F) :
    ∑ j, g (Function.update l i f j) = ∑ j, g (l j) + (g f - g (l i)) := by
  have others : ∑ j ∈ Finset.univ.erase i, g (Function.update l i f j) = ∑ j ∈ Finset.univ.erase i, g (l j) := by
    apply Finset.sum_congr rfl
    intro j listed
    rw [Function.update_of_ne (Finset.ne_of_mem_erase listed)]
  rw [← Finset.add_sum_erase Finset.univ (fun j => g (l j)) (Finset.mem_univ i),
    ← Finset.add_sum_erase Finset.univ (fun j => g (Function.update l i f j)) (Finset.mem_univ i), others,
    Function.update_self]
  abel

def Pool.total (g : F → M) (p : Pool S F n) : M := ∑ i, g (p.locals i)

theorem total_after (g : F → M) (p : Pool S F n) (i : Fin n) (r : S × F) :
    (p.after i r).total g = p.total g + (g r.2 - g (p.locals i)) := sum_update g p.locals i r.2

structure Balanced (moves : Moves S F A B n) (P : Fin n → F → Prop) (c : S → M) (g : F → M) : Prop where
  own : ∀ i s f a t h, P i f → moves.own i s f a = some (t, h) → c t - c s = g h - g f
  outer : ∀ s b t, moves.outer s b = some t → c t = c s

theorem Balanced.step {P : Fin n → F → Prop} {c : S → M} {g : F → M} (balanced : Balanced moves P c g)
    {a : Action A B n} (taken : step moves p a = some q) (known : ∀ i, P i (p.locals i))
    (even : c p.shared = p.total g) : c q.shared = q.total g := by
  cases a with
  | own i a =>
    obtain ⟨s, f, moved, rfl⟩ := step_own taken
    have change := balanced.own i _ _ _ _ _ (known i) moved
    rw [total_after, ← even, ← change]
    simp
  | outer b =>
    obtain ⟨s, moved, rfl⟩ := step_outer taken
    exact (balanced.outer _ _ _ moved).trans even

theorem le_total {g : F → Int} (nonneg : ∀ f, 0 ≤ g f) (p : Pool S F n) (i : Fin n) : g (p.locals i) ≤ p.total g :=
  Finset.single_le_sum (f := fun j => g (p.locals j)) (fun j _ => nonneg (p.locals j)) (Finset.mem_univ i)

theorem sum_bounds {g : Fin n → Int} (unit : ∀ i, 0 ≤ g i ∧ g i ≤ 1) : 0 ≤ ∑ i, g i ∧ ∑ i, g i ≤ n := by
  constructor
  · exact Finset.sum_nonneg fun i _ => (unit i).1
  · calc ∑ i, g i ≤ ∑ _i : Fin n, 1 := Finset.sum_le_sum fun i _ => (unit i).2
      _ = n := by simp

theorem total_zero {g : F → M} (none : ∀ i, g (p.locals i) = 0) : p.total g = 0 :=
  Finset.sum_eq_zero fun i _ => none i

end Tallies

section Links

/-- A relation between what is shared and each thread, which every move of the thread keeps and no move
    of another one, or of the rest, breaks. -/
structure Linked (moves : Moves S F A B n) (L : Fin n → S → F → Prop) : Prop where
  own : ∀ i s f a t h, moves.own i s f a = some (t, h) → L i s f → L i t h
  frame : ∀ i j s f a t h g, moves.own i s f a = some (t, h) → j ≠ i → L j s g → L j t g
  outer : ∀ s b t (l : Fin n → F), moves.outer s b = some t → (∀ i, L i s (l i)) → ∀ i, L i t (l i)

theorem Linked.step {L : Fin n → S → F → Prop} (linked : Linked moves L) {a : Action A B n}
    (taken : step moves p a = some q) (held : ∀ i, L i p.shared (p.locals i)) (i : Fin n) :
    L i q.shared (q.locals i) := by
  cases a with
  | own j a =>
    obtain ⟨s, f, moved, rfl⟩ := step_own taken
    rw [after_locals]
    split
    · rename_i same
      subst same
      exact linked.own i _ _ _ _ _ moved (held i)
    · rename_i other
      exact linked.frame j i _ _ _ _ _ _ moved other (held i)
  | outer b =>
    obtain ⟨s, moved, rfl⟩ := step_outer taken
    exact linked.outer _ _ _ _ moved held i

end Links

section Draining
variable {I : Pool S F n → Prop}

def onlyOwn : List (Action A B n) → Prop := List.Forall fun a => ∃ i b, a = .own i b

/-- If in every state of an invariant each unfinished thread has a move that brings it nearer to its end,
    the threads alone can bring the pool to a state in which all have finished. -/
theorem drains (moves : Moves S F A B n) (final : F → Prop) (rank : F → Nat)
    (keeps : ∀ p a q, I p → step moves p a = some q → I q)
    (progress : ∀ p i, I p → ¬ final (p.locals i) →
      ∃ a s f, moves.own i p.shared (p.locals i) a = some (s, f) ∧ rank f < rank (p.locals i))
    (p : Pool S F n) (inside : I p) :
    ∃ as q, onlyOwn as ∧ run (step moves) p as = some q ∧ I q ∧ ∀ i, final (q.locals i) := by
  -- on the sum of the ranks, which the chosen move lowers
  induction measure : ∑ i, rank (p.locals i) using Nat.strongRecOn generalizing p with
  | ind m ih =>
    by_cases finished : ∀ i, final (p.locals i)
    · exact ⟨[], p, trivial, rfl, inside, finished⟩
    · obtain ⟨i, unfinished⟩ := not_forall.1 finished
      obtain ⟨a, s, f, moved, nearer⟩ := progress p i inside unfinished
      have taken : step moves p (.own i a) = some (p.after i (s, f)) := by
        simp [step, moved]
      have lower : ∑ j, rank ((p.after i (s, f)).locals j) < m := by
        rw [← measure]
        apply Finset.sum_lt_sum
        · intro j _
          rw [after_locals]
          split
          · rename_i same
            subst same
            exact nearer.le
          · exact le_rfl
        · exact ⟨i, Finset.mem_univ i, by simpa using nearer⟩
      obtain ⟨as, q, own, reached, all⟩ := ih _ lower _ (keeps _ _ _ inside taken) rfl
      refine ⟨.own i a :: as, q, ?_, ?_, all⟩
      · exact (List.forall_cons _ _ _).2 ⟨⟨i, a, rfl⟩, own⟩
      · rw [run_cons, taken]
        exact reached

end Draining

end ThreadPools
