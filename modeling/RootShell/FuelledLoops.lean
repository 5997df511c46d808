import Mathlib.Order.Basic

/-!
Loops over a list that are given fuel. Where every round goes on with a shorter list, the
fuel does not matter as long as there is as much of it as there are elements.
-/
namespace FuelledLoops
universe u v
variable {A : Type u} {R : Type v} {loop : Nat → List A → R}

def Shrinking (loop : Nat → List A → R) : Prop :=
  ∀ a s f g, (∀ t : List A, t.length ≤ s.length → loop f t = loop g t) → loop (f + 1) (a :: s) = loop (g + 1) (a :: s)

theorem enough_fuel (done : ∀ fuel, loop fuel [] = loop 0 []) (shrinking : Shrinking loop) {s : List A} {f g : Nat}
    (first : s.length ≤ f) (second : s.length ≤ g) : loop f s = loop g s := by
  induction f generalizing g s with
  | zero =>
    rw [List.length_eq_zero_iff.1 (Nat.le_zero.1 first)]
    exact (done g).symm
  | succ f ih =>
    cases s with
    | nil => exact (done (f + 1)).trans (done g).symm
    | cons a s =>
      cases g with
      | zero => exact absurd second (Nat.not_succ_le_zero _)
      | succ g =>
        refine shrinking a s f g ?_
        intro t shorter
        exact ih (Nat.le_trans shorter (Nat.le_of_succ_le_succ first))
          (Nat.le_trans shorter (Nat.le_of_succ_le_succ second))

end FuelledLoops
