import Mathlib.Algebra.Group.Nat.Defs

/-!
Checksums of the Internet protocols: sums of 16-bit words whose carries are folded back
in. A folded sum keeps the residue modulo 65535 and is zero only for the sum zero, so
adding the complement of a sum to it folds to all ones.
-/
namespace OnesComplement

variable {sum : Nat}

/-- The words have their high byte first, and an odd last byte is the high byte of a word. -/
def wordSum : List UInt8 → Nat
  | [] => 0
  | [a] => a.toNat * 256
  | a :: b :: rest => a.toNat * 256 + b.toNat + wordSum rest

theorem word_sum_append (s t : List UInt8) (even : s.length % 2 = 0) : wordSum (s ++ t) = wordSum s + wordSum t := by
  induction s using wordSum.induct with
  | case1 => simp [wordSum]
  | case2 a => simp at even
  | case3 a b rest ih =>
    simp only [List.length_cons] at even
    have rest' := ih (by omega)
    simp only [List.cons_append, wordSum, rest']
    omega

theorem word_sum_le (s : List UInt8) : wordSum s ≤ (s.length + 1) / 2 * 65535 := by
  induction s using wordSum.induct with
  | case1 => simp [wordSum]
  | case2 a =>
    have := a.toNat_lt
    simp only [wordSum, List.length_singleton]
    omega
  | case3 a b rest ih =>
    have := a.toNat_lt
    have := b.toNat_lt
    simp only [wordSum, List.length_cons]
    omega

def foldLoop : Nat → Nat → Nat
  | 0, sum => sum
  | fuel + 1, sum => if 65535 < sum then foldLoop fuel (sum / 65536 + sum % 65536) else sum

/-- Every round makes the sum smaller, so it is fuel enough for itself. -/
def fold (sum : Nat) : Nat := foldLoop sum sum

theorem fold_loop_spec (fuel sum : Nat) (budget : sum ≤ fuel) :
    foldLoop fuel sum ≤ 65535 ∧ foldLoop fuel sum % 65535 = sum % 65535 ∧ (0 < sum → 0 < foldLoop fuel sum) := by
  induction fuel generalizing sum with
  | zero =>
    have zero : sum = 0 := by omega
    simp [foldLoop, zero]
  | succ fuel ih =>
    unfold foldLoop
    split
    · obtain ⟨small, residue, positive⟩ := ih (sum / 65536 + sum % 65536) (by omega)
      refine ⟨small, ?_, fun _ => positive (by omega)⟩
      rw [residue]
      omega
    · exact ⟨by omega, rfl, id⟩

theorem fold_le (sum : Nat) : fold sum ≤ 65535 := (fold_loop_spec sum sum (Nat.le_refl _)).1

theorem fold_residue (sum : Nat) : fold sum % 65535 = sum % 65535 := (fold_loop_spec sum sum (Nat.le_refl _)).2.1

theorem fold_pos (positive : 0 < sum) : 0 < fold sum :=
  (fold_loop_spec sum sum (Nat.le_refl _)).2.2 positive

theorem fold_ones (positive : 0 < sum) (residue : sum % 65535 = 0) : fold sum = 65535 := by
  have := fold_le sum
  have := fold_residue sum
  have := fold_pos positive
  omega

theorem fold_complement (positive : 0 < sum) : fold (sum + (65535 - fold sum)) = 65535 := by
  have := fold_le sum
  have := fold_residue sum
  exact fold_ones (by omega) (by omega)

theorem fold_all_ones (zero : 65535 - fold sum = 0) : fold (sum + 65535) = 65535 := by
  have := fold_le sum
  have := fold_residue sum
  exact fold_ones (by omega) (by omega)

end OnesComplement
