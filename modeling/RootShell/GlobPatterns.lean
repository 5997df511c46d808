import RootShell.ByteLines

/-!
Glob patterns over bytes: an asterisk stands for any run, a question mark for one
byte. The matcher keeps the last asterisk and how much of the subject it has been
given so far, and gives it one byte more whenever the rest does not fit.
-/
namespace GlobPatterns
open ByteLines

inductive Matches : Bytes → Bytes → Prop where
  | nil : Matches [] []
  | literal {c : UInt8} {p s : Bytes} (plain : c ≠ 42 ∧ c ≠ 63) (rest : Matches p s) :
      Matches (c :: p) (c :: s)
  | one {c : UInt8} {p s : Bytes} (rest : Matches p s) : Matches (63 :: p) (c :: s)
  | none {p s : Bytes} (rest : Matches p s) : Matches (42 :: p) s
  | more {c : UInt8} {p s : Bytes} (rest : Matches (42 :: p) s) : Matches (42 :: p) (c :: s)

/-- `star` holds the pattern behind the last asterisk and the subject from where it was
    last resumed. -/
def globLoop : Nat → Bytes → Bytes → Option (Bytes × Bytes) → Bool
  | _, p, [], _ => p.all (· == 42)
  | 0, _, _ :: _, _ => false
  | fuel + 1, p, c :: s, star =>
    let resume := star.elim false fun q => globLoop fuel q.1 q.2.tail (some (q.1, q.2.tail))
    match p with
    | [] => resume
    | b :: rest =>
      if b = 63 ∨ b = c then globLoop fuel rest s star
      else if b = 42 then globLoop fuel rest (c :: s) (some (rest, c :: s))
      else resume

def globFuel (pattern s : Bytes) : Nat :=
  (pattern.length + 2) * ((s.length + 2) * (pattern.length + 2))

def globMatch (pattern s : Bytes) : Bool := globLoop (globFuel pattern s) pattern s none

theorem matches_plain {p s : Bytes} (plain : 42 ∉ p ∧ 63 ∉ p) (found : Matches p s) : p = s := by
  induction found with
  | nil => rfl
  | literal _ rest ih => rw [ih ⟨fun m => plain.1 (by simp [m]), fun m => plain.2 (by simp [m])⟩]
  | one => simp at plain
  | none => simp at plain
  | more => simp at plain

theorem matches_suffix {pattern front tail s : Bytes} (split : pattern = front ++ tail)
    (plain : 42 ∉ tail ∧ 63 ∉ tail) (found : Matches pattern s) : tail <:+ s := by
  have wholly {p subject : Bytes} (same : p = tail) (found : Matches p subject) : tail <:+ subject := by
    subst same
    rw [matches_plain plain found]
  induction found generalizing front with
  | nil => exact wholly (List.append_eq_nil_iff.1 split.symm).2.symm .nil
  | literal other rest ih =>
    cases front with
    | nil => exact wholly split (.literal other rest)
    | cons d front => exact (ih (List.cons.inj split).2).trans (List.suffix_cons _ _)
  | one rest ih =>
    cases front with
    | nil => exact wholly split (.one rest)
    | cons d front => exact (ih (List.cons.inj split).2).trans (List.suffix_cons _ _)
  | none rest ih =>
    cases front with
    | nil => exact wholly split (.none rest)
    | cons d front => exact ih (List.cons.inj split).2
  | more rest ih => exact (ih split).trans (List.suffix_cons _ _)

end GlobPatterns
