import Mathlib.Algebra.Group.Int.Defs
import Mathlib.Algebra.Group.Nat.Defs
import Mathlib.Data.List.Infix

/-!
Byte strings and the lines in them. A line runs up to and including its newline
byte; a bare line end, with or without a carriage return, is a blank line.
Bytes are `List UInt8`: lists are what the proofs take apart.
-/
namespace ByteLines

variable {l m s t rest : Bytes}

abbrev Bytes := List UInt8

instance lawfulBytes : LawfulBEq Bytes := inferInstance

instance decidableBytes (P : UInt8 → Prop) [DecidablePred P] (s : Bytes) : Decidable (∀ b ∈ s, P b) :=
  List.decidableBAll P s

def text (s : String) : Bytes := s.toUTF8.data.toList

theorem every_byte {P : UInt8 → Prop} (all : ∀ n < 256, P (UInt8.ofNat n)) (b : UInt8) : P b := by
  have tried := all b.toNat b.toNat_lt
  rwa [UInt8.ofNat_toNat] at tried

def IsLine (l : Bytes) : Prop := ∃ body, l = body ++ [10] ∧ 10 ∉ body

abbrev Blank (l : Bytes) : Prop := l = [10] ∨ l = [13, 10]

theorem blank_crlf : Blank [13, 10] := Or.inr rfl

def splitLine : Bytes → Option (Bytes × Bytes)
  | [] => none
  | b :: bs => if b = 10 then some ([b], bs) else (splitLine bs).map fun p => (b :: p.1, p.2)

theorem line_length_pos (line : IsLine l) : 0 < l.length := by
  obtain ⟨body, rfl, _⟩ := line
  simp

theorem line_not_nil (line : IsLine l) : l ≠ [] := by
  have := line_length_pos line
  intro empty
  simp [empty] at this

theorem newline_mem_line (line : IsLine l) : 10 ∈ l := by
  obtain ⟨body, rfl, _⟩ := line
  simp

theorem line_cons {b : UInt8} (other : b ≠ 10) (line : IsLine l) : IsLine (b :: l) := by
  obtain ⟨body, rfl, clean⟩ := line
  exact ⟨b :: body, rfl, by simp [Ne.symm other, clean]⟩

theorem line_drop {n : Nat} (line : IsLine l) (short : n < l.length) : IsLine (l.drop n) := by
  obtain ⟨body, rfl, clean⟩ := line
  simp only [List.length_append, List.length_singleton] at short
  refine ⟨body.drop n, ?_, fun member => clean (List.mem_of_mem_drop member)⟩
  rw [List.drop_append_of_le_length (by omega)]

theorem blank_is_line (blank : Blank l) : IsLine l := by
  rcases blank with rfl | rfl
  · exact ⟨[], rfl, by simp⟩
  · exact ⟨[13], rfl, by decide⟩

theorem line_prefix_unique (first : IsLine l) (second : IsLine m) (same : l ++ s = m ++ t) : l = m ∧ s = t := by
  obtain ⟨body, rfl, clean⟩ := first
  obtain ⟨other, rfl, otherClean⟩ := second
  induction body generalizing other with
  | nil =>
    cases other with
    | nil => simpa using same
    | cons b bs =>
      simp only [List.nil_append, List.cons_append, List.cons.injEq] at same
      exact absurd same.1 (by intro eq; simp [← eq] at otherClean)
  | cons b bs ih =>
    cases other with
    | nil =>
      simp only [List.nil_append, List.cons_append, List.cons.injEq] at same
      exact absurd same.1 (by intro eq; simp [eq] at clean)
    | cons c cs =>
      simp only [List.cons_append, List.cons.injEq] at same
      obtain ⟨eq, rest⟩ := ih (by simp_all) cs (by simp_all) same.2
      exact ⟨by simp [same.1, eq], rest⟩

theorem split_line_append (line : IsLine l) (rest : Bytes) : splitLine (l ++ rest) = some (l, rest) := by
  obtain ⟨body, rfl, clean⟩ := line
  induction body with
  | nil => simp [splitLine]
  | cons b bs ih =>
    simp only [List.mem_cons, not_or] at clean
    simpa [splitLine, Ne.symm clean.1] using ih clean.2

theorem split_line_some (found : splitLine s = some (l, rest)) : s = l ++ rest ∧ IsLine l := by
  induction s generalizing l with
  | nil => simp [splitLine] at found
  | cons b bs ih =>
    simp only [splitLine] at found
    split at found
    · rename_i eq
      simp only [Option.some.injEq, Prod.mk.injEq] at found
      obtain ⟨rfl, rfl⟩ := found
      exact ⟨rfl, [], by simp [eq], by simp⟩
    · rename_i other
      simp only [Option.map_eq_some_iff, Prod.mk.injEq, Prod.exists] at found
      obtain ⟨m, t, tail, rfl, rfl⟩ := found
      obtain ⟨eq, line⟩ := ih tail
      exact ⟨by simp [eq], line_cons other line⟩

theorem split_line_none : splitLine s = none ↔ 10 ∉ s := by
  constructor
  · intro absent member
    obtain ⟨front, back, rfl, clean⟩ := List.eq_append_cons_of_mem member
    have line : IsLine (front ++ [10]) := ⟨front, rfl, clean⟩
    have found := split_line_append line back
    rw [List.append_assoc, List.singleton_append, absent] at found
    simp at found
  · intro clean
    cases found : splitLine s with
    | none => rfl
    | some p =>
      obtain ⟨l, rest⟩ := p
      obtain ⟨eq, line⟩ := split_line_some found
      exact absurd (by rw [eq]; exact List.mem_append_left _ (newline_mem_line line)) clean

theorem is_line_iff : IsLine l ↔ splitLine l = some (l, []) :=
  ⟨fun line => by simpa using split_line_append line [], fun found => (split_line_some found).2⟩

instance : DecidablePred IsLine := fun _ => decidable_of_iff _ is_line_iff.symm

end ByteLines
