import Mathlib.Data.List.Basic

/-!
Stream transformers that are given their input in pieces. What a piece yields depends on a
state that is carried from one piece to the next; the yardstick is what the whole input
yields when it is given at once.
-/
namespace PiecewiseFeeds
universe u v w
variable {S : Type u} {A : Type v} {B : Type w} {feed : S → List A → S × List B} {whole : List A → S × List B}
  {seam : List A → List A → Prop}

def feedAll (feed : S → List A → S × List B) : S → List (List A) → S × List B
  | s, [] => (s, [])
  | s, piece :: pieces =>
    ((feedAll feed (feed s piece).1 pieces).1, (feed s piece).2 ++ (feedAll feed (feed s piece).1 pieces).2)

structure Follows (feed : S → List A → S × List B) (whole : List A → S × List B)
    (seam : List A → List A → Prop) : Prop where
  state : ∀ before piece, (feed (whole before).1 piece).1 = (whole (before ++ piece)).1
  smooth : ∀ before piece, ¬ seam before piece →
    (whole before).2 ++ (feed (whole before).1 piece).2 = (whole (before ++ piece)).2
  longer : ∀ before piece, seam before piece →
    (whole (before ++ piece)).2.length < (whole before).2.length + (feed (whole before).1 piece).2.length

theorem feed_all_state (follows : Follows feed whole seam) (before : List A) (pieces : List (List A)) :
    (feedAll feed (whole before).1 pieces).1 = (whole (before ++ pieces.flatten)).1 := by
  induction pieces generalizing before with
  | nil => simp [feedAll]
  | cons piece pieces ih =>
    rw [feedAll, follows.state, ih]
    simp

theorem feed_all_length (follows : Follows feed whole seam) (before : List A) (pieces : List (List A)) :
    (whole (before ++ pieces.flatten)).2.length ≤
      (whole before).2.length + (feedAll feed (whole before).1 pieces).2.length := by
  induction pieces generalizing before with
  | nil => simp [feedAll]
  | cons piece pieces ih =>
    have later := ih (before ++ piece)
    have here : (whole (before ++ piece)).2.length ≤
        (whole before).2.length + (feed (whole before).1 piece).2.length := by
      by_cases torn : seam before piece
      · exact Nat.le_of_lt (follows.longer before piece torn)
      · have lengths := congrArg List.length (follows.smooth before piece torn)
        rw [List.length_append] at lengths
        omega
    rw [feedAll, follows.state]
    simp only [List.flatten_cons, List.length_append, ← List.append_assoc] at later ⊢
    omega

theorem feed_all_from_iff (follows : Follows feed whole seam) (before : List A) (pieces : List (List A)) :
    (whole before).2 ++ (feedAll feed (whole before).1 pieces).2 = (whole (before ++ pieces.flatten)).2 ↔
      ∀ front piece back, pieces = front ++ piece :: back → ¬ seam (before ++ front.flatten) piece := by
  induction pieces generalizing before with
  | nil => simp [feedAll]
  | cons piece pieces ih =>
    rw [feedAll, follows.state]
    by_cases torn : seam before piece
    · -- the surplus of this piece cannot be made up for later
      have surplus := follows.longer before piece torn
      have later := feed_all_length follows (before ++ piece) pieces
      constructor
      · intro same
        have lengths := congrArg List.length same
        simp only [List.flatten_cons, List.length_append, ← List.append_assoc] at lengths later
        omega
      · intro smooth
        exact absurd (by simpa using torn) (smooth [] piece pieces rfl)
    · have here := follows.smooth before piece torn
      rw [← List.append_assoc, here, List.flatten_cons, ← List.append_assoc, ih (before ++ piece)]
      constructor
      · intro smooth front next back split
        cases front with
        | nil =>
          obtain ⟨rfl, rfl⟩ := List.cons.inj split
          simpa using torn
        | cons first front =>
          obtain ⟨rfl, rest⟩ := List.cons.inj split
          simpa using smooth front next back rest
      · intro smooth front next back split
        simpa using smooth (piece :: front) next back (by rw [split]; rfl)

/-- Pieces and whole input agree exactly when no piece starts at a seam. -/
theorem feed_all_eq_iff (follows : Follows feed whole seam) {start : S} (empty : whole [] = (start, []))
    (pieces : List (List A)) :
    feedAll feed start pieces = whole pieces.flatten ↔
      ∀ front piece back, pieces = front ++ piece :: back → ¬ seam front.flatten piece := by
  have state := feed_all_state follows [] pieces
  have yields := feed_all_from_iff follows [] pieces
  simp only [empty, List.nil_append] at state yields
  rw [← yields, Prod.ext_iff]
  exact ⟨fun same => same.2, fun same => ⟨state, same⟩⟩

theorem feed_all_stateless (f : List A → List B) (pieces : List (List A)) :
    (feedAll (fun _ piece => ((), f piece)) () pieces).2 = pieces.flatMap f := by
  induction pieces with
  | nil => rfl
  | cons piece pieces ih => rw [feedAll, List.flatMap_cons, ← ih]

theorem rounds_yield {R : Type u} (loop : List R → List B) {yields : R → List B} {stops : R → Bool} {rounds : List R}
    (done : loop [] = [])
    (round : ∀ r ∈ rounds, ∀ rest, loop (r :: rest) = yields r ++ if stops r then [] else loop rest)
    (live : ∀ r ∈ rounds.dropLast, stops r = false) : loop rounds = rounds.flatMap yields := by
  induction rounds with
  | nil => exact done
  | cons r rounds ih =>
    have later : loop rounds = rounds.flatMap yields := by
      refine ih (fun other member => round other (by simp [member])) ?_
      intro other member
      cases rounds with
      | nil => simp at member
      | cons next rounds => exact live other (by simp [member])
    have rest : (if stops r then [] else loop rounds) = loop rounds := by
      cases rounds with
      | nil => simp [done]
      | cons next rounds => simp [live r (by simp)]
    rw [round r (by simp), rest, later, List.flatMap_cons]

end PiecewiseFeeds
