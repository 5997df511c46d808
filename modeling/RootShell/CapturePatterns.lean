import Mathlib.Data.List.TakeWhile

/-!
Regular expressions that are anchored at both ends and made of single elements and captured runs
of one class each. Where every run is followed by an element outside of its class, or by the end,
the captures are unique and a scan from the left finds them.
-/
namespace CapturePatterns
universe u
variable {A : Type u}

inductive Item (A : Type u) where
  | lit (a : A)
  | run (cls : A → Bool)
  | optional (cls : A → Bool)

inductive Matches : List (Item A) → List A → List (List A) → Prop
  | nil : Matches [] [] []
  | lit {parts : List (Item A)} {s : List A} {captures : List (List A)} (a : A) (rest : Matches parts s captures) :
      Matches (.lit a :: parts) (a :: s) captures
  | run {parts : List (Item A)} {s w : List A} {captures : List (List A)} {cls : A → Bool} (some : w ≠ [])
      (inside : ∀ a ∈ w, cls a = true) (rest : Matches parts s captures) :
      Matches (.run cls :: parts) (w ++ s) (w :: captures)
  | optional {parts : List (Item A)} {s w : List A} {captures : List (List A)} {cls : A → Bool}
      (inside : ∀ a ∈ w, cls a = true) (rest : Matches parts s captures) :
      Matches (.optional cls :: parts) (w ++ s) (w :: captures)

variable [DecidableEq A]

/-- The scan from the left, with the longest run each time. -/
def capture : List (Item A) → List A → Option (List (List A))
  | [], s => if s = [] then some [] else none
  | .lit a :: parts, s => if s.head? = some a then capture parts s.tail else none
  | .run cls :: parts, s =>
    if s.takeWhile cls = [] then none
    else (capture parts (s.dropWhile cls)).map (s.takeWhile cls :: ·)
  | .optional cls :: parts, s => (capture parts (s.dropWhile cls)).map (s.takeWhile cls :: ·)

def Stops (cls : A → Bool) : List (Item A) → Prop
  | [] => True
  | .lit a :: _ => cls a = false
  | _ => False

def Firm : List (Item A) → Prop
  | [] => True
  | .lit _ :: parts => Firm parts
  | .run cls :: parts => Stops cls parts ∧ Firm parts
  | .optional cls :: parts => Stops cls parts ∧ Firm parts

variable {s : List A} {cls : A → Bool} {parts : List (Item A)} {captures : List (List A)}

omit [DecidableEq A] in
theorem run_stop (stops : Stops cls parts) (rest : Matches parts s captures) : ∀ a ∈ s.head?, cls a = false := by
  cases rest with
  | nil => simp
  | lit a rest => simpa [Stops] using stops
  | run some inside rest => exact stops.elim
  | optional inside rest => exact stops.elim

variable {w : List A}

omit [DecidableEq A] in
theorem take_run (inside : ∀ a ∈ w, cls a = true) (stop : ∀ a ∈ s.head?, cls a = false) :
    (w ++ s).takeWhile cls = w ∧ (w ++ s).dropWhile cls = s := by
  have ends : s.takeWhile cls = [] ∧ s.dropWhile cls = s := by
    cases s with
    | nil => exact ⟨rfl, rfl⟩
    | cons a s =>
      have outside := stop a rfl
      exact ⟨List.takeWhile_cons_of_neg (by simp [outside]), List.dropWhile_cons_of_neg (by simp [outside])⟩
  rw [List.takeWhile_append_of_pos inside, List.dropWhile_append_of_pos inside, ends.1, ends.2, List.append_nil]
  exact ⟨rfl, rfl⟩

omit [DecidableEq A] in
theorem run_unique {w' s' : List A} (inside : ∀ a ∈ w, cls a = true)
    (stop : ∀ a ∈ s.head?, cls a = false) (inside' : ∀ a ∈ w', cls a = true) (stop' : ∀ a ∈ s'.head?, cls a = false)
    (same : w ++ s = w' ++ s') : w = w' ∧ s = s' := by
  obtain ⟨taken, dropped⟩ := take_run inside stop
  obtain ⟨taken', dropped'⟩ := take_run inside' stop'
  rw [same] at taken dropped
  exact ⟨taken.symm.trans taken', dropped.symm.trans dropped'⟩

theorem capture_lit (a : A) (parts : List (Item A)) (s : List A) :
    capture (.lit a :: parts) (a :: s) = capture parts s :=
  if_pos rfl

theorem capture_lit_other {a : A} (other : s.head? ≠ some a) (parts : List (Item A)) :
    capture (.lit a :: parts) s = none :=
  if_neg other

theorem capture_run (some : w ≠ []) (inside : ∀ a ∈ w, cls a = true) (stop : ∀ a ∈ s.head?, cls a = false)
    (parts : List (Item A)) : capture (.run cls :: parts) (w ++ s) = (capture parts s).map (w :: ·) := by
  obtain ⟨taken, dropped⟩ := take_run inside stop
  rw [capture, taken, dropped, if_neg some]

theorem capture_optional (inside : ∀ a ∈ w, cls a = true) (stop : ∀ a ∈ s.head?, cls a = false)
    (parts : List (Item A)) : capture (.optional cls :: parts) (w ++ s) = (capture parts s).map (w :: ·) := by
  obtain ⟨taken, dropped⟩ := take_run inside stop
  rw [capture, taken, dropped]

theorem capture_matches (found : capture parts s = some captures) : Matches parts s captures := by
  induction parts generalizing s captures with
  | nil =>
    unfold capture at found
    split at found
    · rename_i empty
      cases found
      rw [empty]
      exact .nil
    · cases found
  | cons part parts ih =>
    cases part with
    | lit a =>
      rw [capture] at found
      split at found
      · rename_i first
        cases s with
        | nil => cases first
        | cons b s =>
          cases first
          exact .lit _ (ih found)
      · cases found
    | run cls =>
      rw [capture] at found
      split at found
      · cases found
      · rename_i some
        obtain ⟨rest, further, rfl⟩ := Option.map_eq_some_iff.1 found
        have inside : ∀ a ∈ s.takeWhile cls, cls a = true := fun a member => List.mem_takeWhile_imp member
        have whole := Matches.run some inside (ih further)
        rwa [List.takeWhile_append_dropWhile] at whole
    | optional cls =>
      rw [capture] at found
      obtain ⟨rest, further, rfl⟩ := Option.map_eq_some_iff.1 found
      have inside : ∀ a ∈ s.takeWhile cls, cls a = true := fun a member => List.mem_takeWhile_imp member
      have whole := Matches.optional inside (ih further)
      rwa [List.takeWhile_append_dropWhile] at whole

theorem capture_iff (firm : Firm parts) : capture parts s = some captures ↔ Matches parts s captures := by
  refine ⟨capture_matches, fun matched => ?_⟩
  induction matched with
  | nil => rfl
  | lit a rest ih => rw [capture_lit, ih firm]
  | run some inside rest ih => rw [capture_run some inside (run_stop firm.1 rest), ih firm.2, Option.map_some]
  | optional inside rest ih => rw [capture_optional inside (run_stop firm.1 rest), ih firm.2, Option.map_some]

theorem capture_none (never : ∀ captures, ¬ Matches parts s captures) : capture parts s = none := by
  cases found : capture parts s with
  | none => rfl
  | some captures => exact absurd (capture_matches found) (never captures)

end CapturePatterns
