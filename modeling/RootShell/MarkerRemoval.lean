import RootShell.FuelledLoops
import RootShell.PiecewiseFeeds
import Mathlib.Data.List.Infix

/-!
Replacing every occurrence of a fixed marker in a sequence. A marker whose first element does not
come back in it never overlaps itself, so one pass from the left removes exactly the elements that
lie in some occurrence. Done piece by piece, the pass misses the occurrences that end in another
piece than they start in, and only those.
-/
namespace MarkerRemoval
open FuelledLoops PiecewiseFeeds
universe u
variable {A : Type u} [DecidableEq A] {s : List A}

def replaceLoop (marker new : List A) : Nat → List A → List A
  | _, [] => []
  | 0, s => s
  | fuel + 1, b :: s =>
    if marker.isPrefixOf (b :: s) then new ++ replaceLoop marker new fuel ((b :: s).drop marker.length)
    else b :: replaceLoop marker new fuel s

/-- bytes.ReplaceAll for a marker that is not empty. -/
def replaceAll (marker new s : List A) : List A := replaceLoop marker new s.length s

structure Solid (marker : List A) : Prop where
  nonempty : marker ≠ []
  once : ∀ a ∈ marker.head?, a ∉ marker.tail

def Covered (marker s : List A) (i : Nat) : Prop :=
  ∃ j, j ≤ i ∧ i < j + marker.length ∧ marker <+: s.drop j

def keepAt (P : Nat → Prop) [DecidablePred P] : List A → List A
  | [] => []
  | b :: s => if P 0 then b :: keepAt (fun i => P (i + 1)) s else keepAt (fun i => P (i + 1)) s

open Classical in
noncomputable def outside (marker s : List A) : List A := keepAt (fun i => ¬ Covered marker s i) s

def Straddles (marker before piece : List A) : Prop :=
  ∃ x y, x ≠ [] ∧ y ≠ [] ∧ marker = x ++ y ∧ x <:+ before ∧ y <+: piece

section Passing
variable {marker new : List A}

theorem replace_loop_fuel (nonempty : marker ≠ []) {fuel : Nat} (budget : s.length ≤ fuel) :
    replaceLoop marker new fuel s = replaceAll marker new s := by
  refine enough_fuel ?_ ?_ budget (Nat.le_refl _)
  · intro fuel
    cases fuel <;> rfl
  · intro b s f g same
    have positive := List.length_pos_of_ne_nil nonempty
    have shorter : ((b :: s).drop marker.length).length ≤ s.length := by
      rw [List.length_drop, List.length_cons]
      omega
    simp only [replaceLoop, same _ shorter, same s (Nat.le_refl _)]

theorem replace_all_marker (nonempty : marker ≠ []) (s : List A) :
    replaceAll marker new (marker ++ s) = new ++ replaceAll marker new s := by
  cases marker with
  | nil => contradiction
  | cons a marker =>
    have front : (a :: marker).isPrefixOf (a :: (marker ++ s)) = true := by simp
    rw [replaceAll, List.cons_append, List.length_cons, replaceLoop, if_pos front, List.length_cons,
      List.drop_succ_cons, List.drop_left, replace_loop_fuel nonempty (by simp)]

theorem replace_all_keep {b : A} (plain : ¬ marker <+: b :: s) :
    replaceAll marker new (b :: s) = b :: replaceAll marker new s := by
  rw [replaceAll, List.length_cons, replaceLoop, if_neg (by simpa using plain)]
  rfl

theorem replace_all_short (short : s.length < marker.length) : replaceAll marker new s = s := by
  induction s with
  | nil => rfl
  | cons b s ih =>
    rw [replace_all_keep fun front => by have := front.length_le; omega, ih (by simp at short; omega)]

theorem removal_induction (nonempty : marker ≠ []) {P : List A → Prop} (nil : P [])
    (occurrence : ∀ s, P s → P (marker ++ s)) (element : ∀ b s, ¬ marker <+: b :: s → P s → P (b :: s))
    (s : List A) : P s := by
  induction len : s.length using Nat.strongRecOn generalizing s with
  | ind n ih =>
    cases s with
    | nil => exact nil
    | cons b s =>
      by_cases front : marker <+: b :: s
      · obtain ⟨rest, eq⟩ := front
        have positive := List.length_pos_of_ne_nil nonempty
        rw [← eq] at len ⊢
        rw [List.length_append] at len
        exact occurrence rest (ih rest.length (by omega) rest rfl)
      · exact element b s front (ih s.length (by simp at len; omega) s rfl)

end Passing

section Positions
variable {marker : List A}

omit [DecidableEq A] in
theorem keep_at_congr {P Q : Nat → Prop} [DecidablePred P] [DecidablePred Q] (same : ∀ i, P i ↔ Q i) (s : List A) :
    keepAt P s = keepAt Q s := by
  induction s generalizing P Q with
  | nil => rfl
  | cons b s ih => simp only [keepAt, same 0, ih fun i => same (i + 1)]

omit [DecidableEq A] in
theorem keep_at_append (P : Nat → Prop) [DecidablePred P] (s t : List A) :
    keepAt P (s ++ t) = keepAt P s ++ keepAt (fun i => P (i + s.length)) t := by
  induction s generalizing P with
  | nil => rfl
  | cons b s ih =>
    have shift : ∀ i, P (i + s.length + 1) ↔ P (i + (b :: s).length) := fun i => by rw [List.length_cons]; rfl
    rw [List.cons_append, keepAt, keepAt, ih, keep_at_congr shift]
    split <;> rfl

omit [DecidableEq A] in
theorem keep_at_none {P : Nat → Prop} [DecidablePred P] (none : ∀ i < s.length, ¬ P i) : keepAt P s = [] := by
  induction s generalizing P with
  | nil => rfl
  | cons b s ih =>
    rw [keepAt, if_neg (none 0 (by simp)), ih fun i less => none (i + 1) (by simpa using less)]

omit [DecidableEq A] in
theorem covered_element {b : A} (plain : ¬ marker <+: b :: s) (i : Nat) :
    (¬ Covered marker (b :: s) 0) ∧ (Covered marker (b :: s) (i + 1) ↔ Covered marker s i) := by
  refine ⟨?_, ?_, ?_⟩
  · rintro ⟨j, low, _, front⟩
    have zero : j = 0 := by omega
    exact plain (by simpa [zero] using front)
  · rintro ⟨j, low, high, front⟩
    cases j with
    | zero => exact absurd front plain
    | succ j => exact ⟨j, by omega, by omega, front⟩
  · rintro ⟨j, low, high, front⟩
    exact ⟨j + 1, by omega, by omega, front⟩

omit [DecidableEq A] in
theorem covered_occurrence (solid : Solid marker) (s : List A) (i : Nat) :
    Covered marker (marker ++ s) (i + marker.length) ↔ Covered marker s i := by
  constructor
  · rintro ⟨j, low, high, front⟩
    rcases Nat.lt_or_ge j marker.length with inside | after
    · exfalso
      -- an occurrence that starts inside the marker brings its first element back
      have later : 0 < j := by omega
      obtain ⟨a, m, rfl⟩ := List.exists_cons_of_ne_nil solid.nonempty
      rw [List.drop_append_of_le_length (Nat.le_of_lt inside), List.drop_eq_getElem_cons inside, List.cons_append,
        List.cons_prefix_cons] at front
      refine solid.once a rfl ?_
      rw [front.1, List.tail_cons, List.getElem_cons, dif_neg (by omega)]
      exact List.getElem_mem _
    · refine ⟨j - marker.length, by omega, by omega, ?_⟩
      rwa [List.drop_append, List.drop_of_length_le after, List.nil_append] at front
  · rintro ⟨j, low, high, front⟩
    refine ⟨j + marker.length, by omega, by omega, ?_⟩
    rwa [List.drop_append, List.drop_of_length_le (by omega), List.nil_append, Nat.add_sub_cancel]

theorem removal_outside (solid : Solid marker) (s : List A) : replaceAll marker [] s = outside marker s := by
  classical
  induction s using removal_induction solid.nonempty with
  | nil => rfl
  | occurrence s ih =>
    have inside : ∀ i < marker.length, ¬ ¬ Covered marker (marker ++ s) i := fun i less =>
      not_not.2 ⟨0, Nat.zero_le _, by omega, List.prefix_append _ _⟩
    rw [replace_all_marker solid.nonempty, List.nil_append, ih, outside, outside, keep_at_append, keep_at_none inside,
      List.nil_append]
    exact keep_at_congr (fun i => not_congr (covered_occurrence solid s i).symm) s
  | element b s plain ih =>
    rw [replace_all_keep plain, ih, outside, outside, keepAt, if_pos (covered_element plain 0).1]
    rw [keep_at_congr fun i => not_congr (covered_element plain i).2]

end Positions

section Seams
variable {marker new : List A}

omit [DecidableEq A] in
theorem solid_apart (solid : Solid marker) {x y : List A} {a : A} (eq : marker = x ++ a :: y) (some : x ≠ []) :
    marker.head? ≠ Option.some a := by
  intro head
  apply solid.once a head
  cases x with
  | nil => contradiction
  | cons b x => simp [eq]

theorem replace_all_append (nonempty : marker ≠ []) {before piece : List A} (smooth : ¬ Straddles marker before piece) :
    replaceAll marker new (before ++ piece) = replaceAll marker new before ++ replaceAll marker new piece := by
  induction before using removal_induction nonempty with
  | nil => rfl
  | occurrence before ih =>
    have later : ¬ Straddles marker before piece := by
      rintro ⟨x, y, hx, hy, eq, back, front⟩
      exact smooth ⟨x, y, hx, hy, eq, back.trans (List.suffix_append _ _), front⟩
    rw [List.append_assoc, replace_all_marker nonempty, replace_all_marker nonempty, ih later, List.append_assoc]
  | element b before plain ih =>
    have later : ¬ Straddles marker before piece := by
      rintro ⟨x, y, hx, hy, eq, back, front⟩
      exact smooth ⟨x, y, hx, hy, eq, back.trans (List.suffix_cons _ _), front⟩
    have still : ¬ marker <+: b :: (before ++ piece) := by
      intro front
      rcases List.prefix_or_prefix_of_prefix front (List.prefix_append (b :: before) piece) with inside | ⟨y, eq⟩
      · exact plain inside
      · cases y with
        | nil => exact plain (by simp [← eq])
        | cons c y =>
          refine smooth ⟨b :: before, c :: y, by simp, by simp, eq.symm, List.suffix_refl _, ?_⟩
          rw [← eq, ← List.cons_append] at front
          exact (List.prefix_append_right_inj _).1 front
    rw [List.cons_append, replace_all_keep still, replace_all_keep plain, ih later, List.cons_append]

theorem replace_all_straddled (solid : Solid marker) (shorter : new.length < marker.length)
    {before piece : List A} (straddled : Straddles marker before piece) :
    (replaceAll marker new (before ++ piece)).length <
      (replaceAll marker new before).length + (replaceAll marker new piece).length := by
  obtain ⟨x, y, hx, hy, eq, ⟨u, rfl⟩, ⟨v, rfl⟩⟩ := straddled
  have positive := List.length_pos_of_ne_nil hx
  have rest := List.length_pos_of_ne_nil hy
  have lengths := congrArg List.length eq
  rw [List.length_append] at lengths
  -- the first element of the marker stands at the border, so no other occurrence crosses it
  have inner : ∀ p t, x <+: t → ¬ Straddles marker p t := by
    rintro p t first ⟨p', q, hp, hq, cut, _, front⟩
    cases q with
    | nil => contradiction
    | cons a q =>
      refine solid_apart solid cut hp ?_
      obtain ⟨b, x', rfl⟩ := List.exists_cons_of_ne_nil hx
      obtain ⟨t', rfl⟩ := first
      rw [List.cons_append, List.cons_prefix_cons] at front
      rw [eq, front.1]
      rfl
  have outer : ¬ Straddles marker y v := by
    rintro ⟨p, q, hp, hq, cut, ⟨y', back⟩, _⟩
    obtain ⟨a, p', rfl⟩ := List.exists_cons_of_ne_nil hp
    refine solid_apart solid (x := x ++ y') (y := p') (a := a) ?_ (by simp [hx]) (by rw [cut]; rfl)
    rw [eq, ← back, List.append_assoc]
  have whole : u ++ x ++ (y ++ v) = u ++ (marker ++ v) := by simp [eq]
  rw [whole, replace_all_append solid.nonempty (inner u _ ⟨y ++ v, by simp [eq]⟩), replace_all_marker solid.nonempty,
    replace_all_append solid.nonempty (inner u x (List.prefix_refl x)), replace_all_append solid.nonempty outer,
    replace_all_short (s := x) (by omega), replace_all_short (s := y) (by omega)]
  simp only [List.length_append]
  omega

theorem replacement_follows (solid : Solid marker) (new : List A) (shorter : new.length < marker.length) :
    Follows (fun _ piece => ((), replaceAll marker new piece)) (fun s => ((), replaceAll marker new s))
      (Straddles marker) where
  state _ _ := rfl
  smooth _ _ smooth := (replace_all_append solid.nonempty smooth).symm
  longer _ _ straddled := replace_all_straddled solid shorter straddled

end Seams

end MarkerRemoval
