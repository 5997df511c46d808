import RootShell.GlobPatterns

/-!
What the glob matcher accepts. It compares bytes before it looks for an asterisk, so an
asterisk of the pattern that meets one in the subject stands for that byte alone.
-/
namespace GlobMatching
open ByteLines GlobPatterns

variable {p s after mark t pattern front : Bytes} {n m k a l fuel : Nat} {c b : UInt8} {star : Option (Bytes × Bytes)}

inductive Walks : Bytes → Bytes → Prop where
  | nil : Walks [] []
  | literal {c : UInt8} {p s : Bytes} (plain : c ≠ 42 ∧ c ≠ 63) (rest : Walks p s) : Walks (c :: p) (c :: s)
  | one {c : UInt8} {p s : Bytes} (rest : Walks p s) : Walks (63 :: p) (c :: s)
  | last {p : Bytes} (rest : Walks p []) : Walks (42 :: p) []
  | itself {p s : Bytes} (rest : Walks p s) : Walks (42 :: p) (42 :: s)
  | run {c : UInt8} {p s t : Bytes} (other : c ≠ 42) (part : t <:+ c :: s) (rest : Walks p t) :
      Walks (42 :: p) (c :: s)

theorem walks_end : Walks p [] ↔ p.all (· == 42) = true := by
  induction p with
  | nil => simp [Walks.nil]
  | cons b p ih =>
    constructor
    · intro walk
      cases walk with
      | last rest => simpa using ih.1 rest
    · intro stars
      obtain ⟨rfl, rest⟩ : b = 42 ∧ p.all (· == 42) = true := by simpa using stars
      exact .last (ih.2 rest)

theorem walks_byte (fits : b = 63 ∨ b = c) : Walks (b :: p) (c :: s) ↔ Walks p s := by
  constructor
  · intro walk
    cases walk with
    | literal _ rest | one rest | itself rest => exact rest
    | run other => simp_all
  · intro rest
    by_cases one : b = 63
    · exact one ▸ .one rest
    · obtain rfl : b = c := fits.resolve_left one
      by_cases star : b = 42
      · exact star ▸ .itself rest
      · exact .literal ⟨star, one⟩ rest

theorem walks_run (other : c ≠ 42) : Walks (42 :: p) (c :: s) ↔ Walks p (c :: s) ∨ ∃ t, t <:+ s ∧ Walks p t := by
  constructor
  · intro walk
    cases walk with
    | literal plain => simp at plain
    | itself => contradiction
    | run _ part rest =>
      rcases List.suffix_cons_iff.1 part with rfl | part
      · exact Or.inl rest
      · exact Or.inr ⟨_, part, rest⟩
  · rintro (rest | ⟨t, part, rest⟩)
    · exact .run other (List.suffix_refl _) rest
    · exact .run other (part.trans (List.suffix_cons _ _)) rest

theorem walks_front (walk : Walks (b :: p) t) : ∃ u, u <:+ t ∧ Walks p u := by
  cases walk with
  | literal _ rest | one rest | itself rest => exact ⟨_, List.suffix_cons _ _, rest⟩
  | last rest => exact ⟨_, List.suffix_refl _, rest⟩
  | run _ part rest => exact ⟨_, part, rest⟩

theorem walks_mismatch (apart : ¬ (b = 63 ∨ b = c)) (plain : b ≠ 42) : ¬ Walks (b :: p) (c :: s) := by
  intro walk
  cases walk <;> simp_all

inductive Held (after mark : Bytes) : Bytes → Bytes → Prop where
  | start : Held after mark after mark
  | next {b c : UInt8} {p s : Bytes} (fits : b = 63 ∨ b = c) (held : Held after mark (b :: p) (c :: s)) :
      Held after mark p s

theorem Held.length (held : Held after mark p s) : p.length ≤ after.length ∧ s.length ≤ mark.length := by
  induction held with
  | start => exact ⟨Nat.le_refl _, Nat.le_refl _⟩
  | next _ _ ih =>
    simp only [List.length_cons] at ih
    omega

theorem Held.beyond (held : Held after mark p s) (part : t <:+ mark)
    (walk : Walks after t) : ∃ u, u <:+ s ∧ Walks p u := by
  induction held with
  | start => exact ⟨t, part, walk⟩
  | next fits _ ih =>
    obtain ⟨u, here, rest⟩ := ih
    rcases List.suffix_cons_iff.1 here with rfl | here
    · exact ⟨_, List.suffix_refl _, (walks_byte fits).1 rest⟩
    · obtain ⟨v, inner, rest⟩ := walks_front rest
      exact ⟨v, inner.trans here, rest⟩

def Open (p s : Bytes) (star : Option (Bytes × Bytes)) : Prop :=
  Walks p s ∨ ∃ after mark, star = some (after, mark) ∧ ∃ t, t <:+ mark.tail ∧ Walks after t

theorem open_resumed :
    Open after mark.tail (some (after, mark.tail)) ↔ ∃ t, t <:+ mark.tail ∧ Walks after t := by
  constructor
  · rintro (walk | ⟨_, _, same, t, part, walk⟩)
    · exact ⟨_, List.suffix_refl _, walk⟩
    · cases same
      exact ⟨t, part.trans (List.tail_suffix _), walk⟩
  · rintro ⟨t, part, walk⟩
    cases rest : mark.tail with
    | nil =>
      rw [rest, List.suffix_nil] at part
      exact Or.inl (part ▸ walk)
    | cons c s =>
      rw [rest] at part
      rcases List.suffix_cons_iff.1 part with rfl | part
      · exact Or.inl walk
      · exact Or.inr ⟨_, _, rfl, t, part, walk⟩

def Kept (star : Option (Bytes × Bytes)) (p s : Bytes) : Prop :=
  ∀ after mark, star = some (after, mark) → Held after mark p s

theorem open_end (kept : Kept star p []) : Open p [] star ↔ p.all (· == 42) = true := by
  rw [← walks_end]
  constructor
  · rintro (walk | ⟨after, mark, rfl, t, part, walk⟩)
    · exact walk
    · obtain ⟨u, none, rest⟩ := (kept after mark rfl).beyond (part.trans (List.tail_suffix _)) walk
      exact List.suffix_nil.1 none ▸ rest
  · exact Or.inl

theorem open_byte (fits : b = 63 ∨ b = c) : Open (b :: p) (c :: s) star ↔ Open p s star := by
  rw [Open, walks_byte fits, Open]

theorem open_star (other : c ≠ 42) (kept : Kept star (42 :: p) (c :: s)) :
    Open (42 :: p) (c :: s) star ↔ Open p (c :: s) (some (p, c :: s)) := by
  constructor
  · rintro (walk | ⟨after, mark, rfl, t, part, walk⟩)
    · rcases (walks_run other).1 walk with rest | later
      · exact Or.inl rest
      · exact Or.inr ⟨_, _, rfl, later⟩
    · obtain ⟨u, here, rest⟩ := (kept after mark rfl).beyond (part.trans (List.tail_suffix _)) walk
      obtain ⟨v, inner, rest⟩ := walks_front rest
      rcases List.suffix_cons_iff.1 (inner.trans here) with rfl | later
      · exact Or.inl rest
      · exact Or.inr ⟨_, _, rfl, v, later, rest⟩
  · rintro (rest | ⟨_, _, same, later⟩)
    · exact Or.inl ((walks_run other).2 (Or.inl rest))
    · cases same
      exact Or.inl ((walks_run other).2 (Or.inr later))

theorem open_stuck (stuck : ¬ Walks p s) :
    Open p s (some (after, mark)) ↔ Open after mark.tail (some (after, mark.tail)) := by
  rw [open_resumed]
  constructor
  · rintro (walk | ⟨_, _, same, later⟩)
    · exact absurd walk stuck
    · cases same
      exact later
  · intro later
    exact Or.inr ⟨_, _, rfl, later⟩

/-- How many steps the loop has at most, for patterns up to `n` and subjects up to `m` bytes:
    a later asterisk has a shorter rest, a later place a shorter subject. -/
def effort (n m : Nat) : Option (Bytes × Bytes) → Nat
  | none => n * ((m + 1) * (n + 1))
  | some (after, mark) => after.length * ((m + 1) * (n + 1)) + mark.length * (n + 1)

theorem effort_below (shorter : k < a) (short : l ≤ m) :
    k * ((m + 1) * (n + 1)) + l * (n + 1) < a * ((m + 1) * (n + 1)) := by
  have grow : (k + 1) * ((m + 1) * (n + 1)) ≤ a * ((m + 1) * (n + 1)) := Nat.mul_le_mul_right _ shorter
  have room : l * (n + 1) < (m + 1) * (n + 1) := Nat.mul_lt_mul_of_pos_right (by omega) (Nat.succ_pos n)
  rw [Nat.succ_mul] at grow
  omega

theorem effort_star (subject : s.length ≤ m) (kept : Kept star (42 :: p) s) (pattern : (42 :: p).length ≤ n) :
    effort n m (some (p, s)) + p.length < effort n m star + (42 :: p).length := by
  rw [List.length_cons] at pattern ⊢
  cases star with
  | none =>
    have less : effort n m (some (p, s)) < effort n m none := effort_below pattern subject
    omega
  | some pair =>
    obtain ⟨after, mark⟩ := pair
    have shorter := (kept after mark rfl).length.1
    have less : effort n m (some (p, s)) < after.length * ((m + 1) * (n + 1)) := effort_below shorter subject
    simp only [effort] at less ⊢
    omega

theorem effort_resume (held : Held after mark p s) (more : s ≠ []) (pattern : after.length ≤ n) :
    effort n m (some (after, mark.tail)) + after.length < effort n m (some (after, mark)) + p.length := by
  have left := held.length.2
  have pos := List.length_pos_iff.2 more
  have shorter : mark.length * (n + 1) = mark.tail.length * (n + 1) + (n + 1) := by
    rw [← Nat.succ_mul, List.length_tail, Nat.succ_eq_add_one, Nat.sub_add_cancel (by omega)]
  simp only [effort]
  omega

theorem glob_loop_iff (kept : Kept star p s) (pattern : p.length ≤ n) (subject : s.length ≤ m)
    (places : ∀ after mark, star = some (after, mark) → after.length ≤ n ∧ mark.length ≤ m)
    (enough : effort n m star + p.length < fuel) : globLoop fuel p s star = true ↔ Open p s star := by
  induction fuel generalizing p s star with
  | zero => omega
  | succ fuel ih =>
    cases s with
    | nil => rw [globLoop, open_end kept]
    | cons c s =>
      have resumed (stuck : ¬ Walks p (c :: s)) :
          (star.elim false fun q => globLoop fuel q.1 q.2.tail (some (q.1, q.2.tail))) = true ↔
            Open p (c :: s) star := by
        cases star with
        | none => simp [Open, stuck]
        | some pair =>
          obtain ⟨after, mark⟩ := pair
          obtain ⟨rest, place⟩ := places after mark rfl
          have less := effort_resume (m := m) (kept after mark rfl) (List.cons_ne_nil c s) rest
          rw [open_stuck stuck]
          change globLoop fuel after mark.tail (some (after, mark.tail)) = true ↔ _
          refine ih ?_ rest ?_ ?_ (by omega)
          · rintro _ _ ⟨⟩
            exact .start
          · rw [List.length_tail]
            omega
          · rintro _ _ ⟨⟩
            rw [List.length_tail]
            omega
      cases p with
      | nil =>
        rw [globLoop]
        exact resumed nofun
      | cons b p =>
        rw [globLoop]
        split
        · rename_i fits
          rw [open_byte fits]
          rw [List.length_cons] at pattern subject enough
          refine ih ?_ (by omega) (by omega) places (by omega)
          intro after mark same
          exact .next fits (kept after mark same)
        · rename_i apart
          split
          · rename_i asterisk
            subst asterisk
            rw [open_star (by grind) kept]
            have less := effort_star subject kept pattern
            refine ih ?_ (by simp at pattern; omega) subject ?_ (by omega)
            · rintro _ _ ⟨⟩
              exact .start
            · rintro _ _ ⟨⟩
              simp only [List.length_cons] at *
              omega
          · rename_i plain
            exact resumed (walks_mismatch apart plain)

theorem effort_fuel (pattern s : Bytes) :
    effort pattern.length s.length none + pattern.length < globFuel pattern s := by
  simp only [effort, globFuel]
  generalize pattern.length = n
  generalize s.length = m
  have grow : n * ((m + 1) * (n + 1)) ≤ n * ((m + 2) * (n + 2)) :=
    Nat.mul_le_mul_left n (Nat.mul_le_mul (by omega) (by omega))
  have room : 1 * (n + 2) ≤ (m + 2) * (n + 2) := Nat.mul_le_mul_right (n + 2) (by omega)
  have split : (n + 2) * ((m + 2) * (n + 2)) = n * ((m + 2) * (n + 2)) + 2 * ((m + 2) * (n + 2)) := Nat.add_mul ..
  omega

theorem glob_match_iff (pattern s : Bytes) : globMatch pattern s = true ↔ Walks pattern s := by
  rw [globMatch, glob_loop_iff (by nofun) (Nat.le_refl _) (Nat.le_refl _) (by nofun) (effort_fuel pattern s)]
  simp [Open]

theorem matches_run (part : t <:+ s) (rest : Matches p t) : Matches (42 :: p) s := by
  obtain ⟨front, rfl⟩ := part
  induction front with
  | nil => exact .none rest
  | cons c front ih => exact .more ih

theorem walks_matches (walk : Walks p s) : Matches p s := by
  induction walk with
  | nil => exact .nil
  | literal plain _ ih => exact .literal plain ih
  | one _ ih => exact .one ih
  | last _ ih => exact .none ih
  | itself _ ih => exact .more (.none ih)
  | run _ part _ ih => exact matches_run part ih

theorem glob_match_sound (found : globMatch pattern s = true) : Matches pattern s :=
  walks_matches ((glob_match_iff pattern s).1 found)

theorem walks_plain (found : Matches p s) (plain : 42 ∉ s) : Walks p s := by
  induction found with
  | nil => exact .nil
  | literal other _ ih => exact .literal other (ih fun member => plain (List.mem_cons_of_mem _ member))
  | one _ ih => exact .one (ih fun member => plain (List.mem_cons_of_mem _ member))
  | @none p s _ ih =>
    cases s with
    | nil => exact .last (ih plain)
    | cons c s => exact .run (fun same => plain (by simp [same])) (List.suffix_refl _) (ih plain)
  | more _ ih =>
    obtain ⟨t, part, walk⟩ := walks_front (ih fun member => plain (List.mem_cons_of_mem _ member))
    exact .run (fun same => plain (by simp [same])) (part.trans (List.suffix_cons _ _)) walk

/-- Host names have no asterisks, so the matcher is right about them. -/
theorem glob_match_plain (pattern : Bytes) {s : Bytes} (plain : 42 ∉ s) :
    globMatch pattern s = true ↔ Matches pattern s := by
  rw [glob_match_iff]
  exact ⟨walks_matches, fun found => walks_plain found plain⟩

theorem plain_host_matched :
    globMatch (text "*.x.com") (text "v1.x.com") = true ↔ Matches (text "*.x.com") (text "v1.x.com") :=
  glob_match_plain _ (by decide)

theorem matches_append (plain : 42 ∉ front ∧ 63 ∉ front) (rest : Matches p s) :
    Matches (front ++ p) (front ++ s) := by
  induction front with
  | nil => exact rest
  | cons c front ih =>
    simp only [List.mem_cons, not_or] at plain
    exact .literal ⟨Ne.symm plain.1.1, Ne.symm plain.2.1⟩ (ih ⟨plain.1.2, plain.2.2⟩)

/-- The matcher is right about a subject unless the subject matches only with an asterisk
    of the pattern that meets one in the subject and stands for something else. -/
theorem glob_exact_iff (pattern s : Bytes) :
    (globMatch pattern s = true ↔ Matches pattern s) ↔ (Matches pattern s → Walks pattern s) := by
  rw [glob_match_iff]
  exact ⟨fun exact => exact.2, fun walk => ⟨walks_matches, walk⟩⟩

/-- The asterisk behind the path meets the one in the URL and leaves the rest over. -/
theorem starred_url_missed :
    globMatch (text "https://x.com/v1/*") (text "https://x.com/v1/*/edit") = false ∧
      Matches (text "https://x.com/v1/*") (text "https://x.com/v1/*/edit") := by
  have pattern : text "https://x.com/v1/*" = text "https://x.com/v1/" ++ [42] := by decide +kernel
  have url : text "https://x.com/v1/*/edit" = text "https://x.com/v1/" ++ text "*/edit" := by decide +kernel
  refine ⟨by decide +kernel, ?_⟩
  rw [pattern, url]
  exact matches_append (by decide +kernel) (matches_run List.nil_suffix .nil)

end GlobMatching
