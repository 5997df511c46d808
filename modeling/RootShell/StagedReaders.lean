import RootShell.PiecewiseFeeds

/-!
Readers that wait for a known number of items at a time: a header, the rest of a header, a
body. What has come is absorbed, and a stage is finished when nothing is missing.
-/
namespace StagedReaders
open PiecewiseFeeds
universe u v w
variable {S : Type u} {A : Type v} {B : Type w} {s t u : S} {items more : List A} {out next : List B}

/-- `none`: the reader takes no notice of its input any more. -/
structure Stages (S : Type u) (A : Type v) (B : Type w) where
  wants : S → Option Nat
  absorb : S → List A → S
  finish : S → S × List B

/-- What arrives in parts is absorbed as if it had come at once, and a finished stage is
    followed by one that waits. -/
structure Lawful (r : Stages S A B) : Prop where
  shrinks : ∀ s n part, r.wants s = some n → part.length < n → r.wants (r.absorb s part) = some (n - part.length)
  joins : ∀ s part more, r.absorb (r.absorb s part) more = r.absorb s (part ++ more)
  rests : ∀ s, r.absorb s [] = s
  waits : ∀ s, r.wants (r.finish s).1 ≠ some 0

inductive Reads (r : Stages S A B) : S → List A → S → List B → Prop where
  | ignore {s : S} {items : List A} (ended : r.wants s = none) : Reads r s items s []
  | wait {s : S} {items : List A} {n : Nat} (missing : r.wants s = some n) (short : items.length < n) :
      Reads r s items (r.absorb s items) []
  | stage {s t : S} {items rest : List A} {out : List B} (missing : r.wants s = some items.length)
      (later : Reads r (r.finish (r.absorb s items)).1 rest t out) :
      Reads r s (items ++ rest) t ((r.finish (r.absorb s items)).2 ++ out)

variable {r : Stages S A B}

theorem reads_nil (lawful : Lawful r) (waiting : r.wants s ≠ some 0) : Reads r s [] s [] := by
  cases missing : r.wants s with
  | none => exact .ignore missing
  | some n =>
    have pos : ([] : List A).length < n := Nat.pos_of_ne_zero fun zero => waiting (by rw [missing, zero])
    simpa only [lawful.rests] using Reads.wait missing pos

theorem reads_take {n : Nat} (missing : r.wants s = some n) (enough : n ≤ items.length)
    (later : Reads r (r.finish (r.absorb s (items.take n))).1 (items.drop n) t out) :
    Reads r s items t ((r.finish (r.absorb s (items.take n))).2 ++ out) := by
  have length : (items.take n).length = n := List.length_take_of_le enough
  have step := Reads.stage (by rw [missing, length]) later
  rwa [List.take_append_drop] at step

theorem reads_unique (first : Reads r s items t out) (second : Reads r s items u next) : t = u ∧ out = next := by
  induction first generalizing u next with
  | ignore ended =>
    cases second with
    | ignore => exact ⟨rfl, rfl⟩
    | wait missing => simp [ended] at missing
    | stage missing => simp [ended] at missing
  | wait missing short =>
    cases second with
    | ignore ended => simp [ended] at missing
    | wait => exact ⟨rfl, rfl⟩
    | stage found =>
      rw [missing] at found
      have same := Option.some.inj found
      simp only [List.length_append] at short
      omega
  | @stage s t items rest out missing later ih =>
    generalize whole : items ++ rest = all at second
    cases second with
    | ignore ended => simp [ended] at missing
    | wait found short =>
      rw [missing] at found
      have same := Option.some.inj found
      rw [← whole, List.length_append] at short
      omega
    | @stage _ _ front back _ found after =>
      rw [missing] at found
      obtain ⟨rfl, rfl⟩ := List.append_inj whole (Option.some.inj found)
      obtain ⟨rfl, rfl⟩ := ih after
      exact ⟨rfl, rfl⟩

theorem reads_append (lawful : Lawful r) (first : Reads r s items t out) (second : Reads r t more u next) :
    Reads r s (items ++ more) u (out ++ next) := by
  induction first generalizing u next with
  | ignore ended =>
    cases second with
    | ignore => exact .ignore ended
    | wait missing => simp [ended] at missing
    | stage missing => simp [ended] at missing
  | @wait s items n missing short =>
    have left := lawful.shrinks s n items missing short
    cases second with
    | ignore ended => simp [ended] at left
    | wait found brief =>
      rw [left] at found
      obtain rfl := Option.some.inj found
      rw [lawful.joins]
      exact .wait missing (by rw [List.length_append]; omega)
    | @stage _ _ front back _ found after =>
      rw [left] at found
      have length := Option.some.inj found
      rw [lawful.joins] at after ⊢
      rw [← List.append_assoc]
      refine .stage ?_ after
      rw [missing, List.length_append]
      congr 1
      omega
  | stage missing later ih =>
    rw [List.append_assoc, List.append_assoc]
    exact .stage missing (ih second)

theorem reads_waits (lawful : Lawful r) (waiting : r.wants s ≠ some 0) (read : Reads r s items t out) :
    r.wants t ≠ some 0 := by
  induction read with
  | ignore => exact waiting
  | @wait s items n missing short =>
    rw [lawful.shrinks s n items missing short]
    intro zero
    have := Option.some.inj zero
    omega
  | stage _ _ ih => exact ih (lawful.waits _)

theorem reads_feed_all (lawful : Lawful r) {feed : S → List A → S × List B}
    (each : ∀ s piece, r.wants s ≠ some 0 → Reads r s piece (feed s piece).1 (feed s piece).2)
    (waiting : r.wants s ≠ some 0) (pieces : List (List A)) :
    Reads r s pieces.flatten (feedAll feed s pieces).1 (feedAll feed s pieces).2 := by
  induction pieces generalizing s with
  | nil => exact reads_nil lawful waiting
  | cons piece pieces ih =>
    have here := each s piece waiting
    rw [List.flatten_cons, feedAll]
    exact reads_append lawful here (ih (reads_waits lawful waiting here))

inductive Passes (r : Stages S A B) : S → List A → S → Prop where
  | done {s : S} : Passes r s [] s
  | stage {s t : S} {items rest : List A} (missing : r.wants s = some items.length)
      (silent : (r.finish (r.absorb s items)).2 = []) (later : Passes r (r.finish (r.absorb s items)).1 rest t) :
      Passes r s (items ++ rest) t

theorem passes_stage (passed : Passes r s items t) (missing : r.wants t = some more.length)
    (silent : (r.finish (r.absorb t more)).2 = []) : Passes r s (items ++ more) (r.finish (r.absorb t more)).1 := by
  induction passed with
  | done =>
    have last := Passes.stage missing silent .done
    rwa [List.append_nil] at last
  | stage found quiet _ ih =>
    rw [List.append_assoc]
    exact .stage found quiet (ih missing silent)

theorem passes_reads (passed : Passes r s items t) (missing : r.wants t = some more.length) {rest : List A}
    (later : Reads r (r.finish (r.absorb t more)).1 rest u out) :
    Reads r s (items ++ more ++ rest) u ((r.finish (r.absorb t more)).2 ++ out) := by
  induction passed with
  | done => exact .stage missing later
  | stage found silent _ ih =>
    have step := Reads.stage found (ih missing later)
    rw [silent, List.nil_append] at step
    simpa only [List.append_assoc] using step

theorem passes_cut (passed : Passes r s items t) (missing : r.wants t = some more.length) {cut : List A}
    (begun : cut <+: items ++ more) (unfinished : cut ≠ items ++ more) : ∃ u, Reads r s cut u [] := by
  induction passed generalizing cut with
  | done =>
    have short := List.IsPrefix.length_le begun
    have apart : cut.length ≠ more.length := fun same => unfinished (begun.eq_of_length same)
    exact ⟨_, .wait missing (by simp only [List.nil_append] at short; omega)⟩
  | @stage s t items rest found silent later ih =>
    rw [List.append_assoc] at begun unfinished
    by_cases short : cut.length < items.length
    · exact ⟨_, .wait found short⟩
    · obtain ⟨inner, rfl⟩ := List.prefix_of_prefix_length_le (List.prefix_append items _) begun (Nat.le_of_not_lt short)
      have inside := (List.prefix_append_right_inj items).1 begun
      obtain ⟨u, read⟩ := ih missing inside fun same => unfinished (by rw [same])
      have step := Reads.stage found read
      rw [silent, List.nil_append] at step
      exact ⟨u, step⟩

end StagedReaders
