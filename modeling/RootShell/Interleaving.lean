import Mathlib.Data.List.Induction

/-!
Runs of a system that takes one action at a time, any of its threads moving next. A step
is a partial function: an action that is not enabled has no successor.
-/
namespace Interleaving
universe u v
variable {S : Type u} {A : Type v} {step : S → A → Option S} {s : S} {as : List A} {allowed : S → A → Prop}

def run (step : S → A → Option S) (s : S) (as : List A) : Option S := as.foldlM step s

/-- Every action of a run meets a condition in the state it is taken in. -/
def Along (step : S → A → Option S) (allowed : S → A → Prop) : S → List A → Prop
  | _, [] => True
  | s, a :: as => allowed s a ∧ ∀ t, step s a = some t → Along step allowed t as

@[simp] theorem run_nil (s : S) : run step s [] = some s := rfl

theorem run_cons (s : S) (a : A) (as : List A) : run step s (a :: as) = (step s a).bind (run step · as) := rfl

theorem run_append (s : S) (as bs : List A) : run step s (as ++ bs) = (run step s as).bind (run step · bs) := by
  simp [run, List.foldlM_append]

theorem run_concat {t : S} {a : A} (reached : run step s (as ++ [a]) = some t) :
    ∃ m, run step s as = some m ∧ step m a = some t := by
  rw [run_append] at reached
  obtain ⟨m, first, last⟩ := Option.bind_eq_some_iff.1 reached
  refine ⟨m, first, ?_⟩
  simpa [run_cons, Option.bind_eq_some_iff] using last

theorem along_append {bs : List A} :
    Along step allowed s (as ++ bs) ↔
      Along step allowed s as ∧ ∀ t, run step s as = some t → Along step allowed t bs := by
  induction as generalizing s with
  | nil => simp [Along]
  | cons a as ih =>
    simp only [List.cons_append, Along, run_cons, Option.bind_eq_some_iff, ih]
    constructor
    · rintro ⟨here, later⟩
      exact ⟨⟨here, fun t taken => (later t taken).1⟩,
        fun t ⟨m, taken, reached⟩ => (later m taken).2 t reached⟩
    · rintro ⟨⟨here, later⟩, rest⟩
      exact ⟨here, fun m taken => ⟨later m taken, fun t reached => rest t ⟨m, taken, reached⟩⟩⟩

theorem along_of_forall (each : ∀ s, ∀ a ∈ as, allowed s a) : Along step allowed s as := by
  induction as generalizing s with
  | nil => trivial
  | cons a as ih => exact ⟨each s a (by simp), fun t _ => ih fun s b member => each s b (by simp [member])⟩

theorem along_cons_iff {a : A} :
    Along step allowed s (a :: as) ↔ allowed s a ∧ (step s a).elim True fun t => Along step allowed t as := by
  cases moved : step s a with
  | none => simp [Along, moved]
  | some t => simp [Along, moved]

instance decidableAlong {allowed : S → A → Prop} [∀ s a, Decidable (allowed s a)] :
    ∀ (s : S) (as : List A), Decidable (Along step allowed s as)
  | _, [] => .isTrue trivial
  | s, a :: as =>
    have : Decidable ((step s a).elim True fun t => Along step allowed t as) :=
      match step s a with
      | none => .isTrue trivial
      | some t => decidableAlong t as
    decidable_of_iff' _ along_cons_iff

theorem guarded {c : Prop} [Decidable c] {t : S} (taken : (if c then some s else none) = some t) : c ∧ s = t := by
  obtain ⟨holds, same⟩ := Option.ite_none_right_eq_some.1 taken
  exact ⟨holds, Option.some.inj same⟩

/-- What the start has and every allowed step keeps, every run with allowed steps has. -/
theorem run_induct {P : List A → S → Prop} (start : P [] s)
    (next : ∀ as m a t, run step s as = some m → P as m → allowed m a → step m a = some t → P (as ++ [a]) t)
    {t : S} (along : Along step allowed s as) (reached : run step s as = some t) : P as t := by
  induction as using List.reverseRecOn generalizing t with
  | nil =>
    cases reached
    exact start
  | append_singleton as a ih =>
    obtain ⟨m, first, last⟩ := run_concat reached
    obtain ⟨before, here⟩ := along_append.1 along
    exact next as m a t first (ih before first) (here m first).1 last

theorem run_history {P : List A → S → Prop} (start : P [] s)
    (next : ∀ as m a t, P as m → step m a = some t → P (as ++ [a]) t) {t : S}
    (reached : run step s as = some t) : P as t := by
  induction as using List.reverseRecOn generalizing t with
  | nil =>
    cases reached
    exact start
  | append_singleton as a ih =>
    obtain ⟨m, first, last⟩ := run_concat reached
    exact next as m a t (ih first) last

theorem run_invariant {I : S → Prop} (start : I s) (keeps : ∀ m a t, I m → step m a = some t → I t) {t : S}
    (reached : run step s as = some t) : I t := by
  induction as generalizing s with
  | nil =>
    cases reached
    exact start
  | cons a as ih =>
    obtain ⟨m, taken, rest⟩ := Option.bind_eq_some_iff.1 reached
    exact ih (keeps s a m start taken) rest

end Interleaving
