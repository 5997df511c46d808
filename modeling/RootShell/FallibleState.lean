import Mathlib.Order.Basic

/-!
Programs that change a state and may stop with an error. An error keeps the state
it happened in, as an early return does.
-/
namespace FallibleState
variable {S E A B : Type} {failed : Prop}

theorem except_bind_ok {x : Except E A} {f : A → Except E B} {b : B} (bound : x >>= f = .ok b) :
    ∃ a, x = .ok a ∧ f a = .ok b := by
  cases x with
  | error e => cases bound
  | ok a => exact ⟨a, rfl, bound⟩

theorem except_map_ok {x : Except E A} {f : A → B} {b : B} (mapped : x.map f = .ok b) : ∃ a, x = .ok a ∧ f a = b := by
  cases x with
  | error e => cases mapped
  | ok a => exact ⟨a, rfl, Except.ok.inj mapped⟩

abbrev Prog (S E A : Type) := ExceptT E (StateM S) A

def Prog.from (p : Prog S E A) (s : S) : Except E A × S := p s

theorem run_pure (a : A) (s : S) : (pure a : Prog S E A).from s = (.ok a, s) := rfl

theorem run_throw (e : E) (s : S) : (throw e : Prog S E A).from s = (.error e, s) := rfl

variable {p : Prog S E A} {f : A → Prog S E B}

theorem run_bind_ok {s mid : S} {a : A} (first : p.from s = (.ok a, mid)) : (p >>= f).from s = (f a).from mid := by
  change (ExceptT.bindCont f (p s).1 (p s).2 : Except E B × S) = _
  change p s = _ at first
  rw [first]
  rfl

theorem run_bind_error {s mid : S} {e : E}
    (first : p.from s = (.error e, mid)) : (p >>= f).from s = (.error e, mid) := by
  change (ExceptT.bindCont f (p s).1 (p s).2 : Except E B × S) = _
  change p s = _ at first
  rw [first]
  rfl

theorem bind_ok {s last : S} {b : B} (whole : (p >>= f).from s = (.ok b, last)) :
    ∃ a mid, p.from s = (.ok a, mid) ∧ (f a).from mid = (.ok b, last) := by
  rcases first : p.from s with ⟨result, mid⟩
  cases result with
  | ok a => exact ⟨a, mid, rfl, (run_bind_ok first).symm.trans whole⟩
  | error e =>
    rw [run_bind_error first] at whole
    cases whole

def refuse (failed : Prop) [Decidable failed] (e : E) : Prog S E Unit := if failed then throw e else pure ()

theorem refuse_fails [Decidable failed] (yes : failed) (e : E) (next : Unit → Prog S E A) (s : S) :
    (refuse failed e >>= next).from s = (.error e, s) := by
  rw [refuse, if_pos yes]
  exact run_bind_error (run_throw e s)

theorem refuse_passes [Decidable failed] (no : ¬ failed) (e : E) (next : Unit → Prog S E A) (s : S) :
    (refuse failed e >>= next).from s = (next ()).from s := by
  rw [refuse, if_neg no]
  exact run_bind_ok (run_pure () s)

theorem refuse_ok [Decidable failed] {e : E} {next : Unit → Prog S E A} {s last : S} {a : A}
    (whole : (refuse failed e >>= next).from s = (.ok a, last)) : ¬ failed ∧ (next ()).from s = (.ok a, last) := by
  by_cases yes : failed
  · rw [refuse_fails yes] at whole
    cases whole
  · rw [refuse_passes yes] at whole
    exact ⟨yes, whole⟩

theorem bind_ends {s : S} (Post : Except E B → S → Prop)
    (failed : ∀ e mid, p.from s = (.error e, mid) → Post (.error e) mid)
    (passed : ∀ a mid, p.from s = (.ok a, mid) → Post ((f a).from mid).1 ((f a).from mid).2) :
    Post ((p >>= f).from s).1 ((p >>= f).from s).2 := by
  rcases first : p.from s with ⟨result, mid⟩
  cases result with
  | ok a =>
    rw [run_bind_ok first]
    exact passed a mid first
  | error e =>
    rw [run_bind_error first]
    exact failed e mid first

/-- What a program returns and the state it leaves behind meet a condition. -/
abbrev Leaves (p : Prog S E A) (s : S) (Post : Except E A → S → Prop) : Prop := Post (p.from s).1 (p.from s).2

theorem leaves_bind {s : S} {Mid : Except E A → S → Prop} {Post : Except E B → S → Prop} (first : Leaves p s Mid)
    (failed : ∀ e mid, p.from s = (.error e, mid) → Mid (.error e) mid → Post (.error e) mid)
    (passed : ∀ a mid, p.from s = (.ok a, mid) → Mid (.ok a) mid → Leaves (f a) mid Post) :
    Leaves (p >>= f) s Post := by
  refine bind_ends Post (fun e mid ended => ?_) fun a mid ended => ?_ <;> rw [Leaves, ended] at first
  · exact failed e mid ended first
  · exact passed a mid ended first

section Keeping
variable {P : S → Prop}

def Keeps (P : S → Prop) (p : Prog S E A) : Prop := ∀ s, P s → P (p.from s).2

theorem keeps_pure (a : A) : Keeps P (pure a : Prog S E A) := fun _ here => here

theorem keeps_throw (e : E) : Keeps P (throw e : Prog S E A) := fun _ here => here

theorem keeps_bind (first : Keeps P p) (second : ∀ a, Keeps P (f a)) : Keeps P (p >>= f) := by
  intro s here
  have middle : Leaves p s fun _ => P := first s here
  have last : Leaves (p >>= f) s fun _ => P := leaves_bind middle (fun _ _ _ kept => kept) fun a mid _ => second a mid
  exact last

end Keeping

end FallibleState
