import Mathlib.Data.List.Basic

/-!
Ordered rule lists: the verdict of the first rule that hits, what changes when some of
the rules are left out, and lists that take a value only once.
-/
namespace RuleLists
variable {α β : Type}

section FirstMatch
variable {hits keep : α → Bool} {act : α → β} {otherwise : β} {rules : List α}

def verdict (hits : α → Bool) (act : α → β) (otherwise : β) (rules : List α) : β :=
  match rules.find? hits with
  | some r => act r
  | none => otherwise

theorem verdict_none (quiet : ∀ r ∈ rules, hits r = false) : verdict hits act otherwise rules = otherwise := by
  have absent : rules.find? hits = none := by
    rw [List.find?_eq_none]
    intro r member
    simp [quiet r member]
  simp only [verdict, absent]

theorem verdict_found (other : verdict hits act otherwise rules ≠ otherwise) :
    ∃ r ∈ rules, hits r = true ∧ act r = verdict hits act otherwise rules := by
  cases found : rules.find? hits with
  | none => simp [verdict, found] at other
  | some r =>
    refine ⟨r, List.mem_of_find?_eq_some found, List.find?_some found, ?_⟩
    simp only [verdict, found]

theorem verdict_in_front (hits : α → Bool) (act : α → β) (otherwise : β) {front back : List α}
    {r : α} (split : rules = front ++ r :: back) (hit : hits r = true) :
    verdict hits act otherwise rules = act r ∨
      ∃ s ∈ front, hits s = true ∧ verdict hits act otherwise rules = act s := by
  subst split
  cases found : front.find? hits with
  | none =>
    left
    simp [verdict, List.find?_append, found, hit]
  | some s =>
    right
    refine ⟨s, List.mem_of_find?_eq_some found, List.find?_some found, ?_⟩
    simp [verdict, List.find?_append, found]

def Shadowed (hits keep : α → Bool) (rules : List α) : Prop :=
  ∃ r, rules.find? hits = some r ∧ keep r = false ∧ ∃ d ∈ rules, keep d = true ∧ hits d = true

theorem verdict_kept (idle : ∀ r, keep r = false → act r = otherwise) (clear : ¬ Shadowed hits keep rules) :
    verdict hits act otherwise (rules.filter keep) = verdict hits act otherwise rules := by
  cases found : rules.find? hits with
  | none =>
    have quiet : ∀ r ∈ rules, hits r = false := by
      intro r member
      simpa using List.find?_eq_none.1 found r member
    rw [verdict_none quiet, verdict_none fun r member => quiet r (List.mem_filter.1 member).1]
  | some r =>
    obtain ⟨hit, front, back, split, before⟩ := List.find?_eq_some_iff_append.1 found
    cases kept : keep r with
    | true =>
      have same : (rules.filter keep).find? hits = some r := by
        rw [List.find?_eq_some_iff_append]
        refine ⟨hit, front.filter keep, back.filter keep, ?_, ?_⟩
        · simp [split, kept]
        · intro s member
          exact before s (List.mem_filter.1 member).1
      simp only [verdict, found, same]
    | false =>
      have quiet : ∀ d ∈ rules.filter keep, hits d = false := by
        intro d member
        obtain ⟨inRules, stays⟩ := List.mem_filter.1 member
        cases hitsToo : hits d with
        | false => rfl
        | true => exact absurd ⟨r, found, kept, d, inRules, stays, hitsToo⟩ clear
      rw [verdict_none quiet]
      simp only [verdict, found, idle r kept]

/-- Leaving out rules that only give the default changes a verdict exactly where one of
    them was shadowing a rule that stays. -/
theorem verdict_kept_iff (idle : ∀ r, keep r = false → act r = otherwise)
    (active : ∀ r ∈ rules, keep r = true → act r ≠ otherwise) :
    verdict hits act otherwise (rules.filter keep) = verdict hits act otherwise rules ↔
      ¬ Shadowed hits keep rules := by
  constructor
  · rintro same ⟨r, found, left, d, member, stays, hit⟩
    have here : verdict hits act otherwise rules = otherwise := by
      simp only [verdict, found, idle r left]
    cases later : (rules.filter keep).find? hits with
    | none => exact List.find?_eq_none.1 later d (List.mem_filter.2 ⟨member, stays⟩) hit
    | some e =>
      obtain ⟨inRules, stays⟩ := List.mem_filter.1 (List.mem_of_find?_eq_some later)
      rw [here] at same
      simp only [verdict, later] at same
      exact active e inRules stays same
  · exact verdict_kept idle

end FirstMatch

section Collecting
variable [DecidableEq α]

def addNew (out : List α) (v : α) : List α := if v ∈ out then out else out ++ [v]

def collect (vs : List α) : List α := vs.foldl addNew []

theorem mem_add_new {out : List α} {v x : α} : x ∈ addNew out v ↔ x ∈ out ∨ x = v := by
  by_cases there : v ∈ out
  · simp only [addNew, if_pos there]
    constructor
    · exact Or.inl
    · rintro (old | new)
      · exact old
      · exact new ▸ there
  · simp [addNew, there]

theorem mem_fold_add_new {vs out : List α} {x : α} : x ∈ vs.foldl addNew out ↔ x ∈ out ∨ x ∈ vs := by
  induction vs generalizing out with
  | nil => simp
  | cons v vs ih =>
    rw [List.foldl_cons, ih, mem_add_new, List.mem_cons]
    tauto

theorem mem_collect {vs : List α} {x : α} : x ∈ collect vs ↔ x ∈ vs := by
  simp [collect, mem_fold_add_new]

end Collecting

end RuleLists
