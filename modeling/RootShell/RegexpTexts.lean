import Mathlib.Data.List.Basic

/-!
Regular expressions over code points, as far as literals, the dot, the star, the two anchors,
alternatives and groups go: the text is read by one pass with a stack of open groups, a match is a
relation between places of the subject, and the search tries every place to start from.
-/
namespace RegexpTexts

inductive Re where
  | lit (r : Nat)
  | any
  | bol
  | eol
  | empty
  | seq (a b : Re)
  | alt (a b : Re)
  | star (a : Re)

section Matching

abbrev Place := Bool × List Nat

inductive Matches : Re → Place → Place → Prop
  | lit {first : Bool} {r : Nat} {s : List Nat} : Matches (.lit r) (first, r :: s) (false, s)
  | any {first : Bool} {r : Nat} {s : List Nat} (line : r ≠ 10) : Matches .any (first, r :: s) (false, s)
  | bol {s : List Nat} : Matches .bol (true, s) (true, s)
  | eol {first : Bool} : Matches .eol (first, []) (first, [])
  | empty {p : Place} : Matches .empty p p
  | seq {a b : Re} {p q r : Place} (one : Matches a p q) (two : Matches b q r) : Matches (.seq a b) p r
  | left {a b : Re} {p q : Place} (one : Matches a p q) : Matches (.alt a b) p q
  | right {a b : Re} {p q : Place} (one : Matches b p q) : Matches (.alt a b) p q
  | none {a : Re} {p : Place} : Matches (.star a) p p
  | more {a : Re} {p q r : Place} (one : Matches a p q) (rest : Matches (.star a) q r) : Matches (.star a) p r

/-- A round that passes nothing of the subject leads nowhere new. -/
def starEnds (step : Place → List Place) : Nat → Place → List Place
  | 0, p => [p]
  | fuel + 1, p => p :: ((step p).filter fun q => q.2.length < p.2.length).flatMap (starEnds step fuel)

def ends : Re → Place → List Place
  | .lit r, p => if p.2.head? = some r then [(false, p.2.tail)] else []
  | .any, p => if p.2 ≠ [] ∧ p.2.head? ≠ some 10 then [(false, p.2.tail)] else []
  | .bol, p => if p.1 then [p] else []
  | .eol, p => if p.2 = [] then [p] else []
  | .empty, p => [p]
  | .seq a b, p => (ends a p).flatMap (ends b)
  | .alt a b, p => ends a p ++ ends b p
  | .star a, p => starEnds (ends a) p.2.length p

def places (text : List Nat) : List Place := (true, text) :: text.tails.tail.map (false, ·)

def matchString (re : Re) (text : List Nat) : Bool := (places text).any fun p => !(ends re p).isEmpty

variable {re : Re} {p q : Place}

theorem matches_forward (matched : Matches re p q) : q = p ∨ q.2.length < p.2.length := by
  induction matched with
  | lit => exact Or.inr (by simp)
  | any line => exact Or.inr (by simp)
  | bol => exact Or.inl rfl
  | eol => exact Or.inl rfl
  | empty => exact Or.inl rfl
  | seq one two ih ih' =>
    rcases ih with rfl | first
    · exact ih'
    · rcases ih' with rfl | second
      · exact Or.inr first
      · exact Or.inr (Nat.lt_trans second first)
  | left one ih => exact ih
  | right one ih => exact ih
  | none => exact Or.inl rfl
  | more one rest ih ih' =>
    rcases ih with rfl | first
    · exact ih'
    · rcases ih' with rfl | second
      · exact Or.inr first
      · exact Or.inr (Nat.lt_trans second first)

theorem star_ends_sound {a : Re} (sound : ∀ p q, q ∈ ends a p → Matches a p q) {fuel : Nat}
    (found : q ∈ starEnds (ends a) fuel p) : Matches (.star a) p q := by
  induction fuel generalizing p with
  | zero =>
    rw [List.mem_singleton.1 found]
    exact .none
  | succ fuel ih =>
    rcases List.mem_cons.1 found with rfl | later
    · exact .none
    · obtain ⟨mid, first, rest⟩ := List.mem_flatMap.1 later
      exact .more (sound p mid (List.mem_filter.1 first).1) (ih rest)

theorem star_ends_complete {a : Re} (complete : ∀ p q, Matches a p q → q ∈ ends a p) (matched : Matches re p q)
    (same : re = .star a) : ∀ fuel, p.2.length ≤ fuel → q ∈ starEnds (ends a) fuel p := by
  induction matched with
  | lit => cases same
  | any => cases same
  | bol => cases same
  | eol => cases same
  | empty => cases same
  | seq => cases same
  | left => cases same
  | right => cases same
  | none =>
    intro fuel _
    cases fuel with
    | zero => exact List.mem_singleton.2 rfl
    | succ fuel => exact List.mem_cons_self
  | @more b p mid r one rest _ ih =>
    cases same
    intro fuel budget
    rcases matches_forward one with rfl | less
    · exact ih rfl fuel budget
    · cases fuel with
      | zero => omega
      | succ fuel =>
        refine List.mem_cons_of_mem _ (List.mem_flatMap.2 ⟨mid, ?_, ih rfl fuel (by omega)⟩)
        exact List.mem_filter.2 ⟨complete p mid one, by simpa using less⟩

theorem ends_iff : q ∈ ends re p ↔ Matches re p q := by
  induction re generalizing p q with
  | lit r =>
    obtain ⟨first, s⟩ := p
    constructor
    · intro found
      cases s with
      | nil => simp [ends] at found
      | cons c s =>
        by_cases same : c = r
        · subst same
          simp only [ends, List.head?_cons, if_pos, List.tail_cons, List.mem_singleton] at found
          rw [found]
          exact .lit
        · simp [ends, same] at found
    · intro matched
      cases matched
      simp [ends]
  | any =>
    obtain ⟨first, s⟩ := p
    constructor
    · intro found
      cases s with
      | nil => simp [ends] at found
      | cons c s =>
        by_cases line : c = 10
        · simp [ends, line] at found
        · have here : q = (false, s) := by simpa [ends, line] using found
          rw [here]
          exact .any line
    · intro matched
      cases matched with
      | any line => simp [ends, line]
  | bol =>
    obtain ⟨first, s⟩ := p
    constructor
    · intro found
      cases first with
      | false => simp [ends] at found
      | true =>
        have here : q = (true, s) := by simpa [ends] using found
        rw [here]
        exact .bol
    · intro matched
      cases matched
      simp [ends]
  | eol =>
    obtain ⟨first, s⟩ := p
    constructor
    · intro found
      cases s with
      | nil =>
        have here : q = (first, []) := by simpa [ends] using found
        rw [here]
        exact .eol
      | cons c s => simp [ends] at found
    · intro matched
      cases matched
      simp [ends]
  | empty =>
    constructor
    · intro found
      rw [List.mem_singleton.1 found]
      exact .empty
    · intro matched
      cases matched
      exact List.mem_singleton.2 rfl
  | seq a b iha ihb =>
    constructor
    · intro found
      obtain ⟨mid, first, second⟩ := List.mem_flatMap.1 found
      exact .seq (iha.1 first) (ihb.1 second)
    · intro matched
      cases matched with
      | seq one two => exact List.mem_flatMap.2 ⟨_, iha.2 one, ihb.2 two⟩
  | alt a b iha ihb =>
    constructor
    · intro found
      rcases List.mem_append.1 found with left | right
      · exact .left (iha.1 left)
      · exact .right (ihb.1 right)
    · intro matched
      cases matched with
      | left one => exact List.mem_append.2 (Or.inl (iha.2 one))
      | right one => exact List.mem_append.2 (Or.inr (ihb.2 one))
  | star a ih =>
    constructor
    · exact star_ends_sound fun p q => ih.1
    · intro matched
      exact star_ends_complete (fun p q => ih.2) matched rfl _ (Nat.le_refl _)

theorem match_string_iff {text : List Nat} : matchString re text = true ↔ ∃ p ∈ places text, ∃ q, Matches re p q := by
  unfold matchString
  rw [List.any_eq_true]
  constructor
  · rintro ⟨p, member, found⟩
    obtain ⟨q, there⟩ := List.exists_mem_of_ne_nil (ends re p) (by simpa using found)
    exact ⟨p, member, q, ends_iff.1 there⟩
  · rintro ⟨p, member, q, matched⟩
    refine ⟨p, member, ?_⟩
    have there := List.ne_nil_of_mem (ends_iff.2 matched)
    simpa using there

theorem search_bol {a : Re} {text : List Nat} :
    (∃ p ∈ places text, ∃ q, Matches (.seq .bol a) p q) ↔ ∃ q, Matches a (true, text) q := by
  constructor
  · rintro ⟨p, member, q, matched⟩
    rcases List.mem_cons.1 member with rfl | later
    · cases matched with
      | seq one two =>
        cases one
        exact ⟨q, two⟩
    · obtain ⟨s, _, rfl⟩ := List.mem_map.1 later
      cases matched with
      | seq one two => cases one
  · rintro ⟨q, matched⟩
    exact ⟨_, List.mem_cons_self, q, .seq .bol matched⟩

end Matching

section Reading

structure Frame where
  alts : Option Re
  items : List Re

def Frame.close (f : Frame) : Re :=
  let branch := f.items.foldl (fun rest item => .seq item rest) .empty
  f.alts.elim branch (.alt · branch)

structure Reader where
  frame : Frame
  outer : List Frame
  escaped : Bool

def Reader.push (s : Reader) (r : Re) : Reader :=
  { s with frame := { s.frame with items := r :: s.frame.items }, escaped := false }

def punctuation (c : Nat) : Bool :=
  c < 128 && !(48 ≤ c && c ≤ 57) && !(65 ≤ c && c ≤ 90) && !(97 ≤ c && c ≤ 122)

/-- Classes, counted repetitions, `+`, `?` and the other escapes are not read. -/
def Reader.step (s : Reader) (c : Nat) : Option Reader :=
  if s.escaped then if punctuation c then some (s.push (.lit c)) else none
  else if c = 92 then some { s with escaped := true }
  else if c = 40 then some ⟨⟨none, []⟩, s.frame :: s.outer, false⟩
  else if c = 41 then
    match s.outer with
    | [] => none
    | f :: outer => some ⟨{ f with items := s.frame.close :: f.items }, outer, false⟩
  else if c = 124 then some { s with frame := ⟨some s.frame.close, []⟩ }
  else if c = 42 then
    match s.frame.items with
    | [] => none
    | .star _ :: _ => none
    | r :: items => some { s with frame := { s.frame with items := .star r :: items } }
  else if c = 46 then some (s.push .any)
  else if c = 94 then some (s.push .bol)
  else if c = 36 then some (s.push .eol)
  else if c = 91 ∨ c = 123 ∨ c = 43 ∨ c = 63 then none
  else some (s.push (.lit c))

def Reader.steps (s : Reader) : List Nat → Option Reader
  | [] => some s
  | c :: rs => (s.step c).bind fun next => next.steps rs

def parse (rs : List Nat) : Option Re :=
  (Reader.steps ⟨⟨none, []⟩, [], false⟩ rs).bind fun s =>
    if s.escaped ∨ s.outer ≠ [] then none else some s.frame.close

theorem steps_append {s : Reader} (rs ts : List Nat) :
    s.steps (rs ++ ts) = (s.steps rs).bind fun next => next.steps ts := by
  induction rs generalizing s with
  | nil => rfl
  | cons c rs ih =>
    rw [List.cons_append, Reader.steps, Reader.steps]
    cases s.step c with
    | none => rfl
    | some next => exact ih

def chain (items : List Re) (last : Re) : Re := items.foldr .seq last

theorem close_chain (items : List Re) : (Frame.mk none items.reverse).close = chain items .empty := by
  change items.reverse.foldl (fun rest item => Re.seq item rest) .empty = _
  rw [List.foldl_reverse]
  rfl

end Reading

end RegexpTexts
