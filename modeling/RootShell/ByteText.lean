import RootShell.ByteLines
import Mathlib.Data.List.DropRight

/-!
The string operations of Go's strings, strconv and unicode/utf8 packages on byte
strings. Case mapping beyond ASCII follows Unicode tables, which are a parameter;
the white space of TrimSpace is a fixed list of encodings.
-/
namespace ByteText
open ByteLines

variable {units : List Bytes} {s front t back cutset u f g z a rest : Bytes} {b : UInt8}

section Trimming

def stripFront (units : List Bytes) : Nat → Bytes → Bytes
  | 0, s => s
  | fuel + 1, s =>
    match units.find? (fun u => u.isPrefixOf s) with
    | some u => stripFront units fuel (s.drop u.length)
    | none => s

def trimFront (units : List Bytes) (s : Bytes) : Bytes := stripFront units s.length s

def trimBack (units : List Bytes) (s : Bytes) : Bytes :=
  (trimFront (units.map List.reverse) s.reverse).reverse

def Made (units : List Bytes) (s : Bytes) : Prop :=
  ∃ parts : List Bytes, (∀ u ∈ parts, u ∈ units) ∧ s = parts.flatten

theorem made_nil (units : List Bytes) : Made units [] := ⟨[], by simp, rfl⟩

theorem made_unit (member : u ∈ units) : Made units u :=
  ⟨[u], by simpa using member, by simp⟩

theorem made_append (left : Made units s) (right : Made units t) : Made units (s ++ t) := by
  obtain ⟨ps, hp, rfl⟩ := left
  obtain ⟨qs, hq, rfl⟩ := right
  refine ⟨ps ++ qs, ?_, by simp⟩
  intro u member
  rcases List.mem_append.mp member with m | m
  · exact hp u m
  · exact hq u m

theorem made_reverse (made : Made units s) : Made (units.map List.reverse) s.reverse := by
  obtain ⟨parts, member, rfl⟩ := made
  refine ⟨(parts.map List.reverse).reverse, ?_, List.reverse_flatten⟩
  intro u hu
  simp only [List.mem_reverse, List.mem_map] at hu ⊢
  obtain ⟨v, hv, rfl⟩ := hu
  exact ⟨v, member v hv, rfl⟩

theorem reverse_front_stops :
    (∀ u ∈ units.map List.reverse, ¬ u <+: s.reverse) ↔ ∀ u ∈ units, ¬ u <:+ s := by
  constructor
  · intro stop u member suffix
    exact stop u.reverse (List.mem_map_of_mem member) (List.reverse_prefix.mpr suffix)
  · intro stop u member front
    obtain ⟨v, hv, rfl⟩ := List.mem_map.mp member
    exact stop v hv (List.reverse_prefix.mp front)

theorem strip_front_spec (units : List Bytes) (nonempty : [] ∉ units) (fuel : Nat) (s : Bytes)
    (budget : s.length ≤ fuel) :
    ∃ front, Made units front ∧ s = front ++ stripFront units fuel s ∧
      ∀ u ∈ units, ¬ u <+: stripFront units fuel s := by
  induction fuel generalizing s with
  | zero =>
    have empty : s = [] := List.length_eq_zero_iff.mp (by omega)
    subst empty
    refine ⟨[], made_nil units, rfl, ?_⟩
    intro u member front
    exact nonempty (List.prefix_nil.mp front ▸ member)
  | succ fuel ih =>
    simp only [stripFront]
    cases found : units.find? (fun u => u.isPrefixOf s) with
    | none =>
      refine ⟨[], made_nil units, rfl, ?_⟩
      intro u member front
      have := List.find?_eq_none.mp found u member
      simp [List.isPrefixOf_iff_prefix.mpr front] at this
    | some u =>
      have member := List.mem_of_find?_eq_some found
      have front : u <+: s := by
        simpa using List.find?_some found
      obtain ⟨rest, rfl⟩ := front
      have positive : 0 < u.length := List.length_pos_of_ne_nil fun empty => nonempty (empty ▸ member)
      simp only [List.length_append] at budget
      obtain ⟨front, made, eq, stop⟩ := ih rest (by omega)
      refine ⟨u ++ front, made_append (made_unit member) made, ?_, ?_⟩
      · simp only [List.drop_left]
        rw [List.append_assoc, ← eq]
      · simpa only [List.drop_left] using stop

def PrefixFree (units : List Bytes) : Prop := ∀ u ∈ units, ∀ v ∈ units, u <+: v → u = v

theorem made_front_unique (free : PrefixFree units) (left : Made units f) (right : Made units g)
    (same : f ++ s = g ++ t) (stopLeft : ∀ u ∈ units, ¬ u <+: s) (stopRight : ∀ u ∈ units, ¬ u <+: t) : s = t := by
  obtain ⟨ps, hp, rfl⟩ := left
  obtain ⟨qs, hq, rfl⟩ := right
  induction ps generalizing qs with
  | nil =>
    cases qs with
    | nil => simpa using same
    | cons v vs =>
      exfalso
      apply stopLeft v (hq v (by simp))
      simp only [List.flatten_nil, List.nil_append, List.flatten_cons] at same
      rw [same, List.append_assoc]
      exact List.prefix_append v _
  | cons u us ih =>
    cases qs with
    | nil =>
      exfalso
      apply stopRight u (hp u (by simp))
      simp only [List.flatten_nil, List.nil_append, List.flatten_cons] at same
      rw [← same, List.append_assoc]
      exact List.prefix_append u _
    | cons v vs =>
      simp only [List.flatten_cons, List.append_assoc] at same
      have eq : u = v := by
        rcases List.prefix_or_prefix_of_prefix (List.prefix_append u _)
            (same ▸ List.prefix_append v _) with h | h
        · exact free u (hp u (by simp)) v (hq v (by simp)) h
        · exact (free v (hq v (by simp)) u (hp u (by simp)) h).symm
      subst eq
      exact ih (fun w hw => hp w (by simp [hw])) vs (fun w hw => hq w (by simp [hw]))
        (List.append_cancel_left same)

/-- Code words that can be cut off unambiguously from either end: no unit starts or ends
    another, and no byte that starts a unit occurs inside one. -/
structure Separable (units : List Bytes) : Prop where
  nonempty : [] ∉ units
  front : PrefixFree units
  back : PrefixFree (units.map List.reverse)
  marked : ∀ u ∈ units, ∀ v ∈ units, ∀ b ∈ u.tail, v.head? ≠ some b

structure Trimmed (units : List Bytes) (s : Bytes) : Prop where
  front : ∀ u ∈ units, ¬ u <+: s
  back : ∀ u ∈ units, ¬ u <:+ s

def trim (units : List Bytes) (s : Bytes) : Bytes := trimBack units (trimFront units s)

theorem trim_front_spec (nonempty : [] ∉ units) (s : Bytes) :
    ∃ front, Made units front ∧ s = front ++ trimFront units s ∧ ∀ u ∈ units, ¬ u <+: trimFront units s :=
  strip_front_spec units nonempty s.length s (Nat.le_refl _)

theorem trim_back_spec (nonempty : [] ∉ units) (s : Bytes) :
    ∃ back, Made units back ∧ s = trimBack units s ++ back ∧ ∀ u ∈ units, ¬ u <:+ trimBack units s := by
  have turned : [] ∉ units.map List.reverse := by simpa using nonempty
  obtain ⟨front, made, eq, stop⟩ := trim_front_spec turned s.reverse
  refine ⟨front.reverse, by simpa using made_reverse made, ?_, ?_⟩
  · simpa [trimBack] using congrArg List.reverse eq
  · apply reverse_front_stops.mp
    simpa [trimBack] using stop

theorem trim_spec (nonempty : [] ∉ units) (s : Bytes) :
    ∃ front back, Made units front ∧ Made units back ∧ s = front ++ trim units s ++ back ∧
      Trimmed units (trim units s) := by
  obtain ⟨front, madeFront, eqFront, stopFront⟩ := trim_front_spec nonempty s
  obtain ⟨back, madeBack, eqBack, stopBack⟩ := trim_back_spec nonempty (trimFront units s)
  refine ⟨front, back, madeFront, madeBack, ?_, ⟨?_, stopBack⟩⟩
  · rw [List.append_assoc, trim, ← eqBack, ← eqFront]
  · intro u member inside
    apply stopFront u member
    rw [eqBack]
    exact inside.trans (List.prefix_append _ _)

/-- A unit cannot straddle the border between trimmed text and the units after it. -/
theorem trimmed_append_front (separable : Separable units) (trimmed : ∀ u ∈ units, ¬ u <+: t) (some : t ≠ [])
    (made : Made units back) : ∀ u ∈ units, ¬ u <+: t ++ back := by
  intro u member front
  rcases List.prefix_or_prefix_of_prefix front (List.prefix_append t back) with inside | ⟨v, rfl⟩
  · exact trimmed u member inside
  · cases v with
    | nil => exact trimmed _ member (by simp)
    | cons b v =>
      have start : b :: v <+: back := by simpa using front
      obtain ⟨parts, units_, rfl⟩ := made
      cases parts with
      | nil => simp at start
      | cons w parts =>
        have wmem := units_ w (by simp)
        cases w with
        | nil => exact separable.nonempty wmem
        | cons c w =>
          simp only [List.flatten_cons, List.cons_append, List.cons_prefix_cons] at start
          refine separable.marked _ member _ wmem b ?_ (by simp [start.1])
          cases t with
          | nil => contradiction
          | cons => simp

theorem trim_unique (separable : Separable units) (madeFront : Made units front) (madeBack : Made units back)
    (trimmed : Trimmed units t) : trim units (front ++ t ++ back) = t := by
  obtain ⟨f, made, eq, stop⟩ := trim_front_spec separable.nonempty (front ++ t ++ back)
  by_cases empty : t = []
  · subst empty
    have nothing := made_front_unique separable.front (made_append madeFront madeBack) made
      (s := []) (by simpa using eq) trimmed.front stop
    rw [trim, ← nothing]
    simp [trimBack, trimFront, stripFront]
  · have whole : t ++ back = trimFront units (front ++ t ++ back) :=
      made_front_unique separable.front madeFront made (by simpa using eq)
        (trimmed_append_front separable trimmed.front empty madeBack) stop
    rw [trim, ← whole]
    obtain ⟨g, made, eq, stop⟩ := trim_back_spec separable.nonempty (t ++ back)
    have turned := made_front_unique separable.back (made_reverse madeBack) (made_reverse made)
      (by simpa using congrArg List.reverse eq) (reverse_front_stops.mpr trimmed.back)
      (reverse_front_stops.mpr stop)
    simpa using turned.symm

theorem trim_around (separable : Separable units) (madeFront : Made units front) (madeBack : Made units back) :
    trim units (front ++ s ++ back) = trim units s := by
  obtain ⟨f, b, madeF, madeB, eq, trimmed⟩ := trim_spec separable.nonempty s
  have regroup : front ++ s ++ back = front ++ f ++ trim units s ++ (b ++ back) := by
    conv => lhs; rw [eq]
    simp
  rw [regroup, trim_unique separable (made_append madeFront madeF) (made_append madeB madeBack) trimmed]

theorem trim_trimmed (separable : Separable units) (trimmed : Trimmed units s) : trim units s = s := by
  simpa using trim_unique separable (made_nil units) (made_nil units) trimmed

theorem trim_idempotent (separable : Separable units) (s : Bytes) : trim units (trim units s) = trim units s := by
  obtain ⟨_, _, _, _, _, trimmed⟩ := trim_spec separable.nonempty s
  exact trim_trimmed separable trimmed

/-- The UTF-8 encodings of the runes unicode.IsSpace accepts. -/
def spaceUnits : List Bytes :=
  [[9], [10], [11], [12], [13], [32], [0xC2, 0x85], [0xC2, 0xA0], [0xE1, 0x9A, 0x80],
   [0xE2, 0x80, 0x80], [0xE2, 0x80, 0x81], [0xE2, 0x80, 0x82], [0xE2, 0x80, 0x83],
   [0xE2, 0x80, 0x84], [0xE2, 0x80, 0x85], [0xE2, 0x80, 0x86], [0xE2, 0x80, 0x87],
   [0xE2, 0x80, 0x88], [0xE2, 0x80, 0x89], [0xE2, 0x80, 0x8A], [0xE2, 0x80, 0xA8],
   [0xE2, 0x80, 0xA9], [0xE2, 0x80, 0xAF], [0xE2, 0x81, 0x9F], [0xE3, 0x80, 0x80]]

def trimSpace (s : Bytes) : Bytes := trim spaceUnits s

theorem space_units_separable : Separable spaceUnits := by
  refine ⟨by decide, ?_, ?_, ?_⟩
  · unfold PrefixFree
    decide +kernel
  · unfold PrefixFree
    decide +kernel
  · decide +kernel

end Trimming

section Cutting

def trimRight (cutset s : Bytes) : Bytes := s.rdropWhile (fun b => cutset.contains b)

def trimSet (cutset s : Bytes) : Bytes := trimRight cutset (s.dropWhile fun b => cutset.contains b)

def trimSuffix (suffix s : Bytes) : Bytes :=
  if suffix.isSuffixOf s then s.take (s.length - suffix.length) else s

def splitN (sep : UInt8) : Nat → Bytes → List Bytes
  | 0, _ => []
  | 1, s => [s]
  | n + 2, s =>
    match s.dropWhile (· != sep) with
    | [] => [s]
    | _ :: rest => s.takeWhile (· != sep) :: splitN sep (n + 1) rest

theorem trim_space_around (s : Bytes) (madeFront : Made spaceUnits front)
    (madeBack : Made spaceUnits back) : trimSpace (front ++ s ++ back) = trimSpace s :=
  trim_around space_units_separable madeFront madeBack

theorem trim_space_idempotent (s : Bytes) : trimSpace (trimSpace s) = trimSpace s :=
  trim_idempotent space_units_separable s

theorem trim_space_cons (s : Bytes) : trimSpace (32 :: s) = trimSpace s := by
  have front : Made spaceUnits [32] := made_unit (by decide)
  simpa using trim_space_around s front (made_nil spaceUnits)

theorem trim_space_clean (clean : ∀ u ∈ spaceUnits, ∀ b ∈ u, b ∉ s) : trimSpace s = s := by
  have filled : ∀ u ∈ spaceUnits, u ≠ [] := by decide
  refine trim_trimmed space_units_separable ⟨?_, ?_⟩
  · intro u member front
    obtain ⟨b, inside⟩ := List.exists_mem_of_ne_nil u (filled u member)
    exact clean u member b inside (front.subset inside)
  · intro u member back
    obtain ⟨b, inside⟩ := List.exists_mem_of_ne_nil u (filled u member)
    exact clean u member b inside (back.subset inside)

variable {sep : UInt8}

theorem trim_right_concat (cut : b ∈ cutset) (s : Bytes) : trimRight cutset (s ++ [b]) = trimRight cutset s := by
  simp [trimRight, cut]

theorem trim_right_stop (kept : b ∉ cutset) (s : Bytes) : trimRight cutset (s ++ [b]) = s ++ [b] := by
  simp [trimRight, kept]

theorem trim_right_spec (cutset s : Bytes) : ∃ back, s = trimRight cutset s ++ back ∧ ∀ b ∈ back, b ∈ cutset := by
  induction s using List.reverseRecOn with
  | nil => exact ⟨[], by simp [trimRight], by simp⟩
  | append_singleton s b ih =>
    by_cases cut : b ∈ cutset
    · obtain ⟨back, eq, inside⟩ := ih
      refine ⟨back ++ [b], ?_, ?_⟩
      · rw [trim_right_concat cut, ← List.append_assoc, ← eq]
      · intro c member
        rcases List.mem_append.mp member with m | m
        · exact inside c m
        · exact List.mem_singleton.mp m ▸ cut
    · exact ⟨[], by rw [trim_right_stop cut]; simp, by simp⟩

theorem trim_right_cons (kept : b ∉ cutset) (s t : Bytes) :
    trimRight cutset (s ++ b :: t) = s ++ b :: trimRight cutset t := by
  induction t using List.reverseRecOn with
  | nil => simpa [trimRight] using trim_right_stop kept s
  | append_singleton t c ih =>
    have regroup : s ++ b :: (t ++ [c]) = s ++ b :: t ++ [c] := by simp
    by_cases cut : c ∈ cutset
    · rw [regroup, trim_right_concat cut, trim_right_concat cut, ih]
    · rw [regroup, trim_right_stop cut, trim_right_stop cut, regroup]

theorem made_of_bytes (single : ∀ b ∈ s, [b] ∈ units) : Made units s := by
  refine ⟨s.map fun b => [b], ?_, by simp [← List.flatMap_def]⟩
  intro u member
  obtain ⟨b, inside, rfl⟩ := List.mem_map.mp member
  exact single b inside

theorem trim_space_trim_right (s : Bytes) : trimSpace (trimRight [13] s) = trimSpace s := by
  obtain ⟨back, eq, inside⟩ := trim_right_spec [13] s
  have made : Made spaceUnits back := made_of_bytes fun b member => by
    rw [List.mem_singleton.mp (inside b member)]
    decide
  conv => rhs; rw [eq]
  simpa using (trim_space_around (trimRight [13] s) (made_nil _) made).symm

theorem trim_space_subset (s : Bytes) : ∀ b ∈ trimSpace s, b ∈ s := by
  obtain ⟨front, back, _, _, eq, _⟩ := trim_spec space_units_separable.nonempty s
  intro b member
  rw [eq]
  simp [show b ∈ trim spaceUnits s from member]

theorem made_clean (clean : ∀ u ∈ units, b ∉ u) (made : Made units s) : b ∉ s := by
  obtain ⟨parts, member, rfl⟩ := made
  simp only [List.mem_flatten, not_exists, not_and]
  exact fun u hu => clean u (member u hu)

theorem separated_induct (sep : UInt8) {P : Bytes → Prop} (plain : ∀ s, sep ∉ s → P s)
    (cut : ∀ x y, sep ∉ x → P y → P (x ++ sep :: y)) (s : Bytes) : P s := by
  induction len : s.length using Nat.strongRecOn generalizing s with
  | ind n ih =>
    by_cases member : sep ∈ s
    · obtain ⟨x, y, rfl, absent⟩ := List.eq_append_cons_of_mem member
      exact cut x y absent (ih y.length (by simp [← len]; omega) y rfl)
    · exact plain s member

theorem split_on_back (absent : sep ∉ z) (s : Bytes) :
    ∃ ls l, s.splitOn sep = ls ++ [l] ∧ (s ++ z).splitOn sep = ls ++ [l ++ z] := by
  induction s using separated_induct sep with
  | plain s clean =>
    refine ⟨[], s, List.splitOn_eq_singleton clean, ?_⟩
    exact List.splitOn_eq_singleton (by simp [clean, absent])
  | cut x y _ ih =>
    obtain ⟨ls, l, eq, eq'⟩ := ih
    refine ⟨x.splitOn sep ++ ls, l, ?_, ?_⟩
    · rw [List.splitOn_append_cons_self, eq, List.append_assoc]
    · rw [List.append_assoc, List.cons_append, List.splitOn_append_cons_self, eq', List.append_assoc]

theorem split_on_front (absent : sep ∉ a) (s : Bytes) :
    ∃ x xs, s.splitOn sep = x :: xs ∧ (a ++ s).splitOn sep = (a ++ x) :: xs := by
  by_cases member : sep ∈ s
  · obtain ⟨x, y, rfl, clean⟩ := List.eq_append_cons_of_mem member
    refine ⟨x, y.splitOn sep, ?_, ?_⟩
    · rw [List.splitOn_append_cons_self, List.splitOn_eq_singleton clean, List.singleton_append]
    · rw [← List.append_assoc, List.splitOn_append_cons_self, List.splitOn_eq_singleton (by simp [absent, clean]),
        List.singleton_append]
  · exact ⟨s, [], List.splitOn_eq_singleton member, List.splitOn_eq_singleton (by simp [absent, member])⟩

theorem split_trim_back (clean : sep ∉ back) (made : Made spaceUnits back)
    (s : Bytes) : ((s ++ back).splitOn sep).map trimSpace = (s.splitOn sep).map trimSpace := by
  obtain ⟨fields, last, before, behind⟩ := split_on_back clean s
  rw [before, behind, List.map_append, List.map_append]
  simpa using trim_space_around last (made_nil _) made

theorem split_trim_front (clean : sep ∉ front) (made : Made spaceUnits front) (s : Bytes) :
    ((front ++ s).splitOn sep).map trimSpace = (s.splitOn sep).map trimSpace := by
  obtain ⟨first, fields, behind, before⟩ := split_on_front clean s
  rw [before, behind, List.map_cons, List.map_cons]
  simpa using trim_space_around first made (made_nil _)

theorem split_trim_space (clean : ∀ u ∈ spaceUnits, sep ∉ u) (s : Bytes) :
    ((trimSpace s).splitOn sep).map trimSpace = (s.splitOn sep).map trimSpace := by
  obtain ⟨front, back, madeFront, madeBack, eq, _⟩ := trim_spec space_units_separable.nonempty s
  conv => rhs; rw [eq]
  rw [split_trim_back (made_clean clean madeBack) madeBack,
    split_trim_front (made_clean clean madeFront) madeFront]
  rfl

theorem split_on_length (sep : UInt8) (s : Bytes) : (s.splitOn sep).length = s.count sep + 1 := by
  induction s using separated_induct sep with
  | plain s absent =>
    rw [List.splitOn_eq_singleton absent, List.count_eq_zero_of_not_mem absent]
    rfl
  | cut x y absent ih =>
    rw [List.splitOn_append_cons_self, List.splitOn_eq_singleton absent]
    simp [ih, List.count_eq_zero_of_not_mem absent]

theorem split_on_clean (sep : UInt8) (s : Bytes) : ∀ l ∈ s.splitOn sep, sep ∉ l := by
  induction s using separated_induct sep with
  | plain s absent =>
    rw [List.splitOn_eq_singleton absent]
    simpa using absent
  | cut x y absent ih =>
    rw [List.splitOn_append_cons_self, List.splitOn_eq_singleton absent]
    simpa [absent] using ih

theorem other_bytes (absent : sep ∉ s) : ∀ b ∈ s, (b != sep) = true := by
  intro b member
  simpa using fun eq : b = sep => absent (eq ▸ member)

theorem split_n_absent (n : Nat) (absent : sep ∉ s) : splitN sep (n + 2) s = [s] := by
  have all : s.dropWhile (· != sep) = [] := List.dropWhile_eq_nil_iff.2 (other_bytes absent)
  simp [splitN, all]

theorem take_while_until (absent : sep ∉ front) : (front ++ sep :: rest).takeWhile (· != sep) = front := by
  rw [List.takeWhile_append_of_pos (other_bytes absent), List.takeWhile_cons_of_neg (by simp), List.append_nil]

theorem drop_while_until (absent : sep ∉ front) : (front ++ sep :: rest).dropWhile (· != sep) = sep :: rest := by
  rw [List.dropWhile_append_of_pos (other_bytes absent), List.dropWhile_cons_of_neg (by simp)]

theorem split_n_found (n : Nat) (absent : sep ∉ a) (rest : Bytes) :
    splitN sep (n + 2) (a ++ sep :: rest) = a :: splitN sep (n + 1) rest := by
  simp only [splitN, take_while_until absent, drop_while_until absent]

theorem split_n_cases (sep : UInt8) (n : Nat) (s : Bytes) :
    (sep ∉ s ∧ splitN sep (n + 2) s = [s]) ∨
      ∃ a rest, s = a ++ sep :: rest ∧ sep ∉ a ∧ splitN sep (n + 2) s = a :: splitN sep (n + 1) rest := by
  by_cases member : sep ∈ s
  · obtain ⟨a, rest, rfl, absent⟩ := List.eq_append_cons_of_mem member
    exact Or.inr ⟨a, rest, rfl, absent, split_n_found n absent rest⟩
  · exact Or.inl ⟨member, split_n_absent n member⟩

theorem trim_right_fixed_append (some : t ≠ []) : trimRight cutset (s ++ t) = s ++ t ↔ trimRight cutset t = t := by
  simp only [trimRight, List.rdropWhile_eq_self_iff]
  constructor
  · intro fixed last
    have := fixed (by simp [some])
    rwa [List.getLast_append_of_ne_nil _ some] at this
  · intro fixed last
    rw [List.getLast_append_of_ne_nil _ some]
    exact fixed some

theorem trim_right_clean (clean : ∀ b ∈ s, b ∉ cutset) : trimRight cutset s = s := by
  simp only [trimRight, List.rdropWhile_eq_self_iff]
  intro some
  simpa using clean _ (List.getLast_mem some)

end Cutting

section Runes

def runeError : Nat := 0xFFFD

/-- The accepted second bytes and the width of an encoding that starts with `b`. -/
def leadByte (b : UInt8) : Option (Nat × UInt8 × UInt8) :=
  if 0xC2 ≤ b ∧ b ≤ 0xDF then some (2, 0x80, 0xBF)
  else if b = 0xE0 then some (3, 0xA0, 0xBF)
  else if b = 0xED then some (3, 0x80, 0x9F)
  else if 0xE1 ≤ b ∧ b ≤ 0xEF then some (3, 0x80, 0xBF)
  else if b = 0xF0 then some (4, 0x90, 0xBF)
  else if 0xF1 ≤ b ∧ b ≤ 0xF3 then some (4, 0x80, 0xBF)
  else if b = 0xF4 then some (4, 0x80, 0x8F)
  else none

def continuation (b : UInt8) : Bool := 0x80 ≤ b && b ≤ 0xBF

/-- utf8.DecodeRune on a non-empty string: the first rune and its width; one byte is
    consumed as `runeError` where the encoding is invalid. -/
def decodeRune (b : UInt8) (rest : Bytes) : Nat × Nat :=
  if b < 0x80 then (b.toNat, 1)
  else
    match leadByte b, rest with
    | some (2, lo, hi), c :: _ =>
      if lo ≤ c ∧ c ≤ hi then (b.toNat % 32 * 64 + c.toNat % 64, 2) else (runeError, 1)
    | some (3, lo, hi), c :: d :: _ =>
      if lo ≤ c ∧ c ≤ hi ∧ continuation d then
        (b.toNat % 16 * 4096 + c.toNat % 64 * 64 + d.toNat % 64, 3)
      else (runeError, 1)
    | some (4, lo, hi), c :: d :: e :: _ =>
      if lo ≤ c ∧ c ≤ hi ∧ continuation d ∧ continuation e then
        (b.toNat % 8 * 262144 + c.toNat % 64 * 4096 + d.toNat % 64 * 64 + e.toNat % 64, 4)
      else (runeError, 1)
    | _, _ => (runeError, 1)

def runesLoop : Nat → Bytes → List Nat
  | 0, _ => []
  | _, [] => []
  | fuel + 1, b :: rest =>
    let (rune, width) := decodeRune b rest
    rune :: runesLoop fuel ((b :: rest).drop width)

/-- The runes a Go range loop over the string visits. -/
def runes (s : Bytes) : List Nat := runesLoop s.length s

def encodeRune (r : Nat) : Bytes :=
  if r < 0x80 then [UInt8.ofNat r]
  else if r < 0x800 then [UInt8.ofNat (0xC0 + r / 64), UInt8.ofNat (0x80 + r % 64)]
  else if r < 0x10000 ∧ ¬ (0xD800 ≤ r ∧ r < 0xE000) then
    [UInt8.ofNat (0xE0 + r / 4096), UInt8.ofNat (0x80 + r / 64 % 64), UInt8.ofNat (0x80 + r % 64)]
  else if 0x10000 ≤ r ∧ r < 0x110000 then
    [UInt8.ofNat (0xF0 + r / 262144), UInt8.ofNat (0x80 + r / 4096 % 64),
     UInt8.ofNat (0x80 + r / 64 % 64), UInt8.ofNat (0x80 + r % 64)]
  else [0xEF, 0xBF, 0xBD]

def lowerAscii (r : Nat) : Nat := if 65 ≤ r ∧ r ≤ 90 then r + 32 else r

/-- The case tables of Go's unicode package: `lower` is unicode.ToLower and `fold` names
    the orbit of a rune under unicode.SimpleFold. -/
structure CaseTables where
  lower : Nat → Nat
  fold : Nat → Nat
  lower_ascii : ∀ r, r < 128 → lower r = lowerAscii r
  fold_ascii : ∀ r, r < 128 → fold r = lowerAscii r

/-- The part of the tables that concerns ASCII letters: the Kelvin sign and the long s
    are the only other runes in their orbits. -/
def latinTables : CaseTables where
  lower r := if r = 0x212A then 107 else lowerAscii r
  fold r := if r = 0x212A then 107 else if r = 0x17F then 115 else lowerAscii r
  lower_ascii := by intro r small; simp; omega
  fold_ascii := by
    intro r small
    have : r ≠ 0x212A := by omega
    have : r ≠ 0x17F := by omega
    simp [*]

def toLower (u : CaseTables) (s : Bytes) : Bytes :=
  if s.all (· < 0x80) then s.map fun b => UInt8.ofNat (lowerAscii b.toNat)
  else (runes s).flatMap fun r => encodeRune (u.lower r)

def foldKey (u : CaseTables) (s : Bytes) : List Nat := (runes s).map u.fold

def equalFold (u : CaseTables) (s t : Bytes) : Bool := foldKey u s == foldKey u t

theorem runes_ascii (small : ∀ b ∈ s, b < 0x80) : runes s = s.map UInt8.toNat := by
  unfold runes
  induction s with
  | nil => rfl
  | cons b s ih =>
    have first : decodeRune b s = (b.toNat, 1) := by simp [decodeRune, small b (by simp)]
    simpa [runesLoop, first] using ih fun c member => small c (by simp [member])

theorem fold_key_ascii {u : CaseTables} (small : ∀ b ∈ s, b < 0x80) :
    foldKey u s = s.map fun b => lowerAscii b.toNat := by
  rw [foldKey, runes_ascii small, List.map_map]
  refine List.map_congr_left fun b member => u.fold_ascii _ ?_
  exact UInt8.lt_iff_toNat_lt.1 (small b member)

end Runes

section Numbers

def digitValue (b : UInt8) : Option Nat :=
  if 48 ≤ b ∧ b ≤ 57 then some (b.toNat - 48)
  else if 97 ≤ b ∧ b ≤ 122 then some (b.toNat - 87)
  else if 65 ≤ b ∧ b ≤ 90 then some (b.toNat - 55)
  else none

def parseDigits (base : Nat) : Nat → Bytes → Option Nat
  | acc, [] => some acc
  | acc, b :: bs =>
    match digitValue b with
    | some d => if d < base then parseDigits base (acc * base + d) bs else none
    | none => none

def parseUint (base : Nat) (s : Bytes) : Option Nat := if s = [] then none else parseDigits base 0 s

/-- strconv.ParseInt for 64 bits, in a fixed base; both of its errors are `none`. -/
def parseInt (base : Nat) (s : Bytes) : Option Int :=
  match s with
  | 45 :: digits => (parseUint base digits).bind fun n => if n ≤ 2 ^ 63 then some (-(n : Int)) else none
  | 43 :: digits => (parseUint base digits).bind fun n => if n < 2 ^ 63 then some (n : Int) else none
  | digits => (parseUint base digits).bind fun n => if n < 2 ^ 63 then some (n : Int) else none

def decimal : Nat → Nat → Bytes
  | 0, _ => []
  | fuel + 1, n => if n < 10 then [UInt8.ofNat (48 + n)] else decimal fuel (n / 10) ++ [UInt8.ofNat (48 + n % 10)]

def itoa (n : Nat) : Bytes := decimal (n + 1) n

def hexDigit (d : Nat) : UInt8 := if d < 10 then UInt8.ofNat (48 + d) else UInt8.ofNat (87 + d)

def hexBytes (s : Bytes) : Bytes := s.flatMap fun b => [hexDigit (b.toNat / 16), hexDigit (b.toNat % 16)]

theorem digit_value_decimal : ∀ d < 10, digitValue (UInt8.ofNat (48 + d)) = some d := by decide

theorem parse_digits_append (base acc : Nat) (s t : Bytes) :
    parseDigits base acc (s ++ t) = (parseDigits base acc s).bind fun n => parseDigits base n t := by
  induction s generalizing acc with
  | nil => rfl
  | cons b bs ih =>
    simp only [List.cons_append, parseDigits]
    cases digitValue b with
    | none => rfl
    | some d =>
      dsimp only
      split
      · exact ih _
      · rfl

theorem parse_digits_decimal (fuel n : Nat) (budget : n < fuel) : parseDigits 10 0 (decimal fuel n) = some n := by
  induction fuel generalizing n with
  | zero => omega
  | succ fuel ih =>
    simp only [decimal]
    split
    · rename_i small
      simp only [parseDigits, digit_value_decimal n small, small, ↓reduceIte, Nat.zero_mul,
        Nat.zero_add]
    · have smaller : n / 10 < fuel := by omega
      have rest : n % 10 < 10 := by omega
      rw [parse_digits_append, ih _ smaller]
      simp only [Option.bind_some, parseDigits, digit_value_decimal _ rest, rest, ↓reduceIte,
        Option.some.injEq]
      omega

theorem decimal_digits (fuel n : Nat) : ∀ b ∈ decimal fuel n, 48 ≤ b ∧ b ≤ 57 := by
  induction fuel generalizing n with
  | zero => simp [decimal]
  | succ fuel ih =>
    have digit : ∀ d < 10, 48 ≤ UInt8.ofNat (48 + d) ∧ UInt8.ofNat (48 + d) ≤ 57 := by decide
    simp only [decimal]
    intro b member
    split at member
    · rename_i small
      rw [List.mem_singleton.mp member]
      exact digit n small
    · rcases List.mem_append.mp member with front | last
      · exact ih _ b front
      · rw [List.mem_singleton.mp last]
        exact digit _ (by omega)

theorem itoa_clean (n : Nat) (other : b < 48 ∨ 57 < b) : b ∉ itoa n := by
  intro member
  have digit := decimal_digits (n + 1) n b member
  rcases other with low | high
  · exact absurd digit.1 (UInt8.not_le.mpr low)
  · exact absurd digit.2 (UInt8.not_le.mpr high)

theorem itoa_not_nil (n : Nat) : itoa n ≠ [] := by
  unfold itoa decimal
  split <;> simp

theorem itoa_injective : Function.Injective itoa := by
  intro n k same
  have left := parse_digits_decimal (n + 1) n (by omega)
  have right := parse_digits_decimal (k + 1) k (by omega)
  unfold itoa at same
  rw [same, right] at left
  exact (Option.some.inj left).symm

theorem parse_int_itoa (n : Nat) (fits : n < 2 ^ 63) : parseInt 10 (itoa n) = some (n : Int) := by
  have digits := decimal_digits (n + 1) n
  have value := parse_digits_decimal (n + 1) n (by omega)
  have some := itoa_not_nil n
  unfold itoa at some ⊢
  unfold parseInt
  split
  · rename_i rest eq
    rw [eq] at digits
    exact absurd (digits 45 (by simp)) (by decide)
  · rename_i rest eq
    rw [eq] at digits
    exact absurd (digits 43 (by simp)) (by decide)
  · have small : n < 9223372036854775808 := by omega
    simp [parseUint, some, value, small]

end Numbers

end ByteText
