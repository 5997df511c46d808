import RootShell.FallibleState
import RootShell.WordFields

/-!
The port ranges of the tsshd server: parseTsshdPortRanges of tssh/udp.go and the rendering
of getTsshdCommand. The loop over the tokens of a segment looks one token back and one
ahead; what it did is kept as a list of steps, each with the positions of the tokens it
was made from.
-/
namespace PortRanges
open ByteLines ByteText WordFields FallibleState

variable {low i n high p j : Nat} {s after token port lowPort u w filler : Bytes} {k mark : Int}

inductive PortWarning
  | notAPort (port : Bytes)
  | inverted (low high : Nat)
  | malformed (token : Bytes)
  | strayDash
  | strayHigh (token : Bytes)
  deriving DecidableEq, Repr

def PortWarning.message (tsshdPort : Bytes) (w : PortWarning) : Bytes :=
  text "tsshd port [" ++ tsshdPort ++ text "] invalid: " ++
    match w with
    | .notAPort port => text "port [" ++ port ++ text "] is not a value in [1, 65535]"
    | .inverted low high =>
      text "port range [" ++ itoa low ++ [45] ++ itoa high ++ text "] is invalid (low > high)"
    | .malformed token => text "malformed port range [" ++ token ++ text "]"
    | .strayDash => text "'-' must appear between two ports"
    | .strayHigh token => text "malformed port range [- " ++ token ++ text "]"

def parsePort (port : Bytes) : Except PortWarning Nat :=
  match parseUintSized 10 16 port with
  | some (n + 1) => .ok (n + 1)
  | _ => .error (.notAPort port)

def addPortRange (lowPort : Bytes) (highPort : Option Bytes) : Except PortWarning (Nat × Nat) := do
  let low ← parsePort lowPort
  let high ← (highPort.map parsePort).getD (.ok low)
  if high < low then .error (.inverted low high) else .ok (low, high)

structure Step where
  used : List Nat
  outcome : Except PortWarning (Nat × Nat)

def Step.range (step : Step) : Option (Nat × Nat) :=
  match step.outcome with
  | .ok range => some range
  | .error _ => none

def splitRange (token : Bytes) : Except PortWarning (Nat × Nat) :=
  match token.splitOn 45 with
  | [low, high] => if low = [] ∨ high = [] then .error (.malformed token) else addPortRange low (some high)
  | _ => .error (.malformed token)

/-- The loop over the tokens at index `i`; `k` is the last token a spaced range took. -/
def portLoop (tokens : List Bytes) : Nat → Nat → Int → List Step
  | 0, _, _ => []
  | fuel + 1, i, k =>
    match tokens[i]? with
    | none => []
    | some token =>
      if 45 ∈ token ∧ token ≠ [45] then ⟨[i], splitRange token⟩ :: portLoop tokens fuel (i + 1) k
      else if token = [45] then
        if i = 0 ∨ tokens.length ≤ i + 1 ∨ (i : Int) - 1 ≤ k then
          ⟨[i], .error .strayDash⟩ :: portLoop tokens fuel (i + 2) k
        else
          ⟨[i - 1, i, i + 1], addPortRange (tokens.getD (i - 1) []) (some (tokens.getD (i + 1) []))⟩ ::
            portLoop tokens fuel (i + 2) (i + 1)
      else if tokens[i + 1]? = some [45] then portLoop tokens fuel (i + 1) k
      else if 0 < i ∧ tokens[i - 1]? = some [45] then
        ⟨[i], .error (.strayHigh token)⟩ :: portLoop tokens fuel (i + 1) k
      else ⟨[i], addPortRange token none⟩ :: portLoop tokens fuel (i + 1) k

def segmentSteps (tokens : List Bytes) : List Step := portLoop tokens tokens.length 0 (-1)

def segments (tsshdPort : Bytes) : List (List Bytes) := (tsshdPort.splitOn 44).map fields

def parseTsshdPortRanges (tsshdPort : Bytes) : List (Nat × Nat) :=
  (segments tsshdPort).flatMap fun tokens => (segmentSteps tokens).filterMap Step.range

def renderRange (range : Nat × Nat) : Bytes :=
  if range.1 = range.2 then itoa range.1 else itoa range.1 ++ [45] ++ itoa range.2

def renderRanges (ranges : List (Nat × Nat)) : Bytes := [44].intercalate (ranges.map renderRange)

section Spelling

def Gap (s : Bytes) : Prop := Made spaceUnits s ∧ s ≠ []

def Filler (s : Bytes) : Prop := Made ([44] :: spaceUnits) s

inductive Spelling
  | single
  | dashed
  | spaced (before after : Bytes)

structure Entry where
  low : Nat
  high : Nat
  spelling : Spelling

structure Entry.Ok (entry : Entry) : Prop where
  positive : 1 ≤ entry.low
  ordered : entry.low ≤ entry.high
  bounded : entry.high ≤ 65535
  single : entry.spelling = .single → entry.low = entry.high
  spaced : ∀ before after, entry.spelling = .spaced before after → Gap before ∧ Gap after

def Entry.range (entry : Entry) : Nat × Nat := (entry.low, entry.high)

def Entry.text (entry : Entry) : Bytes :=
  match entry.spelling with
  | .single => itoa entry.low
  | .dashed => itoa entry.low ++ [45] ++ itoa entry.high
  | .spaced before after => itoa entry.low ++ (before ++ ([45] ++ (after ++ itoa entry.high)))

def Entry.tokens (entry : Entry) : List Bytes :=
  match entry.spelling with
  | .single => [itoa entry.low]
  | .dashed => [itoa entry.low ++ [45] ++ itoa entry.high]
  | .spaced _ _ => [itoa entry.low, [45], itoa entry.high]

def listText : List (Bytes × Entry) → Bytes → Bytes
  | [], after => after
  | (before, entry) :: more, after => before ++ (entry.text ++ listText more after)

structure Spelled (items : List (Bytes × Entry)) (after : Bytes) : Prop where
  entries : ∀ item ∈ items, item.2.Ok
  fillers : ∀ item ∈ items, Filler item.1
  apart : ∀ item ∈ items.tail, item.1 ≠ []
  after : Filler after

end Spelling

variable {range : Nat × Nat} {items : List (Bytes × Entry)}

section Adding

theorem parse_port_ok :
    parsePort port = .ok n ↔ parseUintSized 10 16 port = some n ∧ 0 < n := by
  unfold parsePort
  split
  · rename_i k parsed
    rw [parsed]
    simp only [Except.ok.injEq, Option.some.injEq]
    omega
  · rename_i other
    constructor
    · intro h
      cases h
    · rintro ⟨parsed, positive⟩
      cases n with
      | zero => omega
      | succ n => exact absurd parsed (other n)

theorem parse_port_itoa (positive : 1 ≤ n) (small : n ≤ 65535) : parsePort (itoa n) = .ok n :=
  parse_port_ok.2 ⟨parse_uint_sized_itoa (by omega), positive⟩

theorem add_port_range_ok {highPort : Option Bytes} (added : addPortRange lowPort highPort = .ok range) :
    parseUintSized 10 16 lowPort = some range.1 ∧
      parseUintSized 10 16 (highPort.getD lowPort) = some range.2 ∧
      1 ≤ range.1 ∧ range.1 ≤ range.2 ∧ range.2 ≤ 65535 := by
  obtain ⟨low, parsedLow, added⟩ := except_bind_ok added
  obtain ⟨high, parsedHigh, added⟩ := except_bind_ok added
  obtain ⟨low_eq, low_pos⟩ := parse_port_ok.1 parsedLow
  have high_eq : parseUintSized 10 16 (highPort.getD lowPort) = some high := by
    cases highPort with
    | none =>
      cases parsedHigh
      exact low_eq
    | some port => exact (parse_port_ok.1 parsedHigh).1
  have bound := (parse_uint_sized_iff.1 high_eq).2.2
  split at added
  · cases added
  · rename_i ordered
    cases added
    exact ⟨low_eq, high_eq, low_pos, by omega, by simp; omega⟩

theorem add_port_range_single (positive : 1 ≤ low) (small : low ≤ 65535) :
    addPortRange (itoa low) none = .ok (low, low) := by
  simp [addPortRange, parse_port_itoa positive small, bind, Except.bind]

theorem add_port_range_pair (positive : 1 ≤ low) (ordered : low ≤ high) (small : high ≤ 65535) :
    addPortRange (itoa low) (some (itoa high)) = .ok (low, high) := by
  have first := parse_port_itoa positive (by omega)
  have second := parse_port_itoa (n := high) (by omega) small
  simp [addPortRange, first, second, bind, Except.bind, Nat.not_lt.2 ordered]

end Adding

section Segments

theorem space_no_comma : ∀ u ∈ spaceUnits, 44 ∉ u := by decide

def Bounded (s : Bytes) : Prop := s = [] ∨ ∃ u ∈ [44] :: spaceUnits, ∃ t, s = u ++ t

def pushWord (w : Bytes) : List (List Bytes) → List (List Bytes)
  | [] => [[w]]
  | tokens :: more => (w :: tokens) :: more

theorem segments_space (made : Made spaceUnits u) (s : Bytes) : segments (u ++ s) = segments s := by
  obtain ⟨x, xs, whole, pushed⟩ := split_on_front (made_clean space_no_comma made) s
  rw [segments, segments, whole, pushed, List.map_cons, List.map_cons, fields_made made]

theorem segments_comma (s : Bytes) : segments ([44] ++ s) = [] :: segments s := by
  have cut : ([] ++ 44 :: s).splitOn 44 = ([] : Bytes).splitOn 44 ++ s.splitOn 44 :=
    List.splitOn_append_cons_self [] s
  rw [segments, segments, List.singleton_append, ← List.nil_append (44 :: s), cut]
  rfl

theorem segments_word (unbroken : Unbroken spaceUnits w) (clean : 44 ∉ w) (some : w ≠ [])
    (bounded : Bounded s) : segments (w ++ s) = pushWord w (segments s) := by
  rcases bounded with rfl | ⟨u, member, t, rfl⟩
  · rw [List.append_nil, segments, List.splitOn_eq_singleton clean, List.map_singleton, fields_last unbroken some]
    rfl
  · rcases List.mem_cons.1 member with rfl | space
    · rw [segments_comma, segments, List.singleton_append, List.splitOn_append_cons_self,
        List.splitOn_eq_singleton clean, List.singleton_append, List.map_cons, fields_last unbroken some]
      rfl
    · have made := made_unit space
      have apart : u ≠ [] := fun empty => space_units_separable.nonempty (empty ▸ space)
      have absent := space_no_comma u space
      obtain ⟨x, xs, whole, pushed⟩ := split_on_front (show (44 : UInt8) ∉ w ++ u by simp [clean, absent]) t
      rw [segments_space made, segments, segments, whole, ← List.append_assoc, pushed, List.map_cons, List.map_cons,
        List.append_assoc, fields_word unbroken some made apart]
      rfl

end Segments

section Grouping

def groupTokens (group : List Entry) : List Bytes := group.flatMap Entry.tokens

def pushEntry (entry : Entry) : List (List Entry) → List (List Entry)
  | [] => [[entry]]
  | group :: groups => (entry :: group) :: groups

theorem push_entry_flatten (entry : Entry) (groups : List (List Entry)) :
    (pushEntry entry groups).flatten = entry :: groups.flatten := by
  cases groups <;> simp [pushEntry]

theorem push_entry_tokens (entry : Entry) (groups : List (List Entry)) :
    entry.tokens.foldr pushWord (groups.map groupTokens) = (pushEntry entry groups).map groupTokens := by
  unfold Entry.tokens
  cases groups with
  | nil => cases shape : entry.spelling <;> simp [pushEntry, pushWord, groupTokens, Entry.tokens, shape]
  | cons group groups => cases shape : entry.spelling <;> simp [pushEntry, pushWord, groupTokens, Entry.tokens, shape]

theorem bounded_made (made : Filler s) (some : s ≠ []) (t : Bytes) : Bounded (s ++ t) := by
  obtain ⟨parts, member, rfl⟩ := made
  cases parts with
  | nil => exact absurd rfl some
  | cons u parts => exact Or.inr ⟨u, member u (by simp), parts.flatten ++ t, by simp⟩

theorem gap_filler (gap : Gap s) : Filler s := by
  obtain ⟨⟨parts, member, eq⟩, _⟩ := gap
  exact ⟨parts, fun u inside => List.mem_cons_of_mem _ (member u inside), eq⟩

theorem segments_numeral (n : Nat) (bounded : Bounded s) : segments (itoa n ++ s) = pushWord (itoa n) (segments s) :=
  segments_word (numeral_unbroken (numeral_itoa n)) (numeral_clean (numeral_itoa n) rfl) (itoa_not_nil n) bounded

theorem dashed_unbroken (low high : Nat) : Unbroken spaceUnits (itoa low ++ [45] ++ itoa high) := by
  have apart : ∀ u ∈ spaceUnits, ∀ b ∈ u, decimalByte b = false ∧ b ≠ 45 := by decide +kernel
  refine unbroken_clean fun u member b inside occurs => ?_
  obtain ⟨other, dash⟩ := apart u member b inside
  simp [numeral_clean (numeral_itoa _) other, dash] at occurs

theorem segments_entry {entry : Entry} (ok : entry.Ok) (bounded : Bounded s) :
    segments (entry.text ++ s) = entry.tokens.foldr pushWord (segments s) := by
  cases shape : entry.spelling with
  | single =>
    simp only [Entry.text, Entry.tokens, shape]
    exact segments_numeral _ bounded
  | dashed =>
    simp only [Entry.text, Entry.tokens, shape]
    exact segments_word (dashed_unbroken _ _) (by simp [numeral_clean (numeral_itoa _) (b := 44) rfl]) (by simp) bounded
  | spaced before after =>
    obtain ⟨gapBefore, gapAfter⟩ := ok.spaced before after shape
    have dash : Unbroken spaceUnits [45] := unbroken_clean (by decide)
    simp only [Entry.text, Entry.tokens, shape, List.append_assoc, List.foldr_cons, List.foldr_nil]
    rw [segments_numeral _ (bounded_made (gap_filler gapBefore) gapBefore.2 _), segments_space gapBefore.1,
      segments_word dash (by decide) (by simp) (bounded_made (gap_filler gapAfter) gapAfter.2 _),
      segments_space gapAfter.1, segments_numeral _ bounded]

theorem segments_filler (made : Filler filler) {groups : List (List Entry)}
    (split : segments s = groups.map groupTokens) :
    ∃ more, segments (filler ++ s) = (more ++ groups).map groupTokens ∧ more.flatten = [] := by
  obtain ⟨parts, member, rfl⟩ := made
  induction parts with
  | nil => exact ⟨[], split, rfl⟩
  | cons u parts ih =>
    obtain ⟨more, cut, empty⟩ := ih fun v inside => member v (by simp [inside])
    rw [List.flatten_cons, List.append_assoc]
    rcases List.mem_cons.1 (member u (by simp)) with rfl | space
    · exact ⟨[] :: more, by rw [segments_comma, cut]; rfl, by simpa using empty⟩
    · exact ⟨more, by rw [segments_space (made_unit space), cut], empty⟩

theorem spelled_tail {item : Bytes × Entry} (spelled : Spelled (item :: items) after) : Spelled items after :=
  ⟨fun other member => spelled.entries other (by simp [member]),
   fun other member => spelled.fillers other (by simp [member]),
   fun other member => spelled.apart other (List.mem_of_mem_tail member), spelled.after⟩

theorem list_text_bounded (spelled : Spelled items after)
    (apart : ∀ item ∈ items, item.1 ≠ []) : Bounded (listText items after) := by
  cases items with
  | nil =>
    by_cases empty : after = []
    · exact Or.inl empty
    · simpa [listText] using bounded_made spelled.after empty []
  | cons item items => exact bounded_made (spelled.fillers item (by simp)) (apart item (by simp)) _

theorem spelled_groups (spelled : Spelled items after) :
    ∃ groups : List (List Entry), groups.flatten = items.map Prod.snd ∧
      segments (listText items after) = groups.map groupTokens := by
  induction items with
  | nil =>
    have none : segments [] = [([] : List Entry)].map groupTokens := rfl
    obtain ⟨more, cut, empty⟩ := segments_filler spelled.after none
    refine ⟨more ++ [[]], by simpa using empty, ?_⟩
    rw [← cut, List.append_nil, listText]
  | cons item items ih =>
    obtain ⟨groups, flat, cut⟩ := ih (spelled_tail spelled)
    have bounded := list_text_bounded (spelled_tail spelled) spelled.apart
    have pushed := segments_entry (spelled.entries item (by simp)) bounded
    rw [cut, push_entry_tokens] at pushed
    obtain ⟨more, whole, empty⟩ := segments_filler (spelled.fillers item (by simp)) pushed
    exact ⟨more ++ pushEntry item.2 groups, by rw [List.flatten_append, empty, push_entry_flatten, flat]; rfl, whole⟩

end Grouping

section Running

theorem token_at (before rest : List Bytes) (j : Nat) : (before ++ rest)[before.length + j]? = rest[j]? := by
  rw [List.getElem?_append_right (by omega)]
  congr 1
  omega

theorem itoa_not_dash (n : Nat) : itoa n ≠ [45] := by
  intro same
  exact numeral_clean (numeral_itoa n) (b := 45) rfl (by simp [same])

theorem dashed_not_dash (low high : Nat) : itoa low ++ [45] ++ itoa high ≠ [45] := by
  intro same
  have lengths := congrArg List.length same
  have positive := List.length_pos_of_ne_nil (itoa_not_nil low)
  simp at lengths
  omega

theorem entry_tokens_head (entry : Entry) : ∃ token tokens, entry.tokens = token :: tokens ∧ token ≠ [45] := by
  unfold Entry.tokens
  cases entry.spelling with
  | single => exact ⟨_, _, rfl, itoa_not_dash _⟩
  | dashed => exact ⟨_, _, rfl, dashed_not_dash _ _⟩
  | spaced before after => exact ⟨_, _, rfl, itoa_not_dash _⟩

theorem entry_tokens_last (entry : Entry) (before : List Bytes) : (before ++ entry.tokens).getLast? ≠ some [45] := by
  unfold Entry.tokens
  cases entry.spelling with
  | single => simpa using itoa_not_dash _
  | dashed => simpa using dashed_not_dash _ _
  | spaced gapBefore gapAfter => simpa using itoa_not_dash _

theorem group_no_dash (group : List Entry) : (groupTokens group)[0]? ≠ some [45] := by
  cases group with
  | nil => simp [groupTokens]
  | cons entry group =>
    obtain ⟨token, tokens, eq, other⟩ := entry_tokens_head entry
    simpa [groupTokens, eq] using other

theorem split_range_pair (positive : 1 ≤ low) (ordered : low ≤ high) (small : high ≤ 65535) :
    splitRange (itoa low ++ [45] ++ itoa high) = .ok (low, high) := by
  have cut : (itoa low ++ [45] ++ itoa high).splitOn 45 = [itoa low, itoa high] := by
    rw [List.append_assoc, List.singleton_append, List.splitOn_append_cons_self,
      List.splitOn_eq_singleton (numeral_clean (numeral_itoa low) rfl),
      List.splitOn_eq_singleton (numeral_clean (numeral_itoa high) rfl), List.singleton_append]
  simp only [splitRange, cut, itoa_not_nil, or_self, ↓reduceIte]
  exact add_port_range_pair positive ordered small

variable {before : List Bytes}

theorem token_behind (rest : List Bytes) (some : 0 < before.length) :
    (before ++ rest)[before.length - 1]? = before.getLast? := by
  rw [List.getElem?_append_left (by omega), List.getLast?_eq_getElem?]

section Rounds
variable {tokens : List Bytes} (fuel : Nat)

theorem loop_combined (here : tokens[i]? = some token) (dash : 45 ∈ token) (more : token ≠ [45]) :
    portLoop tokens (fuel + 1) i k = ⟨[i], splitRange token⟩ :: portLoop tokens fuel (i + 1) k := by
  rw [portLoop, here]
  simp only [dash, more, ne_eq, not_false_eq_true, and_self, ↓reduceIte]

theorem loop_low (here : tokens[i]? = some token) (plain : 45 ∉ token) (next : tokens[i + 1]? = some [45]) :
    portLoop tokens (fuel + 1) i k = portLoop tokens fuel (i + 1) k := by
  have other : token ≠ [45] := fun same => plain (by simp [same])
  rw [portLoop, here]
  simp only [plain, other, next, false_and, ↓reduceIte]

theorem loop_dash (here : tokens[i + 1]? = some [45]) (inside : i + 2 < tokens.length) (free : k < i) :
    portLoop tokens (fuel + 1) (i + 1) k =
      ⟨[i, i + 1, i + 2], addPortRange (tokens.getD i []) (some (tokens.getD (i + 2) []))⟩ ::
        portLoop tokens fuel (i + 3) (i + 2) := by
  have between : ¬ (i + 1 = 0 ∨ tokens.length ≤ i + 1 + 1 ∨ ((i + 1 : Nat) : Int) - 1 ≤ k) := by omega
  rw [portLoop, here]
  simp only [ne_eq, not_true_eq_false, and_false, between, ↓reduceIte, Nat.add_sub_cancel]
  rfl

theorem loop_plain (here : tokens[i]? = some token) (plain : 45 ∉ token) (next : tokens[i + 1]? ≠ some [45])
    (previous : 0 < i → tokens[i - 1]? ≠ some [45]) :
    portLoop tokens (fuel + 1) i k = ⟨[i], addPortRange token none⟩ :: portLoop tokens fuel (i + 1) k := by
  have other : token ≠ [45] := fun same => plain (by simp [same])
  have first : ¬ (0 < i ∧ tokens[i - 1]? = some [45]) := fun h => previous h.1 h.2
  rw [portLoop, here]
  simp only [plain, other, next, first, false_and, ↓reduceIte]

end Rounds

theorem port_loop_entry {entry : Entry} (ok : entry.Ok) (rest : List Bytes) (fuel : Nat)
    (behind : before.getLast? ≠ some [45]) (ahead : rest[0]? ≠ some [45]) (last : k < before.length) :
    ∃ (fuel' : Nat) (k' : Int), fuel ≤ fuel' ∧ k' < (before ++ entry.tokens).length ∧
      (portLoop (before ++ (entry.tokens ++ rest)) (entry.tokens.length + fuel) before.length k).filterMap Step.range =
        entry.range ::
          (portLoop (before ++ (entry.tokens ++ rest)) fuel' (before ++ entry.tokens).length k').filterMap
            Step.range := by
  have small : entry.low ≤ 65535 := Nat.le_trans ok.ordered ok.bounded
  have plain : 45 ∉ itoa entry.low := numeral_clean (numeral_itoa _) rfl
  have reach := token_at before (entry.tokens ++ rest)
  have here := reach 0
  have next := reach 1
  rw [Nat.add_zero] at here
  cases shape : entry.spelling with
  | single =>
    have tokens : entry.tokens = [itoa entry.low] := by simp only [Entry.tokens, shape]
    simp only [tokens, List.singleton_append, List.getElem?_cons_zero, List.getElem?_cons_succ] at here next
    have previous : 0 < before.length → (before ++ itoa entry.low :: rest)[before.length - 1]? ≠ some [45] := by
      intro some
      rwa [token_behind _ some]
    have added : addPortRange (itoa entry.low) none = .ok entry.range := by
      rw [add_port_range_single ok.positive small, Entry.range, ← ok.single shape]
    refine ⟨fuel, k, Nat.le_refl _, by simp [tokens]; omega, ?_⟩
    simp only [tokens, List.length_singleton, List.singleton_append, Nat.add_comm 1, List.length_append]
    rw [loop_plain fuel here plain (next ▸ ahead) previous, added]
    rfl
  | dashed =>
    have tokens : entry.tokens = [itoa entry.low ++ [45] ++ itoa entry.high] := by simp only [Entry.tokens, shape]
    simp only [tokens, List.singleton_append, List.getElem?_cons_zero] at here
    refine ⟨fuel, k, Nat.le_refl _, by simp [tokens]; omega, ?_⟩
    simp only [tokens, List.length_singleton, List.singleton_append, Nat.add_comm 1, List.length_append]
    rw [loop_combined fuel here (by simp) (dashed_not_dash _ _), split_range_pair ok.positive ok.ordered ok.bounded]
    rfl
  | spaced gapBefore gapAfter =>
    have tokens : entry.tokens = [itoa entry.low, [45], itoa entry.high] := by simp only [Entry.tokens, shape]
    have third := reach 2
    simp only [tokens, List.cons_append, List.nil_append, List.getElem?_cons_zero, List.getElem?_cons_succ]
      at here next third
    have added : addPortRange (itoa entry.low) (some (itoa entry.high)) = .ok entry.range :=
      add_port_range_pair ok.positive ok.ordered ok.bounded
    have lowToken : (before ++ itoa entry.low :: [45] :: itoa entry.high :: rest).getD before.length [] =
        itoa entry.low := by simp [List.getD]
    have highToken : (before ++ itoa entry.low :: [45] :: itoa entry.high :: rest).getD (before.length + 2) [] =
        itoa entry.high := by simp [List.getD]
    refine ⟨fuel + 1, before.length + 2, by omega, by simp [tokens], ?_⟩
    simp only [tokens, List.length_cons, List.length_nil, List.cons_append, List.nil_append, List.length_append,
      Nat.add_comm _ fuel]
    rw [loop_low _ here plain next, loop_dash _ next (by simp) last, lowToken, highToken, added]
    rfl

theorem group_ranges {group : List Entry} (ok : ∀ entry ∈ group, entry.Ok) (before : List Bytes) {fuel : Nat}
    (behind : before.getLast? ≠ some [45]) (last : k < before.length) (budget : (groupTokens group).length ≤ fuel) :
    (portLoop (before ++ groupTokens group) fuel before.length k).filterMap Step.range = group.map Entry.range := by
  induction group generalizing before k fuel with
  | nil =>
    cases fuel with
    | zero => rfl
    | succ fuel => simp [portLoop, groupTokens]
  | cons entry group ih =>
    have split : groupTokens (entry :: group) = entry.tokens ++ groupTokens group := by simp [groupTokens]
    rw [split, List.length_append] at budget
    obtain ⟨fuel', k', more, last', run⟩ := port_loop_entry (ok entry (by simp)) (groupTokens group)
      (fuel - entry.tokens.length) behind (group_no_dash group) last
    rw [Nat.add_sub_cancel' (by omega)] at run
    rw [split, run, ← List.append_assoc, ih (fun e member => ok e (by simp [member])) _
      (entry_tokens_last entry before) last' (by omega)]
    rfl

end Running

section Tracing
variable {tokens : List Bytes} {steps : List Step} {outcome : Except PortWarning (Nat × Nat)}

inductive Source (tokens : List Bytes) : List Nat → Nat × Nat → Prop
  | single {p n : Nat} {token : Bytes} (at_p : tokens[p]? = some token)
      (value : parseUintSized 10 16 token = some n) : Source tokens [p] (n, n)
  | dashed {p a b : Nat} {low high : Bytes} (at_p : tokens[p]? = some (low ++ 45 :: high))
      (first : parseUintSized 10 16 low = some a) (second : parseUintSized 10 16 high = some b) :
      Source tokens [p] (a, b)
  | spaced {p a b : Nat} {low high : Bytes} (at_p : tokens[p]? = some low) (dash : tokens[p + 1]? = some [45])
      (after : tokens[p + 2]? = some high) (first : parseUintSized 10 16 low = some a)
      (second : parseUintSized 10 16 high = some b) : Source tokens [p, p + 1, p + 2] (a, b)

def kept (steps : List Step) : List Nat := (steps.filter fun step => step.range.isSome).flatMap Step.used

/-- What a round may still use: the tokens from its position on, and the one before it when
    that is the free low end of a spaced range. -/
def Usable (tokens : List Bytes) (i : Nat) (k : Int) (p : Nat) : Prop :=
  i ≤ p ∨ (p + 1 = i ∧ k < p ∧ tokens[i]? = some [45] ∧ ∃ token, tokens[p]? = some token ∧ Numeral token)

theorem kept_cons (step : Step) (steps : List Step) :
    kept (step :: steps) = (if step.range.isSome then step.used else []) ++ kept steps := by
  by_cases added : step.range.isSome
  · simp [kept, added]
  · simp [kept, added]

def Tidy (tokens : List Bytes) (i : Nat) (k : Int) (steps : List Step) : Prop :=
  (kept steps).Pairwise (· < ·) ∧ ∀ p ∈ kept steps, Usable tokens i k p

theorem usable_next (usable : Usable tokens (i + 1) k p) : i ≤ p := by
  rcases usable with later | ⟨same, _⟩ <;> omega

/-- A round that moves on by one token, with a range from this token only where the next
    round cannot take it as a low end. -/
theorem tidy_one
    (tidy : Tidy tokens (i + 1) k steps)
    (free : (Step.mk [i] outcome).range.isSome → tokens[i + 1]? = some [45] →
      ∀ token, tokens[i]? = some token → ¬ Numeral token) :
    Tidy tokens i k (⟨[i], outcome⟩ :: steps) := by
  obtain ⟨ordered, usable⟩ := tidy
  rw [Tidy, kept_cons]
  split
  · rename_i added
    refine ⟨List.pairwise_cons.2 ⟨?_, ordered⟩, ?_⟩
    · intro p member
      rcases usable p member with later | ⟨same, _, dash, token, there, numeral⟩
      · omega
      · have : p = i := by omega
        rw [this] at there
        exact absurd numeral (free added dash token there)
    · intro p member
      rcases List.mem_cons.1 member with rfl | later
      · exact Or.inl (Nat.le_refl _)
      · exact Or.inl (usable_next (usable p later))
  · exact ⟨ordered, fun p member => Or.inl (usable_next (usable p member))⟩

theorem tidy_warning {used : List Nat} {w : PortWarning}
    (later : i < j) (tidy : Tidy tokens j k steps) : Tidy tokens i k (⟨used, .error w⟩ :: steps) := by
  obtain ⟨ordered, usable⟩ := tidy
  refine ⟨ordered, fun p member => Or.inl ?_⟩
  rcases usable p member with after | ⟨same, _⟩ <;> omega

theorem numeral_of_port (parsed : parseUintSized 10 16 port = some n) : Numeral port :=
  (parse_uint_sized_iff.1 parsed).1

theorem tidy_spaced (free : k < i) (dash : tokens[i + 1]? = some [45]) (low : tokens[i]? = some token)
    (numeral : (Step.mk [i, i + 1, i + 2] outcome).range.isSome → Numeral token) (taken : (i : Int) + 2 ≤ mark)
    (tidy : Tidy tokens (i + 3) mark steps) : Tidy tokens (i + 1) k (⟨[i, i + 1, i + 2], outcome⟩ :: steps) := by
  obtain ⟨ordered, usable⟩ := tidy
  have above : ∀ p ∈ kept steps, i + 2 < p := by
    intro p member
    rcases usable p member with later | ⟨same, past, _⟩ <;> omega
  rw [Tidy, kept_cons]
  split
  · rename_i added
    refine ⟨?_, ?_⟩
    · refine List.pairwise_append.2 ⟨by simp, ordered, ?_⟩
      intro p first q second
      have := above q second
      simp at first
      omega
    · intro p member
      rcases List.mem_append.1 member with first | later
      · have cases : p = i ∨ p = i + 1 ∨ p = i + 2 := by simpa using first
        rcases cases with rfl | rfl | rfl
        · exact Or.inr ⟨rfl, free, dash, token, low, numeral added⟩
        · exact Or.inl (by omega)
        · exact Or.inl (by omega)
      · exact Or.inl (by have := above p later; omega)
  · exact ⟨ordered, fun p member => Or.inl (by have := above p member; omega)⟩

theorem range_some {used : List Nat}
    (added : (Step.mk used outcome).range.isSome) : ∃ range, outcome = .ok range := by
  cases outcome with
  | error w => cases added
  | ok range => exact ⟨range, rfl⟩

theorem port_loop_tidy (fuel i : Nat) (k : Int) (behind : k < i) : Tidy tokens i k (portLoop tokens fuel i k) := by
  fun_induction portLoop tokens fuel i k with
  | case1 => exact ⟨by simp [kept], by simp [kept]⟩
  | case2 => exact ⟨by simp [kept], by simp [kept]⟩
  | case3 fuel i k token here combined ih =>
    refine tidy_one (ih (by omega)) fun _ _ other there numeral => ?_
    rw [here, Option.some.injEq] at there
    exact numeral_clean numeral rfl (there ▸ combined.1)
  | case4 fuel i k stray here _ ih => exact tidy_warning (by omega) (ih (by omega))
  | case5 fuel i k between here _ ih =>
    obtain ⟨j, rfl⟩ : ∃ j, i = j + 1 := ⟨i - 1, by omega⟩
    have inside : j < tokens.length := by omega
    refine tidy_spaced (by omega) here (List.getElem?_eq_getElem inside) ?_ (by omega) (ih (by omega))
    intro added
    obtain ⟨range, ok⟩ := range_some added
    have parsed := (add_port_range_ok ok).1
    rw [Nat.add_sub_cancel, List.getD, List.getElem?_eq_getElem inside] at parsed
    exact numeral_of_port parsed
  | case6 fuel i k token _ _ _ _ ih =>
    obtain ⟨ordered, usable⟩ := ih (by omega)
    exact ⟨ordered, fun p member => Or.inl (usable_next (usable p member))⟩
  | case7 fuel i k token _ _ _ _ _ ih => exact tidy_warning (by omega) (ih (by omega))
  | case8 fuel i k token _ _ _ next _ ih => exact tidy_one (ih (by omega)) fun _ dash => absurd dash next

theorem split_on_pair {low high : Bytes} (cut : token.splitOn 45 = [low, high]) : token = low ++ 45 :: high := by
  have whole : List.intercalate [45] (token.splitOn 45) = token := List.intercalate_splitOn 45
  rw [cut] at whole
  simpa using whole.symm

def Sound (tokens : List Bytes) (step : Step) : Prop :=
  ∀ range, step.outcome = .ok range →
    Source tokens step.used range ∧ 1 ≤ range.1 ∧ range.1 ≤ range.2 ∧ range.2 ≤ 65535

theorem sound_warning (used : List Nat) (w : PortWarning) : Sound tokens ⟨used, .error w⟩ := by
  intro range ok
  cases ok

theorem sound_combined (here : tokens[i]? = some token) : Sound tokens ⟨[i], splitRange token⟩ := by
  intro range ok
  dsimp only at ok
  unfold splitRange at ok
  split at ok
  · rename_i low high cut
    split at ok
    · cases ok
    · obtain ⟨first, second, bounds⟩ := add_port_range_ok ok
      rw [split_on_pair cut] at here
      exact ⟨.dashed here first second, bounds⟩
  · cases ok

theorem sound_plain (here : tokens[i]? = some token) : Sound tokens ⟨[i], addPortRange token none⟩ := by
  intro range ok
  obtain ⟨first, second, bounds⟩ := add_port_range_ok ok
  have same : range = (range.1, range.1) := by
    rw [Option.getD_none, first, Option.some.injEq] at second
    exact Prod.ext rfl second.symm
  refine ⟨?_, bounds⟩
  rw [same]
  exact .single here first

theorem sound_spaced (dash : tokens[i + 1]? = some [45]) (inside : i + 2 < tokens.length) :
    Sound tokens ⟨[i, i + 1, i + 2], addPortRange (tokens.getD i []) (some (tokens.getD (i + 2) []))⟩ := by
  intro range ok
  obtain ⟨first, second, bounds⟩ := add_port_range_ok ok
  have low : tokens[i]? = some (tokens.getD i []) := by simp [List.getD, show i < tokens.length by omega]
  have high : tokens[i + 2]? = some (tokens.getD (i + 2) []) := by simp [List.getD, inside]
  exact ⟨.spaced low dash high first second, bounds⟩

theorem port_loop_sound (fuel i : Nat) (k : Int) : ∀ step ∈ portLoop tokens fuel i k, Sound tokens step := by
  fun_induction portLoop tokens fuel i k with
  | case1 => simp
  | case2 => simp
  | case3 fuel i k token here _ ih => exact List.forall_mem_cons.2 ⟨sound_combined here, ih⟩
  | case4 fuel i k _ _ _ ih => exact List.forall_mem_cons.2 ⟨sound_warning _ _, ih⟩
  | case5 fuel i k between here _ ih =>
    obtain ⟨j, rfl⟩ : ∃ j, i = j + 1 := ⟨i - 1, by omega⟩
    exact List.forall_mem_cons.2 ⟨sound_spaced here (by omega), ih⟩
  | case6 fuel i k token _ _ _ _ ih => exact ih
  | case7 fuel i k token _ _ _ _ _ ih => exact List.forall_mem_cons.2 ⟨sound_warning _ _, ih⟩
  | case8 fuel i k token here _ _ _ _ ih => exact List.forall_mem_cons.2 ⟨sound_plain here, ih⟩

theorem range_eq_some {step : Step} : step.range = some range ↔ step.outcome = .ok range := by
  unfold Step.range
  cases step.outcome <;> simp

end Tracing

section Rendering

def rangeEntry (range : Nat × Nat) : Entry :=
  ⟨range.1, range.2, if range.1 = range.2 then .single else .dashed⟩

theorem range_entry_text (range : Nat × Nat) : (rangeEntry range).text = renderRange range := by
  unfold Entry.text rangeEntry renderRange
  split_ifs <;> rfl

theorem range_entry_ok (positive : 1 ≤ range.1) (ordered : range.1 ≤ range.2)
    (bounded : range.2 ≤ 65535) : (rangeEntry range).Ok := by
  refine ⟨positive, ordered, bounded, ?_, ?_⟩
  · intro shape
    by_contra other
    simp [rangeEntry, show ¬ range.1 = range.2 from other] at shape
  · intro before after shape
    unfold rangeEntry at shape
    dsimp only at shape
    split at shape <;> cases shape

def renderItems : List (Nat × Nat) → List (Bytes × Entry)
  | [] => []
  | range :: more => ([], rangeEntry range) :: more.map fun next => ([44], rangeEntry next)

theorem list_text_commas (ranges : List (Nat × Nat)) :
    listText (ranges.map fun next => ([44], rangeEntry next)) [] =
      ranges.flatMap fun next => 44 :: renderRange next := by
  induction ranges with
  | nil => rfl
  | cons range more ih => simp [listText, ih, range_entry_text]

theorem intercalate_commas (range : Nat × Nat) (more : List (Nat × Nat)) :
    renderRanges (range :: more) = renderRange range ++ more.flatMap fun next => 44 :: renderRange next := by
  induction more generalizing range with
  | nil => simp [renderRanges]
  | cons next more ih =>
    have rest := ih next
    unfold renderRanges at rest ⊢
    rw [List.map_cons, List.map_cons, List.intercalate_cons_cons, ← List.map_cons, rest]
    simp

theorem render_items_text (ranges : List (Nat × Nat)) : listText (renderItems ranges) [] = renderRanges ranges := by
  cases ranges with
  | nil => rfl
  | cons range more =>
    rw [intercalate_commas, ← list_text_commas, ← range_entry_text]
    rfl

theorem render_items_spelled {ranges : List (Nat × Nat)}
    (valid : ∀ range ∈ ranges, 1 ≤ range.1 ∧ range.1 ≤ range.2 ∧ range.2 ≤ 65535) :
    Spelled (renderItems ranges) [] := by
  have comma : Filler [44] := made_unit (by simp)
  have entries : ∀ range ∈ ranges, (rangeEntry range).Ok := fun range member =>
    range_entry_ok (valid range member).1 (valid range member).2.1 (valid range member).2.2
  cases ranges with
  | nil => exact ⟨by simp [renderItems], by simp [renderItems], by simp [renderItems], made_nil _⟩
  | cons range more =>
    refine ⟨List.forall_mem_cons.2 ⟨entries range (by simp), ?_⟩, List.forall_mem_cons.2 ⟨made_nil _, ?_⟩, ?_,
      made_nil _⟩
    · exact List.forall_mem_map.2 fun next member => entries next (by simp [member])
    · exact List.forall_mem_map.2 fun next member => comma
    · exact List.forall_mem_map.2 fun next member => by simp

theorem render_items_ranges (ranges : List (Nat × Nat)) :
    ((renderItems ranges).map fun item => item.2.range) = ranges := by
  cases ranges with
  | nil => rfl
  | cons range more => simp [renderItems, Entry.range, rangeEntry, Function.comp_def]

end Rendering

theorem parse_spelled (spelled : Spelled items after) :
    parseTsshdPortRanges (listText items after) = items.map fun item => item.2.range := by
  obtain ⟨groups, flat, cut⟩ := spelled_groups spelled
  have ok : ∀ group ∈ groups, ∀ entry ∈ group, entry.Ok := by
    intro group member entry inside
    have listed : entry ∈ items.map Prod.snd := flat ▸ List.mem_flatten.2 ⟨group, member, inside⟩
    obtain ⟨item, found, rfl⟩ := List.mem_map.1 listed
    exact spelled.entries item found
  have each : ∀ group ∈ groups, (segmentSteps (groupTokens group)).filterMap Step.range = group.map Entry.range :=
    fun group member => group_ranges (ok group member) [] (by simp) (by decide) (Nat.le_refl _)
  rw [parseTsshdPortRanges, cut, List.flatMap_map]
  calc groups.flatMap (fun group => (segmentSteps (groupTokens group)).filterMap Step.range)
      = groups.flatMap (fun group => group.map Entry.range) := List.flatMap_congr each
    _ = groups.flatten.map Entry.range := by rw [List.flatMap_def, List.map_flatten]
    _ = items.map fun item => item.2.range := by rw [flat, List.map_map]; rfl

/-- Every spelling of a list of ranges is parsed to that list, the rendering of the server
    command among them; and of any input every returned range is one of ports in order,
    read from tokens that go into no other range. -/
theorem port_ranges_exact :
    (∀ (items : List (Bytes × Entry)) (after : Bytes), Spelled items after →
      parseTsshdPortRanges (listText items after) = items.map fun item => item.2.range) ∧
    (∀ ranges : List (Nat × Nat), (∀ range ∈ ranges, 1 ≤ range.1 ∧ range.1 ≤ range.2 ∧ range.2 ≤ 65535) →
      parseTsshdPortRanges (renderRanges ranges) = ranges) ∧
    (∀ s, ∀ range ∈ parseTsshdPortRanges s, 1 ≤ range.1 ∧ range.1 ≤ range.2 ∧ range.2 ≤ 65535) ∧
    ∀ s, ∀ tokens ∈ segments s, (kept (segmentSteps tokens)).Nodup ∧
      ∀ step ∈ segmentSteps tokens, ∀ range, step.range = some range → Source tokens step.used range := by
  refine ⟨fun items after spelled => parse_spelled spelled, ?_, ?_, ?_⟩
  · intro ranges valid
    rw [← render_items_text, parse_spelled (render_items_spelled valid), render_items_ranges]
  · intro s range member
    obtain ⟨tokens, _, inside⟩ := List.mem_flatMap.1 member
    obtain ⟨step, listed, found⟩ := List.mem_filterMap.1 inside
    exact (port_loop_sound _ _ _ step listed range (range_eq_some.1 found)).2
  · intro s tokens _
    have tidy : Tidy tokens 0 (-1) (segmentSteps tokens) := port_loop_tidy _ _ _ (by decide)
    refine ⟨tidy.1.imp fun less => Nat.ne_of_lt less, ?_⟩
    intro step listed range found
    exact (port_loop_sound _ _ _ step listed range (range_eq_some.1 found)).1

theorem port_ranges_mixed :
    parseTsshdPortRanges (text "1-3 5,7 - 9") = [(1, 3), (5, 5), (7, 9)] ∧
    parseTsshdPortRanges (renderRanges [(1, 3), (5, 5)]) = [(1, 3), (5, 5)] ∧
    (kept (segmentSteps [text "10", text "-", text "12", text "-", text "15"])).Nodup := by
  have gap : Gap [32] := ⟨made_unit (by decide), by decide⟩
  have ok : ∀ low high spelling, 1 ≤ low → low ≤ high → high ≤ 65535 → (spelling = .single → low = high) →
      (∀ b a, spelling = .spaced b a → Gap b ∧ Gap a) → (Entry.mk low high spelling).Ok :=
    fun _ _ _ a b c d e => ⟨a, b, c, d, e⟩
  have spelled : Spelled [([], ⟨1, 3, .dashed⟩), ([32], ⟨5, 5, .single⟩), ([44], ⟨7, 9, .spaced [32] [32]⟩)] [] := by
    refine ⟨?_, ?_, by decide, made_nil _⟩
    · simp only [List.forall_mem_cons]
      refine ⟨ok _ _ _ ?_ ?_ ?_ ?_ ?_, ok _ _ _ ?_ ?_ ?_ ?_ ?_, ok _ _ _ ?_ ?_ ?_ ?_ ?_, by simp⟩ <;> simp [gap]
    · simp only [List.forall_mem_cons]
      exact ⟨made_nil _, made_unit (by decide), made_unit (by decide), by simp⟩
  have whole : text "1-3 5,7 - 9" =
      listText [([], ⟨1, 3, .dashed⟩), ([32], ⟨5, 5, .single⟩), ([44], ⟨7, 9, .spaced [32] [32]⟩)] [] := by
    decide +kernel
  refine ⟨?_, port_ranges_exact.2.1 _ (by decide), ?_⟩
  · rw [whole]
    exact port_ranges_exact.1 _ _ spelled
  · exact (port_ranges_exact.2.2.2 (text "10 - 12 - 15") _ (by decide +kernel)).1

end PortRanges
