import RootShell.RegexpTexts
import RootShell.RuneText

/-!
Lists of algorithms: modifyAlgorithmList and uniqueAlgorithms of tssh/algos.go with
wildcardToRegexp of tssh/comm.go. Items are removed by one regular expression that has an
anchored alternative for every wildcard.
-/
namespace AlgorithmLists
open ByteLines ByteText RegexpTexts RuneText

variable {p s pattern : List Nat}

section Code

def escapedRunes : List Nat := [40, 41, 91, 93, 123, 125, 46, 43, 44, 45, 94, 36, 124, 92]

def wildcardRune (c : Nat) : List Nat :=
  if c = 42 then [46, 42]
  else if c = 63 then [46]
  else if c ∈ escapedRunes then [92, c]
  else [c]

def wildcardToRegexp (pattern : Bytes) : Bytes := (runes pattern).flatMap fun c => encode (wildcardRune c)

/-- regexp.Compile refuses a text that is not valid UTF-8. -/
def compile (expr : Bytes) : Option Re := if validString expr then parse (runes expr) else none

def removalExpr (elements : List Bytes) : Bytes :=
  List.intercalate (text "|") (elements.map fun item => text "(^" ++ wildcardToRegexp item ++ text "$)")

def addElement (elements : List Bytes) (item : Bytes) : List Bytes :=
  if trimSpace item ≠ [] then elements ++ [trimSpace item] else elements

def elementsOf (listStr : Bytes) : List Bytes := (listStr.splitOn 44).foldl addElement []

/-- `keys` are the entries seen so far. -/
def uniqueLoop (keys : List Bytes) : List Bytes → List Bytes
  | [] => []
  | entry :: list => if entry ∈ keys then uniqueLoop keys list else entry :: uniqueLoop (entry :: keys) list

def uniqueAlgorithms (list : List Bytes) : List Bytes := uniqueLoop [] list

def compileFailed (expr : Bytes) : Bytes := text "compile regexp [" ++ expr ++ text "] failed: "

def removeElements (baseList elements : List Bytes) : Except Bytes (List Bytes) :=
  if elements = [] then .ok baseList
  else
    match compile (removalExpr elements) with
    | none => .error (compileFailed (removalExpr elements))
    | some re => .ok (baseList.filter fun item => !matchString re (runes item))

def modifyAlgorithmList (baseList : List Bytes) : Bytes → Except Bytes (List Bytes)
  | [] => .ok baseList
  | operator :: listStr =>
    if operator = 43 then .ok (uniqueAlgorithms (baseList ++ elementsOf listStr))
    else if operator = 94 then .ok (uniqueAlgorithms (elementsOf listStr ++ baseList))
    else if operator = 45 then removeElements baseList (elementsOf listStr)
    else .ok (elementsOf (operator :: listStr))

end Code

section Wildcards

inductive Wild (covers : Nat → Prop) : List Nat → List Nat → Prop
  | nil : Wild covers [] []
  | literal {c : Nat} {p s : List Nat} (plain : c ≠ 42 ∧ c ≠ 63) (rest : Wild covers p s) :
      Wild covers (c :: p) (c :: s)
  | one {c : Nat} {p s : List Nat} (covered : covers c) (rest : Wild covers p s) : Wild covers (63 :: p) (c :: s)
  | none {p s : List Nat} (rest : Wild covers p s) : Wild covers (42 :: p) s
  | more {c : Nat} {p s : List Nat} (covered : covers c) (rest : Wild covers (42 :: p) s) :
      Wild covers (42 :: p) (c :: s)

theorem wild_mono {covers wider : Nat → Prop} (inside : ∀ c ∈ s, covers c → wider c)
    (wild : Wild covers p s) : Wild wider p s := by
  induction wild with
  | nil => exact .nil
  | literal plain rest ih => exact .literal plain (ih fun c member => inside c (List.mem_cons_of_mem _ member))
  | one covered rest ih =>
    exact .one (inside _ List.mem_cons_self covered) (ih fun c member => inside c (List.mem_cons_of_mem _ member))
  | none rest ih => exact .none (ih inside)
  | more covered rest ih =>
    exact .more (inside _ List.mem_cons_self covered) (ih fun c member => inside c (List.mem_cons_of_mem _ member))

def Line (c : Nat) : Prop := c ≠ 10

def wildRe (c : Nat) : Re := if c = 42 then .star .any else if c = 63 then .any else .lit c

def groupRe (pattern : List Nat) : Re := chain (.bol :: pattern.map wildRe ++ [.eol]) .empty

theorem star_any_wild {last : Re} (rest : ∀ first s, (∃ q, Matches last (first, s) q) ↔ Wild Line p s)
    (first : Bool) (s : List Nat) : (∃ q, Matches (.seq (.star .any) last) (first, s) q) ↔ Wild Line (42 :: p) s := by
  induction s generalizing first with
  | nil =>
    constructor
    · rintro ⟨q, matched⟩
      cases matched with
      | seq one two =>
        cases one with
        | none => exact .none ((rest first []).1 ⟨q, two⟩)
        | more step _ => cases step
    · intro wild
      cases wild with
      | none wild =>
        obtain ⟨q, matched⟩ := (rest first []).2 wild
        exact ⟨q, .seq .none matched⟩
  | cons c s ih =>
    constructor
    · rintro ⟨q, matched⟩
      cases matched with
      | seq one two =>
        cases one with
        | none => exact .none ((rest first (c :: s)).1 ⟨q, two⟩)
        | more step later =>
          cases step with
          | any line => exact .more line ((ih false).1 ⟨q, .seq later two⟩)
    · intro wild
      cases wild with
      | literal plain _ => exact absurd rfl plain.1
      | none wild =>
        obtain ⟨q, matched⟩ := (rest first (c :: s)).2 wild
        exact ⟨q, .seq .none matched⟩
      | more line wild =>
        obtain ⟨q, matched⟩ := (ih false).2 wild
        cases matched with
        | seq one two => exact ⟨q, .seq (.more (.any line) one) two⟩

theorem chain_wild (pattern : List Nat) (first : Bool) (s : List Nat) :
    (∃ q, Matches (chain (pattern.map wildRe) (.seq .eol .empty)) (first, s) q) ↔ Wild Line pattern s := by
  induction pattern generalizing first s with
  | nil =>
    constructor
    · rintro ⟨q, matched⟩
      cases matched with
      | seq one two =>
        cases one
        exact .nil
    · intro wild
      cases wild
      exact ⟨_, .seq .eol .empty⟩
  | cons c p ih =>
    by_cases asterisk : c = 42
    · subst asterisk
      exact star_any_wild ih first s
    by_cases question : c = 63
    · subst question
      constructor
      · rintro ⟨q, matched⟩
        cases matched with
        | seq one two =>
          cases one with
          | any line => exact .one line ((ih _ _).1 ⟨q, two⟩)
      · intro wild
        cases wild with
        | literal plain _ => exact absurd rfl plain.2
        | one line rest =>
          obtain ⟨q, matched⟩ := (ih false _).2 rest
          exact ⟨q, .seq (.any line) matched⟩
    · have plain : wildRe c = .lit c := by rw [wildRe, if_neg asterisk, if_neg question]
      rw [List.map_cons, plain]
      constructor
      · rintro ⟨q, matched⟩
        cases matched with
        | seq one two =>
          cases one
          exact .literal ⟨asterisk, question⟩ ((ih _ _).1 ⟨q, two⟩)
      · intro wild
        cases wild with
        | literal _ rest =>
          obtain ⟨q, matched⟩ := (ih false _).2 rest
          exact ⟨q, .seq .lit matched⟩
        | one => exact absurd rfl question
        | none => exact absurd rfl asterisk
        | more => exact absurd rfl asterisk

theorem group_found (pattern s : List Nat) :
    (∃ p ∈ places s, ∃ q, Matches (groupRe pattern) p q) ↔ Wild Line pattern s := by
  have shape : groupRe pattern = .seq .bol (chain (pattern.map wildRe) (.seq .eol .empty)) := by
    rw [groupRe, chain, List.cons_append, List.foldr_cons, List.foldr_append]
    rfl
  rw [shape, search_bol, chain_wild]

end Wildcards

section Compiling

def groupRunes (pattern : List Nat) : List Nat := [40, 94] ++ pattern.flatMap wildcardRune ++ [36, 41]

def exprRunes (patterns : List (List Nat)) : List Nat := List.intercalate [124] (patterns.map groupRunes)

theorem wildcard_rune_steps {s : Reader} (plain : s.escaped = false) (c : Nat) :
    s.steps (wildcardRune c) = some (s.push (wildRe c)) := by
  obtain ⟨frame, outer, escaped⟩ := s
  subst plain
  unfold wildcardRune wildRe
  by_cases asterisk : c = 42
  · subst asterisk
    rfl
  by_cases question : c = 63
  · subst question
    rfl
  rw [if_neg asterisk, if_neg question, if_neg asterisk, if_neg question]
  split
  · rename_i special
    have marks : ∀ c ∈ escapedRunes, punctuation c = true := by decide
    simp [Reader.steps, Reader.step, marks c special, Reader.push]
  · rename_i special
    simp only [escapedRunes, List.mem_cons, List.not_mem_nil, or_false, not_or] at special
    simp [Reader.steps, Reader.step, special, asterisk, question]

theorem wildcard_steps {frame : Frame} {outer : List Frame} (pattern : List Nat) :
    Reader.steps ⟨frame, outer, false⟩ (pattern.flatMap wildcardRune) =
      some ⟨⟨frame.alts, (pattern.map wildRe).reverse ++ frame.items⟩, outer, false⟩ := by
  induction pattern generalizing frame with
  | nil => rfl
  | cons c pattern ih =>
    rw [List.flatMap_cons, steps_append, wildcard_rune_steps rfl, Option.bind_some, Reader.push, ih]
    simp

theorem group_steps (frame : Frame) (outer : List Frame) (pattern : List Nat) :
    Reader.steps ⟨frame, outer, false⟩ (groupRunes pattern) =
      some ⟨⟨frame.alts, groupRe pattern :: frame.items⟩, outer, false⟩ := by
  have opened : Reader.steps ⟨frame, outer, false⟩ [40, 94] = some ⟨⟨none, [.bol]⟩, frame :: outer, false⟩ := rfl
  have items : Re.eol :: ((pattern.map wildRe).reverse ++ [Re.bol]) =
      (Re.bol :: pattern.map wildRe ++ [Re.eol]).reverse := by
    simp
  have closed : Reader.steps ⟨⟨none, (pattern.map wildRe).reverse ++ [.bol]⟩, frame :: outer, false⟩ [36, 41] =
      some ⟨⟨frame.alts, groupRe pattern :: frame.items⟩, outer, false⟩ := by
    rw [groupRe, ← close_chain, ← items]
    rfl
  rw [groupRunes, steps_append, steps_append, opened, Option.bind_some, wildcard_steps, Option.bind_some, closed]

def Found (re : Re) (s : List Nat) : Prop := ∃ p ∈ places s, ∃ q, Matches re p q

theorem found_alt {a b : Re} : Found (.alt a b) s ↔ Found a s ∨ Found b s := by
  constructor
  · rintro ⟨p, member, q, matched⟩
    cases matched with
    | left one => exact Or.inl ⟨p, member, q, one⟩
    | right one => exact Or.inr ⟨p, member, q, one⟩
  · rintro (⟨p, member, q, matched⟩ | ⟨p, member, q, matched⟩)
    · exact ⟨p, member, q, .left matched⟩
    · exact ⟨p, member, q, .right matched⟩

theorem found_single {a : Re} : Found (.seq a .empty) s ↔ Found a s := by
  constructor
  · rintro ⟨p, member, q, matched⟩
    cases matched with
    | seq one two =>
      cases two
      exact ⟨p, member, q, one⟩
  · rintro ⟨p, member, q, matched⟩
    exact ⟨p, member, q, .seq matched .empty⟩

theorem alternatives_steps (alts : Option Re) (re : Re) (patterns : List (List Nat)) :
    ∃ alts' re', Reader.steps ⟨⟨alts, [re]⟩, [], false⟩ (patterns.flatMap fun p => [124] ++ groupRunes p) =
        some ⟨⟨alts', [re']⟩, [], false⟩ ∧
      ∀ s, Found (Frame.mk alts' [re']).close s ↔
        Found (Frame.mk alts [re]).close s ∨ ∃ p ∈ patterns, Wild Line p s := by
  induction patterns generalizing alts re with
  | nil => exact ⟨alts, re, rfl, fun s => by simp⟩
  | cons pattern patterns ih =>
    obtain ⟨alts', re', steps, found⟩ := ih (some (Frame.mk alts [re]).close) (groupRe pattern)
    refine ⟨alts', re', ?_, fun s => ?_⟩
    · have bar : Reader.steps ⟨⟨alts, [re]⟩, [], false⟩ [124] =
          some ⟨⟨some (Frame.mk alts [re]).close, []⟩, [], false⟩ := rfl
      rw [List.flatMap_cons, steps_append, steps_append, bar, Option.bind_some, group_steps, Option.bind_some]
      exact steps
    · have last : Found (Frame.mk (some (Frame.mk alts [re]).close) [groupRe pattern]).close s ↔
          Found (Frame.mk alts [re]).close s ∨ Wild Line pattern s := by
        change Found (.alt _ (.seq (groupRe pattern) .empty)) s ↔ _
        rw [found_alt, found_single]
        exact or_congr_right (group_found pattern s)
      rw [found s, last, List.exists_mem_cons_iff, or_assoc]

theorem parse_alternatives (pattern : List Nat) (patterns : List (List Nat)) :
    ∃ re, parse (exprRunes (pattern :: patterns)) = some re ∧
      ∀ s, matchString re s = true ↔ ∃ p ∈ pattern :: patterns, Wild Line p s := by
  have shape : exprRunes (pattern :: patterns) =
      groupRunes pattern ++ patterns.flatMap fun p => [124] ++ groupRunes p := by
    unfold exprRunes
    induction patterns generalizing pattern with
    | nil => simp
    | cons next patterns ih =>
      rw [List.map_cons, List.map_cons, List.intercalate_cons_cons, ← List.map_cons, ih next, List.flatMap_cons]
      simp
  obtain ⟨alts, re, steps, found⟩ := alternatives_steps none (groupRe pattern) patterns
  refine ⟨(Frame.mk alts [re]).close, ?_, fun s => ?_⟩
  · rw [parse, shape, steps_append, group_steps, Option.bind_some, steps]
    rfl
  · rw [match_string_iff]
    change Found _ s ↔ _
    have first : Found (Frame.mk none [groupRe pattern]).close s ↔ Wild Line pattern s :=
      found_single.trans (group_found pattern s)
    rw [found s, first, List.exists_mem_cons_iff]

theorem ascii_scalar {r : Nat} (small : r < 128) : Scalar r := Or.inl (by omega)

theorem wildcard_rune_scalar {c : Nat} (scalar : Scalar c) : ∀ r ∈ wildcardRune c, Scalar r := by
  have dot := ascii_scalar (show 46 < 128 by decide)
  have asterisk := ascii_scalar (show 42 < 128 by decide)
  have backslash := ascii_scalar (show 92 < 128 by decide)
  unfold wildcardRune
  split
  · simpa using ⟨dot, asterisk⟩
  · split
    · simpa using dot
    · split
      · simpa using ⟨backslash, scalar⟩
      · simpa using scalar

theorem group_runes_scalar (scalar : ∀ c ∈ pattern, Scalar c) : ∀ r ∈ groupRunes pattern, Scalar r := by
  have ends : ∀ r ∈ [40, 94, 36, 41], Scalar r := by
    simp only [List.forall_mem_cons]
    exact ⟨Or.inl (by decide), Or.inl (by decide), Or.inl (by decide), Or.inl (by decide), List.forall_mem_nil _⟩
  intro r member
  simp only [groupRunes, List.mem_append, List.mem_flatMap] at member
  rcases member with (first | ⟨c, inside, found⟩) | last
  · exact ends r (by simp at first ⊢; tauto)
  · exact wildcard_rune_scalar (scalar c inside) r found
  · exact ends r (by simp at last ⊢; tauto)

theorem expr_runes_scalar {patterns : List (List Nat)} (scalar : ∀ p ∈ patterns, ∀ c ∈ p, Scalar c) :
    ∀ r ∈ exprRunes patterns, Scalar r := by
  unfold exprRunes
  induction patterns with
  | nil => simp
  | cons pattern patterns ih =>
    have first := group_runes_scalar (scalar pattern (by simp))
    cases patterns with
    | nil => simpa using first
    | cons next patterns =>
      have rest := ih fun p member => scalar p (List.mem_cons_of_mem _ member)
      rw [List.map_cons, List.map_cons, List.intercalate_cons_cons, ← List.map_cons]
      intro r member
      rcases List.mem_append.1 member with front | back
      · rcases List.mem_append.1 front with inside | bar
        · exact first r inside
        · rw [List.mem_singleton.1 bar]
          exact ascii_scalar (by decide)
      · exact rest r back

theorem encode_append (rs ts : List Nat) : encode (rs ++ ts) = encode rs ++ encode ts := List.flatMap_append

theorem removal_expr_runes (elements : List Bytes) :
    removalExpr elements = encode (exprRunes (elements.map runes)) := by
  have group (item : Bytes) : text "(^" ++ wildcardToRegexp item ++ text "$)" = encode (groupRunes (runes item)) := by
    rw [groupRunes, encode_append, encode_append, wildcardToRegexp]
    unfold encode
    rw [List.flatMap_assoc]
    rfl
  unfold removalExpr exprRunes
  induction elements with
  | nil => rfl
  | cons item elements ih =>
    cases elements with
    | nil => simpa using group item
    | cons next elements =>
      simp only [List.map_cons, List.intercalate_cons_cons, encode_append] at ih ⊢
      rw [ih, group item]
      rfl

theorem compile_removal (item : Bytes) (elements : List Bytes) :
    ∃ re, compile (removalExpr (item :: elements)) = some re ∧
      ∀ s, matchString re s = true ↔ ∃ w ∈ item :: elements, Wild Line (runes w) s := by
  have scalar : ∀ r ∈ exprRunes ((item :: elements).map runes), Scalar r := by
    refine expr_runes_scalar fun p member c inside => ?_
    obtain ⟨s, _, rfl⟩ := List.mem_map.1 member
    exact runes_scalar s c inside
  obtain ⟨re, parsed, found⟩ := parse_alternatives (runes item) (elements.map runes)
  have valid : validString (removalExpr (item :: elements)) = true :=
    (valid_iff_encoded _).2 ⟨_, scalar, removal_expr_runes _⟩
  refine ⟨re, ?_, fun s => ?_⟩
  · rw [compile, if_pos valid, removal_expr_runes, runes_encode_all scalar]
    exact parsed
  · rw [found s, ← List.map_cons]
    simp only [List.mem_map, exists_exists_and_eq_and]

theorem compile_wildcard (pattern : Bytes) :
    compile (wildcardToRegexp pattern) = some (chain ((runes pattern).map wildRe) .empty) := by
  have scalar : ∀ r ∈ (runes pattern).flatMap wildcardRune, Scalar r := by
    intro r member
    obtain ⟨c, inside, this⟩ := List.mem_flatMap.1 member
    exact wildcard_rune_scalar (runes_scalar pattern c inside) r this
  have shape : wildcardToRegexp pattern = encode ((runes pattern).flatMap wildcardRune) := by
    rw [wildcardToRegexp, encode, List.flatMap_assoc]
    rfl
  have valid : validString (wildcardToRegexp pattern) = true := (valid_iff_encoded _).2 ⟨_, scalar, shape⟩
  rw [compile, if_pos valid, shape, runes_encode_all scalar, parse, wildcard_steps, Option.bind_some,
    if_neg (by simp), List.append_nil, close_chain]

end Compiling

section Lists
variable {base items : List Bytes}

def specItems (listStr : Bytes) : List Bytes := ((listStr.splitOn 44).map trimSpace).filter (· ≠ [])

theorem elements_of_items (listStr : Bytes) : elementsOf listStr = specItems listStr := by
  have loop (parts done : List Bytes) :
      parts.foldl addElement done = done ++ (parts.map trimSpace).filter (· ≠ []) := by
    induction parts generalizing done with
    | nil => simp
    | cons part parts ih =>
      rw [List.foldl_cons, ih]
      by_cases empty : trimSpace part = []
      · simp [addElement, empty]
      · simp [addElement, empty]
  exact loop _ []

theorem unique_loop_dups (keys list : List Bytes) : uniqueLoop keys list = (list.filter (· ∉ keys)).eraseDups := by
  induction list generalizing keys with
  | nil => rfl
  | cons entry list ih =>
    unfold uniqueLoop
    by_cases seen : entry ∈ keys
    · rw [if_pos seen, ih, List.filter_cons_of_neg (by simpa using seen)]
    · rw [if_neg seen, ih, List.filter_cons_of_pos (by simpa using seen), List.eraseDups_cons, List.filter_filter]
      congr 2
      refine List.filter_congr fun x _ => ?_
      by_cases same : x = entry
      · simp [same]
      · simp [same]

theorem unique_dups (list : List Bytes) : uniqueAlgorithms list = list.eraseDups := by
  rw [uniqueAlgorithms, unique_loop_dups]
  simp

theorem nodup_dups (nodup : base.Nodup) : base.eraseDups = base := by
  induction base with
  | nil => rfl
  | cons b base ih =>
    obtain ⟨fresh, rest⟩ := List.nodup_cons.1 nodup
    have kept : base.filter (fun c => !c == b) = base := by
      refine List.filter_eq_self.2 fun c member => ?_
      simpa using fun same : c = b => fresh (same ▸ member)
    rw [List.eraseDups_cons, kept, ih rest]

theorem unique_append (nodup : base.Nodup) :
    uniqueAlgorithms (base ++ items) = base ++ (items.filter (· ∉ base)).eraseDups := by
  rw [unique_dups, List.eraseDups_append, nodup_dups nodup]
  congr 2
  refine List.filter_congr fun x _ => by simp

theorem unique_insert (nodup : base.Nodup) :
    uniqueAlgorithms (items ++ base) = items.eraseDups ++ base.filter (· ∉ items) := by
  have rest : base.removeAll items = base.filter (· ∉ items) := List.filter_congr fun x _ => by simp
  rw [unique_dups, List.eraseDups_append, rest, nodup_dups (nodup.filter _)]

theorem remove_elements_kept (base elements : List Bytes) :
    ∃ kept, removeElements base elements = .ok kept ∧ kept.Sublist base ∧
      ∀ b, b ∈ kept ↔ b ∈ base ∧ ¬ ∃ w ∈ elements, Wild Line (runes w) (runes b) := by
  cases elements with
  | nil => exact ⟨base, if_pos rfl, List.Sublist.refl base, fun b => by simp⟩
  | cons item elements =>
    obtain ⟨re, compiled, found⟩ := compile_removal item elements
    refine ⟨base.filter fun b => !matchString re (runes b), ?_, List.filter_sublist, fun b => ?_⟩
    · rw [removeElements, if_neg (by simp), compiled]
    · rw [List.mem_filter, ← found (runes b)]
      simp

/-- The operators on a list without repetitions. A removed item is one that some item of
    the list matches in full, where the wildcards cover all characters but the newline. -/
theorem algorithm_list_modified (base : List Bytes) (nodup : base.Nodup) :
    (∀ list, modifyAlgorithmList base (43 :: list) = .ok (base ++ ((specItems list).filter (· ∉ base)).eraseDups)) ∧
    (∀ list, modifyAlgorithmList base (94 :: list) =
      .ok ((specItems list).eraseDups ++ base.filter (· ∉ specItems list))) ∧
    (∀ list, ∃ kept, modifyAlgorithmList base (45 :: list) = .ok kept ∧ kept.Sublist base ∧
      ∀ b, b ∈ kept ↔ b ∈ base ∧ ¬ ∃ w ∈ specItems list, Wild Line (runes w) (runes b)) ∧
    (∀ b, 10 ∉ b → ∀ p, Wild Line p (runes b) ↔ Wild (fun _ => True) p (runes b)) ∧
    (∀ c list, c ≠ 43 → c ≠ 94 → c ≠ 45 → modifyAlgorithmList base (c :: list) = .ok (specItems (c :: list))) ∧
    modifyAlgorithmList base [] = .ok base := by
  refine ⟨fun list => ?_, fun list => ?_, fun list => ?_, fun b line p => ?_, fun c list plus caret minus => ?_, rfl⟩
  · rw [modifyAlgorithmList, if_pos rfl, elements_of_items, unique_append nodup]
  · rw [modifyAlgorithmList, if_neg (by decide), if_pos rfl, elements_of_items, unique_insert nodup]
  · rw [modifyAlgorithmList, if_neg (by decide), if_neg (by decide), if_pos rfl, elements_of_items]
    exact remove_elements_kept base (specItems list)
  · have newline : 10 ∉ runes b := ascii_rune (c := 10) (by decide) line
    constructor
    · exact wild_mono fun c _ _ => trivial
    · exact wild_mono fun c member _ same => newline (same ▸ member)
  · rw [modifyAlgorithmList, if_neg plus, if_neg caret, if_neg minus, elements_of_items]

theorem ciphers_modified :
    modifyAlgorithmList [text "aes128-ctr", text "aes256-ctr"] (text "+3des-cbc, aes128-ctr,3des-cbc") =
      .ok [text "aes128-ctr", text "aes256-ctr", text "3des-cbc"] ∧
    modifyAlgorithmList [text "aes128-ctr", text "aes256-ctr"] (text "-aes1*") = .ok [text "aes256-ctr"] ∧
    Wild Line (runes (text "aes1*")) (runes (text "aes128-ctr")) := by
  obtain ⟨appends, _, removes, _⟩ := algorithm_list_modified [text "aes128-ctr", text "aes256-ctr"] (by decide)
  have appended := appends (text "3des-cbc, aes128-ctr,3des-cbc")
  have removed : modifyAlgorithmList [text "aes128-ctr", text "aes256-ctr"] (text "-aes1*") =
      .ok [text "aes256-ctr"] := by rfl
  obtain ⟨kept, result, _, members⟩ := removes (text "aes1*")
  cases removed.symm.trans result
  refine ⟨appended.trans (congrArg Except.ok (by decide +kernel)), removed, ?_⟩
  by_contra other
  have stays := (members (text "aes128-ctr")).2 ⟨by decide, fun ⟨w, listed, wild⟩ => other ?_⟩
  · exact absurd stays (by decide)
  · have only : specItems (text "aes1*") = [text "aes1*"] := by decide
    rw [only, List.mem_singleton] at listed
    exact listed ▸ wild

/-- An asterisk covers a text with a newline in it, but does not remove it; and a
    specification without items leaves the list as it is. -/
theorem newline_kept_and_empty_spec :
    modifyAlgorithmList [[97, 10, 98]] (text "-*") = .ok [[97, 10, 98]] ∧
    Wild (fun _ => True) (runes (text "*")) (runes [97, 10, 98]) ∧
    modifyAlgorithmList [text "aes128-ctr"] [] = .ok [text "aes128-ctr"] ∧ specItems [] = [] := by
  refine ⟨by rfl, ?_, rfl, by decide⟩
  exact .more trivial (.more trivial (.more trivial (.none .nil)))

end Lists

end AlgorithmLists
