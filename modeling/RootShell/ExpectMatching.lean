import RootShell.AlgorithmLists
import RootShell.QuotedText
import RootShell.SendTexts

/-!
Waiting for a pattern in the output of the server: waitForPattern with handleOutput of
tssh/expect.go. Every chunk that is received is quoted on its own and added to the text the
pattern is looked for in. A channel that has been closed goes on delivering empty chunks.
-/
namespace ExpectMatching
open AlgorithmLists ByteLines ByteText QuotedText RegexpTexts RuneText SendTexts TokenExpansion

variable {chunks front : List Bytes}

section Code

structure CaseSend where
  re : Re
  sender : Option ExpectSender
  buffer : Bytes

/-- One case gets more output: it fires, and starts anew, when its expression matches. -/
def CaseSend.handle (param : SshParam) (output : Bytes) (c : CaseSend) : CaseSend × List Bytes :=
  if matchString c.re (runes (c.buffer ++ output)) then ({ c with buffer := [] }, sendInput param c.sender)
  else ({ c with buffer := c.buffer ++ output }, [])

def handleOutput (param : SshParam) (output : Bytes) (cases : List CaseSend) : List CaseSend × List Bytes :=
  (cases.map fun c => (c.handle param output).1, cases.flatMap fun c => (c.handle param output).2)

inductive Receipt
  | done
  | chunk (buf : Bytes)

structure Waiting where
  builder : Bytes
  cases : List CaseSend
  sent : List Bytes

inductive Outcome
  | waiting (s : Waiting)
  | cancelled
  | invalid
  | matched (s : Waiting)

def Outcome.returned : Outcome → Bool
  | .waiting _ => false
  | _ => true

def Outcome.found : Outcome → Bool
  | .matched _ => true
  | _ => false

def Outcome.text : Outcome → Bytes
  | .waiting s => s.builder
  | .matched s => s.builder
  | _ => []

def outputOf (buf : Bytes) : Bytes := (quoteToASCII buf).tail.dropLast

def Waiting.take (param : SshParam) (s : Waiting) (buf : Bytes) : Waiting where
  builder := s.builder ++ outputOf buf
  cases := (handleOutput param (outputOf buf) s.cases).1
  sent := s.sent ++ (handleOutput param (outputOf buf) s.cases).2

def isMatch (pattern : Bytes) (re : Re) (builder : Bytes) : Bool := pattern ≠ [] && matchString re (runes builder)

def waitLoop (param : SshParam) (pattern : Bytes) (re : Re) : Waiting → List Receipt → Outcome
  | s, [] => .waiting s
  | _, .done :: _ => .cancelled
  | s, .chunk buf :: receipts =>
    if buf = [] then waitLoop param pattern re s receipts
    else if isMatch pattern re (s.take param buf).builder then .matched (s.take param buf)
    else waitLoop param pattern re (s.take param buf) receipts

def waitForPattern (param : SshParam) (pattern : Bytes) (cases : List CaseSend) (receipts : List Receipt) : Outcome :=
  match compile (wildcardToRegexp pattern) with
  | none => .invalid
  | some re => waitLoop param pattern re ⟨[], cases, []⟩ receipts

end Code

section Loop
variable {param : SshParam} {pattern : Bytes} {re : Re}

theorem output_quoted (buf : Bytes) : outputOf buf = quoted buf := by
  rw [outputOf, quoteToASCII, List.tail_cons, List.dropLast_concat]

theorem take_builder (s : Waiting) (buf : Bytes) : (s.take param buf).builder = s.builder ++ quoted buf := by
  rw [Waiting.take, output_quoted]

theorem wait_loop_append (s : Waiting) (before after : List Receipt) :
    waitLoop param pattern re s (before ++ after) =
      match waitLoop param pattern re s before with
      | .waiting t => waitLoop param pattern re t after
      | outcome => outcome := by
  induction before generalizing s with
  | nil => rfl
  | cons receipt before ih =>
    cases receipt with
    | done => rfl
    | chunk buf =>
      simp only [List.cons_append, waitLoop]
      split_ifs
      · exact ih s
      · rfl
      · exact ih _

theorem quoted_empty (empty : chunks.flatten = []) : chunks.flatMap quoted = [] := by
  refine List.flatMap_eq_nil_iff.2 fun chunk member => ?_
  rw [List.flatten_eq_nil_iff.1 empty chunk member]
  rfl

theorem waiting_text {s t : Waiting} (waits : waitLoop param pattern re s (chunks.map .chunk) = .waiting t) :
    t.builder = s.builder ++ chunks.flatMap quoted ∧ (chunks.flatten ≠ [] → isMatch pattern re t.builder = false) := by
  induction chunks generalizing s with
  | nil =>
    cases waits
    simp
  | cons buf chunks ih =>
    rw [List.map_cons, waitLoop] at waits
    split_ifs at waits with empty found
    · obtain ⟨builder, missed⟩ := ih waits
      rw [empty, List.flatMap_cons, List.flatten_cons, List.nil_append]
      exact ⟨builder, missed⟩
    · obtain ⟨builder, missed⟩ := ih waits
      rw [take_builder, List.append_assoc, ← List.flatMap_cons] at builder
      refine ⟨builder, fun _ => ?_⟩
      by_cases rest : chunks.flatten = []
      · -- nothing came after this chunk, which did not match
        rw [builder, List.flatMap_cons, quoted_empty rest, List.append_nil, ← take_builder]
        simpa using found
      · exact missed rest

theorem wait_returns_iff (s : Waiting) (chunks : List Bytes) :
    (waitLoop param pattern re s (chunks.map .chunk)).returned = true ↔
      ∃ front, front <+: chunks ∧ front.flatten ≠ [] ∧
        isMatch pattern re (s.builder ++ front.flatMap quoted) = true := by
  induction chunks generalizing s with
  | nil => simp [waitLoop, Outcome.returned]
  | cons buf chunks ih =>
    rw [List.map_cons, waitLoop]
    split_ifs with empty found
    · rw [ih s]
      constructor
      · rintro ⟨front, before, some, matched⟩
        exact ⟨buf :: front, List.cons_prefix_cons.2 ⟨rfl, before⟩, by simp [some], by rw [empty]; exact matched⟩
      · rintro ⟨front, before, some, matched⟩
        rcases front with _ | ⟨first, front⟩
        · simp at some
        · obtain ⟨rfl, inner⟩ := List.cons_prefix_cons.1 before
          rw [empty] at some matched
          exact ⟨front, inner, by simpa using some, matched⟩
    · rw [take_builder] at found
      simp only [Outcome.returned, true_iff]
      exact ⟨[buf], List.cons_prefix_cons.2 ⟨rfl, List.nil_prefix⟩, by simpa using empty, by simpa using found⟩
    · rw [ih, take_builder]
      rw [take_builder] at found
      constructor
      · rintro ⟨front, before, some, matched⟩
        refine ⟨buf :: front, List.cons_prefix_cons.2 ⟨rfl, before⟩, by simp [empty], ?_⟩
        rwa [List.append_assoc] at matched
      · rintro ⟨front, before, some, matched⟩
        rcases front with _ | ⟨first, front⟩
        · simp at some
        · obtain ⟨rfl, inner⟩ := List.cons_prefix_cons.1 before
          rw [List.flatMap_cons, ← List.append_assoc] at matched
          refine ⟨front, inner, fun rest => found ?_, matched⟩
          rwa [quoted_empty rest, List.append_nil] at matched

end Loop

section Chunks
variable (param : SshParam) (pattern : Bytes) (cases : List CaseSend)

def afterChunks (chunks : List Bytes) : Outcome := waitForPattern param pattern cases (chunks.map .chunk)

def NoEarlierMatch (chunks : List Bytes) : Prop := (afterChunks param pattern cases chunks.dropLast).returned = false

def RunesWhole (chunks : List Bytes) : Prop :=
  ∀ front chunk back, chunks = front ++ chunk :: back → ¬ SplitsRune front.flatten chunk

def patternRe (pattern : Bytes) : Re := chain ((runes pattern).map wildRe) .empty

variable {param pattern cases}

theorem after_chunks_loop :
    afterChunks param pattern cases chunks =
      waitLoop param pattern (patternRe pattern) ⟨[], cases, []⟩ (chunks.map .chunk) := by
  rw [afterChunks, waitForPattern, compile_wildcard]
  rfl

theorem after_chunks_last (quiet : NoEarlierMatch param pattern cases chunks) :
    (afterChunks param pattern cases chunks).text = chunks.flatMap quoted ∧
    ((afterChunks param pattern cases chunks).found = true ↔
      chunks.flatten ≠ [] ∧ isMatch pattern (patternRe pattern) (chunks.flatMap quoted) = true) := by
  rcases List.eq_nil_or_concat chunks with rfl | ⟨front, last, rfl⟩
  · rw [after_chunks_loop]
    simp [waitLoop, Outcome.text, Outcome.found]
  · rw [NoEarlierMatch, List.concat_eq_append, List.dropLast_concat, after_chunks_loop] at quiet
    rw [after_chunks_loop, List.concat_eq_append, List.map_append, wait_loop_append]
    cases before : waitLoop param pattern (patternRe pattern) ⟨[], cases, []⟩ (front.map .chunk) with
    | cancelled => rw [before] at quiet; cases quiet
    | invalid => rw [before] at quiet; cases quiet
    | matched s => rw [before] at quiet; cases quiet
    | waiting s =>
      obtain ⟨builder, missed⟩ := waiting_text before
      rw [List.nil_append] at builder
      have whole : (front ++ [last]).flatMap quoted = s.builder ++ quoted last := by simp [builder]
      simp only [List.map_cons, List.map_nil, waitLoop]
      split_ifs with empty found
      · have same : (front ++ [last]).flatMap quoted = s.builder := by
          rw [whole, empty]
          exact List.append_nil _
        rw [same]
        refine ⟨rfl, nofun, ?_⟩
        rintro ⟨some, matched⟩
        rw [missed (by simpa [empty] using some)] at matched
        cases matched
      · rw [take_builder, ← whole] at found
        refine ⟨(take_builder s last).trans whole.symm, fun _ => ⟨by simp [empty], found⟩, fun _ => rfl⟩
      · rw [take_builder, ← whole] at found
        exact ⟨(take_builder s last).trans whole.symm, nofun, fun matched => absurd matched.2 found⟩

end Chunks

/-- The accumulated text is the quoted output exactly when no chunk ends inside the encoding
    of a rune; cut like that, the output matches for one partition when it does for another. -/
theorem expect_text_exact (param : SshParam) (pattern : Bytes) (cases : List CaseSend) (chunks : List Bytes)
    (quiet : NoEarlierMatch param pattern cases chunks) :
    ((afterChunks param pattern cases chunks).text = quoted chunks.flatten ↔ RunesWhole chunks) ∧
    ∀ others, others.flatten = chunks.flatten → NoEarlierMatch param pattern cases others →
      RunesWhole chunks → RunesWhole others →
      ((afterChunks param pattern cases chunks).found = true ↔
        (afterChunks param pattern cases others).found = true) := by
  obtain ⟨text, found⟩ := after_chunks_last quiet
  constructor
  · rw [text]
    exact quoted_pieces_iff chunks
  · intro others same still whole wholes
    rw [found, (after_chunks_last still).2, (quoted_pieces_iff chunks).2 whole, (quoted_pieces_iff others).2 wholes,
      same]

theorem whole_runes_quoted :
    (afterChunks office (text "x") [] [text "é", text "!"]).text = quoted (text "é!") := by
  have quiet : NoEarlierMatch office (text "x") [] [text "é", text "!"] := by
    unfold NoEarlierMatch
    decide +kernel
  refine (expect_text_exact office (text "x") [] [text "é", text "!"] quiet).1.2 ?_
  rintro front chunk back split
  rcases front with _ | ⟨_, _ | ⟨_, front⟩⟩
  · rintro ⟨_, p, _, _, _, some, _, back, _⟩
    exact some (List.suffix_nil.1 back)
  · obtain ⟨rfl, rest⟩ := List.cons.inj split
    obtain ⟨rfl, _⟩ := List.cons.inj rest
    exact fresh_not_split (by decide) _ []
  · simp at split

theorem split_rune_missed :
    (afterChunks office (text "u00e9") [] [[0xC3], [0xA9]]).text = text "\\xc3\\xa9" ∧
    quoted (text "é") = text "\\u00e9" ∧
    (afterChunks office (text "u00e9") [] [[0xC3], [0xA9]]).found = false ∧
    (afterChunks office (text "u00e9") [] [text "é"]).found = true := by
  refine ⟨by decide +kernel, by decide +kernel, by decide +kernel, by decide +kernel⟩

section Ends

structure Channels where
  out : List Bytes
  err : List Bytes

inductive Source
  | out
  | err

/-- A receive from a closed channel gives an empty chunk at once. -/
def Channels.receive (c : Channels) : Source → Bytes × Channels
  | .out => (c.out.headD [], { c with out := c.out.tail })
  | .err => (c.err.headD [], { c with err := c.err.tail })

def received : Channels → List Source → List Bytes
  | _, [] => []
  | c, source :: sources => (c.receive source).1 :: received (c.receive source).2 sources

def rounds (choose : Nat → Source) (n : Nat) : List Source := (List.range n).map choose

theorem received_append (c : Channels) (before after : List Source) :
    ∃ rest, received c (before ++ after) = received c before ++ rest := by
  induction before generalizing c with
  | nil => exact ⟨_, rfl⟩
  | cons source before ih =>
    obtain ⟨rest, later⟩ := ih (c.receive source).2
    exact ⟨rest, by rw [List.cons_append, received, received, later, List.cons_append]⟩

theorem received_length (c : Channels) (sources : List Source) : (received c sources).length = sources.length := by
  induction sources generalizing c with
  | nil => rfl
  | cons source sources ih => rw [received, List.length_cons, ih, List.length_cons]

theorem received_front (c : Channels) (choose : Nat → Source) {n : Nat}
    (before : front <+: received c (rounds choose n)) : front = received c (rounds choose front.length) := by
  have short := before.length_le
  rw [received_length, rounds, List.length_map, List.length_range] at short
  obtain ⟨k, rfl⟩ := Nat.exists_eq_add_of_le short
  obtain ⟨rest, whole⟩ :=
    received_append c (rounds choose front.length) ((List.range k).map fun i => choose (front.length + i))
  have split : rounds choose (front.length + k) =
      rounds choose front.length ++ (List.range k).map fun i => choose (front.length + i) := by
    rw [rounds, List.range_add, List.map_append, List.map_map]
    rfl
  rw [split, whole] at before
  have here := List.prefix_append (received c (rounds choose front.length)) rest
  have same := List.prefix_of_prefix_length_le before here (by rw [received_length, rounds]; simp)
  exact same.eq_of_length (by rw [received_length, rounds]; simp)

theorem received_nothing (sources : List Source) : (received ⟨[], []⟩ sources).flatten = [] := by
  induction sources with
  | nil => rfl
  | cons source sources ih => cases source <;> exact ih

theorem received_one (b : Bytes) (sources : List Source) :
    (received ⟨[b], []⟩ sources).flatMap quoted = [] ∨ (received ⟨[b], []⟩ sources).flatMap quoted = quoted b := by
  induction sources with
  | nil => exact Or.inl rfl
  | cons source sources ih =>
    cases source with
    | out =>
      have rest : (received ⟨[], []⟩ sources).flatMap quoted = [] := quoted_empty (received_nothing sources)
      right
      change quoted b ++ (received ⟨[], []⟩ sources).flatMap quoted = quoted b
      rw [rest, List.append_nil]
    | err => exact ih

end Ends

/-- Without a cancelled context the call returns, whatever the select statements take, exactly
    when after some round the chunks received so far make a text that the pattern matches;
    the end of both streams does not end it. -/
theorem waiting_ends_iff (param : SshParam) (pattern : Bytes) (cases : List CaseSend) (out err : List Bytes)
    (choose : Nat → Source) :
    (∃ n, (afterChunks param pattern cases (received ⟨out, err⟩ (rounds choose n))).returned = true) ↔
      pattern ≠ [] ∧ ∃ n, (received ⟨out, err⟩ (rounds choose n)).flatten ≠ [] ∧
        matchString (patternRe pattern) (runes ((received ⟨out, err⟩ (rounds choose n)).flatMap quoted)) = true := by
  simp only [after_chunks_loop, wait_returns_iff, List.nil_append, isMatch, Bool.and_eq_true, decide_eq_true_eq]
  constructor
  · rintro ⟨n, front, before, some, named, matched⟩
    have early := received_front ⟨out, err⟩ choose before
    exact ⟨named, front.length, by rwa [← early], by rwa [← early]⟩
  · rintro ⟨named, n, some, matched⟩
    exact ⟨n, _, List.prefix_refl _, some, named, matched⟩

/-- The server says goodbye and closes both streams: nothing more comes but empty chunks, and
    the loop goes on with them for good. -/
theorem ended_output_spins :
    received ⟨[text "bye"], []⟩ [.out, .out, .err] = [text "bye", [], []] ∧
    ∀ choose, ¬ ∃ n,
      (afterChunks office (text "$") [] (received ⟨[text "bye"], []⟩ (rounds choose n))).returned = true := by
  refine ⟨by decide +kernel, ?_⟩
  rintro choose ⟨n, returned⟩
  rw [after_chunks_loop, wait_returns_iff] at returned
  obtain ⟨front, before, _, matched⟩ := returned
  rw [received_front _ _ before] at matched
  rcases received_one (text "bye") (rounds choose front.length) with none | one
  · rw [none] at matched
    exact absurd matched (by decide +kernel)
  · rw [one] at matched
    exact absurd matched (by decide +kernel)

end ExpectMatching
