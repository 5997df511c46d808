import RootShell.BufferedReader
import RootShell.ByteText

/-!
Reading an HTTP/1.x message head off a buffered connection (readHead in
vpntunnel/http1.go). The loop treats every slice of the buffer as a line, so the
proofs follow a line through all the slices it is cut into.
-/
namespace HeadReading
open ByteLines BufferedReader

variable {rest line buf s t l blank raw : Bytes} {lead lines before after : List Bytes} {size fuel : Nat}
  {r : BufReader}

inductive HttpError where
  | read (e : ReadError)
  | unexpectedEOF
  | headTooLarge
  | emptyHead
  | malformedHeaderLine (line : Bytes)
  | malformedRequestLine (line : Bytes)
  | malformedStatusLine (line : Bytes)
  | malformedStatusCode (code : Bytes)
  | conflictingContentLength
  | badContentLength (value : Bytes)
  | unsupportedTransferEncoding
  | badChunkSize (size : Bytes)
  | chunkLineTooLong
  | writeFailed
  deriving DecidableEq, Repr

def maxHeadBytes : Nat := 64 * 1024

def readHeadLoop : Nat → Bytes → BufReader → Except HttpError Bytes × BufReader
  | 0, _, r => (.error .headTooLarge, r)
  | fuel + 1, buf, r =>
    match r.readSlice with
    | (line, some (.read e), next) =>
      if buf = [] ∧ line = [] then (.error (.read e), next)
      else (.error (if e = .eof then .unexpectedEOF else .read e), next)
    | (line, err, next) =>
      if buf = [] ∧ Blank line then readHeadLoop fuel buf next
      else if maxHeadBytes < (buf ++ line).length then (.error .headTooLarge, next)
      else if err = some .bufferFull then readHeadLoop fuel (buf ++ line) next
      else if Blank line then (.ok (buf ++ line), next)
      else readHeadLoop fuel (buf ++ line) next

/-- The raw head including the terminating blank line; bare line ends before it are skipped. -/
def readHead (r : BufReader) : Except HttpError Bytes × BufReader :=
  readHeadLoop (r.stream.length + 1) [] r

structure HeadLines where
  lines : List Bytes
  blank : Bytes
  some : lines ≠ []
  isLine : ∀ l ∈ lines, IsLine l
  solid : ∀ l ∈ lines, ¬ Blank l
  ends : Blank blank

def HeadLines.bytes (h : HeadLines) : Bytes := h.lines.flatten ++ h.blank

theorem head_bytes_unique {h k : HeadLines} (same : h.bytes ++ s = k.bytes ++ t) : h.bytes = k.bytes ∧ s = t := by
  obtain ⟨lines, blank, _, isLine, solid, ends⟩ := h
  obtain ⟨lines', blank', _, isLine', solid', ends'⟩ := k
  simp only [HeadLines.bytes, List.append_assoc] at same ⊢
  clear * - isLine solid ends isLine' solid' ends' same
  induction lines generalizing lines' with
  | nil =>
    cases lines' with
    | nil =>
      obtain ⟨rfl, rfl⟩ := line_prefix_unique (blank_is_line ends) (blank_is_line ends') (by simpa using same)
      exact ⟨rfl, rfl⟩
    | cons l ls =>
      rw [List.flatten_cons, List.append_assoc] at same
      have eq := (line_prefix_unique (blank_is_line ends) (isLine' l (by simp)) same).1
      exact absurd (eq ▸ ends) (solid' l (by simp))
  | cons l ls ih =>
    rw [List.flatten_cons, List.append_assoc] at same
    cases lines' with
    | nil =>
      have eq := (line_prefix_unique (isLine l (by simp)) (blank_is_line ends') same).1
      exact absurd (eq ▸ ends') (solid l (by simp))
    | cons m ms =>
      rw [List.flatten_cons, List.append_assoc] at same
      obtain ⟨rfl, rest⟩ := line_prefix_unique (isLine l (by simp)) (isLine' m (by simp)) same
      obtain ⟨eq, eq'⟩ := ih (fun x hx => isLine x (by simp [hx])) (fun x hx => solid x (by simp [hx])) ms
        (fun x hx => isLine' x (by simp [hx])) (fun x hx => solid' x (by simp [hx])) rest
      exact ⟨by simp only [List.flatten_cons, List.append_assoc, eq], eq'⟩

def EndsBlank (size : Nat) (l : Bytes) : Prop :=
  l.length % size = 1 ∨ l.length % size = 2 ∧ [13, 10] <:+ l

instance (size : Nat) (l : Bytes) : Decidable (EndsBlank size l) :=
  inferInstanceAs (Decidable (_ ∨ _ ∧ _))

def TailBlank (size : Nat) (l : Bytes) : Prop := size < l.length ∧ EndsBlank size l

instance (size : Nat) (l : Bytes) : Decidable (TailBlank size l) :=
  inferInstanceAs (Decidable (_ ∧ _))

theorem ends_blank_short (room : 16 ≤ size) (line : IsLine l)
    (short : l.length ≤ size) : EndsBlank size l ↔ Blank l := by
  obtain ⟨body, rfl, clean⟩ := line
  simp only [List.length_append, List.length_singleton] at short
  have mod : (body.length + 1) % size = 1 ↔ body.length = 0 := by
    by_cases full : body.length + 1 = size
    · rw [full, Nat.mod_self]; omega
    · rw [Nat.mod_eq_of_lt (by omega)]; omega
  have modTwo : (body.length + 1) % size = 2 ↔ body.length = 1 := by
    by_cases full : body.length + 1 = size
    · rw [full, Nat.mod_self]; omega
    · rw [Nat.mod_eq_of_lt (by omega)]; omega
  simp only [EndsBlank, List.length_append, List.length_singleton, mod, modTwo]
  constructor
  · rintro (empty | ⟨one, suffix⟩)
    · exact Or.inl (by simp [List.length_eq_zero_iff.mp empty])
    · right
      obtain ⟨b, rfl⟩ := List.length_eq_one_iff.mp one
      exact (suffix.eq_of_length (by simp)).symm
  · rintro (eq | eq)
    · exact Or.inl (by simpa using congrArg List.length eq)
    · exact Or.inr ⟨by simpa using congrArg List.length eq, by rw [eq]⟩

theorem ends_blank_drop (long : size < l.length) : EndsBlank size l ↔ EndsBlank size (l.drop size) := by
  have mod : (l.drop size).length % size = l.length % size := by
    rw [List.length_drop, ← Nat.mod_eq_sub_mod (by omega)]
  simp only [EndsBlank, mod]
  constructor
  · rintro (one | ⟨two, suffix⟩)
    · exact Or.inl one
    · have enough : 2 ≤ (l.drop size).length := by
        have := Nat.mod_le (l.drop size).length size
        omega
      exact Or.inr ⟨two, List.suffix_of_suffix_length_le suffix (List.drop_suffix size l) enough⟩
  · rintro (one | ⟨two, suffix⟩)
    · exact Or.inl one
    · exact Or.inr ⟨two, suffix.trans (List.drop_suffix size l)⟩

theorem read_head_full_slice (valid : r.WellFormed) (buf : Bytes) (isLine : IsLine line)
    (stream : r.stream = line ++ rest) (long : r.size < line.length) (budget : r.stream.length < fuel + 1) :
    ∃ next, next.WellFormed ∧ next.size = r.size ∧ next.stream = line.drop r.size ++ rest ∧
      next.stream.length < fuel ∧ buf ++ line.take r.size ≠ [] ∧
      readHeadLoop (fuel + 1) buf r =
        if maxHeadBytes < (buf ++ line.take r.size).length then (.error .headTooLarge, next)
        else readHeadLoop fuel (buf ++ line.take r.size) next := by
  obtain ⟨next, slicing, valid', size, stream'⟩ := read_slice_full valid isLine stream long
  have room := valid.room
  have lengths : r.stream.length = line.length + rest.length := by simp [stream]
  have taken : (line.take r.size).length = r.size := by rw [List.length_take]; omega
  have solid : ¬ Blank (line.take r.size) := by
    rintro (eq | eq) <;> simp [eq] at taken <;> omega
  have unskipped : ¬ (buf = [] ∧ Blank (line.take r.size)) := by tauto
  have budget' : next.stream.length < fuel := by
    rw [stream', List.length_append, List.length_drop]
    omega
  have some : buf ++ line.take r.size ≠ [] := by
    apply List.ne_nil_of_length_pos
    rw [List.length_append]
    omega
  refine ⟨next, valid', size, stream', budget', some, ?_⟩
  simp only [readHeadLoop, slicing, unskipped, ↓reduceIte]

/-- The loop on one line of the head. Its slices are collected, and a last slice that is a
    bare line end finishes the head; otherwise the loop goes on behind the line. -/
theorem read_head_line (valid : r.WellFormed) (isLine : IsLine line) (stream : r.stream = line ++ rest)
    (kept : buf ≠ [] ∨ ¬ Blank line) (small : (buf ++ line).length ≤ maxHeadBytes) (budget : r.stream.length < fuel) :
    ∃ next, next.WellFormed ∧ next.size = r.size ∧ next.stream = rest ∧
      if EndsBlank r.size line then readHeadLoop fuel buf r = (.ok (buf ++ line), next)
      else ∃ more, rest.length < more ∧
        readHeadLoop fuel buf r = readHeadLoop more (buf ++ line) next := by
  induction len : line.length using Nat.strongRecOn generalizing r buf line fuel with
  | ind n ih =>
    subst len
    obtain ⟨fuel, rfl⟩ : ∃ k, fuel = k + 1 := ⟨fuel - 1, by omega⟩
    have positive := line_length_pos isLine
    have lengths : r.stream.length = line.length + rest.length := by simp [stream]
    by_cases short : line.length ≤ r.size
    · obtain ⟨next, slicing, valid', size, stream'⟩ := read_slice_line valid isLine stream short
      have unskipped : ¬ (buf = [] ∧ Blank line) := by tauto
      have fits : ¬ maxHeadBytes < (buf ++ line).length := by omega
      refine ⟨next, valid', size, stream', ?_⟩
      simp only [readHeadLoop, slicing, unskipped, fits, ↓reduceIte, reduceCtorEq,
        ends_blank_short valid.room isLine short]
      split
      · rfl
      · exact ⟨fuel, by omega, rfl⟩
    · have long : r.size < line.length := by omega
      have room := valid.room
      obtain ⟨next, valid', size, stream', budget', some, step⟩ :=
        read_head_full_slice valid buf isLine stream long budget
      have total : buf ++ line.take r.size ++ line.drop r.size = buf ++ line := by
        rw [List.append_assoc, List.take_append_drop]
      have fits : ¬ maxHeadBytes < (buf ++ line.take r.size).length := by
        rw [← total, List.length_append] at small
        omega
      obtain ⟨last, valid'', size', stream'', outcome⟩ :=
        ih (line.drop r.size).length (by rw [List.length_drop]; omega) valid'
          (line_drop isLine long) stream' (Or.inl some) (total ▸ small) budget' rfl
      refine ⟨last, valid'', size'.trans size, stream'', ?_⟩
      rw [size, total] at outcome
      rw [step, if_neg fits]
      simp only [ends_blank_drop long]
      exact outcome

theorem ends_blank_iff_tail (room : 16 ≤ size) (line : IsLine l)
    (solid : ¬ Blank l) : EndsBlank size l ↔ TailBlank size l := by
  by_cases short : l.length ≤ size
  · have long : ¬ size < l.length := by omega
    simp [TailBlank, long, ends_blank_short room line short, solid]
  · simp [TailBlank, show size < l.length by omega]

theorem read_head_skip (valid : r.WellFormed) (skipped : ∀ l ∈ lead, Blank l)
    (stream : r.stream = lead.flatten ++ rest) (budget : r.stream.length < fuel) :
    ∃ next more, next.WellFormed ∧ next.size = r.size ∧ next.stream = rest ∧ rest.length < more ∧
      readHeadLoop fuel [] r = readHeadLoop more [] next := by
  induction lead generalizing r fuel with
  | nil => exact ⟨r, fuel, valid, rfl, by simpa using stream, by simpa [stream] using budget, rfl⟩
  | cons l lead ih =>
    obtain ⟨fuel, rfl⟩ : ∃ k, fuel = k + 1 := ⟨fuel - 1, by omega⟩
    have blank := skipped l (by simp)
    have line := blank_is_line blank
    have positive := line_length_pos line
    have short : l.length ≤ r.size := by
      have := valid.room
      rcases blank with rfl | rfl <;> simp <;> omega
    simp only [List.flatten_cons, List.append_assoc] at stream
    obtain ⟨next, slicing, valid', size, stream'⟩ := read_slice_line valid line stream short
    have budget' : next.stream.length < fuel := by
      rw [stream, List.length_append] at budget
      rw [stream']
      omega
    obtain ⟨last, more, valid'', size', rest', enough, eq⟩ :=
      ih valid' (fun m member => skipped m (by simp [member])) stream' budget'
    refine ⟨last, more, valid'', size'.trans size, rest', enough, ?_⟩
    simp only [readHeadLoop, slicing, blank, and_self, ↓reduceIte]
    exact eq

theorem read_head_lines (valid : r.WellFormed) (isLine : ∀ l ∈ lines, IsLine l) (solid : ∀ l ∈ lines, ¬ Blank l)
    (whole : ∀ l ∈ lines, ¬ TailBlank r.size l) (stream : r.stream = lines.flatten ++ rest)
    (small : (buf ++ lines.flatten).length ≤ maxHeadBytes) (budget : r.stream.length < fuel) :
    ∃ next more, next.WellFormed ∧ next.size = r.size ∧ next.stream = rest ∧ rest.length < more ∧
      readHeadLoop fuel buf r = readHeadLoop more (buf ++ lines.flatten) next := by
  induction lines generalizing r buf fuel with
  | nil =>
    exact ⟨r, fuel, valid, rfl, by simpa using stream, by simpa [stream] using budget, by simp⟩
  | cons l lines ih =>
    simp only [List.flatten_cons, List.append_assoc] at stream
    simp only [List.flatten_cons, ← List.append_assoc] at small ⊢
    have line := isLine l (by simp)
    have kept := solid l (by simp)
    have small' : (buf ++ l).length ≤ maxHeadBytes := by
      rw [List.length_append] at small
      omega
    obtain ⟨next, valid', size, stream', outcome⟩ :=
      read_head_line valid line stream (Or.inr kept) small' budget
    rw [if_neg (by rw [ends_blank_iff_tail valid.room line kept]; exact whole l (by simp))] at outcome
    obtain ⟨more, enough, eq⟩ := outcome
    obtain ⟨last, more', valid'', size', rest', enough', eq'⟩ :=
      ih valid' (fun m hm => isLine m (by simp [hm])) (fun m hm => solid m (by simp [hm]))
        (fun m hm => by rw [size]; exact whole m (by simp [hm])) stream' small
        (show next.stream.length < more by rw [stream']; exact enough)
    exact ⟨last, more', valid'', size'.trans size, rest', enough', eq.trans eq'⟩

theorem read_head_cut (valid : r.WellFormed) (isLine : ∀ l ∈ lines ++ [line], IsLine l)
    (solid : ∀ l ∈ lines ++ [line], ¬ Blank l) (whole : ∀ l ∈ lines, ¬ TailBlank r.size l)
    (cut : TailBlank r.size line) (stream : r.stream = lines.flatten ++ line ++ rest)
    (small : (buf ++ lines.flatten ++ line).length ≤ maxHeadBytes) (budget : r.stream.length < fuel) :
    ∃ next, next.stream = rest ∧ readHeadLoop fuel buf r = (.ok (buf ++ lines.flatten ++ line), next) := by
  have small' : (buf ++ lines.flatten).length ≤ maxHeadBytes := by
    rw [List.length_append] at small
    omega
  obtain ⟨next, more, valid', size, stream', enough, eq⟩ := read_head_lines valid
    (fun l hl => isLine l (by simp [hl])) (fun l hl => solid l (by simp [hl])) whole
    (stream.trans (List.append_assoc _ _ _)) small' budget
  have line_ := isLine line (by simp)
  have kept := solid line (by simp)
  obtain ⟨last, _, _, stream'', outcome⟩ := read_head_line valid' line_ stream' (Or.inr kept) small
    (by rw [stream']; exact enough)
  rw [size, if_pos ((ends_blank_iff_tail valid.room line_ kept).mpr cut)] at outcome
  exact ⟨last, stream'', eq.trans outcome⟩

theorem read_head_whole (valid : r.WellFormed) (skipped : ∀ l ∈ lead, Blank l) (head : HeadLines)
    (stream : r.stream = lead.flatten ++ head.bytes ++ rest) (small : head.bytes.length ≤ maxHeadBytes)
    (whole : ∀ l ∈ head.lines, ¬ TailBlank r.size l) :
    ∃ next, next.WellFormed ∧ next.size = r.size ∧ next.stream = rest ∧
      readHead r = (.ok head.bytes, next) := by
  obtain ⟨next, more, valid', size, stream', enough, eq⟩ := read_head_skip valid skipped
    (stream.trans (List.append_assoc _ _ _)) (Nat.lt_succ_self _)
  have small' : ([] ++ head.lines.flatten).length ≤ maxHeadBytes := by
    rw [HeadLines.bytes, List.length_append] at small
    rw [List.nil_append]
    omega
  obtain ⟨last, more', valid'', size', stream'', enough', eq'⟩ := read_head_lines valid'
    head.isLine head.solid (by simpa [size] using whole)
    (stream'.trans (List.append_assoc _ _ _)) small' (by rw [stream']; exact enough)
  have some : [] ++ head.lines.flatten ≠ [] := by
    obtain ⟨l, lines, eq⟩ := List.exists_cons_of_ne_nil head.some
    have := line_not_nil (head.isLine l (by simp [eq]))
    simp [eq, this]
  have blank := blank_is_line head.ends
  obtain ⟨final, valid3, size3, stream3, outcome⟩ := read_head_line valid'' blank stream''
    (Or.inl some) (by simpa [HeadLines.bytes] using small) (by rw [stream'']; exact enough')
  have short : head.blank.length ≤ last.size := by
    have := valid''.room
    rcases head.ends with eq | eq <;> simp [eq] <;> omega
  rw [if_pos ((ends_blank_short valid''.room blank short).mpr head.ends)] at outcome
  exact ⟨final, valid3, by rw [size3, size', size], stream3, eq.trans (eq'.trans outcome)⟩

theorem read_head_line_large (valid : r.WellFormed) (isLine : IsLine line) (stream : r.stream = line ++ rest)
    (kept : buf ≠ [] ∨ ¬ Blank line) (large : maxHeadBytes < (buf ++ line).length) (budget : r.stream.length < fuel) :
    ∃ next, readHeadLoop fuel buf r = (.error .headTooLarge, next) := by
  induction len : line.length using Nat.strongRecOn generalizing r buf line fuel with
  | ind n ih =>
    subst len
    obtain ⟨fuel, rfl⟩ : ∃ k, fuel = k + 1 := ⟨fuel - 1, by omega⟩
    have positive := line_length_pos isLine
    by_cases short : line.length ≤ r.size
    · obtain ⟨next, slicing, _⟩ := read_slice_line valid isLine stream short
      have unskipped : ¬ (buf = [] ∧ Blank line) := by tauto
      exact ⟨next, by simp only [readHeadLoop, slicing, unskipped, large, ↓reduceIte]⟩
    · have long : r.size < line.length := by omega
      have room := valid.room
      obtain ⟨next, valid', size, stream', budget', some, step⟩ :=
        read_head_full_slice valid buf isLine stream long budget
      by_cases tooLong : maxHeadBytes < (buf ++ line.take r.size).length
      · exact ⟨next, step.trans (if_pos tooLong)⟩
      · have total : buf ++ line.take r.size ++ line.drop r.size = buf ++ line := by
          rw [List.append_assoc, List.take_append_drop]
        obtain ⟨last, outcome⟩ := ih (line.drop r.size).length (by rw [List.length_drop]; omega) valid'
          (line_drop isLine long) stream' (Or.inl some) (total ▸ large) budget' rfl
        exact ⟨last, (step.trans (if_neg tooLong)).trans outcome⟩

theorem read_head_lines_large (valid : r.WellFormed) (isLine : ∀ l ∈ lines, IsLine l)
    (solid : ∀ l ∈ lines, ¬ Blank l) (whole : ∀ l ∈ lines, ¬ TailBlank r.size l) (ends : Blank blank)
    (stream : r.stream = lines.flatten ++ (blank ++ rest))
    (large : maxHeadBytes < (buf ++ lines.flatten ++ blank).length) (budget : r.stream.length < fuel) :
    ∃ e next, readHeadLoop fuel buf r = (.error e, next) := by
  induction lines generalizing r buf fuel with
  | nil =>
    simp only [List.flatten_nil, List.append_nil, List.nil_append] at stream large
    have some : buf ≠ [] := by
      rintro rfl
      rcases ends with rfl | rfl <;> simp [maxHeadBytes] at large
    obtain ⟨next, eq⟩ := read_head_line_large valid (blank_is_line ends) stream (Or.inl some) large budget
    exact ⟨_, next, eq⟩
  | cons l lines ih =>
    simp only [List.flatten_cons, List.append_assoc] at stream
    have line := isLine l (by simp)
    have kept := solid l (by simp)
    by_cases tooLong : maxHeadBytes < (buf ++ l).length
    · obtain ⟨next, eq⟩ := read_head_line_large valid line stream (Or.inr kept) tooLong budget
      exact ⟨_, next, eq⟩
    · obtain ⟨next, valid', size, stream', outcome⟩ :=
        read_head_line valid line stream (Or.inr kept) (Nat.le_of_not_lt tooLong) budget
      rw [if_neg (by rw [ends_blank_iff_tail valid.room line kept]; exact whole l (by simp))] at outcome
      obtain ⟨more, enough, eq⟩ := outcome
      rw [eq]
      refine ih valid' (fun m hm => isLine m (by simp [hm])) (fun m hm => solid m (by simp [hm]))
        (fun m hm => by rw [size]; exact whole m (by simp [hm])) stream' ?_ (by rw [stream']; exact enough)
      simpa using large

theorem read_head_only (valid : r.WellFormed) (skipped : ∀ l ∈ lead, Blank l) (head : HeadLines)
    (stream : r.stream = lead.flatten ++ head.bytes ++ rest) (whole : ∀ l ∈ head.lines, ¬ TailBlank r.size l)
    {next : BufReader} (read : readHead r = (.ok raw, next)) :
    raw = head.bytes ∧ next.WellFormed ∧ next.size = r.size ∧ next.stream = rest := by
  by_cases small : head.bytes.length ≤ maxHeadBytes
  · obtain ⟨last, valid', size, stream', eq⟩ := read_head_whole valid skipped head stream small whole
    rw [eq] at read
    cases read
    exact ⟨rfl, valid', size, stream'⟩
  · exfalso
    obtain ⟨mid, more, valid', size, stream', enough, eq⟩ := read_head_skip valid skipped
      (stream.trans (List.append_assoc _ _ _)) (Nat.lt_succ_self _)
    obtain ⟨e, last, failed⟩ := read_head_lines_large valid' head.isLine head.solid
      (by simpa [size] using whole) head.ends (stream'.trans (List.append_assoc _ _ _))
      (show maxHeadBytes < ([] ++ head.lines.flatten ++ head.blank).length by
        simpa [HeadLines.bytes] using small) (by rw [stream']; exact enough)
    have := (eq.trans failed).symm.trans read
    cases this

theorem read_head_drained (valid : r.WellFormed) (drained : r.stream = []) :
    ∃ e next, readHead r = (.error e, next) := by
  have sliced := read_slice_spec r valid
  rcases slicing : r.readSlice with ⟨out, err, next⟩
  rw [slicing] at sliced
  obtain ⟨rfl, _⟩ : out = [] ∧ next.stream = [] := by
    have := sliced.stream
    rw [drained] at this
    simpa using this
  cases err with
  | none => exact absurd rfl (line_not_nil (sliced.line rfl).1)
  | some e =>
    cases e with
    | bufferFull =>
      have length : 0 = r.size := (sliced.full rfl).1
      have := valid.room
      omega
    | read e => exact ⟨.read e, next, by simp [readHead, readHeadLoop, slicing]⟩

theorem read_head_cut_first (valid : r.WellFormed) (skipped : ∀ l ∈ lead, Blank l) (head : HeadLines)
    (stream : r.stream = lead.flatten ++ head.bytes ++ rest)
    (small : head.bytes.length ≤ maxHeadBytes) (split : head.lines = before ++ line :: after)
    (clean : ∀ l ∈ before, ¬ TailBlank r.size l) (cut : TailBlank r.size line) :
    ∃ next, next.stream = after.flatten ++ head.blank ++ rest ∧
      readHead r = (.ok (before.flatten ++ line), next) := by
  obtain ⟨next, more, valid', size, stream', enough, eq⟩ := read_head_skip valid skipped
    (stream.trans (List.append_assoc _ _ _)) (Nat.lt_succ_self _)
  have small' : ([] ++ before.flatten ++ line).length ≤ maxHeadBytes := by
    simp only [HeadLines.bytes, split, List.flatten_append, List.flatten_cons,
      List.length_append] at small
    simp only [List.nil_append, List.length_append]
    omega
  have regroup : next.stream = before.flatten ++ line ++ (after.flatten ++ head.blank ++ rest) := by
    simp [stream', HeadLines.bytes, split]
  have early : ∀ l ∈ before ++ [line], l ∈ head.lines := by
    intro l member
    rw [split]
    simp only [List.mem_append, List.mem_cons, List.not_mem_nil, or_false] at member ⊢
    tauto
  obtain ⟨last, stream'', outcome⟩ := read_head_cut valid' (fun l hl => head.isLine l (early l hl))
    (fun l hl => head.solid l (early l hl)) (by simpa [size] using clean) (by simpa [size] using cut)
    regroup small' (by rw [stream']; exact enough)
  exact ⟨last, stream'', eq.trans outcome⟩

/-- Reading a head returns it whole and leaves the reader behind it exactly when no line of
    it, longer than the buffer, ends in a slice that reads like a blank line. -/
theorem read_head_exact_iff (r : BufReader) (valid : r.WellFormed) (lead : List Bytes) (skipped : ∀ l ∈ lead, Blank l)
    (head : HeadLines) (rest : Bytes) (stream : r.stream = lead.flatten ++ head.bytes ++ rest)
    (small : head.bytes.length ≤ maxHeadBytes) :
    ((readHead r).1 = .ok head.bytes ∧ (readHead r).2.stream = rest) ↔
      ∀ l ∈ head.lines, ¬ TailBlank r.size l := by
  constructor
  · rintro ⟨whole, _⟩ l member cut
    have exists_ : (head.lines.find? fun l => decide (TailBlank r.size l)).isSome :=
      List.find?_isSome.mpr ⟨l, member, decide_eq_true cut⟩
    obtain ⟨line, found⟩ := Option.isSome_iff_exists.mp exists_
    obtain ⟨first, before, after, split, clean⟩ := List.find?_eq_some_iff_append.mp found
    obtain ⟨next, _, outcome⟩ := read_head_cut_first valid skipped head stream small split
      (by simpa using clean) (by simpa using first)
    rw [outcome] at whole
    have lengths := congrArg List.length (Except.ok.inj whole)
    have blank := line_length_pos (blank_is_line head.ends)
    simp only [HeadLines.bytes, split, List.flatten_append, List.flatten_cons,
      List.length_append] at lengths
    omega
  · intro whole
    obtain ⟨next, _, _, stream', eq⟩ := read_head_whole valid skipped head stream small whole
    rw [eq]
    exact ⟨rfl, stream'⟩

def strayReader : BufReader :=
  newReaderSize ⟨text "\r\n\nGET / HTTP/1.1\r\nHost: a\r\n\r\nrest", [3, 0, 5, 1, 40, 0], .eof, true, by decide⟩ 16

def shortHead : HeadLines where
  lines := [text "GET / HTTP/1.1\r\n", text "Host: a\r\n"]
  blank := [13, 10]
  some := by decide
  isLine := by decide
  solid := by decide
  ends := blank_crlf

theorem read_head_exact_stray :
    (readHead strayReader).1 = .ok shortHead.bytes ∧ (readHead strayReader).2.stream = text "rest" :=
  (read_head_exact_iff strayReader (new_reader_well_formed _ _).1 [[13, 10], [10]] (by decide) shortHead
    (text "rest") (by decide) (by decide)).mpr (by decide)

def paddedLine (n : Nat) : Bytes := text "X: " ++ List.replicate n 97 ++ [13, 10]

theorem padded_line_length (n : Nat) : (paddedLine n).length = n + 5 := by
  have : (text "X: ").length = 3 := by decide
  simp only [paddedLine, List.length_append, List.length_replicate, List.length_cons, List.length_nil]
  omega

theorem padded_line_is_line (n : Nat) : IsLine (paddedLine n) := by
  refine ⟨text "X: " ++ List.replicate n 97 ++ [13], by simp [paddedLine], ?_⟩
  have : (10 : UInt8) ∉ text "X: " := by decide
  simp [this, List.mem_replicate]

theorem padded_line_solid (n : Nat) : ¬ Blank (paddedLine n) := by
  have length := padded_line_length n
  rintro (eq | eq) <;> simp [eq] at length

def paddedHead (n : Nat) : HeadLines where
  lines := [text "GET / HTTP/1.1\r\n", paddedLine n]
  blank := [13, 10]
  some := by simp
  isLine := by
    intro l member
    have found : l = text "GET / HTTP/1.1\r\n" ∨ l = paddedLine n := by simpa using member
    rcases found with rfl | rfl
    · decide
    · exact padded_line_is_line n
  solid := by
    intro l member
    have found : l = text "GET / HTTP/1.1\r\n" ∨ l = paddedLine n := by simpa using member
    rcases found with rfl | rfl
    · decide
    · exact padded_line_solid n
  ends := by decide

def paddedReader : BufReader := newReaderSize ⟨(paddedHead 4093).bytes, [], .eof, false, lively_nil⟩ 4096

theorem long_line_cuts_head :
    paddedReader.size = 4096 ∧ paddedReader.stream = (paddedHead 4093).bytes ∧
      (paddedHead 4093).bytes.length ≤ maxHeadBytes ∧
      (readHead paddedReader).1 ≠ .ok (paddedHead 4093).bytes ∧
      (readHead paddedReader).1 = .ok (paddedHead 4093).lines.flatten ∧
      (readHead paddedReader).2.stream = [13, 10] := by
  have valid : paddedReader.WellFormed := (new_reader_well_formed _ _).1
  have stream : paddedReader.stream = (paddedHead 4093).bytes := (new_reader_well_formed _ _).2
  have start : (text "GET / HTTP/1.1\r\n").length = 16 := by decide
  have small : (paddedHead 4093).bytes.length ≤ maxHeadBytes := by
    simp only [HeadLines.bytes, paddedHead, List.flatten_cons, List.flatten_nil, List.length_append,
      padded_line_length, start, List.length_nil, List.length_cons, maxHeadBytes]
    omega
  have cut : TailBlank paddedReader.size (paddedLine 4093) := by
    have suffix : [13, 10] <:+ paddedLine 4093 := List.suffix_append _ _
    simp only [TailBlank, EndsBlank, padded_line_length, suffix, paddedReader, newReaderSize]
    decide
  have clean : ∀ l ∈ [text "GET / HTTP/1.1\r\n"], ¬ TailBlank paddedReader.size l := by
    intro l member
    rw [List.mem_singleton.mp member]
    simp only [TailBlank, start, paddedReader, newReaderSize]
    decide
  have whole : paddedReader.stream = [].flatten ++ (paddedHead 4093).bytes ++ [] := by simpa using stream
  obtain ⟨next, rest, eq⟩ := read_head_cut_first valid (by simp) (paddedHead 4093) whole small
    (show _ = [text "GET / HTTP/1.1\r\n"] ++ paddedLine 4093 :: [] from rfl) clean cut
  refine ⟨rfl, stream, small, ?_, ?_, ?_⟩
  · rw [eq]
    simp [HeadLines.bytes, paddedHead]
  · rw [eq]
    simp [paddedHead]
  · rw [eq]
    simpa [paddedHead] using rest

end HeadReading
