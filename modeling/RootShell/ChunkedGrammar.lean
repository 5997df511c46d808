import RootShell.ChunkedCopies

/-!
Which chunked bodies the copy loop of vpntunnel/http1.go accepts, against the grammar of
chunked bodies: it also takes signs and white space around a size, and any line behind the
data of a chunk.
-/
namespace ChunkedGrammar
open ByteLines ByteText BufferedReader BodyFraming ChunkedCopies

variable {line s front tail t framed payload rest : Bytes} {n : Nat}

section Grammar

def StrictLine {n : Nat} (l : SizeLine n) : Prop := l.extension = [] → l.blanks = []

structure Strict (b : Body) : Prop where
  chunks : ∀ c ∈ b.chunks, StrictLine c.line
  last : StrictLine b.last

def isHex (b : UInt8) : Bool := (digitValue b).any (· < 16)

def isBlank (b : UInt8) : Bool := b = 32 || b = 9

def PlainSize (line : Bytes) : Prop :=
  line.head?.any isHex = true ∧
    (Blank (line.dropWhile isHex) ∨ ((line.dropWhile isHex).dropWhile isBlank).head? = some 59)

instance (line : Bytes) : Decidable (PlainSize line) :=
  inferInstanceAs (Decidable (line.head?.any isHex = true ∧
    (Blank (line.dropWhile isHex) ∨ ((line.dropWhile isHex).dropWhile isBlank).head? = some 59)))

inductive Slips : Bytes → Prop where
  | size {line rest : Bytes} {n : Nat} (isLine : IsLine line) (sized : chunkSize line = .ok n)
      (odd : ¬ PlainSize line) : Slips (line ++ rest)
  | lineEnd {line data crlf rest : Bytes} (isLine : IsLine line) (sized : chunkSize line = .ok data.length)
      (filled : data ≠ []) (ending : IsLine crlf) (odd : ¬ Blank crlf) : Slips (line ++ data ++ crlf ++ rest)
  | later {line data crlf rest : Bytes} (isLine : IsLine line) (sized : chunkSize line = .ok data.length)
      (filled : data ≠ []) (ending : IsLine crlf) (slips : Slips rest) : Slips (line ++ data ++ crlf ++ rest)

end Grammar

section Lines

theorem hex_digit_of {b : UInt8} (hex : isHex b = true) : ∃ d : HexDigit, d.byte = b := by
  have known : ∀ b, isHex b = true → ∃ (v : Fin 16) (u : Bool), HexDigit.byte ⟨v, u⟩ = b :=
    every_byte (by decide +kernel)
  obtain ⟨v, u, eq⟩ := known b hex
  exact ⟨⟨v, u⟩, eq⟩

theorem hex_digits_of (hex : ∀ b ∈ s, isHex b = true) : ∃ digits : List HexDigit, digits.map HexDigit.byte = s := by
  induction s with
  | nil => exact ⟨[], rfl⟩
  | cons b s ih =>
    obtain ⟨d, rfl⟩ := hex_digit_of (hex b List.mem_cons_self)
    obtain ⟨digits, rfl⟩ := ih fun c member => hex c (List.mem_cons_of_mem _ member)
    exact ⟨d :: digits, rfl⟩

theorem digit_is_hex (d : HexDigit) : isHex d.byte = true := by
  rw [isHex, hex_digit_value]
  simp

theorem drop_hex (l : SizeLine n) (rest : Bytes) (stops : rest.head?.any isHex = false) :
    (l.hex ++ rest).dropWhile isHex = rest := by
  have digits : ∀ b ∈ l.hex, isHex b = true := by
    intro b member
    obtain ⟨d, _, rfl⟩ := List.mem_map.1 member
    exact digit_is_hex d
  rw [List.dropWhile_append_of_pos digits]
  cases rest with
  | nil => rfl
  | cons b rest => rw [List.dropWhile_cons_of_neg (by simpa using stops)]

theorem strict_plain {l : SizeLine n} (strict : StrictLine l) : PlainSize l.text := by
  constructor
  · obtain ⟨d, digits, eq⟩ := List.exists_cons_of_ne_nil l.found
    simp [SizeParts.text, SizeParts.hex, eq, digit_is_hex]
  · rcases l.marked with none | marked
    · left
      rw [SizeParts.text, none, strict none, List.nil_append, List.nil_append, drop_hex]
      · exact l.ends
      · rcases l.ends with eq | eq <;> rw [eq] <;> rfl
    · right
      obtain ⟨tail, extension⟩ := List.head?_eq_some_iff.1 marked
      have blanks : ∀ b ∈ l.blanks, isBlank b = true := fun b member => by
        rcases l.blank b member with rfl | rfl <;> rfl
      have stops : (l.blanks ++ l.extension ++ l.lineEnd).head?.any isHex = false := by
        rw [extension]
        cases front : l.blanks with
        | nil => rfl
        | cons b rest =>
          rcases l.blank b (by simp [front]) with rfl | rfl <;> rfl
      rw [SizeParts.text, drop_hex l _ stops, extension, List.append_assoc, List.dropWhile_append_of_pos blanks]
      rfl

theorem parts_line {p : SizeParts} (single : 10 ∉ p.extension) (sized : chunkSize p.text = .ok n) :
    ∃ l : SizeLine n, l.toSizeParts = p := by
  rw [chunk_size_parts] at sized
  split at sized
  · rename_i small
    obtain rfl := Except.ok.inj sized
    exact ⟨⟨p, rfl, small, single⟩, rfl⟩
  · cases sized

theorem strict_of_parts {p : SizeParts} (text : p.text = line)
    (sized : chunkSize line = .ok n) (single : 10 ∉ p.extension) (strict : p.extension = [] → p.blanks = []) :
    ∃ l : SizeLine n, StrictLine l ∧ l.text = line := by
  obtain ⟨l, same⟩ := parts_line single (text ▸ sized)
  refine ⟨l, fun none => ?_, ?_⟩
  · have bare := strict ((congrArg SizeParts.extension same).symm.trans none)
    exact (congrArg SizeParts.blanks same).trans bare
  · rw [← text, ← same]

theorem leading_digits (starts : line.head?.any isHex = true) :
    ∃ digits : List HexDigit, digits ≠ [] ∧ digits.map HexDigit.byte ++ line.dropWhile isHex = line := by
  obtain ⟨digits, hex⟩ := hex_digits_of fun b member => List.mem_takeWhile_imp (p := isHex) (l := line) member
  refine ⟨digits, ?_, by rw [hex, List.takeWhile_append_dropWhile]⟩
  rintro rfl
  cases line with
  | nil => cases starts
  | cons b rest =>
    rw [List.takeWhile_cons_of_pos (by simpa using starts)] at hex
    cases hex

theorem line_behind {b : UInt8} (isLine : IsLine line) (split : front ++ b :: tail = line)
    (other : b ≠ 10) : ∃ inner, tail = inner ++ [10] ∧ 10 ∉ b :: inner := by
  obtain ⟨body, eq, clean⟩ := isLine
  rw [eq] at split
  cases tail using List.reverseRecOn with
  | nil =>
    have last := (List.append_inj' split rfl).2
    exact absurd (List.singleton_inj.1 last) other
  | append_singleton inner c =>
    rw [← List.cons_append, ← List.append_assoc] at split
    obtain ⟨front, last⟩ := List.append_inj' split rfl
    obtain rfl := List.singleton_inj.1 last
    refine ⟨inner, rfl, fun member => clean ?_⟩
    rw [← front]
    exact List.mem_append_right _ member

theorem plain_strict (isLine : IsLine line) (sized : chunkSize line = .ok n)
    (plain : PlainSize line) : ∃ l : SizeLine n, StrictLine l ∧ l.text = line := by
  obtain ⟨starts, goesOn⟩ := plain
  obtain ⟨digits, found, whole⟩ := leading_digits starts
  rcases goesOn with ends | marked
  · let p : SizeParts := ⟨digits, [], [], line.dropWhile isHex, found, by simp, Or.inl rfl, ends⟩
    exact strict_of_parts (p := p) whole sized (by simp [p]) fun _ => rfl
  · obtain ⟨tail, extension⟩ := List.head?_eq_some_iff.1 marked
    have split : digits.map HexDigit.byte ++ (line.dropWhile isHex).takeWhile isBlank ++ 59 :: tail = line := by
      rw [← extension, List.append_assoc, List.takeWhile_append_dropWhile, whole]
    -- the line feed that ends the line stands behind the extension
    obtain ⟨inner, rfl, single⟩ := line_behind isLine split (by decide)
    have blank : ∀ b ∈ (line.dropWhile isHex).takeWhile isBlank, b = 32 ∨ b = 9 := by
      intro b member
      simpa [isBlank] using List.mem_takeWhile_imp member
    let p : SizeParts := ⟨digits, _, 59 :: inner, [10], found, blank, Or.inr rfl, Or.inl rfl⟩
    have text : p.text = line := by
      rw [← split]
      simp [p, SizeParts.text, SizeParts.hex]
    refine strict_of_parts text sized single fun none => ?_
    cases none

end Lines

section Bodies

theorem trailer_lines (trailer : Trailer t) :
    ∃ (lines : List Bytes) (blank : Bytes), (∀ l ∈ lines, IsLine l ∧ ¬ Blank l) ∧ Blank blank ∧
      t = lines.flatten ++ blank := by
  induction trailer with
  | @blank l ends => exact ⟨[], l, by simp, ends, rfl⟩
  | @line l rest isLine solid _ ih =>
    obtain ⟨lines, blank, all, ends, rfl⟩ := ih
    exact ⟨l :: lines, blank, List.forall_mem_cons.2 ⟨⟨isLine, solid⟩, all⟩, ends, by simp⟩

theorem plain_body (body : ChunkedBody framed payload)
    (plain : ¬ Slips (framed ++ rest)) : ∃ b, Strict b ∧ b.encode = framed := by
  induction body with
  | @last line trailer isLine zero ends =>
    have plainLine : PlainSize line := by
      by_contra odd
      exact plain (by rw [List.append_assoc]; exact .size isLine zero odd)
    obtain ⟨l, strict, rfl⟩ := plain_strict isLine zero plainLine
    obtain ⟨lines, blank, all, blankEnds, rfl⟩ := trailer_lines ends
    exact ⟨⟨[], l, lines, blank, all, blankEnds⟩, ⟨by simp, strict⟩, rfl⟩
  | @chunk line data crlf framed payload isLine size filled lineEnd _ ih =>
    have plainLine : PlainSize line := by
      by_contra odd
      exact plain (by simp only [List.append_assoc]; exact .size isLine size odd)
    have blank : Blank crlf := by
      by_contra odd
      exact plain (by rw [List.append_assoc]; exact .lineEnd isLine size filled lineEnd odd)
    obtain ⟨l, strict, rfl⟩ := plain_strict isLine size plainLine
    obtain ⟨b, strictBody, rfl⟩ := ih fun slips =>
      plain (by rw [List.append_assoc]; exact .later isLine size filled lineEnd slips)
    refine ⟨{ b with chunks := ⟨data, l, crlf, filled, blank⟩ :: b.chunks }, ⟨?_, strictBody.last⟩, ?_⟩
    · exact List.forall_mem_cons.2 ⟨strict, strictBody.chunks⟩
    · simp [Body.encode, Chunk.encode]

theorem slips_line (isLine : IsLine line) (sized : chunkSize line = .ok n)
    (slips : Slips (line ++ rest)) : ¬ PlainSize line ∨ ∃ data crlf after, data.length = n ∧ data ≠ [] ∧
      IsLine crlf ∧ rest = data ++ (crlf ++ after) ∧ (¬ Blank crlf ∨ Slips after) := by
  generalize same : line ++ rest = stream at slips
  cases slips with
  | size isLine' sized' odd =>
    obtain ⟨rfl, _⟩ := line_prefix_unique isLine isLine' same
    exact Or.inl odd
  | @lineEnd line' data crlf after isLine' sized' filled ending odd =>
    simp only [List.append_assoc] at same
    obtain ⟨rfl, rest⟩ := line_prefix_unique isLine isLine' same
    exact Or.inr ⟨data, crlf, after, Except.ok.inj (sized'.symm.trans sized), filled, ending, rest, Or.inl odd⟩
  | @later line' data crlf after isLine' sized' filled ending slips =>
    simp only [List.append_assoc] at same
    obtain ⟨rfl, rest⟩ := line_prefix_unique isLine isLine' same
    exact Or.inr ⟨data, crlf, after, Except.ok.inj (sized'.symm.trans sized), filled, ending, rest, Or.inr slips⟩

theorem strict_body {b : Body} (strict : Strict b) (rest : Bytes) : ¬ Slips (b.encode ++ rest) := by
  obtain ⟨chunks, last, trailers, blank, lines, ends⟩ := b
  obtain ⟨strictChunks, strictLast⟩ := strict
  simp only [Body.encode, List.append_assoc] at strictChunks strictLast ⊢
  induction chunks with
  | nil =>
    intro slips
    rcases slips_line (size_line_is_line last) (chunk_size_line last) slips with odd | ⟨data, _, _, zero, filled, _⟩
    · exact odd (strict_plain strictLast)
    · exact filled (List.length_eq_zero_iff.1 zero)
  | cons c chunks ih =>
    intro slips
    simp only [List.flatMap_cons, Chunk.encode, List.append_assoc] at slips
    rcases slips_line (size_line_is_line c.line) (chunk_size_line c.line) slips with
      odd | ⟨data, crlf, after, length, _, ending, same, bad⟩
    · exact odd (strict_plain (strictChunks c List.mem_cons_self))
    · obtain ⟨rfl, same'⟩ := List.append_inj same length.symm
      obtain ⟨rfl, rfl⟩ := line_prefix_unique (blank_is_line c.ends) ending same'
      rcases bad with odd | later
      · exact odd c.ends
      · exact ih (fun d member => strictChunks d (List.mem_cons_of_mem _ member)) later

/-- What the loop has consumed when it returns without an error is a chunked body exactly
    when it has not slipped. -/
theorem accepted_iff {σ : Type} {w : Writers σ} {r next : BufReader} (valid : r.WellFormed) {s last : σ}
    (passed : (copyChunked w).from (r, s) = (.ok (), (next, last))) :
    (∃ b, Strict b ∧ r.stream = b.encode ++ next.stream) ↔ ¬ Slips r.stream := by
  obtain ⟨framed, payload, body, _, stream, _⟩ := chunks_loop_ok valid passed
  constructor
  · rintro ⟨b, strict, same⟩
    rw [same]
    exact strict_body strict next.stream
  · intro plain
    rw [stream] at plain ⊢
    obtain ⟨b, strict, rfl⟩ := plain_body body plain
    exact ⟨b, strict, rfl⟩

theorem hello_accepted :
    ∃ next, (copyChunked quiet).from (helloReader, ()) = (.ok (), (next, ())) ∧
      (∃ b, Strict b ∧ helloReader.stream = b.encode ++ next.stream) ∧ ¬ Slips helloReader.stream := by
  have strict : Strict helloBody := by
    refine ⟨?_, fun _ => rfl⟩
    intro c member
    obtain rfl := List.mem_singleton.1 member
    exact nofun
  have plain : ¬ Slips helloReader.stream := strict_body strict (text "HTTP")
  obtain ⟨next, _, passed⟩ : ∃ next last, (copyChunked quiet).from (helloReader, ()) = (.ok (), (next, last)) :=
    chunks_loop_passes quiet_accepting.everywhere helloBody hello_reader_well_formed.1 trivial hello_fits
      hello_reader_well_formed.2 (by decide)
  exact ⟨next, passed, (accepted_iff hello_reader_well_formed.1 passed).2 plain, plain⟩

def wholeReader (data : Bytes) : BufReader := newReaderSize ⟨data, [], .eof, false, lively_nil⟩ 16

def signedBody : Bytes := text "+5\r\n" ++ text "hello\r\n0\r\n\r\n"

def trailingBody : Bytes := text "5\r\n" ++ text "hello" ++ text "GET\r\n" ++ text "0\r\n\r\n"

theorem odd_bodies_accepted :
    (∃ next, (copyChunked quiet).from (wholeReader signedBody, ()) = (.ok (), (next, ())) ∧ next.stream = [] ∧
        ¬ ∃ b, Strict b ∧ (wholeReader signedBody).stream = b.encode ++ next.stream) ∧
      ∃ next, (copyChunked quiet).from (wholeReader trailingBody, ()) = (.ok (), (next, ())) ∧ next.stream = [] ∧
        ¬ ∃ b, Strict b ∧ (wholeReader trailingBody).stream = b.encode ++ next.stream := by
  have five : chunkSize (text "+5\r\n") = .ok 5 ∧ chunkSize (text "5\r\n") = .ok (text "hello").length := by
    decide +kernel
  have signed : Slips signedBody :=
    .size ⟨text "+5\r", by decide, by decide⟩ five.1 (by decide)
  have trailing : Slips trailingBody :=
    .lineEnd ⟨text "5\r", by decide, by decide⟩ five.2 (by decide) ⟨text "GET\r", by decide, by decide⟩ (by decide)
  constructor
  · refine ⟨_, rfl, rfl, ?_⟩
    rintro ⟨b, strict, same⟩
    have stream : signedBody = b.encode ++ _ := same
    exact strict_body strict _ (stream ▸ signed)
  · refine ⟨_, rfl, rfl, ?_⟩
    rintro ⟨b, strict, same⟩
    have stream : trailingBody = b.encode ++ _ := same
    exact strict_body strict _ (stream ▸ trailing)

end Bodies

end ChunkedGrammar
