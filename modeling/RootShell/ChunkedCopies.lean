import Mathlib.Algebra.BigOperators.Group.List.Basic
import RootShell.BodyFraming

/-!
Well-formed chunked bodies go through the copy loop unchanged. A size line has any hex
digits, blanks and an extension; trailers are any lines before the blank one.
-/
namespace ChunkedCopies
open ByteLines ByteText BufferedReader HeadReading HeaderLists FallibleState BodyFraming

variable {rest e blank framed p chunk data body : Bytes} {trailers : List Bytes}

section Lines

structure HexDigit where
  value : Fin 16
  upper : Bool

def HexDigit.byte (d : HexDigit) : UInt8 :=
  UInt8.ofNat (if d.value.val < 10 then 48 + d.value else if d.upper then 55 + d.value else 87 + d.value)

def hexValue (digits : List HexDigit) : Nat := digits.foldl (fun n d => n * 16 + d.value.val) 0

theorem hex_digit_value (d : HexDigit) : digitValue d.byte = some d.value.val := by
  have values : ∀ value upper, digitValue (HexDigit.byte ⟨value, upper⟩) = some value.val := by decide
  exact values d.value d.upper

theorem parse_hex (acc : Nat) (digits : List HexDigit) :
    parseDigits 16 acc (digits.map HexDigit.byte) = some (digits.foldl (fun n d => n * 16 + d.value.val) acc) := by
  induction digits generalizing acc with
  | nil => rfl
  | cons d digits ih =>
    simp only [List.map_cons, parseDigits, hex_digit_value, d.value.isLt, if_true, ih, List.foldl_cons]

structure SizeParts where
  digits : List HexDigit
  blanks : Bytes
  extension : Bytes
  lineEnd : Bytes
  found : digits ≠ []
  blank : ∀ b ∈ blanks, b = 32 ∨ b = 9
  marked : extension = [] ∨ extension.head? = some 59
  ends : Blank lineEnd

namespace SizeParts
variable (l : SizeParts)

def hex : Bytes := l.digits.map HexDigit.byte

def text : Bytes := l.hex ++ (l.blanks ++ l.extension ++ l.lineEnd)

end SizeParts

structure SizeLine (n : Nat) extends SizeParts where
  value : hexValue digits = n
  small : n < 2 ^ 63
  single : 10 ∉ extension

section Parts
variable (l : SizeParts)

theorem hex_found : l.hex ≠ [] := by simpa [SizeParts.hex] using l.found

theorem parse_uint_hex : parseUint 16 l.hex = some (hexValue l.digits) := by
  rw [parseUint, if_neg (hex_found l), SizeParts.hex, parse_hex]
  rfl

theorem space_no_digit : ∀ u ∈ spaceUnits, ∀ b ∈ u, digitValue b = none := by decide +kernel

theorem hex_not {b : UInt8} (other : digitValue b = none) : b ∉ l.hex := by
  intro member
  obtain ⟨d, _, rfl⟩ := List.mem_map.1 member
  rw [hex_digit_value] at other
  cases other

theorem line_end_made (ends : Blank e) : Made spaceUnits e := by
  rcases ends with rfl | rfl
  · exact made_unit (by decide)
  · exact made_of_bytes (by simp [spaceUnits])

theorem blanks_made : Made spaceUnits l.blanks := by
  apply made_of_bytes
  intro b member
  rcases l.blank b member with rfl | rfl <;> decide

theorem trim_hex : trimSpace l.hex = l.hex :=
  trim_space_clean fun u member b inside => hex_not l (space_no_digit u member b inside)

theorem parse_int_hex : parseInt 16 l.hex =
    if hexValue l.digits < 2 ^ 63 then some (hexValue l.digits : Int) else none := by
  unfold parseInt
  split
  · rename_i rest eq
    exact absurd (by rw [eq]; simp) (hex_not l (b := 45) rfl)
  · rename_i rest eq
    exact absurd (by rw [eq]; simp) (hex_not l (b := 43) rfl)
  · rw [parse_uint_hex, Option.bind_some]

theorem trim_text : ∃ back, Made spaceUnits back ∧ l.text = trimSpace l.text ++ back := by
  obtain ⟨front, back, madeFront, madeBack, split, _⟩ := trim_spec space_units_separable.nonempty l.text
  have start : front = [] := by
    cases front with
    | nil => rfl
    | cons b front =>
      exfalso
      obtain ⟨d, digits, eq⟩ := List.exists_cons_of_ne_nil (hex_found l)
      have same : d = b := by
        rw [SizeParts.text, eq] at split
        exact (List.cons.inj split).1
      have clean : ∀ u ∈ spaceUnits, d ∉ u := by
        intro u member inside
        exact hex_not l (space_no_digit u member d inside) (by simp [eq])
      exact made_clean clean madeFront (by simp [same])
  rw [start, List.nil_append] at split
  exact ⟨back, madeBack, split⟩

theorem take_while_stops {b : UInt8} {s : Bytes} (inside : b ∈ s) :
    (s ++ rest).takeWhile (· != b) = s.takeWhile (· != b) := by
  obtain ⟨front, back, rfl, absent⟩ := List.eq_append_cons_of_mem inside
  rw [List.append_assoc, List.cons_append, take_while_until absent, take_while_until absent]

theorem size_text :
    (if 59 ∈ trimSpace l.text then trimSpace ((trimSpace l.text).takeWhile (· != 59)) else trimSpace l.text) =
      l.hex := by
  have plain : 59 ∉ l.hex := hex_not l rfl
  rcases l.marked with none | marked
  · have trimmed : trimSpace l.text = l.hex := by
      have made := made_append (blanks_made l) (line_end_made l.ends)
      have around := trim_space_around l.hex (made_nil spaceUnits) made
      rw [trim_hex] at around
      simpa [SizeParts.text, none] using around
    rw [trimmed, if_neg plain]
  · -- the semicolon survives the trimming, and the digits with their blanks stand before it
    obtain ⟨rest, extension⟩ := List.head?_eq_some_iff.1 marked
    obtain ⟨back, made, split⟩ := trim_text l
    have clean : (59 : UInt8) ∉ back := made_clean (by decide) made
    have front : 59 ∉ l.hex ++ l.blanks := by
      intro member
      rcases List.mem_append.1 member with inside | inside
      · exact plain inside
      · rcases l.blank 59 inside with wrong | wrong <;> cases wrong
    have shape : trimSpace l.text ++ back = l.hex ++ l.blanks ++ 59 :: (rest ++ l.lineEnd) := by
      rw [← split, SizeParts.text, extension]
      simp
    have inside : 59 ∈ trimSpace l.text := by
      have member : (59 : UInt8) ∈ trimSpace l.text ++ back := by simp [shape]
      exact (List.mem_append.1 member).resolve_right clean
    have cut : (trimSpace l.text).takeWhile (· != 59) = l.hex ++ l.blanks := by
      rw [← take_while_stops inside, shape, take_while_until front]
    have around := trim_space_around l.hex (made_nil spaceUnits) (blanks_made l)
    rw [List.nil_append, trim_hex] at around
    rw [if_pos inside, cut, around]

theorem chunk_size_parts : chunkSize l.text =
    if hexValue l.digits < 2 ^ 63 then .ok (hexValue l.digits) else .error (.badChunkSize l.hex) := by
  simp only [chunkSize, size_text, parse_int_hex]
  by_cases small : hexValue l.digits < 2 ^ 63
  · rw [if_pos small, if_pos small]
    simp [pure, Except.pure]
  · rw [if_neg small, if_neg small]
    rfl

end Parts

variable {n : Nat} (l : SizeLine n)

theorem chunk_size_line : chunkSize l.text = .ok n := by
  have sized := chunk_size_parts l.toSizeParts
  rwa [l.value, if_pos l.small] at sized

theorem size_line_is_line : IsLine l.text := by
  obtain ⟨body, eq, clean⟩ := blank_is_line l.ends
  refine ⟨l.hex ++ l.blanks ++ l.extension ++ body, by rw [SizeParts.text, eq]; simp, ?_⟩
  simp only [List.mem_append, not_or]
  refine ⟨⟨⟨hex_not l.toSizeParts rfl, ?_⟩, l.single⟩, clean⟩
  intro member
  rcases l.blank 10 member with wrong | wrong <;> cases wrong

end Lines

section Bodies

structure Chunk where
  data : Bytes
  line : SizeLine data.length
  lineEnd : Bytes
  filled : data ≠ []
  ends : Blank lineEnd

def Chunk.encode (c : Chunk) : Bytes := c.line.text ++ c.data ++ c.lineEnd

structure Body where
  chunks : List Chunk
  last : SizeLine 0
  trailers : List Bytes
  blank : Bytes
  lines : ∀ l ∈ trailers, IsLine l ∧ ¬ Blank l
  ends : Blank blank

namespace Body
variable (b : Body)

def encode : Bytes := b.chunks.flatMap Chunk.encode ++ (b.last.text ++ (b.trailers.flatten ++ b.blank))

def payload : Bytes := b.chunks.flatMap Chunk.data

structure Fits (size : Nat) : Prop where
  chunks : ∀ c ∈ b.chunks, c.line.text.length ≤ size
  last : b.last.text.length ≤ size
  trailers : ∀ l ∈ b.trailers, l.length ≤ size

end Body

theorem trailers_trailer (lines : ∀ l ∈ trailers, IsLine l ∧ ¬ Blank l)
    (ends : Blank blank) : Trailer (trailers.flatten ++ blank) := by
  induction trailers with
  | nil => exact .blank ends
  | cons l trailers ih =>
    obtain ⟨isLine, solid⟩ := lines l List.mem_cons_self
    rw [List.flatten_cons, List.append_assoc]
    exact .line isLine solid (ih fun m member => lines m (List.mem_cons_of_mem _ member))

theorem chunks_body (chunks : List Chunk) {payload : Bytes} (rest : ChunkedBody framed payload) :
    ChunkedBody (chunks.flatMap Chunk.encode ++ framed) (chunks.flatMap Chunk.data ++ payload) := by
  induction chunks with
  | nil => exact rest
  | cons c chunks ih =>
    simp only [List.flatMap_cons, List.append_assoc]
    have chunk := ChunkedBody.chunk (size_line_is_line c.line) (chunk_size_line c.line) c.filled
      (blank_is_line c.ends) ih
    simpa only [Chunk.encode, List.append_assoc] using chunk

theorem body_chunked (b : Body) : ChunkedBody b.encode b.payload := by
  have last := ChunkedBody.last (size_line_is_line b.last) (chunk_size_line b.last) (trailers_trailer b.lines b.ends)
  have body := chunks_body b.chunks last
  rwa [List.append_nil] at body

end Bodies

section Copying
variable {σ : Type} {w : Writers σ} {P : σ → Prop} {s : σ} {r : BufReader} {fuel : Nat}

structure Accepting (w : Writers σ) : Prop where
  dst : ∀ s p, (w.dst s p).1 = none
  sink : ∀ s p, (w.sink s p).1 = none

structure AcceptingOn (P : σ → Prop) (w : Writers σ) : Prop where
  dst : ∀ s p, P s → (w.dst s p).1 = none ∧ P (w.dst s p).2
  sink : ∀ s p, P s → (w.sink s p).1 = none ∧ P (w.sink s p).2

theorem Accepting.everywhere (accepting : Accepting w) : AcceptingOn (fun _ => True) w :=
  ⟨fun s p _ => ⟨accepting.dst s p, trivial⟩, fun s p _ => ⟨accepting.sink s p, trivial⟩⟩

theorem written_passes {write : σ → Bytes → Option HttpError × σ} (accepts : (write s p).1 = none)
    (r : BufReader) : (written write p).from (r, s) = (.ok (), (r, (write s p).2)) := by
  simp only [Prog.from, written]
  rcases writing : write s p with ⟨err, after⟩
  rw [writing] at accepts
  obtain rfl : err = none := accepts
  rfl

theorem copy_piece_passes (accepting : AcceptingOn P w) (chunk : Bytes) (r : BufReader) (here : P s) :
    ∃ last, (copyPiece w chunk).from (r, s) = (.ok (), (r, last)) ∧ P last := by
  unfold copyPiece
  split
  · exact ⟨s, rfl, here⟩
  · obtain ⟨sunk, middle⟩ := accepting.sink s chunk here
    obtain ⟨sent, last⟩ := accepting.dst _ chunk middle
    rw [run_bind_ok (written_passes sunk r)]
    exact ⟨_, written_passes sent r, last⟩

theorem pulled_passes {space : Nat} {mid : BufReader} {err : Option ReadError}
    (reading : r.read space = (chunk, err, mid)) (s : σ) :
    (pulled space : Copy σ _).from (r, s) = (.ok (chunk, err), (mid, s)) := by
  simp [Prog.from, pulled, reading]

theorem after_read_limit {err : Option ReadError} (failed : err.isSome) (again : Copy σ Unit) :
    afterRead (some 0) err again = pure () := by
  rcases err with _ | _ | _ | _ <;> simp [afterRead] at failed ⊢

theorem copy_loop_passes (accepting : AcceptingOn P w) {n : Nat} (valid : r.WellFormed)
    (here : P s) (enough : n ≤ r.stream.length) (budget : n + r.src.plan.length < fuel) :
    ∃ next last, (copyLoop w fuel (some n)).from (r, s) = (.ok (), (next, last)) ∧ P last := by
  induction fuel generalizing n r s with
  | zero => omega
  | succ fuel ih =>
    by_cases reached : n = 0
    · rw [copyLoop, if_pos (by rw [reached])]
      exact ⟨r, s, rfl, here⟩
    · have more : some n ≠ some 0 := fun same => reached (Option.some.inj same)
      have step := read_pulled r valid (limit_room more)
      rcases reading : r.read (min ((some n).getD copyBufferSize) copyBufferSize) with ⟨chunk, err, mid⟩
      rw [reading] at step
      have short : chunk.length ≤ n := step_short step n rfl
      have lengths : chunk.length + mid.stream.length = r.stream.length := by
        rw [← List.length_append, step.stream]
      obtain ⟨s', piece, here'⟩ := copy_piece_passes accepting chunk mid here
      rw [copyLoop, if_neg more, run_bind_ok (pulled_passes reading s), run_bind_ok piece, Option.map_some]
      cases err with
      | none =>
        have shrinks : n - chunk.length + mid.src.plan.length < fuel := by
          have plan : mid.src.plan.length ≤ r.src.plan.length := step.plan
          by_cases empty : chunk = []
          · have moved : mid.src.plan.length < r.src.plan.length := step.moved empty rfl
            omega
          · have := List.length_pos_iff.mpr empty
            omega
        have left : n - chunk.length ≤ mid.stream.length := by omega
        exact ih step.valid here' left shrinks
      | some e =>
        -- the stream ended with this piece, so the piece is all that was asked for
        have drained : mid.stream = [] := step.last rfl
        rw [drained, List.length_nil] at lengths
        rw [show n - chunk.length = 0 by omega, after_read_limit rfl]
        exact ⟨mid, s', rfl, here'⟩

theorem copy_loop_drains (accepting : AcceptingOn P w) (valid : r.WellFormed)
    (here : P s) (budget : r.stream.length + r.src.plan.length < fuel) :
    ∃ out next last, (copyLoop w fuel none).from (r, s) = (out, (next, last)) ∧ next.stream = [] := by
  induction fuel generalizing r s with
  | zero => omega
  | succ fuel ih =>
    have more : (none : Option Nat) ≠ some 0 := nofun
    have step := read_pulled r valid (limit_room more)
    rcases reading : r.read (min ((none : Option Nat).getD copyBufferSize) copyBufferSize) with ⟨chunk, err, mid⟩
    rw [reading] at step
    have lengths : chunk.length + mid.stream.length = r.stream.length := by
      rw [← List.length_append, step.stream]
    obtain ⟨s', piece, here'⟩ := copy_piece_passes accepting chunk mid here
    rw [copyLoop, if_neg more, run_bind_ok (pulled_passes reading s), run_bind_ok piece, Option.map_none]
    cases err with
    | none =>
      have shrinks : mid.stream.length + mid.src.plan.length < fuel := by
        have plan : mid.src.plan.length ≤ r.src.plan.length := step.plan
        by_cases empty : chunk = []
        · have moved : mid.src.plan.length < r.src.plan.length := step.moved empty rfl
          omega
        · have := List.length_pos_iff.mpr empty
          omega
      exact ih step.valid here' shrinks
    | some e =>
      have drained : mid.stream = [] := step.last rfl
      cases e <;> exact ⟨_, mid, s', rfl, drained⟩

theorem copy_n_passes (accepting : AcceptingOn P w) (valid : r.WellFormed) (here : P s)
    (stream : r.stream = data ++ rest) :
    ∃ next last, (copyN w data.length).from (r, s) = (.ok (), (next, last)) ∧ P last ∧ next.WellFormed ∧
      next.size = r.size ∧ next.stream = rest := by
  have lengths : data.length + rest.length = r.stream.length := by rw [stream, List.length_append]
  have enough : data.length ≤ r.stream.length := by omega
  have budget : data.length + r.src.plan.length < copyFuel r := by
    rw [copyFuel]
    omega
  obtain ⟨next, last, passed, here'⟩ := copy_loop_passes accepting valid here enough budget
  obtain ⟨copy, copied⟩ := copy_loop_ok valid passed
  have same := copied.stream.symm.trans stream
  obtain ⟨rfl, after⟩ := List.append_inj same (copied.limit _ rfl)
  exact ⟨next, last, passed, here', copied.valid, copied.size, after⟩

theorem blank_fits (valid : r.WellFormed) {l : Bytes} (ends : Blank l) : l.length ≤ r.size := by
  have room := valid.room
  rcases ends with rfl | rfl <;> simp <;> omega

theorem copy_trailer_passes (accepting : AcceptingOn P w)
    (lines : ∀ l ∈ trailers, IsLine l ∧ ¬ Blank l) (ends : Blank blank) (valid : r.WellFormed)
    (here : P s) (short : ∀ l ∈ trailers, l.length ≤ r.size) (stream : r.stream = trailers.flatten ++ blank ++ rest)
    (budget : trailers.length < fuel) : ∃ next last, (copyTrailer w fuel).from (r, s) = (.ok (), (next, last)) := by
  induction trailers generalizing fuel r s with
  | nil =>
    obtain ⟨fuel, rfl⟩ := Nat.exists_eq_add_one.2 (Nat.zero_lt_of_lt budget)
    obtain ⟨next, reading, _⟩ := read_line_passes valid s (blank_is_line ends) stream (blank_fits valid ends)
    rw [copyTrailer, run_bind_ok reading, run_bind_ok (written_passes (accepting.dst s blank here).1 next), if_pos ends]
    exact ⟨_, _, rfl⟩
  | cons l trailers ih =>
    obtain ⟨fuel, rfl⟩ := Nat.exists_eq_add_one.2 (Nat.zero_lt_of_lt budget)
    obtain ⟨isLine, solid⟩ := lines l List.mem_cons_self
    rw [List.flatten_cons, List.append_assoc, List.append_assoc] at stream
    obtain ⟨next, reading, valid', size, stream'⟩ :=
      read_line_passes valid s isLine stream (short l List.mem_cons_self)
    obtain ⟨sent, here'⟩ := accepting.dst s l here
    rw [copyTrailer, run_bind_ok reading, run_bind_ok (written_passes sent next), if_neg solid]
    refine ih (fun m member => lines m (List.mem_cons_of_mem _ member)) valid' here' ?_ ?_ (by simpa using budget)
    · exact fun m member => size ▸ short m (List.mem_cons_of_mem _ member)
    · rw [stream', List.append_assoc]

/-- Every chunk takes one round of the loop, and the last one a round for each trailer. -/
theorem chunks_loop_passes (accepting : AcceptingOn P w) (b : Body)
    (valid : r.WellFormed) (here : P s) (fits : b.Fits r.size) (stream : r.stream = b.encode ++ rest)
    (budget : b.chunks.length + b.trailers.length + 1 < fuel) :
    ∃ next last, (chunksLoop w fuel).from (r, s) = (.ok (), (next, last)) := by
  obtain ⟨chunks, last, trailers, blank, lines, ends⟩ := b
  obtain ⟨chunksFit, lastFits, trailersFit⟩ := fits
  simp only [Body.encode] at stream budget
  induction chunks generalizing fuel r s with
  | nil =>
    obtain ⟨fuel, rfl⟩ := Nat.exists_eq_add_one.2 (Nat.zero_lt_of_lt budget)
    rw [List.flatMap_nil, List.nil_append, List.append_assoc] at stream
    obtain ⟨next, reading, valid', size, stream'⟩ :=
      read_line_passes valid s (size_line_is_line last) stream lastFits
    rw [chunksLoop, run_bind_ok reading]
    simp only [chunk_size_line last]
    obtain ⟨sent, here'⟩ := accepting.dst s last.text here
    rw [run_bind_ok (written_passes sent next), if_pos trivial]
    exact copy_trailer_passes accepting lines ends valid' here' (fun l member => size ▸ trailersFit l member) stream'
      (by simp at budget; omega)
  | cons c chunks ih =>
    obtain ⟨fuel, rfl⟩ := Nat.exists_eq_add_one.2 (Nat.zero_lt_of_lt budget)
    simp only [List.flatMap_cons, Chunk.encode, List.append_assoc] at stream
    obtain ⟨r1, reading, valid1, size1, stream1⟩ :=
      read_line_passes valid s (size_line_is_line c.line) stream (chunksFit c List.mem_cons_self)
    have positive : c.data.length ≠ 0 := fun zero => c.filled (List.length_eq_zero_iff.mp zero)
    obtain ⟨sent, here1⟩ := accepting.dst s c.line.text here
    obtain ⟨r2, s2, copying, here2, valid2, size2, stream2⟩ := copy_n_passes accepting valid1 here1 stream1
    obtain ⟨sent', here3⟩ := accepting.dst s2 c.lineEnd here2
    obtain ⟨r3, reading', valid3, size3, stream3⟩ :=
      read_line_passes valid2 s2 (blank_is_line c.ends) stream2 (blank_fits valid2 c.ends)
    have size : r3.size = r.size := by rw [size3, size2, size1]
    rw [chunksLoop, run_bind_ok reading]
    simp only [chunk_size_line c.line]
    rw [run_bind_ok (written_passes sent r1), if_neg positive, run_bind_ok copying,
      run_bind_ok reading', run_bind_ok (written_passes sent' r3)]
    refine ih valid3 here3 ?_ ?_ ?_ ?_ ?_
    · simpa only [List.append_assoc] using stream3
    · exact Nat.lt_of_succ_lt_succ (by simpa only [List.length_cons, Nat.add_right_comm _ 1] using budget)
    · exact fun d member => size ▸ chunksFit d (List.mem_cons_of_mem _ member)
    · exact size ▸ lastFits
    · exact fun l member => size ▸ trailersFit l member

theorem length_le_flat_map {A : Type} {f : A → Bytes} {l : List A} (filled : ∀ a ∈ l, 0 < (f a).length) :
    l.length ≤ (l.flatMap f).length := by
  have sum := List.length_le_sum_of_one_le (l.map fun a => (f a).length) (List.forall_mem_map.2 filled)
  rwa [List.length_map, ← List.length_flatMap] at sum

theorem encode_long (b : Body) : b.chunks.length + b.trailers.length < b.encode.length := by
  have chunks : b.chunks.length ≤ (b.chunks.flatMap Chunk.encode).length := by
    apply length_le_flat_map
    intro c _
    have line := line_length_pos (size_line_is_line c.line)
    simp only [Chunk.encode, List.length_append]
    omega
  have trailers : b.trailers.length ≤ (b.trailers.flatMap id).length :=
    length_le_flat_map fun l member => line_length_pos (b.lines l member).1
  rw [List.flatMap_id] at trailers
  have last := line_length_pos (size_line_is_line b.last)
  simp only [Body.encode, List.length_append]
  omega

def Fitting (size : Nat) (framing : Framing) (body : Bytes) : Prop :=
  framing = .chunked → ∃ b : Body, body = b.encode ∧ b.Fits size

theorem copy_body_passes (accepting : AcceptingOn P w) {framing : Framing} {payload : Bytes}
    (framed : Framed framing body payload) (bounded : framing ≠ .untilClose) (valid : r.WellFormed)
    (fitting : Fitting r.size framing body) (here : P s) (stream : r.stream = body ++ rest) :
    ∃ next last, (copyBody w framing).from (r, s) = (.ok (), (next, last)) := by
  cases framing with
  | none => exact ⟨r, s, rfl⟩
  | length n =>
    obtain ⟨rfl, _⟩ := framed
    obtain ⟨next, last, passed, _⟩ := copy_n_passes accepting valid here stream
    exact ⟨next, last, passed⟩
  | chunked =>
    obtain ⟨b, rfl, fits⟩ := fitting rfl
    refine chunks_loop_passes accepting b valid here fits stream ?_
    have long := encode_long b
    rw [stream, List.length_append]
    omega
  | untilClose => exact absurd rfl bounded

theorem copy_close_drains (accepting : AcceptingOn P w) (valid : r.WellFormed) (here : P s) :
    ∃ out next last, (copyBody w .untilClose).from (r, s) = (out, (next, last)) ∧ next.stream = [] :=
  copy_loop_drains accepting valid here (Nat.lt_succ_self _)

end Copying

section Recording
variable {σ : Type} {w : Writers σ}

structure Record (σ : Type) where
  state : σ
  sent : Bytes
  sunk : Bytes

def recording (w : Writers σ) : Writers (Record σ) where
  dst := fun c p => ((w.dst c.state p).1, ⟨(w.dst c.state p).2, c.sent ++ p, c.sunk⟩)
  sink := fun c p => ((w.sink c.state p).1, ⟨(w.sink c.state p).2, c.sent, c.sunk ++ p⟩)

theorem recording_accepting (accepting : Accepting w) : Accepting (recording w) :=
  ⟨fun c p => accepting.dst c.state p, fun c p => accepting.sink c.state p⟩

theorem fed_recorded {c last : Record σ} {payload : Bytes} (fed : Fed (recording w) c framed payload last) :
    last.sent = c.sent ++ framed ∧ last.sunk = c.sunk ++ payload := by
  induction fed with
  | nil => simp
  | line sent _ ih =>
    obtain ⟨_, rfl⟩ := Prod.ext_iff.1 sent
    simpa [recording] using ih
  | data sunk sent _ ih =>
    obtain ⟨_, rfl⟩ := Prod.ext_iff.1 sunk
    obtain ⟨_, rfl⟩ := Prod.ext_iff.1 sent
    simpa [recording] using ih

/-- A well-formed body is passed on as it is, and its payload collected; the reader is
    left behind it. -/
theorem copy_chunked_transparent (accepting : Accepting w) (b : Body) {r : BufReader} (valid : r.WellFormed)
    (fits : b.Fits r.size) {rest : Bytes} (stream : r.stream = b.encode ++ rest) (c : Record σ) :
    ∃ next last, (copyChunked (recording w)).from (r, c) = (.ok (), (next, last)) ∧
      last.sent = c.sent ++ b.encode ∧ last.sunk = c.sunk ++ b.payload ∧
      next.stream = rest ∧ next.WellFormed ∧ next.size = r.size := by
  have budget : b.chunks.length + b.trailers.length + 1 < r.stream.length + 1 := by
    have long := encode_long b
    rw [stream, List.length_append]
    omega
  obtain ⟨next, last, passed⟩ :=
    chunks_loop_passes (recording_accepting accepting).everywhere b valid trivial fits stream budget
  obtain ⟨framed, payload, body, fed, split, valid', size⟩ := chunks_loop_ok valid passed
  obtain ⟨rfl, rfl, rfl⟩ := chunked_unique body (body_chunked b) (split.symm.trans stream)
  obtain ⟨sent, sunk⟩ := fed_recorded fed
  exact ⟨next, last, passed, sent, sunk, rfl, valid', size⟩

def helloLine : SizeLine 10 where
  digits := [⟨⟨0, by decide⟩, false⟩, ⟨⟨10, by decide⟩, true⟩]
  blanks := [32]
  extension := text ";a=b"
  lineEnd := [13, 10]
  found := by decide
  value := rfl
  small := by decide
  blank := by simp
  marked := by decide
  single := by decide
  ends := blank_crlf

def lastLine : SizeLine 0 where
  digits := [⟨⟨0, by decide⟩, false⟩]
  blanks := []
  extension := []
  lineEnd := [13, 10]
  found := by decide
  value := rfl
  small := by decide
  blank := by simp
  marked := by decide
  single := by decide
  ends := blank_crlf

def helloBody : Body where
  chunks := [⟨text "Hello you!", helloLine, [13, 10], by decide, blank_crlf⟩]
  last := lastLine
  trailers := [text "X: y\r\n"]
  blank := [13, 10]
  lines := by
    intro l member
    obtain rfl := List.mem_singleton.1 member
    exact ⟨⟨text "X: y\r", by decide, by decide⟩, by decide⟩
  ends := blank_crlf

def quiet : Writers Unit := ⟨fun _ _ => (none, ()), fun _ _ => (none, ())⟩

def helloReader : BufReader := newReaderSize ⟨helloBody.encode ++ text "HTTP", [4, 0, 9], .eof, true, by decide⟩ 16

theorem quiet_accepting : Accepting quiet := ⟨fun _ _ => rfl, fun _ _ => rfl⟩

theorem hello_reader_well_formed : helloReader.WellFormed ∧ helloReader.stream = helloBody.encode ++ text "HTTP" :=
  new_reader_well_formed _ _

theorem hello_fits : helloBody.Fits helloReader.size := by
  refine ⟨?_, by decide, by decide⟩
  intro c member
  obtain rfl := List.mem_singleton.1 member
  decide

theorem hello_copied :
    ∃ next last, (copyChunked (recording quiet)).from (helloReader, ⟨(), [], []⟩) = (.ok (), (next, last)) ∧
      last.sent = text "0A ;a=b\r\nHello you!\r\n0\r\nX: y\r\n\r\n" ∧ last.sunk = text "Hello you!" ∧
      next.stream = text "HTTP" ∧ next.WellFormed ∧ next.size = 16 :=
  copy_chunked_transparent quiet_accepting helloBody hello_reader_well_formed.1 hello_fits hello_reader_well_formed.2
    ⟨(), [], []⟩

end Recording

end ChunkedCopies
