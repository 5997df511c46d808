import RootShell.FallibleState
import RootShell.HeaderLists

/-!
Body framing of HTTP/1.x messages and the loops that copy one body through
(vpntunnel/http1.go). A framing delimits exactly one prefix of a stream; the copy
loops consume that prefix and no more.
-/
namespace BodyFraming
open ByteLines ByteText BufferedReader HeadReading HeaderLists FallibleState

variable {p f g rest line t q chunk data trailer body payload : Bytes} {fuel n space size : Nat} {r next : BufReader}
  {left : Option Nat}

inductive Framing where
  | none
  | length (n : Nat)
  | chunked
  | untilClose
  deriving DecidableEq, Repr

section Declared
variable (u : CaseTables)

def lengthLoop : Bytes → List Hdr → Except HttpError Bytes
  | v, [] => pure v
  | v, h :: hs =>
    if v ≠ [] ∧ v ≠ trimSpace h.value then throw .conflictingContentLength
    else lengthLoop (trimSpace h.value) hs

def contentLength (hs : List Hdr) : Except HttpError (Option Nat) := do
  let v ← lengthLoop [] (fields u hs (text "Content-Length"))
  if v = [] then pure none
  else
    match parseInt 10 v with
    | some n => if n < 0 then throw (.badContentLength v) else pure (some n.toNat)
    | none => throw (.badContentLength v)

def requestFraming (r : ReqHead) : Except HttpError Framing :=
  match (tokens u r.headers (text "Transfer-Encoding")).getLast? with
  | some coding =>
    if coding = text "chunked" then pure .chunked else throw .unsupportedTransferEncoding
  | none => do
    match ← contentLength u r.headers with
    | some n => if 0 < n then pure (.length n) else pure .none
    | none => pure .none

def Bodiless (method : Bytes) (status : Nat) : Prop :=
  method = text "HEAD" ∨ status = 204 ∨ status = 304 ∨ (100 ≤ status ∧ status < 200)

instance (method : Bytes) (status : Nat) : Decidable (Bodiless method status) :=
  inferInstanceAs (Decidable (_ ∨ _))

def Tunnelled (method : Bytes) (status : Nat) : Prop :=
  method = text "CONNECT" ∧ 200 ≤ status ∧ status < 300

instance (method : Bytes) (status : Nat) : Decidable (Tunnelled method status) :=
  inferInstanceAs (Decidable (_ ∧ _))

def responseFraming (method : Bytes) (r : ResHead) : Except HttpError Framing :=
  if Bodiless method r.status then pure .none
  else if Tunnelled method r.status then pure .untilClose
  else
    match (tokens u r.headers (text "Transfer-Encoding")).getLast? with
    | some coding => if coding = text "chunked" then pure .chunked else pure .untilClose
    | none => do
      match ← contentLength u r.headers with
      | some n => if n = 0 then pure .none else pure (.length n)
      | none => pure .untilClose

end Declared

section Declarations
variable {u : CaseTables}

theorem fields_trimmed (hs : List Hdr) (name : Bytes) :
    fields u (hs.map trimmed) name = (fields u hs name).map trimmed := by
  simp only [fields, List.filter_map]
  rfl

theorem value_tokens_trim (v : Bytes) : valueTokens u (trimSpace v) = valueTokens u v := by
  have parts := split_trim_space (show ∀ s ∈ spaceUnits, (44 : UInt8) ∉ s by decide) v
  have lowered := congrArg (List.map (toLower u)) parts
  simp only [List.map_map] at lowered
  exact congrArg (List.filter (· ≠ [])) lowered

theorem tokens_trimmed (hs : List Hdr) (name : Bytes) : tokens u (hs.map trimmed) name = tokens u hs name := by
  simp [tokens, fields_trimmed, List.flatMap_map, trimmed, value_tokens_trim]

theorem length_loop_trimmed (v : Bytes) (hs : List Hdr) : lengthLoop v (hs.map trimmed) = lengthLoop v hs := by
  induction hs generalizing v with
  | nil => rfl
  | cons h hs ih => simp only [List.map_cons, lengthLoop, trimmed, trim_space_idempotent, ih]

theorem content_length_trimmed (hs : List Hdr) : contentLength u (hs.map trimmed) = contentLength u hs := by
  simp only [contentLength, fields_trimmed, length_loop_trimmed]

theorem request_framing_trimmed (r : ReqHead) :
    requestFraming u { r with headers := r.headers.map trimmed } = requestFraming u r := by
  simp only [requestFraming, tokens_trimmed, content_length_trimmed]

theorem response_framing_trimmed (method : Bytes) (r : ResHead) :
    responseFraming u method { r with headers := r.headers.map trimmed } = responseFraming u method r := by
  simp only [responseFraming, tokens_trimmed, content_length_trimmed]

theorem request_framing_fields {r s : ReqHead}
    (coding : fields u r.headers (text "Transfer-Encoding") = fields u s.headers (text "Transfer-Encoding"))
    (length : fields u r.headers (text "Content-Length") = fields u s.headers (text "Content-Length")) :
    requestFraming u r = requestFraming u s := by
  simp only [requestFraming, contentLength, tokens, coding, length]

theorem trim_space_itoa (n : Nat) : trimSpace (itoa n) = itoa n := by
  have apart : ∀ u ∈ spaceUnits, ∀ b ∈ u, b < 48 ∨ 57 < b := by decide +kernel
  exact trim_space_clean fun u member b inside => itoa_clean n (apart u member b inside)

theorem content_length_values {hs : List Hdr} (fits : n < 2 ^ 63)
    (values : (fields u hs (text "Content-Length")).map Hdr.value = [itoa n]) :
    contentLength u hs = .ok (some n) := by
  obtain ⟨h, eq, value⟩ := List.map_eq_singleton_iff.mp values
  have loop : lengthLoop [] [h] = .ok (itoa n) := by
    simp [lengthLoop, value, trim_space_itoa, pure, Except.pure]
  simp only [contentLength, eq, loop, bind, Except.bind, itoa_not_nil, ↓reduceIte, parse_int_itoa n fits]
  simp [pure, Except.pure]

end Declarations

section Copying
variable {σ : Type}

/-- The two writers of a copy, on one state: `sink` gets the payload, before `dst` gets
    the framed bytes. -/
structure Writers (σ : Type) where
  dst : σ → Bytes → Option HttpError × σ
  sink : σ → Bytes → Option HttpError × σ

abbrev Copy (σ A : Type) := Prog (BufReader × σ) HttpError A

def written (write : σ → Bytes → Option HttpError × σ) (p : Bytes) : Copy σ Unit := fun (r, s) =>
  match write s p with
  | (none, s) => (.ok (), (r, s))
  | (some e, s) => (.error e, (r, s))

def pulled (space : Nat) : Copy σ (Bytes × Option ReadError) := fun (r, s) =>
  let (chunk, err, next) := r.read space
  (.ok (chunk, err), (next, s))

def readLine : Copy σ Bytes := fun (r, s) =>
  match r.readSlice with
  | (line, none, next) => (.ok line, (next, s))
  | (_, some .bufferFull, next) => (.error .chunkLineTooLong, (next, s))
  | (_, some (.read e), next) => (.error (.read e), (next, s))

def copyPiece (w : Writers σ) (chunk : Bytes) : Copy σ Unit :=
  if chunk = [] then pure ()
  else do
    written w.sink chunk
    written w.dst chunk

def copyBufferSize : Nat := 32 * 1024

/-- How io.Copy and io.CopyN treat the error that came with a piece. -/
def afterRead (left : Option Nat) (err : Option ReadError) (again : Copy σ Unit) : Copy σ Unit :=
  match err with
  | some .eof => if left.getD 0 = 0 then pure () else throw (.read .eof)
  | some e => if left = some 0 then pure () else throw (.read e)
  | none => again

/-- io.Copy through a TeeReader and, with a limit, a LimitReader: with a limit, reaching it
    is success and the end of the stream before it an error. A read without bytes is
    repeated; it used up an entry of the reader's plan, so the fuel is never used up. -/
def copyLoop (w : Writers σ) : Nat → Option Nat → Copy σ Unit
  | 0, _ => throw (.read .noProgress)
  | fuel + 1, left => do
    if left = some 0 then pure ()
    else
      let (chunk, err) ← pulled (min (left.getD copyBufferSize) copyBufferSize)
      copyPiece w chunk
      afterRead (left.map (· - chunk.length)) err (copyLoop w fuel (left.map (· - chunk.length)))

def copyFuel (r : BufReader) : Nat := r.stream.length + r.src.plan.length + 1

def copyN (w : Writers σ) (n : Nat) : Copy σ Unit := fun (r, s) =>
  copyLoop w (copyFuel r) (some n) (r, s)

def copyAll (w : Writers σ) : Copy σ Unit := fun (r, s) => copyLoop w (copyFuel r) none (r, s)

def chunkSize (line : Bytes) : Except HttpError Nat :=
  let whole := trimSpace line
  let size := if 59 ∈ whole then trimSpace (whole.takeWhile (· != 59)) else whole
  match parseInt 16 size with
  | some n => if n < 0 then throw (.badChunkSize size) else pure n.toNat
  | none => throw (.badChunkSize size)

def copyTrailer (w : Writers σ) : Nat → Copy σ Unit
  | 0 => throw (.read .noProgress)
  | fuel + 1 => do
    let line ← readLine
    written w.dst line
    if Blank line then pure () else copyTrailer w fuel

/-- Every chunk and every trailer line takes at least one byte. -/
def chunksLoop (w : Writers σ) : Nat → Copy σ Unit
  | 0 => throw (.read .noProgress)
  | fuel + 1 => do
    let line ← readLine
    match chunkSize line with
    | .error e => throw e
    | .ok size =>
      written w.dst line
      if size = 0 then copyTrailer w fuel
      else
        copyN w size
        let crlf ← readLine
        written w.dst crlf
        chunksLoop w fuel

def copyChunked (w : Writers σ) : Copy σ Unit := fun (r, s) =>
  chunksLoop w (r.stream.length + 1) (r, s)

def copyBody (w : Writers σ) : Framing → Copy σ Unit
  | .none => pure ()
  | .length n => copyN w n
  | .untilClose => copyAll w
  | .chunked => copyChunked w

end Copying

variable {framing : Framing}

section Grammar

inductive Trailer : Bytes → Prop where
  | blank {l : Bytes} (ends : Blank l) : Trailer l
  | line {l rest : Bytes} (isLine : IsLine l) (solid : ¬ Blank l) (more : Trailer rest) : Trailer (l ++ rest)

/-- A chunked body and its payload, as the copy loop reads one: any line is taken for the
    line end behind the data of a chunk. -/
inductive ChunkedBody : Bytes → Bytes → Prop where
  | last {line trailer : Bytes} (isLine : IsLine line) (zero : chunkSize line = .ok 0)
      (ends : Trailer trailer) : ChunkedBody (line ++ trailer) []
  | chunk {line data crlf framed payload : Bytes} (isLine : IsLine line)
      (size : chunkSize line = .ok data.length) (some : data ≠ []) (lineEnd : IsLine crlf)
      (rest : ChunkedBody framed payload) :
      ChunkedBody (line ++ data ++ crlf ++ framed) (data ++ payload)

def Framed : Framing → Bytes → Bytes → Prop
  | .none, framed, payload => framed = [] ∧ payload = []
  | .length n, framed, payload => framed.length = n ∧ payload = framed
  | .chunked, framed, payload => ChunkedBody framed payload
  | .untilClose, framed, payload => payload = framed

theorem trailer_unique {s : Bytes} (first : Trailer f) (second : Trailer g) (same : f ++ s = g ++ t) :
    f = g ∧ s = t := by
  induction first generalizing g with
  | blank ends =>
    cases second with
    | blank ends' => exact line_prefix_unique (blank_is_line ends) (blank_is_line ends') same
    | line isLine solid more =>
      rw [List.append_assoc] at same
      exact absurd ((line_prefix_unique (blank_is_line ends) isLine same).1 ▸ ends) solid
  | line isLine solid more ih =>
    rw [List.append_assoc] at same
    cases second with
    | blank ends =>
      exact absurd ((line_prefix_unique isLine (blank_is_line ends) same).1 ▸ ends) solid
    | line isLine' solid' more' =>
      rw [List.append_assoc] at same
      obtain ⟨rfl, rest⟩ := line_prefix_unique isLine isLine' same
      obtain ⟨rfl, rfl⟩ := ih more' rest
      exact ⟨rfl, rfl⟩

theorem chunked_unique {s : Bytes} (first : ChunkedBody f p) (second : ChunkedBody g q)
    (same : f ++ s = g ++ t) : f = g ∧ p = q ∧ s = t := by
  induction first generalizing g q with
  | last isLine zero ends =>
    rw [List.append_assoc] at same
    cases second with
    | last isLine' zero' ends' =>
      rw [List.append_assoc] at same
      obtain ⟨rfl, rest⟩ := line_prefix_unique isLine isLine' same
      obtain ⟨rfl, rfl⟩ := trailer_unique ends ends' rest
      exact ⟨rfl, rfl, rfl⟩
    | chunk isLine' size some lineEnd more =>
      simp only [List.append_assoc] at same
      obtain ⟨rfl, _⟩ := line_prefix_unique isLine isLine' same
      rw [zero] at size
      exact absurd (List.length_eq_zero_iff.mp (Except.ok.inj size).symm) some
  | chunk isLine size some lineEnd more ih =>
    simp only [List.append_assoc] at same
    cases second with
    | last isLine' zero ends =>
      rw [List.append_assoc] at same
      obtain ⟨rfl, _⟩ := line_prefix_unique isLine isLine' same
      rw [zero] at size
      exact absurd (List.length_eq_zero_iff.mp (Except.ok.inj size).symm) some
    | chunk isLine' size' some' lineEnd' more' =>
      simp only [List.append_assoc] at same
      obtain ⟨rfl, rest⟩ := line_prefix_unique isLine isLine' same
      obtain ⟨rfl, rest'⟩ := List.append_inj rest (Except.ok.inj (size.symm.trans size'))
      obtain ⟨rfl, rest''⟩ := line_prefix_unique lineEnd lineEnd' rest'
      obtain ⟨rfl, rfl, rfl⟩ := ih more' rest''
      exact ⟨rfl, rfl, rfl⟩

theorem framed_unique {s : Bytes} (first : Framed framing f p) (second : Framed framing g q)
    (same : f ++ s = g ++ t) (closed : framing = .untilClose → s = [] ∧ t = []) : f = g ∧ p = q ∧ s = t := by
  cases framing with
  | none =>
    obtain ⟨rfl, rfl⟩ := first
    obtain ⟨rfl, rfl⟩ := second
    exact ⟨rfl, rfl, same⟩
  | length n =>
    obtain ⟨length, rfl⟩ := first
    obtain ⟨length', rfl⟩ := second
    obtain ⟨rfl, rfl⟩ := List.append_inj same (length.trans length'.symm)
    exact ⟨rfl, rfl, rfl⟩
  | chunked => exact chunked_unique first second same
  | untilClose =>
    obtain ⟨rfl, rfl⟩ := closed rfl
    simp only [List.append_nil] at same
    obtain rfl : p = f := first
    obtain rfl : q = g := second
    exact ⟨same, same, rfl⟩

end Grammar

section Copied
variable {σ : Type} {w : Writers σ} {write : σ → Bytes → Option HttpError × σ} {s s' last : σ} {a : Unit}

inductive Fed (w : Writers σ) : σ → Bytes → Bytes → σ → Prop where
  | nil (s : σ) : Fed w s [] [] s
  | line {s s' last : σ} {l framed payload : Bytes} (sent : w.dst s l = (none, s'))
      (rest : Fed w s' framed payload last) : Fed w s (l ++ framed) payload last
  | data {s mid s' last : σ} {d framed payload : Bytes} (sunk : w.sink s d = (none, mid))
      (sent : w.dst mid d = (none, s')) (rest : Fed w s' framed payload last) :
      Fed w s (d ++ framed) (d ++ payload) last

theorem fed_trans {mid : σ} (first : Fed w s f p mid) (second : Fed w mid g q last) :
    Fed w s (f ++ g) (p ++ q) last := by
  induction first with
  | nil => exact second
  | line sent _ ih => simpa using Fed.line sent (ih second)
  | data sunk sent _ ih => simpa using Fed.data sunk sent (ih second)

theorem written_ok (passed : (written write p).from (r, s) = (.ok a, (next, s'))) :
    next = r ∧ write s p = (none, s') := by
  simp only [Prog.from, written] at passed
  rcases writing : write s p with ⟨err, after⟩
  rw [writing] at passed
  cases err with
  | none =>
    obtain ⟨rfl, rfl⟩ : r = next ∧ after = s' := by simpa using passed
    exact ⟨rfl, rfl⟩
  | some e => simp at passed

theorem written_reader (write : σ → Bytes → Option HttpError × σ) (p : Bytes) (r : BufReader) (s : σ) :
    ((written write p).from (r, s)).2.1 = r := by
  simp only [Prog.from, written]
  rcases write s p with ⟨_ | e, after⟩ <;> rfl

theorem read_line_ok (valid : r.WellFormed) (passed : (readLine : Copy σ Bytes).from (r, s) = (.ok line, (next, s'))) :
    s' = s ∧ next.WellFormed ∧ next.size = r.size ∧ r.stream = line ++ next.stream ∧ IsLine line := by
  have sliced := read_slice_spec r valid
  simp only [Prog.from, readLine] at passed
  rcases slicing : r.readSlice with ⟨out, err, after⟩
  rw [slicing] at passed sliced
  cases err with
  | none =>
    simp only [Prod.mk.injEq, Except.ok.injEq] at passed
    obtain ⟨rfl, rfl, rfl⟩ := passed
    exact ⟨rfl, sliced.valid, sliced.size, sliced.stream.symm, (sliced.line rfl).1⟩
  | some e => cases e <;> simp at passed

theorem read_line_passes (valid : r.WellFormed) (s : σ) (isLine : IsLine line)
    (stream : r.stream = line ++ rest) (short : line.length ≤ r.size) :
    ∃ next, (readLine : Copy σ Bytes).from (r, s) = (.ok line, (next, s)) ∧ next.WellFormed ∧ next.size = r.size ∧
      next.stream = rest := by
  obtain ⟨next, slicing, valid', size, stream'⟩ := read_slice_line valid isLine stream short
  exact ⟨next, by simp [Prog.from, readLine, slicing], valid', size, stream'⟩

theorem copy_piece_ok (passed : (copyPiece w chunk).from (r, s) = (.ok a, (next, s'))) :
    next = r ∧ Fed w s chunk chunk s' := by
  unfold copyPiece at passed
  split at passed
  · rename_i empty
    rw [run_pure] at passed
    cases passed
    exact ⟨rfl, empty ▸ Fed.nil s⟩
  · obtain ⟨_, ⟨r1, s1⟩, first, second⟩ := bind_ok passed
    obtain ⟨rfl, sunk⟩ := written_ok first
    obtain ⟨rfl, sent⟩ := written_ok second
    exact ⟨rfl, by simpa using Fed.data sunk sent (Fed.nil s')⟩

theorem pulled_from {err : Option ReadError}
    (passed : (pulled space : Copy σ _).from (r, s) = (.ok (chunk, err), (next, s'))) :
    s' = s ∧ r.read space = (chunk, err, next) := by
  simp only [Prog.from, pulled] at passed
  rcases reading : r.read space with ⟨c, e, n⟩
  rw [reading] at passed
  simp only [Prod.mk.injEq, Except.ok.injEq] at passed
  obtain ⟨⟨rfl, rfl⟩, rfl, rfl⟩ := passed
  exact ⟨rfl, rfl⟩

structure Copied (w : Writers σ) (left : Option Nat) (r : BufReader) (s : σ) (next : BufReader) (last : σ)
    (data : Bytes) : Prop where
  stream : r.stream = data ++ next.stream
  valid : next.WellFormed
  size : next.size = r.size
  fed : Fed w s data data last
  limit : ∀ n, left = some n → data.length = n
  drained : left = none → next.stream = []

theorem after_read_ok {err : Option ReadError} {again : Copy σ Unit}
    (passed : (afterRead left err again).from (r, s) = (.ok a, (next, last))) :
    (err.isSome ∧ (∀ n, left = some n → n = 0) ∧ next = r ∧ last = s) ∨
      (err = none ∧ again.from (r, s) = (.ok a, (next, last))) := by
  unfold afterRead at passed
  split at passed
  · split at passed
    · rename_i reached
      cases passed
      refine Or.inl ⟨rfl, ?_, rfl, rfl⟩
      rintro n rfl
      simpa using reached
    · cases passed
  · split at passed
    · rename_i reached
      cases passed
      exact Or.inl ⟨rfl, by simp [reached], rfl, rfl⟩
    · cases passed
  · exact Or.inr ⟨rfl, passed⟩

theorem limit_room (more : left ≠ some 0) : 0 < min (left.getD copyBufferSize) copyBufferSize := by
  cases left with
  | none => simp [copyBufferSize]
  | some n =>
    have : n ≠ 0 := fun zero => more (by rw [zero])
    simp [copyBufferSize]
    omega

theorem step_short {out : Bytes × Option ReadError × BufReader}
    (step : Pulled r (min (left.getD copyBufferSize) copyBufferSize) out) :
    ∀ n, left = some n → out.1.length ≤ n := by
  intro n eq
  have := step.short
  simp only [eq, Option.getD_some] at this
  omega

theorem copy_round_ok (more : left ≠ some 0) (valid : r.WellFormed)
    (passed : (copyLoop w (fuel + 1) left).from (r, s) = (.ok a, (next, last))) :
    ∃ chunk err mid s', Pulled r (min (left.getD copyBufferSize) copyBufferSize) (chunk, err, mid) ∧
      Fed w s chunk chunk s' ∧
      (afterRead (left.map (· - chunk.length)) err (copyLoop w fuel (left.map (· - chunk.length)))).from
        (mid, s') = (.ok a, (next, last)) := by
  rw [copyLoop, if_neg more] at passed
  obtain ⟨⟨chunk, err⟩, ⟨r1, s1⟩, reading, rest⟩ := bind_ok passed
  obtain ⟨rfl, eq⟩ := pulled_from reading
  obtain ⟨_, ⟨r2, s2⟩, piece, after⟩ := bind_ok rest
  obtain ⟨rfl, fed⟩ := copy_piece_ok piece
  exact ⟨chunk, err, r2, s2, eq ▸ read_pulled r valid (limit_room more), fed, after⟩

theorem copy_loop_ok (valid : r.WellFormed) (passed : (copyLoop w fuel left).from (r, s) = (.ok a, (next, last))) :
    ∃ data, Copied w left r s next last data := by
  induction fuel generalizing left r s with
  | zero => cases passed
  | succ fuel ih =>
    by_cases reached : left = some 0
    · rw [copyLoop, if_pos reached, run_pure] at passed
      cases passed
      exact ⟨[], rfl, valid, rfl, Fed.nil _, by simp [reached], by simp [reached]⟩
    · obtain ⟨chunk, err, mid, s', step, fed, rest⟩ := copy_round_ok reached valid passed
      have short : ∀ n, left = some n → chunk.length ≤ n := step_short step
      rcases after_read_ok rest with ⟨failed, full, rfl, rfl⟩ | ⟨_, again⟩
      · refine ⟨chunk, step.stream.symm, step.valid, step.size, fed, ?_, fun _ => step.last failed⟩
        intro n eq
        have := full (n - chunk.length) (by simp [eq])
        have := short n eq
        omega
      · obtain ⟨data, copied⟩ := ih step.valid again
        refine ⟨chunk ++ data, ?_, copied.valid, copied.size.trans step.size,
          fed_trans fed copied.fed, ?_, ?_⟩
        · rw [List.append_assoc, ← copied.stream]
          exact step.stream.symm
        · intro n eq
          have := copied.limit (n - chunk.length) (by simp [eq])
          have := short n eq
          rw [List.length_append]
          omega
        · intro eq
          exact copied.drained (by simp [eq])

theorem copy_trailer_ok (valid : r.WellFormed) (passed : (copyTrailer w fuel).from (r, s) = (.ok a, (next, last))) :
    ∃ trailer, Trailer trailer ∧ Fed w s trailer [] last ∧ r.stream = trailer ++ next.stream ∧
      next.WellFormed ∧ next.size = r.size := by
  induction fuel generalizing r s with
  | zero => cases passed
  | succ fuel ih =>
    unfold copyTrailer at passed
    obtain ⟨line, ⟨r1, s1⟩, reading, rest⟩ := bind_ok passed
    obtain ⟨rfl, valid', size, stream, isLine⟩ := read_line_ok valid reading
    obtain ⟨_, ⟨r2, s2⟩, writing, tail⟩ := bind_ok rest
    obtain ⟨rfl, sent⟩ := written_ok writing
    split at tail
    · rename_i blank
      cases tail
      exact ⟨line, Trailer.blank blank, by simpa using Fed.line sent (Fed.nil _), stream, valid', size⟩
    · rename_i solid
      obtain ⟨trailer, more, fed, stream', valid'', size'⟩ := ih valid' tail
      exact ⟨line ++ trailer, Trailer.line isLine solid more, Fed.line sent fed, by simp [stream, stream'],
        valid'', size'.trans size⟩

theorem copy_n_ok (valid : r.WellFormed) (passed : (copyN w n).from (r, s) = (.ok a, (next, last))) :
    ∃ data, Copied w (some n) r s next last data := copy_loop_ok valid passed

theorem chunks_loop_ok (valid : r.WellFormed) (passed : (chunksLoop w fuel).from (r, s) = (.ok a, (next, last))) :
    ∃ framed payload, ChunkedBody framed payload ∧ Fed w s framed payload last ∧
      r.stream = framed ++ next.stream ∧ next.WellFormed ∧ next.size = r.size := by
  induction fuel generalizing r s with
  | zero => cases passed
  | succ fuel ih =>
    unfold chunksLoop at passed
    obtain ⟨line, ⟨r1, s1⟩, reading, tail1⟩ := bind_ok passed
    obtain ⟨rfl, valid1, size1, stream1, isLine⟩ := read_line_ok valid reading
    cases sized : chunkSize line with
    | error e =>
      rw [sized] at tail1
      cases tail1
    | ok size =>
      simp only [sized] at tail1
      obtain ⟨_, ⟨r2, s2⟩, writing, tail2⟩ := bind_ok tail1
      obtain ⟨rfl, sent⟩ := written_ok writing
      by_cases zero : size = 0
      · rw [if_pos zero] at tail2
        obtain ⟨trailer, ends, fed, stream2, valid2, size2⟩ := copy_trailer_ok valid1 tail2
        exact ⟨line ++ trailer, [], ChunkedBody.last isLine (zero ▸ sized) ends, Fed.line sent fed,
          by simp [stream1, stream2], valid2, size2.trans size1⟩
      · rw [if_neg zero] at tail2
        obtain ⟨_, ⟨r3, s3⟩, copying, tail3⟩ := bind_ok tail2
        obtain ⟨data, copied⟩ := copy_n_ok valid1 copying
        obtain ⟨crlf, ⟨r4, s4⟩, reading, tail4⟩ := bind_ok tail3
        obtain ⟨rfl, valid4, size4, stream4, lineEnd⟩ := read_line_ok copied.valid reading
        obtain ⟨_, ⟨r5, s5⟩, writing, tail5⟩ := bind_ok tail4
        obtain ⟨rfl, sent'⟩ := written_ok writing
        obtain ⟨framed, payload, body, fed, stream5, valid5, size5⟩ := ih valid4 tail5
        have length := copied.limit size rfl
        have some : data ≠ [] := by
          rintro rfl
          exact zero length.symm
        refine ⟨line ++ data ++ crlf ++ framed, data ++ payload,
          ChunkedBody.chunk isLine (length ▸ sized) some lineEnd body, ?_, ?_, valid5, ?_⟩
        · simpa using Fed.line sent (fed_trans copied.fed (Fed.line sent' fed))
        · simp [stream1, copied.stream, stream4, stream5]
        · rw [size5, size4, copied.size, size1]

theorem copy_body_ok (valid : r.WellFormed) (passed : (copyBody w framing).from (r, s) = (.ok a, (next, last))) :
    ∃ framed payload, Framed framing framed payload ∧ Fed w s framed payload last ∧
      r.stream = framed ++ next.stream ∧ next.WellFormed ∧ next.size = r.size ∧
      (framing = .untilClose → next.stream = []) := by
  cases framing with
  | none =>
    cases passed
    exact ⟨[], [], ⟨rfl, rfl⟩, Fed.nil s, rfl, valid, rfl, by simp⟩
  | length n =>
    obtain ⟨data, copied⟩ := copy_n_ok valid passed
    exact ⟨data, data, ⟨copied.limit n rfl, rfl⟩, copied.fed, copied.stream, copied.valid, copied.size,
      by simp⟩
  | chunked =>
    obtain ⟨framed, payload, body, fed, stream, valid', size⟩ := chunks_loop_ok valid passed
    exact ⟨framed, payload, body, fed, stream, valid', size, by simp⟩
  | untilClose =>
    obtain ⟨data, copied⟩ := copy_loop_ok valid passed
    exact ⟨data, data, rfl, copied.fed, copied.stream, copied.valid, copied.size,
      fun _ => copied.drained rfl⟩

end Copied

section Within
variable {σ A : Type} {write : σ → Bytes → Option HttpError × σ} {s s' : σ}

structure Within (size : Nat) (rest : Bytes) (out : Except HttpError A × (BufReader × σ)) : Prop where
  valid : out.2.1.WellFormed
  size : out.2.1.size = size
  left : ∃ left, out.2.1.stream = left ++ rest ∧ ∀ a, out.1 = .ok a → left = []

theorem read_line_within (valid : r.WellFormed) (s : σ) (isLine : IsLine line) (stream : r.stream = line ++ rest) :
    ∃ next, next.WellFormed ∧ next.size = r.size ∧
      (readLine.from (r, s) = (.ok line, (next, s)) ∧ next.stream = rest ∨
        ∃ e left, readLine.from (r, s) = (.error e, (next, s)) ∧ next.stream = left ++ rest) := by
  by_cases short : line.length ≤ r.size
  · obtain ⟨next, reading, valid', size, stream'⟩ := read_line_passes valid s isLine stream short
    exact ⟨next, valid', size, Or.inl ⟨reading, stream'⟩⟩
  · obtain ⟨next, slicing, valid', size, stream'⟩ := read_slice_full valid isLine stream (by omega)
    exact ⟨next, valid', size, Or.inr ⟨.chunkLineTooLong, _, by simp [Prog.from, readLine, slicing], stream'⟩⟩

theorem written_error
    {e : HttpError} (failed : (written write p).from (r, s) = (.error e, (next, s'))) : next = r := by
  have reader := written_reader write p r s
  rwa [failed] at reader

theorem copy_piece_reader (w : Writers σ) (chunk : Bytes) (r : BufReader) (s : σ) :
    ((copyPiece w chunk).from (r, s)).2.1 = r := by
  unfold copyPiece
  split
  · rfl
  · refine bind_ends (fun _ (st : BufReader × σ) => st.1 = r) ?_ ?_
    · rintro e ⟨next, s'⟩ failed
      exact written_error failed
    · rintro a ⟨next, s'⟩ passed
      obtain ⟨rfl, _⟩ := written_ok passed
      exact written_reader _ _ _ _

structure Taken (left : Option Nat) (r next : BufReader) : Prop where
  valid : next.WellFormed
  size : next.size = r.size
  data : ∃ data, r.stream = data ++ next.stream ∧ ∀ n, left = some n → data.length ≤ n

theorem taken_refl (left : Option Nat) (valid : r.WellFormed) : Taken left r r :=
  ⟨valid, rfl, [], rfl, by simp⟩

theorem after_read_taken (err : Option ReadError) {again : Copy σ Unit} (valid : r.WellFormed)
    (loop : Taken left r (again.from (r, s)).2.1) : Taken left r ((afterRead left err again).from (r, s)).2.1 := by
  unfold afterRead
  split
  · split <;> exact taken_refl left valid
  · split <;> exact taken_refl left valid
  · exact loop

theorem copy_loop_taken (w : Writers σ) (fuel : Nat) (left : Option Nat) (valid : r.WellFormed)
    (s : σ) : Taken left r ((copyLoop w fuel left).from (r, s)).2.1 := by
  induction fuel generalizing left r s with
  | zero => exact taken_refl left valid
  | succ fuel ih =>
    by_cases reached : left = some 0
    · rw [copyLoop, if_pos reached]
      exact taken_refl left valid
    · rw [copyLoop, if_neg reached]
      refine bind_ends (fun _ (st : BufReader × σ) => Taken left r st.1) ?_ ?_
      · rintro e mid failed
        cases failed
      · rintro ⟨chunk, err⟩ ⟨mid, s'⟩ reading
        obtain ⟨rfl, eq⟩ := pulled_from reading
        have step := read_pulled r valid (limit_room reached)
        rw [eq] at step
        have short : ∀ n, left = some n → chunk.length ≤ n := step_short step
        refine bind_ends (fun _ (st : BufReader × σ) => Taken left r st.1) ?_ ?_
        · rintro e ⟨next, last⟩ failed
          have same : next = mid := by simpa [failed] using copy_piece_reader w chunk mid s'
          subst same
          exact ⟨step.valid, step.size, chunk, step.stream.symm, short⟩
        · rintro a ⟨next, last⟩ passed
          obtain ⟨rfl, _⟩ := copy_piece_ok passed
          have rest := after_read_taken err step.valid (ih (left.map (· - chunk.length)) step.valid last)
          obtain ⟨data, stream, bound⟩ := rest.data
          refine ⟨rest.valid, rest.size.trans step.size, chunk ++ data, ?_, ?_⟩
          · rw [List.append_assoc, ← stream]
            exact step.stream.symm
          · intro n eq
            have := bound (n - chunk.length) (by simp [eq])
            have := short n eq
            rw [List.length_append]
            omega

theorem copy_n_within (w : Writers σ) (valid : r.WellFormed) (s : σ)
    (stream : r.stream = data ++ rest) : Within r.size rest ((copyN w data.length).from (r, s)) := by
  have taken : Taken (some data.length) r ((copyN w data.length).from (r, s)).2.1 :=
    copy_loop_taken w _ _ valid s
  obtain ⟨piece, whole, bound⟩ := taken.data
  have inside : piece <+: data := List.prefix_of_prefix_length_le (whole ▸ List.prefix_append _ _)
    (stream ▸ List.prefix_append _ _) (bound _ rfl)
  obtain ⟨left, eq⟩ := inside
  refine ⟨taken.valid, taken.size, left, ?_, ?_⟩
  · have split : piece ++ (((copyN w data.length).from (r, s)).2.1.stream) = piece ++ (left ++ rest) := by
      rw [← whole, ← List.append_assoc, eq, stream]
    exact List.append_cancel_left split
  · intro a passed
    rcases ending : (copyN w data.length).from (r, s) with ⟨out, next, last⟩
    rw [ending] at passed whole
    obtain ⟨copy, copied⟩ := copy_n_ok valid (ending.trans (by rw [show out = .ok a from passed]))
    have length := copied.limit _ rfl
    have same : piece.length = copy.length := by
      have := congrArg List.length (whole.symm.trans copied.stream)
      simpa using this
    rw [← eq, List.length_append] at length
    exact List.length_eq_zero_iff.mp (by omega)

theorem within_error {left : Bytes} {e : HttpError} (valid : next.WellFormed) (same : next.size = size)
    (stream : next.stream = left ++ rest) : Within (A := A) size rest (.error e, (next, s)) :=
  ⟨valid, same, left, stream, by simp⟩

theorem bind_within {B : Type} {p : Copy σ A} {f : A → Copy σ B} (more : Bytes)

    (first : Within r.size (more ++ rest) (p.from (r, s)))
    (after : ∀ a next s', next.WellFormed → next.size = r.size → next.stream = more ++ rest →
      Within r.size rest ((f a).from (next, s'))) : Within r.size rest ((p >>= f).from (r, s)) := by
  rcases ending : p.from (r, s) with ⟨out, next, s'⟩
  rw [ending] at first
  obtain ⟨left, eq, done⟩ := first.left
  cases out with
  | ok a =>
    rw [run_bind_ok ending]
    exact after a next s' first.valid first.size (by simpa [done a rfl] using eq)
  | error e =>
    rw [run_bind_error ending]
    exact within_error first.valid first.size (eq.trans (List.append_assoc _ _ _).symm)

theorem line_within {B : Type} {f : Bytes → Copy σ B} (more : Bytes) (valid : r.WellFormed)
    (s : σ) (isLine : IsLine line) (stream : r.stream = line ++ (more ++ rest))
    (after : ∀ next : BufReader, next.WellFormed → next.size = r.size → next.stream = more ++ rest →
      Within r.size rest ((f line).from (next, s))) :
    Within r.size rest ((readLine >>= f).from (r, s)) := by
  obtain ⟨next, valid', size, ⟨reading, stream'⟩ | ⟨e, left, failed, stream'⟩⟩ :=
    read_line_within valid s isLine stream
  · rw [run_bind_ok reading]
    exact after next valid' size stream'
  · rw [run_bind_error failed]
    exact within_error valid' size (stream'.trans (List.append_assoc _ _ _).symm)

theorem written_within {B : Type} {f : Unit → Copy σ B} (valid : r.WellFormed) (s : σ) {left : Bytes}
    (stream : r.stream = left ++ rest) (after : ∀ s', Within r.size rest ((f ()).from (r, s'))) :
    Within r.size rest ((written write p >>= f).from (r, s)) := by
  rcases writing : (written write p).from (r, s) with ⟨out, next, s'⟩
  cases out with
  | ok a =>
    obtain ⟨rfl, _⟩ := written_ok writing
    rw [run_bind_ok writing]
    exact after s'
  | error e =>
    obtain rfl := written_error writing
    rw [run_bind_error writing]
    exact within_error valid rfl stream

theorem copy_trailer_within (w : Writers σ) (ends : Trailer trailer) (fuel : Nat) (valid : r.WellFormed) (s : σ)
    (stream : r.stream = trailer ++ rest) : Within r.size rest ((copyTrailer w fuel).from (r, s)) := by
  induction ends generalizing fuel r s with
  | blank ends =>
    cases fuel with
    | zero => exact within_error valid rfl stream
    | succ fuel =>
      refine line_within [] valid s (blank_is_line ends) stream ?_
      intro next valid' size stream'
      rw [← size]
      refine written_within valid' s stream' fun s' => ?_
      rw [if_pos ends]
      exact ⟨valid', rfl, [], stream', by simp⟩
  | line isLine solid more ih =>
    cases fuel with
    | zero => exact within_error valid rfl stream
    | succ fuel =>
      refine line_within _ valid s isLine (stream.trans (List.append_assoc _ _ _)) ?_
      intro next valid' size stream'
      rw [← size]
      refine written_within valid' s stream' fun s' => ?_
      rw [if_neg solid]
      exact ih fuel valid' s' stream'

theorem chunks_loop_within (w : Writers σ) (chunked : ChunkedBody body payload) (fuel : Nat) (valid : r.WellFormed)
    (s : σ) (stream : r.stream = body ++ rest) : Within r.size rest ((chunksLoop w fuel).from (r, s)) := by
  induction chunked generalizing fuel r s with
  | last isLine zero ends =>
    cases fuel with
    | zero => exact within_error valid rfl stream
    | succ fuel =>
      refine line_within _ valid s isLine (stream.trans (List.append_assoc _ _ _)) ?_
      intro next valid' size stream'
      rw [← size]
      simp only [zero, ↓reduceIte]
      exact written_within valid' s stream' fun s' => copy_trailer_within w ends fuel valid' s' stream'
  | @chunk line data crlf framed payload isLine size some lineEnd more ih =>
    cases fuel with
    | zero => exact within_error valid rfl stream
    | succ fuel =>
      have regroup : r.stream = line ++ (data ++ crlf ++ framed ++ rest) := by simp [stream]
      refine line_within _ valid s isLine regroup ?_
      intro next valid' same stream'
      have positive : data.length ≠ 0 := by simpa using some
      simp only [size, positive, ↓reduceIte]
      rw [← same]
      refine written_within valid' s stream' fun s' => ?_
      refine bind_within (crlf ++ framed)
        (copy_n_within w valid' s' (by simpa using stream')) ?_
      intro _ mid last valid2 size2 stream2
      rw [← size2]
      refine line_within _ valid2 last lineEnd (stream2.trans (List.append_assoc _ _ _)) ?_
      intro after valid3 size3 stream3
      rw [← size3]
      exact written_within valid3 last stream3 fun s'' => ih fuel valid3 s'' stream3

theorem copy_body_within (w : Writers σ) (framed : Framed framing body payload)
    (closed : framing = .untilClose → rest = []) (valid : r.WellFormed) (s : σ) (stream : r.stream = body ++ rest) :
    Within r.size rest ((copyBody w framing).from (r, s)) := by
  cases framing with
  | none =>
    obtain ⟨rfl, _⟩ := framed
    exact ⟨valid, rfl, [], stream, by simp⟩
  | length n =>
    obtain ⟨rfl, _⟩ := framed
    exact copy_n_within w valid s stream
  | chunked => exact chunks_loop_within w framed _ valid s stream
  | untilClose =>
    have taken : Taken none r ((copyBody w .untilClose).from (r, s)).2.1 := copy_loop_taken w _ none valid s
    refine ⟨taken.valid, taken.size, _, by rw [closed rfl, List.append_nil], ?_⟩
    intro a passed
    rcases ending : (copyBody w .untilClose).from (r, s) with ⟨out, next, last⟩
    rw [ending] at passed
    obtain ⟨_, _, _, _, _, _, _, drained⟩ :=
      copy_body_ok valid (ending.trans (by rw [show out = .ok a from passed]))
    exact drained rfl

end Within

end BodyFraming
