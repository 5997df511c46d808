import RootShell.ByteLines

/-!
A buffered reader over a source that delivers its bytes in any pieces, as Go's
bufio.Reader keeps one. Only the buffered window is kept: sliding it to the front
before every fill makes the two buffer indices unobservable.
-/
namespace BufferedReader
open ByteLines

inductive ReadError where
  | eof
  | noProgress
  | failed (code : Nat)
  deriving DecidableEq, Repr

def maxConsecutiveEmptyReads : Nat := 100

/-- The other end of a connection. The k-th read is offered at most `plan[k]` bytes, an
    offer of zero is an empty read, and past the plan every read gets all that fits.
    `failure` is met once the bytes are used up, together with the last of them when
    `failsWithData`. A source that stalls for good delivers no bytes and is excluded. -/
structure Source where
  data : Bytes
  plan : List Nat
  failure : ReadError
  failsWithData : Bool
  lively : ¬ List.replicate maxConsecutiveEmptyReads 0 <:+: plan

theorem lively_nil : ¬ List.replicate maxConsecutiveEmptyReads 0 <:+: [] := by decide

theorem lively_tail {n : Nat} {plan : List Nat} (lively : ¬ List.replicate n 0 <:+: plan) :
    ¬ List.replicate n 0 <:+: plan.tail :=
  fun inside => lively (inside.trans (List.tail_suffix plan).isInfix)

def Source.advance (s : Source) (n : Nat) : Source :=
  { s with data := s.data.drop n, plan := s.plan.tail, lively := lively_tail s.lively }

def Source.read (s : Source) (space : Nat) : Bytes × Option ReadError × Source :=
  let offer := min space (s.plan.headD s.data.length)
  if s.plan.head? = some 0 then ([], none, s.advance 0)
  else if s.data = [] then ([], some s.failure, s.advance 0)
  else (s.data.take offer,
    if s.data.drop offer = [] ∧ s.failsWithData then some s.failure else none, s.advance offer)

structure BufReader where
  size : Nat
  buf : Bytes
  pending : Option ReadError
  src : Source

/-- Every byte still to come out of the reader, buffered or not. -/
def BufReader.stream (r : BufReader) : Bytes := r.buf ++ r.src.data

structure BufReader.WellFormed (r : BufReader) : Prop where
  room : 16 ≤ r.size
  fits : r.buf.length ≤ r.size
  ended : r.pending.isSome → r.src.data = []

def newReaderSize (src : Source) (size : Nat) : BufReader := ⟨max size 16, [], none, src⟩

theorem new_reader_well_formed (src : Source) (size : Nat) :
    (newReaderSize src size).WellFormed ∧ (newReaderSize src size).stream = src.data := by
  refine ⟨⟨?_, by simp [newReaderSize], by simp [newReaderSize]⟩, by simp [newReaderSize, BufReader.stream]⟩
  simp only [newReaderSize]
  omega

def fillLoop : Nat → BufReader → BufReader
  | 0, r => { r with pending := some .noProgress }
  | tries + 1, r =>
    let (chunk, err, src) := r.src.read (r.size - r.buf.length)
    let next : BufReader := { r with buf := r.buf ++ chunk, src := src }
    match err with
    | some e => { next with pending := some e }
    | none => if chunk = [] then fillLoop tries next else next

def BufReader.fill (r : BufReader) : BufReader := fillLoop maxConsecutiveEmptyReads r

inductive SliceError where
  | bufferFull
  | read (e : ReadError)
  deriving DecidableEq, Repr

/-- Every fill adds a byte or leaves an error pending, so the fuel of `readSlice` is never used up. -/
def readSliceLoop : Nat → BufReader → Bytes × Option SliceError × BufReader
  | 0, r => (r.buf, some .bufferFull, { r with buf := [] })
  | fuel + 1, r =>
    match splitLine r.buf with
    | some (line, rest) => (line, none, { r with buf := rest })
    | none =>
      match r.pending with
      | some e => (r.buf, some (.read e), { r with buf := [], pending := none })
      | none =>
        if r.size ≤ r.buf.length then (r.buf, some .bufferFull, { r with buf := [] })
        else readSliceLoop fuel r.fill

def BufReader.readSlice (r : BufReader) : Bytes × Option SliceError × BufReader :=
  readSliceLoop (r.size + 2) r

/-- Read into `space` bytes: a large read on an empty buffer bypasses it. -/
def BufReader.read (r : BufReader) (space : Nat) : Bytes × Option ReadError × BufReader :=
  if r.buf = [] then
    match r.pending with
    | some e => ([], some e, { r with pending := none })
    | none =>
      if r.size ≤ space then
        let (chunk, err, src) := r.src.read space
        (chunk, err, { r with src := src })
      else
        let (chunk, err, src) := r.src.read r.size
        if chunk = [] then ([], err, { r with src := src })
        else (chunk.take space, none, { r with buf := chunk.drop space, pending := err, src := src })
  else (r.buf.take space, none, { r with buf := r.buf.drop space })

structure Delivered (s : Source) (space : Nat) (out : Bytes × Option ReadError × Source) : Prop where
  data : out.1 ++ out.2.2.data = s.data
  short : out.1.length ≤ space
  ended : out.2.1.isSome → out.2.2.data = []
  plan : out.2.2.plan = s.plan.tail
  empty : out.1 = [] → out.2.1 = none → s.plan = 0 :: out.2.2.plan

theorem source_read_delivered (s : Source) {space : Nat} (room : 0 < space) : Delivered s space (s.read space) := by
  unfold Source.read
  split
  · rename_i empty
    obtain ⟨rest, plan⟩ := List.head?_eq_some_iff.mp empty
    exact ⟨rfl, by simp, by simp, rfl, fun _ _ => by simp [Source.advance, plan]⟩
  · rename_i offered
    split
    · rename_i drained
      exact ⟨rfl, by simp, by simp [Source.advance, drained], rfl, by simp⟩
    · rename_i more
      refine ⟨by simp [Source.advance], by simp only [List.length_take]; omega, ?_, rfl, ?_⟩
      · intro failed
        simp only [Source.advance]
        dsimp only at failed
        split at failed
        · rename_i last
          exact last.1
        · simp at failed
      · intro nothing _
        have zero : min space (s.plan.headD s.data.length) = 0 := by simpa [more] using nothing
        have shape : s.plan = [] ∨ ∃ n rest, s.plan = n :: rest := by cases s.plan <;> simp
        rcases shape with plan | ⟨n, rest, plan⟩
        · simp [plan, more] at zero
          omega
        · rw [plan, List.headD_cons] at zero
          exact absurd (by simp [plan]; omega) offered

structure Filled (r next : BufReader) : Prop where
  size : next.size = r.size
  stream : next.stream = r.stream
  fits : next.buf.length ≤ r.size
  ended : next.pending.isSome → next.src.data = []
  moved : next.pending.isSome ∨ r.buf.length < next.buf.length

theorem fill_loop_filled (tries : Nat) (r : BufReader) (open_ : r.pending = none) (space : r.buf.length < r.size)
    (lively : ¬ List.replicate tries 0 <+: r.src.plan) : Filled r (fillLoop tries r) := by
  induction tries generalizing r with
  | zero => simp at lively
  | succ tries ih =>
    have room : 0 < r.size - r.buf.length := by omega
    obtain ⟨whole, short, ended, _, empty⟩ := source_read_delivered r.src room
    rcases reading : r.src.read (r.size - r.buf.length) with ⟨chunk, err, src⟩
    simp only [reading] at whole short ended empty
    simp only [fillLoop, reading]
    have stream : r.buf ++ chunk ++ src.data = r.stream := by
      rw [List.append_assoc, whole, BufReader.stream]
    have fits : (r.buf ++ chunk).length ≤ r.size := by
      simp only [List.length_append]
      omega
    cases err with
    | some e => exact ⟨rfl, stream, fits, fun _ => ended rfl, Or.inl rfl⟩
    | none =>
      by_cases none : chunk = []
      · have plan := empty none rfl
        have next := ih { r with buf := r.buf ++ chunk, src := src } open_ (by simp [none, space])
          (by
            intro more
            apply lively
            rw [plan, List.replicate_succ]
            exact List.prefix_cons_iff.mpr (Or.inr ⟨_, rfl, more⟩))
        simp only [none, ↓reduceIte]
        simp only [none] at next stream
        refine ⟨next.size, next.stream.trans stream, next.fits, next.ended, ?_⟩
        simpa using next.moved
      · simp only [none, ↓reduceIte]
        refine ⟨rfl, stream, fits, by simp [open_], Or.inr ?_⟩
        have := List.length_pos_of_ne_nil none
        simp only [List.length_append]
        omega

theorem fill_filled (r : BufReader) (open_ : r.pending = none) (space : r.buf.length < r.size) : Filled r r.fill :=
  fill_loop_filled _ r open_ space fun front => r.src.lively front.isInfix

structure Sliced (r : BufReader) (out : Bytes × Option SliceError × BufReader) : Prop where
  size : out.2.2.size = r.size
  stream : out.1 ++ out.2.2.stream = r.stream
  valid : out.2.2.WellFormed
  line : out.2.1 = none → IsLine out.1 ∧ out.1.length ≤ r.size
  full : out.2.1 = some .bufferFull → out.1.length = r.size ∧ 10 ∉ out.1
  last : ∀ e, out.2.1 = some (.read e) → 10 ∉ out.1 ∧ out.2.2.stream = []

theorem read_slice_loop_spec (fuel : Nat) (r : BufReader) (valid : r.WellFormed)
    (budget : (if r.pending.isSome then 0 else r.size + 1 - r.buf.length) < fuel) :
    Sliced r (readSliceLoop fuel r) := by
  induction fuel generalizing r with
  | zero => omega
  | succ fuel ih =>
    obtain ⟨room, fits, ended⟩ := valid
    simp only [readSliceLoop]
    cases found : splitLine r.buf with
    | some p =>
      obtain ⟨line, rest⟩ := p
      obtain ⟨eq, line⟩ := split_line_some found
      have lengths := congrArg List.length eq
      simp only [List.length_append] at lengths
      exact ⟨rfl, by simp [BufReader.stream, eq], ⟨room, by simp only; omega, ended⟩,
        fun _ => ⟨line, by simp only; omega⟩, by simp, by simp⟩
    | none =>
      have clean := split_line_none.mp found
      dsimp only
      cases pending : r.pending with
      | some e =>
        have drained := ended (by simp [pending])
        exact ⟨rfl, by simp [BufReader.stream, drained], ⟨room, by simp, by simp⟩, by simp, by simp,
          fun _ _ => ⟨clean, by simp [BufReader.stream, drained]⟩⟩
      | none =>
        dsimp only
        split
        · rename_i full
          exact ⟨rfl, by simp [BufReader.stream], ⟨room, by simp, by simp⟩, by simp,
            fun _ => ⟨by simp only; omega, clean⟩, by simp⟩
        · rename_i space
          have filled := fill_filled r pending (by omega)
          obtain ⟨size, stream, fits', ended', moved⟩ := filled
          simp only [pending, Option.isSome_none, Bool.false_eq_true, ↓reduceIte] at budget
          have next := ih r.fill ⟨by omega, by omega, ended'⟩ (by
            split
            · omega
            · rcases moved with failed | longer
              · contradiction
              · omega)
          exact ⟨next.size.trans size, next.stream.trans stream, next.valid,
            by simpa [size] using next.line, by simpa [size] using next.full, next.last⟩

theorem read_slice_spec (r : BufReader) (valid : r.WellFormed) : Sliced r r.readSlice :=
  read_slice_loop_spec _ r valid (by split <;> omega)

variable {r : BufReader} {line rest : Bytes}

/-- With a line to come, a line that fits the buffer comes back whole and of a longer one as
    much as fits, however the source cuts it up. -/
theorem read_slice_cases (valid : r.WellFormed) (isLine : IsLine line) (stream : r.stream = line ++ rest) :
    ∃ next : BufReader, next.WellFormed ∧ next.size = r.size ∧
      (line.length ≤ r.size ∧ r.readSlice = (line, none, next) ∧ next.stream = rest ∨
        r.size < line.length ∧ r.readSlice = (line.take r.size, some .bufferFull, next) ∧
          next.stream = line.drop r.size ++ rest) := by
  have sliced := read_slice_spec r valid
  rcases slicing : r.readSlice with ⟨out, err, next⟩
  rw [slicing] at sliced
  have whole := sliced.stream.trans stream
  refine ⟨next, sliced.valid, sliced.size, ?_⟩
  cases err with
  | none =>
    obtain ⟨rfl, behind⟩ := line_prefix_unique (sliced.line rfl).1 isLine whole
    exact .inl ⟨(sliced.line rfl).2, rfl, behind⟩
  | some e =>
    cases e with
    | bufferFull =>
      obtain ⟨length, clean⟩ := sliced.full rfl
      dsimp only at length clean
      have long : r.size < line.length := by
        by_contra short
        have covered : line <+: out :=
          List.prefix_of_prefix_length_le (List.prefix_append line rest)
            (whole ▸ List.prefix_append out next.stream) (by omega)
        exact clean (covered.subset (newline_mem_line isLine))
      rw [← List.take_append_drop r.size line, List.append_assoc] at whole
      obtain ⟨rfl, behind⟩ := List.append_inj whole (by rw [length, List.length_take]; omega)
      exact .inr ⟨long, rfl, behind⟩
    | read e =>
      exfalso
      obtain ⟨clean, drained⟩ := sliced.last e rfl
      simp only [drained, List.append_nil] at whole
      exact clean (by simp [whole, newline_mem_line isLine])

theorem read_slice_line (valid : r.WellFormed)
    (isLine : IsLine line) (stream : r.stream = line ++ rest) (fits : line.length ≤ r.size) :
    ∃ next, r.readSlice = (line, none, next) ∧ next.WellFormed ∧ next.size = r.size ∧
      next.stream = rest := by
  obtain ⟨next, valid', size, ⟨_, slicing, behind⟩ | ⟨long, _⟩⟩ := read_slice_cases valid isLine stream
  · exact ⟨next, slicing, valid', size, behind⟩
  · exact absurd fits (Nat.not_le.2 long)

theorem read_slice_full (valid : r.WellFormed)
    (isLine : IsLine line) (stream : r.stream = line ++ rest) (long : r.size < line.length) :
    ∃ next, r.readSlice = (line.take r.size, some .bufferFull, next) ∧ next.WellFormed ∧
      next.size = r.size ∧ next.stream = line.drop r.size ++ rest := by
  obtain ⟨next, valid', size, ⟨short, _⟩ | ⟨_, slicing, behind⟩⟩ := read_slice_cases valid isLine stream
  · exact absurd short (Nat.not_le.2 long)
  · exact ⟨next, slicing, valid', size, behind⟩

structure Pulled (r : BufReader) (space : Nat) (out : Bytes × Option ReadError × BufReader) :
    Prop where
  size : out.2.2.size = r.size
  stream : out.1 ++ out.2.2.stream = r.stream
  valid : out.2.2.WellFormed
  short : out.1.length ≤ space
  last : out.2.1.isSome → out.2.2.stream = []
  plan : out.2.2.src.plan.length ≤ r.src.plan.length
  moved : out.1 = [] → out.2.1 = none → out.2.2.src.plan.length < r.src.plan.length

theorem read_pulled (r : BufReader) (valid : r.WellFormed) {space : Nat} (room : 0 < space) :
    Pulled r space (r.read space) := by
  obtain ⟨large, fits, ended⟩ := valid
  unfold BufReader.read
  split
  · rename_i empty
    cases pending : r.pending with
    | some e =>
      have drained := ended (by simp [pending])
      exact ⟨rfl, rfl, ⟨large, fits, by simp⟩, by simp, by simp [BufReader.stream, drained, empty],
        Nat.le_refl _, by simp⟩
    | none =>
      dsimp only
      split
      · obtain ⟨whole, short, ended, plan, idle⟩ := source_read_delivered r.src room
        rcases reading : r.src.read space with ⟨chunk, err, src⟩
        simp only [reading] at whole short ended plan idle
        refine ⟨rfl, by simp [BufReader.stream, empty, whole], ⟨large, fits, by simp⟩,
          short, by simpa [BufReader.stream, empty] using ended, by simp [plan], ?_⟩
        intro none closed
        simp [idle none closed]
      · rename_i small
        have positive : 0 < r.size := by omega
        obtain ⟨whole, short, ended, plan, idle⟩ := source_read_delivered r.src positive
        rcases reading : r.src.read r.size with ⟨chunk, err, src⟩
        simp only [reading] at whole short ended plan idle
        dsimp only
        split
        · rename_i none
          subst none
          refine ⟨rfl, by simpa [BufReader.stream, empty] using whole, ⟨large, fits, by simp⟩,
            by simp, by simpa [BufReader.stream, empty] using ended, by simp [plan], ?_⟩
          intro _ closed
          simp [idle rfl closed]
        · rename_i some
          refine ⟨rfl, ?_, ⟨large, by simp only [List.length_drop]; omega, ended⟩,
            by simp only [List.length_take]; omega, by simp, by simp [plan], ?_⟩
          · simp [BufReader.stream, empty, ← whole, ← List.append_assoc]
          · intro none _
            rcases List.take_eq_nil_iff.mp none with zero | empty
            · omega
            · exact absurd empty some
  · rename_i some
    refine ⟨rfl, by simp [BufReader.stream, ← List.append_assoc],
      ⟨large, by simp only [List.length_drop]; omega, ended⟩, by simp only [List.length_take]; omega,
      by simp, Nat.le_refl _, ?_⟩
    intro none _
    rcases List.take_eq_nil_iff.mp none with zero | empty
    · omega
    · exact absurd empty some

end BufferedReader
