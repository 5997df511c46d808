import RootShell.ByteLines
import RootShell.SegmentedStreams

/-!
Reading until enough has come: io.ReadAtLeast and io.ReadFull on a stream that arrives in
pieces. What is read and what is left make up the stream, and the read fails only where
the stream ends too early.
-/
namespace FilledReads
open ByteLines SegmentedStreams
universe u v
variable {α : Type u} {E : Type v}

inductive ReadError where
  | eof
  | unexpectedEOF
  | other (message : Bytes)
  deriving DecidableEq

def ReadError.message : ReadError → Bytes
  | .eof => text "EOF"
  | .unexpectedEOF => text "unexpected EOF"
  | .other message => message

/-- The loop of io.ReadAtLeast: `space` places are free and `need` elements are missing. -/
def fillLoop : Nat → Conn α E → Nat → Nat → List α × Option E × Conn α E
  | 0, c, _, _ => ([], none, c)
  | _ + 1, c, _, 0 => ([], none, c)
  | fuel + 1, c, space, need + 1 =>
    match (c.read space).2.1 with
    | some err => ((c.read space).1, some err, (c.read space).2.2)
    | none =>
      let got := (c.read space).1
      let more := fillLoop fuel (c.read space).2.2 (space - got.length) (need + 1 - got.length)
      (got ++ more.1, more.2.1, more.2.2)

variable [DecidableEq E]

/-- An end of the stream in the middle of the read is an unexpected one. -/
def readAtLeast (eof unexpected : E) (c : Conn α E) (space need : Nat) : List α × Option E × Conn α E :=
  let out := fillLoop (c.work + 1) c space need
  if need ≤ out.1.length then (out.1, none, out.2.2)
  else if 0 < out.1.length ∧ out.2.1 = some eof then (out.1, some unexpected, out.2.2)
  else out

def readFull (eof unexpected : E) (c : Conn α E) (count : Nat) : List α × Option E × Conn α E :=
  readAtLeast eof unexpected c count count

def Steady (c : Conn α E) : Prop := ∀ piece ∈ c.pieces.dropLast, piece.2 = none

def Silent (c : Conn α E) : Prop := ∀ piece ∈ c.pieces, piece.2 = none

section Reading

omit [DecidableEq E] in
theorem steady_tail {piece : List α × Option E} {rest : List (List α × Option E)} {ending : E}
    (steady : Steady ⟨piece :: rest, ending⟩) : Steady ⟨rest, ending⟩ := by
  intro other member
  cases rest with
  | nil => simp at member
  | cons next rest => exact steady other (by simp [member])

variable {c : Conn α E} {space need : Nat}

omit [DecidableEq E] in
theorem read_steady (steady : Steady c) (space : Nat) :
    Steady (c.read space).2.2 ∧ ((c.read space).2.1 ≠ none → (c.read space).2.2.stream = []) := by
  obtain ⟨pieces, ending⟩ := c
  cases pieces with
  | nil => exact ⟨steady, fun _ => rfl⟩
  | cons head rest =>
    obtain ⟨piece, err⟩ := head
    simp only [Conn.read]
    split
    · refine ⟨steady_tail steady, fun failed => ?_⟩
      cases rest with
      | nil => rfl
      | cons next rest => exact absurd (steady (piece, err) (by simp)) failed
    · refine ⟨?_, fun failed => absurd rfl failed⟩
      intro other member
      cases rest with
      | nil => simp at member
      | cons next rest =>
        rcases List.mem_cons.1 (by simpa using member) with rfl | later
        · exact steady (piece, err) (by simp)
        · exact steady other (by simp [later])

structure Filled (c : Conn α E) (space need : Nat) (out : List α × Option E × Conn α E) : Prop where
  stream : out.1 ++ out.2.2.stream = c.stream
  short : out.1.length ≤ space
  done : out.2.1 = none → need ≤ out.1.length
  steady : Steady c → Steady out.2.2
  ended : Steady c → out.2.1 ≠ none → out.2.2.stream = []

omit [DecidableEq E] in
theorem fill_loop_filled {fuel : Nat} (c : Conn α E) (budget : c.work < fuel) (room : need ≤ space) :
    Filled c space need (fillLoop fuel c space need) := by
  induction fuel generalizing c space need with
  | zero => omega
  | succ fuel ih =>
    cases need with
    | zero => exact ⟨rfl, Nat.zero_le _, fun _ => Nat.zero_le _, id, fun _ failed => absurd rfl failed⟩
    | succ need =>
      have delivered := conn_read_delivered c space
      rw [fillLoop]
      cases err : (c.read space).2.1 with
      | some e =>
        refine ⟨delivered.stream, delivered.short, ?_, fun steady => (read_steady steady space).1, ?_⟩
        · intro fine
          cases fine
        · intro steady _
          exact (read_steady steady space).2 (by simp [err])
      | none =>
        have less : (c.read space).2.2.work < fuel := by
          rcases delivered.progress (by omega) with less | ⟨_, failed⟩
          · omega
          · rw [err] at failed
            cases failed
        have short := delivered.short
        have missing : need + 1 - (c.read space).1.length ≤ space - (c.read space).1.length := by omega
        have rest := ih (c.read space).2.2 less missing
        refine ⟨?_, ?_, ?_, ?_, ?_⟩
        · dsimp only
          rw [List.append_assoc, rest.stream, delivered.stream]
        · have := rest.short
          simp only [List.length_append]
          omega
        · intro fine
          have := rest.done fine
          simp only [List.length_append]
          omega
        · exact fun steady => rest.steady (read_steady steady space).1
        · exact fun steady => rest.ended (read_steady steady space).1

omit [DecidableEq E] in
theorem silent_steady (silent : Silent c) : Steady c :=
  fun piece member => silent piece (List.mem_of_mem_dropLast member)

omit [DecidableEq E] in
theorem read_silent (silent : Silent c) (space : Nat) :
    Silent (c.read space).2.2 ∧ ((c.read space).2.1 ≠ none → (c.read space).1 = []) := by
  obtain ⟨pieces, ending⟩ := c
  cases pieces with
  | nil => exact ⟨silent, fun _ => rfl⟩
  | cons head rest =>
    obtain ⟨piece, err⟩ := head
    have quiet : err = none := silent (piece, err) List.mem_cons_self
    have later : ∀ other ∈ rest, other.2 = none := fun other member => silent other (List.mem_cons_of_mem _ member)
    simp only [Conn.read]
    split
    · exact ⟨later, fun failed => absurd quiet failed⟩
    · exact ⟨List.forall_mem_cons.2 ⟨quiet, later⟩, fun failed => absurd rfl failed⟩

omit [DecidableEq E] in
theorem fill_loop_silent (fuel : Nat) (silent : Silent c) (space need : Nat) :
    Silent (fillLoop fuel c space need).2.2 ∧
      ((fillLoop fuel c space need).2.1 ≠ none → (fillLoop fuel c space need).1.length < need) := by
  induction fuel generalizing c space need with
  | zero => exact ⟨silent, fun failed => absurd rfl failed⟩
  | succ fuel ih =>
    cases need with
    | zero => exact ⟨silent, fun failed => absurd rfl failed⟩
    | succ need =>
      obtain ⟨quiet, nothing⟩ := read_silent silent space
      rw [fillLoop]
      cases err : (c.read space).2.1 with
      | some e =>
        refine ⟨quiet, fun _ => ?_⟩
        dsimp only
        rw [nothing (by simp [err])]
        exact Nat.succ_pos need
      | none =>
        obtain ⟨rest, short⟩ := ih quiet (space - (c.read space).1.length) (need + 1 - (c.read space).1.length)
        refine ⟨rest, fun failed => ?_⟩
        have less := short failed
        simp only [List.length_append]
        omega

omit [DecidableEq E] in
theorem fill_exact (silent : Silent c) {front rest : List α} (stream : c.stream = front ++ rest) :
    ∃ c', fillLoop (c.work + 1) c front.length front.length = (front, none, c') ∧ c'.stream = rest ∧ Silent c' := by
  have filled := fill_loop_filled c (Nat.lt_succ_self _) (Nat.le_refl front.length)
  obtain ⟨quiet, short⟩ := fill_loop_silent (c.work + 1) silent front.length front.length
  rcases out : fillLoop (c.work + 1) c front.length front.length with ⟨got, err, c'⟩
  rw [out] at filled quiet short
  have whole : got ++ c'.stream = front ++ rest := filled.stream.trans stream
  cases err with
  | some e =>
    have less : got.length < front.length := short (by simp)
    have ended : c'.stream = [] := filled.ended (silent_steady silent) (by simp)
    have lengths := congrArg List.length whole
    rw [ended, List.append_nil, List.length_append] at lengths
    omega
  | none =>
    have length : got.length = front.length := Nat.le_antisymm filled.short (filled.done rfl)
    obtain ⟨rfl, rfl⟩ := List.append_inj whole length
    exact ⟨c', rfl, rfl, quiet⟩

structure Read (c : Conn α E) (space need : Nat) (out : List α × Option E × Conn α E) : Prop where
  stream : out.1 ++ out.2.2.stream = c.stream
  short : out.1.length ≤ space
  enough : out.2.1 = none ↔ need ≤ out.1.length
  steady : Steady c → Steady out.2.2
  ended : Steady c → out.2.1 ≠ none → out.1 = c.stream

theorem read_at_least_read (eof unexpected : E) (c : Conn α E) (room : need ≤ space) :
    Read c space need (readAtLeast eof unexpected c space need) := by
  have filled := fill_loop_filled c (Nat.lt_succ_self _) room
  unfold readAtLeast
  dsimp only
  split
  · rename_i enough
    exact ⟨filled.stream, filled.short, ⟨fun _ => enough, fun _ => rfl⟩, filled.steady,
      fun _ failed => absurd rfl failed⟩
  · rename_i missing
    have failed : (fillLoop (c.work + 1) c space need).2.1 ≠ none := fun fine => missing (filled.done fine)
    have all : Steady c → (fillLoop (c.work + 1) c space need).1 = c.stream := by
      intro steady
      have rest := filled.ended steady failed
      rw [← filled.stream, rest, List.append_nil]
    split
    · refine ⟨filled.stream, filled.short, ⟨?_, fun enough => absurd enough missing⟩, filled.steady,
        fun steady _ => all steady⟩
      intro fine
      cases fine
    · exact ⟨filled.stream, filled.short, ⟨fun fine => absurd fine failed, fun enough => absurd enough missing⟩,
        filled.steady, fun steady _ => all steady⟩

omit [DecidableEq E] in
theorem read_enough {out : List α × Option E × Conn α E}
    (read : Read c space need out) (steady : Steady c) : out.2.1 = none ↔ need ≤ c.stream.length := by
  constructor
  · intro fine
    have lengths := congrArg List.length read.stream
    have := read.enough.1 fine
    rw [List.length_append] at lengths
    omega
  · intro enough
    by_contra failed
    have all := read.ended steady failed
    exact failed (read.enough.2 (by rw [all]; exact enough))

theorem read_full_exact (eof unexpected : E) (steady : Steady c) {front rest : List α}
    (stream : c.stream = front ++ rest) :
    ∃ c', readFull eof unexpected c front.length = (front, none, c') ∧ c'.stream = rest ∧ Steady c' := by
  have read := read_at_least_read eof unexpected c (Nat.le_refl front.length)
  have fine := (read_enough read steady).2 (by simp [stream])
  have whole := read.stream
  rw [stream] at whole
  have length : (readAtLeast eof unexpected c front.length front.length).1.length = front.length :=
    Nat.le_antisymm read.short (read.enough.1 fine)
  obtain ⟨first, second⟩ := List.append_inj whole length
  refine ⟨(readAtLeast eof unexpected c front.length front.length).2.2, ?_, second, read.steady steady⟩
  unfold readFull
  exact Prod.ext first (Prod.ext fine rfl)

end Reading

end FilledReads
