import RootShell.ByteLines
import RootShell.MarkerRemoval

/-!
The loops of tssh/stdio.go that carry the standard streams, with the conversion of line ends
they do on Windows. Each read is converted on its own: a newline is one byte, but the two
bytes of a Windows line end may come in two reads.
-/
namespace NewlineForwarding
open ByteLines MarkerRemoval PiecewiseFeeds

def bufferSize : Nat := 32 * 1024

def crlf : Bytes := [13, 10]

def lf : Bytes := [10]

def unixNewlines : Bytes → Bytes
  | 13 :: 10 :: s => 10 :: unixNewlines s
  | b :: s => b :: unixNewlines s
  | [] => []

def windowsNewlines (s : Bytes) : Bytes := s.flatMap fun b => if b = 10 then crlf else [b]

section Input

inductive ReadEnd
  | eof
  | failed
  deriving DecidableEq

structure InputRead where
  bytes : Bytes
  err : Option ReadEnd
  now : Int
  inputChan : Bool
  consoleWrites : Bytes
  writeFailed : Option Nat
  fits : bytes.length ≤ bufferSize

structure InputSettings where
  noStdin : Bool
  win : Bool
  tty : Bool
  isTerminal : Bool
  enableDebugLogging : Bool
  escapeChar : UInt8
  escapeTime : Int

structure EnterKey where
  pressedFlag : Bool
  pressedTime : Int

structure Forwarded where
  written : Bytes
  channel : List Bytes
  closed : Bool

def Forwarded.write (data : Bytes) (after : Forwarded) : Forwarded := { after with written := data ++ after.written }

def Forwarded.signal (data : Bytes) (after : Forwarded) : Forwarded := { after with channel := data :: after.channel }

variable (cfg : InputSettings)

/-- The new state of the enter key, and whether this read enters the console. -/
def escapeCheck (enter : EnterKey) (r : InputRead) : EnterKey × Bool :=
  if cfg.escapeTime ≤ 0 then (enter, false)
  else if r.bytes = [13] then (⟨true, r.now⟩, false)
  else if enter.pressedFlag ∧ r.bytes = [cfg.escapeChar] ∧ r.now - enter.pressedTime ≤ cfg.escapeTime then (enter, true)
  else ({ enter with pressedFlag := false }, false)

def convertInput (buf : Bytes) : Bytes := if cfg.win ∧ ¬ cfg.tty then replaceAll crlf lf buf else buf

def endRound (err : Option ReadEnd) (next : Forwarded) : Forwarded :=
  match err with
  | none => next
  | some .failed => ⟨[], [], true⟩
  | some .eof => if cfg.win ∧ cfg.isTerminal ∧ cfg.tty then next.write [0x1A] else ⟨[], [], true⟩

def forwardInputLoop : EnterKey → List InputRead → Forwarded
  | _, [] => ⟨[], [], false⟩
  | enter, r :: reads =>
    if r.bytes = [] then endRound cfg r.err (forwardInputLoop enter reads)
    -- both of these go on without a look at the error
    else if cfg.enableDebugLogging ∧ r.inputChan then (forwardInputLoop enter reads).signal r.bytes
    else if (escapeCheck cfg enter r).2 then
      (forwardInputLoop (escapeCheck cfg enter r).1 reads).write r.consoleWrites
    else
      match r.writeFailed with
      | some n => ⟨(convertInput cfg r.bytes).take n, [], true⟩
      | none =>
        (endRound cfg r.err (forwardInputLoop (escapeCheck cfg enter r).1 reads)).write (convertInput cfg r.bytes)

def forwardInput (reads : List InputRead) : Forwarded :=
  if cfg.noStdin then ⟨[], [], true⟩ else forwardInputLoop cfg ⟨false, 0⟩ reads

end Input

section Output

structure OutputRead where
  bytes : Bytes
  failed : Bool
  writeFailed : Option Nat
  fits : bytes.length ≤ bufferSize

variable (win tty : Bool)

def convertOutput (buf : Bytes) : Bytes := if win ∧ ¬ tty then replaceAll lf crlf buf else buf

def forwardOutput : List OutputRead → Bytes
  | [] => []
  | r :: reads =>
    let rest := if r.failed then [] else forwardOutput reads
    if r.bytes = [] then rest
    else
      match r.writeFailed with
      | some n => (convertOutput win tty r.bytes).take n
      | none => convertOutput win tty r.bytes ++ rest

end Output

section Conversion

theorem crlf_solid : Solid crlf := ⟨by decide, by simp [crlf]⟩

theorem crlf_front {b : UInt8} {s : Bytes} : crlf <+: b :: s ↔ b = 13 ∧ s.head? = some 10 := by
  rw [crlf, List.cons_prefix_cons]
  cases s with
  | nil => simp
  | cons c s =>
    rw [List.cons_prefix_cons]
    simp [eq_comm]

theorem replace_crlf (s : Bytes) : replaceAll crlf lf s = unixNewlines s := by
  fun_induction unixNewlines s with
  | case1 s ih =>
    have marker : 13 :: 10 :: s = crlf ++ s := rfl
    rw [marker, replace_all_marker (by decide), ih]
    rfl
  | case2 b s other ih =>
    have plain : ¬ crlf <+: b :: s := by
      rw [crlf_front]
      rintro ⟨rfl, next⟩
      obtain ⟨rest, rfl⟩ := List.head?_eq_some_iff.1 next
      exact other rest rfl rfl
    rw [replace_all_keep plain, ih]
  | case3 => rfl

theorem replace_lf (s : Bytes) : replaceAll lf crlf s = windowsNewlines s := by
  induction s with
  | nil => rfl
  | cons b s ih =>
    rw [windowsNewlines, List.flatMap_cons]
    by_cases newline : b = 10
    · have marker : b :: s = lf ++ s := by rw [newline]; rfl
      rw [if_pos newline, marker, replace_all_marker (by decide), ih]
      rfl
    · have plain : ¬ lf <+: b :: s := by
        rw [lf, List.cons_prefix_cons]
        exact fun front => newline front.1.symm
      rw [if_neg newline, replace_all_keep plain, ih]
      rfl

theorem unix_windows {s : Bytes} (clean : 13 ∉ s) : unixNewlines (windowsNewlines s) = s := by
  induction s with
  | nil => rfl
  | cons b s ih =>
    rw [List.mem_cons, not_or] at clean
    rw [windowsNewlines, List.flatMap_cons]
    by_cases newline : b = 10
    · rw [if_pos newline, newline]
      exact congrArg (10 :: ·) (ih clean.2)
    · have step : unixNewlines (b :: windowsNewlines s) = b :: unixNewlines (windowsNewlines s) := by
        refine unixNewlines.eq_2 b _ ?_
        intro _ cr
        exact absurd cr.symm clean.1
      rw [if_neg newline]
      exact step.trans (congrArg (b :: ·) (ih clean.2))

theorem straddles_crlf {before piece : Bytes} :
    Straddles crlf before piece ↔ before.getLast? = some 13 ∧ piece.head? = some 10 := by
  constructor
  · rintro ⟨x, y, hx, hy, eq, ⟨u, rfl⟩, ⟨v, rfl⟩⟩
    obtain ⟨a, x, rfl⟩ := List.exists_cons_of_ne_nil hx
    obtain ⟨b, y, rfl⟩ := List.exists_cons_of_ne_nil hy
    obtain ⟨rfl, rest⟩ := List.cons.inj eq
    cases x with
    | nil =>
      obtain ⟨rfl, _⟩ := List.cons.inj rest
      simp
    | cons c x =>
      have lengths := congrArg List.length rest
      simp at lengths
  · rintro ⟨last, first⟩
    obtain ⟨u, rfl⟩ := List.getLast?_eq_some_iff.1 last
    obtain ⟨v, rfl⟩ := List.head?_eq_some_iff.1 first
    exact ⟨[13], [10], by simp, by simp, rfl, List.suffix_append _ _, ⟨v, rfl⟩⟩

end Conversion

section Streams

def inputStream (reads : List InputRead) : Bytes := reads.flatMap InputRead.bytes

def outputStream (reads : List OutputRead) : Bytes := reads.flatMap OutputRead.bytes

/-- Windows without a terminal, no console and no debug channel; the writer takes everything
    and only the last read may report an error. -/
structure PlainInput (cfg : InputSettings) (reads : List InputRead) : Prop where
  stdin : cfg.noStdin = false
  win : cfg.win = true
  tty : cfg.tty = false
  console : cfg.escapeTime ≤ 0
  channel : cfg.enableDebugLogging = true → ∀ r ∈ reads, r.inputChan = false
  written : ∀ r ∈ reads, r.writeFailed = none
  live : ∀ r ∈ reads.dropLast, r.err = none

structure PlainOutput (reads : List OutputRead) : Prop where
  written : ∀ r ∈ reads, r.writeFailed = none
  live : ∀ r ∈ reads.dropLast, r.failed = false

def LineEndsWhole (reads : List InputRead) : Prop :=
  ∀ front r back, reads = front ++ r :: back → ¬ ((inputStream front).getLast? = some 13 ∧ r.bytes.head? = some 10)

variable {cfg : InputSettings} {reads : List InputRead}

theorem end_round_plain (plain : PlainInput cfg reads) (err : Option ReadEnd) (next : Forwarded) :
    (endRound cfg err next).written = if err.isSome then [] else next.written := by
  cases err with
  | none => rfl
  | some ending => cases ending <;> simp [endRound, plain.tty]

theorem forward_input_round (plain : PlainInput cfg reads) {r : InputRead} (member : r ∈ reads) (enter : EnterKey)
    (rest : List InputRead) :
    (forwardInputLoop cfg enter (r :: rest)).written =
      unixNewlines r.bytes ++ if r.err.isSome then [] else (forwardInputLoop cfg enter rest).written := by
  have silent : ¬ (cfg.enableDebugLogging = true ∧ r.inputChan = true) := by
    rintro ⟨debug, set⟩
    rw [plain.channel debug r member] at set
    cases set
  have check : escapeCheck cfg enter r = (enter, false) := if_pos plain.console
  have convert : convertInput cfg r.bytes = unixNewlines r.bytes := by
    rw [convertInput, if_pos ⟨plain.win, by simp [plain.tty]⟩, replace_crlf]
  rw [forwardInputLoop]
  by_cases empty : r.bytes = []
  · rw [if_pos empty, end_round_plain plain, empty]
    rfl
  · rw [if_neg empty, if_neg silent, check, if_neg Bool.false_ne_true, plain.written r member, convert]
    exact congrArg (unixNewlines r.bytes ++ ·) (end_round_plain plain r.err _)

theorem forward_input_pieces (plain : PlainInput cfg reads) :
    (forwardInput cfg reads).written = reads.flatMap fun r => unixNewlines r.bytes := by
  rw [forwardInput, if_neg (by simp [plain.stdin])]
  have live : ∀ r ∈ reads.dropLast, r.err.isSome = false := by
    intro r member
    rw [plain.live r member]
    rfl
  exact rounds_yield (fun reads => (forwardInputLoop cfg ⟨false, 0⟩ reads).written) rfl
    (fun r member rest => forward_input_round plain member ⟨false, 0⟩ rest) live

theorem forward_input_iff (plain : PlainInput cfg reads) :
    (forwardInput cfg reads).written = unixNewlines (inputStream reads) ↔ LineEndsWhole reads := by
  have agree := feed_all_eq_iff (replacement_follows crlf_solid lf (by decide)) rfl (reads.map InputRead.bytes)
  rw [Prod.ext_iff, feed_all_stateless, List.flatMap_map, ← List.flatMap_def] at agree
  simp only [true_and, replace_crlf, straddles_crlf] at agree
  rw [forward_input_pieces plain, inputStream, agree]
  constructor
  · rintro smooth front r back rfl
    rw [inputStream, List.flatMap_def]
    exact smooth (front.map InputRead.bytes) r.bytes (back.map InputRead.bytes) (by simp)
  · intro whole front piece back split
    obtain ⟨before, after, rfl, rfl, later⟩ := List.map_eq_append_iff.1 split
    obtain ⟨r, more, rfl, rfl, rfl⟩ := List.map_eq_cons_iff.1 later
    rw [← List.flatMap_def]
    exact whole before r more rfl

theorem forward_output_exact {outs : List OutputRead} (plain : PlainOutput outs) :
    forwardOutput true false outs = windowsNewlines (outputStream outs) := by
  have rounds : forwardOutput true false outs = outs.flatMap fun r => windowsNewlines r.bytes := by
    refine rounds_yield (forwardOutput true false) rfl ?_ plain.live
    intro r member rest
    have convert : convertOutput true false r.bytes = windowsNewlines r.bytes := replace_lf r.bytes
    rw [forwardOutput, plain.written r member, convert]
    by_cases empty : r.bytes = []
    · rw [if_pos empty, empty]
      rfl
    · rw [if_neg empty]
  rw [rounds, outputStream, windowsNewlines, List.flatMap_assoc]
  rfl

end Streams

/-- The input is converted as a whole, and a text that went out comes back, exactly when no
    line end is split between two reads; the output is always converted as a whole. -/
theorem newline_conversion_exact (cfg : InputSettings) (reads : List InputRead) (outs : List OutputRead) :
    (PlainInput cfg reads →
      ((forwardInput cfg reads).written = unixNewlines (inputStream reads) ↔ LineEndsWhole reads)) ∧
    (PlainOutput outs → forwardOutput true false outs = windowsNewlines (outputStream outs)) ∧
    (PlainOutput outs → PlainInput cfg reads → 13 ∉ outputStream outs →
      inputStream reads = forwardOutput true false outs →
      ((forwardInput cfg reads).written = outputStream outs ↔ LineEndsWhole reads)) := by
  refine ⟨fun plain => forward_input_iff plain, fun plain => forward_output_exact plain, ?_⟩
  intro sent plain clean back
  rw [← forward_input_iff plain, back, forward_output_exact sent, unix_windows clean]

def pipeSettings : InputSettings := ⟨false, true, false, false, false, 0, 0⟩

def pipeRead (s : Bytes) (fits : s.length ≤ bufferSize) : InputRead := ⟨s, none, 0, false, [], none, fits⟩

def sentText : List OutputRead := [⟨text "a\nb", true, none, by decide⟩]

def wholeReads : List InputRead := [pipeRead (text "a\r\n") (by decide), pipeRead (text "b") (by decide)]

theorem text_comes_back :
    (forwardInput pipeSettings wholeReads).written = text "a\nb" := by
  have sent : PlainOutput sentText := ⟨by simp [sentText], by simp [sentText]⟩
  have plain : PlainInput pipeSettings wholeReads :=
    ⟨rfl, rfl, rfl, by decide, nofun, by simp [wholeReads, pipeRead], by simp [wholeReads, pipeRead]⟩
  refine ((newline_conversion_exact pipeSettings wholeReads sentText).2.2 sent plain (by decide +kernel)
    (by decide +kernel)).2 ?_
  rintro front r back split ⟨last, first⟩
  rcases front with _ | ⟨_, _ | ⟨_, front⟩⟩
  · simp [inputStream] at last
  · obtain ⟨rfl, rest⟩ := List.cons.inj split
    exact absurd last (by decide +kernel)
  · simp [wholeReads] at split

theorem split_line_end_kept :
    (forwardInput pipeSettings [pipeRead (text "a\r") (by decide), pipeRead (text "\nb") (by decide)]).written =
      text "a\r\nb" ∧
    (forwardInput pipeSettings [pipeRead (text "a\r\nb") (by decide)]).written = text "a\nb" ∧
    forwardOutput true false [⟨text "a\nb", true, none, by decide⟩] = text "a\r\nb" := by
  refine ⟨by decide +kernel, by decide +kernel, by decide +kernel⟩

end NewlineForwarding
