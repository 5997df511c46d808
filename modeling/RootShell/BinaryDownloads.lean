import RootShell.FilledReads

/-!
Downloading a package of binaries: the read loop of downloadBinary in tssh/tools_install.go
with the progress of tssh/tools.go. The loop reads into a buffer of the announced length and
returns on any error a read reports, whatever bytes came with it.
-/
namespace BinaryDownloads
open ByteLines FilledReads SegmentedStreams

variable {contentLength fuel space currentStep : Nat}

section Code

def kMaxBufferSize : Nat := 32 * 1024

structure ToolsProgress where
  totalSize : Int
  currentStep : Int
  timer : Bool
  messages : List Bytes

def newToolsProgress (totalSize : Int) : ToolsProgress := ⟨totalSize, 0, true, []⟩

def ToolsProgress.writeMessage (p : ToolsProgress) (msg : Bytes) : ToolsProgress :=
  { p with messages := p.messages ++ [msg] }

def ToolsProgress.stopProgress (p : ToolsProgress) : ToolsProgress :=
  if p.timer then { p with timer := false }.writeMessage (text "\r\n") else p

def ToolsProgress.addStep (p : ToolsProgress) (delta : Nat) : ToolsProgress :=
  let p := { p with currentStep := p.currentStep + delta }
  if p.totalSize ≤ p.currentStep then (p.writeMessage (text "100%")).stopProgress else p

inductive Download
  | reading
  | panicked
  | failed (err : ReadError)
  | complete (buffer : Bytes)
  deriving DecidableEq

def readSpace (currentStep contentLength : Nat) : Nat := min (currentStep + kMaxBufferSize) contentLength - currentStep

/-- `buffer` is what has been filled of the buffer. -/
def downloadLoop (contentLength : Nat) :
    Nat → Conn UInt8 ReadError → Bytes → ToolsProgress → Download × ToolsProgress
  | 0, _, _, p => (.reading, p)
  | fuel + 1, c, buffer, p =>
    if buffer.length < contentLength then
      let out := c.read (readSpace buffer.length contentLength)
      match out.2.1 with
      | some err => (.failed err, p)
      | none => downloadLoop contentLength fuel out.2.2 (buffer ++ out.1) (p.addStep out.1.length)
    else (.complete buffer, p)

/-- A buffer of negative length cannot be made. The progress is stopped in any case. -/
def readBody (contentLength : Int) (body : Conn UInt8 ReadError) : Download × ToolsProgress :=
  let progress := newToolsProgress contentLength
  if contentLength < 0 then (.panicked, progress.stopProgress)
  else
    let out := downloadLoop contentLength.toNat (body.work + 1) body [] progress
    (out.1, out.2.stopProgress)

end Code

section Bodies
variable {c : Conn UInt8 ReadError}

def Separate (c : Conn UInt8 ReadError) : Prop := ∀ piece ∈ c.pieces, piece.2 ≠ none → piece.1 = []

theorem read_separate (separate : Separate c) (space : Nat) :
    Separate (c.read space).2.2 ∧ ((c.read space).2.1 ≠ none → (c.read space).1 = []) := by
  obtain ⟨pieces, ending⟩ := c
  cases pieces with
  | nil => exact ⟨separate, fun _ => rfl⟩
  | cons head rest =>
    obtain ⟨piece, err⟩ := head
    obtain ⟨here, later⟩ := List.forall_mem_cons.1 separate
    simp only [Conn.read]
    split
    · exact ⟨later, here⟩
    · rename_i long
      refine ⟨List.forall_mem_cons.2 ⟨fun failed => ?_, later⟩, fun failed => absurd rfl failed⟩
      rw [show piece = [] from here failed] at long
      exact absurd (Nat.zero_le _) long

theorem read_joined (joined : ¬ Separate c) (fine : (c.read space).2.1 = none) : ¬ Separate (c.read space).2.2 := by
  obtain ⟨pieces, ending⟩ := c
  cases pieces with
  | nil => cases fine
  | cons head rest =>
    obtain ⟨piece, err⟩ := head
    simp only [Conn.read] at fine ⊢
    intro separate
    apply joined
    split at separate
    · rename_i whole
      rw [if_pos whole] at fine
      exact List.forall_mem_cons.2 ⟨fun failed => absurd fine failed, separate⟩
    · rename_i long
      obtain ⟨here, later⟩ := List.forall_mem_cons.1 separate
      refine List.forall_mem_cons.2 ⟨fun failed => ?_, later⟩
      have rest : piece.drop space = [] := here failed
      have lengths := congrArg List.length rest
      rw [List.length_drop, List.length_nil] at lengths
      omega

theorem joined_stream (joined : ¬ Separate c) : c.stream ≠ [] := by
  intro empty
  apply joined
  intro piece member _
  exact List.flatMap_eq_nil_iff.1 empty piece member

end Bodies

section Loop
variable {buffer : Bytes} {c : Conn UInt8 ReadError}

theorem read_space_pos (less : currentStep < contentLength) : 0 < readSpace currentStep contentLength := by
  unfold readSpace kMaxBufferSize
  omega

theorem read_work (room : 0 < space) (fine : (c.read space).2.1 = none) : (c.read space).2.2.work < c.work := by
  rcases (conn_read_delivered c space).progress room with less | ⟨_, failed⟩
  · exact less
  · rw [fine] at failed
    cases failed

theorem read_length (c : Conn UInt8 ReadError) (space : Nat) :
    (c.read space).1.length + (c.read space).2.2.stream.length = c.stream.length := by
  have lengths := congrArg List.length (conn_read_delivered c space).stream
  rwa [List.length_append] at lengths

theorem loop_failed {err : ReadError} (less : buffer.length < contentLength)
    (failed : (c.read (readSpace buffer.length contentLength)).2.1 = some err) (fuel : Nat) (p : ToolsProgress) :
    (downloadLoop contentLength (fuel + 1) c buffer p).1 = .failed err := by
  simp only [downloadLoop, if_pos less, failed]

theorem loop_goes_on (less : buffer.length < contentLength)
    (fine : (c.read (readSpace buffer.length contentLength)).2.1 = none) (fuel : Nat) (p : ToolsProgress) :
    downloadLoop contentLength (fuel + 1) c buffer p =
      downloadLoop contentLength fuel (c.read (readSpace buffer.length contentLength)).2.2
        (buffer ++ (c.read (readSpace buffer.length contentLength)).1)
        (p.addStep (c.read (readSpace buffer.length contentLength)).1.length) := by
  simp only [downloadLoop, if_pos less, fine]

theorem download_fails {P : Conn UInt8 ReadError → Nat → Prop} (below : ∀ c k, P c k → k < contentLength)
    (keeps : ∀ c k space, P c k → (c.read space).2.1 = none → P (c.read space).2.2 (k + (c.read space).1.length))
    (holds : P c buffer.length) (budget : c.work < fuel)
    (p : ToolsProgress) : ∃ err, (downloadLoop contentLength fuel c buffer p).1 = .failed err := by
  induction fuel generalizing c buffer p with
  | zero => omega
  | succ fuel ih =>
    have less := below c _ holds
    cases fine : (c.read (readSpace buffer.length contentLength)).2.1 with
    | some err => exact ⟨err, loop_failed less fine fuel p⟩
    | none =>
      have work := read_work (read_space_pos less) fine
      have still := keeps c _ _ holds fine
      rw [← List.length_append] at still
      rw [loop_goes_on less fine]
      exact ih still (by omega) _

theorem download_short (short : buffer.length + c.stream.length < contentLength) (budget : c.work < fuel)
    (p : ToolsProgress) : ∃ err, (downloadLoop contentLength fuel c buffer p).1 = .failed err := by
  refine download_fails (P := fun c k => k + c.stream.length < contentLength) (fun c k less => by omega) ?_ short
    budget p
  intro c k space less _
  have lengths := read_length c space
  omega

theorem download_joined
    (exact : buffer.length + c.stream.length = contentLength) (joined : ¬ Separate c) (budget : c.work < fuel)
    (p : ToolsProgress) : ∃ err, (downloadLoop contentLength fuel c buffer p).1 = .failed err := by
  refine download_fails (P := fun c k => k + c.stream.length = contentLength ∧ ¬ Separate c) ?_ ?_ ⟨exact, joined⟩
    budget p
  · rintro c k ⟨whole, joined⟩
    have some := List.length_pos_of_ne_nil (joined_stream joined)
    omega
  · rintro c k space ⟨whole, joined⟩ fine
    have lengths := read_length c space
    exact ⟨by omega, read_joined joined fine⟩

theorem download_separate (steady : Steady c)
    (exact : buffer.length + c.stream.length = contentLength) (separate : Separate c) (budget : c.work < fuel)
    (p : ToolsProgress) : (downloadLoop contentLength fuel c buffer p).1 = .complete (buffer ++ c.stream) := by
  induction fuel generalizing c buffer p with
  | zero => omega
  | succ fuel ih =>
    by_cases less : buffer.length < contentLength
    · have delivered := conn_read_delivered c (readSpace buffer.length contentLength)
      obtain ⟨calm, ended⟩ := read_steady steady (readSpace buffer.length contentLength)
      obtain ⟨apart, nothing⟩ := read_separate separate (readSpace buffer.length contentLength)
      have lengths := read_length c (readSpace buffer.length contentLength)
      cases fine : (c.read (readSpace buffer.length contentLength)).2.1 with
      | some err =>
        -- an error without bytes comes behind the whole body
        rw [nothing (by simp [fine]), ended (by simp [fine])] at lengths
        simp only [List.length_nil] at lengths
        omega
      | none =>
        have work := read_work (read_space_pos less) fine
        rw [loop_goes_on less fine, ih calm (by rw [List.length_append]; omega) apart (by omega), List.append_assoc,
          delivered.stream]
    · have empty : c.stream = [] := List.length_eq_zero_iff.1 (by omega)
      rw [downloadLoop, if_neg less, empty, List.append_nil]

end Loop

/-- A complete body is accepted exactly when none of its bytes come together with an error; a
    body that ends early always gives an error, and an unknown length always a panic. -/
theorem download_exact (body : Conn UInt8 ReadError) :
    (Steady body →
      ((readBody body.stream.length body).1 = .complete body.stream ↔
        ∀ piece ∈ body.pieces, piece.2 ≠ none → piece.1 = [])) ∧
    (∀ contentLength : Nat, body.stream.length < contentLength →
      ∃ err, (readBody contentLength body).1 = .failed err) ∧
    (readBody (-1) body).1 = .panicked := by
  have loop : ∀ n : Nat, (readBody n body).1 = (downloadLoop n (body.work + 1) body [] (newToolsProgress n)).1 := by
    intro n
    rw [readBody, if_neg (by omega)]
    rfl
  refine ⟨fun steady => ?_, fun n short => ?_, rfl⟩
  · rw [loop]
    constructor
    · intro complete
      by_contra joined
      have whole : ([] : Bytes).length + body.stream.length = body.stream.length := Nat.zero_add _
      obtain ⟨err, failed⟩ := download_joined whole joined (Nat.lt_succ_self _) (newToolsProgress body.stream.length)
      rw [complete] at failed
      cases failed
    · intro separate
      exact download_separate steady (Nat.zero_add _) separate (Nat.lt_succ_self _) _
  · rw [loop]
    exact download_short (by simpa using short) (Nat.lt_succ_self _) _

def packageBytes : Bytes := [0x1F, 0x8B, 0x08]

theorem package_downloaded :
    (readBody 3 ⟨[(packageBytes.take 1, none), ([], none), (packageBytes.drop 1, none)], .eof⟩).1 =
      .complete packageBytes := by
  have accepted := download_exact ⟨[(packageBytes.take 1, none), ([], none), (packageBytes.drop 1, none)], .eof⟩
  refine (accepted.1 ?_).2 ?_
  · simp [Steady]
  · simp

theorem package_with_end_refused :
    (readBody 3 ⟨[(packageBytes, some .eof)], .eof⟩).1 = .failed .eof ∧
    (readBody (-1) ⟨[(packageBytes, some .eof)], .eof⟩).1 = .panicked := by
  decide +kernel

end BinaryDownloads
