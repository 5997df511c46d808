import RootShell.ByteLines
import RootShell.SegmentedStreams

/-!
The peekConn of a captured flow (vpntunnel/flows.go): bytes read ahead wait in a buffer,
bytes handed out while recording are kept, and replay puts both in front of the stream.
-/
namespace PeekReplay
open ByteLines SegmentedStreams
universe v
variable {E : Type v} {space size fuel : Nat}

def maxPeekRecord : Nat := 64 * 2 ^ 10

structure PeekConn (E : Type v) where
  conn : Conn UInt8 E
  buf : Bytes
  recording : Bool
  recorded : Bytes

inductive PeekError (E : Type v) where
  | conn (err : E)
  | overflow

section Operations

def newPeekConn (c : Conn UInt8 E) : PeekConn E := ⟨c, [], false, []⟩

/-- The loop of peek, which reads 4096 bytes at a time. Every read but the last brings it
    closer to the end of the stream, so the fuel of `peek` is never used up. -/
def peekLoop (n : Nat) : Nat → PeekConn E → Bytes × Option E × PeekConn E
  | 0, p => (p.buf, some p.conn.ending, p)
  | fuel + 1, p =>
    if n ≤ p.buf.length then (p.buf.take n, none, p)
    else
      let out := p.conn.read 4096
      let next : PeekConn E := { p with buf := p.buf ++ out.1, conn := out.2.2 }
      match out.2.1 with
      | some err => (next.buf, some err, next)
      | none => peekLoop n fuel next

def PeekConn.peek (p : PeekConn E) (n : Nat) : Bytes × Option E × PeekConn E := peekLoop n (p.conn.work + 1) p

def PeekConn.next (p : PeekConn E) (space : Nat) : Bytes × Option E × PeekConn E :=
  if p.buf ≠ [] then (p.buf.take space, none, { p with buf := p.buf.drop space })
  else ((p.conn.read space).1, (p.conn.read space).2.1, { p with conn := (p.conn.read space).2.2 })

def PeekConn.read (p : PeekConn E) (space : Nat) : Bytes × Option (PeekError E) × PeekConn E :=
  let out := p.next space
  if p.recording ∧ out.1 ≠ [] then
    if maxPeekRecord < p.recorded.length + out.1.length then (out.1, some .overflow, out.2.2)
    else (out.1, out.2.1.map .conn, { out.2.2 with recorded := p.recorded ++ out.1 })
  else (out.1, out.2.1.map .conn, out.2.2)

def PeekConn.startRecording (p : PeekConn E) : PeekConn E := { p with recording := true, recorded := [] }

def PeekConn.replay (p : PeekConn E) : PeekConn E := ⟨p.conn, p.recorded ++ p.buf, false, []⟩

inductive Op where
  | peek (n : Nat)
  | read (space : Nat)

def PeekConn.call (p : PeekConn E) : Op → Bytes × Option (PeekError E) × PeekConn E
  | .peek n => ([], (p.peek n).2.1.map .conn, (p.peek n).2.2)
  | .read space => p.read space

def PeekConn.calls (p : PeekConn E) : List Op → Bytes × Bool × PeekConn E
  | [] => ([], true, p)
  | op :: ops =>
    let out := p.call op
    let rest := out.2.2.calls ops
    (out.1 ++ rest.1, out.2.1.isNone && rest.2.1, rest.2.2)

def PeekConn.readAll (p : PeekConn E) (sizes : List Nat) : Bytes := (p.calls (sizes.map .read)).1

/-- A copy that ends at the first error, as io.Copy does. -/
def PeekConn.copy (size : Nat) : Nat → PeekConn E → Bytes × Option (PeekError E)
  | 0, _ => ([], none)
  | fuel + 1, p =>
    match (p.read size).2.1 with
    | some err => ((p.read size).1, some err)
    | none => ((p.read size).1 ++ (copy size fuel (p.read size).2.2).1, (copy size fuel (p.read size).2.2).2)

end Operations

section Streams
variable {p : PeekConn E}

def PeekConn.stream (p : PeekConn E) : Bytes := p.buf ++ p.conn.stream

def PeekConn.upToError (p : PeekConn E) : Bytes × E := (p.buf ++ p.conn.upToError.1, p.conn.upToError.2)

def PeekConn.work (p : PeekConn E) : Nat := p.buf.length + p.conn.work

structure Kept (p : PeekConn E) (handed : Bytes) (clean : Bool) (q : PeekConn E) : Prop where
  stream : handed ++ q.stream = p.stream
  recording : q.recording = p.recording
  recorded : p.recording = true → p.recorded.length + handed.length ≤ maxPeekRecord → q.recorded = p.recorded ++ handed
  clean : clean = true → p.upToError = (handed ++ q.upToError.1, q.upToError.2)

theorem kept_nil (p : PeekConn E) : Kept p [] true p :=
  ⟨rfl, rfl, fun _ _ => (List.append_nil _).symm, fun _ => rfl⟩

theorem Kept.trans {q r : PeekConn E} {first second : Bytes} {b c : Bool} (one : Kept p first b q)
    (two : Kept q second c r) : Kept p (first ++ second) (b && c) r := by
  refine ⟨?_, two.recording.trans one.recording, fun on room => ?_, fun clean => ?_⟩
  · rw [List.append_assoc, two.stream, one.stream]
  · rw [List.length_append] at room
    have first' := one.recorded on (by omega)
    rw [two.recorded (one.recording.trans on) (by rw [first', List.length_append]; omega), first', List.append_assoc]
  · rw [Bool.and_eq_true] at clean
    rw [one.clean clean.1, two.clean clean.2, List.append_assoc]

theorem peek_loop_kept (n fuel : Nat) (p : PeekConn E) :
    Kept p [] (peekLoop n fuel p).2.1.isNone (peekLoop n fuel p).2.2 := by
  induction fuel generalizing p with
  | zero => exact ⟨rfl, rfl, fun _ _ => (List.append_nil _).symm, nofun⟩
  | succ fuel ih =>
    unfold peekLoop
    split
    · exact kept_nil p
    · have read := conn_read_delivered p.conn 4096
      have filled : Kept p [] (p.conn.read 4096).2.1.isNone
          { p with buf := p.buf ++ (p.conn.read 4096).1, conn := (p.conn.read 4096).2.2 } := by
        refine ⟨?_, rfl, fun _ _ => (List.append_nil _).symm, fun clean => ?_⟩
        · simp only [PeekConn.stream, List.nil_append, List.append_assoc, read.stream]
        · simp only [PeekConn.upToError, read.clean (Option.isNone_iff_eq_none.1 clean), List.nil_append,
            List.append_assoc]
      dsimp only
      split
      · rename_i err failed
        rw [failed] at filled
        exact filled
      · rename_i clean
        rw [clean] at filled
        exact filled.trans (ih _)

theorem next_kept (p : PeekConn E) (space : Nat) :
    (p.next space).1 ++ (p.next space).2.2.stream = p.stream ∧ (p.next space).2.2.recording = p.recording ∧
      (p.next space).2.2.recorded = p.recorded ∧
      ((p.next space).2.1 = none →
        p.upToError = ((p.next space).1 ++ (p.next space).2.2.upToError.1, (p.next space).2.2.upToError.2)) := by
  unfold PeekConn.next
  split
  · refine ⟨?_, rfl, rfl, fun _ => ?_⟩
    · simp only [PeekConn.stream, ← List.append_assoc, List.take_append_drop]
    · simp only [PeekConn.upToError, ← List.append_assoc, List.take_append_drop]
  · rename_i empty
    have read := conn_read_delivered p.conn space
    have drained : p.buf = [] := not_not.1 empty
    refine ⟨?_, rfl, rfl, fun clean => ?_⟩
    · simp only [PeekConn.stream, drained, List.nil_append, read.stream]
    · simp only [PeekConn.upToError, drained, List.nil_append, read.clean clean]

theorem read_kept (p : PeekConn E) (space : Nat) :
    Kept p (p.read space).1 (p.read space).2.1.isNone (p.read space).2.2 := by
  obtain ⟨stream, recording, recorded, clean⟩ := next_kept p space
  unfold PeekConn.read
  dsimp only
  split
  · split
    · rename_i full
      exact ⟨stream, recording, fun _ room => absurd room (Nat.not_le.2 full), nofun⟩
    · refine ⟨stream, recording, fun _ _ => rfl, fun unfailed => ?_⟩
      exact clean (by simpa using unfailed)
  · rename_i idle
    refine ⟨stream, recording, fun on _ => ?_, fun unfailed => clean (by simpa using unfailed)⟩
    have nothing : (p.next space).1 = [] := by
      by_contra some
      exact idle ⟨on, some⟩
    rw [recorded, nothing, List.append_nil]

theorem calls_kept (ops : List Op) (p : PeekConn E) : Kept p (p.calls ops).1 (p.calls ops).2.1 (p.calls ops).2.2 := by
  induction ops generalizing p with
  | nil => exact kept_nil p
  | cons op ops ih =>
    have first : Kept p (p.call op).1 (p.call op).2.1.isNone (p.call op).2.2 := by
      cases op with
      | peek n => simpa [PeekConn.call, PeekConn.peek] using peek_loop_kept n (p.conn.work + 1) p
      | read space => exact read_kept p space
    exact first.trans (ih _)

end Streams

section Endings
variable {p : PeekConn E}

theorem next_progress (p : PeekConn E) (room : 0 < space) :
    (p.next space).2.2.work < p.work ∨ p.stream = [] ∧ (p.next space).2.1 = some p.conn.ending := by
  unfold PeekConn.next
  split
  · rename_i ahead
    have some := List.length_pos_iff.2 ahead
    left
    simp only [PeekConn.work, List.length_drop]
    omega
  · rename_i empty
    have drained : p.buf = [] := not_not.1 empty
    refine ((conn_read_delivered p.conn space).progress room).imp (fun less => ?_) fun ended => ⟨?_, ended.2⟩
    · simp only [PeekConn.work]
      omega
    · simp [PeekConn.stream, Conn.stream, drained, ended.1]

theorem read_progress (p : PeekConn E) (room : 0 < space) : (p.read space).2.2.work < p.work ∨ p.stream = [] := by
  refine (next_progress p room).imp (fun less => ?_) And.left
  unfold PeekConn.read
  dsimp only
  split
  · split <;> exact less
  · exact less

theorem calls_end {sizes : List Nat} (positive : ∀ size ∈ sizes, 0 < size) (many : p.work ≤ sizes.length) :
    (p.calls (sizes.map .read)).2.2.stream = [] := by
  induction sizes generalizing p with
  | nil =>
    have spent : p.work = 0 := Nat.le_zero.1 many
    simp only [PeekConn.work, Conn.work, Nat.add_eq_zero_iff, List.length_eq_zero_iff] at spent
    simp [PeekConn.calls, PeekConn.stream, spent]
  | cons size sizes ih =>
    rcases read_progress p (positive size List.mem_cons_self) with less | ended
    · refine ih (fun other member => positive other (List.mem_cons_of_mem _ member)) ?_
      rw [List.length_cons] at many
      change (p.read size).2.2.work ≤ sizes.length
      omega
    · have kept := (calls_kept ((size :: sizes).map Op.read) p).stream
      rw [ended, List.append_eq_nil_iff] at kept
      exact kept.2

theorem read_all_stream {sizes : List Nat} (positive : ∀ size ∈ sizes, 0 < size) (many : p.work ≤ sizes.length) :
    p.readAll sizes = p.stream := by
  have kept := (calls_kept (sizes.map Op.read) p).stream
  rwa [calls_end positive many, List.append_nil] at kept

theorem replay_stream {q : PeekConn E} {handed : Bytes} {clean : Bool} (kept : Kept p.startRecording handed clean q)
    (few : handed.length ≤ maxPeekRecord) :
    q.replay.stream = p.stream ∧ (clean = true → q.replay.upToError = p.upToError) := by
  have recorded : q.recorded = handed := kept.recorded rfl (by simpa [PeekConn.startRecording] using few)
  refine ⟨?_, fun unfailed => ?_⟩
  · simp only [PeekConn.stream, PeekConn.replay, recorded, List.append_assoc]
    exact kept.stream
  · simp only [PeekConn.upToError, PeekConn.replay, recorded, List.append_assoc]
    exact (kept.clean unfailed).symm

theorem read_plain (plain : p.recording = false) (space : Nat) :
    p.read space = ((p.next space).1, (p.next space).2.1.map .conn, (p.next space).2.2) := by
  simp [PeekConn.read, plain]

theorem next_failed {err : E} (failed : (p.next space).2.1 = some err) : p.upToError = ((p.next space).1, err) := by
  unfold PeekConn.next at failed ⊢
  split at failed
  · cases failed
  · rename_i empty
    have drained : p.buf = [] := not_not.1 empty
    rw [if_neg empty, PeekConn.upToError, drained, (conn_read_delivered p.conn space).failed err failed]
    rfl

theorem copy_up_to_error (room : 0 < size) (enough : p.work < fuel) (plain : p.recording = false) :
    p.copy size fuel = (p.upToError.1, some (.conn p.upToError.2)) := by
  induction fuel generalizing p with
  | zero => cases enough
  | succ fuel ih =>
    obtain ⟨_, recording, _, clean⟩ := next_kept p size
    rw [PeekConn.copy, read_plain plain]
    cases met : (p.next size).2.1 with
    | some err =>
      rw [next_failed met]
      rfl
    | none =>
      have less : (p.next size).2.2.work < p.work := by
        refine (next_progress p room).resolve_right fun ended => ?_
        cases met.symm.trans ended.2
      simp only [Option.map_none, clean met,
        ih (Nat.lt_of_lt_of_le less (Nat.le_of_lt_succ enough)) (recording.trans plain)]

end Endings

section Replaying

def PeekConn.record (p : PeekConn E) (ops : List Op) : Bytes × Bool × PeekConn E := p.startRecording.calls ops

def PeekConn.plain (p : PeekConn E) : PeekConn E := { p with recording := false }

/-- Whatever was peeked at and read since startRecording, reading the replay to the end gives
    the whole stream as it stood then, which is what the connection would have given. Where no
    error has been met since, a copy of either also ends with the first error of that stream. -/
theorem replay_restores_stream (p : PeekConn E) (ops : List Op) (few : (p.record ops).1.length ≤ maxPeekRecord) :
    ((∀ sizes : List Nat, (∀ size ∈ sizes, 0 < size) → (p.record ops).2.2.replay.work ≤ sizes.length →
        (p.record ops).2.2.replay.readAll sizes = p.stream) ∧
      ∀ sizes : List Nat, (∀ size ∈ sizes, 0 < size) → p.work ≤ sizes.length → p.plain.readAll sizes = p.stream) ∧
    (((p.record ops).2.1 = true → ∀ size fuel, 0 < size → (p.record ops).2.2.replay.work < fuel →
        (p.record ops).2.2.replay.copy size fuel = (p.upToError.1, some (.conn p.upToError.2))) ∧
      ∀ size fuel, 0 < size → p.work < fuel →
        p.plain.copy size fuel = (p.upToError.1, some (.conn p.upToError.2))) := by
  obtain ⟨stream, upTo⟩ := replay_stream (calls_kept ops p.startRecording) few
  refine ⟨⟨fun sizes positive many => ?_, fun sizes positive many => ?_⟩,
    fun clean size fuel room enough => ?_, fun size fuel room enough => ?_⟩
  · exact (read_all_stream positive many).trans stream
  · exact read_all_stream (p := p.plain) positive many
  · rw [copy_up_to_error room enough rfl]
    exact congrArg (fun out : Bytes × E => (out.1, some (PeekError.conn out.2))) (upTo clean)
  · exact copy_up_to_error (p := p.plain) room enough rfl

def segmented : PeekConn Nat := newPeekConn ⟨[(text "he", none), (text "llo", some 1), (text "!", none)], 0⟩

theorem segmented_replayed :
    (segmented.record [.read 1, .peek 3, .read 9, .read 9]).2.2.replay.readAll (List.replicate 9 2) = text "hello!" :=
  (replay_restores_stream segmented [.read 1, .peek 3, .read 9, .read 9] (by decide)).1.1 _ (by decide) (by decide)

end Replaying

end PeekReplay
