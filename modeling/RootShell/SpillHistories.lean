import RootShell.BufferedForward
import RootShell.ChunkedCopies

/-!
The spill buffer after every single write of a body (spillBuffer, spillRaw and spillData in
vpntunnel/http1.go), however the body is framed and its reads are cut.
-/
namespace SpillHistories
open ByteLines BufferedReader HeadReading FallibleState BodyFraming BufferedForward ChunkedCopies

section Keeping
variable {σ : Type} {w : Writers σ} {P : σ → Prop}

structure Steady (P : σ → Prop) (w : Writers σ) : Prop where
  dst : ∀ s p, P s → P (w.dst s p).2
  sink : ∀ s p, P s → P (w.sink s p).2

abbrev KeepsState (P : σ → Prop) {A : Type} (copy : Copy σ A) : Prop := Keeps (fun c : BufReader × σ => P c.2) copy

theorem written_keeps {write : σ → Bytes → Option HttpError × σ} (steady : ∀ s p, P s → P (write s p).2)
    (p : Bytes) : KeepsState P (written write p) := by
  rintro ⟨r, s⟩ here
  have after := steady s p here
  simp only [Prog.from, written]
  rcases writing : write s p with ⟨_ | e, t⟩
  · rwa [writing] at after
  · rwa [writing] at after

theorem read_line_keeps : KeepsState P (readLine : Copy σ Bytes) := by
  rintro ⟨r, s⟩ here
  simp only [Prog.from, readLine]
  rcases r.readSlice with ⟨line, _ | _ | e, next⟩ <;> exact here

theorem pulled_keeps (space : Nat) : KeepsState P (pulled space : Copy σ _) := fun _ here => here

theorem copy_piece_keeps (steady : Steady P w) (chunk : Bytes) : KeepsState P (copyPiece w chunk) := by
  unfold copyPiece
  split
  · exact keeps_pure ()
  · exact keeps_bind (written_keeps steady.sink chunk) fun _ => written_keeps steady.dst chunk

theorem after_read_keeps {left : Option Nat} {err : Option ReadError} {again : Copy σ Unit}
    (keeps : KeepsState P again) : KeepsState P (afterRead left err again) := by
  unfold afterRead
  split
  · split
    · exact keeps_pure ()
    · exact keeps_throw _
  · split
    · exact keeps_pure ()
    · exact keeps_throw _
  · exact keeps

theorem copy_loop_keeps (steady : Steady P w) (fuel : Nat) (left : Option Nat) :
    KeepsState P (copyLoop w fuel left) := by
  induction fuel generalizing left with
  | zero => exact keeps_throw _
  | succ fuel ih =>
    unfold copyLoop
    split
    · exact keeps_pure ()
    · refine keeps_bind (pulled_keeps _) fun read => ?_
      exact keeps_bind (copy_piece_keeps steady read.1) fun _ => after_read_keeps (ih _)

theorem copy_trailer_keeps (steady : Steady P w) (fuel : Nat) : KeepsState P (copyTrailer w fuel) := by
  induction fuel with
  | zero => exact keeps_throw _
  | succ fuel ih =>
    unfold copyTrailer
    refine keeps_bind read_line_keeps fun line => ?_
    refine keeps_bind (written_keeps steady.dst line) fun _ => ?_
    split
    · exact keeps_pure ()
    · exact ih

theorem chunks_loop_keeps (steady : Steady P w) (fuel : Nat) : KeepsState P (chunksLoop w fuel) := by
  induction fuel with
  | zero => exact keeps_throw _
  | succ fuel ih =>
    unfold chunksLoop
    refine keeps_bind read_line_keeps fun line => ?_
    split
    · exact keeps_throw _
    · refine keeps_bind (written_keeps steady.dst line) fun _ => ?_
      split
      · exact copy_trailer_keeps steady fuel
      · refine keeps_bind (fun c => copy_loop_keeps steady _ _ c) fun _ => ?_
        refine keeps_bind read_line_keeps fun crlf => ?_
        exact keeps_bind (written_keeps steady.dst crlf) fun _ => ih

theorem copy_body_keeps (steady : Steady P w) (framing : Framing) : KeepsState P (copyBody w framing) := by
  cases framing with
  | none => exact keeps_pure ()
  | length n => exact fun c => copy_loop_keeps steady _ _ c
  | untilClose => exact fun c => copy_loop_keeps steady _ _ c
  | chunked => exact fun c => chunks_loop_keeps steady _ c

end Keeping

section Histories
variable {σ : Type} {w : Writers σ} {out : Option HttpError × Record σ}

structure History (σ : Type) where
  now : Record σ
  past : List (Record σ)
  failed : Bool

def History.record (h : History σ) (out : Option HttpError × Record σ) : Option HttpError × History σ :=
  if h.failed || out.1.isSome then (out.1, ⟨out.2, h.past, true⟩) else (out.1, ⟨out.2, h.past ++ [out.2], false⟩)

def remembering (w : Writers σ) : Writers (History σ) where
  dst := fun h p => h.record ((recording w).dst h.now p)
  sink := fun h p => h.record ((recording w).sink h.now p)

def unwritten (s : σ) : History σ := ⟨⟨s, [], []⟩, [], false⟩

def Always (P : Record σ → Prop) (h : History σ) : Prop := (h.failed = false → P h.now) ∧ ∀ m ∈ h.past, P m

variable {h : History σ}

theorem always_record {P : Record σ → Prop}
    (always : Always P h) (step : P h.now → out.1 = none → P out.2) : Always P (h.record out).2 := by
  obtain ⟨now, past⟩ := always
  unfold History.record
  split
  · exact ⟨fun clean => Bool.noConfusion clean, past⟩
  · rename_i clean
    rw [Bool.or_eq_true, not_or, Bool.not_eq_true, Option.not_isSome_iff_eq_none] at clean
    have next := step (now clean.1) clean.2
    exact ⟨fun _ => next, List.forall_mem_append.2 ⟨past, List.forall_mem_singleton.2 next⟩⟩

theorem always_steady {P : Record σ → Prop}
    (dst : ∀ m p, P m → ((recording w).dst m p).1 = none → P ((recording w).dst m p).2)
    (sink : ∀ m p, P m → ((recording w).sink m p).1 = none → P ((recording w).sink m p).2) :
    Steady (Always P) (remembering w) :=
  ⟨fun _ _ always => always_record always (dst _ _), fun _ _ always => always_record always (sink _ _)⟩

theorem record_ok {next : History σ} (recorded : h.record out = (none, next)) :
    out = (none, next.now) ∧ next.failed = h.failed := by
  unfold History.record at recorded
  split at recorded
  · rename_i failing
    obtain ⟨passed, rfl⟩ := Prod.ext_iff.1 recorded
    simp only at passed
    simp only [passed, Option.isSome_none, Bool.or_false] at failing
    exact ⟨Prod.ext passed rfl, failing.symm⟩
  · rename_i clean
    obtain ⟨passed, rfl⟩ := Prod.ext_iff.1 recorded
    simp only [Bool.or_eq_true, not_or, Bool.not_eq_true] at clean
    exact ⟨Prod.ext passed rfl, clean.1.symm⟩

theorem fed_remembered {last : History σ} {framed payload : Bytes} (fed : Fed (remembering w) h framed payload last) :
    Fed (recording w) h.now framed payload last.now ∧ last.failed = h.failed := by
  induction fed with
  | nil => exact ⟨.nil _, rfl⟩
  | line sent _ ih =>
    obtain ⟨sent', clean⟩ := record_ok sent
    exact ⟨.line sent' ih.1, ih.2.trans clean⟩
  | data sunk sent _ ih =>
    obtain ⟨sunk', clean⟩ := record_ok sunk
    obtain ⟨sent', clean'⟩ := record_ok sent
    exact ⟨.data sunk' sent' ih.1, ih.2.trans (clean'.trans clean)⟩

end Histories

section Spilling
variable {limit : Nat} {head : Bytes} {start : Wire}

def Filled (limit : Nat) (head : Bytes) (start : Wire) (m : Record Spill) : Prop :=
  SpillState limit head start m.sent m.sunk m.state

theorem filled_steady : Steady (Always (Filled limit head start)) (remembering (spillWriters limit head)) :=
  always_steady (fun _ _ filled passed => spill_raw_step filled (Prod.ext passed rfl))
    fun _ _ filled passed => spill_data_step filled (Prod.ext passed rfl)

structure Exact (limit : Nat) (head : Bytes) (start : Wire) (m : Record Spill) : Prop where
  held : m.state.spilled = false → m.state.wire = start ∧ m.state.sunk = [] ∧ m.state.raw = m.sent ∧
    m.state.data = m.sunk ∧ m.state.raw.length ≤ limit + 64 * 1024
  gone : m.state.spilled = true → m.state.wire.sent = start.sent ++ head ++ m.sent ∧ m.state.sunk = m.sunk

theorem Filled.exact {m : Record Spill} (filled : Filled limit head start m) : Exact limit head start m := by
  cases filled with
  | held _ kept raw data wire sunk _ fits =>
    refine ⟨fun _ => ⟨wire, sunk, raw, data, by rw [raw]; exact fits⟩, fun gone => ?_⟩
    rw [kept] at gone
    cases gone
  | spilled _ gone sent sunk _ =>
    refine ⟨fun kept => ?_, fun _ => ⟨sent, sunk⟩⟩
    rw [gone] at kept
    cases kept

/-- As long as no write has failed the buffer is exact after each of them, and a copy
    that ends well has given it one body of its framing. -/
theorem spill_buffer_exact (limit : Nat) (head : Bytes) (framing : Framing) (wire : Wire)
    {r : BufReader} (valid : r.WellFormed) :
    let out := (copyBody (remembering (spillWriters limit head)) framing).from (r, unwritten (startSpill wire))
    Always (Exact limit head wire) out.2.2 ∧
      ∀ a, out.1 = .ok a → out.2.2.failed = false ∧ Framed framing out.2.2.now.sent out.2.2.now.sunk ∧
        r.stream = out.2.2.now.sent ++ out.2.1.stream := by
  intro out
  have first : Always (Filled limit head wire) (unwritten (startSpill wire)) :=
    ⟨fun _ => start_spill_state, by simp [unwritten]⟩
  have filled : Always (Filled limit head wire) out.2.2 :=
    copy_body_keeps filled_steady framing (r, unwritten (startSpill wire)) first
  refine ⟨⟨fun clean => (filled.1 clean).exact, fun m member => (filled.2 m member).exact⟩, ?_⟩
  intro a passed
  have run : out = (.ok a, (out.2.1, out.2.2)) := Prod.ext passed rfl
  obtain ⟨framed, payload, isFramed, fed, stream, _⟩ := copy_body_ok valid run
  obtain ⟨fed, clean⟩ := fed_remembered fed
  obtain ⟨sent, sunk⟩ := fed_recorded fed
  rw [show out.2.2.now.sent = framed from sent, show out.2.2.now.sunk = payload from sunk]
  exact ⟨clean, isFramed, stream⟩

def helloSpill : Except HttpError Unit × (BufReader × History Spill) :=
  (copyBody (remembering (spillWriters 4 (text "HEAD"))) .chunked).from (helloReader, unwritten (startSpill ⟨[], none⟩))

theorem hello_spilled : helloReader.WellFormed ∧ Always (Exact 4 (text "HEAD") ⟨[], none⟩) helloSpill.2.2 ∧
    helloSpill.2.2.failed = false ∧ helloSpill.2.2.now.state.wire.sent = text "HEAD" ++ helloBody.encode ∧
    helloSpill.2.2.past.map (fun m => m.state.spilled) = [false, false, false, true, true, true, true, true, true] := by
  have valid := hello_reader_well_formed.1
  have always := (spill_buffer_exact 4 (text "HEAD") .chunked ⟨[], none⟩ valid).1
  exact ⟨valid, always, by decide +kernel⟩

end Spilling

end SpillHistories
