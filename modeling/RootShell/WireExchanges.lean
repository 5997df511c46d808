import RootShell.FallibleState
import RootShell.FilledReads

/-!
Programs at one end of a connection: they read the front of what the other end sends, in
pieces of any length, and append what they write. Such a program takes one text and answers
with another whatever comes behind, and sequences of programs take and answer in turn.
-/
namespace WireExchanges
open FallibleState SegmentedStreams FilledReads
variable {α R W E A B : Type} {count : Nat} {front : List α} {failed : Prop}

structure Wire (α R W : Type) where
  input : Conn α R
  output : List α
  writeErrors : List (Option W)

abbrev Reader (α R : Type) := Conn α R → Nat → List α × Option R × Conn α R

def recv (read : Reader α R) (count : Nat) (failed : R → E) : Prog (Wire α R W) E (List α) := fun w =>
  match (read w.input count).2.1 with
  | some err => (.error (failed err), { w with input := (read w.input count).2.2 })
  | none => (.ok (read w.input count).1, { w with input := (read w.input count).2.2 })

def Wire.write (w : Wire α R W) (data : List α) : Option W × Wire α R W :=
  match w.writeErrors with
  | [] => (none, { w with output := w.output ++ data })
  | none :: later => (none, { w with output := w.output ++ data, writeErrors := later })
  | some err :: later => (some err, { w with writeErrors := later })

def send (data : List α) (failed : W → E) : Prog (Wire α R W) E Unit := fun w =>
  match (w.write data).1 with
  | some err => (.error (failed err), (w.write data).2)
  | none => (.ok (), (w.write data).2)

def sendAnyway (data : List α) : Prog (Wire α R W) E Unit := fun w => (.ok (), (w.write data).2)

variable {p : Prog (Wire α R W) E A} {read : Reader α R} {f : A → Prog (Wire α R W) E B}

section Taking
variable {Calm : Conn α R → Prop}

structure Carries (Calm : Conn α R → Prop) (w : Wire α R W) (stream : List α) : Prop where
  calm : Calm w.input
  stream : w.input.stream = stream
  writes : ∀ failed ∈ w.writeErrors, failed = none

/-- Whatever comes behind a text, the program takes that text off the stream, returns a
    value and has written an answer. -/
def Takes (Calm : Conn α R → Prop) (p : Prog (Wire α R W) E A) (taken : List α) (a : A) (answer : List α) : Prop :=
  ∀ w rest, Carries Calm w (taken ++ rest) →
    ∃ w', p.from w = (.ok a, w') ∧ Carries Calm w' rest ∧ w'.output = w.output ++ answer

def Exact (Calm : Conn α R → Prop) (read : Reader α R) : Prop :=
  ∀ c front rest, Calm c → c.stream = front ++ rest →
    ∃ c', read c front.length = (front, none, c') ∧ c'.stream = rest ∧ Calm c'

theorem takes_pure (a : A) : Takes Calm (pure a : Prog (Wire α R W) E A) [] a [] := by
  intro w rest carries
  exact ⟨w, rfl, carries, (List.append_nil _).symm⟩

theorem takes_bind {t u s v : List α} {a : A} {b : B} (first : Takes Calm p t a s) (second : Takes Calm (f a) u b v) :
    Takes Calm (p >>= f) (t ++ u) b (s ++ v) := by
  intro w rest carries
  rw [List.append_assoc] at carries
  obtain ⟨mid, passed, between, written⟩ := first w (u ++ rest) carries
  obtain ⟨last, ended, behind, whole⟩ := second mid rest between
  refine ⟨last, (run_bind_ok passed).trans ended, behind, ?_⟩
  rw [whole, written, List.append_assoc]

theorem takes_recv (exact : Exact Calm read) (length : front.length = count) (failed : R → E) :
    Takes Calm (recv read count failed : Prog (Wire α R W) E (List α)) front front [] := by
  intro w rest carries
  subst length
  obtain ⟨c, got, stream, calm⟩ := exact w.input front rest carries.calm carries.stream
  refine ⟨{ w with input := c }, ?_, ⟨calm, stream, carries.writes⟩, (List.append_nil _).symm⟩
  change recv read front.length failed w = _
  rw [recv, got]

theorem carries_write {w : Wire α R W} {stream : List α} (carries : Carries Calm w stream) (data : List α) :
    (w.write data).1 = none ∧ Carries Calm (w.write data).2 stream ∧
      (w.write data).2.output = w.output ++ data := by
  obtain ⟨calm, same, writes⟩ := carries
  unfold Wire.write
  cases errors : w.writeErrors with
  | nil =>
    rw [errors] at writes
    exact ⟨rfl, ⟨calm, same, writes⟩, rfl⟩
  | cons err later =>
    rw [errors] at writes
    obtain ⟨rfl, others⟩ := List.forall_mem_cons.1 writes
    exact ⟨rfl, ⟨calm, same, others⟩, rfl⟩

theorem takes_send (data : List α) (failed : W → E) :
    Takes Calm (send data failed : Prog (Wire α R W) E Unit) [] () data := by
  intro w rest carries
  obtain ⟨fine, behind, output⟩ := carries_write carries data
  refine ⟨(w.write data).2, ?_, behind, output⟩
  change send data failed w = _
  rw [send, fine]

theorem takes_send_anyway (data : List α) : Takes Calm (sendAnyway data : Prog (Wire α R W) E Unit) [] () data := by
  intro w rest carries
  exact ⟨(w.write data).2, rfl, (carries_write carries data).2⟩

section Sequences
variable {u v : List α} {b : B} {next : List α → Prog (Wire α R W) E B}

theorem takes_recv_then (exact : Exact Calm read) (length : front.length = count) (failed : R → E)
    (behind : Takes Calm (next front) u b v) : Takes Calm (recv read count failed >>= next) (front ++ u) b v :=
  takes_bind (takes_recv exact length failed) behind

theorem takes_recv_last (exact : Exact Calm read) (length : front.length = count) (failed : R → E)
    (behind : Takes Calm (next front) [] b v) : Takes Calm (recv read count failed >>= next) front b v := by
  have whole := takes_recv_then exact length failed behind
  rwa [List.append_nil] at whole

theorem takes_send_then (data : List α) (failed : W → E) {next : Unit → Prog (Wire α R W) E B}
    (behind : Takes Calm (next ()) u b v) : Takes Calm (send data failed >>= next) u b (data ++ v) :=
  takes_bind (takes_send data failed) behind

theorem takes_send_last (data : List α) (failed : W → E) {next : Unit → Prog (Wire α R W) E B}
    (behind : Takes Calm (next ()) u b []) : Takes Calm (send data failed >>= next) u b data := by
  have whole := takes_send_then data failed behind
  rwa [List.append_nil] at whole

theorem takes_refuse_then [Decidable failed] (no : ¬ failed) (e : E) {next : Unit → Prog (Wire α R W) E B}
    (behind : Takes Calm (next ()) u b v) : Takes Calm (refuse failed e >>= next) u b v := by
  intro w rest carries
  rw [refuse_passes no]
  exact behind w rest carries

end Sequences

end Taking

section Passing
variable {w w' : Wire α R W}

/-- A read that passes has taken its count off the stream, whatever the connection does. -/
def Honest (read : Reader α R) : Prop :=
  ∀ c count, (read c count).2.1 = none →
    (read c count).1.length = count ∧ c.stream = (read c count).1 ++ (read c count).2.2.stream

theorem recv_ok (honest : Honest read) {failed : R → E} {got : List α}
    (run : (recv read count failed).from w = (.ok got, w')) :
    got.length = count ∧ w.input.stream = got ++ w'.input.stream := by
  change recv read count failed w = _ at run
  unfold recv at run
  split at run
  · cases run
  · rename_i fine
    obtain ⟨length, stream⟩ := honest w.input count fine
    cases run
    exact ⟨length, stream⟩

theorem write_input (w : Wire α R W) (data : List α) : (w.write data).2.input = w.input := by
  unfold Wire.write
  split <;> rfl

theorem send_ok {data : List α} {failed : W → E} {u : Unit} (run : (send data failed).from w = (.ok u, w')) :
    w'.input = w.input := by
  change send data failed w = _ at run
  unfold send at run
  split at run
  · cases run
  · cases run
    exact write_input w data

end Passing

section Turns
variable {Calm : Conn α R → Prop}

def Grows (p : Prog (Wire α R W) E A) : Prop := ∀ before, Keeps (fun w => before <+: w.output) p

theorem grows_pure (a : A) : Grows (pure a : Prog (Wire α R W) E A) := fun _ => keeps_pure a

theorem grows_throw (e : E) : Grows (throw e : Prog (Wire α R W) E A) := fun _ => keeps_throw e

theorem grows_bind (first : Grows p) (second : ∀ a, Grows (f a)) : Grows (p >>= f) :=
  fun before => keeps_bind (first before) fun a => second a before

theorem grows_refuse [Decidable failed] (e : E) : Grows (refuse failed e : Prog (Wire α R W) E Unit) := by
  unfold refuse
  split
  · exact grows_throw e
  · exact grows_pure ()

theorem grows_recv (read : Reader α R) (count : Nat) (failed : R → E) :
    Grows (recv read count failed : Prog (Wire α R W) E (List α)) := by
  intro before w written
  change before <+: (recv read count failed w).2.output
  unfold recv
  split <;> exact written

theorem write_grows (w : Wire α R W) (data : List α) : w.output <+: (w.write data).2.output := by
  unfold Wire.write
  split
  · exact List.prefix_append _ _
  · exact List.prefix_append _ _
  · exact List.prefix_rfl

theorem grows_send (data : List α) (failed : W → E) : Grows (send data failed : Prog (Wire α R W) E Unit) := by
  intro before w written
  have later := written.trans (write_grows w data)
  change before <+: (send data failed w).2.output
  unfold send
  split <;> exact later

def Answers (Calm : Conn α R → Prop) (p : Prog (Wire α R W) E A) (taken answer : List α) : Prop :=
  ∀ w rest, Carries Calm w (taken ++ rest) → w.output ++ answer <+: (p.from w).2.output

theorem answers_grows (grows : Grows p) : Answers Calm p [] [] := by
  intro w rest _
  rw [List.append_nil]
  exact grows w.output w List.prefix_rfl

theorem answers_bind {t u s v : List α} {a : A}
    (first : Takes Calm p t a s) (second : Answers Calm (f a) u v) : Answers Calm (p >>= f) (t ++ u) (s ++ v) := by
  intro w rest carries
  rw [List.append_assoc] at carries
  obtain ⟨mid, passed, between, written⟩ := first w (u ++ rest) carries
  have whole := second mid rest between
  rw [written, List.append_assoc] at whole
  rwa [run_bind_ok passed]

theorem answers_refuse [Decidable failed] (no : ¬ failed) (e : E) {next : Unit → Prog (Wire α R W) E B} {u v : List α}
    (behind : Answers Calm (next ()) u v) : Answers Calm (refuse failed e >>= next) u v := by
  intro w rest carries
  rw [refuse_passes no]
  exact behind w rest carries

end Turns

section Readers
variable [DecidableEq R]

theorem read_full_takes (eof unexpected : R) : Exact (Steady : Conn α R → Prop) (readFull eof unexpected) :=
  fun _ _ _ steady stream => read_full_exact eof unexpected steady stream

theorem read_full_honest (eof unexpected : R) : Honest (readFull eof unexpected : Reader α R) := by
  intro c count fine
  have read := read_at_least_read eof unexpected c (Nat.le_refl count)
  exact ⟨Nat.le_antisymm read.short (read.enough.1 fine), read.stream.symm⟩

def fill : Reader α R := fun c count => fillLoop (c.work + 1) c count count

omit [DecidableEq R] in
theorem fill_takes : Exact (Silent : Conn α R → Prop) fill := fun _ _ _ silent stream => fill_exact silent stream

end Readers

end WireExchanges
