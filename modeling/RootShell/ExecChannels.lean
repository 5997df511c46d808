import RootShell.ByteLines
import RootShell.Interleaving
import RootShell.KeyedTables
import Mathlib.Data.Fintype.Card
import Mathlib.Logic.Function.Basic

/-!
Auxiliary exec channels of a transport: startExec, ExecClose and closeAllExec of
iosbridge/exec.go and Transport.Close. A channel is registered in the handle table under a
reference of its own; whoever takes it out of the table closes it. Each lock section, each
atomic access and each close is a step.
-/
namespace ExecChannels
open ByteLines Interleaving KeyedTables

variable {n m l : Nat} {i : Fin n} {k : Fin l}

inductive SetUpCall
  | requestPty
  | stdinPipe
  | stdoutPipe
  | stderrPipe
  | start
  deriving DecidableEq, Repr

inductive ExecError
  | setUp (call : SetUpCall)
  | transportClosed
  deriving DecidableEq, Repr

def ExecError.message (command cause : Bytes) : ExecError → Bytes
  | .setUp .requestPty => text "auxiliary PTY request failed: " ++ cause
  | .setUp .stdinPipe => text "stdin pipe for OpenExec failed: " ++ cause
  | .setUp .stdoutPipe => text "stdout pipe for OpenExec failed: " ++ cause
  | .setUp .stderrPipe => text "stderr pipe for OpenExec failed: " ++ cause
  | .setUp .start => text "start command [" ++ command ++ text "] failed: " ++ cause
  | .transportClosed => text "transport is closed"

inductive Start
  | idle
  | started
  | numbered (ref : Nat)
  | registered (ref : Nat)
  | unwinding (ref : Nat)
  | unwound
  | returned (result : Except ExecError Nat)
  deriving DecidableEq

inductive Exec
  | idle
  | looked
  | returned
  deriving DecidableEq

inductive Closing
  | idle
  | flagged
  | sessionClosed
  | streamLocalClosed
  | drained
  | returned (won : Bool)
  deriving DecidableEq

inductive Session
  | unopened
  | aborted
  | started
  deriving DecidableEq

inductive Thread (n m l : Nat)
  | start (i : Fin n)
  | exec (j : Fin m)
  | close (k : Fin l)
  deriving DecidableEq

/-- A channel is known by the call that made it. `hands` are the channels a call has taken
    out of the table and not closed yet, `closes` how often close was called on a channel. -/
structure Transport (n m l : Nat) where
  starts : Fin n → Start
  execs : Fin m → Exec
  closers : Fin l → Closing
  sessions : Fin n → Session
  refs : Fin n → Option Nat
  nextExecRef : Nat
  execChannels : Option (Table Nat (Fin n))
  closed : Bool
  hands : Thread n m l → List (Fin n)
  closes : Fin n → Nat

def opened (n m l : Nat) : Transport n m l where
  starts _ := .idle
  execs _ := .idle
  closers _ := .idle
  sessions _ := .unopened
  refs _ := none
  nextExecRef := 0
  execChannels := none
  closed := false
  hands _ := []
  closes _ := 0

inductive Action (n m l : Nat)
  | setUp (i : Fin n) (failure : Option SetUpCall)
  | number (i : Fin n)
  | register (i : Fin n)
  | checkClosed (i : Fin n)
  | unwind (i : Fin n)
  | lookUp (j : Fin m)
  | compareAndSwap (k : Fin l)
  | closeSession (k : Fin l)
  | closeStreamLocal (k : Fin l)
  | drain (k : Fin l)
  | closeHeld (thread : Thread n m l)
  | finish (thread : Thread n m l)

namespace Transport
def start (s : Transport n m l) (i : Fin n) (next : Start) : Transport n m l :=
  { s with starts := Function.update s.starts i next }

def exec (s : Transport n m l) (j : Fin m) (next : Exec) : Transport n m l :=
  { s with execs := Function.update s.execs j next }

def closer (s : Transport n m l) (k : Fin l) (next : Closing) : Transport n m l :=
  { s with closers := Function.update s.closers k next }

/-- The pty request, the three pipes and Start; a failure closes the session. -/
def setUp (s : Transport n m l) (i : Fin n) : Option SetUpCall → Transport n m l
  | some call => { s with sessions := Function.update s.sessions i .aborted }.start i (.returned (.error (.setUp call)))
  | none => { s with sessions := Function.update s.sessions i .started }.start i .started

def number (s : Transport n m l) (i : Fin n) : Transport n m l :=
  { s with nextExecRef := s.nextExecRef + 1, refs := Function.update s.refs i (some (s.nextExecRef + 1)) }.start i
    (.numbered (s.nextExecRef + 1))

def register (s : Transport n m l) (i : Fin n) (ref : Nat) : Transport n m l :=
  { s with execChannels := some ((s.execChannels.getD ∅).insert ref i) }.start i (.registered ref)

def checkClosed (s : Transport n m l) (i : Fin n) (ref : Nat) : Transport n m l :=
  s.start i (if s.closed then .unwinding ref else .returned (.ok ref))

def take (s : Transport n m l) (thread : Thread n m l) (ref : Nat) : Transport n m l :=
  { s with
    execChannels := delete s.execChannels ref
    hands := Function.update s.hands thread (get s.execChannels ref).toList }

def compareAndSwap (s : Transport n m l) (k : Fin l) : Transport n m l :=
  if s.closed then s.closer k (.returned false) else { s with closed := true }.closer k .flagged

def drain (s : Transport n m l) (k : Fin l) : Transport n m l :=
  { s with
    execChannels := none
    hands := Function.update s.hands (.close k) (values s.execChannels) }.closer k .drained

def closeHeld (s : Transport n m l) (thread : Thread n m l) (i : Fin n) (rest : List (Fin n)) : Transport n m l :=
  { s with
    hands := Function.update s.hands thread rest
    closes := Function.update s.closes i (s.closes i + 1) }

def finish (s : Transport n m l) : Thread n m l → Option (Transport n m l)
  | .start i => if s.starts i = .unwound then some (s.start i (.returned (.error .transportClosed))) else none
  | .exec j => if s.execs j = .looked then some (s.exec j .returned) else none
  | .close k => if s.closers k = .drained then some (s.closer k (.returned true)) else none

end Transport

section Steps
/-- `target j` is the reference the call `j` of ExecClose was given, which may be any. -/
def step (target : Fin m → Nat) (s : Transport n m l) : Action n m l → Option (Transport n m l)
  | .setUp i failure => if s.starts i = .idle then some (s.setUp i failure) else none
  | .number i => if s.starts i = .started then some (s.number i) else none
  | .register i =>
    match s.starts i with
    | .numbered ref => some (s.register i ref)
    | _ => none
  | .checkClosed i =>
    match s.starts i with
    | .registered ref => some (s.checkClosed i ref)
    | _ => none
  | .unwind i =>
    match s.starts i with
    | .unwinding ref => some ((s.take (.start i) ref).start i .unwound)
    | _ => none
  | .lookUp j => if s.execs j = .idle then some ((s.take (.exec j) (target j)).exec j .looked) else none
  | .compareAndSwap k => if s.closers k = .idle then some (s.compareAndSwap k) else none
  | .closeSession k => if s.closers k = .flagged then some (s.closer k .sessionClosed) else none
  | .closeStreamLocal k => if s.closers k = .sessionClosed then some (s.closer k .streamLocalClosed) else none
  | .drain k => if s.closers k = .streamLocalClosed then some (s.drain k) else none
  | .closeHeld thread =>
    match s.hands thread with
    | [] => none
    | i :: rest => some (s.closeHeld thread i rest)
  | .finish thread => if s.hands thread = [] then s.finish thread else none

inductive Move (target : Fin m → Nat) (s : Transport n m l) : Action n m l → Transport n m l → Prop
  | setUp {i : Fin n} {failure : Option SetUpCall} (phase : s.starts i = .idle) :
      Move target s (.setUp i failure) (s.setUp i failure)
  | number {i : Fin n} (phase : s.starts i = .started) : Move target s (.number i) (s.number i)
  | register {i : Fin n} {ref : Nat} (phase : s.starts i = .numbered ref) :
      Move target s (.register i) (s.register i ref)
  | checkClosed {i : Fin n} {ref : Nat} (phase : s.starts i = .registered ref) :
      Move target s (.checkClosed i) (s.checkClosed i ref)
  | unwind {i : Fin n} {ref : Nat} (phase : s.starts i = .unwinding ref) :
      Move target s (.unwind i) ((s.take (.start i) ref).start i .unwound)
  | lookUp {j : Fin m} (phase : s.execs j = .idle) :
      Move target s (.lookUp j) ((s.take (.exec j) (target j)).exec j .looked)
  | lost {k : Fin l} (phase : s.closers k = .idle) (set : s.closed = true) :
      Move target s (.compareAndSwap k) (s.closer k (.returned false))
  | won {k : Fin l} (phase : s.closers k = .idle) (unset : s.closed = false) :
      Move target s (.compareAndSwap k) ({ s with closed := true }.closer k .flagged)
  | closeSession {k : Fin l} (phase : s.closers k = .flagged) :
      Move target s (.closeSession k) (s.closer k .sessionClosed)
  | closeStreamLocal {k : Fin l} (phase : s.closers k = .sessionClosed) :
      Move target s (.closeStreamLocal k) (s.closer k .streamLocalClosed)
  | drain {k : Fin l} (phase : s.closers k = .streamLocalClosed) : Move target s (.drain k) (s.drain k)
  | closeHeld {thread : Thread n m l} {i : Fin n} {rest : List (Fin n)} (held : s.hands thread = i :: rest) :
      Move target s (.closeHeld thread) (s.closeHeld thread i rest)
  | finishStart {i : Fin n} (empty : s.hands (.start i) = []) (phase : s.starts i = .unwound) :
      Move target s (.finish (.start i)) (s.start i (.returned (.error .transportClosed)))
  | finishExec {j : Fin m} (empty : s.hands (.exec j) = []) (phase : s.execs j = .looked) :
      Move target s (.finish (.exec j)) (s.exec j .returned)
  | finishClose {k : Fin l} (empty : s.hands (.close k) = []) (phase : s.closers k = .drained) :
      Move target s (.finish (.close k)) (s.closer k (.returned true))

theorem step_move {target : Fin m → Nat} {s t : Transport n m l} {a : Action n m l} (moved : step target s a = some t) :
    Move target s a t := by
  cases a with
  | setUp i failure =>
    obtain ⟨phase, rfl⟩ := guarded moved
    exact .setUp phase
  | number i =>
    obtain ⟨phase, rfl⟩ := guarded moved
    exact .number phase
  | register i =>
    simp only [step] at moved
    split at moved
    · rename_i phase
      cases moved
      exact .register phase
    · cases moved
  | checkClosed i =>
    simp only [step] at moved
    split at moved
    · rename_i phase
      cases moved
      exact .checkClosed phase
    · cases moved
  | unwind i =>
    simp only [step] at moved
    split at moved
    · rename_i phase
      cases moved
      exact .unwind phase
    · cases moved
  | lookUp j =>
    obtain ⟨phase, rfl⟩ := guarded moved
    exact .lookUp phase
  | compareAndSwap k =>
    obtain ⟨phase, rfl⟩ := guarded moved
    unfold Transport.compareAndSwap
    split
    · exact .lost phase (by assumption)
    · exact .won phase (by simpa using ‹¬ s.closed = true›)
  | closeSession k =>
    obtain ⟨phase, rfl⟩ := guarded moved
    exact .closeSession phase
  | closeStreamLocal k =>
    obtain ⟨phase, rfl⟩ := guarded moved
    exact .closeStreamLocal phase
  | drain k =>
    obtain ⟨phase, rfl⟩ := guarded moved
    exact .drain phase
  | closeHeld thread =>
    simp only [step] at moved
    split at moved
    · cases moved
    · rename_i i rest held
      cases moved
      exact .closeHeld held
  | finish thread =>
    obtain ⟨empty, moved⟩ := Option.ite_none_right_eq_some.1 moved
    cases thread with
    | start i =>
      obtain ⟨phase, rfl⟩ := guarded moved
      exact .finishStart empty phase
    | exec j =>
      obtain ⟨phase, rfl⟩ := guarded moved
      exact .finishExec empty phase
    | close k =>
      obtain ⟨phase, rfl⟩ := guarded moved
      exact .finishClose empty phase

end Steps

section References
variable {s t : Transport n m l}

def Start.ref : Start → Option Nat
  | .numbered ref | .registered ref | .unwinding ref | .returned (.ok ref) => some ref
  | _ => none

structure Numbered (s : Transport n m l) : Prop where
  own : ∀ i ref, (s.starts i).ref = some ref → s.refs i = some ref
  fresh : ∀ i, s.starts i = .idle ∨ s.starts i = .started → s.refs i = none
  distinct : ∀ i j ref, s.refs i = some ref → s.refs j = some ref → i = j
  bound : ∀ i ref, s.refs i = some ref → 1 ≤ ref ∧ ref ≤ s.nextExecRef
  assigned : ∀ ref, 1 ≤ ref → ref ≤ s.nextExecRef → ∃ i, s.refs i = some ref

theorem Numbered.same (numbered : Numbered s) (starts : t.starts = s.starts) (refs : t.refs = s.refs)
    (next : t.nextExecRef = s.nextExecRef) : Numbered t := by
  refine ⟨?_, ?_, ?_, ?_, ?_⟩
  · rw [starts, refs]
    exact numbered.own
  · rw [starts, refs]
    exact numbered.fresh
  · rw [refs]
    exact numbered.distinct
  · rw [refs, next]
    exact numbered.bound
  · rw [refs, next]
    exact numbered.assigned

theorem Numbered.start (numbered : Numbered s) (next : Start) (own : ∀ ref, next.ref = some ref → s.refs i = some ref)
    (fresh : next = .idle ∨ next = .started → s.refs i = none) : Numbered (s.start i next) := by
  refine ⟨?_, ?_, numbered.distinct, numbered.bound, numbered.assigned⟩
  · intro j ref held
    by_cases same : j = i
    · subst same
      exact own ref (by simpa [Transport.start] using held)
    · exact numbered.own j ref (by simpa [Transport.start, same] using held)
  · intro j early
    by_cases same : j = i
    · subst same
      exact fresh (by simpa [Transport.start] using early)
    · exact numbered.fresh j (by simpa [Transport.start, same] using early)

theorem Numbered.number (numbered : Numbered s) (phase : s.starts i = .started) : Numbered (s.number i) := by
  have none_yet := numbered.fresh i (Or.inr phase)
  have refs : ∀ j, (s.number i).refs j = if j = i then some (s.nextExecRef + 1) else s.refs j := by
    intro j
    simp [Transport.number, Transport.start, Function.update_apply]
  have starts : ∀ j, (s.number i).starts j = if j = i then .numbered (s.nextExecRef + 1) else s.starts j := by
    intro j
    simp [Transport.number, Transport.start, Function.update_apply]
  have new : ∀ j, s.refs j ≠ some (s.nextExecRef + 1) := by
    intro j taken
    have := (numbered.bound j _ taken).2
    omega
  refine ⟨?_, ?_, ?_, ?_, ?_⟩
  · intro j ref held
    rw [starts] at held
    rw [refs]
    split at held
    · rw [if_pos (by assumption)]
      exact held
    · rw [if_neg (by assumption)]
      exact numbered.own j ref held
  · intro j early
    rw [starts] at early
    rw [refs]
    split at early
    · simp at early
    · rw [if_neg (by assumption)]
      exact numbered.fresh j early
  · intro j k ref first second
    rw [refs] at first second
    split at first <;> split at second
    · simp_all
    · rw [← first] at second
      exact absurd second (new k)
    · rw [← second] at first
      exact absurd first (new j)
    · exact numbered.distinct j k ref first second
  · intro j ref given
    rw [refs] at given
    show 1 ≤ ref ∧ ref ≤ s.nextExecRef + 1
    split at given
    · cases given
      omega
    · have := numbered.bound j ref given
      omega
  · intro ref low high
    change ref ≤ s.nextExecRef + 1 at high
    by_cases last : ref = s.nextExecRef + 1
    · exact ⟨i, by rw [refs, if_pos rfl, last]⟩
    · obtain ⟨j, given⟩ := numbered.assigned ref low (by omega)
      refine ⟨j, ?_⟩
      rw [refs, if_neg, given]
      rintro rfl
      rw [none_yet] at given
      cases given

theorem Numbered.small (numbered : Numbered s) : s.nextExecRef ≤ n := by
  have each : ∀ r : Fin s.nextExecRef, ∃ i, s.refs i = some (r.val + 1) :=
    fun r => numbered.assigned (r.val + 1) (by omega) (by omega)
  choose holder held using each
  have injective : Function.Injective holder := by
    intro a b same
    have first := held a
    rw [same, held b] at first
    exact Fin.ext (by simpa using first.symm)
  simpa using Fintype.card_le_of_injective holder injective

end References

section Flag
variable {s t : Transport n m l}

def Closing.won : Closing → Bool
  | .idle | .returned false => false
  | _ => true

def Closing.past : Closing → Bool
  | .drained | .returned true => true
  | _ => false

structure Flagged (s : Transport n m l) : Prop where
  set : ∀ k, s.closers k ≠ .idle → s.closed = true
  winner : s.closed = true → ∃ k, (s.closers k).won = true

theorem Flagged.same (flagged : Flagged s) (closers : t.closers = s.closers) (closed : t.closed = s.closed) :
    Flagged t := by
  refine ⟨?_, ?_⟩
  · rw [closers, closed]
    exact flagged.set
  · rw [closers, closed]
    exact flagged.winner

theorem Flagged.running (flagged : Flagged s) {now : Closing} (phase : s.closers k = now)
    (begun : now ≠ .idle) : s.closed = true :=
  flagged.set k (phase ▸ begun)

theorem Flagged.closer (flagged : Flagged s) (next : Closing) (closed : s.closed = true)
    (won : (s.closers k).won = true → next.won = true) : Flagged (s.closer k next) := by
  refine ⟨fun _ _ => closed, fun _ => ?_⟩
  obtain ⟨j, set⟩ := flagged.winner closed
  refine ⟨j, ?_⟩
  by_cases same : j = k
  · subst same
    simpa [Transport.closer] using won set
  · simpa [Transport.closer, same] using set

theorem flagged_won (k : Fin l) : Flagged ({ s with closed := true }.closer k .flagged) :=
  ⟨fun _ _ => rfl, fun _ => ⟨k, by simp [Transport.closer, Closing.won]⟩⟩

end Flag

variable {ref : Nat}

variable {thread : Thread n m l}

section Ownership
variable {s t : Transport n m l}

/-- Who answers for a channel: nobody before it is registered, the table, the call that
    took it out, and in the end nobody has to any more. -/
inductive Owner (n m l : Nat)
  | nobody
  | table
  | hands (thread : Thread n m l)
  | closed
  deriving DecidableEq

def Start.early : Start → Bool
  | .idle | .started | .numbered _ => true
  | _ => false

structure Owned (s : Transport n m l) (owner : Fin n → Owner n m l) : Prop where
  table : ∀ ref i, get s.execChannels ref = some i ↔ owner i = .table ∧ s.refs i = some ref
  hands : ∀ thread i, i ∈ s.hands thread ↔ owner i = .hands thread
  nodup : ∀ thread, (s.hands thread).Nodup
  closes : ∀ i, s.closes i = if owner i = .closed then 1 else 0
  nobody : ∀ i, owner i = .nobody ↔ (s.starts i).early = true ∨ s.sessions i = .aborted
  unopened : ∀ i, s.starts i = .idle → s.sessions i = .unopened
  aborted : ∀ i, s.sessions i = .aborted → ∃ e, s.starts i = .returned (.error e)

variable {owner : Fin n → Owner n m l}

theorem Owned.same (owned : Owned s owner) (table : t.execChannels = s.execChannels) (refs : t.refs = s.refs)
    (hands : t.hands = s.hands) (closes : t.closes = s.closes) (starts : t.starts = s.starts)
    (sessions : t.sessions = s.sessions) : Owned t owner := by
  refine ⟨?_, ?_, ?_, ?_, ?_, ?_, ?_⟩
  · rw [table, refs]
    exact owned.table
  · rw [hands]
    exact owned.hands
  · rw [hands]
    exact owned.nodup
  · rw [closes]
    exact owned.closes
  · rw [starts, sessions]
    exact owned.nobody
  · rw [starts, sessions]
    exact owned.unopened
  · rw [starts, sessions]
    exact owned.aborted

theorem start_apply (s : Transport n m l) (i j : Fin n) (next : Start) :
    (s.start i next).starts j = if j = i then next else s.starts j := by
  simp [Transport.start, Function.update_apply]

theorem Owned.not_aborted (owned : Owned s owner) (running : ∀ result, s.starts i ≠ .returned result) :
    s.sessions i ≠ .aborted := by
  intro aborted
  obtain ⟨e, phase⟩ := owned.aborted i aborted
  exact running _ phase

theorem Owned.start (owned : Owned s owner) (next : Start) (running : ∀ result, s.starts i ≠ .returned result)
    (early : next.early = (s.starts i).early) (later : next ≠ .idle) : Owned (s.start i next) owner := by
  refine ⟨owned.table, owned.hands, owned.nodup, owned.closes, ?_, ?_, ?_⟩
  · intro j
    rw [start_apply]
    split
    · rename_i same
      rw [early, ← same]
      exact owned.nobody j
    · exact owned.nobody j
  · intro j idle
    rw [start_apply] at idle
    split at idle
    · exact absurd idle later
    · exact owned.unopened j idle
  · intro j aborted
    rw [start_apply, if_neg]
    · exact owned.aborted j aborted
    · rintro rfl
      exact owned.not_aborted running aborted

theorem Owned.opened (owned : Owned s owner) (mine : owner i = .nobody) {next : Start} {session : Session}
    (unregistered : next.early = true ∨ session = .aborted) (later : next ≠ .idle)
    (failed : session = .aborted → ∃ e, next = .returned (.error e)) :
    Owned ({ s with sessions := Function.update s.sessions i session }.start i next) owner := by
  refine ⟨owned.table, owned.hands, owned.nodup, owned.closes, ?_, ?_, ?_⟩ <;> intro j
  all_goals by_cases same : j = i
  · subst same
    simp [Transport.start, mine, unregistered]
  · simpa [Transport.start, same] using owned.nobody j
  · subst same
    simp [Transport.start, later]
  · simpa [Transport.start, same] using owned.unopened j
  · subst same
    simpa [Transport.start] using failed
  · simpa [Transport.start, same] using owned.aborted j

theorem Owned.setUp (owned : Owned s owner) (phase : s.starts i = .idle) (failure : Option SetUpCall) :
    Owned (s.setUp i failure) owner := by
  have mine : owner i = .nobody := (owned.nobody i).2 (Or.inl (by rw [phase]; rfl))
  cases failure with
  | none => exact owned.opened mine (Or.inl rfl) (by simp) (by simp)
  | some call => exact owned.opened mine (Or.inr rfl) (by simp) (by simp)

theorem Owned.number (owned : Owned s owner) (phase : s.starts i = .started) : Owned (s.number i) owner := by
  have mine : owner i = .nobody := (owned.nobody i).2 (Or.inl (by rw [phase]; rfl))
  have moved := owned.start (i := i) (.numbered (s.nextExecRef + 1)) (by simp [phase]) (by rw [phase]; rfl) (by simp)
  refine ⟨?_, moved.hands, moved.nodup, moved.closes, moved.nobody, moved.unopened, moved.aborted⟩
  intro ref j
  have before := owned.table ref j
  by_cases same : j = i
  · subst same
    simpa [Transport.number, Transport.start, mine] using before
  · simpa [Transport.number, Transport.start, same] using before

theorem get_made (table : Option (Table Nat (Fin n))) (ref : Nat) : get (some (table.getD ∅)) ref = get table ref := by
  cases table <;> rfl

theorem Owned.register (owned : Owned s owner) (numbered : Numbered s)
    (phase : s.starts i = .numbered ref) : Owned (s.register i ref) (Function.update owner i .table) := by
  have mine : owner i = .nobody := (owned.nobody i).2 (Or.inl (by rw [phase]; rfl))
  have own : s.refs i = some ref := numbered.own i ref (by rw [phase]; rfl)
  have unaborted : s.sessions i ≠ .aborted := owned.not_aborted (by simp [phase])
  refine ⟨?_, ?_, owned.nodup, ?_, ?_, ?_, ?_⟩
  · intro r j
    simp only [Transport.register, Transport.start, get_insert, get_made, Function.update_apply]
    by_cases there : r = ref
    · rw [if_pos there, there]
      constructor
      · intro found
        cases found
        exact ⟨if_pos rfl, own⟩
      · rintro ⟨_, given⟩
        rw [numbered.distinct i j ref own given]
    · rw [if_neg there, owned.table]
      by_cases same : j = i
      · subst same
        simp [mine, own, Ne.symm there]
      · rw [if_neg same]
  · intro thread j
    change j ∈ s.hands thread ↔ _
    rw [Function.update_apply]
    split
    · rename_i same
      rw [same]
      simpa [mine] using owned.hands thread i
    · exact owned.hands thread j
  · intro j
    change s.closes j = _
    rw [Function.update_apply]
    split
    · rename_i same
      rw [same]
      simpa [mine] using owned.closes i
    · exact owned.closes j
  · intro j
    rw [Function.update_apply, Transport.register, start_apply]
    change _ ↔ _ ∨ s.sessions j = .aborted
    split
    · rename_i same
      simp [Start.early, same, unaborted]
    · exact owned.nobody j
  · intro j idle
    rw [Transport.register, start_apply] at idle
    split at idle
    · cases idle
    · exact owned.unopened j idle
  · intro j aborted
    rw [Transport.register, start_apply, if_neg]
    · exact owned.aborted j aborted
    · rintro rfl
      exact unaborted aborted

theorem Owned.reassign (owned : Owned s owner) {next : Owner n m l} (before : owner i ≠ .nobody)
    (after : next ≠ .nobody) (j : Fin n) :
    Function.update owner i next j = .nobody ↔ (s.starts j).early = true ∨ s.sessions j = .aborted := by
  rw [Function.update_apply, ← owned.nobody j]
  split
  · rename_i same
    rw [same]
    exact ⟨fun h => absurd h after, fun h => absurd h before⟩
  · rfl

theorem Owned.take (owned : Owned s owner) (empty : s.hands thread = []) (found : get s.execChannels ref = some i) :
    Owned (s.take thread ref) (Function.update owner i (.hands thread)) := by
  obtain ⟨filed, own⟩ := (owned.table ref i).1 found
  refine ⟨?_, ?_, ?_, ?_, owned.reassign (by simp [filed]) (by simp), owned.unopened, owned.aborted⟩
  · intro r j
    simp only [Transport.take, get_delete, Function.update_apply]
    by_cases there : r = ref
    · rw [if_pos there, there]
      constructor
      · intro h
        cases h
      · rintro ⟨other, given⟩
        split at other
        · cases other
        · rename_i different
          have again := (owned.table ref j).2 ⟨other, given⟩
          rw [found, Option.some.injEq] at again
          exact absurd again.symm different
    · rw [if_neg there, owned.table]
      split
      · rename_i same
        rw [same]
        simp [own, Ne.symm there]
      · rfl
  · intro other j
    have held := owned.hands other j
    simp only [Transport.take, found, Option.toList_some, Function.update_apply]
    by_cases this : other = thread
    · subst this
      by_cases same : j = i
      · simp [same]
      · simpa [same, empty] using held
    · by_cases same : j = i
      · subst same
        simpa [this, Ne.symm this, filed] using held
      · simpa [this, same] using held
  · intro other
    simp only [Transport.take, found, Option.toList_some, Function.update_apply]
    split
    · exact List.nodup_singleton i
    · exact owned.nodup other
  · intro j
    change s.closes j = _
    rw [Function.update_apply]
    split
    · rename_i same
      rw [same]
      simpa [filed] using owned.closes i
    · exact owned.closes j

theorem Owned.miss (owned : Owned s owner) (empty : s.hands thread = [])
    (missing : get s.execChannels ref = none) : Owned (s.take thread ref) owner := by
  have hands : (s.take thread ref).hands = s.hands := by
    simp [Transport.take, missing, ← empty]
  refine ⟨?_, ?_, ?_, owned.closes, owned.nobody, owned.unopened, owned.aborted⟩
  · intro r j
    simp only [Transport.take, get_delete]
    split
    · rename_i there
      rw [there, ← missing]
      exact owned.table ref j
    · exact owned.table r j
  · rw [hands]
    exact owned.hands
  · rw [hands]
    exact owned.nodup

theorem Owned.drain (owned : Owned s owner) (empty : s.hands (.close k) = [])
    (filed : ∀ i, owner i = .table → ∃ ref, s.refs i = some ref) :
    Owned (s.drain k) (fun i => if owner i = .table then .hands (.close k) else owner i) := by
  have listed : ∀ j, j ∈ values s.execChannels ↔ owner j = .table := by
    intro j
    rw [mem_values]
    constructor
    · rintro ⟨ref, found⟩
      exact ((owned.table ref j).1 found).1
    · intro here
      obtain ⟨ref, given⟩ := filed j here
      exact ⟨ref, (owned.table ref j).2 ⟨here, given⟩⟩
  have once : (values s.execChannels).Nodup := by
    refine values_nodup fun a b j first second => ?_
    have given := ((owned.table a j).1 first).2
    rw [((owned.table b j).1 second).2] at given
    exact (Option.some.inj given).symm
  refine ⟨?_, ?_, ?_, ?_, ?_, owned.unopened, owned.aborted⟩
  · intro ref j
    simp only [Transport.drain, Transport.closer, get_none]
    split <;> simp [*]
  · intro thread j
    have held := owned.hands thread j
    simp only [Transport.drain, Transport.closer, Function.update_apply]
    by_cases this : thread = .close k
    · rw [if_pos this, listed]
      rw [this, empty] at held
      split <;> simp_all
    · rw [if_neg this, held]
      split
      · rename_i here
        simp [here, Ne.symm this]
      · rfl
  · intro thread
    simp only [Transport.drain, Transport.closer, Function.update_apply]
    split
    · exact once
    · exact owned.nodup thread
  · intro j
    change s.closes j = _
    rw [owned.closes j]
    split <;> split <;> simp_all
  · intro j
    change _ ↔ (s.starts j).early = true ∨ s.sessions j = .aborted
    rw [← owned.nobody j]
    split <;> simp_all

theorem Owned.closeHeld (owned : Owned s owner) {rest : List (Fin n)}
    (held : s.hands thread = i :: rest) : Owned (s.closeHeld thread i rest) (Function.update owner i .closed) := by
  have mine : owner i = .hands thread := (owned.hands thread i).1 (by simp [held])
  have once := owned.nodup thread
  rw [held, List.nodup_cons] at once
  refine ⟨?_, ?_, ?_, ?_, owned.reassign (by simp [mine]) (by simp), owned.unopened, owned.aborted⟩
  · intro ref j
    change get s.execChannels ref = some j ↔ _
    rw [owned.table, Function.update_apply]
    split
    · rename_i same
      simp [same, mine]
    · rfl
  · intro other j
    have before := owned.hands other j
    simp only [Transport.closeHeld, Function.update_apply]
    by_cases this : other = thread
    · subst this
      rw [held] at before
      by_cases same : j = i
      · simpa [same] using once.1
      · simpa [same] using before
    · by_cases same : j = i
      · subst same
        simpa [this, mine, Ne.symm this] using before
      · simpa [this, same] using before
  · intro other
    simp only [Transport.closeHeld, Function.update_apply]
    split
    · exact once.2
    · exact owned.nodup other
  · intro j
    simp only [Transport.closeHeld, Function.update_apply]
    split
    · have none_yet := owned.closes i
      rw [mine] at none_yet
      simpa using none_yet
    · exact owned.closes j

end Ownership

section Custody
variable {s t : Transport n m l} {owner : Fin n → Owner n m l}

def Active (s : Transport n m l) : Thread n m l → Prop
  | .start i => s.starts i = .unwound
  | .exec j => s.execs j = .looked
  | .close k => s.closers k = .drained

def Busy (s : Transport n m l) : Prop := ∀ thread, s.hands thread ≠ [] → Active s thread

theorem Busy.empty (busy : Busy s) (inactive : ¬ Active s thread) : s.hands thread = [] := by
  by_contra held
  exact inactive (busy thread held)

theorem Busy.start (busy : Busy s) {next : Start} (calm : s.hands (.start i) = [] ∨ next = .unwound) :
    Busy (s.start i next) := by
  intro thread held
  have before := busy thread held
  cases thread with
  | start j =>
    change (s.start i next).starts j = .unwound
    rw [start_apply]
    split
    · rename_i same
      rcases calm with empty | ends
      · exact absurd (same ▸ empty) held
      · exact ends
    · exact before
  | exec j => exact before
  | close k => exact before

theorem Busy.exec (busy : Busy s) {j : Fin m} {next : Exec} (calm : s.hands (.exec j) = [] ∨ next = .looked) :
    Busy (s.exec j next) := by
  intro thread held
  have before := busy thread held
  cases thread with
  | start i => exact before
  | exec k =>
    simp only [Active, Transport.exec, Function.update_apply]
    split
    · rename_i same
      rcases calm with empty | looks
      · exact absurd (same ▸ empty) held
      · exact looks
    · exact before
  | close k => exact before

theorem Busy.closer (busy : Busy s) {next : Closing} (calm : s.hands (.close k) = [] ∨ next = .drained) :
    Busy (s.closer k next) := by
  intro thread held
  have before := busy thread held
  cases thread with
  | start i => exact before
  | exec j => exact before
  | close j =>
    simp only [Active, Transport.closer, Function.update_apply]
    split
    · rename_i same
      rcases calm with empty | drains
      · exact absurd (same ▸ empty) held
      · exact drains
    · exact before

def Late (s : Transport n m l) (owner : Fin n → Owner n m l) : Prop :=
  ∀ k, (s.closers k).past = true → ∀ i, owner i = .table →
    ∃ ref, s.starts i = .registered ref ∨ s.starts i = .unwinding ref

theorem Late.start (late : Late s owner) {next : Start}
    (unsettled : owner i = .table → (∃ k, (s.closers k).past = true) →
      ∃ ref, next = .registered ref ∨ next = .unwinding ref) : Late (s.start i next) owner := by
  intro k past j filed
  rw [start_apply]
  split
  · rename_i same
    exact unsettled (same ▸ filed) ⟨k, past⟩
  · exact late k past j filed

theorem Late.closer (late : Late s owner) {next : Closing}
    (past : next.past = true → (s.closers k).past = true) : Late (s.closer k next) owner := by
  intro j drained i filed
  simp only [Transport.closer, Function.update_apply] at drained
  split at drained
  · exact late k (past drained) i filed
  · exact late j drained i filed

structure Invariant (s : Transport n m l) (owner : Fin n → Owner n m l) : Prop where
  numbered : Numbered s
  flagged : Flagged s
  owned : Owned s owner
  filed : ∀ i, owner i = .table → ∃ ref, s.refs i = some ref
  busy : Busy s
  late : Late s owner

theorem opened_invariant : Invariant (opened n m l) (fun _ => .nobody) where
  numbered :=
    ⟨by simp [opened, Start.ref], by simp [opened], by simp [opened], by simp [opened],
      by intro ref low high; simp [opened] at high; omega⟩
  flagged := ⟨by simp [opened], by simp [opened]⟩
  owned :=
    ⟨by simp [opened], by simp [opened], by simp [opened], by simp [opened], by simp [opened, Start.early],
      by simp [opened], by simp [opened]⟩
  filed := by simp
  busy := by intro thread held; simp [opened] at held
  late := by intro k past; simp [opened, Closing.past] at past

end Custody

section Preservation
variable {s t : Transport n m l} {owner : Fin n → Owner n m l}

theorem Invariant.setUp (inv : Invariant s owner) (phase : s.starts i = .idle)
    (failure : Option SetUpCall) : Invariant (s.setUp i failure) owner := by
  have mine : owner i = .nobody := (inv.owned.nobody i).2 (Or.inl (by rw [phase]; rfl))
  have empty : s.hands (.start i) = [] := inv.busy.empty (by simp [Active, phase])
  have unfiled := inv.numbered.fresh i (Or.inl phase)
  have owned := inv.owned.setUp phase failure
  cases failure with
  | none =>
    exact ⟨(inv.numbered.start .started (by simp [Start.ref]) fun _ => unfiled).same rfl rfl rfl,
      inv.flagged.same rfl rfl, owned, inv.filed, inv.busy.start (Or.inl empty),
      inv.late.start fun filed => by simp [mine] at filed⟩
  | some call =>
    exact ⟨(inv.numbered.start (.returned (.error (.setUp call))) (by simp [Start.ref]) fun _ => unfiled).same
        rfl rfl rfl, inv.flagged.same rfl rfl, owned, inv.filed, inv.busy.start (Or.inl empty),
      inv.late.start fun filed => by simp [mine] at filed⟩

theorem Invariant.number (inv : Invariant s owner) (phase : s.starts i = .started) :
    Invariant (s.number i) owner := by
  have mine : owner i = .nobody := (inv.owned.nobody i).2 (Or.inl (by rw [phase]; rfl))
  have empty : s.hands (.start i) = [] := inv.busy.empty (by simp [Active, phase])
  refine ⟨inv.numbered.number phase, inv.flagged.same rfl rfl, inv.owned.number phase, ?_,
    inv.busy.start (Or.inl empty), inv.late.start fun filed => by simp [mine] at filed⟩
  intro j filed
  have other : j ≠ i := by
    rintro rfl
    simp [mine] at filed
  simpa [Transport.number, Transport.start, other] using inv.filed j filed

theorem Invariant.register (inv : Invariant s owner) (phase : s.starts i = .numbered ref) :
    Invariant (s.register i ref) (Function.update owner i .table) := by
  have own : s.refs i = some ref := inv.numbered.own i ref (by rw [phase]; rfl)
  have empty : s.hands (.start i) = [] := inv.busy.empty (by simp [Active, phase])
  refine ⟨(inv.numbered.start (.registered ref) ?_ (by simp)).same rfl rfl rfl, inv.flagged.same rfl rfl,
    inv.owned.register inv.numbered phase, ?_, inv.busy.start (Or.inl empty), ?_⟩
  · intro r same
    cases same
    exact own
  · intro j filed
    rw [Function.update_apply] at filed
    split at filed
    · rename_i same
      exact ⟨ref, same ▸ own⟩
    · exact inv.filed j filed
  · intro k past j filed
    change ∃ r, (s.start i (.registered ref)).starts j = .registered r ∨
      (s.start i (.registered ref)).starts j = .unwinding r
    rw [Function.update_apply] at filed
    rw [start_apply]
    split at filed
    · rename_i same
      exact ⟨ref, Or.inl (if_pos same)⟩
    · rename_i other
      rw [if_neg other]
      exact inv.late k past j filed

/-- The flag is set before the table is drained, so a call that finds it unset is in time. -/
theorem Invariant.checkClosed (inv : Invariant s owner) (phase : s.starts i = .registered ref) :
    Invariant (s.checkClosed i ref) owner := by
  have own : s.refs i = some ref := inv.numbered.own i ref (by rw [phase]; rfl)
  have empty : s.hands (.start i) = [] := inv.busy.empty (by simp [Active, phase])
  unfold Transport.checkClosed
  cases closed : s.closed with
  | true =>
    refine ⟨inv.numbered.start (.unwinding ref) ?_ (by simp), inv.flagged.same rfl rfl,
      inv.owned.start _ (by simp [phase]) (by rw [phase]; rfl) (by simp), inv.filed, inv.busy.start (Or.inl empty),
      inv.late.start fun _ _ => ⟨ref, Or.inr rfl⟩⟩
    intro r same
    cases same
    exact own
  | false =>
    refine ⟨inv.numbered.start (.returned (.ok ref)) ?_ (by simp), inv.flagged.same rfl rfl,
      inv.owned.start _ (by simp [phase]) (by rw [phase]; rfl) (by simp), inv.filed, inv.busy.start (Or.inl empty),
      inv.late.start ?_⟩
    · intro r same
      cases same
      exact own
    · rintro _ ⟨k, past⟩
      have set := inv.flagged.set k (by intro idle; rw [idle] at past; cases past)
      rw [closed] at set
      cases set

theorem Invariant.take (inv : Invariant s owner) (ref : Nat) (empty : s.hands thread = []) :
    ∃ next, Owned (s.take thread ref) next ∧ (∀ i, next i = .table → owner i = .table) ∧
      ∀ i, get s.execChannels ref = some i → next i ≠ .table := by
  cases found : get s.execChannels ref with
  | none =>
    refine ⟨owner, inv.owned.miss empty found, fun _ filed => filed, ?_⟩
    intro i other
    cases other
  | some i =>
    refine ⟨_, inv.owned.take empty found, ?_, ?_⟩
    · intro j filed
      rw [Function.update_apply] at filed
      split at filed
      · cases filed
      · exact filed
    · intro j same
      cases same
      simp

theorem busy_take (busy : Busy s) (thread : Thread n m l) (ref : Nat) (active : Active t thread)
    (hands : t.hands = (s.take thread ref).hands) (others : ∀ other, other ≠ thread → Active s other → Active t other) :
    Busy t := by
  intro other held
  by_cases this : other = thread
  · rw [this]
    exact active
  · have untouched : (s.take thread ref).hands other = s.hands other := Function.update_of_ne this _ _
    rw [hands, untouched] at held
    exact others other this (busy other held)

theorem Invariant.unwind (inv : Invariant s owner) (phase : s.starts i = .unwinding ref) :
    ∃ next, Invariant ((s.take (.start i) ref).start i .unwound) next := by
  have own : s.refs i = some ref := inv.numbered.own i ref (by rw [phase]; rfl)
  have empty : s.hands (.start i) = [] := inv.busy.empty (by simp [Active, phase])
  obtain ⟨next, owned, fewer, gone⟩ := inv.take ref empty
  have mine : next i ≠ .table := by
    intro filed
    exact gone i ((inv.owned.table ref i).2 ⟨fewer i filed, own⟩) filed
  refine ⟨next, (inv.numbered.start .unwound (by simp [Start.ref]) (by simp)).same rfl rfl rfl,
    inv.flagged.same rfl rfl, ?_, fun j filed => inv.filed j (fewer j filed), ?_, ?_⟩
  · exact owned.start _ (by simp [Transport.take, phase]) (by simp [Transport.take, phase, Start.early]) (by simp)
  · refine busy_take inv.busy (.start i) ref (by simp [Active, start_apply]) rfl ?_
    intro other apart active
    cases other with
    | start j =>
      have different : j ≠ i := by
        rintro rfl
        exact apart rfl
      simpa [Active, start_apply, different, Transport.take] using active
    | exec j => exact active
    | close k => exact active
  · intro k past j filed
    rw [start_apply, if_neg]
    · exact inv.late k past j (fewer j filed)
    · rintro rfl
      exact mine filed

theorem Invariant.lookUp (inv : Invariant s owner) {j : Fin m} (phase : s.execs j = .idle) (ref : Nat) :
    ∃ next, Invariant ((s.take (.exec j) ref).exec j .looked) next := by
  have empty : s.hands (.exec j) = [] := inv.busy.empty (by simp [Active, phase])
  obtain ⟨next, owned, fewer, _⟩ := inv.take ref empty
  refine ⟨next, inv.numbered.same rfl rfl rfl, inv.flagged.same rfl rfl, owned.same rfl rfl rfl rfl rfl rfl,
    fun i filed => inv.filed i (fewer i filed), ?_, fun k past i filed => inv.late k past i (fewer i filed)⟩
  refine busy_take inv.busy (.exec j) ref (by simp [Active, Transport.exec]) rfl ?_
  intro other apart active
  cases other with
  | start i => exact active
  | exec i =>
    have different : i ≠ j := by
      rintro rfl
      exact apart rfl
    simpa [Active, Transport.exec, different, Transport.take] using active
  | close k => exact active

theorem Invariant.closer (inv : Invariant s owner) {next : Closing} (closed : s.closed = true)
    (won : (s.closers k).won = true → next.won = true) (past : next.past = true → (s.closers k).past = true)
    (calm : s.hands (.close k) = []) : Invariant (s.closer k next) owner :=
  ⟨inv.numbered.same rfl rfl rfl, inv.flagged.closer _ closed won, inv.owned.same rfl rfl rfl rfl rfl rfl, inv.filed,
    inv.busy.closer (Or.inl calm), inv.late.closer past⟩

theorem Invariant.won (inv : Invariant s owner) (phase : s.closers k = .idle) :
    Invariant ({ s with closed := true }.closer k .flagged) owner := by
  have empty : s.hands (.close k) = [] := inv.busy.empty (by simp [Active, phase])
  refine ⟨inv.numbered.same rfl rfl rfl, flagged_won k, inv.owned.same rfl rfl rfl rfl rfl rfl, inv.filed,
    inv.busy.closer (Or.inl empty), ?_⟩
  exact inv.late.closer (by simp [Closing.past])

theorem Invariant.drain (inv : Invariant s owner) (phase : s.closers k = .streamLocalClosed) :
    Invariant (s.drain k) (fun i => if owner i = .table then .hands (.close k) else owner i) := by
  have empty : s.hands (.close k) = [] := inv.busy.empty (by simp [Active, phase])
  have closed : s.closed = true := inv.flagged.running phase (by simp)
  have emptied : ∀ i, (if owner i = .table then Owner.hands (.close k) else owner i) ≠ .table := by
    intro i
    split <;> simp_all
  refine ⟨inv.numbered.same rfl rfl rfl,
    (inv.flagged.closer (k := k) .drained closed (by simp [Closing.won])).same rfl rfl,
    inv.owned.drain empty inv.filed, fun i filed => absurd filed (emptied i), ?_,
    fun j past i filed => absurd filed (emptied i)⟩
  intro thread held
  cases thread with
  | start i => exact inv.busy (.start i) (by simpa [Transport.drain, Transport.closer] using held)
  | exec j => exact inv.busy (.exec j) (by simpa [Transport.drain, Transport.closer] using held)
  | close j =>
    by_cases same : j = k
    · simp [Active, Transport.drain, Transport.closer, same]
    · have before := inv.busy (.close j) (by simpa [Transport.drain, Transport.closer, same] using held)
      simpa [Active, Transport.drain, Transport.closer, same] using before

theorem Invariant.closeHeld (inv : Invariant s owner) {rest : List (Fin n)} (held : s.hands thread = i :: rest) :
    Invariant (s.closeHeld thread i rest) (Function.update owner i .closed) := by
  have fewer : ∀ j, Function.update owner i .closed j = .table → owner j = .table := by
    intro j filed
    rw [Function.update_apply] at filed
    split at filed
    · cases filed
    · exact filed
  refine ⟨inv.numbered.same rfl rfl rfl, inv.flagged.same rfl rfl, inv.owned.closeHeld held,
    fun j filed => inv.filed j (fewer j filed), ?_, fun k past j filed => inv.late k past j (fewer j filed)⟩
  intro other still
  refine inv.busy other ?_
  by_cases this : other = thread
  · rw [this, held]
    simp
  · simpa [Transport.closeHeld, this] using still

theorem Invariant.step (inv : Invariant s owner) {target : Fin m → Nat} {a : Action n m l}
    (moved : step target s a = some t) : ∃ next, Invariant t next := by
  cases step_move moved with
  | setUp phase => exact ⟨_, inv.setUp phase _⟩
  | number phase => exact ⟨_, inv.number phase⟩
  | register phase => exact ⟨_, inv.register phase⟩
  | checkClosed phase => exact ⟨_, inv.checkClosed phase⟩
  | unwind phase => exact inv.unwind phase
  | lookUp phase => exact inv.lookUp phase _
  | lost phase set =>
    exact ⟨_, inv.closer set (by simp [phase, Closing.won]) (by simp [Closing.past])
      (inv.busy.empty (by simp [Active, phase]))⟩
  | won phase unset => exact ⟨_, inv.won phase⟩
  | closeSession phase =>
    exact ⟨_, inv.closer (inv.flagged.running phase (by simp)) (by simp [Closing.won]) (by simp [Closing.past])
      (inv.busy.empty (by simp [Active, phase]))⟩
  | closeStreamLocal phase =>
    exact ⟨_, inv.closer (inv.flagged.running phase (by simp)) (by simp [Closing.won]) (by simp [Closing.past])
      (inv.busy.empty (by simp [Active, phase]))⟩
  | drain phase => exact ⟨_, inv.drain phase⟩
  | closeHeld held => exact ⟨_, inv.closeHeld held⟩
  | @finishStart i empty phase =>
    refine ⟨owner, inv.numbered.start _ (by simp [Start.ref]) (by simp), inv.flagged.same rfl rfl,
      inv.owned.start _ (by simp [phase]) (by rw [phase]; rfl) (by simp), inv.filed, inv.busy.start (Or.inl empty),
      inv.late.start ?_⟩
    rintro filed ⟨k, past⟩
    obtain ⟨ref, still⟩ := inv.late k past i filed
    simp [phase] at still
  | finishExec empty phase =>
    exact ⟨owner, inv.numbered.same rfl rfl rfl, inv.flagged.same rfl rfl, inv.owned.same rfl rfl rfl rfl rfl rfl,
      inv.filed, inv.busy.exec (Or.inl empty), inv.late⟩
  | finishClose empty phase =>
    exact ⟨_, inv.closer (inv.flagged.running phase (by simp)) (by simp [Closing.won])
      (by simp [phase, Closing.past]) empty⟩

end Preservation

section Safety
variable {target : Fin m → Nat} {s : Transport n m l} {owner : Fin n → Owner n m l}

structure Transport.Done (s : Transport n m l) : Prop where
  starts : ∀ i, s.starts i = .idle ∨ ∃ result, s.starts i = .returned result
  execs : ∀ j, s.execs j = .idle ∨ s.execs j = .returned
  closers : ∀ k, s.closers k = .idle ∨ ∃ won, s.closers k = .returned won
  closed : ∃ k won, s.closers k = .returned won

/-- References are distinct and no larger than the number of calls, a channel is closed at
    most once through the table, and in the end every started session is closed and the
    table is empty. -/
structure Transport.Safe (s : Transport n m l) : Prop where
  distinct : ∀ i j ref, s.refs i = some ref → s.refs j = some ref → i = j
  returned : ∀ i ref, s.starts i = .returned (.ok ref) → s.refs i = some ref
  small : ∀ i ref, s.refs i = some ref → 1 ≤ ref ∧ ref ≤ n
  once : ∀ i, s.closes i ≤ 1
  ended : s.Done → (∀ i, s.sessions i = .started → s.closes i = 1) ∧ values s.execChannels = []

theorem Invariant.inactive (inv : Invariant s owner) (done : s.Done) (thread : Thread n m l) :
    s.hands thread = [] := by
  refine inv.busy.empty ?_
  cases thread with
  | start i => rcases done.starts i with idle | ⟨result, back⟩ <;> simp [Active, *]
  | exec j => rcases done.execs j with idle | back <;> simp [Active, *]
  | close k => rcases done.closers k with idle | ⟨won, back⟩ <;> simp [Active, *]

theorem Invariant.drained (inv : Invariant s owner) (done : s.Done) : ∃ k, (s.closers k).past = true := by
  obtain ⟨k, won, back⟩ := done.closed
  obtain ⟨j, set⟩ := inv.flagged.winner (inv.flagged.running back (by simp))
  refine ⟨j, ?_⟩
  rcases done.closers j with idle | ⟨won, back⟩
  · rw [idle] at set
    cases set
  · rw [back] at set ⊢
    cases won with
    | false => cases set
    | true => rfl

theorem Invariant.safe (inv : Invariant s owner) : s.Safe := by
  refine ⟨inv.numbered.distinct, fun i ref back => inv.numbered.own i ref (by rw [back]; rfl), ?_, ?_, ?_⟩
  · intro i ref given
    have bound := inv.numbered.bound i ref given
    have small := inv.numbered.small
    omega
  · intro i
    rw [inv.owned.closes i]
    split <;> omega
  · intro done
    obtain ⟨k, past⟩ := inv.drained done
    have unfiled : ∀ i, owner i ≠ .table := by
      intro i filed
      obtain ⟨ref, still⟩ := inv.late k past i filed
      rcases done.starts i with idle | ⟨result, back⟩
      · simp [idle] at still
      · simp [back] at still
    refine ⟨?_, ?_⟩
    · intro i started
      have taken : owner i ≠ .nobody := by
        intro free
        rcases (inv.owned.nobody i).1 free with early | aborted
        · rcases done.starts i with idle | ⟨result, back⟩
          · rw [inv.owned.unopened i idle] at started
            cases started
          · rw [back] at early
            cases early
        · rw [aborted] at started
          cases started
      rw [inv.owned.closes i, if_pos]
      cases here : owner i with
      | nobody => exact absurd here taken
      | table => exact absurd here (unfiled i)
      | hands thread =>
        have held := (inv.owned.hands thread i).2 here
        rw [inv.inactive done thread] at held
        cases held
      | closed => rfl
    · rw [List.eq_nil_iff_forall_not_mem]
      intro i member
      obtain ⟨ref, found⟩ := mem_values.1 member
      exact unfiled i ((inv.owned.table ref i).1 found).1

/-- Every state of every interleaving is safe: exec channels do not outlive the transport. -/
theorem exec_channels_safe (target : Fin m → Nat) (as : List (Action n m l)) (s : Transport n m l)
    (reached : run (step target) (opened n m l) as = some s) : s.Safe := by
  obtain ⟨owner, inv⟩ : ∃ owner, Invariant s owner :=
    run_invariant (I := fun s => ∃ owner, Invariant s owner) ⟨_, opened_invariant⟩
      (fun _ _ _ ⟨_, inv⟩ moved => inv.step moved) reached
  exact inv.safe

def lateRegistration (i : Fin 1) : List (Action 1 1 1) :=
  [.setUp i none, .number i, .compareAndSwap i, .closeSession i, .closeStreamLocal i, .drain i, .finish (.close i),
    .register i, .lookUp i, .finish (.exec i), .checkClosed i, .unwind i, .closeHeld (.start i), .finish (.start i)]

theorem late_registration_safe :
    ∃ s, run (step fun _ => 7) (opened 1 1 1) (lateRegistration 0) = some s ∧ s.Done ∧ s.Safe ∧ s.closes 0 = 1 ∧
      values s.execChannels = [] := by
  have ran : (run (step fun _ => 7) (opened 1 1 1) (lateRegistration 0)).map
      (fun s => (s.starts 0, s.execs 0, s.closers 0, s.sessions 0)) =
      some (.returned (.error .transportClosed), .returned, .returned true, .started) := by decide +kernel
  obtain ⟨s, reached, facts⟩ := Option.map_eq_some_iff.1 ran
  simp only [Prod.mk.injEq] at facts
  obtain ⟨start, exec, closer, session⟩ := facts
  have safe := exec_channels_safe _ _ _ reached
  have done : s.Done := by
    refine ⟨fun i => Or.inr ⟨.error .transportClosed, ?_⟩, fun j => Or.inr ?_, fun k => Or.inr ⟨true, ?_⟩,
      0, true, closer⟩
    · rw [Subsingleton.elim i 0, start]
    · rw [Subsingleton.elim j 0, exec]
    · rw [Subsingleton.elim k 0, closer]
  exact ⟨s, reached, done, safe, (safe.ended done).1 0 session, (safe.ended done).2⟩

end Safety

end ExecChannels
