import RootShell.FilledReads
import RootShell.Interleaving

/-!
The output of the server on its way past the expect rules: captureOutput and wrapOutput of
tssh/expect.go, run together with the waiter that takes chunks from the channel and with
the cancellation of its context. The channel is left to the writer only where captureOutput
ends without an error.
-/
namespace ExpectHandover
open ByteLines FilledReads Interleaving

def bufferSize : Nat := 32 * 1024

def channelSize : Nat := 10

inductive Rest
  | drain (buf : Option Bytes)
  | copy
  | stop
  deriving DecidableEq

inductive Phase
  | check
  | reading
  | offering (buf : Bytes) (err : Option ReadError)
  | looking (err : Option ReadError)
  | draining (buf : Option Bytes)
  | writing (data : Bytes) (rest : Rest)
  | copying
  | over (failed : Bool)
  deriving DecidableEq

/-- The chunks read so far are kept in `log`, with a mark on those the waiter has received;
    `taken` of them have left the channel or the hands of captureOutput. -/
structure Handover where
  phase : Phase
  queue : List Bytes
  cancelled : Bool
  waiting : Bool
  log : List (Bytes × Bool)
  taken : Nat
  written : Bytes

def start : Handover := ⟨.check, [], false, true, [], 0, []⟩

inductive Action
  | check
  | read (data : Bytes) (err : Option ReadError)
  | offer
  | giveUp
  | look
  | next
  | write
  | copy (data : Bytes) (err : Option ReadError)
  | receive
  | timeout
  | leave
  deriving DecidableEq

namespace Handover
variable (s : Handover)

def logged (data : Bytes) : List (Bytes × Bool) := if data = [] then s.log else s.log ++ [(data, false)]

def receive : List Bytes → Option Handover
  | [] => none
  | _ :: queue =>
    some { s with queue := queue, log := s.log.modify s.taken fun c => (c.1, true), taken := s.taken + 1 }

/-- The loop over the channel, which has been closed, and the chunk left over behind it. -/
def next (buf : Option Bytes) : Handover :=
  match s.queue, buf with
  | data :: queue, _ => { s with queue := queue, taken := s.taken + 1, phase := .writing data (.drain buf) }
  | [], some data => { s with taken := s.taken + 1, phase := .writing data .copy }
  | [], none => { s with phase := .copying }

def resume : Rest → Phase
  | .drain buf => .draining buf
  | .copy => .copying
  | .stop => .over false

def copy (data : Bytes) (err : Option ReadError) : Handover :=
  if data = [] then { s with phase := if err.isSome then .over false else .copying }
  else
    { s with
      log := s.log ++ [(data, false)], taken := s.taken + 1,
      phase := .writing data (if err.isSome then .stop else .copy) }

def unreceived : Bytes := (s.log.filter fun c => !c.2).flatMap Prod.fst

def inHand : Phase → Bytes
  | .writing data _ => data
  | _ => []

def leftOver : Phase → List Bytes
  | .offering buf _ => [buf]
  | .draining buf => buf.toList
  | .writing _ (.drain buf) => buf.toList
  | _ => []

def held : Bytes := inHand s.phase ++ (s.queue ++ leftOver s.phase).flatten

end Handover

open Handover

def step (s : Handover) : Action → Option Handover
  | .check =>
    match s.phase with
    | .check => some { s with phase := if s.cancelled then .draining none else .reading }
    | _ => none
  | .read data err =>
    match s.phase with
    | .reading =>
      if data.length ≤ bufferSize then
        some { s with log := s.logged data, phase := if data = [] then .looking err else .offering data err }
      else none
    | _ => none
  | .offer =>
    match s.phase with
    | .offering buf err =>
      if s.queue.length < channelSize then some { s with queue := s.queue ++ [buf], phase := .looking err } else none
    | _ => none
  | .giveUp =>
    match s.phase with
    | .offering buf _ => if s.cancelled then some { s with phase := .draining (some buf) } else none
    | _ => none
  | .look =>
    match s.phase with
    | .looking err => some { s with phase := if err.isSome then .over true else .check }
    | _ => none
  | .next =>
    match s.phase with
    | .draining buf => some (s.next buf)
    | _ => none
  | .write =>
    match s.phase with
    | .writing data rest => some { s with written := s.written ++ data, phase := resume rest }
    | _ => none
  | .copy data err =>
    match s.phase with
    | .copying => some (s.copy data err)
    | _ => none
  | .receive => if s.waiting then s.receive s.queue else none
  | .timeout => some { s with cancelled := true }
  | .leave => if s.waiting then some { s with waiting := false, cancelled := true } else none

variable {data : Bytes} {err : Option ReadError}

section Steps
variable {s t : Handover}

theorem check_taken (taken : step s .check = some t) :
    s.phase = .check ∧ t = { s with phase := if s.cancelled then .draining none else .reading } := by
  cases at_phase : s.phase <;> simp only [step, at_phase] at taken <;> cases taken
  exact ⟨rfl, rfl⟩

theorem read_taken (taken : step s (.read data err) = some t) :
    s.phase = .reading ∧
      t = { s with log := s.logged data, phase := if data = [] then .looking err else .offering data err } := by
  cases at_phase : s.phase <;> simp only [step, at_phase] at taken <;> try cases taken
  exact ⟨rfl, (guarded taken).2.symm⟩

theorem offer_taken (taken : step s .offer = some t) :
    ∃ buf err, s.phase = .offering buf err ∧ t = { s with queue := s.queue ++ [buf], phase := .looking err } := by
  cases at_phase : s.phase <;> simp only [step, at_phase] at taken <;> try cases taken
  exact ⟨_, _, rfl, (guarded taken).2.symm⟩

theorem give_up_taken (taken : step s .giveUp = some t) :
    ∃ buf err, s.phase = .offering buf err ∧ t = { s with phase := .draining (some buf) } := by
  cases at_phase : s.phase <;> simp only [step, at_phase] at taken <;> try cases taken
  exact ⟨_, _, rfl, (guarded taken).2.symm⟩

theorem look_taken (taken : step s .look = some t) :
    ∃ err, s.phase = .looking err ∧ t = { s with phase := if err.isSome then .over true else .check } := by
  cases at_phase : s.phase <;> simp only [step, at_phase] at taken <;> cases taken
  exact ⟨_, rfl, rfl⟩

theorem next_taken (taken : step s .next = some t) : ∃ buf, s.phase = .draining buf ∧ t = s.next buf := by
  cases at_phase : s.phase <;> simp only [step, at_phase] at taken <;> cases taken
  exact ⟨_, rfl, rfl⟩

theorem write_taken (taken : step s .write = some t) :
    ∃ data rest, s.phase = .writing data rest ∧ t = { s with written := s.written ++ data, phase := resume rest } := by
  cases at_phase : s.phase <;> simp only [step, at_phase] at taken <;> cases taken
  exact ⟨_, _, rfl, rfl⟩

theorem copy_taken (taken : step s (.copy data err) = some t) : s.phase = .copying ∧ t = s.copy data err := by
  cases at_phase : s.phase <;> simp only [step, at_phase] at taken <;> cases taken
  exact ⟨rfl, rfl⟩

theorem receive_taken (taken : step s .receive = some t) :
    ∃ data queue, s.queue = data :: queue ∧
      t = { s with queue := queue, log := s.log.modify s.taken fun c => (c.1, true), taken := s.taken + 1 } := by
  cases full : s.queue with
  | nil => simp [step, full, Handover.receive] at taken
  | cons data queue =>
    simp only [step, full, Handover.receive] at taken
    exact ⟨data, queue, rfl, (guarded taken).2.symm⟩

end Steps

section Accounting

def unreceivedIn (log : List (Bytes × Bool)) : Bytes := (log.filter fun c => !c.2).flatMap Prod.fst

theorem unreceived_append (log more : List (Bytes × Bool)) :
    unreceivedIn (log ++ more) = unreceivedIn log ++ unreceivedIn more := by
  simp [unreceivedIn]

theorem unreceived_held (chunks : List Bytes) : unreceivedIn (chunks.map fun c => (c, false)) = chunks.flatten := by
  induction chunks with
  | nil => rfl
  | cons c chunks ih =>
    rw [List.map_cons, List.flatten_cons, ← ih]
    rfl

def Past : Phase → Prop
  | .copying => True
  | .writing _ .copy => True
  | .writing _ .stop => True
  | .over false => True
  | _ => False

/-- The chunks up to the first that is still held, `front`, have been received or written, but
    for the one in hand; the others are where they were put, in order. -/
structure Accounts (s : Handover) (front : List (Bytes × Bool)) : Prop where
  log : s.log = front ++ (s.queue ++ leftOver s.phase).map fun c => (c, false)
  count : front.length = s.taken
  paid : unreceivedIn front = s.written ++ inHand s.phase
  filled : ∀ c ∈ s.queue ++ leftOver s.phase, c ≠ []
  drained : Past s.phase → s.queue = []

variable {s t : Handover} {front : List (Bytes × Bool)}

theorem Accounts.move (accounts : Accounts s front) {p : Phase} (left : leftOver p = leftOver s.phase)
    (hand : inHand p = inHand s.phase) (drained : Past p → s.queue = []) (cancelled waiting : Bool) :
    Accounts ⟨p, s.queue, cancelled, waiting, s.log, s.taken, s.written⟩ front where
  log := by rw [left]; exact accounts.log
  count := accounts.count
  paid := by rw [hand]; exact accounts.paid
  filled := by rw [left]; exact accounts.filled
  drained := drained

theorem Accounts.logged (accounts : Accounts s front) (at_phase : s.phase = .reading)
    (some : data ≠ []) (err : Option ReadError) :
    Accounts { s with log := s.log ++ [(data, false)], phase := .offering data err } front where
  log := by
    rw [accounts.log, at_phase]
    simp [leftOver]
  count := accounts.count
  paid := by rw [accounts.paid, at_phase]; rfl
  filled := by
    have before := accounts.filled
    rw [at_phase] at before
    intro c member
    rcases List.mem_append.1 member with queued | last
    · exact before c (List.mem_append_left _ queued)
    · rw [List.mem_singleton.1 last]
      exact some
  drained := nofun

theorem Accounts.offered (accounts : Accounts s front) {buf : Bytes} (at_phase : s.phase = .offering buf err) :
    Accounts { s with queue := s.queue ++ [buf], phase := .looking err } front where
  log := by
    rw [accounts.log, at_phase]
    simp [leftOver]
  count := accounts.count
  paid := by rw [accounts.paid, at_phase]; rfl
  filled := by
    have before := accounts.filled
    rw [at_phase] at before
    simpa [leftOver] using before
  drained := nofun

theorem Accounts.received (accounts : Accounts s front) {queue : List Bytes} (full : s.queue = data :: queue) :
    Accounts { s with queue := queue, log := s.log.modify s.taken fun c => (c.1, true), taken := s.taken + 1 }
      (front ++ [(data, true)]) where
  log := by
    have split : s.log = front ++ (data, false) :: (queue ++ leftOver s.phase).map fun c => (c, false) := by
      rw [accounts.log, full]
      simp
    simp only [split, ← accounts.count]
    rw [List.modify_eq_take_drop, List.take_left, List.drop_left, List.append_assoc]
    rfl
  count := by simp [accounts.count]
  paid := by
    rw [unreceived_append, accounts.paid]
    exact List.append_nil _
  filled := fun c member => accounts.filled c (by rw [full]; exact List.mem_cons_of_mem _ member)
  drained past := by
    have empty := accounts.drained past
    rw [full] at empty
    cases empty

theorem Accounts.next (accounts : Accounts s front) {buf : Option Bytes} (at_phase : s.phase = .draining buf) :
    ∃ front', Accounts (s.next buf) front' := by
  have log := accounts.log
  have paid := accounts.paid
  have filled := accounts.filled
  rw [at_phase] at log paid filled
  unfold Handover.next
  split
  · rename_i data queue full
    refine ⟨front ++ [(data, false)], ?_, by simp [accounts.count], ?_, ?_, nofun⟩
    · simp [log, full, leftOver]
    · rw [unreceived_append, paid]
      simp [inHand, unreceivedIn]
    · intro c member
      exact filled c (by rw [full]; exact List.mem_cons_of_mem _ member)
  · rename_i data empty
    refine ⟨front ++ [(data, false)], ?_, by simp [accounts.count], ?_, ?_, fun _ => empty⟩
    · simp [log, empty, leftOver]
    · rw [unreceived_append, paid]
      simp [inHand, unreceivedIn]
    · simp [empty, leftOver]
  · rename_i empty
    refine ⟨front, ?_⟩
    exact accounts.move (by rw [at_phase]; rfl) (by rw [at_phase]; rfl) (fun _ => empty) s.cancelled s.waiting

theorem Accounts.written (accounts : Accounts s front) {rest : Rest} (at_phase : s.phase = .writing data rest) :
    Accounts { s with written := s.written ++ data, phase := resume rest } front := by
  have log := accounts.log
  have paid := accounts.paid
  have filled := accounts.filled
  have drained := accounts.drained
  rw [at_phase] at log paid filled drained
  cases rest with
  | drain buf => exact ⟨log, accounts.count, by rw [paid]; simp [inHand, resume], filled, nofun⟩
  | copy => exact ⟨log, accounts.count, by rw [paid]; simp [inHand, resume], filled, drained⟩
  | stop => exact ⟨log, accounts.count, by rw [paid]; simp [inHand, resume], filled, drained⟩

theorem Accounts.copied (accounts : Accounts s front) (at_phase : s.phase = .copying) (data : Bytes)
    (err : Option ReadError) : ∃ front', Accounts (s.copy data err) front' := by
  have empty := accounts.drained (by rw [at_phase]; trivial)
  unfold Handover.copy
  split
  · refine ⟨front, accounts.move ?_ ?_ (fun _ => empty) s.cancelled s.waiting⟩
    · rw [at_phase]
      cases err <;> rfl
    · rw [at_phase]
      cases err <;> rfl
  · have log := accounts.log
    have paid := accounts.paid
    rw [at_phase] at log paid
    refine ⟨front ++ [(data, false)], ?_, by simp [accounts.count], ?_, ?_, fun _ => empty⟩
    · cases err <;> simp [log, empty, leftOver]
    · rw [unreceived_append, paid]
      simp [inHand, unreceivedIn]
    · cases err <;> simp [empty, leftOver]

theorem step_accounts {a : Action} (accounts : Accounts s front) (taken : step s a = some t) :
    ∃ front', Accounts t front' := by
  cases a with
  | check =>
    obtain ⟨at_phase, rfl⟩ := check_taken taken
    refine ⟨front, accounts.move ?_ ?_ ?_ s.cancelled s.waiting⟩ <;> cases s.cancelled <;>
      simp [at_phase, leftOver, inHand, Past]
  | read data err =>
    obtain ⟨at_phase, rfl⟩ := read_taken taken
    refine ⟨front, ?_⟩
    by_cases empty : data = []
    · simp only [Handover.logged, if_pos empty]
      exact accounts.move (by rw [at_phase]; rfl) (by rw [at_phase]; rfl) False.elim s.cancelled s.waiting
    · simp only [Handover.logged, if_neg empty]
      exact accounts.logged at_phase empty err
  | offer =>
    obtain ⟨buf, err, at_phase, rfl⟩ := offer_taken taken
    exact ⟨front, accounts.offered at_phase⟩
  | giveUp =>
    obtain ⟨buf, err, at_phase, rfl⟩ := give_up_taken taken
    exact ⟨front, accounts.move (by rw [at_phase]; rfl) (by rw [at_phase]; rfl) False.elim s.cancelled s.waiting⟩
  | look =>
    obtain ⟨err, at_phase, rfl⟩ := look_taken taken
    refine ⟨front, accounts.move ?_ ?_ ?_ s.cancelled s.waiting⟩ <;> cases err <;>
      simp [at_phase, leftOver, inHand, Past]
  | next =>
    obtain ⟨buf, at_phase, rfl⟩ := next_taken taken
    exact accounts.next at_phase
  | write =>
    obtain ⟨data, rest, at_phase, rfl⟩ := write_taken taken
    exact ⟨front, accounts.written at_phase⟩
  | copy data err =>
    obtain ⟨at_phase, rfl⟩ := copy_taken taken
    exact accounts.copied at_phase data err
  | receive =>
    obtain ⟨data, queue, full, rfl⟩ := receive_taken taken
    exact ⟨_, accounts.received full⟩
  | timeout =>
    cases taken
    exact ⟨front, accounts.move rfl rfl accounts.drained true s.waiting⟩
  | leave =>
    obtain ⟨_, rfl⟩ := guarded taken
    exact ⟨front, accounts.move rfl rfl accounts.drained true false⟩

theorem run_accounts {actions : List Action} (reached : run step start actions = some s) :
    ∃ front, Accounts s front := by
  have first : Accounts start [] := ⟨rfl, rfl, rfl, by simp [start, leftOver], False.elim⟩
  refine run_invariant (I := fun s => ∃ front, Accounts s front) ⟨[], first⟩ ?_ reached
  rintro m a t ⟨front, accounts⟩ taken
  exact step_accounts accounts taken

theorem Accounts.conserved (accounts : Accounts s front) : s.unreceived = s.written ++ s.held := by
  change unreceivedIn s.log = _
  rw [accounts.log, unreceived_append, unreceived_held, accounts.paid, List.append_assoc]
  rfl

theorem Accounts.complete (accounts : Accounts s front) (past : s.phase = .copying ∨ s.phase = .over false) :
    s.written = s.unreceived := by
  have empty : s.queue = [] := accounts.drained (by rcases past with at_phase | at_phase <;> rw [at_phase] <;> trivial)
  rw [accounts.conserved, held, empty]
  rcases past with at_phase | at_phase <;> rw [at_phase] <;> simp [inHand, leftOver]

theorem Accounts.failed_iff (accounts : Accounts s front) (at_phase : s.phase = .over true) :
    s.written = s.unreceived ↔ s.queue = [] := by
  have rest : s.held = s.queue.flatten := by
    rw [held, at_phase]
    simp [inHand, leftOver]
  rw [accounts.conserved, rest, eq_comm, List.append_right_eq_self, List.flatten_eq_nil_iff]
  constructor
  · intro empty
    refine List.eq_nil_iff_forall_not_mem.2 fun c member => ?_
    exact accounts.filled c (List.mem_append_left _ member) (empty c member)
  · intro empty c member
    rw [empty] at member
    cases member

end Accounting

section Runs

def failing : Phase → Bool
  | .looking (some _) => true
  | _ => false

def EndsDrained (s : Handover) (a : Action) : Prop := a = .look → failing s.phase = true → s.queue = []

instance decidableEndsDrained (s : Handover) (a : Action) : Decidable (EndsDrained s a) :=
  inferInstanceAs (Decidable (a = .look → failing s.phase = true → s.queue = []))

theorem drained_step {s t : Handover} {a : Action} (kept : s.phase = .over true → s.queue = []) (ends : EndsDrained s a)
    (taken : step s a = some t) : t.phase = .over true → t.queue = [] := by
  cases a with
  | check =>
    obtain ⟨_, rfl⟩ := check_taken taken
    cases s.cancelled <;> simp
  | read data err =>
    obtain ⟨_, rfl⟩ := read_taken taken
    by_cases empty : data = [] <;> simp [empty]
  | offer =>
    obtain ⟨buf, err, _, rfl⟩ := offer_taken taken
    simp
  | giveUp =>
    obtain ⟨buf, err, _, rfl⟩ := give_up_taken taken
    simp
  | look =>
    obtain ⟨err, at_phase, rfl⟩ := look_taken taken
    cases err with
    | none => simp
    | some err => exact fun _ => ends rfl (by rw [at_phase]; rfl)
  | next =>
    obtain ⟨buf, _, rfl⟩ := next_taken taken
    unfold Handover.next
    split <;> simp
  | write =>
    obtain ⟨data, rest, _, rfl⟩ := write_taken taken
    cases rest <;> simp [resume]
  | copy data err =>
    obtain ⟨_, rfl⟩ := copy_taken taken
    unfold Handover.copy
    split
    · cases err <;> simp
    · simp
  | receive =>
    obtain ⟨data, queue, full, rfl⟩ := receive_taken taken
    intro at_phase
    rw [kept at_phase] at full
    cases full
  | timeout =>
    cases taken
    exact kept
  | leave =>
    obtain ⟨_, rfl⟩ := guarded taken
    exact kept

def Handing (a : Action) : Prop := a = .next ∨ a = .write

theorem drain_completes {buf : Option Bytes} (s : Handover) (at_phase : s.phase = .draining buf) :
    ∃ actions t, (∀ a ∈ actions, Handing a) ∧ run step s actions = some t ∧ t.phase = .copying := by
  induction full : s.queue generalizing s with
  | nil =>
    cases buf with
    | none =>
      refine ⟨[.next], { s with phase := .copying }, by simp [Handing], ?_, rfl⟩
      simp only [run_cons, step, at_phase, Handover.next, full]
      rfl
    | some data =>
      refine ⟨[.next, .write], { s with taken := s.taken + 1, written := s.written ++ data, phase := .copying },
        by simp [Handing], ?_, rfl⟩
      simp only [run_cons, step, at_phase, Handover.next, full, Option.bind_some, resume]
      rfl
  | cons data queue ih =>
    obtain ⟨actions, t, handing, reached, there⟩ := ih
      { s with queue := queue, taken := s.taken + 1, written := s.written ++ data, phase := .draining buf } rfl rfl
    refine ⟨.next :: .write :: actions, t, by simpa [Handing] using handing, ?_, there⟩
    rw [← reached]
    simp only [run_cons, step, at_phase, Handover.next, full, Option.bind_some, resume]

end Runs

/-- What the waiter did not receive has been written, in order, or is still held. When wrapOutput
    has returned everything has been written exactly when the channel is empty; so it is in every
    run in which captureOutput meets the end of the stream, or an error, with an empty channel
    only. -/
theorem hand_over_exact (actions : List Action) (s : Handover) (reached : run step start actions = some s) :
    s.unreceived = s.written ++ s.held ∧
      (s.phase = .copying → s.written = s.unreceived) ∧
      (∀ failed, s.phase = .over failed → (s.written = s.unreceived ↔ s.queue = [])) ∧
      (∀ buf, s.phase = .draining buf → ∃ more t, (∀ a ∈ more, Handing a) ∧ run step s more = some t ∧
        t.phase = .copying ∧ t.written = t.unreceived) ∧
      (Along step EndsDrained start actions → (∃ failed, s.phase = .over failed) → s.written = s.unreceived) := by
  obtain ⟨front, accounts⟩ := run_accounts reached
  refine ⟨accounts.conserved, fun copying => accounts.complete (Or.inl copying), ?_, ?_, ?_⟩
  · intro failed at_phase
    cases failed with
    | true => exact accounts.failed_iff at_phase
    | false =>
      have empty := accounts.drained (by rw [at_phase]; trivial)
      exact iff_of_true (accounts.complete (Or.inr at_phase)) empty
  · intro buf at_phase
    obtain ⟨more, t, handing, later, there⟩ := drain_completes s at_phase
    have whole : run step start (actions ++ more) = some t := by rw [run_append, reached, Option.bind_some, later]
    obtain ⟨_, arrived⟩ := run_accounts whole
    exact ⟨more, t, handing, later, there, arrived.complete (Or.inl there)⟩
  · rintro along ⟨failed, at_phase⟩
    cases failed with
    | false => exact accounts.complete (Or.inr at_phase)
    | true =>
      have kept := run_induct (P := fun _ s => s.phase = .over true → s.queue = []) (by simp [start])
        (fun _ m a t _ before ends taken => drained_step before ends taken) along reached
      exact (accounts.failed_iff at_phase).2 (kept at_phase)

def closedBehindPrompt : List Action :=
  [.check, .read (text "login:") none, .offer, .look, .receive, .check, .read (text "bye") none, .offer, .look,
   .check, .read [] (some .eof), .look, .leave]

theorem queued_output_lost :
    (run step start closedBehindPrompt).map (fun s => (s.phase, s.written, s.unreceived, s.queue)) =
      some (.over true, [], text "bye", [text "bye"]) := by
  decide +kernel

def leftBeforeEnd : List Action :=
  [.check, .read (text "login:") none, .offer, .look, .receive, .check, .read (text "bye") none, .offer, .look,
   .leave, .check, .next, .write, .next, .copy [] (some .eof)]

theorem queued_output_written :
    ∃ s, run step start leftBeforeEnd = some s ∧ s.phase = .over false ∧ s.written = s.unreceived ∧
      s.unreceived = text "bye" := by
  have reached : ∃ s, run step start leftBeforeEnd = some s ∧ s.phase = .over false ∧ s.unreceived = text "bye" :=
    ⟨_, rfl, rfl, by decide +kernel⟩
  obtain ⟨s, there, ended, rest⟩ := reached
  refine ⟨s, there, ended, ?_, rest⟩
  exact (hand_over_exact leftBeforeEnd s there).2.2.2.2 (by decide +kernel) ⟨false, ended⟩

end ExpectHandover
