import RootShell.Interleaving

/-!
Relays between two connections: each direction is copied by a thread of its own, in pieces that
the reads and writes choose, and a controller closes both connections when its policy says so.
A direction ends at the end of its source, on a failure, or because it was cut off by the close.
-/
namespace DuplexRelays
open Interleaving
universe u
variable {α : Type u}

inductive Dir where
  | up
  | down
  deriving DecidableEq

def Dir.other : Dir → Dir
  | .up => .down
  | .down => .up

inductive Status where
  | running
  | finished
  | failed
  | cut
  deriving DecidableEq

/-- A direction: what the source has still to give before its end, what has been read and not written,
    what has been written, and the size of the last piece read. -/
structure Pump (α : Type u) where
  unread : List α
  held : List α
  delivered : List α
  chunk : Nat
  counted : Nat
  status : Status

inductive Counting where
  | reads
  | writes
  | chunks
  deriving DecidableEq

/-- How a relay is ended. A direction that ends may close both connections itself; the controller does once
    the state of the two directions, the context and its timer allow it; and a cancelled context may stop
    a direction without a close. -/
structure Policy where
  counting : Dir → Counting
  finishCloses : Dir → Bool
  failureCloses : Dir → Bool
  closes : (upDone downDone cancelled expired : Bool) → Bool
  lasts : ∀ u d c e u' d' c' e' : Bool, (u ≤ u') → (d ≤ d') → (c ≤ c') → (e ≤ e') → closes u d c e ≤ closes u' d' c' e'
  stopsOnCancel : Bool

structure Relay (α : Type u) where
  up : Pump α
  down : Pump α
  closed : Bool
  cancelled : Bool
  expired : Bool
  returned : Bool

inductive Action where
  | read (d : Dir) (k : Nat)
  | write (d : Dir) (k : Nat)
  | finish (d : Dir)
  | fail (d : Dir)
  | cut (d : Dir)
  | cancel
  | expire
  | close
  | return_

namespace Relay

def pump (r : Relay α) : Dir → Pump α
  | .up => r.up
  | .down => r.down

def set (r : Relay α) (p : Pump α) : Dir → Relay α
  | .up => { r with up := p }
  | .down => { r with down := p }

def done (r : Relay α) (d : Dir) : Bool := (r.pump d).status ≠ .running

end Relay

namespace Pump
variable (p : Pump α)

def read (k : Nat) (c : Counting) : Pump α :=
  { p with
    unread := p.unread.drop k
    held := p.unread.take k
    chunk := (p.unread.take k).length
    counted := if c = .reads then p.counted + (p.unread.take k).length else p.counted }

def write (k : Nat) (c : Counting) : Pump α :=
  { p with
    held := p.held.drop k
    delivered := p.delivered ++ p.held.take k
    counted :=
      match c with
      | .reads => p.counted
      | .writes => p.counted + (p.held.take k).length
      | .chunks => if p.held.length ≤ k then p.counted + p.chunk else p.counted }

def stop (why : Status) : Pump α := { p with status := why }

end Pump

def Policy.mayClose (o : Policy) (r : Relay α) : Bool := o.closes (r.done .up) (r.done .down) r.cancelled r.expired

def step (o : Policy) (r : Relay α) : Action → Option (Relay α)
  | .read d k =>
    if (r.pump d).status = .running ∧ (r.pump d).held = [] then some (r.set ((r.pump d).read k (o.counting d)) d)
    else none
  | .write d k =>
    if (r.pump d).status = .running ∧ (r.pump d).held ≠ [] then some (r.set ((r.pump d).write k (o.counting d)) d)
    else none
  | .finish d =>
    if (r.pump d).status = .running ∧ (r.pump d).held = [] ∧ (r.pump d).unread = [] then
      some { r.set ((r.pump d).stop .finished) d with closed := r.closed || o.finishCloses d }
    else none
  | .fail d =>
    if (r.pump d).status = .running then
      some { r.set ((r.pump d).stop .failed) d with closed := r.closed || o.failureCloses d }
    else none
  | .cut d =>
    if (r.pump d).status = .running ∧ (r.closed = true ∨ o.stopsOnCancel = true ∧ r.cancelled = true) then
      some (r.set ((r.pump d).stop .cut) d)
    else none
  | .cancel => some { r with cancelled := true }
  | .expire => some { r with expired := true }
  | .close => if o.mayClose r = true then some { r with closed := true } else none
  | .return_ =>
    if r.closed = true ∧ r.done .up = true ∧ r.done .down = true then some { r with returned := true } else none

def Pump.start (source : List α) : Pump α := ⟨source, [], [], 0, 0, .running⟩

def start (requests responses : List α) : Relay α :=
  ⟨.start requests, .start responses, false, false, false, false⟩

section Directions

def Counting.Fits (c : Counting) (p : Pump α) : Prop :=
  match c with
  | .reads => p.counted = p.delivered.length + p.held.length
  | .writes => p.counted = p.delivered.length
  | .chunks => p.held.length ≤ p.chunk ∧
    if p.held = [] then p.counted = p.delivered.length else p.counted + p.chunk = p.delivered.length + p.held.length

structure Pump.Sound (source : List α) (c : Counting) (p : Pump α) : Prop where
  order : p.delivered ++ p.held ++ p.unread = source
  counted : c.Fits p
  finished : p.status = .finished → p.held = [] ∧ p.unread = []

variable {source : List α} {c : Counting} {p : Pump α}

theorem sound_start (source : List α) (c : Counting) : (Pump.start source).Sound source c where
  order := rfl
  counted := by cases c <;> simp [Counting.Fits, Pump.start]
  finished ended := by cases ended

theorem Pump.Sound.read (sound : p.Sound source c) (going : p.status = .running) (free : p.held = []) (k : Nat) :
    (p.read k c).Sound source c where
  order := by
    have order := sound.order
    simp only [free, List.append_nil] at order
    simp [Pump.read, order]
  counted := by
    have counted := sound.counted
    cases c with
    | reads => simp_all [Counting.Fits, Pump.read]
    | writes => simp_all [Counting.Fits, Pump.read]
    | chunks =>
      simp only [Counting.Fits, free, if_true] at counted
      simp only [Counting.Fits, Pump.read]
      refine ⟨Nat.le_refl _, ?_⟩
      by_cases nothing : p.unread.take k = [] <;> simp [nothing, counted.2]
  finished ended := by simp [Pump.read, going] at ended

theorem Pump.Sound.write (sound : p.Sound source c) (going : p.status = .running) (some_ : p.held ≠ []) (k : Nat) :
    (p.write k c).Sound source c where
  order := by
    have order := sound.order
    simp only [Pump.write, List.append_assoc] at order ⊢
    rw [← List.append_assoc (p.held.take k), List.take_append_drop]
    exact order
  counted := by
    have counted := sound.counted
    cases c with
    | reads =>
      simp only [Counting.Fits, Pump.write, List.length_append, List.length_take, List.length_drop] at counted ⊢
      omega
    | writes =>
      simp only [Counting.Fits, Pump.write, List.length_append] at counted ⊢
      omega
    | chunks =>
      simp only [Counting.Fits, if_neg some_] at counted
      simp only [Counting.Fits, Pump.write, List.length_append, List.length_take, List.length_drop,
        List.drop_eq_nil_iff]
      refine ⟨by omega, ?_⟩
      split <;> omega
  finished ended := by simp [Pump.write, going] at ended

theorem Pump.Sound.stop (sound : p.Sound source c) {why : Status}
    (finished : why = .finished → p.held = [] ∧ p.unread = []) : (p.stop why).Sound source c :=
  ⟨sound.order, sound.counted, finished⟩

end Directions

section Runs
variable {o : Policy} {requests responses : List α} {r r' : Relay α} {d : Dir}

def source (requests responses : List α) : Dir → List α
  | .up => requests
  | .down => responses

@[simp] theorem pump_set (r : Relay α) (p : Pump α) (d : Dir) : (r.set p d).pump d = p := by cases d <;> rfl

theorem pump_set_other (r : Relay α) (p : Pump α) {e : Dir} (other : e ≠ d) : (r.set p d).pump e = r.pump e := by
  cases d <;> cases e <;> first | rfl | exact absurd rfl other

theorem pump_congr (up : r'.up = r.up) (down : r'.down = r.down) (d : Dir) : r'.pump d = r.pump d := by
  cases d
  · exact up
  · exact down

def Justified (o : Policy) (r : Relay α) : Prop :=
  (∃ d, (r.pump d).status = .finished ∧ o.finishCloses d = true) ∨
    (∃ d, (r.pump d).status = .failed ∧ o.failureCloses d = true) ∨ o.mayClose r = true

def Policy.closesOver (o : Policy) (r : Relay α) : Dir → Bool
  | .up => o.closes false (r.done .down) r.cancelled r.expired
  | .down => o.closes (r.done .up) false r.cancelled r.expired

def Overtaken (o : Policy) (r : Relay α) (d : Dir) : Prop :=
  (r.pump d.other).status = .finished ∧ o.finishCloses d.other = true ∨
    (r.pump d.other).status = .failed ∧ o.failureCloses d.other = true ∨
    o.closesOver r d = true ∨ o.stopsOnCancel = true ∧ r.cancelled = true

structure Sound (o : Policy) (requests responses : List α) (r : Relay α) : Prop where
  pumps : ∀ d, (r.pump d).Sound (source requests responses d) (o.counting d)
  cut : ∀ d, (r.pump d).status = .cut → Overtaken o r d
  closed : r.closed = true → Justified o r
  returned : r.returned = true → r.closed = true ∧ r.done .up = true ∧ r.done .down = true

structure Later (r r' : Relay α) : Prop where
  ended : ∀ d, (r.pump d).status ≠ .running → (r'.pump d).status = (r.pump d).status
  cancelled : r.cancelled ≤ r'.cancelled
  expired : r.expired ≤ r'.expired

theorem Later.done (later : Later r r') (d : Dir) : r.done d ≤ r'.done d := by
  intro ended
  simp only [Relay.done, decide_eq_true_eq] at ended ⊢
  rw [later.ended d ended]
  exact ended

theorem Justified.later (why : Justified o r) (later : Later r r') : Justified o r' := by
  rcases why with ⟨d, status, closes⟩ | ⟨d, status, closes⟩ | allowed
  · exact .inl ⟨d, (later.ended d (by simp [status])).trans status, closes⟩
  · exact .inr (.inl ⟨d, (later.ended d (by simp [status])).trans status, closes⟩)
  · exact .inr (.inr (o.lasts _ _ _ _ _ _ _ _ (later.done .up) (later.done .down) later.cancelled later.expired
      allowed))

theorem Overtaken.later (why : Overtaken o r d) (later : Later r r') : Overtaken o r' d := by
  rcases why with ⟨status, closes⟩ | ⟨status, closes⟩ | allowed | ⟨stops, cancelled⟩
  · exact .inl ⟨(later.ended _ (by simp [status])).trans status, closes⟩
  · exact .inr (.inl ⟨(later.ended _ (by simp [status])).trans status, closes⟩)
  · refine .inr (.inr (.inl ?_))
    cases d
    · exact o.lasts _ _ _ _ _ _ _ _ id (later.done .down) later.cancelled later.expired allowed
    · exact o.lasts _ _ _ _ _ _ _ _ (later.done .up) id later.cancelled later.expired allowed
  · exact .inr (.inr (.inr ⟨stops, later.cancelled cancelled⟩))

theorem Justified.overtaken (why : Justified o r) (going : (r.pump d).status = .running) : Overtaken o r d := by
  have other : ∀ e, (r.pump e).status ≠ .running → e = d.other := by
    intro e ended
    cases d <;> cases e <;> first | rfl | exact absurd going ended
  rcases why with ⟨e, status, closes⟩ | ⟨e, status, closes⟩ | allowed
  · obtain rfl := other e (by simp [status])
    exact .inl ⟨status, closes⟩
  · obtain rfl := other e (by simp [status])
    exact .inr (.inl ⟨status, closes⟩)
  · refine .inr (.inr (.inl ?_))
    have running : r.done d = false := by simp [Relay.done, going]
    cases d <;> simpa [Policy.closesOver, Policy.mayClose, running] using allowed

theorem later_set {p : Pump α} (going : (r.pump d).status = .running) (closed : Bool) :
    Later r { r.set p d with closed := closed } := by
  constructor
  · intro e ended
    have other : e ≠ d := by
      intro same
      subst same
      exact ended going
    have same : ({ r.set p d with closed := closed } : Relay α).pump e = (r.set p d).pump e :=
      pump_congr rfl rfl e
    rw [same, pump_set_other r p other]
  · cases d <;> exact id
  · cases d <;> exact id

theorem Sound.move (sound : Sound o requests responses r) {p : Pump α} {closed : Bool}
    (going : (r.pump d).status = .running) (next : p.Sound (source requests responses d) (o.counting d))
    (cut : p.status = .cut → Overtaken o r d)
    (why : closed = true → r.closed = true ∨ p.status = .finished ∧ o.finishCloses d = true ∨
      p.status = .failed ∧ o.failureCloses d = true) :
    Sound o requests responses { r.set p d with closed := closed } := by
  have pumps : ∀ e, ({ r.set p d with closed := closed } : Relay α).pump e = (r.set p d).pump e := pump_congr rfl rfl
  have returned : ({ r.set p d with closed := closed } : Relay α).returned = r.returned := by cases d <;> rfl
  constructor
  · intro e
    rw [pumps]
    by_cases same : e = d
    · subst same
      rw [pump_set]
      exact next
    · rw [pump_set_other r p same]
      exact sound.pumps e
  · intro e status
    rw [pumps] at status
    have earlier : Overtaken o r e := by
      by_cases same : e = d
      · subst same
        rw [pump_set] at status
        exact cut status
      · rw [pump_set_other r p same] at status
        exact sound.cut e status
    exact earlier.later (later_set going closed)
  · intro now
    rcases why now with before | ended | ended
    · exact (sound.closed before).later (later_set going closed)
    · exact .inl ⟨d, by rw [pumps, pump_set]; exact ended.1, ended.2⟩
    · exact .inr (.inl ⟨d, by rw [pumps, pump_set]; exact ended.1, ended.2⟩)
  · intro ended
    -- a relay that has returned has no direction left to move
    rw [returned] at ended
    have both := (sound.returned ended).2
    cases d
    · simp [Relay.done, going] at both
    · simp [Relay.done, going] at both

theorem Sound.control (sound : Sound o requests responses r) (up : r'.up = r.up) (down : r'.down = r.down)
    (cancelled : r.cancelled ≤ r'.cancelled) (expired : r.expired ≤ r'.expired)
    (closed : r'.closed = true → r.closed = true ∨ o.mayClose r = true)
    (returned : r'.returned = true → r'.closed = true ∧ r.done .up = true ∧ r.done .down = true) :
    Sound o requests responses r' := by
  have pumps : ∀ d, r'.pump d = r.pump d := pump_congr up down
  have later : Later r r' := ⟨fun d _ => by rw [pumps], cancelled, expired⟩
  constructor
  · intro d
    rw [pumps]
    exact sound.pumps d
  · intro d status
    rw [pumps] at status
    exact (sound.cut d status).later later
  · intro now
    rcases closed now with before | allowed
    · exact (sound.closed before).later later
    · exact Justified.later (.inr (.inr allowed)) later
  · intro now
    obtain ⟨closed, upDone, downDone⟩ := returned now
    exact ⟨closed, later.done .up upDone, later.done .down downDone⟩

theorem set_closed (r : Relay α) (p : Pump α) (d : Dir) : r.set p d = { r.set p d with closed := r.closed } := by
  cases d <;> rfl

theorem sound_step {a : Action} (sound : Sound o requests responses r) (taken : step o r a = some r') :
    Sound o requests responses r' := by
  cases a with
  | read d k =>
    obtain ⟨⟨going, free⟩, same⟩ := guarded taken
    rw [← same, set_closed]
    exact sound.move going ((sound.pumps d).read going free k) (by simp [Pump.read, going]) .inl
  | write d k =>
    obtain ⟨⟨going, some_⟩, same⟩ := guarded taken
    rw [← same, set_closed]
    exact sound.move going ((sound.pumps d).write going some_ k) (by simp [Pump.write, going]) .inl
  | finish d =>
    obtain ⟨⟨going, free, empty⟩, same⟩ := guarded taken
    rw [← same]
    apply sound.move going ((sound.pumps d).stop fun _ => ⟨free, empty⟩) <;> simp [Pump.stop]
  | fail d =>
    obtain ⟨going, same⟩ := guarded taken
    rw [← same]
    apply sound.move going ((sound.pumps d).stop (by simp)) <;> simp [Pump.stop]
  | cut d =>
    obtain ⟨⟨going, allowed⟩, same⟩ := guarded taken
    rw [← same, set_closed]
    have overtaken : Overtaken o r d := by
      rcases allowed with closed | cancelled
      · exact (sound.closed closed).overtaken going
      · exact .inr (.inr (.inr cancelled))
    exact sound.move going ((sound.pumps d).stop (by simp)) (fun _ => overtaken) .inl
  | cancel =>
    cases taken
    exact sound.control rfl rfl (fun _ => rfl) id .inl sound.returned
  | expire =>
    cases taken
    exact sound.control rfl rfl id (fun _ => rfl) .inl sound.returned
  | close =>
    obtain ⟨allowed, same⟩ := guarded taken
    rw [← same]
    exact sound.control rfl rfl id id (fun _ => .inr allowed) fun returned => ⟨rfl, (sound.returned returned).2⟩
  | return_ =>
    obtain ⟨ready, same⟩ := guarded taken
    rw [← same]
    exact sound.control rfl rfl id id .inl fun _ => ready

theorem sound_run {as : List Action} (reached : run (step o) (start requests responses) as = some r) :
    Sound o requests responses r := by
  apply run_invariant _ (fun _ _ _ sound taken => sound_step sound taken) reached
  constructor
  · intro d
    cases d
    · exact sound_start requests _
    · exact sound_start responses _
  · intro d status
    cases d <;> cases status
  · intro closed
    cases closed
  · intro returned
    cases returned

theorem Sound.front (sound : Sound o requests responses r) (d : Dir) :
    (r.pump d).delivered <+: source requests responses d := by
  rw [← (sound.pumps d).order, List.append_assoc]
  exact List.prefix_append _ _

theorem Sound.whole (sound : Sound o requests responses r) (finished : (r.pump d).status = .finished) :
    (r.pump d).delivered = source requests responses d := by
  obtain ⟨held, unread⟩ := (sound.pumps d).finished finished
  have order := (sound.pumps d).order
  rw [held, unread] at order
  simpa using order

theorem Sound.ended (sound : Sound o requests responses r) (returned : r.returned = true) (d : Dir) :
    (r.pump d).status ≠ .running := by
  obtain ⟨_, up, down⟩ := sound.returned returned
  cases d
  · simpa [Relay.done] using up
  · simpa [Relay.done] using down

theorem copied (o : Policy) (r : Relay α) (d : Dir) (m : Nat) (going : (r.pump d).status = .running)
    (free : (r.pump d).held = []) :
    ∃ as p, run (step o) r as = some (r.set p d) ∧ p.status = .running ∧ p.held = [] ∧
      p.unread = (r.pump d).unread.drop m ∧ p.delivered = (r.pump d).delivered ++ (r.pump d).unread.take m := by
  by_cases nothing : (r.pump d).unread.take m = []
  · have same : (r.pump d).unread.drop m = (r.pump d).unread := by
      have whole := List.take_append_drop m (r.pump d).unread
      rwa [nothing, List.nil_append] at whole
    refine ⟨[], r.pump d, ?_, going, free, same.symm, by simp [nothing]⟩
    cases d <;> rfl
  · have readable : step o r (.read d m) = some (r.set ((r.pump d).read m (o.counting d)) d) := if_pos ⟨going, free⟩
    have writable : step o (r.set ((r.pump d).read m (o.counting d)) d) (.write d m) =
        some ((r.set ((r.pump d).read m (o.counting d)) d).set
          (((r.pump d).read m (o.counting d)).write m (o.counting d)) d) := by
      simp only [step, pump_set]
      exact if_pos ⟨going, nothing⟩
    refine ⟨[.read d m, .write d m], ((r.pump d).read m (o.counting d)).write m (o.counting d), ?_, going, ?_, rfl, ?_⟩
    · rw [run_cons, readable, Option.bind_some, run_cons, writable, Option.bind_some, run_nil]
      cases d <;> rfl
    · simp [Pump.read, Pump.write]
    · simp [Pump.read, Pump.write, List.take_take]

end Runs

end DuplexRelays
