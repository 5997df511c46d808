import RootShell.Interleaving
import Mathlib.Logic.Function.Basic

/-!
The SSH egress of a Tailscale tunnel. Any number of attach calls look the path up, connect
and install what they connected in three separate stores, while the netstack may be made
at any time and one StopTunnel closes the path.
-/
namespace EgressAttach
open Interleaving
variable {n : Nat}

inductive Egress (n : Nat) where
  | socks
  | tssh (call : Fin n) (quic : Bool)
  deriving DecidableEq

def Egress.quic : Egress n → Bool
  | socks => false
  | tssh _ quic => quic

def displaced : Option (Egress n) → Option (Fin n)
  | some (.tssh call _) => some call
  | _ => none

@[simp] theorem displaced_tssh (call : Fin n) (quic : Bool) : displaced (some (.tssh call quic)) = some call := rfl

inductive Attach (n : Nat) where
  | idle
  | found
  | connected (quic : Bool)
  | stored (quic : Bool)
  | blocked (quic : Bool)
  | displacing (old : Fin n)
  | returned (attached : Bool)
  deriving DecidableEq

namespace Attach

def opened : Attach n → Bool
  | idle | found | returned false => false
  | _ => true

def holds : Attach n → Bool
  | connected _ | stored _ | blocked _ => true
  | _ => false

def carries : Attach n → Option (Fin n)
  | displacing old => some old
  | _ => none

def storing : Attach n → Option Bool
  | stored quic | blocked quic => some quic
  | _ => none

def unblocked : Attach n → Bool
  | stored _ => true
  | _ => false

def running : Attach n → Bool
  | idle | returned false => false
  | _ => true

def atRest : Attach n → Bool
  | idle | returned _ => true
  | _ => false

end Attach

def afterSwap (old : Option (Fin n)) : Attach n := old.elim (.returned true) .displacing

@[simp] theorem after_swap_opened (old : Option (Fin n)) : (afterSwap old).opened = true := by
  cases old <;> rfl

@[simp] theorem after_swap_holds (old : Option (Fin n)) : (afterSwap old).holds = false := by
  cases old <;> rfl

@[simp] theorem after_swap_carries (old : Option (Fin n)) : (afterSwap old).carries = old := by
  cases old <;> rfl

@[simp] theorem after_swap_storing (old : Option (Fin n)) : (afterSwap old).storing = none := by
  cases old <;> rfl

inductive Stop (n : Nat) where
  | idle
  | locked
  | cancelled
  | swept
  | displacing (old : Fin n)
  | stopped
  deriving DecidableEq

def Stop.holdsLock : Stop n → Bool
  | idle | stopped => false
  | _ => true

def Stop.carries : Stop n → Option (Fin n)
  | displacing old => some old
  | _ => none

def Stop.cleared : Stop n → Bool
  | displacing _ | stopped => true
  | _ => false

def afterClear (old : Option (Fin n)) : Stop n := old.elim .stopped .displacing

@[simp] theorem after_clear_carries (old : Option (Fin n)) : (afterClear old).carries = old := by
  cases old <;> rfl

@[simp] theorem after_clear_cleared (old : Option (Fin n)) : (afterClear old).cleared = true := by
  cases old <;> rfl

structure Tunnel (n : Nat) where
  calls : Fin n → Attach n
  stopper : Stop n
  path : Bool
  egressOn : Bool
  egress : Option (Egress n)
  egressQUIC : Bool
  stack : Option Bool
  stackErr : Bool
  done : Bool
  closes : Fin n → Nat

def start (n : Nat) (socks tssh : Bool) : Tunnel n where
  calls _ := .idle
  stopper := .idle
  path := true
  egressOn := socks || tssh
  egress := if socks then some .socks else none
  egressQUIC := false
  stack := none
  stackErr := false
  done := false
  closes _ := 0

inductive Action (n : Nat) where
  | lookup (i : Fin n)
  | fail (i : Fin n)
  | connect (i : Fin n) (quic : Bool)
  | storeQUIC (i : Fin n)
  | storeBlock (i : Fin n)
  | swap (i : Fin n)
  | closeOld (i : Fin n)
  | ensureStack (made : Bool)
  | stop

namespace Tunnel

def goto (s : Tunnel n) (i : Fin n) (next : Attach n) : Tunnel n :=
  { s with calls := Function.update s.calls i next }

def install (s : Tunnel n) (e : Option (Egress n)) : Tunnel n := { s with egress := e }

def close (s : Tunnel n) (k : Fin n) : Tunnel n :=
  { s with closes := Function.update s.closes k (s.closes k + 1) }

def ensureStack (s : Tunnel n) (made : Bool) : Tunnel n :=
  if s.stack.isSome || s.stackErr || s.done then s
  else if made then { s with stack := some (s.egressOn && !s.egressQUIC) }
  else { s with stackErr := true }

end Tunnel

/-- StopTunnel, one step at a time: the lock, cancelling and forgetting the path, taking
    the stack, swapping the egress out, closing it. -/
def stopStep (s : Tunnel n) : Option (Tunnel n) :=
  match s.stopper with
  | .idle => some { s with stopper := .locked }
  | .locked => some { s with stopper := .cancelled, done := true, path := false }
  | .cancelled => some { s with stopper := .swept, stack := none }
  | .swept => some { s with stopper := afterClear (displaced s.egress), egress := none }
  | .displacing old => some ({ s with stopper := .stopped }.close old)
  | .stopped => none

def step (s : Tunnel n) : Action n → Option (Tunnel n)
  | .lookup i =>
    if s.calls i = .idle ∧ s.stopper.holdsLock = false then
      some (s.goto i (if s.path && s.egressOn then .found else .returned false))
    else none
  | .fail i => if s.calls i = .found then some (s.goto i (.returned false)) else none
  | .connect i quic => if s.calls i = .found then some (s.goto i (.connected quic)) else none
  | .storeQUIC i =>
    match s.calls i with
    | .connected quic => some ({ s with egressQUIC := quic }.goto i (.stored quic))
    | _ => none
  | .storeBlock i =>
    match s.calls i with
    | .stored quic => some ({ s with stack := s.stack.map fun _ => !quic }.goto i (.blocked quic))
    | _ => none
  | .swap i =>
    match s.calls i with
    | .blocked quic =>
      some ((s.install (some (.tssh i quic))).goto i (afterSwap (displaced s.egress)))
    | _ => none
  | .closeOld i =>
    match s.calls i with
    | .displacing old => some ((s.close old).goto i (.returned true))
    | _ => none
  | .ensureStack made => some (s.ensureStack made)
  | .stop => stopStep s

inductive Move (s : Tunnel n) : Action n → Tunnel n → Prop where
  | lookup {i : Fin n} (idle : s.calls i = .idle) (free : s.stopper.holdsLock = false) :
      Move s (.lookup i) (s.goto i (if s.path && s.egressOn then .found else .returned false))
  | fail {i : Fin n} (found : s.calls i = .found) : Move s (.fail i) (s.goto i (.returned false))
  | connect {i : Fin n} {quic : Bool} (found : s.calls i = .found) :
      Move s (.connect i quic) (s.goto i (.connected quic))
  | storeQUIC {i : Fin n} {quic : Bool} (phase : s.calls i = .connected quic) :
      Move s (.storeQUIC i) ({ s with egressQUIC := quic }.goto i (.stored quic))
  | storeBlock {i : Fin n} {quic : Bool} (phase : s.calls i = .stored quic) :
      Move s (.storeBlock i) ({ s with stack := s.stack.map fun _ => !quic }.goto i (.blocked quic))
  | swap {i : Fin n} {quic : Bool} (phase : s.calls i = .blocked quic) :
      Move s (.swap i) ((s.install (some (.tssh i quic))).goto i (afterSwap (displaced s.egress)))
  | closeOld {i old : Fin n} (phase : s.calls i = .displacing old) :
      Move s (.closeOld i) ((s.close old).goto i (.returned true))
  | ensureStack {made : Bool} : Move s (.ensureStack made) (s.ensureStack made)
  | lock (phase : s.stopper = .idle) : Move s .stop { s with stopper := .locked }
  | cancel (phase : s.stopper = .locked) :
      Move s .stop { s with stopper := .cancelled, done := true, path := false }
  | sweep (phase : s.stopper = .cancelled) : Move s .stop { s with stopper := .swept, stack := none }
  | clear (phase : s.stopper = .swept) :
      Move s .stop { s with stopper := afterClear (displaced s.egress), egress := none }
  | closeLast {old : Fin n} (phase : s.stopper = .displacing old) :
      Move s .stop ({ s with stopper := .stopped }.close old)

theorem step_move {s t : Tunnel n} {a : Action n} (moved : step s a = some t) : Move s a t := by
  cases a with
  | lookup i =>
    obtain ⟨⟨idle, free⟩, rfl⟩ := guarded moved
    exact .lookup idle free
  | fail i =>
    obtain ⟨found, rfl⟩ := guarded moved
    exact .fail found
  | connect i quic =>
    obtain ⟨found, rfl⟩ := guarded moved
    exact .connect found
  | storeQUIC i =>
    simp only [step] at moved
    split at moved
    · rename_i phase
      cases moved
      exact .storeQUIC phase
    · cases moved
  | storeBlock i =>
    simp only [step] at moved
    split at moved
    · rename_i phase
      cases moved
      exact .storeBlock phase
    · cases moved
  | swap i =>
    simp only [step] at moved
    split at moved
    · rename_i phase
      cases moved
      exact .swap phase
    · cases moved
  | closeOld i =>
    simp only [step] at moved
    split at moved
    · rename_i phase
      cases moved
      exact .closeOld phase
    · cases moved
  | ensureStack made =>
    cases moved
    exact .ensureStack
  | stop =>
    simp only [step, stopStep] at moved
    split at moved
    · cases moved; exact .lock ‹_›
    · cases moved; exact .cancel ‹_›
    · cases moved; exact .sweep ‹_›
    · cases moved; exact .clear ‹_›
    · cases moved; exact .closeLast ‹_›
    · cases moved

variable {quic : Bool}

section Custody
variable {s t : Tunnel n} {a : Action n} {i : Fin n}

/-- Who answers for a connection: nobody before it is made, then the call that made it,
    the path, whoever swapped it out (a call, or StopTunnel), and nobody again. -/
inductive Custody (n : Nat) where
  | unopened
  | held
  | installed
  | displaced (holder : Option (Fin n))
  | closed
  deriving DecidableEq

def Tunnel.carries (s : Tunnel n) : Option (Fin n) → Option (Fin n)
  | some j => (s.calls j).carries
  | none => s.stopper.carries

@[simp] theorem install_carries (s : Tunnel n) (e : Option (Egress n)) (h : Option (Fin n)) :
    (s.install e).carries h = s.carries h := rfl

structure Custodian (s : Tunnel n) (i : Fin n) (c : Custody n) : Prop where
  unopened : (s.calls i).opened = false ↔ c = .unopened
  held : (s.calls i).holds = true ↔ c = .held
  installed : displaced s.egress = some i ↔ c = .installed
  displaced : ∀ h, s.carries h = some i ↔ c = .displaced h
  count : s.closes i = if c = .closed then 1 else 0

theorem custodian_start (socks tssh : Bool) (i : Fin n) : Custodian (start n socks tssh) i .unopened := by
  constructor
  · simp [start, Attach.opened]
  · simp [start, Attach.holds]
  · cases socks with
    | true => simp [start, EgressAttach.displaced]
    | false => simp [start, EgressAttach.displaced]
  · intro h
    cases h with
    | none => simp [start, Tunnel.carries, Stop.carries]
    | some j => simp [start, Tunnel.carries, Attach.carries]
  · simp [start]

variable {c : Custody n}

theorem Custodian.frame (mine : Custodian s i c) (opened : (t.calls i).opened = (s.calls i).opened)
    (holds : (t.calls i).holds = (s.calls i).holds)
    (egress : EgressAttach.displaced t.egress = some i ↔ EgressAttach.displaced s.egress = some i)
    (carries : ∀ h, t.carries h = some i ↔ s.carries h = some i) (closes : t.closes i = s.closes i) :
    Custodian t i c where
  unopened := by rw [opened, mine.unopened]
  held := by rw [holds, mine.held]
  installed := egress.trans mine.installed
  displaced h := (carries h).trans (mine.displaced h)
  count := by rw [closes, mine.count]

theorem goto_calls (s : Tunnel n) (j : Fin n) (next : Attach n) (i : Fin n) :
    (s.goto j next).calls i = if i = j then next else s.calls i := Function.update_apply _ _ _ _

theorem goto_carries (s : Tunnel n) (j : Fin n) (next : Attach n) (h : Option (Fin n)) :
    (s.goto j next).carries h = if h = some j then next.carries else s.carries h := by
  cases h with
  | none => rfl
  | some k =>
    simp only [Tunnel.carries, goto_calls, Option.some.injEq]
    split <;> rfl

theorem close_closes (s : Tunnel n) (k j : Fin n) :
    (s.close k).closes j = if j = k then s.closes j + 1 else s.closes j := by
  have updated : (s.close k).closes j = if j = k then s.closes k + 1 else s.closes j :=
    Function.update_apply _ _ _ _
  rw [updated]
  split
  · rename_i same
    rw [same]
  · rfl

theorem Custodian.goto (mine : Custodian s i c) {j : Fin n} {next : Attach n}
    (opened : next.opened = (s.calls j).opened) (holds : next.holds = (s.calls j).holds)
    (carries : next.carries = (s.calls j).carries) : Custodian (s.goto j next) i c := by
  apply mine.frame
  · rw [goto_calls]
    split
    · rename_i same
      rw [opened, same]
    · rfl
  · rw [goto_calls]
    split
    · rename_i same
      rw [holds, same]
    · rfl
  · exact Iff.rfl
  · intro h
    rw [goto_carries]
    split
    · rename_i same
      rw [carries, same]
      exact Iff.rfl
    · exact Iff.rfl
  · rfl

theorem Custodian.connect (mine : Custodian s i c) {j : Fin n} (found : s.calls j = .found) :
    ∃ c', Custodian (s.goto j (.connected quic)) i c' := by
  by_cases same : i = j
  · subst same
    have fresh : c = .unopened := mine.unopened.1 (by simp [found, Attach.opened])
    subst fresh
    refine ⟨.held, ?_, ?_, mine.installed.trans (by simp), ?_, mine.count⟩
    · simp [goto_calls, Attach.opened]
    · simp [goto_calls, Attach.holds]
    · intro h
      rw [goto_carries]
      split
      · simp [Attach.carries]
      · simpa using mine.displaced h
  · refine ⟨c, mine.frame ?_ ?_ Iff.rfl ?_ rfl⟩
    · simp [goto_calls, same]
    · simp [goto_calls, same]
    · intro h
      rw [goto_carries]
      split
      · rename_i self
        simp [self, Tunnel.carries, found, Attach.carries]
      · exact Iff.rfl

theorem Custodian.swap (mine : Custodian s i c) {j : Fin n} (phase : s.calls j = .blocked quic) :
    ∃ c', Custodian ((s.install (some (.tssh j quic))).goto j (afterSwap (EgressAttach.displaced s.egress))) i c' := by
  have empty : s.carries (some j) = none := by simp [Tunnel.carries, phase, Attach.carries]
  by_cases same : i = j
  · subst same
    have held : c = .held := mine.held.1 (by simp [phase, Attach.holds])
    subst held
    refine ⟨.installed, ?_, ?_, ?_, ?_, mine.count⟩
    · simp [goto_calls]
    · simp [goto_calls]
    · simp [Tunnel.goto, Tunnel.install]
    · intro h
      rw [goto_carries]
      split
      · simpa using mine.installed
      · simpa using mine.displaced h
  · by_cases current : EgressAttach.displaced s.egress = some i
    · have installed : c = .installed := mine.installed.1 current
      subst installed
      refine ⟨.displaced (some j), ?_, ?_, ?_, ?_, mine.count⟩
      · simpa [goto_calls, Tunnel.install, same] using mine.unopened
      · simpa [goto_calls, Tunnel.install, same] using mine.held
      · simp [Tunnel.goto, Tunnel.install, Ne.symm same]
      · intro h
        rw [goto_carries]
        split
        · rename_i self
          simp [self, current]
        · rename_i other
          simpa [Ne.symm other] using mine.displaced h
    · refine ⟨c, mine.frame ?_ ?_ ?_ ?_ rfl⟩
      · simp [goto_calls, Tunnel.install, same]
      · simp [goto_calls, Tunnel.install, same]
      · simp [Tunnel.goto, Tunnel.install, Ne.symm same, current]
      · intro h
        rw [goto_carries]
        split
        · rename_i self
          simp [self, current, empty]
        · exact Iff.rfl

theorem Custodian.close (mine : Custodian s i c) {h : Option (Fin n)} {old : Fin n} (carried : s.carries h = some old)
    (calls : ∀ j, (t.calls j).opened = (s.calls j).opened ∧ (t.calls j).holds = (s.calls j).holds)
    (egress : t.egress = s.egress) (rest : ∀ g, t.carries g = if g = h then none else s.carries g)
    (closes : ∀ j, t.closes j = if j = old then s.closes j + 1 else s.closes j) : ∃ c', Custodian t i c' := by
  by_cases same : i = old
  · subst same
    have mineNow : c = .displaced h := (mine.displaced h).1 carried
    subst mineNow
    refine ⟨.closed, ?_, ?_, ?_, ?_, ?_⟩
    · simpa [calls] using mine.unopened
    · simpa [calls] using mine.held
    · simpa [egress] using mine.installed
    · intro g
      rw [rest]
      split
      · simp
      · rename_i other
        simpa [Ne.symm other] using mine.displaced g
    · simpa [closes] using mine.count
  · refine ⟨c, mine.frame (calls i).1 (calls i).2 (by rw [egress]) ?_ ?_⟩
    · intro g
      rw [rest]
      split
      · rename_i self
        simp [self, carried, Ne.symm same]
      · exact Iff.rfl
    · simp [closes, same]

theorem Custodian.clear (mine : Custodian s i c) (phase : s.stopper = .swept) :
    ∃ c', Custodian { s with stopper := afterClear (EgressAttach.displaced s.egress), egress := none } i c' := by
  have empty : s.stopper.carries = none := by simp [phase, Stop.carries]
  by_cases current : EgressAttach.displaced s.egress = some i
  · have installed : c = .installed := mine.installed.1 current
    subst installed
    refine ⟨.displaced none, mine.unopened.trans (by simp), mine.held.trans (by simp), ?_, ?_, mine.count⟩
    · simp [EgressAttach.displaced]
    · intro h
      cases h with
      | none => simp [Tunnel.carries, current]
      | some k => exact (mine.displaced (some k)).trans (by simp)
  · refine ⟨c, mine.frame rfl rfl ?_ ?_ rfl⟩
    · simp only [current, iff_false]
      simp [EgressAttach.displaced]
    · intro h
      cases h with
      | none => simp [Tunnel.carries, empty, current]
      | some k => exact Iff.rfl

theorem Custodian.halt (mine : Custodian s i c) (calls : t.calls = s.calls) (egress : t.egress = s.egress)
    (closes : t.closes = s.closes) (before : s.stopper.carries = none) (after : t.stopper.carries = none) :
    Custodian t i c := by
  apply mine.frame
  · rw [calls]
  · rw [calls]
  · rw [egress]
  · intro h
    cases h with
    | none => simp only [Tunnel.carries, before, after]
    | some k => simp only [Tunnel.carries, calls]
  · rw [closes]

theorem Custodian.step (mine : Custodian s i c) (moved : step s a = some t) : ∃ c', Custodian t i c' := by
  have same (h : Option (Fin n)) : s.carries h = some i ↔ s.carries h = some i := Iff.rfl
  cases step_move moved with
  | lookup idle free =>
    refine ⟨c, mine.goto ?_ ?_ ?_⟩
    · split <;> simp [idle, Attach.opened]
    · split <;> simp [idle, Attach.holds]
    · split <;> simp [idle, Attach.carries]
  | fail found =>
    exact ⟨c, mine.goto (by simp [found, Attach.opened]) (by simp [found, Attach.holds])
      (by simp [found, Attach.carries])⟩
  | connect found => exact mine.connect found
  | @storeQUIC j quic phase =>
    have kept : Custodian { s with egressQUIC := quic } i c := mine.frame rfl rfl Iff.rfl same rfl
    exact ⟨c, kept.goto (by simp [phase, Attach.opened]) (by simp [phase, Attach.holds])
      (by simp [phase, Attach.carries])⟩
  | @storeBlock j quic phase =>
    have kept : Custodian { s with stack := s.stack.map fun _ => !quic } i c :=
      mine.frame rfl rfl Iff.rfl same rfl
    exact ⟨c, kept.goto (by simp [phase, Attach.opened]) (by simp [phase, Attach.holds])
      (by simp [phase, Attach.carries])⟩
  | swap phase => exact mine.swap phase
  | @closeOld j old phase =>
    have carried : s.carries (some j) = some old := by simp [Tunnel.carries, phase, Attach.carries]
    apply mine.close carried
    · intro k
      by_cases self : k = j
      · simp [goto_calls, self, phase, Attach.opened, Attach.holds]
      · simp [goto_calls, self, Tunnel.close]
    · rfl
    · intro g
      rw [goto_carries]
      rfl
    · exact close_closes s old
  | ensureStack =>
    refine ⟨c, ?_⟩
    unfold Tunnel.ensureStack
    split
    · exact mine
    · split
      · exact mine.frame rfl rfl Iff.rfl same rfl
      · exact mine.frame rfl rfl Iff.rfl same rfl
  | lock phase => exact ⟨c, mine.halt rfl rfl rfl (by simp [phase, Stop.carries]) rfl⟩
  | cancel phase => exact ⟨c, mine.halt rfl rfl rfl (by simp [phase, Stop.carries]) rfl⟩
  | sweep phase => exact ⟨c, mine.halt rfl rfl rfl (by simp [phase, Stop.carries]) rfl⟩
  | clear phase => exact mine.clear phase
  | @closeLast old phase =>
    have carried : s.carries none = some old := by simp [Tunnel.carries, phase, Stop.carries]
    apply mine.close carried
    · exact fun j => ⟨rfl, rfl⟩
    · rfl
    · intro g
      cases g with
      | none => rfl
      | some k => rfl
    · exact close_closes _ old

end Custody

section Flags
variable {s t : Tunnel n} {a : Action n} {i : Fin n}

/-- A call starts storing its flag only while the calls between their stores and their
    swap have the same one, and swaps only before StopTunnel has. -/
def Ordered (s : Tunnel n) : Action n → Prop
  | .storeQUIC i => ∀ j quic, (s.calls j).storing = some quic → s.calls i = .connected quic
  | .swap _ => s.stopper.cleared = false
  | _ => True

structure Flags (s : Tunnel n) : Prop where
  shared : ∀ j quic, (s.calls j).storing = some quic → s.egressQUIC = quic
  installed : ∀ e, s.egress = some e → e.quic = s.egressQUIC ∨ ∃ j, ((s.calls j).storing).isSome = true
  stack : ∀ b, s.stack = some b → b = (s.egressOn && !s.egressQUIC) ∨ ∃ j, (s.calls j).unblocked = true
  cleared : s.stopper.cleared = true → s.egress = none
  running : ∀ j, (s.calls j).running = true → s.egressOn = true
  egressOn : s.egress ≠ none → s.egressOn = true

theorem flags_start (socks tssh : Bool) : Flags (start n socks tssh) where
  shared := by simp [start, Attach.storing]
  installed := by
    intro e installed
    cases socks with
    | true =>
      cases installed
      exact Or.inl rfl
    | false => cases installed
  stack := by simp [start]
  cleared := by simp [start, Stop.cleared]
  running := by simp [start, Attach.running]
  egressOn := by
    cases socks with
    | true => simp [start]
    | false => simp [start]

theorem Flags.goto (flags : Flags s) {next : Attach n} (storing : next.storing = (s.calls i).storing)
    (unblocked : next.unblocked = (s.calls i).unblocked) (running : next.running = true → s.egressOn = true) :
    Flags (s.goto i next) := by
  have storings (j : Fin n) : ((s.goto i next).calls j).storing = (s.calls j).storing := by
    rw [goto_calls]
    split
    · rename_i same
      rw [storing, same]
    · rfl
  have unblockeds (j : Fin n) : ((s.goto i next).calls j).unblocked = (s.calls j).unblocked := by
    rw [goto_calls]
    split
    · rename_i same
      rw [unblocked, same]
    · rfl
  constructor
  · intro j quic
    rw [storings]
    exact flags.shared j quic
  · simp only [storings]
    exact flags.installed
  · simp only [unblockeds]
    exact flags.stack
  · exact flags.cleared
  · intro j
    rw [goto_calls]
    split
    · exact running
    · exact flags.running j
  · exact flags.egressOn

theorem Flags.storeQUIC (flags : Flags s) (phase : s.calls i = .connected quic)
    (ordered : Ordered s (.storeQUIC i)) : Flags ({ s with egressQUIC := quic }.goto i (.stored quic)) where
  shared j other storing := by
    rw [goto_calls] at storing
    split at storing
    · exact Option.some.inj storing
    · have same := ordered j other storing
      rw [phase] at same
      exact Attach.connected.inj same
  installed e _ := Or.inr ⟨i, by simp [goto_calls, Attach.storing]⟩
  stack b _ := Or.inr ⟨i, by simp [goto_calls, Attach.unblocked]⟩
  cleared := flags.cleared
  running j moving := by
    rw [goto_calls] at moving
    split at moving
    · exact flags.running i (by simp [phase, Attach.running])
    · exact flags.running j moving
  egressOn := flags.egressOn

theorem Flags.storeBlock (flags : Flags s) (phase : s.calls i = .stored quic) :
    Flags ({ s with stack := s.stack.map fun _ => !quic }.goto i (.blocked quic)) := by
  have own : s.egressQUIC = quic := flags.shared i quic (by simp [phase, Attach.storing])
  have on : s.egressOn = true := flags.running i (by simp [phase, Attach.running])
  constructor
  · intro j other storing
    rw [goto_calls] at storing
    split at storing
    · rw [← Option.some.inj storing]
      exact own
    · exact flags.shared j other storing
  · intro e _
    exact Or.inr ⟨i, by simp [goto_calls, Attach.storing]⟩
  · intro b made
    obtain ⟨_, _, rfl⟩ := Option.map_eq_some_iff.1 made
    exact Or.inl (by simp [Tunnel.goto, on, own])
  · exact flags.cleared
  · intro j _
    exact on
  · exact flags.egressOn

theorem Flags.swap (flags : Flags s) (phase : s.calls i = .blocked quic) (ordered : Ordered s (.swap i)) :
    Flags ((s.install (some (.tssh i quic))).goto i (afterSwap (displaced s.egress))) := by
  have own : s.egressQUIC = quic := flags.shared i quic (by simp [phase, Attach.storing])
  have on : s.egressOn = true := flags.running i (by simp [phase, Attach.running])
  constructor
  · intro j other storing
    rw [goto_calls] at storing
    split at storing
    · simp at storing
    · exact flags.shared j other storing
  · intro e installed
    cases installed
    exact Or.inl own.symm
  · intro b made
    rcases flags.stack b made with flag | ⟨j, unblocked⟩
    · exact Or.inl flag
    · have other : j ≠ i := by
        rintro rfl
        simp [phase, Attach.unblocked] at unblocked
      exact Or.inr ⟨j, by simpa [goto_calls, other, Tunnel.install] using unblocked⟩
  · intro late
    rw [show ((s.install (some (.tssh i quic))).goto i (afterSwap (displaced s.egress))).stopper = s.stopper from rfl,
      ordered] at late
    cases late
  · intro j _
    exact on
  · intro _
    exact on

theorem Flags.ensureStack (flags : Flags s) (made : Bool) : Flags (s.ensureStack made) := by
  unfold Tunnel.ensureStack
  split
  · exact flags
  · split
    · refine ⟨flags.shared, flags.installed, ?_, flags.cleared, flags.running, flags.egressOn⟩
      intro b fresh
      exact Or.inl (Option.some.inj fresh).symm
    · exact ⟨flags.shared, flags.installed, flags.stack, flags.cleared, flags.running, flags.egressOn⟩

theorem Flags.step (flags : Flags s) (ordered : Ordered s a) (moved : step s a = some t) : Flags t := by
  cases step_move moved with
  | lookup idle free =>
    apply flags.goto
    · split <;> simp [idle, Attach.storing]
    · split <;> simp [idle, Attach.unblocked]
    · split
      · rename_i open_
        exact fun _ => (Bool.and_eq_true _ _ ▸ open_).2
      · simp [Attach.running]
  | fail found =>
    exact flags.goto (by simp [found, Attach.storing]) (by simp [found, Attach.unblocked]) (by simp [Attach.running])
  | @connect i quic found =>
    exact flags.goto (by simp [found, Attach.storing]) (by simp [found, Attach.unblocked])
      (fun _ => flags.running i (by simp [found, Attach.running]))
  | storeQUIC phase => exact flags.storeQUIC phase ordered
  | storeBlock phase => exact flags.storeBlock phase
  | swap phase => exact flags.swap phase ordered
  | @closeOld j old phase =>
    have kept : Flags (s.close old) :=
      ⟨flags.shared, flags.installed, flags.stack, flags.cleared, flags.running, flags.egressOn⟩
    exact kept.goto (by simp [Tunnel.close, phase, Attach.storing]) (by simp [Tunnel.close, phase, Attach.unblocked])
      (fun _ => flags.running j (by simp [phase, Attach.running]))
  | ensureStack => exact flags.ensureStack _
  | lock phase => exact ⟨flags.shared, flags.installed, flags.stack, nofun, flags.running, flags.egressOn⟩
  | cancel phase => exact ⟨flags.shared, flags.installed, flags.stack, nofun, flags.running, flags.egressOn⟩
  | sweep phase => exact ⟨flags.shared, flags.installed, nofun, nofun, flags.running, flags.egressOn⟩
  | clear phase =>
    exact ⟨flags.shared, nofun, flags.stack, fun _ => rfl, flags.running, fun absent => absurd rfl absent⟩
  | closeLast phase =>
    refine ⟨flags.shared, flags.installed, flags.stack, fun _ => flags.cleared ?_, flags.running, flags.egressOn⟩
    simp [phase, Stop.cleared]

end Flags

section Settling

def Tunnel.Quiet (s : Tunnel n) : Prop := (∀ i, (s.calls i).atRest = true) ∧ s.stopper.holdsLock = false

structure Tunnel.Settled (s : Tunnel n) : Prop where
  closedOnce : ∀ i, (s.calls i).opened = true → displaced s.egress ≠ some i → s.closes i = 1
  kept : ∀ i, displaced s.egress = some i → s.closes i = 0
  ended : s.stopper = .stopped → s.egress = none ∧ ∀ i, (s.calls i).opened = true → s.closes i = 1
  fitting : s.stopper = .idle → ∀ e, s.egress = some e →
    s.egressQUIC = e.quic ∧ ∀ b, s.stack = some b → b = !e.quic

variable {s : Tunnel n}

theorem run_custodian {socks tssh : Bool} {as : List (Action n)}
    (reached : run step (start n socks tssh) as = some s) (i : Fin n) : ∃ c, Custodian s i c := by
  apply run_invariant (I := fun s => ∃ c, Custodian s i c) ⟨_, custodian_start socks tssh i⟩ ?_ reached
  rintro m a t ⟨c, mine⟩ moved
  exact mine.step moved

theorem run_flags {socks tssh : Bool} {as : List (Action n)} (ordered : Along step Ordered (start n socks tssh) as)
    (reached : run step (start n socks tssh) as = some s) : Flags s :=
  run_induct (P := fun _ s => Flags s) (flags_start socks tssh)
    (fun _ _ _ _ _ flags allowed moved => flags.step allowed moved) ordered reached

theorem Custodian.at_rest {i : Fin n} {c : Custody n} (mine : Custodian s i c) (quiet : s.Quiet)
    (opened : (s.calls i).opened = true) : c = .installed ∨ c = .closed := by
  cases c with
  | unopened => simp [mine.unopened.2 rfl] at opened
  | held =>
    have holds := mine.held.2 rfl
    have rest := quiet.1 i
    cases phase : s.calls i <;> simp [phase, Attach.holds, Attach.atRest] at holds rest
  | installed => exact Or.inl rfl
  | displaced h =>
    have carried := (mine.displaced h).2 rfl
    cases h with
    | none =>
      have rest := quiet.2
      simp only [Tunnel.carries] at carried
      cases phase : s.stopper <;> simp [phase, Stop.carries, Stop.holdsLock] at carried rest
    | some j =>
      have rest := quiet.1 j
      simp only [Tunnel.carries] at carried
      cases phase : s.calls j <;> simp [phase, Attach.carries, Attach.atRest] at carried rest
  | closed => exact Or.inr rfl

theorem egress_settled {socks tssh : Bool} {as : List (Action n)} {s : Tunnel n}
    (ordered : Along step Ordered (start n socks tssh) as) (reached : run step (start n socks tssh) as = some s)
    (quiet : s.Quiet) : s.Settled := by
  have flags := run_flags ordered reached
  have closedOnce : ∀ i, (s.calls i).opened = true → displaced s.egress ≠ some i → s.closes i = 1 := by
    intro i opened elsewhere
    obtain ⟨c, mine⟩ := run_custodian reached i
    rcases mine.at_rest quiet opened with rfl | rfl
    · exact absurd (mine.installed.2 rfl) elsewhere
    · exact mine.count
  have calm (i : Fin n) : (s.calls i).storing = none ∧ (s.calls i).unblocked = false := by
    have rest := quiet.1 i
    cases phase : s.calls i <;> simp [phase, Attach.atRest, Attach.storing, Attach.unblocked] at rest ⊢
  constructor
  · exact closedOnce
  · intro i installed
    obtain ⟨c, mine⟩ := run_custodian reached i
    rw [mine.count, mine.installed.1 installed]
    rfl
  · intro stopped
    have gone : s.egress = none := flags.cleared (by simp [stopped, Stop.cleared])
    exact ⟨gone, fun i opened => closedOnce i opened (by simp [gone, displaced])⟩
  · intro _ e installed
    have same : e.quic = s.egressQUIC := by
      rcases flags.installed e installed with same | ⟨j, storing⟩
      · exact same
      · simp [calm j] at storing
    refine ⟨same.symm, fun b made => ?_⟩
    rcases flags.stack b made with flag | ⟨j, unblocked⟩
    · rw [flag, flags.egressOn (by simp [installed]), same]
      rfl
    · simp [calm j] at unblocked

def attaching (i : Fin n) (quic : Bool) : List (Action n) :=
  [.lookup i, .connect i quic, .storeQUIC i, .storeBlock i, .swap i]

instance decidableOrdered : ∀ (s : Tunnel n) (a : Action n), Decidable (Ordered s a)
  | s, .storeQUIC i =>
    inferInstanceAs (Decidable (∀ j quic, (s.calls j).storing = some quic → s.calls i = .connected quic))
  | s, .swap _ => inferInstanceAs (Decidable (s.stopper.cleared = false))
  | _, .lookup _ | _, .fail _ | _, .connect _ _ | _, .storeBlock _ | _, .closeOld _ | _, .ensureStack _ | _, .stop =>
    .isTrue trivial

def attachTwice : List (Action 2) :=
  attaching 0 true ++ .ensureStack true :: attaching 1 false ++ .closeOld 1 :: List.replicate 5 .stop

theorem attach_twice_settled :
    ∃ s, run step (start 2 false true) attachTwice = some s ∧ s.stopper = .stopped ∧ s.Settled :=
  have ordered : Along step Ordered (start 2 false true) attachTwice := by decide
  ⟨_, rfl, rfl, egress_settled ordered rfl ⟨by decide, rfl⟩⟩

/-- A call that has found the path before StopTunnel installs its connection behind it, and
    two calls can leave the flag of the one with the connection of the other. -/
theorem late_attach_leaks :
    (∃ s, run step (start 1 false true)
        ([.lookup 0, .connect 0 true, .storeQUIC 0, .storeBlock 0] ++ List.replicate 4 .stop ++ [.swap 0]) = some s ∧
      s.Quiet ∧ s.stopper = .stopped ∧ s.egress = some (.tssh 0 true) ∧ s.closes 0 = 0 ∧ ¬ s.Settled) ∧
    (∃ s, run step (start 2 false true)
        ([.lookup 0, .lookup 1, .connect 0 true, .connect 1 false, .storeQUIC 1, .storeQUIC 0, .storeBlock 0,
          .swap 0, .storeBlock 1, .swap 1, .closeOld 1]) = some s ∧
      s.Quiet ∧ s.stopper = .idle ∧ s.egress = some (.tssh 1 false) ∧ s.egressQUIC = true ∧ ¬ s.Settled) :=
  ⟨⟨_, rfl, ⟨by decide, rfl⟩, rfl, rfl, rfl, fun settled => nomatch (settled.ended rfl).1⟩,
    ⟨_, rfl, ⟨by decide, rfl⟩, rfl, rfl, rfl, fun settled => nomatch (settled.fitting rfl _ rfl).1⟩⟩

end Settling

end EgressAttach
