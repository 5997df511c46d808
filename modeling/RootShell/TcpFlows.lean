import RootShell.KeyedTables
import RootShell.ThreadPools
import Mathlib.Algebra.BigOperators.Pi

/-!
The TCP flows of the tunnel: one goroutine a request, a semaphore that bounds how many run, the
counters of the status, and the registry through which flows are reset. A goroutine puts its
cleanups on a stack and runs them, last one first, when it returns. Each action is one access to
what is shared, or one call to the netstack or a dialer.
-/
namespace TcpFlows
open Interleaving KeyedTables ThreadPools
universe u
variable {A : Type u} {n e m cap : Nat} {v6 : Fin n → Bool} {dst : Fin n → A}

inductive Phase where
  | unborn
  | waiting
  | admitted
  | preDialing
  | accepting
  | accepted
  | countedActive
  | countedTCP
  | counted
  | registered
  | captured
  | bridging
  | draining
  | returning
  | ended
  deriving DecidableEq

inductive Deferred (e : Nat) where
  | releaseSlot
  | connCancel
  | closePreDialed
  | closeEndpoint
  | closedActive
  | closedTCP
  | remove (env : Fin e) (id : Nat)
  | recordRawTunnel
  deriving DecidableEq

/-- The context, the endpoint or a connection of a flow; a pre-dialed one is passed on by the first dial. -/
inductive Resource where
  | missing
  | opened
  | passed
  | closed
  deriving DecidableEq

def Resource.close : Resource → Resource
  | .opened => .closed
  | c => c

def Resource.passOn : Resource → Resource
  | .opened => .passed
  | c => c

structure Flow (e : Nat) where
  phase : Phase
  deferred : List (Deferred e)
  env : Option (Fin e)
  peek : Bool
  connCtx : Resource
  preDialed : Resource
  remote : Resource
  endpoint : Resource
  answers : List Bool
  records : Nat
  aborts : Nat

structure Registry (n : Nat) where
  seq : Nat
  flows : Table Nat (Fin n)

/-- The semaphore, the registry of each capture environment, the flows that callers of `abortMatching`
    have still to abort and those they have still to cancel, the counters, how many of its five counter
    updates each UDP flow has made, and whether the tunnel has been closed. -/
structure Shared (n e m : Nat) where
  slots : Nat
  registries : Fin e → Registry n
  hits : List (Fin n)
  cancels : List (Fin n)
  activeConns : Int
  activeTCPConns : Int
  activeUDPConns : Int
  totalConns : Int
  tcpCapacityDrops : Int
  udp : Fin m → Nat
  closed : Bool

namespace Flow
variable (f : Flow e)

@[simp] def goto (next : Phase) : Flow e := { f with phase := next }

@[simp] def later (d : Deferred e) : Flow e := { f with deferred := d :: f.deferred }

@[simp] def complete (sendReset : Bool) : Flow e := { f with answers := f.answers ++ [sendReset] }

@[simp] def refuse : Flow e := (f.complete true).goto .returning

@[simp] def acquire : Flow e := (f.later .releaseSlot).goto .admitted

/-- `connCtx`, the capture state and environment, and for IPv4 nothing dialed before the accept. -/
def prepare (v6 : Bool) (env : Option (Fin e)) (peek : Bool) : Flow e :=
  let ready := { f.later .connCancel with connCtx := .opened, env := env, peek := peek }
  if v6 then ready.goto .preDialing else (ready.later .closePreDialed).goto .accepting

def preDial (ok : Bool) : Flow e :=
  if ok then ({ f with preDialed := .opened }.later .closePreDialed).goto .accepting else f.refuse

def createEndpoint (ok : Bool) : Flow e :=
  if ok then ({ f.complete false with endpoint := .opened }.later .closeEndpoint).goto .accepted else f.refuse

def dial (ok : Bool) : Flow e :=
  if f.preDialed = .opened ∨ ok = true then
    ({ f with preDialed := f.preDialed.passOn, remote := .opened }.later .recordRawTunnel).goto .bridging
  else { f with records := f.records + 1 }.goto .returning

@[simp] def firstDone : Flow e := { f with connCtx := f.connCtx.close, remote := f.remote.close }.goto .draining

end Flow

namespace Shared
variable (s : Shared n e m)

@[simp] def take : Shared n e m := { s with slots := s.slots + 1 }

def register (k : Fin e) (r : Registry n) : Shared n e m := { s with registries := Function.update s.registries k r }

def nextId (k : Fin e) : Nat := (s.registries k).seq + 1

def add (k : Fin e) (i : Fin n) : Shared n e m :=
  s.register k ⟨s.nextId k, (s.registries k).flows.insert (s.nextId k) i⟩

def remove (k : Fin e) (id : Nat) : Shared n e m :=
  s.register k { s.registries k with flows := (s.registries k).flows.erase id }

def entry (k : Fin e) (id : Nat) : Option (Fin n) := get (some (s.registries k).flows) id

/-- What `abortMatching` does under its lock; `abortAll` is the case of a condition that always holds. -/
def abortMatching (k : Fin e) (hit : Fin n → Bool) : Shared n e m :=
  { s.register k { s.registries k with flows := KeyedTables.filter (fun _ i => !hit i) (s.registries k).flows } with
    hits := s.hits ++ values (some (KeyedTables.filter (fun _ i => hit i) (s.registries k).flows)) }

def udpNext (j : Fin m) : Shared n e m :=
  let s' := { s with udp := Function.update s.udp j (s.udp j + 1) }
  match s.udp j with
  | 0 => { s' with activeConns := s.activeConns + 1 }
  | 1 => { s' with activeUDPConns := s.activeUDPConns + 1 }
  | 2 => { s' with totalConns := s.totalConns + 1 }
  | 3 => { s' with activeConns := s.activeConns - 1 }
  | _ => { s' with activeUDPConns := s.activeUDPConns - 1 }

end Shared

def perform (s : Shared n e m) (f : Flow e) : Deferred e → Option (Shared n e m × Flow e)
  | .releaseSlot => if 0 < s.slots then some ({ s with slots := s.slots - 1 }, f) else none
  | .connCancel => some (s, { f with connCtx := f.connCtx.close })
  | .closePreDialed => some (s, { f with preDialed := f.preDialed.close })
  | .closeEndpoint => some (s, { f with endpoint := f.endpoint.close })
  | .closedActive => some ({ s with activeConns := s.activeConns - 1 }, f)
  | .closedTCP => some ({ s with activeTCPConns := s.activeTCPConns - 1 }, f)
  | .remove k id => some (s.remove k id, f)
  | .recordRawTunnel => some (s, { f with records := f.records + 1 })

inductive Own (e : Nat) where
  | request
  | acquire
  | waitCancelled
  | waitExpired
  | prepare (env : Option (Fin e)) (peek : Bool)
  | preDial (ok : Bool)
  | createEndpoint (ok : Bool)
  | openActive
  | openTCP
  | openTotal
  | register
  | serve
  | dialCaptured
  | served
  | dial (ok : Bool)
  | firstDone
  | secondDone
  | unwind
  | abort
  | cancelHit

inductive Outer (A : Type u) (e m : Nat) where
  | abortMatching (k : Fin e) (match_ : A → Bool)
  | udp (j : Fin m)
  | close

/-- The moves of flow `i`. An abort or a cancel of it is a move of whoever found it in a registry. -/
def own (cap : Nat) (v6 : Fin n → Bool) (i : Fin n) (s : Shared n e m) (f : Flow e) :
    Own e → Option (Shared n e m × Flow e)
  | .request =>
    if f.phase = .unborn then
      if s.slots < cap then some (s.take, f.acquire) else some (s, f.goto .waiting)
    else none
  | .acquire => if f.phase = .waiting ∧ s.slots < cap then some (s.take, f.acquire) else none
  | .waitCancelled => if f.phase = .waiting ∧ s.closed = true then some (s, f.refuse) else none
  | .waitExpired =>
    if f.phase = .waiting then some ({ s with tcpCapacityDrops := s.tcpCapacityDrops + 1 }, f.refuse) else none
  | .prepare env peek =>
    if f.phase = .admitted ∧ (peek = true → env.isSome = true) then some (s, f.prepare (v6 i) env peek) else none
  | .preDial ok => if f.phase = .preDialing then some (s, f.preDial ok) else none
  | .createEndpoint ok => if f.phase = .accepting then some (s, f.createEndpoint ok) else none
  | .openActive =>
    if f.phase = .accepted then some ({ s with activeConns := s.activeConns + 1 }, f.goto .countedActive) else none
  | .openTCP =>
    if f.phase = .countedActive then some ({ s with activeTCPConns := s.activeTCPConns + 1 }, f.goto .countedTCP)
    else none
  | .openTotal =>
    if f.phase = .countedTCP then
      some ({ s with totalConns := s.totalConns + 1 }, ((f.later .closedTCP).later .closedActive).goto .counted)
    else none
  | .register =>
    if f.phase = .counted then
      match f.env with
      | none => some (s, f.goto .registered)
      | some k => some (s.add k i, (f.later (.remove k (s.nextId k))).goto .registered)
    else none
  | .serve => if f.phase = .registered ∧ f.peek = true then some (s, f.goto .captured) else none
  | .dialCaptured => if f.phase = .captured then some (s, { f with preDialed := f.preDialed.passOn }) else none
  | .served =>
    if f.phase = .captured then some (s, { f with endpoint := f.endpoint.close }.goto .returning) else none
  | .dial ok => if f.phase = .registered ∧ f.peek = false then some (s, f.dial ok) else none
  | .firstDone => if f.phase = .bridging then some (s, f.firstDone) else none
  | .secondDone => if f.phase = .draining then some (s, f.goto .returning) else none
  | .unwind =>
    if f.phase = .returning then
      match f.deferred with
      | [] => some (s, f.goto .ended)
      | d :: ds => perform s { f with deferred := ds } d
    else none
  | .abort =>
    if s.hits.contains i then
      some ({ s with hits := s.hits.erase i, cancels := i :: s.cancels }, { f with aborts := f.aborts + 1 })
    else none
  | .cancelHit =>
    if s.cancels.contains i then some ({ s with cancels := s.cancels.erase i }, { f with connCtx := f.connCtx.close })
    else none

def outer (dst : Fin n → A) (s : Shared n e m) : Outer A e m → Option (Shared n e m)
  | .abortMatching k match_ => some (s.abortMatching k fun i => match_ (dst i))
  | .udp j => if s.udp j < 5 then some (s.udpNext j) else none
  | .close => some { s with closed := true }

def moves (cap : Nat) (v6 : Fin n → Bool) (dst : Fin n → A) :
    Moves (Shared n e m) (Flow e) (Own e) (Outer A e m) n := ⟨own cap v6, outer dst⟩

def start (n e m : Nat) : Pool (Shared n e m) (Flow e) n where
  shared := ⟨0, fun _ => ⟨0, ∅⟩, [], [], 0, 0, 0, 0, 0, fun _ => 0, false⟩
  locals _ := ⟨.unborn, [], none, false, .missing, .missing, .missing, .missing, [], 0, 0⟩

section Tallies

/-- The part of each counter that a flow accounts for: what it has taken and not yet given back. -/
@[simp] def Flow.slot (f : Flow e) : Int := f.deferred.count .releaseSlot

@[simp] def Flow.active (f : Flow e) : Int :=
  f.deferred.count .closedActive + if f.phase = .countedActive ∨ f.phase = .countedTCP then 1 else 0

@[simp] def Flow.activeTCP (f : Flow e) : Int :=
  f.deferred.count .closedTCP + if f.phase = .countedTCP then 1 else 0

@[simp] def Flow.opened (f : Flow e) : Int :=
  f.answers.count false -
    if f.phase = .accepted ∨ f.phase = .countedActive ∨ f.phase = .countedTCP then 1 else 0

def udpActive (done : Nat) : Int := if 1 ≤ done ∧ done ≤ 3 then 1 else 0

def udpActiveUDP (done : Nat) : Int := if 2 ≤ done ∧ done ≤ 4 then 1 else 0

def udpOpened (done : Nat) : Int := if 3 ≤ done then 1 else 0

@[simp] def Shared.tcpShare (s : Shared n e m) : Int × Int × Int × Int × Int :=
  (s.slots, s.activeConns - ∑ j, udpActive (s.udp j), s.activeTCPConns, s.totalConns - ∑ j, udpOpened (s.udp j),
    s.activeUDPConns - ∑ j, udpActiveUDP (s.udp j))

@[simp] def Flow.share (f : Flow e) : Int × Int × Int × Int × Int := (f.slot, f.active, f.activeTCP, f.opened, 0)

variable {i : Fin n} {s t : Shared n e m} {f h : Flow e}

theorem perform_balance {d : Deferred e} {ds : List (Deferred e)} (stack : f.deferred = d :: ds)
    (back : f.phase = .returning) (moved : perform s { f with deferred := ds } d = some (t, h)) :
    t.tcpShare - s.tcpShare = h.share - f.share := by
  cases d with
  | releaseSlot =>
    obtain ⟨taken, same⟩ := guarded moved
    cases same
    simp [stack, back]
    omega
  | remove k id =>
    cases moved
    simp [stack, back, Shared.remove, Shared.register]
  | _ =>
    cases moved
    simp [stack, back]

theorem own_balance {a : Own e} (moved : own cap v6 i s f a = some (t, h)) :
    t.tcpShare - s.tcpShare = h.share - f.share := by
  cases a with
  | request | register =>
    obtain ⟨here, moved⟩ := Option.ite_none_right_eq_some.1 moved
    split at moved <;> cases moved <;> simp [here, Shared.add, Shared.register]
  | unwind =>
    obtain ⟨here, moved⟩ := Option.ite_none_right_eq_some.1 moved
    split at moved
    · cases moved
      simp [here]
    · rename_i stack
      exact perform_balance stack here moved
  | prepare env peek =>
    obtain ⟨here, same⟩ := guarded moved
    cases same
    cases v6 i <;> simp [here, Flow.prepare]
  | preDial ok | createEndpoint ok =>
    obtain ⟨here, same⟩ := guarded moved
    cases same
    cases ok <;> simp [here, Flow.preDial, Flow.createEndpoint]
  | dial ok =>
    obtain ⟨here, same⟩ := guarded moved
    cases same
    unfold Flow.dial
    split <;> simp [here]
  | _ =>
    obtain ⟨here, same⟩ := guarded moved
    cases same
    simp [here]

theorem udpNext_share (s : Shared n e m) {j : Fin m} (more : s.udp j < 5) : (s.udpNext j).tcpShare = s.tcpShare := by
  have active := sum_update udpActive s.udp j (s.udp j + 1)
  have activeUDP := sum_update udpActiveUDP s.udp j (s.udp j + 1)
  have opened := sum_update udpOpened s.udp j (s.udp j + 1)
  unfold Shared.udpNext
  split <;> simp_all [udpActive, udpActiveUDP, udpOpened]
  all_goals omega

theorem outer_balance {b : Outer A e m} (moved : outer dst s b = some t) : t.tcpShare = s.tcpShare := by
  cases b with
  | udp j =>
    obtain ⟨more, same⟩ := guarded moved
    rw [← same, udpNext_share s more]
  | _ =>
    cases moved
    rfl

theorem share_balanced :
    Balanced (moves (e := e) (m := m) cap v6 dst) (fun _ _ => True) Shared.tcpShare Flow.share where
  own _ _ _ _ _ _ _ moved := own_balance moved
  outer _ _ _ moved := outer_balance moved

theorem total_share (p : Pool (Shared n e m) (Flow e) n) :
    p.total Flow.share = (p.total Flow.slot, p.total Flow.active, p.total Flow.activeTCP, p.total Flow.opened, 0) := by
  simp [Pool.total, Prod.ext_iff, Prod.fst_sum, Prod.snd_sum]

end Tallies

section Bounds
variable {i : Fin n} {s t : Shared n e m} {f h : Flow e}

theorem own_bounded {a : Own e} (moved : own cap v6 i s f a = some (t, h)) (within : s.slots ≤ cap) :
    t.slots ≤ cap := by
  cases a with
  | request =>
    obtain ⟨here, moved⟩ := Option.ite_none_right_eq_some.1 moved
    split at moved
    · rename_i room
      cases moved
      exact room
    · cases moved
      exact within
  | acquire =>
    obtain ⟨room, same⟩ := guarded moved
    cases same
    exact room.2
  | register =>
    obtain ⟨here, moved⟩ := Option.ite_none_right_eq_some.1 moved
    split at moved <;> cases moved <;> exact within
  | unwind =>
    obtain ⟨here, moved⟩ := Option.ite_none_right_eq_some.1 moved
    split at moved
    · cases moved
      exact within
    · rename_i d ds stack
      cases d with
      | releaseSlot =>
        obtain ⟨taken, same⟩ := guarded moved
        cases same
        exact (Nat.sub_le _ _).trans within
      | _ =>
        cases moved
        exact within
  | _ =>
    obtain ⟨here, same⟩ := guarded moved
    cases same
    exact within

theorem outer_bounded {b : Outer A e m} (moved : outer dst s b = some t) (within : s.slots ≤ cap) : t.slots ≤ cap := by
  cases b with
  | udp j =>
    obtain ⟨_, same⟩ := guarded moved
    rw [← same]
    unfold Shared.udpNext
    split <;> exact within
  | _ =>
    cases moved
    exact within

end Bounds

section Locals

def Phase.answered : Phase → Bool
  | .unborn | .waiting | .admitted | .preDialing | .accepting => false
  | _ => true

def Phase.filed : Phase → Bool
  | .registered | .captured | .bridging | .draining | .returning | .ended => true
  | _ => false

@[simp] def removals : List (Deferred e) → List (Fin e × Nat)
  | [] => []
  | .remove k id :: ds => (k, id) :: removals ds
  | _ :: ds => removals ds

structure Flow.Sound (f : Flow e) : Prop where
  idle : f.phase = .unborn ∨ f.phase = .waiting ∨ f.phase = .ended → f.deferred = []
  answers : f.answers.length = if f.phase.answered then 1 else 0
  connCtx : f.connCtx = .opened → .connCancel ∈ f.deferred
  preDialed : f.preDialed = .opened → .closePreDialed ∈ f.deferred
  endpoint : f.endpoint = .opened → .closeEndpoint ∈ f.deferred
  remote : f.remote = .opened → f.phase = .bridging
  filings : (removals f.deferred).length ≤ if f.phase.filed then 1 else 0
  slot : f.deferred.count .releaseSlot ≤ 1
  active : f.deferred.count .closedActive ≤ if f.phase.filed ∨ f.phase = .counted then 1 else 0
  activeTCP : f.deferred.count .closedTCP ≤ if f.phase.filed ∨ f.phase = .counted then 1 else 0
  opened : f.phase = .accepted ∨ f.phase = .countedActive ∨ f.phase = .countedTCP → f.answers = [false]

theorem close_ne_opened (r : Resource) : r.close ≠ .opened := by cases r <;> simp [Resource.close]

theorem passOn_ne_opened (r : Resource) : r.passOn ≠ .opened := by cases r <;> simp [Resource.passOn]

variable {i : Fin n} {s t : Shared n e m} {f h : Flow e}

theorem perform_sound {d : Deferred e} {ds : List (Deferred e)} (sound : f.Sound) (stack : f.deferred = d :: ds)
    (back : f.phase = .returning) (moved : perform s { f with deferred := ds } d = some (t, h)) : h.Sound := by
  cases sound
  cases d with
  | releaseSlot =>
    obtain ⟨taken, same⟩ := guarded moved
    cases same
    constructor <;> simp_all
  | remove k id | closedActive | closedTCP =>
    cases moved
    constructor <;> simp_all [Phase.filed]
  | _ =>
    cases moved
    constructor <;> first | assumption | simp_all [close_ne_opened]

theorem Flow.Sound.prepare {env : Option (Fin e)} {peek : Bool} (sound : f.Sound) (here : f.phase = .admitted) :
    (f.prepare is6 env peek).Sound := by
  cases sound
  cases is6 <;> constructor <;> simp_all [Flow.prepare, Phase.answered, Phase.filed]

theorem Flow.Sound.preDial (sound : f.Sound) (here : f.phase = .preDialing) : (f.preDial ok).Sound := by
  cases sound
  cases ok <;> constructor <;> simp_all [Flow.preDial, Phase.answered, Phase.filed]

theorem Flow.Sound.createEndpoint (sound : f.Sound) (here : f.phase = .accepting) : (f.createEndpoint ok).Sound := by
  cases sound
  cases ok <;> constructor <;> simp_all [Flow.createEndpoint, Phase.answered, Phase.filed]

theorem Flow.Sound.dial (sound : f.Sound) (here : f.phase = .registered) : (f.dial ok).Sound := by
  cases sound
  unfold Flow.dial
  split <;> constructor <;> simp_all [Phase.answered, Phase.filed, passOn_ne_opened]

theorem own_sound {a : Own e} (sound : f.Sound) (moved : own cap v6 i s f a = some (t, h)) : h.Sound := by
  cases a with
  | unwind =>
    obtain ⟨here, moved⟩ := Option.ite_none_right_eq_some.1 moved
    split at moved
    · cases moved
      cases sound
      constructor <;> simp_all [Phase.answered, Phase.filed]
    · rename_i stack
      exact perform_sound sound stack here moved
  | request | register =>
    obtain ⟨here, moved⟩ := Option.ite_none_right_eq_some.1 moved
    cases sound
    split at moved <;> cases moved <;> constructor <;> simp_all [Phase.answered, Phase.filed]
  | prepare env peek =>
    obtain ⟨here, same⟩ := guarded moved
    cases same
    exact sound.prepare here.1
  | preDial ok =>
    obtain ⟨here, same⟩ := guarded moved
    cases same
    exact sound.preDial here
  | createEndpoint ok =>
    obtain ⟨here, same⟩ := guarded moved
    cases same
    exact sound.createEndpoint here
  | dial ok =>
    obtain ⟨here, same⟩ := guarded moved
    cases same
    exact sound.dial here.1
  | _ =>
    obtain ⟨here, same⟩ := guarded moved
    cases same
    cases sound
    constructor <;> first | assumption | simp_all [Phase.answered, Phase.filed, passOn_ne_opened, close_ne_opened]

end Locals

end TcpFlows
